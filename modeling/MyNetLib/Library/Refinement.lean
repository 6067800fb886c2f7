import Mathlib

/-! # Queues and refinement of interpreters

A `Fifo` is a queue together with everything that ever entered and left it;
its one field of proof says that nothing is lost, doubled or reordered. The
second half relates a partial interpreter of operations to a total
specification of them: if one operation agrees, every admissible sequence of
operations does.
-/

namespace MyNetLib.Library

universe u v w

/-! ## Queues with their history -/

structure Fifo (α : Type u) where
  arrived : List α
  removed : List α
  content : List α
  conserved : removed ++ content = arrived

namespace Fifo

variable {α : Type u}

def empty : Fifo α := ⟨[], [], [], rfl⟩

def push (q : Fifo α) (xs : List α) : Fifo α where
  arrived := q.arrived ++ xs
  removed := q.removed
  content := q.content ++ xs
  conserved := by rw [← List.append_assoc, q.conserved]

def pop (q : Fifo α) (n : Nat) : Fifo α where
  arrived := q.arrived
  removed := q.removed ++ q.content.take n
  content := q.content.drop n
  conserved := by rw [List.append_assoc, List.take_append_drop, q.conserved]

@[simp] theorem empty_content : (empty : Fifo α).content = [] := rfl

@[simp] theorem push_content (q : Fifo α) (xs : List α) :
    (q.push xs).content = q.content ++ xs := rfl

@[simp] theorem pop_content (q : Fifo α) (n : Nat) :
    (q.pop n).content = q.content.drop n := rfl

end Fifo

/-! ## Interpreters -/

variable {σ : Type u} {τ : Type v} {ο ω : Type w}

/-- Run a sequence of operations, collecting what each returns. -/
def runAll (exec : σ → ο → Option (ω × σ)) : σ → List ο → Option (List ω × σ)
  | s, [] => some ([], s)
  | s, op :: rest =>
      match exec s op with
      | none => none
      | some (out, s') => (runAll exec s' rest).map fun r => (out :: r.1, r.2)

/-- The same for a total specification. -/
def specAll (spec : τ → ο → ω × τ) : τ → List ο → List ω × τ
  | t, [] => ([], t)
  | t, op :: rest =>
      let r := specAll spec (spec t op).2 rest
      ((spec t op).1 :: r.1, r.2)

/-- Every operation of the sequence is admissible in the state it meets. -/
def AdmissibleRun (exec : σ → ο → Option (ω × σ)) (adm : σ → ο → Prop) : σ → List ο → Prop
  | _, [] => True
  | s, op :: rest => adm s op ∧
      match exec s op with
      | none => True
      | some r => AdmissibleRun exec adm r.2 rest

theorem runAll_refines {exec : σ → ο → Option (ω × σ)} {adm : σ → ο → Prop}
    {spec : τ → ο → ω × τ} {R : σ → τ → Prop}
    (hstep : ∀ s t op out s', R s t → adm s op → exec s op = some (out, s') →
      out = (spec t op).1 ∧ R s' (spec t op).2)
    {s s' : σ} {t : τ} {ops : List ο} {outs : List ω} (hR : R s t)
    (hadm : AdmissibleRun exec adm s ops) (hrun : runAll exec s ops = some (outs, s')) :
    outs = (specAll spec t ops).1 ∧ R s' (specAll spec t ops).2 := by
  induction ops generalizing s t outs with
  | nil =>
      simp only [runAll, Option.some.injEq, Prod.mk.injEq] at hrun
      obtain ⟨rfl, rfl⟩ := hrun
      exact ⟨rfl, hR⟩
  | cons op rest ih =>
      cases he : exec s op with
      | none => simp [runAll, he] at hrun
      | some pair =>
          obtain ⟨out, middle⟩ := pair
          have hone := hstep s t op out middle hR hadm.1 he
          simp only [runAll, he, Option.map_eq_some_iff, Prod.mk.injEq, Prod.exists] at hrun
          obtain ⟨outs', last, hrest, rfl, rfl⟩ := hrun
          have hadm' := hadm.2
          simp only [he] at hadm'
          have htail := ih hone.2 hadm' hrest
          exact ⟨by rw [specAll, hone.1, htail.1], htail.2⟩

/-! ## Invariants of a run -/

/-- What every admissible operation keeps holds at the end of every admissible run. -/
theorem runAll_invariant {exec : σ → ο → Option (ω × σ)} {adm : σ → ο → Prop} {I : σ → Prop}
    (hstep : ∀ s op out s', I s → adm s op → exec s op = some (out, s') → I s')
    {s s' : σ} {ops : List ο} {outs : List ω} (hI : I s) (hadm : AdmissibleRun exec adm s ops)
    (hrun : runAll exec s ops = some (outs, s')) : I s' := by
  induction ops generalizing s outs with
  | nil =>
      simp only [runAll, Option.some.injEq, Prod.mk.injEq] at hrun
      obtain ⟨rfl, rfl⟩ := hrun
      exact hI
  | cons op rest ih =>
      cases he : exec s op with
      | none => simp [runAll, he] at hrun
      | some pair =>
          obtain ⟨out, middle⟩ := pair
          simp only [runAll, he, Option.map_eq_some_iff, Prod.mk.injEq, Prod.exists] at hrun
          obtain ⟨outs', last, hrest, rfl, rfl⟩ := hrun
          have hadm' := hadm.2
          simp only [he] at hadm'
          exact ih (hstep s op out middle hI hadm.1 he) hadm' hrest

/-- The second part of an admissible run is admissible where the first part ends. -/
theorem AdmissibleRun.append {exec : σ → ο → Option (ω × σ)} {adm : σ → ο → Prop}
    {s s' : σ} {xs ys : List ο} {outs : List ω} (hadm : AdmissibleRun exec adm s (xs ++ ys))
    (hrun : runAll exec s xs = some (outs, s')) :
    AdmissibleRun exec adm s xs ∧ AdmissibleRun exec adm s' ys := by
  induction xs generalizing s outs with
  | nil =>
      simp only [runAll, Option.some.injEq, Prod.mk.injEq] at hrun
      obtain ⟨-, rfl⟩ := hrun
      exact ⟨trivial, hadm⟩
  | cons op rest ih =>
      cases he : exec s op with
      | none => simp [runAll, he] at hrun
      | some pair =>
          simp only [runAll, he, Option.map_eq_some_iff, Prod.mk.injEq, Prod.exists] at hrun
          obtain ⟨outs', last, hrest, -, rfl⟩ := hrun
          have hadm' := hadm.2
          simp only [he] at hadm'
          have htail := ih hadm' hrest
          refine ⟨⟨hadm.1, ?_⟩, htail.2⟩
          simp only [he]
          exact htail.1

/-! ## Two runs of the same operations -/

/-- `P` holds for every operation at the two states it meets, up to the first one that does
not return in both runs. -/
def TwoRun (exec : σ → ο → Option (ω × σ)) (P : σ → σ → ο → Prop) : σ → σ → List ο → Prop
  | _, _, [] => True
  | s, t, op :: rest => P s t op ∧
      match exec s op, exec t op with
      | some r, some q => TwoRun exec P r.2 q.2 rest
      | _, _ => True

/-- Two properties that agree under a relation both runs keep agree over the runs. -/
theorem twoRun_iff {exec : σ → ο → Option (ω × σ)} {adm : ο → Prop} {P Q : σ → σ → ο → Prop}
    {R : σ → σ → Prop}
    (hagree : ∀ s t op, R s t → adm op → (P s t op ↔ Q s t op))
    (hstep : ∀ s t op r q, R s t → adm op → exec s op = some r → exec t op = some q → R r.2 q.2)
    {s t : σ} {ops : List ο} (hR : R s t) (hadm : ∀ op ∈ ops, adm op) :
    TwoRun exec P s t ops ↔ TwoRun exec Q s t ops := by
  induction ops generalizing s t with
  | nil => exact Iff.rfl
  | cons op rest ih =>
      have hop : adm op := hadm op List.mem_cons_self
      have hrest : ∀ op ∈ rest, adm op := fun o ho => hadm o (List.mem_cons_of_mem _ ho)
      simp only [TwoRun]
      refine and_congr (hagree s t op hR hop) ?_
      cases hs : exec s op with
      | none => exact Iff.rfl
      | some r =>
          cases ht : exec t op with
          | none => exact Iff.rfl
          | some q => exact ih (hstep s t op r q hR hop hs ht) hrest

end MyNetLib.Library
