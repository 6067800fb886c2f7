import Mathlib

/-! # Labelled machines and guarded runs

A machine is a set of start states and a partial step function; every choice
the environment makes (a scheduler, a kernel result, a caller) is part of the
label, so one label determines the successor. `Reach` collects the states of
the runs whose steps all meet a guard. The guard sees the state before the
step, which is how a condition on a run is stated without mentioning what the
step computes.
-/

namespace MyNetLib.Library

universe u v

structure Machine (σ : Type u) (α : Type v) where
  start : σ → Prop
  step : σ → α → Option σ

namespace Machine

variable {σ : Type u} {α : Type v}

/-- States of the runs from a start state whose every step meets `guard`. -/
inductive Reach (M : Machine σ α) (guard : σ → α → Prop) : σ → Prop
  | start {s : σ} : M.start s → Reach M guard s
  | step {s s' : σ} {a : α} : Reach M guard s → guard s a → M.step s a = some s' →
      Reach M guard s'

/-- Run a list of labels, stopping at the first one that is not enabled. -/
def run (M : Machine σ α) : σ → List α → Option σ
  | s, [] => some s
  | s, a :: rest => (M.step s a).bind (fun s' => M.run s' rest)

/-- `Follows guard s s'`: some guarded run leads from `s` to `s'`. -/
inductive Follows (M : Machine σ α) (guard : σ → α → Prop) (s : σ) : σ → Prop
  | refl : Follows M guard s s
  | step {t t' : σ} {a : α} : Follows M guard s t → guard t a → M.step t a = some t' →
      Follows M guard s t'

variable {M : Machine σ α} {guard : σ → α → Prop}

@[simp] theorem run_nil (M : Machine σ α) (s : σ) : M.run s [] = some s := rfl

theorem run_cons (M : Machine σ α) (s : σ) (a : α) (rest : List α) :
    M.run s (a :: rest) = (M.step s a).bind (fun s' => M.run s' rest) := rfl

/-- The invariant rule: true at the start and kept by every guarded step. -/
theorem Reach.invariant {I : σ → Prop} (hstart : ∀ s, M.start s → I s)
    (hstep : ∀ s a s', I s → guard s a → M.step s a = some s' → I s') {s : σ}
    (h : Reach M guard s) : I s := by
  induction h with
  | start hs => exact hstart _ hs
  | step _ hg hs ih => exact hstep _ _ _ ih hg hs

theorem Reach.follows {s s' : σ} (h : Reach M guard s) (hf : Follows M guard s s') :
    Reach M guard s' := by
  induction hf with
  | refl => exact h
  | step _ hg hs ih => exact .step ih hg hs

theorem Follows.trans {s t u : σ} (h₁ : Follows M guard s t) (h₂ : Follows M guard t u) :
    Follows M guard s u := by
  induction h₂ with
  | refl => exact h₁
  | step _ hg hs ih => exact .step ih hg hs

/-- The invariant rule for the tail of a run. -/
theorem Follows.invariant {I : σ → Prop} {s : σ} (hs : I s)
    (hstep : ∀ t a t', I t → guard t a → M.step t a = some t' → I t') {s' : σ}
    (h : Follows M guard s s') : I s' := by
  induction h with
  | refl => exact hs
  | step _ hg ht ih => exact hstep _ _ _ ih hg ht

/-- A list of labels that satisfy the guard in every state is a guarded run. -/
theorem Follows.of_run {s s' : σ} (labels : List α) (hg : ∀ a ∈ labels, ∀ t, guard t a)
    (hr : M.run s labels = some s') : Follows M guard s s' := by
  induction labels generalizing s with
  | nil =>
      simp only [run_nil, Option.some.injEq] at hr
      exact hr ▸ .refl
  | cons a rest ih =>
      rw [run_cons] at hr
      cases hs : M.step s a with
      | none => simp [hs] at hr
      | some t =>
          simp only [hs, Option.bind_some] at hr
          have hfirst : Follows M guard s t := .step .refl (hg a List.mem_cons_self s) hs
          exact hfirst.trans (ih (fun b hb => hg b (List.mem_cons_of_mem a hb)) hr)

theorem Reach.of_run {s s' : σ} (labels : List α) (h : Reach M guard s)
    (hg : ∀ a ∈ labels, ∀ t, guard t a) (hr : M.run s labels = some s') :
    Reach M guard s' := h.follows (.of_run labels hg hr)

section Guarded

variable [∀ s a, Decidable (guard s a)]

/-- Run a list of labels, checking the guard before every step. -/
def runGuarded (M : Machine σ α) (guard : σ → α → Prop) [∀ s a, Decidable (guard s a)] :
    σ → List α → Option σ
  | s, [] => some s
  | s, a :: rest =>
      if guard s a then (M.step s a).bind (fun s' => M.runGuarded guard s' rest) else none

theorem Follows.of_runGuarded {r s s' : σ} (labels : List α) (h : Follows M guard r s)
    (hr : M.runGuarded guard s labels = some s') : Follows M guard r s' := by
  induction labels generalizing s with
  | nil =>
      simp only [runGuarded, Option.some.injEq] at hr
      exact hr ▸ h
  | cons a rest ih =>
      by_cases hg : guard s a
      · simp only [runGuarded, if_pos hg] at hr
        cases hs : M.step s a with
        | none => simp [hs] at hr
        | some t =>
            simp only [hs, Option.bind_some] at hr
            exact ih (.step h hg hs) hr
      · simp [runGuarded, hg] at hr

theorem Reach.of_runGuarded {s s' : σ} (labels : List α) (h : Reach M guard s)
    (hr : M.runGuarded guard s labels = some s') : Reach M guard s' :=
  h.follows (Follows.of_runGuarded labels .refl hr)

/-- A guarded run whose last state passes a test leads to such a state. -/
theorem Follows.of_test (M : Machine σ α) (guard : σ → α → Prop) [∀ s a, Decidable (guard s a)]
    (test : σ → Bool) (labels : List α) {s : σ}
    (hr : (M.runGuarded guard s labels).any test = true) :
    ∃ s', Follows M guard s s' ∧ test s' = true := by
  obtain ⟨s', hs', htest⟩ := (Option.any_eq_true ..).1 hr
  exact ⟨s', .of_runGuarded labels .refl hs', htest⟩

theorem Reach.of_test (M : Machine σ α) (guard : σ → α → Prop) [∀ s a, Decidable (guard s a)]
    (test : σ → Bool) (labels : List α) {s : σ} (h : Reach M guard s)
    (hr : (M.runGuarded guard s labels).any test = true) :
    ∃ s', Reach M guard s' ∧ test s' = true := by
  obtain ⟨s', hf, htest⟩ := Follows.of_test M guard test labels hr
  exact ⟨s', h.follows hf, htest⟩

end Guarded

/-! ## Recorded runs -/

section Recorded

universe w

variable {ω : Type w} {out : σ → α → Option ω}

/-- The machine with a record of what its steps put out. -/
def recording (M : Machine σ α) (out : σ → α → Option ω) : Machine (σ × List ω) α where
  start t := M.start t.1 ∧ t.2 = []
  step t a := (M.step t.1 a).map fun s => (s, t.2 ++ (out t.1 a).toList)

/-- The invariant rule for the state together with the record. -/
theorem Reach.recorded {I : σ → List ω → Prop} (hstart : ∀ s, M.start s → I s [])
    (hstep : ∀ s a s' record, M.Reach guard s → I s record → guard s a → M.step s a = some s' →
      I s' (record ++ (out s a).toList))
    {t : σ × List ω} (h : (M.recording out).Reach (fun t => guard t.1) t) :
    M.Reach guard t.1 ∧ I t.1 t.2 := by
  induction h with
  | start hs => exact ⟨.start hs.1, hs.2 ▸ hstart _ hs.1⟩
  | step _ hg hs ih =>
      obtain ⟨s', hs', rfl⟩ := Option.map_eq_some_iff.1 hs
      exact ⟨.step ih.1 hg hs', hstep _ _ _ _ ih.1 ih.2 hg hs'⟩

end Recorded

end Machine

/-! ## Histories -/

section Histories

variable {ε : Type u} {P : List ε → ε → Prop}

/-- Every entry of a history is one that `P` allows after the entries before it. -/
def Always (P : List ε → ε → Prop) (history : List ε) : Prop :=
  ∀ before e after, history = before ++ e :: after → P before e

theorem Always.nil : Always P [] := by
  intro before e after h
  simp at h

/-- A history grows at its end: only the new entry has to be checked. -/
theorem Always.concat {history : List ε} {e : ε} (h : Always P history) (he : P history e) :
    Always P (history ++ [e]) := by
  intro before d after hsplit
  rcases List.eq_nil_or_concat after with rfl | ⟨after', last, rfl⟩
  · have heq := List.append_inj' hsplit rfl
    rw [← heq.1, ← (List.cons.inj heq.2).1]
    exact he
  · apply h before d after'
    have heq : history ++ [e] = (before ++ d :: after') ++ [last] := by
      rw [hsplit]
      simp
    exact (List.append_inj' heq rfl).1

@[simp] theorem always_concat {history : List ε} {e : ε} :
    Always P (history ++ [e]) ↔ Always P history ∧ P history e := by
  constructor
  · intro h
    refine ⟨?_, h history e [] rfl⟩
    rintro before d after rfl
    exact h before d (after ++ [e]) (by simp)
  · rintro ⟨h, he⟩
    exact h.concat he

@[simp] theorem always_concat_two {history : List ε} {d e : ε} :
    Always P (history ++ [d, e]) ↔ Always P history ∧ P history d ∧ P (history ++ [d]) e := by
  have hsplit : history ++ [d, e] = history ++ [d] ++ [e] := by simp
  rw [hsplit, always_concat, always_concat, and_assoc]

end Histories

end MyNetLib.Library
