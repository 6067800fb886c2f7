import MyNetLib.Reactor.EventLoop

/-! # Queued functors, in order and once (`src/event_loop.cc`)

The loop with its callers, and a record of the run: every call of another
thread's `RunInLoop` in that thread's program order, the functors in the order
in which the lock let them in, and the functors executed. A queued functor
carries the thread that queued it, `none` for the loop's own.
-/

namespace MyNetLib.EventLoop

open Library

/-- `before` and `snapshot` are what was executed when the present pass began and
what it swapped out; `returns` counts the returns of `Loop()`. -/
structure Traced (τ F : Type) where
  sys : System τ (Option τ × F)
  starting : τ → Option F
  calls : τ → List F
  arrived : List (Option τ × F)
  executed : List (Option τ × F)
  before : List (Option τ × F)
  snapshot : List (Option τ × F)
  returns : Nat

namespace Traced

variable {τ F : Type}

def pc (s : Traced τ F) : Pc (Option τ × F) := s.sys.loop.pc

/-- The functors of the present pass not yet started. -/
def rest (s : Traced τ F) : List (Option τ × F) :=
  match s.pc with
  | .running rest => rest
  | _ => []

def pendingFunctors (s : Traced τ F) : List (Option τ × F) := s.sys.loop.pendingFunctors

inductive Action (τ F : Type) where
  | loop (a : Label)
  | ownQueue (f : F)
  | ownQuit
  | runInLoop (t : τ) (f : F)
  | emplace (t : τ)
  | quit (t : τ)
  | wakeup (t : τ)

/-- What a step of the loop thread adds to the record. -/
def record (s : Traced τ F) (a : Label) (sys : System τ (Option τ × F)) : Traced τ F :=
  match a, s.pc with
  | .runFunctor, .running (f :: _) => { s with sys := sys, executed := s.executed ++ [f] }
  | .swapFunctors, _ =>
      { s with sys := sys, before := s.executed, snapshot := s.pendingFunctors }
  | .testQuit, _ =>
      { s with sys := sys, returns := if s.sys.loop.quit then s.returns + 1 else s.returns }
  | _, _ => { s with sys := sys }

variable [DecidableEq τ]

/-- On another thread `RunInLoop` is `QueueInLoop`: the call, the critical
section, the wakeup. -/
def step (s : Traced τ F) : Action τ F → Option (Traced τ F)
  | .loop a => (s.sys.step (.loop a)).map fun sys => s.record a sys
  | .ownQueue f =>
      (s.sys.step (.ownQueue (none, f))).map fun sys =>
        { s with sys := sys, arrived := s.arrived ++ [(none, f)] }
  | .ownQuit => (s.sys.step .ownQuit).map fun sys => { s with sys := sys }
  | .runInLoop t f =>
      if s.sys.callers t = .outside ∧ s.starting t = none then
        some { s with
          starting := Function.update s.starting t (some f)
          calls := Function.update s.calls t (s.calls t ++ [f]) }
      else none
  | .emplace t =>
      match s.starting t with
      | none => none
      | some f =>
          (s.sys.step (.emplace t (some t, f))).map fun sys =>
            { s with
              sys := sys
              starting := Function.update s.starting t none
              arrived := s.arrived ++ [(some t, f)] }
  | .quit t =>
      if s.starting t = none then (s.sys.step (.quit t)).map fun sys => { s with sys := sys }
      else none
  | .wakeup t => (s.sys.step (.wakeup t)).map fun sys => { s with sys := sys }

/-- A loop just constructed and threads that have called nothing yet. -/
structure Initial (s : Traced τ F) : Prop where
  loop : s.sys.loop = .new
  callers : ∀ t, s.sys.callers t = .outside
  starting : ∀ t, s.starting t = none
  calls : ∀ t, s.calls t = []
  arrived : s.arrived = []
  executed : s.executed = []

def machine (τ F : Type) [DecidableEq τ] : Machine (Traced τ F) (Action τ F) where
  start := Initial
  step := step

/-! ## What a step can do -/

/-- The loop thread executes the head of its pass, takes a snapshot, ends a pass
or moves elsewhere; a functor arrives; a call begins; nothing of the kind. -/
inductive TraceMove (s s' : Traced τ F) : Action τ F → Prop
  | runs (f : Option τ × F) (tail : List (Option τ × F)) : s.pc = .running (f :: tail) →
      s'.pc = .running tail → s'.pendingFunctors = s.pendingFunctors →
      s' = { s with sys := s'.sys, executed := s.executed ++ [f] } →
      TraceMove s s' (.loop .runFunctor)
  | swaps : s.pc = .swapping → s'.pc = .running s.pendingFunctors → s'.pendingFunctors = [] →
      s' = { s with sys := s'.sys, before := s.executed, snapshot := s.pendingFunctors } →
      TraceMove s s' (.loop .swapFunctors)
  | finishes : s.pc = .running [] → s'.pc = .head → s'.pendingFunctors = s.pendingFunctors →
      s' = { s with sys := s'.sys } → TraceMove s s' (.loop .finishFunctors)
  | control (a : Label) (returns : Nat) : Move s.sys.loop a s'.sys.loop →
      (∀ rest, s.pc ≠ .running rest) → (∀ rest, s'.pc ≠ .running rest) →
      s'.pendingFunctors = s.pendingFunctors →
      s' = { s with sys := s'.sys, returns := returns } → TraceMove s s' (.loop a)
  | arrives (a : Action τ F) (t : Option τ) (f : F) (starting : τ → Option F) :
      s'.pc = s.pc → s'.pendingFunctors = s.pendingFunctors ++ [(t, f)] →
      (t = none ∧ starting = s.starting ∨ ∃ u, t = some u ∧ s.starting u = some f ∧
        starting = Function.update s.starting u none) →
      s' = { s with sys := s'.sys, starting := starting, arrived := s.arrived ++ [(t, f)] } →
      TraceMove s s' a
  | calls (t : τ) (f : F) : s.starting t = none →
      s' = { s with
        starting := Function.update s.starting t (some f)
        calls := Function.update s.calls t (s.calls t ++ [f]) } →
      TraceMove s s' (.runInLoop t f)
  | quiet (a : Action τ F) : s'.pc = s.pc → s'.pendingFunctors = s.pendingFunctors →
      s' = { s with sys := s'.sys } → TraceMove s s' a

variable {s s' : Traced τ F} {a : Action τ F}

theorem loop_move {b : Label} (h : s.step (.loop b) = some s') : TraceMove s s' (.loop b) := by
  obtain ⟨sys, hsys, rfl⟩ := Option.map_eq_some_iff.1 h
  obtain ⟨l, hl, rfl⟩ := Option.map_eq_some_iff.1 hsys
  have hm := step_move hl
  cases hm with
  | runFunctor f tail hpc =>
      have hrec : s.record .runFunctor
          { s.sys with loop := { s.sys.loop with pc := .running tail } } = { s with
            sys := { s.sys with loop := { s.sys.loop with pc := .running tail } }
            executed := s.executed ++ [f] } := by
        simp [record, pc, hpc]
      rw [hrec]
      exact .runs f tail hpc rfl rfl rfl
  | swapFunctors hpc => exact .swaps hpc rfl rfl rfl
  | finishFunctors hpc => exact .finishes hpc rfl rfl rfl
  | leave hpc hq =>
      exact .control _ _ (.leave hpc hq) (by simp [pc, hpc]) (by simp [record, pc]) rfl rfl
  | iterate hpc hq =>
      exact .control _ _ (.iterate hpc hq) (by simp [pc, hpc]) (by simp [record, pc]) rfl rfl
  | enterLoop hpc =>
      exact .control _ s.returns (.enterLoop hpc) (by simp [pc, hpc]) (by simp [record, pc]) rfl rfl
  | resetQuit hpc =>
      exact .control _ s.returns (.resetQuit hpc) (by simp [pc, hpc]) (by simp [record, pc]) rfl rfl
  | startPolling hpc =>
      exact .control _ s.returns (.startPolling hpc) (by simp [pc, hpc]) (by simp [record, pc])
        rfl rfl
  | pollReturns wake hpc hw =>
      exact .control _ s.returns (.pollReturns wake hpc hw) (by simp [pc, hpc])
        (by simp [record, pc]) rfl rfl
  | handleWakeup hpc =>
      exact .control _ s.returns (.handleWakeup hpc) (by simp [pc, hpc]) (by simp [record, pc])
        rfl rfl
  | doPendingFunctors hpc =>
      exact .control _ s.returns (.doPendingFunctors hpc) (by simp [pc, hpc])
        (by simp [record, pc]) rfl rfl

theorem step_traceMove (h : s.step a = some s') : TraceMove s s' a := by
  cases a with
  | loop b => exact loop_move h
  | ownQueue f =>
      obtain ⟨sys, hsys, rfl⟩ := Option.map_eq_some_iff.1 h
      simp only [System.step] at hsys
      split at hsys <;> cases hsys
      exact .arrives _ none f s.starting (by simp [pc]) (by simp [pendingFunctors])
        (Or.inl ⟨rfl, rfl⟩) rfl
  | ownQuit =>
      obtain ⟨sys, hsys, rfl⟩ := Option.map_eq_some_iff.1 h
      simp only [System.step] at hsys
      split at hsys <;> cases hsys
      exact .quiet _ rfl rfl rfl
  | runInLoop t f =>
      simp only [step] at h
      split at h <;> cases h
      rename_i hout
      exact .calls t f hout.2 rfl
  | emplace t =>
      simp only [step] at h
      split at h
      · cases h
      · rename_i f hf
        obtain ⟨sys, hsys, rfl⟩ := Option.map_eq_some_iff.1 h
        simp only [System.step] at hsys
        split at hsys <;> cases hsys
        exact .arrives _ (some t) f _ rfl rfl (Or.inr ⟨t, rfl, hf, rfl⟩) rfl
  | quit t =>
      simp only [step] at h
      split at h
      · obtain ⟨sys, hsys, rfl⟩ := Option.map_eq_some_iff.1 h
        simp only [System.step] at hsys
        split at hsys <;> cases hsys
        exact .quiet _ rfl rfl rfl
      · cases h
  | wakeup t =>
      obtain ⟨sys, hsys, rfl⟩ := Option.map_eq_some_iff.1 h
      simp only [System.step] at hsys
      split at hsys <;> cases hsys
      exact .quiet _ (by simp [pc, System.setCaller])
        (by simp [pendingFunctors, System.setCaller]) rfl

/-! ## The record along a run -/

/-- The functors thread `t` queued, out of a list of functors. -/
def ofThread (t : τ) (fs : List (Option τ × F)) : List F :=
  (fs.filter fun e => e.1 = some t).map Prod.snd

theorem ofThread_append (t : τ) (fs gs : List (Option τ × F)) :
    ofThread t (fs ++ gs) = ofThread t fs ++ ofThread t gs := by
  simp [ofThread]

structure TraceInv (s : Traced τ F) : Prop where
  order : s.executed ++ s.rest ++ s.pendingFunctors = s.arrived
  pass : ∀ rest, s.pc = .running rest →
    ∃ done, s.snapshot = done ++ rest ∧ s.executed = s.before ++ done
  program : ∀ t, ofThread t s.arrived ++ (s.starting t).toList = s.calls t

theorem TraceInv.initial (h : Initial s) : TraceInv s := by
  have hpc : s.pc = .idle := by rw [pc, h.loop, EventLoop.new]
  constructor
  · rw [h.executed, h.arrived, pendingFunctors, h.loop, rest, hpc]
    rfl
  · intro rest hrest
    rw [hpc] at hrest
    cases hrest
  · intro t
    rw [h.arrived, h.starting t, h.calls t]
    rfl

omit [DecidableEq τ] in
theorem rest_running {tail : List (Option τ × F)} (h : s.pc = .running tail) : s.rest = tail := by
  rw [rest, h]

omit [DecidableEq τ] in
theorem rest_not_running (h : ∀ tail, s.pc ≠ .running tail) : s.rest = [] := by
  rw [rest]
  split
  · rename_i tail hpc
    exact absurd hpc (h tail)
  · rfl

omit [DecidableEq τ] in
theorem rest_of_pc_eq (h : s'.pc = s.pc) : s'.rest = s.rest := by
  rw [rest, rest, h]

theorem TraceInv.order_step (h : TraceInv s) (hm : TraceMove s s' a) :
    s'.executed ++ s'.rest ++ s'.pendingFunctors = s'.arrived := by
  have horder := h.order
  cases hm with
  | runs f tail hpc hpc' hpending hs' =>
      rw [rest_running hpc] at horder
      rw [rest_running hpc', hpending, hs', ← horder]
      simp
  | swaps hpc hpc' hpending hs' =>
      rw [rest_not_running (by simp [hpc])] at horder
      rw [rest_running hpc', hpending, hs', ← horder]
      simp
  | finishes hpc hpc' hpending hs' =>
      rw [rest_running hpc] at horder
      rw [rest_not_running (by simp [hpc']), hpending, hs', ← horder]
  | control _ _ _ hnot hnot' hpending hs' =>
      rw [rest_not_running hnot] at horder
      rw [rest_not_running hnot', hpending, hs', ← horder]
  | arrives _ t f starting hpc hpending _ hs' =>
      rw [rest_of_pc_eq hpc, hpending, hs', ← List.append_assoc, horder]
  | calls t f _ hs' =>
      rw [hs']
      exact horder
  | quiet _ hpc hpending hs' =>
      rw [rest_of_pc_eq hpc, hpending, hs']
      exact horder

theorem TraceInv.pass_step (h : TraceInv s) (hm : TraceMove s s' a) :
    ∀ rest, s'.pc = .running rest →
      ∃ done, s'.snapshot = done ++ rest ∧ s'.executed = s'.before ++ done := by
  intro rest hrest
  cases hm with
  | runs f tail hpc hpc' _ hs' =>
      obtain ⟨done, hsnapshot, hexecuted⟩ := h.pass _ hpc
      rw [hpc'] at hrest
      cases hrest
      refine ⟨done ++ [f], ?_, ?_⟩
      · rw [hs', hsnapshot, List.append_assoc]
        rfl
      · rw [hs', hexecuted, List.append_assoc]
  | swaps hpc hpc' _ hs' =>
      rw [hpc'] at hrest
      cases hrest
      exact ⟨[], by rw [hs']; rfl, by rw [hs', List.append_nil]⟩
  | finishes _ hpc' _ _ =>
      rw [hpc'] at hrest
      cases hrest
  | control _ _ _ _ hnot' _ _ => exact absurd hrest (hnot' rest)
  | arrives _ t f starting hpc _ _ hs' =>
      rw [hpc] at hrest
      rw [hs']
      exact h.pass rest hrest
  | calls t f _ hs' =>
      rw [hs'] at hrest ⊢
      exact h.pass rest hrest
  | quiet _ hpc _ hs' =>
      rw [hpc] at hrest
      rw [hs']
      exact h.pass rest hrest

theorem TraceInv.program_step (h : TraceInv s) (hm : TraceMove s s' a) (t : τ) :
    ofThread t s'.arrived ++ (s'.starting t).toList = s'.calls t := by
  cases hm with
  | arrives _ u f starting _ _ horigin hs' =>
      rw [hs', ofThread_append]
      rcases horigin with ⟨rfl, rfl⟩ | ⟨v, rfl, hv, rfl⟩
      · simpa [ofThread] using h.program t
      · by_cases htv : t = v
        · subst htv
          have hp := h.program t
          rw [hv] at hp
          simpa [ofThread] using hp
        · have hvt : ¬ v = t := fun heq => htv heq.symm
          simpa [ofThread, htv, hvt] using h.program t
  | calls u f hu hs' =>
      rw [hs']
      by_cases htu : t = u
      · subst htu
        have hp := h.program t
        rw [hu] at hp
        simp only [Function.update_self, Option.toList_some]
        rw [← hp]
        simp
      · simpa [htu] using h.program t
  | runs _ _ _ _ _ hs' =>
      rw [hs']
      exact h.program t
  | swaps _ _ _ hs' =>
      rw [hs']
      exact h.program t
  | finishes _ _ _ hs' =>
      rw [hs']
      exact h.program t
  | control _ _ _ _ _ _ hs' =>
      rw [hs']
      exact h.program t
  | quiet _ _ _ hs' =>
      rw [hs']
      exact h.program t

theorem traceInv_of_reach (h : (machine τ F).Reach (fun _ _ => True) s) : TraceInv s := by
  apply h.invariant
  · intro s hs
    exact TraceInv.initial hs
  · intro s a s' hI _ hs
    have hm := step_traceMove hs
    exact ⟨hI.order_step hm, hI.pass_step hm, hI.program_step hm⟩

/-- A step during a pass leaves the pass alone, executes its next functor, or
ends it when none is left. -/
theorem pass_move {rest : List (Option τ × F)} (hm : TraceMove s s' a)
    (hpc : s.pc = .running rest) :
    (s'.pc = .running rest ∧ s'.executed = s.executed) ∨
    (∃ f tail, rest = f :: tail ∧ s'.pc = .running tail ∧ s'.executed = s.executed ++ [f]) ∨
    (rest = [] ∧ s'.pc = .head ∧ s'.executed = s.executed) := by
  cases hm with
  | runs f tail hrun hpc' _ hs' =>
      rw [hpc] at hrun
      cases hrun
      exact Or.inr (Or.inl ⟨f, tail, rfl, hpc', by rw [hs']⟩)
  | swaps hswap _ _ _ =>
      rw [hpc] at hswap
      cases hswap
  | finishes hend hpc' _ hs' =>
      rw [hpc] at hend
      cases hend
      exact Or.inr (Or.inr ⟨rfl, hpc', by rw [hs']⟩)
  | control _ _ _ hnot _ _ _ => exact absurd hpc (hnot rest)
  | arrives _ _ _ _ hsame _ _ hs' => exact Or.inl ⟨hsame.trans hpc, by rw [hs']⟩
  | calls _ _ _ hs' => exact Or.inl ⟨by rw [hs']; exact hpc, by rw [hs']⟩
  | quiet _ hsame _ hs' => exact Or.inl ⟨hsame.trans hpc, by rw [hs']⟩

/-- In every run, with any number of threads: the functors executed, then the
rest of the pass, then `pending_functors_` are the functors queued, in lock
order; a pass executes its snapshot, in order and nothing else, and ends when
the snapshot is executed; and what was executed of one thread's calls is a
prefix of its calls in program order. -/
theorem functors_run_once_in_order (s : Traced τ F)
    (h : (machine τ F).Reach (fun _ _ => True) s) :
    s.executed ++ s.rest ++ s.pendingFunctors = s.arrived ∧
    (∀ rest, s.pc = .running rest →
      (∃ done, s.snapshot = done ++ rest ∧ s.executed = s.before ++ done) ∧
      ∀ a s', s.step a = some s' →
        (s'.pc = .running rest ∧ s'.executed = s.executed) ∨
        (∃ f tail, rest = f :: tail ∧ s'.pc = .running tail ∧ s'.executed = s.executed ++ [f]) ∨
        (rest = [] ∧ s'.pc = .head ∧ s'.executed = s.before ++ s.snapshot)) ∧
    ∀ t, ofThread t s.executed <+: s.calls t := by
  have hI := traceInv_of_reach h
  refine ⟨hI.order, ?_, ?_⟩
  · intro rest hpc
    refine ⟨hI.pass rest hpc, ?_⟩
    intro a s' hs
    rcases pass_move (step_traceMove hs) hpc with hsame | hruns | ⟨rfl, hpc', hexecuted⟩
    · exact Or.inl hsame
    · exact Or.inr (Or.inl hruns)
    · obtain ⟨done, hsnapshot, hdone⟩ := hI.pass [] hpc
      rw [List.append_nil] at hsnapshot
      exact Or.inr (Or.inr ⟨rfl, hpc', by rw [hexecuted, hdone, hsnapshot]⟩)
  · intro t
    rw [← hI.program t, ← hI.order, List.append_assoc, ofThread_append, List.append_assoc]
    exact List.prefix_append _ _

def fresh : Traced Bool Nat where
  sys := ⟨.new, fun _ => .outside⟩
  starting _ := none
  calls _ := []
  arrived := []
  executed := []
  before := []
  snapshot := []
  returns := 0

theorem fresh_initial : Initial fresh :=
  ⟨rfl, fun _ => rfl, fun _ => rfl, fun _ => rfl, rfl, rfl⟩

/-- Two threads queue while a functor of the pass queues another. -/
theorem functors_run_once_in_order_two :
    ∃ s, (machine Bool Nat).run fresh
        [.runInLoop true 1, .emplace true, .loop .enterLoop, .loop .resetQuit, .loop .testQuit,
          .loop .startPolling, .loop (.pollReturns false), .loop .doPendingFunctors,
          .runInLoop false 2, .emplace false, .loop .swapFunctors, .loop .runFunctor,
          .ownQueue 3, .wakeup true, .runInLoop true 4, .emplace true] = some s ∧
      s.executed = [(some true, 1)] ∧ s.rest = [(some false, 2)] ∧
      s.executed ++ s.rest ++ s.pendingFunctors = s.arrived ∧
      ofThread true s.executed <+: s.calls true := by
  have hrun : ∃ s, (machine Bool Nat).run fresh
      [.runInLoop true 1, .emplace true, .loop .enterLoop, .loop .resetQuit, .loop .testQuit,
        .loop .startPolling, .loop (.pollReturns false), .loop .doPendingFunctors,
        .runInLoop false 2, .emplace false, .loop .swapFunctors, .loop .runFunctor,
        .ownQueue 3, .wakeup true, .runInLoop true 4, .emplace true] = some s ∧
      s.executed = [(some true, 1)] ∧ s.rest = [(some false, 2)] :=
    ⟨_, rfl, rfl, rfl⟩
  obtain ⟨s, hs, hexecuted, hrest⟩ := hrun
  have h₀ : (machine Bool Nat).Reach (fun _ _ => True) fresh := .start fresh_initial
  have hreach := h₀.of_run _ (fun _ _ _ => trivial) hs
  obtain ⟨horder, _, hprogram⟩ := functors_run_once_in_order s hreach
  exact ⟨s, hs, hexecuted, hrest, horder, hprogram true⟩

/-! ## Work queued before `Quit()` -/

/-- The loop thread has tested `quit_` and not yet swapped in this iteration. -/
def BeforeSwap (s : Traced τ F) : Prop :=
  s.pc = .timers ∨ s.pc = .polling ∨ (∃ wake, s.pc = .handling wake) ∨ s.pc = .swapping

/-- What had arrived in `s₁` is executed, or in the present pass, or will be
swapped out by the present iteration. -/
def Covered (s₁ s : Traced τ F) : Prop :=
  (BeforeSwap s ∧ s₁.arrived <+: s.arrived) ∨ s₁.arrived <+: s.executed ++ s.rest

omit [DecidableEq τ] in
theorem BeforeSwap.move {b : Label} (h : BeforeSwap s) (hm : Move s.sys.loop b s'.sys.loop)
    (hnot : ∀ rest, s'.pc ≠ .running rest) : BeforeSwap s' := by
  cases hl : s'.sys.loop
  rw [hl] at hm
  cases hm <;> simp_all [BeforeSwap, pc]

theorem covered_step {s₁ : Traced τ F} (hI : TraceInv s) (hm : TraceMove s s' a)
    (h : Covered s₁ s) : Covered s₁ s' := by
  rcases h with ⟨hbefore, harrived⟩ | hdone
  · cases hm with
    | runs f tail hpc _ _ _ => simp [BeforeSwap, hpc] at hbefore
    | finishes hpc _ _ _ => simp [BeforeSwap, hpc] at hbefore
    | swaps hpc hpc' _ hs' =>
        right
        have horder := hI.order
        rw [rest_not_running (by simp [hpc]), List.append_nil] at horder
        rw [rest_running hpc', hs', horder]
        exact harrived
    | control b _ hmove _ hnot' _ hs' =>
        exact Or.inl ⟨hbefore.move hmove hnot', by rw [hs']; exact harrived⟩
    | arrives _ _ _ _ hpc _ _ hs' =>
        left
        rw [BeforeSwap, hpc]
        exact ⟨hbefore, by rw [hs']; exact harrived.trans (List.prefix_append _ _)⟩
    | calls _ _ _ hs' =>
        rw [hs']
        exact Or.inl ⟨hbefore, harrived⟩
    | quiet _ hpc _ hs' =>
        left
        rw [BeforeSwap, hpc]
        exact ⟨hbefore, by rw [hs']; exact harrived⟩
  · right
    cases hm with
    | runs f tail hpc hpc' _ hs' =>
        rw [rest_running hpc] at hdone
        rw [rest_running hpc', hs', List.append_assoc]
        exact hdone
    | swaps hpc hpc' _ hs' =>
        rw [rest_not_running (by simp [hpc]), List.append_nil] at hdone
        rw [hs']
        exact hdone.trans (List.prefix_append _ _)
    | finishes hpc hpc' _ hs' =>
        rw [rest_running hpc] at hdone
        rw [rest_not_running (by simp [hpc']), hs']
        exact hdone
    | control _ _ _ hnot hnot' _ hs' =>
        rw [rest_not_running hnot] at hdone
        rw [rest_not_running hnot', hs']
        exact hdone
    | arrives _ _ _ _ hpc _ _ hs' =>
        rw [rest_of_pc_eq hpc, hs']
        exact hdone
    | calls _ _ _ hs' =>
        rw [hs']
        exact hdone
    | quiet _ hpc _ hs' =>
        rw [rest_of_pc_eq hpc, hs']
        exact hdone

theorem covered_of_follows {s₁ : Traced τ F} (h : (machine τ F).Reach (fun _ _ => True) s)
    (hcovered : Covered s₁ s) (hf : (machine τ F).Follows (fun _ _ => True) s s') :
    Covered s₁ s' := by
  have hboth : TraceInv s' ∧ Covered s₁ s' := by
    apply hf.invariant
    · exact ⟨traceInv_of_reach h, hcovered⟩
    · intro t a t' hI _ ht
      have hm := step_traceMove ht
      exact ⟨⟨hI.1.order_step hm, hI.1.pass_step hm, hI.1.program_step hm⟩,
        covered_step hI.1 hm hI.2⟩
  exact hboth.2

theorem step_loop {b : Label} {l : EventLoop (Option τ × F)} (h : s.sys.loop.step b = some l) :
    (machine τ F).step s (.loop b) = some (s.record b { s.sys with loop := l }) := by
  have hsys : s.sys.step (.loop b) = some { s.sys with loop := l } := by
    simp only [System.step, h, Option.map_some]
  simp only [machine, step, hsys, Option.map_some]

/-- `Loop()` returns at its next test once `quit_` is set. -/
theorem leaves_at_head (hquit : s.sys.loop.quit = true) (hpc : s.sys.loop.pc = .head) :
    ∃ s', (machine τ F).step s (.loop .testQuit) = some s' ∧ s'.returns = s.returns + 1 ∧
      s'.pc = .idle ∧ s'.executed = s.executed := by
  have hl : s.sys.loop.step .testQuit =
      some { s.sys.loop with looping := false, pc := .idle } := by
    simp [EventLoop.step, hpc, hquit]
  exact ⟨_, step_loop hl, by simp [record, hquit], rfl, rfl⟩

/-- With `quit_` set, a loop past its swap runs out its pass and returns. -/
theorem returns_after_pass (rest : List (Option τ × F)) (s : Traced τ F)
    (hquit : s.sys.loop.quit = true) (hpc : s.sys.loop.pc = .running rest) :
    ∃ s', (machine τ F).Follows (fun _ _ => True) s s' ∧ s'.returns = s.returns + 1 ∧
      s'.pc = .idle ∧ s'.executed = s.executed ++ rest := by
  induction rest generalizing s with
  | nil =>
      have hl : s.sys.loop.step .finishFunctors =
          some { s.sys.loop with callingPendingFunctors := false, pc := .head } := by
        simp [EventLoop.step, hpc]
      have ht := step_loop hl
      rcases leaves_at_head (s := s.record .finishFunctors { s.sys with
        loop := { s.sys.loop with callingPendingFunctors := false, pc := .head } }) hquit rfl with
        ⟨s', hs', hreturns, hidle, hexecuted⟩
      refine ⟨s', .step (.step .refl trivial ht) trivial hs', hreturns, hidle, ?_⟩
      rw [hexecuted, List.append_nil]
      rfl
  | cons f tail ih =>
      have hl : s.sys.loop.step .runFunctor = some { s.sys.loop with pc := .running tail } := by
        simp [EventLoop.step, hpc]
      have ht := step_loop hl
      have hrec : s.record .runFunctor { s.sys with
            loop := { s.sys.loop with pc := .running tail } } = { s with
              sys := { s.sys with loop := { s.sys.loop with pc := .running tail } }
              executed := s.executed ++ [f] } := by
        simp [record, pc, hpc]
      rw [hrec] at ht
      rcases ih { s with
        sys := { s.sys with loop := { s.sys.loop with pc := .running tail } }
        executed := s.executed ++ [f] } hquit rfl with ⟨s', hf, hreturns, hidle, hexecuted⟩
      refine ⟨s', Machine.Follows.trans (.step .refl trivial ht) hf, hreturns, hidle, ?_⟩
      rw [hexecuted, List.append_assoc]
      rfl

/-- `Quit()` sets `quit_` and leaves the loop thread and the queue where they are. -/
theorem quit_step (hquit : a = .ownQuit ∨ ∃ t, a = .quit t) (hs : s.step a = some s') :
    s'.sys.loop = s.sys.loop.setQuit ∧ s' = { s with sys := s'.sys } ∧
      (s.sys.loop.inUserCode = true ∨
        ∃ t, s'.sys.callers t = .quitting ∧ s'.starting t = none) := by
  rcases hquit with rfl | ⟨t, rfl⟩
  · obtain ⟨sys, hsys, rfl⟩ := Option.map_eq_some_iff.1 hs
    simp only [System.step] at hsys
    split at hsys <;> cases hsys
    rename_i huser
    exact ⟨rfl, rfl, Or.inl huser⟩
  · simp only [step] at hs
    split at hs
    · rename_i hstarting
      obtain ⟨sys, hsys, rfl⟩ := Option.map_eq_some_iff.1 hs
      simp only [System.step] at hsys
      split at hsys <;> cases hsys
      exact ⟨rfl, rfl, Or.inr ⟨t, by simp [System.setCaller], hstarting⟩⟩
    · cases hs

/-- A `Quit()` before the reset in `Loop()` and another right after it. -/
theorem returns_after_two_quits {t : τ} (hpc : s.sys.loop.pc = .entered)
    (hcaller : s.sys.callers t = .quitting) (hstarting : s.starting t = none) :
    ∃ s', (machine τ F).Follows (fun _ _ => True) s s' ∧ s'.returns = s.returns + 1 ∧
      s'.pc = .idle ∧ s'.executed = s.executed := by
  have h₁ : (machine τ F).step s (.wakeup t) =
      some { s with sys := { s.sys with loop := s.sys.loop.wakeup }.setCaller t .outside } := by
    simp [machine, step, System.step, hcaller]
  have h₂ := step_loop (s := { s with
    sys := { s.sys with loop := s.sys.loop.wakeup }.setCaller t .outside }) (b := .resetQuit)
    (l := { s.sys.loop.wakeup with quit := false, pc := .head })
    (by simp [System.setCaller, EventLoop.step, hpc])
  have h₃ : ∃ s₃, (machine τ F).step { s with sys := { s.sys with
      loop := { s.sys.loop.wakeup with quit := false, pc := .head } }.setCaller t .outside }
        (.quit t) = some s₃ ∧ s₃.sys.loop.quit = true ∧ s₃.sys.loop.pc = .head ∧
        s₃.returns = s.returns ∧ s₃.executed = s.executed := by
    simp [machine, step, System.step, System.setCaller, hstarting, setQuit]
  obtain ⟨s₃, h₃, hset, hhead, hreturns, hexecuted⟩ := h₃
  obtain ⟨s', hs', hreturns', hidle, hexecuted'⟩ := leaves_at_head hset hhead
  refine ⟨s', .step (.step (.step (.step .refl trivial h₁) trivial h₂) trivial h₃) trivial hs',
    ?_, hidle, ?_⟩
  · rw [hreturns', hreturns]
  · rw [hexecuted', hexecuted]

theorem pendingFunctors_nil_of_executed {s₁ s₃ : Traced τ F} (hI : TraceInv s₁)
    (hexecuted : s₃.executed = s₁.executed ++ s₁.rest) (harrived : s₁.arrived <+: s₃.executed) :
    s₁.pendingFunctors = [] := by
  rw [← hI.order, hexecuted] at harrived
  have hlength := harrived.length_le
  simp only [List.length_append] at hlength
  exact List.length_eq_zero_iff.1 (by omega)

/-- A `Quit()` outside the stretch between the test and the swap can be followed
by a return of `Loop()` that executes only the rest of the present pass. -/
theorem returns_without_swap {s₁ s₂ : Traced τ F} (hrunning : s₁.pc ≠ .idle)
    (hquit : a = .ownQuit ∨ ∃ t, a = .quit t) (hs : s₁.step a = some s₂)
    (hlate : ¬ BeforeSwap s₁) :
    ∃ s₃, (machine τ F).Follows (fun _ _ => True) s₂ s₃ ∧ s₃.returns = s₁.returns + 1 ∧
      s₃.pc = .idle ∧ s₃.executed = s₁.executed ++ s₁.rest := by
  obtain ⟨hloop, hrecord, hcaller⟩ := quit_step hquit hs
  have hset : s₂.sys.loop.quit = true := by rw [hloop, setQuit]
  have hpc₂ : s₂.sys.loop.pc = s₁.pc := by rw [hloop, setQuit, pc]
  have hreturns : s₂.returns = s₁.returns := by rw [hrecord]
  have hexecuted : s₂.executed = s₁.executed := by rw [hrecord]
  cases hpc : s₁.pc with
  | idle => exact absurd hpc hrunning
  | timers => exact absurd (Or.inl hpc) hlate
  | polling => exact absurd (Or.inr (Or.inl hpc)) hlate
  | handling wake => exact absurd (Or.inr (Or.inr (Or.inl ⟨wake, hpc⟩))) hlate
  | swapping => exact absurd (Or.inr (Or.inr (Or.inr hpc))) hlate
  | entered =>
      -- the store is lost to the reset: only another `Quit()` ends the loop early
      have huser : s₁.sys.loop.inUserCode = false := by
        rw [pc] at hpc
        rw [inUserCode, hpc]
      rcases hcaller with hcall | ⟨t, ht, hstarting⟩
      · rw [huser] at hcall
        cases hcall
      · rcases returns_after_two_quits (hpc₂.trans hpc) ht hstarting with
          ⟨s₃, hf, hreturns₃, hidle, hexecuted₃⟩
        refine ⟨s₃, hf, by rw [hreturns₃, hreturns], hidle, ?_⟩
        rw [hexecuted₃, hexecuted, rest_not_running (by simp [hpc]), List.append_nil]
  | head =>
      obtain ⟨s₃, hs₃, hreturns₃, hidle, hexecuted₃⟩ := leaves_at_head hset (hpc₂.trans hpc)
      refine ⟨s₃, .step .refl trivial hs₃, by rw [hreturns₃, hreturns], hidle, ?_⟩
      rw [hexecuted₃, hexecuted, rest_not_running (by simp [hpc]), List.append_nil]
  | running rest =>
      rcases returns_after_pass rest s₂ hset (hpc₂.trans hpc) with
        ⟨s₃, hf, hreturns₃, hidle, hexecuted₃⟩
      refine ⟨s₃, hf, by rw [hreturns₃, hreturns], hidle, ?_⟩
      rw [hexecuted₃, hexecuted, rest_running hpc]

/-- Whenever `Quit()` is called on a running loop, everything queued before is
executed at every return of that `Loop()` exactly when nothing was waiting or
the loop thread was between its test of `quit_` and its swap. -/
theorem quit_runs_queued_iff (s₁ s₂ : Traced τ F) (a : Action τ F)
    (h : (machine τ F).Reach (fun _ _ => True) s₁) (hrunning : s₁.pc ≠ .idle)
    (hquit : a = .ownQuit ∨ ∃ t, a = .quit t) (hs : s₁.step a = some s₂) :
    (∀ s₃, (machine τ F).Follows (fun _ _ => True) s₂ s₃ → s₃.returns = s₁.returns + 1 →
      s₃.pc = .idle → s₁.arrived <+: s₃.executed) ↔
    s₁.pendingFunctors = [] ∨ BeforeSwap s₁ := by
  have hI := traceInv_of_reach h
  constructor
  · intro hdone
    by_cases hlate : BeforeSwap s₁
    · exact Or.inr hlate
    · rcases returns_without_swap hrunning hquit hs hlate with
        ⟨s₃, hf, hreturns, hidle, hexecuted⟩
      exact Or.inl (pendingFunctors_nil_of_executed hI hexecuted (hdone s₃ hf hreturns hidle))
  · intro hcond s₃ hf _ hidle
    have hreach₂ : (machine τ F).Reach (fun _ _ => True) s₂ := .step h trivial hs
    have hm := step_traceMove hs
    have hcovered : Covered s₁ s₁ := by
      rcases hcond with hnil | hbefore
      · right
        have horder := hI.order
        rw [hnil, List.append_nil] at horder
        rw [horder]
      · exact Or.inl ⟨hbefore, List.prefix_rfl⟩
    rcases covered_of_follows hreach₂ (covered_step hI hm hcovered) hf with
      ⟨hbefore, _⟩ | hdone
    · simp [BeforeSwap, hidle] at hbefore
    · rw [rest_not_running (by simp [hidle]), List.append_nil] at hdone
      exact hdone

/-- A thread queues while the loop polls and then quits it. -/
theorem quit_runs_queued_while_polling :
    ∃ s₁ s₂, (machine Bool Nat).run fresh
        [.loop .enterLoop, .loop .resetQuit, .loop .testQuit, .loop .startPolling,
          .runInLoop true 1, .emplace true, .wakeup true] = some s₁ ∧
      s₁.step (.quit true) = some s₂ ∧ s₁.arrived = [(some true, 1)] ∧
      ∀ s₃, (machine Bool Nat).Follows (fun _ _ => True) s₂ s₃ →
        s₃.returns = s₁.returns + 1 → s₃.pc = .idle → s₁.arrived <+: s₃.executed := by
  have hrun : ∃ s₁ s₂, (machine Bool Nat).run fresh
      [.loop .enterLoop, .loop .resetQuit, .loop .testQuit, .loop .startPolling,
        .runInLoop true 1, .emplace true, .wakeup true] = some s₁ ∧
      s₁.step (.quit true) = some s₂ ∧ s₁.arrived = [(some true, 1)] ∧ s₁.pc = .polling :=
    ⟨_, _, rfl, rfl, rfl, rfl⟩
  obtain ⟨s₁, s₂, hs₁, hs₂, harrived, hpc⟩ := hrun
  have h₀ : (machine Bool Nat).Reach (fun _ _ => True) fresh := .start fresh_initial
  have hreach := h₀.of_run _ (fun _ _ _ => trivial) hs₁
  exact ⟨s₁, s₂, hs₁, hs₂, harrived,
    (quit_runs_queued_iff s₁ s₂ (.quit true) hreach (by simp [hpc]) (Or.inr ⟨true, rfl⟩) hs₂).2
      (Or.inr (Or.inr (Or.inl hpc)))⟩

/-- The snapshot of the pass is taken, a thread queues and quits, and `Loop()`
returns with the functor in `pending_functors_`. -/
theorem functor_queued_after_swap_lost :
    ¬ ∀ (s₁ s₂ s₃ : Traced Bool Nat) (t : Bool),
      (machine Bool Nat).Reach (fun _ _ => True) s₁ → s₁.pc ≠ .idle →
      s₁.step (.quit t) = some s₂ → (machine Bool Nat).Follows (fun _ _ => True) s₂ s₃ →
      s₃.returns = s₁.returns + 1 → s₃.pc = .idle → ∀ f ∈ s₁.arrived, f ∈ s₃.executed := by
  intro hclaim
  have hrun : ∃ s₁ s₂ s₃, (machine Bool Nat).run fresh
      [.loop .enterLoop, .loop .resetQuit, .loop .testQuit, .loop .startPolling,
        .loop (.pollReturns false), .loop .doPendingFunctors, .loop .swapFunctors,
        .runInLoop true 1, .emplace true, .wakeup true] = some s₁ ∧
      s₁.step (.quit true) = some s₂ ∧
      (machine Bool Nat).runGuarded (fun _ _ => True) s₂
        [.wakeup true, .loop .finishFunctors, .loop .testQuit] = some s₃ ∧
      s₁.pc = .running [] ∧ s₃.returns = s₁.returns + 1 ∧ s₃.pc = .idle ∧
      s₁.arrived = [(some true, 1)] ∧ s₃.executed = [] :=
    ⟨_, _, _, rfl, rfl, rfl, rfl, rfl, rfl, rfl, rfl⟩
  obtain ⟨s₁, s₂, s₃, hs₁, hs₂, hs₃, hpc, hreturns, hidle, harrived, hexecuted⟩ := hrun
  have h₀ : (machine Bool Nat).Reach (fun _ _ => True) fresh := .start fresh_initial
  have hreach := h₀.of_run _ (fun _ _ _ => trivial) hs₁
  have hlost := hclaim s₁ s₂ s₃ true hreach (by simp [hpc]) hs₂
    (Machine.Follows.of_runGuarded _ .refl hs₃) hreturns hidle (some true, 1)
    (by rw [harrived]; exact List.mem_singleton.2 rfl)
  rw [hexecuted] at hlost
  cases hlost

end Traced

end MyNetLib.EventLoop
