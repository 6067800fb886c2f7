import MyNetLib.Reactor.EventLoop

/-! # A loop on its own thread (`src/event_loop_thread.cc`)

`ThreadFunc` constructs the loop, runs the init callback, publishes the loop and
only then calls `Loop()`, whose first act is to clear `quit_`. Other threads
obtain the pointer from `StartLoop` and may call `Quit()` from then on; the
destructor does so and joins. `quitSet` remembers that some `Quit()` has set the
flag, `lateIterations` counts the loop bodies started since.
-/

namespace MyNetLib

open Library

namespace EventLoopThread

/-- The position of `ThreadFunc`. -/
inductive Pc where
  | notStarted
  | constructing
  | initializing
  | published
  | looping
  | returned
  | finished
  deriving DecidableEq, Repr

/-- The position of the destructor, on whichever thread runs it. -/
inductive DtorPc where
  | notCalled
  | tested
  | waking
  | joining
  | done
  deriving DecidableEq, Repr

end EventLoopThread

structure EventLoopThread (τ F : Type) where
  pc : EventLoopThread.Pc
  loopSet : Bool
  sys : EventLoop.System τ F
  holders : τ → Bool
  dtor : EventLoopThread.DtorPc
  quitSet : Bool
  lateIterations : Nat

namespace EventLoopThread

variable {τ F : Type}

/-- `loop.Loop()` has executed its `quit_ = false`. -/
def resetDone (s : EventLoopThread τ F) : Bool :=
  match s.pc, s.sys.loop.pc with
  | .looping, .entered => false
  | .looping, _ => true
  | .returned, _ | .finished, _ => true
  | .notStarted, _ | .constructing, _ | .initializing, _ | .published, _ => false

def alive (s : EventLoopThread τ F) : Bool :=
  match s.pc with
  | .initializing | .published | .looping | .returned => true
  | .notStarted | .constructing | .finished => false

/-- The init callback or the loop itself runs user code on the loop thread. -/
def ownCode (s : EventLoopThread τ F) : Bool :=
  match s.pc with
  | .initializing | .looping => true
  | _ => false

inductive Action (τ F : Type) where
  | start
  | construct
  | publish
  | unpublish
  | obtain (t : τ)
  | loop (a : EventLoop.Label)
  | ownQueue (f : F)
  | ownQuit
  | emplace (t : τ) (f : F)
  | quit (t : τ)
  | wakeup (t : τ)
  | dtorTest
  | dtorQuit
  | dtorWakeup
  | dtorJoin

/-- A step of the loop thread inside `Loop()`: entering moves `ThreadFunc` on,
leaving the loop returns, a body started after `quit_` was set is counted. -/
def loopStep (s : EventLoopThread τ F) (a : EventLoop.Label) : Option (EventLoopThread τ F) :=
  match s.pc, a with
  | .published, .enterLoop =>
      (s.sys.loop.step a).map fun l => { s with pc := .looping, sys := { s.sys with loop := l } }
  | .looping, .enterLoop => none
  | .looping, .testQuit =>
      (s.sys.loop.step a).map fun l =>
        { s with
          pc := if s.sys.loop.quit then .returned else .looping
          sys := { s.sys with loop := l }
          lateIterations :=
            if s.quitSet && !s.sys.loop.quit then s.lateIterations + 1 else s.lateIterations }
  | .looping, _ => (s.sys.loop.step a).map fun l => { s with sys := { s.sys with loop := l } }
  | _, _ => none

def step [DecidableEq τ] (s : EventLoopThread τ F) : Action τ F → Option (EventLoopThread τ F)
  | .start => if s.pc = .notStarted then some { s with pc := .constructing } else none
  | .construct => if s.pc = .constructing then some { s with pc := .initializing } else none
  | .publish =>
      if s.pc = .initializing then some { s with pc := .published, loopSet := true } else none
  | .unpublish =>
      if s.pc = .returned then some { s with pc := .finished, loopSet := false } else none
  | .obtain t =>
      if s.loopSet then some { s with holders := Function.update s.holders t true } else none
  | .loop a => s.loopStep a
  | .ownQueue f =>
      if s.ownCode then (s.sys.step (.ownQueue f)).map fun sys => { s with sys := sys } else none
  | .ownQuit =>
      if s.ownCode then
        (s.sys.step .ownQuit).map fun sys => { s with sys := sys, quitSet := true }
      else none
  | .emplace t f =>
      if s.alive && s.holders t then
        (s.sys.step (.emplace t f)).map fun sys => { s with sys := sys }
      else none
  | .quit t =>
      if s.alive && s.holders t then
        (s.sys.step (.quit t)).map fun sys => { s with sys := sys, quitSet := true }
      else none
  | .wakeup t =>
      if s.alive then (s.sys.step (.wakeup t)).map fun sys => { s with sys := sys } else none
  | .dtorTest =>
      if s.dtor = .notCalled then
        some { s with dtor := if s.loopSet then .tested else .done }
      else none
  | .dtorQuit =>
      if s.dtor = .tested ∧ s.alive = true then
        some { s with
          dtor := .waking
          sys := { s.sys with loop := s.sys.loop.setQuit }
          quitSet := true }
      else none
  | .dtorWakeup =>
      if s.dtor = .waking ∧ s.alive = true then
        some { s with dtor := .joining, sys := { s.sys with loop := s.sys.loop.wakeup } }
      else none
  | .dtorJoin =>
      if s.dtor = .joining ∧ s.pc = .finished then some { s with dtor := .done } else none

def new : EventLoopThread τ F where
  pc := .notStarted
  loopSet := false
  sys := ⟨.new, fun _ => .outside⟩
  holders _ := false
  dtor := .notCalled
  quitSet := false
  lateIterations := 0

def machine (τ F : Type) [DecidableEq τ] : Machine (EventLoopThread τ F) (Action τ F) where
  start s := s = .new
  step := step

/-- `Quit()` stores its flag after `Loop()` has cleared it. -/
def QuitAfterReset (s : EventLoopThread τ F) : Action τ F → Prop
  | .quit _ | .ownQuit | .dtorQuit => s.resetDone = true
  | _ => True

/-! ## What a step can do -/

def Action.IsQuit (a : Action τ F) : Prop :=
  a = .ownQuit ∨ (∃ t, a = .quit t) ∨ a = .dtorQuit

/-- The steps by what they do to the loop thread: `ThreadFunc` advances outside
`Loop()`, enters it, takes a step in it, or another party acts and leaves the
loop thread where it is. -/
inductive Move (s : EventLoopThread τ F) : Action τ F → EventLoopThread τ F → Prop
  | advance (a : Action τ F) (pc : Pc) (loopSet : Bool) :
      (s.pc, pc) ∈ [(Pc.notStarted, Pc.constructing), (.constructing, .initializing),
        (.initializing, .published), (.returned, .finished)] →
      Move s a { s with pc := pc, loopSet := loopSet }
  | enter (l : EventLoop F) : s.pc = .published → s.sys.loop.step .enterLoop = some l →
      Move s (.loop .enterLoop) { s with pc := .looping, sys := { s.sys with loop := l } }
  | leave (l : EventLoop F) : s.pc = .looping → s.sys.loop.quit = true →
      s.sys.loop.step .testQuit = some l →
      Move s (.loop .testQuit) { s with pc := .returned, sys := { s.sys with loop := l } }
  | iterate (l : EventLoop F) : s.pc = .looping → s.sys.loop.quit = false →
      s.sys.loop.step .testQuit = some l →
      Move s (.loop .testQuit) { s with
        sys := { s.sys with loop := l }
        lateIterations := if s.quitSet then s.lateIterations + 1 else s.lateIterations }
  | inside (a : EventLoop.Label) (l : EventLoop F) : s.pc = .looping → a ≠ .enterLoop →
      a ≠ .testQuit → s.sys.loop.step a = some l →
      Move s (.loop a) { s with sys := { s.sys with loop := l } }
  | call (a : Action τ F) (s' : EventLoopThread τ F) : s'.pc = s.pc →
      s'.sys.loop.pc = s.sys.loop.pc → (s.sys.loop.quit = true → s'.sys.loop.quit = true) →
      s'.quitSet = s.quitSet → s'.lateIterations = s.lateIterations →
      (s'.dtor = .waking ∨ s'.dtor = .joining → s.dtor = .waking ∨ s.dtor = .joining) →
      Move s a s'
  | setQuit (a : Action τ F) (s' : EventLoopThread τ F) : a.IsQuit →
      (s.alive = true ∧ s'.pc = s.pc ∧ s'.sys.loop.pc = s.sys.loop.pc ∧
        s'.sys.loop.quit = true ∧ s'.quitSet = true ∧
        s'.lateIterations = s.lateIterations) → Move s a s'

theorem loopStep_move {s s' : EventLoopThread τ F} {a : EventLoop.Label}
    (h : s.loopStep a = some s') : Move s (.loop a) s' := by
  unfold loopStep at h
  split at h
  · rename_i hpc
    simp only [Option.map_eq_some_iff] at h
    obtain ⟨l, hl, rfl⟩ := h
    exact .enter l hpc hl
  · cases h
  · rename_i hpc
    simp only [Option.map_eq_some_iff] at h
    obtain ⟨l, hl, rfl⟩ := h
    cases hq : s.sys.loop.quit with
    | true =>
        simp only [if_true, Bool.not_true, Bool.and_false, Bool.false_eq_true, if_false]
        exact .leave l hpc hq hl
    | false =>
        simp only [Bool.false_eq_true, if_false, Bool.not_false, Bool.and_true]
        rw [← hpc]
        exact .iterate l hpc hq hl
  · rename_i hpc hne hnt
    simp only [Option.map_eq_some_iff] at h
    obtain ⟨l, hl, rfl⟩ := h
    exact .inside _ l hpc (by simpa using hne) (by simpa using hnt) hl
  · cases h

theorem quit_spec [DecidableEq τ] {s s' : EventLoopThread τ F} {a : Action τ F} (ha : a.IsQuit)
    (h : s.step a = some s') :
    s.alive = true ∧ s'.pc = s.pc ∧ s'.sys.loop.pc = s.sys.loop.pc ∧
      s'.sys.loop.quit = true ∧ s'.quitSet = true ∧ s'.lateIterations = s.lateIterations := by
  rcases ha with rfl | ⟨t, rfl⟩ | rfl
  · simp only [step] at h
    split at h <;> try contradiction
    rename_i hown
    simp only [Option.map_eq_some_iff] at h
    obtain ⟨sys, hsys, rfl⟩ := h
    have hc := EventLoop.System.step_caller hsys (by simp)
    have halive : s.alive = true := by
      cases hpc : s.pc <;> simp_all [ownCode, alive]
    exact ⟨halive, rfl, hc.1, hc.2.2 (Or.inl rfl), rfl, rfl⟩
  · simp only [step] at h
    split at h <;> try contradiction
    rename_i hcan
    simp only [Option.map_eq_some_iff] at h
    obtain ⟨sys, hsys, rfl⟩ := h
    have hc := EventLoop.System.step_caller hsys (by simp)
    have halive : s.alive = true := by simp_all
    exact ⟨halive, rfl, hc.1, hc.2.2 (Or.inr ⟨t, rfl⟩), rfl, rfl⟩
  · simp only [step] at h
    split at h <;> cases h
    rename_i hcan
    exact ⟨hcan.2, rfl, rfl, rfl, rfl, rfl⟩

theorem step_move [DecidableEq τ] {s s' : EventLoopThread τ F} {a : Action τ F}
    (h : s.step a = some s') : Move s a s' := by
  cases a with
  | start =>
      simp only [step] at h
      split at h <;> cases h
      rename_i hpc
      exact .advance _ .constructing s.loopSet (by simp [hpc])
  | construct =>
      simp only [step] at h
      split at h <;> cases h
      rename_i hpc
      exact .advance _ .initializing s.loopSet (by simp [hpc])
  | publish =>
      simp only [step] at h
      split at h <;> cases h
      rename_i hpc
      exact .advance _ .published true (by simp [hpc])
  | unpublish =>
      simp only [step] at h
      split at h <;> cases h
      rename_i hpc
      exact .advance _ .finished false (by simp [hpc])
  | obtain t =>
      simp only [step] at h
      split at h <;> cases h
      exact .call _ _ rfl rfl id rfl rfl id
  | loop a => exact loopStep_move h
  | ownQueue f =>
      simp only [step] at h
      split at h <;> try contradiction
      simp only [Option.map_eq_some_iff] at h
      obtain ⟨sys, hsys, rfl⟩ := h
      have hc := EventLoop.System.step_caller hsys (by simp)
      exact .call _ _ rfl hc.1 hc.2.1 rfl rfl id
  | ownQuit => exact .setQuit _ _ (Or.inl rfl) (quit_spec (Or.inl rfl) h)
  | emplace t f =>
      simp only [step] at h
      split at h <;> try contradiction
      simp only [Option.map_eq_some_iff] at h
      obtain ⟨sys, hsys, rfl⟩ := h
      have hc := EventLoop.System.step_caller hsys (by simp)
      exact .call _ _ rfl hc.1 hc.2.1 rfl rfl id
  | quit t =>
      exact .setQuit _ _ (Or.inr (Or.inl ⟨t, rfl⟩)) (quit_spec (Or.inr (Or.inl ⟨t, rfl⟩)) h)
  | wakeup t =>
      simp only [step] at h
      split at h <;> try contradiction
      simp only [Option.map_eq_some_iff] at h
      obtain ⟨sys, hsys, rfl⟩ := h
      have hc := EventLoop.System.step_caller hsys (by simp)
      exact .call _ _ rfl hc.1 hc.2.1 rfl rfl id
  | dtorTest =>
      simp only [step] at h
      split at h <;> cases h
      refine .call _ _ rfl rfl id rfl rfl ?_
      intro hd
      dsimp only at hd
      split at hd <;> simp at hd
  | dtorQuit => exact .setQuit _ _ (Or.inr (Or.inr rfl)) (quit_spec (Or.inr (Or.inr rfl)) h)
  | dtorWakeup =>
      simp only [step] at h
      split at h <;> cases h
      rename_i hcan
      exact .call _ _ rfl (by simp) (by simp) rfl rfl (fun _ => Or.inl hcan.1)
  | dtorJoin =>
      simp only [step] at h
      split at h <;> cases h
      exact .call _ _ rfl rfl id rfl rfl (by simp)

/-! ## Quit after the reset is kept -/

/-- What runs keep in which every `Quit()` follows the reset. -/
structure QuitInv (s : EventLoopThread τ F) : Prop where
  kept : s.quitSet = true → s.resetDone = true ∧ s.sys.loop.quit = true
  onTime : s.lateIterations = 0
  joins : s.dtor = .waking ∨ s.dtor = .joining → s.quitSet = true

theorem resetDone_congr {s s' : EventLoopThread τ F} (hpc : s'.pc = s.pc)
    (hl : s'.sys.loop.pc = s.sys.loop.pc) : s'.resetDone = s.resetDone := by
  simp only [resetDone, hpc, hl]

theorem resetDone_of_looping {s : EventLoopThread τ F} (hpc : s.pc = .looping)
    (hl : s.sys.loop.pc ≠ .entered) : s.resetDone = true := by
  unfold resetDone
  rw [hpc]
  cases h : s.sys.loop.pc <;> simp_all

theorem QuitInv.new : QuitInv (new : EventLoopThread τ F) := by
  constructor
  · intro h
    cases h
  · rfl
  · intro h
    rcases h with h | h <;> cases h

section Runs

variable [DecidableEq τ]

/-- `quit_` is written false only on the way into the loop, before any `Quit()`
the guard admits; afterwards the loop test can only leave. -/
theorem QuitInv.step {s s' : EventLoopThread τ F} {a : Action τ F} (h : QuitInv s)
    (hg : QuitAfterReset s a) (hs : s.step a = some s') : QuitInv s' := by
  obtain ⟨hkept, htime, hjoin⟩ := h
  cases step_move hs with
  | advance _ pc loopSet hpc =>
      refine ⟨?_, htime, hjoin⟩
      intro hq
      have hk := hkept hq
      refine ⟨?_, hk.2⟩
      simp only [List.mem_cons, Prod.mk.injEq, List.not_mem_nil, or_false] at hpc
      rcases hpc with ⟨hold, _⟩ | ⟨hold, _⟩ | ⟨hold, _⟩ | ⟨_, hnew⟩
      · simp [resetDone, hold] at hk
      · simp [resetDone, hold] at hk
      · simp [resetDone, hold] at hk
      · simp [resetDone, hnew]
  | enter l hpc hl =>
      refine ⟨?_, htime, hjoin⟩
      intro hq
      have hk := hkept hq
      simp [resetDone, hpc] at hk
  | leave l hpc hquit hl =>
      refine ⟨?_, htime, hjoin⟩
      intro hq
      refine ⟨rfl, ?_⟩
      cases EventLoop.step_move hl with
      | leave _ _ => exact hquit
      | iterate _ hno =>
          rw [hquit] at hno
          cases hno
  | iterate l hpc hquit hl =>
      have hunset : s.quitSet = false := by
        cases hq : s.quitSet with
        | false => rfl
        | true =>
            rw [(hkept hq).2] at hquit
            cases hquit
      refine ⟨?_, ?_, hjoin⟩
      · intro hq
        simp [hunset] at hq
      · simpa [hunset] using htime
  | inside a l hpc hne hnt hl =>
      refine ⟨?_, htime, hjoin⟩
      intro hq
      have hk := hkept hq
      have hentered : s.sys.loop.pc ≠ .entered := by
        intro he
        simp [resetDone, hpc, he] at hk
      cases EventLoop.step_move hl with
      | enterLoop _ => exact absurd rfl hne
      | resetQuit he => exact absurd he hentered
      | leave _ _ => exact absurd rfl hnt
      | iterate _ _ => exact absurd rfl hnt
      | startPolling _ => exact ⟨resetDone_of_looping hpc (by simp), hk.2⟩
      | pollReturns _ _ _ => exact ⟨resetDone_of_looping hpc (by simp), hk.2⟩
      | handleWakeup _ => exact ⟨resetDone_of_looping hpc (by simp), hk.2⟩
      | doPendingFunctors _ => exact ⟨resetDone_of_looping hpc (by simp), hk.2⟩
      | swapFunctors _ => exact ⟨resetDone_of_looping hpc (by simp), hk.2⟩
      | runFunctor _ _ _ => exact ⟨resetDone_of_looping hpc (by simp), hk.2⟩
      | finishFunctors _ => exact ⟨resetDone_of_looping hpc (by simp), hk.2⟩
  | call _ _ hpc hl hquit hset hlate hdtor =>
      refine ⟨?_, by rw [hlate, htime], ?_⟩
      · intro hq
        have hk := hkept (by rwa [hset] at hq)
        exact ⟨by rw [resetDone_congr hpc hl, hk.1], hquit hk.2⟩
      · intro hd
        rw [hset]
        exact hjoin (hdtor hd)
  | setQuit _ _ ha hset =>
      obtain ⟨_, hpc, hl, hquit, hset, hlate⟩ := hset
      have hreset : s.resetDone = true := by
        rcases ha with rfl | ⟨t, rfl⟩ | rfl <;> exact hg
      refine ⟨?_, by rw [hlate, htime], fun _ => hset⟩
      intro _
      exact ⟨by rw [resetDone_congr hpc hl, hreset], hquit⟩

/-! ## Quit before the reset is lost -/

/-- Before `Loop()` the loop is idle. -/
def IdleBefore (s : EventLoopThread τ F) : Prop :=
  s.pc ∈ [Pc.notStarted, .constructing, .initializing, .published] → s.sys.loop.pc = .idle

theorem IdleBefore.step {s s' : EventLoopThread τ F} {a : Action τ F} (h : IdleBefore s)
    (hs : s.step a = some s') : IdleBefore s' := by
  cases step_move hs with
  | advance _ pc loopSet hpc =>
      intro hnew
      apply h
      simp only [List.mem_cons, Prod.mk.injEq, List.not_mem_nil, or_false] at hpc hnew ⊢
      rcases hpc with ⟨hold, _⟩ | ⟨hold, _⟩ | ⟨hold, _⟩ | ⟨_, hfin⟩
      · simp [hold]
      · simp [hold]
      · simp [hold]
      · simp [hfin] at hnew
  | enter l hpc hl =>
      intro hnew
      simp at hnew
  | leave l hpc hquit hl =>
      intro hnew
      simp at hnew
  | iterate l hpc hquit hl =>
      intro hnew
      simp [hpc] at hnew
  | inside a l hpc hne hnt hl =>
      intro hnew
      simp [hpc] at hnew
  | call _ _ hpc hl =>
      intro hnew
      rw [hl]
      exact h (by rwa [hpc] at hnew)
  | setQuit _ _ ha hset =>
      intro hnew
      rw [hset.2.2.1]
      exact h (by rwa [hset.2.1] at hnew)

theorem idleBefore_of_reach {guard : EventLoopThread τ F → Action τ F → Prop}
    {s : EventLoopThread τ F} (h : (machine τ F).Reach guard s) : IdleBefore s := by
  apply h.invariant
  · intro s hs
    cases hs
    exact fun _ => rfl
  · intro s a s' hI _ hs
    exact hI.step hs

/-- A flag set before the reset is cleared on the way to the first test. -/
theorem late_iteration {s : EventLoopThread τ F} (hidle : IdleBefore s) (halive : s.alive = true)
    (hset : s.quitSet = true) (hreset : s.resetDone = false) :
    ∃ steps s', (machine τ F).run s steps = some s' ∧ 0 < s'.lateIterations := by
  cases hpc : s.pc with
  | notStarted => simp [alive, hpc] at halive
  | constructing => simp [alive, hpc] at halive
  | returned => simp [resetDone, hpc] at hreset
  | finished => simp [alive, hpc] at halive
  | initializing =>
      have hl := hidle (by simp [hpc])
      exact ⟨[.publish, .loop .enterLoop, .loop .resetQuit, .loop .testQuit], _,
        by
          simp [machine, Machine.run, EventLoopThread.step, loopStep, EventLoop.step, hpc, hl]
          rfl,
        by simp [hset]⟩
  | published =>
      have hl := hidle (by simp [hpc])
      exact ⟨[.loop .enterLoop, .loop .resetQuit, .loop .testQuit], _,
        by
          simp [machine, Machine.run, EventLoopThread.step, loopStep, EventLoop.step, hpc, hl]
          rfl,
        by simp [hset]⟩
  | looping =>
      have hl : s.sys.loop.pc = .entered := by
        by_contra hne
        rw [resetDone_of_looping hpc hne] at hreset
        cases hreset
      exact ⟨[.loop .resetQuit, .loop .testQuit], _,
        by
          simp [machine, Machine.run, EventLoopThread.step, loopStep, EventLoop.step, hpc, hl]
          rfl,
        by simp [hset]⟩

/-- In every run whose `Quit()` calls follow the reset in `Loop()`, a set
`quit_` is still set when the loop tests it, no iteration starts after it, and
the destructor joins a loop told to stop; a `Quit()` made before the reset is
followed by an iteration as soon as the loop thread runs on. -/
theorem quit_kept_iff_after_reset (s : EventLoopThread τ F)
    (h : (machine τ F).Reach QuitAfterReset s) :
    (s.quitSet = true → s.sys.loop.pc = .head → s.sys.loop.quit = true) ∧
    s.lateIterations = 0 ∧
    (s.dtor = .joining → s.sys.loop.quit = true) ∧
    ∀ a s', ¬ QuitAfterReset s a → s.step a = some s' →
      ∃ steps s'', (machine τ F).run s' steps = some s'' ∧ 0 < s''.lateIterations := by
  have hI : QuitInv s := by
    apply h.invariant
    · intro s hs
      cases hs
      exact QuitInv.new
    · intro s a s' hI hg hs
      exact hI.step hg hs
  refine ⟨fun hq _ => (hI.kept hq).2, hI.onTime,
    fun hj => (hI.kept (hI.joins (Or.inr hj))).2, ?_⟩
  intro a s' hnot hs
  have hidle := (idleBefore_of_reach h).step hs
  have hquit : a.IsQuit := by
    cases a <;> simp_all [QuitAfterReset, Action.IsQuit]
  have hreset : s.resetDone = false := by
    rcases hquit with rfl | ⟨t, rfl⟩ | rfl <;> simpa [QuitAfterReset] using hnot
  obtain ⟨halive, hpc, hl, _, hset, _⟩ := quit_spec hquit hs
  apply late_iteration hidle
  · simpa only [alive, hpc] using halive
  · exact hset
  · rw [resetDone_congr hpc hl, hreset]

end Runs

/-- The owner starts the thread and destroys it after `Loop()` has begun. -/
theorem quit_kept_iff_after_reset_dtor :
    ∃ s, (machine Unit Unit).run new
        [.start, .construct, .publish, .loop .enterLoop, .loop .resetQuit, .dtorTest,
          .dtorQuit, .dtorWakeup] = some s ∧
      s.dtor = .joining ∧ s.sys.loop.quit = true ∧ s.lateIterations = 0 := by
  refine ⟨_, rfl, rfl, ?_⟩
  have h₀ : (machine Unit Unit).Reach QuitAfterReset new := .start rfl
  have h₁ := h₀.of_run [.start, .construct, .publish, .loop .enterLoop, .loop .resetQuit,
    .dtorTest] (by simp [QuitAfterReset]) rfl
  have h₂ := h₁.step (show QuitAfterReset _ .dtorQuit from rfl) rfl
  have h₃ := h₂.step (show QuitAfterReset _ .dtorWakeup from trivial) rfl
  have hmain := quit_kept_iff_after_reset _ h₃
  exact ⟨hmain.2.2.1 rfl, hmain.2.1⟩

/-- The destructor sets `quit_` between the publication and the reset: the
destructor waits while an iteration starts with `quit_` false. -/
theorem quit_before_reset_lost :
    ¬ ∀ s, (machine Unit Unit).Reach (fun _ _ => True) s →
      s.quitSet = true → s.sys.loop.pc = .head → s.sys.loop.quit = true := by
  intro hall
  have h₀ : (machine Unit Unit).Reach (fun _ _ => True) new := .start rfl
  have hreach := h₀.of_run [.start, .construct, .publish, .dtorTest, .dtorQuit, .dtorWakeup,
    .loop .enterLoop, .loop .resetQuit] (fun _ _ _ => trivial) rfl
  have hquit := hall _ hreach rfl rfl
  cases hquit

end EventLoopThread

end MyNetLib
