import MyNetLib.Library.Machine

/-! # The event loop and its callers (`src/event_loop.cc`)

The loop thread is a program counter over `Loop()` and the three functions its
body calls; the other threads call `QueueInLoop` and `Quit`, each of which
releases its lock or sets its flag before it writes the eventfd, so the two
halves are separate steps. Functors are of an arbitrary type: what they do on
the loop thread appears as the loop thread's own calls.
-/

namespace MyNetLib

open Library

namespace EventLoop

/-- The loop thread's position. `handling` carries whether the wakeup channel is
still to be dispatched, `running` the functors of this pass not yet started. -/
inductive Pc (F : Type) where
  | idle
  | entered
  | head
  | timers
  | polling
  | handling (wake : Bool)
  | swapping
  | running (rest : List F)
  deriving DecidableEq, Repr

/-- The largest value an eventfd counter takes. -/
def maxCounter : Nat := 2 ^ 64 - 2

end EventLoop

structure EventLoop (F : Type) where
  looping : Bool
  quit : Bool
  callingPendingFunctors : Bool
  pendingFunctors : List F
  wakeFd : Nat
  pc : EventLoop.Pc F
  deriving DecidableEq, Repr

namespace EventLoop

variable {F : Type}

/-- The constructor, run on the loop's own thread. -/
def new : EventLoop F where
  looping := false
  quit := false
  callingPendingFunctors := false
  pendingFunctors := []
  wakeFd := 0
  pc := .idle

/-- `Wakeup`: the eventfd is non-blocking, so a full counter stays as it is. -/
def wakeup (l : EventLoop F) : EventLoop F :=
  if l.wakeFd + 1 ≤ maxCounter then { l with wakeFd := l.wakeFd + 1 } else l

/-- `HandleRead` of the wakeup channel: the read takes the whole counter. -/
def handleRead (l : EventLoop F) : EventLoop F := { l with wakeFd := 0 }

/-- The critical section of `QueueInLoop`. -/
def emplace (l : EventLoop F) (f : F) : EventLoop F :=
  { l with pendingFunctors := l.pendingFunctors ++ [f] }

/-- `QueueInLoop` called on the loop's own thread. -/
def queueInLoop (l : EventLoop F) (f : F) : EventLoop F :=
  let l := l.emplace f
  if l.callingPendingFunctors then l.wakeup else l

/-- The store of `Quit`; the wakeup that follows on another thread is its own step. -/
def setQuit (l : EventLoop F) : EventLoop F := { l with quit := true }

/-- User code runs on the loop's own thread: outside `Loop()`, in a timer
callback, in a channel handler, in a pending functor. -/
def inUserCode (l : EventLoop F) : Bool :=
  match l.pc with
  | .idle | .timers | .handling _ | .running _ => true
  | .entered | .head | .polling | .swapping => false

/-- The steps of the loop thread through `Loop()`. -/
inductive Label where
  | enterLoop
  | resetQuit
  | testQuit
  | startPolling
  | pollReturns (wake : Bool)
  | handleWakeup
  | doPendingFunctors
  | swapFunctors
  | runFunctor
  | finishFunctors
  deriving DecidableEq, Repr

def step (l : EventLoop F) : Label → Option (EventLoop F)
  | .enterLoop =>
      match l.pc with
      | .idle => some { l with looping := true, pc := .entered }
      | _ => none
  | .resetQuit =>
      match l.pc with
      | .entered => some { l with quit := false, pc := .head }
      | _ => none
  | .testQuit =>
      match l.pc with
      | .head =>
          if l.quit then some { l with looping := false, pc := .idle }
          else some { l with pc := .timers }
      | _ => none
  | .startPolling =>
      match l.pc with
      | .timers => some { l with pc := .polling }
      | _ => none
  | .pollReturns wake =>
      match l.pc with
      | .polling => if wake && l.wakeFd == 0 then none else some { l with pc := .handling wake }
      | _ => none
  | .handleWakeup =>
      match l.pc with
      | .handling true => some { l.handleRead with pc := .handling false }
      | _ => none
  | .doPendingFunctors =>
      match l.pc with
      | .handling false => some { l with callingPendingFunctors := true, pc := .swapping }
      | _ => none
  | .swapFunctors =>
      match l.pc with
      | .swapping => some { l with pendingFunctors := [], pc := .running l.pendingFunctors }
      | _ => none
  | .runFunctor =>
      match l.pc with
      | .running (_ :: rest) => some { l with pc := .running rest }
      | _ => none
  | .finishFunctors =>
      match l.pc with
      | .running [] => some { l with callingPendingFunctors := false, pc := .head }
      | _ => none

/-- Every step of the loop thread, with its guard and its effect. -/
inductive Move (l : EventLoop F) : Label → EventLoop F → Prop
  | enterLoop : l.pc = .idle → Move l .enterLoop { l with looping := true, pc := .entered }
  | resetQuit : l.pc = .entered → Move l .resetQuit { l with quit := false, pc := .head }
  | leave : l.pc = .head → l.quit = true →
      Move l .testQuit { l with looping := false, pc := .idle }
  | iterate : l.pc = .head → l.quit = false → Move l .testQuit { l with pc := .timers }
  | startPolling : l.pc = .timers → Move l .startPolling { l with pc := .polling }
  | pollReturns (wake : Bool) : l.pc = .polling → (wake = true → 0 < l.wakeFd) →
      Move l (.pollReturns wake) { l with pc := .handling wake }
  | handleWakeup : l.pc = .handling true →
      Move l .handleWakeup { l with wakeFd := 0, pc := .handling false }
  | doPendingFunctors : l.pc = .handling false →
      Move l .doPendingFunctors { l with callingPendingFunctors := true, pc := .swapping }
  | swapFunctors : l.pc = .swapping →
      Move l .swapFunctors { l with pendingFunctors := [], pc := .running l.pendingFunctors }
  | runFunctor (f : F) (rest : List F) : l.pc = .running (f :: rest) →
      Move l .runFunctor { l with pc := .running rest }
  | finishFunctors : l.pc = .running [] →
      Move l .finishFunctors { l with callingPendingFunctors := false, pc := .head }

theorem step_move {l l' : EventLoop F} {a : Label} (h : l.step a = some l') : Move l a l' := by
  cases a with
  | testQuit =>
      simp only [step] at h
      split at h <;> try contradiction
      rename_i hpc
      split at h
      · rename_i hq
        cases h
        exact .leave hpc hq
      · rename_i hq
        cases h
        exact .iterate hpc (by simpa using hq)
  | pollReturns wake =>
      simp only [step] at h
      split at h <;> try contradiction
      rename_i hpc
      split at h <;> try contradiction
      rename_i hready
      cases h
      apply Move.pollReturns wake hpc
      intro hwake
      simp only [hwake, Bool.true_and, beq_iff_eq] at hready
      omega
  | runFunctor =>
      simp only [step] at h
      split at h <;> try contradiction
      rename_i f rest hpc
      cases h
      exact .runFunctor f rest hpc
  | enterLoop =>
      simp only [step] at h
      split at h <;> cases h
      exact .enterLoop (by assumption)
  | resetQuit =>
      simp only [step] at h
      split at h <;> cases h
      exact .resetQuit (by assumption)
  | startPolling =>
      simp only [step] at h
      split at h <;> cases h
      exact .startPolling (by assumption)
  | handleWakeup =>
      simp only [step] at h
      split at h <;> cases h
      exact .handleWakeup (by assumption)
  | doPendingFunctors =>
      simp only [step] at h
      split at h <;> cases h
      exact .doPendingFunctors (by assumption)
  | swapFunctors =>
      simp only [step] at h
      split at h <;> cases h
      exact .swapFunctors (by assumption)
  | finishFunctors =>
      simp only [step] at h
      split at h <;> cases h
      exact .finishFunctors (by assumption)

/-! ## Small facts about the shared operations -/

theorem wakeup_wakeFd_pos (l : EventLoop F) : 0 < l.wakeup.wakeFd := by
  unfold wakeup
  split
  · exact Nat.succ_pos _
  · rename_i hfull
    have hmax : maxCounter = 2 ^ 64 - 2 := rfl
    omega

@[simp] theorem wakeup_pc (l : EventLoop F) : l.wakeup.pc = l.pc := by
  unfold wakeup
  split <;> rfl

@[simp] theorem wakeup_pendingFunctors (l : EventLoop F) :
    l.wakeup.pendingFunctors = l.pendingFunctors := by
  unfold wakeup
  split <;> rfl

@[simp] theorem wakeup_callingPendingFunctors (l : EventLoop F) :
    l.wakeup.callingPendingFunctors = l.callingPendingFunctors := by
  unfold wakeup
  split <;> rfl

@[simp] theorem wakeup_quit (l : EventLoop F) : l.wakeup.quit = l.quit := by
  unfold wakeup
  split <;> rfl

@[simp] theorem queueInLoop_pc (l : EventLoop F) (f : F) : (l.queueInLoop f).pc = l.pc := by
  unfold queueInLoop
  dsimp only
  split
  · rw [wakeup_pc]
    rfl
  · rfl

@[simp] theorem queueInLoop_pendingFunctors (l : EventLoop F) (f : F) :
    (l.queueInLoop f).pendingFunctors = l.pendingFunctors ++ [f] := by
  unfold queueInLoop
  dsimp only
  split
  · rw [wakeup_pendingFunctors]
    rfl
  · rfl

@[simp] theorem queueInLoop_callingPendingFunctors (l : EventLoop F) (f : F) :
    (l.queueInLoop f).callingPendingFunctors = l.callingPendingFunctors := by
  unfold queueInLoop
  dsimp only
  split
  · rw [wakeup_callingPendingFunctors]
    rfl
  · rfl

@[simp] theorem queueInLoop_quit (l : EventLoop F) (f : F) :
    (l.queueInLoop f).quit = l.quit := by
  unfold queueInLoop
  dsimp only
  split
  · rw [wakeup_quit]
    rfl
  · rfl

/-- Outside a pass of pending functors a call on the loop's own thread is silent. -/
theorem queueInLoop_of_not_calling {l : EventLoop F} (f : F)
    (h : l.callingPendingFunctors = false) : l.queueInLoop f = l.emplace f := by
  have hcall : (l.emplace f).callingPendingFunctors = false := h
  simp [queueInLoop, hcall]

/-! ## The queue -/

def queued (l : EventLoop F) : List F :=
  (match l.pc with
    | .running rest => rest
    | _ => []) ++ l.pendingFunctors

theorem queued_step {l l' : EventLoop F} {a : Label} (h : l.step a = some l')
    (ha : a ≠ .runFunctor) : l'.queued = l.queued := by
  have hm := step_move h
  cases hm with
  | runFunctor _ _ _ => exact absurd rfl ha
  | swapFunctors hpc => simp [queued, hpc]
  | finishFunctors hpc => simp [queued, hpc]
  | enterLoop hpc => simp [queued, hpc]
  | resetQuit hpc => simp [queued, hpc]
  | leave hpc _ => simp [queued, hpc]
  | iterate hpc _ => simp [queued, hpc]
  | startPolling hpc => simp [queued, hpc]
  | pollReturns wake hpc _ => simp [queued, hpc]
  | handleWakeup hpc => simp [queued, hpc]
  | doPendingFunctors hpc => simp [queued, hpc]

theorem queued_running {l : EventLoop F} {f : F} {rest : List F}
    (hpc : l.pc = .running (f :: rest)) :
    l.queued = f :: { l with pc := Pc.running rest }.queued := by
  simp [queued, hpc]

@[simp] theorem queued_emplace (l : EventLoop F) (f : F) :
    (l.emplace f).queued = l.queued ++ [f] := by
  simp [queued, emplace]

@[simp] theorem queued_queueInLoop (l : EventLoop F) (f : F) :
    (l.queueInLoop f).queued = l.queued ++ [f] := by
  simp [queued]

/-! ## The loop with its callers -/

/-- Another thread's position in `QueueInLoop` or `Quit`. -/
inductive CallerPc where
  | outside
  | queueing
  | quitting
  deriving DecidableEq, Repr

/-- A loop and the other threads, named by an arbitrary type. -/
structure System (τ F : Type) where
  loop : EventLoop F
  callers : τ → CallerPc

namespace System

variable {τ : Type} [DecidableEq τ]

inductive Action (τ F : Type) where
  | loop (a : EventLoop.Label)
  | ownQueue (f : F)
  | ownQuit
  | emplace (t : τ) (f : F)
  | quit (t : τ)
  | wakeup (t : τ)

def setCaller (s : System τ F) (t : τ) (pc : CallerPc) : System τ F :=
  { s with callers := Function.update s.callers t pc }

def step (s : System τ F) : Action τ F → Option (System τ F)
  | .loop a => (s.loop.step a).map fun l => { s with loop := l }
  | .ownQueue f =>
      if s.loop.inUserCode then some { s with loop := s.loop.queueInLoop f } else none
  | .ownQuit => if s.loop.inUserCode then some { s with loop := s.loop.setQuit } else none
  | .emplace t f =>
      if s.callers t = .outside then
        some ({ s with loop := s.loop.emplace f }.setCaller t .queueing)
      else none
  | .quit t =>
      if s.callers t = .outside then
        some ({ s with loop := s.loop.setQuit }.setCaller t .quitting)
      else none
  | .wakeup t =>
      if s.callers t = .outside then none
      else some ({ s with loop := s.loop.wakeup }.setCaller t .outside)

theorem step_caller {s s' : System τ F} {a : Action τ F} (hs : s.step a = some s')
    (ha : ∀ b, a ≠ .loop b) :
    s'.loop.pc = s.loop.pc ∧ (s.loop.quit = true → s'.loop.quit = true) ∧
      (a = .ownQuit ∨ (∃ t, a = .quit t) → s'.loop.quit = true) := by
  cases a with
  | loop b => exact absurd rfl (ha b)
  | ownQueue f =>
      simp only [step] at hs
      split at hs <;> cases hs
      simp
  | ownQuit =>
      simp only [step] at hs
      split at hs <;> cases hs
      simp [setQuit]
  | emplace t f =>
      simp only [step] at hs
      split at hs <;> cases hs
      simp [setCaller, EventLoop.emplace]
  | quit t =>
      simp only [step] at hs
      split at hs <;> cases hs
      simp [setCaller, setQuit]
  | wakeup t =>
      simp only [step] at hs
      split at hs <;> cases hs
      simp [setCaller]

def machine (τ F : Type) [DecidableEq τ] : Machine (System τ F) (Action τ F) where
  start s := s.loop = .new ∧ ∀ t, s.callers t = .outside
  step := step

end System

end EventLoop

end MyNetLib
