import MyNetLib.Library.BinaryHeap
import MyNetLib.Library.Heap
import MyNetLib.Library.Machine

/-! # The timer manager (`src/timer_manager.cc`, `include/timer.h`)

`timers_que_` is a heap of `Timer*`; the timers themselves live in a heap of
objects, where `CheckAndHandle` rewrites the key of the timer it has just run.
What a callback does appears as the calls made while it runs.
-/

namespace MyNetLib

open Library

/-- `expired_time_` is an `unsigned long long`, in milliseconds. -/
structure Timer where
  expiredTime : Nat
  repeatedTimes : Int32
  interval : Int64
  deriving DecidableEq

namespace Timer

/-- `now + interval`, computed in `unsigned long long`. -/
def deadline (now : Nat) (interval : Int64) : Nat := ((now + interval.toInt) % 2 ^ 64).toNat

def setExpiredTime (t : Timer) (expired : Nat) : Timer := { t with expiredTime := expired }

def decRepeatTimes (t : Timer) : Timer := { t with repeatedTimes := t.repeatedTimes - 1 }

end Timer

structure TimerManager where
  timers : Heap Timer
  timersQue : List Nat

namespace TimerManager

def new : TimerManager := ⟨.empty, []⟩

/-- `cmp`: the earlier deadline goes first, among equal ones the fewer repeats. -/
def cmp (timers : Heap Timer) (a b : Nat) : Bool :=
  match timers.get a, timers.get b with
  | some t₁, some t₂ =>
      if t₁.expiredTime = t₂.expiredTime then t₂.repeatedTimes < t₁.repeatedTimes
      else t₂.expiredTime < t₁.expiredTime
  | _, _ => false

theorem cmp_alloc_of_later {timers : Heap Timer} {r : Nat} {t timer : Timer}
    (hget : timers.get r = some t) (hlater : t.expiredTime < timer.expiredTime) :
    cmp (timers.alloc timer) r timers.next = false := by
  rw [cmp, Heap.get_alloc hget, Heap.get_alloc_next]
  simp [hlater.ne, hlater.le]

/-- `AddTimer`, with the pointer it returns. -/
def addTimer (m : TimerManager) (now : Nat) (repeatedTimes : Int32) (interval : Int64) :
    Option Nat × TimerManager :=
  if interval ≤ 0 then (none, m)
  else
    let timers := m.timers.alloc ⟨Timer.deadline now interval, repeatedTimes, interval⟩
    (some m.timers.next,
      { timers := timers
        timersQue := BinaryHeap.push (cmp timers) m.timersQue m.timers.next })

/-- The loop of `RemoveTimer`: one round for each queued timer. -/
def removeLoop (timer : Nat) : Nat → Heap Timer → List Nat → List Nat → TimerManager
  | 0, timers, _, newqueue => ⟨timers, newqueue⟩
  | fuel + 1, timers, queue, newqueue =>
      match BinaryHeap.top queue with
      | none => ⟨timers, newqueue⟩
      | some top =>
          let queue := BinaryHeap.pop (cmp timers) queue
          if top = timer then removeLoop timer fuel (timers.free timer) queue newqueue
          else
            removeLoop timer fuel timers queue (BinaryHeap.push (cmp timers) newqueue top)

def removeTimer (m : TimerManager) (timer : Nat) : TimerManager :=
  removeLoop timer m.timersQue.length m.timers m.timersQue []

/-- The body of `CheckAndHandle` after `timer->Run()`; `none` when the timer was
deleted by its own callback. -/
def afterRun (m : TimerManager) (now timer : Nat) : Option TimerManager :=
  match m.timers.get timer with
  | none => none
  | some t =>
      if t.repeatedTimes = 0 then
        some
          { timers := m.timers.free timer
            timersQue := BinaryHeap.pop (cmp m.timers) m.timersQue }
      else
        let t := (t.setExpiredTime (Timer.deadline now t.interval)).decRepeatTimes
        let timers := m.timers.put timer t
        some
          { timers := timers
            timersQue :=
              BinaryHeap.push (cmp timers) (BinaryHeap.pop (cmp timers) m.timersQue) timer }

/-- `GetRecentTimeout`; `none` at the read of a deleted timer. The test for a negative
value is the source's, on an unsigned one. -/
def getRecentTimeout (m : TimerManager) (now : Nat) : Option UInt64 :=
  match BinaryHeap.top m.timersQue with
  | none => some (-1)
  | some top =>
      match m.timers.get top with
      | none => none
      | some t =>
          let timeout := UInt64.ofNat t.expiredTime - UInt64.ofNat now
          some (if timeout < 0 then 0 else timeout)

/-! ## Runs -/

/-- The thread of the manager: outside, in `CheckAndHandle` at its loop head, or
in the callback of a timer. -/
inductive Pc where
  | idle
  | checking (now : Nat)
  | running (now timer : Nat)
  deriving DecidableEq

/-- What happened to a timer: its `AddTimer` call and the clock readings of the
passes that ran its callback. -/
structure Record where
  addedAt : Nat
  repeatedTimes : Int32
  interval : Int64
  runs : List Nat

/-- `clock` is the last reading of the monotonic clock. -/
structure System where
  manager : TimerManager
  pc : Pc
  clock : Nat
  record : Nat → Option Record

namespace System

inductive Action where
  | addTimer (now : Nat) (repeatedTimes : Int32) (interval : Int64)
  | removeTimer (timer : Nat)
  | checkAndHandle (now : Nat)
  | loopHead
  | callbackReturns

/-- `GetCurrentMillisecs` adds seconds and nanoseconds in a signed `long`, and
the clock does not go back. -/
def readable (s : System) (now : Nat) : Bool := s.clock ≤ now && now < 2 ^ 63

def canCall (s : System) : Bool :=
  match s.pc with
  | .idle | .running _ _ => true
  | .checking _ => false

/-- Start the callback of `timer`. -/
def startRun (s : System) (now timer : Nat) : System :=
  { s with
    pc := .running now timer
    record := Function.update s.record timer
      ((s.record timer).map fun r => { r with runs := r.runs ++ [now] }) }

def step (s : System) : Action → Option System
  | .addTimer now repeatedTimes interval =>
      if s.canCall then
        if interval ≤ 0 then some s
        else if s.readable now then
          some { s with
            manager := (s.manager.addTimer now repeatedTimes interval).2
            clock := now
            record := Function.update s.record s.manager.timers.next
              (some ⟨now, repeatedTimes, interval, []⟩) }
        else none
      else none
  | .removeTimer timer =>
      if s.canCall then some { s with manager := s.manager.removeTimer timer } else none
  | .checkAndHandle now =>
      if s.pc = .idle ∧ s.readable now then some { s with pc := .checking now, clock := now }
      else none
  | .loopHead =>
      match s.pc with
      | .checking now =>
          match BinaryHeap.top s.manager.timersQue with
          | none => some { s with pc := .idle }
          | some timer =>
              match s.manager.timers.get timer with
              | none => none
              | some t =>
                  if t.expiredTime ≤ now then some (s.startRun now timer)
                  else some { s with pc := .idle }
      | _ => none
  | .callbackReturns =>
      match s.pc with
      | .running now timer =>
          (s.manager.afterRun now timer).map fun m => { s with manager := m, pc := .checking now }
      | _ => none

/-- Every step, with its guard and its effect. -/
inductive Transition (s : System) : Action → System → Prop
  | ignored (now : Nat) (repeatedTimes : Int32) (interval : Int64) : interval ≤ 0 →
      Transition s (.addTimer now repeatedTimes interval) s
  | adds (now : Nat) (repeatedTimes : Int32) (interval : Int64) : s.canCall = true →
      ¬ interval ≤ 0 → s.clock ≤ now → now < 2 ^ 63 →
      Transition s (.addTimer now repeatedTimes interval)
        { s with
          manager := (s.manager.addTimer now repeatedTimes interval).2
          clock := now
          record := Function.update s.record s.manager.timers.next
            (some ⟨now, repeatedTimes, interval, []⟩) }
  | removes (timer : Nat) : s.canCall = true →
      Transition s (.removeTimer timer) { s with manager := s.manager.removeTimer timer }
  | begins (now : Nat) : s.pc = .idle → s.clock ≤ now → now < 2 ^ 63 →
      Transition s (.checkAndHandle now) { s with pc := .checking now, clock := now }
  | ends (now : Nat) : s.pc = .checking now →
      (∀ timer, BinaryHeap.top s.manager.timersQue = some timer →
        ∃ t, s.manager.timers.get timer = some t ∧ ¬ t.expiredTime ≤ now) →
      Transition s .loopHead { s with pc := .idle }
  | runs (now timer : Nat) (t : Timer) : s.pc = .checking now →
      BinaryHeap.top s.manager.timersQue = some timer → s.manager.timers.get timer = some t →
      t.expiredTime ≤ now → Transition s .loopHead (s.startRun now timer)
  | returns (now timer : Nat) (m : TimerManager) : s.pc = .running now timer →
      s.manager.afterRun now timer = some m →
      Transition s .callbackReturns { s with manager := m, pc := .checking now }

theorem step_transition {s s' : System} {a : Action} (hs : s.step a = some s') :
    Transition s a s' := by
  cases a with
  | addTimer now repeatedTimes interval =>
      simp only [step] at hs
      split at hs
      · rename_i hcan
        split at hs
        · rename_i hinterval
          cases hs
          exact .ignored now repeatedTimes interval hinterval
        · rename_i hinterval
          split at hs
          · rename_i hread
            simp only [readable, Bool.and_eq_true, decide_eq_true_eq] at hread
            cases hs
            exact .adds now repeatedTimes interval hcan hinterval hread.1 hread.2
          · cases hs
      · cases hs
  | removeTimer timer =>
      simp only [step] at hs
      split at hs
      · rename_i hcan
        cases hs
        exact .removes timer hcan
      · cases hs
  | checkAndHandle now =>
      simp only [step] at hs
      split at hs
      · rename_i hguard
        obtain ⟨hidle, hread⟩ := hguard
        simp only [readable, Bool.and_eq_true, decide_eq_true_eq] at hread
        cases hs
        exact .begins now hidle hread.1 hread.2
      · cases hs
  | loopHead =>
      simp only [step] at hs
      split at hs
      · rename_i now hpc
        split at hs
        · rename_i htop
          cases hs
          exact .ends now hpc fun timer htop' => by simp [htop] at htop'
        · rename_i timer htop
          split at hs
          · cases hs
          · rename_i t hget
            split at hs
            · rename_i hdue
              cases hs
              exact .runs now timer t hpc htop hget hdue
            · rename_i hnot
              cases hs
              refine .ends now hpc fun timer' htop' => ?_
              rw [htop, Option.some.injEq] at htop'
              exact ⟨t, htop' ▸ hget, hnot⟩
      · cases hs
  | callbackReturns =>
      simp only [step] at hs
      split at hs
      · rename_i now timer hpc
        obtain ⟨m, hm, hs'⟩ := Option.map_eq_some_iff.1 hs
        subst hs'
        exact .returns now timer m hpc hm
      · cases hs

structure Initial (s : System) : Prop where
  manager : s.manager = .new
  pc : s.pc = .idle
  record : ∀ t, s.record t = none

def machine : Machine System Action where
  start := Initial
  step := step

end System

end TimerManager

end MyNetLib
