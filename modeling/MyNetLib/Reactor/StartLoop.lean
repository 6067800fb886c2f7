import MyNetLib.Library.Simulation
import MyNetLib.Reactor.EventLoopThreadPool

/-! # Waiting for the loop (`src/event_loop_thread.cc`, `src/thread.cc`)

`StartLoop` and `ThreadFunc` statement by statement: the semaphore of `Thread::Start`,
the mutex, the condition variable with its spurious wakeups, and the pointer `loop_`.
What `EventLoopThread` takes for one step, the guarded `obtain`, is here a test in a
loop and a later read of the pointer.
-/

namespace MyNetLib

open Library

namespace StartLoop

inductive Holder where
  | caller
  | loopThread
  deriving DecidableEq, Repr

/-- The position of `StartLoop`. -/
inductive CallerPc where
  | notCalled
  | semWaiting
  | locking
  | testing
  | waiting
  | woken
  | passed
  | unlocking
  | returned
  deriving DecidableEq, Repr

/-- The position of the new thread; `running` is `ThreadFunc` without the lock. -/
inductive ThreadPc where
  | notCreated
  | created
  | tidCached
  | running
  | publishing
  | notifying
  | notified
  | leaving
  | cleared
  deriving DecidableEq, Repr

end StartLoop

structure StartLoop (τ F : Type) where
  thread : EventLoopThread τ F
  mutex : Option StartLoop.Holder
  caller : StartLoop.CallerPc
  threadPc : StartLoop.ThreadPc
  sem : Nat
  tid : Nat
  loop : Bool

namespace StartLoop

variable {τ F : Type}

inductive Action (τ F : Type) where
  | create
  | semWait
  | lock
  | test
  | spuriousWakeup
  | relock
  | read
  | unlock
  | cacheTid (n : Nat)
  | semPost
  | lockPublish
  | store
  | notifyOne
  | unlockPublished
  | lockLeave
  | clear
  | unlockLeft
  | inner (a : EventLoopThread.Action τ F)

/-- The loop thread's own steps need it outside its critical sections, the owner destroys
the object after `StartLoop`. The steps split above are not taken whole. -/
def admits (s : StartLoop τ F) : EventLoopThread.Action τ F → Bool
  | .start | .publish | .unpublish | .obtain _ => false
  | .construct | .loop _ | .ownQueue _ | .ownQuit => s.threadPc = .running
  | .dtorTest | .dtorQuit | .dtorWakeup | .dtorJoin => s.caller = .returned
  | .emplace _ _ | .quit _ | .wakeup _ => true

/-- `me` is the thread that calls `StartLoop`. -/
def step [DecidableEq τ] (me : τ) (s : StartLoop τ F) : Action τ F → Option (StartLoop τ F)
  | .create =>
      if s.caller = .notCalled then
        some { s with
          caller := .semWaiting
          threadPc := .created
          thread := { s.thread with pc := .constructing } }
      else none
  | .semWait =>
      if s.caller = .semWaiting ∧ 0 < s.sem then
        some { s with caller := .locking, sem := s.sem - 1 }
      else none
  | .lock =>
      if s.caller = .locking ∧ s.mutex = none then
        some { s with caller := .testing, mutex := some .caller }
      else none
  | .test =>
      if s.caller = .testing then
        if s.thread.loopSet then some { s with caller := .passed }
        else some { s with caller := .waiting, mutex := none }
      else none
  | .spuriousWakeup => if s.caller = .waiting then some { s with caller := .woken } else none
  | .relock =>
      if s.caller = .woken ∧ s.mutex = none then
        some { s with caller := .testing, mutex := some .caller }
      else none
  | .read =>
      if s.caller = .passed then
        some { s with
          caller := .unlocking
          loop := s.thread.loopSet
          thread := { s.thread with holders := Function.update s.thread.holders me true } }
      else none
  | .unlock =>
      if s.caller = .unlocking then some { s with caller := .returned, mutex := none } else none
  | .cacheTid n =>
      if s.threadPc = .created ∧ n ≠ 0 then
        some { s with threadPc := .tidCached, tid := n }
      else none
  | .semPost =>
      if s.threadPc = .tidCached then
        some { s with threadPc := .running, sem := s.sem + 1 }
      else none
  | .lockPublish =>
      if s.threadPc = .running ∧ s.thread.pc = .initializing ∧ s.mutex = none then
        some { s with threadPc := .publishing, mutex := some .loopThread }
      else none
  | .store =>
      if s.threadPc = .publishing then
        some { s with
          threadPc := .notifying
          thread := { s.thread with pc := .published, loopSet := true } }
      else none
  | .notifyOne =>
      if s.threadPc = .notifying then
        some { s with
          threadPc := .notified
          caller := if s.caller = .waiting then .woken else s.caller }
      else none
  | .unlockPublished =>
      if s.threadPc = .notified then
        some { s with threadPc := .running, mutex := none }
      else none
  | .lockLeave =>
      if s.threadPc = .running ∧ s.thread.pc = .returned ∧ s.mutex = none then
        some { s with threadPc := .leaving, mutex := some .loopThread }
      else none
  | .clear =>
      if s.threadPc = .leaving then
        some { s with
          threadPc := .cleared
          thread := { s.thread with pc := .finished, loopSet := false } }
      else none
  | .unlockLeft =>
      if s.threadPc = .cleared then
        some { s with threadPc := .running, mutex := none }
      else none
  | .inner a =>
      if s.admits a then (s.thread.step a).map fun t => { s with thread := t } else none

def new : StartLoop τ F where
  thread := .new
  mutex := none
  caller := .notCalled
  threadPc := .notCreated
  sem := 0
  tid := 0
  loop := false

def machine (F : Type) [DecidableEq τ] (me : τ) : Machine (StartLoop τ F) (Action τ F) where
  start s := s = .new
  step := step me

/-! ## What a step can do -/

/-- The steps of `StartLoop`, each with the test it makes. -/
inductive CallerMove [DecidableEq τ] (me : τ) (s : StartLoop τ F) : StartLoop τ F → Prop
  | create : s.caller = .notCalled →
      CallerMove me s { s with
        caller := .semWaiting
        threadPc := .created
        thread := { s.thread with pc := .constructing } }
  | semWait : s.caller = .semWaiting → 0 < s.sem →
      CallerMove me s { s with caller := .locking, sem := s.sem - 1 }
  | lock : s.caller = .locking ∨ s.caller = .woken → s.mutex = none →
      CallerMove me s { s with caller := .testing, mutex := some .caller }
  | pass : s.caller = .testing → s.thread.loopSet = true →
      CallerMove me s { s with caller := .passed }
  | sleep : s.caller = .testing → s.thread.loopSet = false →
      CallerMove me s { s with caller := .waiting, mutex := none }
  | wake : s.caller = .waiting → CallerMove me s { s with caller := .woken }
  | read : s.caller = .passed →
      CallerMove me s { s with
        caller := .unlocking
        loop := s.thread.loopSet
        thread := { s.thread with holders := Function.update s.thread.holders me true } }
  | unlock : s.caller = .unlocking →
      CallerMove me s { s with caller := .returned, mutex := none }

/-- The steps of the new thread; `inner` are those of the loop and of its other callers. -/
inductive ThreadMove [DecidableEq τ] (s : StartLoop τ F) : StartLoop τ F → Prop
  | cacheTid (n : Nat) : s.threadPc = .created → n ≠ 0 →
      ThreadMove s { s with threadPc := .tidCached, tid := n }
  | semPost : s.threadPc = .tidCached →
      ThreadMove s { s with threadPc := .running, sem := s.sem + 1 }
  | lock (p : ThreadPc) : s.threadPc = .running → s.mutex = none →
      (s.thread.pc = .initializing ∧ p = .publishing ∨ s.thread.pc = .returned ∧ p = .leaving) →
      ThreadMove s { s with threadPc := p, mutex := some .loopThread }
  | store : s.threadPc = .publishing →
      ThreadMove s { s with
        threadPc := .notifying
        thread := { s.thread with pc := .published, loopSet := true } }
  | notifyOne : s.threadPc = .notifying →
      ThreadMove s { s with
        threadPc := .notified
        caller := if s.caller = .waiting then .woken else s.caller }
  | clear : s.threadPc = .leaving →
      ThreadMove s { s with
        threadPc := .cleared
        thread := { s.thread with pc := .finished, loopSet := false } }
  | unlock : s.threadPc = .notified ∨ s.threadPc = .cleared →
      ThreadMove s { s with threadPc := .running, mutex := none }
  | inner (a : EventLoopThread.Action τ F) (t : EventLoopThread τ F) : s.admits a = true →
      s.thread.step a = some t → ThreadMove s { s with thread := t }

theorem step_moves [DecidableEq τ] {me : τ} {s s' : StartLoop τ F} {a : Action τ F}
    (hs : s.step me a = some s') : CallerMove me s s' ∨ ThreadMove s s' := by
  cases a with
  | create =>
      obtain ⟨hcaller, h⟩ := Option.ite_none_right_eq_some.1 hs
      cases h
      exact Or.inl (.create hcaller)
  | semWait =>
      obtain ⟨hcaller, h⟩ := Option.ite_none_right_eq_some.1 hs
      cases h
      exact Or.inl (.semWait hcaller.1 hcaller.2)
  | lock =>
      obtain ⟨hcaller, h⟩ := Option.ite_none_right_eq_some.1 hs
      cases h
      exact Or.inl (.lock (Or.inl hcaller.1) hcaller.2)
  | test =>
      obtain ⟨hcaller, h⟩ := Option.ite_none_right_eq_some.1 hs
      split at h <;> cases h
      · rename_i hset
        exact Or.inl (.pass hcaller hset)
      · rename_i hset
        exact Or.inl (.sleep hcaller (by simpa using hset))
  | spuriousWakeup =>
      obtain ⟨hcaller, h⟩ := Option.ite_none_right_eq_some.1 hs
      cases h
      exact Or.inl (.wake hcaller)
  | relock =>
      obtain ⟨hcaller, h⟩ := Option.ite_none_right_eq_some.1 hs
      cases h
      exact Or.inl (.lock (Or.inr hcaller.1) hcaller.2)
  | read =>
      obtain ⟨hcaller, h⟩ := Option.ite_none_right_eq_some.1 hs
      cases h
      exact Or.inl (.read hcaller)
  | unlock =>
      obtain ⟨hcaller, h⟩ := Option.ite_none_right_eq_some.1 hs
      cases h
      exact Or.inl (.unlock hcaller)
  | cacheTid n =>
      obtain ⟨hpc, h⟩ := Option.ite_none_right_eq_some.1 hs
      cases h
      exact Or.inr (.cacheTid n hpc.1 hpc.2)
  | semPost =>
      obtain ⟨hpc, h⟩ := Option.ite_none_right_eq_some.1 hs
      cases h
      exact Or.inr (.semPost hpc)
  | lockPublish =>
      obtain ⟨⟨hpc, hthread, hfree⟩, h⟩ := Option.ite_none_right_eq_some.1 hs
      cases h
      exact Or.inr (.lock _ hpc hfree (Or.inl ⟨hthread, rfl⟩))
  | store =>
      obtain ⟨hpc, h⟩ := Option.ite_none_right_eq_some.1 hs
      cases h
      exact Or.inr (.store hpc)
  | notifyOne =>
      obtain ⟨hpc, h⟩ := Option.ite_none_right_eq_some.1 hs
      cases h
      exact Or.inr (.notifyOne hpc)
  | unlockPublished =>
      obtain ⟨hpc, h⟩ := Option.ite_none_right_eq_some.1 hs
      cases h
      exact Or.inr (.unlock (Or.inl hpc))
  | lockLeave =>
      obtain ⟨⟨hpc, hthread, hfree⟩, h⟩ := Option.ite_none_right_eq_some.1 hs
      cases h
      exact Or.inr (.lock _ hpc hfree (Or.inr ⟨hthread, rfl⟩))
  | clear =>
      obtain ⟨hpc, h⟩ := Option.ite_none_right_eq_some.1 hs
      cases h
      exact Or.inr (.clear hpc)
  | unlockLeft =>
      obtain ⟨hpc, h⟩ := Option.ite_none_right_eq_some.1 hs
      cases h
      exact Or.inr (.unlock (Or.inr hpc))
  | inner a =>
      obtain ⟨ha, h⟩ := Option.ite_none_right_eq_some.1 hs
      obtain ⟨t, ht, rfl⟩ := Option.map_eq_some_iff.1 h
      exact Or.inr (.inner a t ha ht)

/-! ## The steps of the loop thread that are taken whole -/

theorem inner_frame [DecidableEq τ] {s : StartLoop τ F} {a : EventLoopThread.Action τ F}
    {t : EventLoopThread τ F} (ha : s.admits a = true) (hs : s.thread.step a = some t) :
    t.loopSet = s.thread.loopSet ∧ t.holders = s.thread.holders ∧
      (t.pc = s.thread.pc ∨ s.threadPc = .running ∧
        (s.thread.pc, t.pc) ∈ [(EventLoopThread.Pc.constructing, .initializing),
          (.published, .looping), (.looping, .returned)]) := by
  cases a with
  | start | publish | unpublish => cases ha
  | obtain _ => cases ha
  | construct =>
      simp only [EventLoopThread.step] at hs
      split at hs <;> cases hs
      rename_i hpc
      exact ⟨rfl, rfl, Or.inr ⟨by simpa [admits] using ha, by simp [hpc]⟩⟩
  | loop a =>
      have hrunning : s.threadPc = .running := by simpa [admits] using ha
      simp only [EventLoopThread.step, EventLoopThread.loopStep] at hs
      split at hs
      · rename_i hpc
        obtain ⟨l, _, rfl⟩ := Option.map_eq_some_iff.1 hs
        exact ⟨rfl, rfl, Or.inr ⟨hrunning, by simp [hpc]⟩⟩
      · cases hs
      · rename_i hpc
        obtain ⟨l, _, rfl⟩ := Option.map_eq_some_iff.1 hs
        refine ⟨rfl, rfl, ?_⟩
        cases hquit : s.thread.sys.loop.quit with
        | true => exact Or.inr ⟨hrunning, by simp [hpc]⟩
        | false => exact Or.inl (by simp [hpc])
      · obtain ⟨l, _, rfl⟩ := Option.map_eq_some_iff.1 hs
        exact ⟨rfl, rfl, Or.inl rfl⟩
      · cases hs
  | ownQueue _ | ownQuit | emplace _ _ | quit _ | wakeup _ =>
      simp only [EventLoopThread.step] at hs
      split at hs <;> try contradiction
      obtain ⟨sys, _, rfl⟩ := Option.map_eq_some_iff.1 hs
      exact ⟨rfl, rfl, Or.inl rfl⟩
  | dtorTest | dtorQuit | dtorWakeup | dtorJoin =>
      simp only [EventLoopThread.step] at hs
      split at hs <;> cases hs
      exact ⟨rfl, rfl, Or.inl rfl⟩

/-! ## The lock, the pointer and the semaphore -/

def ThreadPc.locks : ThreadPc → Bool
  | .publishing | .notifying | .notified | .leaving | .cleared => true
  | .notCreated | .created | .tidCached | .running => false

def CallerPc.locks : CallerPc → Bool
  | .testing | .passed | .unlocking => true
  | .notCalled | .semWaiting | .locking | .waiting | .woken | .returned => false

def ThreadPc.early : ThreadPc → Bool
  | .notCreated | .created => true
  | _ => false

def ThreadPc.beforePost : ThreadPc → Bool
  | .notCreated | .created | .tidCached => true
  | _ => false

/-- `loop_` is set from the store in `ThreadFunc` to the clearing of it. -/
def published : EventLoopThread.Pc → Bool
  | .published | .looping | .returned => true
  | .notStarted | .constructing | .initializing | .finished => false

/-- Where `ThreadFunc` is at each position of the thread. -/
def pcsAt : ThreadPc → EventLoopThread.Pc → Bool
  | .notCreated, pc => pc = .notStarted
  | .created, pc | .tidCached, pc => pc = .constructing
  | .running, pc => pc ≠ .notStarted
  | .publishing, pc => pc = .initializing
  | .notifying, pc | .notified, pc => pc = .published
  | .leaving, pc => pc = .returned
  | .cleared, pc => pc = .finished

structure Inv (me : τ) (s : StartLoop τ F) : Prop where
  mutex : s.mutex =
    if s.caller.locks then some .caller else if s.threadPc.locks then some .loopThread else none
  exclusive : s.caller.locks = true → s.threadPc.locks = false
  pcs : pcsAt s.threadPc s.thread.pc = true
  pointer : s.thread.loopSet = published s.thread.pc
  created : s.caller = .notCalled ↔ s.threadPc = .notCreated
  sem : s.sem = if s.caller = .semWaiting ∧ s.threadPc.beforePost = false then 1 else 0
  posted : s.threadPc.beforePost = true → s.caller = .notCalled ∨ s.caller = .semWaiting
  tid : s.threadPc.early = false → s.tid ≠ 0
  passed : s.caller = .passed ∨ s.caller = .unlocking → s.thread.loopSet = true
  loop : s.caller = .unlocking ∨ s.caller = .returned →
    s.loop = true ∧ s.thread.holders me = true ∧ s.thread.loopMade = true
  notified : s.caller = .waiting → s.thread.loopSet = true → s.threadPc = .notifying

theorem Inv.new {me : τ} : Inv me (new : StartLoop τ F) := by
  constructor <;> simp [StartLoop.new, EventLoopThread.new, CallerPc.locks, ThreadPc.locks,
    ThreadPc.early, pcsAt, published]

variable {me : τ} {s s' : StartLoop τ F}

theorem Inv.late (h : Inv me s) (hcalled : s.caller ≠ .notCalled)
    (hwait : s.caller ≠ .semWaiting) :
    s.threadPc.beforePost = false ∧ s.sem = 0 := by
  constructor
  · cases hpost : s.threadPc.beforePost with
    | false => rfl
    | true => simpa [hcalled, hwait] using h.posted hpost
  · rw [h.sem, if_neg (fun hboth => hwait hboth.1)]

theorem Inv.free (h : Inv me s) (hmutex : s.mutex = none) :
    s.caller.locks = false ∧ s.threadPc.locks = false := by
  have hm := h.mutex
  rw [hmutex] at hm
  cases hc : s.caller.locks <;> cases ht : s.threadPc.locks <;> simp [hc, ht] at hm ⊢

theorem Inv.threadHolds (h : Inv me s) (hlocks : s.threadPc.locks = true) :
    s.caller.locks = false := by
  cases hc : s.caller.locks with
  | false => rfl
  | true =>
      rw [h.exclusive hc] at hlocks
      cases hlocks

theorem Inv.callerStep (h : Inv me s) {c : CallerPc} {m : Option Holder} {k : Nat}
    {l : Bool} {holders : τ → Bool} (hposted : s.threadPc.beforePost = false) (hk : k = 0)
    (hc : c ≠ .notCalled ∧ c ≠ .semWaiting)
    (hmutex : m =
      if c.locks then some .caller else if s.threadPc.locks then some .loopThread else none)
    (hexclusive : c.locks = true → s.threadPc.locks = false)
    (hpassed : c = .passed ∨ c = .unlocking → s.thread.loopSet = true)
    (hloop : c = .unlocking ∨ c = .returned →
      l = true ∧ holders me = true ∧ s.thread.loopMade = true)
    (hnotified : c = .waiting → s.thread.loopSet = true → s.threadPc = .notifying) :
    Inv me { s with
      caller := c
      mutex := m
      sem := k
      loop := l
      thread := { s.thread with holders := holders } } where
  mutex := hmutex
  exclusive := hexclusive
  pcs := h.pcs
  pointer := h.pointer
  created := by
    refine ⟨fun hcalled => absurd hcalled hc.1, ?_⟩
    intro (hnone : s.threadPc = .notCreated)
    rw [hnone] at hposted
    cases hposted
  sem := hk.trans (if_neg (fun hboth => hc.2 hboth.1)).symm
  posted := by
    intro (hbefore : s.threadPc.beforePost = true)
    rw [hposted] at hbefore
    cases hbefore
  tid := h.tid
  passed := hpassed
  loop := hloop
  notified := hnotified

/-- The new thread moves on and `StartLoop`, already called, stays where it is. -/
theorem Inv.threadStep (h : Inv me s) {p : ThreadPc} {m : Option Holder} {k n : Nat}
    {pc : EventLoopThread.Pc} {set : Bool} (hp : s.threadPc ≠ .notCreated ∧ p ≠ .notCreated)
    (hmutex : m =
      if s.caller.locks then some .caller else if p.locks then some .loopThread else none)
    (hexclusive : s.caller.locks = true → p.locks = false)
    (hpcs : pcsAt p pc = true) (hpointer : set = published pc)
    (hsem : k = if s.caller = .semWaiting ∧ p.beforePost = false then 1 else 0)
    (hposted : p.beforePost = true → s.threadPc.beforePost = true)
    (htid : p.early = false → n ≠ 0)
    (hpassed : s.caller.locks = true → set = s.thread.loopSet)
    (hmade : s.thread.loopMade = true →
      ({ s.thread with pc := pc } : EventLoopThread τ F).loopMade = true)
    (hnotified : s.caller = .waiting → set = true → p = .notifying) :
    Inv me { s with
      threadPc := p
      mutex := m
      sem := k
      tid := n
      thread := { s.thread with pc := pc, loopSet := set } } where
  mutex := hmutex
  exclusive := hexclusive
  pcs := hpcs
  pointer := hpointer
  created := by
    constructor
    · intro hcalled
      exact absurd (h.created.1 hcalled) hp.1
    · intro hnone
      exact absurd hnone hp.2
  sem := hsem
  posted := fun hbefore => h.posted (hposted hbefore)
  tid := htid
  passed := by
    intro (hc : s.caller = .passed ∨ s.caller = .unlocking)
    have hlocks : s.caller.locks = true := by rcases hc with hc | hc <;> rw [hc] <;> rfl
    show set = true
    rw [hpassed hlocks]
    exact h.passed hc
  loop := by
    intro hc
    obtain ⟨hloop, hholds, hm⟩ := h.loop hc
    exact ⟨hloop, hholds, hmade hm⟩
  notified := hnotified

/-- Behind `sem_post` the new thread takes the lock, moves on with it or gives it back. -/
theorem Inv.lateStep (h : Inv me s) {p : ThreadPc} {m : Option Holder}
    {pc : EventLoopThread.Pc} {set : Bool} (hcaller : s.caller.locks = false)
    (hold : s.threadPc.beforePost = false) (hnew : p.beforePost = false)
    (hmutex : m = if p.locks then some .loopThread else none)
    (hpcs : pcsAt p pc = true) (hpointer : set = published pc)
    (hmade : s.thread.loopMade = true →
      ({ s.thread with pc := pc } : EventLoopThread τ F).loopMade = true)
    (hnotified : s.caller = .waiting → set = true → p = .notifying) :
    Inv me { s with
      threadPc := p
      mutex := m
      thread := { s.thread with pc := pc, loopSet := set } } := by
  have hearly : ∀ q : ThreadPc, q.beforePost = false → q.early = false ∧ q ≠ .notCreated := by
    intro q hq
    cases q <;> first | exact ⟨rfl, by simp⟩ | cases hq
  have hsem := h.sem
  rw [hold] at hsem
  exact h.threadStep ⟨(hearly _ hold).2, (hearly _ hnew).2⟩ (by rw [hcaller]; exact hmutex)
    (fun hlocks => absurd hlocks (by simp [hcaller])) hpcs hpointer (by rw [hnew]; exact hsem)
    (fun hbefore => absurd hbefore (by simp [hnew])) (fun _ => h.tid (hearly _ hold).1)
    (fun hlocks => absurd hlocks (by simp [hcaller])) hmade hnotified

variable [DecidableEq τ]

theorem Inv.inner {a : EventLoopThread.Action τ F} {t : EventLoopThread τ F} (h : Inv me s)
    (ha : s.admits a = true) (hs : s.thread.step a = some t) : Inv me { s with thread := t } := by
  obtain ⟨hset, hholders, hpc⟩ := inner_frame ha hs
  have hmade := (EventLoopThread.step_made hs).2.1
  have hpub : published t.pc = published s.thread.pc ∧ pcsAt s.threadPc t.pc = true := by
    have hpcs := h.pcs
    rcases hpc with hsame | ⟨hrunning, hmem⟩
    · rw [hsame]
      exact ⟨rfl, hpcs⟩
    · simp only [List.mem_cons, Prod.mk.injEq, List.not_mem_nil, or_false] at hmem
      rcases hmem with ⟨hold, hnew⟩ | ⟨hold, hnew⟩ | ⟨hold, hnew⟩ <;>
        simp [hold, hnew, hrunning, published, pcsAt]
  constructor
  · exact h.mutex
  · exact h.exclusive
  · exact hpub.2
  · show t.loopSet = published t.pc
    rw [hset, hpub.1, h.pointer]
  · exact h.created
  · exact h.sem
  · exact h.posted
  · exact h.tid
  · show _ → t.loopSet = true
    rw [hset]
    exact h.passed
  · intro hcaller
    obtain ⟨hloop, hholds, hm⟩ := h.loop hcaller
    refine ⟨hloop, ?_, ?_⟩
    · show t.holders me = true
      rw [hholders, hholds]
    · show t.loopMade = true
      rw [hmade, hm, Bool.true_or]
  · show _ → t.loopSet = true → _
    rw [hset]
    exact h.notified

omit [DecidableEq τ] in
theorem Inv.notifyOne (h : Inv me s) (hpc : s.threadPc = .notifying) :
    Inv me { s with
      threadPc := .notified
      caller := if s.caller = .waiting then .woken else s.caller } := by
  have hwoken : ∀ t : StartLoop τ F, Inv me t → t.threadPc = .notifying →
      t.caller ≠ .waiting → Inv me { t with threadPc := .notified } := by
    intro t ht htpc hwait
    have hcaller := ht.threadHolds (by rw [htpc]; rfl)
    have hmutex := ht.mutex
    have hpcs := ht.pcs
    rw [htpc, hcaller] at hmutex
    rw [htpc] at hpcs
    exact ht.lateStep hcaller (by rw [htpc]; rfl) rfl hmutex hpcs ht.pointer id
      (fun hyes => absurd hyes hwait)
  by_cases hwait : s.caller = .waiting
  · rw [if_pos hwait]
    obtain ⟨hposted, hsem⟩ := h.late (by simp [hwait]) (by simp [hwait])
    have hmutex := h.mutex
    rw [hwait] at hmutex
    have hawake : Inv me { s with caller := .woken } :=
      h.callerStep hposted hsem (by simp) hmutex (by simp [CallerPc.locks]) (by simp) (by simp)
        (by simp)
    exact hwoken _ hawake hpc (by simp)
  · rw [if_neg hwait]
    exact hwoken s h hpc hwait

omit [DecidableEq τ] in
theorem Inv.create (h : Inv me s) (hcaller : s.caller = .notCalled) :
    Inv me { s with
      caller := .semWaiting
      threadPc := .created
      thread := { s.thread with pc := .constructing } } := by
  obtain ⟨hmutex, _, hpcs, hpointer, hcreated, hsem, _, _, _, _, _⟩ := h
  have hnone := hcreated.1 hcaller
  rw [hnone] at hmutex hpcs
  constructor <;>
    simp_all [CallerPc.locks, ThreadPc.locks, ThreadPc.early, ThreadPc.beforePost, pcsAt,
      published]

omit [DecidableEq τ] in
theorem Inv.semWait (h : Inv me s) (hcaller : s.caller = .semWaiting) (hpos : 0 < s.sem) :
    Inv me { s with caller := .locking, sem := s.sem - 1 } := by
  have hsem := h.sem
  have hmutex := h.mutex
  rw [hcaller] at hmutex
  have hposted : s.threadPc.beforePost = false := by
    by_contra hbefore
    rw [if_neg (fun hboth => hbefore hboth.2)] at hsem
    omega
  rw [if_pos ⟨hcaller, hposted⟩] at hsem
  exact h.callerStep hposted (by rw [hsem]) (by simp) hmutex (by simp [CallerPc.locks])
    (by simp) (by simp) (by simp)

omit [DecidableEq τ] in
theorem Inv.made (h : Inv me s) (hset : s.thread.loopSet = true) :
    s.thread.alive = true ∧ s.thread.loopMade = true := by
  have hpub := h.pointer
  rw [hset] at hpub
  rw [EventLoopThread.alive, EventLoopThread.loopMade]
  cases hpc : s.thread.pc <;> rw [hpc] at hpub <;> first | exact ⟨rfl, rfl⟩ | cases hpub

theorem Inv.callerMove (h : Inv me s) (hs : CallerMove me s s') : Inv me s' := by
  cases hs with
  | create hcaller => exact h.create hcaller
  | semWait hcaller hpos => exact h.semWait hcaller hpos
  | lock hcaller hfree =>
      have hpast : s.caller ≠ .notCalled ∧ s.caller ≠ .semWaiting := by
        rcases hcaller with hcaller | hcaller <;> simp [hcaller]
      obtain ⟨hposted, hsem⟩ := h.late hpast.1 hpast.2
      exact h.callerStep hposted hsem (by simp) rfl (fun _ => (h.free hfree).2) (by simp)
        (by simp) (by simp)
  | pass hcaller hset =>
      obtain ⟨hposted, hsem⟩ := h.late (by simp [hcaller]) (by simp [hcaller])
      have hmutex := h.mutex
      rw [hcaller] at hmutex
      exact h.callerStep hposted hsem (by simp) hmutex
        (fun _ => h.exclusive (by rw [hcaller]; rfl)) (fun _ => hset) (by simp) (by simp)
  | sleep hcaller hset =>
      obtain ⟨hposted, hsem⟩ := h.late (by simp [hcaller]) (by simp [hcaller])
      have hlocks : s.threadPc.locks = false := h.exclusive (by rw [hcaller]; rfl)
      exact h.callerStep hposted hsem (by simp) (by simp [CallerPc.locks, hlocks])
        (by simp [CallerPc.locks]) (by simp) (by simp) (by simp [hset])
  | wake hcaller =>
      obtain ⟨hposted, hsem⟩ := h.late (by simp [hcaller]) (by simp [hcaller])
      have hmutex := h.mutex
      rw [hcaller] at hmutex
      exact h.callerStep hposted hsem (by simp) hmutex (by simp [CallerPc.locks])
        (by simp) (by simp) (by simp)
  | read hcaller =>
      obtain ⟨hposted, hsem⟩ := h.late (by simp [hcaller]) (by simp [hcaller])
      have hset := h.passed (Or.inl hcaller)
      have hmutex := h.mutex
      rw [hcaller] at hmutex
      exact h.callerStep hposted hsem (by simp) hmutex
        (fun _ => h.exclusive (by rw [hcaller]; rfl)) (fun _ => hset)
        (fun _ => ⟨hset, by simp, (h.made hset).2⟩) (by simp)
  | unlock hcaller =>
      obtain ⟨hposted, hsem⟩ := h.late (by simp [hcaller]) (by simp [hcaller])
      have hlocks : s.threadPc.locks = false := h.exclusive (by rw [hcaller]; rfl)
      exact h.callerStep hposted hsem (by simp) (by simp [CallerPc.locks, hlocks])
        (by simp [CallerPc.locks]) (by simp) (fun _ => h.loop (Or.inl hcaller)) (by simp)

omit [DecidableEq τ] in
theorem Inv.cacheTid (h : Inv me s) (hpc : s.threadPc = .created) {n : Nat} (hn : n ≠ 0) :
    Inv me { s with threadPc := .tidCached, tid := n } := by
  have hmutex := h.mutex
  have hpcs := h.pcs
  have hsem := h.sem
  rw [hpc] at hmutex hpcs hsem
  exact h.threadStep (by simp [hpc]) hmutex (fun _ => rfl) hpcs h.pointer hsem
    (by simp [hpc, ThreadPc.beforePost]) (fun _ => hn) (fun _ => rfl) id
    (fun hwait hset => by simpa [hpc] using h.notified hwait hset)

omit [DecidableEq τ] in
theorem Inv.semPost (h : Inv me s) (hpc : s.threadPc = .tidCached) :
    Inv me { s with threadPc := .running, sem := s.sem + 1 } := by
  have hmutex := h.mutex
  have hpcs := h.pcs
  have hsem := h.sem
  have hwaits : s.caller = .semWaiting := by
    have hposted := h.posted (by rw [hpc]; rfl)
    simpa [h.created, hpc] using hposted
  rw [hpc] at hmutex hpcs hsem
  have hconstructing : s.thread.pc = .constructing := by simpa [pcsAt] using hpcs
  refine h.threadStep (by simp [hpc]) hmutex (fun _ => rfl) (by simp [pcsAt, hconstructing])
    h.pointer ?_ (by simp [ThreadPc.beforePost]) (fun _ => h.tid (by rw [hpc]; rfl))
    (fun _ => rfl) id (by simp [hwaits])
  simpa [hwaits, ThreadPc.beforePost] using hsem

omit [DecidableEq τ] in
theorem Inv.lockThread (h : Inv me s) {p : ThreadPc} (hpc : s.threadPc = .running)
    (hfree : s.mutex = none) (hp : s.thread.pc = .initializing ∧ p = .publishing ∨
      s.thread.pc = .returned ∧ p = .leaving) :
    Inv me { s with threadPc := p, mutex := some .loopThread } := by
  have hcaller := (h.free hfree).1
  have hawake : s.caller = .waiting → s.thread.loopSet = true → p = .notifying := by
    intro hwait hset
    simpa [hpc] using h.notified hwait hset
  rcases hp with ⟨hthread, rfl⟩ | ⟨hthread, rfl⟩
  · exact h.lateStep hcaller (by rw [hpc]; rfl) rfl rfl (by simp [pcsAt, hthread]) h.pointer id
      hawake
  · exact h.lateStep hcaller (by rw [hpc]; rfl) rfl rfl (by simp [pcsAt, hthread]) h.pointer id
      hawake

omit [DecidableEq τ] in
theorem Inv.unlockThread (h : Inv me s)
    (hpc : s.threadPc = .notified ∨ s.threadPc = .cleared) :
    Inv me { s with threadPc := .running, mutex := none } := by
  have hlate : s.threadPc.locks = true ∧ s.threadPc.beforePost = false ∧
      s.threadPc ≠ .notifying := by
    rcases hpc with hpc | hpc <;> simp [hpc, ThreadPc.locks, ThreadPc.beforePost]
  have hpcs := h.pcs
  have hstarted : s.thread.pc ≠ .notStarted := by
    rcases hpc with hpc | hpc <;> rw [hpc] at hpcs <;> simp [pcsAt] at hpcs <;> simp [hpcs]
  exact h.lateStep (h.threadHolds hlate.1) hlate.2.1 rfl rfl (by simpa [pcsAt] using hstarted)
    h.pointer id (fun hwait hset => absurd (h.notified hwait hset) hlate.2.2)

theorem Inv.threadMove (h : Inv me s) (hs : ThreadMove s s') : Inv me s' := by
  cases hs with
  | cacheTid n hpc hn => exact h.cacheTid hpc hn
  | semPost hpc => exact h.semPost hpc
  | lock p hpc hfree hp => exact h.lockThread hpc hfree hp
  | store hpc =>
      have hcaller := h.threadHolds (by rw [hpc]; rfl)
      have hmutex := h.mutex
      rw [hpc, hcaller] at hmutex
      exact h.lateStep hcaller (by rw [hpc]; rfl) rfl hmutex rfl rfl (fun _ => rfl)
        (fun _ _ => rfl)
  | notifyOne hpc => exact h.notifyOne hpc
  | clear hpc =>
      have hcaller := h.threadHolds (by rw [hpc]; rfl)
      have hmutex := h.mutex
      rw [hpc, hcaller] at hmutex
      exact h.lateStep hcaller (by rw [hpc]; rfl) rfl hmutex rfl rfl (fun _ => rfl) (by simp)
  | unlock hpc => exact h.unlockThread hpc
  | inner a t ha ht => exact h.inner ha ht

theorem Inv.step {a : Action τ F} (h : Inv me s) (hs : s.step me a = some s') : Inv me s' := by
  rcases step_moves hs with hcaller | hthread
  · exact h.callerMove hcaller
  · exact h.threadMove hthread

theorem inv_of_reach {guard : StartLoop τ F → Action τ F → Prop}
    (h : (machine F me).Reach guard s) : Inv me s := by
  apply h.invariant
  · intro s hs
    cases hs
    exact Inv.new
  · intro s a s' hI _ hs
    exact hI.step hs

/-! ## Seen from the loop thread -/

/-- Each step is one of `EventLoopThread`, or is not seen there. The read of the pointer
is `obtain`: the test before it stands because the lock has been held since. -/
theorem Inv.simulates {a : Action τ F} (h : Inv me s) (hs : s.step me a = some s') :
    s'.thread = s.thread ∨
      ∃ b, (EventLoopThread.machine τ F).step s.thread b = some s'.thread := by
  have hpcs := h.pcs
  rcases step_moves hs with hcaller | hthread
  · cases hcaller with
    | create hpc =>
        rw [h.created.1 hpc] at hpcs
        have hstart : s.thread.pc = .notStarted := by simpa [pcsAt] using hpcs
        exact Or.inr ⟨.start, if_pos hstart⟩
    | read hpc => exact Or.inr ⟨.obtain me, if_pos (h.passed (Or.inl hpc))⟩
    | semWait | lock | pass | sleep | wake | unlock => exact Or.inl rfl
  · cases hthread with
    | store hpc =>
        rw [hpc] at hpcs
        have hinit : s.thread.pc = .initializing := by simpa [pcsAt] using hpcs
        exact Or.inr ⟨.publish, if_pos hinit⟩
    | clear hpc =>
        rw [hpc] at hpcs
        have hreturned : s.thread.pc = .returned := by simpa [pcsAt] using hpcs
        exact Or.inr ⟨.unpublish, if_pos hreturned⟩
    | inner a t _ ht => exact Or.inr ⟨a, ht⟩
    | cacheTid | semPost | lock | notifyOne | unlock => exact Or.inl rfl

omit [DecidableEq τ] in
theorem Inv.tid_ne (h : Inv me s) (hback : s.caller = .unlocking ∨ s.caller = .returned) :
    s.tid ≠ 0 := by
  have hpast : s.caller ≠ .notCalled ∧ s.caller ≠ .semWaiting := by
    rcases hback with hback | hback <;> simp [hback]
  have hposted := (h.late hpast.1 hpast.2).1
  apply h.tid
  cases hpc : s.threadPc <;> rw [hpc] at hposted <;> first | rfl | cases hposted

omit [DecidableEq τ] in
/-- A loop that was made exists until `ThreadFunc` clears the pointer. -/
theorem alive_or_finished {t : EventLoopThread τ F} (hmade : t.loopMade = true) :
    t.alive = true ∨ t.pc = .finished := by
  rw [EventLoopThread.loopMade] at hmade
  rw [EventLoopThread.alive]
  cases hpc : t.pc <;> rw [hpc] at hmade <;> simp at hmade ⊢

/-- In every interleaving, spurious wakeups included, the loop thread does what
`EventLoopThread` does. `StartLoop` has read the pointer of a loop that exists, whose init
callback has been called, with `tid_` set; it returns that pointer, and the loop is gone by
then only if `ThreadFunc` has come to its end. A caller that sleeps although the pointer is
set is about to be notified. -/
theorem startLoop_refines (me : τ) (s : StartLoop τ F)
    (h : (machine F me).Reach (fun _ _ => True) s) :
    (EventLoopThread.machine τ F).Reach (fun _ _ => True) s.thread ∧
    (s.caller = .unlocking →
      s.loop = true ∧ s.thread.holders me = true ∧ s.thread.alive = true ∧
        s.thread.loopMade = true ∧ s.tid ≠ 0) ∧
    (s.caller = .returned →
      s.loop = true ∧ s.thread.holders me = true ∧
        (s.thread.alive = true ∨ s.thread.pc = .finished) ∧
        s.thread.loopMade = true ∧ s.tid ≠ 0) ∧
    (s.caller = .waiting → s.thread.loopSet = true → s.threadPc = .notifying) := by
  have hI := inv_of_reach h
  refine ⟨?_, ?_, ?_, hI.notified⟩
  · apply Machine.Reach.simulates StartLoop.thread (fun _ => inv_of_reach) _ _ h
    · intro s hs
      cases hs
      rfl
    · intro s a s' hInv _ hs
      rcases hInv.simulates hs with hsame | ⟨b, hb⟩
      · exact Or.inl hsame
      · exact Or.inr ⟨b, trivial, hb⟩
  · intro hread
    obtain ⟨hloop, hholds, hmade⟩ := hI.loop (Or.inl hread)
    have halive := (hI.made (hI.passed (Or.inr hread))).1
    exact ⟨hloop, hholds, halive, hmade, hI.tid_ne (Or.inl hread)⟩
  · intro hreturned
    obtain ⟨hloop, hholds, hmade⟩ := hI.loop (Or.inr hreturned)
    exact ⟨hloop, hholds, alive_or_finished hmade, hmade, hI.tid_ne (Or.inr hreturned)⟩

/-- The caller sleeps, wakes for nothing, sleeps again, is notified, reads the pointer and
comes back. -/
theorem startLoop_refines_spurious :
    ∃ s s' : StartLoop Nat Unit, (machine Unit 3).step s .unlock = some s' ∧
      (s.caller = .unlocking ∧ s.loop = true ∧ s.thread.alive = true ∧ s.tid ≠ 0) ∧
      s'.caller = .returned ∧ s'.loop = true ∧ s'.thread.holders 3 = true ∧ s'.tid ≠ 0 := by
  obtain ⟨s, hs, htest⟩ := Machine.Reach.of_test (machine Unit 3) (fun _ _ => True)
    (fun s => s.caller = .unlocking)
    [.create, .cacheTid 41, .semPost, .semWait, .lock, .test, .spuriousWakeup, .relock, .test,
      .inner .construct, .lockPublish, .store, .notifyOne, .unlockPublished, .relock, .test,
      .read] (.start rfl) (by decide +kernel)
  have hread : s.caller = .unlocking := by simpa using htest
  have hstep : (machine Unit 3).step s .unlock =
      some { s with caller := .returned, mutex := none } := if_pos hread
  obtain ⟨hset, _, halive, _, htid⟩ := (startLoop_refines 3 s hs).2.1 hread
  obtain ⟨hloop, hholds, _, _, hset'⟩ :=
    (startLoop_refines 3 _ (hs.step trivial hstep)).2.2.1 rfl
  exact ⟨s, _, hstep, ⟨hread, hset, halive, htid⟩, rfl, hloop, hholds, hset'⟩

/-! ## When the caller comes back -/

/-- `ThreadFunc` has the lock for clearing `loop_`, or has cleared it. -/
def leftLoop (s : StartLoop τ F) : Prop := s.threadPc = .leaving ∨ s.thread.pc = .finished

/-- The two parties go on by themselves: nothing else wakes the caller, and the loop
thread only constructs its loop. -/
def GoesOn (_ : StartLoop τ F) (a : Action τ F) : Prop :=
  a ≠ .spuriousWakeup ∧ ∀ b, a = .inner b → b = .construct

/-- Steps of the new thread up to the end of the first critical section. -/
def threadRank (s : StartLoop τ F) : Nat :=
  match s.threadPc with
  | .notCreated => 8
  | .created => 7
  | .tidCached => 6
  | .running =>
      match s.thread.pc with
      | .constructing => 5
      | .initializing => 4
      | _ => 0
  | .publishing => 3
  | .notifying => 2
  | .notified => 1
  | .leaving | .cleared => 0

def callerRank : CallerPc → Nat
  | .notCalled => 8
  | .semWaiting => 7
  | .locking | .woken => 6
  | .testing => 5
  | .waiting => 4
  | .passed => 3
  | .unlocking => 2
  | .returned => 1

/-- A notification costs the caller another round, so the thread's rank weighs more. -/
def rank (s : StartLoop τ F) : Nat := 10 * s.threadRank + callerRank s.caller

/-- Without the lock the caller waits for the thread to get on, or goes on itself. -/
theorem Inv.threadGoesOn (h : Inv me s) (hleft : ¬ s.leftLoop) (hcaller : s.caller.locks = false)
    (hrank : s.threadRank ≠ 0) :
    ∃ a s', GoesOn s a ∧ s.step me a = some s' ∧ ¬ s'.leftLoop ∧ s'.rank < s.rank := by
  have hmutex := h.mutex
  have hpcs := h.pcs
  cases hpc : s.threadPc with
  | notCreated =>
      have hnone : s.caller = .notCalled := h.created.2 hpc
      exact ⟨.create, _, by simp [GoesOn], if_pos hnone, by simp [leftLoop],
        by simp [rank, threadRank, callerRank, hpc, hnone]⟩
  | created =>
      rw [hpc] at hpcs
      have hc : s.thread.pc = .constructing := by simpa [pcsAt] using hpcs
      exact ⟨.cacheTid 1, _, by simp [GoesOn], if_pos ⟨hpc, by decide⟩,
        by simp [leftLoop, hc], by simp [rank, threadRank, hpc]⟩
  | tidCached =>
      rw [hpc] at hpcs
      have hc : s.thread.pc = .constructing := by simpa [pcsAt] using hpcs
      exact ⟨.semPost, _, by simp [GoesOn], if_pos hpc, by simp [leftLoop, hc],
        by simp [rank, threadRank, hpc, hc]⟩
  | running =>
      rw [hpc, hcaller] at hmutex
      have hfree : s.mutex = none := hmutex
      cases hp : s.thread.pc with
      | constructing =>
          refine ⟨.inner .construct, { s with thread := { s.thread with pc := .initializing } },
            by simp [GoesOn], ?_, by simp [leftLoop, hpc], by simp [rank, threadRank, hpc, hp]⟩
          simp [StartLoop.step, admits, hpc, EventLoopThread.step, hp]
      | initializing =>
          exact ⟨.lockPublish, _, by simp [GoesOn], if_pos ⟨hpc, hp, hfree⟩,
            by simp [leftLoop, hp], by simp [rank, threadRank, hpc, hp]⟩
      | notStarted | published | looping | returned | finished =>
          simp [threadRank, hpc, hp] at hrank
  | publishing =>
      exact ⟨.store, _, by simp [GoesOn], if_pos hpc, by simp [leftLoop],
        by simp [rank, threadRank, hpc]⟩
  | notifying =>
      rw [hpc] at hpcs
      have hp : s.thread.pc = .published := by simpa [pcsAt] using hpcs
      refine ⟨.notifyOne, _, by simp [GoesOn], if_pos hpc, by simp [leftLoop, hp], ?_⟩
      by_cases hwait : s.caller = .waiting
      · simp [rank, threadRank, callerRank, hpc, hwait]
      · simp [rank, threadRank, hpc, hwait]
  | notified =>
      rw [hpc] at hpcs
      have hp : s.thread.pc = .published := by simpa [pcsAt] using hpcs
      exact ⟨.unlockPublished, _, by simp [GoesOn], if_pos hpc, by simp [leftLoop, hp],
        by simp [rank, threadRank, hpc, hp]⟩
  | leaving => exact absurd (Or.inl hpc) hleft
  | cleared => simp [threadRank, hpc] at hrank

omit [DecidableEq τ] in
theorem Inv.behind (h : Inv me s) (hleft : ¬ s.leftLoop) (hrank : s.threadRank = 0) :
    s.threadPc = .running ∧ s.thread.loopSet = true := by
  have hpcs := h.pcs
  rw [h.pointer]
  cases hpc : s.threadPc with
  | running =>
      rw [hpc] at hpcs
      cases hp : s.thread.pc with
      | published | looping | returned => exact ⟨rfl, rfl⟩
      | notStarted => simp [pcsAt, hp] at hpcs
      | constructing | initializing => simp [threadRank, hpc, hp] at hrank
      | finished => exact absurd (Or.inr hp) hleft
  | leaving => exact absurd (Or.inl hpc) hleft
  | cleared =>
      rw [hpc] at hpcs
      exact absurd (Or.inr (by simpa [pcsAt] using hpcs)) hleft
  | notCreated | created | tidCached | publishing | notifying | notified =>
      simp [threadRank, hpc] at hrank

/-- With the lock, or behind the publication, `StartLoop` gets on. -/
theorem Inv.callerGoesOn (h : Inv me s) (hleft : ¬ s.leftLoop) (hback : s.caller ≠ .returned)
    (hgo : s.caller.locks = true ∨ s.threadRank = 0) :
    ∃ a s', GoesOn s a ∧ s.step me a = some s' ∧ ¬ s'.leftLoop ∧ s'.rank < s.rank := by
  have hmutex := h.mutex
  cases hc : s.caller with
  | notCalled =>
      have hnone := h.created.1 hc
      simp [hc, CallerPc.locks, threadRank, hnone] at hgo
  | semWaiting =>
      obtain ⟨hrunning, _⟩ := h.behind hleft (by simpa [hc, CallerPc.locks] using hgo)
      have hsem : 0 < s.sem := by
        rw [h.sem, if_pos ⟨hc, by rw [hrunning]; rfl⟩]
        decide
      exact ⟨.semWait, _, by simp [GoesOn], if_pos ⟨hc, hsem⟩, hleft,
        by simp [rank, threadRank, callerRank, hc]⟩
  | locking =>
      obtain ⟨hrunning, _⟩ := h.behind hleft (by simpa [hc, CallerPc.locks] using hgo)
      rw [hc, hrunning] at hmutex
      exact ⟨.lock, _, by simp [GoesOn], if_pos ⟨hc, hmutex⟩, hleft,
        by simp [rank, threadRank, callerRank, hc]⟩
  | testing =>
      cases hset : s.thread.loopSet with
      | true =>
          exact ⟨.test, _, by simp [GoesOn], (if_pos hc).trans (if_pos hset), hleft,
            by simp [rank, threadRank, callerRank, hc]⟩
      | false =>
          exact ⟨.test, _, by simp [GoesOn], (if_pos hc).trans (if_neg (by simp [hset])), hleft,
            by simp [rank, threadRank, callerRank, hc]⟩
  | waiting =>
      obtain ⟨hrunning, hset⟩ := h.behind hleft (by simpa [hc, CallerPc.locks] using hgo)
      have hnotifying := h.notified hc hset
      rw [hrunning] at hnotifying
      cases hnotifying
  | woken =>
      obtain ⟨hrunning, _⟩ := h.behind hleft (by simpa [hc, CallerPc.locks] using hgo)
      rw [hc, hrunning] at hmutex
      exact ⟨.relock, _, by simp [GoesOn], if_pos ⟨hc, hmutex⟩, hleft,
        by simp [rank, threadRank, callerRank, hc]⟩
  | passed =>
      exact ⟨.read, _, by simp [GoesOn], if_pos hc, hleft,
        by simp [rank, threadRank, callerRank, hc]⟩
  | unlocking =>
      exact ⟨.unlock, _, by simp [GoesOn], if_pos hc, hleft,
        by simp [rank, threadRank, callerRank, hc]⟩
  | returned => exact absurd hc hback

theorem Inv.goesOn (h : Inv me s) (hleft : ¬ s.leftLoop) (hback : s.caller ≠ .returned) :
    ∃ a s', GoesOn s a ∧ s.step me a = some s' ∧ ¬ s'.leftLoop ∧ s'.rank < s.rank := by
  by_cases hgo : s.caller.locks = true ∨ s.threadRank = 0
  · exact h.callerGoesOn hleft hback hgo
  · rw [not_or] at hgo
    exact h.threadGoesOn hleft (by simpa using hgo.1) hgo.2

omit [DecidableEq τ] in
theorem Inv.leftLoop_iff (h : Inv me s) : s.leftLoop ↔
    s.threadPc = .leaving ∨ s.threadPc = .cleared ∨
      s.threadPc = .running ∧ s.thread.pc = .finished := by
  have hpcs := h.pcs
  unfold leftLoop
  cases hpc : s.threadPc <;> rw [hpc] at hpcs <;> simp [pcsAt] at hpcs ⊢ <;> simp [hpcs]

/-- Once `ThreadFunc` clears the pointer, a caller that has not read it never will. -/
theorem Inv.staysAway {a : Action τ F} (h : Inv me s) (hleft : s.leftLoop)
    (hback : s.caller ≠ .returned) (hs : s.step me a = some s') :
    s'.leftLoop ∧ s'.caller ≠ .returned := by
  have hpcs := h.pcs
  have hunread : s.caller ≠ .unlocking := by
    intro hc
    have hset := h.passed (Or.inr hc)
    rw [h.pointer] at hset
    rcases hleft with hpc | hp
    · have hfree := h.exclusive (by rw [hc]; rfl)
      rw [hpc] at hfree
      cases hfree
    · rw [hp] at hset
      cases hset
  rcases step_moves hs with hcaller | hthread
  · cases hcaller with
    | create hc =>
        rw [h.created.1 hc] at hpcs
        have hp : s.thread.pc = .notStarted := by simpa [pcsAt] using hpcs
        simp [leftLoop, h.created.1 hc, hp] at hleft
    | unlock hc => exact absurd hc hunread
    | semWait | lock | pass | sleep | wake | read => exact ⟨hleft, by simp⟩
  · cases hthread with
    | cacheTid n hpc | semPost hpc | store hpc => simp [h.leftLoop_iff, hpc] at hleft
    | notifyOne hpc => simp [h.leftLoop_iff, hpc] at hleft
    | lock p hpc _ hp =>
        rcases hp with ⟨hp, _⟩ | ⟨hp, _⟩ <;> simp [leftLoop, hpc, hp] at hleft
    | clear => exact ⟨Or.inr rfl, hback⟩
    | unlock hpc =>
        rcases hpc with hpc | hpc
        · simp [h.leftLoop_iff, hpc] at hleft
        · rw [hpc] at hpcs
          exact ⟨Or.inr (by simpa [pcsAt] using hpcs), hback⟩
    | inner a t ha ht =>
        refine ⟨?_, hback⟩
        rcases hleft with hpc | hp
        · exact Or.inl hpc
        · rcases (inner_frame ha ht).2.2 with hsame | ⟨_, hmem⟩
          · exact Or.inr (hsame.trans hp)
          · simp [hp] at hmem

/-- `StartLoop` returns, by the steps of the two parties alone, as long as `ThreadFunc` has
not come back from `Loop()` to clear the pointer; a caller that has not read it by then
waits for ever. -/
theorem startLoop_returns_iff (me : τ) (s : StartLoop τ F)
    (h : (machine F me).Reach (fun _ _ => True) s) :
    (¬ s.leftLoop → ∃ s', (machine F me).Follows GoesOn s s' ∧ s'.caller = .returned) ∧
    (s.leftLoop → s.caller ≠ .returned →
      ∀ s', (machine F me).Follows (fun _ _ => True) s s' → s'.caller ≠ .returned) := by
  have hI := inv_of_reach h
  constructor
  · intro hleft
    apply Machine.leads_to (I := fun s => Inv me s ∧ ¬ s.leftLoop) rank _ ⟨hI, hleft⟩
    rintro t ⟨hInv, hstays⟩ hback
    obtain ⟨a, t', hgo, hs, hleft', hrank⟩ := hInv.goesOn hstays hback
    exact ⟨a, t', hgo, hs, ⟨hInv.step hs, hleft'⟩, hrank⟩
  · intro hleft hback s' hf
    have hlast : Inv me s' ∧ s'.leftLoop ∧ s'.caller ≠ .returned := by
      apply hf.invariant (I := fun s => Inv me s ∧ s.leftLoop ∧ s.caller ≠ .returned)
        ⟨hI, hleft, hback⟩
      rintro t a t' ⟨hInv, hl, hb⟩ _ hs
      exact ⟨hInv.step hs, hInv.staysAway hl hb hs⟩
    exact hlast.2.2

/-- From the start the caller comes back; where a timer of the first iteration ends the
loop before the caller has the lock, it does not. -/
theorem startLoop_returns_iff_early_quit :
    (∃ s' : StartLoop Nat Unit, (machine Unit 3).Follows GoesOn .new s' ∧
      s'.caller = .returned) ∧
    ∃ s : StartLoop Nat Unit, s.caller = .locking ∧
      ∀ s', (machine Unit 3).Follows (fun _ _ => True) s s' → s'.caller ≠ .returned := by
  constructor
  · apply (startLoop_returns_iff 3 .new (.start rfl)).1
    simp [leftLoop, new, EventLoopThread.new]
  · obtain ⟨s, hs, htest⟩ := Machine.Reach.of_test (machine Unit 3) (fun _ _ => True)
      (fun s => s.caller = .locking && s.threadPc = .leaving)
      [.create, .cacheTid 41, .semPost, .semWait, .inner .construct, .lockPublish, .store,
        .notifyOne, .unlockPublished, .inner (.loop .enterLoop), .inner (.loop .resetQuit),
        .inner (.loop .testQuit), .inner .ownQuit, .inner (.loop .startPolling),
        .inner (.loop (.pollReturns false)), .inner (.loop .doPendingFunctors),
        .inner (.loop .swapFunctors), .inner (.loop .finishFunctors), .inner (.loop .testQuit),
        .lockLeave] (.start rfl) (by decide +kernel)
    simp only [Bool.and_eq_true, decide_eq_true_eq] at htest
    exact ⟨s, htest.1, (startLoop_returns_iff 3 s hs).2 (Or.inl htest.2) (by simp [htest.1])⟩

end StartLoop

end MyNetLib
