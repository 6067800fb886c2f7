import MyNetLib.Reactor.EventLoopThread

/-! # The pool of loop threads (`src/event_loop_thread_poll.cc`)

`Start` constructs the threads one after the other, each with the init callback,
and waits in `StartLoop` for the loop of each; meanwhile every thread runs its
`ThreadFunc`. `events` are the calls of the init callback and the returns of
`StartLoop`, in the order they happen. The pool's destructor is left out.
-/

namespace MyNetLib

open Library

namespace EventLoopThread

variable {τ F : Type}

/-- `ThreadFunc` has constructed its loop and called the init callback with it. -/
def loopMade (s : EventLoopThread τ F) : Bool :=
  match s.pc with
  | .notStarted | .constructing => false
  | .initializing | .published | .looping | .returned | .finished => true

/-- The step of `ThreadFunc` that calls the init callback. -/
def Action.callsInit : Action τ F → Bool
  | .construct => true
  | _ => false

/-- The steps of the loop thread and of those who hold its loop: neither `StartLoop`
nor the destructor. -/
def Action.isInner : Action τ F → Bool
  | .start | .obtain _ | .dtorTest | .dtorQuit | .dtorWakeup | .dtorJoin => false
  | _ => true

theorem loopStep_made {s s' : EventLoopThread τ F} {a : EventLoop.Label}
    (h : s.loopStep a = some s') : s'.loopMade = s.loopMade ∧ s'.loopSet = s.loopSet := by
  unfold loopStep at h
  split at h
  · rename_i hpc
    obtain ⟨l, hl, rfl⟩ := Option.map_eq_some_iff.1 h
    simp [loopMade, hpc]
  · cases h
  · rename_i hpc
    obtain ⟨l, hl, rfl⟩ := Option.map_eq_some_iff.1 h
    cases hq : s.sys.loop.quit <;> simp [loopMade, hpc]
  · obtain ⟨l, hl, rfl⟩ := Option.map_eq_some_iff.1 h
    exact ⟨rfl, rfl⟩
  · cases h

/-- The callback is called once, when the loop is constructed, and the loop is
published afterwards. -/
theorem step_made [DecidableEq τ] {s s' : EventLoopThread τ F} {a : Action τ F}
    (h : s.step a = some s') :
    (a.callsInit = true → s.loopMade = false) ∧
      s'.loopMade = (s.loopMade || a.callsInit) ∧
      (s'.loopSet = true → s.loopSet = true ∨ s'.loopMade = true) := by
  cases a with
  | loop a =>
      have hmade := loopStep_made h
      simp only [Action.callsInit, hmade]
      simpa using Or.inl
  | start | construct | publish | unpublish =>
      simp only [step] at h
      split at h <;> cases h
      rename_i hpc
      simp [loopMade, Action.callsInit, hpc]
  | obtain _ | dtorTest | dtorQuit | dtorWakeup | dtorJoin =>
      simp only [step] at h
      split at h <;> cases h
      simpa [Action.callsInit, loopMade] using Or.inl
  | ownQueue _ | ownQuit | emplace _ _ | quit _ | wakeup _ =>
      simp only [step] at h
      split at h <;> try contradiction
      obtain ⟨sys, hsys, rfl⟩ := Option.map_eq_some_iff.1 h
      simpa [Action.callsInit, loopMade] using Or.inl

end EventLoopThread

namespace EventLoopThreadPool

/-- A loop: the one the pool is constructed with, or that of a thread. -/
inductive Loop where
  | base
  | sub (i : Nat)
  deriving DecidableEq, Repr

/-- The position of `Start`; `waiting` is inside `StartLoop` of the last thread. -/
inductive Pc where
  | notCalled
  | starting
  | waiting
  | returned
  deriving DecidableEq, Repr

inductive Event where
  | initCallback (loop : Loop)
  | startLoopReturned (i : Nat)
  deriving DecidableEq, Repr

end EventLoopThreadPool

structure EventLoopThreadPool (τ F : Type) where
  pc : EventLoopThreadPool.Pc
  started : Bool
  numThreads : Int
  next : Nat
  threads : List (EventLoopThread τ F)
  loops : List EventLoopThreadPool.Loop
  callback : Bool
  events : List EventLoopThreadPool.Event

namespace EventLoopThreadPool

variable {τ F : Type}

def new : EventLoopThreadPool τ F where
  pc := .notCalled
  started := false
  numThreads := 0
  next := 0
  threads := []
  loops := []
  callback := false
  events := []

/-- None is an access outside `loops_`. -/
def getNextLoop (s : EventLoopThreadPool τ F) : Option (Loop × EventLoopThreadPool τ F) :=
  if s.loops = [] then some (.base, s)
  else
    s.loops[s.next]?.map fun loop =>
      (loop, { s with next := if s.loops.length ≤ s.next + 1 then 0 else s.next + 1 })

def getAllLoops (s : EventLoopThreadPool τ F) : List Loop :=
  if s.loops = [] then [.base] else s.loops

/-- What the call of `GetNextLoop` after `k` others returns. -/
def handsOut (s : EventLoopThreadPool τ F) : Nat → Option Loop
  | 0 => s.getNextLoop.map Prod.fst
  | k + 1 => s.getNextLoop.bind fun r => r.2.handsOut k

inductive Action (τ F : Type) where
  | setThreadNum (n : Int)
  | start (cb : Bool)
  | startThread
  | startLoopReturns
  | finish
  | getNextLoop
  | thread (i : Nat) (a : EventLoopThread.Action τ F)

/-- The owner is the thread `main`; `start cb` is the entry of `Start`, called once.
`startThread` constructs a thread and starts it, `finish` is what follows the loop. -/
def step [DecidableEq τ] (main : τ) (s : EventLoopThreadPool τ F) :
    Action τ F → Option (EventLoopThreadPool τ F)
  | .setThreadNum n => if s.pc = .notCalled then some { s with numThreads := n } else none
  | .start cb =>
      if s.pc = .notCalled then some { s with pc := .starting, started := true, callback := cb }
      else none
  | .startThread =>
      if s.pc = .starting ∧ (s.threads.length : Int) < s.numThreads then
        (EventLoopThread.new.step .start).map fun thread =>
          { s with pc := .waiting, threads := s.threads ++ [thread] }
      else none
  | .startLoopReturns =>
      if s.pc = .waiting then
        s.threads[s.loops.length]?.bind fun thread =>
          (thread.step (.obtain main)).map fun thread =>
            { s with
              pc := .starting
              threads := s.threads.set s.loops.length thread
              loops := s.loops ++ [.sub s.loops.length]
              events := s.events ++ [.startLoopReturned s.loops.length] }
      else none
  | .finish =>
      if s.pc = .starting ∧ ¬ (s.threads.length : Int) < s.numThreads then
        some { s with
          pc := .returned
          events :=
            if s.numThreads = 1 ∧ s.callback = true then s.events ++ [.initCallback .base]
            else s.events }
      else none
  | .getNextLoop => if s.pc = .returned then s.getNextLoop.map Prod.snd else none
  | .thread i a =>
      s.threads[i]?.bind fun thread =>
        if a.isInner then
          (thread.step a).map fun thread =>
            { s with
              threads := s.threads.set i thread
              events :=
                if a.callsInit && s.callback then s.events ++ [.initCallback (.sub i)]
                else s.events }
        else none

def machine (F : Type) [DecidableEq τ] (main : τ) :
    Machine (EventLoopThreadPool τ F) (Action τ F) where
  start s := s = new
  step := step main

/-- The callback was called once with each loop that serves and with no other, and
before `StartLoop` returned the loop. -/
structure Covers (s : EventLoopThreadPool τ F) : Prop where
  once : ∀ loop, s.events.count (.initCallback loop) = if loop ∈ s.getAllLoops then 1 else 0
  serving : ∀ loop, loop ∈ s.getAllLoops ↔ ∃ k, s.handsOut k = some loop
  before : Always (fun before e => ∀ i, e = .startLoopReturned i →
    .initCallback (.sub i) ∈ before) s.events

/-! ## Round robin -/

variable {s s' : EventLoopThreadPool τ F}

theorem getNextLoop_eq (h : s.next < s.loops.length) :
    s.getNextLoop = some (s.loops[s.next], { s with next := (s.next + 1) % s.loops.length }) := by
  have hne : s.loops ≠ [] := List.ne_nil_of_length_pos (by omega)
  rw [getNextLoop, if_neg hne, List.getElem?_eq_getElem h, Option.map_some]
  have hnext : (if s.loops.length ≤ s.next + 1 then 0 else s.next + 1)
      = (s.next + 1) % s.loops.length := by
    split
    · have heq : s.next + 1 = s.loops.length := by omega
      rw [heq, Nat.mod_self]
    · rw [Nat.mod_eq_of_lt (by omega)]
  rw [hnext]

theorem handsOut_eq (h : s.next < s.loops.length) (k : Nat) :
    s.handsOut k = s.loops[(s.next + k) % s.loops.length]? := by
  induction k generalizing s with
  | zero =>
      have hmod : (s.next + 0) % s.loops.length = s.next := Nat.mod_eq_of_lt h
      rw [handsOut, getNextLoop_eq h, hmod]
      exact (List.getElem?_eq_getElem h).symm
  | succ k ih =>
      have hpos : 0 < s.loops.length := by omega
      rw [handsOut, getNextLoop_eq h, Option.bind_some, ih (Nat.mod_lt _ hpos)]
      dsimp only
      rw [Nat.mod_add_mod, Nat.add_assoc, Nat.add_comm 1 k]

theorem handsOut_base (h : s.loops = []) (k : Nat) : s.handsOut k = some .base := by
  have hcall : s.getNextLoop = some (.base, s) := by
    rw [getNextLoop, if_pos h]
  induction k with
  | zero =>
      rw [handsOut, hcall]
      rfl
  | succ k ih => rw [handsOut, hcall, Option.bind_some, ih]

/-- Repeated calls of `GetNextLoop` hand out what `GetAllLoops` returns. -/
theorem mem_getAllLoops_iff (h : s.loops = [] ∨ s.next < s.loops.length) (loop : Loop) :
    loop ∈ s.getAllLoops ↔ ∃ k, s.handsOut k = some loop := by
  cases h with
  | inl hnil =>
      simp only [getAllLoops, if_pos hnil, List.mem_singleton, handsOut_base hnil,
        Option.some.injEq, exists_const]
      exact eq_comm
  | inr hlt =>
      have hne : s.loops ≠ [] := List.ne_nil_of_length_pos (by omega)
      rw [getAllLoops, if_neg hne, List.mem_iff_getElem?]
      constructor
      · rintro ⟨i, hi⟩
        obtain ⟨hbound, _⟩ := List.getElem?_eq_some_iff.1 hi
        refine ⟨s.loops.length - s.next + i, ?_⟩
        have hmod : (s.next + (s.loops.length - s.next + i)) % s.loops.length = i := by
          rw [← Nat.add_assoc, Nat.add_sub_cancel' hlt.le, Nat.add_mod_left,
            Nat.mod_eq_of_lt hbound]
        rw [handsOut_eq hlt, hmod, hi]
      · rintro ⟨k, hk⟩
        rw [handsOut_eq hlt] at hk
        exact ⟨_, hk⟩

/-! ## The threads and the loops they give -/

/-- `Start` keeps `threads_` and `loops_` in step, one ahead inside `StartLoop`. -/
structure Spawned (s : EventLoopThreadPool τ F) : Prop where
  loops : s.loops = List.map Loop.sub (List.range s.loops.length)
  threads : s.threads.length = s.loops.length + if s.pc = .waiting then 1 else 0
  fresh : s.pc = .notCalled → s.threads = []
  bound : s.pc ≠ .notCalled → s.threads.length ≤ s.numThreads.toNat
  all : s.pc = .returned → s.threads.length = s.numThreads.toNat
  next : s.next = 0 ∨ s.next < s.loops.length

theorem Spawned.new : Spawned (new : EventLoopThreadPool τ F) := by
  constructor <;> simp [EventLoopThreadPool.new]

/-- The thread `i` has called the init callback. -/
def madeAt (threads : List (EventLoopThread τ F)) (i : Nat) : Bool :=
  (threads[i]?).any EventLoopThread.loopMade

structure Called (s : EventLoopThreadPool τ F) : Prop where
  base : s.events.count (.initCallback .base) =
    (decide (s.pc = .returned) && decide (s.numThreads = 1) && s.callback).toNat
  sub : ∀ i, s.events.count (.initCallback (.sub i)) = (s.callback && madeAt s.threads i).toNat
  published : ∀ thread ∈ s.threads, thread.loopSet = true → thread.loopMade = true
  obtained : ∀ i < s.loops.length, madeAt s.threads i = true
  before : s.callback = true → Always (fun before e => ∀ i, e = .startLoopReturned i →
    .initCallback (.sub i) ∈ before) s.events
  fresh : s.pc = .notCalled → s.events = []

theorem Called.new : Called (new : EventLoopThreadPool τ F) := by
  constructor <;> simp [EventLoopThreadPool.new, madeAt, Always.nil]

/-! ## What a step can do -/

inductive Move (s : EventLoopThreadPool τ F) : Action τ F → EventLoopThreadPool τ F → Prop
  | setThreadNum (n : Int) : s.pc = .notCalled →
      Move s (.setThreadNum n) { s with numThreads := n }
  | start (cb : Bool) : s.pc = .notCalled →
      Move s (.start cb) { s with pc := .starting, started := true, callback := cb }
  | startThread (thread : EventLoopThread τ F) : s.pc = .starting →
      (s.threads.length : Int) < s.numThreads → thread.loopMade = false →
      thread.loopSet = false →
      Move s .startThread { s with pc := .waiting, threads := s.threads ++ [thread] }
  | startLoopReturns (thread thread' : EventLoopThread τ F) : s.pc = .waiting →
      s.threads[s.loops.length]? = some thread → thread.loopSet = true →
      thread'.loopSet = thread.loopSet → thread'.loopMade = thread.loopMade →
      Move s .startLoopReturns { s with
        pc := .starting
        threads := s.threads.set s.loops.length thread'
        loops := s.loops ++ [.sub s.loops.length]
        events := s.events ++ [.startLoopReturned s.loops.length] }
  | finish : s.pc = .starting → ¬ (s.threads.length : Int) < s.numThreads →
      Move s .finish { s with
        pc := .returned
        events :=
          if s.numThreads = 1 ∧ s.callback = true then s.events ++ [.initCallback .base]
          else s.events }
  | getNextLoop (next : Nat) : s.pc = .returned →
      (next = s.next ∨ next = 0 ∨ next < s.loops.length) →
      Move s .getNextLoop { s with next := next }
  | thread (i : Nat) (a : EventLoopThread.Action τ F) (thread thread' : EventLoopThread τ F) :
      s.threads[i]? = some thread → (a.callsInit = true → thread.loopMade = false) →
      thread'.loopMade = (thread.loopMade || a.callsInit) →
      (thread'.loopSet = true → thread.loopSet = true ∨ thread'.loopMade = true) →
      Move s (.thread i a) { s with
        threads := s.threads.set i thread'
        events :=
          if a.callsInit && s.callback then s.events ++ [.initCallback (.sub i)]
          else s.events }

section Runs

variable [DecidableEq τ] {main : τ}

theorem step_move {a : Action τ F} (hs : s.step main a = some s') : Move s a s' := by
  cases a with
  | setThreadNum n =>
      simp only [step] at hs
      split at hs <;> cases hs
      rename_i hpc
      exact .setThreadNum n hpc
  | start cb =>
      simp only [step] at hs
      split at hs <;> cases hs
      rename_i hpc
      exact .start cb hpc
  | startThread =>
      simp only [step] at hs
      split at hs <;> try contradiction
      rename_i hpc
      obtain ⟨thread, hstart, rfl⟩ := Option.map_eq_some_iff.1 hs
      cases hstart
      exact .startThread _ hpc.1 hpc.2 rfl rfl
  | startLoopReturns =>
      simp only [step] at hs
      split at hs <;> try contradiction
      rename_i hpc
      obtain ⟨thread, hthread, hs⟩ := Option.bind_eq_some_iff.1 hs
      obtain ⟨thread', hobtain, rfl⟩ := Option.map_eq_some_iff.1 hs
      simp only [EventLoopThread.step] at hobtain
      split at hobtain <;> try contradiction
      rename_i hset
      cases hobtain
      exact .startLoopReturns thread _ hpc hthread hset rfl rfl
  | finish =>
      simp only [step] at hs
      split at hs <;> cases hs
      rename_i hpc
      exact .finish hpc.1 hpc.2
  | getNextLoop =>
      simp only [step] at hs
      split at hs <;> try contradiction
      rename_i hpc
      obtain ⟨⟨loop, t⟩, ht, rfl⟩ := Option.map_eq_some_iff.1 hs
      rw [getNextLoop] at ht
      split at ht
      · cases ht
        exact .getNextLoop s.next hpc (Or.inl rfl)
      · obtain ⟨_, _, ht⟩ := Option.map_eq_some_iff.1 ht
        cases ht
        refine .getNextLoop _ hpc (Or.inr ?_)
        split
        · exact Or.inl rfl
        · right
          omega
  | thread i a =>
      simp only [step] at hs
      obtain ⟨thread, hthread, hs⟩ := Option.bind_eq_some_iff.1 hs
      split at hs <;> try contradiction
      obtain ⟨thread', hstep, rfl⟩ := Option.map_eq_some_iff.1 hs
      obtain ⟨hfirst, hmade, hset⟩ := EventLoopThread.step_made hstep
      exact .thread i a thread thread' hthread hfirst hmade hset

end Runs

theorem Spawned.move (h : Spawned s) {a : Action τ F} (hs : Move s a s') : Spawned s' := by
  obtain ⟨hloops, hthreads, hfresh, hbound, hall, hnext⟩ := h
  cases hs with
  | setThreadNum n hpc =>
      constructor
      · exact hloops
      · exact hthreads
      · exact hfresh
      · exact fun hne => absurd hpc hne
      · exact fun hret => absurd (hpc.symm.trans hret) (by decide)
      · exact hnext
  | start cb hpc =>
      rw [hpc] at hthreads
      have hnone := hfresh hpc
      constructor
      · exact hloops
      · simpa using hthreads
      · exact fun _ => hnone
      · simp [hnone]
      · simp
      · exact hnext
  | startThread thread hpc hlt _ _ =>
      rw [hpc, if_neg (by simp)] at hthreads
      constructor
      · exact hloops
      · simp [hthreads]
      · simp
      · intro _
        simp only [List.length_append, List.length_singleton]
        omega
      · simp
      · exact hnext
  | startLoopReturns thread thread' hpc _ _ _ _ =>
      rw [hpc, if_pos rfl] at hthreads
      have hle := hbound (by simp [hpc])
      constructor
      · simp only [List.length_append, List.length_singleton, List.range_succ, List.map_append,
          List.map_singleton, ← hloops]
      · simp [hthreads]
      · simp
      · intro _
        simpa using hle
      · simp
      · simp only [List.length_append, List.length_singleton]
        omega
  | finish hpc hge =>
      have hle := hbound (by simp [hpc])
      rw [hpc, if_neg (by simp)] at hthreads
      constructor
      · exact hloops
      · simpa using hthreads
      · simp
      · exact fun _ => hle
      · intro _
        dsimp only
        omega
      · exact hnext
  | getNextLoop next hpc hle =>
      refine ⟨hloops, hthreads, hfresh, hbound, hall, ?_⟩
      dsimp only
      omega
  | thread i a thread thread' _ _ _ _ =>
      constructor
      · exact hloops
      · simpa using hthreads
      · intro hpc
        simp [hfresh hpc]
      · simpa using hbound
      · simpa using hall
      · exact hnext

theorem madeAt_append {threads : List (EventLoopThread τ F)} {thread : EventLoopThread τ F}
    (hmade : thread.loopMade = false) (i : Nat) :
    madeAt (threads ++ [thread]) i = madeAt threads i := by
  rw [madeAt, madeAt, List.getElem?_append]
  split
  · rfl
  · rename_i hge
    rw [List.getElem?_eq_none (Nat.le_of_not_lt hge)]
    cases hi : i - threads.length with
    | zero => simpa using hmade
    | succ n => simp

theorem madeAt_set {threads : List (EventLoopThread τ F)} {i : Nat}
    {thread thread' : EventLoopThread τ F} (hthread : threads[i]? = some thread) (j : Nat) :
    madeAt (threads.set i thread') j = if i = j then thread'.loopMade else madeAt threads j := by
  obtain ⟨hi, _⟩ := List.getElem?_eq_some_iff.1 hthread
  rw [madeAt, List.getElem?_set]
  by_cases hij : i = j
  · subst hij
    simp [hi]
  · simp [hij, madeAt]

theorem published_set {threads : List (EventLoopThread τ F)} {i : Nat}
    {thread' : EventLoopThread τ F}
    (h : ∀ thread ∈ threads, thread.loopSet = true → thread.loopMade = true)
    (hnew : thread'.loopSet = true → thread'.loopMade = true) :
    ∀ thread ∈ threads.set i thread', thread.loopSet = true → thread.loopMade = true := by
  intro t ht hloop
  cases List.mem_or_eq_of_mem_set ht with
  | inl hmem => exact h t hmem hloop
  | inr heq =>
      subst heq
      exact hnew hloop

theorem before_callback {events : List Event} (loop : Loop)
    (h : Always (fun before e => ∀ i, e = .startLoopReturned i →
      .initCallback (.sub i) ∈ before) events) :
    Always (fun before e => ∀ i, e = .startLoopReturned i →
      .initCallback (.sub i) ∈ before) (events ++ [.initCallback loop]) := by
  apply h.concat
  intro i hi
  cases hi

/-! ### The steps that change who has been called -/

theorem Called.startThread (h : Called s) {thread : EventLoopThread τ F}
    (hpc : s.pc = .starting) (hmade : thread.loopMade = false) (hset : thread.loopSet = false) :
    Called { s with pc := .waiting, threads := s.threads ++ [thread] } := by
  have hbase := h.base
  rw [hpc] at hbase
  constructor
  · exact hbase
  · intro i
    rw [madeAt_append hmade]
    exact h.sub i
  · intro t ht hloop
    rw [List.mem_append, List.mem_singleton] at ht
    cases ht with
    | inl hold => exact h.published t hold hloop
    | inr hnew =>
        rw [hnew, hset] at hloop
        cases hloop
  · intro i hi
    rw [madeAt_append hmade]
    exact h.obtained i hi
  · exact h.before
  · intro hnot
    cases hnot

/-- `StartLoop` returns a published loop, and its thread has called the callback by then. -/
theorem Called.startLoopReturns (h : Called s) {thread thread' : EventLoopThread τ F}
    (hpc : s.pc = .waiting) (hthread : s.threads[s.loops.length]? = some thread)
    (hset : thread.loopSet = true) (hmade' : thread'.loopMade = thread.loopMade) :
    Called { s with
      pc := .starting
      threads := s.threads.set s.loops.length thread'
      loops := s.loops ++ [.sub s.loops.length]
      events := s.events ++ [.startLoopReturned s.loops.length] } := by
  have hold := h.published thread (List.mem_of_getElem? hthread) hset
  have hmade : madeAt s.threads s.loops.length = true := by
    rw [madeAt, hthread]
    exact hold
  have hat : ∀ i, madeAt (s.threads.set s.loops.length thread') i = madeAt s.threads i := by
    intro i
    rw [madeAt_set hthread]
    split
    · rename_i hi
      rw [← hi, hmade', hold, hmade]
    · rfl
  have hbase := h.base
  rw [hpc] at hbase
  constructor
  · simpa using hbase
  · intro i
    rw [hat i]
    simpa using h.sub i
  · apply published_set h.published
    intro _
    rw [hmade', hold]
  · intro i hi
    rw [hat i]
    rw [List.length_append, List.length_singleton] at hi
    by_cases hlast : i = s.loops.length
    · rw [hlast, hmade]
    · exact h.obtained i (by omega)
  · intro hcb
    apply (h.before hcb).concat
    intro i hi
    cases hi
    apply List.count_pos_iff.1
    rw [h.sub, hcb, hmade]
    exact Nat.one_pos
  · intro hnot
    cases hnot

/-- The last line of `Start` calls the callback with the base loop if there is one thread. -/
theorem Called.finish (h : Called s) (hpc : s.pc = .starting) :
    Called { s with
      pc := .returned
      events :=
        if s.numThreads = 1 ∧ s.callback = true then s.events ++ [.initCallback .base]
        else s.events } := by
  have hbase := h.base
  rw [hpc] at hbase
  by_cases hone : s.numThreads = 1 ∧ s.callback = true
  · rw [if_pos hone]
    constructor
    · simp [hbase, hone.1, hone.2]
    · intro i
      simpa using h.sub i
    · exact h.published
    · exact h.obtained
    · intro hcb
      exact before_callback .base (h.before hcb)
    · intro hnot
      cases hnot
  · rw [if_neg hone]
    constructor
    · rw [hbase]
      cases hcb : s.callback with
      | false => simp
      | true =>
          have hmany : s.numThreads ≠ 1 := fun heq => hone ⟨heq, hcb⟩
          simp [hmany]
    · exact h.sub
    · exact h.published
    · exact h.obtained
    · exact h.before
    · intro hnot
      cases hnot

theorem count_callback_thread (h : Called s) {i : Nat} {a : EventLoopThread.Action τ F}
    {thread thread' : EventLoopThread τ F} (hthread : s.threads[i]? = some thread)
    (hfirst : a.callsInit = true → thread.loopMade = false)
    (hmade : thread'.loopMade = (thread.loopMade || a.callsInit)) (j : Nat) :
    (if a.callsInit && s.callback then s.events ++ [.initCallback (.sub i)]
      else s.events).count (.initCallback (.sub j)) =
      (s.callback && madeAt (s.threads.set i thread') j).toNat := by
  have hold := h.sub j
  have hat : madeAt s.threads i = thread.loopMade := by
    rw [madeAt, hthread, Option.any_some]
  rw [madeAt_set hthread]
  by_cases hij : i = j
  · subst hij
    rw [if_pos rfl, hmade]
    rw [hat] at hold
    cases hcall : a.callsInit with
    | false => simpa using hold
    | true =>
        rw [hfirst hcall] at hold
        cases hcb : s.callback with
        | false => simpa [hcb] using hold
        | true => simpa [hcb] using hold
  · rw [if_neg hij]
    split
    · simpa [hij] using hold
    · exact hold

theorem Called.thread (h : Called s) (hS : Spawned s) {i : Nat}
    {a : EventLoopThread.Action τ F} {thread thread' : EventLoopThread τ F}
    (hthread : s.threads[i]? = some thread)
    (hfirst : a.callsInit = true → thread.loopMade = false)
    (hmade : thread'.loopMade = (thread.loopMade || a.callsInit))
    (hset : thread'.loopSet = true → thread.loopSet = true ∨ thread'.loopMade = true) :
    Called { s with
      threads := s.threads.set i thread'
      events :=
        if a.callsInit && s.callback then s.events ++ [.initCallback (.sub i)]
        else s.events } := by
  constructor
  · have hbase := h.base
    dsimp only
    split
    · simpa using hbase
    · exact hbase
  · exact count_callback_thread h hthread hfirst hmade
  · apply published_set h.published
    intro hloop
    cases hset hloop with
    | inl hwas => rw [hmade, h.published thread (List.mem_of_getElem? hthread) hwas, Bool.true_or]
    | inr hnow => exact hnow
  · intro j hj
    have hold := h.obtained j hj
    rw [madeAt_set hthread]
    split
    · rename_i hij
      rw [← hij, madeAt, hthread, Option.any_some] at hold
      rw [hmade, hold, Bool.true_or]
    · exact hold
  · intro hcb
    dsimp only
    split
    · exact before_callback (.sub i) (h.before hcb)
    · exact h.before hcb
  · intro hpc
    have hnone : s.threads[i]? = none := by
      rw [hS.fresh hpc]
      rfl
    rw [hnone] at hthread
    cases hthread

theorem Called.move (h : Called s) (hS : Spawned s) {a : Action τ F} (hs : Move s a s') :
    Called s' := by
  cases hs with
  | setThreadNum n hpc =>
      have hnone := h.fresh hpc
      exact ⟨by simp [hnone, hpc], h.sub, h.published, h.obtained, h.before, h.fresh⟩
  | start cb hpc =>
      have hnone := h.fresh hpc
      have hthreads := hS.fresh hpc
      constructor
      · simp [hnone]
      · simp [hnone, madeAt, hthreads]
      · exact h.published
      · exact h.obtained
      · intro _
        rw [hnone]
        exact Always.nil
      · intro hnot
        cases hnot
  | startThread thread hpc _ hmade hset => exact h.startThread hpc hmade hset
  | startLoopReturns thread thread' hpc hthread hset _ hmade' =>
      exact h.startLoopReturns hpc hthread hset hmade'
  | finish hpc _ => exact h.finish hpc
  | getNextLoop next _ _ =>
      exact ⟨h.base, h.sub, h.published, h.obtained, h.before, h.fresh⟩
  | thread i a thread thread' hthread hfirst hmade hset =>
      exact h.thread hS hthread hfirst hmade hset

theorem invariants_of_reach [DecidableEq τ] {main : τ}
    (h : (machine F main).Reach (fun _ _ => True) s) : Spawned s ∧ Called s := by
  apply h.invariant (I := fun s => Spawned s ∧ Called s)
  · rintro s rfl
    exact ⟨Spawned.new, Called.new⟩
  · rintro s a s' ⟨hS, hC⟩ _ hs
    exact ⟨hS.move (step_move hs), hC.move hS (step_move hs)⟩

/-- One round of the loop in `Start`, with the thread's `ThreadFunc` running in between. -/
theorem run_round [DecidableEq τ] {main : τ} (hpc : s.pc = .starting)
    (hlt : (s.threads.length : Int) < s.numThreads) (hloops : s.loops.length = s.threads.length) :
    ∃ s', (machine F main).run s [.startThread, .thread s.threads.length .construct,
        .thread s.threads.length .publish, .startLoopReturns] = some s' ∧
      s'.pc = .starting ∧ s'.numThreads = s.numThreads ∧ s'.callback = s.callback ∧
      s'.threads.length = s.threads.length + 1 := by
  simp [Machine.run_cons, machine, step, hpc, hlt, hloops, EventLoopThread.step,
    EventLoopThread.new, EventLoopThread.Action.isInner]

/-- `Start` can return for every number of threads and every callback. -/
theorem start_can_return [DecidableEq τ] {main : τ} (n : Nat) (cb : Bool) :
    ∃ s, (machine F main).Reach (fun _ _ => True) s ∧ s.pc = .returned ∧
      s.numThreads = n ∧ s.callback = cb := by
  have hspawned : ∀ k ≤ n, ∃ s, (machine F main).Reach (fun _ _ => True) s ∧
      s.pc = .starting ∧ s.numThreads = n ∧ s.callback = cb ∧ s.threads.length = k := by
    intro k
    induction k with
    | zero =>
        intro _
        have hstart : (machine F main).Reach (fun _ _ => True) new := .start rfl
        have hreach := hstart.of_run [.setThreadNum n, .start cb] (fun _ _ _ => trivial) rfl
        exact ⟨_, hreach, rfl, rfl, rfl, rfl⟩
    | succ k ih =>
        intro hk
        obtain ⟨s, hreach, hpc, hn, hcb, hlength⟩ := ih (by omega)
        have hloops := (invariants_of_reach hreach).1.threads
        rw [hpc, if_neg (by simp)] at hloops
        obtain ⟨s', hrun, hpc', hn', hcb', hlength'⟩ :=
          @run_round _ _ s _ main hpc (by omega) hloops.symm
        have hreach' := hreach.of_run _ (fun _ _ _ => trivial) hrun
        exact ⟨s', hreach', hpc', hn'.trans hn, hcb'.trans hcb, by rw [hlength', hlength]⟩
  obtain ⟨s, hreach, hpc, hn, hcb, hlength⟩ := hspawned n le_rfl
  have hdone : ¬ (s.threads.length : Int) < s.numThreads := by omega
  have hfinish : (machine F main).step s .finish = some _ := if_pos ⟨hpc, hdone⟩
  exact ⟨_, hreach.step trivial hfinish, rfl, hn, hcb⟩

/-! ## Whom the callback reaches -/

theorem mem_getAllLoops (h : Spawned s) (hret : s.pc = .returned) (loop : Loop) :
    loop ∈ s.getAllLoops ↔
      match loop with
      | .base => s.numThreads ≤ 0
      | .sub i => (i : Int) < s.numThreads := by
  have hlength := h.threads
  have hall := h.all hret
  rw [hret, if_neg (by simp)] at hlength
  by_cases hnil : s.loops = []
  · rw [hnil, List.length_nil] at hlength
    rw [getAllLoops, if_pos hnil, List.mem_singleton]
    cases loop with
    | base =>
        simp only [true_iff]
        omega
    | sub i =>
        simp only [reduceCtorEq, false_iff]
        omega
  · have hpos := List.length_pos_of_ne_nil hnil
    rw [getAllLoops, if_neg hnil, h.loops]
    cases loop with
    | base =>
        simp only [List.mem_map, reduceCtorEq, and_false, exists_false, false_iff]
        omega
    | sub i =>
        simp only [List.mem_map, Loop.sub.injEq, exists_eq_right, List.mem_range]
        omega

/-- After `Start` has returned for a callback that is not empty, the callback covers
exactly the serving loops if there are two threads or more: with none it misses the
base loop, with one it is also called with the base loop, which then serves nothing. -/
theorem init_covers_iff [DecidableEq τ] {main : τ} (s : EventLoopThreadPool τ F)
    (h : (machine F main).Reach (fun _ _ => True) s) (hret : s.pc = .returned)
    (hcb : s.callback = true) : Covers s ↔ 2 ≤ s.numThreads := by
  obtain ⟨hS, hC⟩ := invariants_of_reach h
  have hbase := hC.base
  rw [hret, hcb] at hbase
  constructor
  · intro hcovers
    have honce := hcovers.once .base
    rw [hbase] at honce
    by_cases hone : s.numThreads = 1
    · rw [if_neg] at honce
      · simp [hone] at honce
      · rw [mem_getAllLoops hS hret, hone]
        decide
    · by_contra hfew
      have hnone : s.numThreads ≤ 0 := by omega
      rw [if_pos ((mem_getAllLoops hS hret .base).2 hnone)] at honce
      simp [hone] at honce
  · intro htwo
    have hlength := hS.threads
    have hall := hS.all hret
    rw [hret, if_neg (by simp)] at hlength
    constructor
    · intro loop
      cases loop with
      | base =>
          rw [hbase, if_neg]
          · have hmany : s.numThreads ≠ 1 := by omega
            simp [hmany]
          · rw [mem_getAllLoops hS hret]
            dsimp only
            omega
      | sub i =>
          rw [hC.sub i, hcb, Bool.true_and]
          by_cases hi : i < s.loops.length
          · rw [hC.obtained i hi, if_pos]
            · rfl
            · rw [mem_getAllLoops hS hret]
              dsimp only
              omega
          · have hnone : s.threads[i]? = none := List.getElem?_eq_none (by omega)
            rw [madeAt, hnone, if_neg]
            · rfl
            · rw [mem_getAllLoops hS hret]
              dsimp only
              omega
    · have hnext := hS.next
      exact mem_getAllLoops_iff (Or.inr (by omega))
    · exact hC.before hcb

/-- Three threads. -/
theorem init_covers_iff_three : ∃ s : EventLoopThreadPool Unit Unit,
    s.numThreads = 3 ∧ s.pc = .returned ∧ Covers s := by
  have hstart : (machine Unit ()).Reach (fun _ _ => True) new := .start rfl
  have hreach := hstart.of_run [.setThreadNum 3, .start true,
    .startThread, .thread 0 .construct, .thread 0 .publish, .startLoopReturns,
    .startThread, .thread 1 .construct, .thread 1 .publish, .startLoopReturns,
    .startThread, .thread 2 .construct, .thread 2 .publish, .startLoopReturns, .finish]
    (fun _ _ _ => trivial) rfl
  exact ⟨_, rfl, rfl, (init_covers_iff _ hreach rfl rfl).2 (by decide)⟩

/-- With no threads the base loop serves, and the callback is never called. -/
theorem base_loop_not_called :
    ¬ ∀ s : EventLoopThreadPool Unit Unit, (machine Unit ()).Reach (fun _ _ => True) s →
      s.pc = .returned → s.callback = true → 0 ≤ s.numThreads → Covers s := by
  intro hclaim
  have hstart : (machine Unit ()).Reach (fun _ _ => True) new := .start rfl
  have hreach := hstart.of_run [.setThreadNum 0, .start true, .finish] (fun _ _ _ => trivial) rfl
  have honce := (hclaim _ hreach rfl rfl le_rfl).once .base
  exact absurd honce (by decide)

end EventLoopThreadPool

end MyNetLib
