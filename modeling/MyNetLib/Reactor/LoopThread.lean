import MyNetLib.Library.Machine

/-! # One loop a thread (`src/event_loop.cc`, `src/current_thread.cc`)

`IsInLoopThread` compares `thread_id_` with `CurrentThread::Tid()`. Both are the kernel's
ids, kept in a copy of each thread, and the kernel gives the id of a thread that has ended to
a new one. Threads and loops are numbered in the order they were made.
-/

namespace MyNetLib

open Library

/-- The kernel's id, and the thread's copies of `t_cached_tid` and `t_loopInThisThread`. -/
structure OsThread where
  kernelTid : Nat
  cachedTid : Nat
  loopInThisThread : Option Nat
  running : Bool
  deriving DecidableEq, Repr

namespace OsThread

def new (tid : Nat) : OsThread := ⟨tid, 0, none, true⟩

/-- `CurrentThread::Tid` -/
def tid (x : OsThread) : Nat := if x.cachedTid = 0 then x.kernelTid else x.cachedTid

/-- What `CurrentThread::Tid` leaves in `t_cached_tid`. -/
def cacheTid (x : OsThread) : OsThread := { x with cachedTid := x.tid }

def enter (x : OsThread) (l : Nat) : OsThread := { x.cacheTid with loopInThisThread := some l }

def leave (x : OsThread) : OsThread := { x with loopInThisThread := none }

def stop (x : OsThread) : OsThread := { x with running := false }

end OsThread

/-- `thread_id_`, and the thread the constructor ran on. -/
structure LoopObject where
  threadId : Nat
  creator : Nat
  alive : Bool
  deriving DecidableEq, Repr

/-- The threads and loops of a process, and whether `LOG_FATAL` has ended it. -/
structure Process where
  threads : List OsThread
  loops : List LoopObject
  aborted : Bool
  deriving DecidableEq, Repr

namespace Process

def new (tid : Nat) : Process := ⟨[.new tid], [], false⟩

def thread (p : Process) (t : Nat) : Option OsThread := p.threads[t]?.filter fun x => x.running

def loop (p : Process) (l : Nat) : Option LoopObject := p.loops[l]?.filter fun L => L.alive

/-- `IsInLoopThread` of the loop, called on the thread. -/
def isInLoopThread (x : OsThread) (L : LoopObject) : Bool := L.threadId == x.tid

/-- `EventLoop::EventLoop`, on the thread. -/
def construct (p : Process) (t : Nat) (x : OsThread) : Process :=
  match x.loopInThisThread with
  | some _ => { p with threads := p.threads.set t x.cacheTid, aborted := true }
  | none =>
      { p with
        threads := p.threads.set t (x.enter p.loops.length)
        loops := p.loops ++ [⟨x.tid, t, true⟩] }

/-- `EventLoop::~EventLoop`, on the thread. -/
def destruct (p : Process) (t : Nat) (x : OsThread) (l : Nat) (L : LoopObject) : Process :=
  { p with
    threads := p.threads.set t x.leave
    loops := p.loops.set l { L with alive := false } }

inductive Action where
  | startThread (tid : Nat)
  | endThread (t : Nat)
  | tid (t : Nat)
  | construct (t : Nat)
  | destruct (t l : Nat)
  deriving DecidableEq, Repr

def free (p : Process) (tid : Nat) : Bool :=
  tid ≠ 0 && p.threads.all fun x => !x.running || x.kernelTid ≠ tid

def step (p : Process) (a : Action) : Option Process :=
  if p.aborted then none
  else match a with
    | .startThread tid =>
        if p.free tid then some { p with threads := p.threads ++ [.new tid] } else none
    | .endThread t => (p.thread t).map fun x => { p with threads := p.threads.set t x.stop }
    | .tid t => (p.thread t).map fun x => { p with threads := p.threads.set t x.cacheTid }
    | .construct t => (p.thread t).map fun x => p.construct t x
    | .destruct t l =>
        (p.thread t).bind fun x => (p.loop l).map fun L => p.destruct t x l L

def machine : Machine Process Action where
  start p := ∃ tid, tid ≠ 0 ∧ p = new tid
  step := step

/-- A loop is a local variable of a function of its thread. -/
def Scoped (p : Process) : Action → Prop
  | .endThread t => ∀ L ∈ p.loops, L.alive = true → L.creator ≠ t
  | .destruct t l => ∀ L, p.loop l = some L → L.creator = t
  | _ => True

instance (p : Process) (a : Action) : Decidable (Scoped p a) :=
  match a with
  | .endThread t => inferInstanceAs (Decidable (∀ L ∈ p.loops, L.alive = true → L.creator ≠ t))
  | .destruct t l => decidable_of_iff ((p.loop l).all (fun L => L.creator = t) = true) (by
      simp [Scoped, Option.all_eq_true])
  | .startThread _ => inferInstanceAs (Decidable True)
  | .tid _ => inferInstanceAs (Decidable True)
  | .construct _ => inferInstanceAs (Decidable True)

/-! ## Threads and their ids -/

section Views

variable {T : Nat → Option OsThread} {L : Nat → Option LoopObject} {t l : Nat} {x : OsThread}
  {o : LoopObject}

/-- Running threads have different ids, and a copy of the id is empty or right. -/
structure Tids (T : Nat → Option OsThread) : Prop where
  kernelTid : ∀ t x, T t = some x → x.kernelTid ≠ 0
  cachedTid : ∀ t x, T t = some x → x.cachedTid = 0 ∨ x.cachedTid = x.kernelTid
  distinct : ∀ t u x y, T t = some x → T u = some y → x.kernelTid = y.kernelTid → t = u

/-- The slot of a thread holds the living loop that was made on it, if there is one. -/
structure Slots (T : Nat → Option OsThread) (L : Nat → Option LoopObject) : Prop where
  slot : ∀ l o, L l = some o → ∃ x, T o.creator = some x ∧ x.loopInThisThread = some l ∧
    o.threadId = x.kernelTid
  owner : ∀ t x l, T t = some x → x.loopInThisThread = some l → ∃ o, L l = some o ∧ o.creator = t

theorem Tids.tid_eq (h : Tids T) (hx : T t = some x) : x.tid = x.kernelTid := by
  rw [OsThread.tid]
  split
  · rfl
  · rename_i hcached
    exact (h.cachedTid t x hx).resolve_left hcached

theorem update_eq_some {α : Type} {f : Nat → Option α} {i j : Nat} {v : Option α} {y : α} :
    Function.update f i v j = some y ↔ j = i ∧ v = some y ∨ j ≠ i ∧ f j = some y := by
  rw [Function.update_apply]
  split <;> simp_all

theorem Tids.update (h : Tids T) {x' : OsThread} (hkernel : x'.kernelTid ≠ 0)
    (hcached : x'.cachedTid = 0 ∨ x'.cachedTid = x'.kernelTid)
    (hfree : ∀ u y, T u = some y → y.kernelTid = x'.kernelTid → u = t) :
    Tids (Function.update T t (some x')) where
  kernelTid := by
    intro u y hy
    rcases update_eq_some.1 hy with ⟨-, hx'⟩ | ⟨-, hy⟩
    · cases hx'
      exact hkernel
    · exact h.kernelTid u y hy
  cachedTid := by
    intro u y hy
    rcases update_eq_some.1 hy with ⟨-, hx'⟩ | ⟨-, hy⟩
    · cases hx'
      exact hcached
    · exact h.cachedTid u y hy
  distinct := by
    intro u v y z hy hz hyz
    rcases update_eq_some.1 hy with ⟨rfl, hx'⟩ | ⟨-, hold⟩
    · cases hx'
      rcases update_eq_some.1 hz with ⟨rfl, -⟩ | ⟨-, hz⟩
      · rfl
      · exact (hfree v z hz hyz.symm).symm
    · rcases update_eq_some.1 hz with ⟨rfl, hx'⟩ | ⟨-, hz⟩
      · cases hx'
        exact hfree u y hold hyz
      · exact h.distinct u v y z hold hz hyz

theorem Tids.keep (h : Tids T) (hx : T t = some x) {x' : OsThread}
    (hkernel : x'.kernelTid = x.kernelTid)
    (hcached : x'.cachedTid = x.cachedTid ∨ x'.cachedTid = x.tid) :
    Tids (Function.update T t (some x')) := by
  apply h.update
  · rw [hkernel]
    exact h.kernelTid t x hx
  · rw [hkernel]
    rcases hcached with hcached | hcached
    · rw [hcached]
      exact h.cachedTid t x hx
    · rw [hcached]
      exact .inr (h.tid_eq hx)
  · intro u y hy hyx
    exact h.distinct u t y x hy hx (hyx.trans hkernel)

theorem Tids.stop (h : Tids T) (t : Nat) : Tids (Function.update T t none) := by
  have hkept : ∀ u y, Function.update T t none u = some y → T u = some y := by
    intro u y hy
    rcases update_eq_some.1 hy with ⟨-, hnone⟩ | ⟨-, hy⟩
    · cases hnone
    · exact hy
  exact ⟨fun u y hy => h.kernelTid u y (hkept u y hy), fun u y hy => h.cachedTid u y (hkept u y hy),
    fun u v y z hy hz => h.distinct u v y z (hkept u y hy) (hkept v z hz)⟩

theorem Slots.spare (h : Slots T L) {v : Option OsThread} (ht : ∀ l o, L l = some o → o.creator ≠ t)
    (hv : ∀ x, v = some x → x.loopInThisThread = none) : Slots (Function.update T t v) L where
  slot := by
    intro l o ho
    obtain ⟨y, hy, hrest⟩ := h.slot l o ho
    exact ⟨y, update_eq_some.2 (.inr ⟨ht l o ho, hy⟩), hrest⟩
  owner := by
    intro u y l hy hl
    rcases update_eq_some.1 hy with ⟨-, hx⟩ | ⟨-, hy⟩
    · rw [hv y hx] at hl
      cases hl
    · exact h.owner u y l hy hl

theorem Slots.cacheTid (h : Slots T L) (hx : T t = some x) :
    Slots (Function.update T t (some x.cacheTid)) L where
  slot := by
    intro l o ho
    obtain ⟨y, hy, hslot, htid⟩ := h.slot l o ho
    by_cases hcreator : o.creator = t
    · rw [hcreator, hx, Option.some.injEq] at hy
      subst hy
      exact ⟨x.cacheTid, update_eq_some.2 (.inl ⟨hcreator, rfl⟩), hslot, htid⟩
    · exact ⟨y, update_eq_some.2 (.inr ⟨hcreator, hy⟩), hslot, htid⟩
  owner := by
    intro u y l hy hl
    rcases update_eq_some.1 hy with ⟨rfl, hcache⟩ | ⟨-, hy⟩
    · cases hcache
      exact h.owner u x l hx hl
    · exact h.owner u y l hy hl

theorem Slots.enter (h : Slots T L) (hT : Tids T) (hx : T t = some x)
    (hslot : x.loopInThisThread = none) (hl : L l = none) :
    Slots (Function.update T t (some (x.enter l)))
      (Function.update L l (some ⟨x.tid, t, true⟩)) where
  slot := by
    intro m o ho
    rcases update_eq_some.1 ho with ⟨rfl, hnew⟩ | ⟨hne, ho⟩
    · cases hnew
      exact ⟨x.enter m, update_eq_some.2 (.inl ⟨rfl, rfl⟩), rfl, hT.tid_eq hx⟩
    · obtain ⟨y, hy, hm, htid⟩ := h.slot m o ho
      have hcreator : o.creator ≠ t := by
        intro heq
        rw [heq, hx, Option.some.injEq] at hy
        rw [← hy, hslot] at hm
        cases hm
      exact ⟨y, update_eq_some.2 (.inr ⟨hcreator, hy⟩), hm, htid⟩
  owner := by
    intro u y m hy hm
    rcases update_eq_some.1 hy with ⟨rfl, henter⟩ | ⟨-, hy⟩
    · cases henter
      cases hm
      exact ⟨_, update_eq_some.2 (.inl ⟨rfl, rfl⟩), rfl⟩
    · obtain ⟨o, ho, hcreator⟩ := h.owner u y m hy hm
      have hne : m ≠ l := by
        rintro rfl
        rw [hl] at ho
        cases ho
      exact ⟨o, update_eq_some.2 (.inr ⟨hne, ho⟩), hcreator⟩

theorem Slots.leave (h : Slots T L) (ho : L l = some o) (hcreator : o.creator = t) :
    Slots (Function.update T t (some x.leave)) (Function.update L l none) where
  slot := by
    intro m o' ho'
    rcases update_eq_some.1 ho' with ⟨-, hnone⟩ | ⟨hne, ho'⟩
    · cases hnone
    · obtain ⟨y, hy, hm, htid⟩ := h.slot m o' ho'
      obtain ⟨z, hz, hl, -⟩ := h.slot l o ho
      have hother : o'.creator ≠ t := by
        intro heq
        rw [heq, ← hcreator, hz, Option.some.injEq] at hy
        rw [← hy, hl, Option.some.injEq] at hm
        exact hne hm.symm
      exact ⟨y, update_eq_some.2 (.inr ⟨hother, hy⟩), hm, htid⟩
  owner := by
    intro u y m hy hm
    rcases update_eq_some.1 hy with ⟨-, hleave⟩ | ⟨hne, hy⟩
    · cases hleave
      cases hm
    · obtain ⟨o', ho', hcreator'⟩ := h.owner u y m hy hm
      have hml : m ≠ l := by
        rintro rfl
        rw [ho, Option.some.injEq] at ho'
        rw [← ho', hcreator] at hcreator'
        exact hne hcreator'.symm
      exact ⟨o', update_eq_some.2 (.inr ⟨hml, ho'⟩), hcreator'⟩

end Views

/-! ## What a step does -/

theorem thread_eq_some {p : Process} {t : Nat} {x : OsThread} :
    p.thread t = some x ↔ p.threads[t]? = some x ∧ x.running = true := by
  rw [thread, Option.filter_eq_some_iff]

theorem loop_eq_some {p : Process} {l : Nat} {o : LoopObject} :
    p.loop l = some o ↔ p.loops[l]? = some o ∧ o.alive = true := by
  rw [loop, Option.filter_eq_some_iff]

structure Inv (p : Process) : Prop where
  tids : Tids p.thread
  slots : Slots p.thread p.loop

theorem filter_set {α : Type} (keep : α → Bool) {xs : List α} {i : Nat} {x : α}
    (hx : xs[i]? = some x) (x' : α) :
    (fun j => (xs.set i x')[j]?.filter keep) =
      Function.update (fun j => xs[j]?.filter keep) i (if keep x' then some x' else none) := by
  obtain ⟨hlt, -⟩ := List.getElem?_eq_some_iff.1 hx
  funext j
  by_cases hj : j = i
  · subst hj
    rw [Function.update_self, List.getElem?_set_self hlt, Option.filter_some]
  · rw [Function.update_of_ne hj, List.getElem?_set_ne (Ne.symm hj)]

theorem filter_append {α : Type} (keep : α → Bool) (xs : List α) {x : α} (hx : keep x = true) :
    (fun j => (xs ++ [x])[j]?.filter keep) =
      Function.update (fun j => xs[j]?.filter keep) xs.length (some x) := by
  funext j
  rcases Nat.lt_trichotomy j xs.length with hj | rfl | hj
  · rw [Function.update_of_ne (by omega), List.getElem?_append_left hj]
  · rw [Function.update_self, List.getElem?_concat_length, Option.filter_some, if_pos hx]
  · rw [Function.update_of_ne (by omega), List.getElem?_eq_none (by simp; omega),
      List.getElem?_eq_none (by omega)]

theorem thread_set {p : Process} {t : Nat} {x : OsThread} (hx : p.thread t = some x)
    (x' : OsThread) (loops : List LoopObject) (aborted : Bool) :
    (⟨p.threads.set t x', loops, aborted⟩ : Process).thread =
      Function.update p.thread t (if x'.running then some x' else none) :=
  filter_set _ (thread_eq_some.1 hx).1 x'

theorem free_spec {p : Process} {tid : Nat} (h : p.free tid = true) :
    tid ≠ 0 ∧ ∀ t x, p.thread t = some x → x.kernelTid ≠ tid := by
  simp only [free, Bool.and_eq_true, decide_eq_true_eq, List.all_eq_true, Bool.or_eq_true,
    Bool.not_eq_true'] at h
  refine ⟨h.1, ?_⟩
  intro t x hx heq
  obtain ⟨hget, hrunning⟩ := thread_eq_some.1 hx
  rcases h.2 x (List.mem_of_getElem? hget) with hstopped | hne
  · rw [hrunning] at hstopped
    cases hstopped
  · exact hne heq

theorem Inv.new {tid : Nat} (htid : tid ≠ 0) : Inv (new tid) := by
  have hnone : Tids (fun _ => none) ∧ Slots (fun _ => none) fun _ => none :=
    ⟨⟨by simp, by simp, by simp⟩, ⟨by simp, by simp⟩⟩
  have hthread : (Process.new tid).thread =
      Function.update (fun _ => none) 0 (some (.new tid)) := by
    funext t
    cases t with
    | zero => rfl
    | succ t => rfl
  have hloop : (Process.new tid).loop = fun _ => none := by
    funext l
    simp [loop, Process.new]
  constructor
  · rw [hthread]
    exact hnone.1.update htid (.inl rfl) (by simp)
  · rw [hthread, hloop]
    exact hnone.2.spare (by simp) (by simp [OsThread.new])

theorem Inv.startThread {p : Process} (h : Inv p) {tid : Nat} (htid : p.free tid = true) :
    Inv { p with threads := p.threads ++ [.new tid] } := by
  obtain ⟨hpos, hfree⟩ := free_spec htid
  have hthread : ({ p with threads := p.threads ++ [.new tid] } : Process).thread =
      Function.update p.thread p.threads.length (some (.new tid)) :=
    filter_append _ _ rfl
  have hnew : p.thread p.threads.length = none := by
    rw [thread, List.getElem?_eq_none (Nat.le_refl _)]
    rfl
  constructor
  · rw [hthread]
    exact h.tids.update hpos (.inl rfl) fun u y hy heq => absurd heq (hfree u y hy)
  · rw [hthread]
    apply h.slots.spare
    · intro l o ho hcreator
      obtain ⟨x, hx, -⟩ := h.slots.slot l o ho
      rw [hcreator, hnew] at hx
      cases hx
    · intro x hx
      cases hx
      rfl

theorem Inv.endThread {p : Process} (h : Inv p) {t : Nat} {x : OsThread} (hx : p.thread t = some x)
    (hscoped : Scoped p (.endThread t)) : Inv { p with threads := p.threads.set t x.stop } := by
  have hthread : ({ p with threads := p.threads.set t x.stop } : Process).thread =
      Function.update p.thread t none := thread_set hx x.stop p.loops p.aborted
  constructor
  · rw [hthread]
    exact h.tids.stop t
  · rw [hthread]
    apply h.slots.spare
    · intro l o ho
      obtain ⟨hget, halive⟩ := loop_eq_some.1 ho
      exact hscoped o (List.mem_of_getElem? hget) halive
    · intro x hx
      cases hx

theorem thread_keep {p : Process} {t : Nat} {x : OsThread} (hx : p.thread t = some x)
    (x' : OsThread) (hrunning : x'.running = x.running) (loops : List LoopObject)
    (aborted : Bool) :
    (⟨p.threads.set t x', loops, aborted⟩ : Process).thread =
      Function.update p.thread t (some x') := by
  rw [thread_set hx, hrunning, if_pos (thread_eq_some.1 hx).2]

theorem Inv.tid {p : Process} (h : Inv p) {t : Nat} {x : OsThread} (hx : p.thread t = some x)
    (aborted : Bool) : Inv ⟨p.threads.set t x.cacheTid, p.loops, aborted⟩ := by
  constructor
  · rw [thread_keep hx x.cacheTid rfl]
    exact h.tids.keep hx rfl (.inr rfl)
  · rw [thread_keep hx x.cacheTid rfl]
    exact h.slots.cacheTid hx

theorem Inv.construct {p : Process} (h : Inv p) {t : Nat} {x : OsThread}
    (hx : p.thread t = some x) : Inv (p.construct t x) := by
  rw [Process.construct]
  split
  · exact h.tid hx true
  · rename_i hslot
    have hnew : p.loop p.loops.length = none := by
      rw [loop, List.getElem?_eq_none (Nat.le_refl _)]
      rfl
    constructor
    · rw [thread_keep hx (x.enter p.loops.length) rfl]
      exact h.tids.keep hx rfl (.inr rfl)
    · have hloop := filter_append (fun o : LoopObject => o.alive) p.loops
        (rfl : (⟨x.tid, t, true⟩ : LoopObject).alive = true)
      rw [thread_keep hx (x.enter p.loops.length) rfl]
      show Slots _ (fun l => (p.loops ++ [⟨x.tid, t, true⟩])[l]?.filter fun o => o.alive)
      rw [hloop]
      exact h.slots.enter h.tids hx hslot hnew

theorem Inv.destruct {p : Process} (h : Inv p) {t l : Nat} {x : OsThread} {o : LoopObject}
    (hx : p.thread t = some x) (ho : p.loop l = some o) (hscoped : Scoped p (.destruct t l)) :
    Inv (p.destruct t x l o) := by
  have hloop := filter_set (fun o : LoopObject => o.alive) (loop_eq_some.1 ho).1
    { o with alive := false }
  constructor
  · rw [Process.destruct, thread_keep hx x.leave rfl]
    exact h.tids.keep hx rfl (.inl rfl)
  · rw [Process.destruct, thread_keep hx x.leave rfl]
    show Slots _ (fun m => (p.loops.set l { o with alive := false })[m]?.filter fun o => o.alive)
    rw [hloop]
    exact h.slots.leave ho (hscoped o ho)

theorem Inv.step {p p' : Process} {a : Action} (h : Inv p) (hscoped : Scoped p a)
    (hs : p.step a = some p') : Inv p' := by
  unfold Process.step at hs
  split at hs
  · cases hs
  cases a with
  | startThread tid =>
      dsimp only at hs
      split at hs
      · rename_i hfree
        cases hs
        exact h.startThread hfree
      · cases hs
  | endThread t =>
      obtain ⟨x, hx, rfl⟩ := Option.map_eq_some_iff.1 hs
      exact h.endThread hx hscoped
  | tid t =>
      obtain ⟨x, hx, rfl⟩ := Option.map_eq_some_iff.1 hs
      exact h.tid hx p.aborted
  | construct t =>
      obtain ⟨x, hx, rfl⟩ := Option.map_eq_some_iff.1 hs
      exact h.construct hx
  | destruct t l =>
      obtain ⟨x, hx, hs⟩ := Option.bind_eq_some_iff.1 hs
      obtain ⟨o, ho, rfl⟩ := Option.map_eq_some_iff.1 hs
      exact h.destruct hx ho hscoped

theorem inv_of_reach {p : Process} (h : machine.Reach Scoped p) : Inv p := by
  apply h.invariant
  · rintro p ⟨tid, htid, rfl⟩
    exact .new htid
  · intro p a p' hp hscoped hs
    exact hp.step hscoped hs

/-! ## Loops and threads -/

structure Confined (p : Process) : Prop where
  /-- `IsInLoopThread` is true on the thread of the constructor, and on no other. -/
  inLoopThread : ∀ t x l o, p.thread t = some x → p.loop l = some o →
    (isInLoopThread x o = true ↔ o.creator = t)
  running : ∀ l o, p.loop l = some o → (p.thread o.creator).isSome = true
  oneLoop : ∀ l m o o', p.loop l = some o → p.loop m = some o' → o.creator = o'.creator → l = m
  /-- The constructor ends the process where the thread has a loop already, and only there. -/
  fatal : ∀ t p', p.step (.construct t) = some p' →
    (p'.aborted = true ↔ ∃ l o, p.loop l = some o ∧ o.creator = t)

theorem Inv.isInLoopThread_iff {p : Process} (h : Inv p) {t l : Nat} {x : OsThread}
    {o : LoopObject} (hx : p.thread t = some x) (ho : p.loop l = some o) :
    isInLoopThread x o = true ↔ o.creator = t := by
  obtain ⟨y, hy, -, htid⟩ := h.slots.slot l o ho
  rw [isInLoopThread, beq_iff_eq, htid, h.tids.tid_eq hx]
  constructor
  · intro heq
    exact h.tids.distinct _ _ y x hy hx heq
  · rintro rfl
    rw [hx, Option.some.injEq] at hy
    rw [hy]

theorem Inv.oneLoop {p : Process} (h : Inv p) {l m : Nat} {o o' : LoopObject}
    (ho : p.loop l = some o) (ho' : p.loop m = some o') (heq : o.creator = o'.creator) :
    l = m := by
  obtain ⟨x, hx, hl, -⟩ := h.slots.slot l o ho
  obtain ⟨y, hy, hm, -⟩ := h.slots.slot m o' ho'
  rw [← heq, hx, Option.some.injEq] at hy
  rw [← hy, hl, Option.some.injEq] at hm
  exact hm

theorem Inv.fatal_iff {p p' : Process} (h : Inv p) {t : Nat}
    (hs : p.step (.construct t) = some p') :
    p'.aborted = true ↔ ∃ l o, p.loop l = some o ∧ o.creator = t := by
  unfold Process.step at hs
  split at hs
  · cases hs
  · rename_i haborted
    obtain ⟨x, hx, rfl⟩ := Option.map_eq_some_iff.1 hs
    rw [Process.construct]
    split
    · rename_i l hl
      obtain ⟨o, ho⟩ := h.slots.owner t x l hx hl
      exact ⟨fun _ => ⟨l, o, ho⟩, fun _ => rfl⟩
    · rename_i hnone
      refine ⟨fun hp => absurd hp haborted, ?_⟩
      rintro ⟨l, o, ho, rfl⟩
      obtain ⟨y, hy, hl, -⟩ := h.slots.slot l o ho
      rw [hx, Option.some.injEq] at hy
      rw [← hy, hnone] at hl
      cases hl

/-- Loops that are local variables of their threads keep to them in every run, although the
kernel gives ids again. -/
theorem loops_confined {p : Process} (h : machine.Reach Scoped p) : Confined p := by
  have hinv := inv_of_reach h
  refine ⟨?_, ?_, ?_, ?_⟩
  · intro t x l o hx ho
    exact hinv.isInLoopThread_iff hx ho
  · intro l o ho
    obtain ⟨x, hx, -⟩ := hinv.slots.slot l o ho
    rw [hx]
    rfl
  · intro l m o o' ho ho' heq
    exact hinv.oneLoop ho ho' heq
  · intro t p' hs
    exact hinv.fatal_iff hs

/-- The second thread has the id the first one had, and a loop of its own. -/
theorem loops_confined_tid_reused : ∃ p : Process,
    (p.loop 1 = some ⟨8, 2, true⟩ ∧ p.loop 0 = none) ∧ Confined p := by
  have hrun := Machine.Reach.of_test machine Scoped
    (fun p => p.loop 1 = some ⟨8, 2, true⟩ ∧ p.loop 0 = none)
    [.startThread 8, .construct 1, .destruct 1 0, .endThread 1, .startThread 8, .construct 2]
    (.start ⟨7, by decide, rfl⟩) (by decide +kernel)
  obtain ⟨p, hp, htest⟩ := hrun
  exact ⟨p, of_decide_eq_true htest, loops_confined hp⟩

end Process

end MyNetLib
