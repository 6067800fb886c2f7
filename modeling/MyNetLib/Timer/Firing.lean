import MyNetLib.Timer.TimerManager

/-! # How often and when a timer fires

A timer's life is a matter of its own fields, of its one place in the queue and
of the root, which is the running timer's as long as its callback runs: a timer
added meanwhile is due later than the pass began.
-/

namespace MyNetLib.TimerManager

open Library

namespace Record

/-- The clock reading the next deadline counts from. -/
def latest (r : Record) : Nat := r.runs.getLast?.getD r.addedAt

/-- Each run is at least the interval after the one before, the first one after
`AddTimer`. -/
def Spaced (r : Record) : Prop :=
  (r.addedAt :: r.runs).IsChain fun a b : Nat => (a : Int) + r.interval.toInt ≤ b

theorem Spaced.run {r : Record} {now : Nat} (h : r.Spaced)
    (hdue : (r.latest : Int) + r.interval.toInt ≤ now) :
    Record.Spaced { r with runs := r.runs ++ [now] } := by
  rw [Spaced, ← List.cons_append, List.isChain_append]
  refine ⟨h, List.isChain_singleton now, ?_⟩
  intro a ha b hb
  rw [List.getLast?_cons, Option.mem_some_iff] at ha
  rw [List.head?_cons, Option.mem_some_iff] at hb
  rw [← ha, ← hb]
  exact hdue

end Record

/-- No reading of the clock and no interval is large enough to wrap. -/
theorem deadline_eq {now : Nat} {interval : Int64} (hnow : now < 2 ^ 63)
    (hinterval : 0 < interval.toInt) :
    (Timer.deadline now interval : Int) = now + interval.toInt := by
  have hlt := interval.toInt_lt
  rw [Timer.deadline, Int.emod_eq_of_lt (by omega) (by omega)]
  omega

theorem decRepeatTimes_toInt {t : Timer} (h : 0 < t.repeatedTimes.toInt) :
    t.decRepeatTimes.repeatedTimes.toInt = t.repeatedTimes.toInt - 1 := by
  have hlt := t.repeatedTimes.toInt_lt
  rw [Timer.decRepeatTimes, Int32.toInt_sub, Int32.toInt_one, Int.bmod_eq_of_le] <;> omega

namespace System

/-- A timer waits in the queue, runs as its root, or has run out and is gone. -/
inductive Life (s : System) (t : Nat) (r : Record) : Prop
  | waiting (timer : Timer) : s.manager.timers.get t = some timer →
      (∀ now, s.pc ≠ .running now t) → s.manager.timersQue.count t = 1 →
      timer.interval = r.interval → 0 ≤ timer.repeatedTimes.toInt →
      timer.repeatedTimes.toInt + r.runs.length = r.repeatedTimes.toInt →
      (timer.expiredTime : Int) = r.latest + r.interval.toInt → Life s t r
  | running (timer : Timer) (now : Nat) : s.manager.timers.get t = some timer →
      s.pc = .running now t → s.manager.timersQue.count t = 1 →
      timer.interval = r.interval → 0 ≤ timer.repeatedTimes.toInt →
      timer.repeatedTimes.toInt + r.runs.length = r.repeatedTimes.toInt + 1 →
      timer.expiredTime ≤ now → r.latest = now → Life s t r
  | done : s.manager.timers.get t = none → (∀ now, s.pc ≠ .running now t) →
      s.manager.timersQue.count t = 0 → (r.runs.length : Int) = r.repeatedTimes.toInt + 1 →
      Life s t r

/-- The clock reading of the present pass. -/
def passTime (s : System) : Option Nat :=
  match s.pc with
  | .idle => none
  | .checking now => some now
  | .running now _ => some now

structure Sound (s : System) : Prop where
  known : ∀ t ∈ s.manager.timersQue, ∃ r, s.record t = some r
  fresh : ∀ t r, s.record t = some r → t < s.manager.timers.next
  life : ∀ t r, s.record t = some r → r.Spaced ∧ 0 < r.interval.toInt ∧ Life s t r
  root : ∀ now t, s.pc = .running now t →
    BinaryHeap.top s.manager.timersQue = some t ∧ ∃ r, s.record t = some r
  pass : ∀ now, s.passTime = some now → now ≤ s.clock ∧ now < 2 ^ 63

variable {s s' : System} {t : Nat} {r : Record}

theorem Life.frame (h : Life s t r)
    (hget : s'.manager.timers.get t = s.manager.timers.get t)
    (hcount : s'.manager.timersQue.count t = s.manager.timersQue.count t)
    (hpc : ∀ now, s'.pc = .running now t ↔ s.pc = .running now t) : Life s' t r := by
  have hnot : (∀ now, s.pc ≠ .running now t) → ∀ now, s'.pc ≠ .running now t :=
    fun h now hrun => h now ((hpc now).1 hrun)
  cases h with
  | waiting timer hg hp hc hi hk hruns he =>
      exact .waiting timer (hget.trans hg) (hnot hp) (hcount.trans hc) hi hk hruns he
  | running timer now hg hp hc hi hk hruns he hl =>
      exact .running timer now (hget.trans hg) ((hpc now).2 hp) (hcount.trans hc) hi hk hruns he hl
  | done hg hp hc hruns => exact .done (hget.trans hg) (hnot hp) (hcount.trans hc) hruns

/-- The runs the firing law is about: counts are not negative and nobody calls
`RemoveTimer`. -/
def Regular (_ : System) : Action → Prop
  | .addTimer _ repeatedTimes _ => 0 ≤ repeatedTimes.toInt
  | .removeTimer _ => False
  | _ => True

theorem Sound.initial (h : Initial s) : Sound s := by
  constructor
  · intro t ht
    rw [h.manager] at ht
    cases ht
  · intro t r hr
    rw [h.record t] at hr
    cases hr
  · intro t r hr
    rw [h.record t] at hr
    cases hr
  · intro now t hpc
    rw [h.pc] at hpc
    cases hpc
  · intro now hpass
    rw [passTime, h.pc] at hpass
    cases hpass

/-! ## What a step can do -/

/-- Every step of a regular run, with its guard and its effect. -/
inductive Move (s s' : System) : Prop
  | ignored : s' = s → Move s s'
  | passes (pc : Pc) : (∀ now t, s.pc ≠ .running now t) → (∀ now t, pc ≠ .running now t) →
      s.clock ≤ s'.clock → (∀ now, s'.passTime = some now → now ≤ s'.clock ∧ now < 2 ^ 63) →
      s' = { s with pc := pc, clock := s'.clock } → Move s s'
  | adds (now : Nat) (timer : Timer) : s.readable now = true → 0 < timer.interval.toInt →
      0 ≤ timer.repeatedTimes.toInt → timer.expiredTime = Timer.deadline now timer.interval →
      s'.manager.timers = s.manager.timers.alloc timer →
      s'.manager.timersQue = BinaryHeap.push (cmp (s.manager.timers.alloc timer))
        s.manager.timersQue s.manager.timers.next →
      s'.pc = s.pc → s'.clock = now →
      s'.record = Function.update s.record s.manager.timers.next
        (some ⟨now, timer.repeatedTimes, timer.interval, []⟩) → Move s s'
  | runs (now t : Nat) (timer : Timer) : s.pc = .checking now →
      BinaryHeap.top s.manager.timersQue = some t → s.manager.timers.get t = some timer →
      timer.expiredTime ≤ now → s' = s.startRun now t → Move s s'
  | ends (now t : Nat) (timer : Timer) : s.pc = .running now t →
      s.manager.timers.get t = some timer → timer.repeatedTimes = 0 →
      s'.manager.timers = s.manager.timers.free t →
      s'.manager.timersQue = BinaryHeap.pop (cmp s.manager.timers) s.manager.timersQue →
      s'.pc = .checking now → s'.clock = s.clock → s'.record = s.record → Move s s'
  | requeues (now t : Nat) (timer timer' : Timer) : s.pc = .running now t →
      s.manager.timers.get t = some timer → timer.repeatedTimes ≠ 0 →
      timer' = (timer.setExpiredTime (Timer.deadline now timer.interval)).decRepeatTimes →
      s'.manager.timers = s.manager.timers.put t timer' →
      s'.manager.timersQue = BinaryHeap.push (cmp (s.manager.timers.put t timer'))
        (BinaryHeap.pop (cmp (s.manager.timers.put t timer')) s.manager.timersQue) t →
      s'.pc = .checking now → s'.clock = s.clock → s'.record = s.record → Move s s'

theorem callbackReturns_move {now t : Nat} {m : TimerManager} (hpc : s.pc = .running now t)
    (hm : s.manager.afterRun now t = some m) :
    Move s { s with manager := m, pc := .checking now } := by
  rw [afterRun] at hm
  split at hm
  · cases hm
  · rename_i timer hget
    split at hm
    · rename_i hzero
      cases hm
      exact .ends now t timer hpc hget hzero rfl rfl rfl rfl rfl
    · rename_i hmore
      cases hm
      exact .requeues now t timer _ hpc hget hmore rfl rfl rfl rfl rfl rfl

theorem step_move {a : Action} (hg : Regular s a) (hs : s.step a = some s') :
    Move s s' := by
  cases step_transition hs with
  | ignored now k interval _ => exact .ignored rfl
  | adds now k interval _ hpositive hclock hnow =>
      have hinterval : 0 < interval.toInt := by
        rw [Int64.le_iff_toInt_le, Int64.toInt_zero] at hpositive
        omega
      refine .adds now ⟨Timer.deadline now interval, k, interval⟩ ?_ hinterval hg rfl
        ?_ ?_ rfl rfl rfl
      · rw [readable, Bool.and_eq_true, decide_eq_true_eq, decide_eq_true_eq]
        exact ⟨hclock, hnow⟩
      · simp only [addTimer, if_neg hpositive]
      · simp only [addTimer, if_neg hpositive]
  | removes t _ => exact absurd hg id
  | begins now hpc hclock hnow =>
      refine .passes (.checking now) (by simp [hpc]) (by simp) hclock ?_ rfl
      intro now' hpass
      cases hpass
      exact ⟨le_rfl, hnow⟩
  | ends now hpc _ =>
      refine .passes .idle (by simp [hpc]) (by simp) le_rfl ?_ rfl
      intro now' hpass
      cases hpass
  | runs now t timer hpc htop hget hdue => exact .runs now t timer hpc htop hget hdue rfl
  | returns now t m hpc hm => exact callbackReturns_move hpc hm

/-! ## `AddTimer` -/

/-- A new deadline is after the present pass, so the running timer keeps the root. -/
theorem Sound.push_keeps_root (h : Sound s) {now₀ now t₀ : Nat} {timer : Timer}
    (hpc : s.pc = .running now₀ t₀) (hnow : s.clock ≤ now)
    (hexpired : (now : Int) < timer.expiredTime) :
    BinaryHeap.top (BinaryHeap.push (cmp (s.manager.timers.alloc timer)) s.manager.timersQue
      s.manager.timers.next) = some t₀ := by
  obtain ⟨htop, r, hr⟩ := h.root now₀ t₀ hpc
  have hpass := h.pass now₀ (by rw [passTime, hpc])
  obtain ⟨_, _, hlife⟩ := h.life t₀ r hr
  apply BinaryHeap.push_top _ htop
  cases hlife with
  | waiting _ _ hp _ _ _ _ _ => exact absurd hpc (hp now₀)
  | done _ hp _ _ => exact absurd hpc (hp now₀)
  | running timer₀ now₁ hg hp _ _ _ _ hdue _ =>
      rw [hpc] at hp
      cases hp
      exact cmp_alloc_of_later hg (by omega)

theorem Sound.adds (h : Sound s) {now : Nat} {timer : Timer} (hread : s.readable now = true)
    (hinterval : 0 < timer.interval.toInt) (hk : 0 ≤ timer.repeatedTimes.toInt)
    (hexpired : timer.expiredTime = Timer.deadline now timer.interval)
    (htimers : s'.manager.timers = s.manager.timers.alloc timer)
    (hque : s'.manager.timersQue = BinaryHeap.push (cmp (s.manager.timers.alloc timer))
      s.manager.timersQue s.manager.timers.next)
    (hpc : s'.pc = s.pc) (hclock : s'.clock = now)
    (hrecord : s'.record = Function.update s.record s.manager.timers.next
      (some ⟨now, timer.repeatedTimes, timer.interval, []⟩)) : Sound s' := by
  simp only [readable, Bool.and_eq_true, decide_eq_true_eq] at hread
  have hdeadline := deadline_eq hread.2 hinterval
  rw [← hexpired] at hdeadline
  have hperm : s'.manager.timersQue.Perm (s.manager.timers.next :: s.manager.timersQue) := by
    rw [hque]
    exact BinaryHeap.push_perm ..
  have hnext : s'.manager.timers.next = s.manager.timers.next + 1 := by
    simp [htimers, Heap.next, Heap.alloc]
  have hnew : ∀ r, s.record s.manager.timers.next ≠ some r := by
    intro r hr
    exact absurd (h.fresh _ r hr) (Nat.lt_irrefl _)
  have hold : ∀ t, t ≠ s.manager.timers.next → s'.record t = s.record t := by
    intro t hne
    rw [hrecord, Function.update_of_ne hne]
  have hne : ∀ t r, s.record t = some r → t ≠ s.manager.timers.next :=
    fun t r hr => (h.fresh t r hr).ne
  constructor
  · intro t ht
    rcases List.mem_cons.1 (hperm.mem_iff.1 ht) with rfl | hmem
    · exact ⟨_, by rw [hrecord, Function.update_self]⟩
    · obtain ⟨r, hr⟩ := h.known t hmem
      exact ⟨r, (hold t (hne t r hr)).trans hr⟩
  · intro t r hr
    by_cases heq : t = s.manager.timers.next
    · omega
    · rw [hold t heq] at hr
      have hlt := h.fresh t r hr
      omega
  · intro t r hr
    by_cases heq : t = s.manager.timers.next
    · subst heq
      have hcount : s.manager.timersQue.count s.manager.timers.next = 0 := by
        rw [List.count_eq_zero]
        intro hmem
        obtain ⟨r, hr⟩ := h.known _ hmem
        exact hnew r hr
      rw [hrecord, Function.update_self, Option.some.injEq] at hr
      subst hr
      refine ⟨List.isChain_singleton _, hinterval, ?_⟩
      apply Life.waiting timer
      · rw [htimers, Heap.get_alloc_next]
      · intro now₀ hrun
        rw [hpc] at hrun
        obtain ⟨_, r, hr⟩ := h.root now₀ _ hrun
        exact hnew r hr
      · rw [hperm.count_eq, List.count_cons_self, hcount]
      · rfl
      · exact hk
      · simp
      · exact hdeadline
    · rw [hold t heq] at hr
      obtain ⟨hspaced, hpos, hlife⟩ := h.life t r hr
      refine ⟨hspaced, hpos, hlife.frame ?_ ?_ ?_⟩
      · rw [htimers, Heap.get_alloc_of_ne heq]
      · rw [hperm.count_eq, List.count_cons_of_ne (Ne.symm heq)]
      · intro now₀
        rw [hpc]
  · intro now₀ t hrun
    rw [hpc] at hrun
    obtain ⟨_, r, hr⟩ := h.root now₀ t hrun
    refine ⟨?_, r, (hold t (hne t r hr)).trans hr⟩
    rw [hque]
    exact h.push_keeps_root hrun hread.1 (by omega)
  · intro now₀ hpass
    have hbound := h.pass now₀ (by rw [← hpass, passTime, passTime, hpc])
    exact ⟨by omega, hbound.2⟩

/-! ## The pass -/

theorem Sound.passes (h : Sound s) {pc : Pc} (hold : ∀ now t, s.pc ≠ .running now t)
    (hnew : ∀ now t, pc ≠ .running now t)
    (hpass : ∀ now, s'.passTime = some now → now ≤ s'.clock ∧ now < 2 ^ 63)
    (hs' : s' = { s with pc := pc, clock := s'.clock }) : Sound s' := by
  have hpc : s'.pc = pc := by rw [hs']
  have hmanager : s'.manager = s.manager := by rw [hs']
  have hrecord : s'.record = s.record := by rw [hs']
  constructor
  · rw [hmanager, hrecord]
    exact h.known
  · rw [hmanager, hrecord]
    exact h.fresh
  · intro t r hr
    rw [hrecord] at hr
    obtain ⟨hspaced, hpos, hlife⟩ := h.life t r hr
    refine ⟨hspaced, hpos, hlife.frame (by rw [hmanager]) (by rw [hmanager]) ?_⟩
    intro now
    rw [hpc]
    exact ⟨fun hp => absurd hp (hnew now t), fun hp => absurd hp (hold now t)⟩
  · intro now t hp
    rw [hpc] at hp
    exact absurd hp (hnew now t)
  · exact hpass

/-- The root is due: its run comes at least an interval after what its deadline
counted from. -/
theorem Sound.runs (h : Sound s) {now t : Nat} {timer : Timer} (hpc : s.pc = .checking now)
    (htop : BinaryHeap.top s.manager.timersQue = some t)
    (hget : s.manager.timers.get t = some timer) (hdue : timer.expiredTime ≤ now) :
    Sound (s.startRun now t) := by
  obtain ⟨r, hr⟩ := h.known t (List.mem_of_getElem? htop)
  have hrecord : (s.startRun now t).record t = some { r with runs := r.runs ++ [now] } := by
    simp [startRun, hr]
  have hother : ∀ t', t' ≠ t → (s.startRun now t).record t' = s.record t' := by
    intro t' hne
    simp [startRun, hne]
  have hbound := h.pass now (by rw [passTime, hpc])
  constructor
  · intro t' ht'
    by_cases heq : t' = t
    · exact ⟨_, by rw [heq]; exact hrecord⟩
    · rw [hother t' heq]
      exact h.known t' ht'
  · intro t' r' hr'
    by_cases heq : t' = t
    · rw [heq]
      exact h.fresh t r hr
    · rw [hother t' heq] at hr'
      exact h.fresh t' r' hr'
  · intro t' r' hr'
    by_cases heq : t' = t
    · subst heq
      rw [hrecord, Option.some.injEq] at hr'
      subst hr'
      obtain ⟨hspaced, hpos, hlife⟩ := h.life t' r hr
      cases hlife with
      | running _ now' _ hrun _ _ _ _ _ _ =>
          rw [hpc] at hrun
          cases hrun
      | done hnone _ _ _ =>
          rw [hget] at hnone
          cases hnone
      | waiting timer' hg _ hcount hinterval hk hruns hexpired =>
          rw [hget, Option.some.injEq] at hg
          subst hg
          refine ⟨hspaced.run (by omega), hpos, ?_⟩
          refine .running timer now hget rfl hcount hinterval hk ?_ hdue ?_
          · simp only [List.length_append, List.length_singleton, Nat.cast_add, Nat.cast_one]
            omega
          · simp [Record.latest]
    · rw [hother t' heq] at hr'
      obtain ⟨hspaced, hpos, hlife⟩ := h.life t' r' hr'
      refine ⟨hspaced, hpos, hlife.frame rfl rfl ?_⟩
      intro now'
      simp [startRun, hpc, Ne.symm heq]
  · intro now' t' hrun
    cases hrun
    exact ⟨htop, _, hrecord⟩
  · intro now' hpass
    cases hpass
    exact hbound

/-- The timer that ran is the root: the pop takes it out and no other. -/
theorem Sound.pop_running (h : Sound s) {now t : Nat} (hpc : s.pc = .running now t)
    (timers : Heap Timer) :
    s.manager.timersQue.Perm (t :: BinaryHeap.pop (cmp timers) s.manager.timersQue) := by
  have htop := (h.root now t hpc).1
  cases hque : s.manager.timersQue with
  | nil =>
      rw [hque] at htop
      cases htop
  | cons root rest =>
      rw [hque, BinaryHeap.top, List.getElem?_cons_zero, Option.some.injEq] at htop
      subst htop
      exact (BinaryHeap.pop_perm (cmp timers) root rest).symm.cons root

theorem Sound.returns (h : Sound s) {now t : Nat} (hpc : s.pc = .running now t)
    (hnext : s'.manager.timers.next = s.manager.timers.next)
    (hget : ∀ t', t' ≠ t → s'.manager.timers.get t' = s.manager.timers.get t')
    (hmem : ∀ t', t' ∈ s'.manager.timersQue → t' ∈ s.manager.timersQue)
    (hcount : ∀ t', t' ≠ t →
      s'.manager.timersQue.count t' = s.manager.timersQue.count t')
    (hpc' : s'.pc = .checking now) (hclock : s'.clock = s.clock) (hrecord : s'.record = s.record)
    (hlife : ∀ r, s.record t = some r → Life s t r → 0 < r.interval.toInt → Life s' t r) :
    Sound s' := by
  constructor
  · intro t' ht'
    rw [hrecord]
    exact h.known t' (hmem t' ht')
  · rw [hnext, hrecord]
    exact h.fresh
  · intro t' r hr
    rw [hrecord] at hr
    obtain ⟨hspaced, hpos, hold⟩ := h.life t' r hr
    refine ⟨hspaced, hpos, ?_⟩
    by_cases heq : t' = t
    · subst heq
      exact hlife r hr hold hpos
    · refine hold.frame (hget t' heq) (hcount t' heq) ?_
      intro now'
      rw [hpc', hpc]
      simp [Ne.symm heq]
  · intro now' t' hrun
    rw [hpc'] at hrun
    cases hrun
  · intro now' hpass
    rw [passTime, hpc'] at hpass
    cases hpass
    rw [hclock]
    exact h.pass now (by rw [passTime, hpc])

theorem Sound.ends (h : Sound s) {now t : Nat} {timer : Timer} (hpc : s.pc = .running now t)
    (hget : s.manager.timers.get t = some timer) (hzero : timer.repeatedTimes = 0)
    (htimers : s'.manager.timers = s.manager.timers.free t)
    (hque : s'.manager.timersQue = BinaryHeap.pop (cmp s.manager.timers) s.manager.timersQue)
    (hpc' : s'.pc = .checking now) (hclock : s'.clock = s.clock)
    (hrecord : s'.record = s.record) : Sound s' := by
  have hperm := h.pop_running hpc s.manager.timers
  rw [← hque] at hperm
  refine h.returns hpc (by rw [htimers, Heap.next_free]) ?_ ?_ ?_ hpc' hclock hrecord ?_
  · intro t' hne
    rw [htimers, Heap.get_free_of_ne hne]
  · intro t' ht'
    exact hperm.mem_iff.2 (List.mem_cons_of_mem t ht')
  · intro t' hne
    rw [hperm.count_eq, List.count_cons_of_ne (Ne.symm hne)]
  · intro r _ hlife _
    cases hlife with
    | waiting _ _ hnot _ _ _ _ _ => exact absurd hpc (hnot now)
    | done _ hnot _ _ => exact absurd hpc (hnot now)
    | running timer' now' hg _ hcount _ _ hruns _ _ =>
        rw [hget, Option.some.injEq] at hg
        subst hg
        rw [hzero, Int32.toInt_zero] at hruns
        rw [hperm.count_eq, List.count_cons_self] at hcount
        refine .done ?_ (by simp [hpc']) (by omega) (by omega)
        rw [htimers, Heap.get_free_self]

theorem Sound.requeues (h : Sound s) {now t : Nat} {timer timer' : Timer}
    (hpc : s.pc = .running now t) (hget : s.manager.timers.get t = some timer)
    (hmore : timer.repeatedTimes ≠ 0)
    (htimer : timer' = (timer.setExpiredTime (Timer.deadline now timer.interval)).decRepeatTimes)
    (htimers : s'.manager.timers = s.manager.timers.put t timer')
    (hque : s'.manager.timersQue = BinaryHeap.push (cmp (s.manager.timers.put t timer'))
      (BinaryHeap.pop (cmp (s.manager.timers.put t timer')) s.manager.timersQue) t)
    (hpc' : s'.pc = .checking now) (hclock : s'.clock = s.clock)
    (hrecord : s'.record = s.record) : Sound s' := by
  have hperm : s'.manager.timersQue.Perm s.manager.timersQue := by
    rw [hque]
    exact (BinaryHeap.push_perm ..).trans (h.pop_running hpc _).symm
  refine h.returns hpc (by rw [htimers, Heap.next_put]) ?_ ?_ ?_ hpc' hclock hrecord ?_
  · intro t' hne
    rw [htimers, Heap.get_put_of_ne hne]
  · intro t' ht'
    exact hperm.mem_iff.1 ht'
  · intro t' _
    exact hperm.count_eq t'
  · intro r _ hlife hpos
    cases hlife with
    | waiting _ _ hnot _ _ _ _ _ => exact absurd hpc (hnot now)
    | done _ hnot _ _ => exact absurd hpc (hnot now)
    | running timer₁ now₁ hg hrun hcount hinterval hk hruns _ hlatest =>
        rw [hget, Option.some.injEq] at hg
        subst hg
        rw [hpc, Pc.running.injEq] at hrun
        have hpositive : 0 < timer.repeatedTimes.toInt := by
          have hne : timer.repeatedTimes.toInt ≠ 0 := by
            intro hzero
            exact hmore (Int32.toInt_inj.1 (hzero.trans Int32.toInt_zero.symm))
          omega
        have hdec : timer'.repeatedTimes.toInt = timer.repeatedTimes.toInt - 1 := by
          rw [htimer]
          exact decRepeatTimes_toInt hpositive
        have hbound := h.pass now (by rw [passTime, hpc])
        apply Life.waiting timer'
        · rw [htimers, Heap.get_put_self hget]
        · simp [hpc']
        · rw [hperm.count_eq, hcount]
        · rw [htimer]
          exact hinterval
        · omega
        · omega
        · rw [htimer, hlatest, ← hrun.1, ← hinterval]
          exact deadline_eq hbound.2 (by rw [hinterval]; exact hpos)

theorem Sound.step {a : Action} (h : Sound s) (hg : Regular s a) (hs : s.step a = some s') :
    Sound s' := by
  cases step_move hg hs with
  | ignored hs' =>
      rw [hs']
      exact h
  | passes pc hold hnew _ hpass hs' => exact h.passes hold hnew hpass hs'
  | adds now timer hread hinterval hk hexpired htimers hque hpc hclock hrecord =>
      exact h.adds hread hinterval hk hexpired htimers hque hpc hclock hrecord
  | runs now t timer hpc htop hget hdue hs' =>
      rw [hs']
      exact h.runs hpc htop hget hdue
  | ends now t timer hpc hget hzero htimers hque hpc' hclock hrecord =>
      exact h.ends hpc hget hzero htimers hque hpc' hclock hrecord
  | requeues now t timer timer' hpc hget hmore htimer htimers hque hpc' hclock hrecord =>
      exact h.requeues hpc hget hmore htimer htimers hque hpc' hclock hrecord

theorem sound_of_reach (h : machine.Reach Regular s) : Sound s := by
  apply h.invariant
  · intro s hs
    exact Sound.initial hs
  · intro s a s' hI hg hs
    exact hI.step hg hs

/-! ## The firing law -/

/-- In every run, for every timer ever added with count `k`: at most `k + 1`
runs; one place in the queue until the callback of run `k + 1` has returned and
none afterwards; the first run an interval after `AddTimer` or later, and
consecutive runs at least an interval apart. -/
theorem timer_fires_spaced (s : System) (h : machine.Reach Regular s) (t : Nat) (r : Record)
    (hr : s.record t = some r) :
    (r.runs.length : Int) ≤ r.repeatedTimes.toInt + 1 ∧
    ((r.runs.length : Int) ≤ r.repeatedTimes.toInt ∨ (∃ now, s.pc = .running now t) →
      s.manager.timersQue.count t = 1) ∧
    ((r.runs.length : Int) = r.repeatedTimes.toInt + 1 → (∀ now, s.pc ≠ .running now t) →
      s.manager.timersQue.count t = 0) ∧
    (∀ first, r.runs.head? = some first → (r.addedAt : Int) + r.interval.toInt ≤ first) ∧
    r.runs.IsChain (fun a b : Nat => (a : Int) + r.interval.toInt ≤ b) := by
  obtain ⟨hspaced, _, hlife⟩ := (sound_of_reach h).life t r hr
  have hgaps : (∀ first, r.runs.head? = some first →
      (r.addedAt : Int) + r.interval.toInt ≤ first) ∧
      r.runs.IsChain (fun a b : Nat => (a : Int) + r.interval.toInt ≤ b) := by
    rw [Record.Spaced, List.isChain_cons] at hspaced
    exact hspaced
  cases hlife with
  | waiting timer _ _ hcount _ _ _ _ =>
      refine ⟨by omega, fun _ => hcount, ?_, hgaps⟩
      intro hall
      omega
  | running timer now _ hpc hcount _ _ _ _ _ =>
      refine ⟨by omega, fun _ => hcount, ?_, hgaps⟩
      intro _ hnot
      exact absurd hpc (hnot now)
  | done _ hnot hcount _ =>
      refine ⟨by omega, ?_, fun _ _ => hcount, hgaps⟩
      rintro (hmore | ⟨now, hrun⟩)
      · omega
      · exact absurd hrun (hnot now)

def fresh : System := ⟨.new, .idle, 0, fun _ => none⟩

/-- A timer with one repeat whose first callback adds a timer with none; three
passes, the last one late. -/
theorem timer_fires_spaced_nested :
    ∃ s r, machine.run fresh
        [.addTimer 100 1 50, .checkAndHandle 120, .loopHead, .checkAndHandle 150, .loopHead,
          .addTimer 160 0 5, .callbackReturns, .loopHead, .checkAndHandle 400, .loopHead,
          .callbackReturns, .loopHead, .callbackReturns, .loopHead] = some s ∧
      s.record 0 = some r ∧ r.runs = [150, 400] ∧ s.manager.timersQue.count 0 = 0 ∧
      r.runs.IsChain (fun a b : Nat => (a : Int) + r.interval.toInt ≤ b) := by
  have hrun : ∃ s r, machine.run fresh
      [.addTimer 100 1 50, .checkAndHandle 120, .loopHead, .checkAndHandle 150, .loopHead,
        .addTimer 160 0 5, .callbackReturns, .loopHead, .checkAndHandle 400, .loopHead,
        .callbackReturns, .loopHead, .callbackReturns, .loopHead] = some s ∧
      s.record 0 = some r ∧ r.runs = [150, 400] ∧ r.repeatedTimes = 1 ∧ s.pc = .idle :=
    ⟨_, _, rfl, rfl, rfl, rfl, rfl⟩
  obtain ⟨s, r, hs, hr, hruns, htimes, hidle⟩ := hrun
  have h₀ : machine.Reach Regular fresh := .start ⟨rfl, rfl, fun _ => rfl⟩
  have hreach : machine.Reach Regular s := by
    refine h₀.of_run _ ?_ hs
    simp [Regular]
  obtain ⟨_, _, hleft, _, hgaps⟩ := timer_fires_spaced s hreach 0 r hr
  refine ⟨s, r, hs, hr, hruns, hleft ?_ (by simp [hidle]), hgaps⟩
  rw [hruns, htimes]
  rfl

end System

end MyNetLib.TimerManager
