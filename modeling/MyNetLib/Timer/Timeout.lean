import MyNetLib.Timer.Pass

/-! # The timeout of the next poll

In every run, whatever callbacks add or remove, the queue is valid and no deadline is
the largest `unsigned long long`. So the subtraction of `GetRecentTimeout` is exact up
to the earliest deadline, and after it wraps.
-/

namespace MyNetLib.TimerManager

open Library

/-- Room is left above every deadline. -/
def Bounded (m : TimerManager) : Prop :=
  ∀ t ∈ m.timersQue, ∀ timer, m.timers.get t = some timer → timer.expiredTime < 2 ^ 64 - 1

variable {m m' : TimerManager} {now t : Nat} {timer : Timer} {c : Call}

theorem deadline_lt {interval : Int64} (hnow : now < 2 ^ 63) (hpos : 0 < interval.toInt) :
    Timer.deadline now interval < 2 ^ 64 - 1 := by
  have hdeadline := deadline_eq hnow hpos
  have hlt := interval.toInt_lt
  omega

theorem Bounded.call (h : Valid m) (hbound : Bounded m) (hc : c.Allowed 0) :
    Bounded (m.call c) := by
  obtain ⟨_, hcall⟩ := extends_call h c
  intro a ha timer hget
  by_cases hlt : a < m.timers.next
  · rw [hcall.same a ha hlt] at hget
    exact hbound a ((hcall.old a hlt).1 ha).1 timer hget
  · rw [hcall.new a ha (by omega)] at hget
    obtain ⟨d, hd, hmade⟩ := List.mem_filterMap.1 (List.mem_of_getElem? hget)
    rw [List.mem_singleton.1 hd] at hmade
    cases c with
    | removeTimer t => cases hmade
    | addTimer clock k interval =>
        simp only [Call.timer] at hmade
        split at hmade
        · cases hmade
        · rename_i hinterval
          rw [Int64.le_iff_toInt_le, Int64.toInt_zero] at hinterval
          cases hmade
          exact deadline_lt hc.2 (by omega)

theorem Bounded.afterRun (h : Valid m) (hbound : Bounded m) (hnow : now < 2 ^ 63)
    (htop : BinaryHeap.top m.timersQue = some t) (hrun : m.afterRun now t = some m') :
    Valid m' ∧ Bounded m' := by
  have ht : t ∈ m.timersQue := List.mem_of_getElem? htop
  obtain ⟨timer, hget, hpos⟩ := h.alive t ht
  obtain ⟨m'', hrun', hvalid, _, hothers, hself, hmem⟩ := h.afterRun now htop hget
  rw [hrun, Option.some.injEq] at hrun'
  subst hrun'
  refine ⟨hvalid, fun a ha timer' hget' => ?_⟩
  by_cases heq : a = t
  · rw [heq, hself, Timer.after] at hget'
    split at hget'
    · cases hget'
    · cases hget'
      exact deadline_lt hnow hpos
  · rw [hothers a heq] at hget'
    exact hbound a ((hmem a).1 ha).1 timer' hget'

namespace System

/-- What every reachable state keeps: a timer that is running is the root, or its
callback removed it. -/
structure Kept (s : System) : Prop where
  valid : Valid s.manager
  bounded : Bounded s.manager
  pass : ∀ now, s.passTime = some now → now ≤ s.clock ∧ now < 2 ^ 63
  root : ∀ now t, s.pc = .running now t →
    (BinaryHeap.top s.manager.timersQue = some t ∧
      ∃ timer, s.manager.timers.get t = some timer ∧ timer.expiredTime ≤ now) ∨
    (t < s.manager.timers.next ∧ s.manager.timers.get t = none)

variable {s s' : System} {a : Action}

theorem Kept.later (h : Kept s) {now : Nat} (hclock : s.clock ≤ now) :
    Kept { s with clock := now } :=
  ⟨h.valid, h.bounded,
    fun now' hpass => ⟨(h.pass now' hpass).1.trans hclock, (h.pass now' hpass).2⟩, h.root⟩

theorem Kept.initial (h : Initial s) : Kept s := by
  constructor
  · rw [h.manager]
    exact valid_new
  · intro t ht
    rw [h.manager] at ht
    cases ht
  · intro now hpass
    rw [passTime, h.pc] at hpass
    cases hpass
  · intro now t hrun
    rw [h.pc] at hrun
    cases hrun

theorem Kept.call (h : Kept s) (hc : c.Allowed s.clock) (hmanager : s'.manager = s.manager.call c)
    (hpc : s'.pc = s.pc) (hclock : s.clock ≤ s'.clock) : Kept s' := by
  obtain ⟨hvalid, hcall⟩ := extends_call h.valid c
  have hallowed : ∀ now, now ≤ s.clock → c.Allowed now := by
    intro now hnow
    cases c with
    | addTimer clock k interval => exact ⟨hnow.trans hc.1, hc.2⟩
    | removeTimer t => trivial
  have hpass : s'.passTime = s.passTime := by rw [passTime, hpc, passTime]
  constructor
  · rw [hmanager]
    exact hvalid
  · rw [hmanager]
    exact h.bounded.call h.valid (hallowed 0 (Nat.zero_le _))
  · intro now hnow
    have hbound := h.pass now (hpass ▸ hnow)
    exact ⟨hbound.1.trans hclock, hbound.2⟩
  · intro now t hrun
    rw [hpc] at hrun
    rw [hmanager]
    rcases h.root now t hrun with ⟨htop, timer, hget, hdue⟩ | ⟨hlt, hnone⟩
    · have ht : t ∈ s.manager.timersQue := List.mem_of_getElem? htop
      have hlt := h.valid.lt_next ht
      by_cases hself : Call.removeTimer t ∈ [c]
      · have hgone : t ∉ (s.manager.call c).timersQue :=
          fun hmem => ((hcall.old t hlt).1 hmem).2 hself
        have hnext := hcall.next
        exact Or.inr ⟨by omega, hcall.freed t ht hgone⟩
      · have hcs : ∀ d ∈ [c], d.Allowed now := by
          intro d hd
          rw [List.mem_singleton.1 hd]
          exact hallowed now (h.pass now (by rw [passTime, hrun])).1
        have htop' := calls_top h.valid htop hget hdue hcs hself
        refine Or.inl ⟨htop', timer, ?_, hdue⟩
        exact (hcall.same t (List.mem_of_getElem? htop') hlt).trans hget
    · have hnext := hcall.next
      exact Or.inr ⟨by omega, hcall.dead t hlt hnone⟩

theorem Kept.outside (h : Kept s) (hmanager : s'.manager = s.manager)
    (hpass : ∀ now, s'.passTime = some now → now ≤ s'.clock ∧ now < 2 ^ 63)
    (hout : ∀ now t, s'.pc ≠ .running now t) : Kept s' := by
  constructor
  · rw [hmanager]
    exact h.valid
  · rw [hmanager]
    exact h.bounded
  · exact hpass
  · exact fun now t hrun => absurd hrun (hout now t)

theorem Kept.step (h : Kept s) (hs : s.step a = some s') : Kept s' := by
  cases step_transition hs with
  | ignored now k interval _ => exact h
  | adds now k interval _ _ hclock hnow =>
      exact h.call (c := .addTimer now k interval) ⟨hclock, hnow⟩ rfl rfl hclock
  | removes t _ => exact h.call (c := .removeTimer t) trivial rfl rfl le_rfl
  | begins now _ _ hnow =>
      refine h.outside rfl (fun now' hpass => ?_) (fun _ _ => by simp)
      cases hpass
      exact ⟨le_rfl, hnow⟩
  | ends now _ _ => exact h.outside rfl (fun now' hpass => by cases hpass) (fun _ _ => by simp)
  | runs now t timer hpc htop hget hdue =>
      have hbound := h.pass now (by rw [passTime, hpc])
      refine ⟨h.valid, h.bounded, fun now' hpass => ?_, fun now' t' hrun => ?_⟩
      · cases hpass
        exact hbound
      · cases hrun
        exact Or.inl ⟨htop, timer, hget, hdue⟩
  | returns now t m hpc hm =>
      have hbound := h.pass now (by rw [passTime, hpc])
      rcases h.root now t hpc with ⟨htop, _⟩ | ⟨_, hnone⟩
      · obtain ⟨hvalid, hbounded⟩ := h.bounded.afterRun h.valid hbound.2 htop hm
        refine ⟨hvalid, hbounded, fun now' hpass => ?_, fun now' t' hrun => by cases hrun⟩
        cases hpass
        exact hbound
      · rw [afterRun, hnone] at hm
        cases hm

theorem kept_of_reach {guard : System → Action → Prop} (h : machine.Reach guard s) : Kept s := by
  apply h.invariant
  · intro s hs
    exact Kept.initial hs
  · intro s a s' hI _ hs
    exact hI.step hs

end System

/-! ## `GetRecentTimeout` -/

/-- `unsigned long long` subtraction is exact as long as it does not go below 0. -/
theorem sub_toNat {e : Nat} (he : e < 2 ^ 64) (hnow : now < 2 ^ 64) :
    (UInt64.ofNat e - UInt64.ofNat now).toNat = if now ≤ e then e - now else 2 ^ 64 - now + e := by
  rw [UInt64.toNat_sub, UInt64.toNat_ofNat', UInt64.toNat_ofNat', Nat.mod_eq_of_lt he,
    Nat.mod_eq_of_lt hnow]
  split <;> omega

theorem getRecentTimeout_eq (htop : BinaryHeap.top m.timersQue = some t)
    (hget : m.timers.get t = some timer) :
    m.getRecentTimeout now = some (UInt64.ofNat timer.expiredTime - UInt64.ofNat now) := by
  have hnot : ∀ timeout : UInt64, ¬ timeout < 0 := by
    intro timeout hlt
    exact absurd (UInt64.lt_iff_toNat_lt.1 hlt) (Nat.not_lt_zero _)
  simp [getRecentTimeout, htop, hget, hnot]

/-- In every run, with any timers queued and at any reading of the clock, the result is
the time left to the earliest deadline, and not the value for no timer, exactly when that
deadline has not passed. -/
theorem recentTimeout_iff (s : System) (h : System.machine.Reach (fun _ _ => True) s)
    (hne : s.manager.timersQue ≠ []) (now : Nat) (hnow : now < 2 ^ 64) :
    ∃ t timer, t ∈ s.manager.timersQue ∧ s.manager.timers.get t = some timer ∧
      (∀ a ∈ s.manager.timersQue, ∀ timer', s.manager.timers.get a = some timer' →
        timer.expiredTime ≤ timer'.expiredTime) ∧
      ((∃ timeout, s.manager.getRecentTimeout now = some timeout ∧
        timeout.toNat = timer.expiredTime - now ∧ timeout ≠ -1) ↔ now ≤ timer.expiredTime) := by
  have hkept := System.kept_of_reach h
  obtain ⟨t, timer, htop, ht, hget⟩ := hkept.valid.exists_top hne
  have hbound := hkept.bounded t ht timer hget
  have hsub := sub_toNat (e := timer.expiredTime) (by omega) hnow
  refine ⟨t, timer, ht, hget, hkept.valid.top_le htop hget, ?_⟩
  rw [getRecentTimeout_eq htop hget]
  constructor
  · rintro ⟨timeout, htimeout, hvalue, _⟩
    by_contra hpassed
    rw [Option.some.injEq] at htimeout
    rw [← htimeout, hsub, if_neg hpassed] at hvalue
    omega
  · intro hle
    rw [if_pos hle] at hsub
    refine ⟨_, rfl, hsub, fun heq => ?_⟩
    rw [heq] at hsub
    have hmax : (-1 : UInt64).toNat = 2 ^ 64 - 1 := rfl
    omega

def waitingRun : List System.Action := [.addTimer 100 0 50, .checkAndHandle 149, .loopHead]

theorem waiting_reach :
    ∃ s, System.machine.Reach (fun _ _ => True) s ∧ s.manager.timersQue = [0] ∧
      s.manager.timers.get 0 = some ⟨150, 0, 50⟩ := by
  have hstart : System.machine.Reach (fun _ _ => True) System.fresh :=
    .start ⟨rfl, rfl, fun _ => rfl⟩
  have hrun : ∃ s, System.machine.run System.fresh waitingRun = some s ∧
      s.manager.timersQue = [0] ∧ s.manager.timers.get 0 = some ⟨150, 0, 50⟩ := ⟨_, rfl, rfl, rfl⟩
  obtain ⟨s, hs, hque, hget⟩ := hrun
  exact ⟨s, hstart.of_run waitingRun (fun _ _ _ => trivial) hs, hque, hget⟩

theorem recentTimeout_iff_waiting :
    ∃ (s : System) (timeout : UInt64), s.manager.timersQue = [0] ∧
      s.manager.getRecentTimeout 149 = some timeout ∧ timeout.toNat = 1 ∧ timeout ≠ -1 := by
  obtain ⟨s, hreach, hque, hget⟩ := waiting_reach
  obtain ⟨t, timer, ht, hget', _, hiff⟩ :=
    recentTimeout_iff s hreach (by simp [hque]) 149 (by decide)
  rw [hque, List.mem_singleton] at ht
  rw [ht, hget, Option.some.injEq] at hget'
  subst hget'
  obtain ⟨timeout, htimeout, hvalue, hne⟩ := hiff.2 (by decide)
  exact ⟨s, timeout, hque, htimeout, hvalue, hne⟩

/-- The callbacks took time: at 151 the overdue timer looks like no timer at all. -/
theorem overdue_is_no_timer :
    ¬ ∀ s, System.machine.Reach (fun _ _ => True) s → s.manager.timersQue ≠ [] →
      ∀ now, now < 2 ^ 64 → ∃ t timer, t ∈ s.manager.timersQue ∧
        s.manager.timers.get t = some timer ∧
        ∃ timeout, s.manager.getRecentTimeout now = some timeout ∧
          timeout.toNat = timer.expiredTime - now ∧ timeout ≠ -1 := by
  intro hall
  obtain ⟨s, hreach, hque, hget⟩ := waiting_reach
  obtain ⟨t, timer, ht, hget', timeout, htimeout, _, hne⟩ :=
    hall s hreach (by simp [hque]) 151 (by decide)
  have htop : BinaryHeap.top s.manager.timersQue = some 0 := by
    rw [hque]
    rfl
  rw [getRecentTimeout_eq htop hget, Option.some.injEq] at htimeout
  exact hne (htimeout.symm.trans (by decide))

end MyNetLib.TimerManager
