import MyNetLib.Timer.Polling

/-! # The timeout of a poll before the first deadline

Both readings of the clock are up to the earliest deadline, so nothing wraps in
`unsigned long long`. What is left is the truncation to `int`, which keeps the
low half of the difference and gives its top bit the sign.
-/

namespace MyNetLib.TimedLoop

open Library TimerManager

/-- `timeout_ms` of `PollAndHandleIoEvent`; each `GetRecentTimeout` reads the clock. -/
def pollTimeout (m : TimerManager) (t₁ t₂ : Nat) : Option Int32 :=
  (m.getRecentTimeout t₁).bind fun timeout =>
    if timeout = -1 then some kPollTimeMs else (m.getRecentTimeout t₂).map toTimeoutMs

theorem chosen_pollTimeout {τ F : Type} [DecidableEq τ] {s s₁ s₂ : TimedLoop τ F} {t₁ t₂ : Nat}
    (h₁ : s.step (.firstTimeout t₁) = some s₁) (h₂ : s₁.step (.secondTimeout t₂) = some s₂) :
    ∃ ms, pollTimeout s.timer.manager t₁ t₂ = some ms ∧ s₂.phase = .chosen t₂ ms := by
  simp only [step] at h₁ h₂
  split at h₁
  · obtain ⟨timeout, hfirst, hs₁⟩ := Option.map_eq_some_iff.1 h₁
    split at h₂
    · rename_i hphase
      obtain ⟨second, hsecond, rfl⟩ := Option.map_eq_some_iff.1 h₂
      subst hs₁
      have hreal : timeout ≠ -1 := by
        intro hnone
        simp [hnone] at hphase
      refine ⟨toTimeoutMs second, ?_, rfl⟩
      rw [pollTimeout, hfirst, Option.bind_some, if_neg hreal]
      show (s.timer.manager.getRecentTimeout t₂).map toTimeoutMs = _
      have hread : s.timer.manager.getRecentTimeout t₂ = some second := hsecond
      rw [hread, Option.map_some]
    · cases h₂
  · cases h₁

/-- With `left` milliseconds to go: a poll that ends, not after the deadline, and
blocks before it. -/
def Serves (timeout : Option Int32) (left : Nat) : Prop :=
  ∃ ms, timeout = some ms ∧ 0 ≤ ms.toInt ∧ ms.toInt ≤ left ∧ (ms.toInt = 0 → left = 0)

/-- The low 32 bits of the difference are a non-negative `int`, and not 0 for a difference. -/
def FitsInt (left : Nat) : Prop :=
  left % 2 ^ 32 < 2 ^ 31 ∧ (left % 2 ^ 32 = 0 → left = 0)

instance (left : Nat) : Decidable (FitsInt left) := instDecidableAnd

/-- Before the deadline the timeout is the difference, cut to 32 bits. -/
theorem pollTimeout_of_le {m : TimerManager} {t : Nat} {timer : Timer} {t₁ t₂ : Nat}
    (htop : BinaryHeap.top m.timersQue = some t) (hget : m.timers.get t = some timer)
    (hbound : timer.expiredTime < 2 ^ 64 - 1) (h₁ : t₁ ≤ t₂) (h₂ : t₂ ≤ timer.expiredTime) :
    ∃ ms, pollTimeout m t₁ t₂ = some ms ∧
      ms.toInt = ((timer.expiredTime : Int) - t₂).bmod (2 ^ 32) := by
  have hsub := sub_toNat (e := timer.expiredTime) (show timer.expiredTime < 2 ^ 64 by omega)
    (show t₁ < 2 ^ 64 by omega)
  rw [if_pos (by omega)] at hsub
  have hreal : UInt64.ofNat timer.expiredTime - UInt64.ofNat t₁ ≠ -1 := by
    intro hnone
    rw [hnone] at hsub
    have hmax : (-1 : UInt64).toNat = 2 ^ 64 - 1 := rfl
    omega
  refine ⟨_, ?_, toTimeoutMs_sub (show timer.expiredTime < 2 ^ 64 by omega)
    (show t₂ < 2 ^ 64 by omega)⟩
  rw [pollTimeout, getRecentTimeout_eq htop hget, Option.bind_some, if_neg hreal,
    getRecentTimeout_eq htop hget]
  rfl

theorem serves_iff {timeout : Option Int32} {e now : Nat} (hle : now ≤ e) {ms : Int32}
    (htimeout : timeout = some ms) (hms : ms.toInt = ((e : Int) - now).bmod (2 ^ 32)) :
    Serves timeout (e - now) ↔ FitsInt (e - now) := by
  have hsize : (((2 ^ 32 : Nat) : Int) + 1) / 2 = 2 ^ 31 := by decide
  have hleft : (e : Int) - now = ((e - now : Nat) : Int) := by omega
  rw [hleft, Int.bmod_def, hsize] at hms
  have hvalue : Serves timeout (e - now) ↔
      0 ≤ ms.toInt ∧ ms.toInt ≤ (e - now : Nat) ∧ (ms.toInt = 0 → e - now = 0) := by
    constructor
    · rintro ⟨ms', heq, hserves⟩
      rw [htimeout, Option.some.injEq] at heq
      rw [heq]
      exact hserves
    · intro hserves
      exact ⟨ms, htimeout, hserves⟩
  rw [hvalue, FitsInt]
  generalize e - now = left at hms ⊢
  split at hms
  · omega
  · omega

/-- In every run with a timer queued, and at any two readings of the clock up to the
earliest deadline: the poll ends, by the deadline and not at once before it, exactly
when the time left at the second reading survives the truncation to `int`. -/
theorem pollTimeout_serves_iff (s : System) (h : System.machine.Reach (fun _ _ => True) s)
    (hne : s.manager.timersQue ≠ []) :
    ∃ t timer, t ∈ s.manager.timersQue ∧ s.manager.timers.get t = some timer ∧
      (∀ a ∈ s.manager.timersQue, ∀ timer', s.manager.timers.get a = some timer' →
        timer.expiredTime ≤ timer'.expiredTime) ∧
      ∀ t₁ t₂, t₁ ≤ t₂ → t₂ ≤ timer.expiredTime →
        (Serves (pollTimeout s.manager t₁ t₂) (timer.expiredTime - t₂) ↔
          FitsInt (timer.expiredTime - t₂)) := by
  have hkept := System.kept_of_reach h
  obtain ⟨t, timer, htop, ht, hget⟩ := hkept.valid.exists_top hne
  refine ⟨t, timer, ht, hget, hkept.valid.top_le htop hget, ?_⟩
  intro t₁ t₂ h₁ h₂
  obtain ⟨ms, hms, hvalue⟩ := pollTimeout_of_le htop hget (hkept.bounded t ht timer hget) h₁ h₂
  exact serves_iff h₂ hms hvalue

/-- A timer due at 150, the clock at 149. -/
theorem pollTimeout_serves_iff_waiting :
    ∃ s : System, s.manager.timersQue = [0] ∧ Serves (pollTimeout s.manager 148 149) 1 := by
  obtain ⟨s, hreach, hque, hget⟩ := waiting_reach
  obtain ⟨t, timer, ht, hget', -, hserves⟩ := pollTimeout_serves_iff s hreach (by simp [hque])
  rw [hque, List.mem_singleton] at ht
  rw [ht, hget, Option.some.injEq] at hget'
  subst hget'
  exact ⟨s, hque, (hserves 148 149 (by decide) (by decide)).2 (by decide)⟩

/-- A timer of about 25 days, added at clock 100. -/
def distantRun : List System.Action := [.addTimer 100 0 2147483648]

/-- The timeout is negative: the poll waits for ever. -/
theorem distant_timer_waits_forever :
    ¬ ∀ s : System, System.machine.Reach (fun _ _ => True) s → s.manager.timersQue ≠ [] →
      ∃ t timer, t ∈ s.manager.timersQue ∧ s.manager.timers.get t = some timer ∧
        ∀ t₁ t₂, t₁ ≤ t₂ → t₂ ≤ timer.expiredTime →
          Serves (pollTimeout s.manager t₁ t₂) (timer.expiredTime - t₂) := by
  intro hclaim
  have hstart : System.machine.Reach (fun _ _ => True) System.fresh :=
    .start ⟨rfl, rfl, fun _ => rfl⟩
  have hrun : ∃ s, System.machine.run System.fresh distantRun = some s ∧
      s.manager.timersQue = [0] ∧ s.manager.timers.get 0 = some ⟨2147483748, 0, 2147483648⟩ ∧
      pollTimeout s.manager 100 100 = some (-2147483648) := ⟨_, rfl, rfl, rfl, by decide⟩
  obtain ⟨s, hs, hque, hget, hpoll⟩ := hrun
  have hreach := hstart.of_run distantRun (fun _ _ _ => trivial) hs
  obtain ⟨t, timer, ht, hget', hserves⟩ := hclaim s hreach (by simp [hque])
  rw [hque, List.mem_singleton] at ht
  rw [ht, hget, Option.some.injEq] at hget'
  subst hget'
  obtain ⟨ms, hms, hpos, -⟩ := hserves 100 100 (by decide) (by decide)
  rw [hpoll, Option.some.injEq] at hms
  subst hms
  exact absurd hpos (by decide)

end MyNetLib.TimedLoop
