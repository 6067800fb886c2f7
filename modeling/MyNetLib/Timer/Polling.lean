import MyNetLib.Reactor.EventLoop
import MyNetLib.Timer.Timeout

/-! # The loop, its timers and the poll (`src/event_loop.cc`)

The timeout of the poll is chosen from the queue as it is then; other threads add
timers at any time, each `AddTimer` one step. `RunAfter` writes no eventfd, so a timer
due before the poll's end is served in time only if something else wakes the loop.
-/

namespace MyNetLib

open Library

namespace TimedLoop

/-- Where the loop thread is in `CheckAndHandleTimerEvent` and the choice of the
timeout; `chosen` lasts to the end of the poll. -/
inductive Phase where
  | outside
  | checking
  | passed
  | comparing
  | chosen (began : Nat) (timeoutMs : Int32)
  deriving DecidableEq

end TimedLoop

structure TimedLoop (τ F : Type) where
  loop : EventLoop.System τ F
  timer : TimerManager.System
  phase : TimedLoop.Phase

namespace TimedLoop

variable {τ F : Type}

def kPollTimeMs : Int32 := 10000

/-- `GetRecentTimeout` is an `unsigned long long`, `timeout_ms` an `int`. -/
def toTimeoutMs (timeout : UInt64) : Int32 := .ofNat timeout.toNat

def inUserCode (s : TimedLoop τ F) : Bool :=
  match s.loop.loop.pc, s.timer.pc with
  | .timers, .running _ _ => true
  | .timers, _ => false
  | _, _ => s.loop.loop.inUserCode

/-- The steps of the loop thread, those of the other threads on the loop, and `RunAfter`
on the loop thread and on another. -/
inductive Action (τ F : Type) where
  | loop (a : EventLoop.System.Action τ F)
  | checkAndHandle (now : Nat)
  | loopHead
  | callbackReturns
  | ownRunAfter (now : Nat) (repeatedTimes : Int32) (interval : Int64)
  | runAfter (t : τ) (now : Nat) (repeatedTimes : Int32) (interval : Int64)
  | firstTimeout (now : Nat)
  | secondTimeout (now : Nat)

/-- `AddTimer` on another thread looks at nothing but the queue. -/
def addTimer (s : TimedLoop τ F) (now : Nat) (repeatedTimes : Int32) (interval : Int64) :
    Option (TimedLoop τ F) :=
  (TimerManager.System.step { s.timer with pc := .idle }
    (.addTimer now repeatedTimes interval)).map fun timer =>
      { s with timer := { timer with pc := s.timer.pc } }

section Steps

variable [DecidableEq τ]

/-- The poll takes the timeout that was chosen and forgets it when it returns. -/
def stepLoop (s : TimedLoop τ F) (a : EventLoop.System.Action τ F) : Option (TimedLoop τ F) :=
  let moved := s.loop.step a
  match a with
  | .loop .startPolling =>
      match s.phase with
      | .chosen _ _ => moved.map fun l => { s with loop := l }
      | _ => none
  | .loop (.pollReturns _) => moved.map fun l => { s with loop := l, phase := .outside }
  | .ownQueue _ | .ownQuit =>
      if s.inUserCode then moved.map fun l => { s with loop := l } else none
  | _ => moved.map fun l => { s with loop := l }

def step (s : TimedLoop τ F) : Action τ F → Option (TimedLoop τ F)
  | .loop a => s.stepLoop a
  | .checkAndHandle now =>
      match s.loop.loop.pc, s.phase with
      | .timers, .outside =>
          (s.timer.step (.checkAndHandle now)).map fun timer =>
            { s with timer := timer, phase := .checking }
      | _, _ => none
  | .loopHead =>
      if s.phase = .checking then
        (s.timer.step .loopHead).map fun timer =>
          { s with timer := timer, phase := if timer.pc = .idle then .passed else .checking }
      else none
  | .callbackReturns =>
      if s.phase = .checking then
        (s.timer.step .callbackReturns).map fun timer => { s with timer := timer }
      else none
  | .ownRunAfter now repeatedTimes interval =>
      if s.inUserCode then s.addTimer now repeatedTimes interval else none
  | .runAfter t now repeatedTimes interval =>
      if s.loop.callers t = .outside then s.addTimer now repeatedTimes interval else none
  | .firstTimeout now =>
      if s.phase = .passed ∧ s.timer.readable now then
        (s.timer.manager.getRecentTimeout now).map fun (timeout : UInt64) =>
          { s with
            timer := { s.timer with clock := now }
            phase := if timeout = -1 then .chosen now kPollTimeMs else .comparing }
      else none
  | .secondTimeout now =>
      if s.phase = .comparing ∧ s.timer.readable now then
        (s.timer.manager.getRecentTimeout now).map fun timeout =>
          { s with
            timer := { s.timer with clock := now }
            phase := .chosen now (toTimeoutMs timeout) }
      else none

def machine (τ F : Type) [DecidableEq τ] : Machine (TimedLoop τ F) (Action τ F) where
  start s := (s.loop.loop = .new ∧ ∀ t, s.loop.callers t = .outside) ∧
    TimerManager.System.Initial s.timer ∧ s.phase = .outside
  step := step

end Steps

/-! ## The law -/

/-- A poll that began at `began` blocks, and its end is after `e`: a negative timeout
has no end, and 0 does not block. -/
def EndsAfter (began : Nat) (timeoutMs : Int32) (e : Nat) : Prop :=
  timeoutMs.toInt < 0 ∨ 0 < timeoutMs.toInt ∧ (e : Int) < began + timeoutMs.toInt

/-- `e` is the deadline of a queued timer. -/
def Queued (s : TimedLoop τ F) (e : Nat) : Prop :=
  ∃ t ∈ s.timer.manager.timersQue, ∃ timer, s.timer.manager.timers.get t = some timer ∧
    timer.expiredTime = e

def Earliest (s : TimedLoop τ F) (e : Nat) : Prop :=
  s.Queued e ∧ ∀ e', s.Queued e' → e ≤ e'

/-- Blocked in a poll that ends after the earliest deadline, the loop is about to be woken. -/
def NoLostTimer (s : TimedLoop τ F) : Prop :=
  ∀ began timeoutMs e, s.loop.loop.pc = .polling → s.phase = .chosen began timeoutMs →
    s.Earliest e → EndsAfter began timeoutMs e → 0 < s.loop.loop.wakeFd

/-- Unless the eventfd is readable anyway: the first reading of the timeout does not come
just after the earliest deadline, the second not after it, and not so long before it that
the `int` is negative; and no other thread adds a timer due before the end of the poll. -/
def InTime (s : TimedLoop τ F) : Action τ F → Prop
  | .firstTimeout now => 0 < s.loop.loop.wakeFd ∨ ∀ e, s.Earliest e → now ≠ e + 1
  | .secondTimeout now => 0 < s.loop.loop.wakeFd ∨ ∀ e, s.Earliest e →
      (now ≤ e ∧ (e - now) % 2 ^ 32 < 2 ^ 31) ∨ now % 2 ^ 32 = e % 2 ^ 32
  | .runAfter _ now _ interval => 0 < s.loop.loop.wakeFd ∨ interval ≤ 0 ∨
      ∀ began timeoutMs, s.phase = .chosen began timeoutMs →
        ¬ EndsAfter began timeoutMs (Timer.deadline now interval)
  | _ => True

/-! ## The timeout chosen -/

/-- Twice reduced, to 64 bits and to 32, the difference is reduced once. -/
theorem toTimeoutMs_sub {e now : Nat} (he : e < 2 ^ 64) (hnow : now < 2 ^ 64) :
    (toTimeoutMs (UInt64.ofNat e - UInt64.ofNat now)).toInt =
      ((e : Int) - now).bmod Int32.size := by
  rw [toTimeoutMs, Int32.toInt_ofNat', TimerManager.sub_toNat he hnow]
  split
  · congr 1
    omega
  · have hwrap : ((2 ^ 64 - now + e : Nat) : Int) = ((e : Int) - now) + 2 ^ 32 * Int32.size := by
      have hsize : Int32.size = 2 ^ 32 := rfl
      omega
    rw [hwrap, Int.add_mul_bmod_self_right]

theorem endsAfter_sub {e now : Nat} (he : e < 2 ^ 64) (hnow : now < 2 ^ 64) :
    EndsAfter now (toTimeoutMs (UInt64.ofNat e - UInt64.ofNat now)) e ↔
      ¬ ((now ≤ e ∧ (e - now) % 2 ^ 32 < 2 ^ 31) ∨ now % 2 ^ 32 = e % 2 ^ 32) := by
  have hsize : Int32.size = 2 ^ 32 := rfl
  rw [EndsAfter, toTimeoutMs_sub he hnow, Int.bmod_def, hsize]
  split <;> omega

theorem EndsAfter.mono {began : Nat} {timeoutMs : Int32} {e e' : Nat}
    (h : EndsAfter began timeoutMs e) (hle : e' ≤ e) : EndsAfter began timeoutMs e' := by
  rcases h with hnegative | ⟨hpositive, hlt⟩
  · exact Or.inl hnegative
  · exact Or.inr ⟨hpositive, by omega⟩

/-! ## What a step can do -/

section Moves

variable {s s' : TimedLoop τ F} {now e : Nat} {k : Int32} {interval : Int64}

/-- Outside the poll a step of the loop or of a caller neither begins a poll nor reads
the eventfd on the way to one. -/
theorem loop_elsewhere [DecidableEq τ] {l l' : EventLoop.System τ F}
    {a : EventLoop.System.Action τ F}
    (hs : l.step a = some l') (hstart : a ≠ .loop .startPolling)
    (hreturn : ∀ wake, a ≠ .loop (.pollReturns wake)) :
    (l'.loop.pc = l.loop.pc ∧ (0 < l.loop.wakeFd → 0 < l'.loop.wakeFd)) ∨
      (l.loop.pc ≠ .timers ∧ l.loop.pc ≠ .polling ∧ l'.loop.pc ≠ .polling) := by
  cases a with
  | loop b =>
      simp only [EventLoop.System.step, Option.map_eq_some_iff] at hs
      obtain ⟨m, hm, hl'⟩ := hs
      subst hl'
      right
      cases EventLoop.step_move hm with
      | startPolling _ => exact absurd rfl hstart
      | pollReturns wake _ _ => exact absurd rfl (hreturn wake)
      | enterLoop hpc => simp [hpc]
      | resetQuit hpc => simp [hpc]
      | leave hpc _ => simp [hpc]
      | iterate hpc _ => simp [hpc]
      | handleWakeup hpc => simp [hpc]
      | doPendingFunctors hpc => simp [hpc]
      | swapFunctors hpc => simp [hpc]
      | runFunctor f rest hpc => simp [hpc]
      | finishFunctors hpc => simp [hpc]
  | ownQueue f =>
      simp only [EventLoop.System.step] at hs
      split at hs <;> cases hs
      refine Or.inl ⟨EventLoop.queueInLoop_pc _ _, fun hpos => ?_⟩
      simp only [EventLoop.queueInLoop]
      split
      · exact EventLoop.wakeup_wakeFd_pos _
      · exact hpos
  | ownQuit =>
      simp only [EventLoop.System.step] at hs
      split at hs <;> cases hs
      exact Or.inl ⟨rfl, id⟩
  | emplace t f =>
      simp only [EventLoop.System.step] at hs
      split at hs <;> cases hs
      exact Or.inl ⟨rfl, id⟩
  | quit t =>
      simp only [EventLoop.System.step] at hs
      split at hs <;> cases hs
      exact Or.inl ⟨rfl, id⟩
  | wakeup t =>
      simp only [EventLoop.System.step] at hs
      split at hs <;> cases hs
      exact Or.inl ⟨EventLoop.wakeup_pc _, fun _ => EventLoop.wakeup_wakeFd_pos _⟩

/-- A step of the loop: the poll begins, ends, or is not concerned. -/
inductive LoopMove (s s' : TimedLoop τ F) : Prop
  | polls : s.loop.loop.pc = .timers → s'.loop.loop.pc = .polling →
      (∃ began timeoutMs, s.phase = .chosen began timeoutMs) → s'.phase = s.phase →
      s'.loop.loop.wakeFd = s.loop.loop.wakeFd → LoopMove s s'
  | returns : s.loop.loop.pc = .polling → s'.loop.loop.pc ≠ .polling → s'.phase = .outside →
      LoopMove s s'
  | stays : s'.loop.loop.pc = s.loop.loop.pc → s'.phase = s.phase →
      (0 < s.loop.loop.wakeFd → 0 < s'.loop.loop.wakeFd) → LoopMove s s'
  | elsewhere : s.loop.loop.pc ≠ .timers → s.loop.loop.pc ≠ .polling →
      s'.loop.loop.pc ≠ .polling → s'.phase = s.phase → LoopMove s s'

theorem loopMove [DecidableEq τ] {a : EventLoop.System.Action τ F} (hs : s.stepLoop a = some s') :
    s'.timer = s.timer ∧ LoopMove s s' := by
  have hother : ∀ l, s.loop.step a = some l → a ≠ .loop .startPolling →
      (∀ wake, a ≠ .loop (.pollReturns wake)) →
      some { s with loop := l } = some s' → s'.timer = s.timer ∧ LoopMove s s' := by
    intro l hl hstart hreturn hs'
    cases hs'
    refine ⟨rfl, ?_⟩
    rcases loop_elsewhere hl hstart hreturn with ⟨hpc, hwake⟩ | ⟨htimers, hpolling, hnot⟩
    · exact .stays hpc rfl hwake
    · exact .elsewhere htimers hpolling hnot rfl
  unfold stepLoop at hs
  dsimp only at hs
  split at hs
  · split at hs
    · rename_i began timeoutMs hphase
      obtain ⟨l, hl, hs'⟩ := Option.map_eq_some_iff.1 hs
      simp only [EventLoop.System.step, Option.map_eq_some_iff] at hl
      obtain ⟨m, hm, hl'⟩ := hl
      subst hl'
      cases EventLoop.step_move hm with
      | startPolling hpc =>
          cases hs'
          exact ⟨rfl, .polls hpc rfl ⟨began, timeoutMs, hphase⟩ rfl rfl⟩
    · cases hs
  · obtain ⟨l, hl, hs'⟩ := Option.map_eq_some_iff.1 hs
    simp only [EventLoop.System.step, Option.map_eq_some_iff] at hl
    obtain ⟨m, hm, hl'⟩ := hl
    subst hl'
    cases EventLoop.step_move hm with
    | pollReturns wake hpc _ =>
        cases hs'
        exact ⟨rfl, .returns hpc (by simp) rfl⟩
  · split at hs
    · obtain ⟨l, hl, hs'⟩ := Option.map_eq_some_iff.1 hs
      exact hother l hl (by simp) (by simp) (by rw [hs'])
    · cases hs
  · split at hs
    · obtain ⟨l, hl, hs'⟩ := Option.map_eq_some_iff.1 hs
      exact hother l hl (by simp) (by simp) (by rw [hs'])
    · cases hs
  · rename_i hstart hreturn _ _
    obtain ⟨l, hl, hs'⟩ := Option.map_eq_some_iff.1 hs
    exact hother l hl hstart hreturn (by rw [hs'])

theorem addTimer_cases (hs : s.addTimer now k interval = some s') :
    (interval ≤ 0 ∧ s' = s) ∨ (¬ interval ≤ 0 ∧ s.timer.clock ≤ now ∧ now < 2 ^ 63 ∧
      s'.timer.manager = s.timer.manager.call (.addTimer now k interval) ∧
      s'.timer.pc = s.timer.pc ∧ s'.timer.clock = now ∧ s'.loop = s.loop ∧ s'.phase = s.phase) := by
  obtain ⟨timer, htimer, hs'⟩ := Option.map_eq_some_iff.1 hs
  subst hs'
  cases TimerManager.System.step_transition htimer with
  | ignored _ _ _ hzero => exact Or.inl ⟨hzero, rfl⟩
  | adds _ _ _ _ hinterval hclock hnow =>
      exact Or.inr ⟨hinterval, hclock, hnow, rfl, rfl, rfl, rfl, rfl⟩

theorem queued_addTimer (hvalid : TimerManager.Valid s.timer.manager) (hinterval : ¬ interval ≤ 0)
    (hmanager : s'.timer.manager = s.timer.manager.call (.addTimer now k interval)) :
    s'.Queued e ↔ s.Queued e ∨ e = Timer.deadline now interval := by
  obtain ⟨htimers, hperm, _⟩ := hvalid.addTimer now k hinterval
  have hold : ∀ t ∈ s.timer.manager.timersQue,
      s'.timer.manager.timers.get t = s.timer.manager.timers.get t := by
    intro t ht
    rw [hmanager, TimerManager.call, htimers]
    exact Heap.get_alloc_of_ne (hvalid.lt_next ht).ne _
  have hnew : s'.timer.manager.timers.get s.timer.manager.timers.next =
      some ⟨Timer.deadline now interval, k, interval⟩ := by
    rw [hmanager, TimerManager.call, htimers]
    exact Heap.get_alloc_next _ _
  have hmem : ∀ t, t ∈ s'.timer.manager.timersQue ↔
      t = s.timer.manager.timers.next ∨ t ∈ s.timer.manager.timersQue := by
    intro t
    rw [hmanager, TimerManager.call, hperm.mem_iff, List.mem_cons]
  constructor
  · rintro ⟨t, ht, timer, hget, hdeadline⟩
    rcases (hmem t).1 ht with heq | ht
    · rw [heq, hnew, Option.some.injEq] at hget
      exact Or.inr (by rw [← hdeadline, ← hget])
    · exact Or.inl ⟨t, ht, timer, by rw [← hold t ht]; exact hget, hdeadline⟩
  · rintro (⟨t, ht, timer, hget, hdeadline⟩ | hdeadline)
    · exact ⟨t, (hmem t).2 (Or.inr ht), timer, (hold t ht).trans hget, hdeadline⟩
    · exact ⟨_, (hmem _).2 (Or.inl rfl), _, hnew, hdeadline.symm⟩

/-! ## The invariant -/

structure Inv (s : TimedLoop τ F) : Prop where
  kept : TimerManager.System.Kept s.timer
  pass : s.timer.pc ≠ .idle → s.phase = .checking
  polling : s.loop.loop.pc = .polling → ∃ began timeoutMs, s.phase = .chosen began timeoutMs
  place : s.phase ≠ .outside → s.loop.loop.pc = .timers ∨
    s.loop.loop.pc = .polling ∧ ∃ began timeoutMs, s.phase = .chosen began timeoutMs
  awake : ∀ began timeoutMs e, s.phase = .chosen began timeoutMs → s.Queued e →
    EndsAfter began timeoutMs e → 0 < s.loop.loop.wakeFd

theorem queued_congr (hmanager : s'.timer.manager = s.timer.manager) :
    s'.Queued e ↔ s.Queued e := by
  rw [Queued, Queued, hmanager]

theorem Inv.loop (h : Inv s) (htimer : s'.timer = s.timer) (hmove : LoopMove s s') : Inv s' := by
  have hqueued : ∀ e, s'.Queued e ↔ s.Queued e := fun e => queued_congr (by rw [htimer])
  have hkept : TimerManager.System.Kept s'.timer := htimer ▸ h.kept
  cases hmove with
  | polls hpc hpc' hchosen hphase hwake =>
      refine ⟨hkept, ?_, ?_, ?_, ?_⟩
      · rw [htimer, hphase]
        exact h.pass
      · exact fun _ => hphase ▸ hchosen
      · exact fun _ => Or.inr ⟨hpc', hphase ▸ hchosen⟩
      · intro began timeoutMs e hp hq
        rw [hwake]
        exact h.awake began timeoutMs e (hphase ▸ hp) ((hqueued e).1 hq)
  | returns hpc hpc' hphase =>
      obtain ⟨began, timeoutMs, hchosen⟩ := h.polling hpc
      refine ⟨hkept, ?_, ?_, ?_, ?_⟩
      · intro hbusy
        rw [htimer] at hbusy
        have hchecking := h.pass hbusy
        rw [hchosen] at hchecking
        cases hchecking
      · exact fun hp => absurd hp hpc'
      · exact fun hp => absurd hphase hp
      · intro began timeoutMs e hp
        rw [hphase] at hp
        cases hp
  | stays hpc hphase hwake =>
      refine ⟨hkept, ?_, ?_, ?_, ?_⟩
      · rw [htimer, hphase]
        exact h.pass
      · rw [hpc, hphase]
        exact h.polling
      · rw [hpc, hphase]
        exact h.place
      · intro began timeoutMs e hp hq hends
        exact hwake (h.awake began timeoutMs e (hphase ▸ hp) ((hqueued e).1 hq) hends)
  | elsewhere hnot hnot' hpc' hphase =>
      have hout : s.phase = .outside := by
        by_contra hphase
        rcases h.place hphase with hpc | ⟨hpc, _⟩
        · exact hnot hpc
        · exact hnot' hpc
      refine ⟨hkept, ?_, ?_, ?_, ?_⟩
      · rw [htimer, hphase]
        exact h.pass
      · exact fun hp => absurd hp hpc'
      · exact fun hp => absurd (hphase.trans hout) hp
      · intro began timeoutMs e hp
        rw [hphase, hout] at hp
        cases hp

theorem Inv.works (hkept : TimerManager.System.Kept s'.timer) (hpc : s'.loop.loop.pc = .timers)
    (hphase : ∀ began timeoutMs, s'.phase ≠ .chosen began timeoutMs)
    (hpass : s'.timer.pc ≠ .idle → s'.phase = .checking) : Inv s' := by
  refine ⟨hkept, hpass, ?_, fun _ => Or.inl hpc, ?_⟩
  · intro hpolling
    rw [hpc] at hpolling
    cases hpolling
  · intro began timeoutMs e hchosen
    exact absurd hchosen (hphase began timeoutMs)

theorem Inv.at_timers (h : Inv s) (hphase : s.phase ≠ .outside)
    (hnot : ∀ began timeoutMs, s.phase ≠ .chosen began timeoutMs) :
    s.loop.loop.pc = .timers := by
  rcases h.place hphase with hpc | ⟨_, began, timeoutMs, hchosen⟩
  · exact hpc
  · exact absurd hchosen (hnot began timeoutMs)

theorem Inv.idle (h : Inv s) (hphase : s.phase ≠ .checking) : s.timer.pc = .idle := by
  by_contra hbusy
  exact hphase (h.pass hbusy)

theorem Inv.recentTimeout (h : Inv s) (hq : s.Queued e) :
    ∃ e₀, s.Earliest e₀ ∧ e₀ < 2 ^ 64 - 1 ∧
      ∀ now, s.timer.manager.getRecentTimeout now = some (UInt64.ofNat e₀ - UInt64.ofNat now) := by
  obtain ⟨a, ha, _⟩ := hq
  obtain ⟨t, timer, htop, ht, hget⟩ := h.kept.valid.exists_top (List.ne_nil_of_mem ha)
  refine ⟨timer.expiredTime, ⟨⟨t, ht, timer, hget, rfl⟩, ?_⟩, h.kept.bounded t ht timer hget,
    fun now => TimerManager.getRecentTimeout_eq htop hget⟩
  rintro e' ⟨b, hb, timer', hget', rfl⟩
  exact h.kept.valid.top_le htop hget b hb timer' hget'

/-! ## The choice of the timeout -/

/-- The second reading: the poll ends after the earliest deadline only past the guard. -/
theorem ends_early_iff {e₀ : Nat} (hearliest : s.Earliest e₀) (he₀ : e₀ < 2 ^ 64 - 1)
    (hnow : now < 2 ^ 63) :
    (∃ e, s.Queued e ∧ EndsAfter now (toTimeoutMs (UInt64.ofNat e₀ - UInt64.ofNat now)) e) ↔
      ¬ ((now ≤ e₀ ∧ (e₀ - now) % 2 ^ 32 < 2 ^ 31) ∨ now % 2 ^ 32 = e₀ % 2 ^ 32) := by
  rw [← endsAfter_sub (by omega) (by omega)]
  constructor
  · rintro ⟨e, hq, hends⟩
    exact hends.mono (hearliest.2 e hq)
  · exact fun hends => ⟨e₀, hearliest.1, hends⟩

/-- The first reading is the value for no timer just after the earliest deadline. -/
theorem sub_eq_none_iff {e₀ : Nat} (he₀ : e₀ < 2 ^ 64 - 1) (hnow : now < 2 ^ 63) :
    UInt64.ofNat e₀ - UInt64.ofNat now = -1 ↔ now = e₀ + 1 := by
  have hsub := TimerManager.sub_toNat (e := e₀) (by omega) (show now < 2 ^ 64 by omega)
  have hmax : (-1 : UInt64).toNat = 2 ^ 64 - 1 := rfl
  rw [← UInt64.toNat_inj, hsub, hmax]
  split <;> omega

/-- What a step of the choice leaves: the timers as they were, the timeout chosen or not. -/
theorem Inv.chooses (hkept : TimerManager.System.Kept s'.timer)
    (hmanager : s'.timer.manager = s.timer.manager) (hidle : s'.timer.pc = .idle)
    (hloop : s'.loop = s.loop) (hpc : s.loop.loop.pc = .timers) {began : Nat} {timeoutMs : Int32}
    (hphase : s'.phase = .chosen began timeoutMs)
    (hawake : ∀ e, s.Queued e → EndsAfter began timeoutMs e → 0 < s.loop.loop.wakeFd) : Inv s' := by
  refine ⟨hkept, fun hbusy => absurd hidle hbusy, fun _ => ⟨_, _, hphase⟩, ?_, ?_⟩
  · intro _
    rw [hloop]
    exact Or.inl hpc
  · intro began' timeoutMs' e hp hq hends
    rw [hphase, Phase.chosen.injEq] at hp
    obtain ⟨rfl, rfl⟩ := hp
    rw [hloop]
    exact hawake e ((queued_congr hmanager).1 hq) hends

theorem readable_iff {t : TimerManager.System} :
    t.readable now = true ↔ t.clock ≤ now ∧ now < 2 ^ 63 := by
  simp [TimerManager.System.readable]

theorem Inv.firstTimeout [DecidableEq τ] (h : Inv s) (hg : InTime s (.firstTimeout now))
    (hs : s.step (.firstTimeout now) = some s') : Inv s' := by
  simp only [step] at hs
  split at hs
  · rename_i hguard
    obtain ⟨hphase, hread⟩ := hguard
    rw [readable_iff] at hread
    obtain ⟨timeout, htimeout, hs'⟩ := Option.map_eq_some_iff.1 hs
    subst hs'
    have hpc := h.at_timers (by simp [hphase]) (by simp [hphase])
    have hidle := h.idle (by simp [hphase])
    have hkept := h.kept.later hread.1
    by_cases hnone : timeout = -1
    · refine Inv.chooses hkept rfl hidle rfl hpc (if_pos hnone) fun e hq _ => ?_
      obtain ⟨e₀, hearliest, he₀, hrecent⟩ := h.recentTimeout hq
      rw [hrecent, Option.some.injEq] at htimeout
      have hpassed := (sub_eq_none_iff he₀ hread.2).1 (htimeout.trans hnone)
      rcases hg with hwake | hnot
      · exact hwake
      · exact absurd hpassed (hnot e₀ hearliest)
    · exact .works hkept hpc (by simp [hnone]) (fun hbusy => absurd hidle hbusy)
  · cases hs

theorem Inv.secondTimeout [DecidableEq τ] (h : Inv s) (hg : InTime s (.secondTimeout now))
    (hs : s.step (.secondTimeout now) = some s') : Inv s' := by
  simp only [step] at hs
  split at hs
  · rename_i hguard
    obtain ⟨hphase, hread⟩ := hguard
    rw [readable_iff] at hread
    obtain ⟨timeout, htimeout, hs'⟩ := Option.map_eq_some_iff.1 hs
    subst hs'
    have hpc := h.at_timers (by simp [hphase]) (by simp [hphase])
    have hidle := h.idle (by simp [hphase])
    refine Inv.chooses (h.kept.later hread.1) rfl hidle rfl hpc rfl fun e hq hends => ?_
    obtain ⟨e₀, hearliest, he₀, hrecent⟩ := h.recentTimeout hq
    rw [hrecent, Option.some.injEq] at htimeout
    rw [← htimeout] at hends
    rcases hg with hwake | hnot
    · exact hwake
    · exact absurd (hnot e₀ hearliest) ((ends_early_iff hearliest he₀ hread.2).1 ⟨e, hq, hends⟩)
  · cases hs

/-! ## Timers added -/

theorem Inv.adds (h : Inv s) (hs : s.addTimer now k interval = some s')
    (hg : 0 < s.loop.loop.wakeFd ∨ interval ≤ 0 ∨ ∀ began timeoutMs,
      s.phase = .chosen began timeoutMs →
        ¬ EndsAfter began timeoutMs (Timer.deadline now interval)) : Inv s' := by
  rcases addTimer_cases hs with ⟨_, heq⟩ |
    ⟨hinterval, hclock, hnow, hmanager, hpc, hclock', hloop, hphase⟩
  · rw [heq]
    exact h
  · have hkept : TimerManager.System.Kept s'.timer :=
      h.kept.call (c := .addTimer now k interval) ⟨hclock, hnow⟩ hmanager hpc (by omega)
    refine ⟨hkept, ?_, ?_, ?_, ?_⟩
    · rw [hpc, hphase]
      exact h.pass
    · rw [hloop, hphase]
      exact h.polling
    · rw [hloop, hphase]
      exact h.place
    · intro began timeoutMs e hp hq hends
      rw [hphase] at hp
      rw [hloop]
      rcases (queued_addTimer h.kept.valid hinterval hmanager).1 hq with hq | hnew
      · exact h.awake began timeoutMs e hp hq hends
      · rcases hg with hwake | hzero | hlate
        · exact hwake
        · exact absurd hzero hinterval
        · exact absurd (hnew ▸ hends) (hlate began timeoutMs hp)

theorem Inv.not_inUserCode (h : Inv s) {began : Nat} {timeoutMs : Int32}
    (hphase : s.phase = .chosen began timeoutMs) : s.inUserCode = false := by
  have hidle := h.idle (by simp [hphase])
  rcases h.place (by simp [hphase]) with hpc | ⟨hpc, _⟩
  · simp [inUserCode, hpc, hidle]
  · simp [inUserCode, hpc, EventLoop.inUserCode]

/-! ## Runs -/

theorem Inv.start [DecidableEq τ] (h : (machine τ F).start s) : Inv s := by
  obtain ⟨⟨hloop, _⟩, htimer, hphase⟩ := h
  refine ⟨.initial htimer, fun hbusy => absurd htimer.pc hbusy, ?_, fun hp => absurd hphase hp, ?_⟩
  · intro hpc
    rw [hloop] at hpc
    cases hpc
  · intro began timeoutMs e hp
    rw [hphase] at hp
    cases hp

theorem Inv.step [DecidableEq τ] {a : Action τ F} (h : Inv s) (hg : InTime s a)
    (hs : s.step a = some s') : Inv s' := by
  cases a with
  | loop a =>
      obtain ⟨htimer, hmove⟩ := loopMove hs
      exact h.loop htimer hmove
  | checkAndHandle now =>
      simp only [TimedLoop.step] at hs
      split at hs
      · rename_i hpc hphase
        obtain ⟨timer, htimer, hs'⟩ := Option.map_eq_some_iff.1 hs
        subst hs'
        exact .works (h.kept.step htimer) hpc (by simp) (fun _ => rfl)
      · cases hs
  | loopHead =>
      simp only [TimedLoop.step] at hs
      split at hs
      · rename_i hphase
        obtain ⟨timer, htimer, hs'⟩ := Option.map_eq_some_iff.1 hs
        subst hs'
        have hpc := h.at_timers (by simp [hphase]) (by simp [hphase])
        refine .works (h.kept.step htimer) hpc (fun began timeoutMs => ?_)
          (fun hbusy => if_neg hbusy)
        dsimp only
        split <;> simp
      · cases hs
  | callbackReturns =>
      simp only [TimedLoop.step] at hs
      split at hs
      · rename_i hphase
        obtain ⟨timer, htimer, hs'⟩ := Option.map_eq_some_iff.1 hs
        subst hs'
        have hpc := h.at_timers (by simp [hphase]) (by simp [hphase])
        exact .works (h.kept.step htimer) hpc (by simp [hphase]) (fun _ => hphase)
      · cases hs
  | ownRunAfter now k interval =>
      simp only [TimedLoop.step] at hs
      split at hs
      · rename_i huser
        refine h.adds hs (Or.inr (Or.inr fun began timeoutMs hphase => ?_))
        rw [h.not_inUserCode hphase] at huser
        cases huser
      · cases hs
  | runAfter t now k interval =>
      simp only [TimedLoop.step] at hs
      split at hs
      · exact h.adds hs hg
      · cases hs
  | firstTimeout now => exact h.firstTimeout hg hs
  | secondTimeout now => exact h.secondTimeout hg hs

theorem inv_of_reach [DecidableEq τ] (h : (machine τ F).Reach InTime s) : Inv s := by
  apply h.invariant
  · intro s hs
    exact Inv.start hs
  · intro s a s' hI hg hs
    exact hI.step hg hs

/-! ## A poll that ends too late -/

theorem exists_earliest (hq : s.Queued e) : ∃ e₀, s.Earliest e₀ ∧ e₀ ≤ e := by
  classical
  have hex : ∃ e, s.Queued e := ⟨e, hq⟩
  exact ⟨Nat.find hex, ⟨Nat.find_spec hex, fun e' hq' => Nat.find_le hq'⟩, Nat.find_le hq⟩

/-- A timeout that ends after a queued deadline, with the eventfd at 0: the loop is
asleep in the poll, or its next step puts it there. -/
theorem sleeps_too_long [DecidableEq τ] {began : Nat} {timeoutMs : Int32}
    (hpc : s.loop.loop.pc = .timers ∨ s.loop.loop.pc = .polling)
    (hphase : s.phase = .chosen began timeoutMs) (hq : s.Queued e)
    (hends : EndsAfter began timeoutMs e) (hasleep : s.loop.loop.wakeFd = 0) :
    ∃ (steps : List EventLoop.Label) (s' : TimedLoop τ F),
      (machine τ F).run s (steps.map fun b => .loop (.loop b)) = some s' ∧ ¬ NoLostTimer s' := by
  have hlost : ∀ s' : TimedLoop τ F, s'.loop.loop.pc = .polling → s'.phase = s.phase →
      s'.timer = s.timer → s'.loop.loop.wakeFd = 0 → ¬ NoLostTimer s' := by
    intro s' hpc' hphase' htimer hasleep' hno
    obtain ⟨e₀, hearliest, hle⟩ := exists_earliest hq
    have hearliest' : s'.Earliest e₀ := by
      refine ⟨(queued_congr (by rw [htimer])).2 hearliest.1, fun e' hq' => ?_⟩
      exact hearliest.2 e' ((queued_congr (by rw [htimer])).1 hq')
    have hawake := hno began timeoutMs e₀ hpc' (hphase'.trans hphase) hearliest' (hends.mono hle)
    omega
  rcases hpc with hpc | hpc
  · refine ⟨[.startPolling],
      { s with loop := { s.loop with loop := { s.loop.loop with pc := .polling } } }, ?_, ?_⟩
    · simp [machine, Machine.run, step, stepLoop, hphase, EventLoop.System.step, EventLoop.step,
        hpc]
    · exact hlost _ rfl rfl rfl hasleep
  · exact ⟨[], s, rfl, hlost s hpc rfl rfl hasleep⟩

theorem Inv.first_too_late [DecidableEq τ] (h : Inv s) (hg : ¬ InTime s (.firstTimeout now))
    (hs : s.step (.firstTimeout now) = some s') :
    ∃ (steps : List EventLoop.Label) (s'' : TimedLoop τ F),
      (machine τ F).run s' (steps.map fun b => .loop (.loop b)) = some s'' ∧ ¬ NoLostTimer s'' := by
  simp only [InTime, not_or, Classical.not_forall, not_not, Nat.not_lt, Nat.le_zero] at hg
  obtain ⟨hasleep, e, hearliest, hpassed⟩ := hg
  simp only [TimedLoop.step] at hs
  split at hs
  · rename_i hguard
    obtain ⟨hphase, hread⟩ := hguard
    rw [readable_iff] at hread
    obtain ⟨timeout, htimeout, hs'⟩ := Option.map_eq_some_iff.1 hs
    subst hs'
    have hpc := h.at_timers (by simp [hphase]) (by simp [hphase])
    obtain ⟨e₀, hearliest₀, he₀, hrecent⟩ := h.recentTimeout hearliest.1
    have heq : e₀ = e := le_antisymm (hearliest₀.2 e hearliest.1) (hearliest.2 e₀ hearliest₀.1)
    rw [hrecent, Option.some.injEq] at htimeout
    have hnone : timeout = -1 :=
      htimeout.symm.trans ((sub_eq_none_iff he₀ hread.2).2 (by omega))
    refine sleeps_too_long (Or.inl hpc) (if_pos hnone) hearliest.1 (Or.inr ?_) hasleep
    have hpoll : kPollTimeMs.toInt = 10000 := rfl
    omega
  · cases hs

theorem Inv.second_too_late [DecidableEq τ] (h : Inv s) (hg : ¬ InTime s (.secondTimeout now))
    (hs : s.step (.secondTimeout now) = some s') :
    ∃ (steps : List EventLoop.Label) (s'' : TimedLoop τ F),
      (machine τ F).run s' (steps.map fun b => .loop (.loop b)) = some s'' ∧ ¬ NoLostTimer s'' := by
  simp only [InTime, not_or, Classical.not_forall, Nat.not_lt, Nat.le_zero] at hg
  obtain ⟨hasleep, e, hearliest, hlate⟩ := hg
  simp only [TimedLoop.step] at hs
  split at hs
  · rename_i hguard
    obtain ⟨hphase, hread⟩ := hguard
    rw [readable_iff] at hread
    obtain ⟨timeout, htimeout, hs'⟩ := Option.map_eq_some_iff.1 hs
    subst hs'
    have hpc := h.at_timers (by simp [hphase]) (by simp [hphase])
    obtain ⟨e₀, hearliest₀, he₀, hrecent⟩ := h.recentTimeout hearliest.1
    have heq : e₀ = e := le_antisymm (hearliest₀.2 e hearliest.1) (hearliest.2 e₀ hearliest₀.1)
    rw [hrecent, Option.some.injEq] at htimeout
    obtain ⟨e', hq, hends⟩ :=
      (ends_early_iff hearliest₀ he₀ hread.2).2 (by rw [heq, not_or]; exact hlate)
    rw [htimeout] at hends
    exact sleeps_too_long (Or.inl hpc) rfl hq hends hasleep
  · cases hs

theorem Inv.added_too_late [DecidableEq τ] (h : Inv s) {t : τ}
    (hg : ¬ InTime s (.runAfter t now k interval))
    (hs : s.step (.runAfter t now k interval) = some s') :
    ∃ (steps : List EventLoop.Label) (s'' : TimedLoop τ F),
      (machine τ F).run s' (steps.map fun b => .loop (.loop b)) = some s'' ∧ ¬ NoLostTimer s'' := by
  simp only [InTime, not_or, Classical.not_forall, not_not, Nat.not_lt, Nat.le_zero] at hg
  obtain ⟨hasleep, hinterval, began, timeoutMs, hphase, hends⟩ := hg
  simp only [TimedLoop.step] at hs
  split at hs
  · rcases addTimer_cases hs with ⟨hzero, _⟩ | ⟨_, _, _, hmanager, _, _, hloop, hphase'⟩
    · exact absurd hzero hinterval
    · have hq := (queued_addTimer h.kept.valid hinterval hmanager).2 (Or.inr rfl)
      refine sleeps_too_long ?_ (hphase'.trans hphase) hq hends ?_
      · rw [hloop]
        exact (h.place (by simp [hphase])).imp_right And.left
      · rw [hloop]
        exact hasleep
  · cases hs

/-- In every run whose steps are in time, a loop blocked in a poll that ends after the
earliest deadline is about to be woken; and a step that is not in time leads to a poll
that is too long, by steps of the loop alone. -/
theorem polls_end_in_time [DecidableEq τ] (s : TimedLoop τ F)
    (h : (machine τ F).Reach InTime s) :
    NoLostTimer s ∧
    ∀ a s', ¬ InTime s a → s.step a = some s' →
      ∃ (steps : List EventLoop.Label) (s'' : TimedLoop τ F),
        (machine τ F).run s' (steps.map fun b => .loop (.loop b)) = some s'' ∧
          ¬ NoLostTimer s'' := by
  have hI := inv_of_reach h
  constructor
  · intro began timeoutMs e _ hphase hearliest hends
    exact hI.awake began timeoutMs e hphase hearliest.1 hends
  · intro a s' hlate hs
    cases a with
    | firstTimeout now => exact hI.first_too_late hlate hs
    | secondTimeout now => exact hI.second_too_late hlate hs
    | runAfter t now k interval => exact hI.added_too_late hlate hs
    | loop a => exact absurd trivial hlate
    | checkAndHandle now => exact absurd trivial hlate
    | loopHead => exact absurd trivial hlate
    | callbackReturns => exact absurd trivial hlate
    | ownRunAfter now k interval => exact absurd trivial hlate

end Moves

def fresh : TimedLoop Unit Unit :=
  ⟨⟨.new, fun _ => .outside⟩, TimerManager.System.fresh, .outside⟩

/-- Asleep until the timer of the queue is due, with another thread free to add one. -/
structure Asleep (s : TimedLoop Unit Unit) : Prop where
  pc : s.loop.loop.pc = .polling
  phase : s.phase = .chosen 10 40
  wakeFd : s.loop.loop.wakeFd = 0
  earliest : s.Earliest 50
  added : ∃ s', (machine Unit Unit).step s (.runAfter () 15 1 5) = some s'

theorem queued_single {s : TimedLoop Unit Unit} {t d : Nat} {timer : Timer}
    (hque : s.timer.manager.timersQue = [t])
    (hget : s.timer.manager.timers.get t = some timer) (hdue : timer.expiredTime = d) (e : Nat) :
    s.Queued e ↔ e = d := by
  simp [Queued, hque, hget, hdue, eq_comm]

/-- Another thread's timer of 50 ms is queued before the pass; at 10 the loop chooses
40 ms and polls. -/
theorem asleep_reach : ∃ s, (machine Unit Unit).Reach InTime s ∧ Asleep s := by
  have hstart : (machine Unit Unit).Reach InTime fresh :=
    .start ⟨⟨rfl, fun _ => rfl⟩, ⟨rfl, rfl, fun _ => rfl⟩, rfl⟩
  have hrun : ∃ s₁ s₂ s₃ s₄ s₅ s₆ t timer s',
      (machine Unit Unit).run fresh [.loop (.loop .enterLoop), .loop (.loop .resetQuit),
        .loop (.loop .testQuit)] = some s₁ ∧ s₁.phase = .outside ∧
      (machine Unit Unit).step s₁ (.runAfter () 0 1 50) = some s₂ ∧
      (machine Unit Unit).run s₂ [.checkAndHandle 10, .loopHead] = some s₃ ∧
      s₃.timer.manager.timersQue = [t] ∧ s₃.timer.manager.timers.get t = some timer ∧
      timer.expiredTime = 50 ∧
      (machine Unit Unit).step s₃ (.firstTimeout 10) = some s₄ ∧
      s₄.timer.manager = s₃.timer.manager ∧
      (machine Unit Unit).step s₄ (.secondTimeout 10) = some s₅ ∧
      s₅.timer.manager = s₃.timer.manager ∧
      (machine Unit Unit).step s₅ (.loop (.loop .startPolling)) = some s₆ ∧
      s₆.timer.manager = s₃.timer.manager ∧ s₆.loop.loop.pc = .polling ∧
      s₆.phase = .chosen 10 40 ∧ s₆.loop.loop.wakeFd = 0 ∧
      (machine Unit Unit).step s₆ (.runAfter () 15 1 5) = some s' :=
    ⟨_, _, _, _, _, _, _, _, _, rfl, rfl, rfl, rfl, rfl, rfl, rfl, rfl, rfl, rfl, rfl, rfl, rfl,
      rfl, rfl, rfl, rfl⟩
  obtain ⟨s₁, s₂, s₃, s₄, s₅, s₆, t, timer, s', h₁, hphase, h₂, h₃, hque, hget, hdue, h₄, hsame₄,
    h₅, hsame₅, h₆, hsame₆, hpc, hchosen, hwake, hadded⟩ := hrun
  have hsingle : ∀ s : TimedLoop Unit Unit, s.timer.manager = s₃.timer.manager →
      ∀ e, s.Queued e ↔ e = 50 := by
    intro s hs
    exact queued_single (hs ▸ hque) (hs ▸ hget) hdue
  have hreach₁ : (machine Unit Unit).Reach InTime s₁ := hstart.of_run _ (by simp [InTime]) h₁
  have hadd : InTime s₁ (.runAfter () 0 1 50) := by
    refine Or.inr (Or.inr ?_)
    intro began timeoutMs hblocked
    rw [hphase] at hblocked
    cases hblocked
  have hreach₃ : (machine Unit Unit).Reach InTime s₃ :=
    (hreach₁.step hadd h₂).of_run _ (by simp [InTime]) h₃
  have hfirst : InTime s₃ (.firstTimeout 10) := by
    refine Or.inr fun e he => ?_
    rw [(hsingle s₃ rfl e).1 he.1]
    decide
  have hsecond : InTime s₄ (.secondTimeout 10) := by
    refine Or.inr fun e he => ?_
    rw [(hsingle s₄ hsame₄ e).1 he.1]
    exact Or.inl (by decide)
  have hreach₅ := (hreach₃.step hfirst h₄).step hsecond h₅
  refine ⟨s₆, hreach₅.step (show InTime s₅ (.loop (.loop .startPolling)) from trivial) h₆, hpc,
    hchosen, hwake, ⟨(hsingle s₆ hsame₆ 50).2 rfl, ?_⟩, s', hadded⟩
  intro e he
  exact ((hsingle s₆ hsame₆ e).1 he).ge

theorem Asleep.late {s : TimedLoop Unit Unit} (h : Asleep s) :
    ¬ InTime s (.runAfter () 15 1 5) := by
  simp only [InTime, h.phase, h.wakeFd]
  rintro (hwake | hzero | hends)
  · exact absurd hwake (lt_irrefl 0)
  · exact absurd hzero (by decide)
  · exact hends 10 40 rfl (Or.inr ⟨by decide, by decide⟩)

/-- The poll ends when the queued timer is due, and a timer due before it that another
thread adds is not in time. -/
theorem polls_end_in_time_asleep :
    ∃ s : TimedLoop Unit Unit, s.loop.loop.pc = .polling ∧ s.Earliest 50 ∧ NoLostTimer s ∧
      ∃ s', s.step (.runAfter () 15 1 5) = some s' ∧
        ∃ (steps : List EventLoop.Label) (s'' : TimedLoop Unit Unit),
          (machine Unit Unit).run s' (steps.map fun b => .loop (.loop b)) = some s'' ∧
            ¬ NoLostTimer s'' := by
  obtain ⟨s, hreach, hasleep⟩ := asleep_reach
  obtain ⟨s', hs'⟩ := hasleep.added
  have hmain := polls_end_in_time s hreach
  exact ⟨s, hasleep.pc, hasleep.earliest, hmain.1, s', hs', hmain.2 _ s' hasleep.late hs'⟩

/-- A timer due at 20 waits for the poll's end at 50. -/
theorem timer_added_asleep :
    ¬ ∀ s, (machine Unit Unit).Reach (fun _ _ => True) s → NoLostTimer s := by
  intro hall
  obtain ⟨s, hreach, hasleep⟩ := asleep_reach
  obtain ⟨s', hs'⟩ := hasleep.added
  have hreach' : (machine Unit Unit).Reach (fun _ _ => True) s := by
    apply hreach.invariant
    · intro s hs
      exact .start hs
    · intro s a s' hI _ hs
      exact .step hI trivial hs
  obtain ⟨steps, s'', hs'', hlost⟩ :=
    (inv_of_reach hreach).added_too_late hasleep.late hs'
  have hreach'' : (machine Unit Unit).Reach (fun _ _ => True) s'' :=
    (hreach'.step trivial hs').of_run _ (fun _ _ _ => trivial) hs''
  exact hlost (hall s'' hreach'')

end TimedLoop

end MyNetLib
