import MyNetLib.Reactor.EventLoop

/-! # Queued functors and the poll

When the loop enters `Polling` with functors pending, the eventfd must already
be readable or about to become so. `QueueInLoop` writes it on another thread
and while pending functors run; a call on the loop's own thread from a timer
callback, or outside `Loop()`, does not, although the poll follows it.
-/

namespace MyNetLib.EventLoop.System

open Library

variable {τ F : Type}

/-- The poll returns at once, or a caller is between its `emplace_back` and its `Wakeup`. -/
def Awake (s : System τ F) : Prop :=
  0 < s.loop.wakeFd ∨ ∃ t, s.callers t = .queueing

def NoLostWakeup (s : System τ F) : Prop :=
  s.loop.pc = .polling → s.loop.pendingFunctors ≠ [] → Awake s

/-- A call of `QueueInLoop` on the loop's own thread that no pass of pending
functors precedes the next poll for happens only while the loop is awake. -/
def Announced (s : System τ F) : Action τ F → Prop
  | .ownQueue _ => s.loop.pc = .idle ∨ s.loop.pc = .timers → Awake s
  | _ => True

/-! ## The invariant -/

/-- Positions from which the next poll is entered before the next swap. -/
def beforePoll : Pc F → Bool
  | .handling _ | .swapping => false
  | _ => true

def inFunctors : Pc F → Bool
  | .swapping | .running _ => true
  | _ => false

structure WakeInv (s : System τ F) : Prop where
  calling : s.loop.callingPendingFunctors = inFunctors s.loop.pc
  awake : beforePoll s.loop.pc = true → s.loop.pendingFunctors ≠ [] → Awake s

theorem WakeInv.start {s : System τ F} (h : s.loop = .new) : WakeInv s := by
  constructor
  · rw [h]
    rfl
  · intro _ hne
    rw [h] at hne
    exact absurd rfl hne

/-- The loop thread only reads the counter in the handling phase, and empties
the queue on the way out of it. -/
theorem WakeInv.loop_step {s : System τ F} (h : WakeInv s) {a : Label} {l : EventLoop F}
    (hs : s.loop.step a = some l) : WakeInv ({ s with loop := l } : System τ F) := by
  obtain ⟨hcall, hawake⟩ := h
  cases step_move hs with
  | enterLoop hpc =>
      rw [hpc] at hcall hawake
      exact ⟨hcall, fun _ => hawake rfl⟩
  | resetQuit hpc =>
      rw [hpc] at hcall hawake
      exact ⟨hcall, fun _ => hawake rfl⟩
  | leave hpc _ =>
      rw [hpc] at hcall hawake
      exact ⟨hcall, fun _ => hawake rfl⟩
  | iterate hpc _ =>
      rw [hpc] at hcall hawake
      exact ⟨hcall, fun _ => hawake rfl⟩
  | startPolling hpc =>
      rw [hpc] at hcall hawake
      exact ⟨hcall, fun _ => hawake rfl⟩
  | pollReturns wake hpc _ =>
      rw [hpc] at hcall
      exact ⟨hcall, fun hb => by simp [beforePoll] at hb⟩
  | handleWakeup hpc =>
      rw [hpc] at hcall
      exact ⟨hcall, fun hb => by simp [beforePoll] at hb⟩
  | doPendingFunctors hpc => exact ⟨rfl, fun hb => by simp [beforePoll] at hb⟩
  | swapFunctors hpc =>
      rw [hpc] at hcall
      exact ⟨hcall, fun _ hne => absurd rfl hne⟩
  | runFunctor f rest hpc =>
      rw [hpc] at hcall hawake
      exact ⟨hcall, fun _ => hawake rfl⟩
  | finishFunctors hpc =>
      rw [hpc] at hawake
      exact ⟨rfl, fun _ => hawake rfl⟩

/-- A call on the loop's own thread is covered by the next swap, by its own
wakeup, or by the guard. -/
theorem WakeInv.ownQueue {s : System τ F} (h : WakeInv s) (f : F)
    (huser : s.loop.inUserCode = true) (hg : Announced s (.ownQueue f)) :
    WakeInv ({ s with loop := s.loop.queueInLoop f } : System τ F) := by
  constructor
  · simpa using h.calling
  · intro hb _
    simp only [queueInLoop_pc] at hb
    simp only [Announced] at hg
    have hkeep : Awake s → Awake ({ s with loop := s.loop.queueInLoop f } : System τ F) := by
      intro hs
      rcases hs with hfd | hcaller
      · left
        simp only [queueInLoop]
        split
        · exact wakeup_wakeFd_pos _
        · exact hfd
      · exact Or.inr hcaller
    cases hpc : s.loop.pc with
    | idle => exact hkeep (hg (Or.inl hpc))
    | timers => exact hkeep (hg (Or.inr hpc))
    | running rest =>
        left
        have hcall : (s.loop.emplace f).callingPendingFunctors = true := by
          show s.loop.callingPendingFunctors = true
          rw [h.calling, hpc]
          rfl
        simp only [queueInLoop, hcall, if_true]
        exact wakeup_wakeFd_pos _
    | handling wake => simp [hpc, beforePoll] at hb
    | swapping => simp [hpc, beforePoll] at hb
    | entered => simp [inUserCode, hpc] at huser
    | head => simp [inUserCode, hpc] at huser
    | polling => simp [inUserCode, hpc] at huser

section Runs

variable [DecidableEq τ]

theorem WakeInv.step {s s' : System τ F} {a : Action τ F} (h : WakeInv s) (hg : Announced s a)
    (hs : s.step a = some s') : WakeInv s' := by
  cases a with
  | loop a =>
      simp only [System.step, Option.map_eq_some_iff] at hs
      obtain ⟨l, hl, rfl⟩ := hs
      exact h.loop_step hl
  | ownQueue f =>
      simp only [System.step] at hs
      split at hs <;> try contradiction
      rename_i huser
      cases hs
      exact h.ownQueue f huser hg
  | ownQuit =>
      simp only [System.step] at hs
      split at hs <;> try contradiction
      cases hs
      exact ⟨h.calling, h.awake⟩
  | emplace t f =>
      simp only [System.step] at hs
      split at hs <;> try contradiction
      cases hs
      exact ⟨h.calling, fun _ _ => Or.inr ⟨t, by simp [setCaller]⟩⟩
  | quit t =>
      simp only [System.step] at hs
      split at hs <;> try contradiction
      rename_i hout
      cases hs
      refine ⟨h.calling, ?_⟩
      intro hb hne
      rcases h.awake hb hne with hfd | ⟨u, hu⟩
      · exact Or.inl hfd
      · have hut : u ≠ t := by
          intro heq
          rw [heq, hout] at hu
          cases hu
        exact Or.inr ⟨u, by simp [setCaller, hut, hu]⟩
  | wakeup t =>
      simp only [System.step] at hs
      split at hs <;> try contradiction
      cases hs
      refine ⟨?_, fun _ _ => Or.inl (wakeup_wakeFd_pos _)⟩
      simpa [setCaller] using h.calling

theorem wakeInv_of_reach {s : System τ F} (h : (machine τ F).Reach Announced s) : WakeInv s := by
  apply h.invariant
  · intro s hs
    exact WakeInv.start hs.1
  · intro s a s' hI hg hs
    exact hI.step hg hs

/-! ## A silent call is lost -/

/-- From a timer callback the poll is the loop's next step; from outside `Loop()`
the loop thread enters it and reaches the poll with the same queue. -/
theorem silent_queue_lost {s : System τ F} (h : WakeInv s) (f : F)
    (hpc : s.loop.pc = .idle ∨ s.loop.pc = .timers) (hasleep : ¬ Awake s) :
    ∃ (steps : List Label) (s' : System _ _),
      (machine τ F).run s (.ownQueue f :: steps.map .loop) = some s' ∧ ¬ NoLostWakeup s' := by
  have hlost : ∀ s' : System τ F, s'.loop.pc = .polling →
      s'.loop.pendingFunctors = s.loop.pendingFunctors ++ [f] →
      s'.loop.wakeFd = s.loop.wakeFd → s'.callers = s.callers → ¬ NoLostWakeup s' := by
    intro s' hp hq hfd hc hno
    apply hasleep
    have hawake := hno hp (by simp [hq])
    rwa [Awake, hfd, hc] at hawake
  rcases hpc with hpc | hpc
  · have hcall : s.loop.callingPendingFunctors = false := by
      rw [h.calling, hpc]
      rfl
    refine ⟨[.enterLoop, .resetQuit, .testQuit, .startPolling],
      { s with loop := { s.loop.emplace f with
        looping := true, quit := false, pc := .polling } }, ?_, ?_⟩
    · simp [machine, Machine.run, System.step, inUserCode, hpc,
        queueInLoop_of_not_calling f hcall, EventLoop.step, emplace]
    · exact hlost _ rfl rfl rfl rfl
  · have hcall : s.loop.callingPendingFunctors = false := by
      rw [h.calling, hpc]
      rfl
    refine ⟨[.startPolling], { s with loop := { s.loop.emplace f with pc := .polling } }, ?_, ?_⟩
    · simp [machine, Machine.run, System.step, inUserCode, hpc,
        queueInLoop_of_not_calling f hcall, EventLoop.step, emplace]
    · exact hlost _ rfl rfl rfl rfl

/-- In every run whose silent calls find the loop awake, no poll is entered
asleep with functors pending; and a silent call that finds it asleep is followed
by such a poll as soon as the loop thread runs on. -/
theorem polls_awake_iff_announced (s : System τ F) (h : (machine τ F).Reach Announced s) :
    NoLostWakeup s ∧
    ∀ f, ¬ Announced s (.ownQueue f) →
      ∃ (steps : List Label) (s' : System _ _),
        (machine τ F).run s (.ownQueue f :: steps.map .loop) = some s' ∧
          ¬ NoLostWakeup s' := by
  have hI := wakeInv_of_reach h
  constructor
  · intro hpc hne
    exact hI.awake (by rw [hpc]; rfl) hne
  · intro f hsilent
    simp only [Announced, Classical.not_imp] at hsilent
    exact silent_queue_lost hI f hsilent.1 hsilent.2

end Runs

def fresh : System Unit Unit := ⟨.new, fun _ => .outside⟩

theorem fresh_reach (guard : System Unit Unit → Action Unit Unit → Prop) :
    (machine Unit Unit).Reach guard fresh :=
  .start ⟨rfl, fun _ => rfl⟩

/-- Another thread's functor and one of a timer callback, queued before that thread's
`Wakeup`, are pending when the poll is entered. An iteration later a timer callback is
silent. -/
theorem polls_awake_iff_announced_late_call : ∃ s t : System Unit Unit,
    s.loop.pc = .polling ∧ s.loop.pendingFunctors.length = 2 ∧ Awake s ∧
      (machine Unit Unit).Follows Announced s t ∧ ¬ Announced t (.ownQueue ()) ∧
      ∃ (steps : List Label) (s' : System Unit Unit),
        (machine Unit Unit).run t (.ownQueue () :: steps.map .loop) = some s' ∧
          ¬ NoLostWakeup s' := by
  have hrun : ∃ s₁ s₂ s t : System Unit Unit,
      (machine Unit Unit).run fresh [.loop .enterLoop, .loop .resetQuit, .loop .testQuit,
        .emplace () ()] = some s₁ ∧ s₁.callers () = .queueing ∧
      s₁.step (.ownQueue ()) = some s₂ ∧ s₂.step (.loop .startPolling) = some s ∧
      s.loop.pc = .polling ∧ s.loop.pendingFunctors = [(), ()] ∧
      (machine Unit Unit).run s [.wakeup (), .loop (.pollReturns true), .loop .handleWakeup,
        .loop .doPendingFunctors, .loop .swapFunctors, .loop .runFunctor, .loop .runFunctor,
        .loop .finishFunctors, .loop .testQuit] = some t ∧
      t.loop.pc = .timers ∧ t.loop.wakeFd = 0 ∧ t.callers () = .outside :=
    ⟨_, _, _, _, rfl, rfl, rfl, rfl, rfl, rfl, rfl, rfl, rfl, rfl⟩
  obtain ⟨s₁, s₂, s, t, hs₁, hqueueing, hs₂, hs, hpolling, hpending, ht, htimers, hread,
    houtside⟩ := hrun
  have h₁ := (fresh_reach Announced).of_run _ (by simp [Announced]) hs₁
  have h₂ := h₁.step (show Announced s₁ (.ownQueue ()) from fun _ => Or.inr ⟨(), hqueueing⟩) hs₂
  have h₃ := h₂.step (show Announced s₂ (.loop .startPolling) from trivial) hs
  have hawake := (polls_awake_iff_announced s h₃).1 hpolling (by simp [hpending])
  have hrest : (machine Unit Unit).Follows Announced s t := .of_run _ (by simp [Announced]) ht
  have hsilent : ¬ Announced t (.ownQueue ()) := by
    simp [Announced, Awake, htimers, hread, houtside]
  exact ⟨s, t, hpolling, by simp [hpending], hawake, hrest, hsilent,
    (polls_awake_iff_announced t (h₃.follows hrest)).2 () hsilent⟩

/-- A timer callback queues a functor; the poll that follows has nothing to wake it. -/
theorem timer_callback_queue_sleeps :
    ¬ ∀ s, (machine Unit Unit).Reach (fun _ _ => True) s → NoLostWakeup s := by
  intro hall
  have hreach := (fresh_reach fun _ _ => True).of_run
    [.loop .enterLoop, .loop .resetQuit, .loop .testQuit, .ownQueue (), .loop .startPolling]
    (fun _ _ _ => trivial) rfl
  have hno := hall _ hreach rfl (by decide)
  simp [Awake, fresh, new, queueInLoop, emplace] at hno

end MyNetLib.EventLoop.System
