import MyNetLib.Logging.Spares

/-! # What `Stop` leaves behind

`running_` is tested at the loop head only. After `Stop` clears it the backend
finishes the iteration it is in, and that iteration takes the queue and the
current buffer exactly when its critical section is still to come. There is no
swap after the loop.
-/

namespace MyNetLib.AsyncLogging

open Library

variable {size : Nat}

/-- Past the test of `running_` and before the swap of the same iteration. -/
def BeforeSwap (s : AsyncLogging size) : Prop := s.pc = .locking ∨ s.pc = .waiting

/-- `Stop` clears the flag before a swap that will still happen, or with no text queued. -/
def StopsInTime (s : AsyncLogging size) : Prop :=
  BeforeSwap s ∨ (front s).flatten = []

/-! ## Steps after the flag is cleared -/

theorem not_beforeSwap {s : AsyncLogging size} {pc : Pc} (hpc : s.pc = pc)
    (h1 : pc ≠ .locking) (h2 : pc ≠ .waiting) : ¬ BeforeSwap s := by
  intro h
  rcases h with h | h
  · exact h1 (hpc.symm.trans h)
  · exact h2 (hpc.symm.trans h)

theorem window_elsewhere {s s' : AsyncLogging size} {pc pc' : Pc} (hpc : s.pc = pc)
    (hpc' : s'.pc = pc') (hout : ∀ p ∈ [pc, pc'], p ≠ .locking ∧ p ≠ .waiting) :
    BeforeSwap s' ↔ BeforeSwap s := by
  have hafter := hout pc' (by simp)
  have hbefore := hout pc (by simp)
  exact iff_of_false (not_beforeSwap hpc' hafter.1 hafter.2)
    (not_beforeSwap hpc hbefore.1 hbefore.2)

/-- With the flag cleared, the window before a swap is entered no more and left by the
swap only. -/
theorem Move.window {s s' : AsyncLogging size} (hm : Move s s') (hrun : s.running = false) :
    (BeforeSwap s ∧ s' = s.swapBuffers) ∨ (BeforeSwap s' ↔ BeforeSwap s) := by
  cases hm with
  | enter _ hrun' _ =>
      rw [hrun] at hrun'
      cases hrun'
  | wait hpc => exact Or.inr ⟨fun _ => Or.inl hpc, fun _ => Or.inr rfl⟩
  | swap hpc => exact Or.inl ⟨hpc, rfl⟩
  | fails _ _ => exact Or.inr Iff.rfl
  | leave hpc _ => exact Or.inr (window_elsewhere hpc rfl (by simp))
  | check hpc _ => exact Or.inr (window_elsewhere hpc rfl (by simp))
  | write i b hpc _ => exact Or.inr (window_elsewhere hpc rfl (by simp))
  | endWrite i hpc _ => exact Or.inr (window_elsewhere hpc rfl (by simp))
  | resize hpc => exact Or.inr (window_elsewhere hpc rfl (by simp))
  | refill b1 b2 v1 v2 hpc _ _ => exact Or.inr (window_elsewhere hpc rfl (by simp))

theorem Move.running {s s' : AsyncLogging size} (hm : Move s s') : s'.running = s.running := by
  cases hm <;> rfl

theorem Move.stopReturned {s s' : AsyncLogging size} (hm : Move s s') :
    s'.stopReturned = s.stopReturned := by
  cases hm <;> rfl

theorem backend_of_done {s : AsyncLogging size} (h : s.pc = .done) : s.backend = none := by
  simp [AsyncLogging.backend, h]

theorem Move.started {s s' : AsyncLogging size} (hm : Move s s') (h : s.pc ≠ .notStarted) :
    s'.pc ≠ .notStarted := by
  cases hm with
  | fails _ _ => exact h
  | _ => nofun

/-- The backend is stopping: it will not pass the loop head again. -/
structure Stopping (s : AsyncLogging size) : Prop where
  cleared : s.running = false
  started : s.pc ≠ .notStarted

/-- Once the flag is cleared, the only text a step secures is that of a swap
the backend was already on its way to. -/
theorem Stopping.step {s s' : AsyncLogging size} {a : Action size} (h : Stopping s)
    (hs : s.step a = some s') :
    Stopping s' ∧ s.appended <+: s'.appended ∧
      ((BeforeSwap s ∧ s' = s.swapBuffers) ∨
        (secured s' = secured s ∧ (BeforeSwap s' ↔ BeforeSwap s))) := by
  unfold AsyncLogging.step at hs
  split at hs <;> try contradiction
  cases a with
  | append msg =>
      cases hs
      have hsec := append_secured s msg
      obtain ⟨_, _, _, _, _, happ, hprefix⟩ := append_frame s msg
      rw [happ] at hsec ⊢
      exact ⟨⟨h.cleared, h.started⟩, hprefix, Or.inr ⟨hsec, Iff.rfl⟩⟩
  | start =>
      dsimp only at hs
      split at hs <;> cases hs
      exact absurd ‹s.pc = .notStarted› h.started
  | backend =>
      have hm := backend_move hs
      refine ⟨⟨hm.running.trans h.cleared, hm.started h.started⟩, ?_⟩
      rcases hm.sameText with ⟨hpc, rfl⟩ | hsame
      · exact ⟨List.prefix_rfl, Or.inl ⟨hpc, rfl⟩⟩
      · refine ⟨hsame.appended ▸ List.prefix_rfl, ?_⟩
        rcases hm.window h.cleared with hswap | hwindow
        · exact Or.inl hswap
        · exact Or.inr ⟨hsame.secured, hwindow⟩
  | stop =>
      dsimp only at hs
      split at hs <;> cases hs
      exact ⟨⟨rfl, h.started⟩, List.prefix_rfl, Or.inr ⟨rfl, Iff.rfl⟩⟩
  | stopReturns =>
      dsimp only at hs
      split at hs <;> cases hs
      exact ⟨⟨h.cleared, h.started⟩, List.prefix_rfl, Or.inr ⟨rfl, Iff.rfl⟩⟩

/-! ## Runs after the flag is cleared -/

theorem stopReturned_step {s s' : AsyncLogging size} {a : Action size}
    (h : s.stopReturned = true → s.pc = .done) (hs : s.step a = some s') :
    s'.stopReturned = true → s'.pc = .done := by
  unfold AsyncLogging.step at hs
  split at hs <;> try contradiction
  cases a with
  | append msg =>
      cases hs
      obtain ⟨_, _, _, _, _, happ, _⟩ := append_frame s msg
      rw [happ]
      exact h
  | start =>
      dsimp only at hs
      split at hs <;> cases hs
      intro hret
      rw [h hret] at *
      contradiction
  | backend =>
      intro hret
      rw [(backend_move hs).stopReturned] at hret
      have hnone := backend_of_done (h hret)
      exact absurd (hs.symm.trans hnone) (by simp)
  | stop =>
      dsimp only at hs
      split at hs <;> cases hs
      exact h
  | stopReturns =>
      dsimp only at hs
      split at hs <;> cases hs
      rename_i hdone
      exact fun _ => hdone.1

theorem bytes_prefix {xs ys : List (Msg size)} (h : xs <+: ys) : bytes xs <+: bytes ys := by
  obtain ⟨zs, rfl⟩ := h
  rw [bytes_append]
  exact List.prefix_append _ _

theorem done_of_stopReturned {guard : AsyncLogging size → Action size → Prop}
    {s : AsyncLogging size} (h : (machine size).Reach guard s) :
    s.stopReturned = true → s.pc = .done := by
  apply h.invariant
  · intro s hs hret
    cases hs
    cases hret
  · intro s a s' hI _ hs
    exact stopReturned_step hI hs

section Tail

variable {guard : AsyncLogging size → Action size → Prop} {s₁ s₂ s : AsyncLogging size}

theorem secured_of_late_stop (hst : Stopping s₂) (hwindow : ¬ BeforeSwap s₂)
    (h : (machine size).Follows guard s₂ s) : secured s = secured s₂ := by
  have hI : Stopping s ∧ ¬ BeforeSwap s ∧ secured s = secured s₂ := by
    apply h.invariant
    · exact ⟨hst, hwindow, rfl⟩
    · intro t a t' hI _ ht
      rcases hI.1.step ht with ⟨hst', _, ⟨hbefore, _⟩ | ⟨hsec, hback⟩⟩
      · exact absurd hbefore hI.2.1
      · exact ⟨hst', fun hb => hI.2.1 (hback.1 hb), by rw [hsec, hI.2.2]⟩
  exact hI.2.2

/-- Cleared inside the window, the swap still to come secures all that was appended. -/
theorem secured_of_early_stop (hst : Stopping s₂) (hc : ConsInv s₂) (hwindow : BeforeSwap s₂)
    (h : (machine size).Follows guard s₂ s) :
    BeforeSwap s ∨ bytes s₂.appended <+: (secured s).flatten := by
  have hI : Stopping s ∧ ConsInv s ∧ s₂.appended <+: s.appended ∧
      (BeforeSwap s ∨ bytes s₂.appended <+: (secured s).flatten) := by
    apply h.invariant
    · exact ⟨hst, hc, List.prefix_rfl, Or.inl hwindow⟩
    · intro t a t' hI _ ht
      obtain ⟨hstop, hcons, happ, hsecured⟩ := hI
      obtain ⟨hstop', happ', hcase⟩ := hstop.step ht
      refine ⟨hstop', hcons.step ht, happ.trans happ', ?_⟩
      rcases hcase with ⟨hbefore, rfl⟩ | ⟨hsec, hwindow'⟩
      · right
        rw [swapBuffers_secured hbefore, hcons.grouped.flatten]
        exact bytes_prefix happ
      · rw [hsec, hwindow']
        exact hsecured
  exact hI.2.2.2

end Tail

/-- By the time `Stop` returns, every message appended before it was called has
been handed to the log file exactly when the flag was cleared between a loop
head and its swap, or with no text queued. -/
theorem stop_drains_iff_in_time (s₁ s₂ s₃ : AsyncLogging size)
    (h : (machine size).Reach batchBounded s₁) (hstop : s₁.step .stop = some s₂)
    (htail : (machine size).Follows batchBounded s₂ s₃) (hret : s₃.stopReturned = true) :
    bytes s₁.appended <+: s₃.logFile.flatten ↔ StopsInTime s₁ := by
  have hbound : batchBounded s₁ .stop := trivial
  have hreach₂ : (machine size).Reach batchBounded s₂ := .step h hbound hstop
  have hdone := done_of_stopReturned (hreach₂.follows htail) hret
  have hlog : secured s₃ = s₃.logFile := by simp [secured, unwritten, hdone]
  have hc := consInv_of_reach h
  rw [← hlog]
  unfold AsyncLogging.step at hstop
  split at hstop <;> try contradiction
  dsimp only at hstop
  split at hstop <;> cases hstop
  rename_i hrunning
  have hstopping : Stopping { s₁ with running := false, stopCalled := true } :=
    ⟨rfl, hrunning.1⟩
  by_cases hwindow : BeforeSwap s₁
  · rcases secured_of_early_stop hstopping (consInv_of_reach hreach₂) hwindow htail with
      hbefore | hsecured
    · exact absurd hbefore (not_beforeSwap hdone (by simp) (by simp))
    · exact iff_of_true hsecured (Or.inl hwindow)
  · have hsecured := secured_of_late_stop hstopping hwindow htail
    have htext := hc.grouped.flatten
    rw [List.flatten_append] at htext
    rw [hsecured, ← htext]
    change (secured s₁).flatten ++ (front s₁).flatten <+: (secured s₁).flatten ↔ _
    constructor
    · intro hprefix
      have hlen := hprefix.length_le
      rw [List.length_append] at hlen
      exact Or.inr (List.eq_nil_of_length_eq_zero (by omega))
    · intro htime
      rcases htime with hbefore | hempty
      · exact absurd hbefore hwindow
      · simp [hempty]

/-- A message appended, and `Stop` called, while the backend waits in its critical section. -/
theorem stop_drains_while_waiting :
    ∃ s₁ s₂ s₃ : AsyncLogging 4,
      (machine 4).runGuarded batchBounded new
        [.start, .backend, .backend, .append ⟨[1, 2], by decide⟩] = some s₁ ∧
      s₁.step .stop = some s₂ ∧
      (machine 4).runGuarded batchBounded s₂
        (List.replicate 7 .backend ++ [.stopReturns]) = some s₃ ∧
      s₃.stopReturned = true ∧ bytes s₁.appended <+: s₃.logFile.flatten := by
  refine ⟨_, _, _, rfl, rfl, rfl, rfl, ?_⟩
  have h₀ : (machine 4).Reach batchBounded new := .start rfl
  have h₁ := h₀.of_runGuarded [.start, .backend, .backend, .append ⟨[1, 2], by decide⟩] rfl
  have hiff := stop_drains_iff_in_time _ _ _ h₁ rfl
    (.of_runGuarded (List.replicate 7 .backend ++ [.stopReturns]) .refl rfl) rfl
  exact hiff.2 (Or.inl (Or.inr rfl))

/-- `Append` returns, then `Stop` clears the flag before the backend's first
test of it: the backend ends at once and the message stays in `cur_buffer_`. -/
theorem stop_before_first_iteration_loses :
    ¬ ∀ s₁ s₂ s₃ : AsyncLogging FixedBuffer.kBigBufferSize,
      (machine FixedBuffer.kBigBufferSize).Reach batchBounded s₁ → s₁.step .stop = some s₂ →
      (machine FixedBuffer.kBigBufferSize).Follows batchBounded s₂ s₃ →
      s₃.stopReturned = true → bytes s₁.appended <+: s₃.logFile.flatten := by
  intro hclaim
  have h₀ : (machine FixedBuffer.kBigBufferSize).Reach batchBounded new := .start rfl
  have h₁ := h₀.of_runGuarded [.start, .append ⟨[72, 105], by decide⟩] rfl
  have hprefix := hclaim _ _ _ h₁ rfl (.of_runGuarded [.backend, .stopReturns] .refl rfl) rfl
  have hlen := hprefix.length_le
  exact absurd hlen (by decide)

end MyNetLib.AsyncLogging
