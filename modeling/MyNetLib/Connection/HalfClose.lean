import MyNetLib.Connection.Account

/-! # `Send` before `ShutDown`

`ShutdownInLoop` looks at the write bit only: it knows nothing of the queue, and
after a disconnection the write bit says nothing about the buffer. Where neither
is in the way, what was sent before `ShutDown` is with the kernel before the
half-close.
-/

namespace MyNetLib.TcpConnection.System

open Library

variable {τ : Type} {s s' : System τ} {a : Action τ} {i : Nat}

/-! ## Half-closing steps -/

/-- The step calls `shutdown(SHUT_WR)`, as far as the state before it tells: a
`ShutDown` on the loop thread, a queued `ShutdownInLoop`, or the `HandleWrite`
that empties the buffer. -/
def halfCloses (s : System τ) : Action τ → Bool
  | .ownShutDown => s.conn.state == .kConnected && !s.conn.isWriting
  | .runFunctor _ _ =>
      !s.conn.isWriting &&
        match s.loop.pc with
        | .running (.shutdownInLoop :: _) => true
        | _ => false
  | .handleWrite (.wrote n) =>
      s.conn.isWriting && s.conn.state == .kDisconnecting && n == s.conn.outputBuffer.readableBytes
  | _ => false

theorem halfCloses_of_halfClose (h : HalfClose s s' a) : s.halfCloses a = true := by
  cases h with
  | shutdownInLoop w junk rest hpc hbit _ => simp [halfCloses, hpc, hbit]
  | shutDown hstate hbit _ => simp [halfCloses, hstate, hbit]
  | handleWrite hbit hstate _ => simp [halfCloses, hbit, hstate]

/-- The `Send`s that returned before the `ShutDown`s called so far, the present one included. -/
def owed (s : System τ) : Action τ → List Nat
  | .ownShutDown => s.promised ++ s.returned
  | _ => s.promised

/-- A half-close is not taken with an owed payload still queued, or after a
disconnection that left owed bytes behind. -/
def Settled (s : System τ) (a : Action τ) : Prop :=
  s.halfCloses a = true →
    s.closedLeft = false ∧ ∀ i ∈ s.owed a, s.hasBytes i = true → s.isQueued i = false

/-- A step that frees no memory and half-closes nothing keeps to the conditions. -/
theorem quiet_step (hfault : FaultFree a) (hmem : s.memoryAfter a = s.mem)
    (hopen : s.halfCloses a = false) : FaultFree a ∧ KeepsInFlight s a ∧ Settled s a :=
  ⟨hfault, fun _ _ _ => by rw [hmem], fun hhalf => by simp [hopen] at hhalf⟩

theorem isQueued_of_halfCloses (hm : QueueMove s s' a) (hhalf : s.halfCloses a = true)
    (h : s.isQueued i = false) : s'.isQueued i = false := by
  by_contra hq
  rw [Bool.not_eq_false, isQueued_iff] at hq
  obtain ⟨r, hr⟩ := hq
  have hold : Queued s i := by
    cases hm with
    | same _ heq => exact ⟨r, by rwa [heq] at hr⟩
    | push _ f hf heq =>
        rw [heq, List.mem_append, List.mem_singleton] at hr
        rcases hr with hr | rfl
        · exact ⟨r, hr⟩
        · cases hf
          cases hhalf
    | run _ _ f _ _ heq _ =>
        exact ⟨r, by rw [heq]; exact List.mem_cons_of_mem _ hr⟩
  rw [isQueued_iff.2 hold] at h
  cases h

variable [DecidableEq τ]

/-- A half-close promises nothing new but on the loop thread, and queues no `SendInLoop`. -/
theorem owed_of_halfCloses (hm : CallerMove s s' a) (hhalf : s.halfCloses a = true)
    (hi : i ∈ s'.promised) : i ∈ s.owed a := by
  rcases promised_cases hm with heq | ⟨heq, _, rfl | ⟨t, rfl⟩⟩
  · rw [heq] at hi
    unfold owed
    split
    · exact List.mem_append_left _ hi
    · exact hi
  · rwa [heq] at hi
  · cases hhalf

theorem calls_of_halfCloses (hm : CallerMove s s' a) (hhalf : s.halfCloses a = true) :
    s'.calls = s.calls := by
  apply hm.calls_eq
  · cases a <;> first | exact trivial | cases hhalf
  · intro src w heq
    subst heq
    cases hhalf

/-- In every run without write faults whose steps leave the memory of messages in
flight alone, and which half-closes only with no owed payload queued and no owed
bytes lost to a disconnection: when `shutdown(SHUT_WR)` is called, the kernel has
the whole payload of every `Send` that returned before the `ShutDown`. -/
theorem sent_before_shutdown_delivered (s s' : System τ) (a : Action τ)
    (h : (machine τ).Reach (fun s a => FaultFree a ∧ KeepsInFlight s a ∧ Settled s a) s)
    (hfault : FaultFree a) (hsettled : Settled s a)
    (hs : s.step a = some s') (hshut : s'.conn.socket.shutdowns ≠ s.conn.socket.shutdowns) :
    ∀ i ∈ s'.promised, Delivered s' i := by
  obtain ⟨hI, hC, hA⟩ := accountInv_of_reach (fun _ _ hg => ⟨hg.1, hg.2.1⟩) h
  have hv := step_views hs
  have hI' := hI.move hv.conn hfault
  have hA' := hA.step hI hC hs
  have hhalf := halfCloses_of_halfClose (halfClose_of_shutdowns hI.wellFormed hv.conn hshut)
  obtain ⟨hleft, hclear⟩ := hsettled hhalf
  intro i hi
  cases hc : s.closed with
  | true =>
      obtain ⟨hc', hleft'⟩ := closed_step hv.conn hc
      exact hA'.settled hc' (hleft'.trans hleft) i hi
  | false =>
      have hc' : s'.closed = false := by
        rcases closed_cases hv.conn with ⟨hsame, _⟩ | ⟨b, frames, rfl⟩
        · exact hsame.trans hc
        · exact absurd rfl hshut
      refine delivered_of_unqueued hI' hA' hc' (hA'.promised i hi) ?_
      intro hbytes
      rw [hasBytes, calls_of_halfCloses hv.callers hhalf] at hbytes
      have hqueue := hclear i (owed_of_halfCloses hv.callers hhalf hi) hbytes
      exact ⟨hI.shutdown_empty hv.conn (fun _ _ => hc) hshut,
        isQueued_of_halfCloses hv.queue hhalf hqueue⟩

/-- Another thread's `Send` and its `ShutDown`, each run from the queue. -/
theorem sent_before_shutdown_delivered_queued :
    ∃ s s' : System Unit, s.step (.runFunctor (.wrote 0) ⟨[], by decide⟩) = some s' ∧
      s.conn.socket.shutdowns = 0 ∧ s'.conn.socket.shutdowns = 1 ∧ s'.promised = [0] ∧
      Delivered s' 0 := by
  have hrun : ∃ s₀ s₁ s₂ s₃ s s', established false = some s₀ ∧
      (machine Unit).run s₀ [.alloc (.chars ⟨[1, 2, 3], by decide⟩), .sendCheck () (.string 0),
        .sendQueue ()] = some s₁ ∧
      s₁.step (.sendReturn ()) = some s₂ ∧ s₁.memoryAfter (.sendReturn ()) = s₁.mem ∧
      (machine Unit).run s₂ [.shutCheck (), .shutSet (), .shutQueue (), .resume,
        .loop .doPendingFunctors, .loop .swapFunctors] = some s₃ ∧
      s₃.step (.runFunctor (.wrote 3) ⟨[9, 9, 9], by decide⟩) = some s ∧
      s₃.halfCloses (.runFunctor (.wrote 3) ⟨[9, 9, 9], by decide⟩) = false ∧
      s.step (.runFunctor (.wrote 0) ⟨[], by decide⟩) = some s' ∧
      s.closedLeft = false ∧ s.loop.queued = [.shutdownInLoop] ∧
      s.conn.socket.shutdowns = 0 ∧ s'.conn.socket.shutdowns = 1 ∧ s'.promised = [0] :=
    ⟨_, _, _, _, _, _, rfl, rfl, rfl, rfl, rfl, rfl, rfl, rfl, rfl, rfl, rfl, rfl, rfl⟩
  obtain ⟨s₀, s₁, s₂, s₃, s, s', hs₀, hs₁, hs₂, hmem, hs₃, hsend, hopen, hs', hleft, hqueue,
    hbefore, hafter, hpromised⟩ := hrun
  have h₀ : (machine Unit).Reach (fun s a => FaultFree a ∧ KeepsInFlight s a ∧ Settled s a) s₀ :=
    .start (established_initial false hs₀)
  have h₁ := h₀.of_run _ (by simp [FaultFree, KeepsInFlight, memoryAfter, Settled, halfCloses]) hs₁
  have h₂ := h₁.step (quiet_step (a := .sendReturn ()) trivial hmem rfl) hs₂
  have h₃ := h₂.of_run _ (by simp [FaultFree, KeepsInFlight, memoryAfter, Settled, halfCloses]) hs₃
  have h₄ := h₃.step (quiet_step (a := .runFunctor (.wrote 3) ⟨[9, 9, 9], by decide⟩) rfl rfl
    hopen) hsend
  have hsettled : Settled s (.runFunctor (.wrote 0) ⟨[], by decide⟩) :=
    fun _ => ⟨hleft, fun i _ _ => by simp [isQueued, hqueue]⟩
  refine ⟨s, s', hs', hbefore, hafter, hpromised, ?_⟩
  exact sent_before_shutdown_delivered s s' (.runFunctor (.wrote 0) ⟨[], by decide⟩) h₄ rfl
    hsettled hs' (by rw [hbefore, hafter]; decide) 0
    (by rw [hpromised]; exact List.mem_singleton_self 0)

/-- Another thread's `Send` has returned with its functor queued when the loop
thread calls `ShutDown`: the half-close overtakes the payload. -/
theorem queued_send_behind_shutdown :
    ¬ ∀ (s s' : System Unit) (a : Action Unit), (machine Unit).Reach (fun _ a => FaultFree a) s →
      FaultFree a → s.step a = some s' →
      s'.conn.socket.shutdowns ≠ s.conn.socket.shutdowns →
      ∀ i ∈ s'.promised, Delivered s' i := by
  intro hclaim
  have hrun : ∃ s₀ s s', established false = some s₀ ∧
      (machine Unit).run s₀ [.alloc (.chars ⟨[1, 2, 3], by decide⟩), .sendCheck () (.string 0),
        .sendQueue (), .sendReturn ()] = some s ∧
      s.step .ownShutDown = some s' ∧ s'.promised = [0] ∧
      s'.calls = [⟨[1, 2, 3], by decide⟩] ∧ s'.entered = [] ∧
      s.conn.socket.shutdowns = 0 ∧ s'.conn.socket.shutdowns = 1 :=
    ⟨_, _, _, rfl, rfl, rfl, rfl, rfl, rfl, rfl, rfl⟩
  obtain ⟨s₀, s, s', hs₀, hs, hs', hpromised, hcalls, hentered, hbefore, hafter⟩ := hrun
  have h₀ : (machine Unit).Reach (fun _ a => FaultFree a) s₀ :=
    .start (established_initial false hs₀)
  have hreach := h₀.of_run _ (by simp [FaultFree]) hs
  rcases hclaim s s' .ownShutDown hreach trivial hs' (by rw [hbefore, hafter]; decide) 0
    (by rw [hpromised]; exact List.mem_singleton_self 0) with ⟨p, hcall, hnil | ⟨_, _, hsplit, _⟩⟩
  · rw [hcalls] at hcall
    cases hcall
    cases hnil
  · rw [hentered] at hsplit
    simp at hsplit

end MyNetLib.TcpConnection.System
