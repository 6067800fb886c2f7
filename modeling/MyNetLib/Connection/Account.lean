import MyNetLib.Connection.Capture

/-! # Where the bytes of a `Send` are

A `Send` that returned has its functor in the loop's queue, or its payload was
taken in, or the connection has been disconnected on its loop; and what a
disconnection did not leave behind is with the kernel.
-/

namespace MyNetLib.TcpConnection.System

open Library

variable {τ : Type} {s s' : System τ} {a : Action τ} {i : Nat} {p : Payload}

/-! ## Delivery -/

/-- The kernel has accepted the whole payload of the `i`-th `Send`. -/
def Delivered (s : System τ) (i : Nat) : Prop :=
  ∃ p, s.calls[i]? = some p ∧ (p.data = [] ∨ ∃ before after,
    s.entered = before ++ (i, p) :: after ∧
    ((before.map fun e => e.2.data).flatten ++ p.data) <+: s.conn.socket.accepted)

theorem delivered_of_entered (hstream : s.conn.stream = s.enteredBytes)
    (hempty : s.conn.outputBuffer.readable = []) (hcall : s.calls[i]? = some p)
    (hmem : (i, p) ∈ s.entered) : Delivered s i := by
  obtain ⟨before, after, hsplit⟩ := List.append_of_mem hmem
  refine ⟨p, hcall, Or.inr ⟨before, after, hsplit, ?_⟩⟩
  have haccepted : s.conn.socket.accepted = s.enteredBytes := by
    rw [← hstream, stream, hempty, List.append_nil]
  rw [haccepted, enteredBytes, hsplit]
  simp only [List.map_append, List.map_cons, List.flatten_append, List.flatten_cons,
    ← List.append_assoc]
  exact List.prefix_append _ _

theorem delivered_mono (hcalls : s.calls <+: s'.calls) (hentered : s.entered <+: s'.entered)
    (haccepted : s.conn.socket.accepted <+: s'.conn.socket.accepted) (h : Delivered s i) :
    Delivered s' i := by
  obtain ⟨p, hcall, hp⟩ := h
  refine ⟨p, getElem?_of_prefix hcalls hcall, ?_⟩
  rcases hp with hnil | ⟨before, after, hsplit, hprefix⟩
  · exact Or.inl hnil
  · obtain ⟨rest, hrest⟩ := hentered
    refine Or.inr ⟨before, after ++ rest, ?_, hprefix.trans haccepted⟩
    rw [← hrest, hsplit, List.append_assoc, List.cons_append]

theorem entered_mono (hm : ConnMove s s' a) : s.entered <+: s'.entered := by
  cases hm with
  | still _ _ _ hentered _ _ => rw [hentered]
  | send _ id p w c due b _ _ _ hentered _ _ =>
      rw [hentered]
      split
      · exact List.prefix_rfl
      · exact List.prefix_append _ _
  | shutdown _ _ _ _ _ hentered _ _ => rw [hentered]
  | ownShutDown _ _ hentered _ _ => rw [hentered]
  | setState _ _ hentered _ _ => rw [hentered]
  | drain _ _ _ _ _ hentered _ _ => rw [hentered]
  | close _ b frames hs' =>
      rw [hs']
      exact List.prefix_rfl

theorem accepted_mono (hw : s.conn.outputBuffer.WellFormed) (hm : ConnMove s s' a) :
    s.conn.socket.accepted <+: s'.conn.socket.accepted := by
  cases hm with
  | still _ b hconn _ _ _ => rw [hconn]
  | send _ id p w c due b _ hsend hconn _ _ _ =>
      rw [hconn]
      rcases sendInLoop_cases hw hsend with ⟨rfl, _⟩ | ⟨_, hext, _⟩
      · exact List.prefix_rfl
      · exact hext.accepted
  | shutdown _ _ _ _ hconn _ _ _ => rw [hconn, shutdownInLoop_accepted]
  | ownShutDown _ hconn _ _ _ =>
      rw [hconn, shutDown, shutdownInLoop_accepted]
      exact List.prefix_rfl
  | setState t hconn _ _ _ =>
      rw [hconn]
      exact List.prefix_rfl
  | drain w c due hwrite hconn _ _ _ =>
      rw [hconn]
      exact (handleWrite_extends hw hwrite).accepted
  | close _ b frames hs' =>
      rw [hs']
      exact List.prefix_rfl

/-! ## Every call is accounted for -/

def Queued (s : System τ) (i : Nat) : Prop := ∃ r, .sendInLoop i r ∈ s.loop.queued

def Entered (s : System τ) (i : Nat) : Prop := ∃ p, (i, p) ∈ s.entered

/-- Where the bytes of a `Send` that is past its queueing can be. -/
def Handed (s : System τ) (i : Nat) : Prop :=
  (∃ p, s.calls[i]? = some p) ∧ (Queued s i ∨ Entered s i ∨ s.closed = true)

/-- The `Send` has returned, or it has queued its functor or run `SendInLoop`. -/
def PastQueue (s : System τ) (i : Nat) : Prop :=
  i ∈ s.returned ∨ (∃ t temp, s.callers t = .sendReturn i temp) ∨
    ∃ src, .sending i src ∈ s.frames

structure AccountInv (s : System τ) : Prop where
  handed : ∀ i, PastQueue s i → Handed s i
  promised : ∀ i ∈ s.promised, i ∈ s.returned
  payloads : ∀ i p, (i, p) ∈ s.entered → s.calls[i]? = some p
  settled : s.closed = true → s.closedLeft = false → ∀ i ∈ s.promised, Delivered s i

theorem AccountInv.initial (h : Initial s) : AccountInv s := by
  obtain ⟨_, _, _, hframes, hcallers, _, _, hentered, hreturned, hpromised, hclosed, _⟩ := h
  constructor
  · intro i hpast
    rcases hpast with hi | ⟨t, temp, ht⟩ | ⟨src, hsrc⟩
    · rw [hreturned] at hi
      cases hi
    · rw [hcallers t] at ht
      cases ht
    · rw [hframes] at hsrc
      simp at hsrc
  · simp [hpromised]
  · simp [hentered]
  · intro hc
    rw [hclosed] at hc
    cases hc

theorem closed_cases (hm : ConnMove s s' a) :
    (s'.closed = s.closed ∧ s'.closedLeft = s.closedLeft) ∨ ∃ b frames,
      s' = { s with conn := { s.conn with inputBuffer := b } }.disconnect frames := by
  cases hm with
  | still _ _ _ _ hclosed hleft => exact Or.inl ⟨hclosed, hleft⟩
  | send _ _ _ _ _ _ _ _ _ _ _ hclosed hleft => exact Or.inl ⟨hclosed, hleft⟩
  | shutdown _ _ _ _ _ _ hclosed hleft => exact Or.inl ⟨hclosed, hleft⟩
  | ownShutDown _ _ _ hclosed hleft => exact Or.inl ⟨hclosed, hleft⟩
  | setState _ _ _ hclosed hleft => exact Or.inl ⟨hclosed, hleft⟩
  | drain _ _ _ _ _ _ hclosed hleft => exact Or.inl ⟨hclosed, hleft⟩
  | close _ b frames hs' => exact Or.inr ⟨b, frames, hs'⟩

theorem closed_step (hm : ConnMove s s' a) (h : s.closed = true) :
    s'.closed = true ∧ s'.closedLeft = s.closedLeft := by
  rcases closed_cases hm with ⟨hclosed, hleft⟩ | ⟨b, frames, rfl⟩
  · exact ⟨hclosed.trans h, hleft⟩
  · exact ⟨rfl, by simp [System.disconnect, h]⟩

/-- A functor that leaves the queue is taken in, unless the connection is disconnected. -/
theorem queued_step (hI : StreamInv s) (hm : QueueMove s s' a) (h : Queued s i) :
    Queued s' i ∨ Entered s' i ∨ s'.closed = true := by
  obtain ⟨r, hr⟩ := h
  cases hm with
  | same _ hq => exact Or.inl ⟨r, by rw [hq]; exact hr⟩
  | push _ f _ hq => exact Or.inl ⟨r, by rw [hq]; exact List.mem_append_left _ hr⟩
  | run w junk f rest _ hq hrun =>
      rw [hq, List.mem_cons] at hr
      rcases hr with hhead | htail
      · right
        subst hhead
        obtain ⟨c, due, frames, _, _, rfl⟩ := runFunctor_send hrun
        by_cases hstate : s.conn.state = .kDisconnected
        · right
          by_contra hc
          exact hI.alive (by simpa using hc) hstate
        · left
          exact ⟨(r.read s.mem).getD junk, by simp [hstate]⟩
      · exact Or.inl ⟨r, htail⟩

theorem handed_of_sent {src : Source} {w : WriteResult} (hsent : Sent s s' src w) :
    Handed s' s.calls.length := by
  obtain ⟨p, _, _, _, _, _, _, _, _, _, _, rfl⟩ := hsent
  exact ⟨⟨p, by simp⟩, Or.inr (Or.inl ⟨p, by simp⟩)⟩

theorem isQueued_iff : s.isQueued i = true ↔ Queued s i := by
  simp only [isQueued, List.any_eq_true, Queued]
  constructor
  · rintro ⟨f, hf, hid⟩
    cases f with
    | sendInLoop j r =>
        simp only [beq_iff_eq] at hid
        subst hid
        exact ⟨r, hf⟩
    | _ => cases hid
  · rintro ⟨r, hr⟩
    exact ⟨_, hr, by simp⟩

theorem hasBytes_of_call (hcall : s.calls[i]? = some p) : s.hasBytes i = !p.data.isEmpty := by
  simp [hasBytes, hcall]

theorem clear_of_owesBytes (h : s.owesBytes = false) (hi : i ∈ s.promised)
    (hbytes : s.hasBytes i = true) :
    s.conn.outputBuffer.readable = [] ∧ s.isQueued i = false := by
  have hclear := List.any_eq_false.1 h i hi
  simpa [hbytes] using hclear

/-- With the connection open, a returned `Send` with bytes is delivered once
nothing is buffered and its functor has run. -/
theorem delivered_of_unqueued (hI : StreamInv s) (hA : AccountInv s) (hopen : s.closed = false)
    (hi : i ∈ s.returned)
    (hclear : s.hasBytes i = true → s.conn.outputBuffer.readable = [] ∧ s.isQueued i = false) :
    Delivered s i := by
  obtain ⟨⟨p, hcall⟩, hwhere⟩ := hA.handed i (Or.inl hi)
  by_cases hnil : p.data = []
  · exact ⟨p, hcall, Or.inl hnil⟩
  obtain ⟨hempty, hunqueued⟩ := hclear (by simp [hasBytes_of_call hcall, hnil])
  rcases hwhere with hq | ⟨q, hq⟩ | hc
  · rw [isQueued_iff.2 hq] at hunqueued
    cases hunqueued
  · exact delivered_of_entered hI.stream hempty (hA.payloads i q hq) hq
  · rw [hopen] at hc
    cases hc

/-! ## Steps and runs -/

variable [DecidableEq τ]

theorem handed_step (hI : StreamInv s) (hv : Views s s' a) (h : Handed s i) : Handed s' i := by
  obtain ⟨⟨p, hcall⟩, hwhere⟩ := h
  refine ⟨⟨p, getElem?_of_prefix (calls_mono hv.callers) hcall⟩, ?_⟩
  rcases hwhere with hq | ⟨q, hq⟩ | hc
  · exact queued_step hI hv.queue hq
  · exact Or.inr (Or.inl ⟨q, (entered_mono hv.conn).subset hq⟩)
  · exact Or.inr (Or.inr (closed_step hv.conn hc).1)

theorem returned_step (hm : CallerMove s s' a) (h : i ∈ s'.returned) :
    PastQueue s i ∨ Handed s' i := by
  cases hm with
  | same _ _ _ _ hreturned _ _ =>
      rw [hreturned] at h
      exact Or.inl (Or.inl h)
  | ownSend src w hsent =>
      have hnew := handed_of_sent hsent
      rcases hsent with ⟨_, _, _, _, _, _, _, _, _, _, ⟨_, rfl⟩ | ⟨_, rfl⟩, rfl⟩
      · exact Or.inl (Or.inl h)
      · rw [List.mem_append, List.mem_singleton] at h
        rcases h with hold | rfl
        · exact Or.inl (Or.inl hold)
        · exact Or.inr hnew
  | finish id src rest mem b hframes _ hs' =>
      subst hs'
      rw [List.mem_append, List.mem_singleton] at h
      rcases h with hold | rfl
      · exact Or.inl (Or.inl hold)
      · exact Or.inl (Or.inr (Or.inr ⟨src, by rw [hframes]; exact List.mem_cons_self⟩))
  | sendReturn t id temp hpc hs' =>
      subst hs'
      simp only [setCaller, List.mem_append, List.mem_singleton] at h
      rcases h with hold | rfl
      · exact Or.inl (Or.inl hold)
      · exact Or.inl (Or.inr (Or.inl ⟨t, temp, hpc⟩))
  | _ =>
      subst_vars
      exact Or.inl (Or.inl h)

theorem sendReturn_step {t : τ} {temp : Option Nat} (hC : CaptureInv s) (hm : CallerMove s s' a)
    (h : s'.callers t = .sendReturn i temp) : PastQueue s i ∨ Handed s' i := by
  cases moved_of_callerMove hm t with
  | stays heq =>
      rw [heq] at h
      exact Or.inl (Or.inr (Or.inl ⟨t, temp, h⟩))
  | captured _ _ _ _ hpc _ _ =>
      rw [hpc] at h
      cases h
  | queued id r temp' hpc hpc' hqueued =>
      rw [hpc'] at h
      cases h
      obtain ⟨p, hcall, _⟩ := hC i r (Or.inl ⟨t, temp, hpc⟩)
      exact Or.inr ⟨⟨p, getElem?_of_prefix (calls_mono hm) hcall⟩, Or.inl ⟨r, hqueued⟩⟩
  | elsewhere pc hpc hpcs =>
      rw [hpc] at h
      subst h
      simp at hpcs

theorem sending_step {src : Source} (hm : CallerMove s s' a) (h : .sending i src ∈ s'.frames) :
    PastQueue s i ∨ Handed s' i := by
  cases hm with
  | same _ _ _ _ _ _ hframes => exact Or.inl (Or.inr (Or.inr ⟨src, hframes i src h⟩))
  | ownSend src' w hsent =>
      have hnew := handed_of_sent hsent
      rcases hsent with ⟨_, _, _, _, _, _, _, _, _, _, ⟨rfl, _⟩ | ⟨rfl, _⟩, rfl⟩
      · simp only [List.mem_cons, Frame.sending.injEq, reduceCtorEq, false_or] at h
        rcases h with ⟨rfl, _⟩ | hold
        · exact Or.inr hnew
        · exact Or.inl (Or.inr (Or.inr ⟨src, hold⟩))
      · exact Or.inl (Or.inr (Or.inr ⟨src, h⟩))
  | finish id src' rest mem b hframes _ hs' =>
      subst hs'
      exact Or.inl (Or.inr (Or.inr ⟨src, by rw [hframes]; exact List.mem_cons_of_mem _ h⟩))
  | _ =>
      subst_vars
      exact Or.inl (Or.inr (Or.inr ⟨src, h⟩))

/-- A `Send` gets past its queueing by queueing its functor or by running `SendInLoop`. -/
theorem pastQueue_step (hC : CaptureInv s) (hm : CallerMove s s' a) (h : PastQueue s' i) :
    PastQueue s i ∨ Handed s' i := by
  rcases h with hi | ⟨t, temp, ht⟩ | ⟨src, hsrc⟩
  · exact returned_step hm hi
  · exact sendReturn_step hC hm ht
  · exact sending_step hm hsrc

theorem payloads_step (hC : CaptureInv s) (hA : AccountInv s) (hs : s.step a = some s') :
    ∀ i p, (i, p) ∈ s'.entered → s'.calls[i]? = some p := by
  have hv := step_views hs
  intro i p hmem
  by_cases hsend : ∃ src w, a = .ownSend src w
  · obtain ⟨src, w, rfl⟩ := hsend
    simp only [step] at hs
    split at hs
    · rcases ownSend_cases hs with rfl | ⟨q, c, due, frames, mem, b, returned, _, _, _, _, rfl⟩
      · exact hA.payloads i p hmem
      · rw [List.mem_append, List.mem_singleton] at hmem
        rcases hmem with hold | hnew
        · exact getElem?_of_prefix (List.prefix_append _ _) (hA.payloads i p hold)
        · cases hnew
          simp
    · cases hs
  by_cases hrun : ∃ w junk, a = .runFunctor w junk
  · obtain ⟨w, junk, rfl⟩ := hrun
    simp only [step] at hs
    split at hs
    · rename_i f rest _ hpc
      rcases runFunctor_cases hs with ⟨id, r, rfl⟩ | ⟨_, rfl⟩ | ⟨_, _, _, rfl⟩
      · obtain ⟨q, hcall, hread⟩ := hC.run hpc rfl
        obtain ⟨_, _, _, _, _, rfl⟩ := runFunctor_send hs
        simp only [hread, Option.getD_some] at hmem
        split at hmem
        · exact hA.payloads i p hmem
        · rw [List.mem_append, List.mem_singleton] at hmem
          rcases hmem with hold | hnew
          · exact hA.payloads i p hold
          · cases hnew
            exact hcall
      · exact hA.payloads i p hmem
      · exact hA.payloads i p hmem
    · cases hs
  · have hentered := hv.conn.entered_eq (fun src w he => hsend ⟨src, w, he⟩)
      (fun w junk he => hrun ⟨w, junk, he⟩)
    rw [hentered] at hmem
    exact getElem?_of_prefix (calls_mono hv.callers) (hA.payloads i p hmem)

/-- A promise is made where a `ShutDown` sees `kConnected`. -/
theorem promised_cases (hm : CallerMove s s' a) :
    s'.promised = s.promised ∨ (s'.promised = s.promised ++ s.returned ∧
      s.conn.state = .kConnected ∧ (a = .ownShutDown ∨ ∃ t, a = .shutCheck t)) := by
  cases hm with
  | same _ _ _ _ _ hpromised _ => exact Or.inl hpromised
  | ownSend src w hsent =>
      obtain ⟨_, _, _, _, _, _, _, _, _, _, _, rfl⟩ := hsent
      exact Or.inl rfl
  | ownShutDown hstate hs' =>
      subst hs'
      exact Or.inr ⟨rfl, hstate, Or.inl rfl⟩
  | shutCheck t _ hstate hs' =>
      subst hs'
      exact Or.inr ⟨rfl, hstate, Or.inr ⟨t, rfl⟩⟩
  | _ =>
      subst_vars
      exact Or.inl rfl

theorem returned_mono (hm : CallerMove s s' a) : s.returned <+: s'.returned := by
  cases hm with
  | same _ _ _ _ hreturned _ _ => rw [hreturned]
  | ownSend src w hsent =>
      rcases hsent with ⟨_, _, _, _, _, _, _, _, _, _, ⟨_, rfl⟩ | ⟨_, rfl⟩, rfl⟩
      · exact List.prefix_rfl
      · exact List.prefix_append _ _
  | finish _ _ _ _ _ _ _ hs' =>
      rw [hs']
      exact List.prefix_append _ _
  | sendReturn _ _ _ _ hs' =>
      rw [hs']
      exact List.prefix_append _ _
  | _ =>
      subst_vars
      exact List.prefix_rfl

theorem promised_step (hA : AccountInv s) (hm : CallerMove s s' a) :
    ∀ i ∈ s'.promised, i ∈ s'.returned := by
  intro i hi
  apply (returned_mono hm).subset
  rcases promised_cases hm with heq | ⟨heq, _⟩
  · rw [heq] at hi
    exact hA.promised i hi
  · rw [heq, List.mem_append] at hi
    rcases hi with hi | hi
    · exact hA.promised i hi
    · exact hi

/-- A disconnection that left nothing has every promise delivered, for good. -/
theorem settled_step (hI : StreamInv s) (hA : AccountInv s) (hv : Views s s' a) :
    s'.closed = true → s'.closedLeft = false → ∀ i ∈ s'.promised, Delivered s' i := by
  intro hclosed hleft i hi
  have hmono := delivered_mono (i := i) (calls_mono hv.callers) (entered_mono hv.conn)
    (accepted_mono hI.wellFormed hv.conn)
  cases hc : s.closed with
  | true =>
      rw [(closed_step hv.conn hc).2] at hleft
      rcases promised_cases hv.callers with heq | ⟨_, hstate, _⟩
      · rw [heq] at hi
        exact hmono (hA.settled hc hleft i hi)
      · exact absurd hstate (hI.shut hc)
  | false =>
      rcases closed_cases hv.conn with ⟨hsame, _⟩ | ⟨b, frames, rfl⟩
      · rw [hsame, hc] at hclosed
        cases hclosed
      · apply hmono
        have howes : (if s.closed then s.closedLeft else s.owesBytes) = false := hleft
        rw [if_neg (by simp [hc])] at howes
        exact delivered_of_unqueued hI hA hc (hA.promised i hi) (clear_of_owesBytes howes hi)

theorem AccountInv.step (hI : StreamInv s) (hC : CaptureInv s) (hA : AccountInv s)
    (hs : s.step a = some s') : AccountInv s' := by
  have hv := step_views hs
  constructor
  · intro i hpast
    rcases pastQueue_step hC hv.callers hpast with hold | hnew
    · exact handed_step hI hv (hA.handed i hold)
    · exact hnew
  · exact promised_step hA hv.callers
  · exact payloads_step hC hA hs
  · exact settled_step hI hA hv

theorem accountInv_of_reach {guard : System τ → Action τ → Prop}
    (hguard : ∀ s a, guard s a → FaultFree a ∧ KeepsInFlight s a)
    (h : (machine τ).Reach guard s) : StreamInv s ∧ CaptureInv s ∧ AccountInv s := by
  have hC : ∀ s, (machine τ).Reach guard s → CaptureInv s := fun _ hr =>
    captureInv_of_reach (fun s a hg => (hguard s a hg).2) hr
  apply h.invariant
  · intro s hs
    exact ⟨StreamInv.initial hs, hC s (.start hs), AccountInv.initial hs⟩
  · intro s a s' hI hg hs
    obtain ⟨hfault, hkeep⟩ := hguard s a hg
    exact ⟨hI.1.move (step_views hs).conn hfault, hI.2.1.step hkeep hs,
      hI.2.2.step hI.1 hI.2.1 hs⟩

end MyNetLib.TcpConnection.System
