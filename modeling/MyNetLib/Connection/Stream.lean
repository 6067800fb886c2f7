import MyNetLib.Connection.Moves

/-! # The outgoing stream

What `SendInLoop` took in is, in order, what the kernel has accepted and then
what is buffered; and until the connection is disconnected on its loop the write
bit tells whether anything is buffered. Both hold with every other thread at
work. On the loop thread alone they become a statement about `Send` and the
state.
-/

namespace MyNetLib.TcpConnection.System

open Library

variable {τ : Type}

def enteredBytes (s : System τ) : List Byte := (s.entered.map fun e => e.2.data).flatten

/-- No write of this step fails with `EPIPE` or `ECONNRESET`. -/
def FaultFree : Action τ → Prop
  | .ownSend _ w => w.fault = false
  | .runFunctor w _ => w.fault = false
  | _ => True

structure StreamInv (s : System τ) : Prop where
  wellFormed : s.conn.outputBuffer.WellFormed
  stream : s.conn.stream = s.enteredBytes
  linked : s.closed = false → Linked s.conn
  shut : s.closed = true → s.conn.state ≠ .kConnected
  alive : s.closed = false → s.conn.state ≠ .kDisconnected

theorem StreamInv.initial {s : System τ} (h : Initial s) : StreamInv s := by
  obtain ⟨⟨fd, due, c, hnew, hconn⟩, _, _, _, _, _, _, hentered, _, _, hclosed, _⟩ := h
  obtain ⟨b, hb, rfl⟩ := Option.map_eq_some_iff.1 hnew
  have hroom : Buffer.kCheapPrepend + Buffer.kInitialSize < SizeT.modulus := by decide
  obtain ⟨hw, hr, _⟩ := Buffer.new_spec hroom hb
  constructor
  · rw [hconn]
    exact hw
  · rw [hconn, enteredBytes, hentered]
    simp [TcpConnection.stream, connectionEstablished, setState, hr]
  · intro _
    rw [hconn]
    refine iff_of_false ?_ ?_
    · simp [isWriting, connectionEstablished]
    · simp [connectionEstablished, setState, hr]
  · intro hc
    rw [hclosed] at hc
    cases hc
  · intro _
    rw [hconn]
    simp [connectionEstablished, setState]

variable {s s' : System τ} {a : Action τ}

theorem StreamInv.of_extends (h : StreamInv s) {data : List Byte}
    (hext : Extends s.conn s'.conn data) (hentered : s'.enteredBytes = s.enteredBytes ++ data)
    (hclosed : s'.closed = s.closed) : StreamInv s' := by
  constructor
  · exact hext.wellFormed
  · rw [hext.stream, h.stream, hentered]
  · rw [hclosed]
    exact fun hc => hext.linked (h.linked hc)
  · rw [hclosed, hext.state]
    exact h.shut
  · rw [hclosed, hext.state]
    exact h.alive

theorem ConnMove.wellFormed (hm : ConnMove s s' a) (hw : s.conn.outputBuffer.WellFormed) :
    s'.conn.outputBuffer.WellFormed := by
  cases hm with
  | still _ b hconn _ _ _ =>
      rw [hconn]
      exact hw
  | send _ id p w c due b _ hsend hconn _ _ _ =>
      rw [hconn]
      rcases sendInLoop_cases hw hsend with ⟨rfl, _⟩ | ⟨_, hext, _⟩
      · exact hw
      · exact hext.wellFormed
  | shutdown _ _ _ _ hconn _ _ _ =>
      rw [hconn, shutdownInLoop_outputBuffer]
      exact hw
  | ownShutDown _ hconn _ _ _ =>
      rw [hconn, shutDown, shutdownInLoop_outputBuffer]
      exact hw
  | setState t hconn _ _ _ =>
      rw [hconn]
      exact hw
  | drain w c due hwrite hconn _ _ _ =>
      rw [hconn]
      exact (handleWrite_extends hw hwrite).wellFormed
  | close _ b frames hs' =>
      rw [hs']
      exact hw

theorem StreamInv.move (h : StreamInv s) (hm : ConnMove s s' a) (hf : FaultFree a) :
    StreamInv s' := by
  cases hm with
  | still _ b hconn hentered hclosed _ =>
      have hext : Extends s.conn s'.conn [] := by
        rw [hconn]
        exact (Extends.refl h.wellFormed).withInput b
      exact h.of_extends hext (by simp [enteredBytes, hentered]) hclosed
  | send _ id p w c due b hlabel hsend hconn hentered hclosed _ =>
      have hfault : w.fault = false := by
        rcases hlabel with ⟨src, rfl⟩ | ⟨junk, rfl⟩
        · exact hf
        · exact hf
      rcases sendInLoop_cases h.wellFormed hsend with ⟨rfl, hgive⟩ | ⟨hstate, hadd, _⟩
      · have hstate : s.conn.state = .kDisconnected := by
          rcases hgive with hstate | hbad
          · exact hstate
          · rw [hfault] at hbad
            cases hbad
        rw [if_pos hstate] at hentered
        have hext : Extends s.conn s'.conn [] := by
          rw [hconn]
          exact (Extends.refl h.wellFormed).withInput b
        exact h.of_extends hext (by simp [enteredBytes, hentered]) hclosed
      · rw [if_neg hstate] at hentered
        have hext : Extends s.conn s'.conn p.data := by
          rw [hconn]
          exact hadd.withInput b
        exact h.of_extends hext (by simp [enteredBytes, hentered]) hclosed
  | shutdown w junk rest _ hconn hentered hclosed _ =>
      have hext : Extends s.conn s'.conn [] := by
        rw [hconn]
        exact shutdownInLoop_extends h.wellFormed
      exact h.of_extends hext (by simp [enteredBytes, hentered]) hclosed
  | ownShutDown hstate hconn hentered hclosed _ =>
      constructor
      · rw [hconn]
        simpa [shutDown, setState] using h.wellFormed
      · rw [hconn, enteredBytes, hentered]
        simpa [shutDown, setState, TcpConnection.stream, enteredBytes] using h.stream
      · rw [hconn, hclosed]
        intro hc
        simpa [shutDown, setState, Linked, isWriting] using h.linked hc
      · rw [hclosed]
        intro hc
        exact absurd hstate (h.shut hc)
      · intro _
        rw [hconn]
        simp [shutDown, setState]
  | setState t hconn hentered hclosed _ =>
      constructor
      · rw [hconn]
        exact h.wellFormed
      · rw [hconn, enteredBytes, hentered]
        exact h.stream
      · rw [hconn, hclosed]
        exact h.linked
      · simp [hconn, TcpConnection.setState]
      · simp [hconn, TcpConnection.setState]
  | drain w c due hwrite hconn hentered hclosed _ =>
      have hext : Extends s.conn s'.conn [] := by
        rw [hconn]
        exact handleWrite_extends h.wellFormed hwrite
      exact h.of_extends hext (by simp [enteredBytes, hentered]) hclosed
  | close _ b frames hs' =>
      subst hs'
      refine ⟨h.wellFormed, h.stream, ?_, ?_, ?_⟩
      · simp [System.disconnect]
      · simp [System.disconnect, TcpConnection.disconnect, setState]
      · simp [System.disconnect]

theorem StreamInv.readable_nil (h : StreamInv s) (hopen : s.closed = false)
    (hbit : s.conn.isWriting = false) : s.conn.outputBuffer.readable = [] := by
  by_contra hne
  rw [(h.linked hopen).2 hne] at hbit
  cases hbit

/-- The three places that call `shutdown(SHUT_WR)`. -/
inductive HalfClose (s s' : System τ) : Action τ → Prop
  | shutdownInLoop (w : WriteResult) (junk : Payload) (rest : List Functor) :
      s.loop.pc = .running (.shutdownInLoop :: rest) → s.conn.isWriting = false →
      s'.conn = s.conn.shutdownInLoop → HalfClose s s' (.runFunctor w junk)
  | shutDown : s.conn.state = .kConnected → s.conn.isWriting = false →
      s'.conn = s.conn.shutDown → HalfClose s s' .ownShutDown
  | handleWrite : s.conn.isWriting = true → s.conn.state = .kDisconnecting →
      s'.conn.outputBuffer.readable = [] →
      HalfClose s s' (.handleWrite (.wrote s.conn.outputBuffer.readableBytes))

theorem halfClose_of_shutdowns (hw : s.conn.outputBuffer.WellFormed) (hm : ConnMove s s' a)
    (hshut : s'.conn.socket.shutdowns ≠ s.conn.socket.shutdowns) : HalfClose s s' a := by
  cases hm with
  | still _ b hconn _ _ _ =>
      rw [hconn] at hshut
      exact absurd rfl hshut
  | send _ id p w c due b _ hsend hconn _ _ _ =>
      rw [hconn] at hshut
      exact absurd (sendInLoop_shutdowns hw hsend) hshut
  | shutdown w junk rest hpc hconn _ _ _ =>
      rw [hconn] at hshut
      exact .shutdownInLoop w junk rest hpc (isWriting_of_shutdown hshut) hconn
  | ownShutDown hstate hconn _ _ _ =>
      rw [hconn] at hshut
      exact .shutDown hstate (isWriting_of_shutdown (c := s.conn.setState .kDisconnecting) hshut)
        hconn
  | setState t hconn _ _ _ =>
      rw [hconn] at hshut
      exact absurd rfl hshut
  | drain w c due hwrite hconn _ _ _ =>
      rw [hconn] at hshut
      obtain ⟨hbit, hstate, rfl, hempty⟩ := handleWrite_shutdown hw hwrite hshut
      exact .handleWrite hbit hstate (by rw [hconn]; exact hempty)
  | close _ b frames hs' =>
      rw [hs'] at hshut
      exact absurd rfl hshut

/-- `shutdown(SHUT_WR)` is called with nothing buffered, unless a queued
`ShutdownInLoop` runs after the disconnection. -/
theorem StreamInv.shutdown_empty (h : StreamInv s) (hm : ConnMove s s' a)
    (hopen : ∀ rest, s.loop.pc = .running (.shutdownInLoop :: rest) → s.closed = false)
    (hshut : s'.conn.socket.shutdowns ≠ s.conn.socket.shutdowns) :
    s'.conn.outputBuffer.readable = [] := by
  cases halfClose_of_shutdowns h.wellFormed hm hshut with
  | shutdownInLoop _ _ rest hpc hbit hconn =>
      rw [hconn, shutdownInLoop_outputBuffer]
      exact h.readable_nil (hopen rest hpc) hbit
  | shutDown hstate hbit hconn =>
      have hclosed : s.closed = false := by
        by_contra hc
        exact h.shut (by simpa using hc) hstate
      rw [hconn, TcpConnection.shutDown, shutdownInLoop_outputBuffer]
      exact h.readable_nil hclosed hbit
  | handleWrite _ _ hempty => exact hempty

/-! ## The loop thread alone -/

/-- Steps of the loop thread, and of the memory its callbacks use. -/
def OnLoop : Action τ → Prop
  | .ownSend _ _ | .ownShutDown | .ownRetrive _ | .resume => True
  | .handleRead _ | .handleWrite _ | .handleClose | .loop _ | .runFunctor _ _ => True
  | .alloc _ | .overwrite _ _ | .release _ => True
  | .queueDestroyed | .sendCheck _ _ | .sendQueue _ | .sendReturn _ => False
  | .shutCheck _ | .shutSet _ | .shutQueue _ => False

/-- What holds when no other thread uses the connection. -/
structure LoopInv (s : System τ) : Prop where
  functors : ∀ f ∈ s.loop.queued, f = .writeComplete
  sent : s.entered.map Prod.snd = s.calls
  shut : s.closed = true → s.conn.state = .kDisconnected

theorem LoopInv.initial {s : System τ} (h : Initial s) : LoopInv s := by
  obtain ⟨_, _, hqueue, _, _, _, hcalls, hentered, _, _, hclosed, _⟩ := h
  constructor
  · intro f hf
    rw [hqueue] at hf
    cases hf
  · rw [hcalls, hentered]
    rfl
  · intro hc
    rw [hclosed] at hc
    cases hc

theorem LoopInv.functors_step (h : LoopInv s) (ha : OnLoop a) (hm : QueueMove s s' a) :
    ∀ f ∈ s'.loop.queued, f = .writeComplete := by
  intro f hf
  cases hm with
  | same _ hq => exact h.functors f (by rwa [hq] at hf)
  | push _ g hg hq =>
      rw [hq, List.mem_append, List.mem_singleton] at hf
      rcases hf with hf | rfl
      · exact h.functors f hf
      · cases hg with
        | writeComplete w => rfl
        | connectionDestroyed => exact ha.elim
        | sendInLoop t id r temp _ => exact ha.elim
        | shutdownInLoop t => exact ha.elim
  | run w junk g rest _ hq _ =>
      apply h.functors f
      rw [hq]
      exact List.mem_cons_of_mem _ hf

theorem ConnMove.entered_eq (hm : ConnMove s s' a) (hsend : ∀ src w, a ≠ .ownSend src w)
    (hrun : ∀ w junk, a ≠ .runFunctor w junk) : s'.entered = s.entered := by
  cases hm with
  | still _ _ _ hentered _ _ => exact hentered
  | send _ _ _ w _ _ _ hlabel _ _ _ _ _ =>
      rcases hlabel with ⟨src, rfl⟩ | ⟨junk, rfl⟩
      · exact absurd rfl (hsend src w)
      · exact absurd rfl (hrun w junk)
  | shutdown _ _ _ _ _ hentered _ _ => exact hentered
  | ownShutDown _ _ hentered _ _ => exact hentered
  | setState _ _ hentered _ _ => exact hentered
  | drain _ _ _ _ _ hentered _ _ => exact hentered
  | close _ _ _ hs' =>
      rw [hs']
      rfl

/-- After a disconnection no step of the loop thread alone leaves `kDisconnected`. -/
theorem LoopInv.shut_step (h : LoopInv s) (hw : s.conn.outputBuffer.WellFormed) (ha : OnLoop a)
    (hm : ConnMove s s' a) : s'.closed = true → s'.conn.state = .kDisconnected := by
  cases hm with
  | still _ b hconn _ hclosed _ =>
      rw [hconn, hclosed]
      exact h.shut
  | send _ id p w c due b _ hsend hconn _ hclosed _ =>
      rw [hconn, hclosed]
      rcases sendInLoop_cases hw hsend with ⟨rfl, _⟩ | ⟨_, hext, _⟩
      · exact h.shut
      · rw [hext.state]
        exact h.shut
  | shutdown _ _ _ _ hconn _ hclosed _ =>
      rw [hconn, hclosed, shutdownInLoop_state]
      exact h.shut
  | ownShutDown hstate _ _ hclosed _ =>
      rw [hclosed]
      intro hc
      rw [h.shut hc] at hstate
      cases hstate
  | setState t _ _ _ _ => exact ha.elim
  | drain w c due hwrite hconn _ hclosed _ =>
      rw [hconn, hclosed, (handleWrite_extends hw hwrite).state]
      exact h.shut
  | close _ b frames hs' =>
      rw [hs']
      exact fun _ => rfl

variable [DecidableEq τ]

theorem wellFormed_of_reach {guard : System τ → Action τ → Prop}
    (h : (machine τ).Reach guard s) : s.conn.outputBuffer.WellFormed := by
  apply h.invariant
  · intro s hs
    exact (StreamInv.initial hs).wellFormed
  · intro s a s' hw _ hs
    exact (step_views hs).conn.wellFormed hw

theorem CallerMove.calls_eq (hm : CallerMove s s' a) (ha : OnLoop a)
    (hsend : ∀ src w, a ≠ .ownSend src w) : s'.calls = s.calls := by
  cases hm with
  | same _ _ _ hcalls _ _ _ => exact hcalls
  | ownSend src w _ => exact absurd rfl (hsend src w)
  | finish _ _ _ _ _ _ _ hs' => rw [hs']
  | ownShutDown _ hs' => rw [hs']
  | alloc _ hs' => rw [hs']
  | overwrite _ _ _ _ hs' => rw [hs']
  | release _ _ _ hs' => rw [hs']
  | _ => exact ha.elim

/-- On the loop thread only `Send` has bytes for `SendInLoop`. -/
theorem LoopInv.sent_step (h : LoopInv s) (ha : OnLoop a) (hs : s.step a = some s') :
    s'.entered.map Prod.snd = s'.calls := by
  have hv := step_views hs
  by_cases hsend : ∃ src w, a = .ownSend src w
  · obtain ⟨src, w, rfl⟩ := hsend
    simp only [step] at hs
    split at hs
    · rcases ownSend_cases hs with rfl | ⟨p, c, due, frames, mem, b, returned, _, _, _, _, rfl⟩
      · exact h.sent
      · simp [h.sent]
    · cases hs
  · have hne : ∀ src w, a ≠ .ownSend src w := fun src w he => hsend ⟨src, w, he⟩
    rw [hv.callers.calls_eq ha hne, ← h.sent]
    by_cases hrun : ∃ w junk, a = .runFunctor w junk
    · obtain ⟨w, junk, rfl⟩ := hrun
      simp only [step] at hs
      split at hs
      · rename_i f rest _ hpc
        have hf := h.functors f (by rw [EventLoop.queued_running hpc]; exact List.mem_cons_self)
        rcases runFunctor_cases hs with ⟨id, r, rfl⟩ | ⟨rfl, _⟩ | ⟨_, _, _, rfl⟩
        · cases hf
        · cases hf
        · rfl
      · cases hs
    · rw [hv.conn.entered_eq hne fun w junk he => hrun ⟨w, junk, he⟩]

theorem loopInv_of_reach (h : (machine τ).Reach (fun _ a => OnLoop a ∧ FaultFree a) s) :
    StreamInv s ∧ LoopInv s := by
  apply h.invariant
  · intro s hs
    exact ⟨StreamInv.initial hs, LoopInv.initial hs⟩
  · intro s a s' hI hg hs
    have hv := step_views hs
    exact ⟨hI.1.move hv.conn hg.2, hI.2.functors_step hg.1 hv.queue, hI.2.sent_step hg.1 hs,
      hI.2.shut_step hI.1.wellFormed hg.1 hv.conn⟩

/-- In every run on the loop thread, with callbacks that call `Send` and
`ShutDown` themselves and any kernel results but the two faults: what the kernel
accepted and then what is buffered are the payloads of the `Send`s made in
`kConnected`, in call order; while the state is `kConnected` or `kDisconnecting`
the write bit tells whether anything is buffered; and `shutdown(SHUT_WR)` is
called with nothing buffered. -/
theorem outgoing_stream_intact (s : System τ)
    (h : (machine τ).Reach (fun _ a => OnLoop a ∧ FaultFree a) s) :
    s.conn.socket.accepted ++ s.conn.outputBuffer.readable =
      (s.calls.map Payload.data).flatten ∧
    (s.conn.state = .kConnected ∨ s.conn.state = .kDisconnecting →
      (s.conn.isWriting = true ↔ s.conn.outputBuffer.readable ≠ [])) ∧
    ∀ a s', OnLoop a → FaultFree a → s.step a = some s' →
      s'.conn.socket.shutdowns ≠ s.conn.socket.shutdowns →
      s'.conn.outputBuffer.readable = [] := by
  obtain ⟨hI, hL⟩ := loopInv_of_reach h
  refine ⟨?_, ?_, ?_⟩
  · rw [← hL.sent, List.map_map]
    exact hI.stream
  · intro hstate
    apply hI.linked
    cases hc : s.closed with
    | false => rfl
    | true =>
        rw [hL.shut hc] at hstate
        rcases hstate with hstate | hstate <;> cases hstate
  · intro a s' _ _ hs hshut
    refine hI.shutdown_empty (step_views hs).conn ?_ hshut
    intro rest hpc
    have hf := hL.functors .shutdownInLoop
      (by rw [EventLoop.queued_running hpc]; exact List.mem_cons_self)
    cases hf

def established (due : Bool) : Option (System Unit) :=
  (TcpConnection.new 5 due).map fun c =>
    { conn := c.connectionEstablished
      loop := { EventLoop.new with pc := .handling false }
      frames := [.callback]
      callers := fun _ => .outside
      mem := .empty
      calls := []
      entered := []
      returned := []
      promised := []
      closed := false
      closedLeft := false }

theorem established_initial (due : Bool) {s : System Unit} (h : established due = some s) :
    Initial s := by
  obtain ⟨c, hc, rfl⟩ := Option.map_eq_some_iff.1 h
  exact ⟨⟨5, due, c, hc, rfl⟩, rfl, rfl, rfl, fun _ => rfl, rfl, rfl, rfl, rfl, rfl, rfl, rfl⟩

/-- A `Send` whose write-complete callback sends again and half-closes. -/
theorem outgoing_stream_intact_nested :
    ∃ s₀ s, established true = some s₀ ∧
      (machine Unit).run s₀ [.alloc (.chars ⟨[1, 2, 3], by decide⟩),
        .ownSend (.string 0) (.wrote 3), .ownSend (.array 0 1 2) (.wrote 2),
        .ownShutDown] = some s ∧
      s.frames.length = 5 ∧ s.conn.socket.shutdowns = 1 ∧
      s.conn.socket.accepted ++ s.conn.outputBuffer.readable = [1, 2, 3, 2, 3] := by
  refine ⟨_, _, rfl, rfl, rfl, rfl, ?_⟩
  have h₀ : (machine Unit).Reach (fun _ a => OnLoop a ∧ FaultFree a) _ :=
    .start (established_initial true rfl)
  have hreach := h₀.of_run [.alloc (.chars ⟨[1, 2, 3], by decide⟩), .ownSend (.string 0) (.wrote 3),
    .ownSend (.array 0 1 2) (.wrote 2), .ownShutDown]
    (by simp [OnLoop, FaultFree, WriteResult.fault]) rfl
  exact (outgoing_stream_intact _ hreach).1

end MyNetLib.TcpConnection.System
