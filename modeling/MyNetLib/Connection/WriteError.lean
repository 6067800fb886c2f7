import MyNetLib.Connection.TcpConnection

/-! # How a failed `::write` is classified

`SendInLoop` tests `errno` twice, with a logging call in between that may leave
any value there. What the connection does with the unsent data depends on both.
-/

namespace MyNetLib.TcpConnection

/-- The peer is gone. -/
def IsFault (errno : Errno) : Prop := errno = EPIPE ∨ errno = ECONNRESET

instance (errno : Errno) : Decidable (IsFault errno) := instDecidableOr

theorem fault_iff {errno logged : Errno} :
    (WriteResult.failed errno logged).fault = true ↔ errno ≠ EWOULDBLOCK ∧ IsFault logged := by
  simp [WriteResult.fault, IsFault]

/-- Nothing is kept of the data. -/
def Drops (c : TcpConnection) (after : Option TcpConnection) : Prop := after = some c

/-- All of the data is behind what was buffered, with the write bit set for it; or
`Append` itself threw. -/
def Buffers (c : TcpConnection) (data : List Library.Byte) : Option TcpConnection → Prop
  | none => c.outputBuffer.append data = none
  | some c' => c'.outputBuffer.readable = c.outputBuffer.readable ++ data ∧
      (data ≠ [] → c'.isWriting = true)

/-- Data is dropped exactly for the two faults of the write itself, and buffered otherwise. -/
def ClassifiedByWrite (c : TcpConnection) (p : Payload) (errno logged : Errno) : Prop :=
  let after := (c.sendInLoop p (.failed errno logged)).map Prod.fst
  (p.data ≠ [] → (Drops c after ↔ IsFault errno)) ∧
    (¬ IsFault errno → Buffers c p.data after)

variable {c : TcpConnection} {p : Payload} {errno logged : Errno}

theorem sendInLoop_failed (hstate : c.state ≠ .kDisconnected) (hdirect : c.writesDirectly = true) :
    (c.sendInLoop p (.failed errno logged)).map Prod.fst =
      if (WriteResult.failed errno logged).fault then some c else c.bufferRest p.data := by
  unfold sendInLoop
  rw [if_neg hstate, if_pos hdirect]
  dsimp only
  split
  · rfl
  · cases c.bufferRest p.data with
    | none => rfl
    | some c' => rfl

theorem buffers_bufferRest (hw : c.outputBuffer.WellFormed) :
    Buffers c p.data (c.bufferRest p.data) := by
  by_cases hnil : p.data = []
  · have hsame : c.bufferRest p.data = some c := by simp [bufferRest, hnil]
    rw [hsame]
    exact ⟨by simp [hnil], fun hne => absurd hnil hne⟩
  have hempty : p.data.isEmpty = false := by simpa using hnil
  cases hb : c.bufferRest p.data with
  | none =>
      simp only [bufferRest, hempty, Bool.false_eq_true, if_false, Option.map_eq_none_iff] at hb
      exact hb
  | some c' =>
      obtain ⟨hext, hsock⟩ := bufferRest_extends hw p.fits hb
      have hchannel := (bufferRest_channel hb).2
      have hstream := hext.stream
      simp only [TcpConnection.stream, hsock, List.append_assoc, List.append_cancel_left_eq]
        at hstream
      refine ⟨hstream, fun _ => ?_⟩
      rw [hempty, Bool.not_false, Bool.and_true] at hchannel
      show c'.channel.isWriting = true
      rw [hchannel]
      cases hbit : c.isWriting with
      | true => exact hbit
      | false => simp

/-- Buffering is told from dropping by the write bit. -/
theorem not_drops_bufferRest (hbit : c.isWriting = false) (hw : c.outputBuffer.WellFormed)
    (hdata : p.data ≠ []) : ¬ Drops c (c.bufferRest p.data) := by
  intro hdrop
  have hbuffers := buffers_bufferRest (p := p) hw
  rw [hdrop] at hbuffers
  have hset := hbuffers.2 hdata
  rw [hbit] at hset
  cases hset

theorem classified_of_dropped : ((p.data ≠ [] → (Drops c (some c) ↔ IsFault errno)) ∧
    (¬ IsFault errno → Buffers c p.data (some c))) ↔ p.data = [] ∨ IsFault errno := by
  have hdrop : Drops c (some c) := rfl
  by_cases hnil : p.data = []
  · have hbuffers : Buffers c p.data (some c) := by simp [Buffers, hnil]
    exact iff_of_true ⟨fun hne => absurd hnil hne, fun _ => hbuffers⟩ (.inl hnil)
  · constructor
    · intro hclass
      exact .inr ((hclass.1 hnil).1 hdrop)
    · intro hcond
      have herrno := hcond.resolve_left hnil
      exact ⟨fun _ => iff_of_true hdrop herrno, fun hnot => absurd herrno hnot⟩

theorem classified_of_kept (hw : c.outputBuffer.WellFormed) (hbit : c.isWriting = false) :
    ((p.data ≠ [] → (Drops c (c.bufferRest p.data) ↔ IsFault errno)) ∧
      (¬ IsFault errno → Buffers c p.data (c.bufferRest p.data))) ↔
        p.data = [] ∨ ¬ IsFault errno := by
  have hbuffers := buffers_bufferRest (p := p) hw
  by_cases hnil : p.data = []
  · exact iff_of_true ⟨fun hne => absurd hnil hne, fun _ => hbuffers⟩ (.inl hnil)
  · have hkept := not_drops_bufferRest hbit hw hnil
    constructor
    · intro hclass
      exact .inr fun herrno => hkept ((hclass.1 hnil).2 herrno)
    · intro hcond
      have herrno := hcond.resolve_left hnil
      exact ⟨fun _ => iff_of_false hkept herrno, fun _ => hbuffers⟩

/-- The data is classified by the errno of the write exactly when logging leaves
the classification as it was, the write was not merely refused, and there was
data to classify. -/
theorem classifiedByWrite_iff (c : TcpConnection) (p : Payload) (errno logged : Errno)
    (hw : c.outputBuffer.WellFormed) (hstate : c.state ≠ .kDisconnected)
    (hdirect : c.writesDirectly = true) :
    ClassifiedByWrite c p errno logged ↔
      p.data = [] ∨ errno = EWOULDBLOCK ∨ (IsFault logged ↔ IsFault errno) := by
  have hbit : c.isWriting = false := by
    simp only [writesDirectly, Bool.and_eq_true, Bool.not_eq_true'] at hdirect
    exact hdirect.1
  unfold ClassifiedByWrite
  rw [sendInLoop_failed hstate hdirect]
  by_cases hfault : (WriteResult.failed errno logged).fault = true
  · rw [if_pos hfault]
    rw [fault_iff] at hfault
    refine classified_of_dropped.trans ?_
    simp [hfault.1, hfault.2]
  · rw [if_neg hfault]
    rw [fault_iff, not_and] at hfault
    refine (classified_of_kept hw hbit).trans ?_
    by_cases hblock : errno = EWOULDBLOCK
    · have hrefused : ¬ IsFault EWOULDBLOCK := by decide
      simp [hblock, hrefused]
    · simp [hblock, hfault hblock]

/-- A connection with room for two bytes, about to write directly. -/
def writable : TcpConnection where
  state := .kConnected
  channel := .new 5
  inputBuffer := ⟨List.replicate 10 0, 8, 8⟩
  outputBuffer := ⟨List.replicate 10 0, 8, 8⟩
  socket := ⟨[], 0⟩
  writeCompleteCallback := false

def onePayload : Payload := ⟨[1], by decide⟩

theorem writable_wellFormed : writable.outputBuffer.WellFormed :=
  ⟨by decide, by decide, by decide, by decide⟩

/-- Logging that leaves `errno` alone: data is dropped for `EPIPE`. -/
theorem classifiedByWrite_iff_quiet : ClassifiedByWrite writable onePayload EPIPE EPIPE :=
  (classifiedByWrite_iff writable onePayload EPIPE EPIPE writable_wellFormed (by decide)
    (by decide)).2 (Or.inr (Or.inr Iff.rfl))

/-- Logging that leaves `0` in `errno`: after `EPIPE` the data is buffered for a dead socket. -/
theorem broken_pipe_buffered :
    ¬ ∀ (c : TcpConnection) (p : Payload) (errno logged : Errno), c.outputBuffer.WellFormed →
      c.state ≠ .kDisconnected → c.writesDirectly = true → ClassifiedByWrite c p errno logged := by
  intro hclaim
  have hclass := hclaim writable onePayload EPIPE 0 writable_wellFormed (by decide) (by decide)
  have hdrops := (hclass.1 (by decide)).2 (by decide)
  have hkept : (writable.sendInLoop onePayload (.failed EPIPE 0)).map Prod.fst ≠ some writable := by
    decide
  exact hkept hdrops

end MyNetLib.TcpConnection
