import MyNetLib.Connection.TcpConnection

/-! # Draining the output buffer (`src/tcp_connection.cc`)

The poller keeps reporting the socket writable while the write bit is set. How
much `::write` takes each time is the kernel's choice; what a whole series of
`HandleWrite` calls does depends on the sum of these choices only.
-/

namespace MyNetLib.TcpConnection

open Library

/-- `::write` when the kernel has room for `room` bytes. -/
def takes (c : TcpConnection) (room : Nat) : WriteResult :=
  .wrote (min room c.outputBuffer.readableBytes)

/-- `HandleWrite` once for each entry of `rooms`, and how often it queued the
write-complete callback. -/
def flush (c : TcpConnection) : List Nat → Option (TcpConnection × Nat)
  | [] => some (c, 0)
  | room :: rooms =>
      (c.handleWrite (c.takes room)).bind fun r =>
        (flush r.1 rooms).map fun t => (t.1, r.2.toNat + t.2)

/-- Bytes are buffered, and `room` is enough for them. -/
def drainsWithin (c : TcpConnection) (room : Nat) : Bool :=
  c.isWriting && decide (c.outputBuffer.readable.length ≤ room)

/-- From `c` to `c'` the kernel took up to `room` bytes of the buffer; the calls
queued `queued` write-complete callbacks. -/
structure Flushed (c c' : TcpConnection) (room queued : Nat) : Prop where
  wellFormed : c'.outputBuffer.WellFormed
  linked : Linked c'
  state : c'.state = c.state
  callback : c'.writeCompleteCallback = c.writeCompleteCallback
  stream : c'.stream = c.stream
  accepted : c'.socket.accepted = c.stream.take (c.socket.accepted.length + room)
  writing : c'.isWriting = (c.isWriting && !c.drainsWithin room)
  queued : queued = if c.drainsWithin room then c.writeCompleteCallback.toNat else 0
  shutdowns : c'.socket.shutdowns = c.socket.shutdowns +
    if c.drainsWithin room ∧ c.state = .kDisconnecting then 1 else 0

variable {c c' c'' : TcpConnection}

theorem length_stream (c : TcpConnection) :
    c.stream.length = c.socket.accepted.length + c.outputBuffer.readable.length := by
  simp [TcpConnection.stream]

@[simp] theorem take_accepted (c : TcpConnection) :
    c.stream.take c.socket.accepted.length = c.socket.accepted := by
  simp [TcpConnection.stream]

theorem accepted_of_idle (hl : Linked c) (hidle : c.isWriting = false) :
    c.stream = c.socket.accepted := by
  have hempty : c.outputBuffer.readable = [] := by
    by_contra hne
    rw [hl.2 hne] at hidle
    cases hidle
  rw [TcpConnection.stream, hempty, List.append_nil]

namespace Flushed

variable {room rooms n m : Nat}

theorem refl (hw : c.outputBuffer.WellFormed) (hl : Linked c) : Flushed c c 0 0 := by
  have hkeep : c.drainsWithin 0 = false := by
    cases hbit : c.isWriting with
    | false => simp [drainsWithin, hbit]
    | true =>
        have hne := hl.1 hbit
        have hpos := List.length_pos_of_ne_nil hne
        simp only [drainsWithin, hbit, Bool.true_and, decide_eq_false_iff_not]
        omega
  exact ⟨hw, hl, rfl, rfl, rfl, by simp, by simp [hkeep], by simp [hkeep], by simp [hkeep]⟩

/-- Without buffered bytes `HandleWrite` only logs. -/
theorem of_idle (hw : c.outputBuffer.WellFormed) (hl : Linked c) (hidle : c.isWriting = false)
    (room : Nat) : Flushed c c room 0 := by
  have hkeep : c.drainsWithin room = false := by simp [drainsWithin, hidle]
  have htake : c.stream.take (c.socket.accepted.length + room) = c.socket.accepted := by
    rw [accepted_of_idle hl hidle, List.take_of_length_le (by omega)]
  exact ⟨hw, hl, rfl, rfl, rfl, htake.symm, by simp [hidle], by simp [hkeep], by simp [hkeep]⟩

theorem drainsWithin_add (h : Flushed c c' room n) (rooms : Nat) :
    c.drainsWithin (room + rooms) = (c.drainsWithin room || c'.drainsWithin rooms) := by
  have hlen := congrArg List.length h.stream
  have hacc := congrArg List.length h.accepted
  rw [length_stream, length_stream] at hlen
  rw [List.length_take, length_stream] at hacc
  simp only [drainsWithin, h.writing]
  cases c.isWriting with
  | false => rfl
  | true =>
      rw [Bool.eq_iff_iff]
      simp only [Bool.true_and, Bool.or_eq_true, Bool.and_eq_true,
        decide_eq_true_eq, Bool.not_eq_true', decide_eq_false_iff_not]
      omega

theorem trans (h : Flushed c c' room n) (h' : Flushed c' c'' rooms m) :
    Flushed c c'' (room + rooms) (n + m) := by
  have hsplit := h.drainsWithin_add rooms
  have hrest : c.drainsWithin room = true → c'.drainsWithin rooms = false := by
    intro hdone
    unfold drainsWithin
    rw [h.writing, hdone, Bool.not_true, Bool.and_false, Bool.false_and]
  constructor
  · exact h'.wellFormed
  · exact h'.linked
  · rw [h'.state, h.state]
  · rw [h'.callback, h.callback]
  · rw [h'.stream, h.stream]
  · have hacc := congrArg List.length h.accepted
    rw [List.length_take] at hacc
    rw [h'.accepted, h.stream]
    by_cases hall : c.stream.length ≤ c.socket.accepted.length + room
    · rw [List.take_of_length_le (by omega), List.take_of_length_le (by omega)]
    · rw [show c'.socket.accepted.length + rooms =
        c.socket.accepted.length + (room + rooms) by omega]
  · rw [h'.writing, h.writing, hsplit]
    cases c.isWriting <;> cases c.drainsWithin room <;> cases c'.drainsWithin rooms <;> rfl
  · rw [h.queued, h'.queued, h.callback, hsplit]
    cases hdone : c.drainsWithin room with
    | true => simp [hrest hdone]
    | false => simp
  · rw [h'.shutdowns, h.shutdowns, h.state, hsplit]
    cases hdone : c.drainsWithin room with
    | true => simp [hrest hdone]
    | false => simp

end Flushed

/-! ## One call -/

theorem written_flushed (hw : c.outputBuffer.WellFormed) (hbit : c.isWriting = true) {room : Nat}
    (hpart : room < c.outputBuffer.readable.length) : Flushed c (c.written room) room 0 := by
  obtain ⟨hw', hstream⟩ := written_stream hw room
  have hkeep : c.drainsWithin room = false := by simp [drainsWithin, hbit, hpart]
  have hread : (c.written room).outputBuffer.readable = c.outputBuffer.readable.drop room :=
    (Buffer.retrive_spec hw room).2
  have hne : (c.written room).outputBuffer.readable ≠ [] := by
    rw [hread, ne_eq, List.drop_eq_nil_iff]
    omega
  have htake : c.socket.accepted ++ c.outputBuffer.readable.take room =
      c.stream.take (c.socket.accepted.length + room) := by
    rw [TcpConnection.stream, List.take_append, Nat.add_sub_cancel_left,
      List.take_of_length_le (Nat.le_add_right _ _)]
  have hwriting : (c.written room).isWriting = (c.isWriting && !c.drainsWithin room) := by
    rw [hkeep, Bool.not_false, Bool.and_true]
    rfl
  exact ⟨hw', iff_of_true hbit hne, rfl, rfl, hstream, htake, hwriting, by simp [hkeep],
    by simp [hkeep, written, accept]⟩

theorem drained_isWriting (c : TcpConnection) : c.drained.isWriting = false := by
  unfold drained
  dsimp only
  split <;> simp [isWriting]

theorem drained_shutdowns (c : TcpConnection) : c.drained.socket.shutdowns =
    c.socket.shutdowns + if c.state = .kDisconnecting then 1 else 0 := by
  unfold drained
  dsimp only
  split
  · simp [shutdownInLoop, isWriting]
  · simp

theorem drained_callback (c : TcpConnection) :
    c.drained.writeCompleteCallback = c.writeCompleteCallback := by
  unfold drained
  dsimp only
  split
  · unfold shutdownInLoop
    split <;> rfl
  · rfl

theorem drained_flushed (hw : c.outputBuffer.WellFormed) (hbit : c.isWriting = true) {room : Nat}
    (hall : c.outputBuffer.readable.length ≤ room) :
    Flushed c (c.written c.outputBuffer.readable.length).drained room
      c.writeCompleteCallback.toNat := by
  obtain ⟨hw', hstream⟩ := written_stream hw c.outputBuffer.readable.length
  have hdrains : c.drainsWithin room = true := by simp [drainsWithin, hbit, hall]
  have hempty : (c.written c.outputBuffer.readable.length).outputBuffer.readable = [] := by
    show (c.outputBuffer.retrive _).readable = []
    rw [(Buffer.retrive_spec hw _).2, List.drop_length]
  have hlen := length_stream c
  have hfull : (c.written c.outputBuffer.readable.length).socket.accepted = c.stream := by
    show c.socket.accepted ++ c.outputBuffer.readable.take _ = c.stream
    rw [List.take_length, TcpConnection.stream]
  obtain ⟨hout, hacc, hstate, hlinked⟩ := drained_spec hempty
  constructor
  · rw [hout]
    exact hw'
  · exact hlinked
  · rw [hstate]
    rfl
  · rw [drained_callback]
    rfl
  · rw [TcpConnection.stream, hout, hacc, ← hstream, TcpConnection.stream]
  · rw [hacc, hfull, List.take_of_length_le (by omega)]
  · rw [drained_isWriting, hdrains, Bool.not_true, Bool.and_false]
  · rw [if_pos hdrains]
  · rw [drained_shutdowns, hdrains]
    simp [written, accept]

theorem handleWrite_flushed (hw : c.outputBuffer.WellFormed) (hl : Linked c) (room : Nat) :
    ∃ c' due, c.handleWrite (c.takes room) = some (c', due) ∧ Flushed c c' room due.toNat := by
  cases hbit : c.isWriting with
  | false => exact ⟨c, false, by simp [handleWrite, hbit], .of_idle hw hl hbit room⟩
  | true =>
      have hlen := hw.readableBytes_eq_length
      have hpos := List.length_pos_of_ne_nil (hl.1 hbit)
      by_cases hall : c.outputBuffer.readable.length ≤ room
      · refine ⟨_, _, ?_, drained_flushed hw hbit hall⟩
        have hempty := (written_stream hw c.outputBuffer.readable.length).1.readableBytes_eq_length
        rw [show (c.written _).outputBuffer.readable = _ from (Buffer.retrive_spec hw _).2,
          List.drop_length, List.length_nil] at hempty
        unfold handleWrite takes
        rw [if_pos hbit]
        dsimp only
        rw [hlen, Nat.min_eq_right hall, if_neg (Nat.lt_irrefl _), if_neg (by omega),
          if_pos hempty]
      · have hpart : room < c.outputBuffer.readable.length := Nat.lt_of_not_le hall
        by_cases hzero : room = 0
        · subst hzero
          exact ⟨c, false, by simp [handleWrite, hbit, takes], .refl hw hl⟩
        · refine ⟨_, false, ?_, written_flushed hw hbit hpart⟩
          have hrest := (written_stream hw room).1.readableBytes_eq_length
          rw [show (c.written _).outputBuffer.readable = _ from (Buffer.retrive_spec hw _).2,
            List.length_drop] at hrest
          unfold handleWrite takes
          rw [if_pos hbit]
          dsimp only
          rw [hlen, Nat.min_eq_left hpart.le, if_neg (by omega), if_neg hzero, if_neg (by omega)]

/-! ## A series of calls -/

theorem flush_spec (hw : c.outputBuffer.WellFormed) (hl : Linked c) (rooms : List Nat) :
    ∃ c' n, c.flush rooms = some (c', n) ∧ Flushed c c' rooms.sum n := by
  induction rooms generalizing c with
  | nil => exact ⟨c, 0, rfl, .refl hw hl⟩
  | cons room rooms ih =>
      obtain ⟨c₁, due, hone, h₁⟩ := handleWrite_flushed hw hl room
      obtain ⟨c₂, n, hmany, h₂⟩ := ih h₁.wellFormed h₁.linked
      refine ⟨c₂, due.toNat + n, ?_, h₁.trans h₂⟩
      rw [flush, hone, Option.bind_some, hmany, Option.map_some]

/-- However the kernel cuts the buffer up, a series of `HandleWrite` calls hands it
the next bytes of the stream in order; the calls together queue one write-complete
callback and half-close once, both exactly when the buffer was not empty before and
is after them. -/
theorem flush_drains (hw : c.outputBuffer.WellFormed) (hl : Linked c) (rooms : List Nat) :
    ∃ c' n, c.flush rooms = some (c', n) ∧
      c'.socket.accepted = c.stream.take (c.socket.accepted.length + rooms.sum) ∧
      c'.stream = c.stream ∧
      (c'.isWriting = true ↔ rooms.sum < c.outputBuffer.readable.length) ∧
      (n = if c.outputBuffer.readable ≠ [] ∧ c.outputBuffer.readable.length ≤ rooms.sum then
        c.writeCompleteCallback.toNat else 0) ∧
      c'.socket.shutdowns = c.socket.shutdowns +
        if c.outputBuffer.readable ≠ [] ∧ c.outputBuffer.readable.length ≤ rooms.sum ∧
          c.state = .kDisconnecting then 1 else 0 := by
  obtain ⟨c', n, hflush, hdone⟩ := flush_spec hw hl rooms
  have hdrains : c.drainsWithin rooms.sum = true ↔
      c.outputBuffer.readable ≠ [] ∧ c.outputBuffer.readable.length ≤ rooms.sum := by
    rw [drainsWithin, Bool.and_eq_true, decide_eq_true_eq, show _ ↔ _ from hl]
  refine ⟨c', n, hflush, hdone.accepted, hdone.stream, ?_, ?_, ?_⟩
  · have hbit : c.isWriting = true ↔ 0 < c.outputBuffer.readable.length := by
      rw [show _ ↔ _ from hl, List.length_pos_iff]
    rw [hdone.writing]
    simp only [drainsWithin, Bool.and_eq_true, Bool.not_eq_true', Bool.and_eq_false_iff,
      decide_eq_false_iff_not, hbit]
    constructor
    · rintro ⟨hpos, hidle | hroom⟩
      · rw [← Bool.not_eq_true, hbit] at hidle
        omega
      · omega
    · intro hroom
      exact ⟨by omega, Or.inr (by omega)⟩
  · rw [hdone.queued]
    simp only [hdrains]
  · rw [hdone.shutdowns]
    simp only [hdrains, and_assoc]

/-- Three bytes are buffered and `ShutDown` has been called. -/
def closing : TcpConnection :=
  { state := .kDisconnecting
    channel := ⟨7, 7#32, 1⟩
    inputBuffer := ⟨[], 8, 8⟩
    outputBuffer := ⟨[0, 0, 0, 0, 0, 0, 0, 0, 1, 2, 3, 9], 8, 11⟩
    socket := ⟨[4], 0⟩
    writeCompleteCallback := true }

theorem closing_wellFormed : closing.outputBuffer.WellFormed := by
  constructor <;> decide

/-- The second call empties the buffer, the third finds nothing to do. -/
theorem flush_drains_closing : ∃ c' n, closing.flush [1, 5, 2] = some (c', n) ∧
    c'.socket.accepted = [4, 1, 2, 3] ∧ c'.socket.shutdowns = 1 ∧ n = 1 := by
  have hl : Linked closing := iff_of_true (by decide) (by decide)
  obtain ⟨c', n, hflush, haccepted, _, _, hqueued, hshutdowns⟩ :=
    flush_drains closing_wellFormed hl [1, 5, 2]
  refine ⟨c', n, hflush, ?_, ?_, ?_⟩
  · rw [haccepted]
    decide
  · rw [hshutdowns]
    decide
  · rw [hqueued]
    decide

end MyNetLib.TcpConnection
