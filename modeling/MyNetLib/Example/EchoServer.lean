import MyNetLib.Connection.Drain
import MyNetLib.Library.Machine

/-! # The echo servers (`example/echo_server.cc`, `example/pingpong_server.cc`)

One connection from `ConnectionEstablished` on, on the thread of its loop. The
poller reports `revents`; `HandleEventWithGuard` calls the handlers; a message
callback takes out what has been read and sends it back. What the kernel answers
during an event is part of the event.

`received` and `messages` only record the run: what `readv` delivered, and what
each message callback took out, with whether its `Send` took it in.
-/

namespace MyNetLib

open Library Library.ByteVector

namespace TcpConnection

def setInput (c : TcpConnection) (b : Buffer) : TcpConnection := { c with inputBuffer := b }

/-- `Send(const std::string&)` on the thread of the loop. -/
def send (c : TcpConnection) (p : Payload) (w : WriteResult) : Option (TcpConnection × Bool) :=
  if c.state = .kConnected then c.sendInLoop p w else some (c, false)

/-- `Send` takes its payload in: the connection is up, and no direct write faults. -/
def sends (c : TcpConnection) (w : WriteResult) : Bool :=
  decide (c.state = .kConnected) && !(c.writesDirectly && w.fault)

variable {c c' : TcpConnection}

theorem bufferRest_inputBuffer {rest : List Byte} (h : c.bufferRest rest = some c') :
    c'.inputBuffer = c.inputBuffer := by
  unfold bufferRest at h
  split at h
  · cases h
    rfl
  · obtain ⟨b, _, rfl⟩ := Option.map_eq_some_iff.1 h
    rfl

theorem sendInLoop_inputBuffer {p : Payload} {w : WriteResult} {due : Bool}
    (h : c.sendInLoop p w = some (c', due)) : c'.inputBuffer = c.inputBuffer := by
  have hbuffer : ∀ {x : TcpConnection} {rest : List Byte} {d : Bool},
      (x.bufferRest rest).map (fun c₁ => (c₁, d)) = some (c', due) →
      c'.inputBuffer = x.inputBuffer := by
    intro x rest d hb
    obtain ⟨c₁, hc₁, heq⟩ := Option.map_eq_some_iff.1 hb
    cases heq
    exact bufferRest_inputBuffer hc₁
  unfold sendInLoop at h
  by_cases hstate : c.state = .kDisconnected
  · rw [if_pos hstate] at h
    cases h
    rfl
  rw [if_neg hstate] at h
  by_cases hdirect : c.writesDirectly = true
  · rw [if_pos hdirect] at h
    cases w with
    | wrote n =>
        dsimp only at h
        split at h
        · exact hbuffer (x := c.accept (p.data.take n)) h
        · cases h
    | failed errno logged =>
        dsimp only at h
        split at h
        · cases h
          rfl
        · exact hbuffer h
  · rw [if_neg hdirect] at h
    exact hbuffer h

theorem send_cases (hw : c.outputBuffer.WellFormed) {p : Payload} {w : WriteResult} {due : Bool}
    (h : c.send p w = some (c', due)) :
    (c.sends w = false ∧ c' = c) ∨ (c.sends w = true ∧ Extends c c' p.data ∧
      c'.inputBuffer = c.inputBuffer ∧ c.state = .kConnected) := by
  unfold send at h
  by_cases hstate : c.state = .kConnected
  · rw [if_pos hstate] at h
    have hsame : c.sends w = c.takesIn w := by simp [sends, takesIn, hstate]
    rw [hsame]
    rcases sendInLoop_takesIn hw h with hlost | ⟨hkept, hext⟩
    · exact Or.inl hlost
    · exact Or.inr ⟨hkept, hext, sendInLoop_inputBuffer h, hstate⟩
  · rw [if_neg hstate] at h
    cases h
    exact Or.inl ⟨by simp [sends, hstate], rfl⟩

end TcpConnection

/-! ## The server's side of one connection -/

/-- What the kernel answers during an event: to `readv`, to the `::write` of a
`Send` in the message callback, and to the `::write` of `HandleWrite`. -/
structure Answers where
  read : ReadvResult
  send : WriteResult
  write : WriteResult
  deriving DecidableEq, Repr

def ReadvResult.bytes : ReadvResult → List Byte
  | .received data => data
  | .failed _ => []

structure EchoServer where
  conn : TcpConnection
  received : List Byte
  messages : List (List Byte × Bool)
  deriving DecidableEq, Repr

namespace EchoServer

def onMessage (s : EchoServer) (w : WriteResult) : Option EchoServer :=
  s.conn.inputBuffer.retriveAllAsString.bind fun msg =>
    (Payload.of msg.1).bind fun p =>
      ((s.conn.setInput msg.2).send p w).map fun r =>
        { s with conn := r.1, messages := s.messages ++ [(msg.1, s.conn.sends w)] }

/-- `OnConnection` logs, or sets an option of the socket. -/
def handleClose (s : EchoServer) : EchoServer := { s with conn := s.conn.disconnect }

def handleRead (s : EchoServer) (k : Answers) : Option EchoServer :=
  (s.conn.handleRead k.read).bind fun r =>
    let s' := { s with conn := r.1, received := s.received ++ k.read.bytes }
    match r.2 with
    | .message => s'.onMessage k.send
    | .close => some s'.handleClose
    | .error => some s'

def handleWrite (s : EchoServer) (k : Answers) : Option EchoServer :=
  (s.conn.handleWrite k.write).map fun r => { s with conn := r.1 }

def handle (k : Answers) (s : EchoServer) : Channel.Handler → Option EchoServer
  | .close => some s.handleClose
  | .error => some s
  | .read => s.handleRead k
  | .write => s.handleWrite k

abbrev Event := BitVec 32 × Answers

def handleEvent (s : EchoServer) (e : Event) : Option EchoServer :=
  (Channel.handleEventWithGuard e.1).foldlM (handle e.2) s

/-- A connection as `ConnectionEstablished` leaves it. -/
def Established (s : EchoServer) : Prop :=
  (∃ fd due c, TcpConnection.new fd due = some c ∧ s.conn = c.connectionEstablished) ∧
    s.received = [] ∧ s.messages = []

def machine : Machine EchoServer Event := ⟨Established, handleEvent⟩

/-- The messages the `Send`s took in, in order. -/
def sent (s : EchoServer) : List Byte := ((s.messages.filter (·.2)).map (·.1)).flatten

/-! ## What every run keeps -/

structure Echoes (s : EchoServer) : Prop where
  input : s.conn.inputBuffer.WellFormed
  consumed : s.conn.inputBuffer.readable = []
  output : s.conn.outputBuffer.WellFormed
  received : s.received = (s.messages.map (·.1)).flatten
  stream : s.conn.stream = s.sent
  state : (s.conn.state = .kConnected ∧ s.conn.Linked) ∨
    (s.conn.state = .kDisconnected ∧ s.conn.isWriting = false)

variable {s s' : EchoServer} {k : Answers}

theorem Echoes.established (h : Established s) : Echoes s := by
  obtain ⟨⟨fd, due, c, hnew, hconn⟩, hreceived, hmessages⟩ := h
  obtain ⟨b, hb, rfl⟩ := Option.map_eq_some_iff.1 hnew
  have hroom : Buffer.kCheapPrepend + Buffer.kInitialSize < SizeT.modulus := by decide
  obtain ⟨hw, hr, _⟩ := Buffer.new_spec hroom hb
  constructor
  · rw [hconn]
    exact hw
  · rw [hconn]
    exact hr
  · rw [hconn]
    exact hw
  · rw [hreceived, hmessages]
    rfl
  · rw [hconn, sent, hmessages]
    simp [TcpConnection.stream, TcpConnection.connectionEstablished, TcpConnection.setState, hr]
  · rw [hconn]
    refine Or.inl ⟨rfl, iff_of_false ?_ ?_⟩
    · simp [TcpConnection.isWriting, TcpConnection.connectionEstablished]
    · simp [TcpConnection.connectionEstablished, TcpConnection.setState, hr]

theorem Echoes.handleClose (h : Echoes s) : Echoes s.handleClose := by
  refine ⟨h.input, h.consumed, h.output, h.received, h.stream, Or.inr ⟨rfl, ?_⟩⟩
  simp [EchoServer.handleClose, TcpConnection.disconnect, TcpConnection.isWriting,
    Channel.isWriting, Channel.disableAll, Channel.change, Channel.mask, Channel.kNoneEvent]

theorem Echoes.handleWrite (h : Echoes s) (hs : s.handleWrite k = some s') : Echoes s' := by
  obtain ⟨⟨c, due⟩, hc, rfl⟩ := Option.map_eq_some_iff.1 hs
  have hext := TcpConnection.handleWrite_extends h.output hc
  have hin : c.inputBuffer = s.conn.inputBuffer := by
    rcases TcpConnection.handleWrite_cases hc with rfl | ⟨n, _, _, _, ⟨_, rfl⟩ | ⟨_, rfl⟩⟩
    · rfl
    · rfl
    · unfold TcpConnection.drained TcpConnection.shutdownInLoop
      dsimp only
      split
      · split <;> rfl
      · rfl
  constructor
  · rw [hin]
    exact h.input
  · rw [hin]
    exact h.consumed
  · exact hext.wellFormed
  · exact h.received
  · rw [hext.stream, List.append_nil, h.stream]
    rfl
  · rcases h.state with ⟨hup, hlinked⟩ | ⟨hdown, hidle⟩
    · exact Or.inl ⟨by rw [hext.state, hup], hext.linked hlinked⟩
    · refine Or.inr ⟨by rw [hext.state, hdown], ?_⟩
      unfold TcpConnection.handleWrite at hc
      rw [hidle, if_neg Bool.false_ne_true] at hc
      cases hc
      exact hidle

/-- What the message callback finds: the input buffer holds one read. -/
structure Delivered (s : EchoServer) (data : List Byte) : Prop where
  input : s.conn.inputBuffer.WellFormed
  readable : s.conn.inputBuffer.readable = data
  output : s.conn.outputBuffer.WellFormed
  received : s.received = (s.messages.map (·.1)).flatten ++ data
  stream : s.conn.stream = s.sent
  state : (s.conn.state = .kConnected ∧ s.conn.Linked) ∨
    (s.conn.state = .kDisconnected ∧ s.conn.isWriting = false)

/-- The message callback empties the input buffer; `Send` takes the message in
as a whole or not at all. -/
theorem Delivered.onMessage {data : List Byte} {w : WriteResult} (h : Delivered s data)
    (hs : s.onMessage w = some s') : Echoes s' ∧ s'.received = s.received ∧
      s'.messages = s.messages ++ [(data, s.conn.sends w)] := by
  unfold EchoServer.onMessage at hs
  rw [Buffer.retriveAllAsString_spec h.input, Option.bind_some, h.readable] at hs
  obtain ⟨hwin, hdrop⟩ := Buffer.retrive_spec h.input s.conn.inputBuffer.readableBytes
  have hrin : (s.conn.inputBuffer.retrive s.conn.inputBuffer.readableBytes).readable = [] := by
    rw [hdrop, h.input.readableBytes_eq_length, List.drop_length]
  obtain ⟨p, hp, hsend⟩ := Option.bind_eq_some_iff.1 hs
  have hdata : p.data = data := by
    unfold Payload.of at hp
    split at hp
    · cases hp
      rfl
    · cases hp
  obtain ⟨⟨c, due⟩, hc, rfl⟩ := Option.map_eq_some_iff.1 hsend
  have hreceived : s.received = ((s.messages ++ [(data, s.conn.sends w)]).map (·.1)).flatten := by
    rw [h.received, List.map_append, List.flatten_append]
    simp
  refine ⟨?_, rfl, rfl⟩
  have hout : ∀ b, (s.conn.setInput b).outputBuffer.WellFormed := fun _ => h.output
  have hbefore : ∀ b, (s.conn.setInput b).stream = s.sent := fun _ => h.stream
  rcases TcpConnection.send_cases (hout _) hc with ⟨hlost, rfl⟩ | ⟨hkept, hext, hin, hup⟩
  · refine ⟨hwin, hrin, h.output, hreceived, ?_, h.state⟩
    show s.conn.stream = _
    rw [h.stream, sent, sent, List.filter_append, show s.conn.sends w = false from hlost]
    simp
  · constructor
    · rw [hin]
      exact hwin
    · rw [hin]
      exact hrin
    · exact hext.wellFormed
    · exact hreceived
    · show c.stream = _
      rw [hext.stream, hdata, hbefore, sent, sent, List.filter_append,
        show s.conn.sends w = true from hkept]
      simp
    · rcases h.state with ⟨_, hlinked⟩ | ⟨hdown, _⟩
      · exact Or.inl ⟨by rw [hext.state, hup], hext.linked hlinked⟩
      · rw [show s.conn.state = .kConnected from hup] at hdown
        cases hdown

/-- A read that delivers bytes leaves exactly them for the message callback. -/
theorem Echoes.handleRead (h : Echoes s) (hs : s.handleRead k = some s') : Echoes s' := by
  unfold EchoServer.handleRead at hs
  obtain ⟨⟨c, o⟩, hc, hs⟩ := Option.bind_eq_some_iff.1 hs
  unfold TcpConnection.handleRead at hc
  cases hk : k.read with
  | failed errno =>
      rw [hk] at hc hs
      cases hc
      cases hs
      have hsame : s.received ++ (ReadvResult.failed errno).bytes = s.received :=
        List.append_nil _
      exact ⟨h.input, h.consumed, h.output, by rw [hsame]; exact h.received, h.stream, h.state⟩
  | received data =>
      rw [hk] at hc hs
      dsimp only at hc
      split at hc
      · rename_i hroom
        obtain ⟨b, hb, heq⟩ := Option.map_eq_some_iff.1 hc
        have hfits : s.conn.inputBuffer.writeIndex + data.length < SizeT.modulus := by
          have h₁ := h.input.write_le_size
          have h₂ := h.input.size_le_max
          have h₃ := h.input.writeableBytes_eq
          have h₄ : maxSize + Buffer.kExtraSize < SizeT.modulus := by decide
          unfold Buffer.readvRoom at hroom
          split at hroom <;> omega
        obtain ⟨hw, hr⟩ := (Buffer.readFd_spec h.input data hfits).2 b hb
        rw [h.consumed, List.nil_append] at hr
        have hdelivered : Delivered
            { s with conn := { s.conn with inputBuffer := b }, received := s.received ++ data }
            data := ⟨hw, hr, h.output, by rw [h.received], h.stream, h.state⟩
        cases heq
        cases hnil : data.isEmpty with
        | true =>
            rw [List.isEmpty_iff] at hnil
            subst hnil
            cases hs
            have hempty : Echoes
                { s with conn := { s.conn with inputBuffer := b }, received := s.received ++ [] } :=
              ⟨hw, hr, h.output, by rw [List.append_nil]; exact h.received, h.stream, h.state⟩
            exact hempty.handleClose
        | false =>
            simp only [hnil] at hs
            exact (hdelivered.onMessage hs).1
      · cases hc

theorem Echoes.handle {handler : Channel.Handler} (h : Echoes s)
    (hs : s.handle k handler = some s') : Echoes s' := by
  cases handler with
  | close =>
      cases hs
      exact h.handleClose
  | error =>
      cases hs
      exact h
  | read => exact h.handleRead hs
  | write => exact h.handleWrite hs

theorem handlers_induct {I : EchoServer → Prop} (hI : ∀ s s' handler, I s →
    handle k s handler = some s' → I s') (handlers : List Channel.Handler) (h : I s)
    (hs : handlers.foldlM (handle k) s = some s') : I s' := by
  induction handlers generalizing s with
  | nil =>
      cases hs
      exact h
  | cons handler handlers ih =>
      rw [List.foldlM_cons] at hs
      obtain ⟨s₁, hone, hrest⟩ := Option.bind_eq_some_iff.1 hs
      exact ih (hI s s₁ handler h hone) hrest

theorem echoes_of_reach {guard : EchoServer → Event → Prop} (h : machine.Reach guard s) :
    Echoes s := by
  refine h.invariant (fun _ => .established) ?_
  intro t e t' ht _ hs
  exact handlers_induct (fun _ _ _ h' hs' => h'.handle hs') _ ht hs

/-! ## A short connection -/

def fresh (c : TcpConnection) : EchoServer := ⟨c.connectionEstablished, [], []⟩

theorem new_isSome : (TcpConnection.new 7 true).isSome = true := by decide +kernel

theorem fresh_established : Established (fresh ((TcpConnection.new 7 true).get new_isSome)) :=
  ⟨⟨7, true, _, (Option.some_get new_isSome).symm, rfl⟩, rfl, rfl⟩

/-- Four bytes arrive, and the kernel takes one of them back; then two more arrive. -/
def shortRun : List Event :=
  [(Channel.POLLIN, ⟨.received [1, 2, 3, 4], .wrote 1, .wrote 0⟩),
    (Channel.POLLIN, ⟨.received [5, 6], .wrote 0, .wrote 0⟩)]

/-! ## Echoed in order -/

/-- No direct write of this event fails with `EPIPE` or `ECONNRESET`. -/
def NoFault (_ : EchoServer) (e : Event) : Prop := e.2.send.fault = false

instance (s : EchoServer) (e : Event) : Decidable (NoFault s e) :=
  inferInstanceAs (Decidable (e.2.send.fault = false))

/-- While the connection is up nothing has been given up. -/
def Whole (s : EchoServer) : Prop :=
  s.conn.state = .kConnected → ∀ m ∈ s.messages, m.2 = true

theorem Echoes.sent_of_whole (h : Echoes s) (hw : Whole s) (hup : s.conn.state = .kConnected) :
    s.sent = s.received := by
  rw [sent, List.filter_eq_self.2 (hw hup), h.received]

theorem Echoes.linked (h : Echoes s) (hup : s.conn.state = .kConnected) : s.conn.Linked := by
  rcases h.state with ⟨_, hlinked⟩ | ⟨hdown, _⟩
  · exact hlinked
  · rw [hup] at hdown
    cases hdown

/-- The echo is a part of what was received, and the kernel has been handed a prefix of it. -/
theorem echo_stream (s : EchoServer) (h : machine.Reach (fun _ _ => True) s) :
    s.received = (s.messages.map (·.1)).flatten ∧
      s.conn.socket.accepted ++ s.conn.outputBuffer.readable =
        ((s.messages.filter (·.2)).map (·.1)).flatten ∧
      s.conn.inputBuffer.readable = [] ∧
      (s.conn.state = .kConnected →
        (s.conn.isWriting = true ↔ s.conn.outputBuffer.readable ≠ [])) := by
  have he := echoes_of_reach h
  exact ⟨he.received, he.stream, he.consumed, he.linked⟩

/-- The kernel has one byte of the echo, the others are buffered. -/
theorem echo_stream_short : ∃ s, machine.Reach (fun _ _ => True) s ∧
    s.conn.socket.accepted = [1] ∧ s.messages = [([1, 2, 3, 4], true), ([5, 6], true)] ∧
    s.conn.socket.accepted ++ s.conn.outputBuffer.readable = [1, 2, 3, 4, 5, 6] := by
  obtain ⟨s, hs, htest⟩ := Machine.Reach.of_test machine (fun _ _ => True)
    (fun s => s.conn.socket.accepted == [1] &&
      s.messages == [([1, 2, 3, 4], true), ([5, 6], true)]) shortRun
    (.start fresh_established) (by decide +kernel)
  simp only [Bool.and_eq_true, beq_iff_eq] at htest
  refine ⟨s, hs, htest.1, htest.2, ?_⟩
  rw [(echo_stream s hs).2.1, htest.2]
  rfl

theorem send_state {c c' : TcpConnection} {p : Payload} {w : WriteResult} {due : Bool}
    (h : c.send p w = some (c', due)) : c'.state = c.state := by
  unfold TcpConnection.send at h
  split at h
  · exact (TcpConnection.sendInLoop_channel h).1
  · cases h
    rfl

theorem Whole.onMessage {w : WriteResult} (h : Whole s) (hf : w.fault = false)
    (hs : s.onMessage w = some s') : Whole s' := by
  unfold EchoServer.onMessage at hs
  obtain ⟨msg, _, hs⟩ := Option.bind_eq_some_iff.1 hs
  obtain ⟨p, _, hs⟩ := Option.bind_eq_some_iff.1 hs
  obtain ⟨⟨c, due⟩, hsend, rfl⟩ := Option.map_eq_some_iff.1 hs
  intro hup m hm
  have hstate : s.conn.state = .kConnected := (send_state hsend).symm.trans hup
  rw [List.mem_append, List.mem_singleton] at hm
  rcases hm with hold | rfl
  · exact h hstate m hold
  · simp [TcpConnection.sends, hstate, hf]

theorem Whole.handle {handler : Channel.Handler} (h : Whole s) (hf : k.send.fault = false)
    (hs : s.handle k handler = some s') : Whole s' := by
  cases handler with
  | close =>
      cases hs
      intro hup
      cases hup
  | error =>
      cases hs
      exact h
  | read =>
      simp only [EchoServer.handle, EchoServer.handleRead] at hs
      obtain ⟨⟨c, o⟩, hc, hs⟩ := Option.bind_eq_some_iff.1 hs
      have hstate := (TcpConnection.handleRead_channel hc).1
      have hread : Whole { s with conn := c, received := s.received ++ k.read.bytes } := by
        intro hup
        exact h (hstate.symm.trans hup)
      cases o with
      | message => exact hread.onMessage hf hs
      | close =>
          cases hs
          intro hup
          cases hup
      | error =>
          cases hs
          exact hread
  | write =>
      obtain ⟨⟨c, due⟩, hc, rfl⟩ := Option.map_eq_some_iff.1 hs
      intro hup
      exact h ((TcpConnection.handleWrite_channel hc).1.symm.trans hup)

theorem whole_of_reach (h : machine.Reach NoFault s) : Whole s := by
  refine h.invariant ?_ ?_
  · intro t ht _ m hm
    rw [ht.2.2] at hm
    cases hm
  · intro t e t' ht hf hs
    exact handlers_induct (fun _ _ _ h' hs' => h'.handle hf hs') _ ht hs

/-- The poller reports the socket writable once for each entry of `rooms`; the
kernel has room for so many bytes then. -/
def writable (k : Answers) (s : EchoServer) : List Nat → Option EchoServer
  | [] => some s
  | room :: rooms =>
      (s.handleEvent (Channel.POLLOUT, { k with write := s.conn.takes room })).bind fun s' =>
        writable k s' rooms

theorem writable_eq_flush (k : Answers) (s : EchoServer) (rooms : List Nat) :
    s.writable k rooms = (s.conn.flush rooms).map fun r => { s with conn := r.1 } := by
  induction rooms generalizing s with
  | nil => rfl
  | cons room rooms ih =>
      have hout : Channel.handleEventWithGuard Channel.POLLOUT = [.write] := by decide
      have hone : s.handleEvent (Channel.POLLOUT, { k with write := s.conn.takes room }) =
          (s.conn.handleWrite (s.conn.takes room)).map fun r => { s with conn := r.1 } := by
        rw [handleEvent, hout, List.foldlM_cons]
        exact Option.bind_fun_some _
      rw [writable, TcpConnection.flush, hone]
      cases s.conn.handleWrite (s.conn.takes room) with
      | none => rfl
      | some r =>
          rw [Option.map_some, Option.bind_some, Option.bind_some, ih, Option.map_map]
          rfl

/-- While the connection is up, everything received has been handed over or is buffered
in order, and each time the poller reports the socket writable the next bytes go out. -/
theorem echo_delivered (s : EchoServer) (k : Answers) (rooms : List Nat)
    (h : machine.Reach NoFault s) (hup : s.conn.state = .kConnected) :
    ∃ s', s.writable k rooms = some s' ∧ s'.received = s.received ∧
      s'.conn.socket.accepted =
        s.received.take (s.conn.socket.accepted.length + rooms.sum) := by
  have he := echoes_of_reach h
  obtain ⟨c, n, hflush, hdone⟩ := TcpConnection.flush_spec he.output (he.linked hup) rooms
  refine ⟨{ s with conn := c }, ?_, rfl, ?_⟩
  · rw [writable_eq_flush, hflush, Option.map_some]
  · show c.socket.accepted = _
    rw [hdone.accepted, he.stream, he.sent_of_whole (whole_of_reach h) hup]

theorem echo_delivered_short : ∃ s s', machine.Reach NoFault s ∧
    s.conn.socket.accepted = [1] ∧
    s.writable ⟨.failed 11, .wrote 0, .wrote 0⟩ [2, 0, 9] = some s' ∧
    s'.conn.socket.accepted = [1, 2, 3, 4, 5, 6] := by
  obtain ⟨s, hs, htest⟩ := Machine.Reach.of_test machine NoFault
    (fun s => s.conn.socket.accepted == [1] && s.received == [1, 2, 3, 4, 5, 6] &&
      decide (s.conn.state = .kConnected)) shortRun
    (.start fresh_established) (by decide +kernel)
  simp only [Bool.and_eq_true, beq_iff_eq, decide_eq_true_eq] at htest
  obtain ⟨⟨hacc, hreceived⟩, hup⟩ := htest
  obtain ⟨s', hs', _, hall⟩ := echo_delivered s ⟨.failed 11, .wrote 0, .wrote 0⟩ [2, 0, 9] hs hup
  refine ⟨s, s', hs, hacc, hs', ?_⟩
  rw [hall, hacc, hreceived]
  rfl

end EchoServer

end MyNetLib
