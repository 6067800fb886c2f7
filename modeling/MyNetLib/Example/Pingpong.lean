import MyNetLib.Example.EchoServer
import MyNetLib.Library.Conjugate

/-! # The ping-pong test (`example/pingpong_client.cc`, `example/pingpong_server.cc`)

One session of the client and its connection at the server, until the client's timeout. The
client is written for muduo, which is not in this repository, so muduo's connection and the
way to the server are a parameter. What the results ask of it are `Muduo.Reliable`'s fields:
no byte of a stream is lost, doubled or overtaken.
-/

namespace MyNetLib

open Library

/-- What the session calls of its connection, and what the server's socket gets from there. -/
structure Muduo (κ : Type) where
  established : κ
  /-- The readable bytes of the `Buffer` that the message callback is called with. -/
  buf : κ → List Byte
  /-- `TcpConnection::send` of a string. -/
  send : κ → List Byte → κ
  /-- `TcpConnection::send` of the callback's `Buffer`. -/
  sendBuf : κ → κ
  /-- `n` bytes have come, the message callback is due. -/
  handleRead : κ → Nat → Option κ
  /-- The server's `readv` gets these bytes. -/
  serverReads : κ → List Byte → Option κ
  /-- The server's kernel accepts these bytes in a `write`. -/
  serverWrites : κ → List Byte → κ

/-- `up k` are the bytes on their way to the server, `down k` those on their way to the
session. -/
structure Muduo.Reliable {κ : Type} (lib : Muduo κ) (up down : κ → List Byte) : Prop where
  established : up lib.established = [] ∧ down lib.established = [] ∧ lib.buf lib.established = []
  send : ∀ k data, up (lib.send k data) = up k ++ data ∧ down (lib.send k data) = down k ∧
    lib.buf (lib.send k data) = lib.buf k
  sendBuf : ∀ k, up (lib.sendBuf k) = up k ++ lib.buf k ∧ down (lib.sendBuf k) = down k ∧
    lib.buf (lib.sendBuf k) = []
  handleRead : ∀ k n k', lib.handleRead k n = some k' →
    up k' = up k ∧ ∃ more, more ≠ [] ∧ lib.buf k' = lib.buf k ++ more ∧ down k = more ++ down k'
  serverReads : ∀ k data k', lib.serverReads k data = some k' →
    up k = data ++ up k' ∧ down k' = down k ∧ lib.buf k' = lib.buf k
  serverWrites : ∀ k data, up (lib.serverWrites k data) = up k ∧
    down (lib.serverWrites k data) = down k ++ data ∧ lib.buf (lib.serverWrites k data) = lib.buf k

/-- `echoed` only records what the message callbacks got. -/
structure Pingpong (κ : Type) where
  server : EchoServer
  net : κ
  connected : Bool
  bytesRead : Nat
  bytesWritten : Nat
  messagesRead : Nat
  echoed : List Byte

namespace Pingpong

variable {κ : Type}

/-- `message_` of the client. -/
def message (blockSize : Nat) : List Byte := (List.range blockSize).map fun i => (i % 128).toUInt8

/-- `Session::onConnection`. -/
def onConnection (lib : Muduo κ) (blockSize : Nat) (s : Pingpong κ) : Pingpong κ :=
  { s with connected := true, net := lib.send s.net (message blockSize) }

/-- `Session::onMessage`. -/
def onMessage (lib : Muduo κ) (s : Pingpong κ) : Pingpong κ :=
  { s with
    messagesRead := s.messagesRead + 1
    bytesRead := s.bytesRead + (lib.buf s.net).length
    bytesWritten := s.bytesWritten + (lib.buf s.net).length
    net := lib.sendBuf s.net
    echoed := s.echoed ++ lib.buf s.net }

/-- An event at the server's connection, with the bytes it takes from the stream and those
it puts there. -/
def handleEvent (lib : Muduo κ) (s : Pingpong κ) (e : EchoServer.Event) : Option (Pingpong κ) := do
  let server ← s.server.handleEvent e
  let net ← lib.serverReads s.net (server.received.drop s.server.received.length)
  let accepted := server.conn.socket.accepted.drop s.server.conn.socket.accepted.length
  some { s with server := server, net := lib.serverWrites net accepted }

inductive Action where
  | onConnection
  | onMessage (n : Nat)
  | event (e : EchoServer.Event)
  deriving DecidableEq, Repr

def step (lib : Muduo κ) (blockSize : Nat) (s : Pingpong κ) : Action → Option (Pingpong κ)
  | .onConnection => if s.connected then none else some (s.onConnection lib blockSize)
  | .onMessage n =>
      if s.connected then
        (lib.handleRead s.net n).map fun net => onMessage lib { s with net := net }
      else none
  | .event e => s.handleEvent lib e

def start (lib : Muduo κ) (server : EchoServer) : Pingpong κ :=
  ⟨server, lib.established, false, 0, 0, 0, []⟩

def machine (lib : Muduo κ) (blockSize : Nat) : Machine (Pingpong κ) Action where
  start s := ∃ server, EchoServer.Established server ∧ s = start lib server
  step := step lib blockSize

/-- No direct write of the server fails with `EPIPE` or `ECONNRESET`. -/
def NoFault (_ : Pingpong κ) : Action → Prop
  | .event e => e.2.send.fault = false
  | _ => True

instance (s : Pingpong κ) (a : Action) : Decidable (NoFault s a) := by
  cases a <;> unfold NoFault <;> infer_instance

end Pingpong

/-! ## What goes into the server and out of it -/

namespace EchoServer

variable {s s' s'' : EchoServer} {k : Answers} {e : Event} {handler : Channel.Handler}
  {data more : List Byte}

/-- From `s` to `s'` the server has read `data`; what the kernel has taken stays taken. -/
structure Reads (s s' : EchoServer) (data : List Byte) : Prop where
  received : s'.received = s.received ++ data
  accepted : s.conn.socket.accepted <+: s'.conn.socket.accepted

theorem Reads.refl (s : EchoServer) : Reads s s [] := ⟨by simp, List.prefix_rfl⟩

theorem Reads.trans (h : Reads s s' data) (h' : Reads s' s'' more) :
    Reads s s'' (data ++ more) :=
  ⟨by rw [h'.received, h.received, List.append_assoc], h.accepted.trans h'.accepted⟩

theorem onMessage_reads {w : WriteResult} (hw : s.conn.outputBuffer.WellFormed)
    (hs : s.onMessage w = some s') : Reads s s' [] := by
  unfold EchoServer.onMessage at hs
  obtain ⟨msg, _, hs⟩ := Option.bind_eq_some_iff.1 hs
  obtain ⟨p, _, hs⟩ := Option.bind_eq_some_iff.1 hs
  obtain ⟨⟨c, due⟩, hsend, rfl⟩ := Option.map_eq_some_iff.1 hs
  have hout : (s.conn.setInput msg.2).outputBuffer.WellFormed := hw
  refine ⟨by simp, ?_⟩
  rcases TcpConnection.send_cases hout hsend with ⟨_, rfl⟩ | ⟨_, hext, _⟩
  · exact List.prefix_rfl
  · exact hext.accepted

theorem handleRead_reads (hw : s.conn.outputBuffer.WellFormed)
    (hs : s.handleRead k = some s') : Reads s s' k.read.bytes := by
  unfold EchoServer.handleRead at hs
  obtain ⟨⟨c, o⟩, hc, hs⟩ := Option.bind_eq_some_iff.1 hs
  obtain ⟨hbuffer, hsocket⟩ := TcpConnection.handleRead_output hc
  have hread : Reads s { s with conn := c, received := s.received ++ k.read.bytes }
      k.read.bytes := ⟨rfl, by simp [hsocket]⟩
  cases o with
  | message =>
      have hout : c.outputBuffer.WellFormed := by
        rw [hbuffer]
        exact hw
      simpa using hread.trans (onMessage_reads hout hs)
  | close =>
      cases hs
      exact ⟨hread.received, hread.accepted⟩
  | error =>
      cases hs
      exact hread

def readBy (k : Answers) : Channel.Handler → List Byte
  | .read => k.read.bytes
  | _ => []

theorem handle_reads (h : Echoes s) (hs : s.handle k handler = some s') :
    Reads s s' (readBy k handler) := by
  cases handler with
  | close =>
      cases hs
      exact ⟨(Reads.refl s).received, List.prefix_rfl⟩
  | error =>
      cases hs
      exact Reads.refl _
  | read => exact handleRead_reads h.output hs
  | write =>
      obtain ⟨⟨c, due⟩, hc, rfl⟩ := Option.map_eq_some_iff.1 hs
      exact ⟨by simp [readBy], (TcpConnection.handleWrite_extends h.output hc).accepted⟩

theorem handlers_reads (handlers : List Channel.Handler) (h : Echoes s)
    (hs : handlers.foldlM (EchoServer.handle k) s = some s') :
    Reads s s' (handlers.flatMap (readBy k)) := by
  induction handlers generalizing s with
  | nil =>
      cases hs
      exact Reads.refl _
  | cons handler handlers ih =>
      rw [List.foldlM_cons] at hs
      obtain ⟨s₁, hone, hrest⟩ := Option.bind_eq_some_iff.1 hs
      rw [List.flatMap_cons]
      exact (handle_reads h hone).trans (ih (h.handle hone) hrest)

theorem handleEvent_reads (h : Echoes s) (hs : s.handleEvent e = some s') :
    ∃ data, Reads s s' data := ⟨_, handlers_reads _ h hs⟩

theorem Echoes.length_sent (h : Echoes s) : s.sent.length ≤ s.received.length := by
  rw [sent, h.received]
  exact (List.filter_sublist.map _).flatten.length_le

end EchoServer

namespace Pingpong

/-! ## The bytes on their way -/

section Flow

variable {κ : Type} {lib : Muduo κ} {up down : κ → List Byte} {blockSize : Nat}
  {s s' : Pingpong κ}

/-- What the session has sent: the message, and everything it got back. -/
def sent (blockSize : Nat) (s : Pingpong κ) : List Byte :=
  (if s.connected then message blockSize else []) ++ s.echoed

structure Flows (lib : Muduo κ) (up down : κ → List Byte) (blockSize : Nat) (s : Pingpong κ) :
    Prop where
  server : EchoServer.machine.Reach EchoServer.NoFault s.server
  buf : lib.buf s.net = []
  up : s.server.received ++ up s.net = s.sent blockSize
  down : s.echoed ++ down s.net = s.server.conn.socket.accepted
  silent : s.connected = false → s.echoed = []
  blank : blockSize = 0 → s.echoed = []
  read : s.bytesRead = s.echoed.length
  written : s.bytesWritten = s.echoed.length
  messages : s.messagesRead ≤ s.echoed.length

theorem Flows.length_down (h : Flows lib up down blockSize s) :
    (down s.net).length ≤ (message blockSize).length := by
  have he := EchoServer.echoes_of_reach h.server
  have haccepted := congrArg List.length he.stream
  have hsent := he.length_sent
  have hup := congrArg List.length h.up
  have hdown := congrArg List.length h.down
  simp only [TcpConnection.stream, sent, List.length_append] at haccepted hup hdown
  split at hup
  · omega
  · simp only [List.length_nil] at hup
    omega

theorem Flows.onConnection (hlib : lib.Reliable up down) (h : Flows lib up down blockSize s)
    (hdown : s.connected = false) : Flows lib up down blockSize (s.onConnection lib blockSize) := by
  obtain ⟨hsent, hkeeps, hbuf⟩ := hlib.send s.net (message blockSize)
  have hnone := h.silent hdown
  have hup := h.up
  rw [sent, if_neg (by simp [hdown]), hnone, List.append_nil] at hup
  refine ⟨h.server, hbuf.trans h.buf, ?_, ?_, by simp [Pingpong.onConnection], h.blank, h.read,
    h.written, h.messages⟩
  · show s.server.received ++ up (lib.send s.net (message blockSize)) = _
    rw [hsent, ← List.append_assoc, hup]
    simp [sent, Pingpong.onConnection, hnone]
  · show s.echoed ++ down (lib.send s.net (message blockSize)) = _
    rw [hkeeps]
    exact h.down

theorem Flows.onMessage (hlib : lib.Reliable up down) (h : Flows lib up down blockSize s) {n : Nat}
    {net : κ} (hconnected : s.connected = true) (hread : lib.handleRead s.net n = some net) :
    Flows lib up down blockSize (Pingpong.onMessage lib { s with net := net }) := by
  obtain ⟨hstays, more, hsome, hbuf, hmore⟩ := hlib.handleRead _ _ _ hread
  obtain ⟨hup, hdown, hempty⟩ := hlib.sendBuf net
  rw [h.buf, List.nil_append] at hbuf
  have hlong : 0 < more.length := List.length_pos_iff.2 hsome
  constructor
  · exact h.server
  · exact hempty
  · show s.server.received ++ up (lib.sendBuf net) = _
    rw [hup, hstays, ← List.append_assoc, h.up]
    simp [Pingpong.onMessage, sent, hconnected]
  · show (s.echoed ++ lib.buf net) ++ down (lib.sendBuf net) = s.server.conn.socket.accepted
    rw [hbuf, hdown, List.append_assoc, ← hmore]
    exact h.down
  · intro hoff
    rw [show (Pingpong.onMessage lib { s with net := net }).connected = s.connected from rfl,
      hconnected] at hoff
    cases hoff
  · intro hzero
    have hlimit := h.length_down
    simp only [message, hzero, List.range_zero, List.map_nil, List.length_nil, hmore,
      List.length_append] at hlimit
    omega
  · simp [Pingpong.onMessage, h.read]
  · simp [Pingpong.onMessage, h.written]
  · have hmessages := h.messages
    simp only [Pingpong.onMessage, List.length_append, hbuf]
    omega

theorem Flows.handleEvent (hlib : lib.Reliable up down) (h : Flows lib up down blockSize s)
    {e : EchoServer.Event} (hf : NoFault s (.event e)) (hs : s.handleEvent lib e = some s') :
    Flows lib up down blockSize s' := by
  obtain ⟨server, hserver, hs⟩ := Option.bind_eq_some_iff.1 hs
  obtain ⟨net, hnet, hs⟩ := Option.bind_eq_some_iff.1 hs
  cases hs
  obtain ⟨data, hreads⟩ :=
    EchoServer.handleEvent_reads (EchoServer.echoes_of_reach h.server) hserver
  obtain ⟨taken, htaken⟩ := hreads.accepted
  rw [hreads.received, List.drop_left] at hnet
  obtain ⟨hup, hdown, hbuf⟩ := hlib.serverReads _ _ _ hnet
  obtain ⟨hup', hdown', hbuf'⟩ := hlib.serverWrites net taken
  rw [← htaken, List.drop_left]
  refine ⟨.step h.server hf hserver, ?_, ?_, ?_, h.silent, h.blank, h.read, h.written,
    h.messages⟩
  · exact hbuf'.trans (hbuf.trans h.buf)
  · show server.received ++ up (lib.serverWrites net taken) = s.sent blockSize
    rw [hreads.received, hup', List.append_assoc, ← hup]
    exact h.up
  · show s.echoed ++ down (lib.serverWrites net taken) = server.conn.socket.accepted
    rw [hdown', hdown, ← List.append_assoc, h.down]
    exact htaken

theorem Flows.step {a : Action} (hlib : lib.Reliable up down) (h : Flows lib up down blockSize s)
    (hf : NoFault s a) (hs : s.step lib blockSize a = some s') :
    Flows lib up down blockSize s' := by
  cases a with
  | onConnection =>
      simp only [Pingpong.step] at hs
      split at hs <;> cases hs
      rename_i hdown
      exact h.onConnection hlib (by simpa using hdown)
  | onMessage n =>
      simp only [Pingpong.step] at hs
      split at hs <;> try contradiction
      rename_i hconnected
      obtain ⟨net, hread, rfl⟩ := Option.map_eq_some_iff.1 hs
      exact h.onMessage hlib hconnected hread
  | event e => exact h.handleEvent hlib hf hs

theorem Flows.start (hlib : lib.Reliable up down) {server : EchoServer}
    (h : EchoServer.Established server) :
    Flows lib up down blockSize (start lib server) := by
  obtain ⟨hup, hdown, hbuf⟩ := hlib.established
  have hstream := (EchoServer.Echoes.established h).stream
  have hreceived := h.2.1
  have hmessages := h.2.2
  rw [TcpConnection.stream, EchoServer.sent, hmessages] at hstream
  refine ⟨.start h, hbuf, ?_, ?_, fun _ => rfl, fun _ => rfl, rfl, rfl, Nat.le_refl 0⟩
  · simp [Pingpong.start, sent, hreceived, hup]
  · simp [Pingpong.start, hdown, (List.append_eq_nil_iff.1 hstream).1]

theorem flows_of_reach (hlib : lib.Reliable up down)
    (h : (machine lib blockSize).Reach NoFault s) : Flows lib up down blockSize s := by
  apply h.invariant
  · rintro s ⟨server, hserver, rfl⟩
    exact .start hlib hserver
  · intro s a s' hI hf hs
    exact hI.step hlib hf hs

/-- What went round comes out again behind it. -/
theorem Flows.circulates (h : Flows lib up down blockSize s) (hconnected : s.connected = true)
    (hup : s.server.conn.state = .kConnected) :
    message blockSize ++ s.echoed =
      s.echoed ++ (down s.net ++ s.server.conn.outputBuffer.readable ++ up s.net) := by
  have he := EchoServer.echoes_of_reach h.server
  have hecho := he.stream
  rw [he.sent_of_whole (EchoServer.whole_of_reach h.server) hup, TcpConnection.stream,
    ← h.down] at hecho
  have hsent := h.up
  rw [← hecho, sent, if_pos hconnected] at hsent
  rw [← hsent]
  simp only [List.append_assoc]

end Flow

/-- While the server's connection is up everything in flight is the message, turned by what
has come back; the client reads the message over and over, from its beginning; and a message
that is not empty never comes to rest: one side has bytes to read, or the server waits for
its socket to take some. -/
theorem message_circulates {κ : Type} (lib : Muduo κ) (up down : κ → List Byte)
    (hlib : lib.Reliable up down) (blockSize : Nat) (s : Pingpong κ)
    (h : (machine lib blockSize).Reach NoFault s) (hconnected : s.connected = true)
    (hup : s.server.conn.state = .kConnected) :
    down s.net ++ s.server.conn.outputBuffer.readable ++ up s.net =
      (message blockSize).rotate s.echoed.length ∧
    (∀ i < s.echoed.length, s.echoed[i]? = some (i % blockSize % 128).toUInt8) ∧
    s.bytesRead = s.echoed.length ∧ s.bytesWritten = s.bytesRead ∧
    s.messagesRead ≤ s.bytesRead ∧
    (0 < blockSize → down s.net ≠ [] ∨ s.server.conn.isWriting = true ∨ up s.net ≠ []) := by
  have hflows := flows_of_reach hlib h
  have hcircle := hflows.circulates hconnected hup
  have hlength : (message blockSize).length = blockSize := by simp [message]
  have hne : 0 < blockSize → message blockSize ≠ [] := by
    intro hsize hnil
    rw [hnil, List.length_nil] at hlength
    omega
  refine ⟨conjugate_rotate hcircle, ?_, hflows.read, ?_, hflows.read ▸ hflows.messages, ?_⟩
  · intro i hi
    have hsize : 0 < blockSize := by
      by_contra hzero
      rw [hflows.blank (by omega)] at hi
      simp at hi
    rw [(conjugate_cycles (hne hsize) hcircle).1 i hi, hlength, message, List.getElem?_map,
      List.getElem?_range (Nat.mod_lt _ hsize), Option.map_some]
  · rw [hflows.written, hflows.read]
  · intro hsize
    have hflight := length_of_conjugate hcircle
    have hwrites := ((EchoServer.echoes_of_reach hflows.server).linked hup).2
    by_contra hrest
    simp only [not_or, not_not] at hrest
    obtain ⟨hclient, hidle, hserver⟩ := hrest
    have hbuffer : s.server.conn.outputBuffer.readable = [] := by
      by_contra hfull
      exact hidle (hwrites hfull)
    rw [hclient, hbuffer, hserver, hlength] at hflight
    simp only [List.append_nil, List.length_nil] at hflight
    omega

/-! ## A lossless way -/

/-- A connection that keeps its bytes in three queues. -/
structure Pipe where
  up : List Byte
  down : List Byte
  buf : List Byte
  deriving DecidableEq, Repr

def pipe : Muduo Pipe where
  established := ⟨[], [], []⟩
  buf := Pipe.buf
  send k data := { k with up := k.up ++ data }
  sendBuf k := { k with up := k.up ++ k.buf, buf := [] }
  handleRead k n :=
    if 0 < n ∧ n ≤ k.down.length then
      some { k with buf := k.buf ++ k.down.take n, down := k.down.drop n }
    else none
  serverReads k data :=
    if data <+: k.up then some { k with up := k.up.drop data.length } else none
  serverWrites k data := { k with down := k.down ++ data }

theorem pipe_reliable : pipe.Reliable Pipe.up Pipe.down := by
  constructor
  · exact ⟨rfl, rfl, rfl⟩
  · exact fun _ _ => ⟨rfl, rfl, rfl⟩
  · exact fun _ => ⟨rfl, rfl, rfl⟩
  · intro k n k' hread
    obtain ⟨hn, hsome⟩ := Option.ite_none_right_eq_some.1 hread
    cases hsome
    refine ⟨rfl, k.down.take n, ?_, rfl, (List.take_append_drop n k.down).symm⟩
    apply List.ne_nil_of_length_pos
    rw [List.length_take_of_le hn.2]
    exact hn.1
  · intro k data k' hread
    obtain ⟨⟨more, hmore⟩, hsome⟩ := Option.ite_none_right_eq_some.1 hread
    cases hsome
    refine ⟨?_, rfl, rfl⟩
    show k.up = data ++ k.up.drop data.length
    rw [← hmore, List.drop_left]
  · exact fun _ _ => ⟨rfl, rfl, rfl⟩

/-- Three bytes; the client has two of them back and has sent them off again. -/
theorem message_circulates_three : ∃ s : Pingpong Pipe, (machine pipe 3).Reach NoFault s ∧
    s.echoed = [0, 1] ∧
    s.net.down ++ s.server.conn.outputBuffer.readable ++ s.net.up = [2, 0, 1] ∧
    s.bytesWritten = 2 ∧
    (s.net.down ≠ [] ∨ s.server.conn.isWriting = true ∨ s.net.up ≠ []) := by
  obtain ⟨s, hs, htest⟩ := Machine.Reach.of_test (machine pipe 3) NoFault
    (fun s => s.connected && decide (s.server.conn.state = .kConnected) && s.echoed == [0, 1])
    [.onConnection, .event (Channel.POLLIN, ⟨.received [0, 1], .wrote 1, .wrote 0⟩),
      .onMessage 1, .event (Channel.POLLOUT, ⟨.failed 11, .wrote 0, .wrote 1⟩), .onMessage 1,
      .event (Channel.POLLIN, ⟨.received [2, 0], .wrote 0, .wrote 0⟩)]
    (.start ⟨_, EchoServer.fresh_established, rfl⟩) (by decide +kernel)
  simp only [Bool.and_eq_true, beq_iff_eq, decide_eq_true_eq] at htest
  obtain ⟨⟨hconnected, hup⟩, hechoed⟩ := htest
  obtain ⟨hflight, _, hread, hwritten, _, hgoes⟩ :=
    message_circulates pipe Pipe.up Pipe.down pipe_reliable 3 s hs hconnected hup
  refine ⟨s, hs, hechoed, ?_, ?_, hgoes (by decide)⟩
  · rw [hflight, hechoed]
    rfl
  · rw [hwritten, hread, hechoed]
    rfl

end Pingpong

end MyNetLib
