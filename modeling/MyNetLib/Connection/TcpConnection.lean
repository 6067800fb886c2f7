import MyNetLib.Buffer.Model
import MyNetLib.Reactor.Channel

/-! # One connection (`src/tcp_connection.cc`)

The functions that run on the connection's own loop. A call of `::write` takes
its result as an argument; `none` is a result no kernel gives, or the exception
of a vector that cannot grow. `socket` records what the kernel has been handed:
the accepted bytes, and how often `shutdown(SHUT_WR)` was called. User callbacks
do not run here: a function says which one is due, and the caller runs it.
-/

namespace MyNetLib

open Library Library.ByteVector

def EWOULDBLOCK : Errno := 11
def EPIPE : Errno := 32
def ECONNRESET : Errno := 104

/-- Bytes in memory: no object is larger than a pointer difference can express. -/
structure Payload where
  data : List Byte
  fits : data.length ≤ maxSize
  deriving DecidableEq, Repr

def Payload.of (bytes : List Byte) : Option Payload :=
  if h : bytes.length ≤ maxSize then some ⟨bytes, h⟩ else none

def Payload.sub (p : Payload) (offset len : Nat) : Option Payload :=
  if offset + len ≤ p.data.length then Payload.of (slice p.data offset (offset + len)) else none

/-- `faultError` of `SendInLoop`: the second test reads `errno` after the logging call. -/
def WriteResult.fault : WriteResult → Bool
  | .wrote _ => false
  | .failed errno logged => errno != EWOULDBLOCK && (logged == EPIPE || logged == ECONNRESET)

namespace TcpConnection

inductive State where
  | kConnecting
  | kConnected
  | kDisconnecting
  | kDisconnected
  deriving DecidableEq, Repr

structure Socket where
  accepted : List Byte
  shutdowns : Nat
  deriving DecidableEq, Repr

end TcpConnection

structure TcpConnection where
  state : TcpConnection.State
  channel : Channel
  inputBuffer : Buffer
  outputBuffer : Buffer
  socket : TcpConnection.Socket
  writeCompleteCallback : Bool
  deriving DecidableEq, Repr

namespace TcpConnection

def isWriting (c : TcpConnection) : Bool := c.channel.isWriting

/-- The constructor, with both buffers of the default size. -/
def new (fd : Int) (writeCompleteCallback : Bool) : Option TcpConnection :=
  (Buffer.new Buffer.kInitialSize).map fun b =>
    { state := .kConnecting
      channel := .new fd
      inputBuffer := b
      outputBuffer := b
      socket := ⟨[], 0⟩
      writeCompleteCallback := writeCompleteCallback }

def setState (c : TcpConnection) (state : State) : TcpConnection := { c with state := state }

def accept (c : TcpConnection) (bytes : List Byte) : TcpConnection :=
  { c with socket := { c.socket with accepted := c.socket.accepted ++ bytes } }

/-- The tail of `SendInLoop`: what was not written is buffered. -/
def bufferRest (c : TcpConnection) (rest : List Byte) : Option TcpConnection :=
  if rest.isEmpty then some c
  else
    (c.outputBuffer.append rest).map fun b =>
      { c with
        outputBuffer := b
        channel := if c.isWriting then c.channel else c.channel.enableWrite }

/-- The condition of the direct write. -/
def writesDirectly (c : TcpConnection) : Bool :=
  !c.isWriting && c.outputBuffer.readableBytes == 0

/-- The connection after the call, and whether the write-complete callback runs in it. -/
def sendInLoop (c : TcpConnection) (p : Payload) (w : WriteResult) :
    Option (TcpConnection × Bool) :=
  if c.state = .kDisconnected then some (c, false)
  else if c.writesDirectly then
    match w with
    | .wrote n =>
        if n ≤ p.data.length then
          ((c.accept (p.data.take n)).bufferRest (p.data.drop n)).map fun c' =>
            (c', n == p.data.length && c.writeCompleteCallback)
        else none
    | .failed errno logged =>
        if (WriteResult.failed errno logged).fault then some (c, false)
        else (c.bufferRest p.data).map fun c' => (c', false)
  else (c.bufferRest p.data).map fun c' => (c', false)

def shutdownInLoop (c : TcpConnection) : TcpConnection :=
  if c.isWriting then c
  else { c with socket := { c.socket with shutdowns := c.socket.shutdowns + 1 } }

/-- `ShutDown` after its test of the state, on the loop's own thread. -/
def shutDown (c : TcpConnection) : TcpConnection :=
  (c.setState .kDisconnecting).shutdownInLoop

def connectionEstablished (c : TcpConnection) : TcpConnection :=
  { c.setState .kConnected with channel := c.channel.enableRead }

/-- The common part of `HandleClose` and `ConnectionDestroyed`. -/
def disconnect (c : TcpConnection) : TcpConnection :=
  { c.setState .kDisconnected with channel := c.channel.disableAll }

/-- `HandleWrite` once the buffer is empty. -/
def drained (c : TcpConnection) : TcpConnection :=
  let c' := { c with channel := c.channel.disableWrite }
  if c.state = .kDisconnecting then c'.shutdownInLoop else c'

/-- `HandleWrite` after the kernel has taken `n` bytes. -/
def written (c : TcpConnection) (n : Nat) : TcpConnection :=
  { c.accept (c.outputBuffer.readable.take n) with outputBuffer := c.outputBuffer.retrive n }

/-- The connection after the call, and whether the write-complete callback is queued. -/
def handleWrite (c : TcpConnection) (w : WriteResult) : Option (TcpConnection × Bool) :=
  if c.isWriting then
    match w with
    | .failed _ _ => some (c, false)
    | .wrote n =>
        if c.outputBuffer.readableBytes < n then none
        else if n = 0 then some (c, false)
        else if (c.written n).outputBuffer.readableBytes = 0 then
          some ((c.written n).drained, c.writeCompleteCallback)
        else some (c.written n, false)
  else some (c, false)

/-- What `HandleRead` goes on with. -/
inductive ReadOutcome where
  | message
  | close
  | error
  deriving DecidableEq, Repr

def handleRead (c : TcpConnection) (r : ReadvResult) : Option (TcpConnection × ReadOutcome) :=
  match r with
  | .failed _ => some (c, .error)
  | .received data =>
      if data.length ≤ c.inputBuffer.readvRoom then
        (c.inputBuffer.readFd r).map fun b =>
          ({ c with inputBuffer := b }, if data.isEmpty then .close else .message)
      else none

/-! ## The outgoing stream -/

/-- What the kernel has accepted, then what is still buffered. -/
def stream (c : TcpConnection) : List Byte := c.socket.accepted ++ c.outputBuffer.readable

/-- The write bit is set exactly when bytes are buffered. -/
def Linked (c : TcpConnection) : Prop := c.isWriting = true ↔ c.outputBuffer.readable ≠ []

/-- From `c` to `c'` the stream grows by `data`, in order, and the write bit stays linked. -/
structure Extends (c c' : TcpConnection) (data : List Byte) : Prop where
  wellFormed : c'.outputBuffer.WellFormed
  stream : c'.stream = c.stream ++ data
  accepted : c.socket.accepted <+: c'.socket.accepted
  linked : Linked c → Linked c'
  state : c'.state = c.state

variable {c c' : TcpConnection}

theorem Extends.refl (hw : c.outputBuffer.WellFormed) : Extends c c [] :=
  ⟨hw, by simp, List.prefix_rfl, id, rfl⟩

theorem Extends.withInput {data : List Byte} (h : Extends c c' data) (b : Buffer) :
    Extends c { c' with inputBuffer := b } data :=
  ⟨h.wellFormed, h.stream, h.accepted, h.linked, h.state⟩

theorem bufferRest_extends (hw : c.outputBuffer.WellFormed) {rest : List Byte}
    (hrest : rest.length ≤ maxSize) (h : c.bufferRest rest = some c') :
    Extends c c' rest ∧ c'.socket = c.socket := by
  unfold bufferRest at h
  by_cases hnil : rest = []
  · subst hnil
    cases h
    exact ⟨.refl hw, rfl⟩
  · rw [if_neg (by simpa using hnil)] at h
    obtain ⟨b, hb, rfl⟩ := Option.map_eq_some_iff.1 h
    have hlen : c.outputBuffer.writeIndex + rest.length < SizeT.modulus := by
      have h₁ := hw.write_le_size
      have h₂ := hw.size_le_max
      have h₃ : maxSize + maxSize < SizeT.modulus := by decide
      omega
    obtain ⟨hwb, hr⟩ := (Buffer.append_spec hw rest hlen).2 b hb
    have hset : (if c.isWriting then c.channel else c.channel.enableWrite).isWriting = true := by
      split
      · assumption
      · exact Channel.isWriting_enableWrite _
    refine ⟨⟨hwb, ?_, List.prefix_rfl, ?_, rfl⟩, rfl⟩
    · simp [TcpConnection.stream, hr]
    · intro _
      refine iff_of_true hset ?_
      simp [hr, hnil]

theorem accept_stream (hempty : c.outputBuffer.readable = []) (bytes : List Byte) :
    (c.accept bytes).stream = c.stream ++ bytes := by
  simp [TcpConnection.stream, accept, hempty]

theorem writesDirectly_readable (hw : c.outputBuffer.WellFormed) (h : c.writesDirectly = true) :
    c.outputBuffer.readable = [] := by
  simp only [writesDirectly, Bool.and_eq_true, beq_iff_eq] at h
  exact hw.readable_eq_nil_iff.2 h.2

/-- `SendInLoop` gives its payload up, for a disconnected state or a fault, or
adds the whole of it to the stream; it never half-closes. -/
theorem sendInLoop_cases (hw : c.outputBuffer.WellFormed) {p : Payload} {w : WriteResult}
    {due : Bool} (h : c.sendInLoop p w = some (c', due)) :
    (c' = c ∧ (c.state = .kDisconnected ∨ w.fault = true)) ∨
      (c.state ≠ .kDisconnected ∧ Extends c c' p.data ∧
        c'.socket.shutdowns = c.socket.shutdowns) := by
  -- everything but a direct write that succeeds buffers the whole payload
  have hbuffer : ∀ {d : Bool}, (c.bufferRest p.data).map (fun c' => (c', false)) = some (c', d) →
      Extends c c' p.data ∧ c'.socket.shutdowns = c.socket.shutdowns := by
    intro d hb
    obtain ⟨c₁, hc₁, heq⟩ := Option.map_eq_some_iff.1 hb
    cases heq
    obtain ⟨hext, hsock⟩ := bufferRest_extends hw p.fits hc₁
    exact ⟨hext, by rw [hsock]⟩
  unfold sendInLoop at h
  by_cases hstate : c.state = .kDisconnected
  · rw [if_pos hstate] at h
    cases h
    exact Or.inl ⟨rfl, Or.inl hstate⟩
  rw [if_neg hstate] at h
  by_cases hdirect : c.writesDirectly = true
  · rw [if_pos hdirect] at h
    have hempty := writesDirectly_readable hw hdirect
    cases w with
    | failed errno logged =>
        dsimp only at h
        split at h
        · rename_i hfault
          cases h
          exact Or.inl ⟨rfl, Or.inr hfault⟩
        · exact Or.inr ⟨hstate, hbuffer h⟩
    | wrote n =>
        dsimp only at h
        split at h
        · obtain ⟨c₁, hc₁, heq⟩ := Option.map_eq_some_iff.1 h
          cases heq
          have hfits : (p.data.drop n).length ≤ maxSize := by
            have := p.fits
            rw [List.length_drop]
            omega
          have hw₁ : (c.accept (p.data.take n)).outputBuffer.WellFormed := hw
          obtain ⟨hext, hsock⟩ := bufferRest_extends hw₁ hfits hc₁
          have hprefix : c.socket.accepted <+: (c.accept (p.data.take n)).socket.accepted :=
            List.prefix_append _ _
          refine Or.inr ⟨hstate, ⟨hext.wellFormed, ?_, hprefix.trans hext.accepted, ?_,
            hext.state⟩, by rw [hsock]; rfl⟩
          · rw [hext.stream, accept_stream hempty, List.append_assoc, List.take_append_drop]
          · intro hlinked
            exact hext.linked hlinked
        · cases h
  · rw [if_neg hdirect] at h
    exact Or.inr ⟨hstate, hbuffer h⟩

theorem sendInLoop_shutdowns (hw : c.outputBuffer.WellFormed) {p : Payload} {w : WriteResult}
    {due : Bool} (h : c.sendInLoop p w = some (c', due)) :
    c'.socket.shutdowns = c.socket.shutdowns := by
  rcases sendInLoop_cases hw h with ⟨rfl, _⟩ | ⟨_, _, hshut⟩
  · rfl
  · exact hshut

/-- `SendInLoop` takes its payload in: the connection is not down, and no direct
write faults. -/
def takesIn (c : TcpConnection) (w : WriteResult) : Bool :=
  decide (c.state ≠ .kDisconnected) && !(c.writesDirectly && w.fault)

theorem sendInLoop_takesIn (hw : c.outputBuffer.WellFormed) {p : Payload} {w : WriteResult}
    {due : Bool} (h : c.sendInLoop p w = some (c', due)) :
    (c.takesIn w = false ∧ c' = c) ∨ (c.takesIn w = true ∧ Extends c c' p.data) := by
  have hcall := h
  unfold sendInLoop at hcall
  unfold takesIn
  by_cases hstate : c.state = .kDisconnected
  · rw [if_pos hstate] at hcall
    cases hcall
    exact Or.inl ⟨by simp [hstate], rfl⟩
  rw [if_neg hstate] at hcall
  by_cases hdirect : c.writesDirectly = true
  · rw [if_pos hdirect] at hcall
    cases hfault : w.fault with
    | true =>
        cases w with
        | wrote n => cases hfault
        | failed errno logged =>
            dsimp only at hcall
            rw [if_pos hfault] at hcall
            cases hcall
            exact Or.inl ⟨by simp [hdirect], rfl⟩
    | false =>
        rcases sendInLoop_cases hw h with ⟨_, hgone | hbad⟩ | ⟨_, hext, _⟩
        · exact absurd hgone hstate
        · rw [hfault] at hbad
          cases hbad
        · exact Or.inr ⟨by simp [hstate], hext⟩
  · rw [if_neg hdirect] at hcall
    obtain ⟨c₁, hc₁, heq⟩ := Option.map_eq_some_iff.1 hcall
    cases heq
    exact Or.inr ⟨by simp [hstate, hdirect], (bufferRest_extends hw p.fits hc₁).1⟩

/-! ## Draining and half-closing -/

@[simp] theorem shutdownInLoop_outputBuffer (c : TcpConnection) :
    c.shutdownInLoop.outputBuffer = c.outputBuffer := by
  unfold shutdownInLoop
  split <;> rfl

@[simp] theorem shutdownInLoop_channel (c : TcpConnection) :
    c.shutdownInLoop.channel = c.channel := by
  unfold shutdownInLoop
  split <;> rfl

@[simp] theorem shutdownInLoop_state (c : TcpConnection) :
    c.shutdownInLoop.state = c.state := by
  unfold shutdownInLoop
  split <;> rfl

@[simp] theorem shutdownInLoop_accepted (c : TcpConnection) :
    c.shutdownInLoop.socket.accepted = c.socket.accepted := by
  unfold shutdownInLoop
  split <;> rfl

theorem shutdownInLoop_extends (hw : c.outputBuffer.WellFormed) :
    Extends c c.shutdownInLoop [] := by
  constructor
  · simpa using hw
  · simp [TcpConnection.stream]
  · simp
  · intro hlinked
    simpa [Linked, isWriting] using hlinked
  · simp

theorem isWriting_of_shutdown (h : c.shutdownInLoop.socket.shutdowns ≠ c.socket.shutdowns) :
    c.isWriting = false := by
  unfold shutdownInLoop at h
  split at h
  · exact absurd rfl h
  · simpa using ‹¬ c.isWriting = true›

/-- A drained buffer: the write bit is cleared and the rest does not touch the stream. -/
theorem drained_spec (hempty : c.outputBuffer.readable = []) :
    c.drained.outputBuffer = c.outputBuffer ∧ c.drained.socket.accepted = c.socket.accepted ∧
      c.drained.state = c.state ∧ Linked c.drained := by
  unfold drained
  dsimp only
  split
  · simp [Linked, isWriting, hempty]
  · simp [Linked, isWriting, hempty]

theorem written_stream (hw : c.outputBuffer.WellFormed) (n : Nat) :
    (c.written n).outputBuffer.WellFormed ∧ (c.written n).stream = c.stream := by
  obtain ⟨hwr, hr⟩ := Buffer.retrive_spec hw n
  refine ⟨hwr, ?_⟩
  simp only [TcpConnection.stream, written, accept, hr]
  rw [List.append_assoc, List.take_append_drop]

/-- `HandleWrite` leaves the connection alone, or the kernel takes some of the
buffer, or all that was left of it. -/
theorem handleWrite_cases {w : WriteResult} {due : Bool} (h : c.handleWrite w = some (c', due)) :
    c' = c ∨ ∃ n, w = .wrote n ∧ n ≤ c.outputBuffer.readableBytes ∧ c.isWriting = true ∧
      (((c.written n).outputBuffer.readableBytes ≠ 0 ∧ c' = c.written n) ∨
        ((c.written n).outputBuffer.readableBytes = 0 ∧ c' = (c.written n).drained)) := by
  unfold handleWrite at h
  by_cases hbit : c.isWriting = true
  · rw [if_pos hbit] at h
    cases w with
    | failed errno logged =>
        cases h
        exact Or.inl rfl
    | wrote n =>
        dsimp only at h
        split at h
        · cases h
        · rename_i hroom
          split at h
          · cases h
            exact Or.inl rfl
          · right
            refine ⟨n, rfl, Nat.le_of_not_lt hroom, hbit, ?_⟩
            split at h <;> cases h
            · rename_i hzero
              exact Or.inr ⟨hzero, rfl⟩
            · rename_i hleft
              exact Or.inl ⟨hleft, rfl⟩
  · rw [if_neg hbit] at h
    cases h
    exact Or.inl rfl

theorem handleWrite_extends (hw : c.outputBuffer.WellFormed) {w : WriteResult} {due : Bool}
    (h : c.handleWrite w = some (c', due)) : Extends c c' [] := by
  rcases handleWrite_cases h with rfl | ⟨n, _, _, hbit, hend⟩
  · exact .refl hw
  obtain ⟨hw₁, hstream⟩ := written_stream hw n
  have haccepted : c.socket.accepted <+: (c.written n).socket.accepted := List.prefix_append _ _
  rcases hend with ⟨hleft, rfl⟩ | ⟨hzero, rfl⟩
  · have hne : (c.written n).outputBuffer.readable ≠ [] := by
      intro hnil
      exact hleft (hw₁.readable_eq_nil_iff.1 hnil)
    exact ⟨hw₁, by rw [hstream, List.append_nil], haccepted, fun _ => iff_of_true hbit hne, rfl⟩
  · obtain ⟨hout, hacc, hstate, hlinked⟩ := drained_spec (hw₁.readable_eq_nil_iff.2 hzero)
    refine ⟨by rw [hout]; exact hw₁, ?_, by rw [hacc]; exact haccepted, fun _ => hlinked, hstate⟩
    rw [← hstream, TcpConnection.stream, hout, hacc, List.append_nil, TcpConnection.stream]

/-- `HandleWrite` half-closes when the kernel takes all that is buffered in `kDisconnecting`. -/
theorem handleWrite_shutdown (hw : c.outputBuffer.WellFormed) {w : WriteResult} {due : Bool}
    (h : c.handleWrite w = some (c', due)) (hshut : c'.socket.shutdowns ≠ c.socket.shutdowns) :
    c.isWriting = true ∧ c.state = .kDisconnecting ∧
      w = .wrote c.outputBuffer.readableBytes ∧ c'.outputBuffer.readable = [] := by
  rcases handleWrite_cases h with rfl | ⟨n, hn, hroom, hbit, ⟨_, rfl⟩ | ⟨hzero, rfl⟩⟩
  · exact absurd rfl hshut
  · exact absurd rfl hshut
  obtain ⟨hw₁, hr⟩ := Buffer.retrive_spec hw n
  have hempty : (c.written n).outputBuffer.readable = [] := hw₁.readable_eq_nil_iff.2 hzero
  have hstate : c.state = .kDisconnecting := by
    by_contra hne
    have hkept : (c.written n).state ≠ .kDisconnecting := hne
    rw [drained, if_neg hkept] at hshut
    exact absurd rfl hshut
  have hlen : n = c.outputBuffer.readableBytes := by
    have hdrop : (c.outputBuffer.retrive n).readable.length = 0 := by
      rw [List.length_eq_zero_iff]
      exact hempty
    rw [hr, List.length_drop, ← hw.readableBytes_eq_length] at hdrop
    omega
  exact ⟨hbit, hstate, by rw [hn, hlen], by rw [(drained_spec hempty).1]; exact hempty⟩

/-! ## State and channel under each function -/

/-- `SendInLoop` calls `EnableWrite`. -/
def enablesWrite (c : TcpConnection) (p : Payload) (w : WriteResult) : Bool :=
  c.state != .kDisconnected && !c.isWriting &&
    if c.writesDirectly then
      match w with
      | .wrote n => decide (n < p.data.length)
      | .failed errno logged =>
          !(WriteResult.failed errno logged).fault && !p.data.isEmpty
    else !p.data.isEmpty

theorem not_writing_of_enablesWrite {p : Payload} {w : WriteResult}
    (h : c.enablesWrite p w = true) : c.isWriting = false := by
  simp only [enablesWrite, Bool.and_eq_true, Bool.not_eq_true'] at h
  exact h.1.2

theorem bufferRest_channel {rest : List Byte} (h : c.bufferRest rest = some c') :
    c'.state = c.state ∧
      c'.channel = if !c.isWriting && !rest.isEmpty then c.channel.enableWrite else c.channel := by
  unfold bufferRest at h
  split at h
  · rename_i hnil
    cases h
    simp [hnil]
  · rename_i hne
    obtain ⟨b, _, rfl⟩ := Option.map_eq_some_iff.1 h
    cases c.isWriting <;> simp [hne]

theorem sendInLoop_channel {p : Payload} {w : WriteResult} {due : Bool}
    (h : c.sendInLoop p w = some (c', due)) :
    c'.state = c.state ∧
      c'.channel = if c.enablesWrite p w then c.channel.enableWrite else c.channel := by
  unfold sendInLoop at h
  by_cases hstate : c.state = .kDisconnected
  · rw [if_pos hstate] at h
    cases h
    simp [enablesWrite, hstate]
  rw [if_neg hstate] at h
  by_cases hdirect : c.writesDirectly = true
  · rw [if_pos hdirect] at h
    cases w with
    | wrote n =>
        dsimp only at h
        split at h
        · obtain ⟨c₁, hc₁, heq⟩ := Option.map_eq_some_iff.1 h
          cases heq
          have hrest := bufferRest_channel hc₁
          have hempty : (p.data.drop n).isEmpty = !decide (n < p.data.length) := by
            rw [Bool.eq_iff_iff]
            simp
          rw [hempty, Bool.not_not] at hrest
          have hbit : (c.accept (p.data.take n)).isWriting = c.isWriting := rfl
          have hchannel : (c.accept (p.data.take n)).channel = c.channel := rfl
          have hkept : (c.accept (p.data.take n)).state = c.state := rfl
          rw [hbit, hchannel, hkept] at hrest
          simpa [enablesWrite, hstate, hdirect] using hrest
        · cases h
    | failed errno logged =>
        dsimp only at h
        split at h
        · rename_i hfault
          cases h
          simp [enablesWrite, hdirect, hfault]
        · rename_i hfault
          obtain ⟨c₁, hc₁, heq⟩ := Option.map_eq_some_iff.1 h
          cases heq
          simpa [enablesWrite, hstate, hdirect, hfault] using bufferRest_channel hc₁
  · rw [if_neg hdirect] at h
    obtain ⟨c₁, hc₁, heq⟩ := Option.map_eq_some_iff.1 h
    cases heq
    simpa [enablesWrite, hstate, hdirect] using bufferRest_channel hc₁

theorem handleWrite_channel {w : WriteResult} {due : Bool} (h : c.handleWrite w = some (c', due)) :
    c'.state = c.state ∧
      (c'.channel = c.channel ∨ c.isWriting = true ∧ c'.channel = c.channel.disableWrite) := by
  rcases handleWrite_cases h with rfl | ⟨n, _, _, hbit, ⟨_, rfl⟩ | ⟨_, rfl⟩⟩
  · exact ⟨rfl, Or.inl rfl⟩
  · exact ⟨rfl, Or.inl rfl⟩
  · unfold drained
    dsimp only
    split
    · exact ⟨by simp [written, accept], Or.inr ⟨hbit, by simp [written, accept]⟩⟩
    · exact ⟨rfl, Or.inr ⟨hbit, rfl⟩⟩

theorem handleRead_channel {r : ReadvResult} {o : ReadOutcome}
    (h : c.handleRead r = some (c', o)) : c'.state = c.state ∧ c'.channel = c.channel := by
  unfold handleRead at h
  cases r with
  | failed e =>
      cases h
      exact ⟨rfl, rfl⟩
  | received data =>
      dsimp only at h
      split at h
      · obtain ⟨b, _, heq⟩ := Option.map_eq_some_iff.1 h
        cases heq
        exact ⟨rfl, rfl⟩
      · cases h

theorem handleRead_output {r : ReadvResult} {o : ReadOutcome}
    (h : c.handleRead r = some (c', o)) :
    c'.outputBuffer = c.outputBuffer ∧ c'.socket = c.socket := by
  unfold handleRead at h
  cases r with
  | failed e =>
      cases h
      exact ⟨rfl, rfl⟩
  | received data =>
      dsimp only at h
      split at h
      · obtain ⟨b, _, heq⟩ := Option.map_eq_some_iff.1 h
        cases heq
        exact ⟨rfl, rfl⟩
      · cases h

theorem handleRead_close {r : ReadvResult} (h : c.handleRead r = some (c', .close)) :
    r = .received [] := by
  unfold handleRead at h
  cases r with
  | failed e => cases h
  | received data =>
      dsimp only at h
      split at h
      · obtain ⟨b, _, heq⟩ := Option.map_eq_some_iff.1 h
        cases data with
        | nil => rfl
        | cons byte data => cases heq
      · cases h

end TcpConnection

end MyNetLib
