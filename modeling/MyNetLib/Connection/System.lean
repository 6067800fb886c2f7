import MyNetLib.Connection.TcpConnection
import MyNetLib.Library.Heap
import MyNetLib.Reactor.EventLoop

/-! # A connection among its threads

The loop thread dispatches events and pending functors to the connection; user
code runs on it in the callbacks the connection makes, and between them. Other
threads call `Send` and `ShutDown`, one step for the test of the state, one for
each shared variable touched after it. Caller memory is a heap: what `std::bind`
captures of a payload is a region of it, read when the loop runs the functor.

`calls`, `entered`, `returned`, `promised`, `closed` and `closedLeft` only
record the run: the payload of every `Send` that saw `kConnected`, in call
order; the payloads `SendInLoop` took in; the `Send`s that returned; those that
had returned when a `ShutDown` saw `kConnected`; whether the connection was
disconnected on the loop, and whether bytes owed to a `ShutDown` were then left.
-/

namespace MyNetLib.TcpConnection

open Library Library.ByteVector

/-! ## Caller memory -/

/-- Objects of the callers, and the temporary string of `Send(Buffer*)`. -/
inductive Object where
  | chars (p : Payload)
  | buffer (b : Buffer)
  | temporary (p : Payload)
  deriving DecidableEq, Repr

/-- A pointer and a length. -/
structure Region where
  addr : Nat
  offset : Nat
  len : Nat
  deriving DecidableEq, Repr

/-- What a region holds, when its object is alive and large enough. -/
def Region.read (mem : Heap Object) (r : Region) : Option Payload :=
  match mem.get r.addr with
  | some (.chars p) => p.sub r.offset r.len
  | some (.temporary p) => p.sub r.offset r.len
  | _ => none

/-- The argument of the three `Send` overloads; `input` is the connection's own
`input_buffer_`, which a message callback is handed. -/
inductive Source where
  | string (addr : Nat)
  | array (addr offset len : Nat)
  | buffer (addr : Nat)
  | input
  deriving DecidableEq, Repr

/-! ## Threads and functors -/

/-- A functor in the loop's queue. -/
inductive Functor where
  | sendInLoop (id : Nat) (r : Region)
  | shutdownInLoop
  | writeComplete
  | connectionDestroyed
  deriving DecidableEq, Repr

/-- Calls of the loop thread that wait for a callback they made. -/
inductive Frame where
  | callback
  | sending (id : Nat) (src : Source)
  | closing
  | destroying
  deriving DecidableEq, Repr

/-- Another thread's position in `Send` or `ShutDown`. -/
inductive Caller where
  | outside
  | sendQueue (id : Nat) (r : Region) (temp : Option Nat)
  | sendReturn (id : Nat) (temp : Option Nat)
  | shutSet
  | shutQueue
  deriving DecidableEq, Repr

structure System (τ : Type) where
  conn : TcpConnection
  loop : EventLoop Functor
  frames : List Frame
  callers : τ → Caller
  mem : Heap Object
  calls : List Payload
  entered : List (Nat × Payload)
  returned : List Nat
  promised : List Nat
  closed : Bool
  closedLeft : Bool

namespace System

variable {τ : Type}

/-- User code runs on the loop thread. -/
def inUserCode (s : System τ) : Bool :=
  s.loop.inUserCode &&
    match s.frames with
    | [] | .callback :: _ => true
    | _ => false

/-- The bytes the in-loop path of an overload hands to `SendInLoop`. -/
def payload (s : System τ) : Source → Option Payload
  | .string a =>
      match s.mem.get a with
      | some (.chars p) => some p
      | _ => none
  | .array a offset len =>
      match s.mem.get a with
      | some (.chars p) => p.sub offset len
      | _ => none
  | .buffer a =>
      match s.mem.get a with
      | some (.buffer b) => b.retriveAllAsString.bind fun r => Payload.of r.1
      | _ => none
  | .input => s.conn.inputBuffer.retriveAllAsString.bind fun r => Payload.of r.1

/-- What `std::bind` captures on another thread: a pointer into the caller's
memory, or into a temporary that lives until the call returns. -/
def capture (s : System τ) (p : Payload) : Source → Option (Heap Object × Region × Option Nat)
  | .string a => some (s.mem, ⟨a, 0, p.data.length⟩, none)
  | .array a offset len => some (s.mem, ⟨a, offset, len⟩, none)
  | .buffer a =>
      match s.mem.get a with
      | some (.buffer b) =>
          let mem := s.mem.put a (.buffer (b.retrive b.readableBytes))
          some (mem.alloc (.temporary p), ⟨mem.next, 0, p.data.length⟩, some mem.next)
      | _ => none
  | .input => none

/-- `RetriveAll` at the end of the in-loop `Send(Buffer*)`. -/
def retriveSource (s : System τ) : Source → System τ
  | .string _ | .array _ _ _ => s
  | .buffer a =>
      match s.mem.get a with
      | some (.buffer b) => { s with mem := s.mem.put a (.buffer b.retriveAll) }
      | _ => s
  | .input => { s with conn := { s.conn with inputBuffer := s.conn.inputBuffer.retriveAll } }

/-- The end of an in-loop `Send`. -/
def finishSend (s : System τ) (id : Nat) (src : Source) : System τ :=
  { s.retriveSource src with returned := s.returned ++ [id] }

def hasBytes (s : System τ) (id : Nat) : Bool :=
  (s.calls[id]?).any fun p => !p.data.isEmpty

/-- The functor of a `Send` is still to run. -/
def isQueued (s : System τ) (id : Nat) : Bool :=
  s.loop.queued.any fun f =>
    match f with
    | .sendInLoop i _ => i == id
    | _ => false

/-- Bytes of a promised `Send` are queued, or bytes are buffered in front of them or behind. -/
def owesBytes (s : System τ) : Bool :=
  s.promised.any fun id =>
    s.hasBytes id && (!s.conn.outputBuffer.readable.isEmpty || s.isQueued id)

/-- `HandleClose` up to its callbacks, and the same part of `ConnectionDestroyed`. -/
def disconnect (s : System τ) (frames : List Frame) : System τ :=
  { s with
    conn := s.conn.disconnect
    frames := frames
    closed := true
    closedLeft := if s.closed then s.closedLeft else s.owesBytes }

/-- `SendInLoop` with the bytes `p`, on the loop thread. -/
def runSend (s : System τ) (id : Nat) (p : Payload) (w : WriteResult) : Option (System τ × Bool) :=
  (s.conn.sendInLoop p w).map fun r =>
    ({ s with
        conn := r.1
        entered := if s.conn.state = .kDisconnected then s.entered else s.entered ++ [(id, p)] },
      r.2)

/-- The functor at the head of the batch; `junk` is what a dangling pointer reads. -/
def runFunctor (s : System τ) (w : WriteResult) (junk : Payload) : Functor → Option (System τ)
  | .sendInLoop id r =>
      if junk.data.length = r.len then
        (s.runSend id ((r.read s.mem).getD junk) w).map fun r =>
          if r.2 then { r.1 with frames := [.callback] } else r.1
      else none
  | .shutdownInLoop => some { s with conn := s.conn.shutdownInLoop }
  | .writeComplete => some { s with frames := [.callback] }
  | .connectionDestroyed =>
      if s.conn.state = .kConnected then some { s with frames := [.destroying] } else some s

/-! ## The machine -/

inductive Action (τ : Type) where
  | ownSend (src : Source) (w : WriteResult)
  | ownShutDown
  | ownRetrive (len : Nat)
  | resume
  | handleRead (r : ReadvResult)
  | handleWrite (w : WriteResult)
  | handleClose
  | loop (a : EventLoop.Label)
  | runFunctor (w : WriteResult) (junk : Payload)
  | queueDestroyed
  | sendCheck (t : τ) (src : Source)
  | sendQueue (t : τ)
  | sendReturn (t : τ)
  | shutCheck (t : τ)
  | shutSet (t : τ)
  | shutQueue (t : τ)
  | alloc (x : Object)
  | overwrite (addr : Nat) (p : Payload)
  | release (addr : Nat)

def dispatching (s : System τ) : Bool :=
  s.frames.isEmpty &&
    match s.loop.pc with
    | .handling _ => true
    | _ => false

def ownSend (s : System τ) (src : Source) (w : WriteResult) : Option (System τ) :=
  if s.conn.state = .kConnected then
    (s.payload src).bind fun p =>
      let id := s.calls.length
      let s' : System τ := { s with calls := s.calls ++ [p] }
      (s'.runSend id p w).map fun r =>
        if r.2 then { r.1 with frames := .callback :: .sending id src :: s.frames }
        else r.1.finishSend id src
  else some s

def ownShutDown (s : System τ) : System τ :=
  if s.conn.state = .kConnected then
    { s with conn := s.conn.shutDown, promised := s.promised ++ s.returned }
  else s

/-- The innermost call of the loop thread goes on after its callback. -/
def resume (s : System τ) : Option (System τ) :=
  match s.frames with
  | [] => none
  | .callback :: rest => some { s with frames := rest }
  | .sending id src :: rest => some ({ s with frames := rest }.finishSend id src)
  | .closing :: rest => some { s with frames := .callback :: rest }
  | .destroying :: rest => some (s.disconnect (.callback :: rest))

def handleRead (s : System τ) (r : ReadvResult) : Option (System τ) :=
  (s.conn.handleRead r).map fun o =>
    let s' := { s with conn := o.1 }
    match o.2 with
    | .message => { s' with frames := [.callback] }
    | .close => s'.disconnect [.callback, .closing]
    | .error => s'

def handleWrite (s : System τ) (w : WriteResult) : Option (System τ) :=
  (s.conn.handleWrite w).map fun o =>
    { s with
      conn := o.1
      loop := if o.2 then s.loop.queueInLoop .writeComplete else s.loop }

variable [DecidableEq τ]

def setCaller (s : System τ) (t : τ) (pc : Caller) : System τ :=
  { s with callers := Function.update s.callers t pc }

def sendCheck (s : System τ) (t : τ) (src : Source) : Option (System τ) :=
  if s.conn.state = .kConnected then
    (s.payload src).bind fun p =>
      (s.capture p src).map fun c =>
        { s with mem := c.1, calls := s.calls ++ [p] }.setCaller t
          (.sendQueue s.calls.length c.2.1 c.2.2)
  else some s

/-- The end of the full expression that calls `RunInLoop` destroys the temporary. -/
def destroyTemp (mem : Heap Object) : Option Nat → Heap Object
  | none => mem
  | some a => mem.free a

/-- A write of a caller to an array or string it owns. -/
def overwrite (mem : Heap Object) (a : Nat) (p : Payload) : Option (Heap Object) :=
  match mem.get a with
  | some (.chars _) => some (mem.put a (.chars p))
  | _ => none

/-- A caller gives up an object it owns. -/
def release (mem : Heap Object) (a : Nat) : Option (Heap Object) :=
  match mem.get a with
  | some (.chars _) | some (.buffer _) => some (mem.free a)
  | _ => none

def step (s : System τ) : Action τ → Option (System τ)
  | .ownSend src w => if s.inUserCode then s.ownSend src w else none
  | .ownShutDown => if s.inUserCode then some s.ownShutDown else none
  | .ownRetrive len =>
      if s.inUserCode then
        some { s with conn := { s.conn with inputBuffer := s.conn.inputBuffer.retrive len } }
      else none
  | .resume => s.resume
  | .handleRead r => if s.dispatching then s.handleRead r else none
  | .handleWrite w => if s.dispatching then s.handleWrite w else none
  | .handleClose => if s.dispatching then some (s.disconnect [.callback, .closing]) else none
  | .loop a =>
      if s.frames.isEmpty && a != .runFunctor then
        (s.loop.step a).map fun l => { s with loop := l }
      else none
  | .runFunctor w junk =>
      match s.frames, s.loop.pc with
      | [], .running (f :: rest) =>
          { s with loop := { s.loop with pc := .running rest } }.runFunctor w junk f
      | _, _ => none
  | .queueDestroyed => some { s with loop := s.loop.emplace .connectionDestroyed }
  | .sendCheck t src => if s.callers t = .outside then s.sendCheck t src else none
  | .sendQueue t =>
      match s.callers t with
      | .sendQueue id r temp =>
          some ({ s with loop := s.loop.emplace (.sendInLoop id r) }.setCaller t
            (.sendReturn id temp))
      | _ => none
  | .sendReturn t =>
      match s.callers t with
      | .sendReturn id temp =>
          some ({ s with
            mem := destroyTemp s.mem temp
            returned := s.returned ++ [id] }.setCaller t .outside)
      | _ => none
  | .shutCheck t =>
      if s.callers t = .outside then
        if s.conn.state = .kConnected then
          some ({ s with promised := s.promised ++ s.returned }.setCaller t .shutSet)
        else some s
      else none
  | .shutSet t =>
      match s.callers t with
      | .shutSet => some ({ s with conn := s.conn.setState .kDisconnecting }.setCaller t .shutQueue)
      | _ => none
  | .shutQueue t =>
      match s.callers t with
      | .shutQueue =>
          some ({ s with loop := s.loop.emplace .shutdownInLoop }.setCaller t .outside)
      | _ => none
  | .alloc x =>
      match x with
      | .temporary _ => none
      | _ => some { s with mem := s.mem.alloc x }
  | .overwrite a p => (overwrite s.mem a p).map fun m => { s with mem := m }
  | .release a => (release s.mem a).map fun m => { s with mem := m }

/-- A connection just established: its connection callback is running. -/
def Initial (s : System τ) : Prop :=
  (∃ fd due c, TcpConnection.new fd due = some c ∧ s.conn = c.connectionEstablished) ∧
  s.loop.inUserCode = true ∧ s.loop.queued = [] ∧ s.frames = [.callback] ∧
  (∀ t, s.callers t = .outside) ∧ s.mem = .empty ∧ s.calls = [] ∧ s.entered = [] ∧
  s.returned = [] ∧ s.promised = [] ∧ s.closed = false ∧ s.closedLeft = false

def machine (τ : Type) [DecidableEq τ] : Machine (System τ) (Action τ) where
  start := Initial
  step := step

end System

end MyNetLib.TcpConnection
