import MyNetLib.Connection.TcpConnection
import MyNetLib.Reactor.EpollPoller
import MyNetLib.Reactor.EventLoop
import MyNetLib.Reactor.EventLoopThreadPool

/-! # The server among its loops (`src/tcp_server.cc`)

Loop 0 is the main loop, loops 1 to `threads` are the pool's. Every connection
lives on one loop; its number is its place in the order of acceptance, which is
also what its name ends in. A loop thread runs `Loop()`, the handlers of the
channels its poll returned and the functors of its queue; `frames` holds the
calls that wait for a callback they made. Other threads hold connection pointers
and call `Send` and `ShutDown`, one step for the test of the state and one for
each shared variable touched after it; a loop thread that calls into a
connection of another loop is one of them.

A step that would use a destroyed object is not enabled: nothing is said about
what the program does from there. `log` and `destructed` only record the run.
-/

namespace MyNetLib

open Library

namespace TcpServer

/-- What `std::bind` wraps into a functor. -/
inductive Job where
  | connectionEstablished
  | sendInLoop (len : Nat)
  | shutdownInLoop
  | writeComplete
  | removeConnection
  | connectionDestroyed
  deriving DecidableEq, Repr

/-- The functors that capture a bare `this` instead of the shared pointer. -/
def Job.bare : Job → Bool
  | .sendInLoop _ | .shutdownInLoop => true
  | _ => false

structure Functor where
  conn : Nat
  job : Job
  deriving DecidableEq, Repr

/-- A call of a loop thread: user code in a callback, or a function that goes on
when the callback above it returns. -/
inductive Call where
  | callback
  | establishing
  | handleEvent (revents : BitVec 32) (todo : List Channel.Handler)
  | closing
  | closed
  | destroying
  | removing
  deriving DecidableEq, Repr

structure Frame where
  conn : Nat
  call : Call
  deriving DecidableEq, Repr

/-- An entry of `active_channels_` with its `revents_`. -/
inductive Ready where
  | acceptor
  | channel (conn : Nat) (revents : BitVec 32)
  deriving DecidableEq, Repr

def Ready.key : Ready → Option Nat
  | .acceptor => none
  | .channel c _ => some c

/-- What happened to a connection: callbacks made, functions entered and left. -/
inductive Event where
  | up
  | established
  | handled
  | message
  | down
  | close
  | closeReturned
  | removed
  | destroying (loop : Nat)
  | downAtDestroy
  | destroyed (state : TcpConnection.State) (events : BitVec 32)
  deriving DecidableEq, Repr

structure Conn where
  tcp : TcpConnection
  loop : Nat
  destructed : Bool
  log : List Event
  deriving DecidableEq, Repr

namespace Conn

def note (x : Conn) (e : Event) : Conn := { x with log := x.log ++ [e] }

def setTcp (x : Conn) (tcp : TcpConnection) : Conn := { x with tcp := tcp }

def setChannel (x : Conn) (channel : Channel) : Conn :=
  { x with tcp := { x.tcp with channel := channel } }

end Conn

/-- A loop and its thread: `functors` is the vector `DoPendingFunctors` has
swapped out, kept until the pass ends; `active` what is left of `active_channels_`. -/
structure Loop where
  core : EventLoop Functor
  functors : List Functor
  active : List Ready
  frames : List Frame
  channelMaps : Int → Option Nat
  epollSet : Int → Option (EpollPoller.Event Nat)
  ctlErrors : List EpollPoller.Operation
  aborted : Bool

namespace Loop

def new : Loop where
  core := .new
  functors := []
  active := []
  frames := []
  channelMaps _ := none
  epollSet _ := none
  ctlErrors := []
  aborted := false

/-- The loop's poller, called with one channel. -/
def poller (L : Loop) (channel : Channel) : EpollPoller Nat where
  channels _ := channel
  channelMaps := L.channelMaps
  epollSet := L.epollSet
  ctlErrors := L.ctlErrors
  aborted := L.aborted

def setPoller (L : Loop) (p : EpollPoller Nat) : Loop :=
  { L with
    channelMaps := p.channelMaps
    epollSet := p.epollSet
    ctlErrors := p.ctlErrors
    aborted := p.aborted }

/-- The functors of the present pass not yet started. -/
def rest (L : Loop) : List Functor :=
  match L.core.pc with
  | .running rest => rest
  | _ => []

/-- The loop thread is between two entries of `active_channels_`. -/
def dispatching (L : Loop) : Bool :=
  L.frames.isEmpty &&
    match L.core.pc with
    | .handling _ => true
    | _ => false

def inUserCode (L : Loop) : Bool :=
  L.core.inUserCode &&
    match L.frames with
    | [] => true
    | f :: _ => f.call == .callback

/-- A shared pointer to `c` is captured in a functor of the loop or held by a
call of its thread. -/
def holds (L : Loop) (c : Nat) : Bool :=
  (L.functors ++ L.core.pendingFunctors).any (fun f => f.conn == c && !f.job.bare) ||
    L.frames.any (fun f => f.conn == c)

end Loop

/-- Another thread's position in `Send` or `ShutDown`. -/
inductive Caller where
  | outside
  | sendQueue (conn len : Nat)
  | shutSet (conn : Nat)
  | shutQueue (conn : Nat)
  deriving DecidableEq, Repr

def Caller.conn : Caller → Option Nat
  | .outside => none
  | .sendQueue c _ | .shutSet c | .shutQueue c => some c

end TcpServer

structure TcpServer (τ : Type) where
  loops : Nat → TcpServer.Loop
  threads : Nat
  next : Nat
  conns : List TcpServer.Conn
  connectionMaps : List Nat
  writeCompleteCallback : Bool
  callers : τ → TcpServer.Caller
  users : List (τ × Nat)
  alive : Bool

namespace TcpServer

variable {τ : Type}

/-! ## Owners -/

/-- The map, a functor or a running call holds a shared pointer to `c`. -/
def owned (s : TcpServer τ) (c : Nat) : Bool :=
  s.connectionMaps.contains c || (List.range (s.threads + 1)).any fun l => (s.loops l).holds c

/-- The same, or user code holds one. -/
def held (s : TcpServer τ) (c : Nat) : Bool := s.owned c || s.users.any fun u => u.2 == c

/-! ## The calls of one thread on one connection -/

def setLoop (s : TcpServer τ) (l : Nat) (L : Loop) : TcpServer τ :=
  { s with loops := Function.update s.loops l L }

def setConn (s : TcpServer τ) (c : Nat) (x : Conn) : TcpServer τ :=
  { s with conns := s.conns.set c x }

/-- `Channel::Update()` of the connection `c`, whose fields are `x`. -/
def update (s : TcpServer τ) (c : Nat) (x : Conn) : TcpServer τ :=
  let p := ((s.loops x.loop).poller x.tcp.channel).updateChannel c
  (s.setLoop x.loop ((s.loops x.loop).setPoller p)).setConn c (x.setChannel (p.channels c))

/-- `Channel::Remove()`. -/
def remove (s : TcpServer τ) (c : Nat) (x : Conn) : TcpServer τ :=
  let p := ((s.loops x.loop).poller x.tcp.channel).removeChannel c
  (s.setLoop x.loop ((s.loops x.loop).setPoller p)).setConn c (x.setChannel (p.channels c))

/-- The thread of loop `l` makes calls on `c`, the first one innermost. -/
def push (s : TcpServer τ) (l c : Nat) (calls : List Call) : TcpServer τ :=
  s.setLoop l { s.loops l with frames := calls.map (Frame.mk c) ++ (s.loops l).frames }

/-- `QueueInLoop` on loop `m`, on its own thread or on another one. -/
def queueInLoop (s : TcpServer τ) (own : Bool) (m : Nat) (f : Functor) : TcpServer τ :=
  let core := (s.loops m).core
  s.setLoop m { s.loops m with
    core := if own then core.queueInLoop f else (core.emplace f).wakeup }

def connectionEstablished (s : TcpServer τ) (l c : Nat) (x : Conn) : TcpServer τ :=
  (s.update c ((x.setTcp x.tcp.connectionEstablished).note .up)).push l c [.callback, .establishing]

def handleClose (s : TcpServer τ) (l c : Nat) (x : Conn) : TcpServer τ :=
  (s.update c ((x.setTcp x.tcp.disconnect).note .down)).push l c [.callback, .closing]

/-- `ConnectionDestroyed` up to its callback; the test of the state is a step of
its own. -/
def connectionDestroyed (s : TcpServer τ) (l c : Nat) (x : Conn) : TcpServer τ :=
  let x := x.note (.destroying l)
  if x.tcp.state = .kConnected then (s.setConn c x).push l c [.destroying]
  else s.remove c (x.note (.destroyed x.tcp.state x.tcp.channel.events))

/-- The fields after a function that calls `Update()` when it changed the mask. -/
def store (s : TcpServer τ) (c : Nat) (x : Conn) (tcp : TcpConnection) : TcpServer τ :=
  if tcp.channel = x.tcp.channel then s.setConn c (x.setTcp tcp) else s.update c (x.setTcp tcp)

/-- `SendInLoop`; a completed direct write runs the write-complete callback at once. -/
def sendInLoop (s : TcpServer τ) (l c : Nat) (x : Conn) (p : Payload) (w : WriteResult) :
    Option (TcpServer τ) :=
  (x.tcp.sendInLoop p w).map fun r =>
    if r.2 then (s.store c x r.1).push l c [.callback] else s.store c x r.1

def handleWrite (s : TcpServer τ) (l c : Nat) (x : Conn) (w : WriteResult) :
    Option (TcpServer τ) :=
  (x.tcp.handleWrite w).map fun r =>
    if r.2 then (s.store c x r.1).queueInLoop (l = x.loop) x.loop ⟨c, .writeComplete⟩
    else s.store c x r.1

def handleRead (s : TcpServer τ) (l c : Nat) (x : Conn) (r : ReadvResult) :
    Option (TcpServer τ) :=
  (x.tcp.handleRead r).map fun o =>
    match o.2 with
    | .message => (s.setConn c ((x.setTcp o.1).note .message)).push l c [.callback]
    | .close => s.handleClose l c (x.setTcp o.1)
    | .error => s.setConn c (x.setTcp o.1)

/-! ## The server's own functions -/

/-- `EventLoopThreadPool::GetNextLoop`. -/
def getNextLoop (s : TcpServer τ) : Nat := if s.threads = 0 then 0 else s.next + 1

def advanceNext (s : TcpServer τ) : Nat :=
  if s.threads = 0 then s.next else if s.threads ≤ s.next + 1 then 0 else s.next + 1

def loopNumber : EventLoopThreadPool.Loop → Nat
  | .base => 0
  | .sub i => i + 1

/-- The pool of the server, once started, hands out the loop of that number. -/
theorem getNextLoop_pool {F : Type} (s : TcpServer τ) {pool : EventLoopThreadPool τ F}
    (hp : pool.Spawned) (hthreads : s.threads = pool.loops.length) (hnext : s.next = pool.next) :
    ∃ loop, pool.getNextLoop = some (loop, { pool with next := s.advanceNext }) ∧
      loopNumber loop = s.getNextLoop := by
  unfold getNextLoop advanceNext EventLoopThreadPool.getNextLoop
  rw [hthreads, hnext]
  by_cases hnil : pool.loops = []
  · have hzero : pool.loops.length = 0 := by rw [hnil, List.length_nil]
    refine ⟨.base, ?_, ?_⟩
    · rw [if_pos hnil, if_pos hzero]
    · rw [if_pos hzero]
      rfl
  · have hpos : pool.loops.length ≠ 0 := Nat.ne_of_gt (List.length_pos_of_ne_nil hnil)
    have hlt : pool.next < pool.loops.length := by
      have hrange := hp.next
      omega
    have hloop : pool.loops[pool.next]? = some (.sub pool.next) := by
      rw [hp.loops, List.getElem?_map, List.getElem?_range hlt]
      rfl
    refine ⟨.sub pool.next, ?_, ?_⟩
    · rw [if_neg hnil, hloop, if_neg hpos]
      rfl
    · rw [if_neg hpos]
      rfl

/-- `NewConnection`, on the main loop's thread. -/
def newConnection (s : TcpServer τ) (tcp : TcpConnection) : TcpServer τ :=
  let c := s.conns.length
  let io := s.getNextLoop
  let x : Conn := ⟨tcp, io, false, []⟩
  let s' : TcpServer τ :=
    { s with
      next := s.advanceNext
      conns := s.conns ++ [x]
      connectionMaps := s.connectionMaps ++ [c] }
  if io = 0 then s'.connectionEstablished 0 c x
  else s'.queueInLoop false io ⟨c, .connectionEstablished⟩

/-- `RemoveconnectionInLoop`, on the main loop's thread. -/
def removeConnectionInLoop (s : TcpServer τ) (c : Nat) (x : Conn) : TcpServer τ :=
  { s with connectionMaps := s.connectionMaps.filter (· ≠ c) }.setConn c (x.note .removed)
    |>.queueInLoop (x.loop = 0) x.loop ⟨c, .connectionDestroyed⟩

/-- `close_callback_`, which is `RemoveConnection`. -/
def removeConnection (s : TcpServer τ) (l c : Nat) (x : Conn) : TcpServer τ :=
  let x := x.note .close
  if l = 0 then s.removeConnectionInLoop c x
  else (s.setConn c x).queueInLoop false 0 ⟨c, .removeConnection⟩

/-! ## The machine -/

inductive Action (τ : Type) where
  | loop (l : Nat) (a : EventLoop.Label)
  | poll (l : Nat) (wake : Bool) (ready : List Ready)
  | acceptFails
  | accept (fd : Int)
  | dispatch (l : Nat)
  | handle (l : Nat) (r : ReadvResult) (w : WriteResult)
  | resume (l : Nat)
  | runFunctor (l : Nat) (p : Payload) (w : WriteResult)
  | ownSend (l c : Nat) (p : Payload) (w : WriteResult)
  | ownShutDown (l c : Nat)
  | quit (l : Nat)
  | obtain (t : τ) (c : Nat)
  | drop (t : τ) (c : Nat)
  | sendCheck (t : τ) (c len : Nat)
  | sendQueue (t : τ)
  | shutCheck (t : τ) (c : Nat)
  | shutSet (t : τ)
  | shutQueue (t : τ)
  | dtorBegin
  | dtorNext (c : Nat)
  | destruct (c : Nat)

/-- The thread of loop `l` can take the step of `Loop()`: the return of the poll
and the functors have actions of their own, and `~TcpServer` does not loop. -/
def canStep (s : TcpServer τ) (l : Nat) : EventLoop.Label → Bool
  | .runFunctor | .pollReturns _ => false
  | .doPendingFunctors => (s.loops l).active.isEmpty
  | .enterLoop => l != 0 || s.alive || s.connectionMaps.isEmpty
  | _ => true

/-- What a step of `Loop()` does to the vector of functors. -/
def Loop.functorsAfter (L : Loop) : EventLoop.Label → List Functor
  | .swapFunctors => L.core.pendingFunctors
  | .finishFunctors => []
  | _ => L.functors

def loopStep (s : TcpServer τ) (l : Nat) (a : EventLoop.Label) : Option (TcpServer τ) :=
  let L := s.loops l
  if L.frames.isEmpty && s.canStep l a then
    (L.core.step a).map fun core =>
      s.setLoop l { L with core := core, functors := L.functorsAfter a }
  else none

/-- The kernel has the connection's descriptor in the loop's epoll set, with
this channel as `data.ptr`. -/
def watched (s : TcpServer τ) (l c : Nat) : Bool :=
  match s.conns[c]? with
  | none => false
  | some x =>
      match (s.loops l).epollSet x.tcp.channel.fd with
      | none => false
      | some e => e.ptr == c

def reportable (s : TcpServer τ) (l : Nat) : Ready → Bool
  | .acceptor => l == 0 && s.alive
  | .channel c _ => s.watched l c

def poll (s : TcpServer τ) (l : Nat) (wake : Bool) (ready : List Ready) : Option (TcpServer τ) :=
  let L := s.loops l
  if L.frames.isEmpty && ready.all (s.reportable l) && decide (ready.map Ready.key).Nodup then
    (L.core.step (.pollReturns wake)).map fun core =>
      s.setLoop l { L with core := core, active := ready }
  else none

/-- A `LOG_FATAL` on the thread of loop `l`. -/
def abort (s : TcpServer τ) (l : Nat) : TcpServer τ :=
  s.setLoop l { s.loops l with aborted := true }

/-- `Acceptor::HandleRead`; `fd` is what `accept4` returned, `none` for -1. For anything
but a positive descriptor `Socket::Accept` does not return. -/
def acceptorHandleRead (s : TcpServer τ) (fd : Option Int) : Option (TcpServer τ) :=
  let L := s.loops 0
  match L.active with
  | .acceptor :: active =>
      if L.dispatching then
        let s' := s.setLoop 0 { L with active := active }
        match fd.filter (0 < ·) with
        | none => some (s'.abort 0)
        | some fd =>
            if s.alive && s.conns.all (fun x => x.destructed || x.tcp.channel.fd != fd) then
              (TcpConnection.new fd s.writeCompleteCallback).map s'.newConnection
            else none
      else none
  | _ => none

/-- `Channel::HandleEvent` of the next entry of `active_channels_`. -/
def dispatch (s : TcpServer τ) (l : Nat) : Option (TcpServer τ) :=
  let L := s.loops l
  match L.active with
  | .channel c revents :: active =>
      if L.dispatching && s.held c then
        some ((s.setLoop l { L with active := active }).push l c
          [.handleEvent revents (Channel.handleEventWithGuard revents)])
      else none
  | _ => none

/-- The next handler of the channel being dispatched. -/
def handle (s : TcpServer τ) (l : Nat) (r : ReadvResult) (w : WriteResult) :
    Option (TcpServer τ) :=
  match (s.loops l).frames with
  | ⟨c, .handleEvent revents (h :: todo)⟩ :: frames =>
      match s.conns[c]? with
      | none => none
      | some x =>
          let x := x.note .handled
          let s' := (s.setLoop l { s.loops l with
            frames := ⟨c, .handleEvent revents todo⟩ :: frames }).setConn c x
          match h with
          | .close => some (s'.handleClose l c x)
          | .error => some s'
          | .read => s'.handleRead l c x r
          | .write => s'.handleWrite l c x w
  | _ => none

/-- The innermost call of a loop thread goes on after its callback. -/
def resume (s : TcpServer τ) (l : Nat) : Option (TcpServer τ) :=
  match (s.loops l).frames with
  | [] => none
  | ⟨c, call⟩ :: frames =>
      let s' := s.setLoop l { s.loops l with frames := frames }
      match s.conns[c]? with
      | none => none
      | some x =>
          match call with
          | .callback => some s'
          | .establishing => some (s'.setConn c (x.note .established))
          | .handleEvent _ todo => if todo.isEmpty then some s' else none
          | .closing =>
              if s.alive then some ((s'.removeConnection l c x).push l c [.closed]) else none
          | .closed => some (s'.setConn c (x.note .closeReturned))
          | .destroying =>
              some ((s'.update c ((x.setTcp x.tcp.disconnect).note .downAtDestroy)).push l c
                [.callback, .removing])
          | .removing =>
              some (s'.remove c (x.note (.destroyed x.tcp.state x.tcp.channel.events)))

/-- The next functor of the pass; `p` is what a queued `SendInLoop` finds at its
pointer. -/
def runFunctor (s : TcpServer τ) (l : Nat) (p : Payload) (w : WriteResult) :
    Option (TcpServer τ) :=
  let L := s.loops l
  match L.frames, L.core.pc with
  | [], .running (⟨c, job⟩ :: rest) =>
      let s' := s.setLoop l { L with core := { L.core with pc := .running rest } }
      match s.conns[c]? with
      | none => none
      | some x =>
          match job with
          | .connectionEstablished => some (s'.connectionEstablished l c x)
          | .sendInLoop len =>
              if s.held c && p.data.length == len then s'.sendInLoop l c x p w else none
          | .shutdownInLoop =>
              if s.held c then some (s'.setConn c (x.setTcp x.tcp.shutdownInLoop)) else none
          | .writeComplete => some (s'.push l c [.callback])
          | .removeConnection => if s.alive then some (s'.removeConnectionInLoop c x) else none
          | .connectionDestroyed => some (s'.connectionDestroyed l c x)
  | _, _ => none

/-- User code on the loop thread `l` has a pointer to its connection `c`. -/
def canCall (s : TcpServer τ) (l c : Nat) (x : Conn) : Bool :=
  (s.loops l).inUserCode && x.loop == l &&
    ((s.loops l).frames.any (fun f => f == ⟨c, .callback⟩) || s.users.any fun u => u.2 == c)

def ownSend (s : TcpServer τ) (l c : Nat) (p : Payload) (w : WriteResult) :
    Option (TcpServer τ) :=
  match s.conns[c]? with
  | none => none
  | some x =>
      if s.canCall l c x then
        if x.tcp.state = .kConnected then s.sendInLoop l c x p w else some s
      else none

def ownShutDown (s : TcpServer τ) (l c : Nat) : Option (TcpServer τ) :=
  match s.conns[c]? with
  | none => none
  | some x =>
      if s.canCall l c x then
        if x.tcp.state = .kConnected then some (s.setConn c (x.setTcp x.tcp.shutDown)) else some s
      else none

/-- A callback with `c` as its argument runs on some loop, or a user pointer can
be copied. -/
def canObtain (s : TcpServer τ) (c : Nat) : Bool :=
  (List.range (s.threads + 1)).any (fun l =>
    (s.loops l).frames.any fun f => f == ⟨c, .callback⟩) ||
  s.users.any fun u => u.2 == c

/-- The main thread is in `~TcpServer`, outside `Loop()` and every callback. -/
def mainIdle (s : TcpServer τ) : Bool :=
  (s.loops 0).frames.isEmpty && (s.loops 0).core.pc == .idle

/-- One round of the loop in `~TcpServer`. -/
def dtorNext (s : TcpServer τ) (c : Nat) : Option (TcpServer τ) :=
  match s.conns[c]? with
  | none => none
  | some x =>
      if !s.alive && s.mainIdle && s.connectionMaps.contains c then
        let s' := { s with connectionMaps := s.connectionMaps.filter (· ≠ c) }
        if x.loop = 0 then some (s'.connectionDestroyed 0 c x)
        else some (s'.queueInLoop false x.loop ⟨c, .connectionDestroyed⟩)
      else none

/-- The last pointer is gone: the destructor closes the descriptor, and the
kernel takes it out of every epoll set. -/
def destruct (s : TcpServer τ) (c : Nat) : Option (TcpServer τ) :=
  match s.conns[c]? with
  | none => none
  | some x =>
      if s.held c || x.destructed then none
      else
        some { s with
          loops := fun l => { s.loops l with
            epollSet := Function.update (s.loops l).epollSet x.tcp.channel.fd none }
          conns := s.conns.set c { x with destructed := true } }

variable [DecidableEq τ]

def setCaller (s : TcpServer τ) (t : τ) (caller : Caller) : TcpServer τ :=
  { s with callers := Function.update s.callers t caller }

/-- The test of `state_` at the head of `Send` and `ShutDown`. -/
def check (s : TcpServer τ) (t : τ) (c : Nat) (caller : Caller) : Option (TcpServer τ) :=
  match s.conns[c]? with
  | none => none
  | some x =>
      if s.callers t = .outside ∧ (t, c) ∈ s.users then
        if x.tcp.state = .kConnected then some (s.setCaller t caller) else some s
      else none

def step (s : TcpServer τ) : Action τ → Option (TcpServer τ)
  | .loop l a => s.loopStep l a
  | .poll l wake ready => s.poll l wake ready
  | .acceptFails => s.acceptorHandleRead none
  | .accept fd => s.acceptorHandleRead (some fd)
  | .dispatch l => s.dispatch l
  | .handle l r w => s.handle l r w
  | .resume l => s.resume l
  | .runFunctor l p w => s.runFunctor l p w
  | .ownSend l c p w => s.ownSend l c p w
  | .ownShutDown l c => s.ownShutDown l c
  | .quit l => some (s.setLoop l { s.loops l with core := (s.loops l).core.setQuit })
  | .obtain t c => if s.canObtain c then some { s with users := (t, c) :: s.users } else none
  | .drop t c =>
      if (t, c) ∈ s.users ∧ (s.callers t).conn ≠ some c then
        some { s with users := s.users.erase (t, c) }
      else none
  | .sendCheck t c len => s.check t c (.sendQueue c len)
  | .sendQueue t =>
      match s.callers t with
      | .sendQueue c len =>
          (s.conns[c]?).map fun x =>
            (s.queueInLoop false x.loop ⟨c, .sendInLoop len⟩).setCaller t .outside
      | _ => none
  | .shutCheck t c => s.check t c (.shutSet c)
  | .shutSet t =>
      match s.callers t with
      | .shutSet c =>
          (s.conns[c]?).map fun x =>
            (s.setConn c (x.setTcp (x.tcp.setState .kDisconnecting))).setCaller t (.shutQueue c)
      | _ => none
  | .shutQueue t =>
      match s.callers t with
      | .shutQueue c =>
          (s.conns[c]?).map fun x =>
            (s.queueInLoop false x.loop ⟨c, .shutdownInLoop⟩).setCaller t .outside
      | _ => none
  | .dtorBegin => if s.alive && s.mainIdle then some { s with alive := false } else none
  | .dtorNext c => s.dtorNext c
  | .destruct c => s.destruct c

/-- A server with any number of loops, nothing accepted yet. -/
structure Initial (s : TcpServer τ) : Prop where
  loops : ∀ l, s.loops l = .new
  next : s.next = 0
  conns : s.conns = []
  connectionMaps : s.connectionMaps = []
  callers : ∀ t, s.callers t = .outside
  users : s.users = []
  alive : s.alive = true

/-- The server after its constructor and `Start()`. -/
def new (threads : Nat) (writeCompleteCallback : Bool) : TcpServer τ where
  loops _ := .new
  threads := threads
  next := 0
  conns := []
  connectionMaps := []
  writeCompleteCallback := writeCompleteCallback
  callers _ := .outside
  users := []
  alive := true

omit [DecidableEq τ] in
theorem new_initial (threads : Nat) (due : Bool) : Initial (new threads due : TcpServer τ) :=
  ⟨fun _ => rfl, rfl, rfl, rfl, fun _ => rfl, rfl, rfl⟩

/-- A `LOG_FATAL` has ended the process. -/
def aborted (s : TcpServer τ) : Bool :=
  (List.range (s.threads + 1)).any fun l => (s.loops l).aborted

def machine (τ : Type) [DecidableEq τ] : Machine (TcpServer τ) (Action τ) where
  start := Initial
  step s a := if s.aborted then none else s.step a

end TcpServer

end MyNetLib
