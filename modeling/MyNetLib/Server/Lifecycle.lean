import MyNetLib.Server.TcpServer

/-! # The life of one connection

What a single connection sees of the server: its own fields, its jobs in its
loop's queue and in the main loop's, its calls on its loop's thread, its entries
in `active_channels_`, its owners. `Step` says everything a step of the server
can do to that view, with its guard; the order of the jobs of one connection is
all that is left of the queues.
-/

namespace MyNetLib.TcpServer

open Library

/-! ## What the poller leaves in the connection -/

namespace Conn

/-- The connection after `Channel::Update()`. -/
def updated (x : Conn) : Conn :=
  x.setChannel { x.tcp.channel with index := EpollPoller.updatedIndex x.tcp.channel }

def up (x : Conn) : Conn := ((x.setTcp x.tcp.connectionEstablished).note .up).updated

/-- `HandleClose` up to its callbacks. -/
def down (x : Conn) : Conn := ((x.setTcp x.tcp.disconnect).note .down).updated

/-- The same part of `ConnectionDestroyed`. -/
def downAtDestroy (x : Conn) : Conn :=
  ((x.setTcp x.tcp.disconnect).note .downAtDestroy).updated

/-- The end of `ConnectionDestroyed`, which is `Channel::Remove()`. -/
def destroyed (x : Conn) : Conn :=
  (x.note (.destroyed x.tcp.state x.tcp.channel.events)).setChannel
    { x.tcp.channel with index := EpollPoller.kNew }

/-- After `SendInLoop` or `HandleWrite`, which call `Update()` when the mask changed. -/
def wrote (x : Conn) (tcp : TcpConnection) : Conn :=
  if tcp.channel = x.tcp.channel then x.setTcp tcp else (x.setTcp tcp).updated

end Conn

/-! ## The view -/

def jobsOf (c : Nat) (fs : List Functor) : List Job :=
  fs.filterMap fun f => if f.conn = c ∧ f.job ≠ .removeConnection then some f.job else none

/-- The removals of `c` among functors of the main loop. -/
def removalsOf (c : Nat) (fs : List Functor) : Nat := fs.count ⟨c, .removeConnection⟩

def callsOf (c : Nat) (fs : List Frame) : List Call :=
  fs.filterMap fun f => if f.conn = c then some f.call else none

def maskOf (c : Nat) : Ready → Option (BitVec 32)
  | .acceptor => none
  | .channel d revents => if d = c then some revents else none

def usersOf {τ : Type} (c : Nat) (us : List (τ × Nat)) : List τ :=
  us.filterMap fun u => if u.2 = c then some u.1 else none

/-- A thread's position, as far as it is in a call on `c`. -/
def Caller.on (c : Nat) (caller : Caller) : Caller :=
  if caller.conn = some c then caller else .outside

structure View (τ : Type) where
  conn : Conn
  pending : List Job
  rest : List Job
  batch : List Job
  removals : Nat
  frames : List Call
  active : List (BitVec 32)
  inMap : Bool
  users : List τ
  callers : τ → Caller
  alive : Bool

variable {τ : Type}

def view (s : TcpServer τ) (c : Nat) (x : Conn) : View τ where
  conn := x
  pending := jobsOf c (s.loops x.loop).core.pendingFunctors
  rest := jobsOf c (s.loops x.loop).rest
  batch := jobsOf c (s.loops x.loop).functors
  removals := removalsOf c (s.loops 0).core.queued
  frames := callsOf c (s.loops x.loop).frames
  active := (s.loops x.loop).active.filterMap (maskOf c)
  inMap := s.connectionMaps.contains c
  users := usersOf c s.users
  callers t := (s.callers t).on c
  alive := s.alive

/-- The connection a step is about; a step of `Loop()`, a poll and an accept are
about none. -/
def subject (s : TcpServer τ) : Action τ → Option Nat
  | .dispatch l => ((s.loops l).active.head?).bind Ready.key
  | .handle l _ _ | .resume l => (s.loops l).frames.head?.map Frame.conn
  | .runFunctor l _ _ => (s.loops l).rest.head?.map Functor.conn
  | .ownSend _ c _ _ | .ownShutDown _ c | .obtain _ c | .drop _ c | .sendCheck _ c _
  | .shutCheck _ c | .dtorNext c | .destruct c => some c
  | .sendQueue t | .shutSet t | .shutQueue t => (s.callers t).conn
  | .loop _ _ | .poll _ _ _ | .acceptFails | .accept _ | .quit _ | .dtorBegin => none

namespace View

/-- Entering `ConnectionDestroyed` on the thread of loop `l`. -/
def destroy (v : View τ) (l : Nat) : View τ :=
  if v.conn.tcp.state = .kConnected then
    { v with
      conn := v.conn.note (.destroying l)
      frames := .destroying :: v.frames }
  else { v with conn := (v.conn.note (.destroying l)).destroyed }

/-- A view right after `NewConnection`: the job is queued, or done at once on the
main loop. -/
inductive Start : View τ → Prop
  | queued (v : View τ) (fd : Int) (due : Bool) (tcp : TcpConnection) (io : Nat) :
      TcpConnection.new fd due = some tcp → io ≠ 0 → v.conn = ⟨tcp, io, false, []⟩ →
      v.pending = [.connectionEstablished] → v.rest = [] → v.batch = [] → v.removals = 0 →
      v.frames = [] → v.active = [] → v.inMap = true → v.users = [] →
      (∀ t, v.callers t = .outside) → v.alive = true → Start v
  | established (v : View τ) (fd : Int) (due : Bool) (tcp : TcpConnection) :
      TcpConnection.new fd due = some tcp → v.conn = Conn.up ⟨tcp, 0, false, []⟩ →
      v.pending = [] → v.rest = [] → v.batch = [] → v.removals = 0 →
      v.frames = [.callback, .establishing] → v.active = [] → v.inMap = true → v.users = [] →
      (∀ t, v.callers t = .outside) → v.alive = true → Start v

/-- Every step of the server as one connection sees it. The flag says whether the
step is about the connection. -/
inductive Step [DecidableEq τ] (v : View τ) : Bool → Action τ → View τ → Prop
  | quiet (mine : Bool) (a : Action τ) : Step v mine a v
  | polled (a : Action τ) (revents : BitVec 32) : v.frames = [] → v.active = [] →
      v.conn.tcp.channel.index = EpollPoller.kAdded →
      Step v false a { v with active := [revents] }
  | swapped (a : Action τ) : v.frames = [] → v.active = [] → v.rest = [] →
      Step v false a { v with pending := [], rest := v.pending, batch := v.pending }
  | finished (a : Action τ) : v.frames = [] → v.rest = [] →
      Step v false a { v with batch := [] }
  | dtorBegun : Step v false .dtorBegin { v with alive := false }
  | dispatched (l : Nat) (revents : BitVec 32) (active : List (BitVec 32)) :
      v.frames = [] → v.active = revents :: active →
      Step v true (.dispatch l) { v with
        active := active
        frames := [.handleEvent revents (Channel.handleEventWithGuard revents)] }
  | handledClose (l : Nat) (r : ReadvResult) (w : WriteResult) (revents : BitVec 32)
      (todo : List Channel.Handler) (frames : List Call) :
      v.frames = .handleEvent revents (.close :: todo) :: frames →
      Step v true (.handle l r w) { v with
        conn := (v.conn.note .handled).down
        frames := .callback :: .closing :: .handleEvent revents todo :: frames }
  | handledError (l : Nat) (r : ReadvResult) (w : WriteResult) (revents : BitVec 32)
      (todo : List Channel.Handler) (frames : List Call) :
      v.frames = .handleEvent revents (.error :: todo) :: frames →
      Step v true (.handle l r w) { v with
        conn := v.conn.note .handled
        frames := .handleEvent revents todo :: frames }
  | readMessage (l : Nat) (r : ReadvResult) (w : WriteResult) (revents : BitVec 32)
      (todo : List Channel.Handler) (frames : List Call) (tcp : TcpConnection) :
      v.frames = .handleEvent revents (.read :: todo) :: frames →
      v.conn.tcp.handleRead r = some (tcp, .message) →
      Step v true (.handle l r w) { v with
        conn := ((v.conn.note .handled).setTcp tcp).note .message
        frames := .callback :: .handleEvent revents todo :: frames }
  | readClose (l : Nat) (r : ReadvResult) (w : WriteResult) (revents : BitVec 32)
      (todo : List Channel.Handler) (frames : List Call) (tcp : TcpConnection) :
      v.frames = .handleEvent revents (.read :: todo) :: frames →
      v.conn.tcp.handleRead r = some (tcp, .close) →
      Step v true (.handle l r w) { v with
        conn := ((v.conn.note .handled).setTcp tcp).down
        frames := .callback :: .closing :: .handleEvent revents todo :: frames }
  | readError (l : Nat) (r : ReadvResult) (w : WriteResult) (revents : BitVec 32)
      (todo : List Channel.Handler) (frames : List Call) (tcp : TcpConnection) :
      v.frames = .handleEvent revents (.read :: todo) :: frames →
      v.conn.tcp.handleRead r = some (tcp, .error) →
      Step v true (.handle l r w) { v with
        conn := (v.conn.note .handled).setTcp tcp
        frames := .handleEvent revents todo :: frames }
  | handledWrite (l : Nat) (r : ReadvResult) (w : WriteResult) (revents : BitVec 32)
      (todo : List Channel.Handler) (frames : List Call) (tcp : TcpConnection) (due : Bool) :
      v.frames = .handleEvent revents (.write :: todo) :: frames →
      v.conn.tcp.handleWrite w = some (tcp, due) →
      Step v true (.handle l r w) { v with
        conn := (v.conn.note .handled).wrote tcp
        pending := v.pending ++ if due then [.writeComplete] else []
        frames := .handleEvent revents todo :: frames }
  | callbackReturned (l : Nat) (frames : List Call) : v.frames = .callback :: frames →
      Step v true (.resume l) { v with frames := frames }
  | eventHandled (l : Nat) (revents : BitVec 32) (frames : List Call) :
      v.frames = .handleEvent revents [] :: frames →
      Step v true (.resume l) { v with frames := frames }
  | establishedReturned (l : Nat) (frames : List Call) : v.frames = .establishing :: frames →
      Step v true (.resume l) { v with conn := v.conn.note .established, frames := frames }
  | closeQueued (l : Nat) (frames : List Call) : v.frames = .closing :: frames →
      v.alive = true → v.conn.loop ≠ 0 →
      Step v true (.resume l) { v with
        conn := v.conn.note .close
        removals := v.removals + 1
        frames := .closed :: frames }
  | closeRemoved (l : Nat) (frames : List Call) : v.frames = .closing :: frames →
      v.alive = true → v.conn.loop = 0 →
      Step v true (.resume l) { v with
        conn := (v.conn.note .close).note .removed
        inMap := false
        pending := v.pending ++ [.connectionDestroyed]
        frames := .closed :: frames }
  | closeReturned (l : Nat) (frames : List Call) : v.frames = .closed :: frames →
      Step v true (.resume l) { v with conn := v.conn.note .closeReturned, frames := frames }
  | disconnected (l : Nat) (frames : List Call) : v.frames = .destroying :: frames →
      Step v true (.resume l) { v with
        conn := v.conn.downAtDestroy
        frames := .callback :: .removing :: frames }
  | removed (l : Nat) (frames : List Call) : v.frames = .removing :: frames →
      Step v true (.resume l) { v with conn := v.conn.destroyed, frames := frames }
  | runEstablished (l : Nat) (p : Payload) (w : WriteResult) (rest : List Job) :
      v.frames = [] → v.active = [] → v.rest = .connectionEstablished :: rest →
      Step v true (.runFunctor l p w) { v with
        conn := v.conn.up
        rest := rest
        frames := [.callback, .establishing] }
  | runSend (p : Payload) (w : WriteResult) (len : Nat) (rest : List Job)
      (tcp : TcpConnection) (due : Bool) :
      v.frames = [] → v.active = [] → v.rest = .sendInLoop len :: rest →
      v.conn.tcp.sendInLoop p w = some (tcp, due) →
      Step v true (.runFunctor v.conn.loop p w) { v with
        conn := v.conn.wrote tcp
        rest := rest
        frames := if due then [.callback] else [] }
  | runShutdown (l : Nat) (p : Payload) (w : WriteResult) (rest : List Job) :
      v.frames = [] → v.active = [] → v.rest = .shutdownInLoop :: rest →
      Step v true (.runFunctor l p w) { v with
        conn := v.conn.setTcp v.conn.tcp.shutdownInLoop
        rest := rest }
  | runWriteComplete (l : Nat) (p : Payload) (w : WriteResult) (rest : List Job) :
      v.frames = [] → v.active = [] → v.rest = .writeComplete :: rest →
      Step v true (.runFunctor l p w) { v with rest := rest, frames := [.callback] }
  | runRemove (l : Nat) (p : Payload) (w : WriteResult) (removals : Nat) :
      v.alive = true → v.removals = removals + 1 →
      Step v true (.runFunctor l p w) { v with
        conn := v.conn.note .removed
        removals := removals
        inMap := false
        pending := v.pending ++ [.connectionDestroyed] }
  | runDestroyed (p : Payload) (w : WriteResult) (rest : List Job) :
      v.frames = [] → v.active = [] → v.rest = .connectionDestroyed :: rest →
      Step v true (.runFunctor v.conn.loop p w) (destroy { v with rest := rest } v.conn.loop)
  | ownSent (l c : Nat) (p : Payload) (w : WriteResult) (tcp : TcpConnection) (due : Bool) :
      v.conn.tcp.state = .kConnected → v.conn.tcp.sendInLoop p w = some (tcp, due) →
      Step v true (.ownSend l c p w) { v with
        conn := v.conn.wrote tcp
        frames := if due then .callback :: v.frames else v.frames }
  | ownShut (l c : Nat) : v.conn.tcp.state = .kConnected →
      Step v true (.ownShutDown l c) { v with conn := v.conn.setTcp v.conn.tcp.shutDown }
  | obtained (t : τ) (c : Nat) : .callback ∈ v.frames ∨ v.users ≠ [] →
      Step v true (.obtain t c) { v with users := t :: v.users }
  | dropped (t : τ) (c : Nat) : v.callers t = .outside →
      Step v true (.drop t c) { v with users := v.users.erase t }
  | sendChecked (t : τ) (c len : Nat) : v.callers t = .outside → t ∈ v.users →
      v.conn.tcp.state = .kConnected →
      Step v true (.sendCheck t c len) { v with
        callers := Function.update v.callers t (.sendQueue c len) }
  | shutChecked (t : τ) (c : Nat) : v.callers t = .outside → t ∈ v.users →
      v.conn.tcp.state = .kConnected →
      Step v true (.shutCheck t c) { v with
        callers := Function.update v.callers t (.shutSet c) }
  | sendQueued (t : τ) (c len : Nat) : v.callers t = .sendQueue c len →
      Step v true (.sendQueue t) { v with
        pending := v.pending ++ [.sendInLoop len]
        callers := Function.update v.callers t .outside }
  | shutStored (t : τ) (c : Nat) : v.callers t = .shutSet c →
      Step v true (.shutSet t) { v with
        conn := v.conn.setTcp (v.conn.tcp.setState .kDisconnecting)
        callers := Function.update v.callers t (.shutQueue c) }
  | shutQueued (t : τ) (c : Nat) : v.callers t = .shutQueue c →
      Step v true (.shutQueue t) { v with
        pending := v.pending ++ [.shutdownInLoop]
        callers := Function.update v.callers t .outside }
  | dtorQueued (c : Nat) : v.alive = false → v.inMap = true → v.conn.loop ≠ 0 →
      Step v true (.dtorNext c) { v with
        inMap := false
        pending := v.pending ++ [.connectionDestroyed] }
  | dtorDestroyed (c : Nat) : v.alive = false → v.inMap = true → v.conn.loop = 0 →
      v.frames = [] → v.active = [] →
      Step v true (.dtorNext c) (destroy { v with inMap := false } 0)
  | destructed (c : Nat) : v.inMap = false → v.users = [] →
      Step v true (.destruct c) { v with conn := { v.conn with destructed := true } }

end View

end MyNetLib.TcpServer
