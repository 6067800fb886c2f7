import MyNetLib.Server.Projection

/-! # The state of a connection along its life

A connection is born when `ConnectionEstablished` makes its first callback; until
then nothing but that job can touch it. From there on its state goes forward
unless a `ShutDown` of another thread stores what it decided on before.
-/

namespace MyNetLib.TcpServer

open Library

variable {τ : Type}

/-! ## The fields a step of a connection changes -/

namespace Conn

variable {x : Conn} {tcp : TcpConnection} {p : Payload} {r : ReadvResult} {w : WriteResult}
  {due : Bool}

attribute [simp] note setTcp setChannel TcpConnection.setState

@[simp] theorem updated_state (x : Conn) : x.updated.tcp.state = x.tcp.state := rfl

@[simp] theorem updated_events (x : Conn) :
    x.updated.tcp.channel.events = x.tcp.channel.events := rfl

@[simp] theorem updated_index (x : Conn) :
    x.updated.tcp.channel.index = EpollPoller.updatedIndex x.tcp.channel := rfl

@[simp] theorem updated_log (x : Conn) : x.updated.log = x.log := rfl

@[simp] theorem updated_loop (x : Conn) : x.updated.loop = x.loop := rfl

@[simp] theorem up_state (x : Conn) : x.up.tcp.state = .kConnected := rfl

@[simp] theorem up_log (x : Conn) : x.up.log = x.log ++ [.up] := rfl

@[simp] theorem up_loop (x : Conn) : x.up.loop = x.loop := rfl

@[simp] theorem down_state (x : Conn) : x.down.tcp.state = .kDisconnected := rfl

@[simp] theorem down_events (x : Conn) : x.down.tcp.channel.events = 0 := rfl

@[simp] theorem down_log (x : Conn) : x.down.log = x.log ++ [.down] := rfl

@[simp] theorem down_loop (x : Conn) : x.down.loop = x.loop := rfl

@[simp] theorem downAtDestroy_state (x : Conn) : x.downAtDestroy.tcp.state = .kDisconnected := rfl

@[simp] theorem downAtDestroy_events (x : Conn) : x.downAtDestroy.tcp.channel.events = 0 := rfl

@[simp] theorem downAtDestroy_log (x : Conn) :
    x.downAtDestroy.log = x.log ++ [.downAtDestroy] := rfl

@[simp] theorem downAtDestroy_loop (x : Conn) : x.downAtDestroy.loop = x.loop := rfl

@[simp] theorem destroyed_state (x : Conn) : x.destroyed.tcp.state = x.tcp.state := rfl

@[simp] theorem destroyed_events (x : Conn) :
    x.destroyed.tcp.channel.events = x.tcp.channel.events := rfl

@[simp] theorem destroyed_index (x : Conn) : x.destroyed.tcp.channel.index = EpollPoller.kNew := rfl

@[simp] theorem destroyed_log (x : Conn) : x.destroyed.log =
    x.log ++ [.destroyed x.tcp.state x.tcp.channel.events] := rfl

@[simp] theorem destroyed_loop (x : Conn) : x.destroyed.loop = x.loop := rfl

@[simp] theorem wrote_state (x : Conn) (tcp : TcpConnection) :
    (x.wrote tcp).tcp.state = tcp.state := by
  unfold wrote
  split <;> rfl

attribute [simp] wrote_loop

@[simp] theorem wrote_log (x : Conn) (tcp : TcpConnection) : (x.wrote tcp).log = x.log := by
  unfold wrote
  split <;> rfl

/-- `SendInLoop` calls `Update()` exactly when it sets the write bit. -/
theorem wrote_send (h : x.tcp.sendInLoop p w = some (tcp, due)) :
    (x.wrote tcp).tcp.channel = if x.tcp.enablesWrite p w then
      { x.tcp.channel.enableWrite with
        index := EpollPoller.updatedIndex x.tcp.channel.enableWrite } else x.tcp.channel := by
  have hchannel := (TcpConnection.sendInLoop_channel h).2
  split
  · rename_i hsets
    rw [if_pos hsets] at hchannel
    have hne : tcp.channel ≠ x.tcp.channel := by
      intro heq
      have hclear : x.tcp.channel.isWriting = false := by
        simpa [TcpConnection.isWriting] using TcpConnection.not_writing_of_enablesWrite hsets
      rw [← heq, hchannel, Channel.isWriting_enableWrite] at hclear
      cases hclear
    rw [wrote, if_neg hne]
    simp [updated, hchannel]
  · rename_i hkeeps
    rw [if_neg hkeeps] at hchannel
    rw [wrote, if_pos hchannel]
    exact hchannel

/-- `HandleWrite` calls it when it clears the bit. -/
theorem wrote_handled (h : x.tcp.handleWrite w = some (tcp, due)) :
    (x.wrote tcp).tcp.channel = x.tcp.channel ∨
      (x.tcp.isWriting = true ∧ (x.wrote tcp).tcp.channel =
        { x.tcp.channel.disableWrite with
          index := EpollPoller.updatedIndex x.tcp.channel.disableWrite }) := by
  rcases (TcpConnection.handleWrite_channel h).2 with hsame | ⟨hbit, hclear⟩
  · left
    rw [wrote, if_pos hsame]
    exact hsame
  · right
    have hne : tcp.channel ≠ x.tcp.channel := by
      intro heq
      rw [TcpConnection.isWriting, ← heq, hclear, Channel.isWriting_disableWrite] at hbit
      cases hbit
    refine ⟨hbit, ?_⟩
    rw [wrote, if_neg hne]
    simp [updated, hclear]

end Conn

/-- The order the states are listed in. -/
def rank : TcpConnection.State → Nat
  | .kConnecting => 0
  | .kConnected => 1
  | .kDisconnecting => 2
  | .kDisconnected => 3

theorem rank_le (state : TcpConnection.State) : rank state ≤ rank .kDisconnected := by
  cases state <;> decide

/-- `readv` has returned something, if only the end of the stream. -/
def succeeds : ReadvResult → Bool
  | .failed _ => false
  | .received _ => true

namespace View

variable {v v' : View τ} {mine : Bool} {a : Action τ}

/-- The jobs of the connection that its loop has still to run. -/
def queue (v : View τ) : List Job := v.rest ++ v.pending

section Destroy

variable (v : View τ) (l : Nat)

@[simp] theorem destroy_state : (v.destroy l).conn.tcp.state = v.conn.tcp.state := by
  unfold destroy
  split <;> rfl

@[simp] theorem destroy_events :
    (v.destroy l).conn.tcp.channel.events = v.conn.tcp.channel.events := by
  unfold destroy
  split <;> rfl

@[simp] theorem destroy_loop : (v.destroy l).conn.loop = v.conn.loop := by
  unfold destroy
  split <;> rfl

@[simp] theorem destroy_pending : (v.destroy l).pending = v.pending := by
  unfold destroy
  split <;> rfl

@[simp] theorem destroy_rest : (v.destroy l).rest = v.rest := by
  unfold destroy
  split <;> rfl

@[simp] theorem destroy_batch : (v.destroy l).batch = v.batch := by
  unfold destroy
  split <;> rfl

@[simp] theorem destroy_removals : (v.destroy l).removals = v.removals := by
  unfold destroy
  split <;> rfl

@[simp] theorem destroy_active : (v.destroy l).active = v.active := by
  unfold destroy
  split <;> rfl

@[simp] theorem destroy_inMap : (v.destroy l).inMap = v.inMap := by
  unfold destroy
  split <;> rfl

@[simp] theorem destroy_users : (v.destroy l).users = v.users := by
  unfold destroy
  split <;> rfl

@[simp] theorem destroy_callers : (v.destroy l).callers = v.callers := by
  unfold destroy
  split <;> rfl

@[simp, grind =] theorem mem_destroy_frames (call : Call) : call ∈ (v.destroy l).frames ↔
    (call = .destroying ∧ v.conn.tcp.state = .kConnected) ∨ call ∈ v.frames := by
  unfold destroy
  split <;> simp_all

theorem destroy_log : v.conn.log <+: (v.destroy l).conn.log := by
  unfold destroy
  split <;> simp

end Destroy

section Effects

variable [DecidableEq τ] {v v' : View τ} {mine : Bool} {a : Action τ}

theorem Step.log (hs : Step v mine a v') : v.conn.log <+: v'.conn.log := by
  cases hs with
  | runDestroyed _ _ rest => exact destroy_log { v with rest := rest } _
  | dtorDestroyed => exact destroy_log { v with inMap := false } 0
  | _ => simp

theorem Step.state (hs : Step v mine a v') : v'.conn.tcp.state = v.conn.tcp.state ∨
    (v'.conn.tcp.state = .kConnected ∧ .connectionEstablished ∈ v.queue) ∨
    (v'.conn.tcp.state = .kDisconnected ∧ v'.conn.tcp.channel.events = 0 ∧
      (.down ∈ v'.conn.log ∨ .downAtDestroy ∈ v'.conn.log)) ∨
    (v'.conn.tcp.state = .kDisconnecting ∧ (v.conn.tcp.state = .kConnected ∨
      ∃ t c, mine = true ∧ a = .shutSet t ∧ v.callers t = .shutSet c)) := by
  cases hs with
  | readMessage _ _ _ _ _ _ _ _ hread => exact Or.inl (TcpConnection.handleRead_channel hread).1
  | readError _ _ _ _ _ _ _ _ hread => exact Or.inl (TcpConnection.handleRead_channel hread).1
  | handledWrite _ _ _ _ _ _ _ _ _ hwrite =>
      exact Or.inl ((Conn.wrote_state _ _).trans (TcpConnection.handleWrite_channel hwrite).1)
  | runSend _ _ _ _ _ _ _ _ _ hsend =>
      exact Or.inl ((Conn.wrote_state _ _).trans (TcpConnection.sendInLoop_channel hsend).1)
  | ownSent _ _ _ _ _ _ _ hsend =>
      exact Or.inl ((Conn.wrote_state _ _).trans (TcpConnection.sendInLoop_channel hsend).1)
  | runEstablished _ _ _ _ _ _ hrest => exact Or.inr (Or.inl ⟨rfl, by simp [View.queue, hrest]⟩)
  | ownShut _ _ hstate =>
      exact Or.inr (Or.inr (Or.inr ⟨by simp [TcpConnection.shutDown], Or.inl hstate⟩))
  | shutStored t c hcaller =>
      exact Or.inr (Or.inr (Or.inr ⟨rfl, Or.inr ⟨t, c, rfl, rfl, hcaller⟩⟩))
  | _ => simp

/-- The step is a `HandleClose` up to its callback, called by the dispatch itself or
by `HandleRead`. -/
structure Closes (v : View τ) (mine : Bool) (a : Action τ) (v' : View τ) (revents : BitVec 32)
    (handler : Channel.Handler) (todo : List Channel.Handler) (frames : List Call) : Prop where
  mine : mine = true
  before : v.frames = .handleEvent revents (handler :: todo) :: frames
  after : v'.frames = .callback :: .closing :: .handleEvent revents todo :: frames
  handler : handler = .close ∨ handler = .read ∧ ∃ l w, a = .handle l (.received []) w
  log : v'.conn.log = v.conn.log ++ [.handled, .down]
  channel : v'.conn.tcp.channel = { v.conn.tcp.channel.disableAll with
    index := EpollPoller.updatedIndex v.conn.tcp.channel.disableAll }
  state : v'.conn.tcp.state = .kDisconnected
  active : v'.active = v.active

/-- Who changes the channel, and how. -/
inductive Retunes (v : View τ) (mine : Bool) (a : Action τ) (v' : View τ) : Prop
  | kept : v'.conn.tcp.channel = v.conn.tcp.channel → Retunes v mine a v'
  | established : .connectionEstablished ∈ v.queue → Retunes v mine a v'
  | closed (revents : BitVec 32) (handler : Channel.Handler) (todo : List Channel.Handler)
      (frames : List Call) : Closes v mine a v' revents handler todo frames → Retunes v mine a v'
  | disconnected : .destroying ∈ v.frames →
      v'.conn.tcp.channel = { v.conn.tcp.channel.disableAll with
        index := EpollPoller.updatedIndex v.conn.tcp.channel.disableAll } → Retunes v mine a v'
  | removed : .removing ∈ v.frames ∨ v.frames = [] ∧ v.active = [] →
      v'.conn.tcp.channel = { v.conn.tcp.channel with index := EpollPoller.kNew } →
      Retunes v mine a v'
  | sent : v.conn.tcp.state = .kConnected →
      v'.conn.tcp.channel = { v.conn.tcp.channel.enableWrite with
        index := EpollPoller.updatedIndex v.conn.tcp.channel.enableWrite } → Retunes v mine a v'
  | sentLater (p : Payload) (w : WriteResult) (len : Nat) (rest : List Job) : mine = true →
      a = .runFunctor v.conn.loop p w → v.rest = .sendInLoop len :: rest →
      v.conn.tcp.enablesWrite p w = true → v.frames = [] → v.active = [] →
      v'.conn.tcp.channel = { v.conn.tcp.channel.enableWrite with
        index := EpollPoller.updatedIndex v.conn.tcp.channel.enableWrite } → Retunes v mine a v'
  | drained (revents : BitVec 32) (todo : List Channel.Handler) (frames : List Call) :
      v.frames = .handleEvent revents (.write :: todo) :: frames →
      v'.frames = .handleEvent revents todo :: frames → v.conn.tcp.isWriting = true →
      v'.conn.tcp.channel = { v.conn.tcp.channel.disableWrite with
        index := EpollPoller.updatedIndex v.conn.tcp.channel.disableWrite } → Retunes v mine a v'

omit [DecidableEq τ] in
theorem closes_handledClose {l : Nat} {r : ReadvResult} {w : WriteResult} {revents : BitVec 32}
    {todo : List Channel.Handler} {frames : List Call}
    (h : v.frames = .handleEvent revents (.close :: todo) :: frames) :
    Closes v true (.handle l r w) { v with
      conn := (v.conn.note .handled).down
      frames := .callback :: .closing :: .handleEvent revents todo :: frames }
      revents .close todo frames :=
  ⟨rfl, h, rfl, Or.inl rfl, by simp, rfl, rfl, rfl⟩

omit [DecidableEq τ] in
theorem closes_readClose {l : Nat} {r : ReadvResult} {w : WriteResult} {revents : BitVec 32}
    {todo : List Channel.Handler} {frames : List Call} {tcp : TcpConnection}
    (h : v.frames = .handleEvent revents (.read :: todo) :: frames)
    (hread : v.conn.tcp.handleRead r = some (tcp, .close)) :
    Closes v true (.handle l r w) { v with
      conn := ((v.conn.note .handled).setTcp tcp).down
      frames := .callback :: .closing :: .handleEvent revents todo :: frames }
      revents .read todo frames := by
  have hgot : r = .received [] := TcpConnection.handleRead_close hread
  refine ⟨rfl, h, rfl, Or.inr ⟨rfl, l, w, by rw [hgot]⟩, by simp, ?_, rfl, rfl⟩
  rw [← (TcpConnection.handleRead_channel hread).2]
  rfl

theorem Step.retunes (hs : Step v mine a v') : Retunes v mine a v' := by
  cases hs with
  | handledClose _ _ _ _ _ _ hframes => exact .closed _ _ _ _ (closes_handledClose hframes)
  | readMessage _ _ _ _ _ _ _ _ hread => exact .kept (TcpConnection.handleRead_channel hread).2
  | readError _ _ _ _ _ _ _ _ hread => exact .kept (TcpConnection.handleRead_channel hread).2
  | readClose _ _ _ _ _ _ _ hframes hread => exact .closed _ _ _ _ (closes_readClose hframes hread)
  | handledWrite _ _ _ revents todo frames _ _ hframes hwrite =>
      rcases Conn.wrote_handled (x := v.conn.note .handled) hwrite with hsame | ⟨hbit, hclear⟩
      · exact .kept hsame
      · exact .drained revents todo frames hframes rfl hbit hclear
  | disconnected _ _ hframes => exact .disconnected (by simp [hframes]) rfl
  | removed _ _ hframes => exact .removed (Or.inl (by simp [hframes])) rfl
  | runEstablished _ _ _ _ _ _ hrest => exact .established (by simp [View.queue, hrest])
  | runSend p w len rest _ _ hframes hactive hrest hsend =>
      have hchannel := Conn.wrote_send hsend
      split at hchannel
      · rename_i hsets
        exact .sentLater p w len rest rfl rfl hrest hsets hframes hactive hchannel
      · exact .kept hchannel
  | ownSent _ _ _ _ _ _ hstate hsend =>
      have hchannel := Conn.wrote_send hsend
      split at hchannel
      · exact .sent hstate hchannel
      · exact .kept hchannel
  | runDestroyed _ _ _ hframes hactive =>
      unfold destroy
      split
      · exact .kept rfl
      · exact .removed (Or.inr ⟨hframes, hactive⟩) rfl
  | dtorDestroyed _ _ _ _ hframes hactive =>
      unfold destroy
      split
      · exact .kept rfl
      · exact .removed (Or.inr ⟨hframes, hactive⟩) rfl
  | runShutdown => exact .kept (TcpConnection.shutdownInLoop_channel _)
  | ownShut => exact .kept (shutDown_channel _)
  | _ => exact .kept rfl

/-- Only `HandleClose` records that a connection is down. -/
theorem Step.closes (hs : Step v mine a v') :
    (∃ revents handler todo frames, Closes v mine a v' revents handler todo frames) ∨
      v'.conn.log.count .down = v.conn.log.count .down := by
  cases hs with
  | handledClose _ _ _ _ _ _ hframes => exact Or.inl ⟨_, _, _, _, closes_handledClose hframes⟩
  | readClose _ _ _ _ _ _ _ hframes hread =>
      exact Or.inl ⟨_, _, _, _, closes_readClose hframes hread⟩
  | runDestroyed =>
      right
      unfold destroy
      split <;> simp
  | dtorDestroyed =>
      right
      unfold destroy
      split <;> simp
  | _ =>
      right
      simp

theorem Step.destroying_mem (hs : Step v mine a v') (h : .destroying ∈ v'.frames) :
    .destroying ∈ v.frames ∨ v.conn.tcp.state = .kConnected := by
  cases hs with
  | _ => grind

theorem Step.removing_mem (hs : Step v mine a v') (h : .removing ∈ v'.frames) :
    .removing ∈ v.frames ∨ .destroying ∈ v.frames ∧ v'.conn.tcp.state = .kDisconnected := by
  cases hs with
  | disconnected _ _ hframes => exact Or.inr ⟨by simp [hframes], rfl⟩
  | _ =>
      left
      grind

theorem Step.active (hs : Step v mine a v') (h : v'.active ≠ []) :
    v.active ≠ [] ∨ v.conn.tcp.channel.index = EpollPoller.kAdded ∧ v'.conn = v.conn := by
  cases hs with
  | polled _ _ _ _ hindex => exact Or.inr ⟨hindex, rfl⟩
  | dispatched _ _ _ _ hactive => exact Or.inl (by simp [hactive])
  | _ =>
      left
      simpa using h

theorem Step.handling_mem {revents : BitVec 32} {todo : List Channel.Handler}
    (hs : Step v mine a v') (h : .handleEvent revents todo ∈ v'.frames) :
    (∃ todo', todo <:+ todo' ∧ .handleEvent revents todo' ∈ v.frames) ∨
      (v.active ≠ [] ∧ v.frames = [] ∧ v'.conn = v.conn) := by
  cases hs with
  | dispatched _ _ _ hframes hactive => exact Or.inr ⟨by simp [hactive], hframes, rfl⟩
  | _ =>
      left
      grind [List.suffix_cons]

theorem Step.established_mem (hs : Step v mine a v')
    (h : .connectionEstablished ∈ v'.queue) : .connectionEstablished ∈ v.queue := by
  unfold View.queue at h ⊢
  cases hs with
  | _ => simp_all

end Effects

/-! ## Birth -/

structure Unborn (v : View τ) : Prop where
  log : v.conn.log = []
  state : v.conn.tcp.state = .kConnecting
  events : v.conn.tcp.channel.events = 0
  index : v.conn.tcp.channel.index = EpollPoller.kNew
  loop : v.conn.loop ≠ 0
  queue : ∃ tail, v.queue = .connectionEstablished :: tail ∧
    ∀ job ∈ tail, job = .connectionDestroyed
  removals : v.removals = 0
  frames : v.frames = []
  active : v.active = []
  users : v.users = []
  callers : ∀ t, v.callers t = .outside

structure Born (v : View τ) : Prop where
  up : .up ∈ v.conn.log
  state : v.conn.tcp.state ≠ .kConnecting
  queue : .connectionEstablished ∉ v.queue

def Living (v : View τ) : Prop := Unborn v ∨ Born v

/-! Signs that a connection is born. -/

theorem Living.of_state (h : Living v) (hstate : v.conn.tcp.state ≠ .kConnecting) : Born v :=
  h.resolve_left fun hu => hstate hu.state

theorem Living.of_rest {job : Job} {rest : List Job} (h : Living v) (hrest : v.rest = job :: rest)
    (hjob : job ≠ .connectionEstablished) : Born v := by
  refine h.resolve_left fun hu => ?_
  obtain ⟨tail, hqueue, _⟩ := hu.queue
  rw [View.queue, hrest] at hqueue
  exact hjob (List.cons.inj hqueue).1

theorem Living.of_loop (h : Living v) (hloop : v.conn.loop = 0) : Born v :=
  h.resolve_left fun hu => hu.loop hloop

theorem Living.of_frames (h : Living v) (hframes : v.frames ≠ []) : Born v :=
  h.resolve_left fun hu => hframes hu.frames

theorem Start.living (h : Start v) : Living v := by
  cases h with
  | queued fd due tcp io hnew hio hconn hpending hrest _ hremovals hframes hactive _ husers
      hcallers _ =>
      obtain ⟨b, _, rfl⟩ := Option.map_eq_some_iff.1 hnew
      left
      constructor <;> simp [*, View.queue, Channel.new, EpollPoller.kNew]
  | established fd due tcp hnew hconn hpending hrest =>
      right
      constructor <;> simp [*, View.queue]

variable [DecidableEq τ]

/-- An unborn connection waits for its job; everything else needs a call, a pointer
or a state it does not have. -/
theorem Unborn.step (h : Unborn v) (hs : Step v mine a v') : Living v' := by
  obtain ⟨tail, hqueue, htail⟩ := h.queue
  have hstate : v.conn.tcp.state ≠ .kConnected := by simp [h.state]
  have hframes := h.frames
  have hactive := h.active
  have husers := h.users
  have hcallers := h.callers
  cases hs with
  | quiet => exact Or.inl h
  | polled _ _ _ _ hindex =>
      rw [h.index] at hindex
      cases hindex
  | swapped _ _ _ hrest =>
      refine Or.inl { h with queue := ⟨tail, ?_, htail⟩ }
      simpa [View.queue, hrest] using hqueue
  | finished => exact Or.inl { h with }
  | dtorBegun => exact Or.inl { h with }
  | destructed => exact Or.inl { h with }
  | dropped t =>
      refine Or.inl { h with users := ?_ }
      simp [husers]
  | dtorQueued =>
      refine Or.inl { h with queue := ⟨tail ++ [.connectionDestroyed], ?_, ?_⟩ }
      · rw [View.queue, ← List.append_assoc]
        exact congrArg (· ++ [.connectionDestroyed]) hqueue
      · simpa [or_imp, forall_and] using htail
  | runEstablished _ _ _ rest _ _ hrest =>
      have heq : tail = rest ++ v.pending := by
        simpa [View.queue, hrest] using hqueue.symm
      refine Or.inr ⟨by simp, by simp, ?_⟩
      intro hmem
      rw [heq] at htail
      cases htail _ hmem
  | dtorDestroyed _ _ _ hloop => exact absurd hloop h.loop
  | runRemove _ _ _ removals _ hremovals =>
      rw [h.removals] at hremovals
      cases hremovals
  | _ =>
      exfalso
      grind [View.queue]

theorem Born.step (h : Born v) (hs : Step v mine a v') : Born v' := by
  refine ⟨hs.log.subset h.up, ?_, fun hmem => h.queue (hs.established_mem hmem)⟩
  have hstate := h.state
  have hqueue := h.queue
  rcases hs.state with heq | ⟨_, hmem⟩ | ⟨hdown, _⟩ | ⟨hshut, _⟩
  · rw [heq]
    exact hstate
  · exact absurd hmem hqueue
  · simp [hdown]
  · simp [hshut]

theorem Living.step (h : Living v) (hs : Step v mine a v') : Living v' := by
  rcases h with h | h
  · exact h.step hs
  · exact Or.inr (h.step hs)

/-! ## The order of the states -/

/-- `ShutDown` of another thread stores `kDisconnecting` over a state it goes on from. -/
def storesForward (v : View τ) : Action τ → Bool
  | .shutSet _ => v.conn.tcp.state != .kDisconnected
  | _ => true

theorem Step.forward (h : Living v) (hs : Step v mine a v')
    (hguard : mine = true → v.storesForward a = true) :
    rank v.conn.tcp.state ≤ rank v'.conn.tcp.state := by
  rcases hs.state with heq | ⟨hup, hmem⟩ | ⟨hdown, _⟩ | ⟨hshut, hfrom⟩
  · rw [heq]
  · rcases h with h | h
    · rw [h.state]
      exact Nat.zero_le _
    · exact absurd hmem h.queue
  · rw [hdown]
    exact rank_le _
  · rw [hshut]
    rcases hfrom with hstate | ⟨t, c, hmine, rfl, _⟩
    · rw [hstate]
      decide
    · have hstate : v.conn.tcp.state ≠ .kDisconnected := by simpa [storesForward] using hguard hmine
      cases hv : v.conn.tcp.state <;> simp_all [rank]

end View

section Runs

variable [DecidableEq τ] {P : View τ → Action τ → Prop} {s s' : TcpServer τ} {c : Nat} {x x' : Conn}

theorem living_of_reach {guard : TcpServer τ → Action τ → Prop} (h : (machine τ).Reach guard s)
    (hx : s.conns[c]? = some x) : (s.view c x).Living :=
  view_invariant_of (Q := fun _ _ _ => True) (I := View.Living) (fun _ _ _ _ _ _ => trivial)
    (fun _ => View.Start.living) (fun _ _ _ _ hI _ hs => hI.step hs) h hx

/-- Along a run a relation between the views of a connection that every step keeps. -/
theorem view_follows {guard : TcpServer τ → Action τ → Prop}
    {Q : View τ → Bool → Action τ → Prop} {R : Conn → Conn → Prop} (hrefl : ∀ x, R x x)
    (htrans : ∀ x y z, R x y → R y z → R x z)
    (hguard : ∀ s a (c : Nat) x, guard s a → s.conns[c]? = some x →
      Q (s.view c x) (decide (s.subject a = some c)) a)
    (hstep : ∀ v mine a v', View.Living v → Q v mine a → View.Step v mine a v' →
      R v.conn v'.conn)
    (h : (machine τ).Reach guard s) (hf : (machine τ).Follows guard s s')
    (hx : s.conns[c]? = some x) : ∃ x', s'.conns[c]? = some x' ∧ R x x' := by
  induction hf with
  | refl => exact ⟨x, hx, hrefl x⟩
  | @step t t' a hfollows hallowed hs ih =>
      obtain ⟨y, hy, hxy⟩ := ih
      have hreach := h.follows hfollows
      rcases ((sane_of_reach hreach).projects_step (step_of_machine hs)).old c y hy with
        ⟨z, hz, _, hview⟩
      exact ⟨z, hz, htrans x y z hxy
        (hstep _ _ _ _ (living_of_reach hreach hy) (hguard t a c y hallowed hy) hview)⟩

/-- The state of a connection only moves forward in every run in which no `ShutDown`
of another thread stores over `kDisconnected`; such a store does move it back. -/
theorem state_moves_forward
    (h : (machine τ).Reach (Guarded fun v a => v.storesForward a) s)
    (hf : (machine τ).Follows (Guarded fun v a => v.storesForward a) s s') :
    (∀ (c : Nat) x x', s.conns[c]? = some x → s'.conns[c]? = some x' →
      rank x.tcp.state ≤ rank x'.tcp.state) ∧
    ∀ a s'', (machine τ).step s' a = some s'' → ¬ Guarded (fun v a => v.storesForward a) s' a →
      ∃ (c : Nat) (x x' : Conn), s'.conns[c]? = some x ∧ s''.conns[c]? = some x' ∧
        rank x'.tcp.state < rank x.tcp.state := by
  constructor
  · intro c x x' hx hx'
    rcases view_follows (R := fun x y => rank x.tcp.state ≤ rank y.tcp.state) (fun _ => le_rfl)
      (fun _ _ _ => le_trans) (fun _ _ _ _ => Guarded.mine)
      (fun _ _ _ _ hI hguard hs => hs.forward hI hguard) h hf hx with ⟨y, hy, hle⟩
    rw [hx', Option.some.injEq] at hy
    rw [hy]
    exact hle
  · intro a s'' hs hnot
    have hstep := step_of_machine hs
    simp only [Guarded, not_forall] at hnot
    obtain ⟨c, hsubject, x, hx, hbad⟩ := hnot
    cases a with
    | shutSet t =>
        have hstate : x.tcp.state = .kDisconnected := by
          simpa [View.storesForward, view_conn_eq] using hbad
        simp only [TcpServer.step] at hstep
        split at hstep
        · rename_i d hcaller
          have hd : d = c := by simpa [subject, hcaller, Caller.conn] using hsubject
          subst hd
          obtain ⟨y, hy, rfl⟩ := Option.map_eq_some_iff.1 hstep
          have hxy : x = y := Option.some.inj (hx.symm.trans hy)
          subst hxy
          refine ⟨d, x, x.setTcp (x.tcp.setState .kDisconnecting), hx, ?_, ?_⟩
          · change (s'.conns.set d _)[d]? = _
            rw [conns_set hx]
            simp
          · simp [hstate, rank]
        · cases hstep
    | _ => simp [View.storesForward] at hbad

end Runs

def stateOf (s : TcpServer τ) (c : Nat) : Option TcpConnection.State :=
  s.conns[c]?.map fun x => x.tcp.state

def logOf (s : TcpServer τ) (c : Nat) : Option (List Event) := s.conns[c]?.map fun x => x.log

def noBytes : Payload := ⟨[], by decide⟩

/-- The main loop accepts the descriptor 7, up to the callback of the new connection. -/
def accepting : List (Action Nat) :=
  [.loop 0 .enterLoop, .loop 0 .resetQuit, .loop 0 .testQuit, .loop 0 .startPolling,
    .poll 0 false [.acceptor], .accept 7]

def polling : List (Action Nat) :=
  [.resume 0, .resume 0, .loop 0 .doPendingFunctors, .loop 0 .swapFunctors,
    .loop 0 .finishFunctors, .loop 0 .testQuit, .loop 0 .startPolling]

def hangingUp : List (Action Nat) :=
  [.poll 0 false [.channel 0 Channel.POLLHUP], .dispatch 0, .handle 0 (.failed 0) (.wrote 0)]

/-- `HandleClose` returns on the main loop, and `ConnectionDestroyed` runs in the same
iteration. -/
def destroying : List (Action Nat) :=
  [.resume 0, .resume 0, .resume 0, .resume 0, .loop 0 .doPendingFunctors, .loop 0 .swapFunctors,
    .runFunctor 0 noBytes (.wrote 0)]

/-- Another thread's `ShutDown` has stored `kDisconnecting`: its functor runs, and then the
peer hangs up. -/
def shutElsewhere : List (Action Nat) :=
  [.shutQueue 1, .resume 0, .resume 0, .loop 0 .doPendingFunctors, .loop 0 .swapFunctors,
    .runFunctor 0 noBytes (.wrote 0), .loop 0 .finishFunctors, .loop 0 .testQuit,
    .loop 0 .startPolling] ++ hangingUp

theorem state_moves_forward_to_disconnected :
    ∃ (s s' s'' : TcpServer Nat) (x x' x'' : Conn),
      s.conns[0]? = some x ∧ s'.conns[0]? = some x' ∧ s''.conns[0]? = some x'' ∧
      x.tcp.state = .kConnected ∧ x'.tcp.state = .kDisconnecting ∧
      x''.tcp.state = .kDisconnected ∧
      rank x.tcp.state ≤ rank x'.tcp.state ∧ rank x'.tcp.state ≤ rank x''.tcp.state := by
  rcases Machine.Reach.of_test (machine Nat) (Guarded fun v a => v.storesForward a)
      (fun s => s.stateOf 0 == some .kConnected &&
        ((machine Nat).runGuarded (Guarded fun v a => v.storesForward a) s
          [.shutSet 1]).any fun s' => s'.stateOf 0 == some .kDisconnecting &&
            ((machine Nat).runGuarded (Guarded fun v a => v.storesForward a) s'
              shutElsewhere).any fun s'' => s''.stateOf 0 == some .kDisconnected)
      (accepting ++ [.obtain 1 0, .shutCheck 1 0]) (.start (new_initial 0 false))
      (by decide +kernel) with ⟨s, hreach, htest⟩
  rw [Bool.and_eq_true, beq_iff_eq] at htest
  obtain ⟨x, hx, hstate⟩ := Option.map_eq_some_iff.1 htest.1
  obtain ⟨s', hf, htest'⟩ := Machine.Follows.of_test _ _ _ _ htest.2
  rw [Bool.and_eq_true, beq_iff_eq] at htest'
  obtain ⟨x', hx', hstate'⟩ := Option.map_eq_some_iff.1 htest'.1
  obtain ⟨s'', hf', hlast⟩ := Machine.Follows.of_test _ _ _ _ htest'.2
  obtain ⟨x'', hx'', hstate''⟩ := Option.map_eq_some_iff.1 (beq_iff_eq.1 hlast)
  exact ⟨s, s', s'', x, x', x'', hx, hx', hx'', hstate, hstate', hstate'',
    (state_moves_forward hreach hf).1 0 x x' hx hx',
    (state_moves_forward (hreach.follows hf) hf').1 0 x' x'' hx' hx''⟩

/-- `ShutDown` finds `kConnected` on its own thread, `HandleClose` runs on the loop,
and the store takes the state back to `kDisconnecting`. -/
theorem state_moves_back : ¬ ∀ (s s' : TcpServer Nat) (c : Nat) (x x' : Conn),
    (machine Nat).Reach (fun _ _ => True) s → (machine Nat).Follows (fun _ _ => True) s s' →
      s.conns[c]? = some x → s'.conns[c]? = some x' →
        rank x.tcp.state ≤ rank x'.tcp.state := by
  intro hclaim
  rcases Machine.Reach.of_test (machine Nat) (fun _ _ => True)
      (fun s => s.stateOf 0 == some .kDisconnected &&
        ((machine Nat).step s (.shutSet 1)).any fun s' => s'.stateOf 0 == some .kDisconnecting)
      (accepting ++ [.obtain 1 0, .shutCheck 1 0] ++ polling ++ hangingUp)
      (.start (new_initial 0 false)) (by decide +kernel) with ⟨s, hreach, htest⟩
  rw [Bool.and_eq_true, beq_iff_eq] at htest
  obtain ⟨x, hx, hstate⟩ := Option.map_eq_some_iff.1 htest.1
  obtain ⟨s', hs, hlast⟩ := (Option.any_eq_true ..).1 htest.2
  obtain ⟨x', hx', hstate'⟩ := Option.map_eq_some_iff.1 (beq_iff_eq.1 hlast)
  have hle := hclaim s s' 0 x x' hreach (.step .refl trivial hs) hx hx'
  rw [hstate, hstate'] at hle
  exact absurd hle (by decide)

end MyNetLib.TcpServer
