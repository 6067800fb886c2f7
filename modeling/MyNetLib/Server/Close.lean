import MyNetLib.Server.Dispatch

/-! # Close is final

`HandleClose` disables every event, which takes the channel out of the epoll set for
good unless a send puts it back. What is left is the dispatch it was called from: it
may go on to `HandleRead`.
-/

namespace MyNetLib

namespace Channel

variable {revents : BitVec 32} {todo : List Handler}

/-- The handlers that follow one another in a dispatch. -/
theorem handleEventWithGuard_order (revents : BitVec 32) :
    (.close ∈ handleEventWithGuard revents → hangsUp revents = true) ∧
      (handleEventWithGuard revents).Pairwise
        (fun h h' => h' ≠ .close ∧ (h = .read → h' ≠ .read) ∧ h ≠ .write) := by
  unfold handleEventWithGuard
  cases hangsUp revents <;> cases (revents &&& POLLERR != 0#32) <;>
    cases (revents &&& (POLLIN ||| POLLPRI) != 0#32) <;> cases (revents &&& POLLOUT != 0#32) <;>
    decide

theorem close_suffix (h : .close :: todo <:+ handleEventWithGuard revents) :
    hangsUp revents = true ∧ .close ∉ todo := by
  obtain ⟨hclose, horder⟩ := handleEventWithGuard_order revents
  have htodo := (horder.sublist h.sublist)
  rw [List.pairwise_cons] at htodo
  exact ⟨hclose (h.subset List.mem_cons_self), fun hmem => (htodo.1 _ hmem).1 rfl⟩

theorem read_suffix (h : .read :: todo <:+ handleEventWithGuard revents) :
    .close ∉ todo ∧ .read ∉ todo := by
  have htodo := (handleEventWithGuard_order revents).2.sublist h.sublist
  rw [List.pairwise_cons] at htodo
  exact ⟨fun hmem => (htodo.1 _ hmem).1 rfl, fun hmem => (htodo.1 _ hmem).2.1 rfl rfl⟩

theorem write_suffix (h : .write :: todo <:+ handleEventWithGuard revents) : todo = [] := by
  have htodo := (handleEventWithGuard_order revents).2.sublist h.sublist
  rw [List.pairwise_cons] at htodo
  exact List.eq_nil_iff_forall_not_mem.2 fun handler hmem => (htodo.1 handler hmem).2.2 rfl

theorem updatedIndex_enableWrite {c : Channel} (h : c.index = EpollPoller.kAdded) :
    EpollPoller.updatedIndex c.enableWrite = EpollPoller.kAdded := by
  have hbit : c.enableWrite.isNoneEvent = false := by
    have hwriting := isWriting_enableWrite c
    by_contra hnone
    have hzero : c.enableWrite.events = 0#32 := by simpa [isNoneEvent, kNoneEvent] using hnone
    simp [isWriting, hzero] at hwriting
  have hindex : c.enableWrite.index = EpollPoller.kAdded := h
  simp [EpollPoller.updatedIndex, hindex, hbit, EpollPoller.kAdded, EpollPoller.kNew,
    EpollPoller.kDeleted]

theorem updatedIndex_disableAll {c : Channel} (h : c.index = EpollPoller.kAdded) :
    EpollPoller.updatedIndex c.disableAll = EpollPoller.kDeleted := by
  have hindex : c.disableAll.index = EpollPoller.kAdded := h
  have hnone : c.disableAll.isNoneEvent = true := rfl
  simp [EpollPoller.updatedIndex, hindex, hnone, EpollPoller.kAdded, EpollPoller.kNew,
    EpollPoller.kDeleted]

end Channel

namespace TcpServer

open Library

variable {τ : Type}

/-- The message callback comes before every callback that announces the end. -/
def MessageFirst (before : List Event) : Event → Prop
  | .message => .down ∉ before ∧ .close ∉ before
  | _ => True

namespace View

variable {v v' : View τ} {mine : Bool} {a : Action τ}

/-- A dispatch that has closed the connection does not read from it any more, and no
send sets the write bit of a closed connection. -/
def closesForGood (v : View τ) : Action τ → Bool
  | .handle _ r _ =>
      match v.frames with
      | .handleEvent revents (.read :: _) :: _ => !(Channel.hangsUp revents && succeeds r)
      | _ => true
  | .runFunctor l p w =>
      match v.rest with
      | .sendInLoop _ :: _ =>
          !(l == v.conn.loop && v.conn.log.contains .down && v.conn.tcp.enablesWrite p w)
      | _ => true
  | _ => true

structure Closed (v : View τ) : Prop where
  index : v.conn.tcp.channel.index ≠ EpollPoller.kAdded
  events : v.conn.tcp.channel.events = 0
  state : v.conn.tcp.state ≠ .kConnected
  frames : .destroying ∉ v.frames
  handlers : ∀ revents todo, .handleEvent revents todo ∈ v.frames →
    .close ∉ todo ∧ (.read ∈ todo → Channel.hangsUp revents = true)

/-- Before `HandleClose`: what can still lead to it has the channel in the epoll set. -/
structure Open (v : View τ) : Prop where
  active : v.active ≠ [] → v.conn.tcp.channel.index = EpollPoller.kAdded
  handlers : ∀ revents todo, .handleEvent revents todo ∈ v.frames → .close ∈ todo ∨ .read ∈ todo →
    v.conn.tcp.channel.index = EpollPoller.kAdded

structure Final (v : View τ) : Prop where
  opened : .down ∉ v.conn.log → Open v
  closed : .down ∈ v.conn.log → Closed v ∧ v.active = []
  count : v.conn.log.count .down = v.frames.count .closing + v.conn.log.count .close
  once : v.conn.log.count .down ≤ 1
  history : Always MessageFirst v.conn.log

theorem Start.final (h : Start v) : Final v := by
  cases h with
  | queued fd due tcp io hnew hio hconn _ _ _ _ hframes hactive =>
      refine ⟨fun _ => ⟨?_, ?_⟩, ?_, ?_, ?_, ?_⟩ <;> simp [hconn, hframes, hactive, Always.nil]
  | established fd due tcp hnew hconn _ _ _ _ hframes hactive =>
      refine ⟨fun _ => ⟨?_, ?_⟩, ?_, ?_, ?_, ?_⟩
      · simp [hactive]
      · simp [hframes]
      · simp [hconn]
      · simp [hconn, hframes]
      · simp [hconn]
      · rw [hconn]
        exact Always.nil.concat trivial

variable [DecidableEq τ]

/-- Apart from `HandleClose`, a close callback is made by a call that waited for it. -/
theorem Step.close_count (hs : Step v mine a v') :
    (∃ revents handler todo frames, Closes v mine a v' revents handler todo frames) ∨
      v'.frames.count .closing + v'.conn.log.count .close =
        v.frames.count .closing + v.conn.log.count .close := by
  cases hs with
  | handledClose _ _ _ _ _ _ hframes => exact Or.inl ⟨_, _, _, _, closes_handledClose hframes⟩
  | readClose _ _ _ _ _ _ _ hframes hread =>
      exact Or.inl ⟨_, _, _, _, closes_readClose hframes hread⟩
  | closeQueued _ _ hframes =>
      right
      simp [hframes]
      omega
  | closeRemoved _ _ hframes =>
      right
      simp [hframes]
      omega
  | runSend _ _ _ _ _ due hframes =>
      right
      cases due <;> simp [hframes]
  | ownSent _ _ _ _ _ due =>
      right
      cases due <;> simp
  | runDestroyed =>
      right
      unfold destroy
      split <;> simp
  | dtorDestroyed =>
      right
      unfold destroy
      split <;> simp
  | _ =>
      right
      simp [*]

omit [DecidableEq τ] in
theorem Closed.not_closes {revents : BitVec 32} {handler : Channel.Handler}
    {todo : List Channel.Handler} {frames : List Call} (h : Closed v)
    (hclose : Closes v mine a v' revents handler todo frames)
    (hguard : mine = true → v.closesForGood a = true) : False := by
  have hmem : .handleEvent revents (handler :: todo) ∈ v.frames := by
    rw [hclose.before]
    exact List.mem_cons_self
  have hhandlers := h.handlers _ _ hmem
  rcases hclose.handler with rfl | ⟨rfl, l, w, rfl⟩
  · exact hhandlers.1 List.mem_cons_self
  · have hfree := hguard hclose.mine
    simp [closesForGood, hclose.before, succeeds, hhandlers.2 List.mem_cons_self] at hfree

/-- A closed connection stays closed: a dispatch under way has no handler left that
could close or read it again, and no send brings its channel back. -/
theorem Closed.step (h : Closed v) (hdown : .down ∈ v.conn.log) (hactive : v.active = [])
    (hborn : Born v) (hs : Step v mine a v') (hguard : mine = true → v.closesForGood a = true) :
    Closed v' ∧ v'.active = [] := by
  have hkept : v'.conn.tcp.channel.index ≠ EpollPoller.kAdded ∧
      v'.conn.tcp.channel.events = 0 := by
    cases hs.retunes with
    | kept hch =>
        rw [hch]
        exact ⟨h.index, h.events⟩
    | established hmem => exact absurd hmem hborn.queue
    | closed revents handler todo frames hclose =>
        exact (h.not_closes hclose hguard).elim
    | disconnected hmem => exact absurd hmem h.frames
    | removed _ hch =>
        rw [hch]
        exact ⟨by simp [EpollPoller.kNew, EpollPoller.kAdded], h.events⟩
    | sent hstate => exact absurd hstate h.state
    | sentLater p w len rest hmine ha hrest hsets =>
        have hfree := hguard hmine
        simp [closesForGood, ha, hrest, hsets, hdown] at hfree
    | drained _ _ _ _ _ hbit =>
        have hevents := h.events
        simp [TcpConnection.isWriting, Channel.isWriting, hevents] at hbit
  refine ⟨⟨hkept.1, hkept.2, ?_, ?_, ?_⟩, ?_⟩
  · rcases hs.state with heq | ⟨_, hmem⟩ | ⟨hoff, _⟩ | ⟨hshut, _⟩
    · rw [heq]
      exact h.state
    · exact absurd hmem hborn.queue
    · simp [hoff]
    · simp [hshut]
  · intro hmem
    rcases hs.destroying_mem hmem with hold | hstate
    · exact h.frames hold
    · exact h.state hstate
  · intro revents todo hmem
    rcases hs.handling_mem hmem with ⟨todo', hsuffix, hold⟩ | ⟨hready, _, _⟩
    · have hhandlers := h.handlers revents todo' hold
      exact ⟨fun hclose => hhandlers.1 (hsuffix.subset hclose),
        fun hread => hhandlers.2 (hsuffix.subset hread)⟩
    · exact absurd hactive hready
  · by_contra hready
    rcases hs.active hready with hold | ⟨hadded, _⟩
    · exact hold hactive
    · exact h.index hadded

omit [DecidableEq τ] in
theorem Open.closes {revents : BitVec 32} {handler : Channel.Handler}
    {todo : List Channel.Handler} {frames : List Call} (h : Open v) (hd : Dispatch v)
    (hclose : Closes v mine a v' revents handler todo frames) : Closed v' ∧ v'.active = [] := by
  have hmem : .handleEvent revents (handler :: todo) ∈ v.frames := by
    rw [hclose.before]
    exact List.mem_cons_self
  have hbottom : frames = [] := by
    have hold := hd.bottom
    rw [hclose.before] at hold
    exact hold
  have hsuffix := hd.suffix _ _ hmem
  have hindex : v.conn.tcp.channel.index = EpollPoller.kAdded := by
    apply h.handlers _ _ hmem
    rcases hclose.handler with rfl | ⟨rfl, _⟩
    · exact Or.inl List.mem_cons_self
    · exact Or.inr List.mem_cons_self
  have hnone := hd.idle _ _ hmem
  refine ⟨⟨?_, ?_, by simp [hclose.state], ?_, ?_⟩, by rw [hclose.active, hnone]⟩
  · rw [hclose.channel]
    simp [Channel.updatedIndex_disableAll hindex, EpollPoller.kDeleted, EpollPoller.kAdded]
  · rw [hclose.channel]
    rfl
  · rw [hclose.after, hbottom]
    simp
  · intro revents' todo' hmem'
    rw [hclose.after, hbottom] at hmem'
    have heq : revents' = revents ∧ todo' = todo := by simpa using hmem'
    rw [heq.1, heq.2]
    rcases hclose.handler with rfl | ⟨rfl, _⟩
    · exact ⟨(Channel.close_suffix hsuffix).2, fun _ => (Channel.close_suffix hsuffix).1⟩
    · have hread := Channel.read_suffix hsuffix
      exact ⟨hread.1, fun hmem'' => absurd hmem'' hread.2⟩

/-- An open connection that does not close keeps its channel where it is as long as
there is something to dispatch. -/
theorem Open.step (h : Open v) (hlive : Living v) (hd : Dispatch v) (hs : Step v mine a v')
    (hdown : .down ∉ v'.conn.log) : Open v' := by
  have hindex : v.conn.tcp.channel.index = EpollPoller.kAdded →
      v.active ≠ [] ∨ (∃ revents todo, .handleEvent revents todo ∈ v.frames) →
      v'.conn.tcp.channel.index = EpollPoller.kAdded ∨
        ∃ revents, v'.frames = [.handleEvent revents []] ∧ v'.active = [] := by
    intro hadded hbusy
    have hdestroying : ¬ (.destroying ∈ v.frames ∨ .removing ∈ v.frames) := by
      intro hmem
      rcases hbusy with hready | ⟨revents, todo, hmem'⟩
      · exact hready (hd.destroying hmem).1
      · exact (hd.destroying hmem).2 _ _ hmem'
    have hfree : ¬ (v.frames = [] ∧ v.active = []) := by
      rintro ⟨hframes, hactive⟩
      rcases hbusy with hready | ⟨revents, todo, hmem'⟩
      · exact hready hactive
      · rw [hframes] at hmem'
        cases hmem'
    cases hs.retunes with
    | kept hch =>
        rw [hch]
        exact Or.inl hadded
    | established hmem =>
        rcases hlive with hunborn | hborn
        · rw [hunborn.index] at hadded
          cases hadded
        · exact absurd hmem hborn.queue
    | closed revents handler todo frames hclose => exact absurd (by simp [hclose.log]) hdown
    | disconnected hmem => exact absurd (Or.inl hmem) hdestroying
    | removed hwhen =>
        rcases hwhen with hmem | hidle
        · exact absurd (Or.inr hmem) hdestroying
        · exact absurd hidle hfree
    | sent _ hch =>
        rw [hch]
        exact Or.inl (Channel.updatedIndex_enableWrite hadded)
    | sentLater _ _ _ _ _ _ _ _ hframes hactive => exact absurd ⟨hframes, hactive⟩ hfree
    | drained revents todo frames hframes hframes' =>
        have hmem : .handleEvent revents (.write :: todo) ∈ v.frames := by
          rw [hframes]
          exact List.mem_cons_self
        have hlast := Channel.write_suffix (hd.suffix _ _ hmem)
        have hbottom : frames = [] := by
          have hold := hd.bottom
          rw [hframes] at hold
          exact hold
        have hidle := (hd.step hs).idle revents todo (by rw [hframes']; exact List.mem_cons_self)
        exact Or.inr ⟨revents, by rw [hframes', hlast, hbottom], hidle⟩
  constructor
  · intro hready
    rcases hs.active hready with hold | ⟨hadded, heq⟩
    · rcases hindex (h.active hold) (Or.inl hold) with hdone | ⟨_, _, hnone⟩
      · exact hdone
      · exact absurd hnone hready
    · rw [heq]
      exact hadded
  · intro revents todo hmem htodo
    rcases hs.handling_mem hmem with ⟨todo', hsuffix, hold⟩ | ⟨hready, _, heq⟩
    · have hadded := h.handlers revents todo' hold
        (htodo.imp (fun hm => hsuffix.subset hm) fun hm => hsuffix.subset hm)
      rcases hindex hadded (Or.inr ⟨_, _, hold⟩) with hdone | ⟨revents', hlast, _⟩
      · exact hdone
      · rw [hlast] at hmem
        have hnil : revents = revents' ∧ todo = [] := by simpa using hmem
        simp [hnil.2] at htodo
    · rw [heq]
      exact h.active hready

theorem Final.message (h : Final v) (hs : Step v mine a v')
    (hguard : mine = true → v.closesForGood a = true) : Always MessageFirst v'.conn.log := by
  have hhistory := h.history
  cases hs with
  | readMessage l r w revents todo frames tcp hframes hread =>
      have hgot : succeeds r = true := by
        cases r with
        | failed e => cases hread
        | received data => rfl
      have hopen : .down ∉ v.conn.log := by
        intro hdown
        have hmem : .handleEvent revents (.read :: todo) ∈ v.frames := by
          rw [hframes]
          exact List.mem_cons_self
        have hhangs := ((h.closed hdown).1.handlers _ _ hmem).2 List.mem_cons_self
        have hfree := hguard rfl
        simp [closesForGood, hframes, hgot, hhangs] at hfree
      have hclose : .close ∉ v.conn.log := by
        have hcount := h.count
        rw [List.count_eq_zero.2 hopen] at hcount
        exact List.count_eq_zero.1 (by omega)
      simp [hhistory, MessageFirst, hopen, hclose]
  | runDestroyed =>
      unfold destroy
      split <;> simp [hhistory, MessageFirst]
  | dtorDestroyed =>
      unfold destroy
      split <;> simp [hhistory, MessageFirst]
  | _ => simp [hhistory, MessageFirst]

theorem Final.step (h : Final v) (hlive : Living v) (hd : Dispatch v) (hs : Step v mine a v')
    (hguard : mine = true → v.closesForGood a = true) : Final v' := by
  have hborn : .down ∈ v.conn.log → Born v := by
    intro hdown
    refine hlive.resolve_left fun hunborn => ?_
    rw [hunborn.log] at hdown
    cases hdown
  have hcount := h.count
  by_cases hcloses : ∃ revents handler todo frames, Closes v mine a v' revents handler todo frames
  · obtain ⟨revents, handler, todo, frames, hclose⟩ := hcloses
    have hopen : .down ∉ v.conn.log := fun hdown => (h.closed hdown).1.not_closes hclose hguard
    have hfirst := List.count_eq_zero.2 hopen
    refine ⟨fun hnot => absurd (by simp [hclose.log]) hnot,
      fun _ => (h.opened hopen).closes hd hclose, ?_, ?_, h.message hs hguard⟩
    · rw [hclose.before] at hcount
      simp [hclose.log, hclose.after] at hcount ⊢
      omega
    · simp [hclose.log, hfirst]
  · have hkept := hs.closes.resolve_left hcloses
    have hclose := hs.close_count.resolve_left hcloses
    have hmem : .down ∈ v'.conn.log ↔ .down ∈ v.conn.log := by
      rw [← List.count_pos_iff, ← List.count_pos_iff, hkept]
    refine ⟨fun hnot => (h.opened fun hdown => hnot (hmem.2 hdown)).step hlive hd hs hnot, ?_,
      by omega, by rw [hkept]; exact h.once, h.message hs hguard⟩
    intro hdown
    have hclosed := h.closed (hmem.1 hdown)
    exact hclosed.1.step (hmem.1 hdown) hclosed.2 (hborn (hmem.1 hdown)) hs hguard

end View

variable [DecidableEq τ]

/-- `HandleClose` announces the end of a connection once and no message follows it, in
every run in which no dispatch reads what it has just closed and no send sets the
write bit of a closed connection. -/
theorem close_once_and_last {s : TcpServer τ} {c : Nat} {x : Conn}
    (h : (machine τ).Reach (Guarded fun v a => v.closesForGood a) s) (hx : s.conns[c]? = some x) :
    x.log.count .down ≤ 1 ∧ x.log.count .close ≤ 1 ∧
      ∀ before after, x.log = before ++ .message :: after → .down ∉ before ∧ .close ∉ before := by
  have hinv := view_invariant (I := fun v => v.Living ∧ v.Dispatch ∧ v.Final)
    (fun _ hs => ⟨hs.living, hs.dispatch, hs.final⟩)
    (fun _ _ _ _ hI hguard hs =>
      ⟨hI.1.step hs, hI.2.1.step hs, hI.2.2.step hI.1 hI.2.1 hs hguard⟩) h hx
  have hcount : x.log.count .down = (s.view c x).frames.count .closing + x.log.count .close :=
    hinv.2.2.count
  have honce : x.log.count .down ≤ 1 := hinv.2.2.once
  exact ⟨honce, by omega, fun before after hlog => hinv.2.2.history before _ after hlog⟩

theorem close_once_and_last_hangup : ∃ (s : TcpServer Nat) (x : Conn), s.conns[0]? = some x ∧
    .message ∈ x.log ∧ .down ∈ x.log ∧ x.log.count .down ≤ 1 ∧ x.log.count .close ≤ 1 ∧
      ∀ before after, x.log = before ++ .message :: after → .down ∉ before ∧ .close ∉ before := by
  rcases Machine.Reach.of_test (machine Nat) (Guarded fun v a => v.closesForGood a)
      (fun s =>
        s.logOf 0 == some [.up, .established, .handled, .message, .handled, .down])
      (accepting ++ polling ++
        [.poll 0 false [.channel 0 Channel.POLLIN], .dispatch 0,
          .handle 0 (.received [65]) (.wrote 0)] ++ polling ++ hangingUp)
      (.start (new_initial 0 false)) (by decide +kernel) with
    ⟨s, hreach, htest⟩
  obtain ⟨x, hx, hlog⟩ := Option.map_eq_some_iff.1 (beq_iff_eq.1 htest)
  exact ⟨s, x, hx, by rw [hlog]; decide, by rw [hlog]; decide, close_once_and_last hreach hx⟩

/-- The poll reports `POLLHUP` and `POLLPRI` together: the dispatch runs `HandleClose`
and then `HandleRead`, which still finds data. -/
theorem message_after_close : ¬ ∀ (s : TcpServer Nat) (c : Nat) (x : Conn),
    (machine Nat).Reach (fun _ _ => True) s → s.conns[c]? = some x →
      x.log.count .down ≤ 1 ∧ x.log.count .close ≤ 1 ∧
        ∀ before after, x.log = before ++ .message :: after →
          .down ∉ before ∧ .close ∉ before := by
  intro hclaim
  rcases Machine.Reach.of_test (machine Nat) (fun _ _ => True)
      (fun s => s.logOf 0 == some ([.up, .established, .handled, .down, .close, .removed,
        .closeReturned, .handled] ++ [.message]))
      (accepting ++ polling ++ [.poll 0 false [.channel 0 (Channel.POLLHUP ||| Channel.POLLPRI)],
        .dispatch 0, .handle 0 (.failed 0) (.wrote 0), .resume 0, .resume 0, .resume 0,
        .handle 0 (.received [65]) (.wrote 0)])
      (.start (new_initial 0 false)) (by decide +kernel) with ⟨s, hreach, htest⟩
  obtain ⟨x, hx, hlog⟩ := Option.map_eq_some_iff.1 (beq_iff_eq.1 htest)
  have hfirst := (hclaim s 0 x hreach hx).2.2 _ [] hlog
  exact absurd hfirst.1 (by decide)

end TcpServer

end MyNetLib
