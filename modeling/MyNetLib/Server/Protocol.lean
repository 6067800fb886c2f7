import MyNetLib.Server.Close
import MyNetLib.Server.Ownership

/-! # The protocol between the main loop and the loop of a connection

A connection is accepted on the main loop, established on its own, closed there,
removed on the main loop and destroyed on its own. Each hop is a functor or a call
that the one before it leaves behind, so counting them gives the order.
-/

namespace MyNetLib.TcpServer

open Library

variable {τ : Type}

/-- A handler runs after `ConnectionEstablished`, and `ConnectionDestroyed` once, on the
loop of the connection, after `HandleClose` and the removal from the map. -/
def Ordered (loop : Nat) (before : List Event) : Event → Prop
  | .handled => .established ∈ before
  | .destroying l => l = loop ∧ .closeReturned ∈ before ∧ .removed ∈ before ∧
      ∀ m, .destroying m ∉ before
  | _ => True

def Event.starts : Event → Bool
  | .destroying _ => true
  | _ => false

/-- The server lives on, and no other thread calls `ShutDown`. -/
def undisturbed : Action τ → Bool
  | .dtorBegin | .shutCheck _ _ => false
  | _ => true

namespace View

variable {v v' : View τ} {mine : Bool} {a : Action τ}

/-- `HandleClose` is not called on a connection that is down. -/
def closesOnce (v : View τ) : Action τ → Bool
  | .handle _ r _ =>
      match v.frames with
      | .handleEvent _ (.close :: _) :: _ => !v.conn.log.contains .down
      | .handleEvent _ (.read :: _) :: _ => r != .received [] || !v.conn.log.contains .down
      | _ => true
  | _ => true

structure Protocol (v : View τ) : Prop where
  alive : v.alive = true
  callers : ∀ t c, v.callers t ≠ .shutSet c
  state : .down ∈ v.conn.log → v.conn.tcp.state = .kDisconnected
  once : v.conn.log.count .down ≤ 1
  downs : v.conn.log.count .down = v.frames.count .closing + v.conn.log.count .close
  closes : v.conn.log.count .close = v.removals + v.conn.log.count .removed
  returns : v.conn.log.count .close = v.frames.count .closed + v.conn.log.count .closeReturned
  destroys : v.conn.log.count .removed =
    v.queue.count .connectionDestroyed + v.conn.log.countP Event.starts
  begun : v.conn.gone = true ∨ .destroying ∈ v.frames ∨ .removing ∈ v.frames →
    0 < v.conn.log.countP Event.starts
  mapped : v.inMap = true ↔ .removed ∉ v.conn.log
  established : .up ∈ v.conn.log → .established ∈ v.conn.log ∨ .establishing ∈ v.frames
  handling : ∀ revents todo, .handleEvent revents todo ∈ v.frames → .established ∈ v.conn.log
  history : Always (Ordered v.conn.loop) v.conn.log

theorem Start.protocol (h : Start v) : Protocol v := by
  cases h with
  | queued _ _ _ _ _ _ hconn hpending hrest _ hremovals hframes _ hmap _ hcallers halive =>
      constructor <;>
        simp [hconn, hpending, hrest, hremovals, hframes, hmap, hcallers, halive, View.queue,
          Conn.gone, Always.nil]
  | established _ _ _ _ hconn hpending hrest _ hremovals hframes _ hmap _ hcallers halive =>
      constructor
      case history =>
        rw [hconn]
        exact Always.nil.concat trivial
      all_goals
        simp [hconn, hpending, hrest, hremovals, hframes, hmap, hcallers, halive, View.queue,
          Conn.gone, Event.starts]

variable [DecidableEq τ]

/-! ## What one step does to each count -/

theorem Protocol.alive_step (h : Protocol v) (hs : Step v mine a v')
    (hquiet : undisturbed a = true) : v'.alive = true := by
  have halive := h.alive
  cases hs with
  | dtorBegun => cases hquiet
  | dtorQueued _ hdead =>
      rw [halive] at hdead
      cases hdead
  | dtorDestroyed _ hdead =>
      rw [halive] at hdead
      cases hdead
  | runDestroyed =>
      unfold destroy
      split <;> exact halive
  | _ => exact halive

theorem Protocol.callers_step (h : Protocol v) (hs : Step v mine a v')
    (hquiet : undisturbed a = true) (t : τ) (c : Nat) : v'.callers t ≠ .shutSet c := by
  have hset : ∀ (u : τ) (caller : Caller), caller ≠ .shutSet c →
      Function.update v.callers u caller t ≠ .shutSet c := by
    intro u caller hne
    by_cases hu : t = u
    · subst hu
      simpa using hne
    · simpa [hu] using h.callers t c
  cases hs with
  | shutChecked => cases hquiet
  | sendChecked u d len => exact hset u _ (by simp)
  | sendQueued u => exact hset u _ (by simp)
  | shutStored u => exact hset u _ (by simp)
  | shutQueued u => exact hset u _ (by simp)
  | runDestroyed => simpa using h.callers t c
  | dtorDestroyed => simpa using h.callers t c
  | _ => exact h.callers t c

theorem Protocol.closes_step (h : Protocol v) (hs : Step v mine a v') :
    v'.conn.log.count .close = v'.removals + v'.conn.log.count .removed := by
  have hold := h.closes
  cases hs with
  | closeQueued =>
      simp
      omega
  | closeRemoved =>
      simp
      omega
  | runRemove _ _ _ removals _ hremovals =>
      simp
      omega
  | runDestroyed =>
      unfold destroy
      split <;> simpa using hold
  | dtorDestroyed =>
      unfold destroy
      split <;> simpa using hold
  | _ => simpa using hold

theorem Protocol.returns_step (h : Protocol v) (hs : Step v mine a v') :
    v'.conn.log.count .close =
      v'.frames.count .closed + v'.conn.log.count .closeReturned := by
  have hold := h.returns
  cases hs with
  | closeQueued _ _ hframes =>
      simp [hframes] at hold ⊢
      omega
  | closeRemoved _ _ hframes =>
      simp [hframes] at hold ⊢
      omega
  | closeReturned _ _ hframes =>
      simp [hframes] at hold ⊢
      omega
  | runSend _ _ _ _ _ due hframes => cases due <;> simpa [hframes] using hold
  | ownSent _ _ _ _ _ due => cases due <;> simpa using hold
  | runDestroyed =>
      unfold destroy
      split <;> simpa using hold
  | dtorDestroyed =>
      unfold destroy
      split <;> simpa using hold
  | _ => simp_all

theorem Protocol.destroys_step (h : Protocol v) (hs : Step v mine a v') :
    v'.conn.log.count .removed =
      v'.queue.count .connectionDestroyed + v'.conn.log.countP Event.starts := by
  have hold := h.destroys
  have halive := h.alive
  unfold View.queue at hold ⊢
  cases hs with
  | swapped _ _ _ hrest => simpa [hrest, Event.starts] using hold
  | closeRemoved =>
      simp [Event.starts] at hold ⊢
      omega
  | runRemove =>
      simp [Event.starts] at hold ⊢
      omega
  | runDestroyed _ _ rest _ _ hrest =>
      unfold destroy
      rw [hrest] at hold
      split <;> simp [Event.starts, List.countP_cons] at hold ⊢ <;> omega
  | dtorQueued _ hdead =>
      rw [halive] at hdead
      cases hdead
  | dtorDestroyed _ hdead =>
      rw [halive] at hdead
      cases hdead
  | handledWrite _ _ _ _ _ _ _ due => cases due <;> simpa [Event.starts] using hold
  | _ => simp_all [Event.starts]

theorem Protocol.begun_step (h : Protocol v) (hs : Step v mine a v')
    (hdone : v'.conn.gone = true ∨ .destroying ∈ v'.frames ∨ .removing ∈ v'.frames) :
    0 < v'.conn.log.countP Event.starts := by
  have hold := h.begun
  cases hs with
  | removed _ _ hframes =>
      have hstarts := hold (Or.inr (Or.inr (by simp [hframes])))
      simp [Event.starts] at hstarts ⊢
      exact hstarts
  | disconnected _ _ hframes =>
      have hstarts := hold (Or.inr (Or.inl (by simp [hframes])))
      simp [Event.starts] at hstarts ⊢
      exact hstarts
  | runDestroyed =>
      unfold destroy
      split <;> simp [Event.starts]
  | dtorDestroyed =>
      unfold destroy
      split <;> simp [Event.starts]
  | runSend _ _ _ _ _ due hframes => cases due <;> simp_all
  | ownSent _ _ _ _ _ due => cases due <;> simp_all
  | _ =>
      have hbefore : v.conn.gone = true ∨ .destroying ∈ v.frames ∨ .removing ∈ v.frames := by
        refine hdone.imp (fun hgone => ?_) fun hframes => ?_
        · simpa [Conn.gone] using hgone
        · simp_all
      simpa [Event.starts] using hold hbefore

theorem Protocol.mapped_step (h : Protocol v) (hs : Step v mine a v') :
    v'.inMap = true ↔ .removed ∉ v'.conn.log := by
  have hold := h.mapped
  have halive := h.alive
  cases hs with
  | dtorQueued _ hdead =>
      rw [halive] at hdead
      cases hdead
  | dtorDestroyed _ hdead =>
      rw [halive] at hdead
      cases hdead
  | runDestroyed =>
      unfold destroy
      split <;> simpa using hold
  | _ => simp_all

theorem Protocol.established_step (h : Protocol v) (hs : Step v mine a v')
    (hup : .up ∈ v'.conn.log) : .established ∈ v'.conn.log ∨ .establishing ∈ v'.frames := by
  have hold := h.established
  cases hs with
  | runEstablished => exact Or.inr (by simp)
  | runDestroyed =>
      unfold destroy at hup ⊢
      split <;> simp_all
  | dtorDestroyed =>
      unfold destroy at hup ⊢
      split <;> simp_all
  | runSend _ _ _ _ _ due hframes => cases due <;> simp_all
  | ownSent _ _ _ _ _ due => cases due <;> simp_all
  | _ => simp_all

/-! ## What one step keeps -/

theorem Protocol.state_step (h : Protocol v) (hlive : Living v) (hs : Step v mine a v')
    (hdown : .down ∈ v'.conn.log) : v'.conn.tcp.state = .kDisconnected := by
  rcases hs.closes with ⟨_, _, _, _, hclose⟩ | hcount
  · exact hclose.state
  · have hmem : .down ∈ v.conn.log := by
      rw [← List.count_pos_iff] at hdown ⊢
      omega
    have hold := h.state hmem
    rcases hs.state with heq | ⟨_, hqueue⟩ | ⟨hoff, _⟩ | ⟨_, hconnected | ⟨t, c, _, _, hcaller⟩⟩
    · exact heq.trans hold
    · exact absurd hqueue (hlive.of_state (by simp [hold])).queue
    · exact hoff
    · rw [hold] at hconnected
      cases hconnected
    · exact absurd hcaller (h.callers t c)

theorem Protocol.once_step (h : Protocol v) (hs : Step v mine a v')
    (hguard : mine = true → v.closesOnce a = true) : v'.conn.log.count .down ≤ 1 := by
  rcases hs.closes with ⟨_, _, _, _, hclose⟩ | hcount
  · have hfree := hguard hclose.mine
    have hfirst : .down ∉ v.conn.log := by
      cases hs with
      | handledClose _ _ _ _ _ _ hframes => simpa [closesOnce, hframes] using hfree
      | readClose _ _ _ _ _ _ _ hframes hread =>
          simpa [closesOnce, hframes, TcpConnection.handleRead_close hread] using hfree
      | runDestroyed =>
          have hlog := congrArg (List.count .down) hclose.log
          unfold destroy at hlog
          split at hlog <;> simp at hlog
      | dtorDestroyed =>
          have hlog := congrArg (List.count .down) hclose.log
          unfold destroy at hlog
          split at hlog <;> simp at hlog
      | _ =>
          have hlog := congrArg (List.count .down) hclose.log
          simp at hlog
    rw [hclose.log]
    simp [List.count_eq_zero.2 hfirst]
  · have honce := h.once
    omega

theorem Protocol.downs_step (h : Protocol v) (hs : Step v mine a v') :
    v'.conn.log.count .down = v'.frames.count .closing + v'.conn.log.count .close := by
  have hold := h.downs
  rcases hs.closes with ⟨_, _, _, _, hclose⟩ | hcount
  · have hbefore := hold
    rw [hclose.before] at hbefore
    rw [hclose.log, hclose.after]
    simp at hbefore ⊢
    omega
  · rcases hs.close_count with ⟨_, _, _, _, hclose⟩ | hkept
    · rw [hclose.log] at hcount
      simp at hcount
    · omega

theorem Protocol.handling_step (h : Protocol v) (hlive : Living v) (hs : Step v mine a v')
    {revents : BitVec 32} {todo : List Channel.Handler}
    (hmem : .handleEvent revents todo ∈ v'.frames) : .established ∈ v'.conn.log := by
  apply hs.log.subset
  rcases hs.handling_mem hmem with ⟨todo', _, hold⟩ | ⟨hready, hframes, _⟩
  · exact h.handling _ _ hold
  · have hborn : Born v := hlive.resolve_left fun hunborn => hready hunborn.active
    rcases h.established hborn.up with hdone | hrunning
    · exact hdone
    · rw [hframes] at hrunning
      cases hrunning

omit [DecidableEq τ] in
theorem Protocol.destroying (h : Protocol v) (hframes : v.frames = [])
    {rest : List Job} (hrest : v.rest = .connectionDestroyed :: rest) :
    .closeReturned ∈ v.conn.log ∧ .removed ∈ v.conn.log ∧ ∀ m, .destroying m ∉ v.conn.log := by
  have hremoved : v.queue.count .connectionDestroyed ≠ 0 := by
    simp [View.queue, hrest]
  have hdestroys := h.destroys
  have hcloses := h.closes
  have hreturns := h.returns
  have hdowns := h.downs
  have honce := h.once
  rw [hframes] at hreturns hdowns
  simp only [List.count_nil] at hreturns hdowns
  refine ⟨List.count_pos_iff.1 (by omega), List.count_pos_iff.1 (by omega), fun m hmem => ?_⟩
  have hstarts : 0 < v.conn.log.countP Event.starts := List.countP_pos_iff.2 ⟨_, hmem, rfl⟩
  omega

theorem Protocol.history_step (h : Protocol v) (hs : Step v mine a v') :
    Always (Ordered v'.conn.loop) v'.conn.log := by
  have hold := h.history
  have hhandled : ∀ {revents todo frames}, v.frames = .handleEvent revents todo :: frames →
      .established ∈ v.conn.log := by
    intro revents todo frames hframes
    exact h.handling revents todo (by rw [hframes]; exact List.mem_cons_self)
  cases hs with
  | handledClose _ _ _ _ _ _ hframes => simp [hold, Ordered, hhandled hframes]
  | handledError _ _ _ _ _ _ hframes => simp [hold, Ordered, hhandled hframes]
  | readMessage _ _ _ _ _ _ _ hframes => simp [hold, Ordered, hhandled hframes]
  | readClose _ _ _ _ _ _ _ hframes => simp [hold, Ordered, hhandled hframes]
  | readError _ _ _ _ _ _ _ hframes => simp [hold, Ordered, hhandled hframes]
  | handledWrite _ _ _ _ _ _ _ _ hframes => simp [hold, Ordered, hhandled hframes]
  | runDestroyed _ _ _ hframes _ hrest =>
      have hfirst := h.destroying hframes hrest
      unfold destroy
      split <;> simp [hold, Ordered, hfirst]
  | dtorDestroyed _ hdead =>
      rw [h.alive] at hdead
      cases hdead
  | _ => simpa [Ordered] using hold

theorem Protocol.step (h : Protocol v) (hlive : Living v) (hs : Step v mine a v')
    (hquiet : undisturbed a = true) (hguard : mine = true → v.closesOnce a = true) :
    Protocol v' where
  alive := h.alive_step hs hquiet
  callers := h.callers_step hs hquiet
  state := h.state_step hlive hs
  once := h.once_step hs hguard
  downs := h.downs_step hs
  closes := h.closes_step hs
  returns := h.returns_step hs
  destroys := h.destroys_step hs
  begun := h.begun_step hs
  mapped := h.mapped_step hs
  established := h.established_step hs
  handling _ _ := h.handling_step hlive hs
  history := h.history_step hs

omit [DecidableEq τ] in
/-- A destroyed connection is down, so a queued send finds nothing to do. -/
theorem Protocol.staysGone (h : Protocol v) (a : Action τ) : v.staysGone a = true := by
  unfold View.staysGone
  split
  · split
    · rename_i l p w _ len rest hrest
      by_cases hgone : v.conn.gone = true
      · have hstarts := h.begun (Or.inl hgone)
        have hdestroys := h.destroys
        have hcloses := h.closes
        have hdowns := h.downs
        have hdown : .down ∈ v.conn.log := List.count_pos_iff.1 (by omega)
        simp [TcpConnection.enablesWrite, h.state hdown]
      · simp [hgone]
    · rfl
  · rfl

end View

section Runs

variable [DecidableEq τ] {s : TcpServer τ} {c : Nat} {x : Conn}

/-- The runs the protocol is about: the server is alive, `ShutDown` is called on the
loop of its connection, `HandleClose` once for each connection. -/
def Orderly (s : TcpServer τ) (a : Action τ) : Prop :=
  undisturbed a = true ∧ Guarded (fun v a => v.closesOnce a = true) s a

instance (s : TcpServer τ) (a : Action τ) : Decidable (Orderly s a) :=
  inferInstanceAs (Decidable (_ ∧ _))

theorem protocol_of_reach (h : (machine τ).Reach Orderly s) (hx : s.conns[c]? = some x) :
    (s.view c x).Living ∧ (s.view c x).Dispatch ∧ (s.view c x).Protocol ∧ (s.view c x).Ends :=
  view_invariant_of
    (Q := fun v mine a => undisturbed a = true ∧ (mine = true → v.closesOnce a = true))
    (I := fun v => v.Living ∧ v.Dispatch ∧ v.Protocol ∧ v.Ends)
    (fun _ _ _ _ hguard hx => ⟨hguard.1, hguard.2.mine hx⟩)
    (fun _ hs => ⟨hs.living, hs.dispatch, hs.protocol, hs.ends⟩)
    (fun _ _ a _ hI hguard hs => ⟨hI.1.step hs, hI.2.1.step hs,
      hI.2.2.1.step hI.1 hs hguard.1 hguard.2,
      hI.2.2.2.step hI.1 hI.2.1 hs fun _ => hI.2.2.1.staysGone a⟩) h hx

/-- The connection protocol of the server, in every run in which the server is alive,
`ShutDown` is called on a connection's own loop and `HandleClose` once for each
connection: handlers run after `ConnectionEstablished`; `ConnectionDestroyed` runs
once, on the connection's loop, after `HandleClose` and the removal from the map,
which holds the connections not yet removed; and it leaves nothing in the poller. -/
theorem connection_protocol (h : (machine τ).Reach Orderly s) :
    (∀ c, c ∈ s.connectionMaps ↔ ∃ x, s.conns[c]? = some x ∧ .removed ∉ x.log) ∧
    ∀ (c : Nat) x, s.conns[c]? = some x → Always (Ordered x.loop) x.log ∧
      (x.gone = true → ∀ s', (machine τ).Follows Orderly s s' → ∀ (l : Nat) (fd : Int),
        (s'.loops l).channelMaps fd ≠ some c ∧
          ∀ e, (s'.loops l).epollSet fd = some e → e.ptr ≠ c) := by
  have hmapped : ∀ {c x}, s.conns[c]? = some x → (c ∈ s.connectionMaps ↔ .removed ∉ x.log) := by
    intro c x hx
    simpa [view] using (protocol_of_reach h hx).2.2.1.mapped
  refine ⟨fun c => ⟨fun hmem => ?_, ?_⟩, fun c x hx => ⟨?_, fun hgone s' hf l fd => ?_⟩⟩
  · obtain ⟨x, hx⟩ := get_of_lt ((sane_of_reach h).known c hmem)
    exact ⟨x, hx, (hmapped hx).1 hmem⟩
  · rintro ⟨x, hx, hlog⟩
    exact (hmapped hx).2 hlog
  · exact (protocol_of_reach h hx).2.2.1.history
  · have hreach := h.follows hf
    obtain ⟨x', hx', hgone'⟩ := gone_follows h hf hx hgone
    have hends := (protocol_of_reach hreach hx').2.2.2.gone hgone'
    exact (sane_of_reach hreach).registry.not_registered hx' hends.index l fd

end Runs

/-- Two connections of a sub-loop: the first one's peer hangs up and the main loop takes it
out of the map, the second one gets a message, and the sub-loop destroys the first. -/
def twoOnSubLoop : List (Action Nat) :=
  accepting ++ [.loop 0 .doPendingFunctors, .loop 0 .swapFunctors, .loop 0 .finishFunctors,
    .loop 0 .testQuit, .loop 0 .startPolling, .poll 0 false [.acceptor], .accept 8,
    .loop 1 .enterLoop, .loop 1 .resetQuit, .loop 1 .testQuit, .loop 1 .startPolling,
    .poll 1 true [], .loop 1 .handleWakeup, .loop 1 .doPendingFunctors, .loop 1 .swapFunctors,
    .runFunctor 1 noBytes (.wrote 0), .resume 1, .resume 1,
    .runFunctor 1 noBytes (.wrote 0), .resume 1, .resume 1, .loop 1 .finishFunctors,
    .loop 1 .testQuit, .loop 1 .startPolling,
    .poll 1 false [.channel 0 Channel.POLLHUP, .channel 1 Channel.POLLIN], .dispatch 1,
    .handle 1 (.failed 0) (.wrote 0), .resume 1, .resume 1, .resume 1, .resume 1,
    .loop 0 .doPendingFunctors, .loop 0 .swapFunctors, .runFunctor 0 noBytes (.wrote 0),
    .dispatch 1, .handle 1 (.received [65]) (.wrote 0), .resume 1, .resume 1,
    .loop 1 .doPendingFunctors, .loop 1 .swapFunctors, .runFunctor 1 noBytes (.wrote 0)]

theorem connection_protocol_hangup : ∃ (s : TcpServer Nat) (x y : Conn), s.conns[0]? = some x ∧
    s.conns[1]? = some y ∧ x.gone = true ∧ .message ∈ y.log ∧
      Always (Ordered x.loop) x.log ∧ Always (Ordered y.loop) y.log ∧
      0 ∉ s.connectionMaps ∧ 1 ∈ s.connectionMaps ∧ (s.loops 1).channelMaps 7 ≠ some 0 := by
  rcases Machine.Reach.of_test (machine Nat) Orderly
      (fun s => ((s.conns[0]?).any fun x => x.gone && x.log.contains .removed) &&
        (s.conns[1]?).any fun y => y.log.contains .message && !y.log.contains .removed)
      twoOnSubLoop (.start (new_initial 1 false)) (by decide +kernel) with ⟨s, hreach, htest⟩
  rw [Bool.and_eq_true] at htest
  obtain ⟨x, hx, hend⟩ := (Option.any_eq_true ..).1 htest.1
  obtain ⟨y, hy, hlives⟩ := (Option.any_eq_true ..).1 htest.2
  rw [Bool.and_eq_true, List.contains_iff_mem] at hend hlives
  rw [Bool.not_eq_true', ← Bool.not_eq_true, List.contains_iff_mem] at hlives
  have hprotocol := connection_protocol hreach
  refine ⟨s, x, y, hx, hy, hend.1, hlives.1, (hprotocol.2 0 x hx).1, (hprotocol.2 1 y hy).1,
    fun hmem => ?_, (hprotocol.1 1).2 ⟨y, hy, hlives.2⟩,
    ((hprotocol.2 0 x hx).2 hend.1 s .refl 1 7).1⟩
  obtain ⟨z, hz, hkept⟩ := (hprotocol.1 0).1 hmem
  rw [hx, Option.some.injEq] at hz
  exact hkept (hz ▸ hend.2)

end MyNetLib.TcpServer
