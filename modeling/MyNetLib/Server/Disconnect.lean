import MyNetLib.Server.State

/-! # Every connection that came up goes down

`ConnectionDestroyed` is reached through `HandleClose` and `RemoveconnectionInLoop`
or straight from the destructor of the server, in whatever state the connection is
in. It disconnects only from `kConnected`.
-/

namespace MyNetLib.TcpServer

open Library

variable {τ : Type} [DecidableEq τ]

/-- What has to be true when `ConnectionDestroyed` is done: the connection has gone
down if it ever came up. -/
def DownAtLast (before : List Event) : Event → Prop
  | .destroyed state events => .up ∈ before →
      state = .kDisconnected ∧ events = 0 ∧ (.down ∈ before ∨ .downAtDestroy ∈ before)
  | _ => True

namespace View

variable {v v' : View τ} {mine : Bool} {a : Action τ}

/-- The step calls `ConnectionDestroyed`. -/
def entersDestroyed (v : View τ) : Action τ → Bool
  | .runFunctor l _ _ => l == v.conn.loop && v.rest.head? == some .connectionDestroyed
  | .dtorNext _ => v.conn.loop == 0
  | _ => false

/-- `ConnectionDestroyed` does not find `kDisconnecting`, and another thread does not
store it while the function runs. -/
def destroysDisconnected (v : View τ) (a : Action τ) : Bool :=
  !(v.entersDestroyed a && v.conn.tcp.state == .kDisconnecting) &&
    match a with
    | .shutSet _ => !v.frames.contains .removing
    | _ => true

/-- What is known of a connection that is down, or about to be removed. -/
structure Disconnects (v : View τ) : Prop where
  state : v.conn.tcp.state = .kDisconnected → v.conn.tcp.channel.events = 0 ∧
    (.down ∈ v.conn.log ∨ .downAtDestroy ∈ v.conn.log)
  removing : .removing ∈ v.frames → v.conn.tcp.state = .kDisconnected
  history : Always DownAtLast v.conn.log

/-- A mask that is empty stays so while the connection is down: `SendInLoop` refuses
and `HandleWrite` has nothing to do. -/
theorem Step.events (hs : Step v mine a v') (hstate : v.conn.tcp.state = .kDisconnected)
    (hevents : v.conn.tcp.channel.events = 0) (hborn : .connectionEstablished ∉ v.queue) :
    v'.conn.tcp.channel.events = 0 := by
  cases hs with
  | readMessage _ _ _ _ _ _ _ _ hread =>
      simpa [(TcpConnection.handleRead_channel hread).2] using hevents
  | readError _ _ _ _ _ _ _ _ hread =>
      simpa [(TcpConnection.handleRead_channel hread).2] using hevents
  | handledWrite _ _ _ _ _ _ _ _ _ hwrite =>
      have hclear : v.conn.tcp.isWriting = false := by
        simp [TcpConnection.isWriting, Channel.isWriting, hevents]
      rcases Conn.wrote_handled (x := v.conn.note .handled) hwrite with hsame | ⟨hbit, _⟩
      · exact (congrArg Channel.events hsame).trans hevents
      · exact absurd hbit (by simp [hclear])
  | runSend _ _ _ _ _ _ _ _ _ hsend =>
      have hkept := Conn.wrote_send hsend
      rw [if_neg (by simp [TcpConnection.enablesWrite, hstate])] at hkept
      exact (congrArg Channel.events hkept).trans hevents
  | ownSent _ _ _ _ _ _ hconnected =>
      rw [hstate] at hconnected
      cases hconnected
  | runEstablished _ _ _ _ _ _ hrest => exact absurd (by simp [View.queue, hrest]) hborn
  | ownShut => simpa [TcpConnection.shutDown] using hevents
  | _ => simp [hevents]

omit [DecidableEq τ] in
/-- Entering `ConnectionDestroyed`: the end is recorded at once unless the state is
`kConnected`. -/
theorem destroy_history {l : Nat} (h : Disconnects v) (hborn : v.conn.tcp.state ≠ .kConnecting)
    (hstate : v.conn.tcp.state ≠ .kDisconnecting) :
    Always DownAtLast (v.destroy l).conn.log := by
  unfold destroy
  split
  · simp [h.history, DownAtLast]
  · have hdown : v.conn.tcp.state = .kDisconnected := by
      cases hv : v.conn.tcp.state <;> simp_all
    have hevents := h.state hdown
    simp [h.history, DownAtLast, hdown, hevents]

theorem Disconnects.step (h : Disconnects v) (hborn : Living v) (hs : Step v mine a v')
    (hguard : mine = true → v.destroysDisconnected a = true) : Disconnects v' := by
  have hkept : v.conn.tcp.state = .kDisconnected → v'.conn.tcp.channel.events = 0 ∧
      (.down ∈ v'.conn.log ∨ .downAtDestroy ∈ v'.conn.log) := by
    intro hstate
    have hold := h.state hstate
    exact ⟨hs.events hstate hold.1 (hborn.of_state (by simp [hstate])).queue,
      hold.2.imp (fun hmem => hs.log.subset hmem) fun hmem => hs.log.subset hmem⟩
  refine ⟨?_, ?_, ?_⟩
  · intro hstate
    rcases hs.state with heq | ⟨hup, _⟩ | ⟨_, hdown⟩ | ⟨hshut, _⟩
    · exact hkept (heq.symm.trans hstate)
    · rw [hup] at hstate
      cases hstate
    · exact hdown
    · rw [hshut] at hstate
      cases hstate
  · intro hmem
    rcases hs.removing_mem hmem with hold | ⟨_, hdown⟩
    · have hstate := h.removing hold
      rcases hs.state with heq | ⟨_, hmem⟩ | ⟨hdown, _⟩ | ⟨_, hconnected | ⟨t, c, hmine, rfl, _⟩⟩
      · exact heq.trans hstate
      · exact absurd hmem (hborn.of_state (by simp [hstate])).queue
      · exact hdown
      · rw [hstate] at hconnected
        cases hconnected
      · have hfree := hguard hmine
        simp only [destroysDisconnected, Bool.and_eq_true, Bool.not_eq_true',
          List.contains_eq_mem, decide_eq_false_iff_not] at hfree
        exact absurd hold hfree.2
    · exact hdown
  · have hhistory := h.history
    cases hs with
    | removed _ frames hframes =>
        have hstate := h.removing (by simp [hframes])
        have hdown := h.state hstate
        simp [hhistory, DownAtLast, hstate, hdown]
    | runDestroyed _ _ rest _ _ hrest =>
        have hfree := hguard rfl
        simp only [destroysDisconnected, entersDestroyed, hrest] at hfree
        exact destroy_history (v := { v with rest := rest }) ⟨h.state, h.removing, h.history⟩
          (hborn.of_rest hrest (by simp)).state (by simpa using hfree)
    | dtorDestroyed _ _ _ hloop =>
        have hfree := hguard rfl
        simp only [destroysDisconnected, entersDestroyed, hloop] at hfree
        exact destroy_history (v := { v with inMap := false }) ⟨h.state, h.removing, h.history⟩
          (hborn.of_loop hloop).state (by simpa using hfree)
    | _ => simp [hhistory, DownAtLast]

end View

end MyNetLib.TcpServer
