import MyNetLib.Server.State

/-! # Connections are dealt out in turn (`src/tcp_server.cc`)

`NewConnection` asks `GetNextLoop` once and nobody else does. Over a whole run the
`c`-th connection is therefore on the loop of the residue of `c`, whatever happens to
the connections before it.
-/

namespace MyNetLib.TcpServer

open Library

variable {τ : Type}

/-! ## Only `NewConnection` deals -/

variable {s s' : TcpServer τ} {l m c : Nat} {x : Conn}

/-- The pool of the server, its next loop, and how many connections there were. -/
def pool (s : TcpServer τ) : Nat × Nat × Nat := (s.threads, s.next, s.conns.length)

@[simp] theorem pool_setLoop (s : TcpServer τ) (l : Nat) (L : Loop) :
    (s.setLoop l L).pool = s.pool := rfl

@[simp] theorem pool_setConn (s : TcpServer τ) (c : Nat) (x : Conn) :
    (s.setConn c x).pool = s.pool := by
  simp [pool, TcpServer.setConn]

@[simp] theorem pool_update (s : TcpServer τ) (c : Nat) (x : Conn) :
    (s.update c x).pool = s.pool := by
  simp [pool, TcpServer.update, TcpServer.setConn, TcpServer.setLoop]

@[simp] theorem pool_remove (s : TcpServer τ) (c : Nat) (x : Conn) :
    (s.remove c x).pool = s.pool := by
  simp [pool, TcpServer.remove, TcpServer.setConn, TcpServer.setLoop]

@[simp] theorem pool_push (s : TcpServer τ) (l c : Nat) (calls : List Call) :
    (s.push l c calls).pool = s.pool := rfl

@[simp] theorem pool_queueInLoop (s : TcpServer τ) (own : Bool) (m : Nat) (f : Functor) :
    (s.queueInLoop own m f).pool = s.pool := rfl

@[simp] theorem pool_handleClose (s : TcpServer τ) (l c : Nat) (x : Conn) :
    (s.handleClose l c x).pool = s.pool := by
  simp [TcpServer.handleClose]

@[simp] theorem pool_store (s : TcpServer τ) (c : Nat) (x : Conn) (tcp : TcpConnection) :
    (s.store c x tcp).pool = s.pool := by
  unfold store
  split <;> simp

@[simp] theorem pool_connectionDestroyed (s : TcpServer τ) (l c : Nat) (x : Conn) :
    (s.connectionDestroyed l c x).pool = s.pool := by
  unfold TcpServer.connectionDestroyed
  dsimp only
  split <;> simp

@[simp] theorem pool_removeConnectionInLoop (s : TcpServer τ) (c : Nat) (x : Conn) :
    (s.removeConnectionInLoop c x).pool = s.pool := by
  simp [TcpServer.removeConnectionInLoop, pool, TcpServer.setConn, TcpServer.queueInLoop,
    TcpServer.setLoop]

@[simp] theorem pool_connectionEstablished (s : TcpServer τ) (l c : Nat) (x : Conn) :
    (s.connectionEstablished l c x).pool = s.pool := by
  simp [TcpServer.connectionEstablished]

@[simp] theorem pool_removeConnection (s : TcpServer τ) (l c : Nat) (x : Conn) :
    (s.removeConnection l c x).pool = s.pool := by
  unfold TcpServer.removeConnection
  dsimp only
  split <;> simp

theorem pool_sendInLoop {p : Payload} {w : WriteResult} (h : s.sendInLoop l c x p w = some s') :
    s'.pool = s.pool := by
  obtain ⟨tcp, due, _, rfl⟩ := sendInLoop_some h
  simp

theorem pool_handleWrite {w : WriteResult} (h : s.handleWrite l c x w = some s') :
    s'.pool = s.pool := by
  obtain ⟨⟨tcp, due⟩, _, rfl⟩ := Option.map_eq_some_iff.1 h
  cases due <;> simp

theorem pool_handleRead {r : ReadvResult} (h : s.handleRead l c x r = some s') :
    s'.pool = s.pool := by
  obtain ⟨⟨tcp, outcome⟩, _, rfl⟩ := Option.map_eq_some_iff.1 h
  cases outcome <;> simp

theorem pool_handle {r : ReadvResult} {w : WriteResult} (h : s.handle l r w = some s') :
    s'.pool = s.pool := by
  unfold TcpServer.handle at h
  split at h
  · split at h
    · cases h
    · dsimp only at h
      split at h
      · cases h
        simp
      · cases h
        simp
      · simpa using pool_handleRead h
      · simpa using pool_handleWrite h
  · cases h

theorem pool_resume (h : s.resume l = some s') : s'.pool = s.pool := by
  unfold TcpServer.resume at h
  split at h
  · cases h
  · dsimp only at h
    split at h
    · cases h
    · split at h
      all_goals first
        | cases h
          simp
        | split at h <;> cases h
          simp

theorem pool_runFunctor {p : Payload} {w : WriteResult} (h : s.runFunctor l p w = some s') :
    s'.pool = s.pool := by
  unfold TcpServer.runFunctor at h
  dsimp only at h
  split at h
  · split at h
    · cases h
    · split at h
      · cases h
        simp
      · split at h
        · simpa using pool_sendInLoop h
        · cases h
      · split at h <;> cases h
        simp
      · cases h
        simp
      · split at h <;> cases h
        simp
      · cases h
        simp
  · cases h

/-- Only `NewConnection` moves on to the next loop, and only for a descriptor accepted. -/
theorem pool_acceptor (fd : Option Int) (h : s.acceptorHandleRead fd = some s') :
    s'.pool = s.pool ∨ s'.threads = s.threads ∧ s'.next = s.advanceNext ∧
      ∃ y, s'.conns = s.conns ++ [y] ∧ y.loop = s.getNextLoop ∧
        fd = some y.tcp.channel.fd := by
  unfold TcpServer.acceptorHandleRead at h
  dsimp only at h
  split at h
  · split at h
    · split at h
      · cases h
        exact Or.inl rfl
      · rename_i connfd hconnfd
        have hfd : fd = some connfd := (Option.filter_eq_some_iff.1 hconnfd).1
        split at h
        · obtain ⟨tcp, htcp, rfl⟩ := Option.map_eq_some_iff.1 h
          have hchannel : connfd = tcp.channel.fd := by
            obtain ⟨b, _, rfl⟩ := Option.map_eq_some_iff.1 htcp
            rfl
          rw [hfd, hchannel]
          right
          unfold TcpServer.newConnection
          dsimp only
          split
          · rename_i hmain
            refine ⟨rfl, rfl, Conn.up ⟨tcp, 0, false, []⟩, ?_, hmain.symm, rfl⟩
            rw [TcpServer.connectionEstablished, conns_push, conns_update, hmain]
            simp [Conn.up, TcpServer.setLoop]
          · exact ⟨rfl, rfl, _, rfl, rfl, rfl⟩
        · cases h
    · cases h
  · cases h

variable [DecidableEq τ]

theorem pool_check {t : τ} {caller : Caller} (h : s.check t c caller = some s') :
    s'.pool = s.pool := by
  unfold TcpServer.check at h
  split at h
  · cases h
  · split at h
    · split at h <;> cases h <;> rfl
    · cases h

theorem pool_step {a : Action τ} (hs : s.step a = some s') :
    s'.pool = s.pool ∨ s'.threads = s.threads ∧ s'.next = s.advanceNext ∧
      ∃ y, s'.conns = s.conns ++ [y] ∧ y.loop = s.getNextLoop ∧
        a = .accept y.tcp.channel.fd := by
  cases a with
  | accept fd => simpa using pool_acceptor (some fd) hs
  | acceptFails => simpa using pool_acceptor none hs
  | handle l r w => exact Or.inl (pool_handle hs)
  | resume l => exact Or.inl (pool_resume hs)
  | runFunctor l p w => exact Or.inl (pool_runFunctor hs)
  | sendCheck t c len => exact Or.inl (pool_check hs)
  | shutCheck t c => exact Or.inl (pool_check hs)
  | ownSend l c p w =>
      left
      simp only [TcpServer.step, TcpServer.ownSend] at hs
      split at hs
      · cases hs
      · split at hs
        · split at hs
          · exact pool_sendInLoop hs
          · cases hs
            rfl
        · cases hs
  | dtorNext c =>
      left
      simp only [TcpServer.step, TcpServer.dtorNext] at hs
      split at hs
      · cases hs
      · split at hs
        · split at hs <;> cases hs
          · rw [pool_connectionDestroyed]
            rfl
          · rfl
        · cases hs
  | loop _ _ | poll _ _ _ =>
      left
      simp only [TcpServer.step, TcpServer.loopStep, TcpServer.poll] at hs
      split at hs
      · obtain ⟨core, _, rfl⟩ := Option.map_eq_some_iff.1 hs
        rfl
      · cases hs
  | dispatch l =>
      left
      simp only [TcpServer.step, TcpServer.dispatch] at hs
      split at hs
      · split at hs <;> cases hs
        rfl
      · cases hs
  | ownShutDown l c =>
      left
      simp only [TcpServer.step, TcpServer.ownShutDown] at hs
      split at hs
      · cases hs
      · split at hs
        · split at hs <;> cases hs
          · exact pool_setConn _ _ _
          · rfl
        · cases hs
  | destruct c =>
      left
      simp only [TcpServer.step, TcpServer.destruct] at hs
      split at hs
      · cases hs
      · split at hs <;> cases hs
        simp [pool]
  | quit l =>
      cases hs
      exact Or.inl rfl
  | obtain _ _ | drop _ _ | dtorBegin =>
      simp only [TcpServer.step] at hs
      split at hs <;> cases hs
      exact Or.inl rfl
  | sendQueue t | shutQueue t =>
      simp only [TcpServer.step] at hs
      split at hs
      · obtain ⟨x, _, rfl⟩ := Option.map_eq_some_iff.1 hs
        exact Or.inl rfl
      · cases hs
  | shutSet t =>
      simp only [TcpServer.step] at hs
      split at hs
      · obtain ⟨x, _, rfl⟩ := Option.map_eq_some_iff.1 hs
        exact Or.inl (by simp [pool, TcpServer.setCaller, TcpServer.setConn])
      · cases hs

/-! ## Who got which connection -/

def dealtTo (threads c : Nat) : Nat := if threads = 0 then 0 else c % threads + 1

structure Dealt (s : TcpServer τ) : Prop where
  next : s.next = if s.threads = 0 then 0 else s.conns.length % s.threads
  loops : s.conns.map Conn.loop = (List.range s.conns.length).map (dealtTo s.threads)

omit [DecidableEq τ] in
theorem Dealt.getNextLoop (h : Dealt s) : s.getNextLoop = dealtTo s.threads s.conns.length := by
  unfold TcpServer.getNextLoop dealtTo
  rw [h.next]
  split <;> simp_all

omit [DecidableEq τ] in
theorem Dealt.advanceNext (h : Dealt s) :
    s.advanceNext = if s.threads = 0 then 0 else (s.conns.length + 1) % s.threads := by
  unfold TcpServer.advanceNext
  rw [h.next]
  by_cases hzero : s.threads = 0
  · simp [hzero]
  · simp only [if_neg hzero]
    have hlt := Nat.mod_lt s.conns.length (Nat.pos_of_ne_zero hzero)
    rw [← Nat.mod_add_mod]
    split
    · rename_i hlast
      rw [show s.conns.length % s.threads + 1 = s.threads by omega, Nat.mod_self]
    · rename_i hmore
      exact (Nat.mod_eq_of_lt (by omega)).symm

theorem Projects.loops {a : Action τ} (h : Projects s a s')
    (hlength : s'.conns.length = s.conns.length) :
    s'.conns.map Conn.loop = s.conns.map Conn.loop := by
  apply List.ext_getElem?
  intro d
  rw [List.getElem?_map, List.getElem?_map]
  cases hz : s.conns[d]? with
  | none =>
      have hnone : s'.conns[d]? = none := by
        rw [List.getElem?_eq_none_iff] at hz ⊢
        omega
      rw [hnone]
  | some z =>
      obtain ⟨z', hz', hloop, _⟩ := h.old d z hz
      rw [hz', Option.map_some, Option.map_some, hloop]

theorem Dealt.step {a : Action τ} (h : Dealt s) (hsane : Sane s) (hs : s.step a = some s') :
    Dealt s' := by
  rcases pool_step hs with hpool | ⟨hthreads, hnext, y, hconns, hloop, _⟩
  · simp only [pool, Prod.mk.injEq] at hpool
    obtain ⟨hthreads, hnext, hlength⟩ := hpool
    constructor
    · rw [hnext, hthreads, hlength, h.next]
    · rw [(hsane.projects_step hs).loops hlength, hthreads, hlength, h.loops]
  · have hlength : s'.conns.length = s.conns.length + 1 := by simp [hconns]
    constructor
    · rw [hnext, hthreads, hlength, h.advanceNext]
    · rw [hlength, List.range_succ, List.map_append, hconns, List.map_append, h.loops, hthreads,
        List.map_singleton, hloop, h.getNextLoop, List.map_singleton]

theorem dealt_of_reach {guard : TcpServer τ → Action τ → Prop} (h : (machine τ).Reach guard s) :
    Dealt s := by
  induction h with
  | start hinit =>
      constructor
      · rw [hinit.next, hinit.conns]
        simp
      · rw [hinit.conns]
        rfl
  | step hreach _ hs ih => exact ih.step (sane_of_reach hreach) (step_of_machine hs)

omit [DecidableEq τ] in
theorem Dealt.loop_eq (h : Dealt s) (hx : s.conns[c]? = some x) :
    x.loop = dealtTo s.threads c := by
  have hlt := (List.getElem?_eq_some_iff.1 hx).1
  have hget := congrArg (·[c]?) h.loops
  simpa only [List.getElem?_map, hx, Option.map_some, List.getElem?_range hlt,
    Option.some.injEq] using hget

theorem loop_le_threads {guard : TcpServer τ → Action τ → Prop} (h : (machine τ).Reach guard s)
    (hx : s.conns[c]? = some x) : x.loop ≤ s.threads := by
  rw [(dealt_of_reach h).loop_eq hx, dealtTo]
  split
  · omega
  · rename_i hpool
    have hlt := Nat.mod_lt c (Nat.pos_of_ne_zero hpool)
    omega

/-! ## Balance -/

def load (s : TcpServer τ) (l : Nat) : Nat := s.conns.countP fun x => x.loop == l

omit [DecidableEq τ] in
theorem Dealt.load (h : Dealt s) {i : Nat} (hi : i < s.threads) :
    s.load (i + 1) = s.conns.length / s.threads +
      if i < s.conns.length % s.threads then 1 else 0 := by
  have hcount : s.load (i + 1) = Nat.count (· ≡ i [MOD s.threads]) s.conns.length := by
    have hmap : s.load (i + 1) = (s.conns.map Conn.loop).countP (· == i + 1) := by
      rw [List.countP_map]
      rfl
    rw [hmap, h.loops, List.countP_map, Nat.count]
    apply List.countP_congr
    intro c _
    have hzero : s.threads ≠ 0 := by omega
    simp [dealtTo, hzero, Nat.ModEq, Nat.mod_eq_of_lt hi]
  rw [hcount, Nat.count_modEq_card _ (by omega), Nat.mod_eq_of_lt hi]

/-- Whatever happens to the connections, the `c`-th one accepted is on the loop of the
residue of `c`, or on the main loop when there is no other; so the shares of two loops of
the pool differ by at most one connection. -/
theorem connections_dealt_in_turn (s : TcpServer τ)
    (h : (machine τ).Reach (fun _ _ => True) s) :
    (∀ (c : Nat) x, s.conns[c]? = some x →
      x.loop = if s.threads = 0 then 0 else c % s.threads + 1) ∧
    ∀ l m : Nat, 0 < l → l ≤ s.threads → 0 < m → m ≤ s.threads → s.load l ≤ s.load m + 1 := by
  have hdealt := dealt_of_reach h
  refine ⟨?_, ?_⟩
  · intro c x hx
    exact hdealt.loop_eq hx
  · intro l m hl hlt hm hmt
    obtain ⟨i, rfl⟩ : ∃ i, l = i + 1 := ⟨l - 1, by omega⟩
    obtain ⟨j, rfl⟩ : ∃ j, m = j + 1 := ⟨m - 1, by omega⟩
    rw [hdealt.load (by omega), hdealt.load (by omega)]
    split <;> split <;> omega

/-- The main loop accepts another descriptor in its next iteration. -/
def acceptingAgain (fd : Int) : List (Action Nat) :=
  [.loop 0 .doPendingFunctors, .loop 0 .swapFunctors, .loop 0 .finishFunctors, .loop 0 .testQuit,
    .loop 0 .startPolling, .poll 0 false [.acceptor], .accept fd]

theorem connections_dealt_in_turn_three : ∃ (s : TcpServer Nat) (x : Conn), s.threads = 2 ∧
    s.conns[2]? = some x ∧ x.loop = 1 ∧ s.load 1 ≤ s.load 2 + 1 := by
  obtain ⟨s, hs, htest⟩ := Machine.Reach.of_test (machine Nat) (fun _ _ => True)
    (fun s => s.threads == 2 && s.conns.length == 3)
    (accepting ++ acceptingAgain 8 ++ acceptingAgain 9) (.start (new_initial 2 false))
    (by decide +kernel)
  simp only [Bool.and_eq_true, beq_iff_eq] at htest
  obtain ⟨hthreads, hlength⟩ := htest
  obtain ⟨hloop, hload⟩ := connections_dealt_in_turn s hs
  have hx : s.conns[2]? = some s.conns[2] := List.getElem?_eq_getElem (by omega)
  refine ⟨s, _, hthreads, hx, ?_, hload 1 2 (by decide) (by omega) (by decide) (by omega)⟩
  rw [hloop 2 _ hx, hthreads]
  rfl

end MyNetLib.TcpServer
