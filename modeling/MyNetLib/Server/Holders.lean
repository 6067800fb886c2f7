import MyNetLib.Server.Ownership

/-! # Whom a queued send can rely on

`Send` and `ShutDown` bind the bare `this`; the write-complete callback, the removal and
`ConnectionDestroyed` bind the shared pointer. A queued send is safe while a user
pointer is left, the map has its connection, or a functor with the shared pointer
will not be gone before it.
-/

namespace MyNetLib.TcpServer

open Library

variable {τ : Type}

namespace View

variable {v v' : View τ} {mine : Bool} {a : Action τ}

/-- Besides user pointers something holds the connection until the bare functors it has
now have run: functors leave memory at the end of their pass. -/
def covered (v : View τ) : Bool :=
  v.inMap || 0 < v.removals || v.pending.any (fun job => !job.bare) ||
    (v.pending.isEmpty && (v.batch.any (fun job => !job.bare) || v.rest.all fun job => !job.bare))

/-- The last user pointer is dropped, or the connection of the main loop taken out of the
map by `~TcpServer`, only when what is left covers the queued functors. -/
def leavesCovered [DecidableEq τ] (v : View τ) : Action τ → Bool
  | .drop t _ => !(v.users.erase t).isEmpty || v.covered
  | .dtorNext _ => v.conn.loop != 0 || !v.users.isEmpty || { v with inMap := false }.covered
  | _ => true

structure Covered (v : View τ) : Prop where
  callers : ∀ t, v.callers t ≠ .outside → t ∈ v.users
  owner : v.users ≠ [] ∨ v.covered = true

theorem covered_iff : v.covered = true ↔ v.inMap = true ∨ 0 < v.removals ∨
    (∃ job ∈ v.pending, job.bare = false) ∨
      v.pending = [] ∧
        ((∃ job ∈ v.batch, job.bare = false) ∨ ∀ job ∈ v.rest, job.bare = false) := by
  simp [covered, or_assoc]

theorem Start.covered (h : Start v) : Covered v := by
  cases h with
  | queued _ _ _ _ _ _ _ _ _ _ _ _ _ hmap _ hcallers =>
      exact ⟨fun t ht => absurd (hcallers t) ht, Or.inr (covered_iff.2 (Or.inl hmap))⟩
  | established _ _ _ _ _ _ _ _ _ _ _ hmap _ hcallers =>
      exact ⟨fun t ht => absurd (hcallers t) ht, Or.inr (covered_iff.2 (Or.inl hmap))⟩

variable [DecidableEq τ]

theorem Covered.callers_step (h : Covered v) (hs : Step v mine a v') {t : τ}
    (ht : v'.callers t ≠ .outside) : t ∈ v'.users := by
  have hold := h.callers t
  have hset : ∀ {u : τ} {caller : Caller}, u ∈ v.users →
      Function.update v.callers u caller t ≠ .outside → t ∈ v.users := by
    intro u caller hu hne
    by_cases htu : t = u
    · rw [htu]
      exact hu
    · rw [Function.update_of_ne htu] at hne
      exact hold hne
  cases hs with
  | obtained => exact List.mem_cons_of_mem _ (hold ht)
  | dropped u _ hout =>
      have hne : t ≠ u := by
        rintro rfl
        exact ht hout
      exact (List.mem_erase_of_ne hne).2 (hold ht)
  | sendChecked u _ _ _ hu => exact hset hu ht
  | shutChecked u _ _ hu => exact hset hu ht
  | sendQueued u _ _ hcaller => exact hset (h.callers u (by simp [hcaller])) ht
  | shutStored u _ hcaller => exact hset (h.callers u (by simp [hcaller])) ht
  | shutQueued u _ hcaller => exact hset (h.callers u (by simp [hcaller])) ht
  | runDestroyed => simpa using hold (by simpa using ht)
  | dtorDestroyed => simpa using hold (by simpa using ht)
  | _ => exact hold ht

omit [DecidableEq τ] in
theorem covered_ran {job : Job} {rest : List Job} (hrest : v.rest = job :: rest)
    (h : v.covered = true) : { v with rest := rest }.covered = true := by
  rw [covered_iff] at h ⊢
  refine h.imp_right (Or.imp_right (Or.imp_right (And.imp_right (Or.imp_right ?_))))
  intro hshared j hj
  exact hshared j (by rw [hrest]; exact List.mem_cons_of_mem _ hj)

omit [DecidableEq τ] in
theorem covered_of_pending (job : Job) (hmem : job ∈ v.pending) (hjob : job.bare = false) :
    v.covered = true :=
  covered_iff.2 (Or.inr (Or.inr (Or.inl ⟨job, hmem, hjob⟩)))

/-- The cover stays: removal leaves `ConnectionDestroyed` behind, and a pass keeps its
functors to its end. -/
theorem Covered.owner_step (h : Covered v) (hs : Step v mine a v')
    (hguard : mine = true → v.leavesCovered a = true) : v'.users ≠ [] ∨ v'.covered = true := by
  have hold := h.owner
  cases hs with
  | obtained => exact Or.inl (List.cons_ne_nil _ _)
  | dropped t =>
      have hfree := hguard rfl
      simpa [leavesCovered, covered] using hfree
  | sendQueued t _ _ hcaller =>
      exact Or.inl (List.ne_nil_of_mem (h.callers t (by simp [hcaller])))
  | shutQueued t _ hcaller =>
      exact Or.inl (List.ne_nil_of_mem (h.callers t (by simp [hcaller])))
  | dtorDestroyed _ _ _ hloop =>
      have hfree := hguard rfl
      simpa [leavesCovered, covered, hloop] using hfree
  | closeRemoved => exact Or.inr (covered_of_pending .connectionDestroyed (by simp) rfl)
  | runRemove => exact Or.inr (covered_of_pending .connectionDestroyed (by simp) rfl)
  | dtorQueued => exact Or.inr (covered_of_pending .connectionDestroyed (by simp) rfl)
  | closeQueued => exact Or.inr (covered_iff.2 (Or.inr (Or.inl (Nat.succ_pos _))))
  | swapped _ _ _ hrest =>
      rw [covered_iff] at hold ⊢
      refine hold.imp_right (Or.imp_right (Or.imp_right fun hpending => Or.inr ⟨rfl, ?_⟩))
      rcases hpending with hshared | ⟨hnone, _⟩
      · exact Or.inl hshared
      · exact Or.inr (by simp [hnone])
  | finished _ _ hrest =>
      rw [covered_iff] at hold ⊢
      refine hold.imp_right (Or.imp_right (Or.imp_right (Or.imp_right fun hpass => ?_)))
      exact ⟨hpass.1, Or.inr (by simp [hrest])⟩
  | handledWrite _ _ _ _ _ _ _ due =>
      cases due
      · simpa [covered] using hold
      · exact Or.inr (covered_of_pending .writeComplete (by simp) rfl)
  | runEstablished _ _ _ _ _ _ hrest => exact hold.imp_right (covered_ran hrest)
  | runSend _ _ _ _ _ _ _ _ hrest => exact hold.imp_right (covered_ran hrest)
  | runShutdown _ _ _ _ _ _ hrest => exact hold.imp_right (covered_ran hrest)
  | runWriteComplete _ _ _ _ _ _ hrest => exact hold.imp_right (covered_ran hrest)
  | runDestroyed _ _ _ _ _ hrest =>
      simpa [covered] using hold.imp_right (covered_ran hrest)
  | _ => exact hold

theorem Covered.step (h : Covered v) (hs : Step v mine a v')
    (hguard : mine = true → v.leavesCovered a = true) : Covered v' :=
  ⟨fun _ => h.callers_step hs, h.owner_step hs hguard⟩

end View

/-! ## The pass of a loop -/

section Passes

variable {s s' : TcpServer τ} {l m c : Nat} {x : Conn}

/-- The functors of the pass in memory, and those of them not yet started. -/
def pass (s : TcpServer τ) (l : Nat) : List Functor × List Functor :=
  ((s.loops l).functors, (s.loops l).rest)

theorem pass_setLoop {L : Loop} (hfunctors : L.functors = (s.loops l).functors)
    (hpc : L.core.pc = (s.loops l).core.pc) : (s.setLoop l L).pass = s.pass := by
  funext m
  simp only [pass, loops_setLoop]
  split
  · rename_i hm
    simp only [hm, hfunctors, Loop.rest, hpc]
  · rfl

@[simp] theorem pass_setConn (s : TcpServer τ) (c : Nat) (x : Conn) :
    (s.setConn c x).pass = s.pass := rfl

@[simp] theorem pass_update (s : TcpServer τ) (c : Nat) (x : Conn) :
    (s.update c x).pass = s.pass :=
  pass_setLoop rfl rfl

@[simp] theorem pass_remove (s : TcpServer τ) (c : Nat) (x : Conn) :
    (s.remove c x).pass = s.pass :=
  pass_setLoop rfl rfl

@[simp] theorem pass_push (s : TcpServer τ) (l c : Nat) (calls : List Call) :
    (s.push l c calls).pass = s.pass :=
  pass_setLoop rfl rfl

@[simp] theorem pass_queueInLoop (s : TcpServer τ) (own : Bool) (m : Nat) (f : Functor) :
    (s.queueInLoop own m f).pass = s.pass :=
  pass_setLoop rfl (queue_core _ own f).2

@[simp] theorem pass_store (s : TcpServer τ) (c : Nat) (x : Conn) (tcp : TcpConnection) :
    (s.store c x tcp).pass = s.pass := by
  unfold store
  split <;> simp

@[simp] theorem pass_handleClose (s : TcpServer τ) (l c : Nat) (x : Conn) :
    (s.handleClose l c x).pass = s.pass := by
  simp [TcpServer.handleClose]

@[simp] theorem pass_connectionEstablished (s : TcpServer τ) (l c : Nat) (x : Conn) :
    (s.connectionEstablished l c x).pass = s.pass := by
  simp [TcpServer.connectionEstablished]

@[simp] theorem pass_connectionDestroyed (s : TcpServer τ) (l c : Nat) (x : Conn) :
    (s.connectionDestroyed l c x).pass = s.pass := by
  unfold TcpServer.connectionDestroyed
  dsimp only
  split <;> simp

@[simp] theorem pass_removeConnectionInLoop (s : TcpServer τ) (c : Nat) (x : Conn) :
    (s.removeConnectionInLoop c x).pass = s.pass := by
  simp only [TcpServer.removeConnectionInLoop, pass_queueInLoop, pass_setConn]
  rfl

@[simp] theorem pass_removeConnection (s : TcpServer τ) (l c : Nat) (x : Conn) :
    (s.removeConnection l c x).pass = s.pass := by
  unfold TcpServer.removeConnection
  dsimp only
  split <;> simp

theorem pass_sendInLoop {p : Payload} {w : WriteResult} (h : s.sendInLoop l c x p w = some s') :
    s'.pass = s.pass := by
  obtain ⟨tcp, due, _, rfl⟩ := sendInLoop_some h
  simp

theorem pass_handleWrite {w : WriteResult} (h : s.handleWrite l c x w = some s') :
    s'.pass = s.pass := by
  obtain ⟨⟨tcp, due⟩, _, rfl⟩ := Option.map_eq_some_iff.1 h
  cases due <;> simp

theorem pass_handleRead {r : ReadvResult} (h : s.handleRead l c x r = some s') :
    s'.pass = s.pass := by
  obtain ⟨⟨tcp, outcome⟩, _, rfl⟩ := Option.map_eq_some_iff.1 h
  cases outcome <;> simp

theorem pass_handle {r : ReadvResult} {w : WriteResult} (h : s.handle l r w = some s') :
    s'.pass = s.pass := by
  unfold TcpServer.handle at h
  split at h
  · split at h
    · cases h
    · have hframes : ∀ frames, (s.setLoop l { s.loops l with frames := frames }).pass = s.pass :=
        fun _ => pass_setLoop rfl rfl
      dsimp only at h
      split at h
      · cases h
        simp [hframes]
      · cases h
        simp [hframes]
      · simpa [hframes] using pass_handleRead h
      · simpa [hframes] using pass_handleWrite h
  · cases h

theorem pass_resume (h : s.resume l = some s') : s'.pass = s.pass := by
  unfold TcpServer.resume at h
  split at h
  · cases h
  · have hframes : ∀ frames, (s.setLoop l { s.loops l with frames := frames }).pass = s.pass :=
      fun _ => pass_setLoop rfl rfl
    dsimp only at h
    split at h
    · cases h
    · split at h
      all_goals first
        | cases h
          simp [hframes]
        | split at h <;> cases h
          simp [hframes]

theorem queued_eq (L : Loop) : L.core.queued = L.rest ++ L.core.pendingFunctors := by
  unfold EventLoop.queued Loop.rest
  cases L.core.pc <;> rfl

/-- The functors not yet started are in the vector of the pass. -/
def Batched (s : TcpServer τ) : Prop := ∀ l, (s.loops l).rest ⊆ (s.loops l).functors

theorem Batched.same (h : Batched s) (hpass : s'.pass = s.pass) : Batched s' := by
  intro l
  have heq := congrFun hpass l
  simp only [pass, Prod.mk.injEq] at heq
  rw [heq.1, heq.2]
  exact h l

theorem Batched.setLoop {L : Loop} (h : Batched s) (hL : L.rest ⊆ L.functors) :
    Batched (s.setLoop l L) := by
  intro m
  rw [loops_setLoop]
  split
  · exact hL
  · exact h m

theorem Batched.runFunctor {p : Payload} {w : WriteResult} (h : Batched s)
    (hs : s.runFunctor l p w = some s') : Batched s' := by
  unfold TcpServer.runFunctor at hs
  dsimp only at hs
  split at hs
  · rename_i c job rest hframes hpc
    have hrest : Batched (s.setLoop l
        { s.loops l with core := { (s.loops l).core with pc := .running rest } }) := by
      refine h.setLoop fun f hf => h l ?_
      rw [Loop.rest, hpc]
      exact List.mem_cons_of_mem _ hf
    split at hs
    · cases hs
    · split at hs
      · cases hs
        exact hrest.same (by simp)
      · split at hs
        · exact hrest.same (pass_sendInLoop hs)
        · cases hs
      · split at hs <;> cases hs
        exact hrest.same (by simp)
      · cases hs
        exact hrest.same (by simp)
      · split at hs <;> cases hs
        exact hrest.same (by simp)
      · cases hs
        exact hrest.same (by simp)
  · cases hs

theorem Batched.loopStep {a : EventLoop.Label} (h : Batched s) (hs : s.loopStep l a = some s') :
    Batched s' := by
  unfold TcpServer.loopStep at hs
  dsimp only at hs
  split at hs
  · rename_i hready
    obtain ⟨core, hcore, rfl⟩ := Option.map_eq_some_iff.1 hs
    have hold := h l
    refine h.setLoop ?_
    cases EventLoop.step_move hcore with
    | swapFunctors => exact List.Subset.refl _
    | runFunctor => simp [canStep] at hready
    | finishFunctors hpc => simp [Loop.rest]
    | _ => simp_all [Loop.rest, Loop.functorsAfter]
  · cases hs

theorem Batched.acceptor (fd : Option Int) (h : Batched s)
    (hs : s.acceptorHandleRead fd = some s') : Batched s' := by
  unfold TcpServer.acceptorHandleRead at hs
  dsimp only at hs
  split at hs
  · rename_i active _
    have hactive : Batched (s.setLoop 0 { s.loops 0 with active := active }) :=
      h.same (pass_setLoop rfl rfl)
    split at hs
    · split at hs
      · cases hs
        exact hactive.same (pass_setLoop rfl rfl)
      · split at hs
        · obtain ⟨tcp, _, rfl⟩ := Option.map_eq_some_iff.1 hs
          refine hactive.same ?_
          unfold TcpServer.newConnection
          dsimp only
          split
          · rw [pass_connectionEstablished]
            rfl
          · rw [pass_queueInLoop]
            rfl
        · cases hs
    · cases hs
  · cases hs

theorem pass_poll {wake : Bool} {ready : List Ready} (hs : s.poll l wake ready = some s') :
    s'.pass = s.pass := by
  unfold TcpServer.poll at hs
  dsimp only at hs
  split at hs
  · obtain ⟨core, hcore, rfl⟩ := Option.map_eq_some_iff.1 hs
    funext m
    simp only [pass, loops_setLoop]
    split
    · rename_i hm
      cases EventLoop.step_move hcore with
      | pollReturns _ hpc => simp [hm, Loop.rest, hpc]
    · rfl
  · cases hs

theorem pass_dispatch (hs : s.dispatch l = some s') : s'.pass = s.pass := by
  unfold TcpServer.dispatch at hs
  dsimp only at hs
  split at hs
  · split at hs <;> cases hs
    rw [pass_push]
    exact pass_setLoop rfl rfl
  · cases hs

theorem pass_ownSend {p : Payload} {w : WriteResult} (hs : s.ownSend l c p w = some s') :
    s'.pass = s.pass := by
  unfold TcpServer.ownSend at hs
  split at hs
  · cases hs
  · split at hs
    · split at hs
      · exact pass_sendInLoop hs
      · cases hs
        rfl
    · cases hs

theorem pass_dtorNext (hs : s.dtorNext c = some s') : s'.pass = s.pass := by
  unfold TcpServer.dtorNext at hs
  split at hs
  · cases hs
  · split at hs
    · dsimp only at hs
      split at hs <;> cases hs
      · rw [pass_connectionDestroyed]
        rfl
      · rw [pass_queueInLoop]
        rfl
    · cases hs

variable [DecidableEq τ]

theorem Batched.step {a : Action τ} (h : Batched s) (hs : s.step a = some s') : Batched s' := by
  cases a with
  | loop l a => exact h.loopStep hs
  | runFunctor l p w => exact h.runFunctor hs
  | acceptFails => exact h.acceptor none hs
  | accept fd => exact h.acceptor (some fd) hs
  | handle l r w => exact h.same (pass_handle hs)
  | resume l => exact h.same (pass_resume hs)
  | poll l wake ready => exact h.same (pass_poll hs)
  | dispatch l => exact h.same (pass_dispatch hs)
  | ownSend l c p w => exact h.same (pass_ownSend hs)
  | dtorNext c => exact h.same (pass_dtorNext hs)
  | quit l =>
      cases hs
      exact h.same (pass_setLoop rfl rfl)
  | ownShutDown l c =>
      simp only [TcpServer.step, TcpServer.ownShutDown] at hs
      split at hs
      · cases hs
      · split at hs
        · split at hs <;> cases hs <;> exact h.same rfl
        · cases hs
  | destruct c =>
      simp only [TcpServer.step, TcpServer.destruct] at hs
      split at hs
      · cases hs
      · split at hs <;> cases hs
        exact h.same rfl
  | sendCheck t c len =>
      simp only [TcpServer.step, TcpServer.check] at hs
      split at hs
      · cases hs
      · split at hs
        · split at hs <;> cases hs <;> exact h.same rfl
        · cases hs
  | shutCheck t c =>
      simp only [TcpServer.step, TcpServer.check] at hs
      split at hs
      · cases hs
      · split at hs
        · split at hs <;> cases hs <;> exact h.same rfl
        · cases hs
  | sendQueue t =>
      simp only [TcpServer.step] at hs
      split at hs
      · obtain ⟨x, _, rfl⟩ := Option.map_eq_some_iff.1 hs
        exact h.same (pass_queueInLoop ..)
      · cases hs
  | shutSet t =>
      simp only [TcpServer.step] at hs
      split at hs
      · obtain ⟨x, _, rfl⟩ := Option.map_eq_some_iff.1 hs
        exact h.same rfl
      · cases hs
  | shutQueue t =>
      simp only [TcpServer.step] at hs
      split at hs
      · obtain ⟨x, _, rfl⟩ := Option.map_eq_some_iff.1 hs
        exact h.same (pass_queueInLoop ..)
      · cases hs
  | obtain t c =>
      simp only [TcpServer.step] at hs
      split at hs <;> cases hs
      exact h.same rfl
  | drop t c =>
      simp only [TcpServer.step] at hs
      split at hs <;> cases hs
      exact h.same rfl
  | dtorBegin =>
      simp only [TcpServer.step] at hs
      split at hs <;> cases hs
      exact h.same rfl

theorem batched_of_reach {guard : TcpServer τ → Action τ → Prop}
    (h : (machine τ).Reach guard s) : Batched s := by
  apply h.invariant
  · intro s hs l
    rw [hs.loops l]
    exact List.nil_subset _
  · intro s a s' hI _ hs
    exact hI.step (step_of_machine hs)

end Passes

/-! ## Holders of queued sends -/

section Runs

variable [DecidableEq τ] {s : TcpServer τ} {l : Nat} {f : Functor} {rest : List Functor}

/-- The next functor of a pass, when it has the bare `this` of its connection, finds a
holder of that connection, in every run in which the last user pointer is dropped, or
the connection of the main loop erased by `~TcpServer`, only when what is left covers
the queued functors. -/
theorem bare_functor_held (h : (machine τ).Reach (Guarded fun v a => v.leavesCovered a) s)
    (hrest : (s.loops l).rest = f :: rest) (hbare : f.job.bare = true) :
    s.held f.conn = true := by
  have hsane := sane_of_reach h
  have hbatched := batched_of_reach h
  have hmem : f ∈ (s.loops l).rest := by
    rw [hrest]
    exact List.mem_cons_self
  have hkind : f.job ≠ .removeConnection := by
    intro heq
    rw [heq] at hbare
    cases hbare
  have hplaced := hsane.threads.functors l f (List.mem_append_left _ (hbatched l hmem))
  rw [Placed, if_neg hkind] at hplaced
  obtain ⟨x, hx, hloop⟩ := hplaced
  have hjob : f.job ∈ (s.view f.conn x).rest := by
    refine mem_jobsOf.2 ⟨?_, hkind⟩
    rw [hloop]
    exact hmem
  have hlimit := loop_le_threads h hx
  have hcovered := view_invariant (I := View.Covered) (fun _ => View.Start.covered)
    (fun _ _ _ _ hI hguard hs => hI.step hs hguard) h hx
  have hshares : ∀ {l : Nat} (job : Job), l ≤ s.threads → job.bare = false →
      ⟨f.conn, job⟩ ∈ (s.loops l).functors ++ (s.loops l).core.pendingFunctors →
        s.held f.conn = true := by
    intro l job hl hshared hjob
    rw [held, owned_of_functor job hl hjob hshared, Bool.true_or]
  rcases hcovered.owner with husers | hcover
  · obtain ⟨t, ht⟩ := List.exists_mem_of_ne_nil _ husers
    simp only [held, Bool.or_eq_true, List.any_eq_true]
    exact Or.inr ⟨_, mem_usersOf.1 ht, by simp⟩
  · rcases View.covered_iff.1 hcover with hmap | hremovals | ⟨job, hpending, hshared⟩ |
      ⟨_, ⟨job, hbatch, hshared⟩ | hnone⟩
    · simp only [held, owned, Bool.or_eq_true]
      exact Or.inl (Or.inl hmap)
    · have hqueued := List.count_pos_iff.1 hremovals
      refine hshares .removeConnection (Nat.zero_le _) rfl (List.mem_append.2 ?_)
      rw [queued_eq, List.mem_append] at hqueued
      exact hqueued.imp_left fun hwaiting => hbatched 0 hwaiting
    · exact hshares job hlimit hshared (List.mem_append_right _ (mem_jobsOf.1 hpending).1)
    · exact hshares job hlimit hshared (List.mem_append_left _ (mem_jobsOf.1 hbatch).1)
    · exact absurd hbare (by simp [hnone f.job hjob])

end Runs

theorem bare_functor_held_dropped : ∃ s : TcpServer Nat,
    (s.loops 0).rest = [⟨0, .sendInLoop 1⟩] ∧ s.held 0 = true := by
  rcases Machine.Reach.of_test (machine Nat) (Guarded fun v a => v.leavesCovered a)
      (fun s => (s.loops 0).rest == [⟨0, .sendInLoop 1⟩])
      (accepting ++ [.obtain 1 0, .sendCheck 1 0 1, .sendQueue 1, .drop 1 0, .resume 0, .resume 0,
        .loop 0 .doPendingFunctors, .loop 0 .swapFunctors])
      (.start (new_initial 0 false)) (by decide +kernel) with ⟨s, hreach, htest⟩
  rw [beq_iff_eq] at htest
  exact ⟨s, htest, bare_functor_held hreach htest rfl⟩

/-- A send of thread 1 has seen the connection connected when the peer hangs up. It is
queued after the pass of `ConnectionDestroyed` began, and its pointer dropped before
the next pass runs it. -/
theorem bare_functor_dangling : ¬ ∀ (s : TcpServer Nat) (l : Nat) (f : Functor)
    (rest : List Functor), (machine Nat).Reach (fun _ _ => True) s →
      (s.loops l).rest = f :: rest → f.job.bare = true → s.held f.conn = true := by
  intro hclaim
  rcases Machine.Reach.of_test (machine Nat) (fun _ _ => True)
      (fun s => (s.loops 0).rest == [⟨0, .sendInLoop 1⟩] && !s.held 0)
      (accepting ++ [.obtain 1 0, .sendCheck 1 0 1] ++ polling ++ hangingUp ++ destroying ++
        [.sendQueue 1, .drop 1 0, .loop 0 .finishFunctors, .loop 0 .testQuit,
          .loop 0 .startPolling, .poll 0 true [], .loop 0 .handleWakeup,
          .loop 0 .doPendingFunctors, .loop 0 .swapFunctors])
      (.start (new_initial 0 false)) (by decide +kernel) with ⟨s, hreach, htest⟩
  rw [Bool.and_eq_true, beq_iff_eq] at htest
  have hheld := hclaim s 0 _ [] hreach htest.1 rfl
  simp [hheld] at htest

end MyNetLib.TcpServer
