import MyNetLib.Server.Holders

/-! # After the destructor of a connection

Once the last shared pointer is gone, what the server still has of a connection are
functors with its bare `this`, and those are not run. No map, call or user gets it back,
and no epoll set has its channel.
-/

namespace MyNetLib.TcpServer

open Library

variable {τ : Type}

structure Forgotten (s : TcpServer τ) (c : Nat) : Prop where
  map : c ∉ s.connectionMaps
  functors : ∀ l, ∀ f ∈ (s.loops l).all, f.conn = c → f.job.bare = true
  frames : ∀ l, ∀ f ∈ (s.loops l).frames, f.conn ≠ c
  users : ∀ u ∈ s.users, u.2 ≠ c
  watched : ∀ l fd e, (s.loops l).epollSet fd = some e → e.ptr ≠ c

variable {s s' : TcpServer τ} {l m c d : Nat} {x y : Conn} {L : Loop}

theorem held_iff : s.held c = true ↔ c ∈ s.connectionMaps ∨
    (∃ l, l ≤ s.threads ∧
      ((∃ f ∈ (s.loops l).functors ++ (s.loops l).core.pendingFunctors,
        f.conn = c ∧ f.job.bare = false) ∨ ∃ f ∈ (s.loops l).frames, f.conn = c)) ∨
    ∃ u ∈ s.users, u.2 = c := by
  simp only [held, owned, Loop.holds, Bool.or_eq_true, List.any_eq_true, List.contains_iff_mem,
    List.mem_range, Nat.lt_succ_iff, Bool.and_eq_true, beq_iff_eq, Bool.not_eq_true', or_assoc]

theorem mem_all_of_held {f : Functor} (hf : f ∈ L.functors ++ L.core.pendingFunctors) :
    f ∈ L.all := by
  rw [Loop.all, queued_eq]
  rcases List.mem_append.1 hf with hpass | hpending
  · exact List.mem_append_left _ hpass
  · exact List.mem_append_right _ (List.mem_append_right _ hpending)

theorem Batched.mem_all (h : Batched s) {f : Functor} (hf : f ∈ (s.loops l).all) :
    f ∈ (s.loops l).functors ++ (s.loops l).core.pendingFunctors := by
  rw [Loop.all, queued_eq] at hf
  rcases List.mem_append.1 hf with hpass | hqueue
  · exact List.mem_append_left _ hpass
  · rcases List.mem_append.1 hqueue with hrest | hpending
    · exact List.mem_append_left _ (h l hrest)
    · exact List.mem_append_right _ hpending

namespace Forgotten

/-! ## What is left of the state -/

theorem rest (h : Forgotten s c) (hloops : s'.loops = s.loops) (hmap : c ∉ s'.connectionMaps)
    (husers : ∀ u ∈ s'.users, u.2 ≠ c) : Forgotten s' c := by
  refine ⟨hmap, ?_, ?_, husers, ?_⟩
  · rw [hloops]
    exact h.functors
  · rw [hloops]
    exact h.frames
  · rw [hloops]
    exact h.watched

theorem unheld (h : Forgotten s c) : s.held c = false := by
  rw [← Bool.not_eq_true, held_iff]
  rintro (hmap | ⟨l, _, ⟨f, hf, hconn, hshared⟩ | ⟨f, hf, hconn⟩⟩ | ⟨u, hu, hconn⟩)
  · exact h.map hmap
  · rw [h.functors l f (mem_all_of_held hf) hconn] at hshared
    cases hshared
  · exact h.frames l f hf hconn
  · exact h.users u hu hconn

theorem ne_of_held (h : Forgotten s c) (hd : s.held d = true) : d ≠ c := by
  rintro rfl
  rw [h.unheld] at hd
  cases hd

theorem ne_of_call (h : Forgotten s c) (hd : s.canCall l d x = true) : d ≠ c := by
  simp only [canCall, Bool.and_eq_true, Bool.or_eq_true, List.any_eq_true, beq_iff_eq] at hd
  rintro rfl
  rcases hd.2 with ⟨f, hf, rfl⟩ | ⟨u, hu, hconn⟩
  · exact h.frames l _ hf rfl
  · exact h.users u hu hconn

theorem ne_of_obtain (h : Forgotten s c) (hd : s.canObtain d = true) : d ≠ c := by
  simp only [canObtain, Bool.or_eq_true, List.any_eq_true, beq_iff_eq] at hd
  rintro rfl
  rcases hd with ⟨l, _, f, hf, rfl⟩ | ⟨u, hu, hconn⟩
  · exact h.frames l _ hf rfl
  · exact h.users u hu hconn

theorem setLoop (h : Forgotten s c) (hfunctors : ∀ f ∈ L.all, f.conn = c → f.job.bare = true)
    (hframes : ∀ f ∈ L.frames, f.conn ≠ c)
    (hwatched : ∀ fd e, L.epollSet fd = some e → e.ptr ≠ c) : Forgotten (s.setLoop l L) c := by
  refine ⟨h.map, ?_, ?_, h.users, ?_⟩
  · intro m f hf
    rw [loops_setLoop] at hf
    split at hf
    · exact hfunctors f hf
    · exact h.functors m f hf
  · intro m f hf
    rw [loops_setLoop] at hf
    split at hf
    · exact hframes f hf
    · exact h.frames m f hf
  · intro m fd e he
    rw [loops_setLoop] at he
    split at he
    · exact hwatched fd e he
    · exact h.watched m fd e he

theorem setConn (h : Forgotten s c) (d : Nat) (x : Conn) : Forgotten (s.setConn d x) c :=
  h.rest rfl h.map h.users

theorem push (h : Forgotten s c) (hd : d ≠ c) (l : Nat) (calls : List Call) :
    Forgotten (s.push l d calls) c := by
  refine h.setLoop (h.functors l) ?_ (h.watched l)
  intro f hf
  rcases List.mem_append.1 hf with hnew | hold
  · obtain ⟨call, _, rfl⟩ := List.mem_map.1 hnew
    exact hd
  · exact h.frames l f hold

theorem setFrames (h : Forgotten s c) {frames : List Frame}
    (hframes : ∀ f ∈ frames, f.conn ≠ c) :
    Forgotten (s.setLoop l { s.loops l with frames := frames }) c :=
  h.setLoop (h.functors l) hframes (h.watched l)

theorem setActive (h : Forgotten s c) (active : List Ready) :
    Forgotten (s.setLoop l { s.loops l with active := active }) c :=
  h.setLoop (h.functors l) (h.frames l) (h.watched l)

theorem setPoller {p : EpollPoller Nat} (h : Forgotten s c)
    (hp : ∀ fd e, p.epollSet fd = some e → e.ptr ≠ c) :
    Forgotten (s.setLoop l ((s.loops l).setPoller p)) c :=
  h.setLoop (h.functors l) (h.frames l) hp

theorem queueInLoop {f : Functor} (h : Forgotten s c) (hf : f.conn = c → f.job.bare = true)
    (own : Bool) (m : Nat) : Forgotten (s.queueInLoop own m f) c := by
  refine h.setLoop ?_ (h.frames m) (h.watched m)
  intro g hg
  rcases mem_all_queue hg with hold | rfl
  · exact h.functors m g hold
  · exact hf

/-! ## The functions of another connection -/

theorem update (h : Forgotten s c) (hd : d ≠ c) (x : Conn) : Forgotten (s.update d x) c := by
  rw [update_eq]
  refine (h.setPoller ?_).setConn d _
  intro fd e he
  rcases EpollPoller.updateChannel_epollSet he with ⟨_, hptr, _⟩ | ⟨hold, _⟩
  · rw [hptr]
    exact hd
  · exact h.watched x.loop fd e hold

theorem remove (h : Forgotten s c) (d : Nat) (x : Conn) : Forgotten (s.remove d x) c := by
  rw [remove_eq]
  refine (h.setPoller ?_).setConn d _
  intro fd e he
  exact h.watched x.loop fd e (EpollPoller.removeChannel_epollSet he).1

theorem connectionEstablished (h : Forgotten s c) (hd : d ≠ c) (l : Nat) (x : Conn) :
    Forgotten (s.connectionEstablished l d x) c :=
  (h.update hd _).push hd l _

theorem handleClose (h : Forgotten s c) (hd : d ≠ c) (l : Nat) (x : Conn) :
    Forgotten (s.handleClose l d x) c :=
  (h.update hd _).push hd l _

theorem connectionDestroyed (h : Forgotten s c) (hd : d ≠ c) (l : Nat) (x : Conn) :
    Forgotten (s.connectionDestroyed l d x) c := by
  unfold TcpServer.connectionDestroyed
  dsimp only
  split
  · exact (h.setConn d _).push hd l _
  · exact h.remove d _

theorem store (h : Forgotten s c) (hd : d ≠ c) (x : Conn) (tcp : TcpConnection) :
    Forgotten (s.store d x tcp) c := by
  unfold TcpServer.store
  split
  · exact h.setConn d _
  · exact h.update hd _

theorem sendInLoop {p : Payload} {w : WriteResult} (h : Forgotten s c) (hd : d ≠ c)
    (hs : s.sendInLoop l d x p w = some s') : Forgotten s' c := by
  obtain ⟨tcp, due, _, rfl⟩ := sendInLoop_some hs
  exact (h.store hd x tcp).push hd l _

theorem handleWrite {w : WriteResult} (h : Forgotten s c) (hd : d ≠ c)
    (hs : s.handleWrite l d x w = some s') : Forgotten s' c := by
  obtain ⟨⟨tcp, due⟩, _, rfl⟩ := Option.map_eq_some_iff.1 hs
  cases due with
  | true => exact (h.store hd x tcp).queueInLoop (fun hc => absurd hc hd) _ _
  | false => exact h.store hd x tcp

theorem handleRead {r : ReadvResult} (h : Forgotten s c) (hd : d ≠ c)
    (hs : s.handleRead l d x r = some s') : Forgotten s' c := by
  obtain ⟨⟨tcp, outcome⟩, _, rfl⟩ := Option.map_eq_some_iff.1 hs
  cases outcome with
  | message => exact (h.setConn d _).push hd l _
  | close => exact h.handleClose hd l _
  | error => exact h.setConn d _

theorem removeConnectionInLoop (h : Forgotten s c) (hd : d ≠ c) (x : Conn) :
    Forgotten (s.removeConnectionInLoop d x) c := by
  have hmaps : Forgotten { s with connectionMaps := s.connectionMaps.filter (· ≠ d) } c :=
    h.rest rfl (fun hc => h.map (List.mem_of_mem_filter hc)) h.users
  exact (hmaps.setConn d _).queueInLoop (fun hc => absurd hc hd) _ _

theorem removeConnection (h : Forgotten s c) (hd : d ≠ c) (l : Nat) (x : Conn) :
    Forgotten (s.removeConnection l d x) c := by
  unfold TcpServer.removeConnection
  dsimp only
  split
  · exact h.removeConnectionInLoop hd _
  · exact (h.setConn d _).queueInLoop (fun hc => absurd hc hd) _ _

theorem newConnection (h : Forgotten s c) (hc : c < s.conns.length) (tcp : TcpConnection) :
    Forgotten (s.newConnection tcp) c := by
  have hne : s.conns.length ≠ c := Nat.ne_of_gt hc
  have hadded : Forgotten { s with
      next := s.advanceNext
      conns := s.conns ++ [⟨tcp, s.getNextLoop, false, []⟩]
      connectionMaps := s.connectionMaps ++ [s.conns.length] } c := by
    refine h.rest rfl ?_ h.users
    intro hmem
    rcases List.mem_append.1 hmem with hold | hnew
    · exact h.map hold
    · exact hne (List.mem_singleton.1 hnew).symm
  unfold TcpServer.newConnection
  dsimp only
  split
  · exact hadded.connectionEstablished hne 0 _
  · exact hadded.queueInLoop (fun hsame => absurd hsame hne) _ _

/-! ## The steps -/

theorem loopStep {a : EventLoop.Label} (h : Forgotten s c) (hs : s.loopStep l a = some s') :
    Forgotten s' c := by
  unfold TcpServer.loopStep at hs
  dsimp only at hs
  split at hs
  · rename_i hready
    rw [Bool.and_eq_true] at hready
    obtain ⟨core, hcore, rfl⟩ := Option.map_eq_some_iff.1 hs
    have hrun : a ≠ .runFunctor := by
      rintro rfl
      cases hready.2
    refine h.setLoop ?_ (h.frames l) (h.watched l)
    intro f hf
    exact h.functors l f (mem_all_step hcore hrun hf)
  · cases hs

theorem poll {wake : Bool} {ready : List Ready} (h : Forgotten s c)
    (hs : s.poll l wake ready = some s') : Forgotten s' c := by
  unfold TcpServer.poll at hs
  dsimp only at hs
  split at hs
  · obtain ⟨core, hcore, rfl⟩ := Option.map_eq_some_iff.1 hs
    refine h.setLoop ?_ (h.frames l) (h.watched l)
    intro f hf
    apply h.functors l f
    rw [Loop.all, ← EventLoop.queued_step hcore (by simp)]
    exact hf
  · cases hs

theorem acceptorHandleRead (fd : Option Int) (h : Forgotten s c) (hc : c < s.conns.length)
    (hs : s.acceptorHandleRead fd = some s') : Forgotten s' c := by
  unfold TcpServer.acceptorHandleRead at hs
  dsimp only at hs
  split at hs
  · rename_i active _
    have hpop := h.setActive (l := 0) active
    split at hs
    · split at hs
      · cases hs
        exact hpop.setLoop (hpop.functors 0) (hpop.frames 0) (hpop.watched 0)
      · split at hs
        · obtain ⟨tcp, _, rfl⟩ := Option.map_eq_some_iff.1 hs
          exact hpop.newConnection hc tcp
        · cases hs
    · cases hs
  · cases hs

theorem dispatch (h : Forgotten s c) (hs : s.dispatch l = some s') : Forgotten s' c := by
  unfold TcpServer.dispatch at hs
  dsimp only at hs
  split at hs
  · rename_i d revents active _
    split at hs
    · rename_i hheld
      rw [Bool.and_eq_true] at hheld
      cases hs
      exact (h.setActive active).push (h.ne_of_held hheld.2) l _
    · cases hs
  · cases hs

theorem handle {r : ReadvResult} {w : WriteResult} (h : Forgotten s c)
    (hs : s.handle l r w = some s') : Forgotten s' c := by
  unfold TcpServer.handle at hs
  split at hs
  · rename_i d revents handler todo frames hframes
    have hold := h.frames l
    rw [hframes] at hold
    have hd : d ≠ c := hold _ List.mem_cons_self
    split at hs
    · cases hs
    · have hpop : Forgotten (s.setLoop l { s.loops l with
          frames := ⟨d, .handleEvent revents todo⟩ :: frames }) c := by
        refine h.setFrames ?_
        intro f hf
        rcases List.mem_cons.1 hf with rfl | hrest
        · exact hd
        · exact hold f (List.mem_cons_of_mem _ hrest)
      split at hs
      · cases hs
        exact (hpop.setConn d _).handleClose hd l _
      · cases hs
        exact hpop.setConn d _
      · exact (hpop.setConn d _).handleRead hd hs
      · exact (hpop.setConn d _).handleWrite hd hs
  · cases hs

theorem resume (h : Forgotten s c) (hs : s.resume l = some s') : Forgotten s' c := by
  unfold TcpServer.resume at hs
  split at hs
  · cases hs
  · rename_i d call frames hframes
    have hold := h.frames l
    rw [hframes] at hold
    have hd : d ≠ c := hold _ List.mem_cons_self
    have hpop : Forgotten (s.setLoop l { s.loops l with frames := frames }) c :=
      h.setFrames fun f hf => hold f (List.mem_cons_of_mem _ hf)
    dsimp only at hs
    split at hs
    · cases hs
    · split at hs
      · cases hs
        exact hpop
      · cases hs
        exact hpop.setConn d _
      · split at hs <;> cases hs
        exact hpop
      · split at hs <;> cases hs
        exact (hpop.removeConnection hd l _).push hd l _
      · cases hs
        exact hpop.setConn d _
      · cases hs
        exact (hpop.update hd _).push hd l _
      · cases hs
        exact hpop.remove d _

/-- A functor with the bare `this` runs while something holds its connection. -/
theorem runFunctor {p : Payload} {w : WriteResult} (h : Forgotten s c)
    (hs : s.runFunctor l p w = some s') : Forgotten s' c := by
  unfold TcpServer.runFunctor at hs
  dsimp only at hs
  split at hs
  · rename_i d job rest _ hpc
    have hall : ∀ f ∈ (⟨d, job⟩ : Functor) :: rest, f.conn = c → f.job.bare = true := by
      intro f hf
      apply h.functors l f
      rw [Loop.all, EventLoop.queued_running hpc]
      exact List.mem_append_right _ (List.mem_append_left _ hf)
    have hd : job.bare = false → d ≠ c := by
      rintro hshared rfl
      rw [hall _ List.mem_cons_self rfl] at hshared
      cases hshared
    have hpop : Forgotten (s.setLoop l
        { s.loops l with core := { (s.loops l).core with pc := .running rest } }) c := by
      refine h.setLoop ?_ (h.frames l) (h.watched l)
      intro f hf
      exact h.functors l f (mem_all_running hpc hf)
    split at hs
    · cases hs
    · split at hs
      · cases hs
        exact hpop.connectionEstablished (hd rfl) l _
      · split at hs
        · rename_i hheld
          rw [Bool.and_eq_true] at hheld
          exact hpop.sendInLoop (h.ne_of_held hheld.1) hs
        · cases hs
      · split at hs <;> cases hs
        exact hpop.setConn d _
      · cases hs
        exact hpop.push (hd rfl) l _
      · split at hs <;> cases hs
        exact hpop.removeConnectionInLoop (hd rfl) _
      · cases hs
        exact hpop.connectionDestroyed (hd rfl) l _
  · cases hs

theorem ownSend {p : Payload} {w : WriteResult} (h : Forgotten s c)
    (hs : s.ownSend l d p w = some s') : Forgotten s' c := by
  unfold TcpServer.ownSend at hs
  split at hs
  · cases hs
  · split at hs
    · rename_i hcall
      split at hs
      · exact h.sendInLoop (h.ne_of_call hcall) hs
      · cases hs
        exact h
    · cases hs

theorem ownShutDown (h : Forgotten s c) (hs : s.ownShutDown l d = some s') : Forgotten s' c := by
  unfold TcpServer.ownShutDown at hs
  split at hs
  · cases hs
  · split at hs
    · split at hs
      · cases hs
        exact h.setConn d _
      · cases hs
        exact h
    · cases hs

theorem dtorNext (h : Forgotten s c) (hs : s.dtorNext d = some s') : Forgotten s' c := by
  unfold TcpServer.dtorNext at hs
  split at hs
  · cases hs
  · split at hs
    · rename_i hmap
      rw [Bool.and_eq_true, List.contains_iff_mem] at hmap
      have hd : d ≠ c := by
        rintro rfl
        exact h.map hmap.2
      have hmaps : Forgotten { s with connectionMaps := s.connectionMaps.filter (· ≠ d) } c :=
        h.rest rfl (fun hc => h.map (List.mem_of_mem_filter hc)) h.users
      dsimp only at hs
      split at hs <;> cases hs
      · exact hmaps.connectionDestroyed hd 0 _
      · exact hmaps.queueInLoop (fun hc => absurd hc hd) _ _
    · cases hs

theorem destruct (h : Forgotten s c) (hs : s.destruct d = some s') : Forgotten s' c := by
  unfold TcpServer.destruct at hs
  split at hs
  · cases hs
  · split at hs <;> cases hs
    refine ⟨h.map, h.functors, h.frames, h.users, ?_⟩
    intro l fd e he
    simp only [Function.update_apply] at he
    split at he
    · cases he
    · exact h.watched l fd e he

section Steps

variable [DecidableEq τ]

theorem check {t : τ} {caller : Caller} (h : Forgotten s c)
    (hs : s.check t d caller = some s') : Forgotten s' c := by
  unfold TcpServer.check at hs
  split at hs
  · cases hs
  · split at hs
    · split at hs <;> cases hs
      · exact h.rest rfl h.map h.users
      · exact h
    · cases hs

theorem queueCall {job : Job} (h : Forgotten s c) (hjob : job.bare = true) (t : τ) (m d : Nat) :
    Forgotten ((s.queueInLoop false m ⟨d, job⟩).setCaller t .outside) c := by
  have hqueue := h.queueInLoop (f := ⟨d, job⟩) (fun _ => hjob) false m
  exact hqueue.rest rfl hqueue.map hqueue.users

theorem step {a : Action τ} (h : Forgotten s c) (hc : c < s.conns.length)
    (hs : s.step a = some s') : Forgotten s' c := by
  cases a with
  | loop l b => exact h.loopStep hs
  | poll l wake ready => exact h.poll hs
  | acceptFails => exact h.acceptorHandleRead none hc hs
  | accept fd => exact h.acceptorHandleRead (some fd) hc hs
  | dispatch l => exact h.dispatch hs
  | handle l r w => exact h.handle hs
  | resume l => exact h.resume hs
  | runFunctor l p w => exact h.runFunctor hs
  | ownSend l d p w => exact h.ownSend hs
  | ownShutDown l d => exact h.ownShutDown hs
  | dtorNext d => exact h.dtorNext hs
  | destruct d => exact h.destruct hs
  | sendCheck t d len => exact h.check hs
  | shutCheck t d => exact h.check hs
  | quit l =>
      cases hs
      exact h.setLoop (h.functors l) (h.frames l) (h.watched l)
  | obtain t d =>
      simp only [TcpServer.step] at hs
      split at hs <;> cases hs
      rename_i hobtain
      refine h.rest rfl h.map ?_
      intro u hu
      rcases List.mem_cons.1 hu with rfl | hold
      · exact h.ne_of_obtain hobtain
      · exact h.users u hold
  | drop t d =>
      simp only [TcpServer.step] at hs
      split at hs <;> cases hs
      exact h.rest rfl h.map fun u hu => h.users u (List.mem_of_mem_erase hu)
  | sendQueue t =>
      simp only [TcpServer.step] at hs
      split at hs
      · obtain ⟨x, _, rfl⟩ := Option.map_eq_some_iff.1 hs
        exact h.queueCall rfl t x.loop _
      · cases hs
  | shutSet t =>
      simp only [TcpServer.step] at hs
      split at hs
      · obtain ⟨x, _, rfl⟩ := Option.map_eq_some_iff.1 hs
        exact h.rest rfl h.map h.users
      · cases hs
  | shutQueue t =>
      simp only [TcpServer.step] at hs
      split at hs
      · obtain ⟨x, _, rfl⟩ := Option.map_eq_some_iff.1 hs
        exact h.queueCall rfl t x.loop _
      · cases hs
  | dtorBegin =>
      simp only [TcpServer.step] at hs
      split at hs <;> cases hs
      exact h.rest rfl h.map h.users

end Steps

end Forgotten

/-! ## Runs -/

/-- The destructor runs when nothing holds the connection, and takes its descriptor out
of the epoll set of its loop. -/
theorem Sane.forgets (h : Sane s) (hbatched : Batched s) (hx : s.conns[c]? = some x)
    (hloop : x.loop ≤ s.threads) (hs : s.destruct c = some s') : Forgotten s' c := by
  have hlives : ∀ l, s.Lives l c → l ≤ s.threads := by
    rintro l ⟨y, hy, rfl⟩
    rw [hx, Option.some.injEq] at hy
    exact hy ▸ hloop
  unfold TcpServer.destruct at hs
  rw [hx] at hs
  dsimp only at hs
  split at hs <;> cases hs
  rename_i hfree
  rw [Bool.or_eq_true, not_or, held_iff] at hfree
  simp only [not_or, not_exists, not_and] at hfree
  obtain ⟨⟨hmap, hloops, husers⟩, -⟩ := hfree
  refine ⟨hmap, ?_, ?_, husers, ?_⟩
  · intro l f hf hconn
    have hl : l ≤ s.threads := by
      have hplaced := h.threads.functors l f hf
      rw [Placed] at hplaced
      split at hplaced
      · rw [hplaced.1]
        exact Nat.zero_le _
      · exact hlives l (hconn ▸ hplaced)
    exact eq_true_of_ne_false ((hloops l hl).1 f (hbatched.mem_all hf) hconn)
  · intro l f hf hconn
    exact (hloops l (hlives l (hconn ▸ h.threads.frames l f hf))).2 f hf hconn
  · rintro l fd e he rfl
    simp only [Function.update_apply] at he
    split at he
    · cases he
    · rename_i hfd
      obtain ⟨y, hy, _, hyfd, _⟩ := h.registry.watched l fd e he
      rw [hx, Option.some.injEq] at hy
      exact hfd (hy ▸ hyfd).symm

section Runs

variable [DecidableEq τ]

theorem View.Step.destructed_eq {v v' : View τ} {mine : Bool} {a : Action τ}
    (hs : v.Step mine a v') : v'.conn.destructed = v.conn.destructed ∨
      v'.conn.destructed = true ∧ mine = true ∧ ∃ c, a = .destruct c := by
  have hwrote : ∀ (x : Conn) tcp, (x.wrote tcp).destructed = x.destructed := by
    intro x tcp
    unfold Conn.wrote
    split <;> rfl
  have hdestroy : ∀ (v : View τ) l, (v.destroy l).conn.destructed = v.conn.destructed := by
    intro v l
    unfold View.destroy
    split <;> rfl
  cases hs with
  | destructed c => exact Or.inr ⟨rfl, rfl, c, rfl⟩
  | handledWrite | runSend | ownSent => exact Or.inl (hwrote _ _)
  | runDestroyed | dtorDestroyed => exact Or.inl (hdestroy _ _)
  | _ => exact Or.inl rfl

omit [DecidableEq τ] in
theorem View.Start.alive {v : View τ} (h : v.Start) : v.conn.destructed = false := by
  cases h with
  | queued _ _ _ _ _ _ hconn => rw [hconn]
  | established _ _ _ _ hconn =>
      rw [hconn]
      rfl

theorem destructed_forgotten {guard : TcpServer τ → Action τ → Prop}
    (h : (machine τ).Reach guard s) (hx : s.conns[c]? = some x) (hx' : x.destructed = true) :
    Forgotten s c := by
  induction h generalizing x with
  | start hs =>
      rw [hs.conns] at hx
      cases hx
  | @step s s' a hreach _ hs ih =>
      have hsane := sane_of_reach hreach
      have hstep := step_of_machine hs
      have hproject := hsane.projects_step hstep
      cases hz : s.conns[c]? with
      | none =>
          have halive := (hproject.new c x hz hx).alive
          rw [show (s'.view c x).conn = x from rfl, hx'] at halive
          cases halive
      | some z =>
          obtain ⟨y, hy, _, hview⟩ := hproject.old c z hz
          rw [hx, Option.some.injEq] at hy
          subst hy
          rcases hview.destructed_eq with hsame | ⟨_, hmine, d, ha⟩
          · have hlt : c < s.conns.length := (List.getElem?_eq_some_iff.1 hz).1
            exact (ih hz (hsame.symm.trans hx')).step hlt hstep
          · subst ha
            have hdc : some d = some c := of_decide_eq_true hmine
            cases hdc
            exact hsane.forgets (batched_of_reach hreach) hz (loop_le_threads hreach hz) hstep

end Runs

end MyNetLib.TcpServer
