import MyNetLib.Server.Lifecycle

/-! # Where a connection is mentioned

A connection's jobs, calls and channel are on its own loop only, its removal on
the main loop only, and what a poller or the kernel still has of a channel says
the same as the channel's `index_`. None of this depends on how the server is
used: every function keeps it.
-/

namespace MyNetLib.TcpServer

open Library

variable {τ : Type}

def Lives (s : TcpServer τ) (l c : Nat) : Prop := ∃ x, s.conns[c]? = some x ∧ x.loop = l

def Placed (s : TcpServer τ) (l : Nat) (f : Functor) : Prop :=
  if f.job = .removeConnection then l = 0 ∧ f.conn < s.conns.length else s.Lives l f.conn

/-- The functors a loop still has in memory. -/
def Loop.all (L : Loop) : List Functor := L.functors ++ L.core.queued

/-- The threads of the loops: whom their functors and calls are about. -/
structure Threads (s : TcpServer τ) : Prop where
  functors : ∀ l, ∀ f ∈ (s.loops l).all, s.Placed l f
  frames : ∀ l, ∀ f ∈ (s.loops l).frames, s.Lives l f.conn
  active : ∀ l c revents, .channel c revents ∈ (s.loops l).active → s.Lives l c
  phase : ∀ l, (∀ wake, (s.loops l).core.pc ≠ .handling wake) → (s.loops l).active = []

/-- A registration says what the channel's own `index_` says. -/
structure Registry (s : TcpServer τ) : Prop where
  mapped : ∀ l fd c, (s.loops l).channelMaps fd = some c →
    ∃ x, s.conns[c]? = some x ∧ x.loop = l ∧ x.tcp.channel.fd = fd ∧
      x.tcp.channel.index ≠ EpollPoller.kNew
  watched : ∀ l fd e, (s.loops l).epollSet fd = some e →
    ∃ x, s.conns[e.ptr]? = some x ∧ x.loop = l ∧ x.tcp.channel.fd = fd ∧
      x.tcp.channel.index = EpollPoller.kAdded
  index : ∀ (c : Nat) x, s.conns[c]? = some x → x.tcp.channel.index = EpollPoller.kNew ∨
    x.tcp.channel.index = EpollPoller.kDeleted ∨ x.tcp.channel.index = EpollPoller.kAdded

structure Sane (s : TcpServer τ) : Prop where
  threads : Threads s
  registry : Registry s
  known : ∀ c ∈ s.connectionMaps, c < s.conns.length
  users : ∀ u ∈ s.users, u.2 < s.conns.length
  callers : ∀ t c, (s.callers t).conn = some c → c < s.conns.length

variable {s s' : TcpServer τ} {l m c d : Nat} {x y z : Conn} {L : Loop}

/-! ## Connections stay where they are -/

def Keeps (s s' : TcpServer τ) : Prop :=
  ∀ (c : Nat) x, s.conns[c]? = some x → ∃ y, s'.conns[c]? = some y ∧ y.loop = x.loop

theorem Keeps.length_le (h : Keeps s s') : s.conns.length ≤ s'.conns.length := by
  by_contra hlt
  have hget : s.conns[s'.conns.length]? = some (s.conns[s'.conns.length]) :=
    List.getElem?_eq_getElem (by omega)
  obtain ⟨y, hy, _⟩ := h _ _ hget
  simp at hy

theorem Lives.keeps (h : s.Lives l c) (hk : Keeps s s') : s'.Lives l c := by
  obtain ⟨x, hx, hloop⟩ := h
  obtain ⟨y, hy, hyx⟩ := hk c x hx
  exact ⟨y, hy, hyx.trans hloop⟩

theorem Placed.keeps {f : Functor} (h : s.Placed l f) (hk : Keeps s s') : s'.Placed l f := by
  unfold Placed at h ⊢
  split
  · rename_i hjob
    rw [if_pos hjob] at h
    exact ⟨h.1, h.2.trans_le hk.length_le⟩
  · rename_i hjob
    rw [if_neg hjob] at h
    exact h.keeps hk

theorem Lives.placed {job : Job} (h : s.Lives l c) (hjob : job ≠ .removeConnection) :
    s.Placed l ⟨c, job⟩ := by
  rw [Placed, if_neg hjob]
  exact h

theorem Keeps.refl (h : s'.conns = s.conns) : Keeps s s' := by
  intro c x hx
  exact ⟨x, by rw [h]; exact hx, rfl⟩

theorem conns_set (hx : s.conns[c]? = some x) (y : Conn) (d : Nat) :
    (s.conns.set c y)[d]? = if d = c then some y else s.conns[d]? := by
  have hlt : c < s.conns.length := (List.getElem?_eq_some_iff.1 hx).1
  rw [List.getElem?_set]
  by_cases hd : c = d
  · simp [hd, hd ▸ hlt]
  · simp [hd, Ne.symm hd]

theorem keeps_set (hx : s.conns[c]? = some x) (hloop : y.loop = x.loop)
    (hconns : s'.conns = s.conns.set c y) : Keeps s s' := by
  intro d z hz
  rw [hconns, conns_set hx]
  by_cases hd : d = c
  · subst hd
    rw [hx, Option.some.injEq] at hz
    subst hz
    exact ⟨y, by simp, hloop⟩
  · exact ⟨z, by simp [hd, hz], rfl⟩

/-! ## Changes that leave the threads or the registrations alone -/

def SameThreads (s s' : TcpServer τ) : Prop :=
  ∀ l, (s'.loops l).core = (s.loops l).core ∧ (s'.loops l).functors = (s.loops l).functors ∧
    (s'.loops l).active = (s.loops l).active ∧ (s'.loops l).frames = (s.loops l).frames

theorem SameThreads.all (h : SameThreads s s') (l : Nat) :
    (s'.loops l).all = (s.loops l).all := by
  rw [Loop.all, Loop.all, (h l).1, (h l).2.1]

theorem Threads.same (h : Threads s) (hk : Keeps s s') (hsame : SameThreads s s') :
    Threads s' := by
  constructor
  · intro l f hf
    rw [hsame.all l] at hf
    exact (h.functors l f hf).keeps hk
  · intro l f hf
    rw [(hsame l).2.2.2] at hf
    exact (h.frames l f hf).keeps hk
  · intro l c revents hc
    rw [(hsame l).2.2.1] at hc
    exact (h.active l c revents hc).keeps hk
  · intro l hpc
    rw [(hsame l).1] at hpc
    rw [(hsame l).2.2.1]
    exact h.phase l hpc

theorem Registry.same (h : Registry s)
    (hmaps : ∀ l, (s'.loops l).channelMaps = (s.loops l).channelMaps)
    (hsets : ∀ l, (s'.loops l).epollSet = (s.loops l).epollSet)
    (hback : ∀ (c : Nat) y, s'.conns[c]? = some y → ∃ x, s.conns[c]? = some x ∧
      y.tcp.channel.index = x.tcp.channel.index)
    (hconns : ∀ (c : Nat) x, s.conns[c]? = some x → ∃ y, s'.conns[c]? = some y ∧
      y.loop = x.loop ∧ y.tcp.channel.fd = x.tcp.channel.fd ∧
      y.tcp.channel.index = x.tcp.channel.index) : Registry s' := by
  constructor
  · intro l fd c hc
    rw [hmaps l] at hc
    obtain ⟨x, hx, hloop, hfd, hindex⟩ := h.mapped l fd c hc
    obtain ⟨y, hy, hyl, hyf, hyi⟩ := hconns c x hx
    exact ⟨y, hy, hyl.trans hloop, hyf.trans hfd, by rw [hyi]; exact hindex⟩
  · intro l fd e he
    rw [hsets l] at he
    obtain ⟨x, hx, hloop, hfd, hindex⟩ := h.watched l fd e he
    obtain ⟨y, hy, hyl, hyf, hyi⟩ := hconns e.ptr x hx
    exact ⟨y, hy, hyl.trans hloop, hyf.trans hfd, hyi.trans hindex⟩
  · intro c y hy
    obtain ⟨x, hx, hyi⟩ := hback c y hy
    rw [hyi]
    exact h.index c x hx

/-- Any change of the rest of the state that names no new connection. -/
theorem Sane.rest (h : Sane s) (hloops : s'.loops = s.loops) (hconns : s'.conns = s.conns)
    (hmaps : ∀ c ∈ s'.connectionMaps, c < s.conns.length)
    (husers : ∀ u ∈ s'.users, u.2 < s.conns.length)
    (hcallers : ∀ t c, (s'.callers t).conn = some c → c < s.conns.length) : Sane s' := by
  constructor
  · refine h.threads.same (.refl hconns) fun l => ?_
    rw [hloops]
    exact ⟨rfl, rfl, rfl, rfl⟩
  · refine h.registry.same (fun l => by rw [hloops]) (fun l => by rw [hloops]) ?_ ?_
    · intro c y hy
      exact ⟨y, by rw [← hconns]; exact hy, rfl⟩
    · intro c x hx
      exact ⟨x, by rw [hconns]; exact hx, rfl, rfl, rfl⟩
  · rw [hconns]
    exact hmaps
  · rw [hconns]
    exact husers
  · rw [hconns]
    exact hcallers

/-! ## The connection's fields -/

theorem Sane.setConn (h : Sane s) (hx : s.conns[c]? = some x) (hloop : y.loop = x.loop)
    (hchannel : y.tcp.channel = x.tcp.channel) : Sane (s.setConn c y) := by
  have hk : Keeps s (s.setConn c y) := keeps_set hx hloop rfl
  have hlength : (s.setConn c y).conns.length = s.conns.length := List.length_set
  constructor
  · exact h.threads.same hk fun l => ⟨rfl, rfl, rfl, rfl⟩
  · refine h.registry.same (fun _ => rfl) (fun _ => rfl) ?_ ?_
    · intro d z hz
      rw [TcpServer.setConn, conns_set hx] at hz
      split at hz
      · rename_i hd
        cases hz
        exact ⟨x, hd ▸ hx, by rw [hchannel]⟩
      · exact ⟨z, hz, rfl⟩
    · intro d z hz
      rw [TcpServer.setConn, conns_set hx]
      by_cases hd : d = c
      · subst hd
        rw [hx, Option.some.injEq] at hz
        subst hz
        exact ⟨y, by simp, hloop, by rw [hchannel], by rw [hchannel]⟩
      · exact ⟨z, by simp [hd, hz], rfl, rfl, rfl⟩
  · rw [hlength]
    exact h.known
  · rw [hlength]
    exact h.users
  · rw [hlength]
    exact h.callers

theorem setPoller_threads (p : EpollPoller Nat) (y : Conn) :
    SameThreads s ((s.setLoop l ((s.loops l).setPoller p)).setConn c y) := by
  intro m
  by_cases hm : m = l
  · subst hm
    simp [TcpServer.setConn, setLoop, Loop.setPoller]
  · simp [TcpServer.setConn, setLoop, hm]

theorem setPoller_loops (p : EpollPoller Nat) (y : Conn) (m : Nat) :
    ((s.setLoop l ((s.loops l).setPoller p)).setConn c y).loops m =
      if m = l then (s.loops l).setPoller p else s.loops m := by
  by_cases hm : m = l
  · subst hm
    simp [TcpServer.setConn, setLoop]
  · simp [TcpServer.setConn, setLoop, hm]

/-- What a poller holds of a connection survives a change of one connection that
keeps its loop and its descriptor, if that one's index still allows it. -/
theorem conn_after {fd : Int} {P : Int → Prop} (hx : s.conns[c]? = some x)
    (hloop : y.loop = x.loop) (hfd : y.tcp.channel.fd = x.tcp.channel.fd)
    (hself : s'.conns[c]? = some y) (hother : ∀ d, d ≠ c → s'.conns[d]? = s.conns[d]?)
    (hheld : ∃ z, s.conns[d]? = some z ∧ z.loop = m ∧ z.tcp.channel.fd = fd ∧
      P z.tcp.channel.index)
    (hown : d = c → x.loop = m → fd = x.tcp.channel.fd → P x.tcp.channel.index →
      P y.tcp.channel.index) :
    ∃ z, s'.conns[d]? = some z ∧ z.loop = m ∧ z.tcp.channel.fd = fd ∧
      P z.tcp.channel.index := by
  obtain ⟨z, hz, hzl, hzf, hzi⟩ := hheld
  by_cases hdc : d = c
  · subst hdc
    rw [hx, Option.some.injEq] at hz
    subst hz
    exact ⟨y, hself, hloop.trans hzl, hfd.trans hzf, hown rfl hzl hzf.symm hzi⟩
  · exact ⟨z, by rw [hother d hdc]; exact hz, hzl, hzf, hzi⟩

/-- What a call of the poller has to say about its own channel. -/
theorem Sane.poller (h : Sane s) (hx : s.conns[c]? = some x) (hloop : y.loop = x.loop)
    (hfd : y.tcp.channel.fd = x.tcp.channel.fd) (p : EpollPoller Nat)
    (hindex : y.tcp.channel.index = EpollPoller.kNew ∨
      y.tcp.channel.index = EpollPoller.kDeleted ∨ y.tcp.channel.index = EpollPoller.kAdded)
    (hmaps : ∀ fd d, p.channelMaps fd = some d →
      (d = c ∧ fd = x.tcp.channel.fd ∧ y.tcp.channel.index ≠ EpollPoller.kNew) ∨
      (s.loops x.loop).channelMaps fd = some d ∧
        (fd = x.tcp.channel.fd → y.tcp.channel.index ≠ EpollPoller.kNew))
    (hsets : ∀ fd e, p.epollSet fd = some e →
      (e.ptr = c ∧ fd = x.tcp.channel.fd ∧ y.tcp.channel.index = EpollPoller.kAdded) ∨
      (s.loops x.loop).epollSet fd = some e ∧
        (x.tcp.channel.index = EpollPoller.kAdded → fd = x.tcp.channel.fd →
          y.tcp.channel.index = EpollPoller.kAdded)) :
    Sane ((s.setLoop x.loop ((s.loops x.loop).setPoller p)).setConn c y) := by
  have hk : Keeps s ((s.setLoop x.loop ((s.loops x.loop).setPoller p)).setConn c y) :=
    keeps_set hx hloop rfl
  have hlength : ((s.setLoop x.loop ((s.loops x.loop).setPoller p)).setConn c y).conns.length =
      s.conns.length := List.length_set
  have hself : ((s.setLoop x.loop ((s.loops x.loop).setPoller p)).setConn c y).conns[c]? =
      some y := by
    rw [TcpServer.setConn, setLoop, conns_set hx]
    simp
  have hother : ∀ d, d ≠ c →
      ((s.setLoop x.loop ((s.loops x.loop).setPoller p)).setConn c y).conns[d]? =
        s.conns[d]? := by
    intro d hd
    rw [TcpServer.setConn, setLoop, conns_set hx]
    simp [hd]
  constructor
  · exact h.threads.same hk (setPoller_threads p y)
  · constructor
    · intro m fd d hd
      rw [setPoller_loops] at hd
      split at hd
      · rename_i hm
        subst hm
        rcases hmaps fd d hd with ⟨rfl, rfl, hne⟩ | ⟨hold, hsame⟩
        · exact ⟨y, hself, hloop, hfd, hne⟩
        · exact conn_after (P := (· ≠ EpollPoller.kNew)) hx hloop hfd hself hother
            (h.registry.mapped _ fd d hold) fun _ _ hf _ => hsame hf
      · rename_i hm
        exact conn_after (P := (· ≠ EpollPoller.kNew)) hx hloop hfd hself hother
          (h.registry.mapped m fd d hd) fun _ hl _ _ => absurd hl.symm hm
    · intro m fd e he
      rw [setPoller_loops] at he
      split at he
      · rename_i hm
        subst hm
        rcases hsets fd e he with ⟨hptr, rfl, hadded⟩ | ⟨hold, hsame⟩
        · exact ⟨y, by rw [hptr]; exact hself, hloop, hfd, hadded⟩
        · exact conn_after (P := (· = EpollPoller.kAdded)) hx hloop hfd hself hother
            (h.registry.watched _ fd e hold) fun _ _ hf hi => hsame hi hf
      · rename_i hm
        exact conn_after (P := (· = EpollPoller.kAdded)) hx hloop hfd hself hother
          (h.registry.watched m fd e he) fun _ hl _ _ => absurd hl.symm hm
    · intro d z hz
      by_cases hdc : d = c
      · rw [hdc, hself, Option.some.injEq] at hz
        subst hz
        exact hindex
      · rw [hother d hdc] at hz
        exact h.registry.index d z hz
  · rw [hlength]
    exact h.known
  · rw [hlength]
    exact h.users
  · rw [hlength]
    exact h.callers

theorem updatedIndex_cases {c : Channel} (h : c.index = EpollPoller.kNew ∨
    c.index = EpollPoller.kDeleted ∨ c.index = EpollPoller.kAdded) :
    EpollPoller.updatedIndex c = EpollPoller.kDeleted ∨
      EpollPoller.updatedIndex c = EpollPoller.kAdded := by
  unfold EpollPoller.updatedIndex
  rcases h with h | h | h
  · simp [h]
  · simp [h]
  · cases c.isNoneEvent <;> simp [h, EpollPoller.kNew, EpollPoller.kDeleted,
      EpollPoller.kAdded]

theorem update_eq (s : TcpServer τ) (c : Nat) (y : Conn) :
    s.update c y = (s.setLoop y.loop ((s.loops y.loop).setPoller
      (((s.loops y.loop).poller y.tcp.channel).updateChannel c))).setConn c y.updated := by
  rw [TcpServer.update, EpollPoller.updateChannel_channels]
  rfl

theorem remove_eq (s : TcpServer τ) (c : Nat) (y : Conn) :
    s.remove c y = (s.setLoop y.loop ((s.loops y.loop).setPoller
      (((s.loops y.loop).poller y.tcp.channel).removeChannel c))).setConn c
        (y.setChannel { y.tcp.channel with index := EpollPoller.kNew }) := by
  rw [TcpServer.remove, EpollPoller.removeChannel_channels]
  rfl

theorem Sane.update (h : Sane s) (hx : s.conns[c]? = some x) (hloop : y.loop = x.loop)
    (hfd : y.tcp.channel.fd = x.tcp.channel.fd)
    (hindex : y.tcp.channel.index = x.tcp.channel.index) : Sane (s.update c y) := by
  have hcases := updatedIndex_cases (c := y.tcp.channel)
    (by rw [hindex]; exact h.registry.index c x hx)
  have hnew : EpollPoller.updatedIndex y.tcp.channel ≠ EpollPoller.kNew := by
    rcases hcases with hi | hi <;> rw [hi] <;> decide
  rw [update_eq, hloop]
  refine h.poller (y := y.updated) hx hloop hfd _ (Or.inr hcases) ?_ ?_
  · intro fd d hd
    rcases EpollPoller.updateChannel_channelMaps hd with hold | ⟨hdc, hfd'⟩
    · exact Or.inr ⟨hold, fun _ => hnew⟩
    · exact Or.inl ⟨hdc, hfd'.trans hfd, hnew⟩
  · intro fd e he
    rcases EpollPoller.updateChannel_epollSet he with ⟨hkept, hptr, hfd'⟩ | ⟨hold, hdel⟩
    · exact Or.inl ⟨hptr, hfd'.trans hfd, hcases.resolve_left hkept⟩
    · refine Or.inr ⟨hold, ?_⟩
      intro _ hsame
      exact hcases.resolve_left fun hi => hdel hi (hsame.trans hfd.symm)

theorem Sane.remove (h : Sane s) (hx : s.conns[c]? = some x) (hloop : y.loop = x.loop)
    (hfd : y.tcp.channel.fd = x.tcp.channel.fd)
    (hindex : y.tcp.channel.index = x.tcp.channel.index) : Sane (s.remove c y) := by
  rw [remove_eq, hloop]
  refine h.poller (y := y.setChannel { y.tcp.channel with index := EpollPoller.kNew }) hx hloop
    hfd _ (Or.inl rfl) ?_ ?_
  · intro fd d hd
    obtain ⟨hold, hne⟩ := EpollPoller.removeChannel_channelMaps hd
    exact Or.inr ⟨hold, fun hsame => absurd (hsame.trans hfd.symm) hne⟩
  · intro fd e he
    obtain ⟨hold, hne⟩ := EpollPoller.removeChannel_epollSet he
    exact Or.inr ⟨hold, fun hadded hsame =>
      absurd (hsame.trans hfd.symm) (hne (hindex.trans hadded))⟩

/-! ## The threads -/

theorem loops_setLoop (s : TcpServer τ) (l m : Nat) (L : Loop) :
    (s.setLoop l L).loops m = if m = l then L else s.loops m := by
  simp only [setLoop, Function.update_apply]

theorem Sane.setLoop (h : Sane s) (hmaps : L.channelMaps = (s.loops l).channelMaps)
    (hsets : L.epollSet = (s.loops l).epollSet) (hall : ∀ f ∈ L.all, s.Placed l f)
    (hframes : ∀ f ∈ L.frames, s.Lives l f.conn)
    (hactive : ∀ c revents, .channel c revents ∈ L.active → s.Lives l c)
    (hphase : (∀ wake, L.core.pc ≠ .handling wake) → L.active = []) : Sane (s.setLoop l L) := by
  constructor
  · constructor
    · intro m f hf
      rw [loops_setLoop] at hf
      split at hf
      · rename_i hm
        exact hm ▸ hall f hf
      · exact h.threads.functors m f hf
    · intro m f hf
      rw [loops_setLoop] at hf
      split at hf
      · rename_i hm
        exact hm ▸ hframes f hf
      · exact h.threads.frames m f hf
    · intro m c revents hc
      rw [loops_setLoop] at hc
      split at hc
      · rename_i hm
        exact hm ▸ hactive c revents hc
      · exact h.threads.active m c revents hc
    · intro m hpc
      rw [loops_setLoop] at hpc ⊢
      split
      · rename_i hm
        rw [if_pos hm] at hpc
        exact hphase hpc
      · rename_i hm
        rw [if_neg hm] at hpc
        exact h.threads.phase m hpc
  · refine h.registry.same ?_ ?_ ?_ ?_
    · intro m
      rw [loops_setLoop]
      split
      · rename_i hm
        rw [hm, hmaps]
      · rfl
    · intro m
      rw [loops_setLoop]
      split
      · rename_i hm
        rw [hm, hsets]
      · rfl
    · intro c y hy
      exact ⟨y, hy, rfl⟩
    · intro c x hx
      exact ⟨x, hx, rfl, rfl, rfl⟩
  · exact h.known
  · exact h.users
  · exact h.callers

theorem Sane.push (h : Sane s) (hc : s.Lives l c) (calls : List Call) :
    Sane (s.push l c calls) := by
  refine h.setLoop (L := { s.loops l with
    frames := calls.map (Frame.mk c) ++ (s.loops l).frames }) rfl rfl (h.threads.functors l) ?_
    (h.threads.active l) (h.threads.phase l)
  intro f hf
  rcases List.mem_append.1 hf with hnew | hold
  · obtain ⟨call, _, rfl⟩ := List.mem_map.1 hnew
    exact hc
  · exact h.threads.frames l f hold

/-- Either way of queueing appends one functor and leaves the thread where it is. -/
theorem queue_core (core : EventLoop Functor) (own : Bool) (f : Functor) :
    (if own then core.queueInLoop f else (core.emplace f).wakeup).pendingFunctors =
        core.pendingFunctors ++ [f] ∧
      (if own then core.queueInLoop f else (core.emplace f).wakeup).pc = core.pc := by
  cases own
  · simp [EventLoop.emplace]
  · simp

theorem mem_all_queue {f g : Functor} {own : Bool} (hg : g ∈ ({ L with
    core := if own then L.core.queueInLoop f else (L.core.emplace f).wakeup } : Loop).all) :
    g ∈ L.all ∨ g = f := by
  obtain ⟨hpending, hpc⟩ := queue_core L.core own f
  have hqueued : (if own then L.core.queueInLoop f else (L.core.emplace f).wakeup).queued =
      L.core.queued ++ [f] := by
    rw [EventLoop.queued, hpending, hpc, ← List.append_assoc, ← EventLoop.queued]
  simp only [Loop.all, hqueued, List.mem_append, List.mem_singleton] at hg
  rcases hg with hg | hg | hg
  · exact Or.inl (List.mem_append_left _ hg)
  · exact Or.inl (List.mem_append_right _ hg)
  · exact Or.inr hg

theorem mem_all_running {f g : Functor} {rest : List Functor}
    (hpc : L.core.pc = .running (f :: rest))
    (hg : g ∈ ({ L with core := { L.core with pc := .running rest } } : Loop).all) :
    g ∈ L.all := by
  rcases List.mem_append.1 hg with hpass | hqueue
  · exact List.mem_append_left _ hpass
  · rw [Loop.all, EventLoop.queued_running hpc]
    exact List.mem_append_right _ (List.mem_cons_of_mem _ hqueue)

/-- `Loop()` forgets functors and gets none. -/
theorem mem_all_step {core : EventLoop Functor} {a : EventLoop.Label} {f : Functor}
    (hcore : L.core.step a = some core) (hrun : a ≠ .runFunctor)
    (hf : f ∈ ({ L with core := core, functors := L.functorsAfter a } : Loop).all) :
    f ∈ L.all := by
  rcases List.mem_append.1 hf with hf | hf
  · unfold Loop.functorsAfter at hf
    dsimp only at hf
    split at hf
    · exact List.mem_append_right _ (List.mem_append_right _ hf)
    · cases hf
    · exact List.mem_append_left _ hf
  · rw [EventLoop.queued_step hcore hrun] at hf
    exact List.mem_append_right _ hf

theorem Sane.queueInLoop {f : Functor} (h : Sane s) (hf : s.Placed m f) (own : Bool) :
    Sane (s.queueInLoop own m f) := by
  refine h.setLoop (L := { s.loops m with core := if own then (s.loops m).core.queueInLoop f
    else ((s.loops m).core.emplace f).wakeup }) rfl rfl ?_ (h.threads.frames m)
    (h.threads.active m) ?_
  · intro g hg
    rcases mem_all_queue hg with hold | rfl
    · exact h.threads.functors m g hold
    · exact hf
  · intro hnot
    apply h.threads.phase m
    intro wake
    rw [← (queue_core (s.loops m).core own f).2]
    exact hnot wake

theorem Sane.setFrames (h : Sane s) {frames : List Frame}
    (hframes : ∀ f ∈ frames, s.Lives l f.conn) :
    Sane (s.setLoop l { s.loops l with frames := frames }) :=
  h.setLoop (L := { s.loops l with frames := frames }) rfl rfl (h.threads.functors l) hframes
    (h.threads.active l) (h.threads.phase l)

theorem Sane.setActive (h : Sane s) {active : List Ready}
    (hactive : ∀ r ∈ active, r ∈ (s.loops l).active) :
    Sane (s.setLoop l { s.loops l with active := active }) := by
  refine h.setLoop (L := { s.loops l with active := active }) rfl rfl (h.threads.functors l)
    (h.threads.frames l) ?_ ?_
  · intro c revents hc
    exact h.threads.active l c revents (hactive _ hc)
  · intro hpc
    have hnil := h.threads.phase l hpc
    rw [hnil] at hactive
    exact List.eq_nil_iff_forall_not_mem.2 fun r hr => List.not_mem_nil (hactive r hr)

theorem Sane.setRest (h : Sane s) {f : Functor} {rest : List Functor}
    (hpc : (s.loops l).core.pc = .running (f :: rest)) :
    Sane (s.setLoop l { s.loops l with
      core := { (s.loops l).core with pc := .running rest } }) := by
  have hactive : (s.loops l).active = [] := h.threads.phase l (by simp [hpc])
  refine h.setLoop (L := { s.loops l with core := { (s.loops l).core with pc := .running rest } })
    rfl rfl ?_ (h.threads.frames l) (h.threads.active l) fun _ => hactive
  intro g hg
  exact h.threads.functors l g (mem_all_running hpc hg)

/-! ## The functions of a connection -/

theorem conns_update (s : TcpServer τ) (c : Nat) (y : Conn) :
    (s.update c y).conns = s.conns.set c y.updated := by
  rw [update_eq]
  rfl

theorem conns_remove (s : TcpServer τ) (c : Nat) (y : Conn) :
    (s.remove c y).conns =
      s.conns.set c (y.setChannel { y.tcp.channel with index := EpollPoller.kNew }) := by
  rw [remove_eq]
  rfl

theorem conns_store (s : TcpServer τ) (c : Nat) (x : Conn) (tcp : TcpConnection) :
    (s.store c x tcp).conns = s.conns.set c (x.wrote tcp) := by
  unfold store Conn.wrote
  split
  · rfl
  · exact conns_update s c _

theorem lives_set (hx : s.conns[c]? = some x) (hloop : y.loop = l)
    (hconns : s'.conns = s.conns.set c y) : s'.Lives l c :=
  ⟨y, by rw [hconns, conns_set hx]; simp, hloop⟩

theorem Sane.connectionEstablished (h : Sane s) (hx : s.conns[c]? = some x) (hl : x.loop = l) :
    Sane (s.connectionEstablished l c x) := by
  have hup : Sane (s.update c ((x.setTcp x.tcp.connectionEstablished).note .up)) :=
    h.update hx rfl rfl rfl
  exact hup.push (lives_set (y := x.up) hx hl (conns_update ..)) _

theorem Sane.handleClose (h : Sane s) (hx : s.conns[c]? = some x) (hl : x.loop = l) :
    Sane (s.handleClose l c x) := by
  have hdown : Sane (s.update c ((x.setTcp x.tcp.disconnect).note .down)) :=
    h.update hx rfl rfl rfl
  exact hdown.push (lives_set (y := x.down) hx hl (conns_update ..)) _

theorem Sane.connectionDestroyed (h : Sane s) (hx : s.conns[c]? = some x) (hl : x.loop = l) :
    Sane (s.connectionDestroyed l c x) := by
  unfold TcpServer.connectionDestroyed
  dsimp only
  split
  · have hset := h.setConn (y := x.note (.destroying l)) hx rfl rfl
    exact hset.push (lives_set (y := x.note (.destroying l)) hx hl rfl) _
  · exact h.remove hx rfl rfl rfl

theorem Sane.store {tcp : TcpConnection} (h : Sane s) (hx : s.conns[c]? = some x)
    (hfd : tcp.channel.fd = x.tcp.channel.fd)
    (hindex : tcp.channel.index = x.tcp.channel.index) : Sane (s.store c x tcp) := by
  unfold TcpServer.store
  split
  · rename_i hsame
    exact h.setConn hx rfl hsame
  · exact h.update hx rfl hfd hindex

theorem Sane.sendInLoop {p : Payload} {w : WriteResult} (h : Sane s) (hx : s.conns[c]? = some x)
    (hl : x.loop = l) (hs : s.sendInLoop l c x p w = some s') : Sane s' := by
  obtain ⟨⟨tcp, due⟩, hsend, rfl⟩ := Option.map_eq_some_iff.1 hs
  have hchannel := (TcpConnection.sendInLoop_channel hsend).2
  have hstore : Sane (s.store c x tcp) := by
    apply h.store hx <;> rw [hchannel] <;> split <;> rfl
  split
  · exact hstore.push (lives_set hx (by rw [← hl]; unfold Conn.wrote; split <;> rfl)
      (conns_store ..)) _
  · exact hstore

theorem Sane.handleWrite {w : WriteResult} (h : Sane s) (hx : s.conns[c]? = some x)
    (hs : s.handleWrite l c x w = some s') : Sane s' := by
  obtain ⟨⟨tcp, due⟩, hwrite, rfl⟩ := Option.map_eq_some_iff.1 hs
  have hstore : Sane (s.store c x tcp) := by
    rcases (TcpConnection.handleWrite_channel hwrite).2 with hsame | ⟨_, hmask⟩
    · exact h.store hx (by rw [hsame]) (by rw [hsame])
    · exact h.store hx (by rw [hmask]; rfl) (by rw [hmask]; rfl)
  split
  · refine hstore.queueInLoop ?_ _
    exact lives_set hx (by unfold Conn.wrote; split <;> rfl) (conns_store ..)
  · exact hstore

theorem Sane.handleRead {r : ReadvResult} (h : Sane s) (hx : s.conns[c]? = some x)
    (hl : x.loop = l) (hs : s.handleRead l c x r = some s') : Sane s' := by
  obtain ⟨⟨tcp, outcome⟩, hread, rfl⟩ := Option.map_eq_some_iff.1 hs
  have hchannel := (TcpConnection.handleRead_channel hread).2
  cases outcome with
  | message =>
      have hset : Sane (s.setConn c ((x.setTcp tcp).note .message)) :=
        h.setConn hx rfl hchannel
      exact hset.push (lives_set (y := (x.setTcp tcp).note .message) hx hl rfl) _
  | close =>
      have hupdate : Sane (s.update c (((x.setTcp tcp).setTcp tcp.disconnect).note .down)) :=
        h.update hx rfl (by rw [← hchannel]; rfl) (by rw [← hchannel]; rfl)
      exact hupdate.push (lives_set (y := (x.setTcp tcp).down) hx hl (conns_update ..)) _
  | error => exact h.setConn hx rfl hchannel

theorem Sane.removeConnectionInLoop (h : Sane s) (hx : s.conns[c]? = some x)
    (hy : y.loop = x.loop) (hchannel : y.tcp.channel = x.tcp.channel) :
    Sane (s.removeConnectionInLoop c y) := by
  have hmaps : Sane { s with connectionMaps := s.connectionMaps.filter (· ≠ c) } :=
    h.rest rfl rfl (fun d hd => h.known d (List.mem_of_mem_filter hd)) h.users h.callers
  have hset := hmaps.setConn (y := y.note .removed) hx hy hchannel
  refine hset.queueInLoop ?_ _
  exact lives_set (s := s) (y := y.note .removed) hx rfl rfl

theorem Sane.removeConnection (h : Sane s) (hx : s.conns[c]? = some x) :
    Sane (s.removeConnection l c x) := by
  unfold TcpServer.removeConnection
  dsimp only
  split
  · exact h.removeConnectionInLoop hx rfl rfl
  · have hset := h.setConn (y := x.note .close) hx rfl rfl
    refine hset.queueInLoop ?_ _
    have hlt : c < s.conns.length := (List.getElem?_eq_some_iff.1 hx).1
    simp [Placed, TcpServer.setConn, hlt]

/-! ## The steps of the loops -/

theorem handling_step {core core' : EventLoop Functor} {a : EventLoop.Label} {wake : Bool}
    (hs : core.step a = some core') (hpc : core.pc = .handling wake) :
    a = .doPendingFunctors ∨ ∃ wake', core'.pc = .handling wake' := by
  cases EventLoop.step_move hs with
  | handleWakeup _ => exact Or.inr ⟨false, rfl⟩
  | doPendingFunctors _ => exact Or.inl rfl
  | _ => simp_all

theorem Sane.loopStep {a : EventLoop.Label} (h : Sane s) (hs : s.loopStep l a = some s') :
    Sane s' := by
  unfold TcpServer.loopStep at hs
  dsimp only at hs
  split at hs
  · rename_i hready
    rw [Bool.and_eq_true] at hready
    obtain ⟨core, hcore, rfl⟩ := Option.map_eq_some_iff.1 hs
    have hrun : a ≠ .runFunctor := by
      rintro rfl
      cases hready.2
    refine h.setLoop (L := { s.loops l with
      core := core, functors := (s.loops l).functorsAfter a }) rfl rfl ?_ (h.threads.frames l)
      (h.threads.active l) ?_
    · intro f hf
      exact h.threads.functors l f (mem_all_step hcore hrun hf)
    · intro hnot
      by_cases hpc : ∃ wake, (s.loops l).core.pc = .handling wake
      · obtain ⟨wake, hpc⟩ := hpc
        rcases handling_step hcore hpc with rfl | ⟨wake', hpc'⟩
        · exact List.isEmpty_iff.1 hready.2
        · exact absurd hpc' (hnot wake')
      · exact h.threads.phase l fun wake hw => hpc ⟨wake, hw⟩
  · cases hs

theorem watched_iff : s.watched l c = true ↔
    ∃ x e, s.conns[c]? = some x ∧ (s.loops l).epollSet x.tcp.channel.fd = some e ∧ e.ptr = c := by
  unfold TcpServer.watched
  split
  · rename_i hx
    simp [hx]
  · rename_i x hx
    split
    · rename_i he
      simp [hx, he]
    · rename_i e he
      simp [hx, he]

theorem Sane.watched (h : Sane s) (hw : s.watched l c = true) :
    ∃ x, s.conns[c]? = some x ∧ x.loop = l ∧
      x.tcp.channel.index = EpollPoller.kAdded := by
  obtain ⟨x, e, hx, he, rfl⟩ := watched_iff.1 hw
  obtain ⟨y, hy, hloop, _, hindex⟩ := h.registry.watched l _ e he
  exact ⟨y, hy, hloop, hindex⟩

theorem Sane.poll {wake : Bool} {ready : List Ready} (h : Sane s)
    (hs : s.poll l wake ready = some s') : Sane s' := by
  unfold TcpServer.poll at hs
  dsimp only at hs
  split at hs
  · rename_i hready
    simp only [Bool.and_eq_true, List.all_eq_true] at hready
    obtain ⟨core, hcore, rfl⟩ := Option.map_eq_some_iff.1 hs
    have hqueued := EventLoop.queued_step hcore (by simp)
    refine h.setLoop (L := { s.loops l with core := core, active := ready }) rfl rfl ?_
      (h.threads.frames l) ?_ ?_
    · intro f hf
      apply h.threads.functors l f
      rw [Loop.all, ← hqueued]
      exact hf
    · intro c revents hc
      have hwatched : s.watched l c = true := hready.1.2 _ hc
      obtain ⟨x, hx, hloop, _⟩ := h.watched hwatched
      exact ⟨x, hx, hloop⟩
    · intro hnot
      cases EventLoop.step_move hcore
      exact absurd rfl (hnot wake)
  · cases hs

theorem Sane.newConnection {tcp : TcpConnection} {fd : Int} {due : Bool} (h : Sane s)
    (htcp : TcpConnection.new fd due = some tcp) : Sane (s.newConnection tcp) := by
  have hindex : tcp.channel.index = EpollPoller.kNew := by
    obtain ⟨b, _, rfl⟩ := Option.map_eq_some_iff.1 htcp
    rfl
  have hk : Keeps s { s with
      next := s.advanceNext
      conns := s.conns ++ [⟨tcp, s.getNextLoop, false, []⟩]
      connectionMaps := s.connectionMaps ++ [s.conns.length] } := by
    intro d z hz
    refine ⟨z, ?_, rfl⟩
    have hlt : d < s.conns.length := (List.getElem?_eq_some_iff.1 hz).1
    rw [List.getElem?_append_left hlt]
    exact hz
  have hadded : Sane { s with
      next := s.advanceNext
      conns := s.conns ++ [⟨tcp, s.getNextLoop, false, []⟩]
      connectionMaps := s.connectionMaps ++ [s.conns.length] } := by
    constructor
    · exact h.threads.same hk fun _ => ⟨rfl, rfl, rfl, rfl⟩
    · constructor
      · intro m fd d hd
        obtain ⟨z, hz, hrest⟩ := h.registry.mapped m fd d hd
        have hlt : d < s.conns.length := (List.getElem?_eq_some_iff.1 hz).1
        exact ⟨z, by rw [List.getElem?_append_left hlt]; exact hz, hrest⟩
      · intro m fd e he
        obtain ⟨z, hz, hrest⟩ := h.registry.watched m fd e he
        have hlt : e.ptr < s.conns.length := (List.getElem?_eq_some_iff.1 hz).1
        exact ⟨z, by rw [List.getElem?_append_left hlt]; exact hz, hrest⟩
      · intro d z hz
        dsimp only at hz
        rw [List.getElem?_append] at hz
        split at hz
        · exact h.registry.index d z hz
        · rw [List.getElem?_singleton] at hz
          split at hz
          · cases hz
            exact Or.inl hindex
          · cases hz
    · intro d hd
      rcases List.mem_append.1 hd with hold | hnew
      · have hlt := h.known d hold
        simp only [List.length_append, List.length_singleton]
        omega
      · rw [List.mem_singleton] at hnew
        simp [hnew]
    · intro u hu
      have hlt := h.users u hu
      simp only [List.length_append, List.length_singleton]
      omega
    · intro t d hd
      have hlt := h.callers t d hd
      simp only [List.length_append, List.length_singleton]
      omega
  unfold TcpServer.newConnection
  dsimp only
  split
  · rename_i hio
    exact hadded.connectionEstablished (by simp) hio
  · refine hadded.queueInLoop ?_ _
    exact ⟨⟨tcp, s.getNextLoop, false, []⟩, by simp, rfl⟩

theorem abort_threads (s : TcpServer τ) (l : Nat) : SameThreads s (s.abort l) := by
  intro m
  rw [TcpServer.abort, loops_setLoop]
  split
  · rename_i hm
    simp [hm]
  · simp

theorem Sane.abort (h : Sane s) (l : Nat) : Sane (s.abort l) := by
  apply Sane.setLoop (L := { s.loops l with aborted := true }) h rfl rfl
  · exact h.threads.functors l
  · exact h.threads.frames l
  · exact h.threads.active l
  · exact h.threads.phase l

theorem Sane.acceptorHandleRead (fd : Option Int) (h : Sane s)
    (hs : s.acceptorHandleRead fd = some s') : Sane s' := by
  unfold TcpServer.acceptorHandleRead at hs
  dsimp only at hs
  split at hs
  · rename_i active hactive
    have hpop : Sane (s.setLoop 0 { s.loops 0 with active := active }) :=
      h.setActive (by rw [hactive]; intro r hr; exact List.mem_cons_of_mem _ hr)
    split at hs
    · split at hs
      · cases hs
        exact hpop.abort 0
      · split at hs
        · obtain ⟨tcp, htcp, rfl⟩ := Option.map_eq_some_iff.1 hs
          exact hpop.newConnection htcp
        · cases hs
    · cases hs
  · cases hs

theorem Sane.dispatch (h : Sane s) (hs : s.dispatch l = some s') : Sane s' := by
  unfold TcpServer.dispatch at hs
  dsimp only at hs
  split at hs
  · rename_i c revents active hactive
    split at hs
    · cases hs
      have hpop : Sane (s.setLoop l { s.loops l with active := active }) :=
        h.setActive (by rw [hactive]; intro r hr; exact List.mem_cons_of_mem _ hr)
      refine hpop.push ?_ _
      exact h.threads.active l c revents (by rw [hactive]; exact List.mem_cons_self)
    · cases hs
  · cases hs

theorem Sane.handle {r : ReadvResult} {w : WriteResult} (h : Sane s)
    (hs : s.handle l r w = some s') : Sane s' := by
  unfold TcpServer.handle at hs
  split at hs
  · rename_i c revents handler todo frames hframes
    split at hs
    · cases hs
    · rename_i x hx
      have hlives := h.threads.frames l
      rw [hframes] at hlives
      have hl : x.loop = l := by
        obtain ⟨y, hy, hloop⟩ := hlives _ List.mem_cons_self
        rw [hx, Option.some.injEq] at hy
        rw [hy, hloop]
      have hpop : Sane (s.setLoop l { s.loops l with
          frames := ⟨c, .handleEvent revents todo⟩ :: frames }) := by
        refine h.setFrames ?_
        intro f hf
        rcases List.mem_cons.1 hf with rfl | hold
        · exact ⟨x, hx, hl⟩
        · exact hlives f (List.mem_cons_of_mem _ hold)
      have hset := hpop.setConn (y := x.note .handled) hx rfl rfl
      have hx' : ((s.setLoop l { s.loops l with
          frames := ⟨c, .handleEvent revents todo⟩ :: frames }).setConn c
            (x.note .handled)).conns[c]? = some (x.note .handled) := by
        rw [TcpServer.setConn, TcpServer.setLoop, conns_set hx]
        simp
      split at hs
      · cases hs
        exact hset.handleClose hx' hl
      · cases hs
        exact hset
      · exact hset.handleRead hx' hl hs
      · exact hset.handleWrite hx' hs
  · cases hs

theorem Sane.resume (h : Sane s) (hs : s.resume l = some s') : Sane s' := by
  unfold TcpServer.resume at hs
  split at hs
  · cases hs
  · rename_i c call frames hframes
    dsimp only at hs
    split at hs
    · cases hs
    · rename_i x hx
      have hlives := h.threads.frames l
      rw [hframes] at hlives
      have hl : x.loop = l := by
        obtain ⟨y, hy, hloop⟩ := hlives _ List.mem_cons_self
        rw [hx, Option.some.injEq] at hy
        rw [hy, hloop]
      have hpop : Sane (s.setLoop l { s.loops l with frames := frames }) :=
        h.setFrames fun f hf => hlives f (List.mem_cons_of_mem _ hf)
      split at hs
      · cases hs
        exact hpop
      · cases hs
        exact hpop.setConn hx rfl rfl
      · split at hs <;> cases hs
        exact hpop
      · split at hs <;> cases hs
        have hremove := hpop.removeConnection (l := l) hx
        refine hremove.push ?_ _
        unfold TcpServer.removeConnection
        dsimp only
        split
        · exact lives_set (s := s) (y := (x.note .close).note .removed) hx hl rfl
        · exact lives_set (s := s) (y := x.note .close) hx hl rfl
      · cases hs
        exact hpop.setConn hx rfl rfl
      · cases hs
        have hdown : Sane ((s.setLoop l { s.loops l with frames := frames }).update c
            ((x.setTcp x.tcp.disconnect).note .downAtDestroy)) :=
          hpop.update hx rfl rfl rfl
        exact hdown.push (lives_set (s := s) (y := x.downAtDestroy) hx hl (conns_update ..)) _
      · cases hs
        exact hpop.remove hx rfl rfl rfl

theorem Sane.runFunctor {p : Payload} {w : WriteResult} (h : Sane s)
    (hs : s.runFunctor l p w = some s') : Sane s' := by
  unfold TcpServer.runFunctor at hs
  dsimp only at hs
  split at hs
  · rename_i c job rest _ hpc
    split at hs
    · cases hs
    · rename_i x hx
      have hpop := h.setRest hpc
      have hplaced : s.Placed l ⟨c, job⟩ := by
        apply h.threads.functors l
        rw [Loop.all, EventLoop.queued_running hpc]
        exact List.mem_append_right _ List.mem_cons_self
      have hl : job ≠ .removeConnection → x.loop = l := by
        intro hjob
        rw [Placed, if_neg hjob] at hplaced
        obtain ⟨y, hy, hloop⟩ := hplaced
        rw [hx, Option.some.injEq] at hy
        rw [hy, hloop]
      split at hs
      · cases hs
        exact hpop.connectionEstablished hx (hl (by simp))
      · split at hs
        · exact hpop.sendInLoop hx (hl (by simp)) hs
        · cases hs
      · split at hs <;> cases hs
        exact hpop.setConn hx rfl (TcpConnection.shutdownInLoop_channel _)
      · cases hs
        exact hpop.push ⟨x, hx, hl (by simp)⟩ _
      · split at hs <;> cases hs
        exact hpop.removeConnectionInLoop hx rfl rfl
      · cases hs
        exact hpop.connectionDestroyed hx (hl (by simp))
  · cases hs

theorem Sane.ownSend {p : Payload} {w : WriteResult} (h : Sane s)
    (hs : s.ownSend l c p w = some s') : Sane s' := by
  unfold TcpServer.ownSend at hs
  split at hs
  · cases hs
  · rename_i x hx
    split at hs
    · rename_i hcall
      simp only [canCall, Bool.and_eq_true, beq_iff_eq] at hcall
      split at hs
      · exact h.sendInLoop hx hcall.1.2 hs
      · cases hs
        exact h
    · cases hs

theorem shutDown_channel (tcp : TcpConnection) : tcp.shutDown.channel = tcp.channel := by
  rw [TcpConnection.shutDown, TcpConnection.shutdownInLoop_channel]
  rfl

theorem Sane.ownShutDown (h : Sane s) (hs : s.ownShutDown l c = some s') : Sane s' := by
  unfold TcpServer.ownShutDown at hs
  split at hs
  · cases hs
  · rename_i x hx
    split at hs
    · split at hs
      · cases hs
        exact h.setConn hx rfl (shutDown_channel _)
      · cases hs
        exact h
    · cases hs

theorem Sane.dtorNext (h : Sane s) (hs : s.dtorNext c = some s') : Sane s' := by
  unfold TcpServer.dtorNext at hs
  split at hs
  · cases hs
  · rename_i x hx
    split at hs
    · have hmaps : Sane { s with connectionMaps := s.connectionMaps.filter (· ≠ c) } :=
        h.rest rfl rfl (fun d hd => h.known d (List.mem_of_mem_filter hd)) h.users h.callers
      dsimp only at hs
      split at hs
      · rename_i hl
        cases hs
        exact hmaps.connectionDestroyed hx hl
      · cases hs
        have hlives : s.Lives x.loop c := ⟨x, hx, rfl⟩
        exact hmaps.queueInLoop (f := ⟨c, .connectionDestroyed⟩) (hlives.placed (by simp)) _
    · cases hs

theorem Sane.destruct (h : Sane s) (hs : s.destruct c = some s') : Sane s' := by
  unfold TcpServer.destruct at hs
  split at hs
  · cases hs
  · rename_i x hx
    split at hs
    · cases hs
    · cases hs
      have hset := h.setConn (y := { x with destructed := true }) hx rfl rfl
      constructor
      · exact hset.threads.same (.refl rfl) fun _ => ⟨rfl, rfl, rfl, rfl⟩
      · constructor
        · exact hset.registry.mapped
        · intro l fd e he
          simp only [Function.update_apply] at he
          split at he
          · cases he
          · exact hset.registry.watched l fd e he
        · exact hset.registry.index
      · exact hset.known
      · exact hset.users
      · exact hset.callers

section Steps

variable [DecidableEq τ]

theorem Sane.check {t : τ} {caller : Caller} (h : Sane s) (hcaller : caller.conn = some c)
    (hs : s.check t c caller = some s') : Sane s' := by
  unfold TcpServer.check at hs
  split at hs
  · cases hs
  · rename_i x hx
    have hlt : c < s.conns.length := (List.getElem?_eq_some_iff.1 hx).1
    split at hs
    · split at hs
      · cases hs
        refine h.rest rfl rfl h.known h.users ?_
        intro u d hd
        simp only [setCaller, Function.update_apply] at hd
        split at hd
        · rw [hcaller, Option.some.injEq] at hd
          exact hd ▸ hlt
        · exact h.callers u d hd
      · cases hs
        exact h
    · cases hs

theorem Sane.setCaller (h : Sane s) (t : τ) {caller : Caller}
    (hcaller : ∀ d, caller.conn = some d → d < s.conns.length) : Sane (s.setCaller t caller) := by
  refine h.rest rfl rfl h.known h.users ?_
  intro u d hd
  simp only [TcpServer.setCaller, Function.update_apply] at hd
  split at hd
  · exact hcaller d hd
  · exact h.callers u d hd

theorem Sane.queueCall {job : Job} (h : Sane s) (hx : s.conns[c]? = some x)
    (hjob : job ≠ .removeConnection) (t : τ) :
    Sane ((s.queueInLoop false x.loop ⟨c, job⟩).setCaller t .outside) := by
  have hlives : s.Lives x.loop c := ⟨x, hx, rfl⟩
  refine (h.queueInLoop (hlives.placed hjob) _).setCaller t ?_
  intro d hd
  cases hd

theorem Sane.step {a : Action τ} (h : Sane s) (hs : s.step a = some s') : Sane s' := by
  cases a with
  | loop l b => exact h.loopStep hs
  | poll l wake ready => exact h.poll hs
  | acceptFails => exact h.acceptorHandleRead none hs
  | accept fd => exact h.acceptorHandleRead (some fd) hs
  | dispatch l => exact h.dispatch hs
  | handle l r w => exact h.handle hs
  | resume l => exact h.resume hs
  | runFunctor l p w => exact h.runFunctor hs
  | ownSend l c p w => exact h.ownSend hs
  | ownShutDown l c => exact h.ownShutDown hs
  | quit l =>
      cases hs
      exact h.setLoop rfl rfl (h.threads.functors l) (h.threads.frames l) (h.threads.active l)
        (h.threads.phase l)
  | obtain t c =>
      simp only [TcpServer.step] at hs
      split at hs <;> cases hs
      rename_i hobtain
      refine h.rest rfl rfl h.known ?_ h.callers
      intro u hu
      rcases List.mem_cons.1 hu with rfl | hold
      · simp only [canObtain, Bool.or_eq_true, List.any_eq_true, beq_iff_eq] at hobtain
        rcases hobtain with ⟨l, _, f, hf, rfl⟩ | ⟨v, hv, rfl⟩
        · obtain ⟨x, hx, _⟩ := h.threads.frames l _ hf
          exact (List.getElem?_eq_some_iff.1 hx).1
        · exact h.users v hv
      · exact h.users u hold
  | drop t c =>
      simp only [TcpServer.step] at hs
      split at hs <;> cases hs
      exact h.rest rfl rfl h.known (fun u hu => h.users u (List.mem_of_mem_erase hu)) h.callers
  | sendCheck t c len => exact h.check rfl hs
  | shutCheck t c => exact h.check rfl hs
  | sendQueue t =>
      simp only [TcpServer.step] at hs
      split at hs
      · obtain ⟨x, hx, rfl⟩ := Option.map_eq_some_iff.1 hs
        exact h.queueCall hx (by simp) t
      · cases hs
  | shutSet t =>
      simp only [TcpServer.step] at hs
      split at hs
      · rename_i c hcaller
        obtain ⟨x, hx, rfl⟩ := Option.map_eq_some_iff.1 hs
        have hset := h.setConn (y := x.setTcp (x.tcp.setState .kDisconnecting)) hx rfl rfl
        refine hset.setCaller t ?_
        intro d hd
        cases hd
        simpa [TcpServer.setConn] using (List.getElem?_eq_some_iff.1 hx).1
      · cases hs
  | shutQueue t =>
      simp only [TcpServer.step] at hs
      split at hs
      · obtain ⟨x, hx, rfl⟩ := Option.map_eq_some_iff.1 hs
        exact h.queueCall hx (by simp) t
      · cases hs
  | dtorBegin =>
      simp only [TcpServer.step] at hs
      split at hs <;> cases hs
      exact h.rest rfl rfl h.known h.users h.callers
  | dtorNext c => exact h.dtorNext hs
  | destruct c => exact h.destruct hs

omit [DecidableEq τ] in
theorem Sane.initial (h : Initial s) : Sane s := by
  constructor
  · constructor
    · intro l f hf
      rw [h.loops l] at hf
      cases hf
    · intro l f hf
      rw [h.loops l] at hf
      cases hf
    · intro l c revents hc
      rw [h.loops l] at hc
      cases hc
    · intro l _
      rw [h.loops l]
      rfl
  · constructor
    · intro l fd c hc
      rw [h.loops l] at hc
      cases hc
    · intro l fd e he
      rw [h.loops l] at he
      cases he
    · intro c x hx
      rw [h.conns] at hx
      cases hx
  · rw [h.connectionMaps]
    intro c hc
    cases hc
  · rw [h.users]
    intro u hu
    cases hu
  · intro t c hc
    rw [h.callers t] at hc
    cases hc

theorem step_of_machine {a : Action τ} (hs : (machine τ).step s a = some s') :
    s.step a = some s' := by
  simp only [machine] at hs
  split at hs
  · cases hs
  · exact hs

theorem sane_of_reach {guard : TcpServer τ → Action τ → Prop} (h : (machine τ).Reach guard s) :
    Sane s := by
  apply h.invariant
  · intro s hs
    exact Sane.initial hs
  · intro s a s' hI _ hs
    exact hI.step (step_of_machine hs)

end Steps

end MyNetLib.TcpServer
