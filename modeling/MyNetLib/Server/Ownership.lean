import MyNetLib.Server.Balance
import MyNetLib.Server.Dispatch

/-! # What keeps a connection alive

Until `ConnectionDestroyed` has taken its channel out of the poller a connection is
in the server's map, in a functor that will call that function, or inside it. What a
poll returns is then never without an owner, unless a queued send has put the channel
of a destroyed connection back.
-/

namespace MyNetLib.TcpServer

open Library

variable {τ : Type}

/-- `ConnectionDestroyed` has run. -/
def Conn.gone (x : Conn) : Bool :=
  x.log.any fun e => match e with
    | .destroyed _ _ => true
    | _ => false

namespace Conn

@[simp] theorem gone_updated (x : Conn) : x.updated.gone = x.gone := rfl

@[simp] theorem gone_wrote (x : Conn) (tcp : TcpConnection) : (x.wrote tcp).gone = x.gone := by
  rw [gone, wrote_log, ← gone]

@[simp] theorem gone_destroyed (x : Conn) : x.destroyed.gone = true := by
  simp [gone]

end Conn

namespace View

variable {v v' : View τ} {mine : Bool} {a : Action τ}

/-- A queued send does not set the write bit of a destroyed connection. -/
def staysGone (v : View τ) : Action τ → Bool
  | .runFunctor l p w =>
      match v.rest with
      | .sendInLoop _ :: _ => !(l == v.conn.loop && v.conn.gone && v.conn.tcp.enablesWrite p w)
      | _ => true
  | _ => true

structure Gone (v : View τ) : Prop where
  index : v.conn.tcp.channel.index = EpollPoller.kNew
  state : v.conn.tcp.state ≠ .kConnected
  active : v.active = []
  handling : ∀ revents todo, .handleEvent revents todo ∉ v.frames
  destroying : .destroying ∉ v.frames
  removing : .removing ∉ v.frames

structure Ends (v : View τ) : Prop where
  gone : v.conn.gone = true → Gone v
  removing : .removing ∈ v.frames → v.conn.tcp.state ≠ .kConnected
  once : v.frames.count .destroying + v.frames.count .removing ≤ 1

theorem Start.ends (h : Start v) : Ends v := by
  cases h with
  | queued _ _ _ _ _ _ hconn _ _ _ _ hframes =>
      refine ⟨?_, ?_, ?_⟩ <;> simp [hconn, hframes, Conn.gone]
  | established _ _ _ _ hconn _ _ _ _ hframes =>
      refine ⟨?_, ?_, ?_⟩ <;> simp [hconn, hframes, Conn.gone]

variable [DecidableEq τ]

/-- The end of `ConnectionDestroyed`, after its callback or at once. -/
theorem Step.gone (hs : Step v mine a v') : v'.conn.gone = v.conn.gone ∨
    (v'.conn.tcp.channel.index = EpollPoller.kNew ∧ v'.conn.tcp.state = v.conn.tcp.state ∧
      v'.active = v.active ∧ (v.frames = .removing :: v'.frames ∨
        v.frames = [] ∧ v.active = [] ∧ v'.frames = [] ∧ v.conn.tcp.state ≠ .kConnected)) := by
  cases hs with
  | removed _ _ hframes => exact Or.inr ⟨rfl, rfl, rfl, Or.inl hframes⟩
  | runDestroyed _ _ _ hframes hactive =>
      unfold destroy
      split
      · exact Or.inl (by simp [Conn.gone])
      · rename_i hstate
        exact Or.inr ⟨rfl, rfl, rfl, Or.inr ⟨hframes, hactive, hframes, hstate⟩⟩
  | dtorDestroyed _ _ _ _ hframes hactive =>
      unfold destroy
      split
      · exact Or.inl (by simp [Conn.gone])
      · rename_i hstate
        exact Or.inr ⟨rfl, rfl, rfl, Or.inr ⟨hframes, hactive, hframes, hstate⟩⟩
  | _ =>
      left
      simp [Conn.gone]

theorem Step.gone_mono (hs : Step v mine a v') (h : v.conn.gone = true) : v'.conn.gone = true := by
  rw [Conn.gone, List.any_eq_true] at h ⊢
  obtain ⟨e, hmem, he⟩ := h
  exact ⟨e, hs.log.subset hmem, he⟩

theorem Step.destroying_count (hs : Step v mine a v') :
    v'.frames.count .destroying + v'.frames.count .removing ≤
        v.frames.count .destroying + v.frames.count .removing ∨
      v'.frames.count .destroying + v'.frames.count .removing ≤ 1 := by
  cases hs with
  | disconnected _ _ hframes =>
      left
      simp [hframes]
      omega
  | runSend _ _ _ _ _ due hframes =>
      left
      cases due <;> simp [hframes]
  | ownSent _ _ _ _ _ due =>
      left
      cases due <;> simp
  | runDestroyed _ _ _ hframes =>
      right
      unfold destroy
      split <;> simp [hframes]
  | dtorDestroyed _ _ _ _ hframes =>
      right
      unfold destroy
      split <;> simp [hframes]
  | _ =>
      left
      simp [*]

/-- A destroyed connection stays out of the poller: its channel is in no poll's answer,
and no send brings it back. -/
theorem Gone.step (h : Gone v) (hgone : v.conn.gone = true) (hborn : Born v)
    (hs : Step v mine a v') (hguard : mine = true → v.staysGone a = true) : Gone v' := by
  have hindex := h.index
  have hunregistered : v.conn.tcp.channel.index ≠ EpollPoller.kAdded := by
    simp [hindex, EpollPoller.kNew, EpollPoller.kAdded]
  refine ⟨?_, ?_, ?_, ?_, ?_, ?_⟩
  · cases hs.retunes with
    | kept hch => rw [hch, hindex]
    | established hmem => exact absurd hmem hborn.queue
    | closed revents handler todo frames hclose =>
        exact absurd (by rw [hclose.before]; exact List.mem_cons_self) (h.handling _ _)
    | disconnected hmem => exact absurd hmem h.destroying
    | removed _ hch => rw [hch]
    | sent hstate => exact absurd hstate h.state
    | sentLater p w len rest hmine ha hrest hsets =>
        have hfree := hguard hmine
        simp [staysGone, ha, hrest, hsets, hgone] at hfree
    | drained _ _ _ hframes =>
        exact absurd (by rw [hframes]; exact List.mem_cons_self) (h.handling _ _)
  · rcases hs.state with heq | ⟨_, hmem⟩ | ⟨hoff, _⟩ | ⟨hshut, _⟩
    · rw [heq]
      exact h.state
    · exact absurd hmem hborn.queue
    · simp [hoff]
    · simp [hshut]
  · by_contra hready
    rcases hs.active hready with hold | ⟨hadded, _⟩
    · exact hold h.active
    · exact hunregistered hadded
  · intro revents todo hmem
    rcases hs.handling_mem hmem with ⟨todo', _, hold⟩ | ⟨hready, _, _⟩
    · exact h.handling _ _ hold
    · exact hready h.active
  · intro hmem
    rcases hs.destroying_mem hmem with hold | hstate
    · exact h.destroying hold
    · exact h.state hstate
  · intro hmem
    rcases hs.removing_mem hmem with hold | ⟨hold, _⟩
    · exact h.removing hold
    · exact h.destroying hold

theorem Ends.step (h : Ends v) (hlive : Living v) (hd : Dispatch v) (hs : Step v mine a v')
    (hguard : mine = true → v.staysGone a = true) : Ends v' := by
  have hborn : v.conn.gone = true → Born v := by
    intro hgone
    refine hlive.resolve_left fun hunborn => ?_
    simp [Conn.gone, hunborn.log] at hgone
  refine ⟨?_, ?_, ?_⟩
  · intro hgone'
    by_cases hgone : v.conn.gone = true
    · exact (h.gone hgone).step hgone (hborn hgone) hs hguard
    · rcases hs.gone with hsame | ⟨hindex, hstate, hactive, hframes | ⟨_, hidle, hframes, hnot⟩⟩
      · rw [hsame] at hgone'
        exact absurd hgone' hgone
      · have hmem : .removing ∈ v.frames := by
          rw [hframes]
          exact List.mem_cons_self
        have hcalls := hd.destroying (Or.inr hmem)
        have hcount := h.once
        rw [hframes] at hcount
        have hne : Call.removing ≠ .destroying := by simp
        simp only [List.count_cons_self, List.count_cons_of_ne hne] at hcount
        have hstill := h.removing hmem
        refine ⟨hindex, by rwa [hstate], by rw [hactive, hcalls.1], ?_, ?_, ?_⟩
        · intro revents todo hmem'
          exact hcalls.2 revents todo (by rw [hframes]; exact List.mem_cons_of_mem _ hmem')
        · exact List.count_eq_zero.1 (by omega)
        · exact List.count_eq_zero.1 (by omega)
      · exact ⟨hindex, by rw [hstate]; exact hnot, by rw [hactive, hidle], by simp [hframes],
          by simp [hframes], by simp [hframes]⟩
  · intro hmem
    rcases hs.removing_mem hmem with hold | ⟨_, hoff⟩
    · have hstate := h.removing hold
      have hborn' := hlive.of_frames (List.ne_nil_of_mem hold)
      rcases hs.state with heq | ⟨_, hmem'⟩ | ⟨hoff, _⟩ | ⟨hshut, _⟩
      · rw [heq]
        exact hstate
      · exact absurd hmem' hborn'.queue
      · simp [hoff]
      · simp [hshut]
    · simp [hoff]
  · have honce := h.once
    rcases hs.destroying_count with hle | hle <;> omega

/-! ## Owners -/

/-- An accepted connection is in the map, on its way to `ConnectionDestroyed`, or
through with it. -/
structure Kept (v : View τ) : Prop where
  owner : v.conn.gone = false → v.inMap = true ∨ .connectionDestroyed ∈ v.queue ∨
    .destroying ∈ v.frames ∨ .removing ∈ v.frames
  batch : v.rest ⊆ v.batch

omit [DecidableEq τ] in
theorem Start.kept (h : Start v) : Kept v := by
  cases h with
  | queued _ _ _ _ _ _ _ _ hrest _ _ _ _ hmap => exact ⟨fun _ => Or.inl hmap, by simp [hrest]⟩
  | established _ _ _ _ _ _ hrest _ _ _ _ hmap => exact ⟨fun _ => Or.inl hmap, by simp [hrest]⟩

omit [DecidableEq τ] in
theorem destroy_owner {l : Nat} (h : (v.destroy l).conn.gone = false) :
    .destroying ∈ (v.destroy l).frames := by
  unfold destroy at h ⊢
  split
  · simp
  · rename_i hstate
    rw [if_neg hstate] at h
    simp at h

theorem Kept.step (h : Kept v) (hs : Step v mine a v') : Kept v' := by
  have howner := h.owner
  have hbatch := h.batch
  constructor
  · intro hgone
    have hbefore : v.conn.gone = false := by
      by_contra hold
      rw [hs.gone_mono (by simpa using hold)] at hgone
      cases hgone
    have hold := howner hbefore
    unfold View.queue at hold ⊢
    cases hs with
    | runDestroyed => exact Or.inr (Or.inr (Or.inl (destroy_owner hgone)))
    | dtorDestroyed => exact Or.inr (Or.inr (Or.inl (destroy_owner hgone)))
    | removed => simp at hgone
    | disconnected => exact Or.inr (Or.inr (Or.inr (by simp)))
    | closeRemoved => exact Or.inr (Or.inl (by simp))
    | runRemove => exact Or.inr (Or.inl (by simp))
    | dtorQueued => exact Or.inr (Or.inl (by simp))
    | swapped _ hframes _ hrest => simpa [hframes, hrest] using hold
    | finished _ hframes hrest => simpa [hframes, hrest] using hold
    | ownSent _ _ _ _ _ due => cases due <;> simpa using hold
    | runSend _ _ _ _ _ due hframes _ hrest => cases due <;> simpa [hframes, hrest] using hold
    | _ => simpa [*] using hold
  · have htail : ∀ {job rest}, v.rest = job :: rest → rest ⊆ v.batch := by
      intro job rest hrest j hj
      exact hbatch (by rw [hrest]; exact List.mem_cons_of_mem _ hj)
    cases hs with
    | swapped => exact List.Subset.refl _
    | finished _ _ hrest => simp [hrest]
    | runEstablished _ _ _ _ _ _ hrest => exact htail hrest
    | runSend _ _ _ _ _ _ _ _ hrest => exact htail hrest
    | runShutdown _ _ _ _ _ _ hrest => exact htail hrest
    | runWriteComplete _ _ _ _ _ _ hrest => exact htail hrest
    | runDestroyed _ _ _ _ _ hrest => simpa using htail hrest
    | dtorDestroyed => simpa using hbatch
    | _ => exact hbatch

end View

section Runs

variable [DecidableEq τ] {s : TcpServer τ} {c : Nat} {x : Conn}

theorem ends_of_reach (h : (machine τ).Reach (Guarded fun v a => v.staysGone a) s)
    (hx : s.conns[c]? = some x) :
    (s.view c x).Living ∧ (s.view c x).Dispatch ∧ (s.view c x).Ends :=
  view_invariant (I := fun v => v.Living ∧ v.Dispatch ∧ v.Ends)
    (fun _ hs => ⟨hs.living, hs.dispatch, hs.ends⟩)
    (fun _ _ _ _ hI hguard hs =>
      ⟨hI.1.step hs, hI.2.1.step hs, hI.2.2.step hI.1 hI.2.1 hs hguard⟩) h hx

theorem gone_follows {guard : TcpServer τ → Action τ → Prop} {s' : TcpServer τ}
    (h : (machine τ).Reach guard s) (hf : (machine τ).Follows guard s s')
    (hx : s.conns[c]? = some x) (hgone : x.gone = true) :
    ∃ x', s'.conns[c]? = some x' ∧ x'.gone = true := by
  rcases view_follows (Q := fun _ _ _ => True) (R := fun x y => x.gone = true → y.gone = true)
    (fun _ => id) (fun _ _ _ hxy hyz hx => hyz (hxy hx)) (fun _ _ _ _ _ _ => trivial)
    (fun _ _ _ _ _ _ hs => hs.gone_mono) h hf hx with ⟨x', hx', hstill⟩
  exact ⟨x', hx', hstill hgone⟩

omit [DecidableEq τ] in
theorem Registry.not_registered (h : Registry s) (hx : s.conns[c]? = some x)
    (hindex : x.tcp.channel.index = EpollPoller.kNew) (l : Nat) (fd : Int) :
    (s.loops l).channelMaps fd ≠ some c ∧
      ∀ e, (s.loops l).epollSet fd = some e → e.ptr ≠ c := by
  constructor
  · intro hmap
    obtain ⟨y, hy, _, _, hnew⟩ := h.mapped l fd c hmap
    have hxy : x = y := Option.some.inj (hx.symm.trans hy)
    exact hnew (hxy ▸ hindex)
  · rintro e he rfl
    obtain ⟨y, hy, _, _, hadded⟩ := h.watched l fd e he
    have hxy : x = y := Option.some.inj (hx.symm.trans hy)
    rw [← hxy, hindex] at hadded
    cases hadded

/-- Once `ConnectionDestroyed` has run, the channel of the connection is in no
`channel_maps_` and in no epoll set, in every run in which no queued send sets the
write bit of a destroyed connection. -/
theorem destroyed_not_registered {s' : TcpServer τ}
    (h : (machine τ).Reach (Guarded fun v a => v.staysGone a) s) (hx : s.conns[c]? = some x)
    (hgone : x.gone = true)
    (hf : (machine τ).Follows (Guarded fun v a => v.staysGone a) s s') (l : Nat) (fd : Int) :
    (s'.loops l).channelMaps fd ≠ some c ∧
      ∀ e, (s'.loops l).epollSet fd = some e → e.ptr ≠ c := by
  have hreach := h.follows hf
  obtain ⟨x', hx', hgone'⟩ := gone_follows h hf hx hgone
  have hends := (ends_of_reach hreach hx').2.2.gone hgone'
  exact (sane_of_reach hreach).registry.not_registered hx' hends.index l fd

theorem mem_jobsOf {fs : List Functor} {job : Job} :
    job ∈ jobsOf c fs ↔ ⟨c, job⟩ ∈ fs ∧ job ≠ .removeConnection := by
  simp only [jobsOf, List.mem_filterMap]
  constructor
  · rintro ⟨f, hf, heq⟩
    split at heq
    · rename_i hc
      cases heq
      rw [← hc.1]
      exact ⟨hf, hc.2⟩
    · cases heq
  · rintro ⟨hf, hjob⟩
    exact ⟨_, hf, by simp [hjob]⟩

omit [DecidableEq τ] in
theorem owned_of_functor {l : Nat} (job : Job) (hl : l ≤ s.threads)
    (hmem : ⟨c, job⟩ ∈ (s.loops l).functors ++ (s.loops l).core.pendingFunctors)
    (hshared : job.bare = false) : s.owned c = true := by
  simp only [owned, Bool.or_eq_true, List.any_eq_true, List.mem_range]
  refine Or.inr ⟨l, by omega, ?_⟩
  simp only [Loop.holds, Bool.or_eq_true, List.any_eq_true]
  exact Or.inl ⟨_, hmem, by simp [hshared]⟩

theorem callsOf_mem {fs : List Frame} {call : Call} (h : call ∈ callsOf c fs) : ⟨c, call⟩ ∈ fs := by
  simp only [callsOf, List.mem_filterMap] at h
  obtain ⟨f, hf, heq⟩ := h
  split at heq
  · rename_i hc
    cases heq
    rw [← hc]
    exact hf
  · cases heq

omit [DecidableEq τ] in
/-- The owner that a connection has until `ConnectionDestroyed` is through with it. -/
theorem owned_of_kept (hloop : x.loop ≤ s.threads) (h : (s.view c x).Kept)
    (hgone : x.gone = false) : s.owned c = true := by
  have hframe : ∀ call, call ∈ callsOf c (s.loops x.loop).frames → s.owned c = true := by
    intro call hcall
    simp only [owned, Bool.or_eq_true, List.any_eq_true, List.mem_range]
    refine Or.inr ⟨x.loop, by omega, ?_⟩
    simp only [Loop.holds, Bool.or_eq_true, List.any_eq_true]
    exact Or.inr ⟨_, callsOf_mem hcall, by simp⟩
  rcases h.owner hgone with hmap | hqueue | hdestroying | hremoving
  · simp only [owned, Bool.or_eq_true]
    exact Or.inl hmap
  · refine owned_of_functor .connectionDestroyed hloop (List.mem_append.2 ?_) rfl
    exact (List.mem_append.1 hqueue).imp (fun hrest => (mem_jobsOf.1 (h.batch hrest)).1)
      fun hpending => (mem_jobsOf.1 hpending).1
  · exact hframe _ hdestroying
  · exact hframe _ hremoving

end Runs

def oneByte : Payload := ⟨[65], by decide⟩

/-- A sub-loop takes a new connection; a send of thread 1 has seen it connected when
its own callback half-closes it. The server is destroyed, so `ConnectionDestroyed` is
queued before the send. -/
def destroyedBeforeSend : List (Action Nat) :=
  accepting ++ [.loop 1 .enterLoop, .loop 1 .resetQuit, .loop 1 .testQuit, .loop 1 .startPolling,
    .poll 1 true [], .loop 1 .handleWakeup, .loop 1 .doPendingFunctors, .loop 1 .swapFunctors,
    .runFunctor 1 noBytes (.wrote 0), .obtain 1 0, .sendCheck 1 0 1, .ownShutDown 1 0,
    .resume 1, .resume 1, .loop 1 .finishFunctors, .quit 0, .loop 0 .doPendingFunctors,
    .loop 0 .swapFunctors, .loop 0 .finishFunctors, .loop 0 .testQuit, .dtorBegin, .dtorNext 0,
    .sendQueue 1, .loop 1 .testQuit, .loop 1 .startPolling, .poll 1 true [],
    .loop 1 .handleWakeup, .loop 1 .doPendingFunctors, .loop 1 .swapFunctors,
    .runFunctor 1 noBytes (.wrote 0)]

/-- The queued send of the destroyed connection is written whole. -/
theorem destroyed_not_registered_late_send : ∃ (s s' : TcpServer Nat) (x : Conn),
    s.conns[0]? = some x ∧ x.gone = true ∧
      (machine Nat).step s (.runFunctor 1 oneByte (.wrote 1)) = some s' ∧
      (s'.loops 1).channelMaps 7 ≠ some 0 ∧
      ∀ e, (s'.loops 1).epollSet 7 = some e → e.ptr ≠ 0 := by
  rcases Machine.Reach.of_test (machine Nat) (Guarded fun v a => v.staysGone a)
      (fun s => (s.conns[0]?).any Conn.gone &&
        (decide (Guarded (fun v a => v.staysGone a) s (.runFunctor 1 oneByte (.wrote 1))) &&
          ((machine Nat).step s (.runFunctor 1 oneByte (.wrote 1))).isSome))
      destroyedBeforeSend (.start (new_initial 1 false)) (by decide +kernel) with
    ⟨s, hreach, htest⟩
  rw [Bool.and_eq_true, Bool.and_eq_true, decide_eq_true_eq] at htest
  obtain ⟨hend, hguard, hruns⟩ := htest
  obtain ⟨x, hx, hgone⟩ := (Option.any_eq_true ..).1 hend
  obtain ⟨s', hs'⟩ := Option.isSome_iff_exists.1 hruns
  have hlate := destroyed_not_registered hreach hx hgone (.step .refl hguard hs') 1 7
  exact ⟨s, s', x, hx, hgone, hs', hlate⟩

/-- The queued send finds `kDisconnecting`, its write is short, and `EnableWrite` puts
the channel of the destroyed connection back. -/
theorem destroyed_registered_again : ¬ ∀ (s s' : TcpServer Nat) (c : Nat) (x : Conn),
    (machine Nat).Reach (fun _ _ => True) s → s.conns[c]? = some x → x.gone = true →
      (machine Nat).Follows (fun _ _ => True) s s' → ∀ (l : Nat) (fd : Int),
        (s'.loops l).channelMaps fd ≠ some c ∧
          ∀ e, (s'.loops l).epollSet fd = some e → e.ptr ≠ c := by
  intro hclaim
  rcases Machine.Reach.of_test (machine Nat) (fun _ _ => True)
      (fun s => (s.conns[0]?).any Conn.gone && (s.loops 1).channelMaps 7 == some 0)
      (destroyedBeforeSend ++ [.runFunctor 1 oneByte (.wrote 0)])
      (.start (new_initial 1 false)) (by decide +kernel) with ⟨s, hreach, htest⟩
  rw [Bool.and_eq_true, beq_iff_eq] at htest
  obtain ⟨x, hx, hgone⟩ := (Option.any_eq_true ..).1 htest.1
  exact (hclaim s s 0 x hreach hx hgone .refl 1 7).1 htest.2

section Runs

variable [DecidableEq τ] {s : TcpServer τ} {c : Nat} {x : Conn}

/-- Every channel that waits for its dispatch and every channel in an epoll set belongs
to a connection with an owner, in every run in which no queued send sets the write bit
of a destroyed connection. -/
theorem registered_owned (h : (machine τ).Reach (Guarded fun v a => v.staysGone a) s) :
    (∀ (l c : Nat) revents, .channel c revents ∈ (s.loops l).active → s.owned c = true) ∧
      ∀ (l : Nat) (fd : Int) e, (s.loops l).epollSet fd = some e → s.owned e.ptr = true := by
  have hsane := sane_of_reach h
  have howner : ∀ (c : Nat) x, s.conns[c]? = some x →
      (x.gone = true → False) → s.owned c = true := by
    intro c x hx hgone
    have hkept := view_invariant (I := View.Kept) (fun _ hs => hs.kept)
      (fun _ _ _ _ hI _ hs => hI.step hs) h hx
    exact owned_of_kept (loop_le_threads h hx) hkept (by simpa using hgone)
  constructor
  · intro l c revents hmem
    obtain ⟨x, hx, hloop⟩ := hsane.threads.active l c revents hmem
    refine howner c x hx fun hgone => ?_
    have hactive : revents ∈ (s.view c x).active := by
      simp only [view, hloop, List.mem_filterMap]
      exact ⟨_, hmem, by simp [maskOf]⟩
    rw [((ends_of_reach h hx).2.2.gone hgone).active] at hactive
    cases hactive
  · intro l fd e he
    obtain ⟨x, hx, _, _, hadded⟩ := hsane.registry.watched l fd e he
    refine howner e.ptr x hx fun hgone => ?_
    have hindex : x.tcp.channel.index = EpollPoller.kNew :=
      ((ends_of_reach h hx).2.2.gone hgone).index
    rw [hindex] at hadded
    cases hadded

end Runs

/-- The first connection is destroyed, the second has come back from `HandleClose` and waits
for `ConnectionDestroyed`, and the third waits for its dispatch. -/
theorem registered_owned_ready : ∃ (s : TcpServer Nat) (x y : Conn), s.conns[0]? = some x ∧
    s.conns[1]? = some y ∧ x.gone = true ∧ y.gone = false ∧ .closeReturned ∈ y.log ∧
      .channel 2 Channel.POLLIN ∈ (s.loops 0).active ∧ s.owned 2 = true ∧
      ∀ e, (s.loops 0).epollSet 9 = some e → s.owned e.ptr = true := by
  rcases Machine.Reach.of_test (machine Nat) (Guarded fun v a => v.staysGone a)
      (fun s => ((s.conns[0]?).any Conn.gone &&
        (s.conns[1]?).any fun y => !y.gone && y.log.contains .closeReturned) &&
        (s.loops 0).active.contains (.channel 2 Channel.POLLIN))
      (accepting ++ polling ++ hangingUp ++ destroying ++ [.loop 0 .finishFunctors,
        .loop 0 .testQuit, .loop 0 .startPolling, .poll 0 false [.acceptor], .accept 8] ++
        polling ++ [.poll 0 false [.acceptor], .accept 9] ++ polling ++
        [.poll 0 false [.channel 1 Channel.POLLHUP, .channel 2 Channel.POLLIN], .dispatch 0,
          .handle 0 (.failed 0) (.wrote 0), .resume 0, .resume 0, .resume 0, .resume 0])
      (.start (new_initial 0 false)) (by decide +kernel) with ⟨s, hreach, htest⟩
  rw [Bool.and_eq_true, Bool.and_eq_true, List.contains_iff_mem] at htest
  obtain ⟨⟨hfirst, hsecond⟩, hthird⟩ := htest
  obtain ⟨x, hx, hgone⟩ := (Option.any_eq_true ..).1 hfirst
  obtain ⟨y, hy, hclosing⟩ := (Option.any_eq_true ..).1 hsecond
  rw [Bool.and_eq_true, Bool.not_eq_true', List.contains_iff_mem] at hclosing
  have howned := registered_owned hreach
  exact ⟨s, x, y, hx, hy, hgone, hclosing.1, hclosing.2, hthird, howned.1 0 2 _ hthird,
    howned.2 0 9⟩

/-- After the pass that put the channel back, only the sender's pointer is left, and it
is dropped while the channel waits for its dispatch. -/
theorem active_without_owner : ¬ ∀ s : TcpServer Nat,
    (machine Nat).Reach (fun _ _ => True) s →
      (∀ (l c : Nat) revents, .channel c revents ∈ (s.loops l).active → s.owned c = true) ∧
        ∀ (l : Nat) (fd : Int) e, (s.loops l).epollSet fd = some e → s.owned e.ptr = true := by
  intro hclaim
  rcases Machine.Reach.of_test (machine Nat) (fun _ _ => True)
      (fun s =>
        (s.loops 1).active.contains (.channel 0 Channel.POLLHUP) && !s.held 0)
      (destroyedBeforeSend ++ [.runFunctor 1 oneByte (.wrote 0), .loop 1 .finishFunctors,
        .loop 1 .testQuit, .loop 1 .startPolling, .poll 1 false [.channel 0 Channel.POLLHUP],
        .drop 1 0])
      (.start (new_initial 1 false)) (by decide +kernel) with ⟨s, hreach, htest⟩
  rw [Bool.and_eq_true, List.contains_iff_mem] at htest
  have howned := (hclaim s hreach).1 1 0 _ htest.1
  simp [held, howned] at htest

end MyNetLib.TcpServer
