import MyNetLib.Server.Placement

/-! # Every run of the server is a run of each of its connections

A step of the server is, for each connection, a step of its view: the one it is
about changes as its functions say, the others do not notice. A property of all
runs of one connection is then a property of the server.
-/

namespace MyNetLib.TcpServer

open Library

variable {τ : Type} {s s' : TcpServer τ} {l m c d : Nat} {x y z : Conn}

/-! ## Parts of a queue -/

@[simp] theorem jobsOf_nil (c : Nat) : jobsOf c [] = [] := rfl

@[simp] theorem jobsOf_append (c : Nat) (fs gs : List Functor) :
    jobsOf c (fs ++ gs) = jobsOf c fs ++ jobsOf c gs := List.filterMap_append

theorem jobsOf_cons (c : Nat) (f : Functor) (fs : List Functor) :
    jobsOf c (f :: fs) = jobsOf c [f] ++ jobsOf c fs := by
  rw [← jobsOf_append]
  rfl

theorem jobsOf_self {job : Job} (h : job ≠ .removeConnection) : jobsOf c [⟨c, job⟩] = [job] := by
  simp [jobsOf, h]

theorem jobsOf_other {job : Job} (h : d ≠ c) : jobsOf d [⟨c, job⟩] = [] := by
  simp [jobsOf, Ne.symm h]

theorem jobsOf_removal : jobsOf d [⟨c, .removeConnection⟩] = [] := by
  simp [jobsOf]

@[simp] theorem removalsOf_append (c : Nat) (fs gs : List Functor) :
    removalsOf c (fs ++ gs) = removalsOf c fs + removalsOf c gs := List.count_append

theorem removalsOf_cons (c : Nat) (f : Functor) (fs : List Functor) :
    removalsOf c (f :: fs) = removalsOf c [f] + removalsOf c fs := by
  rw [← removalsOf_append]
  rfl

theorem removalsOf_job {job : Job} (h : job ≠ .removeConnection) :
    removalsOf d [⟨c, job⟩] = 0 := by
  simp [removalsOf, h]

theorem removalsOf_other {job : Job} (h : d ≠ c) : removalsOf d [⟨c, job⟩] = 0 := by
  simp [removalsOf, Ne.symm h]

theorem removalsOf_self : removalsOf c [⟨c, .removeConnection⟩] = 1 := by
  simp [removalsOf]

@[simp] theorem callsOf_nil (c : Nat) : callsOf c [] = [] := rfl

theorem callsOf_self (call : Call) (fs : List Frame) :
    callsOf c (⟨c, call⟩ :: fs) = call :: callsOf c fs := by
  simp [callsOf]

theorem callsOf_other (h : d ≠ c) (call : Call) (fs : List Frame) :
    callsOf d (⟨c, call⟩ :: fs) = callsOf d fs := by
  simp [callsOf, Ne.symm h]

theorem callsOf_calls (c : Nat) (calls : List Call) (fs : List Frame) :
    callsOf d (calls.map (Frame.mk c) ++ fs) =
      (if d = c then calls else []) ++ callsOf d fs := by
  by_cases hd : d = c
  · subst hd
    induction calls with
    | nil => simp
    | cons call calls ih =>
        rw [List.map_cons, List.cons_append, callsOf_self, ih]
        simp
  · induction calls with
    | nil => simp
    | cons call calls ih =>
        rw [List.map_cons, List.cons_append, callsOf_other hd, ih]
        simp [hd]

/-! ## The view after each operation -/

theorem view_conn (s : TcpServer τ) (c : Nat) (h : y.loop = x.loop) :
    s.view c y = { s.view c x with conn := y } := by
  simp only [view, h]

theorem view_same (hsame : SameThreads s s') (hmaps : s'.connectionMaps = s.connectionMaps)
    (husers : s'.users = s.users) (hcallers : s'.callers = s.callers) (halive : s'.alive = s.alive)
    (d : Nat) (z : Conn) : s'.view d z = s.view d z := by
  simp only [view, Loop.rest, (hsame z.loop).1, (hsame z.loop).2.1, (hsame z.loop).2.2.1,
    (hsame z.loop).2.2.2, (hsame 0).1, hmaps, husers, hcallers, halive]

theorem view_conn_eq (s : TcpServer τ) (c : Nat) (x : Conn) : (s.view c x).conn = x := rfl

@[simp] theorem view_setConn (s : TcpServer τ) (c : Nat) (y : Conn) (d : Nat) (z : Conn) :
    (s.setConn c y).view d z = s.view d z := rfl

@[simp] theorem view_update (s : TcpServer τ) (c : Nat) (y : Conn) (d : Nat) (z : Conn) :
    (s.update c y).view d z = s.view d z := by
  rw [update_eq]
  exact view_same (setPoller_threads _ _) rfl rfl rfl rfl d z

@[simp] theorem view_remove (s : TcpServer τ) (c : Nat) (y : Conn) (d : Nat) (z : Conn) :
    (s.remove c y).view d z = s.view d z := by
  rw [remove_eq]
  exact view_same (setPoller_threads _ _) rfl rfl rfl rfl d z

@[simp] theorem view_store (s : TcpServer τ) (c : Nat) (y : Conn) (tcp : TcpConnection) (d : Nat)
    (z : Conn) : (s.store c y tcp).view d z = s.view d z := by
  unfold store
  split <;> simp

theorem view_setLoop (s : TcpServer τ) (l : Nat) (L : Loop) (d : Nat) (z : Conn) :
    (s.setLoop l L).view d z = { s.view d z with
      pending := if z.loop = l then jobsOf d L.core.pendingFunctors else (s.view d z).pending
      rest := if z.loop = l then jobsOf d L.rest else (s.view d z).rest
      batch := if z.loop = l then jobsOf d L.functors else (s.view d z).batch
      removals := if 0 = l then removalsOf d L.core.queued else (s.view d z).removals
      frames := if z.loop = l then callsOf d L.frames else (s.view d z).frames
      active := if z.loop = l then L.active.filterMap (maskOf d) else (s.view d z).active } := by
  unfold view
  simp only [loops_setLoop]
  by_cases hz : z.loop = l <;> by_cases h0 : 0 = l <;> simp only [hz, h0, if_true, if_false] <;>
    rfl

theorem view_setFrames (s : TcpServer τ) (l : Nat) (frames : List Frame) (d : Nat) (z : Conn) :
    (s.setLoop l { s.loops l with frames := frames }).view d z = { s.view d z with
      frames := if z.loop = l then callsOf d frames else (s.view d z).frames } := by
  rw [view_setLoop]
  by_cases hz : z.loop = l <;> by_cases h0 : 0 = l <;> simp only [hz, h0, if_true, if_false, view]
  all_goals rfl

theorem view_otherFrames {frames : List Frame} (h : callsOf d frames = callsOf d (s.loops l).frames)
    (z : Conn) : (s.setLoop l { s.loops l with frames := frames }).view d z = s.view d z := by
  rw [view_setFrames]
  by_cases hz : z.loop = l
  · simp [hz, view, h]
  · simp [hz]

theorem view_push (s : TcpServer τ) (l c : Nat) (calls : List Call) (d : Nat) (z : Conn) :
    (s.push l c calls).view d z = { s.view d z with
      frames := (if d = c ∧ z.loop = l then calls else []) ++ (s.view d z).frames } := by
  rw [push, view_setFrames]
  by_cases hz : z.loop = l
  · by_cases hd : d = c <;> simp [hz, hd, callsOf_calls, view]
  · simp [hz]

theorem view_setActive (s : TcpServer τ) (l : Nat) (active : List Ready) (d : Nat) (z : Conn) :
    (s.setLoop l { s.loops l with active := active }).view d z = { s.view d z with
      active := if z.loop = l then active.filterMap (maskOf d) else (s.view d z).active } := by
  rw [view_setLoop]
  by_cases hz : z.loop = l <;> by_cases h0 : 0 = l <;> simp only [hz, h0, if_true, if_false, view]
  all_goals rfl

theorem view_setThread {k : EventLoop Functor} (hqueued : k.queued = (s.loops l).core.queued)
    (functors : List Functor) (active : List Ready) (d : Nat) (z : Conn) :
    (s.setLoop l { s.loops l with
        core := k, functors := functors, active := active }).view d z = { s.view d z with
      pending := if z.loop = l then jobsOf d k.pendingFunctors else (s.view d z).pending
      rest := if z.loop = l then jobsOf d { s.loops l with core := k }.rest
        else (s.view d z).rest
      batch := if z.loop = l then jobsOf d functors else (s.view d z).batch
      active := if z.loop = l then active.filterMap (maskOf d) else (s.view d z).active } := by
  rw [view_setLoop, hqueued]
  by_cases hz : z.loop = l <;> by_cases h0 : 0 = l <;> simp only [hz, h0, if_true, if_false, view]
  all_goals rfl

theorem queue_queued (core : EventLoop Functor) (own : Bool) (f : Functor) :
    (if own then core.queueInLoop f else (core.emplace f).wakeup).queued = core.queued ++ [f] := by
  obtain ⟨hpending, hpc⟩ := queue_core core own f
  rw [EventLoop.queued, hpending, hpc, ← List.append_assoc, ← EventLoop.queued]

theorem view_queueInLoop (s : TcpServer τ) (own : Bool) (m : Nat) (f : Functor) (d : Nat)
    (z : Conn) : (s.queueInLoop own m f).view d z = { s.view d z with
      pending := (s.view d z).pending ++ if z.loop = m then jobsOf d [f] else []
      removals := (s.view d z).removals + if 0 = m then removalsOf d [f] else 0 } := by
  obtain ⟨hpending, hpc⟩ := queue_core (s.loops m).core own f
  have hqueued := queue_queued (s.loops m).core own f
  rw [TcpServer.queueInLoop, view_setLoop]
  by_cases hz : z.loop = m <;> by_cases h0 : 0 = m <;>
    simp [hz, h0, hpending, hpc, hqueued, view, Loop.rest]

theorem view_queueJob (s : TcpServer τ) (own : Bool) (m c : Nat) {job : Job}
    (hjob : job ≠ .removeConnection) (d : Nat) (z : Conn) :
    (s.queueInLoop own m ⟨c, job⟩).view d z = { s.view d z with
      pending := (s.view d z).pending ++ if d = c ∧ z.loop = m then [job] else [] } := by
  rw [view_queueInLoop, removalsOf_job hjob]
  by_cases hd : d = c
  · subst hd
    simp [jobsOf_self hjob]
  · simp [jobsOf_other hd, hd]

theorem view_queueRemoval (s : TcpServer τ) (own : Bool) (c d : Nat) (z : Conn) :
    (s.queueInLoop own 0 ⟨c, .removeConnection⟩).view d z = { s.view d z with
      removals := (s.view d z).removals + if d = c then 1 else 0 } := by
  rw [view_queueInLoop, jobsOf_removal]
  by_cases hd : d = c
  · subst hd
    simp [removalsOf_self]
  · simp [removalsOf_other hd, hd]

theorem view_unmap (s : TcpServer τ) (c d : Nat) (z : Conn) :
    { s with connectionMaps := s.connectionMaps.filter (· ≠ c) }.view d z = { s.view d z with
      inMap := decide (d ≠ c) && (s.view d z).inMap } := by
  have hmap : (s.connectionMaps.filter (· ≠ c)).contains d =
      (decide (d ≠ c) && s.connectionMaps.contains d) := by
    rw [Bool.eq_iff_iff]
    simp [and_comm]
  simp only [view, hmap]

theorem view_removeConnectionInLoop (s : TcpServer τ) (c : Nat) (x : Conn) (d : Nat) (z : Conn) :
    (s.removeConnectionInLoop c x).view d z = { s.view d z with
      inMap := decide (d ≠ c) && (s.view d z).inMap
      pending := (s.view d z).pending ++
        if d = c ∧ z.loop = x.loop then [.connectionDestroyed] else [] } := by
  rw [TcpServer.removeConnectionInLoop, view_queueJob _ _ _ _ (by simp), view_setConn, view_unmap]

theorem view_setRest (d : Nat) (z : Conn) {f : Functor} {rest : List Functor}
    (hpc : (s.loops l).core.pc = .running (f :: rest)) :
    (s.setLoop l { s.loops l with core := { (s.loops l).core with pc := .running rest } }).view
        d z = { s.view d z with
      rest := if z.loop = l then jobsOf d rest else (s.view d z).rest
      removals := (s.view d z).removals - if 0 = l then removalsOf d [f] else 0 } := by
  have hremovals : removalsOf d (s.loops l).core.queued - removalsOf d [f] =
      removalsOf d { (s.loops l).core with pc := EventLoop.Pc.running rest }.queued := by
    rw [EventLoop.queued_running hpc, removalsOf_cons]
    exact Nat.add_sub_cancel_left ..
  rw [view_setLoop]
  by_cases hz : z.loop = l <;> by_cases h0 : 0 = l <;>
    simp [hz, h0, view, Loop.rest, hremovals]

/-! ## The projection of each step -/

theorem wrote_loop (x : Conn) (tcp : TcpConnection) : (x.wrote tcp).loop = x.loop := by
  unfold Conn.wrote
  split <;> rfl

@[simp] theorem conns_push (s : TcpServer τ) (l c : Nat) (calls : List Call) :
    (s.push l c calls).conns = s.conns := rfl

@[simp] theorem conns_queueInLoop (s : TcpServer τ) (own : Bool) (m : Nat) (f : Functor) :
    (s.queueInLoop own m f).conns = s.conns := rfl

theorem set_self (hx : s.conns[c]? = some x) : s.conns.set c x = s.conns := by
  rw [List.getElem?_eq_some_iff] at hx
  obtain ⟨hlt, rfl⟩ := hx
  exact List.set_getElem_self hlt

theorem loop_eq (h : s.Lives l c) (hx : s.conns[c]? = some x) : x.loop = l := by
  obtain ⟨y, hy, hloop⟩ := h
  rw [hx, Option.some.injEq] at hy
  rw [hy, hloop]

variable [DecidableEq τ]

/-- Every connection of `s` is one of `s'` and its view takes a step; a new one has
just been accepted. -/
structure Projects (s : TcpServer τ) (a : Action τ) (s' : TcpServer τ) : Prop where
  old : ∀ (d : Nat) z, s.conns[d]? = some z → ∃ z', s'.conns[d]? = some z' ∧ z'.loop = z.loop ∧
    (s.view d z).Step (decide (s.subject a = some d)) a (s'.view d z')
  new : ∀ (d : Nat) z, s.conns[d]? = none → s'.conns[d]? = some z → (s'.view d z).Start

/-- The step is about `c`: its fields become `y`, its view takes a step, and
nobody else's view changes. -/
theorem projects_one {a : Action τ} (hx : s.conns[c]? = some x) (hsubject : s.subject a = some c)
    (hconns : s'.conns = s.conns.set c y) (hloop : y.loop = x.loop)
    (hself : (s.view c x).Step true a { s'.view c x with conn := y })
    (hother : ∀ d z, d ≠ c → s.conns[d]? = some z → s'.view d z = s.view d z) :
    Projects s a s' := by
  constructor
  · intro d z hz
    by_cases hd : d = c
    · subst hd
      rw [hx, Option.some.injEq] at hz
      subst hz
      refine ⟨y, by rw [hconns, conns_set hx]; simp, hloop, ?_⟩
      rw [decide_eq_true hsubject, view_conn s' d hloop]
      exact hself
    · refine ⟨z, by rw [hconns, conns_set hx]; simp [hd, hz], rfl, ?_⟩
      rw [hother d z hd hz]
      exact .quiet _ _
  · intro d z hnone hz
    have hd : d ≠ c := by
      rintro rfl
      rw [hx] at hnone
      cases hnone
    rw [hconns, conns_set hx, if_neg hd, hnone] at hz
    cases hz

theorem projects_same {a : Action τ} (hconns : s'.conns = s.conns)
    (hstep : ∀ d z, s.conns[d]? = some z →
      (s.view d z).Step (decide (s.subject a = some d)) a (s'.view d z)) : Projects s a s' := by
  constructor
  · intro d z hz
    exact ⟨z, by rw [hconns]; exact hz, rfl, hstep d z hz⟩
  · intro d z hnone hz
    rw [hconns, hnone] at hz
    cases hz

theorem projects_none {a : Action τ} (hconns : s'.conns = s.conns)
    (hview : ∀ d z, s.conns[d]? = some z → s'.view d z = s.view d z) : Projects s a s' := by
  refine projects_same hconns fun d z hz => ?_
  rw [hview d z hz]
  exact .quiet _ _

theorem Sane.projects_dispatch (h : Sane s) (hs : s.dispatch l = some s') :
    Projects s (.dispatch l) s' := by
  unfold TcpServer.dispatch at hs
  dsimp only at hs
  split at hs
  · rename_i c revents active hactive
    split at hs
    · rename_i hready
      cases hs
      simp only [Loop.dispatching, Bool.and_eq_true, List.isEmpty_iff] at hready
      have hlives : s.Lives l c :=
        h.threads.active l c revents (by rw [hactive]; exact List.mem_cons_self)
      obtain ⟨x, hx, hl⟩ := hlives
      refine projects_one (y := x) hx (by simp [subject, hactive, Ready.key])
        (set_self hx).symm rfl ?_ ?_
      · have hview : (s.view c x).active = revents :: active.filterMap (maskOf c) := by
          simp [view, hl, hactive, maskOf]
        have hframes : (s.view c x).frames = [] := by simp [view, hl, hready.1.1]
        rw [view_push, view_setActive]
        simpa [hl, hframes, view_conn_eq] using View.Step.dispatched l revents _ hframes hview
      · intro d z hd _
        rw [view_push, view_setActive]
        by_cases hz : z.loop = l
        · simp [hd, hz, view, hactive, maskOf, Ne.symm hd]
        · simp [hz]
    · cases hs
  · cases hs

omit [DecidableEq τ] in
theorem sendInLoop_some {p : Payload} {w : WriteResult} (h : s.sendInLoop l c x p w = some s') :
    ∃ tcp due, x.tcp.sendInLoop p w = some (tcp, due) ∧
      s' = (s.store c x tcp).push l c (if due then [.callback] else []) := by
  obtain ⟨⟨tcp, due⟩, hsend, rfl⟩ := Option.map_eq_some_iff.1 h
  refine ⟨tcp, due, hsend, ?_⟩
  cases due
  · simp [push, setLoop]
  · rfl

omit [DecidableEq τ] in
theorem handleWrite_some {w : WriteResult} (h : s.handleWrite l c x w = some s') :
    ∃ tcp due, x.tcp.handleWrite w = some (tcp, due) ∧ s'.conns = s.conns.set c (x.wrote tcp) ∧
      ∀ d z, s'.view d z = { s.view d z with
        pending := (s.view d z).pending ++
          if due ∧ d = c ∧ z.loop = x.loop then [.writeComplete] else [] } := by
  obtain ⟨⟨tcp, due⟩, hwrite, rfl⟩ := Option.map_eq_some_iff.1 h
  refine ⟨tcp, due, hwrite, ?_, ?_⟩
  · cases due <;> exact conns_store ..
  · intro d z
    cases due
    · simp
    · have hremovals : removalsOf d [⟨c, .writeComplete⟩] = 0 := removalsOf_job (by simp)
      simp only [if_true, view_queueInLoop, view_store, hremovals, ite_self, Nat.add_zero, true_and]
      by_cases hz : z.loop = x.loop <;> by_cases hd : d = c
      · simp [hz, hd, jobsOf_self]
      · simp [hz, hd, jobsOf_other hd]
      · simp [hz]
      · simp [hz]

theorem Sane.projects_handle {r : ReadvResult} {w : WriteResult} (h : Sane s)
    (hs : s.handle l r w = some s') : Projects s (.handle l r w) s' := by
  unfold TcpServer.handle at hs
  split at hs
  · rename_i c revents handler todo frames hframes
    split at hs
    · cases hs
    · rename_i x hx
      have hl : x.loop = l := by
        refine loop_eq (h.threads.frames l ⟨c, .handleEvent revents (handler :: todo)⟩ ?_) hx
        rw [hframes]
        exact List.mem_cons_self
      have hsubject : s.subject (.handle l r w) = some c := by simp [subject, hframes]
      have hview : (s.view c x).frames =
          .handleEvent revents (handler :: todo) :: callsOf c frames := by
        simp [view, hl, hframes, callsOf_self]
      have hother : ∀ d z, d ≠ c → (s.setLoop l { s.loops l with
          frames := ⟨c, .handleEvent revents todo⟩ :: frames }).view d z = s.view d z := by
        intro d z hd
        exact view_otherFrames (by rw [hframes, callsOf_other hd, callsOf_other hd]) z
      dsimp only at hs
      split at hs
      · cases hs
        refine projects_one (y := (x.note .handled).down) hx hsubject ?_ rfl ?_ ?_
        · rw [TcpServer.handleClose, conns_push, conns_update]
          simp [TcpServer.setConn, TcpServer.setLoop, Conn.down]
        · simp only [TcpServer.handleClose, view_push, view_update, view_setConn, view_setFrames]
          simpa [hl, callsOf_self, view_conn_eq] using
            View.Step.handledClose l r w revents todo _ hview
        · intro d z hd _
          simp only [TcpServer.handleClose, view_push, view_update, view_setConn, hother d z hd]
          simp [hd]
      · cases hs
        refine projects_one (y := x.note .handled) hx hsubject rfl rfl ?_ ?_
        · simp only [view_setConn, view_setFrames]
          simpa [hl, callsOf_self, view_conn_eq] using
            View.Step.handledError l r w revents todo _ hview
        · intro d z hd _
          rw [view_setConn, hother d z hd]
      · obtain ⟨⟨tcp, outcome⟩, hread, rfl⟩ := Option.map_eq_some_iff.1 hs
        cases outcome with
        | message =>
            refine projects_one (y := ((x.note .handled).setTcp tcp).note .message) hx hsubject
              ?_ rfl ?_ ?_
            · simp [TcpServer.setConn, TcpServer.setLoop, TcpServer.push]
            · simp only [view_push, view_setConn, view_setFrames]
              simpa [hl, callsOf_self, view_conn_eq] using
                View.Step.readMessage l r w revents todo _ tcp hview hread
            · intro d z hd _
              simp only [view_push, view_setConn, hother d z hd]
              simp [hd]
        | close =>
            refine projects_one (y := ((x.note .handled).setTcp tcp).down) hx hsubject ?_ rfl ?_ ?_
            · dsimp only
              rw [TcpServer.handleClose, conns_push, conns_update]
              simp [TcpServer.setConn, TcpServer.setLoop, Conn.down]
            · simp only [TcpServer.handleClose, view_push, view_update, view_setConn,
                view_setFrames]
              simpa [hl, callsOf_self, view_conn_eq] using
                View.Step.readClose l r w revents todo _ tcp hview hread
            · intro d z hd _
              simp only [TcpServer.handleClose, view_push, view_update, view_setConn, hother d z hd]
              simp [hd]
        | error =>
            refine projects_one (y := (x.note .handled).setTcp tcp) hx hsubject ?_ rfl ?_ ?_
            · simp [TcpServer.setConn, TcpServer.setLoop]
            · simp only [view_setConn, view_setFrames]
              simpa [hl, callsOf_self, view_conn_eq] using
                View.Step.readError l r w revents todo _ tcp hview hread
            · intro d z hd _
              simp only [view_setConn, hother d z hd]
      · obtain ⟨tcp, due, hwrite, hconns, hviews⟩ := handleWrite_some hs
        refine projects_one (y := (x.note .handled).wrote tcp) hx hsubject ?_
          (wrote_loop _ tcp) ?_ ?_
        · rw [hconns]
          simp [TcpServer.setConn, TcpServer.setLoop]
        · have hstep := View.Step.handledWrite l r w revents todo _ tcp due hview hwrite
          have hnoted : (x.note .handled).loop = l := hl
          rw [hviews, view_setConn, view_setFrames]
          simpa [hl, hnoted, callsOf_self, view_conn_eq] using hstep
        · intro d z hd _
          rw [hviews, view_setConn, hother d z hd]
          simp [hd]
  · cases hs

omit [DecidableEq τ] in
theorem view_unframed_other {call : Call} {frames : List Frame} (d : Nat) (z : Conn) (hd : d ≠ c)
    (hframes : (s.loops l).frames = ⟨c, call⟩ :: frames) :
    (s.setLoop l { s.loops l with frames := frames }).view d z = s.view d z :=
  view_otherFrames (by rw [hframes, callsOf_other hd]) z

/-- `HandleClose` calls `RemoveConnection`: at once on the main loop, else as a functor of it. -/
theorem projects_closing {frames : List Frame} (hx : s.conns[c]? = some x) (hl : x.loop = l)
    (halive : s.alive = true) (hframes : (s.loops l).frames = ⟨c, .closing⟩ :: frames) :
    Projects s (.resume l) (((s.setLoop l { s.loops l with frames := frames }).removeConnection
      l c x).push l c [.closed]) := by
  have hsubject : s.subject (.resume l) = some c := by simp [subject, hframes]
  have hview : (s.view c x).frames = .closing :: callsOf c frames := by
    simp [view, hl, hframes, callsOf_self]
  unfold TcpServer.removeConnection
  dsimp only
  split
  · rename_i hmain
    subst hmain
    refine projects_one (y := (x.note .close).note .removed) hx hsubject rfl rfl ?_ ?_
    · rw [view_push, view_removeConnectionInLoop, view_setFrames]
      have hclose : (x.note .close).loop = 0 := hl
      simpa [hl, hclose, view_conn_eq] using
        View.Step.closeRemoved 0 _ hview halive hl
    · intro d z hd _
      rw [view_push, view_removeConnectionInLoop, view_unframed_other d z hd hframes]
      simp [hd]
  · rename_i hmain
    refine projects_one (y := x.note .close) hx hsubject rfl rfl ?_ ?_
    · rw [view_push, view_queueRemoval, view_setConn, view_setFrames]
      simpa [hl, view_conn_eq] using
        View.Step.closeQueued l _ hview halive (by rw [view_conn_eq, hl]; exact hmain)
    · intro d z hd _
      rw [view_push, view_queueRemoval, view_setConn, view_unframed_other d z hd hframes]
      simp [hd]

theorem Sane.projects_resume (h : Sane s) (hs : s.resume l = some s') :
    Projects s (.resume l) s' := by
  unfold TcpServer.resume at hs
  split at hs
  · cases hs
  · rename_i c call frames hframes
    dsimp only at hs
    split at hs
    · cases hs
    · rename_i x hx
      have hl : x.loop = l := by
        refine loop_eq (h.threads.frames l ⟨c, call⟩ ?_) hx
        rw [hframes]
        exact List.mem_cons_self
      have hsubject : s.subject (.resume l) = some c := by simp [subject, hframes]
      have hview : (s.view c x).frames = call :: callsOf c frames := by
        simp [view, hl, hframes, callsOf_self]
      have hother : ∀ d z, d ≠ c →
          (s.setLoop l { s.loops l with frames := frames }).view d z = s.view d z :=
        fun d z hd => view_unframed_other d z hd hframes
      split at hs
      · cases hs
        refine projects_one (y := x) hx hsubject (set_self hx).symm rfl ?_
          fun d z hd _ => hother d z hd
        rw [view_setFrames]
        simpa [hl, view_conn_eq] using View.Step.callbackReturned l _ hview
      · cases hs
        refine projects_one (y := x.note .established) hx hsubject rfl rfl ?_
          fun d z hd _ => hother d z hd
        rw [view_setConn, view_setFrames]
        simpa [hl, view_conn_eq] using View.Step.establishedReturned l _ hview
      · rename_i revents todo
        split at hs
        · rename_i hdone
          cases hs
          rw [List.isEmpty_iff] at hdone
          subst hdone
          refine projects_one (y := x) hx hsubject (set_self hx).symm rfl ?_
            fun d z hd _ => hother d z hd
          rw [view_setFrames]
          simpa [hl, view_conn_eq] using View.Step.eventHandled l revents _ hview
        · cases hs
      · split at hs
        · rename_i halive
          cases hs
          exact projects_closing hx hl halive hframes
        · cases hs
      · cases hs
        refine projects_one (y := x.note .closeReturned) hx hsubject rfl rfl ?_
          fun d z hd _ => hother d z hd
        rw [view_setConn, view_setFrames]
        simpa [hl, view_conn_eq] using View.Step.closeReturned l _ hview
      · cases hs
        refine projects_one (y := x.downAtDestroy) hx hsubject ?_ rfl ?_ ?_
        · rw [conns_push, conns_update]
          rfl
        · rw [view_push, view_update, view_setFrames]
          simpa [hl, view_conn_eq] using View.Step.disconnected l _ hview
        · intro d z hd _
          rw [view_push, view_update, hother d z hd]
          simp [hd]
      · cases hs
        refine projects_one (y := x.destroyed) hx hsubject ?_ rfl ?_ ?_
        · rw [conns_remove]
          rfl
        · rw [view_remove, view_setFrames]
          simpa [hl, view_conn_eq] using View.Step.removed l _ hview
        · intro d z hd _
          rw [view_remove, hother d z hd]

omit [DecidableEq τ] in
theorem connectionDestroyed_view (s : TcpServer τ) (c : Nat) (hl : x.loop = l) :
    ∃ y, (s.connectionDestroyed l c x).conns = s.conns.set c y ∧ y.loop = x.loop ∧
      { (s.connectionDestroyed l c x).view c x with conn := y } = (s.view c x).destroy l ∧
      ∀ d z, d ≠ c → (s.connectionDestroyed l c x).view d z = s.view d z := by
  unfold TcpServer.connectionDestroyed View.destroy
  rw [view_conn_eq]
  by_cases hstate : x.tcp.state = .kConnected
  · have hnoted : (x.note (.destroying l)).tcp.state = .kConnected := hstate
    refine ⟨x.note (.destroying l), ?_, rfl, ?_, ?_⟩
    · simp [hnoted, TcpServer.setConn]
    · simp only [if_pos hstate, if_pos hnoted, view_push, view_setConn]
      simp [hl]
    · intro d z hd
      simp only [if_pos hnoted, view_push, view_setConn]
      simp [hd]
  · have hnoted : (x.note (.destroying l)).tcp.state ≠ .kConnected := hstate
    refine ⟨(x.note (.destroying l)).destroyed, ?_, rfl, ?_, ?_⟩
    · simp only [if_neg hnoted, conns_remove]
      rfl
    · simp only [if_neg hstate, if_neg hnoted, view_remove]
    · intro d z hd
      simp only [if_neg hnoted, view_remove]

omit [DecidableEq τ] in
theorem view_popped_other {job : Job} {rest : List Functor} (d : Nat) (z : Conn) (hd : d ≠ c)
    (hpc : (s.loops l).core.pc = .running (⟨c, job⟩ :: rest)) :
    (s.setLoop l { s.loops l with core := { (s.loops l).core with pc := .running rest } }).view
      d z = s.view d z := by
  rw [view_setRest d z hpc, removalsOf_other hd]
  by_cases hz : z.loop = l
  · simp [hz, view, Loop.rest, hpc, jobsOf_cons d ⟨c, job⟩ rest, jobsOf_other hd]
  · simp [hz]

/-- `RemoveconnectionInLoop`, queued on the main loop for a connection of any loop. -/
theorem projects_runRemoval {rest : List Functor} (p : Payload) (w : WriteResult)
    (hx : s.conns[c]? = some x) (halive : s.alive = true)
    (hpc : (s.loops 0).core.pc = .running (⟨c, .removeConnection⟩ :: rest)) :
    Projects s (.runFunctor 0 p w) ((s.setLoop 0 { s.loops 0 with
      core := { (s.loops 0).core with pc := .running rest } }).removeConnectionInLoop c x) := by
  have hsubject : s.subject (.runFunctor 0 p w) = some c := by
    simp [subject, Loop.rest, hpc]
  refine projects_one (y := x.note .removed) hx hsubject rfl rfl ?_ ?_
  · have hcount : (s.view c x).removals = removalsOf c rest +
        removalsOf c (s.loops 0).core.pendingFunctors + 1 := by
      simp only [view, EventLoop.queued, hpc, removalsOf_append]
      rw [removalsOf_cons, removalsOf_self]
      omega
    have hrest : (if x.loop = 0 then jobsOf c rest else (s.view c x).rest) =
        (s.view c x).rest := by
      by_cases hx0 : x.loop = 0
      · simp [hx0, view, Loop.rest, hpc, jobsOf_cons c ⟨c, .removeConnection⟩ rest,
          jobsOf_removal]
      · simp [hx0]
    have hstep := View.Step.runRemove (v := s.view c x) 0 p w _ halive hcount
    rw [view_removeConnectionInLoop, view_setRest c x hpc, removalsOf_self, hrest]
    simpa [hcount, view_conn_eq] using hstep
  · intro d z hd _
    rw [view_removeConnectionInLoop, view_popped_other d z hd hpc]
    simp [hd]

theorem Sane.projects_runFunctor {p : Payload} {w : WriteResult} (h : Sane s)
    (hs : s.runFunctor l p w = some s') : Projects s (.runFunctor l p w) s' := by
  unfold TcpServer.runFunctor at hs
  dsimp only at hs
  split at hs
  · rename_i c job rest hframes hpc
    split at hs
    · cases hs
    · rename_i x hx
      have hplaced : s.Placed l ⟨c, job⟩ := by
        apply h.threads.functors l
        simp [Loop.all, EventLoop.queued_running hpc]
      have hactive : (s.loops l).active = [] := h.threads.phase l (by simp [hpc])
      have hsubject : s.subject (.runFunctor l p w) = some c := by
        simp [subject, Loop.rest, hpc]
      have hother : ∀ d z, d ≠ c → (s.setLoop l { s.loops l with
          core := { (s.loops l).core with pc := .running rest } }).view d z = s.view d z :=
        fun d z hd => view_popped_other d z hd hpc
      -- for every job but a removal the connection lives on this loop
      by_cases hjob : job = .removeConnection
      · subst hjob
        have hmain : l = 0 := by
          rw [Placed, if_pos rfl] at hplaced
          exact hplaced.1
        subst hmain
        dsimp only at hs
        split at hs
        · rename_i halive
          cases hs
          exact projects_runRemoval p w hx halive hpc
        · cases hs
      · rw [Placed, if_neg hjob] at hplaced
        have hl : x.loop = l := loop_eq hplaced hx
        have hidle : (s.view c x).frames = [] := by simp [view, hl, hframes]
        have hquiet : (s.view c x).active = [] := by simp [view, hl, hactive]
        have hview : (s.view c x).rest = job :: jobsOf c rest := by
          simp [view, hl, Loop.rest, hpc, jobsOf_cons c ⟨c, job⟩ rest, jobsOf_self hjob]
        have htaken : (s.setLoop l { s.loops l with
            core := { (s.loops l).core with pc := .running rest } }).view c x =
            { s.view c x with rest := jobsOf c rest } := by
          rw [view_setRest c x hpc, removalsOf_job hjob]
          simp [hl]
        split at hs
        · cases hs
          refine projects_one (y := x.up) hx hsubject ?_ rfl ?_ ?_
          · rw [TcpServer.connectionEstablished, conns_push, conns_update]
            rfl
          · rw [TcpServer.connectionEstablished, view_push, view_update, htaken]
            simpa [hl, hidle, view_conn_eq] using
              View.Step.runEstablished l p w _ hidle hquiet hview
          · intro d z hd _
            rw [TcpServer.connectionEstablished, view_push, view_update, hother d z hd]
            simp [hd]
        · split at hs
          · obtain ⟨tcp, due, hsend, rfl⟩ := sendInLoop_some hs
            refine projects_one (y := x.wrote tcp) hx hsubject ?_ (wrote_loop x tcp) ?_ ?_
            · rw [conns_push, conns_store]
              rfl
            · rw [view_push, view_store, htaken]
              subst hl
              simpa [hidle, view_conn_eq] using
                View.Step.runSend p w _ _ tcp due hidle hquiet hview hsend
            · intro d z hd _
              rw [view_push, view_store, hother d z hd]
              simp [hd]
          · cases hs
        · split at hs
          · cases hs
            refine projects_one (y := x.setTcp x.tcp.shutdownInLoop) hx hsubject rfl rfl ?_
              fun d z hd _ => hother d z hd
            rw [view_setConn, htaken]
            exact View.Step.runShutdown l p w _ hidle hquiet hview
          · cases hs
        · cases hs
          refine projects_one (y := x) hx hsubject (set_self hx).symm rfl ?_ ?_
          · rw [view_push, htaken]
            simpa [hl, hidle, view_conn_eq] using
              View.Step.runWriteComplete l p w _ hidle hquiet hview
          · intro d z hd _
            rw [view_push, hother d z hd]
            simp [hd]
        · exact absurd rfl hjob
        · cases hs
          rcases connectionDestroyed_view (s.setLoop l { s.loops l with
              core := { (s.loops l).core with pc := .running rest } }) c hl with
            ⟨y, hconns, hloop, hself, hothers⟩
          refine projects_one (y := y) hx hsubject hconns hloop ?_ ?_
          · rw [hself, htaken]
            subst hl
            exact View.Step.runDestroyed p w _ hidle hquiet hview
          · intro d z hd _
            rw [hothers d z hd, hother d z hd]
  · cases hs

theorem projects_ownSend {p : Payload} {w : WriteResult}
    (hs : s.ownSend l c p w = some s') : Projects s (.ownSend l c p w) s' := by
  unfold TcpServer.ownSend at hs
  split at hs
  · cases hs
  · rename_i x hx
    split at hs
    · rename_i hcall
      have hl : x.loop = l := by
        simp only [canCall, Bool.and_eq_true, beq_iff_eq] at hcall
        exact hcall.1.2
      split at hs
      · rename_i hstate
        obtain ⟨tcp, due, hsend, rfl⟩ := sendInLoop_some hs
        refine projects_one (y := x.wrote tcp) hx rfl ?_ (wrote_loop x tcp) ?_ ?_
        · rw [conns_push, conns_store]
        · have hstep := View.Step.ownSent (v := s.view c x) l c p w tcp due hstate hsend
          rw [view_push, view_store]
          cases due <;> simpa [hl, view_conn_eq] using hstep
        · intro d z hd _
          rw [view_push, view_store]
          simp [hd]
      · cases hs
        exact projects_none rfl fun _ _ _ => rfl
    · cases hs

theorem projects_ownShutDown (hs : s.ownShutDown l c = some s') :
    Projects s (.ownShutDown l c) s' := by
  unfold TcpServer.ownShutDown at hs
  split at hs
  · cases hs
  · rename_i x hx
    split at hs
    · split at hs
      · rename_i hstate
        cases hs
        exact projects_one (y := x.setTcp x.tcp.shutDown) hx rfl rfl rfl
          (View.Step.ownShut (v := s.view c x) l c hstate) fun _ _ _ _ => rfl
      · cases hs
        exact projects_none rfl fun _ _ _ => rfl
    · cases hs

theorem Sane.projects_dtorNext (h : Sane s) (hs : s.dtorNext c = some s') :
    Projects s (.dtorNext c) s' := by
  unfold TcpServer.dtorNext at hs
  split at hs
  · cases hs
  · rename_i x hx
    split at hs
    · rename_i hready
      simp only [mainIdle, Bool.and_eq_true, Bool.not_eq_true', List.isEmpty_iff,
        beq_iff_eq] at hready
      have hother : ∀ d z, d ≠ c → { s with
          connectionMaps := s.connectionMaps.filter (· ≠ c) }.view d z = s.view d z := by
        intro d z hd
        rw [view_unmap]
        simp [hd]
      have hself : { s with connectionMaps := s.connectionMaps.filter (· ≠ c) }.view c x =
          { s.view c x with inMap := false } := by
        rw [view_unmap]
        simp
      dsimp only at hs
      split at hs
      · rename_i hmain
        cases hs
        rcases connectionDestroyed_view { s with
            connectionMaps := s.connectionMaps.filter (· ≠ c) } c hmain with
          ⟨y, hconns, hloop, hview, hothers⟩
        refine projects_one (y := y) hx rfl hconns hloop ?_ ?_
        · have hidle : (s.view c x).frames = [] := by simp [view, hmain, hready.1.2.1]
          have hquiet : (s.view c x).active = [] := by
            have hactive : (s.loops 0).active = [] := h.threads.phase 0 (by simp [hready.1.2.2])
            simp [view, hmain, hactive]
          rw [hview, hself]
          exact View.Step.dtorDestroyed c hready.1.1 hready.2 hmain hidle hquiet
        · intro d z hd _
          rw [hothers d z hd, hother d z hd]
      · rename_i hmain
        cases hs
        refine projects_one (y := x) hx rfl (set_self hx).symm rfl ?_ ?_
        · rw [view_queueJob _ _ _ _ (by simp), hself]
          simpa [view_conn_eq] using
            View.Step.dtorQueued (v := s.view c x) c hready.1.1 hready.2 hmain
        · intro d z hd _
          rw [view_queueJob _ _ _ _ (by simp), hother d z hd]
          simp [hd]
    · cases hs

theorem projects_destruct (hs : s.destruct c = some s') :
    Projects s (.destruct c) s' := by
  unfold TcpServer.destruct at hs
  split at hs
  · cases hs
  · rename_i x hx
    split at hs
    · cases hs
    · rename_i hfree
      cases hs
      simp only [held, owned, Bool.or_eq_true, not_or, Bool.not_eq_true] at hfree
      have husers : (s.view c x).users = [] := by
        have hnone := hfree.1.2
        simp only [List.any_eq_false, beq_iff_eq] at hnone
        simp only [view, usersOf, List.filterMap_eq_nil_iff]
        intro u hu
        simp [hnone u hu]
      refine projects_one (y := { x with destructed := true }) hx rfl rfl rfl ?_ ?_
      · exact View.Step.destructed (v := s.view c x) c hfree.1.1.1 husers
      · intro d z _ _
        exact view_same (fun _ => ⟨rfl, rfl, rfl, rfl⟩) rfl rfl rfl rfl d z

/-- Steps of `Loop()`: the queue is swapped, the vector is given up, or nothing a
connection sees happens. -/
theorem Sane.projects_loopStep {a : EventLoop.Label} (h : Sane s)
    (hs : s.loopStep l a = some s') : Projects s (.loop l a) s' := by
  unfold TcpServer.loopStep at hs
  dsimp only at hs
  split at hs
  · rename_i hready
    simp only [Bool.and_eq_true, List.isEmpty_iff] at hready
    obtain ⟨core, hcore, rfl⟩ := Option.map_eq_some_iff.1 hs
    have hrun : a ≠ .runFunctor := by
      rintro rfl
      cases hready.2
    have hqueued := EventLoop.queued_step hcore hrun
    refine projects_same rfl fun d z hz => ?_
    have hmine : decide (s.subject (.loop l a) = some d) = false := rfl
    rw [hmine, view_setThread hqueued]
    by_cases hl : z.loop = l
    · have hframes : (s.view d z).frames = [] := by simp [view, hl, hready.1]
      have hactive : (∀ wake, (s.loops l).core.pc ≠ .handling wake) → (s.view d z).active = [] := by
        intro hpc
        simp [view, hl, h.threads.phase l hpc]
      simp only [hl, if_true]
      cases EventLoop.step_move hcore with
      | swapFunctors hpc =>
          have hrest : (s.view d z).rest = [] := by simp [view, hl, Loop.rest, hpc]
          have hstep := View.Step.swapped (.loop l .swapFunctors) hframes (hactive (by simp [hpc]))
            hrest
          simpa [view, hl, Loop.functorsAfter, Loop.rest] using hstep
      | finishFunctors hpc =>
          have hrest : (s.view d z).rest = [] := by simp [view, hl, Loop.rest, hpc]
          have hstep := View.Step.finished (.loop l .finishFunctors) hframes hrest
          simpa [view, hl, Loop.functorsAfter, Loop.rest, hpc] using hstep
      | runFunctor f rest hpc => exact absurd rfl hrun
      | pollReturns wake hpc => cases hready.2
      | _ hpc =>
          have hsame : ∀ a, (s.view d z).Step false a (s.view d z) := View.Step.quiet false
          simpa [view, hl, Loop.functorsAfter, Loop.rest, hpc] using hsame _
    · simp only [hl, if_false]
      exact View.Step.quiet _ _
  · cases hs

omit [DecidableEq τ] in
theorem filterMap_maskOf {ready : List Ready} (h : (ready.map Ready.key).Nodup) (d : Nat) :
    ready.filterMap (maskOf d) = [] ∨
      ∃ revents, .channel d revents ∈ ready ∧ ready.filterMap (maskOf d) = [revents] := by
  induction ready with
  | nil => exact Or.inl rfl
  | cons r ready ih =>
      rw [List.map_cons, List.nodup_cons] at h
      have htail := ih h.2
      by_cases hr : ∃ revents, r = .channel d revents
      · obtain ⟨revents, rfl⟩ := hr
        right
        refine ⟨revents, List.mem_cons_self, ?_⟩
        have hnone : ready.filterMap (maskOf d) = [] := by
          rcases htail with hnil | ⟨revents', hmem, _⟩
          · exact hnil
          · exact absurd (List.mem_map_of_mem hmem) h.1
        simp [maskOf, hnone]
      · have hskip : maskOf d r = none := by
          cases r with
          | acceptor => rfl
          | channel e revents =>
              by_cases he : e = d
              · exact absurd ⟨revents, by rw [he]⟩ hr
              · simp [maskOf, he]
        rw [List.filterMap_cons_none hskip]
        rcases htail with hnil | ⟨revents, hmem, hone⟩
        · exact Or.inl hnil
        · exact Or.inr ⟨revents, List.mem_cons_of_mem _ hmem, hone⟩

theorem Sane.projects_poll {wake : Bool} {ready : List Ready} (h : Sane s)
    (hs : s.poll l wake ready = some s') : Projects s (.poll l wake ready) s' := by
  unfold TcpServer.poll at hs
  dsimp only at hs
  split at hs
  · rename_i hready
    simp only [Bool.and_eq_true, List.all_eq_true, List.isEmpty_iff, decide_eq_true_eq] at hready
    obtain ⟨core, hcore, rfl⟩ := Option.map_eq_some_iff.1 hs
    have hqueued := EventLoop.queued_step hcore (by simp)
    refine projects_same rfl fun d z hz => ?_
    have hmine : decide (s.subject (.poll l wake ready) = some d) = false := rfl
    rw [hmine, view_setThread hqueued]
    by_cases hl : z.loop = l
    · have hframes : (s.view d z).frames = [] := by simp [view, hl, hready.1.1]
      simp only [hl, if_true]
      cases EventLoop.step_move hcore with
      | pollReturns _ hpc _ =>
          have hactive : (s.view d z).active = [] := by
            simp [view, hl, h.threads.phase l (by simp [hpc])]
          rcases filterMap_maskOf hready.2 d with hnone | ⟨revents, hmem, hone⟩
          · have hsame := View.Step.quiet (v := s.view d z) false (.poll l wake ready)
            simpa [view, hl, Loop.rest, hpc, hnone, h.threads.phase l (by simp [hpc])] using hsame
          · have hindex : z.tcp.channel.index = EpollPoller.kAdded := by
              have hwatched : s.watched l d = true := hready.1.2 _ hmem
              obtain ⟨y, hy, _, hindex⟩ := h.watched hwatched
              rw [hz, Option.some.injEq] at hy
              rw [hy]
              exact hindex
            have hstep := View.Step.polled (.poll l wake ready) revents hframes hactive hindex
            simpa [view, hl, Loop.rest, hpc, hone] using hstep
    · simp only [hl, if_false]
      exact View.Step.quiet _ _
  · cases hs

/-! ## Other threads -/

omit [DecidableEq τ] in
theorem on_other {caller : Caller} (h : caller.conn ≠ some d) : caller.on d = .outside := by
  simp [Caller.on, h]

theorem setCaller_on (callers : τ → Caller) (t : τ) (caller : Caller) (d : Nat) :
    (fun u => (Function.update callers t caller u).on d) =
      Function.update (fun u => (callers u).on d) t (caller.on d) := by
  funext u
  by_cases hu : u = t
  · subst hu
    simp
  · simp [hu]

theorem view_setCaller (s : TcpServer τ) (t : τ) (caller : Caller) (d : Nat) (z : Conn) :
    (s.setCaller t caller).view d z = { s.view d z with
      callers := Function.update (s.view d z).callers t (caller.on d) } := by
  simp only [view, TcpServer.setCaller, setCaller_on]

theorem view_setCaller_other {t : τ} {caller : Caller} (h : (s.callers t).on d = .outside)
    (h' : caller.on d = .outside) (z : Conn) : (s.setCaller t caller).view d z = s.view d z := by
  have hsame : Function.update (s.view d z).callers t (caller.on d) = (s.view d z).callers := by
    rw [h']
    exact Function.update_eq_self_iff.2 h.symm
  rw [view_setCaller, hsame]

omit [DecidableEq τ] in
theorem mem_usersOf {t : τ} : t ∈ usersOf c s.users ↔ (t, c) ∈ s.users := by
  simp [usersOf]

theorem usersOf_erase (t : τ) (c d : Nat) (us : List (τ × Nat)) :
    usersOf d (us.erase (t, c)) = if d = c then (usersOf d us).erase t else usersOf d us := by
  induction us with
  | nil => simp [usersOf]
  | cons u us ih =>
      obtain ⟨v, e⟩ := u
      rw [List.erase_cons]
      by_cases hu : v = t ∧ e = c
      · obtain ⟨rfl, rfl⟩ := hu
        by_cases hd : d = e
        · subst hd
          simp [usersOf]
        · simp [usersOf, hd, Ne.symm hd]
      · have hne : ((v, e) == (t, c)) = false := by simpa using hu
        simp only [hne, Bool.false_eq_true, if_false]
        unfold usersOf at ih ⊢
        by_cases he : e = d
        · subst he
          simp only [List.filterMap_cons, if_true, ih]
          by_cases hc : e = c
          · have hv : (v == t) = false := by
              rw [beq_eq_false_iff_ne]
              exact fun hvt => hu ⟨hvt, hc⟩
            simp [hc, hv]
          · simp [hc]
        · simp only [List.filterMap_cons, he, if_false, ih]

theorem projects_check {a : Action τ} {t : τ} {caller : Caller} (hsubject : s.subject a = some c)
    (hcaller : caller.conn = some c)
    (hstep : ∀ v : View τ, v.callers t = .outside → t ∈ v.users → v.conn.tcp.state = .kConnected →
      v.Step true a { v with callers := Function.update v.callers t caller })
    (hs : s.check t c caller = some s') : Projects s a s' := by
  unfold TcpServer.check at hs
  split at hs
  · cases hs
  · rename_i x hx
    split at hs
    · rename_i hready
      split at hs
      · rename_i hstate
        cases hs
        refine projects_one (y := x) hx hsubject (set_self hx).symm rfl ?_ ?_
        · have hon : caller.on c = caller := if_pos hcaller
          have hout : (s.view c x).callers t = .outside := by simp [view, hready.1, Caller.on]
          rw [view_setCaller, hon]
          exact hstep (s.view c x) hout (mem_usersOf.2 hready.2) hstate
        · intro d z hd _
          apply view_setCaller_other
          · simp [hready.1, Caller.on]
          · exact on_other (by rw [hcaller]; simpa using Ne.symm hd)
      · cases hs
        exact projects_none rfl fun _ _ _ => rfl
    · cases hs

theorem projects_queueCall {a : Action τ} {t : τ} {job : Job} (hsubject : s.subject a = some c)
    (hx : s.conns[c]? = some x) (hcaller : (s.callers t).conn = some c)
    (hjob : job ≠ .removeConnection)
    (hstep : ∀ v : View τ, v.callers t = s.callers t →
      v.Step true a { v with
        pending := v.pending ++ [job]
        callers := Function.update v.callers t .outside })
    (hs : s' = (s.queueInLoop false x.loop ⟨c, job⟩).setCaller t .outside) : Projects s a s' := by
  subst hs
  refine projects_one (y := x) hx hsubject (set_self hx).symm rfl ?_ ?_
  · have hon : (s.view c x).callers t = s.callers t := if_pos hcaller
    rw [view_setCaller, view_queueJob _ _ _ _ hjob]
    simpa [view_conn_eq, Caller.on, Caller.conn] using hstep (s.view c x) hon
  · intro d z hd _
    rw [view_setCaller_other, view_queueJob _ _ _ _ hjob]
    · simp [hd]
    · have hother : (s.callers t).conn ≠ some d := by
        rw [hcaller]
        simpa using Ne.symm hd
      exact on_other hother
    · simp [Caller.on, Caller.conn]

theorem projects_shutSet {t : τ} (hs : s.step (.shutSet t) = some s') :
    Projects s (.shutSet t) s' := by
  simp only [TcpServer.step] at hs
  split at hs
  · rename_i c hcaller
    obtain ⟨x, hx, rfl⟩ := Option.map_eq_some_iff.1 hs
    refine projects_one (y := x.setTcp (x.tcp.setState .kDisconnecting)) hx
      (by simp [subject, hcaller, Caller.conn]) rfl rfl ?_ ?_
    · have hon : (s.view c x).callers t = .shutSet c := by
        simp [view, hcaller, Caller.on, Caller.conn]
      rw [view_setCaller, view_setConn]
      simpa [view_conn_eq, Caller.on, Caller.conn] using View.Step.shutStored t c hon
    · intro d z hd _
      rw [view_setCaller_other, view_setConn]
      · have hother : (s.callers t).conn ≠ some d := by
          simpa [hcaller, Caller.conn] using Ne.symm hd
        exact on_other hother
      · exact on_other (by simpa [Caller.conn] using Ne.symm hd)
  · cases hs

omit [DecidableEq τ] in
theorem get_of_lt (h : c < s.conns.length) : ∃ x, s.conns[c]? = some x :=
  ⟨_, List.getElem?_eq_getElem h⟩

theorem Sane.projects_obtain {t : τ} (h : Sane s) (hs : s.step (.obtain t c) = some s') :
    Projects s (.obtain t c) s' := by
  have hsane := h.step hs
  simp only [TcpServer.step] at hs
  split at hs <;> cases hs
  rename_i hobtain
  obtain ⟨x, hx⟩ := get_of_lt (s := s) (hsane.users (t, c) List.mem_cons_self)
  refine projects_one (y := x) hx rfl (set_self hx).symm rfl ?_ ?_
  · have hsource : .callback ∈ (s.view c x).frames ∨ (s.view c x).users ≠ [] := by
      simp only [canObtain, Bool.or_eq_true, List.any_eq_true, beq_iff_eq] at hobtain
      rcases hobtain with ⟨l, _, f, hf, rfl⟩ | ⟨u, hu, rfl⟩
      · left
        have hl : x.loop = l := loop_eq (h.threads.frames l _ hf) hx
        simp only [view, callsOf, hl, List.mem_filterMap]
        exact ⟨_, hf, by simp⟩
      · right
        exact List.ne_nil_of_mem (mem_usersOf.2 hu)
    simpa [view, usersOf] using View.Step.obtained t c hsource
  · intro d z hd _
    simp [view, usersOf, Ne.symm hd]

theorem Sane.projects_drop {t : τ} (h : Sane s) (hs : s.step (.drop t c) = some s') :
    Projects s (.drop t c) s' := by
  simp only [TcpServer.step] at hs
  split at hs <;> cases hs
  rename_i hready
  obtain ⟨x, hx⟩ := get_of_lt (s := s) (h.users (t, c) hready.1)
  refine projects_one (y := x) hx rfl (set_self hx).symm rfl ?_ ?_
  · have hout : (s.view c x).callers t = .outside := on_other hready.2
    simpa [view, usersOf_erase] using View.Step.dropped t c hout
  · intro d z hd _
    simp [view, usersOf_erase, hd]

/-! ## A new connection -/

omit [DecidableEq τ] in
theorem Sane.view_fresh (h : Sane s) (hc : s.conns[c]? = none) (x : Conn) :
    s.view c x = ⟨x, [], [], [], 0, [], [], false, [], fun _ => .outside, s.alive⟩ := by
  have hlen : s.conns.length ≤ c := List.getElem?_eq_none_iff.1 hc
  have hfunctor : ∀ l, ∀ f ∈ (s.loops l).all, f.conn ≠ c := by
    rintro l f hf rfl
    have hplaced := h.threads.functors l f hf
    unfold Placed at hplaced
    split at hplaced
    · omega
    · obtain ⟨y, hy, _⟩ := hplaced
      rw [hc] at hy
      cases hy
  have hlives : ∀ l, ¬ s.Lives l c := by
    rintro l ⟨y, hy, _⟩
    rw [hc] at hy
    cases hy
  have hjobs : ∀ l fs, (∀ f ∈ fs, f ∈ (s.loops l).all) → jobsOf c fs = [] := by
    intro l fs hfs
    simp only [jobsOf, List.filterMap_eq_nil_iff]
    intro f hf
    simp [hfunctor l f (hfs f hf)]
  have hpending : jobsOf c (s.loops x.loop).core.pendingFunctors = [] := by
    refine hjobs x.loop _ fun f hf => ?_
    simp [Loop.all, EventLoop.queued, hf]
  have hrest : jobsOf c (s.loops x.loop).rest = [] := by
    refine hjobs x.loop _ fun f hf => ?_
    unfold Loop.rest at hf
    unfold Loop.all EventLoop.queued
    split at hf
    · rename_i hpc
      simp [hf, hpc]
    · cases hf
  have hbatch : jobsOf c (s.loops x.loop).functors = [] := by
    refine hjobs x.loop _ fun f hf => ?_
    simp [Loop.all, hf]
  have hremovals : removalsOf c (s.loops 0).core.queued = 0 := by
    rw [removalsOf, List.count_eq_zero]
    intro hmem
    exact hfunctor 0 _ (List.mem_append_right _ hmem) rfl
  have hframes : callsOf c (s.loops x.loop).frames = [] := by
    simp only [callsOf, List.filterMap_eq_nil_iff]
    intro f hf
    have hne : f.conn ≠ c := fun he => hlives _ (he ▸ h.threads.frames _ f hf)
    simp [hne]
  have hactive : (s.loops x.loop).active.filterMap (maskOf c) = [] := by
    rw [List.filterMap_eq_nil_iff]
    intro r hr
    cases r with
    | acceptor => rfl
    | channel d revents =>
        have hne : d ≠ c := fun he => hlives _ (he ▸ h.threads.active _ d revents hr)
        simp [maskOf, hne]
  have hmap : s.connectionMaps.contains c = false := by
    rw [← Bool.not_eq_true, List.contains_iff_mem]
    intro hmem
    exact absurd (h.known c hmem) (by omega)
  have husers : usersOf c s.users = [] := by
    simp only [usersOf, List.filterMap_eq_nil_iff]
    intro u hu
    have hne : u.2 ≠ c := by
      have hlt := h.users u hu
      omega
    simp [hne]
  have hcallers : ∀ t, (s.callers t).on c = .outside := by
    intro t
    refine on_other fun hon => ?_
    exact absurd (h.callers t c hon) (by omega)
  simp only [view, hpending, hrest, hbatch, hremovals, hframes, hactive, hmap, husers, hcallers]

omit [DecidableEq τ] in
theorem view_accepted (s : TcpServer τ) (next : Nat) (x : Conn) (d : Nat) (z : Conn) :
    { s with
      next := next
      conns := s.conns ++ [x]
      connectionMaps := s.connectionMaps ++ [s.conns.length] }.view d z = { s.view d z with
        inMap := (s.view d z).inMap || decide (d = s.conns.length) } := by
  simp [view]

/-- One connection is new, and the others do not notice. -/
theorem projects_accepted {a : Action τ} (hconns : s'.conns = s.conns ++ [y])
    (hother : ∀ d z, d ≠ s.conns.length → s'.view d z = s.view d z)
    (hstart : (s'.view s.conns.length y).Start) : Projects s a s' := by
  constructor
  · intro d z hz
    have hd : d < s.conns.length := (List.getElem?_eq_some_iff.1 hz).1
    refine ⟨z, by rw [hconns, List.getElem?_append_left hd, hz], rfl, ?_⟩
    rw [hother d z hd.ne]
    exact .quiet _ _
  · intro d z hnone hz
    have hd : s.conns.length = d := by
      have hle := List.getElem?_eq_none_iff.1 hnone
      have hlt := (List.getElem?_eq_some_iff.1 hz).1
      rw [hconns, List.length_append, List.length_singleton] at hlt
      omega
    subst hd
    have hy : z = y := by simpa [hconns] using hz.symm
    rw [hy]
    exact hstart

omit [DecidableEq τ] in
/-- `NewConnection`: the connection is in the map and its first job is queued or
running. -/
theorem Sane.newConnection_view {fd : Int} {due : Bool} {tcp : TcpConnection}
    (h : Sane s) (hnew : TcpConnection.new fd due = some tcp) (halive : s.alive = true) :
    ∃ y, (s.newConnection tcp).conns = s.conns ++ [y] ∧
      (∀ d z, d ≠ s.conns.length → (s.newConnection tcp).view d z = s.view d z) ∧
      ((s.newConnection tcp).view s.conns.length y).Start := by
  have hfresh : s.conns[s.conns.length]? = none := by simp
  by_cases hio : s.getNextLoop = 0
  · have hview : ∀ d z, (s.newConnection tcp).view d z = { s.view d z with
        inMap := (s.view d z).inMap || decide (d = s.conns.length)
        frames := (if d = s.conns.length ∧ z.loop = 0 then [.callback, .establishing] else []) ++
          (s.view d z).frames } := by
      intro d z
      simp only [TcpServer.newConnection, hio, if_true, TcpServer.connectionEstablished, view_push,
        view_update, view_accepted]
    refine ⟨Conn.up ⟨tcp, 0, false, []⟩, ?_, ?_, ?_⟩
    · simp only [TcpServer.newConnection, hio, if_true, TcpServer.connectionEstablished, conns_push,
        conns_update]
      simp [Conn.up]
    · intro d z hd
      rw [hview]
      simp [hd]
    · have hloop : (Conn.up ⟨tcp, 0, false, []⟩).loop = 0 := rfl
      rw [hview, h.view_fresh hfresh]
      exact View.Start.established _ fd due tcp hnew rfl rfl rfl rfl rfl (by simp [hloop]) rfl
        (by simp) rfl (fun _ => rfl) halive
  · have hview : ∀ d z, (s.newConnection tcp).view d z = { s.view d z with
        inMap := (s.view d z).inMap || decide (d = s.conns.length)
        pending := (s.view d z).pending ++
          if d = s.conns.length ∧ z.loop = s.getNextLoop then [.connectionEstablished]
          else [] } := by
      intro d z
      simp only [TcpServer.newConnection, hio, if_false]
      rw [view_queueJob _ _ _ _ (by simp), view_accepted]
    refine ⟨⟨tcp, s.getNextLoop, false, []⟩, ?_, ?_, ?_⟩
    · simp [TcpServer.newConnection, hio]
    · intro d z hd
      rw [hview]
      simp [hd]
    · rw [hview, h.view_fresh hfresh]
      exact View.Start.queued _ fd due tcp _ hnew hio rfl (by simp) rfl rfl rfl rfl rfl (by simp)
        rfl (fun _ => rfl) halive

theorem Sane.projects_acceptor {a : Action τ} (fd : Option Int) (h : Sane s)
    (hs : s.acceptorHandleRead fd = some s') : Projects s a s' := by
  unfold TcpServer.acceptorHandleRead at hs
  dsimp only at hs
  split at hs
  · rename_i active hactive
    have hview : ∀ d z, (s.setLoop 0 { s.loops 0 with active := active }).view d z =
        s.view d z := by
      intro d z
      rw [view_setActive]
      by_cases hz : z.loop = 0
      · have hmask : (Ready.acceptor :: active).filterMap (maskOf d) =
            active.filterMap (maskOf d) := List.filterMap_cons_none rfl
        simp [hz, view, hactive, hmask]
      · simp [hz]
    split at hs
    · split at hs
      · cases hs
        refine projects_none rfl fun d z _ => ?_
        rw [view_same (abort_threads _ 0) rfl rfl rfl rfl d z]
        exact hview d z
      · split at hs
        · rename_i hready
          rw [Bool.and_eq_true] at hready
          obtain ⟨tcp, hnew, rfl⟩ := Option.map_eq_some_iff.1 hs
          have hsane : Sane (s.setLoop 0 { s.loops 0 with active := active }) :=
            h.setActive (by rw [hactive]; intro r hr; exact List.mem_cons_of_mem _ hr)
          obtain ⟨y, hconns, hother, hstart⟩ := hsane.newConnection_view hnew hready.1
          refine projects_accepted hconns ?_ hstart
          intro d z hd
          rw [hother d z hd, hview]
        · cases hs
    · cases hs
  · cases hs

/-! ## Runs -/

/-- Every step of the server is a step of each of its connections. -/
theorem Sane.projects_step {a : Action τ} (h : Sane s) (hs : s.step a = some s') :
    Projects s a s' := by
  cases a with
  | loop l a => exact h.projects_loopStep hs
  | poll l wake ready => exact h.projects_poll hs
  | acceptFails => exact h.projects_acceptor none hs
  | accept fd => exact h.projects_acceptor (some fd) hs
  | dispatch l => exact h.projects_dispatch hs
  | handle l r w => exact h.projects_handle hs
  | resume l => exact h.projects_resume hs
  | runFunctor l p w => exact h.projects_runFunctor hs
  | ownSend l c p w => exact projects_ownSend hs
  | ownShutDown l c => exact projects_ownShutDown hs
  | quit l =>
      cases hs
      refine projects_none rfl fun d z _ => ?_
      rw [view_setThread (k := (s.loops l).core.setQuit) rfl (s.loops l).functors
        (s.loops l).active]
      by_cases hz : z.loop = l
      · simp only [hz, if_true, view]
        rfl
      · simp only [hz, if_false]
  | obtain t c => exact h.projects_obtain hs
  | drop t c => exact h.projects_drop hs
  | sendCheck t c len =>
      exact projects_check rfl rfl (fun _ => View.Step.sendChecked t c len) hs
  | shutCheck t c => exact projects_check rfl rfl (fun _ => View.Step.shutChecked t c) hs
  | sendQueue t =>
      simp only [TcpServer.step] at hs
      split at hs
      · rename_i c len hcaller
        obtain ⟨x, hx, rfl⟩ := Option.map_eq_some_iff.1 hs
        refine projects_queueCall (by simp [subject, hcaller, Caller.conn]) hx
          (by rw [hcaller]; rfl) (by simp) ?_ rfl
        intro v hv
        exact View.Step.sendQueued t c len (hv.trans hcaller)
      · cases hs
  | shutSet t => exact projects_shutSet hs
  | shutQueue t =>
      simp only [TcpServer.step] at hs
      split at hs
      · rename_i c hcaller
        obtain ⟨x, hx, rfl⟩ := Option.map_eq_some_iff.1 hs
        refine projects_queueCall (by simp [subject, hcaller, Caller.conn]) hx
          (by rw [hcaller]; rfl) (by simp) ?_ rfl
        intro v hv
        exact View.Step.shutQueued t c (hv.trans hcaller)
      · cases hs
  | dtorBegin =>
      simp only [TcpServer.step] at hs
      split at hs <;> cases hs
      refine projects_same rfl fun d z _ => ?_
      exact View.Step.dtorBegun
  | dtorNext c => exact h.projects_dtorNext hs
  | destruct c => exact projects_destruct hs

/-- A condition on the steps about a connection, on what the connection sees. -/
def Guarded (P : View τ → Action τ → Prop) (s : TcpServer τ) (a : Action τ) : Prop :=
  ∀ c ∈ s.subject a, ∀ x ∈ s.conns[c]?, P (s.view c x) a

instance (P : View τ → Action τ → Prop) [∀ v a, Decidable (P v a)] (s : TcpServer τ)
    (a : Action τ) : Decidable (Guarded P s a) :=
  inferInstanceAs (Decidable (∀ c ∈ s.subject a, ∀ x ∈ s.conns[c]?, P (s.view c x) a))

omit [DecidableEq τ] in
theorem Guarded.mine {P : View τ → Action τ → Prop} {a : Action τ} (h : Guarded P s a)
    (hx : s.conns[c]? = some x) (hmine : decide (s.subject a = some c) = true) :
    P (s.view c x) a :=
  h c (of_decide_eq_true hmine) x hx

/-- The invariant rule of a connection: true when it is accepted and kept by every
step, with what the guard of the run says about that step. -/
theorem view_invariant_of {guard : TcpServer τ → Action τ → Prop}
    {Q : View τ → Bool → Action τ → Prop} {I : View τ → Prop}
    (hguard : ∀ s a (c : Nat) x, guard s a → s.conns[c]? = some x →
      Q (s.view c x) (decide (s.subject a = some c)) a)
    (hstart : ∀ v, View.Start v → I v)
    (hstep : ∀ v mine a v', I v → Q v mine a → View.Step v mine a v' → I v')
    (h : (machine τ).Reach guard s) (hx : s.conns[c]? = some x) : I (s.view c x) := by
  induction h generalizing c x with
  | start hs =>
      rw [hs.conns] at hx
      cases hx
  | @step s s' a hreach hallowed hs ih =>
      have hproject := (sane_of_reach hreach).projects_step (step_of_machine hs)
      cases hold : s.conns[c]? with
      | none => exact hstart _ (hproject.new c x hold hx)
      | some z =>
          obtain ⟨z', hz', _, hstep'⟩ := hproject.old c z hold
          rw [hx, Option.some.injEq] at hz'
          subst hz'
          exact hstep _ _ _ _ (ih hold) (hguard s a c z hallowed hold) hstep'

/-- The same, when the guard is a condition on the connection's own steps. -/
theorem view_invariant {P : View τ → Action τ → Prop} {I : View τ → Prop}
    (hstart : ∀ v, View.Start v → I v)
    (hstep : ∀ v mine a v', I v → (mine = true → P v a) → View.Step v mine a v' → I v')
    (h : (machine τ).Reach (Guarded P) s) (hx : s.conns[c]? = some x) : I (s.view c x) :=
  view_invariant_of (Q := fun v mine a => mine = true → P v a) (fun _ _ _ _ => Guarded.mine)
    hstart hstep h hx

end MyNetLib.TcpServer
