import MyNetLib.Server.State

/-! # What every connection is sent

The payloads a `SendInLoop` takes in are recorded with their connection. On
whatever threads the sends were made and whatever happens to the other
connections, a connection's stream is what was recorded for it.
-/

namespace MyNetLib

open Library Library.ByteVector

namespace TcpConnection

/-- From `c` to `c'` the stream grows by `data`, and the kernel keeps what it has. -/
structure Grows (c c' : TcpConnection) (data : List Byte) : Prop where
  wellFormed : c'.outputBuffer.WellFormed
  stream : c'.stream = c.stream ++ data
  accepted : c.socket.accepted <+: c'.socket.accepted

variable {c c' : TcpConnection} {data : List Byte}

theorem Extends.grows (h : Extends c c' data) : Grows c c' data :=
  ⟨h.wellFormed, h.stream, h.accepted⟩

theorem grows_same (hw : c.outputBuffer.WellFormed) (hbuffer : c'.outputBuffer = c.outputBuffer)
    (hsocket : c'.socket = c.socket) : Grows c c' [] := by
  refine ⟨hbuffer ▸ hw, ?_, by rw [hsocket]⟩
  rw [TcpConnection.stream, TcpConnection.stream, hbuffer, hsocket, List.append_nil]

end TcpConnection

namespace TcpServer

variable {τ : Type}

/-! ## One step of a connection -/

namespace Conn

theorem wrote_grows {x : Conn} {tcp c : TcpConnection} {data : List Byte}
    (h : TcpConnection.Grows c tcp data) : TcpConnection.Grows c (x.wrote tcp).tcp data := by
  unfold wrote
  split
  · exact h
  · exact ⟨h.wellFormed, h.stream, h.accepted⟩

end Conn

namespace View

variable [DecidableEq τ] {v v' : View τ} {mine : Bool} {a : Action τ}

omit [DecidableEq τ] in
theorem destroy_grows (v : View τ) (l : Nat) (hw : v.conn.tcp.outputBuffer.WellFormed) :
    TcpConnection.Grows v.conn.tcp (v.destroy l).conn.tcp [] := by
  unfold destroy
  split <;> exact TcpConnection.grows_same hw rfl rfl

/-- Nothing but `SendInLoop` adds to the stream. -/
theorem Step.grows (hs : Step v mine a v') (hw : v.conn.tcp.outputBuffer.WellFormed) :
    TcpConnection.Grows v.conn.tcp v'.conn.tcp [] ∨
      (∃ l c p w, a = .ownSend l c p w) ∨
      (mine = true ∧ v'.conn.log = v.conn.log ∧
        ∃ p w len rest, a = .runFunctor v.conn.loop p w ∧ v.rest = .sendInLoop len :: rest) := by
  cases hs with
  | readMessage _ _ _ _ _ _ _ _ hread =>
      obtain ⟨hbuffer, hsocket⟩ := TcpConnection.handleRead_output hread
      exact Or.inl (TcpConnection.grows_same hw hbuffer hsocket)
  | readClose _ _ _ _ _ _ _ _ hread =>
      obtain ⟨hbuffer, hsocket⟩ := TcpConnection.handleRead_output hread
      exact Or.inl (TcpConnection.grows_same hw hbuffer hsocket)
  | readError _ _ _ _ _ _ _ _ hread =>
      obtain ⟨hbuffer, hsocket⟩ := TcpConnection.handleRead_output hread
      exact Or.inl (TcpConnection.grows_same hw hbuffer hsocket)
  | handledWrite _ _ _ _ _ _ _ _ _ hwrite =>
      exact Or.inl (Conn.wrote_grows (TcpConnection.handleWrite_extends hw hwrite).grows)
  | runSend p w len rest _ _ _ _ hrest _ =>
      exact Or.inr (Or.inr ⟨rfl, by simp, p, w, len, rest, rfl, hrest⟩)
  | ownSent l c p w => exact Or.inr (Or.inl ⟨l, c, p, w, rfl⟩)
  | runShutdown => exact Or.inl (TcpConnection.shutdownInLoop_extends hw).grows
  | ownShut =>
      have hset : (v.conn.tcp.setState .kDisconnecting).outputBuffer.WellFormed := hw
      have hshut := (TcpConnection.shutdownInLoop_extends hset).grows
      exact Or.inl ⟨hshut.wellFormed, hshut.stream, hshut.accepted⟩
  | runDestroyed _ _ rest =>
      exact Or.inl (destroy_grows { v with rest := rest } _ hw)
  | dtorDestroyed =>
      exact Or.inl (destroy_grows { v with inMap := false } _ hw)
  | _ => exact Or.inl (TcpConnection.grows_same hw rfl rfl)

omit [DecidableEq τ] in
theorem Start.sent_nothing {v : View τ} (h : Start v) :
    v.conn.tcp.outputBuffer.WellFormed ∧ v.conn.tcp.stream = [] := by
  have hnew : ∀ {fd : Int} {due : Bool} {tcp : TcpConnection},
      TcpConnection.new fd due = some tcp →
      tcp.outputBuffer.WellFormed ∧ tcp.stream = [] := by
    intro fd due tcp hnew
    obtain ⟨b, hb, rfl⟩ := Option.map_eq_some_iff.1 hnew
    have hroom : Buffer.kCheapPrepend + Buffer.kInitialSize < SizeT.modulus := by decide
    obtain ⟨hw, hr, _⟩ := Buffer.new_spec hroom hb
    exact ⟨hw, by simp [TcpConnection.stream, hr]⟩
  cases h with
  | queued fd due tcp io htcp _ hconn =>
      rw [hconn]
      exact hnew htcp
  | established fd due tcp htcp hconn =>
      have hsent := hnew htcp
      rw [hconn]
      exact hsent

end View

/-! ## One step of the server -/

/-- The payload that the `SendInLoop` of a step takes in, with its connection. -/
def sends (s : TcpServer τ) : Action τ → Option (Nat × List Byte)
  | .ownSend _ c p w =>
      (s.conns[c]?).bind fun x =>
        if x.tcp.state = .kConnected ∧ x.tcp.takesIn w then some (c, p.data) else none
  | .runFunctor l p w =>
      match (s.loops l).rest with
      | ⟨c, .sendInLoop _⟩ :: _ =>
          (s.conns[c]?).bind fun x => if x.tcp.takesIn w then some (c, p.data) else none
      | _ => none
  | _ => none

def sentTo (c : Nat) (record : List (Nat × List Byte)) : List Byte :=
  ((record.filter fun r => r.1 == c).map fun r => r.2).flatten

@[simp] theorem sentTo_nil (c : Nat) : sentTo c [] = [] := rfl

theorem sentTo_append (c : Nat) (record more : List (Nat × List Byte)) :
    sentTo c (record ++ more) = sentTo c record ++ sentTo c more := by
  simp [sentTo]

variable [DecidableEq τ] {s s' : TcpServer τ} {l c d : Nat} {x y : Conn}

omit [DecidableEq τ] in
/-- `SendInLoop` on the connection `d`, as the connection `c` sees it. -/
theorem sent_grows {p : Payload} {w : WriteResult} {tcp : TcpConnection} {due : Bool}
    (hy : s.conns[d]? = some y) (hsend : y.tcp.sendInLoop p w = some (tcp, due))
    (hconns : s'.conns = s.conns.set d (y.wrote tcp)) (hx : s.conns[c]? = some x)
    (hw : x.tcp.outputBuffer.WellFormed) : ∃ x', s'.conns[c]? = some x' ∧
      TcpConnection.Grows x.tcp x'.tcp
        (sentTo c (if y.tcp.takesIn w then some (d, p.data) else none).toList) := by
  by_cases hd : d = c
  · subst hd
    rw [hx, Option.some.injEq] at hy
    subst hy
    refine ⟨x.wrote tcp, by rw [hconns, conns_set hx, if_pos rfl], Conn.wrote_grows ?_⟩
    rcases TcpConnection.sendInLoop_takesIn hw hsend with ⟨hlost, rfl⟩ | ⟨hkept, hext⟩
    · rw [hlost]
      exact TcpConnection.grows_same hw rfl rfl
    · rw [hkept]
      simpa [sentTo] using hext.grows
  · refine ⟨x, by rw [hconns, conns_set hy, if_neg (Ne.symm hd), hx], ?_⟩
    have hnone : sentTo c (if y.tcp.takesIn w then some (d, p.data) else none).toList = [] := by
      split <;> simp [sentTo, hd]
    rw [hnone]
    exact TcpConnection.grows_same hw rfl rfl

omit [DecidableEq τ] in
theorem runSend_conns {p : Payload} {w : WriteResult} {len : Nat} {rest : List Functor}
    (hrest : (s.loops l).rest = ⟨d, .sendInLoop len⟩ :: rest) (hs : s.runFunctor l p w = some s') :
    ∃ y tcp due, s.conns[d]? = some y ∧ y.tcp.sendInLoop p w = some (tcp, due) ∧
      s'.conns = s.conns.set d (y.wrote tcp) := by
  unfold TcpServer.runFunctor at hs
  dsimp only at hs
  split at hs
  · rename_i c job jobs _ hpc
    have hhead : (⟨c, job⟩ : Functor) :: jobs = ⟨d, .sendInLoop len⟩ :: rest := by
      rw [← hrest, Loop.rest, hpc]
    cases hhead
    split at hs
    · cases hs
    · rename_i y hy
      dsimp only at hs
      split at hs
      · obtain ⟨tcp, due, hsend, rfl⟩ := sendInLoop_some hs
        refine ⟨y, tcp, due, hy, hsend, ?_⟩
        rw [conns_push, conns_store]
        rfl
      · cases hs
  · cases hs

omit [DecidableEq τ] in
theorem runRemoval_log {p : Payload} {w : WriteResult} {rest : List Functor}
    (hrest : (s.loops l).rest = ⟨c, .removeConnection⟩ :: rest) (hx : s.conns[c]? = some x)
    (hs : s.runFunctor l p w = some s') :
    s'.conns[c]? = some (x.note .removed) := by
  unfold TcpServer.runFunctor at hs
  dsimp only at hs
  split at hs
  · rename_i d job jobs _ hpc
    have hhead : (⟨d, job⟩ : Functor) :: jobs = ⟨c, .removeConnection⟩ :: rest := by
      rw [← hrest, Loop.rest, hpc]
    cases hhead
    rw [hx] at hs
    dsimp only at hs
    split at hs
    · cases hs
      rw [removeConnectionInLoop, conns_queueInLoop]
      exact (conns_set hx _ c).trans (if_pos rfl)
    · cases hs
  · cases hs

theorem Sane.unsent_grows {a : Action τ} (h : Sane s) (hs : s.step a = some s')
    (hown : ∀ l c p w, a ≠ .ownSend l c p w)
    (hjob : ∀ l p w, a = .runFunctor l p w →
      ∀ c len rest, (s.loops l).rest ≠ ⟨c, .sendInLoop len⟩ :: rest)
    (hx : s.conns[c]? = some x) (hw : x.tcp.outputBuffer.WellFormed) :
    ∃ x', s'.conns[c]? = some x' ∧ TcpConnection.Grows x.tcp x'.tcp [] := by
  obtain ⟨x', hx', _, hstep⟩ := (h.projects_step hs).old c x hx
  refine ⟨x', hx', ?_⟩
  rcases hstep.grows hw with hsame | ⟨l, d, p, w, ha⟩ | ⟨hmine, hlog, p, w, len, jobs, ha, hview⟩
  · exact hsame
  · exact absurd ha (hown l d p w)
  · -- the step runs a functor of `c`, which is neither a send nor a removal
    exfalso
    subst ha
    have hhead := of_decide_eq_true hmine
    simp only [subject, Option.map_eq_some_iff] at hhead
    obtain ⟨⟨d, job⟩, hfirst, rfl⟩ := hhead
    obtain ⟨rest, hrest⟩ := List.head?_eq_some_iff.1 hfirst
    by_cases hremove : job = .removeConnection
    · subst hremove
      rw [runRemoval_log hrest hx hs, Option.some.injEq] at hx'
      subst hx'
      simp [view] at hlog
    · have hjobs : jobsOf d (s.loops x.loop).rest = .sendInLoop len :: jobs := hview
      have hqueue : (s.loops x.loop).rest = ⟨d, job⟩ :: rest := hrest
      rw [hqueue, jobsOf_cons, jobsOf_self hremove] at hjobs
      obtain ⟨rfl, _⟩ := List.cons.inj hjobs
      exact hjob _ p w rfl d len rest hrest

/-- One step: every stream grows by what the step records for it. -/
theorem Sane.sends_grows {a : Action τ} (h : Sane s) (hs : s.step a = some s')
    (hx : s.conns[c]? = some x) (hw : x.tcp.outputBuffer.WellFormed) :
    ∃ x', s'.conns[c]? = some x' ∧
      TcpConnection.Grows x.tcp x'.tcp (sentTo c (s.sends a).toList) := by
  cases a with
  | ownSend l d p w =>
      simp only [TcpServer.step, TcpServer.ownSend] at hs
      split at hs
      · cases hs
      · rename_i y hy
        split at hs
        · split at hs
          · rename_i hstate
            obtain ⟨tcp, due, hsend, rfl⟩ := sendInLoop_some hs
            have hconns : ((s.store d y tcp).push l d (if due then [.callback] else [])).conns =
                s.conns.set d (y.wrote tcp) := by
              rw [conns_push, conns_store]
            simpa [sends, hy, hstate] using sent_grows hy hsend hconns hx hw
          · rename_i hstate
            cases hs
            refine ⟨x, hx, ?_⟩
            simpa [sends, hy, hstate] using TcpConnection.grows_same hw rfl rfl
        · cases hs
  | runFunctor l p w =>
      by_cases hsend : ∃ d len rest, (s.loops l).rest = ⟨d, .sendInLoop len⟩ :: rest
      · obtain ⟨d, len, rest, hrest⟩ := hsend
        obtain ⟨y, tcp, due, hy, htcp, hconns⟩ := runSend_conns hrest hs
        simpa [sends, hrest, hy] using sent_grows hy htcp hconns hx hw
      · have hnone : s.sends (.runFunctor l p w) = none := by
          simp only [sends]
          split
          · rename_i d len rest hrest
            exact absurd ⟨d, len, rest, hrest⟩ hsend
          · rfl
        rw [hnone]
        refine h.unsent_grows hs (by simp) ?_ hx hw
        intro m q u ha d len rest hrest
        cases ha
        exact hsend ⟨d, len, rest, hrest⟩
  | _ => exact h.unsent_grows hs (by simp) (by simp) hx hw

omit [DecidableEq τ] in
theorem sends_known {a : Action τ} {r : Nat × List Byte} (h : s.sends a = some r) :
    ∃ x, s.conns[r.1]? = some x := by
  unfold sends at h
  split at h
  · obtain ⟨x, hx, hsent⟩ := Option.bind_eq_some_iff.1 h
    split at hsent <;> cases hsent
    exact ⟨x, hx⟩
  · split at h
    · obtain ⟨x, hx, hsent⟩ := Option.bind_eq_some_iff.1 h
      split at hsent <;> cases hsent
      exact ⟨x, hx⟩
    · cases h
  · cases h

/-! ## Runs -/

/-- The record is about connections that exist, and says what each was sent. -/
structure Recorded (s : TcpServer τ) (record : List (Nat × List Byte)) : Prop where
  known : ∀ r ∈ record, ∃ x, s.conns[r.1]? = some x
  streams : ∀ (c : Nat) x, s.conns[c]? = some x →
    x.tcp.outputBuffer.WellFormed ∧ x.tcp.stream = sentTo c record

omit [DecidableEq τ] in
theorem sentTo_unknown {record : List (Nat × List Byte)}
    (hknown : ∀ r ∈ record, ∃ x, s.conns[r.1]? = some x) (hc : s.conns[c]? = none) :
    sentTo c record = [] := by
  have hnone : record.filter (fun r => r.1 == c) = [] := by
    rw [List.filter_eq_nil_iff]
    intro r hr hsame
    obtain ⟨x, hx⟩ := hknown r hr
    rw [beq_iff_eq.1 hsame, hc] at hx
    cases hx
  rw [sentTo, hnone]
  rfl

theorem Recorded.step {a : Action τ} {record : List (Nat × List Byte)} (h : Recorded s record)
    (hsane : Sane s) (hs : s.step a = some s') :
    Recorded s' (record ++ (s.sends a).toList) := by
  have hproject := hsane.projects_step hs
  have hknown : ∀ r ∈ record ++ (s.sends a).toList, ∃ x, s.conns[r.1]? = some x := by
    intro r hr
    rcases List.mem_append.1 hr with hold | hnew
    · exact h.known r hold
    · exact sends_known (Option.mem_toList.1 hnew)
  constructor
  · intro r hr
    obtain ⟨x, hx⟩ := hknown r hr
    obtain ⟨x', hx', _⟩ := hproject.old r.1 x hx
    exact ⟨x', hx'⟩
  · intro c x' hx'
    cases hx : s.conns[c]? with
    | none =>
        obtain ⟨hw, hstream⟩ := (hproject.new c x' hx hx').sent_nothing
        exact ⟨hw, hstream.trans (sentTo_unknown hknown hx).symm⟩
    | some x =>
        obtain ⟨hw, hstream⟩ := h.streams c x hx
        obtain ⟨y, hy, hgrows⟩ := hsane.sends_grows hs hx hw
        rw [hx', Option.some.injEq] at hy
        subst hy
        exact ⟨hgrows.wellFormed, by rw [hgrows.stream, hstream, sentTo_append]⟩

/-- Bytes keep to their connection: in every run, on whatever threads the sends were made
and whatever becomes of the other connections, what the kernel has accepted on a
connection and what is still buffered is what was sent to it, in order. -/
theorem bytes_keep_to_connection {t : TcpServer τ × List (Nat × List Byte)}
    (h : ((machine τ).recording sends).Reach (fun _ _ => True) t) (hx : t.1.conns[c]? = some x) :
    x.tcp.socket.accepted ++ x.tcp.outputBuffer.readable = sentTo c t.2 := by
  have hrecorded : (machine τ).Reach (fun _ _ => True) t.1 ∧ Recorded t.1 t.2 := by
    refine Machine.Reach.recorded (I := Recorded) ?_ ?_ h
    · intro s hs
      refine ⟨by simp, fun c x hx => ?_⟩
      rw [hs.conns] at hx
      cases hx
    · intro s a s' record hreach hkept _ hs
      exact hkept.step (sane_of_reach hreach) (step_of_machine hs)
  exact (hrecorded.2.streams c x hx).2

theorem firstSend_fits : ([1, 2, 3] : List Byte).length ≤ maxSize := by decide

/-- A thread sends to the first connection while the second one is accepted and sent to. -/
def sendingToTwo : List (Action Nat) :=
  accepting ++ [.obtain 1 0, .ownSend 0 0 ⟨[1, 2, 3], firstSend_fits⟩ (.wrote 1),
      .sendCheck 1 0 2] ++
    polling ++ [.sendQueue 1, .poll 0 true [.acceptor], .accept 8,
      .ownSend 0 1 ⟨[9], by decide⟩ (.wrote 1), .resume 0, .resume 0, .loop 0 .handleWakeup,
      .loop 0 .doPendingFunctors, .loop 0 .swapFunctors,
      .runFunctor 0 ⟨[4, 5], by decide⟩ (.wrote 0)]

theorem bytes_keep_to_connection_two : ∃ (t : TcpServer Nat × List (Nat × List Byte)) (x : Conn),
    t.2 = [(0, [1, 2, 3]), (1, [9]), (0, [4, 5])] ∧ t.1.conns[0]? = some x ∧
      x.tcp.socket.accepted ++ x.tcp.outputBuffer.readable = [1, 2, 3, 4, 5] := by
  obtain ⟨t, ht, htest⟩ := Machine.Reach.of_test ((machine Nat).recording sends)
    (fun _ _ => True) (fun t => t.2 == [(0, [1, 2, 3]), (1, [9]), (0, [4, 5])] &&
      t.1.conns[0]?.isSome) sendingToTwo
    (.start (s := (new 0 false, [])) ⟨new_initial 0 false, rfl⟩) (by decide +kernel)
  rw [Bool.and_eq_true, beq_iff_eq] at htest
  obtain ⟨x, hx⟩ := Option.isSome_iff_exists.1 htest.2
  refine ⟨t, x, htest.1, hx, ?_⟩
  rw [bytes_keep_to_connection ht hx, htest.1]
  rfl

end TcpServer

end MyNetLib
