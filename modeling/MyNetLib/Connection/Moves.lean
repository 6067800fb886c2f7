import MyNetLib.Connection.System

/-! # What a step can do

Three views of a step, each with every case it allows: what happens to the
connection and the record of the bytes it took in, to the queue of the loop, and
to the callers with their memory. The invariants are proved from these.
-/

namespace MyNetLib.TcpConnection.System

open Library

variable {τ : Type}

/-! ## Parts of steps -/

/-- The memory differs at most in the content of a caller's `Buffer`. -/
def BufferWrite (m m' : Heap Object) : Prop :=
  m' = m ∨ ∃ a b b', m.get a = some (.buffer b) ∧ m' = m.put a (.buffer b')

theorem retriveSource_frame (s : System τ) (src : Source) :
    ∃ mem b, BufferWrite s.mem mem ∧
      s.retriveSource src = { s with mem := mem, conn := { s.conn with inputBuffer := b } } := by
  cases src with
  | string a => exact ⟨s.mem, s.conn.inputBuffer, Or.inl rfl, rfl⟩
  | array a offset len => exact ⟨s.mem, s.conn.inputBuffer, Or.inl rfl, rfl⟩
  | buffer a =>
      simp only [retriveSource]
      split
      · rename_i b hb
        exact ⟨_, s.conn.inputBuffer, Or.inr ⟨a, b, _, hb, rfl⟩, rfl⟩
      · exact ⟨s.mem, s.conn.inputBuffer, Or.inl rfl, rfl⟩
  | input => exact ⟨s.mem, _, Or.inl rfl, rfl⟩

theorem finishSend_frame (s : System τ) (id : Nat) (src : Source) :
    ∃ mem b, BufferWrite s.mem mem ∧ s.finishSend id src = { s with
      mem := mem
      conn := { s.conn with inputBuffer := b }
      returned := s.returned ++ [id] } := by
  obtain ⟨mem, b, hmem, hframe⟩ := retriveSource_frame s src
  exact ⟨mem, b, hmem, by rw [finishSend, hframe]⟩

theorem runSend_eq_some {s : System τ} {id : Nat} {p : Payload} {w : WriteResult}
    {r : System τ × Bool} (h : s.runSend id p w = some r) :
    ∃ c, s.conn.sendInLoop p w = some (c, r.2) ∧ r.1 = { s with
      conn := c
      entered := if s.conn.state = .kDisconnected then s.entered else s.entered ++ [(id, p)] } := by
  obtain ⟨q, hq, rfl⟩ := Option.map_eq_some_iff.1 h
  exact ⟨q.1, hq, rfl⟩

/-- An in-loop `Send` that saw `kConnected`: it waits for the write-complete
callback its `SendInLoop` made, or it has returned. -/
inductive Sent (s s' : System τ) (src : Source) (w : WriteResult) : Prop
  | intro (p : Payload) (c : TcpConnection) (due : Bool) (frames : List Frame)
      (mem : Heap Object) (b : Buffer) (returned : List Nat) :
      s.conn.state = .kConnected → s.conn.sendInLoop p w = some (c, due) → BufferWrite s.mem mem →
      (frames = .callback :: .sending s.calls.length src :: s.frames ∧ returned = s.returned) ∨
        (frames = s.frames ∧ returned = s.returned ++ [s.calls.length]) →
      s' = { s with
        conn := { c with inputBuffer := b }
        frames := frames
        mem := mem
        calls := s.calls ++ [p]
        entered := s.entered ++ [(s.calls.length, p)]
        returned := returned } → Sent s s' src w

theorem ownSend_cases {s s' : System τ} {src : Source} {w : WriteResult}
    (h : s.ownSend src w = some s') : s' = s ∨ Sent s s' src w := by
  unfold ownSend at h
  split at h
  · rename_i hstate
    obtain ⟨p, _, hp⟩ := Option.bind_eq_some_iff.1 h
    obtain ⟨r, hr, rfl⟩ := Option.map_eq_some_iff.1 hp
    obtain ⟨c, hc, hr1⟩ := runSend_eq_some hr
    rw [if_neg (by rw [hstate]; decide)] at hr1
    right
    split
    · exact ⟨p, c, r.2, _, s.mem, c.inputBuffer, s.returned, hstate, hc, Or.inl rfl,
        Or.inl ⟨rfl, rfl⟩, by rw [hr1]⟩
    · obtain ⟨mem, b, hmem, hframe⟩ := finishSend_frame r.1 s.calls.length src
      rw [hr1] at hmem
      exact ⟨p, c, r.2, s.frames, mem, b, s.returned ++ [s.calls.length], hstate, hc, hmem,
        Or.inr ⟨rfl, rfl⟩, by rw [hframe, hr1]⟩
  · cases h
    exact Or.inl rfl

/-- `SendInLoop` run by the loop, with what its pointer reads now. -/
theorem runFunctor_send {s s' : System τ} {w : WriteResult} {junk : Payload} {id : Nat}
    {r : Region} (h : s.runFunctor w junk (.sendInLoop id r) = some s') :
    ∃ c due frames, s.conn.sendInLoop ((r.read s.mem).getD junk) w = some (c, due) ∧
      (frames = s.frames ∨ frames = [.callback]) ∧
      s' = { s with
        conn := c
        frames := frames
        entered := if s.conn.state = .kDisconnected then s.entered
          else s.entered ++ [(id, (r.read s.mem).getD junk)] } := by
  simp only [System.runFunctor] at h
  split at h
  · obtain ⟨q, hq, rfl⟩ := Option.map_eq_some_iff.1 h
    obtain ⟨c, hc, hq1⟩ := runSend_eq_some hq
    split
    · exact ⟨c, q.2, [.callback], hc, Or.inr rfl, by rw [hq1]⟩
    · exact ⟨c, q.2, s.frames, hc, Or.inl rfl, by rw [hq1]⟩
  · cases h

theorem runFunctor_cases {s s' : System τ} {w : WriteResult} {junk : Payload} {f : Functor}
    (h : s.runFunctor w junk f = some s') :
    (∃ id r, f = .sendInLoop id r) ∨
    (f = .shutdownInLoop ∧ s' = { s with conn := s.conn.shutdownInLoop }) ∨
    ((f = .writeComplete ∨ f = .connectionDestroyed) ∧
      ∃ frames, (frames = s.frames ∨ frames = [.callback] ∨ frames = [.destroying]) ∧
        s' = { s with frames := frames }) := by
  cases f with
  | sendInLoop id r => exact Or.inl ⟨id, r, rfl⟩
  | shutdownInLoop =>
      cases h
      exact Or.inr (Or.inl ⟨rfl, rfl⟩)
  | writeComplete =>
      cases h
      exact Or.inr (Or.inr ⟨Or.inl rfl, _, Or.inr (Or.inl rfl), rfl⟩)
  | connectionDestroyed =>
      simp only [System.runFunctor] at h
      split at h <;> cases h
      · exact Or.inr (Or.inr ⟨Or.inr rfl, _, Or.inr (Or.inr rfl), rfl⟩)
      · exact Or.inr (Or.inr ⟨Or.inr rfl, _, Or.inl rfl, rfl⟩)

theorem handleRead_cases {s s' : System τ} {r : ReadvResult} (h : s.handleRead r = some s') :
    ∃ b, (s' = { s with conn := { s.conn with inputBuffer := b } }.disconnect
        [.callback, .closing]) ∨
      ∃ frames, (frames = s.frames ∨ frames = [.callback]) ∧
        s' = { s with conn := { s.conn with inputBuffer := b }, frames := frames } := by
  have hinput : ∀ {o : TcpConnection × ReadOutcome}, s.conn.handleRead r = some o →
      ∃ b, o.1 = { s.conn with inputBuffer := b } := by
    intro o ho
    unfold TcpConnection.handleRead at ho
    split at ho
    · cases ho
      exact ⟨_, rfl⟩
    · split at ho
      · obtain ⟨b, _, rfl⟩ := Option.map_eq_some_iff.1 ho
        exact ⟨b, rfl⟩
      · cases ho
  obtain ⟨⟨c, outcome⟩, ho, rfl⟩ := Option.map_eq_some_iff.1 h
  obtain ⟨b, hb⟩ := hinput ho
  cases hb
  refine ⟨b, ?_⟩
  cases outcome with
  | message => exact Or.inr ⟨_, Or.inr rfl, rfl⟩
  | close => exact Or.inl rfl
  | error => exact Or.inr ⟨_, Or.inl rfl, rfl⟩

theorem sendCheck_cases [DecidableEq τ] {s s' : System τ} {t : τ} {src : Source}
    (h : s.sendCheck t src = some s') :
    s' = s ∨ ∃ p mem r temp, s.conn.state = .kConnected ∧ s.payload src = some p ∧
      s.capture p src = some (mem, r, temp) ∧
      s' = { s with mem := mem, calls := s.calls ++ [p] }.setCaller t
        (.sendQueue s.calls.length r temp) := by
  unfold sendCheck at h
  split at h
  · rename_i hstate
    obtain ⟨p, hp, hc⟩ := Option.bind_eq_some_iff.1 h
    obtain ⟨⟨mem, r, temp⟩, hcap, rfl⟩ := Option.map_eq_some_iff.1 hc
    exact Or.inr ⟨p, mem, r, temp, hstate, hp, hcap, rfl⟩
  · cases h
    exact Or.inl rfl

/-! ## The three views -/

/-- How a step changes the connection and the record of what it took in. -/
inductive ConnMove (s s' : System τ) : Action τ → Prop
  | still (a : Action τ) (b : Buffer) : s'.conn = { s.conn with inputBuffer := b } →
      s'.entered = s.entered → s'.closed = s.closed → s'.closedLeft = s.closedLeft →
      ConnMove s s' a
  | send (a : Action τ) (id : Nat) (p : Payload) (w : WriteResult) (c : TcpConnection)
      (due : Bool) (b : Buffer) :
      (∃ src, a = .ownSend src w) ∨ (∃ junk, a = .runFunctor w junk) →
      s.conn.sendInLoop p w = some (c, due) → s'.conn = { c with inputBuffer := b } →
      s'.entered = (if s.conn.state = .kDisconnected then s.entered else s.entered ++ [(id, p)]) →
      s'.closed = s.closed → s'.closedLeft = s.closedLeft → ConnMove s s' a
  | shutdown (w : WriteResult) (junk : Payload) (rest : List Functor) :
      s.loop.pc = .running (.shutdownInLoop :: rest) → s'.conn = s.conn.shutdownInLoop →
      s'.entered = s.entered → s'.closed = s.closed → s'.closedLeft = s.closedLeft →
      ConnMove s s' (.runFunctor w junk)
  | ownShutDown : s.conn.state = .kConnected → s'.conn = s.conn.shutDown →
      s'.entered = s.entered → s'.closed = s.closed → s'.closedLeft = s.closedLeft →
      ConnMove s s' .ownShutDown
  | setState (t : τ) : s'.conn = s.conn.setState .kDisconnecting →
      s'.entered = s.entered → s'.closed = s.closed → s'.closedLeft = s.closedLeft →
      ConnMove s s' (.shutSet t)
  | drain (w : WriteResult) (c : TcpConnection) (due : Bool) :
      s.conn.handleWrite w = some (c, due) → s'.conn = c → s'.entered = s.entered →
      s'.closed = s.closed → s'.closedLeft = s.closedLeft → ConnMove s s' (.handleWrite w)
  | close (a : Action τ) (b : Buffer) (frames : List Frame) :
      s' = { s with conn := { s.conn with inputBuffer := b } }.disconnect frames → ConnMove s s' a

/-- Who queues which functor. -/
inductive Queues (s : System τ) : Action τ → Functor → Prop
  | writeComplete (w : WriteResult) : Queues s (.handleWrite w) .writeComplete
  | connectionDestroyed : Queues s .queueDestroyed .connectionDestroyed
  | sendInLoop (t : τ) (id : Nat) (r : Region) (temp : Option Nat) :
      s.callers t = .sendQueue id r temp → Queues s (.sendQueue t) (.sendInLoop id r)
  | shutdownInLoop (t : τ) : Queues s (.shutQueue t) .shutdownInLoop

/-- How a step changes the queue of the loop. -/
inductive QueueMove (s s' : System τ) : Action τ → Prop
  | same (a : Action τ) : s'.loop.queued = s.loop.queued → QueueMove s s' a
  | push (a : Action τ) (f : Functor) : Queues s a f →
      s'.loop.queued = s.loop.queued ++ [f] → QueueMove s s' a
  | run (w : WriteResult) (junk : Payload) (f : Functor) (rest : List Functor) :
      s.loop.pc = .running (f :: rest) → s.loop.queued = f :: s'.loop.queued →
      { s with loop := { s.loop with pc := .running rest } }.runFunctor w junk f = some s' →
      QueueMove s s' (.runFunctor w junk)

/-- No `Send` waits on the loop thread that did not wait before. -/
def NoNewSending (s s' : System τ) : Prop :=
  ∀ id src, .sending id src ∈ s'.frames → .sending id src ∈ s.frames

/-- How a step changes the callers, their memory and the records of their calls. -/
inductive CallerMove [DecidableEq τ] (s s' : System τ) : Action τ → Prop
  | same (a : Action τ) : s'.callers = s.callers → s'.mem = s.mem → s'.calls = s.calls →
      s'.returned = s.returned → s'.promised = s.promised → NoNewSending s s' →
      CallerMove s s' a
  | ownSend (src : Source) (w : WriteResult) : Sent s s' src w → CallerMove s s' (.ownSend src w)
  | finish (id : Nat) (src : Source) (rest : List Frame) (mem : Heap Object) (b : Buffer) :
      s.frames = .sending id src :: rest → BufferWrite s.mem mem →
      s' = { s with
        frames := rest
        mem := mem
        conn := { s.conn with inputBuffer := b }
        returned := s.returned ++ [id] } → CallerMove s s' .resume
  | ownShutDown : s.conn.state = .kConnected →
      s' = { s with conn := s.conn.shutDown, promised := s.promised ++ s.returned } →
      CallerMove s s' .ownShutDown
  | sendCheck (t : τ) (src : Source) (p : Payload) (mem : Heap Object) (r : Region)
      (temp : Option Nat) : s.callers t = .outside → s.conn.state = .kConnected →
      s.payload src = some p → s.capture p src = some (mem, r, temp) →
      s' = { s with mem := mem, calls := s.calls ++ [p] }.setCaller t
        (.sendQueue s.calls.length r temp) → CallerMove s s' (.sendCheck t src)
  | sendQueue (t : τ) (id : Nat) (r : Region) (temp : Option Nat) :
      s.callers t = .sendQueue id r temp →
      s' = { s with loop := s.loop.emplace (.sendInLoop id r) }.setCaller t
        (.sendReturn id temp) → CallerMove s s' (.sendQueue t)
  | sendReturn (t : τ) (id : Nat) (temp : Option Nat) : s.callers t = .sendReturn id temp →
      s' = { s with
        mem := destroyTemp s.mem temp
        returned := s.returned ++ [id] }.setCaller t .outside → CallerMove s s' (.sendReturn t)
  | shutCheck (t : τ) : s.callers t = .outside → s.conn.state = .kConnected →
      s' = { s with promised := s.promised ++ s.returned }.setCaller t .shutSet →
      CallerMove s s' (.shutCheck t)
  | shutSet (t : τ) : s.callers t = .shutSet →
      s' = { s with conn := s.conn.setState .kDisconnecting }.setCaller t .shutQueue →
      CallerMove s s' (.shutSet t)
  | shutQueue (t : τ) : s.callers t = .shutQueue →
      s' = { s with loop := s.loop.emplace .shutdownInLoop }.setCaller t .outside →
      CallerMove s s' (.shutQueue t)
  | alloc (x : Object) : s' = { s with mem := s.mem.alloc x } → CallerMove s s' (.alloc x)
  | overwrite (addr : Nat) (p : Payload) (mem : Heap Object) : overwrite s.mem addr p = some mem →
      s' = { s with mem := mem } → CallerMove s s' (.overwrite addr p)
  | release (addr : Nat) (mem : Heap Object) : release s.mem addr = some mem →
      s' = { s with mem := mem } → CallerMove s s' (.release addr)

theorem ConnMove.unchanged {s : System τ} (a : Action τ) {loop : EventLoop Functor}
    {frames : List Frame} {callers : τ → Caller} {mem : Heap Object} {calls : List Payload}
    {returned promised : List Nat} :
    ConnMove s { s with
      loop := loop
      frames := frames
      callers := callers
      mem := mem
      calls := calls
      returned := returned
      promised := promised } a :=
  .still a s.conn.inputBuffer rfl rfl rfl rfl

section Views

variable [DecidableEq τ] {s s' : System τ} {a : Action τ}

theorem CallerMove.unchanged (a : Action τ) {conn : TcpConnection} {loop : EventLoop Functor}
    {entered : List (Nat × Payload)} :
    CallerMove s { s with conn := conn, loop := loop, entered := entered } a :=
  .same a rfl rfl rfl rfl rfl fun _ _ h => h

structure Views (s s' : System τ) (a : Action τ) : Prop where
  conn : ConnMove s s' a
  queue : QueueMove s s' a
  callers : CallerMove s s' a

theorem Views.refl (s : System τ) (a : Action τ) : Views s s a :=
  ⟨.unchanged a, .same a rfl, .unchanged a⟩

theorem ownSend_views {src : Source} {w : WriteResult} (h : s.ownSend src w = some s') :
    Views s s' (.ownSend src w) := by
  rcases ownSend_cases h with rfl | hsent
  · exact .refl _ _
  · obtain ⟨p, c, due, frames, mem, b, returned, hstate, hsend, _, _, rfl⟩ := id hsent
    refine ⟨?_, .same _ rfl, .ownSend src w hsent⟩
    refine .send _ s.calls.length p w c due b (Or.inl ⟨src, rfl⟩) hsend rfl ?_ rfl rfl
    rw [if_neg (by rw [hstate]; decide)]

theorem close_views (a : Action τ) (b : Buffer) (frames : List Frame)
    (hframes : ∀ id src, .sending id src ∈ frames → .sending id src ∈ s.frames) :
    Views s ({ s with conn := { s.conn with inputBuffer := b } }.disconnect frames) a :=
  ⟨.close a b frames rfl, .same a rfl, .same a rfl rfl rfl rfl rfl hframes⟩

theorem resume_views (h : s.resume = some s') : Views s s' .resume := by
  unfold resume at h
  split at h
  · cases h
  · rename_i rest hframes
    cases h
    refine ⟨.unchanged _, .same _ rfl, .same _ rfl rfl rfl rfl rfl ?_⟩
    intro id src hmem
    rw [hframes]
    exact List.mem_cons_of_mem _ hmem
  · rename_i id src rest hframes
    cases h
    rcases finishSend_frame { s with frames := rest } id src with ⟨mem, b, hmem, hframe⟩
    rw [hframe]
    exact ⟨.still _ b rfl rfl rfl rfl, .same _ rfl, .finish id src rest mem b hframes hmem rfl⟩
  · rename_i rest hframes
    cases h
    refine ⟨.unchanged _, .same _ rfl, .same _ rfl rfl rfl rfl rfl ?_⟩
    intro id src hmem
    rw [hframes]
    simpa using hmem
  · rename_i rest hframes
    cases h
    refine close_views _ s.conn.inputBuffer (.callback :: rest) ?_
    intro id src hmem
    rw [hframes]
    simpa using hmem

theorem handleRead_views {r : ReadvResult} (h : s.handleRead r = some s') :
    Views s s' (.handleRead r) := by
  rcases handleRead_cases h with ⟨b, rfl | ⟨frames, hframes, rfl⟩⟩
  · exact close_views _ b _ (by simp)
  · refine ⟨.still _ b rfl rfl rfl rfl, .same _ rfl, .same _ rfl rfl rfl rfl rfl ?_⟩
    intro id src hmem
    rcases hframes with rfl | rfl
    · exact hmem
    · simp at hmem

theorem handleWrite_views {w : WriteResult} (h : s.handleWrite w = some s') :
    Views s s' (.handleWrite w) := by
  obtain ⟨⟨c, due⟩, ho, rfl⟩ := Option.map_eq_some_iff.1 h
  refine ⟨.drain w c due ho rfl rfl rfl rfl, ?_, .unchanged _⟩
  cases due with
  | true => exact .push _ .writeComplete (.writeComplete w) (by simp)
  | false => exact .same _ rfl

theorem runFunctor_views {w : WriteResult} {junk : Payload} {f : Functor} {rest : List Functor}
    (hpc : s.loop.pc = .running (f :: rest))
    (h : { s with loop := { s.loop with pc := .running rest } }.runFunctor w junk f = some s') :
    Views s s' (.runFunctor w junk) := by
  have hqueue := EventLoop.queued_running hpc
  -- frames of this step are callbacks or the old ones
  have hsending : ∀ (t : System τ) (frames : List Frame),
      frames = s.frames ∨ frames = [.callback] ∨ frames = [.destroying] → t.frames = frames →
      NoNewSending s t := by
    intro t frames hcase ht id src hmem
    rw [ht] at hmem
    rcases hcase with rfl | rfl | rfl
    · exact hmem
    · simp at hmem
    · simp at hmem
  have hrun : s'.loop = { s.loop with pc := .running rest } →
      QueueMove s s' (.runFunctor w junk) := by
    intro hl
    exact .run w junk f rest hpc (by rw [hl]; exact hqueue) h
  rcases runFunctor_cases h with ⟨id, r, rfl⟩ | ⟨rfl, rfl⟩ | ⟨_, frames, hframes, rfl⟩
  · obtain ⟨c, due, frames, hsend, hframes, rfl⟩ := runFunctor_send h
    refine ⟨.send _ id _ w c due c.inputBuffer (Or.inr ⟨junk, rfl⟩) hsend rfl rfl rfl rfl,
      hrun rfl, .same _ rfl rfl rfl rfl rfl ?_⟩
    apply hsending _ frames _ rfl
    rcases hframes with hf | hf
    · exact Or.inl hf
    · exact Or.inr (Or.inl hf)
  · exact ⟨.shutdown w junk rest hpc rfl rfl rfl rfl, hrun rfl, .unchanged _⟩
  · exact ⟨.unchanged _, hrun rfl, .same _ rfl rfl rfl rfl rfl (hsending _ frames hframes rfl)⟩

theorem ownShutDown_views (s : System τ) : Views s s.ownShutDown .ownShutDown := by
  by_cases hstate : s.conn.state = .kConnected
  · rw [System.ownShutDown, if_pos hstate]
    exact ⟨.ownShutDown hstate rfl rfl rfl rfl, .same _ rfl, .ownShutDown hstate rfl⟩
  · rw [System.ownShutDown, if_neg hstate]
    exact .refl _ _

theorem loop_views {l : EventLoop.Label} {loop : EventLoop Functor}
    (h : s.loop.step l = some loop) (hl : l ≠ .runFunctor) :
    Views s { s with loop := loop } (.loop l) :=
  ⟨.unchanged _, .same _ (EventLoop.queued_step h hl), .unchanged _⟩

theorem sendCheck_views {t : τ} {src : Source} (hout : s.callers t = .outside)
    (h : s.sendCheck t src = some s') : Views s s' (.sendCheck t src) := by
  rcases sendCheck_cases h with rfl | ⟨p, mem, r, temp, hstate, hp, hcap, rfl⟩
  · exact .refl _ _
  · exact ⟨.unchanged _, .same _ rfl, .sendCheck t src p mem r temp hout hstate hp hcap rfl⟩

theorem sendQueue_views {t : τ} {id : Nat} {r : Region} {temp : Option Nat}
    (hpc : s.callers t = .sendQueue id r temp) :
    Views s ({ s with loop := s.loop.emplace (.sendInLoop id r) }.setCaller t
      (.sendReturn id temp)) (.sendQueue t) :=
  ⟨.unchanged _, .push _ _ (.sendInLoop t id r temp hpc) (by simp [setCaller]),
    .sendQueue t id r temp hpc rfl⟩

theorem shutQueue_views {t : τ} (hpc : s.callers t = .shutQueue) :
    Views s ({ s with loop := s.loop.emplace .shutdownInLoop }.setCaller t .outside)
      (.shutQueue t) :=
  ⟨.unchanged _, .push _ _ (.shutdownInLoop t) (by simp [setCaller]), .shutQueue t hpc rfl⟩

theorem shutCheck_views {t : τ} (h : s.step (.shutCheck t) = some s') :
    Views s s' (.shutCheck t) := by
  obtain ⟨hout, hs⟩ := Option.ite_none_right_eq_some.1 h
  split at hs <;> cases hs
  · rename_i hstate
    exact ⟨.unchanged _, .same _ rfl, .shutCheck t hout hstate rfl⟩
  · exact .refl _ _

theorem alloc_views {x : Object} (h : s.step (.alloc x) = some s') : Views s s' (.alloc x) := by
  simp only [step] at h
  split at h <;> cases h
  exact ⟨.unchanged _, .same _ rfl, .alloc _ rfl⟩

theorem step_views (h : s.step a = some s') : Views s s' a := by
  cases a with
  | ownSend src w => exact ownSend_views (Option.ite_none_right_eq_some.1 h).2
  | ownShutDown =>
      obtain ⟨_, hs⟩ := Option.ite_none_right_eq_some.1 h
      cases hs
      exact ownShutDown_views s
  | ownRetrive len =>
      obtain ⟨_, hs⟩ := Option.ite_none_right_eq_some.1 h
      cases hs
      exact ⟨.still _ _ rfl rfl rfl rfl, .same _ rfl, .unchanged _⟩
  | resume => exact resume_views h
  | handleRead r => exact handleRead_views (Option.ite_none_right_eq_some.1 h).2
  | handleWrite w => exact handleWrite_views (Option.ite_none_right_eq_some.1 h).2
  | handleClose =>
      obtain ⟨_, hs⟩ := Option.ite_none_right_eq_some.1 h
      cases hs
      exact close_views _ s.conn.inputBuffer _ (by simp)
  | loop l =>
      obtain ⟨hl, hs⟩ := Option.ite_none_right_eq_some.1 h
      obtain ⟨loop, hloop, rfl⟩ := Option.map_eq_some_iff.1 hs
      simp only [Bool.and_eq_true, bne_iff_ne, ne_eq] at hl
      exact loop_views hloop hl.2
  | runFunctor w junk =>
      simp only [step] at h
      split at h
      · rename_i hpc
        exact runFunctor_views hpc h
      · cases h
  | queueDestroyed =>
      cases h
      exact ⟨.unchanged _, .push _ _ .connectionDestroyed (by simp), .unchanged _⟩
  | sendCheck t src =>
      obtain ⟨hout, hs⟩ := Option.ite_none_right_eq_some.1 h
      exact sendCheck_views hout hs
  | sendQueue t =>
      simp only [step] at h
      split at h <;> cases h
      exact sendQueue_views (by assumption)
  | sendReturn t =>
      simp only [step] at h
      split at h <;> cases h
      rename_i id temp hpc
      exact ⟨.unchanged _, .same _ rfl, .sendReturn t id temp hpc rfl⟩
  | shutCheck t => exact shutCheck_views h
  | shutSet t =>
      simp only [step] at h
      split at h <;> cases h
      rename_i hpc
      exact ⟨.setState t rfl rfl rfl rfl, .same _ rfl, .shutSet t hpc rfl⟩
  | shutQueue t =>
      simp only [step] at h
      split at h <;> cases h
      exact shutQueue_views (by assumption)
  | alloc x => exact alloc_views h
  | overwrite addr p =>
      obtain ⟨mem, hmem, rfl⟩ := Option.map_eq_some_iff.1 h
      exact ⟨.unchanged _, .same _ rfl, .overwrite addr p mem hmem rfl⟩
  | release addr =>
      obtain ⟨mem, hmem, rfl⟩ := Option.map_eq_some_iff.1 h
      exact ⟨.unchanged _, .same _ rfl, .release addr mem hmem rfl⟩

end Views

end MyNetLib.TcpConnection.System
