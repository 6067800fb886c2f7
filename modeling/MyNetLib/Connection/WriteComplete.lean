import MyNetLib.Connection.Account

/-! # Where the write-complete callback runs

`HandleWrite` queues the callback, `SendInLoop` calls `RunInLoop`, which on the
loop thread is a direct call. The run is watched by three counters: how often
the output became fully written, and how often the callback was started from
the pending functors and inside a `SendInLoop`.
-/

namespace MyNetLib.TcpConnection

open Library

/-! ## The connection's part -/

/-- The direct write of `SendInLoop` takes all of the data. -/
def completesDirectly (c : TcpConnection) (p : Payload) (w : WriteResult) : Bool :=
  c.state != .kDisconnected && c.writesDirectly && w == .wrote p.data.length

/-- The write of `HandleWrite` takes all that is buffered. -/
def drains (c : TcpConnection) (w : WriteResult) : Bool :=
  c.isWriting && c.outputBuffer.readableBytes != 0 && w == .wrote c.outputBuffer.readableBytes

@[simp] theorem wrote_beq (n m : Nat) :
    (WriteResult.wrote n == WriteResult.wrote m) = (n == m) := by
  rw [Bool.eq_iff_iff]
  simp

@[simp] theorem failed_beq_wrote (errno logged : Errno) (n : Nat) :
    (WriteResult.failed errno logged == WriteResult.wrote n) = false := by
  rw [Bool.eq_false_iff]
  simp

variable {c c' : TcpConnection}

theorem bufferRest_callback {rest : List Byte} (h : c.bufferRest rest = some c') :
    c'.writeCompleteCallback = c.writeCompleteCallback := by
  unfold bufferRest at h
  split at h
  · cases h
    rfl
  · obtain ⟨b, -, rfl⟩ := Option.map_eq_some_iff.1 h
    rfl

/-- `SendInLoop` calls the callback exactly for a direct write of everything. -/
theorem sendInLoop_due {p : Payload} {w : WriteResult} {due : Bool}
    (h : c.sendInLoop p w = some (c', due)) :
    due = (c.completesDirectly p w && c.writeCompleteCallback) ∧
      c'.writeCompleteCallback = c.writeCompleteCallback := by
  have hbuffer : ∀ {d : Bool}, (c.bufferRest p.data).map (fun c' => (c', false)) = some (c', d) →
      d = false ∧ c'.writeCompleteCallback = c.writeCompleteCallback := by
    intro d hb
    obtain ⟨c₁, hc₁, heq⟩ := Option.map_eq_some_iff.1 hb
    cases heq
    exact ⟨rfl, bufferRest_callback hc₁⟩
  unfold sendInLoop at h
  by_cases hstate : c.state = .kDisconnected
  · rw [if_pos hstate] at h
    cases h
    simp [completesDirectly, hstate]
  rw [if_neg hstate] at h
  by_cases hdirect : c.writesDirectly = true
  · rw [if_pos hdirect] at h
    cases w with
    | wrote n =>
        dsimp only at h
        split at h
        · obtain ⟨c₁, hc₁, heq⟩ := Option.map_eq_some_iff.1 h
          cases heq
          have hkept := bufferRest_callback hc₁
          have hopen : (c.state != .kDisconnected) = true := bne_iff_ne.2 hstate
          exact ⟨by simp [completesDirectly, hopen, hdirect], hkept⟩
        · cases h
    | failed errno logged =>
        dsimp only at h
        split at h
        · cases h
          simp [completesDirectly]
        · simpa [completesDirectly] using hbuffer h
  · rw [if_neg hdirect] at h
    simpa [completesDirectly, hdirect] using hbuffer h

/-- `HandleWrite` queues the callback exactly when the write drains the buffer. -/
theorem handleWrite_due (hw : c.outputBuffer.WellFormed) {w : WriteResult} {due : Bool}
    (h : c.handleWrite w = some (c', due)) :
    due = (c.drains w && c.writeCompleteCallback) ∧
      c'.writeCompleteCallback = c.writeCompleteCallback := by
  unfold handleWrite at h
  by_cases hbit : c.isWriting = true
  · rw [if_pos hbit] at h
    cases w with
    | failed errno logged =>
        cases h
        simp [drains]
    | wrote n =>
        obtain ⟨hw₁, hr⟩ := Buffer.retrive_spec hw n
        have hleft : (c.written n).outputBuffer.readableBytes =
            c.outputBuffer.readableBytes - n := by
          show (c.outputBuffer.retrive n).readableBytes = _
          rw [hw₁.readableBytes_eq_length, hr, List.length_drop, hw.readableBytes_eq_length]
        dsimp only at h
        rw [hleft] at h
        split at h
        · cases h
        · split at h
          · cases h
            rename_i hzero
            subst hzero
            refine ⟨?_, rfl⟩
            by_cases hb : c.outputBuffer.readableBytes = 0
            · simp [drains, hb]
            · simp [drains, Ne.symm hb]
          · split at h
            · cases h
              have hall : n = c.outputBuffer.readableBytes := by omega
              have hsome : c.outputBuffer.readableBytes ≠ 0 := by omega
              refine ⟨by simp [drains, hbit, hall, hsome], ?_⟩
              unfold drained
              dsimp only
              split
              · unfold shutdownInLoop
                split <;> rfl
              · rfl
            · cases h
              have hsome : n ≠ c.outputBuffer.readableBytes := by omega
              exact ⟨by simp [drains, hsome], rfl⟩
  · rw [if_neg hbit] at h
    cases h
    simp [drains, hbit]

namespace System

variable {τ : Type}

/-! ## The step's part -/

/-- The `SendInLoop` a step makes: its payload and the result of its `::write`. -/
def sends (s : System τ) : Action τ → Option (Payload × WriteResult)
  | .ownSend src w =>
      if s.conn.state = .kConnected then (s.payload src).map fun p => (p, w) else none
  | .runFunctor w junk =>
      match s.loop.pc with
      | .running (.sendInLoop _ r :: _) => some ((r.read s.mem).getD junk, w)
      | _ => none
  | _ => none

/-- The step completes the output by the direct write of a `SendInLoop`. -/
def completesDirectly (s : System τ) (a : Action τ) : Bool :=
  (s.sends a).any fun q => s.conn.completesDirectly q.1 q.2

/-- The step completes the output by a `HandleWrite`. -/
def drains (s : System τ) : Action τ → Bool
  | .handleWrite w => s.conn.drains w
  | _ => false

/-- The callback is started inside a `SendInLoop`. -/
def runsInside (s : System τ) (a : Action τ) : Bool :=
  (s.sends a).any fun q => (s.conn.sendInLoop q.1 q.2).any fun r => r.2

/-- The callback is started as a functor of its own. -/
def runsPending (s : System τ) : Action τ → Bool
  | .runFunctor _ _ =>
      match s.loop.pc with
      | .running (.writeComplete :: _) => true
      | _ => false
  | _ => false

/-- Another thread is still in the `Send` with this number. -/
def OnCaller (s : System τ) (u : τ) (i : Nat) : Prop :=
  (∃ r temp, s.callers u = .sendQueue i r temp) ∨ ∃ temp, s.callers u = .sendReturn i temp

/-- No `Send` waits for user code, and every one made on the loop thread has returned. -/
structure SendsReturn (s : System τ) : Prop where
  sending : ∀ id src, Frame.sending id src ∉ s.frames
  returned : ∀ i, i < s.calls.length → i ∈ s.returned ∨ ∃ u, OnCaller s u i

variable [DecidableEq τ] {s s' : System τ} {a : Action τ}

theorem any_sendInLoop {p : Payload} {w : WriteResult} {c : TcpConnection} {due : Bool}
    {conn : TcpConnection} (h : conn.sendInLoop p w = some (c, due)) :
    ((conn.sendInLoop p w).any fun r => r.2) =
      (conn.completesDirectly p w && conn.writeCompleteCallback) := by
  rw [h, ← (sendInLoop_due h).1]
  rfl

/-- A step that returns runs the callback inside `SendInLoop` exactly when it
completes the output there. -/
theorem runsInside_eq (hs : s.step a = some s') :
    s.runsInside a = (s.completesDirectly a && s.conn.writeCompleteCallback) := by
  unfold runsInside completesDirectly
  cases a with
  | ownSend src w =>
      simp only [step] at hs
      split at hs
      · unfold ownSend at hs
        by_cases hstate : s.conn.state = .kConnected
        · rw [if_pos hstate] at hs
          obtain ⟨p, hp, hrest⟩ := Option.bind_eq_some_iff.1 hs
          obtain ⟨r, hr, -⟩ := Option.map_eq_some_iff.1 hrest
          obtain ⟨c, hc, -⟩ := runSend_eq_some hr
          simpa [sends, hstate, hp] using any_sendInLoop hc
        · simp [sends, hstate]
      · cases hs
  | runFunctor w junk =>
      simp only [step] at hs
      split at hs
      · rename_i f rest _ hpc
        cases f with
        | sendInLoop id r =>
            obtain ⟨c, due, frames, hc, -⟩ := runFunctor_send hs
            simpa [sends, hpc] using any_sendInLoop hc
        | shutdownInLoop => simp [sends, hpc]
        | writeComplete => simp [sends, hpc]
        | connectionDestroyed => simp [sends, hpc]
      · cases hs
  | _ => rfl

/-! ## The pending functors -/

omit [DecidableEq τ] in
theorem runFunctor_loop {w : WriteResult} {junk : Payload} {f : Functor}
    (h : s.runFunctor w junk f = some s') : s'.loop = s.loop := by
  rcases runFunctor_cases h with ⟨id, r, rfl⟩ | ⟨-, rfl⟩ | ⟨-, frames, -, rfl⟩
  · obtain ⟨c, due, frames, -, -, rfl⟩ := runFunctor_send h
    rfl
  · rfl
  · rfl

/-- A draining `HandleWrite` queues one callback, a pending one that is started leaves. -/
theorem queued_callbacks (hw : s.conn.outputBuffer.WellFormed) (hs : s.step a = some s') :
    s'.loop.queued.count .writeComplete + (s.runsPending a).toNat =
      s.loop.queued.count .writeComplete +
        (s.drains a && s.conn.writeCompleteCallback).toNat := by
  have hqueue := (step_views hs).queue
  cases a with
  | handleWrite w =>
      simp only [step] at hs
      split at hs
      · obtain ⟨⟨c, due⟩, hc, rfl⟩ := Option.map_eq_some_iff.1 hs
        obtain ⟨hdue, -⟩ := handleWrite_due hw hc
        simp only [drains, runsPending, ← hdue]
        cases due with
        | true => simp
        | false => simp
      · cases hs
  | runFunctor w junk =>
      simp only [step] at hs
      split at hs
      · rename_i f rest _ hpc
        have hpop := EventLoop.queued_running hpc
        rw [hpop, runFunctor_loop hs]
        cases f with
        | writeComplete => simp [drains, runsPending, hpc]
        | sendInLoop id r => simp [drains, runsPending, hpc]
        | shutdownInLoop => simp [drains, runsPending, hpc]
        | connectionDestroyed => simp [drains, runsPending, hpc]
      · cases hs
  | _ =>
      cases hqueue with
      | same _ hq => simp [drains, runsPending, hq]
      | push _ f hf hq =>
          cases hf <;> simp [drains, runsPending, hq]

omit [DecidableEq τ] in
theorem callback_step (hw : s.conn.outputBuffer.WellFormed) (hm : ConnMove s s' a) :
    s'.conn.writeCompleteCallback = s.conn.writeCompleteCallback := by
  have hshut : ∀ c : TcpConnection,
      c.shutdownInLoop.writeCompleteCallback = c.writeCompleteCallback := by
    intro c
    unfold shutdownInLoop
    split
    · rfl
    · rfl
  cases hm with
  | still _ b hconn _ _ _ => rw [hconn]
  | send _ id p w c due b _ hsend hconn _ _ _ =>
      rw [hconn]
      exact (sendInLoop_due hsend).2
  | shutdown _ _ _ _ hconn _ _ _ => rw [hconn, hshut]
  | ownShutDown _ hconn _ _ _ =>
      rw [hconn, shutDown, hshut]
      rfl
  | setState t hconn _ _ _ =>
      rw [hconn]
      rfl
  | drain w c due hwrite hconn _ _ _ =>
      rw [hconn]
      exact (handleWrite_due hw hwrite).2
  | close _ b frames hs' =>
      rw [hs']
      rfl

/-! ## The calls of `Send` -/

omit [DecidableEq τ] in
theorem ownSend_returns {src : Source} {w : WriteResult} (h : s.ownSend src w = some s')
    (hdirect : s.completesDirectly (.ownSend src w) = false) :
    s' = s ∨ ∃ p, s'.frames = s.frames ∧ s'.callers = s.callers ∧
      s'.returned = s.returned ++ [s.calls.length] ∧ s'.calls = s.calls ++ [p] := by
  unfold ownSend at h
  by_cases hstate : s.conn.state = .kConnected
  · rw [if_pos hstate] at h
    obtain ⟨p, hp, hrest⟩ := Option.bind_eq_some_iff.1 h
    obtain ⟨r, hr, rfl⟩ := Option.map_eq_some_iff.1 hrest
    obtain ⟨c, hc, hr1⟩ := runSend_eq_some hr
    have hnot : s.conn.completesDirectly p w = false := by
      simpa [completesDirectly, sends, hstate, hp] using hdirect
    have hdue : r.2 = false := by
      rw [(sendInLoop_due hc).1]
      show (s.conn.completesDirectly p w && _) = false
      rw [hnot, Bool.false_and]
    right
    obtain ⟨mem, b, -, hframe⟩ := finishSend_frame r.1 s.calls.length src
    rw [if_neg (by simp [hdue]), hframe, hr1]
    exact ⟨p, rfl, rfl, rfl, rfl⟩
  · rw [if_neg hstate] at h
    cases h
    exact Or.inl rfl

theorem onCaller_step {u : τ} {i : Nat} (hm : CallerMove s s' a) (h : OnCaller s u i) :
    OnCaller s' u i ∨ i ∈ s'.returned := by
  have hother : ∀ {t : τ} {pc : Caller}, s'.callers = Function.update s.callers t pc →
      (u = t → OnCaller s' u i ∨ i ∈ s'.returned) → OnCaller s' u i ∨ i ∈ s'.returned := by
    intro t pc hcallers hself
    by_cases hut : u = t
    · exact hself hut
    · left
      unfold OnCaller
      rw [hcallers, Function.update_of_ne hut]
      exact h
  have hidle : ∀ {pc : Caller}, s.callers u = pc → (∀ j r temp, pc ≠ .sendQueue j r temp) →
      (∀ j temp, pc ≠ .sendReturn j temp) → OnCaller s' u i ∨ i ∈ s'.returned := by
    intro pc hpc hqueue hreturn
    rcases h with ⟨r, temp, hu⟩ | ⟨temp, hu⟩
    · exact absurd (hpc.symm.trans hu) (hqueue i r temp)
    · exact absurd (hpc.symm.trans hu) (hreturn i temp)
  cases hm with
  | same _ hcallers _ _ _ _ _ =>
      left
      unfold OnCaller
      rw [hcallers]
      exact h
  | ownSend src w hsent =>
      obtain ⟨_, _, _, _, _, _, _, _, _, _, _, rfl⟩ := hsent
      exact Or.inl h
  | sendCheck t src p mem r temp hout _ _ _ hs' =>
      subst hs'
      apply hother rfl
      rintro rfl
      exact hidle hout (by simp) (by simp)
  | sendQueue t id r temp hpc hs' =>
      subst hs'
      apply hother rfl
      rintro rfl
      left
      right
      rcases h with ⟨r', temp', hu⟩ | ⟨temp', hu⟩
      · rw [hpc] at hu
        cases hu
        exact ⟨temp, by simp [setCaller]⟩
      · rw [hpc] at hu
        cases hu
  | sendReturn t id temp hpc hs' =>
      subst hs'
      apply hother rfl
      rintro rfl
      right
      rcases h with ⟨r', temp', hu⟩ | ⟨temp', hu⟩
      · rw [hpc] at hu
        cases hu
      · rw [hpc] at hu
        cases hu
        simp [setCaller]
  | shutCheck t hout _ hs' =>
      subst hs'
      apply hother rfl
      rintro rfl
      exact hidle hout (by simp) (by simp)
  | shutSet t hpc hs' =>
      subst hs'
      apply hother rfl
      rintro rfl
      exact hidle hpc (by simp) (by simp)
  | shutQueue t hpc hs' =>
      subst hs'
      apply hother rfl
      rintro rfl
      exact hidle hpc (by simp) (by simp)
  | _ =>
      subst_vars
      exact Or.inl h

/-- A call of `Send` that a step adds is on another thread, or of the loop thread. -/
theorem calls_step {i : Nat} (hm : CallerMove s s' a) (hown : ∀ src w, a ≠ .ownSend src w)
    (hi : i < s'.calls.length) : i < s.calls.length ∨ ∃ u, OnCaller s' u i := by
  cases hm with
  | same _ _ _ hcalls _ _ _ =>
      rw [hcalls] at hi
      exact Or.inl hi
  | ownSend src w _ => exact absurd rfl (hown src w)
  | sendCheck t src p mem r temp _ _ _ _ hs' =>
      subst hs'
      by_cases hold : i < s.calls.length
      · exact Or.inl hold
      · have hnew : i = s.calls.length := by
          simp only [setCaller, List.length_append, List.length_singleton] at hi
          omega
        exact Or.inr ⟨t, Or.inl ⟨r, temp, by simp [setCaller, hnew]⟩⟩
  | _ =>
      subst_vars
      exact Or.inl hi

theorem SendsReturn.step (h : SendsReturn s) (hs : s.step a = some s')
    (hdirect : s.completesDirectly a = false) : SendsReturn s' := by
  have hm := (step_views hs).callers
  by_cases hown : ∃ src w, a = .ownSend src w
  · obtain ⟨src, w, rfl⟩ := hown
    simp only [System.step] at hs
    split at hs
    · rcases ownSend_returns hs hdirect with rfl | ⟨p, hframes, hcallers, hreturned, hcalls⟩
      · exact h
      constructor
      · rw [hframes]
        exact h.sending
      · intro i hi
        rw [hreturned, List.mem_append, List.mem_singleton]
        by_cases hold : i < s.calls.length
        · rcases h.returned i hold with hret | ⟨u, hu⟩
          · exact Or.inl (Or.inl hret)
          · refine Or.inr ⟨u, ?_⟩
            unfold OnCaller
            rw [hcallers]
            exact hu
        · rw [hcalls, List.length_append, List.length_singleton] at hi
          exact Or.inl (Or.inr (by omega))
    · cases hs
  · have hne : ∀ src w, a ≠ .ownSend src w := fun src w he => hown ⟨src, w, he⟩
    constructor
    · intro id src hmem
      cases hm with
      | same _ _ _ _ _ _ hnew => exact h.sending id src (hnew id src hmem)
      | ownSend src w _ => exact hne src w rfl
      | finish j src' rest mem b hframes _ _ =>
          exact h.sending j src' (by rw [hframes]; exact List.mem_cons_self)
      | _ =>
          subst_vars
          exact h.sending id src hmem
    · intro i hi
      rcases calls_step hm hne hi with hold | hnew
      · rcases h.returned i hold with hret | ⟨u, hu⟩
        · exact Or.inl ((returned_mono hm).subset hret)
        · rcases onCaller_step hm hu with hu' | hret
          · exact Or.inr ⟨u, hu'⟩
          · exact Or.inl hret
      · exact Or.inr hnew

/-! ## The watched run -/

/-- A run with the number of times the output became fully written and the
callback was started, from the pending functors and inside a `SendInLoop`. -/
structure Watched (τ : Type) where
  sys : System τ
  completed : Nat
  ranPending : Nat
  ranInside : Nat

def Watched.step (d : Watched τ) (a : Action τ) : Option (Watched τ) :=
  (d.sys.step a).map fun s' =>
    { sys := s'
      completed := d.completed + (d.sys.completesDirectly a || d.sys.drains a).toNat
      ranPending := d.ranPending + (d.sys.runsPending a).toNat
      ranInside := d.ranInside + (d.sys.runsInside a).toNat }

def watched (τ : Type) [DecidableEq τ] : Machine (Watched τ) (Action τ) where
  start d := Initial d.sys ∧ d.sys.conn.writeCompleteCallback = true ∧
    d.completed = 0 ∧ d.ranPending = 0 ∧ d.ranInside = 0
  step := Watched.step

/-- The callback was started once for every completion whose functor has run,
never inside a `SendInLoop`, and no `Send` waits for it. -/
structure Deferred (d : Watched τ) : Prop where
  outside : d.ranInside = 0
  once : d.completed = d.ranPending + d.sys.loop.queued.count .writeComplete
  returns : SendsReturn d.sys

/-- No direct write of a `SendInLoop` takes all of the data. -/
def NeverDirect (d : Watched τ) (a : Action τ) : Prop := d.sys.completesDirectly a = false

instance (d : Watched τ) (a : Action τ) : Decidable (NeverDirect d a) := instDecidableEqBool _ _

structure WatchedInv (d : Watched τ) : Prop where
  deferred : Deferred d
  wellFormed : d.sys.conn.outputBuffer.WellFormed
  callback : d.sys.conn.writeCompleteCallback = true

theorem WatchedInv.step {d d' : Watched τ} (h : WatchedInv d) (hg : NeverDirect d a)
    (hs : d.step a = some d') : WatchedInv d' := by
  obtain ⟨s', hs', rfl⟩ := Option.map_eq_some_iff.1 hs
  obtain ⟨⟨houtside, honce, hreturns⟩, hw, hcallback⟩ := h
  have hconn := (step_views hs').conn
  have hcount := queued_callbacks hw hs'
  have hinside := runsInside_eq hs'
  have hnot : d.sys.completesDirectly a = false := hg
  rw [hcallback, Bool.and_true] at hcount
  rw [hnot, Bool.false_and] at hinside
  refine ⟨⟨?_, ?_, hreturns.step hs' hg⟩, hconn.wellFormed hw, ?_⟩
  · simp [houtside, hinside]
  · simp only [hnot, Bool.false_or]
    omega
  · rw [callback_step hw hconn, hcallback]

theorem WatchedInv.of_reach {d : Watched τ} (h : (watched τ).Reach NeverDirect d) :
    WatchedInv d := by
  apply h.invariant
  · rintro d ⟨hstart, hcallback, hcompleted, hpending, hinside⟩
    have hw := (StreamInv.initial hstart).wellFormed
    obtain ⟨_, _, hqueue, hframes, _, _, hcalls, _⟩ := hstart
    refine ⟨⟨hinside, ?_, ?_, ?_⟩, hw, hcallback⟩
    · rw [hcompleted, hpending, hqueue]
      rfl
    · intro id src hmem
      rw [hframes] at hmem
      simp at hmem
    · intro i hi
      rw [hcalls] at hi
      exact absurd hi (Nat.not_lt_zero i)
  · intro d a d' hI hg hs
    exact hI.step hg hs

/-- In every run in which no `SendInLoop` completes the output by its direct
write, whatever the callback does: each completion is followed by one run of
the callback, from the pending functors, and every `Send` has returned. From
every state of such a run a step keeps this exactly when it meets the condition. -/
theorem write_complete_deferred (d : Watched τ) (h : (watched τ).Reach NeverDirect d) :
    Deferred d ∧ ∀ a d', d.step a = some d' → (Deferred d' ↔ NeverDirect d a) := by
  have hI := WatchedInv.of_reach h
  refine ⟨hI.deferred, fun a d' hs => ⟨?_, fun hg => (hI.step hg hs).deferred⟩⟩
  intro hdeferred
  obtain ⟨s', hs', rfl⟩ := Option.map_eq_some_iff.1 hs
  have hnone : (d.sys.runsInside a).toNat = 0 := by
    have := hdeferred.outside
    simp only at this
    omega
  have hinside := runsInside_eq hs'
  rw [hI.callback, Bool.and_true] at hinside
  show d.sys.completesDirectly a = false
  rw [← hinside]
  simpa using hnone

theorem threeBytes_fits : ([1, 2, 3] : List Byte).length ≤ ByteVector.maxSize := by decide

def threeBytes : Payload := ⟨[1, 2, 3], threeBytes_fits⟩

def watchedStart : Option (Watched Unit) := (established true).map fun s => ⟨s, 0, 0, 0⟩

theorem watchedStart_start {d : Watched Unit} (h : watchedStart = some d) :
    (watched Unit).start d := by
  obtain ⟨s, hs, rfl⟩ := Option.map_eq_some_iff.1 h
  refine ⟨established_initial true hs, ?_, rfl, rfl, rfl⟩
  obtain ⟨c, hc, rfl⟩ := Option.map_eq_some_iff.1 hs
  obtain ⟨b, -, rfl⟩ := Option.map_eq_some_iff.1 hc
  rfl

/-- A short direct write, the rest by `HandleWrite`, and its callback in the next pass. -/
theorem write_complete_deferred_short :
    ∃ d : Watched Unit, Deferred d ∧ d.completed = 1 ∧ d.ranPending = 1 := by
  obtain ⟨d₀, hd₀⟩ : ∃ d, watchedStart = some d := ⟨_, rfl⟩
  have hstart : (watched Unit).Reach NeverDirect d₀ := .start (watchedStart_start hd₀)
  have hrun : ((watched Unit).runGuarded NeverDirect d₀
      [.alloc (.chars threeBytes), .ownSend (.string 0) (.wrote 1), .resume,
        .handleWrite (.wrote 2), .loop .doPendingFunctors, .loop .swapFunctors,
        .runFunctor (.wrote 0) threeBytes]).any
      (fun d => d.completed == 1 && d.ranPending == 1) = true := by
    cases hd₀
    decide +kernel
  obtain ⟨d, hreach, htest⟩ := Machine.Reach.of_test (watched Unit) NeverDirect
    (fun d => d.completed == 1 && d.ranPending == 1) _ hstart hrun
  simp only [Bool.and_eq_true, beq_iff_eq] at htest
  exact ⟨d, (write_complete_deferred d hreach).1, htest.1, htest.2⟩

/-! ## A callback that sends again -/

def isSending : Frame → Bool
  | .sending _ _ => true
  | _ => false

/-- User code on an idle connection whose callback sends the string at `addr` again. -/
structure Resends (s : System τ) (addr : Nat) (p : Payload) : Prop where
  user : s.inUserCode = true
  connected : s.conn.state = .kConnected
  direct : s.conn.writesDirectly = true
  callback : s.conn.writeCompleteCallback = true
  string : s.mem.get addr = some (.chars p)

omit [DecidableEq τ] in
/-- One more `Send` waits for the callback, which can send again. -/
theorem Resends.ownSend {addr : Nat} {p : Payload} (h : Resends s addr p) :
    ∃ s', s.ownSend (.string addr) (.wrote p.data.length) = some s' ∧ Resends s' addr p ∧
      s'.frames = .callback :: .sending s.calls.length (.string addr) :: s.frames ∧
      s'.returned = s.returned := by
  obtain ⟨huser, hconnected, hdirect, hcallback, hstring⟩ := h
  have hsend : s.conn.sendInLoop p (.wrote p.data.length) = some (s.conn.accept p.data, true) := by
    unfold sendInLoop
    rw [if_neg (by rw [hconnected]; decide), if_pos hdirect]
    simp [bufferRest, hcallback]
  let s' : System τ := { s with
    conn := s.conn.accept p.data
    calls := s.calls ++ [p]
    entered := s.entered ++ [(s.calls.length, p)]
    frames := .callback :: .sending s.calls.length (.string addr) :: s.frames }
  have hstep : s.ownSend (.string addr) (.wrote p.data.length) = some s' := by
    unfold System.ownSend
    rw [if_pos hconnected]
    simp [payload, hstring, runSend, hsend, hconnected, s']
  refine ⟨s', hstep, ⟨?_, hconnected, hdirect, hcallback, hstring⟩, rfl, rfl⟩
  simp only [inUserCode, Bool.and_eq_true] at huser
  simp [inUserCode, huser.1, s']

theorem exists_resending (k : Nat) : ∃ d : Watched Unit,
    (watched Unit).Reach (fun _ _ => True) d ∧ (d.sys.frames.filter isSending).length = k ∧
      d.sys.returned = [] ∧ Resends d.sys 0 threeBytes := by
  induction k with
  | zero =>
      obtain ⟨d₀, hd₀⟩ : ∃ d, watchedStart = some d := ⟨_, rfl⟩
      have hstart : (watched Unit).Reach (fun _ _ => True) d₀ := .start (watchedStart_start hd₀)
      have hstep : (watched Unit).step d₀ (.alloc (.chars threeBytes)) =
          some { d₀ with sys := { d₀.sys with mem := d₀.sys.mem.alloc (.chars threeBytes) } } := by
        cases hd₀
        rfl
      refine ⟨_, .step hstart trivial hstep, ?_⟩
      cases hd₀
      exact ⟨rfl, rfl, ⟨rfl, rfl, by decide +kernel, rfl, rfl⟩⟩
  | succ k ih =>
      obtain ⟨d, hreach, hcount, hreturned, hresends⟩ := ih
      obtain ⟨s', hs', hagain, hframes, hsame⟩ := hresends.ownSend
      have hsys : d.sys.step (.ownSend (.string 0) (.wrote threeBytes.data.length)) = some s' := by
        simp only [System.step, if_pos hresends.user]
        exact hs'
      refine ⟨_, .step hreach trivial (Option.map_eq_some_iff.2 ⟨s', hsys, rfl⟩), ?_, ?_, hagain⟩
      · rw [hframes]
        simp [List.filter_cons, isSending, hcount]
      · rw [hsame, hreturned]

/-- When the kernel keeps accepting everything, a callback that sends again nests
`Send`s without bound, none of which returns. -/
theorem sends_nest (k : Nat) : ∃ d : Watched Unit, (watched Unit).Reach (fun _ _ => True) d ∧
    ¬ Deferred d ∧ (d.sys.frames.filter isSending).length = k + 1 ∧ d.sys.returned = [] := by
  obtain ⟨d, hreach, hcount, hreturned, -⟩ := exists_resending (k + 1)
  refine ⟨d, hreach, ?_, hcount, hreturned⟩
  intro hdeferred
  obtain ⟨f, hf⟩ : ∃ f, f ∈ d.sys.frames.filter isSending := by
    apply List.exists_mem_of_length_pos
    omega
  rw [List.mem_filter] at hf
  cases f with
  | sending id src => exact hdeferred.returns.sending id src hf.1
  | callback => exact absurd hf.2 (by simp [isSending])
  | closing => exact absurd hf.2 (by simp [isSending])
  | destroying => exact absurd hf.2 (by simp [isSending])

/-- The callback runs inside the `Send` that completed the output. -/
theorem callback_inside_send :
    ¬ ∀ d : Watched Unit, (watched Unit).Reach (fun _ _ => True) d → Deferred d := by
  intro hclaim
  obtain ⟨d, hreach, hnot, -⟩ := sends_nest 0
  exact hnot (hclaim d hreach)

end System

end MyNetLib.TcpConnection
