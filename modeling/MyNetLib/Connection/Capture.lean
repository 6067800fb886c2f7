import MyNetLib.Connection.Stream

/-! # What a queued `SendInLoop` reads

`std::bind` captures a pointer. Between the capture and the run of the functor
the pointed-to memory belongs to the caller, or is a temporary that dies when
`Send(Buffer*)` returns. As long as nothing changes that memory in between, the
functor reads the payload of its `Send`.
-/

namespace MyNetLib.TcpConnection

open Library Library.ByteVector

/-! ## Regions -/

theorem sub_all (p : Payload) : p.sub 0 p.data.length = some p := by
  have hslice : slice p.data 0 (0 + p.data.length) = p.data := by
    simp [slice]
  rw [Payload.sub, if_pos (by omega), hslice, Payload.of, dif_pos p.fits]

variable {mem mem' : Heap Object} {r : Region} {p : Payload}

theorem Region.read_of_get (h : r.read mem = some p)
    (hget : ∀ x, mem.get r.addr = some x → (∀ b, x ≠ .buffer b) → mem'.get r.addr = some x) :
    r.read mem' = some p := by
  unfold Region.read at h ⊢
  split at h
  · rename_i q hq
    rw [hget _ hq (by simp)]
    exact h
  · rename_i q hq
    rw [hget _ hq (by simp)]
    exact h
  · cases h

theorem Region.read_alloc (h : r.read mem = some p) (x : Object) :
    r.read (mem.alloc x) = some p :=
  Region.read_of_get h fun _ hx _ => Heap.get_alloc hx x

namespace System

/-- Regions never point into a caller's `Buffer`. -/
theorem read_bufferWrite (hwrite : BufferWrite mem mem') (h : r.read mem = some p) :
    r.read mem' = some p := by
  rcases hwrite with rfl | ⟨a, b, b', hb, rfl⟩
  · exact h
  · apply Region.read_of_get h
    intro x hx hnot
    have hne : r.addr ≠ a := by
      intro heq
      rw [heq, hb] at hx
      cases hx
      exact hnot b rfl
    rw [Heap.get_put_of_ne hne]
    exact hx

variable {τ : Type} {s s' : System τ} {a : Action τ} {id : Nat}

/-- What `std::bind` captures reads as the payload of the call, and the capture
disturbs no other region. -/
theorem capture_read {src : Source} {temp : Option Nat} (hp : s.payload src = some p)
    (hcap : s.capture p src = some (mem, r, temp)) :
    r.read mem = some p ∧ ∀ (r' : Region) (q : Payload), r'.read s.mem = some q →
      r'.read mem = some q := by
  cases src with
  | string addr =>
      cases hcap
      simp only [payload] at hp
      split at hp <;> cases hp
      rename_i hget
      refine ⟨?_, fun _ _ h => h⟩
      simp only [Region.read, hget]
      exact sub_all p
  | array addr offset len =>
      cases hcap
      simp only [payload] at hp
      split at hp
      · rename_i q hget
        refine ⟨?_, fun _ _ h => h⟩
        simp only [Region.read, hget]
        exact hp
      · cases hp
  | buffer addr =>
      simp only [capture] at hcap
      split at hcap
      · rename_i b hb
        cases hcap
        constructor
        · simp only [Region.read, Heap.get_alloc_next]
          exact sub_all p
        · intro r' q hq
          apply Region.read_alloc
          exact read_bufferWrite (Or.inr ⟨addr, b, _, hb, rfl⟩) hq
      · cases hcap
  | input => cases hcap

theorem getElem?_of_prefix {calls calls' : List Payload} (h : calls <+: calls')
    (hcall : calls[id]? = some p) : calls'[id]? = some p := by
  obtain ⟨rest, rfl⟩ := h
  obtain ⟨hlt, _⟩ := List.getElem?_eq_some_iff.1 hcall
  rw [List.getElem?_append_left hlt]
  exact hcall

/-! ## Messages in flight -/

def InFlight (s : System τ) (id : Nat) (r : Region) : Prop :=
  (∃ t temp, s.callers t = .sendQueue id r temp) ∨ .sendInLoop id r ∈ s.loop.queued

/-- The memory after the callers' part of a step: a write, a release, or the end
of the expression that made a temporary. -/
def memoryAfter (s : System τ) : Action τ → Heap Object
  | .overwrite addr p => (overwrite s.mem addr p).getD s.mem
  | .release addr => (release s.mem addr).getD s.mem
  | .sendReturn t =>
      match s.callers t with
      | .sendReturn _ temp => destroyTemp s.mem temp
      | _ => s.mem
  | _ => s.mem

/-- The step changes no byte that a message in flight points to. -/
def KeepsInFlight (s : System τ) (a : Action τ) : Prop :=
  ∀ id r, InFlight s id r → r.read (s.memoryAfter a) = r.read s.mem

def CaptureInv (s : System τ) : Prop :=
  ∀ id r, InFlight s id r → ∃ p, s.calls[id]? = some p ∧ r.read s.mem = some p

theorem CaptureInv.run {f : Functor} {rest : List Functor} (h : CaptureInv s)
    (hpc : s.loop.pc = .running (f :: rest)) (hf : f = .sendInLoop id r) :
    ∃ p, s.calls[id]? = some p ∧ r.read s.mem = some p := by
  apply h id r
  right
  rw [EventLoop.queued_running hpc, hf]
  exact List.mem_cons_self

variable [DecidableEq τ]

theorem calls_mono (hm : CallerMove s s' a) : s.calls <+: s'.calls := by
  cases hm with
  | same _ _ _ hcalls _ _ _ => rw [hcalls]
  | ownSend src w hsent =>
      obtain ⟨_, _, _, _, _, _, _, _, _, _, _, rfl⟩ := hsent
      exact List.prefix_append _ _
  | sendCheck t src p mem r temp _ _ _ _ hs' =>
      rw [hs']
      exact List.prefix_append _ _
  | _ =>
      subst_vars
      exact List.prefix_rfl

theorem read_step (hm : CallerMove s s' a) (hkeep : KeepsInFlight s a)
    (hf : InFlight s id r) (hr : r.read s.mem = some p) : r.read s'.mem = some p := by
  have hafter := (hkeep id r hf).trans hr
  cases hm with
  | same _ _ hmem _ _ _ _ =>
      rw [hmem]
      exact hr
  | ownSend src w hsent =>
      obtain ⟨_, _, _, _, _, _, _, _, _, hwrite, _, rfl⟩ := hsent
      exact read_bufferWrite hwrite hr
  | finish _ _ _ _ _ _ hwrite hs' =>
      rw [hs']
      exact read_bufferWrite hwrite hr
  | sendCheck t src q mem r' temp _ _ hp hcap hs' =>
      rw [hs']
      exact (capture_read hp hcap).2 r p hr
  | sendReturn t i temp hpc hs' =>
      rw [hs']
      simpa only [memoryAfter, hpc, setCaller] using hafter
  | alloc x hs' =>
      rw [hs']
      exact Region.read_alloc hr x
  | overwrite addr q mem hmem hs' =>
      rw [hs']
      simpa only [memoryAfter, hmem, Option.getD_some] using hafter
  | release addr mem hmem hs' =>
      rw [hs']
      simpa only [memoryAfter, hmem, Option.getD_some] using hafter
  | _ =>
      subst_vars
      exact hr

/-- Where a step can take a thread. -/
inductive Moved (s s' : System τ) (u : τ) : Prop
  | stays : s'.callers u = s.callers u → Moved s s' u
  | captured (id : Nat) (r : Region) (temp : Option Nat) (p : Payload) :
      s'.callers u = .sendQueue id r temp → s'.calls[id]? = some p → r.read s'.mem = some p →
      Moved s s' u
  | queued (id : Nat) (r : Region) (temp : Option Nat) : s.callers u = .sendQueue id r temp →
      s'.callers u = .sendReturn id temp → .sendInLoop id r ∈ s'.loop.queued → Moved s s' u
  | elsewhere (pc : Caller) : s'.callers u = pc → pc = .outside ∨ pc = .shutSet ∨ pc = .shutQueue →
      Moved s s' u

theorem moved_of_callerMove (hm : CallerMove s s' a) (u : τ) : Moved s s' u := by
  have hother : ∀ {t : τ} {pc : Caller}, s'.callers = Function.update s.callers t pc →
      (u = t → Moved s s' u) → Moved s s' u := by
    intro t pc hcallers hself
    by_cases hut : u = t
    · exact hself hut
    · exact .stays (by rw [hcallers, Function.update_of_ne hut])
  have helsewhere : ∀ {t : τ} {pc : Caller}, s'.callers = Function.update s.callers t pc →
      pc = .outside ∨ pc = .shutSet ∨ pc = .shutQueue → Moved s s' u := by
    intro t pc hcallers hpc
    apply hother hcallers
    rintro rfl
    exact .elsewhere pc (by rw [hcallers, Function.update_self]) hpc
  cases hm with
  | same _ hcallers _ _ _ _ _ => exact .stays (by rw [hcallers])
  | ownSend src w hsent =>
      obtain ⟨_, _, _, _, _, _, _, _, _, _, _, rfl⟩ := hsent
      exact .stays rfl
  | sendCheck t src p mem r temp _ _ hp hcap hs' =>
      subst hs'
      apply hother rfl
      rintro rfl
      exact .captured s.calls.length r temp p (by simp [setCaller]) (by simp [setCaller])
        (capture_read hp hcap).1
  | sendQueue t id r temp hpc hs' =>
      subst hs'
      apply hother rfl
      rintro rfl
      exact .queued id r temp hpc (by simp [setCaller]) (by simp [setCaller])
  | sendReturn t id temp _ hs' =>
      subst hs'
      exact helsewhere rfl (by simp)
  | shutCheck t _ _ hs' =>
      subst hs'
      exact helsewhere rfl (by simp)
  | shutSet t _ hs' =>
      subst hs'
      exact helsewhere rfl (by simp)
  | shutQueue t _ hs' =>
      subst hs'
      exact helsewhere rfl (by simp)
  | _ =>
      subst_vars
      exact .stays rfl

/-- Only the test of a `Send` on another thread puts a new message in flight. -/
theorem inFlight_step (hv : Views s s' a) (h : InFlight s' id r) :
    InFlight s id r ∨ ∃ p, s'.calls[id]? = some p ∧ r.read s'.mem = some p := by
  rcases h with ⟨u, temp, hu⟩ | hmem
  · cases moved_of_callerMove hv.callers u with
    | stays heq =>
        rw [heq] at hu
        exact Or.inl (Or.inl ⟨u, temp, hu⟩)
    | captured _ _ _ p hpc hcall hread =>
        rw [hpc] at hu
        cases hu
        exact Or.inr ⟨p, hcall, hread⟩
    | queued _ _ _ _ hpc _ =>
        rw [hpc] at hu
        cases hu
    | elsewhere pc hpc hpcs =>
        rw [hpc] at hu
        subst hu
        simp at hpcs
  · left
    cases hv.queue with
    | same _ hq =>
        rw [hq] at hmem
        exact Or.inr hmem
    | push _ f hf hq =>
        rw [hq, List.mem_append, List.mem_singleton] at hmem
        rcases hmem with hmem | rfl
        · exact Or.inr hmem
        · cases hf with
          | sendInLoop t _ _ temp hpc => exact Or.inl ⟨t, temp, hpc⟩
    | run w junk f rest _ hq _ =>
        right
        rw [hq]
        exact List.mem_cons_of_mem _ hmem

theorem CaptureInv.step (h : CaptureInv s) (hkeep : KeepsInFlight s a)
    (hs : s.step a = some s') : CaptureInv s' := by
  have hv := step_views hs
  intro id r hf
  rcases inFlight_step hv hf with hold | hnew
  · obtain ⟨p, hcall, hread⟩ := h id r hold
    exact ⟨p, getElem?_of_prefix (calls_mono hv.callers) hcall,
      read_step hv.callers hkeep hold hread⟩
  · exact hnew

theorem captureInv_of_reach {guard : System τ → Action τ → Prop}
    (hguard : ∀ s a, guard s a → KeepsInFlight s a) (h : (machine τ).Reach guard s) :
    CaptureInv s := by
  apply h.invariant
  · intro s hs id r hf
    obtain ⟨_, _, hqueue, _, hcallers, _⟩ := hs
    rcases hf with ⟨t, temp, ht⟩ | hmem
    · rw [hcallers t] at ht
      cases ht
    · rw [hqueue] at hmem
      cases hmem
  · intro s a s' hI hg hs
    exact hI.step (hguard s a hg) hs

/-- In every run whose steps change no byte a message in flight points to: a
queued `SendInLoop` is `SendInLoop` of the payload its `Send` was called with,
so that, unless it gives up or the write faults, exactly that payload is added
to the stream. -/
theorem queued_send_carries_payload (s s' : System τ) (id : Nat) (r : Region)
    (rest : List Functor) (w : WriteResult) (junk : Payload)
    (h : (machine τ).Reach KeepsInFlight s)
    (hpc : s.loop.pc = .running (.sendInLoop id r :: rest))
    (hs : s.step (.runFunctor w junk) = some s') :
    ∃ p due, s.calls[id]? = some p ∧ s.conn.sendInLoop p w = some (s'.conn, due) ∧
      (s.conn.state ≠ .kDisconnected → w.fault = false →
        s'.conn.stream = s.conn.stream ++ p.data) := by
  obtain ⟨p, hcall, hread⟩ := (captureInv_of_reach (fun _ _ hg => hg) h).run hpc rfl
  have hw := wellFormed_of_reach h
  simp only [step] at hs
  split at hs
  · rename_i f rest' _ hpc'
    rw [hpc] at hpc'
    cases hpc'
    obtain ⟨c, due, frames, hsend, _, rfl⟩ := runFunctor_send hs
    simp only [hread, Option.getD_some] at hsend
    refine ⟨p, due, hcall, hsend, ?_⟩
    intro hstate hfault
    rcases sendInLoop_cases hw hsend with ⟨_, hgive⟩ | ⟨_, hext, _⟩
    · rcases hgive with hd | hd
      · exact absurd hd hstate
      · rw [hfault] at hd
        cases hd
    · exact hext.stream
  · cases hs

/-- A string sent by another thread, up to the swap of the functors; `between` is
what happens after its functor is queued. -/
def stringSent (between : List (Action Unit)) : List (Action Unit) :=
  [.alloc (.chars ⟨[1, 2, 3], by decide⟩), .sendCheck () (.string 0), .sendQueue ()] ++ between ++
    [.resume, .loop .doPendingFunctors, .loop .swapFunctors]

/-- The loop runs the functor while the caller is still inside `Send`. -/
theorem queued_send_carries_payload_string :
    ∃ s₀ s s', established false = some s₀ ∧ (machine Unit).run s₀ (stringSent []) = some s ∧
      s.step (.runFunctor (.wrote 3) ⟨[9, 9, 9], by decide⟩) = some s' ∧
      ∃ p due, s.calls[0]? = some p ∧ s.conn.sendInLoop p (.wrote 3) = some (s'.conn, due) := by
  have hrun : ∃ s₀ s s', established false = some s₀ ∧
      (machine Unit).run s₀ (stringSent []) = some s ∧
      s.step (.runFunctor (.wrote 3) ⟨[9, 9, 9], by decide⟩) = some s' ∧
      s.loop.pc = .running [.sendInLoop 0 ⟨0, 0, 3⟩] := ⟨_, _, _, rfl, rfl, rfl, rfl⟩
  obtain ⟨s₀, s, s', hs₀, hs, hs', hpc⟩ := hrun
  have h₀ : (machine Unit).Reach KeepsInFlight s₀ := .start (established_initial false hs₀)
  have hreach := h₀.of_run _ (by simp [stringSent, KeepsInFlight, memoryAfter]) hs
  obtain ⟨p, due, hcall, hsend, _⟩ := queued_send_carries_payload s s' 0 _ _ _ _ hreach hpc hs'
  exact ⟨s₀, s, s', hs₀, hs, hs', p, due, hcall, hsend⟩

/-- The caller reuses its string after `Send` returned: the kernel gets the new bytes. -/
theorem overwritten_string_sent :
    ¬ ∀ (s s' : System Unit) (id : Nat) (r : Region) (rest : List Functor) (w : WriteResult)
      (junk : Payload), (machine Unit).Reach (fun _ _ => True) s →
      s.loop.pc = .running (.sendInLoop id r :: rest) →
      s.step (.runFunctor w junk) = some s' →
      ∃ p due, s.calls[id]? = some p ∧ s.conn.sendInLoop p w = some (s'.conn, due) := by
  intro hclaim
  have hrun : ∃ s₀ s s', established false = some s₀ ∧
      (machine Unit).run s₀ (stringSent [.sendReturn (), .overwrite 0 ⟨[9, 9, 9], by decide⟩]) =
        some s ∧
      s.step (.runFunctor (.wrote 3) ⟨[0, 0, 0], by decide⟩) = some s' ∧
      s.loop.pc = .running [.sendInLoop 0 ⟨0, 0, 3⟩] ∧
      s.calls[0]? = some ⟨[1, 2, 3], by decide⟩ ∧ s'.conn.socket.accepted = [9, 9, 9] ∧
      (s.conn.sendInLoop ⟨[1, 2, 3], by decide⟩ (.wrote 3)).map
        (fun c => c.1.socket.accepted) = some [1, 2, 3] :=
    ⟨_, _, _, rfl, rfl, rfl, rfl, rfl, rfl, rfl⟩
  obtain ⟨s₀, s, s', hs₀, hs, hs', hpc, hcalls, haccepted, hpayload⟩ := hrun
  have h₀ : (machine Unit).Reach (fun _ _ => True) s₀ := .start (established_initial false hs₀)
  have hreach := h₀.of_run _ (fun _ _ _ => trivial) hs
  obtain ⟨p, due, hcall, hsend⟩ := hclaim s s' 0 _ _ _ _ hreach hpc hs'
  rw [hcalls] at hcall
  cases hcall
  rw [hsend, Option.map_some, haccepted] at hpayload
  exact absurd hpayload (by decide)

end System

end MyNetLib.TcpConnection
