import MyNetLib.Logging.Conservation

/-! # The backend's spare buffers

After the critical section the backend owes itself one spare, and a second one
when the reserve had to be replaced; it pays them from the vector it has just
written. A replaced reserve means that a buffer was queued, so the vector is
long enough. What can spoil it is the trim in between: it reads the length of
the shared queue, which producers fill again, and then pads the vector.
-/

namespace MyNetLib.AsyncLogging

open Library

variable {size : Nat}

/-- What the assertions at the loop head ask for. -/
def Ready (s : AsyncLogging size) : Prop :=
  IsEmpty s.newBuffer1 ∧ IsEmpty s.newBuffer2 ∧ s.tempBufferVec = []

/-- The backend is past its critical section and has not refilled its spares. -/
def Pc.inBatch : Pc → Bool
  | .checking | .writing _ | .resizing | .refilling => true
  | _ => false

/-- The spares and the vector between the critical section and the refill. -/
structure Batch (spare1 spare2 : BufferPtr size) (v : List (BufferPtr size)) : Prop where
  taken : spare1 = none
  kept : ∀ b, spare2 = some b → b.data = []
  present : none ∉ v
  one : 1 ≤ v.length
  two : spare2 = none → 2 ≤ v.length

/-! ## The trim and the refill -/

theorem resizeVec_of_le {v : List (BufferPtr size)} {n : Nat} (h : n ≤ v.length) :
    resizeVec v n = v.take n := by
  simp [resizeVec, Nat.sub_eq_zero_of_le h]

/-- A vector that is too short ends with a null after the trim. -/
theorem resizeVec_getLast {v : List (BufferPtr size)} {n : Nat} (h : v.length < n) :
    (resizeVec v n).getLast? = some none := by
  have hpad : n - v.length ≠ 0 := by omega
  simp [resizeVec, List.getLast?_append, List.getLast?_replicate, hpad]

theorem refill_spare (b : FixedBuffer size) (v : List (BufferPtr size)) :
    refill (some b) v = .ok (some b, v) := rfl

theorem refill_none {v : List (BufferPtr size)} (hlen : 1 ≤ v.length) (hsome : none ∉ v) :
    ∃ b, refill none v = .ok (some (FixedBuffer.reset b), v.dropLast) := by
  rcases List.eq_nil_or_concat v with rfl | ⟨w, p, rfl⟩
  · simp at hlen
  · cases p with
    | none => simp at hsome
    | some b => exact ⟨b, by simp [refill]⟩

/-- With enough buffers in the vector both spares are refilled, and empty. -/
theorem Batch.refill {spare1 spare2 : BufferPtr size} {v : List (BufferPtr size)}
    (h : Batch spare1 spare2 v) :
    ∃ b1 b2 v1 v2, AsyncLogging.refill spare1 v = .ok (b1, v1) ∧
      AsyncLogging.refill spare2 v1 = .ok (b2, v2) ∧ IsEmpty b1 ∧ IsEmpty b2 := by
  obtain ⟨b1, h1⟩ := refill_none h.one h.present
  rw [← h.taken] at h1
  cases spare2 with
  | some b2 =>
      exact ⟨_, _, _, _, h1, refill_spare b2 _, ⟨_, rfl, rfl⟩, ⟨b2, rfl, h.kept b2 rfl⟩⟩
  | none =>
      have hlen : 1 ≤ v.dropLast.length := by
        have htwo := h.two rfl
        rw [List.length_dropLast]
        omega
      have hsome : none ∉ v.dropLast := by
        intro hmem
        exact h.present (List.dropLast_subset _ hmem)
      obtain ⟨b2, h2⟩ := refill_none hlen hsome
      exact ⟨_, _, _, _, h1, h2, ⟨_, rfl, rfl⟩, ⟨_, rfl, rfl⟩⟩

theorem Batch.take_two {spare1 spare2 : BufferPtr size} {v : List (BufferPtr size)}
    (h : Batch spare1 spare2 v) (htwo : 2 ≤ v.length) :
    Batch spare1 spare2 (resizeVec v 2) := by
  rw [resizeVec_of_le htwo]
  constructor
  · exact h.taken
  · exact h.kept
  · intro hmem
    exact h.present (List.mem_of_mem_take hmem)
  · rw [List.length_take]
    omega
  · intro _
    rw [List.length_take]
    omega

/-! ## The invariant -/

/-- No batch is larger than the guard in `ThreadFunc` allows. -/
def batchBounded (s : AsyncLogging size) (a : Action size) : Prop :=
  match a with
  | .backend => s.pc = .checking → s.tempBufferVec.length ≤ 25
  | _ => True

theorem batchBounded_of_ne {s : AsyncLogging size} (h : s.pc ≠ .checking) :
    batchBounded s .backend := by
  intro hpc
  exact absurd hpc h

/-- When the backend trims a vector, it has two buffers to keep. -/
def trimKeepsTwo (s : AsyncLogging size) (a : Action size) : Prop :=
  match a with
  | .backend => s.pc = .resizing → 2 < s.bufferToWrite.length → 2 ≤ s.tempBufferVec.length
  | _ => True

instance (s : AsyncLogging size) : (a : Action size) → Decidable (batchBounded s a)
  | .backend => inferInstanceAs (Decidable (s.pc = .checking → s.tempBufferVec.length ≤ 25))
  | .append _ | .start | .stop | .stopReturns => .isTrue trivial

instance (s : AsyncLogging size) : (a : Action size) → Decidable (trimKeepsTwo s a)
  | .backend => inferInstanceAs (Decidable
      (s.pc = .resizing → 2 < s.bufferToWrite.length → 2 ≤ s.tempBufferVec.length))
  | .append _ | .start | .stop | .stopReturns => .isTrue trivial

structure SpareInv (s : AsyncLogging size) : Prop where
  healthy : s.failure = none
  queue : none ∉ s.bufferToWrite
  reserve : s.nextBuffer = none → s.bufferToWrite ≠ []
  fresh : s.pc = .notStarted → s.tempBufferVec = []
  head : s.pc = .head → Ready s
  batch : s.pc.inBatch = true → Batch s.newBuffer1 s.newBuffer2 s.tempBufferVec

theorem SpareInv.new : SpareInv (new : AsyncLogging size) := by
  constructor
  · rfl
  · exact List.not_mem_nil
  · intro h
    cases h
  · intro _
    rfl
  · intro h
    cases h
  · intro h
    cases h

theorem SpareInv.append {s : AsyncLogging size} (hc : ConsInv s) (h : SpareInv s)
    (msg : Msg size) : SpareInv (s.append msg) := by
  obtain ⟨cur, hcur⟩ := hc.current
  obtain ⟨hok, hqueue, hreserve, hfresh, hhead, hbatch⟩ := h
  by_cases hfit : msg.text.length < cur.avail
  · rw [append_of_lt hcur hfit]
    exact ⟨hok, hqueue, hreserve, hfresh, hhead, hbatch⟩
  · rw [append_of_ge hcur (Nat.not_lt.1 hfit)]
    constructor
    · exact hok
    · simpa using hqueue
    · intro _
      simp
    · exact hfresh
    · exact hhead
    · exact hbatch

/-- The second spare leaves only for a reserve that a queued buffer had replaced. -/
theorem SpareInv.swap {s : AsyncLogging size} (hc : ConsInv s) (h : SpareInv s)
    (hpc : s.pc = .locking ∨ s.pc = .waiting) : SpareInv s.swapBuffers := by
  obtain ⟨cur, hcur⟩ := hc.current
  obtain ⟨_, ⟨b2, hb2, he2⟩, htemp⟩ := hc.spares hpc
  constructor
  · exact h.healthy
  · simp [swapBuffers, htemp]
  · intro hnext
    cases hn : s.nextBuffer with
    | none => simp [swapBuffers, hn, hb2] at hnext
    | some b => simp [swapBuffers, hn] at hnext
  · intro hp
    cases hp
  · intro hp
    cases hp
  · intro _
    constructor
    · rfl
    · intro b hb
      cases hn : s.nextBuffer with
      | none => simp [swapBuffers, hn] at hb
      | some _ =>
          simp only [swapBuffers, hn, Option.isSome_some, if_true, hb2] at hb
          cases hb
          exact he2
    · simpa [swapBuffers, hcur] using h.queue
    · simp [swapBuffers]
    · intro hnone
      cases hn : s.nextBuffer with
      | none =>
          have hlen := List.length_pos_of_ne_nil (h.reserve hn)
          simp only [swapBuffers, List.length_append, List.length_singleton]
          omega
      | some b => simp [swapBuffers, hn, hb2] at hnone

/-- Under the two conditions the backend keeps its spares payable and never fails. -/
theorem SpareInv.backend {s s' : AsyncLogging size} (hc : ConsInv s) (h : SpareInv s)
    (hbound : batchBounded s .backend) (htrim : trimKeepsTwo s .backend) (hm : Move s s') :
    SpareInv s' := by
  cases hm with
  | leave _ _ => exact ⟨h.healthy, h.queue, h.reserve, by simp, by simp, by simp [Pc.inBatch]⟩
  | enter _ _ _ => exact ⟨h.healthy, h.queue, h.reserve, by simp, by simp, by simp [Pc.inBatch]⟩
  | wait _ => exact ⟨h.healthy, h.queue, h.reserve, by simp, by simp, by simp [Pc.inBatch]⟩
  | swap hpc => exact h.swap hc hpc
  | check hpc _ =>
      exact ⟨h.healthy, h.queue, h.reserve, by simp, by simp,
        fun _ => h.batch (by rw [hpc]; rfl)⟩
  | write i b hpc _ =>
      exact ⟨h.healthy, h.queue, h.reserve, by simp, by simp,
        fun _ => h.batch (by rw [hpc]; rfl)⟩
  | endWrite i hpc _ =>
      exact ⟨h.healthy, h.queue, h.reserve, by simp, by simp,
        fun _ => h.batch (by rw [hpc]; rfl)⟩
  | resize hpc =>
      have hbatch := h.batch (by rw [hpc]; rfl)
      refine ⟨h.healthy, h.queue, h.reserve, by simp, by simp, fun _ => ?_⟩
      by_cases hlong : 2 < s.bufferToWrite.length
      · simpa only [if_pos hlong] using hbatch.take_two (htrim hpc hlong)
      · simpa only [if_neg hlong] using hbatch
  | refill b1 b2 v1 v2 hpc h1 h2 =>
      obtain ⟨c1, c2, w1, w2, hc1, hc2, he1, he2⟩ := (h.batch (by rw [hpc]; rfl)).refill
      rw [hc1] at h1
      cases h1
      rw [hc2] at h2
      cases h2
      exact ⟨h.healthy, h.queue, h.reserve, by simp, fun _ => ⟨he1, he2, rfl⟩, by simp [Pc.inBatch]⟩
  | fails f hf =>
      exfalso
      cases hf with
      | assertion hpc _ hassert =>
          obtain ⟨⟨b1, h1, e1⟩, ⟨b2, h2, e2⟩, htemp⟩ := h.head hpc
          simp [headAssertions, h1, h2, htemp, FixedBuffer.length, e1, e2] at hassert
      | overload hpc hmany =>
          have := hbound hpc
          omega
      | write i hpc hget =>
          exact (h.batch (by rw [hpc]; rfl)).present (List.mem_of_getElem? hget)
      | refill1 _ hpc h1 =>
          obtain ⟨_, _, _, _, hc1, _, _, _⟩ := (h.batch (by rw [hpc]; rfl)).refill
          rw [hc1] at h1
          cases h1
      | refill2 _ b1 v1 hpc h1 h2 =>
          obtain ⟨_, _, _, _, hc1, hc2, _, _⟩ := (h.batch (by rw [hpc]; rfl)).refill
          rw [hc1] at h1
          cases h1
          rw [hc2] at h2
          cases h2

theorem SpareInv.step {s s' : AsyncLogging size} {a : Action size} (hc : ConsInv s)
    (h : SpareInv s) (hbound : batchBounded s a) (htrim : trimKeepsTwo s a)
    (hs : s.step a = some s') : SpareInv s' := by
  unfold AsyncLogging.step at hs
  split at hs <;> try contradiction
  cases a with
  | append msg =>
      cases hs
      exact h.append hc msg
  | start =>
      dsimp only at hs
      split at hs <;> cases hs
      rename_i hpc
      exact ⟨h.healthy, h.queue, h.reserve, by simp [AsyncLogging.start],
        fun _ => ⟨⟨_, rfl, rfl⟩, ⟨_, rfl, rfl⟩, h.fresh hpc⟩,
        by simp [AsyncLogging.start, Pc.inBatch]⟩
  | backend => exact h.backend hc hbound htrim (backend_move hs)
  | stop =>
      dsimp only at hs
      split at hs <;> cases hs
      exact ⟨h.healthy, h.queue, h.reserve, h.fresh, h.head, h.batch⟩
  | stopReturns =>
      dsimp only at hs
      split at hs <;> cases hs
      exact ⟨h.healthy, h.queue, h.reserve, h.fresh, h.head, h.batch⟩

theorem spareInv_of_reach {s : AsyncLogging size}
    (h : (machine size).Reach (fun s a => batchBounded s a ∧ trimKeepsTwo s a) s) :
    ConsInv s ∧ SpareInv s := by
  apply h.invariant
  · intro s hs
    cases hs
    exact ⟨ConsInv.new, SpareInv.new⟩
  · intro s a s' hI hg hs
    exact ⟨hI.1.step hs, hI.2.step hI.1 hg.1 hg.2 hs⟩

theorem step_of_refill_error {s : AsyncLogging size} {f : Failure} (hok : s.failure = none)
    (hpc : s.pc = .refilling) (hrefill : refill s.newBuffer1 s.tempBufferVec = .error f) :
    s.step .backend = some (s.fail f) := by
  simp [AsyncLogging.step, AsyncLogging.backend, hok, hpc, hrefill]

/-- A trim of a single buffer leaves a null at the end, and the refill dereferences it. -/
theorem refill_fails_after_padding {s : AsyncLogging size} (hok : s.failure = none)
    (htaken : s.newBuffer1 = none) (hpc : s.pc = .resizing) (hlong : 2 < s.bufferToWrite.length)
    (hshort : s.tempBufferVec.length < 2) :
    ∃ s₁ s₂, s.step .backend = some s₁ ∧ s₁.pc = .refilling ∧ s₁.step .backend = some s₂ ∧
      s₂.failure = some .nullBuffer := by
  have hrefill : refill s.newBuffer1 (resizeVec s.tempBufferVec 2) = .error .nullBuffer := by
    simp [AsyncLogging.refill, htaken, resizeVec_getLast hshort]
  have hpad : s.step .backend =
      some { s with tempBufferVec := resizeVec s.tempBufferVec 2, pc := .refilling } := by
    simp [AsyncLogging.step, AsyncLogging.backend, hok, hpc, hlong]
  exact ⟨_, _, hpad, rfl, step_of_refill_error hok rfl hrefill, rfl⟩

/-- In every run in which no batch is above 25 buffers and a trim always finds
two buffers to keep: no iteration fails, and at the loop head both spares are
there and empty and the vector is empty. From the first trim that finds fewer,
the refill dereferences a null buffer two steps later. -/
theorem spares_ready_iff_trim_keeps_two (s : AsyncLogging size)
    (h : (machine size).Reach (fun s a => batchBounded s a ∧ trimKeepsTwo s a) s) :
    s.failure = none ∧ (s.pc = .head → Ready s) ∧
    (¬ trimKeepsTwo s .backend → ∃ s₁ s₂, s.step .backend = some s₁ ∧ s₁.pc = .refilling ∧
      s₁.step .backend = some s₂ ∧ s₂.failure = some .nullBuffer) := by
  have hI := (spareInv_of_reach h).2
  refine ⟨hI.healthy, hI.head, ?_⟩
  intro hbad
  simp only [trimKeepsTwo, Classical.not_imp, Nat.not_le] at hbad
  obtain ⟨hpc, hlong, hshort⟩ := hbad
  have htaken := (hI.batch (by rw [hpc]; rfl)).taken
  exact refill_fails_after_padding hI.healthy htaken hpc hlong hshort

/-- Producers append while the backend writes: three buffers are queued when it trims the
three it has written. -/
theorem spares_ready_after_iteration :
    ∃ t s : AsyncLogging 4, t.pc = .resizing ∧ t.tempBufferVec.length = 3 ∧
      t.bufferToWrite.length = 3 ∧
      (machine 4).Follows (fun s a => batchBounded s a ∧ trimKeepsTwo s a) t s ∧
      s.pc = .head ∧ s.failure = none ∧ Ready s := by
  let msg : Msg 4 := ⟨[7, 7, 7], by decide⟩
  have h₀ : (machine 4).Reach (fun s a => batchBounded s a ∧ trimKeepsTwo s a) new := .start rfl
  obtain ⟨t, ht, htest⟩ := Machine.Reach.of_test (machine 4) _
    (fun t => decide (t.pc = .resizing ∧ t.tempBufferVec.length = 3 ∧ t.bufferToWrite.length = 3)
      && ((machine 4).runGuarded (fun s a => batchBounded s a ∧ trimKeepsTwo s a) t
        [.backend, .backend]).any fun s => decide (s.pc = .head))
    ([.start] ++ List.replicate 3 (.append msg) ++ List.replicate 5 .backend ++
      List.replicate 4 (.append msg) ++ List.replicate 2 .backend) h₀ (by decide +kernel)
  rw [Bool.and_eq_true, decide_eq_true_eq] at htest
  obtain ⟨⟨hpc, hwritten, hqueued⟩, hrest⟩ := htest
  obtain ⟨s, hfollows, hhead⟩ := Machine.Follows.of_test _ _ _ _ hrest
  rw [decide_eq_true_eq] at hhead
  have hready := spares_ready_iff_trim_keeps_two s (ht.follows hfollows)
  exact ⟨t, s, hpc, hwritten, hqueued, hfollows, hhead, hready.1, hready.2.1 hhead⟩

/-! ## Producers between the critical section and the trim -/

def filler (h : 2 ≤ size) : Msg size where
  text := List.replicate (size - 1) 0
  short := by
    rw [List.length_replicate]
    omega

theorem filler_length (h : 2 ≤ size) : (filler h).text.length = size - 1 := by
  simp [filler]

theorem filler_ne_nil (h : 2 ≤ size) : (filler h).text ≠ [] := by
  apply List.ne_nil_of_length_pos
  rw [filler_length]
  omega

/-- A state in which such a message queues the current buffer. -/
structure Filling (s : AsyncLogging size) (queued : Nat) : Prop where
  reached : (machine size).Reach batchBounded s
  healthy : s.failure = none
  trimming : s.pc = .resizing
  single : s.tempBufferVec.length < 2
  taken : s.newBuffer1 = none
  text : ∃ b, s.curBuffer = some b ∧ b.data ≠ []
  length : s.bufferToWrite.length = queued

theorem Filling.next {s : AsyncLogging size} {queued : Nat} (hsize : 2 ≤ size)
    (h : Filling s queued) : Filling (s.append (filler hsize)) (queued + 1) := by
  obtain ⟨hreach, hok, hpc, hsingle, htaken, ⟨cur, hcur, htext⟩, hlength⟩ := h
  have hfull : cur.avail ≤ (filler hsize).text.length := by
    have hpos := List.length_pos_of_ne_nil htext
    rw [filler_length, FixedBuffer.avail, FixedBuffer.length]
    omega
  have hdata := (consInv_of_reach hreach).fresh_append (filler hsize)
  have hstep : (machine size).step s (.append (filler hsize)) =
      some (s.append (filler hsize)) := by
    simp [machine, AsyncLogging.step, hok]
  have hbound : batchBounded s (.append (filler hsize)) := trivial
  have hreach' := hreach.step hbound hstep
  rw [append_of_ge hcur hfull] at hreach' ⊢
  refine ⟨hreach', hok, hpc, hsingle, htaken, ⟨_, rfl, ?_⟩, ?_⟩
  · rw [hdata]
    exact filler_ne_nil hsize
  · simp [hlength]

/-- The first iteration, up to its trim, and a first message in the fresh buffer. -/
theorem exists_filling (hsize : 2 ≤ size) : ∃ s : AsyncLogging size, Filling s 0 := by
  have h₀ : (machine size).Reach batchBounded new := .start rfl
  have htrim := h₀.of_runGuarded (.start :: List.replicate 6 .backend) rfl
  have hfit : (filler hsize).text.length < (FixedBuffer.new : FixedBuffer size).avail :=
    (filler hsize).short
  have hfirst := htrim.of_runGuarded [.append (filler hsize)] rfl
  rw [append_of_lt rfl hfit] at hfirst
  refine ⟨_, hfirst, rfl, rfl, Nat.one_lt_two, rfl, ⟨_, rfl, ?_⟩, rfl⟩
  rw [FixedBuffer.append_data hfit]
  exact filler_ne_nil hsize

/-- Between the critical section and the trim of a batch of one buffer, four
messages of 3999999 bytes queue three buffers: the trim pads the vector with a
null and the refill dereferences it. -/
theorem late_appends_starve_spares :
    ¬ ∀ s : AsyncLogging FixedBuffer.kBigBufferSize,
      (machine FixedBuffer.kBigBufferSize).Reach batchBounded s →
      s.failure = none ∧ (s.pc = .head → Ready s) := by
  intro hclaim
  have hsize : 2 ≤ FixedBuffer.kBigBufferSize := by decide
  obtain ⟨s, hfilling⟩ := exists_filling hsize
  have hthree := ((hfilling.next hsize).next hsize).next hsize
  rcases refill_fails_after_padding hthree.healthy hthree.taken hthree.trimming
    (by rw [hthree.length]; decide) hthree.single with ⟨s₁, s₂, h₁, hpc₁, h₂, hfail⟩
  have hreach₁ : (machine _).Reach batchBounded s₁ :=
    .step hthree.reached (batchBounded_of_ne (by rw [hthree.trimming]; decide)) h₁
  have hreach₂ : (machine _).Reach batchBounded s₂ :=
    .step hreach₁ (batchBounded_of_ne (by rw [hpc₁]; decide)) h₂
  have hnone := (hclaim s₂ hreach₂).1
  rw [hfail] at hnone
  cases hnone

end MyNetLib.AsyncLogging
