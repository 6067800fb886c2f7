import MyNetLib.Logging.Spares

/-! # The overload branch of `ThreadFunc`

Above 25 buffers the backend means to keep the first two. The range it hands to
`vector::erase` starts in `temp_buffer_vec` and ends in `buffer_to_write_`.
Iterators carry the vector they belong to, and `erase` has a result only for
a range of its own vector.
-/

namespace MyNetLib.AsyncLogging

open Library

variable {size : Nat}

inductive Vec where
  | bufferToWrite
  | tempBufferVec
  deriving DecidableEq, Repr

structure Iterator where
  vec : Vec
  pos : Nat
  deriving DecidableEq, Repr

def elements (s : AsyncLogging size) : Vec → List (BufferPtr size)
  | .bufferToWrite => s.bufferToWrite
  | .tempBufferVec => s.tempBufferVec

def beginOf (_s : AsyncLogging size) (v : Vec) : Iterator := ⟨v, 0⟩

def endOf (s : AsyncLogging size) (v : Vec) : Iterator := ⟨v, (s.elements v).length⟩

def Iterator.add (i : Iterator) (n : Nat) : Iterator := { i with pos := i.pos + n }

/-- `v.erase(first, last)`: both iterators are of `v`, in order. -/
def erase (s : AsyncLogging size) (v : Vec) (first last : Iterator) :
    Option (List (BufferPtr size)) :=
  if first.vec = v ∧ last.vec = v ∧ first.pos ≤ last.pos ∧ last.pos ≤ (s.elements v).length then
    some ((s.elements v).take first.pos ++ (s.elements v).drop last.pos)
  else none

def dropOverload (s : AsyncLogging size) : Option (List (BufferPtr size)) :=
  s.erase .tempBufferVec ((s.beginOf .tempBufferVec).add 2) (s.endOf .bufferToWrite)

theorem dropOverload_eq_none (s : AsyncLogging size) : s.dropOverload = none := by
  rw [dropOverload, erase, if_neg]
  rintro ⟨-, hvec, -, -⟩
  cases hvec

theorem backend_overload {s : AsyncLogging size} (hpc : s.pc = .checking)
    (hmany : 25 < s.tempBufferVec.length) :
    s.backend = some
      (match s.dropOverload with
      | none => s.fail .foreignErase
      | some v => { s with tempBufferVec := v, pc := .writing 0 }) := by
  rw [dropOverload_eq_none]
  simp [backend, hpc, hmany]

/-- With the end of its own vector the call keeps the first two buffers. -/
theorem erase_own_end {s : AsyncLogging size} (hmany : 25 < s.tempBufferVec.length) :
    s.erase .tempBufferVec ((s.beginOf .tempBufferVec).add 2) (s.endOf .tempBufferVec) =
      some (s.tempBufferVec.take 2) := by
  have hrange : 0 + 2 ≤ s.tempBufferVec.length := by omega
  simp [erase, Iterator.add, beginOf, endOf, elements, hrange]

/-- The branch keeps the first two buffers, -/
def KeepsTwo (s : AsyncLogging size) : Prop := s.dropOverload = some (s.tempBufferVec.take 2)

/-- and the iteration goes on: some run writes those two in order and is back at
the loop head, with its assertions true. -/
def Completes (s : AsyncLogging size) : Prop :=
  ∃ s', (machine size).Follows (fun _ _ => True) s s' ∧ s'.pc = .head ∧ Ready s' ∧
    s'.logFile = s.logFile ++ (s.tempBufferVec.take 2).map content

theorem stuck_at_overload {s s' : AsyncLogging size} (hpc : s.pc = .checking)
    (hmany : 25 < s.tempBufferVec.length)
    (h : (machine size).Follows (fun _ _ => True) s s') :
    s'.pc = .checking ∧ 25 < s'.tempBufferVec.length := by
  apply h.invariant (I := fun t => t.pc = .checking ∧ 25 < t.tempBufferVec.length)
  · exact ⟨hpc, hmany⟩
  · rintro t a t' ⟨htpc, htmany⟩ - hs
    simp only [machine, step] at hs
    split at hs
    · cases hs
    cases a with
    | append msg =>
        cases hs
        obtain ⟨_, _, _, _, _, hframe, -⟩ := append_frame t msg
        rw [hframe]
        exact ⟨htpc, htmany⟩
    | start =>
        simp [htpc] at hs
    | backend =>
        simp only [backend_overload htpc htmany, dropOverload_eq_none, Option.some.injEq] at hs
        subst hs
        exact ⟨htpc, htmany⟩
    | stop =>
        dsimp only at hs
        split at hs <;> cases hs
        exact ⟨htpc, htmany⟩
    | stopReturns =>
        simp [htpc] at hs

/-- Whatever the buffers hold and however many there are above 25, the branch
erases a range that is not of its vector, and no run gets past it. -/
theorem overload_never_completes (s : AsyncLogging size) (hpc : s.pc = .checking)
    (hmany : 25 < s.tempBufferVec.length) : ¬ KeepsTwo s ∧ ¬ Completes s := by
  constructor
  · intro hkeeps
    rw [KeepsTwo, dropOverload_eq_none] at hkeeps
    cases hkeeps
  · rintro ⟨s', hfollows, hhead, -, -⟩
    obtain ⟨hstuck, -⟩ := stuck_at_overload hpc hmany hfollows
    rw [hstuck] at hhead
    cases hhead

/-! ## Batches of every size -/

/-- Before `Start`, with `queued` full buffers and one in use. -/
structure Loading (s : AsyncLogging size) (queued : Nat) : Prop where
  reached : (machine size).Reach (fun _ _ => True) s
  healthy : s.failure = none
  notStarted : s.pc = .notStarted
  empty : s.tempBufferVec = []
  text : ∃ b, s.curBuffer = some b ∧ b.data ≠ []
  length : s.bufferToWrite.length = queued

theorem Loading.next {s : AsyncLogging size} {queued : Nat} (hsize : 2 ≤ size)
    (h : Loading s queued) : Loading (s.append (filler hsize)) (queued + 1) := by
  obtain ⟨hreach, hok, hpc, hempty, ⟨cur, hcur, htext⟩, hlength⟩ := h
  have hfull : cur.avail ≤ (filler hsize).text.length := by
    have hpos := List.length_pos_of_ne_nil htext
    rw [filler_length, FixedBuffer.avail, FixedBuffer.length]
    omega
  have hdata := (consInv_of_reach hreach).fresh_append (filler hsize)
  have hstep : (machine size).step s (.append (filler hsize)) =
      some (s.append (filler hsize)) := by
    simp [machine, AsyncLogging.step, hok]
  have hreach' := hreach.step trivial hstep
  rw [append_of_ge hcur hfull] at hreach' ⊢
  refine ⟨hreach', hok, hpc, hempty, ⟨_, rfl, ?_⟩, by simp [hlength]⟩
  rw [hdata]
  exact filler_ne_nil hsize

theorem exists_loading (hsize : 2 ≤ size) (queued : Nat) :
    ∃ s : AsyncLogging size, Loading s queued := by
  induction queued with
  | zero =>
      have h₀ : (machine size).Reach (fun _ _ => True) new := .start rfl
      have hfit : (filler hsize).text.length < (FixedBuffer.new : FixedBuffer size).avail :=
        (filler hsize).short
      have hfirst := h₀.of_run [.append (filler hsize)] (fun _ _ _ => trivial) rfl
      rw [append_of_lt rfl hfit] at hfirst
      refine ⟨_, hfirst, rfl, rfl, rfl, ⟨_, rfl, ?_⟩, rfl⟩
      rw [FixedBuffer.append_data hfit]
      exact filler_ne_nil hsize
  | succ queued ih =>
      obtain ⟨s, hs⟩ := ih
      exact ⟨_, hs.next hsize⟩

theorem exists_batch (hsize : 2 ≤ size) {k : Nat} (hk : 2 ≤ k) :
    ∃ s : AsyncLogging size, (machine size).Reach (fun _ _ => True) s ∧ s.pc = .checking ∧
      s.tempBufferVec.length = k := by
  obtain ⟨s, hs⟩ := exists_loading hsize (k - 1)
  have hqueue : s.bufferToWrite ≠ [] := by
    intro hnil
    have hlength := hs.length
    rw [hnil, List.length_nil] at hlength
    omega
  have hrun : (machine size).run s [.start, .backend, .backend] =
      some { s.start with pc := .locking }.swapBuffers := by
    simp [Machine.run, machine, AsyncLogging.step, AsyncLogging.start, backend, headAssertions,
      FixedBuffer.length, FixedBuffer.new, hs.healthy, hs.notStarted, hs.empty, hqueue]
  refine ⟨_, hs.reached.of_run _ (fun _ _ _ => trivial) hrun, rfl, ?_⟩
  simp only [swapBuffers, AsyncLogging.start, List.length_append, List.length_singleton, hs.length]
  omega

/-- A batch of 26 of the big buffers. -/
theorem overload_never_completes_twentySix :
    ∃ s : AsyncLogging FixedBuffer.kBigBufferSize, (machine _).Reach (fun _ _ => True) s ∧
      s.tempBufferVec.length = 26 ∧ ¬ KeepsTwo s ∧ ¬ Completes s := by
  have hsize : 2 ≤ FixedBuffer.kBigBufferSize := by decide
  obtain ⟨s, hreach, hpc, hlength⟩ := exists_batch hsize (show 2 ≤ 26 by decide)
  exact ⟨s, hreach, hlength, overload_never_completes s hpc (by omega)⟩

/-- The branch does not do with 26 buffers what it is there for. -/
theorem overload_erases_foreign_range :
    ¬ ∀ s : AsyncLogging FixedBuffer.kBigBufferSize, (machine _).Reach (fun _ _ => True) s →
      s.pc = .checking → 25 < s.tempBufferVec.length → KeepsTwo s ∧ Completes s := by
  intro hclaim
  have hsize : 2 ≤ FixedBuffer.kBigBufferSize := by decide
  obtain ⟨s, hreach, hpc, hlength⟩ := exists_batch hsize (show 2 ≤ 26 by decide)
  have hkeeps := (hclaim s hreach hpc (by omega)).1
  rw [KeepsTwo, dropOverload_eq_none] at hkeeps
  cases hkeeps

end MyNetLib.AsyncLogging
