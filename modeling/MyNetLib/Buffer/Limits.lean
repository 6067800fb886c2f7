import MyNetLib.Buffer.Fifo

/-! # `EnsureWriteableBytes` at the limits of `size_t`

`MakeSpace` computes two sums: the branch test `len + kCheapPrepend` and the
new size `write_index_ + len`. The statements are run one by one here, so that
what an exception leaves behind is read off the members, not assumed.
-/

namespace MyNetLib.Buffer

open Library Library.ByteVector

/-! ## Statement by statement -/

/-- What `std::vector::resize` throws for a size it cannot have. -/
inductive LengthError where
  | length_error
  deriving DecidableEq, Repr

/-- A member function: an exception keeps the members as they are where it is thrown. -/
abbrev Member (α : Type) := ExceptT LengthError (StateM Buffer) α

/-- `buffer_.resize(n)` -/
def resizeBuffer (n : Nat) : Member Unit := do
  let b ← get
  match resize b.buffer n with
  | none => throw .length_error
  | some v => set { b with buffer := v }

/-- `MakeSpace` -/
def makeSpaceSteps (len : Nat) : Member Unit := do
  let b ← get
  if b.lacksSpace len then
    resizeBuffer (SizeT.add b.writeIndex len)
  else
    let readable := b.readableBytes
    modify fun b => { b with
      buffer := copyForward b.buffer b.readIndex kCheapPrepend (b.writeIndex - b.readIndex) }
    modify fun b => { b with readIndex := kCheapPrepend }
    modify fun b => { b with writeIndex := SizeT.add b.readIndex readable }

/-- `EnsureWriteableBytes` -/
def ensureWriteableBytesSteps (len : Nat) : Member Unit := do
  let b ← get
  if b.writeableBytes < len then makeSpaceSteps len

theorem resizeBuffer_run (b : Buffer) (n : Nat) :
    (resizeBuffer n).run b =
      match resize b.buffer n with
      | none => (.error .length_error, b)
      | some v => (.ok (), { b with buffer := v }) := by
  show ExceptT.run (match resize b.buffer n with
    | none => throw .length_error
    | some v => set ({ b with buffer := v } : Buffer) : Member Unit) b = _
  cases resize b.buffer n with
  | none => rfl
  | some v => rfl

theorem makeSpaceSteps_run (b : Buffer) (len : Nat) :
    (makeSpaceSteps len).run b =
      match b.makeSpace len with
      | none => (.error .length_error, b)
      | some b' => (.ok (), b') := by
  unfold makeSpace
  show ExceptT.run (if b.lacksSpace len = true then _ else _ : Member Unit) b = _
  by_cases hl : b.lacksSpace len = true
  · rw [if_pos hl, if_pos hl]
    show (resizeBuffer (SizeT.add b.writeIndex len)).run b = _
    rw [resizeBuffer_run]
    cases resize b.buffer (SizeT.add b.writeIndex len) with
    | none => rfl
    | some v => rfl
  · rw [if_neg hl, if_neg hl]
    rfl

/-- Nothing is assigned before the exception is thrown. -/
theorem ensureWriteableBytesSteps_run (b : Buffer) (len : Nat) :
    (ensureWriteableBytesSteps len).run b =
      match b.ensureWriteableBytes len with
      | none => (.error .length_error, b)
      | some b' => (.ok (), b') := by
  unfold ensureWriteableBytes
  show ExceptT.run (if b.writeableBytes < len then _ else _ : Member Unit) b = _
  by_cases hlack : b.writeableBytes < len
  · rw [if_pos hlack, if_pos hlack, ← makeSpaceSteps_run]
  · rw [if_neg hlack, if_neg hlack]
    rfl

/-! ## Runs without overflow -/

/-- The size the call may ask the vector for is a `size_t`. -/
def NoOverflow (b : Buffer) (op : Op) : Prop := b.demand op < SizeT.modulus

/-- The class invariant survives every call that does not overflow, also a
`RetriveAsString` of more than the readable bytes. -/
theorem exec_wellFormed {b b' : Buffer} {op : Op} {out : List Byte} (hw : b.WellFormed)
    (hop : NoOverflow b op) (h : exec b op = some (out, b')) : b'.WellFormed :=
  (exec_represents (q := Fifo.empty.push b.readable) ⟨hw, rfl⟩ hop h).1

theorem run_wellFormed {initialSize : Nat} {b₀ b : Buffer} {ops : List Op}
    {outs : List (List Byte)} (hsize : kCheapPrepend + initialSize < SizeT.modulus)
    (hnew : new initialSize = some b₀) (hadm : AdmissibleRun exec NoOverflow b₀ ops)
    (hrun : runAll exec b₀ ops = some (outs, b)) : b.WellFormed :=
  runAll_invariant (fun _ _ _ _ hw hop h => exec_wellFormed hw hop h)
    (new_spec hsize hnew).1 hadm hrun

/-! ## The promise -/

/-- Room for `len` bytes, the order of the indices and the readable bytes, or an
exception that changes nothing. -/
def Ensures (b : Buffer) (len : Nat) : Prop :=
  match (ensureWriteableBytesSteps len).run b with
  | (.ok _, b') =>
      len ≤ b'.writeableBytes ∧
      (8 ≤ b'.readIndex ∧ b'.readIndex ≤ b'.writeIndex ∧ b'.writeIndex ≤ b'.buffer.length) ∧
      b'.readable = b.readable
  | (.error _, b') => b' = b

theorem ensures_of_lt {b : Buffer} (hw : b.WellFormed) {len : Nat}
    (hlen : b.writeIndex + len < SizeT.modulus) : Ensures b len := by
  have hs := (ensureWriteableBytes_spec hw hlen).2
  unfold Ensures
  rw [ensureWriteableBytesSteps_run]
  cases he : b.ensureWriteableBytes len with
  | none => rfl
  | some b' =>
      obtain ⟨hw', hr, hfit⟩ := hs b' he
      refine ⟨?_, ⟨hw'.prepend_le_read, hw'.read_le_write, hw'.write_le_size⟩, hr⟩
      rw [hw'.writeableBytes_eq]
      omega

/-- The branch test wraps to less than the reserved bytes: `MakeSpace` compacts
and returns, although no vector has that much room. -/
theorem not_ensures_of_test_wraps {b : Buffer} (hw : b.WellFormed) {len : Nat}
    (hlen : len < SizeT.modulus) (hwrap : SizeT.modulus ≤ len + kCheapPrepend) :
    ¬ Ensures b len := by
  obtain ⟨h₁, h₂, h₃, h₄⟩ := id hw
  have hmod : SizeT.modulus = 2 * maxSize + 2 := by decide
  have hpre : kCheapPrepend = 8 := rfl
  have hlack : b.writeableBytes < len := by
    rw [hw.writeableBytes_eq]
    have : 8 < maxSize := by decide
    omega
  have hneed : SizeT.add len kCheapPrepend < kCheapPrepend := by
    unfold SizeT.add
    rw [Nat.mod_eq_sub_mod hwrap, Nat.mod_eq_of_lt (by omega)]
    omega
  have hl : ¬ b.lacksSpace len = true := by
    simp only [lacksSpace, hw.free_eq, decide_eq_true_eq]
    omega
  unfold Ensures
  rw [ensureWriteableBytesSteps_run, ensureWriteableBytes, if_pos hlack, makeSpace, if_neg hl]
  rintro ⟨hroom, -, -⟩
  simp only [writeableBytes, length_copyForward, hw.compacted_eq] at hroom
  rw [SizeT.sub_of_le (by omega) hw.size_lt_modulus] at hroom
  have : 8 < maxSize := by decide
  omega

/-- The new size wraps below `write_index_`: the vector shrinks under its indices. -/
theorem not_ensures_of_size_wraps {b : Buffer} (hw : b.WellFormed) {len : Nat}
    (htest : len + kCheapPrepend < SizeT.modulus)
    (hwrap : SizeT.modulus ≤ b.writeIndex + len) : ¬ Ensures b len := by
  obtain ⟨h₁, h₂, h₃, h₄⟩ := id hw
  have hmod : SizeT.modulus = 2 * maxSize + 2 := by decide
  have hpre : kCheapPrepend = 8 := rfl
  have hlack : b.writeableBytes < len := by
    rw [hw.writeableBytes_eq]
    omega
  have hl : b.lacksSpace len = true := by
    simp only [lacksSpace, hw.free_eq, decide_eq_true_eq, SizeT.add_of_lt htest]
    omega
  have hshrinks : SizeT.add b.writeIndex len < b.writeIndex := by
    unfold SizeT.add
    rw [Nat.mod_eq_sub_mod hwrap, Nat.mod_eq_of_lt (by omega)]
    omega
  unfold Ensures
  rw [ensureWriteableBytesSteps_run, ensureWriteableBytes, if_pos hlack, makeSpace, if_pos hl]
  generalize SizeT.add b.writeIndex len = n at hshrinks
  rw [resize_eq_some (by omega)]
  rintro ⟨-, ⟨-, -, horder⟩, -⟩
  simp only [List.length_append, List.length_take, List.length_replicate] at horder
  omega

/-- After every run of calls none of which overflowed, the promise holds of the
next `EnsureWriteableBytes` exactly when the end of what it is to make room for
is a `size_t`. -/
theorem ensures_iff (initialSize : Nat) (b₀ b : Buffer) (ops : List Op)
    (outs : List (List Byte)) (hsize : kCheapPrepend + initialSize < SizeT.modulus)
    (hnew : new initialSize = some b₀) (hadm : AdmissibleRun exec NoOverflow b₀ ops)
    (hrun : runAll exec b₀ ops = some (outs, b)) (len : Nat) (hlen : len < SizeT.modulus) :
    Ensures b len ↔ b.writeIndex + len < SizeT.modulus := by
  have hw := run_wellFormed hsize hnew hadm hrun
  constructor
  · intro hpromise
    by_contra hover
    by_cases htest : len + kCheapPrepend < SizeT.modulus
    · exact not_ensures_of_size_wraps hw htest (by omega) hpromise
    · exact not_ensures_of_test_wraps hw hlen (by omega) hpromise
  · exact ensures_of_lt hw

/-- One byte appended to a buffer of two: the largest `len` that keeps the sum a
`size_t` is refused by the vector, and nothing changes. -/
theorem ensures_iff_refused :
    Ensures ⟨[0, 0, 0, 0, 0, 0, 0, 0, 1, 0], 8, 9⟩ (2 ^ 64 - 10) := by
  have hnew : new 2 = some ⟨List.replicate 10 0, 8, 8⟩ := by decide
  have hrun : runAll exec ⟨List.replicate 10 0, 8, 8⟩ [.append [1]] =
      some ([[]], ⟨[0, 0, 0, 0, 0, 0, 0, 0, 1, 0], 8, 9⟩) := by decide
  have hadm : AdmissibleRun exec NoOverflow ⟨List.replicate 10 0, 8, 8⟩ [.append [1]] :=
    ⟨show 8 + 1 < SizeT.modulus by decide, trivial⟩
  exact (ensures_iff 2 _ _ _ _ (by decide) hnew hadm hrun (2 ^ 64 - 10) (by decide)).2
    (by decide)

/-- With `len` one larger the vector shrinks to nothing, under indices 8 and 9. -/
theorem ensures_fails_when_size_wraps :
    ¬ ∀ (initialSize : Nat) (b₀ b : Buffer) (ops : List Op) (outs : List (List Byte)),
      kCheapPrepend + initialSize < SizeT.modulus → new initialSize = some b₀ →
      AdmissibleRun exec NoOverflow b₀ ops → runAll exec b₀ ops = some (outs, b) →
      ∀ len, len < SizeT.modulus → Ensures b len := by
  intro hclaim
  have hnew : new 2 = some ⟨List.replicate 10 0, 8, 8⟩ := by decide
  have hrun : runAll exec ⟨List.replicate 10 0, 8, 8⟩ [.append [1]] =
      some ([[]], ⟨[0, 0, 0, 0, 0, 0, 0, 0, 1, 0], 8, 9⟩) := by decide
  have hadm : AdmissibleRun exec NoOverflow ⟨List.replicate 10 0, 8, 8⟩ [.append [1]] :=
    ⟨show 8 + 1 < SizeT.modulus by decide, trivial⟩
  have hw := run_wellFormed (by decide) hnew hadm hrun
  exact not_ensures_of_size_wraps hw (by decide) (by decide)
    (hclaim 2 _ _ _ _ (by decide) hnew hadm hrun (2 ^ 64 - 9) (by decide))

end MyNetLib.Buffer
