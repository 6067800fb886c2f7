import MyNetLib.Buffer.Limits

/-! # The capacity follows the load

`MakeSpace` grows without removing the consumed prefix. It does so only when
that prefix is short against the block to be appended, so the size it asks for
is bounded by the readable bytes after the call and by the block.
-/

namespace MyNetLib.Buffer

open Library Library.ByteVector

/-- An append of at most `M` bytes, a `ReadFd` within what it offered, or a
retrieval, without overflow; afterwards at most `R` bytes are readable. -/
def WithinLoad (R M : Nat) (b : Buffer) (op : Op) : Prop :=
  NoOverflow b op ∧
    (match op with
    | .append data => data.length ≤ M
    | .readFd (.received data) => data.length ≤ b.readvRoom
    | .ensureWriteableBytes _ => False
    | _ => True) ∧
    ∀ out b', exec b op = some (out, b') → b'.readableBytes ≤ R

def capacityBound (initialSize R M : Nat) : Nat :=
  max (kCheapPrepend + initialSize) (R + max M kExtraSize + 7)

/-! ## Sizes after one operation -/

@[simp] theorem length_retriveAll (b : Buffer) :
    b.retriveAll.buffer.length = b.buffer.length := rfl

@[simp] theorem length_retrive (b : Buffer) (len : Nat) :
    (b.retrive len).buffer.length = b.buffer.length := by
  unfold retrive
  split
  · rfl
  · rfl

/-- Growing happens with a consumed prefix of less than `len + 8` bytes. -/
theorem length_ensureWriteableBytes {b b' : Buffer} (hw : b.WellFormed) {len : Nat}
    (hlen : b.writeIndex + len < SizeT.modulus) (h : b.ensureWriteableBytes len = some b') :
    b'.buffer.length = b.buffer.length ∨
      b.buffer.length < b'.buffer.length ∧ b'.buffer.length = b.writeIndex + len ∧
        b.readIndex ≤ len + 7 := by
  unfold ensureWriteableBytes at h
  by_cases hlack : b.writeableBytes < len
  · rw [if_pos hlack] at h
    unfold makeSpace at h
    by_cases hl : b.lacksSpace len = true
    · right
      rw [if_pos hl, SizeT.add_of_lt hlen] at h
      simp only [Option.map_eq_some_iff] at h
      obtain ⟨v, hv, rfl⟩ := h
      have hfit : b.writeIndex + len ≤ maxSize := by
        by_contra hover
        rw [resize_eq_none (by omega)] at hv
        cases hv
      rw [resize_eq_some hfit, Option.some.injEq] at hv
      subst hv
      rw [hw.writeableBytes_eq] at hlack
      rw [hw.lacksSpace_iff hlen] at hl
      have hpre : kCheapPrepend = 8 := rfl
      simp only [List.length_append, List.length_take, List.length_replicate]
      omega
    · left
      rw [if_neg hl] at h
      cases h
      simp
  · left
    rw [if_neg hlack] at h
    cases h
    rfl

/-- The same with the readable bytes after the append in place of `write_index_`. -/
theorem length_append_le {b b' : Buffer} (hw : b.WellFormed) {data : List Byte}
    (hlen : b.writeIndex + data.length < SizeT.modulus) (h : b.append data = some b') :
    b.buffer.length ≤ b'.buffer.length ∧
      (b'.buffer.length = b.buffer.length ∨
        b'.buffer.length ≤ b'.readableBytes + data.length + 7) := by
  obtain ⟨hw', hr⟩ := (append_spec hw data hlen).2 b' h
  have hreadable : b'.readableBytes = b.writeIndex - b.readIndex + data.length := by
    rw [hw'.readableBytes_eq_length, hr, List.length_append, hw.length_readable]
  have hread := hw.read_le_write
  simp only [append, Option.map_eq_some_iff] at h
  obtain ⟨b₁, he, rfl⟩ := h
  have hsize := length_ensureWriteableBytes hw hlen he
  simp only [length_overwrite] at *
  omega

theorem length_readFd_le {b b' : Buffer} (hw : b.WellFormed) {data : List Byte}
    (hlen : b.writeIndex + data.length < SizeT.modulus) (hroom : data.length ≤ b.readvRoom)
    (h : b.readFd (.received data) = some b') :
    b.buffer.length ≤ b'.buffer.length ∧
      (b'.buffer.length = b.buffer.length ∨
        b'.buffer.length ≤ b'.readableBytes + kExtraSize + 7) := by
  have hwr := hw.writeableBytes_eq
  have hsize := hw.write_le_size
  simp only [readFd] at h
  by_cases hshort : data.length ≤ b.writeableBytes
  · rw [if_pos hshort] at h
    cases h
    simp [filled]
  · rw [if_neg hshort] at h
    -- what the extra buffer received is appended to a buffer filled to its end
    have hfull := filled_wellFormed hw data
    have hfilled : (b.filled data).buffer.length = b.buffer.length := by simp [filled]
    have hextra : (data.drop b.writeableBytes).length ≤ kExtraSize := by
      rw [List.length_drop]
      unfold readvRoom at hroom
      split at hroom
      · omega
      · omega
    have hsum : (b.filled data).buffer.length + (data.drop b.writeableBytes).length <
        SizeT.modulus := by
      rw [hfilled, List.length_drop]
      omega
    have happend := length_append_le hfull hsum h
    simp only [hfilled] at happend
    omega

/-- One operation of the load: the size does not shrink, and a size that grew is
bounded by the bytes readable afterwards and the largest block. -/
theorem length_exec_le {R M : Nat} {b b' : Buffer} {op : Op} {out : List Byte}
    (hw : b.WellFormed) (hop : WithinLoad R M b op) (h : exec b op = some (out, b')) :
    b.buffer.length ≤ b'.buffer.length ∧
      (b'.buffer.length = b.buffer.length ∨ b'.buffer.length ≤ R + max M kExtraSize + 7) := by
  obtain ⟨hlen, hkind, hload⟩ := hop
  have hR := hload out b' h
  cases op with
  | append data =>
      simp only [exec, Option.map_eq_some_iff, Prod.mk.injEq] at h
      obtain ⟨b₁, hb, -, rfl⟩ := h
      have hsize := length_append_le hw hlen hb
      simp only at hkind
      omega
  | retrive len =>
      simp only [exec, Option.some.injEq, Prod.mk.injEq] at h
      obtain ⟨-, rfl⟩ := h
      simp
  | retriveAll =>
      simp only [exec, Option.some.injEq, Prod.mk.injEq] at h
      obtain ⟨-, rfl⟩ := h
      simp
  | retriveAsString len =>
      simp only [exec, retriveAsString, Option.ite_none_right_eq_some, Option.some.injEq,
        Prod.mk.injEq] at h
      obtain ⟨-, -, rfl⟩ := h
      simp
  | retriveAllAsString =>
      simp only [exec, retriveAllAsString_spec hw, Option.some.injEq, Prod.mk.injEq] at h
      obtain ⟨-, rfl⟩ := h
      simp
  | ensureWriteableBytes len => exact hkind.elim
  | readFd r =>
      simp only [exec, Option.map_eq_some_iff, Prod.mk.injEq] at h
      obtain ⟨b₁, hb, -, rfl⟩ := h
      cases r with
      | failed errno =>
          cases hb
          simp
      | received data =>
          have hsize := length_readFd_le hw hlen hkind hb
          omega
  | writeFd w =>
      simp only [exec, writeFd, Option.some.injEq, Prod.mk.injEq] at h
      obtain ⟨-, rfl⟩ := h
      simp

/-! ## Over a run -/

theorem run_length_le {R M bound : Nat} {b b' : Buffer} {ops : List Op} {outs : List (List Byte)}
    (hbound : R + max M kExtraSize + 7 ≤ bound) (hw : b.WellFormed)
    (hsize : b.buffer.length ≤ bound) (hadm : AdmissibleRun exec (WithinLoad R M) b ops)
    (hrun : runAll exec b ops = some (outs, b')) :
    b'.WellFormed ∧ b.buffer.length ≤ b'.buffer.length ∧ b'.buffer.length ≤ bound := by
  have hstep : ∀ s op out s',
      (s.WellFormed ∧ b.buffer.length ≤ s.buffer.length ∧ s.buffer.length ≤ bound) →
      WithinLoad R M s op → exec s op = some (out, s') →
      s'.WellFormed ∧ b.buffer.length ≤ s'.buffer.length ∧ s'.buffer.length ≤ bound := by
    rintro s op out s' ⟨hs, hlow, hhigh⟩ hop hx
    have hone := length_exec_le hs hop hx
    exact ⟨exec_wellFormed hs hop.1 hx, by omega, by omega⟩
  exact runAll_invariant hstep ⟨hw, Nat.le_refl _, hsize⟩ hadm hrun

/-- Between any two points of a run the size does not decrease, and it never
exceeds the bound, however long the run is. -/
theorem capacity_follows_load (initialSize R M : Nat) (b₀ b₁ b₂ : Buffer)
    (first second : List Op) (outs₁ outs₂ : List (List Byte))
    (hsize : kCheapPrepend + initialSize < SizeT.modulus) (hnew : new initialSize = some b₀)
    (hadm : AdmissibleRun exec (WithinLoad R M) b₀ (first ++ second))
    (hfirst : runAll exec b₀ first = some (outs₁, b₁))
    (hsecond : runAll exec b₁ second = some (outs₂, b₂)) :
    b₁.buffer.length ≤ b₂.buffer.length ∧
      b₂.buffer.length ≤ max (8 + initialSize) (R + max M 65535 + 7) := by
  obtain ⟨hw, -, hlength⟩ := new_spec hsize hnew
  obtain ⟨hadm₁, hadm₂⟩ := hadm.append hfirst
  have hbound : R + max M kExtraSize + 7 ≤ capacityBound initialSize R M := Nat.le_max_right _ _
  have hstart : b₀.buffer.length ≤ capacityBound initialSize R M := by
    rw [hlength]
    exact Nat.le_max_left _ _
  obtain ⟨hw₁, -, hhigh₁⟩ := run_length_le hbound hw hstart hadm₁ hfirst
  obtain ⟨-, hmono, hhigh₂⟩ := run_length_le hbound hw₁ hhigh₁ hadm₂ hsecond
  exact ⟨hmono, hhigh₂⟩

/-- A buffer of two bytes under a load of three: one growth, then a compaction. -/
theorem capacity_follows_load_three :
    (⟨[0, 0, 0, 0, 0, 0, 0, 0, 1, 2, 3], 8, 11⟩ : Buffer).buffer.length ≤
        (⟨[0, 0, 0, 0, 0, 0, 0, 0, 3, 4, 5], 8, 11⟩ : Buffer).buffer.length ∧
      (⟨[0, 0, 0, 0, 0, 0, 0, 0, 3, 4, 5], 8, 11⟩ : Buffer).buffer.length ≤
        max (8 + 2) (3 + max 3 65535 + 7) := by
  have hnew : new 2 = some ⟨List.replicate 10 0, 8, 8⟩ := by decide
  have hfirst : runAll exec ⟨List.replicate 10 0, 8, 8⟩ [.append [1, 2, 3]] =
      some ([[]], ⟨[0, 0, 0, 0, 0, 0, 0, 0, 1, 2, 3], 8, 11⟩) := by decide
  have hsecond : runAll exec ⟨[0, 0, 0, 0, 0, 0, 0, 0, 1, 2, 3], 8, 11⟩
      [.retrive 2, .append [4, 5]] =
      some ([[], []], ⟨[0, 0, 0, 0, 0, 0, 0, 0, 3, 4, 5], 8, 11⟩) := by decide
  have hadm : AdmissibleRun exec (WithinLoad 3 3) ⟨List.replicate 10 0, 8, 8⟩
      ([.append [1, 2, 3]] ++ [.retrive 2, .append [4, 5]]) := by
    refine ⟨⟨show 8 + 3 < SizeT.modulus by decide, show 3 ≤ 3 by decide, ?_⟩,
      ⟨show 0 < SizeT.modulus by decide, trivial, ?_⟩,
      ⟨show 11 + 2 < SizeT.modulus by decide, show 2 ≤ 3 by decide, ?_⟩, trivial⟩
    · rintro out b' ⟨⟩
      decide
    · rintro out b' ⟨⟩
      decide
    · rintro out b' ⟨⟩
      decide
  exact capacity_follows_load 2 3 3 _ _ _ _ _ _ _ (by decide) hnew hadm hfirst hsecond

end MyNetLib.Buffer
