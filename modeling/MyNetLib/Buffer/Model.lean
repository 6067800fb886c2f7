import MyNetLib.Library.Memory

/-! # The growable buffer (`include/buffer.h`, `src/buffer.cc`)

The vector and the two indices are as the class has them, with `size_t`
arithmetic modulo `2 ^ 64`. `none` is the exception `std::vector` throws for a
size it cannot have, or, in `retriveAsString`, a read past the end of the
vector. Kernel results are arguments: the bytes `readv` delivered, the count
`::write` accepted, or the `errno` of a failure.
-/

namespace MyNetLib

open Library Library.ByteVector

/-! ## Kernel results -/

/-- An `errno` value. -/
abbrev Errno := Nat

/-- Result of `::write`: a byte count, or a failure with the `errno` it set and
the `errno` found there after the logging call that follows a failure. -/
inductive WriteResult where
  | wrote (n : Nat)
  | failed (errno logged : Errno)
  deriving DecidableEq, Repr

/-- Result of `::readv`: the bytes delivered, or a failure. -/
inductive ReadvResult where
  | received (data : List Byte)
  | failed (errno : Errno)
  deriving DecidableEq, Repr

/-- The `ssize_t` the call returns. -/
def WriteResult.count : WriteResult → Int
  | .wrote n => n
  | .failed _ _ => -1

def ReadvResult.count : ReadvResult → Int
  | .received data => data.length
  | .failed _ => -1

/-! ## The class -/

structure Buffer where
  buffer : List Byte
  readIndex : Nat
  writeIndex : Nat
  deriving DecidableEq, Repr

namespace Buffer

def kCheapPrepend : Nat := 8
def kInitialSize : Nat := 1024
/-- `sizeof extrabuf` in `ReadFd`. -/
def kExtraSize : Nat := 65535

def new (initialSize : Nat) : Option Buffer :=
  (resize [] (SizeT.add kCheapPrepend initialSize)).map
    fun v => ⟨v, kCheapPrepend, kCheapPrepend⟩

def readableBytes (b : Buffer) : Nat := SizeT.sub b.writeIndex b.readIndex
def writeableBytes (b : Buffer) : Nat := SizeT.sub b.buffer.length b.writeIndex
def prependableBytes (b : Buffer) : Nat := b.readIndex

def retriveAll (b : Buffer) : Buffer :=
  { b with readIndex := kCheapPrepend, writeIndex := kCheapPrepend }

def retrive (b : Buffer) (len : Nat) : Buffer :=
  if len < b.readableBytes then { b with readIndex := SizeT.add b.readIndex len }
  else b.retriveAll

def retriveAsString (b : Buffer) (len : Nat) : Option (List Byte × Buffer) :=
  if b.readIndex + len ≤ b.buffer.length then
    some (slice b.buffer b.readIndex (b.readIndex + len), b.retrive len)
  else none

def retriveAllAsString (b : Buffer) : Option (List Byte × Buffer) :=
  b.retriveAsString b.readableBytes

/-- The test of `MakeSpace`: even with the consumed prefix there is no room. -/
def lacksSpace (b : Buffer) (len : Nat) : Bool :=
  SizeT.add b.writeableBytes b.prependableBytes < SizeT.add len kCheapPrepend

def makeSpace (b : Buffer) (len : Nat) : Option Buffer :=
  if b.lacksSpace len then
    (resize b.buffer (SizeT.add b.writeIndex len)).map fun v => { b with buffer := v }
  else
    let readable := b.readableBytes
    some
      { buffer := copyForward b.buffer b.readIndex kCheapPrepend (b.writeIndex - b.readIndex)
        readIndex := kCheapPrepend
        writeIndex := SizeT.add kCheapPrepend readable }

def ensureWriteableBytes (b : Buffer) (len : Nat) : Option Buffer :=
  if b.writeableBytes < len then b.makeSpace len else some b

/-- `EnsureWriteableBytes(len)` moves the readable bytes down instead of growing. -/
def compacts (b : Buffer) (len : Nat) : Bool :=
  b.writeableBytes < len && !b.lacksSpace len

def append (b : Buffer) (data : List Byte) : Option Buffer :=
  (b.ensureWriteableBytes data.length).map fun b' =>
    { b' with
      buffer := overwrite b'.buffer b'.writeIndex data
      writeIndex := SizeT.add b'.writeIndex data.length }

/-- What the two `iovec`s of `ReadFd` offer the kernel. -/
def readvRoom (b : Buffer) : Nat :=
  b.writeableBytes + if b.writeableBytes < kExtraSize then kExtraSize else 0

/-- The first `iovec` after the call: the kernel fills it before the second. -/
def filled (b : Buffer) (data : List Byte) : Buffer :=
  { b with buffer := overwrite b.buffer b.writeIndex (data.take b.writeableBytes) }

def readFd (b : Buffer) : ReadvResult → Option Buffer
  | .failed _ => some b
  | .received data =>
      let writeable := b.writeableBytes
      let b' := b.filled data
      if data.length ≤ writeable then
        some { b' with writeIndex := SizeT.add b'.writeIndex data.length }
      else
        { b' with writeIndex := b'.buffer.length }.append (data.drop writeable)

/-- `WriteFd` hands the readable bytes to `::write` and leaves the buffer alone. -/
def writeFd (b : Buffer) (w : WriteResult) : Int × Buffer := (w.count, b)

/-! ## The invariant and the readable bytes -/

structure WellFormed (b : Buffer) : Prop where
  prepend_le_read : kCheapPrepend ≤ b.readIndex
  read_le_write : b.readIndex ≤ b.writeIndex
  write_le_size : b.writeIndex ≤ b.buffer.length
  size_le_max : b.buffer.length ≤ maxSize

/-- The bytes between the two indices. -/
def readable (b : Buffer) : List Byte := slice b.buffer b.readIndex b.writeIndex

namespace WellFormed

variable {b b' : Buffer}

theorem size_lt_modulus (h : b.WellFormed) : b.buffer.length < SizeT.modulus :=
  Nat.lt_of_le_of_lt h.size_le_max maxSize_lt_modulus

theorem readableBytes_eq (h : b.WellFormed) : b.readableBytes = b.writeIndex - b.readIndex :=
  SizeT.sub_of_le h.read_le_write (Nat.lt_of_le_of_lt h.write_le_size h.size_lt_modulus)

theorem writeableBytes_eq (h : b.WellFormed) :
    b.writeableBytes = b.buffer.length - b.writeIndex :=
  SizeT.sub_of_le h.write_le_size h.size_lt_modulus

theorem length_readable (h : b.WellFormed) : b.readable.length = b.writeIndex - b.readIndex :=
  length_slice h.write_le_size

theorem readableBytes_eq_length (h : b.WellFormed) : b.readableBytes = b.readable.length := by
  rw [h.readableBytes_eq, h.length_readable]

theorem readable_eq_nil_iff (h : b.WellFormed) : b.readable = [] ↔ b.readableBytes = 0 := by
  rw [h.readableBytes_eq_length, List.length_eq_zero_iff]

/-- What `MakeSpace` compares with: the room behind the readable bytes and the prefix. -/
theorem free_eq (h : b.WellFormed) : SizeT.add b.writeableBytes b.prependableBytes =
    b.buffer.length - b.writeIndex + b.readIndex := by
  have hread := h.read_le_write
  have hwrite := h.write_le_size
  have hsize := h.size_lt_modulus
  rw [h.writeableBytes_eq]
  exact SizeT.add_of_lt (by simp only [prependableBytes]; omega)

theorem compacted_eq (h : b.WellFormed) : SizeT.add kCheapPrepend b.readableBytes =
    kCheapPrepend + (b.writeIndex - b.readIndex) := by
  have hwrite := h.write_le_size
  have hsize := h.size_le_max
  have hmod : kCheapPrepend + maxSize < SizeT.modulus := by decide
  rw [h.readableBytes_eq]
  exact SizeT.add_of_lt (by omega)

/-- The test of `MakeSpace` without wrap-around. -/
theorem lacksSpace_iff (h : b.WellFormed) {len : Nat} (hlen : b.writeIndex + len < SizeT.modulus) :
    b.lacksSpace len = true ↔
      b.buffer.length - b.writeIndex + b.readIndex < len + kCheapPrepend := by
  have hprepend := h.prepend_le_read
  have hread := h.read_le_write
  have hneed : SizeT.add len kCheapPrepend = len + kCheapPrepend :=
    SizeT.add_of_lt (by omega)
  simp [lacksSpace, h.free_eq, hneed]

/-- A compaction always moves to a strictly lower position: the prefix alone
must hold more than the reserved bytes for `MakeSpace` to choose it. -/
theorem prepend_lt_of_compacts (h : b.WellFormed) {len : Nat}
    (hlen : b.writeIndex + len < SizeT.modulus) (hc : b.compacts len = true) :
    kCheapPrepend < b.readIndex := by
  simp only [compacts, Bool.and_eq_true, decide_eq_true_eq, Bool.not_eq_true',
    Bool.eq_false_iff, ne_eq, h.lacksSpace_iff hlen, h.writeableBytes_eq] at hc
  omega

end WellFormed

/-! ## One specification per operation -/

variable {b b' : Buffer}

theorem new_spec {n : Nat} (hn : kCheapPrepend + n < SizeT.modulus) (h : new n = some b) :
    b.WellFormed ∧ b.readable = [] ∧ b.buffer.length = kCheapPrepend + n := by
  unfold new at h
  rw [SizeT.add_of_lt hn] at h
  by_cases hmax : kCheapPrepend + n ≤ maxSize
  · rw [resize_eq_some hmax] at h
    simp only [List.take_nil, List.nil_append, List.length_nil, Nat.sub_zero, Option.map_some,
      Option.some.injEq] at h
    subst h
    exact ⟨⟨Nat.le_refl _, Nat.le_refl _, by simp, by simpa using hmax⟩, by simp [readable, slice],
      by simp⟩
  · rw [resize_eq_none (by omega)] at h
    cases h

theorem retriveAll_spec (h : b.WellFormed) :
    b.retriveAll.WellFormed ∧ b.retriveAll.readable = [] := by
  obtain ⟨h₁, h₂, h₃, h₄⟩ := h
  refine ⟨⟨Nat.le_refl _, Nat.le_refl _, ?_, h₄⟩, by simp [readable, retriveAll, slice]⟩
  show kCheapPrepend ≤ b.buffer.length
  omega

theorem retrive_spec (h : b.WellFormed) (len : Nat) :
    (b.retrive len).WellFormed ∧ (b.retrive len).readable = b.readable.drop len := by
  unfold retrive
  rw [h.readableBytes_eq]
  split
  · rename_i hlt
    have hadd : SizeT.add b.readIndex len = b.readIndex + len :=
      SizeT.add_of_lt (by have := h.size_lt_modulus; have := h.write_le_size; omega)
    rw [hadd]
    refine ⟨⟨?_, ?_, h.write_le_size, h.size_le_max⟩, ?_⟩
    · exact Nat.le_trans h.prepend_le_read (Nat.le_add_right _ _)
    · show b.readIndex + len ≤ b.writeIndex
      omega
    · rw [readable, readable, slice_drop]
  · rename_i hge
    obtain ⟨hw, hr⟩ := retriveAll_spec h
    refine ⟨hw, ?_⟩
    rw [hr, List.drop_of_length_le (by rw [h.length_readable]; omega)]

theorem retriveAsString_spec (h : b.WellFormed) {len : Nat} (hlen : len ≤ b.readableBytes) :
    b.retriveAsString len = some (b.readable.take len, b.retrive len) := by
  rw [h.readableBytes_eq] at hlen
  have hin : b.readIndex + len ≤ b.writeIndex := by
    have := h.read_le_write
    omega
  unfold retriveAsString
  rw [if_pos (Nat.le_trans hin h.write_le_size), readable, slice_take, Nat.min_eq_right hin]

theorem retriveAllAsString_spec (h : b.WellFormed) :
    b.retriveAllAsString = some (b.readable, b.retrive b.readableBytes) := by
  rw [retriveAllAsString, retriveAsString_spec h (Nat.le_refl _), h.readableBytes_eq_length,
    List.take_length]

/-- `MakeSpace` throws exactly when the size it asks for is too large; otherwise
the readable bytes stay and `len` more fit behind them. -/
theorem makeSpace_spec (h : b.WellFormed) {len : Nat} (hlen : b.writeIndex + len < SizeT.modulus)
    (hlack : b.writeableBytes < len) :
    (b.makeSpace len = none → maxSize < b.writeIndex + len) ∧
    ∀ b', b.makeSpace len = some b' → b'.WellFormed ∧ b'.readable = b.readable ∧
      b'.writeIndex + len ≤ b'.buffer.length := by
  have hmax := maxSize_lt_modulus
  obtain ⟨h₁, h₂, h₃, h₄⟩ := id h
  rw [h.writeableBytes_eq] at hlack
  unfold makeSpace
  by_cases hl : b.lacksSpace len = true
  · rw [if_pos hl, SizeT.add_of_lt hlen]
    by_cases hfit : b.writeIndex + len ≤ maxSize
    · rw [resize_eq_some hfit]
      refine ⟨fun hn => by simp at hn, fun b' hb => ?_⟩
      simp only [Option.map_some, Option.some.injEq] at hb
      subst hb
      have htake : b.buffer.take (b.writeIndex + len) = b.buffer :=
        List.take_of_length_le (by omega)
      have hsize : b.buffer.length + (b.writeIndex + len - b.buffer.length) =
          b.writeIndex + len := by omega
      rw [htake]
      refine ⟨⟨h₁, h₂, ?_, ?_⟩, slice_append_left h₃, ?_⟩
      · simp
        omega
      · simp only [List.length_append, List.length_replicate]
        omega
      · simp only [List.length_append, List.length_replicate]
        omega
    · rw [resize_eq_none (by omega)]
      exact ⟨fun _ => by omega, fun b' hb => by simp at hb⟩
  · rw [if_neg hl]
    have hroom : len + kCheapPrepend ≤ b.buffer.length - b.writeIndex + b.readIndex := by
      rw [h.lacksSpace_iff hlen] at hl
      omega
    simp only [h.compacted_eq, reduceCtorEq, Option.some.injEq, false_implies, true_and]
    rintro b' rfl
    refine ⟨⟨Nat.le_refl _, Nat.le_add_right _ _, ?_, by simpa using h₄⟩, ?_, ?_⟩
    · simp only [length_copyForward]
      omega
    · -- the readable range, moved down, is what the copy put behind the reserved bytes
      have hcopy := copyForward_eq b.buffer b.readIndex kCheapPrepend
        (b.writeIndex - b.readIndex) h₁ (by omega)
      have hstop : b.readIndex + (b.writeIndex - b.readIndex) = b.writeIndex := by omega
      rw [hstop] at hcopy
      simp only [readable]
      rw [hcopy, List.append_assoc,
        slice_append_right (by rw [List.length_take]; omega), Nat.add_sub_cancel_left,
        List.take_append_of_le_length (by rw [length_slice h₃]),
        List.take_of_length_le (by rw [length_slice h₃])]
    · simp only [length_copyForward]
      omega

theorem ensureWriteableBytes_spec (h : b.WellFormed) {len : Nat}
    (hlen : b.writeIndex + len < SizeT.modulus) :
    (b.ensureWriteableBytes len = none → maxSize < b.writeIndex + len) ∧
    ∀ b', b.ensureWriteableBytes len = some b' → b'.WellFormed ∧ b'.readable = b.readable ∧
      b'.writeIndex + len ≤ b'.buffer.length := by
  unfold ensureWriteableBytes
  by_cases hlack : b.writeableBytes < len
  · rw [if_pos hlack]
    exact makeSpace_spec h hlen hlack
  · rw [if_neg hlack]
    refine ⟨fun hn => by simp at hn, fun b' hb => ?_⟩
    simp only [Option.some.injEq] at hb
    subst hb
    rw [h.writeableBytes_eq] at hlack
    exact ⟨h, rfl, by have := h.write_le_size; omega⟩

theorem WellFormed.extend (h : b.WellFormed) (data : List Byte)
    (hfit : b.writeIndex + data.length ≤ b.buffer.length) :
    let b' : Buffer := { b with
      buffer := overwrite b.buffer b.writeIndex data
      writeIndex := SizeT.add b.writeIndex data.length }
    b'.WellFormed ∧ b'.readable = b.readable ++ data ∧
      b'.writeIndex = b.writeIndex + data.length := by
  obtain ⟨h₁, h₂, h₃, h₄⟩ := h
  have hmax := maxSize_lt_modulus
  rw [SizeT.add_of_lt (by omega : b.writeIndex + data.length < SizeT.modulus)]
  refine ⟨⟨h₁, Nat.le_trans h₂ (Nat.le_add_right _ _), by simpa using hfit, by simpa using h₄⟩,
    ?_, rfl⟩
  simp only [readable]
  rw [slice_split h₂ (Nat.le_add_right b.writeIndex data.length), overwrite_eq _ _ _ hfit,
    List.append_assoc, slice_append_left (by rw [List.length_take]; omega),
    slice_append_right (by rw [List.length_take]; omega), Nat.add_sub_cancel_left,
    List.take_left]
  congr 1
  simp only [slice]
  rw [List.drop_take, List.take_take, Nat.min_self]

theorem append_spec (h : b.WellFormed) (data : List Byte)
    (hlen : b.writeIndex + data.length < SizeT.modulus) :
    (b.append data = none → maxSize < b.writeIndex + data.length) ∧
    ∀ b', b.append data = some b' → b'.WellFormed ∧ b'.readable = b.readable ++ data := by
  obtain ⟨hnone, hsome⟩ := ensureWriteableBytes_spec h hlen
  unfold append
  cases he : b.ensureWriteableBytes data.length with
  | none => exact ⟨fun _ => hnone he, fun b' hb => by simp at hb⟩
  | some e =>
      obtain ⟨hw, hr, hfit⟩ := hsome e he
      refine ⟨fun hn => by simp at hn, fun b' hb => ?_⟩
      simp only [Option.map_some, Option.some.injEq] at hb
      subst hb
      obtain ⟨hw', hr', _⟩ := hw.extend data hfit
      exact ⟨hw', by rw [hr', hr]⟩

/-- `ReadFd` appends exactly the received bytes, however they split over the two `iovec`s. -/
theorem readFd_spec (h : b.WellFormed) (data : List Byte)
    (hlen : b.writeIndex + data.length < SizeT.modulus) :
    (b.readFd (.received data) = none → maxSize < b.writeIndex + data.length) ∧
    ∀ b', b.readFd (.received data) = some b' →
      b'.WellFormed ∧ b'.readable = b.readable ++ data := by
  have hwr := h.writeableBytes_eq
  have hsize := h.write_le_size
  simp only [readFd, filled]
  by_cases hshort : data.length ≤ b.writeableBytes
  · rw [if_pos hshort, List.take_of_length_le hshort]
    refine ⟨fun hn => by simp at hn, fun b' hb => ?_⟩
    simp only [Option.some.injEq] at hb
    subst hb
    obtain ⟨hw', hr', _⟩ := h.extend data (by omega)
    exact ⟨hw', hr'⟩
  · rw [if_neg hshort]
    -- the first iovec is full, so its part is an extension up to the end of the vector
    have hpart : (data.take b.writeableBytes).length = b.writeableBytes := by
      rw [List.length_take]
      omega
    obtain ⟨hw₁, hr₁, hi₁⟩ := h.extend (data.take b.writeableBytes) (by omega)
    have hfull : SizeT.add b.writeIndex (data.take b.writeableBytes).length =
        (overwrite b.buffer b.writeIndex (data.take b.writeableBytes)).length := by
      rw [length_overwrite]
      simp only at hi₁
      omega
    rw [hfull] at hw₁ hr₁
    have hrest : (overwrite b.buffer b.writeIndex (data.take b.writeableBytes)).length +
        (data.drop b.writeableBytes).length = b.writeIndex + data.length := by
      rw [length_overwrite, List.length_drop]
      omega
    obtain ⟨hnone, hsome⟩ := append_spec hw₁ (data.drop b.writeableBytes)
      (by simp only [hrest]; exact hlen)
    refine ⟨fun hn => ?_, fun b' hb => ?_⟩
    · have := hnone hn
      simp only [hrest] at this
      exact this
    · obtain ⟨hw, hr⟩ := hsome b' hb
      refine ⟨hw, ?_⟩
      rw [hr, hr₁, List.append_assoc, List.take_append_drop]

end Buffer

end MyNetLib
