import MyNetLib.Buffer.Model
import MyNetLib.Library.Refinement

/-! # The buffer is a byte queue

The public operations of `Buffer` as one interpreter, the byte queue they
implement, and the refinement between the two over every sequence of calls.
-/

namespace MyNetLib.Buffer

open Library Library.ByteVector

/-! ## Operations -/

inductive Op where
  | append (data : List Byte)
  | retrive (len : Nat)
  | retriveAll
  | retriveAsString (len : Nat)
  | retriveAllAsString
  | ensureWriteableBytes (len : Nat)
  | readFd (r : ReadvResult)
  | writeFd (w : WriteResult)
  deriving Repr

/-- Run one call: the string it returns (empty for the others) and the buffer after it. -/
def exec (b : Buffer) : Op → Option (List Byte × Buffer)
  | .append data => (b.append data).map fun b' => ([], b')
  | .retrive len => some ([], b.retrive len)
  | .retriveAll => some ([], b.retriveAll)
  | .retriveAsString len => b.retriveAsString len
  | .retriveAllAsString => b.retriveAllAsString
  | .ensureWriteableBytes len => (b.ensureWriteableBytes len).map fun b' => ([], b')
  | .readFd r => (b.readFd r).map fun b' => ([], b')
  | .writeFd w => some ([], (b.writeFd w).2)

/-- The size a call may ask the vector for. -/
def demand (b : Buffer) : Op → Nat
  | .append data => b.writeIndex + data.length
  | .ensureWriteableBytes len => b.writeIndex + len
  | .readFd (.received data) => b.writeIndex + data.length
  | _ => 0

/-- No `size_t` overflow, `RetriveAsString` within the readable bytes, and a
`readv` that delivers at most what it was offered. -/
def Admissible (b : Buffer) (op : Op) : Prop :=
  b.demand op < SizeT.modulus ∧
    match op with
    | .retriveAsString len => len ≤ b.readableBytes
    | .readFd (.received data) => data.length ≤ b.readvRoom
    | _ => True

/-- Source and destination of the compaction copy the call makes, if it makes one. -/
def compaction (b : Buffer) : Op → Option (Nat × Nat)
  | .append data => if b.compacts data.length then some (b.readIndex, kCheapPrepend) else none
  | .ensureWriteableBytes len => if b.compacts len then some (b.readIndex, kCheapPrepend) else none
  | .readFd (.received data) =>
      let full : Buffer := { b.filled data with writeIndex := (b.filled data).buffer.length }
      if data.length ≤ b.writeableBytes then none
      else if full.compacts (data.drop b.writeableBytes).length then
        some (full.readIndex, kCheapPrepend)
      else none
  | _ => none

/-- A `ReadFd` or `WriteFd` whose system call failed. -/
def Op.failed : Op → Bool
  | .readFd (.failed _) => true
  | .writeFd (.failed _ _) => true
  | _ => false

/-! ## The byte queue -/

/-- What the calls mean on a queue of bytes. -/
def fifoExec (q : Fifo Byte) : Op → List Byte × Fifo Byte
  | .append data => ([], q.push data)
  | .retrive len => ([], q.pop len)
  | .retriveAll => ([], q.pop q.content.length)
  | .retriveAsString len => (q.content.take len, q.pop len)
  | .retriveAllAsString => (q.content, q.pop q.content.length)
  | .ensureWriteableBytes _ => ([], q)
  | .readFd (.received data) => ([], q.push data)
  | .readFd (.failed _) => ([], q)
  | .writeFd _ => ([], q)

def Represents (b : Buffer) (q : Fifo Byte) : Prop :=
  b.WellFormed ∧ b.readable = q.content

/-- One call leaves the bytes the call on the queue leaves, also a `RetriveAsString`
of more than is readable: `Retrive` clamps what it removes. -/
theorem exec_represents {b b' : Buffer} {q : Fifo Byte} {op : Op} {out : List Byte}
    (hR : Represents b q) (hlen : b.demand op < SizeT.modulus) (h : exec b op = some (out, b')) :
    Represents b' (fifoExec q op).2 := by
  obtain ⟨hw, hr⟩ := hR
  cases op with
  | append data =>
      simp only [exec, Option.map_eq_some_iff, Prod.mk.injEq] at h
      obtain ⟨b₁, hb, -, rfl⟩ := h
      have hs := (append_spec hw data hlen).2 b₁ hb
      exact ⟨hs.1, by rw [hs.2, hr]; rfl⟩
  | retrive len =>
      simp only [exec, Option.some.injEq, Prod.mk.injEq] at h
      obtain ⟨-, rfl⟩ := h
      have hs := retrive_spec hw len
      exact ⟨hs.1, by rw [hs.2, hr]; rfl⟩
  | retriveAll =>
      simp only [exec, Option.some.injEq, Prod.mk.injEq] at h
      obtain ⟨-, rfl⟩ := h
      have hs := retriveAll_spec hw
      exact ⟨hs.1, by simp [hs.2, fifoExec]⟩
  | retriveAsString len =>
      simp only [exec, retriveAsString, Option.ite_none_right_eq_some, Option.some.injEq,
        Prod.mk.injEq] at h
      obtain ⟨-, -, rfl⟩ := h
      have hs := retrive_spec hw len
      exact ⟨hs.1, by rw [hs.2, hr]; rfl⟩
  | retriveAllAsString =>
      simp only [exec, retriveAllAsString_spec hw, Option.some.injEq, Prod.mk.injEq] at h
      obtain ⟨-, rfl⟩ := h
      have hs := retrive_spec hw b.readableBytes
      exact ⟨hs.1, by rw [hs.2, hw.readableBytes_eq_length, hr]; rfl⟩
  | ensureWriteableBytes len =>
      simp only [exec, Option.map_eq_some_iff, Prod.mk.injEq] at h
      obtain ⟨b₁, hb, -, rfl⟩ := h
      have hs := (ensureWriteableBytes_spec hw hlen).2 b₁ hb
      exact ⟨hs.1, by rw [hs.2.1, hr]; rfl⟩
  | readFd r =>
      simp only [exec, Option.map_eq_some_iff, Prod.mk.injEq] at h
      obtain ⟨b₁, hb, -, rfl⟩ := h
      cases r with
      | failed errno =>
          cases hb
          exact ⟨hw, hr⟩
      | received data =>
          have hs := (readFd_spec hw data hlen).2 b₁ hb
          exact ⟨hs.1, by rw [hs.2, hr]; rfl⟩
  | writeFd w =>
      simp only [exec, writeFd, Option.some.injEq, Prod.mk.injEq] at h
      obtain ⟨-, rfl⟩ := h
      exact ⟨hw, hr⟩

theorem exec_returns {b b' : Buffer} {q : Fifo Byte} {op : Op} {out : List Byte}
    (hR : Represents b q) (hadm : Admissible b op) (h : exec b op = some (out, b')) :
    out = (fifoExec q op).1 := by
  obtain ⟨hw, hr⟩ := hR
  cases op with
  | retriveAsString len =>
      simp only [exec, retriveAsString_spec hw hadm.2, Option.some.injEq, Prod.mk.injEq] at h
      rw [← h.1, hr]
      rfl
  | retriveAllAsString =>
      simp only [exec, retriveAllAsString_spec hw, Option.some.injEq, Prod.mk.injEq] at h
      rw [← h.1, hr]
      rfl
  | readFd r =>
      simp only [exec, Option.map_eq_some_iff, Prod.mk.injEq] at h
      obtain ⟨_, _, rfl, _⟩ := h
      cases r with
      | failed errno => rfl
      | received data => rfl
  | append data =>
      simp only [exec, Option.map_eq_some_iff, Prod.mk.injEq] at h
      obtain ⟨_, _, rfl, _⟩ := h
      rfl
  | ensureWriteableBytes len =>
      simp only [exec, Option.map_eq_some_iff, Prod.mk.injEq] at h
      obtain ⟨_, _, rfl, _⟩ := h
      rfl
  | retrive len =>
      cases h
      rfl
  | retriveAll =>
      cases h
      rfl
  | writeFd w =>
      cases h
      rfl

theorem exec_refines (b : Buffer) (q : Fifo Byte) (op : Op) (out : List Byte) (b' : Buffer)
    (hR : Represents b q) (hadm : Admissible b op) (h : exec b op = some (out, b')) :
    out = (fifoExec q op).1 ∧ Represents b' (fifoExec q op).2 :=
  ⟨exec_returns hR hadm h, exec_represents hR hadm.1 h⟩

/-- A call that does not return asked for more than a vector can have. -/
theorem demand_of_exec_none {b : Buffer} (hw : b.WellFormed) {op : Op} (hadm : Admissible b op)
    (h : exec b op = none) : maxSize < b.demand op := by
  obtain ⟨hlen, hop⟩ := hadm
  cases op with
  | append data =>
      simp only [exec, Option.map_eq_none_iff] at h
      exact (append_spec hw data hlen).1 h
  | retrive len => simp [exec] at h
  | retriveAll => simp [exec] at h
  | retriveAsString len => simp [exec, retriveAsString_spec hw hop] at h
  | retriveAllAsString => simp [exec, retriveAllAsString_spec hw] at h
  | ensureWriteableBytes len =>
      simp only [exec, Option.map_eq_none_iff] at h
      exact (ensureWriteableBytes_spec hw hlen).1 h
  | readFd r =>
      simp only [exec, Option.map_eq_none_iff] at h
      cases r with
      | failed errno => simp [readFd] at h
      | received data => exact (readFd_spec hw data hlen).1 h
  | writeFd w => simp [exec] at h

theorem exec_of_failed {b : Buffer} {op : Op} (h : op.failed = true) :
    exec b op = some ([], b) := by
  cases op with
  | readFd r =>
      cases r with
      | failed errno => rfl
      | received data => simp [Op.failed] at h
  | writeFd w => rfl
  | append data => simp [Op.failed] at h
  | retrive len => simp [Op.failed] at h
  | retriveAll => simp [Op.failed] at h
  | retriveAsString len => simp [Op.failed] at h
  | retriveAllAsString => simp [Op.failed] at h
  | ensureWriteableBytes len => simp [Op.failed] at h

/-- In `ReadFd` the overflow part is appended to a buffer filled to its end. -/
theorem filled_wellFormed {b : Buffer} (hw : b.WellFormed) (data : List Byte) :
    ({ b.filled data with writeIndex := (b.filled data).buffer.length } : Buffer).WellFormed := by
  obtain ⟨h₁, h₂, h₃, h₄⟩ := hw
  constructor
  · exact h₁
  · show b.readIndex ≤ (overwrite _ _ _).length
    rw [length_overwrite]
    omega
  · exact Nat.le_refl _
  · show (overwrite _ _ _).length ≤ maxSize
    rw [length_overwrite]
    exact h₄

theorem compaction_moves_down {b : Buffer} (hw : b.WellFormed) {op : Op} (hadm : Admissible b op)
    {source destination : Nat} (h : b.compaction op = some (source, destination)) :
    destination < source := by
  obtain ⟨hlen, _⟩ := hadm
  have hmove : ∀ {c : Buffer} {len : Nat}, c.WellFormed → c.writeIndex + len < SizeT.modulus →
      (if c.compacts len then some (c.readIndex, kCheapPrepend) else none) =
        some (source, destination) → destination < source := by
    intro c len hc hlen hif
    split at hif
    · rename_i hcompacts
      cases hif
      exact hc.prepend_lt_of_compacts hlen hcompacts
    · cases hif
  cases op with
  | append data => exact hmove hw hlen h
  | ensureWriteableBytes len => exact hmove hw hlen h
  | readFd r =>
      cases r with
      | failed errno => cases h
      | received data =>
          simp only [compaction] at h
          split at h
          · cases h
          · rename_i hlong
            have hsum : (b.filled data).buffer.length + (data.drop b.writeableBytes).length =
                b.writeIndex + data.length := by
              simp only [filled, length_overwrite, List.length_drop]
              have := hw.writeableBytes_eq
              have := hw.write_le_size
              omega
            exact hmove (filled_wellFormed hw data) (by rw [hsum]; exact hlen) h
  | retrive len => cases h
  | retriveAll => cases h
  | retriveAsString len => cases h
  | retriveAllAsString => cases h
  | writeFd w => cases h

/-- Over every admissible sequence of calls on a fresh buffer: the index order
holds, what the calls returned and the readable bytes are those of the byte
queue, so everything that arrived was removed or is readable, in order; and for
any next call the exception is the vector's size limit, a failed system call
changes nothing, and a compaction copies downwards. -/
theorem buffer_refines_fifo (initialSize : Nat) (b₀ b : Buffer) (ops : List Op)
    (outs : List (List Byte)) (hsize : kCheapPrepend + initialSize < SizeT.modulus)
    (hnew : new initialSize = some b₀) (hadm : AdmissibleRun exec Admissible b₀ ops)
    (hrun : runAll exec b₀ ops = some (outs, b)) :
    (8 ≤ b.readIndex ∧ b.readIndex ≤ b.writeIndex ∧ b.writeIndex ≤ b.buffer.length) ∧
    outs = (specAll fifoExec .empty ops).1 ∧
    b.readable = (specAll fifoExec .empty ops).2.content ∧
    (specAll fifoExec .empty ops).2.removed ++ b.readable =
      (specAll fifoExec .empty ops).2.arrived ∧
    ∀ op, Admissible b op →
      (exec b op = none → maxSize < b.demand op) ∧
      (op.failed = true → exec b op = some ([], b)) ∧
      (∀ source destination, b.compaction op = some (source, destination) →
        destination < source) := by
  have hfresh := new_spec hsize hnew
  have hempty : Represents b₀ .empty := ⟨hfresh.1, hfresh.2.1⟩
  have hrefines := runAll_refines exec_refines hempty hadm hrun
  obtain ⟨houts, hw, hcontent⟩ := hrefines
  have hconserved := (specAll fifoExec .empty ops).2.conserved
  rw [← hcontent] at hconserved
  refine ⟨⟨hw.prepend_le_read, hw.read_le_write, hw.write_le_size⟩, houts, hcontent,
    hconserved, ?_⟩
  intro op hop
  exact ⟨demand_of_exec_none hw hop, exec_of_failed, fun _ _ => compaction_moves_down hw hop⟩

/-- A buffer of two bytes grows once, then moves its readable bytes down. -/
theorem buffer_refines_fifo_two :
    runAll exec ⟨List.replicate 10 0, 8, 8⟩
        [.append [1, 2, 3], .retriveAsString 2, .append [4, 5]] =
      some ([[], [1, 2], []], ⟨[0, 0, 0, 0, 0, 0, 0, 0, 3, 4, 5], 8, 11⟩) ∧
    (⟨[0, 0, 0, 0, 0, 0, 0, 0, 3, 4, 5], 8, 11⟩ : Buffer).readable =
      (specAll fifoExec .empty
        [.append [1, 2, 3], .retriveAsString 2, .append [4, 5]]).2.content := by
  have hrun : runAll exec ⟨List.replicate 10 0, 8, 8⟩
      [.append [1, 2, 3], .retriveAsString 2, .append [4, 5]] =
      some ([[], [1, 2], []], ⟨[0, 0, 0, 0, 0, 0, 0, 0, 3, 4, 5], 8, 11⟩) := by decide
  have hadm : AdmissibleRun exec Admissible ⟨List.replicate 10 0, 8, 8⟩
      [.append [1, 2, 3], .retriveAsString 2, .append [4, 5]] :=
    ⟨⟨by decide, trivial⟩, ⟨by decide, by decide⟩, ⟨by decide, trivial⟩, trivial⟩
  exact ⟨hrun, (buffer_refines_fifo 2 _ _ _ _ (by decide) (by decide) hadm hrun).2.2.1⟩

end MyNetLib.Buffer
