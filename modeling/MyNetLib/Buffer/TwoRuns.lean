import MyNetLib.Buffer.Limits

/-! # What a caller can see of a buffer

Two buffers with the same readable bytes, run side by side. Capacity, index
positions and the bytes outside the readable range may differ; a caller sees
the difference only through `RetriveAsString`, which copies before `Retrive`
clamps its argument.
-/

namespace MyNetLib.Buffer

open Library Library.ByteVector

/-- The calls of a client that appends and retrieves. An appended block is an
object in memory. -/
def ClientCall : Op → Prop
  | .append data => data.length ≤ maxSize
  | .retrive _ | .retriveAll | .retriveAsString _ | .retriveAllAsString => True
  | .ensureWriteableBytes _ | .readFd _ | .writeFd _ => False

/-- Well-formed buffers with the same readable bytes. -/
def SameReadable (b₁ b₂ : Buffer) : Prop :=
  b₁.WellFormed ∧ b₂.WellFormed ∧ b₁.readable = b₂.readable

/-- Both calls return the same string, the first bytes of what was readable. -/
def ReturnsReadable (b₁ b₂ : Buffer) (op : Op) : Prop :=
  ∃ out b₁' b₂', exec b₁ op = some (out, b₁') ∧ exec b₂ op = some (out, b₂') ∧
    out <+: b₁.readable ∧ out <+: b₂.readable

/-- What the two callers see of one call is the same and was readable. A call of
`Append` returns no string. The constructor of `std::string` refuses a length
above `maxSize` before it reads anything. -/
def SeesReadable (b₁ b₂ : Buffer) : Op → Prop
  | .append _ => True
  | .retriveAsString len => len ≤ maxSize → ReturnsReadable b₁ b₂ (.retriveAsString len)
  | op => ReturnsReadable b₁ b₂ op

/-- `RetriveAsString` asks for no more than is readable. -/
def AsksReadable (b₁ _b₂ : Buffer) : Op → Prop
  | .retriveAsString len => len ≤ maxSize → len ≤ b₁.readableBytes
  | _ => True

theorem ClientCall.demand_lt {b : Buffer} {op : Op} (hop : ClientCall op) (hw : b.WellFormed) :
    b.demand op < SizeT.modulus := by
  have hwrite := hw.write_le_size
  have hsize := hw.size_le_max
  have hmod : maxSize + maxSize < SizeT.modulus := by decide
  cases op with
  | append data =>
      have hdata : data.length ≤ maxSize := hop
      show b.writeIndex + data.length < SizeT.modulus
      omega
  | ensureWriteableBytes len => exact hop.elim
  | readFd r => exact hop.elim
  | writeFd w => exact hop.elim
  | _ => exact show 0 < SizeT.modulus by omega

theorem SameReadable.after_exec {b₁ b₂ : Buffer} {op : Op} {r q : List Byte × Buffer}
    (h : SameReadable b₁ b₂) (hop : ClientCall op) (h₁ : exec b₁ op = some r)
    (h₂ : exec b₂ op = some q) : SameReadable r.2 q.2 := by
  obtain ⟨hw₁, hw₂, hsame⟩ := h
  let queue : Fifo Byte := Fifo.empty.push b₁.readable
  have hrep₁ : Represents b₁ queue := ⟨hw₁, rfl⟩
  have hrep₂ : Represents b₂ queue := ⟨hw₂, hsame.symm⟩
  obtain ⟨hw₁', hr₁⟩ := exec_represents hrep₁ (hop.demand_lt hw₁) h₁
  obtain ⟨hw₂', hr₂⟩ := exec_represents hrep₂ (hop.demand_lt hw₂) h₂
  exact ⟨hw₁', hw₂', hr₁.trans hr₂.symm⟩

/-- Asking for more than is readable returns bytes that were not, or reads past the vector. -/
theorem returnsReadable_retriveAsString_iff {b₁ b₂ : Buffer} (h : SameReadable b₁ b₂)
    (len : Nat) : ReturnsReadable b₁ b₂ (.retriveAsString len) ↔ len ≤ b₁.readableBytes := by
  obtain ⟨hw₁, hw₂, hsame⟩ := h
  constructor
  · rintro ⟨out, b₁', b₂', h₁, -, hprefix, -⟩
    simp only [exec, retriveAsString, Option.ite_none_right_eq_some, Option.some.injEq,
      Prod.mk.injEq] at h₁
    obtain ⟨hin, hout, -⟩ := h₁
    have hlength : out.length = len := by
      rw [← hout, length_slice hin, Nat.add_sub_cancel_left]
    rw [hw₁.readableBytes_eq_length, ← hlength]
    exact hprefix.length_le
  · intro hlen
    have hlen₂ : len ≤ b₂.readableBytes := by
      rw [hw₂.readableBytes_eq_length, ← hsame, ← hw₁.readableBytes_eq_length]
      exact hlen
    refine ⟨b₁.readable.take len, b₁.retrive len, b₂.retrive len, retriveAsString_spec hw₁ hlen,
      ?_, List.take_prefix _ _, ?_⟩
    · rw [hsame]
      exact retriveAsString_spec hw₂ hlen₂
    · rw [hsame]
      exact List.take_prefix _ _

theorem seesReadable_iff {b₁ b₂ : Buffer} {op : Op} (h : SameReadable b₁ b₂)
    (hop : ClientCall op) : SeesReadable b₁ b₂ op ↔ AsksReadable b₁ b₂ op := by
  cases op with
  | append data => exact Iff.rfl
  | retrive len => exact iff_of_true ⟨[], _, _, rfl, rfl, List.nil_prefix, List.nil_prefix⟩ trivial
  | retriveAll => exact iff_of_true ⟨[], _, _, rfl, rfl, List.nil_prefix, List.nil_prefix⟩ trivial
  | retriveAsString len =>
      exact imp_congr Iff.rfl (returnsReadable_retriveAsString_iff h len)
  | retriveAllAsString =>
      obtain ⟨hw₁, hw₂, hsame⟩ := h
      have hsecond : b₂.retriveAllAsString = some (b₁.readable, b₂.retrive b₂.readableBytes) := by
        rw [hsame]
        exact retriveAllAsString_spec hw₂
      have hprefix : b₁.readable <+: b₂.readable := by rw [hsame]
      exact iff_of_true ⟨b₁.readable, _, _, retriveAllAsString_spec hw₁, hsecond,
        List.prefix_rfl, hprefix⟩ trivial
  | ensureWriteableBytes len => exact hop.elim
  | readFd r => exact hop.elim
  | writeFd w => exact hop.elim

/-- Over every common sequence of calls the two callers see the same, readable
bytes only, exactly when no `RetriveAsString` asks for more than is readable. The runs end
at a call that throws: a `RetriveAsString` above the largest string is the last one, with
both buffers as they were. -/
theorem sees_readable_iff (b₁ b₂ : Buffer) (ops : List Op) (h₁ : b₁.WellFormed)
    (h₂ : b₂.WellFormed) (hsame : b₁.readable = b₂.readable) (hcalls : ∀ op ∈ ops, ClientCall op) :
    TwoRun exec SeesReadable b₁ b₂ ops ↔ TwoRun exec AsksReadable b₁ b₂ ops := by
  have hagree : ∀ s t op, SameReadable s t → ClientCall op →
      (SeesReadable s t op ↔ AsksReadable s t op) :=
    fun s t op hR hop => seesReadable_iff hR hop
  have hstep : ∀ s t op r q, SameReadable s t → ClientCall op → exec s op = some r →
      exec t op = some q → SameReadable r.2 q.2 :=
    fun s t op r q hR hop hs ht => hR.after_exec hop hs ht
  exact twoRun_iff hagree hstep ⟨h₁, h₂, hsame⟩ hcalls

def leftoverTwo : Buffer := ⟨[0, 0, 0, 0, 0, 0, 0, 0, 7, 2], 8, 9⟩
def leftoverThree : Buffer := ⟨[0, 0, 0, 0, 0, 0, 0, 0, 0, 7, 3], 9, 10⟩

/-- Within the readable bytes the leftovers stay hidden. -/
theorem sees_readable_iff_leftovers :
    TwoRun exec SeesReadable leftoverTwo leftoverThree
      [.append [8], .retriveAsString 1, .retrive 9, .retriveAllAsString] := by
  refine (sees_readable_iff _ _ _ ?_ ?_ ?_ ?_).2 ?_
  · exact ⟨by decide, by decide, by decide, by decide⟩
  · exact ⟨by decide, by decide, by decide, by decide⟩
  · decide
  · intro op hop
    fin_cases hop
    · exact show 1 ≤ maxSize by decide
    · trivial
    · trivial
    · trivial
  · exact ⟨trivial, fun _ => by decide, trivial, trivial, trivial⟩

/-- `RetriveAsString(2)` with one readable byte returns the byte left behind it. -/
theorem leftovers_seen :
    ¬ ∀ (b₁ b₂ : Buffer) (ops : List Op), b₁.WellFormed → b₂.WellFormed →
      b₁.readable = b₂.readable → (∀ op ∈ ops, ClientCall op) →
      TwoRun exec SeesReadable b₁ b₂ ops := by
  intro hclaim
  have hrun := hclaim leftoverTwo leftoverThree [.retriveAsString 2]
    ⟨by decide, by decide, by decide, by decide⟩ ⟨by decide, by decide, by decide, by decide⟩
    (by decide) (by simp [ClientCall])
  obtain ⟨out, b₁', b₂', h₁, h₂, -⟩ := hrun.1 (by decide)
  have hfirst : exec leftoverTwo (.retriveAsString 2) = some ([7, 2], leftoverTwo.retriveAll) := by
    decide
  have hsecond : exec leftoverThree (.retriveAsString 2) =
      some ([7, 3], leftoverThree.retriveAll) := by decide
  rw [hfirst, Option.some.injEq, Prod.mk.injEq] at h₁
  rw [hsecond, Option.some.injEq, Prod.mk.injEq] at h₂
  have hsame : ([7, 2] : List Byte) = [7, 3] := h₁.1.trans h₂.1.symm
  exact absurd hsame (by decide)

end MyNetLib.Buffer
