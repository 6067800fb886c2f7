import MyNetLib.Library.Memory

/-! # Decimal text

What `%u`, `%d` and `std::to_string` write for an integer: digits without
leading zeros, behind a sign for a negative one.
-/

namespace MyNetLib.Library.Decimal

def ofNat (n : Nat) : List Char := Nat.toDigits 10 n

def ofInt (n : Int) : List Char := if n < 0 then '-' :: ofNat n.natAbs else ofNat n.natAbs

/-- One byte a character. -/
def ascii (text : List Char) : List Byte := text.map fun c => c.toNat.toUInt8

theorem length_ofNat {n k : Nat} (hk : 0 < k) (hn : n < 10 ^ k) : (ofNat n).length ≤ k :=
  (Nat.length_toDigits_le_iff (by decide) hk).2 hn

theorem ofNat_injective : Function.Injective ofNat := by
  intro m n h
  have hread := congrArg (fun digits => Nat.ofDigitChars 10 digits 0) h
  simpa [ofNat] using hread

theorem ofInt_of_nonneg {n : Int} (h : 0 ≤ n) : ofInt n = ofNat n.toNat := by
  have habs : n.natAbs = n.toNat := by omega
  rw [ofInt, if_neg (by omega), habs]

end MyNetLib.Library.Decimal
