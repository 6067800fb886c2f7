import MyNetLib.Library.Decimal

/-! # Texts in dictionary order

Numbers written with the same number of digits stand in dictionary order as they do in
size, and texts put together from fields of fixed width as their first different fields do.
-/

namespace MyNetLib.Library

universe u

section Order

variable {α : Type u} [LinearOrder α] {xs ys zs ws : List α}

theorem append_lt_append (hlength : xs.length = ys.length) (h : xs < ys) :
    xs ++ zs < ys ++ ws := by
  induction xs generalizing ys with
  | nil =>
      rw [List.length_nil, eq_comm, List.length_eq_zero_iff] at hlength
      rw [hlength] at h
      exact absurd h (List.not_lt_nil _)
  | cons x xs ih =>
      cases ys with
      | nil => simp at hlength
      | cons y ys =>
          rw [List.cons_append, List.cons_append, List.cons_lt_cons_iff]
          rw [List.cons_lt_cons_iff] at h
          exact h.imp_right fun ⟨hxy, hlt⟩ => ⟨hxy, ih (by simpa using hlength) hlt⟩

end Order

namespace Decimal

/-- `%0wd` for a natural number. -/
def zeroPadded (w n : Nat) : List Char := List.leftpad w '0' (ofNat n)

def digits : Nat → Nat → List Char
  | 0, _ => []
  | w + 1, n => digits w (n / 10) ++ [Nat.digitChar (n % 10)]

@[simp] theorem length_digits (w n : Nat) : (digits w n).length = w := by
  induction w generalizing n with
  | zero => rfl
  | succ w ih => rw [digits, List.length_append, ih, List.length_singleton]

theorem digitChar_lt {a b : Nat} (h : a < b) (hb : b < 10) :
    Nat.digitChar a < Nat.digitChar b := by
  interval_cases b <;> interval_cases a <;> decide

theorem digits_lt {w a b : Nat} (h : a < b) (hb : b < 10 ^ w) : digits w a < digits w b := by
  induction w generalizing a b with
  | zero =>
      simp at hb
      omega
  | succ w ih =>
      rw [Nat.pow_succ] at hb
      rw [digits, digits]
      by_cases hten : a / 10 < b / 10
      · exact append_lt_append (by simp) (ih hten (by omega))
      · rw [show a / 10 = b / 10 by omega]
        apply List.append_left_lt
        rw [List.cons_lt_cons_iff]
        exact Or.inl (digitChar_lt (by omega) (Nat.mod_lt _ (by decide)))

theorem ofNat_of_lt {n : Nat} (h : n < 10) : ofNat n = [Nat.digitChar n] :=
  Nat.toDigits_of_lt_base h

theorem ofNat_of_le {n : Nat} (h : 10 ≤ n) :
    ofNat n = ofNat (n / 10) ++ [Nat.digitChar (n % 10)] :=
  Nat.toDigits_of_base_le (by decide) h

theorem length_zeroPadded {w n : Nat} (hn : n < 10 ^ w) (hw : 0 < w) :
    (zeroPadded w n).length = w := by
  rw [zeroPadded, List.length_leftpad, Nat.max_eq_left (length_ofNat hw hn)]

theorem zeroPadded_succ {w : Nat} (hw : 0 < w) (n : Nat) :
    zeroPadded (w + 1) n = zeroPadded w (n / 10) ++ [Nat.digitChar (n % 10)] := by
  rcases Nat.lt_or_ge n 10 with h | h
  · obtain ⟨v, rfl⟩ : ∃ v, w = v + 1 := ⟨w - 1, by omega⟩
    rw [zeroPadded, zeroPadded, Nat.div_eq_of_lt h, Nat.mod_eq_of_lt h, ofNat_of_lt h]
    show List.replicate (v + 1) '0' ++ _ = List.replicate v '0' ++ ['0'] ++ _
    rw [List.replicate_succ']
  · rw [zeroPadded, zeroPadded, List.leftpad, List.leftpad, ofNat_of_le h, List.length_append,
      List.length_singleton, Nat.add_sub_add_right, List.append_assoc]

theorem zeroPadded_eq {w n : Nat} (hw : 0 < w) (hn : n < 10 ^ w) :
    zeroPadded w n = digits w n := by
  induction w generalizing n with
  | zero => omega
  | succ w ih =>
      rw [Nat.pow_succ] at hn
      rcases Nat.eq_zero_or_pos w with rfl | hpos
      · rw [zeroPadded, ofNat_of_lt (by omega), digits, Nat.mod_eq_of_lt (by omega)]
        rfl
      · rw [zeroPadded_succ hpos, ih hpos (by omega), digits]

/-- A field of fixed width decides, or what stands behind it. -/
theorem zeroPadded_append_lt {w a b : Nat} {xs ys : List Char} (hw : 0 < w) (hb : b < 10 ^ w)
    (h : a < b ∨ a = b ∧ xs < ys) : zeroPadded w a ++ xs < zeroPadded w b ++ ys := by
  rcases h with h | ⟨rfl, h⟩
  · rw [zeroPadded_eq hw (h.trans hb), zeroPadded_eq hw hb]
    exact append_lt_append (by simp) (digits_lt h hb)
  · exact List.append_left_lt h

theorem zeroPadded_of_le {w n : Nat} (hw : 0 < w) (hn : 10 ^ w ≤ n) :
    zeroPadded (w + 1) n = ofNat n := by
  have hlength : ¬ (ofNat n).length ≤ w := by
    intro hle
    have hlt := (Nat.length_toDigits_le_iff (by decide) hw).1 hle
    omega
  rw [zeroPadded, List.leftpad, show w + 1 - (ofNat n).length = 0 by omega, List.replicate_zero,
    List.nil_append]

theorem ofInt_natCast (n : Nat) : ofInt n = ofNat n := by
  rw [ofInt_of_nonneg (Int.natCast_nonneg n), Int.toNat_natCast]

end Decimal

end MyNetLib.Library
