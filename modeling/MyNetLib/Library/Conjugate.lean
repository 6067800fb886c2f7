import Mathlib

/-! # Conjugate words

`m ++ r = r ++ w` says that `w` comes out where `m` went in and `r` passed through
unchanged: `r` repeats `m`, and `w` is `m` turned by the length of `r`.
-/

namespace MyNetLib.Library

universe u

variable {α : Type u} {m r w : List α}

theorem length_of_conjugate (h : m ++ r = r ++ w) : w.length = m.length := by
  have hlength := congrArg List.length h
  simp only [List.length_append] at hlength
  omega

/-- A word not longer than `m` is its beginning. -/
theorem conjugate_short (h : m ++ r = r ++ w) (hle : r.length ≤ m.length) :
    r <+: m ∧ w = m.rotate r.length := by
  obtain ⟨t, ht⟩ : r <+: m := by
    have hr : r <+: m ++ r := h ▸ List.prefix_append r w
    exact List.prefix_of_prefix_length_le hr (List.prefix_append m r) hle
  refine ⟨⟨t, ht⟩, ?_⟩
  have hw : t ++ r = w := by
    rw [← ht, List.append_assoc] at h
    exact List.append_cancel_left h
  rw [← ht, List.rotate_append_length_eq, hw]

/-- A longer word begins with `m`, and the rest of it is as before. -/
theorem conjugate_long (h : m ++ r = r ++ w) (hlt : m.length < r.length) :
    ∃ r', r = m ++ r' ∧ m ++ r' = r' ++ w := by
  obtain ⟨r', rfl⟩ : m <+: r := by
    have hr : r <+: m ++ r := h ▸ List.prefix_append r w
    exact List.prefix_of_prefix_length_le (List.prefix_append m r) hr hlt.le
  refine ⟨r', rfl, ?_⟩
  rw [List.append_assoc] at h
  exact List.append_cancel_left h

theorem conjugate_cycles (hm : m ≠ []) (h : m ++ r = r ++ w) :
    (∀ i < r.length, r[i]? = m[i % m.length]?) ∧ w = m.rotate r.length := by
  induction hn : r.length using Nat.strong_induction_on generalizing r with
  | _ n ih =>
      have hpos := List.length_pos_of_ne_nil hm
      by_cases hle : r.length ≤ m.length
      · obtain ⟨hpre, hw⟩ := conjugate_short h hle
        refine ⟨?_, hn ▸ hw⟩
        intro i hi
        obtain ⟨t, ht⟩ := hpre
        rw [Nat.mod_eq_of_lt (by omega), ← ht, List.getElem?_append_left (by omega)]
      · obtain ⟨r', rfl, h'⟩ := conjugate_long h (by omega)
        rw [List.length_append] at hn
        obtain ⟨hread, hw⟩ := ih r'.length (by omega) h' rfl
        constructor
        · intro i hi
          by_cases hfirst : i < m.length
          · rw [List.getElem?_append_left hfirst, Nat.mod_eq_of_lt hfirst]
          · rw [List.getElem?_append_right (by omega), hread _ (by omega),
              Nat.mod_eq_sub_mod (show m.length ≤ i by omega)]
        · rw [← hn, ← List.rotate_rotate, List.rotate_length]
          exact hw

/-- Where nothing went in nothing comes out. -/
theorem conjugate_rotate (h : m ++ r = r ++ w) : w = m.rotate r.length := by
  by_cases hm : m = []
  · have hlength := length_of_conjugate h
    rw [hm, List.length_nil, List.length_eq_zero_iff] at hlength
    rw [hm, hlength, List.rotate_nil]
  · exact (conjugate_cycles hm h).2

end MyNetLib.Library
