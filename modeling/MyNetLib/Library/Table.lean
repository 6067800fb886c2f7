import Mathlib

/-! # Tables filled by assignments

A list of items is read in order; an item either assigns a value to a key or does
nothing. The table keeps the last assignment to each key.
-/

namespace MyNetLib.Library

universe u v w

variable {ι : Type u} {κ : Type v} {ν : Type w} [DecidableEq κ]

def assign (f : ι → Option (κ × ν)) (table : κ → Option ν) (i : ι) : κ → Option ν :=
  match f i with
  | none => table
  | some (k, v) => Function.update table k (some v)

def tableOf (f : ι → Option (κ × ν)) (items : List ι) : κ → Option ν :=
  items.foldl (assign f) fun _ => none

variable {f g : ι → Option (κ × ν)} {items before after : List ι} {i : ι} {k : κ} {v : ν}

@[simp] theorem tableOf_nil (k : κ) : tableOf f ([] : List ι) k = none := rfl

theorem tableOf_append (before after : List ι) :
    tableOf f (before ++ after) = after.foldl (assign f) (tableOf f before) :=
  List.foldl_append

theorem tableOf_concat_self (h : f i = some (k, v)) : tableOf f (items ++ [i]) k = some v := by
  rw [tableOf_append]
  simp [assign, h]

theorem tableOf_concat_other (h : ∀ v, f i ≠ some (k, v)) :
    tableOf f (items ++ [i]) k = tableOf f items k := by
  rw [tableOf_append]
  simp only [List.foldl_cons, List.foldl_nil, assign]
  cases hi : f i with
  | none => rfl
  | some entry =>
      obtain ⟨l, u⟩ := entry
      have hne : k ≠ l := by
        rintro rfl
        exact h u hi
      exact Function.update_of_ne hne _ _

theorem tableOf_append_other (h : ∀ j ∈ after, ∀ v, f j ≠ some (k, v)) :
    tableOf f (before ++ after) k = tableOf f before k := by
  induction after using List.reverseRecOn with
  | nil => rw [List.append_nil]
  | append_singleton after j ih =>
      rw [← List.append_assoc, tableOf_concat_other]
      · apply ih
        intro i hi
        exact h i (List.mem_append_left _ hi)
      · exact h j (by simp)

theorem tableOf_eq_none (h : ∀ i ∈ items, ∀ v, f i ≠ some (k, v)) : tableOf f items k = none := by
  have hempty : tableOf f ([] ++ items) k = tableOf f [] k := tableOf_append_other h
  simpa using hempty

/-- The last item that assigns to the key decides. -/
theorem tableOf_eq_of_last (hi : f i = some (k, v))
    (hafter : ∀ j ∈ after, ∀ v, f j ≠ some (k, v)) :
    tableOf f (before ++ i :: after) k = some v := by
  rw [List.append_cons, tableOf_append_other hafter, tableOf_concat_self hi]

omit [DecidableEq κ] in
theorem last_assignment (f : ι → Option (κ × ν)) (items : List ι) (k : κ) :
    (∀ i ∈ items, ∀ v, f i ≠ some (k, v)) ∨
      ∃ before i after v, items = before ++ i :: after ∧ f i = some (k, v) ∧
        ∀ j ∈ after, ∀ v, f j ≠ some (k, v) := by
  induction items with
  | nil =>
      left
      simp
  | cons i items ih =>
      cases ih with
      | inr hlast =>
          obtain ⟨before, j, after, v, rfl, hj, hafter⟩ := hlast
          exact Or.inr ⟨i :: before, j, after, v, rfl, hj, hafter⟩
      | inl hnone =>
          by_cases hi : ∃ v, f i = some (k, v)
          · obtain ⟨v, hv⟩ := hi
            exact Or.inr ⟨[], i, items, v, rfl, hv, hnone⟩
          · left
            intro j hj v hv
            rw [List.mem_cons] at hj
            cases hj with
            | inl heq => exact hi ⟨v, heq ▸ hv⟩
            | inr hmem => exact hnone j hmem v hv

theorem tableOf_eq_some_iff : tableOf f items k = some v ↔
    ∃ before i after, items = before ++ i :: after ∧ f i = some (k, v) ∧
      ∀ j ∈ after, ∀ v, f j ≠ some (k, v) := by
  constructor
  · intro h
    obtain hnone | ⟨before, i, after, u, rfl, hi, hafter⟩ := last_assignment f items k
    · rw [tableOf_eq_none hnone] at h
      cases h
    · rw [tableOf_eq_of_last hi hafter] at h
      cases h
      exact ⟨before, i, after, rfl, hi, hafter⟩
  · rintro ⟨before, i, after, rfl, hi, hafter⟩
    exact tableOf_eq_of_last hi hafter

/-- On top of a table the assignments hide what it has. -/
theorem foldl_assign (table : κ → Option ν) (k : κ) :
    items.foldl (assign f) table k = (tableOf f items k).or (table k) := by
  induction items using List.reverseRecOn with
  | nil => rfl
  | append_singleton items i ih =>
      rw [List.foldl_append, tableOf_append]
      simp only [List.foldl_cons, List.foldl_nil, assign]
      cases hi : f i with
      | none => exact ih
      | some entry =>
          obtain ⟨l, v⟩ := entry
          dsimp only
          by_cases hk : k = l
          · rw [hk, Function.update_self, Function.update_self, Option.some_or]
          · rw [Function.update_of_ne hk, Function.update_of_ne hk, ih]

theorem tableOf_congr (h : ∀ i ∈ items, f i = g i) : tableOf f items = tableOf g items := by
  apply List.foldl_ext
  intro table i hi
  rw [assign, assign, h i hi]

/-- `f` makes the assignments of `g` and others. The others do no harm exactly where a
later assignment hides them or `g` had given the same value before. -/
theorem tableOf_eq_iff (h : ∀ i k v, g i = some (k, v) → f i = some (k, v)) :
    tableOf f items = tableOf g items ↔
      ∀ before i after, items = before ++ i :: after → ∀ k v, f i = some (k, v) → g i = none →
        (∃ j ∈ after, ∃ v, f j = some (k, v)) ∨ tableOf g before k = some v := by
  constructor
  · rintro heq before i after rfl k v hi hg
    by_cases hlater : ∃ j ∈ after, ∃ v, f j = some (k, v)
    · exact Or.inl hlater
    · right
      have hafter : ∀ j ∈ after, ∀ v, f j ≠ some (k, v) := by
        intro j hj u hu
        exact hlater ⟨j, hj, u, hu⟩
      have hvalue : tableOf f (before ++ i :: after) k = some v := tableOf_eq_of_last hi hafter
      rw [heq, List.append_cons, tableOf_append_other, tableOf_concat_other] at hvalue
      · exact hvalue
      · simp [hg]
      · intro j hj u hu
        exact hafter j hj u (h j k u hu)
  · intro hharmless
    funext k
    obtain hnone | ⟨before, i, after, v, rfl, hi, hafter⟩ := last_assignment f items k
    · rw [tableOf_eq_none hnone, tableOf_eq_none]
      intro i hi v hv
      exact hnone i hi v (h i k v hv)
    · have hafter' : ∀ j ∈ after, ∀ u, g j ≠ some (k, u) := by
        intro j hj u hu
        exact hafter j hj u (h j k u hu)
      rw [tableOf_eq_of_last hi hafter]
      cases hg : g i with
      | some entry =>
          obtain ⟨l, u⟩ := entry
          have hsame := h i l u hg
          rw [hi] at hsame
          cases hsame
          exact (tableOf_eq_of_last hg hafter').symm
      | none =>
          rw [List.append_cons, tableOf_append_other hafter', tableOf_concat_other (by simp [hg])]
          cases hharmless before i after rfl k v hi hg with
          | inl hlater =>
              obtain ⟨j, hj, u, hu⟩ := hlater
              exact absurd hu (hafter j hj u)
          | inr hvalue => exact hvalue.symm

end MyNetLib.Library
