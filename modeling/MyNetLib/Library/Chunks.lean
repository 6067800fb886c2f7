import Mathlib

/-! # Items in chunks

A sequence of items, each with a text, written out as consecutive chunks of text
none of which splits an item.
-/

namespace MyNetLib.Library

universe u v

variable {α : Type u} {β : Type v} {text : β → List α} {items : List β} {chunks : List (List α)}

def textOf (text : β → List α) (items : List β) : List α := (items.map text).flatten

@[simp] theorem textOf_nil (text : β → List α) : textOf text [] = [] := rfl

@[simp] theorem textOf_append (text : β → List α) (xs ys : List β) :
    textOf text (xs ++ ys) = textOf text xs ++ textOf text ys := by
  simp [textOf]

@[simp] theorem textOf_singleton (text : β → List α) (x : β) : textOf text [x] = text x := by
  simp [textOf]

/-- The items fall into consecutive groups, one for each chunk. -/
def InChunks (text : β → List α) (items : List β) (chunks : List (List α)) : Prop :=
  ∃ groups : List (List β), groups.flatten = items ∧ groups.map (textOf text) = chunks

namespace InChunks

theorem flatten (h : InChunks text items chunks) : chunks.flatten = textOf text items := by
  obtain ⟨groups, rfl, rfl⟩ := h
  induction groups with
  | nil => rfl
  | cons g rest ih => simp [ih]

theorem extend {last : List α} (h : InChunks text items (chunks ++ [last])) (x : β) :
    InChunks text (items ++ [x]) (chunks ++ [last ++ text x]) := by
  obtain ⟨groups, hitems, hchunks⟩ := h
  rcases List.eq_nil_or_concat groups with rfl | ⟨front, g, rfl⟩
  · simp at hchunks
  · simp only [List.concat_eq_append, List.map_append, List.map_cons, List.map_nil] at hchunks
    have hsplit := List.append_inj' hchunks rfl
    refine ⟨front ++ [g ++ [x]], ?_, ?_⟩
    · rw [← hitems]
      simp
    · simp only [List.map_append, List.map_cons, List.map_nil, textOf_append, textOf_singleton]
      rw [hsplit.1, List.singleton_inj.1 hsplit.2]

theorem push (h : InChunks text items chunks) (g : List β) :
    InChunks text (items ++ g) (chunks ++ [textOf text g]) := by
  obtain ⟨groups, rfl, rfl⟩ := h
  exact ⟨groups ++ [g], by simp, by simp⟩

theorem split {front rest : List (List α)} (h : InChunks text items (front ++ rest)) :
    ∃ xs ys, items = xs ++ ys ∧ InChunks text xs front ∧ InChunks text ys rest := by
  obtain ⟨groups, rfl, hchunks⟩ := h
  obtain ⟨g₁, g₂, rfl, h₁, h₂⟩ := List.map_eq_append_iff.1 hchunks
  exact ⟨g₁.flatten, g₂.flatten, List.flatten_append, ⟨g₁, rfl, h₁⟩, ⟨g₂, rfl, h₂⟩⟩

/-- Chunks that are themselves written out in larger chunks, none split. -/
theorem trans {large : List (List α)} (h : InChunks text items chunks)
    (hl : InChunks id chunks large) : InChunks text items large := by
  obtain ⟨groups, hgroups, hlarge⟩ := hl
  induction groups generalizing items chunks large with
  | nil =>
      rw [← hgroups] at h
      rw [← hlarge]
      exact h
  | cons g groups ih =>
      rw [List.flatten_cons] at hgroups
      rw [← hgroups] at h
      obtain ⟨xs, ys, rfl, hxs, hys⟩ := h.split
      obtain ⟨rest, hrest, hmap⟩ := ih hys rfl rfl
      refine ⟨xs :: rest, by rw [List.flatten_cons, hrest], ?_⟩
      have hfirst : textOf text xs = textOf id g := by
        rw [← hxs.flatten, textOf, List.map_id]
      rw [List.map_cons, hmap, ← hlarge, List.map_cons, hfirst]

end InChunks

end MyNetLib.Library
