import Mathlib

/-! # Binary heaps with their keys elsewhere

A heap is a list in level order. `comp x y` says that `y` goes before `x`; it is
a parameter of every operation and not a fact about the elements, so that a
caller may rewrite the keys between two operations. The laws below hold for any
comparison: they say which elements a heap holds and when its root stays.
-/

namespace MyNetLib.Library.BinaryHeap

universe u

variable {α : Type u} (comp : α → α → Bool)

/-- Exchange the element at `i` with its parent while it goes before it. -/
def siftUp : Nat → List α → Nat → List α
  | 0, h, _ => h
  | fuel + 1, h, i =>
      if i = 0 then h
      else
        match h[(i - 1) / 2]?, h[i]? with
        | some parent, some x =>
            if comp parent x then siftUp fuel (h.swap ((i - 1) / 2) i) ((i - 1) / 2) else h
        | _, _ => h

/-- The child of `i` that goes before the other. -/
def firstChild (h : List α) (i : Nat) : Option Nat :=
  match h[2 * i + 1]?, h[2 * i + 2]? with
  | some left, some right => if comp left right then some (2 * i + 2) else some (2 * i + 1)
  | some _, none => some (2 * i + 1)
  | none, _ => none

/-- Exchange the element at `i` with its first child while that goes before it. -/
def siftDown : Nat → List α → Nat → List α
  | 0, h, _ => h
  | fuel + 1, h, i =>
      match firstChild comp h i with
      | none => h
      | some c =>
          match h[i]?, h[c]? with
          | some x, some child => if comp x child then siftDown fuel (h.swap i c) c else h
          | _, _ => h

def top (h : List α) : Option α := h[0]?

def push (h : List α) (x : α) : List α := siftUp comp h.length (h ++ [x]) h.length

/-- The last element takes the root's place and goes down. -/
def pop (h : List α) : List α :=
  match h.getLast? with
  | none => []
  | some x => siftDown comp h.length (h.dropLast.set 0 x) 0

/-! ## The elements of a heap -/

theorem siftUp_perm (fuel : Nat) (h : List α) (i : Nat) : (siftUp comp fuel h i).Perm h := by
  induction fuel generalizing h i with
  | zero => exact .refl h
  | succ fuel ih =>
      rw [siftUp]
      split
      · exact .refl h
      · split
        · split
          · exact (ih _ _).trans (List.swap_perm _ _ _)
          · exact .refl h
        · exact .refl h

theorem siftDown_perm (fuel : Nat) (h : List α) (i : Nat) :
    (siftDown comp fuel h i).Perm h := by
  induction fuel generalizing h i with
  | zero => exact .refl h
  | succ fuel ih =>
      rw [siftDown]
      split
      · exact .refl h
      · split
        · split
          · exact (ih _ _).trans (List.swap_perm _ _ _)
          · exact .refl h
        · exact .refl h

theorem push_perm (h : List α) (x : α) : (push comp h x).Perm (x :: h) :=
  (siftUp_perm comp _ _ _).trans (List.perm_append_singleton x h)

/-- Whatever the keys are by now, `pop` takes the root out and nothing else. -/
theorem pop_perm (x : α) (h : List α) : (pop comp (x :: h)).Perm h := by
  cases hlast : h.getLast? with
  | none =>
      have hnil : h = [] := List.getLast?_eq_none_iff.1 hlast
      subst hnil
      exact siftDown_perm comp _ _ _
  | some y =>
      have hne : h ≠ [] := by
        rintro rfl
        cases hlast
      have hsplit : h = h.dropLast ++ [y] := by
        rw [List.getLast?_eq_some_getLast hne, Option.some.injEq] at hlast
        rw [← hlast, List.dropLast_append_getLast hne]
      have hset : (x :: h).dropLast.set 0 y = y :: h.dropLast := by
        rw [List.dropLast_cons_of_ne_nil hne, List.set_cons_zero]
      have hpop : pop comp (x :: h) = siftDown comp (x :: h).length (y :: h.dropLast) 0 := by
        rw [pop, List.getLast?_cons, hlast, ← hset]
        rfl
      rw [hpop]
      calc
        (siftDown comp (x :: h).length (y :: h.dropLast) 0).Perm (y :: h.dropLast) :=
          siftDown_perm comp _ _ _
        (y :: h.dropLast).Perm (h.dropLast ++ [y]) := (List.perm_append_singleton y _).symm
        _ = h := hsplit.symm

/-! ## The root -/

theorem siftUp_top {r x : α} (hcomp : comp r x = false) (fuel : Nat) (h : List α) (i : Nat)
    (hi : i ≠ 0) (hroot : h[0]? = some r) (hx : h[i]? = some x) :
    (siftUp comp fuel h i)[0]? = some r := by
  induction fuel generalizing h i with
  | zero => exact hroot
  | succ fuel ih =>
      rw [siftUp, if_neg hi]
      split
      · rename_i parent y hparent hy
        split
        · rename_i hbefore
          rw [hx, Option.some.injEq] at hy
          subst hy
          have hpi : (i - 1) / 2 ≠ i := by omega
          by_cases hp : (i - 1) / 2 = 0
          · -- the parent is the root, which the element does not go before
            rw [hp, hroot, Option.some.injEq] at hparent
            rw [← hparent, hcomp] at hbefore
            cases hbefore
          · have hlen : i < h.length := (List.getElem?_eq_some_iff.1 hx).1
            have hplen : (i - 1) / 2 < h.length := by omega
            apply ih
            · exact hp
            · rw [List.getElem?_eq_getElem (by simp; omega),
                List.getElem_swap_of_ne (Ne.symm hp) (Ne.symm hi)]
              rw [← List.getElem?_eq_getElem, hroot]
            · rw [List.getElem?_eq_getElem (by simpa using hplen),
                List.getElem_swap_left_of_lt hlen]
              rw [← List.getElem?_eq_getElem, hx]
        · exact hroot
      · exact hroot

theorem push_top {h : List α} {r x : α} (hroot : top h = some r) (hcomp : comp r x = false) :
    top (push comp h x) = some r := by
  have hlen : 0 < h.length := (List.getElem?_eq_some_iff.1 hroot).1
  apply siftUp_top comp hcomp
  · omega
  · rw [List.getElem?_append_left hlen]
    exact hroot
  · exact List.getElem?_concat_length

end MyNetLib.Library.BinaryHeap
