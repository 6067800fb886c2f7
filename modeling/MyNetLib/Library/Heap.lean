import Mathlib

/-! # A heap of objects

Addresses count the allocations, so a fresh address was never in use and a
released one is never given out again. Reading a released address gives `none`.
-/

namespace MyNetLib.Library

universe u

structure Heap (α : Type u) where
  cells : List (Option α)
  deriving DecidableEq, Repr

namespace Heap

variable {α : Type u}

def empty : Heap α := ⟨[]⟩

def get (h : Heap α) (a : Nat) : Option α := (h.cells[a]?).join

def next (h : Heap α) : Nat := h.cells.length

def alloc (h : Heap α) (x : α) : Heap α := ⟨h.cells ++ [some x]⟩

def put (h : Heap α) (a : Nat) (x : α) : Heap α := ⟨h.cells.set a (some x)⟩

def free (h : Heap α) (a : Nat) : Heap α := ⟨h.cells.set a none⟩

variable {h : Heap α} {a b : Nat} {x y : α}

theorem lt_next_of_get (hx : h.get a = some x) : a < h.next := by
  by_contra hge
  rw [get, List.getElem?_eq_none (Nat.not_lt.1 hge)] at hx
  cases hx

@[simp] theorem get_alloc_next (h : Heap α) (x : α) : (h.alloc x).get h.next = some x := by
  simp [get, alloc, next]

theorem get_alloc (hx : h.get a = some x) (y : α) : (h.alloc y).get a = some x := by
  have hlt := lt_next_of_get hx
  rw [get, alloc, List.getElem?_append_left hlt]
  exact hx

theorem get_put_of_ne (hne : a ≠ b) (y : α) : (h.put b y).get a = h.get a := by
  rw [get, put, List.getElem?_set_ne (Ne.symm hne), get]

@[simp] theorem next_put (h : Heap α) (a : Nat) (x : α) : (h.put a x).next = h.next :=
  List.length_set

@[simp] theorem next_free (h : Heap α) (a : Nat) : (h.free a).next = h.next :=
  List.length_set

theorem get_put_self (hx : h.get a = some x) (y : α) : (h.put a y).get a = some y := by
  have hlt : a < h.cells.length := lt_next_of_get hx
  simp [get, put, hlt]

theorem get_free_of_ne (hne : a ≠ b) : (h.free b).get a = h.get a := by
  rw [get, free, List.getElem?_set_ne (Ne.symm hne), get]

theorem get_free_self (h : Heap α) (a : Nat) : (h.free a).get a = none := by
  by_cases hlt : a < h.cells.length
  · simp [get, free, hlt]
  · rw [get, free, List.getElem?_eq_none (by simpa using hlt)]
    rfl

theorem get_alloc_of_ne (hne : a ≠ h.next) (y : α) : (h.alloc y).get a = h.get a := by
  have hlen : h.cells.length ≠ a := Ne.symm hne
  rw [get, alloc, List.getElem?_append, get]
  split
  · rfl
  · rename_i hge
    have hpos : 0 < a - h.cells.length := by omega
    rw [List.getElem?_eq_none (by simp; omega), List.getElem?_eq_none (by omega)]

end Heap

end MyNetLib.Library
