import Mathlib

/-! # Machine words and byte vectors

Sixty-four bit unsigned arithmetic on naturals, and the three operations a
program performs on a contiguous vector: growing it, writing a block into it,
and copying one of its ranges over another element by element. The copy is the
ascending loop, so a copy whose ranges overlap is right only towards lower
positions; `copyForward_eq` is that statement.
-/

namespace MyNetLib.Library

/-! ## `size_t` arithmetic -/

namespace SizeT

def modulus : Nat := 2 ^ 64

def add (a b : Nat) : Nat := (a + b) % modulus

def sub (a b : Nat) : Nat := (a + (modulus - b)) % modulus

theorem add_of_lt {a b : Nat} (h : a + b < modulus) : add a b = a + b :=
  Nat.mod_eq_of_lt h

theorem sub_of_le {a b : Nat} (hba : b ≤ a) (ha : a < modulus) : sub a b = a - b := by
  unfold sub
  have hsplit : a + (modulus - b) = (a - b) + modulus := by omega
  rw [hsplit, Nat.add_mod_right, Nat.mod_eq_of_lt (by omega)]

end SizeT

/-! ## Byte vectors -/

abbrev Byte := UInt8

namespace ByteVector

/-- `PTRDIFF_MAX`: no vector and no other object has more bytes. -/
def maxSize : Nat := 2 ^ 63 - 1

theorem maxSize_lt_modulus : maxSize < SizeT.modulus := by decide

/-- Growing fills with zeros; a size above `maxSize` throws and leaves the vector alone. -/
def resize (v : List Byte) (n : Nat) : Option (List Byte) :=
  if n ≤ maxSize then some (v.take n ++ List.replicate (n - v.length) 0) else none

def overwrite (v : List Byte) (pos : Nat) : List Byte → List Byte
  | [] => v
  | b :: rest => overwrite (v.set pos b) (pos + 1) rest

/-- Copy `n` elements from `src` to `dst`, in ascending order. -/
def copyForward (v : List Byte) (src dst : Nat) : Nat → List Byte
  | 0 => v
  | n + 1 => copyForward (v.set dst (v.getD src 0)) (src + 1) (dst + 1) n

def slice (v : List Byte) (start stop : Nat) : List Byte :=
  (v.drop start).take (stop - start)

/-! ### Lengths -/

theorem resize_eq_some {v : List Byte} {n : Nat} (h : n ≤ maxSize) :
    resize v n = some (v.take n ++ List.replicate (n - v.length) 0) := if_pos h

theorem resize_eq_none {v : List Byte} {n : Nat} (h : maxSize < n) : resize v n = none :=
  if_neg (by omega)

@[simp] theorem length_overwrite (v data : List Byte) (pos : Nat) :
    (overwrite v pos data).length = v.length := by
  induction data generalizing v pos with
  | nil => rfl
  | cons b rest ih => rw [overwrite, ih, List.length_set]

@[simp] theorem length_copyForward (v : List Byte) (src dst n : Nat) :
    (copyForward v src dst n).length = v.length := by
  induction n generalizing v src dst with
  | zero => rfl
  | succ n ih => rw [copyForward, ih, List.length_set]

theorem length_slice {v : List Byte} {start stop : Nat} (h : stop ≤ v.length) :
    (slice v start stop).length = stop - start := by
  rw [slice, List.length_take, List.length_drop]
  omega

/-! ### Contents -/

private theorem take_succ_set {v : List Byte} {pos : Nat} (b : Byte) (h : pos < v.length) :
    (v.set pos b).take (pos + 1) = v.take pos ++ [b] := by
  rw [List.take_succ_eq_append_getElem (by simpa using h), List.getElem_set_self,
    List.take_set, List.set_eq_of_length_le (by simp)]

theorem overwrite_eq (v data : List Byte) (pos : Nat) (h : pos + data.length ≤ v.length) :
    overwrite v pos data = v.take pos ++ data ++ v.drop (pos + data.length) := by
  induction data generalizing v pos with
  | nil => simp [overwrite]
  | cons b rest ih =>
      simp only [List.length_cons] at h
      have hlt : pos < v.length := by omega
      rw [overwrite, ih (v.set pos b) (pos + 1) (by simp; omega)]
      have hdrop : (v.set pos b).drop (pos + 1 + rest.length) =
          v.drop (pos + (b :: rest).length) := by
        rw [List.drop_set_of_lt (by omega), List.length_cons]
        congr 1
        omega
      rw [take_succ_set b hlt, hdrop]
      simp

/-- Copying towards lower positions moves the range unchanged, overlap or not:
an element is read before the loop writes its position. -/
theorem copyForward_eq (v : List Byte) (src dst n : Nat) (hlow : dst ≤ src)
    (hsrc : src + n ≤ v.length) :
    copyForward v src dst n = v.take dst ++ slice v src (src + n) ++ v.drop (dst + n) := by
  induction n generalizing v src dst with
  | zero => simp [copyForward, slice]
  | succ n ih =>
      have hs : src < v.length := by omega
      have hd : dst < v.length := by omega
      have hget : v.getD src 0 = v[src] := by simp [hs]
      rw [copyForward, ih _ (src + 1) (dst + 1) (by omega) (by simp; omega), hget]
      -- everything still to be read lies above the position just written
      have hread : (v.set dst v[src]).drop (src + 1) = v.drop (src + 1) :=
        List.drop_set_of_lt (by omega)
      have hrest : (v.set dst v[src]).drop (dst + 1 + n) = v.drop (dst + (n + 1)) := by
        rw [List.drop_set_of_lt (by omega)]
        congr 1
        omega
      have hslice : slice v src (src + (n + 1)) =
          v[src] :: slice v (src + 1) (src + 1 + n) := by
        simp only [slice, Nat.add_sub_cancel_left]
        rw [List.drop_eq_getElem_cons hs, List.take_succ_cons]
      rw [take_succ_set v[src] hd, hrest, hslice]
      simp only [slice, hread]
      simp

theorem slice_append_right {a b : List Byte} {start stop : Nat} (h : a.length = start) :
    slice (a ++ b) start stop = b.take (stop - start) := by
  subst h
  simp [slice]

theorem slice_append_left {a b : List Byte} {start stop : Nat} (h : stop ≤ a.length) :
    slice (a ++ b) start stop = slice a start stop := by
  simp only [slice]
  by_cases hs : start ≤ a.length
  · rw [List.drop_append_of_le_length hs, List.take_append_of_le_length (by simp; omega)]
  · have hz : stop - start = 0 := by omega
    simp [hz]

theorem slice_split {v : List Byte} {start mid stop : Nat} (h₁ : start ≤ mid) (h₂ : mid ≤ stop) :
    slice v start stop = slice v start mid ++ slice v mid stop := by
  simp only [slice]
  have hlen : stop - start = (mid - start) + (stop - mid) := by omega
  rw [hlen, List.take_add, List.drop_drop]
  congr 3
  omega

theorem slice_take {v : List Byte} {start stop n : Nat} :
    (slice v start stop).take n = slice v start (min stop (start + n)) := by
  simp only [slice, List.take_take]
  congr 1
  omega

theorem slice_drop {v : List Byte} {start stop n : Nat} :
    (slice v start stop).drop n = slice v (start + n) stop := by
  simp only [slice, List.drop_take, List.drop_drop]
  congr 1
  omega

end ByteVector

end MyNetLib.Library
