import Mathlib

/-! # Regular expressions matched by backtracking

The matcher of ECMAScript for expressions whose repetitions are of a class of
characters. What is still to be matched is a continuation; a repetition takes as
many characters as it can and gives them back one at a time as long as the
continuation fails. A search returns the leftmost match.
-/

namespace MyNetLib.Library

universe u v

/-! ## The largest argument first -/

section LastSome

variable {β : Type v} {f : Nat → Option β} {b : β} {m n : Nat}

/-- The value of `f` at the largest argument up to the given one where it has one. -/
def lastSome (f : Nat → Option β) : Nat → Option β
  | 0 => f 0
  | m + 1 => (f (m + 1)).or (lastSome f m)

theorem lastSome_succ_eq (f : Nat → Option β) (m : Nat) :
    lastSome f (m + 1) = (lastSome (fun n => f (n + 1)) m).or (f 0) := by
  induction m with
  | zero => rfl
  | succ m ih =>
      rw [lastSome, ih, lastSome, Option.or_assoc]

theorem lastSome_of_last (hn : n ≤ m) (hsome : f n = some b)
    (hlast : ∀ j, n < j → j ≤ m → f j = none) : lastSome f m = some b := by
  induction m with
  | zero =>
      have hzero : n = 0 := by omega
      rw [lastSome, ← hzero, hsome]
  | succ m ih =>
      rw [lastSome]
      by_cases heq : n = m + 1
      · rw [← heq, hsome, Option.some_or]
      · rw [hlast (m + 1) (by omega) le_rfl, Option.none_or]
        apply ih (by omega)
        intro j hj hjm
        exact hlast j hj (by omega)

theorem lastSome_eq_none (h : ∀ j ≤ m, f j = none) : lastSome f m = none := by
  induction m with
  | zero => exact h 0 le_rfl
  | succ m ih =>
      rw [lastSome, h (m + 1) le_rfl, Option.none_or]
      apply ih
      intro j hj
      exact h j (by omega)

end LastSome

/-! ## Initial segments of a class -/

section Segments

variable {α : Type u} {p q : α → Bool}

theorem drop_length_takeWhile (p : α → Bool) (l : List α) :
    l.drop (l.takeWhile p).length = l.dropWhile p := by
  have hleft : (l.takeWhile p ++ l.dropWhile p).drop (l.takeWhile p).length = l.dropWhile p :=
    List.drop_left
  rwa [List.takeWhile_append_dropWhile] at hleft

theorem take_length_takeWhile (p : α → Bool) (l : List α) :
    l.take (l.takeWhile p).length = l.takeWhile p := by
  have hleft : (l.takeWhile p ++ l.dropWhile p).take (l.takeWhile p).length = l.takeWhile p :=
    List.take_left
  rwa [List.takeWhile_append_dropWhile] at hleft

/-- A smaller class first and the larger one behind it. -/
theorem length_takeWhile_split (h : ∀ a, q a = true → p a = true) (l : List α) :
    (l.takeWhile p).length =
      (l.takeWhile q).length + ((l.dropWhile q).takeWhile p).length := by
  induction l with
  | nil => rfl
  | cons a l ih =>
      by_cases hq : q a
      · rw [List.takeWhile_cons_of_pos (h a hq), List.takeWhile_cons_of_pos hq,
          List.dropWhile_cons_of_pos hq, List.length_cons, List.length_cons, ih]
        omega
      · rw [List.takeWhile_cons_of_neg hq, List.dropWhile_cons_of_neg hq, List.length_nil,
          Nat.zero_add]

end Segments

/-- `star` repeats one class of characters, `group n` captures what it matches. -/
inductive Regex (α : Type u) where
  | bol
  | set (p : α → Bool)
  | star (p : α → Bool)
  | seq (r s : Regex α)
  | group (n : Nat) (r : Regex α)

namespace Regex

variable {α : Type u} {β : Type v}

/-- The text before the place of the matcher, the text after it and the captures. -/
structure Cursor (α : Type u) where
  before : List α
  rest : List α
  captures : Nat → Option (List α)

namespace Cursor

def atStart (text : List α) : Cursor α := ⟨[], text, fun _ => none⟩

def advance (c : Cursor α) (n : Nat) : Cursor α :=
  { c with before := c.before ++ c.rest.take n, rest := c.rest.drop n }

/-- The text of a group, empty where the group took no part. -/
def str (c : Cursor α) (n : Nat) : List α := (c.captures n).getD []

/-- The group `n` has matched what lies between the two cursors. -/
def capture (c c' : Cursor α) (n : Nat) : Cursor α :=
  { c' with captures := Function.update c'.captures n (some (c'.before.drop c.before.length)) }

@[simp] theorem advance_before (c : Cursor α) (n : Nat) :
    (c.advance n).before = c.before ++ c.rest.take n := rfl

@[simp] theorem advance_rest (c : Cursor α) (n : Nat) : (c.advance n).rest = c.rest.drop n := rfl

@[simp] theorem advance_captures (c : Cursor α) (n : Nat) :
    (c.advance n).captures = c.captures := rfl

theorem advance_advance (c : Cursor α) (m n : Nat) :
    (c.advance m).advance n = c.advance (m + n) := by
  simp [advance, List.take_add]

theorem capture_advance (c : Cursor α) (m n : Nat) :
    c.capture (c.advance m) n =
      { c.advance m with captures := Function.update c.captures n (some (c.rest.take m)) } := by
  simp [capture]

end Cursor

/-- A repetition at the cursor: one character more first, then the continuation. -/
def starRun (p : α → Bool) (k : Cursor α → Option β) (captures : Nat → Option (List α)) :
    List α → List α → Option β
  | before, [] => k ⟨before, [], captures⟩
  | before, a :: rest =>
      if p a then
        (starRun p k captures (before ++ [a]) rest).or (k ⟨before, a :: rest, captures⟩)
      else k ⟨before, a :: rest, captures⟩

def run : Regex α → (Cursor α → Option β) → Cursor α → Option β
  | bol, k, c => if c.before.isEmpty then k c else none
  | set p, k, c => if c.rest.head?.any p then k (c.advance 1) else none
  | star p, k, c => starRun p k c.captures c.before c.rest
  | seq r s, k, c => r.run (s.run k) c
  | group n r, k, c => r.run (fun c' => k (c.capture c' n)) c

/-- `r` is tried at every place from the left. -/
def searchFrom (r : Regex α) : List α → List α → Option (Cursor α)
  | before, [] => r.run some ⟨before, [], fun _ => none⟩
  | before, a :: rest =>
      (r.run some ⟨before, a :: rest, fun _ => none⟩).or (r.searchFrom (before ++ [a]) rest)

def search (r : Regex α) (text : List α) : Option (Cursor α) := r.searchFrom [] text

/-! ## Rules -/

theorem starRun_eq (p : α → Bool) (k : Cursor α → Option β) (c : Cursor α) :
    starRun p k c.captures c.before c.rest =
      lastSome (fun n => k (c.advance n)) (c.rest.takeWhile p).length := by
  obtain ⟨before, rest, captures⟩ := c
  dsimp only
  induction rest generalizing before with
  | nil => simp [starRun, lastSome, Cursor.advance]
  | cons a rest ih =>
      rw [starRun, List.takeWhile_cons]
      by_cases hp : p a
      · rw [if_pos hp, if_pos hp, ih, List.length_cons, lastSome_succ_eq]
        simp [Cursor.advance]
      · rw [if_neg hp, if_neg hp]
        simp [lastSome, Cursor.advance]

/-- A repetition takes the most characters with which the rest of the match succeeds. -/
theorem run_star (p : α → Bool) (k : Cursor α → Option β) (c : Cursor α) :
    (star p).run k c = lastSome (fun n => k (c.advance n)) (c.rest.takeWhile p).length :=
  starRun_eq p k c

theorem run_star_longest {p : α → Bool} {k : Cursor α → Option β} {c : Cursor α} {b : β}
    (h : k (c.advance (c.rest.takeWhile p).length) = some b) : (star p).run k c = some b := by
  rw [run_star]
  apply lastSome_of_last le_rfl h
  intro j hlt hle
  omega

@[simp] theorem run_set (p : α → Bool) (k : Cursor α → Option β) (c : Cursor α) :
    (set p).run k c = if c.rest.head?.any p then k (c.advance 1) else none := rfl

@[simp] theorem run_seq (r s : Regex α) (k : Cursor α → Option β) (c : Cursor α) :
    (seq r s).run k c = r.run (s.run k) c := rfl

@[simp] theorem run_group (n : Nat) (r : Regex α) (k : Cursor α → Option β) (c : Cursor α) :
    (group n r).run k c = r.run (fun c' => k (c.capture c' n)) c := rfl

theorem searchFrom_bol (r : Regex α) {before : List α} (h : before ≠ []) (rest : List α) :
    (seq bol r).searchFrom before rest = none := by
  induction rest generalizing before with
  | nil => simp [searchFrom, run, h]
  | cons a rest ih =>
      rw [searchFrom, ih (by simp), Option.or_none]
      simp [run, h]

/-- An expression that begins with `^` can only match at the start. -/
theorem search_bol (r : Regex α) (text : List α) :
    (seq bol r).search text = r.run some (Cursor.atStart text) := by
  cases text with
  | nil => rfl
  | cons a rest =>
      rw [search, searchFrom, List.nil_append, searchFrom_bol r (by simp), Option.or_none]
      rfl

end Regex

end MyNetLib.Library
