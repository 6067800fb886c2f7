import MyNetLib.Library.Memory
import MyNetLib.Library.Regex

/-! # Reading a configuration file (`include/config.h`)

A line is matched against `^([^ =]*)[^\d]*(\d+.*)` and a match assigns the second
group to the first. What a match is, is computed by backtracking: the key gives
characters back until a digit follows it.
-/

namespace MyNetLib

open Library

structure Config where
  mp : List Byte → Option (List Byte)

namespace Config

def new : Config := ⟨fun _ => none⟩

def newline : Byte := 10
def carriageReturn : Byte := 13

/-- `[^ =]` -/
def isKey (b : Byte) : Bool := b ≠ 32 && b ≠ 61

/-- `\d` -/
def isDigit (b : Byte) : Bool := 48 ≤ b && b ≤ 57

/-- `[^\d]` -/
def isOther (b : Byte) : Bool := !isDigit b

/-- `.` -/
def isAny (b : Byte) : Bool := b ≠ newline && b ≠ carriageReturn

/-- `(\d+.*)` -/
def valueGroup : Regex Byte := .group 2 (.seq (.seq (.set isDigit) (.star isDigit)) (.star isAny))

/-- `^([^ =]*)[^\d]*(\d+.*)` -/
def regex1 : Regex Byte :=
  .seq .bol (.seq (.group 1 (.star isKey)) (.seq (.star isOther) valueGroup))

/-- `Parse_line` on the line in `buf`. -/
def parseLine (c : Config) (buf : List Byte) : Config :=
  match regex1.search buf with
  | none => c
  | some matches' =>
      { c with mp := Function.update c.mp (matches'.str 1) (some (matches'.str 2)) }

def inLine (b : Byte) : Bool := b ≠ newline

/-- The next line of a stream and what is left; none where `getline` fails. -/
def getline (s : List Byte) : Option (List Byte × List Byte) :=
  if s = [] then none else some (s.takeWhile inLine, (s.dropWhile inLine).tail)

/-- The loop of `PullConfig`; every round takes a byte of the stream at least. -/
def pullLines : Nat → Config → List Byte → Config
  | 0, c, _ => c
  | fuel + 1, c, s =>
      match getline s with
      | none => c
      | some (buf, rest) => pullLines fuel (c.parseLine buf) rest

/-- `none` is a file that cannot be opened. -/
def pullConfig (c : Config) : Option (List Byte) → Bool × Config
  | none => (false, c)
  | some s => (true, pullLines (s.length + 1) c s)

/-! ## The lines of a file -/

/-- The lines, with or without a newline behind the last. -/
def fileLines : List Byte → List (List Byte)
  | [] => []
  | b :: s =>
      if b = newline then [] :: fileLines s
      else
        match fileLines s with
        | [] => [[b]]
        | line :: lines => (b :: line) :: lines

theorem fileLines_eq {s : List Byte} (h : s ≠ []) :
    fileLines s = s.takeWhile inLine :: fileLines (s.dropWhile inLine).tail := by
  induction s with
  | nil => exact absurd rfl h
  | cons b s ih =>
      by_cases hb : b = newline
      · simp [fileLines, inLine, hb]
      · have hin : inLine b = true := by simp [inLine, hb]
        rw [fileLines, if_neg hb, List.takeWhile_cons_of_pos hin, List.dropWhile_cons_of_pos hin]
        cases s with
        | nil => rfl
        | cons d s => rw [ih (List.cons_ne_nil d s)]

theorem newline_not_mem {s line : List Byte} (h : line ∈ fileLines s) : newline ∉ line := by
  induction s generalizing line with
  | nil => cases h
  | cons b s ih =>
      rw [fileLines] at h
      split at h
      · rw [List.mem_cons] at h
        cases h with
        | inl heq => simp [heq]
        | inr hmem => exact ih hmem
      · rename_i hb
        have hne : newline ≠ b := fun heq => hb heq.symm
        cases hlines : fileLines s with
        | nil =>
            rw [hlines] at h
            simpa [List.mem_singleton.1 h] using hne
        | cons first lines =>
            rw [hlines] at h ih
            simp only [List.mem_cons] at h
            cases h with
            | inl heq =>
                have hfirst := ih List.mem_cons_self
                simp [heq, hne, hfirst]
            | inr hmem => exact ih (List.mem_cons_of_mem _ hmem)

theorem pullLines_eq {fuel : Nat} {s : List Byte} (h : s.length < fuel) (c : Config) :
    pullLines fuel c s = (fileLines s).foldl parseLine c := by
  induction fuel generalizing s c with
  | zero => omega
  | succ fuel ih =>
      rw [pullLines, getline]
      by_cases hs : s = []
      · rw [if_pos hs, hs]
        rfl
      · rw [if_neg hs, fileLines_eq hs, List.foldl_cons]
        apply ih
        have hle := (List.dropWhile_suffix (l := s) inLine).length_le
        have hpos := List.length_pos_of_ne_nil hs
        rw [List.length_tail]
        omega

theorem pullConfig_some (c : Config) (file : List Byte) :
    c.pullConfig (some file) = (true, (fileLines file).foldl parseLine c) := by
  rw [pullConfig, pullLines_eq (Nat.lt_succ_self _)]

/-! ## What a line matches -/

/-- The value that begins with the first digit. -/
def valueFrom (rest : List Byte) : List Byte := (rest.dropWhile isOther).takeWhile isAny

/-- The two groups of the match, where there is one. -/
def matched (line : List Byte) : Option (List Byte × List Byte) :=
  (regex1.search line).map fun matches' => (matches'.str 1, matches'.str 2)

theorem isAny_of_isDigit (b : Byte) (h : isDigit b = true) : isAny b = true := by
  have hnewline : b ≠ newline := by
    rintro rfl
    exact absurd h (by decide)
  have hreturn : b ≠ carriageReturn := by
    rintro rfl
    exact absurd h (by decide)
  simp [isAny, hnewline, hreturn]

theorem any_drop {p : Byte → Bool} {text : List Byte} (h : text.any p = false) (n : Nat) :
    (text.drop n).any p = false := by
  rw [List.any_eq_false] at h ⊢
  intro b hb
  exact h b (List.mem_of_mem_drop hb)

theorem head_dropWhile_isOther {text : List Byte} (h : text.any isDigit = true) :
    (text.dropWhile isOther).head?.any isDigit = true := by
  induction text with
  | nil => cases h
  | cons b text ih =>
      cases hb : isDigit b with
      | true => simp [isOther, hb]
      | false =>
          rw [List.any_cons, hb, Bool.false_or] at h
          rw [List.dropWhile_cons_of_pos (by simp [isOther, hb]), ih h]

section Match

open Regex

theorem run_valueGroup {c : Cursor Byte} (h : c.rest.head?.any isDigit = true) :
    valueGroup.run some c = some (c.capture (c.advance (c.rest.takeWhile isAny).length) 2) := by
  obtain ⟨before, rest, captures⟩ := c
  cases rest with
  | nil => cases h
  | cons d tail =>
      have hd : isDigit d = true := h
      have hlength : (List.takeWhile isAny (d :: tail)).length =
          1 + ((tail.takeWhile isDigit).length +
            ((tail.dropWhile isDigit).takeWhile isAny).length) := by
        rw [List.takeWhile_cons_of_pos (isAny_of_isDigit d hd), List.length_cons,
          length_takeWhile_split isAny_of_isDigit, Nat.add_comm]
      rw [valueGroup, run_group, run_seq, run_seq, run_set, if_pos h, hlength]
      apply run_star_longest
      apply run_star_longest
      simp only [Cursor.advance_advance, Cursor.advance_rest, List.drop_succ_cons, List.drop_zero,
        Nat.add_comm 1, drop_length_takeWhile, Nat.add_assoc]

theorem run_valueGroup_none {c : Cursor Byte} (h : c.rest.head?.any isDigit = false) :
    valueGroup.run some c = none := by
  rw [valueGroup, run_group, run_seq, run_seq, run_set, h]
  rfl

/-- `[^\d]*(\d+.*)` -/
def restOfMatch : Regex Byte := .seq (.star isOther) valueGroup

/-- Where there is a digit, what lies in front of it goes to `[^\d]*`. -/
theorem run_restOfMatch {c : Cursor Byte} (h : c.rest.any isDigit = true) :
    ∃ c', restOfMatch.run some c = some c' ∧
      c'.captures = Function.update c.captures 2 (some (valueFrom c.rest)) := by
  have hrest : (c.advance (c.rest.takeWhile isOther).length).rest = c.rest.dropWhile isOther := by
    rw [Cursor.advance_rest, drop_length_takeWhile]
  have hhead : (c.advance (c.rest.takeWhile isOther).length).rest.head?.any isDigit = true := by
    rw [hrest, head_dropWhile_isOther h]
  refine ⟨_, run_star_longest (run_valueGroup hhead), ?_⟩
  rw [Cursor.capture_advance, hrest, take_length_takeWhile]
  rfl

theorem run_restOfMatch_none {c : Cursor Byte} (h : c.rest.any isDigit = false) :
    restOfMatch.run some c = none := by
  rw [restOfMatch, run_seq, run_star]
  apply lastSome_eq_none
  intro j _
  apply run_valueGroup_none
  have hdrop := any_drop h j
  rw [Cursor.advance_rest]
  cases hrest : c.rest.drop j with
  | nil => rfl
  | cons b tail =>
      rw [hrest, List.any_cons, Bool.or_eq_false_iff] at hdrop
      exact hdrop.1

theorem search_regex1 (line : List Byte) :
    regex1.search line = lastSome
      (fun n => restOfMatch.run some ((Cursor.atStart line).capture
        ((Cursor.atStart line).advance n) 1)) (line.takeWhile isKey).length := by
  rw [regex1, search_bol, run_seq, run_group, run_star]
  rfl

/-- The key takes the most characters that leave a digit behind it. -/
theorem matched_of_last {line : List Byte} {n : Nat} (hn : n ≤ (line.takeWhile isKey).length)
    (hdigit : (line.drop n).any isDigit = true)
    (hlast : ∀ j, n < j → j ≤ (line.takeWhile isKey).length → (line.drop j).any isDigit = false) :
    matched line = some (line.take n, valueFrom (line.drop n)) := by
  obtain ⟨c, hrun, hcaptures⟩ := @run_restOfMatch
    ((Cursor.atStart line).capture ((Cursor.atStart line).advance n) 1) hdigit
  have hsearch : regex1.search line = some c := by
    rw [search_regex1]
    apply lastSome_of_last hn hrun
    intro j hj hjn
    exact run_restOfMatch_none (hlast j hj hjn)
  rw [matched, hsearch, Option.map_some, Cursor.str, Cursor.str, hcaptures]
  simp [Cursor.capture_advance, Cursor.atStart]

theorem matched_eq_none {line : List Byte} (h : line.any isDigit = false) :
    matched line = none := by
  have hsearch : regex1.search line = none := by
    rw [search_regex1]
    apply lastSome_eq_none
    intro j _
    apply run_restOfMatch_none
    rw [Cursor.capture_advance]
    exact any_drop h j
  rw [matched, hsearch, Option.map_none]

end Match

end Config

end MyNetLib
