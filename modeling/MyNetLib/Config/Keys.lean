import MyNetLib.Config.PullConfig
import MyNetLib.Library.Table

/-! # The keys of a configuration

The key text of a line ends before its first space or `=`, the value begins with the
first digit behind it. A line whose only digits are in its key text is stored all the
same: the pattern takes the last of them, and what follows, for the value.
-/

namespace MyNetLib.Config

open Library

/-! ## What a line says -/

def keyText (line : List Byte) : List Byte := line.takeWhile isKey

def behindKey (line : List Byte) : List Byte := line.dropWhile isKey

def toCarriageReturn (text : List Byte) : List Byte := text.takeWhile (· ≠ carriageReturn)

/-- The key and the value of a line with a digit to the right of its key text. -/
def properEntry (line : List Byte) : Option (List Byte × List Byte) :=
  if (behindKey line).any isDigit then
    some (keyText line, toCarriageReturn ((behindKey line).dropWhile isOther))
  else none

/-- The key text in front of its last digit. -/
def cutKey (line : List Byte) : List Byte := ((keyText line).rdropWhile isOther).dropLast

/-- The entry of a line whose digits are all in the key text. -/
def cutEntry (line : List Byte) : Option (List Byte × List Byte) :=
  if !(behindKey line).any isDigit && (keyText line).any isDigit then
    some (cutKey line, toCarriageReturn (line.drop (cutKey line).length))
  else none

theorem keyText_append (line : List Byte) : keyText line ++ behindKey line = line :=
  List.takeWhile_append_dropWhile

theorem isAny_eq {b : Byte} (h : b ≠ newline) : isAny b = decide (b ≠ carriageReturn) := by
  simp [isAny, h]

theorem takeWhile_isAny {text : List Byte} (h : newline ∉ text) :
    text.takeWhile isAny = toCarriageReturn text := by
  induction text with
  | nil => rfl
  | cons b text ih =>
      rw [List.mem_cons, not_or] at h
      rw [toCarriageReturn, List.takeWhile_cons, List.takeWhile_cons, ih h.2,
        isAny_eq (Ne.symm h.1), toCarriageReturn]

theorem keyText_split {line : List Byte} (h : (keyText line).any isDigit = true) :
    ∃ d tail, keyText line = cutKey line ++ d :: tail ∧ isDigit d = true ∧
      tail.any isDigit = false := by
  have hne : (keyText line).rdropWhile isOther ≠ [] := by
    rw [ne_eq, List.rdropWhile_eq_nil_iff]
    intro hall
    obtain ⟨b, hb, hdigit⟩ := List.any_eq_true.1 h
    have hother := hall b hb
    rw [isOther, hdigit] at hother
    cases hother
  have hlast := List.rdropWhile_last_not isOther (keyText line) hne
  refine ⟨_, (keyText line).rtakeWhile isOther, ?_, by simpa [isOther] using hlast, ?_⟩
  · rw [List.append_cons, cutKey, List.dropLast_append_getLast hne,
      List.rdropWhile_append_rtakeWhile]
  · rw [List.any_eq_false]
    intro b hb
    simpa [isOther] using List.mem_rtakeWhile_imp hb

theorem valueFrom_eq {text : List Byte} (h : newline ∉ text) :
    valueFrom text = toCarriageReturn (text.dropWhile isOther) := by
  apply takeWhile_isAny
  intro hmem
  exact h ((List.dropWhile_suffix isOther).subset hmem)

theorem matched_proper {line : List Byte} (hline : newline ∉ line)
    (h : (behindKey line).any isDigit = true) : matched line =
      some (keyText line, toCarriageReturn ((behindKey line).dropWhile isOther)) := by
  have hdrop : line.drop (line.takeWhile isKey).length = behindKey line :=
    drop_length_takeWhile isKey line
  have hbehind : newline ∉ behindKey line := by
    intro hmem
    exact hline ((List.dropWhile_suffix isKey).subset hmem)
  rw [matched_of_last le_rfl (by rw [hdrop, h]) (by omega), hdrop, valueFrom_eq hbehind,
    take_length_takeWhile]
  rfl

/-- With no digit behind the key text, the last digit in it begins the value. -/
theorem matched_cut {line : List Byte} (hline : newline ∉ line)
    (hbehind : (behindKey line).any isDigit = false) (h : (keyText line).any isDigit = true) :
    matched line = some (cutKey line, toCarriageReturn (line.drop (cutKey line).length)) := by
  obtain ⟨d, tail, hkey, hd, htail⟩ := keyText_split h
  have hsplit : line = cutKey line ++ d :: (tail ++ behindKey line) := by
    rw [List.append_cons, ← List.append_assoc, ← List.append_cons, ← hkey, keyText_append]
  have hrest : (tail ++ behindKey line).any isDigit = false := by
    rw [List.any_append, htail, hbehind, Bool.or_false]
  have htake : (cutKey line ++ d :: (tail ++ behindKey line)).take (cutKey line).length =
      cutKey line := List.take_left
  have hdrop : (cutKey line ++ d :: (tail ++ behindKey line)).drop (cutKey line).length =
      d :: (tail ++ behindKey line) := List.drop_left
  rw [← hsplit] at htake hdrop
  have hnewline : newline ∉ line.drop (cutKey line).length := by
    intro hmem
    exact hline (List.mem_of_mem_drop hmem)
  have hlength : (line.takeWhile isKey).length = (cutKey line).length + (tail.length + 1) := by
    have hlen := congrArg List.length hkey
    rwa [List.length_append, List.length_cons] at hlen
  have hvalue : valueFrom (line.drop (cutKey line).length) =
      toCarriageReturn (line.drop (cutKey line).length) := by
    rw [valueFrom_eq hnewline, hdrop, List.dropWhile_cons_of_neg (by simp [isOther, hd])]
  rw [matched_of_last (n := (cutKey line).length), htake, hvalue]
  · omega
  · rw [hdrop, List.any_cons, hd, Bool.true_or]
  · intro j hj _
    obtain ⟨k, rfl⟩ := Nat.exists_eq_add_of_lt hj
    have hmore : line.drop ((cutKey line).length + k + 1) = (tail ++ behindKey line).drop k := by
      rw [Nat.add_assoc, ← List.drop_drop, hdrop, List.drop_succ_cons]
    rw [hmore]
    exact any_drop hrest k

theorem matched_eq {line : List Byte} (hline : newline ∉ line) :
    matched line = (properEntry line).or (cutEntry line) := by
  rw [properEntry, cutEntry]
  cases hbehind : (behindKey line).any isDigit with
  | true =>
      rw [matched_proper hline hbehind, if_pos rfl, Option.some_or]
  | false =>
      cases hkey : (keyText line).any isDigit with
      | true =>
          rw [matched_cut hline hbehind hkey]
          rfl
      | false =>
          apply matched_eq_none
          rw [← keyText_append line, List.any_append, hkey, hbehind, Bool.or_false]

/-! ## The table of a file -/

theorem parseLine_mp (c : Config) (line : List Byte) :
    (c.parseLine line).mp = assign matched c.mp line := by
  rw [parseLine, assign, matched]
  cases regex1.search line <;> rfl

theorem foldl_parseLine_mp (c : Config) (lines : List (List Byte)) :
    (lines.foldl parseLine c).mp = lines.foldl (assign matched) c.mp := by
  induction lines generalizing c with
  | nil => rfl
  | cons line lines ih => rw [List.foldl_cons, List.foldl_cons, ih, parseLine_mp]

theorem pullConfig_mp (file : List Byte) :
    (new.pullConfig (some file)).2.mp =
      tableOf (fun line => (properEntry line).or (cutEntry line)) (fileLines file) := by
  rw [pullConfig_some, foldl_parseLine_mp]
  apply tableOf_congr
  intro line hline
  exact matched_eq (newline_not_mem hline)

/-- `mp` has what the lines say: a key is the key text of a line, its value is that of the
last line with this key text and a digit behind it, and every such line is stored. -/
structure SaysLines (lines : List (List Byte)) (mp : List Byte → Option (List Byte)) : Prop where
  sound : ∀ key value, mp key = some value →
    ∃ before line after, lines = before ++ line :: after ∧
      properEntry line = some (key, value) ∧
      ∀ later ∈ after, ∀ value, properEntry later ≠ some (key, value)
  complete : ∀ line ∈ lines, ∀ key value, properEntry line = some (key, value) →
    ∃ value, mp key = some value

theorem saysLines_iff (lines : List (List Byte)) (mp : List Byte → Option (List Byte)) :
    SaysLines lines mp ↔ mp = tableOf properEntry lines := by
  constructor
  · intro h
    funext key
    cases hmp : mp key with
    | some value => exact (tableOf_eq_some_iff.2 (h.sound key value hmp)).symm
    | none =>
        refine (tableOf_eq_none ?_).symm
        intro line hline value hentry
        obtain ⟨stored, hstored⟩ := h.complete line hline key value hentry
        rw [hmp] at hstored
        cases hstored
  · rintro rfl
    constructor
    · intro key value hvalue
      exact tableOf_eq_some_iff.1 hvalue
    · intro line hline key value hentry
      obtain hnone | ⟨before, last, after, stored, heq, hlast, hafter⟩ :=
        last_assignment properEntry lines key
      · exact absurd hentry (hnone line hline value)
      · exact ⟨stored, tableOf_eq_some_iff.2 ⟨before, last, after, heq, hlast, hafter⟩⟩

/-- A line that gives digits of its key text away has its entry hidden by a later line, or
the last line in front of it with that entry's key has that value too. -/
def CutsHarmless (lines : List (List Byte)) : Prop :=
  ∀ before line after, lines = before ++ line :: after →
    ∀ key value, cutEntry line = some (key, value) →
      (∃ later ∈ after, ∃ value, properEntry later = some (key, value) ∨
        cutEntry later = some (key, value)) ∨
      tableOf properEntry before key = some value

theorem properEntry_none {line : List Byte} {entry : List Byte × List Byte}
    (h : cutEntry line = some entry) : properEntry line = none := by
  rw [properEntry]
  split
  · rename_i hbehind
    rw [cutEntry, hbehind] at h
    cases h
  · rfl

theorem entry_eq_some {line : List Byte} {entry : List Byte × List Byte} :
    (properEntry line).or (cutEntry line) = some entry ↔
      properEntry line = some entry ∨ cutEntry line = some entry := by
  constructor
  · intro h
    cases hproper : properEntry line with
    | none =>
        rw [hproper, Option.none_or] at h
        exact Or.inr h
    | some other =>
        rw [hproper, Option.some_or] at h
        exact Or.inl h
  · rintro (hproper | hcut)
    · rw [hproper, Option.some_or]
    · rw [properEntry_none hcut, Option.none_or, hcut]

/-- `PullConfig` stores what the lines say exactly where the lines with digits in their key
text only do no harm. -/
theorem pullConfig_says_iff (file : List Byte) :
    SaysLines (fileLines file) (new.pullConfig (some file)).2.mp ↔
      CutsHarmless (fileLines file) := by
  rw [saysLines_iff, pullConfig_mp, tableOf_eq_iff]
  · constructor
    · intro h before line after heq key value hcut
      have hharmless := h before line after heq key value (entry_eq_some.2 (Or.inr hcut))
        (properEntry_none hcut)
      simpa only [entry_eq_some] using hharmless
    · intro h before line after heq key value hentry hproper
      rw [hproper, Option.none_or] at hentry
      simpa only [entry_eq_some] using h before line after heq key value hentry
  · intro line key value hentry
    rw [hentry, Option.some_or]

/-- `abc123` is stored as `abc12`. -/
theorem invented_key : ¬ ∀ file : List Byte,
    SaysLines (fileLines file) (new.pullConfig (some file)).2.mp := by
  intro hclaim
  have hstored : (new.pullConfig (some [97, 98, 99, 49, 50, 51])).2.mp [97, 98, 99, 49, 50] =
      some [51] := by
    decide
  obtain ⟨before, line, after, hlines, hentry, _⟩ :=
    (hclaim [97, 98, 99, 49, 50, 51]).sound _ _ hstored
  have hmem : line ∈ fileLines [97, 98, 99, 49, 50, 51] := by
    rw [hlines]
    simp
  have hline : line = [97, 98, 99, 49, 50, 51] := List.mem_singleton.1 hmem
  rw [hline] at hentry
  exact absurd hentry (by decide)

end MyNetLib.Config
