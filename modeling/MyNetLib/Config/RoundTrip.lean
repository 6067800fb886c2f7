import MyNetLib.Config.Keys

/-! # Writing a configuration and reading it back

A line of a configuration is an entry or a comment. What is required of their parts is
what the pattern of `Parse_line` needs to find them again: the key ends before the first
space or `=`, and the value begins with the first digit behind it.
-/

namespace MyNetLib.Config

open Library

/-- A key, what stands between it and its value, and the value. -/
structure Entry where
  key : List Byte
  between : List Byte
  value : List Byte
  key_ok : ∀ b ∈ key, isKey b = true ∧ b ≠ newline
  between_ends : between.head?.any (fun b => !isKey b) = true
  between_ok : ∀ b ∈ between, isOther b = true ∧ b ≠ newline
  value_begins : value.head?.any isDigit = true
  value_ok : ∀ b ∈ value, isAny b = true

inductive Line where
  | entry (e : Entry)
  | comment (text : List Byte) (ok : ∀ b ∈ text, isOther b = true ∧ b ≠ newline)

namespace Line

def text : Line → List Byte
  | .entry e => e.key ++ (e.between ++ e.value)
  | .comment text _ => text

/-- The assignment a line stands for. -/
def assigns : Line → Option (List Byte × List Byte)
  | .entry e => some (e.key, e.value)
  | .comment _ _ => none

end Line

/-- The file with these lines, each ended by a newline. -/
def render (lines : List Line) : List Byte := lines.flatMap fun l => l.text ++ [newline]

/-! ## One line -/

theorem newline_isAny : isAny newline = false := by decide

theorem Entry.newline_not_mem (e : Entry) : newline ∉ e.key ++ (e.between ++ e.value) := by
  simp only [List.mem_append, not_or]
  refine ⟨fun h => (e.key_ok _ h).2 rfl, fun h => (e.between_ok _ h).2 rfl, fun h => ?_⟩
  have hany := e.value_ok _ h
  rw [newline_isAny] at hany
  cases hany

theorem Line.newline_not_mem : ∀ l : Line, newline ∉ l.text
  | .entry e => e.newline_not_mem
  | .comment _ ok => fun h => (ok _ h).2 rfl

theorem Entry.keyText_eq (e : Entry) :
    keyText (e.key ++ (e.between ++ e.value)) = e.key ∧
      behindKey (e.key ++ (e.between ++ e.value)) = e.between ++ e.value := by
  have hkey : ∀ b ∈ e.key, isKey b = true := fun b hb => (e.key_ok b hb).1
  have hends := e.between_ends
  cases hbetween : e.between with
  | nil =>
      rw [hbetween] at hends
      cases hends
  | cons b rest =>
      have hb : isKey b = false := by simpa [hbetween] using hends
      rw [keyText, behindKey, List.takeWhile_append_of_pos hkey, List.dropWhile_append_of_pos hkey]
      simp [hb]

theorem Entry.value_eq (e : Entry) :
    toCarriageReturn ((e.between ++ e.value).dropWhile isOther) = e.value := by
  have hbetween : ∀ b ∈ e.between, isOther b = true := fun b hb => (e.between_ok b hb).1
  have hbegins := e.value_begins
  have hvalue : e.value.dropWhile isOther = e.value := by
    cases hv : e.value with
    | nil => rfl
    | cons b rest =>
        have hb : isDigit b = true := by simpa [hv] using hbegins
        exact List.dropWhile_cons_of_neg (by simp [isOther, hb])
  rw [List.dropWhile_append_of_pos hbetween, hvalue, toCarriageReturn, List.takeWhile_eq_self_iff]
  intro b hb
  have hany := e.value_ok b hb
  simp only [isAny, Bool.and_eq_true] at hany
  exact hany.2

theorem Line.matched_text : ∀ l : Line, matched l.text = l.assigns
  | .entry e => by
      have hdigit : (e.between ++ e.value).any isDigit = true := by
        have hbegins := e.value_begins
        rw [List.any_append]
        cases hv : e.value with
        | nil =>
            rw [hv] at hbegins
            cases hbegins
        | cons b rest =>
            have hb : isDigit b = true := by simpa [hv] using hbegins
            simp [hb]
      have hproper := matched_proper e.newline_not_mem (by rw [e.keyText_eq.2, hdigit])
      rw [e.keyText_eq.1, e.keyText_eq.2, e.value_eq] at hproper
      exact hproper
  | .comment text ok => by
      apply matched_eq_none
      rw [Line.text, List.any_eq_false]
      intro b hb
      simpa [isOther] using (ok b hb).1

/-! ## The file -/

theorem fileLines_append {line rest : List Byte} (h : newline ∉ line) :
    fileLines (line ++ newline :: rest) = line :: fileLines rest := by
  have hline : ∀ b ∈ line, inLine b = true := by
    intro b hb
    rw [inLine, decide_eq_true_eq]
    rintro rfl
    exact h hb
  have hnewline : inLine newline = false := by decide
  rw [fileLines_eq (by simp), List.takeWhile_append_of_pos hline,
    List.dropWhile_append_of_pos hline]
  simp [hnewline]

theorem fileLines_render (lines : List Line) : fileLines (render lines) = lines.map Line.text := by
  induction lines with
  | nil => rfl
  | cons l lines ih =>
      have hsplit : render (l :: lines) = l.text ++ newline :: render lines := by
        rw [render, List.flatMap_cons, List.append_assoc]
        rfl
      rw [hsplit, fileLines_append l.newline_not_mem, ih, List.map_cons]

theorem pullConfig_assigns (c : Config) (lines : List Line) (key : List Byte) :
    (c.pullConfig (some (render lines))).2.mp key =
      (tableOf Line.assigns lines key).or (c.mp key) := by
  have hline : ∀ (mp : List Byte → Option (List Byte)) (l : Line),
      assign matched mp l.text = assign Line.assigns mp l := by
    intro mp l
    rw [assign, assign, l.matched_text]
  rw [pullConfig_some, foldl_parseLine_mp, fileLines_render, List.foldl_map, ← foldl_assign]
  exact congrFun (List.foldl_ext _ _ _ fun mp l _ => hline mp l) key

theorem Line.assigns_ne {l : Line} {key : List Byte} (h : ∀ e, l = .entry e → e.key ≠ key)
    (value : List Byte) : l.assigns ≠ some (key, value) := by
  cases l with
  | entry e =>
      intro heq
      exact h e rfl (congrArg Prod.fst (Option.some.inj heq))
  | comment text ok => simp [Line.assigns]

theorem tableOf_last {before after : List Line} {e : Entry}
    (hafter : ∀ e', .entry e' ∈ after → e'.key ≠ e.key) :
    tableOf Line.assigns (before ++ .entry e :: after) e.key = some e.value := by
  have he : Line.assigns (.entry e) = some (e.key, e.value) := rfl
  apply tableOf_eq_of_last he
  intro l hl value
  apply Line.assigns_ne
  rintro e' rfl
  exact hafter e' hl

/-- What has been written is read back: a key has the value of its last entry, whatever
comments stand in between, and a key the file says nothing about keeps what an earlier
file gave it. -/
theorem pullConfig_render (c : Config) (lines : List Line) :
    (c.pullConfig (some (render lines))).1 = true ∧
    (∀ before (e : Entry) after, lines = before ++ .entry e :: after →
      (∀ e', .entry e' ∈ after → e'.key ≠ e.key) →
      (c.pullConfig (some (render lines))).2.mp e.key = some e.value) ∧
    ∀ key, (∀ e, .entry e ∈ lines → e.key ≠ key) →
      (c.pullConfig (some (render lines))).2.mp key = c.mp key := by
  refine ⟨rfl, ?_, ?_⟩
  · rintro before e after rfl hafter
    rw [pullConfig_assigns, tableOf_last hafter, Option.some_or]
  · intro key hkey
    rw [pullConfig_assigns, tableOf_eq_none, Option.none_or]
    intro l hl value
    apply Line.assigns_ne
    rintro e rfl
    exact hkey e hl

end MyNetLib.Config
