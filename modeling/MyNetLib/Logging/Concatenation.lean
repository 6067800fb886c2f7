import MyNetLib.Logging.LogStream

/-! # What a sequence of insertions leaves in the stream

Every overload hands its own text to the buffer. For a `char` this is a C string
that begins with the character and ends where the memory behind the one-element
array happens to hold a zero.
-/

namespace MyNetLib

open Library

theorem FixedBuffer.length_kept_le {size : Nat} (used : Nat) (texts : List (List Byte)) :
    (kept size used texts).flatten.length ≤ texts.flatten.length := by
  induction texts generalizing used with
  | nil => simp [kept]
  | cons text rest ih =>
      rw [kept]
      split
      · have hrest := ih (used + text.length)
        simp only [List.flatten_cons, List.length_append]
        omega
      · have hrest := ih used
        simp only [List.flatten_cons, List.length_append]
        omega

/-- A text that is empty or too long for any buffer of this size leaves the room to the others. -/
theorem FixedBuffer.length_kept_skip {size : Nat} (used : Nat) {text : List Byte}
    (rest : List (List Byte)) (hskip : text = [] ∨ size ≤ text.length) :
    (kept size used (text :: rest)).flatten.length ≤ rest.flatten.length := by
  rw [kept]
  split
  · rename_i hroom
    have hnil : text = [] := hskip.resolve_right (by omega)
    rw [hnil, List.flatten_cons, List.nil_append]
    exact length_kept_le _ _
  · exact length_kept_le _ _

namespace Value

/-- What an insertion is to add: the value alone. For a `bool` it is the code's own text,
of which `false` loses its last character: the literal has seven, the length passed is 6. -/
def rendering : Value → List Byte
  | int32 t => Decimal.ascii (Decimal.ofInt t.toInt)
  | int64 t => Decimal.ascii (Decimal.ofInt t.toInt)
  | float text => text
  | double text => text
  | bool true => Decimal.ascii "true ".toList
  | bool false => Decimal.ascii " false".toList
  | char t _ => [t]
  | charPtr (some str) => str.takeWhile (· ≠ 0)
  | charPtr none => Decimal.ascii "(null)".toList
  | string str => str

/-- The value without the memory behind the array. -/
def argument : Value → Value
  | char t _ => char t []
  | v => v

def isChar : Value → Bool
  | char _ _ => true
  | _ => false

theorem text_of_not_char {v : Value} (h : v.isChar = false) : v.text = v.rendering := by
  cases v with
  | bool t =>
      cases t with
      | true => rfl
      | false => decide
  | char t after => cases h
  | charPtr str =>
      cases str with
      | none => rfl
      | some memory => rfl
  | _ => rfl

theorem eq_of_argument_eq {v w : Value} (h : w.argument = v.argument) (hv : v.isChar = false) :
    w = v := by
  cases v with
  | char t after => cases hv
  | _ =>
      cases w with
      | _ => cases h <;> rfl

theorem argument_of_not_char {v : Value} (h : v.isChar = false) : v.argument = v := by
  cases v with
  | char t after => cases h
  | _ => rfl

@[simp] theorem argument_argument (v : Value) : v.argument.argument = v.argument := by
  cases v with
  | _ => rfl

@[simp] theorem rendering_argument (v : Value) : v.argument.rendering = v.rendering := by
  cases v with
  | _ => rfl

theorem length_text_argument (v : Value) : v.argument.text.length ≤ v.rendering.length := by
  by_cases h : v.isChar = true
  · cases v with
    | char t after => exact (List.takeWhile_prefix _).length_le
    | _ => cases h
  · have hnot : v.isChar = false := by simpa using h
    rw [argument_of_not_char hnot, text_of_not_char hnot]

/-- A character that is a zero adds nothing, another one at least all that is
behind it up to a zero. -/
theorem length_text_char (t : Byte) (after : List Byte) :
    (char t after).text.length = if t = 0 then 0 else 1 + (cString after).length := by
  by_cases h : t = 0
  · simp [text, cString, h]
  · simp [text, cString, h, Nat.add_comm]

end Value

/-- The stream holds the renderings one after the other. -/
def Concatenates (values : List Value) : Prop :=
  (values.foldl LogStream.insert LogStream.new).buffer.data = (values.map Value.rendering).flatten

theorem inserted_data (values : List Value) :
    (values.foldl LogStream.insert LogStream.new).buffer.data =
      (FixedBuffer.kept FixedBuffer.kSmallBufferSize 0 (values.map Value.text)).flatten := by
  rw [LogStream.foldl_insert_buffer, FixedBuffer.appendAll_data]
  rfl

theorem concatenates_of_no_char {values : List Value}
    (hfits : (values.map Value.rendering).flatten.length < FixedBuffer.kSmallBufferSize)
    (hchars : ∀ v ∈ values, v.isChar = false) : Concatenates values := by
  have htexts : values.map Value.text = values.map Value.rendering :=
    List.map_congr_left fun v hv => Value.text_of_not_char (hchars v hv)
  rw [Concatenates, inserted_data, htexts, FixedBuffer.kept_of_fits]
  omega

theorem length_texts_argument (values : List Value) :
    ((values.map Value.argument).map Value.text).flatten.length ≤
      (values.map Value.rendering).flatten.length := by
  induction values with
  | nil => exact Nat.le_refl _
  | cons v rest ih =>
      have hv := v.length_text_argument
      simp only [List.map_cons, List.flatten_cons, List.length_append]
      omega

theorem eq_of_arguments_eq {values values' : List Value}
    (h : values'.map Value.argument = values.map Value.argument)
    (hchars : ∀ v ∈ values, v.isChar = false) : values' = values := by
  induction values generalizing values' with
  | nil => simpa using h
  | cons v rest ih =>
      cases values' with
      | nil => simp at h
      | cons w tail =>
          simp only [List.map_cons, List.cons.injEq] at h
          rw [Value.eq_of_argument_eq h.1 (hchars v List.mem_cons_self),
            ih h.2 fun u hu => hchars u (List.mem_cons_of_mem v hu)]

def fullMemory : List Byte := List.replicate FixedBuffer.kSmallBufferSize 1

/-- In front of it a character is too long for the buffer; a zero is never there. -/
theorem text_char_skipped (t : Byte) : (Value.char t fullMemory).text = [] ∨
    FixedBuffer.kSmallBufferSize ≤ (Value.char t fullMemory).text.length := by
  have hmemory : cString fullMemory = fullMemory := by simp [fullMemory, cString]
  have hlength := Value.length_text_char t fullMemory
  rw [hmemory, fullMemory, List.length_replicate] at hlength
  by_cases ht : t = 0
  · left
    rw [if_pos ht] at hlength
    exact List.length_eq_zero_iff.1 hlength
  · right
    rw [if_neg ht] at hlength
    rw [fullMemory]
    omega

theorem exists_memory_drops (pre post : List Value) (t : Byte) (after : List Byte) :
    ∃ values, values.map Value.argument = (pre ++ .char t after :: post).map Value.argument ∧
      ¬ Concatenates values := by
  refine ⟨pre.map Value.argument ++ .char t fullMemory :: post.map Value.argument, ?_, ?_⟩
  · have hsame : ∀ values : List Value,
        (values.map Value.argument).map Value.argument = values.map Value.argument := by
      intro values
      rw [List.map_map]
      exact List.map_congr_left fun v _ => v.argument_argument
    simp only [List.map_append, List.map_cons, hsame, Value.argument]
  · have hrender : ∀ values : List Value,
        (values.map Value.argument).map Value.rendering = values.map Value.rendering := by
      intro values
      rw [List.map_map]
      exact List.map_congr_left fun v _ => v.rendering_argument
    intro hconcat
    rw [Concatenates, inserted_data] at hconcat
    have hlength := congrArg List.length hconcat
    simp only [List.map_append, List.map_cons, FixedBuffer.kept_append, List.flatten_append,
      List.flatten_cons, List.length_append, hrender] at hlength
    -- the character itself is the byte that is missing
    have hone : (Value.char t fullMemory).rendering.length = 1 := rfl
    have hpre := length_texts_argument pre
    have hpost := length_texts_argument post
    have hfront : (FixedBuffer.kept FixedBuffer.kSmallBufferSize 0
        ((pre.map Value.argument).map Value.text)).flatten.length ≤
          ((pre.map Value.argument).map Value.text).flatten.length :=
      FixedBuffer.length_kept_le 0 _
    have hback := fun used => FixedBuffer.length_kept_skip used
      ((post.map Value.argument).map Value.text) (text_char_skipped t)
    have hused := hback (0 + (FixedBuffer.kept FixedBuffer.kSmallBufferSize 0
      ((pre.map Value.argument).map Value.text)).flatten.length)
    omega

/-- Whatever lies behind the arrays, the stream holds exactly the renderings:
precisely for the sequences without a `char`. -/
theorem concatenates_iff (values : List Value)
    (hfits : (values.map Value.rendering).flatten.length < FixedBuffer.kSmallBufferSize) :
    (∀ values', values'.map Value.argument = values.map Value.argument → Concatenates values') ↔
      ∀ v ∈ values, v.isChar = false := by
  constructor
  · intro hall v hv
    cases hchar : v.isChar with
    | false => rfl
    | true =>
        cases v with
        | char t after =>
            obtain ⟨pre, post, rfl⟩ := List.append_of_mem hv
            obtain ⟨values', hsame, hnot⟩ := exists_memory_drops pre post t after
            exact absurd (hall values' hsame) hnot
        | _ => cases hchar
  · intro hchars values' hsame
    rw [eq_of_arguments_eq hsame hchars]
    exact concatenates_of_no_char hfits hchars

/-- Two numbers, a null pointer and a string. -/
theorem concatenates_iff_mixed : Concatenates
    [.int32 (-5), .bool true, .charPtr none, .string [97, 0, 98], .int64 22] := by
  have hfits : (([.int32 (-5), .bool true, .charPtr none, .string [97, 0, 98], .int64 22] :
      List Value).map Value.rendering).flatten.length < FixedBuffer.kSmallBufferSize := by decide
  have hchars : ∀ v ∈ ([.int32 (-5), .bool true, .charPtr none, .string [97, 0, 98],
      .int64 22] : List Value), v.isChar = false := by decide
  exact (concatenates_iff _ hfits).2 hchars _ rfl

/-- A colon with an `x` behind its array. -/
theorem stray_byte_appended :
    ¬ ∀ values : List Value, (values.map Value.rendering).flatten.length <
      FixedBuffer.kSmallBufferSize → Concatenates values := by
  intro hclaim
  have hcolon := hclaim [.char 58 [120, 0]] (by decide)
  have hdata : (([.char 58 [120, 0]] : List Value).foldl LogStream.insert
      LogStream.new).buffer.data = [58, 120] := by decide
  rw [Concatenates, hdata] at hcolon
  exact absurd hcolon (by decide)

end MyNetLib
