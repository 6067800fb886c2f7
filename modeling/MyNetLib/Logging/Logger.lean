import MyNetLib.Logging.LogStream

/-! # Log records (`include/logger.h`, `src/logger.cc`)

A `Logger` lives for one statement: the constructor writes the head of the
record, the insertions into `Stream()` its message, and the destructor calls
`Finish` and hands the buffer to `g_output`. Every part is one append of its
own, the newline included.
-/

namespace MyNetLib

open Library

/-- What `localtime` fills in. -/
structure Tm where
  tmYear : Int
  tmMon : Int
  tmMday : Int
  tmHour : Int
  tmMin : Int
  tmSec : Int
  deriving DecidableEq, Repr

namespace TimeStamp

/-- `sizeof buf` in `TimeToString`. -/
def kBufSize : Nat := 128

/-- `"%4d/%02d/%02d %02d:%02d:%02d"` -/
def timeToString (tm : Tm) : List Byte :=
  let two (n : Int) := List.leftpad 2 '0' (Decimal.ofInt n)
  Decimal.ascii (List.take (kBufSize - 1)
    (List.leftpad 4 ' ' (Decimal.ofInt (tm.tmYear + 1900)) ++ '/' :: two (tm.tmMon + 1) ++
      '/' :: two tm.tmMday ++ ' ' :: two tm.tmHour ++ ':' :: two tm.tmMin ++ ':' :: two tm.tmSec))

end TimeStamp

namespace Logger

inductive LogLevel where
  | trace
  | debug
  | info
  | warn
  | error
  | fatal
  deriving DecidableEq, Repr

/-- `LogLevelName` -/
def LogLevel.name : LogLevel → List Byte
  | trace => Decimal.ascii "[TRACE]: ".toList
  | debug => Decimal.ascii "[DEBUG]: ".toList
  | info => Decimal.ascii "[INFO]:  ".toList
  | warn => Decimal.ascii "[WARN]:  ".toList
  | error => Decimal.ascii "[ERROR]: ".toList
  | fatal => Decimal.ascii "[FATAL]: ".toList

/-- Every name has the nine characters the constructor of `Impl` counts on. -/
theorem strlen_name (level : LogLevel) : (cString level.name).length = 9 := by
  cases level <;> decide

/-- `class T`, with the assertion of its constructor. -/
structure T where
  data : List Byte
  len : Nat
  checked : (cString data).length = len

namespace T

/-- `T(temp, strlen(temp))` -/
def ofCString (temp : List Byte) : T := ⟨temp, (cString temp).length, rfl⟩

/-- `T(LogLevelName[level], 9)` -/
def ofLevel (level : LogLevel) : T := ⟨level.name, 9, strlen_name level⟩

/-- What `operator<<` appends for a `T`. -/
def text (v : T) : List Byte := v.data.take v.len

theorem text_eq (v : T) : v.text = cString v.data := by
  have hprefix : cString v.data <+: v.data := List.takeWhile_prefix _
  rw [text, ← v.checked, ← List.prefix_iff_eq_take.1 hprefix]

end T

/-- What a record takes from outside the program: the memory `temp` leads to in
the constructor of `Impl` (the string it points into is gone by then), the local
time, and the memory behind the array of `<< ':'` in `Finish`. -/
structure Surroundings where
  temp : List Byte
  now : Tm
  afterColon : List Byte
  deriving DecidableEq, Repr

structure Impl where
  stream : LogStream
  level : LogLevel
  line : Int32
  filename : Option (List Byte)
  deriving DecidableEq, Repr

namespace Impl

def new (w : Surroundings) (level : LogLevel) (filename : Option (List Byte)) (line : Int32) :
    Impl where
  stream := LogStream.new
    |>.append (T.ofCString w.temp).data (T.ofCString w.temp).len
    |>.insert (.literal " ")
    |>.insert (.string (TimeStamp.timeToString w.now))
    |>.insert (.literal " ")
    |>.append (T.ofLevel level).data (T.ofLevel level).len
    |>.insert (.literal " ")
  level := level
  line := line
  filename := filename

/-- The number in the record is 22, not `line_`. -/
def finish (w : Surroundings) (impl : Impl) : Impl :=
  { impl with
    stream := impl.stream
      |>.insert (.literal " - ")
      |>.insert (.charPtr impl.filename)
      |>.insert (.char 58 w.afterColon)
      |>.insert (.int32 22)
      |>.insert (.literal "\n") }

end Impl

/-- The four constructors, without `file` and `line`. `func` is inserted with a
blank, in front of what lies behind the array of that `operator<<`. -/
inductive Constructor where
  | plain
  | withFunc (level : LogLevel) (func : Option (List Byte)) (after : List Byte)
  | withLevel (level : LogLevel)
  | withToAbort (toAbort : Bool)
  deriving DecidableEq, Repr

namespace Constructor

def level : Constructor → LogLevel
  | plain => .info
  | withFunc level _ _ => level
  | withLevel level => level
  | withToAbort toAbort => if toAbort then .fatal else .error

/-- What a constructor inserts itself. -/
def inserts : Constructor → List Value
  | withFunc _ func after => [.charPtr func, .char 32 after]
  | _ => []

end Constructor

/-- The constructor, and the insertions of the statement. -/
def construct (w : Surroundings) (c : Constructor) (file : Option (List Byte)) (line : Int32) :
    Impl :=
  let impl := Impl.new w c.level file line
  { impl with stream := c.inserts.foldl LogStream.insert impl.stream }

def insertAll (impl : Impl) (values : List Value) : Impl :=
  { impl with stream := values.foldl LogStream.insert impl.stream }

inductive Call where
  | output (msg : List Byte)
  | flush
  | abort
  deriving DecidableEq, Repr

/-- `~Logger` -/
def destroy (w : Surroundings) (impl : Impl) : List Call :=
  let impl := impl.finish w
  .output impl.stream.buffer.data ::
    if impl.level = .fatal then [.flush, .abort] else []

def statement (w : Surroundings) (c : Constructor) (file : Option (List Byte)) (line : Int32)
    (values : List Value) : List Call :=
  destroy w (insertAll (construct w c file line) values)

/-! ## The parts of a record -/

/-- The texts of a record in front of its newline. -/
def parts (w : Surroundings) (c : Constructor) (file : Option (List Byte)) (values : List Value) :
    List (List Byte) :=
  [cString w.temp, [32], TimeStamp.timeToString w.now, [32], c.level.name, [32]] ++
    (c.inserts ++ values).map Value.text ++
    [[32, 45, 32], (Value.charPtr file).text, cString (58 :: w.afterColon), [50, 50]]

def newline : Byte := 10

theorem getLast_flatten_parts (w : Surroundings) (c : Constructor) (file : Option (List Byte))
    (values : List Value) : (parts w c file values).flatten.getLast? = some 50 := by
  simp only [parts, List.flatten_append, List.flatten_cons, List.getLast?_append]
  simp

theorem Impl.new_buffer (w : Surroundings) (level : LogLevel) (file : Option (List Byte))
    (line : Int32) :
    (Impl.new w level file line).stream.buffer = FixedBuffer.new.appendAll
      [cString w.temp, [32], TimeStamp.timeToString w.now, [32], level.name, [32]] := by
  have htemp : w.temp.take (T.ofCString w.temp).len = cString w.temp :=
    (T.ofCString w.temp).text_eq
  have hname : level.name.take 9 = level.name := by
    cases level <;> rfl
  have hblank : (Value.literal " ").text = [32] := by decide
  simp only [Impl.new, LogStream.insert_buffer, LogStream.append_buffer, hblank, T.ofLevel]
  simp only [T.ofCString] at htemp ⊢
  rw [htemp, hname]
  simp only [FixedBuffer.appendAll_cons, FixedBuffer.appendAll_nil, LogStream.new, Value.text]

theorem Impl.finish_buffer (w : Surroundings) (impl : Impl) :
    (impl.finish w).stream.buffer = impl.stream.buffer.appendAll
      [[32, 45, 32], (Value.charPtr impl.filename).text, cString (58 :: w.afterColon), [50, 50],
        [newline]] := by
  have hdash : (Value.literal " - ").text = [32, 45, 32] := by decide
  have hnumber : (Value.int32 22).text = [50, 50] := by decide
  have hnewline : (Value.literal "\n").text = [newline] := by decide
  have hcolon : (Value.char 58 w.afterColon).text = cString (58 :: w.afterColon) := rfl
  simp only [Impl.finish, LogStream.insert_buffer, hdash, hnumber, hnewline, hcolon,
    FixedBuffer.appendAll_cons, FixedBuffer.appendAll_nil]

/-- The bytes a statement passes to `g_output`. -/
def record (w : Surroundings) (c : Constructor) (file : Option (List Byte)) (line : Int32)
    (values : List Value) : List Byte :=
  ((insertAll (construct w c file line) values).finish w).stream.buffer.data

theorem statement_outputs (w : Surroundings) (c : Constructor) (file : Option (List Byte))
    (line : Int32) (values : List Value) (msg : List Byte) :
    .output msg ∈ statement w c file line values ↔ msg = record w c file line values := by
  unfold statement destroy record
  simp only [List.mem_cons, Call.output.injEq]
  split <;> simp

theorem record_eq (w : Surroundings) (c : Constructor) (file : Option (List Byte)) (line : Int32)
    (values : List Value) :
    record w c file line values =
      (FixedBuffer.kept FixedBuffer.kSmallBufferSize 0
        (parts w c file values ++ [[newline]])).flatten := by
  have hbuffer : ((insertAll (construct w c file line) values).finish w).stream.buffer =
      FixedBuffer.new.appendAll (parts w c file values ++ [[newline]]) := by
    rw [Impl.finish_buffer]
    simp only [insertAll, construct, LogStream.foldl_insert_buffer, Impl.new_buffer,
      ← FixedBuffer.appendAll_append]
    simp [parts, Impl.new, List.append_assoc]
  rw [record, hbuffer, FixedBuffer.appendAll_data]
  rfl

/-! ## Where a record ends -/

/-- What the buffer has taken when `Finish` comes to the newline. -/
def beforeNewline (w : Surroundings) (c : Constructor) (file : Option (List Byte))
    (values : List Value) : List Byte :=
  (FixedBuffer.kept FixedBuffer.kSmallBufferSize 0 (parts w c file values)).flatten

theorem length_beforeNewline (w : Surroundings) (c : Constructor) (file : Option (List Byte))
    (values : List Value) : (beforeNewline w c file values).length ≤ 3999 := by
  have hlt : 0 + (beforeNewline w c file values).length < FixedBuffer.kSmallBufferSize :=
    FixedBuffer.length_kept_lt (by decide) (parts w c file values)
  unfold FixedBuffer.kSmallBufferSize at hlt
  omega

theorem record_of_room {w : Surroundings} {c : Constructor} {file : Option (List Byte)}
    {values : List Value} (line : Int32)
    (hroom : (beforeNewline w c file values).length ≤ 3998) :
    record w c file line values = beforeNewline w c file values ++ [newline] := by
  unfold beforeNewline at hroom ⊢
  rw [record_eq, FixedBuffer.kept_append, List.flatten_append]
  congr 1
  rw [FixedBuffer.kept_of_fits]
  · rfl
  · simp only [FixedBuffer.kSmallBufferSize, List.flatten_cons, List.flatten_nil,
      List.length_append, List.length_cons, List.length_nil] at hroom ⊢
    omega

theorem record_of_full {w : Surroundings} {c : Constructor} {file : Option (List Byte)}
    {values : List Value} (line : Int32)
    (hfull : ¬ (beforeNewline w c file values).length ≤ 3998) :
    record w c file line values = beforeNewline w c file values := by
  unfold beforeNewline at hfull ⊢
  have hnone : ¬ 0 + (FixedBuffer.kept FixedBuffer.kSmallBufferSize 0
      (parts w c file values)).flatten.length + [newline].length <
        FixedBuffer.kSmallBufferSize := by
    simp only [FixedBuffer.kSmallBufferSize, List.length_singleton] at hfull ⊢
    omega
  rw [record_eq, FixedBuffer.kept_append, FixedBuffer.kept, if_neg hnone, FixedBuffer.kept,
    List.append_nil]

theorem record_of_fits {w : Surroundings} {c : Constructor} {file : Option (List Byte)}
    {values : List Value} (line : Int32)
    (hfits : (parts w c file values).flatten.length ≤ 3998) :
    record w c file line values = (parts w c file values).flatten ++ [newline] := by
  have hall : beforeNewline w c file values = (parts w c file values).flatten := by
    rw [beforeNewline, FixedBuffer.kept_of_fits]
    unfold FixedBuffer.kSmallBufferSize
    omega
  rw [← hall] at hfits ⊢
  exact record_of_room line hfits

/-- At most 3999 bytes, with a newline at the end. -/
def Terminated (msg : List Byte) : Prop := msg.length ≤ 3999 ∧ msg.getLast? = some newline

instance (msg : List Byte) : Decidable (Terminated msg) :=
  inferInstanceAs (Decidable (_ ∧ _))

/-- The newline is dropped from the records that have filled the buffer without it. -/
theorem terminated_iff (w : Surroundings) (c : Constructor) (file : Option (List Byte))
    (line : Int32) (values : List Value) :
    (∀ msg, .output msg ∈ statement w c file line values → Terminated msg) ↔
      (beforeNewline w c file values).length ≤ 3998 ∨
        (beforeNewline w c file values).getLast? = some newline := by
  simp only [statement_outputs, forall_eq]
  by_cases hroom : (beforeNewline w c file values).length ≤ 3998
  · have hrecord := record_of_room line hroom
    have hterminated : Terminated (record w c file line values) := by
      rw [hrecord]
      constructor
      · rw [List.length_append, List.length_singleton]
        omega
      · exact List.getLast?_concat
    exact iff_of_true hterminated (.inl hroom)
  · have hrecord := record_of_full line hroom
    have hlength := length_beforeNewline w c file values
    rw [hrecord]
    constructor
    · intro hterminated
      exact .inr hterminated.2
    · intro hlast
      exact ⟨hlength, hlast.resolve_left hroom⟩

/-! A record of 35 bytes in front of its message, and 10 bytes behind it. -/

def somewhere : Surroundings where
  temp := [49, 50, 51, 52, 0]
  now := ⟨124, 0, 1, 12, 0, 0⟩
  afterColon := [0]

/-- `"a.cc"` -/
def someFile : Option (List Byte) := some [97, 46, 99, 99, 0]

def longMessage : List Value := [.string (List.replicate 3954 97)]

theorem long_message_runs_on :
    ¬ ∀ msg, .output msg ∈ statement somewhere .plain someFile 7 longMessage →
      Terminated msg := by
  have hlengths : (parts somewhere .plain someFile longMessage).map List.length =
      [4, 1, 19, 1, 9, 1, 3954, 3, 4, 1, 2] := by
    simp only [parts, longMessage, Constructor.inserts, List.nil_append, List.map_cons,
      List.map_nil, List.map_append, Value.text, List.length_replicate]
    decide
  have hlength : (parts somewhere .plain someFile longMessage).flatten.length = 3999 := by
    rw [List.length_flatten, hlengths]
    decide
  have hbefore : beforeNewline somewhere .plain someFile longMessage =
      (parts somewhere .plain someFile longMessage).flatten := by
    rw [beforeNewline, FixedBuffer.kept_of_fits]
    rw [hlength]
    decide
  have hrecord : record somewhere .plain someFile 7 longMessage =
      (parts somewhere .plain someFile longMessage).flatten := by
    rw [record_of_full, hbefore]
    rw [hbefore, hlength]
    decide
  have hlast : (record somewhere .plain someFile 7 longMessage).getLast? = some 50 := by
    rw [hrecord]
    exact getLast_flatten_parts _ _ _ _
  intro h
  have hterminated := h _ ((statement_outputs _ _ _ _ _ _).2 rfl)
  rw [Terminated, hlast] at hterminated
  exact absurd hterminated.2 (by decide)

end Logger

end MyNetLib
