import MyNetLib.Library.Decimal

/-! # Fixed-size buffers and the stream (`include/log_stream.h`, `src/log_stream.cc`)

`data` is the content from `data_` up to `cur_`; nothing reads past it. That it
fits the array is part of the type. An overload of `operator<<` turns its
argument into a text and appends that text whole or not at all.
-/

namespace MyNetLib

open Library

structure FixedBuffer (size : Nat) where
  data : List Byte
  fits : data.length ≤ size
  deriving DecidableEq, Repr

namespace FixedBuffer

def kSmallBufferSize : Nat := 4000
def kBigBufferSize : Nat := 4000 * 1000

variable {size : Nat}

def new : FixedBuffer size := ⟨[], Nat.zero_le _⟩

def length (b : FixedBuffer size) : Nat := b.data.length
def avail (b : FixedBuffer size) : Nat := size - b.length
def reset (_ : FixedBuffer size) : FixedBuffer size := new

/-- A message that does not fit strictly is dropped. -/
def append (b : FixedBuffer size) (buf : List Byte) : FixedBuffer size :=
  if h : buf.length < b.avail then
    ⟨b.data ++ buf, by
      rw [List.length_append]
      unfold avail length at h
      omega⟩
  else b

@[simp] theorem new_data : (new : FixedBuffer size).data = [] := rfl

@[simp] theorem reset_data (b : FixedBuffer size) : b.reset.data = [] := rfl

theorem append_data {b : FixedBuffer size} {buf : List Byte} (h : buf.length < b.avail) :
    (b.append buf).data = b.data ++ buf := by
  simp [append, h]

theorem append_of_full {b : FixedBuffer size} {buf : List Byte} (h : b.avail ≤ buf.length) :
    b.append buf = b := by
  rw [append, dif_neg (by omega)]

theorem avail_of_empty {b : FixedBuffer size} (h : b.data = []) : b.avail = size := by
  simp [avail, length, h]

/-! ## A sequence of appends -/

/-- The texts `append` takes, one after the other, over `used` bytes. -/
def kept (size used : Nat) : List (List Byte) → List (List Byte)
  | [] => []
  | text :: rest =>
      if used + text.length < size then text :: kept size (used + text.length) rest
      else kept size used rest

def appendAll (b : FixedBuffer size) (texts : List (List Byte)) : FixedBuffer size :=
  texts.foldl append b

@[simp] theorem appendAll_nil (b : FixedBuffer size) : b.appendAll [] = b := rfl

@[simp] theorem appendAll_cons (b : FixedBuffer size) (text : List Byte)
    (rest : List (List Byte)) : b.appendAll (text :: rest) = (b.append text).appendAll rest := rfl

theorem appendAll_append (b : FixedBuffer size) (front back : List (List Byte)) :
    b.appendAll (front ++ back) = (b.appendAll front).appendAll back := by
  simp [appendAll, List.foldl_append]

theorem appendAll_data (b : FixedBuffer size) (texts : List (List Byte)) :
    (b.appendAll texts).data = b.data ++ (kept size b.length texts).flatten := by
  induction texts generalizing b with
  | nil => simp [kept]
  | cons text rest ih =>
      rw [appendAll_cons, ih, kept]
      by_cases hroom : b.length + text.length < size
      · have hdata : (b.append text).data = b.data ++ text :=
          append_data (by unfold avail; omega)
        rw [if_pos hroom]
        simp [length, hdata, List.append_assoc]
      · have hsame : b.append text = b := append_of_full (by unfold avail; omega)
        rw [if_neg hroom, hsame]

/-- One byte of the array is never used. -/
theorem length_kept_lt {used : Nat} (hused : used < size) (texts : List (List Byte)) :
    used + (kept size used texts).flatten.length < size := by
  induction texts generalizing used with
  | nil => simpa [kept] using hused
  | cons text rest ih =>
      rw [kept]
      split
      · rename_i hroom
        have hrest := ih hroom
        simp only [List.flatten_cons, List.length_append]
        omega
      · exact ih hused

theorem kept_append (used : Nat) (front back : List (List Byte)) :
    kept size used (front ++ back) =
      kept size used front ++ kept size (used + (kept size used front).flatten.length) back := by
  induction front generalizing used with
  | nil => simp [kept]
  | cons text rest ih =>
      rw [List.cons_append, kept, kept]
      split
      · rw [ih]
        simp [Nat.add_assoc]
      · exact ih used

theorem kept_of_fits {used : Nat} {texts : List (List Byte)}
    (hfits : used + texts.flatten.length < size) : kept size used texts = texts := by
  induction texts generalizing used with
  | nil => rfl
  | cons text rest ih =>
      rw [List.flatten_cons, List.length_append] at hfits
      rw [kept, if_pos (by omega), ih (by omega)]

end FixedBuffer

/-! ## The overloads of `operator<<` -/

/-- What `strlen` counts: the bytes in front of the first zero. -/
def cString (memory : List Byte) : List Byte := memory.takeWhile (· ≠ 0)

/-- The argument of an overload. A pointer stands for the memory it leads to;
`after` is what lies behind the array of one `char` that `operator<<(char)` has
on its stack; a floating-point number is the text `std::to_string` makes of it. -/
inductive Value where
  | int32 (t : Int32)
  | int64 (t : Int64)
  | float (text : List Byte)
  | double (text : List Byte)
  | bool (t : Bool)
  | char (t : Byte) (after : List Byte)
  | charPtr (str : Option (List Byte))
  | string (str : List Byte)
  deriving DecidableEq, Repr

namespace Value

/-- The bytes an overload gives to `buffer_.append`. -/
def text : Value → List Byte
  | int32 t => Decimal.ascii (Decimal.ofInt t.toInt)
  | int64 t => Decimal.ascii (Decimal.ofInt t.toInt)
  | float text => text
  | double text => text
  | bool true => Decimal.ascii "true ".toList
  | bool false => (Decimal.ascii " false ".toList).take 6
  -- `*this << p` is the overload for `const char*`
  | char t after => cString (t :: after)
  | charPtr (some str) => cString str
  | charPtr none => Decimal.ascii "(null)".toList
  | string str => str

def literal (text : String) : Value := charPtr (some (Decimal.ascii text.toList ++ [0]))

end Value

structure LogStream where
  buffer : FixedBuffer FixedBuffer.kSmallBufferSize
  deriving DecidableEq, Repr

namespace LogStream

def new : LogStream := ⟨FixedBuffer.new⟩

/-- `Append`, given the memory at `data`. -/
def append (s : LogStream) (data : List Byte) (len : Nat) : LogStream :=
  ⟨s.buffer.append (data.take len)⟩

/-- `operator<<` -/
def insert (s : LogStream) (t : Value) : LogStream := ⟨s.buffer.append t.text⟩

@[simp] theorem append_buffer (s : LogStream) (data : List Byte) (len : Nat) :
    (s.append data len).buffer = s.buffer.append (data.take len) := rfl

@[simp] theorem insert_buffer (s : LogStream) (t : Value) :
    (s.insert t).buffer = s.buffer.append t.text := rfl

theorem foldl_insert_buffer (s : LogStream) (ts : List Value) :
    (ts.foldl insert s).buffer = s.buffer.appendAll (ts.map Value.text) := by
  induction ts generalizing s with
  | nil => rfl
  | cons t rest ih => rw [List.foldl_cons, ih, List.map_cons, FixedBuffer.appendAll_cons,
      insert_buffer]

end LogStream

end MyNetLib
