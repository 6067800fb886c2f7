import MyNetLib.Library.FixedWidth
import MyNetLib.Server.Names

/-! # Addresses as text (`src/inet_addr.cc`)

`InetAddr(ip, port)` reads its text with `inet_addr`, `ToIp` and `ToIpPort` write with
`inet_ntop`. The text that is read has one to four parts; a part is octal behind a `0`,
hexadecimal behind `0x` and decimal otherwise, and the last one fills the bytes that are left.
-/

namespace MyNetLib

open Library

/-! ## `strtoul` with base 0 -/

/-- The value of a digit of any base up to 16; 16 for other characters. -/
def digitValue (c : Char) : Nat :=
  if '0' ≤ c ∧ c ≤ '9' then c.toNat - '0'.toNat
  else if 'a' ≤ c ∧ c ≤ 'f' then c.toNat - 'a'.toNat + 10
  else if 'A' ≤ c ∧ c ≤ 'F' then c.toNat - 'A'.toNat + 10
  else 16

def isDigitOf (base : Nat) (c : Char) : Bool := digitValue c < base

/-- The base the text is written in, and its digits. -/
def radix : List Char → Nat × List Char
  | '0' :: x :: text =>
      if (x = 'x' ∨ x = 'X') ∧ text.head?.any (isDigitOf 16) then (16, text)
      else (8, '0' :: x :: text)
  | ['0'] => (8, ['0'])
  | text => (10, text)

/-- The number, and what follows its last digit. The caller looks at the size. -/
def strtoul (text : List Char) : Nat × List Char :=
  let read := radix text
  ((read.2.takeWhile (isDigitOf read.1)).foldl (fun acc c => read.1 * acc + digitValue c) 0,
    read.2.dropWhile (isDigitOf read.1))

/-! ## `inet_addr` -/

def isBlank (c : Char) : Bool := c = ' ' || ('\t' ≤ c && c ≤ '\r')

/-- The last part goes into the bytes that are left, this one included. -/
def lastPart (left bytes val : Nat) (rest : List Char) : Option Nat :=
  if rest.head?.all isBlank ∧ val < 256 ^ (left + 1) then some (bytes * 256 ^ (left + 1) + val)
  else none

/-- `inet_aton`, with `left` bytes behind the next part and the value of the bytes read. -/
def inetAton : Nat → Nat → List Char → Option Nat
  | 0, bytes, text =>
      if text.head?.any (isDigitOf 10) then lastPart 0 bytes (strtoul text).1 (strtoul text).2
      else none
  | left + 1, bytes, text =>
      if text.head?.any (isDigitOf 10) then
        match strtoul text with
        | (val, '.' :: rest) => if val ≤ 255 then inetAton left (256 * bytes + val) rest else none
        | (val, rest) => lastPart (left + 1) bytes val rest
      else none

/-- `INADDR_NONE` where the text is no address. -/
def inetAddr (text : List Char) : Nat :=
  (inetAton 3 0 (text.takeWhile (· ≠ '\x00'))).getD 0xffffffff

namespace InetAddr

/-- The four bytes in network order. -/
def ofWord (w : Nat) : UInt8 × UInt8 × UInt8 × UInt8 :=
  (UInt8.ofNat (w / 256 ^ 3), UInt8.ofNat (w / 256 ^ 2), UInt8.ofNat (w / 256), UInt8.ofNat w)

/-- `InetAddr(const std::string& ip, uint16_t port)` -/
def ofIpPort (ip : List Char) (port : UInt16) : InetAddr := ⟨ofWord (inetAddr ip), port⟩

def toIp (a : InetAddr) : List Char := if a.dotted.length < kBufSize then a.dotted else []

end InetAddr

/-! ## A decimal part -/

theorem digitValue_of_isDigit {c : Char} (h : c.isDigit = true) :
    digitValue c = c.toNat - '0'.toNat ∧ digitValue c < 10 := by
  obtain ⟨hlow, hhigh⟩ := Char.isDigit_iff_toNat.1 h
  have hle : '0' ≤ c ∧ c ≤ '9' := by
    rw [Char.le_def, Char.le_def, UInt32.le_iff_toNat_le, UInt32.le_iff_toNat_le]
    exact ⟨hlow, hhigh⟩
  have hvalue : digitValue c = c.toNat - '0'.toNat := if_pos hle
  have hnine : '9'.toNat = 57 := rfl
  have hzero : '0'.toNat = 48 := rfl
  exact ⟨hvalue, by omega⟩

theorem isDigit_of_mem_ofNat {n : Nat} {c : Char} (h : c ∈ Decimal.ofNat n) : c.isDigit = true :=
  Nat.isDigit_of_mem_toDigits (by decide) (by decide) h

theorem exists_cons_ofNat (n : Nat) : ∃ c text, Decimal.ofNat n = c :: text :=
  List.exists_cons_of_ne_nil Nat.toDigits_ne_nil

theorem head_ofNat {n : Nat} {c : Char} {text : List Char} (hn : 0 < n)
    (h : Decimal.ofNat n = c :: text) : c ≠ '0' := by
  induction n using Nat.strongRecOn generalizing c text with
  | ind n ih =>
      rcases Nat.lt_or_ge n 10 with hlt | hge
      · rw [Decimal.ofNat_of_lt hlt, List.cons.injEq] at h
        rw [← h.1]
        interval_cases n <;> decide
      · obtain ⟨c', text', htext⟩ := exists_cons_ofNat (n / 10)
        rw [Decimal.ofNat_of_le hge, htext, List.cons_append, List.cons.injEq] at h
        rw [← h.1]
        exact ih (n / 10) (by omega) (by omega) htext

def Stops (rest : List Char) : Prop := rest.head?.all (· = '.') = true

theorem Stops.not_digit {rest : List Char} (h : Stops rest) {c : Char} (hc : rest.head? = some c) :
    c = '.' := by
  rw [Stops, hc] at h
  simpa using h

theorem radix_ofNat {n : Nat} {rest : List Char} (hn : 0 < n) :
    radix (Decimal.ofNat n ++ rest) = (10, Decimal.ofNat n ++ rest) := by
  obtain ⟨c, text, htext⟩ := exists_cons_ofNat n
  have hc := head_ofNat hn htext
  rw [htext, List.cons_append]
  unfold radix
  split
  · rename_i heq
    exact absurd (List.cons.inj heq).1 hc
  · rename_i heq
    exact absurd (List.cons.inj heq).1 hc
  · rfl

theorem radix_zero {rest : List Char} (h : Stops rest) :
    radix (Decimal.ofNat 0 ++ rest) = (8, '0' :: rest) := by
  have hzero : Decimal.ofNat 0 = ['0'] := by decide
  rw [hzero, List.singleton_append]
  cases rest with
  | nil => rfl
  | cons c rest =>
      cases h.not_digit rfl
      rfl

theorem foldl_digitValue {text : List Char} (h : ∀ c ∈ text, c.isDigit = true) (acc : Nat) :
    text.foldl (fun acc c => 10 * acc + digitValue c) acc = Nat.ofDigitChars 10 text acc := by
  rw [Nat.ofDigitChars_eq_foldl]
  apply List.foldl_ext
  intro acc c hc
  rw [(digitValue_of_isDigit (h c hc)).1]

theorem span_stops {base : Nat} {text rest : List Char} (h : Stops rest) (hbase : base ≤ 16)
    (htext : ∀ c ∈ text, isDigitOf base c = true) :
    (text ++ rest).takeWhile (isDigitOf base) = text ∧
      (text ++ rest).dropWhile (isDigitOf base) = rest := by
  rw [List.takeWhile_append_of_pos htext, List.dropWhile_append_of_pos htext]
  cases rest with
  | nil => simp
  | cons c rest =>
      cases h.not_digit rfl
      have hdot : isDigitOf base '.' = false := by
        have hvalue : digitValue '.' = 16 := by decide
        rw [isDigitOf, hvalue, decide_eq_false_iff_not]
        omega
      simp [hdot]

theorem strtoul_ofNat (n : Nat) {rest : List Char} (h : Stops rest) :
    strtoul (Decimal.ofNat n ++ rest) = (n, rest) := by
  rcases Nat.eq_zero_or_pos n with rfl | hn
  · have hzero : isDigitOf 8 '0' = true := by decide
    have hspan := span_stops h (by decide) (List.forall_mem_singleton.2 hzero)
    rw [List.singleton_append] at hspan
    have hvalue : ['0'].foldl (fun acc c => 8 * acc + digitValue c) 0 = 0 := by decide
    unfold strtoul
    simp only [radix_zero h, hspan.1, hspan.2, hvalue]
  · have hdigits : ∀ c ∈ Decimal.ofNat n, isDigitOf 10 c = true := by
      intro c hc
      rw [isDigitOf, decide_eq_true_eq]
      exact (digitValue_of_isDigit (isDigit_of_mem_ofNat hc)).2
    have hspan := span_stops h (by decide) hdigits
    have hread : Nat.ofDigitChars 10 (Decimal.ofNat n) 0 = n := Nat.ofDigitChars_ten_toDigits
    unfold strtoul
    simp only [radix_ofNat hn, hspan.1, hspan.2]
    rw [foldl_digitValue fun c => isDigit_of_mem_ofNat, hread]

/-! ## Four parts -/

theorem head_isDigitOf (n : Nat) (rest : List Char) :
    (Decimal.ofNat n ++ rest).head?.any (isDigitOf 10) = true := by
  obtain ⟨c, text, htext⟩ := exists_cons_ofNat n
  have hc : c.isDigit = true := isDigit_of_mem_ofNat (by rw [htext]; exact List.mem_cons_self)
  rw [htext, List.cons_append, List.head?_cons, Option.any_some, isDigitOf, decide_eq_true_eq]
  exact (digitValue_of_isDigit hc).2

theorem inetAton_part {left bytes n : Nat} {rest : List Char} (hn : n ≤ 255) :
    inetAton (left + 1) bytes (Decimal.ofNat n ++ '.' :: rest) =
      inetAton left (256 * bytes + n) rest := by
  have hstops : Stops ('.' :: rest) := by simp [Stops]
  rw [inetAton, if_pos (head_isDigitOf n _), strtoul_ofNat n hstops]
  exact if_pos hn

theorem inetAton_last {bytes n : Nat} (hn : n ≤ 255) :
    inetAton 0 bytes (Decimal.ofNat n) = some (256 * bytes + n) := by
  have hhead := head_isDigitOf n []
  have hstops : Stops [] := rfl
  have hread := strtoul_ofNat n hstops
  rw [List.append_nil] at hhead hread
  rw [inetAton, if_pos hhead, hread, lastPart, if_pos ⟨rfl, by omega⟩]
  congr 1
  omega

namespace InetAddr

theorem inetAton_dotted (a : InetAddr) : inetAton 3 0 a.dotted =
    some (256 * (256 * (256 * a.ip.1.toNat + a.ip.2.1.toNat) + a.ip.2.2.1.toNat) +
      a.ip.2.2.2.toNat) := by
  have hbyte : ∀ b : UInt8, b.toNat ≤ 255 := by
    intro b
    have hlt := b.toNat_lt
    omega
  simp only [dotted, List.append_assoc, List.cons_append]
  rw [inetAton_part (hbyte _), inetAton_part (hbyte _), inetAton_part (hbyte _),
    inetAton_last (hbyte _), Nat.mul_zero, Nat.zero_add]

theorem mem_dotted {a : InetAddr} {c : Char} (h : c ∈ a.dotted) : c.isDigit = true ∨ c = '.' := by
  simp only [dotted, List.mem_append, List.mem_cons] at h
  rcases h with ((h | rfl | h) | rfl | h) | rfl | h
  all_goals first | exact .inr rfl | exact .inl (isDigit_of_mem_ofNat h)

theorem dotted_takeWhile {a : InetAddr} {c : Char} (hc : c.isDigit = false) (hdot : c ≠ '.')
    (rest : List Char) :
    (a.dotted ++ c :: rest).takeWhile (· ≠ c) = a.dotted ∧
      (a.dotted ++ c :: rest).dropWhile (· ≠ c) = c :: rest := by
  have hne : ∀ x ∈ a.dotted, decide (x ≠ c) = true := by
    intro x hx
    rw [decide_eq_true_eq]
    rintro rfl
    rcases mem_dotted hx with hdigit | rfl
    · rw [hc] at hdigit
      cases hdigit
    · exact hdot rfl
  rw [List.takeWhile_append_of_pos hne, List.dropWhile_append_of_pos hne]
  simp

theorem toIp_eq (a : InetAddr) : a.toIp = a.dotted := by
  have hlength := a.length_dotted
  have hsize : kBufSize = 64 := rfl
  exact if_pos (by omega)

theorem ofWord_ip (a : InetAddr) :
    ofWord (256 * (256 * (256 * a.ip.1.toNat + a.ip.2.1.toNat) + a.ip.2.2.1.toNat) +
      a.ip.2.2.2.toNat) = a.ip := by
  have h₁ := a.ip.1.toNat_lt
  have h₂ := a.ip.2.1.toNat_lt
  have h₃ := a.ip.2.2.1.toNat_lt
  have h₄ := a.ip.2.2.2.toNat_lt
  have hbyte : ∀ (b : UInt8) (w : Nat), w % 256 = b.toNat → UInt8.ofNat w = b := by
    intro b w h
    rw [← UInt8.toNat_inj, UInt8.toNat_ofNat', h]
  refine Prod.ext (hbyte _ _ ?_) (Prod.ext (hbyte _ _ ?_) (Prod.ext (hbyte _ _ ?_) (hbyte _ _ ?_)))
  all_goals omega

theorem ofIpPort_toIp (a : InetAddr) : ofIpPort a.toIp a.port = a := by
  have hcut : a.dotted.takeWhile (· ≠ '\x00') = a.dotted := by
    rw [List.takeWhile_eq_self_iff]
    intro c hc
    rw [decide_eq_true_eq]
    rintro rfl
    rcases mem_dotted hc with h | h
    · exact absurd h (by decide)
    · exact absurd h (by decide)
  rw [ofIpPort, inetAddr, toIp_eq, hcut, inetAton_dotted, Option.getD_some, ofWord_ip]

theorem toIpPort_some (a : InetAddr) :
    a.toIpPort = some (a.dotted ++ ':' :: Decimal.ofNat a.port.toNat) := by
  have hlength := a.length_dotted
  have hsize : kBufSize = 64 := rfl
  obtain ⟨text, htext, -⟩ := a.toIpPort_eq
  unfold toIpPort at htext ⊢
  dsimp only at htext ⊢
  rw [if_pos (by omega : a.dotted.length < kBufSize)] at htext ⊢
  split at htext
  · rename_i hfits
    exact if_pos hfits
  · cases htext

/-- The text of an address and the address stand for each other: the constructor reads what
`ToIp` writes, and no two addresses have the same `ToIpPort`. -/
theorem address_read_back :
    (∀ a : InetAddr, ofIpPort a.toIp a.port = a) ∧ Function.Injective toIpPort := by
  refine ⟨ofIpPort_toIp, ?_⟩
  intro a b h
  have hcolon : (':').isDigit = false ∧ ':' ≠ '.' := by decide
  rw [a.toIpPort_some, b.toIpPort_some, Option.some.injEq] at h
  have hip : a.dotted = b.dotted := by
    rw [← (dotted_takeWhile hcolon.1 hcolon.2 _).1, h, (dotted_takeWhile hcolon.1 hcolon.2 _).1]
  rw [hip, List.append_cancel_left_eq, List.cons.injEq] at h
  have hport : a.port = b.port := UInt16.toNat_inj.1 (Decimal.ofNat_injective h.2)
  rw [← ofIpPort_toIp a, ← ofIpPort_toIp b, toIp_eq, toIp_eq, hip, hport]

end InetAddr

end MyNetLib
