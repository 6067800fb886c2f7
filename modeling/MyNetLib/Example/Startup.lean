import MyNetLib.Config.RoundTrip
import MyNetLib.Logging.LogStream
import MyNetLib.Server.Names

/-! # From the configuration to the server (`example/echo_server.cc`)

`main` takes the port, the name and the number of threads out of `server.conf`. A file
that could not be opened, or a key that is missing, leaves empty texts behind.
-/

namespace MyNetLib

open Library

/-- The characters `isspace` takes. -/
def isSpace (b : Byte) : Bool := b = 32 || (9 ≤ b && b ≤ 13)

/-- The value of a text of digits. -/
def digitsValue (text : List Byte) : Nat := text.foldl (fun acc b => 10 * acc + (b.toNat - 48)) 0

/-- The sign in front of a number, if there is one, and what follows. -/
def takeSign : List Byte → Bool × List Byte
  | 45 :: rest => (true, rest)
  | 43 :: rest => (false, rest)
  | rest => (false, rest)

/-- `atoi`; none where the value is no `int`, and the result not defined. -/
def atoi (text : List Byte) : Option Int :=
  let signed := takeSign (text.dropWhile isSpace)
  let n : Int := digitsValue (signed.2.takeWhile Config.isDigit)
  let value := if signed.1 then -n else n
  if -2 ^ 31 ≤ value ∧ value < 2 ^ 31 then some value else none

namespace InetAddr

/-- `InetAddr(uint16_t port)`, with `INADDR_ANY`. -/
def ofPort (port : UInt16) : InetAddr := ⟨(0, 0, 0, 0), port⟩

end InetAddr

namespace Startup

/-- What the constructor of `EchoServer` is called with. -/
structure Arguments where
  addr : InetAddr
  name : List Byte
  threadNum : Int
  deriving DecidableEq, Repr

def portKey : List Byte := Decimal.ascii "server_listen_port".toList
def nameKey : List Byte := Decimal.ascii "server_name".toList
def threadNumKey : List Byte := Decimal.ascii "server_thread_num".toList

/-- `config.mp[key]` -/
def lookup (c : Config) (key : List Byte) : List Byte := (c.mp key).getD []

/-- `main` up to the construction of the server; an `int` becomes a `uint16_t` modulo `2 ^ 16`. -/
def main (file : Option (List Byte)) : Option Arguments :=
  let config := (Config.new.pullConfig file).2
  (atoi (cString (lookup config portKey))).bind fun port =>
    (atoi (cString (lookup config threadNumKey))).map fun threadNum =>
      { addr := .ofPort (UInt16.ofInt port)
        name := lookup config nameKey
        threadNum := threadNum }

/-! ## `atoi` reads what was written -/

/-- Behind the digits the text ends, or something else than a digit follows. -/
def Ends (rest : List Byte) : Prop := rest.head?.all (fun b => !Config.isDigit b) = true

instance (rest : List Byte) : Decidable (Ends rest) :=
  inferInstanceAs (Decidable (rest.head?.all (fun b => !Config.isDigit b) = true))

theorem byte_of_digit {c : Char} (h : c.isDigit = true) :
    c.toNat.toUInt8.toNat = c.toNat ∧ 48 ≤ c.toNat ∧ c.toNat ≤ 57 := by
  obtain ⟨hlow, hhigh⟩ := Char.isDigit_iff_toNat.1 h
  have hlow' : 48 ≤ c.toNat := hlow
  have hhigh' : c.toNat ≤ 57 := hhigh
  refine ⟨UInt8.toNat_ofNat_of_lt' ?_, hlow', hhigh'⟩
  have hsize : UInt8.size = 256 := rfl
  omega

theorem isDigit_ascii {n : Nat} {b : Byte} (h : b ∈ Decimal.ascii (Decimal.ofNat n)) :
    48 ≤ b.toNat ∧ b.toNat ≤ 57 := by
  obtain ⟨c, hc, rfl⟩ := List.mem_map.1 h
  have hdigit := byte_of_digit (Nat.isDigit_of_mem_toDigits (by decide) (by decide) hc)
  rw [hdigit.1]
  exact hdigit.2

theorem foldl_ascii (text : List Char) (h : ∀ c ∈ text, c.isDigit = true) (acc : Nat) :
    (Decimal.ascii text).foldl (fun acc b => 10 * acc + (b.toNat - 48)) acc =
      Nat.ofDigitChars 10 text acc := by
  rw [Decimal.ascii, List.foldl_map, Nat.ofDigitChars_eq_foldl]
  apply List.foldl_ext
  intro acc c hc
  rw [(byte_of_digit (h c hc)).1]
  rfl

theorem digitsValue_ascii (n : Nat) : digitsValue (Decimal.ascii (Decimal.ofNat n)) = n := by
  have hdigits : ∀ c ∈ Decimal.ofNat n, c.isDigit = true :=
    fun c => Nat.isDigit_of_mem_toDigits (by decide) (by decide)
  rw [digitsValue, foldl_ascii _ hdigits]
  exact Nat.ofDigitChars_toDigits (by decide) (by decide)

theorem takeWhile_ascii (n : Nat) {rest : List Byte} (hrest : Ends rest) :
    (Decimal.ascii (Decimal.ofNat n) ++ rest).takeWhile Config.isDigit =
      Decimal.ascii (Decimal.ofNat n) := by
  have hdigits : ∀ b ∈ Decimal.ascii (Decimal.ofNat n), Config.isDigit b = true := by
    intro b hb
    obtain ⟨hlow, hhigh⟩ := isDigit_ascii hb
    simp only [Config.isDigit, Bool.and_eq_true, decide_eq_true_eq, UInt8.le_iff_toNat_le]
    exact ⟨hlow, hhigh⟩
  rw [List.takeWhile_append_of_pos hdigits]
  cases rest with
  | nil => simp
  | cons b rest =>
      have hb : Config.isDigit b = false := by simpa [Ends] using hrest
      simp [hb]

theorem takeSign_digit {b : Byte} (rest : List Byte) (h : 48 ≤ b.toNat ∧ b.toNat ≤ 57) :
    takeSign ((b :: rest).dropWhile isSpace) = (false, b :: rest) := by
  have hspace : isSpace b = false := by
    simp only [isSpace, Bool.or_eq_false_iff, Bool.and_eq_false_iff, decide_eq_false_iff_not,
      UInt8.le_iff_toNat_le, ← UInt8.toNat_inj]
    exact ⟨fun heq => by have : b.toNat = 32 := heq; omega,
      .inr fun hle => by have : b.toNat ≤ 13 := hle; omega⟩
  rw [List.dropWhile_cons_of_neg (by rw [hspace]; decide)]
  unfold takeSign
  split
  · rename_i heq
    have hb : b = 45 := (List.cons.inj heq).1
    rw [hb] at h
    exact absurd h.1 (by decide)
  · rename_i heq
    have hb : b = 43 := (List.cons.inj heq).1
    rw [hb] at h
    exact absurd h.1 (by decide)
  · rfl

theorem atoi_ascii {n : Nat} {rest : List Byte} (hn : n < 2 ^ 31) (hrest : Ends rest) :
    atoi (Decimal.ascii (Decimal.ofNat n) ++ rest) = some (n : Int) := by
  have htake := takeWhile_ascii n hrest
  obtain ⟨b, digits, hdigits⟩ : ∃ b digits, Decimal.ascii (Decimal.ofNat n) = b :: digits := by
    apply List.exists_cons_of_ne_nil
    rw [Decimal.ascii, Ne, List.map_eq_nil_iff]
    exact Nat.toDigits_ne_nil
  have hb : 48 ≤ b.toNat ∧ b.toNat ≤ 57 :=
    isDigit_ascii (by rw [hdigits]; exact List.mem_cons_self)
  have hsign : takeSign ((Decimal.ascii (Decimal.ofNat n) ++ rest).dropWhile isSpace) =
      (false, Decimal.ascii (Decimal.ofNat n) ++ rest) := by
    rw [hdigits]
    exact takeSign_digit _ hb
  unfold atoi
  simp only [hsign, htake, digitsValue_ascii, Bool.false_eq_true, if_false]
  rw [if_pos (by omega)]

/-! ## What the file says -/

/-- The text of a key: the value of its last entry, and nothing without one. -/
inductive Says (lines : List Config.Line) (key : List Byte) : List Byte → Prop where
  | last (before : List Config.Line) (e : Config.Entry) (after : List Config.Line) :
      lines = before ++ .entry e :: after → e.key = key →
      (∀ e', .entry e' ∈ after → e'.key ≠ key) → Says lines key e.value
  | missing : (∀ e, .entry e ∈ lines → e.key ≠ key) → Says lines key []

inductive Reads : List Byte → Nat → Prop where
  | digits (n : Nat) (rest : List Byte) :
      Ends rest → Reads (Decimal.ascii (Decimal.ofNat n) ++ rest) n
  | nothing : Reads [] 0

theorem lookup_says {lines : List Config.Line} {key text : List Byte} (h : Says lines key text) :
    lookup (Config.new.pullConfig (some (Config.render lines))).2 key = text := by
  cases h with
  | last before e after hlines hkey hafter =>
      subst hkey
      rw [lookup, Config.pullConfig_assigns, hlines, Config.tableOf_last hafter]
      rfl
  | missing hkey =>
      rw [lookup, Config.pullConfig_assigns, tableOf_eq_none, Option.none_or]
      · rfl
      · intro l hl value
        apply Config.Line.assigns_ne
        rintro e rfl
        exact hkey e hl

/-- The zero a C string ends with is no digit either. -/
theorem Ends.cString {rest : List Byte} (h : Ends rest) : Ends (cString rest) := by
  cases rest with
  | nil => exact h
  | cons b rest =>
      rw [MyNetLib.cString, List.takeWhile_cons]
      split
      · exact h
      · rfl

theorem atoi_reads {text : List Byte} {n : Nat} (h : Reads text n) (hn : n < 2 ^ 31) :
    atoi (cString text) = some (n : Int) := by
  cases h with
  | digits n rest hrest =>
      have hdigits : ∀ b ∈ Decimal.ascii (Decimal.ofNat n), decide (b ≠ 0) = true := by
        intro b hb
        rw [decide_eq_true_eq]
        rintro rfl
        exact absurd (isDigit_ascii hb).1 (by decide)
      rw [cString, List.takeWhile_append_of_pos hdigits]
      exact atoi_ascii hn hrest.cString
  | nothing => rfl

theorem port_ofPort (port : Nat) :
    (InetAddr.ofPort (UInt16.ofInt port)).port.toNat = port % 2 ^ 16 := by
  rw [InetAddr.ofPort, UInt16.ofInt, UInt16.toNat_ofNat']
  omega

theorem toIpPort_ofPort {port : Nat} (h : port < 2 ^ 16) :
    (InetAddr.ofPort (UInt16.ofInt port)).toIpPort =
      some ("0.0.0.0:".toList ++ Decimal.ofNat port) := by
  have hport : (InetAddr.ofPort (UInt16.ofInt port)).port.toNat = port := by
    rw [port_ofPort, Nat.mod_eq_of_lt h]
  have hdigits : (Decimal.ofNat port).length ≤ 5 := Decimal.length_ofNat (by decide) (by omega)
  have hsize : InetAddr.kBufSize = 64 := rfl
  have hany : (⟨(0, 0, 0, 0), 0⟩ : InetAddr).dotted = "0.0.0.0".toList := by decide
  have hdotted : (InetAddr.ofPort (UInt16.ofInt port)).dotted = "0.0.0.0".toList := hany
  have hfits : "0.0.0.0".toList.length < InetAddr.kBufSize := by decide
  have htext : "0.0.0.0".toList ++ ':' :: Decimal.ofNat port =
      "0.0.0.0:".toList ++ Decimal.ofNat port := rfl
  unfold InetAddr.toIpPort
  dsimp only
  rw [hdotted, hport, if_pos hfits, htext, if_pos]
  rw [List.length_append, hsize]
  have hprefix : "0.0.0.0:".toList.length = 8 := rfl
  omega

/-- The server is started with what the last entry of each key says, whatever else the
file holds: the address is that of the port where it is one, and the port modulo `2 ^ 16`
otherwise. -/
theorem started_as_configured {lines : List Config.Line} {portText name threadText : List Byte}
    {port threadNum : Nat} (hport : Says lines portKey portText) (hname : Says lines nameKey name)
    (hthread : Says lines threadNumKey threadText) (hportReads : Reads portText port)
    (hthreadReads : Reads threadText threadNum) (hportInt : port < 2 ^ 31)
    (hthreadInt : threadNum < 2 ^ 31) :
    ∃ args, main (some (Config.render lines)) = some args ∧ args.name = name ∧
      args.threadNum = threadNum ∧ args.addr.port.toNat = port % 2 ^ 16 ∧
      (port < 2 ^ 16 → args.addr.toIpPort = some ("0.0.0.0:".toList ++ Decimal.ofNat port)) := by
  refine ⟨⟨.ofPort (UInt16.ofInt port), name, threadNum⟩, ?_, rfl, rfl, ?_, toIpPort_ofPort⟩
  · rw [main, lookup_says hport, lookup_says hname, lookup_says hthread,
      atoi_reads hportReads hportInt, atoi_reads hthreadReads hthreadInt]
    rfl
  · exact port_ofPort port

/-- `server_listen_port=10001` -/
def portEntry : Config.Entry :=
  ⟨portKey, [61], Decimal.ascii (Decimal.ofNat 10001) ++ [], by decide +kernel, by decide +kernel,
    by decide +kernel, by decide +kernel, by decide +kernel⟩

/-- `server_thread_num = 3 loops` -/
def threadNumEntry : Config.Entry :=
  ⟨threadNumKey, [32, 61, 32], Decimal.ascii (Decimal.ofNat 3) ++ Decimal.ascii " loops".toList,
    by decide +kernel, by decide +kernel, by decide +kernel, by decide +kernel, by decide +kernel⟩

theorem started_as_configured_nameless :
    ∃ args, main (some (Config.render [.entry threadNumEntry, .entry portEntry])) = some args ∧
      args.name = [] ∧ args.threadNum = (3 : Nat) ∧ args.addr.port.toNat = 10001 % 2 ^ 16 ∧
      (10001 < 2 ^ 16 → args.addr.toIpPort = some ("0.0.0.0:".toList ++ Decimal.ofNat 10001)) := by
  have hkeys : portKey ≠ threadNumKey ∧ threadNumKey ≠ nameKey ∧ portKey ≠ nameKey := by
    decide +kernel
  have hport : Says [.entry threadNumEntry, .entry portEntry] portKey portEntry.value :=
    .last [.entry threadNumEntry] portEntry [] rfl rfl (by simp)
  have hthread : Says [.entry threadNumEntry, .entry portEntry] threadNumKey threadNumEntry.value :=
    .last [] threadNumEntry [.entry portEntry] rfl rfl (by
      intro e he
      cases List.mem_singleton.1 he
      exact hkeys.1)
  have hname : Says [.entry threadNumEntry, .entry portEntry] nameKey [] := by
    apply Says.missing
    simp only [List.mem_cons, List.not_mem_nil, Config.Line.entry.injEq, or_false]
    rintro e (rfl | rfl)
    · exact hkeys.2.1
    · exact hkeys.2.2
  exact started_as_configured hport hname hthread (.digits 10001 [] (by decide))
    (.digits 3 _ (by decide +kernel)) (by decide) (by decide)

end Startup

end MyNetLib
