import MyNetLib.Library.Decimal
import MyNetLib.Server.TcpServer

/-! # Connection names (`src/tcp_server.cc`, `src/inet_addr.cc`)

`connection_maps` is keyed by names, written into arrays of 64 bytes. The
texts are lists of characters; a connection is the place its `new` has in the
order of acceptance, and carries the name it was given. `none` is a write past
the end of an array, or a pointer nobody can have.
-/

namespace MyNetLib

open Library

/-! ## Formatting -/

/-- The text `snprintf` leaves in an array, in front of the terminating zero. -/
def snprintf (size : Nat) (text : List Char) : List Char := text.take (size - 1)

/-- `sin_addr` in network order, and the port. -/
structure InetAddr where
  ip : UInt8 × UInt8 × UInt8 × UInt8
  port : UInt16
  deriving DecidableEq, Repr

namespace InetAddr

def dotted (a : InetAddr) : List Char :=
  Decimal.ofNat a.ip.1.toNat ++ '.' :: Decimal.ofNat a.ip.2.1.toNat ++ '.' ::
    Decimal.ofNat a.ip.2.2.1.toNat ++ '.' :: Decimal.ofNat a.ip.2.2.2.toNat

/-- `sizeof buf` in `ToIpPort`. -/
def kBufSize : Nat := 64

/-- `ToIpPort`: `inet_ntop` leaves the zeroed array alone when the text does not
fit, `sprintf` does not look at the size. -/
def toIpPort (a : InetAddr) : Option (List Char) :=
  let ip := if a.dotted.length < kBufSize then a.dotted else []
  let text := ip ++ ':' :: Decimal.ofNat a.port.toNat
  if text.length < kBufSize then some text else none

end InetAddr

/-! ## The server's table -/

/-- The members of `TcpServer` the names come from, and the names of the
connections made so far. -/
structure NameTable where
  name : List Char
  ipPort : List Char
  nextConnId : Int32
  conns : List (List Char)
  connectionMaps : List Char → Option Nat

namespace NameTable

/-- `sizeof buf` in `NewConnection`. -/
def kBufSize : Nat := 64

/-- The constructor of `TcpServer`. -/
def new (name : List Char) (listenAddr : InetAddr) : Option NameTable :=
  listenAddr.toIpPort.map fun ipPort => ⟨name, ipPort, 1, [], fun _ => none⟩

/-- `"-%s#%d"` -/
def suffix (s : NameTable) : List Char := '-' :: s.ipPort ++ '#' :: Decimal.ofInt s.nextConnId.toInt

def connName (s : NameTable) : List Char := s.name ++ snprintf kBufSize s.suffix

def newConnection (s : NameTable) : NameTable :=
  { s with
    nextConnId := s.nextConnId + 1
    conns := s.conns ++ [s.connName]
    connectionMaps := Function.update s.connectionMaps s.connName (some s.conns.length) }

def removeconnectionInLoop (s : NameTable) (c : Nat) : Option NameTable :=
  s.conns[c]?.map fun name =>
    { s with connectionMaps := Function.update s.connectionMaps name none }

inductive Action where
  | newConnection
  | removeconnectionInLoop (c : Nat)
  deriving DecidableEq, Repr

def step (s : NameTable) : Action → Option NameTable
  | .newConnection => some s.newConnection
  | .removeconnectionInLoop c => s.removeconnectionInLoop c

def machine (name : List Char) (listenAddr : InetAddr) : Machine NameTable Action where
  start s := new name listenAddr = some s
  step := step

/-- Fewer than `2 ^ 31 - 1` calls of `NewConnection`, this one included. -/
def FewCalls (s : NameTable) : Action → Prop
  | .newConnection => s.conns.length + 1 < 2 ^ 31 - 1
  | .removeconnectionInLoop _ => True

instance (s : NameTable) (a : Action) : Decidable (FewCalls s a) :=
  match a with
  | .newConnection => inferInstanceAs (Decidable (s.conns.length + 1 < 2 ^ 31 - 1))
  | .removeconnectionInLoop _ => inferInstanceAs (Decidable True)

end NameTable

/-! ## Lengths -/

theorem InetAddr.length_dotted (a : InetAddr) : a.dotted.length ≤ 15 := by
  have hbyte : ∀ b : UInt8, (Decimal.ofNat b.toNat).length ≤ 3 := by
    intro b
    have hlt := b.toNat_lt
    exact Decimal.length_ofNat (by decide) (by omega)
  have h₁ := hbyte a.ip.1
  have h₂ := hbyte a.ip.2.1
  have h₃ := hbyte a.ip.2.2.1
  have h₄ := hbyte a.ip.2.2.2
  simp only [dotted, List.length_append, List.length_cons]
  omega

/-- Both texts fit, whatever the address: at most 21 characters. -/
theorem InetAddr.toIpPort_eq (a : InetAddr) :
    ∃ text, a.toIpPort = some text ∧ text.length ≤ 21 := by
  have hip := a.length_dotted
  have hport : (Decimal.ofNat a.port.toNat).length ≤ 5 := by
    have hlt := a.port.toNat_lt
    exact Decimal.length_ofNat (by decide) (by omega)
  have hlength : (a.dotted ++ ':' :: Decimal.ofNat a.port.toNat).length ≤ 21 := by
    rw [List.length_append, List.length_cons]
    omega
  have hsize : kBufSize = 64 := rfl
  refine ⟨a.dotted ++ ':' :: Decimal.ofNat a.port.toNat, ?_, hlength⟩
  have hfits : a.dotted.length < kBufSize := by omega
  unfold toIpPort
  dsimp only
  rw [if_pos hfits, if_pos (by omega)]

namespace NameTable

/-! ## The invariant -/

/-- The name of the connection with this place in the order of acceptance. -/
def numbered (s : NameTable) (c : Nat) : List Char :=
  s.name ++ ('-' :: s.ipPort ++ '#' :: Decimal.ofNat (c + 1))

theorem numbered_injective (s : NameTable) : Function.Injective s.numbered := by
  intro c d h
  have htail := List.append_cancel_left h
  rw [List.cons_append, List.cons_append, List.cons.injEq] at htail
  have hdigits := List.append_cancel_left htail.2
  rw [List.cons.injEq] at hdigits
  have hnumber := Decimal.ofNat_injective hdigits.2
  omega

/-- The counter tells how many names there are, and a name its connection. -/
structure Counted (s : NameTable) : Prop where
  short : s.ipPort.length ≤ 21
  counter : s.nextConnId.toInt = s.conns.length + 1
  few : s.conns.length < 2 ^ 31 - 1
  named : ∀ c key, s.conns[c]? = some key → key = s.numbered c
  mapped : ∀ key c, s.connectionMaps key = some c → s.conns[c]? = some key

variable {s s' : NameTable}

/-- Sign, address, sign, counter: at most 33 characters, so the array holds them. -/
theorem Counted.suffix_length (h : Counted s) : s.suffix.length ≤ 33 := by
  have hshort := h.short
  have hcounter := h.counter
  have hdigits : (Decimal.ofInt s.nextConnId.toInt).length ≤ 10 := by
    rw [Decimal.ofInt_of_nonneg (by omega)]
    apply Decimal.length_ofNat (by decide)
    have hlt := s.nextConnId.toInt_lt
    omega
  simp only [suffix, List.length_append, List.length_cons]
  omega

theorem Counted.connName_eq (h : Counted s) : s.connName = s.numbered s.conns.length := by
  have hlength := h.suffix_length
  have hcounter := h.counter
  have hsize : kBufSize = 64 := rfl
  have hnumber : s.nextConnId.toInt.toNat = s.conns.length + 1 := by omega
  have hwhole : snprintf kBufSize s.suffix = s.suffix := List.take_of_length_le (by omega)
  rw [connName, hwhole, suffix, Decimal.ofInt_of_nonneg (by omega), hnumber, numbered]

theorem Counted.connName_unmapped (h : Counted s) : s.connectionMaps s.connName = none := by
  cases hmap : s.connectionMaps s.connName with
  | none => rfl
  | some c =>
      have hget := h.mapped _ _ hmap
      have hname := h.named c _ hget
      rw [h.connName_eq] at hname
      have hlast : s.conns.length = c := s.numbered_injective hname
      have hlt := (List.getElem?_eq_some_iff.1 hget).1
      omega

theorem Counted.new {name : List Char} {listenAddr : InetAddr}
    (h : NameTable.new name listenAddr = some s) : Counted s := by
  obtain ⟨text, htext, hlength⟩ := listenAddr.toIpPort_eq
  rw [NameTable.new, htext, Option.map_some, Option.some.injEq] at h
  subst h
  constructor
  · exact hlength
  · rfl
  · exact show 0 < 2 ^ 31 - 1 by decide
  · intro c key hget
    simp at hget
  · intro key c hmap
    cases hmap

theorem newConnection_conns {c : Nat} {key : List Char} :
    s.newConnection.conns[c]? = some key ↔
      s.conns[c]? = some key ∨ c = s.conns.length ∧ key = s.connName := by
  show (s.conns ++ [s.connName])[c]? = some key ↔ _
  rw [List.getElem?_append]
  split
  · rename_i hlt
    have hne : c ≠ s.conns.length := by omega
    simp [hne]
  · rename_i hge
    have hnone : s.conns[c]? = none := List.getElem?_eq_none (by omega)
    rw [hnone, List.getElem?_singleton]
    by_cases heq : c = s.conns.length
    · simp [heq, eq_comm]
    · have hpos : c - s.conns.length ≠ 0 := by omega
      simp [heq, hpos]

theorem Counted.newConnection (h : Counted s) (hfew : s.conns.length + 1 < 2 ^ 31 - 1) :
    Counted s.newConnection := by
  have hcounter := h.counter
  have hnext : (s.nextConnId + 1).toInt = s.nextConnId.toInt + 1 := by
    rw [Int32.toInt_add]
    have hone : (1 : Int32).toInt = 1 := rfl
    rw [hone, Int.bmod_eq_of_le (by omega) (by omega)]
  constructor
  · exact h.short
  · show (s.nextConnId + 1).toInt = ((s.conns ++ [s.connName]).length : Int) + 1
    rw [hnext, hcounter, List.length_append, List.length_singleton]
    omega
  · show (s.conns ++ [s.connName]).length < 2 ^ 31 - 1
    rw [List.length_append, List.length_singleton]
    exact hfew
  · intro c key hget
    show key = s.numbered c
    rcases newConnection_conns.1 hget with hold | ⟨rfl, rfl⟩
    · exact h.named c key hold
    · exact h.connName_eq
  · intro key c hmap
    have hmap' : Function.update s.connectionMaps s.connName (some s.conns.length) key = some c :=
      hmap
    rw [newConnection_conns]
    rw [Function.update_apply] at hmap'
    split at hmap'
    · rename_i hkey
      cases hmap'
      exact Or.inr ⟨rfl, hkey⟩
    · exact Or.inl (h.mapped key c hmap')

theorem Counted.removeconnectionInLoop (h : Counted s) {c : Nat}
    (hs : s.removeconnectionInLoop c = some s') : Counted s' := by
  obtain ⟨name, -, rfl⟩ := Option.map_eq_some_iff.1 hs
  refine ⟨h.short, h.counter, h.few, h.named, fun key d hmap => ?_⟩
  have hmap' : Function.update s.connectionMaps name none key = some d := hmap
  rw [Function.update_apply] at hmap'
  split at hmap'
  · cases hmap'
  · exact h.mapped key d hmap'

theorem Counted.erase_own (h : Counted s) {c d : Nat} {key : List Char}
    (hs : s.removeconnectionInLoop c = some s') (hne : d ≠ c)
    (hmap : s.connectionMaps key = some d) : s'.connectionMaps key = some d := by
  obtain ⟨name, hname, rfl⟩ := Option.map_eq_some_iff.1 hs
  have hkey : key ≠ name := by
    rintro rfl
    have hc := h.named c key hname
    rw [h.named d key (h.mapped key d hmap)] at hc
    exact hne (s.numbered_injective hc)
  show Function.update s.connectionMaps name none key = some d
  rw [Function.update_of_ne hkey]
  exact hmap

theorem Counted.of_reach {name : List Char} {listenAddr : InetAddr}
    (h : (machine name listenAddr).Reach FewCalls s) : Counted s := by
  apply h.invariant
  · intro s hs
    exact Counted.new hs
  · intro s a s' hI hg hs
    cases a with
    | newConnection =>
        cases hs
        exact hI.newConnection hg
    | removeconnectionInLoop c => exact hI.removeconnectionInLoop hs

/-! ## The server's list of numbers -/

/-- The server model keeps the places of the connections in the map instead of their names. -/
structure Agrees {τ : Type} (t : NameTable) (s : TcpServer τ) : Prop where
  length : t.conns.length = s.conns.length
  maps : ∀ c, c ∈ s.connectionMaps ↔ ∃ key, t.connectionMaps key = some c

section Agreement

variable {τ : Type} {t : NameTable} {s : TcpServer τ}

theorem newConnection_frame (s : TcpServer τ) (tcp : TcpConnection) :
    (s.newConnection tcp).conns.length = s.conns.length + 1 ∧
      (s.newConnection tcp).connectionMaps = s.connectionMaps ++ [s.conns.length] := by
  unfold TcpServer.newConnection
  dsimp only
  split
  · simp [TcpServer.connectionEstablished, TcpServer.push, TcpServer.setLoop, TcpServer.update,
      TcpServer.setConn]
  · simp [TcpServer.queueInLoop, TcpServer.setLoop]

theorem Agrees.newConnection (h : Agrees t s) (hI : Counted t) (tcp : TcpConnection) :
    Agrees t.newConnection (s.newConnection tcp) := by
  obtain ⟨hlength, hmaps⟩ := newConnection_frame s tcp
  constructor
  · rw [hlength, ← h.length]
    show (t.conns ++ [t.connName]).length = _
    rw [List.length_append, List.length_singleton]
  · intro c
    rw [hmaps, List.mem_append, List.mem_singleton, h.maps, ← h.length]
    show _ ↔ ∃ key, Function.update t.connectionMaps t.connName (some t.conns.length) key = some c
    constructor
    · rintro (⟨key, hkey⟩ | rfl)
      · refine ⟨key, ?_⟩
        rw [Function.update_of_ne]
        · exact hkey
        · rintro rfl
          rw [hI.connName_unmapped] at hkey
          cases hkey
      · exact ⟨t.connName, Function.update_self _ _ _⟩
    · rintro ⟨key, hkey⟩
      rw [Function.update_apply] at hkey
      split at hkey
      · cases hkey
        exact Or.inr rfl
      · exact Or.inl ⟨key, hkey⟩

theorem Agrees.removeconnectionInLoop (h : Agrees t s) (hI : Counted t) {c : Nat}
    {x : TcpServer.Conn} (hx : s.conns[c]? = some x) :
    ∃ t', t.removeconnectionInLoop c = some t' ∧ Agrees t' (s.removeConnectionInLoop c x) := by
  have hlt : c < t.conns.length := by
    rw [h.length]
    exact (List.getElem?_eq_some_iff.1 hx).1
  have hname : t.conns[c]? = some t.conns[c] := List.getElem?_eq_getElem hlt
  have hframe : (s.removeConnectionInLoop c x).conns.length = s.conns.length ∧
      (s.removeConnectionInLoop c x).connectionMaps = s.connectionMaps.filter (· ≠ c) := by
    simp [TcpServer.removeConnectionInLoop, TcpServer.queueInLoop, TcpServer.setLoop,
      TcpServer.setConn]
  have hremove : t.removeconnectionInLoop c = some
      { t with connectionMaps := Function.update t.connectionMaps t.conns[c] none } := by
    rw [NameTable.removeconnectionInLoop, hname, Option.map_some]
  refine ⟨_, hremove, h.length.trans hframe.1.symm, fun d => ?_⟩
  rw [hframe.2, List.mem_filter, h.maps, decide_eq_true_eq]
  constructor
  · rintro ⟨⟨key, hkey⟩, hne⟩
    exact ⟨key, hI.erase_own hremove hne hkey⟩
  · rintro ⟨key, hkey⟩
    have hkey' : Function.update t.connectionMaps t.conns[c] none key = some d := hkey
    rw [Function.update_apply] at hkey'
    split at hkey'
    · cases hkey'
    · rename_i hother
      refine ⟨⟨key, hkey'⟩, ?_⟩
      rintro rfl
      have hget := hI.mapped key d hkey'
      rw [hname, Option.some.injEq] at hget
      exact hother hget.symm

end Agreement

/-! ## Names are keys -/

/-- No name is cut, no two connections share one, the next connection overwrites
no entry, and removing a connection takes no other's entry. -/
structure UniqueKeys (s : NameTable) : Prop where
  fits : s.suffix.length < kBufSize
  whole : s.connName = s.name ++ s.suffix
  distinct : ∀ (c d : Nat) (key : List Char),
    s.conns[c]? = some key → s.conns[d]? = some key → c = d
  unmapped : s.connectionMaps s.connName = none
  own : ∀ (c : Nat) (s' : NameTable), s.removeconnectionInLoop c = some s' →
    ∀ (key : List Char) (d : Nat), d ≠ c →
      s.connectionMaps key = some d → s'.connectionMaps key = some d

/-- For every server name and listening address the constructor succeeds, and
after every sequence of fewer than `2 ^ 31 - 1` calls of `NewConnection`, with
any calls of `RemoveconnectionInLoop` between them, names are unique keys. -/
theorem connection_names_unique (name : List Char) (listenAddr : InetAddr) :
    (∃ s, new name listenAddr = some s) ∧
      ∀ s, (machine name listenAddr).Reach FewCalls s → UniqueKeys s := by
  constructor
  · obtain ⟨text, htext, -⟩ := listenAddr.toIpPort_eq
    exact ⟨_, by rw [new, htext, Option.map_some]⟩
  · intro s h
    have hI := Counted.of_reach h
    have hlength := hI.suffix_length
    have hsize : kBufSize = 64 := rfl
    have hwhole : snprintf kBufSize s.suffix = s.suffix := List.take_of_length_le (by omega)
    constructor
    · omega
    · rw [connName, hwhole]
    · intro c d key hc hd
      have hname := hI.named c key hc
      rw [hI.named d key hd] at hname
      exact (s.numbered_injective hname).symm
    · exact hI.connName_unmapped
    · intro c s' hs key d hne hmap
      exact hI.erase_own hs hne hmap

/-- Three connections of a server on 127.0.0.1:8000, the first removed twice. -/
theorem connection_names_unique_three :
    ∃ s : NameTable, UniqueKeys s ∧ s.conns.length = 3 ∧
      s.connectionMaps "web-127.0.0.1:8000#2".toList = some 1 := by
  obtain ⟨s₀, hs₀⟩ : ∃ s, new "web".toList ⟨(127, 0, 0, 1), 8000⟩ = some s := ⟨_, rfl⟩
  have hstart : (machine "web".toList ⟨(127, 0, 0, 1), 8000⟩).Reach FewCalls s₀ := .start hs₀
  have hrun : ((machine "web".toList ⟨(127, 0, 0, 1), 8000⟩).runGuarded FewCalls s₀
      [.newConnection, .newConnection, .removeconnectionInLoop 0, .removeconnectionInLoop 0,
        .newConnection]).any (fun s => decide (s.conns.length = 3 ∧
          s.connectionMaps "web-127.0.0.1:8000#2".toList = some 1)) = true := by
    cases hs₀
    decide +kernel
  obtain ⟨s, hreach, htest⟩ := Machine.Reach.of_test (machine _ _) FewCalls
    (fun s => decide (s.conns.length = 3 ∧
      s.connectionMaps "web-127.0.0.1:8000#2".toList = some 1)) _ hstart hrun
  have htest' := of_decide_eq_true htest
  exact ⟨s, (connection_names_unique _ _).2 s hreach, htest'.1, htest'.2⟩

end NameTable

end MyNetLib
