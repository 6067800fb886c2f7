import MyNetLib.Server.Destructed

/-! # The flags of the descriptors (`src/socket.cc`, `src/acceptor.cc`, `include/utils.h`)

The loops watch their eventfds, the main loop also the listening socket, and each
the connections given to it. The flags of a descriptor are those it was made with,
and `O_NONBLOCK` once `SetNonblocking` was called on its socket: `Socket::Accept`
calls it on the socket it accepts from, user code can call it on a connection.
-/

namespace MyNetLib

open Library

structure Flags where
  nonblock : Bool
  cloexec : Bool
  deriving DecidableEq, Repr

/-- The server, the flags of the process's descriptors, and which of them are the
eventfd of a loop and the listening socket. `asked` only records the connections that
`SetNonblocking` was called on. -/
structure Descriptors (τ : Type) where
  server : TcpServer τ
  flags : Int → Flags
  wakeFd : Nat → Int
  listenFd : Int
  asked : List Nat

namespace Descriptors

/-- `utils::CreateEventfd`. -/
def createEventfd : Flags := ⟨true, true⟩

/-- `CreateNonblocking` of the acceptor. -/
def createNonblocking : Flags := ⟨true, true⟩

/-- `Socket::SetNonblocking` of the socket on `fd`, which sets the flag whatever `on` is. -/
def setNonblocking (flags : Int → Flags) (fd : Int) (_on : Bool) : Int → Flags :=
  Function.update flags fd { flags fd with nonblock := true }

/-- `Socket::Accept` of the socket on `fd`, with what `accept4` returned. -/
def accept (flags : Int → Flags) (fd : Int) (connfd : Option Int) (nonblock : Bool) :
    Int → Flags :=
  let flags := match connfd with
    | some connfd => Function.update flags connfd ⟨false, true⟩
    | none => flags
  if nonblock then setNonblocking flags fd true else flags

variable {τ : Type}

/-- Neither a loop nor a connection has this descriptor open: the kernel can return it. -/
def free (s : Descriptors τ) (fd : Int) : Bool :=
  fd != s.listenFd && ((List.range (s.server.threads + 1)).all fun l => fd != s.wakeFd l) &&
    s.server.conns.all fun x => x.destructed || x.tcp.channel.fd != fd

def Watched (s : Descriptors τ) (l : Nat) (fd : Int) : Prop :=
  fd = s.wakeFd l ∨ l = 0 ∧ fd = s.listenFd ∨ ((s.server.loops l).epollSet fd).isSome = true

def Nonblocking (s : Descriptors τ) : Prop :=
  ∀ l, l ≤ s.server.threads → ∀ fd, s.Watched l fd → (s.flags fd).nonblock = true

inductive Action (τ : Type) where
  | server (a : TcpServer.Action τ)
  | setNonblocking (c : Nat) (on : Bool)

variable [DecidableEq τ]

def flagsAfter (s : Descriptors τ) : TcpServer.Action τ → Int → Flags
  | .accept fd => accept s.flags s.listenFd (some fd) true
  | .acceptFails => accept s.flags s.listenFd none true
  | _ => s.flags

def canReturn (s : Descriptors τ) : TcpServer.Action τ → Bool
  | .accept fd => s.free fd
  | _ => true

structure Initial (s : Descriptors τ) : Prop where
  server : s.server.Initial
  wake : ∀ l, s.flags (s.wakeFd l) = createEventfd
  listen : s.flags s.listenFd = createNonblocking
  asked : s.asked = []

/-- `TcpConnection::SetNonblocking` is called by user code that has a pointer to `c`. -/
def step (s : Descriptors τ) : Action τ → Option (Descriptors τ)
  | .server a =>
      if s.canReturn a then
        ((TcpServer.machine τ).step s.server a).map fun server =>
          { s with server := server, flags := s.flagsAfter a }
      else none
  | .setNonblocking c on =>
      match s.server.conns[c]? with
      | none => none
      | some x =>
          if s.server.canObtain c && !s.server.aborted then
            some { s with
              flags := setNonblocking s.flags x.tcp.channel.fd on
              asked := c :: s.asked }
          else none

def machine (τ : Type) [DecidableEq τ] : Machine (Descriptors τ) (Action τ) where
  start := Initial
  step := step

/-! ## Whose descriptor is whose -/

end Descriptors

namespace TcpServer

variable {τ : Type}

theorem wrote_fd (x : Conn) (tcp : TcpConnection) :
    (x.wrote tcp).tcp.channel.fd = tcp.channel.fd := by
  unfold Conn.wrote
  split <;> rfl

theorem View.destroy_fd (v : View τ) (l : Nat) :
    (v.destroy l).conn.tcp.channel.fd = v.conn.tcp.channel.fd := by
  unfold View.destroy
  split <;> rfl

variable [DecidableEq τ]

theorem View.Step.fd {v v' : View τ} {mine : Bool} {a : Action τ} (h : v.Step mine a v') :
    v'.conn.tcp.channel.fd = v.conn.tcp.channel.fd := by
  have hsend : ∀ {p w tcp due}, v.conn.tcp.sendInLoop p w = some (tcp, due) →
      tcp.channel.fd = v.conn.tcp.channel.fd := by
    intro p w tcp due hsent
    rw [(TcpConnection.sendInLoop_channel hsent).2]
    split <;> rfl
  cases h with
  | readMessage _ _ _ _ _ _ tcp _ hread =>
      exact congrArg Channel.fd (TcpConnection.handleRead_channel hread).2
  | readClose _ _ _ _ _ _ tcp _ hread =>
      show tcp.channel.fd = v.conn.tcp.channel.fd
      exact congrArg Channel.fd (TcpConnection.handleRead_channel hread).2
  | readError _ _ _ _ _ _ tcp _ hread =>
      exact congrArg Channel.fd (TcpConnection.handleRead_channel hread).2
  | handledWrite _ _ _ _ _ _ tcp _ _ hwrite =>
      rw [wrote_fd]
      rcases (TcpConnection.handleWrite_channel hwrite).2 with hsame | ⟨_, hmask⟩
      · exact congrArg Channel.fd hsame
      · rw [hmask]
        rfl
  | runSend _ _ _ _ _ _ _ _ _ hsent => exact (wrote_fd _ _).trans (hsend hsent)
  | ownSent _ _ _ _ _ _ _ hsent => exact (wrote_fd _ _).trans (hsend hsent)
  | runShutdown => exact congrArg Channel.fd (TcpConnection.shutdownInLoop_channel _)
  | ownShut => exact congrArg Channel.fd (shutDown_channel _)
  | runDestroyed => exact View.destroy_fd _ _
  | dtorDestroyed => exact View.destroy_fd _ _
  | _ => rfl

theorem Sane.fd_step {s s' : TcpServer τ} {a : Action τ} {c : Nat} {y : Conn} (h : Sane s)
    (hs : s.step a = some s') (hy : s'.conns[c]? = some y) :
    (∃ x, s.conns[c]? = some x ∧ x.tcp.channel.fd = y.tcp.channel.fd ∧
      (y.destructed = false → x.destructed = false)) ∨
    c = s.conns.length ∧ a = .accept y.tcp.channel.fd := by
  by_cases hlt : c < s.conns.length
  · left
    obtain ⟨x, hx⟩ := get_of_lt hlt
    obtain ⟨z, hz, _, hstep⟩ := (h.projects_step hs).old c x hx
    rw [hy, Option.some.injEq] at hz
    subst hz
    refine ⟨x, hx, hstep.fd.symm, ?_⟩
    intro halive
    rcases hstep.destructed_eq with hsame | ⟨hdead, _⟩
    · exact hsame.symm.trans halive
    · have hlive : (s'.view c y).conn.destructed = false := halive
      rw [hlive] at hdead
      cases hdead
  · right
    have hlen := (List.getElem?_eq_some_iff.1 hy).1
    rcases pool_step hs with hpool | ⟨_, _, z, hconns, _, ha⟩
    · simp only [pool, Prod.mk.injEq] at hpool
      omega
    · have hc : c = s.conns.length := by
        rw [hconns, List.length_append, List.length_singleton] at hlen
        omega
      have hz : z = y := by simpa [hconns, hc] using hy
      exact ⟨hc, hz ▸ ha⟩

end TcpServer

namespace Descriptors

open TcpServer

variable {τ : Type} [DecidableEq τ]

/-- What this process made is non-blocking; what it accepted is where it was asked for. -/
structure Split (s : Descriptors τ) : Prop where
  server : (TcpServer.machine τ).Reach (fun _ _ => True) s.server
  wake : ∀ l, l ≤ s.server.threads → (s.flags (s.wakeFd l)).nonblock = true
  listen : (s.flags s.listenFd).nonblock = true
  apart : ∀ (c : Nat) x, s.server.conns[c]? = some x → x.tcp.channel.fd ≠ s.listenFd
  known : ∀ c ∈ s.asked, c < s.server.conns.length
  distinct : ∀ (c d : Nat) x y, s.server.conns[c]? = some x → s.server.conns[d]? = some y →
    x.destructed = false → y.destructed = false →
      x.tcp.channel.fd = y.tcp.channel.fd → c = d
  accepted : ∀ (c : Nat) x, s.server.conns[c]? = some x → x.destructed = false →
    ((s.flags x.tcp.channel.fd).nonblock = true ↔ c ∈ s.asked)

variable {s s' : Descriptors τ} {a : TcpServer.Action τ} {fd : Int}

omit [DecidableEq τ] in
/-- `Accept` sets `O_NONBLOCK` for the listening socket and clears it for no other
descriptor than the new one. -/
theorem flagsAfter_same (hlisten : fd ≠ s.listenFd) (hfd : a ≠ .accept fd) :
    s.flagsAfter a fd = s.flags fd := by
  cases a with
  | accept connfd =>
      have hne : fd ≠ connfd := by
        rintro rfl
        exact hfd rfl
      simp [flagsAfter, accept, setNonblocking, hlisten, hne]
  | acceptFails => simp [flagsAfter, accept, setNonblocking, hlisten]
  | _ => rfl

omit [DecidableEq τ] in
theorem flagsAfter_nonblock (h : (s.flags fd).nonblock = true) (hfd : a ≠ .accept fd) :
    (s.flagsAfter a fd).nonblock = true := by
  by_cases hlisten : fd = s.listenFd
  · subst hlisten
    cases a with
    | accept connfd => simp [flagsAfter, accept, setNonblocking]
    | acceptFails => simp [flagsAfter, accept, setNonblocking]
    | _ => exact h
  · rw [flagsAfter_same hlisten hfd]
    exact h

omit [DecidableEq τ] in
theorem flagsAfter_accept (hlisten : fd ≠ s.listenFd) :
    (s.flagsAfter (.accept fd) fd).nonblock = false := by
  simp [flagsAfter, accept, setNonblocking, hlisten]

omit [DecidableEq τ] in
theorem setNonblocking_nonblock {flags : Int → Flags} (c : Int) (on : Bool)
    (h : (flags fd).nonblock = true) : (setNonblocking flags c on fd).nonblock = true := by
  by_cases hfd : fd = c
  · simp [setNonblocking, hfd]
  · simp [setNonblocking, hfd, h]

omit [DecidableEq τ] in
theorem free_iff : s.free fd = true ↔ fd ≠ s.listenFd ∧
    (∀ l, l ≤ s.server.threads → fd ≠ s.wakeFd l) ∧
      ∀ x ∈ s.server.conns, x.destructed = false → x.tcp.channel.fd ≠ fd := by
  simp [free, and_assoc, or_iff_not_imp_left]

/-- A new connection gets a descriptor that nobody has open, without `O_NONBLOCK`. -/
theorem Split.server_step (h : Split s) (hs : s.step (.server a) = some s') : Split s' := by
  simp only [step] at hs
  split at hs
  · rename_i hreturn
    obtain ⟨server, hserver, rfl⟩ := Option.map_eq_some_iff.1 hs
    have hstep := step_of_machine hserver
    have hsane := sane_of_reach h.server
    have hfree : ∀ fd, a = .accept fd → s.free fd = true := by
      rintro fd rfl
      exact hreturn
    have hthreads : server.threads = s.server.threads := by
      rcases pool_step hstep with hpool | ⟨hsame, _⟩
      · exact congrArg Prod.fst hpool
      · exact hsame
    constructor
    · exact h.server.step trivial hserver
    · intro l hl
      have hl' : l ≤ s.server.threads := hthreads ▸ hl
      refine flagsAfter_nonblock (h.wake l hl') ?_
      intro ha
      exact (free_iff.1 (hfree _ ha)).2.1 l hl' rfl
    · refine flagsAfter_nonblock h.listen ?_
      intro ha
      exact (free_iff.1 (hfree _ ha)).1 rfl
    · intro c y hy
      rcases hsane.fd_step hstep hy with ⟨x, hx, hfd, _⟩ | ⟨_, ha⟩
      · rw [← hfd]
        exact h.apart c x hx
      · exact (free_iff.1 (hfree _ ha)).1
    · intro c hc
      obtain ⟨x, hx⟩ := get_of_lt (h.known c hc)
      obtain ⟨y, hy, _⟩ := (hsane.projects_step hstep).old c x hx
      exact (List.getElem?_eq_some_iff.1 hy).1
    · intro c d y z hy hz hyalive hzalive heq
      rcases hsane.fd_step hstep hy with ⟨x, hx, hfd, halive⟩ | ⟨hc, ha⟩ <;>
        rcases hsane.fd_step hstep hz with ⟨w, hw, hfd', halive'⟩ | ⟨hd, ha'⟩
      · exact h.distinct c d x w hx hw (halive hyalive) (halive' hzalive)
          (hfd.trans (heq.trans hfd'.symm))
      · exact absurd (hfd.trans heq) ((free_iff.1 (hfree _ ha')).2.2 x
          (List.mem_of_getElem? hx) (halive hyalive))
      · exact absurd (hfd'.trans heq.symm) ((free_iff.1 (hfree _ ha)).2.2 w
          (List.mem_of_getElem? hw) (halive' hzalive))
      · rw [hc, hd]
    · intro c y hy hyalive
      rcases hsane.fd_step hstep hy with ⟨x, hx, hfd, halive⟩ | ⟨hc, ha⟩
      · have hother : a ≠ .accept y.tcp.channel.fd := by
          intro ha
          exact (free_iff.1 (hfree _ ha)).2.2 x (List.mem_of_getElem? hx) (halive hyalive) hfd
        have hflags := flagsAfter_same (hfd ▸ h.apart c x hx) hother
        dsimp only
        rw [hflags, ← hfd]
        exact h.accepted c x hx (halive hyalive)
      · have hblocking : (s.flagsAfter a y.tcp.channel.fd).nonblock = false := by
          rw [ha]
          exact flagsAfter_accept (free_iff.1 (hfree _ ha)).1
        have hunasked : c ∉ s.asked := by
          intro hmem
          have hlt := h.known c hmem
          omega
        dsimp only
        simp [hblocking, hunasked]
  · cases hs

theorem Split.asked_step {c : Nat} {on : Bool} (h : Split s)
    (hs : s.step (.setNonblocking c on) = some s') : Split s' := by
  simp only [step] at hs
  split at hs
  · cases hs
  · rename_i x hx
    split at hs <;> cases hs
    rename_i hcan
    rw [Bool.and_eq_true] at hcan
    have halive : x.destructed = false := by
      by_contra hdead
      have hforgotten := destructed_forgotten h.server hx (by simpa using hdead)
      exact hforgotten.ne_of_obtain hcan.1 rfl
    refine ⟨h.server, ?_, ?_, h.apart, ?_, h.distinct, ?_⟩
    · intro l hl
      exact setNonblocking_nonblock _ on (h.wake l hl)
    · exact setNonblocking_nonblock _ on h.listen
    · intro d hd
      rcases List.mem_cons.1 hd with rfl | hold
      · exact (List.getElem?_eq_some_iff.1 hx).1
      · exact h.known d hold
    · intro d y hy hyalive
      by_cases hfd : y.tcp.channel.fd = x.tcp.channel.fd
      · have hdc : d = c := h.distinct d c y x hy hx hyalive halive hfd
        simp [setNonblocking, hfd, hdc]
      · have hdc : d ≠ c := by
          rintro rfl
          rw [hx, Option.some.injEq] at hy
          exact hfd (by rw [hy])
        have hold := h.accepted d y hy hyalive
        simpa [setNonblocking, hfd, hdc] using hold

theorem split_of_reach {guard : Descriptors τ → Action τ → Prop}
    (h : (machine τ).Reach guard s) : Split s := by
  apply h.invariant
  · intro s hinit
    refine ⟨.start hinit.server, ?_, ?_, ?_, ?_, ?_, ?_⟩
    · intro l _
      rw [hinit.wake]
      rfl
    · rw [hinit.listen]
      rfl
    · intro c x hx
      rw [hinit.server.conns] at hx
      cases hx
    · intro c hc
      rw [hinit.asked] at hc
      cases hc
    · intro c d x y hx
      rw [hinit.server.conns] at hx
      cases hx
    · intro c x hx
      rw [hinit.server.conns] at hx
      cases hx
  · intro s a s' hI _ hs
    cases a with
    | server a => exact hI.server_step hs
    | setNonblocking c on => exact hI.asked_step hs

/-- The kernel takes a descriptor out of every epoll set when it is closed. -/
theorem Split.watched_alive (h : Split s) {l c : Nat} {x : Conn}
    (hx : s.server.conns[c]? = some x) (hw : s.server.watched l c = true) :
    x.destructed = false := by
  obtain ⟨y, e, _, he, hptr⟩ := watched_iff.1 hw
  by_contra hdead
  exact (destructed_forgotten h.server hx (by simpa using hdead)).watched l _ e he hptr

/-- The descriptors the loops watch are all non-blocking if and only if `SetNonblocking`
was called on every accepted connection that a loop watches. -/
theorem nonblocking_iff (h : (machine τ).Reach (fun _ _ => True) s) :
    s.Nonblocking ↔
      ∀ l, l ≤ s.server.threads → ∀ c, s.server.watched l c = true → c ∈ s.asked := by
  have hsplit := split_of_reach h
  constructor
  · intro hall l hl c hwatched
    obtain ⟨x, e, hx, he, _⟩ := watched_iff.1 hwatched
    have hnonblock := hall l hl x.tcp.channel.fd (Or.inr (Or.inr (by rw [he]; rfl)))
    exact (hsplit.accepted c x hx (hsplit.watched_alive hx hwatched)).1 hnonblock
  · intro hasked l hl fd hwatched
    rcases hwatched with rfl | ⟨_, rfl⟩ | hsome
    · exact hsplit.wake l hl
    · exact hsplit.listen
    · obtain ⟨e, he⟩ := Option.isSome_iff_exists.1 hsome
      obtain ⟨x, hx, _, hfd, _⟩ := (sane_of_reach hsplit.server).registry.watched l fd e he
      have hwatched : s.server.watched l e.ptr = true :=
        watched_iff.2 ⟨x, e, hx, by rw [hfd, he], rfl⟩
      rw [← hfd]
      exact (hsplit.accepted e.ptr x hx (hsplit.watched_alive hx hwatched)).2
        (hasked l hl e.ptr hwatched)

/-- A server without sub-loops: eventfd 5, listening socket 4. -/
def new : Descriptors Nat where
  server := TcpServer.new 0 false
  flags _ := ⟨true, true⟩
  wakeFd l := 5 + l
  listenFd := 4
  asked := []

theorem new_initial : Initial new := ⟨TcpServer.new_initial 0 false, fun _ => rfl, rfl, rfl⟩

/-- The callback of the accepted connection asks for it. -/
theorem nonblocking_iff_asked : ∃ s : Descriptors Nat, s.server.watched 0 0 = true ∧
    s.Nonblocking := by
  obtain ⟨s, hs, htest⟩ := Machine.Reach.of_test (machine Nat) (fun _ _ => True)
    (fun s => s.server.watched 0 0 && s.asked == [0] && decide (s.server.conns.length = 1))
    (accepting.map .server ++ [.setNonblocking 0 true]) (.start new_initial) (by decide +kernel)
  simp only [Bool.and_eq_true, beq_iff_eq, decide_eq_true_eq] at htest
  obtain ⟨⟨hwatched, hasked⟩, hone⟩ := htest
  refine ⟨s, hwatched, (nonblocking_iff hs).2 ?_⟩
  intro l _ c hc
  obtain ⟨x, _, hx, _⟩ := watched_iff.1 hc
  have hlt := (List.getElem?_eq_some_iff.1 hx).1
  have hzero : c = 0 := by omega
  simp [hasked, hzero]

/-- The connection on descriptor 7 is in the epoll set without `O_NONBLOCK`. -/
theorem accepted_blocking :
    ¬ ∀ s : Descriptors Nat, (machine Nat).Reach (fun _ _ => True) s → s.Nonblocking := by
  intro hclaim
  obtain ⟨s, hs, htest⟩ := Machine.Reach.of_test (machine Nat) (fun _ _ => True)
    (fun s => ((s.server.loops 0).epollSet 7).isSome && !(s.flags 7).nonblock)
    (accepting.map .server) (.start new_initial) (by decide +kernel)
  simp only [Bool.and_eq_true, Bool.not_eq_true'] at htest
  have hnonblock := hclaim s hs 0 (Nat.zero_le _) 7 (Or.inr (Or.inr htest.1))
  rw [htest.2] at hnonblock
  cases hnonblock

end Descriptors

end MyNetLib
