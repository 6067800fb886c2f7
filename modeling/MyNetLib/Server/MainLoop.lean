import MyNetLib.Buffer.Model
import MyNetLib.Reactor.PollPoller

/-! # The main loop and its failing calls (`src/acceptor.cc`, `src/socket.cc`, both pollers)

The main loop of a server over either poller, with every result of `accept4`,
`epoll_wait` and `poll`. The handlers of its other channels, the timers and the
functors change registrations and take connections out of the map in any way. A
line logged at `FATAL` ends the process. `accepted`, `handed` and `closed` only
record what became of the descriptors.
-/

namespace MyNetLib

open Library

def EINTR : Errno := 4
def ECONNABORTED : Errno := 103

namespace MainLoop

inductive Watched where
  | wakeup
  | acceptor
  | connection (n : Nat)
  deriving DecidableEq, Repr

inductive Level where
  | info
  | error
  | fatal
  deriving DecidableEq, Repr

inductive Poller where
  | epoll (p : EpollPoller Watched)
  | poll (p : PollPoller Watched)

/-- What `epoll_wait` or `poll` did: the events written, or the slots' `revents`. -/
inductive PollResult where
  | events (events : List (Watched × BitVec 32))
  | slots (nready : Nat) (revents : List (BitVec 16))
  | failed (errno : Errno)

inductive AcceptResult where
  | accepted (fd : Nat)
  | failed (errno : Errno)

def AcceptResult.connfd : AcceptResult → Int
  | .accepted fd => fd
  | .failed _ => -1

namespace Poller

/-- Is the descriptor in the epoll set? The kernel keeps none there that is not open. -/
def knows : Poller → Int → Bool
  | .epoll p, fd => (p.epollSet fd).isSome
  | .poll _, _ => false

def isEpoll : Poller → Bool
  | .epoll _ => true
  | .poll _ => false

def aborted : Poller → Bool
  | .epoll p => p.aborted
  | .poll _ => false

/-- A call that a poller survives; the others are the pollers' own matter. -/
def call : Poller → EpollPoller.Call Watched → Option Poller
  | .epoll p, a => if (p.call a).aborted then none else some (.epoll (p.call a))
  | .poll p, a => (p.call a).map .poll

def setChannel : Poller → Watched → Channel → Poller
  | .epoll p, c, channel => .epoll (p.setChannel c channel)
  | .poll p, c, channel => .poll (p.setChannel c channel)

/-- The new channel of a connection, enabled by `ConnectionEstablished`. -/
def establish (p : Poller) (c : Watched) (fd : Int) : Option Poller :=
  (p.setChannel c (.new fd)).call (.change c .enableRead)

/-- `EpollPoller::Polling` after `-1`. -/
def epollFailed (errno : Errno) : List Level := if errno = EINTR then [] else [.error]

/-- `PollPoller::Polling` after `-1`: the branch for `EINTR` does not end the function. -/
def pollFailed (errno : Errno) : List Level :=
  (if errno = EINTR then [.error] else []) ++ [.fatal]

/-- `Polling`: the poller, the channels pushed onto `active_channels_`, the lines logged. -/
def polling : Poller → PollResult → Option (Poller × List (Watched × BitVec 32) × List Level)
  | .epoll p, .events events => some (.epoll p, events, [])
  | .epoll p, .failed errno => some (.epoll p, [], epollFailed errno)
  | .poll p, .slots nready revents =>
      if revents.length = p.pollList.length then
        let pollList := p.pollList.zipWith (fun slot r => { slot with revents := r }) revents
        let active := PollPoller.fillActive p.channelMaps nready pollList
        some (.poll { p with pollList := pollList },
          active.map fun e => (e.1, e.2.signExtend 32), [])
      else none
  | .poll p, .failed errno => some (.poll p, [], pollFailed errno)
  | .epoll _, .slots _ _ => none
  | .poll _, .events _ => none

end Poller

/-- Where the main thread is in `Loop()`; `handling` counts the entries done. -/
inductive Phase where
  | timers
  | polling
  | handling (done : Nat)
  | functors
  deriving DecidableEq, Repr

inductive Action where
  | others (calls : List (EpollPoller.Call Watched)) (erased : List Nat)
  | startPolling
  | polling (r : PollResult)
  | accept (r : AcceptResult)
  | handled
  | startFunctors
  | nextIteration

end MainLoop

structure MainLoop where
  poller : MainLoop.Poller
  phase : MainLoop.Phase
  activeChannels : List (MainLoop.Watched × BitVec 32)
  connectionMaps : List Nat
  nextConnId : Nat
  threads : Nat
  newConnectionCallback : Bool
  log : List MainLoop.Level
  accepted : List Int
  handed : List Int
  closed : List Int

namespace MainLoop

/-- `Logger::~Logger` has called `abort()`. -/
def aborted (s : MainLoop) : Bool := s.log.contains .fatal

def note (s : MainLoop) (lines : List Level) : MainLoop := { s with log := s.log ++ lines }

/-- The lines of `Socket::Accept`. -/
def socketAccept (connfd : Int) : List Level := if 0 < connfd then [.info] else [.fatal]

/-- `NewConnection`; on a server without sub-loops the connection is established at once. -/
def newConnection (s : MainLoop) (connfd : Int) : MainLoop :=
  let s' := { s with
    nextConnId := s.nextConnId + 1
    connectionMaps := s.connectionMaps ++ [s.nextConnId]
    handed := s.handed ++ [connfd] }
  if s.threads = 0 then
    match s.poller.establish (.connection s.nextConnId) connfd with
    | some p => { s' with poller := p }
    | none => s'.note [.fatal]
  else s'

/-- `Acceptor::HandleRead`; the condition of its last branch is an assignment. -/
def acceptorHandleRead (s : MainLoop) (connfd : Int) : MainLoop :=
  let s' := s.note (socketAccept connfd)
  if s'.aborted then s'
  else if 0 ≤ connfd then
    if s.newConnectionCallback then s'.newConnection connfd
    else { s' with closed := s'.closed ++ [connfd] }
  else s'.note [.error, .error]

/-- The next entry of `active_channels_` is the acceptor's, with a read event. -/
def accepting (s : MainLoop) (done : Nat) : Bool :=
  match s.activeChannels[done]? with
  | some (.acceptor, revents) => (Channel.handleEventWithGuard revents).contains .read
  | _ => false

def step (s : MainLoop) : Action → Option MainLoop
  | .others calls erased =>
      if s.phase = .polling then none
      else (calls.foldlM Poller.call s.poller).map fun p =>
        { s with
          poller := p
          connectionMaps := s.connectionMaps.filter (· ∉ erased) }
  | .startPolling =>
      if s.phase = .timers then some { s with phase := .polling, activeChannels := [] } else none
  | .polling r =>
      if s.phase = .polling then
        (s.poller.polling r).map fun o =>
          { s with
            phase := .handling 0
            poller := o.1
            activeChannels := s.activeChannels ++ o.2.1
            log := s.log ++ o.2.2 }
      else none
  | .accept r =>
      match s.phase with
      | .handling done =>
          if s.accepting done && !s.poller.knows r.connfd then
            let s' := { s with accepted := s.accepted ++ if 0 ≤ r.connfd then [r.connfd] else [] }
            some { s'.acceptorHandleRead r.connfd with phase := .handling (done + 1) }
          else none
      | _ => none
  | .handled =>
      match s.phase with
      | .handling done =>
          if done < s.activeChannels.length && !s.accepting done then
            some { s with phase := .handling (done + 1) }
          else none
      | _ => none
  | .startFunctors =>
      match s.phase with
      | .handling done =>
          if done = s.activeChannels.length then some { s with phase := .functors } else none
      | _ => none
  | .nextIteration => if s.phase = .functors then some { s with phase := .timers } else none

/-- Before `Loop()`, with any registrations. -/
structure Initial (s : MainLoop) : Prop where
  poller : s.poller.aborted = false
  phase : s.phase = .timers
  log : s.log = []
  accepted : s.accepted = []
  handed : s.handed = []
  closed : s.closed = []

def machine : Machine MainLoop Action where
  start := Initial
  step s a := if s.aborted then none else s.step a

/-! ## Failing calls -/

/-- No `LOG_FATAL` so far; every descriptor accepted was handed to `NewConnection` once
or closed. -/
structure Survives (s : MainLoop) : Prop where
  running : s.aborted = false
  accounted : s.accepted.Perm (s.handed ++ s.closed)

def Unchanged (s s' : MainLoop) : Prop :=
  s'.connectionMaps = s.connectionMaps ∧ s'.poller = s.poller ∧
    s'.activeChannels = s.activeChannels

def Action.fails : Action → Bool
  | .accept (.failed _) | .polling (.failed _) => true
  | _ => false

/-- `accept4` returns a positive descriptor, and `poll` does not fail. -/
def Tolerated (s : MainLoop) : Action → Prop
  | .accept r => 0 < r.connfd
  | .polling (.failed _) => s.poller.isEpoll = true
  | _ => True

instance (s : MainLoop) (a : Action) : Decidable (Tolerated s a) := by
  unfold Tolerated
  split <;> infer_instance

/-! ## The poller under a running loop -/

namespace Poller

variable {p p' : Poller} {c : Watched} {fd : Int}

theorem call_running {a : EpollPoller.Call Watched} (h : p.call a = some p') :
    p'.aborted = false := by
  cases p with
  | epoll p =>
      simp only [call] at h
      split at h
      · cases h
      · rename_i hrunning
        cases h
        exact Bool.eq_false_of_not_eq_true hrunning
  | poll p =>
      obtain ⟨q, _, rfl⟩ := Option.map_eq_some_iff.1 h
      rfl

theorem calls_running {calls : List (EpollPoller.Call Watched)} (hrunning : p.aborted = false)
    (h : calls.foldlM call p = some p') : p'.aborted = false := by
  induction calls generalizing p with
  | nil =>
      cases h
      exact hrunning
  | cons a calls ih =>
      rw [List.foldlM_cons] at h
      obtain ⟨q, hq, hrest⟩ := Option.bind_eq_some_iff.1 h
      exact ih (call_running hq) hrest

theorem establish_some (hrunning : p.aborted = false) (hfd : p.knows fd = false) :
    ∃ p', p.establish c fd = some p' := by
  cases p with
  | epoll p =>
      have hrunning' : p.aborted = false := hrunning
      have hnone : p.epollSet fd = none := by simpa [knows] using hfd
      have hadded : ((p.setChannel c (.new fd)).call (.change c .enableRead)).aborted = false := by
        simp [EpollPoller.call, EpollPoller.updateChannel, EpollPoller.setChannel,
          EpollPoller.setIndex, EpollPoller.update, EpollPoller.epollCtl, Channel.change,
          Channel.new, EpollPoller.kNew, hnone, hrunning']
      exact ⟨_, if_neg (by rw [hadded]; exact Bool.false_ne_true)⟩
  | poll p =>
      have hnew : (Channel.new fd).index < 0 := by simp [Channel.new]
      refine ⟨_, Option.map_eq_some_iff.2 ⟨_, if_pos ?_, rfl⟩⟩
      simpa [PollPoller.setChannel, Channel.change] using hnew

theorem polling_running {r : PollResult} {o : Poller × List (Watched × BitVec 32) × List Level}
    (h : p.polling r = some o) (hrunning : p.aborted = false) : o.1.aborted = false := by
  cases p <;> cases r <;> simp only [polling] at h
  case epoll.events =>
    cases h
    exact hrunning
  case epoll.failed =>
    cases h
    exact hrunning
  case poll.failed =>
    cases h
    rfl
  case poll.slots =>
      split at h <;> cases h
      rfl
  all_goals cases h

/-- Only `poll` makes a failed call fatal. -/
theorem polling_failed {errno : Errno} {o : Poller × List (Watched × BitVec 32) × List Level}
    (h : p.polling (.failed errno) = some o) :
    o.1 = p ∧ o.2.1 = [] ∧ (o.2.2.contains .fatal = false ↔ p.isEpoll = true) := by
  cases p with
  | epoll p =>
      cases h
      refine ⟨rfl, rfl, ?_⟩
      by_cases hintr : errno = EINTR <;> simp [epollFailed, isEpoll, hintr]
  | poll p =>
      cases h
      exact ⟨rfl, rfl, by simp [pollFailed, isEpoll]⟩

theorem polling_quiet {r : PollResult} {o : Poller × List (Watched × BitVec 32) × List Level}
    (h : p.polling r = some o) (hr : ∀ errno, r ≠ .failed errno) : o.2.2 = [] := by
  cases p <;> cases r <;> simp only [polling] at h
  case epoll.events =>
    cases h
    rfl
  case poll.slots =>
      split at h <;> cases h
      rfl
  case epoll.failed errno => exact absurd rfl (hr errno)
  case poll.failed errno => exact absurd rfl (hr errno)
  all_goals cases h

end Poller

/-! ## One step -/

structure Sound (s : MainLoop) : Prop extends Survives s where
  poller : s.poller.aborted = false

variable {s s' : MainLoop} {a : Action}

theorem note_aborted (s : MainLoop) (lines : List Level) :
    (s.note lines).aborted = (s.aborted || lines.contains .fatal) := by
  simp [aborted, note]

theorem Sound.acceptorHandleRead {connfd : Int} (h : Sound s) (hpos : 0 < connfd)
    (hfd : s.poller.knows connfd = false) :
    Sound ({ s with accepted := s.accepted ++ [connfd] }.acceptorHandleRead connfd) := by
  have hlines : socketAccept connfd = [.info] := if_pos hpos
  have hrunning : (s.log ++ [Level.info]).contains .fatal = false := by
    simpa [aborted] using h.running
  simp only [MainLoop.acceptorHandleRead, hlines, note, aborted, hrunning, Bool.false_eq_true,
    if_false, if_pos hpos.le]
  split
  · have hhanded : (s.accepted ++ [connfd]).Perm (s.handed ++ [connfd] ++ s.closed) := by
      rw [List.append_assoc]
      refine (h.accounted.append_right [connfd]).trans ?_
      rw [List.append_assoc]
      exact List.perm_append_comm.append_left s.handed
    unfold newConnection
    dsimp only
    split
    · obtain ⟨p, hp⟩ := Poller.establish_some (c := .connection s.nextConnId) h.poller hfd
      rw [hp]
      exact ⟨⟨hrunning, hhanded⟩, Poller.call_running hp⟩
    · exact ⟨⟨hrunning, hhanded⟩, h.poller⟩
  · refine ⟨⟨hrunning, ?_⟩, h.poller⟩
    rw [← List.append_assoc]
    exact h.accounted.append_right [connfd]

theorem acceptorHandleRead_fatal (s : MainLoop) {connfd : Int} (hpos : ¬ 0 < connfd) :
    s.acceptorHandleRead connfd = s.note [.fatal] := by
  have hlines : socketAccept connfd = [.fatal] := if_neg hpos
  have haborted : (s.note [.fatal]).aborted = true := by simp [note_aborted]
  simp only [MainLoop.acceptorHandleRead, hlines, haborted, if_true]

theorem Sound.step (h : Sound s) (hs : s.step a = some s') (ha : Tolerated s a) :
    Sound s' ∧ (a.fails = true → Unchanged s s') := by
  have hsame : ∀ {phase activeChannels}, Sound { s with
      phase := phase, activeChannels := activeChannels } :=
    ⟨⟨h.running, h.accounted⟩, h.poller⟩
  cases a with
  | others calls erased =>
      simp only [MainLoop.step] at hs
      split at hs
      · cases hs
      · obtain ⟨p, hp, rfl⟩ := Option.map_eq_some_iff.1 hs
        exact ⟨⟨⟨h.running, h.accounted⟩, Poller.calls_running h.poller hp⟩, by simp [Action.fails]⟩
  | startPolling =>
      simp only [MainLoop.step] at hs
      split at hs <;> cases hs
      exact ⟨hsame, by simp [Action.fails]⟩
  | polling r =>
      simp only [MainLoop.step] at hs
      split at hs
      · obtain ⟨o, ho, rfl⟩ := Option.map_eq_some_iff.1 hs
        have hpoller := Poller.polling_running ho h.poller
        cases r with
        | failed errno =>
            obtain ⟨hsamePoller, hnone, hfatal⟩ := Poller.polling_failed ho
            have hold : Level.fatal ∉ s.log := by simpa [aborted] using h.running
            have hlines : Level.fatal ∉ o.2.2 := by simpa using hfatal.2 ha
            have hrunning : (s.log ++ o.2.2).contains .fatal = false := by simp [hold, hlines]
            exact ⟨⟨⟨hrunning, h.accounted⟩, hpoller⟩, fun _ => ⟨rfl, hsamePoller, by simp [hnone]⟩⟩
        | events events =>
            have hquiet := Poller.polling_quiet ho (by simp)
            exact ⟨⟨⟨by simpa [aborted, hquiet] using h.running, h.accounted⟩, hpoller⟩,
              by simp [Action.fails]⟩
        | slots nready revents =>
            have hquiet := Poller.polling_quiet ho (by simp)
            exact ⟨⟨⟨by simpa [aborted, hquiet] using h.running, h.accounted⟩, hpoller⟩,
              by simp [Action.fails]⟩
      · cases hs
  | accept r =>
      simp only [MainLoop.step] at hs
      split at hs
      · split at hs
        · rename_i hready
          cases hs
          simp only [Bool.and_eq_true, Bool.not_eq_true'] at hready
          have hpos : 0 < r.connfd := ha
          have hsound := h.acceptorHandleRead hpos hready.2
          rw [if_pos hpos.le]
          refine ⟨⟨⟨hsound.running, hsound.accounted⟩, hsound.poller⟩, ?_⟩
          cases r with
          | accepted fd => simp [Action.fails]
          | failed errno => exact absurd hpos (by simp [AcceptResult.connfd])
        · cases hs
      · cases hs
  | handled =>
      simp only [MainLoop.step] at hs
      split at hs
      · split at hs <;> cases hs
        exact ⟨hsame, by simp [Action.fails]⟩
      · cases hs
  | startFunctors =>
      simp only [MainLoop.step] at hs
      split at hs
      · split at hs <;> cases hs
        exact ⟨hsame, by simp [Action.fails]⟩
      · cases hs
  | nextIteration =>
      simp only [MainLoop.step] at hs
      split at hs <;> cases hs
      exact ⟨hsame, by simp [Action.fails]⟩

theorem step_fatal (hs : s.step a = some s') (ha : ¬ Tolerated s a) : s'.aborted = true := by
  cases a with
  | accept r =>
      simp only [MainLoop.step] at hs
      split at hs
      · split at hs <;> cases hs
        rw [acceptorHandleRead_fatal _ ha]
        simp [aborted, note]
      · cases hs
  | polling r =>
      cases r with
      | failed errno =>
          simp only [MainLoop.step] at hs
          split at hs
          · obtain ⟨o, ho, rfl⟩ := Option.map_eq_some_iff.1 hs
            have hfatal := mt (Poller.polling_failed ho).2.2.1 ha
            simp only [Bool.not_eq_false] at hfatal
            simp [aborted, List.contains_iff_mem.1 hfatal]
          · cases hs
      | _ => exact absurd trivial ha
  | _ => exact absurd trivial ha

/-! ## Whole runs -/

theorem sound_of_reach (h : machine.Reach Tolerated s) : Sound s := by
  refine h.invariant ?_ ?_
  · intro s hinit
    refine ⟨⟨?_, ?_⟩, hinit.poller⟩
    · simp [aborted, hinit.log]
    · rw [hinit.accepted, hinit.handed, hinit.closed]
      rfl
  · intro s a s' hsound ha hs
    simp only [machine, hsound.running, Bool.false_eq_true, if_false] at hs
    exact (hsound.step hs ha).1

/-- As long as `accept4` returns positive descriptors and `poll` does not fail, no
`LOG_FATAL` is reached, failed calls change nothing, and no descriptor is lost; any other
result ends the process. -/
theorem failures_survived (h : machine.Reach Tolerated s) :
    Survives s ∧ ∀ a s', machine.step s a = some s' →
      ((Survives s' ∧ (a.fails = true → Unchanged s s')) ↔ Tolerated s a) := by
  have hsound := sound_of_reach h
  refine ⟨hsound.toSurvives, fun a s' hs => ?_⟩
  simp only [machine, hsound.running, Bool.false_eq_true, if_false] at hs
  constructor
  · rintro ⟨hsurvives, _⟩
    by_contra hnot
    have hrunning := hsurvives.running
    rw [step_fatal hs hnot] at hrunning
    cases hrunning
  · intro ha
    have hstep := hsound.step hs ha
    exact ⟨hstep.1.toSurvives, hstep.2⟩

/-- A server without sub-loops over an epoll poller, nothing registered. -/
def new : MainLoop where
  poller := .epoll ⟨fun _ => .new 4, fun _ => none, fun _ => none, [], false⟩
  phase := .timers
  activeChannels := []
  connectionMaps := []
  nextConnId := 1
  threads := 0
  newConnectionCallback := true
  log := []
  accepted := []
  handed := []
  closed := []

theorem new_initial : Initial new := ⟨rfl, rfl, rfl, rfl, rfl, rfl⟩

def readable : List Action :=
  [.others [.change .acceptor .enableRead] [], .startPolling, .polling (.events [(.acceptor, 1)])]

/-- An accepted connection, then an interrupted `epoll_wait`. -/
theorem failures_survived_interrupted : ∃ s : MainLoop, Survives s ∧ s.handed = [7] ∧
    s.log = [.info] := by
  obtain ⟨s, hs, htest⟩ := Machine.Reach.of_test machine Tolerated
    (fun s => s.handed == [7] && s.log == [.info])
    (readable ++ [.accept (.accepted 7), .startFunctors, .nextIteration, .startPolling,
      .polling (.failed EINTR)]) (.start new_initial) (by decide +kernel)
  simp only [Bool.and_eq_true, beq_iff_eq] at htest
  exact ⟨s, (failures_survived hs).1, htest.1, htest.2⟩

/-- A connection that is reset before it is accepted ends the process. -/
theorem aborted_connection_fatal :
    ¬ ∀ s : MainLoop, machine.Reach (fun _ _ => True) s → Survives s := by
  intro hclaim
  obtain ⟨s, hs, htest⟩ := Machine.Reach.of_test machine (fun _ _ => True) MainLoop.aborted
    (readable ++ [.accept (.failed ECONNABORTED)]) (.start new_initial) (by decide +kernel)
  rw [(hclaim s hs).running] at htest
  cases htest

end MainLoop

end MyNetLib
