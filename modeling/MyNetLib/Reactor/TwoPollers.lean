import MyNetLib.Reactor.Slots

/-! # The two pollers side by side

Both are called with the same channels and compared by what they watch. An epoll
set has no descriptor of a channel whose mask is empty, and forgets a removed one;
`poll_list_` keeps the first with an empty mask, and `channel_maps_` of the poll
poller keeps the second.
-/

namespace MyNetLib

open Library

/-- The pairs of descriptor and mask the kernel is asked about. -/
def EpollPoller.watches {κ : Type} (p : EpollPoller κ) : Set (Int × BitVec 32) :=
  {w | ∃ e, p.epollSet w.1 = some e ∧ e.events = w.2}

def PollPoller.watches {κ : Type} (p : PollPoller κ) : Set (Int × BitVec 32) :=
  {w | ∃ slot ∈ p.pollList, slot.fd = w.1 ∧ slot.events.signExtend 32 = w.2}

structure TwoPollers (κ : Type) where
  epoll : EpollPoller κ
  poll : PollPoller κ

namespace TwoPollers

open EpollPoller (Call kNew kAdded kDeleted)
open PollPoller (Slots Standing)

variable {κ : Type} [DecidableEq κ]

structure Initial (s : TwoPollers κ) : Prop where
  epoll : s.epoll.Initial
  poll : s.poll.Initial
  same : ∀ c, s.epoll.channels c = s.poll.channels c

/-- One call on both; no step when one of them fails. -/
def machine (κ : Type) [DecidableEq κ] : Machine (TwoPollers κ) (Call κ) where
  start := Initial
  step s a := ((EpollPoller.machine κ).step s.epoll a).bind fun p =>
    (s.poll.call a).map fun q => ⟨p, q⟩

def Agree (s : TwoPollers κ) : Prop :=
  s.epoll.watches = s.poll.watches ∧ ∀ c, s.epoll.hasChannel c = s.poll.hasChannel c

/-- The call removes no channel and leaves no registered one with an empty mask. -/
def KeepsWatching (s : TwoPollers κ) : Call κ → Prop
  | .change c ch =>
      (s.poll.channels c).index < 0 ∨ ((s.poll.channels c).change ch).isNoneEvent = false
  | .remove _ => False

instance (s : TwoPollers κ) (a : Call κ) : Decidable (KeepsWatching s a) := by
  cases a <;> unfold KeepsWatching <;> infer_instance

/-- Each channel is new to both, or registered with both. -/
structure Alike (s : TwoPollers κ) (st : κ → Standing) : Prop where
  mirror : s.epoll.Mirror
  slots : Slots s.poll st
  own : ∀ fd e, s.epoll.epollSet fd = some e → ∃ c, (s.epoll.channels c).fd = fd
  fd : ∀ c, (s.epoll.channels c).fd = (s.poll.channels c).fd
  events : ∀ c, (s.epoll.channels c).events = (s.poll.channels c).events
  standing : ∀ c, st c = .fresh ∧ (s.epoll.channels c).index = kNew ∨
    st c = .registered ∧ (s.epoll.channels c).index = kAdded
  unmapped : ∀ c, st c = .fresh → s.poll.channelMaps (s.poll.channels c).fd ≠ some c

variable {s s' : TwoPollers κ} {st : κ → Standing} {a : Call κ} {c d : κ}

omit [DecidableEq κ] in
theorem Initial.alike (h : Initial s) : Alike s fun _ => .fresh := by
  have hchannel : ∀ c, s.epoll.channels c = Channel.new (s.epoll.channels c).fd := h.epoll.fresh
  refine ⟨h.epoll.mirror, h.poll.slots, ?_, ?_, ?_, ?_, ?_⟩
  · intro fd e he
    rw [h.epoll.unwatched] at he
    cases he
  · exact fun c => by rw [h.same]
  · exact fun c => by rw [h.same]
  · intro c
    refine Or.inl ⟨rfl, ?_⟩
    rw [hchannel c]
    rfl
  · intro c _
    rw [h.poll.unmapped]
    simp

/-! ## Agreement -/

omit [DecidableEq κ] in
theorem Alike.epoll_watches (h : Alike s st) (w : Int × BitVec 32) : w ∈ s.epoll.watches ↔
    ∃ c, st c = .registered ∧ (s.poll.channels c).fd = w.1 ∧ (s.poll.channels c).events = w.2 := by
  constructor
  · rintro ⟨e, he, hevents⟩
    obtain ⟨c, hc⟩ := h.own _ _ he
    rw [← hc] at he
    rcases h.mirror.mirrorAt c with ⟨_, _, hnone⟩ | ⟨_, _, hnone⟩ | ⟨hindex, _, hsome⟩
    · rw [hnone] at he
      cases he
    · rw [hnone] at he
      cases he
    · rw [hsome, Option.some.injEq] at he
      refine ⟨c, ?_, (h.fd c).symm.trans hc, ?_⟩
      · rcases h.standing c with ⟨_, hnew⟩ | ⟨hst, _⟩
        · rw [hindex] at hnew
          cases hnew
        · exact hst
      · rw [← h.events, ← hevents, ← he]
  · rintro ⟨c, hst, hfd, hevents⟩
    rcases h.standing c with ⟨hfresh, _⟩ | ⟨_, hadded⟩
    · rw [hst] at hfresh
      cases hfresh
    · rcases h.mirror.mirrorAt c with ⟨hindex, _, _⟩ | ⟨hindex, _, _⟩ | ⟨_, _, hsome⟩
      · rw [hadded] at hindex
        cases hindex
      · rw [hadded] at hindex
        cases hindex
      · rw [h.fd, hfd] at hsome
        exact ⟨_, hsome, (h.events c).trans hevents⟩

omit [DecidableEq κ] in
theorem Alike.poll_watches (h : Alike s st) (w : Int × BitVec 32) : w ∈ s.poll.watches ↔
    ∃ c, st c = .registered ∧ (s.poll.channels c).fd = w.1 ∧ (s.poll.channels c).events = w.2 := by
  constructor
  · rintro ⟨slot, hmem, hfd, hevents⟩
    obtain ⟨i, hi⟩ := List.getElem?_of_mem hmem
    obtain ⟨c, hc, hci⟩ := h.slots.owner i (List.getElem?_eq_some_iff.1 hi).1
    have hslot := h.slots.slot c hc
    rw [PollPoller.slotOf, hci, Int.toNat_natCast, hi, Option.some.injEq] at hslot
    rw [hslot] at hfd hevents
    exact ⟨c, hc, hfd, (h.slots.masked c).signExtend.symm.trans hevents⟩
  · rintro ⟨c, hst, hfd, hevents⟩
    refine ⟨_, List.mem_of_getElem? (h.slots.slot c hst), hfd, ?_⟩
    exact (h.slots.masked c).signExtend.trans hevents

theorem Alike.agree (h : Alike s st) : Agree s := by
  refine ⟨?_, fun c => ?_⟩
  · ext w
    rw [h.epoll_watches, h.poll_watches]
  · rcases h.standing c with ⟨hfresh, hnew⟩ | ⟨hst, hadded⟩
    · have hpoll := h.unmapped c hfresh
      rcases h.mirror.mirrorAt c with ⟨_, hnone, _⟩ | ⟨hindex, _, _⟩ | ⟨hindex, _, _⟩
      · simp [EpollPoller.hasChannel, PollPoller.hasChannel, hnone, hpoll]
      · rw [hnew] at hindex
        cases hindex
      · rw [hnew] at hindex
        cases hindex
    · have hpoll := h.slots.mapped c (by simp [hst])
      rcases h.mirror.mirrorAt c with ⟨hindex, _, _⟩ | ⟨hindex, _, _⟩ | ⟨_, hsome, _⟩
      · rw [hadded] at hindex
        cases hindex
      · rw [hadded] at hindex
        cases hindex
      · simp [EpollPoller.hasChannel, PollPoller.hasChannel, hsome, hpoll]

/-! ## One call on both -/

theorem Alike.step_eq (h : Alike s st) :
    (machine κ).step s a = (s.poll.call a).map fun q => ⟨s.epoll.call a, q⟩ := by
  have hepoll : (EpollPoller.machine κ).step s.epoll a = some (s.epoll.call a) := by
    simp [EpollPoller.machine, h.mirror.running]
  simp [machine, hepoll]

/-- A change that keeps the channel watched registers it with both, in the same form. -/
theorem Alike.change {ch : Channel.Change} (h : Alike s st)
    (ha : KeepsWatching s (.change c ch)) :
    ∃ s', (machine κ).step s (.change c ch) = some s' ∧
      Alike s' (Function.update st c .registered) := by
  have hproper : PollPoller.Proper st (.change c ch) := by
    rcases h.standing c with ⟨hc, _⟩ | ⟨hc, _⟩ <;> simp [PollPoller.Proper, hc]
  obtain ⟨q, hq, hslots, huntouched⟩ := h.slots.proper hproper
  have hkeep : (s.epoll.channels c).index ≠ kAdded ∨
      ((s.epoll.channels c).change ch).isNoneEvent = false := by
    rcases h.standing c with ⟨_, hnew⟩ | ⟨hc, _⟩
    · rw [hnew]
      exact Or.inl (by decide)
    · have hpos := h.slots.stale c (by simp [hc])
      have hsome := ha.resolve_left (by omega)
      simpa [Channel.isNoneEvent, Channel.change, h.events] using Or.inr hsome
  have hwrite := h.mirror.call_change hkeep
  have hpoll := PollPoller.call_change hq
  refine ⟨⟨s.epoll.call (.change c ch), q⟩, ?_, ?_⟩
  · rw [h.step_eq, hq]
    rfl
  have hmirror := EpollPoller.mirror_change h.mirror c ch
  rw [hwrite] at hmirror ⊢
  have hfds : ∀ d, (Function.update s.epoll.channels c
      { (s.epoll.channels c).change ch with index := kAdded } d).fd = (s.epoll.channels d).fd := by
    intro d
    by_cases hd : d = c
    · subst hd
      simp [Channel.change]
    · simp [hd]
  refine ⟨hmirror, hslots, ?_, ?_, ?_, ?_, ?_⟩
  · intro fd e he
    by_cases hfd : fd = (s.epoll.channels c).fd
    · exact ⟨c, (hfds c).trans hfd.symm⟩
    · have hold : s.epoll.epollSet fd = some e := by simpa [EpollPoller.write, hfd] using he
      obtain ⟨d, hd⟩ := h.own fd e hold
      exact ⟨d, (hfds d).trans hd⟩
  · intro d
    rw [(hpoll d).1, ← h.fd]
    exact hfds d
  · intro d
    rw [(hpoll d).2]
    by_cases hd : d = c
    · simp [EpollPoller.write, hd, Channel.change, h.events]
    · simp [EpollPoller.write, hd, h.events]
  · intro d
    by_cases hd : d = c
    · simp [EpollPoller.write, hd]
    · simpa [EpollPoller.write, hd] using h.standing d
  · intro d hst
    have hd : d ≠ c := by
      rintro rfl
      simp at hst
    rw [Function.update_of_ne hd] at hst
    rw [(hpoll d).1, (huntouched d hd).1]
    exact h.unmapped d hst

/-- A removed channel stays in `channel_maps_` of the poll poller only, and one it never
had takes it out of its list. -/
theorem Alike.remove (h : Alike s st) (hs : (machine κ).step s (.remove c) = some s') :
    ¬ Agree s' := by
  intro hagree
  rw [h.step_eq] at hs
  obtain ⟨q, hq, rfl⟩ := Option.map_eq_some_iff.1 hs
  rcases h.standing c with ⟨hc, _⟩ | ⟨hc, _⟩
  · have hindex := h.slots.fresh c hc
    simp only [PollPoller.call, PollPoller.removeChannel, hindex] at hq
    split at hq
    · cases hq
    · rename_i last hlast
      have hlen : 0 < s.poll.pollList.length := by
        cases hlist : s.poll.pollList with
        | nil => simp [hlist] at hlast
        | cons slot rest => simp
      rw [if_neg (by omega), if_neg (by omega)] at hq
      cases hq
  · obtain ⟨q', hq', hslots, _⟩ := h.slots.remove hc
    rw [hq, Option.some.injEq] at hq'
    subst hq'
    have hpoll : q.hasChannel c = true := by
      simp [PollPoller.hasChannel, hslots.mapped c]
    have hepoll : (s.epoll.call (.remove c)).hasChannel c = false := by
      rw [h.mirror.call_remove]
      simp [EpollPoller.hasChannel, EpollPoller.write]
    have hsame := hagree.2 c
    rw [hpoll, hepoll] at hsame
    cases hsame

/-- A registered channel whose mask becomes empty leaves the epoll set but keeps its slot. -/
theorem Alike.change_none {ch : Channel.Change} (h : Alike s st)
    (hindex : 0 ≤ (s.poll.channels c).index)
    (hnone : ((s.poll.channels c).change ch).isNoneEvent = true)
    (hs : (machine κ).step s (.change c ch) = some s') : ¬ Agree s' := by
  intro hagree
  rw [h.step_eq] at hs
  obtain ⟨q, hq, rfl⟩ := Option.map_eq_some_iff.1 hs
  have hc : st c = .registered ∧ (s.epoll.channels c).index = kAdded := by
    refine (h.standing c).resolve_left ?_
    rintro ⟨hc, _⟩
    have hfresh := h.slots.fresh c hc
    omega
  obtain ⟨q', hq', hslots, _⟩ := h.slots.modify hc.1 ch
  rw [hq, Option.some.injEq] at hq'
  subst hq'
  have hslot := hslots.slot c (by simp)
  have hwatched : ((q.channels c).fd, (q.channels c).events) ∈ q.watches :=
    ⟨_, List.mem_of_getElem? hslot, rfl, (hslots.masked c).signExtend⟩
  rw [← hagree.1] at hwatched
  obtain ⟨e, he, _⟩ := hwatched
  have hnone' : ((s.epoll.channels c).change ch).isNoneEvent = true := by
    simpa [Channel.isNoneEvent, Channel.change, h.events] using hnone
  rw [h.mirror.call_change_none hc.2 hnone', (PollPoller.call_change hq c).1, ← h.fd] at he
  simp [EpollPoller.write] at he

/-! ## Sequences of calls -/

theorem alike_of_reach (h : (machine κ).Reach KeepsWatching s) : ∃ st, Alike s st := by
  induction h with
  | start hstart => exact ⟨_, hstart.alike⟩
  | step _ ha hs ih =>
      obtain ⟨st, hst⟩ := ih
      cases ‹Call κ› with
      | change c ch =>
          obtain ⟨t, ht, halike⟩ := hst.change ha
          rw [hs, Option.some.injEq] at ht
          exact ⟨_, ht ▸ halike⟩
      | remove c => exact ha.elim

theorem Alike.agree_iff (h : Alike s st) :
    (∃ s', (machine κ).step s a = some s' ∧ Agree s') ↔ KeepsWatching s a := by
  constructor
  · rintro ⟨s', hs, hagree⟩
    cases a with
    | change c ch =>
        by_contra hnot
        simp only [KeepsWatching, not_or, not_lt, Bool.not_eq_false] at hnot
        exact h.change_none hnot.1 hnot.2 hs hagree
    | remove c => exact h.remove hs hagree
  · intro ha
    cases a with
    | change c ch =>
        obtain ⟨s', hs, halike⟩ := h.change ha
        exact ⟨s', hs, halike.agree⟩
    | remove c => exact ha.elim

/-- As long as no channel is removed and no registered one left with an empty mask, the
two pollers watch the same pairs and answer `HasChannel` alike; the first other call
fails in the poll poller or ends that. -/
theorem pollers_agree_iff (h : (machine κ).Reach KeepsWatching s) :
    Agree s ∧ ∀ a, (∃ s', (machine κ).step s a = some s' ∧ Agree s') ↔ KeepsWatching s a := by
  obtain ⟨st, hst⟩ := alike_of_reach h
  exact ⟨hst.agree, fun a => hst.agree_iff⟩

def twoChannels : TwoPollers Bool where
  epoll := EpollPoller.twoChannels
  poll := PollPoller.twoChannels

theorem initial_twoChannels : Initial twoChannels := by
  refine ⟨⟨?_, ?_, ?_, ?_, ?_, ?_⟩, PollPoller.initial_twoChannels, fun _ => rfl⟩
  · intro c d hcd
    revert c d
    decide
  all_goals
    intros
    rfl

theorem pollers_agree_twoChannels : ∃ s, (machine Bool).Reach KeepsWatching s ∧
    (s.poll.channels true).events = 3#32 ∧ Agree s := by
  obtain ⟨s, hs, htest⟩ := Machine.Reach.of_test (machine Bool) KeepsWatching
    (fun s => (s.poll.channels true).events == 3#32)
    [.change false .disableAll, .change true .enableRead, .change true .enableWrite,
      .change true .disableWrite] (.start initial_twoChannels) (by decide +kernel)
  exact ⟨s, hs, by simpa using htest, (pollers_agree_iff hs).1⟩

/-- `Remove` of an enabled channel: `HasChannel` says no in one poller, yes in the other. -/
theorem removed_still_had : ¬ ∀ s : TwoPollers Bool,
    (machine Bool).Reach (fun _ _ => True) s → Agree s := by
  intro hclaim
  obtain ⟨s, hs, htest⟩ := Machine.Reach.of_test (machine Bool) (fun _ _ => True)
    (fun s => s.epoll.hasChannel true != s.poll.hasChannel true)
    [.change true .enableRead, .remove true] (.start initial_twoChannels) (by decide +kernel)
  rw [(hclaim s hs).2] at htest
  simp at htest

end TwoPollers

end MyNetLib
