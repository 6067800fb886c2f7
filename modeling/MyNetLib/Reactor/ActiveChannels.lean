import MyNetLib.Reactor.TwoPollers

/-! # What a poll hands to the loop (`src/epoll_poller.cc`, `src/poll_poller.cc`)

`Polling` of both pollers, for a kernel that reports what is ready now. `::epoll_wait`
fills the `events_` array, which is doubled when it came back full; `::poll` writes
`revents` into every slot, so that nothing of an earlier poll is read again.
-/

namespace MyNetLib

open Library

/-- What is reported of a descriptor with this mask: what was asked for that is ready,
errors and hang-ups. -/
def reported (ready : Int → BitVec 32) (fd : Int) (events : BitVec 32) : BitVec 32 :=
  ready fd &&& (events ||| Channel.POLLERR ||| Channel.POLLHUP)

/-! ## The epoll poller -/

namespace EpollPoller

variable {κ : Type}

def report (set : Int → Option (Event κ)) (ready : Int → BitVec 32) (fd : Int) :
    Option (Event κ) :=
  (set fd).bind fun e =>
    if reported ready fd e.events = 0#32 then none else some ⟨reported ready fd e.events, e.ptr⟩

/-- The results of an `::epoll_wait` with room for `maxEvents`: a ready descriptor is
reported once, and none is left out while there is room. -/
structure Waited (set : Int → Option (Event κ)) (ready : Int → BitVec 32) (maxEvents : Nat)
    (events : List (Event κ)) : Prop where
  room : events.length ≤ maxEvents
  once : ∃ fds : List Int, fds.Nodup ∧ events.map some = fds.map (report set ready)
  all : events.length < maxEvents → ∀ fd e, report set ready fd = some e → e ∈ events

/-- Channel and revents, in the order of the results. -/
def fillActiveChannels (events : List (Event κ)) : List (κ × BitVec 32) :=
  events.map fun e => (e.ptr, e.events)

def kInitEventSize : Nat := 16

/-- `events_.size()` after a poll with `readyNum` results. -/
def grown (size readyNum : Nat) : Nat :=
  if 0 < readyNum ∧ readyNum = size then size * 2 else size

end EpollPoller

/-- The poller with the size of its `events_` and the `active_channels` of the last poll. -/
structure EpollPolling (κ : Type) where
  poller : EpollPoller κ
  eventsSize : Nat
  active : List (κ × BitVec 32)

namespace EpollPolling

open EpollPoller

variable {κ : Type} [DecidableEq κ]

inductive Label (κ : Type) where
  | call (a : Call κ)
  | polling (ready : Int → BitVec 32) (events : List (Event κ))
  | pollingFailed

/-- The loop clears `active_channels_` before every poll. -/
def step (s : EpollPolling κ) : Label κ → Option (EpollPolling κ)
  | .call a => ((EpollPoller.machine κ).step s.poller a).map fun p => { s with poller := p }
  | .polling _ events =>
      some { s with
        active := fillActiveChannels events
        eventsSize := grown s.eventsSize events.length }
  | .pollingFailed => some { s with active := [] }

def machine (κ : Type) [DecidableEq κ] : Machine (EpollPolling κ) (Label κ) where
  start s := s.poller.Initial ∧ s.eventsSize = kInitEventSize ∧ s.active = []
  step := step

/-- No more than `n` descriptors are watched. -/
def WatchesAtMost (p : EpollPoller κ) (n : Nat) : Prop :=
  ∀ fds : List Int, fds.Nodup → (∀ fd ∈ fds, (p.epollSet fd).isSome = true) → fds.length ≤ n

/-- The kernel answers as `Waited` says; at most `n` descriptors are watched then. -/
def Answers (n : Nat) (s : EpollPolling κ) : Label κ → Prop
  | .polling ready events =>
      Waited s.poller.epollSet ready s.eventsSize events ∧ WatchesAtMost s.poller n
  | _ => True

end EpollPolling

namespace EpollPoller

variable {κ : Type} {p : EpollPoller κ} {ready : Int → BitVec 32} {size : Nat}
  {events : List (Event κ)} {fd : Int} {e : Event κ} {c : κ}

/-! ### The results of one call -/

/-- Every watched descriptor is that of a channel. -/
def Owned (p : EpollPoller κ) : Prop :=
  ∀ fd e, p.epollSet fd = some e → ∃ c, (p.channels c).fd = fd

theorem Owned.write [DecidableEq κ] (h : Owned p) {channel : Channel} {entry : Option κ}
    {watched : Option (Event κ)} (hfd : channel.fd = (p.channels c).fd) :
    Owned (p.write c channel entry watched) := by
  have hfds : ∀ d, ((p.write c channel entry watched).channels d).fd = (p.channels d).fd := by
    intro d
    by_cases hd : d = c
    · subst hd
      simp [EpollPoller.write, hfd]
    · simp [EpollPoller.write, hd]
  intro fd e he
  by_cases hown : fd = (p.channels c).fd
  · exact ⟨c, (hfds c).trans hown.symm⟩
  · have hold : p.epollSet fd = some e := by simpa [EpollPoller.write, hown] using he
    obtain ⟨d, hd⟩ := h fd e hold
    exact ⟨d, (hfds d).trans hd⟩

theorem Owned.call [DecidableEq κ] (h : Owned p) (hm : Mirror p) (a : Call κ) :
    Owned (p.call a) := by
  cases a with
  | change c ch =>
      by_cases hout : (p.channels c).index = kAdded ∧ ((p.channels c).change ch).isNoneEvent = true
      · rw [hm.call_change_none hout.1 hout.2]
        exact h.write rfl
      · have hkeep : (p.channels c).index ≠ kAdded ∨
            ((p.channels c).change ch).isNoneEvent = false := by
          rw [← Bool.not_eq_true]
          exact not_and_or.1 hout
        rw [hm.call_change hkeep]
        exact h.write rfl
  | remove c =>
      rw [hm.call_remove]
      exact h.write rfl

/-- The kernel reports the registered channels, each with what is ready of its own mask. -/
theorem report_eq_some (hm : Mirror p) (ho : Owned p) :
    report p.epollSet ready fd = some e ↔ ∃ c, (p.channels c).fd = fd ∧
      (p.channels c).index = kAdded ∧ reported ready fd (p.channels c).events ≠ 0#32 ∧
      e = ⟨reported ready fd (p.channels c).events, c⟩ := by
  constructor
  · intro h
    obtain ⟨w, hw, h⟩ := Option.bind_eq_some_iff.1 h
    split at h
    · cases h
    · rename_i hsome
      obtain ⟨c, hc⟩ := ho fd w hw
      rw [← hc] at hw
      rcases hm.mirrorAt c with ⟨_, _, hnone⟩ | ⟨_, _, hnone⟩ | ⟨hindex, _, hset⟩
      · rw [hnone] at hw
        cases hw
      · rw [hnone] at hw
        cases hw
      · rw [hset, Option.some.injEq] at hw
        subst hw
        exact ⟨c, hc, hindex, hsome, (Option.some.inj h).symm⟩
  · rintro ⟨c, rfl, hindex, hsome, rfl⟩
    rcases hm.mirrorAt c with ⟨hnew, _, _⟩ | ⟨hdel, _, _⟩ | ⟨_, _, hset⟩
    · rw [hindex] at hnew
      cases hnew
    · rw [hindex] at hdel
      cases hdel
    · rw [report, hset, Option.bind_some, if_neg hsome]

theorem Waited.report_of_mem (h : Waited p.epollSet ready size events) (he : e ∈ events) :
    ∃ fd, report p.epollSet ready fd = some e := by
  obtain ⟨fds, _, hmap⟩ := h.once
  have hmem : some e ∈ fds.map (report p.epollSet ready) := by
    rw [← hmap]
    exact List.mem_map_of_mem he
  obtain ⟨fd, _, hfd⟩ := List.mem_map.1 hmem
  exact ⟨fd, hfd⟩

theorem Waited.fds_nodup (hm : Mirror p) (ho : Owned p)
    (h : Waited p.epollSet ready size events) :
    (events.map fun e => (p.channels e.ptr).fd).Nodup ∧
      ∀ e ∈ events, report p.epollSet ready (p.channels e.ptr).fd = some e := by
  have hptr : ∀ fd e, report p.epollSet ready fd = some e → (p.channels e.ptr).fd = fd := by
    intro fd e he
    obtain ⟨c, hc, _, _, rfl⟩ := (report_eq_some hm ho).1 he
    exact hc
  refine ⟨?_, fun e he => ?_⟩
  · obtain ⟨fds, hnodup, hmap⟩ := h.once
    have hfds : (events.map fun e => (p.channels e.ptr).fd).map some = fds.map some := by
      have hone := congrArg (List.map (Option.map fun e => (p.channels e.ptr).fd)) hmap
      simp only [List.map_map] at hone
      rw [List.map_map]
      refine Eq.trans hone (List.map_congr_left fun fd hfd => ?_)
      have hmem : report p.epollSet ready fd ∈ events.map some := by
        rw [hmap]
        exact List.mem_map_of_mem hfd
      obtain ⟨e, _, he⟩ := List.mem_map.1 hmem
      simp [← he, hptr fd e he.symm]
    rw [List.map_injective_iff.2 (Option.some_injective Int) hfds]
    exact hnodup
  · obtain ⟨fd, hfd⟩ := h.report_of_mem he
    rw [hptr fd e hfd]
    exact hfd

theorem mem_fillActiveChannels {r : BitVec 32} :
    (c, r) ∈ fillActiveChannels events ↔ (⟨r, c⟩ : Event κ) ∈ events := by
  simp only [fillActiveChannels, List.mem_map, Prod.mk.injEq]
  constructor
  · rintro ⟨e, he, rfl, rfl⟩
    exact he
  · intro h
    exact ⟨_, h, rfl, rfl⟩

/-- Each channel is in the list once, registered, with what is ready of its mask; and none
is missing while the array is longer. -/
theorem Waited.active (hm : Mirror p) (ho : Owned p) (h : Waited p.epollSet ready size events) :
    ((fillActiveChannels events).map Prod.fst).Nodup ∧
      (∀ c r, (c, r) ∈ fillActiveChannels events → (p.channels c).index = kAdded ∧
        r = reported ready (p.channels c).fd (p.channels c).events ∧ r ≠ 0#32) ∧
      (events.length < size → ∀ c, (p.channels c).index = kAdded →
        reported ready (p.channels c).fd (p.channels c).events ≠ 0#32 →
        (c, reported ready (p.channels c).fd (p.channels c).events) ∈
          fillActiveChannels events) := by
  obtain ⟨hnodup, hreport⟩ := h.fds_nodup hm ho
  refine ⟨?_, ?_, ?_⟩
  · apply List.Nodup.of_map fun c => (p.channels c).fd
    simpa [fillActiveChannels, List.map_map, Function.comp_def] using hnodup
  · intro c r hc
    have hsome := hreport _ (mem_fillActiveChannels.1 hc)
    obtain ⟨d, hd, hindex, hne, heq⟩ := (report_eq_some hm ho).1 hsome
    have hcd : d = c := hm.distinct hd
    subst hcd
    have hr : r = reported ready (p.channels d).fd (p.channels d).events :=
      congrArg Event.events heq
    exact ⟨hindex, hr, hr ▸ hne⟩
  · intro hroom c hindex hne
    refine mem_fillActiveChannels.2 (h.all hroom (p.channels c).fd _ ?_)
    exact (report_eq_some hm ho).2 ⟨c, rfl, hindex, hne, rfl⟩

/-- The other way round: the kernel may answer with any of the channels that have something
to report, if it leaves none out while there is room. -/
theorem waited_of_channels {cs : List κ} (hm : Mirror p) (ho : Owned p) (hnodup : cs.Nodup)
    (hcs : ∀ c ∈ cs, (p.channels c).index = kAdded ∧
      reported ready (p.channels c).fd (p.channels c).events ≠ 0#32)
    (hroom : cs.length ≤ size)
    (hall : cs.length < size → ∀ c, (p.channels c).index = kAdded →
      reported ready (p.channels c).fd (p.channels c).events ≠ 0#32 → c ∈ cs) :
    Waited p.epollSet ready size
      (cs.map fun c => ⟨reported ready (p.channels c).fd (p.channels c).events, c⟩) := by
  refine ⟨by simpa using hroom, ⟨cs.map fun c => (p.channels c).fd, ?_, ?_⟩, ?_⟩
  · exact hnodup.map hm.distinct
  · rw [List.map_map, List.map_map]
    refine List.map_congr_left fun c hc => ?_
    exact ((report_eq_some hm ho).2 ⟨c, rfl, (hcs c hc).1, (hcs c hc).2, rfl⟩).symm
  · intro hshort fd e he
    obtain ⟨c, rfl, hindex, hne, rfl⟩ := (report_eq_some hm ho).1 he
    rw [List.length_map] at hshort
    exact List.mem_map_of_mem (hall hshort c hindex hne)

end EpollPoller

namespace EpollPolling

open EpollPoller

variable {κ : Type} [DecidableEq κ] {s s' : EpollPolling κ} {a : Label κ} {n : Nat}

/-! ### Whole runs -/

/-- The array is doubled only after it came back full, and then it had an entry for
each of so many watched descriptors. -/
structure Tracked (n : Nat) (s : EpollPolling κ) : Prop where
  mirror : s.poller.Mirror
  owned : s.poller.Owned
  initial_le : kInitEventSize ≤ s.eventsSize
  le_twice : s.eventsSize ≤ max kInitEventSize (2 * n)

omit [DecidableEq κ] in
theorem length_le_watched {events : List (Event κ)} {ready : Int → BitVec 32} {size : Nat}
    (hw : Waited s.poller.epollSet ready size events) (hn : WatchesAtMost s.poller n) :
    events.length ≤ n := by
  obtain ⟨fds, hnodup, hmap⟩ := hw.once
  have hlen : events.length = fds.length := by
    simpa using congrArg List.length hmap
  rw [hlen]
  apply hn fds hnodup
  intro fd hfd
  have hmem : report s.poller.epollSet ready fd ∈ events.map some := by
    rw [hmap]
    exact List.mem_map_of_mem hfd
  obtain ⟨e, _, he⟩ := List.mem_map.1 hmem
  obtain ⟨w, hset, _⟩ := Option.bind_eq_some_iff.1 he.symm
  rw [hset]
  rfl

omit [DecidableEq κ] in
theorem watchesAtMost_card [Fintype κ] {p : EpollPoller κ} (ho : p.Owned) :
    WatchesAtMost p (Fintype.card κ) := by
  intro fds hnodup hwatched
  have hsub : fds.toFinset ⊆ Finset.univ.image fun c => (p.channels c).fd := by
    intro fd hfd
    obtain ⟨e, he⟩ := Option.isSome_iff_exists.1 (hwatched fd (List.mem_toFinset.1 hfd))
    obtain ⟨c, hc⟩ := ho fd e he
    exact Finset.mem_image.2 ⟨c, Finset.mem_univ c, hc⟩
  calc fds.length = fds.toFinset.card := (List.toFinset_card_of_nodup hnodup).symm
    _ ≤ (Finset.univ.image fun c => (p.channels c).fd).card := Finset.card_le_card hsub
    _ ≤ Fintype.card κ := Finset.card_image_le

theorem Tracked.step (h : Tracked n s) (ha : Answers n s a) (hs : s.step a = some s') :
    Tracked n s' := by
  cases a with
  | call a =>
      obtain ⟨p, hp, rfl⟩ := Option.map_eq_some_iff.1 hs
      have hcall : (if s.poller.aborted then none else some (s.poller.call a)) = some p := hp
      rw [h.mirror.running, if_neg Bool.false_ne_true, Option.some.injEq] at hcall
      refine ⟨mirror_step h.mirror hp, ?_, h.initial_le, h.le_twice⟩
      rw [← hcall]
      exact h.owned.call h.mirror a
  | polling ready events =>
      cases hs
      have hle := length_le_watched ha.1 ha.2
      have hsize := h.initial_le
      have htwice := h.le_twice
      refine ⟨h.mirror, h.owned, ?_, ?_⟩
      · show _ ≤ grown s.eventsSize events.length
        unfold grown
        split <;> omega
      · show grown s.eventsSize events.length ≤ _
        unfold grown
        split <;> omega
  | pollingFailed =>
      cases hs
      exact ⟨h.mirror, h.owned, h.initial_le, h.le_twice⟩

theorem tracked_of_reach (h : (machine κ).Reach (Answers n) s) : Tracked n s := by
  refine h.invariant ?_ ?_
  · rintro t ⟨hinit, hsize, _⟩
    refine ⟨hinit.mirror, ?_, hsize.ge, ?_⟩
    · intro fd e he
      rw [hinit.unwatched] at he
      cases he
    · rw [hsize]
      exact Nat.le_max_left _ _
  · intro t a t' ht ha hs
    exact ht.step ha hs

/-- A poll gives the loop each channel once, registered and with its own revents, and
every ready one while the array is longer than the results; the array stays below twice
the number of watched descriptors, or at its first size. -/
theorem active_channels_exact (h : (machine κ).Reach (Answers n) s) (ready : Int → BitVec 32)
    (events : List (Event κ)) (ha : Answers n s (.polling ready events))
    (hs : s.step (.polling ready events) = some s') :
    (s'.active.map Prod.fst).Nodup ∧
      (∀ c r, (c, r) ∈ s'.active → s'.poller.hasChannel c = true ∧
        r = reported ready (s'.poller.channels c).fd (s'.poller.channels c).events ∧ r ≠ 0#32) ∧
      (s'.active.length < s.eventsSize → ∀ c, (s'.poller.channels c).index = kAdded →
        reported ready (s'.poller.channels c).fd (s'.poller.channels c).events ≠ 0#32 →
        c ∈ s'.active.map Prod.fst) ∧
      kInitEventSize ≤ s'.eventsSize ∧ s'.eventsSize ≤ max kInitEventSize (2 * n) := by
  have ht := tracked_of_reach h
  have ht' := ht.step ha hs
  cases hs
  obtain ⟨hnodup, hown, hall⟩ := ha.1.active ht.mirror ht.owned
  refine ⟨hnodup, ?_, ?_, ht'.initial_le, ht'.le_twice⟩
  · intro c r hc
    obtain ⟨hindex, hr, hne⟩ := hown c r hc
    refine ⟨?_, hr, hne⟩
    rcases ht.mirror.mirrorAt c with ⟨hnew, _, _⟩ | ⟨_, hmap, _⟩ | ⟨_, hmap, _⟩
    · rw [hindex] at hnew
      cases hnew
    · simp [hasChannel, hmap]
    · simp [hasChannel, hmap]
  · intro hroom c hindex hne
    rw [fillActiveChannels, List.length_map] at hroom
    exact List.mem_map_of_mem (f := Prod.fst) (hall hroom c hindex hne)

/-! ### Catching up -/

def pollAgain (ready : Int → BitVec 32) (s : EpollPolling κ) :
    List (List (Event κ)) → Option (EpollPolling κ)
  | [] => some s
  | events :: rest => (s.step (.polling ready events)).bind fun s' => pollAgain ready s' rest

/-- Every poll of the list is one the kernel can answer. -/
def AllWaited (ready : Int → BitVec 32) : EpollPolling κ → List (List (Event κ)) → Prop
  | _, [] => True
  | s, events :: rest =>
      Waited s.poller.epollSet ready s.eventsSize events ∧
        ∀ s', s.step (.polling ready events) = some s' → AllWaited ready s' rest

/-- `fds` are the descriptors with something to report. -/
def ReadyAre (s : EpollPolling κ) (ready : Int → BitVec 32) (fds : List Int) : Prop :=
  fds.Nodup ∧ ∀ fd, fd ∈ fds ↔ (report s.poller.epollSet ready fd).isSome = true

omit [DecidableEq κ] in
/-- A shorter result than the array is everything there is. -/
theorem length_ready_le (ht : Tracked n s) {ready : Int → BitVec 32} {fds : List Int}
    {events : List (Event κ)} (hf : ReadyAre s ready fds)
    (hw : Waited s.poller.epollSet ready s.eventsSize events)
    (hroom : events.length < s.eventsSize) : fds.length ≤ events.length := by
  have hsub : fds ⊆ events.map fun e => (s.poller.channels e.ptr).fd := by
    intro fd hfd
    obtain ⟨e, he⟩ := Option.isSome_iff_exists.1 ((hf.2 fd).1 hfd)
    obtain ⟨c, hc, _, _, rfl⟩ := (report_eq_some ht.mirror ht.owned).1 he
    rw [← hc]
    exact List.mem_map_of_mem (f := fun e : Event κ => (s.poller.channels e.ptr).fd)
      (hw.all hroom fd _ he)
  simpa using (hf.1.subperm hsub).length_le

omit [DecidableEq κ] in
theorem length_le_ready (ht : Tracked n s) {ready : Int → BitVec 32} {fds : List Int}
    {events : List (Event κ)} {size : Nat} (hf : ReadyAre s ready fds)
    (hw : Waited s.poller.epollSet ready size events) : events.length ≤ fds.length := by
  obtain ⟨hnodup, hreport⟩ := hw.fds_nodup ht.mirror ht.owned
  have hsub : (events.map fun e => (s.poller.channels e.ptr).fd) ⊆ fds := by
    intro fd hfd
    obtain ⟨e, he, rfl⟩ := List.mem_map.1 hfd
    rw [hf.2, hreport e he]
    rfl
  simpa using (hnodup.subperm hsub).length_le

theorem pollAgain_size {ready : Int → BitVec 32} {fds : List Int} {polls : List (List (Event κ))}
    (ht : Tracked n s) (hn : WatchesAtMost s.poller n) (hf : ReadyAre s ready fds)
    (hw : AllWaited ready s polls) (hrun : s.pollAgain ready polls = some s')
    (hlong : fds.length < s.eventsSize * 2 ^ polls.length) :
    s'.poller = s.poller ∧ Tracked n s' ∧ fds.length < s'.eventsSize := by
  induction polls generalizing s with
  | nil =>
      cases hrun
      exact ⟨rfl, ht, by simpa using hlong⟩
  | cons events rest ih =>
      obtain ⟨hone, hmore⟩ := hw
      have ht₁ := ht.step (a := .polling ready events) ⟨hone, hn⟩ rfl
      have hinit := ht.initial_le
      have hpos : 0 < kInitEventSize := by decide
      have htwo : 0 < 2 ^ rest.length := Nat.two_pow_pos _
      have hshort : fds.length < grown s.eventsSize events.length * 2 ^ rest.length := by
        by_cases hfull : events.length = s.eventsSize
        · rw [grown, if_pos ⟨by omega, hfull⟩]
          calc fds.length < s.eventsSize * 2 ^ (rest.length + 1) := hlong
            _ = s.eventsSize * 2 * 2 ^ rest.length := by ring
        · have hroom : events.length < s.eventsSize := lt_of_le_of_ne hone.room hfull
          have hle := length_ready_le ht hf hone hroom
          rw [grown, if_neg fun h => hfull h.2]
          calc fds.length < s.eventsSize := by omega
            _ ≤ s.eventsSize * 2 ^ rest.length := Nat.le_mul_of_pos_right _ htwo
      have hrest := ih ht₁ hn hf (hmore _ rfl) hrun hshort
      exact hrest

/-- However many descriptors are ready: after `k` polls of a poller that is not called in
between, with `16 * 2 ^ k` above their number, a poll reports all of them. -/
theorem epoll_catches_up (ready : Int → BitVec 32) (fds : List Int)
    (polls : List (List (Event κ))) (events : List (Event κ))
    (h : (machine κ).Reach (Answers n) s) (hn : WatchesAtMost s.poller n)
    (hf : ReadyAre s ready fds) (hw : AllWaited ready s polls)
    (hrun : s.pollAgain ready polls = some s')
    (hlong : fds.length < kInitEventSize * 2 ^ polls.length)
    (hlast : Waited s'.poller.epollSet ready s'.eventsSize events) :
    ∀ c, (s.poller.channels c).index = kAdded →
      reported ready (s.poller.channels c).fd (s.poller.channels c).events ≠ 0#32 →
      c ∈ (fillActiveChannels events).map Prod.fst := by
  have ht := tracked_of_reach h
  have hlonger : fds.length < s.eventsSize * 2 ^ polls.length :=
    lt_of_lt_of_le hlong (Nat.mul_le_mul_right _ ht.initial_le)
  obtain ⟨hsame, ht', hfits⟩ := pollAgain_size ht hn hf hw hrun hlonger
  rw [hsame] at hlast
  have hroom : events.length < s'.eventsSize :=
    lt_of_le_of_lt (length_le_ready ht hf hlast) hfits
  intro c hindex hne
  exact List.mem_map_of_mem (f := Prod.fst)
    ((hlast.active ht.mirror ht.owned).2.2 hroom c hindex hne)

end EpollPolling

/-! ## The poll poller -/

namespace PollPoller

variable {κ : Type} {p : PollPoller κ} {st : κ → Standing} {maps : Int → Option κ}
  {slot : Pollfd} {slots : List Pollfd} {ready : Int → BitVec 32} {c : κ} {r : BitVec 16}

/-- A slot as `::poll` leaves it; its `short` masks are widened and cut again. -/
def polled (ready : Int → BitVec 32) (slot : Pollfd) : Pollfd :=
  { slot with revents := (reported ready slot.fd (slot.events.signExtend 32)).setWidth 16 }

/-- `Polling`; `::poll` returns the number of slots with something to report. -/
def polling (p : PollPoller κ) (ready : Int → BitVec 32) : List (κ × BitVec 16) :=
  let slots := p.pollList.map (polled ready)
  fillActive p.channelMaps (slots.countP fun slot => slot.revents != 0#16) slots

/-- What the loop of `FillActiveChannnels` takes from a slot. -/
def hit (maps : Int → Option κ) (slot : Pollfd) : Option (κ × BitVec 16) :=
  if 0 < slot.revents.toInt then (maps slot.fd).map fun c => (c, slot.revents) else none

theorem fillActive_eq_take (maps : Int → Option κ) (nready : Nat) (slots : List Pollfd) :
    fillActive maps nready slots = (slots.filterMap (hit maps)).take nready := by
  induction slots generalizing nready with
  | nil => cases nready <;> rfl
  | cons slot rest ih =>
      cases nready with
      | zero => rfl
      | succ nready =>
          unfold fillActive
          by_cases hpos : 0 < slot.revents.toInt
          · rw [if_pos hpos]
            cases hmap : maps slot.fd with
            | none =>
                have hmiss : hit maps slot = none := by simp [hit, hmap]
                rw [List.filterMap_cons_none hmiss]
                exact ih _
            | some c =>
                have htake : hit maps slot = some (c, slot.revents) := by simp [hit, hpos, hmap]
                rw [List.filterMap_cons_some htake, List.take_succ_cons]
                exact congrArg _ (ih nready)
          · have hmiss : hit maps slot = none := by simp [hit, hpos]
            rw [if_neg hpos, List.filterMap_cons_none hmiss]
            exact ih _

/-- Nothing that is reported for a mask of the channel operations is cut, or negative,
as a `short`. -/
theorem reported_short {events : BitVec 32} (hm : Channel.Masked events)
    (ready : Int → BitVec 32) (fd : Int) :
    (0 < ((reported ready fd events).setWidth 16).toInt ↔ reported ready fd events ≠ 0#32) ∧
      ((reported ready fd events).setWidth 16 = 0#16 ↔ reported ready fd events = 0#32) := by
  have hbound : (reported ready fd events).toNat ≤ 31 := by
    unfold reported
    rw [BitVec.toNat_and]
    refine le_trans Nat.and_le_right ?_
    rcases hm with rfl | rfl | rfl | rfl <;> decide
  have hwidth : ((reported ready fd events).setWidth 16).toNat =
      (reported ready fd events).toNat := by
    rw [BitVec.toNat_setWidth]
    exact Nat.mod_eq_of_lt (by omega)
  have hint : ((reported ready fd events).setWidth 16).toInt =
      (reported ready fd events).toNat := by
    rw [BitVec.toInt_eq_toNat_of_lt (by omega), hwidth]
  have hzero : reported ready fd events = 0#32 ↔ (reported ready fd events).toNat = 0 := by
    rw [← BitVec.toNat_inj]
    rfl
  have hzero' : (reported ready fd events).setWidth 16 = 0#16 ↔
      (reported ready fd events).toNat = 0 := by
    rw [← BitVec.toNat_inj, hwidth]
    rfl
  refine ⟨?_, hzero'.trans hzero.symm⟩
  rw [hint, ne_eq, hzero, Int.natCast_pos, Nat.pos_iff_ne_zero]

theorem Slots.slot_of_mem (h : Slots p st) (hs : slot ∈ p.pollList) :
    ∃ c, st c = .registered ∧ slot = pollfd (p.channels c) := by
  obtain ⟨i, hi⟩ := List.getElem?_of_mem hs
  obtain ⟨c, hc, hci⟩ := h.owner i (List.getElem?_eq_some_iff.1 hi).1
  have hslot := h.slot c hc
  rw [slotOf, hci, Int.toNat_natCast, hi, Option.some.injEq] at hslot
  exact ⟨c, hc, hslot⟩

theorem Slots.hit_polled (h : Slots p st) (hc : st c = .registered) :
    hit p.channelMaps (polled ready (pollfd (p.channels c))) =
      if reported ready (p.channels c).fd (p.channels c).events = 0#32 then none
      else some (c, (reported ready (p.channels c).fd (p.channels c).events).setWidth 16) := by
  have hmap := h.mapped c (by simp [hc])
  obtain ⟨hpos, _⟩ := reported_short (h.masked c) ready (p.channels c).fd
  unfold hit polled pollfd
  dsimp only
  rw [(h.masked c).signExtend, hmap, Option.map_some]
  by_cases hne : reported ready (p.channels c).fd (p.channels c).events = 0#32
  · rw [if_neg fun hlt => hpos.1 hlt hne, if_pos hne]
  · rw [if_pos (hpos.2 hne), if_neg hne]

theorem Slots.polling_eq (h : Slots p st) :
    p.polling ready = (p.pollList.map (polled ready)).filterMap (hit p.channelMaps) := by
  have hcount : (p.pollList.map (polled ready)).countP (fun slot => slot.revents != 0#16) =
      ((p.pollList.map (polled ready)).filterMap (hit p.channelMaps)).length := by
    rw [List.length_filterMap_eq_countP]
    apply List.countP_congr
    intro slot hslot
    obtain ⟨slot₀, h₀, rfl⟩ := List.mem_map.1 hslot
    obtain ⟨c, hc, rfl⟩ := h.slot_of_mem h₀
    rw [h.hit_polled hc]
    have hzero := (reported_short (h.masked c) ready (p.channels c).fd).2
    have hrev : (polled ready (pollfd (p.channels c))).revents =
        (reported ready (p.channels c).fd (p.channels c).events).setWidth 16 := by
      show (reported ready _ (((p.channels c).events.setWidth 16).signExtend 32)).setWidth 16 = _
      rw [(h.masked c).signExtend]
      rfl
    rw [hrev]
    by_cases hne : reported ready (p.channels c).fd (p.channels c).events = 0#32
    · simp [hne]
    · simp [hne, mt hzero.1 hne]
  rw [polling, fillActive_eq_take, hcount, List.take_length]

theorem Slots.mem_polling (h : Slots p st) : (c, r) ∈ p.polling ready ↔
    st c = .registered ∧ reported ready (p.channels c).fd (p.channels c).events ≠ 0#32 ∧
      r = (reported ready (p.channels c).fd (p.channels c).events).setWidth 16 := by
  rw [h.polling_eq, List.filterMap_map, List.mem_filterMap]
  constructor
  · rintro ⟨slot, hslot, hhit⟩
    obtain ⟨d, hd, rfl⟩ := h.slot_of_mem hslot
    rw [Function.comp_apply, h.hit_polled hd] at hhit
    split at hhit
    · cases hhit
    · rename_i hne
      cases hhit
      exact ⟨hd, hne, rfl⟩
  · rintro ⟨hc, hne, rfl⟩
    refine ⟨_, List.mem_of_getElem? (h.slot c hc), ?_⟩
    rw [Function.comp_apply, h.hit_polled hc, if_neg hne]

theorem filterMap_map_sublist {α β γ : Type} {take : α → Option β} {key : α → γ} {own : β → γ}
    {xs : List α} (h : ∀ x ∈ xs, ∀ y, take x = some y → own y = key x) :
    ((xs.filterMap take).map own).Sublist (xs.map key) := by
  induction xs with
  | nil => exact List.Sublist.slnil
  | cons x xs ih =>
      have hrest := ih fun z hz => h z (List.mem_cons_of_mem x hz)
      cases htake : take x with
      | none =>
          rw [List.filterMap_cons_none htake, List.map_cons]
          exact hrest.cons _
      | some y =>
          rw [List.filterMap_cons_some htake, List.map_cons, List.map_cons,
            h x List.mem_cons_self y htake]
          exact hrest.cons_cons _

theorem Slots.polling_nodup (h : Slots p st) : ((p.polling ready).map Prod.fst).Nodup := by
  apply List.Nodup.of_map fun c => (p.channels c).fd
  rw [h.polling_eq, List.filterMap_map, List.map_map]
  refine List.Nodup.sublist (filterMap_map_sublist ?_) h.coherent.nodup
  intro slot hslot y hy
  obtain ⟨c, hc, rfl⟩ := h.slot_of_mem hslot
  rw [Function.comp_apply, h.hit_polled hc] at hy
  split at hy
  · cases hy
  · cases hy
    rfl

end PollPoller

/-! ## Both -/

namespace TwoPollers

open EpollPoller (Waited Event fillActiveChannels kAdded)

variable {κ : Type} [DecidableEq κ] {s : TwoPollers κ} {ready : Int → BitVec 32} {size : Nat}
  {events : List (Event κ)}

/-- Called alike, the two pollers hand the loop the same channels with the same revents,
if the epoll array was long enough for one call. -/
theorem pollers_report_alike (h : (machine κ).Reach KeepsWatching s)
    (hw : Waited s.epoll.epollSet ready size events) (hroom : events.length < size) :
    ((fillActiveChannels events).map fun a => (a.1, a.2.setWidth 16)).Perm
      (s.poll.polling ready) := by
  obtain ⟨st, halike⟩ := alike_of_reach h
  have howned : s.epoll.Owned := halike.own
  obtain ⟨hnodup, hown, hall⟩ := hw.active halike.mirror howned
  have hsame : ∀ c, reported ready (s.poll.channels c).fd (s.poll.channels c).events =
      reported ready (s.epoll.channels c).fd (s.epoll.channels c).events := by
    intro c
    rw [halike.fd, halike.events]
  have hregistered : ∀ c, st c = .registered ↔ (s.epoll.channels c).index = kAdded := by
    intro c
    rcases halike.standing c with ⟨hst, hindex⟩ | ⟨hst, hindex⟩
    · rw [hst, hindex]
      decide
    · rw [hst, hindex]
      decide
  rw [List.perm_ext_iff_of_nodup]
  · rintro ⟨c, r⟩
    rw [halike.slots.mem_polling, hsame, hregistered, List.mem_map]
    constructor
    · rintro ⟨⟨d, r'⟩, hd, heq⟩
      cases heq
      obtain ⟨hindex, rfl, hne⟩ := hown d r' hd
      exact ⟨hindex, hne, rfl⟩
    · rintro ⟨hindex, hne, rfl⟩
      exact ⟨_, hall hroom c hindex hne, rfl⟩
  · apply List.Nodup.of_map Prod.fst
    simpa [List.map_map, Function.comp_def] using hnodup
  · exact List.Nodup.of_map Prod.fst halike.slots.polling_nodup

/-! ## Two channels -/

def readable4 (fd : Int) : BitVec 32 := if fd = 4 then Channel.POLLIN else 0#32

theorem watched4 {p : EpollPoller Bool} (hset : p.epollSet =
    Function.update (fun _ => none) 4 (some ⟨3#32, true⟩)) {fd : Int} :
    EpollPoller.report p.epollSet readable4 fd = if fd = 4 then some ⟨1#32, true⟩ else none := by
  rw [hset, EpollPoller.report]
  by_cases hfd : fd = 4
  · subst hfd
    rfl
  · simp [hfd]

theorem waited4 {p : EpollPoller Bool} (hset : p.epollSet =
    Function.update (fun _ => none) 4 (some ⟨3#32, true⟩)) :
    Waited p.epollSet readable4 16 [⟨1#32, true⟩] := by
  refine ⟨by decide, ⟨[4], by decide, ?_⟩, ?_⟩
  · simp [watched4 hset]
  · intro _ fd e he
    rw [watched4 hset] at he
    split at he
    · cases he
      exact List.mem_singleton_self _
    · cases he

theorem pollers_report_alike_twoChannels : ∃ s : TwoPollers Bool,
    (machine Bool).Reach KeepsWatching s ∧ s.poll.polling readable4 = [(true, 1#16)] ∧
    ((fillActiveChannels [(⟨1#32, true⟩ : Event Bool)]).map fun a => (a.1, a.2.setWidth 16)).Perm
      (s.poll.polling readable4) := by
  have hstart : (machine Bool).Reach KeepsWatching twoChannels := .start initial_twoChannels
  have hreach := hstart.step (a := .change true .enableRead) (by decide) rfl
  refine ⟨_, hreach, by decide, ?_⟩
  exact pollers_report_alike hreach (waited4 rfl) (by decide)

end TwoPollers

/-! ## Seventeen channels -/

namespace EpollPolling

open EpollPoller

def readable (_ : Int) : BitVec 32 := Channel.POLLIN

/-- Channels as constructed, on the descriptors 0 to 16. -/
def seventeen : EpollPolling (Fin 17) where
  poller :=
    { channels := fun c => Channel.new c.val
      channelMaps := fun _ => none
      epollSet := fun _ => none
      ctlErrors := []
      aborted := false }
  eventsSize := 16
  active := []

/-- Every channel is registered for reading, and the array has its first size. -/
structure Enabled (s : EpollPolling (Fin 17)) : Prop where
  reach : (machine (Fin 17)).Reach (Answers 17) s
  channels : ∀ c : Fin 17, s.poller.channels c = ⟨c.val, 3#32, kAdded⟩
  size : s.eventsSize = 16

theorem exists_enabled : ∃ s, Enabled s := by
  have hrun : ((machine (Fin 17)).run seventeen
      ((List.finRange 17).map fun c => .call (.change c .enableRead))).any (fun s =>
        decide (∀ c : Fin 17, s.poller.channels c = ⟨c.val, 3#32, kAdded⟩) &&
          s.eventsSize == 16) = true := by decide +kernel
  obtain ⟨s, hs, htest⟩ := (Option.any_eq_true ..).1 hrun
  rw [Bool.and_eq_true, decide_eq_true_eq, beq_iff_eq] at htest
  refine ⟨s, ?_, htest.1, htest.2⟩
  refine Machine.Reach.of_run _ (.start ⟨⟨?_, ?_, ?_, ?_, rfl, rfl⟩, rfl, rfl⟩) ?_ hs
  · intro c d hcd
    exact Fin.ext (Int.ofNat.inj hcd)
  · exact fun _ => rfl
  · exact fun _ => rfl
  · exact fun _ => rfl
  · intro a ha t
    obtain ⟨c, _, rfl⟩ := List.mem_map.1 ha
    trivial

theorem reported_readable (fd : Int) : reported readable fd 3#32 = 1#32 := by
  show Channel.POLLIN &&& _ = _
  decide

theorem Enabled.ready {s : EpollPolling (Fin 17)} (h : Enabled s) (c : Fin 17) :
    (s.poller.channels c).index = kAdded ∧
      reported readable (s.poller.channels c).fd (s.poller.channels c).events ≠ 0#32 := by
  rw [h.channels, reported_readable]
  exact ⟨rfl, by decide⟩

abbrev answer (cs : List (Fin 17)) : List (Event (Fin 17)) := cs.map fun c => ⟨1#32, c⟩

theorem Enabled.waited {s : EpollPolling (Fin 17)} (h : Enabled s) {cs : List (Fin 17)}
    {size : Nat} (hnodup : cs.Nodup) (hroom : cs.length ≤ size)
    (hall : cs.length < size → ∀ c, c ∈ cs) :
    Waited s.poller.epollSet readable size (answer cs) := by
  have ht := tracked_of_reach h.reach
  have hwaited := waited_of_channels ht.mirror ht.owned hnodup
    (fun c _ => h.ready c) hroom (fun hshort c _ _ => hall hshort c)
  simpa only [h.channels, reported_readable] using hwaited

theorem Enabled.atMost {s : EpollPolling (Fin 17)} (h : Enabled s) :
    WatchesAtMost s.poller 17 :=
  watchesAtMost_card (tracked_of_reach h.reach).owned

theorem Enabled.waited_first {s : EpollPolling (Fin 17)} (h : Enabled s) :
    Waited s.poller.epollSet readable s.eventsSize (answer ((List.finRange 17).take 16)) := by
  rw [h.size]
  exact h.waited ((List.nodup_finRange 17).sublist (List.take_sublist _ _)) (by decide)
    fun hshort => absurd hshort (by decide)

/-- Sixteen of the channels fill the array, which then has room for all of them. -/
theorem active_channels_exact_seventeen : ∃ s s' : EpollPolling (Fin 17),
    s.active.length = 16 ∧ s.step (.polling readable (answer (List.finRange 17))) = some s' ∧
      (s'.active.map Prod.fst).Nodup ∧ (∀ c, c ∈ s'.active.map Prod.fst) ∧
      16 ≤ s'.eventsSize ∧ s'.eventsSize ≤ 34 := by
  obtain ⟨s₀, h₀⟩ := exists_enabled
  have hfirst : Answers 17 s₀ (.polling readable (answer ((List.finRange 17).take 16))) :=
    ⟨h₀.waited_first, h₀.atMost⟩
  have hreach := h₀.reach.step hfirst rfl
  have hsize : grown s₀.eventsSize (answer ((List.finRange 17).take 16)).length = 32 := by
    rw [h₀.size]
    decide
  have hwaited : Waited s₀.poller.epollSet readable
      (grown s₀.eventsSize (answer ((List.finRange 17).take 16)).length)
      (answer (List.finRange 17)) := by
    rw [hsize]
    exact h₀.waited (List.nodup_finRange 17) (by decide) fun _ => List.mem_finRange
  obtain ⟨hnodup, _, hall, hlow, hhigh⟩ := active_channels_exact hreach readable
    (answer (List.finRange 17)) ⟨hwaited, h₀.atMost⟩ rfl
  refine ⟨_, _, rfl, rfl, hnodup, ?_, hlow, hhigh⟩
  intro c
  refine hall ?_ c (h₀.ready c).1 (h₀.ready c).2
  show 17 < grown s₀.eventsSize _
  rw [hsize]
  decide

/-- The first poll leaves the last channel out, the next one has them all. -/
theorem epoll_catches_up_seventeen : ∃ s s' : EpollPolling (Fin 17),
    s.pollAgain readable [answer ((List.finRange 17).take 16)] = some s' ∧
      s'.eventsSize = 32 ∧ 16 ∉ s'.active.map Prod.fst ∧
      ∀ c, c ∈ (fillActiveChannels (answer (List.finRange 17))).map Prod.fst := by
  obtain ⟨s, h⟩ := exists_enabled
  have hsize : grown s.eventsSize (answer ((List.finRange 17).take 16)).length = 32 := by
    rw [h.size]
    decide
  have hready : ReadyAre s readable ((List.finRange 17).map fun c => (c.val : Int)) := by
    have ht := tracked_of_reach h.reach
    refine ⟨by decide, fun fd => ?_⟩
    rw [Option.isSome_iff_exists]
    simp only [report_eq_some ht.mirror ht.owned, List.mem_map, List.mem_finRange, true_and]
    have hfd : ∀ c : Fin 17, (s.poller.channels c).fd = c.val := fun c => by rw [h.channels]
    constructor
    · rintro ⟨c, rfl⟩
      exact ⟨_, c, hfd c, (h.ready c).1, (h.ready c).2, rfl⟩
    · rintro ⟨_, c, hc, _⟩
      exact ⟨c, (hfd c).symm.trans hc⟩
  have hlast : 16 ∉ (fillActiveChannels (answer ((List.finRange 17).take 16))).map Prod.fst := by
    decide
  refine ⟨s, _, rfl, hsize, hlast, fun c => ?_⟩
  refine epoll_catches_up readable _ [answer ((List.finRange 17).take 16)]
    (answer (List.finRange 17)) h.reach h.atMost hready ⟨h.waited_first, fun _ _ => trivial⟩ rfl
    (by decide) ?_ c (h.ready c).1 (h.ready c).2
  dsimp only
  rw [hsize]
  exact h.waited (List.nodup_finRange 17) (by decide) fun _ => List.mem_finRange

end EpollPolling

end MyNetLib
