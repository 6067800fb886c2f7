import MyNetLib.Reactor.PollPoller

/-! # The slots of `poll_list_`

As long as no call is made on a channel after its `RemoveChannel`, every slot
belongs to the registered channel whose index says so. A call on a removed
channel follows its stale index into the slot of another channel, or past the end.
-/

namespace MyNetLib

open Library

namespace Channel

/-- The masks the operations of a channel can make. -/
def Masked (events : BitVec 32) : Prop :=
  events = 0#32 ∨ events = 3#32 ∨ events = 4#32 ∨ events = 7#32

theorem Masked.mask {events : BitVec 32} (h : Masked events) (ch : Change) :
    Masked (mask events ch) := by
  rcases h with rfl | rfl | rfl | rfl <;> cases ch <;>
    simp [Masked, Channel.mask, kReadEvent, kWriteEvent, kNoneEvent]

theorem Masked.signExtend {events : BitVec 32} (h : Masked events) :
    (events.setWidth 16).signExtend 32 = events := by
  rcases h with rfl | rfl | rfl | rfl <;> decide

end Channel

namespace PollPoller

open EpollPoller (Call)

variable {κ : Type}

/-- What the calls so far have made of a channel. -/
inductive Standing where
  | fresh
  | registered
  | removed
  deriving DecidableEq

def slotOf (p : PollPoller κ) (c : κ) : Option Pollfd := p.pollList[(p.channels c).index.toNat]?

/-- The slots as they should be: one for a descriptor, and each registered channel's
own where its index points. -/
structure Coherent (p : PollPoller κ) (st : κ → Standing) : Prop where
  nodup : (p.pollList.map Pollfd.fd).Nodup
  slot : ∀ c, st c = .registered → 0 ≤ (p.channels c).index ∧ ∃ slot, p.slotOf c = some slot ∧
    slot.fd = (p.channels c).fd ∧ slot.events.signExtend 32 = (p.channels c).events

/-- Nothing of another channel is changed: neither its entry in the map nor, when it
is registered, the contents of its slot. -/
def Untouched (p p' : PollPoller κ) (st : κ → Standing) (c : κ) : Prop :=
  ∀ d, d ≠ c → p'.channelMaps (p.channels d).fd = p.channelMaps (p.channels d).fd ∧
    (st d = .registered → p'.slotOf d = p.slotOf d)

/-- Besides the registered channels' slots: there are no others, a removed channel keeps
an index, and the map has every channel ever registered. -/
structure Slots (p : PollPoller κ) (st : κ → Standing) : Prop where
  distinct : Function.Injective fun c => (p.channels c).fd
  masked : ∀ c, Channel.Masked (p.channels c).events
  fresh : ∀ c, st c = .fresh → (p.channels c).index = -1
  stale : ∀ c, st c ≠ .fresh → 0 ≤ (p.channels c).index
  slot : ∀ c, st c = .registered → p.slotOf c = some (pollfd (p.channels c))
  owner : ∀ i : Nat, i < p.pollList.length → ∃ c, st c = .registered ∧ (p.channels c).index = i
  mapped : ∀ c, st c ≠ .fresh → p.channelMaps (p.channels c).fd = some c

variable {p p' : PollPoller κ} {st : κ → Standing} {c d : κ}

theorem Initial.slots (h : Initial p) : Slots p fun _ => .fresh := by
  have hchannel : ∀ c, p.channels c = Channel.new (p.channels c).fd := h.fresh
  refine ⟨h.distinct, fun c => ?_, fun c _ => ?_, by simp, by simp, by simp [h.empty], by simp⟩
  · rw [hchannel c]
    exact Or.inl rfl
  · rw [hchannel c]
    rfl

theorem Slots.index (h : Slots p st) (hc : st c = .registered) :
    ∃ i : Nat, (p.channels c).index = i ∧ p.pollList[i]? = some (pollfd (p.channels c)) := by
  have hpos := h.stale c (by simp [hc])
  refine ⟨(p.channels c).index.toNat, (Int.toNat_of_nonneg hpos).symm, ?_⟩
  exact h.slot c hc

theorem Slots.index_ne (h : Slots p st) (hc : st c = .registered) (hd : st d = .registered)
    (hne : d ≠ c) : (p.channels d).index ≠ (p.channels c).index := by
  intro heq
  have hslot := h.slot d hd
  rw [slotOf, heq] at hslot
  have hfd : (p.channels d).fd = (p.channels c).fd :=
    congrArg Pollfd.fd (Option.some.inj (hslot.symm.trans (h.slot c hc)))
  exact hne (h.distinct hfd)

theorem Slots.coherent (h : Slots p st) : Coherent p st := by
  constructor
  · rw [List.nodup_iff_injective_getElem]
    rintro ⟨i, hi⟩ ⟨j, hj⟩ heq
    rw [List.length_map] at hi hj
    obtain ⟨c, hc, hic⟩ := h.owner i hi
    obtain ⟨d, hd, hjd⟩ := h.owner j hj
    have hfd : ∀ {e : κ} {k : Nat} (hk : k < p.pollList.length), st e = .registered →
        (p.channels e).index = k → p.pollList[k].fd = (p.channels e).fd := by
      intro e k hk he hke
      have hslot := h.slot e he
      rw [slotOf, hke, Int.toNat_natCast, List.getElem?_eq_getElem hk, Option.some.injEq] at hslot
      rw [hslot, pollfd]
    simp only [List.getElem_map] at heq
    rw [hfd hi hc hic, hfd hj hd hjd] at heq
    have hcd : c = d := h.distinct heq
    subst hcd
    rw [hic] at hjd
    exact Fin.ext (by exact_mod_cast hjd)
  · intro c hc
    refine ⟨h.stale c (by simp [hc]), pollfd (p.channels c), h.slot c hc, rfl, ?_⟩
    exact (h.masked c).signExtend

variable [DecidableEq κ]

/-! ## What a call does -/

/-- An `UpdateChannel` leaves the channel registered with a slot of its own and the
other slots as they are. -/
theorem Slots.write (h : Slots p st) {channel : Channel} {maps : Int → Option κ}
    {pollList : List Pollfd} (hfd : channel.fd = (p.channels c).fd)
    (hmasked : Channel.Masked channel.events) (hpos : 0 ≤ channel.index)
    (hself : pollList[channel.index.toNat]? = some (pollfd channel))
    (hother : ∀ d, d ≠ c → st d = .registered →
      pollList[(p.channels d).index.toNat]? = p.slotOf d)
    (howner : ∀ i : Nat, i < pollList.length → channel.index = i ∨
      i < p.pollList.length ∧ (st c = .registered → (p.channels c).index ≠ i))
    (hmap : maps (p.channels c).fd = some c)
    (hmaps : ∀ d, d ≠ c → maps (p.channels d).fd = p.channelMaps (p.channels d).fd) :
    Slots ⟨Function.update p.channels c channel, maps, pollList⟩
        (Function.update st c .registered) ∧
      Untouched p ⟨Function.update p.channels c channel, maps, pollList⟩ st c := by
  refine ⟨?_, fun d hd => ⟨hmaps d hd, fun hst => by simpa [slotOf, hd] using hother d hd hst⟩⟩
  constructor
  · intro d e hde
    apply h.distinct
    have hfds : ∀ d, (Function.update p.channels c channel d).fd = (p.channels d).fd := by
      intro d
      by_cases hd : d = c
      · subst hd
        simpa using hfd
      · simp [hd]
    simpa only [hfds] using hde
  · intro d
    by_cases hd : d = c
    · simpa [hd] using hmasked
    · simpa [hd] using h.masked d
  · intro d hst
    by_cases hd : d = c
    · simp [hd] at hst
    · simpa [hd] using h.fresh d (by simpa [hd] using hst)
  · intro d hst
    by_cases hd : d = c
    · simpa [hd] using hpos
    · simpa [hd] using h.stale d (by simpa [hd] using hst)
  · intro d hst
    by_cases hd : d = c
    · simpa [slotOf, hd] using hself
    · have hold : st d = .registered := by simpa [hd] using hst
      simpa [slotOf, hd] using (hother d hd hold).trans (h.slot d hold)
  · intro i hi
    rcases howner i hi with hc | ⟨hlt, hne⟩
    · exact ⟨c, by simp, by simpa using hc⟩
    · obtain ⟨d, hd, hid⟩ := h.owner i hlt
      have hdc : d ≠ c := by
        rintro rfl
        exact hne hd hid
      exact ⟨d, by simp [hdc, hd], by simp [hdc, hid]⟩
  · intro d hst
    by_cases hd : d = c
    · subst hd
      simpa [hfd] using hmap
    · simpa [hd, hmaps d hd] using h.mapped d (by simpa [hd] using hst)

theorem Slots.add (h : Slots p st) (hc : st c = .fresh) (ch : Channel.Change) :
    ∃ p', p.call (.change c ch) = some p' ∧ Slots p' (Function.update st c .registered) ∧
      Untouched p p' st c := by
  have hindex := h.fresh c hc
  refine ⟨⟨Function.update p.channels c
      { (p.channels c).change ch with index := p.pollList.length },
    Function.update p.channelMaps (p.channels c).fd (some c),
    p.pollList ++ [pollfd ((p.channels c).change ch)]⟩, ?_, h.write rfl ?_ ?_ ?_ ?_ ?_ ?_ ?_⟩
  · simp [call, updateChannel, setChannel, setIndex, Channel.change, hindex]
  · exact (h.masked c).mask ch
  · exact Int.natCast_nonneg _
  · simp [pollfd]
  · intro d _ hst
    have hlt := (List.getElem?_eq_some_iff.1 (h.slot d hst)).1
    exact List.getElem?_append_left hlt
  · intro i hi
    simp only [List.length_append, List.length_singleton] at hi
    by_cases hlast : i = p.pollList.length
    · exact Or.inl (by rw [hlast])
    · exact Or.inr ⟨by omega, by simp [hc]⟩
  · simp
  · intro d hd
    have hne : (p.channels d).fd ≠ (p.channels c).fd := fun heq => hd (h.distinct heq)
    simp [hne]

theorem Slots.modify (h : Slots p st) (hc : st c = .registered) (ch : Channel.Change) :
    ∃ p', p.call (.change c ch) = some p' ∧ Slots p' (Function.update st c .registered) ∧
      Untouched p p' st c := by
  obtain ⟨i, hindex, hslot⟩ := h.index hc
  have hlt : i < p.pollList.length := (List.getElem?_eq_some_iff.1 hslot).1
  refine ⟨⟨Function.update p.channels c ((p.channels c).change ch), p.channelMaps,
    p.pollList.set i (pollfd ((p.channels c).change ch))⟩, ?_, h.write rfl ?_ ?_ ?_ ?_ ?_ ?_ ?_⟩
  · have hnonneg : ¬ (i : Int) < 0 := by omega
    simp [call, updateChannel, setChannel, Channel.change, hindex, hnonneg, hlt]
  · exact (h.masked c).mask ch
  · exact h.stale c (by simp [hc])
  · simp [Channel.change, hindex, hlt]
  · intro d hd hst
    have hne := h.index_ne hc hst hd
    have hnonneg := h.stale d (by simp [hst])
    rw [List.getElem?_set_ne (by omega), slotOf]
  · intro j hj
    rw [List.length_set] at hj
    by_cases hji : j = i
    · exact Or.inl (by rw [hji]; exact hindex)
    · exact Or.inr ⟨hj, fun _ => by rw [hindex]; exact_mod_cast Ne.symm hji⟩
  · exact h.mapped c (by simp [hc])
  · exact fun _ _ => rfl

/-- A `RemoveChannel` takes one slot away and moves no contents but by moving the index
of their channel. -/
theorem Slots.erase (h : Slots p st) {channels : κ → Channel} {pollList : List Pollfd}
    (hfds : ∀ d, (channels d).fd = (p.channels d).fd)
    (hevents : ∀ d, (channels d).events = (p.channels d).events)
    (hsame : ∀ d, st d ≠ .registered → channels d = p.channels d)
    (hpos : ∀ d, st d = .registered → 0 ≤ (channels d).index)
    (hother : ∀ d, d ≠ c → st d = .registered →
      pollList[(channels d).index.toNat]? = p.slotOf d)
    (howner : ∀ i : Nat, i < pollList.length →
      ∃ d, d ≠ c ∧ st d = .registered ∧ (channels d).index = i)
    (hc : st c = .registered) :
    Slots ⟨channels, p.channelMaps, pollList⟩ (Function.update st c .removed) ∧
      Untouched p ⟨channels, p.channelMaps, pollList⟩ st c := by
  refine ⟨?_, fun d hd => ⟨rfl, fun hst => hother d hd hst⟩⟩
  have hpollfd : ∀ d, pollfd (channels d) = pollfd (p.channels d) := by
    intro d
    rw [pollfd, hfds, hevents, ← pollfd]
  constructor
  · intro d e hde
    apply h.distinct
    simpa only [hfds] using hde
  · intro d
    rw [hevents]
    exact h.masked d
  · intro d hst
    by_cases hd : d = c
    · simp [hd] at hst
    · have hold : st d = .fresh := by simpa [hd] using hst
      have heq : channels d = p.channels d := hsame d (by simp [hold])
      simpa [heq] using h.fresh d hold
  · intro d hst
    by_cases hreg : st d = .registered
    · exact hpos d hreg
    · have hd : d ≠ c := by
        rintro rfl
        exact hreg hc
      have heq : channels d = p.channels d := hsame d hreg
      simpa [heq] using h.stale d (by simpa [hd] using hst)
  · intro d hst
    have hd : d ≠ c := by
      rintro rfl
      simp at hst
    have hold : st d = .registered := by simpa [hd] using hst
    simp only [slotOf, hpollfd]
    exact (hother d hd hold).trans (h.slot d hold)
  · intro i hi
    obtain ⟨d, hd, hst, hid⟩ := howner i hi
    exact ⟨d, by simp [hd, hst], hid⟩
  · intro d hst
    simp only [hfds]
    refine h.mapped d ?_
    by_cases hd : d = c
    · simp [hd, hc]
    · simpa [hd] using hst

theorem Slots.remove_last (h : Slots p st) (hc : st c = .registered) {i : Nat}
    (hindex : (p.channels c).index = i) (hi : i + 1 = p.pollList.length)
    (hlast : p.pollList.getLast? = some (pollfd (p.channels c))) :
    ∃ p', p.call (.remove c) = some p' ∧ Slots p' (Function.update st c .removed) ∧
      Untouched p p' st c := by
  refine ⟨⟨p.channels, p.channelMaps, p.pollList.dropLast⟩, ?_, h.erase (fun _ => rfl)
    (fun _ => rfl) (fun _ _ => rfl) (fun e he => h.stale e (by simp [he])) ?_ ?_ hc⟩
  · have hidx : (i : Int) = p.pollList.length - 1 := by omega
    simp [call, removeChannel, hlast, hindex, hidx]
  · intro e he hst
    have hlt' := (List.getElem?_eq_some_iff.1 (h.slot e hst)).1
    have hnot := h.index_ne hc hst he
    have hnonneg := h.stale e (by simp [hst])
    rw [List.getElem?_dropLast, if_pos (by omega), slotOf]
  · intro j hj
    rw [List.length_dropLast] at hj
    obtain ⟨e, he, hej⟩ := h.owner j (by omega)
    refine ⟨e, ?_, he, hej⟩
    rintro rfl
    rw [hindex] at hej
    omega

/-- The last slot, of another channel, moves into its place. -/
theorem Slots.remove_moved (h : Slots p st) (hc : st c = .registered) {i : Nat}
    (hindex : (p.channels c).index = i) (hi : i + 1 < p.pollList.length)
    (hd : st d = .registered) (hdlast : (p.channels d).index = (p.pollList.length - 1 : Nat))
    (hlast : p.pollList.getLast? = some (pollfd (p.channels d))) :
    ∃ p', p.call (.remove c) = some p' ∧ Slots p' (Function.update st c .removed) ∧
      Untouched p p' st c := by
  have hlt : i < p.pollList.length := by omega
  have hdslot := hlast
  rw [List.getLast?_eq_getElem?] at hdslot
  have hdc : d ≠ c := by
    rintro rfl
    rw [hindex] at hdlast
    omega
  refine ⟨⟨Function.update p.channels d { p.channels d with index := i }, p.channelMaps,
    (p.pollList.set i (pollfd (p.channels d))).dropLast⟩, ?_, h.erase ?_ ?_ ?_ ?_ ?_ ?_ hc⟩
  · have hidx : (i : Int) ≠ p.pollList.length - 1 := by omega
    have hmap := h.mapped d (by simp [hd])
    simp only [call, removeChannel, hlast, hindex]
    simp [hidx, hlt, pollfd, hmap, setIndex, setChannel]
  · intro e
    by_cases hed : e = d
    · simp [hed]
    · simp [hed]
  · intro e
    by_cases hed : e = d
    · simp [hed]
    · simp [hed]
  · intro e he
    have hed : e ≠ d := by
      rintro rfl
      exact he hd
    simp [hed]
  · intro e he
    by_cases hed : e = d
    · simp [hed]
    · simpa [hed] using h.stale e (by simp [he])
  · intro e he hst
    by_cases hed : e = d
    · subst hed
      rw [slotOf, hdlast, Int.toNat_natCast, hdslot]
      simp [List.getElem?_dropLast, hlt]
      omega
    · have hlt' := (List.getElem?_eq_some_iff.1 (h.slot e hst)).1
      have hnot := h.index_ne hc hst he
      have hnot' := h.index_ne hd hst hed
      have hnonneg := h.stale e (by simp [hst])
      simp only [Function.update_of_ne hed, List.getElem?_dropLast, List.length_set]
      rw [if_pos (by omega), List.getElem?_set_ne (by omega), slotOf]
  · intro j hj
    rw [List.length_dropLast, List.length_set] at hj
    by_cases hji : j = i
    · exact ⟨d, hdc, hd, by simp [hji]⟩
    · obtain ⟨e, he, hej⟩ := h.owner j (by omega)
      have hed : e ≠ d := by
        rintro rfl
        omega
      refine ⟨e, ?_, he, by simpa [hed] using hej⟩
      rintro rfl
      rw [hindex] at hej
      exact hji (by exact_mod_cast hej.symm)

theorem Slots.remove (h : Slots p st) (hc : st c = .registered) :
    ∃ p', p.call (.remove c) = some p' ∧ Slots p' (Function.update st c .removed) ∧
      Untouched p p' st c := by
  obtain ⟨i, hindex, hslot⟩ := h.index hc
  have hlt : i < p.pollList.length := (List.getElem?_eq_some_iff.1 hslot).1
  by_cases hi : i + 1 = p.pollList.length
  · apply h.remove_last hc hindex hi
    rw [List.getLast?_eq_getElem?, ← hi]
    exact hslot
  · obtain ⟨d, hd, hdlast⟩ := h.owner (p.pollList.length - 1) (by omega)
    have hdslot := h.slot d hd
    rw [slotOf, hdlast, Int.toNat_natCast] at hdslot
    apply h.remove_moved hc hindex (by omega) hd hdlast
    rw [List.getLast?_eq_getElem?]
    exact hdslot

/-! ## Sequences of calls -/

def standingAfter (st : κ → Standing) : Call κ → κ → Standing
  | .change c _ => Function.update st c .registered
  | .remove c => Function.update st c .removed

/-- No call on a removed channel, and no `RemoveChannel` of one that never was
registered. -/
def Proper (st : κ → Standing) : Call κ → Prop
  | .change c _ => st c ≠ .removed
  | .remove c => st c = .registered

omit [DecidableEq κ] in
def channelOf : Call κ → κ
  | .change c _ => c
  | .remove c => c

/-- A call whose accesses are in range, after which the slots are coherent and other
channels untouched. -/
structure Kept (p : PollPoller κ) (st : κ → Standing) (a : Call κ) (p' : PollPoller κ) : Prop where
  called : p.call a = some p'
  coherent : Coherent p' (standingAfter st a)
  untouched : Untouched p p' st (channelOf a)

def AllKept : PollPoller κ → (κ → Standing) → List (Call κ) → Prop
  | _, _, [] => True
  | p, st, a :: rest => ∃ p', Kept p st a p' ∧ AllKept p' (standingAfter st a) rest

def AllProper : (κ → Standing) → List (Call κ) → Prop
  | _, [] => True
  | st, a :: rest => Proper st a ∧ AllProper (standingAfter st a) rest

variable {a : Call κ}

theorem Slots.proper (h : Slots p st) (ha : Proper st a) :
    ∃ p', p.call a = some p' ∧ Slots p' (standingAfter st a) ∧
      Untouched p p' st (channelOf a) := by
  cases a with
  | change c ch =>
      cases hc : st c with
      | fresh => exact h.add hc ch
      | registered => exact h.modify hc ch
      | removed => exact absurd hc ha
  | remove c => exact h.remove ha

omit [DecidableEq κ] in
/-- A registered channel whose index points at the slot of another one, or nowhere. -/
theorem Coherent.absurd {slot : Option Pollfd} (h : Coherent p' st) (hd : st d = .registered)
    (hslot : p'.slotOf d = slot) (hfd : ∀ s ∈ slot, s.fd ≠ (p'.channels d).fd) : False := by
  obtain ⟨s, hs, hsame, _⟩ := (h.slot d hd).2
  exact hfd s (by rw [← hslot, hs]; rfl) hsame

theorem call_change {ch : Channel.Change} (h : p.call (.change c ch) = some p') (d : κ) :
    (p'.channels d).fd = (p.channels d).fd ∧
      (p'.channels d).events =
        if d = c then Channel.mask (p.channels c).events ch else (p.channels d).events := by
  simp only [call, updateChannel] at h
  by_cases hd : d = c
  · subst hd
    split at h
    · cases h
      simp [setIndex, setChannel, Channel.change]
    · split at h <;> cases h
      simp [setChannel, Channel.change]
  · split at h
    · cases h
      simp [setIndex, setChannel, hd]
    · split at h <;> cases h
      simp [setChannel, hd]

/-- The stale index of a removed channel is out of range or another channel's. -/
theorem Slots.update_removed (h : Slots p st) (hc : st c = .removed) (ch : Channel.Change)
    (hcall : p.call (.change c ch) = some p') :
    ¬ Coherent p' (Function.update st c .registered) := by
  intro hcoherent
  have hpos := h.stale c (by simp [hc])
  obtain ⟨i, hi⟩ := Int.eq_ofNat_of_zero_le hpos
  have hnonneg : ¬ (i : Int) < 0 := by omega
  simp only [call, updateChannel, setChannel, Function.update_self, Channel.change, hi, hnonneg,
    if_false, Int.toNat_natCast] at hcall
  split at hcall
  · rename_i hlt
    cases hcall
    have hlt' : i < p.pollList.length := by exact_mod_cast hlt
    obtain ⟨d, hd, hdi⟩ := h.owner i hlt'
    have hdc : d ≠ c := by
      rintro rfl
      rw [hc] at hd
      cases hd
    refine hcoherent.absurd (d := d) (by simp [hdc, hd]) rfl ?_
    intro s hs
    simp only [slotOf, Function.update_of_ne hdc, hdi, Int.toNat_natCast,
      List.getElem?_set_self hlt', Option.mem_def, Option.some.injEq] at hs
    rw [← hs]
    simpa [pollfd, hdc] using fun heq => hdc (h.distinct heq).symm
  · cases hcall

theorem Slots.remove_removed (h : Slots p st) (hc : st c ≠ .registered)
    (hcall : p.call (.remove c) = some p') :
    ¬ Coherent p' (Function.update st c .removed) := by
  intro hcoherent
  have hother : ∀ {d}, st d = .registered → d ≠ c := by
    rintro d hd rfl
    exact hc hd
  simp only [call, removeChannel] at hcall
  split at hcall
  · cases hcall
  · rename_i last hlast
    rw [List.getLast?_eq_getElem?] at hlast
    have hlen : p.pollList.length - 1 < p.pollList.length :=
      (List.getElem?_eq_some_iff.1 hlast).1
    split at hcall
    · -- the last slot is another channel's
      rename_i hidx
      cases hcall
      obtain ⟨d, hd, hdlast⟩ := h.owner _ hlen
      refine hcoherent.absurd (d := d) (by simp [hother hd, hd]) rfl ?_
      simp [slotOf, hdlast]
    · split at hcall
      · -- the last slot overwrites another channel's
        rename_i hidx hrange
        obtain ⟨e, hmap, rfl⟩ := Option.map_eq_some_iff.1 hcall
        obtain ⟨i, hi⟩ := Int.eq_ofNat_of_zero_le hrange.1
        obtain ⟨e', he', hlast'⟩ := h.owner _ hlen
        have hslot := h.slot e' he'
        rw [slotOf, hlast', Int.toNat_natCast, hlast, Option.some.injEq] at hslot
        have hee : e' = e := by
          have hmapped := h.mapped e' (by simp [he'])
          rw [hslot, pollfd, hmapped, Option.some.injEq] at hmap
          exact hmap
        subst hee
        obtain ⟨d, hd, hdi⟩ := h.owner i (by omega)
        have hde : d ≠ e' := by
          rintro rfl
          rw [hdi] at hlast'
          omega
        refine hcoherent.absurd (d := d) (by simp [hother hd, hd]) rfl ?_
        intro s hs
        simp only [slotOf, setIndex, setChannel, Function.update_of_ne hde, hdi, hi,
          Int.toNat_natCast, List.getElem?_dropLast, List.length_set] at hs
        rw [if_pos (by omega), List.getElem?_set_self (by omega), Option.mem_def,
          Option.some.injEq] at hs
        rw [← hs, hslot]
        simpa [pollfd, setIndex, setChannel, hde] using fun heq => hde (h.distinct heq).symm
      · cases hcall

theorem Slots.kept_iff (h : Slots p st) : (∃ p', Kept p st a p') ↔ Proper st a := by
  constructor
  · rintro ⟨p', hcall, hcoherent, _⟩
    by_contra hnot
    cases a with
    | change c ch => exact h.update_removed (by simpa [Proper] using hnot) ch hcall hcoherent
    | remove c => exact h.remove_removed hnot hcall hcoherent
  · intro ha
    obtain ⟨p', hcall, hslots, huntouched⟩ := h.proper ha
    exact ⟨p', hcall, hslots.coherent, huntouched⟩

theorem Slots.allKept_iff {calls : List (Call κ)} (h : Slots p st) :
    AllKept p st calls ↔ AllProper st calls := by
  induction calls generalizing p st with
  | nil => rfl
  | cons a rest ih =>
      constructor
      · rintro ⟨p', hkept, hrest⟩
        have ha := h.kept_iff.1 ⟨p', hkept⟩
        obtain ⟨p'', hcall, hslots, _⟩ := h.proper ha
        rw [hkept.called, Option.some.injEq] at hcall
        subst hcall
        exact ⟨ha, (ih hslots).1 hrest⟩
      · rintro ⟨ha, hrest⟩
        obtain ⟨p', hcall, hslots, huntouched⟩ := h.proper ha
        exact ⟨p', ⟨hcall, hslots.coherent, huntouched⟩, (ih hslots).2 hrest⟩

/-- The calls of a sequence stay in range, keep the slots coherent and leave other
channels alone if and only if none is made on a removed channel and no channel is
removed that was not registered. -/
theorem slots_coherent_iff (h : Initial p) (calls : List (Call κ)) :
    AllKept p (fun _ => .fresh) calls ↔ AllProper (fun _ => .fresh) calls :=
  h.slots.allKept_iff

def twoChannels : PollPoller Bool where
  channels c := Channel.new (if c then 4 else 3)
  channelMaps _ := none
  pollList := []

theorem initial_twoChannels : Initial twoChannels := by
  refine ⟨?_, fun _ => rfl, fun _ => rfl, rfl⟩
  intro c d hcd
  revert c d
  decide

theorem slots_coherent_twoChannels : AllKept twoChannels (fun _ => .fresh)
    [.change true .enableRead, .change false .enableWrite, .change true .disableAll,
      .remove true, .remove false] := by
  apply (slots_coherent_iff initial_twoChannels _).2
  simp [AllProper, Proper, standingAfter]

/-- The second `RemoveChannel` of a channel pops the slot of the other one. -/
theorem second_remove_damages : ¬ ∀ (p : PollPoller Bool) (calls : List (Call Bool)), Initial p →
    AllKept p (fun _ => .fresh) calls := by
  intro hclaim
  have hkept := hclaim twoChannels [.change true .enableRead, .change false .enableRead,
    .remove true, .remove true] initial_twoChannels
  have hproper := initial_twoChannels.slots.allKept_iff.1 hkept
  simp [AllProper, Proper, standingAfter] at hproper

end PollPoller

end MyNetLib
