import MyNetLib.Library.Machine
import MyNetLib.Reactor.Channel

/-! # The epoll poller and the kernel (`src/epoll_poller.cc`, `src/poller.cc`)

Three copies of one registration are kept: the channel's `index_`, the entry in
`channel_maps_` and the kernel's epoll set. The model has all three, with
channels named by an arbitrary type of pointers, and a kernel that refuses an
`ADD` of a descriptor it has and a `MOD` or `DEL` of one it has not.
-/

namespace MyNetLib

open Library

/-! ## The model -/

namespace EpollPoller

/-- Not in `channel_maps_`. -/
def kNew : Int := -1
/-- In `channel_maps_` and in the epoll set. -/
def kAdded : Int := 1
/-- In `channel_maps_` only. -/
def kDeleted : Int := 2

inductive Operation where
  | add
  | mod
  | del
  deriving DecidableEq, Repr

/-- The `epoll_event` of a registration: mask and `data.ptr`. -/
structure Event (κ : Type) where
  events : BitVec 32
  ptr : κ

/-- `::epoll_ctl` on the set of registrations; `none` is the result `-1`. -/
def epollCtl {κ : Type} (set : Int → Option (Event κ)) (op : Operation) (fd : Int) (e : Event κ) :
    Option (Int → Option (Event κ)) :=
  match op, set fd with
  | .add, none => some (Function.update set fd (some e))
  | .add, some _ => none
  | .mod, some _ => some (Function.update set fd (some e))
  | .mod, none => none
  | .del, some _ => some (Function.update set fd none)
  | .del, none => none

end EpollPoller

/-- The poller of one loop together with the channels it is called with and the
kernel's epoll set. `ctlErrors` lists the failed `epoll_ctl` calls and `aborted`
records a `LOG_FATAL`. -/
structure EpollPoller (κ : Type) where
  channels : κ → Channel
  channelMaps : Int → Option κ
  epollSet : Int → Option (EpollPoller.Event κ)
  ctlErrors : List EpollPoller.Operation
  aborted : Bool

namespace EpollPoller

variable {κ : Type}

def update (p : EpollPoller κ) (op : Operation) (c : κ) : EpollPoller κ :=
  let channel := p.channels c
  match epollCtl p.epollSet op channel.fd ⟨channel.events, c⟩ with
  | some set => { p with epollSet := set }
  | none =>
      { p with
        ctlErrors := p.ctlErrors ++ [op]
        aborted := p.aborted || op != .del }

variable [DecidableEq κ]

def setChannel (p : EpollPoller κ) (c : κ) (ch : Channel) : EpollPoller κ :=
  { p with channels := Function.update p.channels c ch }

def setIndex (p : EpollPoller κ) (c : κ) (index : Int) : EpollPoller κ :=
  p.setChannel c { p.channels c with index := index }

def updateChannel (p : EpollPoller κ) (c : κ) : EpollPoller κ :=
  let index := (p.channels c).index
  if index = kNew ∨ index = kDeleted then
    let p := if index = kNew then
        { p with channelMaps := Function.update p.channelMaps (p.channels c).fd (some c) }
      else p
    (p.setIndex c kAdded).update .add c
  else if (p.channels c).isNoneEvent then
    (p.update .del c).setIndex c kDeleted
  else
    p.update .mod c

def removeChannel (p : EpollPoller κ) (c : κ) : EpollPoller κ :=
  let fd := (p.channels c).fd
  let p := { p with channelMaps := Function.update p.channelMaps fd none }
  let p := if (p.channels c).index = kAdded then p.update .del c else p
  p.setIndex c kNew

/-- `Poller::HasChannel`. -/
def hasChannel (p : EpollPoller κ) (c : κ) : Bool :=
  p.channelMaps (p.channels c).fd == some c

/-- The calls made on a channel: a change of the mask followed by `Update()`, or `Remove()`. -/
inductive Call (κ : Type) where
  | change (c : κ) (ch : Channel.Change)
  | remove (c : κ)

def call (p : EpollPoller κ) : Call κ → EpollPoller κ
  | .change c ch => (p.setChannel c ((p.channels c).change ch)).updateChannel c
  | .remove c => p.removeChannel c

/-- Channels as constructed, on pairwise distinct descriptors; nothing registered. -/
structure Initial (p : EpollPoller κ) : Prop where
  distinct : Function.Injective fun c => (p.channels c).fd
  fresh : ∀ c, p.channels c = Channel.new (p.channels c).fd
  unmapped : ∀ fd, p.channelMaps fd = none
  unwatched : ∀ fd, p.epollSet fd = none
  noErrors : p.ctlErrors = []
  running : p.aborted = false

def machine (κ : Type) [DecidableEq κ] : Machine (EpollPoller κ) (Call κ) where
  start := Initial
  step p a := if p.aborted then none else some (p.call a)

/-! ## The three copies agree -/

/-- What one channel's registration looks like in the three places. -/
def MirrorAt (channel : Channel) (c : κ) (entry : Option κ) (watched : Option (Event κ)) : Prop :=
  (channel.index = kNew ∧ entry = none ∧ watched = none) ∨
  (channel.index = kDeleted ∧ entry = some c ∧ watched = none) ∨
  (channel.index = kAdded ∧ entry = some c ∧ watched = some ⟨channel.events, c⟩)

structure Mirror (p : EpollPoller κ) : Prop where
  distinct : Function.Injective fun c => (p.channels c).fd
  mirrorAt : ∀ c, MirrorAt (p.channels c) c (p.channelMaps (p.channels c).fd)
    (p.epollSet (p.channels c).fd)
  noErrors : p.ctlErrors = []
  running : p.aborted = false

omit [DecidableEq κ] in
theorem Initial.mirror {p : EpollPoller κ} (h : Initial p) : Mirror p := by
  constructor
  · exact h.distinct
  · intro c
    left
    refine ⟨?_, h.unmapped _, h.unwatched _⟩
    rw [h.fresh c]
    rfl
  · exact h.noErrors
  · exact h.running

/-! ## One call -/

def write (p : EpollPoller κ) (c : κ) (channel : Channel) (entry : Option κ)
    (watched : Option (Event κ)) : EpollPoller κ :=
  { p with
    channels := Function.update p.channels c channel
    channelMaps := Function.update p.channelMaps (p.channels c).fd entry
    epollSet := Function.update p.epollSet (p.channels c).fd watched }

/-- Only the written channel's own registration has to be checked: the cells of
another channel are under another descriptor. -/
theorem Mirror.write {p : EpollPoller κ} (h : Mirror p) {c : κ} {channel : Channel}
    {entry : Option κ} {watched : Option (Event κ)} (hfd : channel.fd = (p.channels c).fd)
    (hat : MirrorAt channel c entry watched) : Mirror (p.write c channel entry watched) := by
  have hfds : ∀ d, ((p.write c channel entry watched).channels d).fd = (p.channels d).fd := by
    intro d
    by_cases hd : d = c
    · subst hd
      simp [EpollPoller.write, hfd]
    · simp [EpollPoller.write, hd]
  constructor
  · intro d e hde
    apply h.distinct
    simpa only [hfds] using hde
  · intro d
    rw [hfds d]
    by_cases hd : d = c
    · subst hd
      simpa [EpollPoller.write] using hat
    · have hne : (p.channels d).fd ≠ (p.channels c).fd := fun heq => hd (h.distinct heq)
      simpa [EpollPoller.write, hd, hne] using h.mirrorAt d
  · exact h.noErrors
  · exact h.running

/-- A mask change followed by `Update()` adds an unwatched channel and modifies a
watched one, -/
theorem Mirror.call_change {p : EpollPoller κ} (h : Mirror p) {c : κ} {ch : Channel.Change}
    (hkeep : (p.channels c).index ≠ kAdded ∨ ((p.channels c).change ch).isNoneEvent = false) :
    p.call (.change c ch) = p.write c { (p.channels c).change ch with index := kAdded } (some c)
      (some ⟨((p.channels c).change ch).events, c⟩) := by
  rcases h.mirrorAt c with ⟨hi, hm, hs⟩ | ⟨hi, hm, hs⟩ | ⟨hi, hm, hs⟩
  · simp [call, updateChannel, setIndex, setChannel, Channel.change, hi, update, epollCtl, hs,
      EpollPoller.write]
  · simp [call, updateChannel, setIndex, setChannel, Channel.change, hi, update, epollCtl, hs,
      EpollPoller.write, kNew, kDeleted, ← hm]
  · have hsome := hkeep.resolve_left fun hne => hne hi
    have hsame : { (p.channels c).change ch with index := kAdded } = (p.channels c).change ch := by
      simp [Channel.change, hi]
    rw [hsame]
    simp [call, updateChannel, setIndex, setChannel, Channel.change, hi, update, epollCtl, hs,
      EpollPoller.write, kNew, kDeleted, kAdded, ← hm] at hsome ⊢
    simp [hsome]

/-- and takes a watched one out whose mask has become empty. -/
theorem Mirror.call_change_none {p : EpollPoller κ} (h : Mirror p) {c : κ} {ch : Channel.Change}
    (hi : (p.channels c).index = kAdded)
    (hnone : ((p.channels c).change ch).isNoneEvent = true) :
    p.call (.change c ch) =
      p.write c { (p.channels c).change ch with index := kDeleted } (some c) none := by
  rcases h.mirrorAt c with ⟨hi', _, _⟩ | ⟨hi', _, _⟩ | ⟨_, hm, hs⟩
  · rw [hi] at hi'
    cases hi'
  · rw [hi] at hi'
    cases hi'
  · simp [call, updateChannel, setIndex, setChannel, Channel.change, hi, update, epollCtl, hs,
      EpollPoller.write, kNew, kDeleted, kAdded, ← hm] at hnone ⊢
    simp [hnone]

theorem mirror_change {p : EpollPoller κ} (h : Mirror p) (c : κ) (ch : Channel.Change) :
    Mirror (p.call (.change c ch)) := by
  by_cases hout : (p.channels c).index = kAdded ∧ ((p.channels c).change ch).isNoneEvent = true
  · rw [h.call_change_none hout.1 hout.2]
    exact h.write rfl (Or.inr (Or.inl ⟨rfl, rfl, rfl⟩))
  · have hkeep : (p.channels c).index ≠ kAdded ∨
        ((p.channels c).change ch).isNoneEvent = false := by
      rw [← Bool.not_eq_true]
      exact not_and_or.1 hout
    rw [h.call_change hkeep]
    exact h.write rfl (Or.inr (Or.inr ⟨rfl, rfl, rfl⟩))

theorem Mirror.call_remove {p : EpollPoller κ} (h : Mirror p) (c : κ) :
    p.call (.remove c) = p.write c { p.channels c with index := kNew } none none := by
  rcases h.mirrorAt c with ⟨hi, hm, hs⟩ | ⟨hi, hm, hs⟩ | ⟨hi, hm, hs⟩
  · simp [call, removeChannel, setIndex, setChannel, hi, EpollPoller.write, kNew, kAdded, ← hs]
  · simp [call, removeChannel, setIndex, setChannel, hi, EpollPoller.write, kDeleted, kAdded,
      ← hs]
  · simp [call, removeChannel, setIndex, setChannel, hi, update, epollCtl, hs,
      EpollPoller.write]

theorem mirror_remove {p : EpollPoller κ} (h : Mirror p) (c : κ) :
    Mirror (p.call (.remove c)) := by
  rw [h.call_remove]
  exact h.write rfl (Or.inl ⟨rfl, rfl, rfl⟩)

/-! ## The channel's own copy -/

/-- The `index_` a channel has after `UpdateChannel`. -/
def updatedIndex (channel : Channel) : Int :=
  if channel.index = kNew ∨ channel.index = kDeleted then kAdded
  else if channel.isNoneEvent then kDeleted
  else channel.index

omit [DecidableEq κ] in
@[simp] theorem update_channels (p : EpollPoller κ) (op : Operation) (c : κ) :
    (p.update op c).channels = p.channels := by
  unfold update
  dsimp only
  split <;> rfl

omit [DecidableEq κ] in
@[simp] theorem update_channelMaps (p : EpollPoller κ) (op : Operation) (c : κ) :
    (p.update op c).channelMaps = p.channelMaps := by
  unfold update
  dsimp only
  split <;> rfl

theorem updateChannel_channels (p : EpollPoller κ) (c : κ) :
    (p.updateChannel c).channels c =
      { p.channels c with index := updatedIndex (p.channels c) } := by
  unfold updateChannel updatedIndex
  dsimp only
  split
  · split <;> simp [setIndex, setChannel]
  · split
    · simp [setIndex, setChannel]
    · simp

theorem removeChannel_channels (p : EpollPoller κ) (c : κ) :
    (p.removeChannel c).channels c = { p.channels c with index := kNew } := by
  unfold removeChannel
  dsimp only
  split <;> simp [setIndex, setChannel]

/-! ## What a call can leave in the other two -/

variable {p : EpollPoller κ} {c d : κ} {fd : Int} {e : Event κ}

omit [DecidableEq κ] in
theorem epollCtl_some {set set' : Int → Option (Event κ)} {op : Operation}
    (h : epollCtl set op fd e = some set') :
    set' = Function.update set fd (if op = .del then none else some e) := by
  unfold epollCtl at h
  split at h <;> cases h <;> rfl

omit [DecidableEq κ] in
/-- A successful `epoll_ctl` writes under its own descriptor, and a `DEL` leaves
nothing there. -/
theorem update_epollSet {op : Operation} (h : (p.update op c).epollSet fd = some e) :
    (op ≠ .del ∧ e.ptr = c ∧ fd = (p.channels c).fd) ∨
      (p.epollSet fd = some e ∧ (op = .del → fd ≠ (p.channels c).fd)) := by
  unfold update at h
  dsimp only at h
  split at h
  · rename_i set hctl
    dsimp only at h
    rw [epollCtl_some hctl, Function.update_apply] at h
    split at h
    · rename_i hfd
      split at h
      · cases h
      · rename_i hop
        cases h
        exact Or.inl ⟨hop, rfl, hfd⟩
    · rename_i hfd
      exact Or.inr ⟨h, fun _ => hfd⟩
  · rename_i hctl
    refine Or.inr ⟨h, ?_⟩
    rintro rfl rfl
    dsimp only at h
    simp [epollCtl, h] at hctl

theorem updateChannel_channelMaps (h : (p.updateChannel c).channelMaps fd = some d) :
    p.channelMaps fd = some d ∨ d = c ∧ fd = (p.channels c).fd := by
  unfold updateChannel at h
  dsimp only at h
  split at h
  · split at h
    · simp only [setIndex, setChannel, update_channelMaps, Function.update_apply] at h
      split at h
      · rename_i hfd
        exact Or.inr ⟨(Option.some.inj h).symm, hfd⟩
      · exact Or.inl h
    · exact Or.inl (by simpa [setIndex, setChannel] using h)
  · split at h
    · exact Or.inl (by simpa [setIndex, setChannel] using h)
    · exact Or.inl (by simpa using h)

theorem updateChannel_epollSet (h : (p.updateChannel c).epollSet fd = some e) :
    (updatedIndex (p.channels c) ≠ kDeleted ∧ e.ptr = c ∧ fd = (p.channels c).fd) ∨
      (p.epollSet fd = some e ∧
        (updatedIndex (p.channels c) = kDeleted → fd ≠ (p.channels c).fd)) := by
  unfold updateChannel at h
  dsimp only at h
  split at h
  · rename_i hindex
    have hnew : updatedIndex (p.channels c) = kAdded := by rw [updatedIndex, if_pos hindex]
    have hne : kAdded ≠ kDeleted := by decide
    have hadd := update_epollSet h
    simp only [hnew, ne_eq, hne, not_false_eq_true, true_and, false_implies, and_true]
    split at hadd <;> simpa [setIndex, setChannel] using hadd
  · rename_i hindex
    have hne : kDeleted ≠ kAdded := by decide
    split at h
    · rename_i hnone
      have hdel : updatedIndex (p.channels c) = kDeleted := by
        rw [updatedIndex, if_neg hindex, if_pos hnone]
      have hkept := update_epollSet (p := p) (c := c) h
      simpa [hdel] using hkept
    · rename_i hsome
      have hmod : updatedIndex (p.channels c) = (p.channels c).index := by
        rw [updatedIndex, if_neg hindex, if_neg hsome]
      have hkept : (p.channels c).index ≠ kDeleted := fun heq => hindex (Or.inr heq)
      simpa [hmod, hkept] using update_epollSet h

theorem removeChannel_channelMaps (h : (p.removeChannel c).channelMaps fd = some d) :
    p.channelMaps fd = some d ∧ fd ≠ (p.channels c).fd := by
  have hmaps : (p.removeChannel c).channelMaps =
      Function.update p.channelMaps (p.channels c).fd none := by
    unfold removeChannel
    dsimp only
    split <;> simp [setIndex, setChannel]
  rw [hmaps, Function.update_apply] at h
  split at h
  · cases h
  · rename_i hfd
    exact ⟨h, hfd⟩

theorem removeChannel_epollSet (h : (p.removeChannel c).epollSet fd = some e) :
    p.epollSet fd = some e ∧ ((p.channels c).index = kAdded → fd ≠ (p.channels c).fd) := by
  unfold removeChannel at h
  dsimp only at h
  split at h
  · have hdel := update_epollSet h
    simp only [ne_eq, not_true_eq_false, false_and, true_implies, false_or] at hdel
    exact ⟨hdel.1, fun _ => hdel.2⟩
  · rename_i hindex
    exact ⟨h, fun hadded => absurd hadded hindex⟩

/-! ## Whole runs -/

theorem mirror_step {p p' : EpollPoller κ} {a : Call κ} (h : Mirror p)
    (hs : (machine κ).step p a = some p') : Mirror p' := by
  simp only [machine, h.running, Bool.false_eq_true, if_false, Option.some.injEq] at hs
  subst hs
  cases a with
  | change c ch => exact mirror_change h c ch
  | remove c => exact mirror_remove h c

/-- In every state a sequence of channel calls reaches, the index, the map and
the kernel agree about every channel, and no `epoll_ctl` call has failed. -/
theorem epoll_mirrors_kernel (p : EpollPoller κ) (h : (machine κ).Reach (fun _ _ => True) p) :
    (∀ c, (p.channels c).index = kAdded ↔ (p.epollSet (p.channels c).fd).isSome = true) ∧
    (∀ c e, p.epollSet (p.channels c).fd = some e →
      e.events = (p.channels c).events ∧ e.ptr = c) ∧
    (∀ c, p.channelMaps (p.channels c).fd = some c ↔ (p.channels c).index ≠ kNew) ∧
    p.ctlErrors = [] ∧ p.aborted = false := by
  have hm : Mirror p := h.invariant (fun _ => Initial.mirror) (fun _ _ _ hI _ => mirror_step hI)
  refine ⟨?_, ?_, ?_, hm.noErrors, hm.running⟩
  · intro c
    rcases hm.mirrorAt c with ⟨hi, _, hs⟩ | ⟨hi, _, hs⟩ | ⟨hi, _, hs⟩ <;>
      simp [hi, hs, kNew, kAdded, kDeleted]
  · intro c e he
    rcases hm.mirrorAt c with ⟨_, _, hs⟩ | ⟨_, _, hs⟩ | ⟨_, _, hs⟩
    · simp [hs] at he
    · simp [hs] at he
    · rw [hs] at he
      cases he
      exact ⟨rfl, rfl⟩
  · intro c
    rcases hm.mirrorAt c with ⟨hi, he, _⟩ | ⟨hi, he, _⟩ | ⟨hi, he, _⟩ <;>
      simp [hi, he, kNew, kAdded, kDeleted]

def twoChannels : EpollPoller Bool where
  channels c := Channel.new (if c then 4 else 3)
  channelMaps _ := none
  epollSet _ := none
  ctlErrors := []
  aborted := false

theorem epoll_mirrors_kernel_twoChannels :
    ∃ p, (machine Bool).run twoChannels
        [.change true .enableRead, .change true .disableAll, .remove true, .remove true,
          .change false .disableAll, .change true .enableWrite] = some p ∧
      (p.channels true).index = kAdded ∧ (p.epollSet 4).isSome = true := by
  have hstart : (machine Bool).Reach (fun _ _ => True) twoChannels := by
    apply Machine.Reach.start
    constructor
    · intro c d hcd
      revert c d
      decide
    all_goals
      intros
      rfl
  refine ⟨_, rfl, rfl, ?_⟩
  have hreach := hstart.of_run [.change true .enableRead, .change true .disableAll,
    .remove true, .remove true, .change false .disableAll, .change true .enableWrite]
    (fun _ _ _ => trivial) rfl
  exact ((epoll_mirrors_kernel _ hreach).1 true).1 rfl

end EpollPoller

end MyNetLib
