import MyNetLib.Reactor.EpollPoller

/-! # The poll poller (`src/poll_poller.cc`)

The channel's `index_` is its place in `poll_list_`. Removal moves the last slot
into the freed place and rewrites the index of the channel that was there; the
index of the removed channel and its entry in `channel_maps_` stay as they are.
A `none` is an access outside `poll_list_` or through a null entry of the map.
-/

namespace MyNetLib

open Library

/-- `struct pollfd`, with its `short` masks. -/
structure Pollfd where
  fd : Int
  events : BitVec 16
  revents : BitVec 16
  deriving DecidableEq, Repr

structure PollPoller (κ : Type) where
  channels : κ → Channel
  channelMaps : Int → Option κ
  pollList : List Pollfd

namespace PollPoller

variable {κ : Type}

/-- The slot `UpdateChannel` writes. -/
def pollfd (channel : Channel) : Pollfd := ⟨channel.fd, channel.events.setWidth 16, 0#16⟩

/-- The loop of `FillActiveChannnels`, with what is left of `nready`. -/
def fillActive (channelMaps : Int → Option κ) : Nat → List Pollfd → List (κ × BitVec 16)
  | 0, _ => []
  | _, [] => []
  | nready + 1, slot :: rest =>
      if 0 < slot.revents.toInt then
        match channelMaps slot.fd with
        | some c => (c, slot.revents) :: fillActive channelMaps nready rest
        | none => fillActive channelMaps (nready + 1) rest
      else fillActive channelMaps (nready + 1) rest

variable [DecidableEq κ]

def setChannel (p : PollPoller κ) (c : κ) (ch : Channel) : PollPoller κ :=
  { p with channels := Function.update p.channels c ch }

def setIndex (p : PollPoller κ) (c : κ) (index : Int) : PollPoller κ :=
  p.setChannel c { p.channels c with index := index }

def updateChannel (p : PollPoller κ) (c : κ) : Option (PollPoller κ) :=
  let channel := p.channels c
  if channel.index < 0 then
    some ({ p with
      pollList := p.pollList ++ [pollfd channel]
      channelMaps := Function.update p.channelMaps channel.fd (some c) }.setIndex c
        p.pollList.length)
  else if channel.index < p.pollList.length then
    some { p with pollList := p.pollList.set channel.index.toNat (pollfd channel) }
  else none

/-- `pop_back` of the last slot, or its swap with the one at `idx` before that. -/
def removeChannel (p : PollPoller κ) (c : κ) : Option (PollPoller κ) :=
  let idx := (p.channels c).index
  match p.pollList.getLast? with
  | none => none
  | some last =>
      if idx = (p.pollList.length : Int) - 1 then
        some { p with pollList := p.pollList.dropLast }
      else if 0 ≤ idx ∧ idx < p.pollList.length then
        (p.channelMaps last.fd).map fun d =>
          { p with pollList := (p.pollList.set idx.toNat last).dropLast }.setIndex d idx
      else none

/-- `Poller::HasChannel`. -/
def hasChannel (p : PollPoller κ) (c : κ) : Bool :=
  p.channelMaps (p.channels c).fd == some c

def call (p : PollPoller κ) : EpollPoller.Call κ → Option (PollPoller κ)
  | .change c ch => (p.setChannel c ((p.channels c).change ch)).updateChannel c
  | .remove c => p.removeChannel c

/-- Channels as constructed, on pairwise distinct descriptors; nothing registered. -/
structure Initial (p : PollPoller κ) : Prop where
  distinct : Function.Injective fun c => (p.channels c).fd
  fresh : ∀ c, p.channels c = Channel.new (p.channels c).fd
  unmapped : ∀ fd, p.channelMaps fd = none
  empty : p.pollList = []

def machine (κ : Type) [DecidableEq κ] : Machine (PollPoller κ) (EpollPoller.Call κ) where
  start := Initial
  step := call

end PollPoller

end MyNetLib
