import Mathlib

/-! # Channels (`include/channel.h`)

The interest mask of a channel and the operations that change it. Every one of
them ends with `Update()`, which hands the channel to the poller of its loop;
what the poller then does is modelled with the poller.
-/

namespace MyNetLib

structure Channel where
  fd : Int
  events : BitVec 32
  index : Int
  deriving DecidableEq, Repr

namespace Channel

/-- `EPOLLIN | EPOLLPRI`. -/
def kReadEvent : BitVec 32 := 3#32
/-- `EPOLLOUT`. -/
def kWriteEvent : BitVec 32 := 4#32
def kNoneEvent : BitVec 32 := 0#32

/-- The constructor: nothing watched, unknown to the poller. -/
def new (fd : Int) : Channel := { fd := fd, events := 0#32, index := -1 }

def isNoneEvent (c : Channel) : Bool := c.events == kNoneEvent
def isWriting (c : Channel) : Bool := c.events &&& kWriteEvent != 0#32
def isReading (c : Channel) : Bool := c.events &&& kReadEvent != 0#32

/-- What a caller does to the mask before `Update()`. -/
inductive Change where
  | enableRead
  | disableRead
  | enableWrite
  | disableWrite
  | disableAll
  deriving DecidableEq, Repr

def mask (events : BitVec 32) : Change → BitVec 32
  | .enableRead => events ||| kReadEvent
  | .disableRead => events &&& ~~~kReadEvent
  | .enableWrite => events ||| kWriteEvent
  | .disableWrite => events &&& ~~~kWriteEvent
  | .disableAll => kNoneEvent

def change (c : Channel) (ch : Change) : Channel := { c with events := mask c.events ch }

def enableRead (c : Channel) : Channel := c.change .enableRead
def disableRead (c : Channel) : Channel := c.change .disableRead
def enableWrite (c : Channel) : Channel := c.change .enableWrite
def disableWrite (c : Channel) : Channel := c.change .disableWrite
def disableAll (c : Channel) : Channel := c.change .disableAll

/-! ## Dispatch -/

def POLLIN : BitVec 32 := 1#32
def POLLPRI : BitVec 32 := 2#32
def POLLOUT : BitVec 32 := 4#32
def POLLERR : BitVec 32 := 8#32
def POLLHUP : BitVec 32 := 16#32

inductive Handler where
  | close
  | error
  | read
  | write
  deriving DecidableEq, Repr

/-- The first condition of `HandleEventWithGuard`. -/
def hangsUp (revents : BitVec 32) : Bool :=
  revents &&& POLLHUP != 0#32 && revents &&& POLLIN == 0#32

/-- The callbacks `HandleEventWithGuard` calls, in order. -/
def handleEventWithGuard (revents : BitVec 32) : List Handler :=
  (if hangsUp revents then [.close] else []) ++
  (if revents &&& POLLERR != 0#32 then [.error] else []) ++
  (if revents &&& (POLLIN ||| POLLPRI) != 0#32 then [.read] else []) ++
  (if revents &&& POLLOUT != 0#32 then [.write] else [])

/-! ## The write bit -/

@[simp] theorem isWriting_new (fd : Int) : (new fd).isWriting = false := by
  simp [isWriting, new]

@[simp] theorem isWriting_enableWrite (c : Channel) : c.enableWrite.isWriting = true := by
  have hbit : (c.events ||| kWriteEvent) &&& kWriteEvent = kWriteEvent := by
    ext i hi
    simp only [BitVec.getElem_and, BitVec.getElem_or]
    cases c.events[i] <;> simp
  simp only [isWriting, enableWrite, change, mask, hbit]
  decide

@[simp] theorem isWriting_disableWrite (c : Channel) : c.disableWrite.isWriting = false := by
  have hbit : c.events &&& ~~~kWriteEvent &&& kWriteEvent = 0#32 := by
    rw [BitVec.and_assoc]
    have hnone : ~~~kWriteEvent &&& kWriteEvent = 0#32 := by decide
    rw [hnone, BitVec.and_zero]
  simp [isWriting, disableWrite, change, mask, hbit]

@[simp] theorem isWriting_enableRead (c : Channel) : c.enableRead.isWriting = c.isWriting := by
  have hbit : (c.events ||| kReadEvent) &&& kWriteEvent = c.events &&& kWriteEvent := by
    ext i hi
    simp only [BitVec.getElem_and, BitVec.getElem_or]
    have hdisjoint : kReadEvent[i] = true → kWriteEvent[i] = false := by
      revert i
      decide
    cases hr : kReadEvent[i]
    · simp
    · simp [hdisjoint hr]
  simp [isWriting, enableRead, change, mask, hbit]

end Channel

end MyNetLib
