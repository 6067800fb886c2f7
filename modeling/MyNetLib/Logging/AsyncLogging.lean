import MyNetLib.Library.Machine
import MyNetLib.Logging.LogStream

/-! # Asynchronous logging (`src/async_logging.cc`)

Producers run `Append` under the lock, so one call is one step. The backend
thread is a program counter over `ThreadFunc`: its critical section is one step
unless it waits, each buffer is handed to the log file in a step of its own,
and the unlocked read of `buffer_to_write_.size()` is a step between which and
the others producers may run. Buffers are unique pointers, `none` when null. A
failed assertion, a null dereference, a pop from an empty vector and an erase
with a foreign iterator end the run in a failure. `appended` records the
messages in lock order.
-/

namespace MyNetLib

open Library

namespace AsyncLogging

inductive Failure where
  | assertion
  | nullBuffer
  | emptyPop
  | foreignErase
  deriving DecidableEq, Repr

/-- Positions in `ThreadFunc`; `writing i` is before the hand-over of element `i`. -/
inductive Pc where
  | notStarted
  | head
  | locking
  | waiting
  | checking
  | writing (i : Nat)
  | resizing
  | refilling
  | done
  deriving DecidableEq, Repr

abbrev BufferPtr (size : Nat) := Option (FixedBuffer size)

def content {size : Nat} (p : BufferPtr size) : List Byte :=
  match p with
  | none => []
  | some b => b.data

/-- A message shorter than a buffer. -/
structure Msg (size : Nat) where
  text : List Byte
  short : text.length < size

def bytes {size : Nat} (ms : List (Msg size)) : List Byte := (ms.map Msg.text).flatten

end AsyncLogging

open AsyncLogging in
structure AsyncLogging (size : Nat) where
  running : Bool
  curBuffer : BufferPtr size
  nextBuffer : BufferPtr size
  bufferToWrite : List (BufferPtr size)
  newBuffer1 : BufferPtr size
  newBuffer2 : BufferPtr size
  tempBufferVec : List (BufferPtr size)
  pc : Pc
  logFile : List (List Byte)
  failure : Option Failure
  appended : List (Msg size)
  stopCalled : Bool
  stopReturned : Bool

namespace AsyncLogging

variable {size : Nat}

def new : AsyncLogging size where
  running := false
  curBuffer := some .new
  nextBuffer := some .new
  bufferToWrite := []
  newBuffer1 := none
  newBuffer2 := none
  tempBufferVec := []
  pc := .notStarted
  logFile := []
  failure := none
  appended := []
  stopCalled := false
  stopReturned := false

def fail (s : AsyncLogging size) (f : Failure) : AsyncLogging size := { s with failure := some f }

def append (s : AsyncLogging size) (msg : Msg size) : AsyncLogging size :=
  match s.curBuffer with
  | none => s.fail .nullBuffer
  | some cur =>
      if msg.text.length < cur.avail then
        { s with curBuffer := some (cur.append msg.text), appended := s.appended ++ [msg] }
      else
        let fresh := s.nextBuffer.getD .new
        { s with
          bufferToWrite := s.bufferToWrite ++ [some cur]
          curBuffer := some (fresh.append msg.text)
          nextBuffer := none
          appended := s.appended ++ [msg] }

theorem append_of_lt {s : AsyncLogging size} {msg : Msg size} {cur : FixedBuffer size}
    (hcur : s.curBuffer = some cur) (hfit : msg.text.length < cur.avail) :
    s.append msg =
      { s with curBuffer := some (cur.append msg.text), appended := s.appended ++ [msg] } := by
  simp [append, hcur, hfit]

theorem append_of_ge {s : AsyncLogging size} {msg : Msg size} {cur : FixedBuffer size}
    (hcur : s.curBuffer = some cur) (hfull : cur.avail ≤ msg.text.length) :
    s.append msg = { s with
      bufferToWrite := s.bufferToWrite ++ [some cur]
      curBuffer := some ((s.nextBuffer.getD .new).append msg.text)
      nextBuffer := none
      appended := s.appended ++ [msg] } := by
  simp [append, hcur, Nat.not_lt.2 hfull]

theorem append_frame (s : AsyncLogging size) (msg : Msg size) :
    ∃ cur next queue failure appended, s.append msg =
      { s with
        curBuffer := cur
        nextBuffer := next
        bufferToWrite := queue
        failure := failure
        appended := appended } ∧ s.appended <+: appended := by
  unfold append
  split
  · exact ⟨_, _, _, _, _, rfl, List.prefix_rfl⟩
  · split
    · exact ⟨_, _, _, _, _, rfl, List.prefix_append _ _⟩
    · exact ⟨_, _, _, _, _, rfl, List.prefix_append _ _⟩

/-- `Start`; the new thread allocates its two spares before the loop. -/
def start (s : AsyncLogging size) : AsyncLogging size :=
  { s with running := true, pc := .head, newBuffer1 := some .new, newBuffer2 := some .new }

/-- The three assertions at the loop head. -/
def headAssertions (s : AsyncLogging size) : Bool :=
  (match s.newBuffer1 with | none => false | some b => b.length == 0) &&
  (match s.newBuffer2 with | none => false | some b => b.length == 0) &&
  s.tempBufferVec.isEmpty

/-- The rest of the critical section, once the wait is over or was not needed. -/
def swapBuffers (s : AsyncLogging size) : AsyncLogging size :=
  { s with
    bufferToWrite := s.tempBufferVec
    tempBufferVec := s.bufferToWrite ++ [s.curBuffer]
    curBuffer := s.newBuffer1
    newBuffer1 := none
    nextBuffer := if s.nextBuffer.isSome then s.nextBuffer else s.newBuffer2
    newBuffer2 := if s.nextBuffer.isSome then s.newBuffer2 else none
    pc := .checking }

/-- `vector::resize` on unique pointers: new elements are null. -/
def resizeVec (v : List (BufferPtr size)) (n : Nat) : List (BufferPtr size) :=
  v.take n ++ List.replicate (n - v.length) none

/-- `if (!spare)`: take the last buffer of the vector and reset it. -/
def refill (spare : BufferPtr size) (v : List (BufferPtr size)) :
    Except Failure (BufferPtr size × List (BufferPtr size)) :=
  match spare with
  | some b => .ok (some b, v)
  | none =>
      match v.getLast? with
      | none => .error .emptyPop
      | some none => .error .nullBuffer
      | some (some b) => .ok (some b.reset, v.dropLast)

/-- One step of the backend thread; `none` while it does not run. -/
def backend (s : AsyncLogging size) : Option (AsyncLogging size) :=
  match s.pc with
  | .notStarted | .done => none
  | .head =>
      if s.running then
        if s.headAssertions then some { s with pc := .locking } else some (s.fail .assertion)
      else some { s with pc := .done }
  | .locking =>
      if s.bufferToWrite.isEmpty then some { s with pc := .waiting } else some s.swapBuffers
  | .waiting => some s.swapBuffers
  | .checking =>
      if 25 < s.tempBufferVec.length then some (s.fail .foreignErase)
      else some { s with pc := .writing 0 }
  | .writing i =>
      match s.tempBufferVec[i]? with
      | none => some { s with pc := .resizing }
      | some none => some (s.fail .nullBuffer)
      | some (some b) => some { s with logFile := s.logFile ++ [b.data], pc := .writing (i + 1) }
  | .resizing =>
      some { s with
        tempBufferVec :=
          if 2 < s.bufferToWrite.length then resizeVec s.tempBufferVec 2 else s.tempBufferVec
        pc := .refilling }
  | .refilling =>
      match refill s.newBuffer1 s.tempBufferVec with
      | .error f => some (s.fail f)
      | .ok (b1, v1) =>
          match refill s.newBuffer2 v1 with
          | .error f => some (s.fail f)
          | .ok (b2, _) =>
              some { s with newBuffer1 := b1, newBuffer2 := b2, tempBufferVec := [], pc := .head }

/-! ## What a step can do -/

/-- The ways an iteration can fail. -/
inductive Fails (s : AsyncLogging size) : Failure → Prop
  | assertion : s.pc = .head → s.running = true → s.headAssertions = false → Fails s .assertion
  | overload : s.pc = .checking → 25 < s.tempBufferVec.length → Fails s .foreignErase
  | write (i : Nat) : s.pc = .writing i → s.tempBufferVec[i]? = some none → Fails s .nullBuffer
  | refill1 (f : Failure) : s.pc = .refilling →
      refill s.newBuffer1 s.tempBufferVec = .error f → Fails s f
  | refill2 (f : Failure) (b1 : BufferPtr size) (v1 : List (BufferPtr size)) :
      s.pc = .refilling → refill s.newBuffer1 s.tempBufferVec = .ok (b1, v1) →
      refill s.newBuffer2 v1 = .error f → Fails s f

/-- Every step of the backend, with its guard and its effect. -/
inductive Move (s : AsyncLogging size) : AsyncLogging size → Prop
  | leave : s.pc = .head → s.running = false → Move s { s with pc := .done }
  | enter : s.pc = .head → s.running = true → s.headAssertions = true →
      Move s { s with pc := .locking }
  | wait : s.pc = .locking → Move s { s with pc := .waiting }
  | swap : s.pc = .locking ∨ s.pc = .waiting → Move s s.swapBuffers
  | check : s.pc = .checking → s.tempBufferVec.length ≤ 25 → Move s { s with pc := .writing 0 }
  | write (i : Nat) (b : FixedBuffer size) : s.pc = .writing i →
      s.tempBufferVec[i]? = some (some b) →
      Move s { s with logFile := s.logFile ++ [b.data], pc := .writing (i + 1) }
  | endWrite (i : Nat) : s.pc = .writing i → s.tempBufferVec[i]? = none →
      Move s { s with pc := .resizing }
  | resize : s.pc = .resizing →
      Move s { s with
        tempBufferVec :=
          if 2 < s.bufferToWrite.length then resizeVec s.tempBufferVec 2 else s.tempBufferVec
        pc := .refilling }
  | refill (b1 b2 : BufferPtr size) (v1 v2 : List (BufferPtr size)) : s.pc = .refilling →
      refill s.newBuffer1 s.tempBufferVec = .ok (b1, v1) → refill s.newBuffer2 v1 = .ok (b2, v2) →
      Move s { s with newBuffer1 := b1, newBuffer2 := b2, tempBufferVec := [], pc := .head }
  | fails (f : Failure) : Fails s f → Move s (s.fail f)

theorem backend_move {s s' : AsyncLogging size} (h : s.backend = some s') : Move s s' := by
  unfold backend at h
  split at h
  · cases h
  · cases h
  · rename_i hpc
    split at h
    · rename_i hrun
      split at h
      · rename_i hassert
        cases h
        exact .enter hpc hrun hassert
      · rename_i hassert
        cases h
        exact .fails _ (.assertion hpc hrun (by simpa using hassert))
    · rename_i hrun
      cases h
      exact .leave hpc (by simpa using hrun)
  · rename_i hpc
    split at h
    · cases h
      exact .wait hpc
    · cases h
      exact .swap (Or.inl hpc)
  · rename_i hpc
    cases h
    exact .swap (Or.inr hpc)
  · rename_i hpc
    split at h
    · rename_i hmany
      cases h
      exact .fails _ (.overload hpc hmany)
    · rename_i hfew
      cases h
      exact .check hpc (by omega)
  · rename_i i hpc
    split at h
    · rename_i hget
      cases h
      exact .endWrite i hpc hget
    · rename_i hget
      cases h
      exact .fails _ (.write i hpc hget)
    · rename_i b hget
      cases h
      exact .write i b hpc hget
  · rename_i hpc
    cases h
    exact .resize hpc
  · rename_i hpc
    split at h
    · rename_i f h1
      cases h
      exact .fails f (.refill1 f hpc h1)
    · rename_i b1 v1 h1
      split at h
      · rename_i f h2
        cases h
        exact .fails f (.refill2 f b1 v1 hpc h1 h2)
      · rename_i b2 v2 h2
        cases h
        exact .refill b1 b2 v1 v2 hpc h1 h2

/-! ## The machine -/

inductive Action (size : Nat) where
  | append (msg : Msg size)
  | start
  | backend
  | stop
  | stopReturns

def step (s : AsyncLogging size) (a : Action size) : Option (AsyncLogging size) :=
  if s.failure.isSome then none
  else
    match a with
    | .append msg => some (s.append msg)
    | .start => if s.pc = .notStarted then some s.start else none
    | .backend => s.backend
    | .stop =>
        if s.pc ≠ .notStarted ∧ s.stopCalled = false then
          some { s with running := false, stopCalled := true }
        else none
    | .stopReturns =>
        if s.pc = .done ∧ s.stopCalled = true ∧ s.stopReturned = false then
          some { s with stopReturned := true }
        else none

def machine (size : Nat) : Machine (AsyncLogging size) (Action size) where
  start s := s = .new
  step := step

end AsyncLogging

end MyNetLib
