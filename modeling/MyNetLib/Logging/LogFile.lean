import MyNetLib.Library.Chunks
import MyNetLib.Library.Machine
import MyNetLib.Library.Memory

/-! # Rolling log files (`src/log_file.cc`)

`files` are the files opened and closed so far, in order, and `file` is the one
being written; a file is known by the second in its name. What `stdio` has not been
told to flush is `buffered`. Each `Append` brings two readings of the clock, the
one of the check and the later one of `GetLogFileName`, and the results of its
`fwrite` calls. `lines` and `clock` only record the run.
-/

namespace MyNetLib

open Library

/-- One `fwrite_unlocked`: the bytes taken and `ferror`. -/
structure FwriteResult where
  n : Nat
  err : Bool
  deriving DecidableEq, Repr

structure AppendFile where
  opened : Int
  flushed : List Byte
  buffered : List Byte
  writtenBytes : Int
  deriving DecidableEq, Repr

namespace AppendFile

def new (now : Int) : AppendFile := ⟨now, [], [], 0⟩

def contents (f : AppendFile) : List Byte := f.flushed ++ f.buffered

/-- The loop of `Append`, from `written` on: the bytes counted and the bytes in the
file. A short write that ends it with an error is not counted. -/
def write (len : Nat) : List FwriteResult → Nat → Option (Nat × Nat)
  | [], written => if written = len then some (written, written) else none
  | w :: rest, written =>
      let remain := len - written
      if written = len ∨ remain < w.n then none
      else if w.n ≠ remain ∧ w.err then
        if rest.isEmpty then some (written, written + w.n) else none
      else write len rest (written + w.n)

def append (f : AppendFile) (line : List Byte) (writes : List FwriteResult) :
    Option AppendFile :=
  (write line.length writes 0).map fun o =>
    { f with
      buffered := f.buffered ++ line.take o.2
      writtenBytes := f.writtenBytes + o.1 }

def flush (f : AppendFile) : AppendFile := { f with flushed := f.contents, buffered := [] }

end AppendFile

structure LogFile where
  rollSize : Int
  flushInterval : Int
  checkEveryN : Int
  count : Int
  startOfPeriod : Int
  lastFlush : Int
  lastRoll : Int
  file : Option AppendFile
  files : List AppendFile
  lines : List (List Byte)
  clock : Int
  deriving DecidableEq, Repr

namespace LogFile

def kRollPerSeconds : Int := 60 * 60 * 24

def period (now : Int) : Int := now.tdiv kRollPerSeconds * kRollPerSeconds

/-- `RollFile`; `reset` closes the file there was, which flushes it. -/
def rollFile (s : LogFile) (now : Int) : LogFile × Bool :=
  if s.lastRoll < now then
    ({ s with
      lastRoll := now
      lastFlush := now
      startOfPeriod := period now
      files := s.files ++ s.file.toList.map AppendFile.flush
      file := some (.new now) }, true)
  else (s, false)

/-- The periodic check; the `else` belongs to the test of `RollFile`. -/
def check (s : LogFile) (now rollNow : Int) : LogFile :=
  if period now ≠ s.startOfPeriod then
    let r := s.rollFile rollNow
    if r.2 then r.1
    else if s.flushInterval < now - s.lastFlush then
      { r.1 with lastFlush := now, file := r.1.file.map AppendFile.flush }
    else r.1
  else s

/-- After `file_->Append(logline, len)`. -/
def written (s : LogFile) (line : List Byte) (writes : List FwriteResult) : Option LogFile :=
  match s.file with
  | none => none
  | some f =>
      (f.append line writes).map fun f' =>
        { s with file := some f', lines := s.lines ++ [line] }

/-- `file_->WrittenBytes() > roll_size_`. -/
def oversized (s : LogFile) : Bool := s.file.any fun f => s.rollSize < f.writtenBytes

/-- The rest of `AppendUnlocked`. -/
def after (s : LogFile) (now rollNow : Int) : LogFile :=
  if s.oversized then (s.rollFile rollNow).1
  else
    let s := { s with count := s.count + 1 }
    if s.checkEveryN ≤ s.count then { s with count := 0 }.check now rollNow else s

def appendUnlocked (s : LogFile) (line : List Byte) (writes : List FwriteResult)
    (now rollNow : Int) : Option LogFile :=
  (s.written line writes).map fun s' => s'.after now rollNow

/-- The constructor, up to its `RollFile()`. -/
def unopened (rollSize flushInterval checkEveryN : Int) : LogFile where
  rollSize := rollSize
  flushInterval := flushInterval
  checkEveryN := checkEveryN
  count := 0
  startOfPeriod := 0
  lastFlush := 0
  lastRoll := 0
  file := none
  files := []
  lines := []
  clock := 0

def new (rollSize flushInterval checkEveryN now : Int) : LogFile :=
  { ((unopened rollSize flushInterval checkEveryN).rollFile now).1 with clock := now }

inductive Action where
  | append (line : List Byte) (writes : List FwriteResult) (now rollNow : Int)
  | flush
  | rollFile (now : Int)

def step (s : LogFile) : Action → Option LogFile
  | .append line writes now rollNow =>
      (s.appendUnlocked line writes now rollNow).map fun s' => { s' with clock := rollNow }
  | .flush => s.file.map fun f => { s with file := some f.flush }
  | .rollFile now => some { (s.rollFile now).1 with clock := now }

/-- Any parameters; `first` is the reading of the constructor. -/
def machine (first : Int) : Machine LogFile Action where
  start s := ∃ rollSize flushInterval checkEveryN, s = new rollSize flushInterval checkEveryN first
  step := step

/-- The clock does not go back. -/
def Forward (s : LogFile) : Action → Prop
  | .append _ _ now rollNow => s.clock ≤ now ∧ now ≤ rollNow
  | .flush => True
  | .rollFile now => s.clock ≤ now

/-- No `fwrite` fails before it has taken the whole line. -/
def Accepted (line : List Byte) (writes : List FwriteResult) : Prop :=
  ∀ w ∈ writes, w.err = true → w.n = line.length

def Regular (s : LogFile) (a : Action) : Prop :=
  Forward s a ∧ match a with
    | .append line writes _ _ => Accepted line writes
    | _ => True

instance (s : LogFile) (a : Action) : Decidable (Forward s a) := by
  cases a <;> unfold Forward <;> infer_instance

instance (line : List Byte) (writes : List FwriteResult) : Decidable (Accepted line writes) := by
  unfold Accepted
  infer_instance

instance (s : LogFile) (a : Action) : Decidable (Regular s a) := by
  cases a <;> unfold Regular <;> infer_instance

/-- The `Append` performs the periodic check. -/
def Checks (s : LogFile) (line : List Byte) (writes : List FwriteResult) : Prop :=
  ∃ s', s.written line writes = some s' ∧ s'.oversized = false ∧ s'.checkEveryN ≤ s'.count + 1

end LogFile

/-! ## `AppendFile::Append` -/

namespace AppendFile

variable {f f' : AppendFile} {line : List Byte} {writes : List FwriteResult} {len written : Nat}
  {o : Nat × Nat}

@[simp] theorem contents_flush (f : AppendFile) : f.flush.contents = f.contents := by
  simp [flush, contents]

@[simp] theorem contents_new (now : Int) : (new now).contents = [] := rfl

theorem write_taken (h : write len writes written = some o) (hwritten : written ≤ len) :
    o.2 = written + (writes.map FwriteResult.n).sum ∧ o.2 ≤ len := by
  induction writes generalizing written with
  | nil =>
      simp only [write] at h
      split at h <;> cases h
      simp [hwritten]
  | cons w rest ih =>
      simp only [write] at h
      split at h
      · cases h
      · rename_i hroom
        split at h
        · split at h <;> cases h
          rename_i hempty
          rw [List.isEmpty_iff.1 hempty]
          simp only [List.map_cons, List.map_nil, List.sum_cons, List.sum_nil]
          omega
        · have hrest := ih h (by omega)
          simp only [List.map_cons, List.sum_cons]
          omega

theorem write_accepted (h : write len writes written = some o) (hwritten : written ≤ len)
    (haccepted : ∀ w ∈ writes, w.err = true → w.n = len) : o = (len, len) := by
  induction writes generalizing written with
  | nil =>
      simp only [write] at h
      split at h <;> cases h
      rename_i hdone
      rw [hdone]
  | cons w rest ih =>
      have hw := haccepted w List.mem_cons_self
      simp only [write] at h
      split at h
      · cases h
      · rename_i hroom
        split at h
        · rename_i hshort
          have hn := hw hshort.2
          omega
        · exact ih h (by omega) fun v hv => haccepted v (List.mem_cons_of_mem _ hv)

theorem append_accepted (h : f.append line writes = some f')
    (haccepted : LogFile.Accepted line writes) : f' = { f with
      buffered := f.buffered ++ line
      writtenBytes := f.writtenBytes + line.length } := by
  obtain ⟨o, ho, rfl⟩ := Option.map_eq_some_iff.1 h
  rw [write_accepted ho (Nat.zero_le _) haccepted, List.take_length]

theorem append_buffered (h : f.append line writes = some f') :
    f'.buffered = [] ↔ f.buffered = [] ∧ ∀ w ∈ writes, w.n = 0 := by
  obtain ⟨o, ho, rfl⟩ := Option.map_eq_some_iff.1 h
  have htaken := write_taken ho (Nat.zero_le _)
  have hlength : (line.take o.2).length = o.2 := by
    rw [List.length_take]
    omega
  have hnone : line.take o.2 = [] ↔ ∀ w ∈ writes, w.n = 0 := by
    rw [← List.length_eq_zero_iff, hlength, htaken.1, Nat.zero_add, List.sum_eq_zero_iff]
    simp
  simp only [List.append_eq_nil_iff, hnone]

end AppendFile

/-! ## Rolling -/

namespace LogFile

variable {s s' : LogFile} {f f' : AppendFile} {line : List Byte} {writes : List FwriteResult}
  {now rollNow first : Int} {a : Action}

theorem period_le {m n : Int} (h : m ≤ n) : period m ≤ period n := by
  unfold period
  have hday : (0 : Int) < kRollPerSeconds := by decide
  exact Int.mul_le_mul_of_nonneg_right (Int.tdiv_le_tdiv hday h) hday.le

/-- The lines are in the files one after the other, each in one; the files were opened
at increasing seconds, the current one at the last roll. -/
structure Rolled (s : LogFile) (f : AppendFile) : Prop where
  file : s.file = some f
  chunks : InChunks id s.lines ((s.files ++ [f]).map AppendFile.contents)
  increasing : ((s.files ++ [f]).map AppendFile.opened).Pairwise (· < ·)
  current : f.opened = s.lastRoll
  period : s.startOfPeriod = period s.lastRoll

/-- With a clock that does not go back `RollFile` leaves a file of this second. -/
theorem Rolled.rollFile (h : Rolled s f) (hnow : s.lastRoll ≤ now) :
    ∃ f', Rolled (s.rollFile now).1 f' ∧ (s.rollFile now).1.lastRoll = now := by
  unfold LogFile.rollFile
  by_cases hlater : s.lastRoll < now
  · rw [if_pos hlater]
    refine ⟨.new now, ⟨rfl, ?_, ?_, rfl, rfl⟩, rfl⟩
    · have hpush := h.chunks.push []
      simpa [h.file, List.append_assoc] using hpush
    · have hbefore : ∀ t ∈ (s.files ++ [f]).map AppendFile.opened, t < now := by
        have hincreasing := h.increasing
        simp only [List.map_append, List.map_cons, List.map_nil, List.pairwise_append,
          List.mem_singleton] at hincreasing
        intro t ht
        rw [List.map_append, List.mem_append] at ht
        rcases ht with ht | ht
        · have hlt := hincreasing.2.2 t ht f.opened rfl
          have hcurrent := h.current
          omega
        · have heq : t = f.opened := by simpa using ht
          have hcurrent := h.current
          omega
      have hfiles : (s.files ++ s.file.toList.map AppendFile.flush).map AppendFile.opened =
          (s.files ++ [f]).map AppendFile.opened := by
        simp [h.file, AppendFile.flush]
      rw [List.map_append, hfiles, List.pairwise_append]
      refine ⟨h.increasing, List.pairwise_singleton _ _, ?_⟩
      intro t ht u hu
      have hnew : u = now := by simpa [AppendFile.new] using hu
      rw [hnew]
      exact hbefore t ht
  · rw [if_neg hlater]
    exact ⟨f, h, by dsimp only; omega⟩

theorem Rolled.flush (h : Rolled s f) (lastFlush : Int) :
    Rolled { s with lastFlush := lastFlush, file := s.file.map AppendFile.flush } f.flush := by
  constructor
  · simp [h.file]
  · simpa using h.chunks
  · simpa [AppendFile.flush] using h.increasing
  · exact h.current
  · exact h.period

theorem Rolled.count (h : Rolled s f) (count : Int) : Rolled { s with count := count } f :=
  ⟨h.file, h.chunks, h.increasing, h.current, h.period⟩

theorem Rolled.written (h : Rolled s f) (haccepted : Accepted line writes)
    (hs : s.written line writes = some s') :
    ∃ f', Rolled s' f' ∧ s'.lastRoll = s.lastRoll ∧ s'.rollSize = s.rollSize := by
  unfold LogFile.written at hs
  rw [h.file] at hs
  obtain ⟨f', hf', rfl⟩ := Option.map_eq_some_iff.1 hs
  rw [AppendFile.append_accepted hf' haccepted]
  refine ⟨_, ⟨rfl, ?_, ?_, h.current, h.period⟩, rfl, rfl⟩
  · have hchunks : InChunks id s.lines (s.files.map AppendFile.contents ++ [f.contents]) := by
      simpa using h.chunks
    simpa [AppendFile.contents] using hchunks.extend line
  · simpa using h.increasing

/-- The periodic check leaves no period before that of its reading, and writes to a file
of this second or to the one there was. -/
theorem Rolled.check (h : Rolled s f) (hnow : s.lastRoll ≤ now) (hroll : now ≤ rollNow) :
    ∃ f', Rolled (s.check now rollNow) f' ∧ (s.check now rollNow).lastRoll ≤ rollNow ∧
      (f'.opened = rollNow ∨ f'.writtenBytes = f.writtenBytes) ∧
      LogFile.period now ≤ (s.check now rollNow).startOfPeriod := by
  unfold LogFile.check
  by_cases hday : LogFile.period now ≠ s.startOfPeriod
  · rw [if_pos hday]
    obtain ⟨f', hf', hlast⟩ := h.rollFile (hnow.trans hroll)
    have hopened : f'.opened = rollNow := hf'.current.trans hlast
    have hperiod : LogFile.period now ≤ (s.rollFile rollNow).1.startOfPeriod := by
      rw [hf'.period, hlast]
      exact period_le hroll
    dsimp only
    split
    · exact ⟨f', hf', hlast.le, Or.inl hopened, hperiod⟩
    · split
      · exact ⟨f'.flush, hf'.flush now, hlast.le, Or.inl hopened, hperiod⟩
      · exact ⟨f', hf', hlast.le, Or.inl hopened, hperiod⟩
  · rw [if_neg hday]
    exact ⟨f, h, hnow.trans hroll, Or.inr rfl, (not_not.1 hday).le⟩

theorem rollFile_rollSize (s : LogFile) (now : Int) :
    (s.rollFile now).1.rollSize = s.rollSize := by
  unfold LogFile.rollFile
  split <;> rfl

theorem check_rollSize (s : LogFile) (now rollNow : Int) :
    (s.check now rollNow).rollSize = s.rollSize := by
  unfold LogFile.check
  dsimp only
  split
  · split
    · exact rollFile_rollSize s rollNow
    · split <;> exact rollFile_rollSize s rollNow
  · rfl

theorem Rolled.after (h : Rolled s f) (hnow : s.lastRoll ≤ now) (hroll : now ≤ rollNow) :
    ∃ f', Rolled (s.after now rollNow) f' ∧ (s.after now rollNow).lastRoll ≤ rollNow ∧
      ((s.after now rollNow).rollSize < f'.writtenBytes → f'.opened = rollNow) ∧
      (s.oversized = false → s.checkEveryN ≤ s.count + 1 →
        LogFile.period now ≤ (s.after now rollNow).startOfPeriod) := by
  unfold LogFile.after
  by_cases hsize : s.oversized = true
  · rw [if_pos hsize]
    obtain ⟨f', hf', hlast⟩ := h.rollFile (hnow.trans hroll)
    exact ⟨f', hf', hlast.le, fun _ => hf'.current.trans hlast, by simp [hsize]⟩
  · rw [if_neg hsize]
    have hsmall : f.writtenBytes ≤ s.rollSize := by
      simpa [oversized, h.file] using hsize
    dsimp only
    split
    · obtain ⟨f', hf', hlast, hwritten, hperiod⟩ := (h.count 0).check hnow hroll
      refine ⟨f', hf', hlast, ?_, fun _ _ => hperiod⟩
      intro hlarge
      rw [check_rollSize] at hlarge
      refine hwritten.resolve_right fun hsame => ?_
      rw [hsame] at hlarge
      exact absurd hlarge (not_lt.2 hsmall)
    · rename_i hcount
      refine ⟨f, h.count _, hnow.trans hroll, ?_, fun _ hcheck => absurd hcheck hcount⟩
      exact fun hlarge => absurd hlarge (not_lt.2 hsmall)

theorem Rolled.append (h : Rolled s f) (haccepted : Accepted line writes)
    (hnow : s.lastRoll ≤ now) (hroll : now ≤ rollNow)
    (hs : s.appendUnlocked line writes now rollNow = some s') :
    ∃ f', Rolled s' f' ∧ s'.lastRoll ≤ rollNow ∧
      (s'.rollSize < f'.writtenBytes → f'.opened = rollNow) ∧
      (s.Checks line writes → LogFile.period now ≤ s'.startOfPeriod) := by
  obtain ⟨s₁, hs₁, rfl⟩ := Option.map_eq_some_iff.1 hs
  obtain ⟨f₁, hf₁, hlast, _⟩ := h.written haccepted hs₁
  obtain ⟨f', hf', hlast', hlarge, hperiod⟩ := hf₁.after (hlast ▸ hnow) hroll
  refine ⟨f', hf', hlast', hlarge, ?_⟩
  rintro ⟨s₂, hs₂, hsize, hcount⟩
  rw [hs₁, Option.some.injEq] at hs₂
  subst hs₂
  exact hperiod hsize hcount

theorem Rolled.clock (h : Rolled s f) (clock : Int) : Rolled { s with clock := clock } f :=
  ⟨h.file, h.chunks, h.increasing, h.current, h.period⟩

/-! ## Whole runs -/

theorem rolled_new (hfirst : 0 < first) (rollSize flushInterval checkEveryN : Int) :
    Rolled (new rollSize flushInterval checkEveryN first) (.new first) ∧
      (new rollSize flushInterval checkEveryN first).lastRoll = first := by
  have hopened : (unopened rollSize flushInterval checkEveryN).lastRoll < first := hfirst
  unfold new LogFile.rollFile
  rw [if_pos hopened]
  refine ⟨⟨rfl, ⟨[[]], rfl, rfl⟩, List.pairwise_singleton _ _, rfl, rfl⟩, rfl⟩

theorem rolled_step (h : Rolled s f) (hclock : s.lastRoll ≤ s.clock) (ha : Regular s a)
    (hs : s.step a = some s') : ∃ f', Rolled s' f' ∧ s'.lastRoll ≤ s'.clock := by
  cases a with
  | append line writes now rollNow =>
      obtain ⟨s₁, hs₁, rfl⟩ := Option.map_eq_some_iff.1 hs
      obtain ⟨f', hf', hlast, _⟩ := h.append ha.2 (hclock.trans ha.1.1) ha.1.2 hs₁
      exact ⟨f', hf'.clock rollNow, hlast⟩
  | flush =>
      simp only [step, h.file, Option.map_some, Option.some.injEq] at hs
      subst hs
      have hflush := h.flush s.lastFlush
      rw [h.file] at hflush
      exact ⟨f.flush, hflush, hclock⟩
  | rollFile now =>
      cases hs
      obtain ⟨f', hf', hlast⟩ := h.rollFile (hclock.trans ha.1)
      exact ⟨f', hf'.clock now, hlast.le⟩

theorem rolled_of_reach (hfirst : 0 < first) (h : (machine first).Reach Regular s) :
    ∃ f, Rolled s f ∧ s.lastRoll ≤ s.clock := by
  induction h with
  | start hs =>
      obtain ⟨rollSize, flushInterval, checkEveryN, rfl⟩ := hs
      obtain ⟨hrolled, hlast⟩ := rolled_new hfirst rollSize flushInterval checkEveryN
      exact ⟨_, hrolled, hlast.le⟩
  | step _ ha hs ih =>
      obtain ⟨f, hf, hclock⟩ := ih
      exact rolled_step hf hclock ha hs

/-- Rolling neither loses nor splits a line, opens one file a second at most, leaves an
oversized file only in its first second, and keeps up with the days it checks. -/
theorem rolling_lossless (hfirst : 0 < first) (h : (machine first).Reach Regular s) :
    (∃ f, s.file = some f ∧
      InChunks id s.lines ((s.files ++ [f]).map AppendFile.contents) ∧
      ((s.files ++ [f]).map AppendFile.contents).flatten = s.lines.flatten ∧
      ((s.files ++ [f]).map AppendFile.opened).Pairwise (· < ·)) ∧
    ∀ line writes now rollNow s', Regular s (.append line writes now rollNow) →
      s.step (.append line writes now rollNow) = some s' →
      (∀ f', s'.file = some f' → s'.rollSize < f'.writtenBytes → f'.opened = rollNow) ∧
      (s.Checks line writes → period now ≤ s'.startOfPeriod) := by
  obtain ⟨f, hf, hclock⟩ := rolled_of_reach hfirst h
  refine ⟨⟨f, hf.file, hf.chunks, ?_, hf.increasing⟩, ?_⟩
  · rw [hf.chunks.flatten, textOf, List.map_id]
  · intro line writes now rollNow s' ha hs
    obtain ⟨s₁, hs₁, rfl⟩ := Option.map_eq_some_iff.1 hs
    obtain ⟨f', hf', _, hlarge, hperiod⟩ :=
      hf.append ha.2 (hclock.trans ha.1.1) ha.1.2 hs₁
    refine ⟨fun f'' hfile => ?_, hperiod⟩
    have hsame : f' = f'' := Option.some.inj (hf'.file.symm.trans hfile)
    exact hsame ▸ hlarge

/-- Two lines of a byte a second apart, the first in the second of the constructor. -/
def twoLines : List Action :=
  [.append [65] [⟨1, false⟩] 86400 86400, .append [66] [⟨1, false⟩] 86401 86401]

theorem rolling_lossless_twoLines : ∃ s : LogFile, s.lines = [[65], [66]] ∧ s.files.length = 1 ∧
    ∃ f, s.file = some f ∧ ((s.files ++ [f]).map AppendFile.contents).flatten = [65, 66] := by
  obtain ⟨s, hs, htest⟩ := Machine.Reach.of_test (machine 86400) Regular
    (fun s => s.lines == [[65], [66]] && s.files.length == 1) twoLines
    (.start ⟨0, 3, 1, rfl⟩) (by decide +kernel)
  simp only [Bool.and_eq_true, beq_iff_eq] at htest
  obtain ⟨⟨f, hf, _, hcontents, _⟩, _⟩ := rolling_lossless (by decide) hs
  rw [htest.1] at hcontents
  exact ⟨s, htest.1, htest.2, f, hf, hcontents⟩

/-! ## Flushing -/

def Flushed (s : LogFile) : Prop := ∀ f ∈ s.files ++ s.file.toList, f.buffered = []

theorem rollFile_files (s : LogFile) (now : Int) (hclosed : ∀ f ∈ s.files, f.buffered = []) :
    (∀ f ∈ (s.rollFile now).1.files, f.buffered = []) ∧
      ((s.rollFile now).2 = true →
        Flushed (s.rollFile now).1 ∧ (s.rollFile now).1.lastFlush = now) ∧
      ((s.rollFile now).2 = false → (s.rollFile now).1 = s) := by
  unfold LogFile.rollFile
  split
  · have hfiles : ∀ f ∈ s.files ++ s.file.toList.map AppendFile.flush, f.buffered = [] := by
      intro f hf
      rcases List.mem_append.1 hf with hf | hf
      · exact hclosed f hf
      · obtain ⟨g, _, rfl⟩ := List.mem_map.1 hf
        rfl
    refine ⟨hfiles, fun _ => ⟨?_, rfl⟩, by simp⟩
    intro f hf
    rcases List.mem_append.1 hf with hf | hf
    · exact hfiles f hf
    · have hnew : f = .new now := by simpa using hf
      rw [hnew]
      rfl
  · exact ⟨hclosed, by simp, fun _ => rfl⟩

theorem rollFile_cases (s : LogFile) (now : Int) :
    (s.rollFile now).2 = true ∨ (s.rollFile now).2 = false ∧ (s.rollFile now).1 = s := by
  unfold LogFile.rollFile
  split
  · exact Or.inl rfl
  · exact Or.inr ⟨rfl, rfl⟩

theorem closed_step (hclosed : ∀ f ∈ s.files, f.buffered = []) (hs : s.step a = some s') :
    ∀ f ∈ s'.files, f.buffered = [] := by
  cases a with
  | append line writes now rollNow =>
      obtain ⟨s₁, hs₁, rfl⟩ := Option.map_eq_some_iff.1 hs
      obtain ⟨s₂, hs₂, rfl⟩ := Option.map_eq_some_iff.1 hs₁
      have hclosed₂ : ∀ f ∈ s₂.files, f.buffered = [] := by
        unfold LogFile.written at hs₂
        split at hs₂
        · cases hs₂
        · obtain ⟨f', _, rfl⟩ := Option.map_eq_some_iff.1 hs₂
          exact hclosed
      unfold LogFile.after
      split
      · exact (rollFile_files _ _ hclosed₂).1
      · dsimp only
        split
        · unfold LogFile.check
          dsimp only
          split
          · have hroll := (rollFile_files { s₂ with count := 0 } rollNow hclosed₂).1
            split
            · exact hroll
            · split <;> exact hroll
          · exact hclosed₂
        · exact hclosed₂
  | flush =>
      obtain ⟨f, _, rfl⟩ := Option.map_eq_some_iff.1 hs
      exact hclosed
  | rollFile now =>
      cases hs
      exact (rollFile_files _ _ hclosed).1

theorem closed_of_reach {guard : LogFile → Action → Prop} (h : (machine first).Reach guard s) :
    ∀ f ∈ s.files, f.buffered = [] := by
  induction h with
  | start hs =>
      obtain ⟨rollSize, flushInterval, checkEveryN, rfl⟩ := hs
      exact (rollFile_files (unopened rollSize flushInterval checkEveryN) first (by
        simp [unopened])).1
  | step _ _ hs ih => exact closed_step ih hs

theorem after_of_checks (hsize : s.oversized = false) (hcount : s.checkEveryN ≤ s.count + 1)
    (now rollNow : Int) : s.after now rollNow = { s with count := 0 }.check now rollNow := by
  unfold LogFile.after
  rw [if_neg (by simp [hsize])]
  exact if_pos hcount

theorem check_flushed (hclosed : ∀ f ∈ s.files, f.buffered = []) (hroll : now ≤ rollNow)
    (hdue : s.flushInterval < now - s.lastFlush) :
    (Flushed (s.check now rollNow) ∧ now ≤ (s.check now rollNow).lastFlush) ↔
      (period now ≠ s.startOfPeriod ∨ now ≤ s.lastFlush ∧ Flushed s) := by
  unfold LogFile.check
  by_cases hday : period now ≠ s.startOfPeriod
  · rw [if_pos hday]
    simp only [hday, ne_eq, not_false_eq_true, true_or, iff_true]
    rcases rollFile_cases s rollNow with hrolled | ⟨hrefused, hsame⟩
    · obtain ⟨hflushed, hlast⟩ := (rollFile_files _ _ hclosed).2.1 hrolled
      rw [if_pos hrolled]
      exact ⟨hflushed, by omega⟩
    · rw [hrefused, hsame, if_neg Bool.false_ne_true, if_pos hdue]
      refine ⟨?_, le_rfl⟩
      intro f hf
      rcases List.mem_append.1 hf with hf | hf
      · exact hclosed f hf
      · obtain ⟨g, _, rfl⟩ := Option.map_eq_some_iff.1 (Option.mem_toList.1 hf)
        rfl
  · rw [if_neg hday]
    simp [hday, and_comm]

/-- When a check finds the flush interval over, everything appended is flushed and
`last_flush_` up to date if and only if the day has changed, or else nothing was there
to flush and `last_flush_` was not behind. -/
theorem periodic_flush_iff (h : (machine first).Reach Forward s)
    (hforward : Forward s (.append line writes now rollNow))
    (hs : s.step (.append line writes now rollNow) = some s') (hcheck : s.Checks line writes)
    (hdue : s.flushInterval < now - s.lastFlush) :
    (Flushed s' ∧ now ≤ s'.lastFlush) ↔ (period now ≠ s.startOfPeriod ∨
      now ≤ s.lastFlush ∧ Flushed s ∧ ∀ w ∈ writes, w.n = 0) := by
  obtain ⟨s₁, hs₁, rfl⟩ := Option.map_eq_some_iff.1 hs
  obtain ⟨s₂, hs₂, rfl⟩ := Option.map_eq_some_iff.1 hs₁
  obtain ⟨s₃, hs₃, hsize, hcount⟩ := hcheck
  rw [hs₂, Option.some.injEq] at hs₃
  subst hs₃
  have hclosed := closed_of_reach h
  unfold LogFile.written at hs₂
  split at hs₂
  · cases hs₂
  · rename_i f hf
    obtain ⟨f', hf', rfl⟩ := Option.map_eq_some_iff.1 hs₂
    have hflushed : Flushed { s with count := 0, file := some f', lines := s.lines ++ [line] } ↔
        Flushed s ∧ ∀ w ∈ writes, w.n = 0 := by
      have hbuffered := AppendFile.append_buffered hf'
      simp only [Flushed, hf, Option.toList_some, List.mem_append, List.mem_singleton, or_imp,
        forall_and, forall_eq, hbuffered]
      exact (and_assoc).symm
    have hchecked := check_flushed
      (s := { s with count := 0, file := some f', lines := s.lines ++ [line] })
      hclosed hforward.2 hdue
    rw [hflushed] at hchecked
    have hafter := after_of_checks hsize hcount now rollNow
    rw [← hafter] at hchecked
    exact hchecked

/-- A line of a byte, checked at once, on the day after that of the constructor. -/
theorem periodic_flush_nextDay : ∃ s : LogFile, s.lines = [[65]] ∧ Flushed s ∧
    172800 ≤ s.lastFlush := by
  have hreach : (machine 86400).Reach Forward (new 10 3 1 86400) := .start ⟨10, 3, 1, rfl⟩
  have hforward : Forward (new 10 3 1 86400) (.append [65] [⟨1, false⟩] 172800 172800) := by
    decide
  have hflush := periodic_flush_iff hreach hforward rfl ⟨_, rfl, by decide, by decide⟩ (by decide)
  exact ⟨_, rfl, (hflush.2 (Or.inl (by decide))).1, (hflush.2 (Or.inl (by decide))).2⟩

/-- A check on the same day, ten seconds later, flushes nothing. -/
theorem sameDay_not_flushed : ¬ ∀ (s s' : LogFile) line writes now rollNow,
    (machine 86400).Reach Forward s → Forward s (.append line writes now rollNow) →
    s.step (.append line writes now rollNow) = some s' → s.Checks line writes →
    s.flushInterval < now - s.lastFlush → Flushed s' ∧ now ≤ s'.lastFlush := by
  intro hclaim
  have hreach : (machine 86400).Reach Forward (new 10 3 1 86400) := .start ⟨10, 3, 1, rfl⟩
  have hlast := (hclaim (new 10 3 1 86400) _ [65] [⟨1, false⟩] 86410 86410 hreach (by decide) rfl
    ⟨_, rfl, by decide, by decide⟩ (by decide)).2
  revert hlast
  decide

end LogFile

end MyNetLib
