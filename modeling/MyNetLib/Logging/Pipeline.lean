import MyNetLib.Logging.Conservation
import MyNetLib.Logging.LogFile

/-! # From `Append` to the files (`src/async_logging.cc`, `src/log_file.cc`)

The backend thread with the `LogFile` it owns: the thread opens it before its loop,
hands each buffer to its `Append`, and flushes it at the end of every iteration and
after the loop. What the kernel and the clock answer in a step of the backend is part
of the step.
-/

namespace MyNetLib

open Library AsyncLogging

structure LogPipeline (size : Nat) where
  async : AsyncLogging size
  file : Option LogFile

namespace LogPipeline

variable {size : Nat} {rollSize : Int}

/-- Results of the `fwrite`s of one `LogFile::Append`, and its two readings of the clock. -/
structure Io where
  writes : List FwriteResult
  now : Int
  rollNow : Int
  deriving DecidableEq, Repr

/-- The text of `log_file_.Append` in the next step of the backend. -/
def handsOver (s : AsyncLogging size) : Option (List Byte) :=
  match s.pc with
  | .writing i =>
      match s.tempBufferVec[i]? with
      | some (some b) => some b.data
      | _ => none
  | _ => none

/-- The step from `s` to `s'` ends an iteration, or follows the loop. -/
def flushes (s s' : AsyncLogging size) : Bool :=
  s'.failure.isNone && (decide (s.pc = .refilling) || decide (s'.pc = .done))

def onFile (s s' : AsyncLogging size) (io : Io) (f : LogFile) : Option LogFile :=
  match handsOver s with
  | some text => f.step (.append text io.writes io.now io.rollNow)
  | none => if flushes s s' then f.step .flush else some f

/-- `LogFile log_file_(filename_, roll_size_, false)`, the other arguments by default. -/
def openLogFile (rollSize now : Int) : LogFile := .new rollSize 3 1024 now

inductive Action (size : Nat) where
  | append (msg : Msg size)
  | start (now : Int)
  | backend (io : Io)
  | stop
  | stopReturns

def step (rollSize : Int) (s : LogPipeline size) : Action size → Option (LogPipeline size)
  | .append msg => (s.async.step (.append msg)).map fun a => { s with async := a }
  | .start now => (s.async.step .start).map fun a => ⟨a, some (openLogFile rollSize now)⟩
  | .backend io =>
      (s.async.step .backend).bind fun a =>
        s.file.bind fun f => (onFile s.async a io f).map fun f' => ⟨a, some f'⟩
  | .stop => (s.async.step .stop).map fun a => { s with async := a }
  | .stopReturns => (s.async.step .stopReturns).map fun a => { s with async := a }

def machine (size : Nat) (rollSize : Int) : Machine (LogPipeline size) (Action size) where
  start s := s = ⟨.new, none⟩
  step := step rollSize

/-- The clock is past the epoch and does not go back, and no `fwrite` fails. -/
def Regular (s : LogPipeline size) : Action size → Prop
  | .start now => 0 < now
  | .backend io => ∀ f ∈ s.file, ∀ text ∈ handsOver s.async,
      LogFile.Regular f (.append text io.writes io.now io.rollNow)
  | _ => True

instance (s : LogPipeline size) (a : Action size) : Decidable (Regular s a) := by
  cases a <;> unfold Regular <;> infer_instance

end LogPipeline

/-! ## One step of the log file -/

namespace LogFile

variable {s s' : LogFile}

theorem rollFile_lines (s : LogFile) (now : Int) : (s.rollFile now).1.lines = s.lines := by
  unfold rollFile
  split <;> rfl

theorem check_lines (s : LogFile) (now rollNow : Int) : (s.check now rollNow).lines = s.lines := by
  unfold check
  dsimp only
  split
  · split
    · exact rollFile_lines s rollNow
    · split <;> exact rollFile_lines s rollNow
  · rfl

theorem append_lines {line : List Byte} {writes : List FwriteResult} {now rollNow : Int}
    (hs : s.step (.append line writes now rollNow) = some s') : s'.lines = s.lines ++ [line] := by
  obtain ⟨s₁, hs₁, rfl⟩ := Option.map_eq_some_iff.1 hs
  obtain ⟨s₂, hs₂, rfl⟩ := Option.map_eq_some_iff.1 hs₁
  have hwritten : s₂.lines = s.lines ++ [line] := by
    unfold LogFile.written at hs₂
    split at hs₂
    · cases hs₂
    · obtain ⟨f, _, rfl⟩ := Option.map_eq_some_iff.1 hs₂
      rfl
  show (s₂.after now rollNow).lines = _
  unfold LogFile.after
  split
  · rw [rollFile_lines, hwritten]
  · dsimp only
    split
    · rw [check_lines]
      exact hwritten
    · exact hwritten

theorem flush_step (hclosed : ∀ f ∈ s.files, f.buffered = []) (hs : s.step .flush = some s') :
    Flushed s' ∧ s'.lines = s.lines := by
  obtain ⟨f, _, rfl⟩ := Option.map_eq_some_iff.1 hs
  refine ⟨?_, rfl⟩
  intro g hg
  rcases List.mem_append.1 hg with hg | hg
  · exact hclosed g hg
  · have hflush : g = f.flush := by simpa using hg
    rw [hflush]
    rfl

end LogFile

namespace LogPipeline

variable {size : Nat} {rollSize : Int} {s s' : LogPipeline size} {t t' : AsyncLogging size}

/-! ## Both halves of a run -/

/-- Positions of the backend at which the file has been flushed since the last hand-over. -/
def Settled (pc : Pc) : Prop :=
  pc = .head ∨ pc = .locking ∨ pc = .waiting ∨ pc = .checking ∨ pc = .writing 0 ∨ pc = .done

/-- The log file has been handed what the backend says it has handed over. -/
structure OnDisk (t : AsyncLogging size) (f : LogFile) : Prop where
  opened : ∃ first, 0 < first ∧ (LogFile.machine first).Reach LogFile.Regular f
  lines : f.lines = t.logFile
  flushed : Settled t.pc → LogFile.Flushed f

structure Piped (s : LogPipeline size) : Prop where
  async : (AsyncLogging.machine size).Reach (fun _ _ => True) s.async
  idle : s.async.pc = .notStarted → s.async.logFile = []
  onDisk : ∀ f, s.file = some f → OnDisk s.async f

theorem OnDisk.closed {f : LogFile} (h : OnDisk t f) : ∀ g ∈ f.files, g.buffered = [] := by
  obtain ⟨first, _, hreach⟩ := h.opened
  exact LogFile.closed_of_reach hreach

theorem onDisk_open {now : Int} (hnow : 0 < now) (hlines : t.logFile = []) :
    OnDisk t (openLogFile rollSize now) := by
  have hfile : openLogFile rollSize now =
      { ((LogFile.unopened rollSize 3 1024).rollFile now).1 with clock := now } := rfl
  have hroll : (LogFile.unopened rollSize 3 1024).rollFile now =
      ({ LogFile.unopened rollSize 3 1024 with
        lastRoll := now
        lastFlush := now
        startOfPeriod := LogFile.period now
        files := []
        file := some (.new now) }, true) := if_pos hnow
  refine ⟨⟨now, hnow, .start ⟨rollSize, 3, 1024, rfl⟩⟩, ?_, ?_⟩
  · rw [hfile, hroll, hlines]
    rfl
  · intro _ g hg
    rw [hfile, hroll] at hg
    have hnew : g = .new now := by simpa using hg
    rw [hnew]
    rfl

theorem handsOver_eq_none (hpc : ∀ i, t.pc ≠ .writing i) : handsOver t = none := by
  unfold handsOver
  split
  · rename_i i hi
    exact absurd hi (hpc i)
  · rfl

theorem handsOver_of_fails {f : Failure} (hf : Fails t f) : handsOver t = none := by
  cases hf with
  | assertion hpc _ _ => exact handsOver_eq_none (by simp [hpc])
  | overload hpc _ => exact handsOver_eq_none (by simp [hpc])
  | write i hpc hget => simp [handsOver, hpc, hget]
  | refill1 _ hpc _ => exact handsOver_eq_none (by simp [hpc])
  | refill2 _ _ _ hpc _ _ => exact handsOver_eq_none (by simp [hpc])

/-- What the record of a step gains is what the step hands over, and between a
hand-over and a settled position lies a flush. -/
theorem move_handsOver (hm : Move t t') (hok : t.failure = none) :
    (∃ text, handsOver t = some text ∧ t'.logFile = t.logFile ++ [text] ∧ ¬ Settled t'.pc) ∨
      (handsOver t = none ∧ t'.logFile = t.logFile ∧
        (Settled t'.pc → flushes t t' = true ∨ Settled t.pc)) := by
  cases hm with
  | leave hpc _ =>
      exact Or.inr ⟨handsOver_eq_none (by simp [hpc]), rfl, fun _ => Or.inr (Or.inl hpc)⟩
  | enter hpc _ _ =>
      exact Or.inr ⟨handsOver_eq_none (by simp [hpc]), rfl, fun _ => Or.inr (Or.inl hpc)⟩
  | wait hpc =>
      exact Or.inr ⟨handsOver_eq_none (by simp [hpc]), rfl,
        fun _ => Or.inr (Or.inr (Or.inl hpc))⟩
  | swap hpc =>
      refine Or.inr ⟨handsOver_eq_none ?_, rfl, fun _ => Or.inr (Or.inr ?_)⟩
      · intro i hi
        rw [hi] at hpc
        rcases hpc with hpc | hpc <;> cases hpc
      · exact hpc.imp_right Or.inl
  | check hpc _ =>
      exact Or.inr ⟨handsOver_eq_none (by simp [hpc]), rfl,
        fun _ => Or.inr (by simp [Settled, hpc])⟩
  | write i b hpc hget =>
      refine Or.inl ⟨b.data, ?_, rfl, ?_⟩
      · simp [handsOver, hpc, hget]
      · simp [Settled]
  | endWrite i hpc hget =>
      refine Or.inr ⟨?_, rfl, ?_⟩
      · simp [handsOver, hpc, hget]
      · simp [Settled]
  | resize hpc => exact Or.inr ⟨handsOver_eq_none (by simp [hpc]), rfl, by simp [Settled]⟩
  | refill b1 b2 v1 v2 hpc _ _ =>
      exact Or.inr ⟨handsOver_eq_none (by simp [hpc]), rfl,
        fun _ => Or.inl (by simp [flushes, hok, hpc])⟩
  | fails f hf => exact Or.inr ⟨handsOver_of_fails hf, rfl, fun hset => Or.inr hset⟩

theorem OnDisk.backend {f f' : LogFile} {io : Io} (h : OnDisk t f) (hm : Move t t')
    (hok : t.failure = none)
    (hg : ∀ text ∈ handsOver t, LogFile.Regular f (.append text io.writes io.now io.rollNow))
    (hf : onFile t t' io f = some f') : OnDisk t' f' := by
  obtain ⟨first, hfirst, hreach⟩ := h.opened
  unfold onFile at hf
  rcases move_handsOver hm hok with ⟨text, htext, hlog, hopen⟩ | ⟨hnone, hlog, hset⟩
  · rw [htext] at hf
    refine ⟨⟨first, hfirst, hreach.step (hg text htext) hf⟩, ?_, fun hpc => absurd hpc hopen⟩
    rw [LogFile.append_lines hf, h.lines, hlog]
  · rw [hnone] at hf
    dsimp only at hf
    split at hf
    · obtain ⟨hflushed, hlines⟩ := LogFile.flush_step h.closed hf
      refine ⟨⟨first, hfirst, hreach.step (a := .flush) ⟨trivial, trivial⟩ hf⟩, ?_, ?_⟩
      · rw [hlines, h.lines, hlog]
      · exact fun _ => hflushed
    · rename_i hno
      cases hf
      refine ⟨h.opened, by rw [h.lines, hlog], ?_⟩
      intro hpc
      exact h.flushed ((hset hpc).resolve_left hno)

theorem failure_of_step {a : AsyncLogging.Action size} (hs : t.step a = some t') :
    t.failure = none := by
  unfold AsyncLogging.step at hs
  split at hs
  · cases hs
  · rename_i hok
    simpa using hok

theorem frame_of_step {a : AsyncLogging.Action size} (hs : t.step a = some t') (ha : a ≠ .start)
    (hb : a ≠ .backend) : t'.pc = t.pc ∧ t'.logFile = t.logFile := by
  have hok := failure_of_step hs
  simp only [AsyncLogging.step, hok, Option.isSome_none, Bool.false_eq_true, if_false] at hs
  cases a with
  | append msg =>
      cases hs
      obtain ⟨_, _, _, _, _, happ, _⟩ := append_frame t msg
      rw [happ]
      exact ⟨rfl, rfl⟩
  | start => exact absurd rfl ha
  | backend => exact absurd rfl hb
  | stop =>
      dsimp only at hs
      split at hs <;> cases hs
      exact ⟨rfl, rfl⟩
  | stopReturns =>
      dsimp only at hs
      split at hs <;> cases hs
      exact ⟨rfl, rfl⟩

theorem Piped.elsewhere {a : AsyncLogging.Action size} (h : Piped s)
    (hs : s.async.step a = some t) (ha : a ≠ .start) (hb : a ≠ .backend) :
    Piped { s with async := t } := by
  obtain ⟨hpc, hlog⟩ := frame_of_step hs ha hb
  refine ⟨.step (a := a) h.async trivial hs, ?_, ?_⟩
  · intro hidle
    exact hlog.trans (h.idle (hpc.symm.trans hidle))
  · intro f hf
    obtain ⟨hopened, hlines, hflushed⟩ := h.onDisk f hf
    refine ⟨hopened, hlines.trans hlog.symm, ?_⟩
    intro hset
    rw [show ({ s with async := t } : LogPipeline size).async.pc = s.async.pc from hpc] at hset
    exact hflushed hset

theorem Piped.start {now : Int} (h : Piped s) (hnow : 0 < now)
    (hs : s.async.step .start = some t) : Piped ⟨t, some (openLogFile rollSize now)⟩ := by
  have hok := failure_of_step hs
  refine ⟨.step (a := .start) h.async trivial hs, ?_, ?_⟩
  all_goals
    simp only [AsyncLogging.step, hok, Option.isSome_none, Bool.false_eq_true, if_false,
      Option.ite_none_right_eq_some, Option.some.injEq] at hs
    obtain ⟨hpc, rfl⟩ := hs
  · nofun
  · intro f hf
    cases hf
    exact onDisk_open hnow (h.idle hpc)

theorem Piped.backend {io : Io} {f f' : LogFile} (h : Piped s) (hf : s.file = some f)
    (hg : Regular s (.backend io)) (hs : s.async.step .backend = some t)
    (hf' : onFile s.async t io f = some f') : Piped ⟨t, some f'⟩ := by
  have hok := failure_of_step hs
  have hm : Move s.async t := by
    simp only [AsyncLogging.step, hok, Option.isSome_none, Bool.false_eq_true, if_false] at hs
    exact backend_move hs
  have hstarted : s.async.pc ≠ .notStarted := by
    intro hpc
    simp [AsyncLogging.step, hok, AsyncLogging.backend, hpc] at hs
  refine ⟨.step (a := .backend) h.async trivial hs, fun hpc => absurd hpc ?_, ?_⟩
  · cases hm with
    | fails _ _ => exact hstarted
    | _ => nofun
  · intro g hfile
    cases hfile
    exact (h.onDisk f hf).backend hm hok (hg f hf) hf'

theorem Piped.step {a : Action size} (h : Piped s) (hg : Regular s a)
    (hs : LogPipeline.step rollSize s a = some s') : Piped s' := by
  cases a with
  | append msg =>
      obtain ⟨t, ht, rfl⟩ := Option.map_eq_some_iff.1 hs
      exact h.elsewhere ht nofun nofun
  | start now =>
      obtain ⟨t, ht, rfl⟩ := Option.map_eq_some_iff.1 hs
      exact h.start hg ht
  | backend io =>
      obtain ⟨t, ht, hs⟩ := Option.bind_eq_some_iff.1 hs
      obtain ⟨f, hf, hs⟩ := Option.bind_eq_some_iff.1 hs
      obtain ⟨f', hf', rfl⟩ := Option.map_eq_some_iff.1 hs
      exact h.backend hf hg ht hf'
  | stop =>
      obtain ⟨t, ht, rfl⟩ := Option.map_eq_some_iff.1 hs
      exact h.elsewhere ht nofun nofun
  | stopReturns =>
      obtain ⟨t, ht, rfl⟩ := Option.map_eq_some_iff.1 hs
      exact h.elsewhere ht nofun nofun

theorem piped_of_reach (h : (machine size rollSize).Reach Regular s) : Piped s := by
  apply h.invariant
  · intro t ht
    cases ht
    exact ⟨.start rfl, fun _ => rfl, nofun⟩
  · intro t a t' ht hg hs
    exact ht.step hg hs

/-! ## What the files hold -/

/-- The buffers of the backend and of the producers whose text no file has yet. -/
def pendingBuffers (s : AsyncLogging size) : List (List Byte) :=
  (unwritten s).map content ++ s.bufferToWrite.map content ++ [content s.curBuffer]

/-- The messages appended first are in the files, in lock order, each whole and in one
file; the others wait in the buffers, in order; and at the end of an iteration, and when
the thread has ended, what the files hold has been flushed. -/
theorem logged_messages_in_files (s : LogPipeline size) (f : LogFile)
    (h : (machine size rollSize).Reach Regular s) (hf : s.file = some f) :
    ∃ cur handed pending, f.file = some cur ∧ s.async.appended = handed ++ pending ∧
      InChunks Msg.text handed ((f.files ++ [cur]).map AppendFile.contents) ∧
      InChunks Msg.text pending (pendingBuffers s.async) ∧
      (Settled s.async.pc → ∀ g ∈ f.files ++ [cur], g.buffered = []) := by
  have hpiped := piped_of_reach h
  obtain ⟨⟨first, hfirst, hreach⟩, hlines, hflushed⟩ := hpiped.onDisk f hf
  obtain ⟨cur, hrolled, _⟩ := LogFile.rolled_of_reach hfirst hreach
  have hgrouped : InChunks Msg.text s.async.appended (f.lines ++ pendingBuffers s.async) := by
    have hcons := (consInv_of_reach hpiped.async).grouped
    rw [hlines]
    simpa [secured, front, pendingBuffers, List.append_assoc] using grouped_iff.1 hcons
  obtain ⟨handed, pending, hsplit, hin, hout⟩ := hgrouped.split
  refine ⟨cur, handed, pending, hrolled.file, hsplit, hin.trans hrolled.chunks, hout, ?_⟩
  intro hset g hg
  apply hflushed hset g
  rw [hrolled.file]
  exact hg

/-- Two messages in two buffers; the second buffer finds a file of a later second. -/
def twoFiles : List (Action 4) :=
  let idle : Action 4 := .backend ⟨[], 0, 0⟩
  [.append ⟨[1, 2], by decide⟩, .append ⟨[3, 4, 5], by decide⟩, .start 100, idle, idle, idle,
    .backend ⟨[⟨2, false⟩], 101, 101⟩, .backend ⟨[⟨3, false⟩], 101, 102⟩, idle, idle, idle]

theorem logged_messages_in_files_two : ∃ (s : LogPipeline 4) (f : LogFile) (cur : AppendFile),
    s.file = some f ∧ f.file = some cur ∧
    (f.files ++ [cur]).map AppendFile.flushed = [[1, 2], [3, 4, 5], []] ∧
    ∃ handed pending, s.async.appended = handed ++ pending ∧
      InChunks Msg.text handed [[1, 2], [3, 4, 5], []] := by
  obtain ⟨s, hs, htest⟩ := Machine.Reach.of_test (machine 4 1) Regular
    (fun s => decide (s.async.pc = .head) && s.file.any fun f =>
      (f.files ++ f.file.toList).map AppendFile.contents == [[1, 2], [3, 4, 5], []])
    twoFiles (.start rfl) (by decide +kernel)
  simp only [Bool.and_eq_true, decide_eq_true_eq, Option.any_eq_true, beq_iff_eq] at htest
  obtain ⟨hpc, f, hf, hcontents⟩ := htest
  obtain ⟨cur, handed, pending, hcur, hsplit, hin, _, hflushed⟩ :=
    logged_messages_in_files s f hs hf
  rw [hcur, Option.toList_some] at hcontents
  rw [hcontents] at hin
  refine ⟨s, f, cur, hf, hcur, ?_, handed, pending, hsplit, hin⟩
  rw [← hcontents]
  apply List.map_congr_left
  intro g hg
  rw [AppendFile.contents, hflushed (Or.inl hpc) g hg, List.append_nil]

end LogPipeline

end MyNetLib
