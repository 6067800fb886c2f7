import MyNetLib.Library.Calendar
import MyNetLib.Library.FixedWidth
import MyNetLib.Logging.LogFile
import MyNetLib.Logging.Logger

/-! # The names of the log files (`src/log_file.cc`)

`GetLogFileName` puts the second of the roll into the name. Fields of fixed width, the
year first, let the names of a run stand in dictionary order as the files were opened,
until the year needs a fifth digit.
-/

namespace MyNetLib

open Library Library.Decimal

/-- `gmtime_r` from the epoch on. -/
def gmtimeR (now : Nat) : Tm where
  tmYear := 70 + Calendar.yearOf (now / 86400)
  tmMon := Calendar.monthOf (now / 86400)
  tmMday := Calendar.mdayOf (now / 86400)
  tmHour := now % 86400 / 3600
  tmMin := now % 86400 / 60 % 60
  tmSec := now % 86400 % 60

/-- `strftime` with the format `.%Y%m%d-%H%M%S.` -/
def strftime (tm : Tm) : List Char :=
  let two (n : Int) := List.leftpad 2 '0' (Decimal.ofInt n)
  '.' :: (Decimal.ofInt (1900 + tm.tmYear) ++ (two (tm.tmMon + 1) ++ (two tm.tmMday ++
    '-' :: (two tm.tmHour ++ (two tm.tmMin ++ (two tm.tmSec ++ ['.']))))))

namespace LogFile

def getLogFileName (basename : List Char) (pid now : Int) : List Char :=
  basename ++ (strftime (gmtimeR now.toNat) ++ ('.' :: Decimal.ofInt pid ++ ".log".toList))

def kTimeBuf : Nat := 32

/-- The first second of the year 10000. -/
def kFiveDigits : Int := 253402300800

/-! ## One name -/

variable {t u : Nat}

theorem yearOf_lt (ht : (t : Int) < kFiveDigits) : Calendar.yearOf (t / 86400) < 8030 := by
  by_contra hle
  have hstart : Calendar.yearStart (Calendar.yearOf (t / 86400)) ≤ t / 86400 :=
    start_interval_le (Nat.zero_le _)
  have hmono := Calendar.yearStart_mono (Nat.le_of_not_lt hle)
  have hlast : Calendar.yearStart 8030 = 2932897 := by decide
  unfold kFiveDigits at ht
  omega

theorem strftime_eq (t : Nat) : strftime (gmtimeR t) =
    '.' :: (zeroPadded 4 (1970 + Calendar.yearOf (t / 86400)) ++
      (zeroPadded 2 (Calendar.monthOf (t / 86400) + 1) ++
        (zeroPadded 2 (Calendar.mdayOf (t / 86400)) ++
          '-' :: (zeroPadded 2 (t % 86400 / 3600) ++ (zeroPadded 2 (t % 86400 / 60 % 60) ++
            (zeroPadded 2 (t % 86400 % 60) ++ ['.'])))))) := by
  have hyear : 10 ^ 3 ≤ 1970 + Calendar.yearOf (t / 86400) := by omega
  rw [zeroPadded_of_le (by decide) hyear, ← ofInt_natCast]
  simp only [zeroPadded, ← ofInt_natCast]
  have hcentury : (1900 + (gmtimeR t).tmYear : Int) =
      ((1970 + Calendar.yearOf (t / 86400) : Nat) : Int) := by
    simp only [gmtimeR]
    omega
  unfold strftime
  rw [hcentury]
  rfl

theorem length_strftime (ht : (t : Int) < kFiveDigits) :
    (strftime (gmtimeR t)).length = 17 := by
  have hyear := yearOf_lt ht
  have hmonth := Calendar.monthOf_le (t / 86400)
  have hday := Calendar.mdayOf_le (t / 86400)
  rw [strftime_eq]
  simp only [List.length_cons, List.length_append, List.length_nil]
  repeat rw [length_zeroPadded (by omega) (by decide)]

theorem strftime_lt (hu : (u : Int) < kFiveDigits) (h : t < u) :
    strftime (gmtimeR t) < strftime (gmtimeR u) := by
  have hyear := yearOf_lt hu
  have hmonth := Calendar.monthOf_le (u / 86400)
  have hday := Calendar.mdayOf_le (u / 86400)
  rw [strftime_eq, strftime_eq, List.cons_lt_cons_iff]
  refine Or.inr ⟨rfl, ?_⟩
  rcases Nat.lt_or_eq_of_le (Nat.div_le_div_right (c := 86400) h.le) with hdays | hdays
  · have hdate := Calendar.date_lt hdays
    apply zeroPadded_append_lt (by decide) (by omega)
    refine (hdate.imp (by omega) ?_)
    rintro ⟨hsame, hrest⟩
    refine ⟨by rw [hsame], zeroPadded_append_lt (by decide) (by omega) ?_⟩
    refine hrest.imp (by omega) ?_
    rintro ⟨hsame, hlt⟩
    exact ⟨by rw [hsame], zeroPadded_append_lt (by decide) (by omega) (Or.inl hlt)⟩
  · rw [hdays]
    have hsecs : t % 86400 < u % 86400 := by omega
    have hfields : t % 86400 / 3600 < u % 86400 / 3600 ∨
        t % 86400 / 3600 = u % 86400 / 3600 ∧
          (t % 86400 / 60 % 60 < u % 86400 / 60 % 60 ∨
            t % 86400 / 60 % 60 = u % 86400 / 60 % 60 ∧ t % 86400 % 60 < u % 86400 % 60) := by
      omega
    repeat apply List.append_left_lt
    rw [List.cons_lt_cons_iff]
    refine Or.inr ⟨rfl, zeroPadded_append_lt (by decide) (by omega) ?_⟩
    refine hfields.imp_right fun ⟨hsame, hrest⟩ => ⟨hsame, ?_⟩
    apply zeroPadded_append_lt (by decide) (by omega)
    refine hrest.imp_right fun ⟨hsame, hlt⟩ => ⟨hsame, ?_⟩
    exact zeroPadded_append_lt (by decide) (by omega) (Or.inl hlt)

/-! ## The names of a run -/

variable {s s' : LogFile} {a : Action} {first : Int}

/-- Every file so far was opened past the epoch. -/
structure Past (s : LogFile) : Prop where
  lastRoll : 0 ≤ s.lastRoll
  opened : ∀ t ∈ (s.files ++ s.file.toList).map AppendFile.opened, 0 < t

theorem Past.rollFile (h : Past s) (now : Int) : Past (s.rollFile now).1 := by
  unfold LogFile.rollFile
  have hlast := h.lastRoll
  split
  · refine ⟨by dsimp only; omega, ?_⟩
    intro t ht
    simp only [List.map_append, List.mem_append, List.map_map, Option.toList_some, List.map_cons,
      List.map_nil, List.mem_singleton] at ht
    have hopened := h.opened t
    rw [List.map_append, List.mem_append] at hopened
    rcases ht with ht | ht
    · exact hopened ht
    · rw [ht]
      show 0 < now
      omega
  · exact h

theorem Past.of_same (h : Past s) (hlast : s'.lastRoll = s.lastRoll)
    (hopened : (s'.files ++ s'.file.toList).map AppendFile.opened =
      (s.files ++ s.file.toList).map AppendFile.opened) : Past s' :=
  ⟨hlast ▸ h.lastRoll, hopened ▸ h.opened⟩

theorem Past.flush (h : Past s) (lastFlush : Int) :
    Past { s with lastFlush := lastFlush, file := s.file.map AppendFile.flush } := by
  refine h.of_same rfl ?_
  cases s.file <;> simp [AppendFile.flush]

theorem Past.check (h : Past s) (now rollNow : Int) : Past (s.check now rollNow) := by
  unfold LogFile.check
  dsimp only
  split
  · split
    · exact h.rollFile rollNow
    · split
      · exact (h.rollFile rollNow).flush now
      · exact h.rollFile rollNow
  · exact h

theorem Past.after (h : Past s) (now rollNow : Int) : Past (s.after now rollNow) := by
  unfold LogFile.after
  split
  · exact h.rollFile rollNow
  · dsimp only
    split
    · exact Past.check (s := { s with count := 0 }) (h.of_same rfl rfl) now rollNow
    · exact h.of_same rfl rfl

theorem Past.step (h : Past s) (hs : s.step a = some s') : Past s' := by
  cases a with
  | append line writes now rollNow =>
      obtain ⟨s₁, hs₁, rfl⟩ := Option.map_eq_some_iff.1 hs
      obtain ⟨s₂, hs₂, rfl⟩ := Option.map_eq_some_iff.1 hs₁
      have hpast : Past s₂ := by
        unfold LogFile.written at hs₂
        split at hs₂
        · cases hs₂
        · rename_i f hfile
          obtain ⟨f', hf', rfl⟩ := Option.map_eq_some_iff.1 hs₂
          obtain ⟨o, _, rfl⟩ := Option.map_eq_some_iff.1 hf'
          exact h.of_same rfl (by simp [hfile])
      exact (hpast.after now rollNow).of_same rfl rfl
  | flush =>
      obtain ⟨f, hfile, rfl⟩ := Option.map_eq_some_iff.1 hs
      exact h.of_same rfl (by simp [hfile, AppendFile.flush])
  | rollFile now =>
      cases hs
      exact (h.rollFile now).of_same rfl rfl

theorem past_of_reach {guard : LogFile → Action → Prop} (h : (machine first).Reach guard s) :
    Past s := by
  apply h.invariant
  · rintro s ⟨rollSize, flushInterval, checkEveryN, rfl⟩
    have hunopened : Past (unopened rollSize flushInterval checkEveryN) :=
      ⟨le_refl 0, by simp [unopened]⟩
    exact (hunopened.rollFile first).of_same rfl rfl
  · intro s a s' hI _ hs
    exact hI.step hs

theorem getLogFileName_lt {m n : Int} (basename : List Char) (pid : Int) (hm : 0 < m)
    (hn : n < kFiveDigits) (h : m < n) :
    getLogFileName basename pid m < getLogFileName basename pid n := by
  have hlt : m.toNat < n.toNat := by omega
  have hbound : (n.toNat : Int) < kFiveDigits := by omega
  apply List.append_left_lt
  apply append_lt_append
  · rw [length_strftime (by omega), length_strftime hbound]
  · exact strftime_lt hbound hlt

theorem Rolled.opened_le {f : AppendFile} (h : Rolled s f) :
    ∀ g ∈ s.files ++ [f], g.opened ≤ s.lastRoll := by
  intro g hg
  have hincreasing := h.increasing
  rw [List.map_append, List.pairwise_append] at hincreasing
  rw [← h.current]
  rcases List.mem_append.1 hg with hg | hg
  · exact (hincreasing.2.2 g.opened (List.mem_map_of_mem hg) f.opened (by simp)).le
  · rw [List.mem_singleton.1 hg]

theorem getLogFileName_injOn {m n : Int} (basename : List Char) (pid : Int) (hm : 0 < m)
    (hn : 0 < n) (hm' : m < kFiveDigits) (hn' : n < kFiveDigits)
    (h : getLogFileName basename pid m = getLogFileName basename pid n) : m = n := by
  rcases lt_trichotomy m n with hlt | heq | hlt
  · have hname := getLogFileName_lt basename pid hm hn' hlt
    rw [h] at hname
    exact absurd hname (lt_irrefl _)
  · exact heq
  · have hname := getLogFileName_lt basename pid hn hm' hlt
    rw [h] at hname
    exact absurd hname (lt_irrefl _)

/-- Before the year 10000 the names of a run are all different, and reading the files in
the order of their names, as a listing of the directory shows them, gives back the lines
in the order they were appended, none of them cut by the end of a file. -/
theorem files_in_name_order (basename : List Char) (pid : Int) (hfirst : 0 < first)
    (h : (machine first).Reach Regular s) (hclock : s.clock < kFiveDigits)
    (listing : List AppendFile) (hperm : listing.Perm (s.files ++ s.file.toList))
    (hsorted : (listing.map fun f => getLogFileName basename pid f.opened).Pairwise (· ≤ ·)) :
    (listing.map fun f => getLogFileName basename pid f.opened).Nodup ∧
      InChunks id s.lines (listing.map AppendFile.contents) ∧
      ∀ f ∈ listing, (strftime (gmtimeR f.opened.toNat)).length < kTimeBuf := by
  obtain ⟨f, hf, hlast⟩ := rolled_of_reach hfirst h
  have hopened := (past_of_reach h).opened
  rw [hf.file, Option.toList_some] at hperm hopened
  have hrange : ∀ g ∈ s.files ++ [f], 0 < g.opened ∧ g.opened < kFiveDigits := by
    intro g hg
    have hle := hf.opened_le g hg
    exact ⟨hopened _ (List.mem_map_of_mem hg), by omega⟩
  -- the files in the order in which they were opened are in the order of their names
  have hnames : (s.files ++ [f]).Pairwise fun g g' =>
      getLogFileName basename pid g.opened < getLogFileName basename pid g'.opened := by
    refine (List.pairwise_map.1 hf.increasing).imp_of_mem fun {g g'} hg hg' hlt => ?_
    exact getLogFileName_lt basename pid (hrange g hg).1 (hrange g' hg').2 hlt
  have hlisting : listing = s.files ++ [f] := by
    refine hperm.eq_of_pairwise ?_ (List.pairwise_map.1 hsorted) (hnames.imp le_of_lt)
    intro g g' hg hg' hle hge
    have hg₁ := hrange g (hperm.subset hg)
    have hg₂ := hrange g' hg'
    have hsame := getLogFileName_injOn basename pid hg₁.1 hg₂.1 hg₁.2 hg₂.2 (le_antisymm hle hge)
    exact List.inj_on_of_nodup_map (hf.increasing.imp ne_of_lt) (hperm.subset hg) hg' hsame
  rw [hlisting]
  refine ⟨(List.pairwise_map.2 hnames).imp ne_of_lt, hf.chunks, ?_⟩
  intro g hg
  have hg₁ := hrange g hg
  rw [length_strftime (by omega)]
  decide

def names (s : LogFile) (basename : List Char) (pid : Int) : List (List Char) :=
  (s.files ++ s.file.toList).map fun f => getLogFileName basename pid f.opened

/-- Two files opened on either side of the end of February. -/
theorem files_in_name_order_leapDay : ∃ s : LogFile, s.lines = [[65], [66]] ∧
    s.names "log".toList 7 =
      ["log.20240229-235959..7.log".toList, "log.20240301-000000..7.log".toList] ∧
    InChunks id s.lines ((s.files ++ s.file.toList).map AppendFile.contents) := by
  obtain ⟨s, hs, htest⟩ := Machine.Reach.of_test (machine 1709251199) Regular
    (fun s => s.lines == [[65], [66]] && s.clock == 1709251200 && s.names "log".toList 7 ==
      ["log.20240229-235959..7.log".toList, "log.20240301-000000..7.log".toList])
    [.append [65] [⟨1, false⟩] 1709251199 1709251199,
      .append [66] [⟨1, false⟩] 1709251200 1709251200]
    (.start ⟨0, 3, 1, rfl⟩) (by decide +kernel)
  simp only [Bool.and_eq_true, beq_iff_eq] at htest
  obtain ⟨⟨hlines, hclock⟩, hnames⟩ := htest
  refine ⟨s, hlines, hnames, ?_⟩
  have hsorted : (s.names "log".toList 7).Pairwise (· ≤ ·) := by
    rw [hnames]
    decide
  exact (files_in_name_order "log".toList 7 (by decide) hs (by rw [hclock]; decide) _ (.refl _)
    hsorted).2.1

end LogFile

end MyNetLib
