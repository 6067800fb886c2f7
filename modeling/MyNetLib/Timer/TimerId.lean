import MyNetLib.Library.Machine

/-! # The ids of timers (`src/timer.cc`)

`GenerateId` increments `initial_id_` under the mutex and reads it again after
the mutex is released. `generating` are the threads between the two, `ids` the
ids of the timers constructed so far. An increment beyond `int64_t` has no result.
-/

namespace MyNetLib

open Library

structure TimerIds (τ : Type) where
  initialId : Int
  generating : List τ
  ids : List Int
  deriving DecidableEq, Repr

namespace TimerIds

variable {τ : Type}

def new : TimerIds τ := ⟨0, [], []⟩

inductive Action (τ : Type) where
  | increment (t : τ)
  | read (t : τ)
  deriving DecidableEq, Repr

/-- The two parts of `GenerateId`; the second ends the constructor of `Timer`. -/
def step [DecidableEq τ] (s : TimerIds τ) : Action τ → Option (TimerIds τ)
  | .increment t =>
      if t ∉ s.generating ∧ s.initialId + 1 < 2 ^ 63 then
        some { s with initialId := s.initialId + 1, generating := s.generating ++ [t] }
      else none
  | .read t =>
      if t ∈ s.generating then
        some { s with generating := s.generating.erase t, ids := s.ids ++ [s.initialId] }
      else none

def machine (τ : Type) [DecidableEq τ] : Machine (TimerIds τ) (Action τ) where
  start s := s = new
  step := step

/-- No thread increments while another one has still to read. -/
def Alone (s : TimerIds τ) : Action τ → Prop
  | .increment _ => s.generating = []
  | .read _ => True

instance [DecidableEq τ] (s : TimerIds τ) (a : Action τ) : Decidable (Alone s a) :=
  match a with
  | .increment _ => inferInstanceAs (Decidable (s.generating = []))
  | .read _ => inferInstanceAs (Decidable True)

variable [DecidableEq τ] {s s' : TimerIds τ} {t : τ}

theorem increment_eq (h : s.step (.increment t) = some s') :
    s' = { s with initialId := s.initialId + 1, generating := s.generating ++ [t] } := by
  simp only [step] at h
  split at h
  · cases h
    rfl
  · cases h

theorem read_eq (h : s.step (.read t) = some s') : t ∈ s.generating ∧
    s' = { s with generating := s.generating.erase t, ids := s.ids ++ [s.initialId] } := by
  simp only [step] at h
  split at h
  · rename_i hmem
    cases h
    exact ⟨hmem, rfl⟩
  · cases h

/-! ## One thread at a time -/

/-- The timers have the ids from 1 on, in order, and at most one thread is on its way
to the next. -/
structure InOrder (s : TimerIds τ) : Prop where
  ids : s.ids = List.map (fun i : Nat => (i : Int) + 1) (List.range s.ids.length)
  next : s.initialId = s.ids.length + s.generating.length
  single : s.generating.length ≤ 1

theorem InOrder.step (h : InOrder s) {a : Action τ} (hg : Alone s a)
    (hs : s.step a = some s') : InOrder s' := by
  obtain ⟨hids, hnext, hsingle⟩ := h
  cases a with
  | increment t =>
      have hnone : s.generating = [] := hg
      rw [increment_eq hs]
      refine ⟨hids, ?_, ?_⟩
      · simp [hnext, hnone]
      · simp [hnone]
  | read t =>
      obtain ⟨hmem, rfl⟩ := read_eq hs
      have hone : s.generating = [t] := by
        obtain ⟨u, hu⟩ := List.length_eq_one_iff.1
          (Nat.le_antisymm hsingle (List.length_pos_of_mem hmem))
        rw [hu, List.mem_singleton] at hmem
        rw [hu, hmem]
      rw [hone] at hnext
      refine ⟨?_, ?_, ?_⟩
      · simp only [List.length_append, List.length_singleton, List.range_succ, List.map_append,
          List.map_singleton, ← hids, hnext]
        simp
      · simp [hone, hnext]
      · simp [hone]

theorem InOrder.of_reach (h : (machine τ).Reach Alone s) : InOrder s := by
  apply h.invariant
  · rintro s rfl
    exact ⟨rfl, rfl, Nat.zero_le _⟩
  · intro s a s' hI hg hs
    exact hI.step hg hs

omit [DecidableEq τ] in
theorem InOrder.nodup (h : InOrder s) : s.ids.Nodup := by
  rw [h.ids]
  refine List.Nodup.map ?_ List.nodup_range
  intro i j hij
  simpa using hij

/-! ## Two threads at once -/

/-- The value `k` was passed over before anyone read it. -/
structure Skipped (k : Int) (s : TimerIds τ) : Prop where
  next : s.initialId = s.ids.length + s.generating.length
  range : ∀ id ∈ s.ids, 1 ≤ id ∧ id ≤ s.initialId
  unread : k ∉ s.ids
  positive : 1 ≤ k
  passed : k < s.initialId

theorem Skipped.step {k : Int} (h : Skipped k s) {a : Action τ} (hs : s.step a = some s') :
    Skipped k s' := by
  obtain ⟨hnext, hrange, hunread, hpositive, hpassed⟩ := h
  cases a with
  | increment t =>
      rw [increment_eq hs]
      refine ⟨?_, ?_, hunread, hpositive, ?_⟩
      · simp only [List.length_append, List.length_singleton]
        omega
      · intro id hid
        have hold := hrange id hid
        dsimp only
        omega
      · dsimp only
        omega
  | read t =>
      obtain ⟨hmem, rfl⟩ := read_eq hs
      have hpos := List.length_pos_of_mem hmem
      refine ⟨?_, ?_, ?_, hpositive, hpassed⟩
      · simp only [List.length_append, List.length_singleton, List.length_erase_of_mem hmem]
        omega
      · intro id hid
        rw [List.mem_append, List.mem_singleton] at hid
        cases hid with
        | inl hold => exact hrange id hold
        | inr hnew =>
            dsimp only
            omega
      · rw [List.mem_append, List.mem_singleton]
        rintro (hold | hnew)
        · exact hunread hold
        · omega

omit [DecidableEq τ] in
/-- When everyone has read, there are as many ids as increments, and one value less
for them. -/
theorem Skipped.not_nodup {k : Int} (h : Skipped k s) (hnone : s.generating = []) :
    ¬ s.ids.Nodup := by
  intro hnodup
  have hlength : s.initialId = s.ids.length := by
    rw [h.next, hnone]
    simp
  have hsubset : s.ids.toFinset ⊆ (Finset.Icc 1 s.initialId).erase k := by
    intro id hid
    rw [List.mem_toFinset] at hid
    rw [Finset.mem_erase, Finset.mem_Icc]
    refine ⟨?_, h.range id hid⟩
    rintro rfl
    exact h.unread hid
  have hcard := Finset.card_le_card hsubset
  have hk : k ∈ Finset.Icc 1 s.initialId := Finset.mem_Icc.2 ⟨h.positive, h.passed.le⟩
  rw [List.toFinset_card_of_nodup hnodup, Finset.card_erase_of_mem hk, Int.card_Icc] at hcard
  have hpositive := h.positive
  have hpassed := h.passed
  omega

/-- An increment while a thread has still to read passes its value over. -/
theorem InOrder.skips (h : InOrder s) (hbusy : s.generating ≠ [])
    (hs : s.step (.increment t) = some s') : Skipped s.initialId s' := by
  have hpos := List.length_pos_of_ne_nil hbusy
  have hnext := h.next
  have hrange : ∀ id ∈ s.ids, 1 ≤ id ∧ id ≤ s.ids.length := by
    intro id hid
    rw [h.ids, List.mem_map] at hid
    obtain ⟨i, hi, rfl⟩ := hid
    have hlt := List.mem_range.1 hi
    omega
  rw [increment_eq hs]
  constructor
  · simp only [List.length_append, List.length_singleton]
    omega
  · intro id hid
    have hold := hrange id hid
    dsimp only
    omega
  · intro hid
    have hold := hrange _ hid
    omega
  · omega
  · dsimp only
    omega

/-- The ids are distinct in every run in which no thread increments between another's
increment and its read. Once a thread does, two timers share an id by the time all
of them are constructed, whatever happens in between. -/
theorem timer_ids_distinct (s : TimerIds τ) (h : (machine τ).Reach Alone s) :
    s.ids.Nodup ∧ ∀ a s', s.step a = some s' → ¬ Alone s a →
      ∀ s'', (machine τ).Follows (fun _ _ => True) s' s'' → s''.generating = [] →
        ¬ s''.ids.Nodup := by
  have hI := InOrder.of_reach h
  refine ⟨hI.nodup, ?_⟩
  intro a s' hs hnot s'' hfollows hnone
  cases a with
  | read t => exact absurd trivial hnot
  | increment t =>
      have hskipped : Skipped s.initialId s'' := by
        apply hfollows.invariant (hI.skips hnot hs)
        intro u a u' hu _ hstep
        exact hu.step hstep
      exact hskipped.not_nodup hnone

/-- Two loop threads, one after the other. -/
theorem timer_ids_distinct_two : ([1, 2] : List Int).Nodup := by
  have hstart : (machine Bool).Reach Alone new := .start rfl
  have hrun : (machine Bool).runGuarded Alone new
      [.increment true, .read true, .increment false, .read false] = some ⟨2, [], [1, 2]⟩ := by
    decide
  exact (timer_ids_distinct _ (hstart.of_runGuarded _ hrun)).1

/-- Both increment, then both read. -/
theorem same_id_twice :
    ¬ ∀ s : TimerIds Bool, (machine Bool).Reach (fun _ _ => True) s → s.ids.Nodup := by
  intro hclaim
  have hstart : (machine Bool).Reach (fun _ _ => True) new := .start rfl
  have hrun : (machine Bool).run new
      [.increment true, .increment false, .read true, .read false] = some ⟨2, [], [2, 2]⟩ := by
    decide
  have hreach := hstart.of_run _ (fun _ _ _ => trivial) hrun
  exact absurd (hclaim _ hreach) (by decide)

end TimerIds

end MyNetLib
