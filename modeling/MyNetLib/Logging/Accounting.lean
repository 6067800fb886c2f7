import MyNetLib.Logging.LogFile

/-! # What `AppendFile::Append` counts

The loop adds a count to `written` after it has looked at `ferror`. What a call
of `fwrite` took before it failed is in the file by then.
-/

namespace MyNetLib

open Library

/-- `fwrite_unlocked` and `ferror` during one `Append`: what call `k` does when
`remain` bytes are offered. It takes no more than that, and without an error
something. -/
structure Fwrite where
  result : Nat → Nat → FwriteResult
  bounded : ∀ k remain, (result k remain).n ≤ remain
  moves : ∀ k remain, (result k remain).n ≠ remain → (result k remain).err = false →
    0 < (result k remain).n

namespace AppendFile

/-- The calls the loop makes from `written` on, with `fuel` left. -/
def calls (fw : Fwrite) (len : Nat) : Nat → Nat → Nat → List FwriteResult
  | 0, _, _ => []
  | fuel + 1, k, written =>
      if written = len then []
      else
        let w := fw.result k (len - written)
        if w.n ≠ len - written ∧ w.err then [w]
        else w :: calls fw len fuel (k + 1) (written + w.n)

/-- The calls of `Append`: no more than the line has bytes. -/
def callsOf (fw : Fwrite) (line : List Byte) : List FwriteResult :=
  calls fw line.length line.length 0 0

def accepted (writes : List FwriteResult) : Nat := (writes.map FwriteResult.n).sum

/-- The loop was left by its `break`. -/
def EndsInError (len : Nat) (writes : List FwriteResult) : Prop :=
  accepted writes ≠ len ∧ ∃ w, writes.getLast? = some w ∧ w.err = true

/-- The write that failed had taken nothing. -/
def ErrorTakesNothing (len : Nat) (writes : List FwriteResult) : Prop :=
  EndsInError len writes → ∀ w, writes.getLast? = some w → w.n = 0

variable {fw : Fwrite} {writes : List FwriteResult} {len written : Nat} {o : Nat × Nat}

theorem write_calls (fw : Fwrite) {fuel : Nat} (k : Nat) (hwritten : written ≤ len)
    (hfuel : len - written ≤ fuel) :
    ∃ o, write len (calls fw len fuel k written) written = some o := by
  induction fuel generalizing k written with
  | zero =>
      have hdone : written = len := by omega
      exact ⟨_, by rw [calls, write, if_pos hdone]⟩
  | succ fuel ih =>
      rw [calls]
      by_cases hdone : written = len
      · exact ⟨_, by rw [if_pos hdone, write, if_pos hdone]⟩
      · rw [if_neg hdone]
        have hbounded := fw.bounded k (len - written)
        have hmoves := fw.moves k (len - written)
        dsimp only
        generalize fw.result k (len - written) = w at hbounded hmoves ⊢
        have hroom : ¬ (written = len ∨ len - written < w.n) := by omega
        by_cases herr : w.n ≠ len - written ∧ w.err = true
        · rw [if_pos herr]
          exact ⟨_, by rw [write, if_neg hroom, if_pos herr]; rfl⟩
        · have hpos : 0 < w.n := by
            by_cases hshort : w.n = len - written
            · omega
            · have herrno : w.err = false := by
                rw [← Bool.not_eq_true]
                exact fun htrue => herr ⟨hshort, htrue⟩
              exact hmoves hshort herrno
          obtain ⟨o, ho⟩ := ih (k + 1) (show written + w.n ≤ len by omega) (by omega)
          rw [if_neg herr]
          exact ⟨o, by rw [write, if_neg hroom, if_neg herr]; exact ho⟩

theorem write_counted (h : write len writes written = some o) (hwritten : written ≤ len) :
    (o.2 = len ∧ o.1 = len) ∨ ∃ w, writes.getLast? = some w ∧ w.err = true ∧ o.2 ≠ len ∧
      o.2 = o.1 + w.n := by
  induction writes generalizing written with
  | nil =>
      simp only [write] at h
      split at h <;> cases h
      rename_i hdone
      exact .inl ⟨hdone, hdone⟩
  | cons w rest ih =>
      simp only [write] at h
      split at h
      · cases h
      · rename_i hroom
        split at h
        · rename_i hshort
          split at h <;> cases h
          rename_i hempty
          rw [List.isEmpty_iff.1 hempty]
          exact .inr ⟨w, rfl, hshort.2, by dsimp only; omega, rfl⟩
        · cases ih h (by omega) with
          | inl hall => exact .inl hall
          | inr hlast =>
              obtain ⟨v, hv, hrest⟩ := hlast
              refine .inr ⟨v, ?_, hrest⟩
              cases rest with
              | nil => cases hv
              | cons u tail => rw [List.getLast?_cons_cons, hv]

/-- `Append` returns, the file has taken a part of the line from its front, and the
whole line unless the loop broke off. -/
theorem append_returns (f : AppendFile) (line : List Byte) (fw : Fwrite) :
    ∃ f', f.append line (callsOf fw line) = some f' ∧
      accepted (callsOf fw line) ≤ line.length ∧
      f'.contents = f.contents ++ line.take (accepted (callsOf fw line)) ∧
      (¬ EndsInError line.length (callsOf fw line) →
        accepted (callsOf fw line) = line.length) ∧
      (f'.writtenBytes = f.writtenBytes + accepted (callsOf fw line) ↔
        ErrorTakesNothing line.length (callsOf fw line)) := by
  obtain ⟨o, ho⟩ : ∃ o, write line.length (callsOf fw line) 0 = some o :=
    write_calls fw 0 (Nat.zero_le _) (Nat.le_refl _)
  obtain ⟨htaken, hle⟩ := write_taken ho (Nat.zero_le _)
  have haccepted : accepted (callsOf fw line) = o.2 := by
    rw [htaken, Nat.zero_add, accepted]
  refine ⟨_, by rw [append, ho]; rfl, by omega, ?_, ?_, ?_⟩
  · rw [haccepted]
    simp [contents, List.append_assoc]
  · intro hends
    cases write_counted ho (Nat.zero_le _) with
    | inl hall => exact haccepted.trans hall.1
    | inr hlast =>
        obtain ⟨w, hw, herr, hshort, -⟩ := hlast
        exact absurd ⟨by rw [haccepted]; exact hshort, w, hw, herr⟩ hends
  · have hcount : f.writtenBytes + (o.1 : Int) = f.writtenBytes + accepted (callsOf fw line) ↔
        o.1 = o.2 := by
      rw [haccepted]
      omega
    refine hcount.trans ?_
    cases write_counted ho (Nat.zero_le _) with
    | inl hall =>
        have hwhole : accepted (callsOf fw line) = line.length := haccepted.trans hall.1
        exact iff_of_true (hall.2.trans hall.1.symm) fun hends => absurd hwhole hends.1
    | inr hlast =>
        obtain ⟨w, hw, herr, hshort, hcounted⟩ := hlast
        have hends : EndsInError line.length (callsOf fw line) :=
          ⟨by rw [haccepted]; exact hshort, w, hw, herr⟩
        constructor
        · intro heq _ v hv
          rw [hw, Option.some.injEq] at hv
          rw [← hv]
          omega
        · intro hnothing
          have hzero := hnothing hends w hw
          omega

/-- The file and the count after `Append`: it returns, what the file has taken is the
front of the line, all of it unless the loop broke off, and `written_bytes_` grew by that. -/
def Accounts (f : AppendFile) (line : List Byte) (fw : Fwrite) : Prop :=
  ∃ f', f.append line (callsOf fw line) = some f' ∧
    f'.contents = f.contents ++ line.take (accepted (callsOf fw line)) ∧
    accepted (callsOf fw line) ≤ line.length ∧
    (¬ EndsInError line.length (callsOf fw line) → accepted (callsOf fw line) = line.length) ∧
    f'.writtenBytes = f.writtenBytes + accepted (callsOf fw line)

/-- The accounts are right exactly when the call that failed, if one did, had taken nothing. -/
theorem accounts_iff (f : AppendFile) (line : List Byte) (fw : Fwrite) :
    Accounts f line fw ↔ ErrorTakesNothing line.length (callsOf fw line) := by
  obtain ⟨f', hf', hle, hcontents, hwhole, hcount⟩ := append_returns f line fw
  rw [← hcount]
  constructor
  · intro haccounts
    obtain ⟨f'', hf'', -, -, -, hwritten⟩ := haccounts
    rw [hf', Option.some.injEq] at hf''
    rw [hf'']
    exact hwritten
  · intro hwritten
    exact ⟨f', hf', hcontents, hle, hwhole, hwritten⟩

/-- A disk with room for two bytes. -/
def fullDisk : Fwrite where
  result k remain := ⟨if k = 0 then min remain 2 else 0, true⟩
  bounded k remain := by
    dsimp only
    split
    · exact Nat.min_le_left _ _
    · exact Nat.zero_le _
  moves k remain _ herr := by cases herr

/-- Two of three bytes are in the file, none is counted. -/
theorem taken_not_counted : ¬ Accounts (new 0) [97, 98, 99] fullDisk := by
  intro haccounts
  obtain ⟨f', hf', -, -, -, hwritten⟩ := haccounts
  have hrun : (new 0).append [97, 98, 99] (callsOf fullDisk [97, 98, 99]) =
      some ⟨0, [], [97, 98], 0⟩ := by decide
  rw [hrun, Option.some.injEq] at hf'
  rw [← hf'] at hwritten
  exact absurd hwritten (by decide)

end AppendFile

end MyNetLib
