import MyNetLib.Timer.Firing
import MyNetLib.Timer.Queue

/-! # One pass of `CheckAndHandle`

The loop over the queue, with the calls that each callback makes on the same
manager: the `k`-th callback of the pass makes the calls `callback k`. `Round`
records what a round did: whose callback ran, its calls, and which timer was at the
root when the code popped.
-/

namespace MyNetLib.TimerManager

open Library

/-! ## The loop -/

inductive Call where
  | addTimer (now : Nat) (repeatedTimes : Int32) (interval : Int64)
  | removeTimer (timer : Nat)
  deriving DecidableEq

def call (m : TimerManager) : Call → TimerManager
  | .addTimer now repeatedTimes interval => (m.addTimer now repeatedTimes interval).2
  | .removeTimer timer => m.removeTimer timer

def calls (m : TimerManager) (cs : List Call) : TimerManager := cs.foldl call m

structure Round where
  timer : Nat
  calls : List Call
  popped : Option Nat

inductive Outcome where
  | running
  | dangling
  | returned (m : TimerManager) (rounds : List Round)

/-- The loop of `CheckAndHandle`, `running` without the fuel for another round and
`dangling` at the read of a deleted timer. -/
def checkLoop (now : Nat) (callback : Nat → List Call) :
    Nat → TimerManager → List Round → Outcome
  | 0, _, _ => .running
  | fuel + 1, m, rounds =>
      match BinaryHeap.top m.timersQue with
      | none => .returned m rounds
      | some timer =>
          match m.timers.get timer with
          | none => .dangling
          | some t =>
              if t.expiredTime ≤ now then
                let cs := callback rounds.length
                let m' := m.calls cs
                match m'.afterRun now timer with
                | none => .dangling
                | some m'' =>
                    checkLoop now callback fuel m''
                      (rounds ++ [⟨timer, cs, BinaryHeap.top m'.timersQue⟩])
              else .returned m rounds

/-- The clock of an `AddTimer` in a callback is not behind that of the pass. -/
def Call.Allowed (now : Nat) : Call → Prop
  | .addTimer clock _ _ => now ≤ clock ∧ clock < 2 ^ 63
  | .removeTimer _ => True

/-- No callback that runs in the pass removes its own timer. -/
def SparesSelf (now : Nat) (callback : Nat → List Call) : Nat → TimerManager → Nat → Prop
  | 0, _, _ => True
  | fuel + 1, m, k =>
      ∀ timer t, BinaryHeap.top m.timersQue = some timer → m.timers.get timer = some t →
        t.expiredTime ≤ now → .removeTimer timer ∉ callback k ∧
          ∀ m', (m.calls (callback k)).afterRun now timer = some m' →
            SparesSelf now callback fuel m' (k + 1)

/-! ## The calls of a callback -/

/-- The timer an `AddTimer` makes. -/
def Call.timer : Call → Option Timer
  | .addTimer now repeatedTimes interval =>
      if interval ≤ 0 then none else some ⟨Timer.deadline now interval, repeatedTimes, interval⟩
  | .removeTimer _ => none

def added (cs : List Call) : List Timer := cs.filterMap Call.timer

variable {m m' m₀ m₁ m₂ : TimerManager} {cs ds : List Call} {c : Call} {now fuel : Nat}
  {t a : Nat} {timer : Timer} {callback : Nat → List Call} {rounds : List Round}

/-- What calls do to a manager: old timers stay or are deleted, new ones are as made. -/
structure Extends (cs : List Call) (m m' : TimerManager) : Prop where
  next : m'.timers.next = m.timers.next + (added cs).length
  old : ∀ a, a < m.timers.next →
    (a ∈ m'.timersQue ↔ a ∈ m.timersQue ∧ .removeTimer a ∉ cs)
  same : ∀ a ∈ m'.timersQue, a < m.timers.next → m'.timers.get a = m.timers.get a
  new : ∀ a ∈ m'.timersQue, m.timers.next ≤ a →
    m'.timers.get a = (added cs)[a - m.timers.next]?
  kept : ∀ a, m.timers.next ≤ a → a < m'.timers.next → .removeTimer a ∉ cs → a ∈ m'.timersQue
  dead : ∀ a, a < m.timers.next → m.timers.get a = none → m'.timers.get a = none
  freed : ∀ a ∈ m.timersQue, a ∉ m'.timersQue → m'.timers.get a = none

theorem Extends.refl (h : Valid m) : Extends [] m m := by
  constructor
  · rfl
  · simp
  · exact fun a _ _ => rfl
  · exact fun a ha hge => absurd (h.lt_next ha) (not_lt.2 hge)
  · exact fun a hge hlt => absurd hlt (not_lt.2 hge)
  · exact fun a _ hnone => hnone
  · exact fun a ha hnot => absurd ha hnot

theorem Extends.trans (hm : Valid m) (h : Extends cs m m₁) (h' : Extends ds m₁ m₂) :
    Extends (cs ++ ds) m m₂ := by
  have hadded : added (cs ++ ds) = added cs ++ added ds := List.filterMap_append
  have hle := h.next
  have hle' := h'.next
  constructor
  · rw [hadded, List.length_append]
    omega
  · intro a ha
    rw [h'.old a (by omega), h.old a ha, List.mem_append, not_or, and_assoc]
  · intro a ha hlt
    have ha₁ := (h'.old a (by omega)).1 ha
    exact (h'.same a ha (by omega)).trans (h.same a ha₁.1 hlt)
  · intro a ha hge
    rw [hadded]
    by_cases hlt : a < m₁.timers.next
    · have ha₁ := (h'.old a hlt).1 ha
      rw [h'.same a ha hlt, h.new a ha₁.1 hge, List.getElem?_append_left (by omega)]
    · rw [h'.new a ha (by omega), List.getElem?_append_right (by omega)]
      congr 1
      omega
  · intro a hge hlt hnot
    rw [List.mem_append, not_or] at hnot
    by_cases hlt₁ : a < m₁.timers.next
    · exact (h'.old a hlt₁).2 ⟨h.kept a hge hlt₁ hnot.1, hnot.2⟩
    · exact h'.kept a (by omega) hlt hnot.2
  · intro a hlt hnone
    exact h'.dead a (by omega) (h.dead a hlt hnone)
  · intro a ha hnot
    by_cases ha₁ : a ∈ m₁.timersQue
    · exact h'.freed a ha₁ hnot
    · have hlt := hm.lt_next ha
      exact h'.dead a (by omega) (h.freed a ha ha₁)

theorem extends_addTimer (h : Valid m) (clock : Nat) (k : Int32) (interval : Int64) :
    Valid (m.addTimer clock k interval).2 ∧
      Extends [.addTimer clock k interval] m (m.addTimer clock k interval).2 := by
  by_cases hinterval : interval ≤ 0
  · have hsame : (m.addTimer clock k interval).2 = m := by
      simp [addTimer, hinterval]
    have hadded : added [.addTimer clock k interval] = [] := by
      simp [added, Call.timer, hinterval]
    have hrefl := Extends.refl h
    rw [hsame]
    refine ⟨h, ?_, ?_, hrefl.same, ?_, ?_, hrefl.dead, hrefl.freed⟩
    · simp [hadded]
    · simp
    · exact fun a ha hge => absurd (h.lt_next ha) (not_lt.2 hge)
    · exact fun a hge hlt => absurd hlt (not_lt.2 hge)
  · obtain ⟨htimers, hperm, hvalid⟩ := h.addTimer clock k hinterval
    have hadded : added [.addTimer clock k interval] =
        [⟨Timer.deadline clock interval, k, interval⟩] := by
      simp [added, Call.timer, hinterval]
    have hnext : (m.addTimer clock k interval).2.timers.next = m.timers.next + 1 := by
      rw [htimers]
      simp [Heap.next, Heap.alloc]
    have hold : ∀ a, a < m.timers.next →
        (m.addTimer clock k interval).2.timers.get a = m.timers.get a := by
      intro a ha
      rw [htimers]
      exact Heap.get_alloc_of_ne ha.ne _
    refine ⟨hvalid, ?_, ?_, ?_, ?_, ?_, ?_, ?_⟩
    · rw [hnext, hadded]
      rfl
    · intro a ha
      rw [hperm.mem_iff, List.mem_cons, or_iff_right ha.ne]
      simp
    · exact fun a _ ha => hold a ha
    · intro a ha hge
      have hlt := hvalid.lt_next ha
      have heq : a = m.timers.next := by omega
      rw [heq, htimers, Heap.get_alloc_next, hadded]
      simp
    · intro a hge hlt _
      have heq : a = m.timers.next := by omega
      rw [heq]
      exact hperm.mem_iff.2 List.mem_cons_self
    · intro a ha hnone
      rw [hold a ha]
      exact hnone
    · intro a ha hnot
      exact absurd (hperm.mem_iff.2 (List.mem_cons_of_mem _ ha)) hnot

theorem extends_removeTimer (h : Valid m) (t : Nat) :
    Valid (m.removeTimer t) ∧ Extends [.removeTimer t] m (m.removeTimer t) := by
  obtain ⟨hvalid, htimers, hmem, _⟩ := h.removeTimer t
  have hnext : (m.removeTimer t).timers.next = m.timers.next := by
    rw [htimers]
    split
    · exact Heap.next_free _ _
    · rfl
  have hother : ∀ a, a ≠ t → (m.removeTimer t).timers.get a = m.timers.get a := by
    intro a ha
    rw [htimers]
    split
    · exact Heap.get_free_of_ne ha
    · rfl
  refine ⟨hvalid, ?_, ?_, ?_, ?_, ?_, ?_, ?_⟩
  · exact hnext
  · intro a _
    rw [hmem]
    simp
  · exact fun a ha _ => hother a ((hmem a).1 ha).2
  · exact fun a ha hge => absurd (h.lt_next ((hmem a).1 ha).1) (not_lt.2 hge)
  · intro a hge hlt
    omega
  · intro a _ hnone
    rw [htimers]
    split
    · by_cases ha : a = t
      · rw [ha]
        exact Heap.get_free_self _ _
      · rw [Heap.get_free_of_ne ha]
        exact hnone
    · exact hnone
  · intro a ha hnot
    have hat : a = t := by
      by_contra hne
      exact hnot ((hmem a).2 ⟨ha, hne⟩)
    subst hat
    rw [htimers, if_pos ha]
    exact Heap.get_free_self _ _

theorem extends_call (h : Valid m) (c : Call) : Valid (m.call c) ∧ Extends [c] m (m.call c) := by
  cases c with
  | addTimer clock k interval => exact extends_addTimer h clock k interval
  | removeTimer t => exact extends_removeTimer h t

theorem extends_calls (h : Valid m) (cs : List Call) :
    Valid (m.calls cs) ∧ Extends cs m (m.calls cs) := by
  induction cs generalizing m with
  | nil => exact ⟨h, Extends.refl h⟩
  | cons c cs ih =>
      obtain ⟨hvalid, hcall⟩ := extends_call h c
      obtain ⟨hvalid', hcalls⟩ := ih hvalid
      exact ⟨hvalid', hcall.trans h hcalls⟩

/-- Timers added in the pass are not due in it. -/
theorem added_later (hcs : ∀ c ∈ cs, c.Allowed now) (htimer : timer ∈ added cs) :
    now < timer.expiredTime := by
  obtain ⟨c, hc, hmade⟩ := List.mem_filterMap.1 htimer
  cases c with
  | addTimer clock k interval =>
      have hclock := hcs _ hc
      simp only [Call.timer] at hmade
      split at hmade
      · cases hmade
      · rename_i hinterval
        cases hmade
        have hpos : 0 < interval.toInt := by
          rw [Int64.le_iff_toInt_le, Int64.toInt_zero] at hinterval
          omega
        have hdeadline := deadline_eq hclock.2 hpos
        have hle : now ≤ clock := hclock.1
        dsimp only
        omega
  | removeTimer t => cases hmade

theorem calls_top (h : Valid m) (htop : BinaryHeap.top m.timersQue = some t)
    (hget : m.timers.get t = some timer) (hdue : timer.expiredTime ≤ now)
    (hcs : ∀ c ∈ cs, c.Allowed now) (hspares : .removeTimer t ∉ cs) :
    BinaryHeap.top (m.calls cs).timersQue = some t := by
  induction cs generalizing m with
  | nil => exact htop
  | cons c cs ih =>
      rw [List.mem_cons, not_or] at hspares
      obtain ⟨hvalid, hcall⟩ := extends_call h c
      have htop' : BinaryHeap.top (m.call c).timersQue = some t := by
        cases c with
        | addTimer clock k interval =>
            by_cases hinterval : interval ≤ 0
            · simpa [call, addTimer, hinterval] using htop
            · have hlater : now < Timer.deadline clock interval :=
                added_later hcs (List.mem_filterMap.2 ⟨_, List.mem_cons_self, if_neg hinterval⟩)
              exact addTimer_top htop hget (hdue.trans_lt hlater)
        | removeTimer a =>
            refine (h.removeTimer a).2.2.2 t htop ?_
            rintro rfl
            exact hspares.1 rfl
      have hlt := Heap.lt_next_of_get hget
      have hget' := hcall.same t (List.mem_of_getElem? htop') hlt
      exact ih hvalid htop' (hget'.trans hget)
        (fun d hd => hcs d (List.mem_cons_of_mem c hd)) hspares.2

end MyNetLib.TimerManager
