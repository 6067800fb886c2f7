import MyNetLib.Timer.Rounds

/-! # `CheckAndHandle` as a whole

With callbacks that only add timers the pass runs the timers that are due, in order,
and touches no other. With callbacks that also remove timers it does what is left of
that, as long as none removes the timer it runs for: the code goes on to read it.
-/

namespace MyNetLib.TimerManager

open Library

variable {m m' : TimerManager} {now fuel : Nat} {callback : Nat → List Call}
  {rounds : List Round} {a : Nat} {timer : Timer}

def due (m : TimerManager) (now : Nat) (a : Nat) : Bool :=
  match m.timers.get a with
  | some timer => timer.expiredTime ≤ now
  | none => false

/-- What the pass should leave of a queued timer. -/
def expected (m : TimerManager) (now : Nat) (a : Nat) : Option Timer :=
  if m.due now a then (m.timers.get a).bind (·.after now) else m.timers.get a

/-- `AddTimer`, with a clock that is not behind that of the pass. -/
def Call.AddsFrom (now : Nat) : Call → Prop
  | .addTimer clock _ _ => now ≤ clock ∧ clock < 2 ^ 63
  | .removeTimer _ => False

theorem Call.AddsFrom.allowed {c : Call} (h : c.AddsFrom now) : c.Allowed now := by
  cases c with
  | addTimer clock k interval => exact h
  | removeTimer t => exact h.elim

theorem sparesSelf_of_no_removal {k : Nat}
    (hnone : ∀ j, k ≤ j → ∀ t, .removeTimer t ∉ callback j) (fuel : Nat) (m : TimerManager) :
    SparesSelf now callback fuel m k := by
  induction fuel generalizing m k with
  | zero => trivial
  | succ fuel ih =>
      intro t timer _ _ _
      exact ⟨hnone k le_rfl t, fun m' _ => ih (fun j hj => hnone j (Nat.le_of_succ_le hj)) m'⟩

theorem due_of_get (hget : m.timers.get a = some timer) :
    m.due now a = true ↔ timer.expiredTime ≤ now := by
  simp [due, hget]

/-- Nothing is removed and nothing due is left, so what was due has run. -/
theorem Passed.ran_iff (h₀ : Valid m) (h : Passed now callback m rounds m')
    (hnone : ∀ a, .removeTimer a ∉ made rounds)
    (hlater : ∀ a ∈ m'.timersQue, ∀ timer, m'.timers.get a = some timer → now < timer.expiredTime) :
    ∀ a, a ∈ ran rounds ↔ a ∈ m.timersQue ∧ m.due now a = true := by
  intro a
  constructor
  · intro ha
    obtain ⟨hqueued, timer, hget, hdue⟩ := h.due a ha
    exact ⟨hqueued, (due_of_get hget).2 hdue⟩
  · rintro ⟨ha, hdue⟩
    by_contra hran
    obtain ⟨timer, hget, _⟩ := h₀.alive a ha
    have hlt := h₀.lt_next ha
    have hhandled : handled now m rounds a = some timer := by
      rw [handled, if_neg hran, hget]
    have hleft : a ∈ m'.timersQue :=
      (h.old a hlt).2 ⟨ha, hnone a, by rw [hhandled]; rfl⟩
    have hafter := hlater a hleft timer ((h.same a hleft hlt).trans hhandled)
    have hbefore := (due_of_get hget).1 hdue
    omega

/-! ## Callbacks that add timers -/

section Adds

variable (h₀ : Valid m) (h : Passed now callback m rounds m')
  (hnone : ∀ a, .removeTimer a ∉ made rounds)
  (hran : ∀ a, a ∈ ran rounds ↔ a ∈ m.timersQue ∧ m.due now a = true)

include hran in
theorem handled_eq_expected {a : Nat} (ha : a ∈ m.timersQue) :
    handled now m rounds a = m.expected now a := by
  by_cases hdue : m.due now a = true
  · rw [handled, expected, if_pos ((hran a).2 ⟨ha, hdue⟩), if_pos hdue]
  · rw [handled, expected, if_neg fun h => hdue ((hran a).1 h).2, if_neg hdue]

include h₀ h hran in
theorem Passed.ran_perm : (ran rounds).Perm (m.timersQue.filter (m.due now)) := by
  rw [List.perm_ext_iff_of_nodup h.once (h₀.nodup.filter _)]
  intro a
  rw [hran a, List.mem_filter]

include h₀ h hnone hran in
theorem Passed.queue_perm :
    m'.timersQue.Perm (m.timersQue.filter (fun a => (m.expected now a).isSome) ++
      List.range' m.timers.next (added (made rounds)).length) := by
  have hnext := h.next
  have hdisjoint : (m.timersQue.filter (fun a => (m.expected now a).isSome) ++
      List.range' m.timers.next (added (made rounds)).length).Nodup := by
    rw [List.nodup_append]
    refine ⟨h₀.nodup.filter _, List.nodup_range', ?_⟩
    intro a ha b hb heq
    have hlt := h₀.lt_next (List.mem_filter.1 ha).1
    have hge := (List.mem_range'_1.1 hb).1
    omega
  rw [List.perm_ext_iff_of_nodup h.valid.nodup hdisjoint]
  intro a
  rw [List.mem_append, List.mem_filter, List.mem_range'_1]
  by_cases hlt : a < m.timers.next
  · have hold := h.old a hlt
    constructor
    · intro ha
      obtain ⟨hqueued, _, hsome⟩ := hold.1 ha
      rw [handled_eq_expected hran hqueued] at hsome
      exact Or.inl ⟨hqueued, hsome⟩
    · rintro (⟨hqueued, hsome⟩ | ⟨hge, _⟩)
      · exact hold.2 ⟨hqueued, hnone a, by rw [handled_eq_expected hran hqueued]; exact hsome⟩
      · omega
  · constructor
    · intro ha
      have hlt' := h.valid.lt_next ha
      exact Or.inr ⟨by omega, by omega⟩
    · rintro (⟨hqueued, _⟩ | ⟨hge, hlt'⟩)
      · exact absurd (h₀.lt_next hqueued) hlt
      · exact h.kept a hge (by omega) (hnone a)

include h₀ h hnone hran in
theorem Passed.get_queued (ha : a ∈ m.timersQue) : m'.timers.get a = m.expected now a := by
  have hlt := h₀.lt_next ha
  by_cases hleft : a ∈ m'.timersQue
  · rw [h.same a hleft hlt, handled_eq_expected hran ha]
  · rw [h.gone a ha hleft, ← handled_eq_expected hran ha]
    by_contra hsome
    refine hleft ((h.old a hlt).2 ⟨ha, hnone a, ?_⟩)
    exact Option.isSome_iff_ne_none.2 (Ne.symm hsome)

include h hnone in
theorem Passed.get_added (i : Nat) :
    m'.timers.get (m.timers.next + i) = (added (made rounds))[i]? := by
  have hnext := h.next
  by_cases hlt : i < (added (made rounds)).length
  · have hleft := h.kept (m.timers.next + i) (by omega) (by omega) (hnone _)
    rw [h.new _ hleft (by omega), Nat.add_sub_cancel_left]
  · rw [List.getElem?_eq_none (by omega)]
    by_contra hsome
    obtain ⟨timer, hget⟩ := Option.ne_none_iff_exists'.1 hsome
    have hlt' := Heap.lt_next_of_get hget
    omega

end Adds

/-- One pass over any queue, at any reading of the clock, with callbacks that add any
timers: it ends; it runs what was due on entry, each timer once and in order, and pops
the timer it ran; all others stay, the new ones are there, and none is due. -/
theorem pass_runs_due (m : TimerManager) (now : Nat) (callback : Nat → List Call)
    (hvalid : Valid m) (hnow : now < 2 ^ 63) (hadds : ∀ k, ∀ c ∈ callback k, c.AddsFrom now)
    (fuel : Nat) (hfuel : m.timersQue.length < fuel) :
    ∃ m' rounds, checkLoop now callback fuel m [] = .returned m' rounds ∧
      rounds.map Round.calls = (List.range rounds.length).map callback ∧
      (ran rounds).Perm (m.timersQue.filter (m.due now)) ∧
      (ran rounds).Pairwise (fun a b => key m.timers a ≤ key m.timers b) ∧
      (∀ r ∈ rounds, r.popped = some r.timer) ∧
      Valid m' ∧
      (∀ a ∈ m'.timersQue, ∀ timer, m'.timers.get a = some timer → now < timer.expiredTime) ∧
      m'.timersQue.Perm (m.timersQue.filter (fun a => (m.expected now a).isSome) ++
        List.range' m.timers.next (added (made rounds)).length) ∧
      (∀ a ∈ m.timersQue, m'.timers.get a = m.expected now a) ∧
      ∀ i, m'.timers.get (m.timers.next + i) = (added (made rounds))[i]? := by
  have hallowed : ∀ k, ∀ c ∈ callback k, c.Allowed now := fun k c hc => (hadds k c hc).allowed
  obtain ⟨m', rounds, hloop, hpassed, hlater⟩ := (Passed.start hvalid).returns hvalid hnow hallowed
    (by simpa using hfuel) (sparesSelf_of_no_removal (fun k _ t hself => hadds k _ hself) fuel m)
  have hnone : ∀ a, .removeTimer a ∉ made rounds := by
    intro a ha
    obtain ⟨k, hk⟩ := hpassed.mem_made ha
    exact hadds k _ hk
  have hran := hpassed.ran_iff hvalid hnone hlater
  exact ⟨m', rounds, hloop, hpassed.calls, hpassed.ran_perm hvalid hran, hpassed.sorted,
    hpassed.popped, hpassed.valid, hlater, hpassed.queue_perm hvalid hnone hran,
    fun a ha => hpassed.get_queued hvalid hnone hran ha, hpassed.get_added hnone⟩

def threeTimers : TimerManager :=
  ((((new.addTimer 0 1 50).2).addTimer 0 0 30).2.addTimer 0 0 900).2

theorem valid_threeTimers : Valid threeTimers :=
  have h₁ := (valid_new.addTimer 0 1 (by decide : ¬ (50 : Int64) ≤ 0)).2.2
  have h₂ := (h₁.addTimer 0 0 (by decide : ¬ (30 : Int64) ≤ 0)).2.2
  (h₂.addTimer 0 0 (by decide : ¬ (900 : Int64) ≤ 0)).2.2

def addsOne (k : Nat) : List Call := if k = 0 then [.addTimer 70 0 5] else []

theorem pass_runs_due_threeTimers :
    ∃ m' rounds, checkLoop 60 addsOne 4 threeTimers [] = .returned m' rounds ∧
      (ran rounds).Perm [1, 0] ∧
      (ran rounds).Pairwise (fun a b => key threeTimers.timers a ≤ key threeTimers.timers b) ∧
      Valid m' := by
  have hadds : ∀ k, ∀ c ∈ addsOne k, c.AddsFrom 60 := by
    intro k c hc
    unfold addsOne at hc
    split at hc
    · rw [List.mem_singleton.1 hc]
      exact ⟨by decide, by decide⟩
    · cases hc
  obtain ⟨m', rounds, hloop, _, hran, hsorted, _, hvalid, _⟩ :=
    pass_runs_due threeTimers 60 addsOne valid_threeTimers (by decide) hadds 4 (by decide)
  have hdue : threeTimers.timersQue.filter (threeTimers.due 60) = [1, 0] := by decide
  rw [hdue] at hran
  exact ⟨m', rounds, hloop, hran, hsorted, hvalid⟩

/-! ## Callbacks that remove timers -/

/-- What a pass that cancels timers should leave: the queued timers that nobody removed
and that did not run out, each as it was or with its next deadline; a removed timer does
not run afterwards, and what is popped is the timer that ran. -/
structure Cancelled (now : Nat) (callback : Nat → List Call) (m : TimerManager)
    (rounds : List Round) (m' : TimerManager) : Prop where
  valid : Valid m'
  calls : rounds.map Round.calls = (List.range rounds.length).map callback
  queued : ∀ a, a < m.timers.next → (a ∈ m'.timersQue ↔ a ∈ m.timersQue ∧
    .removeTimer a ∉ made rounds ∧ (handled now m rounds a).isSome = true)
  added : ∀ a ∈ m'.timersQue, m.timers.next ≤ a →
    ∃ timer ∈ added (made rounds), m'.timers.get a = some timer
  values : ∀ a ∈ m'.timersQue, a < m.timers.next → m'.timers.get a = handled now m rounds a
  deleted : ∀ a ∈ m.timersQue, a ∉ m'.timersQue → m'.timers.get a = none
  spared : rounds.Pairwise fun r r' => .removeTimer r'.timer ∉ r.calls
  popped : ∀ r ∈ rounds, r.popped = some r.timer

theorem Passed.cancelled (h : Passed now callback m rounds m') :
    Cancelled now callback m rounds m' := by
  constructor
  · exact h.valid
  · exact h.calls
  · exact h.old
  · intro a ha hge
    have hlt := h.valid.lt_next ha
    have hnext := h.next
    have hbound : a - m.timers.next < (TimerManager.added (made rounds)).length := by omega
    refine ⟨_, List.getElem_mem hbound, ?_⟩
    rw [h.new a ha hge, List.getElem?_eq_getElem hbound]
  · exact h.same
  · exact h.gone
  · exact h.spared
  · exact h.popped

/-- One pass over any queue with callbacks that remove any timers (and add some): it
ends with the queue it should leave exactly when no callback that runs in it removes the
timer it runs for. -/
theorem cancel_in_callback_iff (m : TimerManager) (now : Nat) (callback : Nat → List Call)
    (hvalid : Valid m) (hnow : now < 2 ^ 63) (hallowed : ∀ k, ∀ c ∈ callback k, c.Allowed now)
    (fuel : Nat) (hfuel : m.timersQue.length < fuel) :
    (∃ m' rounds, checkLoop now callback fuel m [] = .returned m' rounds ∧
      Cancelled now callback m rounds m') ↔ SparesSelf now callback fuel m 0 := by
  constructor
  · rintro ⟨m', rounds, hloop, _⟩
    by_contra hself
    have hdangling : checkLoop now callback fuel m [] = .dangling :=
      checkLoop_dangling hvalid hallowed hself
    rw [hdangling] at hloop
    cases hloop
  · intro hspares
    obtain ⟨m', rounds, hloop, hpassed, _⟩ :=
      (Passed.start hvalid).returns hvalid hnow hallowed (by simpa using hfuel) hspares
    exact ⟨m', rounds, hloop, hpassed.cancelled⟩

def removesOther (k : Nat) : List Call := if k = 0 then [.removeTimer 0] else []

def removesItself (k : Nat) : List Call := if k = 0 then [.removeTimer 1] else []

theorem cancel_in_callback_iff_other :
    ∃ m' rounds, checkLoop 60 removesOther 4 threeTimers [] = .returned m' rounds ∧
      Cancelled 60 removesOther threeTimers rounds m' := by
  have hallowed : ∀ k, ∀ c ∈ removesOther k, c.Allowed 60 := by
    intro k c hc
    unfold removesOther at hc
    split at hc
    · rw [List.mem_singleton.1 hc]
      trivial
    · cases hc
  refine (cancel_in_callback_iff threeTimers 60 removesOther valid_threeTimers (by decide) hallowed
    4 (by decide)).2 ?_
  intro t timer htop _ _
  have hroot : t = 1 := (Option.some.inj htop).symm
  rw [hroot]
  refine ⟨by decide, fun m' _ => sparesSelf_of_no_removal (fun j hj t => ?_) 3 m'⟩
  rw [removesOther, if_neg (by omega)]
  exact List.not_mem_nil

/-- It is read after it was deleted. -/
theorem removed_timer_read :
    ¬ ∀ (m : TimerManager) (now : Nat) (callback : Nat → List Call), Valid m → now < 2 ^ 63 →
      (∀ k, ∀ c ∈ callback k, c.Allowed now) → ∀ fuel, m.timersQue.length < fuel →
      ∃ m' rounds, checkLoop now callback fuel m [] = .returned m' rounds ∧
        Cancelled now callback m rounds m' := by
  intro hall
  have hallowed : ∀ k, ∀ c ∈ removesItself k, c.Allowed 60 := by
    intro k c hc
    unfold removesItself at hc
    split at hc
    · rw [List.mem_singleton.1 hc]
      trivial
    · cases hc
  obtain ⟨m', rounds, hloop, _⟩ :=
    hall threeTimers 60 removesItself valid_threeTimers (by decide) hallowed 4 (by decide)
  have hdangling : checkLoop 60 removesItself 4 threeTimers [] = .dangling := rfl
  rw [hdangling] at hloop
  cases hloop

end MyNetLib.TimerManager
