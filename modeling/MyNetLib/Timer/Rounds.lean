import MyNetLib.Timer.Pass

/-! # What a pass does to the queue

`Passed` relates the manager after some rounds of a pass to the one on entry. A
round keeps it, and at most one round goes to each timer that was queued on entry,
so the loop ends; it ends well unless a callback removes its own timer.
-/

namespace MyNetLib.TimerManager

open Library

variable {m m' m₀ m₁ m₂ : TimerManager} {cs : List Call} {now fuel : Nat} {t a : Nat}
  {timer : Timer} {callback : Nat → List Call} {rounds : List Round}

/-- The timers whose callbacks ran, -/
def ran (rounds : List Round) : List Nat := rounds.map Round.timer

/-- and the calls they made. -/
def made (rounds : List Round) : List Call := rounds.flatMap Round.calls

def handled (now : Nat) (m₀ : TimerManager) (rounds : List Round) (a : Nat) : Option Timer :=
  if a ∈ ran rounds then (m₀.timers.get a).bind (·.after now) else m₀.timers.get a

structure Passed (now : Nat) (callback : Nat → List Call) (m₀ : TimerManager)
    (rounds : List Round) (m : TimerManager) : Prop where
  valid : Valid m
  calls : rounds.map Round.calls = (List.range rounds.length).map callback
  popped : ∀ r ∈ rounds, r.popped = some r.timer
  due : ∀ a ∈ ran rounds, a ∈ m₀.timersQue ∧
    ∃ timer, m₀.timers.get a = some timer ∧ timer.expiredTime ≤ now
  once : (ran rounds).Nodup
  next : m.timers.next = m₀.timers.next + (added (made rounds)).length
  old : ∀ a, a < m₀.timers.next → (a ∈ m.timersQue ↔ a ∈ m₀.timersQue ∧
    .removeTimer a ∉ made rounds ∧ (handled now m₀ rounds a).isSome = true)
  same : ∀ a ∈ m.timersQue, a < m₀.timers.next → m.timers.get a = handled now m₀ rounds a
  new : ∀ a ∈ m.timersQue, m₀.timers.next ≤ a →
    m.timers.get a = (added (made rounds))[a - m₀.timers.next]?
  kept : ∀ a, m₀.timers.next ≤ a → a < m.timers.next → .removeTimer a ∉ made rounds →
    a ∈ m.timersQue
  gone : ∀ a ∈ m₀.timersQue, a ∉ m.timersQue → m.timers.get a = none
  sorted : (ran rounds).Pairwise fun a b => key m₀.timers a ≤ key m₀.timers b
  later : ∀ a ∈ ran rounds, ∀ b ∈ m.timersQue, b < m₀.timers.next → b ∉ ran rounds →
    key m₀.timers a ≤ key m₀.timers b
  spared : rounds.Pairwise fun r r' => .removeTimer r'.timer ∉ r.calls
  own : ∀ r ∈ rounds, .removeTimer r.timer ∉ r.calls

theorem Passed.start (h : Valid m₀) : Passed now callback m₀ [] m₀ := by
  constructor
  case valid => exact h
  case calls => rfl
  case popped => simp
  case due => simp [ran]
  case once => exact List.nodup_nil
  case next => rfl
  case old =>
    intro a _
    constructor
    · intro ha
      exact ⟨ha, by simp [made], by simpa [handled, ran] using h.isSome ha⟩
    · exact fun ha => ha.1
  case same =>
    intro a _ _
    simp [handled, ran]
  case new => exact fun a ha hge => absurd (h.lt_next ha) (not_lt.2 hge)
  case kept => exact fun a hge hlt => absurd hlt (not_lt.2 hge)
  case gone => exact fun a ha hnot => absurd ha hnot
  case sorted => exact List.Pairwise.nil
  case later => simp [ran]
  case spared => exact List.Pairwise.nil
  case own => simp

/-- The interval is positive, so the next deadline is after the pass began. -/
theorem Timer.after_later {timer' : Timer} (hnow : now < 2 ^ 63) (hpos : 0 < timer.interval.toInt)
    (hafter : timer.after now = some timer') : now < timer'.expiredTime := by
  unfold Timer.after at hafter
  split at hafter
  · cases hafter
  · have hdeadline := deadline_eq hnow hpos
    cases hafter
    show now < Timer.deadline now timer.interval
    omega

theorem Passed.mem_made {c : Call} (h : Passed now callback m₀ rounds m) (hc : c ∈ made rounds) :
    ∃ k, c ∈ callback k := by
  obtain ⟨r, hr, hc⟩ := List.mem_flatMap.1 hc
  have hmem : r.calls ∈ rounds.map Round.calls := List.mem_map_of_mem hr
  rw [h.calls] at hmem
  obtain ⟨k, _, hk⟩ := List.mem_map.1 hmem
  rw [← hk] at hc
  exact ⟨k, hc⟩

theorem Passed.due_old (h₀ : Valid m₀) (h : Passed now callback m₀ rounds m) (hnow : now < 2 ^ 63)
    (hallowed : ∀ k, ∀ c ∈ callback k, c.Allowed now) (ht : t ∈ m.timersQue)
    (hget : m.timers.get t = some timer) (hdue : timer.expiredTime ≤ now) :
    t < m₀.timers.next ∧ t ∉ ran rounds ∧ m₀.timers.get t = some timer := by
  have hold : t < m₀.timers.next := by
    by_contra hge
    have hnew := h.new t ht (by omega)
    rw [hget] at hnew
    have hmade : ∀ c ∈ made rounds, c.Allowed now := by
      intro c hc
      obtain ⟨k, hk⟩ := h.mem_made hc
      exact hallowed k c hk
    have hlater := added_later hmade (List.mem_of_getElem? hnew.symm)
    omega
  have hsame := h.same t ht hold
  rw [hget] at hsame
  by_cases hran : t ∈ ran rounds
  · rw [handled, if_pos hran] at hsame
    obtain ⟨timer₀, hget₀, hafter⟩ := Option.bind_eq_some_iff.1 hsame.symm
    obtain ⟨timer₁, hget₁, hpos⟩ := h₀.alive t (h.due t hran).1
    rw [hget₀, Option.some.injEq] at hget₁
    subst hget₁
    have hlater := Timer.after_later hnow hpos hafter
    omega
  · rw [handled, if_neg hran] at hsame
    exact ⟨hold, hran, hsame.symm⟩

/-! ## One round -/

/-- What the round of timer `t`, with the calls `cs`, does to a manager. -/
structure OneRound (now : Nat) (cs : List Call) (t : Nat) (timer : Timer) (m m' : TimerManager) :
    Prop where
  valid : Valid m'
  next : m'.timers.next = m.timers.next + (added cs).length
  old : ∀ a, a < m.timers.next → (a ∈ m'.timersQue ↔ a ∈ m.timersQue ∧
    .removeTimer a ∉ cs ∧ (a = t → (timer.after now).isSome = true))
  same : ∀ a ∈ m'.timersQue, a < m.timers.next → a ≠ t → m'.timers.get a = m.timers.get a
  self : m'.timers.get t = timer.after now
  new : ∀ a ∈ m'.timersQue, m.timers.next ≤ a →
    m'.timers.get a = (added cs)[a - m.timers.next]?
  kept : ∀ a, m.timers.next ≤ a → a < m'.timers.next → .removeTimer a ∉ cs → a ∈ m'.timersQue
  dead : ∀ a, a < m.timers.next → m.timers.get a = none → m'.timers.get a = none
  freed : ∀ a ∈ m.timersQue, a ∉ m'.timersQue → m'.timers.get a = none

theorem oneRound (h : Valid m) (htop : BinaryHeap.top m.timersQue = some t)
    (hget : m.timers.get t = some timer) (hdue : timer.expiredTime ≤ now)
    (hcs : ∀ c ∈ cs, c.Allowed now) (hspares : .removeTimer t ∉ cs) :
    BinaryHeap.top (m.calls cs).timersQue = some t ∧
      ∃ m', (m.calls cs).afterRun now t = some m' ∧ OneRound now cs t timer m m' := by
  obtain ⟨hvalid, hcalls⟩ := extends_calls h cs
  have ht : t < m.timers.next := Heap.lt_next_of_get hget
  have htop' := calls_top h htop hget hdue hcs hspares
  have hget' : (m.calls cs).timers.get t = some timer :=
    (hcalls.same t (List.mem_of_getElem? htop') ht).trans hget
  obtain ⟨m', hrun, hvalid', hnext, hothers, hself, hmem⟩ := hvalid.afterRun now htop' hget'
  have hle := hcalls.next
  refine ⟨htop', m', hrun, hvalid', hnext.trans hle, ?_, ?_, hself, ?_, ?_, ?_, ?_⟩
  · intro a ha
    rw [hmem, hcalls.old a ha, and_assoc]
  · intro a ha hlt hne
    rw [hothers a hne]
    exact hcalls.same a ((hmem a).1 ha).1 hlt
  · intro a ha hge
    rw [hothers a (by omega)]
    exact hcalls.new a ((hmem a).1 ha).1 hge
  · intro a hge hlt hnot
    have hkept := hcalls.kept a hge (by omega) hnot
    exact (hmem a).2 ⟨hkept, fun heq => absurd heq (by omega)⟩
  · intro a hlt hnone
    have hne : a ≠ t := by
      rintro rfl
      rw [hget] at hnone
      cases hnone
    rw [hothers a hne]
    exact hcalls.dead a hlt hnone
  · intro a ha hnot
    by_cases heq : a = t
    · subst heq
      rw [hself]
      by_contra hsome
      refine hnot ((hmem a).2 ⟨List.mem_of_getElem? htop', fun _ => ?_⟩)
      exact Option.isSome_iff_ne_none.2 hsome
    · rw [hothers a heq]
      exact hcalls.freed a ha fun hin => hnot ((hmem a).2 ⟨hin, fun h => absurd h heq⟩)

theorem ran_concat (rounds : List Round) (r : Round) :
    ran (rounds ++ [r]) = ran rounds ++ [r.timer] := by
  simp [ran]

theorem made_concat (rounds : List Round) (r : Round) :
    made (rounds ++ [r]) = made rounds ++ r.calls := by
  simp [made]

theorem added_append (cs ds : List Call) : added (cs ++ ds) = added cs ++ added ds :=
  List.filterMap_append

theorem handled_concat_of_ne {r : Round} (hne : a ≠ r.timer) :
    handled now m₀ (rounds ++ [r]) a = handled now m₀ rounds a := by
  simp [handled, ran_concat, hne]

theorem handled_concat_self {r : Round} (hget : m₀.timers.get r.timer = some timer) :
    handled now m₀ (rounds ++ [r]) r.timer = timer.after now := by
  simp [handled, ran_concat, hget]

/-! ## The next round of a pass -/

abbrev nextRounds (callback : Nat → List Call) (rounds : List Round) (t : Nat) : List Round :=
  rounds ++ [⟨t, callback rounds.length, some t⟩]

/-- The pass has come to the round of timer `t`, which leads from `m` to `m'`. -/
structure NextRound (now : Nat) (callback : Nat → List Call) (m₀ : TimerManager)
    (rounds : List Round) (t : Nat) (timer : Timer) (m m' : TimerManager) : Prop where
  passed : Passed now callback m₀ rounds m
  one : OneRound now (callback rounds.length) t timer m m'
  top : BinaryHeap.top m.timersQue = some t
  due : timer.expiredTime ≤ now
  old : t < m₀.timers.next
  fresh : t ∉ ran rounds
  get : m₀.timers.get t = some timer

namespace NextRound

variable (h : NextRound now callback m₀ rounds t timer m m')

include h

theorem mem : t ∈ m.timersQue := List.mem_of_getElem? h.top

theorem queued : t ∈ m₀.timersQue ∧ .removeTimer t ∉ made rounds ∧
    (handled now m₀ rounds t).isSome = true := (h.passed.old t h.old).1 h.mem

theorem handled_self : handled now m₀ (nextRounds callback rounds t) t = timer.after now :=
  handled_concat_self h.get

theorem key_eq {b : Nat} (hb : b ∈ m.timersQue) (hlt : b < m₀.timers.next)
    (hnot : b ∉ ran rounds) : key m.timers b = key m₀.timers b := by
  refine key_congr ?_
  rw [h.passed.same b hb hlt, handled, if_neg hnot]

theorem due_old (ha : a ∈ ran (nextRounds callback rounds t)) : a ∈ m₀.timersQue ∧
    ∃ timer, m₀.timers.get a = some timer ∧ timer.expiredTime ≤ now := by
  rw [ran_concat, List.mem_append, List.mem_singleton] at ha
  rcases ha with ha | rfl
  · exact h.passed.due a ha
  · exact ⟨h.queued.1, timer, h.get, h.due⟩

theorem once : (ran (nextRounds callback rounds t)).Nodup := by
  rw [ran_concat, List.nodup_append]
  refine ⟨h.passed.once, List.nodup_singleton _, ?_⟩
  intro a ha b hb heq
  have hat : a = t := heq.trans (List.mem_singleton.1 hb)
  exact h.fresh (hat ▸ ha)

theorem mem_iff (ha : a < m₀.timers.next) : a ∈ m'.timersQue ↔ a ∈ m₀.timersQue ∧
    .removeTimer a ∉ made (nextRounds callback rounds t) ∧
      (handled now m₀ (nextRounds callback rounds t) a).isSome = true := by
  have hle := h.passed.next
  rw [h.one.old a (by omega), h.passed.old a ha, made_concat, List.mem_append, not_or]
  by_cases heq : a = t
  · subst heq
    rw [h.handled_self]
    simp only [h.queued.1, h.queued.2.1, h.queued.2.2, true_and, forall_const,
      not_false_eq_true]
  · rw [handled_concat_of_ne heq]
    simp only [heq, false_implies, and_true]
    tauto

theorem get_old (ha : a ∈ m'.timersQue) (hlt : a < m₀.timers.next) :
    m'.timers.get a = handled now m₀ (nextRounds callback rounds t) a := by
  have hle := h.passed.next
  by_cases heq : a = t
  · subst heq
    rw [h.handled_self]
    exact h.one.self
  · have hmem := (h.one.old a (by omega)).1 ha
    rw [handled_concat_of_ne heq, h.one.same a ha (by omega) heq]
    exact h.passed.same a hmem.1 hlt

theorem get_new (ha : a ∈ m'.timersQue) (hge : m₀.timers.next ≤ a) :
    m'.timers.get a =
      (added (made (nextRounds callback rounds t)))[a - m₀.timers.next]? := by
  have hle := h.passed.next
  have hold := h.old
  rw [made_concat, added_append]
  by_cases hlt : a < m.timers.next
  · have hmem := (h.one.old a hlt).1 ha
    rw [h.one.same a ha hlt (by omega), h.passed.new a hmem.1 hge,
      List.getElem?_append_left (by omega)]
  · rw [h.one.new a ha (by omega), List.getElem?_append_right (by omega)]
    congr 1
    omega

theorem kept (hge : m₀.timers.next ≤ a) (hlt : a < m'.timers.next)
    (hnot : .removeTimer a ∉ made (nextRounds callback rounds t)) : a ∈ m'.timersQue := by
  have hle := h.passed.next
  have hold := h.old
  rw [made_concat, List.mem_append, not_or] at hnot
  by_cases hlt' : a < m.timers.next
  · have hkept := h.passed.kept a hge hlt' hnot.1
    exact (h.one.old a hlt').2 ⟨hkept, hnot.2, fun heq => absurd heq (by omega)⟩
  · exact h.one.kept a (by omega) hlt hnot.2

theorem later {b : Nat} (ha : a ∈ ran (nextRounds callback rounds t)) (hb : b ∈ m'.timersQue)
    (hlt : b < m₀.timers.next) (hnot : b ∉ ran (nextRounds callback rounds t)) :
    key m₀.timers a ≤ key m₀.timers b := by
  have hle := h.passed.next
  rw [ran_concat, List.mem_append, not_or] at hnot
  have hb' := ((h.one.old b (by omega)).1 hb).1
  rw [ran_concat, List.mem_append, List.mem_singleton] at ha
  rcases ha with ha | rfl
  · exact h.passed.later a ha b hb' hlt hnot.1
  · rw [← h.key_eq h.mem h.old h.fresh, ← h.key_eq hb' hlt hnot.1]
    exact h.passed.valid.ordered.top_le h.top hb'

theorem sorted : (ran (nextRounds callback rounds t)).Pairwise fun a b =>
    key m₀.timers a ≤ key m₀.timers b := by
  rw [ran_concat, List.pairwise_append]
  refine ⟨h.passed.sorted, List.pairwise_singleton _ _, ?_⟩
  intro a ha b hb
  rw [List.mem_singleton.1 hb]
  exact h.passed.later a ha t h.mem h.old h.fresh

theorem spared : (nextRounds callback rounds t).Pairwise fun r r' =>
    .removeTimer r'.timer ∉ r.calls := by
  rw [List.pairwise_append]
  refine ⟨h.passed.spared, List.pairwise_singleton _ _, ?_⟩
  intro r hr r' hr'
  rw [List.mem_singleton.1 hr']
  intro hremove
  exact h.queued.2.1 (List.mem_flatMap.2 ⟨r, hr, hremove⟩)

end NextRound

theorem Passed.round (h₀ : Valid m₀) (h : Passed now callback m₀ rounds m) (hnow : now < 2 ^ 63)
    (hallowed : ∀ k, ∀ c ∈ callback k, c.Allowed now)
    (htop : BinaryHeap.top m.timersQue = some t) (hget : m.timers.get t = some timer)
    (hdue : timer.expiredTime ≤ now) (hspares : .removeTimer t ∉ callback rounds.length)
    (hone : OneRound now (callback rounds.length) t timer m m') :
    Passed now callback m₀ (nextRounds callback rounds t) m' := by
  obtain ⟨hold, hfresh, hget₀⟩ :=
    h.due_old h₀ hnow hallowed (List.mem_of_getElem? htop) hget hdue
  have hnext : NextRound now callback m₀ rounds t timer m m' :=
    ⟨h, hone, htop, hdue, hold, hfresh, hget₀⟩
  constructor
  case valid => exact hone.valid
  case calls => simp [h.calls, List.range_succ]
  case popped =>
    intro r hr
    rcases List.mem_append.1 hr with hr | hr
    · exact h.popped r hr
    · rw [List.mem_singleton.1 hr]
  case due => exact fun a ha => hnext.due_old ha
  case once => exact hnext.once
  case next =>
    rw [hone.next, made_concat, added_append, List.length_append, h.next, Nat.add_assoc]
  case old => exact fun a ha => hnext.mem_iff ha
  case same => exact fun a ha hlt => hnext.get_old ha hlt
  case new => exact fun a ha hge => hnext.get_new ha hge
  case kept => exact fun a hge hlt hnot => hnext.kept hge hlt hnot
  case gone =>
    intro a ha hnot
    by_cases hmem : a ∈ m.timersQue
    · exact hone.freed a hmem hnot
    · have hlt := h₀.lt_next ha
      have hle := h.next
      exact hone.dead a (by omega) (h.gone a ha hmem)
  case sorted => exact hnext.sorted
  case later => exact fun a ha b hb hlt hnot => hnext.later ha hb hlt hnot
  case spared => exact hnext.spared
  case own =>
    intro r hr
    rcases List.mem_append.1 hr with hr | hr
    · exact h.own r hr
    · rw [List.mem_singleton.1 hr]
      exact hspares

/-! ## The whole pass -/

theorem Passed.length_le (h : Passed now callback m₀ rounds m) :
    rounds.length ≤ m₀.timersQue.length := by
  have hsub : ran rounds ⊆ m₀.timersQue := fun a ha => (h.due a ha).1
  have hle := (h.once.subperm hsub).length_le
  simpa [ran] using hle

theorem Valid.later (h : Valid m) (htop : BinaryHeap.top m.timersQue = some t)
    (hget : m.timers.get t = some timer) (hnot : ¬ timer.expiredTime ≤ now) :
    ∀ a ∈ m.timersQue, ∀ timer', m.timers.get a = some timer' → now < timer'.expiredTime := by
  intro a ha timer' hget'
  have hle := h.top_le htop hget a ha timer' hget'
  omega

/-- The loop from any of its rounds on: induction on the fuel, which `length_le` bounds. -/
theorem Passed.returns (h₀ : Valid m₀) (hnow : now < 2 ^ 63)
    (hallowed : ∀ k, ∀ c ∈ callback k, c.Allowed now) (h : Passed now callback m₀ rounds m)
    (hfuel : m₀.timersQue.length < fuel + rounds.length)
    (hspares : SparesSelf now callback fuel m rounds.length) :
    ∃ m' rounds', checkLoop now callback fuel m rounds = .returned m' rounds' ∧
      Passed now callback m₀ rounds' m' ∧
      ∀ a ∈ m'.timersQue, ∀ timer, m'.timers.get a = some timer → now < timer.expiredTime := by
  induction fuel generalizing m rounds with
  | zero =>
      have hle := h.length_le
      omega
  | succ fuel ih =>
      simp only [checkLoop]
      cases htop : BinaryHeap.top m.timersQue with
      | none =>
          have hempty : m.timersQue = [] := by
            simpa [BinaryHeap.top] using htop
          exact ⟨m, rounds, rfl, h, by simp [hempty]⟩
      | some t =>
          have ht : t ∈ m.timersQue := List.mem_of_getElem? htop
          obtain ⟨timer, hget, _⟩ := h.valid.alive t ht
          simp only [hget]
          by_cases hdue : timer.expiredTime ≤ now
          · rw [if_pos hdue]
            obtain ⟨hself, hrest⟩ := hspares t timer htop hget hdue
            obtain ⟨htop', m', hrun, hone⟩ :=
              oneRound h.valid htop hget hdue (hallowed rounds.length) hself
            simp only [hrun, htop']
            apply ih (h.round h₀ hnow hallowed htop hget hdue hself hone)
            · rw [List.length_append, List.length_singleton]
              omega
            · rw [List.length_append, List.length_singleton]
              exact hrest m' hrun
          · rw [if_neg hdue]
            exact ⟨m, rounds, rfl, h, h.valid.later htop hget hdue⟩

/-- A callback that removes its own timer leaves the code with a deleted one. -/
theorem checkLoop_dangling (h : Valid m) (hallowed : ∀ k, ∀ c ∈ callback k, c.Allowed now)
    (hspares : ¬ SparesSelf now callback fuel m rounds.length) :
    checkLoop now callback fuel m rounds = .dangling := by
  induction fuel generalizing m rounds with
  | zero => exact absurd trivial hspares
  | succ fuel ih =>
      simp only [SparesSelf, Classical.not_forall] at hspares
      obtain ⟨t, timer, htop, hget, hdue, hspares⟩ := hspares
      simp only [checkLoop, htop, hget, if_pos hdue]
      by_cases hself : .removeTimer t ∈ callback rounds.length
      · obtain ⟨_, hcalls⟩ := extends_calls h (callback rounds.length)
        have ht : t ∈ m.timersQue := List.mem_of_getElem? htop
        have hgone : t ∉ (m.calls (callback rounds.length)).timersQue :=
          fun hmem => ((hcalls.old t (h.lt_next ht)).1 hmem).2 hself
        have hrun : (m.calls (callback rounds.length)).afterRun now t = none := by
          rw [afterRun, hcalls.freed t ht hgone]
        rw [hrun]
      · obtain ⟨_, m', hrun, hone⟩ := oneRound h htop hget hdue (hallowed rounds.length) hself
        simp only [hrun]
        apply ih hone.valid
        intro hrest
        apply hspares
        refine ⟨hself, fun m'' hrun' => ?_⟩
        rw [hrun, Option.some.injEq] at hrun'
        rw [← hrun']
        simpa using hrest

end MyNetLib.TimerManager
