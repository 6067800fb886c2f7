import MyNetLib.Library.HeapOrder
import MyNetLib.Timer.TimerManager

/-! # The queue of a timer manager

In a valid queue the timers are alive, each is there once, and the heap goes by
deadline and repeats. `AddTimer`, `RemoveTimer` and the end of a run keep it so and
say what they do to each timer; the timer that is running keeps the root.
-/

namespace MyNetLib

open Library

/-- What becomes of a timer whose callback was run in a pass that began at `now`. -/
def Timer.after (t : Timer) (now : Nat) : Option Timer :=
  if t.repeatedTimes = 0 then none
  else some (t.setExpiredTime (Timer.deadline now t.interval)).decRepeatTimes

namespace TimerManager

/-- Deadline, then repeats. -/
def key (timers : Heap Timer) (a : Nat) : Nat ×ₗ Int :=
  match timers.get a with
  | some t => toLex (t.expiredTime, t.repeatedTimes.toInt)
  | none => toLex (0, 0)

structure Valid (m : TimerManager) : Prop where
  alive : ∀ t ∈ m.timersQue, ∃ timer, m.timers.get t = some timer ∧ 0 < timer.interval.toInt
  nodup : m.timersQue.Nodup
  ordered : BinaryHeap.Ordered (key m.timers) m.timersQue

variable {m m' : TimerManager} {timers timers' : Heap Timer} {t a b : Nat} {timer : Timer}
  {queue newqueue : List Nat}

theorem key_congr (h : timers'.get a = timers.get a) : key timers' a = key timers a := by
  simp only [key, h]

theorem cmp_eq {t₁ t₂ : Timer} (ha : timers.get a = some t₁) (hb : timers.get b = some t₂) :
    cmp timers a b = decide (key timers b < key timers a) := by
  rw [Bool.eq_iff_iff]
  simp only [cmp, key, ha, hb, decide_eq_true_eq, Prod.Lex.toLex_lt_toLex]
  by_cases hsame : t₁.expiredTime = t₂.expiredTime
  · simp [hsame, Int32.lt_iff_toInt_lt]
  · simp [hsame, Ne.symm hsame]

theorem compares (h : ∀ t ∈ queue, (timers.get t).isSome = true) :
    BinaryHeap.Compares (cmp timers) (key timers) queue := by
  intro a ha b hb
  obtain ⟨t₁, h₁⟩ := Option.isSome_iff_exists.1 (h a ha)
  obtain ⟨t₂, h₂⟩ := Option.isSome_iff_exists.1 (h b hb)
  exact cmp_eq h₁ h₂

theorem Valid.isSome (h : Valid m) (ht : t ∈ m.timersQue) : (m.timers.get t).isSome = true := by
  obtain ⟨timer, hget, _⟩ := h.alive t ht
  rw [hget]
  rfl

theorem Valid.lt_next (h : Valid m) (ht : t ∈ m.timersQue) : t < m.timers.next := by
  obtain ⟨timer, hget, _⟩ := h.alive t ht
  exact Heap.lt_next_of_get hget

theorem Valid.top_le (h : Valid m) (htop : BinaryHeap.top m.timersQue = some t)
    (hget : m.timers.get t = some timer) :
    ∀ a ∈ m.timersQue, ∀ timer', m.timers.get a = some timer' →
      timer.expiredTime ≤ timer'.expiredTime := by
  intro a ha timer' hget'
  have hle := h.ordered.top_le htop ha
  simp only [key, hget, hget', Prod.Lex.toLex_le_toLex] at hle
  omega

theorem Valid.exists_top (h : Valid m) (hne : m.timersQue ≠ []) :
    ∃ t timer, BinaryHeap.top m.timersQue = some t ∧ t ∈ m.timersQue ∧
      m.timers.get t = some timer := by
  obtain ⟨t, rest, hque⟩ := List.exists_cons_of_ne_nil hne
  have ht : t ∈ m.timersQue := by
    rw [hque]
    exact List.mem_cons_self
  obtain ⟨timer, hget, _⟩ := h.alive t ht
  exact ⟨t, timer, by rw [hque]; rfl, ht, hget⟩

theorem valid_new : Valid .new :=
  ⟨fun t ht => by simp [new] at ht, List.nodup_nil, fun j _ x hx => by simp [new] at hx⟩

/-! ## `AddTimer` -/

theorem Valid.addTimer (h : Valid m) (now : Nat) (repeatedTimes : Int32) {interval : Int64}
    (hinterval : ¬ interval ≤ 0) :
    (m.addTimer now repeatedTimes interval).2.timers =
        m.timers.alloc ⟨Timer.deadline now interval, repeatedTimes, interval⟩ ∧
      (m.addTimer now repeatedTimes interval).2.timersQue.Perm
        (m.timers.next :: m.timersQue) ∧
      Valid (m.addTimer now repeatedTimes interval).2 := by
  have hpos : 0 < interval.toInt := by
    rw [Int64.le_iff_toInt_le, Int64.toInt_zero] at hinterval
    omega
  simp only [TimerManager.addTimer, if_neg hinterval, true_and]
  have hperm := BinaryHeap.push_perm (cmp (m.timers.alloc ⟨Timer.deadline now interval,
    repeatedTimes, interval⟩)) m.timersQue m.timers.next
  have hold : ∀ t ∈ m.timersQue, ∀ timer, (m.timers.alloc timer).get t = m.timers.get t :=
    fun t ht timer => Heap.get_alloc_of_ne (h.lt_next ht).ne timer
  have halive : ∀ t ∈ m.timers.next :: m.timersQue, ∃ timer,
      (m.timers.alloc ⟨Timer.deadline now interval, repeatedTimes, interval⟩).get t = some timer ∧
        0 < timer.interval.toInt := by
    intro t ht
    rcases List.mem_cons.1 ht with rfl | ht
    · exact ⟨_, Heap.get_alloc_next _ _, hpos⟩
    · rw [hold t ht]
      exact h.alive t ht
  refine ⟨hperm, ⟨?_, ?_, ?_⟩⟩
  · exact fun t ht => halive t (hperm.mem_iff.1 ht)
  · rw [hperm.nodup_iff, List.nodup_cons]
    exact ⟨fun hmem => absurd (h.lt_next hmem) (lt_irrefl _), h.nodup⟩
  · apply BinaryHeap.push_ordered
    · apply compares
      intro t ht
      obtain ⟨timer, hget, _⟩ := halive t (by simpa [or_comm] using ht)
      rw [hget]
      rfl
    · exact h.ordered.congr fun t ht => key_congr (hold t ht _)

theorem addTimer_top {now : Nat} {repeatedTimes : Int32} {interval : Int64} {r : Nat}
    (htop : BinaryHeap.top m.timersQue = some r) (hget : m.timers.get r = some timer)
    (hlater : timer.expiredTime < Timer.deadline now interval) :
    BinaryHeap.top (m.addTimer now repeatedTimes interval).2.timersQue = some r := by
  unfold TimerManager.addTimer
  split
  · exact htop
  · exact BinaryHeap.push_top _ htop (cmp_alloc_of_later hget hlater)

/-! ## `RemoveTimer` -/

/-- The loop of `RemoveTimer`, in the middle of it: what is left of the old queue and what
is in the new one. -/
structure Draining (timers : Heap Timer) (queue newqueue : List Nat) : Prop where
  alive : ∀ t ∈ queue ++ newqueue, (timers.get t).isSome = true
  nodup : (queue ++ newqueue).Nodup
  ordered : BinaryHeap.Ordered (key timers) newqueue

theorem Draining.perm {queue' newqueue' : List Nat} (h : Draining timers queue newqueue)
    (hperm : (queue' ++ newqueue').Perm (queue ++ newqueue))
    (hordered : BinaryHeap.Ordered (key timers) newqueue') : Draining timers queue' newqueue' :=
  ⟨fun t ht => h.alive t (hperm.mem_iff.1 ht), hperm.nodup_iff.2 h.nodup, hordered⟩

theorem Draining.delete {rest : List Nat} (h : Draining timers (t :: rest) newqueue) :
    Draining (timers.free t) rest newqueue ∧ t ∉ rest ∧ t ∉ newqueue := by
  have hnodup := h.nodup
  rw [List.cons_append, List.nodup_cons, List.mem_append, not_or] at hnodup
  have hget : ∀ a ∈ rest ++ newqueue, (timers.free t).get a = timers.get a := by
    intro a ha
    refine Heap.get_free_of_ne ?_
    rintro rfl
    exact absurd (List.mem_append.1 ha) (not_or.2 hnodup.1)
  refine ⟨⟨fun a ha => ?_, hnodup.2, ?_⟩, hnodup.1.1, hnodup.1.2⟩
  · rw [hget a ha]
    exact h.alive a (List.mem_cons_of_mem t ha)
  · exact h.ordered.congr fun a ha => key_congr (hget a (List.mem_append_right _ ha))

theorem Draining.move {rest : List Nat} (h : Draining timers (a :: rest) newqueue) :
    Draining timers rest (BinaryHeap.push (cmp timers) newqueue a) := by
  have hperm := BinaryHeap.push_perm (cmp timers) newqueue a
  refine h.perm ?_ ?_
  · exact (hperm.append_left rest).trans List.perm_middle
  · apply BinaryHeap.push_ordered _ h.ordered
    apply compares
    intro b hb
    refine h.alive b ?_
    rw [List.cons_append, List.mem_cons, List.mem_append]
    rcases List.mem_append.1 hb with hb | hb
    · exact Or.inr (Or.inr hb)
    · exact Or.inl (List.mem_singleton.1 hb)

structure Drained (timers : Heap Timer) (t : Nat) (queue newqueue : List Nat)
    (m : TimerManager) : Prop where
  heap : m.timers = if t ∈ queue then timers.free t else timers
  perm : m.timersQue.Perm (queue.filter (· ≠ t) ++ newqueue)
  ordered : BinaryHeap.Ordered (key m.timers) m.timersQue
  root : ∀ r, BinaryHeap.top newqueue = some r → (∀ a ∈ queue, key timers r ≤ key timers a) →
    r ∉ queue → r ≠ t → BinaryHeap.top m.timersQue = some r

theorem Drained.of_delete {rest : List Nat} (hdraining : Draining timers (t :: rest) newqueue)
    (h : Drained (timers.free t) t (BinaryHeap.pop (cmp timers) (t :: rest)) newqueue m) :
    Drained timers t (t :: rest) newqueue m := by
  obtain ⟨_, hrest, _⟩ := hdraining.delete
  have hpop := BinaryHeap.pop_perm (cmp timers) t rest
  have hgone : t ∉ BinaryHeap.pop (cmp timers) (t :: rest) :=
    fun hmem => hrest (hpop.mem_iff.1 hmem)
  refine ⟨?_, ?_, h.ordered, ?_⟩
  · rw [h.heap, if_neg hgone, if_pos List.mem_cons_self]
  · have hfilter := (hpop.filter (· ≠ t)).append_right newqueue
    simpa using h.perm.trans hfilter
  · intro r hr hle hnot hne
    have hkey : ∀ b, b ≠ t → key (timers.free t) b = key timers b :=
      fun b hb => key_congr (Heap.get_free_of_ne hb)
    refine h.root r hr (fun b hb => ?_) ?_ hne
    · have hb' := hpop.mem_iff.1 hb
      have hbt : b ≠ t := by
        rintro rfl
        exact hrest hb'
      rw [hkey r hne, hkey b hbt]
      exact hle b (List.mem_cons_of_mem t hb')
    · exact fun hmem => hnot (List.mem_cons_of_mem t (hpop.mem_iff.1 hmem))

/-- A round that moves another timer: it does not displace an earlier root of the new queue. -/
theorem Drained.of_move {rest : List Nat} (hdraining : Draining timers (a :: rest) newqueue)
    (hat : a ≠ t) (h : Drained timers t (BinaryHeap.pop (cmp timers) (a :: rest))
      (BinaryHeap.push (cmp timers) newqueue a) m) :
    Drained timers t (a :: rest) newqueue m := by
  have hpop := BinaryHeap.pop_perm (cmp timers) a rest
  have hpush := BinaryHeap.push_perm (cmp timers) newqueue a
  have hmem : t ∈ BinaryHeap.pop (cmp timers) (a :: rest) ↔ t ∈ a :: rest := by
    rw [hpop.mem_iff, List.mem_cons, or_iff_right (Ne.symm hat)]
  refine ⟨?_, ?_, h.ordered, ?_⟩
  · rw [h.heap]
    simp only [hmem]
  · have hfilter : (a :: rest).filter (· ≠ t) = a :: rest.filter (· ≠ t) :=
      List.filter_cons_of_pos (by simpa using hat)
    rw [hfilter, List.cons_append]
    calc
      m.timersQue.Perm _ := h.perm
      List.Perm _ (rest.filter (· ≠ t) ++ a :: newqueue) := (hpop.filter _).append hpush
      List.Perm _ (a :: (rest.filter (· ≠ t) ++ newqueue)) := List.perm_middle
  · intro r hr hle hnot hne
    have hroot : r ∈ newqueue := List.mem_of_getElem? hr
    have hcompares : BinaryHeap.Compares (cmp timers) (key timers) (a :: rest ++ newqueue) :=
      compares hdraining.alive
    refine h.root r (BinaryHeap.push_top _ hr ?_) (fun b hb => ?_) ?_ hne
    · rw [hcompares r (List.mem_append_right _ hroot) a List.mem_cons_self,
        decide_eq_false_iff_not, not_lt]
      exact hle a List.mem_cons_self
    · exact hle b (List.mem_cons_of_mem a (hpop.mem_iff.1 hb))
    · exact fun hmem => hnot (List.mem_cons_of_mem a (hpop.mem_iff.1 hmem))

theorem removeLoop_drained {fuel : Nat} (h : Draining timers queue newqueue)
    (hfuel : queue.length ≤ fuel) :
    Drained timers t queue newqueue (removeLoop t fuel timers queue newqueue) := by
  induction fuel generalizing timers queue newqueue with
  | zero =>
      have hnil : queue = [] := List.eq_nil_of_length_eq_zero (by omega)
      subst hnil
      exact ⟨by simp [removeLoop], by simp [removeLoop], h.ordered, fun r hr _ _ _ => hr⟩
  | succ fuel ih =>
      cases queue with
      | nil => exact ⟨by simp [removeLoop, BinaryHeap.top], by simp [removeLoop, BinaryHeap.top],
          h.ordered, fun r hr _ _ _ => hr⟩
      | cons a rest =>
          have hpop := BinaryHeap.pop_perm (cmp timers) a rest
          have hfuel' : (BinaryHeap.pop (cmp timers) (a :: rest)).length ≤ fuel := by
            rw [hpop.length_eq]
            simpa using hfuel
          by_cases hat : a = t
          · subst hat
            obtain ⟨hdelete, _, _⟩ := h.delete
            have hround : removeLoop a (fuel + 1) timers (a :: rest) newqueue =
                removeLoop a fuel (timers.free a) (BinaryHeap.pop (cmp timers) (a :: rest))
                  newqueue := by
              simp [removeLoop, BinaryHeap.top]
            rw [hround]
            apply Drained.of_delete h
            exact ih (hdelete.perm (hpop.append_right newqueue) hdelete.ordered) hfuel'
          · have hmove := h.move
            have hround : removeLoop t (fuel + 1) timers (a :: rest) newqueue =
                removeLoop t fuel timers (BinaryHeap.pop (cmp timers) (a :: rest))
                  (BinaryHeap.push (cmp timers) newqueue a) := by
              simp [removeLoop, BinaryHeap.top, hat]
            rw [hround]
            apply Drained.of_move h hat
            exact ih (hmove.perm (hpop.append_right _) hmove.ordered) hfuel'

/-- `RemoveTimer` deletes the timer if it is queued and keeps all others; the root stays
unless it is the one removed. -/
theorem Valid.removeTimer (h : Valid m) (t : Nat) :
    Valid (m.removeTimer t) ∧
      (m.removeTimer t).timers = (if t ∈ m.timersQue then m.timers.free t else m.timers) ∧
      (∀ a, a ∈ (m.removeTimer t).timersQue ↔ a ∈ m.timersQue ∧ a ≠ t) ∧
      ∀ r, BinaryHeap.top m.timersQue = some r → r ≠ t →
        BinaryHeap.top (m.removeTimer t).timersQue = some r := by
  have hstart : Draining m.timers m.timersQue [] :=
    ⟨fun t ht => h.isSome (by simpa using ht), by simpa using h.nodup,
      fun j _ x hx => by simp at hx⟩
  have hdrained : Drained m.timers t m.timersQue [] (m.removeTimer t) :=
    removeLoop_drained hstart le_rfl
  have hperm := hdrained.perm
  rw [List.append_nil] at hperm
  have hmem : ∀ a, a ∈ (m.removeTimer t).timersQue ↔ a ∈ m.timersQue ∧ a ≠ t := by
    intro a
    rw [hperm.mem_iff, List.mem_filter, decide_eq_true_eq]
  refine ⟨⟨?_, ?_, hdrained.ordered⟩, hdrained.heap, hmem, ?_⟩
  · intro a ha
    obtain ⟨ha, hne⟩ := (hmem a).1 ha
    rw [hdrained.heap]
    split
    · rw [Heap.get_free_of_ne hne]
      exact h.alive a ha
    · exact h.alive a ha
  · rw [hperm.nodup_iff]
    exact h.nodup.filter _
  · -- the root is the first one moved, and none moved later comes before it
    intro r hr hne
    cases hque : m.timersQue with
    | nil =>
        rw [hque] at hr
        cases hr
    | cons root rest =>
        have hroot : root = r := by simpa [hque, BinaryHeap.top] using hr
        subst hroot
        rw [hque] at hstart
        have hpop := BinaryHeap.pop_perm (cmp m.timers) root rest
        have hdraining := hstart.move.perm (hpop.append_right _) hstart.move.ordered
        have hlength : (BinaryHeap.pop (cmp m.timers) (root :: rest)).length ≤ rest.length :=
          hpop.length_eq.le
        have hround : m.removeTimer t = removeLoop t rest.length m.timers
            (BinaryHeap.pop (cmp m.timers) (root :: rest)) [root] := by
          simp [TimerManager.removeTimer, hque, removeLoop, BinaryHeap.top, hne, BinaryHeap.push,
            BinaryHeap.siftUp]
        have hnodup := h.nodup
        rw [hque, List.nodup_cons] at hnodup
        rw [hround]
        refine (removeLoop_drained hdraining hlength).root root rfl (fun b hb => ?_) ?_ hne
        · refine h.ordered.top_le hr ?_
          rw [hque]
          exact List.mem_cons_of_mem root (hpop.mem_iff.1 hb)
        · exact fun hmem => hnodup.1 (hpop.mem_iff.1 hmem)

/-! ## The end of a run -/

/-- What the end of the run of `t` does to the queue. -/
structure RunEnded (now t : Nat) (timer : Timer) (m m' : TimerManager) : Prop where
  valid : Valid m'
  next : m'.timers.next = m.timers.next
  others : ∀ a, a ≠ t → m'.timers.get a = m.timers.get a
  self : m'.timers.get t = timer.after now
  mem : ∀ a, a ∈ m'.timersQue ↔
    a ∈ m.timersQue ∧ (a = t → (timer.after now).isSome = true)

theorem Valid.root_of_top (h : Valid m) (htop : BinaryHeap.top m.timersQue = some t) :
    ∃ rest, m.timersQue = t :: rest ∧ t ∉ rest ∧ rest.Nodup := by
  have hnodup := h.nodup
  cases hque : m.timersQue with
  | nil =>
      rw [hque] at htop
      cases htop
  | cons root rest =>
      obtain rfl : root = t := by simpa [hque, BinaryHeap.top] using htop
      rw [hque, List.nodup_cons] at hnodup
      exact ⟨rest, rfl, hnodup⟩

theorem Valid.run_out (h : Valid m) (now : Nat) (htop : BinaryHeap.top m.timersQue = some t)
    (hzero : timer.repeatedTimes = 0) :
    RunEnded now t timer m ⟨m.timers.free t, BinaryHeap.pop (cmp m.timers) m.timersQue⟩ := by
  obtain ⟨rest, hque, hnot, hnodup⟩ := h.root_of_top htop
  have hpop := BinaryHeap.pop_perm (cmp m.timers) t rest
  rw [← hque] at hpop
  have hafter : timer.after now = none := if_pos hzero
  have hothers : ∀ a ∈ rest, (m.timers.free t).get a = m.timers.get a := by
    intro a ha
    refine Heap.get_free_of_ne ?_
    rintro rfl
    exact hnot ha
  refine ⟨⟨fun a ha => ?_, hpop.nodup_iff.2 hnodup, ?_⟩, Heap.next_free _ _,
    fun a ha => Heap.get_free_of_ne ha, ?_, fun a => ?_⟩
  · have ha' := hpop.mem_iff.1 ha
    dsimp only
    rw [hothers a ha']
    exact h.alive a (by rw [hque]; exact List.mem_cons_of_mem t ha')
  · have hordered := BinaryHeap.pop_ordered (compares fun a ha => h.isSome ha)
      h.ordered.downOrder
    exact hordered.congr fun a ha => key_congr (hothers a (hpop.mem_iff.1 ha))
  · rw [hafter]
    exact Heap.get_free_self _ _
  · dsimp only
    rw [hpop.mem_iff, hque, List.mem_cons, hafter]
    constructor
    · intro ha
      refine ⟨Or.inr ha, ?_⟩
      rintro rfl
      exact absurd ha hnot
    · rintro ⟨ha | ha, hne⟩
      · exact absurd (hne ha) (by simp)
      · exact ha

theorem Valid.run_again (h : Valid m) (now : Nat) (htop : BinaryHeap.top m.timersQue = some t)
    (hget : m.timers.get t = some timer) {timer' : Timer}
    (htimer : timer' = (timer.setExpiredTime (Timer.deadline now timer.interval)).decRepeatTimes)
    (hafter : timer.after now = some timer') :
    RunEnded now t timer m ⟨m.timers.put t timer', BinaryHeap.push (cmp (m.timers.put t timer'))
      (BinaryHeap.pop (cmp (m.timers.put t timer')) m.timersQue) t⟩ := by
  obtain ⟨rest, hque, hnot, hnodup⟩ := h.root_of_top htop
  have hself : (m.timers.put t timer').get t = some timer' := Heap.get_put_self hget timer'
  have hothers : ∀ a ∈ rest, (m.timers.put t timer').get a = m.timers.get a := by
    intro a ha
    refine Heap.get_put_of_ne ?_ timer'
    rintro rfl
    exact hnot ha
  have halive : ∀ a ∈ t :: rest, ∃ timer, (m.timers.put t timer').get a = some timer ∧
      0 < timer.interval.toInt := by
    intro a ha
    have hold := h.alive a (hque ▸ ha)
    rcases List.mem_cons.1 ha with rfl | ha
    · rw [hget] at hold
      obtain ⟨_, hsame, hpos⟩ := hold
      cases hsame
      exact ⟨timer', hself, by rw [htimer]; exact hpos⟩
    · rw [hothers a ha]
      exact hold
  have hsome : ∀ a ∈ t :: rest, ((m.timers.put t timer').get a).isSome = true := by
    intro a ha
    obtain ⟨timer, hget, _⟩ := halive a ha
    rw [hget]
    rfl
  have hpop := BinaryHeap.pop_perm (cmp (m.timers.put t timer')) t rest
  have hpush := (BinaryHeap.push_perm (cmp (m.timers.put t timer'))
    (BinaryHeap.pop (cmp (m.timers.put t timer')) (t :: rest)) t).trans (hpop.cons t)
  have hdown : BinaryHeap.DownOrder (key (m.timers.put t timer')) (t :: rest) 0 := by
    have hordered := h.ordered.downOrder
    rw [hque] at hordered
    refine hordered.congr fun j hj a ha => key_congr (hothers a ?_)
    rw [← Nat.succ_pred_eq_of_pos hj, List.getElem?_cons_succ] at ha
    exact List.mem_of_getElem? ha
  rw [hque]
  refine ⟨⟨fun a ha => ?_, ?_, ?_⟩, Heap.next_put _ _ _,
    fun a ha => Heap.get_put_of_ne ha _, hself.trans hafter.symm, fun a => ?_⟩
  · exact halive a (hpush.mem_iff.1 ha)
  · exact hpush.nodup_iff.2 (List.nodup_cons.2 ⟨hnot, hnodup⟩)
  · apply BinaryHeap.push_ordered
    · apply compares
      intro a ha
      refine hsome a (hpush.mem_iff.1 ?_)
      exact (BinaryHeap.push_perm _ _ t).mem_iff.2 (by simpa [or_comm] using ha)
    · exact BinaryHeap.pop_ordered (compares hsome) hdown
  · dsimp only
    rw [hpush.mem_iff, hque, hafter]
    simp

/-- The timer that ran is the root: it is deleted, or gets its next deadline and place. -/
theorem Valid.afterRun (h : Valid m) (now : Nat) (htop : BinaryHeap.top m.timersQue = some t)
    (hget : m.timers.get t = some timer) :
    ∃ m', m.afterRun now t = some m' ∧ RunEnded now t timer m m' := by
  unfold TimerManager.afterRun
  rw [hget]
  dsimp only
  split
  · rename_i hzero
    exact ⟨_, rfl, h.run_out now htop hzero⟩
  · rename_i hmore
    exact ⟨_, rfl, h.run_again now htop hget rfl (if_neg hmore)⟩

end TimerManager

end MyNetLib
