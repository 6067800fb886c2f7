import MyNetLib.Timer.Rounds
import MyNetLib.Timer.Timeout

/-! # The passes of a run

In a run of the manager's thread, what happens from the beginning of a pass to its end
is the loop `checkLoop`, with the calls that the run made in its callbacks. So what
holds of the loop holds of every pass that ends.
-/

namespace MyNetLib.TimerManager

open Library

variable {m m' m₀ : TimerManager} {cs : List Call} {now t : Nat} {timer : Timer}
  {rounds : List Round}

/-- A callback function that makes the calls of these rounds takes the loop there. -/
def Leads (now : Nat) (m₀ : TimerManager) (rounds : List Round) (m : TimerManager) : Prop :=
  ∀ callback : Nat → List Call,
    rounds.map Round.calls = (List.range rounds.length).map callback →
      ∀ fuel, checkLoop now callback (fuel + rounds.length) m₀ [] =
        checkLoop now callback fuel m rounds

theorem Leads.refl (now : Nat) (m : TimerManager) : Leads now m [] m := fun _ _ _ => rfl

theorem Leads.round (h : Leads now m₀ rounds m) (htop : BinaryHeap.top m.timersQue = some t)
    (hget : m.timers.get t = some timer) (hdue : timer.expiredTime ≤ now)
    (hrun : (m.calls cs).afterRun now t = some m') :
    Leads now m₀ (rounds ++ [⟨t, cs, BinaryHeap.top (m.calls cs).timersQue⟩]) m' := by
  intro callback hcalls fuel
  rw [List.length_append, List.length_singleton, List.range_succ, List.map_append,
    List.map_append] at hcalls
  obtain ⟨hbefore, hlast⟩ := List.append_inj hcalls (by simp)
  have hcs : callback rounds.length = cs := by simpa using hlast.symm
  have hfuel : fuel + (rounds.length + 1) = fuel + 1 + rounds.length := by omega
  rw [List.length_append, List.length_singleton, hfuel, h callback hbefore]
  simp only [checkLoop, htop, hget, if_pos hdue, hcs, hrun]

namespace System

variable {s s' s₀ : System} {a : Action}

/-- The steps of a pass: its last one leaves the thread outside. -/
def InPass (s : System) (_ : Action) : Prop := s.pc ≠ .idle

/-- Where a run is in the pass that began at `now` with the manager `m₀`. -/
inductive Position (now : Nat) (m₀ : TimerManager) (s : System) : Prop
  | head (rounds : List Round) : s.pc = .checking now → Leads now m₀ rounds s.manager →
      (∀ r ∈ rounds, ∀ c ∈ r.calls, c.Allowed now) → Position now m₀ s
  | callback (rounds : List Round) (m : TimerManager) (t : Nat) (timer : Timer)
      (cs : List Call) : s.pc = .running now t → Leads now m₀ rounds m →
      (∀ r ∈ rounds, ∀ c ∈ r.calls, c.Allowed now) → BinaryHeap.top m.timersQue = some t →
      m.timers.get t = some timer → timer.expiredTime ≤ now → s.manager = m.calls cs →
      (∀ c ∈ cs, c.Allowed now) → Position now m₀ s
  | ended (rounds : List Round) : s.pc = .idle → Leads now m₀ rounds s.manager →
      (∀ r ∈ rounds, ∀ c ∈ r.calls, c.Allowed now) →
      (∀ callback fuel, checkLoop now callback (fuel + 1) s.manager rounds =
        .returned s.manager rounds) → Position now m₀ s

theorem calls_concat (m : TimerManager) (cs : List Call) (c : Call) :
    m.calls (cs ++ [c]) = (m.calls cs).call c := by
  simp [calls]

theorem Position.call {c : Call} (h : Position now m₀ s) (hcan : s.canCall = true)
    (hpc : s.pc ≠ .idle) (hc : c.Allowed now) (hmanager : s'.manager = s.manager.call c)
    (hpc' : s'.pc = s.pc) : Position now m₀ s' := by
  cases h with
  | head rounds hhead _ _ => simp [canCall, hhead] at hcan
  | ended rounds hended _ _ _ => exact absurd hended hpc
  | callback rounds m t timer cs hrun hleads hallowed htop hget hdue hcalls hcs =>
      refine .callback rounds m t timer (cs ++ [c]) (hpc'.trans hrun) hleads hallowed htop hget hdue
        ?_ ?_
      · rw [hmanager, hcalls, calls_concat]
      · intro d hd
        rcases List.mem_append.1 hd with hd | hd
        · exact hcs d hd
        · rw [List.mem_singleton.1 hd]
          exact hc

theorem Position.step (h : Position now m₀ s) (hclock : now ≤ s.clock) (hin : s.pc ≠ .idle)
    (hs : s.step a = some s') : Position now m₀ s' ∧ now ≤ s'.clock := by
  cases step_transition hs with
  | ignored clock k interval _ => exact ⟨h, hclock⟩
  | adds clock k interval hcan _ hle hlt =>
      have hlater := hclock.trans hle
      exact ⟨h.call (c := .addTimer clock k interval) hcan hin ⟨hlater, hlt⟩ rfl rfl, hlater⟩
  | removes t hcan => exact ⟨h.call (c := .removeTimer t) hcan hin trivial rfl rfl, hclock⟩
  | begins clock hidle _ _ => exact absurd hidle hin
  | ends clock hpc hnot =>
      cases h with
      | callback rounds m t timer cs hrun _ _ _ _ _ _ _ => simp [hpc] at hrun
      | ended rounds hended _ _ _ => simp [hpc] at hended
      | head rounds hhead hleads hallowed =>
          obtain rfl : clock = now := by simpa [hpc] using hhead
          refine ⟨.ended rounds rfl hleads hallowed fun callback fuel => ?_, hclock⟩
          cases htop : BinaryHeap.top s.manager.timersQue with
          | none => simp [checkLoop, htop]
          | some t =>
              obtain ⟨timer, hget, hlate⟩ := hnot t htop
              simp [checkLoop, htop, hget, hlate]
  | runs clock t timer hpc htop hget hdue =>
      cases h with
      | callback rounds m t timer cs hrun _ _ _ _ _ _ _ => simp [hpc] at hrun
      | ended rounds hended _ _ _ => simp [hpc] at hended
      | head rounds hhead hleads hallowed =>
          obtain rfl : clock = now := by simpa [hpc] using hhead
          exact ⟨.callback rounds s.manager t timer [] rfl hleads hallowed htop hget hdue rfl
            (by simp), hclock⟩
  | returns clock t m' hpc hm' =>
      cases h with
      | head rounds hhead _ _ => simp [hpc] at hhead
      | ended rounds hended _ _ _ => simp [hpc] at hended
      | callback rounds m t₀ timer cs hrun hleads hallowed htop hget hdue hcalls hcs =>
          obtain ⟨rfl, rfl⟩ : clock = now ∧ t = t₀ := by simpa [hpc] using hrun
          rw [hcalls] at hm'
          refine ⟨.head _ rfl (hleads.round htop hget hdue hm') fun r hr => ?_, hclock⟩
          rcases List.mem_append.1 hr with hr | hr
          · exact hallowed r hr
          · rw [List.mem_singleton.1 hr]
            exact hcs

/-- In every run, a pass that ends is one of `checkLoop`: for the calls that its callbacks
made, with enough fuel, the loop returns the manager of the run. -/
theorem pass_is_checkLoop (hpc₀ : s₀.pc = .checking now) (hclock : now ≤ s₀.clock)
    (h : machine.Follows InPass s₀ s) (hpc : s.pc = .idle) :
    ∃ callback rounds, (∀ k, ∀ c ∈ callback k, c.Allowed now) ∧
      rounds.map Round.calls = (List.range rounds.length).map callback ∧
      ∀ fuel, rounds.length < fuel →
        checkLoop now callback fuel s₀.manager [] = .returned s.manager rounds := by
  have hposition : Position now s₀.manager s ∧ now ≤ s.clock := by
    apply h.invariant
    · exact ⟨.head [] hpc₀ (Leads.refl now s₀.manager) (by simp), hclock⟩
    · intro s a s' hI hin hs
      exact hI.1.step hI.2 hin hs
  cases hposition.1 with
  | head rounds hhead _ _ =>
      rw [hpc] at hhead
      cases hhead
  | callback rounds m t timer cs hrun _ _ _ _ _ _ _ =>
      rw [hpc] at hrun
      cases hrun
  | ended rounds _ hleads hallowed hreturned =>
      have hcalls : rounds.map Round.calls =
          (List.range rounds.length).map fun k => (rounds.map Round.calls)[k]?.getD [] := by
        apply List.ext_getElem
        · simp
        · intro k hk _
          simp [List.getElem?_eq_getElem (by simpa using hk)]
      refine ⟨fun k => (rounds.map Round.calls)[k]?.getD [], rounds, ?_, hcalls, ?_⟩
      · intro k c hc
        by_cases hk : k < rounds.length
        · simp only [List.getElem?_map, List.getElem?_eq_getElem hk, Option.map_some,
            Option.getD_some] at hc
          exact hallowed _ (List.getElem_mem hk) c hc
        · simp [List.getElem?_eq_none (Nat.not_lt.1 hk)] at hc
      · intro fuel hfuel
        obtain ⟨rest, rfl⟩ : ∃ rest, fuel = rest + 1 + rounds.length :=
          ⟨fuel - 1 - rounds.length, by omega⟩
        rw [hleads _ hcalls, hreturned]

/-- In every run, whatever the callbacks add or remove, a pass that ends has done to the
queue what `Passed` says, and left no timer due. -/
theorem passed_of_run {guard : System → Action → Prop} (hreach : machine.Reach guard s₀)
    (hpc₀ : s₀.pc = .checking now) (h : machine.Follows InPass s₀ s) (hpc : s.pc = .idle) :
    ∃ callback rounds, Passed now callback s₀.manager rounds s.manager ∧
      ∀ a ∈ s.manager.timersQue, ∀ timer, s.manager.timers.get a = some timer →
        now < timer.expiredTime := by
  have hkept := kept_of_reach hreach
  have hbound := hkept.pass now (by rw [passTime, hpc₀])
  obtain ⟨callback, rounds, hallowed, _, hloop⟩ := pass_is_checkLoop hpc₀ hbound.1 h hpc
  have hreturned := hloop (s₀.manager.timersQue.length + rounds.length + 1) (by omega)
  have hspares : SparesSelf now callback (s₀.manager.timersQue.length + rounds.length + 1)
      s₀.manager 0 := by
    by_contra hself
    have hdangling : checkLoop now callback (s₀.manager.timersQue.length + rounds.length + 1)
        s₀.manager [] = .dangling := checkLoop_dangling hkept.valid hallowed hself
    rw [hreturned] at hdangling
    cases hdangling
  obtain ⟨m', rounds', hloop', hpassed, hlater⟩ := (Passed.start hkept.valid).returns hkept.valid
    hbound.2 hallowed (by simp) hspares
  rw [hreturned, Outcome.returned.injEq] at hloop'
  obtain ⟨rfl, rfl⟩ := hloop'
  exact ⟨callback, rounds, hpassed, hlater⟩

end System

end MyNetLib.TimerManager
