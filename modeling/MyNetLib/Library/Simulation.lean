import MyNetLib.Library.Machine

/-! # Simulation and progress

A machine whose steps are, seen through a function, steps of another machine or
nothing at all reaches no state the other one does not reach. A run leads to a
goal if, short of it, some step always brings a measure down.
-/

namespace MyNetLib.Library.Machine

universe u v u' v'

variable {σ : Type u} {α : Type v} {σ' : Type u'} {α' : Type v'}
variable {M : Machine σ α} {N : Machine σ' α'}
variable {guard : σ → α → Prop} {guard' : σ' → α' → Prop}

/-- `view` maps the guarded runs of `M` to runs of `N`; `I` is what the states of `M` keep. -/
theorem Reach.simulates (view : σ → σ') {I : σ → Prop}
    (hinv : ∀ s, M.Reach guard s → I s)
    (hstart : ∀ s, M.start s → N.start (view s))
    (hstep : ∀ s a s', I s → guard s a → M.step s a = some s' →
      view s' = view s ∨ ∃ b, guard' (view s) b ∧ N.step (view s) b = some (view s'))
    {s : σ} (h : M.Reach guard s) : N.Reach guard' (view s) := by
  induction h with
  | start hs => exact .start (hstart _ hs)
  | step hreach hg hs ih =>
      rcases hstep _ _ _ (hinv _ hreach) hg hs with hsame | ⟨b, hb, hbs⟩
      · exact hsame ▸ ih
      · exact .step ih hb hbs

/-- Short of the goal some guarded step keeps `I` and lowers `measure`. -/
theorem leads_to {I goal : σ → Prop} (measure : σ → Nat)
    (hstep : ∀ s, I s → ¬ goal s →
      ∃ a s', guard s a ∧ M.step s a = some s' ∧ I s' ∧ measure s' < measure s)
    {s : σ} (h : I s) : ∃ s', Follows M guard s s' ∧ goal s' := by
  induction hn : measure s using Nat.strong_induction_on generalizing s with
  | _ n ih =>
      by_cases hgoal : goal s
      · exact ⟨s, .refl, hgoal⟩
      · obtain ⟨a, s₁, hg, hs, h₁, hlt⟩ := hstep s h hgoal
        obtain ⟨s₂, hfollows, hgoal₂⟩ := ih (measure s₁) (hn ▸ hlt) h₁ rfl
        exact ⟨s₂, (Follows.step .refl hg hs).trans hfollows, hgoal₂⟩

end MyNetLib.Library.Machine
