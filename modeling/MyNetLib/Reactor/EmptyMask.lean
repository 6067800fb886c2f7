import MyNetLib.Reactor.EpollPoller

/-! # Channels with an empty mask

`UpdateChannel` looks at the index before the mask: a channel that is not in the
epoll set is added, whatever its mask. A descriptor added with mask 0 still
delivers `EPOLLHUP` and `EPOLLERR`.
-/

namespace MyNetLib.EpollPoller

open Library

variable {κ : Type}

/-- The kernel has nothing to report for a channel that asks for nothing. -/
def EmptyUnwatched (p : EpollPoller κ) : Prop :=
  ∀ c, (p.channels c).isNoneEvent = true → p.epollSet (p.channels c).fd = none

/-- A call that leaves the mask empty is made on a channel in the epoll set. -/
def EmptiesAdded (p : EpollPoller κ) : Call κ → Prop
  | .change c ch =>
      ((p.channels c).change ch).isNoneEvent = true → (p.channels c).index = kAdded
  | .remove _ => True

instance (p : EpollPoller κ) (a : Call κ) : Decidable (EmptiesAdded p a) :=
  match a with
  | .change c ch => inferInstanceAs (Decidable
      (((p.channels c).change ch).isNoneEvent = true → (p.channels c).index = kAdded))
  | .remove _ => inferInstanceAs (Decidable True)

theorem Initial.emptyUnwatched {p : EpollPoller κ} (h : Initial p) : EmptyUnwatched p :=
  fun _ _ => h.unwatched _

variable [DecidableEq κ] {p : EpollPoller κ}

/-- Writing one registration: only its own channel has to be looked at. -/
theorem emptyUnwatched_write (h : Mirror p) (hp : EmptyUnwatched p) {c : κ} {channel : Channel}
    {entry : Option κ} {watched : Option (Event κ)} (hfd : channel.fd = (p.channels c).fd) :
    EmptyUnwatched (p.write c channel entry watched) ↔
      (channel.isNoneEvent = true → watched = none) := by
  constructor
  · intro hw hnone
    have hown := hw c (by simpa [EpollPoller.write] using hnone)
    simpa [EpollPoller.write, hfd] using hown
  · intro hown d hnone
    by_cases hd : d = c
    · subst hd
      simp only [EpollPoller.write, Function.update_self] at hnone ⊢
      rw [hfd, Function.update_self]
      exact hown hnone
    · have hne : (p.channels d).fd ≠ (p.channels c).fd := fun heq => hd (h.distinct heq)
      simp only [EpollPoller.write, Function.update_of_ne hd] at hnone ⊢
      rw [Function.update_of_ne hne]
      exact hp d hnone

/-- One call keeps the empty masks unwatched exactly when it does not empty the
mask of a channel outside the epoll set. -/
theorem emptyUnwatched_call_iff (h : Mirror p) (hp : EmptyUnwatched p) (a : Call κ) :
    EmptyUnwatched (p.call a) ↔ EmptiesAdded p a := by
  cases a with
  | remove c =>
      rw [h.call_remove]
      refine Iff.trans (emptyUnwatched_write h hp ?_) ?_
      · rfl
      · exact iff_of_true (fun _ => rfl) trivial
  | change c ch =>
      by_cases hout : (p.channels c).index = kAdded ∧ ((p.channels c).change ch).isNoneEvent = true
      · rw [h.call_change_none hout.1 hout.2]
        refine Iff.trans (emptyUnwatched_write h hp ?_) ?_
        · rfl
        · exact iff_of_true (fun _ => rfl) fun _ => hout.1
      · have hkeep : (p.channels c).index ≠ kAdded ∨
            ((p.channels c).change ch).isNoneEvent = false := by
          rw [← Bool.not_eq_true]
          exact not_and_or.1 hout
        rw [h.call_change hkeep]
        refine Iff.trans (emptyUnwatched_write h hp ?_) ⟨?_, ?_⟩
        · rfl
        · intro hwatched hnone
          cases hwatched hnone
        · intro hadded hnone
          exact absurd ⟨hadded hnone, hnone⟩ hout

/-- In every run whose calls empty masks only of channels in the epoll set, a
channel with an empty mask is not in it; and any call made from there keeps
this exactly when it meets the condition. -/
theorem empty_masks_unwatched (p : EpollPoller κ) (h : (machine κ).Reach EmptiesAdded p) :
    EmptyUnwatched p ∧
      ∀ a p', (machine κ).step p a = some p' → (EmptyUnwatched p' ↔ EmptiesAdded p a) := by
  have hI : Mirror p ∧ EmptyUnwatched p := by
    apply h.invariant
    · intro p hp
      exact ⟨hp.mirror, hp.emptyUnwatched⟩
    · intro p a p' hI hg hs
      have hcall : p' = p.call a := by
        simp only [machine, hI.1.running, Bool.false_eq_true, if_false, Option.some.injEq] at hs
        exact hs.symm
      refine ⟨mirror_step hI.1 hs, ?_⟩
      rw [hcall]
      exact (emptyUnwatched_call_iff hI.1 hI.2 a).2 hg
  refine ⟨hI.2, fun a p' hs => ?_⟩
  simp only [machine, hI.1.running, Bool.false_eq_true, if_false, Option.some.injEq] at hs
  rw [← hs]
  exact emptyUnwatched_call_iff hI.1 hI.2 a

theorem twoChannels_initial : Initial twoChannels := by
  constructor
  · intro c d hcd
    revert c d
    decide
  all_goals
    intros
    rfl

/-- Enabled, emptied and removed: out of the epoll set, twice. -/
theorem empty_masks_unwatched_removed :
    ∃ p : EpollPoller Bool, EmptyUnwatched p ∧ (p.channels true).index = kDeleted := by
  have hstart : (machine Bool).Reach EmptiesAdded twoChannels := .start twoChannels_initial
  have hrun : ((machine Bool).runGuarded EmptiesAdded twoChannels
      [.change true .enableRead, .change true .disableAll, .remove true,
        .change true .enableWrite, .change true .disableWrite]).any
      (fun p => decide ((p.channels true).index = kDeleted)) = true := by decide +kernel
  obtain ⟨p, hreach, htest⟩ := Machine.Reach.of_test (machine Bool) EmptiesAdded
    (fun p => decide ((p.channels true).index = kDeleted)) _ hstart hrun
  exact ⟨p, (empty_masks_unwatched p hreach).1, of_decide_eq_true htest⟩

/-- `DisableAll` on a new channel puts it into the epoll set with mask 0. -/
theorem disableAll_watches :
    ¬ ∀ p : EpollPoller Bool, (machine Bool).Reach (fun _ _ => True) p → EmptyUnwatched p := by
  intro hclaim
  have hstep : (machine Bool).step twoChannels (.change true .disableAll) =
      some (twoChannels.call (.change true .disableAll)) := rfl
  have hreach : (machine Bool).Reach (fun _ _ => True)
      (twoChannels.call (.change true .disableAll)) :=
    .step (.start twoChannels_initial) trivial hstep
  have hunwatched := hclaim _ hreach true rfl
  have hwatched : ((twoChannels.call (.change true .disableAll)).epollSet 4).isSome = true := rfl
  have hfd : ((twoChannels.call (.change true .disableAll)).channels true).fd = 4 := rfl
  rw [hfd] at hunwatched
  rw [hunwatched] at hwatched
  cases hwatched

end MyNetLib.EpollPoller
