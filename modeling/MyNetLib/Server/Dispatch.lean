import MyNetLib.Server.State

/-! # One dispatch at a time

A loop thread handles one channel at a time, and runs no functor and no
`ConnectionDestroyed` before it is done with the channels of its poll.
-/

namespace MyNetLib.TcpServer

open Library

variable {τ : Type}

namespace View

variable {v v' : View τ} {mine : Bool} {a : Action τ}

/-- A dispatch is the outermost call of its thread. -/
def bottomed : List Call → Prop
  | [] => True
  | .handleEvent _ _ :: rest => rest = []
  | _ :: rest => bottomed rest

structure Dispatch (v : View τ) : Prop where
  single : v.active.length ≤ 1
  bottom : bottomed v.frames
  idle : ∀ revents todo, .handleEvent revents todo ∈ v.frames → v.active = []
  suffix : ∀ revents todo, .handleEvent revents todo ∈ v.frames →
    todo <:+ Channel.handleEventWithGuard revents
  destroying : .destroying ∈ v.frames ∨ .removing ∈ v.frames →
    v.active = [] ∧ ∀ revents todo, .handleEvent revents todo ∉ v.frames

theorem Start.dispatch (h : Start v) : Dispatch v := by
  cases h with
  | queued _ _ _ _ _ _ _ _ _ _ _ hframes hactive =>
      constructor <;> simp [hframes, hactive, bottomed]
  | established _ _ _ _ _ _ _ _ _ hframes hactive =>
      constructor <;> simp [hframes, hactive, bottomed]

/-! What happens to the calls of the thread. -/

def dispatches : Call → Bool
  | .handleEvent _ _ => true
  | _ => false

theorem bottomed_append {above frames : List Call}
    (h : ∀ call ∈ above, dispatches call = false) :
    bottomed (above ++ frames) ↔ bottomed frames := by
  induction above with
  | nil => rfl
  | cons call above ih =>
      have hcall := h call List.mem_cons_self
      have htail := ih fun c hc => h c (List.mem_cons_of_mem _ hc)
      cases call <;> simp_all [bottomed, dispatches]

theorem bottomed_tail {call : Call} {frames : List Call} (h : bottomed (call :: frames)) :
    bottomed frames := by
  cases call <;> simp_all [bottomed]

theorem handleEvent_mem_append {above frames : List Call} {revents : BitVec 32}
    {todo : List Channel.Handler} (h : ∀ call ∈ above, dispatches call = false)
    (hmem : .handleEvent revents todo ∈ above ++ frames) : .handleEvent revents todo ∈ frames := by
  rcases List.mem_append.1 hmem with habove | hframes
  · cases h _ habove
  · exact hframes

theorem Dispatch.same (h : Dispatch v) (hframes : v'.frames = v.frames)
    (hactive : v'.active = v.active) : Dispatch v' := by
  constructor <;> simp only [hframes, hactive]
  · exact h.single
  · exact h.bottom
  · exact h.idle
  · exact h.suffix
  · exact h.destroying

theorem Dispatch.handled {revents : BitVec 32} {handler : Channel.Handler}
    {todo : List Channel.Handler} {frames : List Call} (above : List Call) (h : Dispatch v)
    (hframes : v.frames = .handleEvent revents (handler :: todo) :: frames)
    (habove : ∀ call ∈ above, call = .callback ∨ call = .closing)
    (hv' : v'.frames = above ++ .handleEvent revents todo :: frames)
    (hactive : v'.active = v.active) : Dispatch v' := by
  have hmem : .handleEvent revents (handler :: todo) ∈ v.frames := by
    rw [hframes]
    exact List.mem_cons_self
  have hnone := h.idle _ _ hmem
  have hbottom : frames = [] := by
    have hold := h.bottom
    rw [hframes] at hold
    exact hold
  have hcalls : ∀ call ∈ above, dispatches call = false := by
    intro call hcall
    rcases habove call hcall with rfl | rfl <;> rfl
  subst hbottom
  refine ⟨by simp [hactive, hnone], ?_, fun _ _ _ => by rw [hactive, hnone], ?_, ?_⟩
  · rw [hv', bottomed_append hcalls]
    rfl
  · intro revents' todo' hmem'
    rw [hv'] at hmem'
    have htop := handleEvent_mem_append hcalls hmem'
    rw [List.mem_singleton, Call.handleEvent.injEq] at htop
    rw [htop.1, htop.2]
    exact (List.suffix_cons _ _).trans (h.suffix _ _ hmem)
  · intro hdestroy
    have hout : .destroying ∈ above ∨ .removing ∈ above := by simpa [hv'] using hdestroy
    rcases hout with hmem' | hmem' <;> simpa using habove _ hmem'

theorem Dispatch.resumed {call : Call} {frames : List Call} (above : List Call) (h : Dispatch v)
    (hframes : v.frames = call :: frames) (habove : ∀ c ∈ above, dispatches c = false)
    (hdestroy : .destroying ∉ above) (hremove : .removing ∈ above → call = .destroying)
    (hv' : v'.frames = above ++ frames) (hactive : v'.active = v.active) : Dispatch v' := by
  have hold : ∀ revents todo, .handleEvent revents todo ∈ v'.frames →
      .handleEvent revents todo ∈ v.frames := by
    intro revents todo hmem
    rw [hv'] at hmem
    rw [hframes]
    exact List.mem_cons_of_mem _ (handleEvent_mem_append habove hmem)
  refine ⟨by rw [hactive]; exact h.single, ?_, ?_, ?_, ?_⟩
  · have hbottom := h.bottom
    rw [hframes] at hbottom
    rw [hv', bottomed_append habove]
    exact bottomed_tail hbottom
  · intro revents todo hmem
    rw [hactive]
    exact h.idle revents todo (hold revents todo hmem)
  · intro revents todo hmem
    exact h.suffix revents todo (hold revents todo hmem)
  · intro hmem
    have hbefore : .destroying ∈ v.frames ∨ .removing ∈ v.frames := by
      rw [hv', List.mem_append, List.mem_append] at hmem
      rw [hframes]
      rcases hmem with (hmem | hmem) | (hmem | hmem)
      · exact absurd hmem hdestroy
      · exact Or.inl (List.mem_cons_of_mem _ hmem)
      · exact Or.inl (by rw [hremove hmem]; exact List.mem_cons_self)
      · exact Or.inr (List.mem_cons_of_mem _ hmem)
    have hout := h.destroying hbefore
    exact ⟨by rw [hactive]; exact hout.1, fun revents todo hmem' => hout.2 _ _ (hold _ _ hmem')⟩

theorem Dispatch.began {frames : List Call} (hframes : ∀ c ∈ frames, dispatches c = false)
    (hv' : v'.frames = frames) (hactive : v'.active = []) : Dispatch v' := by
  have hnone : ∀ revents todo, .handleEvent revents todo ∉ v'.frames := by
    intro revents todo hmem
    rw [hv'] at hmem
    cases hframes _ hmem
  refine ⟨by simp [hactive], ?_, fun _ _ hmem => absurd hmem (hnone _ _),
    fun _ _ hmem => absurd hmem (hnone _ _), fun _ => ⟨hactive, hnone⟩⟩
  have hbottom : bottomed (frames ++ []) := (bottomed_append hframes).2 trivial
  rw [hv']
  simpa using hbottom

theorem Dispatch.called (h : Dispatch v) (hv' : v'.frames = .callback :: v.frames)
    (hactive : v'.active = v.active) : Dispatch v' := by
  constructor <;> simp only [hv', hactive]
  · exact h.single
  · exact h.bottom
  · simpa using h.idle
  · simpa using h.suffix
  · simpa using h.destroying

variable [DecidableEq τ]

theorem Dispatch.step (h : Dispatch v) (hs : Step v mine a v') : Dispatch v' := by
  cases hs with
  | polled _ revents hframes => exact ⟨by simp, by simp [hframes, bottomed], by simp [hframes],
      by simp [hframes], by simp [hframes]⟩
  | dispatched _ revents active _ hactive =>
      have hlast : active = [] := by
        have hsingle := h.single
        rw [hactive, List.length_cons] at hsingle
        exact List.length_eq_zero_iff.1 (by omega)
      exact ⟨by simp [hlast], rfl, fun _ _ _ => hlast, by simp, by simp⟩
  | handledClose _ _ _ _ _ _ hframes =>
      exact h.handled [.callback, .closing] hframes (by simp) rfl rfl
  | handledError _ _ _ _ _ _ hframes => exact h.handled [] hframes (by simp) rfl rfl
  | readMessage _ _ _ _ _ _ _ hframes =>
      exact h.handled [.callback] hframes (by simp) rfl rfl
  | readClose _ _ _ _ _ _ _ hframes =>
      exact h.handled [.callback, .closing] hframes (by simp) rfl rfl
  | readError _ _ _ _ _ _ _ hframes => exact h.handled [] hframes (by simp) rfl rfl
  | handledWrite _ _ _ _ _ _ _ _ hframes => exact h.handled [] hframes (by simp) rfl rfl
  | callbackReturned _ _ hframes =>
      exact h.resumed [] hframes (by simp) (by simp) (by simp) rfl rfl
  | eventHandled _ _ _ hframes =>
      exact h.resumed [] hframes (by simp) (by simp) (by simp) rfl rfl
  | establishedReturned _ _ hframes =>
      exact h.resumed [] hframes (by simp) (by simp) (by simp) rfl rfl
  | closeQueued _ _ hframes =>
      exact h.resumed [.closed] hframes (by simp [dispatches]) (by simp) (by simp) rfl
        rfl
  | closeRemoved _ _ hframes =>
      exact h.resumed [.closed] hframes (by simp [dispatches]) (by simp) (by simp) rfl
        rfl
  | closeReturned _ _ hframes =>
      exact h.resumed [] hframes (by simp) (by simp) (by simp) rfl rfl
  | disconnected _ _ hframes =>
      exact h.resumed [.callback, .removing] hframes (by simp [dispatches]) (by simp)
        (by simp) rfl rfl
  | removed _ _ hframes =>
      exact h.resumed [] hframes (by simp) (by simp) (by simp) rfl rfl
  | runEstablished _ _ _ _ _ hactive => exact .began (by simp [dispatches]) rfl hactive
  | runSend _ _ _ _ _ due _ hactive =>
      refine .began ?_ rfl hactive
      cases due <;> simp [dispatches]
  | runWriteComplete _ _ _ _ _ hactive => exact .began (by simp [dispatches]) rfl hactive
  | runDestroyed _ _ rest hframes hactive =>
      refine .began ?_ rfl (by simpa using hactive)
      intro call hcall
      simp only [mem_destroy_frames, hframes, List.not_mem_nil, or_false] at hcall
      rw [hcall.1]
      rfl
  | dtorDestroyed _ _ _ _ hframes hactive =>
      refine .began ?_ rfl (by simpa using hactive)
      intro call hcall
      simp only [mem_destroy_frames, hframes, List.not_mem_nil, or_false] at hcall
      rw [hcall.1]
      rfl
  | ownSent _ _ _ _ _ due =>
      cases due
      · exact h.same rfl rfl
      · exact h.called rfl rfl
  | _ => exact h.same rfl rfl

end View

end MyNetLib.TcpServer
