import MyNetLib.Library.BinaryHeap

/-! # Binary heaps in order

When the comparison goes by a key with a linear order, sifting restores the order
of a heap in which one position is wrong: `push` and `pop` keep the order, and
`pop` also repairs a root whose key was rewritten before it.
-/

namespace MyNetLib.Library.BinaryHeap

universe u v

variable {α : Type u} {κ : Type v} [LinearOrder κ] {comp : α → α → Bool} {key : α → κ}
  {h h' : List α} {i j k : Nat} {x : α}

/-- On the elements of `h`, `comp` goes by `key`. -/
def Compares (comp : α → α → Bool) (key : α → κ) (h : List α) : Prop :=
  ∀ x ∈ h, ∀ y ∈ h, comp x y = decide (key y < key x)

/-- The element at `i` does not come after the one at `j`. -/
def Leq (key : α → κ) (h : List α) (i j : Nat) : Prop :=
  ∀ x ∈ h[i]?, ∀ y ∈ h[j]?, key x ≤ key y

/-- No element comes before its parent. -/
def Ordered (key : α → κ) (h : List α) : Prop := ∀ j, 0 < j → Leq key h ((j - 1) / 2) j

/-- The order before the element at `i` goes up: it may come before its parent only,
which its children do not. -/
structure UpOrder (key : α → κ) (h : List α) (i : Nat) : Prop where
  others : ∀ j, 0 < j → j ≠ i → Leq key h ((j - 1) / 2) j
  grand : 0 < i → ∀ j, 0 < j → (j - 1) / 2 = i → Leq key h ((i - 1) / 2) j

/-- The order before the element at `i` goes down: only its children may come before it. -/
structure DownOrder (key : α → κ) (h : List α) (i : Nat) : Prop where
  others : ∀ j, 0 < j → (j - 1) / 2 ≠ i → Leq key h ((j - 1) / 2) j
  grand : 0 < i → ∀ j, 0 < j → (j - 1) / 2 = i → Leq key h ((i - 1) / 2) j

theorem getElem?_swap (hi : i < h.length) (hj : j < h.length) (k : Nat) :
    (h.swap i j)[k]? = h[Equiv.swap i j k]? := by
  rw [List.swap_eq_of_lt hi hj, Equiv.swap_apply_def]
  simp only [List.getElem?_set, List.length_set]
  by_cases hkj : j = k
  · subst hkj
    by_cases hji : j = i <;> simp [hji, hi, hj]
  · by_cases hki : i = k
    · subst hki
      simp [hkj, hj, hi]
    · simp [hkj, hki, Ne.symm hkj, Ne.symm hki]

theorem Compares.perm (hcomp : Compares comp key h) (hperm : h'.Perm h) :
    Compares comp key h' :=
  fun x hx y hy => hcomp x (hperm.mem_iff.1 hx) y (hperm.mem_iff.1 hy)

theorem Leq.trans (hij : Leq key h i j) (hjk : Leq key h j k) (hj : j < h.length) :
    Leq key h i k := by
  intro x hx z hz
  have hy : h[j]? = some h[j] := List.getElem?_eq_getElem hj
  exact (hij x hx h[j] hy).trans (hjk h[j] hy z hz)

theorem leq_of_length_le (hj : h.length ≤ j) : Leq key h i j := by
  intro x _ y hy
  rw [List.getElem?_eq_none hj] at hy
  cases hy

theorem leq_swap (hi : i < h.length) (hj : j < h.length) (a b : Nat) :
    Leq key (h.swap i j) a b ↔ Leq key h (Equiv.swap i j a) (Equiv.swap i j b) := by
  simp only [Leq, getElem?_swap hi hj]

theorem Compares.leq (hcomp : Compares comp key h) {y : α} (hx : h[i]? = some x)
    (hy : h[j]? = some y) : comp x y = false ↔ Leq key h i j := by
  rw [hcomp x (List.mem_of_getElem? hx) y (List.mem_of_getElem? hy), decide_eq_false_iff_not,
    not_lt]
  simp [Leq, hx, hy]

theorem Compares.leq_of_true (hcomp : Compares comp key h) {y : α} (hx : h[i]? = some x)
    (hy : h[j]? = some y) (hbefore : comp x y = true) : Leq key h j i := by
  rw [hcomp x (List.mem_of_getElem? hx) y (List.mem_of_getElem? hy), decide_eq_true_eq] at hbefore
  intro z hz w hw
  rw [hy, Option.mem_some_iff] at hz
  rw [hx, Option.mem_some_iff] at hw
  rw [← hz, ← hw]
  exact hbefore.le

/-! ## Going up -/

theorem UpOrder.ordered (hup : UpOrder key h i) (hle : 0 < i → Leq key h ((i - 1) / 2) i) :
    Ordered key h := by
  intro j hj
  by_cases hji : j = i
  · subst hji
    exact hle hj
  · exact hup.others j hj hji

theorem UpOrder.move (hup : UpOrder key h i) (hpos : 0 < i) (hi : i < h.length)
    (hle : Leq key h i ((i - 1) / 2)) : UpOrder key (h.swap ((i - 1) / 2) i) ((i - 1) / 2) := by
  have hp : (i - 1) / 2 < h.length := by omega
  constructor
  · intro j hj hjp
    rw [leq_swap hp hi]
    by_cases hji : j = i
    · subst hji
      rw [Equiv.swap_apply_left, Equiv.swap_apply_right]
      exact hle
    · rw [Equiv.swap_apply_of_ne_of_ne hjp hji]
      by_cases hpi : (j - 1) / 2 = i
      · rw [hpi, Equiv.swap_apply_right]
        exact hup.grand hpos j hj hpi
      · by_cases hpp : (j - 1) / 2 = (i - 1) / 2
        · have hsibling := hup.others j hj hji
          rw [hpp] at hsibling ⊢
          rw [Equiv.swap_apply_left]
          exact hle.trans hsibling hp
        · rw [Equiv.swap_apply_of_ne_of_ne hpp hpi]
          exact hup.others j hj hji
  · intro hpp j hj hjp
    have hparent := hup.others ((i - 1) / 2) hpp (by omega)
    rw [leq_swap hp hi, Equiv.swap_apply_of_ne_of_ne (by omega) (by omega)]
    by_cases hji : j = i
    · rw [hji, Equiv.swap_apply_right]
      exact hparent
    · rw [Equiv.swap_apply_of_ne_of_ne (by omega) hji]
      have hchild := hup.others j hj hji
      rw [hjp] at hchild
      exact hparent.trans hchild hp

theorem siftUp_ordered {fuel : Nat} (hcomp : Compares comp key h) (hup : UpOrder key h i)
    (hfuel : i ≤ fuel) (hi : i < h.length) : Ordered key (siftUp comp fuel h i) := by
  induction fuel generalizing h i with
  | zero => exact hup.ordered fun hpos => by omega
  | succ fuel ih =>
      rw [siftUp]
      split
      · rename_i hzero
        exact hup.ordered fun hpos => by omega
      · rename_i hpos
        split
        · rename_i parent x hparent hx
          split
          · rename_i hbefore
            have hle := hcomp.leq_of_true hparent hx hbefore
            apply ih (hcomp.perm (List.swap_perm _ _ _)) (hup.move (by omega) hi hle)
            · omega
            · rw [List.length_swap]
              omega
          · rename_i hnot
            refine hup.ordered fun _ => ?_
            exact (hcomp.leq hparent hx).1 (Bool.eq_false_of_not_eq_true hnot)
        · rename_i hnone
          exact absurd (List.getElem?_eq_getElem hi)
            (hnone _ _ (List.getElem?_eq_getElem (by omega)))

theorem push_ordered (hcomp : Compares comp key (h ++ [x])) (hh : Ordered key h) :
    Ordered key (push comp h x) := by
  refine siftUp_ordered hcomp ⟨?_, ?_⟩ le_rfl (by simp)
  · intro j hj hne
    by_cases hlt : j < h.length
    · have hparent : (j - 1) / 2 < h.length := by omega
      intro y hy z hz
      rw [List.getElem?_append_left hparent] at hy
      rw [List.getElem?_append_left hlt] at hz
      exact hh j hj y hy z hz
    · exact leq_of_length_le (by simp; omega)
  · intro _ j hj hparent
    exact leq_of_length_le (by simp; omega)

/-! ## Going down -/

theorem DownOrder.ordered (hdown : DownOrder key h i)
    (hle : ∀ j, 0 < j → (j - 1) / 2 = i → Leq key h i j) : Ordered key h := by
  intro j hj
  by_cases hji : (j - 1) / 2 = i
  · rw [hji]
    exact hle j hj hji
  · exact hdown.others j hj hji

theorem DownOrder.move {c : Nat} (hdown : DownOrder key h i) (hc : 0 < c)
    (hparent : (c - 1) / 2 = i) (hlt : c < h.length)
    (hfirst : ∀ j, 0 < j → (j - 1) / 2 = i → Leq key h c j)
    (hle : Leq key h c i) : DownOrder key (h.swap i c) c := by
  have hi : i < h.length := by omega
  constructor
  · intro j hj hjc
    rw [leq_swap hi hlt]
    by_cases hji : (j - 1) / 2 = i
    · rw [hji, Equiv.swap_apply_left]
      by_cases hjc' : j = c
      · rw [hjc', Equiv.swap_apply_right]
        exact hle
      · rw [Equiv.swap_apply_of_ne_of_ne (by omega) hjc']
        exact hfirst j hj hji
    · rw [Equiv.swap_apply_of_ne_of_ne hji hjc]
      by_cases hself : j = i
      · subst hself
        rw [Equiv.swap_apply_left]
        exact hdown.grand hj c hc hparent
      · rw [Equiv.swap_apply_of_ne_of_ne hself (by omega)]
        exact hdown.others j hj hji
  · intro _ j hj hjc
    rw [leq_swap hi hlt, hparent, Equiv.swap_apply_left,
      Equiv.swap_apply_of_ne_of_ne (by omega) (by omega)]
    have hchild := hdown.others j hj (by omega)
    rw [hjc] at hchild
    exact hchild

theorem firstChild_spec {c : Nat} (hcomp : Compares comp key h)
    (hc : firstChild comp h i = some c) :
    0 < c ∧ (c - 1) / 2 = i ∧ c < h.length ∧
      ∀ j, 0 < j → (j - 1) / 2 = i → Leq key h c j := by
  have hchildren : ∀ j, 0 < j → (j - 1) / 2 = i → j = 2 * i + 1 ∨ j = 2 * i + 2 := by
    intro j hj hji
    omega
  have hrefl : ∀ j, Leq key h j j := by
    intro j x hx y hy
    rw [Option.mem_unique hx hy]
  unfold firstChild at hc
  split at hc
  · rename_i left right hleft hright
    have hlt := (List.getElem?_eq_some_iff.1 hright).1
    split at hc
    · rename_i hbefore
      cases hc
      refine ⟨by omega, by omega, hlt, fun j hj hji => ?_⟩
      rcases hchildren j hj hji with rfl | rfl
      · exact hcomp.leq_of_true hleft hright hbefore
      · exact hrefl _
    · rename_i hnot
      cases hc
      refine ⟨by omega, by omega, by omega, fun j hj hji => ?_⟩
      rcases hchildren j hj hji with rfl | rfl
      · exact hrefl _
      · exact (hcomp.leq hleft hright).1 (Bool.eq_false_of_not_eq_true hnot)
  · rename_i left hleft hright
    cases hc
    refine ⟨by omega, by omega, (List.getElem?_eq_some_iff.1 hleft).1, fun j hj hji => ?_⟩
    rcases hchildren j hj hji with rfl | rfl
    · exact hrefl _
    · exact leq_of_length_le (List.getElem?_eq_none_iff.1 hright)
  · cases hc

theorem firstChild_none (hc : firstChild comp h i = none) : h.length ≤ 2 * i + 1 := by
  unfold firstChild at hc
  split at hc
  · split at hc <;> cases hc
  · cases hc
  · rename_i hleft
    exact List.getElem?_eq_none_iff.1 hleft

theorem siftDown_ordered {fuel : Nat} (hcomp : Compares comp key h) (hdown : DownOrder key h i)
    (hfuel : h.length ≤ fuel + i) : Ordered key (siftDown comp fuel h i) := by
  induction fuel generalizing h i with
  | zero => exact hdown.ordered fun j hj hji => leq_of_length_le (by omega)
  | succ fuel ih =>
      rw [siftDown]
      split
      · rename_i hnone
        have hlen := firstChild_none hnone
        exact hdown.ordered fun j hj hji => leq_of_length_le (by omega)
      · rename_i c hc
        obtain ⟨hpos, hparent, hlt, hfirst⟩ := firstChild_spec hcomp hc
        split
        · rename_i x child hx hchild
          split
          · rename_i hbefore
            have hle := hcomp.leq_of_true hx hchild hbefore
            apply ih (hcomp.perm (List.swap_perm _ _ _))
            · exact hdown.move hpos hparent hlt hfirst hle
            · rw [List.length_swap]
              omega
          · rename_i hnot
            have hle := (hcomp.leq hx hchild).1 (Bool.eq_false_of_not_eq_true hnot)
            exact hdown.ordered fun j hj hji => hle.trans (hfirst j hj hji) hlt
        · rename_i hnone
          exact absurd (List.getElem?_eq_getElem hlt)
            (hnone _ _ (List.getElem?_eq_getElem (by omega)))

/-- The key of the root does not matter to `pop`. -/
theorem pop_ordered (hcomp : Compares comp key h) (hh : DownOrder key h 0) :
    Ordered key (pop comp h) := by
  unfold pop
  split
  · intro j hj x hx
    simp at hx
  · rename_i last hlast
    have hmem : ∀ y ∈ h.dropLast.set 0 last, y ∈ h := by
      intro y hy
      rcases List.mem_or_eq_of_mem_set hy with hy | rfl
      · exact List.dropLast_subset h hy
      · exact List.mem_of_getLast? hlast
    apply siftDown_ordered
    · exact fun x hx y hy => hcomp x (hmem x hx) y (hmem y hy)
    · refine ⟨fun j hj hne x hx y hy => ?_, fun hzero => absurd hzero (lt_irrefl 0)⟩
      rw [List.getElem?_set_ne (Ne.symm hne), List.getElem?_dropLast] at hx
      rw [List.getElem?_set_ne (by omega), List.getElem?_dropLast] at hy
      split at hx
      · split at hy
        · exact hh.others j hj hne x hx y hy
        · cases hy
      · cases hx
    · simp

/-! ## The root -/

theorem Ordered.downOrder (hh : Ordered key h) : DownOrder key h 0 :=
  ⟨fun j hj _ => hh j hj, fun hzero => absurd hzero (lt_irrefl 0)⟩

theorem DownOrder.congr {key' : α → κ} (hdown : DownOrder key h 0)
    (hkey : ∀ j, 0 < j → ∀ x ∈ h[j]?, key' x = key x) : DownOrder key' h 0 := by
  refine ⟨fun j hj hne x hx y hy => ?_, fun hzero => absurd hzero (lt_irrefl 0)⟩
  rw [hkey _ (Nat.pos_of_ne_zero hne) x hx, hkey j hj y hy]
  exact hdown.others j hj hne x hx y hy

theorem Ordered.congr {key' : α → κ} (hh : Ordered key h) (hkey : ∀ x ∈ h, key' x = key x) :
    Ordered key' h := by
  intro j hj x hx y hy
  rw [hkey x (List.mem_of_getElem? hx), hkey y (List.mem_of_getElem? hy)]
  exact hh j hj x hx y hy

theorem Ordered.top_le {r : α} (hh : Ordered key h) (hroot : top h = some r) (hx : x ∈ h) :
    key r ≤ key x := by
  have hall : ∀ (j : Nat) y, h[j]? = some y → key r ≤ key y := by
    intro j
    induction j using Nat.strong_induction_on with
    | _ j ih =>
        intro y hy
        cases j with
        | zero =>
            rw [top, hy, Option.some.injEq] at hroot
            rw [hroot]
        | succ j =>
            have hlt := (List.getElem?_eq_some_iff.1 hy).1
            have hparent : h[j / 2]? = some h[j / 2] := List.getElem?_eq_getElem (by omega)
            have hle := ih (j / 2) (by omega) _ hparent
            exact hle.trans (hh (j + 1) (Nat.succ_pos j) _ hparent _ hy)
  obtain ⟨j, hj⟩ := List.getElem?_of_mem hx
  exact hall j x hj

end MyNetLib.Library.BinaryHeap
