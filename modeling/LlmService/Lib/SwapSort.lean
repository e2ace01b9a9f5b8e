import Mathlib.Data.List.Basic
import Mathlib.Order.Lattice

/-!
# Sorting in place

Bubble sort, insertion sort and selection sort on a list that is only changed
by swaps: the outcome is a permutation of the list, in ascending order.
-/

namespace LlmService

namespace SwapSort

variable {α : Type} [Inhabited α]

/-! ## Swaps -/

/-- `a[i]` -/
def item (a : List α) (i : Nat) : α := a.getD i default

/-- `a[i], a[j] = a[j], a[i]` -/
def swap (a : List α) (i j : Nat) : List α := (a.set i (item a j)).set j (item a i)

variable {a : List α} {i j k : Nat}

@[simp] theorem length_swap : (swap a i j).length = a.length := by simp [swap]

theorem item_eq_getElem (h : i < a.length) : item a i = a[i] := by
  rw [item, List.getD_eq_getElem?_getD, List.getElem?_eq_getElem h]
  rfl

theorem item_set_self (h : i < a.length) (x : α) : item (a.set i x) i = x := by
  rw [item_eq_getElem (by simpa using h)]
  exact List.getElem_set_self _

theorem item_set_ne (h : i ≠ k) (x : α) : item (a.set i x) k = item a k := by
  rw [item, item, List.getD_eq_getElem?_getD, List.getD_eq_getElem?_getD, List.getElem?_set_ne h]

theorem item_swap_right (hj : j < a.length) : item (swap a i j) j = item a i := by
  rw [swap]
  exact item_set_self (by simpa using hj) _

theorem item_swap_left (hi : i < a.length) : item (swap a i j) i = item a j := by
  by_cases h : j = i
  · subst h
    exact item_swap_right hi
  · rw [swap, item_set_ne h, item_set_self hi]

theorem item_swap_other (hi : k ≠ i) (hj : k ≠ j) : item (swap a i j) k = item a k := by
  rw [swap, item_set_ne (Ne.symm hj), item_set_ne (Ne.symm hi)]

theorem swap_perm (hi : i < a.length) (hj : j < a.length) : (swap a i j).Perm a := by
  rw [swap, item_eq_getElem hi, item_eq_getElem hj]
  exact List.set_set_perm hi hj

variable [LinearOrder α]

/-- All items are in ascending order. -/
theorem pairwise_of_item (h : ∀ p q, p < q → q < a.length → item a p ≤ item a q) :
    a.Pairwise (· ≤ ·) := by
  rw [List.pairwise_iff_getElem]
  intro p q hp hq hpq
  have := h p q hpq hq
  rwa [item_eq_getElem hp, item_eq_getElem hq] at this

theorem item_le_item (h : a.Pairwise (· ≤ ·)) (hij : i ≤ j) (hj : j < a.length) :
    item a i ≤ item a j := by
  by_cases heq : i = j
  · rw [heq]
  · rw [item_eq_getElem (by omega), item_eq_getElem hj]
    exact List.pairwise_iff_getElem.mp h i j (by omega) hj (by omega)

/-! ## Bubble sort -/

/-- One comparison of neighbours. -/
def compareSwap (a : List α) (j : Nat) : List α :=
  if item a (j + 1) < item a j then swap a j (j + 1) else a

/-- The pass of the outer loop at `i`. -/
def bubblePass (n : Nat) (a : List α) (i : Nat) : List α :=
  (List.range (n - 1 - i)).foldl compareSwap a

def bubbleSort (a : List α) : List α := (List.range a.length).foldl (bubblePass a.length) a

/-- The items from `bound` on are in order, and none before them is greater. -/
def TailSorted (a : List α) (bound : Nat) : Prop :=
  ∀ p q, p < q → bound ≤ q → q < a.length → item a p ≤ item a q

theorem compareSwap_perm (h : j + 1 < a.length) : (compareSwap a j).Perm a := by
  rw [compareSwap]
  split
  · exact swap_perm (by omega) h
  · exact .refl a

theorem TailSorted.compareSwap {bound : Nat} (h : TailSorted a bound) (hj : j + 1 < bound)
    (hbound : bound ≤ a.length) : TailSorted (compareSwap a j) bound := by
  rw [SwapSort.compareSwap]
  split
  · intro p q hpq hq hlen
    rw [length_swap] at hlen
    rw [item_swap_other (k := q) (by omega) (by omega)]
    by_cases hleft : p = j
    · subst hleft
      rw [item_swap_left (by omega)]
      exact h (p + 1) q (by omega) hq hlen
    · by_cases hright : p = j + 1
      · subst hright
        rw [item_swap_right (by omega)]
        exact h j q (by omega) hq hlen
      · rw [item_swap_other hleft hright]
        exact h p q hpq hq hlen
  · exact h

/-- What the comparisons up to `m` leave: a permutation, whose item at `m` is the greatest up to
there, with the tail in order. -/
theorem comparisons_spec {bound m : Nat} (h : TailSorted a bound) (hm : m < bound)
    (hbound : bound ≤ a.length) :
    ((List.range m).foldl compareSwap a).Perm a ∧
      TailSorted ((List.range m).foldl compareSwap a) bound ∧
      ∀ t ≤ m, item ((List.range m).foldl compareSwap a) t ≤
        item ((List.range m).foldl compareSwap a) m := by
  induction m with
  | zero =>
    refine ⟨.refl a, h, ?_⟩
    intro t ht
    obtain rfl : t = 0 := by omega
    exact le_rfl
  | succ m ih =>
    obtain ⟨hperm, htail, hmax⟩ := ih (by omega)
    rw [List.range_succ, List.foldl_append]
    show (compareSwap _ m).Perm a ∧ TailSorted (compareSwap _ m) bound ∧
      ∀ t ≤ m + 1, item (compareSwap _ m) t ≤ item (compareSwap _ m) (m + 1)
    generalize (List.range m).foldl compareSwap a = current at hperm htail hmax
    have hlen := hperm.length_eq
    refine ⟨(compareSwap_perm (by omega)).trans hperm, htail.compareSwap hm (by omega), ?_⟩
    intro t ht
    rw [compareSwap]
    by_cases hlt : item current (m + 1) < item current m
    · -- the greatest item so far moves one place up
      rw [if_pos hlt, item_swap_right (by omega)]
      by_cases hlast : t = m + 1
      · subst hlast
        rw [item_swap_right (by omega)]
      · by_cases hprev : t = m
        · subst hprev
          rw [item_swap_left (by omega)]
          exact le_of_lt hlt
        · rw [item_swap_other hprev hlast]
          exact hmax t (by omega)
    · rw [if_neg hlt]
      by_cases hlast : t = m + 1
      · subst hlast
        exact le_rfl
      · exact le_trans (hmax t (by omega)) (not_lt.mp hlt)

theorem bubblePass_spec (hi : i < a.length) (h : TailSorted a (a.length - i)) :
    (bubblePass a.length a i).Perm a ∧ TailSorted (bubblePass a.length a i) (a.length - (i + 1)) := by
  obtain ⟨hperm, htail, hmax⟩ :=
    comparisons_spec (m := a.length - 1 - i) h (by omega) (by omega)
  refine ⟨hperm, ?_⟩
  intro p q hpq hq hlen
  by_cases hlast : q = a.length - 1 - i
  · subst hlast
    exact hmax p (by omega)
  · exact htail p q hpq (by omega) hlen

theorem bubbleSort_spec (a : List α) : (bubbleSort a).Perm a ∧ (bubbleSort a).Pairwise (· ≤ ·) := by
  have hpasses : ∀ m ≤ a.length, ((List.range m).foldl (bubblePass a.length) a).Perm a ∧
      TailSorted ((List.range m).foldl (bubblePass a.length) a) (a.length - m) := by
    intro m hm
    induction m with
    | zero =>
      refine ⟨.refl a, ?_⟩
      intro p q hpq hq hlen
      simp only [List.range_zero, List.foldl_nil] at hlen
      omega
    | succ m ih =>
      obtain ⟨hperm, htail⟩ := ih (by omega)
      rw [List.range_succ, List.foldl_append]
      show (bubblePass a.length _ m).Perm a ∧ TailSorted (bubblePass a.length _ m) _
      generalize (List.range m).foldl (bubblePass a.length) a = current at hperm htail
      rw [← hperm.length_eq] at htail hm ⊢
      obtain ⟨hpass, hnext⟩ := bubblePass_spec (i := m) (by omega) htail
      exact ⟨hpass.trans hperm, hnext⟩
  obtain ⟨hperm, htail⟩ := hpasses a.length (Nat.le_refl _)
  refine ⟨hperm, pairwise_of_item ?_⟩
  intro p q hpq hlen
  exact htail p q hpq (by omega) hlen

/-! ## Insertion sort -/

/-- `while k > 0 and a[k - 1] > a[k]` -/
def sink : Nat → List α → List α
  | 0, a => a
  | k + 1, a => if item a (k + 1) < item a k then sink k (swap a k (k + 1)) else a

def insertionSort (a : List α) : List α :=
  (List.range' 1 (a.length - 1)).foldl (fun a i => sink i a) a

/-- The items before `bound` are in order. -/
def HeadSorted (a : List α) (bound : Nat) : Prop :=
  ∀ p q, p < q → q < bound → item a p ≤ item a q

/-- An item that sinks into a sorted head: the others are in order, and it is not greater than
those behind it. -/
theorem sink_spec {bound : Nat} (hk : k < bound) (hbound : bound ≤ a.length)
    (h : ∀ p q, p < q → q < bound → q ≠ k → item a p ≤ item a q) :
    (sink k a).Perm a ∧ HeadSorted (sink k a) bound := by
  induction k generalizing a with
  | zero => exact ⟨.refl a, fun p q hpq hq => h p q hpq hq (by omega)⟩
  | succ k ih =>
    rw [sink]
    by_cases hlt : item a (k + 1) < item a k
    · rw [if_pos hlt]
      have hswapped : ∀ p q, p < q → q < bound → q ≠ k →
          item (swap a k (k + 1)) p ≤ item (swap a k (k + 1)) q := by
        intro p q hpq hq hne
        by_cases hup : q = k + 1
        · subst hup
          rw [item_swap_right (by omega)]
          by_cases hp : p = k
          · subst hp
            rw [item_swap_left (by omega)]
            exact le_of_lt hlt
          · rw [item_swap_other hp (by omega)]
            exact h p k (by omega) (by omega) (by omega)
        · rw [item_swap_other (k := q) hne hup]
          by_cases hp : p = k
          · subst hp
            rw [item_swap_left (by omega)]
            exact h (p + 1) q (by omega) hq hup
          · by_cases hp' : p = k + 1
            · subst hp'
              rw [item_swap_right (by omega)]
              exact h k q (by omega) hq hup
            · rw [item_swap_other hp hp']
              exact h p q hpq hq hup
      obtain ⟨hperm, hsorted⟩ := ih (by omega) (by simpa using hbound) hswapped
      exact ⟨hperm.trans (swap_perm (by omega) (by omega)), hsorted⟩
    · rw [if_neg hlt]
      refine ⟨.refl a, ?_⟩
      intro p q hpq hq
      by_cases hup : q = k + 1
      · subst hup
        by_cases hp : p = k
        · subst hp
          exact not_lt.mp hlt
        · exact le_trans (h p k (by omega) (by omega) (by omega)) (not_lt.mp hlt)
      · exact h p q hpq hq hup

theorem insertionSort_spec (a : List α) :
    (insertionSort a).Perm a ∧ (insertionSort a).Pairwise (· ≤ ·) := by
  have hsteps : ∀ m, m ≤ a.length - 1 →
      ((List.range' 1 m).foldl (fun a i => sink i a) a).Perm a ∧
        HeadSorted ((List.range' 1 m).foldl (fun a i => sink i a) a) (m + 1) := by
    intro m hm
    induction m with
    | zero =>
      refine ⟨.refl a, ?_⟩
      intro p q hpq hq
      omega
    | succ m ih =>
      obtain ⟨hperm, hsorted⟩ := ih (by omega)
      rw [List.range'_concat, List.foldl_append]
      show (sink _ _).Perm a ∧ HeadSorted (sink _ _) _
      generalize (List.range' 1 m).foldl (fun a i => sink i a) a = current at hperm hsorted
      have hlen := hperm.length_eq
      have hsink : (sink (1 + 1 * m) current).Perm current ∧
          HeadSorted (sink (1 + 1 * m) current) (m + 1 + 1) :=
        sink_spec (by omega) (by omega) fun p q hpq hq hne => hsorted p q hpq (by omega)
      exact ⟨hsink.1.trans hperm, hsink.2⟩
  obtain ⟨hperm, hsorted⟩ := hsteps (a.length - 1) (Nat.le_refl _)
  refine ⟨hperm, pairwise_of_item ?_⟩
  intro p q hpq hlen
  have hlength : (insertionSort a).length = a.length := hperm.length_eq
  exact hsorted p q hpq (by omega)

/-! ## Selection sort -/

/-- The first index from `i` on of a least item. -/
def minIndex (a : List α) (i : Nat) : Nat :=
  (List.range' (i + 1) (a.length - (i + 1))).foldl (fun m j => if item a j < item a m then j else m) i

def selectStep (a : List α) (i : Nat) : List α :=
  if minIndex a i ≠ i then swap a i (minIndex a i) else a

def selectionSort (a : List α) : List α := (List.range a.length).foldl selectStep a

theorem minIndex_spec (hi : i < a.length) :
    i ≤ minIndex a i ∧ minIndex a i < a.length ∧
      ∀ k, i ≤ k → k < a.length → item a (minIndex a i) ≤ item a k := by
  have hscan : ∀ t, i + 1 + t ≤ a.length →
      i ≤ (List.range' (i + 1) t).foldl (fun m j => if item a j < item a m then j else m) i ∧
      (List.range' (i + 1) t).foldl (fun m j => if item a j < item a m then j else m) i < i + 1 + t ∧
      ∀ k, i ≤ k → k < i + 1 + t →
        item a ((List.range' (i + 1) t).foldl (fun m j => if item a j < item a m then j else m) i) ≤
          item a k := by
    intro t ht
    induction t with
    | zero =>
      refine ⟨Nat.le_refl i, Nat.lt_succ_self i, ?_⟩
      intro k hk hlt
      obtain rfl : k = i := by omega
      exact le_rfl
    | succ t ih =>
      obtain ⟨hle, hlt, hmin⟩ := ih (by omega)
      rw [List.range'_concat, List.foldl_append, List.foldl_cons, List.foldl_nil]
      generalize (List.range' (i + 1) t).foldl
        (fun m j => if item a j < item a m then j else m) i = m at hle hlt hmin
      by_cases hless : item a (i + 1 + 1 * t) < item a m
      · rw [if_pos hless]
        refine ⟨by omega, by omega, ?_⟩
        intro k hk hlast
        by_cases hnew : k = i + 1 + 1 * t
        · rw [hnew]
        · exact le_trans (le_of_lt hless) (hmin k hk (by omega))
      · rw [if_neg hless]
        refine ⟨hle, by omega, ?_⟩
        intro k hk hlast
        by_cases hnew : k = i + 1 + 1 * t
        · rw [hnew]
          exact not_lt.mp hless
        · exact hmin k hk (by omega)
  have hwhole : i + 1 + (a.length - (i + 1)) = a.length := by omega
  have h := hscan (a.length - (i + 1)) (by omega)
  rw [hwhole] at h
  exact h

theorem selectStep_spec (hi : i < a.length)
    (h : ∀ p q, p < q → p < i → q < a.length → item a p ≤ item a q) :
    (selectStep a i).Perm a ∧
      ∀ p q, p < q → p < i + 1 → q < a.length → item (selectStep a i) p ≤ item (selectStep a i) q := by
  obtain ⟨hle, hlt, hmin⟩ := minIndex_spec hi
  rw [selectStep]
  generalize minIndex a i = m at hle hlt hmin
  by_cases hne : m ≠ i
  · rw [if_pos hne]
    refine ⟨swap_perm hi hlt, ?_⟩
    intro p q hpq hp hq
    have hq' : ∃ k, p ≤ k ∧ i ≤ k ∧ k < a.length ∧ item (swap a i m) q = item a k ∨
        item (swap a i m) q = item a q ∧ q < i := by
      by_cases hqi : q < i
      · exact ⟨q, .inr ⟨item_swap_other (by omega) (by omega), hqi⟩⟩
      · by_cases hqm : q = m
        · exact ⟨i, .inl ⟨by omega, Nat.le_refl i, hi, by rw [hqm, item_swap_right hlt]⟩⟩
        · by_cases heq : q = i
          · exact ⟨m, .inl ⟨by omega, hle, hlt, by rw [heq, item_swap_left hi]⟩⟩
          · exact ⟨q, .inl ⟨by omega, by omega, hq, item_swap_other heq hqm⟩⟩
    by_cases hpi : p = i
    · subst hpi
      rw [item_swap_left hi]
      obtain ⟨k, ⟨-, hk, hlen, hitem⟩ | ⟨-, hlow⟩⟩ := hq'
      · rw [hitem]
        exact hmin k hk hlen
      · omega
    · rw [item_swap_other hpi (by omega)]
      obtain ⟨k, ⟨hpk, hk, hlen, hitem⟩ | ⟨hitem, hlow⟩⟩ := hq'
      · rw [hitem]
        exact h p k (by omega) (by omega) hlen
      · rw [hitem]
        exact h p q hpq (by omega) hq
  · obtain rfl : m = i := not_not.mp hne
    rw [if_neg hne]
    refine ⟨.refl a, ?_⟩
    intro p q hpq hp hq
    by_cases hpm : p = m
    · subst hpm
      exact hmin q (by omega) hq
    · exact h p q hpq (by omega) hq

theorem selectionSort_spec (a : List α) :
    (selectionSort a).Perm a ∧ (selectionSort a).Pairwise (· ≤ ·) := by
  have hsteps : ∀ m ≤ a.length, ((List.range m).foldl selectStep a).Perm a ∧
      ∀ p q, p < q → p < m → q < a.length →
        item ((List.range m).foldl selectStep a) p ≤ item ((List.range m).foldl selectStep a) q := by
    intro m hm
    induction m with
    | zero =>
      refine ⟨.refl a, ?_⟩
      intro p q hpq hp
      omega
    | succ m ih =>
      obtain ⟨hperm, hsorted⟩ := ih (by omega)
      rw [List.range_succ, List.foldl_append]
      show (selectStep _ m).Perm a ∧ ∀ p q, p < q → p < m + 1 → q < a.length →
        item (selectStep _ m) p ≤ item (selectStep _ m) q
      generalize (List.range m).foldl selectStep a = current at hperm hsorted
      rw [← hperm.length_eq] at hsorted hm ⊢
      obtain ⟨hstep, hnext⟩ := selectStep_spec (a := current) (i := m) (by omega) hsorted
      exact ⟨hstep.trans hperm, hnext⟩
  obtain ⟨hperm, hsorted⟩ := hsteps a.length (Nat.le_refl _)
  have hlength : (selectionSort a).length = a.length := hperm.length_eq
  refine ⟨hperm, pairwise_of_item ?_⟩
  intro p q hpq hlen
  exact hsorted p q hpq (by omega) (by omega)

end SwapSort

end LlmService
