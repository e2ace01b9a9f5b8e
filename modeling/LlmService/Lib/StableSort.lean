import Mathlib.Data.List.Sort

/-!
# Where a stable sort puts an element

Lists sorted with `List.insertionSort`: elements that sort alike keep their order
(`pairwise_insertionSort_stable`), and what stands before the first element of its
key is what has a smaller key.
-/

namespace LlmService.StableSort

open List

section Stable

variable {α : Type} {r older : α → α → Prop} [DecidableRel r]

/-- An element older than the others is inserted before those that sort alike. -/
theorem pairwise_orderedInsert_stable (htotal : ∀ a b, r a b ∨ r b a)
    (htrans : ∀ a b c, r a b → r b c → r a c) {a : α} {l : List α} (ha : ∀ b ∈ l, older a b)
    (hl : l.Pairwise fun b c => r b c ∧ (r c b → older b c)) :
    (l.orderedInsert r a).Pairwise fun b c => r b c ∧ (r c b → older b c) := by
  induction l with
  | nil => exact pairwise_singleton _ _
  | cons b l ih =>
    obtain ⟨hb, hrest⟩ := pairwise_cons.mp hl
    by_cases hab : r a b
    · rw [orderedInsert_cons_of_le r l hab, pairwise_cons]
      refine ⟨fun c hc => ⟨?_, fun _ => ha c hc⟩, hl⟩
      rcases mem_cons.mp hc with rfl | hc
      · exact hab
      · exact htrans a b c hab (hb c hc).1
    · rw [orderedInsert_of_not_le r l hab, pairwise_cons]
      refine ⟨fun c hc => ?_, ih (fun c hc => ha c (mem_cons_of_mem _ hc)) hrest⟩
      rcases mem_cons.mp ((perm_orderedInsert r a l).mem_iff.mp hc) with rfl | hc
      · exact ⟨(htotal _ _).resolve_left hab, fun h => absurd h hab⟩
      · exact hb c hc

/-- Elements that sort alike keep their order. -/
theorem pairwise_insertionSort_stable (htotal : ∀ a b, r a b ∨ r b a)
    (htrans : ∀ a b c, r a b → r b c → r a c) {l : List α} (hl : l.Pairwise older) :
    (l.insertionSort r).Pairwise fun a b => r a b ∧ (r b a → older a b) := by
  induction l with
  | nil => exact .nil
  | cons a l ih =>
    obtain ⟨ha, hrest⟩ := pairwise_cons.mp hl
    rw [insertionSort_cons]
    refine pairwise_orderedInsert_stable htotal htrans (fun b hb => ha b ?_) (ih hrest)
    exact (perm_insertionSort r l).mem_iff.mp hb

end Stable

variable {α : Type} (key : α → Nat)

/-- What is not below the new element stays before it. -/
theorem orderedInsert_append_of_lt {x : α} {before : List α} (after : List α)
    (h : ∀ y ∈ before, key y < key x) :
    (before ++ after).orderedInsert (fun a b => key a ≤ key b) x =
      before ++ after.orderedInsert (fun a b => key a ≤ key b) x := by
  induction before with
  | nil => rfl
  | cons y before ih =>
    have hy : ¬ key x ≤ key y := by
      have := h y mem_cons_self
      omega
    rw [cons_append, orderedInsert_of_not_le (fun a b => key a ≤ key b) _ hy,
      ih fun z hz => h z (mem_cons_of_mem y hz)]
    rfl

/-- Before an element that it may stand before, a new one finds its place. -/
theorem orderedInsert_append_of_le {x y : α} {before : List α} (after : List α)
    (h : key x ≤ key y) :
    (before ++ y :: after).orderedInsert (fun a b => key a ≤ key b) x =
      before.orderedInsert (fun a b => key a ≤ key b) x ++ y :: after := by
  induction before with
  | nil => rw [nil_append, orderedInsert_cons_of_le (fun a b => key a ≤ key b) _ h]; rfl
  | cons z before ih =>
    by_cases hz : key x ≤ key z
    · rw [cons_append, orderedInsert_cons_of_le (fun a b => key a ≤ key b) _ hz,
        orderedInsert_cons_of_le (fun a b => key a ≤ key b) _ hz]
      rfl
    · rw [cons_append, orderedInsert_of_not_le (fun a b => key a ≤ key b) _ hz,
        orderedInsert_of_not_le (fun a b => key a ≤ key b) _ hz, ih]
      rfl

theorem orderedInsert_eq_filter_append {x : α} {sorted : List α}
    (h : sorted.Pairwise fun a b => key a ≤ key b) :
    ∃ above, sorted.orderedInsert (fun a b => key a ≤ key b) x =
      (sorted.filter fun y => key y < key x) ++ x :: above := by
  induction sorted with
  | nil => exact ⟨[], rfl⟩
  | cons y rest ih =>
    obtain ⟨hy, hrest⟩ := pairwise_cons.mp h
    by_cases hle : key x ≤ key y
    · refine ⟨y :: rest, ?_⟩
      have hnone : (y :: rest).filter (fun z => key z < key x) = [] := by
        rw [filter_eq_nil_iff]
        intro z hz
        rcases mem_cons.mp hz with rfl | hz
        · simpa using hle
        · have := hy z hz
          simp only [decide_eq_true_eq]
          omega
      rw [orderedInsert_cons_of_le (fun a b => key a ≤ key b) _ hle, hnone]
      rfl
    · obtain ⟨above, habove⟩ := ih hrest
      refine ⟨above, ?_⟩
      rw [orderedInsert_of_not_le (fun a b => key a ≤ key b) _ hle, habove,
        filter_cons_of_pos (by simpa using hle)]
      rfl

/-- The first element of its key is sorted behind what has a smaller key. -/
theorem insertionSort_eq_append {x : α} {before : List α} (after : List α)
    (h : ∀ y ∈ before, key y ≠ key x) :
    ∃ below above,
      (before ++ x :: after).insertionSort (fun a b => key a ≤ key b) = below ++ x :: above ∧
        below.Perm ((before ++ x :: after).filter fun y => key y < key x) := by
  induction before with
  | nil =>
    have hsorted : (after.insertionSort fun a b => key a ≤ key b).Pairwise
        fun a b => key a ≤ key b := by
      have : Std.Total fun a b : α => key a ≤ key b := ⟨fun a b => Nat.le_total _ _⟩
      have : IsTrans α fun a b => key a ≤ key b := ⟨fun a b c => Nat.le_trans⟩
      exact pairwise_insertionSort _ _
    obtain ⟨above, habove⟩ := orderedInsert_eq_filter_append key (x := x) hsorted
    refine ⟨_, above, habove, ?_⟩
    rw [nil_append, filter_cons_of_neg (by simp)]
    exact (perm_insertionSort _ _).filter _
  | cons y before ih =>
    obtain ⟨below, above, hsort, hperm⟩ := ih fun z hz => h z (mem_cons_of_mem y hz)
    have hy := h y mem_cons_self
    rw [cons_append, insertionSort_cons, hsort]
    by_cases hlt : key y < key x
    · refine ⟨_, above, orderedInsert_append_of_le key above (Nat.le_of_lt hlt), ?_⟩
      rw [filter_cons_of_pos (by simpa using hlt)]
      exact (perm_orderedInsert _ _ _).trans (hperm.cons y)
    · have hbelow : ∀ z ∈ below ++ [x], key z < key y := by
        intro z hz
        rcases mem_append.mp hz with hz | hz
        · have hkey := of_mem_filter (hperm.mem_iff.mp hz)
          rw [decide_eq_true_eq] at hkey
          omega
        · rw [mem_singleton.mp hz]
          omega
      refine ⟨below, above.orderedInsert (fun a b => key a ≤ key b) y, ?_, ?_⟩
      · have hinsert := orderedInsert_append_of_lt key above hbelow
        rwa [append_assoc, append_assoc] at hinsert
      · rw [filter_cons_of_neg (by simpa using hlt)]
        exact hperm

end LlmService.StableSort
