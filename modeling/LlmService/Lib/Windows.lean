import Mathlib.Algebra.Order.Group.Defs
import Mathlib.Algebra.Order.Group.Unbundled.Basic
import Mathlib.Data.List.Basic

/-!
# Rates over every window

What has been admitted is a list of times, and a rate bounds how many of them
lie in any window of a length, wherever it begins. A limiter that looks back
over one window keeps its limit in every window. A limiter that counts from one
reset to the next, and is not reset sooner than a window behind the count that
it ends, keeps twice its limit: a window meets no more than two counts.
-/

namespace LlmService.Windows

variable {K : Type _} [AddCommGroup K] [LinearOrder K] {w reset t : K}
  {n : Nat} {ts older prev cur : List K}

/-- The times in the window of length `w` that begins at `since`. -/
def within (w since : K) (ts : List K) : List K := ts.filter fun t => since ≤ t ∧ t < since + w

/-- No window of length `w` has more than `n` of the times. -/
def AtMost (w : K) (n : Nat) (ts : List K) : Prop := ∀ since, (within w since ts).length ≤ n

theorem atMost_nil : AtMost w n [] := fun _ => Nat.zero_le n

theorem within_append (since : K) (ts us : List K) :
    within w since (ts ++ us) = within w since ts ++ within w since us := List.filter_append ..

theorem within_eq_nil {since : K} (h : ∀ t ∈ ts, ¬ (since ≤ t ∧ t < since + w)) : within w since ts = [] := by
  rw [within, List.filter_eq_nil_iff]
  intro t ht
  simpa using h t ht

theorem length_within_le (since : K) (ts : List K) : (within w since ts).length ≤ ts.length :=
  List.length_filter_le ..

theorem AtMost.mono {m : Nat} (h : AtMost w n ts) (hnm : n ≤ m) : AtMost w m ts :=
  fun since => (h since).trans hnm

/-- One more is admitted where fewer than `n` are recent. -/
theorem AtMost.snoc [IsOrderedAddMonoid K] (h : AtMost w n ts) (hrecent : (ts.filter fun x => t - x < w).length < n) :
    AtMost w n (ts ++ [t]) := by
  intro since
  rw [within_append, List.length_append]
  by_cases ht : since ≤ t ∧ t < since + w
  · -- what is in a window with `t` is recent at `t`
    have hsub : (within w since ts).length ≤ (ts.filter fun x => t - x < w).length := by
      refine (List.monotone_filter_right ts ?_).length_le
      intro x hx
      obtain ⟨hsince, -⟩ := of_decide_eq_true hx
      refine decide_eq_true ?_
      rw [sub_lt_iff_lt_add]
      exact ht.2.trans_le (by rw [add_comm]; exact add_le_add_right hsince w)
    have hone : (within w since [t]).length ≤ 1 := length_within_le since [t]
    omega
  · have hnone : within w since [t] = [] := within_eq_nil (by simpa using ht)
    rw [hnone]
    exact h since

/-- What a counter has admitted: before its last count, in its last count, and since its reset. -/
structure Counted (w : K) (n : Nat) (reset : K) (older prev cur : List K) : Prop where
  before : AtMost w (2 * n) (older ++ prev)
  older_le : ∀ x ∈ older, x ≤ reset - w
  prev_le : ∀ x ∈ older ++ prev, x ≤ reset
  cur_ge : ∀ x ∈ cur, reset ≤ x
  prev_length : prev.length ≤ n
  cur_length : cur.length ≤ n

theorem counted_nil (w reset : K) (n : Nat) : Counted w n reset [] [] [] :=
  ⟨atMost_nil, List.forall_mem_nil _, List.forall_mem_nil _, List.forall_mem_nil _, Nat.zero_le n, Nat.zero_le n⟩

/-- A window meets no more than two counts. -/
theorem Counted.atMost [IsOrderedAddMonoid K] (h : Counted w n reset older prev cur) :
    AtMost w (2 * n) (older ++ prev ++ cur) := by
  intro since
  rw [within_append, List.length_append]
  by_cases hcur : ∃ y ∈ cur, since ≤ y ∧ y < since + w
  · obtain ⟨y, hy, -, hlt⟩ := hcur
    have hreset : reset - w < since := by
      rw [sub_lt_iff_lt_add]
      exact (h.cur_ge y hy).trans_lt hlt
    have holder : within w since older = [] := within_eq_nil fun x hx hin =>
      absurd hin.1 (not_le_of_gt ((h.older_le x hx).trans_lt hreset))
    have hprev := (length_within_le (w := w) since prev).trans h.prev_length
    have hlast := (length_within_le (w := w) since cur).trans h.cur_length
    rw [within_append, holder, List.nil_append]
    omega
  · have hnone : within w since cur = [] := within_eq_nil fun y hy hin => hcur ⟨y, hy, hin⟩
    rw [hnone]
    exact h.before since

/-- One more is admitted where the count is below `n`. -/
theorem Counted.snoc (h : Counted w n reset older prev cur) (ht : reset ≤ t) (hlt : cur.length < n) :
    Counted w n reset older prev (cur ++ [t]) where
  before := h.before
  older_le := h.older_le
  prev_le := h.prev_le
  cur_ge := by
    intro x hx
    rcases List.mem_append.mp hx with hx | hx
    · exact h.cur_ge x hx
    · rw [List.mem_singleton.mp hx]
      exact ht
  prev_length := h.prev_length
  cur_length := by
    rw [List.length_append, List.length_singleton]
    exact hlt

/-- A reset, a window behind what was admitted before the count. -/
theorem Counted.turn [IsOrderedAddMonoid K] (h : Counted w n reset older prev cur) (hpast : ∀ x ∈ older ++ prev ++ cur, x ≤ t)
    (hold : ∀ x ∈ older ++ prev, x ≤ t - w) : Counted w n t (older ++ prev) cur [] where
  before := h.atMost
  older_le := hold
  prev_le := hpast
  cur_ge := List.forall_mem_nil _
  prev_length := h.cur_length
  cur_length := Nat.zero_le n

end LlmService.Windows
