import Mathlib.Algebra.Order.Group.Defs
import Mathlib.Algebra.Order.Group.Unbundled.Basic
import Mathlib.Data.List.Induction
import Mathlib.Tactic.ByContra

/-!
# Two limiters on one history

A limiter that keeps the times of what it has admitted, and looks back over one
window; and a counter of all calls, which expires a window behind its first
one. The calls are a history of times, each with the limit it comes with. The
two come down on the same side of a limit where fewer calls are recent, and
where the recent calls began behind a quiet window and had no lower limits.
-/

namespace LlmService.Limiters

variable {K : Type _} [AddCommGroup K] [LinearOrder K] (w : K)

/-- The times within a window up to `t`. -/
def recent (t : K) (ts : List K) : List K := ts.filter fun x => t - x < w

/-- A call of the first limiter: when it comes, and its limit. -/
def slide (hits : List K) (call : K × Nat) : List K :=
  if call.2 ≤ (recent w call.1 hits).length then recent w call.1 hits
  else recent w call.1 hits ++ [call.1]

/-- What the first limiter keeps. -/
def hits (past : List (K × Nat)) : List K := past.foldl (slide w) []

/-- A counter, and when it expires. -/
structure Counter (K : Type _) where
  count : Nat := 0
  ends : Option K := none

/-- The counter at a time, at which it may have expired. -/
def Counter.read (c : Counter K) (t : K) : Counter K := if ∃ e ∈ c.ends, e ≤ t then {} else c

/-- A call is counted, whether it is admitted or not; the first one sets the expiry. -/
def Counter.tick (c : Counter K) (t : K) : Counter K where
  count := (c.read t).count + 1
  ends := if (c.read t).count = 0 then some (t + w) else (c.read t).ends

/-- What the second limiter keeps. -/
def counter (past : List (K × Nat)) : Counter K := past.foldl (fun c call => c.tick w call.1) {}

def times (past : List (K × Nat)) : List K := past.map Prod.fst

/-- The calls come in the order of their times, and none behind `t`. -/
def UpTo (past : List (K × Nat)) (t : K) : Prop := (times past ++ [t]).Pairwise (· ≤ ·)

/-- What is not recent any more lies a window before everything that is. -/
def Quiet (past : List (K × Nat)) (t : K) : Prop :=
  ∀ x ∈ times past, ¬ t - x < w → ∀ y ∈ times past, t - y < w → w ≤ y - x

/-- Fewer calls than the limit are recent, or those that are began in the quiet, and had no
lower limits. -/
def FewOrQuiet (past : List (K × Nat)) (t : K) (n : Nat) : Prop :=
  (recent w t (times past)).length < n ∨
    Quiet w past t ∧ ∀ call ∈ past, t - call.1 < w → n ≤ call.2

instance (past : List (K × Nat)) (t : K) : Decidable (UpTo past t) :=
  inferInstanceAs (Decidable (List.Pairwise _ _))

instance (past : List (K × Nat)) (t : K) : Decidable (Quiet w past t) :=
  inferInstanceAs (Decidable (∀ x ∈ times past, _))

instance (past : List (K × Nat)) (t : K) (n : Nat) : Decidable (FewOrQuiet w past t n) :=
  inferInstanceAs (Decidable (_ ∨ _))

variable {w} {past : List (K × Nat)} {call : K × Nat} {s t : K} {ts : List K}

/-! ## One more call -/

theorem hits_concat : hits w (past ++ [call]) = slide w (hits w past) call := List.foldl_append ..

theorem counter_concat : counter w (past ++ [call]) = (counter w past).tick w call.1 :=
  List.foldl_append ..

omit [AddCommGroup K] [LinearOrder K] in
theorem times_concat : times (past ++ [call]) = times past ++ [call.1] := List.map_append ..

omit [AddCommGroup K] in
/-- What is read later on is what is there later on. -/
theorem Counter.read_read (c : Counter K) (hst : s ≤ t) : (c.read s).read t = c.read t := by
  by_cases hexpired : ∃ e ∈ c.ends, e ≤ s
  · obtain ⟨e, he, hle⟩ := hexpired
    have hnow : c.read s = {} := if_pos ⟨e, he, hle⟩
    have hlater : c.read t = {} := if_pos ⟨e, he, hle.trans hst⟩
    rw [hnow, hlater, Counter.read, ite_self]
  · have hnow : c.read s = c := if_neg hexpired
    rw [hnow]

theorem Counter.tick_of_read {c c' : Counter K} (h : c.read t = c'.read t) :
    c.tick w t = c'.tick w t := by
  rw [Counter.tick, Counter.tick, h]

theorem recent_concat (x : K) : recent w t (ts ++ [x]) = recent w t ts ++ recent w t [x] :=
  List.filter_append ..

theorem recent_sublist (ts : List K) : (recent w t ts).Sublist ts := List.filter_sublist

theorem mem_recent {x : K} : x ∈ recent w t ts ↔ x ∈ ts ∧ t - x < w := by
  rw [recent, List.mem_filter, decide_eq_true_iff]

theorem recent_eq_self (h : ∀ x ∈ ts, t - x < w) : recent w t ts = ts :=
  List.filter_eq_self.mpr fun x hx => decide_eq_true (h x hx)

omit [AddCommGroup K] in
theorem UpTo.mem (h : UpTo past t) {x : K} (hx : x ∈ times past) : x ≤ t :=
  (List.pairwise_append.mp h).2.2 x hx t (List.mem_singleton_self t)

omit [AddCommGroup K] in
theorem UpTo.sorted (h : UpTo past t) : (times past).Pairwise (· ≤ ·) := (List.pairwise_append.mp h).1

omit [AddCommGroup K] in
theorem UpTo.of_concat (h : UpTo (past ++ [call]) t) : UpTo past call.1 ∧ call.1 ≤ t := by
  rw [UpTo, times_concat] at h
  refine ⟨(List.pairwise_append.mp h).1, ?_⟩
  exact (List.pairwise_append.mp h).2.2 _ (List.mem_append_right _ (List.mem_singleton_self _)) t
    (List.mem_singleton_self t)

theorem recent_singleton (hcall : t - call.1 < w) : recent w t [call.1] = [call.1] :=
  recent_eq_self fun _ hx => List.mem_singleton.mp hx ▸ hcall

theorem recent_times_concat (hcall : t - call.1 < w) :
    recent w t (times (past ++ [call])) = recent w t (times past) ++ [call.1] := by
  rw [times_concat, recent_concat, recent_singleton hcall]

/-! ## From above -/

/-- The first limiter keeps times of calls. -/
theorem hits_sublist (past : List (K × Nat)) : (hits w past).Sublist (times past) := by
  induction past using List.reverseRecOn with
  | nil => exact List.Sublist.refl _
  | append_singleton past call ih =>
    have hkept := (recent_sublist (w := w) (t := call.1) (hits w past)).trans ih
    rw [hits_concat, times_concat, slide]
    split
    · exact hkept.trans (List.sublist_append_left _ _)
    · exact hkept.append (List.Sublist.refl _)

/-- The counter counts the calls since one of them, and expires a window behind it. -/
theorem counter_spec (past : List (K × Nat)) : ∃ older cur, times past = older ++ cur ∧
    (counter w past).count = cur.length ∧ (counter w past).ends = cur.head?.map (· + w) := by
  induction past using List.reverseRecOn with
  | nil => exact ⟨[], [], rfl, rfl, rfl⟩
  | append_singleton past call ih =>
    obtain ⟨older, cur, hsplit, hcount, hends⟩ := ih
    rw [counter_concat, times_concat, Counter.tick, Counter.read]
    by_cases hexpired : ∃ e ∈ (counter w past).ends, e ≤ call.1
    -- an expired counter begins again with this call
    · rw [if_pos hexpired]
      exact ⟨times past, [call.1], rfl, rfl, rfl⟩
    · rw [if_neg hexpired]
      cases cur with
      | nil =>
        have hzero : (counter w past).count = 0 := hcount
        refine ⟨times past, [call.1], rfl, ?_, ?_⟩
        · simp [hzero]
        · simp [hzero]
      | cons first rest =>
        have hpos : (counter w past).count ≠ 0 := by simp [hcount]
        refine ⟨older, first :: rest ++ [call.1], by rw [hsplit, List.append_assoc], ?_, ?_⟩
        · simp [hcount]
        · simp [hpos, hends]

section Ordered

variable [IsOrderedAddMonoid K]

/-- What is recent later on is recent now. -/
theorem recent_of_later {x : K} (hst : s ≤ t) (h : t - x < w) : s - x < w :=
  (sub_le_sub_right hst x).trans_lt h

/-- A counter that has not expired counts recent calls only. -/
theorem count_read_le (h : UpTo past t) :
    ((counter w past).read t).count ≤ (recent w t (times past)).length := by
  obtain ⟨older, cur, hsplit, hcount, hends⟩ := counter_spec (w := w) past
  rw [Counter.read]
  by_cases hexpired : ∃ e ∈ (counter w past).ends, e ≤ t
  · rw [if_pos hexpired]
    exact Nat.zero_le _
  · rw [if_neg hexpired, hcount, hsplit, recent, List.filter_append, List.length_append]
    have hsorted := h.sorted
    rw [hsplit] at hsorted
    -- the first call that is counted is recent, or the counter had expired
    have hcur : recent w t cur = cur := by
      apply recent_eq_self
      intro x hx
      cases cur with
      | nil => cases hx
      | cons first rest =>
        have hfirst : ¬ first + w ≤ t := fun hle => hexpired ⟨first + w, by rw [hends]; rfl, hle⟩
        have hle : first ≤ x := by
          rcases List.mem_cons.mp hx with rfl | hrest
          · exact le_refl _
          · exact (List.pairwise_cons.mp (List.pairwise_append.mp hsorted).2.1).1 x hrest
        rw [sub_lt_iff_lt_add']
        exact (not_le.mp hfirst).trans_le (add_le_add_left hle w)
    rw [recent] at hcur
    rw [hcur]
    exact Nat.le_add_left _ _

/-! ## From below -/

/-- A quiet window is one for the call before, too, and then the same calls are recent. -/
theorem Quiet.of_concat (h : Quiet w (past ++ [call]) t) (hupto : UpTo (past ++ [call]) t)
    (hcall : t - call.1 < w) :
    Quiet w past call.1 ∧ recent w call.1 (times past) = recent w t (times past) := by
  obtain ⟨-, hle⟩ := hupto.of_concat
  have hnew : call.1 ∈ times (past ++ [call]) := by
    rw [times_concat]
    exact List.mem_append_right _ (List.mem_singleton_self _)
  have hold : ∀ {x}, x ∈ times past → x ∈ times (past ++ [call]) := by
    intro x hx
    rw [times_concat]
    exact List.mem_append_left _ hx
  have hsame : ∀ x ∈ times past, call.1 - x < w → t - x < w := by
    intro x hx hrecent
    by_contra hgone
    exact absurd hrecent (not_lt.mpr (h x (hold hx) hgone _ hnew hcall))
  refine ⟨?_, ?_⟩
  · intro x hx hgone y hy hrecent
    exact h x (hold hx) (fun hlater => hgone (recent_of_later hle hlater)) y (hold hy)
      (hsame y hy hrecent)
  · refine List.filter_congr fun x hx => ?_
    rw [decide_eq_decide]
    exact ⟨hsame x hx, recent_of_later hle⟩

/-- A call that is not recent leaves none that is. -/
theorem recent_eq_nil (h : UpTo (past ++ [call]) t) (hcall : ¬ t - call.1 < w) :
    recent w t (times (past ++ [call])) = [] := by
  rw [recent, List.filter_eq_nil_iff]
  intro x hx
  rw [decide_eq_true_iff]
  intro hrecent
  rw [times_concat] at hx
  rcases List.mem_append.mp hx with hx | hx
  · exact hcall ((sub_le_sub_left (h.of_concat.1.mem hx) t).trans_lt hrecent)
  · rw [List.mem_singleton.mp hx] at hrecent
    exact hcall hrecent

/-- Behind a quiet window the counter counts all that is recent. -/
theorem le_count_read (hupto : UpTo past t) (hquiet : Quiet w past t) :
    (recent w t (times past)).length ≤ ((counter w past).read t).count := by
  induction past using List.reverseRecOn generalizing t with
  | nil => exact Nat.zero_le _
  | append_singleton past call ih =>
    by_cases hcall : t - call.1 < w
    · obtain ⟨hquiet', hsame⟩ := hquiet.of_concat hupto hcall
      obtain ⟨hupto', -⟩ := hupto.of_concat
      have hcount := ih hupto' hquiet'
      have hcount' := count_read_le (w := w) hupto'
      -- the counter has not expired at `t`: it begins with this call, or with one that is recent
      have hlive : ¬ ∃ e ∈ ((counter w past).tick w call.1).ends, e ≤ t := by
        intro hexpired
        obtain ⟨e, he, hle⟩ := hexpired
        rw [Counter.tick] at he
        by_cases hfirst : ((counter w past).read call.1).count = 0
        · rw [if_pos hfirst] at he
          obtain rfl := Option.some.inj he
          rw [sub_lt_iff_lt_add'] at hcall
          exact absurd hle (not_le.mpr hcall)
        · -- the first call that is counted is recent at this one, and so at `t`
          rw [if_neg hfirst, Counter.read] at he
          by_cases hexpired' : ∃ e ∈ (counter w past).ends, e ≤ call.1
          · rw [if_pos hexpired'] at he
            cases he
          · rw [if_neg hexpired'] at he
            obtain ⟨older, cur, hsplit, -, hends⟩ := counter_spec (w := w) past
            have hgt : ¬ e ≤ call.1 := fun hle => hexpired' ⟨e, he, hle⟩
            rw [hends] at he
            obtain ⟨first, hhead, rfl⟩ := Option.map_eq_some_iff.mp he
            have hmem : first ∈ times past := by
              rw [hsplit]
              exact List.mem_append_right _ (List.mem_of_head? hhead)
            have hrecent : first ∈ recent w call.1 (times past) :=
              mem_recent.mpr ⟨hmem, by rw [sub_lt_iff_lt_add']; exact not_le.mp hgt⟩
            rw [hsame] at hrecent
            have hlt := (mem_recent.mp hrecent).2
            rw [sub_lt_iff_lt_add'] at hlt
            exact absurd hle (not_le.mpr hlt)
      rw [recent_times_concat hcall, List.length_append, List.length_singleton, counter_concat,
        Counter.read, if_neg hlive, ← hsame]
      exact Nat.succ_le_succ hcount
    · rw [recent_eq_nil hupto hcall]
      exact Nat.zero_le _

/-- Behind a quiet window, and on no lower limits, the other limiter has admitted as many
of the recent calls as the limit lets it. -/
theorem min_le_hits {n : Nat} (hupto : UpTo past t) (hquiet : Quiet w past t)
    (hlimits : ∀ call ∈ past, t - call.1 < w → n ≤ call.2) :
    min n (recent w t (times past)).length ≤ (recent w t (hits w past)).length := by
  induction past using List.reverseRecOn generalizing t with
  | nil => exact Nat.min_le_right _ _
  | append_singleton past call ih =>
    by_cases hcall : t - call.1 < w
    · obtain ⟨hquiet', hsame⟩ := hquiet.of_concat hupto hcall
      obtain ⟨hupto', hle⟩ := hupto.of_concat
      have hn : n ≤ call.2 := hlimits call (List.mem_append_right _ (List.mem_singleton_self _)) hcall
      -- what is recent at this call is recent at `t`, so no limit among it is lower
      have hbefore := ih hupto' hquiet' (by
        intro earlier hmem hrecent
        refine hlimits earlier (List.mem_append_left _ hmem) ?_
        have hmem' : earlier.1 ∈ recent w call.1 (times past) :=
          mem_recent.mpr ⟨List.mem_map_of_mem hmem, hrecent⟩
        rw [hsame] at hmem'
        exact (mem_recent.mp hmem').2)
      have hkept : ∀ x ∈ recent w call.1 (hits w past), t - x < w := by
        intro x hx
        obtain ⟨hmem, hrecent⟩ := mem_recent.mp hx
        have hmem' : x ∈ recent w call.1 (times past) :=
          mem_recent.mpr ⟨(hits_sublist past).subset hmem, hrecent⟩
        rw [hsame] at hmem'
        exact (mem_recent.mp hmem').2
      rw [recent_times_concat hcall, List.length_append, List.length_singleton, hits_concat, slide,
        ← hsame]
      by_cases hfull : call.2 ≤ (recent w call.1 (hits w past)).length
      · rw [if_pos hfull, recent_eq_self hkept]
        omega
      · rw [if_neg hfull, recent_concat, recent_eq_self hkept, recent_singleton hcall,
          List.length_append, List.length_singleton]
        omega
    · rw [recent_eq_nil hupto hcall, List.length_nil, Nat.min_zero]
      exact Nat.zero_le _

/-- Then a call is admitted by both limiters, or by neither. -/
theorem FewOrQuiet.sides {n : Nat} (h : FewOrQuiet w past t n) (hupto : UpTo past t) :
    (recent w t (hits w past)).length < n ↔ ((counter w past).read t).count < n := by
  have hhits : (recent w t (hits w past)).length ≤ (recent w t (times past)).length :=
    ((hits_sublist past).filter _).length_le
  have hcount := count_read_le (w := w) hupto
  rcases h with hfew | ⟨hquiet, hlimits⟩
  · exact iff_of_true (hhits.trans_lt hfew) (hcount.trans_lt hfew)
  · have hmin := min_le_hits hupto hquiet hlimits
    have hall := le_count_read hupto hquiet
    omega

end Ordered

end LlmService.Limiters
