import LlmService.Lib.ScriptTrace
import Mathlib.Algebra.BigOperators.Group.Finset.Basic
import Mathlib.Algebra.BigOperators.Group.Finset.Piecewise

/-!
# What scripts may spend

Commands have a price, and a script spends within a budget if none of its
traces costs more, as long as it is answered as was expected. A command that
is performed takes its price off the budget of its script, so a pool spends,
from any state on, no more than the budgets of its scripts together: however
they are interleaved, and however many of them there are.
-/

namespace LlmService

namespace Script

variable {C : Type} {R : C → Type} {ε α : Type} {heard : (c : C) → R c → Prop} {cost : C → Nat}
  {n m : Nat} {p : Script R ε α} {c : C} {rest : R c → Script R ε α} {r : R c}

/-- The price of the commands along a trace. -/
def price (cost : C → Nat) : List (Σ c, R c) → Nat
  | [] => 0
  | step :: t => cost step.1 + price cost t

@[simp] theorem price_nil : price cost ([] : List (Σ c, R c)) = 0 := rfl

@[simp] theorem price_cons (step : Σ c, R c) (t : List (Σ c, R c)) :
    price cost (step :: t) = cost step.1 + price cost t := rfl

@[simp] theorem price_append (t u : List (Σ c, R c)) :
    price cost (t ++ u) = price cost t + price cost u := by
  induction t with
  | nil => exact (Nat.zero_add _).symm
  | cons step t ih => rw [List.cons_append, price_cons, price_cons, ih, Nat.add_assoc]

theorem price_eq_zero_iff {t : List (Σ c, R c)} : price cost t = 0 ↔ ∀ step ∈ t, cost step.1 = 0 := by
  induction t with
  | nil => exact ⟨fun _ => List.forall_mem_nil _, fun _ => rfl⟩
  | cons step t ih => rw [price_cons, Nat.add_eq_zero_iff, ih, List.forall_mem_cons]

/-- Whatever is heard, the script spends at most `n`. -/
def Spends (heard : (c : C) → R c → Prop) (cost : C → Nat) (n : Nat) (p : Script R ε α) : Prop :=
  ∀ t r, p.Trace t r → (∀ step ∈ t, heard step.1 step.2) → price cost t ≤ n

theorem Spends.mono (h : p.Spends heard cost n) (hnm : n ≤ m) : p.Spends heard cost m :=
  fun t r ht hheard => (h t r ht hheard).trans hnm

/-- Who hears less spends less. -/
theorem Spends.restrict {heard' : (c : C) → R c → Prop} (h : p.Spends heard cost n)
    (hrestrict : ∀ c r, heard' c r → heard c r) : p.Spends heard' cost n :=
  fun t r ht hheard => h t r ht fun step hstep => hrestrict _ _ (hheard step hstep)

/-- What is left of a script spends no more than the script. -/
theorem Spends.rest_of_call (h : (Script.call c rest).Spends heard cost n) (hr : heard c r) :
    (rest r).Spends heard cost n := by
  intro t e ht hheard
  have hcall := h (⟨c, r⟩ :: t) e (.call ht) (List.forall_mem_cons.mpr ⟨hr, hheard⟩)
  rw [price_cons] at hcall
  exact (Nat.le_add_left _ _).trans hcall

theorem Spends.of_finished (hfinished : p.Finished) : p.Spends heard cost 0 := by
  intro t e ht _
  cases ht with
  | pure a | raise e => exact Nat.le_refl 0
  | call h => exact hfinished.elim

/-- A command that is answered takes its price off the budget. -/
theorem Spends.answered (hanswer : ∀ c, ∃ r, heard c r) (h : (Script.call c rest).Spends heard cost n)
    (hr : heard c r) : cost c ≤ n ∧ (rest r).Spends heard cost (n - cost c) := by
  have hspent : ∀ t e, (rest r).Trace t e → (∀ step ∈ t, heard step.1 step.2) →
      cost c + price cost t ≤ n := by
    intro t e ht hheard
    have hcall := h (⟨c, r⟩ :: t) e (.call ht) (List.forall_mem_cons.mpr ⟨hr, hheard⟩)
    rwa [price_cons] at hcall
  constructor
  · choose answer hanswer using hanswer
    have hfollow := hspent _ _ (trace_follow answer (rest r)) (by
      intro step hstep
      rw [answer_of_mem_follow step hstep]
      exact hanswer step.1)
    omega
  · intro t e ht hheard
    have hsum := hspent t e ht hheard
    omega

end Script

namespace Pool

open Script Runs

variable {C : Type} {R : C → Type} {ε α ω η σ : Type} (exec : (c : C) → ω → σ → Option (R c × σ))
  (disturb : η → σ → Option σ)

/-- The command that a step performs, with its answer. -/
def executed (s : Pool σ (Script R ε α)) : Label ω η → Option (Σ c, R c)
  | .work i w =>
    match s.scripts[i]? with
    | some (.call c _) => (exec c w s.shared).map fun answer => ⟨c, answer.1⟩
    | _ => none
  | .other _ => none

/-- What is performed along a run. -/
def performed : Pool σ (Script R ε α) → List (Label ω η) → List (Σ c, R c)
  | _, [] => []
  | s, a :: l =>
    match step exec disturb s a with
    | none => []
    | some t => (executed exec s a).toList ++ performed t l

variable {exec disturb} {heard : (c : C) → R c → Prop} {cost : C → Nat} {n : Nat → Nat}
  {s t : Pool σ (Script R ε α)} {a : Label ω η} {l : List (Label ω η)}

theorem performed_cons (h : step exec disturb s a = some t) (l : List (Label ω η)) :
    performed exec disturb s (a :: l) = (executed exec s a).toList ++ performed exec disturb t l := by
  rw [performed, h]

/-- What is executed is the command that the step runs. -/
theorem executed_work {i : Nat} {w : ω} {c : C} {rest : R c → Script R ε α} {r : R c} {u : σ}
    (hp : s.scripts[i]? = some (.call c rest)) (hexec : exec c w s.shared = some (r, u)) :
    executed exec s (.work i w : Label ω η) = some ⟨c, r⟩ := by
  simp only [executed, hp, hexec, Option.map_some]

/-- The script at `i` takes a step. -/
def begun (l : List (Label ω η)) (i : Nat) : Bool :=
  l.any fun a =>
    match a with
    | .work j _ => j = i
    | .other _ => false

/-- A script that takes no step stays as it is. -/
theorem getElem?_of_not_begun {i : Nat} (h : run (Pool.step exec disturb) s l = some t)
    (hi : begun l i = false) : t.scripts[i]? = s.scripts[i]? := by
  induction l generalizing s with
  | nil =>
    obtain rfl := Option.some.inj h
    rfl
  | cons a l ih =>
    rw [run_cons] at h
    obtain ⟨u, hu, hrun⟩ := Option.bind_eq_some_iff.mp h
    rw [begun, List.any_cons, Bool.or_eq_false_iff] at hi
    rw [ih hrun hi.2]
    cases a with
    | work j w =>
      obtain ⟨c, rest, r, v, -, -, rfl⟩ := step_work_iff.mp hu
      exact List.getElem?_set_ne (of_decide_eq_false hi.1)
    | other e =>
      obtain ⟨v, -, rfl⟩ := step_other_iff.mp hu
      rfl

/-- Each script has its budget. -/
def Budgeted (heard : (c : C) → R c → Prop) (cost : C → Nat) (n : Nat → Nat)
    (s : Pool σ (Script R ε α)) : Prop :=
  ∀ i (p : Script R ε α), s.scripts[i]? = some p → p.Spends heard cost (n i)

/-- A step takes what it costs off the budgets. -/
theorem Budgeted.step (hanswer : ∀ c, ∃ r, heard c r) (hs : Budgeted heard cost n s)
    (h : step exec disturb s a = some t) (hheard : ∀ x ∈ executed exec s a, heard x.1 x.2) :
    ∃ n', Budgeted heard cost n' t ∧
      price cost (executed exec s a).toList + ∑ i ∈ Finset.range t.scripts.length, n' i ≤
        ∑ i ∈ Finset.range s.scripts.length, n i := by
  have hlength := step_length h
  cases a with
  | other e =>
    obtain ⟨u, -, rfl⟩ := step_other_iff.mp h
    refine ⟨n, hs, ?_⟩
    show 0 + _ ≤ _
    rw [Nat.zero_add]
  | work i w =>
    obtain ⟨c, rest, r, u, hp, hexec, rfl⟩ := step_work_iff.mp h
    have hexecuted : executed exec s (.work i w : Label ω η) = some ⟨c, r⟩ := executed_work hp hexec
    have hi := (List.getElem?_eq_some_iff.mp hp).1
    obtain ⟨hcost, hrest⟩ := (hs i _ hp).answered hanswer (hheard _ hexecuted)
    refine ⟨Function.update n i (n i - cost c), ?_, ?_⟩
    · intro j p hj
      by_cases hij : i = j
      · subst hij
        rw [List.getElem?_set_self hi] at hj
        obtain rfl := Option.some.inj hj
        rw [Function.update_self]
        exact hrest
      · rw [List.getElem?_set_ne hij] at hj
        rw [Function.update_of_ne (Ne.symm hij)]
        exact hs j p hj
    · have hmem : i ∈ Finset.range s.scripts.length := Finset.mem_range.mpr hi
      have hsum := Finset.sum_update_of_mem hmem n (n i - cost c)
      have hsplit := Finset.add_sum_erase (Finset.range s.scripts.length) n hmem
      rw [Finset.sdiff_singleton_eq_erase] at hsum
      rw [hexecuted, hlength, hsum]
      show cost c + 0 + _ ≤ _
      omega

/-- From a state on, a pool spends no more than what its scripts may. -/
theorem Budgeted.run (hanswer : ∀ c, ∃ r, heard c r) (hs : Budgeted heard cost n s)
    (h : run (Pool.step exec disturb) s l = some t)
    (hheard : ∀ x ∈ performed exec disturb s l, heard x.1 x.2) :
    price cost (performed exec disturb s l) ≤ ∑ i ∈ Finset.range s.scripts.length, n i := by
  induction l generalizing s n with
  | nil => exact Nat.zero_le _
  | cons a l ih =>
    rw [run_cons] at h
    obtain ⟨u, hu, hrun⟩ := Option.bind_eq_some_iff.mp h
    rw [performed_cons hu] at hheard ⊢
    obtain ⟨n', hn', hspent⟩ := hs.step hanswer hu fun x hx =>
      hheard x (List.mem_append_left _ (Option.mem_toList.mpr hx))
    have hlater := ih hn' hrun fun x hx => hheard x (List.mem_append_right _ hx)
    rw [price_append]
    omega

/-- What every step preserves of the states, and has of what it performs, a run has. -/
theorem performed_invariant {Inv : Pool σ (Script R ε α) → Prop} {P Q : (Σ c, R c) → Prop}
    (hstep : ∀ s a t, Inv s → step exec disturb s a = some t → (∀ x ∈ executed exec s a, P x) →
      Inv t ∧ ∀ x ∈ executed exec s a, Q x)
    (hs : Inv s) (h : run (Pool.step exec disturb) s l = some t)
    (hP : ∀ x ∈ performed exec disturb s l, P x) : Inv t ∧ ∀ x ∈ performed exec disturb s l, Q x := by
  induction l generalizing s with
  | nil =>
    obtain rfl := Option.some.inj h
    exact ⟨hs, List.forall_mem_nil _⟩
  | cons a l ih =>
    rw [run_cons] at h
    obtain ⟨u, hu, hrun⟩ := Option.bind_eq_some_iff.mp h
    rw [performed_cons hu] at hP ⊢
    obtain ⟨hinv, hfirst⟩ := hstep s a u hs hu fun x hx =>
      hP x (List.mem_append_left _ (Option.mem_toList.mpr hx))
    obtain ⟨hlast, hlater⟩ := ih hinv hrun fun x hx => hP x (List.mem_append_right _ hx)
    refine ⟨hlast, List.forall_mem_append.mpr ⟨?_, hlater⟩⟩
    intro x hx
    exact hfirst x (Option.mem_toList.mp hx)

end Pool

end LlmService
