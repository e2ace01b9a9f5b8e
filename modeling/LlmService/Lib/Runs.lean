import Mathlib.Data.List.Induction
import Mathlib.Tactic.ByContra

/-!
# Runs of a labelled step function

A system is a partial step function `step : σ → α → Option σ`: a label
resolves every choice of the environment, so a list of labels determines a
run, and `none` means that the label is not enabled. `Visited` are the
states a run passes through and `StepAt` its steps.

`visited_of_steps` is the run rule for a safety property that some steps
break: it transfers a condition on the single step to every run.
-/

namespace LlmService.Runs

variable {σ α : Type _} (step : σ → α → Option σ)

/-- Take the steps of a list of labels in order. -/
def run : σ → List α → Option σ
  | s, [] => some s
  | s, a :: l => (step s a).bind fun t => run t l

/-- `t` is one of the states that the run from `s` along `l` passes through. -/
def Visited (s : σ) (l : List α) (t : σ) : Prop :=
  ∃ l₁ l₂, l = l₁ ++ l₂ ∧ run step s l₁ = some t

/-- The run from `s` along `l` takes the step `u ─a→ t`. -/
def StepAt (s : σ) (l : List α) (u : σ) (a : α) (t : σ) : Prop :=
  ∃ l₁ l₂, l = l₁ ++ a :: l₂ ∧ run step s l₁ = some u ∧ step u a = some t

/-- The run from `s` along `l` passes through `u`, and later through `t`. -/
def Later (s : σ) (l : List α) (u t : σ) : Prop :=
  ∃ l₁ l₂ l₃, l = l₁ ++ l₂ ++ l₃ ∧ run step s l₁ = some u ∧ run step u l₂ = some t

@[simp] theorem run_nil (s : σ) : run step s [] = some s := rfl

theorem run_cons (s : σ) (a : α) (l : List α) :
    run step s (a :: l) = (step s a).bind fun t => run step t l := rfl

theorem run_append (s : σ) (l₁ l₂ : List α) :
    run step s (l₁ ++ l₂) = (run step s l₁).bind fun t => run step t l₂ := by
  induction l₁ generalizing s with
  | nil => rfl
  | cons a l₁ ih =>
    rw [List.cons_append, run_cons, run_cons]
    cases h : step s a with
    | none => rfl
    | some t => simp only [Option.bind_some, ih t]

theorem run_snoc_iff {s t : σ} {l : List α} {a : α} :
    run step s (l ++ [a]) = some t ↔
      ∃ u, run step s l = some u ∧ step u a = some t := by
  rw [run_append, Option.bind_eq_some_iff]
  have last : ∀ u, run step u [a] = step u a := by
    intro u
    rw [run_cons]
    cases step u a <;> rfl
  simp only [last]

theorem run_eq_foldlM (s : σ) (l : List α) : run step s l = l.foldlM step s := by
  induction l generalizing s with
  | nil => rfl
  | cons a l ih =>
    rw [run_cons, List.foldlM_cons]
    exact Option.bind_congr fun t _ => ih t

variable {step}

/-- Where every step is enabled, every run goes through. -/
theorem exists_run (hstep : ∀ s a, ∃ t, step s a = some t) (s : σ) (l : List α) :
    ∃ t, run step s l = some t := by
  induction l generalizing s with
  | nil => exact ⟨s, rfl⟩
  | cons a l ih =>
    obtain ⟨t, ht⟩ := hstep s a
    rw [run_cons, ht]
    exact ih t

/-- What one step preserves holds in the last state of every run. -/
theorem run_invariant {Inv : σ → Prop}
    (hstep : ∀ s a t, Inv s → step s a = some t → Inv t)
    {s t : σ} {l : List α} (hs : Inv s) (h : run step s l = some t) : Inv t := by
  induction l generalizing s with
  | nil =>
    cases h
    exact hs
  | cons a l ih =>
    rw [run_cons] at h
    obtain ⟨u, hu, ht⟩ := Option.bind_eq_some_iff.mp h
    exact ih (hstep s a u hs hu) ht

theorem foldlM_invariant {Inv : σ → Prop}
    (hstep : ∀ s a t, Inv s → step s a = some t → Inv t)
    {s t : σ} {l : List α} (hs : Inv s) (h : l.foldlM step s = some t) : Inv t := by
  rw [← run_eq_foldlM] at h
  exact run_invariant hstep hs h

theorem Visited.invariant {Inv : σ → Prop}
    (hstep : ∀ s a t, Inv s → step s a = some t → Inv t)
    {s t : σ} {l : List α} (hs : Inv s) (h : Visited step s l t) : Inv t := by
  obtain ⟨l₁, _, _, hr⟩ := h
  exact run_invariant hstep hs hr

theorem not_stepAt_nil {s u t : σ} {a : α} : ¬ StepAt step s [] u a t := by
  intro h
  obtain ⟨l₁, l₂, hsplit, -⟩ := h
  simp at hsplit

/-- The steps of a run are its first step and those of the rest. -/
theorem stepAt_cons_iff {s u t : σ} {a b : α} {l : List α} :
    StepAt step s (a :: l) u b t ↔
      (u = s ∧ b = a ∧ step s a = some t) ∨ ∃ v, step s a = some v ∧ StepAt step v l u b t := by
  constructor
  · intro h
    obtain ⟨l₁, l₂, hsplit, hrun, hstep⟩ := h
    cases l₁ with
    | nil =>
      obtain ⟨rfl, rfl⟩ := List.cons.inj hsplit
      cases hrun
      exact .inl ⟨rfl, rfl, hstep⟩
    | cons c l₁ =>
      obtain ⟨rfl, rfl⟩ := List.cons.inj hsplit
      rw [run_cons] at hrun
      obtain ⟨v, hv, hrun⟩ := Option.bind_eq_some_iff.mp hrun
      exact .inr ⟨v, hv, l₁, l₂, rfl, hrun, hstep⟩
  · intro h
    rcases h with ⟨rfl, rfl, hstep⟩ | ⟨v, hv, l₁, l₂, rfl, hrun, hstep⟩
    · exact ⟨[], l, rfl, rfl, hstep⟩
    · refine ⟨a :: l₁, l₂, rfl, ?_, hstep⟩
      rw [run_cons, hv, Option.bind_some]
      exact hrun

variable (step) in
/-- Every step that the run takes satisfies `P`: a check that goes along the run. -/
def EveryStep (P : σ → α → Prop) : σ → List α → Prop
  | _, [] => True
  | s, a :: l => ∀ t ∈ step s a, P s a ∧ EveryStep P t l

instance {P : σ → α → Prop} [∀ s a, Decidable (P s a)] :
    ∀ s l, Decidable (EveryStep step P s l)
  | _, [] => isTrue trivial
  | s, a :: l =>
    have : ∀ t, Decidable (EveryStep step P t l) := fun t => instDecidableEveryStep t l
    inferInstanceAs (Decidable (∀ t ∈ step s a, P s a ∧ EveryStep step P t l))

theorem everyStep_iff {P : σ → α → Prop} {s : σ} {l : List α} :
    EveryStep step P s l ↔ ∀ u a t, StepAt step s l u a t → P u a := by
  induction l generalizing s with
  | nil => exact iff_of_true trivial fun _ _ _ h => absurd h not_stepAt_nil
  | cons a l ih =>
    simp only [EveryStep, ih, stepAt_cons_iff]
    constructor
    · intro h u b t hstep
      rcases hstep with ⟨rfl, rfl, hstep⟩ | ⟨v, hv, hstep⟩
      · exact (h t hstep).1
      · exact (h v hv).2 u b t hstep
    · intro h t ht
      exact ⟨h s a t (.inl ⟨rfl, rfl, ht⟩), fun u b v hstep => h u b v (.inr ⟨t, ht, hstep⟩)⟩

/-- What every step relates, in states that satisfy an invariant, is related
all along a run. -/
theorem Later.related {Inv : σ → Prop} {Rel : σ → σ → Prop}
    (hinv : ∀ s a t, Inv s → step s a = some t → Inv t)
    (hrefl : ∀ s, Rel s s) (htrans : ∀ s t u, Rel s t → Rel t u → Rel s u)
    (hstep : ∀ s a t, Inv s → step s a = some t → Rel s t)
    {s u t : σ} {l : List α} (hs : Inv s) (h : Later step s l u t) : Rel u t := by
  obtain ⟨l₁, l₂, l₃, -, hu, ht⟩ := h
  have hi := run_invariant hinv hs hu
  clear hu
  induction l₂ generalizing u with
  | nil =>
    cases ht
    exact hrefl _
  | cons a l₂ ih =>
    rw [run_cons] at ht
    obtain ⟨v, hv, ht⟩ := Option.bind_eq_some_iff.mp ht
    exact htrans u v t (hstep u a v hi hv) (ih ht (hinv u a v hi hv))

theorem StepAt.source {s u t : σ} {l : List α} {a : α}
    (h : StepAt step s l u a t) : Visited step s l u := by
  obtain ⟨l₁, l₂, rfl, hr, _⟩ := h
  exact ⟨l₁, a :: l₂, rfl, hr⟩

theorem StepAt.target {s u t : σ} {l : List α} {a : α}
    (h : StepAt step s l u a t) : Visited step s l t := by
  obtain ⟨l₁, l₂, rfl, hr, ha⟩ := h
  exact ⟨l₁ ++ [a], l₂, by simp, (run_snoc_iff step).mpr ⟨u, hr, ha⟩⟩

/-- Every step allowed by `Ok` preserves `Safe` (relative to the invariant
`Inv`): then `Safe` holds all along every run whose steps are `Ok`. -/
theorem visited_of_steps {Inv Safe : σ → Prop} {Ok : σ → α → Prop}
    (hinv : ∀ s a t, Inv s → step s a = some t → Inv t)
    (hsafe : ∀ s a t, Inv s → Safe s → Ok s a → step s a = some t → Safe t)
    {s : σ} {l : List α} (hi : Inv s) (hs : Safe s)
    (hok : ∀ u a t, StepAt step s l u a t → Ok u a) :
    ∀ t, Visited step s l t → Safe t := by
  intro t ht
  obtain ⟨l₁, l₂, rfl, hr⟩ := ht
  induction l₁ using List.reverseRecOn generalizing t l₂ with
  | nil =>
    cases hr
    exact hs
  | append_singleton l₀ a ih =>
    obtain ⟨u, hu, ha⟩ := (run_snoc_iff step).mp hr
    have hl : l₀ ++ [a] ++ l₂ = l₀ ++ a :: l₂ := by simp
    have hsafe_u : Safe u := by
      refine ih u (a :: l₂) hu ?_
      intro v b w hv
      exact hok v b w (hl ▸ hv)
    exact hsafe u a t (run_invariant hinv hi hu) hsafe_u (hok u a t ⟨l₀, l₂, hl, hu, ha⟩) ha

/-- When moreover every step outside `Ok` leaves `Safe`, the condition on
the steps is exact: a run stays `Safe` iff all its steps are `Ok`. -/
theorem visited_iff_steps {Inv Safe : σ → Prop} {Ok : σ → α → Prop}
    (hinv : ∀ s a t, Inv s → step s a = some t → Inv t)
    (hsafe : ∀ s a t, Inv s → Safe s → Ok s a → step s a = some t → Safe t)
    (hbad : ∀ s a t, Inv s → ¬ Ok s a → step s a = some t → ¬ Safe t)
    {s : σ} {l : List α} (hi : Inv s) (hs : Safe s) :
    (∀ t, Visited step s l t → Safe t) ↔ ∀ u a t, StepAt step s l u a t → Ok u a := by
  refine ⟨?_, visited_of_steps hinv hsafe hi hs⟩
  intro h u a t hstep
  by_contra hok
  have hu : Inv u := hstep.source.invariant hinv hi
  obtain ⟨_, _, _, _, ha⟩ := id hstep
  exact hbad u a t hu hok ha (h t hstep.target)

end LlmService.Runs
