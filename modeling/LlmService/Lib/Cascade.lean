import LlmService.Lib.ScriptTrace

/-!
# Cascades

A cascade runs scripts in turn, up to the first that has something to give.
What is read off a trace, entry by entry, is `Settled` if only its last entry
gives something: the first script that gives ends the cascade, and one behind
which nothing was given hands over to the next.
-/

namespace LlmService

namespace Script

variable {C : Type} {R : C → Type} {ε α β : Type}

/-- The scripts in turn, up to the first that gives something. -/
def firstOf : List (Script R ε (Option α)) → Script R ε (Option α)
  | [] => return none
  | p :: ps => do
    match ← p with
    | some a => return some a
    | none => firstOf ps

/-- The script that ends a cascade: it has given something, or has raised. -/
def Ends (p : Script R ε (Option α)) (t : List (Σ c, R c)) (r : Except ε (Option α)) : Prop :=
  p.Trace t r ∧ r ≠ .ok none

variable {p : Script R ε (Option α)} {ps : List (Script R ε (Option α))} {t : List (Σ c, R c)}
  {r : Except ε (Option α)}

theorem trace_firstOf_cons_iff :
    (firstOf (p :: ps)).Trace t r ↔
      Ends p t r ∨ ∃ u v, p.Trace u (.ok none) ∧ (firstOf ps).Trace v r ∧ t = u ++ v := by
  rw [firstOf, trace_bind_iff]
  constructor
  · intro h
    rcases h with ⟨e, hp, rfl⟩ | ⟨given, u, v, hp, hrest, rfl⟩
    · exact .inl ⟨hp, fun h => by cases h⟩
    · cases given with
      | none => exact .inr ⟨u, v, hp, hrest, rfl⟩
      | some a =>
        obtain ⟨rfl, rfl⟩ := trace_pure_iff.mp hrest
        rw [List.append_nil]
        exact .inl ⟨hp, fun h => by cases h⟩
  · intro h
    rcases h with ⟨hp, hgiven⟩ | ⟨u, v, hp, hrest, rfl⟩
    · cases r with
      | error e => exact .inl ⟨e, hp, rfl⟩
      | ok given =>
        cases given with
        | none => exact absurd rfl hgiven
        | some a => exact .inr ⟨some a, t, [], hp, .pure (some a), (List.append_nil t).symm⟩
    · exact .inr ⟨none, u, v, hp, hrest, rfl⟩

end Script

/-! ## What is read off a trace -/

section Settled

variable {κ α : Type} {as bs : List (κ × Option α)} {given : Option α}

/-- Only the last entry may give something, and that is what is given. -/
def Settled (as : List (κ × Option α)) (given : Option α) : Prop :=
  (∀ a ∈ as.dropLast, a.2 = none) ∧ given = as.getLast?.bind (·.2)

theorem settled_nil : Settled ([] : List (κ × Option α)) none :=
  ⟨List.forall_mem_nil _, rfl⟩

theorem settled_singleton (a : κ × Option α) : Settled [a] a.2 :=
  ⟨List.forall_mem_nil _, rfl⟩

/-- Nothing is given iff no entry gives something. -/
theorem settled_none_iff : Settled as none ↔ ∀ a ∈ as, a.2 = none := by
  induction as using List.reverseRecOn with
  | nil => exact ⟨fun _ => List.forall_mem_nil _, fun _ => settled_nil⟩
  | append_singleton as a ih =>
    rw [Settled, List.dropLast_concat, List.getLast?_concat, Option.bind_some]
    constructor
    · intro h b hb
      rcases List.mem_append.mp hb with hb | hb
      · exact h.1 b hb
      · rw [List.mem_singleton.mp hb]
        exact h.2.symm
    · intro h
      exact ⟨fun b hb => h b (List.mem_append_left [a] hb),
        (h a (List.mem_append_right as List.mem_cons_self)).symm⟩

/-- Behind entries that give nothing, the later ones decide. -/
theorem Settled.append (has : Settled as none) (hbs : Settled bs given) : Settled (as ++ bs) given := by
  have hnone := settled_none_iff.mp has
  cases bs with
  | nil =>
    rw [List.append_nil, hbs.2]
    exact has
  | cons b bs =>
    have hne : b :: bs ≠ [] := List.cons_ne_nil b bs
    constructor
    · intro a ha
      rw [List.dropLast_append_of_ne_nil hne] at ha
      rcases List.mem_append.mp ha with ha | ha
      · exact hnone a ha
      · exact hbs.1 a ha
    · rw [List.getLast?_append, List.getLast?_eq_some_getLast hne, Option.some_or,
        ← List.getLast?_eq_some_getLast hne]
      exact hbs.2

end Settled

end LlmService
