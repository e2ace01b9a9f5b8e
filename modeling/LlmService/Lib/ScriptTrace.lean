import LlmService.Lib.Script

/-!
# Traces of a script

A trace of a script is a list of commands, each with its answer, along which
the script comes to its end. A script has a trace for everything that its
environment may answer, so that a fact about all traces is a fact about all
runs. `follow` is the run in which every command gets the same answer, and
`followFrom` the one in which its answer depends on those before it.
-/

namespace LlmService

namespace Script

variable {C : Type} {R : C → Type} {ε α β γ : Type}

theorem bind_pure_comp_self (p : Script R ε α) : p.bind .pure = p := by
  induction p with
  | pure a => rfl
  | raise e => rfl
  | call c rest ih => exact congrArg (Script.call c) (funext ih)

theorem bind_bind (p : Script R ε α) (f : α → Script R ε β) (g : β → Script R ε γ) :
    (p.bind f).bind g = p.bind fun a => (f a).bind g := by
  induction p with
  | pure a => rfl
  | raise e => rfl
  | call c rest ih => exact congrArg (Script.call c) (funext ih)

instance : LawfulMonad (Script R ε) :=
  LawfulMonad.mk' (Script R ε) bind_pure_comp_self (fun _ _ => rfl) bind_bind

/-- The script may be answered along the trace, and ends with the result. -/
inductive Trace : Script R ε α → List (Σ c, R c) → Except ε α → Prop
  | pure (a : α) : Trace (.pure a) [] (.ok a)
  | raise (e : ε) : Trace (.raise e) [] (.error e)
  | call {c : C} {rest : R c → Script R ε α} {answer : R c} {t : List (Σ c, R c)}
      {r : Except ε α} : Trace (rest answer) t r → Trace (.call c rest) (⟨c, answer⟩ :: t) r

section Rules

variable {p : Script R ε α} {f : α → Script R ε β} {t : List (Σ c, R c)} {a : α} {b : β} {e : ε}

@[simp] theorem trace_pure_iff {r : Except ε α} :
    (Pure.pure a : Script R ε α).Trace t r ↔ t = [] ∧ r = .ok a := by
  constructor
  · intro h
    cases h with
    | pure a => exact ⟨rfl, rfl⟩
  · intro h
    obtain ⟨rfl, rfl⟩ := h
    exact .pure a

@[simp] theorem trace_throw_iff {r : Except ε α} :
    (throw e : Script R ε α).Trace t r ↔ t = [] ∧ r = .error e := by
  constructor
  · intro h
    cases h with
    | raise e => exact ⟨rfl, rfl⟩
  · intro h
    obtain ⟨rfl, rfl⟩ := h
    exact .raise e

theorem trace_command_bind_iff {c : C} {f : R c → Script R ε β} {r : Except ε β} :
    (command c >>= f).Trace t r
      ↔ ∃ answer t', t = ⟨c, answer⟩ :: t' ∧ (f answer).Trace t' r := by
  constructor
  · intro h
    cases h with
    | call h => exact ⟨_, _, rfl, h⟩
  · intro h
    obtain ⟨answer, t', rfl, h⟩ := h
    exact .call h

/-- A script in two parts: the first raises, or the second runs behind it. -/
theorem trace_bind_iff {r : Except ε β} :
    (p >>= f).Trace t r
      ↔ (∃ e, p.Trace t (.error e) ∧ r = .error e)
        ∨ ∃ a t₁ t₂, p.Trace t₁ (.ok a) ∧ (f a).Trace t₂ r ∧ t = t₁ ++ t₂ := by
  induction p generalizing t with
  | pure a =>
    constructor
    · intro h
      exact .inr ⟨a, [], t, .pure a, h, rfl⟩
    · intro h
      rcases h with ⟨e, h, -⟩ | ⟨a', t₁, t₂, h, hf, rfl⟩
      · cases h
      · cases h
        exact hf
  | raise e =>
    constructor
    · intro h
      cases h with
      | raise e => exact .inl ⟨e, .raise e, rfl⟩
    · intro h
      rcases h with ⟨e', h, rfl⟩ | ⟨a', t₁, t₂, h, hf, rfl⟩
      · cases h
        exact .raise e
      · cases h
  | call c rest ih =>
    constructor
    · intro h
      cases h with
      | call h =>
        rcases (ih _).mp h with ⟨e, he, rfl⟩ | ⟨a, t₁, t₂, ha, hf, rfl⟩
        · exact .inl ⟨e, .call he, rfl⟩
        · exact .inr ⟨a, _ :: t₁, t₂, .call ha, hf, rfl⟩
    · intro h
      rcases h with ⟨e, h, rfl⟩ | ⟨a, t₁, t₂, h, hf, rfl⟩
      · cases h with
        | call h => exact .call ((ih _).mpr (.inl ⟨e, h, rfl⟩))
      · cases h with
        | call h => exact .call ((ih _).mpr (.inr ⟨a, _, t₂, h, hf, rfl⟩))

/-- A script in two parts that returns: both parts return. -/
theorem trace_bind_ok_iff :
    (p >>= f).Trace t (.ok b)
      ↔ ∃ a t₁ t₂, p.Trace t₁ (.ok a) ∧ (f a).Trace t₂ (.ok b) ∧ t = t₁ ++ t₂ := by
  rw [trace_bind_iff, or_iff_right]
  intro h
  obtain ⟨e, -, he⟩ := h
  cases he

/-- A handler runs behind what has raised. -/
theorem trace_handle_iff {f : ε → Script R ε α} {r : Except ε α} :
    (tryCatch p f).Trace t r
      ↔ (∃ a, p.Trace t (.ok a) ∧ r = .ok a)
        ∨ ∃ e t₁ t₂, p.Trace t₁ (.error e) ∧ (f e).Trace t₂ r ∧ t = t₁ ++ t₂ := by
  induction p generalizing t with
  | pure a =>
    constructor
    · intro h
      cases h with
      | pure a => exact .inl ⟨a, .pure a, rfl⟩
    · intro h
      rcases h with ⟨a', h, rfl⟩ | ⟨e, t₁, t₂, h, hf, rfl⟩
      · cases h
        exact .pure a
      · cases h
  | raise e =>
    constructor
    · intro h
      exact .inr ⟨e, [], t, .raise e, h, rfl⟩
    · intro h
      rcases h with ⟨a', h, -⟩ | ⟨e', t₁, t₂, h, hf, rfl⟩
      · cases h
      · cases h
        exact hf
  | call c rest ih =>
    constructor
    · intro h
      cases h with
      | call h =>
        rcases (ih _).mp h with ⟨a, ha, rfl⟩ | ⟨e, t₁, t₂, he, hf, rfl⟩
        · exact .inl ⟨a, .call ha, rfl⟩
        · exact .inr ⟨e, _ :: t₁, t₂, .call he, hf, rfl⟩
    · intro h
      rcases h with ⟨a, h, rfl⟩ | ⟨e, t₁, t₂, h, hf, rfl⟩
      · cases h with
        | call h => exact .call ((ih _).mpr (.inl ⟨a, h, rfl⟩))
      · cases h with
        | call h => exact .call ((ih _).mpr (.inr ⟨e, _, t₂, h, hf, rfl⟩))

/-- Along a trace a script calls only what it may call. -/
theorem Only.of_trace {P : C → Prop} {r : Except ε α} (hp : p.Only P) (h : p.Trace t r) :
    ∀ step ∈ t, P step.1 := by
  induction h with
  | pure a => exact List.forall_mem_nil _
  | raise e => exact List.forall_mem_nil _
  | call _ ih => exact List.forall_mem_cons.mpr ⟨hp.1, ih (hp.2 _)⟩

theorem Yields.of_trace {P : α → Prop} {r : Except ε α} (hp : p.Yields P) (h : p.Trace t r) :
    ∀ a, r = .ok a → P a := by
  induction h with
  | pure a =>
    intro a' ha'
    obtain rfl := Except.ok.inj ha'
    exact hp
  | raise e =>
    intro a' ha'
    cases ha'
  | call _ ih => exact ih (hp _)

theorem trace_mapM_nil {f : α → Script R ε β} {bs : List β} :
    ([].mapM f).Trace t (.ok bs) ↔ t = [] ∧ bs = [] := by
  rw [List.mapM_nil, trace_pure_iff, Except.ok.injEq]

theorem trace_mapM_cons {f : α → Script R ε β} {as : List α} {bs : List β} :
    ((a :: as).mapM f).Trace t (.ok bs)
      ↔ ∃ b bs' t₁ t₂, (f a).Trace t₁ (.ok b) ∧ (as.mapM f).Trace t₂ (.ok bs')
        ∧ t = t₁ ++ t₂ ∧ bs = b :: bs' := by
  rw [List.mapM_cons, trace_bind_ok_iff]
  constructor
  · intro h
    obtain ⟨b, t₁, t₂, hb, hrest, rfl⟩ := h
    obtain ⟨bs', t₃, t₄, hbs, hpure, rfl⟩ := trace_bind_ok_iff.mp hrest
    obtain ⟨rfl, hbs'⟩ := trace_pure_iff.mp hpure
    exact ⟨b, bs', t₁, t₃, hb, hbs, by rw [List.append_nil], Except.ok.inj hbs'⟩
  · intro h
    obtain ⟨b, bs', t₁, t₂, hb, hbs, rfl, rfl⟩ := h
    refine ⟨b, t₁, t₂, hb, trace_bind_ok_iff.mpr ⟨bs', t₂, [], hbs, ?_, ?_⟩, rfl⟩
    · exact trace_pure_iff.mpr ⟨rfl, rfl⟩
    · rw [List.append_nil]

/-- A list of scripts that raises, too: where the first of them does, or behind it. -/
theorem trace_mapM_cons_cases {f : α → Script R ε β} {as : List α} {r : Except ε (List β)}
    (h : ((a :: as).mapM f).Trace t r) :
    (∃ e, (f a).Trace t (.error e) ∧ r = .error e) ∨
      ∃ b t₁ t₂ r', (f a).Trace t₁ (.ok b) ∧ (as.mapM f).Trace t₂ r' ∧ t = t₁ ++ t₂ ∧
        r = r'.map (b :: ·) := by
  rw [List.mapM_cons] at h
  rcases trace_bind_iff.mp h with ⟨e, he, rfl⟩ | ⟨b, t₁, t₂, hb, hrest, rfl⟩
  · exact .inl ⟨e, he, rfl⟩
  · right
    rcases trace_bind_iff.mp hrest with ⟨e, he, rfl⟩ | ⟨bs, t₃, t₄, hbs, hpure, rfl⟩
    · exact ⟨b, t₁, t₂, .error e, hb, he, rfl, rfl⟩
    · obtain ⟨rfl, rfl⟩ := trace_pure_iff.mp hpure
      exact ⟨b, t₁, t₃, .ok bs, hb, hbs, by rw [List.append_nil], rfl⟩

end Rules

/-- The run in which the answer depends on the command alone. -/
def follow (answer : (c : C) → R c) : Script R ε α → List (Σ c, R c) × Except ε α
  | .pure a => ([], .ok a)
  | .raise e => ([], .error e)
  | .call c rest =>
    let later := (rest (answer c)).follow answer
    (⟨c, answer c⟩ :: later.1, later.2)

theorem trace_follow (answer : (c : C) → R c) (p : Script R ε α) :
    p.Trace (p.follow answer).1 (p.follow answer).2 := by
  induction p with
  | pure a => exact .pure a
  | raise e => exact .raise e
  | call c rest ih => exact .call (ih (answer c))

/-- The run in which the answer depends on the command, and on the trace that lies before it. -/
def followFrom (answer : List (Σ c, R c) → (c : C) → R c) :
    List (Σ c, R c) → Script R ε α → List (Σ c, R c) × Except ε α
  | _, .pure a => ([], .ok a)
  | _, .raise e => ([], .error e)
  | before, .call c rest =>
    let later := followFrom answer (before ++ [⟨c, answer before c⟩]) (rest (answer before c))
    (⟨c, answer before c⟩ :: later.1, later.2)

theorem trace_followFrom (answer : List (Σ c, R c) → (c : C) → R c) (before : List (Σ c, R c))
    (p : Script R ε α) :
    p.Trace (followFrom answer before p).1 (followFrom answer before p).2 := by
  induction p generalizing before with
  | pure a => exact .pure a
  | raise e => exact .raise e
  | call c rest ih => exact .call (ih (answer before c) _)

theorem answer_of_mem_follow {answer : (c : C) → R c} {p : Script R ε α} :
    ∀ step ∈ (p.follow answer).1, step.2 = answer step.1 := by
  induction p with
  | pure a => exact List.forall_mem_nil _
  | raise e => exact List.forall_mem_nil _
  | call c rest ih => exact List.forall_mem_cons.mpr ⟨rfl, ih (answer c)⟩

end Script

end LlmService
