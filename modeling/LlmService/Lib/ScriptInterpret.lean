import LlmService.Lib.ScriptTrace

/-!
# Scripts of other commands

A script becomes one of other commands when each of its commands is carried
out by a script of those. Where these do not raise, a trace of the new script
is one of the old, with the trace of each command in its place.
-/

namespace LlmService

namespace Script

variable {C D : Type} {R : C → Type} {Q : D → Type} {ε α : Type}

/-- Carry out each command of a script by `h`. -/
def interpret (h : (c : C) → Script Q ε (R c)) : Script R ε α → Script Q ε α
  | .pure a => .pure a
  | .raise e => .raise e
  | .call c rest => h c >>= fun r => interpret h (rest r)

/-- A trace in which each command is carried out by `h`. -/
inductive CarriedOut (h : (c : C) → Script Q ε (R c)) : List (Σ c, R c) → List (Σ d, Q d) → Prop
  | nil : CarriedOut h [] []
  | cons {c : C} {r : R c} {T : List (Σ c, R c)} {t t' : List (Σ d, Q d)} :
      (h c).Trace t (.ok r) → CarriedOut h T t' → CarriedOut h (⟨c, r⟩ :: T) (t ++ t')

variable {h : (c : C) → Script Q ε (R c)}

/-- Where no command raises, a run is one of the script that is carried out. -/
theorem exists_carriedOut (hok : ∀ c t e, ¬ (h c).Trace t (.error e)) {p : Script R ε α}
    {t : List (Σ d, Q d)} {r : Except ε α} (ht : (p.interpret h).Trace t r) :
    ∃ T, p.Trace T r ∧ CarriedOut h T t := by
  induction p generalizing t with
  | pure a =>
    obtain ⟨rfl, rfl⟩ := trace_pure_iff.mp ht
    exact ⟨[], .pure a, .nil⟩
  | raise e =>
    obtain ⟨rfl, rfl⟩ := trace_throw_iff.mp ht
    exact ⟨[], .raise e, .nil⟩
  | call c rest ih =>
    rw [interpret] at ht
    rcases trace_bind_iff.mp ht with ⟨e, he, -⟩ | ⟨a, t₁, t₂, hc, hrest, rfl⟩
    · exact absurd he (hok c t e)
    · obtain ⟨T, hT, hcarried⟩ := ih a hrest
      exact ⟨⟨c, a⟩ :: T, .call hT, .cons hc hcarried⟩

theorem CarriedOut.of_mem {T : List (Σ c, R c)} {t : List (Σ d, Q d)} (hT : CarriedOut h T t)
    {step : Σ c, R c} (hstep : step ∈ T) : ∃ t', (h step.1).Trace t' (.ok step.2) := by
  induction hT with
  | nil => exact absurd hstep List.not_mem_nil
  | cons hc _ ih =>
    rcases List.mem_cons.mp hstep with rfl | hstep
    · exact ⟨_, hc⟩
    · exact ih hstep

end Script

end LlmService
