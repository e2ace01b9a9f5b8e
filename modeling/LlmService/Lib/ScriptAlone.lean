import LlmService.Lib.Script

/-!
# A script alone on its state

When no other script acts between its commands, a script is a partial
function of the state: each command is answered by the state that the one
before has left.
-/

namespace LlmService

namespace Script

variable {C : Type} {R : C → Type} {ε α β σ : Type} {exec : (c : C) → σ → Option (R c × σ)}

/-- Run a script to its end; `none` where a command is not answered. -/
def alone (exec : (c : C) → σ → Option (R c × σ)) : Script R ε α → σ → Option (Except ε α × σ)
  | .pure a, s => some (.ok a, s)
  | .raise e, s => some (.error e, s)
  | .call c rest, s =>
    match exec c s with
    | some (r, t) => alone exec (rest r) t
    | none => none

@[simp] theorem alone_pure (a : α) (s : σ) :
    alone exec (pure a : Script R ε α) s = some (.ok a, s) := rfl

theorem alone_command_bind {c : C} {f : R c → Script R ε β} {s t : σ} {r : R c}
    (h : exec c s = some (r, t)) : alone exec (command c >>= f) s = alone exec (f r) t := by
  show alone exec (.call c f) s = _
  rw [alone, h]

theorem alone_command {c : C} {s t : σ} {r : R c} (h : exec c s = some (r, t)) :
    alone exec (command c : Script R ε (R c)) s = some (.ok r, t) := by
  rw [command, alone, h]
  rfl

end Script

end LlmService
