/-!
# Program logics

A program logic says of a program in a monad that its value has a property,
and whatever else it is about. Its rules follow the structure of a program, so
that a program written over an interface of operations is treated once, for
every logic that has rules for the operations.
-/

namespace LlmService

/-- A judgement with the rules for values and for programs in two parts. -/
structure ProgramLogic (m : Type → Type) [Monad m] where
  Holds : {β : Type} → (β → Prop) → m β → Prop
  pure : ∀ {β : Type} {post : β → Prop} {b : β}, post b → Holds post (pure b)
  bind : ∀ {β γ : Type} {post : β → Prop} {last : γ → Prop} {p : m β} {f : β → m γ},
    Holds post p → (∀ b, post b → Holds last (f b)) → Holds last (p >>= f)

namespace ProgramLogic

variable {m : Type → Type} [Monad m] (L : ProgramLogic m) {β : Type}

/-- The program has the judgement, whatever its value is. -/
def Runs (p : m β) : Prop := L.Holds (fun _ => True) p

variable {L}

theorem runs_pure {b : β} : L.Runs (Pure.pure b : m β) := L.pure trivial

theorem runs_bind {γ : Type} {p : m β} {f : β → m γ} (hp : L.Runs p) (hf : ∀ b, L.Runs (f b)) :
    L.Runs (p >>= f) := L.bind hp fun b _ => hf b

end ProgramLogic

end LlmService
