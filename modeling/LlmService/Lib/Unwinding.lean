import LlmService.Lib.ProgramLogic
import LlmService.Lib.Runs

/-!
# Unwinding

What an observer learns of a run does not depend on labels that leave its view
alone. Two states are related if they look the same to the observer: a label
that it sees is followed alike from both, a label that it does not see keeps
the states related. Then a run looks as if the unseen labels were not there
(`run_purged`).

`alike` and `keeps` are the logics of stateful programs that the two conditions
come down to.
-/

namespace LlmService.Unwinding

open Runs (run run_cons)

variable {σ α : Type _}

/-- The conditions of unwinding, for labels that are `ok`. -/
structure Unwinds (step : σ → α → Option σ) (ok seen : α → Prop) (view : σ → σ → Prop) : Prop where
  follows : ∀ s t a s', view s t → ok a → seen a → step s a = some s' →
    ∃ t', step t a = some t' ∧ view s' t'
  hides : ∀ s t a s', view s t → ok a → ¬ seen a → step s a = some s' → view s' t

variable {step : σ → α → Option σ} {ok seen : α → Prop} {view : σ → σ → Prop}

/-- A run looks like the one without the labels that are not seen. -/
theorem run_purged [DecidablePred seen] (h : Unwinds step ok seen view) {s t s' : σ} {l : List α}
    (hview : view s t) (hok : ∀ a ∈ l, ok a) (hrun : run step s l = some s') :
    ∃ t', run step t (l.filter seen) = some t' ∧ view s' t' := by
  induction l generalizing s t with
  | nil =>
    obtain rfl := Option.some.inj hrun
    exact ⟨t, rfl, hview⟩
  | cons a l ih =>
    rw [run_cons] at hrun
    obtain ⟨u, hu, hrun⟩ := Option.bind_eq_some_iff.mp hrun
    have ha := hok a List.mem_cons_self
    have hl : ∀ b ∈ l, ok b := fun b hb => hok b (List.mem_cons_of_mem a hb)
    by_cases hseen : seen a
    · obtain ⟨v, hv, hview'⟩ := h.follows s t a u hview ha hseen hu
      obtain ⟨t', ht', hlast⟩ := ih hview' hl hrun
      refine ⟨t', ?_, hlast⟩
      rw [List.filter_cons_of_pos (by simpa using hseen), run_cons, hv]
      exact ht'
    · rw [List.filter_cons_of_neg (by simpa using hseen)]
      exact ih (h.hides s t a u hview ha hseen hu) hl hrun

/-! ## Stateful programs -/

section Programs

variable {σ : Type}

theorem run_bind {β γ : Type} (p : StateM σ β) (f : β → StateM σ γ) (s : σ) :
    (p >>= f).run s = (f (p.run s).1).run (p.run s).2 := rfl

theorem run_get_bind {β : Type} (f : σ → StateM σ β) (s : σ) :
    (get >>= f).run s = (f s).run s := rfl

/-- From related states the program answers alike, and leaves related states. -/
def alike (rel : σ → σ → Prop) : ProgramLogic (StateM σ) where
  Holds post p := ∀ s t, rel s t →
    (p.run s).1 = (p.run t).1 ∧ post (p.run s).1 ∧ rel (p.run s).2 (p.run t).2
  pure h := fun _ _ hrel => ⟨rfl, h, hrel⟩
  bind := by
    intro β γ post last p f hp hf s t h
    obtain ⟨heq, hpost, hrel⟩ := hp s t h
    rw [run_bind, run_bind, ← heq]
    exact hf (p.run s).1 hpost _ _ hrel

/-- The program keeps a property of the state. -/
def keeps (inv : σ → Prop) : ProgramLogic (StateM σ) where
  Holds post p := ∀ s, inv s → post (p.run s).1 ∧ inv (p.run s).2
  pure h := fun _ hinv => ⟨h, hinv⟩
  bind := by
    intro β γ post last p f hp hf s h
    obtain ⟨hpost, hinv⟩ := hp s h
    rw [run_bind]
    exact hf (p.run s).1 hpost _ hinv

end Programs

end LlmService.Unwinding
