import LlmService.Lib.ScriptTrace
import LlmService.Tools.Dispatcher

/-!
# Retries of a script

`execute_with_retry` of `utils/retry.py`, for an operation that others may run
beside: what it does, and the sleep between two attempts, are scripts. A
cancellation is no `Exception`, and ends the loop wherever it comes.
-/

namespace LlmService

namespace RetryManager

open Script

variable {C : Type} {R : C → Type} {α : Type}

/-- The loop, at an attempt, with the attempts that are left behind it. -/
def retryFrom (policy : RetryPolicy) (sleep : Nat → Script R PyRaise Unit) (func : Script R PyRaise α)
    (attempt : Nat) : Nat → Script R PyRaise α
  | 0 => func
  | left + 1 =>
    tryCatch func fun raised =>
      match raised with
      | .exception exc =>
        if isRetriable (some policy) exc then do
          sleep attempt
          retryFrom policy sleep func (attempt + 1) left
        else throw raised
      | .cancelled => throw raised

def executeWithRetry (policy : RetryPolicy) (sleep : Nat → Script R PyRaise Unit)
    (func : Script R PyRaise α) : Script R PyRaise α :=
  retryFrom policy sleep func 1 (policy.maxAttempts - 1)

/-- A run of the loop: every attempt but the last has failed in a way that is retried. -/
inductive Attempts (policy : RetryPolicy) (sleep : Nat → Script R PyRaise Unit)
    (func : Script R PyRaise α) : Nat → Nat → List (Σ c, R c) → Except PyRaise α → Prop
  | last {attempt left : Nat} {t : List (Σ c, R c)} {r : Except PyRaise α} : func.Trace t r →
    Attempts policy sleep func attempt left t r
  | again {attempt left : Nat} {t u v : List (Σ c, R c)} {exc : Exc} {r : Except PyRaise α} :
    func.Trace t (.error (.exception exc)) → isRetriable (some policy) exc = true →
      (sleep attempt).Trace u (.ok ()) → Attempts policy sleep func (attempt + 1) left v r →
      Attempts policy sleep func attempt (left + 1) (t ++ (u ++ v)) r
  | woken {attempt left : Nat} {t u : List (Σ c, R c)} {exc : Exc} {raised : PyRaise} :
    func.Trace t (.error (.exception exc)) → isRetriable (some policy) exc = true →
      (sleep attempt).Trace u (.error raised) →
      Attempts policy sleep func attempt (left + 1) (t ++ u) (.error raised)

variable {policy : RetryPolicy} {sleep : Nat → Script R PyRaise Unit} {func : Script R PyRaise α}
  {attempt left : Nat} {t : List (Σ c, R c)} {r : Except PyRaise α}

theorem attempts_of_trace (h : (retryFrom policy sleep func attempt left).Trace t r) :
    Attempts policy sleep func attempt left t r := by
  induction left generalizing attempt t with
  | zero => exact .last h
  | succ left ih =>
    rw [retryFrom] at h
    rcases trace_handle_iff.mp h with ⟨a, hfunc, rfl⟩ | ⟨raised, u, v, hfunc, hrest, rfl⟩
    · exact .last hfunc
    · have hthrow : (throw raised : Script R PyRaise α).Trace v r →
          Attempts policy sleep func attempt (left + 1) (u ++ v) r := by
        intro hthrow
        obtain ⟨rfl, rfl⟩ := trace_throw_iff.mp hthrow
        rw [List.append_nil]
        exact .last hfunc
      cases raised with
      | cancelled => exact hthrow hrest
      | exception exc =>
        by_cases hretry : isRetriable (some policy) exc = true
        · simp only [if_pos hretry] at hrest
          rcases trace_bind_iff.mp hrest with ⟨e, hsleep, rfl⟩ | ⟨_, u', v', hsleep, hloop, rfl⟩
          · exact .woken hfunc hretry hsleep
          · exact .again hfunc hretry hsleep (ih hloop)
        · simp only [if_neg hretry] at hrest
          exact hthrow hrest

end RetryManager

end LlmService
