import LlmService.Basic

/-!
# RetryManager

`execute_with_retry` of `app/utils/retry.py`. The sleep between attempts
changes nothing that a caller sees.
-/

namespace LlmService

variable {σ α : Type}

/-- The loop of `execute_with_retry`, with the attempts that are left after
the next one. -/
def retryLoop (policy : RetryPolicy) (func : EStateM Exc σ α) : Nat → EStateM Exc σ α
  | 0 => func
  | left + 1 =>
    tryCatch func fun exc =>
      if isRetriable (some policy) exc then retryLoop policy func left else throw exc

def executeWithRetry (policy : RetryPolicy) (func : EStateM Exc σ α) : EStateM Exc σ α :=
  retryLoop policy func (policy.maxAttempts - 1)

end LlmService
