import Mathlib.Data.List.Basic

/-!
# Attempt policy

`visualization/policy.py`: how many attempts a block has, and what follows a
failed one.
-/

namespace LlmService

/-- `FailureCategory`. -/
inductive FailureCategory where
  | invalidSpec | unsupportedTemplate | sourceSyntax | renderError | invalidOutput | timeout
  | resourceLimit | storageFailure | workerUnavailable | cancelled | expired | disabled
  | unauthorized | budgetExhausted
  deriving DecidableEq, Repr

namespace FailureCategory

/-- A corrected specification can fix these. -/
def repairable : List FailureCategory :=
  [.invalidSpec, .unsupportedTemplate, .sourceSyntax, .renderError, .invalidOutput]

/-- The same input may succeed again later. -/
def transient : List FailureCategory := [.storageFailure, .workerUnavailable, .timeout]

/-- Never retried. -/
def permanent : List FailureCategory :=
  [.disabled, .unauthorized, .budgetExhausted, .cancelled, .expired, .resourceLimit]

end FailureCategory

/-- What `next_step` returns. -/
inductive NextStep where
  | repair | retry | giveUp
  deriving DecidableEq, Repr

/-- `AttemptTracker`. -/
structure AttemptTracker where
  maxAttempts : Int := 3
  used : Int := 0
  history : List FailureCategory := []
  deriving DecidableEq, Repr

namespace AttemptTracker

/-- `begin_attempt`; without one left it raises. -/
def beginAttempt (t : AttemptTracker) : Option (Int × AttemptTracker) :=
  if t.maxAttempts ≤ t.used then none
  else some (t.used + 1, { t with used := t.used + 1 })

def recordFailure (t : AttemptTracker) (category : FailureCategory) : AttemptTracker :=
  { t with history := t.history ++ [category] }

def remaining (t : AttemptTracker) : Int := t.maxAttempts - t.used

def nextStep (t : AttemptTracker) (category : FailureCategory) : NextStep :=
  if t.remaining ≤ 0 ∨ category ∈ FailureCategory.permanent then .giveUp
  else if category ∈ FailureCategory.repairable then .repair
  else if category ∈ FailureCategory.transient then .retry
  else .giveUp

end AttemptTracker

end LlmService
