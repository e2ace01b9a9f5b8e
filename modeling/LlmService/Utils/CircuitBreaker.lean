import LlmService.Basic

/-!
# CircuitBreaker

`app/utils/circuit_breaker.py`: the breaker's record and the methods that
change it. Every method takes the reading of `time.time()` it makes as an
argument. `call()` is split at its `yield` into `callEnter` and `callExit`,
since other calls may run in between.
-/

namespace LlmService

/-- `CircuitState`. -/
inductive CircuitState where
  | closed | opened | halfOpen
  deriving DecidableEq, Repr

/-- `CircuitBreakerConfig`; every field is declared with `ge=1`. -/
structure CircuitBreakerConfig where
  failureThreshold : Nat := 5
  successThreshold : Nat := 2
  windowSeconds : Nat := 60
  recoveryTimeoutSeconds : Nat := 30
  declared : decide (1 ≤ failureThreshold ∧ 1 ≤ successThreshold ∧ 1 ≤ windowSeconds ∧
    1 ≤ recoveryTimeoutSeconds) = true := by exact Eq.refl true

namespace CircuitBreakerConfig

variable (config : CircuitBreakerConfig)

theorem failure_pos : 1 ≤ config.failureThreshold := (of_decide_eq_true config.declared).1

theorem success_pos : 1 ≤ config.successThreshold := (of_decide_eq_true config.declared).2.1

theorem recovery_pos : 1 ≤ config.recoveryTimeoutSeconds := (of_decide_eq_true config.declared).2.2.2

end CircuitBreakerConfig

/-- The attributes of a `CircuitBreaker` object. -/
structure CircuitBreaker where
  name : String
  config : CircuitBreakerConfig
  state : CircuitState := .closed
  failureCount : Nat := 0
  successCount : Nat := 0
  lastFailureTime : Seconds := 0

namespace CircuitBreaker

/-- `CircuitBreaker(name, config)`. -/
def fresh (name : String) (config : CircuitBreakerConfig) : CircuitBreaker :=
  { name, config }

def isOpen (b : CircuitBreaker) (now : Seconds) : Bool :=
  b.state = .opened && decide (now - b.lastFailureTime < b.config.recoveryTimeoutSeconds)

def trip (b : CircuitBreaker) (now : Seconds) : CircuitBreaker :=
  { b with state := .opened, lastFailureTime := now }

def reset (b : CircuitBreaker) : CircuitBreaker :=
  { b with state := .closed, failureCount := 0, successCount := 0, lastFailureTime := 0 }

def onSuccess (b : CircuitBreaker) : CircuitBreaker :=
  match b.state with
  | .halfOpen =>
    if b.successCount + 1 ≥ b.config.successThreshold then
      { b with state := .closed, failureCount := 0, successCount := 0 }
    else { b with successCount := b.successCount + 1 }
  -- a success takes one failure back, it does not clear the count
  | .closed => { b with failureCount := b.failureCount - 1 }
  -- only `call()` takes an open breaker further
  | .opened => b

def onFailure (b : CircuitBreaker) (now : Seconds) : CircuitBreaker :=
  -- counted in every state, so an open breaker keeps counting
  let b := { b with failureCount := b.failureCount + 1, lastFailureTime := now }
  if b.state = .halfOpen then { b with state := .opened }
  else if b.failureCount ≥ b.config.failureThreshold then { b with state := .opened }
  else b

/-- The part of `call()` before its `yield`. -/
def callEnter (b : CircuitBreaker) (now : Seconds) : Except Exc CircuitBreaker :=
  if b.state = .opened then
    if now - b.lastFailureTime ≥ b.config.recoveryTimeoutSeconds then
      .ok { b with state := .halfOpen, successCount := 0 }
    else .error { cls := .circuitOpenError, message := s!"Circuit breaker '{b.name}' is OPEN" }
  else .ok b

/-- The part of `call()` after its `yield`: the body returned, or raised. -/
def callExit (b : CircuitBreaker) (now : Seconds) : Except Exc Unit → CircuitBreaker
  | .ok _ => b.onSuccess
  | .error exc => if isRetriable none exc then b.onFailure now else b

variable (b : CircuitBreaker) (now : Seconds)

@[simp] theorem onSuccess_config : b.onSuccess.config = b.config := by
  unfold onSuccess
  split <;> try rfl
  split <;> rfl

@[simp] theorem onFailure_config : (b.onFailure now).config = b.config := by
  simp only [onFailure]
  split <;> try rfl
  split <;> rfl

@[simp] theorem onFailure_lastFailureTime : (b.onFailure now).lastFailureTime = now := by
  simp only [onFailure]
  split <;> try rfl
  split <;> rfl

@[simp] theorem onFailure_failureCount :
    (b.onFailure now).failureCount = b.failureCount + 1 := by
  simp only [onFailure]
  split <;> try rfl
  split <;> rfl

theorem onSuccess_of_closed (h : b.state = .closed) :
    b.onSuccess = { b with failureCount := b.failureCount - 1 } := by
  simp [onSuccess, h]

theorem onSuccess_of_opened (h : b.state = .opened) : b.onSuccess = b := by
  simp [onSuccess, h]

/-- The state after a failure, outside the half-open probe. -/
theorem onFailure_state (h : b.state ≠ .halfOpen) :
    (b.onFailure now).state =
      if b.failureCount + 1 ≥ b.config.failureThreshold then .opened else b.state := by
  simp only [onFailure, if_neg h]
  split <;> rfl

/-- A breaker opened at `now` stays open for `recovery_timeout_seconds`. -/
theorem isOpen_of_opened {t : Seconds} (h : b.state = .opened)
    (ht : t - b.lastFailureTime < b.config.recoveryTimeoutSeconds) : b.isOpen t = true := by
  simp [isOpen, h, ht]

theorem isOpen_of_not_opened {t : Seconds} (h : b.state ≠ .opened) : b.isOpen t = false := by
  simp [isOpen, h]

end CircuitBreaker

end LlmService
