import Mathlib.Algebra.Order.Ring.Rat
import Mathlib.Data.Nat.Log
import Mathlib.Data.Rat.Floor

/-!
# Clock readings and exceptions

The vocabulary every module shares: readings of `time.time()` and
`time.perf_counter()` are rationals, and an exception is its class, its
message, its `error_code` and (for provider errors) its status code. The
class hierarchy is the one of `app/exceptions`, together with the builtin
classes that `utils/retry.py` inspects; a class of another library is
`other`.
-/

namespace LlmService

/-- A clock reading or a duration, in seconds. -/
abbrev Seconds := ℚ

/-- The exception classes that some branch of the service tells apart. -/
inductive ExcClass where
  | baseLLMServiceError | retriableError | permanentError | fatalError
  | providerError | allProvidersFailedError | providerTimeoutError
  | providerRateLimitError | circuitOpenError
  | toolError | requiredToolFailedError | toolTimeoutError | unknownToolError
  | toolValidationError
  | grpcError | grpcUnavailableError | grpcTimeoutError
  | analysisError | contextOverflowError | userFacingError
  | contextBudgetError | valueError | typeError | runtimeError
  | timeoutError | connectionError | osError
  | other (name : String)
  deriving DecidableEq, Repr

/-- `ErrorType` of `models/response.py`. -/
inductive ErrorType where
  | validation | analysis | tool | inference | publish | graphLoop | grpc | unexpected
  deriving DecidableEq, Repr

/-- A raised exception; `errorCode` is set on the service's own classes, and
the last two fields belong to `UserFacingError`. -/
structure Exc where
  cls : ExcClass
  message : String := ""
  errorCode : Option String := none
  statusCode : Option Nat := none
  errorType : ErrorType := .validation
  userMessage : String := ""
  deriving DecidableEq, Repr

/-- `type(exc).__name__`. -/
def ExcClass.name : ExcClass → String
  | .baseLLMServiceError => "BaseLLMServiceError"
  | .retriableError => "RetriableError"
  | .permanentError => "PermanentError"
  | .fatalError => "FatalError"
  | .providerError => "ProviderError"
  | .allProvidersFailedError => "AllProvidersFailedError"
  | .providerTimeoutError => "ProviderTimeoutError"
  | .providerRateLimitError => "ProviderRateLimitError"
  | .circuitOpenError => "CircuitOpenError"
  | .toolError => "ToolError"
  | .requiredToolFailedError => "RequiredToolFailedError"
  | .toolTimeoutError => "ToolTimeoutError"
  | .unknownToolError => "UnknownToolError"
  | .toolValidationError => "ToolValidationError"
  | .grpcError => "GRPCError"
  | .grpcUnavailableError => "GRPCUnavailableError"
  | .grpcTimeoutError => "GRPCTimeoutError"
  | .analysisError => "AnalysisError"
  | .contextOverflowError => "ContextOverflowError"
  | .userFacingError => "UserFacingError"
  | .contextBudgetError => "ContextBudgetError"
  | .valueError => "ValueError"
  | .typeError => "TypeError"
  | .runtimeError => "RuntimeError"
  | .timeoutError => "TimeoutError"
  | .connectionError => "ConnectionError"
  | .osError => "OSError"
  | .other name => name

/-- `str(exc)`: the service's own errors put their code before the message. -/
def Exc.str (exc : Exc) : String :=
  match exc.errorCode with
  | some code => s!"[{code}] {exc.message}"
  | none => exc.message

/-- `isinstance(exc, RetriableError)`. -/
def ExcClass.isRetriableError : ExcClass → Bool
  | .retriableError | .providerTimeoutError | .providerRateLimitError
  | .grpcUnavailableError | .grpcTimeoutError | .toolTimeoutError => true
  | _ => false

/-- `isinstance(exc, ToolError)`. -/
def ExcClass.isToolError : ExcClass → Bool
  | .toolError | .requiredToolFailedError | .toolTimeoutError | .unknownToolError
  | .toolValidationError => true
  | _ => false

/-- `isinstance(exc, GRPCError)`. -/
def ExcClass.isGRPCError : ExcClass → Bool
  | .grpcError | .grpcUnavailableError | .grpcTimeoutError => true
  | _ => false

/-- `isinstance(exc, ProviderError)`. -/
def ExcClass.isProviderError : ExcClass → Bool
  | .providerError | .allProvidersFailedError | .providerTimeoutError
  | .providerRateLimitError | .circuitOpenError => true
  | _ => false

/-- `isinstance(exc, PermanentError)`. -/
def ExcClass.isPermanentError : ExcClass → Bool
  | .permanentError | .allProvidersFailedError | .circuitOpenError
  | .requiredToolFailedError | .unknownToolError | .toolValidationError
  | .contextOverflowError | .userFacingError => true
  | _ => false

/-- `isinstance(exc, OSError)`: builtin timeouts and connection errors are
`OSError`s too. -/
def ExcClass.isOSError : ExcClass → Bool
  | .timeoutError | .connectionError | .osError => true
  | _ => false

/-- The SDK class names of step 5 of `is_retriable`. -/
def retriableSdkNames : List String :=
  ["RateLimitError", "InternalServerError", "APIConnectionError", "ServiceUnavailable",
    "DeadlineExceeded", "TooManyRequests", "AioRpcError"]

/-! ## Declared bounds

Records carry the bounds that the source declares of their fields, as checks
that a value passes by computation. -/

/-- `RetryPolicy`: the attempts and the status codes that are retried. -/
structure RetryPolicy where
  maxAttempts : Nat := 3
  retriableStatusCodes : List Nat := [429, 500, 502, 503, 504]
  declared : decide (1 ≤ maxAttempts) = true := by exact Eq.refl true

theorem RetryPolicy.attempts_pos (policy : RetryPolicy) : 1 ≤ policy.maxAttempts :=
  of_decide_eq_true policy.declared

/-- `is_retriable`. The policy's own exception types are empty by default. -/
def isRetriable (policy : Option RetryPolicy) (exc : Exc) : Bool :=
  exc.cls.isRetriableError || exc.cls.isOSError
    || (match policy, exc.statusCode with
        | some p, some code => p.retriableStatusCodes.contains code
        | _, _ => false)
    || (match exc.cls with
        | .other name => retriableSdkNames.contains name
        | _ => false)

/-- `f"{q:g}"` for a positive `q`: six significant digits, rounded half to
even, without trailing zeros. -/
def formatG (q : ℚ) : String :=
  -- the exponent of the leading digit, before rounding
  let e₀ : Int := if 1 ≤ q then Nat.log 10 ⌊q⌋₊ else -(Nat.clog 10 ⌈q⁻¹⌉₊ : Int)
  let m₀ : Nat := (round_half_even (q * (10 : ℚ) ^ (5 - e₀)))
  let (m, e) := if m₀ = 10 ^ 6 then (10 ^ 5, e₀ + 1) else (m₀, e₀)
  let digits := (toString m).toList
  let strip := fun ds : List Char => (ds.reverse.dropWhile (· = '0')).reverse
  let point := fun (whole frac : List Char) =>
    String.ofList (if frac = [] then whole else whole ++ '.' :: frac)
  if e < -4 ∨ 6 ≤ e then
    let exponent := (if e.natAbs < 10 then "0" else "") ++ toString e.natAbs
    point (digits.take 1) (strip (digits.drop 1))
      ++ (if e < 0 then "e-" else "e+") ++ exponent
  else if 0 ≤ e then
    point (digits.take (e.toNat + 1)) (strip (digits.drop (e.toNat + 1)))
  else point ['0'] (List.replicate (e.natAbs - 1) '0' ++ strip digits)
where
  round_half_even (q : ℚ) : Nat :=
    let n := ⌊q⌋₊
    if q - n < 1 / 2 ∨ (q - n = 1 / 2 ∧ n % 2 = 0) then n else n + 1

end LlmService
