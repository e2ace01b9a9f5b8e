import Mathlib.Data.List.Infix
import LlmService.Models.PipelineContext

/-!
# ErrorHandler

`app/utils/error_handler.py`: what the user is told about an exception, and
the error variant of the final event. The metrics it records are left out.
-/

namespace LlmService

/-- `ErrorClassification`. -/
structure ErrorClassification where
  errorType : ErrorType
  errorCode : String
  isRetriable : Bool
  isFatal : Bool
  userMessage : String
  deriving DecidableEq

namespace ErrorHandler

/-- `part in text.lower()`, for a part of ASCII characters. -/
def lowerContains (part text : String) : Bool :=
  decide (part.toList <:+: text.toList.map Char.toLower)

/-- The names of step 3 of `classify`. -/
def rateLimitNames : List String := ["RateLimitError", "ProviderRateLimitError", "TooManyRequests"]

def timeoutNames : List String :=
  ["TimeoutError", "ProviderTimeoutError", "GRPCTimeoutError", "ToolTimeoutError"]

def validationNames : List String := ["ValidationError", "ToolValidationError", "PlanParseError"]

def classify (exc : Exc) : ErrorClassification :=
  let name := exc.cls.name
  let retriable := exc.cls.isRetriableError
  if exc.cls = .userFacingError then
    ⟨exc.errorType, exc.errorCode.getD name, false, false, exc.userMessage⟩
  else if exc.cls.isToolError then
    ⟨.tool, exc.errorCode.getD "TOOL_ERROR", retriable, false,
      "A tool execution error occurred."⟩
  else if exc.cls.isGRPCError then
    ⟨.grpc, exc.errorCode.getD "GRPC_ERROR", retriable, false,
      "Upstream context service temporarily unavailable."⟩
  else if exc.cls.isProviderError && lowerContains "rate limit" exc.str then
    ⟨.inference, "RATE_LIMIT_EXCEEDED", true, false,
      "The AI providers are busy (rate limit reached). Please wait a few seconds and try again."⟩
  else if exc.cls.isProviderError then
    ⟨.inference, exc.errorCode.getD "PROVIDER_ERROR", retriable, false,
      "Upstream AI provider error occurred."⟩
  else if retriable then
    ⟨.inference, exc.errorCode.getD name, true, false,
      "Service is temporarily unavailable due to upstream delay. Retrying..."⟩
  else if exc.cls = .fatalError then
    ⟨.unexpected, exc.errorCode.getD name, false, true,
      "A critical service configuration error occurred."⟩
  else if exc.cls = .contextOverflowError then
    -- `str(exc)` without its leading "[CONTEXT_OVERFLOW] "
    ⟨.analysis, "CONTEXT_OVERFLOW", false, false, exc.message⟩
  else if exc.cls.isPermanentError then
    ⟨.analysis, exc.errorCode.getD name, false, false,
      "Unable to complete request with provided input."⟩
  else if rateLimitNames.contains name then
    ⟨.inference, "RATE_LIMIT_EXCEEDED", true, false,
      "Rate limit reached. Please wait a moment and try again."⟩
  else if timeoutNames.contains name then
    ⟨.inference, "OPERATION_TIMEOUT", true, false,
      "The operation timed out. Please try again."⟩
  else if validationNames.contains name then
    ⟨.validation, "VALIDATION_FAILED", false, false, "Invalid request format."⟩
  else
    ⟨.unexpected, "UNEXPECTED_ERROR", false, false,
      "An unexpected error occurred while processing your request."⟩

/-- `build_error_response_event`. -/
def buildErrorResponseEvent (ctx : PipelineContext) (exc : Exc) (now : Seconds) :
    ChatResponseGeneratedEvent :=
  let classification := classify exc
  { responseId := s!"resp_{ctx.messageId}"
    conversationId := ctx.conversationId
    userId := ctx.userId
    requestMessageId := ctx.messageId
    responseMessageId := ctx.responseMessageId
    mode := ctx.mode
    skill := ctx.skill
    engineType := orText ctx.engineType "mode_handler"
    provider := ctx.selectedProvider
    status := "error"
    errorCode := some classification.errorCode
    errorMessage := some classification.userMessage
    fullContent := none
    generationFallbackUsed := ctx.generationFallbackUsed
    timestamp := now }

end ErrorHandler

end LlmService
