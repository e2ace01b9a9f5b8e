import LlmService.Models.Events

/-!
# PipelineContext

`models/pipeline_context.py`, with the fields that publishing and streaming
read or write. What identifies the request is a part of its own: the stages
of the pipeline fill in the rest, and leave the identity as it came.
-/

namespace LlmService

/-- The identity of a request, set once by `from_event`. -/
structure RequestIds where
  conversationId : String
  userId : String
  messageId : String
  responseMessageId : Option String
  requestId : String
  traceId : String
  replacesMessageId : Option String
  startedAt : Seconds
  deriving DecidableEq

/-- The parts of an `ExecutionPlan` that reach an event. -/
structure PlanSummary where
  mode : String
  skill : String
  tools : List String := []

/-- The parts of a `ContextBundle` that reach an event; `none` where the
bundle has no such context. -/
structure BundleSummary where
  hasMemory : Bool := false
  hasGraph : Bool := false
  chunks : Option (List Citation) := none

structure PipelineContext extends RequestIds where
  userMessage : String
  citationsHidden : Bool := false
  contextBundle : Option BundleSummary := none
  plan : Option PlanSummary := none
  engineType : Option String := none
  selectedProvider : Option String := none
  generationFallbackUsed : Bool := false
  usage : Option UsageMetrics := none
  costUsd : Option ℚ := none
  inferenceStartedAt : Option Seconds := none
  firstChunkAt : Option Seconds := none
  completedAt : Option Seconds := none

/-- `PipelineContext.from_event`. -/
def PipelineContext.fromEvent (event : ChatMessageCreatedEvent) (requestId : String)
    (now : Seconds) : PipelineContext :=
  { conversationId := event.conversationId
    userId := event.userId
    messageId := event.messageId
    responseMessageId := event.responseMessageId
    requestId
    traceId := event.traceContext.traceparent
    -- `metadata.get(…) or None`
    replacesMessageId := event.replacesMessageId.filter (· ≠ "")
    startedAt := now
    userMessage := event.content }

/-- `plan.mode.value`, with the default without a plan. -/
def PipelineContext.mode (ctx : PipelineContext) : String :=
  (ctx.plan.map (·.mode)).getD "default"

def PipelineContext.skill (ctx : PipelineContext) : String :=
  (ctx.plan.map (·.skill)).getD "general_chat"

/-- `x or default` on an optional text. -/
def orText (text : Option String) (default : String) : String :=
  match text with
  | none | some "" => default
  | some text => text

/-- `x or None`. -/
def orNone (text : String) : Option String := if text = "" then none else some text

end LlmService
