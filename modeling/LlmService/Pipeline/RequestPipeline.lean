import LlmService.Services.StreamingEngine
import LlmService.Utils.ErrorHandler
import LlmService.Providers.Chain

/-!
# RequestPipeline

`RequestPipeline.run`: the preamble, the stages up to the fitted prompt, the
streaming of the answer, and the error path. The stages before generation
are a parameter; they work on the request's context, keep its identity, and
publish nothing.
-/

namespace LlmService

/-- `_track_route`, at the first token. -/
def trackRoute (route : Option Route) (ctx : PipelineContext) : PipelineContext :=
  match route with
  | none => ctx
  | some route =>
    let ctx :=
      if route.provider ≠ "" ∧ route.provider ≠ "primary" then
        { ctx with selectedProvider := some route.provider }
      else ctx
    if route.fallbackUsed then { ctx with generationFallbackUsed := true } else ctx

theorem trackRoute_ids (route : Option Route) (ctx : PipelineContext) :
    (trackRoute route ctx).toRequestIds = ctx.toRequestIds := by
  unfold trackRoute
  split
  · rfl
  · dsimp only
    split <;> split <;> rfl

/-- What the stages before generation hand over: the provider the prompt was
fitted to, and the answer of the generation router to that prompt. -/
structure Generation where
  providerName : String
  tokens : List String
  route : Option Route
  failure : Option Exc := none

/-- `RequestPipeline`. `prepare` is stages 1 to 6 with the behaviour of all
components they call; it may fail at any point, having changed the context. -/
structure RequestPipeline where
  streamingEngine : StreamingEngine := {}
  prepare : PipelineContext → PipelineContext × Except Exc Generation
  prepare_ids : ∀ ctx, (prepare ctx).1.toRequestIds = ctx.toRequestIds

namespace RequestPipeline

variable (pl : RequestPipeline) (env : Env)

def publisher : KafkaPublisher := pl.streamingEngine.publisher

/-- The preamble of `run`: an event without a time zone cannot be subtracted
from the clock. -/
def preamble (event : ChatMessageCreatedEvent) : Except Exc Unit :=
  if event.timestampAware then .ok ()
  else
    .error
      { cls := .typeError
        message := "can't subtract offset-naive and offset-aware datetimes" }

/-- Stages 1 to 6. -/
def runStages : Program Generation := do
  let (ctx, result) := pl.prepare (← get).ctx
  modifyCtx fun _ => ctx
  match result with
  | .ok generation => return generation
  | .error exc => throw exc

/-- Stage 7: the provider the prompt was fitted to, and the token stream. -/
def startGeneration (generation : Generation) : Program TokenStream := do
  let now ← readClock env
  modifyCtx fun ctx =>
    { ctx with inferenceStartedAt := some now, selectedProvider := some generation.providerName }
  return {
    tokens := generation.tokens
    onFirst := trackRoute generation.route
    failure := generation.failure
    onFirst_ids := trackRoute_ids generation.route }

/-- The `try` block of `run` up to the final events. -/
def generate : Program StreamExit := do
  let generation ← pl.runStages
  let stream ← startGeneration env generation
  pl.streamingEngine.streamChunks env stream (fun _ => none) false

/-- The `try` block of `run`. -/
def body : Program Unit := do
  let generation ← pl.runStages
  let stream ← startGeneration env generation
  let _ ← pl.streamingEngine.stream env stream

/-- `build_error_response_event`, as the `except` block calls it. -/
def errorEvent (exc : Exc) : Program ChatResponseGeneratedEvent := do
  let ctx := (← get).ctx
  let now ← readClock env
  return ErrorHandler.buildErrorResponseEvent ctx exc now

/-- The `except` block of `run`: a failed error event is only logged. -/
def onError (exc : Exc) : Program Unit := do
  let event ← errorEvent env exc
  tryCatch (pl.publisher.publishErrorResponse env event) fun _ => pure ()

/-- The state once the context is built from the event. -/
def initial (event : ChatMessageCreatedEvent) (requestId : String) : World :=
  { ctx := PipelineContext.fromEvent event requestId (env.clock 0), readings := 1 }

/-- `run`, on an event; `requestId` is what `generate_request_id` returns. -/
def run (event : ChatMessageCreatedEvent) (requestId : String) :
    EStateM.Result Exc World Unit :=
  let w := initial env event requestId
  match preamble event with
  | .error exc => .error exc w
  | .ok _ => EStateM.run (tryCatch (pl.body env) (pl.onError env)) w

end RequestPipeline

end LlmService
