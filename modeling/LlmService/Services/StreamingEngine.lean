import Mathlib.Data.List.Infix
import LlmService.Producers.KafkaPublisher

/-!
# StreamingEngine

`app/services/streaming_service.py`: the loop over the token stream with its
chunk sizes and flush clock, and the final events. Metrics and the labels
that only they read are left out.
-/

namespace LlmService

structure StreamingEngine where
  publisher : KafkaPublisher := {}
  defaultChunkSize : Nat := 6
  firstChunkSize : Nat := 1
  codeBlockChunkSize : Nat := 20
  rateLimitedChunkSize : Nat := 12
  flushIntervalMs : Nat := 50

/-- The token iterator: its tokens, what `_track_route` does at the first of
them, and the exception it ends with, if any. A stream that blocks for ever
publishes what one that fails there has published by then. -/
structure TokenStream where
  tokens : List String
  onFirst : PipelineContext → PipelineContext := id
  failure : Option Exc := none
  onFirst_ids : ∀ ctx, (onFirst ctx).toRequestIds = ctx.toRequestIds := by intro _; rfl

/-- The locals of the loop. -/
structure StreamState where
  buffer : List String := []
  bufferTokens : Nat := 0
  chunkIndex : Nat := 0
  fullContent : List String := []
  lastFlushTime : Seconds
  firstChunkEmitted : Bool := false
  inCodeBlock : Bool := false

/-- How the loop ends: cancelled, with the text so far, or at the end of the
stream. -/
inductive StreamExit where
  | cancelled (text : String)
  | finished (text : String)

namespace StreamingEngine

variable (eng : StreamingEngine) (env : Env)

/-- `_flush_buffer`: nothing is published for an empty text. -/
def flushBuffer (buffer : List String) (chunkIndex : Nat) (isLast : Bool) : Program Unit := do
  let content := String.join buffer
  if content = "" then return
  let ctx := (← get).ctx
  let timestamp ← readClock env
  eng.publisher.publishChunk env
    { conversationId := ctx.conversationId
      userId := ctx.userId
      messageId := ctx.messageId
      responseMessageId := ctx.responseMessageId
      chunkIndex
      sequenceNumber := chunkIndex + 1
      content
      isLast
      timestamp }

/-- A token joins the buffer, and toggles the code block. -/
def take (st : StreamState) (token : String) : StreamState :=
  { st with
    buffer := st.buffer ++ [token]
    fullContent := st.fullContent ++ [token]
    bufferTokens := st.bufferTokens + 1
    inCodeBlock :=
      if "```".toList <:+: token.toList then !st.inCodeBlock else st.inCodeBlock }

/-- The dynamic chunk size. -/
def targetChunkSize (rateLimited : Bool) (st : StreamState) : Nat :=
  if !st.firstChunkEmitted then eng.firstChunkSize
  else if st.inCodeBlock then eng.codeBlockChunkSize
  else if rateLimited then eng.rateLimitedChunkSize
  else eng.defaultChunkSize

def markFirstChunk (st : StreamState) : Program Unit :=
  if st.firstChunkEmitted then pure ()
  else do
    let now ← readClock env
    modifyCtx fun ctx => { ctx with firstChunkAt := some now }

/-- The body of the loop for one token. -/
def onToken (rateLimited : Bool) (st : StreamState) (token : String) : Program StreamState := do
  let st := take st token
  let now ← readClock env
  let elapsed := now - st.lastFlushTime
  if eng.targetChunkSize rateLimited st ≤ st.bufferTokens ∨
      ((eng.flushIntervalMs : Seconds) / 1000 ≤ elapsed ∧ 0 < st.bufferTokens) then
    eng.flushBuffer env st.buffer st.chunkIndex false
    markFirstChunk env st
    let lastFlushTime ← readClock env
    return { st with
      firstChunkEmitted := true
      chunkIndex := st.chunkIndex + 1
      buffer := []
      bufferTokens := 0
      lastFlushTime }
  else return st

/-- The loop over the tokens that are left; `cancellation` answers, for each
of them, why the request is cancelled by then. -/
def streamLoop (rateLimited : Bool) (cancellation : Nat → Option String)
    (failure : Option Exc) : List String → Nat → StreamState →
    Program (StreamState ⊕ String)
  | [], _, st =>
    match failure with
    | some exc => throw exc
    | none => return .inl st
  | token :: rest, n, st =>
    match cancellation n with
    | some reason => do
      eng.publisher.publishCancellation env (if reason = "" then "client_disconnected" else reason)
      return .inr (String.join st.fullContent)
    | none => do
      let st ← eng.onToken env rateLimited st token
      streamLoop rateLimited cancellation failure rest (n + 1) st

/-- What the request has used, unless a component counted it already. -/
def completeUsage (tokens : Nat) : Option UsageMetrics → UsageMetrics
  | none => { completionTokens := tokens, totalTokens := tokens }
  | some usage =>
    if usage.completionTokens = 0 then
      { usage with completionTokens := tokens, totalTokens := usage.promptTokens + tokens }
    else usage

def startInference : Program Unit := do
  let w ← get
  if w.ctx.inferenceStartedAt.isSome then pure ()
  else do
    let now ← readClock env
    modifyCtx fun ctx => { ctx with inferenceStartedAt := some now }

/-- Step 4: the rest of the buffer. -/
def flushRest (st : StreamState) : Program Unit :=
  if st.buffer.isEmpty then pure ()
  else do
    markFirstChunk env st
    eng.flushBuffer env st.buffer st.chunkIndex true

/-- `stream` up to its final events. -/
def streamChunks (stream : TokenStream) (cancellation : Nat → Option String)
    (rateLimited : Bool) : Program StreamExit := do
  startInference env
  let lastFlushTime ← readClock env
  -- the iterator sees its first token before the loop does
  modifyCtx (if stream.tokens.isEmpty then id else stream.onFirst)
  match ← eng.streamLoop env rateLimited cancellation stream.failure stream.tokens 0
      { lastFlushTime } with
  | .inr text => return .cancelled text
  | .inl st =>
    eng.flushRest env st
    let now ← readClock env
    modifyCtx fun ctx =>
      { ctx with
        completedAt := some now
        usage := some (completeUsage st.fullContent.length ctx.usage) }
    return .finished (String.join st.fullContent)

/-- `stream`. -/
def stream (tokens : TokenStream) (cancellation : Nat → Option String := fun _ => none)
    (rateLimited : Bool := false) : Program String := do
  match ← eng.streamChunks env tokens cancellation rateLimited with
  | .cancelled text => return text
  | .finished text =>
    eng.publisher.publishResponse env text
    eng.publisher.publishMemoryUpdate env text
    return text

end StreamingEngine

end LlmService
