import LlmService.Lib.Within
import LlmService.Models.PipelineContext
import LlmService.Utils.Retry
import LlmService.Utils.Uuid

/-!
# KafkaPublisher

`app/producers/kafka_producer.py`. A program of the service reads the clock,
changes the request's context and sends to Kafka; its `World` holds the
context, what Kafka has accepted, and how many readings and send attempts
were made. `Env` answers them: the broker's answer and the clock's reading at
each.
-/

namespace LlmService

structure Env where
  /-- How the `n`-th `send_and_wait` ends; `none` is an acknowledged message. -/
  broker : Nat → Option Exc
  clock : Nat → Seconds

structure World where
  ctx : PipelineContext
  attempts : Nat := 0
  readings : Nat := 0
  log : List KafkaMessage := []

abbrev Program := EStateM Exc World

/-- `datetime.now(UTC)`, `time.time()` or `time.perf_counter()`. -/
def readClock (env : Env) : Program Seconds := do
  let w ← get
  set { w with readings := w.readings + 1 }
  return env.clock w.readings

def modifyCtx (f : PipelineContext → PipelineContext) : Program Unit :=
  modify fun w => { w with ctx := f w.ctx }

/-- `KafkaPublisher`, with the topics of its configuration. -/
structure KafkaPublisher where
  started : Bool := true
  outputTopic : String := "chat.response.generated"
  chunkTopic : String := "chat.response.chunk"
  dlqTopic : String := "chat.message.dlq"
  retryPolicy : RetryPolicy := { maxAttempts := 3 }

/-- `_build_citations`: the distinct sources of the retrieved chunks. -/
def buildCitations (ctx : PipelineContext) : List Citation :=
  let distinct := fun (kept : List Citation) (chunk : Citation) =>
    if kept.any fun c => c.fileId = chunk.fileId ∧ c.pageNumber = chunk.pageNumber ∧
        c.sectionName = chunk.sectionName
    then kept else kept ++ [chunk]
  ((ctx.contextBundle.bind (·.chunks)).getD []).foldl distinct []

/-- `context_sources` of the final event. -/
def contextSources (ctx : PipelineContext) : List String :=
  match ctx.contextBundle with
  | none => []
  | some bundle =>
    (if bundle.hasMemory then ["memory"] else []) ++ (if bundle.hasGraph then ["graph"] else [])
      ++ (if (bundle.chunks.getD []).isEmpty then [] else ["retrieval"])

namespace KafkaPublisher

variable (p : KafkaPublisher) (env : Env)

/-- The headers of `_send`; empty values are left out. -/
def buildHeaders (trace : Option TraceContext) (correlationId : String) :
    List (String × String) :=
  let header := fun name value : String => if value = "" then [] else [(name, value)]
  (match trace with
    | some trace => header "traceparent" trace.traceparent ++ header "tracestate" trace.tracestate
    | none => [])
    ++ header "correlation_id" correlationId

/-- `_publish`: one attempt. -/
def publishOnce (message : KafkaMessage) : Program Unit := do
  let w ← get
  set { w with attempts := w.attempts + 1 }
  match env.broker w.attempts with
  | none => modify fun w => { w with log := w.log ++ [message] }
  | some exc => throw exc

/-- `_send`. -/
def send (message : KafkaMessage) : Program Unit :=
  if !p.started then
    throw
      { cls := .runtimeError
        message := "KafkaPublisher is not started. Call start() before publishing." }
  else executeWithRetry p.retryPolicy (publishOnce env message)

def publishChunk (event : ChatResponseChunkEvent) : Program Unit :=
  p.send env
    { topic := p.chunkTopic
      key := event.conversationId
      payload := .chunk event
      headers := buildHeaders none event.messageId }

def publishResponse (fullResponse : String) : Program Unit := do
  let ctx := (← get).ctx
  let now ← readClock env
  let timestamp ← readClock env
  let event : ChatResponseGeneratedEvent :=
    { responseId := s!"resp_{String.ofList (ctx.requestId.toList.take 12)}"
      conversationId := ctx.conversationId
      userId := ctx.userId
      requestMessageId := ctx.messageId
      responseMessageId := ctx.responseMessageId
      fullContent := some fullResponse
      provider := some (orText ctx.selectedProvider "nvidia")
      generationFallbackUsed := ctx.generationFallbackUsed
      mode := ctx.mode
      skill := ctx.skill
      engineType := orText ctx.engineType "mode_handler"
      usage := ctx.usage.getD {}
      costUsd := ctx.costUsd.getD 0
      latencyMs := (now - ctx.startedAt) * 1000
      ttftMs :=
        match ctx.firstChunkAt, ctx.inferenceStartedAt with
        | some first, some start => (first - start) * 1000
        | _, _ => 0
      finishReason := "stop"
      toolsUsed := (ctx.plan.map (·.tools)).getD []
      contextSources := contextSources ctx
      citations := if ctx.citationsHidden then [] else buildCitations ctx
      traceContext := { traceparent := ctx.traceId }
      status := "success"
      timestamp }
  p.send env
    { topic := p.outputTopic
      key := ctx.conversationId
      payload := .generated event
      headers := buildHeaders (some { traceparent := ctx.traceId }) ctx.requestId }

def publishErrorResponse (event : ChatResponseGeneratedEvent) : Program Unit := do
  let ctx := (← get).ctx
  p.send env
    { topic := p.outputTopic
      key := ctx.conversationId
      payload := .generated event
      headers := buildHeaders (some { traceparent := ctx.traceId }) ctx.requestId }

def publishMemoryUpdate (fullResponse : String) : Program Unit := do
  let ctx := (← get).ctx
  let now ← readClock env
  -- decoding the time out of the message id may raise
  let decoded ← match uuid7Datetime ctx.messageId with
    | .ok decoded => pure decoded
    | .error exc => throw exc
  let userCreatedAt := decoded.getD ctx.startedAt
  let event : MemoryUpdateRequestedEvent :=
    { conversationId := ctx.conversationId
      userId := ctx.userId
      userMessage := ctx.userMessage
      assistantResponse := fullResponse
      mode := ctx.mode
      timestamp := now
      userMessageId := orNone ctx.messageId
      assistantMessageId := ctx.responseMessageId.bind orNone
      userCreatedAt := some userCreatedAt
      assistantCreatedAt := some (max now userCreatedAt)
      replacesMessageId := ctx.replacesMessageId }
  p.send env
    { topic := "memory.update.requested"
      key := ctx.conversationId
      payload := .memoryUpdate event
      headers := buildHeaders none ctx.requestId }

def publishCancellation (reason : String) : Program Unit := do
  let ctx := (← get).ctx
  let timestamp ← readClock env
  p.send env
    { topic := "chat.response.cancelled"
      key := ctx.conversationId
      payload := .cancelled
        { conversationId := ctx.conversationId
          userId := ctx.userId
          messageId := ctx.messageId
          responseMessageId := ctx.responseMessageId
          reason
          timestamp }
      headers := buildHeaders none ctx.requestId }

def publishDlq (event : ChatMessageDLQEvent) : Program Unit :=
  p.send env
    { topic := p.dlqTopic
      key := orText event.originalKey "dlq"
      payload := .dlq event
      headers := [] }

/-! ## What a send does -/

section Attempts

variable (policy : RetryPolicy)

/-- The broker acknowledges the attempt `n`, or one of at most `left` after it
that are made because the error before can be retried. -/
def ackWithin : Nat → Nat → Bool
  | 0, n => (env.broker n).isNone
  | left + 1, n =>
    match env.broker n with
    | none => true
    | some exc => isRetriable (some policy) exc && ackWithin left (n + 1)

/-- The attempt that comes after those. -/
def attemptAfter : Nat → Nat → Nat
  | 0, n => n + 1
  | left + 1, n =>
    match env.broker n with
    | none => n + 1
    | some exc => if isRetriable (some policy) exc then attemptAfter left (n + 1) else n + 1

end Attempts

/-- A send whose first attempt is the `n`-th gets its message acknowledged. -/
def acknowledges (n : Nat) : Bool :=
  p.started && ackWithin env p.retryPolicy (p.retryPolicy.maxAttempts - 1) n

/-- The first attempt of the send after it. -/
def nextAttempt (n : Nat) : Nat :=
  if p.started then attemptAfter env p.retryPolicy (p.retryPolicy.maxAttempts - 1) n else n

/-- A send appends its message once and returns, or appends nothing and
raises; which of the two, `acked` says. -/
def Sends (message : KafkaMessage) (acked : Bool) (next : Nat) (w : World) :
    EStateM.Result Exc World Unit → Prop
  | .ok _ w' => acked = true ∧ w' = { w with attempts := next, log := w.log ++ [message] }
  | .error _ w' => acked = false ∧ w' = { w with attempts := next }

variable {p env} {message : KafkaMessage} {w w' : World}

theorem publishOnce_run (message : KafkaMessage) (w : World) :
    (publishOnce env message).run w =
      match env.broker w.attempts with
      | none => .ok () { w with attempts := w.attempts + 1, log := w.log ++ [message] }
      | some exc => .error exc { w with attempts := w.attempts + 1 } := by
  simp only [publishOnce, EStateM.run_bind, EStateM.run_get, EStateM.run_set]
  cases env.broker w.attempts with
  | none => rfl
  | some exc => rfl

/-- The induction is on the attempts that are left: one that fails leaves the
next what it found, but for the number of attempts. -/
theorem retryLoop_sends (policy : RetryPolicy) (message : KafkaMessage) (left : Nat)
    (w : World) :
    Sends message (ackWithin env policy left w.attempts) (attemptAfter env policy left w.attempts)
      w ((retryLoop policy (publishOnce env message) left).run w) := by
  induction left generalizing w with
  | zero =>
    rw [retryLoop, publishOnce_run, ackWithin]
    cases env.broker w.attempts with
    | none => exact ⟨rfl, rfl⟩
    | some exc => exact ⟨rfl, rfl⟩
  | succ left ih =>
    rw [retryLoop, run_tryCatch, publishOnce_run, ackWithin, attemptAfter]
    cases env.broker w.attempts with
    | none => exact ⟨rfl, rfl⟩
    | some exc =>
      by_cases hretry : isRetriable (some policy) exc = true
      · simp only [hretry, if_true, Bool.true_and]
        exact ih { w with attempts := w.attempts + 1 }
      · simp only [hretry, Bool.false_and]
        exact ⟨rfl, rfl⟩

variable (p env) in
theorem send_sends (message : KafkaMessage) (w : World) :
    Sends message (p.acknowledges env w.attempts) (p.nextAttempt env w.attempts) w
      ((p.send env message).run w) := by
  simp only [send, acknowledges, nextAttempt]
  cases p.started with
  | false => exact ⟨rfl, rfl⟩
  | true => exact retryLoop_sends _ message _ w

/-! ## The memory update -/

section MemoryUpdate

variable (p env)

/-- The memory update for a message id, with the `n`-th attempt as its first,
raises: no `datetime` holds the id's time, or Kafka does not take the event. -/
def memoryUpdateRaises (messageId : String) (n : Nat) : Bool :=
  match uuid7Datetime messageId with
  | .error _ => true
  | .ok _ => !p.acknowledges env n

/-- The first attempt of the send after it; where the id raises, none was made. -/
def attemptAfterMemory (messageId : String) (n : Nat) : Nat :=
  match uuid7Datetime messageId with
  | .error _ => n
  | .ok _ => p.nextAttempt env n

variable {env} in
theorem publishMemoryUpdate_of_error (text : String) {w : World} {exc : Exc}
    (h : uuid7Datetime w.ctx.messageId = .error exc) :
    (p.publishMemoryUpdate env text).run w
      = .error exc { w with readings := w.readings + 1 } := by
  simp only [publishMemoryUpdate, EStateM.run_bind, EStateM.run_get, h]
  rfl

theorem publishMemoryUpdate_of_ok (text : String) {w : World} {decoded : Option Seconds}
    (h : uuid7Datetime w.ctx.messageId = .ok decoded) :
    ∃ (message : KafkaMessage) (event : MemoryUpdateRequestedEvent),
      message.payload = .memoryUpdate event ∧ event.assistantResponse = text ∧
      (p.publishMemoryUpdate env text).run w
        = (p.send env message).run { w with readings := w.readings + 1 } := by
  simp only [publishMemoryUpdate, EStateM.run_bind, EStateM.run_get, h]
  exact ⟨_, _, rfl, rfl, rfl⟩

/-- Whether a memory update returns or raises, and where it leaves the attempts. -/
theorem publishMemoryUpdate_result (text : String) (w : World) :
    match (p.publishMemoryUpdate env text).run w with
    | .ok _ _ => p.memoryUpdateRaises env w.ctx.messageId w.attempts = false
    | .error _ w' => p.memoryUpdateRaises env w.ctx.messageId w.attempts = true ∧
        w'.attempts = p.attemptAfterMemory env w.ctx.messageId w.attempts := by
  simp only [memoryUpdateRaises, attemptAfterMemory]
  generalize hresult : (p.publishMemoryUpdate env text).run w = result
  cases hdecoded : uuid7Datetime w.ctx.messageId with
  | error exc =>
    rw [publishMemoryUpdate_of_error p text hdecoded] at hresult
    subst hresult
    exact ⟨rfl, rfl⟩
  | ok decoded =>
    obtain ⟨message, event, -, -, hrun⟩ := publishMemoryUpdate_of_ok p env text hdecoded
    rw [hrun] at hresult
    have hsend := p.send_sends env message { w with readings := w.readings + 1 }
    rw [hresult] at hsend
    cases result with
    | ok a w' => simp [hsend.1]
    | error exc w' =>
      obtain ⟨hacked, rfl⟩ := hsend
      simp [hacked]

end MemoryUpdate

end KafkaPublisher

end LlmService
