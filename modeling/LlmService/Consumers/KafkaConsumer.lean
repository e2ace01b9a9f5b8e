import LlmService.Lib.Runs
import LlmService.Models.Events
import LlmService.Utils.TTLCache

/-!
# KafkaConsumerEngine

`app/consumers/kafka_consumer.py` as a step system. The consume loop polls
records in offset order and spawns a task for each; a task is suspended at
the awaits that can block: the semaphore, the handler, the sleep between
attempts, `publish_dlq` and `commit`. Between two awaits it runs in one step.
Decoding the JSON and validating it against the event's model is the
parameter `parse`.
-/

namespace LlmService

/-- `TopicPartition`. -/
structure TopicPartition where
  topic : String
  partition : Nat
  deriving DecidableEq

/-- `ConsumerRecord`, as it comes from the broker. -/
structure ConsumerRecord where
  topic : String
  partition : Nat
  offset : Nat
  key : Option ByteArray := none
  value : Option ByteArray
  headers : List (String × Option ByteArray) := []

def ConsumerRecord.tp (msg : ConsumerRecord) : TopicPartition := ⟨msg.topic, msg.partition⟩

/-- `bytes.decode("utf-8")`. -/
def decodeUtf8 (bytes : ByteArray) : Except Exc String :=
  match String.fromUTF8? bytes with
  | some text => .ok text
  | none => .error { cls := .other "UnicodeDecodeError", message := "invalid utf-8" }

/-- `x.decode("utf-8") if isinstance(x, bytes) else str(…)`, with the text of
what stands there instead of bytes. -/
def decodeOr (absent : String) : Option ByteArray → Except Exc String
  | some bytes => decodeUtf8 bytes
  | none => .ok absent

/-- The header loop: the last `traceparent` and `tracestate` win. -/
def traceHeaders : List (String × Option ByteArray) → TraceContext → Except Exc TraceContext
  | [], found => .ok found
  | (key, value) :: rest, found =>
    if key = "traceparent" then do
      traceHeaders rest { found with traceparent := ← decodeOr "None" value }
    else if key = "tracestate" then do
      traceHeaders rest { found with tracestate := ← decodeOr "None" value }
    else traceHeaders rest found

/-- Step 2: the trace context of the headers, unless the event has its own. -/
def withTrace (event : ChatMessageCreatedEvent) (found : TraceContext) :
    ChatMessageCreatedEvent :=
  if found.traceparent ≠ "" ∧ event.traceContext.traceparent = "" then
    { event with traceContext := found }
  else event

/-- What a record turns out to be before the idempotency check. -/
inductive Intake where
  | reject (key raw errorType errorMessage : String)
  | request (key raw : String) (event : ChatMessageCreatedEvent)

/-- Steps 1 to 2b: decode, parse, take over the trace headers, and ask for
the `response_message_id`. Bytes that are no UTF-8 raise. -/
def intake (parse : String → Except Exc ChatMessageCreatedEvent) (msg : ConsumerRecord) :
    Except Exc Intake := do
  let raw ← decodeOr "None" msg.value
  let key ← decodeOr "" msg.key
  match parse raw with
  | .error exc =>
    return .reject key raw "DeserializationError"
      s!"Failed to parse ChatMessageCreatedEvent: {exc.str}"
  | .ok event =>
    let event := withTrace event (← traceHeaders msg.headers {})
    -- `not event.response_message_id`: absent or empty
    if event.responseMessageId.getD "" = "" then
      return .reject key raw "ContractViolation"
        ("chat.message.created is missing response_message_id "
          ++ "(requires schema_version >= 2.1)")
    return .request key raw event

/-- What a task has made sure of for its record: the handler has returned,
or an event of the given kind is on the dead letter queue. -/
inductive Settlement where
  | handled
  | deadLettered
  | rejected
  deriving DecidableEq

/-- Where a task is suspended; `key` and `raw` are its decoded record. -/
inductive Phase where
  | waiting
  | publishing (event : ChatMessageDLQEvent) (kind : Settlement)
  | handling (key raw : String) (event : ChatMessageCreatedEvent) (attempt : Nat)
  | sleeping (key raw : String) (event : ChatMessageCreatedEvent) (attempt : Nat)
  | committing
  | finished
  | crashed (exc : Exc)

/-- A spawned `_process_message_guarded`. -/
structure RecordTask where
  msg : ConsumerRecord
  phase : Phase := .waiting
  settled : Option Settlement := none

/-- The task is inside the semaphore. -/
def Phase.running : Phase → Bool
  | .waiting | .finished | .crashed _ => false
  | _ => true

/-- The task awaits nothing any more. -/
def Phase.ended : Phase → Bool
  | .finished | .crashed _ => true
  | _ => false

/-- What interrupts an `await`: no `Exception`, so that nothing of the engine catches it. -/
def interruption : Exc := { cls := .other "CancelledError" }

/-- The engine with its tasks, and with what the broker holds of it: the
position it polls from and the offset last committed. -/
structure KafkaConsumerEngine where
  parse : String → Except Exc ChatMessageCreatedEvent
  hasHandler : Bool := true
  maxConcurrentTasks : Nat := 50
  processedIds : TTLCache Unit := { maxSize := 10000, defaultTtl := 300 }
  running : Bool := true
  tasks : List RecordTask := []
  position : TopicPartition → Nat
  committed : TopicPartition → Option Nat := fun _ => none
  dlq : List ChatMessageDLQEvent := []

/-- The choices of the environment: what a poll returns, which task goes on,
the clock, and how what it awaited has ended. -/
inductive ConsumerLabel where
  | poll (batch : List ConsumerRecord)
  | start (i : Nat) (now : Seconds)
  | handlerDone (i : Nat) (now : Seconds) (result : Except Exc Unit)
  | sleepDone (i : Nat)
  | publishDone (i : Nat) (result : Except Exc Unit)
  | commitDone (i : Nat) (result : Except Exc Unit)
  | interrupted (i : Nat)
  | stop

namespace KafkaConsumerEngine

variable (s : KafkaConsumerEngine)

/-- One record of a batch: the broker delivers each partition in increasing
offset order. -/
def spawn (msg : ConsumerRecord) : Option KafkaConsumerEngine :=
  if s.position msg.tp ≤ msg.offset then
    some
      { s with
        tasks := s.tasks ++ [{ msg }]
        position := Function.update s.position msg.tp (msg.offset + 1) }
  else none

/-- `_commit_offset` up to its await: nothing is committed once stopped. -/
def commitPhase : Phase := if s.running then .committing else .finished

/-- The dead letter event for a record. -/
def dlqEvent (msg : ConsumerRecord) (key raw errorType errorMessage : String) (now : Seconds)
    (retryCount : Nat := 0) : ChatMessageDLQEvent :=
  { originalTopic := msg.topic
    originalPartition := msg.partition
    originalOffset := msg.offset
    originalKey := some key
    originalValue := some raw
    errorType, errorMessage
    failedAt := now
    retryCount }

/-- `_process_single_message` up to its first await. -/
def process (msg : ConsumerRecord) (now : Seconds) :
    Except Exc (Phase × Option Settlement × TTLCache Unit) := do
  match ← intake s.parse msg with
  | .reject key raw errorType errorMessage =>
    let event := dlqEvent msg key raw errorType errorMessage now
    return (.publishing event .rejected, none, s.processedIds)
  | .request key raw event =>
    let (duplicate, ids) := s.processedIds.contains event.messageId now
    if duplicate then return (s.commitPhase, none, ids)
    -- the id is taken before the handler has run
    let ids := ids.set event.messageId now ()
    -- without a handler the retries return at once
    if !s.hasHandler then return (s.commitPhase, some .handled, ids)
    return (.handling key raw event 1, none, ids)

/-- The `except` branch of `_execute_with_consumer_retries`, and what follows
when it gives up. -/
def handlerFailed (msg : ConsumerRecord) (key raw : String) (event : ChatMessageCreatedEvent)
    (attempt : Nat) (exc : Exc) (now : Seconds) : Phase :=
  if attempt < 3 ∧ isRetriable none exc then .sleeping key raw event attempt
  else
    .publishing
      (dlqEvent msg key raw "PipelineError"
        s!"Processing failed after 3 consumer retries for message {event.messageId}" now 3)
      .deadLettered

def setTask (i : Nat) (task : RecordTask) : KafkaConsumerEngine :=
  { s with tasks := s.tasks.set i task }

/-- One step of the engine; `none` when the label is not enabled. -/
def step (s : KafkaConsumerEngine) : ConsumerLabel → Option KafkaConsumerEngine
  | .poll batch =>
    if s.running ∧ batch.length ≤ 10 then batch.foldlM spawn s else none
  | .start i now =>
    match s.tasks[i]? with
    | some task =>
      match task.phase with
      | .waiting =>
        if (s.tasks.filter (·.phase.running)).length < s.maxConcurrentTasks then
          match s.process task.msg now with
          | .error exc => some (s.setTask i { task with phase := .crashed exc })
          | .ok (phase, settled, processedIds) =>
            some { s.setTask i { task with phase, settled } with processedIds }
        else none
      | _ => none
    | none => none
  | .handlerDone i now result =>
    match s.tasks[i]? with
    | some task =>
      match task.phase, result with
      | .handling _ _ _ _, .ok _ =>
        some (s.setTask i { task with phase := s.commitPhase, settled := some .handled })
      | .handling key raw event attempt, .error exc =>
        some (s.setTask i
          { task with phase := handlerFailed task.msg key raw event attempt exc now })
      | _, _ => none
    | none => none
  | .sleepDone i =>
    match s.tasks[i]? with
    | some task =>
      match task.phase with
      | .sleeping key raw event attempt =>
        some (s.setTask i { task with phase := .handling key raw event (attempt + 1) })
      | _ => none
    | none => none
  | .publishDone i result =>
    match s.tasks[i]? with
    | some task =>
      match task.phase, result with
      | .publishing event kind, .ok _ =>
        some { s.setTask i { task with phase := s.commitPhase, settled := some kind } with
          dlq := s.dlq ++ [event] }
      -- nothing catches a failing publish: the task ends without a commit
      | .publishing _ _, .error exc => some (s.setTask i { task with phase := .crashed exc })
      | _, _ => none
    | none => none
  | .commitDone i result =>
    match s.tasks[i]? with
    | some task =>
      match task.phase, result with
      | .committing, .ok _ =>
        some { s.setTask i { task with phase := .finished } with
          committed := Function.update s.committed task.msg.tp (some (task.msg.offset + 1)) }
      -- a failing commit is only logged
      | .committing, .error _ => some (s.setTask i { task with phase := .finished })
      | _, _ => none
    | none => none
  -- wherever the task is suspended, in its handler or elsewhere
  | .interrupted i =>
    match s.tasks[i]? with
    | some task =>
      if task.phase.ended then none
      else some (s.setTask i { task with phase := .crashed interruption })
    | none => none
  | .stop => some { s with running := false }

end KafkaConsumerEngine

end LlmService
