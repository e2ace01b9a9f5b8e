import LlmService.Basic

/-!
# Kafka events

The records of `models/request.py` and `models/response.py` that the consumer
and the publisher read and write. Fields that no modelled function reads are
left out; a time is its POSIX reading in seconds.
-/

namespace LlmService

/-- `TraceContext`. -/
structure TraceContext where
  traceparent : String := ""
  tracestate : String := ""
  deriving DecidableEq

/-- `ChatMessageCreatedEvent`. -/
structure ChatMessageCreatedEvent where
  messageId : String
  responseMessageId : Option String := none
  conversationId : String
  userId : String
  content : String
  traceContext : TraceContext := {}
  timestamp : Seconds
  /-- Whether the timestamp came with a time zone. -/
  timestampAware : Bool := true
  /-- `metadata["replaces_message_id"]`. -/
  replacesMessageId : Option String := none
  deriving DecidableEq

/-- `ChatMessageDLQEvent`. -/
structure ChatMessageDLQEvent where
  originalTopic : String
  originalPartition : Nat := 0
  originalOffset : Nat := 0
  originalKey : Option String := none
  originalValue : Option String := none
  errorType : String
  errorMessage : String
  failedAt : Seconds
  retryCount : Nat := 0
  deriving DecidableEq

/-- `UsageMetrics`. -/
structure UsageMetrics where
  promptTokens : Nat := 0
  completionTokens : Nat := 0
  totalTokens : Nat := 0
  deriving DecidableEq

/-- `ChatResponseChunkEvent`. -/
structure ChatResponseChunkEvent where
  conversationId : String
  userId : String
  messageId : String
  responseMessageId : Option String := none
  chunkIndex : Nat
  sequenceNumber : Nat
  content : String
  isLast : Bool := false
  timestamp : Seconds
  deriving DecidableEq

/-- A source under an answer; the times of a video passage, which are read
off its section, are left out. -/
structure Citation where
  fileId : String
  sourceName : String
  pageNumber : Option Nat
  sectionName : Option String
  deriving DecidableEq

/-- `ChatResponseGeneratedEvent`: an answer, or with the status `error` the
notice that there is none. -/
structure ChatResponseGeneratedEvent where
  responseId : String
  conversationId : String
  userId : String
  requestMessageId : String
  responseMessageId : Option String := none
  fullContent : Option String := none
  provider : Option String := some "nvidia"
  generationFallbackUsed : Bool := false
  mode : String := "default"
  skill : String := "general_chat"
  engineType : String := "mode_handler"
  usage : UsageMetrics := {}
  costUsd : ℚ := 0
  latencyMs : ℚ := 0
  ttftMs : ℚ := 0
  finishReason : String := "stop"
  toolsUsed : List String := []
  contextSources : List String := []
  citations : List Citation := []
  traceContext : TraceContext := {}
  status : String := "success"
  errorCode : Option String := none
  errorMessage : Option String := none
  timestamp : Seconds
  deriving DecidableEq

/-- `MemoryUpdateRequestedEvent`. -/
structure MemoryUpdateRequestedEvent where
  conversationId : String
  userId : String
  userMessage : String
  assistantResponse : String
  mode : String := "default"
  timestamp : Seconds
  userMessageId : Option String := none
  assistantMessageId : Option String := none
  userCreatedAt : Option Seconds := none
  assistantCreatedAt : Option Seconds := none
  replacesMessageId : Option String := none
  deriving DecidableEq

/-- `ChatResponseCancelledEvent`. -/
structure ChatResponseCancelledEvent where
  conversationId : String
  userId : String
  messageId : String
  responseMessageId : Option String := none
  reason : String := "client_disconnected"
  timestamp : Seconds
  deriving DecidableEq

/-- The payload of a message to Kafka. -/
inductive Payload where
  | chunk (event : ChatResponseChunkEvent)
  | generated (event : ChatResponseGeneratedEvent)
  | memoryUpdate (event : MemoryUpdateRequestedEvent)
  | cancelled (event : ChatResponseCancelledEvent)
  | dlq (event : ChatMessageDLQEvent)
  deriving DecidableEq

/-- A message as it is handed to the producer. -/
structure KafkaMessage where
  topic : String
  key : String
  payload : Payload
  headers : List (String × String) := []
  deriving DecidableEq

end LlmService
