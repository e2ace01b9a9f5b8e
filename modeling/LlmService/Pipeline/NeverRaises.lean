import LlmService.Models.AcceptedEvent
import LlmService.Pipeline.TerminalAnswer
import LlmService.Services.Chunks

/-!
# Whether a request is answered

`RequestPipeline.run` from its first statement to its last, on any event that
validation accepts: how it ends, what Kafka has taken by then, and the events
it has called `publish_error_response` with. Its `try` block does not cover
the preamble, and neither of its `except` clauses takes a cancellation.
-/

namespace LlmService

/-- The end of a run. -/
structure Report where
  result : Except Exc Unit
  log : List KafkaMessage := []
  errorResponses : List ChatResponseGeneratedEvent := []

namespace RequestPipeline

variable (pl : RequestPipeline) (env : Env) (lower : String → String)

/-- The state in which the `try` block starts. -/
def contextWorld (ctx : RequestContext) : World := { ctx := ctx.toPipelineContext, readings := 1 }

/-- The `except` block, in the state the exception left. -/
def reportError (exc : Exc) (w : World) : Report :=
  match (errorEvent env exc).run w with
  | .error exc w => { result := .error exc, log := w.log }
  | .ok event w =>
    -- that the error event is not taken is only logged
    { result := .ok ()
      log := (endState ((pl.publisher.publishErrorResponse env event).run w)).log
      errorResponses := [event] }

/-- `run`. Its task may be cancelled once it awaits; `cancelled` is then what
Kafka has taken by that time. -/
def runAccepted (event : AcceptedEvent) (requestId : String)
    (cancelled : Option (List KafkaMessage)) : Report :=
  match event.toContext lower requestId (env.clock 0) with
  | .error exc => { result := .error exc }
  | .ok ctx =>
    -- the queue delay is taken before the `try` block
    match preamble (event.toEvent none) with
    | .error exc => { result := .error exc }
    | .ok () =>
      match cancelled with
      | some log => { result := .error { cls := .other "CancelledError" }, log }
      | none =>
        match (pl.body env).run (contextWorld ctx) with
        | .ok () w => { result := .ok (), log := w.log }
        | .error exc w => pl.reportError env exc w

/-! ## The same run -/

theorem reportError_eq (exc : Exc) (w : World) :
    (pl.reportError env exc w).result = .ok ()
      ∧ (pl.reportError env exc w).log = (endState ((pl.onError env exc).run w)).log := by
  have hevent : (errorEvent env exc).run w
      = .ok (ErrorHandler.buildErrorResponseEvent w.ctx exc (env.clock w.readings))
          { w with readings := w.readings + 1 } := rfl
  rw [reportError, hevent, onError, EStateM.run_bind, hevent]
  refine ⟨rfl, ?_⟩
  dsimp only
  rw [run_tryCatch]
  split
  · rename_i w' hrun
    rw [hrun]
  · rename_i exc' w' hrun
    rw [hrun]
    rfl

/-- On an event that gets through the preamble this is `run`, started in the
context of the event. -/
theorem runAccepted_eq {event : AcceptedEvent} {requestId : String} {ctx : RequestContext}
    (hctx : event.toContext lower requestId (env.clock 0) = .ok ctx)
    (haware : event.timestampAware = true) :
    (pl.runAccepted env lower event requestId none).result = .ok ()
      ∧ (pl.runAccepted env lower event requestId none).log
        = (endState ((tryCatch (pl.body env) (pl.onError env)).run (contextWorld ctx))).log := by
  have hpreamble : preamble (event.toEvent none) = .ok () := if_pos haware
  rw [runAccepted, hctx, run_tryCatch]
  dsimp only
  rw [hpreamble]
  cases hbody : (pl.body env).run (contextWorld ctx) with
  | ok a w => exact ⟨rfl, rfl⟩
  | error exc w => exact pl.reportError_eq env exc w

/-- With the citations shown, the state is the one `run` starts in. -/
theorem contextWorld_eq {event : AcceptedEvent} {requestId : String} {ctx : RequestContext}
    (hctx : event.toContext lower requestId (env.clock 0) = .ok ctx)
    (hshown : ctx.preferences.citations = .shown) :
    ∃ replaced, event.replacesMessageId = .ok replaced
      ∧ contextWorld ctx = initial env (event.toEvent replaced) requestId := by
  obtain ⟨replaced, hreplaced, heq⟩ := AcceptedEvent.toContext_eq_ok lower hctx
  refine ⟨replaced, hreplaced, ?_⟩
  rw [contextWorld, heq, hshown]
  rfl

/-! ## The `try` block -/

section Completion

variable {request : AcceptedEvent}

/-- The identity of the request. -/
structure Identifies (ids : RequestIds) (request : AcceptedEvent) : Prop where
  conversationId : ids.conversationId = request.conversationId
  messageId : ids.messageId = request.messageId
  responseMessageId : ids.responseMessageId = request.responseMessageId

/-- A final event for the request. -/
structure RespondsTo (request : AcceptedEvent) (status : String)
    (event : ChatResponseGeneratedEvent) : Prop where
  status : event.status = status
  conversationId : event.conversationId = request.conversationId
  requestMessageId : event.requestMessageId = request.messageId
  responseMessageId : event.responseMessageId = request.responseMessageId

/-- The completed answer. -/
def CompletesAnswer (request : AcceptedEvent) (message : KafkaMessage) : Prop :=
  ∃ event, message.payload = .generated event ∧ RespondsTo request "success" event

/-- An answer that is acknowledged is in the log. -/
theorem publishResponse_completes (p : KafkaPublisher) (text : String) {w : World}
    (hw : Identifies w.ctx.toRequestIds request) :
    match (p.publishResponse env text).run w with
    | .ok _ w' => w'.ctx = w.ctx ∧ ∃ answer ∈ w'.log, CompletesAnswer request answer
    | .error _ w' => w'.ctx = w.ctx := by
  have hanswer : ∃ message, CompletesAnswer request message
      ∧ (p.publishResponse env text).run w
        = (p.send env message).run { w with readings := w.readings + 2 } := by
    simp only [KafkaPublisher.publishResponse, EStateM.run_bind, EStateM.run_get]
    exact ⟨_, ⟨_, rfl, rfl, hw.conversationId, hw.messageId, hw.responseMessageId⟩, rfl⟩
  obtain ⟨message, hmessage, hrun⟩ := hanswer
  have hsend := p.send_sends env message { w with readings := w.readings + 2 }
  rw [hrun]
  cases hresult : (p.send env message).run { w with readings := w.readings + 2 } with
  | ok a w' =>
    rw [hresult] at hsend
    obtain ⟨-, rfl⟩ := hsend
    exact ⟨rfl, message, List.mem_append_right w.log List.mem_cons_self, hmessage⟩
  | error exc w' =>
    rw [hresult] at hsend
    obtain ⟨-, rfl⟩ := hsend
    rfl

/-- Nothing cancels the stream of a request, so it comes to its end. -/
theorem generate_finished {w w' : World} {exit : StreamExit}
    (h : (pl.generate env).run w = .ok exit w') : ∃ text, exit = .finished text := by
  rw [generate, EStateM.run_bind] at h
  cases hstages : pl.runStages.run w with
  | error exc w₁ =>
    rw [hstages] at h
    cases h
  | ok generation w₁ =>
    rw [hstages] at h
    dsimp only at h
    rw [EStateM.run_bind] at h
    cases hstart : (startGeneration env generation).run w₁ with
    | error exc w₂ =>
      rw [hstart] at h
      cases h
    | ok stream w₂ =>
      rw [hstart] at h
      have hstreams := StreamingEngine.streamChunks_streams pl.streamingEngine env false stream
        (fun _ => none) w₂ fun _ _ => rfl
      dsimp only at h
      rw [h] at hstreams
      cases exit with
      | cancelled text => exact hstreams.elim
      | finished text => exact ⟨text, rfl⟩

/-- Where the `try` block returns, the completed answer has been published;
where it raises, the request has kept its identity. -/
theorem body_completes {w : World} (hw : Identifies w.ctx.toRequestIds request) :
    match (pl.body env).run w with
    | .ok _ w' => ∃ answer ∈ w'.log, CompletesAnswer request answer
    | .error _ w' => Identifies w'.ctx.toRequestIds request := by
  rw [body_eq, EStateM.run_bind]
  cases hgenerate : (pl.generate env).run w with
  | error exc w₁ =>
    dsimp only
    rw [((pl.quiet_generate env).of_error hgenerate).1]
    exact hw
  | ok exit w₁ =>
    have hw₁ : Identifies w₁.ctx.toRequestIds request := by
      rw [((pl.quiet_generate env).of_ok hgenerate).1]
      exact hw
    obtain ⟨text, rfl⟩ := pl.generate_finished env hgenerate
    have hresponse := publishResponse_completes env pl.publisher text hw₁
    dsimp only
    rw [finalEvents, EStateM.run_bind]
    cases hpublish : (pl.publisher.publishResponse env text).run w₁ with
    | error exc w₂ =>
      rw [hpublish] at hresponse
      dsimp only at hresponse ⊢
      rw [hresponse]
      exact hw₁
    | ok a w₂ =>
      rw [hpublish] at hresponse
      obtain ⟨hctx, answer, hanswer, hcompletes⟩ := hresponse
      have hquiet := quiet_publishMemoryUpdate env pl.publisher text
      dsimp only
      cases hmemory : (pl.publisher.publishMemoryUpdate env text).run w₂ with
      | error exc w₃ =>
        dsimp only
        rw [(hquiet.of_error hmemory).1, hctx]
        exact hw₁
      | ok b w₃ =>
        obtain ⟨-, new, hnew, -⟩ := hquiet.of_ok hmemory
        refine ⟨answer, ?_, hcompletes⟩
        rw [hnew]
        exact List.mem_append_left new hanswer

/-! ## Whether it is answered -/

/-- The run returns, with the answer published or the error event handed over. -/
structure Answered (request : AcceptedEvent) (report : Report) : Prop where
  returns : report.result = .ok ()
  attempted : (∃ answer ∈ report.log, CompletesAnswer request answer)
    ∨ ∃ event ∈ report.errorResponses, RespondsTo request "error" event

theorem answered_reportError (exc : Exc) {w : World}
    (hw : Identifies w.ctx.toRequestIds request) : Answered request (pl.reportError env exc w) := by
  refine ⟨(pl.reportError_eq env exc w).1, .inr ?_⟩
  exact ⟨_, List.mem_cons_self, rfl, hw.conversationId, hw.messageId, hw.responseMessageId⟩

theorem identifies_contextWorld {requestId : String} {now : Seconds} {ctx : RequestContext}
    (h : request.toContext lower requestId now = .ok ctx) :
    Identifies (contextWorld ctx).ctx.toRequestIds request := by
  obtain ⟨replaced, -, heq⟩ := AcceptedEvent.toContext_eq_ok lower h
  rw [contextWorld, heq]
  exact ⟨rfl, rfl, rfl⟩

end Completion

/-- A request is answered exactly when its timestamp has a time zone, its
metadata does not put anything but a text in the place of the id that the
message replaces, and its task is not cancelled. -/
theorem answered_iff (pl : RequestPipeline) (env : Env) (lower : String → String)
    (event : AcceptedEvent) (requestId : String) (cancelled : Option (List KafkaMessage)) :
    Answered event (pl.runAccepted env lower event requestId cancelled)
      ↔ event.ReplacesText ∧ event.timestampAware = true ∧ cancelled = none := by
  have hraises : ∀ exc log, ¬ Answered event { result := .error exc, log } := by
    intro exc log h
    cases h.returns
  rw [← AcceptedEvent.exists_toContext_iff lower requestId (env.clock 0),
    runAccepted]
  cases hctx : event.toContext lower requestId (env.clock 0) with
  | error exc =>
    refine iff_of_false (hraises exc []) ?_
    rintro ⟨⟨ctx, h⟩, -⟩
    cases h
  | ok ctx =>
    rw [and_iff_right ⟨ctx, rfl⟩]
    dsimp only
    cases haware : event.timestampAware with
    | false =>
      rw [preamble, if_neg (by simp [AcceptedEvent.toEvent, haware])]
      refine iff_of_false (hraises _ []) ?_
      rintro ⟨h, -⟩
      cases h
    | true =>
      rw [preamble, if_pos (by simp [AcceptedEvent.toEvent, haware])]
      cases cancelled with
      | some log =>
        refine iff_of_false (hraises _ log) ?_
        rintro ⟨-, h⟩
        cases h
      | none =>
        refine iff_of_true ?_ ⟨rfl, rfl⟩
        have hbody := pl.body_completes env (identifies_contextWorld lower hctx)
        dsimp only
        cases hrun : (pl.body env).run (contextWorld ctx) with
        | ok a w =>
          rw [hrun] at hbody
          exact ⟨rfl, .inl hbody⟩
        | error exc w =>
          rw [hrun] at hbody
          exact pl.answered_reportError env exc hbody

/-! ## A replaced message that is a number -/

/-- An event whose metadata names the replaced message by a number. -/
def numberedReplacement : AcceptedEvent where
  messageId := "m1"
  responseMessageId := some "a1"
  conversationId := "c1"
  userId := "u1"
  content := "hi"
  metadata := [("replaces_message_id", .int 7)]
  timestamp := 0

/-- It is not answered: no context can be built from it. -/
theorem numberedReplacement_unanswered :
    ¬ Answered numberedReplacement
      (helloPipeline.runAccepted calmEnv id numberedReplacement "r1" none) := by
  intro h
  have hctx : numberedReplacement.toContext id "r1" (calmEnv.clock 0)
      = .error (validationError "replaces_message_id: Input should be a valid string") := by
    rfl
  have hreturns := h.returns
  rw [runAccepted, hctx] at hreturns
  cases hreturns

end RequestPipeline

end LlmService
