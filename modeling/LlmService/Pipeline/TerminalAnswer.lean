import LlmService.Lib.Within
import LlmService.Pipeline.RequestPipeline

/-!
# The terminal events of a request

Everything up to the final events is `Quiet`: it keeps the identity of the
request and publishes no `chat.response.generated`. What is left is a case
analysis over the three sends that follow. A request ends with two terminal
events exactly when the answer is published, the memory update behind it
raises, and the error event of the `except` block is published as well.
-/

namespace LlmService

/-- A `chat.response.generated` for the assistant message `target`. -/
def isTerminalFor (target : Option String) (message : KafkaMessage) : Bool :=
  match message.payload with
  | .generated event => event.responseMessageId = target
  | _ => false

/-- A `chat.response.generated`, for whatever message. -/
def isTerminal (message : KafkaMessage) : Bool :=
  match message.payload with
  | .generated _ => true
  | _ => false

theorem isTerminal_of_isTerminalFor {target : Option String} {message : KafkaMessage}
    (h : isTerminalFor target message = true) : isTerminal message = true := by
  unfold isTerminalFor at h
  unfold isTerminal
  split at h
  · rfl
  · cases h

/-- The request's identity stays, and no terminal event is published. -/
def Quiet (w w' : World) : Prop :=
  w'.ctx.toRequestIds = w.ctx.toRequestIds ∧
    ∃ new, w'.log = w.log ++ new ∧ ∀ m ∈ new, isTerminal m = false

/-- How many terminal events for the message a state has seen. -/
def terminals (target : Option String) (w : World) : Nat :=
  w.log.countP (isTerminalFor target)

theorem Quiet.terminals_eq {w w' : World} (h : Quiet w w') (target : Option String) :
    terminals target w' = terminals target w := by
  obtain ⟨_, new, hnew, hquiet⟩ := h
  have hnone : new.countP (isTerminalFor target) = 0 := by
    rw [List.countP_eq_zero]
    intro m hm hterminal
    have hm' := hquiet m hm
    rw [isTerminal_of_isTerminalFor hterminal] at hm'
    cases hm'
  rw [terminals, terminals, hnew, List.countP_append, hnone, Nat.add_zero]

instance : IsPreorder World Quiet where
  refl w := ⟨rfl, [], by simp, by simp⟩
  trans := by
    intro w₁ w₂ w₃ ⟨hids, new, hnew, hquiet⟩ ⟨hids', new', hnew', hquiet'⟩
    refine ⟨hids'.trans hids, new ++ new', by rw [hnew', hnew, List.append_assoc], ?_⟩
    intro m hm
    rcases List.mem_append.mp hm with hm | hm
    · exact hquiet m hm
    · exact hquiet' m hm

theorem quiet_readClock (env : Env) : Within Quiet (readClock env) := by
  intro w
  refine ⟨rfl, [], ?_, by simp⟩
  rw [List.append_nil]
  rfl

theorem quiet_modifyCtx {f : PipelineContext → PipelineContext}
    (h : ∀ ctx, (f ctx).toRequestIds = ctx.toRequestIds) : Within Quiet (modifyCtx f) :=
  Within.modifyState fun w => ⟨h w.ctx, [], by simp, by simp⟩

theorem quiet_send (p : KafkaPublisher) (env : Env) {message : KafkaMessage}
    (h : isTerminal message = false) : Within Quiet (p.send env message) := by
  intro w
  have hsend := p.send_sends env message w
  cases hrun : (p.send env message).run w with
  | ok a w' =>
    rw [hrun] at hsend
    obtain ⟨-, rfl⟩ := hsend
    exact ⟨rfl, [message], rfl, by simpa using h⟩
  | error e w' =>
    rw [hrun] at hsend
    obtain ⟨-, rfl⟩ := hsend
    exact ⟨rfl, [], by simp, by simp⟩

/-- The outcome of sending a terminal event: one more of them if Kafka takes
it, or an exception and none. -/
def Delivers (target : Option String) (acked : Bool) (next : Nat) (w : World) :
    EStateM.Result Exc World Unit → Prop
  | .ok _ w' => acked = true ∧ w'.attempts = next ∧ w'.ctx.toRequestIds = w.ctx.toRequestIds ∧
      terminals target w' = terminals target w + 1
  | .error _ w' => acked = false ∧ w'.attempts = next ∧
      w'.ctx.toRequestIds = w.ctx.toRequestIds ∧ terminals target w' = terminals target w

theorem delivers_send {target : Option String} {w : World} {message : KafkaMessage}
    (p : KafkaPublisher) (env : Env) (h : isTerminalFor target message = true) :
    Delivers target (p.acknowledges env w.attempts) (p.nextAttempt env w.attempts) w
      ((p.send env message).run w) := by
  have hsend := p.send_sends env message w
  cases hrun : (p.send env message).run w with
  | ok a w' =>
    rw [hrun] at hsend
    obtain ⟨hacked, rfl⟩ := hsend
    refine ⟨hacked, rfl, rfl, ?_⟩
    simp [terminals, h]
  | error e w' =>
    rw [hrun] at hsend
    obtain ⟨hacked, rfl⟩ := hsend
    exact ⟨hacked, rfl, rfl, rfl⟩

/-! ## Up to the final events -/

section Quietness

variable (env : Env) (p : KafkaPublisher) (eng : StreamingEngine)

theorem quiet_publishMemoryUpdate (text : String) :
    Within Quiet (p.publishMemoryUpdate env text) := by
  unfold KafkaPublisher.publishMemoryUpdate
  refine .bind .reads fun w => .bind (quiet_readClock env) fun now => ?_
  split
  · exact .bind (.returns _) fun _ => quiet_send p env rfl
  · exact .bind (.raises _) fun _ => quiet_send p env rfl

theorem quiet_publishCancellation (reason : String) :
    Within Quiet (p.publishCancellation env reason) := by
  unfold KafkaPublisher.publishCancellation
  exact .bind .reads fun w => .bind (quiet_readClock env) fun _ => quiet_send p env rfl

theorem quiet_flushBuffer (buffer : List String) (chunkIndex : Nat) (isLast : Bool) :
    Within Quiet (eng.flushBuffer env buffer chunkIndex isLast) := by
  unfold StreamingEngine.flushBuffer
  dsimp only
  split
  · exact .returns _
  · exact .bind .reads fun w => .bind (quiet_readClock env) fun _ => quiet_send _ env rfl

theorem quiet_markFirstChunk (st : StreamState) :
    Within Quiet (StreamingEngine.markFirstChunk env st) := by
  unfold StreamingEngine.markFirstChunk
  split
  · exact .returns _
  · exact .bind (quiet_readClock env) fun _ => quiet_modifyCtx fun _ => rfl

theorem quiet_onToken (rateLimited : Bool) (st : StreamState) (token : String) :
    Within Quiet (eng.onToken env rateLimited st token) := by
  unfold StreamingEngine.onToken
  refine .bind (quiet_readClock env) fun now => ?_
  dsimp only
  split
  · exact .bind (quiet_flushBuffer env eng _ _ _) fun _ =>
      .bind (quiet_markFirstChunk env _) fun _ =>
        .bind (quiet_readClock env) fun _ => .returns _
  · exact .returns _

theorem quiet_streamLoop (rateLimited : Bool) (cancellation : Nat → Option String)
    (failure : Option Exc) (tokens : List String) (n : Nat) (st : StreamState) :
    Within Quiet (eng.streamLoop env rateLimited cancellation failure tokens n st) := by
  induction tokens generalizing n st with
  | nil =>
    unfold StreamingEngine.streamLoop
    split
    · exact .raises _
    · exact .returns _
  | cons token rest ih =>
    unfold StreamingEngine.streamLoop
    split
    · exact .bind (quiet_publishCancellation env _ _) fun _ => .returns _
    · exact .bind (quiet_onToken env eng rateLimited st token) fun st => ih (n + 1) st

theorem quiet_streamChunks (stream : TokenStream) (cancellation : Nat → Option String)
    (rateLimited : Bool) : Within Quiet (eng.streamChunks env stream cancellation rateLimited) := by
  have hstart : Within Quiet (StreamingEngine.startInference env) := by
    unfold StreamingEngine.startInference
    refine .bind .reads fun w => ?_
    split
    · exact .returns _
    · exact .bind (quiet_readClock env) fun _ => quiet_modifyCtx fun _ => rfl
  have hrest : ∀ st, Within Quiet (eng.flushRest env st) := by
    intro st
    unfold StreamingEngine.flushRest
    split
    · exact .returns _
    · exact .bind (quiet_markFirstChunk env st) fun _ => quiet_flushBuffer env eng _ _ _
  have hfirst : ∀ ctx, ((if stream.tokens.isEmpty then id else stream.onFirst) ctx).toRequestIds
      = ctx.toRequestIds := by
    intro ctx
    split
    · rfl
    · exact stream.onFirst_ids ctx
  unfold StreamingEngine.streamChunks
  refine .bind hstart fun _ => .bind (quiet_readClock env) fun _ =>
    .bind (quiet_modifyCtx hfirst) fun _ =>
      .bind (quiet_streamLoop env eng _ _ _ _ _ _) fun exit => ?_
  cases exit with
  | inr text => exact .returns _
  | inl st =>
    exact .bind (hrest st) fun _ => .bind (quiet_readClock env) fun _ =>
      .bind (quiet_modifyCtx fun _ => rfl) fun _ => .returns _

end Quietness

namespace RequestPipeline

variable (pl : RequestPipeline) (env : Env)

theorem quiet_generate : Within Quiet (pl.generate env) := by
  have hstages : Within Quiet pl.runStages := by
    intro w
    have hquiet : Quiet w { w with ctx := (pl.prepare w.ctx).1 } :=
      ⟨pl.prepare_ids w.ctx, [], by simp, by simp⟩
    simp only [runStages, modifyCtx, EStateM.run_bind, EStateM.run_get, EStateM.run_modify]
    cases (pl.prepare w.ctx).2 with
    | ok generation => exact hquiet
    | error exc => exact hquiet
  have hstart : ∀ generation, Within Quiet (startGeneration env generation) := by
    intro generation
    unfold startGeneration
    exact .bind (quiet_readClock env) fun _ =>
      .bind (quiet_modifyCtx fun _ => rfl) fun _ => .returns _
  unfold generate
  exact .bind hstages fun generation => .bind (hstart generation) fun _ =>
    quiet_streamChunks env _ _ _ _

/-- The final events of a finished stream. -/
def finalEvents : StreamExit → Program Unit
  | .cancelled _ => pure ()
  | .finished text => do
    pl.publisher.publishResponse env text
    pl.publisher.publishMemoryUpdate env text

theorem body_eq : pl.body env = pl.generate env >>= pl.finalEvents env := by
  simp only [body, generate, StreamingEngine.stream, bind_assoc]
  congr 1
  funext generation
  congr 1
  funext stream
  congr 1
  funext exit
  cases exit with
  | cancelled text => rfl
  | finished text => simp [finalEvents, publisher]

/-! ## The final events -/

section FinalEvents

variable {target : Option String} {w : World}

theorem delivers_publishResponse (text : String) (ht : w.ctx.responseMessageId = target) :
    Delivers target (pl.publisher.acknowledges env w.attempts)
      (pl.publisher.nextAttempt env w.attempts) w
      ((pl.publisher.publishResponse env text).run w) :=
  delivers_send (w := { w with readings := w.readings + 1 + 1 }) _ _ (by simp [isTerminalFor, ht])

/-- The `except` block returns, with its event published if Kafka takes it. -/
theorem onError_cases (exc : Exc) (ht : w.ctx.responseMessageId = target) :
    ∃ w', (pl.onError env exc).run w = .ok () w' ∧
      (pl.publisher.acknowledges env w.attempts = true ∧
          terminals target w' = terminals target w + 1 ∨
        pl.publisher.acknowledges env w.attempts = false ∧
          terminals target w' = terminals target w) := by
  let event := ErrorHandler.buildErrorResponseEvent w.ctx exc (env.clock w.readings)
  let w₁ : World := { w with readings := w.readings + 1 }
  have hevent : (errorEvent env exc).run w = .ok event w₁ := rfl
  have hsend : Delivers target (pl.publisher.acknowledges env w.attempts)
      (pl.publisher.nextAttempt env w.attempts) w₁
      ((pl.publisher.publishErrorResponse env event).run w₁) := by
    apply delivers_send (w := w₁)
    simp [isTerminalFor, event, ErrorHandler.buildErrorResponseEvent, ht]
  have hrun : (pl.onError env exc).run w =
      (tryCatch (pl.publisher.publishErrorResponse env event) fun _ => pure ()).run w₁ := by
    simp only [onError, EStateM.run_bind, hevent]
  rw [hrun, run_tryCatch]
  cases hres : (pl.publisher.publishErrorResponse env event).run w₁ with
  | ok a w₂ =>
    rw [hres] at hsend
    exact ⟨w₂, rfl, .inl ⟨hsend.1, hsend.2.2.2⟩⟩
  | error e w₂ =>
    rw [hres] at hsend
    exact ⟨w₂, rfl, .inr ⟨hsend.1, hsend.2.2.2⟩⟩

end FinalEvents

/-- With `n` send attempts made so far: the answer is published as completed,
the memory update raises, and the error event is published as well. -/
def AnswersTwiceFrom (messageId : String) (n : Nat) : Prop :=
  let afterAnswer := pl.publisher.nextAttempt env n
  pl.publisher.acknowledges env n = true ∧
    pl.publisher.memoryUpdateRaises env messageId afterAnswer = true ∧
    pl.publisher.acknowledges env
      (pl.publisher.attemptAfterMemory env messageId afterAnswer) = true

/-- The stream comes to its end, and the request answers twice from there. -/
def AnswersTwice (event : ChatMessageCreatedEvent) (requestId : String) : Prop :=
  preamble event = .ok () ∧ ∃ text w,
    (pl.generate env).run (initial env event requestId) = .ok (.finished text) w ∧
    pl.AnswersTwiceFrom env event.messageId w.attempts

/-- The memory update and what follows it, after the answer is published. -/
theorem terminals_memoryUpdate {target : Option String} {w : World} (text : String)
    (ht : w.ctx.responseMessageId = target) (hw : terminals target w = 1) :
    terminals target (endState ((tryCatch (pl.publisher.publishMemoryUpdate env text)
        (pl.onError env)).run w)) ≤ 1 ↔
      ¬ (pl.publisher.memoryUpdateRaises env w.ctx.messageId w.attempts = true ∧
        pl.publisher.acknowledges env
          (pl.publisher.attemptAfterMemory env w.ctx.messageId w.attempts) = true) := by
  have hquiet := quiet_publishMemoryUpdate env pl.publisher text
  have hresult := pl.publisher.publishMemoryUpdate_result env text w
  rw [run_tryCatch]
  cases hmemory : (pl.publisher.publishMemoryUpdate env text).run w with
  | ok a w' =>
    have hcount := (hquiet.of_ok hmemory).terminals_eq target
    rw [hmemory] at hresult
    have hle : terminals target w' ≤ 1 := by omega
    simpa [hresult] using hle
  | error exc w' =>
    have hcount := (hquiet.of_error hmemory).terminals_eq target
    have hid := congrArg RequestIds.responseMessageId (hquiet.of_error hmemory).1
    rw [hmemory] at hresult
    obtain ⟨hraises, hattempts⟩ := hresult
    obtain ⟨w'', hrun, hcases⟩ := pl.onError_cases env exc (hid.trans ht)
    rw [hattempts] at hcases
    simp only [hrun, endState_ok, hraises, true_and]
    rcases hcases with ⟨hacked, h⟩ | ⟨hacked, h⟩
    · simp only [hacked, not_true_eq_false, iff_false]
      omega
    · simp only [hacked, Bool.false_eq_true, not_false_eq_true, iff_true]
      omega

/-- The error path alone publishes at most one terminal event. -/
theorem terminals_onError {target : Option String} {w : World} (exc : Exc)
    (ht : w.ctx.responseMessageId = target) (hw : terminals target w = 0) :
    terminals target (endState ((pl.onError env exc).run w)) ≤ 1 := by
  obtain ⟨w', hrun, hcases⟩ := pl.onError_cases env exc ht
  rw [hrun, endState_ok]
  rcases hcases with ⟨_, h⟩ | ⟨_, h⟩ <;> omega

theorem terminals_finalEvents {target : Option String} {w : World} (text : String)
    (ht : w.ctx.responseMessageId = target) (hw : terminals target w = 0) :
    terminals target (endState ((tryCatch (pl.finalEvents env (.finished text))
        (pl.onError env)).run w)) ≤ 1 ↔
      ¬ pl.AnswersTwiceFrom env w.ctx.messageId w.attempts := by
  have hanswer := pl.delivers_publishResponse env text ht
  simp only [finalEvents, AnswersTwiceFrom]
  cases hresponse : (pl.publisher.publishResponse env text).run w with
  | error exc w₁ =>
    rw [hresponse] at hanswer
    obtain ⟨hacked, -, hids, hcount⟩ := hanswer
    have hid := congrArg RequestIds.responseMessageId hids
    have hle := pl.terminals_onError env exc (hid.trans ht) (hcount.trans hw)
    rw [run_tryCatch_bind_of_error hresponse]
    simpa [hacked] using hle
  | ok a w₁ =>
    -- the answer is out: from here on only the error event can be a second one
    rw [hresponse] at hanswer
    obtain ⟨hacked, hattempts, hids, hcount⟩ := hanswer
    have hid := congrArg RequestIds.responseMessageId hids
    have hmessage : w₁.ctx.messageId = w.ctx.messageId := congrArg RequestIds.messageId hids
    rw [run_tryCatch_bind_of_ok hresponse,
      pl.terminals_memoryUpdate env text (hid.trans ht) (by omega), hmessage, hattempts]
    simp only [hacked, true_and]

/-- A request ends with at most one terminal event for its assistant message
exactly when it does not answer twice. -/
theorem terminals_le_one_iff (event : ChatMessageCreatedEvent) (requestId : String) :
    terminals event.responseMessageId (endState (pl.run env event requestId)) ≤ 1 ↔
      ¬ pl.AnswersTwice env event requestId := by
  have hnone : terminals event.responseMessageId (initial env event requestId) = 0 := rfl
  have hquiet := pl.quiet_generate env
  unfold run AnswersTwice
  cases hpre : preamble event with
  | error exc => simp [hnone]
  | ok u =>
    simp only [body_eq]
    cases hgen : (pl.generate env).run (initial env event requestId) with
    | error exc w =>
      have hid : w.ctx.responseMessageId = event.responseMessageId :=
        congrArg RequestIds.responseMessageId (hquiet.of_error hgen).1
      have hcount := (hquiet.of_error hgen).terminals_eq event.responseMessageId
      rw [run_tryCatch_bind_of_error hgen]
      constructor
      · intro _ htwice
        obtain ⟨_, _, _, hfinished, _⟩ := htwice
        cases hfinished
      · intro _
        exact pl.terminals_onError env exc hid (hcount.trans hnone)
    | ok exit w =>
      have hids := (hquiet.of_ok hgen).1
      have hid : w.ctx.responseMessageId = event.responseMessageId :=
        congrArg RequestIds.responseMessageId hids
      have hmessage : w.ctx.messageId = event.messageId := congrArg RequestIds.messageId hids
      have hcount := (hquiet.of_ok hgen).terminals_eq event.responseMessageId
      rw [run_tryCatch_bind_of_ok hgen]
      cases exit with
      | cancelled text =>
        constructor
        · intro _ htwice
          obtain ⟨_, _, _, hfinished, _⟩ := htwice
          cases hfinished
        · intro _
          show terminals event.responseMessageId w ≤ 1
          omega
      | finished text =>
        rw [pl.terminals_finalEvents env text hid (hcount.trans hnone), hmessage]
        constructor
        · intro hno htwice
          obtain ⟨_, text', w', hfinished, htwice⟩ := htwice
          cases hfinished
          exact hno htwice
        · intro hno htwice
          exact hno ⟨trivial, text, w, rfl, htwice⟩

/-! ## A message id from the far future -/

/-- A pipeline whose router answers `Hello`. -/
def helloPipeline : RequestPipeline where
  prepare ctx := (ctx, .ok { providerName := "gemini", tokens := ["Hello"], route := none })
  prepare_ids _ := rfl

/-- Kafka acknowledges everything. -/
def calmEnv : Env where
  broker _ := none
  clock n := n

/-- The UUIDv7 of the last millisecond that it can hold, in the year 10889. -/
def farFuture : ChatMessageCreatedEvent where
  messageId := "ffffffff-ffff-7fff-bfff-ffffffffffff"
  responseMessageId := some "a1"
  conversationId := "c1"
  userId := "u1"
  content := "hi"
  timestamp := 0

theorem farFuture_answered_twice :
    ¬ ∀ (pl : RequestPipeline) (env : Env) (event : ChatMessageCreatedEvent)
      (requestId : String),
      terminals event.responseMessageId (endState (pl.run env event requestId)) ≤ 1 := by
  intro h
  have htwo : terminals farFuture.responseMessageId
      (endState (helloPipeline.run calmEnv farFuture "r1")) = 2 := by
    decide +kernel
  have hle := h helloPipeline calmEnv farFuture "r1"
  omega

end RequestPipeline

end LlmService
