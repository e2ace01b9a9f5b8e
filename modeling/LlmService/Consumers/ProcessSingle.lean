import LlmService.Consumers.AtLeastOnce

/-!
# One record

`_process_single_message` from its first statement to its last, with a dead
letter queue and a broker that take everything: what it has done for the
record when it returns. A run of the step system that lets nothing but this
one task go on does the same.
-/

namespace LlmService

/-- How a call of the handler ends: it returns, it raises an `Exception`, or
it is interrupted by an exception of another kind, such as a cancellation. -/
inductive HandlerOutcome where
  | returned
  | raised (exc : Exc)
  | interrupted
  deriving DecidableEq

/-- What is done for a record: the handler has returned, a dead letter event
is published, the id is found in the idempotency cache, an offset is committed. -/
inductive ConsumerEffect where
  | handlerReturned
  | published (event : ChatMessageDLQEvent)
  | duplicate (messageId : String)
  | committed (tp : TopicPartition) (offset : Nat)
  deriving DecidableEq

namespace KafkaConsumerEngine

variable (s : KafkaConsumerEngine)

/-- `_commit_offset`: nothing is committed once stopped. -/
def commitOffset (msg : ConsumerRecord) : List ConsumerEffect :=
  if s.running then [.committed msg.tp (msg.offset + 1)] else []

/-- The attempts of `_execute_with_consumer_retries`; only an `Exception` is caught. -/
def attemptHandler (outcome : Nat → HandlerOutcome) (attempt : Nat) : Except Exc Bool :=
  match outcome attempt with
  | .returned => .ok true
  | .interrupted => .error interruption
  | .raised exc =>
    if attempt < 3 ∧ isRetriable none exc then attemptHandler outcome (attempt + 1) else .ok false
  termination_by 3 - attempt

/-- `_execute_with_consumer_retries`: whether it succeeded, and whether the
handler has returned; without a handler it succeeds at once. -/
def executeWithConsumerRetries (outcome : Nat → HandlerOutcome) :
    Except Exc (Bool × List ConsumerEffect) :=
  if !s.hasHandler then .ok (true, [])
  else
    match attemptHandler outcome 1 with
    | .error exc => .error exc
    | .ok true => .ok (true, [.handlerReturned])
    | .ok false => .ok (false, [])

/-- `_process_single_message`; the clock reads `now` at the idempotency check
and `later` once the handler is given up. -/
def processSingleMessage (msg : ConsumerRecord) (now later : Seconds)
    (outcome : Nat → HandlerOutcome) : Except Exc (List ConsumerEffect × TTLCache Unit) :=
  match intake s.parse msg with
  | .error exc => .error exc
  | .ok (.reject key raw errorType errorMessage) =>
    .ok (.published (dlqEvent msg key raw errorType errorMessage now) :: s.commitOffset msg,
      s.processedIds)
  | .ok (.request key raw event) =>
    let (duplicate, ids) := s.processedIds.contains event.messageId now
    if duplicate then .ok (.duplicate event.messageId :: s.commitOffset msg, ids)
    else
      let ids := ids.set event.messageId now ()
      match s.executeWithConsumerRetries outcome with
      | .error exc => .error exc
      | .ok (true, effects) => .ok (effects ++ s.commitOffset msg, ids)
      | .ok (false, effects) =>
        .ok
          (effects
            ++ .published
                (dlqEvent msg key raw "PipelineError"
                  s!"Processing failed after 3 consumer retries for message {event.messageId}"
                  later 3)
            :: s.commitOffset msg, ids)

/-- What the end of a record says of it. -/
def Ends (msg : ConsumerRecord) (now : Seconds) : ConsumerEffect → Prop
  | .handlerReturned => True
  | .published event => event.originalPartition = msg.partition ∧ event.originalOffset = msg.offset
  | .duplicate messageId => (s.processedIds.contains messageId now).1 = true
  | .committed _ _ => False

/-- The record ends in exactly one way: the handler has returned, one dead
letter event with its partition and offset is published, or its id is in the
idempotency cache; then the offset after it is committed. -/
def Accounted (msg : ConsumerRecord) (now : Seconds) (effects : List ConsumerEffect) : Prop :=
  ∃ ending, effects = [ending, .committed msg.tp (msg.offset + 1)] ∧ s.Ends msg now ending

/-! ## When the bytes decode -/

/-- The bytes, if there are any, are UTF-8. -/
def Decodes (value : Option ByteArray) : Prop :=
  ∀ bytes, value = some bytes → (String.fromUTF8? bytes).isSome = true

/-- So are the values of the trace headers. -/
def TraceDecodes (headers : List (String × Option ByteArray)) : Prop :=
  ∀ header ∈ headers, header.1 = "traceparent" ∨ header.1 = "tracestate" → Decodes header.2

theorem exists_decodeOr_iff (absent : String) (value : Option ByteArray) :
    (∃ text, decodeOr absent value = .ok text) ↔ Decodes value := by
  cases value with
  | none => exact iff_of_true ⟨absent, rfl⟩ (fun bytes h => nomatch h)
  | some bytes =>
    rw [decodeOr, decodeUtf8]
    constructor
    · rintro ⟨text, htext⟩ other hother
      obtain rfl := Option.some.inj hother
      cases hdecode : String.fromUTF8? bytes with
      | none =>
        rw [hdecode] at htext
        cases htext
      | some text => rfl
    · intro h
      obtain ⟨text, htext⟩ := Option.isSome_iff_exists.mp (h bytes rfl)
      exact ⟨text, by rw [htext]⟩

/-- Decoding comes first, whatever is done with the text. -/
theorem exists_decodeOr_bind_iff {α : Type} {absent : String} {value : Option ByteArray}
    {rest : String → Except Exc α} {ok : Prop} (hrest : ∀ text, (∃ a, rest text = .ok a) ↔ ok) :
    (∃ a, (decodeOr absent value >>= rest) = .ok a) ↔ Decodes value ∧ ok := by
  rw [← exists_decodeOr_iff absent]
  cases hdecode : decodeOr absent value with
  | error exc =>
    refine iff_of_false ?_ ?_
    · rintro ⟨a, ha⟩
      cases ha
    · rintro ⟨⟨text, htext⟩, -⟩
      cases htext
  | ok text =>
    show (∃ a, rest text = .ok a) ↔ _
    rw [hrest, and_iff_right ⟨text, rfl⟩]

theorem traceDecodes_cons_iff {key : String} {value : Option ByteArray}
    {headers : List (String × Option ByteArray)} :
    TraceDecodes ((key, value) :: headers)
      ↔ (key = "traceparent" ∨ key = "tracestate" → Decodes value) ∧ TraceDecodes headers := by
  rw [TraceDecodes, List.forall_mem_cons]
  rfl

theorem exists_traceHeaders_iff (headers : List (String × Option ByteArray)) (found : TraceContext) :
    (∃ trace, traceHeaders headers found = .ok trace) ↔ TraceDecodes headers := by
  induction headers generalizing found with
  | nil => exact iff_of_true ⟨found, rfl⟩ (fun header h => absurd h List.not_mem_nil)
  | cons header headers ih =>
    obtain ⟨key, value⟩ := header
    rw [traceDecodes_cons_iff, traceHeaders]
    by_cases hparent : key = "traceparent"
    · rw [if_pos hparent, exists_decodeOr_bind_iff (fun text => ih _),
        forall_prop_of_true (.inl hparent)]
    · rw [if_neg hparent]
      by_cases hstate : key = "tracestate"
      · rw [if_pos hstate, exists_decodeOr_bind_iff (fun text => ih _),
          forall_prop_of_true (.inr hstate)]
      · rw [if_neg hstate, ih, forall_prop_of_false (not_or.mpr ⟨hparent, hstate⟩), true_and]

theorem withTrace_messageId (event : ChatMessageCreatedEvent) (found : TraceContext) :
    (withTrace event found).messageId = event.messageId := by
  rw [withTrace]
  split_ifs <;> rfl

theorem withTrace_responseMessageId (event : ChatMessageCreatedEvent) (found : TraceContext) :
    (withTrace event found).responseMessageId = event.responseMessageId := by
  rw [withTrace]
  split_ifs <;> rfl

/-! ## What becomes of a record -/

variable {s} {msg : ConsumerRecord} {now later : Seconds} {outcome : Nat → HandlerOutcome}

/-- The text of the value, which the event is parsed from. -/
def Parses (s : KafkaConsumerEngine) (msg : ConsumerRecord) (event : ChatMessageCreatedEvent) : Prop :=
  ∃ raw, decodeOr "None" msg.value = .ok raw ∧ s.parse raw = .ok event

/-- The record gets to the handler: it can be answered and is no duplicate. -/
def Fresh (s : KafkaConsumerEngine) (event : ChatMessageCreatedEvent) (now : Seconds) : Prop :=
  event.responseMessageId.getD "" ≠ "" ∧ (s.processedIds.contains event.messageId now).1 = false

/-- A failure that is worth another attempt. -/
def Retried (outcome : HandlerOutcome) : Prop :=
  ∃ exc, outcome = .raised exc ∧ isRetriable none exc = true

/-- From the given attempt on, none that is made is interrupted: one is made
after failures that are all worth another attempt. -/
def UninterruptedFrom (outcome : Nat → HandlerOutcome) (attempt : Nat) : Prop :=
  ∀ k, attempt ≤ k → k ≤ 3 → (∀ j, attempt ≤ j → j < k → Retried (outcome j)) →
    outcome k ≠ .interrupted

theorem uninterruptedFrom_of_not_retried {attempt : Nat} (hne : outcome attempt ≠ .interrupted)
    (h : ¬ (attempt < 3 ∧ Retried (outcome attempt))) : UninterruptedFrom outcome attempt := by
  intro k hk hlast hbefore
  rcases Nat.eq_or_lt_of_le hk with rfl | hlt
  · exact hne
  · exact absurd ⟨by omega, hbefore attempt le_rfl hlt⟩ h

theorem uninterruptedFrom_iff_of_retried {attempt : Nat} (h : Retried (outcome attempt)) :
    UninterruptedFrom outcome attempt ↔ UninterruptedFrom outcome (attempt + 1) := by
  constructor
  · intro hall k hk hlast hbefore
    refine hall k (by omega) hlast (fun j hj hjk => ?_)
    rcases Nat.eq_or_lt_of_le hj with rfl | hlt
    · exact h
    · exact hbefore j hlt hjk
  · intro hlater k hk hlast hbefore
    rcases Nat.eq_or_lt_of_le hk with rfl | hlt
    · obtain ⟨exc, hexc, -⟩ := h
      rw [hexc]
      exact fun hinterrupted => HandlerOutcome.noConfusion hinterrupted
    · exact hlater k hlt hlast (fun j hj hjk => hbefore j (by omega) hjk)

/-- The attempts come to an end exactly when none of them is interrupted. -/
theorem exists_attemptHandler_iff (outcome : Nat → HandlerOutcome) (attempt : Nat)
    (hattempt : attempt ≤ 3) :
    (∃ success, attemptHandler outcome attempt = .ok success)
      ↔ UninterruptedFrom outcome attempt := by
  induction hleft : 3 - attempt using Nat.strong_induction_on generalizing attempt with
  | _ left ih =>
    rw [attemptHandler]
    cases houtcome : outcome attempt with
    | returned =>
      refine iff_of_true ⟨true, rfl⟩ (uninterruptedFrom_of_not_retried ?_ ?_)
      · rw [houtcome]
        exact fun h => HandlerOutcome.noConfusion h
      · rintro ⟨-, exc, hexc, -⟩
        rw [houtcome] at hexc
        cases hexc
    | interrupted =>
      refine iff_of_false (fun h => nomatch h) (fun h => ?_)
      exact h attempt le_rfl hattempt (fun j hj hlt => absurd hlt (by omega)) houtcome
    | raised exc =>
      by_cases hretry : attempt < 3 ∧ isRetriable none exc = true
      · dsimp only
        rw [if_pos hretry, uninterruptedFrom_iff_of_retried ⟨exc, houtcome, hretry.2⟩]
        exact ih (3 - (attempt + 1)) (by omega) (attempt + 1) (by omega) rfl
      · refine iff_of_true ⟨false, if_neg hretry⟩ (uninterruptedFrom_of_not_retried ?_ ?_)
        · rw [houtcome]
          exact fun h => HandlerOutcome.noConfusion h
        · rintro ⟨hlt, exc', hexc, hretriable⟩
          rw [houtcome] at hexc
          obtain rfl := HandlerOutcome.raised.inj hexc
          exact hretry ⟨hlt, hretriable⟩

theorem accounted_cons_iff (ending : ConsumerEffect) :
    s.Accounted msg now (ending :: s.commitOffset msg)
      ↔ s.running = true ∧ s.Ends msg now ending := by
  rw [commitOffset]
  constructor
  · rintro ⟨other, heq, hends⟩
    obtain ⟨rfl, hcommit⟩ := List.cons.inj heq
    by_cases hrunning : s.running = true
    · exact ⟨hrunning, hends⟩
    · rw [if_neg hrunning] at hcommit
      cases hcommit
  · rintro ⟨hrunning, hends⟩
    rw [if_pos hrunning]
    exact ⟨ending, rfl, hends⟩

theorem not_accounted_commitOffset : ¬ s.Accounted msg now (s.commitOffset msg) := by
  rw [commitOffset]
  rintro ⟨ending, heq, -⟩
  split_ifs at heq
  cases heq

/-- What returns with an ending and the commit accounts for the record. -/
theorem accounted_ok_iff {ending : ConsumerEffect} {ids : TTLCache Unit}
    (hends : s.Ends msg now ending) :
    (∃ effects ids', (Except.ok (ending :: s.commitOffset msg, ids) :
          Except Exc (List ConsumerEffect × TTLCache Unit)) = .ok (effects, ids')
        ∧ s.Accounted msg now effects) ↔ s.running = true := by
  constructor
  · rintro ⟨effects, ids', heq, haccounted⟩
    obtain ⟨rfl, -⟩ := Prod.mk.inj (Except.ok.inj heq)
    exact ((accounted_cons_iff ending).mp haccounted).1
  · intro hrunning
    exact ⟨_, _, rfl, (accounted_cons_iff ending).mpr ⟨hrunning, hends⟩⟩

/-! ### What a record turns out to be -/

variable {raw key : String} {event : ChatMessageCreatedEvent}

theorem intake_of_parse_error {exc : Exc} (hraw : decodeOr "None" msg.value = .ok raw)
    (hkey : decodeOr "" msg.key = .ok key) (hparse : s.parse raw = .error exc) :
    intake s.parse msg
      = .ok (.reject key raw "DeserializationError"
          s!"Failed to parse ChatMessageCreatedEvent: {exc.str}") := by
  rw [intake, hraw, hkey]
  dsimp only [bind, Except.bind]
  rw [hparse]
  rfl

/-- The rejection and the request of an event that was parsed. -/
theorem intake_of_parse_ok {found : TraceContext} (hraw : decodeOr "None" msg.value = .ok raw)
    (hkey : decodeOr "" msg.key = .ok key) (hparse : s.parse raw = .ok event)
    (htrace : traceHeaders msg.headers {} = .ok found) :
    intake s.parse msg
      = if event.responseMessageId.getD "" = "" then
          .ok (.reject key raw "ContractViolation"
            ("chat.message.created is missing response_message_id "
              ++ "(requires schema_version >= 2.1)"))
        else .ok (.request key raw (withTrace event found)) := by
  rw [intake, hraw, hkey]
  dsimp only [bind, Except.bind]
  rw [hparse]
  dsimp only
  rw [htrace]
  show (if (withTrace event found).responseMessageId.getD "" = "" then _ else _) = _
  rw [withTrace_responseMessageId]
  rfl

theorem intake_of_trace_error {exc : Exc} (hraw : decodeOr "None" msg.value = .ok raw)
    (hkey : decodeOr "" msg.key = .ok key) (hparse : s.parse raw = .ok event)
    (htrace : traceHeaders msg.headers {} = .error exc) :
    intake s.parse msg = .error exc := by
  rw [intake, hraw, hkey]
  dsimp only [bind, Except.bind]
  rw [hparse]
  dsimp only
  rw [htrace]

theorem intake_of_value_error {exc : Exc} (hraw : decodeOr "None" msg.value = .error exc) :
    intake s.parse msg = .error exc := by
  rw [intake, hraw]
  rfl

theorem intake_of_key_error {exc : Exc} (hraw : decodeOr "None" msg.value = .ok raw)
    (hkey : decodeOr "" msg.key = .error exc) : intake s.parse msg = .error exc := by
  rw [intake, hraw, hkey]
  rfl

/-! ### What is done for it -/

theorem accounted_of_reject {errorType errorMessage : String}
    (h : intake s.parse msg = .ok (.reject key raw errorType errorMessage)) :
    (∃ effects ids, s.processSingleMessage msg now later outcome = .ok (effects, ids)
        ∧ s.Accounted msg now effects) ↔ s.running = true := by
  rw [processSingleMessage, h]
  exact accounted_ok_iff ⟨rfl, rfl⟩

theorem accounted_of_duplicate (h : intake s.parse msg = .ok (.request key raw event))
    (hduplicate : (s.processedIds.contains event.messageId now).1 = true) :
    (∃ effects ids, s.processSingleMessage msg now later outcome = .ok (effects, ids)
        ∧ s.Accounted msg now effects) ↔ s.running = true := by
  rw [processSingleMessage, h]
  dsimp only
  rw [if_pos hduplicate]
  exact accounted_ok_iff hduplicate

theorem accounted_of_fresh (h : intake s.parse msg = .ok (.request key raw event))
    (hfresh : (s.processedIds.contains event.messageId now).1 = false) :
    (∃ effects ids, s.processSingleMessage msg now later outcome = .ok (effects, ids)
        ∧ s.Accounted msg now effects)
      ↔ s.running = true ∧ s.hasHandler = true ∧ UninterruptedFrom outcome 1 := by
  rw [processSingleMessage, h]
  dsimp only
  rw [if_neg (by rw [hfresh]; decide), ← exists_attemptHandler_iff outcome 1 (by decide)]
  rw [executeWithConsumerRetries]
  cases hhandler : s.hasHandler with
  | false =>
    refine iff_of_false ?_ ?_
    · rintro ⟨effects, ids, heq, haccounted⟩
      obtain ⟨rfl, -⟩ := Prod.mk.inj (Except.ok.inj heq)
      exact not_accounted_commitOffset haccounted
    · rintro ⟨-, hhandler, -⟩
      cases hhandler
  | true =>
    cases hattempt : attemptHandler outcome 1 with
    | error exc =>
      refine iff_of_false ?_ ?_
      · rintro ⟨effects, ids, heq, -⟩
        cases heq
      · rintro ⟨-, -, success, hsuccess⟩
        cases hsuccess
    | ok success =>
      have hexists : ∃ ok, (Except.ok success : Except Exc Bool) = .ok ok := ⟨success, rfl⟩
      rw [and_iff_left ⟨rfl, hexists⟩]
      cases success with
      | true => exact accounted_ok_iff trivial
      | false => exact accounted_ok_iff ⟨rfl, rfl⟩

theorem not_accounted_of_error {exc : Exc} (h : intake s.parse msg = .error exc) :
    ¬ ∃ effects ids, s.processSingleMessage msg now later outcome = .ok (effects, ids)
      ∧ s.Accounted msg now effects := by
  rw [processSingleMessage, h]
  rintro ⟨effects, ids, heq, -⟩
  cases heq

/-- What is accounted for once the event and its trace headers are read. -/
theorem accounted_iff_of_event {found : TraceContext} (hraw : decodeOr "None" msg.value = .ok raw)
    (hkey : decodeOr "" msg.key = .ok key) (hparse : s.parse raw = .ok event)
    (htrace : traceHeaders msg.headers {} = .ok found) :
    (∃ effects ids, s.processSingleMessage msg now later outcome = .ok (effects, ids)
        ∧ s.Accounted msg now effects)
      ↔ s.running = true
        ∧ (Fresh s event now → s.hasHandler = true ∧ UninterruptedFrom outcome 1) := by
  have hintake := intake_of_parse_ok hraw hkey hparse htrace
  by_cases hresponse : event.responseMessageId.getD "" = ""
  · rw [if_pos hresponse] at hintake
    rw [accounted_of_reject hintake]
    exact (and_iff_left fun hfresh => absurd hresponse hfresh.1).symm
  · rw [if_neg hresponse] at hintake
    cases hduplicate : (s.processedIds.contains event.messageId now).1 with
    | true =>
      have hcontains := hduplicate
      rw [← withTrace_messageId event found] at hcontains
      rw [accounted_of_duplicate hintake hcontains]
      refine (and_iff_left fun hfresh => ?_).symm
      have hnot := hfresh.2
      rw [hduplicate] at hnot
      cases hnot
    | false =>
      have hcontains := hduplicate
      rw [← withTrace_messageId event found] at hcontains
      rw [accounted_of_fresh hintake hcontains, forall_prop_of_true ⟨hresponse, hduplicate⟩]

/-- The record is accounted for exactly when what is read of it is UTF-8 and,
where the handler is called, no attempt is interrupted. -/
theorem exists_accounted_iff (s : KafkaConsumerEngine) (msg : ConsumerRecord) (now later : Seconds)
    (outcome : Nat → HandlerOutcome) :
    (∃ effects ids, s.processSingleMessage msg now later outcome = .ok (effects, ids)
        ∧ s.Accounted msg now effects)
      ↔ s.running = true ∧ Decodes msg.value ∧ Decodes msg.key
        ∧ ∀ event, Parses s msg event → TraceDecodes msg.headers
          ∧ (Fresh s event now → s.hasHandler = true ∧ UninterruptedFrom outcome 1) := by
  cases hraw : decodeOr "None" msg.value with
  | error exc =>
    refine iff_of_false (not_accounted_of_error (intake_of_value_error hraw)) ?_
    rintro ⟨-, hvalue, -⟩
    obtain ⟨raw, hok⟩ := (exists_decodeOr_iff "None" msg.value).mpr hvalue
    rw [hraw] at hok
    cases hok
  | ok raw =>
    have hvalue : Decodes msg.value := (exists_decodeOr_iff "None" msg.value).mp ⟨raw, hraw⟩
    rw [and_iff_right hvalue]
    cases hkey : decodeOr "" msg.key with
    | error exc =>
      refine iff_of_false (not_accounted_of_error (intake_of_key_error hraw hkey)) ?_
      rintro ⟨-, hkeyDecodes, -⟩
      obtain ⟨key, hok⟩ := (exists_decodeOr_iff "" msg.key).mpr hkeyDecodes
      rw [hkey] at hok
      cases hok
    | ok key =>
      have hkeyDecodes : Decodes msg.key := (exists_decodeOr_iff "" msg.key).mp ⟨key, hkey⟩
      rw [and_iff_right hkeyDecodes]
      cases hparse : s.parse raw with
      | error exc =>
        rw [accounted_of_reject (intake_of_parse_error hraw hkey hparse)]
        refine (and_iff_left ?_).symm
        rintro event ⟨raw', hraw', hevent⟩
        obtain rfl := Except.ok.inj (hraw.symm.trans hraw')
        rw [hparse] at hevent
        cases hevent
      | ok event =>
        have hparses : ∀ P : ChatMessageCreatedEvent → Prop,
            (∀ event', Parses s msg event' → P event') ↔ P event := by
          intro P
          constructor
          · intro h
            exact h event ⟨raw, hraw, hparse⟩
          · rintro h event' ⟨raw', hraw', hevent⟩
            obtain rfl := Except.ok.inj (hraw.symm.trans hraw')
            obtain rfl := Except.ok.inj (hparse.symm.trans hevent)
            exact h
        rw [hparses]
        cases htrace : traceHeaders msg.headers {} with
        | error exc =>
          refine iff_of_false (not_accounted_of_error (intake_of_trace_error hraw hkey hparse htrace)) ?_
          rintro ⟨-, hdecodes, -⟩
          obtain ⟨found, hok⟩ := (exists_traceHeaders_iff msg.headers {}).mpr hdecodes
          rw [htrace] at hok
          cases hok
        | ok found =>
          have hdecodes : TraceDecodes msg.headers :=
            (exists_traceHeaders_iff msg.headers {}).mp ⟨found, htrace⟩
          rw [and_iff_right hdecodes]
          exact accounted_iff_of_event hraw hkey hparse htrace

/-- A record whose value is one byte that starts nothing in UTF-8. -/
def undecodableRecord : ConsumerRecord :=
  { topic := "chat.message.created", partition := 0, offset := 7, value := some ⟨#[0xff]⟩ }

/-- It is dropped: the decoding error leaves `_process_single_message`. -/
theorem undecodableRecord_dropped :
    ¬ ∃ effects ids,
      (started parseRequests true 50 fun _ => 0).processSingleMessage undecodableRecord 0 0
          (fun _ => .returned) = .ok (effects, ids)
        ∧ (started parseRequests true 50 fun _ => 0).Accounted undecodableRecord 0 effects := by
  have hvalue : ∃ exc, decodeOr "None" undecodableRecord.value = .error exc := by
    cases h : decodeOr "None" undecodableRecord.value with
    | error exc => exact ⟨exc, rfl⟩
    | ok raw =>
      have hdecodes := (exists_decodeOr_iff "None" undecodableRecord.value).mp ⟨raw, h⟩
      exact absurd (hdecodes _ rfl) (by decide)
  obtain ⟨exc, hvalue⟩ := hvalue
  rw [processSingleMessage, intake_of_value_error hvalue]
  rintro ⟨effects, ids, heq, -⟩
  cases heq

/-! ## The task in the step system -/

section Solo

open Runs

variable {i : Nat} {settled : Option Settlement} {u : KafkaConsumerEngine}

def ConsumerEffect.dlqEvent? : ConsumerEffect → Option ChatMessageDLQEvent
  | .published event => some event
  | _ => none

/-- The engine `t` is `u` once the rest of a task is done: it is finished, its
dead letter events are on the queue and its offset is committed. -/
structure Done (u : KafkaConsumerEngine) (i : Nat) (msg : ConsumerRecord)
    (effects : List ConsumerEffect) (t : KafkaConsumerEngine) : Prop where
  finished : ∃ settled, t.tasks[i]? = some { msg, phase := .finished, settled }
  dlq : t.dlq = u.dlq ++ effects.filterMap ConsumerEffect.dlqEvent?
  processedIds : t.processedIds = u.processedIds
  committed : t.committed = if u.running then
      Function.update u.committed msg.tp (some (msg.offset + 1)) else u.committed

theorem getElem?_setTask {task : RecordTask} (htask : u.tasks[i]? = some task) (task' : RecordTask) :
    (u.setTask i task').tasks[i]? = some task' := by
  obtain ⟨hlt, -⟩ := List.getElem?_eq_some_iff.mp htask
  exact List.getElem?_set_self hlt

/-- A step that only moves the task on, before the rest of the task is done. -/
theorem exists_run_cons {label : ConsumerLabel} {task : RecordTask} {effects : List ConsumerEffect}
    (hstep : step u label = some (u.setTask i task))
    (hrest : ∃ labels t, run step (u.setTask i task) labels = some t ∧
      Done (u.setTask i task) i msg effects t) :
    ∃ labels t, run step u labels = some t ∧ Done u i msg effects t := by
  obtain ⟨labels, t, hrun, hdone⟩ := hrest
  refine ⟨label :: labels, t, ?_, hdone.finished, hdone.dlq, hdone.processedIds, hdone.committed⟩
  rw [run_cons, hstep]
  exact hrun

/-- A task that comes to its commit finishes. -/
theorem exists_run_commit (htask : u.tasks[i]? = some { msg, phase := u.commitPhase, settled }) :
    ∃ labels t, run step u labels = some t ∧ Done u i msg [] t := by
  by_cases hrunning : u.running = true
  · rw [commitPhase, if_pos hrunning] at htask
    have hrun : run step u [.commitDone i (.ok ())] = some
        { u.setTask i { msg, phase := .finished, settled } with
          committed := Function.update u.committed msg.tp (some (msg.offset + 1)) } := by
      rw [run_cons, step, htask]
      rfl
    refine ⟨_, _, hrun, ⟨settled, ?_⟩, (List.append_nil u.dlq).symm, rfl, ?_⟩
    · exact getElem?_setTask htask _
    · rw [if_pos hrunning]
  · rw [commitPhase, if_neg hrunning] at htask
    refine ⟨[], u, rfl, ⟨settled, htask⟩, (List.append_nil u.dlq).symm, rfl, ?_⟩
    rw [if_neg hrunning]

/-- A task that publishes a dead letter event finishes behind it. -/
theorem exists_run_publish {event : ChatMessageDLQEvent} {kind : Settlement}
    (htask : u.tasks[i]? = some { msg, phase := .publishing event kind, settled }) :
    ∃ labels t, run step u labels = some t ∧ Done u i msg [.published event] t := by
  have hstep : step u (.publishDone i (.ok ())) = some
      { u.setTask i { msg, phase := u.commitPhase, settled := some kind } with
        dlq := u.dlq ++ [event] } := by
    rw [step, htask]
  have hcommit : { u.setTask i { msg, phase := u.commitPhase, settled := some kind } with
      dlq := u.dlq ++ [event] : KafkaConsumerEngine }.tasks[i]?
        = some { msg, phase := u.commitPhase, settled := some kind } :=
    getElem?_setTask htask _
  obtain ⟨labels, t, hrun, hdone⟩ := exists_run_commit hcommit
  refine ⟨.publishDone i (.ok ()) :: labels, t, ?_, hdone.finished, ?_, hdone.processedIds,
    hdone.committed⟩
  · rw [run_cons, hstep]
    exact hrun
  · have hdlq := hdone.dlq
    rw [List.filterMap_nil, List.append_nil] at hdlq
    exact hdlq

/-- What the handler's attempts come to leads to a commit or a dead letter event. -/
theorem exists_run_handler {key raw : String} {event : ChatMessageCreatedEvent} {attempt : Nat}
    {success : Bool} (later : Seconds)
    (htask : u.tasks[i]? = some { msg, phase := .handling key raw event attempt, settled })
    (hattempt : attemptHandler outcome attempt = .ok success) :
    ∃ labels t, run step u labels = some t
      ∧ Done u i msg
          (if success then []
            else [.published (dlqEvent msg key raw "PipelineError"
              s!"Processing failed after 3 consumer retries for message {event.messageId}" later 3)])
          t := by
  induction hleft : 3 - attempt using Nat.strong_induction_on generalizing attempt u with
  | _ left ih =>
    rw [attemptHandler] at hattempt
    cases houtcome : outcome attempt with
    | returned =>
      rw [houtcome] at hattempt
      obtain rfl := Except.ok.inj hattempt
      have hstep : step u (.handlerDone i later (.ok ())) = some
          (u.setTask i { msg, phase := u.commitPhase, settled := some .handled }) := by
        rw [step, htask]
      exact exists_run_cons hstep (exists_run_commit (getElem?_setTask htask _))
    | interrupted =>
      rw [houtcome] at hattempt
      cases hattempt
    | raised exc =>
      rw [houtcome] at hattempt
      have hstep : step u (.handlerDone i later (.error exc)) = some
          (u.setTask i
            { msg, phase := handlerFailed msg key raw event attempt exc later, settled }) := by
        rw [step, htask]
      have hfailed : (u.setTask i
          { msg, phase := handlerFailed msg key raw event attempt exc later, settled }).tasks[i]?
            = some { msg, phase := handlerFailed msg key raw event attempt exc later, settled } :=
        getElem?_setTask htask _
      by_cases hretry : attempt < 3 ∧ isRetriable none exc = true
      · dsimp only at hattempt
        rw [if_pos hretry] at hattempt
        rw [handlerFailed, if_pos hretry] at hstep hfailed
        have hsleep : step (u.setTask i { msg, phase := .sleeping key raw event attempt, settled })
            (.sleepDone i) = some
              ((u.setTask i { msg, phase := .sleeping key raw event attempt, settled }).setTask i
                { msg, phase := .handling key raw event (attempt + 1), settled }) := by
          rw [step, hfailed]
        exact exists_run_cons hstep (exists_run_cons hsleep
          (ih (3 - (attempt + 1)) (by omega) (getElem?_setTask hfailed _) hattempt rfl))
      · dsimp only at hattempt
        rw [if_neg hretry] at hattempt
        obtain rfl := Except.ok.inj hattempt
        rw [handlerFailed, if_neg hretry] at hstep hfailed
        exact exists_run_cons hstep (exists_run_publish hfailed)

theorem filterMap_commitOffset (u : KafkaConsumerEngine) (msg : ConsumerRecord) :
    (u.commitOffset msg).filterMap ConsumerEffect.dlqEvent? = [] := by
  rw [commitOffset]
  split_ifs <;> rfl

/-- A task that may start is taken to where `process` takes it. -/
theorem step_start {phase : Phase} {settled : Option Settlement} {ids : TTLCache Unit}
    (htask : u.tasks[i]? = some { msg })
    (hroom : (u.tasks.filter (·.phase.running)).length < u.maxConcurrentTasks)
    (hprocess : u.process msg now = .ok (phase, settled, ids)) :
    step u (.start i now)
      = some { u.setTask i { msg, phase, settled } with processedIds := ids } := by
  rw [step, htask]
  dsimp only
  rw [if_pos hroom, hprocess]

/-- Where `process` takes a request. -/
theorem process_of_request {key raw : String} {event : ChatMessageCreatedEvent} (now : Seconds)
    (h : intake u.parse msg = .ok (.request key raw event)) :
    u.process msg now
      = if (u.processedIds.contains event.messageId now).1 = true then
          .ok (u.commitPhase, none, (u.processedIds.contains event.messageId now).2)
        else
          .ok (if u.hasHandler then .handling key raw event 1 else u.commitPhase,
            if u.hasHandler then none else some .handled,
            (u.processedIds.contains event.messageId now).2.set event.messageId now ()) := by
  rw [process, h]
  cases hhandler : u.hasHandler <;> rfl

/-- A task that may start runs on as the task does that `process` makes of it. -/
theorem exists_run_started {phase : Phase} {settled : Option Settlement} {ids : TTLCache Unit}
    {effects effects' : List ConsumerEffect} (htask : u.tasks[i]? = some { msg })
    (hroom : (u.tasks.filter (·.phase.running)).length < u.maxConcurrentTasks)
    (hprocess : u.process msg now = .ok (phase, settled, ids))
    (hdlq : effects'.filterMap ConsumerEffect.dlqEvent? = effects.filterMap ConsumerEffect.dlqEvent?)
    (hrest : { u.setTask i { msg, phase, settled } with
        processedIds := ids : KafkaConsumerEngine }.tasks[i]? = some { msg, phase, settled } →
      ∃ labels t, run step { u.setTask i { msg, phase, settled } with processedIds := ids } labels
          = some t
        ∧ Done { u.setTask i { msg, phase, settled } with processedIds := ids } i msg effects' t) :
    ∃ labels t, run step u labels = some t
      ∧ Done { u with processedIds := ids } i msg effects t := by
  obtain ⟨labels, t, hrun, hdone⟩ := hrest (getElem?_setTask htask _)
  refine ⟨.start i now :: labels, t, ?_, hdone.finished, hdlq ▸ hdone.dlq, hdone.processedIds,
    hdone.committed⟩
  rw [run_cons, step_start htask hroom hprocess]
  exact hrun

/-- A request that is not a duplicate runs on to the end of its handler. -/
theorem exists_run_fresh {key raw : String} {event : ChatMessageCreatedEvent}
    {effects : List ConsumerEffect} {ids : TTLCache Unit} (htask : u.tasks[i]? = some { msg })
    (hroom : (u.tasks.filter (·.phase.running)).length < u.maxConcurrentTasks)
    (hintake : intake u.parse msg = .ok (.request key raw event))
    (hfresh : ¬ (u.processedIds.contains event.messageId now).1 = true)
    (h : u.processSingleMessage msg now later outcome = .ok (effects, ids)) :
    ∃ labels t, run step u labels = some t
      ∧ Done { u with processedIds := ids } i msg effects t := by
  have hprocess := process_of_request now hintake
  rw [processSingleMessage, hintake] at h
  dsimp only at h
  rw [if_neg hfresh, executeWithConsumerRetries] at h
  rcases Bool.eq_false_or_eq_true u.hasHandler with hhandler | hhandler
  · rw [hhandler] at h
    rw [if_neg hfresh, hhandler] at hprocess
    cases hattempt : attemptHandler outcome 1 with
    | error exc =>
      rw [hattempt] at h
      cases h
    | ok success =>
      rw [hattempt] at h
      cases success with
      | true =>
        obtain ⟨rfl, rfl⟩ := Prod.mk.inj (Except.ok.inj h)
        refine exists_run_started htask hroom hprocess ?_
          fun hset => exists_run_handler later hset hattempt
        exact (filterMap_commitOffset u msg).symm
      | false =>
        obtain ⟨rfl, rfl⟩ := Prod.mk.inj (Except.ok.inj h)
        refine exists_run_started htask hroom hprocess ?_
          fun hset => exists_run_handler later hset hattempt
        rw [List.nil_append, List.filterMap_cons]
        exact congrArg _ (filterMap_commitOffset u msg).symm
  · rw [hhandler] at h
    obtain ⟨rfl, rfl⟩ := Prod.mk.inj (Except.ok.inj h)
    rw [if_neg hfresh, hhandler] at hprocess
    refine exists_run_started htask hroom hprocess ?_ exists_run_commit
    exact (filterMap_commitOffset u msg).symm

/-- What `processSingleMessage` returns for a record is what the step system
does with its task, when nothing else goes on and every await succeeds. -/
theorem exists_run_processSingleMessage {effects : List ConsumerEffect} {ids : TTLCache Unit}
    (htask : u.tasks[i]? = some { msg })
    (hroom : (u.tasks.filter (·.phase.running)).length < u.maxConcurrentTasks)
    (h : u.processSingleMessage msg now later outcome = .ok (effects, ids)) :
    ∃ labels t, run step u labels = some t
      ∧ Done { u with processedIds := ids } i msg effects t := by
  have hresult := h
  rw [processSingleMessage] at h
  cases hintake : intake u.parse msg with
  | error exc =>
    rw [hintake] at h
    cases h
  | ok found =>
    rw [hintake] at h
    cases found with
    | reject key raw errorType errorMessage =>
      obtain ⟨rfl, rfl⟩ := Prod.mk.inj (Except.ok.inj h)
      have hprocess : u.process msg now = .ok (.publishing
          (dlqEvent msg key raw errorType errorMessage now) .rejected, none, u.processedIds) := by
        rw [process, hintake]
        rfl
      refine exists_run_started htask hroom hprocess ?_ exists_run_publish
      rw [List.filterMap_cons, List.filterMap_cons, filterMap_commitOffset]
      rfl
    | request key raw event =>
      by_cases hduplicate : (u.processedIds.contains event.messageId now).1 = true
      · have hprocess := process_of_request now hintake
        rw [if_pos hduplicate] at hprocess
        dsimp only at h
        rw [if_pos hduplicate] at h
        obtain ⟨rfl, rfl⟩ := Prod.mk.inj (Except.ok.inj h)
        refine exists_run_started htask hroom hprocess ?_ exists_run_commit
        rw [List.filterMap_cons, filterMap_commitOffset]
        rfl
      · exact exists_run_fresh htask hroom hintake hduplicate hresult

end Solo

end KafkaConsumerEngine

end LlmService
