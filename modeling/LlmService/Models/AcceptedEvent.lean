import LlmService.Lib.Within
import LlmService.Models.GenerationPreferences
import LlmService.Models.PipelineContext

/-!
# Accepted events

`ChatMessageCreatedEvent` as its validation leaves it, and the context that
`PipelineContext.from_event` makes of it. The metadata and the preferences are
free-form objects: the context takes one entry of the metadata as it stands,
and of the preferences what is valid, field by field.
-/

namespace LlmService

/-- A `float` that JSON text can give. -/
inductive PyFloat where
  | finite (value : ℚ)
  | infinite (negative : Bool)
  | nan

/-- A value that `json.loads` gives. -/
inductive JsonValue where
  | null
  | bool (value : Bool)
  | int (value : Int)
  | float (value : PyFloat)
  | string (value : String)
  | array (items : List JsonValue)
  | object (fields : List (String × JsonValue))

/-- `bool(value)`. -/
def JsonValue.truthy : JsonValue → Bool
  | .null => false
  | .bool value => value
  | .int value => value ≠ 0
  | .float (.finite value) => value ≠ 0
  | .float _ => true
  | .string value => value ≠ ""
  | .array items => !items.isEmpty
  | .object fields => !fields.isEmpty

/-- pydantic's `ValidationError`. -/
def validationError (message : String) : Exc := { cls := .other "ValidationError", message }

namespace GenerationPreferences

/-- `GenerationPreferences.model_fields`. -/
inductive Field where
  | answerLength | tone | language | languageName | personalInstructions | citations

def Field.all : List Field :=
  [.answerLength, .tone, .language, .languageName, .personalInstructions, .citations]

def Field.key : Field → String
  | .answerLength => "answer_length"
  | .tone => "tone"
  | .language => "language"
  | .languageName => "language_name"
  | .personalInstructions => "personal_instructions"
  | .citations => "citations"

/-- What a value for a field sets, if it is valid. -/
def fieldUpdate : Field → JsonValue → Except Exc (GenerationPreferences → GenerationPreferences)
  | .answerLength, .string "concise" => .ok fun prefs => { prefs with answerLength := .concise }
  | .answerLength, .string "balanced" => .ok fun prefs => { prefs with answerLength := .balanced }
  | .answerLength, .string "detailed" => .ok fun prefs => { prefs with answerLength := .detailed }
  | .answerLength, _ => .error (validationError "Input should be 'concise', 'balanced' or 'detailed'")
  | .tone, .string "professional" => .ok fun prefs => { prefs with tone := .professional }
  | .tone, .string "friendly" => .ok fun prefs => { prefs with tone := .friendly }
  | .tone, .string "simple" => .ok fun prefs => { prefs with tone := .simple }
  | .tone, _ => .error (validationError "Input should be 'professional', 'friendly' or 'simple'")
  | .language, .string value => .ok fun prefs => { prefs with language := value.toList }
  | .languageName, .string value => .ok fun prefs => { prefs with languageName := value.toList }
  | .personalInstructions, .string value =>
    .ok fun prefs => { prefs with personalInstructions := value.toList }
  | .citations, .string "show" => .ok fun prefs => { prefs with citations := .shown }
  | .citations, .string "hide" => .ok fun prefs => { prefs with citations := .hidden }
  | .citations, _ => .error (validationError "Input should be 'show' or 'hide'")
  | _, _ => .error (validationError "Input should be a valid string")

/-- `GenerationPreferences.model_validate`, on an object with these fields. -/
def modelValidate (given : List (Field × JsonValue)) : Except Exc GenerationPreferences :=
  given.foldlM (fun prefs entry => (fieldUpdate entry.1 entry.2).map (· prefs)) {}

/-- The texts of a user are stripped and cut. -/
def trimValue : Field → JsonValue → JsonValue
  | .personalInstructions, .string value =>
    .string (String.ofList ((PyText.strip value.toList).take 1000))
  | .language, .string value | .languageName, .string value =>
    .string (String.ofList ((PyText.strip value.toList).take 64))
  | _, value => value

/-- `valid` of `normalize_preferences`. -/
def validEntries (raw : List (String × JsonValue)) : List (Field × JsonValue) :=
  Field.all.filterMap fun field =>
    match raw.lookup field.key with
    | none | some .null => none
    | some value =>
      let value := trimValue field value
      match modelValidate [(field, value)] with
      | .ok _ => some (field, value)
      | .error _ => none

/-- `normalize_preferences`. -/
def normalizePreferences (raw : List (String × JsonValue)) : Except Exc GenerationPreferences :=
  if raw.isEmpty then .ok {} else modelValidate (validEntries raw)

theorem modelValidate_singleton (field : Field) (value : JsonValue) :
    modelValidate [(field, value)] = (fieldUpdate field value).map (· {}) := by
  rw [modelValidate, List.foldlM_cons]
  cases fieldUpdate field value <;> rfl

/-- Fields that are valid one by one are valid together: no check looks at two. -/
theorem exists_foldlM_fieldUpdate (given : List (Field × JsonValue)) (prefs : GenerationPreferences)
    (h : ∀ entry ∈ given, ∃ update, fieldUpdate entry.1 entry.2 = .ok update) :
    ∃ prefs', given.foldlM (fun prefs entry => (fieldUpdate entry.1 entry.2).map (· prefs)) prefs
      = .ok prefs' := by
  induction given generalizing prefs with
  | nil => exact ⟨prefs, rfl⟩
  | cons entry given ih =>
    obtain ⟨update, hupdate⟩ := h entry List.mem_cons_self
    obtain ⟨prefs', hprefs⟩ := ih (update prefs) fun other hother =>
      h other (List.mem_cons_of_mem entry hother)
    refine ⟨prefs', ?_⟩
    rw [List.foldlM_cons, hupdate]
    exact hprefs

theorem valid_of_mem_validEntries {raw : List (String × JsonValue)} {entry : Field × JsonValue}
    (h : entry ∈ validEntries raw) : ∃ update, fieldUpdate entry.1 entry.2 = .ok update := by
  obtain ⟨field, -, hentry⟩ := List.mem_filterMap.mp h
  dsimp only at hentry
  split at hentry
  · cases hentry
  · cases hentry
  · rename_i value hnull hlookup
    rw [modelValidate_singleton] at hentry
    cases hupdate : fieldUpdate field (trimValue field value) with
    | error exc =>
      rw [hupdate] at hentry
      cases hentry
    | ok update =>
      rw [hupdate] at hentry
      obtain rfl := Option.some.inj hentry
      exact ⟨update, hupdate⟩

/-- A bad preference never blocks an answer. -/
theorem exists_normalizePreferences (raw : List (String × JsonValue)) :
    ∃ prefs, normalizePreferences raw = .ok prefs := by
  rw [normalizePreferences]
  split_ifs
  · exact ⟨{}, rfl⟩
  · exact exists_foldlM_fieldUpdate (validEntries raw) {} fun entry h => valid_of_mem_validEntries h

end GenerationPreferences

/-- `UserMode`. -/
inductive UserMode where
  | default | tutor | code | askFiles | webSearch | smart | deepResearch
  deriving DecidableEq, Repr

/-- `UserMode(value)`; `none` where that is a `ValueError`. -/
def UserMode.ofValue? : String → Option UserMode
  | "default" => some .default
  | "tutor" => some .tutor
  | "code" => some .code
  | "ask_files" => some .askFiles
  | "web_search" => some .webSearch
  | "smart" => some .smart
  | "deep_research" => some .deepResearch
  | _ => none

/-- `HistoryMessage`. -/
structure HistoryMessage where
  role : String
  content : String
  messageId : Option String := none
  inherited : Bool := false

/-- `AncestorRef`. -/
structure AncestorRef where
  conversationId : String
  uptoMessageId : String

/-- A `ChatMessageCreatedEvent` that validation has accepted, with what
`from_event` and `run` read of it. -/
structure AcceptedEvent where
  messageId : String
  responseMessageId : Option String := none
  conversationId : String
  userId : String
  content : String
  modeHint : Option String := none
  selectedTools : List String := []
  includeDiagrams : Bool := false
  fileIds : List String := []
  history : List HistoryMessage := []
  ancestors : List AncestorRef := []
  preferences : List (String × JsonValue) := []
  customMode : Option CustomModeSnapshot := none
  metadata : List (String × JsonValue) := []
  traceContext : TraceContext := {}
  timestamp : Seconds
  /-- Whether the timestamp came with a time zone. -/
  timestampAware : Bool := true

/-- `PipelineContext` with all that `from_event` fills in. -/
structure RequestContext extends PipelineContext where
  modeHint : Option UserMode := none
  fileIds : List String := []
  selectedTools : List String := []
  includeDiagrams : Bool := false
  eventHistory : List (String × String) := []
  eventHistoryIds : List (Option String) := []
  inheritedHistory : List (String × String) := []
  ancestors : List AncestorRef := []
  customMode : Option CustomModeSnapshot := none
  preferences : GenerationPreferences := {}

namespace AcceptedEvent

variable (lower : String → String) (event : AcceptedEvent)

/-- `(event.metadata or {}).get("replaces_message_id") or None`, where the
context takes a `str` or `None`. -/
def replacesMessageId : Except Exc (Option String) :=
  match event.metadata.lookup "replaces_message_id" with
  | none => .ok none
  | some value =>
    if !value.truthy then .ok none
    else
      match value with
      | .string text => .ok (some text)
      | _ => .error (validationError "replaces_message_id: Input should be a valid string")

/-- An unknown mode is no mode; `lower` is `str.lower`. -/
def modeHintValue : Option UserMode :=
  match event.modeHint with
  | none | some "" => none
  | some hint => UserMode.ofValue? (lower hint)

/-- The turns of the history, as `(role, content)`. -/
def turns (inherited : Bool) : List (String × String) :=
  (event.history.filter fun turn => turn.inherited = inherited).map fun turn =>
    (turn.role, turn.content)

/-- `PipelineContext.from_event`. -/
def toContext (requestId : String) (now : Seconds) : Except Exc RequestContext := do
  let preferences ← GenerationPreferences.normalizePreferences event.preferences
  let replacesMessageId ← event.replacesMessageId
  return {
    conversationId := event.conversationId
    userId := event.userId
    messageId := event.messageId
    responseMessageId := event.responseMessageId
    requestId
    traceId := event.traceContext.traceparent
    replacesMessageId
    startedAt := now
    userMessage := event.content
    citationsHidden := preferences.citations = .hidden
    modeHint := event.modeHintValue lower
    fileIds := event.fileIds
    selectedTools := event.selectedTools
    includeDiagrams := event.includeDiagrams
    eventHistory := event.turns false
    eventHistoryIds := (event.history.filter fun turn => turn.inherited = false).map (·.messageId)
    inheritedHistory := event.turns true
    ancestors := event.ancestors
    customMode := event.customMode
    preferences }

/-- What the metadata says the message replaces is a text, if it says so. -/
def ReplacesText : Prop :=
  ∀ value, event.metadata.lookup "replaces_message_id" = some value → value.truthy = true →
    ∃ text, value = .string text

variable {event}

theorem exists_replacesMessageId_iff :
    (∃ replaced, event.replacesMessageId = .ok replaced) ↔ event.ReplacesText := by
  rw [replacesMessageId, ReplacesText]
  cases event.metadata.lookup "replaces_message_id" with
  | none => exact iff_of_true ⟨none, rfl⟩ (fun value h => nomatch h)
  | some value =>
    dsimp only
    cases htruthy : value.truthy with
    | false =>
      refine iff_of_true ⟨none, rfl⟩ ?_
      intro other hother htrue
      obtain rfl := Option.some.inj hother
      rw [htruthy] at htrue
      cases htrue
    | true =>
      rw [if_neg (by simp)]
      constructor
      · rintro ⟨replaced, h⟩ other hother -
        obtain rfl := Option.some.inj hother
        cases value with
        | string text => exact ⟨text, rfl⟩
        | null | bool | int | float | array | object => cases h
      · intro h
        obtain ⟨text, rfl⟩ := h value rfl htruthy
        exact ⟨some text, rfl⟩

/-- An empty id is none. -/
theorem filter_replacesMessageId {replaced : Option String}
    (h : event.replacesMessageId = .ok replaced) : replaced.filter (· ≠ "") = replaced := by
  rw [replacesMessageId] at h
  cases hlookup : event.metadata.lookup "replaces_message_id" with
  | none =>
    rw [hlookup] at h
    obtain rfl := Except.ok.inj h
    rfl
  | some value =>
    rw [hlookup] at h
    dsimp only at h
    cases htruthy : value.truthy with
    | false =>
      rw [htruthy] at h
      obtain rfl := Except.ok.inj h
      rfl
    | true =>
      rw [htruthy, if_neg (by simp)] at h
      cases value with
      | string text =>
        obtain rfl := Except.ok.inj h
        exact Option.filter_eq_some_iff.mpr ⟨rfl, htruthy⟩
      | null | bool | int | float | array | object => cases h

/-- The event with what later parts of the service read of its metadata. -/
def toEvent (event : AcceptedEvent) (replaced : Option String) : ChatMessageCreatedEvent :=
  { messageId := event.messageId
    responseMessageId := event.responseMessageId
    conversationId := event.conversationId
    userId := event.userId
    content := event.content
    traceContext := event.traceContext
    timestamp := event.timestamp
    timestampAware := event.timestampAware
    replacesMessageId := replaced }

variable {requestId : String} {now : Seconds}

/-- What publishing reads of the context is what it reads of the event. -/
theorem toContext_eq_ok {ctx : RequestContext} (h : event.toContext lower requestId now = .ok ctx) :
    ∃ replaced, event.replacesMessageId = .ok replaced
      ∧ ctx.toPipelineContext
        = { PipelineContext.fromEvent (event.toEvent replaced) requestId now with
            citationsHidden := ctx.preferences.citations = .hidden } := by
  rw [toContext, except_bind_eq_ok] at h
  obtain ⟨prefs, -, h⟩ := h
  rw [except_bind_eq_ok] at h
  obtain ⟨replaced, hreplaced, h⟩ := h
  obtain rfl := Except.ok.inj h
  refine ⟨replaced, hreplaced, ?_⟩
  rw [PipelineContext.fromEvent, toEvent, filter_replacesMessageId hreplaced]

/-- There is a context for an event unless its metadata is in the way. -/
theorem exists_toContext_iff (requestId : String) (now : Seconds) :
    (∃ ctx, event.toContext lower requestId now = .ok ctx) ↔ event.ReplacesText := by
  obtain ⟨prefs, hprefs⟩ := GenerationPreferences.exists_normalizePreferences event.preferences
  rw [← exists_replacesMessageId_iff]
  constructor
  · rintro ⟨ctx, h⟩
    obtain ⟨replaced, hreplaced, -⟩ := toContext_eq_ok lower h
    exact ⟨replaced, hreplaced⟩
  · rintro ⟨replaced, hreplaced⟩
    exact ⟨_, except_bind_eq_ok.mpr ⟨prefs, hprefs,
      except_bind_eq_ok.mpr ⟨replaced, hreplaced, rfl⟩⟩⟩

end AcceptedEvent

end LlmService
