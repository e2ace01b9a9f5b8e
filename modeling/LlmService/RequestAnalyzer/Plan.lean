import LlmService.Lib.JsonText
import LlmService.Workflow.Modes

/-!
# Plans

`models/execution_plan.py`, and how `RequestAnalyzer` makes a plan of what a
model answers: the object is taken out of the text, validated, and brought
within the safety rules. How pydantic reads a scalar that stands for one of
another type is a parameter. The latency of the analysis, which only the log
reads, is left out.
-/

namespace LlmService

/-- `IntentCategory`. -/
inductive IntentCategory where
  | generalChat | questionAnswering | codeGeneration | codeDebugging | codeExplanation | research
  | webSearch | documentAnalysis | tutoring | creativeWriting | reasoning
  deriving DecidableEq, Repr

/-- `IntentCategory(value)`. -/
def IntentCategory.ofValue? : String → Option IntentCategory
  | "GENERAL_CHAT" => some .generalChat
  | "QUESTION_ANSWERING" => some .questionAnswering
  | "CODE_GENERATION" => some .codeGeneration
  | "CODE_DEBUGGING" => some .codeDebugging
  | "CODE_EXPLANATION" => some .codeExplanation
  | "RESEARCH" => some .research
  | "WEB_SEARCH" => some .webSearch
  | "DOCUMENT_ANALYSIS" => some .documentAnalysis
  | "TUTORING" => some .tutoring
  | "CREATIVE_WRITING" => some .creativeWriting
  | "REASONING" => some .reasoning
  | _ => none

/-- `Skill`. -/
inductive Skill where
  | generalChat | tutor | coding | research | writing | reasoning
  deriving DecidableEq, Repr

/-- `Skill(value)`. -/
def Skill.ofValue? : String → Option Skill
  | "general_chat" => some .generalChat
  | "tutor" => some .tutor
  | "coding" => some .coding
  | "research" => some .research
  | "writing" => some .writing
  | "reasoning" => some .reasoning
  | _ => none

/-- `ReasoningMode`. -/
inductive ReasoningMode where
  | direct | chainOfThought | react
  deriving DecidableEq, Repr

/-- `ReasoningMode(value)`. -/
def ReasoningMode.ofValue? : String → Option ReasoningMode
  | "DIRECT" => some .direct
  | "CHAIN_OF_THOUGHT" => some .chainOfThought
  | "REACT" => some .react
  | _ => none

/-! ## Declared bounds -/

theorem temperature_within : (0 : ℚ) ≤ 7 / 10 ∧ (7 / 10 : ℚ) ≤ 2 := by norm_num

theorem confidence_within : (0 : ℚ) ≤ 1 ∧ (1 : ℚ) ≤ 1 := by norm_num

theorem noConfidence_within : (0 : ℚ) ≤ 0 ∧ (0 : ℚ) ≤ 1 := by norm_num

theorem oneIteration_ge : (1 : Int) ≤ 1 := le_rfl

/-! ## Plans -/

/-- `ExecutionPlan`, with the fields that only the prompt and the generation read. -/
structure AnalysisPlan extends ExecutionPlan where
  intent : IntentCategory := .generalChat
  skill : Skill := .generalChat
  reasoning : ReasoningMode := .direct
  suggestedTemperature : ℚ := 7 / 10
  /-- `Field(default=0.7, ge=0.0, le=2.0)`. -/
  suggestedTemperature_within : 0 ≤ suggestedTemperature ∧ suggestedTemperature ≤ 2 := by
    exact temperature_within
  /-- `Field(default=1.0, ge=0.0, le=1.0)`. -/
  analysisConfidence_within : 0 ≤ analysisConfidence ∧ analysisConfidence ≤ 1 := by
    exact confidence_within

/-! ## Values -/

/-- What pydantic makes of a JSON value where a field is of a scalar type. -/
structure LaxScalars where
  asBool : PyJson → Option Bool
  asInt : PyJson → Option Int
  asFloat : PyJson → Option PyFloat
  /-- `float(literal)`. -/
  floatOf : List Char → PyFloat

namespace JsonValue

mutual

/-- The value, as tools are passed it. -/
def ofJson (floatOf : List Char → PyFloat) : PyJson → JsonValue
  | .null => .null
  | .bool value => .bool value
  | .int value => .int value
  | .float literal => .float (floatOf literal)
  | .string value => .string (String.ofList value)
  | .array items => .array (ofItems floatOf items)
  | .object fields => .object (ofFields floatOf fields)

def ofItems (floatOf : List Char → PyFloat) : List PyJson → List JsonValue
  | [] => []
  | item :: items => ofJson floatOf item :: ofItems floatOf items

def ofFields (floatOf : List Char → PyFloat) : List (String × PyJson) → List (String × JsonValue)
  | [] => []
  | (key, value) :: fields => (key, ofJson floatOf value) :: ofFields floatOf fields

end

end JsonValue

namespace AnalysisPlan

section Validation

variable (lax : LaxScalars)

/-- The field `key`, or its default. -/
def field {α : Type} (fields : List (String × PyJson)) (key : String) (default : α)
    (read : PyJson → Option α) : Option α :=
  match fields.lookup key with
  | none => some default
  | some value => read value

/-- A member of an enumeration, by its value. -/
def member {α : Type} (ofValue? : String → Option α) : PyJson → Option α
  | .string value => ofValue? (String.ofList value)
  | _ => none

def text : PyJson → Option String
  | .string value => some (String.ofList value)
  | _ => none

/-- A `float` within bounds; one that is not finite is out of them. -/
def bounded (low high : ℚ) (value : PyJson) : Option {q : ℚ // low ≤ q ∧ q ≤ high} :=
  match lax.asFloat value with
  | some (.finite q) => if h : low ≤ q ∧ q ≤ high then some ⟨q, h⟩ else none
  | _ => none

/-- `int`, with `ge=1`. -/
def positive (value : PyJson) : Option {n : Int // 1 ≤ n} :=
  match lax.asInt value with
  | some n => if h : 1 ≤ n then some ⟨n, h⟩ else none
  | none => none

/-- `dict[str, Any]`. -/
def callParams : PyJson → Option CallParams
  | .object fields => some ((JsonValue.ofFields lax.floatOf fields).map fun f => ⟨f.1, f.2⟩).toAList
  | _ => none

/-- `ToolCall`; the name is the one field without a default. -/
def toolCall : PyJson → Option ToolCall
  | .object fields => do
    let toolName ← (fields.lookup "tool_name").bind text
    let params ← field fields "params" ∅ (callParams lax)
    let parallel ← field fields "parallel" true lax.asBool
    let required ← field fields "required" false lax.asBool
    return { toolName, params, parallel, required }
  | _ => none

/-- `list[ToolCall]`. -/
def toolCalls : PyJson → Option (List ToolCall)
  | .array items => items.mapM (toolCall lax)
  | _ => none

/-- `ExecutionPlan.model_validate`; `none` is its `ValidationError`. -/
def modelValidate : PyJson → Option AnalysisPlan
  | .object fields => do
    let intent ← field fields "intent" .generalChat (member IntentCategory.ofValue?)
    let mode ← field fields "mode" .default (member UserMode.ofValue?)
    let skill ← field fields "skill" .generalChat (member Skill.ofValue?)
    let reasoning ← field fields "reasoning" .direct (member ReasoningMode.ofValue?)
    let tools ← field fields "tools" [] (toolCalls lax)
    let maxIterations ← field fields "max_iterations" ⟨1, oneIteration_ge⟩ (positive lax)
    let temperature ← field fields "suggested_temperature" ⟨7 / 10, temperature_within⟩ (bounded lax 0 2)
    let confidence ← field fields "analysis_confidence" ⟨1, confidence_within⟩ (bounded lax 0 1)
    let model ← field fields "groq_model_used" "llama-3.3-70b-versatile" text
    let _latency ← field fields "analysis_latency_ms" (.finite 0) lax.asFloat
    return {
      intent, mode, skill, reasoning, tools
      maxIterations := maxIterations
      maxIterations_ge := maxIterations.2
      suggestedTemperature := temperature
      suggestedTemperature_within := temperature.2
      analysisConfidence := confidence
      analysisConfidence_within := confidence.2
      groqModelUsed := model }
  | _ => none

end Validation

end AnalysisPlan

/-- `SafeDefaultFactory.create`. -/
def safeDefaultPlan : AnalysisPlan where
  mode := .default
  maxIterations := 1
  maxIterations_ge := oneIteration_ge
  analysisConfidence := 0
  analysisConfidence_within := noConfidence_within
  groqModelUsed := "fallback_safe_default"

/-! ## The safety rules -/

/-- What the analyser reads of `LLMServiceConfig`. -/
structure AnalysisConfig where
  enableWebSearch : Bool := true
  enableDeepResearchMode : Bool := true
  /-- `langgraph_max_loop_iterations_smart`. -/
  smartIterations : Int := 6
  /-- `langgraph_max_loop_iterations_deep_research`. -/
  deepResearchIterations : Int := 4
  declared : decide (1 ≤ smartIterations ∧ 1 ≤ deepResearchIterations) = true := by exact Eq.refl true

namespace AnalysisConfig

/-- The iterations that a mode may be given: a mode without a loop runs once. -/
def allowed (config : AnalysisConfig) : UserMode → Int
  | .smart => config.smartIterations
  | .deepResearch => config.deepResearchIterations
  | _ => 1

theorem one_le_allowed (config : AnalysisConfig) (mode : UserMode) : 1 ≤ config.allowed mode := by
  cases mode with
  | smart => exact (of_decide_eq_true config.declared).1
  | deepResearch => exact (of_decide_eq_true config.declared).2
  | default | tutor | code | askFiles | webSearch => exact le_rfl

end AnalysisConfig

namespace AnalysisPlan

/-- Rules 1 and 1b: the mode that is left of the planned one. -/
def safeMode (config : AnalysisConfig) (fileIds : List String) (planned : UserMode) : UserMode :=
  let mode := if planned = .askFiles ∧ fileIds.length = 0 then .default else planned
  if mode = .deepResearch ∧ config.enableDeepResearchMode = false then .default else mode

/-- Rules 3 to 5. -/
def safeIterations (config : AnalysisConfig) (mode : UserMode) (planned : Int) : Int :=
  match mode with
  | .smart => if config.smartIterations < planned then config.smartIterations else planned
  | .deepResearch =>
    if config.deepResearchIterations < planned then config.deepResearchIterations else planned
  | _ => 1

theorem safeIterations_eq_min {planned : Int} (config : AnalysisConfig) (mode : UserMode)
    (hplanned : 1 ≤ planned) :
    safeIterations config mode planned = min (config.allowed mode) planned := by
  cases mode with
  | smart =>
    show (if config.smartIterations < planned then _ else _) = min config.smartIterations planned
    split <;> omega
  | deepResearch =>
    show (if config.deepResearchIterations < planned then _ else _) = min config.deepResearchIterations planned
    split <;> omega
  | default | tutor | code | askFiles | webSearch => exact (min_eq_left hplanned).symm

theorem one_le_safeIterations {planned : Int} (config : AnalysisConfig) (mode : UserMode)
    (hplanned : 1 ≤ planned) : 1 ≤ safeIterations config mode planned := by
  rw [safeIterations_eq_min config mode hplanned]
  exact le_min (config.one_le_allowed mode) hplanned

/-- `_apply_safety_overrides`. -/
def applySafetyOverrides (config : AnalysisConfig) (fileIds : List String) (plan : AnalysisPlan) :
    AnalysisPlan :=
  let mode := safeMode config fileIds plan.mode
  { plan with
    mode
    -- Rule 2
    tools :=
      if config.enableWebSearch = false ∧ plan.tools ≠ [] then
        plan.tools.filter (·.toolName ≠ "web_search")
      else plan.tools
    maxIterations := safeIterations config mode plan.maxIterations
    maxIterations_ge := one_le_safeIterations config mode plan.maxIterations_ge }

/-- What the safety rules are for. -/
structure Safe (config : AnalysisConfig) (fileIds : List String) (plan : AnalysisPlan) : Prop where
  files : plan.mode = .askFiles → fileIds ≠ []
  research : plan.mode = .deepResearch → config.enableDeepResearchMode = true
  search : config.enableWebSearch = false → ∀ call ∈ plan.tools, call.toolName ≠ "web_search"
  iterations : plan.maxIterations ≤ config.allowed plan.mode

variable {config : AnalysisConfig} {fileIds : List String}

theorem safe_applySafetyOverrides (config : AnalysisConfig) (fileIds : List String)
    (plan : AnalysisPlan) : Safe config fileIds (applySafetyOverrides config fileIds plan) where
  files := by
    intro hmode hnil
    change safeMode config fileIds plan.mode = .askFiles at hmode
    simp only [safeMode, hnil, List.length_nil, and_true] at hmode
    by_cases hplanned : plan.mode = .askFiles
    · simp [hplanned] at hmode
    · simp only [if_neg hplanned] at hmode
      split at hmode
      · cases hmode
      · exact hplanned hmode
  research := by
    intro hmode
    by_contra hdisabled
    change safeMode config fileIds plan.mode = .deepResearch at hmode
    rw [Bool.not_eq_true] at hdisabled
    simp only [safeMode, hdisabled, and_true] at hmode
    generalize (if plan.mode = .askFiles ∧ fileIds.length = 0 then UserMode.default
      else plan.mode) = mode at hmode
    by_cases hdeep : mode = .deepResearch
    · rw [if_pos hdeep] at hmode
      cases hmode
    · rw [if_neg hdeep] at hmode
      exact hdeep hmode
  search := by
    intro hdisabled call hcall
    change call ∈ (if _ then _ else _) at hcall
    by_cases hnil : plan.tools = []
    · rw [if_neg fun h => h.2 hnil, hnil] at hcall
      cases hcall
    · rw [if_pos ⟨hdisabled, hnil⟩] at hcall
      simpa using (List.mem_filter.mp hcall).2
  iterations := by
    show safeIterations config (safeMode config fileIds plan.mode) plan.maxIterations ≤ _
    rw [safeIterations_eq_min config _ plan.maxIterations_ge]
    exact min_le_left _ _

theorem safe_safeDefaultPlan (config : AnalysisConfig) (fileIds : List String) :
    Safe config fileIds safeDefaultPlan where
  files := by
    intro hmode
    cases hmode
  research := by
    intro hmode
    cases hmode
  search := by
    intro _ call hcall
    cases hcall
  iterations := le_rfl

/-! ## What a model answers -/

/-- `raw.rfind(c)`. -/
def rfind (raw : Text) (c : Char) : Option Nat :=
  (raw.reverse.idxOf? c).map fun i => raw.length - 1 - i

/-- `_extract_json_object`. -/
def extractJsonObject (raw : Text) : Text :=
  match raw.idxOf? '{', rfind raw '}' with
  | some start, some stop => if stop < start then raw else (raw.take (stop + 1)).drop start
  | _, _ => raw

/-- `_finalize_plan`; `none` is what `json.loads` or the validation raises. -/
def finalize (lax : LaxScalars) (floatText : List Char → List Char) (config : AnalysisConfig)
    (fileIds : List String) (raw : Text) (modelUsed : String) : Option AnalysisPlan := do
  let document ← JsonText.loads floatText (extractJsonObject raw)
  let plan ← modelValidate lax document
  return applySafetyOverrides config fileIds { plan with groqModelUsed := modelUsed }

theorem safe_of_finalize {lax : LaxScalars} {floatText : List Char → List Char} {raw : Text}
    {modelUsed : String} {plan : AnalysisPlan}
    (h : finalize lax floatText config fileIds raw modelUsed = some plan) : Safe config fileIds plan := by
  obtain ⟨document, -, hvalid⟩ := Option.bind_eq_some_iff.mp h
  obtain ⟨planned, -, hplan⟩ := Option.bind_eq_some_iff.mp hvalid
  obtain rfl := Option.some.inj hplan
  exact safe_applySafetyOverrides config fileIds _

end AnalysisPlan

end LlmService
