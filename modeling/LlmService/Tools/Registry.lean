import LlmService.Lib.PyText
import LlmService.Models.AcceptedEvent
import Mathlib.Data.List.AList

/-!
# Tools and their registry

`models/tool.py`, `tools/base.py` and `tools/registry.py`: what a tool says of
itself, and which tools are registered and enabled. What a tool does when it
is executed is not part of it.
-/

namespace LlmService

/-- `params` of a call, a dictionary. -/
abbrev CallParams := AList fun _ : String => JsonValue

/-- `ToolCall`. -/
structure ToolCall where
  toolName : String
  params : CallParams := ∅
  parallel : Bool := true
  required : Bool := false

/-- `ToolParams`. -/
structure ToolParams where
  toolName : String
  params : CallParams := ∅
  traceId : String := ""
  userId : String := ""
  conversationId : String := ""

/-- `ToolSchema`; of `parameters`, what is `required`. -/
structure ToolSchema where
  required : List String := []
  userSelectable : Bool := true

/-- `ValidationResult`. -/
structure ValidationResult where
  valid : Bool
  error : Option String := none

/-- `BaseTool`, without `execute`. -/
structure Tool where
  name : String
  timeoutMs : Nat := 5000
  schema : ToolSchema := {}
  isAvailable : Bool := true
  validateParams : ToolParams → Except Exc ValidationResult := fun _ => .ok { valid := true }

/-- `ToolRegistry`: tools are registered by their names, and only registered
ones are enabled. -/
structure ToolRegistry where
  tools : AList fun _ : String => Tool := ∅
  enabled : List String := []
  named : ∀ name tool, tools.lookup name = some tool → tool.name = name := by
    intro name tool h
    cases h
  registered : ∀ name ∈ enabled, name ∈ tools := by
    intro name h
    cases h

/-- A registry without tools. -/
def ToolRegistry.empty : ToolRegistry := {}

/-- `UnknownToolError`. -/
def unknownTool (message : String) : Exc where
  cls := .unknownToolError
  message := message
  errorCode := some "UNKNOWN_TOOL"

namespace ToolRegistry

variable (registry : ToolRegistry)

def register (tool : Tool) (enabled : Bool := true) : ToolRegistry where
  tools := registry.tools.insert tool.name tool
  enabled := if enabled then tool.name :: registry.enabled else registry.enabled
  named := by
    intro name other h
    by_cases heq : name = tool.name
    · subst heq
      rw [AList.lookup_insert] at h
      rw [← Option.some.inj h]
    · rw [AList.lookup_insert_ne heq] at h
      exact registry.named name other h
  registered := by
    intro name h
    rw [AList.mem_insert]
    by_cases heq : name = tool.name
    · exact .inl heq
    · right
      apply registry.registered
      cases enabled with
      | true => exact (List.mem_cons.mp h).resolve_left heq
      | false => exact h

/-- `get`. -/
def get (name : String) : Except Exc Tool :=
  match registry.tools.lookup name with
  | none => .error (unknownTool s!"Tool '{name}' is not registered in ToolRegistry")
  | some tool =>
    if name ∈ registry.enabled then .ok tool
    else .error (unknownTool s!"Tool '{name}' is disabled in ToolRegistry")

def isEnabled (name : String) : Bool := name ∈ registry.tools && name ∈ registry.enabled

def isUserSelectable (name : String) : Bool :=
  match registry.tools.lookup name with
  | none => false
  | some tool => name ∈ registry.enabled && tool.schema.userSelectable

variable {registry} {name : String} {tool : Tool}

theorem name_of_get (h : registry.get name = .ok tool) : tool.name = name := by
  rw [get] at h
  cases hlookup : registry.tools.lookup name with
  | none =>
    rw [hlookup] at h
    cases h
  | some found =>
    rw [hlookup] at h
    dsimp only at h
    split at h
    · obtain rfl := Except.ok.inj h
      exact registry.named name found hlookup
    · cases h

/-- What is enabled is found. -/
theorem isEnabled_iff : registry.isEnabled name = true ↔ ∃ tool, registry.get name = .ok tool := by
  rw [isEnabled, Bool.and_eq_true, decide_eq_true_eq, decide_eq_true_eq, ← AList.lookup_isSome, get]
  cases registry.tools.lookup name with
  | none => simp
  | some tool =>
    by_cases h : name ∈ registry.enabled
    · simp [h]
    · simp [h]

end ToolRegistry

/-- `max_results`, which is 5 by default. -/
def WebSearchTool.acceptsMaxResults : Option JsonValue → Bool
  | none => true
  | some (.int maxResults) => 1 ≤ maxResults && maxResults ≤ 10
  | some _ => false

/-- `WebSearchTool.validate_params`. -/
def WebSearchTool.validateParams (params : ToolParams) : ValidationResult :=
  match params.params.lookup "query" with
  | none | some .null => { valid := false, error := some "Missing required parameter(s): query" }
  | some (.string query) =>
    if PyText.strip query.toList = [] then
      { valid := false, error := some "Search query cannot be empty" }
    else if WebSearchTool.acceptsMaxResults (params.params.lookup "max_results") then
      { valid := true }
    else
      { valid := false, error := some "max_results must be an integer between 1 and 10" }
  | some _ => { valid := false, error := some "Search query cannot be empty" }

/-- `WebSearchTool`. -/
def WebSearchTool : Tool where
  name := "web_search"
  schema := { required := ["query"], userSelectable := false }
  validateParams := fun params => .ok (WebSearchTool.validateParams params)

end LlmService
