import LlmService.Basic

/-!
# Prompt data

The records of `prompts/schemas.py`, `context_window/models.py` and
`context/schemas.py` that prompt fitting reads and writes. Text that is
measured or cut is a list of characters (a Python `str` is a sequence of
code points); identifiers and labels stay `String`.
-/

namespace LlmService

/-- Text that is counted, split or cut. -/
abbrev Text := List Char

/-- `Role` (StrEnum). -/
inductive Role where
  | system | user | assistant | tool
  deriving DecidableEq, Repr

/-- `Role.value`. -/
def Role.value : Role → Text
  | .system => "system".toList
  | .user => "user".toList
  | .assistant => "assistant".toList
  | .tool => "tool".toList

/-- `Role.value.capitalize()`. -/
def Role.capitalized : Role → Text
  | .system => "System".toList
  | .user => "User".toList
  | .assistant => "Assistant".toList
  | .tool => "Tool".toList

/-- `Message` of `context/schemas.py`. -/
structure Message where
  role : Role := .user
  content : Text
  messageId : Option String := none
  deriving DecidableEq

/-- One `{"role": …, "content": …}` dict: an OpenAI chat message, or an item
of a conversation-history section. -/
structure ChatMessage where
  role : Role
  content : Text
  deriving DecidableEq, Repr

/-- `PromptSection`; the priority is declared with `ge=1, le=10`. -/
structure PromptSection where
  name : String
  content : Text
  priority : Nat := 5
  tokenCount : Nat := 0
  trimmable : Bool := true
  items : Option (List ChatMessage) := none
  header : Text := []
  declared : decide (1 ≤ priority ∧ priority ≤ 10) = true := by exact Eq.refl true
  deriving DecidableEq

theorem PromptSection.priority_le (s : PromptSection) : s.priority ≤ 10 :=
  (of_decide_eq_true s.declared).2

/-- `ComposedPrompt`. -/
structure ComposedPrompt where
  sections : List PromptSection := []
  totalTokens : Nat := 0
  messages : List ChatMessage := []
  mode : String
  engineType : String
  deriving DecidableEq

/-- `TrimmedPrompt`. -/
structure TrimmedPrompt where
  sections : List PromptSection := []
  messages : List ChatMessage := []
  totalTokens : Nat := 0
  originalTokens : Nat := 0
  wasTrimmed : Bool := false
  trimmedSections : List String := []
  mode : String := "default"
  targetModel : String := "meta/llama-3.1-405b-instruct"
  deriving DecidableEq

/-- `ModelLimits`. -/
structure ModelLimits where
  model : String
  contextWindow : Nat := 131072
  maxOutputTokens : Int := 4096
  provider : String := "nvidia"
  deriving DecidableEq, Repr

end LlmService
