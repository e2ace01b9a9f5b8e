import LlmService.ContextWindow.TokenCounter
import LlmService.Lib.Infix

/-!
# Composing messages

`prompts/compose.py`, and the part of `prompts/builder.py` that depends on
the conversation history. The other sections of a prompt come from the rest
of the request, which prompt fitting never changes; they are given to the
builder as they are.
-/

namespace LlmService

namespace Compose

def historySection : String := "conversation_history"

def blankLine : Text := ['\n', '\n']

/-- `_append`: a message of the role of the last one is merged into it. -/
def append (messages : List ChatMessage) (role : Role) (content : Text) : List ChatMessage :=
  match messages.getLast? with
  | some last =>
    if last.role = role then
      messages.dropLast ++ [{ last with content := last.content ++ blankLine ++ content }]
    else messages ++ [{ role, content }]
  | none => [{ role, content }]

/-- `history_messages`. -/
def historyMessages (sec : PromptSection) : List ChatMessage :=
  let out := (sec.items.getD []).foldl (fun out item =>
    let content := PyText.strip item.content
    if (item.role = .user ∨ item.role = .assistant) ∧ content ≠ [] then
      append out item.role content
    else out) []
  -- chat APIs expect the conversation to open with the user
  out.dropWhile fun m => m.role ≠ .user

/-- `"\n\n".join(s.content for s in sections if keep(s.name))`. -/
def joined (sections : List PromptSection) (keep : String → Bool) : Text :=
  PyText.join blankLine ((sections.filter fun s => keep s.name).map (·.content))

/-- The first component of `compose_messages`. -/
def composeMessages (sections : List PromptSection) (historyAsMessages : Bool) :
    List ChatMessage :=
  let systemPrompt := joined sections fun name => name = "system"
  let userPrompt := joined sections fun name => name ≠ "system"
  let messages : List ChatMessage :=
    if systemPrompt = [] then [] else [{ role := .system, content := systemPrompt }]
  let history := sections.find? fun s => s.name = historySection && (s.items.getD []) ≠ []
  match historyAsMessages, history with
  | true, some sec =>
    let messages := messages ++ historyMessages sec
    let rest := joined sections fun name => name ≠ "system" && name ≠ historySection
    if rest = [] then messages else append messages .user rest
  | _, _ =>
    if userPrompt = [] then messages
    else messages ++ [{ role := .user, content := userPrompt }]

theorem infix_joined {sections : List PromptSection} {keep : String → Bool} {s : PromptSection}
    (hs : s ∈ sections) (hkeep : keep s.name = true) : s.content <:+: joined sections keep :=
  PyText.infix_join (List.mem_map_of_mem (List.mem_filter.mpr ⟨hs, hkeep⟩))

theorem joined_ne_nil {sections : List PromptSection} {keep : String → Bool} {s : PromptSection}
    (hs : s ∈ sections) (hkeep : keep s.name = true) (htext : s.content ≠ []) :
    joined sections keep ≠ [] := by
  intro hnil
  have hpart := infix_joined hs hkeep
  rw [hnil] at hpart
  exact htext (List.eq_nil_of_infix_nil hpart)

/-- A section is in a message, unless it is the system's, or the history that
is sent as messages. -/
theorem exists_infix_of_section {sections : List PromptSection} {s : PromptSection}
    {historyAsMessages : Bool} (hs : s ∈ sections) (hsystem : s.name ≠ "system")
    (hhistory : historyAsMessages = false ∨ s.name ≠ historySection) (htext : s.content ≠ []) :
    ∃ msg ∈ composeMessages sections historyAsMessages, s.content <:+: msg.content := by
  have hjoined : ∀ keep : String → Bool, keep s.name = true →
      s.content <:+: joined sections keep ∧ joined sections keep ≠ [] :=
    fun keep hkeep => ⟨infix_joined hs hkeep, joined_ne_nil hs hkeep htext⟩
  obtain ⟨huser, huser'⟩ := hjoined (fun name => name ≠ "system") (by simpa using hsystem)
  simp only [composeMessages]
  split
  · next sec hfind =>
    have hname : s.name ≠ historySection := hhistory.resolve_left (by decide)
    obtain ⟨hrest, hrest'⟩ := hjoined (fun name => name ≠ "system" && name ≠ historySection)
      (by simp [hsystem, hname])
    rw [if_neg hrest', append]
    split
    · next last hlast =>
      split
      · refine ⟨_, List.mem_append_right _ (List.mem_singleton.mpr rfl), ?_⟩
        exact hrest.trans (List.suffix_append _ _).isInfix
      · exact ⟨_, List.mem_append_right _ (List.mem_singleton.mpr rfl), hrest⟩
    · exact ⟨_, List.mem_singleton.mpr rfl, hrest⟩
  · rw [if_neg huser']
    exact ⟨_, List.mem_append_right _ (List.mem_singleton.mpr rfl), huser⟩

end Compose

/-- `result.conversation_history`, and of `ctx.context_bundle.memory` (if the
bundle has one) the short-term messages and the summary. -/
structure Histories where
  conversationHistory : List Message := []
  shortTermMessages : Option (List Message) := none
  summary : Text := []
  deriving DecidableEq

/-- `PromptBuilder`, for one request: the sections it puts before and after
the conversation history. -/
structure PromptBuilder where
  before : List PromptSection
  after : List PromptSection
  mode : String := "default"
  engineType : String := "mode_handler"
  historyAsMessages : Bool := false
  counter : TokenCounter := {}

namespace PromptBuilder

def historyHeader : Text :=
  ("## Recent Conversation History (the current message continues this conversation; "
    ++ "interpret it in light of the latest topic here)").toList

/-- `_format_history`. -/
def formatHistory (messages : List Message) : Text :=
  PyText.join ['\n'] (historyHeader ::
    messages.map fun msg => msg.role.capitalized ++ ": ".toList ++ PyText.strip msg.content)

/-- Section 7 of `_build_sections`. -/
def historySection (b : PromptBuilder) (histories : Histories) : List PromptSection :=
  let history :=
    if histories.conversationHistory = [] then histories.shortTermMessages.getD []
    else histories.conversationHistory
  if history = [] then []
  else
    let content := formatHistory history
    [{  name := Compose.historySection
        content
        priority := 8
        -- `_count_tokens` has no provider calibration
        tokenCount := b.counter.countText content "openai"
        items := some ((history.filter fun m => PyText.strip m.content ≠ []).map fun m =>
          { role := m.role, content := PyText.strip m.content })
        header := historyHeader }]

def build (b : PromptBuilder) (histories : Histories) : ComposedPrompt :=
  let sections := b.before ++ b.historySection histories ++ b.after
  { sections
    totalTokens := (sections.map (·.tokenCount)).sum
    messages := Compose.composeMessages sections b.historyAsMessages
    mode := b.mode
    engineType := b.engineType }

end PromptBuilder

end LlmService
