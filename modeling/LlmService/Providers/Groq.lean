import LlmService.ContextWindow.Fit

/-!
# What an adapter asks for

The output size that an adapter puts into its provider request: the one it
is passed, or for Groq the one of `output_budget` (`providers/groq.py`).
-/

namespace LlmService

namespace GroqAdapter

def minOutputTokens : Int := 1024

def generationMaxTokens : Int := 4096

/-- `estimate_prompt_tokens`: the tokenizer's count and 5 percent, or a third
of the characters. -/
def estimatePromptTokens (counter : TokenCounter) (messages : List ChatMessage) : Nat :=
  if counter.tokenizer.isSome then counter.countMessages messages "groq" * 105 / 100 + 50
  else (messages.map fun msg => msg.content.length).sum / 3 + 50

def outputBudget (requested promptTokens tpmLimit : Int) : Int :=
  let want := min (max requested generationMaxTokens) 8192
  if tpmLimit ≤ 0 then want
  else max minOutputTokens (min want (tpmLimit - promptTokens - 200))

/-- What Groq asks for is within what it wants, or within its floor. -/
theorem outputBudget_le (requested promptTokens tpmLimit : Int) :
    outputBudget requested promptTokens tpmLimit ≤ min (max requested generationMaxTokens) 8192 := by
  simp only [outputBudget, minOutputTokens, generationMaxTokens]
  by_cases hlimit : tpmLimit ≤ 0
  · rw [if_pos hlimit]
  · rw [if_neg hlimit]
    omega

/-- A longer prompt leaves no more of the tier. -/
theorem outputBudget_anti (requested tpmLimit : Int) {promptTokens promptTokens' : Int}
    (h : promptTokens ≤ promptTokens') :
    outputBudget requested promptTokens' tpmLimit ≤ outputBudget requested promptTokens tpmLimit := by
  simp only [outputBudget]
  by_cases hlimit : tpmLimit ≤ 0
  · rw [if_pos hlimit, if_pos hlimit]
  · rw [if_neg hlimit, if_neg hlimit]
    omega

/-- The least that is estimated of a prompt. -/
def estimateMargin : Nat := 50

theorem estimateMargin_le (counter : TokenCounter) (messages : List ChatMessage) :
    estimateMargin ≤ estimatePromptTokens counter messages := by
  rw [estimatePromptTokens]
  split
  · exact Nat.le_add_left _ _
  · exact Nat.le_add_left _ _

/-- Without a tokens-per-minute limit, the caller's value is a floor. -/
theorem outputBudget_unlimited (requested promptTokens : Int) :
    outputBudget requested promptTokens 0 = min (max requested generationMaxTokens) 8192 := by
  simp [outputBudget]

end GroqAdapter

/-- `max_tokens` of an entry's provider request, for the messages it is passed. -/
def askedOutput (config : LLMServiceConfig) (counter : TokenCounter) (entryName : String)
    (params : Params) (messages : List ChatMessage) : Int :=
  match providerOf entryName with
  | "groq" =>
    GroqAdapter.outputBudget (params.maxTokens.getD 0)
      (GroqAdapter.estimatePromptTokens counter messages) config.groqTpmLimit
  | "gemini" => params.maxTokens.getD 8192
  | _ => params.maxTokens.getD 1024

/-- The most that an entry asks for, whatever messages it is passed. -/
def mostAsked (config : LLMServiceConfig) (entryName : String) (params : Params) : Int :=
  match providerOf entryName with
  | "groq" =>
    GroqAdapter.outputBudget (params.maxTokens.getD 0) GroqAdapter.estimateMargin config.groqTpmLimit
  | "gemini" => params.maxTokens.getD 8192
  | _ => params.maxTokens.getD 1024

theorem askedOutput_le (config : LLMServiceConfig) (counter : TokenCounter) (entryName : String)
    (params : Params) (messages : List ChatMessage) :
    askedOutput config counter entryName params messages ≤ mostAsked config entryName params := by
  rw [askedOutput, mostAsked]
  split
  · exact GroqAdapter.outputBudget_anti _ _
      (Int.ofNat_le.mpr (GroqAdapter.estimateMargin_le counter messages))
  · exact le_rfl
  · exact le_rfl

end LlmService
