import LlmService.Lib.Doubles
import LlmService.Lib.PyText

/-!
# LLMServiceConfig

The settings that prompt fitting and generation read, with their defaults. A
configuration that its validators refuse stops the service at startup, so
the conditions are fields. Ratios and margins are the numbers that are written
in the settings; what a validator computes from one is rounded as its floats are.
-/

namespace LlmService

/-- `_positive_token_maps`. -/
abbrev PositiveTokenMap (tokens : List (String × Nat)) : Prop :=
  ∀ entry ∈ tokens, PyText.strip entry.1.toList ≠ [] ∧ 1000 ≤ entry.2

/-- `tokens * (1 - margin)`, unless the tokens are too many for a float. -/
def lessMargin (margin : ℚ) (tokens : Nat) : Option ℚ :=
  (Doubles.ofInt tokens).map fun tokens =>
    Doubles.nearest (tokens * Doubles.nearest (1 - Doubles.nearest margin))

/-- `smallest` of `_context_policy_is_consistent`. -/
def smallestBudget (default : Nat) (others : List (Option Nat)) : Nat :=
  others.reduceOption.foldl min default

/-! The declared ratios meet the conditions on them. -/

theorem declared_margin : (0 : ℚ) ≤ 5 / 100 ∧ (5 / 100 : ℚ) < 1 / 2 := by norm_num

theorem declared_trigger : (0 : ℚ) < 85 / 100 ∧ (85 / 100 : ℚ) ≤ 1 := by norm_num

theorem declared_target : (0 : ℚ) < 65 / 100 ∧ (65 / 100 : ℚ) < 85 / 100 := by norm_num

theorem declared_reserve : ∃ room ∈ lessMargin (5 / 100) (smallestBudget 150000 [some 150000, some 150000]),
    ((8192 : Nat) : ℚ) < room := by decide +kernel

structure LLMServiceConfig where
  groqModel : String := "openai/gpt-oss-20b"
  groqMaxTokens : Int := 2048
  groqTpmLimit : Int := 8000
  promptTokenBudget : Nat := 0
  contextBudgetEnabled : Bool := true
  contextBudgetDefaultTokens : Nat := 150000
  contextBudgetGroqTokens : Option Nat := some 150000
  contextBudgetGeminiTokens : Option Nat := some 150000
  contextBudgetModelOverrides : List (String × Nat) := []
  contextModelWindows : List (String × Nat) := []
  contextUnknownModelWindowTokens : Nat := 32768
  promptHistoryAsMessages : Bool := false
  contextCompactionEnabled : Bool := true
  contextCompactionTriggerRatio : ℚ := 85 / 100
  contextCompactionTargetRatio : ℚ := 65 / 100
  contextCompactionMinRecentMessages : Nat := 6
  contextTokenSafetyMargin : ℚ := 5 / 100
  contextOutputTokenReserve : Nat := 8192
  enableNvidia : Bool := true
  nvidiaModel : String := "nvidia/nemotron-3.5-lightning-30b-a3b"
  nvidiaMaxTokens : Int := 8192
  geminiModel : String := "gemini-2.5-flash"
  geminiMaxTokens : Int := 8192
  default_ge : 1000 ≤ contextBudgetDefaultTokens := by decide
  groq_ge : ∀ t ∈ contextBudgetGroqTokens, 1000 ≤ t := by decide
  gemini_ge : ∀ t ∈ contextBudgetGeminiTokens, 1000 ≤ t := by decide
  overrides_positive : PositiveTokenMap contextBudgetModelOverrides := by decide
  windows_positive : PositiveTokenMap contextModelWindows := by decide
  unknown_ge : 2048 ≤ contextUnknownModelWindowTokens := by decide
  reserve_ge : 256 ≤ contextOutputTokenReserve := by decide
  minRecent_bounds : 1 ≤ contextCompactionMinRecentMessages
    ∧ contextCompactionMinRecentMessages ≤ 100 := by decide
  margin_bounds : 0 ≤ contextTokenSafetyMargin ∧ contextTokenSafetyMargin < 1 / 2 := by
    first | exact declared_margin | norm_num
  trigger_bounds : 0 < contextCompactionTriggerRatio ∧ contextCompactionTriggerRatio ≤ 1 := by
    first | exact declared_trigger | norm_num
  target_bounds : 0 < contextCompactionTargetRatio
    ∧ contextCompactionTargetRatio < contextCompactionTriggerRatio := by
    first | exact declared_target | norm_num
  reserve_lt : ∃ room ∈ lessMargin contextTokenSafetyMargin (smallestBudget contextBudgetDefaultTokens
      [contextBudgetGroqTokens, contextBudgetGeminiTokens]),
    (contextOutputTokenReserve : ℚ) < room := by
    first | exact declared_reserve | decide +kernel

/-- The settings as they are declared. -/
def LLMServiceConfig.declared : LLMServiceConfig := {}

end LlmService
