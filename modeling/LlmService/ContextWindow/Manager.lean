import LlmService.Config.Settings
import LlmService.ContextWindow.Trimmer
import LlmService.Lib.Within
import LlmService.Prompts.Compose

/-!
# ContextWindowManager

`context_window/manager.py` and `context_window/budget.py`: the input budget
of a model, the sections trimmed to it, and the messages composed from them.
-/

namespace LlmService

/-- `text.split(":", 1)`: what stands before the first colon, and what after. -/
def splitColon (name : String) : Text × Option Text :=
  let start := name.toList.takeWhile (· ≠ ':')
  match name.toList.drop start.length with
  | [] => (start, none)
  | _ :: rest => (start, some rest)

/-- `BudgetCalculator.calculate(model).input_budget`; the effective window is
95 percent of the window. -/
def BudgetCalculator.inputBudget (model : ModelLimits) : Nat :=
  (max 500 ((model.contextWindow * 95 / 100 : Nat) - model.maxOutputTokens)).toNat

theorem BudgetCalculator.inputBudget_ge (model : ModelLimits) : 500 ≤ inputBudget model := by
  simp only [inputBudget]
  omega

/-- `ContextWindowManager`; every way to build one registers the limits of
`"default"`. -/
structure ContextWindowManager where
  tokenCounter : TokenCounter
  providerLimits : List (String × ModelLimits)
  historyAsMessages : Bool
  default_registered : (providerLimits.lookup "default").isSome

namespace ContextWindowManager

def defaultModelLimits : List (String × ModelLimits) :=
  [("meta/llama-3.1-405b-instruct",
      { model := "meta/llama-3.1-405b-instruct", provider := "nvidia" }),
    ("meta/llama-3.1-70b-instruct",
      { model := "meta/llama-3.1-70b-instruct", provider := "nvidia" }),
    ("gemini-1.5-pro",
      { model := "gemini-1.5-pro", contextWindow := 2097152, maxOutputTokens := 8192
        provider := "gemini" }),
    ("gemini-1.5-flash",
      { model := "gemini-1.5-flash", contextWindow := 1048576, maxOutputTokens := 8192
        provider := "gemini" }),
    ("llama-3.3-70b-versatile", { model := "llama-3.3-70b-versatile", provider := "groq" }),
    ("default",
      { model := "default", contextWindow := 8192, maxOutputTokens := 1024
        provider := "nvidia" })]

/-- The limits that `apply_config` registers for a declared window. -/
def declaredLimits (config : LLMServiceConfig) (model : String) (window : Nat) : ModelLimits :=
  { model
    contextWindow := window
    maxOutputTokens := (min config.contextOutputTokenReserve (max 256 (window / 4)) : Nat)
    provider :=
      match splitColon model with
      | (start, some _) => String.ofList start
      | (_, none) => "groq" }

/-- The limits that `apply_config` registers for `"default"`. -/
def unknownLimits (config : LLMServiceConfig) : ModelLimits :=
  let unknown := config.contextUnknownModelWindowTokens
  { model := "default"
    contextWindow := unknown
    maxOutputTokens := (min 1024 (max 256 (unknown / 4)) : Nat)
    provider := "nvidia" }

/-- `ContextWindowManager()` followed by `apply_config(config)`; what is
registered later is found first. -/
def ofConfig (counter : TokenCounter) (config : LLMServiceConfig) : ContextWindowManager where
  tokenCounter := counter
  providerLimits := ("default", unknownLimits config)
    :: (config.contextModelWindows.map fun w => (w.1, declaredLimits config w.1 w.2)).reverse
    ++ defaultModelLimits
  historyAsMessages := config.promptHistoryAsMessages
  default_registered := by simp

variable (m : ContextWindowManager)

/-- `resolve_limits`; the model is unregistered when this is `none`. -/
def resolveLimits (targetModel : String) : Option ModelLimits :=
  m.providerLimits.lookup targetModel

def getModelLimits (targetModel : String) : ModelLimits :=
  (m.resolveLimits targetModel).getD
    ((m.providerLimits.lookup "default").get m.default_registered)

/-- The limits that `manage` works with: a request that states its output
reserves that instead of the model's nominal maximum. -/
def reservedLimits (targetModel : String) (maxOutputTokens : Option Int) : ModelLimits :=
  let limits := m.getModelLimits targetModel
  match maxOutputTokens with
  -- `if max_output_tokens:` is false for 0 as well
  | none | some 0 => limits
  | some requested => { limits with maxOutputTokens := requested }

/-- The input budget that the model itself leaves. -/
def modelBudget (targetModel : String) (maxOutputTokens : Option Int) : Nat :=
  BudgetCalculator.inputBudget (m.reservedLimits targetModel maxOutputTokens)

/-- A configured cap can only lower the budget. -/
def effectiveBudget (targetModel : String) (customInputBudget : Option Nat)
    (maxOutputTokens : Option Int) : Nat :=
  match customInputBudget with
  | none | some 0 => m.modelBudget targetModel maxOutputTokens
  | some custom => min custom (m.modelBudget targetModel maxOutputTokens)

def manage (prompt : ComposedPrompt) (targetModel : String) (customInputBudget : Option Nat)
    (maxOutputTokens : Option Int) : Except Exc TrimmedPrompt := do
  let (sections, trimmedSections) ←
    PriorityTrimmer.trim m.tokenCounter (m.reservedLimits targetModel maxOutputTokens).provider
      prompt.sections (m.effectiveBudget targetModel customInputBudget maxOutputTokens)
  return {
    sections
    messages := Compose.composeMessages sections m.historyAsMessages
    totalTokens := sectionTokens sections
    originalTokens := sectionTokens prompt.sections
    wasTrimmed := !trimmedSections.isEmpty
    trimmedSections
    mode := prompt.mode
    targetModel }

/-! ## What manage returns -/

variable {m} {prompt : ComposedPrompt} {targetModel : String} {custom : Option Nat}
  {maxOutputTokens : Option Int}

theorem effectiveBudget_some {target : Nat} (h : 0 < target) :
    m.effectiveBudget targetModel (some target) maxOutputTokens
      = min target (m.modelBudget targetModel maxOutputTokens) := by
  cases target with
  | zero => omega
  | succ n => rfl

variable (m prompt targetModel custom maxOutputTokens) in
/-- A prompt whose section counts are within the budget is composed as it is. -/
theorem manage_of_le (h : sectionTokens prompt.sections
      ≤ m.effectiveBudget targetModel custom maxOutputTokens) :
    m.manage prompt targetModel custom maxOutputTokens = .ok
      { sections := prompt.sections
        messages := Compose.composeMessages prompt.sections m.historyAsMessages
        totalTokens := sectionTokens prompt.sections
        originalTokens := sectionTokens prompt.sections
        wasTrimmed := false
        trimmedSections := []
        mode := prompt.mode
        targetModel } := by
  rw [manage, PriorityTrimmer.trim_of_le h]
  rfl

/-- `manage` fails only by an overflow of the trimmer. -/
theorem manage_error_cls {exc : Exc}
    (h : m.manage prompt targetModel custom maxOutputTokens = .error exc) :
    exc.cls = .contextOverflowError := by
  simp only [manage] at h
  cases htrim : PriorityTrimmer.trim m.tokenCounter
      (m.reservedLimits targetModel maxOutputTokens).provider prompt.sections
      (m.effectiveBudget targetModel custom maxOutputTokens) with
  | error exc' =>
    rw [htrim] at h
    cases h
    exact PriorityTrimmer.trim_error_cls htrim
  | ok result =>
    rw [htrim] at h
    cases h

/-- What `manage` returns is what trimming left, and the messages of that. -/
theorem trim_of_manage {trimmed : TrimmedPrompt}
    (h : m.manage prompt targetModel custom maxOutputTokens = .ok trimmed) :
    ∃ names, PriorityTrimmer.trim m.tokenCounter
        (m.reservedLimits targetModel maxOutputTokens).provider prompt.sections
        (m.effectiveBudget targetModel custom maxOutputTokens) = .ok (trimmed.sections, names) ∧
      trimmed.messages = Compose.composeMessages trimmed.sections m.historyAsMessages ∧
      trimmed.totalTokens = sectionTokens trimmed.sections := by
  obtain ⟨result, htrim, hok⟩ := except_bind_eq_ok.mp h
  cases hok
  exact ⟨result.2, htrim, rfl, rfl⟩

theorem manage_ok {trimmed : TrimmedPrompt}
    (h : m.manage prompt targetModel custom maxOutputTokens = .ok trimmed) :
    trimmed.totalTokens = sectionTokens trimmed.sections
      ∧ trimmed.totalTokens ≤ m.effectiveBudget targetModel custom maxOutputTokens
      ∧ trimmed.messages = Compose.composeMessages trimmed.sections m.historyAsMessages := by
  obtain ⟨names, htrim, hmessages, htotal⟩ := trim_of_manage h
  refine ⟨htotal, ?_, hmessages⟩
  rw [htotal]
  exact PriorityTrimmer.trim_tokens_le htrim

end ContextWindowManager

end LlmService
