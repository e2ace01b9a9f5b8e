import LlmService.ContextWindow.Manager

/-!
# Context budgets

`context_window/budget_policy.py`: how many input tokens a request may use
on a provider and model.
-/

namespace LlmService

/-- `provider_of`. -/
def providerOf (name : String) : String :=
  String.ofList (PyText.lower (PyText.strip (splitColon name).1))

/-- `model_of`. -/
def modelOf (name : String) (defaultModel : String) : String :=
  match splitColon name with
  | (_, some model) => String.ofList (PyText.strip model)
  | (_, none) => defaultModel

namespace BudgetPolicy

def minInputTokens : Nat := 1000

def tpmHeadroomTokens : Nat := 200

/-- `app_budget_source`. -/
inductive AppBudgetSource where
  | modelOverride | provider | default | disabled
  deriving DecidableEq, Repr

/-- `ContextBudget`; a smaller input budget is never returned. -/
structure ContextBudget where
  provider : String
  model : String
  appBudget : Nat
  appBudgetSource : AppBudgetSource
  modelWindow : Nat
  windowAssumed : Bool
  total : Nat
  safetyMargin : ℚ
  outputReserve : Int
  inputBudget : Nat
  legacyCapApplied : Bool
  tpmCapApplied : Bool
  input_ge : minInputTokens ≤ inputBudget
  deriving DecidableEq

variable (config : LLMServiceConfig)

/-- The application budget and where it comes from. -/
def appBudget (provider model : String) : Nat × AppBudgetSource :=
  if !config.contextBudgetEnabled then (0, .disabled)
  else
    match config.contextBudgetModelOverrides.lookup s!"{provider}:{model}",
        config.contextBudgetModelOverrides.lookup model with
    | some tokens, _ | none, some tokens => (tokens, .modelOverride)
    | none, none =>
      match provider, config.contextBudgetGroqTokens, config.contextBudgetGeminiTokens with
      | "groq", some tokens, _ | "gemini", _, some tokens => (tokens, .provider)
      | _, _, _ => (config.contextBudgetDefaultTokens, .default)

/-- The window that the budget is resolved from. -/
def modelWindow (limits : Option ModelLimits) : Nat :=
  match limits with
  | some limits => limits.contextWindow
  | none => config.contextUnknownModelWindowTokens

/-- The smaller of the two ceilings. -/
def totalTokens (appBudget window : Nat) : Nat :=
  if appBudget = 0 then window else min appBudget window

/-- The output tokens set aside. -/
def outputReserve (limits : Option ModelLimits) (windowAssumed : Bool)
    (requestedOutputTokens : Option Int) : Int :=
  let reserve : Int :=
    match requestedOutputTokens with
    | none | some 0 => config.contextOutputTokenReserve
    | some requested => requested
  match limits with
  | some limits =>
    -- the model's own maximum only bounds a reserve that was not asked for
    if !windowAssumed && requestedOutputTokens.isNone then min reserve limits.maxOutputTokens
    else reserve
  | none => reserve

/-- What the safety margin leaves of the total, less the reserve. -/
def marginInput (total : Nat) (reserve : Int) : Int :=
  ⌊(total : ℚ) * (1 - config.contextTokenSafetyMargin)⌋ - reserve

/-- The cap of Groq's tokens-per-minute limit, and whether it applies. -/
def tpmCapped (provider : String) (reserve input : Int) : Int × Bool :=
  let tpmInput := config.groqTpmLimit - reserve - tpmHeadroomTokens
  if provider = "groq" ∧ 0 < config.groqTpmLimit ∧ tpmInput < input then (tpmInput, true)
  else (input, false)

/-- The legacy cap, and whether it applies. -/
def legacyCapped (input : Int) : Int × Bool :=
  if config.promptTokenBudget ≠ 0 ∧ config.promptTokenBudget < input then
    (config.promptTokenBudget, true)
  else (input, false)

/-- A safety margin as it is printed. -/
def showMargin (margin : ℚ) : String := if margin = 0 then "0.0" else formatG margin

/-- `resolve_context_budget`, with what the margin leaves of the total, less the reserve. -/
def resolveWith (marginInput : Nat → Int → Int) (provider model : String) (limits : Option ModelLimits)
    (windowAssumed : Bool) (requestedOutputTokens : Option Int) : Except Exc ContextBudget :=
  let provider := providerOf provider
  let (app, source) := appBudget config provider model
  let window := modelWindow config limits
  let total := totalTokens app window
  let reserve := outputReserve config limits windowAssumed requestedOutputTokens
  let (input, tpm) := tpmCapped config provider reserve (marginInput total reserve)
  let (input, legacy) := legacyCapped config input
  if hsmall : input < minInputTokens then
    .error
      { cls := .contextBudgetError
        message :=
          s!"effective input budget for {provider}:{model} is {input} tokens (total {total}, "
            ++ s!"reserve {reserve}, margin {showMargin config.contextTokenSafetyMargin}); "
            ++ "raise the budget or lower the output reserve" }
  else
    .ok
      { provider, model
        appBudget := app
        appBudgetSource := source
        modelWindow := window
        windowAssumed := windowAssumed || limits.isNone
        total
        safetyMargin := config.contextTokenSafetyMargin
        outputReserve := reserve
        inputBudget := input.toNat
        legacyCapApplied := legacy
        tpmCapApplied := tpm
        input_ge := by omega }

/-- With the margin as an exact rational. -/
def resolveContextBudget (provider model : String) (limits : Option ModelLimits)
    (windowAssumed : Bool) (requestedOutputTokens : Option Int) : Except Exc ContextBudget :=
  resolveWith config (marginInput config) provider model limits windowAssumed requestedOutputTokens

/-- With the floats of `int(total * (1 - margin))`. -/
def resolveInDoubles (provider model : String) (limits : Option ModelLimits)
    (windowAssumed : Bool) (requestedOutputTokens : Option Int) : Except Exc ContextBudget :=
  let (app, _) := appBudget config (providerOf provider) model
  match lessMargin config.contextTokenSafetyMargin (totalTokens app (modelWindow config limits)) with
  | none => .error { cls := .other "OverflowError", message := "int too large to convert to float" }
  | some room =>
    resolveWith config (fun _ reserve => ⌊room⌋ - reserve) provider model limits windowAssumed
      requestedOutputTokens

/-! ## What a resolved budget leaves -/

theorem totalTokens_le (app window : Nat) : totalTokens app window ≤ window := by
  rw [totalTokens]
  by_cases h : app = 0
  · rw [if_pos h]
  · rw [if_neg h]
    exact Nat.min_le_right _ _

theorem tpmCapped_le (provider : String) (reserve input : Int) :
    (tpmCapped config provider reserve input).1 ≤ input := by
  simp only [tpmCapped]
  by_cases h : provider = "groq" ∧ 0 < config.groqTpmLimit ∧
      config.groqTpmLimit - reserve - tpmHeadroomTokens < input
  · rw [if_pos h]
    exact Int.le_of_lt h.2.2
  · rw [if_neg h]

theorem legacyCapped_le (input : Int) : (legacyCapped config input).1 ≤ input := by
  simp only [legacyCapped]
  by_cases h : config.promptTokenBudget ≠ 0 ∧ config.promptTokenBudget < input
  · rw [if_pos h]
    exact Int.le_of_lt h.2
  · rw [if_neg h]

/-- What the margin leaves of a total, and the reserve, are within the total. -/
theorem marginInput_le (total : Nat) (reserve : Int) :
    marginInput config total reserve + reserve ≤ total := by
  have hmargin : (total : ℚ) * (1 - config.contextTokenSafetyMargin) ≤ total := by
    have hpos : (0 : ℚ) ≤ total := Nat.cast_nonneg _
    nlinarith [config.margin_bounds.1]
  have hfloor : ⌊(total : ℚ) * (1 - config.contextTokenSafetyMargin)⌋ ≤ (total : Int) := by
    have h := Int.floor_le_floor hmargin
    simpa using h
  rw [marginInput]
  omega

variable {config} {provider model : String} {limits : Option ModelLimits} {assumed : Bool}
  {requested : Option Int} {budget : ContextBudget}

/-- The reserve and the input budget are together within the window. -/
theorem resolve_room
    (h : resolveContextBudget config provider model limits assumed requested = .ok budget) :
    (budget.inputBudget : Int) + budget.outputReserve ≤ budget.modelWindow := by
  simp only [resolveContextBudget, resolveWith] at h
  split at h
  · cases h
  · rename_i hinput
    obtain rfl := Except.ok.inj h
    dsimp only
    generalize houtput : outputReserve config limits assumed requested = reserve at *
    generalize happ : appBudget config (providerOf provider) model = app at *
    generalize htotal : totalTokens app.1 _ = total at *
    have hlegacy := legacyCapped_le config
      (tpmCapped config (providerOf provider) reserve (marginInput config total reserve)).1
    have htpm := tpmCapped_le config (providerOf provider) reserve
      (marginInput config total reserve)
    have hmargin := marginInput_le config total reserve
    have hwindow := htotal ▸ totalTokens_le app.1 (modelWindow config limits)
    omega

/-- A budget that does not resolve is a misconfiguration, not an overflow. -/
theorem resolve_error_cls {exc : Exc}
    (h : resolveContextBudget config provider model limits assumed requested = .error exc) :
    exc.cls = .contextBudgetError := by
  simp only [resolveContextBudget, resolveWith] at h
  split at h
  · cases h
    rfl
  · cases h

end BudgetPolicy

end LlmService
