import LlmService.ContextWindow.BudgetCeilings
import LlmService.Pipeline.ProviderFit

/-!
# What the startup checks leave to a request

The validators of `LLMServiceConfig` hold the output reserve against the
application budgets. A request reserves its provider's own maximum instead,
and its budget has to fit the model's window, the tokens-per-minute limit and
the legacy cap as well. `Ample` says what a configuration needs so that every
candidate has a budget, as it is resolved in floats.
-/

namespace LlmService

namespace StartupChecks

open BudgetPolicy

def providers : List String := ["groq", "gemini", "nvidia"]

variable (config : LLMServiceConfig)

/-- A candidate of the pipeline or the chain: a provider with its configured
maximum of output tokens, and any model. -/
structure Named (c : Candidate) : Prop where
  known : c.provider ∈ providers
  maxTokens_eq : c.maxTokens = ChainFit.maxTokensOf config c.provider

variable {config} in
theorem named_entryCandidate {entryName : String} (h : providerOf entryName ∈ providers) :
    Named config (ChainFit.entryCandidate config entryName) := by
  unfold ChainFit.entryCandidate
  generalize providerOf entryName = provider at h ⊢
  exact ⟨h, rfl⟩

variable {config} in
theorem named_candidateOf {name : String} (h : String.ofList (splitColon name).1 ∈ providers) :
    Named config (ProviderFit.candidateOf config name) := by
  unfold ProviderFit.candidateOf
  generalize splitColon name = parts at h ⊢
  exact ⟨h, rfl⟩

/-- The budget of a request to a candidate. -/
def candidateBudget (counter : TokenCounter) (c : Candidate) : Except Exc ContextBudget :=
  let limits := (ContextWindowManager.ofConfig counter config).resolveLimits c.model
  resolveInDoubles config c.provider c.model limits limits.isNone (some c.maxTokens)

/-- No candidate is without a budget. -/
def Sufficient : Prop :=
  ∀ (counter : TokenCounter) (c : Candidate), Named config c →
    ∃ budget, candidateBudget config counter c = .ok budget

/-! ## The condition on the settings -/

/-- The output tokens that a request to the provider sets aside. -/
def requestReserve (provider : String) : Int :=
  if ChainFit.maxTokensOf config provider = 0 then config.contextOutputTokenReserve
  else ChainFit.maxTokensOf config provider

/-- So many tokens hold, behind the safety margin, an answer and 1000 tokens
of input. -/
def Holds (tokens : Nat) (provider : String) : Prop :=
  ∃ room ∈ lessMargin config.contextTokenSafetyMargin tokens, requestReserve config provider + 1000 ≤ ⌊room⌋

/-- The budget set for a provider, or for all. -/
def providerSetting (provider : String) : Nat :=
  if provider = "groq" then config.contextBudgetGroqTokens.getD config.contextBudgetDefaultTokens
  else if provider = "gemini" then
    config.contextBudgetGeminiTokens.getD config.contextBudgetDefaultTokens
  else config.contextBudgetDefaultTokens

/-- The budget set for a model on a provider, for the model, or for the provider. -/
def budgetSetting (provider model : String) : Nat :=
  ((config.contextBudgetModelOverrides.lookup s!"{provider}:{model}").or
    (config.contextBudgetModelOverrides.lookup model)).getD (providerSetting config provider)

/-- The window declared for a model, its built-in one, or the conservative one. -/
def windowSetting (model : String) : Nat :=
  if model = "default" then config.contextUnknownModelWindowTokens
  else
    ((config.contextModelWindows.reverse.lookup model).or
      ((ContextWindowManager.defaultModelLimits.lookup model).map (·.contextWindow))).getD
        config.contextUnknownModelWindowTokens

/-- The window, or the budget if that is smaller. -/
def totalSetting (provider model : String) : Nat :=
  if config.contextBudgetEnabled then min (budgetSetting config provider model) (windowSetting config model)
  else windowSetting config model

/-- The settings leave room for every provider and model. -/
structure Ample : Prop where
  legacy : config.promptTokenBudget = 0 ∨ 1000 ≤ config.promptTokenBudget
  tokensPerMinute : config.groqTpmLimit ≤ 0 ∨ requestReserve config "groq" + 1200 ≤ config.groqTpmLimit
  totals : ∀ provider ∈ providers, ∀ model, Holds config (totalSetting config provider model) provider

/-! ## The settings and what is resolved from them -/

theorem appBudget_eq (henabled : config.contextBudgetEnabled) (provider model : String) :
    (appBudget config provider model).1 = budgetSetting config provider model := by
  unfold appBudget budgetSetting
  rw [henabled, if_neg (by decide)]
  cases config.contextBudgetModelOverrides.lookup s!"{provider}:{model}" with
  | some tokens => rfl
  | none =>
    cases config.contextBudgetModelOverrides.lookup model with
    | some tokens => rfl
    | none =>
      dsimp only
      show _ = providerSetting config provider
      unfold providerSetting
      by_cases hgroq : provider = "groq"
      · subst hgroq
        rw [if_pos rfl]
        cases config.contextBudgetGroqTokens <;> rfl
      · by_cases hgemini : provider = "gemini"
        · subst hgemini
          rw [if_neg (by decide), if_pos rfl]
          cases config.contextBudgetGeminiTokens <;> rfl
        · rw [if_neg hgroq, if_neg hgemini]
          split
          · exact absurd rfl hgroq
          · exact absurd rfl hgemini
          · rfl

theorem lookup_declared (windows : List (String × Nat)) (model : String) :
    (windows.map fun w => (w.1, ContextWindowManager.declaredLimits config w.1 w.2)).lookup model
      = (windows.lookup model).map (ContextWindowManager.declaredLimits config model) := by
  induction windows with
  | nil => rfl
  | cons w windows ih =>
    obtain ⟨key, window⟩ := w
    rw [List.map_cons, List.lookup_cons, List.lookup_cons]
    by_cases hkey : model = key
    · subst hkey
      rw [beq_self_eq_true]
      rfl
    · rw [beq_false_of_ne hkey]
      exact ih

theorem modelWindow_eq (counter : TokenCounter) (model : String) :
    modelWindow config ((ContextWindowManager.ofConfig counter config).resolveLimits model)
      = windowSetting config model := by
  show modelWindow config (List.lookup model (("default", ContextWindowManager.unknownLimits config)
    :: _ ++ ContextWindowManager.defaultModelLimits)) = _
  unfold windowSetting
  rw [List.cons_append, List.lookup_cons]
  by_cases hdefault : model = "default"
  · subst hdefault
    rw [if_pos rfl]
    rfl
  · rw [if_neg hdefault, beq_false_of_ne hdefault, ← List.map_reverse]
    dsimp only
    rw [List.lookup_append, lookup_declared]
    cases config.contextModelWindows.reverse.lookup model with
    | some window => rfl
    | none => cases ContextWindowManager.defaultModelLimits.lookup model <;> rfl

theorem outputReserve_eq (limits : Option ModelLimits) (assumed : Bool) (provider : String) :
    outputReserve config limits assumed (some (ChainFit.maxTokensOf config provider))
      = requestReserve config provider := by
  unfold outputReserve requestReserve
  generalize ChainFit.maxTokensOf config provider = maxTokens
  rw [Option.isNone_some, Bool.and_false]
  by_cases hzero : maxTokens = 0
  · subst hzero
    cases limits <;> rfl
  · rw [if_neg hzero]
    cases limits
    case' some limits =>
      dsimp only
      rw [if_neg Bool.false_ne_true]
    all_goals
      split
      · rename_i h
        cases h
      · rename_i h
        exact absurd (Option.some.inj h) hzero
      · rename_i h
        exact (Option.some.inj h).symm

/-- The total of a request, by the settings. -/
theorem totalTokens_eq (counter : TokenCounter) (provider model : String) :
    totalTokens (appBudget config provider model).1 (modelWindow config
      ((ContextWindowManager.ofConfig counter config).resolveLimits model)) =
        totalSetting config provider model := by
  rw [modelWindow_eq, totalSetting]
  by_cases henabled : config.contextBudgetEnabled
  · have hpos := appBudget_ge config provider model henabled
    rw [if_pos henabled, totalTokens, if_neg (by omega), appBudget_eq config henabled]
  · have hdisabled : (appBudget config provider model).1 = 0 := by
      unfold appBudget
      rw [if_pos (by simpa using henabled)]
    rw [if_neg henabled, hdisabled, totalTokens, if_pos rfl]

/-! ## The caps -/

theorem tpmCapped_ge_iff (provider : String) (reserve input : Int) :
    1000 ≤ (tpmCapped config provider reserve input).1 ↔
      1000 ≤ input ∧
        (provider = "groq" → config.groqTpmLimit ≤ 0 ∨ reserve + 1200 ≤ config.groqTpmLimit) := by
  have hheadroom : (tpmHeadroomTokens : Int) = 200 := rfl
  simp only [tpmCapped]
  by_cases hgroq : provider = "groq"
  · by_cases hcap : 0 < config.groqTpmLimit ∧
      config.groqTpmLimit - reserve - tpmHeadroomTokens < input
    · rw [if_pos ⟨hgroq, hcap⟩]
      dsimp only
      constructor
      · intro h
        exact ⟨by omega, fun _ => .inr (by omega)⟩
      · intro h
        have := h.2 hgroq
        omega
    · rw [if_neg fun h => hcap h.2]
      dsimp only
      constructor
      · intro h
        exact ⟨h, fun _ => by omega⟩
      · intro h
        exact h.1
  · rw [if_neg fun h => hgroq h.1]
    exact ⟨fun h => ⟨h, fun h' => absurd h' hgroq⟩, fun h => h.1⟩

theorem legacyCapped_ge_iff (input : Int) :
    1000 ≤ (legacyCapped config input).1 ↔
      1000 ≤ input ∧ (config.promptTokenBudget = 0 ∨ 1000 ≤ config.promptTokenBudget) := by
  simp only [legacyCapped]
  by_cases hcap : config.promptTokenBudget ≠ 0 ∧ (config.promptTokenBudget : Int) < input
  · rw [if_pos hcap]
    dsimp only
    omega
  · rw [if_neg hcap]
    dsimp only
    omega

/-- A budget is resolved when what the stages leave is not too small. -/
theorem resolve_ok_iff (provider model : String) (limits : Option ModelLimits) (assumed : Bool)
    (requested : Option Int) :
    (∃ budget, resolveInDoubles config provider model limits assumed requested = .ok budget) ↔
      ∃ room ∈ lessMargin config.contextTokenSafetyMargin
          (totalTokens (appBudget config (providerOf provider) model).1 (modelWindow config limits)),
        1000 ≤ (legacyCapped config (tpmCapped config (providerOf provider)
          (outputReserve config limits assumed requested)
          (⌊room⌋ - outputReserve config limits assumed requested)).1).1 := by
  simp only [resolveInDoubles]
  cases lessMargin config.contextTokenSafetyMargin
      (totalTokens (appBudget config (providerOf provider) model).1 (modelWindow config limits)) with
  | none =>
    constructor
    · intro h
      obtain ⟨budget, hbudget⟩ := h
      cases hbudget
    · intro h
      obtain ⟨room, hroom, -⟩ := h
      cases hroom
  | some room =>
    simp only [Option.mem_some_iff, exists_eq_left', resolveWith]
    generalize appBudget config (providerOf provider) model = app
    generalize outputReserve config limits assumed requested = reserve
    generalize tpmCapped config (providerOf provider) reserve _ = tpm
    generalize legacyCapped config tpm.1 = legacy
    by_cases hsmall : legacy.1 < minInputTokens
    · rw [dif_pos hsmall]
      constructor
      · intro h
        obtain ⟨budget, hbudget⟩ := h
        cases hbudget
      · intro h
        exact absurd hsmall (Int.not_lt.mpr h)
    · rw [dif_neg hsmall]
      exact ⟨fun _ => Int.not_lt.mp hsmall, fun _ => ⟨_, rfl⟩⟩

/-- When a candidate has a budget. -/
theorem candidateBudget_ok_iff (counter : TokenCounter) {c : Candidate} (hnamed : Named config c) :
    (∃ budget, candidateBudget config counter c = .ok budget) ↔
      (Holds config (totalSetting config c.provider c.model) c.provider ∧
        (c.provider = "groq" →
          config.groqTpmLimit ≤ 0 ∨ requestReserve config "groq" + 1200 ≤ config.groqTpmLimit)) ∧
      (config.promptTokenBudget = 0 ∨ 1000 ≤ config.promptTokenBudget) := by
  obtain ⟨provider, model, maxTokens⟩ := c
  obtain ⟨hknown, hmax⟩ := hnamed
  dsimp only at hmax
  subst hmax
  have hself : ∀ p ∈ providers, providerOf p = p := by decide
  have hgroq : (provider = "groq" → config.groqTpmLimit ≤ 0 ∨
        requestReserve config provider + 1200 ≤ config.groqTpmLimit) ↔
      (provider = "groq" → config.groqTpmLimit ≤ 0 ∨
        requestReserve config "groq" + 1200 ≤ config.groqTpmLimit) :=
    forall_congr' fun hgroq => by rw [hgroq]
  rw [candidateBudget, resolve_ok_iff]
  dsimp only at hknown ⊢
  rw [hself provider hknown, outputReserve_eq, totalTokens_eq, ← hgroq, Holds]
  simp only [legacyCapped_ge_iff, tpmCapped_ge_iff]
  constructor
  · intro h
    obtain ⟨room, hroom, ⟨hmargin, htpm⟩, hlegacy⟩ := h
    exact ⟨⟨⟨room, hroom, by omega⟩, htpm⟩, hlegacy⟩
  · intro h
    obtain ⟨⟨⟨room, hroom, hmargin⟩, htpm⟩, hlegacy⟩ := h
    exact ⟨room, hroom, ⟨by omega, htpm⟩, hlegacy⟩

/-- Every candidate has a budget exactly when the settings are ample. -/
theorem sufficient_iff : Sufficient config ↔ Ample config := by
  constructor
  · intro h
    have hcandidate : ∀ provider ∈ providers, ∀ model, _ := fun provider hknown model =>
      (candidateBudget_ok_iff config {} ⟨hknown, rfl⟩).mp
        (h {} ⟨provider, model, ChainFit.maxTokensOf config provider⟩ ⟨hknown, rfl⟩)
    have hgroq := hcandidate "groq" (by decide) config.groqModel
    exact {
      legacy := hgroq.2
      tokensPerMinute := hgroq.1.2 rfl
      totals := fun provider hknown model => (hcandidate provider hknown model).1.1 }
  · intro h counter c hnamed
    rw [candidateBudget_ok_iff config counter hnamed]
    exact ⟨⟨h.totals c.provider hnamed.known c.model, fun _ => h.tokensPerMinute⟩, h.legacy⟩

/-- 14700 tokens hold, behind a margin of 0.07, one token less than the exact product. -/
example : (lessMargin (7 / 100) 14700).map Int.floor = some 13670 := by decide +kernel

/-- Answers of 7000 tokens on Groq: accepted, but the account's limit of 8000
tokens per minute leaves an input of 800. -/
def longAnswersConfig : LLMServiceConfig :=
  { LLMServiceConfig.declared with groqMaxTokens := 7000 }

theorem not_forall_sufficient : ¬ ∀ config, Sufficient config := by
  intro h
  have hsmall : (match candidateBudget longAnswersConfig {} ⟨"groq", "openai/gpt-oss-20b", 7000⟩ with
    | .ok _ => false
    | .error exc => exc.cls = .contextBudgetError) = true := by decide +kernel
  obtain ⟨budget, hbudget⟩ := h longAnswersConfig {}
    ⟨"groq", "openai/gpt-oss-20b", 7000⟩ ⟨by decide, by decide⟩
  rw [hbudget] at hsmall
  cases hsmall

end StartupChecks

end LlmService
