import LlmService.ContextWindow.BudgetPolicy
import LlmService.Providers.Groq

/-!
# The ceilings of a context budget

What `resolve_context_budget` leaves is within every ceiling at once, and
each of its two caps says whether it took anything. The output that the Groq
adapter then asks for is measured by another estimate of the same prompt.
-/

namespace LlmService

namespace BudgetPolicy

variable (config : LLMServiceConfig)

/-- The input budget after the tokens-per-minute cap. -/
def tpmStage (provider model : String) (limits : Option ModelLimits) (windowAssumed : Bool)
    (requestedOutputTokens : Option Int) : Int :=
  let provider := providerOf provider
  let reserve := outputReserve config limits windowAssumed requestedOutputTokens
  let total := totalTokens (appBudget config provider model).1 (modelWindow config limits)
  (tpmCapped config provider reserve (marginInput config total reserve)).1

/-- The input budget after the legacy cap, the last one. -/
def legacyStage (provider model : String) (limits : Option ModelLimits) (windowAssumed : Bool)
    (requestedOutputTokens : Option Int) : Int :=
  (legacyCapped config (tpmStage config provider model limits windowAssumed
    requestedOutputTokens)).1

/-- The configuration without the tokens-per-minute cap. -/
def withoutTpmCap : LLMServiceConfig := { config with groqTpmLimit := 0 }

/-- The configuration without the legacy cap. -/
def withoutLegacyCap : LLMServiceConfig := { config with promptTokenBudget := 0 }

/-! ## Each ceiling -/

/-- The provider's setting, or the default. -/
theorem providerBudget_ge (provider : String) :
    1000 ≤ (match provider, config.contextBudgetGroqTokens, config.contextBudgetGeminiTokens with
      | "groq", some tokens, _ | "gemini", _, some tokens => (tokens, AppBudgetSource.provider)
      | _, _, _ => (config.contextBudgetDefaultTokens, .default)).1 := by
  split
  · rename_i hgroq
    exact config.groq_ge _ hgroq
  · rename_i hgemini
    exact config.gemini_ge _ hgemini
  · exact config.default_ge

/-- A budget that is switched on is never too small to mean anything. -/
theorem appBudget_ge (provider model : String) (henabled : config.contextBudgetEnabled) :
    1000 ≤ (appBudget config provider model).1 := by
  have hoverride : ∀ {key : String} {tokens : Nat},
      config.contextBudgetModelOverrides.lookup key = some tokens → 1000 ≤ tokens := by
    intro key tokens h
    obtain ⟨before, after, hlist, -⟩ := List.lookup_eq_some_iff.mp h
    refine (config.overrides_positive (key, tokens) ?_).2
    rw [hlist]
    exact List.mem_append_right _ List.mem_cons_self
  unfold appBudget
  rw [henabled, if_neg (by decide)]
  cases hfirst : config.contextBudgetModelOverrides.lookup s!"{provider}:{model}" with
  | some tokens => exact hoverride hfirst
  | none =>
    cases hsecond : config.contextBudgetModelOverrides.lookup model with
    | some tokens => exact hoverride hsecond
    | none => exact providerBudget_ge config provider

/-- The total is within the application budget and within the window. -/
theorem totalTokens_le_app {app : Nat} (window : Nat) (happ : app ≠ 0) :
    totalTokens app window ≤ app := by
  rw [totalTokens, if_neg happ]
  exact Nat.min_le_left _ _

/-- With a tokens-per-minute limit, what is left for the input leaves room for
the reserve and the headroom. -/
theorem tpmCapped_room {provider : String} (reserve input : Int) (hgroq : provider = "groq")
    (hlimit : 0 < config.groqTpmLimit) :
    (tpmCapped config provider reserve input).1 + reserve + tpmHeadroomTokens ≤
      config.groqTpmLimit := by
  simp only [tpmCapped]
  by_cases hcap : config.groqTpmLimit - reserve - tpmHeadroomTokens < input
  · rw [if_pos ⟨hgroq, hlimit, hcap⟩]
    show config.groqTpmLimit - reserve - tpmHeadroomTokens + reserve + tpmHeadroomTokens ≤ _
    omega
  · rw [if_neg (fun h => hcap h.2.2)]
    show input + reserve + tpmHeadroomTokens ≤ _
    omega

/-- The cap applies exactly when there is less left with it than without it. -/
theorem tpmCapped_iff (provider : String) (reserve input : Int) :
    (tpmCapped config provider reserve input).2 = true ↔
      (tpmCapped config provider reserve input).1
        < (tpmCapped (withoutTpmCap config) provider reserve input).1 := by
  have hwithout : (tpmCapped (withoutTpmCap config) provider reserve input).1 = input :=
    congrArg Prod.fst (if_neg fun h => Int.lt_irrefl 0 h.2.1)
  rw [hwithout]
  simp only [tpmCapped]
  by_cases hcap : provider = "groq" ∧ 0 < config.groqTpmLimit ∧
      config.groqTpmLimit - reserve - tpmHeadroomTokens < input
  · rw [if_pos hcap]
    exact ⟨fun _ => hcap.2.2, fun _ => rfl⟩
  · rw [if_neg hcap]
    constructor
    · intro h
      cases h
    · intro h
      exact absurd h (Int.lt_irrefl input)

/-- The legacy cap is a ceiling when it is set. -/
theorem legacyCapped_le_cap (input : Int) (hset : config.promptTokenBudget ≠ 0) :
    (legacyCapped config input).1 ≤ config.promptTokenBudget := by
  simp only [legacyCapped]
  by_cases hcap : (config.promptTokenBudget : Int) < input
  · rw [if_pos ⟨hset, hcap⟩]
  · rw [if_neg (fun h => hcap h.2)]
    exact Int.not_lt.mp hcap

theorem legacyCapped_iff (input : Int) :
    (legacyCapped config input).2 = true ↔
      (legacyCapped config input).1 < (legacyCapped (withoutLegacyCap config) input).1 := by
  have hwithout : (legacyCapped (withoutLegacyCap config) input).1 = input :=
    congrArg Prod.fst (if_neg fun h => h.1 rfl)
  rw [hwithout]
  simp only [legacyCapped]
  by_cases hcap : config.promptTokenBudget ≠ 0 ∧ (config.promptTokenBudget : Int) < input
  · rw [if_pos hcap]
    exact ⟨fun _ => hcap.2, fun _ => rfl⟩
  · rw [if_neg hcap]
    constructor
    · intro h
      cases h
    · intro h
      exact absurd h (Int.lt_irrefl input)

/-! ## Without a cap -/

theorem appBudget_withoutTpmCap (provider model : String) :
    appBudget (withoutTpmCap config) provider model = appBudget config provider model := by
  unfold appBudget
  rfl

theorem appBudget_withoutLegacyCap (provider model : String) :
    appBudget (withoutLegacyCap config) provider model = appBudget config provider model := by
  unfold appBudget
  rfl

/-- Nothing before the tokens-per-minute cap depends on it. -/
theorem tpmStage_withoutTpmCap (provider model : String) (limits : Option ModelLimits)
    (assumed : Bool) (requested : Option Int) :
    tpmStage (withoutTpmCap config) provider model limits assumed requested =
      (tpmCapped (withoutTpmCap config) (providerOf provider)
        (outputReserve config limits assumed requested)
        (marginInput config (totalTokens (appBudget config (providerOf provider) model).1
          (modelWindow config limits)) (outputReserve config limits assumed requested))).1 := by
  simp only [tpmStage]
  rw [appBudget_withoutTpmCap]
  rfl

/-- Nothing before the legacy cap depends on it. -/
theorem tpmStage_withoutLegacyCap (provider model : String) (limits : Option ModelLimits)
    (assumed : Bool) (requested : Option Int) :
    tpmStage (withoutLegacyCap config) provider model limits assumed requested =
      tpmStage config provider model limits assumed requested := by
  simp only [tpmStage]
  rw [appBudget_withoutLegacyCap]
  rfl

/-! ## All ceilings -/

variable {config} {provider model : String} {limits : Option ModelLimits} {assumed : Bool}
  {requested : Option Int} {budget : ContextBudget}

/-- What a resolved budget says, by the stages it went through. -/
theorem resolve_fields
    (h : resolveContextBudget config provider model limits assumed requested = .ok budget) :
    budget.appBudget = (appBudget config (providerOf provider) model).1 ∧
    budget.modelWindow = modelWindow config limits ∧
    budget.outputReserve = outputReserve config limits assumed requested ∧
    (budget.inputBudget : Int) = legacyStage config provider model limits assumed requested ∧
    budget.tpmCapApplied = (tpmCapped config (providerOf provider)
      (outputReserve config limits assumed requested)
      (marginInput config
        (totalTokens (appBudget config (providerOf provider) model).1 (modelWindow config limits))
        (outputReserve config limits assumed requested))).2 ∧
    budget.legacyCapApplied =
      (legacyCapped config (tpmStage config provider model limits assumed requested)).2 := by
  simp only [resolveContextBudget, resolveWith] at h
  simp only [legacyStage, tpmStage]
  generalize appBudget config (providerOf provider) model = app at h ⊢
  generalize modelWindow config limits = window at h ⊢
  generalize outputReserve config limits assumed requested = reserve at h ⊢
  generalize tpmCapped config (providerOf provider) reserve _ = tpm at h ⊢
  generalize legacyCapped config tpm.1 = legacy at h ⊢
  split at h
  · cases h
  · rename_i hinput
    obtain rfl := Except.ok.inj h
    refine ⟨rfl, rfl, rfl, ?_, rfl, rfl⟩
    simp only [minInputTokens] at hinput
    show (legacy.1.toNat : Int) = legacy.1
    omega

theorem resolve_provider
    (h : resolveContextBudget config provider model limits assumed requested = .ok budget) :
    budget.provider = providerOf provider := by
  simp only [resolveContextBudget, resolveWith] at h
  split at h
  · cases h
  · obtain rfl := Except.ok.inj h
    rfl

/-- Every ceiling holds at once, and each cap is reported exactly when without
it more would have been left at its stage. -/
theorem resolve_ceilings
    (h : resolveContextBudget config provider model limits assumed requested = .ok budget) :
    1000 ≤ budget.inputBudget ∧
    (budget.inputBudget : Int) + budget.outputReserve ≤ budget.modelWindow ∧
    (config.contextBudgetEnabled →
      (budget.inputBudget : Int) + budget.outputReserve ≤ budget.appBudget) ∧
    (config.promptTokenBudget ≠ 0 → budget.inputBudget ≤ config.promptTokenBudget) ∧
    (budget.provider = "groq" → 0 < config.groqTpmLimit →
      (budget.inputBudget : Int) + budget.outputReserve + 200 ≤ config.groqTpmLimit) ∧
    (budget.tpmCapApplied = true ↔
      tpmStage config provider model limits assumed requested
        < tpmStage (withoutTpmCap config) provider model limits assumed requested) ∧
    (budget.legacyCapApplied = true ↔
      legacyStage config provider model limits assumed requested
        < legacyStage (withoutLegacyCap config) provider model limits assumed requested) := by
  obtain ⟨happ, hwindow, hreserve, hinput, htpm, hlegacy⟩ := resolve_fields h
  have hprovider := resolve_provider h
  have hstages : (budget.inputBudget : Int) ≤
      tpmStage config provider model limits assumed requested := by
    rw [hinput]
    exact legacyCapped_le config _
  refine ⟨budget.input_ge, resolve_room h, ?_, ?_, ?_, ?_, ?_⟩
  · intro henabled
    have hpos := appBudget_ge config (providerOf provider) model henabled
    rw [← happ] at hpos
    have htotal := totalTokens_le_app budget.modelWindow
      (Nat.pos_iff_ne_zero.mp (Nat.lt_of_lt_of_le (by decide) hpos))
    have hmargin := marginInput_le config
      (totalTokens budget.appBudget budget.modelWindow) budget.outputReserve
    have hcapped := tpmCapped_le config (providerOf provider) budget.outputReserve
      (marginInput config (totalTokens budget.appBudget budget.modelWindow) budget.outputReserve)
    rw [hreserve, happ, hwindow] at hcapped hmargin
    rw [happ, hwindow] at htotal
    rw [happ, hreserve]
    exact (Int.add_le_add_right (hstages.trans hcapped) _).trans
      (hmargin.trans (Int.ofNat_le.mpr htotal))
  · intro hset
    have hcap := legacyCapped_le_cap config
      (tpmStage config provider model limits assumed requested) hset
    rw [← legacyStage, ← hinput] at hcap
    exact Int.ofNat_le.mp hcap
  · intro hgroq hlimit
    rw [hprovider] at hgroq
    have hroom : tpmStage config provider model limits assumed requested
        + outputReserve config limits assumed requested + tpmHeadroomTokens
          ≤ config.groqTpmLimit := tpmCapped_room config _ _ hgroq hlimit
    rw [← hreserve] at hroom
    have hheadroom : (tpmHeadroomTokens : Int) = 200 := rfl
    omega
  · rw [htpm, tpmStage_withoutTpmCap]
    exact tpmCapped_iff config _ _ _
  · rw [hlegacy, legacyStage, legacyStage, tpmStage_withoutLegacyCap]
    exact legacyCapped_iff config _

end BudgetPolicy

open BudgetPolicy

/-! ## The output that Groq is asked for -/

/-- A prompt for Groq that fits the input budget resolved for it, on an account
with a tokens-per-minute limit. -/
structure FittedGroqPrompt (config : LLMServiceConfig) (counter : TokenCounter) where
  provider : String
  model : String
  limits : Option ModelLimits
  windowAssumed : Bool
  requested : Int
  budget : ContextBudget
  messages : List ChatMessage
  groq : providerOf provider = "groq"
  limit_pos : 0 < config.groqTpmLimit
  requested_ge : 1 ≤ requested
  requested_le : requested ≤ 8192
  resolved : resolveContextBudget config provider model limits windowAssumed (some requested)
    = .ok budget
  measured : counter.countMessages messages "groq" ≤ budget.inputBudget

namespace FittedGroqPrompt

variable {config : LLMServiceConfig} {counter : TokenCounter}
  (p : FittedGroqPrompt config counter)

/-- The output size that the adapter requests for the prompt. -/
def output : Int :=
  GroqAdapter.outputBudget p.requested (GroqAdapter.estimatePromptTokens counter p.messages)
    config.groqTpmLimit

/-- What the adapter's estimate makes of the measured prompt: five percent
more, or, without a tokenizer, a third of its characters. -/
def stretched : Nat :=
  if counter.tokenizer.isSome then
    counter.countMessages p.messages "groq" + counter.countMessages p.messages "groq" / 20
  else (p.messages.map fun msg => msg.content.length).sum / 3

theorem estimatePromptTokens_eq :
    GroqAdapter.estimatePromptTokens counter p.messages = p.stretched + 50 := by
  rw [GroqAdapter.estimatePromptTokens, stretched]
  by_cases htokenizer : counter.tokenizer.isSome
  · rw [if_pos htokenizer, if_pos htokenizer]
    generalize counter.countMessages p.messages "groq" = n
    omega
  · rw [if_neg htokenizer, if_neg htokenizer]

/-- The requested size is available exactly when the limit also has room for
what the estimate adds to the prompt, or when it is within the floor. -/
theorem requested_le_output_iff :
    p.requested ≤ p.output ↔
      p.requested ≤ 1024 ∨ (p.stretched : Int) + 250 + p.requested ≤ config.groqTpmLimit := by
  have hle := p.requested_le
  rw [output, estimatePromptTokens_eq]
  simp only [GroqAdapter.outputBudget, GroqAdapter.minOutputTokens,
    GroqAdapter.generationMaxTokens]
  rw [if_neg (Int.not_le.mpr p.limit_pos)]
  generalize p.stretched = n
  omega

end FittedGroqPrompt

/-! ### The default configuration -/

/-- What is resolved for Groq with the default settings, and 2048 output tokens. -/
theorem exists_groqBudget :
    ∃ budget, resolveContextBudget {} "groq" "openai/gpt-oss-20b" none false (some 2048)
      = .ok budget ∧ 5752 ≤ budget.inputBudget := by
  have hresolve : (match resolveContextBudget {} "groq" "openai/gpt-oss-20b" none false
      (some 2048) with
    | .ok budget => decide (5752 ≤ budget.inputBudget)
    | .error _ => false) = true := by decide +kernel
  cases hbudget : resolveContextBudget {} "groq" "openai/gpt-oss-20b" none false (some 2048) with
  | error exc =>
    rw [hbudget] at hresolve
    cases hresolve
  | ok budget =>
    rw [hbudget] at hresolve
    exact ⟨budget, rfl, of_decide_eq_true hresolve⟩

theorem ceilings_groqBudget :
    ∃ budget, resolveContextBudget {} "groq" "openai/gpt-oss-20b" none false (some 2048)
      = .ok budget ∧ 5752 ≤ budget.inputBudget ∧
        (budget.inputBudget : Int) + budget.outputReserve + 200 ≤ 8000 := by
  obtain ⟨budget, hbudget, hlarge⟩ := exists_groqBudget
  have hgroq : budget.provider = "groq" := (resolve_provider hbudget).trans (by decide)
  have hceilings := (resolve_ceilings hbudget).2.2.2.2.1
  exact ⟨budget, hbudget, hlarge, hceilings hgroq (by decide)⟩

/-- A message of 22984 characters, which costs 5746 tokens without a tokenizer. -/
def longMessage : ChatMessage := ⟨.user, List.replicate 22984 'q'⟩

theorem longMessage_length : longMessage.content.length = 22984 := List.length_replicate

theorem countMessages_longMessage : TokenCounter.countMessages {} [longMessage] "groq" = 5752 := by
  have htext : longMessage.content ≠ [] := by
    intro hnil
    have hlength := longMessage_length
    rw [hnil] at hlength
    cases hlength
  have hmultiplier : TokenCounter.multiplier "groq" = 1 := by decide
  rw [TokenCounter.countMessages_cons, TokenCounter.countMessages_nil,
    TokenCounter.countText_fallback {} rfl hmultiplier htext, longMessage_length]
  decide

/-- The message and 2048 output tokens fit the budget, but the estimate leaves
the answer 1024. -/
theorem exists_output_lt_requested :
    ∃ p : FittedGroqPrompt {} {}, p.output < p.requested := by
  obtain ⟨budget, hbudget, hlarge⟩ := exists_groqBudget
  let p : FittedGroqPrompt {} {} :=
    { provider := "groq", model := "openai/gpt-oss-20b", limits := none, windowAssumed := false
      requested := 2048, budget, messages := [longMessage]
      groq := by decide
      limit_pos := by decide
      requested_ge := by decide
      requested_le := by decide
      resolved := hbudget
      measured := countMessages_longMessage.trans_le hlarge }
  have hstretched : p.stretched = 7661 := by
    have hchars : ([longMessage].map fun msg => msg.content.length).sum = 22984 := by
      rw [List.map_singleton, List.sum_singleton, longMessage_length]
    show ([longMessage].map fun msg => msg.content.length).sum / 3 = 7661
    rw [hchars]
  refine ⟨p, ?_⟩
  rw [FittedGroqPrompt.output, FittedGroqPrompt.estimatePromptTokens_eq, hstretched]
  show GroqAdapter.outputBudget 2048 7711 8000 < 2048
  decide

end LlmService
