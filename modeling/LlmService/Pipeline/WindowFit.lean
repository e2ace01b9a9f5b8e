import LlmService.ContextWindow.FitVerdicts
import LlmService.Pipeline.ProviderFit
import LlmService.Providers.ChainTurn
import LlmService.Providers.Groq

/-!
# Prompt and output in one window

What the chain sends for a request that the pipeline has prepared: the prompt
was fitted to the first provider that takes it, `max_tokens` is that
provider's, and each entry of the chain fits the prompt to its own budget,
which sets its own output reserve aside.
-/

namespace LlmService

namespace WindowFit

open ContextFit ProviderFit

variable (config : LLMServiceConfig) (m : ContextWindowManager)

/-- The tokens a provider counts for a prompt. -/
def promptSize (c : Candidate) (messages : List ChatMessage) : Nat :=
  m.tokenCounter.countMessages messages c.provider

/-- The parameters of generation: `max_tokens` is the one of the provider that
the prompt was fitted to. -/
def paramsOf (c : Candidate) : Params := { maxTokens := some c.maxTokens }

/-- Prompt and output are within the window that the entry's budget came from. -/
def WithinWindow (entryName : String) (budget : BudgetPolicy.ContextBudget) (params : Params)
    (messages : List ChatMessage) : Prop :=
  (promptSize m (ChainFit.entryCandidate config entryName) messages : Int)
    + askedOutput config m.tokenCounter entryName params messages ≤ budget.modelWindow

/-- Every call that the chain makes for a prepared prompt is within the window
of its entry, whatever the breakers, the deadlines and the adapters do. -/
def CallsWithinWindow (entries : List String) (fitted : FittedPrompt) : Prop :=
  ∀ chain : ProviderChain, chain.entries.map (·.name) = entries →
    chain.fitter = some (buildChainFitter config m) →
    ∀ t : Turn, t.prompt = fitted.trimmed → t.params = paramsOf fitted.candidate →
    ∀ idx messages, (idx, messages) ∈ (chain.generateStream t).calls →
    ∀ entryName, entries[idx]? = some entryName →
    ∀ budget, ChainFit.entryBudget config m (ChainFit.entryCandidate config entryName)
        = .ok budget →
      WithinWindow config m entryName budget (paramsOf fitted.candidate) messages

/-! ## Which prompts an entry is called with -/

variable {config m}

/-- The fitter hands over the prompt as it is, if it is within the entry's
budget, or what trimming makes of it. -/
theorem chainFitter_ok_iff {entryName : String} {prompt q : TrimmedPrompt} :
    let c := ChainFit.entryCandidate config entryName
    buildChainFitter config m prompt entryName = .ok q ↔
      ∃ budget, ChainFit.entryBudget config m c = .ok budget ∧
        ((promptSize m c prompt.messages ≤ budget.inputBudget ∧ q = prompt) ∨
          (budget.inputBudget < promptSize m c prompt.messages ∧
            ChainFit.trimAgain m c budget.inputBudget prompt = .ok q)) := by
  intro c
  simp only [buildChainFitter, except_bind_eq_ok]
  apply exists_congr
  intro budget
  apply and_congr_right
  intro _
  by_cases hn : promptSize m c prompt.messages ≤ budget.inputBudget
  · have hover : ¬ budget.inputBudget < promptSize m c prompt.messages := by omega
    simp only [hn, hover, true_and, false_and, or_false]
    simp only [promptSize, c] at hn
    rw [if_pos hn]
    constructor
    · intro h
      exact (Except.ok.inj h).symm
    · intro heq
      subst heq
      rfl
  · have hover : budget.inputBudget < promptSize m c prompt.messages := by omega
    simp only [hn, hover, true_and, false_and, false_or]
    simp only [promptSize, c] at hn
    rw [if_neg hn]

/-- What the fitter hands over measures at most the entry's budget. -/
theorem chainFitter_size_le {entryName : String} {prompt q : TrimmedPrompt}
    {budget : BudgetPolicy.ContextBudget}
    (hbudget : ChainFit.entryBudget config m (ChainFit.entryCandidate config entryName)
      = .ok budget)
    (h : buildChainFitter config m prompt entryName = .ok q) :
    promptSize m (ChainFit.entryCandidate config entryName) q.messages ≤ budget.inputBudget := by
  obtain ⟨budget', hbudget', hq⟩ := chainFitter_ok_iff.mp h
  obtain rfl : budget' = budget := Except.ok.inj (hbudget'.symm.trans hbudget)
  rcases hq with ⟨hle, rfl⟩ | ⟨-, htrim⟩
  · exact hle
  · exact trimAgain_size_le htrim

/-- An entry at position `i` of a chain that skips what stands before `idx`. -/
def skippedBefore (idx i : Nat) (name : String) : ChainEntry where
  name
  breaker := if i < idx then some { name, config := {}, state := .opened } else none
  firstTokenTimeoutS := none

/-- A chain whose entries have open breakers up to the position `idx`. -/
def reachingChain (fitter : Fitter) (entries : List String) (idx : Nat)
    (hne : entries ≠ []) : ProviderChain where
  entries := entries.mapIdx (skippedBefore idx)
  fitter := some fitter
  entries_ne := by simpa using hne

theorem reachingChain_names (fitter : Fitter) (entries : List String) (idx : Nat)
    (hne : entries ≠ []) :
    (reachingChain fitter entries idx hne).entries.map (·.name) = entries := by
  apply List.ext_getElem?
  intro i
  cases h : entries[i]? with
  | none => simp [reachingChain, h]
  | some name => simp [reachingChain, h, skippedBefore]

/-- Some turn calls the entry at any position with what the fitter hands over. -/
theorem reachingChain_calls {fitter : Fitter} {entries : List String} {idx : Nat}
    (hne : entries ≠ []) {entryName : String} (hname : entries[idx]? = some entryName)
    {prompt q : TrimmedPrompt} (hq : fitter prompt entryName = .ok q) (params : Params) :
    let t : Turn := { prompt, params, now := 0, adapter := fun _ _ _ => { ending := .hang } }
    (idx, q.messages) ∈ ((reachingChain fitter entries idx hne).generateStream t).calls := by
  intro t
  apply mem_generateStreamFrom_calls.mpr
  have hentry : ∀ j name, entries[j]? = some name →
      (reachingChain fitter entries idx hne).entries[j]? = some (skippedBefore idx j name) := by
    intro j name hj
    simp [reachingChain, hj]
  refine ⟨idx, 0, _, (Nat.zero_add idx).symm, ?_, hentry idx entryName hname, ?_⟩
  · apply walk_of_breakersOpen
    intro j hj
    have hlt := (List.getElem?_eq_some_iff.mp hname).1
    refine ⟨_, hentry j entries[j] (List.getElem?_eq_getElem (by omega)), ?_⟩
    simp [ChainEntry.Admits, skippedBefore, hj, CircuitBreaker.isOpen, t]
  · apply (ChainEntry.attempt_sent_iff _ _ _).mpr
    refine ⟨?_, q, hq, rfl⟩
    simp [ChainEntry.Admits, skippedBefore]

/-- The calls of a chain are those that its fitter hands a prompt over for. -/
theorem callsWithinWindow_iff_handed (entries : List String) (fitted : FittedPrompt) :
    CallsWithinWindow config m entries fitted ↔
      ∀ entryName ∈ entries, ∀ budget,
        ChainFit.entryBudget config m (ChainFit.entryCandidate config entryName) = .ok budget →
        ∀ q, buildChainFitter config m fitted.trimmed entryName = .ok q →
          WithinWindow config m entryName budget (paramsOf fitted.candidate) q.messages := by
  constructor
  -- a chain whose earlier breakers are open calls any entry first
  · intro hcalls entryName hname budget hbudget q hq
    obtain ⟨idx, hidx⟩ := List.getElem?_of_mem hname
    have hne := List.ne_nil_of_mem hname
    exact hcalls (reachingChain (buildChainFitter config m) entries idx hne)
      (reachingChain_names _ _ _ hne) rfl _ rfl rfl idx q.messages
      (reachingChain_calls hne hidx hq (paramsOf fitted.candidate)) entryName hidx budget hbudget
  · intro hhanded chain hnames hfitter t hprompt hparams idx messages hcall entryName hidx
      budget hbudget
    obtain ⟨n, now, e, hn, -, he, hsent⟩ := mem_generateStreamFrom_calls.mp hcall
    obtain rfl : idx = n := by omega
    obtain ⟨-, hfits⟩ := (ChainEntry.attempt_sent_iff _ _ _).mp hsent
    have hname : e.name = entryName := by
      rw [← hnames, List.getElem?_map, he] at hidx
      simpa using hidx
    rw [hfitter] at hfits
    obtain ⟨q, hq, rfl⟩ := hfits
    rw [hprompt, hname] at hq
    exact hhanded entryName (List.mem_of_getElem? hidx) budget hbudget q hq

/-! ## Prompts that are sent as they are -/

variable (f : Fitting) (composed : ComposedPrompt) (h : Histories) (entries : List String)

/-- Every call for a request that the pipeline prepares is within the window. -/
def WindowRespected : Prop :=
  ∀ fitted h', (fitToFirstFittingProvider f composed
      (providerCandidates f.config entries)).run h = .ok fitted h' →
    CallsWithinWindow f.config f.manager entries fitted

/-- The first provider takes the prompt as it is: within its budget nothing is compacted or cut. -/
def TakenWhole : Prop :=
  ∀ c ∈ (providerCandidates f.config entries).head?,
    ∀ budget ∈ (budgetFor f c.provider c.model (some c.maxTokens)).toOption,
      compactionDue f composed c.provider budget.inputBudget = false ∧
        Untouched f.manager composed c.model (some c.maxTokens) budget.inputBudget ∧
        wholeSize f.manager composed c.provider ≤ budget.inputBudget

instance : Decidable (TakenWhole f composed entries) :=
  inferInstanceAs (Decidable (∀ c ∈ (providerCandidates f.config entries).head?, ∀ budget ∈ _, _))

/-- The prompt with all its sections is within the entry's budget, and with what the entry asks for
within the window. -/
def WholeWithin (entryName : String) (budget : BudgetPolicy.ContextBudget) (params : Params) : Prop :=
  wholeSize f.manager composed (ChainFit.entryCandidate f.config entryName).provider
      ≤ budget.inputBudget ∧
    (wholeSize f.manager composed (ChainFit.entryCandidate f.config entryName).provider : Int)
      + askedOutput f.config f.manager.tokenCounter entryName params
          (Compose.composeMessages composed.sections f.manager.historyAsMessages)
      ≤ budget.modelWindow

instance (entryName : String) (budget : BudgetPolicy.ContextBudget) (params : Params) :
    Decidable (WholeWithin f composed entryName budget params) :=
  inferInstanceAs (Decidable (_ ∧ _))

variable {f composed h entries} {c : Candidate} {h' : Histories}

/-- A prompt within the budget, by its counts and by its size, is returned as it is. -/
theorem fitCandidate_of_whole {budget : BudgetPolicy.ContextBudget}
    (hbudget : budgetFor f c.provider c.model (some c.maxTokens) = .ok budget)
    (hdue : compactionDue f composed c.provider budget.inputBudget = false)
    (huntouched : Untouched f.manager composed c.model (some c.maxTokens) budget.inputBudget)
    (hwhole : wholeSize f.manager composed c.provider ≤ budget.inputBudget) (h : Histories) :
    ∃ result, (fitCandidate f composed c).run h = .ok result h ∧ result.1.messages =
      Compose.composeMessages composed.sections f.manager.historyAsMessages := by
  have hcompact : (compactIfDue f composed c.provider budget.inputBudget).run h =
      .ok { composed, outcome := .skipped } h := by
    rw [compactIfDue, if_neg (by rw [hdue]; exact Bool.false_ne_true)]
    rfl
  obtain ⟨trimmed, htrim, hmessages⟩ :=
    trimToBudget_of_untouched (inputBudget_pos budget) huntouched hwhole
  have hrun : ∃ report, (fitCandidate f composed c).run h = .ok (trimmed, report) h := by
    simp only [fitCandidate, fitPrompt, EStateM.run_bind, hbudget, run_ofExcept, hcompact, htrim]
    exact ⟨_, rfl⟩
  obtain ⟨report, hrun⟩ := hrun
  exact ⟨_, hrun, hmessages⟩

/-- Only an overflow is followed by another provider: without a budget for the first, nothing is fitted. -/
theorem run_of_misconfigured {exc : Exc} (hc : (providerCandidates f.config entries).head? = some c)
    (hbudget : budgetFor f c.provider c.model (some c.maxTokens) = .error exc) (h : Histories) :
    (fitToFirstFittingProvider f composed (providerCandidates f.config entries)).run h
      = .error exc h := by
  obtain ⟨rest, hcandidates⟩ := List.head?_eq_some_iff.mp hc
  have hcls : exc.cls ≠ .contextOverflowError := by
    rw [budgetFor_error_cls hbudget]
    exact fun hcls => by cases hcls
  have hfails : (fitCandidate f composed c).run h = .error exc h :=
    fitPrompt_of_misconfigured f composed h hbudget
  rw [fitToFirstFittingProvider, hcandidates, fitFrom, run_tryCatch, EStateM.run_bind, hfails]
  simp only [if_neg hcls]
  exact run_throw exc h

/-- What the first provider takes whole reaches the chain with that provider's output. -/
theorem run_of_takenWhole {budget : BudgetPolicy.ContextBudget} (htaken : TakenWhole f composed entries)
    (hc : (providerCandidates f.config entries).head? = some c)
    (hbudget : budgetFor f c.provider c.model (some c.maxTokens) = .ok budget) (h : Histories) :
    ∃ fitted, (fitToFirstFittingProvider f composed
        (providerCandidates f.config entries)).run h = .ok fitted h ∧ fitted.candidate = c ∧
      fitted.trimmed.messages =
        Compose.composeMessages composed.sections f.manager.historyAsMessages := by
  obtain ⟨rest, hcandidates⟩ := List.head?_eq_some_iff.mp hc
  obtain ⟨hdue, huntouched, hwhole⟩ := htaken c hc budget (by rw [hbudget]; rfl)
  obtain ⟨result, hok, hmessages⟩ := fitCandidate_of_whole hbudget hdue huntouched hwhole h
  refine ⟨{ candidate := c, trimmed := result.1, report := result.2 }, ?_, rfl, hmessages⟩
  rw [fitToFirstFittingProvider, hcandidates, fitFrom, run_tryCatch, EStateM.run_bind, hok]
  rfl

theorem fitted_of_takenWhole {fitted : FittedPrompt} (htaken : TakenWhole f composed entries)
    (hrun : (fitToFirstFittingProvider f composed
      (providerCandidates f.config entries)).run h = .ok fitted h') :
    (providerCandidates f.config entries).head? = some fitted.candidate ∧
      fitted.trimmed.messages =
        Compose.composeMessages composed.sections f.manager.historyAsMessages := by
  cases hc : (providerCandidates f.config entries).head? with
  | none =>
    rw [List.head?_eq_none_iff.mp hc] at hrun
    cases hrun
  | some c =>
    cases hbudget : budgetFor f c.provider c.model (some c.maxTokens) with
    | error exc =>
      rw [run_of_misconfigured hc hbudget h] at hrun
      cases hrun
    | ok budget =>
      obtain ⟨fitted', hfitted, rfl, hmessages⟩ := run_of_takenWhole htaken hc hbudget h
      rw [hfitted] at hrun
      cases hrun
      exact ⟨rfl, hmessages⟩

/-- An entry whose budget has room for the whole prompt is called with it. -/
theorem chainFitter_of_whole {prompt q : TrimmedPrompt} {entryName : String}
    {budget : BudgetPolicy.ContextBudget}
    (hbudget : ChainFit.entryBudget f.config f.manager (ChainFit.entryCandidate f.config entryName)
      = .ok budget)
    (hmessages : prompt.messages =
      Compose.composeMessages composed.sections f.manager.historyAsMessages)
    (hsize : wholeSize f.manager composed (ChainFit.entryCandidate f.config entryName).provider
      ≤ budget.inputBudget) :
    buildChainFitter f.config f.manager prompt entryName = .ok q ↔ q = prompt := by
  have hle : promptSize f.manager (ChainFit.entryCandidate f.config entryName) prompt.messages
      ≤ budget.inputBudget := by
    rw [promptSize, hmessages]
    exact hsize
  refine chainFitter_ok_iff.trans ⟨?_, ?_⟩
  · intro hhanded
    obtain ⟨budget', hbudget', ⟨-, hsame⟩ | ⟨hover, -⟩⟩ := hhanded
    · exact hsame
    · obtain rfl : budget' = budget := Except.ok.inj (hbudget'.symm.trans hbudget)
      exact absurd hover (Nat.not_lt.mpr hle)
  · intro hsame
    exact ⟨budget, hbudget, .inl ⟨hle, hsame⟩⟩

/-! ## Output that no budget has set aside -/

/-- For a prompt that the first provider takes whole, and that each entry has room for, that is exact. -/
theorem windowRespected_iff_of_takenWhole (htaken : TakenWhole f composed entries)
    (hc : (providerCandidates f.config entries).head? = some c)
    {first : BudgetPolicy.ContextBudget}
    (hfirst : budgetFor f c.provider c.model (some c.maxTokens) = .ok first)
    (hsize : ∀ entryName ∈ entries, ∀ budget,
      ChainFit.entryBudget f.config f.manager (ChainFit.entryCandidate f.config entryName) = .ok budget →
        wholeSize f.manager composed (ChainFit.entryCandidate f.config entryName).provider
          ≤ budget.inputBudget) :
    WindowRespected f composed h entries ↔
      ∀ entryName ∈ entries, ∀ budget,
        ChainFit.entryBudget f.config f.manager (ChainFit.entryCandidate f.config entryName) = .ok budget →
          WholeWithin f composed entryName budget (paramsOf c) := by
  obtain ⟨fitted, hfitted, rfl, hmessages⟩ := run_of_takenWhole htaken hc hfirst h
  constructor
  · intro hrespected entryName hname budget hbudget
    have hle := hsize entryName hname budget hbudget
    have hwithin := (callsWithinWindow_iff_handed entries fitted).mp (hrespected fitted h hfitted)
      entryName hname budget hbudget _ ((chainFitter_of_whole hbudget hmessages hle).mpr rfl)
    rw [WithinWindow, promptSize, hmessages] at hwithin
    exact ⟨hle, hwithin⟩
  · intro hwithin fitted' h' hrun
    obtain ⟨rfl, -⟩ : fitted = fitted' ∧ h = h' := by
      rw [hfitted] at hrun
      cases hrun
      exact ⟨rfl, rfl⟩
    apply (callsWithinWindow_iff_handed entries fitted).mpr
    intro entryName hname budget hbudget q hq
    obtain ⟨hle, hsum⟩ := hwithin entryName hname budget hbudget
    obtain rfl := (chainFitter_of_whole hbudget hmessages hle).mp hq
    rw [WithinWindow, promptSize, hmessages]
    exact hsum

/-! ## A greeting on a paid tier -/

/-- A Groq tier without a limit. -/
def paidConfig : LLMServiceConfig := { LLMServiceConfig.declared with groqTpmLimit := 0 }

def greeting : ComposedPrompt :=
  promptOf (.ofConfig {} paidConfig)
    [{  name := "user_query", content := "Hello".toList, priority := 10, tokenCount := 1
        trimmable := false }]

def paidFitting : Fitting where
  config := paidConfig
  manager := .ofConfig {} paidConfig
  build := fun _ => .ok greeting

def paidEntries : List String :=
  ["groq:openai/gpt-oss-20b", "groq:llama-3.3-70b-versatile", "nvidia", "gemini"]

/-- A model declared with a window of 4096 tokens. -/
def narrowConfig : LLMServiceConfig :=
  { paidConfig with
    contextModelWindows := [("openai/gpt-oss-20b", 4096)]
    windows_positive := by decide }

def narrowFitting : Fitting where
  config := narrowConfig
  manager := .ofConfig {} narrowConfig
  build := fun _ => .ok greeting

def narrowEntry : String := "groq:openai/gpt-oss-20b"

end WindowFit

end LlmService
