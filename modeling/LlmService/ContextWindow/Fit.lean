import LlmService.ContextWindow.BudgetPolicy
import LlmService.ContextWindow.Compaction
import LlmService.Lib.Within
import LlmService.Providers.Chain

/-!
# Fitting one request's prompt

`context_window/fit.py`. `fitPrompt` works on the histories of the request,
which it may rewrite before it returns or raises; trimming and refitting are
pure. `buildChainFitter` fits the trimmed prompt again, for the entry of the
chain that is about to be tried.
-/

namespace LlmService

/-- `_history_of`. -/
def Histories.historyOf (h : Histories) : List Message :=
  if h.conversationHistory ≠ [] then h.conversationHistory else h.shortTermMessages.getD []

/-- `_set_history`: the fields that are not empty are overwritten. -/
def Histories.setHistory (h : Histories) (messages : List Message) : Histories :=
  { h with
    conversationHistory := if h.conversationHistory ≠ [] then messages else []
    shortTermMessages :=
      h.shortTermMessages.map fun recent => if recent ≠ [] then messages else recent }

theorem Histories.historyOf_setHistory {h : Histories} (hhistory : h.historyOf ≠ [])
    (messages : List Message) : (h.setHistory messages).historyOf = messages := by
  obtain ⟨conversation, recent, summary⟩ := h
  cases conversation with
  | cons head rest =>
    cases messages with
    | cons m ms => rfl
    | nil =>
      cases recent with
      | none => rfl
      | some recent =>
        cases recent with
        | nil => rfl
        | cons m ms => rfl
  | nil =>
    cases recent with
    | none => exact absurd rfl hhistory
    | some recent =>
      cases recent with
      | nil => exact absurd rfl hhistory
      | cons m ms => rfl

namespace ContextFit

/-- `compaction` of a report. -/
inductive CompactionOutcome where
  | skipped | compacted | noEffect | failed
  deriving DecidableEq, Repr

/-- `FitReport`, without the time that compaction took. -/
structure FitReport where
  budget : BudgetPolicy.ContextBudget
  tokensBefore : Nat
  tokensAfter : Nat
  compaction : CompactionOutcome
  messagesCondensed : Nat
  messagesOmitted : Nat
  trimmedSections : List String
  deriving DecidableEq

def refitPasses : Nat := 5

section Trim

variable (m : ContextWindowManager) (composed : ComposedPrompt) (provider model : String)
  (maxOutputTokens : Option Int) (inputBudget : Nat)

/-- `manage` at a target, and the measured size of what it returns. -/
def manageAt (target : Nat) : Except Exc (TrimmedPrompt × Nat) := do
  let trimmed ← m.manage composed model (some target) maxOutputTokens
  return (trimmed, m.tokenCounter.countMessages trimmed.messages provider)

/-- The target of the next pass: less the measured overshoot. -/
def lowered (target final : Nat) : Nat := max 1 (target - (final - inputBudget))

/-- The loop over `_REFIT_PASSES`. -/
def refit : Nat → Nat → TrimmedPrompt × Nat → Except Exc (TrimmedPrompt × Nat)
  | 0, _, fitted => .ok fitted
  | passes + 1, target, (trimmed, final) =>
    if final ≤ inputBudget then .ok (trimmed, final)
    else do
      -- trimming starts again from the whole prompt, at a lower target
      let target := lowered inputBudget target final
      refit passes target (← manageAt m composed provider model maxOutputTokens target)

/-- The second half of `fit_prompt`: trim to the budget, then trim again. -/
def trimToBudget : Except Exc (TrimmedPrompt × Nat) := do
  let first ← manageAt m composed provider model maxOutputTokens inputBudget
  let (trimmed, final) ←
    refit m composed provider model maxOutputTokens inputBudget refitPasses inputBudget first
  if inputBudget < final then
    throw (contextOverflow
      (s!"The request needs {final} tokens but at most {inputBudget} fit the context budget "
        ++ "for this model. Shorten the message or start a new conversation."))
  return (trimmed, final)

end Trim

/-- What `fit_prompt` is given by the service and the request. -/
structure Fitting where
  config : LLMServiceConfig
  manager : ContextWindowManager
  /-- `prompt_builder.build(result, ctx)` -/
  build : Histories → Except Exc ComposedPrompt

/-- The local variables of `fit_prompt` after compaction. -/
structure Compacted where
  composed : ComposedPrompt
  outcome : CompactionOutcome
  condensed : Nat := 0
  omitted : Nat := 0

variable (f : Fitting) (composed : ComposedPrompt) (provider : String)

/-- `estimate` before compaction. -/
def estimate : Nat := f.manager.tokenCounter.countMessages composed.messages provider

/-- Compaction is on, and the estimate has reached the trigger or exceeds the budget. -/
def compactionDue (inputBudget : Nat) : Bool :=
  let estimate := estimate f composed provider
  let triggerAt := ⌊(inputBudget : ℚ) * f.config.contextCompactionTriggerRatio⌋₊
  f.config.contextCompactionEnabled && (triggerAt ≤ estimate || inputBudget < estimate)

/-- The tokens that the history may keep. -/
def historyAllowance (inputBudget : Nat) (history : List Message) : Nat :=
  let historyTokens := Compaction.historyTokens f.manager.tokenCounter provider history
  let target := ⌊(inputBudget : ℚ) * f.config.contextCompactionTargetRatio⌋₊
  ((target : Int) - (estimate f composed provider - historyTokens)).toNat

/-- `compact_history`, as `fit_prompt` calls it. -/
def compaction (inputBudget : Nat) (h : Histories) : Compaction.CompactionResult :=
  Compaction.compactHistory f.manager.tokenCounter provider h.historyOf
    (historyAllowance f composed provider inputBudget h.historyOf)
    f.config.contextCompactionMinRecentMessages (PyText.strip h.summary ≠ [])

/-- The body of the `try` around compaction. -/
def compactPrompt (inputBudget : Nat) : EStateM Exc Histories Compacted := do
  let histories ← get
  if histories.historyOf = [] then return { composed, outcome := .noEffect }
  let cr := compaction f composed provider inputBudget histories
  if cr.changed then
    -- the histories of the request, before it is known whether the prompt fits
    set (histories.setHistory cr.messages)
    let rebuilt ← ofExcept (f.build (histories.setHistory cr.messages))
    return {
      composed := rebuilt
      outcome := .compacted
      condensed := cr.condensed
      omitted := cr.omitted }
  return { composed, outcome := .noEffect }

/-- Compaction must never break the request: a failure is swallowed. -/
def compactIfDue (inputBudget : Nat) : EStateM Exc Histories Compacted :=
  if compactionDue f composed provider inputBudget then
    tryCatch (compactPrompt f composed provider inputBudget) fun _ =>
      return { composed, outcome := .failed }
  else return { composed, outcome := .skipped }

/-- The budget of a request on a provider and model. -/
def budgetFor (model : String) (maxOutputTokens : Option Int) :
    Except Exc BudgetPolicy.ContextBudget :=
  let limits := f.manager.resolveLimits model
  BudgetPolicy.resolveContextBudget f.config provider model limits limits.isNone maxOutputTokens

theorem budgetFor_error_cls {f : Fitting} {provider model : String}
    {maxOutputTokens : Option Int} {exc : Exc}
    (h : budgetFor f provider model maxOutputTokens = .error exc) :
    exc.cls = .contextBudgetError := by
  unfold budgetFor at h
  exact BudgetPolicy.resolve_error_cls h

def fitPrompt (model : String) (maxOutputTokens : Option Int) :
    EStateM Exc Histories (TrimmedPrompt × FitReport) := do
  let budget ← ofExcept (budgetFor f provider model maxOutputTokens)
  let compacted ← compactIfDue f composed provider budget.inputBudget
  let (trimmed, final) ← ofExcept
    (trimToBudget f.manager compacted.composed provider model maxOutputTokens budget.inputBudget)
  return (trimmed,
    { budget
      tokensBefore := estimate f composed provider
      tokensAfter := final
      compaction := compacted.outcome
      messagesCondensed := compacted.condensed
      messagesOmitted := compacted.omitted
      trimmedSections := trimmed.trimmedSections })

end ContextFit

/-- What an entry's name, and the settings of its provider, ask for: the
provider, the model and the output tokens. -/
structure Candidate where
  provider : String
  model : String
  maxTokens : Int
  deriving DecidableEq

namespace ChainFit

/-- `{"gemini": …, "nvidia": …}.get(provider, name)`. -/
def defaultModel (config : LLMServiceConfig) (provider name : String) : String :=
  if provider = "gemini" then config.geminiModel
  else if provider = "nvidia" then config.nvidiaModel
  else name

/-- `{"nvidia": …, "gemini": …}.get(provider, config.groq_max_tokens)`. -/
def maxTokensOf (config : LLMServiceConfig) (provider : String) : Int :=
  if provider = "nvidia" then config.nvidiaMaxTokens
  else if provider = "gemini" then config.geminiMaxTokens
  else config.groqMaxTokens

/-- The first lines of `fit`. -/
def entryCandidate (config : LLMServiceConfig) (entryName : String) : Candidate :=
  let provider := providerOf entryName
  { provider
    model := modelOf entryName (defaultModel config provider entryName)
    maxTokens := maxTokensOf config provider }

/-- The budget of an entry of the chain. -/
def entryBudget (config : LLMServiceConfig) (m : ContextWindowManager) (c : Candidate) :
    Except Exc BudgetPolicy.ContextBudget :=
  let limits := m.resolveLimits c.model
  BudgetPolicy.resolveContextBudget config c.provider c.model limits limits.isNone
    (some c.maxTokens)

/-- The target of the retry: the budget less the gap between the measured size
and the section counts. -/
def gapTarget (inputBudget : Nat) (trimmed : TrimmedPrompt) (final : Nat) : Nat :=
  (max 1 ((inputBudget : Int) - ((final : Int) - trimmed.totalTokens))).toNat

/-- The sections of a trimmed prompt, to be trimmed again. -/
def composedAgain (prompt : TrimmedPrompt) : ComposedPrompt :=
  { sections := prompt.sections
    totalTokens := prompt.totalTokens
    mode := prompt.mode
    engineType := "mode_handler" }

section TrimAgain

variable (m : ContextWindowManager) (c : Candidate) (inputBudget : Nat)

/-- The single retry of `fit`. -/
def retryGap (composed : ComposedPrompt) (first : TrimmedPrompt × Nat) :
    Except Exc (TrimmedPrompt × Nat) :=
  if inputBudget < first.2 then
    ContextFit.manageAt m composed c.provider c.model (some c.maxTokens)
      (gapTarget inputBudget first.1 first.2)
  else .ok first

/-- The last check of `fit`. -/
def checkSize (last : TrimmedPrompt × Nat) : Except Exc TrimmedPrompt :=
  if inputBudget < last.2 then
    .error (contextOverflow
      s!"does not fit {c.provider}'s context budget ({last.2} > {inputBudget} tokens)")
  else .ok last.1

/-- The part of `fit` for a prompt that is over the entry's budget. -/
def trimAgain (prompt : TrimmedPrompt) : Except Exc TrimmedPrompt := do
  let composed := composedAgain prompt
  let first ← ContextFit.manageAt m composed c.provider c.model (some c.maxTokens) inputBudget
  let last ← retryGap m c inputBudget composed first
  checkSize c inputBudget last

end TrimAgain

end ChainFit

/-- `build_chain_fitter(config, manager)`. -/
def buildChainFitter (config : LLMServiceConfig) (m : ContextWindowManager) : Fitter :=
  fun prompt entryName => do
    let c := ChainFit.entryCandidate config entryName
    let budget ← ChainFit.entryBudget config m c
    let current := m.tokenCounter.countMessages prompt.messages c.provider
    if current ≤ budget.inputBudget then return prompt
    ChainFit.trimAgain m c budget.inputBudget prompt

end LlmService
