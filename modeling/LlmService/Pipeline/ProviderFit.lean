import Mathlib.Data.List.Induction
import LlmService.ContextWindow.Refit

/-!
# Fitting the prompt to a provider

`_provider_candidates` and `_fit_to_first_fitting_provider` of
`RequestPipeline`: the prompt is fitted to one provider of the chain after
the other, over the same request, until one takes it. What an attempt that
was refused does to the attempts after it is said with `Reached`, the states
in which the loop tries its candidates.
-/

namespace LlmService

namespace ProviderFit

open ContextFit

/-- `entry` of `_provider_candidates`. -/
def candidateOf (config : LLMServiceConfig) (name : String) : Candidate :=
  let (start, rest) := splitColon name
  let provider := String.ofList start
  { provider
    model :=
      match rest with
      | some model => String.ofList model
      | none => ChainFit.defaultModel config provider name
    maxTokens := ChainFit.maxTokensOf config provider }

/-- `_provider_candidates`, for the names of the chain's entries. -/
def providerCandidates (config : LLMServiceConfig) (entries : List String) : List Candidate :=
  if entries ≠ [] then entries.map (candidateOf config)
  else if config.enableNvidia then [candidateOf config s!"nvidia:{config.nvidiaModel}"]
  else [candidateOf config s!"groq:{config.groqModel}"]

/-- What `_fit_to_first_fitting_provider` returns. -/
structure FittedPrompt where
  candidate : Candidate
  trimmed : TrimmedPrompt
  report : FitReport
  deriving DecidableEq

variable (f : Fitting) (composed : ComposedPrompt)

/-- `fit_prompt` for a candidate. -/
def fitCandidate (c : Candidate) : EStateM Exc Histories (TrimmedPrompt × FitReport) :=
  fitPrompt f composed c.provider c.model (some c.maxTokens)

/-- The loop; `last` is the overflow of the candidate before. -/
def fitFrom : List Candidate → Exc → EStateM Exc Histories FittedPrompt
  | [], last => throw last
  | c :: rest, _ =>
    tryCatch
      (do
        let (trimmed, report) ← fitCandidate f composed c
        return { candidate := c, trimmed, report })
      fun exc => if exc.cls = .contextOverflowError then fitFrom rest exc else throw exc

/-- `_fit_to_first_fitting_provider`; without a candidate its assertion fails. -/
def fitToFirstFittingProvider (candidates : List Candidate) :
    EStateM Exc Histories FittedPrompt :=
  fitFrom f composed candidates { cls := .other "AssertionError" }

/-! ## The states of the loop -/

/-- The candidates in `tried` were refused one after the other, from `h₀` on,
and left the histories `h`. -/
inductive Reached (h₀ : Histories) : List Candidate → Histories → Prop where
  | start : Reached h₀ [] h₀
  | refused {tried : List Candidate} {c : Candidate} {h h' : Histories} {exc : Exc} :
      Reached h₀ tried h → (fitCandidate f composed c).run h = .error exc h' →
      exc.cls = .contextOverflowError → Reached h₀ (tried ++ [c]) h'

variable {f composed} {h₀ h h' : Histories}

/-- A result of the loop is the result of the first candidate that is not
refused, in the state that the candidates before it left. -/
theorem fitFrom_ok {tried candidates : List Candidate} {last : Exc} {fitted : FittedPrompt}
    (hreached : Reached f composed h₀ tried h)
    (hrun : (fitFrom f composed candidates last).run h = .ok fitted h') :
    ∃ before rest h₁, candidates = before ++ fitted.candidate :: rest ∧
      Reached f composed h₀ (tried ++ before) h₁ ∧
      (fitCandidate f composed fitted.candidate).run h₁
        = .ok (fitted.trimmed, fitted.report) h' := by
  induction candidates generalizing tried h last with
  | nil => cases hrun
  | cons c rest ih =>
    simp only [fitFrom, run_tryCatch, EStateM.run_bind] at hrun
    cases hc : (fitCandidate f composed c).run h with
    | ok result h₁ =>
      rw [hc] at hrun
      cases hrun
      exact ⟨[], rest, h, rfl, by rwa [List.append_nil], hc⟩
    | error exc h₁ =>
      simp only [hc] at hrun
      by_cases hcls : exc.cls = .contextOverflowError
      · rw [if_pos hcls] at hrun
        obtain ⟨before, rest', h₂, rfl, hreached', hok⟩ :=
          ih (.refused hreached hc hcls) hrun
        exact ⟨c :: before, rest', h₂, rfl, by simpa using hreached', hok⟩
      · rw [if_neg hcls] at hrun
        cases hrun

/-- No attempt quotes a note, however many came before it. -/
theorem Reached.condenses {tried : List Candidate} (hreached : Reached f composed h₀ tried h) :
    Compaction.Condenses h₀.historyOf h.historyOf := by
  induction hreached with
  | start => exact .kept 0
  | refused hbefore hrun hcls ih =>
    rename_i tried c h h' exc
    obtain ⟨budget, hbudget, -⟩ := (fitPrompt_overflow_iff _ _ _).mp ⟨exc, h', hrun, hcls⟩
    apply ih.trans
    rcases fitPrompt_of_budget f composed h hbudget with ⟨-, fitted, hok⟩ | ⟨-, exc', -, herror⟩
    · rw [fitCandidate, hok] at hrun
      cases hrun
    · rw [fitCandidate, herror] at hrun
      cases hrun
      exact historiesAfter_condenses f composed c.provider _ h

/-! ## Attempts without a trace -/

variable (f composed h₀) in
/-- `fit_prompt` for the candidate, tried on the histories as they came. -/
def RefusesAlone (c : Candidate) : Prop :=
  ∃ budget, budgetFor f c.provider c.model (some c.maxTokens) = .ok budget ∧
    ¬ Accepts f composed c.provider c.model (some c.maxTokens) budget.inputBudget h₀

variable (f composed h₀) in
/-- A refused candidate leaves no trace. -/
structure LeavesNoTrace (candidates : List Candidate) : Prop where
  /-- A refused attempt leaves both histories as it found them. -/
  histories : ∀ {tried c rest h exc h'}, candidates = tried ++ c :: rest →
    Reached f composed h₀ tried h → (fitCandidate f composed c).run h = .error exc h' →
    exc.cls = .contextOverflowError → h' = h
  /-- The prompt and the report are those of the candidate fitted alone. -/
  alone : ∀ {fitted h'}, (fitToFirstFittingProvider f composed candidates).run h₀
      = .ok fitted h' →
    (fitCandidate f composed fitted.candidate).run h₀ = .ok (fitted.trimmed, fitted.report) h'
  /-- A history that an attempt finds is condensed from the one that came. -/
  notes : ∀ {tried rest h}, candidates = tried ++ rest → Reached f composed h₀ tried h →
    Compaction.Condenses h₀.historyOf h.historyOf

variable (f composed h₀) in
/-- Among the candidates up to the first that takes the prompt, one whose
compaction rewrites the history takes it. -/
def RewritesOnlyToFit (candidates : List Candidate) : Prop :=
  ∀ tried c rest, candidates = tried ++ c :: rest →
    (∀ c' ∈ tried, RefusesAlone f composed h₀ c') →
    ∀ budget, budgetFor f c.provider c.model (some c.maxTokens) = .ok budget →
      Rewrites f composed c.provider budget.inputBudget h₀ →
      Accepts f composed c.provider c.model (some c.maxTokens) budget.inputBudget h₀

/-- What a refused attempt does. -/
theorem fitCandidate_refused {c : Candidate} {exc : Exc}
    (hrun : (fitCandidate f composed c).run h = .error exc h')
    (hcls : exc.cls = .contextOverflowError) :
    ∃ budget, budgetFor f c.provider c.model (some c.maxTokens) = .ok budget ∧
      ¬ Accepts f composed c.provider c.model (some c.maxTokens) budget.inputBudget h ∧
      h' = historiesAfter f composed c.provider budget.inputBudget h := by
  obtain ⟨budget, hbudget, hrefuses⟩ := (fitPrompt_overflow_iff _ _ _).mp ⟨exc, h', hrun, hcls⟩
  refine ⟨budget, hbudget, hrefuses, ?_⟩
  rcases fitPrompt_of_budget f composed h hbudget with ⟨haccepts, -⟩ | ⟨-, exc', -, herror⟩
  · exact absurd haccepts hrefuses
  · rw [fitCandidate, herror] at hrun
    cases hrun
    rfl

/-- Where compaction is never in vain, the loop never leaves the histories it
started with. -/
theorem Reached.unchanged {candidates tried rest : List Candidate}
    (hfit : RewritesOnlyToFit f composed h₀ candidates) (hsplit : candidates = tried ++ rest)
    (hreached : Reached f composed h₀ tried h) :
    h = h₀ ∧ ∀ c ∈ tried, RefusesAlone f composed h₀ c := by
  induction hreached generalizing rest with
  | start => exact ⟨rfl, by simp⟩
  | refused hbefore hrun hcls ih =>
    rename_i tried c h h' exc
    obtain ⟨rfl, hrefused⟩ := ih (show candidates = tried ++ c :: rest by simpa using hsplit)
    obtain ⟨budget, hbudget, hrefuses, rfl⟩ := fitCandidate_refused hrun hcls
    have hkept : ¬ Rewrites f composed c.provider budget.inputBudget h := fun hrewrites =>
      hrefuses (hfit tried c rest (by simpa using hsplit) hrefused budget hbudget hrewrites)
    refine ⟨(historiesAfter_eq_iff f composed c.provider budget.inputBudget h).mpr hkept, ?_⟩
    intro c' hc'
    rcases List.mem_append.mp hc' with hc' | hc'
    · exact hrefused c' hc'
    · obtain rfl := List.mem_singleton.mp hc'
      exact ⟨budget, hbudget, hrefuses⟩

/-- The candidates that refuse alone are tried on the histories that came, as
long as no attempt leaves a trace. -/
theorem LeavesNoTrace.reached {candidates : List Candidate}
    (htrace : LeavesNoTrace f composed h₀ candidates) (tried : List Candidate) :
    ∀ rest, candidates = tried ++ rest → (∀ c ∈ tried, RefusesAlone f composed h₀ c) →
      Reached f composed h₀ tried h₀ := by
  induction tried using List.reverseRecOn with
  | nil => exact fun _ _ _ => .start
  | append_singleton tried c ih =>
    intro rest hsplit hrefused
    have hreached := ih (c :: rest) (by simpa using hsplit) fun c' hc' => hrefused c' (by simp [hc'])
    obtain ⟨budget, hbudget, hrefuses⟩ := hrefused c (by simp)
    obtain ⟨exc, h', hrun, hcls⟩ :=
      (fitPrompt_overflow_iff f composed h₀).mpr ⟨budget, hbudget, hrefuses⟩
    obtain rfl := htrace.histories (show candidates = tried ++ c :: rest by simpa using hsplit) hreached
      hrun hcls
    exact .refused hreached hrun hcls

/-- The default configuration on a Groq tier of 3300 tokens per minute. -/
def smallTierConfig : LLMServiceConfig := { LLMServiceConfig.declared with groqTpmLimit := 3300 }

def shortTurns : Histories where
  conversationHistory :=
    [{ role := .user, content := "What is a context window?".toList },
      { role := .assistant, content := "The tokens a model can read at once.".toList },
      { role := .user, content := "And a token?".toList },
      { role := .assistant, content := "A few characters of text.".toList },
      { role := .user, content := "Here is my report.".toList },
      { role := .assistant, content := "Thank you.".toList },
      { role := .user, content := "Please review it.".toList }]

/-- A question of 1100 tokens; 1052 fit the tier. -/
def longQuestion : PromptBuilder where
  before :=
    [{  name := "system", content := "You are GraphGPT.".toList, priority := 10
        tokenCount := 4, trimmable := false }]
  after :=
    [{  name := "user_query", content := List.replicate 4400 'q', priority := 10
        tokenCount := 1100, trimmable := false }]

def smallTierFitting : Fitting where
  config := smallTierConfig
  manager := .ofConfig {} smallTierConfig
  build := fun histories => .ok (longQuestion.build histories)

end ProviderFit

end LlmService
