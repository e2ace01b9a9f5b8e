import LlmService.ContextWindow.Refit

/-!
# Which prompts are refused

With compaction off, `fit_prompt` is trimming and refitting alone. It refuses
some prompts that their floors would fit, and the fitter of the chain comes to
another verdict on them. Conditions on the section counts, the measured size and
the trimmer keep it from that.
-/

namespace LlmService.ContextFit

open ContextWindowManager

/-! ## Refusing what could fit -/

section Refusal

variable (m : ContextWindowManager) (composed : ComposedPrompt) (provider model : String)
  (maxOutputTokens : Option Int)

/-- A section cut to its floor, if it may be cut and is above it. -/
def floorSection (s : PromptSection) : PromptSection :=
  let floor := PriorityTrimmer.sectionMinimum s.name
  if s.canBeCut ∧ floor < s.tokenCount then
    PriorityTrimmer.cutTo m.tokenCounter (m.reservedLimits model maxOutputTokens).provider floor s
  else s

/-- The measured size of the prompt with every section at its floor. -/
def floorSize : Nat :=
  let sections := (composed.sections.map (floorSection m model maxOutputTokens)).filter
    PromptSection.hasText
  m.tokenCounter.countMessages (Compose.composeMessages sections m.historyAsMessages) provider

/-- The section counts are the counter's. -/
def CountsAgree : Prop :=
  ∀ s ∈ composed.sections, s.tokenCount = m.tokenCounter.countText s.content provider

instance : Decidable (CountsAgree m composed provider) :=
  inferInstanceAs (Decidable (∀ s ∈ composed.sections, _))

end Refusal

variable (f : Fitting) (composed : ComposedPrompt) (provider model : String)
  (maxOutputTokens : Option Int) (h : Histories)

/-- `fit_prompt` refuses a prompt only if its floor prompt exceeds the budget. -/
def RefusesOnlyUnfittable : Prop :=
  ∀ budget, budgetFor f provider model maxOutputTokens = .ok budget →
    ∀ exc h', (fitPrompt f composed provider model maxOutputTokens).run h = .error exc h' →
      exc.cls = .contextOverflowError →
        budget.inputBudget < floorSize f.manager composed provider model maxOutputTokens

variable {f composed provider model maxOutputTokens h}

theorem not_rewrites_of_disabled (hoff : f.config.contextCompactionEnabled = false)
    (inputBudget : Nat) : ¬ Rewrites f composed provider inputBudget h := by
  intro hrewrites
  have hdue := hrewrites.1
  simp [compactionDue, hoff] at hdue

/-- Without compaction, `fit_prompt` accepts what the passes bring within the budget. -/
theorem accepts_iff_of_disabled (hoff : f.config.contextCompactionEnabled = false)
    (inputBudget : Nat) :
    Accepts f composed provider model maxOutputTokens inputBudget h ↔
      FitsWithin f.manager composed provider model maxOutputTokens inputBudget refitPasses
        inputBudget := by
  rw [Accepts, promptAfter, if_neg (not_rewrites_of_disabled hoff inputBudget)]

theorem inputBudget_pos (budget : BudgetPolicy.ContextBudget) : 0 < budget.inputBudget := by
  have hge := budget.input_ge
  simp only [BudgetPolicy.minInputTokens] at hge
  omega

/-- `fit_prompt` refuses only what cannot fit if, for the budget of the request: the floor prompt
exceeds it; or the prompt is within it by its section counts and by its measured size; or trimming
starts after some passes, and settles in those that are left. -/
theorem refusesOnlyUnfittable_of_settles (hoff : f.config.contextCompactionEnabled = false)
    (hsettles : ∀ budget, budgetFor f provider model maxOutputTokens = .ok budget →
      budget.inputBudget < floorSize f.manager composed provider model maxOutputTokens ∨
      (Untouched f.manager composed model maxOutputTokens budget.inputBudget ∧
        wholeSize f.manager composed provider ≤ budget.inputBudget) ∨
      ∃ j gap low, SettlesFrom f.manager composed provider model maxOutputTokens
        budget.inputBudget j gap low) :
    RefusesOnlyUnfittable f composed provider model maxOutputTokens h := by
  intro budget hbudget exc h' hrun hcls
  obtain ⟨budget', hbudget', hrefuses⟩ := (fitPrompt_overflow_iff f composed h).mp ⟨exc, h', hrun, hcls⟩
  obtain rfl : budget' = budget := Except.ok.inj (hbudget'.symm.trans hbudget)
  rw [accepts_iff_of_disabled hoff] at hrefuses
  rcases hsettles budget' hbudget with hfloor | hwhole | ⟨j, gap, low, hfrom⟩
  · exact hfloor
  · exact absurd ((fitsWithin_iff (inputBudget_pos budget')).mpr (.inl hwhole)) hrefuses
  · exact absurd (hfrom.fitsWithin (inputBudget_pos budget')) hrefuses

/-- It does refuse what could fit where the prompt measures more than the budget and is within every
target that the passes reach. -/
theorem not_refusesOnlyUnfittable_of_slack (hoff : f.config.contextCompactionEnabled = false)
    {budget : BudgetPolicy.ContextBudget}
    (hbudget : budgetFor f provider model maxOutputTokens = .ok budget)
    (hfloor : floorSize f.manager composed provider model maxOutputTokens ≤ budget.inputBudget)
    (hover : budget.inputBudget < wholeSize f.manager composed provider)
    (hslack : Untouched f.manager composed model maxOutputTokens
      (loweredBy f.manager composed provider budget.inputBudget budget.inputBudget refitPasses)) :
    ¬ RefusesOnlyUnfittable f composed provider model maxOutputTokens h := by
  intro hproperty
  have hrefuses := not_fitsWithin_of_slack (inputBudget_pos budget) hover hslack
  rw [← accepts_iff_of_disabled (h := h) hoff] at hrefuses
  obtain ⟨exc, h', hrun, hcls⟩ := (fitPrompt_overflow_iff f composed h).mpr ⟨budget, hbudget, hrefuses⟩
  exact absurd (hproperty budget hbudget exc h' hrun hcls) (Nat.not_lt.mpr hfloor)

/-! ## A prompt with little slack -/

/-- A configuration without compaction that caps the input at 1000 tokens. -/
def slackConfig : LLMServiceConfig :=
  { LLMServiceConfig.declared with contextCompactionEnabled := false, promptTokenBudget := 1000 }

/-- Locked instructions of 950 tokens, four retrieved lines and a question:
their counts add up to 990, the composed prompt measures 1001. -/
def slackSections : List PromptSection :=
  [{  name := "system", content := List.replicate 3800 'a', priority := 10
      tokenCount := 950, trimmable := false },
    { name := "retrieval"
      content := PyText.join ['\n'] (List.replicate 4 (List.replicate 20 'b'))
      tokenCount := 20 },
    { name := "user_query", content := List.replicate 80 'q', priority := 10
      tokenCount := 20, trimmable := false }]

/-- A prompt as `build` returns it. -/
def promptOf (m : ContextWindowManager) (sections : List PromptSection) : ComposedPrompt :=
  { sections
    totalTokens := sectionTokens sections
    messages := Compose.composeMessages sections m.historyAsMessages
    mode := "default"
    engineType := "mode_handler" }

def slackFitting : Fitting where
  config := slackConfig
  manager := .ofConfig {} slackConfig
  build := fun _ => .ok (promptOf (.ofConfig {} slackConfig) slackSections)

theorem slack_budget : ∃ budget,
    budgetFor slackFitting "nvidia" slackConfig.nvidiaModel (some 8192) = .ok budget ∧
      budget.inputBudget = 1000 :=
  exists_ok_of_map (by decide +kernel)

/-- One token over, and five passes that each lower the target by one. -/
theorem not_refusesOnlyUnfittable_slack :
    CountsAgree slackFitting.manager (promptOf slackFitting.manager slackSections) "nvidia" ∧
      ¬ RefusesOnlyUnfittable slackFitting (promptOf slackFitting.manager slackSections)
        "nvidia" slackConfig.nvidiaModel (some 8192) {} := by
  obtain ⟨budget, hbudget, hinput⟩ := slack_budget
  refine ⟨by decide +kernel, not_refusesOnlyUnfittable_of_slack rfl hbudget ?_ ?_ ?_⟩
  · rw [hinput]
    decide +kernel
  · rw [hinput]
    decide +kernel
  · rw [hinput]
    decide +kernel

/-- Turns of eight characters. -/
def eightLetterTurns : List ChatMessage :=
  (List.range 54).map fun i =>
    { role := if i % 2 = 0 then .user else .assistant, content := List.replicate 8 'b' }

/-- Locked instructions of 740 tokens, 54 turns and a question: the counts add up to 999, the
composed prompt measures 1010. -/
def turnSections : List PromptSection :=
  let header := "Conversation:".toList
  [{  name := "system", content := List.replicate 2960 'a', priority := 10
      tokenCount := 740, trimmable := false },
    { name := "conversation_history", content := PriorityTrimmer.renderHistory header eightLetterTurns
      tokenCount := 239, items := some eightLetterTurns, header },
    { name := "user_query", content := List.replicate 80 'q', priority := 10
      tokenCount := 20, trimmable := false }]

/-- The first pass cuts nothing; the one at 990 leaves 1001 tokens, and the one at 989 leaves 997. -/
theorem turns_settle :
    SettlesFrom slackFitting.manager (promptOf slackFitting.manager turnSections) "nvidia"
      slackConfig.nvidiaModel (some 8192) 1000 1 11 989 where
  starts := by decide +kernel
  within := by decide +kernel
  pos := by decide
  room := by decide +kernel
  passes := by decide +kernel

theorem refusesOnlyUnfittable_turns :
    RefusesOnlyUnfittable slackFitting (promptOf slackFitting.manager turnSections)
      "nvidia" slackConfig.nvidiaModel (some 8192) {} := by
  apply refusesOnlyUnfittable_of_settles rfl
  intro budget hbudget
  obtain ⟨budget', hbudget', hinput⟩ := slack_budget
  obtain rfl : budget' = budget := Except.ok.inj (hbudget'.symm.trans hbudget)
  rw [hinput]
  exact .inr (.inr ⟨1, 11, 989, turns_settle⟩)

/-! ## The fitter of the chain -/

/-- The prompt handed to the chain for the same sections. -/
def handedPrompt (m : ContextWindowManager) (sections : List PromptSection) : TrimmedPrompt :=
  { sections
    messages := Compose.composeMessages sections m.historyAsMessages
    totalTokens := sectionTokens sections
    originalTokens := sectionTokens sections }

section Manage

variable (m : ContextWindowManager) {composed composed' : ComposedPrompt}
  (provider model : String) (maxOutputTokens : Option Int)

/-- `manage` reads the sections and the mode of a prompt, and nothing else. -/
theorem manageAt_congr (hsections : composed.sections = composed'.sections)
    (hmode : composed.mode = composed'.mode) (target : Nat) :
    manageAt m composed provider model maxOutputTokens target
      = manageAt m composed' provider model maxOutputTokens target := by
  simp only [manageAt, manage, hsections, hmode]

end Manage

section Trim

variable (m : ContextWindowManager) (c : Candidate) (inputBudget : Nat)
  (composed : ComposedPrompt)

/-- What `manage` returns for a target of the fitter, and its measured size. -/
def entryManageAt (target : Nat) : Except Exc (TrimmedPrompt × Nat) :=
  manageAt m composed c.provider c.model (some c.maxTokens) target

/-- `manage` at the budget, or at the gap target if that measures too much,
returns a prompt within the budget. -/
def TrimsTo (last : TrimmedPrompt × Nat) : Prop :=
  last.2 ≤ inputBudget ∧
    (entryManageAt m c composed inputBudget = .ok last ∨
      ∃ first, entryManageAt m c composed inputBudget = .ok first ∧ inputBudget < first.2 ∧
        entryManageAt m c composed (ChainFit.gapTarget inputBudget first.1 first.2) = .ok last)

/-- The retry of the fitter comes within the budget. -/
def RetryFits (first : TrimmedPrompt × Nat) : Prop :=
  FitsAt m composed c.provider c.model (some c.maxTokens) inputBudget
    (ChainFit.gapTarget inputBudget first.1 first.2)

variable {m c inputBudget}

theorem trimAgain_ok_iff {prompt q : TrimmedPrompt} :
    ChainFit.trimAgain m c inputBudget prompt = .ok q ↔
      ∃ n, TrimsTo m c inputBudget (ChainFit.composedAgain prompt) (q, n) := by
  simp only [ChainFit.trimAgain, except_bind_eq_ok]
  constructor
  · intro hok
    obtain ⟨first, hfirst, last, hlast, hcheck⟩ := hok
    by_cases hsize : inputBudget < last.2
    · rw [ChainFit.checkSize, if_pos hsize] at hcheck
      cases hcheck
    · rw [ChainFit.checkSize, if_neg hsize] at hcheck
      obtain rfl := Except.ok.inj hcheck
      refine ⟨last.2, by omega, ?_⟩
      by_cases hover : inputBudget < first.2
      · rw [ChainFit.retryGap, if_pos hover] at hlast
        exact .inr ⟨first, hfirst, hover, hlast⟩
      · rw [ChainFit.retryGap, if_neg hover] at hlast
        obtain rfl := Except.ok.inj hlast
        exact .inl hfirst
  · intro hexists
    obtain ⟨n, hsize, htrims⟩ := hexists
    have hcheck : ChainFit.checkSize c inputBudget (q, n) = .ok q := by
      rw [ChainFit.checkSize, if_neg (Nat.not_lt.mpr hsize)]
    rcases htrims with hfirst | ⟨first, hfirst, hover, hlast⟩
    · refine ⟨(q, n), hfirst, (q, n), ?_, hcheck⟩
      rw [ChainFit.retryGap, if_neg (Nat.not_lt.mpr hsize)]
    · refine ⟨first, hfirst, (q, n), ?_, hcheck⟩
      rw [ChainFit.retryGap, if_pos hover]
      exact hlast

theorem TrimsTo.size {last : TrimmedPrompt × Nat} (h : TrimsTo m c inputBudget composed last) :
    last.2 = m.tokenCounter.countMessages last.1.messages c.provider := by
  rcases h with ⟨-, hfirst | ⟨first, -, -, hlast⟩⟩
  · exact (manageAt_ok hfirst).2
  · exact (manageAt_ok hlast).2

/-- A prompt that the fitter's second half returns measures at most the budget. -/
theorem trimAgain_size_le {prompt q : TrimmedPrompt}
    (h : ChainFit.trimAgain m c inputBudget prompt = .ok q) :
    m.tokenCounter.countMessages q.messages c.provider ≤ inputBudget := by
  obtain ⟨n, htrims⟩ := trimAgain_ok_iff.mp h
  have hsize : n = m.tokenCounter.countMessages q.messages c.provider := htrims.size
  have hle : n ≤ inputBudget := htrims.1
  omega

variable (m c inputBudget)

/-- Some prompt is within the budget exactly if `manage` at the budget is, or
the retry. -/
theorem exists_trimsTo_iff :
    (∃ last, TrimsTo m c inputBudget composed last) ↔
      ∃ first, entryManageAt m c composed inputBudget = .ok first ∧
        (first.2 ≤ inputBudget ∨ RetryFits m c inputBudget composed first) := by
  constructor
  · intro hexists
    rcases hexists with ⟨last, hsize, hfirst | ⟨first, hfirst, -, hlast⟩⟩
    · exact ⟨last, hfirst, .inl hsize⟩
    · exact ⟨first, hfirst, .inr ⟨last.2, measured_of_ok hlast, hsize⟩⟩
  · intro hexists
    obtain ⟨first, hfirst, hfits⟩ := hexists
    by_cases hover : inputBudget < first.2
    · have hretry : RetryFits m c inputBudget composed first :=
        hfits.resolve_left (Nat.not_le.mpr hover)
      obtain ⟨n, hn, hsize⟩ := hretry
      cases hlast : entryManageAt m c composed
          (ChainFit.gapTarget inputBudget first.1 first.2) with
      | error exc =>
        rw [measured_of_error hlast] at hn
        cases hn
      | ok last =>
        rw [measured_of_ok hlast] at hn
        obtain rfl := Option.some.inj hn
        exact ⟨last, hsize, .inr ⟨first, hfirst, hover, hlast⟩⟩
    · exact ⟨first, Nat.not_lt.mp hover, .inl hfirst⟩

end Trim

/-- The fitter's verdict on the sections, for an entry of the chain: it returns
a prompt that measures at most the entry's input budget. -/
def FitterAccepts (config : LLMServiceConfig) (m : ContextWindowManager)
    (sections : List PromptSection) (entryName : String) : Prop :=
  let c := ChainFit.entryCandidate config entryName
  ∃ budget q, ChainFit.entryBudget config m c = .ok budget ∧
    buildChainFitter config m (handedPrompt m sections) entryName = .ok q ∧
    m.tokenCounter.countMessages q.messages c.provider ≤ budget.inputBudget

theorem fitterAccepts_iff (config : LLMServiceConfig) (m : ContextWindowManager)
    (sections : List PromptSection) (entryName : String) :
    let c := ChainFit.entryCandidate config entryName
    FitterAccepts config m sections entryName ↔
      ∃ budget, ChainFit.entryBudget config m c = .ok budget ∧
        (wholeSize m (promptOf m sections) c.provider ≤ budget.inputBudget ∨
          ∃ first, entryManageAt m c (promptOf m sections) budget.inputBudget = .ok first ∧
            (first.2 ≤ budget.inputBudget ∨
              RetryFits m c budget.inputBudget (promptOf m sections) first)) := by
  intro c
  cases hbudget : ChainFit.entryBudget config m c with
  | error exc => simp [FitterAccepts, c, hbudget]
  | ok budget =>
    have hwhole : m.tokenCounter.countMessages (handedPrompt m sections).messages c.provider
        = wholeSize m (promptOf m sections) c.provider := rfl
    have hfitter : buildChainFitter config m (handedPrompt m sections) entryName =
        if wholeSize m (promptOf m sections) c.provider ≤ budget.inputBudget then
          .ok (handedPrompt m sections)
        else ChainFit.trimAgain m c budget.inputBudget (handedPrompt m sections) := by
      simp only [buildChainFitter, ← hwhole]
      rw [show ChainFit.entryBudget config m (ChainFit.entryCandidate config entryName)
        = .ok budget from hbudget]
      rfl
    have hcongr : ∀ target,
        entryManageAt m c (ChainFit.composedAgain (handedPrompt m sections)) target
          = entryManageAt m c (promptOf m sections) target :=
      manageAt_congr m c.provider c.model (some c.maxTokens) rfl rfl
    have htrims : ∀ last,
        TrimsTo m c budget.inputBudget (ChainFit.composedAgain (handedPrompt m sections)) last ↔
          TrimsTo m c budget.inputBudget (promptOf m sections) last := by
      intro last
      simp only [TrimsTo, hcongr]
    simp only [FitterAccepts, hfitter]
    rw [show ChainFit.entryBudget config m (ChainFit.entryCandidate config entryName)
      = .ok budget from hbudget]
    simp only [Except.ok.injEq, exists_eq_left', exists_and_left]
    by_cases hn : wholeSize m (promptOf m sections) c.provider ≤ budget.inputBudget
    · rw [if_pos hn]
      simp only [hn, true_or, iff_true]
      exact ⟨_, rfl, hn⟩
    · rw [if_neg hn]
      simp only [hn, false_or]
      -- what trimming returns is within the budget, so the size needs no check
      rw [← exists_trimsTo_iff]
      constructor
      · intro hexists
        obtain ⟨q, hq, -⟩ := hexists
        obtain ⟨n, hlast⟩ := trimAgain_ok_iff.mp hq
        exact ⟨(q, n), (htrims _).mp hlast⟩
      · intro hexists
        obtain ⟨⟨q, n⟩, hlast⟩ := hexists
        have hq := trimAgain_ok_iff.mpr ⟨n, (htrims _).mpr hlast⟩
        exact ⟨q, hq, trimAgain_size_le hq⟩

/-- The fitter of the chain accepts the sections for an entry exactly if
`fit_prompt` does, for the entry's provider, model and output size. -/
def FittersAgree (f : Fitting) (sections : List PromptSection) (entryName : String)
    (h : Histories) : Prop :=
  let c := ChainFit.entryCandidate f.config entryName
  FitterAccepts f.config f.manager sections entryName ↔
    ∃ fitted h', (fitPrompt f (promptOf f.manager sections) c.provider c.model
      (some c.maxTokens)).run h = .ok fitted h'

section Verdicts

variable (m : ContextWindowManager) (sections : List PromptSection) (c : Candidate) (inputBudget : Nat)

/-- By how much the prompt that `manage` returns for a target measures more than its section counts. -/
def gapAt (target : Nat) : Option Nat :=
  (entryManageAt m c (promptOf m sections) target).toOption.map fun fitted =>
    fitted.2 - fitted.1.totalTokens

/-- Both start with the same trimming, at the budget: it refuses, or comes within the budget. -/
def FirstDecides : Prop :=
  measured m (promptOf m sections) c.provider c.model (some c.maxTokens) inputBudget = none ∨
    FitsAt m (promptOf m sections) c.provider c.model (some c.maxTokens) inputBudget inputBudget

/-- No target up to the budget leaves a prompt within it. -/
def NothingFits : Prop :=
  ∀ target, 0 < target → target ≤ inputBudget →
    ¬ FitsAt m (promptOf m sections) c.provider c.model (some c.maxTokens) inputBudget target

/-- The passes settle with a gap that is no larger than the one at the budget, and down to the budget less
that one. -/
def SettlesWithGap : Prop :=
  ∃ j gap low, SettlesFrom m (promptOf m sections) c.provider c.model (some c.maxTokens) inputBudget
      j gap low ∧
    ∀ first ∈ gapAt m sections c inputBudget, gap ≤ first ∧ first ≤ inputBudget - low

/-- A budget on which the two agree. A prompt that measures within it needs no fitter, so
`fit_prompt` must not cut it in vain. -/
def SameVerdict : Prop :=
  if wholeSize m (promptOf m sections) c.provider ≤ inputBudget then
    Untouched m (promptOf m sections) c.model (some c.maxTokens) inputBudget ∨
      ∃ j gap low, SettlesFrom m (promptOf m sections) c.provider c.model (some c.maxTokens)
        inputBudget j gap low
  else FirstDecides m sections c inputBudget ∨ NothingFits m sections c inputBudget ∨
    SettlesWithGap m sections c inputBudget

variable {m sections c inputBudget}

theorem not_fitsWithin_of_nothingFits (h : NothingFits m sections c inputBudget) {passes target : Nat}
    (hpos : 0 < target) (hle : target ≤ inputBudget) :
    ¬ FitsWithin m (promptOf m sections) c.provider c.model (some c.maxTokens) inputBudget passes
      target := by
  induction passes generalizing target with
  | zero => exact h target hpos hle
  | succ passes ih =>
    intro hfits
    obtain ⟨n, hn, hrest⟩ := hfits
    rcases hrest with hwithin | hrest
    · exact h target hpos hle ⟨n, hn, hwithin⟩
    · refine ih (lowered_pos target n) ?_ hrest
      rw [lowered]
      omega

/-- The target of the retry is the budget less the gap. -/
theorem gapTarget_of_over {first : TrimmedPrompt × Nat} (hpos : 0 < inputBudget)
    (hfirst : entryManageAt m c (promptOf m sections) inputBudget = .ok first)
    (hover : inputBudget < first.2) :
    first.1.totalTokens ≤ inputBudget ∧
      gapAt m sections c inputBudget = some (first.2 - first.1.totalTokens) ∧
      ChainFit.gapTarget inputBudget first.1 first.2 =
        max 1 (inputBudget - (first.2 - first.1.totalTokens)) := by
  have htotal := (manage_ok (manageAt_ok hfirst).1).2.1
  rw [effectiveBudget_some hpos] at htotal
  refine ⟨htotal.trans (Nat.min_le_left _ _), ?_, ?_⟩
  · rw [gapAt, hfirst]
    rfl
  · rw [ChainFit.gapTarget]
    have hle : first.1.totalTokens ≤ inputBudget := htotal.trans (Nat.min_le_left _ _)
    omega

/-- Trimming starts no further below the budget than the gap of a prompt that is not cut at it. -/
theorem StartsAfter.gap_le {composed : ComposedPrompt} {provider model : String}
    {maxOutputTokens : Option Int} {j : Nat} (hpos : 0 < inputBudget)
    (h : StartsAfter m composed provider model maxOutputTokens inputBudget (j + 1)) :
    inputBudget - (wholeSize m composed provider - sectionTokens composed.sections) ≤
      loweredBy m composed provider inputBudget inputBudget (j + 1) := by
  have hbefore := h.1 j (Nat.lt_succ_self j)
  have hcut := h.2
  simp only [Untouched, loweredBy, Nat.succ_mul] at hbefore hcut ⊢
  omega

/-- A prompt that is not cut at the budget keeps its size and its counts. -/
theorem whole_of_untouched {first : TrimmedPrompt × Nat} (hpos : 0 < inputBudget)
    (h : Untouched m (promptOf m sections) c.model (some c.maxTokens) inputBudget)
    (hfirst : entryManageAt m c (promptOf m sections) inputBudget = .ok first) :
    first.2 = wholeSize m (promptOf m sections) c.provider ∧
      first.1.totalTokens = sectionTokens sections := by
  have hmanage := manage_of_le m (promptOf m sections) c.model (some inputBudget) (some c.maxTokens) (by
    rw [effectiveBudget_some hpos]
    exact h)
  have hmanaged := manageAt_ok hfirst
  have hwhole := Except.ok.inj (hmanage.symm.trans hmanaged.1)
  refine ⟨?_, ?_⟩
  · rw [hmanaged.2, ← hwhole]
    rfl
  · rw [← hwhole]
    rfl

/-- The target of the retry is no higher than the one that trimming starts from. -/
theorem SettlesFrom.gap_le {j gap low : Nat} {first : TrimmedPrompt × Nat} (hpos : 0 < inputBudget)
    (h : SettlesFrom m (promptOf m sections) c.provider c.model (some c.maxTokens) inputBudget j gap low)
    (hfirst : entryManageAt m c (promptOf m sections) inputBudget = .ok first) :
    inputBudget - (first.2 - first.1.totalTokens) ≤
      loweredBy m (promptOf m sections) c.provider inputBudget inputBudget j := by
  cases j with
  | zero =>
    rw [loweredBy_zero hpos]
    exact Nat.sub_le _ _
  | succ j =>
    have huntouched := h.starts.1 0 (Nat.succ_pos j)
    rw [loweredBy_zero hpos] at huntouched
    obtain ⟨hsize, htotal⟩ := whole_of_untouched hpos huntouched hfirst
    rw [hsize, htotal]
    exact h.starts.gap_le hpos

/-- What settles in the passes settles in the retry. -/
theorem SettlesWithGap.retryFits {first : TrimmedPrompt × Nat} (hpos : 0 < inputBudget)
    (h : SettlesWithGap m sections c inputBudget)
    (hfirst : entryManageAt m c (promptOf m sections) inputBudget = .ok first)
    (hover : inputBudget < first.2) : RetryFits m c inputBudget (promptOf m sections) first := by
  obtain ⟨j, gap, low, hfrom, hgap⟩ := h
  obtain ⟨htotal, hgapAt, htarget⟩ := gapTarget_of_over hpos hfirst hover
  obtain ⟨hge, hle⟩ := hgap _ hgapAt
  have hlow := hfrom.pos
  have hroom := hfrom.room.1
  have hstart := hfrom.gap_le hpos hfirst
  rw [RetryFits, htarget]
  have hmax : max 1 (inputBudget - (first.2 - first.1.totalTokens)) =
      inputBudget - (first.2 - first.1.totalTokens) := by omega
  rw [hmax]
  obtain ⟨n, hn, hexcess⟩ := hfrom.within.at (by omega) hstart
  exact ⟨n, hn, by omega⟩

/-- Where nothing fits, the retry does not. -/
theorem NothingFits.not_retryFits {first : TrimmedPrompt × Nat} (hpos : 0 < inputBudget)
    (h : NothingFits m sections c inputBudget)
    (hfirst : entryManageAt m c (promptOf m sections) inputBudget = .ok first)
    (hover : inputBudget < first.2) : ¬ RetryFits m c inputBudget (promptOf m sections) first := by
  obtain ⟨-, -, htarget⟩ := gapTarget_of_over hpos hfirst hover
  rw [RetryFits, htarget]
  apply h <;> omega

/-- On such a budget the fitter and the passes come to one verdict. -/
theorem SameVerdict.agree (hpos : 0 < inputBudget) (h : SameVerdict m sections c inputBudget) :
    (wholeSize m (promptOf m sections) c.provider ≤ inputBudget ∨
        ∃ first, entryManageAt m c (promptOf m sections) inputBudget = .ok first ∧
          (first.2 ≤ inputBudget ∨ RetryFits m c inputBudget (promptOf m sections) first)) ↔
      FitsWithin m (promptOf m sections) c.provider c.model (some c.maxTokens) inputBudget
        refitPasses inputBudget := by
  rw [SameVerdict] at h
  by_cases hwhole : wholeSize m (promptOf m sections) c.provider ≤ inputBudget
  · rw [if_pos hwhole] at h
    refine iff_of_true (.inl hwhole) ?_
    rcases h with huntouched | ⟨j, gap, low, hfrom⟩
    · exact (fitsWithin_iff hpos).mpr (.inl ⟨huntouched, hwhole⟩)
    · exact hfrom.fitsWithin hpos
  · rw [if_neg hwhole] at h
    rw [or_iff_right hwhole]
    cases hfirst : entryManageAt m c (promptOf m sections) inputBudget with
    | error exc =>
      -- both fail with the first trimming
      refine iff_of_false ?_ ?_
      · intro haccepts
        obtain ⟨first, hok, -⟩ := haccepts
        cases hok
      · rw [refitPasses, FitsWithin, measured_of_error hfirst]
        intro hfits
        obtain ⟨n, hn, -⟩ := hfits
        cases hn
    | ok first =>
      by_cases hover : inputBudget < first.2
      · have hfitter : (∃ first', (.ok first : Except Exc (TrimmedPrompt × Nat)) = .ok first' ∧
            (first'.2 ≤ inputBudget ∨ RetryFits m c inputBudget (promptOf m sections) first')) ↔
            RetryFits m c inputBudget (promptOf m sections) first := by
          simp only [Except.ok.injEq, exists_eq_left', Nat.not_le.mpr hover, false_or]
        rw [hfitter]
        rcases h with hdecides | hnothing | hsettles
        · rcases hdecides with hnone | ⟨n, hn, hle⟩
          · rw [measured_of_ok hfirst] at hnone
            cases hnone
          · rw [measured_of_ok hfirst] at hn
            obtain rfl := Option.some.inj hn
            exact absurd hle (Nat.not_le.mpr hover)
        · exact iff_of_false (hnothing.not_retryFits hpos hfirst hover)
            (not_fitsWithin_of_nothingFits hnothing hpos le_rfl)
        · obtain ⟨j, gap, low, hfrom, -⟩ := id hsettles
          exact iff_of_true (hsettles.retryFits hpos hfirst hover) (hfrom.fitsWithin hpos)
      · have hle : first.2 ≤ inputBudget := Nat.not_lt.mp hover
        refine iff_of_true ⟨first, rfl, .inl hle⟩ ?_
        exact ⟨first.2, measured_of_ok hfirst, .inl hle⟩

end Verdicts

/-- The two fitters agree if the budget of the entry is one on which they do. -/
theorem fittersAgree_of_sameVerdict {f : Fitting} {sections : List PromptSection} {entryName : String}
    {h : Histories} (hoff : f.config.contextCompactionEnabled = false)
    (hsame : ∀ budget, ChainFit.entryBudget f.config f.manager
        (ChainFit.entryCandidate f.config entryName) = .ok budget →
      SameVerdict f.manager sections (ChainFit.entryCandidate f.config entryName)
        budget.inputBudget) :
    FittersAgree f sections entryName h := by
  have hbudgetFor : ∀ c : Candidate, ChainFit.entryBudget f.config f.manager c
      = budgetFor f c.provider c.model (some c.maxTokens) := fun _ => rfl
  simp only [FittersAgree, fitterAccepts_iff, fitPrompt_ok_iff, accepts_iff_of_disabled hoff,
    ← hbudgetFor]
  cases hbudget : ChainFit.entryBudget f.config f.manager
      (ChainFit.entryCandidate f.config entryName) with
  | error exc => simp
  | ok budget =>
    simp only [Except.ok.injEq, exists_eq_left']
    exact (hsame budget hbudget).agree (inputBudget_pos budget)

/-- The passes drop turns at 990 and at 989 tokens, the fitter at 989. -/
theorem fittersAgree_turns : FittersAgree slackFitting turnSections "nvidia" {} := by
  apply fittersAgree_of_sameVerdict rfl
  intro budget hbudget
  obtain ⟨budget', hbudget', hinput⟩ := slack_budget
  obtain rfl : budget' = budget := Except.ok.inj (hbudget'.symm.trans hbudget)
  rw [SameVerdict, hinput, if_neg (by decide +kernel)]
  refine .inr (.inr ⟨1, 11, 989, turns_settle, ?_⟩)
  decide +kernel

/-- They disagree where the prompt measures more than the budget and is within every target that the
passes reach, while the gap between measured size and section counts lets the retry cut enough. -/
theorem not_fittersAgree_of_slack {f : Fitting} {sections : List PromptSection} {entryName : String}
    {h : Histories} {budget : BudgetPolicy.ContextBudget} (hoff : f.config.contextCompactionEnabled = false)
    (hbudget : ChainFit.entryBudget f.config f.manager
      (ChainFit.entryCandidate f.config entryName) = .ok budget)
    (hover : budget.inputBudget < wholeSize f.manager (promptOf f.manager sections)
      (ChainFit.entryCandidate f.config entryName).provider)
    (hslack : Untouched f.manager (promptOf f.manager sections)
      (ChainFit.entryCandidate f.config entryName).model
      (some (ChainFit.entryCandidate f.config entryName).maxTokens)
      (loweredBy f.manager (promptOf f.manager sections)
        (ChainFit.entryCandidate f.config entryName).provider budget.inputBudget budget.inputBudget
        refitPasses))
    (hretry : FitsAt f.manager (promptOf f.manager sections)
      (ChainFit.entryCandidate f.config entryName).provider
      (ChainFit.entryCandidate f.config entryName).model
      (some (ChainFit.entryCandidate f.config entryName).maxTokens) budget.inputBudget
      (max 1 (budget.inputBudget - (wholeSize f.manager (promptOf f.manager sections)
        (ChainFit.entryCandidate f.config entryName).provider - sectionTokens sections)))) :
    ¬ FittersAgree f sections entryName h := by
  intro hagree
  have hpos := inputBudget_pos budget
  have huntouched : Untouched f.manager (promptOf f.manager sections)
      (ChainFit.entryCandidate f.config entryName).model
      (some (ChainFit.entryCandidate f.config entryName).maxTokens) budget.inputBudget :=
    hslack.trans (min_le_min_right _ (loweredBy_le _ _ hpos))
  obtain ⟨first, hfirst⟩ : ∃ first, entryManageAt f.manager (ChainFit.entryCandidate f.config entryName)
      (promptOf f.manager sections) budget.inputBudget = .ok first := by
    cases hfirst : entryManageAt f.manager (ChainFit.entryCandidate f.config entryName)
        (promptOf f.manager sections) budget.inputBudget with
    | error exc =>
      have hmeasured := measured_of_untouched
        (ChainFit.entryCandidate f.config entryName).provider hpos huntouched
      rw [measured_of_error hfirst] at hmeasured
      cases hmeasured
    | ok first => exact ⟨first, rfl⟩
  obtain ⟨hsize, htotal⟩ := whole_of_untouched hpos huntouched hfirst
  have hretries : RetryFits f.manager (ChainFit.entryCandidate f.config entryName) budget.inputBudget
      (promptOf f.manager sections) first := by
    rw [RetryFits, (gapTarget_of_over hpos hfirst (by omega)).2.2, hsize, htotal]
    exact hretry
  have haccepts : FitterAccepts f.config f.manager sections entryName :=
    (fitterAccepts_iff f.config f.manager sections entryName).mpr
      ⟨budget, hbudget, .inr ⟨first, hfirst, .inr hretries⟩⟩
  obtain ⟨fitted, h', hrun⟩ := hagree.mp haccepts
  obtain ⟨budget', hbudget', hfits⟩ := (fitPrompt_ok_iff _ _ _).mp ⟨fitted, h', hrun⟩
  obtain rfl : budget = budget' := Except.ok.inj (hbudget.symm.trans hbudget')
  rw [accepts_iff_of_disabled hoff] at hfits
  exact not_fitsWithin_of_slack hpos hover hslack hfits

/-- The gap target lets the fitter drop one retrieved line; the five lowered
targets of `fit_prompt` cut nothing. -/
theorem not_fittersAgree_slack : ¬ FittersAgree slackFitting slackSections "nvidia" {} := by
  obtain ⟨budget, hbudget, hinput⟩ := slack_budget
  refine not_fittersAgree_of_slack rfl hbudget ?_ ?_ ?_
  · rw [hinput]
    decide +kernel
  · rw [hinput]
    decide +kernel
  · rw [hinput]
    exact ⟨996, by decide +kernel⟩

end LlmService.ContextFit
