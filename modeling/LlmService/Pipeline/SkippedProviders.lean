import LlmService.Pipeline.WindowFit
import LlmService.Providers.ChainAnswers

/-!
# Providers that cannot take the prompt

Both loops over the providers pass over one whose context budget the prompt
does not fit. What they do with the later providers, beside the same loop on
the list without it: the pipeline's loop tries them over the histories that
the attempt left, the chain's loop at the clock reading and with the prompt
it had.
-/

namespace LlmService

open ContextFit ProviderFit WindowFit

namespace SkippedProviders

/-! ## The loop of the pipeline -/

section Pipeline

variable (f : Fitting) (composed : ComposedPrompt) (h₀ : Histories)

/-- Its context budget cannot be resolved, or the prompt does not fit it. -/
def Unusable (c : Candidate) : Prop :=
  (∃ exc, budgetFor f c.provider c.model (some c.maxTokens) = .error exc) ∨
    RefusesAlone f composed h₀ c

/-- An unusable candidate makes no difference to the others. -/
structure SkipsUnusable (candidates : List Candidate) : Prop where
  /-- The loop comes to a later candidate `d` with the same histories as without `c`. -/
  considered : ∀ {before c mid d rest}, candidates = before ++ c :: (mid ++ d :: rest) →
    Unusable f composed h₀ c → ∀ h,
      (Reached f composed h₀ (before ++ c :: mid) h ↔ Reached f composed h₀ (before ++ mid) h)
  /-- The prompt that is fitted, and what is left of the histories, are the same. -/
  outcome : ∀ {before c rest}, candidates = before ++ c :: rest → Unusable f composed h₀ c →
    ∀ fitted h,
      ((fitToFirstFittingProvider f composed candidates).run h₀ = .ok fitted h ↔
        (fitToFirstFittingProvider f composed (before ++ rest)).run h₀ = .ok fitted h)

/-- Among the candidates that are followed by another, up to the first that
takes the prompt, the budget of each resolves, and one whose compaction
rewrites the history takes the prompt. -/
def SkipsCleanly (candidates : List Candidate) : Prop :=
  ∀ tried c d rest, candidates = tried ++ c :: d :: rest →
    (∀ c' ∈ tried, RefusesAlone f composed h₀ c') →
    ∃ budget, budgetFor f c.provider c.model (some c.maxTokens) = .ok budget ∧
      (Rewrites f composed c.provider budget.inputBudget h₀ →
        Accepts f composed c.provider c.model (some c.maxTokens) budget.inputBudget h₀)

variable {f composed h₀} {h h' : Histories} {c : Candidate} {tried : List Candidate}

theorem reached_nil_iff : Reached f composed h₀ [] h ↔ h = h₀ := by
  constructor
  · intro hreached
    generalize hnil : ([] : List Candidate) = tried at hreached
    cases hreached with
    | start => rfl
    | refused => simp at hnil
  · intro heq
    subst heq
    exact .start

theorem reached_cons_iff :
    Reached f composed h₀ (c :: tried) h ↔
      ∃ h₁ exc, (fitCandidate f composed c).run h₀ = .error exc h₁ ∧
        exc.cls = .contextOverflowError ∧ Reached f composed h₁ tried h := by
  constructor
  · intro hreached
    generalize hlist : c :: tried = list at hreached
    induction hreached generalizing tried with
    | start => cases hlist
    | refused hbefore hrun hcls ih =>
      rename_i before c' h h' exc
      cases before with
      | nil =>
        obtain ⟨rfl, rfl⟩ := List.cons.inj hlist
        obtain rfl := reached_nil_iff.mp hbefore
        exact ⟨h', exc, hrun, hcls, .start⟩
      | cons c'' before =>
        obtain ⟨rfl, rfl⟩ := List.cons.inj hlist
        obtain ⟨h₁, exc₁, hrun₁, hcls₁, hrest⟩ := ih rfl
        exact ⟨h₁, exc₁, hrun₁, hcls₁, .refused hrest hrun hcls⟩
  · intro hboth
    obtain ⟨h₁, exc, hrun, hcls, hrest⟩ := hboth
    induction hrest with
    | start => exact .refused .start hrun hcls
    | refused _ hrun' hcls' ih => exact .refused ih hrun' hcls'

theorem reached_append_iff {before : List Candidate} :
    Reached f composed h₀ (before ++ tried) h ↔
      ∃ h₁, Reached f composed h₀ before h₁ ∧ Reached f composed h₁ tried h := by
  induction before generalizing h₀ with
  | nil => simp [reached_nil_iff]
  | cons c before ih =>
    simp only [List.cons_append, reached_cons_iff, ih]
    constructor
    · intro hreached
      obtain ⟨h₁, exc, hrun, hcls, h₂, hbefore, hrest⟩ := hreached
      exact ⟨h₂, ⟨h₁, exc, hrun, hcls, hbefore⟩, hrest⟩
    · intro hreached
      obtain ⟨h₂, ⟨h₁, exc, hrun, hcls, hbefore⟩, hrest⟩ := hreached
      exact ⟨h₁, exc, hrun, hcls, h₂, hbefore, hrest⟩

/-- The loop leaves one state. -/
theorem reached_unique (hreached : Reached f composed h₀ tried h)
    (hreached' : Reached f composed h₀ tried h') : h = h' := by
  induction tried generalizing h₀ with
  | nil => rw [reached_nil_iff.mp hreached, reached_nil_iff.mp hreached']
  | cons c tried ih =>
    obtain ⟨h₁, exc, hrun, -, hrest⟩ := reached_cons_iff.mp hreached
    obtain ⟨h₂, exc', hrun', -, hrest'⟩ := reached_cons_iff.mp hreached'
    rw [hrun] at hrun'
    cases hrun'
    exact ih hrest hrest'

/-- What the loop returns does not depend on the last error before it. -/
theorem fitFrom_ok_congr {candidates : List Candidate} {last last' : Exc}
    {fitted : FittedPrompt} :
    (fitFrom f composed candidates last).run h = .ok fitted h' ↔
      (fitFrom f composed candidates last').run h = .ok fitted h' := by
  cases candidates with
  | nil => simp [fitFrom, run_throw]
  | cons c rest => rfl

/-- The loop returns from its first candidates, or has them all refused first. -/
theorem fitFrom_append_ok_iff {before rest : List Candidate} {last : Exc}
    {fitted : FittedPrompt} :
    (fitFrom f composed (before ++ rest) last).run h = .ok fitted h' ↔
      (fitFrom f composed before last).run h = .ok fitted h' ∨
        ∃ h₁, Reached f composed h before h₁ ∧
          (fitFrom f composed rest last).run h₁ = .ok fitted h' := by
  induction before generalizing h last with
  | nil =>
    simp [reached_nil_iff, fitFrom, run_throw]
  | cons c before ih =>
    simp only [List.cons_append, fitFrom, run_tryCatch, EStateM.run_bind, reached_cons_iff]
    cases hc : (fitCandidate f composed c).run h with
    | ok result h₁ => simp
    | error exc h₁ =>
      by_cases hcls : exc.cls = .contextOverflowError
      · have hlast : ∀ candidates h₂,
            (fitFrom f composed candidates exc).run h₂ = .ok fitted h' ↔
              (fitFrom f composed candidates last).run h₂ = .ok fitted h' :=
          fun _ _ => fitFrom_ok_congr
        simp only [hcls, if_true, ih, hlast]
        simp [hcls]
      · simp [hcls, run_throw]

/-- A candidate that refuses alone, and does not rewrite the history, leaves
the histories as they are. -/
theorem reached_refused_iff (hrefuses : RefusesAlone f composed h₀ c)
    (hclean : ∃ budget, budgetFor f c.provider c.model (some c.maxTokens) = .ok budget ∧
      (Rewrites f composed c.provider budget.inputBudget h₀ →
        Accepts f composed c.provider c.model (some c.maxTokens) budget.inputBudget h₀)) :
    Reached f composed h₀ (c :: tried) h ↔ Reached f composed h₀ tried h := by
  obtain ⟨budget, hbudget, hno⟩ := hrefuses
  obtain ⟨budget', hbudget', hrewrites⟩ := hclean
  obtain rfl : budget' = budget := Except.ok.inj (hbudget'.symm.trans hbudget)
  have hsame := (historiesAfter_eq_iff f composed c.provider budget'.inputBudget h₀).mpr
    fun hr => hno (hrewrites hr)
  rw [reached_cons_iff]
  constructor
  · intro hreached
    obtain ⟨h₁, exc, hrun, hcls, hrest⟩ := hreached
    obtain ⟨budget, hbudget, -, rfl⟩ := fitCandidate_refused hrun hcls
    obtain rfl : budget' = budget := Except.ok.inj (hbudget'.symm.trans hbudget)
    rwa [hsame] at hrest
  · intro hrest
    obtain ⟨exc, h₁, hrun, hcls⟩ :=
      (fitPrompt_overflow_iff f composed h₀).mpr ⟨budget', hbudget', hno⟩
    obtain ⟨budget, hbudget, -, rfl⟩ := fitCandidate_refused hrun hcls
    obtain rfl : budget' = budget := Except.ok.inj (hbudget'.symm.trans hbudget)
    rw [hsame] at hrun
    exact ⟨h₀, exc, hrun, hcls, hrest⟩

/-- Where the loop skips cleanly, it comes to a candidate exactly after others
that refuse alone, and with the histories that came. -/
theorem SkipsCleanly.reached_iff {candidates : List Candidate}
    (hclean : SkipsCleanly f composed h₀ candidates) {d : Candidate} {rest : List Candidate}
    (hsplit : candidates = tried ++ d :: rest) :
    Reached f composed h₀ tried h ↔ h = h₀ ∧ ∀ c ∈ tried, RefusesAlone f composed h₀ c := by
  induction tried using List.reverseRecOn generalizing h d rest with
  | nil => simp [reached_nil_iff]
  | append_singleton tried c ih =>
    have hsplit' : candidates = tried ++ c :: d :: rest := by simpa using hsplit
    rw [reached_append_iff]
    simp only [ih hsplit', List.forall_mem_append, List.forall_mem_singleton]
    constructor
    · intro hreached
      obtain ⟨h₁, ⟨rfl, hrefused⟩, hc⟩ := hreached
      obtain ⟨h₂, exc, hrun, hcls, -⟩ := reached_cons_iff.mp hc
      have hrefuses := (fitPrompt_overflow_iff f composed h₁).mp ⟨exc, h₂, hrun, hcls⟩
      rw [reached_refused_iff hrefuses (hclean _ _ _ _ hsplit' hrefused), reached_nil_iff] at hc
      exact ⟨hc, hrefused, hrefuses⟩
    · intro hboth
      obtain ⟨rfl, hrefused, hrefuses⟩ := hboth
      refine ⟨h, ⟨rfl, hrefused⟩, ?_⟩
      rw [reached_refused_iff hrefuses (hclean _ _ _ _ hsplit' hrefused), reached_nil_iff]

/-- An unusable candidate is not fitted to. -/
theorem fitFrom_unusable (hunusable : Unusable f composed h₀ c) {last : Exc}
    {fitted : FittedPrompt} : (fitFrom f composed [c] last).run h₀ ≠ .ok fitted h' := by
  intro hrun
  obtain ⟨before, rest, h₁, hsplit, hreached, hok⟩ := fitFrom_ok .start hrun
  cases before with
  | cons c' before => simp at hsplit
  | nil =>
    obtain ⟨rfl, -⟩ := List.cons.inj hsplit
    rw [List.nil_append, reached_nil_iff] at hreached
    subst hreached
    obtain ⟨budget, hbudget, haccepts⟩ := (fitPrompt_ok_iff f composed h₁).mp ⟨_, _, hok⟩
    rcases hunusable with ⟨exc, herror⟩ | ⟨budget', hbudget', hrefuses⟩
    · rw [hbudget] at herror
      cases herror
    · obtain rfl : budget' = budget := Except.ok.inj (hbudget'.symm.trans hbudget)
      exact hrefuses haccepts

/-- A candidate whose budget resolves is unusable only if it refuses the prompt. -/
theorem Unusable.refuses (hunusable : Unusable f composed h₀ c)
    {budget : BudgetPolicy.ContextBudget}
    (hbudget : budgetFor f c.provider c.model (some c.maxTokens) = .ok budget) :
    RefusesAlone f composed h₀ c := by
  rcases hunusable with ⟨exc, herror⟩ | hrefuses
  · rw [hbudget] at herror
    cases herror
  · exact hrefuses

theorem SkipsCleanly.skipsUnusable {candidates : List Candidate}
    (hclean : SkipsCleanly f composed h₀ candidates) :
    SkipsUnusable f composed h₀ candidates := by
  constructor
  · intro before c mid d rest hsplit hunusable h
    rw [reached_append_iff, reached_append_iff]
    apply exists_congr
    intro h₁
    apply and_congr_right
    intro hbefore
    obtain ⟨rfl, hrefused⟩ := (hclean.reached_iff hsplit).mp hbefore
    -- the candidate that follows is the next one of `mid`, or `d`
    have hnext : ∃ e rest', candidates = before ++ c :: e :: rest' := by
      cases mid with
      | nil => exact ⟨d, rest, hsplit⟩
      | cons e mid => exact ⟨e, mid ++ d :: rest, hsplit⟩
    obtain ⟨e, rest', hsplit'⟩ := hnext
    have hc := hclean _ _ _ _ hsplit' hrefused
    obtain ⟨budget, hbudget, -⟩ := id hc
    exact reached_refused_iff (hunusable.refuses hbudget) hc
  · intro before c rest hsplit hunusable fitted h
    rw [fitToFirstFittingProvider, hsplit, fitToFirstFittingProvider, fitFrom_append_ok_iff,
      fitFrom_append_ok_iff]
    apply or_congr_right
    apply exists_congr
    intro h₁
    apply and_congr_right
    intro hbefore
    obtain ⟨rfl, hrefused⟩ := (hclean.reached_iff hsplit).mp hbefore
    rw [← List.singleton_append, fitFrom_append_ok_iff, or_iff_right (fitFrom_unusable hunusable)]
    cases rest with
    | nil => simp [fitFrom, run_throw]
    | cons d rest =>
      have hc := hclean _ _ _ _ hsplit hrefused
      obtain ⟨budget, hbudget, -⟩ := id hc
      simp [reached_refused_iff (hunusable.refuses hbudget) hc, reached_nil_iff]

/-- If unusable candidates make no difference, the loop comes to every
candidate behind others that refuse alone, with the histories that came. -/
theorem SkipsUnusable.reached {candidates : List Candidate}
    (hskips : SkipsUnusable f composed h₀ candidates) (tried : List Candidate) :
    ∀ d rest, candidates = tried ++ d :: rest → (∀ c ∈ tried, RefusesAlone f composed h₀ c) →
      Reached f composed h₀ tried h₀ := by
  induction tried using List.reverseRecOn with
  | nil => exact fun _ _ _ _ => .start
  | append_singleton tried c ih =>
    intro d rest hsplit hrefused
    have hsplit' : candidates = tried ++ c :: ([] ++ d :: rest) := by simpa using hsplit
    have hreached := ih c (d :: rest) hsplit' fun c' hc' => hrefused c' (by simp [hc'])
    have hrefuses := hrefused c (by simp)
    obtain ⟨exc, h', hrun, hcls⟩ := (fitPrompt_overflow_iff f composed h₀).mpr hrefuses
    have hnext := hreached.refused hrun hcls
    have habsent := (hskips.considered hsplit' (.inr hrefuses) h').mp hnext
    rw [List.append_nil] at habsent
    rwa [reached_unique habsent hreached] at hnext

/-- Unusable candidates make no difference exactly if the loop skips cleanly. -/
theorem skipsUnusable_iff (f : Fitting) (composed : ComposedPrompt) (h₀ : Histories)
    (candidates : List Candidate) :
    SkipsUnusable f composed h₀ candidates ↔ SkipsCleanly f composed h₀ candidates := by
  constructor
  · intro hskips tried c d rest hsplit hrefused
    have hreached := hskips.reached tried c (d :: rest) hsplit hrefused
    -- an unusable candidate would be refused on the histories that came
    have hnext : Unusable f composed h₀ c → ∃ exc,
        (fitCandidate f composed c).run h₀ = .error exc h₀ ∧
          exc.cls = .contextOverflowError := by
      intro hunusable
      have hsplit' : candidates = tried ++ c :: ([] ++ d :: rest) := hsplit
      have habsent := (hskips.considered hsplit' hunusable h₀).mpr (by rwa [List.append_nil])
      obtain ⟨h₁, hbefore, hc⟩ := reached_append_iff.mp habsent
      obtain rfl := reached_unique hbefore hreached
      obtain ⟨h₂, exc, hrun, hcls, hrest⟩ := reached_cons_iff.mp hc
      obtain rfl := reached_nil_iff.mp hrest
      exact ⟨exc, hrun, hcls⟩
    cases hbudget : budgetFor f c.provider c.model (some c.maxTokens) with
    | error exc =>
      obtain ⟨exc', hrun, hcls⟩ := hnext (.inl ⟨exc, hbudget⟩)
      rw [fitCandidate, fitPrompt_of_misconfigured f composed h₀ hbudget] at hrun
      cases hrun
      rw [budgetFor_error_cls hbudget] at hcls
      cases hcls
    | ok budget =>
      refine ⟨budget, rfl, ?_⟩
      intro hrewrites
      by_contra hrefuses
      obtain ⟨exc, hrun, hcls⟩ := hnext (.inr ⟨budget, hbudget, hrefuses⟩)
      obtain ⟨budget', hbudget', -, hafter⟩ := fitCandidate_refused hrun hcls
      obtain rfl : budget' = budget := Except.ok.inj (hbudget'.symm.trans hbudget)
      exact (historiesAfter_eq_iff _ _ _ _ _).mp hafter.symm hrewrites
  · exact SkipsCleanly.skipsUnusable

end Pipeline

/-! ## The loop of the chain -/

section Chain

variable (config : LLMServiceConfig) (m : ContextWindowManager) (prompt : TrimmedPrompt)

/-- The entry's context budget cannot be resolved, or the prompt is over it and
cannot be trimmed to it. -/
def UnusableEntry (entryName : String) : Prop :=
  let c := ChainFit.entryCandidate config entryName
  (∃ exc, ChainFit.entryBudget config m c = .error exc) ∨
    ∃ budget, ChainFit.entryBudget config m c = .ok budget ∧
      budget.inputBudget < promptSize m c prompt.messages ∧
      ∀ q, ChainFit.trimAgain m c budget.inputBudget prompt ≠ .ok q

/-- `chain'` is `chain` without its entry `e` at position `n`. -/
structure LeavesOut (chain chain' : ProviderChain) (n : Nat) (e : ChainEntry) : Prop where
  entry : chain.entries[n]? = some e
  entries : chain'.entries = chain.entries.eraseIdx n
  idleTimeoutS : chain'.idleTimeoutS = chain.idleTimeoutS
  fitter : chain'.fitter = chain.fitter

/-- The turn, for a chain without the entry at position `n`. -/
def turnWithout (t : Turn) (n : Nat) : Turn :=
  { t with adapter := fun j => t.adapter (if j < n then j else j + 1) }

/-- The same texts for the consumer, completed or not. -/
structure SameAnswer (r r' : ChainRun) : Prop where
  texts : r.tokens.map Prod.snd = r'.tokens.map Prod.snd
  completed : r.outcome = .returned ↔ r'.outcome = .returned

/-- An unusable entry of a chain that fits its prompts makes no difference to
the others, whatever the breakers, the deadlines and the adapters do. -/
structure ChainSkipsUnusable (entries : List String) : Prop where
  /-- The loop comes to a later entry `d` at the same time as without `e`. -/
  considered : ∀ {chain chain' : ProviderChain} {n e t},
    chain.entries.map (·.name) = entries → chain.fitter = some (buildChainFitter config m) →
    LeavesOut chain chain' n e → t.prompt = prompt → UnusableEntry config m prompt e.name →
    ∀ k d now, n ≤ k →
      (chain.Reaches t (k + 1) d now ↔ chain'.Reaches (turnWithout t n) k d now)
  answer : ∀ {chain chain' : ProviderChain} {n e t},
    chain.entries.map (·.name) = entries → chain.fitter = some (buildChainFitter config m) →
    LeavesOut chain chain' n e → t.prompt = prompt → UnusableEntry config m prompt e.name →
    SameAnswer (chain.generateStream t) (chain'.generateStream (turnWithout t n))

/-- The budget of every entry that is followed by another resolves. -/
def BudgetsResolve (entries : List String) : Prop :=
  ∀ i entryName, entries[i]? = some entryName → i + 1 < entries.length →
    ∃ budget, ChainFit.entryBudget config m (ChainFit.entryCandidate config entryName) = .ok budget

variable {config m prompt}

theorem LeavesOut.split {chain chain' : ProviderChain} {n : Nat} {e : ChainEntry}
    (hout : LeavesOut chain chain' n e) :
    ∃ before rest, chain.entries = before ++ e :: rest ∧ chain'.entries = before ++ rest ∧
      n = before.length := by
  obtain ⟨hlt, he⟩ := List.getElem?_eq_some_iff.mp hout.entry
  refine ⟨chain.entries.take n, chain.entries.drop (n + 1), ?_, ?_, ?_⟩
  · rw [← he, ← List.drop_eq_getElem_cons hlt, List.take_append_drop]
  · rw [hout.entries, List.eraseIdx_eq_take_drop_succ]
  · rw [List.length_take]
    omega

theorem entryBudget_error_cls {c : Candidate} {exc : Exc}
    (h : ChainFit.entryBudget config m c = .error exc) : exc.cls = .contextBudgetError := by
  unfold ChainFit.entryBudget at h
  exact BudgetPolicy.resolve_error_cls h

theorem checkSize_error_cls {c : Candidate} {inputBudget : Nat} {last : TrimmedPrompt × Nat}
    {exc : Exc} (h : ChainFit.checkSize c inputBudget last = .error exc) :
    exc.cls = .contextOverflowError := by
  simp only [ChainFit.checkSize] at h
  by_cases hover : inputBudget < last.2
  · rw [if_pos hover] at h
    cases h
    rfl
  · rw [if_neg hover] at h
    cases h

theorem retryGap_error_cls {c : Candidate} {inputBudget : Nat} {composed : ComposedPrompt}
    {first : TrimmedPrompt × Nat} {exc : Exc}
    (h : ChainFit.retryGap m c inputBudget composed first = .error exc) :
    exc.cls = .contextOverflowError := by
  simp only [ChainFit.retryGap] at h
  by_cases hover : inputBudget < first.2
  · rw [if_pos hover] at h
    exact manageAt_error_cls h
  · rw [if_neg hover] at h
    cases h

theorem trimAgain_error_cls {c : Candidate} {inputBudget : Nat} {exc : Exc}
    (h : ChainFit.trimAgain m c inputBudget prompt = .error exc) :
    exc.cls = .contextOverflowError := by
  simp only [ChainFit.trimAgain] at h
  cases hfirst : manageAt m (ChainFit.composedAgain prompt) c.provider c.model (some c.maxTokens)
      inputBudget with
  | error exc' =>
    rw [hfirst] at h
    cases h
    exact manageAt_error_cls hfirst
  | ok first =>
    simp only [hfirst, Bind.bind, Except.bind] at h
    cases hlast : ChainFit.retryGap m c inputBudget (ChainFit.composedAgain prompt) first with
    | error exc' =>
      rw [hlast] at h
      cases h
      exact retryGap_error_cls hlast
    | ok last =>
      rw [hlast] at h
      exact checkSize_error_cls h

/-- What the fitter raises for an unusable entry. -/
theorem UnusableEntry.raises {entryName : String}
    (hunusable : UnusableEntry config m prompt entryName) :
    ∃ exc, buildChainFitter config m prompt entryName = .error exc ∧
      ((∃ budget, ChainFit.entryBudget config m (ChainFit.entryCandidate config entryName)
        = .ok budget) → exc.cls = .contextOverflowError) := by
  rcases hunusable with ⟨exc, herror⟩ | ⟨budget, hbudget, hover, hnone⟩
  · refine ⟨exc, ?_, ?_⟩
    · simp only [buildChainFitter, herror]
      rfl
    · intro hbudget
      obtain ⟨budget, hbudget⟩ := hbudget
      rw [hbudget] at herror
      cases herror
  · cases htrim : ChainFit.trimAgain m (ChainFit.entryCandidate config entryName)
        budget.inputBudget prompt with
    | ok q => exact absurd htrim (hnone q)
    | error exc =>
      refine ⟨exc, ?_, fun _ => trimAgain_error_cls htrim⟩
      have hn : ¬ m.tokenCounter.countMessages prompt.messages
          (ChainFit.entryCandidate config entryName).provider ≤ budget.inputBudget := by
        simp only [promptSize] at hover
        omega
      simp only [buildChainFitter, hbudget, Bind.bind, Except.bind, if_neg hn, htrim]

section Entry

variable {idle : Option Seconds} {adapter : Adapter} {params : Params} {e : ChainEntry}
  {now now' : Seconds}

/-- The loop goes on at once from an unusable entry whose budget resolves. -/
theorem UnusableEntry.noAnswer_iff (hunusable : UnusableEntry config m prompt e.name)
    (hbudget : ∃ budget, ChainFit.entryBudget config m (ChainFit.entryCandidate config e.name)
      = .ok budget) :
    NoAnswer (some (buildChainFitter config m)) idle adapter prompt params e now now' ↔
      now' = now := by
  obtain ⟨exc, hraises, hcls⟩ := hunusable.raises
  constructor
  · intro h
    cases h with
    | breakerOpen ha => rfl
    | doesNotFit ha hf hp hc => rfl
    | failedEarly ha hf ht ho =>
      obtain ⟨q, hq, -⟩ := hf
      rw [hraises] at hq
      cases hq
  · intro heq
    subst heq
    by_cases ha : e.Admits now'
    · exact .doesNotFit ha rfl hraises (hcls hbudget)
    · exact .breakerOpen ha

/-- The loop does not go on from an entry whose budget does not resolve. -/
theorem not_noAnswer_of_misconfigured {exc : Exc} (hbreaker : e.breaker = none)
    (herror : ChainFit.entryBudget config m (ChainFit.entryCandidate config e.name)
      = .error exc) :
    ¬ NoAnswer (some (buildChainFitter config m)) idle adapter prompt params e now now' := by
  have hraises : buildChainFitter config m prompt e.name = .error exc := by
    simp only [buildChainFitter, herror]
    rfl
  intro hno
  cases hno with
  | breakerOpen ha => simp [ChainEntry.Admits, hbreaker] at ha
  | doesNotFit ha hf hp hc =>
    obtain rfl := Option.some.inj hf
    rw [hraises] at hp
    cases hp
    rw [entryBudget_error_cls herror] at hc
    cases hc
  | failedEarly ha hf ht ho =>
    obtain ⟨q, hq, -⟩ := hf
    rw [hraises] at hq
    cases hq

variable (idle adapter params now) in
/-- An unusable entry yields nothing. -/
theorem UnusableEntry.attempt_tokens (hunusable : UnusableEntry config m prompt e.name) :
    let a := e.attempt (some (buildChainFitter config m)) idle adapter prompt params now
    a.tokens = [] ∧ a.verdict ≠ .leave .returned := by
  intro a
  obtain ⟨exc, hraises, -⟩ := hunusable.raises
  rcases e.attempt_cases (some (buildChainFitter config m)) idle adapter prompt params now with
    ⟨-, h⟩ | ⟨-, fit, exc', hf, -, h⟩ | ⟨-, messages, hfits, -⟩
  · simp [a, h]
  · simp only [a, h]
    split <;> simp
  · obtain ⟨q, hq, -⟩ := hfits
    rw [hraises] at hq
    cases hq

end Entry

section Answer

variable {fitter : Option Fitter} {idle : Option Seconds} {t t' : Turn}

/-- Loops that go on alike behind the same entries give the same answer. -/
theorem sameAnswer_append {before es es' : List ChainEntry} {idx idx' : Nat} {now : Seconds}
    {fs fs' : List (String × String)} (hprompt : t'.prompt = t.prompt)
    (hparams : t'.params = t.params)
    (hadapter : ∀ j < before.length, t'.adapter (idx' + j) = t.adapter (idx + j))
    (hrest : ∀ now fs fs',
      SameAnswer (generateStreamFrom fitter idle t es (idx + before.length) now fs)
        (generateStreamFrom fitter idle t' es' (idx' + before.length) now fs')) :
    SameAnswer (generateStreamFrom fitter idle t (before ++ es) idx now fs)
      (generateStreamFrom fitter idle t' (before ++ es') idx' now fs') := by
  induction before generalizing idx idx' now fs fs' with
  | nil => exact hrest now fs fs'
  | cons e before ih =>
    have hhead := hadapter 0 (by simp)
    rw [Nat.add_zero, Nat.add_zero] at hhead
    simp only [List.cons_append, generateStreamFrom, hhead, hprompt, hparams]
    cases (e.attempt fitter idle (t.adapter idx) t.prompt t.params now).verdict with
    | leave outcome =>
      constructor
      · simp
      · rfl
    | next reason =>
      have htail : ∀ j < before.length, t'.adapter (idx' + 1 + j) = t.adapter (idx + 1 + j) := by
        intro j hj
        have hj' := hadapter (j + 1) (by simpa using hj)
        rwa [show idx' + 1 + j = idx' + (j + 1) by omega,
          show idx + 1 + j = idx + (j + 1) by omega]
      have hsame : ∀ now fs fs', SameAnswer
          (generateStreamFrom fitter idle t (before ++ es) (idx + 1) now fs)
          (generateStreamFrom fitter idle t' (before ++ es') (idx' + 1) now fs') := by
        intro now fs fs'
        apply ih htail
        intro now fs fs'
        have hnext := hrest now fs fs'
        rwa [List.length_cons, show idx + (before.length + 1) = idx + 1 + before.length by omega,
          show idx' + (before.length + 1) = idx' + 1 + before.length by omega] at hnext
      constructor
      · exact (hsame _ _ _).texts
      · exact (hsame _ _ _).completed

theorem sameAnswer_congr {es : List ChainEntry} {idx idx' : Nat} {now : Seconds}
    {fs fs' : List (String × String)} (hprompt : t'.prompt = t.prompt)
    (hparams : t'.params = t.params)
    (hadapter : ∀ j < es.length, t'.adapter (idx' + j) = t.adapter (idx + j)) :
    SameAnswer (generateStreamFrom fitter idle t es idx now fs)
      (generateStreamFrom fitter idle t' es idx' now fs') := by
  rw [← List.append_nil es]
  apply sameAnswer_append hprompt hparams hadapter
  intro now fs fs'
  constructor
  · rfl
  · simp [generateStreamFrom]

end Answer

theorem turnWithout_adapter_before (t : Turn) {n j : Nat} (hj : j < n) :
    (turnWithout t n).adapter j = t.adapter j := by
  simp only [turnWithout, if_pos hj]

theorem turnWithout_adapter_behind (t : Turn) (n j : Nat) :
    (turnWithout t n).adapter (n + j) = t.adapter (n + 1 + j) := by
  show t.adapter (if n + j < n then n + j else n + j + 1) = t.adapter (n + 1 + j)
  rw [if_neg (by omega), show n + j + 1 = n + 1 + j by omega]

/-- The loop comes to what stands behind an unusable entry as if it were absent. -/
theorem BudgetsResolve.walk_iff {before rest : List ChainEntry} {e : ChainEntry}
    {idle : Option Seconds} {t : Turn} {j : Nat} {now : Seconds}
    (hunusable : UnusableEntry config m t.prompt e.name)
    (hbudget : ∃ budget, ChainFit.entryBudget config m (ChainFit.entryCandidate config e.name)
      = .ok budget) :
    Walk (some (buildChainFitter config m)) idle t (before ++ e :: rest) 0 t.now
        (before.length + (j + 1)) now ↔
      Walk (some (buildChainFitter config m)) idle (turnWithout t before.length)
        (before ++ rest) 0 t.now (before.length + j) now := by
  rw [walk_append_iff, walk_append_iff]
  apply exists_congr
  intro now₁
  have hbefore : ∀ i < before.length,
      (turnWithout t before.length).adapter (0 + i) = t.adapter (0 + i) := by
    intro i hi
    rw [Nat.zero_add]
    exact turnWithout_adapter_before t hi
  have hbehind : ∀ i, (turnWithout t before.length).adapter (0 + before.length + i)
      = t.adapter (0 + before.length + 1 + i) := by
    intro i
    rw [Nat.zero_add]
    exact turnWithout_adapter_behind t _ _
  simp only [walk_cons_iff, hunusable.noAnswer_iff hbudget, exists_eq_left]
  constructor
  · intro hboth
    obtain ⟨hfirst, hrest⟩ := hboth
    exact ⟨hfirst.congr rfl rfl hbefore, hrest.congr rfl rfl fun i _ => hbehind i⟩
  · intro hboth
    obtain ⟨hfirst, hrest⟩ := hboth
    exact ⟨hfirst.congr rfl rfl fun i hi => (hbefore i hi).symm,
      hrest.congr rfl rfl fun i _ => (hbehind i).symm⟩

/-- The answer of a chain whose last entry, or one with a budget, is unusable. -/
theorem sameAnswer_of_unusable {before rest : List ChainEntry} {e : ChainEntry}
    {idle : Option Seconds} {t : Turn} (hunusable : UnusableEntry config m t.prompt e.name)
    (hbudget : rest ≠ [] → ∃ budget,
      ChainFit.entryBudget config m (ChainFit.entryCandidate config e.name) = .ok budget) :
    SameAnswer
      (generateStreamFrom (some (buildChainFitter config m)) idle t (before ++ e :: rest) 0
        t.now [])
      (generateStreamFrom (some (buildChainFitter config m)) idle (turnWithout t before.length)
        (before ++ rest) 0 t.now []) := by
  apply sameAnswer_append
  · rfl
  · rfl
  · intro j hj
    rw [Nat.zero_add]
    exact turnWithout_adapter_before t hj
  · intro now fs fs'
    rw [Nat.zero_add]
    simp only [generateStreamFrom]
    cases rest with
    | nil =>
      obtain ⟨htokens, hreturned⟩ :=
        hunusable.attempt_tokens idle (t.adapter before.length) t.params now
      cases hv : (e.attempt (some (buildChainFitter config m)) idle (t.adapter before.length)
          t.prompt t.params now).verdict with
      | leave outcome =>
        rw [hv] at hreturned
        constructor
        · simp [htokens, generateStreamFrom]
        · simpa [generateStreamFrom] using hreturned
      | next reason =>
        constructor
        · simp [generateStreamFrom]
        · simp [generateStreamFrom]
    | cons d rest =>
      have hno : NoAnswer (some (buildChainFitter config m)) idle (t.adapter before.length)
          t.prompt t.params e now now := (hunusable.noAnswer_iff (hbudget (by simp))).mpr rfl
      obtain ⟨⟨reason, hv⟩, hnow⟩ := (e.attempt_next_iff now now).mpr hno
      have hsame : ∀ fs, SameAnswer
          (generateStreamFrom (some (buildChainFitter config m)) idle t (d :: rest)
            (before.length + 1) now fs)
          (generateStreamFrom (some (buildChainFitter config m)) idle
            (turnWithout t before.length) (d :: rest) before.length now fs') :=
        fun fs => sameAnswer_congr rfl rfl fun j _ => turnWithout_adapter_behind t _ j
      simp only [hv, hnow]
      constructor
      · exact (hsame _).texts
      · exact (hsame _).completed

/-- Where an entry whose budget does not resolve is followed by another, a chain
whose breakers are open up to it does not come to the other one. -/
theorem ChainSkipsUnusable.budgetsResolve {entries : List String}
    (hskips : ChainSkipsUnusable config m prompt entries) : BudgetsResolve config m entries := by
  intro i entryName hname hlt
  cases herror : ChainFit.entryBudget config m (ChainFit.entryCandidate config entryName) with
  | ok budget => exact ⟨budget, rfl⟩
  | error exc =>
    exfalso
    -- a chain whose breakers are open up to the entry comes to the next one without it
    have hne : entries ≠ [] := List.ne_nil_of_length_pos (by omega)
    let chain := reachingChain (buildChainFitter config m) entries i hne
    let t : Turn := { prompt, params := {}, now := 0, adapter := fun _ _ _ => { ending := .hang } }
    have hentry : ∀ j name, entries[j]? = some name →
        chain.entries[j]? = some (skippedBefore i j name) := by
      intro j name hj
      simp [chain, reachingChain, hj]
    have hlength : chain.entries.length = entries.length := by simp [chain, reachingChain]
    let chain' : ProviderChain :=
      { chain with
        entries := chain.entries.eraseIdx i
        entries_ne := by
          apply List.ne_nil_of_length_pos
          rw [List.length_eraseIdx_of_lt (by omega)]
          omega }
    have hout : LeavesOut chain chain' i (skippedBefore i i entryName) :=
      { entry := hentry i entryName hname, entries := rfl, idleTimeoutS := rfl, fitter := rfl }
    have hnext := hentry (i + 1) entries[i + 1] (List.getElem?_eq_getElem hlt)
    have hwithout : chain'.Reaches (turnWithout t i) i (skippedBefore i (i + 1) entries[i + 1]) 0 := by
      constructor
      · show (chain.entries.eraseIdx i)[i]? = _
        rw [List.getElem?_eraseIdx_of_ge (by omega), hnext]
      · apply walk_of_breakersOpen
        intro j hj
        refine ⟨skippedBefore i j entries[j], ?_, ?_⟩
        · show (chain.entries.eraseIdx i)[j]? = _
          rw [List.getElem?_eraseIdx_of_lt hj]
          exact hentry j entries[j] (List.getElem?_eq_getElem (by omega))
        · simp [ChainEntry.Admits, skippedBefore, hj, CircuitBreaker.isOpen, turnWithout, t]
    have hreaches := (hskips.considered (reachingChain_names _ _ _ hne) rfl hout rfl
      (.inl ⟨exc, herror⟩) i _ 0 (Nat.le_refl i)).mpr hwithout
    obtain ⟨e, now₁, now₂, he, -, hno⟩ := hreaches.2.passed (Nat.lt_succ_self i)
    rw [hentry i entryName hname] at he
    obtain rfl := Option.some.inj he
    have hbreaker : (skippedBefore i i entryName).breaker = none := by simp [skippedBefore]
    exact not_noAnswer_of_misconfigured hbreaker herror hno

/-- Where the budgets resolve, an unusable entry is passed over in no time. -/
theorem BudgetsResolve.chainSkipsUnusable {entries : List String}
    (hresolve : BudgetsResolve config m entries) :
    ChainSkipsUnusable config m prompt entries := by
  have hbudget : ∀ {before rest : List ChainEntry} {e : ChainEntry},
      (before ++ e :: rest).map (·.name) = entries → rest ≠ [] →
      ∃ budget, ChainFit.entryBudget config m (ChainFit.entryCandidate config e.name)
        = .ok budget := by
    intro before rest e hnames hrest
    subst hnames
    apply hresolve before.length
    · simp
    · have hpos := List.length_pos_iff.mpr hrest
      simp
      omega
  constructor
  · intro chain chain' n e t hnames hfitter hout hprompt hunusable k d now hk
    obtain ⟨before, rest, hchain, hchain', rfl⟩ := hout.split
    obtain ⟨j, rfl⟩ := Nat.exists_eq_add_of_le hk
    simp only [ProviderChain.Reaches, hout.fitter, hout.idleTimeoutS, hfitter, hchain, hchain']
    have hd : (before ++ e :: rest)[before.length + j + 1]? = (before ++ rest)[before.length + j]? := by
      rw [List.getElem?_append_right (by omega), List.getElem?_append_right (by omega)]
      rw [show before.length + j + 1 - before.length = j + 1 by omega,
        show before.length + j - before.length = j by omega, List.getElem?_cons_succ]
    rw [hd]
    apply and_congr_right
    intro hlater
    have hrest : rest ≠ [] := by
      intro hnil
      subst hnil
      simp at hlater
    rw [hchain] at hnames
    subst hprompt
    exact BudgetsResolve.walk_iff hunusable (hbudget hnames hrest)
  · intro chain chain' n e t hnames hfitter hout hprompt hunusable
    obtain ⟨before, rest, hchain, hchain', rfl⟩ := hout.split
    simp only [ProviderChain.generateStream, hout.fitter, hout.idleTimeoutS, hfitter, hchain,
      hchain']
    rw [hchain] at hnames
    subst hprompt
    exact sameAnswer_of_unusable hunusable (hbudget hnames)

/-- Unusable entries make no difference exactly if the budgets of all entries
but the last resolve. -/
theorem chainSkipsUnusable_iff (config : LLMServiceConfig) (m : ContextWindowManager)
    (prompt : TrimmedPrompt) (entries : List String) :
    ChainSkipsUnusable config m prompt entries ↔ BudgetsResolve config m entries :=
  ⟨fun hskips => hskips.budgetsResolve, fun hresolve => hresolve.chainSkipsUnusable⟩

end Chain

/-! ## Both loops -/

section Request

variable (f : Fitting) (composed : ComposedPrompt) (h₀ : Histories) (prompt : TrimmedPrompt)
  (entries : List String)

/-- An unusable provider makes no difference to the others, neither when the
request is prepared nor when the prepared prompt is sent. -/
def UnusableNeverFails : Prop :=
  SkipsUnusable f composed h₀ (providerCandidates f.config entries) ∧
    ChainSkipsUnusable f.config f.manager prompt entries

end Request

/-! ## A tier without room for a budget -/

/-- 2048 of 3000 tokens per minute are set aside for the answer. -/
def tightConfig : LLMServiceConfig := { LLMServiceConfig.declared with groqTpmLimit := 3000 }

def tightFitting : Fitting where
  config := tightConfig
  manager := .ofConfig {} tightConfig
  build := fun _ => .ok (promptOf (.ofConfig {} tightConfig) [])

def shortQuestion : ComposedPrompt :=
  promptOf (.ofConfig {} tightConfig)
    [{  name := "user_query", content := "Hello".toList, priority := 10, tokenCount := 1
        trimmable := false }]

def groqFirst : List String := ["groq:openai/gpt-oss-20b", "gemini"]

end SkippedProviders

end LlmService
