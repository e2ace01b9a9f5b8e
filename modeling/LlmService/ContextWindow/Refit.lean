import LlmService.ContextWindow.Fit

/-!
# What fit_prompt does

The loop that brings a prompt within a measured budget, read off the one
function it calls: `measured t` is the size of the prompt that `manage`
returns for the target `t`, if it returns one. `fit_prompt` lowers its target
by the measured overshoot; as long as the target is not below the sum of the
section counts the prompt is not cut at all, every pass measures the same
size, and the target falls by the same amount.

`fitPrompt_of_budget` then says once what a whole call does: which histories it
leaves behind, and when it returns a prompt.
-/

namespace LlmService.ContextFit

open ContextWindowManager

variable (m : ContextWindowManager) (composed : ComposedPrompt) (provider model : String)
  (maxOutputTokens : Option Int) (inputBudget : Nat)

/-- The measured size of the prompt that `manage` returns for a target. -/
def measured (target : Nat) : Option Nat :=
  (manageAt m composed provider model maxOutputTokens target).toOption.map Prod.snd

/-- `manage` returns a prompt for the target that measures within the budget. -/
def FitsAt (target : Nat) : Prop :=
  ∃ n, measured m composed provider model maxOutputTokens target = some n ∧ n ≤ inputBudget

/-- Starting at a target, and lowering it by each measured overshoot, at most
`passes` more times, `manage` returns a prompt within the budget, having
refused none of the targets before. -/
def FitsWithin : Nat → Nat → Prop
  | 0, target => FitsAt m composed provider model maxOutputTokens inputBudget target
  | passes + 1, target =>
    ∃ n, measured m composed provider model maxOutputTokens target = some n ∧
      (n ≤ inputBudget ∨ FitsWithin passes (lowered inputBudget target n))

/-- The section counts are within the target and the model's own budget. -/
def Untouched (target : Nat) : Prop :=
  sectionTokens composed.sections ≤ min target (m.modelBudget model maxOutputTokens)

instance (target : Nat) : Decidable (Untouched m composed model maxOutputTokens target) :=
  inferInstanceAs (Decidable (_ ≤ _))

/-- The measured size of the prompt with all its sections. -/
def wholeSize : Nat :=
  m.tokenCounter.countMessages
    (Compose.composeMessages composed.sections m.historyAsMessages) provider

/-- The target after some passes over the untouched prompt. -/
def loweredBy (target passes : Nat) : Nat :=
  max 1 (target - passes * (wholeSize m composed provider - inputBudget))

/-- Some target on the way down is below the section counts, and from the
first such target on the trimmed prompts come within the budget in the passes
that are left. -/
def TrimsInTime (passes target : Nat) : Prop :=
  ∃ j ≤ passes,
    (∀ i < j, Untouched m composed model maxOutputTokens
      (loweredBy m composed provider inputBudget target i)) ∧
    ¬ Untouched m composed model maxOutputTokens
      (loweredBy m composed provider inputBudget target j) ∧
    FitsWithin m composed provider model maxOutputTokens inputBudget (passes - j)
      (loweredBy m composed provider inputBudget target j)

/-- For every target between the two, `manage` returns a prompt, which measures at most `gap` tokens
more than its target. -/
def WithinGap (gap low high : Nat) : Prop :=
  ∀ k < high + 1 - low, ∃ n ∈ measured m composed provider model maxOutputTokens (low + k),
    n ≤ low + k + gap

instance (gap low high : Nat) :
    Decidable (WithinGap m composed provider model maxOutputTokens gap low high) :=
  inferInstanceAs (Decidable (∀ k < high + 1 - low, ∃ n ∈ measured .., _))

/-- Trimming starts after `j` passes over the untouched prompt. -/
def StartsAfter (j : Nat) : Prop :=
  (∀ i < j, Untouched m composed model maxOutputTokens
    (loweredBy m composed provider inputBudget inputBudget i)) ∧
  ¬ Untouched m composed model maxOutputTokens
    (loweredBy m composed provider inputBudget inputBudget j)

instance (j : Nat) :
    Decidable (StartsAfter m composed provider model maxOutputTokens inputBudget j) :=
  inferInstanceAs (Decidable ((∀ i < j, _) ∧ _))

/-- Trimming starts after `j` passes. What it leaves, for the targets from there down to `low`, measures
at most `gap` tokens more than the target, and the first excess, or the overshoot before it, lacks no more
of that than there are passes left. -/
structure SettlesFrom (j gap low : Nat) : Prop where
  starts : StartsAfter m composed provider model maxOutputTokens inputBudget j
  within : WithinGap m composed provider model maxOutputTokens gap low
    (loweredBy m composed provider inputBudget inputBudget j)
  pos : 0 < low
  room : low + gap ≤ inputBudget ∧ low ≤ loweredBy m composed provider inputBudget inputBudget j
  passes : j ≤ refitPasses ∧
    ∀ n ∈ measured m composed provider model maxOutputTokens
        (loweredBy m composed provider inputBudget inputBudget j),
      gap < refitPasses - j + max (n - loweredBy m composed provider inputBudget inputBudget j)
        (inputBudget - loweredBy m composed provider inputBudget inputBudget j + 1)

variable {m composed provider model maxOutputTokens inputBudget}

/-! ## The loop of fit_prompt -/

theorem measured_of_ok {target : Nat} {fitted : TrimmedPrompt × Nat}
    (h : manageAt m composed provider model maxOutputTokens target = .ok fitted) :
    measured m composed provider model maxOutputTokens target = some fitted.2 := by
  rw [measured, h]
  rfl

theorem measured_of_error {target : Nat} {exc : Exc}
    (h : manageAt m composed provider model maxOutputTokens target = .error exc) :
    measured m composed provider model maxOutputTokens target = none := by
  rw [measured, h]
  rfl

theorem manageAt_ok {target : Nat} {fitted : TrimmedPrompt × Nat}
    (h : manageAt m composed provider model maxOutputTokens target = .ok fitted) :
    m.manage composed model (some target) maxOutputTokens = .ok fitted.1 ∧
      fitted.2 = m.tokenCounter.countMessages fitted.1.messages provider := by
  simp only [manageAt] at h
  cases hmanage : m.manage composed model (some target) maxOutputTokens with
  | error exc =>
    rw [hmanage] at h
    cases h
  | ok trimmed =>
    rw [hmanage] at h
    cases h
    exact ⟨rfl, rfl⟩

theorem manageAt_error_cls {target : Nat} {exc : Exc}
    (h : manageAt m composed provider model maxOutputTokens target = .error exc) :
    exc.cls = .contextOverflowError := by
  simp only [manageAt] at h
  cases hmanage : m.manage composed model (some target) maxOutputTokens with
  | error exc' =>
    rw [hmanage] at h
    cases h
    exact manage_error_cls hmanage
  | ok trimmed =>
    rw [hmanage] at h
    cases h

variable (m composed provider model maxOutputTokens inputBudget) in
/-- What the loop returns is within the budget exactly if its passes reach it. -/
theorem refit_fits_iff (passes target : Nat) :
    (∃ fitted, (manageAt m composed provider model maxOutputTokens target >>=
        refit m composed provider model maxOutputTokens inputBudget passes target)
          = .ok fitted ∧ fitted.2 ≤ inputBudget) ↔
      FitsWithin m composed provider model maxOutputTokens inputBudget passes target := by
  induction passes generalizing target with
  | zero =>
    cases h : manageAt m composed provider model maxOutputTokens target with
    | error exc =>
      simp [FitsWithin, FitsAt, measured_of_error h, Bind.bind, Except.bind]
    | ok fitted =>
      simp [FitsWithin, FitsAt, measured_of_ok h, Bind.bind, Except.bind, refit]
  | succ passes ih =>
    cases h : manageAt m composed provider model maxOutputTokens target with
    | error exc =>
      simp [FitsWithin, measured_of_error h, Bind.bind, Except.bind]
    | ok fitted =>
      obtain ⟨trimmed, n⟩ := fitted
      have hmeasured := measured_of_ok h
      by_cases hn : n ≤ inputBudget
      · simp [FitsWithin, hmeasured, Bind.bind, Except.bind, refit, hn]
      · have hnext := ih (lowered inputBudget target n)
        simp only [Bind.bind, Except.bind, refit, FitsWithin, hmeasured,
          Option.some.injEq, exists_eq_left', hn, false_or] at hnext ⊢
        exact hnext

/-- An error of the loop is an overflow. -/
theorem refit_error_cls {passes target : Nat} {fitted : TrimmedPrompt × Nat} {exc : Exc}
    (h : refit m composed provider model maxOutputTokens inputBudget passes target fitted
      = .error exc) : exc.cls = .contextOverflowError := by
  induction passes generalizing target fitted with
  | zero => cases h
  | succ passes ih =>
    simp only [refit] at h
    by_cases hn : fitted.2 ≤ inputBudget
    · rw [if_pos hn] at h
      cases h
    · rw [if_neg hn] at h
      cases hnext : manageAt m composed provider model maxOutputTokens
          (lowered inputBudget target fitted.2) with
      | error exc' =>
        rw [hnext] at h
        cases h
        exact manageAt_error_cls hnext
      | ok next =>
        rw [hnext] at h
        exact ih h

variable (m composed provider model maxOutputTokens inputBudget) in
/-- Trimming to the budget succeeds exactly if its passes come within it. -/
theorem trimToBudget_ok_iff :
    (∃ fitted, trimToBudget m composed provider model maxOutputTokens inputBudget = .ok fitted) ↔
      FitsWithin m composed provider model maxOutputTokens inputBudget refitPasses
        inputBudget := by
  rw [← refit_fits_iff]
  simp only [trimToBudget]
  cases hfirst : manageAt m composed provider model maxOutputTokens inputBudget with
  | error exc => simp [Bind.bind, Except.bind]
  | ok first =>
    cases hrefit : refit m composed provider model maxOutputTokens inputBudget refitPasses
        inputBudget first with
    | error exc => simp [Bind.bind, Except.bind, hrefit]
    | ok fitted =>
      by_cases hover : inputBudget < fitted.2
      · have hn : ¬ fitted.2 ≤ inputBudget := by omega
        simp [Bind.bind, Except.bind, hrefit, hover, hn, throw, throwThe,
          MonadExceptOf.throw]
      · have hn : fitted.2 ≤ inputBudget := by omega
        simp [Bind.bind, Except.bind, hrefit, hover, hn, pure, Except.pure]

/-- Whatever fails in trimming is an overflow. -/
theorem trimToBudget_error_cls {exc : Exc}
    (h : trimToBudget m composed provider model maxOutputTokens inputBudget = .error exc) :
    exc.cls = .contextOverflowError := by
  simp only [trimToBudget] at h
  cases hfirst : manageAt m composed provider model maxOutputTokens inputBudget with
  | error exc' =>
    rw [hfirst] at h
    cases h
    exact manageAt_error_cls hfirst
  | ok first =>
    cases hrefit : refit m composed provider model maxOutputTokens inputBudget refitPasses
        inputBudget first with
    | error exc' =>
      simp only [hfirst, hrefit, Bind.bind, Except.bind] at h
      cases h
      exact refit_error_cls hrefit
    | ok fitted =>
      simp only [hfirst, hrefit, Bind.bind, Except.bind] at h
      by_cases hover : inputBudget < fitted.2
      · rw [if_pos hover] at h
        cases h
        rfl
      · rw [if_neg hover] at h
        cases h

/-! ## While the prompt is untouched -/

variable (provider) in
theorem measured_of_untouched {target : Nat} (hpos : 0 < target)
    (h : Untouched m composed model maxOutputTokens target) :
    measured m composed provider model maxOutputTokens target
      = some (wholeSize m composed provider) := by
  have hmanage := manage_of_le m composed model (some target) maxOutputTokens (by
    rw [effectiveBudget_some hpos]
    exact h)
  simp only [measured, manageAt, hmanage]
  rfl

/-- A prompt within the budget, by its counts and by its size, is left as it is. -/
theorem trimToBudget_of_untouched (hpos : 0 < inputBudget)
    (h : Untouched m composed model maxOutputTokens inputBudget)
    (hwhole : wholeSize m composed provider ≤ inputBudget) :
    ∃ trimmed, trimToBudget m composed provider model maxOutputTokens inputBudget
        = .ok (trimmed, wholeSize m composed provider) ∧
      trimmed.messages = Compose.composeMessages composed.sections m.historyAsMessages := by
  have hmanage := manage_of_le m composed model (some inputBudget) maxOutputTokens (by
    rw [effectiveBudget_some hpos]
    exact h)
  have hfirst : ∃ trimmed, manageAt m composed provider model maxOutputTokens inputBudget
        = .ok (trimmed, wholeSize m composed provider) ∧
      trimmed.messages = Compose.composeMessages composed.sections m.historyAsMessages := by
    rw [manageAt, hmanage]
    exact ⟨_, rfl, rfl⟩
  obtain ⟨trimmed, hfirst, hmessages⟩ := hfirst
  have hrefit : refit m composed provider model maxOutputTokens inputBudget refitPasses inputBudget
      (trimmed, wholeSize m composed provider) = .ok (trimmed, wholeSize m composed provider) := by
    rw [refitPasses, refit, if_pos hwhole]
  refine ⟨trimmed, ?_, hmessages⟩
  simp only [trimToBudget, hfirst, hrefit, Bind.bind, Except.bind, if_neg (Nat.not_lt.mpr hwhole)]
  rfl

theorem loweredBy_zero {target : Nat} (hpos : 0 < target) :
    loweredBy m composed provider inputBudget target 0 = target := by
  simp only [loweredBy]
  omega

theorem loweredBy_succ (target i : Nat) :
    loweredBy m composed provider inputBudget
        (lowered inputBudget target (wholeSize m composed provider)) i
      = loweredBy m composed provider inputBudget target (i + 1) := by
  simp only [loweredBy, lowered, Nat.succ_mul]
  omega

/-- A pass over the untouched prompt only uses itself up. -/
theorem fitsWithin_of_untouched {passes target : Nat} (hpos : 0 < target)
    (hover : inputBudget < wholeSize m composed provider)
    (h : Untouched m composed model maxOutputTokens target) :
    FitsWithin m composed provider model maxOutputTokens inputBudget passes target ↔
      ∃ rest, passes = rest + 1 ∧
        FitsWithin m composed provider model maxOutputTokens inputBudget rest
          (lowered inputBudget target (wholeSize m composed provider)) := by
  have hmeasured := measured_of_untouched provider hpos h
  have hn : ¬ wholeSize m composed provider ≤ inputBudget := by omega
  cases passes with
  | zero => simp [FitsWithin, FitsAt, hmeasured, hn]
  | succ passes => simp [FitsWithin, hmeasured, hn]

theorem lowered_pos (target final : Nat) : 0 < lowered inputBudget target final := by
  simp only [lowered]
  omega

/-- Where the first target is below the section counts, trimming starts at once. -/
theorem fitsWithin_of_cut {passes target : Nat} (hpos : 0 < target)
    (hcut : ¬ Untouched m composed model maxOutputTokens target) :
    FitsWithin m composed provider model maxOutputTokens inputBudget passes target ↔
      TrimsInTime m composed provider model maxOutputTokens inputBudget passes target := by
  constructor
  · intro hfits
    refine ⟨0, Nat.zero_le _, by simp, ?_, ?_⟩
    · rwa [loweredBy_zero hpos]
    · rwa [loweredBy_zero hpos]
  · intro htrims
    obtain ⟨j, hj, hbefore, -, hfits⟩ := htrims
    cases j with
    | zero => rwa [loweredBy_zero hpos] at hfits
    | succ j =>
      have hfirst := hbefore 0 (by omega)
      rw [loweredBy_zero hpos] at hfirst
      exact absurd hfirst hcut

/-- A prompt over its budget is brought within it exactly if trimming starts
early enough. The induction is on the passes: one that leaves the prompt
untouched lowers the target by the overshoot of the whole prompt. -/
theorem fitsWithin_iff_trimsInTime (hover : inputBudget < wholeSize m composed provider)
    {passes target : Nat} (hpos : 0 < target) :
    FitsWithin m composed provider model maxOutputTokens inputBudget passes target ↔
      TrimsInTime m composed provider model maxOutputTokens inputBudget passes target := by
  induction passes generalizing target with
  | zero =>
    by_cases huntouched : Untouched m composed model maxOutputTokens target
    · rw [fitsWithin_of_untouched hpos hover huntouched]
      constructor
      · intro hrest
        obtain ⟨rest, hrest, -⟩ := hrest
        omega
      · intro htrims
        obtain ⟨j, hj, -, hcut, -⟩ := htrims
        obtain rfl : j = 0 := by omega
        rw [loweredBy_zero hpos] at hcut
        exact absurd huntouched hcut
    · exact fitsWithin_of_cut hpos huntouched
  | succ passes ih =>
    by_cases huntouched : Untouched m composed model maxOutputTokens target
    -- this pass cuts nothing: the first cut of the rest is one pass later
    · rw [fitsWithin_of_untouched hpos hover huntouched]
      simp only [Nat.add_right_cancel_iff, exists_eq_left']
      rw [ih (lowered_pos _ _)]
      constructor
      · intro htrims
        obtain ⟨j, hj, hbefore, hcut, hfits⟩ := htrims
        refine ⟨j + 1, by omega, ?_, ?_, ?_⟩
        · intro i hi
          cases i with
          | zero => rwa [loweredBy_zero hpos]
          | succ i => simpa only [loweredBy_succ] using hbefore i (by omega)
        · simpa only [loweredBy_succ] using hcut
        · simpa only [loweredBy_succ, Nat.add_sub_add_right] using hfits
      · intro htrims
        obtain ⟨j, hj, hbefore, hcut, hfits⟩ := htrims
        cases j with
        | zero =>
          rw [loweredBy_zero hpos] at hcut
          exact absurd huntouched hcut
        | succ j =>
          refine ⟨j, by omega, ?_, ?_, ?_⟩
          · intro i hi
            simpa only [loweredBy_succ] using hbefore (i + 1) (by omega)
          · simpa only [loweredBy_succ] using hcut
          · simpa only [loweredBy_succ, Nat.add_sub_add_right] using hfits
    · exact fitsWithin_of_cut hpos huntouched

/-- The passes bring a prompt within its budget if it is within it untouched, or
if trimming starts early enough. -/
theorem fitsWithin_iff {passes : Nat} (hpos : 0 < inputBudget) :
    FitsWithin m composed provider model maxOutputTokens inputBudget passes inputBudget ↔
      (Untouched m composed model maxOutputTokens inputBudget
          ∧ wholeSize m composed provider ≤ inputBudget) ∨
        TrimsInTime m composed provider model maxOutputTokens inputBudget passes
          inputBudget := by
  by_cases hover : inputBudget < wholeSize m composed provider
  · rw [fitsWithin_iff_trimsInTime hover hpos]
    have hn : ¬ wholeSize m composed provider ≤ inputBudget := by omega
    simp [hn]
  · have hn : wholeSize m composed provider ≤ inputBudget := by omega
    by_cases huntouched : Untouched m composed model maxOutputTokens inputBudget
    · have hmeasured := measured_of_untouched provider hpos huntouched
      have hfits : FitsWithin m composed provider model maxOutputTokens inputBudget passes
          inputBudget := by
        cases passes with
        | zero => exact ⟨_, hmeasured, hn⟩
        | succ passes => exact ⟨_, hmeasured, .inl hn⟩
      simp [hfits, huntouched, hn]
    · simp only [huntouched, false_and, false_or]
      exact fitsWithin_of_cut hpos huntouched

/-! ## Trimming with a bounded excess -/

theorem WithinGap.at {gap low high target : Nat}
    (h : WithinGap m composed provider model maxOutputTokens gap low high) (hlow : low ≤ target)
    (hhigh : target ≤ high) : ∃ n, measured m composed provider model maxOutputTokens target = some n ∧
      n ≤ target + gap := by
  have hk := h (target - low) (by omega)
  rwa [Nat.add_sub_cancel' hlow] at hk

/-- Every pass that fails measures a larger excess over its target than the one before, so not too many
of them do. The induction is on the passes that are left, and `least` is what the next excess has to be. -/
theorem fitsWithin_of_withinGap {gap low high passes target least : Nat}
    (hgap : WithinGap m composed provider model maxOutputTokens gap low high) (hpos : 0 < low)
    (hroom : low + gap ≤ inputBudget) (hlow : low ≤ target) (hhigh : target ≤ high)
    (hbudget : target ≤ inputBudget)
    (hleast : ∀ n, measured m composed provider model maxOutputTokens target = some n →
      inputBudget < n → least ≤ n - target)
    (hmany : gap < passes + least) :
    FitsWithin m composed provider model maxOutputTokens inputBudget passes target := by
  obtain ⟨n, hn, hle⟩ := hgap.at hlow hhigh
  have hexcess := hleast n hn
  induction passes generalizing target least n with
  | zero => exact ⟨n, hn, by omega⟩
  | succ passes ih =>
    refine ⟨n, hn, ?_⟩
    by_cases hfits : n ≤ inputBudget
    · exact .inl hfits
    · right
      -- the next target is the budget less this excess
      have hnext : lowered inputBudget target n = inputBudget - (n - target) := by
        rw [lowered]
        omega
      have hlow' : low ≤ inputBudget - (n - target) := by omega
      have hhigh' : inputBudget - (n - target) ≤ high := by omega
      obtain ⟨n', hn', hle'⟩ := hgap.at hlow' hhigh'
      have hgrows : ∀ n', inputBudget < n' → least + 1 ≤ n' - (inputBudget - (n - target)) := by omega
      rw [hnext]
      exact ih hlow' hhigh' (by omega) (fun n' _ => hgrows n') (by omega) n' hn' hle' (hgrows n')

theorem loweredBy_le (target passes : Nat) (hpos : 0 < target) :
    loweredBy m composed provider inputBudget target passes ≤ target := by
  rw [loweredBy]
  omega

theorem SettlesFrom.fitsWithin {j gap low : Nat} (hpos : 0 < inputBudget)
    (h : SettlesFrom m composed provider model maxOutputTokens inputBudget j gap low) :
    FitsWithin m composed provider model maxOutputTokens inputBudget refitPasses inputBudget := by
  obtain ⟨hj, hmany⟩ := h.passes
  obtain ⟨hroom, hlow⟩ := h.room
  have hle : loweredBy m composed provider inputBudget inputBudget j ≤ inputBudget :=
    loweredBy_le _ _ hpos
  obtain ⟨n, hn, -⟩ := h.within.at hlow le_rfl
  have hpasses : FitsWithin m composed provider model maxOutputTokens inputBudget (refitPasses - j)
      (loweredBy m composed provider inputBudget inputBudget j) := by
    refine fitsWithin_of_withinGap h.within h.pos hroom hlow le_rfl hle ?_ (hmany n hn)
    intro n' hn' hover
    obtain rfl := Option.some.inj (hn.symm.trans hn')
    omega
  exact (fitsWithin_iff hpos).mpr (.inr ⟨j, hj, h.starts.1, h.starts.2, hpasses⟩)

/-- A prompt that measures more than its budget, while the section counts stay
within every target that the passes reach, is never cut. -/
theorem not_fitsWithin_of_slack {passes target : Nat} (hpos : 0 < target)
    (hover : inputBudget < wholeSize m composed provider)
    (hslack : Untouched m composed model maxOutputTokens
      (loweredBy m composed provider inputBudget target passes)) :
    ¬ FitsWithin m composed provider model maxOutputTokens inputBudget passes target := by
  rw [fitsWithin_iff_trimsInTime hover hpos]
  intro htrims
  obtain ⟨j, hj, -, hcut, -⟩ := htrims
  apply hcut
  -- the targets fall, so the one of an earlier pass is no lower than the last
  have hmul := Nat.mul_le_mul_right (wholeSize m composed provider - inputBudget) hj
  simp only [Untouched, loweredBy] at hslack ⊢
  omega

/-! ## A whole call -/

section Call

variable (f : Fitting) (composed : ComposedPrompt) (provider model : String)
  (maxOutputTokens : Option Int) (inputBudget : Nat) (h : Histories)

/-- Compaction is due, and leaves another history. -/
def Rewrites : Prop :=
  compactionDue f composed provider inputBudget ∧ h.historyOf ≠ [] ∧
    (compaction f composed provider inputBudget h).changed

instance : Decidable (Rewrites f composed provider inputBudget h) :=
  inferInstanceAs (Decidable (_ ∧ _ ∧ _))

/-- The histories after compaction. -/
def historiesAfter : Histories :=
  if Rewrites f composed provider inputBudget h then
    h.setHistory (compaction f composed provider inputBudget h).messages
  else h

/-- The prompt that is trimmed: composed again over the rewritten history, if
the builder does not fail. -/
def promptAfter : ComposedPrompt :=
  if Rewrites f composed provider inputBudget h then
    (f.build (historiesAfter f composed provider inputBudget h)).toOption.getD composed
  else composed

/-- The prompt that compaction hands on comes within the budget. -/
def Accepts : Prop :=
  FitsWithin f.manager (promptAfter f composed provider inputBudget h) provider model
    maxOutputTokens inputBudget refitPasses inputBudget

theorem compactIfDue_run :
    ∃ compacted, (compactIfDue f composed provider inputBudget).run h
        = .ok compacted (historiesAfter f composed provider inputBudget h) ∧
      compacted.composed = promptAfter f composed provider inputBudget h := by
  by_cases hrewrites : Rewrites f composed provider inputBudget h
  · simp only [promptAfter, historiesAfter, if_pos hrewrites]
    obtain ⟨hdue, hhistory, hchanged⟩ := hrewrites
    simp only [compactIfDue, if_pos hdue, run_tryCatch, compactPrompt, EStateM.run_bind,
      EStateM.run_get, if_neg hhistory, hchanged, if_true, EStateM.run_set, run_ofExcept]
    cases f.build (h.setHistory (compaction f composed provider inputBudget h).messages) with
    | ok rebuilt => exact ⟨_, rfl, rfl⟩
    | error exc => exact ⟨_, rfl, rfl⟩
  · simp only [promptAfter, historiesAfter, if_neg hrewrites]
    by_cases hdue : compactionDue f composed provider inputBudget
    · simp only [compactIfDue, if_pos hdue, run_tryCatch, compactPrompt, EStateM.run_bind,
        EStateM.run_get]
      by_cases hhistory : h.historyOf = []
      · rw [if_pos hhistory]
        exact ⟨_, rfl, rfl⟩
      · have hchanged : ¬ (compaction f composed provider inputBudget h).changed :=
          fun hchanged => hrewrites ⟨hdue, hhistory, hchanged⟩
        rw [if_neg hhistory, if_neg hchanged]
        exact ⟨_, rfl, rfl⟩
    · rw [compactIfDue, if_neg hdue]
      exact ⟨_, rfl, rfl⟩

/-- What compaction leaves is condensed from the history it found. -/
theorem historiesAfter_condenses :
    Compaction.Condenses h.historyOf
      (historiesAfter f composed provider inputBudget h).historyOf := by
  by_cases hrewrites : Rewrites f composed provider inputBudget h
  · rw [historiesAfter, if_pos hrewrites, Histories.historyOf_setHistory hrewrites.2.1]
    exact Compaction.compactHistory_condenses _ _ _ _
  · rw [historiesAfter, if_neg hrewrites]
    exact .kept 0

/-- The histories are left as they were exactly if compaction does not rewrite them. -/
theorem historiesAfter_eq_iff :
    historiesAfter f composed provider inputBudget h = h ↔
      ¬ Rewrites f composed provider inputBudget h := by
  by_cases hrewrites : Rewrites f composed provider inputBudget h
  · rw [historiesAfter, if_pos hrewrites]
    simp only [hrewrites, not_true_eq_false, iff_false]
    intro heq
    have hsame := congrArg Histories.historyOf heq
    rw [Histories.historyOf_setHistory hrewrites.2.1] at hsame
    exact (Compaction.changed_iff_ne _ _ _ _).mp hrewrites.2.2 hsame
  · rw [historiesAfter, if_neg hrewrites]
    simp [hrewrites]

variable {provider model maxOutputTokens}

/-- Without a budget `fit_prompt` fails at once. -/
theorem fitPrompt_of_misconfigured {exc : Exc}
    (hbudget : budgetFor f provider model maxOutputTokens = .error exc) :
    (fitPrompt f composed provider model maxOutputTokens).run h = .error exc h := by
  simp only [fitPrompt, EStateM.run_bind, hbudget, run_ofExcept]

/-- With a budget it leaves the histories of its compaction, whether it returns
a prompt or refuses. -/
theorem fitPrompt_of_budget {budget : BudgetPolicy.ContextBudget}
    (hbudget : budgetFor f provider model maxOutputTokens = .ok budget) :
    (Accepts f composed provider model maxOutputTokens budget.inputBudget h ∧
      ∃ fitted, (fitPrompt f composed provider model maxOutputTokens).run h
        = .ok fitted (historiesAfter f composed provider budget.inputBudget h)) ∨
    (¬ Accepts f composed provider model maxOutputTokens budget.inputBudget h ∧
      ∃ exc, exc.cls = .contextOverflowError ∧
        (fitPrompt f composed provider model maxOutputTokens).run h
          = .error exc (historiesAfter f composed provider budget.inputBudget h)) := by
  obtain ⟨compacted, hrun, hcomposed⟩ :=
    compactIfDue_run f composed provider budget.inputBudget h
  have hfits := trimToBudget_ok_iff f.manager compacted.composed provider model
    maxOutputTokens budget.inputBudget
  simp only [fitPrompt, EStateM.run_bind, hbudget, run_ofExcept, hrun, Accepts, ← hcomposed]
  cases htrim : trimToBudget f.manager compacted.composed provider model maxOutputTokens
      budget.inputBudget with
  | ok fitted =>
    left
    exact ⟨hfits.mp ⟨fitted, htrim⟩, _, rfl⟩
  | error exc =>
    right
    refine ⟨?_, exc, trimToBudget_error_cls htrim, rfl⟩
    intro haccepts
    obtain ⟨fitted, hok⟩ := hfits.mpr haccepts
    rw [htrim] at hok
    cases hok

/-- `fit_prompt` returns a prompt exactly for a budget that accepts it. -/
theorem fitPrompt_ok_iff :
    (∃ fitted h', (fitPrompt f composed provider model maxOutputTokens).run h = .ok fitted h') ↔
      ∃ budget, budgetFor f provider model maxOutputTokens = .ok budget ∧
        Accepts f composed provider model maxOutputTokens budget.inputBudget h := by
  cases hbudget : budgetFor f provider model maxOutputTokens with
  | error exc => simp [fitPrompt_of_misconfigured f composed h hbudget]
  | ok budget =>
    rcases fitPrompt_of_budget f composed h hbudget with
      ⟨haccepts, fitted, hrun⟩ | ⟨hrefuses, exc, -, hrun⟩
    · simp [hrun, haccepts]
    · simp [hrun, hrefuses]

/-- An overflow is raised exactly for a budget that does not accept the prompt. -/
theorem fitPrompt_overflow_iff :
    (∃ exc h', (fitPrompt f composed provider model maxOutputTokens).run h = .error exc h' ∧
        exc.cls = .contextOverflowError) ↔
      ∃ budget, budgetFor f provider model maxOutputTokens = .ok budget ∧
        ¬ Accepts f composed provider model maxOutputTokens budget.inputBudget h := by
  cases hbudget : budgetFor f provider model maxOutputTokens with
  | error exc =>
    have hcls := budgetFor_error_cls hbudget
    simp [fitPrompt_of_misconfigured f composed h hbudget, hcls]
  | ok budget =>
    rcases fitPrompt_of_budget f composed h hbudget with
      ⟨haccepts, fitted, hrun⟩ | ⟨hrefuses, exc, hcls, hrun⟩
    · simp [hrun, haccepts]
    · simp [hrun, hrefuses, hcls]

end Call

end LlmService.ContextFit
