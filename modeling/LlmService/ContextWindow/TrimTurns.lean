import LlmService.ContextWindow.TrimmedSection

/-!
# The turns of trimming

The loop takes the cuttable sections in the order of their priorities. Each
turn asks for what the turns before have left over, so when a section is cut
at all, every one of a lower priority has been cut to its floor; counted in
fours of characters it is then at its floor or below.
-/

namespace LlmService

namespace PriorityTrimmer

/-- What the sections before the one at position `idx` can give. -/
def spareBefore (sections : List PromptSection) (idx : Nat) : Nat :=
  (((trimOrder sections).takeWhile fun s => s.2 ≠ idx).map fun s => spare s.1).sum

/-- The section at position `idx` is trimmed, when so many tokens are over. -/
def Turn (sections : List PromptSection) (excess idx : Nat) (s : PromptSection) : Prop :=
  sections[idx]? = some s ∧ s.canBeCut ∧ spareBefore sections idx < excess ∧ 0 < spare s

variable {counter : TokenCounter} {provider : String} {sections : List PromptSection}
  {excess idx : Nat} {s : PromptSection}

/-! ## The order of the turns -/

theorem trimOrder_sorted (sections : List PromptSection) :
    (trimOrder sections).Pairwise fun a b => a.1.priority ≤ b.1.priority := by
  have : Std.Total fun a b : PromptSection × Nat => a.1.priority ≤ b.1.priority :=
    ⟨fun a b => Nat.le_total _ _⟩
  have : IsTrans (PromptSection × Nat) fun a b => a.1.priority ≤ b.1.priority :=
    ⟨fun a b c => Nat.le_trans⟩
  exact List.pairwise_insertionSort _ _

/-- The order around one turn. -/
theorem trimOrder_split (hs : sections[idx]? = some s) (hcut : s.canBeCut) :
    ∃ above, trimOrder sections =
        ((trimOrder sections).takeWhile fun s => s.2 ≠ idx) ++ (s, idx) :: above ∧
      ∀ x ∈ ((trimOrder sections).takeWhile fun s => s.2 ≠ idx) ++ above, x.2 ≠ idx := by
  obtain ⟨below, above, horder⟩ := List.append_of_mem (mem_trimOrder_iff.mpr ⟨hs, hcut⟩)
  obtain ⟨hbelow, hother⟩ := trimOrder_unique horder
  rw [hbelow]
  exact ⟨above, horder, hother⟩

/-- A section of a lower priority has its turn before. -/
theorem spareBefore_add_le {lower : PromptSection} {i : Nat} (hs : sections[idx]? = some s)
    (hcut : s.canBeCut) (hlower : sections[i]? = some lower) (hcut' : lower.canBeCut)
    (hlt : lower.priority < s.priority) :
    spareBefore sections i + spare lower ≤ spareBefore sections idx := by
  obtain ⟨above, horder, -⟩ := trimOrder_split hs hcut
  obtain ⟨above', horder', hother'⟩ := trimOrder_split hlower hcut'
  generalize hbelow : ((trimOrder sections).takeWhile fun s => s.2 ≠ idx) = below at horder
  generalize hbelow' : ((trimOrder sections).takeWhile fun s => s.2 ≠ i) = below'
    at horder' hother'
  have hsorted := trimOrder_sorted sections
  rw [horder] at hsorted
  rw [spareBefore, spareBefore, hbelow, hbelow']
  -- one of the two stretches of the order begins with the other
  rw [horder'] at horder
  rcases List.append_eq_append_iff.mp horder with ⟨mid, hmid, hrest⟩ | ⟨mid, hmid, hrest⟩
  · cases mid with
    | nil =>
      rw [List.nil_append, List.cons.injEq, Prod.mk.injEq] at hrest
      obtain ⟨⟨rfl, -⟩, -⟩ := hrest
      omega
    | cons x mid =>
      rw [List.cons_append, List.cons.injEq] at hrest
      obtain ⟨rfl, -⟩ := hrest
      rw [hmid, List.map_append, List.map_cons, List.sum_append, List.sum_cons]
      show (below'.map fun s => spare s.1).sum + spare lower ≤
        (below'.map fun s => spare s.1).sum + (spare lower + _)
      omega
  · -- the higher priority would come first
    have hmem : (lower, i) ∈ (s, idx) :: above := by
      rw [hrest]
      exact List.mem_append_right _ List.mem_cons_self
    rcases List.mem_cons.mp hmem with heq | habove
    · cases heq
      omega
    · have hle := (List.pairwise_cons.mp (List.pairwise_append.mp hsorted).2.1).1 _ habove
      simp only at hle
      omega

/-! ## What the loop leaves -/

/-- Every section comes out of the loop as what its turn leaves of it. -/
theorem trimExcess_getElem? (hs : sections[idx]? = some s) :
    (trimExcess counter provider sections excess).working[idx]? =
      some (if s.canBeCut then leftOf counter provider (excess - spareBefore sections idx) s
        else s) := by
  by_cases hcut : s.canBeCut = true
  · obtain ⟨above, horder, hother⟩ := trimOrder_split hs hcut
    rw [if_pos hcut, trimExcess, horder, spareBefore]
    exact trimLoop_getElem? counter provider (t := { working := sections, excess }) hs hother
  · rw [if_neg hcut, trimExcess]
    refine (trimLoop_working counter provider _ _ ?_).trans hs
    intro x hx hidx
    obtain ⟨hget, hcan⟩ := mem_trimOrder hx
    rw [hidx, hs] at hget
    cases hget
    exact hcut hcan

/-- A section is left as it was, or has had its turn. -/
theorem trimExcess_of_not_turn (hs : sections[idx]? = some s) (h : ¬ Turn sections excess idx s) :
    (trimExcess counter provider sections excess).working[idx]? = some s := by
  rw [trimExcess_getElem? hs]
  by_cases hcut : s.canBeCut = true
  · rw [if_pos hcut, leftOf, if_pos]
    by_contra hneither
    rw [not_or] at hneither
    exact h ⟨hs, hcut, by omega, by omega⟩
  · rw [if_neg hcut]

theorem trimExcess_of_turn (h : Turn sections excess idx s) :
    (trimExcess counter provider sections excess).working[idx]? =
      some (cutTo counter provider
        (s.tokenCount - min (spare s) (excess - spareBefore sections idx)) s) := by
  obtain ⟨hs, hcut, hover, hspare⟩ := h
  rw [trimExcess_getElem? hs, if_pos hcut, leftOf, if_neg]
  omega

/-- When a section has its turn, one of a lower priority has been cut to its floor,
unless it was there before. -/
theorem trimExcess_of_lower {lower : PromptSection} {i : Nat} (h : Turn sections excess idx s)
    (hlower : sections[i]? = some lower) (hcut : lower.canBeCut)
    (hlt : lower.priority < s.priority) :
    (trimExcess counter provider sections excess).working[i]? =
      some (if spare lower = 0 then lower
        else cutTo counter provider (sectionMinimum lower.name) lower) := by
  obtain ⟨hs, hcan, hover, -⟩ := h
  have hbefore := spareBefore_add_le hs hcan hlower hcut hlt
  by_cases hspare : spare lower = 0
  · rw [if_pos hspare]
    refine trimExcess_of_not_turn hlower ?_
    intro hturn
    obtain ⟨-, -, -, hpos⟩ := hturn
    omega
  · rw [if_neg hspare, trimExcess_of_turn ⟨hlower, hcut, by omega, by omega⟩]
    congr 2
    rw [spare] at hspare hbefore ⊢
    omega

/-- The turn of one section reports its name, if it has something to give. -/
theorem mem_trimmedNames_trimSection (t : Trimming) (sec : PromptSection) (i : Nat)
    (name : String) :
    name ∈ (trimSection counter provider t sec i).trimmedNames ↔
      name ∈ t.trimmedNames ∨ 0 < spare sec ∧ sec.name = name := by
  simp only [trimSection]
  by_cases hspare : sec.tokenCount - sectionMinimum sec.name = 0
  · rw [if_pos hspare, spare, hspare]
    simp
  · rw [if_neg hspare, spare]
    by_cases hold : sec.name ∈ t.trimmedNames
    · simp only [if_pos hold]
      constructor
      · exact .inl
      · intro h
        rcases h with h | ⟨-, rfl⟩
        · exact h
        · exact hold
    · simp only [if_neg hold, List.mem_append, List.mem_singleton]
      constructor
      · intro h
        rcases h with h | h
        · exact .inl h
        · exact .inr ⟨by omega, h.symm⟩
      · intro h
        rcases h with h | ⟨-, h⟩
        · exact .inl h
        · exact .inr h.symm

/-- In the order from here on a section of the name has its turn, when so much is over. -/
def NamedTurn (order : List (PromptSection × Nat)) (excess : Nat) (name : String) : Prop :=
  ∃ below s idx above, order = below ++ (s, idx) :: above ∧
    (below.map fun s => spare s.1).sum < excess ∧ 0 < spare s ∧ s.name = name

theorem namedTurn_cons_iff {rest : List (PromptSection × Nat)} {sec : PromptSection} {i : Nat}
    {name : String} : NamedTurn ((sec, i) :: rest) excess name ↔
      0 < excess ∧ (0 < spare sec ∧ sec.name = name ∨ NamedTurn rest (excess - spare sec) name) := by
  constructor
  · intro h
    obtain ⟨below, s, idx, above, horder, hlt, hspare, hname⟩ := h
    refine ⟨Nat.zero_lt_of_lt hlt, ?_⟩
    cases below with
    | nil =>
      cases horder
      exact .inl ⟨hspare, hname⟩
    | cons x below =>
      cases horder
      rw [List.map_cons, List.sum_cons] at hlt
      dsimp only at hlt
      exact .inr ⟨below, s, idx, above, rfl, by omega, hspare, hname⟩
  · intro h
    rcases h with ⟨hpos, ⟨hspare, hname⟩ | ⟨below, s, idx, above, rfl, hlt, hspare, hname⟩⟩
    · exact ⟨[], sec, i, rest, rfl, hpos, hspare, hname⟩
    · refine ⟨(sec, i) :: below, s, idx, above, rfl, ?_, hspare, hname⟩
      rw [List.map_cons, List.sum_cons]
      dsimp only
      omega

/-- The names that the loop collects are those of the sections that have a turn. -/
theorem mem_trimmedNames_loop (order : List (PromptSection × Nat)) (t : Trimming)
    (name : String) :
    name ∈ (trimLoop counter provider order t).trimmedNames ↔
      name ∈ t.trimmedNames ∨ NamedTurn order t.excess name := by
  induction order generalizing t with
  | nil =>
    have hnone : ¬ NamedTurn [] t.excess name := by
      intro h
      obtain ⟨below, s, idx, above, horder, -⟩ := h
      exact List.append_ne_nil_of_right_ne_nil below (List.cons_ne_nil _ _) horder.symm
    exact (or_iff_left hnone).symm
  | cons head rest ih =>
    obtain ⟨sec, i⟩ := head
    rw [namedTurn_cons_iff, trimLoop]
    by_cases hdone : t.excess = 0
    · rw [if_pos hdone]
      exact (or_iff_left fun hturn => absurd hdone (Nat.ne_of_gt hturn.1)).symm
    · rw [if_neg hdone, ih, trimSection_excess, mem_trimmedNames_trimSection, or_assoc,
        and_iff_right (Nat.pos_of_ne_zero hdone)]

/-- `trim` reports the names of the sections that have a turn. -/
theorem mem_trimmedNames_iff (name : String) :
    name ∈ (trimExcess counter provider sections excess).trimmedNames ↔
      ∃ idx s, Turn sections excess idx s ∧ s.name = name := by
  rw [trimExcess, mem_trimmedNames_loop]
  constructor
  · intro h
    rcases h with h | ⟨below, s, idx, above, horder, hlt, hspare, hname⟩
    · cases h
    · have hmem : (s, idx) ∈ trimOrder sections := by
        rw [horder]
        exact List.mem_append_right _ List.mem_cons_self
      obtain ⟨hs, hcut⟩ := mem_trimOrder_iff.mp hmem
      refine ⟨idx, s, ⟨hs, hcut, ?_, hspare⟩, hname⟩
      rw [spareBefore, (trimOrder_unique horder).1]
      exact hlt
  · intro h
    obtain ⟨idx, s, ⟨hs, hcut, hover, hspare⟩, hname⟩ := h
    obtain ⟨above, horder, -⟩ := trimOrder_split hs hcut
    exact .inr ⟨_, s, idx, above, horder, hover, hspare, hname⟩

/-! ## Shrinking -/

theorem wholeLines_sum_le {target : Nat} {lines : List Text} {used : Nat}
    (h : wholeLines counter provider target lines used ≠ []) :
    used + ((wholeLines counter provider target lines used).map fun line =>
      counter.countText line provider + 1).sum ≤ target := by
  induction lines generalizing used with
  | nil => exact absurd rfl h
  | cons line rest ih =>
    simp only [wholeLines] at h ⊢
    by_cases hover : target < used + (counter.countText line provider + 1)
    · rw [if_pos hover] at h
      exact absurd rfl h
    · rw [if_neg hover, List.map_cons, List.sum_cons, ← Nat.add_assoc]
      by_cases hrest : wholeLines counter provider target rest
          (used + (counter.countText line provider + 1)) = []
      · rw [hrest, List.map_nil, List.sum_nil]
        omega
      · exact ih hrest

theorem keepWholeLines_eq (target : Nat) (text : Text) :
    keepWholeLines counter provider target text =
      if wholeLines counter provider target (text.splitOn '\n') 0 = [] then
        cutAtWord (counter.truncateTextToTokens text target provider) text
      else PyText.rstrip (PyText.join newline
        (wholeLines counter provider target (text.splitOn '\n') 0)) := by
  rw [keepWholeLines]
  cases wholeLines counter provider target (text.splitOn '\n') 0 with
  | nil => rfl
  | cons line rest => rfl

variable (counter provider) in
theorem dropWords_fits (target : Nat) (words : List Text) :
    dropWords counter provider target words = [] ∨
      counter.countText (PyText.join [' '] (dropWords counter provider target words)) provider
        ≤ target := by
  induction words with
  | nil => exact .inl rfl
  | cons word rest ih =>
    rw [dropWords]
    by_cases hover : target < counter.countText (PyText.join [' '] (word :: rest)) provider
    · rw [if_pos hover]
      exact ih
    · rw [if_neg hover]
      exact .inr (not_lt.mp hover)

variable (counter provider) in
theorem dropOldest_fits (target : Nat) (header : Text) (items : List ChatMessage) :
    dropOldest counter provider target header items = [] ∨
      counter.countText (renderHistory header
        (dropOldest counter provider target header items)) provider ≤ target := by
  induction items with
  | nil => exact .inl rfl
  | cons item rest ih =>
    rw [dropOldest]
    by_cases hover : target < counter.countText (renderHistory header (item :: rest)) provider
    · rw [if_pos hover]
      exact ih
    · rw [if_neg hover]
      exact .inr (not_lt.mp hover)

theorem length_strip_le (text : Text) : (PyText.strip text).length ≤ text.length :=
  (PyText.rstrip_isPrefix _).length_le.trans (List.dropWhile_suffix _).length_le

/-! ## Fours of characters -/

section Fallback

variable (hone : TokenCounter.multiplier provider = 1) {target : Nat}

/-- The counter without an encoding. -/
abbrev builtIn : TokenCounter := { tokenizer := none }

include hone

theorem builtIn_count_le {text : Text} (hpos : 1 ≤ target) (h : text.length < 4 * (target + 1)) :
    builtIn.countText text provider ≤ target := by
  by_cases htext : text = []
  · rw [htext, TokenCounter.countText_nil]
    exact Nat.zero_le _
  · rw [TokenCounter.countText_fallback builtIn rfl hone htext]
    omega

theorem length_le_builtIn (text : Text) :
    text.length ≤ 4 * builtIn.countText text provider + 3 := by
  by_cases htext : text = []
  · rw [htext]
    exact Nat.zero_le _
  · rw [TokenCounter.countText_fallback builtIn rfl hone htext]
    omega

/-- The line breaks between whole lines are paid for by the token that each line costs more. -/
theorem length_join_le (lines : List Text) (hlines : lines ≠ []) :
    (PyText.join newline lines).length + 1 ≤
      4 * (lines.map fun line => builtIn.countText line provider + 1).sum := by
  induction lines with
  | nil => exact absurd rfl hlines
  | cons line rest ih =>
    have hline := length_le_builtIn hone line
    cases rest with
    | nil =>
      simp only [PyText.join, List.intercalate_singleton, List.map_cons, List.map_nil,
        List.sum_cons, List.sum_nil]
      omega
    | cons line' rest =>
      have hrest := ih (by simp)
      rw [PyText.join, List.intercalate_cons_cons, List.length_append, List.length_append,
        List.map_cons, List.sum_cons]
      rw [PyText.join] at hrest
      have hbreak : newline.length = 1 := rfl
      omega

theorem keepWholeLines_count_le (htarget : 2 ≤ target) (text : Text) :
    builtIn.countText (keepWholeLines builtIn provider target text) provider ≤ target := by
  rw [keepWholeLines_eq]
  refine builtIn_count_le hone (by omega) ?_
  by_cases hkept : wholeLines builtIn provider target (text.splitOn '\n') 0 = []
  · rw [if_pos hkept]
    refine lt_of_le_of_lt (length_cutAtWord _ _) ?_
    rw [TokenCounter.truncateTextToTokens, if_neg (by omega)]
    by_cases hfits : builtIn.countText text provider ≤ target
    · rw [if_pos hfits]
      have hlength := length_le_builtIn hone text
      omega
    · rw [if_neg hfits]
      show (text.take (max 10 (target * 4))).length < 4 * (target + 1)
      rw [List.length_take]
      omega
  · rw [if_neg hkept]
    have hsum := wholeLines_sum_le hkept
    have hlength := length_join_le hone _ hkept
    have hstrip := (PyText.rstrip_isPrefix (PyText.join newline
      (wholeLines builtIn provider target (text.splitOn '\n') 0))).length_le
    omega

theorem shrinkHistory_count_le (htarget : 1 ≤ target) (s : PromptSection) :
    builtIn.countText (shrinkHistory builtIn provider target s).content provider ≤ target := by
  simp only [shrinkHistory]
  by_cases hitems : (historyItems s).2 = []
  · rw [if_pos hitems]
    refine builtIn_count_le hone htarget ?_
    refine lt_of_le_of_lt (length_strip_le _) ?_
    rcases dropWords_fits builtIn provider target (s.content.splitOn ' ') with hnone | hfits
    · rw [hnone]
      exact Nat.mul_pos (by omega) (by omega)
    · have hlength := length_le_builtIn hone
        (PyText.join [' '] (dropWords builtIn provider target (s.content.splitOn ' ')))
      omega
  · rw [if_neg hitems]
    rcases dropOldest_fits builtIn provider target (historyItems s).1
      (historyItems s).2 with hnone | hfits
    · simp only [hnone, if_true, TokenCounter.countText_nil]
      exact Nat.zero_le _
    · by_cases hleft : dropOldest builtIn provider target (historyItems s).1
        (historyItems s).2 = []
      · simp only [hleft, if_true, TokenCounter.countText_nil]
        exact Nat.zero_le _
      · simp only [if_neg hleft]
        exact hfits

/-- A section that is cut to its floor is there or below, by its own count. -/
theorem cutTo_tokenCount_le (htarget : target = 0 ∨ 3 ≤ target) (s : PromptSection) :
    (cutTo builtIn provider target s).tokenCount ≤ target := by
  by_cases hzero : target = 0
  · rw [cutTo, if_pos hzero]
    exact Nat.zero_le _
  · have htwo : 2 ≤ target := by omega
    rw [cutTo, if_neg hzero]
    show builtIn.countText (shrink builtIn provider target s).content provider ≤ target
    by_cases hhistory : s.name = "conversation_history"
    · rw [shrink, if_pos hhistory]
      exact shrinkHistory_count_le hone (by omega) s
    · rw [shrink, if_neg hhistory]
      exact keepWholeLines_count_le hone htwo s.content

end Fallback

theorem sectionMinimum_ge (name : String) : sectionMinimum name = 0 ∨ 3 ≤ sectionMinimum name := by
  rw [sectionMinimum]
  cases hlookup : sectionMinimums.lookup name with
  | none => exact .inl rfl
  | some minimum =>
    obtain ⟨before, after, hsplit, -⟩ := List.lookup_eq_some_iff.mp hlookup
    have hmem : (name, minimum) ∈ sectionMinimums := by
      rw [hsplit]
      exact List.mem_append_right _ List.mem_cons_self
    have hall : ∀ x ∈ sectionMinimums, x.2 = 0 ∨ 3 ≤ x.2 := by decide
    exact hall _ hmem

/-- When a section has its turn, every trimmable one of a lower priority is at its
floor or below. -/
theorem floor_of_turn {lower : PromptSection} {i : Nat}
    (hone : TokenCounter.multiplier provider = 1) (h : Turn sections excess idx s)
    (hlower : sections[i]? = some lower) (htrimmable : lower.trimmable)
    (hlt : lower.priority < s.priority) :
    ∃ left, (trimExcess builtIn provider sections excess).working[i]? = some left ∧
      left.tokenCount ≤ sectionMinimum lower.name := by
  have hcut : lower.canBeCut := by
    have hle := s.priority_le
    simp only [PromptSection.canBeCut, htrimmable, Bool.true_and, decide_eq_true_eq]
    omega
  refine ⟨_, trimExcess_of_lower h hlower hcut hlt, ?_⟩
  by_cases hspare : spare lower = 0
  · rw [if_pos hspare]
    rw [spare] at hspare
    omega
  · rw [if_neg hspare]
    exact cutTo_tokenCount_le hone (sectionMinimum_ge _) lower

/-! ## What `trim` returns -/

/-- `trim`, for a budget that may be negative. -/
def trimBudget (counter : TokenCounter) (provider : String) (sections : List PromptSection)
    (totalBudget : ℤ) : Except Exc (List PromptSection × List String) :=
  let currentTotal := sectionTokens sections
  if (currentTotal : ℤ) ≤ totalBudget then .ok (sections, [])
  else
    let t := trimExcess counter provider sections ((currentTotal : ℤ) - totalBudget).toNat
    let finalSections := t.working.filter PromptSection.hasText
    let finalTotal := sectionTokens finalSections
    if totalBudget < (finalTotal : ℤ) then
      .error (contextOverflow
        (s!"Cannot fit prompt within token budget ({totalBudget}) even after maximum trimming. "
          ++ s!"Locked sections require {finalTotal} tokens."))
    else .ok (finalSections, t.trimmedNames)

/-- `excess`, where there is one. -/
def excessOf (sections : List PromptSection) (totalBudget : ℤ) : Nat :=
  ((sectionTokens sections : ℤ) - totalBudget).toNat

/-- What `trim` returns of the section at position `idx`. -/
def returned (counter : TokenCounter) (provider : String) (sections : List PromptSection)
    (totalBudget : ℤ) (idx : Nat) : Option PromptSection :=
  if (sectionTokens sections : ℤ) ≤ totalBudget then sections[idx]?
  else
    (trimExcess counter provider sections
      (excessOf sections totalBudget)).working[idx]?.filter PromptSection.hasText

theorem trimBudget_natCast (sections : List PromptSection) (totalBudget : Nat) :
    trimBudget counter provider sections totalBudget = trim counter provider sections totalBudget := by
  simp only [trimBudget, trim, Nat.cast_le, Nat.cast_lt]
  by_cases hfits : sectionTokens sections ≤ totalBudget
  · rw [if_pos hfits, if_pos hfits]
  · have hexcess : ((sectionTokens sections : ℤ) - totalBudget).toNat =
        sectionTokens sections - totalBudget := by omega
    rw [if_neg hfits, if_neg hfits, hexcess]
    rfl

/-- On a negative budget `trim` never returns. -/
theorem trimBudget_of_neg {totalBudget : ℤ} (h : totalBudget < 0) :
    ∃ exc, trimBudget counter provider sections totalBudget = .error exc := by
  rw [trimBudget, if_neg (by omega)]
  simp only
  rw [if_pos (by omega)]
  exact ⟨_, rfl⟩

theorem length_working (order : List (PromptSection × Nat)) (t : Trimming) :
    (trimLoop counter provider order t).working.length = t.working.length := by
  induction order generalizing t with
  | nil => rfl
  | cons head rest ih =>
    obtain ⟨sec, idx⟩ := head
    rw [trimLoop]
    split
    · rfl
    · rw [ih]
      simp only [trimSection]
      split
      · rfl
      · exact List.length_set

theorem filter_eq_filterMap_range {α : Type} (p : α → Bool) (l : List α) :
    l.filter p = (List.range l.length).filterMap fun idx => l[idx]?.filter p := by
  induction l using List.reverseRecOn with
  | nil => rfl
  | append_singleton l s ih =>
    rw [List.filter_append, List.length_append, List.length_singleton, List.range_succ,
      List.filterMap_append, ih]
    congr 1
    · refine List.filterMap_congr ?_
      intro idx hidx
      rw [List.getElem?_append_left (List.mem_range.mp hidx)]
    · rw [List.filterMap_cons, List.getElem?_append_right (Nat.le_refl _), Nat.sub_self]
      by_cases hp : p s = true
      · simp [Option.filter, hp]
      · simp [Option.filter, hp]

/-- The returned sections are those of the positions, in their order. -/
theorem trimBudget_eq_returned {totalBudget : ℤ} {out : List PromptSection} {names : List String}
    (h : trimBudget counter provider sections totalBudget = .ok (out, names)) :
    out = (List.range sections.length).filterMap
      (returned counter provider sections totalBudget) := by
  simp only [trimBudget] at h
  by_cases hfits : (sectionTokens sections : ℤ) ≤ totalBudget
  · rw [if_pos hfits] at h
    cases h
    have hall := filter_eq_filterMap_range (fun _ => true) sections
    rw [List.filter_true] at hall
    conv_lhs => rw [hall]
    refine List.filterMap_congr ?_
    intro idx _
    rw [returned, if_pos hfits]
    cases sections[idx]? <;> rfl
  · rw [if_neg hfits] at h
    split at h
    · cases h
    · cases h
      rw [filter_eq_filterMap_range, trimExcess, length_working]
      refine List.filterMap_congr ?_
      intro idx _
      rw [returned, if_neg hfits]
      rfl

/-- How the sections in `after` come from those in `before`: `left idx` is what was
returned of the section at position `idx`, and `turn idx` says that it was trimmed,
be it altogether: a section with text does not get lost without its turn. -/
structure TrimmedInOrder (counter : TokenCounter) (provider : String)
    (before after : List PromptSection) (names : List String)
    (left : Nat → Option PromptSection) (turn : Nat → Prop) : Prop where
  subsequence : after = (List.range before.length).filterMap left
  whole : ∀ (idx : Nat) (s s' : PromptSection), before[idx]? = some s → ¬ turn idx →
    left idx = some s' → s' = s
  removed : ∀ (idx : Nat) (s : PromptSection), before[idx]? = some s → left idx = none →
    s.hasText → turn idx
  cut : ∀ (idx : Nat) (s s' : PromptSection), before[idx]? = some s → turn idx →
    left idx = some s' → ∃ target, s' = cutTo counter provider target s
  locked : ∀ (idx : Nat) (s : PromptSection), before[idx]? = some s →
    s.trimmable = false ∨ s.priority = 10 → s.hasText → left idx = some s
  order : ∀ (idx i : Nat) (s lower lower' : PromptSection), before[idx]? = some s → turn idx →
    before[i]? = some lower → lower.trimmable → lower.priority < s.priority →
    left i = some lower' → lower'.tokenCount ≤ sectionMinimum lower.name
  reported : ∀ name, name ∈ names ↔
    ∃ (idx : Nat) (s : PromptSection), before[idx]? = some s ∧ turn idx ∧ s.name = name

/-- What is returned of a section that the loop leaves as `s`. -/
theorem returned_eq_some_iff {totalBudget : ℤ} {s' : PromptSection}
    (hover : ¬ (sectionTokens sections : ℤ) ≤ totalBudget)
    (hs : (trimExcess counter provider sections (excessOf sections totalBudget)).working[idx]? =
      some s) :
    returned counter provider sections totalBudget idx = some s' ↔ s' = s ∧ s.hasText := by
  rw [returned, if_neg hover, hs, Option.filter_eq_some_iff, Option.some.injEq]
  constructor
  · intro h
    obtain ⟨rfl, htext⟩ := h
    exact ⟨rfl, htext⟩
  · intro h
    obtain ⟨rfl, htext⟩ := h
    exact ⟨rfl, htext⟩

/-- A section that is locked has no turn. -/
theorem not_turn_of_locked (hlocked : s.trimmable = false ∨ s.priority = 10) :
    ¬ Turn sections excess idx s := by
  intro hturn
  have hcut := hturn.2.1
  rw [PromptSection.canBeCut, Bool.and_eq_true, decide_eq_true_eq] at hcut
  rcases hlocked with hlocked | hlocked
  · rw [hlocked] at hcut
    exact absurd hcut.1 Bool.false_ne_true
  · omega

/-- Sections that fit are returned as they are. -/
theorem trimmedInOrder_of_fits {totalBudget : ℤ}
    (hfits : (sectionTokens sections : ℤ) ≤ totalBudget) (hout : sections =
      (List.range sections.length).filterMap (returned counter provider sections totalBudget)) :
    TrimmedInOrder counter provider sections sections []
      (returned counter provider sections totalBudget) fun _ => False where
  subsequence := hout
  whole := by
    intro idx s s' hs _ hs'
    rw [returned, if_pos hfits, hs] at hs'
    exact (Option.some.inj hs').symm
  removed := by
    intro idx s hs hnone _
    rw [returned, if_pos hfits, hs] at hnone
    cases hnone
  cut := fun _ _ _ _ hturn => hturn.elim
  locked := by
    intro idx s hs _ _
    rw [returned, if_pos hfits, hs]
  order := fun _ _ _ _ _ _ hturn => hturn.elim
  reported := by simp

theorem trimmedInOrder_of_trimBudget (hone : TokenCounter.multiplier provider = 1)
    {totalBudget : ℤ} {out : List PromptSection} {names : List String}
    (h : trimBudget builtIn provider sections totalBudget = .ok (out, names)) :
    ∃ left turn, TrimmedInOrder builtIn provider sections out names left turn := by
  have hout := trimBudget_eq_returned h
  simp only [trimBudget] at h
  by_cases hfits : (sectionTokens sections : ℤ) ≤ totalBudget
  · rw [if_pos hfits] at h
    cases h
    exact ⟨_, _, trimmedInOrder_of_fits hfits hout⟩
  · rw [if_neg hfits] at h
    have hnames : (trimExcess builtIn provider sections
        (excessOf sections totalBudget)).trimmedNames = names := by
      split at h
      · cases h
      · cases h
        rfl
    have hunique : ∀ {idx : Nat} {s : PromptSection}, sections[idx]? = some s →
        (∃ s₀, Turn sections (excessOf sections totalBudget) idx s₀) →
          Turn sections (excessOf sections totalBudget) idx s := by
      intro idx s hs hturn
      obtain ⟨s₀, hturn⟩ := hturn
      obtain rfl : s = s₀ := Option.some.inj (hs.symm.trans hturn.1)
      exact hturn
    refine ⟨returned builtIn provider sections totalBudget,
      fun idx => ∃ s, Turn sections (excessOf sections totalBudget) idx s, hout, ?_, ?_, ?_, ?_, ?_, ?_⟩
    · intro idx s s' hs hturn hs'
      have hnot : ¬ Turn sections (excessOf sections totalBudget) idx s := fun h => hturn ⟨s, h⟩
      exact ((returned_eq_some_iff hfits (trimExcess_of_not_turn hs hnot)).mp hs').1
    · intro idx s hs hnone htext
      by_contra hturn
      have hnot : ¬ Turn sections (excessOf sections totalBudget) idx s := fun h => hturn ⟨s, h⟩
      have hkept : returned builtIn provider sections totalBudget idx = some s :=
        (returned_eq_some_iff hfits (trimExcess_of_not_turn hs hnot)).mpr ⟨rfl, htext⟩
      rw [hnone] at hkept
      cases hkept
    · intro idx s s' hs hturn hs'
      exact ⟨_, ((returned_eq_some_iff hfits (trimExcess_of_turn (hunique hs hturn))).mp hs').1⟩
    · intro idx s hs hlocked htext
      have hnot : ¬ Turn sections (excessOf sections totalBudget) idx s := not_turn_of_locked hlocked
      exact (returned_eq_some_iff hfits (trimExcess_of_not_turn hs hnot)).mpr ⟨rfl, htext⟩
    · intro idx i s lower lower' hs hturn hlower htrimmable hlt hlower'
      obtain ⟨left, hleft, hle⟩ := floor_of_turn hone (hunique hs hturn) hlower htrimmable hlt
      rw [((returned_eq_some_iff hfits hleft).mp hlower').1]
      exact hle
    · intro name
      rw [← hnames, mem_trimmedNames_iff]
      constructor
      · intro h
        obtain ⟨idx, s, hturn, hname⟩ := h
        exact ⟨idx, s, hturn.1, ⟨s, hturn⟩, hname⟩
      · intro h
        obtain ⟨idx, s, hs, hturn, hname⟩ := h
        exact ⟨idx, s, hunique hs hturn, hname⟩

end PriorityTrimmer

end LlmService
