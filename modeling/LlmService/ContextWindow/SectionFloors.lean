import LlmService.ContextWindow.TrimTurns
import LlmService.Lib.LongestFit
import LlmService.Lib.Within

/-!
# What is left of a floored section

A floor bounds the tokens that a cut asks for, and a cut leaves whole
messages, whole lines or whole words. So a section keeps its floor exactly
when the longest run of units within what was asked for holds that much.
-/

namespace LlmService

namespace PriorityTrimmer

variable (counter : TokenCounter) (provider : String)

/-- The tokens of a text, when a blank one is dropped. -/
def textTokens (text : Text) : Nat :=
  if PyText.strip text = [] then 0 else counter.countText text provider

/-- The tokens left of a section. -/
def leftTokens (left : Option PromptSection) : Nat :=
  (left.map fun s => counter.countText s.content provider).getD 0

/-- The text that whole units leave of a section cut to `target` tokens: the newest
messages, or the last words when no message can be read off the text, of a history; the
first lines of any other text, or its start up to a word boundary when the first line is
too long. -/
inductive Remainder (target : Nat) (s : PromptSection) : Text → Prop where
  | messages (tail : List ChatMessage) : s.name = "conversation_history" →
      (historyItems s).2 ≠ [] →
      LongestTail (fun items => items = [] ∨
        counter.countText (renderHistory (historyItems s).1 items) provider ≤ target)
        (historyItems s).2 tail →
      Remainder target s (if tail = [] then [] else renderHistory (historyItems s).1 tail)
  | words (tail : List Text) : s.name = "conversation_history" → (historyItems s).2 = [] →
      LongestTail (fun words => words = [] ∨
        counter.countText (PyText.join [' '] words) provider ≤ target)
        (s.content.splitOn ' ') tail →
      Remainder target s (PyText.strip (PyText.join [' '] tail))
  | lines (head : List Text) : s.name ≠ "conversation_history" → head ≠ [] →
      LongestHead (fun lines => lines = [] ∨
        (lines.map fun line => counter.countText line provider + 1).sum ≤ target)
        (s.content.splitOn '\n') head →
      Remainder target s (PyText.rstrip (PyText.join newline head))
  | start : s.name ≠ "conversation_history" → target < linesTokens counter provider s.content 1 →
      Remainder target s
        (cutAtWord (counter.truncateTextToTokens s.content target provider) s.content)

variable {counter provider} {sections : List PromptSection} {excess idx target : Nat}
  {s : PromptSection} {text : Text}

theorem longestTail_dropOldest (header : Text) (items : List ChatMessage) :
    LongestTail (fun items => items = [] ∨
      counter.countText (renderHistory header items) provider ≤ target) items
      (dropOldest counter provider target header items) :=
  longestTail_of_loop rfl (fun _ _ => rfl) items

theorem longestTail_dropWords (words : List Text) :
    LongestTail (fun words => words = [] ∨
      counter.countText (PyText.join [' '] words) provider ≤ target) words
      (dropWords counter provider target words) :=
  longestTail_of_loop rfl (fun _ _ => rfl) words

theorem longestHead_wholeLines (lines : List Text) :
    LongestHead (fun lines => lines = [] ∨
      (lines.map fun line => counter.countText line provider + 1).sum ≤ target) lines
      (wholeLines counter provider target lines 0) := by
  obtain ⟨n, htake, hn⟩ := wholeLines_eq_take counter provider target lines 0
  rw [htake]
  refine ⟨List.take_prefix n lines, ?_, ?_⟩
  · by_cases hnone : lines.take n = []
    · exact .inl hnone
    · rw [← htake] at hnone ⊢
      have hsum := wholeLines_sum_le hnone
      rw [Nat.zero_add] at hsum
      exact .inr hsum
  · intro other hother hfits
    have hlength := hother.length_le
    rw [List.prefix_iff_eq_take] at hother
    have hle : other.length ≤ n := by
      refine (hn other.length hlength).mpr ?_
      rcases hfits with hnil | hsum
      · left
        rw [hnil]
        rfl
      · right
        rw [← hother, Nat.zero_add]
        exact hsum
    rw [List.length_take]
    omega

/-- The first line of a text is too long exactly when no line is kept. -/
theorem wholeLines_eq_nil_iff (text : Text) :
    wholeLines counter provider target (text.splitOn '\n') 0 = [] ↔
      target < linesTokens counter provider text 1 := by
  rw [linesTokens]
  cases hlines : text.splitOn '\n' with
  | nil => exact absurd hlines (List.splitOn_ne_nil _ _)
  | cons line rest =>
    rw [wholeLines]
    simp only [Nat.zero_add, List.take_succ_cons, List.take_zero, List.map_cons, List.map_nil,
      List.sum_cons, List.sum_nil, Nat.add_zero]
    by_cases hover : target < counter.countText line provider + 1
    · simp [hover]
    · simp [hover]

/-- A shrunk section holds what whole units leave of it. -/
theorem remainder_iff :
    Remainder counter provider target s text ↔
      text = (shrink counter provider target s).content := by
  have hname : (shrink counter provider target s).content =
      if s.name = "conversation_history" then (shrinkHistory counter provider target s).content
      else keepWholeLines counter provider target s.content := by
    rw [shrink]
    split <;> rfl
  rw [hname]
  constructor
  · intro h
    cases h with
    | messages tail hhistory hitems htail =>
      rw [if_pos hhistory]
      simp only [shrinkHistory, if_neg hitems]
      rw [htail.unique (longestTail_dropOldest _ _)]
    | words tail hhistory hitems htail =>
      rw [if_pos hhistory]
      simp only [shrinkHistory, if_pos hitems]
      rw [htail.unique (longestTail_dropWords _)]
    | lines head hhistory hne hhead =>
      rw [if_neg hhistory, keepWholeLines_eq, ← hhead.unique (longestHead_wholeLines _), if_neg hne]
    | start hhistory hlong =>
      rw [if_neg hhistory, keepWholeLines_eq, if_pos (wholeLines_eq_nil_iff _ |>.mpr hlong)]
  · intro h
    subst h
    by_cases hhistory : s.name = "conversation_history"
    · rw [if_pos hhistory]
      by_cases hitems : (historyItems s).2 = []
      · simp only [shrinkHistory, if_pos hitems]
        exact .words _ hhistory hitems (longestTail_dropWords _)
      · simp only [shrinkHistory, if_neg hitems]
        exact .messages _ hhistory hitems (longestTail_dropOldest _ _)
    · rw [if_neg hhistory, keepWholeLines_eq]
      by_cases hnone : wholeLines counter provider target (s.content.splitOn '\n') 0 = []
      · rw [if_pos hnone]
        exact .start hhistory ((wholeLines_eq_nil_iff _).mp hnone)
      · rw [if_neg hnone]
        exact .lines _ hhistory hnone (longestHead_wholeLines _)

/-! ## Floors -/

/-- The tokens that a section is not to be cut below. -/
def floorOf (s : PromptSection) : Nat := min s.tokenCount (sectionMinimum s.name)

/-- The target that a turn cuts the section at position `idx` to. -/
def targetOf (sections : List PromptSection) (excess idx : Nat) (s : PromptSection) : Nat :=
  s.tokenCount - min (spare s) (excess - spareBefore sections idx)

/-- A section that has its turn holds its floor in whole units within its target; any
other one holds it as it is, and has text if there is anything to trim. -/
def HoldsFloor (counter : TokenCounter) (provider : String) (sections : List PromptSection)
    (totalBudget : ℤ) (idx : Nat) (s : PromptSection) : Prop :=
  floorOf s = 0 ∨
    (Turn sections (excessOf sections totalBudget) idx s → ∃ text,
      Remainder counter provider (targetOf sections (excessOf sections totalBudget) idx s) s text ∧
        floorOf s ≤ textTokens counter provider text) ∧
    (¬ Turn sections (excessOf sections totalBudget) idx s →
      floorOf s ≤ counter.countText s.content provider ∧
        (totalBudget < sectionTokens sections → s.hasText))

/-- Every trimmable section that the table names still has its floor. -/
def KeepsFloors (counter : TokenCounter) (provider : String) (sections : List PromptSection)
    (totalBudget : ℤ) : Prop :=
  ∀ (idx : Nat) (s : PromptSection), sections[idx]? = some s → s.trimmable →
    s.name ∈ sectionMinimums.map Prod.fst →
    min s.tokenCount (sectionMinimum s.name) ≤
      leftTokens counter provider (returned counter provider sections totalBudget idx)

theorem leftTokens_filter (s : PromptSection) :
    leftTokens counter provider ((some s).filter PromptSection.hasText) =
      textTokens counter provider s.content := by
  by_cases hblank : PyText.strip s.content = []
  · simp [leftTokens, textTokens, Option.filter, PromptSection.hasText, hblank]
  · simp [leftTokens, textTokens, Option.filter, PromptSection.hasText, hblank]

/-- What a floor needs of a section that is not cut. -/
theorem le_textTokens_iff {n : Nat} (hn : n ≠ 0) :
    n ≤ textTokens counter provider s.content ↔
      n ≤ counter.countText s.content provider ∧ s.hasText := by
  rw [textTokens, PromptSection.hasText, decide_eq_true_eq]
  by_cases hblank : PyText.strip s.content = []
  · rw [if_pos hblank]
    constructor
    · intro h
      omega
    · intro h
      exact absurd hblank h.2
  · rw [if_neg hblank]
    exact ⟨fun h => ⟨h, hblank⟩, fun h => h.1⟩

theorem textTokens_le (text : Text) :
    textTokens counter provider text ≤ counter.countText text provider := by
  rw [textTokens]
  split <;> omega

/-- A turn leaves the floor exactly when whole units within the target hold it. -/
theorem floor_turn_iff {totalBudget : ℤ} (hfloor : floorOf s ≠ 0)
    (hturn : Turn sections (excessOf sections totalBudget) idx s) :
    floorOf s ≤ leftTokens counter provider (returned counter provider sections totalBudget idx) ↔
      ∃ text, Remainder counter provider
          (targetOf sections (excessOf sections totalBudget) idx s) s text ∧
        floorOf s ≤ textTokens counter provider text := by
  have hover : ¬ (sectionTokens sections : ℤ) ≤ totalBudget := by
    have hexcess := hturn.2.2.1
    rw [excessOf] at hexcess
    omega
  have hpos : targetOf sections (excessOf sections totalBudget) idx s ≠ 0 := by
    rw [floorOf] at hfloor
    rw [targetOf, spare]
    omega
  rw [returned, if_neg hover, trimExcess_of_turn hturn, leftTokens_filter, ← targetOf]
  have hcut : (cutTo counter provider (targetOf sections (excessOf sections totalBudget) idx s)
      s).content = (shrink counter provider
        (targetOf sections (excessOf sections totalBudget) idx s) s).content := by
    rw [cutTo, if_neg hpos]
  rw [hcut]
  constructor
  · intro h
    exact ⟨_, remainder_iff.mpr rfl, h⟩
  · intro h
    obtain ⟨text, hremainder, h⟩ := h
    rw [remainder_iff.mp hremainder] at h
    exact h

theorem floor_whole_iff {totalBudget : ℤ} (hfloor : floorOf s ≠ 0) (hs : sections[idx]? = some s)
    (hturn : ¬ Turn sections (excessOf sections totalBudget) idx s) :
    floorOf s ≤ leftTokens counter provider (returned counter provider sections totalBudget idx) ↔
      floorOf s ≤ counter.countText s.content provider ∧
        (totalBudget < sectionTokens sections → s.hasText) := by
  rw [returned]
  by_cases hfits : (sectionTokens sections : ℤ) ≤ totalBudget
  · rw [if_pos hfits, hs]
    constructor
    · intro h
      exact ⟨h, fun hover => by omega⟩
    · intro h
      exact h.1
  · rw [if_neg hfits, trimExcess_of_not_turn hs hturn, leftTokens_filter, le_textTokens_iff hfloor]
    constructor
    · intro h
      exact ⟨h.1, fun _ => h.2⟩
    · intro h
      exact ⟨h.1, h.2 (by omega)⟩

/-- The trimmable sections with a floor hold it in what `trim` returns exactly when each
one that is cut holds it in whole units within its target. -/
theorem keepsFloors_iff (counter : TokenCounter) (provider : String)
    (sections : List PromptSection) (totalBudget : ℤ) (out : List PromptSection)
    (names : List String)
    (h : trimBudget counter provider sections totalBudget = .ok (out, names)) :
    out = (List.range sections.length).filterMap
        (returned counter provider sections totalBudget) ∧
      (KeepsFloors counter provider sections totalBudget ↔
        ∀ (idx : Nat) (s : PromptSection), sections[idx]? = some s → s.trimmable →
          s.name ∈ sectionMinimums.map Prod.fst →
          HoldsFloor counter provider sections totalBudget idx s) := by
  have heach : ∀ (idx : Nat) (s : PromptSection), sections[idx]? = some s →
      (floorOf s ≤
          leftTokens counter provider (returned counter provider sections totalBudget idx) ↔
        HoldsFloor counter provider sections totalBudget idx s) := by
    intro idx s hs
    rw [HoldsFloor]
    by_cases hfloor : floorOf s = 0
    · simp [hfloor]
    · by_cases hturn : Turn sections (excessOf sections totalBudget) idx s
      · rw [floor_turn_iff hfloor hturn]
        simp [hfloor, hturn]
      · rw [floor_whole_iff hfloor hs hturn]
        simp [hfloor, hturn]
  refine ⟨trimBudget_eq_returned h, ?_⟩
  constructor
  · intro hkeeps idx s hs htrimmable hname
    exact (heach idx s hs).mp (hkeeps idx s hs htrimmable hname)
  · intro hholds idx s hs htrimmable hname
    exact (heach idx s hs).mpr (hholds idx s hs htrimmable hname)

/-! ## One long message -/

/-- A history of one message of 1 200 characters. -/
def longMessage : PromptSection :=
  { name := "conversation_history", content := "User: ".toList ++ List.replicate 1200 'a'
    priority := 8, tokenCount := 301
    items := some [{ role := .user, content := List.replicate 1200 'a' }] }

/-- One token over the budget, the message goes as a whole. -/
theorem longMessage_removed :
    trimBudget builtIn "nvidia" [longMessage] 300 = .ok ([], ["conversation_history"]) := by
  apply eq_ok_of_toOption
  decide +kernel

theorem longMessage_not_keepsFloors : ¬ KeepsFloors builtIn "nvidia" [longMessage] 300 := by
  intro h
  have hout := trimBudget_eq_returned longMessage_removed
  have hgone : returned builtIn "nvidia" [longMessage] 300 0 = none :=
    List.filterMap_eq_nil_iff.mp hout.symm 0 (by simp)
  have hfloor := h 0 longMessage rfl rfl (by decide)
  rw [hgone] at hfloor
  exact absurd hfloor (by decide)

theorem not_forall_keepsFloors :
    ¬ ∀ (counter : TokenCounter) (provider : String) (sections : List PromptSection)
      (totalBudget : ℤ) (out : List PromptSection) (names : List String),
      trimBudget counter provider sections totalBudget = .ok (out, names) →
        KeepsFloors counter provider sections totalBudget := by
  intro h
  exact longMessage_not_keepsFloors (h _ _ _ _ _ _ longMessage_removed)

/-- No run of whole messages within 300 tokens holds the floor of `longMessage`. -/
theorem longMessage_not_holdsFloor :
    ¬ ∀ (idx : Nat) (s : PromptSection), [longMessage][idx]? = some s → s.trimmable →
      s.name ∈ sectionMinimums.map Prod.fst →
      HoldsFloor builtIn "nvidia" [longMessage] 300 idx s := by
  intro h
  exact longMessage_not_keepsFloors ((keepsFloors_iff builtIn "nvidia" [longMessage] 300 []
    ["conversation_history"] longMessage_removed).2.mpr h)

end PriorityTrimmer

end LlmService
