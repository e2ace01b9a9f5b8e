import Mathlib.Algebra.Order.BigOperators.Group.List
import Mathlib.Data.List.Sort
import LlmService.ContextWindow.TokenCounter

/-!
# PriorityTrimmer

`context_window/trimmer.py`: the sections of lowest priority are cut first,
each down to its floor, history from its oldest message on and any other
text at line ends. The results below are what the rest of the context window
relies on: sections that fit are left alone, what `trim` returns is within
its budget, and a protected section is never cut.
-/

namespace LlmService

/-- `ContextOverflowError(message)`. -/
def contextOverflow (message : String) : Exc :=
  { cls := .contextOverflowError, message, errorCode := some "CONTEXT_OVERFLOW" }

/-- `sum(s.token_count for s in sections)`. -/
def sectionTokens (sections : List PromptSection) : Nat := (sections.map (·.tokenCount)).sum

/-- `s.trimmable and s.priority < 10`. -/
def PromptSection.canBeCut (s : PromptSection) : Bool := s.trimmable && decide (s.priority < 10)

/-- `s.content.strip() != ""`. -/
def PromptSection.hasText (s : PromptSection) : Bool := decide (PyText.strip s.content ≠ [])

namespace PriorityTrimmer

def sectionMinimums : List (String × Nat) :=
  [("system", 0), ("user_query", 0), ("draft_content", 200), ("conversation_history", 200),
    ("long_term_memory", 100), ("graph_context", 0), ("retrieval", 0), ("tool_results", 50)]

/-- `SECTION_MINIMUMS.get(name, 0)`. -/
def sectionMinimum (name : String) : Nat := (sectionMinimums.lookup name).getD 0

def newline : Text := ['\n']

/-- `cut` is a prefix of `original`; step back to the last white space. -/
def cutAtWord (cut original : Text) : Text :=
  match original[cut.length]? with
  | none => PyText.rstrip cut
  | some c =>
    if PyText.isSpace c then PyText.rstrip cut
    else
      let space := ([' ', '\n', '\t'].filterMap (PyText.rfind · cut)).foldl max 0
      if 0 < space then PyText.rstrip (cut.take space) else []

/-- `_HISTORY_ROLE_LINE.match(line)`. -/
def historyRoleLine (line : Text) : Option ChatMessage :=
  [Role.user, .assistant, .system, .tool].findSome? fun role =>
    let start := role.capitalized ++ ": ".toList
    if start <+: line then some { role, content := line.drop start.length } else none

/-- One line of a history section without items: it begins a message,
continues the last one, or belongs to the header. -/
def readHistoryLine (read : Text × List ChatMessage) (line : Text) : Text × List ChatMessage :=
  match historyRoleLine line with
  | some item => (read.1, read.2 ++ [item])
  | none =>
    match read.2.getLast? with
    | some last =>
      (read.1, read.2.dropLast ++ [{ last with content := last.content ++ newline ++ line }])
    | none => (if read.1 = [] then line else read.1 ++ newline ++ line, [])

/-- `_history_items`: the header and the messages. -/
def historyItems (sec : PromptSection) : Text × List ChatMessage :=
  match sec.items with
  | some items => (sec.header, items)
  | none => (sec.content.splitOn '\n').foldl readHistoryLine ([], [])

def renderHistory (header : Text) (items : List ChatMessage) : Text :=
  PyText.join newline ((if header = [] then [] else [header])
    ++ items.map fun i => i.role.capitalized ++ ": ".toList ++ i.content)

section Shrink

variable (counter : TokenCounter) (provider : String) (targetTokens : Nat)

/-- The loop of `_keep_whole_lines`. -/
def wholeLines : List Text → Nat → List Text
  | [], _ => []
  | line :: rest, used =>
    let cost := counter.countText line provider + 1
    if targetTokens < used + cost then [] else line :: wholeLines rest (used + cost)

/-- `_keep_whole_lines`. -/
def keepWholeLines (text : Text) : Text :=
  match wholeLines counter provider targetTokens (text.splitOn '\n') 0 with
  -- not even the first line fits: keep its start, cut at a word boundary
  | [] => cutAtWord (counter.truncateTextToTokens text targetTokens provider) text
  | kept => PyText.rstrip (PyText.join newline kept)

/-- `while words and count(" ".join(words)) > target: words.pop(0)`. -/
def dropWords : List Text → List Text
  | [] => []
  | word :: rest =>
    if targetTokens < counter.countText (PyText.join [' '] (word :: rest)) provider then
      dropWords rest
    else word :: rest

/-- `while items and count(render) > target: items.pop(0)`. -/
def dropOldest (header : Text) : List ChatMessage → List ChatMessage
  | [] => []
  | item :: rest =>
    if targetTokens < counter.countText (renderHistory header (item :: rest)) provider then
      dropOldest header rest
    else item :: rest

/-- `_shrink_history`. -/
def shrinkHistory (sec : PromptSection) : PromptSection :=
  let (header, items) := historyItems sec
  if items = [] then
    -- no message can be read off the text: its leading words are dropped
    { sec with
      content :=
        PyText.strip (PyText.join [' ']
          (dropWords counter provider targetTokens (sec.content.splitOn ' '))) }
  else
    let items := dropOldest counter provider targetTokens header items
    { sec with
      items := sec.items.map fun _ => items
      content := if items = [] then [] else renderHistory header items }

/-- `_shrink`. -/
def shrink (sec : PromptSection) : PromptSection :=
  if sec.name = "conversation_history" then shrinkHistory counter provider targetTokens sec
  else { sec with content := keepWholeLines counter provider targetTokens sec.content }

/-- A section cut to a number of tokens, and counted again. -/
def cutTo (sec : PromptSection) : PromptSection :=
  if targetTokens = 0 then { sec with content := [], items := none, tokenCount := 0 }
  else
    let sec := shrink counter provider targetTokens sec
    { sec with tokenCount := counter.countText sec.content provider }

end Shrink

/-- The local variables of the trimming loop. -/
structure Trimming where
  working : List PromptSection
  excess : Nat
  trimmedNames : List String := []

variable (counter : TokenCounter) (provider : String)

/-- The loop body, for the section at position `idx`. -/
def trimSection (t : Trimming) (sec : PromptSection) (idx : Nat) : Trimming :=
  let canTrim := sec.tokenCount - sectionMinimum sec.name
  if canTrim = 0 then t
  else
    let actualTrim := min canTrim t.excess
    { working := t.working.set idx (cutTo counter provider (sec.tokenCount - actualTrim) sec)
      -- what was asked for, not what the cut section now counts
      excess := t.excess - actualTrim
      trimmedNames :=
        if sec.name ∈ t.trimmedNames then t.trimmedNames else t.trimmedNames ++ [sec.name] }

def trimLoop : List (PromptSection × Nat) → Trimming → Trimming
  | [], t => t
  | (sec, idx) :: rest, t =>
    if t.excess = 0 then t else trimLoop rest (trimSection counter provider t sec idx)

/-- The trimmable sections with their positions, by ascending priority; the
sort is stable. Every position occurs once, so the loop meets each section
as it came in. -/
def trimOrder (sections : List PromptSection) : List (PromptSection × Nat) :=
  (sections.zipIdx.filter fun s => s.1.canBeCut).insertionSort
    fun a b => a.1.priority ≤ b.1.priority

/-- `trim`, for sections that are over the budget. -/
def trimExcess (sections : List PromptSection) (excess : Nat) : Trimming :=
  trimLoop counter provider (trimOrder sections) { working := sections, excess }

def trim (sections : List PromptSection) (totalBudget : Nat) :
    Except Exc (List PromptSection × List String) :=
  let currentTotal := sectionTokens sections
  if currentTotal ≤ totalBudget then .ok (sections, [])
  else
    let t := trimExcess counter provider sections (currentTotal - totalBudget)
    -- a blank section is dropped, its tokens with it
    let finalSections := t.working.filter PromptSection.hasText
    let finalTotal := sectionTokens finalSections
    if totalBudget < finalTotal then
      .error (contextOverflow
        (s!"Cannot fit prompt within token budget ({totalBudget}) even after maximum trimming. "
          ++ s!"Locked sections require {finalTotal} tokens."))
    else .ok (finalSections, t.trimmedNames)

/-! ## What trimming keeps -/

variable {counter provider} {sections : List PromptSection} {totalBudget : Nat}

theorem trim_of_le (h : sectionTokens sections ≤ totalBudget) :
    trim counter provider sections totalBudget = .ok (sections, []) := by
  rw [trim, if_pos h]

/-- What `trim` returns is within its budget, by section counts. -/
theorem trim_tokens_le {out : List PromptSection} {names : List String}
    (h : trim counter provider sections totalBudget = .ok (out, names)) :
    sectionTokens out ≤ totalBudget := by
  simp only [trim] at h
  by_cases hfits : sectionTokens sections ≤ totalBudget
  · rw [if_pos hfits] at h
    cases h
    exact hfits
  · rw [if_neg hfits] at h
    split at h
    · cases h
    · cases h
      omega

theorem trim_error_cls {exc : Exc}
    (h : trim counter provider sections totalBudget = .error exc) :
    exc.cls = .contextOverflowError := by
  simp only [trim] at h
  split at h
  · cases h
  · split at h
    · cases h
      rfl
    · cases h

theorem mem_trimOrder {sec : PromptSection} {idx : Nat} (h : (sec, idx) ∈ trimOrder sections) :
    sections[idx]? = some sec ∧ sec.canBeCut := by
  simp only [trimOrder, List.mem_insertionSort, List.mem_filter] at h
  exact ⟨List.mem_zipIdx_iff_getElem?.mp h.1, h.2⟩

/-- One pass of the loop rewrites no section but its own. -/
theorem trimSection_working (t : Trimming) (sec : PromptSection) {idx j : Nat} (hj : idx ≠ j) :
    (trimSection counter provider t sec idx).working[j]? = t.working[j]? := by
  simp only [trimSection]
  split
  · rfl
  · exact List.getElem?_set_ne hj

variable (counter provider) in
theorem trimLoop_working (order : List (PromptSection × Nat)) (t : Trimming) {j : Nat}
    (hj : ∀ s ∈ order, s.2 ≠ j) :
    (trimLoop counter provider order t).working[j]? = t.working[j]? := by
  induction order generalizing t with
  | nil => rfl
  | cons head rest ih =>
    obtain ⟨sec, idx⟩ := head
    simp only [trimLoop]
    split
    · rfl
    · rw [ih _ (fun s hs => hj s (by simp [hs]))]
      exact trimSection_working t sec (hj (sec, idx) (by simp))

/-- A protected section that has text is in every prompt that `trim` returns. -/
theorem mem_of_trim {out : List PromptSection} {names : List String} {s : PromptSection}
    (h : trim counter provider sections totalBudget = .ok (out, names)) (hs : s ∈ sections)
    (hprotected : s.canBeCut = false) (htext : s.hasText) : s ∈ out := by
  simp only [trim] at h
  split at h
  · cases h
    exact hs
  · split at h
    · cases h
    · cases h
      obtain ⟨j, hj⟩ := List.getElem?_of_mem hs
      have horder : ∀ x ∈ trimOrder sections, x.2 ≠ j := by
        intro x hx heq
        obtain ⟨hget, hcut⟩ := mem_trimOrder hx
        rw [heq, hj] at hget
        cases hget
        rw [hprotected] at hcut
        cases hcut
      have hkept := trimLoop_working counter provider _
        { working := sections, excess := sectionTokens sections - totalBudget } horder
      exact List.mem_filter.mpr ⟨List.mem_of_getElem? (hkept.trans hj), htext⟩

theorem cutTo_name (counter : TokenCounter) (provider : String) (target : Nat)
    (s : PromptSection) : (cutTo counter provider target s).name = s.name := by
  simp only [cutTo]
  by_cases hzero : target = 0
  · rw [if_pos hzero]
  · rw [if_neg hzero]
    simp only [shrink]
    by_cases hhistory : s.name = "conversation_history"
    · rw [if_pos hhistory]
      simp only [shrinkHistory]
      split <;> rfl
    · rw [if_neg hhistory]

variable (counter provider) in
/-- The section as it came in, or cut to some number of tokens if it may be cut. -/
def IsCut (original s : PromptSection) : Prop :=
  s = original ∨ original.canBeCut ∧ ∃ target, s = cutTo counter provider target original

theorem trimSection_isCut {t : Trimming} {sec : PromptSection} {idx : Nat}
    (hsec : sections[idx]? = some sec) (hcut : sec.canBeCut)
    (ht : ∀ (j : Nat) s, t.working[j]? = some s →
      ∃ s₀, sections[j]? = some s₀ ∧ IsCut counter provider s₀ s) :
    ∀ (j : Nat) s, (trimSection counter provider t sec idx).working[j]? = some s →
      ∃ s₀, sections[j]? = some s₀ ∧ IsCut counter provider s₀ s := by
  intro j s hs
  simp only [trimSection] at hs
  by_cases hcan : sec.tokenCount - sectionMinimum sec.name = 0
  · rw [if_pos hcan] at hs
    exact ht j s hs
  · rw [if_neg hcan] at hs
    by_cases hj : idx = j
    · subst hj
      have hlt := (List.getElem?_eq_some_iff.mp hs).1
      rw [List.getElem?_set_self (by simpa using hlt)] at hs
      exact ⟨sec, hsec, .inr ⟨hcut, _, (Option.some.inj hs).symm⟩⟩
    · rw [List.getElem?_set_ne hj] at hs
      exact ht j s hs

theorem trimLoop_isCut {order : List (PromptSection × Nat)} {t : Trimming}
    (horder : ∀ x ∈ order, sections[x.2]? = some x.1 ∧ x.1.canBeCut)
    (ht : ∀ (j : Nat) s, t.working[j]? = some s →
      ∃ s₀, sections[j]? = some s₀ ∧ IsCut counter provider s₀ s) :
    ∀ (j : Nat) s, (trimLoop counter provider order t).working[j]? = some s →
      ∃ s₀, sections[j]? = some s₀ ∧ IsCut counter provider s₀ s := by
  induction order generalizing t with
  | nil => exact ht
  | cons head rest ih =>
    obtain ⟨sec, idx⟩ := head
    simp only [trimLoop]
    by_cases hdone : t.excess = 0
    · rw [if_pos hdone]
      exact ht
    · rw [if_neg hdone]
      apply ih fun x hx => horder x (List.mem_cons_of_mem _ hx)
      obtain ⟨hsec, hcut⟩ := horder (sec, idx) List.mem_cons_self
      exact trimSection_isCut hsec hcut ht

/-- Every section that `trim` returns came in, and was cut at most. -/
theorem isCut_of_trim {out : List PromptSection} {names : List String} {s : PromptSection}
    (h : trim counter provider sections totalBudget = .ok (out, names)) (hs : s ∈ out) :
    ∃ s₀ ∈ sections, IsCut counter provider s₀ s := by
  simp only [trim] at h
  by_cases hfits : sectionTokens sections ≤ totalBudget
  · rw [if_pos hfits] at h
    cases h
    exact ⟨s, hs, .inl rfl⟩
  · rw [if_neg hfits] at h
    split at h
    · cases h
    · cases h
      obtain ⟨j, hj⟩ := List.getElem?_of_mem (List.mem_of_mem_filter hs)
      obtain ⟨s₀, hs₀, hcut⟩ := trimLoop_isCut
        (t := { working := sections, excess := sectionTokens sections - totalBudget })
        (fun x hx => mem_trimOrder hx) (fun j s hs => ⟨s, hs, .inl rfl⟩) j s hj
      exact ⟨s₀, List.mem_of_getElem? hs₀, hcut⟩

variable (counter provider) in
/-- A protected section over the budget is never made to fit. -/
theorem trim_of_protected {s : PromptSection} (hs : s ∈ sections)
    (hprotected : s.canBeCut = false) (htext : s.hasText) (hover : totalBudget < s.tokenCount) :
    ∃ exc, trim counter provider sections totalBudget = .error exc
      ∧ exc.cls = .contextOverflowError := by
  cases h : trim counter provider sections totalBudget with
  | error exc => exact ⟨exc, rfl, trim_error_cls h⟩
  | ok result =>
    obtain ⟨out, names⟩ := result
    have hmem := mem_of_trim h hs hprotected htext
    have hle : s.tokenCount ≤ sectionTokens out :=
      List.le_sum_of_mem (List.mem_map_of_mem hmem)
    have htokens := trim_tokens_le h
    omega

end PriorityTrimmer

end LlmService
