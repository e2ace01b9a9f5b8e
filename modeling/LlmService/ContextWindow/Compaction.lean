import LlmService.ContextWindow.TokenCounter
import LlmService.Lib.Infix

/-!
# compact_history

`context_window/compaction.py`: the older turns of a history are condensed
into one note that stands before the newest messages.
-/

namespace LlmService

namespace Compaction

def noteHeader : Text :=
  "Earlier in this conversation (condensed; some detail is omitted):".toList

def lineClipChars : Nat := 180

/-- `CompactionResult`. -/
structure CompactionResult where
  messages : List Message
  kept : Nat := 0
  condensed : Nat := 0
  omitted : Nat := 0
  tokensBefore : Nat := 0
  tokensAfter : Nat := 0
  noteAdded : Bool := false
  deriving DecidableEq

/-- `changed`, set in `__post_init__`. -/
def CompactionResult.changed (r : CompactionResult) : Bool := 0 < r.condensed || 0 < r.omitted

/-- `_clip`: the start and the end of a long message, on one line. -/
def clip (text : Text) (limit : Nat) : Text :=
  let flat := PyText.join [' '] (PyText.words text)
  if flat.length ≤ limit then flat
  else
    let marker := s!" … [{flat.length - limit} chars omitted] … ".toList
    let room := limit - marker.length
    let head := room * 3 / 5
    let tail := room - head
    PyText.rstrip (flat.take head) ++ marker
      ++ (if tail = 0 then [] else PyText.lstrip (flat.drop (flat.length - tail)))

variable (counter : TokenCounter) (provider : String)

/-- `_tokens`. -/
def messageTokens (message : Message) : Nat := counter.countText message.content provider + 4

def historyTokens (messages : List Message) : Nat :=
  (messages.map (messageTokens counter provider)).sum

/-- `int(token_budget * (0.1 if has_memory_summary else note_share))`. -/
def noteReserve (tokenBudget : Nat) (hasMemorySummary : Bool) : Nat :=
  if hasMemorySummary then tokenBudget / 10 else tokenBudget * 3 / 10

/-- The first loop, over the history from its newest message back: how many
messages are kept verbatim, and what they cost. -/
def keepNewest (minRecent room : Nat) : List Message → Nat → Nat → Nat × Nat
  | [], kept, used => (kept, used)
  | message :: older, kept, used =>
    let cost := messageTokens counter provider message
    -- the newest `minRecent` are kept whatever they cost
    if minRecent < kept + 1 ∧ room < used + cost then (kept, used)
    else keepNewest minRecent room older (kept + 1) (used + cost)

/-- The line of the note for an older message; only what the user and the
assistant said is quoted. -/
def noteLine (message : Message) : Option Text :=
  if message.role = .user ∨ message.role = .assistant then
    some (message.role.capitalized ++ ": ".toList ++ clip message.content lineClipChars)
  else none

/-- The second loop, over the lines from the newest back. -/
def chooseLines (noteBudget : Nat) : List Text → Nat → List Text × Nat
  | [], spent => ([], spent)
  | line :: older, spent =>
    let cost := counter.countText line provider + 1
    if noteBudget < spent + cost then ([], spent)
    else
      let (chosen, spent) := chooseLines noteBudget older (spent + cost)
      (chosen ++ [line], spent)

/-- The note of some chosen lines. -/
def note (chosen : List Text) : Message :=
  { role := .system, content := noteHeader ++ ['\n'] ++ PyText.join ['\n'] chosen }

/-- A history that compaction leaves as it is. -/
def unchanged (messages : List Message) : CompactionResult :=
  let before := historyTokens counter provider messages
  { messages, kept := messages.length, tokensBefore := before, tokensAfter := before }

/-- The history with the `older` turns condensed. -/
def condense (tokenBudget used : Nat) (older kept : List Message) : CompactionResult :=
  let noteBudget := tokenBudget - used
  let headerCost := counter.countText noteHeader provider + 4
  let (chosen, spent) :=
    chooseLines counter provider noteBudget (older.filterMap noteLine).reverse headerCost
  -- without a note the older turns are gone from the messages altogether
  let noteAdded := chosen ≠ [] ∧ spent ≤ noteBudget
  let messages := if noteAdded then note chosen :: kept else kept
  { messages
    kept := kept.length
    condensed := chosen.length
    omitted := older.length - chosen.length
    tokensBefore := historyTokens counter provider (older ++ kept)
    tokensAfter := historyTokens counter provider messages
    noteAdded }

def compactHistory (messages : List Message) (tokenBudget minRecent : Nat)
    (hasMemorySummary : Bool) : CompactionResult :=
  if historyTokens counter provider messages ≤ tokenBudget ∨ messages = [] then
    unchanged counter provider messages
  else
    let room := tokenBudget - noteReserve tokenBudget hasMemorySummary
    let (kept, used) := keepNewest counter provider minRecent room messages.reverse 0 0
    let keepFrom := messages.length - kept
    if keepFrom = 0 then unchanged counter provider messages
    else condense counter provider tokenBudget used (messages.take keepFrom)
      (messages.drop keepFrom)

/-! ## What a compacted history is made of -/

variable {counter provider}

theorem unchanged_changed (messages : List Message) :
    (unchanged counter provider messages).changed = false := rfl

theorem unchanged_messages (messages : List Message) :
    (unchanged counter provider messages).messages = messages := rfl

/-- Only what the user and the assistant said is quoted. -/
theorem noteLine_role {message : Message} {line : Text} (h : noteLine message = some line) :
    message.role ≠ .system := by
  intro hrole
  simp [noteLine, hrole] at h

theorem chooseLines_subset {noteBudget spent : Nat} {lines : List Text} :
    ∀ line ∈ (chooseLines counter provider noteBudget lines spent).1, line ∈ lines := by
  induction lines generalizing spent with
  | nil => simp [chooseLines]
  | cons head rest ih =>
    intro line hline
    simp only [chooseLines] at hline
    split at hline
    · simp at hline
    · rcases List.mem_append.mp hline with h | h
      · exact List.mem_cons_of_mem _ (ih line h)
      · simp at h
        simp [h]

/-- A history is compacted to a suffix of itself, or to a note before a proper
suffix whose lines quote what the user and the assistant said in it. -/
inductive Condenses (messages : List Message) : List Message → Prop where
  | kept (n : Nat) : Condenses messages (messages.drop n)
  | noted (n : Nat) (chosen : List Text) : 0 < n →
      (∀ line ∈ chosen, ∃ m ∈ messages, noteLine m = some line) →
      Condenses messages (note chosen :: messages.drop n)

/-- Compacting a compacted history condenses the first one: a note is never
quoted, and never stands behind another one. -/
theorem Condenses.trans {messages once twice : List Message} (h : Condenses messages once)
    (h' : Condenses once twice) : Condenses messages twice := by
  cases h with
  | kept n =>
    cases h' with
    | kept k =>
      rw [List.drop_drop]
      exact .kept _
    | noted k chosen hk hquotes =>
      rw [List.drop_drop]
      apply Condenses.noted _ _ (by omega)
      intro line hline
      obtain ⟨m, hm, hquote⟩ := hquotes line hline
      exact ⟨m, List.mem_of_mem_drop hm, hquote⟩
  | noted n chosen hn hquotes =>
    cases h' with
    | kept k =>
      cases k with
      | zero => exact .noted n chosen hn hquotes
      | succ k =>
        rw [List.drop_succ_cons, List.drop_drop]
        exact .kept _
    | noted k chosen' hk hquotes' =>
      obtain ⟨k, rfl⟩ : ∃ j, k = j + 1 := ⟨k - 1, by omega⟩
      rw [List.drop_succ_cons, List.drop_drop]
      apply Condenses.noted _ _ (by omega)
      intro line hline
      obtain ⟨m, hm, hquote⟩ := hquotes' line hline
      rcases List.mem_cons.mp hm with rfl | hm
      · exact absurd rfl (noteLine_role hquote)
      · exact ⟨m, List.mem_of_mem_drop hm, hquote⟩

theorem condense_condenses {messages : List Message} (tokenBudget used : Nat) {keepFrom : Nat}
    (hkeep : 0 < keepFrom) :
    Condenses messages (condense counter provider tokenBudget used (messages.take keepFrom)
      (messages.drop keepFrom)).messages := by
  simp only [condense]
  split
  · apply Condenses.noted _ _ hkeep
    intro line hline
    have hmem := chooseLines_subset line hline
    rw [List.mem_reverse, List.mem_filterMap] at hmem
    obtain ⟨m, hm, hquote⟩ := hmem
    exact ⟨m, List.mem_of_mem_take hm, hquote⟩
  · exact .kept keepFrom

theorem compactHistory_condenses (messages : List Message) (tokenBudget minRecent : Nat)
    (hasMemorySummary : Bool) :
    Condenses messages
      (compactHistory counter provider messages tokenBudget minRecent hasMemorySummary).messages := by
  simp only [compactHistory]
  split
  · exact .kept 0
  · split
    · exact .kept 0
    · exact condense_condenses _ _ (by omega)

/-- Condensing older turns never gives the history back: a note stands in for
them as a system message, and only user and assistant messages are quoted. -/
theorem condense_ne {older kept : List Message} (holder : older ≠ []) (tokenBudget used : Nat) :
    (condense counter provider tokenBudget used older kept).messages ≠ older ++ kept := by
  simp only [condense]
  split
  · rename_i hnote
    intro heq
    obtain ⟨m, rest, rfl⟩ := List.exists_cons_of_ne_nil holder
    cases rest with
    | nil =>
      have hrole : Role.system = m.role := congrArg Message.role (List.cons.inj heq).1
      obtain ⟨line, hline⟩ := List.exists_mem_of_ne_nil _ hnote.1
      have hquoted := chooseLines_subset line hline
      simp only [List.mem_reverse, List.mem_filterMap, List.mem_singleton] at hquoted
      obtain ⟨m', rfl, hquote⟩ := hquoted
      exact noteLine_role hquote hrole.symm
    | cons m' rest =>
      have hlength := congrArg List.length heq
      simp only [List.length_cons, List.length_append] at hlength
      omega
  · intro heq
    have hlength := congrArg List.length heq
    have hpos := List.length_pos_iff.mpr holder
    simp only [List.length_append] at hlength
    omega

theorem condense_changed {older kept : List Message} (holder : older ≠ [])
    (tokenBudget used : Nat) :
    (condense counter provider tokenBudget used older kept).changed = true := by
  have hpos := List.length_pos_iff.mpr holder
  unfold CompactionResult.changed condense
  simp only [Bool.or_eq_true, decide_eq_true_eq]
  omega

/-- `changed` says whether the history is another one. -/
theorem changed_iff_ne (messages : List Message) (tokenBudget minRecent : Nat)
    (hasMemorySummary : Bool) :
    (compactHistory counter provider messages tokenBudget minRecent hasMemorySummary).changed
      ↔ (compactHistory counter provider messages tokenBudget minRecent
          hasMemorySummary).messages ≠ messages := by
  simp only [compactHistory]
  split
  · simp [unchanged_changed, unchanged_messages]
  · rename_i hneeded
    split
    · simp [unchanged_changed, unchanged_messages]
    · rename_i hkeep
      have holder : messages.take (messages.length
          - (keepNewest counter provider minRecent
              (tokenBudget - noteReserve tokenBudget hasMemorySummary) messages.reverse 0 0).1)
            ≠ [] := by
        intro h
        rcases List.take_eq_nil_iff.mp h with h | h
        · exact hkeep h
        · exact hneeded (.inr h)
      constructor
      · intro _ heq
        refine condense_ne holder _ _ (heq.trans ?_)
        rw [List.take_append_drop]
      · intro _
        exact condense_changed holder _ _

/-- The newest messages are kept, at least `minRecent` of them. -/
theorem keepNewest_ge (minRecent room : Nat) (newest : List Message) (kept used : Nat) :
    min minRecent (kept + newest.length)
      ≤ (keepNewest counter provider minRecent room newest kept used).1 := by
  induction newest generalizing kept used with
  | nil => simp [keepNewest]
  | cons message older ih =>
    simp only [keepNewest]
    by_cases hstop : minRecent < kept + 1 ∧
        room < used + messageTokens counter provider message
    · rw [if_pos hstop]
      omega
    · rw [if_neg hstop]
      have h := ih (kept + 1) (used + messageTokens counter provider message)
      simp only [List.length_cons]
      omega

/-- What is kept is the newest messages, and their cost is what is used. -/
theorem keepNewest_eq (counter : TokenCounter) (provider : String) (minRecent room : Nat)
    (newest : List Message) (kept used : Nat) :
    ∃ k ≤ newest.length, keepNewest counter provider minRecent room newest kept used =
      (kept + k, used + historyTokens counter provider (newest.take k)) := by
  induction newest generalizing kept used with
  | nil => exact ⟨0, Nat.le_refl 0, rfl⟩
  | cons message older ih =>
    simp only [keepNewest]
    by_cases hstop : minRecent < kept + 1 ∧
        room < used + messageTokens counter provider message
    · rw [if_pos hstop]
      exact ⟨0, Nat.zero_le _, rfl⟩
    · rw [if_neg hstop]
      obtain ⟨k, hk, heq⟩ := ih (kept + 1) (used + messageTokens counter provider message)
      refine ⟨k + 1, Nat.succ_le_succ hk, ?_⟩
      rw [heq, List.take_succ_cons]
      simp only [historyTokens, List.map_cons, List.sum_cons, Prod.mk.injEq]
      omega

/-- The chosen lines are the newest, and their cost is what is spent. -/
theorem chooseLines_eq (counter : TokenCounter) (provider : String) (noteBudget : Nat)
    (lines : List Text) (spent : Nat) :
    ∃ k, chooseLines counter provider noteBudget lines spent =
      ((lines.take k).reverse,
        spent + ((lines.take k).map fun line => counter.countText line provider + 1).sum) := by
  induction lines generalizing spent with
  | nil => exact ⟨0, rfl⟩
  | cons line older ih =>
    simp only [chooseLines]
    by_cases hover : noteBudget < spent + (counter.countText line provider + 1)
    · rw [if_pos hover]
      exact ⟨0, rfl⟩
    · rw [if_neg hover]
      obtain ⟨k, heq⟩ := ih (spent + (counter.countText line provider + 1))
      refine ⟨k + 1, ?_⟩
      rw [heq, List.take_succ_cons]
      simp only [List.reverse_cons, List.map_cons, List.sum_cons, Prod.mk.injEq, true_and]
      omega

theorem chooseLines_spent_le {noteBudget spent : Nat} {lines : List Text}
    (h : spent ≤ noteBudget) : (chooseLines counter provider noteBudget lines spent).2 ≤ noteBudget := by
  induction lines generalizing spent with
  | nil => exact h
  | cons line older ih =>
    simp only [chooseLines]
    by_cases hover : noteBudget < spent + (counter.countText line provider + 1)
    · rw [if_pos hover]
      exact h
    · rw [if_neg hover]
      exact ih (by omega)

theorem chooseLines_of_over {noteBudget spent : Nat} {lines : List Text}
    (h : noteBudget < spent) : (chooseLines counter provider noteBudget lines spent).1 = [] := by
  cases lines with
  | nil => rfl
  | cons line older => rw [chooseLines, if_pos (by omega)]

/-- What compaction can do: nothing, or it keeps a proper suffix of the history
and condenses what is before it. -/
theorem compactHistory_cases (counter : TokenCounter) (provider : String)
    (messages : List Message) (tokenBudget minRecent : Nat) (hasMemorySummary : Bool) :
    compactHistory counter provider messages tokenBudget minRecent hasMemorySummary =
        unchanged counter provider messages ∨
      tokenBudget < historyTokens counter provider messages ∧
        ∃ kept, min minRecent messages.length ≤ kept ∧ kept < messages.length ∧
          compactHistory counter provider messages tokenBudget minRecent hasMemorySummary =
            condense counter provider tokenBudget
              (historyTokens counter provider (messages.drop (messages.length - kept)))
              (messages.take (messages.length - kept))
              (messages.drop (messages.length - kept)) := by
  simp only [compactHistory]
  by_cases hfits : historyTokens counter provider messages ≤ tokenBudget ∨ messages = []
  · rw [if_pos hfits]
    exact .inl rfl
  · rw [if_neg hfits]
    generalize hroom : tokenBudget - noteReserve tokenBudget hasMemorySummary = room
    obtain ⟨kept, -, heq⟩ := keepNewest_eq counter provider minRecent room messages.reverse 0 0
    have hge : min minRecent (0 + messages.reverse.length) ≤
        (keepNewest counter provider minRecent room messages.reverse 0 0).1 :=
      keepNewest_ge minRecent room messages.reverse 0 0
    rw [heq, List.length_reverse, Nat.zero_add, Nat.zero_add] at hge
    have hused : historyTokens counter provider (messages.reverse.take kept) =
        historyTokens counter provider (messages.drop (messages.length - kept)) := by
      rw [List.take_reverse, historyTokens, historyTokens, List.map_reverse, List.sum_reverse]
    rw [heq, hused]
    simp only [Nat.zero_add]
    by_cases hall : messages.length - kept = 0
    · rw [if_pos hall]
      exact .inl rfl
    · rw [if_neg hall]
      refine .inr ⟨by omega, kept, hge, by omega, rfl⟩

/-- What condensing can do: the older turns are omitted, or the newest of their
lines are noted, within what the budget has left. -/
theorem condense_cases (counter : TokenCounter) (provider : String) (tokenBudget used : Nat)
    (older kept : List Message) :
    (condense counter provider tokenBudget used older kept).condensed = 0 ∧
        (condense counter provider tokenBudget used older kept).messages = kept ∨
      ∃ chosen, chosen ≠ [] ∧ chosen <:+ older.filterMap noteLine ∧
        (condense counter provider tokenBudget used older kept).condensed = chosen.length ∧
        (condense counter provider tokenBudget used older kept).messages = note chosen :: kept ∧
        counter.countText noteHeader provider + 4
            + (chosen.map fun line => counter.countText line provider + 1).sum
          ≤ tokenBudget - used := by
  simp only [condense]
  generalize hcost : counter.countText noteHeader provider + 4 = headerCost
  generalize hbudget : tokenBudget - used = noteBudget
  obtain ⟨k, heq⟩ := chooseLines_eq counter provider noteBudget
    (older.filterMap noteLine).reverse headerCost
  generalize hchosen : ((older.filterMap noteLine).reverse.take k).reverse = chosen at heq
  have hspent : (((older.filterMap noteLine).reverse.take k).map
      fun line => counter.countText line provider + 1).sum =
      (chosen.map fun line => counter.countText line provider + 1).sum := by
    rw [← hchosen, List.map_reverse, List.sum_reverse]
  rw [hspent] at heq
  rw [heq]
  by_cases hnote : chosen = []
  · left
    simp [hnote]
  · right
    have hle : headerCost ≤ noteBudget := by
      by_contra hover
      have hnone : (chooseLines counter provider noteBudget
          (older.filterMap noteLine).reverse headerCost).1 = [] :=
        chooseLines_of_over (Nat.not_le.mp hover)
      rw [heq] at hnone
      exact hnote hnone
    have hwithin : (chooseLines counter provider noteBudget
        (older.filterMap noteLine).reverse headerCost).2 ≤ noteBudget := chooseLines_spent_le hle
    rw [heq] at hwithin
    refine ⟨chosen, hnote, ?_, rfl, if_pos ⟨hnote, hwithin⟩, hwithin⟩
    rw [← hchosen, List.take_reverse, List.reverse_reverse]
    exact List.drop_suffix _ _

/-! ## The text of a note -/

theorem newline_not_mem_clip (text : Text) (limit : Nat) : '\n' ∉ clip text limit := by
  have hflat : '\n' ∉ PyText.join [' '] (PyText.words text) := by
    intro h
    rcases PyText.mem_join h with h | ⟨word, hword, h⟩
    · simp at h
    · exact absurd (PyText.not_isSpace_of_mem_words hword _ h) (by decide)
  have hdigits : ∀ n : Nat, '\n' ∉ n.repr.toList := by
    intro n h
    rw [Nat.toList_repr] at h
    exact absurd (Nat.isDigit_of_mem_toDigits (by decide) (by decide) h) (by decide)
  simp only [clip]
  generalize PyText.join [' '] (PyText.words text) = flat at hflat
  by_cases hshort : flat.length ≤ limit
  · rw [if_pos hshort]
    exact hflat
  · rw [if_neg hshort]
    intro h
    rcases List.mem_append.mp h with h | h
    · rcases List.mem_append.mp h with h | h
      · exact hflat (List.mem_of_mem_take ((PyText.rstrip_isPrefix _).subset h))
      · have hmarker : '\n' ∉
            (s!" … [{flat.length - limit} chars omitted] … " : String).toList := by
          intro h
          simp only [String.toList_append, List.mem_append] at h
          rcases h with (h | h) | h
          · exact absurd h (by decide)
          · exact hdigits _ h
          · exact absurd h (by decide)
        exact hmarker h
    · split at h
      · cases h
      · exact hflat (List.mem_of_mem_drop ((List.dropWhile_suffix _).subset h))

/-- The line of a message is not empty, and does not break. -/
theorem noteLine_line {m : Message} {line : Text} (h : noteLine m = some line) :
    line ≠ [] ∧ '\n' ∉ line := by
  simp only [noteLine] at h
  by_cases hrole : m.role = .user ∨ m.role = .assistant
  · rw [if_pos hrole] at h
    obtain rfl := Option.some.inj h
    have hlabel : '\n' ∉ m.role.capitalized ++ ": ".toList := by
      cases m.role <;> decide
    constructor
    · simp
    · intro h
      rcases List.mem_append.mp h with h | h
      · exact hlabel h
      · exact newline_not_mem_clip _ _ h
  · rw [if_neg hrole] at h
    cases h

theorem note_content {chosen : List Text} (h : chosen ≠ []) :
    (note chosen).content = PyText.join ['\n'] (noteHeader :: chosen) := by
  cases chosen with
  | nil => exact absurd rfl h
  | cons line rest => rw [PyText.join, List.intercalate_cons_cons]; rfl

end Compaction

end LlmService
