import LlmService.ContextWindow.Compaction

/-!
# The contract of compact_history

A history that does not fit its budget becomes an optional note and the newest
messages. The note quotes a run of what the user and the assistant said just
before them, and every message is kept, condensed or omitted.
-/

namespace LlmService

namespace Compaction

/-- Whether a message can be quoted in a note. -/
def isQuoted (message : Message) : Bool := message.role = .user ∨ message.role = .assistant

/-- The line that quotes a message. -/
def quote (message : Message) : Text :=
  message.role.capitalized ++ ": ".toList ++ clip message.content lineClipChars

/-- The note, if there is one, quotes the newest of the older turns. -/
structure Notes (older : List Message) (condensed : Nat) (msg : Message) : Prop where
  role : msg.role = .system
  lines : ∃ run, run <:+ older.filter isQuoted ∧ run.length = condensed ∧
    msg.content.splitOn '\n' = noteHeader :: run.map quote

/-- What a compacted history is to the history and its budget. -/
structure Contract (counter : TokenCounter) (provider : String) (messages : List Message)
    (tokenBudget minRecent : Nat) (r : CompactionResult) : Prop where
  unchanged : historyTokens counter provider messages ≤ tokenBudget →
    r.messages = messages ∧ r.kept = messages.length
  kept_ge : min minRecent messages.length ≤ r.kept
  total : r.kept + r.condensed + r.omitted = messages.length
  noted : ∃ noted : Option Message,
    r.messages = noted.toList ++ messages.drop (messages.length - r.kept) ∧
      (noted.isSome ↔ 0 < r.condensed) ∧
      ∀ msg ∈ noted, Notes (messages.take (messages.length - r.kept)) r.condensed msg
  tokensAfter : r.tokensAfter = historyTokens counter provider r.messages
  fits : historyTokens counter provider (messages.drop (messages.length - r.kept)) ≤ tokenBudget →
    r.tokensAfter ≤ tokenBudget

/-- A newline in a text costs at most one token. -/
def Additive (counter : TokenCounter) (provider : String) : Prop :=
  ∀ first : Text, ∀ rest : List Text,
    counter.countText (PyText.join ['\n'] (first :: rest)) provider ≤
      ((first :: rest).map (counter.countText · provider)).sum + rest.length

variable {counter : TokenCounter} {provider : String}

theorem filterMap_noteLine (older : List Message) :
    older.filterMap noteLine = (older.filter isQuoted).map quote := by
  induction older with
  | nil => rfl
  | cons message older ih =>
    by_cases hrole : message.role = .user ∨ message.role = .assistant
    · have hline : noteLine message = some (quote message) := if_pos hrole
      rw [List.filterMap_cons_some hline, List.filter_cons_of_pos (by simpa [isQuoted]),
        List.map_cons, ih]
    · have hline : noteLine message = none := if_neg hrole
      rw [List.filterMap_cons_none hline, List.filter_cons_of_neg (by simpa [isQuoted] using hrole),
        ih]

theorem splitOn_note {chosen : List Text} (hne : chosen ≠ [])
    (hlines : ∀ line ∈ chosen, '\n' ∉ line) :
    (note chosen).content.splitOn '\n' = noteHeader :: chosen := by
  rw [note_content hne, PyText.join]
  apply List.splitOn_intercalate
  · intro line hline
    rcases List.mem_cons.mp hline with rfl | hline
    · decide
    · exact hlines line hline
  · simp

/-- The note of a suffix of the older turns' lines. -/
theorem notes_note {older : List Message} {chosen : List Text} (hne : chosen ≠ [])
    (hsuffix : chosen <:+ older.filterMap noteLine) : Notes older chosen.length (note chosen) := by
  refine ⟨rfl, ?_⟩
  have hlines : ∀ line ∈ chosen, '\n' ∉ line := by
    intro line hline
    obtain ⟨m, -, hquote⟩ := List.mem_filterMap.mp (hsuffix.subset hline)
    exact (noteLine_line hquote).2
  rw [filterMap_noteLine] at hsuffix
  obtain ⟨run, hrun, rfl⟩ := List.suffix_map_iff.mp hsuffix
  refine ⟨run, hrun, (List.length_map quote).symm, splitOn_note hne hlines⟩

/-- What is spent on the lines is enough for the note. -/
theorem messageTokens_note_le (hcounter : Additive counter provider) {chosen : List Text}
    (hne : chosen ≠ []) :
    messageTokens counter provider (note chosen) ≤
      counter.countText noteHeader provider + 4
        + (chosen.map fun line => counter.countText line provider + 1).sum := by
  have hjoin := hcounter noteHeader chosen
  rw [List.map_cons, List.sum_cons] at hjoin
  have hsum : (chosen.map fun line => counter.countText line provider + 1).sum =
      (chosen.map (counter.countText · provider)).sum + chosen.length := by
    rw [List.sum_map_add]
    simp
  rw [messageTokens, note_content hne, hsum]
  omega

theorem historyTokens_cons (message : Message) (rest : List Message) :
    historyTokens counter provider (message :: rest) =
      messageTokens counter provider message + historyTokens counter provider rest := rfl

theorem condense_counts (counter : TokenCounter) (provider : String) (tokenBudget used : Nat)
    (older kept : List Message) :
    (condense counter provider tokenBudget used older kept).kept = kept.length ∧
      (condense counter provider tokenBudget used older kept).omitted =
        older.length - (condense counter provider tokenBudget used older kept).condensed ∧
      (condense counter provider tokenBudget used older kept).tokensAfter =
        historyTokens counter provider
          (condense counter provider tokenBudget used older kept).messages :=
  ⟨rfl, rfl, rfl⟩

theorem unchanged_contract (messages : List Message) (tokenBudget minRecent : Nat) :
    Contract counter provider messages tokenBudget minRecent
      (unchanged counter provider messages) where
  unchanged := fun _ => ⟨rfl, rfl⟩
  kept_ge := Nat.min_le_right _ _
  total := by simp [unchanged]
  noted := ⟨none, by simp [unchanged], by simp [unchanged], by simp⟩
  tokensAfter := rfl
  fits := by
    intro h
    simpa [unchanged] using h

/-- Condensing what does not fit keeps the contract. -/
theorem condense_contract (hcounter : Additive counter provider) {messages : List Message}
    {tokenBudget minRecent kept : Nat}
    (hover : tokenBudget < historyTokens counter provider messages)
    (hge : min minRecent messages.length ≤ kept) (hlt : kept < messages.length) :
    Contract counter provider messages tokenBudget minRecent
      (condense counter provider tokenBudget
        (historyTokens counter provider (messages.drop (messages.length - kept)))
        (messages.take (messages.length - kept))
        (messages.drop (messages.length - kept))) := by
  have hlength : (messages.drop (messages.length - kept)).length = kept := by
    rw [List.length_drop]
    omega
  have holder : (messages.take (messages.length - kept)).length = messages.length - kept := by
    rw [List.length_take]
    omega
  have hcases := condense_cases counter provider tokenBudget
    (historyTokens counter provider (messages.drop (messages.length - kept)))
    (messages.take (messages.length - kept)) (messages.drop (messages.length - kept))
  obtain ⟨hkept, homitted, hafter⟩ := condense_counts counter provider tokenBudget
    (historyTokens counter provider (messages.drop (messages.length - kept)))
    (messages.take (messages.length - kept)) (messages.drop (messages.length - kept))
  generalize condense counter provider tokenBudget
    (historyTokens counter provider (messages.drop (messages.length - kept)))
    (messages.take (messages.length - kept)) (messages.drop (messages.length - kept)) = r
    at hcases hkept homitted hafter
  rw [hlength] at hkept
  rw [holder] at homitted
  rcases hcases with ⟨hnone, hmessages⟩ | ⟨chosen, hne, hsuffix, hcondensed, hmessages, hspent⟩
  · exact
      { unchanged := fun h => absurd h (Nat.not_le.mpr hover)
        kept_ge := by rw [hkept]; exact hge
        total := by omega
        noted := ⟨none, by rw [hmessages, hkept]; rfl, by simp [hnone], by simp⟩
        tokensAfter := hafter
        fits := by
          intro h
          rw [hafter, hmessages, ← hkept]
          exact h }
  · have hcount : chosen.length ≤ messages.length - kept := by
      have h := hsuffix.length_le
      have h' := List.length_filterMap_le noteLine (messages.take (messages.length - kept))
      omega
    have hpos := List.length_pos_iff.mpr hne
    exact
      { unchanged := fun h => absurd h (Nat.not_le.mpr hover)
        kept_ge := by rw [hkept]; exact hge
        total := by omega
        noted := by
          refine ⟨some (note chosen), by rw [hmessages, hkept]; rfl, by simp; omega, ?_⟩
          intro msg hmsg
          obtain rfl := Option.some.inj hmsg
          rw [hkept, hcondensed]
          exact notes_note hne hsuffix
        tokensAfter := hafter
        fits := by
          intro h
          rw [hkept] at h
          have hnote := messageTokens_note_le hcounter hne
          rw [hafter, hmessages, historyTokens_cons]
          omega }

theorem compactHistory_contract (hcounter : Additive counter provider) (messages : List Message)
    (tokenBudget minRecent : Nat) (hasMemorySummary : Bool) :
    Contract counter provider messages tokenBudget minRecent
      (compactHistory counter provider messages tokenBudget minRecent hasMemorySummary) := by
  rcases compactHistory_cases counter provider messages tokenBudget minRecent hasMemorySummary
    with heq | ⟨hover, kept, hge, hlt, heq⟩
  · rw [heq]
    exact unchanged_contract messages tokenBudget minRecent
  · rw [heq]
    exact condense_contract hcounter hover hge hlt

/-- The built-in counter, of about four characters per token, is additive. -/
theorem additive_of_fallback (hfallback : counter.tokenizer = none)
    (hmultiplier : TokenCounter.multiplier provider = 1) : Additive counter provider := by
  have hcount : ∀ text : Text, text ≠ [] →
      counter.countText text provider = max 1 (text.length / 4) :=
    fun text htext => counter.countText_fallback hfallback hmultiplier htext
  intro first rest
  induction rest generalizing first with
  | nil => simp [PyText.join]
  | cons second rest ih =>
    have htail := ih second
    rw [PyText.join_cons _ _ (List.cons_ne_nil _ _)]
    generalize PyText.join ['\n'] (second :: rest) = tail at htail
    simp only [List.map_cons, List.sum_cons, List.length_cons] at htail ⊢
    have hsplit : counter.countText (first ++ ['\n'] ++ tail) provider ≤
        counter.countText first provider + counter.countText tail provider + 1 := by
      rw [hcount _ (by simp)]
      simp only [List.length_append, List.length_singleton]
      by_cases hfirst : first = [] <;> by_cases htext : tail = []
      · simp [hfirst, htext]
      · rw [hcount tail htext, hfirst, counter.countText_nil, List.length_nil]
        omega
      · rw [hcount first hfirst, htext, counter.countText_nil, List.length_nil]
        omega
      · rw [hcount first hfirst, hcount tail htext]
        omega
    omega

/-- An old question, a tool's answer and a reply, of which the budget keeps the
reply and a line of the question. -/
theorem compactHistory_contract_noted :
    let messages : List Message :=
      [{ role := .user, content := List.replicate 400 'q' },
        { role := .tool, content := List.replicate 400 't' },
        { role := .assistant, content := "reply".toList }]
    (compactHistory {} "openai" messages 80 1 false).condensed = 1 ∧
      (compactHistory {} "openai" messages 80 1 false).omitted = 1 ∧
      Contract {} "openai" messages 80 1 (compactHistory {} "openai" messages 80 1 false) :=
  ⟨by decide +kernel, by decide +kernel,
    compactHistory_contract (additive_of_fallback rfl (by decide)) _ 80 1 false⟩

end Compaction

end LlmService
