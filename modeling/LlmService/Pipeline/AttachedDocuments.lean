import Mathlib.Data.Nat.Digits.Defs
import LlmService.ContextWindow.Manager
import LlmService.ContextWindow.TrimmedSection
import LlmService.Prompts.Documents

/-!
# Attached documents

`RequestPipeline._enforce_document_context`, between the merged context and the
prompt: a turn with attached documents fails, or its prompt is built from what
was retrieved and trimmed to a budget.
-/

namespace LlmService

namespace AttachedDocuments

open Documents PriorityTrimmer

/-- `_DOCUMENT_MESSAGES`. -/
def documentMessage : RetrievalStatus → String
  | .accessDenied =>
    "You don't have access to the attached document, or it no longer exists. Re-upload it and try again."
  | .notIndexed => "The attached document has not been indexed yet. Wait a moment and try again."
  | .indexing => "The attached document is still being processed. Try again in a few seconds."
  | .indexingFailed =>
    "The attached document could not be processed, so it can't be searched. Re-upload it or retry its processing."
  | .unavailable =>
    "The document search service is temporarily unavailable, so the attached document could not be read. Please try again."
  | .timeout => "Searching the attached document took too long. Please try again."
  | .ok | .noMatch | .noScope =>
    "The attached document could not be read right now. Please try again."

/-- `DocumentContextUnavailableError(status, detail)`. -/
def documentContextUnavailable (status : RetrievalStatus) (detail : String) : Exc where
  cls := .userFacingError
  message := s!"Attached document context unavailable: {status.name} ({detail})"
  errorCode := some ("DOCUMENT_" ++ status.name)
  errorType := .grpc
  userMessage := documentMessage status

/-- The statuses that fail the turn. -/
def isFailure : RetrievalStatus → Bool
  | .accessDenied | .notIndexed | .indexing | .indexingFailed | .unavailable | .timeout => true
  | .ok | .noMatch | .noScope => false

def noMatchNotice : Text :=
  ("The user attached document(s), but no passage in them was relevant to this question. "
    ++ "Say clearly that the attached document does not appear to contain the answer; do not invent its contents.").toList

def skippedNotice (skipped : Nat) : Text :=
  decimalText skipped
    ++ " of the attached documents could not be accessed and were skipped.".toList

/-- `_enforce_document_context`: the notice that it leaves, which may be empty. -/
def enforceDocumentContext (fileIds : List String) (retrieval : Option RetrievalContext) :
    Except Exc Text :=
  if fileIds = [] then .ok []
  else
    match retrieval with
    | none =>
      -- the call itself failed
      .error (documentContextUnavailable .unavailable "retrieval service unreachable")
    | some retrieval =>
      if isFailure retrieval.status then
        .error (documentContextUnavailable retrieval.status retrieval.statusDetail)
      else
        .ok (PyText.join [' ']
          ((if retrieval.status = .noMatch then [noMatchNotice] else [])
            ++ (if 0 < retrieval.authorizedCount
                  ∧ retrieval.authorizedCount < retrieval.requestedCount then
                [skippedNotice (retrieval.requestedCount - retrieval.authorizedCount)]
              else [])))

/-- A turn, as far as its prompt depends on attached documents. -/
structure DocumentTurn (Digest : Type) where
  merger : ContextMerger Digest
  fileIds : List String
  /-- What the retrieval client delivers, unless its call raises. -/
  retrieval : Option RetrievalContext
  graph : Option GraphContext := none
  coveragePrompt : Bool := true
  others : OtherTexts
  counter : TokenCounter := {}

namespace DocumentTurn

variable {Digest : Type} (d : DocumentTurn Digest)

/-- The retrieval result of the merged context. -/
def merged [DecidableEq Digest] : Option RetrievalContext := d.retrieval.map (d.merger.mergeRetrieval · d.graph)

/-- What `_build_sections` works with. -/
def prompt [DecidableEq Digest] (documentNotice : Text) : DocumentPrompt where
  fileIds := d.fileIds
  retrieval := d.merged
  graph := d.graph.map ContextMerger.deduplicateGraph
  documentNotice
  coveragePrompt := d.coveragePrompt
  unicode := d.merger.unicode
  others := d.others
  counter := d.counter

/-- The prompt of the turn, if its documents can be used. -/
def composed [DecidableEq Digest] (histories : Histories) : Except Exc ComposedPrompt := do
  let notice ← enforceDocumentContext d.fileIds d.merged
  return (d.prompt notice).builder.build histories

/-- The section has a passage, or the start of its text, at its place. -/
def ShowsPassage (retrieval : RetrievalContext) (content : Text) : Prop :=
  ∃ before chunk after text, retrieval.chunks = before ++ chunk :: after ∧
    text ≠ [] ∧ text <+: PyText.strip chunk.content ∧
    PyText.join ['\n'] ([retrievalTitle, retrievalPreamble]
        ++ passageLines d.merger.unicode 1 before ++
        [passageLabel d.merger.unicode (before.length + 1) chunk ++ text]) <+: content

/-- The section has the note about weak coverage, at its place. -/
def ShowsNote (retrieval : RetrievalContext) (content : Text) : Prop :=
  coverageNote d.coveragePrompt retrieval ≠ none ∧
    formatRetrieval d.merger.unicode d.coveragePrompt retrieval <+: content

/-- A message has a passage of the documents, or says that they do not answer. -/
def Attended [DecidableEq Digest] (trimmed : TrimmedPrompt) : Prop :=
  ∃ s ∈ trimmed.sections, (∃ msg ∈ trimmed.messages, s.content <:+: msg.content) ∧
    ((s.name = "document_notice" ∧ noMatchNotice <:+: s.content) ∨
      (s.name = "retrieval" ∧ ∃ retrieval, d.merged = some retrieval ∧
        (d.ShowsPassage retrieval s.content ∨ d.ShowsNote retrieval s.content)))

end DocumentTurn

/-! ## The first thing that attends to the documents -/

section Evidence

variable (u : PyText.UnicodeData)

/-- The section of the passages up to the first character of the first
passage with text, after some lines. -/
def firstPassage : List Text → Nat → List DocumentChunk → Option Text
  | _, _, [] => none
  | lines, idx, chunk :: rest =>
    match PyText.strip chunk.content with
    | c :: _ => some (PyText.join ['\n'] (lines ++ [passageLabel u idx chunk ++ [c]]))
    | [] => firstPassage (lines ++ [passageLine u idx chunk]) (idx + 1) rest

theorem passageLines_append (idx : Nat) (before after : List DocumentChunk) :
    passageLines u idx (before ++ after) =
      passageLines u idx before ++ passageLines u (before.length + idx) after := by
  induction before generalizing idx with
  | nil =>
    rw [List.length_nil, Nat.zero_add]
    rfl
  | cons chunk rest ih =>
    rw [List.cons_append, passageLines, passageLines, ih, List.cons_append, List.length_cons,
      Nat.add_right_comm, Nat.add_assoc]

/-- What comes up to the text of a passage is where the section begins. -/
theorem join_passageLabel_isPrefix (blank after : List DocumentChunk) {chunk : DocumentChunk}
    {c : Char} {text : Text} (h : PyText.strip chunk.content = c :: text) (others : List Text) :
    PyText.join ['\n'] ([retrievalTitle, retrievalPreamble] ++ passageLines u 1 blank
        ++ [passageLabel u (blank.length + 1) chunk ++ [c]]) <+:
      PyText.join ['\n'] ([retrievalTitle, retrievalPreamble]
        ++ passageLines u 1 (blank ++ chunk :: after) ++ others) := by
  have hline : passageLabel u (blank.length + 1) chunk ++ [c] <+:
      passageLine u (blank.length + 1) chunk := by
    rw [passageLine, h]
    exact (List.prefix_append_right_inj _).mpr ⟨text, rfl⟩
  have hjoin := PyText.join_concat_isPrefix ['\n']
    ([retrievalTitle, retrievalPreamble] ++ passageLines u 1 blank) hline
    (passageLines u (blank.length + 1 + 1) after ++ others)
  rw [passageLines_append, passageLines]
  simpa only [List.append_assoc, List.cons_append] using hjoin

variable {u}

theorem firstPassage_eq_none {lines : List Text} {idx : Nat} {chunks : List DocumentChunk}
    (h : firstPassage u lines idx chunks = none) :
    ∀ chunk ∈ chunks, PyText.strip chunk.content = [] := by
  induction chunks generalizing lines idx with
  | nil =>
    intro chunk hchunk
    cases hchunk
  | cons first rest ih =>
    rw [firstPassage] at h
    cases hfirst : PyText.strip first.content with
    | cons c text =>
      rw [hfirst] at h
      cases h
    | nil =>
      rw [hfirst] at h
      intro chunk hchunk
      rcases List.mem_cons.mp hchunk with rfl | hchunk
      · exact hfirst
      · exact ih h chunk hchunk

theorem firstPassage_eq_some {lines : List Text} {idx : Nat} {chunks : List DocumentChunk}
    {reach : Text} (h : firstPassage u lines idx chunks = some reach) :
    ∃ blank chunk after c text, chunks = blank ++ chunk :: after ∧
      (∀ b ∈ blank, PyText.strip b.content = []) ∧ PyText.strip chunk.content = c :: text ∧
      reach = PyText.join ['\n'] (lines ++ passageLines u idx blank
        ++ [passageLabel u (blank.length + idx) chunk ++ [c]]) := by
  induction chunks generalizing lines idx with
  | nil => cases h
  | cons first rest ih =>
    rw [firstPassage] at h
    cases hfirst : PyText.strip first.content with
    | cons c text =>
      rw [hfirst] at h
      cases h
      exact ⟨[], first, rest, c, text, rfl, by simp, hfirst, by simp [passageLines]⟩
    | nil =>
      rw [hfirst] at h
      obtain ⟨blank, chunk, after, c, text, hrest, hblank, hchunk, hreach⟩ := ih h
      refine ⟨first :: blank, chunk, after, c, text, by rw [hrest]; rfl, ?_, hchunk, ?_⟩
      · intro b hb
        rcases List.mem_cons.mp hb with rfl | hb
        · exact hfirst
        · exact hblank b hb
      · rw [hreach, passageLines, List.length_cons, Nat.add_right_comm, Nat.add_assoc]
        simp

end Evidence

namespace DocumentTurn

variable {Digest : Type} (d : DocumentTurn Digest)

/-- The shortest beginning of the section that attends to the documents: up to
the text of the first passage that has one, or with the note. -/
def evidence (retrieval : RetrievalContext) : Option Text :=
  match firstPassage d.merger.unicode [retrievalTitle, retrievalPreamble] 1 retrieval.chunks with
  | some reach => some reach
  | none =>
    (coverageNote d.coveragePrompt retrieval).map fun _ =>
      formatRetrieval d.merger.unicode d.coveragePrompt retrieval

variable {d} {retrieval : RetrievalContext} {reach content : Text}

theorem evidence_isPrefix (h : d.evidence retrieval = some reach) :
    reach <+: formatRetrieval d.merger.unicode d.coveragePrompt retrieval := by
  rw [evidence] at h
  cases hfirst : firstPassage d.merger.unicode [retrievalTitle, retrievalPreamble] 1
      retrieval.chunks with
  | none =>
    rw [hfirst] at h
    obtain ⟨note, -, rfl⟩ := Option.map_eq_some_iff.mp h
    exact List.prefix_refl _
  | some first =>
    rw [hfirst] at h
    obtain rfl := Option.some.inj h
    obtain ⟨blank, chunk, after, c, text, hchunks, -, hchunk, rfl⟩ := firstPassage_eq_some hfirst
    rw [formatRetrieval, hchunks]
    exact join_passageLabel_isPrefix _ blank after hchunk _

/-- There is something to show if a passage that is left has text, or the
coverage is told. -/
theorem evidence_isSome_iff : (d.evidence retrieval).isSome ↔
    (∃ chunk ∈ retrieval.chunks, PyText.strip chunk.content ≠ []) ∨
      coverageNote d.coveragePrompt retrieval ≠ none := by
  rw [evidence]
  cases hfirst : firstPassage d.merger.unicode [retrievalTitle, retrievalPreamble] 1
      retrieval.chunks with
  | some first =>
    obtain ⟨blank, chunk, after, c, text, hchunks, -, hchunk, -⟩ := firstPassage_eq_some hfirst
    refine iff_of_true rfl (.inl ⟨chunk, ?_, ?_⟩)
    · rw [hchunks]
      simp
    · rw [hchunk]
      exact List.cons_ne_nil c text
  | none =>
    have hblank := firstPassage_eq_none hfirst
    rw [Option.isSome_map, Option.isSome_iff_ne_none]
    constructor
    · intro hnote
      exact .inr hnote
    · intro h
      rcases h with ⟨chunk, hchunk, htext⟩ | hnote
      · exact absurd (hblank chunk hchunk) htext
      · exact hnote

/-- No passage is shown in front of the first one with a text. -/
theorem isPrefix_of_showsPassage (h : firstPassage d.merger.unicode [retrievalTitle, retrievalPreamble]
    1 retrieval.chunks = some reach) (hshows : d.ShowsPassage retrieval content) : reach <+: content := by
  obtain ⟨blank, first, rest, c, text₀, hfirst, hblank, htext₀, hreach⟩ := firstPassage_eq_some h
  obtain ⟨before, chunk, after, text, hchunks, htext, hstart, hshows⟩ := hshows
  refine List.IsPrefix.trans ?_ hshows
  rw [hreach]
  have hstrip : PyText.strip chunk.content ≠ [] := by
    intro hnil
    rw [hnil, List.prefix_nil] at hstart
    exact htext hstart
  have hnone : ∀ b ∈ blank, ¬ PyText.strip b.content ≠ [] := fun b hb => not_not_intro (hblank b hb)
  rw [hfirst] at hchunks
  rcases append_cons_cases hnone hstrip hchunks with ⟨rfl, rfl⟩ | ⟨more, rfl⟩
  · -- it is the first one: what is shown of it is at least its first character
    refine PyText.join_concat_isPrefix _ _ ((List.prefix_append_right_inj _).mpr ?_) []
    rw [htext₀] at hstart
    cases text with
    | nil => exact absurd rfl htext
    | cons x text =>
      rw [(List.cons_prefix_cons.mp hstart).1]
      exact ⟨text, rfl⟩
  · exact join_passageLabel_isPrefix _ blank more htext₀ _

theorem showsPassage_of_isPrefix (h : firstPassage d.merger.unicode [retrievalTitle, retrievalPreamble]
    1 retrieval.chunks = some reach) (hcontent : reach <+: content) : d.ShowsPassage retrieval content := by
  obtain ⟨blank, first, rest, c, text, hchunks, -, htext, hreach⟩ := firstPassage_eq_some h
  refine ⟨blank, first, rest, [c], hchunks, List.cons_ne_nil c [], ?_, ?_⟩
  · rw [htext]
    exact ⟨text, rfl⟩
  · rw [hreach] at hcontent
    exact hcontent

/-- A section has a passage or the note if it begins so. -/
theorem shows_iff (h : d.evidence retrieval = some reach) :
    d.ShowsPassage retrieval content ∨ d.ShowsNote retrieval content ↔ reach <+: content := by
  have hevidence := h
  rw [evidence] at h
  cases hfirst : firstPassage d.merger.unicode [retrievalTitle, retrievalPreamble] 1
      retrieval.chunks with
  | none =>
    rw [hfirst] at h
    obtain ⟨note, hnote, rfl⟩ := Option.map_eq_some_iff.mp h
    constructor
    · intro hshows
      rcases hshows with ⟨before, chunk, after, text, hchunks, htext, hstart, -⟩ | ⟨-, hshows⟩
      · have hblank := firstPassage_eq_none hfirst chunk (by rw [hchunks]; simp)
        rw [hblank, List.prefix_nil] at hstart
        exact absurd hstart htext
      · exact hshows
    · intro hreach
      refine .inr ⟨?_, hreach⟩
      rw [hnote]
      exact Option.some_ne_none note
  | some first =>
    rw [hfirst] at h
    obtain rfl := Option.some.inj h
    constructor
    · intro hshows
      rcases hshows with hpassage | ⟨-, hshows⟩
      · exact isPrefix_of_showsPassage hfirst hpassage
      · exact (evidence_isPrefix hevidence).trans hshows
    · intro hcontent
      exact .inl (showsPassage_of_isPrefix hfirst hcontent)

theorem coverageNote_eq {note : Text} (h : coverageNote d.coveragePrompt retrieval = some note) :
    ∃ text, note = text ++ ['.'] := by
  have hlast : ∀ {last : Text} (start : Text), last.getLast? = some '.' →
      ∃ text, start ++ last = text ++ ['.'] := by
    intro last start hlast
    obtain ⟨init, rfl⟩ := List.getLast?_eq_some_iff.mp hlast
    exact ⟨start ++ init, (List.append_assoc _ _ _).symm⟩
  rw [coverageNote] at h
  by_cases hon : d.coveragePrompt = true
  · rw [if_pos hon] at h
    cases hcoverage : retrieval.coverage with
    | unspecified =>
      rw [hcoverage] at h
      cases h
    | strong =>
      rw [hcoverage] at h
      cases h
    | weak =>
      simp only [hcoverage, weakCoverageNote, String.toList_append, Option.some.injEq] at h
      rw [← h]
      exact hlast _ (by decide)
    | none =>
      simp only [hcoverage, weakCoverageNote, String.toList_append, Option.some.injEq] at h
      rw [← h]
      exact hlast _ (by decide)
  · rw [if_neg hon] at h
    cases h

/-- What attends to the documents ends in a character that is kept, and stands
below the title. -/
theorem evidence_eq_concat (h : d.evidence retrieval = some reach) :
    ∃ lead c, reach = lead ++ [c] ∧ PyText.isSpace c = false ∧
      retrievalTitle.length ≤ lead.length := by
  have htitle : ∀ lines : List Text, retrievalTitle.length ≤
      (PyText.join ['\n'] (retrievalTitle :: lines)).length := by
    intro lines
    have hbegins := PyText.join_concat_isPrefix ['\n'] [] (List.prefix_refl retrievalTitle) lines
    have hsingle : PyText.join ['\n'] ([] ++ [retrievalTitle]) = retrievalTitle :=
      List.intercalate_singleton
    rw [hsingle] at hbegins
    exact hbegins.length_le
  rw [evidence] at h
  cases hfirst : firstPassage d.merger.unicode [retrievalTitle, retrievalPreamble] 1
      retrieval.chunks with
  | some first =>
    rw [hfirst] at h
    obtain rfl := Option.some.inj h
    obtain ⟨blank, chunk, after, c, text, -, -, hchunk, rfl⟩ := firstPassage_eq_some hfirst
    exact ⟨_, c, PyText.join_concat_append _ _ _ _, PyText.head_strip hchunk, htitle _⟩
  | none =>
    rw [hfirst] at h
    obtain ⟨note, hnote, rfl⟩ := Option.map_eq_some_iff.mp h
    obtain ⟨text, rfl⟩ := coverageNote_eq hnote
    refine ⟨_, '.', ?_, by decide, htitle
      (retrievalPreamble :: passageLines d.merger.unicode 1 retrieval.chunks ++ [text])⟩
    rw [formatRetrieval, hnote]
    exact PyText.join_concat_append ['\n']
      (retrievalTitle :: retrievalPreamble :: passageLines d.merger.unicode 1 retrieval.chunks)
      text ['.']

end DocumentTurn

/-! ## A section of which not even the title fits -/

section Header

/-- The two lines that the section begins with. -/
def retrievalHeader : Text := PyText.join ['\n'] [retrievalTitle, retrievalPreamble]

/-- The encoding reads the title of the section as a few tokens, which come
first in every text that begins with the header, and are not the whole of it. -/
def ReadsHeader (t : Tokenizer) : Prop :=
  ∃ tokens, t.encode retrievalTitle = some tokens ∧ tokens ≠ [] ∧
    tokens.length * 4 ≤ retrievalTitle.length ∧
    ∀ rest cut, t.encode (retrievalHeader ++ rest) = some cut →
      tokens.length + 2 ≤ cut.length ∧
        ∀ n, n ≤ tokens.length → (t.decode (cut.take n)).length ≤ retrievalTitle.length

theorem retrievalTitle_length : retrievalTitle.length = 29 := by decide

theorem retrievalHeader_length : 40 ≤ retrievalHeader.length := by
  have hend : "timestamp.)".toList.length = 11 := by decide
  have hpreamble : 11 ≤ retrievalPreamble.length := by
    unfold retrievalPreamble
    rw [String.toList_append, List.length_append, hend]
    omega
  rw [retrievalHeader, PyText.join_cons _ _ (List.cons_ne_nil _ _), PyText.join,
    List.intercalate_singleton, List.length_append, List.length_append, retrievalTitle_length,
    List.length_singleton]
  omega

/-- Without a tokenizer, the section is cut to no more tokens than the title has
by taking four characters for a token. -/
theorem length_fallback_le {provider : String} {target : Nat} {text : Text}
    (htarget : target ≤ TokenCounter.calibrate (max 1 (29 / 4)) provider)
    (hlong : 40 ≤ text.length) :
    (if TokenCounter.calibrate (max 1 (text.length / 4)) provider ≤ target then text
      else text.take (max 10 (target * 4))).length ≤ 29 := by
  have hseven : target ≤ 7 ∧
      ¬ TokenCounter.calibrate (max 1 (text.length / 4)) provider ≤ target := by
    rcases TokenCounter.calibrate_eq provider with h | h
    · rw [(h _).1] at htarget ⊢
      omega
    · rw [(h _).1] at htarget ⊢
      omega
  rw [if_neg hseven.2, List.length_take]
  omega

/-- Cut to no more tokens than its title has, the section keeps no more than
the title. -/
theorem length_truncate_le {counter : TokenCounter} {provider : String} {target : Nat}
    (hheader : ∀ t, counter.tokenizer = some t → ReadsHeader t)
    (htarget : target ≤ counter.countText retrievalTitle provider) (rest : Text) :
    (counter.truncateTextToTokens (retrievalHeader ++ rest) target provider).length ≤
      retrievalTitle.length := by
  have htitle := retrievalTitle_length
  have hlong : 40 ≤ (retrievalHeader ++ rest).length := by
    have hheader := retrievalHeader_length
    rw [List.length_append]
    omega
  have htext : retrievalHeader ++ rest ≠ [] := List.ne_nil_of_length_pos (by omega)
  have hne : retrievalTitle ≠ [] := List.ne_nil_of_length_pos (by omega)
  rw [htitle]
  simp only [TokenCounter.truncateTextToTokens]
  by_cases hzero : target = 0
  · rw [if_pos hzero]
    exact Nat.zero_le _
  · rw [if_neg hzero]
    rw [TokenCounter.countText, if_neg hne] at htarget
    rw [TokenCounter.countText, if_neg htext]
    cases htokenizer : counter.tokenizer with
    | none =>
      have hencode : ∀ text, counter.encode text = none := by
        intro text
        rw [TokenCounter.encode, htokenizer]
        rfl
      simp only [hencode, htitle] at htarget ⊢
      exact length_fallback_le htarget hlong
    | some t =>
      obtain ⟨tokens, htokens, hsome, hfew, hcut⟩ := hheader t htokenizer
      have hencode : ∀ text, counter.encode text = t.encode text := by
        intro text
        rw [TokenCounter.encode, htokenizer]
        rfl
      have hpos : 0 < tokens.length := List.length_pos_iff.mpr hsome
      rw [htitle] at hfew
      simp only [hencode, htokens] at htarget ⊢
      cases hwhole : t.encode (retrievalHeader ++ rest) with
      | none =>
        refine length_fallback_le (htarget.trans ?_) hlong
        rcases TokenCounter.calibrate_eq provider with h | h
        · rw [(h _).1, (h _).1]
          omega
        · rw [(h _).1, (h _).1]
          omega
      | some cut =>
        simp only []
        obtain ⟨hlonger, hdecode⟩ := hcut rest cut hwhole
        rw [htitle] at hdecode
        have hover : ¬ TokenCounter.calibrate cut.length provider ≤ target ∧
            max 1 ⌊(target : ℚ) / TokenCounter.multiplier provider⌋₊ ≤ tokens.length := by
          rcases TokenCounter.calibrate_eq provider with h | h
          · rw [(h _).1] at htarget ⊢
            rw [(h target).2]
            omega
          · rw [(h _).1] at htarget ⊢
            rw [(h target).2]
            omega
        rw [if_neg hover.1]
        exact hdecode _ hover.2

end Header

/-! ## What is left of the passages -/

namespace DocumentTurn

variable {Digest : Type} (d : DocumentTurn Digest)

/-- The section of the passages, of a turn with attached documents. -/
def passages (retrieval : RetrievalContext) : PromptSection where
  name := "retrieval"
  content := formatRetrieval d.merger.unicode d.coveragePrompt retrieval
  priority := 9
  tokenCount := d.counter.countText
    (formatRetrieval d.merger.unicode d.coveragePrompt retrieval) "openai"

/-- The lines up to a part of the passages fit what the budget leaves to them,
after the sections of a lower priority have given what they can. -/
def PassagesFit (m : ContextWindowManager) (composed : ComposedPrompt) (model : String)
    (inputBudget : Option Nat) (maxOutputTokens : Option Int) (retrieval : RetrievalContext)
    (reach : Text) : Prop :=
  let excess := stillOver composed.sections
    (m.effectiveBudget model inputBudget maxOutputTokens) 9
  excess = 0 ∨ linesTokens m.tokenCounter (m.reservedLimits model maxOutputTokens).provider
    (d.passages retrieval).content (reach.count '\n' + 1) ≤ (d.passages retrieval).tokenCount - excess

variable {d} {retrieval : RetrievalContext} {reach : Text}

theorem formatRetrieval_eq (u : PyText.UnicodeData) (coveragePrompt : Bool)
    (retrieval : RetrievalContext) :
    ∃ rest, formatRetrieval u coveragePrompt retrieval = retrievalHeader ++ rest := by
  obtain ⟨rest, hrest⟩ := PyText.join_concat_isPrefix ['\n'] [retrievalTitle]
    (List.prefix_refl retrievalPreamble)
    (passageLines u 1 retrieval.chunks ++ (coverageNote coveragePrompt retrieval).toList)
  refine ⟨rest, ?_⟩
  rw [formatRetrieval, retrievalHeader]
  simpa using hrest.symm

theorem passages_lines (retrieval : RetrievalContext) :
    ∃ others, (d.passages retrieval).content.splitOn '\n' = retrievalTitle :: others := by
  obtain ⟨rest, hrest⟩ := formatRetrieval_eq d.merger.unicode d.coveragePrompt retrieval
  have hcontent : (d.passages retrieval).content = retrievalHeader ++ rest := hrest
  rw [retrievalHeader, PyText.join_cons _ _ (List.cons_ne_nil _ _), PyText.join,
    List.intercalate_singleton, List.append_assoc, List.append_assoc,
    List.singleton_append] at hcontent
  have htitle : retrievalTitle.splitOn '\n' = [retrievalTitle] := by
    apply List.splitOn_eq_singleton
    decide
  refine ⟨(retrievalPreamble ++ rest).splitOn '\n', ?_⟩
  rw [hcontent, List.splitOn_append_cons_self, htitle, List.singleton_append]

theorem hasText_of_evidence {s : PromptSection} (h : d.evidence retrieval = some reach)
    (hbegins : reach <+: s.content) : s.hasText = true := by
  obtain ⟨lead, c, rfl, hc, -⟩ := evidence_eq_concat h
  rw [PromptSection.hasText, decide_eq_true_eq]
  exact PyText.strip_ne_nil (hbegins.subset (by simp)) hc

/-- What is left of the passages reaches as far as its lines fit. -/
theorem prefix_leftOf_passages_iff {counter : TokenCounter} (provider : String) (excess : Nat)
    (hheader : ∀ t, counter.tokenizer = some t → ReadsHeader t)
    (h : d.evidence retrieval = some reach) :
    reach <+: (leftOf counter provider excess (d.passages retrieval)).content ↔
      excess = 0 ∨ linesTokens counter provider (d.passages retrieval).content
        (reach.count '\n' + 1) ≤ (d.passages retrieval).tokenCount - excess := by
  obtain ⟨lead, c, rfl, hc, hlead⟩ := evidence_eq_concat h
  have hbegins : lead ++ [c] <+: (d.passages retrieval).content := evidence_isPrefix h
  have hcount : (lead ++ [c]).count '\n' = lead.count '\n' := by
    have hne : c ≠ '\n' := by
      intro hbreak
      rw [hbreak] at hc
      exact absurd hc (by decide)
    rw [List.count_append, List.count_singleton, beq_false_of_ne hne]
    rfl
  have hspare : spare (d.passages retrieval) = (d.passages retrieval).tokenCount := rfl
  have htokens : 0 < (d.passages retrieval).tokenCount := by
    show 0 < d.counter.countText (formatRetrieval d.merger.unicode d.coveragePrompt retrieval) "openai"
    apply TokenCounter.countText_pos
    intro hnil
    rw [passages, hnil, List.prefix_nil] at hbegins
    simp at hbegins
  rw [hcount, leftOf, hspare]
  by_cases hover : excess = 0
  · rw [if_pos (.inl hover)]
    exact iff_of_true hbegins (.inl hover)
  · rw [if_neg (by omega), or_iff_right hover]
    have htarget : (d.passages retrieval).tokenCount - min (d.passages retrieval).tokenCount excess =
        (d.passages retrieval).tokenCount - excess := by omega
    rw [htarget]
    generalize (d.passages retrieval).tokenCount - excess = target
    obtain ⟨others, hlines⟩ := passages_lines (d := d) retrieval
    rw [cutTo]
    by_cases hzero : target = 0
    · rw [if_pos hzero, hzero, List.prefix_nil, linesTokens, hlines, List.take_succ_cons,
        List.map_cons, List.sum_cons]
      constructor
      · intro hnil
        simp at hnil
      · intro hle
        omega
    · rw [if_neg hzero]
      have hshrink : (shrink counter provider target (d.passages retrieval)).content =
          keepWholeLines counter provider target (d.passages retrieval).content := rfl
      dsimp only
      rw [hshrink]
      apply prefix_keepWholeLines_iff hbegins hc
      intro hshort
      rw [linesTokens, hlines, List.take_succ_cons, List.take_zero, List.map_cons, List.map_nil,
        List.sum_cons, List.sum_nil] at hshort
      obtain ⟨rest, hrest⟩ := formatRetrieval_eq d.merger.unicode d.coveragePrompt retrieval
      have htarget : target ≤ counter.countText retrievalTitle provider := by omega
      have hcut := length_truncate_le hheader htarget rest
      rw [← hrest] at hcut
      exact hcut.trans hlead

end DocumentTurn

/-! ## Whether the documents are attended to -/

namespace DocumentTurn

variable {Digest : Type} [DecidableEq Digest] {d : DocumentTurn Digest}
  {m : ContextWindowManager} {histories : Histories} {model : String} {inputBudget : Option Nat}
  {maxOutputTokens : Option Int} {composed : ComposedPrompt} {trimmed : TrimmedPrompt}
  {retrieval : RetrievalContext} {reach notice : Text}

theorem composed_sections (h : d.composed histories = .ok composed) :
    ∃ notice, enforceDocumentContext d.fileIds d.merged = .ok notice ∧
      composed.sections = (d.prompt notice).beforeRetrieval ++ (d.prompt notice).retrievalSection
        ++ (d.prompt notice).afterRetrieval histories := by
  obtain ⟨notice, hnotice, hok⟩ := except_bind_eq_ok.mp h
  cases hok
  exact ⟨notice, hnotice, (d.prompt notice).build_sections histories⟩

theorem bracket_mem_noMatchNotice : '(' ∈ noMatchNotice := by
  unfold noMatchNotice
  rw [String.toList_append, List.mem_append]
  left
  decide

/-- The notice says that nothing matched if that is the status. -/
theorem noMatchNotice_infix_iff (hfiles : d.fileIds ≠ []) (hmerged : d.merged = some retrieval)
    (hnotice : enforceDocumentContext d.fileIds d.merged = .ok notice) :
    noMatchNotice <:+: "## Attached Document Notice\n".toList ++ notice ↔
      retrieval.status = .noMatch := by
  simp only [enforceDocumentContext, if_neg hfiles, hmerged] at hnotice
  by_cases hfails : isFailure retrieval.status = true
  · rw [if_pos hfails] at hnotice
    cases hnotice
  · rw [if_neg hfails] at hnotice
    obtain rfl := Except.ok.inj hnotice
    constructor
    · intro hthere
      by_contra hstatus
      rw [if_neg hstatus, List.nil_append] at hthere
      -- the other notice has no bracket
      have hbracket := hthere.subset bracket_mem_noMatchNotice
      rcases List.mem_append.mp hbracket with h | h
      · exact absurd h (by decide)
      · rcases PyText.mem_join h with h | ⟨part, hpart, h⟩
        · exact absurd h (by decide)
        · split at hpart
          · rw [List.mem_singleton.mp hpart, skippedNotice] at h
            rcases List.mem_append.mp h with h | h
            · rw [decimalText, Nat.toString_eq_repr, Nat.toList_repr] at h
              exact absurd (Nat.isDigit_of_mem_toDigits (by decide) (by decide) h) (by decide)
            · exact absurd h (by decide)
          · cases hpart
    · intro hstatus
      rw [if_pos hstatus]
      refine List.IsInfix.trans ?_ (List.suffix_append _ _).isInfix
      apply PyText.infix_join
      exact List.mem_append_left _ List.mem_cons_self

/-- Where there is something to show, the prompt has the section of the passages. -/
theorem retrievalSection_eq (hfiles : d.fileIds ≠ []) (hmerged : d.merged = some retrieval)
    (h : d.evidence retrieval = some reach) :
    (d.prompt notice).retrievalSection = [d.passages retrieval] := by
  have hsome : ¬ (retrieval.chunks = [] ∧ coverageNote d.coveragePrompt retrieval = none) := by
    intro hnone
    rw [evidence, hnone.1, hnone.2] at h
    cases h
  have htext : formatRetrieval d.merger.unicode d.coveragePrompt retrieval ≠ [] := by
    obtain ⟨lead, c, rfl, -, -⟩ := evidence_eq_concat h
    intro hnil
    have hbegins := evidence_isPrefix h
    rw [hnil, List.prefix_nil] at hbegins
    simp at hbegins
  simp only [DocumentPrompt.retrievalSection, prompt, hmerged, if_neg hsome, if_neg hfiles,
    DocumentPrompt.textSection, if_neg htext]
  rfl

/-- What comes out of trimming under the name of the passages is what is left of them. -/
theorem mem_trimmed_iff (hfiles : d.fileIds ≠ []) (hmerged : d.merged = some retrieval)
    (h : d.evidence retrieval = some reach) (hcomposed : d.composed histories = .ok composed)
    (hmanage : m.manage composed model inputBudget maxOutputTokens = .ok trimmed)
    (s : PromptSection) :
    (s ∈ trimmed.sections ∧ s.name = "retrieval") ↔
      s = leftOf m.tokenCounter (m.reservedLimits model maxOutputTokens).provider
          (stillOver composed.sections (m.effectiveBudget model inputBudget maxOutputTokens) 9)
          (d.passages retrieval) ∧ s.hasText := by
  obtain ⟨notice, hnotice, hsections⟩ := composed_sections hcomposed
  rw [retrievalSection_eq hfiles hmerged h, List.append_assoc, List.singleton_append] at hsections
  obtain ⟨names, htrim, -, -⟩ := ContextWindowManager.trim_of_manage hmanage
  refine mem_trim_iff htrim hsections rfl ?_ ?_ ?_ s
  · exact hasText_of_evidence h (evidence_isPrefix h)
  · intro s hs hcut hpriority
    have hlow := (DocumentPrompt.of_mem_beforeRetrieval hs).2.2
    rw [PromptSection.canBeCut, Bool.and_eq_true] at hcut
    have := hlow hcut.1
    have hnine : (d.passages retrieval).priority = 9 := rfl
    omega
  · intro s hs
    rcases List.mem_append.mp hs with hs | hs
    · exact (DocumentPrompt.of_mem_beforeRetrieval hs).1
    · rcases DocumentPrompt.of_mem_afterRetrieval hs with hs | hs
      · rw [(DocumentPrompt.mem_noticeSection_iff.mp hs).2]
        simp [passages]
      · exact hs.1

/-- The notice comes out of trimming as it is. -/
theorem noMatchNotice_mem_iff (hfiles : d.fileIds ≠ []) (hmerged : d.merged = some retrieval)
    (hcomposed : d.composed histories = .ok composed)
    (hmanage : m.manage composed model inputBudget maxOutputTokens = .ok trimmed) :
    (∃ s ∈ trimmed.sections, s.name = "document_notice" ∧ noMatchNotice <:+: s.content) ↔
      retrieval.status = .noMatch := by
  obtain ⟨notice, hnotice, hsections⟩ := composed_sections hcomposed
  obtain ⟨names, htrim, -, -⟩ := ContextWindowManager.trim_of_manage hmanage
  rw [← noMatchNotice_infix_iff hfiles hmerged hnotice]
  constructor
  · intro h
    obtain ⟨s, hs, hname, hthere⟩ := h
    obtain ⟨s₀, hs₀, hcut⟩ := isCut_of_trim htrim hs
    have hname₀ : s₀.name = "document_notice" := by
      rcases hcut with rfl | ⟨-, target, rfl⟩
      · exact hname
      · rwa [cutTo_name] at hname
    have hmem : s₀ ∈ (d.prompt notice).noticeSection := by
      rw [hsections] at hs₀
      rcases List.mem_append.mp hs₀ with h | h
      · rcases List.mem_append.mp h with h | h
        · exact absurd hname₀ (DocumentPrompt.of_mem_beforeRetrieval h).2.1
        · rw [DocumentPrompt.name_of_mem_retrievalSection h] at hname₀
          exact absurd hname₀ (by decide)
      · rcases DocumentPrompt.of_mem_afterRetrieval h with h | h
        · exact h
        · exact absurd hname₀ h.2
    obtain ⟨-, rfl⟩ := DocumentPrompt.mem_noticeSection_iff.mp hmem
    rcases hcut with rfl | ⟨hcan, -⟩
    · exact hthere
    · cases hcan
  · intro hthere
    have hne : notice ≠ [] := by
      intro hnil
      rw [hnil, List.append_nil] at hthere
      exact absurd (hthere.subset bracket_mem_noMatchNotice) (by decide)
    obtain ⟨s, hs⟩ : ∃ s, s ∈ (d.prompt notice).noticeSection :=
      ⟨_, DocumentPrompt.mem_noticeSection_iff.mpr ⟨hne, rfl⟩⟩
    have hmem : s ∈ composed.sections := by
      rw [hsections]
      apply List.mem_append_right
      simp only [DocumentPrompt.afterRetrieval, List.mem_append]
      exact .inl (.inl (.inl (.inl hs)))
    obtain ⟨-, rfl⟩ := DocumentPrompt.mem_noticeSection_iff.mp hs
    refine ⟨_, mem_of_trim htrim hmem rfl ?_, rfl, hthere⟩
    rw [PromptSection.hasText, decide_eq_true_eq]
    exact PyText.strip_ne_nil (c := '#') (List.mem_append_left _ (by decide)) (by decide)

/-- A turn with attached documents whose retrieval failed is not answered. If
it is, a search that matched nothing is always told to the model; and where the
merged context has a passage with text, or the coverage is told, the messages
have it if and only if the notice is there, or the lines up to it fit what the
budget leaves to the passages. -/
theorem attended_iff (hfiles : d.fileIds ≠ [])
    (hheader : ∀ t, m.tokenCounter.tokenizer = some t → ReadsHeader t) :
    (d.retrieval = none ∨ (∃ delivered, d.retrieval = some delivered ∧ isFailure delivered.status) →
      ∃ status detail, d.composed histories =
        .error (documentContextUnavailable status detail)) ∧
    ∀ composed trimmed retrieval, d.composed histories = .ok composed →
      m.manage composed model inputBudget maxOutputTokens = .ok trimmed →
      d.merged = some retrieval →
      (retrieval.status = .noMatch → d.Attended trimmed) ∧
      ∀ reach, d.evidence retrieval = some reach →
        (d.Attended trimmed ↔ retrieval.status = .noMatch ∨
          d.PassagesFit m composed model inputBudget maxOutputTokens retrieval reach) := by
  constructor
  · intro hfails
    rcases hfails with hnone | ⟨delivered, hdelivered, hstatus⟩
    · refine ⟨.unavailable, "retrieval service unreachable", ?_⟩
      simp only [composed, enforceDocumentContext, if_neg hfiles, merged, hnone, Option.map_none]
      rfl
    · refine ⟨(d.merger.mergeRetrieval delivered d.graph).status,
        (d.merger.mergeRetrieval delivered d.graph).statusDetail, ?_⟩
      rw [← d.merger.mergeRetrieval_status delivered d.graph] at hstatus
      simp only [composed, enforceDocumentContext, if_neg hfiles, merged, hdelivered,
        Option.map_some, if_pos hstatus]
      rfl
  · intro composed trimmed retrieval hcomposed hmanage hmerged
    have hmessages := (ContextWindowManager.manage_ok hmanage).2.2
    have hnotice := noMatchNotice_mem_iff hfiles hmerged hcomposed hmanage
    have hsent : ∀ s ∈ trimmed.sections, s.name ≠ "system" → s.name ≠ Compose.historySection →
        s.content ≠ [] → ∃ msg ∈ trimmed.messages, s.content <:+: msg.content := by
      intro s hs hsystem hhistory htext
      rw [hmessages]
      exact Compose.exists_infix_of_section hs hsystem (.inr hhistory) htext
    have hnomatch : retrieval.status = .noMatch → d.Attended trimmed := by
      intro hstatus
      obtain ⟨s, hs, hname, hthere⟩ := hnotice.mpr hstatus
      refine ⟨s, hs, hsent s hs (by rw [hname]; decide) (by rw [hname]; decide) ?_,
        .inl ⟨hname, hthere⟩⟩
      intro hnil
      rw [hnil] at hthere
      exact List.ne_nil_of_mem bracket_mem_noMatchNotice (List.eq_nil_of_infix_nil hthere)
    refine ⟨hnomatch, ?_⟩
    intro reach hreach
    have hleft := mem_trimmed_iff hfiles hmerged hreach hcomposed hmanage
    have hfits := prefix_leftOf_passages_iff (m.reservedLimits model maxOutputTokens).provider
      (stillOver composed.sections (m.effectiveBudget model inputBudget maxOutputTokens) 9)
      hheader hreach
    constructor
    · intro hattended
      obtain ⟨s, hs, -, hshows⟩ := hattended
      rcases hshows with ⟨hname, hthere⟩ | ⟨hname, retrieval', hmerged', hshows⟩
      · exact .inl (hnotice.mp ⟨s, hs, hname, hthere⟩)
      · rw [hmerged] at hmerged'
        obtain rfl := Option.some.inj hmerged'
        obtain ⟨rfl, -⟩ := (hleft s).mp ⟨hs, hname⟩
        exact .inr (hfits.mp ((shows_iff hreach).mp hshows))
    · intro h
      rcases h with hstatus | hfit
      · exact hnomatch hstatus
      · have hbegins := hfits.mpr hfit
        have htext := hasText_of_evidence hreach hbegins
        obtain ⟨hs, hname⟩ := (hleft _).mpr ⟨rfl, htext⟩
        refine ⟨_, hs, hsent _ hs (by rw [hname]; decide) (by rw [hname]; decide) ?_,
          .inr ⟨hname, retrieval, hmerged, (shows_iff hreach).mpr hbegins⟩⟩
        intro hnil
        rw [PromptSection.hasText, hnil] at htext
        cases htext

end DocumentTurn

/-! ### An encoding -/

/-- The words of a text; the space or the line break before a word is part of it. -/
def words : Text → List Text
  | [] => []
  | c :: text =>
    match words text with
    | [] => [[c]]
    | word :: rest =>
      if word.head? = some ' ' ∨ word.head? = some '\n' then [c] :: word :: rest
      else (c :: word) :: rest

/-- A word as one number. -/
def wordToken (word : Text) : Nat := Nat.ofDigits 2097152 (word.map fun c => c.toNat + 1)

/-- An encoding with one token for each word. -/
def wordTokenizer : Tokenizer where
  encode := fun text => some ((words text).map wordToken)
  decode := fun tokens => (tokens.map fun token =>
    (Nat.digits 2097152 token).map fun digit => Char.ofNat (digit - 1)).flatten

theorem flatten_words (text : Text) : (words text).flatten = text := by
  induction text with
  | nil => rfl
  | cons c text ih =>
    rw [words]
    cases hwords : words text with
    | nil =>
      rw [hwords] at ih
      rw [← ih]
      rfl
    | cons word rest =>
      rw [hwords] at ih
      dsimp only
      split
      · rw [List.flatten_cons, ih]
        rfl
      · rw [← ih]
        rfl

theorem words_cons (c : Char) (text : Text) :
    ∃ word rest, words (c :: text) = (c :: word) :: rest := by
  rw [words]
  cases words text with
  | nil => exact ⟨[], [], rfl⟩
  | cons word rest =>
    dsimp only
    split
    · exact ⟨[], word :: rest, rfl⟩
    · exact ⟨word, rest, rfl⟩

/-- The words split at a space or a line break. -/
theorem words_append (text : Text) {c : Char} (hc : c = ' ' ∨ c = '\n') (rest : Text) :
    words (text ++ c :: rest) = words text ++ words (c :: rest) := by
  induction text with
  | nil => rfl
  | cons d text ih =>
    rw [List.cons_append, words, words, ih]
    cases hwords : words text with
    | nil =>
      obtain ⟨word, others, hnext⟩ := words_cons c rest
      rw [hnext]
      simp [hc]
    | cons word others =>
      dsimp only [List.cons_append]
      split <;> rfl

theorem words_length_le (text : Text) : (words text).length ≤ text.length := by
  induction text with
  | nil => exact Nat.le_refl 0
  | cons c text ih =>
    rw [words]
    cases hwords : words text with
    | nil =>
      rw [List.length_singleton, List.length_cons]
      exact Nat.succ_pos _
    | cons word rest =>
      rw [hwords] at ih
      dsimp only
      split
      · exact Nat.succ_le_succ ih
      · exact ih.trans (Nat.le_succ _)

theorem words_length_pos {text : Text} (h : text ≠ []) : 0 < (words text).length := by
  cases text with
  | nil => exact absurd rfl h
  | cons c text =>
    obtain ⟨word, rest, hwords⟩ := words_cons c text
    rw [hwords]
    exact Nat.succ_pos _

theorem toNat_lt (c : Char) : c.toNat + 1 < 2097152 := by
  have hvalid : c.toNat < 0xd800 ∨ 0xdfff < c.toNat ∧ c.toNat < 0x110000 := c.valid
  omega

theorem decode_wordToken (ws : List Text) :
    wordTokenizer.decode (ws.map wordToken) = ws.flatten := by
  have hword : ∀ word : Text, ((Nat.digits 2097152 (wordToken word)).map fun digit =>
      Char.ofNat (digit - 1)) = word := by
    intro word
    rw [wordToken, Nat.digits_ofDigits 2097152 (by decide), List.map_map]
    · have hchar : ((fun digit => Char.ofNat (digit - 1)) ∘ fun c : Char => c.toNat + 1) = id := by
        funext c
        exact Char.ofNat_toNat c
      rw [hchar, List.map_id]
    · intro digit hdigit
      obtain ⟨c, -, rfl⟩ := List.mem_map.mp hdigit
      exact toNat_lt c
    · intro hne
      rw [List.getLast_map]
      exact Nat.succ_ne_zero _
  show (List.map _ (ws.map wordToken)).flatten = ws.flatten
  rw [List.map_map]
  exact congrArg List.flatten ((List.map_congr_left fun word _ => hword word).trans (List.map_id ws))

theorem space_mem_retrievalPreamble : ' ' ∈ retrievalPreamble := by
  unfold retrievalPreamble
  rw [String.toList_append, String.toList_append, PyText.toList_eq rfl, List.append_assoc]
  exact List.mem_append_left _ (by decide)

/-- The header of the section is read word by word. -/
theorem readsHeader_wordTokenizer : ReadsHeader wordTokenizer := by
  have htitle : (words retrievalTitle).length = 4 := by decide
  have hheader : ∀ rest, ∃ next more,
      retrievalHeader ++ rest = retrievalTitle ++ '\n' :: (next ++ ' ' :: more) := by
    intro rest
    obtain ⟨next, more, hspace⟩ := List.append_of_mem space_mem_retrievalPreamble
    refine ⟨next, more ++ rest, ?_⟩
    rw [retrievalHeader, hspace]
    simp [PyText.join]
  refine ⟨(words retrievalTitle).map wordToken, rfl, ?_, ?_, ?_⟩
  · intro hnil
    rw [List.map_eq_nil_iff.mp hnil] at htitle
    cases htitle
  · rw [List.length_map, htitle, retrievalTitle_length]
    decide
  · intro rest cut hcut
    obtain ⟨next, more, htext⟩ := hheader rest
    obtain rfl := Option.some.inj hcut
    rw [htext, words_append _ (.inr rfl), List.map_append]
    constructor
    · rw [← List.cons_append, words_append _ (.inl rfl)]
      have hnext := words_length_pos (List.cons_ne_nil '\n' next)
      have hmore := words_length_pos (List.cons_ne_nil ' ' more)
      simp only [List.length_append, List.length_map]
      omega
    · intro n hn
      rw [List.take_append_of_le_length hn, ← List.map_take, decode_wordToken]
      have hflatten := congrArg List.length (flatten_words retrievalTitle)
      rw [← List.take_append_drop n (words retrievalTitle), List.flatten_append,
        List.length_append] at hflatten
      exact Nat.le.intro hflatten

/-! ### A question about one fact -/

open PyText (asciiData)

/-- A document with one fact, about an entity of the graph. -/
def factTurn (counter : TokenCounter) (question : Text) : DocumentTurn Text where
  merger := { unicode := asciiData, sha256 := id }
  counter
  fileIds := ["f1"]
  retrieval := some
    { chunks := [{ fileId := "f1".toList, sourceName := "facts.txt".toList
                   content := "Paris is the capital of France.".toList, score := 9 / 10 }]
      requestedCount := 1
      authorizedCount := 1
      coverage := .strong }
  graph := some { entities := [{ id := "e1", name := "Paris".toList, description := none }] }
  others := { system := "You are GraphGPT.".toList, userMessage := question }

def shortQuestion : Text := "What is the capital?".toList

/-- A question of 3960 characters. -/
def longQuestion : Text := List.replicate 3960 'q'

def factManager (counter : TokenCounter) : ContextWindowManager :=
  .ofConfig counter .declared

/-- The prompt of the turn, for which there is no notice. -/
def factPrompt (counter : TokenCounter) (question : Text) : ComposedPrompt :=
  ((factTurn counter question).prompt []).builder.build {}

variable (counter : TokenCounter)

theorem composed_factTurn (question : Text) :
    (factTurn counter question).composed {} = .ok (factPrompt counter question) := rfl

/-- What the merger leaves of the passages. -/
def factRetrieval : RetrievalContext where
  chunks := [{ fileId := "f1".toList, sourceName := "facts.txt".toList
               content := "Paris is the capital of France.".toList, score := 9 / 10 }]
  requestedCount := 1
  authorizedCount := 1
  coverage := .strong

theorem merged_factTurn (question : Text) :
    (factTurn counter question).merged = some factRetrieval := rfl

theorem evidence_factTurn (question : Text) :
    ∃ reach, (factTurn counter question).evidence factRetrieval = some reach := by
  apply Option.isSome_iff_exists.mp
  rw [DocumentTurn.evidence_isSome_iff]
  exact .inl ⟨_, List.mem_cons_self, by decide⟩

theorem factPrompt_sections (question : Text) :
    (factPrompt counter question).sections =
      ((factTurn counter question).prompt []).beforeRetrieval
        ++ (factTurn counter question).passages factRetrieval
        :: ((factTurn counter question).prompt []).afterRetrieval {} := by
  obtain ⟨reach, hreach⟩ := evidence_factTurn counter question
  rw [factPrompt, DocumentPrompt.build_sections, DocumentTurn.retrievalSection_eq
    (List.cons_ne_nil _ _) (merged_factTurn counter question) hreach, List.append_assoc]
  rfl

theorem retrievalPreamble_length : retrievalPreamble.length ≤ 290 := by
  unfold retrievalPreamble
  rw [String.toList_append, String.toList_append, PyText.toList_eq rfl, PyText.toList_eq rfl,
    PyText.toList_eq rfl]
  decide +kernel

theorem length_join_three (title preamble line : Text) :
    (PyText.join ['\n'] [title, preamble, line]).length =
      title.length + preamble.length + line.length + 2 := by
  simp only [PyText.join, List.intercalate_cons_cons, List.intercalate_singleton,
    List.length_append, List.length_singleton]
  omega

/-- A section with one passage and no note. -/
theorem formatRetrieval_singleton (u : PyText.UnicodeData) {coveragePrompt : Bool}
    {retrieval : RetrievalContext} {chunk : DocumentChunk} (hchunks : retrieval.chunks = [chunk])
    (hnote : coverageNote coveragePrompt retrieval = none) :
    formatRetrieval u coveragePrompt retrieval =
      PyText.join ['\n'] [retrievalTitle, retrievalPreamble, passageLine u 1 chunk] := by
  rw [formatRetrieval, hchunks, hnote]
  rfl

theorem formatRetrieval_singleton_length (u : PyText.UnicodeData) {coveragePrompt : Bool}
    {retrieval : RetrievalContext} {chunk : DocumentChunk} (hchunks : retrieval.chunks = [chunk])
    (hnote : coverageNote coveragePrompt retrieval = none) :
    (formatRetrieval u coveragePrompt retrieval).length ≤ (passageLine u 1 chunk).length + 321 := by
  have htitle := retrievalTitle_length
  have hpreamble := retrievalPreamble_length
  rw [formatRetrieval_singleton u hchunks hnote]
  -- the two texts are not to be counted again
  generalize retrievalTitle = title at htitle ⊢
  generalize retrievalPreamble = preamble at hpreamble ⊢
  rw [length_join_three]
  omega

/-- A word costs at most one token. -/
theorem countText_le_words (text : Text) (provider : String) :
    TokenCounter.countText ⟨some wordTokenizer⟩ text provider ≤ max 1 text.length := by
  have hwords := words_length_le text
  rw [TokenCounter.countText]
  split
  · exact Nat.zero_le _
  · show TokenCounter.calibrate ((words text).map wordToken).length provider ≤ _
    rw [List.length_map]
    rcases TokenCounter.calibrate_eq provider with h | h
    · rw [(h _).1]
      omega
    · rw [(h _).1]
      omega

theorem tokenCount_factTurn (question : Text) :
    ((factTurn ⟨some wordTokenizer⟩ question).passages factRetrieval).tokenCount ≤ 381 := by
  have hlength : (formatRetrieval asciiData true factRetrieval).length ≤ _ :=
    formatRetrieval_singleton_length asciiData rfl rfl
  have hline : (passageLine asciiData 1 (factRetrieval.chunks.head (by decide))).length ≤ 60 := by
    decide
  have hcount := countText_le_words (formatRetrieval asciiData true factRetrieval) "openai"
  refine hcount.trans (Nat.max_le.mpr ⟨by decide, ?_⟩)
  exact hlength.trans (Nat.add_le_add_right hline 321)

theorem effectiveBudget_none_ge (m : ContextWindowManager) (model : String)
    (maxOutputTokens : Option Int) : 500 ≤ m.effectiveBudget model none maxOutputTokens :=
  BudgetCalculator.inputBudget_ge _

theorem sectionTokens_append_cons (before after : List PromptSection) (s : PromptSection) :
    sectionTokens (before ++ s :: after) =
      sectionTokens before + (s.tokenCount + sectionTokens after) := by
  simp only [sectionTokens, List.map_append, List.map_cons, List.sum_append, List.sum_cons]

/-- The prompt of the short question is within the budget. -/
theorem factPrompt_fits :
    sectionTokens (factPrompt ⟨some wordTokenizer⟩ shortQuestion).sections ≤
      (factManager ⟨some wordTokenizer⟩).effectiveBudget "llama-3.3-70b-versatile" none none := by
  have hbefore : sectionTokens
      ((factTurn ⟨some wordTokenizer⟩ shortQuestion).prompt []).beforeRetrieval ≤ 50 := by
    decide +kernel
  have hafter : sectionTokens
      (((factTurn ⟨some wordTokenizer⟩ shortQuestion).prompt []).afterRetrieval {}) ≤ 50 := by
    decide +kernel
  have hpassages := tokenCount_factTurn shortQuestion
  have hbudget := effectiveBudget_none_ge (factManager ⟨some wordTokenizer⟩)
    "llama-3.3-70b-versatile" none
  rw [factPrompt_sections, sectionTokens_append_cons]
  have hsum := Nat.add_le_add hbefore (Nat.add_le_add hpassages hafter)
  exact hsum.trans (Nat.le_trans (by decide) hbudget)

def factTrimmed : TrimmedPrompt :=
  let prompt := factPrompt ⟨some wordTokenizer⟩ shortQuestion
  { sections := prompt.sections
    messages := Compose.composeMessages prompt.sections
      (factManager ⟨some wordTokenizer⟩).historyAsMessages
    totalTokens := sectionTokens prompt.sections
    originalTokens := sectionTokens prompt.sections
    wasTrimmed := false
    trimmedSections := []
    mode := prompt.mode
    targetModel := "llama-3.3-70b-versatile" }

/-- The passage is in the messages. -/
theorem attended_factTurn :
    (factTurn ⟨some wordTokenizer⟩ shortQuestion).Attended factTrimmed := by
  obtain ⟨reach, hreach⟩ := evidence_factTurn ⟨some wordTokenizer⟩ shortQuestion
  have hmanage : (factManager ⟨some wordTokenizer⟩).manage
      (factPrompt ⟨some wordTokenizer⟩ shortQuestion) "llama-3.3-70b-versatile" none none
        = .ok factTrimmed := ContextWindowManager.manage_of_le _ _ _ _ _ factPrompt_fits
  have hheader : ∀ t, (factManager ⟨some wordTokenizer⟩).tokenCounter.tokenizer = some t →
      ReadsHeader t := by
    intro t ht
    obtain rfl := Option.some.inj ht
    exact readsHeader_wordTokenizer
  have hattended := (DocumentTurn.attended_iff (List.cons_ne_nil "f1" []) hheader).2 _ _ _
    (composed_factTurn _ shortQuestion) hmanage (merged_factTurn _ shortQuestion)
  refine (hattended.2 reach hreach).mpr (.inr (.inl ?_))
  have hfits := factPrompt_fits
  rw [stillOver]
  omega

/-- Where no section is of the documents, they are ignored. -/
theorem exists_not_attended {d : DocumentTurn Text} {composed : ComposedPrompt}
    {inputBudget : Option Nat} (hcomposed : d.composed {} = .ok composed)
    (h : (match (factManager {}).manage composed "llama-3.3-70b-versatile" inputBudget none with
      | .ok trimmed => trimmed.sections.all fun s =>
        s.name ≠ "document_notice" && s.name ≠ "retrieval"
      | .error _ => false) = true) :
    ∃ composed trimmed, d.composed {} = .ok composed ∧
      (factManager {}).manage composed "llama-3.3-70b-versatile" inputBudget none = .ok trimmed ∧
      ¬ d.Attended trimmed := by
  cases hmanage : (factManager {}).manage composed "llama-3.3-70b-versatile" inputBudget none with
  | error exc =>
    rw [hmanage] at h
    cases h
  | ok trimmed =>
    rw [hmanage] at h
    refine ⟨composed, trimmed, hcomposed, hmanage, ?_⟩
    intro hattended
    obtain ⟨s, hs, -, hshows⟩ := hattended
    have hname := List.all_eq_true.mp h s hs
    simp only [Bool.and_eq_true, decide_eq_true_eq] at hname
    rcases hshows with ⟨hnotice, -⟩ | ⟨hretrieval, -⟩
    · exact hname.1 hnotice
    · exact hname.2 hretrieval

/-- The documents are not shown where the question leaves no room for them. -/
theorem not_attended :
    ∃ composed trimmed, (factTurn {} longQuestion).composed {} = .ok composed ∧
      (factManager {}).manage composed "llama-3.3-70b-versatile" (some 1000) none = .ok trimmed ∧
      ¬ (factTurn {} longQuestion).Attended trimmed :=
  exists_not_attended (composed_factTurn {} longQuestion) (by decide +kernel)

end AttachedDocuments

end LlmService
