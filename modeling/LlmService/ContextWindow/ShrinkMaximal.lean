import LlmService.ContextWindow.SectionFloors
import LlmService.Lib.Utf8Cut

/-!
# Shrinking keeps as much as fits

A history is shrunk to its longest tail of whole messages, any other text to
its longest head of whole lines. When not even the first line fits, the start
of the text is kept up to a word's end, unless the tokens that are kept stop
inside a character.
-/

namespace LlmService

namespace PriorityTrimmer

open PyText (EndsAtWord SplitsChar replacementChar)

section Specification

variable (counter : TokenCounter) (provider : String) (target : Nat)

/-- What a shrunk section keeps. -/
structure KeepsMost (sec : PromptSection) : Prop where
  messages : sec.name = "conversation_history" → ∀ items, sec.items = some items → items ≠ [] →
    ∃ tail, LongestTail (fun items => items = [] ∨
        counter.countText (renderHistory sec.header items) provider ≤ target) items tail ∧
      (shrink counter provider target sec).items = some tail ∧
      (shrink counter provider target sec).content =
        if tail = [] then [] else renderHistory sec.header tail
  lines : sec.name ≠ "conversation_history" → linesTokens counter provider sec.content 1 ≤ target →
    ∃ head, LongestHead (fun lines => lines = [] ∨
        (lines.map fun line => counter.countText line provider + 1).sum ≤ target)
        (sec.content.splitOn '\n') head ∧
      (shrink counter provider target sec).content = PyText.rstrip (PyText.join newline head)
  start : sec.name ≠ "conversation_history" → target < linesTokens counter provider sec.content 1 →
    EndsAtWord sec.content (shrink counter provider target sec).content

/-- The bytes of the tokens that `truncate_text_to_tokens` keeps; `width` is
the number of bytes of a token. -/
def keptBytes (width : Nat → Nat) (tokens : List Nat) : Nat :=
  ((tokens.take (max 1 ⌊(target : ℚ) / TokenCounter.multiplier provider⌋₊)).map width).sum

/-- The tokens that are kept of a text stop inside a character that ends a word. -/
def SplitsWordEnd (width : Nat → Nat) (text : Text) : Prop :=
  target ≠ 0 ∧ target < counter.countText text provider ∧
    ∃ tokens, counter.encode text = some tokens ∧
      ∃ before c after, SplitsChar text (keptBytes provider target width tokens) before c after ∧
        c ≠ replacementChar ∧ ∀ d ∈ after.head?, PyText.isSpace d = true

/-- The tokens of a text are its bytes in order, and any first of them are
decoded with `errors="replace"`. -/
def DecodesBytes (width : Nat → Nat) : Prop :=
  ∀ tokenizer, counter.tokenizer = some tokenizer →
    ∀ text tokens, tokenizer.encode text = some tokens → ∀ n,
      tokenizer.decode (tokens.take n) =
        PyText.decodeBytes text ((tokens.take n).map width).sum

end Specification

variable {counter : TokenCounter} {provider : String} {target : Nat} {width : Nat → Nat}
  {text cut : Text} {sec : PromptSection}

/-! ## Cutting at a word -/

theorem foldl_max_mem (l : List Nat) (n : Nat) : l.foldl max n = n ∨ l.foldl max n ∈ l := by
  induction l generalizing n with
  | nil => exact .inl rfl
  | cons i l ih =>
    rw [List.foldl_cons]
    rcases ih (max n i) with h | h
    · rw [h]
      rcases Nat.le_total n i with hle | hle
      · right
        rw [Nat.max_eq_right hle]
        exact List.mem_cons_self
      · exact .inl (Nat.max_eq_left hle)
    · exact .inr (List.mem_cons_of_mem _ h)

/-- A cut inside a word steps back to white space that it has, or to nothing. -/
theorem cutAtWord_of_inside {c : Char} (hc : text[cut.length]? = some c)
    (hspace : PyText.isSpace c = false) :
    cutAtWord cut text = [] ∨
      ∃ space d, cut[space]? = some d ∧ PyText.isSpace d = true ∧
        cutAtWord cut text = PyText.rstrip (cut.take space) := by
  simp only [cutAtWord, hc, hspace]
  generalize hfound : [' ', '\n', '\t'].filterMap (PyText.rfind · cut) = found
  by_cases hnone : 0 < found.foldl max 0
  · right
    rcases foldl_max_mem found 0 with h | h
    · omega
    · rw [← hfound, List.mem_filterMap] at h
      obtain ⟨d, hd, hrfind⟩ := h
      rw [hfound] at hrfind
      refine ⟨_, d, PyText.rfind_eq_some hrfind, ?_, ?_⟩
      · rcases List.mem_cons.mp hd with rfl | hd
        · decide
        · rcases List.mem_cons.mp hd with rfl | hd
          · decide
          · rw [List.mem_singleton.mp hd]
            decide
      · simp [hnone]
  · left
    simp [hnone]

theorem cutAtWord_of_boundary (h : ∀ c ∈ text[cut.length]?, PyText.isSpace c = true) :
    cutAtWord cut text = PyText.rstrip cut := by
  rw [cutAtWord]
  cases hc : text[cut.length]? with
  | none => rfl
  | some c => simp [h c hc]

/-- What is kept of a text whose cut agrees with it up to the last white space
of the cut. -/
theorem endsAtWord_of_inside {c : Char} (hc : text[cut.length]? = some c)
    (hspace : PyText.isSpace c = false)
    (hagree : ∀ space d, cut[space]? = some d → PyText.isSpace d = true →
      cut.take space <+: text ∧ text[space]? = some d) :
    EndsAtWord text (cutAtWord cut text) := by
  rcases cutAtWord_of_inside hc hspace with h | ⟨space, d, hd, hblank, h⟩
  · rw [h]
    exact ⟨List.nil_prefix, .inl rfl⟩
  · rw [h]
    obtain ⟨hbegins, htext⟩ := hagree space d hd hblank
    apply PyText.endsAtWord_rstrip hbegins
    have hlt := (List.getElem?_eq_some_iff.mp hd).1
    rw [List.length_take, Nat.min_eq_left (by omega), htext]
    intro e he
    rw [← Option.some.inj he]
    exact hblank

/-- A prefix of the text is cut at a word. -/
theorem endsAtWord_of_prefix (h : cut <+: text) : EndsAtWord text (cutAtWord cut text) := by
  by_cases hboundary : ∀ c ∈ text[cut.length]?, PyText.isSpace c = true
  · rw [cutAtWord_of_boundary hboundary]
    exact PyText.endsAtWord_rstrip h hboundary
  · push Not at hboundary
    obtain ⟨c, hc, hspace⟩ := hboundary
    apply endsAtWord_of_inside hc (Bool.eq_false_iff.mpr hspace)
    intro space d hd _
    obtain ⟨rest, rfl⟩ := h
    have hlt := (List.getElem?_eq_some_iff.mp hd).1
    refine ⟨(List.take_prefix _ _).trans (List.prefix_append _ _), ?_⟩
    rw [List.getElem?_append_left hlt]
    exact hd

/-- A cut that ends in U+FFFD for another character is kept whole at the end
of a word only. -/
theorem endsAtWord_replaced_iff {before after : Text} {c : Char} (hc : c ≠ replacementChar) :
    EndsAtWord (before ++ c :: after)
        (cutAtWord (before ++ [replacementChar]) (before ++ c :: after)) ↔
      ¬ ∀ d ∈ after.head?, PyText.isSpace d = true := by
  have hnext : (before ++ c :: after)[(before ++ [replacementChar]).length]? = after.head? := by
    rw [List.length_append, List.getElem?_append_right (by simp)]
    simp [List.head?_eq_getElem?]
  constructor
  · intro h hboundary
    rw [← hnext] at hboundary
    rw [cutAtWord_of_boundary hboundary, PyText.rstrip_append (by decide)] at h
    have hbegins := h.isPrefix
    rw [List.prefix_append_right_inj] at hbegins
    exact hc (List.cons_prefix_cons.mp hbegins).1.symm
  · intro hboundary
    push Not at hboundary
    obtain ⟨d, hd, hspace⟩ := hboundary
    apply endsAtWord_of_inside (hnext.trans hd) (Bool.eq_false_iff.mpr hspace)
    intro space e he hblank
    have hlt : space < before.length := by
      by_contra hge
      rw [List.getElem?_append_right (Nat.not_lt.mp hge), List.getElem?_singleton] at he
      split at he
      · rw [← Option.some.inj he] at hblank
        exact absurd hblank (by decide)
      · cases he
    rw [List.getElem?_append_left hlt] at he
    rw [List.take_append_of_le_length hlt.le, List.getElem?_append_left hlt]
    exact ⟨(List.take_prefix _ _).trans (List.prefix_append _ _), he⟩

/-! ## Truncating -/

/-- What `truncate_text_to_tokens` can do: it leaves a prefix of the text, or
decodes the first of its tokens. -/
theorem truncate_cases (counter : TokenCounter) (provider : String) (target : Nat) (text : Text) :
    counter.truncateTextToTokens text target provider <+: text ∧
        (target = 0 ∨ counter.countText text provider ≤ target ∨ counter.encode text = none) ∨
      target ≠ 0 ∧ target < counter.countText text provider ∧
        ∃ tokenizer tokens, counter.tokenizer = some tokenizer ∧
          tokenizer.encode text = some tokens ∧
          counter.truncateTextToTokens text target provider =
            tokenizer.decode (tokens.take
              (max 1 ⌊(target : ℚ) / TokenCounter.multiplier provider⌋₊)) := by
  by_cases hzero : target = 0
  · left
    rw [TokenCounter.truncateTextToTokens, if_pos hzero]
    exact ⟨List.nil_prefix, .inl hzero⟩
  · by_cases hfits : counter.countText text provider ≤ target
    · left
      rw [TokenCounter.truncateTextToTokens, if_neg hzero, if_pos hfits]
      exact ⟨List.prefix_rfl, .inr (.inl hfits)⟩
    · rw [TokenCounter.truncateTextToTokens, if_neg hzero, if_neg hfits]
      cases htokenizer : counter.tokenizer with
      | none =>
        left
        exact ⟨List.take_prefix _ _, .inr (.inr (by simp [TokenCounter.encode, htokenizer]))⟩
      | some tokenizer =>
        have hencode : counter.encode text = tokenizer.encode text := by
          simp [TokenCounter.encode, htokenizer]
        rw [hencode]
        cases htokens : tokenizer.encode text with
        | none =>
          left
          exact ⟨List.take_prefix _ _, .inr (.inr rfl)⟩
        | some tokens =>
          right
          exact ⟨hzero, Nat.not_le.mp hfits, tokenizer, tokens, rfl, htokens, rfl⟩

/-- The start of a text that is kept ends at a word, unless the kept tokens
stop inside a character that ends one. -/
theorem endsAtWord_truncate_iff (hdecodes : DecodesBytes counter width) :
    EndsAtWord text (cutAtWord (counter.truncateTextToTokens text target provider) text) ↔
      ¬ SplitsWordEnd counter provider target width text := by
  rcases truncate_cases counter provider target text
    with ⟨hbegins, hwhole⟩ | ⟨hzero, hover, tokenizer, tokens, htokenizer, htokens, htruncate⟩
  · constructor
    · intro _ hsplits
      obtain ⟨hzero, hover, tokens, htokens, -⟩ := hsplits
      rcases hwhole with h | h | h
      · exact hzero h
      · omega
      · rw [h] at htokens
        cases htokens
    · intro _
      exact endsAtWord_of_prefix hbegins
  · have hencode : counter.encode text = some tokens := by
      simp [TokenCounter.encode, htokenizer, htokens]
    rw [htruncate, hdecodes tokenizer htokenizer text tokens htokens]
    constructor
    · intro h hsplits
      obtain ⟨-, -, tokens', htokens', before, c, after, hsplit, hc, hboundary⟩ := hsplits
      obtain rfl : tokens = tokens' := Option.some.inj (hencode.symm.trans htokens')
      rw [keptBytes] at hsplit
      rw [PyText.decodeBytes_of_splits hsplit, hsplit.parts, endsAtWord_replaced_iff hc] at h
      exact h hboundary
    · intro hsplits
      rcases PyText.decodeBytes_cases text (keptBytes provider target width tokens)
        with hbegins | ⟨before, c, after, hsplit⟩
      · exact endsAtWord_of_prefix hbegins
      · rw [← keptBytes, PyText.decodeBytes_of_splits hsplit]
        by_cases hc : c = replacementChar
        · apply endsAtWord_of_prefix
          rw [hsplit.parts, hc]
          exact ⟨after, by simp⟩
        · rw [hsplit.parts, endsAtWord_replaced_iff hc]
          intro hboundary
          exact hsplits ⟨hzero, hover, tokens, hencode, before, c, after, hsplit, hc, hboundary⟩

/-! ## Shrinking -/

theorem shrink_content_of_other (hname : sec.name ≠ "conversation_history") :
    (shrink counter provider target sec).content =
      keepWholeLines counter provider target sec.content := by
  rw [shrink, if_neg hname]

/-- A history is left its longest tail of messages that fits. -/
theorem shrink_messages (hname : sec.name = "conversation_history") {items : List ChatMessage}
    (hitems : sec.items = some items) (hne : items ≠ []) :
    ∃ tail, LongestTail (fun items => items = [] ∨
        counter.countText (renderHistory sec.header items) provider ≤ target) items tail ∧
      (shrink counter provider target sec).items = some tail ∧
      (shrink counter provider target sec).content =
        if tail = [] then [] else renderHistory sec.header tail := by
  refine ⟨_, longestTail_dropOldest sec.header items, ?_⟩
  rw [shrink, if_pos hname]
  simp [shrinkHistory, historyItems, hitems, hne]

/-- Any other text is left its longest head of lines that fits. -/
theorem shrink_lines (hname : sec.name ≠ "conversation_history")
    (hfits : linesTokens counter provider sec.content 1 ≤ target) :
    ∃ head, LongestHead (fun lines => lines = [] ∨
        (lines.map fun line => counter.countText line provider + 1).sum ≤ target)
        (sec.content.splitOn '\n') head ∧
      (shrink counter provider target sec).content = PyText.rstrip (PyText.join newline head) := by
  refine ⟨_, longestHead_wholeLines (sec.content.splitOn '\n'), ?_⟩
  have hsome : wholeLines counter provider target (sec.content.splitOn '\n') 0 ≠ [] := by
    intro hnil
    have hover := (wholeLines_eq_nil_iff sec.content).mp hnil
    omega
  rw [shrink_content_of_other hname, keepWholeLines_eq, if_neg hsome]

/-- Shrinking keeps as much as fits, except where it keeps the start of a text
whose tokens stop inside a character that ends a word. -/
theorem keepsMost_iff (hdecodes : DecodesBytes counter width) (target : Nat)
    (sec : PromptSection) :
    KeepsMost counter provider target sec ↔
      sec.name = "conversation_history" ∨
        linesTokens counter provider sec.content 1 ≤ target ∨
        ¬ SplitsWordEnd counter provider target width sec.content := by
  have hstart : sec.name ≠ "conversation_history" →
      target < linesTokens counter provider sec.content 1 →
      (EndsAtWord sec.content (shrink counter provider target sec).content ↔
        ¬ SplitsWordEnd counter provider target width sec.content) := by
    intro hname hover
    rw [shrink_content_of_other hname, keepWholeLines_eq,
      if_pos ((wholeLines_eq_nil_iff sec.content).mpr hover)]
    exact endsAtWord_truncate_iff hdecodes
  constructor
  · intro h
    by_cases hname : sec.name = "conversation_history"
    · exact .inl hname
    · rcases Nat.lt_or_ge target (linesTokens counter provider sec.content 1) with hover | hfits
      · exact .inr (.inr ((hstart hname hover).mp (h.start hname hover)))
      · exact .inr (.inl hfits)
  · intro h
    refine ⟨fun hname items hitems hne => shrink_messages hname hitems hne,
      fun hname hfits => shrink_lines hname hfits, ?_⟩
    intro hname hover
    rcases h with h | h | h
    · exact absurd h hname
    · omega
    · exact (hstart hname hover).mpr h

/-! ### A tokenizer -/

/-- The tokens of a character: its bytes, or the first three of four and the last. -/
def charTokens (c : Char) : List Nat :=
  if c.utf8Size = 4 then [2 * c.toNat + 1, 2 * c.toNat] else [2 * c.toNat]

/-- The number of bytes of such a token. -/
def charWidth (token : Nat) : Nat :=
  if token % 2 = 1 then 3
  else if (Char.ofNat (token / 2)).utf8Size = 4 then 1
  else (Char.ofNat (token / 2)).utf8Size

def charTokenizer : Tokenizer where
  encode := fun text => some (text.flatMap charTokens)
  decode := fun tokens =>
    (tokens.filterMap fun token =>
      if token % 2 = 1 then none else some (Char.ofNat (token / 2)))
    ++ if tokens.getLast?.any (· % 2 = 1) then [replacementChar] else []

theorem charTokenizer_decode_cons (c : Char) (tokens : List Nat) :
    charTokenizer.decode (2 * c.toNat :: tokens) = c :: charTokenizer.decode tokens := by
  have hhalf : 2 * c.toNat / 2 = c.toNat := by omega
  cases tokens with
  | nil => simp [charTokenizer, hhalf]
  | cons token tokens => simp [charTokenizer, hhalf]

/-- The first bytes of a character are nothing when its last follows. -/
theorem charTokenizer_decode_odd (i token : Nat) (tokens : List Nat) :
    charTokenizer.decode ((2 * i + 1) :: token :: tokens) =
      charTokenizer.decode (token :: tokens) := by
  have hodd : (2 * i + 1) % 2 = 1 := by omega
  simp [charTokenizer, hodd]

theorem charWidth_odd (i : Nat) : charWidth (2 * i + 1) = 3 := by
  rw [charWidth, if_pos (by omega)]

theorem charWidth_even (c : Char) :
    charWidth (2 * c.toNat) = if c.utf8Size = 4 then 1 else c.utf8Size := by
  have hhalf : 2 * c.toNat / 2 = c.toNat := by omega
  rw [charWidth, if_neg (by omega), hhalf, Char.ofNat_toNat]

theorem charTokenizer_decode (text : Text) (n : Nat) :
    charTokenizer.decode ((text.flatMap charTokens).take n) =
      PyText.decodeBytes text (((text.flatMap charTokens).take n).map charWidth).sum := by
  induction text generalizing n with
  | nil => simp [charTokenizer, PyText.decodeBytes]
  | cons c rest ih =>
    have hwidth := charWidth_even c
    rw [List.flatMap_cons, charTokens]
    by_cases hfour : c.utf8Size = 4
    · rw [if_pos hfour] at hwidth ⊢
      rcases n with _ | _ | n
      · simp [charTokenizer]
      · have hodd : (2 * c.toNat + 1) % 2 = 1 := by omega
        simp [charTokenizer, PyText.decodeBytes, charWidth_odd, hfour, hodd]
      · simp only [List.cons_append, List.nil_append, List.take_succ_cons, List.map_cons,
          List.sum_cons]
        rw [charTokenizer_decode_odd, charTokenizer_decode_cons, ih, charWidth_odd, hwidth,
          PyText.decodeBytes_cons_of_le (by omega)]
        congr 2
        omega
    · rw [if_neg hfour] at hwidth ⊢
      cases n with
      | zero => simp [charTokenizer]
      | succ n =>
        simp only [List.cons_append, List.nil_append, List.take_succ_cons, List.map_cons,
          List.sum_cons]
        rw [charTokenizer_decode_cons, ih, hwidth, PyText.decodeBytes_cons_of_le (by omega)]
        congr 2
        omega

theorem charTokenizer_decodesBytes :
    DecodesBytes { tokenizer := some charTokenizer } charWidth := by
  intro tokenizer htokenizer text tokens htokens n
  cases htokenizer
  cases htokens
  exact charTokenizer_decode text n

/-- Two lines, of which the first fits. -/
theorem keepsMost_firstLine :
    KeepsMost { tokenizer := some charTokenizer } "openai" 2
      { name := "graph_context", content := ['a', '\n', 'b'], priority := 5, tokenCount := 3 } :=
  (keepsMost_iff charTokenizer_decodesBytes 2 _).mpr (.inr (.inl (by decide +kernel)))

/-- A text that is one character of two tokens, cut to one token: what is kept
is U+FFFD, which the text does not have. -/
theorem not_keepsMost_split :
    ¬ KeepsMost { tokenizer := some charTokenizer } "openai" 1
      { name := "graph_context", content := [Char.ofNat 0x1F600], priority := 5
        tokenCount := 2 } := by
  intro h
  have hbegins := (h.start (by decide) (by decide +kernel)).isPrefix
  have hkept : (shrink { tokenizer := some charTokenizer } "openai" 1
      { name := "graph_context", content := [Char.ofNat 0x1F600], priority := 5
        tokenCount := 2 }).content = [replacementChar] := by
    decide +kernel
  rw [hkept] at hbegins
  exact absurd hbegins (by decide)

end PriorityTrimmer

end LlmService
