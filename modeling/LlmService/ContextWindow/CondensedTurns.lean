import LlmService.ContextWindow.Fit
import LlmService.Lib.Infix

/-!
# Where a note goes

A history that is condensed begins with a note. The prompt is built from it,
trimmed to a budget and composed to messages: the note is followed on the way.
-/

namespace LlmService

namespace CondensedTurns

open Compaction PriorityTrimmer

/-- The text of the note, as the history section has it. -/
def noteText (r : CompactionResult) : Text :=
  match r.messages with
  | first :: _ => PyText.strip first.content
  | [] => []

/-- The item of the note. -/
def noteItem (r : CompactionResult) : ChatMessage := { role := .system, content := noteText r }

/-- The message carries the note, and with it the line of each message that
is counted as condensed. -/
structure Carries (r : CompactionResult) (msg : ChatMessage) : Prop where
  text : noteText r <:+: msg.content
  lines : ∀ chosen kept, r.messages = note chosen :: kept →
    ∀ line ∈ chosen, PyText.rstrip line <:+: msg.content

/-- The section whose items are sent as the history. -/
def sentHistory (sections : List PromptSection) : Option PromptSection :=
  sections.find? fun s => s.name = Compose.historySection && (s.items.getD []) ≠ []

/-! ## The text of a note -/

section Note

/-- What is counted as condensed has a line in the note. -/
theorem messages_of_condensed {counter : TokenCounter} {provider : String}
    {messages : List Message} {tokenBudget minRecent : Nat} {hasMemorySummary : Bool}
    (h : 0 < (compactHistory counter provider messages tokenBudget minRecent
      hasMemorySummary).condensed) :
    ∃ chosen kept, (compactHistory counter provider messages tokenBudget minRecent
        hasMemorySummary).messages = note chosen :: kept ∧ chosen ≠ [] ∧
      ∀ line ∈ chosen, ∃ m ∈ messages, noteLine m = some line := by
  rcases compactHistory_cases counter provider messages tokenBudget minRecent hasMemorySummary
    with heq | ⟨-, kept, -, -, heq⟩
  · rw [heq] at h
    exact absurd h (Nat.lt_irrefl 0)
  · rw [heq] at h ⊢
    rcases condense_cases counter provider tokenBudget _ _ _
      with ⟨hnone, -⟩ | ⟨chosen, hne, hsuffix, -, hmessages, -⟩
    · rw [hnone] at h
      exact absurd h (Nat.lt_irrefl 0)
    · refine ⟨chosen, _, hmessages, hne, ?_⟩
      intro line hline
      obtain ⟨m, hm, hquote⟩ := List.mem_filterMap.mp (hsuffix.subset hline)
      exact ⟨m, List.mem_of_mem_take hm, hquote⟩

theorem strip_note (chosen : List Text) :
    PyText.strip (note chosen).content = PyText.rstrip (note chosen).content := by
  apply PyText.strip_eq_rstrip
  intro c hc
  have hfirst : (note chosen).content.head? = some 'E' := rfl
  rw [hfirst] at hc
  obtain rfl := Option.some.inj hc
  decide

/-- The text of a note has no blank line in it, and begins and ends with no line break. -/
theorem unbroken_note {chosen : List Text} (hne : chosen ≠ [])
    (hlines : ∀ line ∈ chosen, line ≠ [] ∧ '\n' ∉ line) :
    Unbroken '\n' (PyText.strip (note chosen).content) := by
  have hall : ∀ line ∈ noteHeader :: chosen, line ≠ [] ∧ '\n' ∉ line := by
    intro line hline
    rcases List.mem_cons.mp hline with rfl | hline
    · decide
    · exact hlines line hline
  obtain ⟨hpair, hhead⟩ := not_pair_infix_intercalate hall
  have hheader : PyText.rstrip noteHeader <:+: PyText.rstrip (note chosen).content := by
    apply PyText.rstrip_infix_rstrip
    rw [note_content hne]
    exact PyText.infix_join List.mem_cons_self
  have hnonempty : PyText.rstrip (note chosen).content ≠ [] := by
    intro hnil
    rw [hnil] at hheader
    exact absurd (List.eq_nil_of_infix_nil hheader) (by decide)
  rw [strip_note]
  refine ⟨hnonempty, ?_, ?_, ?_⟩
  · intro h
    apply hpair
    have hjoin := note_content hne
    rw [PyText.join] at hjoin
    rw [← hjoin]
    exact h.trans (PyText.rstrip_isPrefix _).isInfix
  · intro h
    obtain ⟨rest, hrest⟩ := PyText.rstrip_isPrefix (note chosen).content
    apply hhead
    have hjoin := note_content hne
    rw [PyText.join] at hjoin
    rw [← hjoin, ← hrest, List.head?_append, h]
    rfl
  · intro h
    exact absurd (PyText.getLast_dropEndWhile _ _ '\n' h) (by decide)

end Note

/-! ## The section of the history -/

section Section

variable {b : PromptBuilder} {h : Histories} {r : CompactionResult} {sec : PromptSection}

/-- What is rendered of an item is part of the rendered history. -/
theorem infix_renderHistory {header : Text} {items : List ChatMessage} {item : ChatMessage}
    (hitem : item ∈ items) : item.content <:+: renderHistory header items := by
  have hline : item.role.capitalized ++ ": ".toList ++ item.content <:+:
      renderHistory header items := by
    apply PyText.infix_join
    apply List.mem_append_right
    exact List.mem_map_of_mem hitem
  exact (List.suffix_append _ _).isInfix.trans hline

theorem infix_formatHistory {messages : List Message} {msg : Message} (hmsg : msg ∈ messages) :
    PyText.strip msg.content <:+: PromptBuilder.formatHistory messages := by
  have hline : msg.role.capitalized ++ ": ".toList ++ PyText.strip msg.content <:+:
      PromptBuilder.formatHistory messages := by
    apply PyText.infix_join
    apply List.mem_cons_of_mem
    exact List.mem_map_of_mem hmsg
  exact (List.suffix_append _ _).isInfix.trans hline

/-- An item that is left in a history section that was cut is in its text. -/
theorem infix_cutTo {counter : TokenCounter} {provider : String} {target : Nat}
    {s : PromptSection} {item : ChatMessage} (hname : s.name = Compose.historySection)
    (hitem : item ∈ (cutTo counter provider target s).items.getD []) :
    item.content <:+: (cutTo counter provider target s).content := by
  revert hitem
  simp only [cutTo]
  by_cases hzero : target = 0
  · rw [if_pos hzero]
    intro hitem
    cases hitem
  · rw [if_neg hzero]
    simp only [shrink, Compose.historySection] at hname ⊢
    rw [if_pos hname]
    cases hitems : s.items with
    | none =>
      simp only [shrinkHistory, historyItems, hitems]
      split
      · intro hitem
        cases hitem
      · intro hitem
        cases hitem
    | some items =>
      simp only [shrinkHistory, historyItems, hitems]
      by_cases hnone : items = []
      · rw [if_pos hnone]
        intro hitem
        simp [hnone] at hitem
      · rw [if_neg hnone]
        intro hitem
        simp only [Option.map_some, Option.getD_some] at hitem
        rw [if_neg (List.ne_nil_of_mem hitem)]
        exact infix_renderHistory hitem

/-- The section that the builder makes of the condensed history. -/
theorem eq_of_mem_build (hothers : ∀ s ∈ b.before ++ b.after, s.name ≠ Compose.historySection)
    (hsec : sec ∈ (b.build h).sections) (hname : sec.name = Compose.historySection) :
    sec ∈ b.historySection h := by
  simp only [PromptBuilder.build, List.append_assoc] at hsec
  rcases List.mem_append.mp hsec with hsec | hsec
  · exact absurd hname (hothers sec (List.mem_append_left _ hsec))
  · rcases List.mem_append.mp hsec with hsec | hsec
    · exact hsec
    · exact absurd hname (hothers sec (List.mem_append_right _ hsec))

theorem content_of_mem_historySection (hsec : sec ∈ b.historySection h) :
    sec.content = PromptBuilder.formatHistory h.historyOf := by
  have hhistory : (if h.conversationHistory = [] then h.shortTermMessages.getD []
      else h.conversationHistory) = h.historyOf := by
    rw [Histories.historyOf]
    by_cases hnone : h.conversationHistory = []
    · rw [if_pos hnone, if_neg (not_not_intro hnone)]
    · rw [if_neg hnone, if_pos hnone]
  simp only [PromptBuilder.historySection, hhistory] at hsec
  by_cases hnone : h.historyOf = []
  · rw [if_pos hnone] at hsec
    cases hsec
  · rw [if_neg hnone] at hsec
    rw [List.mem_singleton.mp hsec]

end Section

/-! ## The messages -/

section Messages

variable {t : Text} {sections : List PromptSection} {sec : PromptSection}

/-- A text without a blank line is in a message that another is merged into,
if it is in one of the two. -/
theorem exists_infix_append (ht : Unbroken '\n' t) (messages : List ChatMessage) (role : Role)
    (content : Text) :
    (∃ msg ∈ Compose.append messages role content, t <:+: msg.content) ↔
      (∃ msg ∈ messages, t <:+: msg.content) ∨ t <:+: content := by
  simp only [Compose.append]
  cases hlast : messages.getLast? with
  | none =>
    rw [List.getLast?_eq_none_iff.mp hlast]
    simp
  | some last =>
    obtain ⟨init, rfl⟩ := List.getLast?_eq_some_iff.mp hlast
    by_cases hrole : last.role = role
    · simp only [if_pos hrole, List.dropLast_concat, List.mem_append, List.mem_singleton,
        or_and_right, exists_or, exists_eq_left, Compose.blankLine]
      rw [ht.infix_append_iff, or_assoc]
    · simp only [if_neg hrole, List.mem_append, List.mem_singleton, or_and_right, exists_or,
        exists_eq_left]

variable (sections) in
theorem infix_joined_iff (ht : Unbroken '\n' t) (keep : String → Bool) :
    t <:+: Compose.joined sections keep ↔
      ∃ s ∈ sections, keep s.name = true ∧ t <:+: s.content := by
  rw [Compose.joined, Compose.blankLine, PyText.join, ht.infix_intercalate_iff]
  simp only [List.mem_map, List.mem_filter]
  constructor
  · intro h
    obtain ⟨_, ⟨s, ⟨hs, hkeep⟩, rfl⟩, htext⟩ := h
    exact ⟨s, hs, hkeep, htext⟩
  · intro h
    obtain ⟨s, hs, hkeep, htext⟩ := h
    exact ⟨s.content, ⟨s, ⟨hs, hkeep⟩, rfl⟩, htext⟩

/-- The system message has what the system sections have. -/
theorem exists_infix_system (ht : Unbroken '\n' t) :
    (∃ msg ∈ (if Compose.joined sections (fun name => name = "system") = [] then []
        else [{ role := .system, content := Compose.joined sections fun name => name = "system" }] :
          List ChatMessage), t <:+: msg.content) ↔
      ∃ s ∈ sections, s.name = "system" ∧ t <:+: s.content := by
  have hiff := infix_joined_iff sections ht fun name => name = "system"
  simp only [decide_eq_true_eq] at hiff
  rw [← hiff]
  by_cases hnone : Compose.joined sections (fun name => name = "system") = []
  · rw [if_pos hnone, hnone]
    simp [ht.ne_nil]
  · rw [if_neg hnone]
    simp

/-- Whether `history_messages` sends an item. -/
def IsSpoken (item : ChatMessage) : Prop :=
  (item.role = .user ∨ item.role = .assistant) ∧ PyText.strip item.content ≠ []

instance (item : ChatMessage) : Decidable (IsSpoken item) :=
  inferInstanceAs (Decidable (_ ∧ _))

theorem append_cons_cons (first second : ChatMessage) (rest : List ChatMessage) (role : Role)
    (content : Text) :
    Compose.append (first :: second :: rest) role content =
      first :: Compose.append (second :: rest) role content := by
  simp only [Compose.append, List.getLast?_cons_cons]
  cases hlast : (second :: rest).getLast? with
  | none => simp at hlast
  | some last =>
    by_cases hrole : last.role = role
    · simp only [if_pos hrole, List.dropLast_cons_cons, List.cons_append]
    · simp only [if_neg hrole, List.cons_append]

theorem append_ne_nil (messages : List ChatMessage) (role : Role) (content : Text) :
    Compose.append messages role content ≠ [] := by
  simp only [Compose.append]
  cases messages.getLast? with
  | none => simp
  | some last =>
    by_cases hrole : last.role = role
    · simp [if_pos hrole]
    · simp [if_neg hrole]

/-- The first message of the user, and what follows it. -/
def fromUser (messages : List ChatMessage) : List ChatMessage :=
  messages.dropWhile fun m => m.role ≠ .user

/-- The items that are sent: the conversation opens with the user. -/
def spokenItems (sec : PromptSection) : List ChatMessage :=
  fromUser ((sec.items.getD []).filter fun item => IsSpoken item)

theorem fromUser_cons_user {first : ChatMessage} (h : first.role = .user)
    (rest : List ChatMessage) : fromUser (first :: rest) = first :: rest :=
  List.dropWhile_cons_of_neg (by simpa using h)

theorem fromUser_cons_other {first : ChatMessage} (h : first.role ≠ .user)
    (rest : List ChatMessage) : fromUser (first :: rest) = fromUser rest :=
  List.dropWhile_cons_of_pos (by simpa using h)

/-- What follows a message of the user is merged as if nothing stood before it. -/
theorem fromUser_append {messages : List ChatMessage} (h : fromUser messages ≠ [])
    (role : Role) (content : Text) :
    fromUser (Compose.append messages role content) =
      Compose.append (fromUser messages) role content := by
  induction messages with
  | nil => exact absurd rfl h
  | cons first rest ih =>
    by_cases hfirst : first.role = .user
    · rw [fromUser_cons_user hfirst]
      cases rest with
      | nil =>
        simp only [Compose.append, List.getLast?_singleton]
        by_cases hrole : first.role = role
        · simp only [if_pos hrole, List.dropLast_singleton, List.nil_append]
          exact fromUser_cons_user (by exact hfirst) []
        · simp only [if_neg hrole, List.cons_append]
          exact fromUser_cons_user hfirst _
      | cons second rest =>
        rw [append_cons_cons, fromUser_cons_user hfirst]
    · rw [fromUser_cons_other hfirst] at h ⊢
      cases rest with
      | nil => exact absurd rfl h
      | cons second rest =>
        rw [append_cons_cons, fromUser_cons_other hfirst]
        exact ih h

/-- Before the user has spoken, nothing that is merged is sent. -/
theorem fromUser_append_of_nil {messages : List ChatMessage} (h : fromUser messages = [])
    (role : Role) (content : Text) :
    fromUser (Compose.append messages role content) = fromUser [{ role, content }] := by
  induction messages with
  | nil => rfl
  | cons first rest ih =>
    by_cases hfirst : first.role = .user
    · rw [fromUser_cons_user hfirst] at h
      cases h
    · rw [fromUser_cons_other hfirst] at h
      cases rest with
      | nil =>
        simp only [Compose.append, List.getLast?_singleton]
        by_cases hrole : first.role = role
        · simp only [if_pos hrole, List.dropLast_singleton, List.nil_append]
          rw [hrole] at hfirst
          rw [fromUser_cons_other (by exact hrole ▸ hfirst), fromUser_cons_other hfirst]
        · simp only [if_neg hrole, List.cons_append]
          exact fromUser_cons_other hfirst _
      | cons second rest =>
        rw [append_cons_cons, fromUser_cons_other hfirst]
        exact ih h

/-- The items, merged one after the other. -/
def mergeItems (messages : List ChatMessage) (items : List ChatMessage) : List ChatMessage :=
  items.foldl (fun out item => Compose.append out item.role (PyText.strip item.content)) messages

theorem fromUser_mergeItems_of_user {messages items : List ChatMessage}
    (h : fromUser messages ≠ []) :
    fromUser (mergeItems messages items) = mergeItems (fromUser messages) items := by
  induction items generalizing messages with
  | nil => rfl
  | cons item items ih =>
    simp only [mergeItems, List.foldl_cons] at ih ⊢
    have hstep := fromUser_append h item.role (PyText.strip item.content)
    rw [ih (by rw [hstep]; exact append_ne_nil _ _ _), hstep]

theorem fromUser_mergeItems {messages items : List ChatMessage} (h : fromUser messages = []) :
    fromUser (mergeItems messages items) = mergeItems [] (fromUser items) := by
  induction items generalizing messages with
  | nil => exact h
  | cons item items ih =>
    have hstep := fromUser_append_of_nil h item.role (PyText.strip item.content)
    by_cases hrole : item.role = .user
    · have hfirst : fromUser [{ role := item.role, content := PyText.strip item.content }] =
          [({ role := item.role, content := PyText.strip item.content } : ChatMessage)] :=
        fromUser_cons_user (by exact hrole) []
      rw [fromUser_cons_user hrole]
      show fromUser (mergeItems (Compose.append messages item.role _) items) = _
      rw [fromUser_mergeItems_of_user (by rw [hstep, hfirst]; simp), hstep, hfirst]
      rfl
    · have hrest : fromUser (Compose.append messages item.role (PyText.strip item.content)) = [] := by
        rw [hstep]
        exact fromUser_cons_other (by exact hrole) []
      rw [fromUser_cons_other hrole, ← ih hrest]
      rfl

theorem exists_infix_mergeItems (ht : Unbroken '\n' t) (messages items : List ChatMessage) :
    (∃ msg ∈ mergeItems messages items, t <:+: msg.content) ↔
      (∃ msg ∈ messages, t <:+: msg.content) ∨
        ∃ item ∈ items, t <:+: PyText.strip item.content := by
  induction items generalizing messages with
  | nil => simp [mergeItems]
  | cons item items ih =>
    show (∃ msg ∈ mergeItems (Compose.append messages item.role _) items, _) ↔ _
    rw [ih, exists_infix_append ht, List.exists_mem_cons_iff, or_assoc]

/-- The messages of the history have what the items that are sent have. -/
theorem exists_infix_historyMessages (ht : Unbroken '\n' t) (sec : PromptSection) :
    (∃ msg ∈ Compose.historyMessages sec, t <:+: msg.content) ↔
      ∃ item ∈ spokenItems sec, t <:+: PyText.strip item.content := by
  have hmerge : Compose.historyMessages sec =
      fromUser (mergeItems [] ((sec.items.getD []).filter fun item => IsSpoken item)) := by
    rw [mergeItems, List.foldl_filter]
    simp only [decide_eq_true_eq]
    rfl
  rw [hmerge, fromUser_mergeItems rfl, exists_infix_mergeItems ht]
  simp [spokenItems]

/-- With the history as messages, a text is sent if another section has it, or
a message of the history that is sent. -/
theorem exists_infix_messages (ht : Unbroken '\n' t) (hsec : sentHistory sections = some sec) :
    (∃ msg ∈ Compose.composeMessages sections true, t <:+: msg.content) ↔
      (∃ s ∈ sections, s.name ≠ Compose.historySection ∧ t <:+: s.content) ∨
        ∃ msg ∈ Compose.historyMessages sec, t <:+: msg.content := by
  rw [sentHistory] at hsec
  simp only [Compose.composeMessages, hsec]
  generalize hrest : Compose.joined sections
    (fun name => name ≠ "system" && name ≠ Compose.historySection) = rest
  have hjoined := infix_joined_iff sections ht
    fun name => name ≠ "system" && name ≠ Compose.historySection
  rw [hrest] at hjoined
  have hsplit : (∃ msg ∈ (if rest = [] then
        (if Compose.joined sections (fun name => name = "system") = [] then []
          else [{ role := .system,
                  content := Compose.joined sections fun name => name = "system" }])
          ++ Compose.historyMessages sec
      else Compose.append
        ((if Compose.joined sections (fun name => name = "system") = [] then []
          else [{ role := .system,
                  content := Compose.joined sections fun name => name = "system" }])
          ++ Compose.historyMessages sec) .user rest), t <:+: msg.content) ↔
      ((∃ s ∈ sections, s.name = "system" ∧ t <:+: s.content) ∨
        ∃ msg ∈ Compose.historyMessages sec, t <:+: msg.content) ∨ t <:+: rest := by
    rw [← exists_infix_system ht]
    by_cases hnone : rest = []
    · rw [if_pos hnone, hnone]
      simp only [List.mem_append, or_and_right, exists_or, List.infix_nil, ht.ne_nil, or_false]
    · rw [if_neg hnone, exists_infix_append ht]
      simp only [List.mem_append, or_and_right, exists_or]
  rw [hsplit, hjoined]
  constructor
  · intro h
    rcases h with (⟨s, hs, hname, h⟩ | h) | ⟨s, hs, hname, h⟩
    · exact .inl ⟨s, hs, by rw [hname]; decide, h⟩
    · exact .inr h
    · simp only [Bool.and_eq_true, decide_eq_true_eq] at hname
      exact .inl ⟨s, hs, hname.2, h⟩
  · intro h
    rcases h with ⟨s, hs, hname, h⟩ | h
    · by_cases hsystem : s.name = "system"
      · exact .inl (.inl ⟨s, hs, hsystem, h⟩)
      · exact .inr ⟨s, hs, by simp [hsystem, hname], h⟩
    · exact .inl (.inr h)

end Messages

/-! ## What is sent of a condensed history -/

section Sent

variable {b : PromptBuilder} {h : Histories} {m : ContextWindowManager} {model : String}
  {custom : Option Nat} {maxOutputTokens : Option Int} {counter : TokenCounter}
  {provider : String} {tokenBudget minRecent : Nat} {hasMemorySummary : Bool}
  {r : CompactionResult} {trimmed : TrimmedPrompt} {sec : PromptSection}

/-- A message with the text of the note has its lines. -/
theorem carries_of_infix {msg : ChatMessage}
    (hr : r = compactHistory counter provider h.historyOf tokenBudget minRecent hasMemorySummary)
    (hcondensed : 0 < r.condensed) (htext : noteText r <:+: msg.content) : Carries r msg := by
  refine ⟨htext, ?_⟩
  subst hr
  obtain ⟨lines, rest, hmessages, hne, -⟩ := messages_of_condensed hcondensed
  intro chosen kept hnote line hline
  have hcons := hmessages.symm.trans hnote
  have hstrip : noteText (compactHistory counter provider h.historyOf tokenBudget minRecent
      hasMemorySummary) = PyText.rstrip (note chosen).content := by
    rw [noteText, hnote]
    exact strip_note chosen
  rw [hstrip] at htext
  refine List.IsInfix.trans ?_ htext
  apply PyText.rstrip_infix_rstrip
  rw [note_content (List.ne_nil_of_mem hline)]
  exact PyText.infix_join (List.mem_cons_of_mem _ hline)

theorem unbroken_noteText
    (hr : r = compactHistory counter provider h.historyOf tokenBudget minRecent hasMemorySummary)
    (hcondensed : 0 < r.condensed) : Unbroken '\n' (noteText r) := by
  subst hr
  obtain ⟨chosen, kept, hmessages, hne, hlines⟩ := messages_of_condensed hcondensed
  rw [noteText, hmessages]
  apply unbroken_note hne
  intro line hline
  obtain ⟨m, -, hquote⟩ := hlines line hline
  exact noteLine_line hquote

/-- A history section that is left with the note has its text. -/
theorem infix_sec (hothers : ∀ s ∈ b.before ++ b.after, s.name ≠ Compose.historySection)
    (hr : r = compactHistory counter provider h.historyOf tokenBudget minRecent hasMemorySummary)
    (hcondensed : 0 < r.condensed)
    (hmanage : m.manage (b.build (h.setHistory r.messages)) model custom maxOutputTokens
      = .ok trimmed)
    (hmem : sec ∈ trimmed.sections) (hname : sec.name = Compose.historySection)
    (hnote : noteItem r ∈ sec.items.getD []) : noteText r <:+: sec.content := by
  obtain ⟨names, htrim, -⟩ := ContextWindowManager.trim_of_manage hmanage
  obtain ⟨built, hbuilt, hcut⟩ := isCut_of_trim htrim hmem
  rcases hcut with rfl | ⟨-, target, rfl⟩
  · have hsection := eq_of_mem_build hothers hbuilt hname
    rw [content_of_mem_historySection hsection]
    have hhistory : h.historyOf ≠ [] := by
      intro hnil
      rw [hr, hnil] at hcondensed
      exact absurd hcondensed (by simp [compactHistory, unchanged])
    rw [Histories.historyOf_setHistory hhistory]
    subst hr
    obtain ⟨chosen, kept, hmessages, -, -⟩ := messages_of_condensed hcondensed
    rw [noteText, hmessages]
    exact infix_formatHistory List.mem_cons_self
  · rw [cutTo_name] at hname
    exact infix_cutTo hname hnote

/-- A note that is left in the history reaches the model when the history is
part of the text of the user. As messages, a history is sent without the note:
its text is there only if another section or another item repeats it. -/
theorem note_carried_iff
    (hothers : ∀ s ∈ b.before ++ b.after, s.name ≠ Compose.historySection)
    (hr : r = compactHistory counter provider h.historyOf tokenBudget minRecent hasMemorySummary)
    (hcondensed : 0 < r.condensed)
    (hmanage : m.manage (b.build (h.setHistory r.messages)) model custom maxOutputTokens
      = .ok trimmed)
    (hsec : sentHistory trimmed.sections = some sec) (hnote : noteItem r ∈ sec.items.getD []) :
    (∃ msg ∈ trimmed.messages, Carries r msg) ↔
      m.historyAsMessages = false ∨
        (∃ s ∈ trimmed.sections, s.name ≠ Compose.historySection ∧ noteText r <:+: s.content) ∨
        ∃ item ∈ spokenItems sec, noteText r <:+: PyText.strip item.content := by
  have hunbroken := unbroken_noteText hr hcondensed
  have hcarries : (∃ msg ∈ trimmed.messages, Carries r msg) ↔
      ∃ msg ∈ trimmed.messages, noteText r <:+: msg.content := by
    constructor
    · rintro ⟨msg, hmsg, hcarries⟩
      exact ⟨msg, hmsg, hcarries.text⟩
    · rintro ⟨msg, hmsg, htext⟩
      exact ⟨msg, hmsg, carries_of_infix hr hcondensed htext⟩
  rw [hcarries, (ContextWindowManager.manage_ok hmanage).2.2]
  cases hmode : m.historyAsMessages with
  | true =>
    rw [exists_infix_messages hunbroken hsec, exists_infix_historyMessages hunbroken]
    simp
  | false =>
    have hmem := List.mem_of_find?_eq_some hsec
    have hname : sec.name = Compose.historySection := by
      have hfound := List.find?_some hsec
      simp only [Bool.and_eq_true, decide_eq_true_eq] at hfound
      exact hfound.1
    have htext := infix_sec hothers hr hcondensed hmanage hmem hname hnote
    have hother : sec.name ≠ "system" := by
      rw [hname]
      decide
    constructor
    · intro _
      exact .inl rfl
    · intro _
      have hne : sec.content ≠ [] := by
        intro hnil
        rw [hnil] at htext
        exact hunbroken.ne_nil (List.eq_nil_of_infix_nil htext)
      obtain ⟨msg, hmsg, hcontent⟩ := Compose.exists_infix_of_section hmem hother (.inl rfl) hne
      exact ⟨msg, hmsg, htext.trans hcontent⟩

end Sent

/-! ### A history of two turns -/

/-- The first turn does not fit 80 tokens as it is. -/
def dessertTurns : Histories where
  conversationHistory :=
    [{ role := .user, content := "I am allergic to nuts. ".toList ++ List.replicate 280 'x' },
      { role := .assistant, content := "Noted.".toList }]

def condensedTurns : CompactionResult :=
  compactHistory {} "openai" dessertTurns.historyOf 80 1 false

def dessertQuestion : PromptBuilder where
  before :=
    [{  name := "system", content := "You are GraphGPT.".toList, priority := 10
        tokenCount := 4, trimmable := false }]
  after :=
    [{  name := "user_query", content := "Suggest a dessert.".toList, priority := 10
        tokenCount := 5, trimmable := false }]

def managerOf (historyAsMessages : Bool) : ContextWindowManager :=
  .ofConfig {} { LLMServiceConfig.declared with promptHistoryAsMessages := historyAsMessages }

/-- The prompt of the condensed history, which is within the budget. -/
def sentPrompt (historyAsMessages : Bool) : TrimmedPrompt :=
  let prompt := dessertQuestion.build (dessertTurns.setHistory condensedTurns.messages)
  { sections := prompt.sections
    messages := Compose.composeMessages prompt.sections historyAsMessages
    totalTokens := sectionTokens prompt.sections
    originalTokens := sectionTokens prompt.sections
    wasTrimmed := false
    trimmedSections := []
    mode := prompt.mode
    targetModel := "llama-3.3-70b-versatile" }

theorem manage_sentPrompt (historyAsMessages : Bool) :
    (managerOf historyAsMessages).manage
      (dessertQuestion.build (dessertTurns.setHistory condensedTurns.messages))
      "llama-3.3-70b-versatile" none none = .ok (sentPrompt historyAsMessages) := by
  apply ContextWindowManager.manage_of_le
  have hsections : sectionTokens (dessertQuestion.build
      (dessertTurns.setHistory condensedTurns.messages)).sections ≤ 500 := by decide +kernel
  have hbudget : 500 ≤ (managerOf historyAsMessages).effectiveBudget
      "llama-3.3-70b-versatile" none none := BudgetCalculator.inputBudget_ge _
  omega

theorem condensedTurns_condensed : 0 < condensedTurns.condensed := by decide +kernel

/-- The section of the history, which nothing has cut. -/
def sentSection : PromptSection :=
  ((dessertQuestion.historySection (dessertTurns.setHistory condensedTurns.messages)).head
    (by decide +kernel))

theorem sentHistory_sentPrompt (historyAsMessages : Bool) :
    sentHistory (sentPrompt historyAsMessages).sections = some sentSection := by
  show sentHistory (dessertQuestion.build
    (dessertTurns.setHistory condensedTurns.messages)).sections = some sentSection
  decide +kernel

theorem noteItem_mem_sentSection : noteItem condensedTurns ∈ sentSection.items.getD [] := by
  decide +kernel

/-- As text, the note is in the message of the user. -/
theorem note_carried_flat : ∃ msg ∈ (sentPrompt false).messages, Carries condensedTurns msg :=
  (note_carried_iff (by decide) rfl condensedTurns_condensed (manage_sentPrompt false)
    (sentHistory_sentPrompt false) noteItem_mem_sentSection).mpr (.inl rfl)

/-- As messages, the same history is sent without it. -/
theorem not_note_carried :
    0 < condensedTurns.condensed ∧
      (managerOf true).manage
        (dessertQuestion.build (dessertTurns.setHistory condensedTurns.messages))
        "llama-3.3-70b-versatile" none none = .ok (sentPrompt true) ∧
      sentHistory (sentPrompt true).sections = some sentSection ∧
      noteItem condensedTurns ∈ sentSection.items.getD [] ∧
      ¬ ∃ msg ∈ (sentPrompt true).messages, Carries condensedTurns msg := by
  refine ⟨condensedTurns_condensed, manage_sentPrompt true, sentHistory_sentPrompt true,
    noteItem_mem_sentSection, ?_⟩
  intro h
  obtain ⟨msg, hmsg, hcarries⟩ := h
  have hall : ∀ msg ∈ (sentPrompt true).messages, ¬ noteText condensedTurns <:+: msg.content := by
    decide +kernel
  exact hall msg hmsg hcarries.text

end CondensedTurns

end LlmService
