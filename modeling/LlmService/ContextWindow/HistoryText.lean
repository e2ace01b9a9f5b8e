import LlmService.ContextWindow.Trimmer
import LlmService.Lib.Infix

/-!
# The text of a history

`render_history` and `_history_items` of `context_window/trimmer.py`. What is
rendered of a header and its messages is read again as it was, where no line
behind the first of a content, and none of the header, looks like the begin of
a message.
-/

namespace LlmService

namespace PriorityTrimmer

/-- The line begins with a role prefix. -/
def BeginsMessage (line : Text) : Prop := ∃ role : Role, role.capitalized ++ ": ".toList <+: line

instance (line : Text) : Decidable (BeginsMessage line) :=
  decidable_of_iff (∃ role ∈ [Role.user, .assistant, .system, .tool],
    role.capitalized ++ ": ".toList <+: line)
    ⟨fun ⟨role, _, h⟩ => ⟨role, h⟩, fun ⟨role, h⟩ => ⟨role, by cases role <;> decide, h⟩⟩

/-- The line of `render_history` for a message. -/
def messageText (item : ChatMessage) : Text := item.role.capitalized ++ ": ".toList ++ item.content

/-! ## Role prefixes -/

section Lines

variable {line header content : Text} {role : Role} {items : List ChatMessage}

theorem mem_roles (role : Role) : role ∈ [Role.user, .assistant, .system, .tool] := by
  cases role <;> decide

theorem historyRoleLine_eq_none_iff : historyRoleLine line = none ↔ ¬ BeginsMessage line := by
  rw [historyRoleLine, List.findSome?_eq_none_iff]
  constructor
  · rintro h ⟨role, hrole⟩
    have := h role (mem_roles role)
    rw [if_pos hrole] at this
    cases this
  · intro h role _
    exact if_neg fun hrole => h ⟨role, hrole⟩

/-- The prefixes begin with different letters. -/
theorem role_eq_of_head? {other : Role} (h : other.capitalized.head? = role.capitalized.head?) :
    other = role := by
  revert h
  cases other <;> cases role <;> decide

theorem role_eq_of_prefix {other : Role} {rest : Text}
    (h : other.capitalized ++ ": ".toList <+: role.capitalized ++ ": ".toList ++ rest) :
    other = role := by
  obtain ⟨after, hafter⟩ := h
  have hfirst : ∀ (role : Role) (rest : Text),
      (role.capitalized ++ ": ".toList ++ rest).head? = role.capitalized.head? := by
    intro role rest
    cases role <;> rfl
  have hhead := congrArg List.head? hafter
  rw [hfirst, hfirst] at hhead
  exact role_eq_of_head? hhead

/-- The first line of a message. -/
theorem historyRoleLine_prefix (role : Role) (line : Text) :
    historyRoleLine (role.capitalized ++ ": ".toList ++ line) = some { role, content := line } := by
  cases hread : historyRoleLine (role.capitalized ++ ": ".toList ++ line) with
  | none =>
    exact absurd ⟨role, List.prefix_append _ _⟩ (historyRoleLine_eq_none_iff.mp hread)
  | some item =>
    obtain ⟨other, -, hother⟩ := List.exists_of_findSome?_eq_some hread
    by_cases hprefix : other.capitalized ++ ": ".toList <+: role.capitalized ++ ": ".toList ++ line
    · rw [if_pos hprefix] at hother
      obtain rfl := role_eq_of_prefix hprefix
      rw [← hother, List.drop_left]
    · rw [if_neg hprefix] at hother
      cases hother

end Lines

/-! ## Reading lines -/

section Reading

variable {header line : Text} {lines : List Text} {items : List ChatMessage} {item : ChatMessage}

/-- Lines that go on with the header. -/
theorem foldl_header (hheader : header ≠ []) (h : ∀ line ∈ lines, ¬ BeginsMessage line) :
    lines.foldl readHistoryLine (header, []) = (PyText.join newline (header :: lines), []) := by
  induction lines generalizing header with
  | nil => rw [List.foldl_nil, PyText.join, List.intercalate_singleton]
  | cons line lines ih =>
    obtain ⟨hline, hlines⟩ := List.forall_mem_cons.mp h
    have hread : readHistoryLine (header, []) line = (header ++ newline ++ line, []) := by
      rw [readHistoryLine, historyRoleLine_eq_none_iff.mpr hline]
      show (if header = [] then line else header ++ newline ++ line, _) = _
      rw [if_neg hheader]
    rw [List.foldl_cons, hread, ih (by simp [hheader]) hlines, PyText.join_glue]

/-- Lines that go on with the last message. -/
theorem foldl_content (header : Text) (items : List ChatMessage) (item : ChatMessage)
    (h : ∀ line ∈ lines, ¬ BeginsMessage line) :
    lines.foldl readHistoryLine (header, items ++ [item]) =
      (header, items ++ [{ item with content := PyText.join newline (item.content :: lines) }]) := by
  induction lines generalizing item with
  | nil => rw [List.foldl_nil, PyText.join, List.intercalate_singleton]
  | cons line lines ih =>
    obtain ⟨hline, hlines⟩ := List.forall_mem_cons.mp h
    have hread : readHistoryLine (header, items ++ [item]) line =
        (header, items ++ [{ item with content := item.content ++ newline ++ line }]) := by
      rw [readHistoryLine, historyRoleLine_eq_none_iff.mpr hline]
      simp
    rw [List.foldl_cons, hread, ih _ hlines, PyText.join_glue]

theorem splitOn_append {lead text first : Text} {rest : List Text} (hlead : '\n' ∉ lead)
    (htext : text.splitOn '\n' = first :: rest) :
    (lead ++ text).splitOn '\n' = (lead ++ first) :: rest := by
  induction lead with
  | nil => exact htext
  | cons c lead ih =>
    rw [List.mem_cons, not_or] at hlead
    obtain ⟨hc, hlead⟩ := hlead
    have hne : (c == '\n') = false := by simpa using Ne.symm hc
    rw [List.cons_append, List.splitOn_cons_eq_if_modifyHead, if_neg (by simp [hne]), ih hlead]
    rfl

/-- The lines of joined texts. -/
theorem splitOn_join {parts : List Text} (h : parts ≠ []) :
    (PyText.join newline parts).splitOn '\n' = parts.flatMap (·.splitOn '\n') := by
  induction parts with
  | nil => exact absurd rfl h
  | cons first rest ih =>
    cases rest with
    | nil =>
      rw [PyText.join, List.intercalate_singleton, List.flatMap_singleton]
    | cons next rest =>
      rw [PyText.join_cons _ _ (List.cons_ne_nil next rest), List.append_assoc, List.flatMap_cons,
        ← ih (List.cons_ne_nil next rest)]
      exact List.splitOn_append_cons_self _ _

/-- The lines of a message are read as that message. -/
theorem foldl_message (header : Text) (items : List ChatMessage) (item : ChatMessage)
    (h : ∀ line ∈ (item.content.splitOn '\n').tail, ¬ BeginsMessage line) :
    ((messageText item).splitOn '\n').foldl readHistoryLine (header, items) =
      (header, items ++ [item]) := by
  have hlead : '\n' ∉ item.role.capitalized ++ ": ".toList := by
    cases item.role <;> decide
  cases hlines : item.content.splitOn '\n' with
  | nil => exact absurd hlines (List.splitOn_ne_nil _ _)
  | cons first rest =>
    rw [hlines, List.tail_cons] at h
    have hread : readHistoryLine (header, items) (item.role.capitalized ++ ": ".toList ++ first) =
        (header, items ++ [{ role := item.role, content := first }]) := by
      rw [readHistoryLine, historyRoleLine_prefix]
    have hcontent : PyText.join newline (first :: rest) = item.content := by
      rw [← hlines]
      exact List.intercalate_splitOn '\n'
    rw [messageText, splitOn_append hlead hlines, List.foldl_cons, hread, foldl_content _ _ _ h, hcontent]

theorem foldl_messages (header : Text) (items more : List ChatMessage)
    (h : ∀ item ∈ more, ∀ line ∈ (item.content.splitOn '\n').tail, ¬ BeginsMessage line) :
    ((more.map messageText).flatMap (·.splitOn '\n')).foldl readHistoryLine (header, items) =
      (header, items ++ more) := by
  induction more generalizing items with
  | nil => rw [List.append_nil]; rfl
  | cons item more ih =>
    obtain ⟨hitem, hmore⟩ := List.forall_mem_cons.mp h
    rw [List.map_cons, List.flatMap_cons, List.foldl_append, foldl_message header items item hitem,
      ih _ hmore, List.append_assoc, List.singleton_append]

/-- The lines of a header are read as that header. -/
theorem foldl_headerLines (h : ∀ line ∈ header.splitOn '\n', ¬ BeginsMessage line)
    (hstart : header ≠ [] → (header.splitOn '\n').head? ≠ some []) :
    (header.splitOn '\n').foldl readHistoryLine ([], []) = (header, []) := by
  by_cases hheader : header = []
  · subst hheader
    have hnone := historyRoleLine_eq_none_iff.mpr (h [] (by simp))
    show readHistoryLine ([], []) [] = _
    rw [readHistoryLine, hnone]
    rfl
  · cases hlines : header.splitOn '\n' with
    | nil => exact absurd hlines (List.splitOn_ne_nil _ _)
    | cons first rest =>
      rw [hlines] at h hstart
      obtain ⟨hfirst, hrest⟩ := List.forall_mem_cons.mp h
      have hne : first ≠ [] := fun heq => hstart hheader (by rw [heq]; rfl)
      have hread : readHistoryLine ([], []) first = (first, []) := by
        rw [readHistoryLine, historyRoleLine_eq_none_iff.mpr hfirst]
        rfl
      have hjoin : PyText.join newline (first :: rest) = header := by
        rw [← hlines]
        exact List.intercalate_splitOn '\n'
      rw [List.foldl_cons, hread, foldl_header hne hrest, hjoin]

/-- A rendered history is read as its header and its messages. -/
theorem historyItems_renderHistory (sec : PromptSection) (header : Text) (items : List ChatMessage)
    (hitems : sec.items = none) (hcontent : sec.content = renderHistory header items)
    (hheader : ∀ line ∈ header.splitOn '\n', ¬ BeginsMessage line)
    (hstart : header ≠ [] → (header.splitOn '\n').head? ≠ some [])
    (hcontents : ∀ item ∈ items, ∀ line ∈ (item.content.splitOn '\n').tail, ¬ BeginsMessage line) :
    historyItems sec = (header, items) := by
  have hread := foldl_headerLines hheader hstart
  have hmessages := foldl_messages header [] items hcontents
  rw [List.nil_append] at hmessages
  rw [historyItems, hitems, hcontent]
  show ((PyText.join newline ((if header = [] then [] else [header]) ++ items.map messageText)).splitOn
    '\n').foldl readHistoryLine ([], []) = _
  by_cases hnone : header = []
  · subst hnone
    rw [if_pos rfl, List.nil_append]
    cases items with
    | nil => exact hread
    | cons item items =>
      rw [splitOn_join (by simp)]
      exact hmessages
  · rw [if_neg hnone, splitOn_join (by simp), List.singleton_append, List.flatMap_cons,
      List.foldl_append, hread]
    exact hmessages

end Reading

/-- A content of two lines, an empty one, and one that begins like a message. -/
theorem historyItems_renderHistory_lines :
    let items : List ChatMessage := [{ role := .user, content := "a\n\nb".toList },
      { role := .assistant, content := [] }, { role := .tool, content := "User: c".toList }]
    historyItems { name := "conversation_history", content := renderHistory "Recent:".toList items } =
      ("Recent:".toList, items) :=
  historyItems_renderHistory _ _ _ rfl rfl (by decide) (by decide) (by decide)

end PriorityTrimmer

end LlmService
