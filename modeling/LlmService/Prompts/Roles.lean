import LlmService.Prompts.Compose
import LlmService.Lib.Conversation

/-!
# The roles of the composed messages

With `history_as_messages` the messages after the system's are a conversation
between the user and the assistant: `_append` is `say` on what the messages
show (`append_shown`), and `history_messages` the conversation that is heard
from the history's items, from the user's first turn on.
-/

namespace LlmService.Compose

open LlmService

/-- The messages of a conversation: the parts of a turn are in one message. -/
def shown (c : Conversation Role Text) : List ChatMessage :=
  c.turns.map fun t => { role := t.1, content := PyText.join blankLine t.2 }

/-- What the user and the assistant say in the items. -/
def said (items : List ChatMessage) : List (Role × Text) :=
  (items.map fun item => (item.role, PyText.strip item.content)).filter fun u =>
    (u.1 = .user ∨ u.1 = .assistant) ∧ u.2 ≠ []

/-- What is said in the conversation history. -/
def saidBefore (sections : List PromptSection) : List (Role × Text) :=
  (sections.filter fun s => s.name = historySection).flatMap fun s => said (s.items.getD [])

@[simp] theorem shown_empty : shown Conversation.empty = [] := rfl

theorem map_role_shown (c : Conversation Role Text) :
    (shown c).map (·.role) = c.speakers := by
  simp [shown, Conversation.speakers]

/-- Merging into the last message is adding a part to the last turn. -/
theorem append_shown (c : Conversation Role Text) (role : Role) (content : Text) :
    append (shown c) role content = shown (c.say role content) := by
  simp only [shown, Conversation.turns_say]
  have hspoken := c.spoken
  generalize c.turns = turns at hspoken
  rcases List.eq_nil_or_concat turns with rfl | ⟨turns, t, rfl⟩
  · simp [append, PyText.join]
  · have ht : t.2 ≠ [] := hspoken t (by simp)
    rw [List.concat_eq_append, Conversation.addTurn_concat]
    by_cases hrole : t.1 = role
    · simp [append, hrole, PyText.join_concat _ _ ht]
    · simp [append, hrole, PyText.join]

/-- Only a last message of another role, or none, keeps `append` apart. -/
theorem append_append {before chat : List ChatMessage} {role : Role} (content : Text)
    (hbefore : ∀ m ∈ before, m.role ≠ role) :
    append (before ++ chat) role content = before ++ append chat role content := by
  rcases List.eq_nil_or_concat chat with rfl | ⟨chat, m, rfl⟩
  · rcases List.eq_nil_or_concat before with rfl | ⟨before, m, rfl⟩
    · rfl
    · have hm : m.role ≠ role := hbefore m (by simp)
      simp [append, hm]
  · by_cases hrole : m.role = role
    · simp [append, hrole]
    · simp [append, hrole]

theorem foldl_append_shown (items : List ChatMessage) (c : Conversation Role Text) :
    items.foldl (fun out item =>
      let content := PyText.strip item.content
      if (item.role = .user ∨ item.role = .assistant) ∧ content ≠ [] then
        append out item.role content
      else out) (shown c) = shown ((said items).foldl (fun c u => c.say u.1 u.2) c) := by
  induction items generalizing c with
  | nil => rfl
  | cons item items ih =>
    by_cases h : (item.role = .user ∨ item.role = .assistant) ∧ PyText.strip item.content ≠ []
    · have hsaid : said (item :: items) =
          (item.role, PyText.strip item.content) :: said items := by
        rw [said, List.map_cons, List.filter_cons_of_pos (by simpa using h)]
        rfl
      simp only [List.foldl_cons, hsaid, if_pos h, append_shown]
      exact ih _
    · have hsaid : said (item :: items) = said items := by
        rw [said, List.map_cons, List.filter_cons_of_neg (by simpa using h)]
        rfl
      simp only [List.foldl_cons, hsaid, if_neg h]
      exact ih c

theorem historyMessages_eq (sec : PromptSection) :
    historyMessages sec =
      shown ((Conversation.hear (said (sec.items.getD []))).openedBy .user) := by
  have hfold := foldl_append_shown (sec.items.getD []) Conversation.empty
  rw [shown_empty] at hfold
  simp only [historyMessages, hfold, shown, Conversation.openedBy, List.dropWhile_map]
  rfl

theorem said_roles {items : List ChatMessage} :
    ∀ u ∈ said items, u.1 = .user ∨ u.1 = .assistant := by
  intro u hu
  have h := (List.mem_filter.mp hu).2
  simp only [decide_eq_true_eq] at h
  exact h.1

/-- Until the user speaks it is the assistant who does. -/
theorem dropWhile_said {l : List (Role × Text)}
    (h : ∀ u ∈ l, u.1 = .user ∨ u.1 = .assistant) :
    l.dropWhile (fun u => u.1 ≠ .user) = l.dropWhile fun u => u.1 = .assistant := by
  induction l with
  | nil => rfl
  | cons u l ih =>
    have htail := ih fun v hv => h v (List.mem_cons_of_mem _ hv)
    rcases h u List.mem_cons_self with hu | hu
    · simp [hu]
    · simpa [hu] using htail

/-- What is sent after the system message, from what was said before and the
rest of the prompt. -/
def conversation (before : List (Role × Text)) (rest : Text) : Conversation Role Text :=
  ((Conversation.hear before).openedBy .user).say .user rest

theorem utterances_conversation {before : List (Role × Text)} (rest : Text)
    (h : ∀ u ∈ before, u.1 = .user ∨ u.1 = .assistant) :
    (conversation before rest).utterances =
      before.dropWhile (fun u => u.1 = .assistant) ++ [(.user, rest)] := by
  rw [conversation, Conversation.utterances_say, Conversation.utterances_openedBy,
    Conversation.utterances_hear, dropWhile_said h]

theorem conversation_alternates {before : List (Role × Text)} (rest : Text)
    (h : ∀ u ∈ before, u.1 = .user ∨ u.1 = .assistant) :
    Alternates .user .assistant (conversation before rest).speakers := by
  apply Conversation.alternates_speakers
  · intro u hu
    rw [utterances_conversation rest h, List.mem_append, List.mem_singleton] at hu
    rcases hu with hu | rfl
    · exact h u ((List.dropWhile_suffix _).subset hu)
    · exact Or.inl rfl
  · apply Conversation.head_say
    exact Conversation.head_openedBy _ _

/-- The system's message, if there is one. -/
def systemMessages (sections : List PromptSection) : List ChatMessage :=
  if joined sections (fun name => name = "system") = [] then []
  else [{ role := .system, content := joined sections fun name => name = "system" }]

theorem systemMessages_role {sections : List PromptSection} :
    ∀ m ∈ systemMessages sections, m.role = .system := by
  intro m hm
  rw [systemMessages] at hm
  split at hm
  · simp at hm
  · simp_all

theorem systemMessages_length (sections : List PromptSection) :
    (systemMessages sections).length ≤ 1 := by
  rw [systemMessages]
  split <;> simp

/-- What was said before is in the one section of the history. -/
theorem saidBefore_eq {sections : List PromptSection}
    (hone : (sections.filter fun s => s.name = historySection).length ≤ 1) :
    saidBefore sections =
      match sections.find? fun s => s.name = historySection && (s.items.getD []) ≠ [] with
      | some sec => said (sec.items.getD [])
      | none => [] := by
  split
  · next sec hfind =>
    have hsec := List.find?_some hfind
    have hmem : sec ∈ sections.filter fun s => s.name = historySection := by
      simp only [Bool.and_eq_true, decide_eq_true_eq] at hsec
      exact List.mem_filter.mpr ⟨List.mem_of_find?_eq_some hfind, by simpa using hsec.1⟩
    obtain ⟨only, honly⟩ := List.length_eq_one_iff.mp
      (le_antisymm hone (List.length_pos_of_mem hmem))
    rw [honly, List.mem_singleton] at hmem
    subst hmem
    simp [saidBefore, honly]
  · next hfind =>
    rw [saidBefore, List.flatMap_eq_nil_iff]
    intro s hs
    have hname := (List.mem_filter.mp hs).2
    have hnone := List.find?_eq_none.mp hfind s (List.mem_filter.mp hs).1
    simp only [decide_eq_true_eq] at hname
    have hitems : s.items.getD [] = [] := by simpa [hname] using hnone
    rw [hitems]
    rfl

/-- With the history sent as messages, what follows the system message is one
conversation: what was said before and the rest of the prompt. -/
theorem composeMessages_eq {sections : List PromptSection}
    (hone : (sections.filter fun s => s.name = historySection).length ≤ 1)
    (hquery : ∃ s ∈ sections, s.name = "user_query" ∧ s.content ≠ []) :
    ∃ rest, composeMessages sections true =
      systemMessages sections ++ shown (conversation (saidBefore sections) rest) := by
  obtain ⟨s, hs, hname, htext⟩ := hquery
  have huser : joined sections (fun name => name ≠ "system") ≠ [] :=
    joined_ne_nil hs (by simp [hname]) htext
  have hrest : joined sections (fun name => name ≠ "system" && name ≠ historySection) ≠ [] :=
    joined_ne_nil hs (by simp [hname, historySection]) htext
  rw [saidBefore_eq hone]
  simp only [composeMessages]
  cases hfind : sections.find? fun s => s.name = historySection && (s.items.getD []) ≠ [] with
  | some sec =>
    refine ⟨joined sections fun name => name ≠ "system" && name ≠ historySection, ?_⟩
    simp only [if_neg hrest]
    rw [historyMessages_eq, conversation, ← append_shown]
    apply append_append
    intro m hm
    rw [systemMessages_role m hm]
    decide
  | none =>
    refine ⟨joined sections fun name => name ≠ "system", ?_⟩
    simp only [if_neg huser]
    simp [conversation, Conversation.hear, Conversation.openedBy, shown, PyText.join, systemMessages]

/-- The role discipline of the composed messages: after the system message
the user and the assistant take turns, the user first and last, and their
turns say what the history says, from the user's first item on. -/
theorem composeMessages_roles {sections : List PromptSection}
    (hone : (sections.filter fun s => s.name = historySection).length ≤ 1)
    (hquery : ∃ s ∈ sections, s.name = "user_query" ∧ s.content ≠ []) :
    ∃ system chat, composeMessages sections true = system ++ chat ∧
      system.length ≤ 1 ∧ (∀ m ∈ system, m.role = .system) ∧
      Alternates .user .assistant (chat.map (·.role)) ∧
      (chat.map (·.role)).getLast? = some .user ∧
      ∃ (c : Conversation Role Text) (rest : Text), chat = shown c ∧
        c.utterances =
          (saidBefore sections).dropWhile (fun u => u.1 = .assistant) ++ [(.user, rest)] := by
  obtain ⟨rest, heq⟩ := composeMessages_eq hone hquery
  have hroles : ∀ u ∈ saidBefore sections, u.1 = .user ∨ u.1 = .assistant := by
    intro u hu
    obtain ⟨s, _, hsaid⟩ := List.mem_flatMap.mp hu
    exact said_roles u hsaid
  refine ⟨_, _, heq, systemMessages_length sections, systemMessages_role, ?_, ?_,
    _, rest, rfl, utterances_conversation rest hroles⟩
  · rw [map_role_shown]
    exact conversation_alternates rest hroles
  · rw [map_role_shown]
    exact Conversation.getLast_speakers_say _ _ _

/-- A history that begins with an answer, and holds a blank item and two
answers in a row. -/
theorem composeMessages_roles_history :
    let item (role : Role) (content : String) : ChatMessage := ⟨role, content.toList⟩
    let sections : List PromptSection :=
      [{ name := "system", content := "rules".toList, priority := 10, tokenCount := 1 },
       { name := historySection, content := "history".toList, priority := 8, tokenCount := 1,
         items := some [item .assistant "hi", item .user " a ", item .assistant "b",
           item .user " ", item .assistant "c"] },
       { name := "user_query", content := "q".toList, priority := 10, tokenCount := 1 }]
    composeMessages sections true =
        [item .system "rules", item .user "a", item .assistant "b\n\nc", item .user "q"] ∧
      ∃ system chat, composeMessages sections true = system ++ chat ∧
        system.length ≤ 1 ∧ (∀ m ∈ system, m.role = .system) ∧
        Alternates .user .assistant (chat.map (·.role)) ∧
        (chat.map (·.role)).getLast? = some .user ∧
        ∃ (c : Conversation Role Text) (rest : Text), chat = shown c ∧
          c.utterances =
            (saidBefore sections).dropWhile (fun u => u.1 = .assistant) ++ [(.user, rest)] :=
  ⟨by decide, composeMessages_roles (by decide) (by decide)⟩

end LlmService.Compose
