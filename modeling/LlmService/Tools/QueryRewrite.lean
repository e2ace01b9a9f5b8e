import LlmService.Context.RetrievalQuery

/-!
# SearchQueryRewriter

`tools/query_rewrite.py`: a message that leans on the earlier turns is
rewritten for the web search, by a fast model or, failing that, by the topic
of the question before it. A message that stands alone is searched as it is,
and no model is asked.
-/

namespace LlmService

open Script Regex RetrievalQueryRewriter

namespace SearchQuery

def maxHistoryTurns : Nat := 6

def maxTurnChars : Nat := 400

def maxQueryChars : Nat := 200

section Patterns

variable (d : QueryData)

def word (text : String) : Regex := cat (text.toList.map fun c => set (d.ignoreCase c))

def boundary : Regex := look d.classes.boundary

/-- `_FOLLOWUP` -/
def followup : Regex :=
  alt
    (cat [boundary d,
      oneOf (["this", "that", "these", "those", "it", "its", "they", "them", "again", "more", "previous",
        "above", "earlier", "same", "continue", "also", "instead", "else", "too", "another", "recheck",
        "re-check", "check"].map (word d)), boundary d])
    (cat [look fun prev _ => prev.isNone,
      oneOf (["and", "but", "so", "then", "also", "ok", "okay"].map (word d)), boundary d])

/-- Too short, or too referential, to search for as it is. -/
def needsContext (message : Text) : Bool :=
  let text := PyText.strip message
  (PyText.words text).length < 7 || (followup d).search text

end Patterns

/-- `re.split(r"(?<=[?.!])\s", text, maxsplit=1)[0]`, behind a character. -/
def firstSentence : Option Char → Text → Text
  | _, [] => []
  | prev, c :: rest =>
    if PyText.isSpace c ∧ prev.any (['?', '.', '!'].contains ·) then [] else c :: firstSentence (some c) rest

/-- `_topic` -/
def topic (text : Text) : Text :=
  PyText.strip ((firstSentence none (PyText.join [' '] (PyText.words text))).take 100)

/-- The loop of `fallback_query`, the latest turn first. -/
def behindTopic (message : Text) : List Message → Text
  | [] => cleanQuery maxQueryChars message
  | m :: earlier =>
    if m.role = .user ∧ PyText.strip m.content ≠ [] ∧ PyText.strip m.content ≠ PyText.strip message then
      cleanQuery maxQueryChars (topic m.content ++ ' ' :: PyText.strip message)
    else behindTopic message earlier

def fallbackQuery (message : Text) (history : List Message) : Text := behindTopic message history.reverse

end SearchQuery

open SearchQuery

/-- `_SYSTEM` -/
def searchSystem : String :=
  "You write web search queries. Given a conversation and the user's last message, rewrite the last message "
    ++ "as ONE standalone search query that makes sense without the conversation. Keep it under 15 words, keep "
    ++ "names and technical terms, add the topic being discussed when the message refers back to it. "
    ++ "Reply with JSON only: \x7b\"query\": \"<search query>\"\x7d."

structure SearchQueryRewriter where
  models : RewriteModels := {}
  data : QueryData

namespace SearchQueryRewriter

variable (rewriter : SearchQueryRewriter) (message : Text) (history : List Message)

/-- The turns that say something. -/
def turns : List Message :=
  history.filter fun m => (m.role = .user ∨ m.role = .assistant) ∧ PyText.strip m.content ≠ []

/-- The prompt for the stripped message. -/
def prompt (message : Text) (turns : List Message) : List ChatMessage :=
  let convo := PyText.join ['\n'] ((turns.drop (turns.length - maxHistoryTurns)).map fun m =>
    m.role.value ++ ": ".toList ++ (PyText.strip m.content).take SearchQuery.maxTurnChars)
  [{ role := .system, content := searchSystem.toList },
    { role := .user, content := "Conversation:\n".toList ++ convo ++ "\n\nLast user message: ".toList ++ message }]

/-- What is parsed of an answer: a provider's may stand in other text. -/
def document (raw : Text) : RewriteModel → Text
  | .client _ => raw
  | .adapter _ => braced raw

/-- `_clean(data.get("query", ""))` -/
def queryField (fields : List (String × PyJson)) : Text :=
  cleanQuery SearchQuery.maxQueryChars ((fields.lookup "query").elim [] rewriter.data.str)

/-- What a model's answer is good for. -/
def read (model : RewriteModel) (raw : Text) : Option Text :=
  match JsonText.loads rewriter.data.floatText (document raw model) with
  | some (.object fields) =>
    if rewriter.queryField fields = [] then none else some (rewriter.queryField fields)
  | _ => none

/-- The message leans on turns that there are. -/
def Leans : Prop := turns history ≠ [] ∧ needsContext rewriter.data (PyText.strip message) = true

instance decidableLeans : Decidable (rewriter.Leans message history) :=
  inferInstanceAs (Decidable (_ ∧ _))

/-- `rewrite`. -/
def rewrite : RewriteScript Text := do
  let message := PyText.strip message
  if ¬ rewriter.Leans message history then return message
  else
    let given ← rewriter.models.askModels rewriter.read (prompt message (turns history))
    return given.getD (fallbackQuery message (turns history))

/-! ## What is searched -/

variable {rewriter message history} {t : RewriteTrace} {r : Except PyRaise Text} {raw query : Text}
  {model : RewriteModel}

theorem read_spec (h : rewriter.read model raw = some query) :
    PyText.strip query ≠ [] ∧ query.length ≤ SearchQuery.maxQueryChars := by
  rw [read] at h
  split at h
  · split at h
    · cases h
    · next hne =>
      obtain rfl := Option.some.inj h
      refine ⟨?_, length_cleanQuery_le _ _⟩
      rw [queryField, strip_cleanQuery]
      exact hne
  · cases h

theorem length_behindTopic_le (message : Text) (history : List Message) :
    (behindTopic message history).length ≤ SearchQuery.maxQueryChars := by
  induction history with
  | nil => exact length_cleanQuery_le _ _
  | cons m earlier ih =>
    rw [behindTopic]
    split
    · exact length_cleanQuery_le _ _
    · exact ih

theorem strip_behindTopic_ne_nil {c : Char} (hmem : c ∈ PyText.strip message)
    (hc : PyText.isSpace c = false) (history : List Message) :
    PyText.strip (behindTopic message history) ≠ [] := by
  induction history with
  | nil =>
    have hinside : c ∈ message :=
      (List.dropWhile_suffix _).subset ((PyText.dropEndWhile_isPrefix _ _).subset hmem)
    rw [behindTopic, strip_cleanQuery]
    exact cleanQuery_ne_nil (by decide) hinside hc
  | cons m earlier ih =>
    rw [behindTopic]
    split
    · rw [strip_cleanQuery]
      refine cleanQuery_ne_nil (by decide) ?_ hc
      exact List.mem_append_right _ (List.mem_cons_of_mem _ hmem)
    · exact ih

/-- A stripped text that is not empty has a character that is no white space. -/
theorem exists_of_strip_ne_nil {text : Text} (h : PyText.strip text ≠ []) :
    ∃ c ∈ PyText.strip text, PyText.isSpace c = false := by
  cases htext : PyText.strip text with
  | nil => exact absurd htext h
  | cons c rest => exact ⟨c, List.mem_cons_self, PyText.head_strip htext⟩

/-- What the models give, and else the fallback, is within the limit, and not blank. -/
theorem settled_spec {given : Option Text} (h : Settled (rewriter.models.answers rewriter.read t) given)
    (message : Text) (history : List Message) :
    (PyText.strip message ≠ [] →
        PyText.strip (given.getD (fallbackQuery (PyText.strip message) history)) ≠ []) ∧
      (given.getD (fallbackQuery (PyText.strip message) history)).length ≤ SearchQuery.maxQueryChars := by
  cases given with
  | some query =>
    obtain ⟨model, raw, hraw⟩ := RewriteModels.exists_read h
    obtain ⟨hne, hlength⟩ := read_spec hraw
    exact ⟨fun _ => hne, hlength⟩
  | none =>
    refine ⟨?_, length_behindTopic_le _ history.reverse⟩
    intro hmessage
    obtain ⟨c, hmem, hc⟩ := exists_of_strip_ne_nil hmessage
    rw [← PyText.strip_strip] at hmem
    exact strip_behindTopic_ne_nil hmem hc history.reverse

/-- Whatever the models answer, a message that stands alone is searched as it is and no model is asked;
otherwise they are asked in their order, with one prompt, up to the first that gives a query, and failing
that the earlier topic is put before the message. What is searched is not blank unless the message is, and
is the message itself or within the limit. -/
theorem rewrite_settled (h : (rewriter.rewrite message history).Trace t r) :
    (∀ step ∈ t, step.1.prompt = prompt (PyText.strip message) (turns history)) ∧
      ∃ n, (rewriter.models.answers rewriter.read t).map Prod.fst = rewriter.models.models.take n ∧
        ((r = .error .cancelled ∧ rewriter.models.Cancelled t) ∨
          ∃ query, r = .ok query ∧ (PyText.strip message ≠ [] → PyText.strip query ≠ []) ∧
            (query = PyText.strip message ∨ query.length ≤ SearchQuery.maxQueryChars) ∧
            ((t = [] ∧ query = PyText.strip message ∧ ¬ rewriter.Leans (PyText.strip message) history) ∨
              ∃ given, rewriter.Leans (PyText.strip message) history ∧
                query = given.getD (fallbackQuery (PyText.strip message) (turns history)) ∧
                Settled (rewriter.models.answers rewriter.read t) given ∧
                (given = none → rewriter.models.models.take n = rewriter.models.models))) := by
  rw [rewrite] at h
  by_cases hleans : rewriter.Leans (PyText.strip message) history
  · simp only [not_true, hleans] at h
    rcases trace_bind_iff.mp h with ⟨raised, hask, rfl⟩ | ⟨given, u, v, hask, hpure, rfl⟩
    · obtain ⟨hprompt, n, hasked, hend⟩ := RewriteModels.trace_firstOf hask
      refine ⟨hprompt, n, hasked, ?_⟩
      rcases hend with ⟨hcancelled, hwait⟩ | ⟨given, hgiven, -⟩
      · obtain rfl := Except.error.inj hcancelled
        exact .inl ⟨rfl, hwait⟩
      · cases hgiven
    · obtain ⟨rfl, rfl⟩ := trace_pure_iff.mp hpure
      rw [List.append_nil]
      obtain ⟨hprompt, n, hasked, hend⟩ := RewriteModels.trace_firstOf hask
      refine ⟨hprompt, n, hasked, ?_⟩
      rcases hend with ⟨hcancelled, -⟩ | ⟨given', hgiven, hsettled, hall⟩
      · cases hcancelled
      · obtain rfl := Except.ok.inj hgiven
        obtain ⟨hnonblank, hlength⟩ := settled_spec hsettled message (turns history)
        exact .inr ⟨_, rfl, hnonblank, .inr hlength, .inr ⟨given, hleans, rfl, hsettled, hall⟩⟩
  · simp only [not_false_eq_true, if_pos, hleans] at h
    obtain ⟨rfl, rfl⟩ := trace_pure_iff.mp h
    refine ⟨List.forall_mem_nil _, 0, rfl, .inr ⟨_, rfl, ?_, .inl rfl, .inl ⟨rfl, rfl, hleans⟩⟩⟩
    rw [PyText.strip_strip]
    exact fun hmessage => hmessage

/-- One client, and a provider behind it. -/
def withProvider : SearchQueryRewriter where
  models := { clients := [{}], adapters := 1 }
  data := asciiQueries

/-- The client is waited for in vain, and the provider has nothing to say. -/
def nothingSaid : (c : RewriteCommand) → RewriteReply c
  | ⟨.client _, _⟩ => none
  | ⟨.adapter _, _⟩ => .ok ⟨[], "gemini"⟩

def askedBefore : List Message := [{ content := "What is new in Lean 4? I use it.".toList }]

/-- A follow-up that no model rewrites. -/
def checkAgain : RewriteTrace × Except PyRaise Text :=
  (withProvider.rewrite "check again".toList askedBefore).follow nothingSaid

theorem rewrite_settled_checkAgain :
    (∀ step ∈ checkAgain.1, step.1.prompt = prompt (PyText.strip "check again".toList) (turns askedBefore)) ∧
      ∃ n, (withProvider.models.answers withProvider.read checkAgain.1).map Prod.fst =
          withProvider.models.models.take n ∧
        ((checkAgain.2 = .error .cancelled ∧ withProvider.models.Cancelled checkAgain.1) ∨
          ∃ query, checkAgain.2 = .ok query ∧
            (PyText.strip "check again".toList ≠ [] → PyText.strip query ≠ []) ∧
            (query = PyText.strip "check again".toList ∨ query.length ≤ SearchQuery.maxQueryChars) ∧
            ((checkAgain.1 = [] ∧ query = PyText.strip "check again".toList ∧
                ¬ withProvider.Leans (PyText.strip "check again".toList) askedBefore) ∨
              ∃ given, withProvider.Leans (PyText.strip "check again".toList) askedBefore ∧
                query = given.getD (fallbackQuery (PyText.strip "check again".toList) (turns askedBefore)) ∧
                Settled (withProvider.models.answers withProvider.read checkAgain.1) given ∧
                (given = none → withProvider.models.models.take n = withProvider.models.models))) :=
  rewrite_settled (trace_follow nothingSaid _)

end SearchQueryRewriter

end LlmService
