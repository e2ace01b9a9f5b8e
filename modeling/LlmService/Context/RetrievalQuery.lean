import LlmService.Context.RewriteModels

/-!
# RetrievalQueryRewriter

`context/retrieval_query.py`: the query with which the attached documents are
searched. A fast model makes the message standalone; where none gives a usable
answer, a message that leans on the earlier turns is joined to the question
before it.
-/

namespace LlmService

open Script

inductive RewriteMethod where
  | none | model | heuristic | disabled
  deriving DecidableEq, Repr

/-- `RetrievalQuery`. -/
structure RetrievalQuery where
  query : Text
  denseQuery : Option Text := none
  method : RewriteMethod := .none
  rewritten : Bool := false
  deriving DecidableEq

namespace RetrievalQuery

def maxTurnChars : Nat := 400

def maxQueryChars : Nat := 300

def shortWords : Nat := 4

/-- `_STOP` -/
def stopWords : List String :=
  ["a", "an", "the", "is", "are", "was", "were", "be", "been", "am", "do", "does", "did", "done", "have",
    "has", "had", "it", "its", "this", "that", "these", "those", "they", "them", "he", "she", "we", "you",
    "i", "me", "my", "of", "in", "on", "at", "to", "for", "from", "by", "with", "about", "as", "and", "or",
    "but", "so", "then", "also", "too", "if", "not", "no", "yes", "ok", "okay", "please", "pls", "can",
    "could", "would", "should", "will", "what", "which", "who", "whom", "whose", "when", "where", "why",
    "how", "tell", "show", "give", "explain", "describe", "check", "recheck", "re-check", "again", "more",
    "another", "other", "same", "previous", "above", "earlier", "last", "next", "continue", "go", "ahead",
    "try", "once", "one", "point", "points", "part", "thing", "things", "stuff", "kya", "hai", "hain", "ho",
    "tha", "thi", "mein", "main", "se", "ka", "ki", "ke", "ko", "par", "pe", "aur", "ya", "nahi", "nahin",
    "kaise", "kaun", "kab", "kahan", "kyun", "kyu", "karna", "karo", "kar", "kare", "batao", "bata", "bolo",
    "dikhao", "samjhao", "samjha", "fir", "phir", "wapas", "dobara", "ek", "iska", "iski", "iske", "uska",
    "uski", "uske", "yeh", "ye", "woh", "wo"]

section Heuristic

variable (d : QueryData)

/-- `re.findall(r"[\w][\w\-]*", text)` -/
def hyphenated (text : Text) : List Text :=
  ((text.splitOnP fun c => !(d.classes.word c || c == '-')).map fun run =>
    run.dropWhile (· == '-')).filter (· ≠ [])

/-- `re.findall(r"\w+", text)` -/
def wordRuns (text : Text) : List Text :=
  (text.splitOnP fun c => !d.classes.word c).filter (· ≠ [])

def contentWords (text : Text) : List Text :=
  (hyphenated d (d.lower text)).filter fun word =>
    String.ofList word ∉ stopWords ∧ (2 < word.length ∨ word.all d.isDigit ∨ word.any d.isDigit)

/-- Short, or nothing in it names a topic. -/
def needsContext (message : Text) : Bool :=
  (wordRuns d message).length < shortWords ∨ contentWords d message = []

/-- `" ".join(content.split())` -/
def flat (content : Text) : Text := PyText.join [' '] (PyText.words content)

/-- The loop over the earlier turns, the latest first. -/
def appendPrevious (message : Text) : List (String × Text) → Text
  | [] => message
  | (role, content) :: earlier =>
    if role = "user" ∧ flat content ≠ [] ∧ flat content ≠ message then
      cleanQuery maxQueryChars ((flat content).take 200 ++ ' ' :: message)
    else appendPrevious message earlier

/-- `heuristic_query`. -/
def heuristicQuery (message : Text) (history : List (String × Text)) : Text :=
  let message := PyText.strip message
  if needsContext d message then appendPrevious message history.reverse else message

end Heuristic

end RetrievalQuery

open RetrievalQuery

/-- `_SYSTEM` -/
def retrievalSystem : String :=
  "You rewrite a user's last message into a standalone document-search query. Use the conversation only to resolve "
    ++ "references (it, again, that, point 3). Keep names, numbers, identifiers and technical terms exactly. Reply with JSON "
    ++ "only: \x7b\"standalone\": \"<the question in the user's own language, understandable without the conversation>\", "
    ++ "\"english\": \"<the same question in English>\"\x7d. Maximum 25 words each. Do not answer the question."

structure RetrievalQueryRewriter where
  models : RewriteModels := {}
  turns : Nat := 3
  data : QueryData

namespace RetrievalQueryRewriter

variable (rewriter : RetrievalQueryRewriter) (message : Text) (history : List (String × Text))

/-- `_window`: the last turns that say something. -/
def window : List (String × Text) :=
  let turns := history.filter fun turn =>
    (turn.1 = "user" ∨ turn.1 = "assistant") ∧ PyText.strip turn.2 ≠ []
  if rewriter.turns = 0 then [] else turns.drop (turns.length - 2 * rewriter.turns)

def conversation (window : List (String × Text)) : Text :=
  PyText.join ['\n'] (window.map fun turn =>
    turn.1.toList ++ ": ".toList ++ (PyText.strip turn.2).take maxTurnChars)

/-- The prompt for the stripped message. -/
def prompt (message : Text) (window : List (String × Text)) : List ChatMessage :=
  let convo := conversation window
  [{ role := .system, content := retrievalSystem.toList },
    { role := .user, content := "Conversation:\n".toList ++ (if convo = [] then "(none)".toList else convo)
        ++ "\n\nLast user message: ".toList ++ message }]

/-- `_clean(data.get(key, ""))` -/
def cleanField (fields : List (String × PyJson)) (key : String) : Text :=
  cleanQuery maxQueryChars ((fields.lookup key).elim [] rewriter.data.str)

/-- The part of a text from its first `{` to its last `}`; without the one, it starts at the last
character, and without the other it is empty. -/
def braced (raw : Text) : Text :=
  let start := (raw.idxOf? '{').getD (raw.length - 1)
  let stop := ((PyText.rfind '}' raw).map (· + 1)).getD 0
  (raw.take stop).drop start

/-- `_parse`; `none` is also what it raises. -/
def parse (raw : Text) : Option (Text × Text) :=
  match JsonText.loads rewriter.data.floatText (braced raw) with
  | some (.object fields) =>
    let standalone := rewriter.cleanField fields "standalone"
    let english := rewriter.cleanField fields "english"
    if standalone = [] ∧ english = [] then none else some (standalone, english)
  | _ => none

/-- What becomes of a model's answer. -/
def modelQuery (message : Text) (parsed : Text × Text) : RetrievalQuery :=
  let lower := rewriter.data.lower
  let standalone := if parsed.1 = [] then message else parsed.1
  let dense := if parsed.2 ≠ [] ∧ lower parsed.2 ≠ lower standalone then some parsed.2 else none
  let dense := if dense = none ∧ lower standalone ≠ lower message then some standalone else dense
  { query := standalone, denseQuery := dense, method := .model
    rewritten := standalone ≠ message ∨ dense ≠ none }

/-- What is searched without a model. -/
def heuristic (message : Text) (window : List (String × Text)) : RetrievalQuery :=
  let query := heuristicQuery rewriter.data message window
  { query, method := .heuristic, rewritten := query ≠ message }

/-- The query, with or without a usable answer. -/
def queryOf (message : Text) (window : List (String × Text)) : Option (Text × Text) → RetrievalQuery
  | some parsed => rewriter.modelQuery message parsed
  | none => rewriter.heuristic message window

/-- `build`. -/
def build : RewriteScript RetrievalQuery := do
  let message := PyText.strip message
  let window := rewriter.window history
  -- the prompt is only made for a message that is not blank
  let parsed ← if message = [] then Pure.pure none
    else rewriter.models.askModels (fun _ => rewriter.parse) (prompt message window)
  return rewriter.queryOf message window parsed

/-! ## What is searched -/

/-- A query that can stand for a message, with one in English beside it where that adds something. -/
structure Usable (lower : Text → Text) (message : Text) (q : RetrievalQuery) : Prop where
  nonblank : message ≠ [] → PyText.strip q.query ≠ []
  bounded : q.query = message ∨ q.query.length ≤ maxQueryChars
  rewritten_iff : q.rewritten = true ↔ q.query ≠ message ∨ q.denseQuery ≠ none
  dense : ∀ text ∈ q.denseQuery, PyText.strip text ≠ [] ∧ (text = message ∨ text.length ≤ maxQueryChars) ∧
    (lower text ≠ lower q.query ∨ text = q.query ∧ lower text ≠ lower message)

variable {rewriter message history} {window : List (String × Text)} {parsed : Text × Text}
  {raw : Text} {t : RewriteTrace} {r : Except PyRaise RetrievalQuery}

/-- What is parsed is cleaned. -/
theorem parse_spec (h : rewriter.parse raw = some parsed) :
    (PyText.strip parsed.1 = parsed.1 ∧ parsed.1.length ≤ maxQueryChars) ∧
      PyText.strip parsed.2 = parsed.2 ∧ parsed.2.length ≤ maxQueryChars := by
  rw [parse] at h
  split at h
  · next fields _ =>
    by_cases hblank : rewriter.cleanField fields "standalone" = [] ∧ rewriter.cleanField fields "english" = []
    · rw [if_pos hblank] at h
      cases h
    · rw [if_neg hblank] at h
      obtain rfl := Option.some.inj h
      exact ⟨⟨strip_cleanQuery _ _, length_cleanQuery_le _ _⟩, strip_cleanQuery _ _,
        length_cleanQuery_le _ _⟩
  · cases h

/-- A message keeps its place, or is joined to an earlier question. -/
theorem appendPrevious_cases (message : Text) (history : List (String × Text)) :
    appendPrevious message history = message ∨
      (PyText.strip (appendPrevious message history) ≠ [] ∧
        (appendPrevious message history).length ≤ maxQueryChars) := by
  induction history with
  | nil => exact .inl rfl
  | cons turn earlier ih =>
    obtain ⟨role, content⟩ := turn
    rw [appendPrevious]
    by_cases hearlier : role = "user" ∧ flat content ≠ [] ∧ flat content ≠ message
    · rw [if_pos hearlier]
      refine .inr ⟨?_, length_cleanQuery_le _ _⟩
      have hwords : PyText.words content ≠ [] := by
        intro hnil
        apply hearlier.2.1
        rw [flat, hnil]
        rfl
      obtain ⟨c, rest, hjoin, hc⟩ := head_join_words hwords
      rw [strip_cleanQuery, flat, hjoin, List.take_succ_cons]
      exact cleanQuery_ne_nil (by decide) List.mem_cons_self hc
    · rw [if_neg hearlier]
      exact ih

theorem usable_heuristic (hstrip : PyText.strip message = message) (window : List (String × Text)) :
    Usable rewriter.data.lower message (rewriter.heuristic message window) := by
  have hquery : heuristicQuery rewriter.data message window = message ∨
      (PyText.strip (heuristicQuery rewriter.data message window) ≠ [] ∧
        (heuristicQuery rewriter.data message window).length ≤ maxQueryChars) := by
    rw [heuristicQuery, hstrip]
    show (if needsContext rewriter.data message = true then appendPrevious message window.reverse else message) = _ ∨ _
    by_cases hneeds : needsContext rewriter.data message = true
    · simp only [hneeds, if_true]
      exact appendPrevious_cases message window.reverse
    · simp [hneeds]
  constructor
  · intro hmessage
    rcases hquery with hsame | hnonblank
    · rw [heuristic, hsame, hstrip]
      exact hmessage
    · exact hnonblank.1
  · exact hquery.imp id And.right
  · simp [heuristic]
  · intro text htext
    cases htext

theorem usable_modelQuery (hstrip : PyText.strip message = message) (hmessage : message ≠ [])
    (hfirst : PyText.strip parsed.1 = parsed.1 ∧ parsed.1.length ≤ maxQueryChars)
    (hsecond : PyText.strip parsed.2 = parsed.2 ∧ parsed.2.length ≤ maxQueryChars) :
    Usable rewriter.data.lower message (rewriter.modelQuery message parsed) := by
  have hstandalone : ∃ standalone, (if parsed.1 = [] then message else parsed.1) = standalone ∧
      PyText.strip standalone ≠ [] ∧ (standalone = message ∨ standalone.length ≤ maxQueryChars) := by
    by_cases hempty : parsed.1 = []
    · exact ⟨message, if_pos hempty, by rwa [hstrip], .inl rfl⟩
    · exact ⟨parsed.1, if_neg hempty, by rwa [hfirst.1], .inr hfirst.2⟩
  obtain ⟨standalone, hquery, hnonblank, hbounded⟩ := hstandalone
  rw [modelQuery, hquery]
  by_cases henglish : parsed.2 ≠ [] ∧ rewriter.data.lower parsed.2 ≠ rewriter.data.lower standalone
  · simp only [if_pos henglish]
    refine ⟨fun _ => hnonblank, hbounded, by simp, ?_⟩
    intro text htext
    obtain rfl : parsed.2 = text := by simpa using htext
    exact ⟨by rw [hsecond.1]; exact henglish.1, .inr hsecond.2, .inl henglish.2⟩
  · simp only [if_neg henglish]
    -- Without another text in English, a changed query is its own.
    by_cases hlower : rewriter.data.lower standalone ≠ rewriter.data.lower message
    · refine ⟨fun _ => hnonblank, hbounded, by simp, ?_⟩
      intro text htext
      obtain rfl : standalone = text := by simpa [hlower] using htext
      exact ⟨hnonblank, hbounded, .inr ⟨rfl, hlower⟩⟩
    · refine ⟨fun _ => hnonblank, hbounded, by simp, ?_⟩
      intro text htext
      simp [hlower] at htext

theorem usable_queryOf {given : Option (Text × Text)} (hstrip : PyText.strip message = message)
    (hgiven : ∀ parsed, given = some parsed → message ≠ [] ∧ ∃ raw, rewriter.parse raw = some parsed)
    (window : List (String × Text)) :
    Usable rewriter.data.lower message (rewriter.queryOf message window given) := by
  cases given with
  | none => exact usable_heuristic hstrip window
  | some parsed =>
    obtain ⟨hmessage, raw, hraw⟩ := hgiven parsed rfl
    obtain ⟨hfirst, hsecond⟩ := parse_spec hraw
    exact usable_modelQuery hstrip hmessage hfirst hsecond

/-- Whatever the models answer, they are asked in their order, with one prompt, up to the first that gives
a usable answer; the query that is made of it, or without it, can stand for the message. -/
theorem build_settled (h : (rewriter.build message history).Trace t r) :
    (∀ step ∈ t, step.1.prompt = prompt (PyText.strip message) (rewriter.window history)) ∧
      ∃ n, (rewriter.models.answers (fun _ => rewriter.parse) t).map Prod.fst =
          rewriter.models.models.take n ∧
        ((r = .error .cancelled ∧ rewriter.models.Cancelled t) ∨
          ∃ given, r = .ok (rewriter.queryOf (PyText.strip message) (rewriter.window history) given) ∧
            Settled (rewriter.models.answers (fun _ => rewriter.parse) t) given ∧
            (given = none → PyText.strip message = [] ∨ rewriter.models.models.take n = rewriter.models.models) ∧
            Usable rewriter.data.lower (PyText.strip message)
              (rewriter.queryOf (PyText.strip message) (rewriter.window history) given)) := by
  have hstrip := PyText.strip_strip message
  rw [build] at h
  by_cases hblank : PyText.strip message = []
  · simp only [if_pos hblank] at h
    obtain ⟨rfl, rfl⟩ := trace_pure_iff.mp h
    refine ⟨List.forall_mem_nil _, 0, rfl, .inr ⟨none, rfl, settled_nil, fun _ => .inl hblank, ?_⟩⟩
    exact usable_queryOf hstrip (fun parsed hparsed => by cases hparsed) _
  · simp only [if_neg hblank] at h
    rcases trace_bind_iff.mp h with ⟨raised, hask, rfl⟩ | ⟨given, u, v, hask, hpure, rfl⟩
    · obtain ⟨hprompt, n, hasked, hend⟩ := RewriteModels.trace_firstOf hask
      refine ⟨hprompt, n, hasked, ?_⟩
      rcases hend with ⟨hcancelled, hwait⟩ | ⟨given, hgiven, -⟩
      · obtain rfl := Except.error.inj hcancelled
        exact .inl ⟨rfl, hwait⟩
      · cases hgiven
    · obtain ⟨rfl, rfl⟩ := trace_pure_iff.mp hpure
      rw [List.append_nil]
      obtain ⟨hprompt, n, hasked, hend⟩ := RewriteModels.trace_firstOf hask
      refine ⟨hprompt, n, hasked, ?_⟩
      rcases hend with ⟨hcancelled, -⟩ | ⟨given', hgiven, hsettled, hall⟩
      · cases hcancelled
      · obtain rfl := Except.ok.inj hgiven
        refine .inr ⟨given, rfl, hsettled, fun hnone => .inr (hall hnone), usable_queryOf hstrip ?_ _⟩
        intro parsed hparsed
        rw [hparsed] at hsettled
        obtain ⟨model, raw, hraw⟩ := RewriteModels.exists_read hsettled
        exact ⟨hblank, raw, hraw⟩

/-- The classes of ASCII, and values that are printed as nothing. -/
def asciiQueries : QueryData where
  classes := asciiClasses
  ignoreCase := fun c c' => c.toLower == c'.toLower
  lower := PyText.lower
  isDigit := Char.isDigit
  printed := fun _ => []
  floatText := id

/-- Two clients. -/
def twoClients : RetrievalQueryRewriter where
  models := { clients := [{}, {}] }
  data := asciiQueries

/-- The first client has reached its limit, and the second answers. -/
def secondAnswers : (c : RewriteCommand) → RewriteReply c
  | ⟨.client 0, _⟩ => some (.error .rateLimit)
  | ⟨.client _, _⟩ => some (.ok (some "\x7b\"standalone\": \"phase 6\"\x7d".toList))
  | ⟨.adapter _, _⟩ => .error .cancelled

/-- A follow-up, behind a question. -/
def followUp : RewriteTrace × Except PyRaise RetrievalQuery :=
  (twoClients.build "check again".toList [("user", "what is in phase 6".toList)]).follow secondAnswers

theorem build_settled_followUp :
    (∀ step ∈ followUp.1, step.1.prompt = prompt (PyText.strip "check again".toList)
        (twoClients.window [("user", "what is in phase 6".toList)])) ∧
      ∃ n, (twoClients.models.answers (fun _ => twoClients.parse) followUp.1).map Prod.fst =
          twoClients.models.models.take n ∧
        ((followUp.2 = .error .cancelled ∧ twoClients.models.Cancelled followUp.1) ∨
          ∃ given, followUp.2 = .ok (twoClients.queryOf (PyText.strip "check again".toList)
              (twoClients.window [("user", "what is in phase 6".toList)]) given) ∧
            Settled (twoClients.models.answers (fun _ => twoClients.parse) followUp.1) given ∧
            (given = none → PyText.strip "check again".toList = [] ∨
              twoClients.models.models.take n = twoClients.models.models) ∧
            Usable twoClients.data.lower (PyText.strip "check again".toList)
              (twoClients.queryOf (PyText.strip "check again".toList)
                (twoClients.window [("user", "what is in phase 6".toList)]) given)) :=
  build_settled (trace_follow secondAnswers _)

end RetrievalQueryRewriter

end LlmService
