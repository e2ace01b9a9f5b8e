import LlmService.Lib.Infix
import LlmService.Lib.JsonText
import LlmService.Tools.Deduplicate
import LlmService.Tools.Dispatcher

/-!
# WebSearchTool

`tools/web_search.py`, as the tool executor runs it: what the cache holds is
given as it is; otherwise all providers are asked at once, what they found is
deduplicated, and what is left is stored unless it is empty. The providers are
the environment's, and so is the timeout, which can only strike while they are
waited for.
-/

namespace LlmService

open WebSearch Script

/-- What a provider's task came to by the deadline: a list, an exception, or neither. -/
inductive ProviderReply (V : Type) where
  | found (results : List (RawResult V))
  | failed
  | other

/-- What a search asks: the cache, the providers, and the cache again. -/
inductive SearchCommand (V : Type) where
  | getCached (key : String)
  | gather (query : Text) (maxResults : Int)
  | setCached (key : String) (results : List (RawResult V))

/-- The cache also tells when it was asked. -/
@[reducible] def SearchReply (V : Type) : SearchCommand V → Type
  | .getCached _ => Option (List (RawResult V)) × Seconds
  | .gather _ _ => Except PyRaise (List (ProviderReply V))
  | .setCached _ _ => Seconds

abbrev SearchScript (V : Type) := Script (SearchReply V) PyRaise

abbrev SearchTrace (V : Type) := List (Σ c, SearchReply V c)

/-- What a search uses that is not its query; values are those that providers give. -/
structure SearchSources (V : Type) where
  urls : UrlData
  values : FieldValues V
  /-- `bool(value)` -/
  truthy : V → Bool
  /-- The names of the providers. -/
  providers : List String
  timeoutMs : Nat := 5000
  /-- `str(value)` of a parameter that is no text. -/
  str : JsonValue → Text
  /-- `int(value)` of a parameter that is no integer. -/
  int : JsonValue → Except Exc Int

namespace WebSearchTool

def maxQueryChars : Nat := 300

def defaultMaxResults : Int := 5

section Definitions

variable {V : Type} (s : SearchSources V)

/-- `" ".join(str(params.params.get("query", "")).split())[:MAX_QUERY_CHARS]` -/
def query (params : ToolParams) : Text :=
  let raw :=
    match params.params.lookup "query" with
    | none => []
    | some (.string text) => text.toList
    | some value => s.str value
  (PyText.join [' '] (PyText.words raw)).take maxQueryChars

/-- `int(params.params.get("max_results", 5))` -/
def maxResults (params : ToolParams) : Except Exc Int :=
  match params.params.lookup "max_results" with
  | none => .ok defaultMaxResults
  | some (.int n) => .ok n
  | some value => s.int value

/-- `f"websearch:{query.lower()}:{max_results}"` -/
def cacheKey (query : Text) (maxResults : Int) : String :=
  String.ofList ("websearch:".toList ++ s.urls.lower query ++ ':' :: JsonText.writeInt maxResults)

/-- `{**r, "source": r.get("source") or provider.name}` -/
def withSource (provider : String) (r : RawResult V) : RawResult V :=
  let source :=
    match r.lookup "source" with
    | none => s.values.text provider.toList
    | some value => if s.truthy value then value else s.values.text provider.toList
  r.insert "source" source

/-- What a provider adds to the aggregated results. -/
def contribution (provider : String) : ProviderReply V → List (RawResult V)
  | .found results => results.map (withSource s provider)
  | .failed | .other => []

/-- The aggregated results, by provider. -/
def aggregated (replies : List (ProviderReply V)) : List (RawResult V) :=
  (s.providers.zip replies).flatMap fun x => contribution s x.1 x.2

/-- A provider whose response is an exception is taken for failed. -/
def failedName : String × ProviderReply V → Option String
  | (provider, .failed) => some provider
  | (_, .found _) | (_, .other) => none

/-- `_last_failed`. -/
def failed (replies : List (ProviderReply V)) : List String := (s.providers.zip replies).filterMap failedName

/-- `str(r.get(name, default))` -/
def fieldText (r : RawResult V) (name : String) (default : Text) : Text :=
  match r.lookup name with
  | none => default
  | some value => s.values.str value

/-- One result of `ToolNormalizer.normalize_web_search`. -/
def normalizedResult (r : RawResult V) : SearchResult where
  title := String.ofList (fieldText s r "title" [])
  url := String.ofList (fieldText s r "url" [])
  snippet := String.ofList (fieldText s r "snippet" (fieldText s r "content" []))
  source := String.ofList (fieldText s r "source" "web".toList)

/-- `ToolNormalizer.normalize_web_search`; of `data`, its `results`. -/
def normalizeWebSearch (results : List (RawResult V)) : ToolResult where
  toolName := "web_search"
  success := true
  data := some (results.map (normalizedResult s))

/-- Nothing answered at all. -/
def unavailable : ToolResult :=
  normalizeError "web_search" "Web search is unavailable right now: no search source responded."

/-- No result, and every provider failed. -/
def NothingAnswered (replies : List (ProviderReply V)) : Prop :=
  (aggregated s replies).isEmpty = true ∧ (failed s replies).length = s.providers.length

instance (replies : List (ProviderReply V)) : Decidable (NothingAnswered s replies) :=
  inferInstanceAs (Decidable (_ ∧ _))

/-- Only searches that produced something are stored. -/
def store (key : String) : List (RawResult V) → SearchScript V Unit
  | [] => return ()
  | r :: rest => do
    let _ ← Script.command (R := SearchReply V) (.setCached key (r :: rest))
    return ()

/-- What is made of the responses. -/
def conclude (key : String) (replies : List (ProviderReply V)) : SearchScript V ToolResult :=
  if NothingAnswered s replies then return unavailable
  else
    match deduplicateByDomain s.urls s.values (aggregated s replies) with
    | .error exc => throw (.exception exc)
    | .ok results => do
      store key results
      return normalizeWebSearch s results

/-- A search that the cache cannot answer. -/
def searchAnew (query : Text) (maxResults : Int) : SearchScript V ToolResult := do
  let gathered ← Script.command (R := SearchReply V) (.gather query maxResults)
  match gathered with
  | .error raised => throw raised
  | .ok replies => conclude s (cacheKey s query maxResults) replies

/-- `execute`, with its number of results. -/
def search (query : Text) (maxResults : Int) : SearchScript V ToolResult := do
  let cached ← Script.command (R := SearchReply V) (.getCached (cacheKey s query maxResults))
  match cached.1 with
  | some results => return normalizeWebSearch s results
  | none => searchAnew s query maxResults

/-- `execute`. -/
def execute (params : ToolParams) : SearchScript V ToolResult :=
  match maxResults s params with
  | .error exc => throw (.exception exc)
  | .ok n => search s (query s params) n

/-- What `ToolExecutor.execute` makes of an exception. -/
def afterRaise : PyRaise → SearchScript V ToolResult
  | .exception exc =>
    if exc.cls = .timeoutError then
      return normalizeError WebSearchTool.name s!"Tool timed out after {s.timeoutMs}ms"
    else return normalizeError WebSearchTool.name s!"Tool error: {exc.str}"
  | .cancelled => throw .cancelled

/-- `ToolExecutor.execute`, of a web search. -/
def run (params : ToolParams) : SearchScript V ToolResult :=
  let validation := validateParams params
  if !validation.valid then
    return normalizeError WebSearchTool.name s!"Validation failed: {pyOptional validation.error}"
  else tryCatch (execute s params) (afterRaise s)

end Definitions

section Traces

variable {V : Type} {s : SearchSources V} {params : ToolParams} {query query' : Text} {n n' : Int}
  {key : String} {replies : List (ProviderReply V)} {t : SearchTrace V} {result : ToolResult}

/-- A key is that of a query up to its case, and of a number of results. -/
theorem cacheKey_inj : cacheKey s query n = cacheKey s query' n' ↔
    s.urls.lower query = s.urls.lower query' ∧ n = n' := by
  constructor
  · intro h
    have hcolon : ∀ n : Int, ':' ∉ (JsonText.writeInt n).reverse := by
      intro n hmem
      rcases JsonText.mem_writeInt (List.mem_reverse.mp hmem) with hsign | hdigit
      · cases hsign
      · exact absurd hdigit (by decide)
    -- read from its end, a key is digits up to its last colon, whatever the query holds
    have hreversed := congrArg List.reverse (String.ofList_injective h)
    simp only [List.reverse_append, List.reverse_cons, List.append_assoc, List.singleton_append] at hreversed
    obtain ⟨hdigits, hquery⟩ := append_cons_inj (hcolon n) (hcolon n') hreversed
    exact ⟨List.reverse_injective (List.append_cancel_right hquery),
      JsonText.writeInt_injective (List.reverse_injective hdigits)⟩
  · intro h
    obtain ⟨hquery, rfl⟩ := h
    unfold cacheKey
    rw [hquery]

/-- A conclusion is an error, or the results that are left. -/
theorem trace_conclude (h : (conclude s key replies).Trace t (.ok result)) :
    result = unavailable ∨ ¬ NothingAnswered s replies ∧
      ∃ raw, deduplicateByDomain s.urls s.values (aggregated s replies) = .ok raw ∧
        result = normalizeWebSearch s raw := by
  rw [conclude] at h
  by_cases hnothing : NothingAnswered s replies
  · rw [if_pos hnothing] at h
    exact .inl (Except.ok.inj (trace_pure_iff.mp h).2)
  · rw [if_neg hnothing] at h
    right
    refine ⟨hnothing, ?_⟩
    cases hraw : deduplicateByDomain s.urls s.values (aggregated s replies) with
    | error exc =>
      simp only [hraw] at h
      cases (trace_throw_iff.mp h).2
    | ok raw =>
      simp only [hraw] at h
      obtain ⟨-, -, u, -, hpure, -⟩ := trace_bind_ok_iff.mp h
      exact ⟨raw, rfl, Except.ok.inj (trace_pure_iff.mp hpure).2⟩

/-- A search returns what the cache holds, or what is made of the responses. -/
theorem trace_search (h : (search s query n).Trace t (.ok result)) :
    (∃ raw now, ⟨.getCached (cacheKey s query n), (some raw, now)⟩ ∈ t ∧ result = normalizeWebSearch s raw) ∨
      ∃ replies u, ⟨.gather query n, .ok replies⟩ ∈ t ∧
        (conclude s (cacheKey s query n) replies).Trace u (.ok result) := by
  obtain ⟨⟨found, now⟩, t', rfl, hrest⟩ := trace_command_bind_iff.mp h
  cases found with
  | some raw =>
    left
    exact ⟨raw, now, List.mem_cons_self, Except.ok.inj (trace_pure_iff.mp hrest).2⟩
  | none =>
    right
    obtain ⟨gathered, u, rfl, hgathered⟩ := trace_command_bind_iff.mp hrest
    cases gathered with
    | error raised => cases (trace_throw_iff.mp hgathered).2
    | ok replies => exact ⟨replies, u, List.mem_cons_of_mem _ List.mem_cons_self, hgathered⟩

/-- What is made of an exception is no success. -/
theorem success_afterRaise {raised : PyRaise} (h : (afterRaise s raised).Trace t (.ok result)) :
    result.success = false := by
  cases raised with
  | cancelled => cases (trace_throw_iff.mp h).2
  | exception exc =>
    rw [afterRaise] at h
    split at h
    · rw [Except.ok.inj (trace_pure_iff.mp h).2]
      rfl
    · rw [Except.ok.inj (trace_pure_iff.mp h).2]
      rfl

/-- An execution that succeeds is a search. -/
theorem trace_run (h : (run s params).Trace t (.ok result)) (hsuccess : result.success = true) :
    ∃ n, maxResults s params = .ok n ∧
      (search s (WebSearchTool.query s params) n).Trace t (.ok result) := by
  rw [run] at h
  by_cases hvalid : (!(validateParams params).valid) = true
  · simp only [if_pos hvalid] at h
    rw [Except.ok.inj (trace_pure_iff.mp h).2] at hsuccess
    cases hsuccess
  · simp only [if_neg hvalid] at h
    rcases trace_handle_iff.mp h with ⟨returned, hexecute, hreturned⟩ | ⟨raised, u, v, -, hafter, -⟩
    · obtain rfl := Except.ok.inj hreturned
      rw [execute] at hexecute
      cases hn : maxResults s params with
      | error exc =>
        rw [hn] at hexecute
        cases (trace_throw_iff.mp hexecute).2
      | ok n =>
        rw [hn] at hexecute
        exact ⟨n, rfl, hexecute⟩
    · rw [success_afterRaise hafter] at hsuccess
      cases hsuccess

end Traces

end WebSearchTool

end LlmService
