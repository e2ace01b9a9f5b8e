import LlmService.Providers.Groq
import Mathlib.Order.WithBot

/-!
# GroqAdapter.stream

`stream` of `providers/groq.py` with what it reads of an error. What Groq does
with each request is its environment: the call fails, or its chunks come and
then the stream ends, fails or is cancelled. A run is what the adapter does in
order: the requests it makes, how long it sleeps and what it yields.
-/

namespace LlmService

/-- `TRUNCATION_NOTICE` of `providers/base.py`. -/
def truncationNotice : String :=
  "\n\n---\n*The response was cut off because it reached the length limit. " ++
    "Reply “continue” to get the rest.*"

namespace GroqAdapter

/-- `_NO_TOOLS_NUDGE`. -/
def noToolsNudge : Text :=
  ("\n\nAnswer in plain text using only the information in the conversation. " ++
    "Do not call, request or mention any tools or functions.").toList

def maxToolCallRetries : Nat := 2

/-- `MAX_RATE_LIMIT_WAIT_S`, in seconds. -/
def maxRateLimitWaitS : ℚ := 8

/-! ## Errors -/

inductive RetryUnit where
  | ms | s
  deriving DecidableEq

/-- What the adapter reads of a text. -/
structure ErrorTexts where
  /-- `str.lower` -/
  lower : Text → Text
  /-- what `_RETRY_AFTER` finds: `try again in`, a number and its unit -/
  retryAfter : Text → Option (WithTop ℚ × RetryUnit)

/-- An exception of the SDK, with the number that `float` reads in its
`Retry-After` header: `⊤` is `inf`. -/
structure UpstreamError where
  exc : Exc
  retryAfter : Option (WithTop ℚ) := none

def contains (part : String) (text : Text) : Bool := decide (part.toList <:+: text)

variable (texts : ErrorTexts)

/-- `str(exc)`. -/
def message (e : UpstreamError) : Text := e.exc.str.toList

/-- `_retry_after_header_s`. -/
def retryAfterHeaderS (e : UpstreamError) : Option (WithTop ℚ) := e.retryAfter.map (max 0)

def isContextLimitError (e : UpstreamError) : Bool :=
  let msg := texts.lower (message e)
  contains "context_length_exceeded" msg || contains "maximum context length" msg ||
    contains "reduce the length of the messages" msg

/-- `"429" in msg or "rate limit" in msg.lower()`. -/
def namesRateLimit (e : UpstreamError) : Bool :=
  contains "429" (message e) || contains "rate limit" (texts.lower (message e))

/-- `rate_limit_wait_s`. -/
def rateLimitWaitS (e : UpstreamError) : Option (WithTop ℚ) :=
  if isContextLimitError texts e then none
  else if !namesRateLimit texts e then none
  else
    match retryAfterHeaderS e with
    | some header => some header
    | none =>
      match texts.retryAfter (message e) with
      -- unknown: treat as long
      | none => some 60
      | some (value, .ms) => some (value.map (· / 1000))
      | some (value, .s) => some value

/-- `_is_spurious_tool_call`. -/
def isSpuriousToolCall (e : UpstreamError) : Bool :=
  let msg := texts.lower (message e)
  contains "tool choice is none" msg || contains "model called a tool" msg

/-- The `ProviderError` that `_handle_exception` raises. -/
def handleException (e : UpstreamError) : Exc :=
  let msg := String.ofList (message e)
  if isContextLimitError texts e then
    { cls := .providerError
      message := "Groq rejected the request size (context limit): " ++
        String.ofList ((message e).take 200)
      errorCode := some "PROVIDER_ERROR" }
  else if namesRateLimit texts e then
    { cls := .providerRateLimitError, message := s!"Groq Rate Limit: {msg}"
      errorCode := some "PROVIDER_RATE_LIMIT", statusCode := some 429 }
  else if contains "timeout" (texts.lower (message e)) ||
      contains "timed out" (texts.lower (message e)) then
    { cls := .providerTimeoutError, message := s!"Groq Timeout: {msg}"
      errorCode := some "PROVIDER_TIMEOUT" }
  else
    { cls := .providerError, message := s!"Groq Error: {msg}", errorCode := some "PROVIDER_ERROR" }

/-! ## Requests and chunks -/

/-- `_with_nudge`: the nudge behind the first system message, or in one of its own. -/
def nudgeFirst : List ChatMessage → Option (List ChatMessage)
  | [] => none
  | m :: rest =>
    if m.role = .system then some ({ m with content := m.content ++ noToolsNudge } :: rest)
    else (nudgeFirst rest).map (m :: ·)

def withNudge (messages : List ChatMessage) : List ChatMessage :=
  (nudgeFirst messages).getD ({ role := .system, content := PyText.strip noToolsNudge } :: messages)

/-- The arguments of `chat.completions.create`. -/
structure Request where
  model : String
  messages : List ChatMessage
  temperature : ℚ
  maxTokens : Int
  reasoningEffort : Option String

/-- `chunk.choices[0]`. -/
structure Choice where
  /-- the `content` of a `delta` -/
  delta : Option (Option String) := none
  finishReason : Option String := none

/-- A chunk, with its first choice. -/
structure Chunk where
  choice : Option Choice := none

/-- The piece that a chunk yields. -/
def Chunk.piece (chunk : Chunk) : Option String :=
  match chunk.choice with
  | some { delta := some (some content), .. } => if content = "" then none else some content
  | _ => none

def Chunk.cutOff (chunk : Chunk) : Bool :=
  chunk.choice.any fun choice => choice.finishReason = some "length"

/-- How a stream ends behind its chunks. -/
inductive Ending where
  | ended
  | failed (e : UpstreamError)
  | cancelled

/-- What comes of a request. -/
inductive Upstream where
  | failed (e : UpstreamError)
  | cancelled
  | streamed (chunks : List Chunk) (ending : Ending)

/-! ## The stream -/

/-- What the adapter does. -/
inductive Event where
  | create (request : Request)
  | sleep (duration : ℚ)
  | piece (text : String)
  | notice

/-- How the generator ends. -/
inductive Outcome where
  | returned
  | raised (exc : Exc)
  | cancelled

/-- The variables of the loop. -/
structure LoopState where
  emitted : Bool := false
  rateLimited : Bool := false
  attempt : Nat := 0
  current : List ChatMessage

/-- What the `except` does. -/
inductive Retry where
  | wait (seconds : ℚ)
  | nudge
  | no

def retry (st : LoopState) (e : UpstreamError) : Retry :=
  let nudged := if isSpuriousToolCall texts e ∧ !st.emitted ∧ st.attempt < maxToolCallRetries
    then .nudge else .no
  match rateLimitWaitS texts e with
  | some (some wait) =>
    if !st.emitted ∧ wait ≤ maxRateLimitWaitS ∧ !st.rateLimited then .wait wait else nudged
  | _ => nudged

/-- The events of one request, whether it has emitted anything, and the error
that the `except` sees. -/
def receive : Upstream → List Event × Bool × (Outcome ⊕ UpstreamError)
  | .failed e => ([], false, .inr e)
  | .cancelled => ([], false, .inl .cancelled)
  | .streamed chunks ending =>
    let pieces := chunks.filterMap Chunk.piece
    match ending with
    | .ended =>
      (pieces.map .piece ++ if chunks.any Chunk.cutOff then [.notice] else [], pieces ≠ [],
        .inl .returned)
    | .failed e => (pieces.map .piece, pieces ≠ [], .inr e)
    | .cancelled => (pieces.map .piece, pieces ≠ [], .inl .cancelled)

variable (request : List ChatMessage → Request) (messages : List ChatMessage)
  (upstream : Nat → Upstream) (jitter : Nat → ℚ)

variable {texts request messages upstream jitter} {st : LoopState} {e : UpstreamError} {n : Nat}

/-- It waits once, and only before anything was yielded. -/
theorem retry_wait {w : ℚ} (h : retry texts st e = .wait w) :
    st.emitted = false ∧ st.rateLimited = false ∧ w ≤ maxRateLimitWaitS := by
  have hnudged : ∀ p : Prop, [Decidable p] → (if p then Retry.nudge else .no) ≠ .wait w := by
    intro p _
    split
    · exact fun hcontra => nomatch hcontra
    · exact fun hcontra => nomatch hcontra
  rw [retry] at h
  split at h
  · rename_i wait hwait
    by_cases hretry : (!st.emitted) = true ∧ wait ≤ maxRateLimitWaitS ∧ (!st.rateLimited) = true
    · rw [if_pos hretry] at h
      obtain rfl := Retry.wait.inj h
      exact ⟨by simpa using hretry.1, by simpa using hretry.2.2, hretry.2.1⟩
    · rw [if_neg hretry] at h
      exact absurd h (hnudged _)
  · exact absurd h (hnudged _)

/-- It nudges a limited number of times, and only before anything was yielded. -/
theorem retry_nudge (h : retry texts st e = .nudge) :
    st.emitted = false ∧ st.attempt < maxToolCallRetries := by
  have hnudged : (if isSpuriousToolCall texts e = true ∧ (!st.emitted) = true ∧
      st.attempt < maxToolCallRetries then Retry.nudge else .no) = .nudge →
      st.emitted = false ∧ st.attempt < maxToolCallRetries := by
    intro hif
    split at hif
    · rename_i hretry
      exact ⟨by simpa using hretry.2.1, hretry.2.2⟩
    · cases hif
  rw [retry] at h
  split at h
  · split at h
    · cases h
    · exact hnudged h
  · exact hnudged h

/-- How many retries are left. -/
def LoopState.left (st : LoopState) : Nat :=
  (if st.rateLimited then 0 else 1) + (maxToolCallRetries - st.attempt)

theorem left_of_wait (h : st.rateLimited = false) :
    ({ st with rateLimited := true } : LoopState).left + 1 = st.left := by
  rw [LoopState.left, LoopState.left, h, if_pos rfl, if_neg (by decide)]
  show 0 + (maxToolCallRetries - st.attempt) + 1 = _
  omega

theorem left_of_nudge (h : st.attempt < maxToolCallRetries) (current : List ChatMessage) :
    ({ st with attempt := st.attempt + 1, current } : LoopState).left + 1 = st.left := by
  rw [LoopState.left, LoopState.left]
  dsimp only
  omega

variable (texts request messages upstream jitter)

/-- `while True`, for the `n`-th request; the jitter is that of
`random.uniform`. -/
def loop (n : Nat) (st : LoopState) : List Event × Outcome :=
  match receive (upstream n) with
  | (events, _, .inl outcome) => (.create (request st.current) :: events, outcome)
  | (events, emitted, .inr e) =>
    let st' := { st with emitted := st.emitted || emitted }
    match _h : retry texts st' e with
    | .wait seconds =>
      let rest := loop (n + 1) { st' with rateLimited := true }
      (.create (request st.current) :: events ++ .sleep (seconds + 1 / 4 + jitter n) :: rest.1,
        rest.2)
    | .nudge =>
      let rest := loop (n + 1) { st' with attempt := st.attempt + 1, current := withNudge messages }
      (.create (request st.current) :: events ++ rest.1, rest.2)
    | .no => (.create (request st.current) :: events, .raised (handleException texts e))
termination_by st.left
decreasing_by
  · have hleft := left_of_wait (retry_wait _h).2.1
    show LoopState.left { st' with rateLimited := true } < st'.left
    omega
  · have hleft := left_of_nudge (retry_nudge _h).2 (withNudge messages)
    show LoopState.left { st' with attempt := st'.attempt + 1, current := withNudge messages } <
      st'.left
    omega

end GroqAdapter

/-- What a caller passes to `stream`. -/
structure GroqParams where
  model : Option String := none
  temperature : ℚ := 7 / 10
  maxTokens : Option Int := none

/-- `GroqAdapter`, with the counter that estimates its prompts. -/
structure GroqAdapter where
  modelName : String := "llama-3.3-70b-versatile"
  tpmLimit : Int := 0
  counter : TokenCounter

namespace GroqAdapter

def requestOf (g : GroqAdapter) (messages : List ChatMessage) (params : GroqParams)
    (current : List ChatMessage) : Request :=
  let model := params.model.getD g.modelName
  { model
    messages := current
    temperature := params.temperature
    maxTokens := outputBudget (params.maxTokens.getD 0) (estimatePromptTokens g.counter messages)
      g.tpmLimit
    reasoningEffort := if model.startsWith "openai/gpt-oss" then some "low" else none }

/-- `stream`. -/
def stream (g : GroqAdapter) (texts : ErrorTexts) (messages : List ChatMessage)
    (params : GroqParams) (upstream : Nat → Upstream) (jitter : Nat → ℚ) :
    List Event × Outcome :=
  loop texts (g.requestOf messages params) messages upstream jitter 0 { current := messages }

/-! ## What a run does -/

/-- The events that a caller sees. -/
def Event.yielded : Event → Bool
  | .piece _ | .notice => true
  | _ => false

def Event.isCreate : Event → Bool
  | .create _ => true
  | _ => false

/-- A run from the `n`-th request on: requests that fail before anything is
yielded, with sleeps behind them, and one whose events are all that is yielded. -/
def Retried (upstream : Nat → Upstream) (n limit : Nat) (events : List Event) : Prop :=
  ∃ retries request,
    events = retries ++
      .create request :: (receive (upstream (n + retries.countP Event.isCreate))).1 ∧
    (∀ ev ∈ retries, ev.yielded = false) ∧ retries.countP Event.isCreate ≤ limit ∧
    ∀ k < retries.countP Event.isCreate, ∃ e, receive (upstream (n + k)) = ([], false, .inr e)

variable {texts : ErrorTexts} {request : List ChatMessage → Request} {messages : List ChatMessage}
  {upstream : Nat → Upstream} {jitter : Nat → ℚ} {st : LoopState} {n limit : Nat}

/-- A request that is tried again has yielded nothing. -/
theorem receive_of_silent {u : Upstream} {events : List Event} {emitted : Bool} {e : UpstreamError}
    (h : receive u = (events, emitted, .inr e)) (hemitted : emitted = false) : events = [] := by
  cases u with
  | failed e' => exact (Prod.mk.inj h).1.symm
  | cancelled => cases h
  | streamed chunks ending =>
    cases ending with
    | ended => cases h
    | cancelled => cases h
    | failed e' =>
      obtain ⟨rfl, hrest⟩ := Prod.mk.inj h
      have hpieces : decide (chunks.filterMap Chunk.piece ≠ []) = emitted := (Prod.mk.inj hrest).1
      rw [hemitted, decide_eq_false_iff_not, not_not] at hpieces
      rw [hpieces]
      rfl

theorem retried_last {events : List Event} {rest : Bool × (Outcome ⊕ UpstreamError)}
    (h : receive (upstream n) = (events, rest)) (req : Request) :
    Retried upstream n limit (.create req :: events) := by
  refine ⟨[], req, ?_, List.forall_mem_nil _, Nat.zero_le _, fun k hk => nomatch hk⟩
  rw [List.countP_nil, Nat.add_zero, h]
  rfl

/-- One more request in front, which was tried again. -/
theorem Retried.again {events waits : List Event} (h : Retried upstream (n + 1) limit events)
    {e : UpstreamError} (hsilent : receive (upstream n) = ([], false, .inr e)) (req : Request)
    (hwaits : ∀ ev ∈ waits, ev.yielded = false) (hcreate : waits.countP Event.isCreate = 0) :
    Retried upstream n (limit + 1) (.create req :: (waits ++ events)) := by
  obtain ⟨retries, last, rfl, hyielded, hlimit, hfailed⟩ := h
  have hcount : (.create req :: (waits ++ retries)).countP Event.isCreate =
      retries.countP Event.isCreate + 1 := by
    rw [List.countP_cons, List.countP_append, hcreate]
    show 0 + retries.countP Event.isCreate + 1 = _
    omega
  refine ⟨.create req :: (waits ++ retries), last, ?_, ?_, ?_, ?_⟩
  · rw [hcount, List.cons_append, List.append_assoc, Nat.add_comm (retries.countP _),
      ← Nat.add_assoc]
  · intro ev hev
    rcases List.mem_cons.mp hev with rfl | hev
    · rfl
    · exact (List.mem_append.mp hev).elim (hwaits ev) (hyielded ev)
  · omega
  · intro k hk
    cases k with
    | zero => exact ⟨e, hsilent⟩
    | succ k =>
      obtain ⟨e', he'⟩ := hfailed k (by omega)
      exact ⟨e', by rw [← he', Nat.add_comm k, ← Nat.add_assoc]⟩

/-- A request that is tried again came to nothing, and its error was the first of the run. -/
theorem silent_of_retry {events : List Event} {emitted : Bool} {e : UpstreamError}
    (h : receive (upstream n) = (events, emitted, .inr e))
    (hemitted : (st.emitted || emitted) = false) :
    receive (upstream n) = ([], false, .inr e) ∧ events = [] := by
  obtain rfl : emitted = false := (Bool.or_eq_false_iff.mp hemitted).2
  obtain rfl := receive_of_silent h rfl
  exact ⟨h, rfl⟩

theorem loop_retried (hemitted : st.emitted = false) :
    Retried upstream n st.left (loop texts request messages upstream jitter n st).1 := by
  fun_induction loop texts request messages upstream jitter n st with
  | case1 n st events _ outcome hreceive => exact retried_last hreceive _
  | case2 n st events emitted e hreceive st' seconds hretry rest ih =>
    obtain ⟨hnone, hlimited, -⟩ := retry_wait hretry
    obtain ⟨hsilent, rfl⟩ := silent_of_retry hreceive hnone
    have hleft : LoopState.left { st' with rateLimited := true } + 1 = st.left :=
      left_of_wait hlimited
    rw [← hleft]
    have hwaits : ∀ ev ∈ [Event.sleep (seconds + 1 / 4 + jitter n)], ev.yielded = false :=
      List.forall_mem_singleton.mpr rfl
    exact (ih hnone).again hsilent (request st.current) hwaits rfl
  | case3 n st events emitted e hreceive st' hretry rest ih =>
    obtain ⟨hnone, hattempt⟩ := retry_nudge hretry
    obtain ⟨hsilent, rfl⟩ := silent_of_retry hreceive hnone
    have hleft : LoopState.left
        { st' with attempt := st.attempt + 1, current := withNudge messages } + 1 = st.left :=
      left_of_nudge hattempt (withNudge messages)
    rw [← hleft]
    exact (ih hnone).again hsilent (request st.current) (List.forall_mem_nil _) rfl
  | case4 n st events emitted e hreceive st' hretry => exact retried_last hreceive _

theorem pieces_yield (pieces : List String) : (pieces.map Event.piece).countP Event.isCreate = 0 ∧
    (∀ ev ∈ pieces.map Event.piece, ev.yielded = true) ∧
    Event.notice ∉ pieces.map Event.piece := by
  induction pieces with
  | nil => exact ⟨rfl, List.forall_mem_nil _, List.not_mem_nil⟩
  | cons piece pieces ih =>
    refine ⟨?_, List.forall_mem_cons.mpr ⟨rfl, ih.2.1⟩, ?_⟩
    · rw [List.map_cons, List.countP_cons, ih.1]
      rfl
    · intro hmem
      rcases List.mem_cons.mp hmem with heq | hmem
      · cases heq
      · exact ih.2.2 hmem

/-- What one request yields: pieces, and the notice behind them. -/
theorem receive_eq (u : Upstream) : ∃ pieces : List String,
    (receive u).1 = pieces.map .piece ∨ (receive u).1 = pieces.map .piece ++ [.notice] := by
  cases u with
  | failed e => exact ⟨[], .inl rfl⟩
  | cancelled => exact ⟨[], .inl rfl⟩
  | streamed chunks ending =>
    refine ⟨chunks.filterMap Chunk.piece, ?_⟩
    cases ending with
    | failed e => exact .inl rfl
    | cancelled => exact .inl rfl
    | ended =>
      cases hcut : chunks.any Chunk.cutOff with
      | true => exact .inr (by rw [receive, hcut]; rfl)
      | false => exact .inl (by rw [receive, hcut]; exact List.append_nil _)

theorem receive_yields (u : Upstream) : (receive u).1.countP Event.isCreate = 0 ∧
    (∀ ev ∈ (receive u).1, ev.yielded = true) ∧
    ∀ a b, (receive u).1 = a ++ .notice :: b → b = [] := by
  obtain ⟨pieces, hpieces | hpieces⟩ := receive_eq u
  · obtain ⟨hcreate, hyielded, hnotice⟩ := pieces_yield pieces
    rw [hpieces]
    refine ⟨hcreate, hyielded, fun a b hsplit => ?_⟩
    rw [hsplit] at hnotice
    exact absurd (by simp) hnotice
  · obtain ⟨hcreate, hyielded, hnotice⟩ := pieces_yield pieces
    rw [hpieces]
    refine ⟨?_, ?_, fun a b hsplit => ?_⟩
    · rw [List.countP_append, hcreate]
      rfl
    · rw [List.forall_mem_append]
      exact ⟨hyielded, List.forall_mem_singleton.mpr rfl⟩
    · rcases List.eq_nil_or_concat b with rfl | ⟨b, last, rfl⟩
      · rfl
      · have hfront : pieces.map Event.piece ++ [.notice] = (a ++ .notice :: b) ++ [last] := by
          simpa using hsplit
        rw [(List.append_inj' hfront rfl).1] at hnotice
        exact absurd (by simp) hnotice

/-- The stream retries at most three times and only before anything is
yielded; what it yields comes from its last request, and the notice last. -/
theorem stream_retries (g : GroqAdapter) (texts : ErrorTexts) (messages : List ChatMessage)
    (params : GroqParams) (upstream : Nat → Upstream) (jitter : Nat → ℚ) :
    let events := (g.stream texts messages params upstream jitter).1
    events.countP Event.isCreate ≤ 4 ∧
    (∃ retries request yields,
      events = retries ++ .create request :: yields ∧
      yields = (receive (upstream (retries.countP Event.isCreate))).1 ∧
      (∀ ev ∈ retries, ev.yielded = false) ∧ (∀ ev ∈ yields, ev.yielded = true) ∧
      ∀ k < retries.countP Event.isCreate, ∃ e, receive (upstream k) = ([], false, .inr e)) ∧
    ∀ a b, events = a ++ .notice :: b → b = [] := by
  have hretried : Retried upstream 0 3 (g.stream texts messages params upstream jitter).1 := by
    rw [stream]
    exact loop_retried rfl
  obtain ⟨retries, request, hevents, hsilent, hlimit, hfailed⟩ := hretried
  simp only [Nat.zero_add] at hevents hfailed
  obtain ⟨hcreate, hyielded, hnotice⟩ :=
    receive_yields (upstream (retries.countP Event.isCreate))
  dsimp only
  refine ⟨?_, ⟨retries, request, _, hevents, rfl, hsilent, hyielded, hfailed⟩, ?_⟩
  · rw [hevents, List.countP_append, List.countP_cons, hcreate]
    show retries.countP Event.isCreate + (0 + 1) ≤ 4
    omega
  · intro a b hsplit
    rw [hevents, List.append_eq_append_iff] at hsplit
    rcases hsplit with ⟨rest, rfl, hrest⟩ | ⟨rest, hretries, hrest⟩
    · cases rest with
      | nil => cases hrest
      | cons first rest =>
        obtain ⟨-, hrest⟩ := List.cons.inj hrest
        exact hnotice rest b hrest
    · cases rest with
      | nil => cases hrest
      | cons first rest =>
        obtain ⟨rfl, -⟩ := List.cons.inj hrest
        have hcontra := hsilent .notice (by rw [hretries]; simp)
        cases hcontra

end GroqAdapter

end LlmService
