import LlmService.ContextWindow.Models
import LlmService.Utils.CircuitBreaker

/-!
# ProviderChain

`app/providers/chain.py` and `with_deadlines` of `app/providers/router.py`.

What an adapter's stream does during one turn is environment: a finite list
of tokens, each with the delay before it arrives, and then its end, a raised
exception, or silence. `generateStream` runs the async generator to its end
and records what its consumer and the adapters see: the tokens (with the
position of the entry that produced each), the calls, the breakers, the
route and how the generator ended.
-/

namespace LlmService

/-- What an adapter's stream does after its last token. -/
inductive StreamEnd where
  | stop (delay : Seconds)
  | fail (delay : Seconds) (exc : Exc)
  | hang

/-- One call of `adapter.stream`: tokens with the delay before each. -/
structure AdapterStream where
  tokens : List (Seconds × String) := []
  ending : StreamEnd

/-- The tokens of a stream, without their timing. -/
def AdapterStream.texts (s : AdapterStream) : List String := s.tokens.map Prod.snd

/-- How an async generator ends for its consumer; `blocked` means that it
waits for ever. -/
inductive StreamOutcome where
  | returned
  | raised (exc : Exc)
  | blocked
  deriving DecidableEq

/-- An exhausted async generator: its tokens with their arrival times. -/
structure Streamed where
  tokens : List (Seconds × String)
  outcome : StreamOutcome
  endTime : Seconds

/-- `asyncio.wait_for(…, timeout=limit)` gives up on what takes `delay`. -/
def expires (limit : Option Seconds) (delay : Seconds) : Bool :=
  match limit with
  | some l => decide (l < delay)
  | none => false

/-- The `except asyncio.TimeoutError` branch of `with_deadlines`. Without a
limit (the source itself timed out) formatting the message fails. -/
def deadlineError (label : String) (first : Bool) (limit : Option Seconds) : Exc :=
  let stage := if first then "first token" else "next token"
  match limit with
  | some l =>
    { cls := .providerTimeoutError
      message := s!"{label} provider produced no {stage} within {formatG l}s"
      errorCode := some "PROVIDER_TIMEOUT" }
  | none =>
    { cls := .typeError, message := "unsupported format string passed to NoneType.__format__" }

/-- The last `anext` of `with_deadlines`: the source ends, fails or stalls. -/
def drained (ending : StreamEnd) (limit : Option Seconds) (label : String) (first : Bool)
    (now : Seconds) : Streamed :=
  let timeout : Streamed := ⟨[], .raised (deadlineError label first limit), now + limit.getD 0⟩
  match ending with
  | .stop delay => if expires limit delay then timeout else ⟨[], .returned, now + delay⟩
  | .fail delay exc =>
    if expires limit delay then timeout
    else if exc.cls = .timeoutError then
      ⟨[], .raised (deadlineError label first limit), now + delay⟩
    else ⟨[], .raised exc, now + delay⟩
  | .hang => if limit.isSome then timeout else ⟨[], .blocked, now⟩

/-- The loop of `with_deadlines` over the rest of the source. -/
def withDeadlinesFrom (ending : StreamEnd) (firstTimeout idleTimeout : Option Seconds)
    (label : String) : List (Seconds × String) → Bool → Seconds → Streamed
  | [], first, now =>
    drained ending (if first then firstTimeout else idleTimeout) label first now
  | (delay, token) :: rest, first, now =>
    let limit := if first then firstTimeout else idleTimeout
    -- a token that comes too late is lost with the rest of the source
    if expires limit delay then
      ⟨[], .raised (deadlineError label first limit), now + limit.getD 0⟩
    else
      let tail :=
        withDeadlinesFrom ending firstTimeout idleTimeout label rest false (now + delay)
      { tail with tokens := (now + delay, token) :: tail.tokens }

def withDeadlines (source : AdapterStream) (firstTimeout idleTimeout : Option Seconds)
    (label : String) (now : Seconds) : Streamed :=
  withDeadlinesFrom source.ending firstTimeout idleTimeout label source.tokens true now

/-- The generation parameters an adapter reads. -/
structure Params where
  maxTokens : Option Int := none
  deriving DecidableEq

/-- What one adapter does in one turn, for any messages and parameters. -/
abbrev Adapter := List ChatMessage → Params → AdapterStream

/-- `ChainEntry`, without the adapter object: its behaviour is environment
and comes with the turn. -/
structure ChainEntry where
  name : String
  breaker : Option CircuitBreaker
  firstTokenTimeoutS : Option Seconds

abbrev Fitter := TrimmedPrompt → String → Except Exc TrimmedPrompt

/-- `ProviderChain`; its constructor refuses an empty list. -/
structure ProviderChain where
  entries : List ChainEntry
  idleTimeoutS : Option Seconds := some 20
  fitter : Option Fitter := none
  entries_ne : entries ≠ []

/-- One call of `generate_stream`: its arguments, the time it starts and
what the adapter of each entry will do. -/
structure Turn where
  prompt : TrimmedPrompt
  params : Params
  now : Seconds
  adapter : Nat → Adapter

/-- `params["_route"]`. -/
structure Route where
  provider : String
  fallbackUsed : Bool
  fallbackReason : Option String
  deriving DecidableEq

/-- How `generate_stream` ends: it returns, re-raises the failure of the
entry that was answering, raises its own `AllProvidersFailedError`, lets an
exception of the fitter through, or waits for ever. -/
inductive ChainOutcome where
  | returned
  | reraised (exc : Exc)
  | allFailed (exc : Exc)
  | escaped (exc : Exc)
  | blocked
  deriving DecidableEq

/-- How the body of the loop ends for one entry: with `continue` (or by
falling through) and the recorded reason, or by leaving the loop. -/
inductive Verdict where
  | next (reason : String)
  | leave (outcome : ChainOutcome)
  deriving DecidableEq

/-- One pass of the loop over `self.entries`. -/
structure Attempt where
  sent : Option (List ChatMessage) := none
  tokens : List String := []
  breaker : Option CircuitBreaker
  now : Seconds
  verdict : Verdict

/-- The part of the loop body that calls the adapter. -/
def ChainEntry.stream (e : ChainEntry) (idle : Option Seconds) (adapter : Adapter)
    (messages : List ChatMessage) (params : Params) (now : Seconds) : Attempt :=
  let s := withDeadlines (adapter messages params) e.firstTokenTimeoutS idle e.name now
  let emitted := !s.tokens.isEmpty
  let breaker : Option CircuitBreaker := if emitted then e.breaker.map CircuitBreaker.onSuccess else e.breaker
  let made : Attempt :=
    { sent := some messages, tokens := s.tokens.map Prod.snd, breaker, now := s.endTime
      verdict := .leave .returned }
  match s.outcome with
  -- `return` stands behind the token loop, whether or not a token came
  | .returned => made
  | .blocked => { made with verdict := .leave .blocked }
  | .raised exc =>
    -- the first token has already been reported as a success
    let failed := { made with breaker := breaker.map (CircuitBreaker.onFailure · s.endTime) }
    if emitted then { failed with verdict := .leave (.reraised exc) }
    else { failed with verdict := .next s!"{exc.cls.name}: {exc.str}" }

/-- The loop body for the entry at the head of what is left. -/
def ChainEntry.attempt (e : ChainEntry) (fitter : Option Fitter) (idle : Option Seconds)
    (adapter : Adapter) (prompt : TrimmedPrompt) (params : Params) (now : Seconds) : Attempt :=
  if e.breaker.any (·.isOpen now) then
    { breaker := e.breaker, now, verdict := .next "circuit breaker open" }
  else
    match fitter with
    | none => e.stream idle adapter prompt.messages params now
    | some fit =>
      -- every entry fits the prompt it was given, not the one fitted before
      match fit prompt e.name with
      | .ok attemptPrompt => e.stream idle adapter attemptPrompt.messages params now
      | .error exc =>
        if exc.cls = .contextOverflowError then
          { breaker := e.breaker, now, verdict := .next s!"context_too_large: {exc.str}" }
        else { breaker := e.breaker, now, verdict := .leave (.escaped exc) }

/-- The error of the fall-through after the loop. -/
def allProvidersFailed (failures : List (String × String)) : Exc :=
  { cls := .allProvidersFailedError
    message := "All generation providers failed. "
      ++ "; ".intercalate (failures.map fun f => s!"{f.1}: {f.2}")
    errorCode := some "PROVIDER_ALL_FAILED" }

/-- What one call of `generate_stream` did. -/
structure ChainRun where
  tokens : List (Nat × String)
  calls : List (Nat × List ChatMessage)
  breakers : List (Option CircuitBreaker)
  route : Option Route
  now : Seconds
  outcome : ChainOutcome

/-- The loop from the entry at position `idx` on. -/
def generateStreamFrom (fitter : Option Fitter) (idle : Option Seconds) (t : Turn) :
    List ChainEntry → Nat → Seconds → List (String × String) → ChainRun
  | [], _, now, failures =>
    { tokens := [], calls := [], breakers := [], route := none, now
      outcome := .allFailed (allProvidersFailed failures) }
  | e :: rest, idx, now, failures =>
    let a := e.attempt fitter idle (t.adapter idx) t.prompt t.params now
    let calls := a.sent.toList.map fun messages => (idx, messages)
    match a.verdict with
    | .leave outcome =>
      { tokens := a.tokens.map fun token => (idx, token)
        calls
        breakers := a.breaker :: rest.map (·.breaker)
        route :=
          if a.tokens.isEmpty then none
          else some
            { provider := e.name
              fallbackUsed := !failures.isEmpty
              fallbackReason := failures.getLast?.map Prod.snd }
        now := a.now
        outcome }
    | .next reason =>
      let r :=
        generateStreamFrom fitter idle t rest (idx + 1) a.now (failures ++ [(e.name, reason)])
      { r with calls := calls ++ r.calls, breakers := a.breaker :: r.breakers }

def ProviderChain.generateStream (c : ProviderChain) (t : Turn) : ChainRun :=
  generateStreamFrom c.fitter c.idleTimeoutS t c.entries 0 t.now []

end LlmService
