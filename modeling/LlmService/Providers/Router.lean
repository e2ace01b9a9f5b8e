import LlmService.Providers.ChainBreakers

/-!
# GenerationRouter

`GenerationRouter.generate_stream` of `app/providers/router.py`, the router
that the chain replaced: a primary provider and one fallback. Its breakers
are looked up by name in the dictionary that the service shares.
-/

namespace LlmService

/-- `GenerationRouter`; the adapters come with the turn, the primary's as
`t.adapter 0` and the fallback's as `t.adapter 1`. -/
structure GenerationRouter where
  circuitBreakers : String → Option CircuitBreaker
  fallbackEnabled : Bool := true
  fallbackName : String := "gemini"
  firstTokenTimeoutS : Option Seconds := some 8
  idleTimeoutS : Option Seconds := some 20
  fallbackFirstTokenTimeoutS : Option Seconds := some 30

/-- What one call of the router's `generate_stream` did; a token comes with
the position of its adapter. -/
structure RouterRun where
  tokens : List (Nat × String) := []
  calls : List Nat := []
  circuitBreakers : String → Option CircuitBreaker
  route : Route
  now : Seconds
  outcome : StreamOutcome

namespace GenerationRouter

/-- `str.capitalize()`, for the ASCII names of providers. -/
def capitalize (name : String) : String :=
  match name.toList with
  | [] => ""
  | first :: rest => String.ofList (first.toUpper :: rest.map Char.toLower)

def fallbackLabel (r : GenerationRouter) : String := capitalize r.fallbackName

/-- The breaker calls that hearing a stream makes, if the name has a breaker. -/
def heardBy (breakers : String → Option CircuitBreaker) (name : String) (s : Streamed) :
    String → Option CircuitBreaker :=
  Function.update breakers name ((breakers name).map (breakerAfter s))

def allFailed (message : String) : Exc :=
  { cls := .allProvidersFailedError, message, errorCode := some "PROVIDER_ALL_FAILED" }

/-- `_stream_fallback`. -/
def streamFallback (r : GenerationRouter) (t : Turn)
    (breakers : String → Option CircuitBreaker) (route : Route) (now : Seconds) : RouterRun :=
  if !r.fallbackEnabled then
    { circuitBreakers := breakers, route, now
      outcome :=
        .raised (allFailed "Primary provider failed and the generation fallback is disabled") }
  else if (breakers r.fallbackName).any (·.isOpen now) then
    { circuitBreakers := breakers, route, now
      outcome :=
        .raised (allFailed s!"Both NVIDIA and {r.fallbackLabel} providers are unavailable") }
  else
    let s := withDeadlines (t.adapter 1 t.prompt.messages t.params) r.fallbackFirstTokenTimeoutS
      r.idleTimeoutS r.fallbackName now
    { tokens := s.tokens.map fun token => (1, token.2)
      calls := [1]
      circuitBreakers := heardBy breakers r.fallbackName s
      route
      now := s.endTime
      outcome :=
        match s.outcome with
        | .raised e =>
          .raised (allFailed
            s!"All generation providers failed. {r.fallbackLabel} error: {e.str}")
        | outcome => outcome }

def generateStream (r : GenerationRouter) (t : Turn) : RouterRun :=
  let toFallback := fun reason : String =>
    { provider := r.fallbackName, fallbackUsed := true, fallbackReason := some reason : Route }
  if (r.circuitBreakers "nvidia").any (·.isOpen t.now) then
    r.streamFallback t r.circuitBreakers (toFallback "circuit_open") t.now
  else
    let s := withDeadlines (t.adapter 0 t.prompt.messages t.params) r.firstTokenTimeoutS
      r.idleTimeoutS "primary" t.now
    let primary : RouterRun :=
      { tokens := s.tokens.map fun token => (0, token.2)
        calls := [0]
        circuitBreakers := heardBy r.circuitBreakers "nvidia" s
        route := { provider := "primary", fallbackUsed := false, fallbackReason := none }
        now := s.endTime
        outcome := s.outcome }
    match s.outcome with
    | .raised e =>
      if s.tokens.isEmpty then
        let f := r.streamFallback t primary.circuitBreakers (toFallback e.cls.name) s.endTime
        { f with calls := 0 :: f.calls }
      else primary
    | _ => primary

/-! ## How the router drives its breakers -/

/-- Two breaker dictionaries, the second reached from the first by calls of
`BreakerCall` on each breaker. -/
def DrivenTo (breakers breakers' : String → Option CircuitBreaker) : Prop :=
  ∀ name b, breakers name = some b →
    ∃ calls b', breakers' name = some b' ∧ Runs.run CircuitBreaker.drive b calls = some b'

variable {breakers breakers' breakers'' : String → Option CircuitBreaker}

theorem DrivenTo.refl (breakers : String → Option CircuitBreaker) :
    DrivenTo breakers breakers := by
  intro name b hb
  exact ⟨[], b, hb, rfl⟩

theorem DrivenTo.trans (h : DrivenTo breakers breakers') (h' : DrivenTo breakers' breakers'') :
    DrivenTo breakers breakers'' := by
  intro name b hb
  obtain ⟨calls, b', hb', hcalls⟩ := h name b hb
  obtain ⟨calls', b'', hb'', hcalls'⟩ := h' name b' hb'
  refine ⟨calls ++ calls', b'', hb'', ?_⟩
  rw [Runs.run_append, hcalls]
  exact hcalls'

/-- A stream is heard only after its breaker has let the turn through. -/
theorem heardBy_driven {name : String} {now : Seconds} (s : Streamed)
    (hopen : (breakers name).any (·.isOpen now) = false) :
    DrivenTo breakers (heardBy breakers name s) := by
  intro other b hb
  by_cases hname : other = name
  · subst hname
    rw [hb] at hopen
    obtain ⟨calls, hcalls⟩ := breakerAfter_driven s b now hopen
    exact ⟨calls, _, by simp [heardBy, hb], hcalls⟩
  · exact ⟨[], b, by simp [heardBy, Function.update_of_ne hname, hb], rfl⟩

theorem streamFallback_driven (r : GenerationRouter) (t : Turn)
    (breakers : String → Option CircuitBreaker) (route : Route) (now : Seconds) :
    DrivenTo breakers (r.streamFallback t breakers route now).circuitBreakers := by
  simp only [streamFallback]
  split
  · exact .refl _
  · split
    · exact .refl _
    · rename_i hopen
      exact heardBy_driven _ (by simpa using hopen)

/-- A turn of the router, like one of the chain, only drives its breakers. -/
theorem generateStream_driven (r : GenerationRouter) (t : Turn) :
    DrivenTo r.circuitBreakers (r.generateStream t).circuitBreakers := by
  simp only [generateStream]
  split
  · exact streamFallback_driven r t _ _ _
  · rename_i hopen
    have hprimary := fun s => heardBy_driven s (by simpa using hopen)
    split
    · split
      · exact (hprimary _).trans (streamFallback_driven r t _ _ _)
      · exact hprimary _
    · exact hprimary _

end GenerationRouter

end LlmService
