import LlmService.Providers.Router

/-!
# The router and the chain of its two providers

`GenerationRouter.generate_stream` and the loop of `ProviderChain`, over the
same two adapters: the tokens, the breakers and the time are the same, and the
one raises when the other does. What they raise differs, and so do the labels
in the messages of the deadlines, which no branch reads.
-/

namespace LlmService

/-- How a generator ends, whatever it raises. -/
inductive Ending where
  | returned | raised | blocked
  deriving DecidableEq, Repr

def StreamOutcome.ending : StreamOutcome → Ending
  | .returned => .returned
  | .raised _ => .raised
  | .blocked => .blocked

def ChainOutcome.ending : ChainOutcome → Ending
  | .returned => .returned
  | .reraised _ | .allFailed _ | .escaped _ => .raised
  | .blocked => .blocked

/-! ## Labels -/

/-- Two exhausted generators that differ at most in what they raise. -/
structure Streamed.Alike (s s' : Streamed) : Prop where
  tokens : s.tokens = s'.tokens
  endTime : s.endTime = s'.endTime
  ending : s.outcome.ending = s'.outcome.ending

theorem drained_alike (ending : StreamEnd) (limit : Option Seconds) (label label' : String)
    (first : Bool) (now : Seconds) :
    (drained ending limit label first now).Alike (drained ending limit label' first now) := by
  cases ending with
  | stop delay =>
    simp only [drained]
    split <;> exact ⟨rfl, rfl, rfl⟩
  | fail delay exc =>
    simp only [drained]
    split
    · exact ⟨rfl, rfl, rfl⟩
    · split <;> exact ⟨rfl, rfl, rfl⟩
  | hang =>
    simp only [drained]
    split <;> exact ⟨rfl, rfl, rfl⟩

theorem withDeadlinesFrom_alike (ending : StreamEnd) (ft it : Option Seconds)
    (label label' : String) (tokens : List (Seconds × String)) (first : Bool) (now : Seconds) :
    (withDeadlinesFrom ending ft it label tokens first now).Alike
      (withDeadlinesFrom ending ft it label' tokens first now) := by
  induction tokens generalizing first now with
  | nil => exact drained_alike ending _ label label' first now
  | cons head rest ih =>
    obtain ⟨delay, token⟩ := head
    simp only [withDeadlinesFrom]
    generalize (if first = true then ft else it) = limit
    split
    · exact ⟨rfl, rfl, rfl⟩
    · obtain ⟨htokens, hend, hending⟩ := ih false (now + delay)
      exact ⟨congrArg (List.cons _) htokens, hend, hending⟩

/-- The label of a deadline is only seen in its message. -/
theorem withDeadlines_alike (source : AdapterStream) (ft it : Option Seconds)
    (label label' : String) (now : Seconds) :
    (withDeadlines source ft it label now).Alike (withDeadlines source ft it label' now) :=
  withDeadlinesFrom_alike _ _ _ _ _ _ _ _

theorem breakerAfter_congr {s s' : Streamed} (h : s.Alike s') : breakerAfter s = breakerAfter s' := by
  obtain ⟨tokens, outcome, endTime⟩ := s
  obtain ⟨tokens', outcome', endTime'⟩ := s'
  obtain ⟨rfl, rfl, hending⟩ := h
  cases outcome <;> cases outcome' <;> first | rfl | cases hending

/-! ## An entry that is heard -/

section Heard

variable {e : ChainEntry} {idle : Option Seconds} {t : Turn} {idx : Nat} {now : Seconds}
  {s : Streamed} (rest : List ChainEntry) (failures : List (String × String))

/-- A stream that has given no token and raises. -/
def Streamed.Failed (s : Streamed) : Prop := s.tokens = [] ∧ s.outcome.ending = .raised

/-- The pass of the loop for an entry without a fitter, by what is heard. -/
theorem ChainEntry.attempt_heard (hadmits : e.Admits now)
    (hs : s.Alike (e.heard idle (t.adapter idx) t.params t.prompt.messages now)) :
    let a := e.attempt none idle (t.adapter idx) t.prompt t.params now
    a.sent = some t.prompt.messages ∧ a.tokens = s.tokens.map Prod.snd ∧ a.now = s.endTime ∧
      a.breaker = e.breaker.map (breakerAfter s) ∧
      (s.Failed → ∃ reason, a.verdict = .next reason) ∧
      (¬ s.Failed → ∃ outcome, a.verdict = .leave outcome ∧ outcome.ending = s.outcome.ending) := by
  have hbreaker := e.stream_breaker idle (t.adapter idx) t.prompt.messages t.params now
  obtain ⟨hsent, htokens, hnow, hcase⟩ :=
    e.stream_cases idle (t.adapter idx) t.params t.prompt.messages now
  have hfits : e.Fits none t.prompt t.prompt.messages := rfl
  rw [← breakerAfter_congr hs] at hbreaker
  rw [← hs.tokens] at htokens hcase
  rw [← hs.endTime] at hnow
  intro a
  rw [show a = _ from e.attempt_of_fits hadmits hfits]
  refine ⟨hsent, htokens, hnow, hbreaker, ?_⟩
  rw [Streamed.Failed, hs.ending]
  cases houtcome : (e.heard idle (t.adapter idx) t.params t.prompt.messages now).outcome with
  | returned =>
    rw [houtcome] at hcase
    exact ⟨fun h => absurd h.2 (by decide), fun _ => ⟨_, hcase, rfl⟩⟩
  | blocked =>
    rw [houtcome] at hcase
    exact ⟨fun h => absurd h.2 (by decide), fun _ => ⟨_, hcase, rfl⟩⟩
  | raised exc =>
    rw [houtcome] at hcase
    dsimp only at hcase
    constructor
    · intro h
      rw [if_pos h.1] at hcase
      exact ⟨_, hcase⟩
    · intro h
      rw [if_neg fun hnone => h ⟨hnone, rfl⟩] at hcase
      exact ⟨_, hcase, rfl⟩

/-- The loop ends with an entry that answers, or that ends without an answer. -/
theorem generateStreamFrom_answered (hadmits : e.Admits now)
    (hs : s.Alike (e.heard idle (t.adapter idx) t.params t.prompt.messages now))
    (hanswered : ¬ s.Failed) :
    let run := generateStreamFrom none idle t (e :: rest) idx now failures
    run.tokens = s.tokens.map (fun token => (idx, token.2)) ∧
      run.calls = [(idx, t.prompt.messages)] ∧
      run.breakers = e.breaker.map (breakerAfter s) :: rest.map (·.breaker) ∧
      run.outcome.ending = s.outcome.ending ∧ run.now = s.endTime := by
  obtain ⟨hsent, htokens, hnow, hbreaker, -, hleave⟩ := ChainEntry.attempt_heard hadmits hs
  obtain ⟨outcome, hverdict, hending⟩ := hleave hanswered
  dsimp only [generateStreamFrom]
  rw [hverdict, hsent, htokens, hnow, hbreaker, List.map_map]
  exact ⟨rfl, rfl, rfl, hending, rfl⟩

/-- The loop goes on behind an entry that fails before its first token. -/
theorem generateStreamFrom_failed (hadmits : e.Admits now)
    (hs : s.Alike (e.heard idle (t.adapter idx) t.params t.prompt.messages now))
    (hfailed : s.Failed) :
    ∃ failures', let run := generateStreamFrom none idle t (e :: rest) idx now failures
      let later := generateStreamFrom none idle t rest (idx + 1) s.endTime failures'
      run.tokens = later.tokens ∧ run.calls = (idx, t.prompt.messages) :: later.calls ∧
        run.breakers = e.breaker.map (breakerAfter s) :: later.breakers ∧
        run.outcome = later.outcome ∧ run.now = later.now := by
  obtain ⟨hsent, -, hnow, hbreaker, hnext, -⟩ := ChainEntry.attempt_heard hadmits hs
  obtain ⟨reason, hverdict⟩ := hnext hfailed
  refine ⟨failures ++ [(e.name, reason)], ?_⟩
  dsimp only [generateStreamFrom]
  rw [hverdict, hsent, hnow, hbreaker]
  exact ⟨rfl, rfl, rfl, rfl, rfl⟩

end Heard

/-! ## The fallback and the last entry -/

/-- A run of the chain that does what a run of the router does: the same
tokens from the same adapters, the same calls, the named breakers left the
same, and the same ending at the same time. -/
structure Mirrors (names : List String) (run : RouterRun) (run' : ChainRun) : Prop where
  tokens_eq : run'.tokens = run.tokens
  calls_eq : run'.calls.map Prod.fst = run.calls
  breakers_eq : run'.breakers = names.map run.circuitBreakers
  ending_eq : run'.outcome.ending = run.outcome.ending
  now_eq : run'.now = run.now

/-- What is mirrored is also mirrored behind an entry that has failed. -/
theorem Mirrors.behind {names : List String} {name : String} {first : Option CircuitBreaker}
    {run : RouterRun} {later whole : ChainRun} (h : Mirrors names run later)
    (calls : List (Nat × List ChatMessage)) (hbreaker : run.circuitBreakers name = first)
    (htokens : whole.tokens = later.tokens) (hcalls : whole.calls = calls ++ later.calls)
    (hbreakers : whole.breakers = first :: later.breakers)
    (houtcome : whole.outcome = later.outcome) (hnow : whole.now = later.now) :
    Mirrors (name :: names) { run with calls := calls.map Prod.fst ++ run.calls } whole where
  tokens_eq := htokens.trans h.tokens_eq
  calls_eq := by rw [hcalls, List.map_append, h.calls_eq]
  breakers_eq := by rw [hbreakers, h.breakers_eq, ← hbreaker]; rfl
  ending_eq := by rw [houtcome, h.ending_eq]
  now_eq := hnow.trans h.now_eq

namespace GenerationRouter

variable (r : GenerationRouter) (t : Turn) (breakers : String → Option CircuitBreaker)

/-- The fallback as an entry of a chain. -/
def fallbackEntry (name : String) : ChainEntry where
  name := name
  breaker := breakers r.fallbackName
  firstTokenTimeoutS := r.fallbackFirstTokenTimeoutS

/-- The chain of the router's providers, with its breakers and deadlines. -/
def asChain (primary fallback : String) : ProviderChain where
  entries :=
    [{ name := primary
       breaker := r.circuitBreakers "nvidia"
       firstTokenTimeoutS := r.firstTokenTimeoutS },
      r.fallbackEntry r.circuitBreakers fallback]
  idleTimeoutS := r.idleTimeoutS
  fitter := none
  entries_ne := List.cons_ne_nil _ _

variable {r t breakers}

/-- The fallback only drives its own breaker. -/
theorem streamFallback_breaker_of_ne {name : String} (h : name ≠ r.fallbackName) (route : Route)
    (now : Seconds) : (r.streamFallback t breakers route now).circuitBreakers name = breakers name := by
  simp only [streamFallback]
  split
  · rfl
  · split
    · rfl
    · exact Function.update_of_ne h _ _

/-- The loop of the chain, when it has come to its last entry. -/
theorem streamFallback_mirrors (breakers : String → Option CircuitBreaker)
    (henabled : r.fallbackEnabled = true) (name : String) (route : Route) (now : Seconds) (failures : List (String × String)) :
    Mirrors [r.fallbackName] (r.streamFallback t breakers route now)
      (generateStreamFrom none r.idleTimeoutS t [r.fallbackEntry breakers name] 1 now failures) := by
  by_cases hopen : (breakers r.fallbackName).any (·.isOpen now) = true
  · simp only [streamFallback, henabled, hopen, generateStreamFrom, ChainEntry.attempt,
      fallbackEntry, Bool.not_true, Bool.false_eq_true, if_false, if_true]
    exact ⟨rfl, rfl, rfl, rfl, rfl⟩
  · have hadmits : (r.fallbackEntry breakers name).Admits now := Bool.eq_false_iff.mpr hopen
    have hs := withDeadlines_alike (t.adapter 1 t.prompt.messages t.params)
      r.fallbackFirstTokenTimeoutS r.idleTimeoutS r.fallbackName name now
    simp only [streamFallback, henabled, Bool.not_true, Bool.false_eq_true, if_false, if_neg hopen]
    generalize withDeadlines _ r.fallbackFirstTokenTimeoutS r.idleTimeoutS r.fallbackName now = s at hs ⊢
    have hbreaker : heardBy breakers r.fallbackName s r.fallbackName
        = (breakers r.fallbackName).map (breakerAfter s) := Function.update_self _ _ _
    by_cases hfailed : s.Failed
    · obtain ⟨failures', htokens, hcalls, hbreakers, houtcome, hnow⟩ :=
        generateStreamFrom_failed [] failures hadmits hs hfailed
      exact {
        tokens_eq := by rw [htokens, hfailed.1]; rfl
        calls_eq := by rw [hcalls]; rfl
        breakers_eq := hbreakers.trans (congrArg (fun b => [b]) hbreaker.symm)
        ending_eq := by
          rw [houtcome]
          refine hfailed.2.symm.trans ?_
          cases s.outcome <;> rfl
        now_eq := hnow }
    · obtain ⟨htokens, hcalls, hbreakers, houtcome, hnow⟩ :=
        generateStreamFrom_answered [] failures hadmits hs hfailed
      exact {
        tokens_eq := htokens
        calls_eq := by rw [hcalls]; rfl
        breakers_eq := hbreakers.trans (congrArg (fun b => [b]) hbreaker.symm)
        ending_eq := by
          refine houtcome.trans ?_
          cases s.outcome <;> rfl
        now_eq := hnow }

/-- The entry of the primary provider. -/
def primaryEntry (r : GenerationRouter) (name : String) : ChainEntry where
  name := name
  breaker := r.circuitBreakers "nvidia"
  firstTokenTimeoutS := r.firstTokenTimeoutS

/-- The stream of the primary provider, under its deadlines. -/
def primaryStream (r : GenerationRouter) (t : Turn) : Streamed :=
  withDeadlines (t.adapter 0 t.prompt.messages t.params) r.firstTokenTimeoutS r.idleTimeoutS "primary"
    t.now

/-- The primary's circuit is open. -/
theorem generateStream_mirrors_of_open (henabled : r.fallbackEnabled = true)
    (hname : r.fallbackName ≠ "nvidia") (primary fallback : String)
    (hopen : (r.circuitBreakers "nvidia").any (·.isOpen t.now) = true) :
    Mirrors ["nvidia", r.fallbackName] (r.generateStream t)
      ((r.asChain primary fallback).generateStream t) := by
  have hlater := streamFallback_mirrors (t := t) r.circuitBreakers henabled fallback
    { provider := r.fallbackName, fallbackUsed := true, fallbackReason := some "circuit_open" }
    t.now [(primary, "circuit breaker open")]
  rw [ProviderChain.generateStream, generateStream, if_pos hopen]
  apply hlater.behind [] (streamFallback_breaker_of_ne hname.symm _ _)
  all_goals
    simp only [asChain, generateStreamFrom, ChainEntry.attempt, hopen, if_true]
    rfl

/-- The primary has failed before its first token. -/
theorem generateStream_mirrors_of_failed (henabled : r.fallbackEnabled = true)
    (hname : r.fallbackName ≠ "nvidia") (primary fallback : String)
    (hadmits : (r.primaryEntry primary).Admits t.now) (hfailed : (r.primaryStream t).Failed) :
    Mirrors ["nvidia", r.fallbackName] (r.generateStream t)
      ((r.asChain primary fallback).generateStream t) := by
  have hopen : ¬ (r.circuitBreakers "nvidia").any (·.isOpen t.now) = true :=
    Bool.eq_false_iff.mp hadmits
  have hs := withDeadlines_alike (t.adapter 0 t.prompt.messages t.params)
    r.firstTokenTimeoutS r.idleTimeoutS "primary" primary t.now
  rw [ProviderChain.generateStream, generateStream, if_neg hopen]
  dsimp only
  rw [primaryStream] at hfailed
  generalize withDeadlines _ r.firstTokenTimeoutS r.idleTimeoutS "primary" t.now = s
    at hs hfailed ⊢
  have hfirst : heardBy r.circuitBreakers "nvidia" s "nvidia"
      = (r.circuitBreakers "nvidia").map (breakerAfter s) := Function.update_self _ _ _
  have hsecond : heardBy r.circuitBreakers "nvidia" s r.fallbackName
      = r.circuitBreakers r.fallbackName := Function.update_of_ne hname _ _
  obtain ⟨failures', htokens, hcalls, hbreakers, houtcome, hnow⟩ :=
    generateStreamFrom_failed [r.fallbackEntry r.circuitBreakers fallback] [] hadmits hs hfailed
  cases hraised : s.outcome with
  | raised exc =>
    have hlater := streamFallback_mirrors (t := t)
      (heardBy r.circuitBreakers "nvidia" s) henabled fallback
      { provider := r.fallbackName, fallbackUsed := true, fallbackReason := some exc.cls.name }
      s.endTime failures'
    rw [fallbackEntry, hsecond] at hlater
    dsimp only
    rw [if_pos (by rw [hfailed.1]; rfl)]
    exact hlater.behind [(0, t.prompt.messages)]
      ((streamFallback_breaker_of_ne hname.symm _ _).trans hfirst) htokens hcalls hbreakers houtcome hnow
  | _ =>
    have hending := hfailed.2
    rw [hraised] at hending
    cases hending

/-- The primary has answered, or broken off behind a token. -/
theorem generateStream_mirrors_of_answered (hname : r.fallbackName ≠ "nvidia")
    (primary fallback : String)
    (hadmits : (r.primaryEntry primary).Admits t.now) (hfailed : ¬ (r.primaryStream t).Failed) :
    Mirrors ["nvidia", r.fallbackName] (r.generateStream t)
      ((r.asChain primary fallback).generateStream t) := by
  have hopen : ¬ (r.circuitBreakers "nvidia").any (·.isOpen t.now) = true :=
    Bool.eq_false_iff.mp hadmits
  have hs := withDeadlines_alike (t.adapter 0 t.prompt.messages t.params)
    r.firstTokenTimeoutS r.idleTimeoutS "primary" primary t.now
  rw [ProviderChain.generateStream, generateStream, if_neg hopen]
  dsimp only
  rw [primaryStream] at hfailed
  generalize withDeadlines _ r.firstTokenTimeoutS r.idleTimeoutS "primary" t.now = s
    at hs hfailed ⊢
  have hfirst : heardBy r.circuitBreakers "nvidia" s "nvidia"
      = (r.circuitBreakers "nvidia").map (breakerAfter s) := Function.update_self _ _ _
  have hsecond : heardBy r.circuitBreakers "nvidia" s r.fallbackName
      = r.circuitBreakers r.fallbackName := Function.update_of_ne hname _ _
  obtain ⟨htokens, hcalls, hbreakers, houtcome, hnow⟩ :=
    generateStreamFrom_answered [r.fallbackEntry r.circuitBreakers fallback] [] hadmits hs hfailed
  have hprimary : Mirrors ["nvidia", r.fallbackName]
      { tokens := s.tokens.map fun token => (0, token.2)
        calls := [0]
        circuitBreakers := heardBy r.circuitBreakers "nvidia" s
        route := { provider := "primary", fallbackUsed := false, fallbackReason := none }
        now := s.endTime
        outcome := s.outcome } _ :=
    { tokens_eq := htokens
      calls_eq := by rw [hcalls]; rfl
      breakers_eq :=
        hbreakers.trans (congrArg₂ (fun p q => [p, q]) hfirst.symm hsecond.symm)
      ending_eq := houtcome
      now_eq := hnow }
  cases hraised : s.outcome with
  | raised exc =>
    rw [hraised] at hprimary
    dsimp only
    rw [if_neg (by
      intro hempty
      exact hfailed ⟨List.isEmpty_iff.mp hempty, by rw [hraised]; rfl⟩)]
    exact hprimary
  | returned =>
    rw [hraised] at hprimary
    exact hprimary
  | blocked =>
    rw [hraised] at hprimary
    exact hprimary

/-- The chain over the router's two providers, whatever they are called in it,
does what the router does, if the fallback is enabled. A fallback has a breaker
of its own: the settings do not let it be the primary. -/
theorem generateStream_mirrors (henabled : r.fallbackEnabled = true)
    (hname : r.fallbackName ≠ "nvidia") (primary fallback : String) :
    Mirrors ["nvidia", r.fallbackName] (r.generateStream t)
      ((r.asChain primary fallback).generateStream t) := by
  by_cases hopen : (r.circuitBreakers "nvidia").any (·.isOpen t.now) = true
  · exact generateStream_mirrors_of_open henabled hname primary fallback hopen
  · have hadmits : (r.primaryEntry primary).Admits t.now := Bool.eq_false_iff.mpr hopen
    by_cases hfailed : (r.primaryStream t).Failed
    · exact generateStream_mirrors_of_failed henabled hname primary fallback hadmits hfailed
    · exact generateStream_mirrors_of_answered hname primary fallback hadmits hfailed

/-- The router with its default settings, before its first turn. -/
def freshRouter : GenerationRouter where
  circuitBreakers name := some (CircuitBreaker.fresh name {})

/-- The first provider fails after a token, the second one answers. -/
def brokenOff : Turn where
  prompt := {}
  params := {}
  now := 0
  adapter
    | 0 => fun _ _ =>
      { tokens := [(1, "Hel")]
        ending := .fail 1 { cls := .providerError, message := "stream reset" } }
    | _ => fun _ _ => { tokens := [(1, "Hello")], ending := .stop 1 }

theorem brokenOff_mirrors :
    Mirrors ["nvidia", "gemini"] (freshRouter.generateStream brokenOff)
      ((freshRouter.asChain "nvidia" "gemini").generateStream brokenOff) :=
  generateStream_mirrors (r := freshRouter) rfl (by decide) "nvidia" "gemini"

end GenerationRouter

end LlmService
