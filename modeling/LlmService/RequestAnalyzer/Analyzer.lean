import LlmService.Lib.Cascade
import LlmService.RequestAnalyzer.Plan
import LlmService.Utils.CircuitBreaker
import LlmService.Utils.RetryManager

/-!
# RequestAnalyzer

`request_analyzer/analyzer.py`: the upstreams are asked one after another for
a plan, Groq first, behind its breaker and with retries, and what none of them
gives is the safe default. An analysis is a script: others run between its
commands, and share the breaker with it. The upstreams, and when an `await` is
cancelled, are environment.
-/

namespace LlmService

open Script

/-! ## Upstreams -/

/-- Who is asked for a plan: Groq's primary model, its other models, the other providers, and
NVIDIA. -/
inductive Upstream where
  | groq
  | client (i : Nat)
  | adapter (i : Nat)
  | nvidia
  deriving DecidableEq, Repr

/-- What `chat.completions.create` raises, as `complete` tells it apart. -/
inductive GroqFailure where
  | rateLimit
  | timeout
  | api (message : String) (statusCode : Option Nat)
  | unexpected (message : String)
  | cancelled

/-- What a provider's `execute` returns. -/
structure Completion where
  content : Text
  model : String

structure GroqAnalysisClient where
  model : String := "openai/gpt-oss-20b"
  timeoutMs : Nat := 3000

namespace GroqAnalysisClient

def unexpectedFailure (message : String) : Exc where
  cls := .providerError
  message := s!"Unexpected Groq client failure: {message}"
  errorCode := some "PROVIDER_ERROR"

/-- `complete`, on what Groq answers. -/
def complete (client : GroqAnalysisClient) : Except GroqFailure (Option Text) → Except PyRaise Text
  | .ok content =>
    if content.getD [] = [] then
      .error (.exception (unexpectedFailure "[PROVIDER_ERROR] Groq returned empty response content"))
    else .ok (content.getD [])
  -- its class takes no status code, so that what is raised is not the error that is written
  | .error .rateLimit =>
    .error (.exception {
      cls := .typeError
      message := "ProviderRateLimitError.__init__() got an unexpected keyword argument 'status_code'" })
  | .error .timeout =>
    .error (.exception {
      cls := .providerTimeoutError
      message := s!"Groq request timed out after {client.timeoutMs}ms"
      errorCode := some "PROVIDER_TIMEOUT" })
  | .error (.api message statusCode) =>
    .error (.exception {
      cls := .providerError, message := s!"Groq API error: {message}"
      errorCode := some "PROVIDER_ERROR", statusCode })
  | .error (.unexpected message) => .error (.exception (unexpectedFailure message))
  | .error .cancelled => .error .cancelled

end GroqAnalysisClient

/-! ## Commands -/

/-- What an analysis does where others see it, or see to it. -/
inductive AnalysisCommand where
  /-- The part of `circuit_breaker.call()` before its body. -/
  | enter
  /-- The part behind its body, with how that has ended. -/
  | exit (body : Except Exc Unit)
  | ask (u : Upstream)
  /-- The sleep behind a failed attempt. -/
  | sleep (attempt : Nat)

/-- What is answered: a fallback model may be waited for in vain, and a sleep be cancelled. -/
@[reducible] def AnalysisReply : AnalysisCommand → Type
  | .enter => Except Exc Unit
  | .exit _ => Unit
  | .ask .groq => Except GroqFailure (Option Text)
  | .ask (.client _) => Option (Except GroqFailure (Option Text))
  | .ask (.adapter _) => Except PyRaise Completion
  | .ask .nvidia => Except PyRaise Completion
  | .sleep _ => Bool

abbrev AnalysisScript := Script AnalysisReply PyRaise

abbrev AnalysisTrace := List (Σ c, AnalysisReply c)

structure RequestAnalyzer where
  groqClient : GroqAnalysisClient := {}
  fallbackClients : List GroqAnalysisClient := []
  /-- How many `fallback_adapters` there are. -/
  fallbackAdapters : Nat := 0
  /-- Whether there is an `nvidia_adapter`. -/
  nvidia : Bool := false
  retryPolicy : RetryPolicy := { maxAttempts := 2 }
  config : AnalysisConfig := {}
  lax : LaxScalars
  floatText : List Char → List Char

namespace RequestAnalyzer

variable (an : RequestAnalyzer)

/-- `asyncio.TimeoutError` -/
def waitedInVain : PyRaise := .exception { cls := .timeoutError }

/-- What the analysis hears of an upstream's answer. -/
def heard : (u : Upstream) → AnalysisReply (.ask u) → Except PyRaise Completion
  | .groq, reply => (an.groqClient.complete reply).map fun content => ⟨content, an.groqClient.model⟩
  | .client i, some reply =>
    let client := (an.fallbackClients[i]?).getD {}
    (client.complete reply).map fun content => ⟨content, client.model⟩
  | .client _, none => .error waitedInVain
  | .adapter _, reply => reply
  | .nvidia, reply => reply

def ask (u : Upstream) : AnalysisScript Completion := do
  match an.heard u (← command (R := AnalysisReply) (.ask u)) with
  | .ok completion => return completion
  | .error raised => throw raised

def sleep (attempt : Nat) : AnalysisScript Unit := do
  match ← command (R := AnalysisReply) (.sleep attempt) with
  | true => return ()
  | false => throw .cancelled

/-- `_call_groq`. -/
def callGroq : AnalysisScript Completion := do
  match ← command (R := AnalysisReply) .enter with
  | .error exc => throw (.exception exc)
  | .ok _ =>
    let completion ← tryCatch (RetryManager.executeWithRetry an.retryPolicy sleep (an.ask .groq))
      fun raised => do
        match raised with
        | .exception exc =>
          let _ ← command (R := AnalysisReply) (.exit (.error exc))
          throw raised
        | .cancelled => throw raised
    let _ ← command (R := AnalysisReply) (.exit (.ok ()))
    return completion

/-- `_finalize_plan` -/
def finalizePlan (fileIds : List String) (completion : Completion) : Option AnalysisPlan :=
  AnalysisPlan.finalize an.lax an.floatText an.config fileIds completion.content completion.model

/-- The `try` block around an upstream: an `Exception`, of the upstream or of the plan, gives
nothing. -/
def attempt (fileIds : List String) (call : AnalysisScript Completion) :
    AnalysisScript (Option AnalysisPlan) :=
  tryCatch (do return an.finalizePlan fileIds (← call)) fun raised =>
    match raised with
    | .exception _ => return none
    | .cancelled => throw .cancelled

/-- Who is asked behind Groq. -/
def fallbacks : List Upstream :=
  (List.range an.fallbackClients.length).map .client
    ++ ((List.range an.fallbackAdapters).map .adapter ++ if an.nvidia then [.nvidia] else [])

/-- `analyze`. -/
def analyze (fileIds : List String) : AnalysisScript AnalysisPlan := do
  let stages := an.attempt fileIds an.callGroq :: an.fallbacks.map fun u => an.attempt fileIds (an.ask u)
  return (← firstOf stages).getD safeDefaultPlan

/-! ## What is asked, and what comes of it -/

/-- The plan that an answer is good for. -/
def planOf (fileIds : List String) (u : Upstream) (reply : AnalysisReply (.ask u)) : Option AnalysisPlan :=
  match an.heard u reply with
  | .ok completion => an.finalizePlan fileIds completion
  | .error _ => none

/-- The upstreams that a trace asks, each with the plan that its answer is good for. -/
def answers (fileIds : List String) (t : AnalysisTrace) : List (Upstream × Option AnalysisPlan) :=
  t.filterMap fun step =>
    match step with
    | ⟨.ask u, reply⟩ => some (u, an.planOf fileIds u reply)
    | _ => none

/-- Along the trace, an `await` is cancelled. -/
def Cancelled (t : AnalysisTrace) : Prop :=
  ∃ step ∈ t, match step with
    | ⟨.ask u, reply⟩ => an.heard u reply = .error .cancelled
    | ⟨.sleep _, slept⟩ => slept = false
    | _ => False

section Traces

variable {an} {fileIds : List String} {u : Upstream} {t t₁ t₂ : AnalysisTrace}
  {r : Except PyRaise Completion} {given : Except PyRaise (Option AnalysisPlan)}

@[simp] theorem answers_nil : an.answers fileIds [] = [] := rfl

theorem answers_append : an.answers fileIds (t₁ ++ t₂) = an.answers fileIds t₁ ++ an.answers fileIds t₂ :=
  List.filterMap_append

theorem Cancelled.left (h : an.Cancelled t₁) : an.Cancelled (t₁ ++ t₂) := by
  obtain ⟨step, hstep, hcancelled⟩ := h
  exact ⟨step, List.mem_append_left t₂ hstep, hcancelled⟩

theorem Cancelled.right (h : an.Cancelled t₂) : an.Cancelled (t₁ ++ t₂) := by
  obtain ⟨step, hstep, hcancelled⟩ := h
  exact ⟨step, List.mem_append_right t₁ hstep, hcancelled⟩

theorem trace_ask (h : (an.ask u).Trace t r) :
    ∃ reply, t = [⟨.ask u, reply⟩] ∧ r = an.heard u reply := by
  obtain ⟨reply, t', rfl, hrest⟩ := trace_command_bind_iff.mp h
  refine ⟨reply, ?_⟩
  cases hheard : an.heard u reply with
  | ok completion =>
    rw [hheard] at hrest
    obtain ⟨rfl, rfl⟩ := trace_pure_iff.mp hrest
    exact ⟨rfl, rfl⟩
  | error raised =>
    rw [hheard] at hrest
    obtain ⟨rfl, rfl⟩ := trace_throw_iff.mp hrest
    exact ⟨rfl, rfl⟩

theorem trace_sleep {attempt : Nat} {r : Except PyRaise Unit} (h : (sleep attempt).Trace t r) :
    ∃ slept : Bool, t = [⟨.sleep attempt, slept⟩] ∧ r = if slept then .ok () else .error .cancelled := by
  obtain ⟨slept, t', rfl, hrest⟩ := trace_command_bind_iff.mp h
  refine ⟨slept, ?_⟩
  cases slept with
  | true =>
    obtain ⟨rfl, rfl⟩ := trace_pure_iff.mp hrest
    exact ⟨rfl, rfl⟩
  | false =>
    obtain ⟨rfl, rfl⟩ := trace_throw_iff.mp hrest
    exact ⟨rfl, rfl⟩

/-- What the `try` block makes of what an upstream gives. -/
def tried (an : RequestAnalyzer) (fileIds : List String) :
    Except PyRaise Completion → Except PyRaise (Option AnalysisPlan)
  | .ok completion => .ok (an.finalizePlan fileIds completion)
  | .error (.exception _) => .ok none
  | .error .cancelled => .error .cancelled

theorem trace_attempt {call : AnalysisScript Completion} (h : (an.attempt fileIds call).Trace t given) :
    ∃ r, call.Trace t r ∧ given = an.tried fileIds r := by
  rcases trace_handle_iff.mp h with ⟨plan, hcall, rfl⟩ | ⟨raised, u, v, hcall, hrest, rfl⟩
  · obtain ⟨completion, u, v, hcompletion, hpure, rfl⟩ := trace_bind_ok_iff.mp hcall
    obtain ⟨rfl, hplan⟩ := trace_pure_iff.mp hpure
    rw [List.append_nil]
    exact ⟨.ok completion, hcompletion, hplan⟩
  · rcases trace_bind_iff.mp hcall with ⟨e, he, hraised⟩ | ⟨completion, u', v', -, hpure, -⟩
    · obtain rfl := Except.error.inj hraised
      cases raised with
      | exception exc =>
        obtain ⟨rfl, rfl⟩ := trace_pure_iff.mp hrest
        rw [List.append_nil]
        exact ⟨_, he, rfl⟩
      | cancelled =>
        obtain ⟨rfl, rfl⟩ := trace_throw_iff.mp hrest
        rw [List.append_nil]
        exact ⟨_, he, rfl⟩
    · cases (trace_pure_iff.mp hpure).2

/-- How a part of an analysis ends: what it gives is in its last answer, and an exception is a
cancellation. -/
def Outcome (an : RequestAnalyzer) (fileIds : List String) (t : AnalysisTrace) :
    Except PyRaise (Option AnalysisPlan) → Prop
  | .ok given => Settled (an.answers fileIds t) given
  | .error raised => raised = .cancelled ∧ an.Cancelled t

/-- Behind a part that gives nothing, the next one decides. -/
theorem Outcome.append (h : an.Outcome fileIds t₁ (.ok none)) (h' : an.Outcome fileIds t₂ given) :
    an.Outcome fileIds (t₁ ++ t₂) given := by
  cases given with
  | ok plan =>
    show Settled (an.answers fileIds (t₁ ++ t₂)) plan
    rw [answers_append]
    exact Settled.append h h'
  | error raised => exact ⟨h'.1, h'.2.right⟩

/-- A step that asks nobody has no say. -/
theorem Outcome.behind {step : Σ c, AnalysisReply c} (hquiet : an.answers fileIds [step] = [])
    (h : an.Outcome fileIds t given) : an.Outcome fileIds (step :: t) given := by
  have hnone : an.Outcome fileIds [step] (.ok none) := by
    show Settled (an.answers fileIds [step]) none
    rw [hquiet]
    exact settled_nil
  exact hnone.append h

/-- A part in which nobody is asked has no say. -/
theorem Outcome.quiet (hquiet : an.answers fileIds t₂ = []) (h : an.Outcome fileIds t₁ given) :
    an.Outcome fileIds (t₁ ++ t₂) given := by
  cases given with
  | ok plan =>
    show Settled (an.answers fileIds (t₁ ++ t₂)) plan
    rw [answers_append, hquiet, List.append_nil]
    exact h
  | error raised => exact ⟨h.1, h.2.left⟩

theorem outcome_ask (fileIds : List String) (h : (an.ask u).Trace t r) :
    (an.answers fileIds t).map Prod.fst = [u] ∧ an.Outcome fileIds t (an.tried fileIds r) := by
  obtain ⟨reply, rfl, rfl⟩ := trace_ask h
  refine ⟨rfl, ?_⟩
  have hsettled := settled_singleton (u, an.planOf fileIds u reply)
  cases hheard : an.heard u reply with
  | ok completion =>
    rw [planOf, hheard] at hsettled
    show Settled [(u, an.planOf fileIds u reply)] _
    rw [planOf, hheard]
    exact hsettled
  | error raised =>
    cases raised with
    | exception exc =>
      rw [planOf, hheard] at hsettled
      show Settled [(u, an.planOf fileIds u reply)] _
      rw [planOf, hheard]
      exact hsettled
    | cancelled => exact ⟨rfl, _, List.mem_cons_self, hheard⟩

/-- Groq is asked once for every attempt, and only the last attempt counts. -/
theorem outcome_attempts (fileIds : List String) {n left : Nat}
    (h : RetryManager.Attempts an.retryPolicy sleep (an.ask .groq) n left t r) :
    (∃ k ≤ left, (an.answers fileIds t).map Prod.fst = List.replicate (k + 1) .groq) ∧
      an.Outcome fileIds t (an.tried fileIds r) := by
  induction h with
  | last hfunc =>
    obtain ⟨hasked, houtcome⟩ := outcome_ask fileIds hfunc
    exact ⟨⟨0, Nat.zero_le _, hasked⟩, houtcome⟩
  | again hfunc hretry hsleep hloop ih =>
    obtain ⟨hasked, houtcome⟩ := outcome_ask fileIds hfunc
    obtain ⟨slept, rfl, -⟩ := trace_sleep hsleep
    obtain ⟨⟨k, hk, hrest⟩, hlater⟩ := ih
    refine ⟨⟨k + 1, Nat.succ_le_succ hk, ?_⟩, ?_⟩
    · rw [answers_append, List.map_append, hasked, List.replicate_succ (n := k + 1), ← hrest]
      rfl
    · exact houtcome.append (hlater.behind rfl)
  | woken hfunc hretry hsleep =>
    obtain ⟨hasked, houtcome⟩ := outcome_ask fileIds hfunc
    obtain ⟨slept, rfl, hslept⟩ := trace_sleep hsleep
    refine ⟨⟨0, Nat.zero_le _, ?_⟩, ?_⟩
    · rw [answers_append, List.map_append, hasked]
      rfl
    · cases slept with
      | true => cases hslept
      | false =>
        obtain rfl := Except.error.inj hslept
        exact ⟨rfl, Cancelled.right ⟨_, List.mem_cons_self, rfl⟩⟩

/-- The breaker lets the analysis in. -/
def Entered (t : AnalysisTrace) : Prop := ⟨.enter, .ok ()⟩ ∈ t

/-- What the breaker is told of how its body has ended: nothing of a cancellation. -/
def exits : Except PyRaise Completion → AnalysisTrace
  | .ok _ => [⟨.exit (.ok ()), ()⟩]
  | .error (.exception exc) => [⟨.exit (.error exc), ()⟩]
  | .error .cancelled => []

/-- The breaker refuses, or Groq is asked with retries and the breaker is told of the end. -/
theorem trace_callGroq (h : an.callGroq.Trace t r) :
    (∃ exc, t = [⟨.enter, .error exc⟩] ∧ r = .error (.exception exc)) ∨
      ∃ u, t = ⟨.enter, .ok ()⟩ :: (u ++ exits r) ∧
        (RetryManager.executeWithRetry an.retryPolicy sleep (an.ask .groq)).Trace u r := by
  obtain ⟨entered, t', rfl, hrest⟩ := trace_command_bind_iff.mp h
  cases entered with
  | error exc =>
    obtain ⟨rfl, rfl⟩ := trace_throw_iff.mp hrest
    exact .inl ⟨exc, rfl, rfl⟩
  | ok _ =>
    right
    rcases trace_bind_iff.mp hrest with ⟨raised, hbody, rfl⟩ | ⟨completion, u, v, hbody, hexit, rfl⟩
    · rcases trace_handle_iff.mp hbody with ⟨a, -, ha⟩ | ⟨raised', u, v, hloop, hhandler, rfl⟩
      · cases ha
      · refine ⟨u, ?_⟩
        cases raised' with
        | exception exc =>
          obtain ⟨_, v', rfl, hthrow⟩ := trace_command_bind_iff.mp hhandler
          obtain ⟨rfl, hraised⟩ := trace_throw_iff.mp hthrow
          obtain rfl := Except.error.inj hraised
          exact ⟨rfl, hloop⟩
        | cancelled =>
          obtain ⟨rfl, hraised⟩ := trace_throw_iff.mp hhandler
          obtain rfl := Except.error.inj hraised
          exact ⟨rfl, hloop⟩
    · obtain ⟨_, v', rfl, hpure⟩ := trace_command_bind_iff.mp hexit
      obtain ⟨rfl, rfl⟩ := trace_pure_iff.mp hpure
      rcases trace_handle_iff.mp hbody with ⟨a, hloop, ha⟩ | ⟨raised', u', w, hloop, hhandler, rfl⟩
      · obtain rfl := Except.ok.inj ha
        exact ⟨u, rfl, hloop⟩
      · cases raised' with
        | exception exc =>
          obtain ⟨_, v', rfl, hthrow⟩ := trace_command_bind_iff.mp hhandler
          cases (trace_throw_iff.mp hthrow).2
        | cancelled => cases (trace_throw_iff.mp hhandler).2

/-- Groq is asked as often as it is retried, if the breaker lets the analysis in. -/
theorem outcome_callGroq (fileIds : List String) (h : an.callGroq.Trace t r) :
    (∃ k ≤ an.retryPolicy.maxAttempts, (an.answers fileIds t).map Prod.fst = List.replicate k .groq ∧
      (0 < k ↔ Entered t)) ∧ an.Outcome fileIds t (an.tried fileIds r) := by
  rcases trace_callGroq h with ⟨exc, rfl, rfl⟩ | ⟨u, rfl, hloop⟩
  · refine ⟨⟨0, Nat.zero_le _, rfl, ?_⟩, settled_nil⟩
    rw [Entered, List.mem_singleton]
    exact ⟨fun h => absurd h (Nat.lt_irrefl 0), fun h => by cases h⟩
  · have hpos := an.retryPolicy.attempts_pos
    obtain ⟨⟨k, hk, hasked⟩, houtcome⟩ :=
      outcome_attempts fileIds (RetryManager.attempts_of_trace hloop)
    have hquiet : an.answers fileIds (exits r) = [] := by
      cases r with
      | ok completion => rfl
      | error raised =>
        cases raised with
        | exception exc => rfl
        | cancelled => rfl
    refine ⟨⟨k + 1, by omega, ?_, fun _ => List.mem_cons_self, fun _ => Nat.succ_pos k⟩,
      (houtcome.quiet hquiet).behind rfl⟩
    show (an.answers fileIds (u ++ exits r)).map Prod.fst = _
    rw [answers_append, hquiet, List.append_nil, hasked]

/-- Somebody is asked, and nothing else is done. -/
def OnlyAsks (t : AnalysisTrace) : Prop := ∀ step ∈ t, ∃ u, step.1 = .ask u

theorem OnlyAsks.not_entered (h : OnlyAsks t) : ¬ Entered t := by
  intro hentered
  obtain ⟨u, hu⟩ := h _ hentered
  cases hu

/-- The fallbacks are asked in turn, until one of them gives a plan. -/
theorem outcome_fallbacks {us : List Upstream}
    (h : (firstOf (us.map fun u => an.attempt fileIds (an.ask u))).Trace t given) :
    OnlyAsks t ∧ ∃ m, (an.answers fileIds t).map Prod.fst = us.take m ∧ an.Outcome fileIds t given ∧
      (given = .ok none → us.take m = us) := by
  have honly : ∀ {u t r}, (an.ask u).Trace t r → OnlyAsks t := by
    intro u t r hask step hstep
    obtain ⟨reply, rfl, -⟩ := trace_ask hask
    rw [List.mem_singleton.mp hstep]
    exact ⟨u, rfl⟩
  induction us generalizing t with
  | nil =>
    obtain ⟨rfl, rfl⟩ := trace_pure_iff.mp h
    exact ⟨List.forall_mem_nil _, 0, rfl, settled_nil, fun _ => rfl⟩
  | cons u us ih =>
    rw [List.map_cons] at h
    rcases trace_firstOf_cons_iff.mp h with ⟨htrace, hgiven⟩ | ⟨t₁, t₂, hnone, hrest, rfl⟩
    · obtain ⟨r, hask, rfl⟩ := trace_attempt htrace
      obtain ⟨hasked, houtcome⟩ := outcome_ask fileIds hask
      exact ⟨honly hask, 1, hasked, houtcome, fun h => absurd h hgiven⟩
    · obtain ⟨r, hask, htried⟩ := trace_attempt hnone
      obtain ⟨hasked, houtcome⟩ := outcome_ask fileIds hask
      obtain ⟨hasks, m, hlater, houtcome', hall⟩ := ih hrest
      rw [← htried] at houtcome
      refine ⟨List.forall_mem_append.mpr ⟨honly hask, hasks⟩, m + 1, ?_, houtcome.append houtcome',
        fun h => congrArg (u :: ·) (hall h)⟩
      rw [answers_append, List.map_append, hasked, hlater]
      rfl

/-- The two parts of an analysis: Groq's, and the fallbacks' if Groq gives nothing. -/
theorem trace_stages (h : (firstOf (an.attempt fileIds an.callGroq ::
      an.fallbacks.map fun u => an.attempt fileIds (an.ask u))).Trace t given) :
    ∃ t₁ t₂ r, t = t₁ ++ t₂ ∧ an.callGroq.Trace t₁ r ∧
      ((t₂ = [] ∧ given = an.tried fileIds r ∧ given ≠ .ok none) ∨
        (an.tried fileIds r = .ok none ∧
          (firstOf (an.fallbacks.map fun u => an.attempt fileIds (an.ask u))).Trace t₂ given)) := by
  rcases trace_firstOf_cons_iff.mp h with ⟨htrace, hends⟩ | ⟨t₁, t₂, hnone, hrest, rfl⟩
  · obtain ⟨r, hcall, rfl⟩ := trace_attempt htrace
    exact ⟨t, [], r, (List.append_nil t).symm, hcall, .inl ⟨rfl, rfl, hends⟩⟩
  · obtain ⟨r, hcall, htried⟩ := trace_attempt hnone
    exact ⟨t₁, t₂, r, rfl, hcall, .inr ⟨htried.symm, hrest⟩⟩

theorem trace_analyze {r : Except PyRaise AnalysisPlan} (h : (an.analyze fileIds).Trace t r) :
    ∃ given, (firstOf (an.attempt fileIds an.callGroq ::
        an.fallbacks.map fun u => an.attempt fileIds (an.ask u))).Trace t given ∧
      r = given.map (·.getD safeDefaultPlan) := by
  rcases trace_bind_iff.mp h with ⟨raised, hraised, rfl⟩ | ⟨given, u, v, hgiven, hpure, rfl⟩
  · exact ⟨_, hraised, rfl⟩
  · obtain ⟨rfl, rfl⟩ := trace_pure_iff.mp hpure
    rw [List.append_nil]
    exact ⟨_, hgiven, rfl⟩

/-- Who is asked along an analysis: Groq, if the breaker lets the analysis in, and some of the fallbacks. -/
theorem outcome_stages (h : (firstOf (an.attempt fileIds an.callGroq ::
      an.fallbacks.map fun u => an.attempt fileIds (an.ask u))).Trace t given) :
    ∃ k m, k ≤ an.retryPolicy.maxAttempts ∧ (0 < k ↔ Entered t) ∧
      (an.answers fileIds t).map Prod.fst = List.replicate k .groq ++ an.fallbacks.take m ∧
      an.Outcome fileIds t given ∧ (given = .ok none → an.fallbacks.take m = an.fallbacks) := by
  obtain ⟨t₁, t₂, r, rfl, hcall, hrest⟩ := trace_stages h
  obtain ⟨⟨k, hk, hasked, hentered⟩, houtcome⟩ := outcome_callGroq fileIds hcall
  rcases hrest with ⟨rfl, rfl, hends⟩ | ⟨htried, hfallbacks⟩
  · rw [List.append_nil]
    refine ⟨k, 0, hk, hentered, ?_, houtcome, fun h => absurd h hends⟩
    rw [List.take_zero, List.append_nil, hasked]
  · obtain ⟨hasks, m, hlater, houtcome', hall⟩ := outcome_fallbacks hfallbacks
    rw [htried] at houtcome
    refine ⟨k, m, hk, ?_, ?_, houtcome.append houtcome', hall⟩
    · rw [hentered]
      exact (List.mem_append.trans (or_iff_left hasks.not_entered)).symm
    · rw [answers_append, List.map_append, hasked, hlater]

/-- A plan that is in an answer keeps to the safety rules. -/
theorem safe_of_mem_answers {plan : AnalysisPlan} {a : Upstream × Option AnalysisPlan}
    (ha : a ∈ an.answers fileIds t) (hplan : a.2 = some plan) : plan.Safe an.config fileIds := by
  obtain ⟨step, -, hstep⟩ := List.mem_filterMap.mp ha
  obtain ⟨c, reply⟩ := step
  cases c with
  | ask u =>
    obtain rfl := Option.some.inj hstep
    change an.planOf fileIds u reply = some plan at hplan
    rw [planOf] at hplan
    cases hheard : an.heard u reply with
    | ok completion =>
      rw [hheard] at hplan
      exact AnalysisPlan.safe_of_finalize hplan
    | error raised =>
      rw [hheard] at hplan
      cases hplan
  | enter | exit body | sleep n => cases hstep

theorem safe_of_settled {given : Option AnalysisPlan} (h : Settled (an.answers fileIds t) given) :
    (given.getD safeDefaultPlan).Safe an.config fileIds := by
  cases given with
  | none => exact AnalysisPlan.safe_safeDefaultPlan an.config fileIds
  | some plan =>
    obtain ⟨a, ha, hplan⟩ := Option.bind_eq_some_iff.mp h.2.symm
    exact safe_of_mem_answers (List.mem_of_getLast? ha) hplan

/-- The plan that an analysis returns keeps to the safety rules. -/
theorem safe_of_analyze {plan : AnalysisPlan} (h : (an.analyze fileIds).Trace t (.ok plan)) :
    plan.Safe an.config fileIds := by
  obtain ⟨given, hstages, hgiven⟩ := trace_analyze h
  obtain ⟨k, m, -, -, -, houtcome, -⟩ := outcome_stages hstages
  cases given with
  | error raised => cases hgiven
  | ok given =>
    obtain rfl := Except.ok.inj hgiven
    exact safe_of_settled houtcome

/-- An analysis asks Groq if the breaker lets it in, as often as it is retried, and then the fallbacks
in their order, until one of the answers is good for a plan. Unless it is cancelled it returns that
plan, and the safe default if there is none; the plan keeps to the safety rules. -/
theorem analyze_settled {r : Except PyRaise AnalysisPlan} (h : (an.analyze fileIds).Trace t r) :
    ∃ k m, k ≤ an.retryPolicy.maxAttempts ∧ (0 < k ↔ Entered t) ∧
      (an.answers fileIds t).map Prod.fst = List.replicate k .groq ++ an.fallbacks.take m ∧
      ((r = .error .cancelled ∧ an.Cancelled t) ∨
        ∃ given, r = .ok (given.getD safeDefaultPlan) ∧ Settled (an.answers fileIds t) given ∧
          (given = none → an.fallbacks.take m = an.fallbacks) ∧
          (given.getD safeDefaultPlan).Safe an.config fileIds) := by
  obtain ⟨given, hstages, rfl⟩ := trace_analyze h
  obtain ⟨k, m, hk, hentered, hasked, houtcome, hall⟩ := outcome_stages hstages
  refine ⟨k, m, hk, hentered, hasked, ?_⟩
  cases given with
  | error raised =>
    obtain ⟨rfl, hcancelled⟩ := houtcome
    exact .inl ⟨rfl, hcancelled⟩
  | ok given =>
    exact .inr ⟨given, rfl, houtcome, fun h => hall (congrArg _ h), safe_of_settled houtcome⟩

end Traces

/-- Scalars are read as they stand. -/
def strictScalars : LaxScalars where
  asBool value := match value with
    | .bool b => some b
    | _ => none
  asInt value := match value with
    | .int n => some n
    | _ => none
  asFloat value := match value with
    | .int n => some (.finite n)
    | _ => none
  floatOf _ := .nan

/-- An analyser with one other model of Groq's. -/
def twoModels : RequestAnalyzer where
  fallbackClients := [{ model := "llama-3.1-8b-instant" }]
  lax := strictScalars
  floatText := id

/-- Groq's limit is reached, and the other model answers with an empty object in a sentence. -/
def limitReached : (c : AnalysisCommand) → AnalysisReply c
  | .enter => .ok ()
  | .exit _ => ()
  | .ask .groq => .error .rateLimit
  | .ask (.client _) => some (.ok (some ['A', ' ', '{', '}', ' ', 'B']))
  | .ask (.adapter _) => .error .cancelled
  | .ask .nvidia => .error .cancelled
  | .sleep _ => true

/-- The analysis of a message without files. -/
def limitedRun : AnalysisTrace × Except PyRaise AnalysisPlan := (twoModels.analyze []).follow limitReached

theorem analyze_settled_limitedRun :
    ∃ k m, k ≤ 2 ∧ (0 < k ↔ Entered limitedRun.1) ∧
      (twoModels.answers [] limitedRun.1).map Prod.fst = List.replicate k .groq ++ twoModels.fallbacks.take m ∧
      ((limitedRun.2 = .error .cancelled ∧ twoModels.Cancelled limitedRun.1) ∨
        ∃ given, limitedRun.2 = .ok (given.getD safeDefaultPlan) ∧
          Settled (twoModels.answers [] limitedRun.1) given ∧
          (given = none → twoModels.fallbacks.take m = twoModels.fallbacks) ∧
          (given.getD safeDefaultPlan).Safe {} []) :=
  analyze_settled (trace_follow limitReached (twoModels.analyze []))

end RequestAnalyzer

end LlmService
