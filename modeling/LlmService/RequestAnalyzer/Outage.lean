import LlmService.Lib.Provenance
import LlmService.RequestAnalyzer.Analyzer

/-!
# Analyses beside one another

All the analyses of a service share one breaker. It counts the timeouts of
Groq, and nothing else that Groq may do; and once it is open, until its
recovery timeout is over, only the analyses that were under way ask Groq, and
those no more often than they are retried.
-/

namespace LlmService

open Script Runs

/-- What the analyses share: the breaker, and the clock. -/
structure AnalysisWorld where
  breaker : CircuitBreaker
  now : Seconds

/-- Time passes. -/
inductive AnalysisEvent where
  | tick (elapsed : Seconds)

namespace AnalysisWorld

/-- A command is answered by the breaker, or by who is asked. -/
def exec (c : AnalysisCommand) (answer : (c : AnalysisCommand) → AnalysisReply c) (w : AnalysisWorld) :
    Option (AnalysisReply c × AnalysisWorld) :=
  match c with
  | .enter =>
    match w.breaker.callEnter w.now with
    | .ok b => some (.ok (), { w with breaker := b })
    | .error exc => some (.error exc, w)
  | .exit body => some ((), { w with breaker := w.breaker.callExit w.now body })
  | .ask u => some (answer (.ask u), w)
  | .sleep n => some (answer (.sleep n), w)

def disturb : AnalysisEvent → AnalysisWorld → Option AnalysisWorld
  | .tick elapsed, w => if 0 ≤ elapsed then some { w with now := w.now + elapsed } else none

end AnalysisWorld

abbrev Analyses := Pool AnalysisWorld (AnalysisScript AnalysisPlan)

abbrev AnalysisLabel := Pool.Label ((c : AnalysisCommand) → AnalysisReply c) AnalysisEvent

namespace Analyses

def step : Analyses → AnalysisLabel → Option Analyses := Pool.step AnalysisWorld.exec AnalysisWorld.disturb

/-- What is performed along a run, with the answers. -/
def performed : Analyses → List AnalysisLabel → AnalysisTrace :=
  Pool.performed AnalysisWorld.exec AnalysisWorld.disturb

/-- What one analysis performs along a run. -/
def performedBy (i : Nat) : Analyses → List AnalysisLabel → AnalysisTrace :=
  Pool.performedBy AnalysisWorld.exec AnalysisWorld.disturb i

/-- The analyses that are to come, each with the files of its message; the breaker is fresh. -/
def initial (an : RequestAnalyzer) (config : CircuitBreakerConfig) (start : Seconds)
    (requests : List (List String)) : Analyses where
  shared := { breaker := .fresh "groq" config, now := start }
  scripts := requests.map an.analyze

/-- What costs a request to Groq's primary model. -/
def asksGroq : AnalysisCommand → Nat
  | .ask .groq => 1
  | _ => 0

/-- What the breaker counts as a failure. -/
def counted : AnalysisCommand → Nat
  | .exit (.error exc) => if isRetriable none exc then 1 else 0
  | _ => 0

/-- The analysis at `i` has been begun, and has not come to its end. -/
def underWay (l : List AnalysisLabel) (s : Analyses) (i : Nat) : Bool :=
  Pool.begun l i && match s.scripts[i]? with
    | some p => !decide p.Finished
    | none => false

/-- What a Groq rate limit is answered by. -/
def limitReply : Σ c, AnalysisReply c := ⟨.ask .groq, .error .rateLimit⟩

/-- What the constructor of `ProviderRateLimitError` raises. -/
def limitError : Exc where
  cls := .typeError
  message := "ProviderRateLimitError.__init__() got an unexpected keyword argument 'status_code'"

/-- Behind a rate limit, the breaker is told of the constructor's `TypeError`. -/
def Surfaces (x y : Σ c, AnalysisReply c) : Prop := x = limitReply → y = ⟨.exit (.error limitError), ()⟩

/-- How many analyses are under way. -/
def countUnderWay (l : List AnalysisLabel) (s : Analyses) : Nat :=
  ((Finset.range s.scripts.length).filter fun i => underWay l s i).card

end Analyses

/-! ## One analysis -/

namespace RequestAnalyzer

open Analyses (asksGroq counted limitReply limitError Surfaces)

section Prices

variable {an : RequestAnalyzer} {fileIds : List String} {t : AnalysisTrace}

/-- The price in requests to Groq is how often Groq is asked. -/
theorem price_asksGroq (an : RequestAnalyzer) (fileIds : List String) (t : AnalysisTrace) :
    price asksGroq t = ((an.answers fileIds t).map Prod.fst).count .groq := by
  induction t with
  | nil => rfl
  | cons step t ih =>
    obtain ⟨c, reply⟩ := step
    rw [price_cons, ih]
    cases c with
    | ask u =>
      show asksGroq (.ask u) + _ = ((u :: (an.answers fileIds t).map Prod.fst).count .groq)
      cases u with
      | groq => rw [List.count_cons_self, Nat.add_comm]; rfl
      | client i | adapter i | nvidia =>
        rw [List.count_cons_of_ne (by simp), asksGroq]
        · exact Nat.zero_add _
        · simp
    | enter | exit body | sleep n => exact Nat.zero_add _

theorem count_fallbacks (m : Nat) : (an.fallbacks.take m).count .groq = 0 := by
  refine List.count_eq_zero_of_not_mem fun hmem => ?_
  have hgroq := List.mem_of_mem_take hmem
  simp [fallbacks] at hgroq

/-- An analysis asks Groq as often as it is retried, and not at all where the breaker refuses. -/
theorem price_asksGroq_analyze {r : Except PyRaise AnalysisPlan} (h : (an.analyze fileIds).Trace t r) :
    price asksGroq t ≤ an.retryPolicy.maxAttempts ∧ (0 < price asksGroq t ↔ Entered t) := by
  obtain ⟨given, hstages, -⟩ := trace_analyze h
  obtain ⟨k, m, hk, hentered, hasked, -⟩ := outcome_stages hstages
  have hprice : price asksGroq t = k := by
    rw [price_asksGroq an fileIds, hasked, List.count_append, List.count_replicate_self, count_fallbacks]
    rfl
  rw [hprice]
  exact ⟨hk, hentered⟩

/-- Groq does not time out. -/
def Timely : (c : AnalysisCommand) → AnalysisReply c → Prop
  | .ask .groq, reply => reply ≠ .error .timeout
  | _, _ => True

/-- The exception that the breaker is told of is the one of a request. -/
theorem heard_of_attempts {n left : Nat} {r : Except PyRaise Completion} {exc : Exc}
    (h : RetryManager.Attempts an.retryPolicy sleep (an.ask .groq) n left t r)
    (hr : r = .error (.exception exc)) :
    ∃ reply, (⟨.ask .groq, reply⟩ : Σ c, AnalysisReply c) ∈ t ∧
      an.heard .groq reply = .error (.exception exc) := by
  induction h with
  | last hfunc =>
    obtain ⟨reply, rfl, rfl⟩ := trace_ask hfunc
    exact ⟨reply, List.mem_cons_self, hr⟩
  | again hfunc hretry hsleep hloop ih =>
    obtain ⟨reply, hmem, hheard⟩ := ih hr
    exact ⟨reply, List.mem_append_right _ (List.mem_append_right _ hmem), hheard⟩
  | woken hfunc hretry hsleep =>
    obtain ⟨slept, rfl, hslept⟩ := trace_sleep hsleep
    cases slept with
    | true => cases hslept
    | false =>
      obtain rfl := Except.error.inj hslept
      cases hr

/-- Of what Groq may do, the breaker counts the timeouts only. -/
theorem eq_timeout_of_counted {client : GroqAnalysisClient} {reply : Except GroqFailure (Option Text)}
    {exc : Exc} (h : client.complete reply = .error (.exception exc))
    (hcounted : isRetriable none exc = true) : reply = .error .timeout := by
  cases reply with
  | ok content =>
    rw [GroqAnalysisClient.complete] at h
    split at h
    · obtain rfl := PyRaise.exception.inj (Except.error.inj h)
      cases hcounted
    · cases h
  | error failure =>
    cases failure with
    | timeout => rfl
    | cancelled => cases h
    | rateLimit | api message status | unexpected message =>
      obtain rfl := PyRaise.exception.inj (Except.error.inj h)
      cases hcounted

theorem price_counted_attempts {n left : Nat} {r : Except PyRaise Completion}
    (h : RetryManager.Attempts an.retryPolicy sleep (an.ask .groq) n left t r) :
    price counted t = 0 := by
  induction h with
  | last hfunc =>
    obtain ⟨reply, rfl, -⟩ := trace_ask hfunc
    rfl
  | again hfunc hretry hsleep hloop ih =>
    obtain ⟨reply, rfl, -⟩ := trace_ask hfunc
    obtain ⟨slept, rfl, -⟩ := trace_sleep hsleep
    rw [price_append, price_append, ih]
    rfl
  | woken hfunc hretry hsleep =>
    obtain ⟨reply, rfl, -⟩ := trace_ask hfunc
    obtain ⟨slept, rfl, -⟩ := trace_sleep hsleep
    rfl

/-- Where Groq does not time out, the breaker is told of no failure. -/
theorem price_counted_callGroq {r : Except PyRaise Completion} (h : an.callGroq.Trace t r)
    (htimely : ∀ step ∈ t, Timely step.1 step.2) : price counted t = 0 := by
  rcases trace_callGroq h with ⟨exc, rfl, rfl⟩ | ⟨u, rfl, hloop⟩
  · rfl
  · have hattempts := RetryManager.attempts_of_trace hloop
    rw [price_cons, price_append, price_counted_attempts hattempts]
    cases r with
    | ok completion => rfl
    | error raised =>
      cases raised with
      | cancelled => rfl
      | exception exc =>
        have hnot : isRetriable none exc = false := by
          rw [← Bool.not_eq_true]
          intro hcounted
          obtain ⟨reply, hmem, hheard⟩ := heard_of_attempts hattempts rfl
          have hcomplete : an.groqClient.complete reply = .error (.exception exc) := by
            rw [heard] at hheard
            cases hanswer : an.groqClient.complete reply with
            | ok content =>
              rw [hanswer] at hheard
              cases hheard
            | error raised =>
              rw [hanswer] at hheard
              change (Except.error raised : Except PyRaise Completion) = _ at hheard
              rw [Except.error.inj hheard]
          exact htimely _ (List.mem_cons_of_mem _ (List.mem_append_left _ hmem))
            (eq_timeout_of_counted hcomplete hcounted)
        show 0 + (0 + ((if isRetriable none exc then 1 else 0) + 0)) = 0
        rw [hnot]
        rfl

theorem price_counted_analyze {r : Except PyRaise AnalysisPlan} (h : (an.analyze fileIds).Trace t r)
    (htimely : ∀ step ∈ t, Timely step.1 step.2) : price counted t = 0 := by
  obtain ⟨given, hstages, -⟩ := trace_analyze h
  obtain ⟨t₁, t₂, r, rfl, hcall, hrest⟩ := trace_stages hstages
  have hasks : OnlyAsks t₂ := by
    rcases hrest with ⟨rfl, -⟩ | ⟨-, hfallbacks⟩
    · exact List.forall_mem_nil _
    · exact (outcome_fallbacks hfallbacks).1
  have hquiet : price counted t₂ = 0 := by
    refine price_eq_zero_iff.mpr ?_
    intro step hstep
    obtain ⟨u, hu⟩ := hasks step hstep
    rw [hu]
    rfl
  rw [price_append, hquiet, price_counted_callGroq hcall fun step hstep =>
    htimely step (List.mem_append_left _ hstep)]

/-- A rate limit is the last that the retries hear, and what they raise. -/
theorem limit_attempts {n left : Nat} {r : Except PyRaise Completion}
    (h : RetryManager.Attempts an.retryPolicy sleep (an.ask .groq) n left t r) :
    ∃ before last, t = before ++ [last] ∧ limitReply ∉ before ∧
      (last = limitReply → r = .error (.exception limitError)) := by
  have hlimit : ∀ {t r}, (an.ask .groq).Trace t r → ∃ reply : AnalysisReply (.ask .groq),
      t = [⟨.ask .groq, reply⟩] ∧
        (limitReply = ⟨.ask .groq, reply⟩ → r = .error (.exception limitError)) := by
    intro t r hask
    obtain ⟨reply, rfl, rfl⟩ := trace_ask hask
    refine ⟨reply, rfl, ?_⟩
    intro hreply
    cases hreply
    rfl
  -- a rate limit is not retried
  have hretried : ∀ {t exc}, (an.ask .groq).Trace t (.error (.exception exc)) →
      isRetriable (some an.retryPolicy) exc = true → limitReply ∉ t := by
    intro t exc hask hretry hmem
    obtain ⟨reply, rfl, hreply⟩ := hlimit hask
    obtain rfl := PyRaise.exception.inj (Except.error.inj (hreply (List.mem_singleton.mp hmem)))
    cases hretry
  induction h with
  | last hfunc =>
    obtain ⟨reply, rfl, hreply⟩ := hlimit hfunc
    exact ⟨[], _, rfl, List.not_mem_nil, fun h => hreply h.symm⟩
  | again hfunc hretry hsleep hloop ih =>
    have hfirst := hretried hfunc hretry
    obtain ⟨slept, rfl, -⟩ := trace_sleep hsleep
    obtain ⟨before, last, rfl, hbefore, hlast⟩ := ih
    refine ⟨_ ++ ⟨.sleep _, slept⟩ :: before, last, (List.append_assoc _ (_ :: before) [last]).symm,
      ?_, hlast⟩
    intro hmem
    rcases List.mem_append.mp hmem with hask | hmem
    · exact hfirst hask
    · rcases List.mem_cons.mp hmem with hslept | hlater
      · cases hslept
      · exact hbefore hlater
  | woken hfunc hretry hsleep =>
    obtain ⟨slept, rfl, -⟩ := trace_sleep hsleep
    exact ⟨_, _, rfl, hretried hfunc hretry, fun h => by cases h⟩

theorem isChain_surfaces (h : limitReply ∉ t) : t.IsChain Surfaces := by
  apply List.Pairwise.isChain
  apply List.pairwise_of_forall_mem_list
  intro x hx y _ hlimit
  rw [hlimit] at hx
  exact absurd hx h

theorem surfaces_callGroq {r : Except PyRaise Completion} (h : an.callGroq.Trace t r)
    {later : AnalysisTrace} (hlater : limitReply ∉ later) : (t ++ later).IsChain Surfaces := by
  rcases trace_callGroq h with ⟨exc, rfl, rfl⟩ | ⟨u, rfl, hloop⟩
  · apply isChain_surfaces
    intro hmem
    rcases List.mem_cons.mp hmem with henter | hmem
    · cases henter
    · exact hlater hmem
  · obtain ⟨before, last, rfl, hbefore, hlast⟩ := limit_attempts (RetryManager.attempts_of_trace hloop)
    have hexits : limitReply ∉ exits r ++ later := by
      intro hmem
      refine hlater ((List.mem_append.mp hmem).resolve_left ?_)
      rcases r with (exc | _) | completion
      · intro hexit
        cases List.mem_singleton.mp hexit
      · exact List.not_mem_nil
      · intro hexit
        cases List.mem_singleton.mp hexit
    have hfront : limitReply ∉ (⟨.enter, .ok ()⟩ :: before : AnalysisTrace) := by
      intro hmem
      rcases List.mem_cons.mp hmem with henter | hmem
      · cases henter
      · exact hbefore hmem
    have hsplit : (⟨.enter, .ok ()⟩ :: ((before ++ [last]) ++ exits r)) ++ later =
        (⟨.enter, .ok ()⟩ :: before) ++ ([last] ++ (exits r ++ later)) := by
      simp
    rw [hsplit, List.isChain_append, List.isChain_append]
    refine ⟨isChain_surfaces hfront, ⟨List.isChain_singleton last, isChain_surfaces hexits, ?_⟩, ?_⟩
    · intro x hx y hy hlimit
      obtain rfl := Option.some.inj hx
      rw [hlast hlimit] at hy
      exact (Option.some.inj hy).symm
    · intro x hx y _ hlimit
      rw [hlimit] at hx
      exact absurd (List.mem_of_getLast? hx) hfront

/-- A rate limit of Groq surfaces as the error of a constructor. -/
theorem surfaces_analyze {r : Except PyRaise AnalysisPlan} (h : (an.analyze fileIds).Trace t r) :
    t.IsChain Surfaces := by
  obtain ⟨given, hstages, -⟩ := trace_analyze h
  obtain ⟨t₁, t₂, r, rfl, hcall, hrest⟩ := trace_stages hstages
  apply surfaces_callGroq hcall
  rcases hrest with ⟨rfl, -⟩ | ⟨-, hfallbacks⟩
  · exact List.not_mem_nil
  · obtain ⟨-, m, hasked, -⟩ := outcome_fallbacks hfallbacks
    have hprice : price asksGroq t₂ = 0 := by
      rw [price_asksGroq an fileIds, hasked, count_fallbacks]
    intro hmem
    exact absurd (price_eq_zero_iff.mp hprice limitReply hmem) Nat.one_ne_zero

/-- The breaker refuses every analysis. -/
def Refused : (c : AnalysisCommand) → AnalysisReply c → Prop
  | .enter, reply => reply ≠ .ok ()
  | _, _ => True

theorem spends_asksGroq (an : RequestAnalyzer) (fileIds : List String) :
    (an.analyze fileIds).Spends (fun _ _ => True) asksGroq an.retryPolicy.maxAttempts :=
  fun _ _ h _ => (price_asksGroq_analyze h).1

theorem spends_refused (an : RequestAnalyzer) (fileIds : List String) :
    (an.analyze fileIds).Spends Refused asksGroq 0 := by
  intro t r h hrefused
  by_contra hpos
  exact hrefused _ ((price_asksGroq_analyze h).2.mp (Nat.lt_of_not_le hpos)) rfl

theorem spends_counted (an : RequestAnalyzer) (fileIds : List String) :
    (an.analyze fileIds).Spends Timely counted 0 :=
  fun _ _ h htimely => (price_counted_analyze h htimely).le

end Prices

end RequestAnalyzer

/-! ## Timeouts -/

namespace Analyses

open RequestAnalyzer (Timely Refused spends_counted spends_asksGroq spends_refused surfaces_analyze twoModels
  limitReached)

variable {an : RequestAnalyzer} {config : CircuitBreakerConfig} {start : Seconds}
  {requests : List (List String)} {s t : Analyses} {a : AnalysisLabel} {l l₁ l₂ : List AnalysisLabel}

/-- The breaker is closed and has counted no failure. -/
def Unharmed (w : AnalysisWorld) : Prop := w.breaker.state = .closed ∧ w.breaker.failureCount = 0

theorem unharmed_exec {c : AnalysisCommand} {answer : (c : AnalysisCommand) → AnalysisReply c}
    {w u : AnalysisWorld} {r : AnalysisReply c} (hw : Unharmed w) (hcounted : counted c = 0)
    (h : AnalysisWorld.exec c answer w = some (r, u)) :
    Unharmed u ∧ ∀ exc, (⟨c, r⟩ : Σ c, AnalysisReply c) ≠ ⟨.enter, .error exc⟩ := by
  obtain ⟨hclosed, hcount⟩ := hw
  cases c with
  | enter =>
    have henter : w.breaker.callEnter w.now = .ok w.breaker := by
      rw [CircuitBreaker.callEnter, hclosed, if_neg (by decide)]
    simp only [AnalysisWorld.exec, henter] at h
    obtain ⟨rfl, rfl⟩ := Prod.mk.inj (Option.some.inj h)
    exact ⟨⟨hclosed, hcount⟩, fun exc h => by cases h⟩
  | exit body =>
    obtain ⟨-, rfl⟩ := Prod.mk.inj (Option.some.inj h)
    refine ⟨?_, fun exc h => by cases h⟩
    show (w.breaker.callExit w.now body).state = .closed ∧
      (w.breaker.callExit w.now body).failureCount = 0
    cases body with
    | ok _ =>
      rw [CircuitBreaker.callExit, CircuitBreaker.onSuccess_of_closed _ hclosed]
      exact ⟨hclosed, by rw [hcount]⟩
    | error exc =>
      have hnot : ¬ isRetriable none exc = true := by
        intro hretry
        rw [counted, if_pos hretry] at hcounted
        cases hcounted
      rw [CircuitBreaker.callExit, if_neg hnot]
      exact ⟨hclosed, hcount⟩
  | ask u | sleep n =>
    obtain ⟨-, rfl⟩ := Prod.mk.inj (Option.some.inj h)
    exact ⟨⟨hclosed, hcount⟩, fun exc h => by cases h⟩

theorem unharmed_step (hs : Unharmed s.shared) (h : step s a = some t)
    (hcounted : ∀ x ∈ Pool.executed AnalysisWorld.exec s a, counted x.1 = 0) :
    Unharmed t.shared ∧
      ∀ x ∈ Pool.executed AnalysisWorld.exec s a, ∀ exc, x ≠ ⟨.enter, .error exc⟩ := by
  cases a with
  | work i answer =>
    obtain ⟨c, rest, r, u, hp, hexec, rfl⟩ := Pool.step_work_iff.mp h
    have hexecuted := Pool.executed_work (η := AnalysisEvent) hp hexec
    obtain ⟨hu, hanswered⟩ := unharmed_exec hs (hcounted _ hexecuted) hexec
    refine ⟨hu, ?_⟩
    intro x hx
    obtain rfl := Option.some.inj (hexecuted.symm.trans hx)
    exact hanswered
  | other e =>
    obtain ⟨u, hu, rfl⟩ := Pool.step_other_iff.mp h
    refine ⟨?_, fun x hx => by cases hx⟩
    cases e with
    | tick elapsed =>
      change (if 0 ≤ elapsed then _ else _) = _ at hu
      split at hu
      · obtain rfl := Option.some.inj hu
        exact hs
      · cases hu

theorem budgeted_initial (an : RequestAnalyzer) (config : CircuitBreakerConfig) (start : Seconds)
    (requests : List (List String)) {heard : (c : AnalysisCommand) → AnalysisReply c → Prop}
    {cost : AnalysisCommand → Nat} {n : Nat}
    (hspends : ∀ fileIds, (an.analyze fileIds).Spends heard cost n) :
    Pool.Budgeted heard cost (fun _ => n) (initial an config start requests) := by
  intro i p hp
  obtain ⟨fileIds, -, rfl⟩ := List.mem_map.mp (List.mem_of_getElem? hp)
  exact hspends fileIds

/-- What an analysis performs along a run begins a trace of it, so that a rate limit surfaces there. -/
theorem surfaces_performedBy (h : run step (initial an config start requests) l = some t) {i : Nat}
    {fileIds : List String} (hi : requests[i]? = some fileIds) :
    (performedBy i (initial an config start requests) l).IsChain Surfaces := by
  have hscript : (initial an config start requests).scripts[i]? = some (an.analyze fileIds) := by
    show (requests.map _)[i]? = _
    rw [List.getElem?_map, hi, Option.map_some]
  obtain ⟨T, r, htrace, later, rfl⟩ := Pool.exists_performedBy_isPrefix limitReached h hscript
  exact (surfaces_analyze htrace).left_of_append

/-- As long as Groq does not time out, whatever else it does, the breaker stays closed, and no
analysis is refused: neither a rate limit nor a failing server counts. Behind a rate limit, the
analysis tells the breaker of a `TypeError`. -/
theorem closed_of_timely (h : run step (initial an config start requests) l = some t)
    (htimely : ∀ x ∈ performed (initial an config start requests) l, Timely x.1 x.2) :
    Unharmed t.shared ∧
      (∀ x ∈ performed (initial an config start requests) l, ∀ exc, x ≠ ⟨.enter, .error exc⟩) ∧
      ∀ i fileIds, requests[i]? = some fileIds →
        (performedBy i (initial an config start requests) l).IsChain Surfaces := by
  have hanswer : ∀ c, ∃ r, Timely c r := by
    intro c
    cases c with
    | enter => exact ⟨.ok (), trivial⟩
    | exit body => exact ⟨(), trivial⟩
    | sleep n => exact ⟨true, trivial⟩
    | ask u =>
      cases u with
      | groq => exact ⟨.ok none, fun h => by cases h⟩
      | client i => exact ⟨none, trivial⟩
      | adapter i | nvidia => exact ⟨.error .cancelled, trivial⟩
  have hspent := (budgeted_initial an config start requests (spends_counted an)).run hanswer h htimely
  rw [Finset.sum_const_zero, Nat.le_zero] at hspent
  have hcounted : ∀ x ∈ performed (initial an config start requests) l, counted x.1 = 0 :=
    price_eq_zero_iff.mp hspent
  obtain ⟨hunharmed, hlet⟩ := Pool.performed_invariant (fun s a t => unharmed_step) ⟨rfl, rfl⟩ h hcounted
  exact ⟨hunharmed, hlet, fun i fileIds hi => surfaces_performedBy h hi⟩

/-- Two analyses; Groq's limit is reached. -/
def limited : Analyses := initial twoModels {} 0 [[], []]

/-- The first of them, up to its end, and the second as far as the breaker. -/
def limitedLabels : List AnalysisLabel :=
  [.work 0 limitReached, .work 0 limitReached, .work 0 limitReached, .work 0 limitReached,
    .work 1 limitReached]

theorem closed_of_timely_limited : ∃ t, run step limited limitedLabels = some t ∧ Unharmed t.shared ∧
    (∀ x ∈ performed limited limitedLabels, ∀ exc, x ≠ ⟨.enter, .error exc⟩) ∧
    ∀ i fileIds, ([[], []] : List (List String))[i]? = some fileIds →
      (performedBy i limited limitedLabels).IsChain Surfaces := by
  have hruns : (run step limited limitedLabels).isSome = true := rfl
  obtain ⟨t, ht⟩ := Option.isSome_iff_exists.mp hruns
  refine ⟨t, ht, closed_of_timely ht ?_⟩
  have hperformed : ∃ exc, performed limited limitedLabels =
      [⟨.enter, .ok ()⟩, ⟨.ask .groq, .error .rateLimit⟩, ⟨.exit (.error exc), ()⟩,
        ⟨.ask (.client 0), limitReached (.ask (.client 0))⟩, ⟨.enter, .ok ()⟩] := ⟨_, rfl⟩
  obtain ⟨exc, hperformed⟩ := hperformed
  intro x hx
  change x ∈ performed limited limitedLabels at hx
  rw [hperformed] at hx
  simp only [List.mem_cons, List.not_mem_nil, or_false] at hx
  rcases hx with rfl | rfl | rfl | rfl | rfl
  · trivial
  · intro h
    cases h
  · trivial
  · trivial
  · trivial

/-! ## Outages -/

/-- The breaker is open, and has been told of its last failure in the past, since some time. -/
structure Tripped (since : Seconds) (config : CircuitBreakerConfig) (w : AnalysisWorld) : Prop where
  opened : w.breaker.state = .opened
  config_eq : w.breaker.config = config
  since_le : since ≤ w.breaker.lastFailureTime
  failed_before : w.breaker.lastFailureTime ≤ w.now

/-- The last failure was in the past. -/
def Past (w : AnalysisWorld) : Prop := w.breaker.lastFailureTime ≤ w.now

/-- What every step keeps: time does not go back, and no failure is later than now. -/
structure Kept (w u : AnalysisWorld) : Prop where
  now_le : w.now ≤ u.now
  config_eq : u.breaker.config = w.breaker.config
  past : Past w → Past u

theorem Kept.refl (w : AnalysisWorld) : Kept w w := ⟨le_rfl, rfl, id⟩

theorem Kept.trans {w u v : AnalysisWorld} (h : Kept w u) (h' : Kept u v) : Kept w v :=
  ⟨h.now_le.trans h'.now_le, h'.config_eq.trans h.config_eq, h'.past ∘ h.past⟩

/-- A breaker with the same configuration, and the same last failure or one of now. -/
theorem kept_breaker {w : AnalysisWorld} {b : CircuitBreaker} (hconfig : b.config = w.breaker.config)
    (hfailure : b.lastFailureTime = w.breaker.lastFailureTime ∨ b.lastFailureTime = w.now) :
    Kept w { w with breaker := b } := by
  refine ⟨le_rfl, hconfig, ?_⟩
  intro hpast
  rcases hfailure with hsame | hnow
  · exact hsame.le.trans hpast
  · exact hnow.le

theorem kept_exec {c : AnalysisCommand} {answer : (c : AnalysisCommand) → AnalysisReply c}
    {w u : AnalysisWorld} {r : AnalysisReply c} (h : AnalysisWorld.exec c answer w = some (r, u)) :
    Kept w u := by
  cases c with
  | enter =>
    rw [AnalysisWorld.exec] at h
    cases henter : w.breaker.callEnter w.now with
    | error exc =>
      simp only [henter] at h
      obtain ⟨-, rfl⟩ := Prod.mk.inj (Option.some.inj h)
      exact .refl w
    | ok b =>
      simp only [henter] at h
      obtain ⟨-, rfl⟩ := Prod.mk.inj (Option.some.inj h)
      rw [CircuitBreaker.callEnter] at henter
      split_ifs at henter
      · rw [← Except.ok.inj henter]
        exact kept_breaker rfl (.inl rfl)
      · rw [← Except.ok.inj henter]
        exact kept_breaker rfl (.inl rfl)
  | exit body =>
    obtain ⟨-, rfl⟩ := Prod.mk.inj (Option.some.inj h)
    cases body with
    | ok _ =>
      refine kept_breaker (CircuitBreaker.onSuccess_config _) (.inl ?_)
      show w.breaker.onSuccess.lastFailureTime = w.breaker.lastFailureTime
      rw [CircuitBreaker.onSuccess]
      split
      · split
        · rfl
        · rfl
      · rfl
      · rfl
    | error exc =>
      rw [CircuitBreaker.callExit]
      split
      · exact kept_breaker (CircuitBreaker.onFailure_config _ _)
          (.inr (CircuitBreaker.onFailure_lastFailureTime _ _))
      · exact .refl w
  | ask u | sleep n =>
    obtain ⟨-, rfl⟩ := Prod.mk.inj (Option.some.inj h)
    exact .refl w

theorem kept_step (h : step s a = some t) : Kept s.shared t.shared := by
  cases a with
  | work i answer =>
    obtain ⟨c, rest, r, u, -, hexec, rfl⟩ := Pool.step_work_iff.mp h
    exact kept_exec hexec
  | other e =>
    obtain ⟨u, hu, rfl⟩ := Pool.step_other_iff.mp h
    cases e with
    | tick elapsed =>
      change (if 0 ≤ elapsed then _ else _) = _ at hu
      split at hu
      · rename_i helapsed
        obtain rfl := Option.some.inj hu
        have hlater : s.shared.now ≤ s.shared.now + elapsed := le_add_of_nonneg_right helapsed
        refine ⟨hlater, rfl, ?_⟩
        intro hpast
        exact le_trans (show s.shared.breaker.lastFailureTime ≤ s.shared.now from hpast) hlater
      · cases hu

theorem kept_run (h : run step s l = some t) : Kept s.shared t.shared := by
  have hstep : ∀ u a v, Kept s.shared u.shared → step u a = some v → Kept s.shared v.shared := by
    intro u a v hu hv
    exact hu.trans (kept_step hv)
  exact run_invariant hstep (Kept.refl _) h

/-- Until its recovery timeout is over, an open breaker stays open, and refuses. -/
theorem tripped_exec {c : AnalysisCommand} {answer : (c : AnalysisCommand) → AnalysisReply c}
    {w u : AnalysisWorld} {r : AnalysisReply c} {since : Seconds} (hw : Tripped since config w)
    (hnow : w.now - since < config.recoveryTimeoutSeconds)
    (h : AnalysisWorld.exec c answer w = some (r, u)) : Tripped since config u ∧ Refused c r := by
  have hpast := (kept_exec h).past hw.failed_before
  cases c with
  | enter =>
    have hearly : ¬ w.now - w.breaker.lastFailureTime ≥ w.breaker.config.recoveryTimeoutSeconds := by
      rw [hw.config_eq]
      have hsince := hw.since_le
      linarith
    simp only [AnalysisWorld.exec, CircuitBreaker.callEnter, if_pos hw.opened, if_neg hearly] at h
    obtain ⟨rfl, rfl⟩ := Prod.mk.inj (Option.some.inj h)
    exact ⟨hw, fun h => by cases h⟩
  | exit body =>
    obtain ⟨-, rfl⟩ := Prod.mk.inj (Option.some.inj h)
    refine ⟨?_, trivial⟩
    show Tripped since config { w with breaker := w.breaker.callExit w.now body }
    cases body with
    | ok _ =>
      rw [CircuitBreaker.callExit, CircuitBreaker.onSuccess_of_opened _ hw.opened]
      exact hw
    | error exc =>
      rw [CircuitBreaker.callExit]
      split
      · have hstate : (w.breaker.onFailure w.now).state = .opened := by
          rw [CircuitBreaker.onFailure_state _ _ (by rw [hw.opened]; decide), hw.opened, ite_self]
        exact ⟨hstate, (CircuitBreaker.onFailure_config _ _).trans hw.config_eq,
          (hw.since_le.trans hw.failed_before).trans
            (CircuitBreaker.onFailure_lastFailureTime _ _).ge,
          (CircuitBreaker.onFailure_lastFailureTime _ _).le⟩
      · exact hw
  | ask u | sleep n =>
    obtain ⟨-, rfl⟩ := Prod.mk.inj (Option.some.inj h)
    exact ⟨hw, trivial⟩

theorem tripped_step {since : Seconds} (hs : Tripped since config s.shared)
    (hnow : t.shared.now - since < config.recoveryTimeoutSeconds) (h : step s a = some t) :
    Tripped since config t.shared ∧ ∀ x ∈ Pool.executed AnalysisWorld.exec s a, Refused x.1 x.2 := by
  have hkept := kept_step h
  cases a with
  | work i answer =>
    obtain ⟨c, rest, r, u, hp, hexec, rfl⟩ := Pool.step_work_iff.mp h
    have hexecuted := Pool.executed_work (η := AnalysisEvent) hp hexec
    obtain ⟨hu, hrefused⟩ := tripped_exec hs ((sub_le_sub_right hkept.now_le since).trans_lt hnow) hexec
    refine ⟨hu, ?_⟩
    intro x hx
    obtain rfl := Option.some.inj (hexecuted.symm.trans hx)
    exact hrefused
  | other e =>
    obtain ⟨u, hu, rfl⟩ := Pool.step_other_iff.mp h
    refine ⟨?_, fun x hx => by cases hx⟩
    cases e with
    | tick elapsed =>
      change (if 0 ≤ elapsed then _ else _) = _ at hu
      split at hu
      · obtain rfl := Option.some.inj hu
        exact ⟨hs.opened, hs.config_eq, hs.since_le, hkept.past hs.failed_before⟩
      · cases hu

theorem exists_refused (c : AnalysisCommand) : ∃ r, Refused c r := by
  cases c with
  | enter => exact ⟨.error { cls := .circuitOpenError }, fun h => by cases h⟩
  | exit body => exact ⟨(), trivial⟩
  | sleep n => exact ⟨true, trivial⟩
  | ask u =>
    cases u with
    | groq => exact ⟨.ok none, trivial⟩
    | client i => exact ⟨none, trivial⟩
    | adapter i | nvidia => exact ⟨.error .cancelled, trivial⟩

/-- While the breaker is open, every analysis that comes is refused. -/
theorem refused_of_tripped {since : Seconds} (hs : Tripped since config s.shared)
    (h : run step s l = some t) (hnow : t.shared.now - since < config.recoveryTimeoutSeconds) :
    ∀ x ∈ performed s l, Refused x.1 x.2 := by
  induction l generalizing s with
  | nil => exact List.forall_mem_nil _
  | cons a l ih =>
    rw [run_cons] at h
    obtain ⟨u, hu, hrun⟩ := Option.bind_eq_some_iff.mp h
    have hearly : u.shared.now - since < config.recoveryTimeoutSeconds :=
      (sub_le_sub_right (kept_run hrun).now_le since).trans_lt hnow
    obtain ⟨htripped, hrefused⟩ := tripped_step hs hearly hu
    intro x hx
    rw [performed, Pool.performed_cons hu] at hx
    rcases List.mem_append.mp hx with hx | hx
    · exact hrefused x (Option.mem_toList.mp hx)
    · exact ih htripped hrun x hx

/-- The budgets behind a run: an analysis that is not under way asks Groq no more, as long as it is refused. -/
theorem budgeted_of_run (h : run step (initial an config start requests) l = some s) :
    Pool.Budgeted Refused asksGroq
      (fun i => if underWay l s i then an.retryPolicy.maxAttempts else 0) s := by
  have hstep : ∀ u a v, Pool.Budgeted (fun _ _ => True) asksGroq (fun _ => an.retryPolicy.maxAttempts) u →
      step u a = some v →
      Pool.Budgeted (fun _ _ => True) asksGroq (fun _ => an.retryPolicy.maxAttempts) v := by
    intro u a v hu hv
    exact Pool.step_inherits (P := fun _ p => p.Spends _ _ _)
      (fun i c rest hcall r => hcall.rest_of_call trivial) hu hv
  have hspends := run_invariant hstep (budgeted_initial an config start requests (spends_asksGroq an)) h
  intro i p hp
  cases hbegun : Pool.begun l i with
  | true =>
    by_cases hfinished : p.Finished
    · exact (Spends.of_finished hfinished).mono (Nat.zero_le _)
    · have hunder : underWay l s i = true := by
        rw [underWay, hbegun, hp]
        simp [hfinished]
      simp only [hunder, if_true]
      exact (hspends i p hp).restrict fun _ _ _ => trivial
  | false =>
    rw [Pool.getElem?_of_not_begun h hbegun] at hp
    obtain ⟨fileIds, -, rfl⟩ := List.mem_map.mp (List.mem_of_getElem? hp)
    exact (spends_refused an fileIds).mono (Nat.zero_le _)

/-- In an outage, from the moment at which the breaker is open until its recovery timeout is over,
however many analyses are begun, Groq is asked no more than `max_attempts` times for each analysis that
was under way at that moment. -/
theorem outage_spared (hstart : 0 ≤ start) (h₁ : run step (initial an config start requests) l₁ = some s)
    (hopen : s.shared.breaker.state = .opened) (h₂ : run step s l₂ = some t)
    (hnow : t.shared.now - s.shared.breaker.lastFailureTime < config.recoveryTimeoutSeconds) :
    price asksGroq (performed s l₂) ≤ countUnderWay l₁ s * an.retryPolicy.maxAttempts := by
  have hkept := kept_run h₁
  have hfirst : Past (initial an config start requests).shared := hstart
  have hrefused := refused_of_tripped ⟨hopen, hkept.config_eq, le_rfl, hkept.past hfirst⟩ h₂ hnow
  have hspent := (budgeted_of_run h₁).run exists_refused h₂ hrefused
  rw [← Finset.sum_filter, Finset.sum_const] at hspent
  exact hspent

/-- Groq times out, and whoever waits is woken. -/
def timedOut : (c : AnalysisCommand) → AnalysisReply c
  | .ask .groq => .error .timeout
  | c => limitReached c

/-- Two analyses behind a breaker that one failure opens. -/
def failing : Analyses := initial twoModels { failureThreshold := 1 } 0 [[], []]

/-- The second is let in; the first is asked, and asked again, in vain. -/
def failingLabels : List AnalysisLabel :=
  [.work 1 timedOut, .work 0 timedOut, .work 0 timedOut, .work 0 timedOut, .work 0 timedOut,
    .work 0 timedOut]

/-- The second still asks Groq. -/
def lateLabels : List AnalysisLabel := [.work 1 timedOut, .work 0 timedOut]

theorem outage_spared_failing : ∃ s t, run step failing failingLabels = some s ∧
    run step s lateLabels = some t ∧
    price asksGroq (performed s lateLabels) ≤ countUnderWay failingLabels s * 2 := by
  have hfailing : (run step failing failingLabels).map
      (fun s => (s.shared.breaker.state, s.shared.breaker.lastFailureTime)) = some (.opened, 0) := rfl
  have hlate : ((run step failing failingLabels).bind fun s =>
      (run step s lateLabels).map fun t => t.shared.now) = some 0 := rfl
  obtain ⟨s, hs, hopened⟩ := Option.map_eq_some_iff.mp hfailing
  obtain ⟨hopened, hsince⟩ := Prod.mk.inj hopened
  rw [hs, Option.bind_some] at hlate
  obtain ⟨t, ht, hnow⟩ := Option.map_eq_some_iff.mp hlate
  refine ⟨s, t, hs, ht, outage_spared le_rfl hs hopened ht ?_⟩
  rw [hsince, hnow]
  norm_num

end Analyses

end LlmService
