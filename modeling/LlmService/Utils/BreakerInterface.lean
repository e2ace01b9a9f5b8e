import LlmService.Lib.Runs
import LlmService.Utils.CircuitBreaker
import Mathlib.Tactic.NormNum

/-!
# The breaker under its full interface

A breaker with the calls that run under it: `call()` is entered and left, any
number of calls may be running, and `trip`, `reset`, `on_success` and
`on_failure` come at any time. No method holds its lock across an `await`, so
each of them is one step. The clock readings need not be in order for what is
proved here.
-/

namespace LlmService

open Runs

namespace CircuitBreaker

/-- How the body of a `call()` ends; a cancellation is not an `Exception`. -/
inductive BodyEnd where
  | returned
  | raised (exc : Exc)
  | cancelled

/-- One operation on the breaker, with its clock reading. -/
inductive Operation where
  | enter (now : Seconds)
  | exit (now : Seconds) (ending : BodyEnd)
  | trip (now : Seconds)
  | reset
  | onSuccess
  | onFailure (now : Seconds)

/-- The breaker, and how many bodies are running under it. -/
structure Guarded where
  breaker : CircuitBreaker
  running : Nat := 0

/-- `callExit`, which a cancellation passes by. -/
def leave (b : CircuitBreaker) (now : Seconds) : BodyEnd → CircuitBreaker
  | .returned => b.callExit now (.ok ())
  | .raised exc => b.callExit now (.error exc)
  | .cancelled => b

namespace Guarded

/-- One operation; a call that is refused does not run its body. -/
def step (s : Guarded) : Operation → Option Guarded
  | .enter now =>
    match s.breaker.callEnter now with
    | .ok b => some { breaker := b, running := s.running + 1 }
    | .error _ => some s
  | .exit now ending =>
    if s.running = 0 then none
    else some { breaker := s.breaker.leave now ending, running := s.running - 1 }
  | .trip now => some { s with breaker := s.breaker.trip now }
  | .reset => some { s with breaker := s.breaker.reset }
  | .onSuccess => some { s with breaker := s.breaker.onSuccess }
  | .onFailure now => some { s with breaker := s.breaker.onFailure now }

def start (name : String) (config : CircuitBreakerConfig) : Guarded :=
  { breaker := fresh name config }

end Guarded

/-- The time that an operation records as that of a failure or a trip. -/
def Operation.recorded : Operation → Option Seconds
  | .trip now | .onFailure now => some now
  | .exit now (.raised exc) => if isRetriable none exc then some now else none
  | _ => none

/-- The last failure or trip that was recorded. -/
def lastRecorded (ops : List Operation) : Option Seconds :=
  (ops.filterMap Operation.recorded).getLast?

/-! ## One operation -/

/-- What the counters are below in each state. -/
structure Counted (config : CircuitBreakerConfig) (b : CircuitBreaker) : Prop where
  config_eq : b.config = config
  closed : b.state = .closed → b.failureCount < config.failureThreshold
  halfOpen : b.state = .halfOpen → b.successCount < config.successThreshold

variable {config : CircuitBreakerConfig} {b b' : CircuitBreaker} {name : String} {now : Seconds}
  {s s' : Guarded} {op : Operation} {ops : List Operation}

theorem counted_fresh (name : String) (config : CircuitBreakerConfig) :
    Counted config (fresh name config) := by
  refine ⟨rfl, fun _ => ?_, fun h => nomatch h⟩
  have hpos := config.failure_pos
  show 0 < config.failureThreshold
  omega

theorem Counted.trip (h : Counted config b) (now : Seconds) : Counted config (b.trip now) :=
  ⟨h.config_eq, (fun hs => nomatch hs), fun hs => nomatch hs⟩

theorem Counted.reset (h : Counted config b) : Counted config b.reset := by
  refine ⟨h.config_eq, fun _ => ?_, fun hs => nomatch hs⟩
  have hpos := config.failure_pos
  show 0 < config.failureThreshold
  omega

theorem Counted.onSuccess (h : Counted config b) : Counted config b.onSuccess := by
  cases hs : b.state with
  | opened => rwa [onSuccess_of_opened b hs]
  | closed =>
    rw [onSuccess_of_closed b hs]
    refine ⟨h.config_eq, fun _ => ?_, fun hs' => ?_⟩
    · have hlt := h.closed hs
      show b.failureCount - 1 < config.failureThreshold
      omega
    · rw [hs] at hs'
      cases hs'
  | halfOpen =>
    rw [CircuitBreaker.onSuccess, hs]
    dsimp only
    by_cases henough : b.successCount + 1 ≥ b.config.successThreshold
    · rw [if_pos henough]
      refine ⟨h.config_eq, fun _ => ?_, fun hs' => nomatch hs'⟩
      have hpos := config.failure_pos
      show 0 < config.failureThreshold
      omega
    · rw [if_neg henough]
      refine ⟨h.config_eq, (fun hs' => nomatch hs'), fun _ => ?_⟩
      · have hconfig := h.config_eq
        rw [hconfig] at henough
        show b.successCount + 1 < config.successThreshold
        omega

theorem onFailure_of_halfOpen (h : b.state = .halfOpen) (now : Seconds) :
    (b.onFailure now).state = .opened := by
  simp [CircuitBreaker.onFailure, h]

theorem Counted.onFailure (h : Counted config b) (now : Seconds) :
    Counted config (b.onFailure now) := by
  refine ⟨by rw [onFailure_config, h.config_eq], fun hs => ?_, fun hs => ?_⟩
  · by_cases hhalf : b.state = .halfOpen
    · rw [onFailure_of_halfOpen hhalf] at hs
      cases hs
    · rw [onFailure_state b now hhalf, h.config_eq] at hs
      split at hs
      · cases hs
      · rw [onFailure_failureCount]
        omega
  · by_cases hhalf : b.state = .halfOpen
    · rw [onFailure_of_halfOpen hhalf] at hs
      cases hs
    · rw [onFailure_state b now hhalf] at hs
      split at hs
      · cases hs
      · exact absurd hs hhalf

/-- What `call()` does at its entry: nothing, or it lets a probe through. -/
theorem callEnter_cases (h : b.callEnter now = .ok b') :
    (b.state ≠ .opened ∧ b' = b) ∨
      (b.state = .opened ∧ (b.config.recoveryTimeoutSeconds : Seconds) ≤ now - b.lastFailureTime ∧
        b' = { b with state := .halfOpen, successCount := 0 }) := by
  rw [callEnter] at h
  by_cases hopened : b.state = .opened
  · rw [if_pos hopened] at h
    by_cases htime : now - b.lastFailureTime ≥ b.config.recoveryTimeoutSeconds
    · rw [if_pos htime] at h
      exact .inr ⟨hopened, htime, (Except.ok.inj h).symm⟩
    · rw [if_neg htime] at h
      cases h
  · rw [if_neg hopened] at h
    exact .inl ⟨hopened, (Except.ok.inj h).symm⟩

theorem Counted.callEnter (h : Counted config b) (hb : b.callEnter now = .ok b') :
    Counted config b' := by
  rcases callEnter_cases hb with ⟨-, rfl⟩ | ⟨-, -, rfl⟩
  · exact h
  · refine ⟨h.config_eq, (fun hs => nomatch hs), fun _ => ?_⟩
    have hpos := config.success_pos
    show 0 < config.successThreshold
    omega

theorem Counted.leave (h : Counted config b) (now : Seconds) (ending : BodyEnd) :
    Counted config (b.leave now ending) := by
  cases ending with
  | returned => exact h.onSuccess
  | cancelled => exact h
  | raised exc =>
    rw [CircuitBreaker.leave, callExit]
    split
    · exact h.onFailure now
    · exact h

theorem Counted.step (h : Counted config s.breaker) (hs : s.step op = some s') :
    Counted config s'.breaker := by
  cases op with
  | enter now =>
    rw [Guarded.step] at hs
    cases hb : s.breaker.callEnter now with
    | error exc =>
      rw [hb] at hs
      obtain rfl := Option.some.inj hs
      exact h
    | ok b =>
      rw [hb] at hs
      obtain rfl := Option.some.inj hs
      exact h.callEnter hb
  | exit now ending =>
    rw [Guarded.step] at hs
    split at hs
    · cases hs
    · obtain rfl := Option.some.inj hs
      exact h.leave now ending
  | trip now =>
    obtain rfl := Option.some.inj hs
    exact h.trip now
  | reset =>
    obtain rfl := Option.some.inj hs
    exact h.reset
  | onSuccess =>
    obtain rfl := Option.some.inj hs
    exact h.onSuccess
  | onFailure now =>
    obtain rfl := Option.some.inj hs
    exact h.onFailure now

/-! ## The open state -/

theorem onSuccess_ne_opened (h : b.state ≠ .opened) : b.onSuccess.state ≠ .opened := by
  intro hopened
  cases hs : b.state with
  | opened => exact h hs
  | closed =>
    rw [onSuccess_of_closed b hs] at hopened
    exact h hopened
  | halfOpen =>
    rw [CircuitBreaker.onSuccess, hs] at hopened
    dsimp only at hopened
    split at hopened
    · cases hopened
    · cases hopened

/-- An open breaker has recorded the time just now, or was open before. -/
def StaysOpen (recorded : Option Seconds) (b b' : CircuitBreaker) : Prop :=
  recorded = some b'.lastFailureTime ∨
    recorded = none ∧ b.state = .opened ∧ b'.lastFailureTime = b.lastFailureTime

theorem onSuccess_staysOpen (h : b.onSuccess.state = .opened) : StaysOpen none b b.onSuccess := by
  have hopened : b.state = .opened := by
    by_contra hne
    exact onSuccess_ne_opened hne h
  rw [onSuccess_of_opened b hopened]
  exact .inr ⟨rfl, hopened, rfl⟩

theorem leave_staysOpen {ending : BodyEnd} (h : (b.leave now ending).state = .opened) :
    StaysOpen (Operation.exit now ending).recorded b (b.leave now ending) := by
  cases ending with
  | returned => exact onSuccess_staysOpen h
  | cancelled => exact .inr ⟨rfl, h, rfl⟩
  | raised exc =>
    by_cases hretriable : isRetriable none exc = true
    · rw [leave, callExit, if_pos hretriable, Operation.recorded, if_pos hretriable]
      exact .inl (by rw [onFailure_lastFailureTime])
    · rw [leave, callExit, if_neg hretriable] at h ⊢
      rw [Operation.recorded, if_neg hretriable]
      exact .inr ⟨rfl, h, rfl⟩

theorem step_staysOpen (h : s.step op = some s') (hopened : s'.breaker.state = .opened) :
    StaysOpen op.recorded s.breaker s'.breaker := by
  cases op with
  | enter now =>
    rw [Guarded.step] at h
    cases hb : s.breaker.callEnter now with
    | error exc =>
      rw [hb] at h
      obtain rfl := Option.some.inj h
      exact .inr ⟨rfl, hopened, rfl⟩
    | ok b =>
      rw [hb] at h
      obtain rfl := Option.some.inj h
      rcases callEnter_cases hb with ⟨hne, rfl⟩ | ⟨-, -, rfl⟩
      · exact absurd hopened hne
      · cases hopened
  | exit now ending =>
    rw [Guarded.step] at h
    split at h
    · cases h
    · obtain rfl := Option.some.inj h
      exact leave_staysOpen hopened
  | trip now =>
    obtain rfl := Option.some.inj h
    exact .inl rfl
  | reset =>
    obtain rfl := Option.some.inj h
    cases hopened
  | onSuccess =>
    obtain rfl := Option.some.inj h
    exact onSuccess_staysOpen hopened
  | onFailure now =>
    obtain rfl := Option.some.inj h
    exact .inl (by rw [Operation.recorded, onFailure_lastFailureTime])

theorem lastRecorded_snoc (ops : List Operation) (op : Operation) :
    lastRecorded (ops ++ [op]) = op.recorded.or (lastRecorded ops) := by
  rw [lastRecorded, List.filterMap_append]
  cases hop : op.recorded with
  | none => simp [hop, lastRecorded]
  | some now => simp [hop]

/-- The time at which an open breaker counts from is the last that was recorded. -/
theorem lastRecorded_of_opened (h : run Guarded.step (Guarded.start name config) ops = some s)
    (hopened : s.breaker.state = .opened) :
    lastRecorded ops = some s.breaker.lastFailureTime := by
  induction ops using List.reverseRecOn generalizing s with
  | nil =>
    obtain rfl := Option.some.inj h
    cases hopened
  | append_singleton ops op ih =>
    obtain ⟨u, hu, hstep⟩ := (run_snoc_iff Guarded.step).mp h
    rw [lastRecorded_snoc]
    rcases step_staysOpen hstep hopened with hrecorded | ⟨hnone, hbefore, htime⟩
    · rw [hrecorded]
      rfl
    · rw [hnone, htime]
      exact ih hu hbefore

/-- An open breaker is left by a reset, or by a call that comes late enough. -/
theorem step_leavesOpen (h : s.step op = some s') (hopened : s.breaker.state = .opened)
    (hleft : s'.breaker.state ≠ .opened) :
    op = .reset ∨ ∃ now, op = .enter now ∧
      (s.breaker.config.recoveryTimeoutSeconds : Seconds) ≤ now - s.breaker.lastFailureTime := by
  have hfailure : ∀ now, (s.breaker.onFailure now).state = .opened := by
    intro now
    rw [onFailure_state _ now (by rw [hopened]; decide), hopened, ite_self]
  cases op with
  | enter now =>
    rw [Guarded.step] at h
    cases hb : s.breaker.callEnter now with
    | error exc =>
      rw [hb] at h
      obtain rfl := Option.some.inj h
      exact absurd hopened hleft
    | ok b =>
      rcases callEnter_cases hb with ⟨hne, -⟩ | ⟨-, htime, -⟩
      · exact absurd hopened hne
      · exact .inr ⟨now, rfl, htime⟩
  | exit now ending =>
    rw [Guarded.step] at h
    split at h
    · cases h
    · obtain rfl := Option.some.inj h
      exfalso
      apply hleft
      cases ending with
      | returned =>
        show s.breaker.onSuccess.state = .opened
        rw [onSuccess_of_opened _ hopened, hopened]
      | cancelled => exact hopened
      | raised exc =>
        show (s.breaker.callExit now (.error exc)).state = .opened
        rw [callExit]
        split
        · exact hfailure now
        · exact hopened
  | trip now =>
    obtain rfl := Option.some.inj h
    exact absurd rfl hleft
  | reset => exact .inl rfl
  | onSuccess =>
    obtain rfl := Option.some.inj h
    exfalso
    apply hleft
    show s.breaker.onSuccess.state = .opened
    rw [onSuccess_of_opened _ hopened, hopened]
  | onFailure now =>
    obtain rfl := Option.some.inj h
    exact absurd (hfailure now) hleft

/-- An open breaker refuses a call that comes too early, and its body is not run. -/
theorem step_refused (hopened : s.breaker.state = .opened)
    (htime : now - s.breaker.lastFailureTime < s.breaker.config.recoveryTimeoutSeconds) :
    (∃ exc, s.breaker.callEnter now = .error exc ∧ exc.cls = .circuitOpenError) ∧
      s.step (.enter now) = some s := by
  have henter : s.breaker.callEnter now =
      .error { cls := .circuitOpenError, message := s!"Circuit breaker '{s.breaker.name}' is OPEN" } := by
    rw [callEnter, if_pos hopened, if_neg (not_le.mpr htime)]
  constructor
  · exact ⟨_, henter, rfl⟩
  · rw [Guarded.step, henter]

/-- The states of a breaker, over every run of its operations. -/
theorem guarded_run {name : String} {config : CircuitBreakerConfig} {ops : List Operation}
    {s : Guarded} (h : run Guarded.step (Guarded.start name config) ops = some s) :
    (s.breaker.state = .closed → s.breaker.failureCount < config.failureThreshold) ∧
    (s.breaker.state = .halfOpen → s.breaker.successCount < config.successThreshold) ∧
    (s.breaker.state = .opened → ∃ last, lastRecorded ops = some last ∧
      (∀ op s', s.step op = some s' → s'.breaker.state ≠ .opened →
        op = .reset ∨ ∃ now, op = .enter now ∧
          (config.recoveryTimeoutSeconds : Seconds) ≤ now - last) ∧
      ∀ now, now - last < config.recoveryTimeoutSeconds →
        (∃ exc, s.breaker.callEnter now = .error exc ∧ exc.cls = .circuitOpenError) ∧
          s.step (.enter now) = some s) := by
  have hstep : ∀ u op v, Counted config u.breaker → Guarded.step u op = some v →
      Counted config v.breaker := fun u op v hu hv => hu.step hv
  have hcounted : Counted config s.breaker := run_invariant hstep (counted_fresh name config) h
  refine ⟨hcounted.closed, hcounted.halfOpen, fun hopened =>
    ⟨_, lastRecorded_of_opened h hopened, fun op s' hs hleft => ?_, fun now htime => ?_⟩⟩
  · have hleaves := step_leavesOpen hs hopened hleft
    rwa [hcounted.config_eq] at hleaves
  · exact step_refused hopened (by rwa [hcounted.config_eq])

/-- Two calls overlap, one of which fails; the other ends while the breaker is open. -/
theorem guarded_run_overlap :
    let config : CircuitBreakerConfig := { failureThreshold := 1 }
    let ops : List Operation :=
      [.enter 0, .enter 1, .exit 2 (.raised { cls := .timeoutError }), .exit 3 .returned]
    ∃ s, run Guarded.step (Guarded.start "gemini" config) ops = some s ∧
      s.breaker.state = .opened ∧ lastRecorded ops = some 2 ∧ s.step (.enter 4) = some s := by
  have hrun : ∃ s, run Guarded.step (Guarded.start "gemini" { failureThreshold := 1 })
      [.enter 0, .enter 1, .exit 2 (.raised { cls := .timeoutError }), .exit 3 .returned] = some s ∧
      s.breaker.state = .opened := ⟨_, rfl, rfl⟩
  obtain ⟨s, hs, hopened⟩ := hrun
  obtain ⟨last, hlast, -, hrefused⟩ := (guarded_run hs).2.2 hopened
  obtain rfl : 2 = last := Option.some.inj hlast
  refine ⟨s, hs, hopened, rfl, (hrefused 4 ?_).2⟩
  norm_num

end CircuitBreaker

end LlmService
