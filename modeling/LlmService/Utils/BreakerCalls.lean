import LlmService.Lib.Runs
import LlmService.Utils.CircuitBreaker
import Mathlib.Data.Finset.Dedup
import Mathlib.Data.Finset.Order
import Mathlib.Tactic.Linarith

/-!
# A breaker driven from outside `call()`

`ProviderChain` and `GenerationRouter` do not use `call()`: they ask
`is_open()` before a turn, report `on_success()` at the first token and
`on_failure()` on an error. `drive` is one such call. The half-open state
exists only inside `call()`, so a driven breaker that has opened never closes
again; it only stops reporting itself open once the recovery timeout is over.
-/

namespace LlmService

open Runs

/-- A call on a breaker, with its clock reading; `isOpen` with its answer. -/
inductive BreakerCall where
  | isOpen (now : Seconds) (answer : Bool)
  | onSuccess (now : Seconds)
  | onFailure (now : Seconds)

def BreakerCall.now : BreakerCall → Seconds
  | .isOpen now _ | .onSuccess now | .onFailure now => now

namespace CircuitBreaker

/-- One call from outside; `is_open()` answers what it answers. -/
def drive (b : CircuitBreaker) : BreakerCall → Option CircuitBreaker
  | .isOpen now answer => if b.isOpen now = answer then some b else none
  | .onSuccess _ => some b.onSuccess
  | .onFailure now => some (b.onFailure now)

/-- A driven breaker is not half-open, and has counted its failures when it
is open. -/
structure Driven (config : CircuitBreakerConfig) (b : CircuitBreaker) : Prop where
  config_eq : b.config = config
  not_halfOpen : b.state ≠ .halfOpen
  counted : b.state = .opened → config.failureThreshold ≤ b.failureCount

variable {config : CircuitBreakerConfig} {b b' : CircuitBreaker}

theorem driven_fresh (name : String) (config : CircuitBreakerConfig) :
    Driven config (fresh name config) :=
  ⟨rfl, by simp [fresh], by simp [fresh]⟩

theorem Driven.onSuccess (h : Driven config b) : Driven config b.onSuccess := by
  cases hs : b.state with
  | halfOpen => exact absurd hs h.not_halfOpen
  | opened => rwa [onSuccess_of_opened b hs]
  | closed =>
    rw [onSuccess_of_closed b hs]
    exact ⟨h.config_eq, by simp [hs], by simp [hs]⟩

theorem Driven.onFailure (h : Driven config b) (now : Seconds) :
    Driven config (b.onFailure now) := by
  have hstate := onFailure_state b now h.not_halfOpen
  refine ⟨by simp [h.config_eq], ?_, ?_⟩
  · rw [hstate]
    split
    · simp
    · exact h.not_halfOpen
  · intro ho
    rw [onFailure_failureCount]
    rw [hstate, h.config_eq] at ho
    split at ho
    · omega
    · exact Nat.le_succ_of_le (h.counted ho)

theorem Driven.drive {call : BreakerCall} (h : Driven config b)
    (hd : b.drive call = some b') : Driven config b' := by
  cases call with
  | isOpen now answer =>
    simp only [CircuitBreaker.drive] at hd
    split at hd
    · cases hd
      exact h
    · cases hd
  | onSuccess now =>
    cases hd
    exact h.onSuccess
  | onFailure now =>
    cases hd
    exact h.onFailure now

theorem Driven.run {calls : List BreakerCall} (h : Driven config b)
    (hr : run CircuitBreaker.drive b calls = some b') : Driven config b' :=
  run_invariant (fun _ _ _ hi hd => hi.drive hd) h hr

/-- An open driven breaker reports open again right after one more failure. -/
theorem Driven.isOpen_onFailure (h : Driven config b) (ho : b.state = .opened) (now : Seconds) :
    (b.onFailure now).isOpen now = true := by
  apply isOpen_of_opened
  · rw [onFailure_state b now h.not_halfOpen, ho]
    simp
  · have hpos : 0 < b.config.recoveryTimeoutSeconds := b.config.recovery_pos
    simpa using hpos

/-- The calls of one turn that is let through and succeeds. -/
def successfulTurn (turn : Seconds × Seconds) : List BreakerCall :=
  [.isOpen turn.1 false, .onSuccess turn.2]

/-- Successful turns leave an open breaker as it is. -/
theorem run_successfulTurns (ho : b.state = .opened) (turns : List (Seconds × Seconds))
    (hr : run CircuitBreaker.drive b (turns.flatMap successfulTurn) = some b') : b' = b := by
  induction turns with
  | nil =>
    cases hr
    rfl
  | cons turn turns ih =>
    simp only [List.flatMap_cons, run_append, Option.bind_eq_some_iff] at hr
    obtain ⟨b₁, h₁, hr⟩ := hr
    -- the check leaves a breaker alone, and so does a success while it is open
    have hb : b₁ = b := by
      simp only [successfulTurn, run_cons, CircuitBreaker.drive, run_nil] at h₁
      split at h₁
      · simpa [onSuccess_of_opened b ho] using h₁.symm
      · simp at h₁
    subst hb
    exact ih hr

/-- A run that opens a fresh breaker and then, after the recovery timeout,
makes `success_threshold` turns that all succeed. -/
structure Recovery (name : String) (config : CircuitBreakerConfig) where
  before : List BreakerCall
  opened : CircuitBreaker
  reached : run drive (fresh name config) before = some opened
  is_opened : opened.state = .opened
  turns : List (Seconds × Seconds)
  enough : turns.length = config.successThreshold
  elapsed : ∀ turn ∈ turns,
    (config.recoveryTimeoutSeconds : Seconds) ≤ turn.1 - opened.lastFailureTime
  after : CircuitBreaker
  succeeded : run drive opened (turns.flatMap successfulTurn) = some after
  in_order : ((before ++ turns.flatMap successfulTurn).map BreakerCall.now).Pairwise (· ≤ ·)

/-- The breaker has recovered: it is closed with no failures counted, and a
single later failure does not open it when more are allowed. -/
def Recovered (b : CircuitBreaker) : Prop :=
  b.state = .closed ∧ b.failureCount = 0 ∧
    (1 < b.config.failureThreshold → ∀ now later, now ≤ later →
      (b.onFailure now).isOpen later = false)

variable {name : String}

theorem Recovery.after_eq (r : Recovery name config) : r.after = r.opened :=
  run_successfulTurns r.is_opened r.turns r.succeeded

theorem Recovery.driven (r : Recovery name config) : Driven config r.after :=
  r.after_eq ▸ (driven_fresh name config).run r.reached

/-- Every open state that is reached in order has such a continuation: wait
for the recovery timeout, then let the turns succeed. -/
theorem exists_recovery {before : List BreakerCall}
    (hr : run drive (fresh name config) before = some b) (ho : b.state = .opened)
    (hin : (before.map BreakerCall.now).Pairwise (· ≤ ·)) :
    ∃ r : Recovery name config, r.before = before ∧ r.opened = b := by
  obtain ⟨late, hlate⟩ : ∃ late : Seconds, ∀ call ∈ before, call.now ≤ late := by
    obtain ⟨late, hl⟩ := (before.map BreakerCall.now).toFinset.exists_le
    exact ⟨late, fun call hc => hl _ (by simpa using ⟨call, hc, rfl⟩)⟩
  let wait := max late (b.lastFailureTime + config.recoveryTimeoutSeconds)
  let turns := List.replicate config.successThreshold (wait, wait)
  have hconfig : b.config = config := ((driven_fresh name config).run hr).config_eq
  have hadmit : b.isOpen wait = false := by
    have hw : b.lastFailureTime + config.recoveryTimeoutSeconds ≤ wait := le_max_right _ _
    simp only [isOpen, ho, decide_true, Bool.true_and, decide_eq_false_iff_not, not_lt, hconfig]
    linarith
  have hruns : ∀ n, run drive b ((List.replicate n (wait, wait)).flatMap successfulTurn)
      = some b := by
    intro n
    induction n with
    | zero => rfl
    | succ n ih =>
      simpa [List.replicate_succ, successfulTurn, run_cons, drive, hadmit,
        onSuccess_of_opened b ho] using ih
  have htimes : ∀ x ∈ (turns.flatMap successfulTurn).map BreakerCall.now, x = wait := by
    intro x hx
    simp only [List.mem_map, List.mem_flatMap] at hx
    obtain ⟨call, ⟨turn, ht, hc⟩, rfl⟩ := hx
    obtain rfl := (List.mem_replicate.mp ht).2
    simp only [successfulTurn, List.mem_cons, List.not_mem_nil, or_false] at hc
    rcases hc with rfl | rfl <;> rfl
  refine ⟨⟨before, b, hr, ho, turns, by simp [turns], ?_, b, hruns _, ?_⟩, rfl, rfl⟩
  · intro turn ht
    obtain rfl := (List.mem_replicate.mp ht).2
    have hw : b.lastFailureTime + config.recoveryTimeoutSeconds ≤ wait := le_max_right _ _
    simp only
    linarith
  · rw [List.map_append, List.pairwise_append]
    refine ⟨hin, ?_, ?_⟩
    · refine List.pairwise_iff_forall_sublist.mpr ?_
      intro x y hxy
      rw [htimes x (hxy.subset (by simp)), htimes y (hxy.subset (by simp))]
    · intro x hx y hy
      rw [htimes y hy]
      obtain ⟨call, hc, rfl⟩ := List.mem_map.mp hx
      exact (hlate call hc).trans (le_max_left _ _)

/-- No driven breaker ever recovers: after the successful turns it is still
open, with its failures counted, and reports open at the next failure. -/
theorem Recovery.never_recovers {name : String} {config : CircuitBreakerConfig}
    (r : Recovery name config) :
    ¬ r.after.Recovered ∧ r.after.state = .opened ∧ r.after.failureCount ≠ 0 ∧
      ∀ now, (r.after.onFailure now).isOpen now = true := by
  have ho : r.after.state = .opened := r.after_eq ▸ r.is_opened
  refine ⟨?_, ho, ?_, r.driven.isOpen_onFailure ho⟩
  · intro hboth
    obtain ⟨hclosed, _⟩ := hboth
    simp [ho] at hclosed
  · have hcount := r.driven.counted ho
    have hpos := config.failure_pos
    omega

/-- Two failures open the breaker; a minute later one turn succeeds, as many
as the threshold asks for. -/
def twoFailures : Recovery "gemini" { failureThreshold := 2, successThreshold := 1 } where
  before := [.isOpen 0 false, .onFailure 1, .isOpen 2 false, .onFailure 3]
  opened :=
    { name := "gemini", config := { failureThreshold := 2, successThreshold := 1 }
      state := .opened, failureCount := 2, lastFailureTime := 3 }
  reached := rfl
  is_opened := rfl
  turns := [(63, 64)]
  enough := rfl
  elapsed := by norm_num
  after :=
    { name := "gemini", config := { failureThreshold := 2, successThreshold := 1 }
      state := .opened, failureCount := 2, lastFailureTime := 3 }
  succeeded := by
    simp [successfulTurn, run_cons, drive, isOpen, CircuitBreaker.onSuccess]
    norm_num
  in_order := by
    simp [successfulTurn, BreakerCall.now]
    norm_num

theorem not_forall_recovered :
    ¬ ∀ (name : String) (config : CircuitBreakerConfig) (r : Recovery name config),
      r.after.Recovered := by
  intro h
  obtain ⟨hclosed, _⟩ := h _ _ twoFailures
  cases hclosed

end CircuitBreaker

end LlmService
