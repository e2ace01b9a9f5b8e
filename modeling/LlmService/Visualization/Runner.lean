import LlmService.Visualization.Jobs

/-!
# Running a job

`_run_job` of `visualization/runner.py`, and the two tasks that call it: `go`
of `api/visualizations.py`, where the service renders inline, and `handle` of
`visualization/worker.py`. The task that watches for a cancellation while a
job renders only reads the record, and tells the renderer to stop; what the
renderer then answers comes with its command.
-/

namespace LlmService

/-- The parameters of `_run_job` that its branches read: whether it is given a
`repair`, and whether repairs are enabled. -/
structure RunConfig where
  hasRepair : Bool := true
  repairEnabled : Bool := true

/-- The local variables of the loop. -/
structure Attempting where
  tracker : AttemptTracker
  specJson : String
  last : FailureCategory := .renderError
  needRepair : Bool := false

/-- How one pass of the loop ends: with `return`, `break` or `continue`. -/
inductive AttemptEnd where
  | returned (rec : Option JobRecord)
  | gaveUp (a : Attempting)
  | goesOn (a : Attempting)

namespace Attempting

/-- The end of the loop body, for an attempt that failed with `last`. -/
def failed (a : Attempting) (last : FailureCategory) : AttemptEnd :=
  let tracker := a.tracker.recordFailure last
  let a := { a with last, tracker }
  match tracker.nextStep last with
  | .giveUp => .gaveUp a
  | .repair => .goesOn { a with needRepair := true }
  | .retry => .goesOn { a with needRepair := false }

/-- `if not fixed`: the next attempt asks for a repair again. -/
def notFixed (a : Attempting) (hasRepair : Bool) : AttemptEnd :=
  let last := if hasRepair then FailureCategory.invalidSpec else .workerUnavailable
  let tracker := a.tracker.recordFailure last
  let a := { a with last, tracker }
  if tracker.nextStep last = .giveUp then .gaveUp a else .goesOn a

end Attempting

namespace Runner

variable (store : JobStore) (cfg : RunConfig)

/-- `updated or await store.get(job_id)`. -/
def orGet (updated : Option JobRecord) : JobScript (Option JobRecord) :=
  match updated with
  | some rec => return some rec
  | none => store.get

/-- The call of `repair`; an empty answer is none. -/
def repairSpec (a : Attempting) (attempt : Int) : JobScript (Option String) :=
  if cfg.hasRepair && cfg.repairEnabled then do
    let reply : Except Exc (Option String) ←
      (JobCommand.repair a.specJson a.last attempt).call
    match reply with
    | .ok fixed => return fixed.filter (· ≠ "")
    | .error exc => throw exc
  else return none

/-- From `store.update(job_id, JobState.RENDERING)` on. -/
def renderSpec (a : Attempting) : JobScript AttemptEnd := do
  let _ ← store.update .rendering {}
  let reply : Except Exc RenderResult ← (JobCommand.render a.specJson).call
  match reply with
  | .error exc => throw exc
  | .ok result =>
    match result.ok, result.path with
    | true, some path =>
      let saved : Except Exc String ← (JobCommand.save path).call
      match saved with
      | .error _ => return a.failed .storageFailure
      | .ok key =>
        let done ← store.update .ready
          { mediaKey := some key, failure := some none, history := some a.tracker.history }
        return .returned (← orGet store done)
    | _, _ =>
      let last := result.category.getD .renderError
      if last = .cancelled then
        let _ ← store.update .cancelled {}
        return .returned (← store.get)
      else return a.failed last

/-- From `validate_spec` on. -/
def validateSpec (a : Attempting) : JobScript AttemptEnd := do
  let reply : Validation ← (JobCommand.validate a.specJson).call
  match reply with
  | .specError unsupported =>
    return a.failed (if unsupported then .unsupportedTemplate else .invalidSpec)
  | .valueError => return a.failed .invalidSpec
  | .raised exc => throw exc
  | .ok => renderSpec store a

/-- One pass of the loop, for the attempt that has begun. -/
def attemptOnce (a : Attempting) (attempt : Int) : JobScript AttemptEnd := do
  match ← store.update .validating { attempt := some attempt } with
  | none => return .returned (← store.get)
  | some _ =>
    if a.needRepair then
      let _ ← store.update .repairing {}
      match ← repairSpec cfg a attempt with
      | none => return a.notFixed cfg.hasRepair
      | some fixed =>
        let _ ← store.update .validating {}
        validateSpec store { a with specJson := fixed, needRepair := false }
    else validateSpec store a

/-- What stands behind the loop. -/
def giveUp (a : Attempting) : JobScript (Option JobRecord) := do
  let failed ← store.update .failed
    { failure := some (some a.last), history := some a.tracker.history }
  orGet store failed

/-- `while True`; every pass begins an attempt, or ends the loop. -/
def attempts : Nat → Attempting → JobScript (Option JobRecord)
  | 0, a => giveUp store a
  | passes + 1, a =>
    match a.tracker.beginAttempt with
    | none => giveUp store a
    | some (attempt, tracker) => do
      let _ : Unit ← (JobCommand.attempt attempt).call
      match ← attemptOnce store cfg { a with tracker } attempt with
      | .returned rec => return rec
      | .gaveUp a => giveUp store a
      | .goesOn a => attempts passes a

/-! ## How an attempt ends -/

section Ends

variable {store cfg} {P : AttemptEnd → Prop} {a : Attempting}

theorem renderSpec_yields (hreturned : ∀ rec, P (.returned rec)) (hfailed : ∀ last, P (a.failed last)) :
    (renderSpec store a).Yields P := by
  apply (Script.yields_trivial _).bind
  intro _ _
  apply (Script.yields_trivial _).bind
  intro reply _
  cases reply with
  | error exc => trivial
  | ok result =>
    obtain ⟨ok, category, path⟩ := result
    have hcategory : Script.Yields P (if category.getD .renderError
        = .cancelled then do
          let _ ← store.update .cancelled {}
          return .returned (← store.get)
        else return a.failed (category.getD .renderError)) := by
      split
      · apply (Script.yields_trivial _).bind
        intro _ _
        apply (Script.yields_trivial _).bind
        intro rec _
        exact hreturned rec
      · exact hfailed _
    cases ok with
    | false => exact hcategory
    | true =>
      cases path with
      | none => exact hcategory
      | some path =>
        apply (Script.yields_trivial _).bind
        intro saved _
        cases saved with
        | error exc => exact hfailed _
        | ok key =>
          apply (Script.yields_trivial _).bind
          intro done _
          apply (Script.yields_trivial _).bind
          intro rec _
          exact hreturned rec

theorem validateSpec_yields (hreturned : ∀ rec, P (.returned rec))
    (hfailed : ∀ last, P (a.failed last)) : (validateSpec store a).Yields P := by
  apply (Script.yields_trivial _).bind
  intro reply _
  cases reply with
  | ok => exact renderSpec_yields hreturned hfailed
  | specError unsupported => exact hfailed _
  | valueError => exact hfailed _
  | raised exc => trivial

/-- An attempt returns, or fails with the tracker that it has begun with. -/
theorem attemptOnce_yields (attempt : Int) (hreturned : ∀ rec, P (.returned rec))
    (hfailed : ∀ a' : Attempting, a'.tracker = a.tracker → ∀ last, P (a'.failed last))
    (hnotFixed : P (a.notFixed cfg.hasRepair)) : (attemptOnce store cfg a attempt).Yields P := by
  apply (Script.yields_trivial _).bind
  intro begun _
  cases begun with
  | none =>
    apply (Script.yields_trivial _).bind
    intro rec _
    exact hreturned rec
  | some begun =>
    by_cases hrepair : a.needRepair
    · simp only [hrepair, if_true]
      apply (Script.yields_trivial _).bind
      intro _ _
      apply (Script.yields_trivial _).bind
      intro fixed _
      cases fixed with
      | none => exact hnotFixed
      | some fixed =>
        apply (Script.yields_trivial _).bind
        intro _ _
        exact validateSpec_yields hreturned (hfailed _ rfl)
    · simp only [hrepair]
      exact validateSpec_yields hreturned (hfailed a rfl)

end Ends

/-! ## The number of passes -/

/-- An attempt that goes on has used up what it began with. -/
def KeepsCount (tracker : AttemptTracker) : AttemptEnd → Prop
  | .goesOn a => a.tracker.remaining = tracker.remaining
  | _ => True

/-- The tracker of an attempt that goes on, but for its history. -/
theorem failed_tracker {a a' : Attempting} {last : FailureCategory} (h : a.failed last = .goesOn a') :
    a'.tracker = a.tracker.recordFailure last := by
  simp only [Attempting.failed] at h
  cases hstep : (a.tracker.recordFailure last).nextStep last with
  | giveUp =>
    rw [hstep] at h
    cases h
  | repair =>
    rw [hstep] at h
    obtain rfl := AttemptEnd.goesOn.inj h
    rfl
  | retry =>
    rw [hstep] at h
    obtain rfl := AttemptEnd.goesOn.inj h
    rfl

theorem notFixed_tracker {a a' : Attempting} {hasRepair : Bool}
    (h : a.notFixed hasRepair = .goesOn a') : ∃ last, a'.tracker = a.tracker.recordFailure last := by
  simp only [Attempting.notFixed] at h
  generalize (if hasRepair then FailureCategory.invalidSpec else .workerUnavailable) = last at h
  by_cases hgive : (a.tracker.recordFailure last).nextStep last = .giveUp
  · rw [if_pos hgive] at h
    cases h
  · rw [if_neg hgive] at h
    obtain rfl := AttemptEnd.goesOn.inj h
    exact ⟨last, rfl⟩

variable {store cfg}

/-- An attempt that goes on has added one failure to its history. -/
theorem attemptOnce_tracker (a : Attempting) (attempt : Int) :
    (attemptOnce store cfg a attempt).Yields fun ended =>
      ∀ a', ended = .goesOn a' → ∃ last, a'.tracker = a.tracker.recordFailure last := by
  apply attemptOnce_yields
  · intro rec a' h
    cases h
  · intro a' htracker last a'' h
    exact ⟨last, htracker ▸ failed_tracker h⟩
  · intro a' h
    exact notFixed_tracker h

theorem attemptOnce_keepsCount (a : Attempting) (attempt : Int) :
    (attemptOnce store cfg a attempt).Yields (KeepsCount a.tracker) := by
  apply (attemptOnce_tracker a attempt).mono
  intro ended h
  cases ended with
  | goesOn a' =>
    obtain ⟨last, hlast⟩ := h a' rfl
    show a'.tracker.remaining = _
    rw [hlast]
    rfl
  | _ => trivial

/-- With a pass more than there are attempts left, the loop ends by itself. -/
theorem attempts_enough {passes : Nat} {a : Attempting} (h : a.tracker.remaining < passes) :
    attempts store cfg passes a = attempts store cfg (passes + 1) a := by
  induction passes generalizing a with
  | zero =>
    have hspent : a.tracker.maxAttempts ≤ a.tracker.used := by
      simp only [AttemptTracker.remaining] at h
      omega
    simp only [attempts, AttemptTracker.beginAttempt, if_pos hspent]
  | succ passes ih =>
    rw [attempts, attempts]
    cases hbegin : a.tracker.beginAttempt with
    | none => rfl
    | some begun =>
      obtain ⟨attempt, tracker⟩ := begun
      have hremaining : tracker.remaining < passes := by
        simp only [AttemptTracker.beginAttempt] at hbegin
        by_cases hspent : a.tracker.maxAttempts ≤ a.tracker.used
        · rw [if_pos hspent] at hbegin
          cases hbegin
        · rw [if_neg hspent] at hbegin
          obtain ⟨-, rfl⟩ := Prod.mk.inj (Option.some.inj hbegin)
          simp only [AttemptTracker.remaining] at h ⊢
          omega
      apply (Script.yields_trivial _).bind_congr
      intro _ _
      apply (attemptOnce_keepsCount _ _).bind_congr
      intro ended hended
      cases ended with
      | returned rec => rfl
      | gaveUp a' => rfl
      | goesOn a' =>
        apply ih
        simp only [KeepsCount] at hended
        omega

variable (store cfg)

/-- `_run_job`. -/
def runJob : JobScript (Option JobRecord) := do
  if !(← store.claim) then store.get
  else
    match ← store.get with
    | none => return none
    | some record =>
      if record.state ∉ JobState.active then return some record
      else
        attempts store cfg (record.maxAttempts.toNat + 1)
          { tracker := { maxAttempts := record.maxAttempts }, specJson := record.spec }

/-- `go`: a job must not be stranded by an exception. -/
def go : JobScript Unit :=
  tryCatch (do let _ ← runJob store cfg) fun _ => do
    let _ ← store.update .failed { failure := some (some .renderError) }

/-- `handle`: an exception is logged. -/
def handle : JobScript Unit :=
  tryCatch (do let _ ← runJob store cfg) fun _ => return ()

/-- The task that runs a job. -/
def worker (d : Deployment) : JobScript Unit :=
  match d with
  | .inline => go d.store cfg
  | .worker => handle d.store cfg

end Runner

end LlmService
