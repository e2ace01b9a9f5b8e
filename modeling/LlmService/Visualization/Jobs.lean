import LlmService.Basic
import LlmService.Lib.Script
import LlmService.Visualization.Policy

/-!
# Manim jobs and their stores

`visualization/jobs.py`, for one job id. The methods of `MemoryJobStore` run
without an `await`, each is one command; those of `RedisJobStore` are programs
of Redis commands. A store that has been written since `WATCH` is told apart
by its version, which counts the writes of the job's key.
-/

namespace LlmService

inductive JobState where
  | pending | validating | rendering | repairing | ready | failed | cancelled | expired
  deriving DecidableEq, Repr

namespace JobState

def terminal : List JobState := [.ready, .failed, .cancelled, .expired]

def active : List JobState := [.pending, .validating, .rendering, .repairing]

/-- `_ALLOWED`. -/
def allowed : JobState → List JobState
  | .pending => [.validating, .failed, .cancelled, .expired]
  | .validating => [.rendering, .repairing, .failed, .cancelled, .expired]
  | .rendering => [.ready, .repairing, .validating, .failed, .cancelled, .expired]
  | .repairing => [.validating, .failed, .cancelled, .expired]
  | .ready => [.expired]
  | .failed | .cancelled | .expired => []

/-- `can_transition`. -/
def CanTransition (old new : JobState) : Prop := new ∈ allowed old

instance (old new : JobState) : Decidable (CanTransition old new) :=
  inferInstanceAs (Decidable (_ ∈ _))

theorem active_or_terminal (state : JobState) : state ∈ active ∨ state ∈ terminal := by
  cases state <;> decide

theorem not_terminal_of_active {state : JobState} (h : state ∈ active) : state ∉ terminal := by
  cases state <;> first | decide | simp [active] at h

/-- A state that is left is active, or `ready` that expires. -/
theorem CanTransition.source {old new : JobState} (h : CanTransition old new) :
    old ∈ active ∨ (old = .ready ∧ new = .expired) := by
  cases old <;> simp_all [CanTransition, allowed, active]

end JobState

/-- `JobRecord`, without the id and the owner, which the store is keyed by, and
the time of its creation; an empty failure is `none`. -/
structure JobRecord where
  spec : String
  state : JobState := .pending
  attempt : Int := 0
  maxAttempts : Int := 3
  failure : Option FailureCategory := none
  mediaKey : String := ""
  updatedAt : Seconds := 0
  history : List FailureCategory := []
  deriving DecidableEq

/-- The keyword arguments of `update`; a field that is not given is `none`. -/
structure Fields where
  attempt : Option Int := none
  failure : Option (Option FailureCategory) := none
  mediaKey : Option String := none
  history : Option (List FailureCategory) := none
  deriving DecidableEq

/-- `setattr(rec, k, v)` for the given fields. -/
def JobRecord.setFields (rec : JobRecord) (fields : Fields) : JobRecord :=
  { rec with
    attempt := fields.attempt.getD rec.attempt
    failure := fields.failure.getD rec.failure
    mediaKey := fields.mediaKey.getD rec.mediaKey
    history := fields.history.getD rec.history }

/-- What `update` decides on the record it finds. -/
inductive UpdateDecision where
  | kept | refused | written (rec : JobRecord)
  deriving DecidableEq

/-- The body of `update`, the same in both stores. -/
def JobRecord.onUpdate (rec : JobRecord) (new : JobState) (fields : Fields) (now : Seconds) :
    UpdateDecision :=
  if rec.state = new ∧ new ∈ JobState.terminal then .kept
  else if ¬ JobState.CanTransition rec.state new then .refused
  else .written { ({ rec with state := new } : JobRecord).setFields fields with updatedAt := now }

theorem JobRecord.onUpdate_written {rec rec' : JobRecord} {new : JobState} {fields : Fields}
    {now : Seconds} (h : rec.onUpdate new fields now = .written rec') :
    JobState.CanTransition rec.state new ∧ rec'.state = new := by
  simp only [JobRecord.onUpdate] at h
  by_cases hkept : rec.state = new ∧ new ∈ JobState.terminal
  · rw [if_pos hkept] at h
    cases h
  · rw [if_neg hkept] at h
    by_cases hcan : JobState.CanTransition rec.state new
    · rw [if_neg (not_not_intro hcan)] at h
      obtain rfl := UpdateDecision.written.inj h
      exact ⟨hcan, rfl⟩
    · rw [if_pos hcan] at h
      cases h

theorem JobRecord.onUpdate_kept {rec : JobRecord} {new : JobState} {fields : Fields}
    {now : Seconds} (h : rec.onUpdate new fields now = .kept) :
    rec.state = new ∧ new ∈ JobState.terminal := by
  simp only [JobRecord.onUpdate] at h
  by_cases hkept : rec.state = new ∧ new ∈ JobState.terminal
  · exact hkept
  · rw [if_neg hkept] at h
    by_cases hcan : ¬ JobState.CanTransition rec.state new
    · rw [if_pos hcan] at h
      cases h
    · rw [if_neg hcan] at h
      cases h

theorem JobRecord.onUpdate_refused {rec : JobRecord} {new : JobState} {fields : Fields}
    {now : Seconds} (h : rec.onUpdate new fields now = .refused) :
    ¬ JobState.CanTransition rec.state new := by
  simp only [JobRecord.onUpdate] at h
  by_cases hkept : rec.state = new ∧ new ∈ JobState.terminal
  · rw [if_pos hkept] at h
    cases h
  · rw [if_neg hkept] at h
    by_cases hcan : JobState.CanTransition rec.state new
    · rw [if_neg (not_not_intro hcan)] at h
      cases h
    · exact hcan

/-! ## The state of a store -/

/-- What is stored for the job id: its record, the number of times its key was
written, and the claim. `incarnation` counts the records that were created. -/
structure JobEntry where
  job : Option JobRecord := none
  version : Nat := 0
  claimed : Bool := false
  incarnation : Nat := 0
  clock : Seconds := 0
  deriving DecidableEq

namespace JobEntry

/-- The key is set to the record. -/
def write (e : JobEntry) (rec : JobRecord) : JobEntry :=
  { e with job := some rec, version := e.version + 1 }

/-- The key is set to a record of its own. -/
def create (e : JobEntry) (rec : JobRecord) : JobEntry :=
  { e.write rec with incarnation := e.incarnation + 1 }

end JobEntry

/-- What is not created again: `existing.state in (READY, *ACTIVE)`. -/
def JobState.Reusable (state : JobState) : Prop := state = .ready ∨ state ∈ active

instance (state : JobState) : Decidable state.Reusable := inferInstanceAs (Decidable (_ ∨ _))

/-- What `validate_spec(json.loads(…))` comes to. -/
inductive Validation where
  | ok
  | specError (unsupported : Bool)
  /-- A `ValueError` or a `RecursionError`. -/
  | valueError
  | raised (exc : Exc)
  deriving DecidableEq

/-- `RenderResult`. -/
structure RenderResult where
  ok : Bool
  category : Option FailureCategory := none
  path : Option String := none
  deriving DecidableEq

/-- The commands of the stores, and what a runner calls beside them. -/
inductive JobCommand where
  /-- `get` of both stores. -/
  | get
  /-- `claim` of both stores. -/
  | claim
  | memoryUpdate (new : JobState) (fields : Fields)
  | memoryCreate (rec : JobRecord)
  | watch
  /-- `MULTI`, `SET`, `EXEC` on a connection that watches the key since `version`. -/
  | exec (version : Nat) (rec : JobRecord)
  | setNx (rec : JobRecord)
  | set (rec : JobRecord)
  | deleteClaim
  /-- `time.time()`. -/
  | time
  /-- `begin_attempt` of the runner has returned. -/
  | attempt (number : Int)
  | repair (spec : String) (error : FailureCategory) (attempt : Int)
  | validate (spec : String)
  | render (spec : String)
  | save (path : String)

/-- The answers to the commands. -/
def JobCommand.Reply : JobCommand → Type
  | .get => Option JobRecord
  | .claim => Bool
  | .memoryUpdate _ _ => Option JobRecord
  | .memoryCreate _ => JobRecord × Bool
  | .watch => Nat
  | .exec _ _ => Bool
  | .setNx _ => Bool
  | .set _ => Unit
  | .deleteClaim => Unit
  | .time => Seconds
  | .attempt _ => Unit
  | .repair _ _ _ => Except Exc (Option String)
  | .validate _ => Validation
  | .render _ => Except Exc RenderResult
  | .save _ => Except Exc String

/-- What the environment answers. -/
inductive JobAnswer where
  | none
  | repaired (reply : Except Exc (Option String))
  | validated (reply : Validation)
  | rendered (reply : Except Exc RenderResult)
  | saved (reply : Except Exc String)

open JobEntry in
/-- A command on the store; the calls of the runner change nothing there. -/
def JobCommand.perform : (c : JobCommand) → JobAnswer → JobEntry → Option (c.Reply × JobEntry)
  | .get, _, e => some (e.job, e)
  | .claim, _, e => if e.claimed then some (false, e) else some (true, { e with claimed := true })
  | .memoryUpdate new fields, _, e =>
    match e.job with
    | .none => some (Option.none, e)
    | .some rec =>
      match rec.onUpdate new fields e.clock with
      | .kept => some (some rec, e)
      | .refused => some (Option.none, e)
      | .written rec' => some (some rec', e.write rec')
  | .memoryCreate rec, _, e =>
    match e.job with
    | .some existing =>
      if existing.state.Reusable then some ((existing, false), e)
      else some ((rec, true), { e.create rec with claimed := false })
    | .none => some ((rec, true), { e.create rec with claimed := false })
  | .watch, _, e => some (e.version, e)
  | .exec version rec, _, e =>
    if e.version = version then some (true, e.write rec) else some (false, e)
  | .setNx rec, _, e => if e.job.isNone then some (true, e.create rec) else some (false, e)
  | .set rec, _, e => some ((), e.create rec)
  | .deleteClaim, _, e => some ((), { e with claimed := false })
  | .time, _, e => some (e.clock, e)
  | .attempt _, _, e => some ((), e)
  | .repair _ _ _, .repaired reply, e => some (reply, e)
  | .validate _, .validated reply, e => some (reply, e)
  | .render _, .rendered reply, e => some (reply, e)
  | .save _, .saved reply, e => some (reply, e)
  | _, _, _ => Option.none

/-- What the update of a store in memory can do. -/
theorem perform_memoryUpdate {new : JobState} {fields : Fields} (w : JobAnswer)
    {e e' : JobEntry} {r : Option JobRecord}
    (h : (JobCommand.memoryUpdate new fields).perform w e = some (r, e')) :
    (e.job = none ∧ r = none ∧ e' = e) ∨
    ∃ rec, e.job = some rec ∧
      ((rec.onUpdate new fields e.clock = .kept ∧ r = some rec ∧ e' = e) ∨
        (rec.onUpdate new fields e.clock = .refused ∧ r = none ∧ e' = e) ∨
        ∃ rec', rec.onUpdate new fields e.clock = .written rec' ∧ r = some rec' ∧
          e' = e.write rec') := by
  simp only [JobCommand.perform] at h
  cases hjob : e.job with
  | none =>
    rw [hjob] at h
    obtain ⟨rfl, rfl⟩ := Prod.mk.inj (Option.some.inj h)
    exact .inl ⟨rfl, rfl, rfl⟩
  | some rec =>
    simp only [hjob] at h
    refine .inr ⟨rec, rfl, ?_⟩
    cases hdecision : rec.onUpdate new fields e.clock with
    | kept =>
      rw [hdecision] at h
      obtain ⟨rfl, rfl⟩ := Prod.mk.inj (Option.some.inj h)
      exact .inl ⟨rfl, rfl, rfl⟩
    | refused =>
      rw [hdecision] at h
      obtain ⟨rfl, rfl⟩ := Prod.mk.inj (Option.some.inj h)
      exact .inr (.inl ⟨rfl, rfl, rfl⟩)
    | written rec' =>
      rw [hdecision] at h
      obtain ⟨rfl, rfl⟩ := Prod.mk.inj (Option.some.inj h)
      exact .inr (.inr ⟨rec', rfl, rfl, rfl⟩)

theorem perform_exec {version : Nat} {rec : JobRecord} (w : JobAnswer) {e e' : JobEntry}
    {r : Bool} (h : (JobCommand.exec version rec).perform w e = some (r, e')) :
    (e.version = version ∧ r = true ∧ e' = e.write rec) ∨
      (e.version ≠ version ∧ r = false ∧ e' = e) := by
  simp only [JobCommand.perform] at h
  by_cases hversion : e.version = version
  · rw [if_pos hversion] at h
    obtain ⟨rfl, rfl⟩ := Prod.mk.inj (Option.some.inj h)
    exact .inl ⟨hversion, rfl, rfl⟩
  · rw [if_neg hversion] at h
    obtain ⟨rfl, rfl⟩ := Prod.mk.inj (Option.some.inj h)
    exact .inr ⟨hversion, rfl, rfl⟩

/-- The answers to what a runner calls are the environment's. -/
theorem perform_repair {spec : String} {error : FailureCategory} {attempt : Int} (w : JobAnswer)
    {e e' : JobEntry} {r : Except Exc (Option String)}
    (h : (JobCommand.repair spec error attempt).perform w e = some (r, e')) :
    w = .repaired r ∧ e' = e := by
  cases w with
  | repaired reply =>
    obtain ⟨rfl, rfl⟩ := Prod.mk.inj (Option.some.inj h)
    exact ⟨rfl, rfl⟩
  | _ => cases h

theorem perform_validate {spec : String} (w : JobAnswer) {e e' : JobEntry} {r : Validation}
    (h : (JobCommand.validate spec).perform w e = some (r, e')) : w = .validated r ∧ e' = e := by
  cases w with
  | validated reply =>
    obtain ⟨rfl, rfl⟩ := Prod.mk.inj (Option.some.inj h)
    exact ⟨rfl, rfl⟩
  | _ => cases h

theorem perform_render {spec : String} (w : JobAnswer) {e e' : JobEntry}
    {r : Except Exc RenderResult} (h : (JobCommand.render spec).perform w e = some (r, e')) :
    w = .rendered r ∧ e' = e := by
  cases w with
  | rendered reply =>
    obtain ⟨rfl, rfl⟩ := Prod.mk.inj (Option.some.inj h)
    exact ⟨rfl, rfl⟩
  | _ => cases h

theorem perform_save {path : String} (w : JobAnswer) {e e' : JobEntry} {r : Except Exc String}
    (h : (JobCommand.save path).perform w e = some (r, e')) : w = .saved r ∧ e' = e := by
  cases w with
  | saved reply =>
    obtain ⟨rfl, rfl⟩ := Prod.mk.inj (Option.some.inj h)
    exact ⟨rfl, rfl⟩
  | _ => cases h

/-- Scripts on the store. -/
abbrev JobScript := Script JobCommand.Reply Exc

/-- The script of one command. -/
def JobCommand.call (c : JobCommand) : JobScript c.Reply := .command c

/-- The methods of `JobStore` that a job goes through. -/
structure JobStore where
  createIfAbsent : JobRecord → JobScript (JobRecord × Bool)
  get : JobScript (Option JobRecord)
  update : JobState → Fields → JobScript (Option JobRecord)
  claim : JobScript Bool

def getJob : JobScript (Option JobRecord) := JobCommand.get.call

def claimJob : JobScript Bool := JobCommand.claim.call

/-- `MemoryJobStore`. -/
def memoryJobStore : JobStore where
  createIfAbsent rec := (JobCommand.memoryCreate rec).call
  get := getJob
  update new fields := (JobCommand.memoryUpdate new fields).call
  claim := claimJob

namespace RedisJobStore

def createIfAbsent (rec : JobRecord) : JobScript (JobRecord × Bool) := do
  let absent : Bool ← (JobCommand.setNx rec).call
  if absent then return (rec, true)
  match ← getJob with
  | some existing =>
    if existing.state.Reusable then return (existing, false)
    replace
  | none => replace
where
  replace : JobScript (JobRecord × Bool) := do
    let _ : Unit ← (JobCommand.set rec).call
    let _ : Unit ← JobCommand.deleteClaim.call
    return (rec, true)

/-- The loop of `update`; a `WatchError` takes the next round. -/
def updateFrom (new : JobState) (fields : Fields) : Nat → JobScript (Option JobRecord)
  | 0 => return none
  | tries + 1 => do
    let version : Nat ← JobCommand.watch.call
    match ← getJob with
    | none => return none
    | some rec =>
      let now : Seconds ← JobCommand.time.call
      match rec.onUpdate new fields now with
      | .kept => return some rec
      | .refused => return none
      | .written rec' =>
        let executed : Bool ← (JobCommand.exec version rec').call
        if executed then return some rec'
        updateFrom new fields tries

def tries : Nat := 5

end RedisJobStore

/-- `RedisJobStore`. -/
def redisJobStore : JobStore where
  createIfAbsent := RedisJobStore.createIfAbsent
  get := getJob
  update new fields := RedisJobStore.updateFrom new fields RedisJobStore.tries
  claim := claimJob

/-- Where the jobs of a service run: on tasks of its own, over a store in its
memory, or in worker processes, over Redis. -/
inductive Deployment where
  | inline | worker
  deriving DecidableEq, Repr

def Deployment.store : Deployment → JobStore
  | .inline => memoryJobStore
  | .worker => redisJobStore

/-- The commands of an update that is not retried. -/
def Deployment.updateLength : Deployment → Nat
  | .inline => 1
  | .worker => 4

/-- The commands of an update that writes nothing. -/
def Deployment.refusalLength : Deployment → Nat
  | .inline => 1
  | .worker => 3

end LlmService
