import LlmService.Lib.NotedScript
import LlmService.Visualization.Jobs
import Mathlib.Data.List.AList
import Mathlib.Data.List.Perm.Basic

/-!
# Submitting jobs

`create_job` of `api/visualizations.py`, over all the jobs of a store. A store
in memory does each of its operations without an `await`, so that a request is
one step; over Redis a request is a script of commands, and requests interleave
between them. The expiry of job keys is left out.
-/

namespace LlmService

/-- A `JobRecord` with its owner. -/
structure OwnedJob where
  owner : String
  record : JobRecord
  deriving DecidableEq

/-- The jobs of a store, by id. -/
abbrev JobTable := AList fun _ : String => OwnedJob

namespace JobTable

/-- The ids of the owner's jobs that are in an active state. -/
def activeOf (jobs : JobTable) (owner : String) : List String :=
  (jobs.entries.filter fun entry =>
    entry.2.owner = owner ∧ entry.2.record.state ∈ JobState.active).map Sigma.fst

/-- A worker's `update`; what it writes, it writes at once. -/
def update (jobs : JobTable) (id : String) (new : JobState) (fields : Fields) (now : Seconds) :
    JobTable :=
  match jobs.lookup id with
  | none => jobs
  | some job =>
    match job.record.onUpdate new fields now with
    | .written rec => jobs.insert id { job with record := rec }
    | .kept | .refused => jobs

end JobTable

/-- `existing.state in (READY, *ACTIVE)`, for a job that may not be there. -/
def OwnedJob.IsReusable (existing : Option OwnedJob) : Prop :=
  ∃ job ∈ existing, job.record.state.Reusable

instance (existing : Option OwnedJob) : Decidable (OwnedJob.IsReusable existing) :=
  match existing with
  | none => isFalse fun ⟨_, h, _⟩ => nomatch h
  | some job =>
    decidable_of_iff job.record.state.Reusable
      ⟨fun h => ⟨job, rfl, h⟩, fun ⟨_, hjob, h⟩ => Option.some.inj hjob ▸ h⟩

/-- `public`. -/
structure JobView where
  id : String
  state : JobState
  attempt : Int
  maxAttempts : Int
  failure : Option FailureCategory
  ready : Bool
  deriving DecidableEq

def OwnedJob.view (job : OwnedJob) (id : String) : JobView :=
  { id
    state := job.record.state
    attempt := job.record.attempt
    maxAttempts := job.record.maxAttempts
    failure := job.record.failure
    ready := job.record.state = .ready }

/-- `USER_MESSAGES`. -/
def FailureCategory.userMessage : FailureCategory → String
  | .invalidSpec => "The animation description was not valid."
  | .unsupportedTemplate => "This kind of animation is not supported."
  | .sourceSyntax => "The diagram could not be drawn."
  | .renderError => "The visual could not be generated."
  | .invalidOutput => "The generated video was not usable."
  | .timeout => "Generating the visual took too long."
  | .resourceLimit => "The visual was too heavy to generate."
  | .storageFailure => "The generated visual could not be stored."
  | .workerUnavailable => "Animations are temporarily unavailable."
  | .cancelled => "The visual was cancelled."
  | .expired => "The visual expired."
  | .disabled => "This kind of visual is turned off."
  | .unauthorized => "You do not have access to this visual."
  | .budgetExhausted => "The visual limit was reached."

/-- The `HTTPException`s of `create_job`. -/
structure HTTPException where
  statusCode : Nat
  failure : FailureCategory
  message : String
  deriving DecidableEq

/-- What `create_job` calls of a store. -/
structure CreateStore (m : Type → Type) where
  get : String → m (Option OwnedJob)
  activeCount : String → m Nat
  hourlyCount : String → Nat → m Bool
  createIfAbsent : String → OwnedJob → m (OwnedJob × Bool)
  /-- `_start_inline` for the store in memory, `enqueue` for the other. -/
  start : String → m Unit

/-- What `create_job` reads of the configuration. `validateSpec` gives the
canonical text of a specification, or says whether its template is unsupported;
`jobIdFor` is the hash of the owner and that text. -/
structure VisualizationApi where
  manimEnabled : Bool := true
  maxActiveJobsPerUser : Nat := 2
  jobsPerUserPerHour : Nat := 20
  maxAttempts : Int := 3
  validateSpec : String → Except Bool String
  jobIdFor : String → String → String

namespace VisualizationApi

variable (api : VisualizationApi) {m : Type → Type} [Monad m] (store : CreateStore m)

/-- Both limits; the hourly one is only counted within the first. -/
def checkBudget (owner : String) : m (Option HTTPException) := do
  let active ← store.activeCount owner
  if api.maxActiveJobsPerUser ≤ active then
    return some ⟨429, .budgetExhausted, "Too many animations in progress."⟩
  else
    let within ← store.hourlyCount owner api.jobsPerUserPerHour
    if within then return none
    else return some ⟨429, .budgetExhausted, FailureCategory.budgetExhausted.userMessage⟩

/-- A job that is created is started. -/
def submit (owner jid spec : String) : m JobView := do
  let (job, created) ← store.createIfAbsent jid
    { owner, record := { spec, maxAttempts := api.maxAttempts } }
  if created then do
    store.start jid
    return job.view jid
  else return job.view jid

/-- `create_job`. -/
def createJob (owner body : String) : m (Except HTTPException JobView) :=
  if !api.manimEnabled then
    return .error ⟨403, .disabled, FailureCategory.disabled.userMessage⟩
  else
    match api.validateSpec body with
    | .error unsupported =>
      let category := if unsupported then FailureCategory.unsupportedTemplate else .invalidSpec
      return .error ⟨422, category, category.userMessage⟩
    | .ok spec => do
      let jid := api.jobIdFor owner spec
      let existing ← store.get jid
      if OwnedJob.IsReusable existing then
        return .ok (← api.submit store owner jid spec)
      else
        match ← api.checkBudget store owner with
        | some rejection => return .error rejection
        | none => return .ok (← api.submit store owner jid spec)

end VisualizationApi

/-! ## In memory -/

/-- `MemoryJobStore`, and the tasks started on its jobs. -/
structure MemoryJobs where
  jobs : JobTable := ∅
  claimed : List String := []
  hits : String → List Seconds := fun _ => []
  tasks : List String := []
  clock : Seconds := 0

namespace MemoryJobs

def activeCount (owner : String) : StateM MemoryJobs Nat := do
  return ((← get).jobs.activeOf owner).length

def hourlyCount (owner : String) (limit : Nat) : StateM MemoryJobs Bool := do
  let s ← get
  let recent := (s.hits owner).filter fun t => s.clock - t < 3600
  if limit ≤ recent.length then
    set { s with hits := Function.update s.hits owner recent }
    return false
  else
    set { s with hits := Function.update s.hits owner (recent ++ [s.clock]) }
    return true

def createIfAbsent (id : String) (job : OwnedJob) : StateM MemoryJobs (OwnedJob × Bool) := do
  let s ← get
  match s.jobs.lookup id with
  | some existing =>
    if existing.record.state.Reusable then return (existing, false)
    else
      set { s with jobs := s.jobs.insert id job, claimed := s.claimed.filter (· ≠ id) }
      return (job, true)
  | none =>
    set { s with jobs := s.jobs.insert id job, claimed := s.claimed.filter (· ≠ id) }
    return (job, true)

def store : CreateStore (StateM MemoryJobs) where
  get id := do return (← get).jobs.lookup id
  activeCount := activeCount
  hourlyCount := hourlyCount
  createIfAbsent := createIfAbsent
  start id := modify fun s => { s with tasks := s.tasks ++ [id] }

/-- A request, or what the tasks and the clock do between two of them. -/
inductive Label where
  | create (body : String)
  | update (id : String) (new : JobState) (fields : Fields)
  | claim (id : String)
  | tick (now : Seconds)

variable (api : VisualizationApi) (owner : String)

/-- No request is suspended: it runs from its first statement to its last. -/
def step (s : MemoryJobs) : Label → Option MemoryJobs
  | .create body => some ((api.createJob store owner body).run s).2
  | .update id new fields => some { s with jobs := s.jobs.update id new fields s.clock }
  | .claim id => some { s with claimed := id :: s.claimed }
  | .tick now => some { s with clock := now }

end MemoryJobs

/-! ## Over Redis -/

/-- The keys of `RedisJobStore`: the jobs, the set of ids of each owner, the
hourly counters, the claims and the queue. -/
structure RedisJobs where
  jobs : JobTable := ∅
  owned : String → List String := fun _ => []
  hours : String → Nat := fun _ => 0
  claims : List String := []
  queue : List String := []

/-- The commands that `create_job` comes to. -/
inductive RedisCommand where
  | get (id : String)
  | smembers (owner : String)
  | incr (owner : String)
  | expire (owner : String)
  | setNx (id : String) (job : OwnedJob)
  | set (id : String) (job : OwnedJob)
  | sadd (owner id : String)
  | deleteClaim (id : String)
  | rpush (id : String)

namespace RedisCommand

def Reply : RedisCommand → Type
  | .get _ => Option OwnedJob
  | .smembers _ => List String
  | .incr _ => Nat
  | .expire _ => Unit
  | .setNx _ _ => Bool
  | .set _ _ => Unit
  | .sadd _ _ => Unit
  | .deleteClaim _ => Unit
  | .rpush _ => Unit

/-- A command on the keys; a set is answered in whatever order. -/
def perform : (c : RedisCommand) → List String → RedisJobs → Option (c.Reply × RedisJobs)
  | .get id, _, s => some (s.jobs.lookup id, s)
  | .smembers owner, order, s => if order.Perm (s.owned owner) then some (order, s) else none
  | .incr owner, _, s =>
    some (s.hours owner + 1, { s with hours := Function.update s.hours owner (s.hours owner + 1) })
  | .expire _, _, s => some ((), s)
  | .setNx id job, _, s =>
    if (s.jobs.lookup id).isNone then some (true, { s with jobs := s.jobs.insert id job })
    else some (false, s)
  | .set id job, _, s => some ((), { s with jobs := s.jobs.insert id job })
  | .sadd owner id, _, s =>
    some ((), { s with owned := Function.update s.owned owner ((s.owned owner).insert id) })
  | .deleteClaim id, _, s => some ((), { s with claims := s.claims.filter (· ≠ id) })
  | .rpush id, _, s => some ((), { s with queue := s.queue ++ [id] })

end RedisCommand

abbrev RedisScript := Script RedisCommand.Reply Exc

/-- The script of one command. -/
def RedisCommand.call (c : RedisCommand) : RedisScript c.Reply := .command c

namespace RedisJobs

/-- The loop of `active_count`. -/
def countActive : List String → Nat → RedisScript Nat
  | [], n => return n
  | id :: ids, n => do
    let job : Option OwnedJob ← (RedisCommand.get id).call
    countActive ids (if ∃ job' ∈ job, job'.record.state ∈ JobState.active then n + 1 else n)

def activeCount (owner : String) : RedisScript Nat := do
  let ids : List String ← (RedisCommand.smembers owner).call
  countActive ids 0

def hourlyCount (owner : String) (limit : Nat) : RedisScript Bool := do
  let n : Nat ← (RedisCommand.incr owner).call
  if n = 1 then do
    let _ : Unit ← (RedisCommand.expire owner).call
    return n ≤ limit
  else return n ≤ limit

/-- The end of `create_if_absent`, where there is a job that is not reused. -/
def replace (id : String) (job : OwnedJob) : RedisScript (OwnedJob × Bool) := do
  let _ : Unit ← (RedisCommand.set id job).call
  let _ : Unit ← (RedisCommand.deleteClaim id).call
  return (job, true)

def createIfAbsent (id : String) (job : OwnedJob) : RedisScript (OwnedJob × Bool) := do
  let absent : Bool ← (RedisCommand.setNx id job).call
  if absent then do
    let _ : Unit ← (RedisCommand.sadd job.owner id).call
    return (job, true)
  else do
    let found : Option OwnedJob ← (RedisCommand.get id).call
    match found with
    | some existing =>
      if existing.record.state.Reusable then return (existing, false)
      else replace id job
    | none => replace id job

def store : CreateStore RedisScript where
  get id := (RedisCommand.get id).call
  activeCount := activeCount
  hourlyCount := hourlyCount
  createIfAbsent := createIfAbsent
  start id := (RedisCommand.rpush id).call

/-- What happens between the commands of the requests: a worker writes a state
or claims a job, an hourly counter expires. -/
inductive Elsewhere where
  | update (id : String) (new : JobState) (fields : Fields) (now : Seconds)
  | claim (id : String)
  | expireHour (owner : String)

def elsewhere : Elsewhere → RedisJobs → Option RedisJobs
  | .update id new fields now, s => some { s with jobs := s.jobs.update id new fields now }
  | .claim id, s => some { s with claims := id :: s.claims }
  | .expireHour owner, s => some { s with hours := Function.update s.hours owner 0 }

/-- How far a request has come: whether it has read the ids of its owner's
jobs and not created one since, and the ids of jobs it has created and not
listed yet. -/
structure Progress where
  counting : Bool := false
  unlisted : List String := []

/-- The progress behind a command. -/
def Progress.after (g : Progress) : (c : RedisCommand) → c.Reply → Progress
  | .smembers _, _ => { g with counting := true }
  | .setNx id _, true => { counting := false, unlisted := id :: g.unlisted }
  | .set _ _, _ => { g with counting := false }
  | .sadd _ id, _ => { g with unlisted := g.unlisted.filter (· ≠ id) }
  | _, _ => g

/-- What is left of a request, and how far it has come. -/
abbrev Request := NotedPool.Noted RedisCommand.Reply Exc (Except HTTPException JobView) Progress

abbrev Requests := Pool RedisJobs Request

abbrev Label := Pool.Label (List String) Elsewhere

/-- One command of one request, or what happens elsewhere. -/
def step (s : Requests) (a : Label) : Option Requests :=
  NotedPool.step RedisCommand.perform Progress.after elsewhere s a

/-- Requests of one owner, none of which has begun, on empty keys. -/
def requested (api : VisualizationApi) (owner : String) (bodies : List String) : Requests where
  shared := {}
  scripts := bodies.map fun body => (api.createJob store owner body, {})

/-- The command creates a job. -/
def Creates (s : RedisJobs) : RedisCommand → Prop
  | .setNx id _ => s.jobs.lookup id = none
  | .set _ _ => True
  | _ => False

/-- The request has read the ids of the jobs and may still create one. -/
def MayCreate (r : Request) : Prop := r.2.counting = true ∧ ¬ r.1.Finished

/-- The next command of a request does not run into another request. Where the
ids of the jobs are read, every job that was created is listed; where a job is
created, its request has read them, and no other request that has read them may
still create one. -/
def Undisturbed (s : Requests) : Label → Prop
  | .other _ => True
  | .work i _ =>
    ∀ (c : RedisCommand) (rest : c.Reply → Script RedisCommand.Reply Exc _) (g : Progress),
      s.scripts[i]? = some (.call c rest, g) →
        ((∃ owner, c = .smembers owner) → ∀ r ∈ s.scripts, r.2.unlisted = []) ∧
        (Creates s.shared c → g.counting = true ∧
          ∀ (j : Nat) (r : Request), j ≠ i → s.scripts[j]? = some r → ¬ MayCreate r)

end RedisJobs

end LlmService
