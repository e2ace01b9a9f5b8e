import LlmService.Lib.ProgramLogic
import LlmService.Lib.Runs
import LlmService.Utils.Uuid
import LlmService.Visualization.CreateJob
import LlmService.Visualization.Repair

/-!
# The visualization endpoints

The public endpoints of `api/visualizations.py` and the paths of `MediaStore`.
An endpoint is written over the methods of a store, so that it runs over both
of them; what the chain streams for a repair comes with its request. The
gateway's header is the only identity there is.
-/

namespace LlmService

/-! ## Users -/

/-- The last digits of a number in base 16. -/
def hexText : Nat → Nat → Text
  | 0, _ => []
  | width + 1, n => hexText width (n / 16) ++ [Nat.digitChar (n % 16)]

/-- `str(uuid)` -/
def uuidText (n : Nat) : String :=
  let hex := hexText 32 n
  String.ofList (hex.take 8 ++ ['-'] ++ (hex.drop 8).take 4 ++ ['-'] ++ (hex.drop 12).take 4 ++ ['-'] ++
    (hex.drop 16).take 4 ++ ['-'] ++ hex.drop 20)

/-- `_user`; `none` is its 401. -/
def userOf (header : Option String) : Option String :=
  (uuidInt (header.getD "").toList).map uuidText

/-! ## Files -/

/-- `[0-9a-f]` -/
def isHexDigit (c : Char) : Bool := ('0' ≤ c && c ≤ '9') || ('a' ≤ c && c ≤ 'f')

/-- `_JOB_ID.match(id)`; `$` also stands before a line break at the end. -/
def isJobId (id : String) : Bool :=
  let text := id.toList
  let text := if text.getLast? = some '\n' then text.dropLast else text
  text.take 3 = ['m', 'j', '_'] && (text.drop 3).length = 32 && (text.drop 3).all isHexDigit

/-- `path_for` and `thumb_path_for`, for a suffix. -/
def mediaPath (root suffix id : String) : Option String :=
  if isJobId id then some (root ++ "/" ++ id ++ suffix) else none

/-! ## Requests and replies -/

/-- An `HTTPException`. -/
structure ApiError where
  statusCode : Nat
  message : String
  failure : Option FailureCategory := none
  deriving DecidableEq

def ApiError.unauthenticated : ApiError := ⟨401, "Authentication required", none⟩

def ApiError.notFound : ApiError := ⟨404, "Not found", none⟩

/-- `FileResponse`, with the file's content. -/
structure FileResponse where
  path : String
  content : Text
  mediaType : String
  cacheControl : String := "private, max-age=3600"
  contentTypeOptions : String := "nosniff"
  deriving DecidableEq

inductive ApiReply where
  | error (e : ApiError)
  | job (view : JobView) (message : Option String)
  | file (response : FileResponse)
  | repaired (ok : Bool) (content : Option Text) (failure : Option String)
  deriving DecidableEq

/-- `RepairRequest`, with what its model checks. -/
structure RepairRequest where
  kind : String
  content : Text
  error : Text := "syntax".toList
  attempt : Int
  kind_mem : kind ∈ ["mermaid", "manim"]
  content_le : content.length ≤ 8000
  error_le : error.length ≤ 1000
  attempt_bounds : 2 ≤ attempt ∧ attempt ≤ 5

inductive ApiRequest where
  | createJob (body : String)
  | getJob (id : String)
  | getMedia (id : String)
  | getThumbnail (id : String)
  | cancelJob (id : String)
  | repair (body : RepairRequest) (generate : Option (TrimmedPrompt → Repair.ReplyStream))

/-! ## The endpoints -/

/-- What the endpoints call of a store, and `is_file` of a path with what is in it. -/
structure ApiStore (m : Type → Type) extends CreateStore m where
  update : String → JobState → Fields → m (Option OwnedJob)
  file : String → m (Option Text)

/-- What the endpoints read of the configuration. -/
structure VisualizationService where
  visualizationEnabled : Bool := true
  mermaidEnabled : Bool := true
  manimEnabled : Bool := true
  repairEnabled : Bool := true
  maxActiveJobsPerUser : Nat := 2
  jobsPerUserPerHour : Nat := 20
  maxAttempts : Int := 3
  mediaRoot : String
  validators : Repair.Validators
  validateSpec : String → Except Bool String
  jobIdFor : String → String → String

namespace VisualizationService

variable (svc : VisualizationService) {m : Type → Type} [Monad m] (store : ApiStore m)

def createApi : VisualizationApi where
  manimEnabled := svc.visualizationEnabled && svc.manimEnabled
  maxActiveJobsPerUser := svc.maxActiveJobsPerUser
  jobsPerUserPerHour := svc.jobsPerUserPerHour
  maxAttempts := svc.maxAttempts
  validateSpec := svc.validateSpec
  jobIdFor := svc.jobIdFor

def createJob (owner body : String) : m ApiReply := do
  match ← svc.createApi.createJob store.toCreateStore owner body with
  | .ok view => return .job view none
  | .error e => return .error ⟨e.statusCode, e.message, some e.failure⟩

/-- `_owned`: a job of someone else is not there. -/
def owned (owner id : String) : m (Option OwnedJob) := do
  if isJobId id then
    let rec' ← store.get id
    return rec'.filter fun job => job.owner = owner
  else return none

def getJob (owner id : String) : m ApiReply := do
  match ← owned store owner id with
  | none => return .error .notFound
  | some job => return .job (job.view id) (job.record.failure.map FailureCategory.userMessage)

/-- `get_media` and `get_thumbnail`. -/
def getFile (suffix mediaType owner id : String) : m ApiReply := do
  match ← owned store owner id with
  | none => return .error .notFound
  | some job =>
    match mediaPath svc.mediaRoot suffix id with
    | none => return .error .notFound
    | some path =>
      if job.record.state ≠ .ready then return .error .notFound
      else
        match ← store.file path with
        | none => return .error .notFound
        | some content => return .file { path, content, mediaType }

def getMedia (owner id : String) : m ApiReply := svc.getFile store ".mp4" "video/mp4" owner id

def getThumbnail (owner id : String) : m ApiReply := svc.getFile store ".png" "image/png" owner id

/-- `failure=FailureCategory.CANCELLED.value` -/
def cancelledFields : Fields := { failure := some (some .cancelled) }

def cancelJob (owner id : String) : m ApiReply := do
  match ← owned store owner id with
  | none => return .error .notFound
  | some job =>
    if job.record.state ∈ JobState.active then
      let updated ← store.update id .cancelled cancelledFields
      return .job ((updated.getD job).view id) none
    else return .job (job.view id) none

/-- The key that the repairs of an owner are counted under. -/
def repairKey (owner : String) : String := "repair:" ++ owner

def repair (owner : String) (body : RepairRequest)
    (generate : Option (TrimmedPrompt → Repair.ReplyStream)) : m ApiReply := do
  let refused := fun failure : String => ApiReply.repaired false none (some failure)
  if ¬ (svc.visualizationEnabled && svc.repairEnabled) then return refused "disabled"
  else if svc.maxAttempts < body.attempt then return refused "budget_exhausted"
  else if body.kind = "mermaid" && !svc.mermaidEnabled || body.kind = "manim" && !svc.manimEnabled then
    return refused "disabled"
  else
    let within ← store.hourlyCount (repairKey owner) (svc.jobsPerUserPerHour * 3)
    if !within then return refused "budget_exhausted"
    else
      let out := Repair.repairBlock svc.validators generate body.kind body.content body.error body.attempt
      if out.ok then return .repaired true (some out.content) none
      else return refused (if out.category = "" then "render_error" else out.category)

def handle (owner : String) : ApiRequest → m ApiReply
  | .createJob body => svc.createJob store owner body
  | .getJob id => getJob store owner id
  | .getMedia id => svc.getMedia store owner id
  | .getThumbnail id => svc.getThumbnail store owner id
  | .cancelJob id => cancelJob store owner id
  | .repair body generate => svc.repair store owner body generate

/-! ## A rule for all of them -/

/-- What a program logic says of the store on behalf of an owner: the ids of
the jobs it may touch are issued to the owner. -/
structure StoreRules (L : ProgramLogic m) (owner : String) (issued : String → Prop) : Prop where
  owned : ∀ id, L.Holds (fun found => ∀ job ∈ found, issued id) (owned store owner id)
  get : ∀ id, issued id → L.Runs (store.get id)
  activeCount : L.Runs (store.activeCount owner)
  hourlyCount : ∀ key ∈ [owner, repairKey owner], ∀ limit, L.Runs (store.hourlyCount key limit)
  createIfAbsent : ∀ id (job : OwnedJob), issued id → job.owner = owner →
    L.Runs (store.createIfAbsent id job)
  start : ∀ id, issued id → L.Runs (store.start id)
  update : ∀ id new fields, issued id → L.Runs (store.update id new fields)
  file : ∀ path, L.Runs (store.file path)

section Rules

variable {svc} {store} {L : ProgramLogic m} {owner : String} {issued : String → Prop}

open ProgramLogic (runs_pure runs_bind)

theorem StoreRules.createJob (h : StoreRules store L owner issued) (body : String)
    (hissued : ∀ spec, svc.validateSpec body = .ok spec → issued (svc.jobIdFor owner spec)) :
    L.Runs (svc.createJob store owner body) := by
  have hreply : ∀ result : Except HTTPException JobView, L.Runs (match result with
      | .ok view => pure (.job view none)
      | .error e => pure (.error ⟨e.statusCode, e.message, some e.failure⟩) : m ApiReply) := by
    intro result
    cases result with
    | ok view => exact runs_pure
    | error e => exact runs_pure
  refine runs_bind ?_ hreply
  simp only [VisualizationApi.createJob]
  by_cases hoff : (!svc.createApi.manimEnabled) = true
  · rw [if_pos hoff]
    exact runs_pure
  · rw [if_neg hoff]
    cases hspec : svc.createApi.validateSpec body with
    | error unsupported => exact runs_pure
    | ok spec =>
      have hid : issued (svc.createApi.jobIdFor owner spec) := hissued spec hspec
      have hsubmit : L.Runs (svc.createApi.submit store.toCreateStore owner
          (svc.createApi.jobIdFor owner spec) spec) := by
        refine runs_bind (h.createIfAbsent _ _ hid rfl) fun created => ?_
        obtain ⟨job, created⟩ := created
        cases created with
        | true => exact runs_bind (h.start _ hid) fun _ => runs_pure
        | false => exact runs_pure
      refine runs_bind (h.get _ hid) fun existing => ?_
      by_cases hreuse : OwnedJob.IsReusable existing
      · rw [if_pos hreuse]
        exact runs_bind hsubmit fun view => runs_pure
      · rw [if_neg hreuse]
        refine runs_bind ?_ fun rejection => ?_
        · refine runs_bind h.activeCount fun active => ?_
          by_cases hcap : svc.createApi.maxActiveJobsPerUser ≤ active
          · rw [if_pos hcap]
            exact runs_pure
          · rw [if_neg hcap]
            refine runs_bind (h.hourlyCount owner List.mem_cons_self _) fun within => ?_
            cases within with
            | true => exact runs_pure
            | false => exact runs_pure
        · cases rejection with
          | none => exact runs_bind hsubmit fun view => runs_pure
          | some rejection => exact runs_pure

theorem StoreRules.getFile (h : StoreRules store L owner issued) (suffix mediaType id : String) :
    L.Runs (svc.getFile store suffix mediaType owner id) := by
  refine L.bind (h.owned id) fun found _ => ?_
  cases found with
  | none => exact runs_pure
  | some job =>
    simp only
    cases mediaPath svc.mediaRoot suffix id with
    | none => exact runs_pure
    | some path =>
      simp only
      by_cases hready : job.record.state ≠ .ready
      · rw [if_pos hready]
        exact runs_pure
      · rw [if_neg hready]
        refine runs_bind (h.file path) fun content => ?_
        cases content with
        | none => exact runs_pure
        | some content => exact runs_pure

theorem StoreRules.cancelJob (h : StoreRules store L owner issued) (id : String) :
    L.Runs (cancelJob store owner id) := by
  refine L.bind (h.owned id) fun found hfound => ?_
  cases found with
  | none => exact runs_pure
  | some job =>
    simp only
    by_cases hactive : job.record.state ∈ JobState.active
    · rw [if_pos hactive]
      exact runs_bind (h.update id _ _ (hfound job rfl)) fun updated => runs_pure
    · rw [if_neg hactive]
      exact runs_pure

theorem StoreRules.repair (h : StoreRules store L owner issued) (body : RepairRequest)
    (generate : Option (TrimmedPrompt → Repair.ReplyStream)) :
    L.Runs (svc.repair store owner body generate) := by
  have hkey : repairKey owner ∈ [owner, repairKey owner] := by simp
  simp only [VisualizationService.repair]
  split
  · exact runs_pure
  · split
    · exact runs_pure
    · split
      · exact runs_pure
      · refine runs_bind (h.hourlyCount _ hkey _) fun within => ?_
        cases within with
        | false => exact runs_pure
        | true =>
          simp only [Bool.not_true, Bool.false_eq_true, if_false]
          split
          · exact runs_pure
          · exact runs_pure

/-- Every endpoint is in the logic that its operations are in. -/
theorem StoreRules.handle (h : StoreRules store L owner issued) (request : ApiRequest)
    (hissued : ∀ body spec, request = .createJob body → svc.validateSpec body = .ok spec →
      issued (svc.jobIdFor owner spec)) :
    L.Runs (svc.handle store owner request) := by
  cases request with
  | createJob body => exact h.createJob body fun spec => hissued body spec rfl
  | getJob id =>
    refine L.bind (h.owned id) fun found _ => ?_
    cases found with
    | none => exact runs_pure
    | some job => exact runs_pure
  | getMedia id => exact h.getFile ".mp4" "video/mp4" id
  | getThumbnail id => exact h.getFile ".png" "image/png" id
  | cancelJob id => exact h.cancelJob id
  | repair body generate => exact h.repair body generate

end Rules

end VisualizationService

/-! ## Over a store in memory -/

namespace MemoryJobs

/-- `update` of `MemoryJobStore`. -/
def updateJob (id : String) (new : JobState) (fields : Fields) : StateM MemoryJobs (Option OwnedJob) := do
  let s ← get
  match s.jobs.lookup id with
  | none => return none
  | some job =>
    match job.record.onUpdate new fields s.clock with
    | .kept => return some job
    | .refused => return none
    | .written rec' =>
      set { s with jobs := s.jobs.insert id { job with record := rec' } }
      return some { job with record := rec' }

/-- The store, next to the files of the media directory. -/
def apiStore (files : String → Option Text) : ApiStore (StateM MemoryJobs) where
  toCreateStore := store
  update := updateJob
  file path := return files path

end MemoryJobs

/-- The service in one process: its store, the media directory, and what it
has replied to whom. -/
structure VisualizationState where
  store : MemoryJobs := {}
  files : String → Option Text := fun _ => none
  replies : List (Option String × ApiReply) := []

namespace VisualizationState

/-- A request, or what the tasks, the disk and the clock do between two of them. -/
inductive Label where
  | request (header : Option String) (request : ApiRequest)
  | update (id : String) (new : JobState) (fields : Fields)
  | claim (id : String)
  | file (path : String) (content : Option Text)
  | tick (now : Seconds)

variable (svc : VisualizationService)

/-- No request over a store in memory is suspended before its last access to the store. -/
def step (s : VisualizationState) : Label → Option VisualizationState
  | .request header request =>
    match userOf header with
    | none => some { s with replies := s.replies ++ [(none, .error .unauthenticated)] }
    | some owner =>
      let (reply, store) := (svc.handle (MemoryJobs.apiStore s.files) owner request).run s.store
      some { s with store, replies := s.replies ++ [(some owner, reply)] }
  | .update id new fields =>
    some { s with store := { s.store with jobs := s.store.jobs.update id new fields s.store.clock } }
  | .claim id => some { s with store := { s.store with claimed := id :: s.store.claimed } }
  | .file path content => some { s with files := Function.update s.files path content }
  | .tick now => some { s with store := { s.store with clock := now } }

/-- What the owner has been answered. -/
def repliesTo (s : VisualizationState) (owner : String) : List ApiReply :=
  (s.replies.filter fun entry => entry.1 = some owner).map Prod.snd

end VisualizationState

end LlmService
