import LlmService.Lib.Lockstep
import LlmService.Visualization.Endpoints
import LlmService.Visualization.Isolation

/-!
# Isolation over Redis

The endpoints over a store in Redis: a request is a script of commands, and the
requests of all users, the workers and the expiry of keys interleave between
any two of them. Still the requests of a user run as if nobody else had asked
for anything.
-/

namespace LlmService

open Unwinding
open VisualizationService (repairKey owned StoreRules)

/-- The commands of the endpoints: those of `RedisJobs`, the optimistic update
of a job, and the files of the media directory. -/
inductive ApiCommand where
  | keys (c : RedisCommand)
  /-- `WATCH` of the key of a job -/
  | watch (id : String)
  /-- `MULTI`, `SET`, `EXEC`, on a connection that watches the key since `version` -/
  | exec (id : String) (version : Nat) (job : OwnedJob)
  | time
  | file (path : String)

/-- The keys, how often that of each job was written, the media directory and the clock. -/
structure RedisService where
  keys : RedisJobs := {}
  versions : String → Nat := fun _ => 0
  files : String → Option Text := fun _ => none
  clock : Seconds := 0

/-- The job whose key a command writes. -/
def RedisCommand.written (s : RedisJobs) : RedisCommand → Option String
  | .setNx id _ => if (s.jobs.lookup id).isNone then some id else none
  | .set id _ => some id
  | _ => none

namespace RedisService

def write (s : RedisService) (id : String) (job : OwnedJob) : RedisService :=
  { s with
    keys := { s.keys with jobs := s.keys.jobs.insert id job }
    versions := Function.update s.versions id (s.versions id + 1) }

/-- The key of a job is gone. -/
def remove (s : RedisService) (id : String) : RedisService :=
  { s with
    keys := { s.keys with jobs := s.keys.jobs.erase id }
    versions := Function.update s.versions id (s.versions id + 1) }

/-- Behind a command that leaves these keys: what it wrote has another version. -/
def after (s : RedisService) (c : RedisCommand) (keys : RedisJobs) : RedisService :=
  { s with
    keys
    versions := match c.written s.keys with
      | some id => Function.update s.versions id (s.versions id + 1)
      | none => s.versions }

end RedisService

namespace ApiCommand

def Reply : ApiCommand → Type
  | .keys c => c.Reply
  | .watch _ => Nat
  | .exec _ _ _ => Bool
  | .time => Seconds
  | .file _ => Option Text

def perform : (c : ApiCommand) → List String → RedisService → Option (c.Reply × RedisService)
  | .keys c, order, s =>
    (c.perform order s.keys).map fun answer => (answer.1, s.after c answer.2)
  | .watch id, _, s => some (s.versions id, s)
  | .exec id version job, _, s =>
    if s.versions id = version then some (true, s.write id job) else some (false, s)
  | .time, _, s => some (s.clock, s)
  | .file path, _, s => some (s.files path, s)

end ApiCommand

abbrev ApiScript := Script ApiCommand.Reply Exc

def ApiCommand.call (c : ApiCommand) : ApiScript c.Reply := .command c

namespace RedisService

/-- A script on the keys. -/
def onKeys {α : Type} (p : RedisScript α) : ApiScript α := p.embed ApiCommand.keys fun _ => rfl

/-- The loop of `update`; a `WatchError` takes the next round. -/
def updateFrom (id : String) (new : JobState) (fields : Fields) : Nat → ApiScript (Option OwnedJob)
  | 0 => return none
  | tries + 1 => do
    let version : Nat ← (ApiCommand.watch id).call
    let found : Option OwnedJob ← (ApiCommand.keys (.get id)).call
    match found with
    | none => return none
    | some job =>
      let now : Seconds ← ApiCommand.time.call
      match job.record.onUpdate new fields now with
      | .kept => return some job
      | .refused => return none
      | .written record =>
        let executed : Bool ← (ApiCommand.exec id version { job with record }).call
        if executed then return some { job with record }
        else updateFrom id new fields tries

/-- `RedisJobStore`, next to the files of the media directory. -/
def apiStore : ApiStore ApiScript where
  get id := onKeys (RedisJobs.store.get id)
  activeCount owner := onKeys (RedisJobs.store.activeCount owner)
  hourlyCount key limit := onKeys (RedisJobs.store.hourlyCount key limit)
  createIfAbsent id job := onKeys (RedisJobs.store.createIfAbsent id job)
  start id := onKeys (RedisJobs.store.start id)
  update id new fields := updateFrom id new fields RedisJobStore.tries
  file path := (ApiCommand.file path).call

/-- What happens between the commands of the requests: a worker writes a state
or claims a job, keys expire, files come and go. -/
inductive Elsewhere where
  | update (id : String) (new : JobState) (fields : Fields)
  | claim (id : String)
  | expireJob (id : String)
  | expireHour (key : String)
  | file (path : String) (content : Option Text)
  | tick (now : Seconds)

def elsewhere : Elsewhere → RedisService → Option RedisService
  | .update id new fields, s =>
    match s.keys.jobs.lookup id with
    | none => some s
    | some job =>
      match job.record.onUpdate new fields s.clock with
      | .written record => some (s.write id { job with record })
      | .kept | .refused => some s
  | .claim id, s => some { s with keys := { s.keys with claims := id :: s.keys.claims } }
  | .expireJob id, s => some (s.remove id)
  | .expireHour key, s =>
    some { s with keys := { s.keys with hours := Function.update s.keys.hours key 0 } }
  | .file path content, s => some { s with files := Function.update s.files path content }
  | .tick now, s => some { s with clock := now }

abbrev Requests := Pool RedisService (ApiScript ApiReply)

abbrev Label := Pool.Label (List String) Elsewhere

def step : Requests → Label → Option Requests := Pool.step ApiCommand.perform elsewhere

/-- Who asks for what. -/
abbrev Asked := Option String × ApiRequest

def script (svc : VisualizationService) (asked : Asked) : ApiScript ApiReply :=
  match userOf asked.1 with
  | none => return .error .unauthenticated
  | some owner => svc.handle apiStore owner asked.2

/-- Requests, none of which has begun, on empty keys. -/
def requested (svc : VisualizationService) (asked : List Asked) : Requests where
  shared := {}
  scripts := asked.map (script svc)

/-! ## What an owner sees -/

open JobTable (Keyed ofOwner lookup_ofOwner mem_lookup_ofOwner ofOwner_insert_own ofOwner_insert_other)

/-- The keys look the same to the owner. -/
structure Looks (issued : String → String → Prop) (owner : String) (s t : RedisService) : Prop where
  jobs : s.keys.jobs.ofOwner owner = t.keys.jobs.ofOwner owner
  versions : ∀ id, issued id owner → s.versions id = t.versions id
  owned : s.keys.owned owner = t.keys.owned owner
  listed : ∀ id ∈ s.keys.owned owner, issued id owner
  hours : ∀ key ∈ [owner, repairKey owner], s.keys.hours key = t.keys.hours key
  files : s.files = t.files
  clock : s.clock = t.clock
  left : Keyed issued s.keys.jobs
  right : Keyed issued t.keys.jobs

section Looks

variable {issued : String → String → Prop} {owner id : String} {s t : RedisService} {job : OwnedJob}

theorem Looks.symm (h : Looks issued owner s t) : Looks issued owner t s where
  jobs := h.jobs.symm
  versions id hid := (h.versions id hid).symm
  owned := h.owned.symm
  listed id hid := h.listed id (h.owned ▸ hid)
  hours key hkey := (h.hours key hkey).symm
  files := h.files.symm
  clock := h.clock.symm
  left := h.right
  right := h.left

theorem Looks.lookup_eq (h : Looks issued owner s t)
    (hapart : ∀ id o o', issued id o → issued id o' → o = o') (hid : issued id owner) :
    s.keys.jobs.lookup id = t.keys.jobs.lookup id :=
  Keyed.lookup_eq h.left h.right h.jobs hapart hid

/-- The owner's own job is written in both. -/
theorem Looks.write (h : Looks issued owner s t) (hid : issued id owner) (hjob : job.owner = owner) :
    Looks issued owner (s.write id job) (t.write id job) where
  jobs := by
    show ofOwner (s.keys.jobs.insert id job) owner = ofOwner (t.keys.jobs.insert id job) owner
    rw [ofOwner_insert_own hjob, ofOwner_insert_own hjob, h.jobs]
  versions id' hid' := by
    show Function.update s.versions id _ id' = Function.update t.versions id _ id'
    by_cases heq : id' = id
    · rw [heq, Function.update_self, Function.update_self, h.versions id hid]
    · rw [Function.update_of_ne heq, Function.update_of_ne heq, h.versions id' hid']
  owned := h.owned
  listed := h.listed
  hours := h.hours
  files := h.files
  clock := h.clock
  left := h.left.insert (hjob ▸ hid)
  right := h.right.insert (hjob ▸ hid)

/-- A job that is not the owner's is written in one of them. -/
theorem Looks.write_left (h : Looks issued owner s t) (hid : ¬ issued id owner)
    (hjob : issued id job.owner) : Looks issued owner (s.write id job) t where
  jobs := by
    have hne : job.owner ≠ owner := fun howner => hid (howner ▸ hjob)
    show ofOwner (s.keys.jobs.insert id job) owner = ofOwner t.keys.jobs owner
    rw [ofOwner_insert_other hne, h.jobs]
    intro old hold howner
    exact hid (howner ▸ h.left id old hold)
  versions id' hid' := by
    have hne : id' ≠ id := fun heq => hid (heq ▸ hid')
    show Function.update s.versions id _ id' = t.versions id'
    rw [Function.update_of_ne hne, h.versions id' hid']
  owned := h.owned
  listed := h.listed
  hours := h.hours
  files := h.files
  clock := h.clock
  left := h.left.insert hjob
  right := h.right

theorem Looks.remove (h : Looks issued owner s t) (id : String) :
    Looks issued owner (s.remove id) (t.remove id) where
  jobs := by
    show ofOwner (s.keys.jobs.erase id) owner = ofOwner (t.keys.jobs.erase id) owner
    rw [JobTable.ofOwner_erase, JobTable.ofOwner_erase, h.jobs]
  versions id' hid' := by
    show Function.update s.versions id _ id' = Function.update t.versions id _ id'
    by_cases heq : id' = id
    · subst heq
      rw [Function.update_self, Function.update_self, h.versions id' hid']
    · rw [Function.update_of_ne heq, Function.update_of_ne heq, h.versions id' hid']
  owned := h.owned
  listed := h.listed
  hours := h.hours
  files := h.files
  clock := h.clock
  left := h.left.erase id
  right := h.right.erase id

end Looks

/-! ## The operations -/

section Rules

variable {issued : String → String → Prop} {owner other : String}

/-- The scripts that run alike from what looks the same to the owner. -/
abbrev Own (issued : String → String → Prop) (owner : String) : ProgramLogic ApiScript :=
  lockstep ApiCommand.perform (Looks issued owner)

/-- The scripts whose commands the owner does not see. -/
abbrev Unseen (issued : String → String → Prop) (owner : String) : ProgramLogic ApiScript :=
  guarded ApiCommand.perform (Looks issued owner)

theorem perform_keys_iff {c : RedisCommand} {order : List String} {s s' : RedisService} {r : c.Reply} :
    (ApiCommand.keys c).perform order s = some (r, s') ↔
      ∃ keys, c.perform order s.keys = some (r, keys) ∧ s' = s.after c keys := by
  constructor
  · intro h
    obtain ⟨⟨r', keys⟩, hperform, heq⟩ := Option.map_eq_some_iff.mp h
    obtain ⟨rfl, rfl⟩ := Prod.mk.inj heq
    exact ⟨keys, hperform, rfl⟩
  · intro h
    obtain ⟨keys, hperform, rfl⟩ := h
    exact Option.map_eq_some_iff.mpr ⟨(r, keys), hperform, rfl⟩

/-- A logic of the endpoints, for scripts on the keys. -/
abbrev OnKeys (L : ProgramLogic ApiScript) : ProgramLogic RedisScript :=
  Script.embedded ApiCommand.keys (fun _ => rfl) L

theorem own_keys {c : RedisCommand} {post : c.Reply → Prop}
    (h : ∀ order s t r keys, Looks issued owner s t → c.perform order s.keys = some (r, keys) →
      ∃ keys', c.perform order t.keys = some (r, keys') ∧
        Looks issued owner (s.after c keys) (t.after c keys') ∧ post r) :
    (OnKeys (Own issued owner)).Holds post c.call := by
  refine lockstep_command ApiCommand.perform (Looks issued owner) (c := .keys c) ?_
  intro order s t r s' hlooks hperform
  obtain ⟨keys, hkeys, rfl⟩ := perform_keys_iff.mp hperform
  obtain ⟨keys', hkeys', hlooks', hpost⟩ := h order s t r keys hlooks hkeys
  exact ⟨_, perform_keys_iff.mpr ⟨keys', hkeys', rfl⟩, hlooks', hpost⟩

theorem unseen_keys {c : RedisCommand} {post : c.Reply → Prop}
    (h : ∀ order s t r keys, Looks issued owner s t → c.perform order s.keys = some (r, keys) →
      Looks issued owner (s.after c keys) t ∧ post r) :
    (OnKeys (Unseen issued owner)).Holds post c.call := by
  refine guarded_command ApiCommand.perform (Looks issued owner) (c := .keys c) ?_
  intro order s t r s' hlooks hperform
  obtain ⟨keys, hkeys, rfl⟩ := perform_keys_iff.mp hperform
  exact h order s t r keys hlooks hkeys

/-- A command that always goes through: what it answers, and what it leaves. -/
structure Effect (c : RedisCommand) where
  answer : RedisJobs → c.Reply
  write : RedisJobs → RedisJobs
  perform : ∀ order keys, c.perform order keys = some (answer keys, write keys)

theorem own_effect {c : RedisCommand} (e : Effect c) {post : c.Reply → Prop}
    (h : ∀ s t, Looks issued owner s t → e.answer s.keys = e.answer t.keys ∧
      Looks issued owner (s.after c (e.write s.keys)) (t.after c (e.write t.keys)) ∧ post (e.answer s.keys)) :
    (OnKeys (Own issued owner)).Holds post c.call := by
  apply own_keys
  intro order s t r keys hlooks hs
  rw [e.perform] at hs
  obtain ⟨rfl, rfl⟩ := Prod.mk.inj (Option.some.inj hs)
  obtain ⟨heq, hlooks', hpost⟩ := h s t hlooks
  exact ⟨_, by rw [e.perform, heq], hlooks', hpost⟩

theorem unseen_effect {c : RedisCommand} (e : Effect c) {post : c.Reply → Prop}
    (h : ∀ s t, Looks issued owner s t →
      Looks issued owner (s.after c (e.write s.keys)) t ∧ post (e.answer s.keys)) :
    (OnKeys (Unseen issued owner)).Holds post c.call := by
  apply unseen_keys
  intro order s t r keys hlooks hs
  rw [e.perform] at hs
  obtain ⟨rfl, rfl⟩ := Prod.mk.inj (Option.some.inj hs)
  exact h s t hlooks

def effectGet (id : String) : Effect (.get id) :=
  ⟨fun keys => keys.jobs.lookup id, fun keys => keys, fun _ _ => rfl⟩

def effectIncr (key : String) : Effect (.incr key) :=
  ⟨fun keys => keys.hours key + 1,
    fun keys => { keys with hours := Function.update keys.hours key (keys.hours key + 1) }, fun _ _ => rfl⟩

def effectExpire (key : String) : Effect (.expire key) := ⟨fun _ => (), fun keys => keys, fun _ _ => rfl⟩

def effectSetNx (id : String) (job : OwnedJob) : Effect (.setNx id job) :=
  ⟨fun keys => (keys.jobs.lookup id).isNone,
    fun keys => if (keys.jobs.lookup id).isNone then { keys with jobs := keys.jobs.insert id job } else keys,
    by
      intro _ keys
      by_cases hnone : (keys.jobs.lookup id).isNone = true
      · simp only [RedisCommand.perform, hnone, if_true]
      · simp only [RedisCommand.perform, hnone, Bool.false_eq_true, if_false]⟩

def effectSet (id : String) (job : OwnedJob) : Effect (.set id job) :=
  ⟨fun _ => (), fun keys => { keys with jobs := keys.jobs.insert id job }, fun _ _ => rfl⟩

def effectSadd (owner id : String) : Effect (.sadd owner id) :=
  ⟨fun _ => (),
    fun keys => { keys with owned := Function.update keys.owned owner ((keys.owned owner).insert id) },
    fun _ _ => rfl⟩

def effectDeleteClaim (id : String) : Effect (.deleteClaim id) :=
  ⟨fun _ => (), fun keys => { keys with claims := keys.claims.filter (· ≠ id) }, fun _ _ => rfl⟩

def effectRpush (id : String) : Effect (.rpush id) :=
  ⟨fun _ => (), fun keys => { keys with queue := keys.queue ++ [id] }, fun _ _ => rfl⟩

/-- `SET … NX` writes, or finds a job. -/
theorem after_setNx (s : RedisService) (id : String) (job : OwnedJob) :
    s.after (.setNx id job) ((effectSetNx id job).write s.keys) =
      if (s.keys.jobs.lookup id).isNone then s.write id job else s := by
  by_cases hnone : (s.keys.jobs.lookup id).isNone = true
  · simp only [after, effectSetNx, RedisCommand.written, if_pos hnone, write]
  · simp only [after, effectSetNx, RedisCommand.written, if_neg hnone]

/-! ### The programs, in any logic -/

section Programs

theorem runs_countActive {L : ProgramLogic RedisScript} (ids : List String)
    (hget : ∀ id ∈ ids, L.Runs (RedisCommand.get id).call) (n : Nat) :
    L.Runs (RedisJobs.countActive ids n) := by
  induction ids generalizing n with
  | nil => exact ProgramLogic.runs_pure
  | cons id ids ih =>
    obtain ⟨hid, hids⟩ := List.forall_mem_cons.mp hget
    exact ProgramLogic.runs_bind hid fun job => ih hids _

theorem runs_hourlyCount {L : ProgramLogic RedisScript} {key : String}
    (hincr : L.Runs (RedisCommand.incr key).call) (hexpire : L.Runs (RedisCommand.expire key).call)
    (limit : Nat) : L.Runs (RedisJobs.hourlyCount key limit) := by
  refine ProgramLogic.runs_bind hincr fun (n : Nat) => ?_
  by_cases hfirst : n = 1
  · rw [if_pos hfirst]
    exact ProgramLogic.runs_bind hexpire fun _ => ProgramLogic.runs_pure
  · rw [if_neg hfirst]
    exact ProgramLogic.runs_pure

theorem runs_createIfAbsent {L : ProgramLogic RedisScript} {id : String} {job : OwnedJob}
    (hsetNx : L.Runs (RedisCommand.setNx id job).call) (hget : L.Runs (RedisCommand.get id).call)
    (hsadd : L.Runs (RedisCommand.sadd job.owner id).call) (hset : L.Runs (RedisCommand.set id job).call)
    (hdelete : L.Runs (RedisCommand.deleteClaim id).call) : L.Runs (RedisJobs.createIfAbsent id job) := by
  have hreplace : L.Runs (RedisJobs.replace id job) :=
    ProgramLogic.runs_bind hset fun _ => ProgramLogic.runs_bind hdelete fun _ => ProgramLogic.runs_pure
  refine ProgramLogic.runs_bind hsetNx fun (absent : Bool) => ?_
  cases absent with
  | true => exact ProgramLogic.runs_bind hsadd fun _ => ProgramLogic.runs_pure
  | false =>
    refine ProgramLogic.runs_bind hget fun (found : Option OwnedJob) => ?_
    cases found with
    | none => exact hreplace
    | some existing =>
      by_cases hreusable : existing.record.state.Reusable
      · simp only [if_pos hreusable]
        exact ProgramLogic.runs_pure
      · simp only [if_neg hreusable]
        exact hreplace

/-- An update writes back a job that it has found, with its owner. -/
theorem runs_updateFrom {L : ProgramLogic ApiScript} {P : String → Prop} {id : String}
    (hwatch : L.Runs (ApiCommand.watch id).call)
    (hget : L.Holds (fun found : Option OwnedJob => ∀ job ∈ found, P job.owner)
      (ApiCommand.keys (.get id)).call)
    (htime : L.Runs ApiCommand.time.call)
    (hexec : ∀ version (job : OwnedJob), P job.owner → L.Runs (ApiCommand.exec id version job).call)
    (new : JobState) (fields : Fields) (tries : Nat) : L.Runs (updateFrom id new fields tries) := by
  induction tries with
  | zero => exact ProgramLogic.runs_pure
  | succ tries ih =>
    refine ProgramLogic.runs_bind hwatch fun (version : Nat) => ?_
    refine ProgramLogic.bind _ hget fun (found : Option OwnedJob) hfound => ?_
    cases found with
    | none => exact ProgramLogic.runs_pure
    | some job =>
      refine ProgramLogic.runs_bind htime fun (now : Seconds) => ?_
      cases job.record.onUpdate new fields now with
      | kept => exact ProgramLogic.runs_pure
      | refused => exact ProgramLogic.runs_pure
      | written record =>
        refine ProgramLogic.runs_bind (hexec version _ (hfound job rfl)) fun (executed : Bool) => ?_
        cases executed with
        | true => exact ProgramLogic.runs_pure
        | false => exact ih

end Programs

/-! ### The owner's -/

section Own

theorem own_get (hapart : ∀ id o o', issued id o → issued id o' → o = o') {id : String}
    (hid : issued id owner) : (OnKeys (Own issued owner)).Runs (RedisCommand.get id).call := by
  refine own_effect (effectGet id) fun s t h => ⟨?_, h, trivial⟩
  show s.keys.jobs.lookup id = t.keys.jobs.lookup id
  exact h.lookup_eq hapart hid

theorem own_smembers :
    (OnKeys (Own issued owner)).Holds (fun ids : List String => ∀ id ∈ ids, issued id owner)
      (RedisCommand.smembers owner).call := by
  apply own_keys
  intro order s t r keys hlooks hs
  simp only [RedisCommand.perform, Option.ite_none_right_eq_some] at hs
  obtain ⟨hperm, hs⟩ := hs
  obtain ⟨rfl, rfl⟩ := Prod.mk.inj (Option.some.inj hs)
  refine ⟨t.keys, ?_, hlooks, ?_⟩
  · simp only [RedisCommand.perform, ← hlooks.owned, if_pos hperm]
  · intro id hid
    exact hlooks.listed id (hperm.mem_iff.mp hid)

theorem own_incr {key : String} (hkey : key ∈ [owner, repairKey owner]) :
    (OnKeys (Own issued owner)).Runs (RedisCommand.incr key).call := by
  refine own_effect (effectIncr key) fun s t h => ⟨?_, ?_, trivial⟩
  · show s.keys.hours key + 1 = t.keys.hours key + 1
    rw [h.hours key hkey]
  · refine ⟨h.jobs, h.versions, h.owned, h.listed, ?_, h.files, h.clock, h.left, h.right⟩
    intro key' hkey'
    show Function.update s.keys.hours key _ key' = Function.update t.keys.hours key _ key'
    by_cases heq : key' = key
    · rw [heq, Function.update_self, Function.update_self, h.hours key hkey]
    · rw [Function.update_of_ne heq, Function.update_of_ne heq, h.hours key' hkey']

theorem own_createIfAbsent (hapart : ∀ id o o', issued id o → issued id o' → o = o') {id : String}
    {job : OwnedJob} (hid : issued id owner) (hjob : job.owner = owner) :
    (OnKeys (Own issued owner)).Runs (RedisJobs.createIfAbsent id job) := by
  have hsetNx : (OnKeys (Own issued owner)).Runs (RedisCommand.setNx id job).call := by
    refine own_effect (effectSetNx id job) fun s t h => ?_
    have hlookup := h.lookup_eq hapart hid
    rw [after_setNx, after_setNx, hlookup]
    refine ⟨congrArg Option.isNone hlookup, ?_, trivial⟩
    split
    · exact h.write hid hjob
    · exact h
  have hsadd : (OnKeys (Own issued owner)).Runs (RedisCommand.sadd job.owner id).call := by
    refine own_effect (effectSadd job.owner id) fun s t h => ⟨rfl, ?_, trivial⟩
    refine ⟨h.jobs, h.versions, ?_, ?_, h.hours, h.files, h.clock, h.left, h.right⟩
    · show Function.update s.keys.owned job.owner _ owner = Function.update t.keys.owned job.owner _ owner
      rw [hjob, Function.update_self, Function.update_self, h.owned]
    · intro id' hid'
      have hmem : id' ∈ (s.keys.owned owner).insert id := by
        have hupdate : id' ∈ Function.update s.keys.owned job.owner ((s.keys.owned job.owner).insert id) owner :=
          hid'
        rw [hjob, Function.update_self] at hupdate
        exact hupdate
      rcases List.mem_insert_iff.mp hmem with rfl | hold
      · exact hid
      · exact h.listed id' hold
  have hset : (OnKeys (Own issued owner)).Runs (RedisCommand.set id job).call :=
    own_effect (effectSet id job) fun _ _ h => ⟨rfl, h.write hid hjob, trivial⟩
  have hdelete : (OnKeys (Own issued owner)).Runs (RedisCommand.deleteClaim id).call := by
    refine own_effect (effectDeleteClaim id) fun s t h => ⟨rfl, ?_, trivial⟩
    exact ⟨h.jobs, h.versions, h.owned, h.listed, h.hours, h.files, h.clock, h.left, h.right⟩
  exact runs_createIfAbsent hsetNx (own_get hapart hid) hsadd hset hdelete

theorem own_updateFrom (hapart : ∀ id o o', issued id o → issued id o' → o = o') {id : String}
    (hid : issued id owner) (new : JobState) (fields : Fields) (tries : Nat) :
    (Own issued owner).Runs (updateFrom id new fields tries) := by
  have hwatch : (Own issued owner).Runs (ApiCommand.watch id).call := by
    refine lockstep_command _ _ fun order s t r s' h hs => ?_
    obtain ⟨rfl, rfl⟩ := Prod.mk.inj (Option.some.inj hs)
    exact ⟨t, by rw [ApiCommand.perform, h.versions id hid], h, trivial⟩
  have hget : (Own issued owner).Holds (fun found : Option OwnedJob => ∀ job ∈ found, job.owner = owner)
      (ApiCommand.keys (.get id)).call := by
    refine lockstep_command _ _ fun order s t r s' h hs => ?_
    obtain ⟨rfl, rfl⟩ := Prod.mk.inj (Option.some.inj hs)
    refine ⟨t, ?_, h, fun job hjob => hapart id _ _ (h.left id job hjob) hid⟩
    show some (t.keys.jobs.lookup id, t) = some (s.keys.jobs.lookup id, t)
    rw [h.lookup_eq hapart hid]
  have htime : (Own issued owner).Runs ApiCommand.time.call := by
    refine lockstep_command _ _ fun order s t r s' h hs => ?_
    obtain ⟨rfl, rfl⟩ := Prod.mk.inj (Option.some.inj hs)
    exact ⟨t, by rw [ApiCommand.perform, h.clock], h, trivial⟩
  have hexec : ∀ version (job : OwnedJob), job.owner = owner →
      (Own issued owner).Runs (ApiCommand.exec id version job).call := by
    intro version job hjob
    refine lockstep_command _ _ fun order s t r s' h hs => ?_
    rw [ApiCommand.perform] at hs
    rw [ApiCommand.perform, ← h.versions id hid]
    by_cases hversion : s.versions id = version
    · rw [if_pos hversion] at hs
      obtain ⟨rfl, rfl⟩ := Prod.mk.inj (Option.some.inj hs)
      exact ⟨_, by rw [if_pos hversion], h.write hid hjob, trivial⟩
    · rw [if_neg hversion] at hs
      obtain ⟨rfl, rfl⟩ := Prod.mk.inj (Option.some.inj hs)
      exact ⟨_, by rw [if_neg hversion], h, trivial⟩
  exact runs_updateFrom (P := (· = owner)) hwatch hget htime hexec new fields tries

/-- The owner's own requests run alike. -/
theorem storeRules_own (hapart : ∀ id o o', issued id o → issued id o' → o = o') :
    StoreRules apiStore (Own issued owner) owner fun id => issued id owner where
  owned := by
    intro id
    rw [owned]
    by_cases hformed : isJobId id = true
    · rw [if_pos hformed]
      intro order s t r s' h hperform
      obtain ⟨rfl, rfl⟩ := Prod.mk.inj (Option.some.inj hperform)
      refine ⟨t.keys.jobs.lookup id, t, rfl, h, ?_, ?_⟩
      · show Script.pure ((s.keys.jobs.lookup id).filter _) = Script.pure ((t.keys.jobs.lookup id).filter _)
        rw [← lookup_ofOwner, ← lookup_ofOwner, h.jobs]
      · intro job hjob
        obtain ⟨hlookup, howner⟩ := Option.mem_filter_iff.mp hjob
        rw [decide_eq_true_eq] at howner
        exact howner ▸ h.left id job hlookup
    · rw [if_neg hformed]
      intro job hjob
      cases hjob
  get id hid := own_get hapart hid
  activeCount := ProgramLogic.bind _ own_smembers fun ids hids =>
    runs_countActive ids (fun id hid => own_get hapart (hids id hid)) 0
  hourlyCount key hkey limit :=
    runs_hourlyCount (own_incr hkey) (own_effect (effectExpire key) fun _ _ h => ⟨rfl, h, trivial⟩) limit
  createIfAbsent id job hid hjob := own_createIfAbsent hapart hid hjob
  start id _ := by
    refine own_effect (effectRpush id) fun s t h => ⟨rfl, ?_, trivial⟩
    exact ⟨h.jobs, h.versions, h.owned, h.listed, h.hours, h.files, h.clock, h.left, h.right⟩
  update id new fields hid := own_updateFrom hapart hid new fields RedisJobStore.tries
  file path := by
    refine lockstep_command _ _ fun order s t r s' h hs => ?_
    obtain ⟨rfl, rfl⟩ := Prod.mk.inj (Option.some.inj hs)
    exact ⟨t, by rw [ApiCommand.perform, h.files], h, trivial⟩

end Own

/-! ### The others' -/

section Unseen

theorem unseen_get (id : String) : (OnKeys (Unseen issued owner)).Runs (RedisCommand.get id).call :=
  unseen_effect (effectGet id) fun _ _ h => ⟨h, trivial⟩

theorem unseen_incr {key : String} (hkey : key ∉ [owner, repairKey owner]) :
    (OnKeys (Unseen issued owner)).Runs (RedisCommand.incr key).call := by
  refine unseen_effect (effectIncr key) fun s t h => ⟨?_, trivial⟩
  refine ⟨h.jobs, h.versions, h.owned, h.listed, ?_, h.files, h.clock, h.left, h.right⟩
  intro key' hkey'
  have hne : key' ≠ key := fun heq => hkey (heq ▸ hkey')
  show Function.update s.keys.hours key _ key' = t.keys.hours key'
  rw [Function.update_of_ne hne, h.hours key' hkey']

theorem unseen_smembers :
    (OnKeys (Unseen issued owner)).Runs (RedisCommand.smembers other).call := by
  apply unseen_keys
  intro order s t r keys h hs
  simp only [RedisCommand.perform, Option.ite_none_right_eq_some] at hs
  obtain ⟨-, hs⟩ := hs
  obtain ⟨rfl, rfl⟩ := Prod.mk.inj (Option.some.inj hs)
  exact ⟨h, trivial⟩

theorem unseen_createIfAbsent {id : String} {job : OwnedJob} (hid : ¬ issued id owner)
    (hjob : issued id job.owner) (hother : job.owner ≠ owner) :
    (OnKeys (Unseen issued owner)).Runs (RedisJobs.createIfAbsent id job) := by
  have hsetNx : (OnKeys (Unseen issued owner)).Runs (RedisCommand.setNx id job).call := by
    refine unseen_effect (effectSetNx id job) fun s t h => ⟨?_, trivial⟩
    rw [after_setNx]
    split
    · exact h.write_left hid hjob
    · exact h
  have hsadd : (OnKeys (Unseen issued owner)).Runs (RedisCommand.sadd job.owner id).call := by
    refine unseen_effect (effectSadd job.owner id) fun s t h => ⟨?_, trivial⟩
    have hsame : Function.update s.keys.owned job.owner ((s.keys.owned job.owner).insert id) owner =
        s.keys.owned owner := Function.update_of_ne (Ne.symm hother) _ _
    refine ⟨h.jobs, h.versions, ?_, ?_, h.hours, h.files, h.clock, h.left, h.right⟩
    · show Function.update s.keys.owned job.owner _ owner = t.keys.owned owner
      rw [hsame, h.owned]
    · intro id' hid'
      have hmem : id' ∈ Function.update s.keys.owned job.owner ((s.keys.owned job.owner).insert id) owner :=
        hid'
      rw [hsame] at hmem
      exact h.listed id' hmem
  have hset : (OnKeys (Unseen issued owner)).Runs (RedisCommand.set id job).call :=
    unseen_effect (effectSet id job) fun _ _ h => ⟨h.write_left hid hjob, trivial⟩
  have hdelete : (OnKeys (Unseen issued owner)).Runs (RedisCommand.deleteClaim id).call := by
    refine unseen_effect (effectDeleteClaim id) fun s t h => ⟨?_, trivial⟩
    exact ⟨h.jobs, h.versions, h.owned, h.listed, h.hours, h.files, h.clock, h.left, h.right⟩
  exact runs_createIfAbsent hsetNx (unseen_get id) hsadd hset hdelete

theorem unseen_updateFrom {id : String} (hid : ¬ issued id owner) (new : JobState) (fields : Fields)
    (tries : Nat) : (Unseen issued owner).Runs (updateFrom id new fields tries) := by
  have hwatch : (Unseen issued owner).Runs (ApiCommand.watch id).call := by
    refine guarded_command _ _ fun order s t r s' h hs => ?_
    obtain ⟨rfl, rfl⟩ := Prod.mk.inj (Option.some.inj hs)
    exact ⟨h, trivial⟩
  have hget : (Unseen issued owner).Holds
      (fun found : Option OwnedJob => ∀ job ∈ found, issued id job.owner) (ApiCommand.keys (.get id)).call := by
    refine guarded_command _ _ fun order s t r s' h hs => ?_
    obtain ⟨rfl, rfl⟩ := Prod.mk.inj (Option.some.inj hs)
    exact ⟨h, fun job hjob => h.left id job hjob⟩
  have htime : (Unseen issued owner).Runs ApiCommand.time.call := by
    refine guarded_command _ _ fun order s t r s' h hs => ?_
    obtain ⟨rfl, rfl⟩ := Prod.mk.inj (Option.some.inj hs)
    exact ⟨h, trivial⟩
  have hexec : ∀ version (job : OwnedJob), issued id job.owner →
      (Unseen issued owner).Runs (ApiCommand.exec id version job).call := by
    intro version job hjob
    refine guarded_command _ _ fun order s t r s' h hs => ?_
    rw [ApiCommand.perform] at hs
    by_cases hversion : s.versions id = version
    · rw [if_pos hversion] at hs
      obtain ⟨rfl, rfl⟩ := Prod.mk.inj (Option.some.inj hs)
      exact ⟨h.write_left hid hjob, trivial⟩
    · rw [if_neg hversion] at hs
      obtain ⟨rfl, rfl⟩ := Prod.mk.inj (Option.some.inj hs)
      exact ⟨h, trivial⟩
  exact runs_updateFrom (P := issued id) hwatch hget htime hexec new fields tries

/-- The owner does not see the requests of others. -/
theorem storeRules_unseen (hapart : ∀ id o o', issued id o → issued id o' → o = o')
    (hother : other ≠ owner) (hkeys : ∀ key ∈ [other, repairKey other], key ∉ [owner, repairKey owner]) :
    StoreRules apiStore (Unseen issued owner) other fun id => issued id other := by
  have hforeign : ∀ id, issued id other → ¬ issued id owner :=
    fun id hid hown => hother (hapart id other owner hid hown)
  exact {
    owned := by
      intro id
      rw [owned]
      by_cases hformed : isJobId id = true
      · rw [if_pos hformed]
        intro order s t r s' h hperform
        obtain ⟨rfl, rfl⟩ := Prod.mk.inj (Option.some.inj hperform)
        refine ⟨h, ?_⟩
        intro job hjob
        obtain ⟨hlookup, howner⟩ := Option.mem_filter_iff.mp hjob
        rw [decide_eq_true_eq] at howner
        exact howner ▸ h.left id job hlookup
      · rw [if_neg hformed]
        intro job hjob
        cases hjob
    get := fun id _ => unseen_get id
    activeCount := ProgramLogic.runs_bind unseen_smembers fun ids =>
      runs_countActive ids (fun id _ => unseen_get id) 0
    hourlyCount := fun key hkey limit =>
      runs_hourlyCount (unseen_incr (hkeys key hkey))
        (unseen_effect (effectExpire key) fun _ _ h => ⟨h, trivial⟩) limit
    createIfAbsent := fun id job hid hjob =>
      unseen_createIfAbsent (hforeign id hid) (hjob ▸ hid) (hjob ▸ hother)
    start := by
      intro id _
      refine unseen_effect (effectRpush id) fun s t h => ⟨?_, trivial⟩
      exact ⟨h.jobs, h.versions, h.owned, h.listed, h.hours, h.files, h.clock, h.left, h.right⟩
    update := fun id new fields hid => unseen_updateFrom (hforeign id hid) new fields RedisJobStore.tries
    file := by
      intro path
      refine guarded_command _ _ fun order s t r s' h hs => ?_
      obtain ⟨rfl, rfl⟩ := Prod.mk.inj (Option.some.inj hs)
      exact ⟨h, trivial⟩ }

end Unseen

end Rules

/-! ## Any interleaving -/

/-- A job id that one of the requests gives to the owner. -/
def Issued (svc : VisualizationService) (asked : List Asked) (id owner : String) : Prop :=
  ∃ header body spec, (header, ApiRequest.createJob body) ∈ asked ∧ userOf header = some owner ∧
    svc.validateSpec body = .ok spec ∧ id = svc.jobIdFor owner spec

/-- The request is the owner's. -/
def AskedBy (asked : List Asked) (owner : String) (i : Nat) : Prop :=
  (asked[i]?.bind fun a => userOf a.1) = some owner

instance decidableAskedBy (asked : List Asked) (owner : String) : DecidablePred (AskedBy asked owner) :=
  fun i => inferInstanceAs (Decidable ((asked[i]?.bind fun a => userOf a.1) = some owner))

section Interleavings

variable {issued : String → String → Prop} {owner : String}

/-- What happens elsewhere is seen alike. -/
theorem elsewhere_looks (hapart : ∀ id o o', issued id o → issued id o' → o = o') (e : Elsewhere)
    (s t s' : RedisService) (h : Looks issued owner s t) (hs : elsewhere e s = some s') :
    ∃ t', elsewhere e t = some t' ∧ Looks issued owner s' t' := by
  cases e with
  | update id new fields =>
    -- a worker's write, which is the owner's or is seen on neither side
    have hupdated : ∀ u u', elsewhere (.update id new fields) u = some u' → u' = u ∨
        ∃ job record, u.keys.jobs.lookup id = some job ∧ u' = u.write id { job with record } := by
      intro u u' hu
      simp only [elsewhere] at hu
      cases hlookup : u.keys.jobs.lookup id with
      | none =>
        rw [hlookup] at hu
        exact .inl (Option.some.inj hu).symm
      | some job =>
        simp only [hlookup] at hu
        cases hnew : job.record.onUpdate new fields u.clock with
        | kept =>
          rw [hnew] at hu
          exact .inl (Option.some.inj hu).symm
        | refused =>
          rw [hnew] at hu
          exact .inl (Option.some.inj hu).symm
        | written record =>
          rw [hnew] at hu
          exact .inr ⟨job, record, rfl, (Option.some.inj hu).symm⟩
    have htotal : ∃ t', elsewhere (.update id new fields) t = some t' := by
      simp only [elsewhere]
      cases t.keys.jobs.lookup id with
      | none => exact ⟨_, rfl⟩
      | some job =>
        simp only
        cases job.record.onUpdate new fields t.clock with
        | kept => exact ⟨_, rfl⟩
        | refused => exact ⟨_, rfl⟩
        | written record => exact ⟨_, rfl⟩
    by_cases hid : issued id owner
    · have hlookup := h.lookup_eq hapart hid
      simp only [elsewhere, ← hlookup, ← h.clock] at hs ⊢
      cases hjob : s.keys.jobs.lookup id with
      | none =>
        rw [hjob] at hs
        obtain rfl := Option.some.inj hs
        exact ⟨t, rfl, h⟩
      | some job =>
        simp only [hjob] at hs ⊢
        have howner : job.owner = owner := hapart id _ _ (h.left id job hjob) hid
        cases hnew : job.record.onUpdate new fields s.clock with
        | kept =>
          rw [hnew] at hs
          obtain rfl := Option.some.inj hs
          exact ⟨t, rfl, h⟩
        | refused =>
          rw [hnew] at hs
          obtain rfl := Option.some.inj hs
          exact ⟨t, rfl, h⟩
        | written record =>
          rw [hnew] at hs
          obtain rfl := Option.some.inj hs
          exact ⟨_, rfl, h.write hid howner⟩
    · obtain ⟨t', ht⟩ := htotal
      refine ⟨t', ht, ?_⟩
      have hleft : Looks issued owner s' t := by
        rcases hupdated s s' hs with rfl | ⟨job, record, hjob, rfl⟩
        · exact h
        · exact h.write_left hid (h.left id job hjob)
      rcases hupdated t t' ht with rfl | ⟨job, record, hjob, rfl⟩
      · exact hleft
      · have hwritten : Looks issued owner (t.write id { job with record }) s' :=
          hleft.symm.write_left hid (h.right id job hjob)
        exact hwritten.symm
  | claim id =>
    obtain rfl := Option.some.inj hs
    exact ⟨_, rfl, h.jobs, h.versions, h.owned, h.listed, h.hours, h.files, h.clock, h.left, h.right⟩
  | expireJob id =>
    obtain rfl := Option.some.inj hs
    exact ⟨_, rfl, h.remove id⟩
  | expireHour key =>
    obtain rfl := Option.some.inj hs
    refine ⟨_, rfl, h.jobs, h.versions, h.owned, h.listed, ?_, h.files, h.clock, h.left, h.right⟩
    intro key' hkey'
    show Function.update s.keys.hours key 0 key' = Function.update t.keys.hours key 0 key'
    by_cases heq : key' = key
    · rw [heq, Function.update_self, Function.update_self]
    · rw [Function.update_of_ne heq, Function.update_of_ne heq, h.hours key' hkey']
  | file path content =>
    obtain rfl := Option.some.inj hs
    refine ⟨_, rfl, h.jobs, h.versions, h.owned, h.listed, h.hours, ?_, h.clock, h.left, h.right⟩
    show Function.update s.files path content = Function.update t.files path content
    rw [h.files]
  | tick now =>
    obtain rfl := Option.some.inj hs
    exact ⟨_, rfl, h.jobs, h.versions, h.owned, h.listed, h.hours, h.files, rfl, h.left, h.right⟩

/-- Before any of the requests has begun. -/
theorem requested_view {svc : VisualizationService} {asked : List Asked}
    (howner : ∃ header, userOf header = some owner)
    (hapart : ∀ id o o', Issued svc asked id o → Issued svc asked id o' → o = o') :
    PoolView ApiCommand.perform (Looks (Issued svc asked) owner) (AskedBy asked owner)
      (requested svc asked) (requested svc asked) := by
  have hscript : ∀ (i : Nat) (p : ApiScript ApiReply), (requested svc asked).scripts[i]? = some p →
      ∃ a : Asked, asked[i]? = some a ∧ p = script svc a := by
    intro i p hp
    rw [requested, List.getElem?_map] at hp
    obtain ⟨a, ha, rfl⟩ := Option.map_eq_some_iff.mp hp
    exact ⟨a, ha, rfl⟩
  have hissued : ∀ (a : Asked) user, a ∈ asked → userOf a.1 = some user → ∀ body spec,
      a.2 = .createJob body → svc.validateSpec body = .ok spec →
        Issued svc asked (svc.jobIdFor user spec) user := by
    intro a user ha huser body spec hbody hspec
    exact ⟨a.1, body, spec, hbody ▸ ha, huser, hspec, rfl⟩
  have hempty : Keyed (Issued svc asked) ∅ := by
    intro id job hlookup
    cases hlookup
  refine ⟨?_, fun _ _ => rfl, ?_, ?_⟩
  · exact ⟨rfl, fun _ _ => rfl, rfl, fun _ hid => absurd hid List.not_mem_nil, fun _ _ => rfl, rfl, rfl,
      hempty, hempty⟩
  · intro i p hi hp
    obtain ⟨a, ha, rfl⟩ := hscript i p hp
    rw [AskedBy, ha, Option.bind_some] at hi
    rw [script, hi]
    exact (storeRules_own hapart).handle a.2 (hissued a owner (List.mem_of_getElem? ha) hi)
  · intro i p hi hp
    obtain ⟨a, ha, rfl⟩ := hscript i p hp
    rw [AskedBy, ha, Option.bind_some] at hi
    rw [script]
    cases huser : userOf a.1 with
    | none => trivial
    | some other =>
      have hother : other ≠ owner := fun heq => hi (heq ▸ huser)
      obtain ⟨header, howner⟩ := howner
      exact (storeRules_unseen hapart hother (keys_apart howner huser hother)).handle a.2
        (hissued a other (List.mem_of_getElem? ha) huser)

/-- In any interleaving, each request of a user has come as far, and is answered alike, as if the
requests of others had not begun. -/
theorem isolated_interleaved (svc : VisualizationService) (asked : List Asked) {header : Option String}
    {owner : String} (howner : userOf header = some owner)
    (hapart : ∀ id o o', Issued svc asked id o → Issued svc asked id o' → o = o') {l : List Label}
    {s : Requests} (hrun : Runs.run step (requested svc asked) l = some s) :
    ∃ t, Runs.run step (requested svc asked) (l.filter fun a => Mine (AskedBy asked owner) a) = some t ∧
      ∀ i, AskedBy asked owner i → t.scripts[i]? = s.scripts[i]? := by
  have hview := requested_view ⟨header, howner⟩ hapart
  obtain ⟨t, ht, hsame⟩ := run_purged (pool_unwinds (elsewhere_looks hapart)) hview
    (fun _ _ => trivial) hrun
  exact ⟨t, ht, fun i hi => (hsame.same i hi).symm⟩

/-- Both users submit the same animation, their commands in turns. -/
def sameAnimation : List Asked :=
  [(some VisualizationState.alice, .createJob "\x7b\x7d"), (some VisualizationState.bob, .createJob "\x7b\x7d")]

theorem apart_sameAnimation (id o o' : String)
    (h : Issued VisualizationState.oneSpec sameAnimation id o)
    (h' : Issued VisualizationState.oneSpec sameAnimation id o') : o = o' := by
  have hissued : ∀ o, Issued VisualizationState.oneSpec sameAnimation id o →
      VisualizationState.Issued VisualizationState.oneSpec VisualizationState.sameAnimation id o := by
    rintro o ⟨header, body, spec, hmem, huser, hspec, hid⟩
    refine ⟨header, body, spec, ?_, huser, hspec, hid⟩
    simp only [sameAnimation, List.mem_cons, List.not_mem_nil, or_false, Prod.mk.injEq,
      ApiRequest.createJob.injEq] at hmem
    rcases hmem with ⟨rfl, rfl⟩ | ⟨rfl, rfl⟩
    · exact List.mem_cons_self
    · exact List.mem_cons_of_mem _ List.mem_cons_self
  exact VisualizationState.apart_sameAnimation id o o' (hissued o h) (hissued o' h')

theorem isolated_interleaved_sameAnimation :
    ∃ s t, Runs.run step (requested VisualizationState.oneSpec sameAnimation)
        [.work 0 [], .work 1 [], .work 0 [], .work 1 []] = some s ∧
      Runs.run step (requested VisualizationState.oneSpec sameAnimation)
        ([Pool.Label.work 0 [], .work 1 [], .work 0 [], .work 1 []].filter fun a =>
          Mine (AskedBy sameAnimation VisualizationState.bob) a) = some t ∧
      t.scripts[1]? = s.scripts[1]? := by
  have hbob : userOf (some VisualizationState.bob) = some VisualizationState.bob := by decide
  have hrun : ∃ s, Runs.run step (requested VisualizationState.oneSpec sameAnimation)
      [.work 0 [], .work 1 [], .work 0 [], .work 1 []] = some s := Option.isSome_iff_exists.mp rfl
  obtain ⟨s, hs⟩ := hrun
  obtain ⟨t, ht, hsame⟩ := isolated_interleaved VisualizationState.oneSpec sameAnimation hbob
    apart_sameAnimation hs
  exact ⟨s, t, hs, ht, hsame 1 (by decide)⟩

end Interleavings

end RedisService

end LlmService
