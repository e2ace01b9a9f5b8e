import LlmService.Lib.ScriptAlone
import LlmService.Visualization.ActiveCap

/-!
# The two stores, one call after another

`MemoryJobStore` and `RedisJobStore` under the same calls with the same clock
readings. An hourly counter of Redis expires an hour after its first call; the
expiry of jobs and claims is left out. A call of `hourly_count` is answered
alike where the fixed hour of Redis and the last hour of the other store are on
the same side of the limit, and any other call as long as no id is claimed
before its job is first created and no job is replaced by one of another owner.
-/

namespace LlmService

/-- A call of a `JobStore`. A limit below zero admits as much as zero does. -/
inductive StoreCall where
  | createIfAbsent (id : String) (job : OwnedJob)
  | get (id : String)
  | update (id : String) (new : JobState) (fields : Fields)
  | activeCount (owner : String)
  | hourlyCount (owner : String) (limit : Int)
  | claim (id : String)

/-- What a call returns. -/
inductive StoreAnswer where
  | created (job : OwnedJob) (isNew : Bool)
  | found (job : Option OwnedJob)
  | updated (job : Option OwnedJob)
  | active (n : Nat)
  | within (admitted : Bool)
  | claimed (first : Bool)
  deriving DecidableEq

namespace JobTable

/-- What `update` returns. -/
def updateAnswer (jobs : JobTable) (id : String) (new : JobState) (fields : Fields)
    (now : Seconds) : Option OwnedJob :=
  match jobs.lookup id with
  | none => none
  | some job =>
    match job.record.onUpdate new fields now with
    | .kept => some job
    | .refused => none
    | .written rec => some { job with record := rec }

/-- An update changes nothing, or the record of a job that is there. -/
theorem update_cases (jobs : JobTable) (id : String) (new : JobState) (fields : Fields)
    (now : Seconds) :
    jobs.update id new fields now = jobs ∨
      ∃ job rec, jobs.lookup id = some job ∧
        jobs.update id new fields now = jobs.insert id { job with record := rec } := by
  rw [update]
  cases hlookup : jobs.lookup id with
  | none => exact .inl rfl
  | some job =>
    dsimp only
    cases job.record.onUpdate new fields now with
    | kept => exact .inl rfl
    | refused => exact .inl rfl
    | written rec => exact .inr ⟨job, rec, rfl, rfl⟩

end JobTable

namespace MemoryJobs

def claim (id : String) : StateM MemoryJobs Bool := do
  let s ← get
  if id ∈ s.claimed then return false
  else
    set { s with claimed := id :: s.claimed }
    return true

def update (id : String) (new : JobState) (fields : Fields) : StateM MemoryJobs (Option OwnedJob) := do
  let s ← get
  set { s with jobs := s.jobs.update id new fields s.clock }
  return s.jobs.updateAnswer id new fields s.clock

/-- One call, at a reading of the clock. -/
def answer (now : Seconds) (call : StoreCall) : StateM MemoryJobs StoreAnswer := do
  modify fun s => { s with clock := now }
  match call with
  | .createIfAbsent id job =>
    let (job, isNew) ← createIfAbsent id job
    return .created job isNew
  | .get id => return .found ((← get).jobs.lookup id)
  | .update id new fields => return .updated (← update id new fields)
  | .activeCount owner => return .active (← activeCount owner)
  | .hourlyCount owner limit => return .within (← hourlyCount owner limit.toNat)
  | .claim id => return .claimed (← claim id)

end MemoryJobs

/-- The keys of `RedisJobStore`, and when its hourly counters expire. -/
structure TimedRedis where
  redis : RedisJobs := {}
  hourEnds : String → Option Seconds := fun _ => none

namespace TimedRedis

/-- The order in which a set is answered. -/
abbrev SetOrder := (ids : List String) → { order : List String // order.Perm ids }

/-- The hourly counters whose time is over are gone. -/
def expireHours (s : TimedRedis) (now : Seconds) : TimedRedis :=
  let ended := fun owner => ∃ t ∈ s.hourEnds owner, t ≤ now
  { redis := { s.redis with hours := fun owner => if ended owner then 0 else s.redis.hours owner }
    hourEnds := fun owner => if ended owner then none else s.hourEnds owner }

/-- A command at a reading of the clock: `EXPIRE` sets the end of the hour. -/
def exec (order : SetOrder) (now : Seconds) (c : RedisCommand) (s : TimedRedis) :
    Option (c.Reply × TimedRedis) :=
  let ids := match c with
    | .smembers owner => order (s.redis.owned owner)
    | _ => []
  (c.perform ids s.redis).map fun result =>
    (result.1,
      { redis := result.2
        hourEnds := match c with
          | .expire owner => Function.update s.hourEnds owner (some (now + 3600))
          | _ => s.hourEnds })

/-- What the key of a job and its claim hold. -/
def entryOf (s : TimedRedis) (id : String) (now : Seconds) : JobEntry :=
  { job := (s.redis.jobs.lookup id).map (·.record)
    claimed := decide (id ∈ s.redis.claims)
    clock := now }

/-- A command of `update` on the key of its job. -/
def entryExec (c : JobCommand) (e : JobEntry) : Option (c.Reply × JobEntry) := c.perform .none e

/-- `update`: the rounds of its loop, on a key that no other client writes. -/
def update (id : String) (new : JobState) (fields : Fields) (now : Seconds) (s : TimedRedis) :
    Option (Option OwnedJob × TimedRedis) :=
  match (redisJobStore.update new fields).alone entryExec (s.entryOf id now),
      s.redis.jobs.lookup id with
  | some (.ok _, _), none => some (none, s)
  | some (.ok answer, e), some job =>
    let written := fun rec => { job with record := rec : OwnedJob }
    -- the version counts what was written to the key
    match e.version, e.job with
    | _ + 1, some rec =>
      some (answer.map written,
        { s with redis := { s.redis with jobs := s.redis.jobs.insert id (written rec) } })
    | _, _ => some (answer.map written, s)
  | _, _ => none

/-- `claim`: `SET NX`. -/
def claim (id : String) (s : TimedRedis) : Bool × TimedRedis :=
  if id ∈ s.redis.claims then (false, s)
  else (true, { s with redis := { s.redis with claims := id :: s.redis.claims } })

/-- A call that returns. -/
def returning {α : Type} (answer : α → StoreAnswer) :
    Option (Except Exc α × TimedRedis) → Option (StoreAnswer × TimedRedis)
  | some (.ok a, s) => some (answer a, s)
  | _ => none

/-- One call, at a reading of the clock. -/
def answer (order : SetOrder) (now : Seconds) (call : StoreCall) (s : TimedRedis) :
    Option (StoreAnswer × TimedRedis) :=
  let s := s.expireHours now
  match call with
  | .createIfAbsent id job =>
    returning (fun created => .created created.1 created.2)
      ((RedisJobs.store.createIfAbsent id job).alone (exec order now) s)
  | .get id => returning .found ((RedisJobs.store.get id).alone (exec order now) s)
  | .update id new fields => (s.update id new fields now).map fun x => (.updated x.1, x.2)
  | .activeCount owner =>
    returning .active ((RedisJobs.store.activeCount owner).alone (exec order now) s)
  | .hourlyCount owner limit =>
    returning .within ((RedisJobs.store.hourlyCount owner limit.toNat).alone (exec order now) s)
  | .claim id => some (.claimed (s.claim id).1, (s.claim id).2)

end TimedRedis

namespace TwoStores

/-- A call at a reading of the clock; a set is answered in the order. -/
structure TimedCall where
  call : StoreCall
  now : Seconds
  order : TimedRedis.SetOrder := fun ids => ⟨ids, .refl ids⟩

/-- Both stores under one call. -/
def step (s : MemoryJobs × TimedRedis) (a : TimedCall) : Option (MemoryJobs × TimedRedis) :=
  (s.2.answer a.order a.now a.call).map fun redis =>
    (((MemoryJobs.answer a.now a.call).run s.1).2, redis.2)

/-- The two answers to a call are the same. -/
def AnswerAlike (s : MemoryJobs × TimedRedis) (a : TimedCall) : Prop :=
  (s.2.answer a.order a.now a.call).map Prod.fst = some ((MemoryJobs.answer a.now a.call).run s.1).1

instance (s : MemoryJobs × TimedRedis) (a : TimedCall) : Decidable (AnswerAlike s a) :=
  inferInstanceAs (Decidable (_ = _))

/-- An id is not claimed before its job is first created, and a job is replaced by one of its
owner. -/
def Fits (s : MemoryJobs × TimedRedis) (a : TimedCall) : Prop :=
  match a.call with
  | .createIfAbsent id job =>
    match s.2.redis.jobs.lookup id with
    | none => id ∉ s.2.redis.claims
    | some old => old.record.state.Reusable ∨ job.owner = old.owner
  | _ => True

instance (s : MemoryJobs × TimedRedis) (a : TimedCall) : Decidable (Fits s a) := by
  unfold Fits
  split
  · split
    · infer_instance
    · infer_instance
  · infer_instance

/-- A call is within the limit of the last hour iff it is within that of the fixed hour. -/
def SameSide (s : MemoryJobs × TimedRedis) (a : TimedCall) : Prop :=
  ∀ owner limit, a.call = .hourlyCount owner limit →
    (((s.1.hits owner).filter fun t => a.now - t < 3600).length < limit.toNat ↔
      (s.2.expireHours a.now).redis.hours owner < limit.toNat)

/-- The stores hold the same jobs and claims, and the ids of an owner's jobs are listed. -/
structure Alike (s : MemoryJobs × TimedRedis) : Prop where
  jobs : s.2.redis.jobs = s.1.jobs
  claims : ∀ id, id ∈ s.2.redis.claims ↔ id ∈ s.1.claimed
  owned : ∀ owner id, id ∈ s.2.redis.owned owner ↔
    ∃ job, s.1.jobs.lookup id = some job ∧ job.owner = owner
  nodup : ∀ owner, (s.2.redis.owned owner).Nodup

variable {order : TimedRedis.SetOrder} {m m' : MemoryJobs} {r : TimedRedis} {now : Seconds}
  {id owner : String} {job : OwnedJob}

/-- Neither the clock nor the hourly counters matter. -/
theorem Alike.of_eq (h : Alike (m, r)) {r' : TimedRedis} (hjobs : m'.jobs = m.jobs)
    (hclaimed : m'.claimed = m.claimed) (hjobs' : r'.redis.jobs = r.redis.jobs)
    (hclaims : r'.redis.claims = r.redis.claims) (howned : r'.redis.owned = r.redis.owned) :
    Alike (m', r') := by
  refine ⟨?_, ?_, ?_, ?_⟩
  · exact hjobs'.trans (h.jobs.trans hjobs.symm)
  · intro id
    show id ∈ r'.redis.claims ↔ id ∈ m'.claimed
    rw [hclaims, hclaimed]
    exact h.claims id
  · intro owner id
    show id ∈ r'.redis.owned owner ↔ ∃ job, m'.jobs.lookup id = some job ∧ job.owner = owner
    rw [howned, hjobs]
    exact h.owned owner id
  · intro owner
    show (r'.redis.owned owner).Nodup
    rw [howned]
    exact h.nodup owner

/-- The job with the id is replaced by one of the same owner. -/
theorem Alike.insert_of_lookup (h : Alike (m, r)) {old : OwnedJob}
    (hold : m.jobs.lookup id = some old) (howner : job.owner = old.owner) {r' : TimedRedis}
    (hjobs : m'.jobs = m.jobs.insert id job) (hjobs' : r'.redis.jobs = r.redis.jobs.insert id job)
    (hclaims : ∀ id', id' ∈ r'.redis.claims ↔ id' ∈ m'.claimed)
    (howned : r'.redis.owned = r.redis.owned) : Alike (m', r') := by
  refine ⟨?_, hclaims, ?_, ?_⟩
  · have hsame := h.jobs
    simp only at hsame
    rw [hjobs', hjobs, hsame]
  · intro owner id'
    show id' ∈ r'.redis.owned owner ↔ ∃ job, m'.jobs.lookup id' = some job ∧ job.owner = owner
    rw [howned, hjobs]
    refine (h.owned owner id').trans ?_
    by_cases hid : id' = id
    · subst hid
      simp only [AList.lookup_insert, hold, Option.some.injEq, exists_eq_left', howner]
    · simp only [AList.lookup_insert_ne hid]
  · intro owner
    show (r'.redis.owned owner).Nodup
    rw [howned]
    exact h.nodup owner

/-- A job with a new id is listed under its owner. -/
theorem Alike.insert_new (h : Alike (m, r)) (hnone : m.jobs.lookup id = none) {r' : TimedRedis}
    (hjobs : m'.jobs = m.jobs.insert id job) (hjobs' : r'.redis.jobs = r.redis.jobs.insert id job)
    (hclaims : ∀ id', id' ∈ r'.redis.claims ↔ id' ∈ m'.claimed)
    (howned : r'.redis.owned = Function.update r.redis.owned job.owner
      ((r.redis.owned job.owner).insert id)) : Alike (m', r') := by
  refine ⟨?_, hclaims, ?_, ?_⟩
  · have hsame := h.jobs
    simp only at hsame
    rw [hjobs', hjobs, hsame]
  · intro owner id'
    show id' ∈ r'.redis.owned owner ↔ ∃ job, m'.jobs.lookup id' = some job ∧ job.owner = owner
    have hold := h.owned owner id'
    simp only at hold
    rw [howned, hjobs]
    by_cases howner : owner = job.owner
    · subst howner
      rw [Function.update_self, List.mem_insert_iff, hold]
      by_cases hid : id' = id
      · subst hid
        simp [AList.lookup_insert]
      · simp [AList.lookup_insert_ne hid, hid]
    · rw [Function.update_of_ne howner, hold]
      by_cases hid : id' = id
      · subst hid
        simp [AList.lookup_insert, hnone, Ne.symm howner]
      · simp only [AList.lookup_insert_ne hid]
  · intro owner
    show (r'.redis.owned owner).Nodup
    have hnodup := h.nodup owner
    rw [howned]
    by_cases howner : owner = job.owner
    · subst howner
      rw [Function.update_self]
      exact hnodup.insert
    · rw [Function.update_of_ne howner]
      exact hnodup

/-! ## One call -/

/-- Both stores give one answer to the call, and are alike behind it. -/
def Agrees (order : TimedRedis.SetOrder) (m : MemoryJobs) (r : TimedRedis) (now : Seconds)
    (call : StoreCall) : Prop :=
  ∃ a m' r', (MemoryJobs.answer now call).run m = (a, m') ∧
    r.answer order now call = some (a, r') ∧ Alike (m', r')

theorem agrees_get (h : Alike (m, r)) : Agrees order m r now (.get id) := by
  have hjobs : r.redis.jobs = m.jobs := h.jobs
  have hanswer : r.answer order now (.get id) = TimedRedis.returning .found
      ((RedisJobs.store.get id).alone (TimedRedis.exec order now) (r.expireHours now)) := rfl
  have halone : (RedisJobs.store.get id).alone (TimedRedis.exec order now) (r.expireHours now) =
      some (.ok (m.jobs.lookup id), r.expireHours now) := by
    rw [← hjobs]
    exact Script.alone_command rfl
  rw [halone] at hanswer
  exact ⟨_, _, _, rfl, hanswer, h.of_eq rfl rfl rfl rfl rfl⟩

/-- A call of the store in memory, after the clock is read. -/
theorem memory_claim : (MemoryJobs.answer now (.claim id)).run m =
    (.claimed ((MemoryJobs.claim id).run { m with clock := now }).1,
      ((MemoryJobs.claim id).run { m with clock := now }).2) := rfl

theorem claim_run (s : MemoryJobs) : (MemoryJobs.claim id).run s =
    if id ∈ s.claimed then (false, s) else (true, { s with claimed := id :: s.claimed }) := by
  show (if id ∈ s.claimed then _ else _ : StateM MemoryJobs Bool).run s = _
  split <;> rfl

theorem agrees_claim (h : Alike (m, r)) : Agrees order m r now (.claim id) := by
  have hclaims : id ∈ (r.expireHours now).redis.claims ↔ id ∈ m.claimed := h.claims id
  have hanswer : r.answer order now (.claim id) =
      some (.claimed ((r.expireHours now).claim id).1, ((r.expireHours now).claim id).2) := rfl
  rw [Agrees, memory_claim, hanswer, claim_run, TimedRedis.claim]
  by_cases hclaimed : id ∈ m.claimed
  · rw [if_pos hclaimed, if_pos (hclaims.mpr hclaimed)]
    exact ⟨_, _, _, rfl, rfl, h.of_eq rfl rfl rfl rfl rfl⟩
  · rw [if_neg hclaimed, if_neg fun hmem => hclaimed (hclaims.mp hmem)]
    refine ⟨_, _, _, rfl, rfl, h.jobs, ?_, h.owned, h.nodup⟩
    intro id'
    show id' ∈ id :: r.redis.claims ↔ id' ∈ id :: m.claimed
    rw [List.mem_cons, List.mem_cons]
    exact or_congr_right (h.claims id')

/-! ## Creating -/

section Create

variable {s : TimedRedis}

/-- `SET NX` on a key that is not there. -/
theorem exec_setNx_new (h : s.redis.jobs.lookup id = none) :
    TimedRedis.exec order now (.setNx id job) s = some (true,
      { s with redis := { s.redis with jobs := s.redis.jobs.insert id job } }) := by
  have hperform : (RedisCommand.setNx id job).perform [] s.redis =
      some (true, { s.redis with jobs := s.redis.jobs.insert id job }) :=
    if_pos (Option.isNone_iff_eq_none.mpr h)
  show ((RedisCommand.setNx id job).perform [] s.redis).map _ = _
  rw [hperform]
  rfl

theorem exec_setNx_old {old : OwnedJob} (h : s.redis.jobs.lookup id = some old) :
    TimedRedis.exec order now (.setNx id job) s = some (false, s) := by
  have hperform : (RedisCommand.setNx id job).perform [] s.redis = some (false, s.redis) := by
    refine if_neg ?_
    rw [h]
    exact Bool.false_ne_true
  show ((RedisCommand.setNx id job).perform [] s.redis).map _ = _
  rw [hperform]
  rfl

/-- `create_if_absent` over Redis, without another client. -/
theorem alone_createIfAbsent : (RedisJobs.createIfAbsent id job).alone (TimedRedis.exec order now) s =
    match s.redis.jobs.lookup id with
    | some existing =>
      if existing.record.state.Reusable then some (.ok (existing, false), s)
      else some (.ok (job, true), { s with redis := { s.redis with
        jobs := s.redis.jobs.insert id job
        claims := s.redis.claims.filter (· ≠ id) } })
    | none => some (.ok (job, true), { s with redis := { s.redis with
        jobs := s.redis.jobs.insert id job
        owned := Function.update s.redis.owned job.owner
          ((s.redis.owned job.owner).insert id) } }) := by
  cases hlookup : s.redis.jobs.lookup id with
  | none => exact Script.alone_command_bind (exec_setNx_new hlookup)
  | some existing =>
    refine (Script.alone_command_bind (exec_setNx_old hlookup)).trans ?_
    have hget : TimedRedis.exec order now (.get id) s = some (some existing, s) := by
      rw [← hlookup]
      rfl
    refine (Script.alone_command_bind hget).trans ?_
    dsimp only
    by_cases hreusable : existing.record.state.Reusable
    · rw [if_pos hreusable, if_pos hreusable]
      rfl
    · rw [if_neg hreusable, if_neg hreusable]
      rfl

end Create

/-- A claim is dropped in both stores. -/
theorem Alike.filter_claims (h : Alike (m, r)) (id id' : String) :
    id' ∈ r.redis.claims.filter (· ≠ id) ↔ id' ∈ m.claimed.filter (· ≠ id) := by
  rw [List.mem_filter, List.mem_filter]
  exact and_congr_left' (h.claims id')

theorem agrees_createIfAbsent (h : Alike (m, r)) (hfits : Fits (m, r) ⟨.createIfAbsent id job, now, order⟩) :
    Agrees order m r now (.createIfAbsent id job) := by
  have hjobs : r.redis.jobs = m.jobs := h.jobs
  have hmemory : (MemoryJobs.answer now (.createIfAbsent id job)).run m =
      (.created ((MemoryJobs.createIfAbsent id job).run { m with clock := now }).1.1
          ((MemoryJobs.createIfAbsent id job).run { m with clock := now }).1.2,
        ((MemoryJobs.createIfAbsent id job).run { m with clock := now }).2) := rfl
  have hredis : r.answer order now (.createIfAbsent id job) = TimedRedis.returning
      (fun created => .created created.1 created.2)
      ((RedisJobs.createIfAbsent id job).alone (TimedRedis.exec order now) (r.expireHours now)) :=
    rfl
  have hsame : (r.expireHours now).redis.jobs.lookup id = m.jobs.lookup id := by
    rw [← hjobs]
    rfl
  have hfits' : match r.redis.jobs.lookup id with
    | none => id ∉ r.redis.claims
    | some old => old.record.state.Reusable ∨ job.owner = old.owner := hfits
  rw [hjobs] at hfits'
  rw [Agrees, hmemory, hredis, MemoryJobs.createIfAbsent_run, alone_createIfAbsent, hsame]
  dsimp only
  cases hlookup : m.jobs.lookup id with
  | none =>
    rw [hlookup] at hfits'
    refine ⟨_, _, _, rfl, rfl, h.insert_new hlookup rfl rfl ?_ rfl⟩
    -- there is no claim that only one of the stores would drop
    intro id'
    have hunclaimed : id ∉ m.claimed := fun hmem => hfits' ((h.claims id).mpr hmem)
    have hfilter : m.claimed.filter (· ≠ id) = m.claimed :=
      List.filter_eq_self.mpr fun c hc => decide_eq_true (ne_of_mem_of_not_mem hc hunclaimed)
    show id' ∈ r.redis.claims ↔ id' ∈ m.claimed.filter (· ≠ id)
    rw [hfilter]
    exact h.claims id'
  | some existing =>
    rw [hlookup] at hfits'
    dsimp only
    by_cases hreusable : existing.record.state.Reusable
    · rw [if_pos hreusable, if_pos hreusable]
      exact ⟨_, _, _, rfl, rfl, h.of_eq rfl rfl rfl rfl rfl⟩
    · rw [if_neg hreusable, if_neg hreusable]
      have howner : job.owner = existing.owner := hfits'.resolve_left hreusable
      exact ⟨_, _, _, rfl, rfl,
        h.insert_of_lookup hlookup howner rfl rfl (h.filter_claims id) rfl⟩

/-! ## Counting -/

section Count

variable {s : TimedRedis} {limit : Nat}

theorem alone_countActive : ∀ (ids : List String) (n : Nat),
    (RedisJobs.countActive ids n).alone (TimedRedis.exec order now) s =
      some (.ok (n + (ids.filter fun id =>
        ∃ job ∈ s.redis.jobs.lookup id, job.record.state ∈ JobState.active).length), s) := by
  intro ids
  induction ids with
  | nil => exact fun n => rfl
  | cons id ids ih =>
    intro n
    have hget : TimedRedis.exec order now (.get id) s = some (s.redis.jobs.lookup id, s) := rfl
    refine (Script.alone_command_bind hget).trans ((ih _).trans ?_)
    by_cases hactive : ∃ job ∈ s.redis.jobs.lookup id, job.record.state ∈ JobState.active
    · rw [if_pos hactive, List.filter_cons, if_pos (decide_eq_true hactive), List.length_cons,
        Nat.add_assoc, Nat.add_comm 1]
    · rw [if_neg hactive, List.filter_cons, if_neg fun h => hactive (of_decide_eq_true h)]

theorem alone_activeCount :
    (RedisJobs.activeCount owner).alone (TimedRedis.exec order now) s =
      some (.ok ((order (s.redis.owned owner)).1.filter fun id =>
        ∃ job ∈ s.redis.jobs.lookup id, job.record.state ∈ JobState.active).length, s) := by
  have hperform : (RedisCommand.smembers owner).perform (order (s.redis.owned owner)).1 s.redis =
      some ((order (s.redis.owned owner)).1, s.redis) :=
    if_pos (order (s.redis.owned owner)).2
  have hexec : TimedRedis.exec order now (.smembers owner) s =
      some ((order (s.redis.owned owner)).1, s) := by
    show ((RedisCommand.smembers owner).perform (order (s.redis.owned owner)).1 s.redis).map _ = _
    rw [hperform]
    rfl
  refine (Script.alone_command_bind hexec).trans ((alone_countActive _ 0).trans ?_)
  rw [Nat.zero_add]

/-- The owner's ids in the order of the set, as far as they are of active jobs. -/
theorem length_filter_owned (h : Alike (m, r)) {ids : List String}
    (hperm : ids.Perm (r.redis.owned owner)) :
    (ids.filter fun id => ∃ job ∈ m.jobs.lookup id, job.record.state ∈ JobState.active).length =
      (m.jobs.activeOf owner).length := by
  refine List.Perm.length_eq ((List.perm_ext_iff_of_nodup ?_ ?_).mpr ?_)
  · exact (hperm.nodup_iff.mpr (h.nodup owner)).filter _
  · exact JobTable.nodup_activeOf m.jobs owner
  · intro id
    have howned : id ∈ r.redis.owned owner ↔
        ∃ job, m.jobs.lookup id = some job ∧ job.owner = owner := h.owned owner id
    rw [List.mem_filter, decide_eq_true_iff, hperm.mem_iff, howned, JobTable.mem_activeOf_iff]
    constructor
    · rintro ⟨⟨job, hjob, howner⟩, job', hjob', hactive⟩
      obtain rfl := Option.some.inj (hjob.symm.trans hjob')
      exact ⟨job, hjob, howner, hactive⟩
    · rintro ⟨job, hjob, howner, hactive⟩
      exact ⟨⟨job, hjob, howner⟩, job, hjob, hactive⟩

theorem agrees_activeCount (h : Alike (m, r)) : Agrees order m r now (.activeCount owner) := by
  have hjobs : r.redis.jobs = m.jobs := h.jobs
  have hanswer : r.answer order now (.activeCount owner) = TimedRedis.returning .active
      ((RedisJobs.activeCount owner).alone (TimedRedis.exec order now) (r.expireHours now)) := rfl
  have hsame : (r.expireHours now).redis.jobs = m.jobs := hjobs
  have howned : (r.expireHours now).redis.owned = r.redis.owned := rfl
  rw [alone_activeCount, hsame, howned,
    length_filter_owned h (order (r.redis.owned owner)).2] at hanswer
  exact ⟨_, _, _, rfl, hanswer, h.of_eq rfl rfl rfl rfl rfl⟩

theorem hourlyCount_run (s : MemoryJobs) : (MemoryJobs.hourlyCount owner limit).run s =
    let recent := (s.hits owner).filter fun t => s.clock - t < 3600
    if limit ≤ recent.length then
      (false, { s with hits := Function.update s.hits owner recent })
    else (true, { s with hits := Function.update s.hits owner (recent ++ [s.clock]) }) := by
  dsimp only
  show (if limit ≤ _ then _ else _ : StateM MemoryJobs Bool).run s = _
  split <;> rfl

/-- A refused call is counted too; the first one sets the end of the hour. -/
theorem alone_hourlyCount :
    (RedisJobs.hourlyCount owner limit).alone (TimedRedis.exec order now) s =
      some (.ok (decide (s.redis.hours owner + 1 ≤ limit)),
        { redis := { s.redis with
            hours := Function.update s.redis.hours owner (s.redis.hours owner + 1) }
          hourEnds :=
            if s.redis.hours owner + 1 = 1 then
              Function.update s.hourEnds owner (some (now + 3600))
            else s.hourEnds }) := by
  have hincr : TimedRedis.exec order now (.incr owner) s = some (s.redis.hours owner + 1,
      { s with redis := { s.redis with
        hours := Function.update s.redis.hours owner (s.redis.hours owner + 1) } }) := rfl
  refine (Script.alone_command_bind hincr).trans ?_
  by_cases hfirst : s.redis.hours owner + 1 = 1
  · rw [if_pos hfirst, if_pos hfirst]
    rfl
  · rw [if_neg hfirst, if_neg hfirst]
    rfl

theorem agrees_hourlyCount {limit : Int} (h : Alike (m, r))
    (hside : SameSide (m, r) ⟨.hourlyCount owner limit, now, order⟩) :
    Agrees order m r now (.hourlyCount owner limit) := by
  have hmemory : (MemoryJobs.answer now (.hourlyCount owner limit)).run m =
      (.within ((MemoryJobs.hourlyCount owner limit.toNat).run { m with clock := now }).1,
        ((MemoryJobs.hourlyCount owner limit.toNat).run { m with clock := now }).2) := rfl
  have hredis : r.answer order now (.hourlyCount owner limit) = TimedRedis.returning .within
      ((RedisJobs.hourlyCount owner limit.toNat).alone (TimedRedis.exec order now)
        (r.expireHours now)) := rfl
  have hside' : ((m.hits owner).filter fun t => now - t < 3600).length < limit.toNat ↔
      (r.expireHours now).redis.hours owner < limit.toNat := hside owner limit rfl
  rw [Agrees, hmemory, hredis, hourlyCount_run, alone_hourlyCount]
  dsimp only
  by_cases hlimit : limit.toNat ≤ ((m.hits owner).filter fun t => now - t < 3600).length
  · have hrefused : decide ((r.expireHours now).redis.hours owner + 1 ≤ limit.toNat) = false := by
      rw [decide_eq_false_iff_not]
      omega
    rw [if_pos hlimit, hrefused]
    exact ⟨_, _, _, rfl, rfl, h.of_eq rfl rfl rfl rfl rfl⟩
  · have hadmitted : decide ((r.expireHours now).redis.hours owner + 1 ≤ limit.toNat) = true := by
      rw [decide_eq_true_iff]
      omega
    rw [if_neg hlimit, hadmitted]
    exact ⟨_, _, _, rfl, rfl, h.of_eq rfl rfl rfl rfl rfl⟩

end Count

/-! ## Updating -/

section Update

variable {new : JobState} {fields : Fields}

/-- `update` over Redis, without another client: the first round returns. -/
theorem alone_update (e : JobEntry) :
    (redisJobStore.update new fields).alone TimedRedis.entryExec e =
      match e.job with
      | none => some (.ok none, e)
      | some rec =>
        match rec.onUpdate new fields e.clock with
        | .kept => some (.ok (some rec), e)
        | .refused => some (.ok none, e)
        | .written rec' => some (.ok (some rec'), e.write rec') := by
  have hwatch : TimedRedis.entryExec .watch e = some (e.version, e) := rfl
  have hget : TimedRedis.entryExec .get e = some (e.job, e) := rfl
  refine (Script.alone_command_bind hwatch).trans ((Script.alone_command_bind hget).trans ?_)
  cases e.job with
  | none => rfl
  | some rec =>
    have htime : TimedRedis.entryExec .time e = some (e.clock, e) := rfl
    refine (Script.alone_command_bind htime).trans ?_
    dsimp only
    cases rec.onUpdate new fields e.clock with
    | kept => rfl
    | refused => rfl
    | written rec' =>
      have hexec : TimedRedis.entryExec (.exec e.version rec') e =
          some (true, e.write rec') := if_pos rfl
      exact Script.alone_command_bind hexec

/-- The store in memory decides the same. -/
theorem redis_update (s : TimedRedis) : s.update id new fields now =
    some (s.redis.jobs.updateAnswer id new fields now,
      { s with redis := { s.redis with jobs := s.redis.jobs.update id new fields now } }) := by
  rw [TimedRedis.update, alone_update, JobTable.updateAnswer, JobTable.update]
  cases hlookup : s.redis.jobs.lookup id with
  | none =>
    rw [TimedRedis.entryOf, hlookup]
    rfl
  | some job =>
    rw [TimedRedis.entryOf, hlookup]
    dsimp only [Option.map_some]
    cases job.record.onUpdate new fields now with
    | kept => rfl
    | refused => rfl
    | written rec => rfl

theorem agrees_update (h : Alike (m, r)) : Agrees order m r now (.update id new fields) := by
  have hjobs : r.redis.jobs = m.jobs := h.jobs
  have hmemory : (MemoryJobs.answer now (.update id new fields)).run m =
      (.updated (m.jobs.updateAnswer id new fields now),
        { m with clock := now, jobs := m.jobs.update id new fields now }) := rfl
  have hanswer : r.answer order now (.update id new fields) =
      ((r.expireHours now).update id new fields now).map fun x => (.updated x.1, x.2) := rfl
  have hsame : (r.expireHours now).redis.jobs = m.jobs := hjobs
  rw [redis_update, hsame] at hanswer
  refine ⟨_, _, _, hmemory, hanswer, ?_⟩
  rcases JobTable.update_cases m.jobs id new fields now with hupdate | ⟨job, rec, hlookup, hupdate⟩
  · exact h.of_eq hupdate rfl (hupdate.trans hjobs.symm) rfl rfl
  · have howner : ({ job with record := rec } : OwnedJob).owner = job.owner := rfl
    refine h.insert_of_lookup hlookup howner hupdate ?_ h.claims rfl
    rw [hjobs]
    exact hupdate

end Update

/-! ## All calls -/

/-- A call that fits is answered alike, and leaves the stores alike. -/
theorem agrees_of_fits (h : Alike (m, r)) {call : StoreCall} (hfits : Fits (m, r) ⟨call, now, order⟩)
    (hside : SameSide (m, r) ⟨call, now, order⟩) : Agrees order m r now call := by
  cases call with
  | createIfAbsent id job => exact agrees_createIfAbsent h hfits
  | get id => exact agrees_get h
  | update id new fields => exact agrees_update h
  | activeCount owner => exact agrees_activeCount h
  | hourlyCount owner limit => exact agrees_hourlyCount h hside
  | claim id => exact agrees_claim h

theorem alike_empty : Alike ({}, {}) := by
  refine ⟨rfl, fun id => Iff.rfl, ?_, fun owner => List.nodup_nil⟩
  intro owner id
  constructor
  · exact fun h => absurd h List.not_mem_nil
  · rintro ⟨job, hlookup, -⟩
    exact nomatch hlookup

/-- Every command of Redis is answered. -/
theorem exists_answer (s : TimedRedis) (call : StoreCall) :
    ∃ x, s.answer order now call = some x := by
  cases call with
  | createIfAbsent id job =>
    show ∃ x, TimedRedis.returning _ ((RedisJobs.createIfAbsent id job).alone _ _) = some x
    rw [alone_createIfAbsent]
    cases (s.expireHours now).redis.jobs.lookup id with
    | none => exact ⟨_, rfl⟩
    | some existing =>
      dsimp only
      split <;> exact ⟨_, rfl⟩
  | get id => exact ⟨_, rfl⟩
  | update id new fields =>
    show ∃ x, ((s.expireHours now).update id new fields now).map _ = some x
    rw [redis_update]
    exact ⟨_, rfl⟩
  | activeCount owner =>
    show ∃ x, TimedRedis.returning _ ((RedisJobs.activeCount owner).alone _ _) = some x
    rw [alone_activeCount]
    exact ⟨_, rfl⟩
  | hourlyCount owner limit =>
    show ∃ x, TimedRedis.returning _ ((RedisJobs.hourlyCount owner limit.toNat).alone _ _) = some x
    rw [alone_hourlyCount]
    exact ⟨_, rfl⟩
  | claim id => exact ⟨_, rfl⟩

/-- No call is left without an answer. -/
theorem exists_step (s : MemoryJobs × TimedRedis) (a : TimedCall) : ∃ t, step s a = some t := by
  obtain ⟨x, hx⟩ := exists_answer s.2 a.call
  rw [step, hx]
  exact ⟨_, rfl⟩

theorem Alike.step_of_fits {s t : MemoryJobs × TimedRedis} {a : TimedCall} (h : Alike s)
    (hfits : Fits s a) (hside : SameSide s a) (hstep : step s a = some t) : Alike t := by
  obtain ⟨answer, m', r', hmemory, hredis, halike⟩ := agrees_of_fits h hfits hside
  rw [step, hredis, hmemory] at hstep
  obtain rfl := Option.some.inj hstep
  exact halike

theorem Alike.answerAlike {s : MemoryJobs × TimedRedis} {a : TimedCall} (h : Alike s)
    (hfits : Fits s a) (hside : SameSide s a) : AnswerAlike s a := by
  obtain ⟨answer, m', r', hmemory, hredis, -⟩ := agrees_of_fits h hfits hside
  rw [AnswerAlike, hredis, hmemory]
  rfl

end TwoStores

end LlmService
