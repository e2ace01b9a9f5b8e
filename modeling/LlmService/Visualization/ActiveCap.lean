import LlmService.Lib.Runs
import LlmService.Visualization.CreateJob
import Mathlib.Data.List.Perm.Subperm

/-!
# The limit on active jobs

An owner never has more active jobs than `manim_max_active_jobs_per_user` while
requests are submitted, as long as no request creates a job on a count that
another one has made stale. In memory none can. Over Redis a count is good while
no other request creates a job, and the requests see to that only if they do not
run into each other.
-/

namespace LlmService

namespace JobTable

variable {jobs : JobTable} {owner id : String}

theorem mem_activeOf_iff :
    id ∈ jobs.activeOf owner ↔
      ∃ job, jobs.lookup id = some job ∧ job.owner = owner ∧ job.record.state ∈ JobState.active := by
  rw [activeOf, List.mem_map]
  constructor
  · rintro ⟨⟨id', job⟩, hmem, rfl⟩
    obtain ⟨hentry, hactive⟩ := List.mem_filter.mp hmem
    exact ⟨job, AList.mem_lookup_iff.mpr hentry, of_decide_eq_true hactive⟩
  · rintro ⟨job, hlookup, hactive⟩
    refine ⟨⟨id, job⟩, List.mem_filter.mpr ⟨AList.mem_lookup_iff.mp hlookup, ?_⟩, rfl⟩
    exact decide_eq_true hactive

theorem nodup_activeOf (jobs : JobTable) (owner : String) : (jobs.activeOf owner).Nodup :=
  (List.filter_sublist.map Sigma.fst).nodup jobs.nodupKeys

/-- Active jobs are counted by any list that has them all. -/
theorem length_activeOf_le {ids : List String} (h : jobs.activeOf owner ⊆ ids) :
    (jobs.activeOf owner).length ≤ ids.length :=
  ((nodup_activeOf jobs owner).subperm h).length_le

theorem activeOf_insert_subset (job : OwnedJob) :
    activeOf (jobs.insert id job) owner ⊆ id :: jobs.activeOf owner := by
  intro id' h
  obtain ⟨job', hlookup, hactive⟩ := mem_activeOf_iff.mp h
  by_cases hid : id' = id
  · exact List.mem_cons.mpr (.inl hid)
  · rw [AList.lookup_insert_ne hid] at hlookup
    exact List.mem_cons_of_mem id (mem_activeOf_iff.mpr ⟨job', hlookup, hactive⟩)

theorem length_activeOf_insert_le (job : OwnedJob) :
    (activeOf (jobs.insert id job) owner).length ≤ (jobs.activeOf owner).length + 1 :=
  length_activeOf_le (activeOf_insert_subset job)

/-- A worker's update makes no job active. -/
theorem activeOf_update_subset (new : JobState) (fields : Fields) (now : Seconds) :
    (jobs.update id new fields now).activeOf owner ⊆ jobs.activeOf owner := by
  rw [update]
  cases hlookup : jobs.lookup id with
  | none => exact List.Subset.refl _
  | some job =>
    dsimp only
    cases hupdate : job.record.onUpdate new fields now with
    | kept => exact List.Subset.refl _
    | refused => exact List.Subset.refl _
    | written rec =>
      obtain ⟨hcan, hstate⟩ := JobRecord.onUpdate_written hupdate
      intro id' h
      obtain ⟨job', hlookup', howner, hactive⟩ := mem_activeOf_iff.mp h
      by_cases hid : id' = id
      · subst hid
        rw [AList.lookup_insert] at hlookup'
        obtain rfl := Option.some.inj hlookup'
        rcases hcan.source with hold | ⟨-, hnew⟩
        · exact mem_activeOf_iff.mpr ⟨job, hlookup, howner, hold⟩
        · rw [hstate, hnew] at hactive
          simp [JobState.active] at hactive
      · rw [AList.lookup_insert_ne hid] at hlookup'
        exact mem_activeOf_iff.mpr ⟨job', hlookup', howner, hactive⟩

theorem isSome_lookup_insert (job : OwnedJob) {id' : String}
    (h : (jobs.lookup id').isSome = true) : ((jobs.insert id job).lookup id').isSome = true := by
  by_cases hid : id' = id
  · subst hid
    rw [AList.lookup_insert]
    rfl
  · rw [AList.lookup_insert_ne hid]
    exact h

/-- It neither adds a job nor takes one away. -/
theorem isSome_lookup_update (new : JobState) (fields : Fields) (now : Seconds) (id' : String) :
    ((jobs.update id new fields now).lookup id').isSome = (jobs.lookup id').isSome := by
  rw [update]
  cases hlookup : jobs.lookup id with
  | none => rfl
  | some job =>
    dsimp only
    cases job.record.onUpdate new fields now with
    | kept => rfl
    | refused => rfl
    | written rec =>
      dsimp only
      by_cases hid : id' = id
      · subst hid
        rw [AList.lookup_insert, hlookup]
        rfl
      · rw [AList.lookup_insert_ne hid]

end JobTable

/-! ## In memory -/

namespace MemoryJobs

variable (api : VisualizationApi) (owner : String)

/-- The number of active jobs of the owner. -/
def activeJobs (s : MemoryJobs) : Nat := (s.jobs.activeOf owner).length

theorem run_bind {α β : Type} (x : StateM MemoryJobs α) (f : α → StateM MemoryJobs β)
    (s : MemoryJobs) : (x >>= f).run s = (f (x.run s).1).run (x.run s).2 := rfl

theorem createIfAbsent_run (id : String) (job : OwnedJob) (s : MemoryJobs) :
    (createIfAbsent id job).run s =
      match s.jobs.lookup id with
      | some existing =>
        if existing.record.state.Reusable then ((existing, false), s)
        else
          ((job, true),
            { s with jobs := s.jobs.insert id job, claimed := s.claimed.filter (· ≠ id) })
      | none =>
        ((job, true),
          { s with jobs := s.jobs.insert id job, claimed := s.claimed.filter (· ≠ id) }) := by
  show createIfAbsent id job s = _
  rw [createIfAbsent]
  show (match s.jobs.lookup id with | some existing => _ | none => _ : StateM MemoryJobs _) s = _
  cases s.jobs.lookup id with
  | none => rfl
  | some existing =>
    by_cases hreusable : existing.record.state.Reusable
    · dsimp only
      rw [if_pos hreusable, if_pos hreusable]
      rfl
    · dsimp only
      rw [if_neg hreusable, if_neg hreusable]
      rfl

theorem createIfAbsent_jobs (id : String) (job : OwnedJob) (s : MemoryJobs) :
    ((createIfAbsent id job).run s).2.jobs
      = if OwnedJob.IsReusable (s.jobs.lookup id) then s.jobs else s.jobs.insert id job := by
  rw [createIfAbsent_run]
  cases s.jobs.lookup id with
  | none =>
    have hnot : ¬ OwnedJob.IsReusable none := by
      rintro ⟨job', hjob, -⟩
      cases hjob
    exact (if_neg hnot).symm
  | some existing =>
    by_cases hreusable : existing.record.state.Reusable
    · dsimp only
      rw [if_pos hreusable, if_pos ⟨existing, rfl, hreusable⟩]
    · have hnot : ¬ OwnedJob.IsReusable (some existing) := by
        rintro ⟨job', hjob, h⟩
        obtain rfl := Option.some.inj hjob
        exact hreusable h
      dsimp only
      rw [if_neg hreusable, if_neg hnot]

/-- What is created is started, which changes no job. -/
theorem submit_jobs (jid spec : String) (s : MemoryJobs) :
    ((api.submit store owner jid spec).run s).2.jobs
      = if OwnedJob.IsReusable (s.jobs.lookup jid) then s.jobs
        else s.jobs.insert jid { owner, record := { spec, maxAttempts := api.maxAttempts } } := by
  rw [← createIfAbsent_jobs, VisualizationApi.submit, run_bind]
  show ((if _ then _ else _ : StateM MemoryJobs JobView).run _).2.jobs = _
  split_ifs <;> rfl

theorem hourlyCount_jobs (limit : Nat) (s : MemoryJobs) :
    ((hourlyCount owner limit).run s).2.jobs = s.jobs := by
  rw [hourlyCount, run_bind]
  show ((if limit ≤ _ then _ else _ : StateM MemoryJobs Bool).run s).2.jobs = s.jobs
  split_ifs <;> rfl

/-- The check changes no job, and is passed below the limit only. -/
theorem checkBudget_run (s : MemoryJobs) :
    ((api.checkBudget store owner).run s).2.jobs = s.jobs
      ∧ (((api.checkBudget store owner).run s).1 = none →
        s.activeJobs owner < api.maxActiveJobsPerUser) := by
  have hrun : (api.checkBudget store owner).run s
      = (if api.maxActiveJobsPerUser ≤ s.activeJobs owner then
          pure (some ⟨429, .budgetExhausted, "Too many animations in progress."⟩)
        else do
          let within ← hourlyCount owner api.jobsPerUserPerHour
          if within then return none
          else return some ⟨429, .budgetExhausted, FailureCategory.budgetExhausted.userMessage⟩ :
        StateM MemoryJobs _).run s := rfl
  by_cases hlimit : api.maxActiveJobsPerUser ≤ s.activeJobs owner
  · rw [if_pos hlimit] at hrun
    rw [hrun]
    exact ⟨rfl, fun h => nomatch h⟩
  · rw [if_neg hlimit, run_bind] at hrun
    refine ⟨?_, fun _ => Nat.lt_of_not_le hlimit⟩
    rw [hrun, ← hourlyCount_jobs owner api.jobsPerUserPerHour s]
    split_ifs <;> rfl

/-- A request leaves the owner within the limit. -/
theorem createJob_activeJobs_le (body : String) {s : MemoryJobs}
    (hs : s.activeJobs owner ≤ api.maxActiveJobsPerUser) :
    ((api.createJob store owner body).run s).2.activeJobs owner ≤ api.maxActiveJobsPerUser := by
  rw [VisualizationApi.createJob]
  by_cases henabled : (!api.manimEnabled) = true
  · rw [if_pos henabled]
    exact hs
  · rw [if_neg henabled]
    cases api.validateSpec body with
    | error unsupported => exact hs
    | ok spec =>
      dsimp only
      rw [run_bind]
      show ((if OwnedJob.IsReusable (s.jobs.lookup (api.jobIdFor owner spec)) then _ else _ :
        StateM MemoryJobs _).run s).2.activeJobs owner ≤ _
      by_cases hreusable : OwnedJob.IsReusable (s.jobs.lookup (api.jobIdFor owner spec))
      · have hjobs := submit_jobs api owner (api.jobIdFor owner spec) spec s
        rw [if_pos hreusable] at hjobs
        rw [if_pos hreusable, run_bind, activeJobs]
        show (((api.submit store owner (api.jobIdFor owner spec) spec).run s).2.jobs.activeOf
          owner).length ≤ _
        rw [hjobs]
        exact hs
      · obtain ⟨hjobs, hpassed⟩ := checkBudget_run api owner s
        rw [if_neg hreusable, run_bind]
        cases hrejection : ((api.checkBudget store owner).run s).1 with
        | some rejection =>
          show (((api.checkBudget store owner).run s).2.jobs.activeOf owner).length ≤ _
          rw [hjobs]
          exact hs
        | none =>
          have hlt := hpassed hrejection
          dsimp only
          rw [run_bind]
          show ((((api.submit store owner (api.jobIdFor owner spec) spec).run
            ((api.checkBudget store owner).run s).2).2).jobs.activeOf owner).length ≤ _
          rw [submit_jobs, hjobs, if_neg hreusable]
          exact (JobTable.length_activeOf_insert_le _).trans hlt

theorem activeJobs_step_le {s t : MemoryJobs} {a : Label}
    (hs : s.activeJobs owner ≤ api.maxActiveJobsPerUser) (h : step api owner s a = some t) :
    t.activeJobs owner ≤ api.maxActiveJobsPerUser := by
  cases a with
  | create body =>
    obtain rfl := Option.some.inj h
    exact createJob_activeJobs_le api owner body hs
  | update id new fields =>
    obtain rfl := Option.some.inj h
    exact (JobTable.length_activeOf_le (JobTable.activeOf_update_subset new fields s.clock)).trans hs
  | claim id =>
    obtain rfl := Option.some.inj h
    exact hs
  | tick now =>
    obtain rfl := Option.some.inj h
    exact hs

end MemoryJobs

/-! ## Over Redis -/

namespace RedisJobs

open Script

variable (owner : String)

/-- The number of active jobs of the owner. -/
def activeJobs (s : RedisJobs) : Nat := (s.jobs.activeOf owner).length

/-- The ids of all active jobs are in the owner's set. -/
def Listed (s : RedisJobs) : Prop := s.jobs.activeOf owner ⊆ s.owned owner

/-- What a request relies on: no job goes away, and while it counts them, none
becomes active. -/
structure Rely (g : Progress) (s t : RedisJobs) : Prop where
  kept : ∀ id, (s.jobs.lookup id).isSome = true → (t.jobs.lookup id).isSome = true
  counted : g.counting = true → t.jobs.activeOf owner ⊆ s.jobs.activeOf owner

/-- What a command of a request gives. -/
structure Gives (limit : Nat) (c : RedisCommand) (s t : RedisJobs) : Prop where
  within : s.activeJobs owner ≤ limit → t.activeJobs owner ≤ limit
  replaces : ∀ id job, c = .set id job → (s.jobs.lookup id).isSome = true
  lists : ∀ owner' id, c = .sadd owner' id → owner' = owner

def limitContract (limit : Nat) :
    NotedContract RedisCommand.Reply Progress (List String) RedisJobs where
  exec := RedisCommand.perform
  note := Progress.after
  rely := Rely owner
  ok g c _ s := ((∃ owner', c = .smembers owner') → Listed owner s) ∧
    (Creates s c → g.counting = true)
  guar := Gives owner limit
  rely_refl _ _ := ⟨fun _ h => h, fun _ => List.Subset.refl _⟩
  rely_trans hst htu := ⟨fun id h => htu.kept id (hst.kept id h),
    fun hg => List.Subset.trans (htu.counted hg) (hst.counted hg)⟩

variable {owner} {g : Progress} {s t u : RedisJobs} {limit : Nat}

theorem Rely.activeJobs_anti (h : Rely owner g s t) (hg : g.counting = true) :
    t.activeJobs owner ≤ s.activeJobs owner :=
  JobTable.length_activeOf_le (h.counted hg)

/-- A command changes the jobs only if it creates one. -/
theorem perform_jobs {c : RedisCommand} {w : List String} {r : c.Reply}
    (h : c.perform w s = some (r, t)) :
    (¬ Creates s c ∧ t.jobs = s.jobs) ∨
      ∃ id job, Creates s c ∧ t.jobs = s.jobs.insert id job
        ∧ (c = .setNx id job ∨ c = .set id job) := by
  cases c with
  | smembers owner' =>
    rw [RedisCommand.perform] at h
    split_ifs at h
    obtain ⟨-, rfl⟩ := Prod.mk.inj (Option.some.inj h)
    exact .inl ⟨id, rfl⟩
  | setNx id job =>
    rw [RedisCommand.perform] at h
    split_ifs at h with habsent
    · obtain ⟨-, rfl⟩ := Prod.mk.inj (Option.some.inj h)
      exact .inr ⟨id, job, Option.isNone_iff_eq_none.mp habsent, rfl, .inl rfl⟩
    · obtain ⟨-, rfl⟩ := Prod.mk.inj (Option.some.inj h)
      refine .inl ⟨fun hcreates => habsent (Option.isNone_iff_eq_none.mpr hcreates), rfl⟩
  | set id job =>
    obtain ⟨-, rfl⟩ := Prod.mk.inj (Option.some.inj h)
    exact .inr ⟨id, job, trivial, rfl, .inr rfl⟩
  | get id | incr owner' | expire owner' | sadd owner' id | deleteClaim id | rpush id =>
    obtain ⟨-, rfl⟩ := Prod.mk.inj (Option.some.inj h)
    exact .inl ⟨fun h => h, rfl⟩

/-- A command that creates no job leaves all of them to the rest of its script. -/
theorem ensures_quiet {α : Type} {c : RedisCommand} {f : c.Reply → RedisScript α}
    {post : α → Progress → RedisJobs → Prop} (hcreates : ∀ s, ¬ Creates s c)
    (hlists : ∀ owner' id, c = .sadd owner' id → owner' = owner)
    (h : ∀ t, Rely owner g s t → ∀ w r u,
      ((∃ owner', c = .smembers owner') → Listed owner t) → c.perform w t = some (r, u) →
      u.jobs = t.jobs → NotedEnsures (limitContract owner limit) post (f r) (g.after c r) u) :
    NotedEnsures (limitContract owner limit) post (c.call >>= f) g s := by
  refine notedEnsures_command_bind fun t ht w r u hok hexec => ?_
  have hjobs : u.jobs = t.jobs := by
    rcases perform_jobs hexec with ⟨-, hjobs⟩ | ⟨id, job, hcreated, -⟩
    · exact hjobs
    · exact absurd hcreated (hcreates t)
  refine ⟨⟨?_, ?_, hlists⟩, h t ht w r u hok.1 hexec hjobs⟩
  · rw [activeJobs, activeJobs, hjobs]
    exact id
  · rintro id job rfl
    exact absurd trivial (hcreates t)

section Methods

variable {α : Type} {post : α → Progress → RedisJobs → Prop}

/-- Whatever the request does next, it may do. -/
def Always (post : α → Progress → RedisJobs → Prop) : Prop := ∀ a g s, post a g s

/-- Below the limit, or without a count: then nothing may be created. -/
def Room (owner : String) (limit : Nat) (g : Progress) (s : RedisJobs) : Prop :=
  g.counting = true → s.activeJobs owner < limit

theorem Room.stable (h : Room owner limit g s) (hrely : Rely owner g s t) :
    Room owner limit g t :=
  fun hg => (hrely.activeJobs_anti hg).trans_lt (h hg)

/-- What is created in a room for it stays within the limit. -/
theorem Room.insert_le {id : String} {job : OwnedJob} (h : Room owner limit g s)
    (hg : g.counting = true) (hu : u.jobs = s.jobs.insert id job) :
    u.activeJobs owner ≤ limit := by
  rw [activeJobs, hu]
  exact (JobTable.length_activeOf_insert_le job).trans (h hg)

theorem replace_ensures {id : String} {job : OwnedJob}
    {post : OwnedJob × Bool → Progress → RedisJobs → Prop} (hpost : Always post)
    (hthere : (s.jobs.lookup id).isSome = true) (hroom : Room owner limit g s) :
    NotedEnsures (limitContract owner limit) post (replace id job) g s := by
  refine notedEnsures_command_bind fun t ht w r u hok hexec => ?_
  have hg : g.counting = true := hok.2 trivial
  have hu : u.jobs = t.jobs.insert id job := by
    obtain ⟨-, rfl⟩ := Prod.mk.inj (Option.some.inj hexec)
    rfl
  refine ⟨⟨fun _ => (hroom.stable ht).insert_le hg hu, ?_, ?_⟩, ?_⟩
  · intro id' job' hc
    obtain ⟨rfl, rfl⟩ := RedisCommand.set.inj hc
    exact ht.kept id hthere
  · intro owner' id' hc
    cases hc
  · refine ensures_quiet (fun _ h => h) (fun _ _ hc => nomatch hc) fun t' _ w r u _ _ _ => ?_
    exact hpost _ _ _

theorem createIfAbsent_ensures {id : String} {job : OwnedJob} (howner : job.owner = owner)
    {post : OwnedJob × Bool → Progress → RedisJobs → Prop} (hpost : Always post)
    (hroom : Room owner limit g s) :
    NotedEnsures (limitContract owner limit) post (createIfAbsent id job) g s := by
  refine notedEnsures_command_bind fun t ht w r u hok hexec => ?_
  have hstable := hroom.stable ht
  have hexec' : (RedisCommand.setNx id job).perform w t = some (r, u) := hexec
  rw [RedisCommand.perform] at hexec'
  split_ifs at hexec' with habsent
  · obtain ⟨rfl, hu⟩ := Prod.mk.inj (Option.some.inj hexec')
    have hg : g.counting = true := hok.2 (Option.isNone_iff_eq_none.mp habsent)
    have hjobs : u.jobs = t.jobs.insert id job := by rw [← hu]
    refine ⟨⟨fun _ => hstable.insert_le hg hjobs, (fun _ _ hc => nomatch hc),
      (fun _ _ hc => nomatch hc)⟩, ?_⟩
    refine ensures_quiet (fun _ h => h) ?_ fun t' _ w r u _ _ _ => hpost _ _ _
    intro owner' id' hc
    obtain ⟨rfl, -⟩ := RedisCommand.sadd.inj hc
    exact howner
  · obtain ⟨rfl, rfl⟩ := Prod.mk.inj (Option.some.inj hexec')
    have hthere : (t.jobs.lookup id).isSome = true := by
      rw [Option.isSome_iff_ne_none]
      exact fun h => habsent (Option.isNone_iff_eq_none.mpr h)
    refine ⟨⟨fun h => h, (fun _ _ hc => nomatch hc), (fun _ _ hc => nomatch hc)⟩, ?_⟩
    refine ensures_quiet (fun _ h => h) (fun _ _ hc => nomatch hc) fun t' ht' w r u _ _ hjobs => ?_
    have hthere' : (u.jobs.lookup id).isSome = true := by
      rw [hjobs]
      exact ht'.kept id hthere
    have hroom' : Room owner limit g u := by
      intro hg
      rw [activeJobs, hjobs]
      exact hstable.stable ht' hg
    cases r with
    | none => exact replace_ensures hpost hthere' hroom'
    | some existing =>
      by_cases hreusable : existing.record.state.Reusable
      · dsimp only
        rw [if_pos hreusable]
        exact hpost _ _ _
      · dsimp only
        rw [if_neg hreusable]
        exact replace_ensures hpost hthere' hroom'

/-- A job that is created is only put on the queue. -/
theorem submit_ensures {api : VisualizationApi} {jid spec : String}
    {post : JobView → Progress → RedisJobs → Prop} (hpost : Always post)
    (hroom : Room owner limit g s) :
    NotedEnsures (limitContract owner limit) post (api.submit store owner jid spec) g s := by
  have hcreate : ∀ post' : OwnedJob × Bool → Progress → RedisJobs → Prop, Always post' →
      NotedEnsures (limitContract owner limit) post'
        (createIfAbsent jid { owner, record := { spec, maxAttempts := api.maxAttempts } }) g s :=
    fun post' hpost' => createIfAbsent_ensures (by rfl) hpost' hroom
  refine NotedEnsures.bind (hcreate _ ?_)
  rintro ⟨job, created⟩ g' t
  cases created with
  | true =>
    refine ensures_quiet (fun _ h => h) (fun _ _ hc => nomatch hc) fun t' _ w r u _ _ _ => ?_
    exact hpost _ _ _
  | false => exact hpost _ _ _

/-- The ids that are left and those that were counted are all the active ones. -/
theorem countActive_ensures (hg : g.counting = true) (ids : List String) (n : Nat)
    (hcounted : ∃ counted : List String, counted.length = n
      ∧ s.jobs.activeOf owner ⊆ counted ++ ids) :
    NotedEnsures (limitContract owner limit) (fun n' g' t => g' = g ∧ t.activeJobs owner ≤ n')
      (countActive ids n) g s := by
  induction ids generalizing n s with
  | nil =>
    obtain ⟨counted, rfl, hall⟩ := hcounted
    rw [List.append_nil] at hall
    exact ⟨rfl, JobTable.length_activeOf_le hall⟩
  | cons id ids ih =>
    obtain ⟨counted, rfl, hall⟩ := hcounted
    refine ensures_quiet (fun _ h => h) (fun _ _ hc => nomatch hc) fun t ht w r u _ hexec hjobs => ?_
    obtain ⟨rfl, rfl⟩ := Prod.mk.inj (Option.some.inj hexec)
    have hall' : t.jobs.activeOf owner ⊆ counted ++ id :: ids :=
      List.Subset.trans (ht.counted hg) hall
    refine ih _ ?_
    by_cases hactive : ∃ job' ∈ t.jobs.lookup id, job'.record.state ∈ JobState.active
    · refine ⟨counted ++ [id], ?_, ?_⟩
      · rw [if_pos hactive, List.length_append]
        rfl
      · rw [List.append_assoc]
        exact hall'
    · refine ⟨counted, (if_neg hactive).symm, ?_⟩
      intro id' h
      rcases List.mem_append.mp (hall' h) with hin | hin
      · exact List.mem_append_left ids hin
      · rcases List.mem_cons.mp hin with rfl | hin
        · obtain ⟨job, hlookup, -, hstate⟩ := JobTable.mem_activeOf_iff.mp h
          exact absurd ⟨job, hlookup, hstate⟩ hactive
        · exact List.mem_append_right counted hin

theorem activeCount_ensures :
    NotedEnsures (limitContract owner limit)
      (fun n g' t => g'.counting = true ∧ t.activeJobs owner ≤ n) (activeCount owner) g s := by
  refine ensures_quiet (fun _ h => h) (fun _ _ hc => nomatch hc)
    fun t ht w r u hlisted hexec hjobs => ?_
  rw [RedisCommand.perform] at hexec
  split_ifs at hexec with horder
  obtain ⟨rfl, rfl⟩ := Prod.mk.inj (Option.some.inj hexec)
  refine (countActive_ensures rfl w 0 ⟨[], rfl, ?_⟩).weaken ?_
  · intro id h
    exact horder.symm.subset (hlisted ⟨owner, rfl⟩ h)
  · rintro n g' t' ⟨rfl, hle⟩
    exact ⟨rfl, hle⟩

theorem hourlyCount_ensures {perHour : Nat} (hg : g.counting = true)
    (hlt : s.activeJobs owner < limit) :
    NotedEnsures (limitContract owner limit)
      (fun _ g' t => g'.counting = true ∧ t.activeJobs owner < limit) (hourlyCount owner perHour)
      g s := by
  refine ensures_quiet (fun _ h => h) (fun _ _ hc => nomatch hc)
    fun t ht w r u _ hexec hjobs => ?_
  have hlt' : u.activeJobs owner < limit := by
    rw [activeJobs, hjobs]
    exact (ht.activeJobs_anti hg).trans_lt hlt
  obtain ⟨rfl, -⟩ := Prod.mk.inj (Option.some.inj hexec)
  show NotedEnsures _ _ (if t.hours owner + 1 = 1 then _ else _) g u
  split_ifs
  · refine ensures_quiet (fun _ h => h) (fun _ _ hc => nomatch hc)
      fun t' ht' w r u' _ _ hjobs' => ?_
    refine ⟨hg, ?_⟩
    rw [activeJobs, hjobs']
    exact (ht'.activeJobs_anti hg).trans_lt hlt'
  · exact ⟨hg, hlt'⟩

/-- A request that passes the check has counted, and found room. -/
theorem checkBudget_ensures {api : VisualizationApi} :
    NotedEnsures (limitContract owner api.maxActiveJobsPerUser)
      (fun rejection g' t => rejection = none → Room owner api.maxActiveJobsPerUser g' t)
      (api.checkBudget store owner) g s := by
  refine NotedEnsures.bind (activeCount_ensures.weaken ?_)
  rintro n g' t ⟨hg, hle⟩
  by_cases hlimit : api.maxActiveJobsPerUser ≤ n
  · rw [if_pos hlimit]
    exact fun h => nomatch h
  · rw [if_neg hlimit]
    refine NotedEnsures.bind ((hourlyCount_ensures hg (by omega)).weaken ?_)
    rintro within g'' t' ⟨-, hlt⟩
    cases within with
    | true => exact fun _ _ => hlt
    | false => exact fun h => nomatch h

/-- A request keeps to the limit, if it may rely on the others. -/
theorem createJob_ensures {api : VisualizationApi} {body : String}
    (hg : g.counting = false) :
    NotedEnsures (limitContract owner api.maxActiveJobsPerUser) (fun _ _ _ => True)
      (api.createJob store owner body) g s := by
  rw [VisualizationApi.createJob]
  split_ifs
  · trivial
  · cases api.validateSpec body with
    | error unsupported => trivial
    | ok spec =>
      refine ensures_quiet (fun _ h => h) (fun _ _ hc => nomatch hc)
        fun t ht w r u _ _ hjobs => ?_
      have hsubmit : ∀ {g' : Progress} {s' : RedisJobs}, Room owner api.maxActiveJobsPerUser g' s' →
          NotedEnsures (limitContract owner api.maxActiveJobsPerUser) (fun _ _ _ => True)
            (do return .ok (← api.submit store owner (api.jobIdFor owner spec) spec) :
              RedisScript (Except HTTPException JobView)) g' s' := by
        intro g' s' hroom
        exact NotedEnsures.bind (submit_ensures (fun _ _ _ => trivial) hroom)
      by_cases hreusable : OwnedJob.IsReusable r
      · rw [if_pos hreusable]
        refine hsubmit fun hcounting => ?_
        exact absurd hcounting (by simp [Progress.after, hg])
      · rw [if_neg hreusable]
        refine NotedEnsures.bind (checkBudget_ensures.weaken ?_)
        intro rejection g' t' hroom
        cases rejection with
        | some rejection => trivial
        | none => exact hsubmit (hroom rfl)

end Methods

/-! ### All requests -/

theorem owned_subset {c : RedisCommand} {w : List String} {r : c.Reply}
    (h : c.perform w s = some (r, t)) : s.owned owner ⊆ t.owned owner := by
  cases c with
  | smembers owner' =>
    rw [RedisCommand.perform] at h
    split_ifs at h
    obtain ⟨-, rfl⟩ := Prod.mk.inj (Option.some.inj h)
    exact List.Subset.refl _
  | setNx id job =>
    rw [RedisCommand.perform] at h
    split_ifs at h <;> obtain ⟨-, rfl⟩ := Prod.mk.inj (Option.some.inj h) <;>
      exact List.Subset.refl _
  | sadd owner' id =>
    obtain ⟨-, rfl⟩ := Prod.mk.inj (Option.some.inj h)
    intro id' hid'
    show id' ∈ Function.update s.owned owner' _ owner
    by_cases howner : owner = owner'
    · subst howner
      rw [Function.update_self]
      exact List.mem_insert_of_mem hid'
    · rw [Function.update_of_ne howner]
      exact hid'
  | get id | incr owner' | expire owner' | set id job | deleteClaim id | rpush id =>
    obtain ⟨-, rfl⟩ := Prod.mk.inj (Option.some.inj h)
    exact List.Subset.refl _

/-- An id that is taken off the unlisted ones is in the owner's set. -/
theorem unlisted_after {c : RedisCommand} {w : List String} {r : c.Reply} {id : String}
    (h : c.perform w s = some (r, t)) (hgives : Gives owner limit c s t) (hid : id ∈ g.unlisted) :
    id ∈ t.owned owner ∨ id ∈ (g.after c r).unlisted := by
  cases c with
  | sadd owner' id' =>
    obtain ⟨-, rfl⟩ := Prod.mk.inj (Option.some.inj h)
    obtain rfl := hgives.lists owner' id' rfl
    by_cases heq : id = id'
    · subst heq
      left
      show id ∈ Function.update s.owned owner' _ owner'
      rw [Function.update_self]
      exact List.mem_insert_self
    · exact .inr (List.mem_filter.mpr ⟨hid, decide_eq_true heq⟩)
  | setNx id' job =>
    right
    cases r with
    | true => exact List.mem_cons_of_mem id' hid
    | false => exact hid
  | get id' | smembers owner' | incr owner' | expire owner' | set id' job | deleteClaim id'
  | rpush id' => exact .inr hid

/-- A job that appears is noted as unlisted. -/
theorem unlisted_of_new {c : RedisCommand} {w : List String} {r : c.Reply} {id : String}
    (h : c.perform w s = some (r, t)) (hgives : Gives owner limit c s t)
    (hid : (t.jobs.lookup id).isSome = true) :
    (s.jobs.lookup id).isSome = true ∨ id ∈ (g.after c r).unlisted := by
  rcases perform_jobs h with ⟨-, hjobs⟩ | ⟨id', job, hcreates, hjobs, hc⟩
  · rw [hjobs] at hid
    exact .inl hid
  · by_cases heq : id = id'
    · subst heq
      rcases hc with rfl | rfl
      · rw [RedisCommand.perform, if_pos (Option.isNone_iff_eq_none.mpr hcreates)] at h
        obtain ⟨rfl, -⟩ := Prod.mk.inj (Option.some.inj h)
        exact .inr List.mem_cons_self
      · exact .inl (hgives.replaces id job rfl)
    · rw [hjobs, AList.lookup_insert_ne heq] at hid
      exact .inl hid

/-- What holds of the requests while they do not run into each other. -/
structure WithinLimit (owner : String) (limit : Nat) (s : Requests) : Prop where
  within : s.shared.activeJobs owner ≤ limit
  keeps : NotedPool.Keeps (limitContract owner limit) (fun _ _ _ => True) s
  listed : ∀ id, (s.shared.jobs.lookup id).isSome = true →
    id ∈ s.shared.owned owner ∨ ∃ r ∈ s.scripts, id ∈ r.2.unlisted

theorem withinLimit_requested (api : VisualizationApi) (owner : String) (bodies : List String) :
    WithinLimit owner api.maxActiveJobsPerUser (requested api owner bodies) := by
  refine ⟨Nat.zero_le _, ?_, fun id h => ?_⟩
  · intro i p g hp _
    obtain ⟨body, -, hbody⟩ := List.mem_map.mp (List.mem_of_getElem? hp)
    obtain ⟨rfl, rfl⟩ := Prod.mk.inj hbody
    exact createJob_ensures rfl
  · rw [requested, AList.lookup_empty] at h
    cases h

theorem rely_update (id : String) (new : JobState) (fields : Fields) (now : Seconds) :
    Rely owner g s { s with jobs := s.jobs.update id new fields now } :=
  ⟨fun id' h => (JobTable.isSome_lookup_update new fields now id').trans h,
    fun _ => JobTable.activeOf_update_subset new fields now⟩

/-- What happens elsewhere keeps all of it. -/
theorem WithinLimit.step_other {e : Elsewhere} {s t : Requests} (hs : WithinLimit owner limit s)
    (hstep : step s (.other e) = some t) : WithinLimit owner limit t := by
  obtain ⟨u, hu, rfl⟩ := NotedPool.exists_of_step_other hstep
  cases e with
  | update id new fields now =>
    obtain rfl := Option.some.inj hu
    refine ⟨?_, ?_, fun id' h => ?_⟩
    · exact (JobTable.length_activeOf_le
        (JobTable.activeOf_update_subset new fields now)).trans hs.within
    · refine hs.keeps.step_other (fun g t ht => ?_) hstep
      obtain rfl := Option.some.inj ht
      exact rely_update id new fields now
    · have hold := h
      rw [JobTable.isSome_lookup_update] at hold
      exact hs.listed id' hold
  | claim id =>
    obtain rfl := Option.some.inj hu
    refine ⟨hs.within, hs.keeps.step_other (fun g t ht => ?_) hstep, hs.listed⟩
    obtain rfl := Option.some.inj ht
    exact ⟨fun _ h => h, fun _ => List.Subset.refl _⟩
  | expireHour owner' =>
    obtain rfl := Option.some.inj hu
    refine ⟨hs.within, hs.keeps.step_other (fun g t ht => ?_) hstep, hs.listed⟩
    obtain rfl := Option.some.inj ht
    exact ⟨fun _ h => h, fun _ => List.Subset.refl _⟩

/-- Where no request is about to list a job, all jobs are listed. -/
theorem WithinLimit.listedAll {s : Requests} (hs : WithinLimit owner limit s)
    (hnone : ∀ r ∈ s.scripts, r.2.unlisted = []) : Listed owner s.shared := by
  intro id hid
  obtain ⟨job, hlookup, -⟩ := JobTable.mem_activeOf_iff.mp hid
  rcases hs.listed id (by rw [hlookup]; rfl) with hin | ⟨request, hrequest, hunlisted⟩
  · exact hin
  · rw [hnone request hrequest] at hunlisted
    cases hunlisted

/-- An undisturbed command does what the contract allows. -/
theorem WithinLimit.allowed {i : Nat} {w : List String} {s : Requests}
    (hs : WithinLimit owner limit s) (hundisturbed : Undisturbed s (.work i w)) :
    NotedPool.Allowed (limitContract owner limit) s i w := by
  intro c rest g hp
  obtain ⟨hread, hcreate⟩ := hundisturbed c rest g hp
  exact ⟨fun h => hs.listedAll (hread h), fun h => (hcreate h).1⟩

/-- After a command every job is listed, or its request is about to list it. -/
theorem WithinLimit.listed_work {i : Nat} {w : List String} {s : Requests} {u : RedisJobs}
    {c : RedisCommand} {rest : c.Reply → RedisScript (Except HTTPException JobView)} {g : Progress}
    {r : c.Reply} (hs : WithinLimit owner limit s) (hp : s.scripts[i]? = some (.call c rest, g))
    (hexec : c.perform w s.shared = some (r, u)) (hgives : Gives owner limit c s.shared u)
    {id : String} (h : (u.jobs.lookup id).isSome = true) :
    id ∈ u.owned owner
      ∨ ∃ request ∈ s.scripts.set i (rest r, g.after c r), id ∈ request.2.unlisted := by
  have hself : (rest r, g.after c r) ∈ s.scripts.set i (rest r, g.after c r) :=
    List.mem_set (List.getElem?_eq_some_iff.mp hp).1 _
  rcases unlisted_of_new (g := g) hexec hgives h with hold | hnew
  · rcases hs.listed id hold with hin | ⟨request, hrequest, hunlisted⟩
    · exact .inl (owned_subset hexec hin)
    · obtain ⟨j, hj⟩ := List.mem_iff_getElem?.mp hrequest
      by_cases hij : i = j
      · subst hij
        rw [hp] at hj
        obtain rfl := Option.some.inj hj
        rcases unlisted_after hexec hgives hunlisted with hin | hstill
        · exact .inl hin
        · exact .inr ⟨_, hself, hstill⟩
      · refine .inr ⟨request, ?_, hunlisted⟩
        refine List.mem_iff_getElem?.mpr ⟨j, ?_⟩
        rw [List.getElem?_set_ne hij]
        exact hj
  · exact .inr ⟨_, hself, hnew⟩

/-- A command that does not run into another request keeps all of it. -/
theorem WithinLimit.step_work {i : Nat} {w : List String} {s t : Requests}
    (hs : WithinLimit owner limit s) (hundisturbed : Undisturbed s (.work i w))
    (hstep : step s (.work i w) = some t) : WithinLimit owner limit t := by
  have hok := hs.allowed hundisturbed
  obtain ⟨c, rest, g, r, u, hp, hexec, rfl⟩ := NotedPool.exists_of_step_work hstep
  have hcreate := (hundisturbed c rest g hp).2
  have hgives : Gives owner limit c s.shared u := hs.keeps.guar hok hp hexec
  refine ⟨hgives.within hs.within, hs.keeps.step_work hok ?_ hstep,
    fun id h => hs.listed_work hp hexec hgives h⟩
  intro j p g' hj hrequest hgoes
  rcases perform_jobs hexec with ⟨-, hjobs⟩ | ⟨id, job, hcreates, hjobs, -⟩
  · refine ⟨fun id h => ?_, fun _ => ?_⟩
    · rw [hjobs]
      exact h
    · rw [hjobs]
      exact List.Subset.refl _
  · refine ⟨fun id' h => ?_, fun hcounting => ?_⟩
    · rw [hjobs]
      exact JobTable.isSome_lookup_insert job h
    · exact absurd ⟨hcounting, hgoes⟩ ((hcreate hcreates).2 j (p, g') hj hrequest)

/-- A step that does not run into another request keeps all of it. -/
theorem WithinLimit.step {a : Label} {s t : Requests} (hs : WithinLimit owner limit s)
    (hundisturbed : Undisturbed s a) (hstep : step s a = some t) : WithinLimit owner limit t := by
  cases a with
  | other e => exact hs.step_other hstep
  | work i w => exact hs.step_work hundisturbed hstep

end RedisJobs

/-! ## Both stores -/

/-- With jobs in memory, an owner stays within the limit; over Redis, in every
run in which no request creates a job between another's count and its creation,
and none counts while a job that was created is not listed. -/
theorem activeJobs_le (api : VisualizationApi) (owner : String) :
    (∀ (l : List MemoryJobs.Label) (t : MemoryJobs),
      Runs.Visited (MemoryJobs.step api owner) {} l t →
        t.activeJobs owner ≤ api.maxActiveJobsPerUser) ∧
    ∀ (bodies : List String) (l : List RedisJobs.Label),
      (∀ u a t, Runs.StepAt RedisJobs.step (RedisJobs.requested api owner bodies) l u a t →
        RedisJobs.Undisturbed u a) →
      ∀ t, Runs.Visited RedisJobs.step (RedisJobs.requested api owner bodies) l t →
        t.shared.activeJobs owner ≤ api.maxActiveJobsPerUser := by
  constructor
  · intro l t ht
    have hstep : ∀ (s : MemoryJobs) a t, s.activeJobs owner ≤ api.maxActiveJobsPerUser →
        MemoryJobs.step api owner s a = some t → t.activeJobs owner ≤ api.maxActiveJobsPerUser :=
      fun s a t hs h => MemoryJobs.activeJobs_step_le api owner hs h
    have hempty : MemoryJobs.activeJobs owner {} ≤ api.maxActiveJobsPerUser := Nat.zero_le _
    exact Runs.Visited.invariant hstep hempty ht
  · intro bodies l hok t ht
    have hstep : ∀ s a t, True → RedisJobs.WithinLimit owner api.maxActiveJobsPerUser s →
        RedisJobs.Undisturbed s a → RedisJobs.step s a = some t →
        RedisJobs.WithinLimit owner api.maxActiveJobsPerUser t :=
      fun s a t _ hs ha h => hs.step ha h
    have hwithin := Runs.visited_of_steps (fun _ _ _ _ _ => trivial) hstep trivial
      (RedisJobs.withinLimit_requested api owner bodies) hok t ht
    exact hwithin.within

/-! ## Requests in turn -/

namespace RedisJobs

instance (r : Request) : Decidable (MayCreate r) := inferInstanceAs (Decidable (_ ∧ _))

instance (s : RedisJobs) (c : RedisCommand) : Decidable (Creates s c) :=
  match c with
  | .setNx id _ => inferInstanceAs (Decidable (s.jobs.lookup id = none))
  | .set _ _ => isTrue trivial
  | .get _ | .smembers _ | .incr _ | .expire _ | .sadd _ _ | .deleteClaim _ | .rpush _ => isFalse id

instance (c : RedisCommand) : Decidable (∃ owner, c = .smembers owner) :=
  match c with
  | .smembers owner => isTrue ⟨owner, rfl⟩
  | .get _ | .setNx _ _ | .set _ _ | .incr _ | .expire _ | .sadd _ _ | .deleteClaim _ | .rpush _ =>
    isFalse fun ⟨_, h⟩ => nomatch h

/-- The next command of the request at `i` does not run into those of the others. -/
def UndisturbedAt (s : Requests) (i : Nat) (c : RedisCommand) (g : Progress) : Prop :=
  ((∃ owner, c = .smembers owner) → ∀ r ∈ s.scripts, r.2.unlisted = []) ∧
    (Creates s.shared c → g.counting = true ∧
      ∀ j < s.scripts.length, j ≠ i → ∀ r ∈ s.scripts[j]?, ¬ MayCreate r)

instance (s : Requests) (i : Nat) (c : RedisCommand) (g : Progress) :
    Decidable (UndisturbedAt s i c g) := inferInstanceAs (Decidable (_ ∧ _))

/-- The command of the label, if it is one, does not run into another request. -/
def undisturbedCheck (s : Requests) : Label → Bool
  | .other _ => true
  | .work i _ =>
    match s.scripts[i]? with
    | some (.call c _, g) => decide (UndisturbedAt s i c g)
    | _ => true

theorem undisturbed_of_check {s : Requests} {a : Label} (h : undisturbedCheck s a = true) :
    Undisturbed s a := by
  cases a with
  | other e => trivial
  | work i w =>
    intro c rest g hp
    rw [undisturbedCheck, hp] at h
    obtain ⟨hread, hcreates⟩ := of_decide_eq_true h
    refine ⟨hread, fun hc => ⟨(hcreates hc).1, ?_⟩⟩
    intro j r hj hr
    exact (hcreates hc).2 j (List.getElem?_eq_some_iff.mp hr).1 hj r hr

/-- Two jobs at a time; a specification is its own canonical text. -/
def twoJobsApi : VisualizationApi where
  maxActiveJobsPerUser := 2
  validateSpec body := .ok body
  jobIdFor owner spec := "mj_" ++ owner ++ spec

/-- The second request looks its job up before the first has created one, and counts behind
it; the third is refused; the fourth comes in when a job has been cancelled. -/
def inTurn : List Label :=
  let first := "mj_u1a"
  let second := "mj_u1b"
  [.work 0 [], .work 1 [], .work 0 [], .work 0 [], .work 0 [], .work 0 [], .work 0 [],
    .work 1 [first], .work 0 [], .work 1 [], .work 2 [], .work 1 [], .work 1 [], .work 1 [],
    .work 2 [first, second], .work 1 [], .work 2 [], .work 2 [],
    .work 3 [], .other (.update first .cancelled {} 9), .work 3 [second, first], .work 3 [],
    .work 3 [], .work 3 [], .work 3 [], .work 3 [], .work 3 []]

/-- Of four requests three create a job, one is refused, and two jobs are left active. -/
theorem inTurn_within :
    ∃ t, Runs.run step (requested twoJobsApi "u1" ["a", "b", "c", "d"]) inTurn = some t
      ∧ t.shared.queue = ["mj_u1a", "mj_u1b", "mj_u1d"] ∧ (∀ r ∈ t.scripts, r.1.Finished)
      ∧ t.shared.activeJobs "u1" = 2
      ∧ t.shared.activeJobs "u1" ≤ twoJobsApi.maxActiveJobsPerUser := by
  have hrun : ∃ t ∈ Runs.run step (requested twoJobsApi "u1" ["a", "b", "c", "d"]) inTurn,
      t.shared.queue = ["mj_u1a", "mj_u1b", "mj_u1d"] ∧ (∀ r ∈ t.scripts, r.1.Finished)
        ∧ t.shared.activeJobs "u1" = 2 := by
    decide
  have hcheck : Runs.EveryStep step (fun s a => undisturbedCheck s a = true)
      (requested twoJobsApi "u1" ["a", "b", "c", "d"]) inTurn := by
    decide
  obtain ⟨t, ht, hqueue, hfinished, htwo⟩ := hrun
  refine ⟨t, ht, hqueue, hfinished, htwo, ?_⟩
  refine (activeJobs_le twoJobsApi "u1").2 ["a", "b", "c", "d"] inTurn ?_ t
    ⟨inTurn, [], (List.append_nil inTurn).symm, ht⟩
  intro u a v hstep
  exact undisturbed_of_check (Runs.everyStep_iff.mp hcheck u a v hstep)

/-! ## Two requests at once -/

/-- One job at a time; a specification is its own canonical text. -/
def singleJobApi : VisualizationApi where
  maxActiveJobsPerUser := 1
  validateSpec body := .ok body
  jobIdFor owner spec := "mj_" ++ owner ++ spec

/-- The ids that both requests are answered with are none; then each creates
its job. -/
def twoAtOnce : List Label :=
  [.work 0 [], .work 0 [], .work 1 [], .work 1 [], .work 0 [], .work 0 [], .work 0 [],
    .work 1 [], .work 1 []]

/-- Both requests are let through, and the owner has two active jobs. -/
theorem twoAtOnce_above :
    ¬ ∀ (api : VisualizationApi) (owner : String) (bodies : List String) (l : List Label)
      (t : Requests), bodies.Nodup → Runs.Visited step (requested api owner bodies) l t →
        t.shared.activeJobs owner ≤ api.maxActiveJobsPerUser := by
  intro h
  have hrun : (Runs.run step (requested singleJobApi "u1" ["a", "b"]) twoAtOnce).map
      (fun t => t.shared.activeJobs "u1") = some 2 := by
    decide
  obtain ⟨t, ht, htwo⟩ := Option.map_eq_some_iff.mp hrun
  have hle := h singleJobApi "u1" ["a", "b"] twoAtOnce t (by decide)
    ⟨twoAtOnce, [], (List.append_nil twoAtOnce).symm, ht⟩
  rw [htwo] at hle
  exact absurd hle (by decide)

end RedisJobs

end LlmService
