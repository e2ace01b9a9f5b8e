import LlmService.Consumers.CommitOrder
import LlmService.Lib.Within
import LlmService.Utils.RecentKeys

/-!
# The idempotency window

A task comes to the idempotency cache once, as it starts, and looks its
message id up and takes it in the same step. So the cache of a run is the one
after the ids of its checks, whatever the tasks do in between, and the
handler is started for an id only by a check that has taken it.
-/

namespace LlmService

open Runs

/-- How far a task has come: it waits; its handler is running or is to be called
again; or it is past that. -/
def Phase.stage : Phase → Nat
  | .waiting => 0
  | .handling _ _ _ _ | .sleeping _ _ _ _ => 1
  | .publishing _ _ | .committing | .finished | .crashed _ => 2

/-- A task looks up a message id in the idempotency cache. -/
structure IdempotencyCheck where
  task : Nat
  messageId : String
  now : Seconds
  deriving DecidableEq

namespace KafkaConsumerEngine

variable {s t u v : KafkaConsumerEngine} {a : ConsumerLabel} {l l₁ l₂ : List ConsumerLabel}
  {i : Nat} {now : Seconds} {task : RecordTask} {check : IdempotencyCheck}

/-- The check that a step makes: a starting task whose record is a request. -/
def checkAt (s : KafkaConsumerEngine) : ConsumerLabel → Option IdempotencyCheck
  | .start i now => do
    let task ← s.tasks[i]?
    let messageId ← s.requestId task.msg
    return { task := i, messageId, now }
  | _ => none

/-- The checks of a run, in their order. -/
def checks : KafkaConsumerEngine → List ConsumerLabel → List IdempotencyCheck
  | _, [] => []
  | s, a :: l =>
    match step s a with
    | none => []
    | some t => (s.checkAt a).toList ++ checks t l

/-- At some point of the run, the record of a task is with the handler. -/
def HandlerStarted (s : KafkaConsumerEngine) (l : List ConsumerLabel) (i : Nat) : Prop :=
  ∃ t task, Visited step s l t ∧ t.tasks[i]? = some task ∧ task.phase.stage = 1

/-! ## The stages of a task -/

theorem commitPhase_stage (s : KafkaConsumerEngine) : s.commitPhase.stage = 2 := by
  unfold commitPhase
  split <;> rfl

theorem stage_le_two (phase : Phase) : phase.stage ≤ 2 := by
  cases phase <;> simp [Phase.stage]

theorem handlerFailed_stage (msg : ConsumerRecord) (key raw : String)
    (event : ChatMessageCreatedEvent) (attempt : Nat) (exc : Exc) (now : Seconds) :
    1 ≤ (handlerFailed msg key raw event attempt exc now).stage := by
  unfold handlerFailed
  split
  · exact le_refl 1
  · exact Nat.le_succ 1

/-- No task goes back to an earlier stage. -/
def Advances (s t : KafkaConsumerEngine) : Prop :=
  ∀ (i : Nat) (task : RecordTask), s.tasks[i]? = some task →
    ∃ task', t.tasks[i]? = some task' ∧ task.phase.stage ≤ task'.phase.stage

theorem Advances.refl (s : KafkaConsumerEngine) : Advances s s :=
  fun _ task htask => ⟨task, htask, le_refl _⟩

theorem Advances.trans (h : Advances s t) (h' : Advances t u) : Advances s u := by
  intro i task htask
  obtain ⟨task', htask', hle⟩ := h i task htask
  obtain ⟨task'', htask'', hle'⟩ := h' i task' htask'
  exact ⟨task'', htask'', hle.trans hle'⟩

theorem Advances.of_longer (h : s.tasks <+: t.tasks) : Advances s t := by
  intro i task htask
  obtain ⟨hlt, rfl⟩ := List.getElem?_eq_some_iff.mp htask
  exact ⟨_, List.prefix_iff_getElem?.mp h i hlt, le_refl _⟩

theorem Advances.of_set {task' : RecordTask} (htask : s.tasks[i]? = some task)
    (ht : t.tasks = s.tasks.set i task') (hle : task.phase.stage ≤ task'.phase.stage) :
    Advances s t := by
  intro j moved hmoved
  rw [ht, List.getElem?_set]
  by_cases hij : i = j
  · subst hij
    obtain rfl : task = moved := Option.some.inj (htask.symm.trans hmoved)
    obtain ⟨hlt, -⟩ := List.getElem?_eq_some_iff.mp htask
    exact ⟨task', by simp [hlt], hle⟩
  · exact ⟨moved, by rw [if_neg hij]; exact hmoved, le_refl _⟩

/-- A task that starts waits until then. -/
theorem start_cases (h : step s (.start i now) = some t) :
    ∃ task, s.tasks[i]? = some task ∧ task.phase = .waiting ∧
      ((∃ exc, s.process task.msg now = .error exc ∧
          t = s.setTask i { task with phase := .crashed exc }) ∨
        ∃ phase settled processedIds, s.process task.msg now = .ok (phase, settled, processedIds) ∧
          t = { s.setTask i { task with phase, settled } with processedIds }) := by
  obtain ⟨j, task, htask, hresumes⟩ := resumes_of_step (by simp) (by simp) h
  cases hresumes with
  | crashes _ exc hphase _ hprocess =>
    exact ⟨task, htask, hphase, .inl ⟨exc, hprocess, rfl⟩⟩
  | starts _ phase settled ids hphase _ hprocess =>
    exact ⟨task, htask, hphase, .inr ⟨phase, settled, ids, hprocess, rfl⟩⟩

/-- A task that has started goes on to a later stage, and leaves the idempotency cache alone. -/
theorem Resumes.advances (ha : ∀ i now, a ≠ .start i now) (htask : s.tasks[i]? = some task)
    (h : Resumes s i task a t) : Advances s t ∧ t.processedIds = s.processedIds := by
  cases h with
  | crashes now exc _ _ _ => exact absurd rfl (ha i now)
  | starts now phase settled ids _ _ _ => exact absurd rfl (ha i now)
  | handled now key raw event attempt hphase =>
    refine ⟨.of_set htask rfl ?_, rfl⟩
    rw [hphase]
    show 1 ≤ s.commitPhase.stage
    rw [commitPhase_stage]
    omega
  | fails now key raw event attempt exc hphase =>
    refine ⟨.of_set htask rfl ?_, rfl⟩
    rw [hphase]
    exact handlerFailed_stage _ _ _ _ _ _ _
  | wakes key raw event attempt hphase =>
    refine ⟨.of_set htask rfl ?_, rfl⟩
    rw [hphase]
    exact le_refl 1
  | published event kind hphase =>
    refine ⟨.of_set htask rfl ?_, rfl⟩
    rw [hphase]
    show 2 ≤ s.commitPhase.stage
    rw [commitPhase_stage]
  | unpublished event kind exc hphase =>
    refine ⟨.of_set htask rfl ?_, rfl⟩
    rw [hphase]
    exact le_refl 2
  | commits hphase =>
    refine ⟨.of_set htask rfl ?_, rfl⟩
    rw [hphase]
    exact le_refl 2
  | uncommitted exc hphase =>
    refine ⟨.of_set htask rfl ?_, rfl⟩
    rw [hphase]
    exact le_refl 2
  | interrupted => exact ⟨.of_set htask rfl (stage_le_two task.phase), rfl⟩

/-- Every step but a start leaves the idempotency cache alone. -/
theorem step_advances (ha : ∀ i now, a ≠ .start i now) (h : step s a = some t) :
    Advances s t ∧ t.processedIds = s.processedIds := by
  by_cases hpoll : ∃ batch, a = .poll batch
  · obtain ⟨batch, rfl⟩ := hpoll
    simp only [step] at h
    split at h
    · obtain ⟨htasks, -, hids⟩ := foldlM_spawn_tasks h
      exact ⟨.of_longer htasks, hids⟩
    · cases h
  · by_cases hstop : a = .stop
    · subst hstop
      cases h
      exact ⟨.refl s, rfl⟩
    · obtain ⟨i, task, htask, hresumes⟩ :=
        resumes_of_step (fun batch hbatch => hpoll ⟨batch, hbatch⟩) hstop h
      exact hresumes.advances ha htask

/-! ## The check of a start -/

/-- The text that an accepted record is checked under. -/
theorem requestId_eq_some {msg : ConsumerRecord} {id : String} (h : s.requestId msg = some id) :
    ∃ key raw event, intake s.parse msg = .ok (.request key raw event) ∧
      event.messageId = id := by
  rw [requestId] at h
  split at h
  · rename_i key raw event hintake
    exact ⟨key, raw, event, hintake, Option.some.inj h⟩
  · cases h

/-- A record that makes no check leaves the cache alone and its handler uncalled. -/
theorem process_unchecked {msg : ConsumerRecord} {phase : Phase} {settled : Option Settlement}
    {ids : TTLCache Unit} (hnone : s.requestId msg = none)
    (h : s.process msg now = .ok (phase, settled, ids)) :
    phase.stage = 2 ∧ ids = s.processedIds := by
  rw [requestId] at hnone
  rw [process] at h
  obtain ⟨record, hrecord, h⟩ := except_bind_eq_ok.mp h
  rw [hrecord] at hnone
  cases record with
  | reject key raw errorType errorMessage =>
    cases h
    exact ⟨rfl, rfl⟩
  | request key raw event => cases hnone

/-- A record that makes a check comes to its handler only by taking its id. -/
theorem process_checked {msg : ConsumerRecord} {id : String} (hid : s.requestId msg = some id)
    (now : Seconds) :
    ∃ phase settled, s.process msg now
        = .ok (phase, settled, (s.processedIds.containsOrSet id now ()).2) ∧
      1 ≤ phase.stage ∧
      (phase.stage = 1 → (s.processedIds.containsOrSet id now ()).1 = false) := by
  obtain ⟨key, raw, event, hintake, rfl⟩ := requestId_eq_some hid
  rw [process, hintake, TTLCache.containsOrSet_eq]
  simp only [bind, Except.bind]
  cases hfound : (s.processedIds.contains event.messageId now).1 with
  | true =>
    refine ⟨s.commitPhase, none, rfl, ?_, ?_⟩
    · rw [commitPhase_stage]
      omega
    · intro hstage
      rw [commitPhase_stage] at hstage
      omega
  | false =>
    cases hhandler : s.hasHandler with
    | true => exact ⟨_, _, rfl, le_refl 1, fun _ => rfl⟩
    | false =>
      refine ⟨s.commitPhase, some .handled, rfl, ?_, fun _ => rfl⟩
      rw [commitPhase_stage]
      omega

/-- A start makes the check of its record, if it makes one. -/
theorem start_spec (h : step s (.start i now) = some t) :
    ∃ task task', s.tasks[i]? = some task ∧ task.phase = .waiting ∧
      t.tasks = s.tasks.set i task' ∧ 1 ≤ task'.phase.stage ∧
      (s.requestId task.msg = none → t.processedIds = s.processedIds) ∧
      ∀ id, s.requestId task.msg = some id →
        t.processedIds = (s.processedIds.containsOrSet id now ()).2 ∧
          (task'.phase.stage = 1 → (s.processedIds.containsOrSet id now ()).1 = false) := by
  obtain ⟨task, htask, hphase, hstart⟩ := start_cases h
  cases hid : s.requestId task.msg with
  | none =>
    rcases hstart with ⟨exc, -, rfl⟩ | ⟨phase, settled, ids, hprocess, rfl⟩
    · exact ⟨task, _, htask, hphase, rfl, Nat.le_succ 1, fun _ => rfl, by simp [hid]⟩
    · obtain ⟨hstage, hids⟩ := process_unchecked hid hprocess
      exact ⟨task, _, htask, hphase, rfl, hstage ▸ Nat.le_succ 1, fun _ => hids, by simp [hid]⟩
  | some id =>
    obtain ⟨phase, settled, hchecked, hstage, htaken⟩ := process_checked hid now
    rcases hstart with ⟨exc, hprocess, -⟩ | ⟨phase', settled', ids, hprocess, rfl⟩
    · rw [hchecked] at hprocess
      cases hprocess
    · rw [hchecked] at hprocess
      cases hprocess
      refine ⟨task, _, htask, hphase, rfl, hstage, by simp [hid], ?_⟩
      intro id' hid'
      obtain rfl : id = id' := Option.some.inj (hid.symm.trans hid')
      exact ⟨rfl, htaken⟩

theorem advances_of_step (h : step s a = some t) : Advances s t := by
  by_cases ha : ∃ i now, a = .start i now
  · obtain ⟨i, now, rfl⟩ := ha
    obtain ⟨task, task', htask, hphase, htasks, -⟩ := start_spec h
    refine .of_set htask htasks ?_
    rw [hphase]
    exact Nat.zero_le _
  · exact (step_advances (fun i now hi => ha ⟨i, now, hi⟩) h).1

theorem advances_of_run (h : run step s l = some t) : Advances s t := by
  induction l generalizing s with
  | nil =>
    cases h
    exact .refl _
  | cons a l ih =>
    rw [run_cons] at h
    obtain ⟨u, hu, ht⟩ := Option.bind_eq_some_iff.mp h
    exact (advances_of_step hu).trans (ih ht)

theorem checkAt_eq_some (h : s.checkAt a = some check) :
    a = .start check.task check.now ∧ ∃ task, s.tasks[check.task]? = some task ∧
      s.requestId task.msg = some check.messageId := by
  cases a with
  | start i now =>
    rw [checkAt] at h
    obtain ⟨task, htask, h⟩ := Option.bind_eq_some_iff.mp h
    obtain ⟨id, hid, h⟩ := Option.bind_eq_some_iff.mp h
    cases h
    exact ⟨rfl, task, htask, hid⟩
  | _ => cases h

/-- The cache changes by the check of the step, and by nothing else. -/
theorem processedIds_step (h : step s a = some t) :
    t.processedIds = s.processedIds.afterKeys ()
      ((s.checkAt a).toList.map fun check => (check.messageId, check.now)) := by
  by_cases ha : ∃ i now, a = .start i now
  · obtain ⟨i, now, rfl⟩ := ha
    obtain ⟨task, task', htask, -, -, -, hnone, hsome⟩ := start_spec h
    cases hid : s.requestId task.msg with
    | none =>
      have hcheck : s.checkAt (.start i now) = none := by
        simp [checkAt, htask, hid]
      rw [hcheck]
      exact hnone hid
    | some id =>
      have hcheck : s.checkAt (.start i now) = some { task := i, messageId := id, now } := by
        simp [checkAt, htask, hid]
      rw [hcheck]
      exact (hsome id hid).1
  · have hcheck : s.checkAt a = none := by
      cases a with
      | start i now => exact absurd ⟨i, now, rfl⟩ ha
      | _ => rfl
    rw [hcheck]
    exact (step_advances (fun i now hi => ha ⟨i, now, hi⟩) h).2

/-! ## The checks of a run -/

theorem checks_cons (h : step s a = some t) :
    checks s (a :: l) = (s.checkAt a).toList ++ checks t l := by
  rw [checks, h]

/-- The cache of a run is the one after the ids of its checks. -/
theorem processedIds_run (h : run step s l = some t) :
    t.processedIds = s.processedIds.afterKeys ()
      ((checks s l).map fun check => (check.messageId, check.now)) := by
  induction l generalizing s with
  | nil =>
    cases h
    rfl
  | cons a l ih =>
    rw [run_cons] at h
    obtain ⟨u, hu, ht⟩ := Option.bind_eq_some_iff.mp h
    rw [ih ht, checks_cons hu, List.map_append, TTLCache.afterKeys, TTLCache.afterKeys,
      List.foldl_append, processedIds_step hu]
    rfl

/-- Where in the run a check was made. -/
theorem exists_step_of_checks {A R : List IdempotencyCheck} (h : checks s l = A ++ check :: R) :
    ∃ l₁ a l₂ u v, l = l₁ ++ a :: l₂ ∧ run step s l₁ = some u ∧ step u a = some v ∧
      u.checkAt a = some check ∧ checks s l₁ = A ∧ checks v l₂ = R := by
  induction l generalizing s A with
  | nil => simp [checks] at h
  | cons a l ih =>
    cases hstep : step s a with
    | none => simp [checks, hstep] at h
    | some t =>
      rw [checks_cons hstep] at h
      cases hcheck : s.checkAt a with
      | none =>
        rw [hcheck] at h
        obtain ⟨l₁, b, l₂, u, v, rfl, hu, hv, hat, hA, hR⟩ := ih h
        refine ⟨a :: l₁, b, l₂, u, v, rfl, ?_, hv, hat, ?_, hR⟩
        · rw [run_cons, hstep]
          exact hu
        · rw [checks_cons hstep, hcheck]
          exact hA
      | some made =>
        rw [hcheck] at h
        cases A with
        | nil =>
          obtain ⟨rfl, hR⟩ := List.cons.inj h
          exact ⟨[], a, l, s, t, rfl, rfl, hstep, hcheck, rfl, hR⟩
        | cons made' A =>
          obtain ⟨rfl, hrest⟩ := List.cons.inj h
          obtain ⟨l₁, b, l₂, u, v, rfl, hu, hv, hat, hA, hR⟩ := ih hrest
          refine ⟨a :: l₁, b, l₂, u, v, rfl, ?_, hv, hat, ?_, hR⟩
          · rw [run_cons, hstep]
            exact hu
          · rw [checks_cons hstep, hcheck, hA]
            rfl

/-- A task whose handler is called at some point of the run was sent to it by its check. -/
theorem stage_of_handlerStarted (hl : l = l₁ ++ a :: l₂) (hu : run step s l₁ = some u)
    (hv : step u a = some v) (hcheck : u.checkAt a = some check)
    (h : HandlerStarted s l check.task) :
    ∃ task, v.tasks[check.task]? = some task ∧ task.phase.stage = 1 := by
  obtain ⟨rfl, -⟩ := checkAt_eq_some hcheck
  obtain ⟨waiting, started, hwaiting, hphase, htasks, hstage, -⟩ := start_spec hv
  obtain ⟨hlt, -⟩ := List.getElem?_eq_some_iff.mp hwaiting
  have hstarted : v.tasks[check.task]? = some started := by
    rw [htasks]
    simp [hlt]
  obtain ⟨t, task, ⟨m₁, m₂, hm, ht⟩, htask, hhandling⟩ := h
  -- before the check the task still waits
  have hbefore : ¬ Advances t u := by
    intro hadvances
    obtain ⟨task', htask', hle⟩ := hadvances _ _ htask
    obtain rfl : waiting = task' := Option.some.inj (hwaiting.symm.trans htask')
    rw [hhandling, hphase] at hle
    exact absurd hle (Nat.not_succ_le_zero 0)
  rw [hl] at hm
  rcases List.append_eq_append_iff.mp hm with ⟨as, rfl, has⟩ | ⟨bs, rfl, -⟩
  · cases as with
    | nil =>
      rw [List.append_nil, hu] at ht
      cases ht
      exact absurd (Advances.refl _) hbefore
    | cons b as =>
      obtain ⟨rfl, -⟩ := List.cons.inj has
      rw [List.append_cons, run_append, (run_snoc_iff step).mpr ⟨u, hu, hv⟩] at ht
      obtain ⟨task', htask', hle⟩ := advances_of_run ht _ _ hstarted
      obtain rfl : task = task' := Option.some.inj (htask.symm.trans htask')
      rw [hhandling] at hle
      exact ⟨started, hstarted, le_antisymm hle hstage⟩
  · rw [run_append, ht] at hu
    exact absurd (advances_of_run hu) hbefore

/-- A check behind which the handler is called has taken its id. -/
theorem taken_of_stage (hv : step u a = some v) (hcheck : u.checkAt a = some check)
    (htask : v.tasks[check.task]? = some task) (hstage : task.phase.stage = 1) :
    (u.processedIds.containsOrSet check.messageId check.now ()).1 = false := by
  obtain ⟨rfl, waiting, hwaiting, hid⟩ := checkAt_eq_some hcheck
  obtain ⟨waiting', started, hwaiting', -, htasks, -, -, hsome⟩ := start_spec hv
  obtain rfl : waiting = waiting' := Option.some.inj (hwaiting.symm.trans hwaiting')
  obtain ⟨hlt, -⟩ := List.getElem?_eq_some_iff.mp hwaiting
  rw [htasks, List.getElem?_set_self hlt] at htask
  cases htask
  exact (hsome _ hid).2 hstage

section Run

variable (parse : String → Except Exc ChatMessageCreatedEvent) (hasHandler : Bool)
  (maxConcurrentTasks : Nat) (position : TopicPartition → Nat)

/-- Of two records that are checked under one message id, with fewer than the
cache's capacity of other ids checked between them and all of it within the
cache's TTL of the first check, at most one is handled. -/
theorem handlerStarted_at_most_once (l : List ConsumerLabel)
    (A B C : List IdempotencyCheck) (first second : IdempotencyCheck)
    (hchecks : checks (started parse hasHandler maxConcurrentTasks position) l
      = A ++ first :: (B ++ second :: C))
    (hid : second.messageId = first.messageId)
    (htime : ∀ check ∈ B ++ [second], check.now ≤ first.now +
      (started parse hasHandler maxConcurrentTasks position).processedIds.defaultTtl)
    (hothers : ((B.map IdempotencyCheck.messageId).toFinset.erase first.messageId).card <
      (started parse hasHandler maxConcurrentTasks position).processedIds.maxSize) :
    ¬ (HandlerStarted (started parse hasHandler maxConcurrentTasks position) l first.task ∧
      HandlerStarted (started parse hasHandler maxConcurrentTasks position) l second.task) := by
  generalize hs : started parse hasHandler maxConcurrentTasks position = s at *
  have hstamped : s.processedIds.Stamped := by
    rw [← hs]
    intro k entry hentry
    cases hentry
  obtain ⟨l₁, a, l₂, u, v, hl, hu, hv, hat, -, hrest⟩ := exists_step_of_checks hchecks
  obtain ⟨m₁, b, m₂, w, x, hm, hw, hx, hat', hB, -⟩ := exists_step_of_checks hrest
  intro h
  obtain ⟨hfirst, hsecond⟩ := h
  obtain ⟨task, htask, hstage⟩ := stage_of_handlerStarted hl hu hv hat hfirst
  have hhead : run step s (l₁ ++ a :: m₁) = some w := by
    rw [List.append_cons, run_append, (run_snoc_iff step).mpr ⟨u, hu, hv⟩]
    exact hw
  have hl' : l = (l₁ ++ a :: m₁) ++ b :: m₂ := by
    rw [hl, hm, List.append_assoc, List.cons_append]
  obtain ⟨task', htask', hstage'⟩ := stage_of_handlerStarted hl' hhead hx hat' hsecond
  -- the first check takes the id
  have htaken := taken_of_stage hv hat htask hstage
  have huids := processedIds_run hu
  have hlimits := TTLCache.afterKeys_limits s.processedIds ()
    ((checks s l₁).map fun check => (check.messageId, check.now))
  have hustamped := TTLCache.afterKeys_stamped hstamped ()
    ((checks s l₁).map fun check => (check.messageId, check.now))
  rw [← huids] at hlimits hustamped
  -- so the second one still finds it
  have hfound := TTLCache.containsOrSet_again
    (B.map fun check => (check.messageId, check.now)) second.now hustamped htaken ?_ ?_ ?_
  · have htaken' := taken_of_stage hx hat' htask' hstage'
    rw [processedIds_run hw, hB, processedIds_step hv, hat, hid] at htaken'
    rw [Option.toList_some, List.map_singleton] at htaken'
    exact absurd (hfound.symm.trans htaken') (by decide)
  · intro use huse
    obtain ⟨check, hcheck, rfl⟩ := List.mem_map.mp huse
    rw [hlimits.2]
    exact htime check (List.mem_append_left _ hcheck)
  · rw [hlimits.2]
    exact htime second (List.mem_append_right _ List.mem_cons_self)
  · rw [List.map_map, hlimits.1]
    exact hothers

end Run

/-- The request of `firstRecord` once more, on another partition. -/
def redelivered : ConsumerRecord := { requestRecord 7 "m1" "a1" with partition := 1 }

/-- Both are polled, and the second one starts when the first has been handled. -/
def redelivery : List ConsumerLabel :=
  [.poll [firstRecord, redelivered], .start 0 0, .handlerDone 0 2 (.ok ()), .start 1 299]

theorem redelivery_skipped :
    HandlerStarted (started parseRequests true 50 fun _ => 0) redelivery 0 ∧
      ¬ HandlerStarted (started parseRequests true 50 fun _ => 0) redelivery 1 := by
  have hstarted : HandlerStarted (started parseRequests true 50 fun _ => 0) redelivery 0 := by
    have hrun : (run step (started parseRequests true 50 fun _ => 0)
        [.poll [firstRecord, redelivered], .start 0 0]).map
          (fun t => t.tasks[0]?.map fun task => task.phase.stage) = some (some 1) := by
      decide +kernel
    obtain ⟨t, ht, hstage⟩ := Option.map_eq_some_iff.mp hrun
    obtain ⟨task, htask, hstage⟩ := Option.map_eq_some_iff.mp hstage
    exact ⟨t, task, ⟨_, [.handlerDone 0 2 (.ok ()), .start 1 299], rfl, ht⟩, htask, hstage⟩
  refine ⟨hstarted, ?_⟩
  intro hagain
  refine handlerStarted_at_most_once parseRequests true 50 (fun _ => 0) redelivery [] [] []
    { task := 0, messageId := "m1", now := 0 } { task := 1, messageId := "m1", now := 299 }
    (by decide +kernel) rfl ?_ ?_ ⟨hstarted, hagain⟩
  · intro check hcheck
    obtain rfl := List.mem_singleton.mp hcheck
    show (299 : ℚ) ≤ 0 + ((300 : Nat) : ℚ)
    norm_num
  · show 0 < 10000
    omega

end KafkaConsumerEngine

end LlmService
