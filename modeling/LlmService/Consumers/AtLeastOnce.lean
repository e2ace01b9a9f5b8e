import LlmService.Consumers.KafkaConsumer

/-!
# What the consumer commits

A commit acknowledges every record of its partition below it. The engine
commits each record's own offset as its task finishes, and tasks finish in
any order: `Covered` holds along a run exactly when no commit reaches the
broker before every polled record up to it is settled.
-/

namespace LlmService

open Runs

/-- The task has not yet come to its commit. -/
def Phase.pending : Phase → Bool
  | .committing | .finished | .crashed _ => false
  | _ => true

namespace KafkaConsumerEngine

/-- The message id under which a record comes to the idempotency check. -/
def requestId (s : KafkaConsumerEngine) (msg : ConsumerRecord) : Option String :=
  match intake s.parse msg with
  | .ok (.request _ _ event) => some event.messageId
  | _ => none

/-- The polled records, with what the engine has made sure of for each. -/
def polled (s : KafkaConsumerEngine) : List (ConsumerRecord × Option Settlement) :=
  s.tasks.map fun task => (task.msg, task.settled)

/-- A polled record is settled: handled, or on the dead letter queue, or it
duplicates a message id whose own processing is settled. -/
def Settled (s : KafkaConsumerEngine) (x : ConsumerRecord × Option Settlement) : Prop :=
  x.2 ≠ none ∨
    ∃ y ∈ s.polled, (y.2 = some .handled ∨ y.2 = some .deadLettered) ∧
      ∃ id, s.requestId x.1 = some id ∧ s.requestId y.1 = some id

/-- No committed offset exceeds that of an unsettled record of its partition. -/
def Covered (s : KafkaConsumerEngine) : Prop :=
  ∀ tp c, s.committed tp = some c →
    ∀ x ∈ s.polled, x.1.tp = tp → ¬ s.Settled x → c ≤ x.1.offset

/-- The step acknowledges no commit, or one for a record up to which all
polled records of the partition are settled. -/
def CommitsSettled (s : KafkaConsumerEngine) (a : ConsumerLabel) : Prop :=
  ∀ i task, a = .commitDone i (.ok ()) → s.tasks[i]? = some task →
    ∀ x ∈ s.polled, x.1.tp = task.msg.tp → x.1.offset ≤ task.msg.offset → s.Settled x

/-! ## What a step can do -/

/-- How a task goes on, guards included; the label says what its await came to. -/
inductive Resumes (s : KafkaConsumerEngine) (i : Nat) (task : RecordTask) :
    ConsumerLabel → KafkaConsumerEngine → Prop where
  | crashes (now : Seconds) (exc : Exc) : task.phase = .waiting →
      (s.tasks.filter (·.phase.running)).length < s.maxConcurrentTasks →
      s.process task.msg now = .error exc →
      Resumes s i task (.start i now) (s.setTask i { task with phase := .crashed exc })
  | starts (now : Seconds) (phase : Phase) (settled : Option Settlement)
      (processedIds : TTLCache Unit) : task.phase = .waiting →
      (s.tasks.filter (·.phase.running)).length < s.maxConcurrentTasks →
      s.process task.msg now = .ok (phase, settled, processedIds) →
      Resumes s i task (.start i now) { s.setTask i { task with phase, settled } with processedIds }
  | handled (now : Seconds) (key raw : String) (event : ChatMessageCreatedEvent) (attempt : Nat) :
      task.phase = .handling key raw event attempt →
      Resumes s i task (.handlerDone i now (.ok ()))
        (s.setTask i { task with phase := s.commitPhase, settled := some .handled })
  | fails (now : Seconds) (key raw : String) (event : ChatMessageCreatedEvent) (attempt : Nat)
      (exc : Exc) : task.phase = .handling key raw event attempt →
      Resumes s i task (.handlerDone i now (.error exc))
        (s.setTask i { task with phase := handlerFailed task.msg key raw event attempt exc now })
  | wakes (key raw : String) (event : ChatMessageCreatedEvent) (attempt : Nat) :
      task.phase = .sleeping key raw event attempt →
      Resumes s i task (.sleepDone i)
        (s.setTask i { task with phase := .handling key raw event (attempt + 1) })
  | published (event : ChatMessageDLQEvent) (kind : Settlement) :
      task.phase = .publishing event kind →
      Resumes s i task (.publishDone i (.ok ()))
        { s.setTask i { task with phase := s.commitPhase, settled := some kind } with
          dlq := s.dlq ++ [event] }
  -- the record is neither settled nor committed
  | unpublished (event : ChatMessageDLQEvent) (kind : Settlement) (exc : Exc) :
      task.phase = .publishing event kind →
      Resumes s i task (.publishDone i (.error exc))
        (s.setTask i { task with phase := .crashed exc })
  | commits : task.phase = .committing →
      Resumes s i task (.commitDone i (.ok ()))
        { s.setTask i { task with phase := .finished } with
          committed := Function.update s.committed task.msg.tp (some (task.msg.offset + 1)) }
  -- the task ends as if it had committed
  | uncommitted (exc : Exc) : task.phase = .committing →
      Resumes s i task (.commitDone i (.error exc)) (s.setTask i { task with phase := .finished })
  | interrupted : task.phase.ended = false →
      Resumes s i task (.interrupted i) (s.setTask i { task with phase := .crashed interruption })

/-- A task goes on: a pending one may settle its record, and is unsettled as
long as it stays pending; a committing one finishes. -/
inductive Moves (task task' : RecordTask) : Prop where
  | pending : task.phase.pending = true → task'.msg = task.msg →
      (task'.phase.pending = true → task'.settled = none ∨ task'.settled = task.settled) →
      Moves task task'
  | commit : task.phase = .committing → task'.msg = task.msg →
      task'.phase.pending = false → task'.settled = task.settled → Moves task task'

variable {s t : KafkaConsumerEngine} {a : ConsumerLabel}

theorem commitPhase_pending (s : KafkaConsumerEngine) : s.commitPhase.pending = false := by
  unfold commitPhase
  split <;> rfl

/-- A record whose task suspends before its commit is not settled yet. -/
theorem process_pending {msg : ConsumerRecord} {now : Seconds} {phase : Phase}
    {settled : Option Settlement} {ids : TTLCache Unit}
    (h : s.process msg now = .ok (phase, settled, ids)) (hp : phase.pending = true) :
    settled = none := by
  simp only [process, bind, Except.bind] at h
  split at h
  · cases h
  · split at h
    · cases h
      rfl
    · split at h
      · cases h
        rfl
      · split at h
        · cases h
          rw [commitPhase_pending] at hp
          cases hp
        · cases h
          rfl

/-- One task goes on; the committed offset moves only as its commit is
acknowledged. -/
structure TaskStep (s : KafkaConsumerEngine) (a : ConsumerLabel) (t : KafkaConsumerEngine)
    (i : Nat) (task task' : RecordTask) : Prop where
  task_eq : s.tasks[i]? = some task
  tasks_eq : t.tasks = s.tasks.set i task'
  parse_eq : t.parse = s.parse
  position_eq : t.position = s.position
  moves : Moves task task'
  commits : (∀ j, a ≠ .commitDone j (.ok ())) ∧ t.committed = s.committed ∨
    a = .commitDone i (.ok ()) ∧ task.phase = .committing ∧
      t.committed = Function.update s.committed task.msg.tp (some (task.msg.offset + 1))

/-- A task that has not come to its commit leaves the committed offsets alone. -/
theorem TaskStep.of_pending {i : Nat} {task task' : RecordTask} (htask : s.tasks[i]? = some task)
    (hphase : task.phase.pending = true) (hmsg : task'.msg = task.msg)
    (hsettled : task'.phase.pending = true →
      task'.settled = none ∨ task'.settled = task.settled)
    (ha : ∀ j, a ≠ .commitDone j (.ok ())) (processedIds : TTLCache Unit)
    (dlq : List ChatMessageDLQEvent) :
    TaskStep s a { s.setTask i task' with processedIds, dlq } i task task' where
  task_eq := htask
  tasks_eq := rfl
  parse_eq := rfl
  position_eq := rfl
  moves := .pending hphase hmsg hsettled
  commits := .inl ⟨ha, rfl⟩

/-- A step about one task resumes it. -/
theorem resumes_of_step (hpoll : ∀ batch, a ≠ .poll batch) (hstop : a ≠ .stop)
    (h : step s a = some t) : ∃ (i : Nat) (task : RecordTask), s.tasks[i]? = some task ∧
      Resumes s i task a t := by
  cases a with
  | poll batch => exact absurd rfl (hpoll batch)
  | stop => exact absurd rfl hstop
  | start i now =>
    simp only [step] at h
    split at h
    · next task htask =>
      split at h
      · next hphase =>
        split at h
        · next hfree =>
          split at h
          · next exc hprocess =>
            cases h
            exact ⟨i, task, htask, .crashes now exc hphase hfree hprocess⟩
          · next phase settled ids hprocess =>
            cases h
            exact ⟨i, task, htask, .starts now phase settled ids hphase hfree hprocess⟩
        · cases h
      · cases h
    · cases h
  | handlerDone i now result =>
    simp only [step] at h
    split at h
    · next task htask =>
      split at h
      · next hphase =>
        cases h
        exact ⟨i, task, htask, .handled now _ _ _ _ hphase⟩
      · next hphase =>
        cases h
        exact ⟨i, task, htask, .fails now _ _ _ _ _ hphase⟩
      · cases h
    · cases h
  | sleepDone i =>
    simp only [step] at h
    split at h
    · next task htask =>
      split at h
      · next hphase =>
        cases h
        exact ⟨i, task, htask, .wakes _ _ _ _ hphase⟩
      · cases h
    · cases h
  | publishDone i result =>
    simp only [step] at h
    split at h
    · next task htask =>
      split at h
      · next hphase =>
        cases h
        exact ⟨i, task, htask, .published _ _ hphase⟩
      · next hphase =>
        cases h
        exact ⟨i, task, htask, .unpublished _ _ _ hphase⟩
      · cases h
    · cases h
  | commitDone i result =>
    simp only [step] at h
    split at h
    · next task htask =>
      split at h
      · next hphase =>
        cases h
        exact ⟨i, task, htask, .commits hphase⟩
      · next hphase =>
        cases h
        exact ⟨i, task, htask, .uncommitted _ hphase⟩
      · cases h
    · cases h
  | interrupted i =>
    simp only [step] at h
    split at h
    · next task htask =>
      split at h
      · cases h
      · next hawaits =>
        cases h
        exact ⟨i, task, htask, .interrupted (Bool.not_eq_true _ ▸ hawaits)⟩
    · cases h

/-- A task that is resumed makes one step. -/
theorem Resumes.taskStep {i : Nat} {task : RecordTask} (htask : s.tasks[i]? = some task)
    (h : Resumes s i task a t) : ∃ task', TaskStep s a t i task task' := by
  cases h with
  | crashes now exc hphase hfree hprocess =>
    refine ⟨_, .of_pending htask (by rw [hphase]; rfl) ?_ ?_ ?_ _ _⟩
    · rfl
    · simp [Phase.pending]
    · simp
  | starts now phase settled ids hphase hfree hprocess =>
    refine ⟨_, .of_pending htask (by rw [hphase]; rfl) ?_ ?_ ?_ _ _⟩
    · rfl
    · intro hpending
      exact .inl (process_pending hprocess hpending)
    · simp
  | handled now key raw event attempt hphase =>
    refine ⟨_, .of_pending htask (by rw [hphase]; rfl) ?_ ?_ ?_ _ _⟩
    · rfl
    · simp [commitPhase_pending]
    · simp
  | fails now key raw event attempt exc hphase =>
    refine ⟨_, .of_pending htask (by rw [hphase]; rfl) ?_ ?_ ?_ _ _⟩
    · rfl
    · exact fun _ => .inr rfl
    · simp
  | wakes key raw event attempt hphase =>
    refine ⟨_, .of_pending htask (by rw [hphase]; rfl) ?_ ?_ ?_ _ _⟩
    · rfl
    · exact fun _ => .inr rfl
    · simp
  | published event kind hphase =>
    refine ⟨_, .of_pending htask (by rw [hphase]; rfl) ?_ ?_ ?_ _ _⟩
    · rfl
    · simp [commitPhase_pending]
    · simp
  | unpublished event kind exc hphase =>
    refine ⟨_, .of_pending htask (by rw [hphase]; rfl) ?_ ?_ ?_ _ _⟩
    · rfl
    · exact fun _ => .inr rfl
    · simp
  | commits hphase =>
    exact ⟨_, htask, rfl, rfl, rfl, .commit hphase rfl rfl rfl, .inr ⟨rfl, hphase, rfl⟩⟩
  | uncommitted exc hphase =>
    exact ⟨_, htask, rfl, rfl, rfl, .commit hphase rfl rfl rfl, .inl ⟨by simp, rfl⟩⟩
  | interrupted hawaits =>
    cases hpending : task.phase.pending with
    | true =>
      refine ⟨_, .of_pending htask hpending ?_ ?_ ?_ _ _⟩
      · rfl
      · exact fun _ => .inr rfl
      · simp
    | false =>
      have hphase : task.phase = .committing := by
        cases hphase : task.phase with
        | committing => rfl
        | waiting | publishing event kind | handling key raw event attempt
          | sleeping key raw event attempt | finished | crashed exc =>
          simp [hphase, Phase.pending, Phase.ended] at hpending hawaits
      exact ⟨_, htask, rfl, rfl, rfl, .commit hphase rfl rfl rfl, .inl ⟨by simp, rfl⟩⟩

/-- What one step can do, guards included. -/
theorem step_cases (h : step s a = some t) :
    (∃ batch, a = .poll batch ∧ batch.foldlM spawn s = some t) ∨
    (a = .stop ∧ t = { s with running := false }) ∨
    ∃ i task task', TaskStep s a t i task task' := by
  by_cases hpoll : ∃ batch, a = .poll batch
  · obtain ⟨batch, rfl⟩ := hpoll
    simp only [step] at h
    split at h
    · exact .inl ⟨batch, rfl, h⟩
    · cases h
  · by_cases hstop : a = .stop
    · subst hstop
      cases h
      exact .inr (.inl ⟨rfl, rfl⟩)
    · right; right
      obtain ⟨i, task, htask, hresumes⟩ :=
        resumes_of_step (fun batch hbatch => hpoll ⟨batch, hbatch⟩) hstop h
      obtain ⟨task', hstep⟩ := hresumes.taskStep htask
      exact ⟨i, task, task', hstep⟩

/-! ## Polling -/

/-- The broker's position is behind nothing that was polled or committed,
and a pending task has not settled its record. -/
structure Consistent (s : KafkaConsumerEngine) : Prop where
  polled_lt : ∀ task ∈ s.tasks, task.msg.offset < s.position task.msg.tp
  committed_le : ∀ tp c, s.committed tp = some c → c ≤ s.position tp
  pending : ∀ task ∈ s.tasks, task.phase.pending = true → task.settled = none

/-- A record is polled from the position on, behind the tasks that are there. -/
theorem spawn_eq {msg : ConsumerRecord} (h : s.spawn msg = some t) :
    s.position msg.tp ≤ msg.offset ∧ t = { s with
      tasks := s.tasks ++ [{ msg }]
      position := Function.update s.position msg.tp (msg.offset + 1) } := by
  rw [KafkaConsumerEngine.spawn] at h
  by_cases hpos : s.position msg.tp ≤ msg.offset
  · rw [if_pos hpos] at h
    exact ⟨hpos, (Option.some.inj h).symm⟩
  · rw [if_neg hpos] at h
    cases h

theorem Consistent.spawn {msg : ConsumerRecord} (hs : Consistent s)
    (h : s.spawn msg = some t) : Consistent t := by
  obtain ⟨hpos, rfl⟩ := spawn_eq h
  have hmono : ∀ tp, s.position tp ≤
      Function.update s.position msg.tp (msg.offset + 1) tp := by
    intro tp
    by_cases htp : tp = msg.tp
    · subst htp
      simp only [Function.update_self]
      omega
    · rw [Function.update_of_ne htp]
  refine ⟨?_, ?_, ?_⟩
  · intro task htask
    rcases List.mem_append.mp htask with hold | hnew
    · exact lt_of_lt_of_le (hs.polled_lt task hold) (hmono _)
    · obtain rfl := List.mem_singleton.mp hnew
      simp
  · intro tp c hc
    exact (hs.committed_le tp c hc).trans (hmono tp)
  · intro task htask hp
    rcases List.mem_append.mp htask with hold | hnew
    · exact hs.pending task hold hp
    · obtain rfl := List.mem_singleton.mp hnew
      rfl

/-- A polled record lies at or beyond everything committed. -/
theorem Covered.spawn {msg : ConsumerRecord} (hs : Consistent s) (hc : Covered s)
    (h : s.spawn msg = some t) : Covered t := by
  obtain ⟨hpos, rfl⟩ := spawn_eq h
  intro tp c hcommitted x hx htp hunsettled
  simp only [polled, List.map_append, List.mem_append] at hx
  rcases hx with hold | hnew
  · refine hc tp c hcommitted x hold htp ?_
    intro hsettled
    rcases hsettled with hx | ⟨y, hy, hkind, hid⟩
    · exact hunsettled (.inl hx)
    · refine hunsettled (.inr ⟨y, ?_, hkind, hid⟩)
      simp only [polled, List.map_append, List.mem_append]
      exact .inl hy
  · obtain rfl : x = (msg, none) := by simpa using hnew
    have hle := hs.committed_le tp c hcommitted
    subst htp
    exact hle.trans hpos

/-! ## Settling -/

/-- A record stays what it is, and keeps what was made sure of for it. -/
def Grows (x y : ConsumerRecord × Option Settlement) : Prop :=
  y.1 = x.1 ∧ (x.2 = none ∨ y.2 = x.2)

theorem grows_refl (x : ConsumerRecord × Option Settlement) : Grows x x := ⟨rfl, .inr rfl⟩

theorem Moves.grows {task task' : RecordTask} (h : Moves task task')
    (hpending : task.phase.pending = true → task.settled = none) :
    Grows (task.msg, task.settled) (task'.msg, task'.settled) := by
  cases h with
  | pending hp hmsg _ => exact ⟨hmsg, .inl (hpending hp)⟩
  | commit _ hmsg _ hsettled => exact ⟨hmsg, .inr hsettled⟩

/-- The engine after a task has moved holds the same records. -/
theorem polled_set {i : Nat} {task' : RecordTask} (ht : t.tasks = s.tasks.set i task') :
    t.polled = s.polled.set i (task'.msg, task'.settled) := by
  simp only [polled, ht, List.map_set]

theorem forall₂_grows_set {l : List (ConsumerRecord × Option Settlement)} {i : Nat}
    {x y : ConsumerRecord × Option Settlement} (hx : l[i]? = some x) (hxy : Grows x y) :
    List.Forall₂ Grows l (l.set i y) := by
  induction l generalizing i with
  | nil => exact .nil
  | cons z l ih =>
    cases i with
    | zero =>
      simp only [List.getElem?_cons_zero, Option.some.injEq] at hx
      subst hx
      exact .cons hxy (List.forall₂_same.mpr fun x _ => grows_refl x)
    | succ i =>
      simp only [List.getElem?_cons_succ] at hx
      exact .cons (grows_refl z) (ih hx)

theorem exists_grows_left {l l' : List (ConsumerRecord × Option Settlement)}
    (h : List.Forall₂ Grows l l') {x : ConsumerRecord × Option Settlement} (hx : x ∈ l) :
    ∃ y ∈ l', Grows x y := by
  induction h with
  | nil => cases hx
  | cons hab _ ih =>
    rcases List.mem_cons.mp hx with rfl | hx
    · exact ⟨_, List.mem_cons_self, hab⟩
    · obtain ⟨y, hy, hxy⟩ := ih hx
      exact ⟨y, List.mem_cons_of_mem _ hy, hxy⟩

theorem exists_grows_right {l l' : List (ConsumerRecord × Option Settlement)}
    (h : List.Forall₂ Grows l l') {y : ConsumerRecord × Option Settlement} (hy : y ∈ l') :
    ∃ x ∈ l, Grows x y := by
  induction h with
  | nil => cases hy
  | cons hab _ ih =>
    rcases List.mem_cons.mp hy with rfl | hy
    · exact ⟨_, List.mem_cons_self, hab⟩
    · obtain ⟨x, hx, hxy⟩ := ih hy
      exact ⟨x, List.mem_cons_of_mem _ hx, hxy⟩

/-- What was settled stays settled. -/
theorem Settled.mono (hparse : t.parse = s.parse) (hgrows : List.Forall₂ Grows s.polled t.polled)
    {x y : ConsumerRecord × Option Settlement} (hxy : Grows x y) (hx : s.Settled x) :
    t.Settled y := by
  have hid : ∀ msg, t.requestId msg = s.requestId msg := by
    intro msg
    simp only [requestId, hparse]
  obtain ⟨hmsg, hkeep⟩ := hxy
  rcases hx with hx | ⟨z, hz, hkind, id, hx, hz'⟩
  · left
    rcases hkeep with hnone | hsame
    · exact absurd hnone hx
    · rwa [hsame]
  · right
    obtain ⟨z', hz'mem, hz'msg, hz'keep⟩ := exists_grows_left hgrows hz
    have hsame : z'.2 = z.2 := by
      rcases hz'keep with hnone | hsame
      · rcases hkind with hkind | hkind <;> simp [hkind] at hnone
      · exact hsame
    exact ⟨z', hz'mem, by rwa [hsame], id, by rw [hid, hmsg, hx], by rw [hid, hz'msg, hz']⟩

theorem Covered.of_grows (hc : Covered s) (hparse : t.parse = s.parse)
    (hgrows : List.Forall₂ Grows s.polled t.polled) (hcommitted : t.committed = s.committed) :
    Covered t := by
  intro tp c htc y hy htp hunsettled
  obtain ⟨x, hx, hxy⟩ := exists_grows_right hgrows hy
  rw [hxy.1] at htp ⊢
  rw [hcommitted] at htc
  refine hc tp c htc x hx htp ?_
  intro hsettled
  exact hunsettled (hsettled.mono hparse hgrows hxy)

/-! ## Steps and runs -/

theorem Consistent.step (hs : Consistent s) (h : step s a = some t) : Consistent t := by
  rcases step_cases h with ⟨batch, -, hfold⟩ | ⟨-, rfl⟩ |
    ⟨i, task, task', htask, htasks, -, hposition, hmoves, hcommit⟩
  · exact foldlM_invariant (fun _ _ _ hs hspawn => hs.spawn hspawn) hs hfold
  · exact ⟨hs.polled_lt, hs.committed_le, hs.pending⟩
  · have hmem := List.mem_of_getElem? htask
    have hmsg : task'.msg = task.msg := by
      cases hmoves with
      | pending _ hmsg _ => exact hmsg
      | commit _ hmsg _ _ => exact hmsg
    refine ⟨?_, ?_, ?_⟩
    · intro u hu
      rw [htasks] at hu
      rw [hposition]
      rcases List.mem_or_eq_of_mem_set hu with hu | rfl
      · exact hs.polled_lt u hu
      · rw [hmsg]
        exact hs.polled_lt task hmem
    · intro tp c hc
      rw [hposition]
      rcases hcommit with ⟨_, hsame⟩ | ⟨_, _, hnew⟩
      · exact hs.committed_le tp c (hsame ▸ hc)
      · rw [hnew] at hc
        by_cases htp : tp = task.msg.tp
        · subst htp
          rw [Function.update_self] at hc
          cases hc
          exact hs.polled_lt task hmem
        · rw [Function.update_of_ne htp] at hc
          exact hs.committed_le tp c hc
    · intro u hu hp
      rw [htasks] at hu
      rcases List.mem_or_eq_of_mem_set hu with hu | rfl
      · exact hs.pending u hu hp
      · cases hmoves with
        | pending hp' _ hsettled =>
          rcases hsettled hp with hnone | hsame
          · exact hnone
          · rw [hsame]
            exact hs.pending task hmem hp'
        | commit _ _ hnot _ => simp [hnot] at hp

/-- A step that commits nothing unsettled keeps the records covered. -/
theorem Covered.step (hs : Consistent s) (hc : Covered s) (hok : CommitsSettled s a)
    (h : step s a = some t) : Covered t := by
  rcases step_cases h with ⟨batch, -, hfold⟩ | ⟨-, rfl⟩ |
    ⟨i, task, task', htask, htasks, hparse, -, hmoves, hcommit⟩
  -- a poll commits nothing; the records of the batch are spawned one by one
  · have hspawn : ∀ (s : KafkaConsumerEngine) (msg : ConsumerRecord) (t : KafkaConsumerEngine),
        Consistent s ∧ Covered s → s.spawn msg = some t → Consistent t ∧ Covered t :=
      fun _ _ _ hs hspawn => ⟨hs.1.spawn hspawn, hs.2.spawn hs.1 hspawn⟩
    exact (foldlM_invariant hspawn ⟨hs, hc⟩ hfold).2
  · exact hc
  · have hgrows : List.Forall₂ Grows s.polled t.polled := by
      rw [polled_set htasks]
      refine forall₂_grows_set ?_ (hmoves.grows (hs.pending task (List.mem_of_getElem? htask)))
      simp [polled, htask]
    rcases hcommit with ⟨_, hsame⟩ | ⟨ha, _, hnew⟩
    · exact hc.of_grows hparse hgrows hsame
    · intro tp c htc y hy htp hunsettled
      obtain ⟨x, hx, hxy⟩ := exists_grows_right hgrows hy
      have hx' : ¬ s.Settled x := fun hx' => hunsettled (hx'.mono hparse hgrows hxy)
      rw [hxy.1] at htp ⊢
      rw [hnew] at htc
      by_cases hsame : tp = task.msg.tp
      · -- the partition of the commit: an unsettled record lies beyond it
        subst hsame
        rw [Function.update_self] at htc
        cases htc
        by_contra hle
        exact hx' (hok i task ha htask x hx htp (by omega))
      · rw [Function.update_of_ne hsame] at htc
        exact hc tp c htc x hx htp hx'

/-- A commit over an unsettled record uncovers it. -/
theorem not_covered_of_commit (hbad : ¬ CommitsSettled s a) (h : step s a = some t) :
    ¬ Covered t := by
  simp only [CommitsSettled, not_forall] at hbad
  obtain ⟨i, task, rfl, htask, x, hx, htp, hle, hx'⟩ := hbad
  rcases step_cases h with ⟨batch, hpoll, -⟩ | ⟨hstop, -⟩ |
    ⟨j, task₁, task', htask₁, htasks, hparse, -, hmoves, hcommit⟩
  · cases hpoll
  · cases hstop
  · have hcases : j = i ∧ task₁.phase = .committing ∧ t.committed =
        Function.update s.committed task₁.msg.tp (some (task₁.msg.offset + 1)) := by
      rcases hcommit with ⟨hne, hsame⟩ | ⟨ha, hphase, hnew⟩
      · exact absurd rfl (hne i)
      · cases ha
        exact ⟨rfl, hphase, hnew⟩
    obtain ⟨rfl, hphase, hnew⟩ := hcases
    obtain rfl : task₁ = task := Option.some.inj (htask₁.symm.trans htask)
    have hsame : t.polled = s.polled := by
      cases hmoves with
      | pending hp _ _ => simp [hphase, Phase.pending] at hp
      | commit _ hmsg _ hsettled =>
        rw [polled_set htasks, hmsg, hsettled]
        have hget : s.polled[j]? = some (task₁.msg, task₁.settled) := by
          simp [polled, htask₁]
        obtain ⟨hlt, heq⟩ := List.getElem?_eq_some_iff.mp hget
        rw [← heq]
        exact List.set_getElem_self hlt
    intro hcovered
    have hunsettled : ¬ t.Settled x := by
      simpa only [Settled, requestId, hsame, hparse] using hx'
    have hlt := hcovered task₁.msg.tp (task₁.msg.offset + 1) (by simp [hnew]) x (hsame ▸ hx) htp
      hunsettled
    omega

/-- The engine as `start()` leaves it, on any partitions and positions. -/
def started (parse : String → Except Exc ChatMessageCreatedEvent) (hasHandler : Bool)
    (maxConcurrentTasks : Nat) (position : TopicPartition → Nat) : KafkaConsumerEngine :=
  { parse, hasHandler, maxConcurrentTasks, position }

section Run

variable (parse : String → Except Exc ChatMessageCreatedEvent) (hasHandler : Bool)
  (maxConcurrentTasks : Nat) (position : TopicPartition → Nat)

theorem started_consistent :
    Consistent (started parse hasHandler maxConcurrentTasks position) :=
  ⟨by simp [started], by simp [started], by simp [started]⟩

/-- Along a run from a fresh engine the committed offsets cover only settled
records exactly when each acknowledged commit comes after the settlement of
all polled records up to its own. -/
theorem covered_iff_commitsSettled (l : List ConsumerLabel) :
    (∀ t, Visited step (started parse hasHandler maxConcurrentTasks position) l t → Covered t) ↔
      ∀ u a t, StepAt step (started parse hasHandler maxConcurrentTasks position) l u a t →
        CommitsSettled u a := by
  apply visited_iff_steps
  · exact fun _ _ _ hi h => Consistent.step hi h
  · exact fun _ _ _ hi hc hok h => Covered.step hi hc hok h
  · exact fun _ _ _ _ hbad h => not_covered_of_commit hbad h
  · exact started_consistent parse hasHandler maxConcurrentTasks position
  · intro tp c hc
    cases hc

end Run

/-! ## Two records, the second one faster -/

/-- The JSON of a request with the given ids. -/
def requestJson (messageId responseMessageId : String) : String :=
  "\x7b\"message_id\": \"" ++ messageId ++ "\", \"response_message_id\": \"" ++ responseMessageId
    ++ "\", \"conversation_id\": \"c1\", \"user_id\": \"u1\", \"content\": \"hi\"\x7d"

/-- Parsing, on the two requests of the run below. -/
def parseRequests (raw : String) : Except Exc ChatMessageCreatedEvent :=
  let event := fun messageId responseMessageId : String =>
    { messageId, responseMessageId := some responseMessageId, conversationId := "c1"
      userId := "u1", content := "hi", timestamp := 0 : ChatMessageCreatedEvent }
  if raw = requestJson "m1" "a1" then .ok (event "m1" "a1")
  else if raw = requestJson "m2" "a2" then .ok (event "m2" "a2")
  else .error { cls := .other "ValidationError" }

def requestRecord (offset : Nat) (messageId responseMessageId : String) : ConsumerRecord :=
  { topic := "chat.message.created", partition := 0, offset
    value := some (requestJson messageId responseMessageId).toUTF8 }

def firstRecord : ConsumerRecord := requestRecord 0 "m1" "a1"

def secondRecord : ConsumerRecord := requestRecord 1 "m2" "a2"

/-- Both tasks start, the second one's handler returns first and its commit
is acknowledged while the first one's handler is still running. -/
def overtaking : List ConsumerLabel :=
  [.poll [firstRecord, secondRecord], .start 0 0, .start 1 0, .handlerDone 1 1 (.ok ()),
    .commitDone 1 (.ok ())]

theorem overtaking_run :
    (run step (started parseRequests true 50 fun _ => 0) overtaking).map
      (fun t => (t.committed firstRecord.tp, t.polled, t.requestId firstRecord,
        t.requestId secondRecord))
      = some (some 2, [(firstRecord, none), (secondRecord, some .handled)], some "m1",
        some "m2") := by
  rfl

theorem not_forall_covered :
    ¬ ∀ (parse : String → Except Exc ChatMessageCreatedEvent) (hasHandler : Bool)
      (maxConcurrentTasks : Nat) (position : TopicPartition → Nat) (l : List ConsumerLabel)
      (t : KafkaConsumerEngine),
      Visited step (started parse hasHandler maxConcurrentTasks position) l t → Covered t := by
  intro h
  obtain ⟨t, hrun, ht⟩ := Option.map_eq_some_iff.mp overtaking_run
  simp only [Prod.mk.injEq] at ht
  obtain ⟨hcommitted, hpolled, hfirst, hsecond⟩ := ht
  have hcovered := h _ _ _ _ overtaking t ⟨overtaking, [], by simp, hrun⟩
  have hunsettled : ¬ t.Settled (firstRecord, none) := by
    intro hsettled
    rcases hsettled with hnone | ⟨y, hy, hkind, id, hx, hid⟩
    · exact hnone rfl
    · simp only [hpolled, List.mem_cons, List.not_mem_nil, or_false] at hy
      rcases hy with rfl | rfl
      · simp at hkind
      · rw [hfirst] at hx
        rw [hsecond, ← hx] at hid
        exact absurd hid (by decide)
  have hle := hcovered firstRecord.tp 2 hcommitted (firstRecord, none) (by simp [hpolled]) rfl
    hunsettled
  exact absurd hle (by decide)

end KafkaConsumerEngine

end LlmService
