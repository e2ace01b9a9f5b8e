import LlmService.Consumers.AtLeastOnce

/-!
# The order of commits

Every commit replaces the offset committed for its partition, and the tasks
of one partition commit in the order in which they finish. The committed
offset goes back exactly when a commit is acknowledged behind that of a record
that was polled later.
-/

namespace LlmService

open Runs

namespace KafkaConsumerEngine

/-- What is committed in `t` covers what was committed in `s`. -/
def NotBehind (s t : KafkaConsumerEngine) : Prop :=
  ∀ tp c, s.committed tp = some c → ∃ c', t.committed tp = some c' ∧ c ≤ c'

/-- Along the run, each acknowledged commit comes behind those of the records of
its partition that were polled before its own. -/
def CommitsInOrder (s : KafkaConsumerEngine) (l : List ConsumerLabel) : Prop :=
  ∀ l₁ l₂ u v j task, l = l₁ ++ .commitDone j (.ok ()) :: l₂ → run step s l₁ = some u →
    step u (.commitDone j (.ok ())) = some v → u.tasks[j]? = some task →
    ∀ i task', .commitDone i (.ok ()) ∈ l₁ → u.tasks[i]? = some task' →
      task'.msg.tp = task.msg.tp → i < j

variable {s t u v : KafkaConsumerEngine} {a : ConsumerLabel} {l : List ConsumerLabel} {i j : Nat}
  {task task' : RecordTask}

/-! ## The records of a partition -/

/-- The records of a partition are polled in the order of their offsets. -/
def Ordered (s : KafkaConsumerEngine) : Prop :=
  s.tasks.Pairwise fun first second =>
    first.msg.tp = second.msg.tp → first.msg.offset < second.msg.offset

theorem NotBehind.refl (s : KafkaConsumerEngine) : NotBehind s s :=
  fun _ c hc => ⟨c, hc, Nat.le_refl c⟩

theorem NotBehind.trans (h : NotBehind s t) (h' : NotBehind t u) : NotBehind s u := by
  intro tp c hc
  obtain ⟨c', hc', hle⟩ := h tp c hc
  obtain ⟨c'', hc'', hle'⟩ := h' tp c' hc'
  exact ⟨c'', hc'', hle.trans hle'⟩

theorem Ordered.spawn {msg : ConsumerRecord} (hs : Consistent s) (ho : Ordered s)
    (h : s.spawn msg = some t) : Ordered t := by
  obtain ⟨hpos, rfl⟩ := spawn_eq h
  refine List.pairwise_append.mpr ⟨ho, List.pairwise_singleton _ _, ?_⟩
  intro first hfirst second hsecond htp
  obtain rfl := List.mem_singleton.mp hsecond
  have hlt := hs.polled_lt first hfirst
  rw [htp] at hlt
  exact hlt.trans_le hpos

/-- Polling adds tasks behind those that are there, and commits nothing. -/
theorem foldlM_spawn_tasks {batch : List ConsumerRecord} (h : batch.foldlM spawn s = some t) :
    s.tasks <+: t.tasks ∧ t.committed = s.committed ∧ t.processedIds = s.processedIds := by
  have hspawn : ∀ (u : KafkaConsumerEngine) (msg : ConsumerRecord) (v : KafkaConsumerEngine),
      s.tasks <+: u.tasks ∧ u.committed = s.committed ∧ u.processedIds = s.processedIds →
        u.spawn msg = some v →
          s.tasks <+: v.tasks ∧ v.committed = s.committed ∧ v.processedIds = s.processedIds := by
    intro u msg v hu h
    obtain ⟨-, rfl⟩ := spawn_eq h
    obtain ⟨htasks, hcommitted, hids⟩ := hu
    exact ⟨htasks.trans (List.prefix_append _ _), hcommitted, hids⟩
  exact foldlM_invariant hspawn ⟨List.prefix_rfl, rfl, rfl⟩ h

theorem foldlM_spawn_ordered {batch : List ConsumerRecord} (hs : Consistent s) (ho : Ordered s)
    (h : batch.foldlM spawn s = some t) : Ordered t := by
  have hspawn : ∀ (s : KafkaConsumerEngine) (msg : ConsumerRecord) (t : KafkaConsumerEngine),
      Consistent s ∧ Ordered s → s.spawn msg = some t → Consistent t ∧ Ordered t :=
    fun _ _ _ hs hspawn => ⟨hs.1.spawn hspawn, hs.2.spawn hs.1 hspawn⟩
  exact (foldlM_invariant hspawn ⟨hs, ho⟩ h).2

/-! ## One step -/

/-- A task keeps its record, and stays finished. -/
def Keeps (task task' : RecordTask) : Prop :=
  task'.msg = task.msg ∧ (task.phase = .finished → task'.phase = .finished)

/-- Every task of `s` is still there in `t`. -/
def TasksKept (s t : KafkaConsumerEngine) : Prop :=
  ∀ (i : Nat) (task : RecordTask), s.tasks[i]? = some task →
    ∃ task', t.tasks[i]? = some task' ∧ Keeps task task'

theorem Keeps.refl (task : RecordTask) : Keeps task task := ⟨rfl, id⟩

theorem Keeps.trans {task'' : RecordTask} (h : Keeps task task') (h' : Keeps task' task'') :
    Keeps task task'' :=
  ⟨h'.1.trans h.1, fun hfinished => h'.2 (h.2 hfinished)⟩

theorem Moves.keeps (h : Moves task task') : Keeps task task' := by
  cases h with
  | pending hpending hmsg _ =>
    refine ⟨hmsg, ?_⟩
    intro hfinished
    rw [hfinished] at hpending
    cases hpending
  | commit hphase hmsg _ _ =>
    refine ⟨hmsg, ?_⟩
    intro hfinished
    rw [hphase] at hfinished
    cases hfinished

theorem Ordered.set (ho : Ordered s) (htask : s.tasks[i]? = some task)
    (ht : t.tasks = s.tasks.set i task') (hmsg : task'.msg = task.msg) : Ordered t := by
  have hmap : t.tasks.map RecordTask.msg = s.tasks.map RecordTask.msg := by
    obtain ⟨hlt, rfl⟩ := List.getElem?_eq_some_iff.mp htask
    apply List.ext_getElem?
    intro k
    rw [ht, List.getElem?_map, List.getElem?_map, List.getElem?_set]
    by_cases hk : i = k
    · subst hk
      simp [hlt, hmsg]
    · rw [if_neg hk]
  have hpair : ∀ l : List RecordTask,
      (l.Pairwise fun first second =>
          first.msg.tp = second.msg.tp → first.msg.offset < second.msg.offset) ↔
        (l.map RecordTask.msg).Pairwise fun first second =>
          first.tp = second.tp → first.offset < second.offset := by
    intro l
    rw [List.pairwise_map]
  exact (hpair _).mpr (hmap ▸ (hpair _).mp ho)

/-- A step adds tasks or moves one of them. -/
theorem step_keeps (hs : Consistent s) (ho : Ordered s) (h : step s a = some t) :
    Ordered t ∧ TasksKept s t := by
  rcases step_cases h with ⟨batch, -, hfold⟩ | ⟨-, rfl⟩ | ⟨j, moved, moved', hstep⟩
  · obtain ⟨htasks, -⟩ := foldlM_spawn_tasks hfold
    refine ⟨foldlM_spawn_ordered hs ho hfold, ?_⟩
    intro i task htask
    obtain ⟨hlt, rfl⟩ := List.getElem?_eq_some_iff.mp htask
    exact ⟨_, List.prefix_iff_getElem?.mp htasks i hlt, .refl _⟩
  · exact ⟨ho, fun i task htask => ⟨task, htask, .refl task⟩⟩
  · have hkeeps := hstep.moves.keeps
    refine ⟨ho.set hstep.task_eq hstep.tasks_eq hkeeps.1, ?_⟩
    intro i task htask
    rw [hstep.tasks_eq, List.getElem?_set]
    by_cases hij : j = i
    · subst hij
      obtain rfl : task = moved := Option.some.inj (htask.symm.trans hstep.task_eq)
      obtain ⟨hlt, -⟩ := List.getElem?_eq_some_iff.mp htask
      exact ⟨moved', by simp [hlt], hkeeps⟩
    · exact ⟨task, by rw [if_neg hij]; exact htask, .refl task⟩

/-- Only an acknowledged commit moves a committed offset. -/
theorem committed_step (ha : ∀ j, a ≠ .commitDone j (.ok ())) (h : step s a = some t) :
    t.committed = s.committed := by
  rcases step_cases h with ⟨batch, -, hfold⟩ | ⟨-, rfl⟩ | ⟨j, moved, moved', hstep⟩
  · exact (foldlM_spawn_tasks hfold).2.1
  · rfl
  · rcases hstep.commits with ⟨-, hsame⟩ | ⟨hcommit, -, -⟩
    · exact hsame
    · exact absurd hcommit (ha j)

/-- An acknowledged commit finishes its task and replaces the committed offset. -/
theorem commitDone_cases (h : step s (.commitDone j (.ok ())) = some t) :
    ∃ task, s.tasks[j]? = some task ∧ task.phase = .committing ∧
      t.tasks[j]? = some { task with phase := .finished } ∧
      t.committed = Function.update s.committed task.msg.tp (some (task.msg.offset + 1)) := by
  obtain ⟨i, task, htask, hresumes⟩ := resumes_of_step (by simp) (by simp) h
  cases hresumes with
  | commits hphase =>
    obtain ⟨hlt, -⟩ := List.getElem?_eq_some_iff.mp htask
    exact ⟨task, htask, hphase, by simp [setTask, hlt], rfl⟩

/-! ## Along a run -/

theorem run_keeps (hs : Consistent s) (ho : Ordered s) (h : run step s l = some t) :
    Consistent t ∧ Ordered t ∧ TasksKept s t := by
  induction l generalizing s with
  | nil =>
    cases h
    exact ⟨hs, ho, fun i task htask => ⟨task, htask, .refl task⟩⟩
  | cons a l ih =>
    rw [run_cons] at h
    obtain ⟨u, hu, ht⟩ := Option.bind_eq_some_iff.mp h
    obtain ⟨hou, hkeeps⟩ := step_keeps hs ho hu
    obtain ⟨hct, hot, hlater⟩ := ih (hs.step hu) hou ht
    refine ⟨hct, hot, ?_⟩
    intro i task htask
    obtain ⟨task', htask', hk⟩ := hkeeps i task htask
    obtain ⟨task'', htask'', hk'⟩ := hlater i task' htask'
    exact ⟨task'', htask'', hk.trans hk'⟩

/-- What is committed was acknowledged for one of the tasks. -/
def Acknowledged (l : List ConsumerLabel) (t : KafkaConsumerEngine) : Prop :=
  ∀ tp c, t.committed tp = some c → ∃ i task, .commitDone i (.ok ()) ∈ l ∧
    t.tasks[i]? = some task ∧ task.msg.tp = tp ∧ c = task.msg.offset + 1

theorem acknowledged_of_run (hs : Consistent s) (ho : Ordered s) (hnone : ∀ tp, s.committed tp = none)
    (h : run step s l = some t) : Acknowledged l t := by
  induction l using List.reverseRecOn generalizing t with
  | nil =>
    cases h
    intro tp c hc
    rw [hnone tp] at hc
    cases hc
  | append_singleton l a ih =>
    obtain ⟨u, hu, hstep⟩ := (run_snoc_iff step).mp h
    obtain ⟨hcu, hou, -⟩ := run_keeps hs ho hu
    have hold : ∀ tp c, u.committed tp = some c → ∃ i task, .commitDone i (.ok ()) ∈ l ++ [a] ∧
        t.tasks[i]? = some task ∧ task.msg.tp = tp ∧ c = task.msg.offset + 1 := by
      intro tp c hc
      obtain ⟨i, task, hmem, htask, htp, hoffset⟩ := ih hu tp c hc
      obtain ⟨task', htask', hmsg, -⟩ := (step_keeps hcu hou hstep).2 i task htask
      exact ⟨i, task', List.mem_append_left _ hmem, htask', hmsg ▸ htp, hmsg ▸ hoffset⟩
    intro tp c hc
    by_cases ha : ∃ j, a = .commitDone j (.ok ())
    · obtain ⟨j, rfl⟩ := ha
      obtain ⟨task, htask, -, htask', hcommitted⟩ := commitDone_cases hstep
      rw [hcommitted] at hc
      by_cases htp : tp = task.msg.tp
      · subst htp
        rw [Function.update_self] at hc
        cases hc
        exact ⟨j, _, List.mem_append_right _ List.mem_cons_self, htask', rfl, rfl⟩
      · rw [Function.update_of_ne htp] at hc
        exact hold tp c hc
    · rw [committed_step (fun j hj => ha ⟨j, hj⟩) hstep] at hc
      exact hold tp c hc

/-- The record of a task that was acknowledged was committed at some point of the run,
after which the task is finished. -/
theorem exists_commit_of_mem (hs : Consistent s) (ho : Ordered s)
    (hmem : .commitDone i (.ok ()) ∈ l) (h : run step s l = some t) :
    ∃ l₁ l₂ w task, l = l₁ ++ l₂ ∧ run step s l₁ = some w ∧ run step w l₂ = some t ∧
      t.tasks[i]? = some task ∧ task.phase = .finished ∧
      w.committed task.msg.tp = some (task.msg.offset + 1) := by
  obtain ⟨l₁, l₂, rfl⟩ := List.append_of_mem hmem
  rw [List.append_cons, run_append] at h
  obtain ⟨w, hw, ht⟩ := Option.bind_eq_some_iff.mp h
  obtain ⟨u, hu, hstep⟩ := (run_snoc_iff step).mp hw
  obtain ⟨task, -, -, htask', hcommitted⟩ := commitDone_cases hstep
  obtain ⟨hcw, how, -⟩ := run_keeps hs ho hw
  obtain ⟨task', ht', hmsg, hfinished⟩ := (run_keeps hcw how ht).2.2 i _ htask'
  refine ⟨l₁ ++ [.commitDone i (.ok ())], l₂, w, task', List.append_cons _ _ _, hw, ht, ht',
    hfinished rfl, ?_⟩
  rw [hmsg, hcommitted, Function.update_self]

theorem Ordered.lt (ho : Ordered s) (hi : s.tasks[i]? = some task) (hj : s.tasks[j]? = some task')
    (htp : task.msg.tp = task'.msg.tp) (hij : i < j) : task.msg.offset < task'.msg.offset := by
  obtain ⟨hilt, rfl⟩ := List.getElem?_eq_some_iff.mp hi
  obtain ⟨hjlt, rfl⟩ := List.getElem?_eq_some_iff.mp hj
  exact List.pairwise_iff_getElem.mp ho i j hilt hjlt hij htp

/-- A step of a run whose commits are in order commits nothing behind what is committed. -/
theorem notBehind_step (hs : Consistent s) (ho : Ordered s) (hnone : ∀ tp, s.committed tp = none)
    (hin : CommitsInOrder s l) {l₁ l₂ : List ConsumerLabel} (hl : l = l₁ ++ a :: l₂)
    (hu : run step s l₁ = some u) (hv : step u a = some v) : NotBehind u v := by
  obtain ⟨hcu, hou, -⟩ := run_keeps hs ho hu
  by_cases ha : ∃ j, a = .commitDone j (.ok ())
  · obtain ⟨j, rfl⟩ := ha
    obtain ⟨task, htask, -, -, hcommitted⟩ := commitDone_cases hv
    intro tp c hc
    rw [hcommitted]
    by_cases htp : tp = task.msg.tp
    · obtain ⟨i, task', hmem, htask', htp', rfl⟩ := acknowledged_of_run hs ho hnone hu tp c hc
      have hij := hin l₁ l₂ u v j task hl hu hv htask i task' hmem htask' (htp'.trans htp)
      have hlt := hou.lt htask' htask (htp'.trans htp) hij
      subst htp
      refine ⟨task.msg.offset + 1, by rw [Function.update_self], ?_⟩
      omega
    · exact ⟨c, by rw [Function.update_of_ne htp]; exact hc, Nat.le_refl c⟩
  · intro tp c hc
    refine ⟨c, ?_, Nat.le_refl c⟩
    rw [committed_step (fun j hj => ha ⟨j, hj⟩) hv]
    exact hc

theorem notBehind_run (hs : Consistent s) (ho : Ordered s) (hnone : ∀ tp, s.committed tp = none)
    (hin : CommitsInOrder s l) {l₁ l₂ l₃ : List ConsumerLabel} (hl : l = l₁ ++ l₂ ++ l₃)
    (hu : run step s l₁ = some u) (hv : run step u l₂ = some v) : NotBehind u v := by
  induction l₂ generalizing l₁ u with
  | nil =>
    cases hv
    exact .refl _
  | cons a l₂ ih =>
    rw [run_cons] at hv
    obtain ⟨w, hw, hv⟩ := Option.bind_eq_some_iff.mp hv
    have hfirst : l = l₁ ++ a :: (l₂ ++ l₃) := by
      rw [hl, List.append_assoc, List.cons_append]
    have hrest : l = l₁ ++ [a] ++ l₂ ++ l₃ := by
      rw [hl, ← List.append_cons]
    exact (notBehind_step hs ho hnone hin hfirst hu hw).trans
      (ih hrest ((run_snoc_iff step).mpr ⟨u, hu, hw⟩) hv)

section Run

variable (parse : String → Except Exc ChatMessageCreatedEvent) (hasHandler : Bool)
  (maxConcurrentTasks : Nat) (position : TopicPartition → Nat)

/-- From a fresh engine, no committed offset goes back exactly when every
acknowledged commit is that of a record polled behind all those of its
partition whose commits were acknowledged before. -/
theorem notBehind_iff_commitsInOrder (l : List ConsumerLabel) :
    (∀ u v, Later step (started parse hasHandler maxConcurrentTasks position) l u v →
        NotBehind u v) ↔
      CommitsInOrder (started parse hasHandler maxConcurrentTasks position) l := by
  have hs := started_consistent parse hasHandler maxConcurrentTasks position
  have ho : Ordered (started parse hasHandler maxConcurrentTasks position) := List.Pairwise.nil
  constructor
  · intro hlater l₁ l₂ u v j task hl hu hv htask i task' hmem htask' htp
    obtain ⟨b, c, w, first, hsplit, hw, hrest, hfirst, hfinished, hcommitted⟩ :=
      exists_commit_of_mem hs ho hmem hu
    obtain rfl : first = task' := Option.some.inj (hfirst.symm.trans htask')
    obtain ⟨last, hlast, hphase, -, hnew⟩ := commitDone_cases hv
    obtain rfl : last = task := Option.some.inj (hlast.symm.trans htask)
    -- from the acknowledgement of `i` on the offset does not go back
    have hnot : NotBehind w v := by
      refine hlater w v ⟨b, c ++ [.commitDone j (.ok ())], l₂, ?_, hw, ?_⟩
      · rw [hl, hsplit]
        simp
      · exact (run_snoc_iff step).mpr ⟨u, hrest, hv⟩
    obtain ⟨offset, hoffset, hle⟩ := hnot _ _ hcommitted
    rw [hnew, htp, Function.update_self] at hoffset
    cases hoffset
    have hne : i ≠ j := by
      intro hij
      subst hij
      obtain rfl : first = last := Option.some.inj (htask'.symm.trans htask)
      rw [hphase] at hfinished
      cases hfinished
    by_contra hij
    have hlt := (run_keeps hs ho hu).2.1.lt htask htask' htp.symm (by omega)
    omega
  · intro hin u v hlater
    obtain ⟨l₁, l₂, l₃, hl, hu, hv⟩ := hlater
    exact notBehind_run hs ho (fun _ => rfl) hin hl hu hv

end Run

/-! ## The slower record commits last -/

/-- `overtaking`, and then the first record's handler returns and its commit is
acknowledged too. -/
def fallingBack : List ConsumerLabel :=
  overtaking ++ [.handlerDone 0 2 (.ok ()), .commitDone 0 (.ok ())]

theorem fallingBack_run :
    (run step (started parseRequests true 50 fun _ => 0) overtaking).bind (fun u =>
        (run step u [.handlerDone 0 2 (.ok ()), .commitDone 0 (.ok ())]).map fun v =>
          (u.committed firstRecord.tp, v.committed firstRecord.tp))
      = some (some 2, some 1) := by
  rfl

theorem not_forall_notBehind :
    ¬ ∀ (parse : String → Except Exc ChatMessageCreatedEvent) (hasHandler : Bool)
      (maxConcurrentTasks : Nat) (position : TopicPartition → Nat) (l : List ConsumerLabel)
      (u v : KafkaConsumerEngine),
      Later step (started parse hasHandler maxConcurrentTasks position) l u v →
        NotBehind u v := by
  intro h
  obtain ⟨u, hu, hrest⟩ := Option.bind_eq_some_iff.mp fallingBack_run
  obtain ⟨v, hv, heq⟩ := Option.map_eq_some_iff.mp hrest
  obtain ⟨hfirst, hlast⟩ := Prod.mk.inj heq
  obtain ⟨c, hc, hle⟩ := h _ _ _ _ fallingBack u v
    ⟨overtaking, _, [], (List.append_nil _).symm, hu, hv⟩ firstRecord.tp 2 hfirst
  rw [hlast] at hc
  cases hc
  exact absurd hle (by decide)

end KafkaConsumerEngine

end LlmService
