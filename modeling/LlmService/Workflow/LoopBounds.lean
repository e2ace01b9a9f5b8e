import LlmService.Workflow.DeepResearch
import LlmService.Workflow.Smart

/-!
# How often the loops run

A turn of the smart loop satisfies the first sub-task that is left, so that the
sub-tasks are dispatched in their order until there is none or the iterations
are spent. A turn of the deep research counts one search.
-/

namespace LlmService

open Script StateGraph

/-! ## The sub-tasks -/

namespace Smart

variable {p : SmartPlanner} {s : SmartState} {t : DispatchTrace} {r : Except PyRaise SmartState}

/-- There are at most four ids; they differ, and none is empty. -/
structure Identified (ids : List String) : Prop where
  nodup : ids.Nodup
  nonempty : "" ∉ ids
  length_le : ids.length ≤ 4

/-- The ids that the rules give. -/
def ruleIds : List (List String) :=
  [["subtask_theory", "subtask_code", "subtask_benchmarks"], ["subtask_theory", "subtask_code"],
    ["subtask_theory", "subtask_benchmarks"], ["subtask_theory"], ["subtask_search_1"], []]

theorem map_id_ruleBasedSubtasks (userMsg lowerMsg : String) (searchNeeded : Bool) :
    (ruleBasedSubtasks userMsg lowerMsg searchNeeded).map (·.id) ∈ ruleIds := by
  rw [ruleBasedSubtasks]
  split_ifs <;> simp [ruleIds, searchTask]

theorem identified_ruleIds {ids : List String} (h : ids ∈ ruleIds) : Identified ids := by
  have hnodup : ∀ ids ∈ ruleIds, ids.Nodup := by decide
  have hnonempty : ∀ ids ∈ ruleIds, "" ∉ ids := by decide
  have hlength : ∀ ids ∈ ruleIds, ids.length ≤ 4 := by decide
  exact ⟨hnodup ids h, hnonempty ids h, hlength ids h⟩

/-- The ids of the planned tools count them from one. -/
def toolIds (n : Nat) : List String := (List.range' 1 n).map fun i => s!"subtask_tool_{i}"

theorem map_id_plannedTask (p : SmartPlanner) (userMsg : String) (calls : List ToolCall) :
    ((calls.zipIdx 1).map fun x => plannedTask p userMsg x.1 x.2).map (·.id) =
      toolIds calls.length := by
  rw [toolIds, List.map_map, ← List.zipIdx_map_snd 1 calls, List.map_map]
  rfl

theorem identified_toolIds {n : Nat} (h : n ≤ maxPlannedTools) : Identified (toolIds n) := by
  have hall : ∀ n ∈ List.range 5, (toolIds n).Nodup ∧ "" ∉ toolIds n := by decide
  have hmem : n ∈ List.range 5 := List.mem_range.mpr (Nat.lt_succ_of_le h)
  refine ⟨(hall n hmem).1, (hall n hmem).2, ?_⟩
  rw [toolIds, List.length_map, List.length_range']
  exact h

theorem identified_planSubTasks (p : SmartPlanner) (userMessage : String) (planned : List ToolCall)
    (fallback : Bool) : Identified ((planSubTasks p userMessage planned fallback).map (·.id)) := by
  rw [planSubTasks]
  split_ifs
  · rw [map_id_plannedTask]
    exact identified_toolIds (List.length_take_le _ _)
  · exact identified_ruleIds (map_id_ruleBasedSubtasks _ _ _)
  · exact identified_ruleIds (List.mem_of_elem_eq_true rfl)

/-! ## One turn of the loop -/

/-- What is dispatched for a sub-task: its call, without the key of the bookkeeping. -/
def dispatched (userMessage : String) (task : SubTask) : ToolCall :=
  cleaned (toolCall userMessage task)

theorem lookup_subTaskId_dispatched (userMessage : String) (task : SubTask) :
    (dispatched userMessage task).params.lookup "sub_task_id" = none :=
  AList.lookup_erase _ _

theorem satisfiedBy_toolCall {userMessage : String} {task : SubTask} (h : task.id ≠ "") :
    satisfiedBy (toolCall userMessage task) = [task.id] := by
  have hlookup : (toolCall userMessage task).params.lookup "sub_task_id" = some (.string task.id) :=
    AList.lookup_insert _
  rw [satisfiedBy, hlookup]
  exact if_neg h

/-- Of the sub-tasks, those that are not done. -/
theorem unsatisfied_of_split {done rest : List SubTask} (htasks : s.subTasks = done ++ rest)
    (hsatisfied : s.satisfiedSubTasks = done.map (·.id))
    (hnodup : ((done ++ rest).map (·.id)).Nodup) : unsatisfied s = rest := by
  rw [unsatisfied, htasks, hsatisfied, List.filter_append]
  rw [List.map_append, List.nodup_append] at hnodup
  have hdone : done.filter (·.id ∉ done.map (·.id)) = [] := by
    refine List.filter_eq_nil_iff.mpr fun task htask h => ?_
    exact of_decide_eq_true h (List.mem_map_of_mem htask)
  have hrest : rest.filter (·.id ∉ done.map (·.id)) = rest := by
    refine List.filter_eq_self.mpr fun task htask => decide_eq_true fun h => ?_
    exact hnodup.2.2 task.id h task.id (List.mem_map_of_mem htask) rfl
  rw [hdone, hrest, List.nil_append]

theorem next_execution (p : SmartPlanner) (s : SmartState) : (graph p).next .execution s =
    match routeAfterExecution s with
    | .loop => some .dynamicToolSelection
    | .proceed => some .prompt := rfl

/-- The state in which the sub-tasks up to `done` are satisfied, one in each iteration. -/
structure Done (tasks done : List SubTask) (s : SmartState) : Prop where
  subTasks : s.subTasks = tasks
  satisfied : s.satisfiedSubTasks = done.map (·.id)
  count : s.loopIterationCount = done.length

/-- A turn satisfies the first sub-task that is left, or its dispatch raises. -/
theorem trace_turn {done rest : List SubTask} {task : SubTask} {exceeded : WorkflowScript SmartState}
    {limit : Nat} (hids : Identified ((done ++ task :: rest).map (·.id)))
    (hdone : Done (done ++ task :: rest) done s)
    (h : ((graph p).runFrom exceeded (limit + 2) .dynamicToolSelection s).Trace t r) :
    (∃ results t' u, t = ⟨.dispatch [dispatched s.userMessage task] {}, .ok results⟩ :: t' ∧
      Done (done ++ task :: rest) (done ++ [task]) u ∧ u.userMessage = s.userMessage ∧
      u.maxIterations = s.maxIterations ∧
      (match routeAfterExecution u with
        | .loop => (graph p).runFrom exceeded limit .dynamicToolSelection u
        | .proceed => (graph p).runFrom exceeded limit .prompt u).Trace t' r) ∨
      ∃ e, t = [⟨.dispatch [dispatched s.userMessage task] {}, .error e⟩] := by
  have hleft : unsatisfied s = task :: rest :=
    unsatisfied_of_split hdone.subTasks hdone.satisfied hids.nodup
  have hselect : dynamicToolSelection s =
      { s with nextToolCall := some (toolCall s.userMessage task) } := by
    rw [dynamicToolSelection, hleft]
  have hnode : (graph p).node .dynamicToolSelection s =
      pure { s with nextToolCall := some (toolCall s.userMessage task) } := by
    rw [← hselect]
    rfl
  have hexecution : (graph p).node .execution
      { s with nextToolCall := some (toolCall s.userMessage task) } =
        (do
          let results ← dispatchCalls [dispatched s.userMessage task]
          return executed { s with nextToolCall := some (toolCall s.userMessage task) }
            (toolCall s.userMessage task) results) := rfl
  rw [runFrom_of_pure (limit + 1) hnode rfl, runFrom, hexecution, bind_assoc] at h
  rcases trace_dispatchCalls_bind h with ⟨results, t', rfl, hrest⟩ | ⟨e, rfl, -⟩
  · refine .inl ⟨results, t', executed { s with nextToolCall := some (toolCall s.userMessage task) }
      (toolCall s.userMessage task) results, rfl, ⟨hdone.subTasks, ?_, ?_⟩, rfl, rfl, ?_⟩
    · have hid : task.id ≠ "" := by
        intro hempty
        refine hids.nonempty (List.mem_map.mpr ⟨task, ?_, hempty⟩)
        exact List.mem_append_right done List.mem_cons_self
      show s.satisfiedSubTasks ++ satisfiedBy (toolCall s.userMessage task) = _
      rw [satisfiedBy_toolCall hid, hdone.satisfied, List.map_append]
      rfl
    · show s.loopIterationCount + 1 = _
      rw [hdone.count, List.length_append]
      rfl
    · rw [pure_bind, next_execution] at hrest
      cases hroute : routeAfterExecution (executed
          { s with nextToolCall := some (toolCall s.userMessage task) }
          (toolCall s.userMessage task) results) with
      | loop =>
        rw [hroute] at hrest
        exact hrest
      | proceed =>
        rw [hroute] at hrest
        exact hrest
  · exact .inr ⟨e, rfl⟩

/-- The loop goes on while there are sub-tasks and iterations left. -/
theorem routeAfterExecution_eq_loop_iff {done rest : List SubTask}
    (hids : Identified ((done ++ rest).map (·.id))) (hdone : Done (done ++ rest) done s) :
    routeAfterExecution s = .loop ↔ rest ≠ [] ∧ (done.length : Int) < s.maxIterations := by
  rw [routeAfterExecution, LoopGuard.evaluate_eq_loop_iff, hdone.count,
    unsatisfied_of_split hdone.subTasks hdone.satisfied hids.nodup]
  cases rest with
  | nil => simp
  | cons task rest => simp

/-- The last two nodes. -/
theorem runFrom_prompt (exceeded : WorkflowScript SmartState) (limit : Nat) (s : SmartState) :
    (graph p).runFrom exceeded (limit + 2) .prompt s = pure (generation p.upper s) := by
  rw [runFrom_of_pure (limit + 1) (u := s) (m := .generation) rfl rfl]
  exact runFrom_last limit rfl rfl

/-- A run dispatches the first of some calls; where no dispatch raises, it dispatches them all, and
ends. -/
structure DispatchesUpTo (cs : List DispatchCommand) (t : DispatchTrace) (r : Except PyRaise SmartState) :
    Prop where
  isPrefix : t.map Sigma.fst <+: cs
  whole : AllReturn t → (∃ u, r = .ok u) ∧ t.map Sigma.fst = cs

/-- One dispatch that returns, before the rest. -/
theorem DispatchesUpTo.cons {cs : List DispatchCommand} (h : DispatchesUpTo cs t r) (c : DispatchCommand)
    (results : List ToolResult) : DispatchesUpTo (c :: cs) (⟨c, .ok results⟩ :: t) r := by
  refine ⟨(List.prefix_cons_inj c).mpr h.isPrefix, ?_⟩
  intro hreturn
  obtain ⟨hr, hcalls⟩ := h.whole fun step hstep => hreturn step (List.mem_cons_of_mem _ hstep)
  exact ⟨hr, congrArg (List.cons c) hcalls⟩

/-- A dispatch that raises is the last one. -/
theorem dispatchesUpTo_raised (c : DispatchCommand) (cs : List DispatchCommand) (e : PyRaise) :
    DispatchesUpTo (c :: cs) [⟨c, .error e⟩] r := by
  refine ⟨(List.prefix_cons_inj c).mpr (List.nil_prefix), ?_⟩
  intro hreturn
  obtain ⟨results, hresults⟩ := hreturn _ List.mem_cons_self
  cases hresults

theorem dispatchesUpTo_nil {u : SmartState} (hr : r = .ok u) : DispatchesUpTo [] [] r :=
  ⟨List.prefix_rfl, fun _ => ⟨⟨u, hr⟩, rfl⟩⟩

/-- From a selection on, the sub-tasks that are left are dispatched in their order, as long as
there are iterations left. -/
theorem trace_loop {exceeded : WorkflowScript SmartState} {rest : List SubTask} :
    ∀ {done : List SubTask} {s : SmartState} {limit : Nat} {t : DispatchTrace},
      Identified ((done ++ rest).map (·.id)) → Done (done ++ rest) done s → rest ≠ [] →
      (done.length : Int) < s.maxIterations → 2 * rest.length + 2 ≤ limit →
      ((graph p).runFrom exceeded limit .dynamicToolSelection s).Trace t r →
      DispatchesUpTo ((rest.take (s.maxIterations.toNat - done.length)).map fun task =>
          .dispatch [dispatched s.userMessage task] {}) t r := by
  induction rest with
  | nil =>
    intro done s limit t _ _ hne
    exact absurd rfl hne
  | cons task rest ih =>
    intro done s limit t hids hdone _ hlt hlimit h
    obtain ⟨limit, rfl⟩ : ∃ n, limit = n + 2 := ⟨limit - 2, by omega⟩
    rw [List.length_cons] at hlimit
    have hsplit : done ++ task :: rest = done ++ [task] ++ rest := by
      rw [List.append_assoc]
      rfl
    have htake : s.maxIterations.toNat - done.length =
        s.maxIterations.toNat - (done ++ [task]).length + 1 := by
      rw [List.length_append, List.length_singleton]
      omega
    rw [htake, List.take_succ_cons, List.map_cons]
    rcases trace_turn hids hdone h with ⟨results, t', u, rfl, hdone', hmessage, hmax, hrest⟩ | ⟨e, rfl⟩
    · rw [hsplit] at hids hdone'
      have hroute := routeAfterExecution_eq_loop_iff hids hdone'
      apply DispatchesUpTo.cons
      cases hdecision : routeAfterExecution u with
      | loop =>
        obtain ⟨hne, hmore⟩ := hroute.mp hdecision
        rw [hdecision] at hrest
        have hcalls := ih hids hdone' hne hmore (by omega) hrest
        rw [hmax, hmessage] at hcalls
        exact hcalls
      | proceed =>
        obtain ⟨limit, rfl⟩ : ∃ n, limit = n + 2 := ⟨limit - 2, by omega⟩
        rw [hdecision] at hrest
        dsimp only at hrest
        rw [runFrom_prompt] at hrest
        obtain ⟨rfl, hr⟩ := trace_pure_iff.mp hrest
        have hstop : rest.take (s.maxIterations.toNat - (done ++ [task]).length) = [] := by
          by_cases hnil : rest = []
          · rw [hnil, List.take_nil]
          · have hspent : ¬ ((done ++ [task]).length : Int) < u.maxIterations := by
              intro hmore
              rw [hroute.mpr ⟨hnil, hmore⟩] at hdecision
              cases hdecision
            rw [hmax] at hspent
            have hzero : s.maxIterations.toNat - (done ++ [task]).length = 0 := by omega
            rw [hzero, List.take_zero]
        rw [hstop]
        exact dispatchesUpTo_nil hr
    · exact dispatchesUpTo_raised _ _ e

/-- Without a sub-task nothing is dispatched. -/
theorem runFrom_noTasks {exceeded : WorkflowScript SmartState} {limit : Nat} (hdone : Done [] [] s) :
    (graph p).runFrom exceeded (limit + 4) .dynamicToolSelection s =
      pure (generation p.upper { s with nextToolCall := none }) := by
  have hleft : unsatisfied s = [] := by
    rw [unsatisfied, hdone.subTasks]
    rfl
  have hselect : (graph p).node .dynamicToolSelection s = pure { s with nextToolCall := none } := by
    show pure (dynamicToolSelection s) = _
    rw [dynamicToolSelection, hleft]
  have hroute : (graph p).next .execution { s with nextToolCall := none } = some .prompt := by
    have hproceed : routeAfterExecution { s with nextToolCall := none } = .proceed := by
      show LoopGuard.evaluate s.loopIterationCount s.maxIterations (!(unsatisfied s).isEmpty) = _
      rw [hleft]
      rfl
    rw [next_execution, hproceed]
  rw [runFrom_of_pure (limit + 3) hselect (m := .execution) rfl,
    runFrom_of_pure (limit + 2) (u := { s with nextToolCall := none }) rfl hroute, runFrom_prompt]

/-- The state that a run starts in. -/
def initialState (userMessage : String) (planned : List ToolCall) (fallback : Bool)
    (maxIterations : Int) : SmartState where
  userMessage := userMessage
  plannedTools := planned
  planIsFallback := fallback
  maxIterations := maxIterations

/-- A run dispatches its sub-tasks in their order, as many as the iterations allow. -/
theorem trace_ainvoke {userMessage : String} {planned : List ToolCall} {fallback : Bool}
    {maxIterations : Int} {limit : Nat} (hmax : 1 ≤ maxIterations) (hlimit : 11 ≤ limit)
    (h : ((graph p).ainvoke limit (initialState userMessage planned fallback maxIterations)).Trace
      t r) :
    DispatchesUpTo (((planSubTasks p userMessage planned fallback).take maxIterations.toNat).map fun task =>
        .dispatch [dispatched userMessage task] {}) t r := by
  have hids := identified_planSubTasks p userMessage planned fallback
  obtain ⟨limit, rfl⟩ : ∃ n, limit = n + 1 := ⟨limit - 1, by omega⟩
  rw [ainvoke, invoke] at h
  have hplanned : (graph p).node (graph p).entry
      (initialState userMessage planned fallback maxIterations) =
        pure (planner p (initialState userMessage planned fallback maxIterations)) := rfl
  rw [runFrom_of_pure limit hplanned (m := .dynamicToolSelection) rfl] at h
  have hdone : Done (planSubTasks p userMessage planned fallback) []
      (planner p (initialState userMessage planned fallback maxIterations)) := ⟨rfl, rfl, rfl⟩
  have hmessage : (planner p
      (initialState userMessage planned fallback maxIterations)).userMessage = userMessage := rfl
  have hiterations : (planner p
      (initialState userMessage planned fallback maxIterations)).maxIterations = maxIterations := rfl
  generalize planner p (initialState userMessage planned fallback maxIterations) = s₁
    at h hdone hmessage hiterations
  cases htasks : planSubTasks p userMessage planned fallback with
  | nil =>
    rw [htasks] at hdone
    obtain ⟨limit, rfl⟩ : ∃ n, limit = n + 4 := ⟨limit - 4, by omega⟩
    rw [runFrom_noTasks hdone] at h
    obtain ⟨rfl, hr⟩ := trace_pure_iff.mp h
    rw [List.take_nil]
    exact dispatchesUpTo_nil hr
  | cons task rest =>
    rw [htasks] at hids hdone
    have hlength := hids.length_le
    rw [List.length_map] at hlength
    have hids' : Identified ((([] : List SubTask) ++ task :: rest).map (·.id)) := hids
    have hdone' : Done ([] ++ task :: rest) [] s₁ := hdone
    have hstart : (([] : List SubTask).length : Int) < s₁.maxIterations := by
      rw [List.length_nil]
      omega
    have hloop := trace_loop hids' hdone' (List.cons_ne_nil task rest) hstart (by omega) h
    rw [hmessage, hiterations] at hloop
    exact hloop

end Smart

/-! ## The searches -/

namespace DeepResearch

variable {upper : String → String} {e : PyRaise} {r : Except PyRaise DeepResearchState}

/-- Behind the loop nothing is searched. -/
theorem trace_compareSources {limit : Nat} {s : DeepResearchState} {t : DispatchTrace}
    (h : ((graph upper).runFrom (throw e) limit .compareSources s).Trace t r) : t = [] := by
  match limit with
  | 0 => exact (trace_throw_iff.mp h).1
  | 1 => exact (trace_throw_iff.mp h).1
  | 2 => exact (trace_throw_iff.mp h).1
  | limit + 3 => exact (trace_pure_iff.mp h).1

/-- From a search on, there is one search, or one for each iteration that is left. -/
theorem length_trace_search {limit : Nat} {s : DeepResearchState} {t : DispatchTrace}
    (h : ((graph upper).runFrom (throw e) (limit + 1) .search s).Trace t r) :
    1 ≤ t.length ∧ (t.length : Int) ≤ max 1 (s.maxIterations - s.loopIterationCount) := by
  induction limit using Nat.strong_induction_on generalizing s t with
  | _ limit ih =>
    have hsearch : (graph upper).node .search s = (do
      let results ← dispatchCalls [searchCall (query s)]
      return searched s results) := rfl
    rw [runFrom, hsearch, bind_assoc] at h
    rcases trace_dispatchCalls_bind h with ⟨results, t', rfl, hrest⟩ | ⟨e', rfl, -⟩
    · rw [pure_bind] at hrest
      have hanalysis : ((graph upper).runFrom (throw e) limit .analyze (searched s results)).Trace
        t' r := hrest
      cases limit with
      | zero =>
        obtain ⟨rfl, -⟩ := trace_throw_iff.mp hanalysis
        rw [List.length_singleton]
        omega
      | succ limit =>
        have hnode : (graph upper).node .analyze (searched s results) =
          pure (analyze (searched s results)) := rfl
        by_cases hsufficient : IsSufficient (searched s results)
        · have hnext := (next_analyze upper (searched s results)).trans (if_pos hsufficient)
          rw [runFrom_of_pure limit hnode hnext] at hanalysis
          obtain rfl := trace_compareSources hanalysis
          rw [List.length_singleton]
          omega
        · have hnext := (next_analyze upper (searched s results)).trans (if_neg hsufficient)
          rw [runFrom_of_pure limit hnode hnext] at hanalysis
          cases limit with
          | zero =>
            obtain ⟨rfl, -⟩ := trace_throw_iff.mp hanalysis
            rw [List.length_singleton]
            omega
          | succ limit =>
            have hmore := (ih limit (by omega) hanalysis).2
            have hcount : (analyze (searched s results)).loopIterationCount =
              s.loopIterationCount + 1 := rfl
            have hmax : (analyze (searched s results)).maxIterations = s.maxIterations := rfl
            have hleft : ¬ s.maxIterations ≤ ((s.loopIterationCount + 1 : Nat) : Int) :=
              fun hle => hsufficient (.inr hle)
            rw [hcount, hmax] at hmore
            rw [List.length_cons]
            omega
    · rw [List.length_singleton]
      omega

/-- A research searches once, or as often as its iterations allow. -/
theorem length_ainvoke {limit : Nat} {s : DeepResearchState} {t : DispatchTrace} (hlimit : 1 ≤ limit)
    (h : ((graph upper).ainvoke limit s).Trace t r) :
    1 ≤ t.length ∧ (t.length : Int) ≤ max 1 (s.maxIterations - s.loopIterationCount) := by
  obtain ⟨limit, rfl⟩ : ∃ n, limit = n + 1 := ⟨limit - 1, by omega⟩
  exact length_trace_search h

/-- A research dispatches searches, one at a time. -/
theorem only_searches (upper : String → String) (e : PyRaise) (limit : Nat) (n : Node)
    (s : DeepResearchState) :
    ((graph upper).runFrom (throw e) limit n s).Only fun c => ∃ query, c.calls = [searchCall query] := by
  refine only_runFrom (fun n s => ?_) e limit n s
  cases n with
  | search =>
    refine ⟨⟨query s, rfl⟩, fun reply => ?_⟩
    cases reply with
    | ok results => trivial
    | error e => trivial
  | analyze | compareSources | summarize | generateReport => trivial

end DeepResearch

/-- A smart run in which no dispatch raises ends, and dispatches the calls of its sub-tasks, as
many as there are or as its iterations allow, in their order, each once and without the key of the
bookkeeping; a deep research searches at least once, and no more than its iterations allow. -/
theorem loops_bounded :
    (∀ (p : SmartPlanner) (userMessage : String) (planned : List ToolCall) (fallback : Bool)
      (maxIterations : Int) (limit : Nat) (t : DispatchTrace) (r : Except PyRaise SmartState),
      1 ≤ maxIterations → 11 ≤ limit →
      ((Smart.graph p).ainvoke limit
        (Smart.initialState userMessage planned fallback maxIterations)).Trace t r →
      AllReturn t →
        (∃ s, r = .ok s) ∧
        t.length = min (Smart.planSubTasks p userMessage planned fallback).length
          maxIterations.toNat ∧
        ((Smart.planSubTasks p userMessage planned fallback).map (·.id)).Nodup ∧
        t.map (·.1.calls) = ((Smart.planSubTasks p userMessage planned fallback).take
          maxIterations.toNat).map (fun task => [Smart.dispatched userMessage task]) ∧
        ∀ step ∈ t, ∀ call ∈ step.1.calls, call.params.lookup "sub_task_id" = none) ∧
    ∀ (upper : String → String) (userMessage : String) (maxIterations : Int) (limit : Nat)
      (t : DispatchTrace) (r : Except PyRaise DeepResearchState), 1 ≤ limit →
      ((DeepResearch.graph upper).ainvoke limit { userMessage, maxIterations }).Trace t r →
        (∀ step ∈ t, ∃ query, step.1.calls = [DeepResearch.searchCall query]) ∧
        1 ≤ t.length ∧ (t.length : Int) ≤ max 1 maxIterations := by
  constructor
  · intro p userMessage planned fallback maxIterations limit t r hmax hlimit h hreturn
    obtain ⟨hr, hcommands⟩ := (Smart.trace_ainvoke hmax hlimit h).whole hreturn
    have hcalls : t.map (·.1.calls) = ((Smart.planSubTasks p userMessage planned fallback).take
        maxIterations.toNat).map fun task => [Smart.dispatched userMessage task] := by
      have hmap := congrArg (List.map DispatchCommand.calls) hcommands
      rw [List.map_map, List.map_map] at hmap
      exact hmap
    refine ⟨hr, ?_, (Smart.identified_planSubTasks p userMessage planned fallback).nodup, hcalls, ?_⟩
    · have hlength := congrArg List.length hcalls
      rw [List.length_map, List.length_map, List.length_take] at hlength
      rw [hlength, Nat.min_comm]
    · intro step hstep call hcall
      have hmem : step.1.calls ∈ t.map (·.1.calls) := List.mem_map_of_mem hstep
      rw [hcalls] at hmem
      obtain ⟨task, -, htask⟩ := List.mem_map.mp hmem
      rw [← htask, List.mem_singleton] at hcall
      rw [hcall]
      exact Smart.lookup_subTaskId_dispatched userMessage task
  · intro upper userMessage maxIterations limit t r hlimit h
    have hlength := DeepResearch.length_ainvoke hlimit h
    refine ⟨(DeepResearch.only_searches upper _ _ _ _).of_trace h, hlength.1, ?_⟩
    have hle := hlength.2
    dsimp only at hle
    omega

/-- A planner whose expressions find nothing. -/
def plainPlanner : SmartPlanner where
  patterns := ⟨fun _ => false, fun _ => false, fun _ => false, fun _ => false, fun _ => []⟩
  thisYear := 2026
  lower := id
  upper := id
  str := fun _ => ""
  recursionLimit := 10007
  recursionLimit_ge := by decide

/-- Of three planned tools two are dispatched in two iterations; and a research that finds nothing searches
as often as it may. -/
theorem threeTools_twoIterations :
    (∃ t s, ((Smart.graph plainPlanner).ainvoke 25
        (Smart.initialState "sum" [{ toolName := "sum" }, { toolName := "mean" }, { toolName := "clock" }]
          false 2)).Trace t (.ok s) ∧
      t.length = 2 ∧ ∀ step ∈ t, ∀ call ∈ step.1.calls, call.params.lookup "sub_task_id" = none) ∧
    ∃ t r, ((DeepResearch.graph id).ainvoke 25 { userMessage := "rust", maxIterations := 3 }).Trace t r ∧
      (∀ step ∈ t, ∃ query, step.1.calls = [DeepResearch.searchCall query]) ∧
      1 ≤ t.length ∧ (t.length : Int) ≤ max 1 3 := by
  constructor
  · have htrace := trace_follow (fun _ : DispatchCommand => .ok [])
      ((Smart.graph plainPlanner).ainvoke 25
        (Smart.initialState "sum" [{ toolName := "sum" }, { toolName := "mean" }, { toolName := "clock" }]
          false 2))
    obtain ⟨⟨s, hs⟩, hlength, -, -, hkeys⟩ := loops_bounded.1 plainPlanner "sum"
      [{ toolName := "sum" }, { toolName := "mean" }, { toolName := "clock" }] false 2 25 _ _
      (by decide) (by decide) htrace fun step hstep => ⟨[], answer_of_mem_follow step hstep⟩
    rw [hs] at htrace
    exact ⟨_, s, htrace, hlength, hkeys⟩
  · have htrace := trace_follow (fun _ : DispatchCommand => .ok [])
      ((DeepResearch.graph id).ainvoke 25 { userMessage := "rust", maxIterations := 3 })
    exact ⟨_, _, htrace, loops_bounded.2 id "rust" 3 25 _ _ (by decide) htrace⟩

end LlmService
