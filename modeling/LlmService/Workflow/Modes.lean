import LlmService.Workflow.Evidence
import LlmService.Workflow.LoopBounds

/-!
# The modes of a plan

The mode handlers of `workflow_engine/mode_handlers` and `ModeDispatcher`: a
plan is executed by the handler of its mode, or by the graph of its mode. What
a handler dispatches is its plan's tools; the web search adds a search where
there is none among them.
-/

namespace LlmService

/-- `ExecutionPlan`, as far as its execution reads it. -/
structure ExecutionPlan where
  mode : UserMode := .default
  tools : List ToolCall := []
  maxIterations : Int := 1
  analysisConfidence : ℚ := 1
  groqModelUsed : String := "llama-3.3-70b-versatile"
  /-- `Field(default=1, ge=1)`. -/
  maxIterations_ge : 1 ≤ maxIterations := by decide

/-- `plan_is_fallback`. -/
def ExecutionPlan.isFallback (plan : ExecutionPlan) : Bool :=
  plan.analysisConfidence = 0 || plan.groqModelUsed = "fallback_safe_default"

/-- What an execution reads of the `PipelineContext`. -/
structure WorkflowContext where
  userMessage : String
  searchQuery : Option String := none

/-- `WorkflowResult`, without the history. -/
structure WorkflowResult where
  mode : UserMode
  draftContent : Option String := none
  toolOutputs : List ToolResult := []
  userMessage : String

/-! ## Mode handlers -/

/-- `if plan.tools and self.tool_dispatcher`. -/
def dispatchPlanned (plan : ExecutionPlan) : WorkflowScript (List ToolResult) :=
  if plan.tools = [] then return [] else dispatchCalls plan.tools

/-- The handlers that dispatch the planned tools, by their mode. -/
def planned (mode : UserMode) (plan : ExecutionPlan) (ctx : WorkflowContext) :
    WorkflowScript WorkflowResult := do
  let toolOutputs ← dispatchPlanned plan
  return { mode, toolOutputs, userMessage := ctx.userMessage }

/-- `DefaultHandler.handle`. -/
def DefaultHandler.handle : ExecutionPlan → WorkflowContext → WorkflowScript WorkflowResult :=
  planned .default

/-- `TutorHandler.handle`. -/
def TutorHandler.handle : ExecutionPlan → WorkflowContext → WorkflowScript WorkflowResult :=
  planned .tutor

/-- `CodeHandler.handle`. -/
def CodeHandler.handle : ExecutionPlan → WorkflowContext → WorkflowScript WorkflowResult :=
  planned .code

/-- `AskFilesHandler.handle`: the files are in the context already. -/
def AskFilesHandler.handle (_plan : ExecutionPlan) (ctx : WorkflowContext) :
    WorkflowScript WorkflowResult :=
  return { mode := .askFiles, userMessage := ctx.userMessage }

namespace WebSearchHandler

/-- `ctx.search_query or ctx.user_message`. -/
def query (ctx : WorkflowContext) : String :=
  match ctx.searchQuery with
  | none | some "" => ctx.userMessage
  | some query => query

/-- The search that a plan lacks. -/
def searchCall (ctx : WorkflowContext) : ToolCall where
  toolName := "web_search"
  params := AList.insert "query" (.string (query ctx)) ∅
  parallel := false
  required := true

/-- The tools of the plan, with a search among them. -/
def tools (plan : ExecutionPlan) (ctx : WorkflowContext) : List ToolCall :=
  if plan.tools.any fun call => call.toolName = "web_search" then plan.tools
  else plan.tools ++ [searchCall ctx]

/-- `WebSearchHandler.handle`. -/
def handle (plan : ExecutionPlan) (ctx : WorkflowContext) : WorkflowScript WorkflowResult := do
  let toolOutputs ← dispatchCalls (tools plan ctx)
  return { mode := .webSearch, toolOutputs, userMessage := ctx.userMessage }

end WebSearchHandler

/-! ## ModeDispatcher -/

/-- `a or b`, for texts that may be missing. -/
def pyOr (a b : Option String) : Option String :=
  match a with
  | none | some "" => b
  | some text => some text

namespace ModeDispatcher

/-- The smart graph, from the state that `_build_initial_graph_state` builds. -/
def smart (p : SmartPlanner) (plan : ExecutionPlan) (ctx : WorkflowContext) :
    WorkflowScript WorkflowResult := do
  let s ← (Smart.graph p).ainvoke p.recursionLimit
    (Smart.initialState ctx.userMessage plan.tools plan.isFallback plan.maxIterations)
  return { mode := .smart, draftContent := s.draftResponse, toolOutputs := s.toolResults
           userMessage := s.userMessage }

def deepResearch (p : SmartPlanner) (plan : ExecutionPlan) (ctx : WorkflowContext) :
    WorkflowScript WorkflowResult := do
  let s ← (DeepResearch.graph p.upper).ainvoke p.recursionLimit
    { userMessage := ctx.userMessage, maxIterations := plan.maxIterations }
  return { mode := .deepResearch, draftContent := pyOr s.structuredReport s.synthesis
           toolOutputs := s.searchResults, userMessage := s.userMessage }

/-- `dispatch`, and the results that `WorkflowResult` makes of it. -/
def dispatch (p : SmartPlanner) (plan : ExecutionPlan) (ctx : WorkflowContext) :
    WorkflowScript WorkflowResult :=
  match plan.mode with
  | .default => DefaultHandler.handle plan ctx
  | .tutor => TutorHandler.handle plan ctx
  | .code => CodeHandler.handle plan ctx
  | .askFiles => AskFilesHandler.handle plan ctx
  | .webSearch => WebSearchHandler.handle plan ctx
  | .smart => smart p plan ctx
  | .deepResearch => deepResearch p plan ctx

end ModeDispatcher

/-! ## What the modes dispatch -/

section Trace

open Script (trace_pure_iff trace_bind_ok_iff)

variable {p : SmartPlanner} {plan : ExecutionPlan} {ctx : WorkflowContext} {T : DispatchTrace}
  {result : WorkflowResult} {mode : UserMode}

theorem commands_planned {out : Except PyRaise WorkflowResult} (h : (planned mode plan ctx).Trace T out) :
    T.map Sigma.fst = if plan.tools = [] then [] else [.dispatch plan.tools {}] := by
  obtain ⟨results, hdispatch⟩ := exists_trace_of_bind_pure h
  rw [dispatchPlanned] at hdispatch
  by_cases hnil : plan.tools = []
  · rw [if_pos hnil] at hdispatch ⊢
    obtain ⟨rfl, -⟩ := trace_pure_iff.mp hdispatch
    rfl
  · rw [if_neg hnil] at hdispatch ⊢
    exact commands_dispatchCalls hdispatch

theorem commands_webSearch {out : Except PyRaise WorkflowResult}
    (h : (WebSearchHandler.handle plan ctx).Trace T out) :
    T.map Sigma.fst = [.dispatch (WebSearchHandler.tools plan ctx) {}] := by
  obtain ⟨results, hdispatch⟩ := exists_trace_of_bind_pure h
  exact commands_dispatchCalls hdispatch

theorem strict_smart : Strict (ModeDispatcher.smart p plan ctx) := by
  refine Strict.bind (strict_runFrom (fun n s => ?_) _ _ _ _) fun s => strict_pure _
  cases n with
  | execution =>
    show Strict (Smart.execution s)
    rw [Smart.execution]
    cases s.nextToolCall with
    | none => exact strict_pure s
    | some call => exact (strict_dispatchCalls _ _).bind fun results => strict_pure _
  | planner | dynamicToolSelection | prompt | generation => exact strict_pure _

theorem strict_deepResearch : Strict (ModeDispatcher.deepResearch p plan ctx) := by
  refine Strict.bind (strict_runFrom (fun n s => ?_) _ _ _ _) fun s => strict_pure _
  cases n with
  | search => exact (strict_dispatchCalls _ _).bind fun results => strict_pure _
  | analyze | compareSources | summarize | generateReport => exact strict_pure _

theorem strict_dispatch : Strict (ModeDispatcher.dispatch p plan ctx) := by
  have hplanned : ∀ mode, Strict (planned mode plan ctx) := by
    intro mode
    refine Strict.bind ?_ fun results => strict_pure _
    rw [dispatchPlanned]
    by_cases hnil : plan.tools = []
    · rw [if_pos hnil]
      exact strict_pure _
    · rw [if_neg hnil]
      exact strict_dispatchCalls _ _
  rw [ModeDispatcher.dispatch]
  cases plan.mode with
  | default | tutor | code => exact hplanned _
  | askFiles => exact strict_pure _
  | webSearch => exact (strict_dispatchCalls _ _).bind fun results => strict_pure _
  | smart => exact strict_smart
  | deepResearch => exact strict_deepResearch

/-- The smart graph dispatches its sub-tasks, as many as the iterations allow. -/
theorem commands_smart (h : (ModeDispatcher.smart p plan ctx).Trace T (.ok result)) :
    T.map Sigma.fst = ((Smart.planSubTasks p ctx.userMessage plan.tools plan.isFallback).take
      plan.maxIterations.toNat).map fun task =>
        .dispatch [Smart.dispatched ctx.userMessage task] {} := by
  have hreturn := strict_smart T result h
  obtain ⟨s, t₁, t₂, hgraph, hpure, rfl⟩ := trace_bind_ok_iff.mp h
  obtain ⟨rfl, -⟩ := trace_pure_iff.mp hpure
  rw [List.append_nil] at hreturn ⊢
  exact ((Smart.trace_ainvoke plan.maxIterations_ge p.recursionLimit_ge hgraph).whole hreturn).2

/-- A smart run dispatches the first of its sub-tasks, no more than the iterations allow. -/
theorem isPrefix_smart {out : Except PyRaise WorkflowResult}
    (h : (ModeDispatcher.smart p plan ctx).Trace T out) :
    T.map Sigma.fst <+: ((Smart.planSubTasks p ctx.userMessage plan.tools plan.isFallback).take
      plan.maxIterations.toNat).map fun task =>
        .dispatch [Smart.dispatched ctx.userMessage task] {} := by
  obtain ⟨s, hgraph⟩ := exists_trace_of_bind_pure h
  exact (Smart.trace_ainvoke plan.maxIterations_ge p.recursionLimit_ge hgraph).isPrefix

theorem one_le_recursionLimit (p : SmartPlanner) : 1 ≤ p.recursionLimit :=
  le_trans (Nat.le_add_left 1 10) p.recursionLimit_ge

theorem length_deepResearch {out : Except PyRaise WorkflowResult}
    (h : (ModeDispatcher.deepResearch p plan ctx).Trace T out) :
    (T.length : Int) ≤ max 1 plan.maxIterations := by
  obtain ⟨s, hgraph⟩ := exists_trace_of_bind_pure h
  have hlength := (DeepResearch.length_ainvoke (one_le_recursionLimit p) hgraph).2
  simpa using hlength

/-! ## The queries of a deep research -/

namespace DeepResearch

variable {upper : String → String} {s v : DeepResearchState}

/-- The query of the `k`-th search. -/
def queryAt (userMessage : String) : Nat → String
  | 0 => PyText.stripStr userMessage
  | 1 => s!"Empirical benchmarks and performance evaluation: {userMessage}"
  | 2 => s!"Technical specifications and limitations: {userMessage}"
  | _ => s!"Scholarly research papers and state of the art: {userMessage}"

theorem nextQuery_searched (s : DeepResearchState) (results : List ToolResult) :
    nextQuery (searched s results) = queryAt s.userMessage (s.loopIterationCount + 1) := by
  show (if s.loopIterationCount + 1 = 1 then _ else if s.loopIterationCount + 1 = 2 then _ else _) = _
  match s.loopIterationCount with
  | 0 => rfl
  | 1 => rfl
  | _ + 2 => rfl

/-- An analysis that does not suffice issues the next query. -/
theorem query_analyze_searched {results : List ToolResult}
    (h : ¬ IsSufficient (searched s results)) :
    query (analyze (searched s results)) = queryAt s.userMessage (s.loopIterationCount + 1) := by
  have hissued : (analyze (searched s results)).queriesIssued =
      (searched s results).queriesIssued ++ [nextQuery (searched s results)] := by
    rw [analyze, if_neg h]
  rw [query, hissued, List.getLast?_concat, Option.getD_some, nextQuery_searched]

/-- The searches of a research ask one query after another. -/
theorem commands_of_path {T : DispatchTrace}
    (hquery : query s = queryAt s.userMessage s.loopIterationCount)
    (h : (graph upper).Path .search s T v) :
    T.map Sigma.fst = (List.range T.length).map fun k =>
      .dispatch [searchCall (queryAt s.userMessage (s.loopIterationCount + k))] {} := by
  induction T generalizing s with
  | nil => rfl
  | cons step T ih =>
    obtain ⟨results, T', hcons, hturn⟩ := path_search h
    obtain ⟨rfl, rfl⟩ := List.cons.inj hcons
    rw [List.map_cons, List.length_cons, List.range_succ_eq_map, List.map_cons, List.map_map,
      Nat.add_zero, hquery]
    rcases hturn with ⟨-, rfl, -⟩ | ⟨hinsufficient, hpath⟩
    · rfl
    · rw [ih (query_analyze_searched hinsufficient) hpath]
      refine congrArg (List.cons _) (List.map_congr_left fun k _ => ?_)
      show DispatchCommand.dispatch [searchCall (queryAt s.userMessage
        (s.loopIterationCount + 1 + k))] {} = .dispatch [searchCall (queryAt s.userMessage
        (s.loopIterationCount + (k + 1)))] {}
      rw [Nat.add_assoc, Nat.add_comm 1 k]

/-- A research that finds nothing spends its iterations. -/
theorem length_of_path {T : DispatchTrace} (hfindings : s.findings = [])
    (hfound : s.searchResults.flatMap (·.found) = [])
    (hnothing : ∀ step ∈ T, ∀ results, step.2 = .ok results → results.flatMap (·.found) = [])
    (h : (graph upper).Path .search s T v) :
    (T.length : Int) = max 1 (s.maxIterations - s.loopIterationCount) := by
  induction T generalizing s with
  | nil =>
    obtain ⟨results, T', hnil, -⟩ := path_search h
    cases hnil
  | cons step T ih =>
    obtain ⟨results, T', hcons, hturn⟩ := path_search h
    obtain ⟨rfl, rfl⟩ := List.cons.inj hcons
    have hnone : results.flatMap (·.found) = [] := hnothing _ List.mem_cons_self results rfl
    rw [isSufficient_searched_iff hfindings hfound, hnone, List.length_nil] at hturn
    rw [List.length_cons]
    rcases hturn with ⟨hsufficient, rfl, -⟩ | ⟨hinsufficient, hpath⟩
    · rw [List.length_nil]
      omega
    · have hfindings' := findings_analyze_searched s results
      have hfound' := found_analyze_searched s results
      rw [hfindings, hfound, hnone] at hfindings'
      rw [hfound, hnone] at hfound'
      have hlength := ih hfindings' hfound'
        (fun step hstep => hnothing step (List.mem_cons_of_mem _ hstep)) hpath
      have hcount : (analyze (searched s results)).loopIterationCount =
        s.loopIterationCount + 1 := rfl
      have hmax : (analyze (searched s results)).maxIterations = s.maxIterations := rfl
      rw [hcount, hmax] at hlength
      omega

end DeepResearch

/-- A research asks as many queries as its iterations allow, or fewer if it finds something. -/
theorem commands_deepResearch (h : (ModeDispatcher.deepResearch p plan ctx).Trace T (.ok result)) :
    T.map Sigma.fst = (List.range T.length).map (fun k =>
        .dispatch [DeepResearch.searchCall (DeepResearch.queryAt ctx.userMessage k)] {}) ∧
      (T.length : Int) ≤ max 1 plan.maxIterations ∧
      ((∀ step ∈ T, ∀ results, step.2 = .ok results → results.flatMap (·.found) = []) →
        (T.length : Int) = max 1 plan.maxIterations) := by
  have hlength := length_deepResearch h
  obtain ⟨s, t₁, t₂, hgraph, hpure, rfl⟩ := trace_bind_ok_iff.mp h
  obtain ⟨rfl, -⟩ := trace_pure_iff.mp hpure
  rw [List.append_nil] at hlength ⊢
  have hpath := StateGraph.path_of_trace hgraph
  have hcommands := DeepResearch.commands_of_path rfl hpath
  refine ⟨?_, hlength, fun hnothing => ?_⟩
  · rw [hcommands]
    refine List.map_congr_left fun k _ => ?_
    show DispatchCommand.dispatch [DeepResearch.searchCall (DeepResearch.queryAt ctx.userMessage
      (0 + k))] {} = _
    rw [Nat.zero_add]
  · have hlength := DeepResearch.length_of_path rfl rfl hnothing hpath
    simpa using hlength

/-! ## The tools that a workflow names -/

theorem tool_eq (task : SubTask) :
    Smart.SubTask.tool task = "web_search" ∨ task.toolName = some (Smart.SubTask.tool task) := by
  rw [Smart.SubTask.tool]
  split
  · exact .inl rfl
  · exact .inl rfl
  · rename_i hname
    exact .inr hname

theorem tool_ruleBasedSubtasks (userMsg lowerMsg : String) (searchNeeded : Bool) :
    ∀ task ∈ Smart.ruleBasedSubtasks userMsg lowerMsg searchNeeded,
      Smart.SubTask.tool task = "web_search" := by
  have hsearch : ∀ id description, Smart.SubTask.tool (Smart.searchTask id description) =
    "web_search" := fun _ _ => rfl
  rw [Smart.ruleBasedSubtasks]
  split_ifs <;> simp [hsearch]

/-- A sub-task is a search, or a tool of the plan. -/
theorem tool_of_mem_planSubTasks {userMessage : String} {tools : List ToolCall} {fallback : Bool}
    {task : SubTask} (h : task ∈ Smart.planSubTasks p userMessage tools fallback) :
    Smart.SubTask.tool task = "web_search" ∨
      ∃ call ∈ tools, call.toolName = Smart.SubTask.tool task := by
  rcases tool_eq task with hsearch | hname
  · exact .inl hsearch
  · rw [Smart.planSubTasks] at h
    split at h
    · obtain ⟨⟨call, i⟩, hx, rfl⟩ := List.mem_map.mp h
      obtain ⟨-, -, hget⟩ := List.mem_zipIdx hx
      refine .inr ⟨call, ?_, Option.some.inj hname⟩
      rw [hget]
      exact List.mem_of_mem_take (List.getElem_mem _)
    · split at h
      · exact .inl (tool_ruleBasedSubtasks _ _ _ task h)
      · cases h

/-- What a workflow dispatches are tools of its plan, and searches. -/
theorem named_dispatch (h : (ModeDispatcher.dispatch p plan ctx).Trace T (.ok result)) :
    ∀ c ∈ T.map Sigma.fst, ∀ call ∈ c.calls, call.toolName = "web_search" ∨
      ∃ planned ∈ plan.tools, planned.toolName = call.toolName := by
  have hplanned : ∀ {mode}, (planned mode plan ctx).Trace T (.ok result) →
      ∀ c ∈ T.map Sigma.fst, ∀ call ∈ c.calls, call.toolName = "web_search" ∨
        ∃ planned ∈ plan.tools, planned.toolName = call.toolName := by
    intro mode h c hc call hcall
    rw [commands_planned h] at hc
    split at hc
    · cases hc
    · rw [List.mem_singleton.mp hc] at hcall
      exact .inr ⟨call, hcall, rfl⟩
  rw [ModeDispatcher.dispatch] at h
  cases hmode : plan.mode with
  | default | tutor | code =>
    rw [hmode] at h
    exact hplanned h
  | askFiles =>
    rw [hmode] at h
    obtain ⟨rfl, -⟩ := trace_pure_iff.mp h
    exact fun c hc => nomatch hc
  | webSearch =>
    rw [hmode] at h
    intro c hc call hcall
    rw [commands_webSearch h] at hc
    rw [List.mem_singleton.mp hc] at hcall
    change call ∈ WebSearchHandler.tools plan ctx at hcall
    rw [WebSearchHandler.tools] at hcall
    split at hcall
    · exact .inr ⟨call, hcall, rfl⟩
    · rcases List.mem_append.mp hcall with hcall | hcall
      · exact .inr ⟨call, hcall, rfl⟩
      · rw [List.mem_singleton.mp hcall]
        exact .inl rfl
  | smart =>
    rw [hmode] at h
    intro c hc call hcall
    rw [commands_smart h] at hc
    obtain ⟨task, htask, rfl⟩ := List.mem_map.mp hc
    rw [List.mem_singleton.mp hcall]
    exact tool_of_mem_planSubTasks (List.mem_of_mem_take htask)
  | deepResearch =>
    rw [hmode] at h
    intro c hc call hcall
    rw [(commands_deepResearch h).1] at hc
    obtain ⟨k, -, rfl⟩ := List.mem_map.mp hc
    rw [List.mem_singleton.mp hcall]
    exact .inl rfl

end Trace

end LlmService
