import LlmService.Pipeline.SelectedTools
import LlmService.RequestAnalyzer.Analyzer

/-!
# The run of an analysed plan

The analysis and the tool stages behind it, together: whatever the models
answer that are asked for a plan, and whatever tools a message selects, the
run dispatches no more often than the configuration allows its mode, and once
for what was selected. With the search disabled no planned search is left; the
modes that search of themselves still do.
-/

namespace LlmService

open Script ToolStages

/-- The modes that search without a planned search. -/
def UserMode.searchesItself : UserMode → Bool
  | .webSearch | .smart | .deepResearch => true
  | _ => false

namespace RequestAnalyzer

variable {an : RequestAnalyzer} {st : ToolStages} {req : ToolRequest} {T T₁ T₂ : DispatchTrace}
  {calls : List ToolCall} {plan : ExecutionPlan} {ctx : WorkflowContext} {result r : WorkflowResult}

/-- The stages read the limits that the analyser reads. -/
def SameLimits (st : ToolStages) (config : AnalysisConfig) : Prop :=
  st.smartIterations = config.smartIterations ∧ st.deepResearchIterations = config.deepResearchIterations

/-- The iterations that a request is given are those that its mode is allowed. -/
theorem iterations_le_allowed {config : AnalysisConfig} (hlimits : SameLimits st config)
    (hplan : req.plan.maxIterations ≤ config.allowed req.plan.mode) :
    st.iterations req ≤ config.allowed (mode req) := by
  obtain ⟨hsmart, hdeep⟩ := hlimits
  rw [iterations, mode]
  cases req.requestedMode with
  | none => exact hplan
  | some requested =>
    cases requested with
    | smart => exact hsmart.le
    | deepResearch => exact hdeep.le
    | default | tutor | code | askFiles | webSearch => exact le_rfl

/-- A workflow dispatches once, or as often as its iterations allow. -/
theorem length_dispatch_le {out : Except PyRaise WorkflowResult}
    (h : (ModeDispatcher.dispatch st.planner plan ctx).Trace T out) :
    (T.length : Int) ≤ max 1 plan.maxIterations := by
  have hone : ∀ {cs : List DispatchCommand}, T.map Sigma.fst = cs → cs.length ≤ 1 →
      (T.length : Int) ≤ max 1 plan.maxIterations := by
    intro cs hcs hlength
    have hmap := congrArg List.length hcs
    rw [List.length_map] at hmap
    omega
  have hplanned : ∀ {mode}, (planned mode plan ctx).Trace T out →
      (T.length : Int) ≤ max 1 plan.maxIterations := by
    intro mode h
    refine hone (commands_planned h) ?_
    split
    · exact Nat.zero_le 1
    · exact Nat.le_refl 1
  rw [ModeDispatcher.dispatch] at h
  cases hmode : plan.mode with
  | default | tutor | code =>
    rw [hmode] at h
    exact hplanned h
  | askFiles =>
    rw [hmode] at h
    obtain ⟨rfl, -⟩ := trace_pure_iff.mp h
    exact hone rfl (Nat.zero_le 1)
  | webSearch =>
    rw [hmode] at h
    exact hone (commands_webSearch h) (Nat.le_refl 1)
  | smart =>
    rw [hmode] at h
    have hlength := (isPrefix_smart h).length_le
    rw [List.length_map, List.length_map, List.length_take] at hlength
    omega
  | deepResearch =>
    rw [hmode] at h
    exact length_deepResearch h

/-- What a mode dispatches that does not search of itself is planned. -/
theorem planned_of_dispatch {out : Except PyRaise WorkflowResult} (hmode : plan.mode.searchesItself = false)
    (h : (ModeDispatcher.dispatch st.planner plan ctx).Trace T out) :
    ∀ step ∈ T, ∀ call ∈ step.1.calls, call ∈ plan.tools := by
  have hplanned : ∀ {mode}, (planned mode plan ctx).Trace T out →
      ∀ step ∈ T, ∀ call ∈ step.1.calls, call ∈ plan.tools := by
    intro mode h step hstep call hcall
    have hcommands := commands_planned h
    have hmem : step.1 ∈ T.map Sigma.fst := List.mem_map_of_mem hstep
    rw [hcommands] at hmem
    split at hmem
    · cases hmem
    · rw [List.mem_singleton.mp hmem] at hcall
      exact hcall
  rw [ModeDispatcher.dispatch] at h
  cases hplan : plan.mode with
  | default | tutor | code =>
    rw [hplan] at h
    exact hplanned h
  | askFiles =>
    rw [hplan] at h
    obtain ⟨rfl, -⟩ := trace_pure_iff.mp h
    exact List.forall_mem_nil _
  | webSearch | smart | deepResearch =>
    rw [hplan] at hmode
    cases hmode

/-- The tools that the workflow is given are named in the plan of the analysis. -/
theorem toolName_of_prepare (hcalls : ToolSelection.buildSelectedCalls req.selectedTools
      (some st.dispatcher.registry) req.userMessage = .ok calls) {call : ToolCall}
    (hcall : call ∈ (st.prepare req calls).plan.tools) :
    ∃ planned ∈ req.plan.tools, planned.toolName = call.toolName := by
  rw [(prepare_plan hcalls).2.2.2] at hcall
  have hrewritten := (List.mem_filter.mp hcall).1
  rw [rewrittenTools, rewriteQueries] at hrewritten
  split at hrewritten
  · obtain ⟨planned, hplanned, rfl⟩ := List.mem_map.mp hrewritten
    rw [(st.applyRequestedMode_eq _ _).1] at hplanned
    exact ⟨planned, hplanned, (toolName_rewritePlanned _ _ _ _).symm⟩
  · change call ∈ (st.applyRequestedMode req.plan req.requestedMode).tools at hrewritten
    rw [(st.applyRequestedMode_eq _ _).1] at hrewritten
    exact ⟨call, hrewritten, rfl⟩

/-- Whatever is answered to an analysis, and however the run of its plan ends, it has dispatched no
more often than the configuration allows the mode, and once more for the selected tools; and with the
search disabled, a mode that does not search of itself executes no search that was not selected. -/
theorem plannedRun_bounded {fileIds : List String} {ta : AnalysisTrace} {plan : AnalysisPlan}
    {out : Except PyRaise WorkflowResult} (hlimits : SameLimits st an.config)
    (hanalysis : (an.analyze fileIds).Trace ta (.ok plan)) (hplan : req.plan = plan.toExecutionPlan)
    (h : (st.run req).Trace T out) :
    (T.length : Int) ≤ an.config.allowed (mode req) + 1 ∧
      (an.config.enableWebSearch = false → (mode req).searchesItself = false →
        "web_search" ∉ ToolSelection.normalizeSelection req.selectedTools →
        ∀ step ∈ T, ∀ call ∈ step.1.calls, call.toolName ≠ "web_search") := by
  have hsafe := safe_of_analyze hanalysis
  have hone := an.config.one_le_allowed (mode req)
  rcases run_parts h with rfl | ⟨calls, T₁, T₂, r, hcalls, hworkflow, hforced, rfl⟩
  · refine ⟨?_, fun _ _ _ => List.forall_mem_nil _⟩
    rw [List.length_nil]
    omega
  obtain ⟨hmode, hiterations, -, -⟩ := prepare_plan hcalls
  constructor
  · have hallowed : st.iterations req ≤ an.config.allowed (mode req) := by
      refine iterations_le_allowed hlimits ?_
      rw [hplan]
      exact hsafe.iterations
    have hfirst := length_dispatch_le hworkflow
    rw [hiterations] at hfirst
    have hlast : T₂.length ≤ 1 := by
      rcases hforced with rfl | hforced
      · exact Nat.zero_le 1
      · have hlength := congrArg List.length hforced
        rw [List.length_map, List.length_singleton] at hlength
        exact hlength.le
    rw [List.length_append]
    omega
  · intro hdisabled hitself hselected step hstep call hcall
    rcases List.mem_append.mp hstep with hstep | hstep
    · have hplanned := planned_of_dispatch (by rw [hmode]; exact hitself) hworkflow step hstep call hcall
      obtain ⟨planned, hmem, hname⟩ := toolName_of_prepare hcalls hplanned
      rw [hplan] at hmem
      rw [← hname]
      exact hsafe.search hdisabled planned hmem
    · rcases hforced with rfl | hforced
      · cases hstep
      · have hmem : step.1 ∈ T₂.map Sigma.fst := List.mem_map_of_mem hstep
        rw [hforced, List.mem_singleton] at hmem
        rw [hmem] at hcall
        have hname : call.toolName ∈ (st.prepare req calls).selectedCalls.map (·.toolName) :=
          List.mem_map_of_mem hcall
        rw [(prepare_selectedCalls hcalls).1] at hname
        intro hsearch
        rw [hsearch] at hname
        exact hselected (mem_forcedNames.mp hname).1

/-- The analyser of `limitedRun`, where the search is disabled. -/
def offline : RequestAnalyzer := { twoModels with config := { enableWebSearch := false } }

/-- The plan of a model: a search, and a sum. -/
def plannedSearch : Text :=
  ['\x7b', '"', 't', 'o', 'o', 'l', 's', '"', ':', '[',
    '\x7b', '"', 't', 'o', 'o', 'l', '_', 'n', 'a', 'm', 'e', '"', ':',
      '"', 'w', 'e', 'b', '_', 's', 'e', 'a', 'r', 'c', 'h', '"', '\x7d', ',',
    '\x7b', '"', 't', 'o', 'o', 'l', '_', 'n', 'a', 'm', 'e', '"', ':',
      '"', 's', 'u', 'm', '"', '\x7d', ']', '\x7d']

/-- Groq answers with it. -/
def searchPlanned : (c : AnalysisCommand) → AnalysisReply c
  | .ask .groq => .ok (some plannedSearch)
  | c => limitReached c

/-- The plan that is made then. -/
def offlinePlan : AnalysisPlan :=
  match ((offline.analyze []).follow searchPlanned).2 with
  | .ok plan => plan
  | .error _ => safeDefaultPlan

/-- A request that the plan decides, with a tool that the user selects. -/
def plannedRequest (plan : ExecutionPlan) : ToolRequest where
  userMessage := "rust"
  selectedTools := ["mean"]
  requestedMode := none
  plan

/-- The stages, with the tool that is selected. -/
def meanStages : ToolStages :=
  { searchStages with dispatcher := ⟨ToolRegistry.empty.register { name := "mean" }⟩ }

/-- The planned sum returns, and the selected mean is cancelled. -/
def meanCancelled : (c : DispatchCommand) → DispatchReply c
  | .dispatch calls _ => if calls.any (·.toolName = "mean") then .error .cancelled else .ok []

/-- What is dispatched then. -/
def offlineTrace : DispatchTrace :=
  ((meanStages.run (plannedRequest offlinePlan.toExecutionPlan)).follow meanCancelled).1

theorem plannedRun_bounded_offline :
    offlineTrace.map (fun step => step.1.calls.map (·.toolName)) = [["sum"], ["mean"]] ∧
      (offlineTrace.length : Int) ≤ 2 ∧
      ∀ step ∈ offlineTrace, ∀ call ∈ step.1.calls, call.toolName ≠ "web_search" := by
  have hanalysis := trace_follow searchPlanned (offline.analyze [])
  have hplan : ((offline.analyze []).follow searchPlanned).2 = .ok offlinePlan := rfl
  rw [hplan] at hanalysis
  have hrun := trace_follow meanCancelled (meanStages.run (plannedRequest offlinePlan.toExecutionPlan))
  obtain ⟨hlength, hsearches⟩ := plannedRun_bounded ⟨rfl, rfl⟩ hanalysis rfl hrun
  exact ⟨rfl, hlength, hsearches rfl rfl (by decide)⟩

end RequestAnalyzer

end LlmService
