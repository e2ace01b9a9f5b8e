import LlmService.Tools.Selection
import LlmService.Workflow.Executions
import LlmService.Workflow.Modes

/-!
# The tools that a message selects

The stages of `RequestPipeline.run` between the analysis and the prompt: the
calls of the selected tools, the mode that was asked for, the query of a
search, the workflow, and the forced dispatch behind it. Tools that are
selected are taken out of the plan so that the workflow does not execute them;
the searches of a workflow are not all of the plan.
-/

namespace LlmService

/-- What the tool stages use that is not the request's. -/
structure ToolStages where
  dispatcher : ToolDispatcher
  planner : SmartPlanner
  /-- `query_rewriter.rewrite`, which never raises. -/
  rewrite : String → String
  /-- `langgraph_max_loop_iterations_smart`. -/
  smartIterations : Int
  /-- `langgraph_max_loop_iterations_deep_research`. -/
  deepResearchIterations : Int
  smartIterations_ge : 1 ≤ smartIterations := by decide
  deepResearchIterations_ge : 1 ≤ deepResearchIterations := by decide

/-- What they read of a request: the message is redacted, the tools are those
that saved defaults have left, and the plan is the analyser's. -/
structure ToolRequest where
  userMessage : String
  selectedTools : List String
  requestedMode : Option UserMode
  plan : ExecutionPlan
  ids : DispatchIds := {}

namespace ToolStages

/-- `apply_requested_mode`. -/
def applyRequestedMode (st : ToolStages) (plan : ExecutionPlan) :
    Option UserMode → ExecutionPlan
  | none => plan
  | some .smart =>
    { plan with
      mode := .smart
      maxIterations := st.smartIterations
      maxIterations_ge := st.smartIterations_ge }
  | some .deepResearch =>
    { plan with
      mode := .deepResearch
      maxIterations := st.deepResearchIterations
      maxIterations_ge := st.deepResearchIterations_ge }
  | some mode => { plan with mode, maxIterations := 1, maxIterations_ge := le_rfl }

/-! ## The query of a search -/

/-- `any(c.tool_name == "web_search" for c in calls)`. -/
def hasSearch (calls : List ToolCall) : Bool := calls.any fun c => c.toolName = "web_search"

/-- Whether `ctx.search_query` is made. -/
def searches (plan : ExecutionPlan) (selectedCalls : List ToolCall) : Bool :=
  plan.mode = .webSearch || hasSearch plan.tools || hasSearch selectedCalls

/-- `c.params["query"] = ctx.search_query`. -/
def withQuery (query : String) (c : ToolCall) : ToolCall :=
  { c with params := c.params.insert "query" (.string query) }

def rewriteSelected (query : String) (c : ToolCall) : ToolCall :=
  if c.toolName = "web_search" ∧ "query" ∈ c.params then withQuery query c else c

/-- `str(t_.params.get("query", "")).strip()`. -/
def askedQuery (p : SmartPlanner) (c : ToolCall) : String :=
  PyText.stripStr (((c.params.lookup "query").map p.pyStr).getD "")

def rewritePlanned (p : SmartPlanner) (userMessage query : String) (c : ToolCall) : ToolCall :=
  if c.toolName = "web_search" ∧
      (askedQuery p c = "" ∨ askedQuery p c = PyText.stripStr userMessage) then
    withQuery query c
  else c

/-! ## The stages -/

/-- What the workflow and the forced dispatch are given. -/
structure Prepared where
  plan : ExecutionPlan
  selectedCalls : List ToolCall
  searchQuery : Option String := none

def rewriteQueries (st : ToolStages) (userMessage : String) (plan : ExecutionPlan)
    (selectedCalls : List ToolCall) : Prepared :=
  if searches plan selectedCalls then
    let query := st.rewrite userMessage
    { plan := { plan with tools := plan.tools.map (rewritePlanned st.planner userMessage query) }
      selectedCalls := selectedCalls.map (rewriteSelected query)
      searchQuery := some query }
  else { plan, selectedCalls }

/-- The plan, without the tools that were chosen. -/
def withoutChosen (prepared : Prepared) : Prepared :=
  if prepared.selectedCalls = [] then prepared
  else
    let chosen := prepared.selectedCalls.map (·.toolName)
    { prepared with
      plan := { prepared.plan with tools := prepared.plan.tools.filter (·.toolName ∉ chosen) } }

def prepare (st : ToolStages) (req : ToolRequest) (calls : List ToolCall) : Prepared :=
  let plan := st.applyRequestedMode req.plan req.requestedMode
  withoutChosen (st.rewriteQueries req.userMessage plan
    (ToolSelection.dropCallsCoveredByMode calls plan.mode))

/-- `if selected_calls`: the forced dispatch. -/
def dispatchSelected (prepared : Prepared) (ids : DispatchIds) :
    WorkflowScript (List ToolResult) :=
  if prepared.selectedCalls = [] then return [] else dispatchCalls prepared.selectedCalls ids

/-- The tool stages of `run`. -/
def run (st : ToolStages) (req : ToolRequest) : WorkflowScript WorkflowResult :=
  match ToolSelection.buildSelectedCalls req.selectedTools (some st.dispatcher.registry)
    req.userMessage with
  | .error exc => throw (.exception exc)
  | .ok calls => do
    let prepared := st.prepare req calls
    let result ← ModeDispatcher.dispatch st.planner prepared.plan
      { userMessage := req.userMessage, searchQuery := prepared.searchQuery }
    let forced ← dispatchSelected prepared req.ids
    return { result with toolOutputs := result.toolOutputs ++ forced }

/-! ## What is prepared -/

section Prepare

open ToolSelection

variable {st : ToolStages} {req : ToolRequest} {p : SmartPlanner} {userMessage query : String}
  {plan : ExecutionPlan} {calls : List ToolCall}

@[simp] theorem toolName_rewriteSelected (query : String) (c : ToolCall) :
    (rewriteSelected query c).toolName = c.toolName := by
  rw [rewriteSelected]
  split
  · rfl
  · rfl

@[simp] theorem required_rewriteSelected (query : String) (c : ToolCall) :
    (rewriteSelected query c).required = c.required := by
  rw [rewriteSelected]
  split
  · rfl
  · rfl

@[simp] theorem toolName_rewritePlanned (p : SmartPlanner) (userMessage query : String)
    (c : ToolCall) : (rewritePlanned p userMessage query c).toolName = c.toolName := by
  rw [rewritePlanned]
  split
  · rfl
  · rfl

theorem rewritePlanned_of_ne {c : ToolCall} (h : c.toolName ≠ "web_search") :
    rewritePlanned p userMessage query c = c := by
  rw [rewritePlanned, if_neg fun hsearch => h hsearch.1]

/-- The query is the only change: names, requirement and mode stay. -/
theorem rewriteQueries_calls (st : ToolStages) (userMessage : String) (plan : ExecutionPlan)
    (calls : List ToolCall) :
    (st.rewriteQueries userMessage plan calls).selectedCalls.map (·.toolName) =
        calls.map (·.toolName) ∧
      ((∀ c ∈ calls, c.required = true) →
        ∀ c ∈ (st.rewriteQueries userMessage plan calls).selectedCalls, c.required = true) := by
  rw [rewriteQueries]
  split
  · constructor
    · rw [List.map_map]
      exact List.map_congr_left fun c _ => toolName_rewriteSelected _ c
    · intro hrequired c hc
      obtain ⟨c', hc', rfl⟩ := List.mem_map.mp hc
      rw [required_rewriteSelected]
      exact hrequired c' hc'
  · exact ⟨rfl, id⟩

/-- The mode that the request is executed in. -/
def mode (req : ToolRequest) : UserMode := req.requestedMode.getD req.plan.mode

/-- The iterations that it is given. -/
def iterations (st : ToolStages) (req : ToolRequest) : Int :=
  (st.applyRequestedMode req.plan req.requestedMode).maxIterations

theorem mode_applyRequestedMode (st : ToolStages) (plan : ExecutionPlan)
    (requested : Option UserMode) :
    (st.applyRequestedMode plan requested).mode = requested.getD plan.mode := by
  cases requested with
  | none => rfl
  | some mode =>
    cases mode with
    | default | tutor | code | askFiles | webSearch | smart | deepResearch => rfl

/-- Whether a tool is executed by the mode, and not by the forced dispatch. -/
def Covered (req : ToolRequest) (n : String) : Prop := mode req = .webSearch ∧ n = "web_search"

instance (req : ToolRequest) (n : String) : Decidable (Covered req n) :=
  inferInstanceAs (Decidable (_ ∧ _))

/-- The names of the calls that are forced. -/
def forcedNames (req : ToolRequest) : List String :=
  (normalizeSelection req.selectedTools).filter fun n => !decide (Covered req n)

theorem mem_forcedNames {n : String} :
    n ∈ forcedNames req ↔ n ∈ normalizeSelection req.selectedTools ∧ ¬ Covered req n := by
  rw [forcedNames, List.mem_filter, Bool.not_eq_true', decide_eq_false_iff_not]

/-- The asked mode changes the mode and the iterations only. -/
theorem applyRequestedMode_eq (st : ToolStages) (plan : ExecutionPlan)
    (requested : Option UserMode) :
    (st.applyRequestedMode plan requested).tools = plan.tools ∧
      (st.applyRequestedMode plan requested).isFallback = plan.isFallback := by
  cases requested with
  | none => exact ⟨rfl, rfl⟩
  | some mode =>
    cases mode with
    | default | tutor | code | askFiles | webSearch | smart | deepResearch => exact ⟨rfl, rfl⟩

theorem map_toolName_dropCallsCoveredByMode (calls : List ToolCall) (mode : UserMode) :
    (dropCallsCoveredByMode calls mode).map (·.toolName) =
      (calls.map (·.toolName)).filter fun n => !decide (mode = .webSearch ∧ n = "web_search") := by
  rw [List.filter_map, dropCallsCoveredByMode]
  refine congrArg (List.map _) (List.filter_congr fun c _ => ?_)
  by_cases hmode : mode = .webSearch
  · simp [hmode]
  · simp [hmode]

/-- What is forced are the selected tools that the mode does not cover, all of them required. -/
theorem prepare_selectedCalls (h : buildSelectedCalls req.selectedTools
      (some st.dispatcher.registry) req.userMessage = .ok calls) :
    (st.prepare req calls).selectedCalls.map (·.toolName) = forcedNames req ∧
      ∀ c ∈ (st.prepare req calls).selectedCalls, c.required = true := by
  obtain ⟨hnames, hrequired⟩ := buildSelectedCalls_eq h
  have hsame : (st.prepare req calls).selectedCalls = (st.rewriteQueries req.userMessage
      (st.applyRequestedMode req.plan req.requestedMode) (dropCallsCoveredByMode calls
        (st.applyRequestedMode req.plan req.requestedMode).mode)).selectedCalls := by
    rw [prepare, withoutChosen]
    split
    · rfl
    · rfl
  rw [hsame]
  obtain ⟨hrewritten, hstill⟩ := rewriteQueries_calls st req.userMessage
    (st.applyRequestedMode req.plan req.requestedMode) (dropCallsCoveredByMode calls
      (st.applyRequestedMode req.plan req.requestedMode).mode)
  constructor
  · rw [hrewritten, map_toolName_dropCallsCoveredByMode, mode_applyRequestedMode, hnames]
    rfl
  · exact hstill fun c hc => hrequired c (List.mem_of_mem_filter hc)

/-- The calls of the plan, with the query that is made for a search. -/
def rewrittenTools (st : ToolStages) (req : ToolRequest) (calls : List ToolCall) : List ToolCall :=
  (st.rewriteQueries req.userMessage (st.applyRequestedMode req.plan req.requestedMode)
    (dropCallsCoveredByMode calls
      (st.applyRequestedMode req.plan req.requestedMode).mode)).plan.tools

theorem prepare_plan (h : buildSelectedCalls req.selectedTools
      (some st.dispatcher.registry) req.userMessage = .ok calls) :
    (st.prepare req calls).plan.mode = mode req ∧
      (st.prepare req calls).plan.maxIterations = st.iterations req ∧
      (st.prepare req calls).plan.isFallback = req.plan.isFallback ∧
      (st.prepare req calls).plan.tools =
        (st.rewrittenTools req calls).filter (·.toolName ∉ forcedNames req) := by
  have hkept : ∀ (message : String) (plan : ExecutionPlan) (calls : List ToolCall),
      (st.rewriteQueries message plan calls).plan.mode = plan.mode ∧
        (st.rewriteQueries message plan calls).plan.maxIterations = plan.maxIterations ∧
        (st.rewriteQueries message plan calls).plan.isFallback = plan.isFallback := by
    intro message plan calls
    rw [rewriteQueries]
    split
    · exact ⟨rfl, rfl, rfl⟩
    · exact ⟨rfl, rfl, rfl⟩
  obtain ⟨hnames, -⟩ := prepare_selectedCalls h
  obtain ⟨hmode, hiterations, hfallback⟩ := hkept req.userMessage
    (st.applyRequestedMode req.plan req.requestedMode) (dropCallsCoveredByMode calls
      (st.applyRequestedMode req.plan req.requestedMode).mode)
  have hmode' := hmode.trans (mode_applyRequestedMode st req.plan req.requestedMode)
  rw [(st.applyRequestedMode_eq _ _).2] at hfallback
  rw [prepare, withoutChosen] at hnames ⊢
  rw [rewrittenTools]
  generalize st.rewriteQueries req.userMessage (st.applyRequestedMode req.plan req.requestedMode)
    (dropCallsCoveredByMode calls (st.applyRequestedMode req.plan req.requestedMode).mode) =
      prepared at hnames hmode' hiterations hfallback ⊢
  by_cases hnil : prepared.selectedCalls = []
  · rw [if_pos hnil, hnil] at hnames
    rw [if_pos hnil, ← hnames]
    refine ⟨hmode', hiterations, hfallback, (List.filter_eq_self.mpr fun c _ => ?_).symm⟩
    exact decide_eq_true List.not_mem_nil
  · rw [if_neg hnil] at hnames ⊢
    rw [← hnames]
    exact ⟨hmode', hiterations, hfallback, rfl⟩

/-- Where a search is selected and forced, nothing of the query is left in the plan. -/
theorem tools_of_forced (h : buildSelectedCalls req.selectedTools
      (some st.dispatcher.registry) req.userMessage = .ok calls)
    (hforced : "web_search" ∈ forcedNames req) :
    (st.prepare req calls).plan.tools = req.plan.tools.filter (·.toolName ∉ forcedNames req) := by
  rw [(prepare_plan h).2.2.2, rewrittenTools, rewriteQueries]
  split
  · show (((st.applyRequestedMode req.plan req.requestedMode).tools.map _).filter _) = _
    rw [(st.applyRequestedMode_eq _ _).1]
    induction req.plan.tools with
    | nil => rfl
    | cons c tools ih =>
      rw [List.map_cons, List.filter_cons, List.filter_cons, ih, toolName_rewritePlanned]
      by_cases hsearch : c.toolName = "web_search"
      · rw [hsearch, if_neg (by simpa using hforced), if_neg (by simpa using hforced)]
      · rw [rewritePlanned_of_ne hsearch]
  · show ((st.applyRequestedMode req.plan req.requestedMode).tools.filter _) = _
    rw [(st.applyRequestedMode_eq _ _).1]

/-- Where the mode covers the search, it has the query that is made for it. -/
theorem tools_of_covered (h : buildSelectedCalls req.selectedTools
      (some st.dispatcher.registry) req.userMessage = .ok calls)
    (hmode : mode req = .webSearch) :
    (st.prepare req calls).plan.tools =
      (req.plan.tools.map (rewritePlanned st.planner req.userMessage
        (st.rewrite req.userMessage))).filter (·.toolName ∉ forcedNames req) := by
  have hsearches : ∀ calls, searches (st.applyRequestedMode req.plan req.requestedMode) calls =
      true := by
    intro calls
    rw [searches, mode_applyRequestedMode, ← mode, hmode]
    rfl
  rw [(prepare_plan h).2.2.2, rewrittenTools, rewriteQueries, if_pos (hsearches _)]
  show (((st.applyRequestedMode req.plan req.requestedMode).tools.map _).filter _) = _
  rw [(st.applyRequestedMode_eq _ _).1]

end Prepare

/-! ## A run of the stages -/

section Run

open Script ToolDispatcher ToolSelection

variable {st : ToolStages} {req : ToolRequest} {T : DispatchTrace} {t : ToolTrace}
  {result : WorkflowResult} {calls : List ToolCall} {n : String}

/-- The forced dispatch. -/
theorem commands_dispatchSelected {prepared : Prepared} {ids : DispatchIds}
    {reply : Except PyRaise (List ToolResult)} (h : (dispatchSelected prepared ids).Trace T reply) :
    T.map Sigma.fst =
      if prepared.selectedCalls = [] then [] else [.dispatch prepared.selectedCalls ids] := by
  rw [dispatchSelected] at h
  by_cases hnil : prepared.selectedCalls = []
  · rw [if_pos hnil] at h ⊢
    obtain ⟨rfl, -⟩ := trace_pure_iff.mp h
    rfl
  · rw [if_neg hnil] at h ⊢
    exact commands_dispatchCalls h

/-- What the stages give the workflow. -/
def workflow (st : ToolStages) (req : ToolRequest) (calls : List ToolCall) :
    WorkflowScript WorkflowResult :=
  ModeDispatcher.dispatch st.planner (st.prepare req calls).plan
    { userMessage := req.userMessage, searchQuery := (st.prepare req calls).searchQuery }

theorem strict_run (st : ToolStages) (req : ToolRequest) : Strict (st.run req) := by
  rw [run]
  cases buildSelectedCalls req.selectedTools (some st.dispatcher.registry) req.userMessage with
  | error exc => exact strict_throw _
  | ok calls =>
    refine strict_dispatch.bind fun r => Strict.bind ?_ fun forced => strict_pure _
    rw [dispatchSelected]
    split
    · exact strict_pure _
    · exact strict_dispatchCalls _ _

/-- The workflow, and then the forced dispatch. -/
theorem run_trace (h : (st.run req).Trace T (.ok result)) :
    ∃ calls T₁ T₂ r, buildSelectedCalls req.selectedTools (some st.dispatcher.registry)
        req.userMessage = .ok calls ∧ (st.workflow req calls).Trace T₁ (.ok r) ∧
      (T₂.map Sigma.fst = if (st.prepare req calls).selectedCalls = [] then []
        else [.dispatch (st.prepare req calls).selectedCalls req.ids]) ∧ T = T₁ ++ T₂ := by
  rw [run] at h
  cases hcalls : buildSelectedCalls req.selectedTools (some st.dispatcher.registry)
    req.userMessage with
  | error exc =>
    rw [hcalls] at h
    cases (trace_throw_iff.mp h).2
  | ok calls =>
    rw [hcalls] at h
    obtain ⟨r, T₁, T₂, hworkflow, hrest, rfl⟩ := trace_bind_ok_iff.mp h
    obtain ⟨forced, T₃, T₄, hforced, hpure, rfl⟩ := trace_bind_ok_iff.mp hrest
    obtain ⟨rfl, -⟩ := trace_pure_iff.mp hpure
    rw [List.append_nil]
    exact ⟨calls, T₁, T₃, r, rfl, hworkflow, commands_dispatchSelected hforced, rfl⟩

/-- However a run ends, it has come so far: to nothing, to the workflow, or to the forced dispatch. -/
theorem run_parts {out : Except PyRaise WorkflowResult} (h : (st.run req).Trace T out) :
    T = [] ∨ ∃ calls T₁ T₂ r, buildSelectedCalls req.selectedTools (some st.dispatcher.registry)
        req.userMessage = .ok calls ∧ (st.workflow req calls).Trace T₁ r ∧
      (T₂ = [] ∨ T₂.map Sigma.fst = [.dispatch (st.prepare req calls).selectedCalls req.ids]) ∧
      T = T₁ ++ T₂ := by
  rw [run] at h
  cases hcalls : buildSelectedCalls req.selectedTools (some st.dispatcher.registry)
    req.userMessage with
  | error exc =>
    rw [hcalls] at h
    exact .inl (trace_throw_iff.mp h).1
  | ok calls =>
    right
    rw [hcalls] at h
    rcases trace_bind_iff.mp h with ⟨e, hworkflow, -⟩ | ⟨r, T₁, T₂, hworkflow, hrest, rfl⟩
    · exact ⟨calls, T, [], _, rfl, hworkflow, .inl rfl, (List.append_nil T).symm⟩
    · refine ⟨calls, T₁, T₂, _, rfl, hworkflow, ?_, rfl⟩
      obtain ⟨reply, hforced⟩ := exists_trace_of_bind_pure hrest
      have hcommands := commands_dispatchSelected hforced
      split at hcommands
      · exact .inl (List.map_eq_nil_iff.mp hcommands)
      · exact .inr hcommands

/-- The forced dispatch executes each of its tools once. -/
theorem executions_forced (hcalls : buildSelectedCalls req.selectedTools
      (some st.dispatcher.registry) req.userMessage = .ok calls)
    (hT : T.map Sigma.fst = if (st.prepare req calls).selectedCalls = [] then []
      else [.dispatch (st.prepare req calls).selectedCalls req.ids])
    (hruns : ∀ x ∈ dispatchedCalls T, x.2.required = true → st.dispatcher.Runs x.1 x.2) :
    st.dispatcher.executions n T = (forcedNames req).count n := by
  obtain ⟨hnames, hrequired⟩ := prepare_selectedCalls hcalls
  by_cases hnil : (st.prepare req calls).selectedCalls = []
  · rw [if_pos hnil] at hT
    rw [hnil] at hnames
    obtain rfl := List.map_eq_nil_iff.mp hT
    rw [← hnames]
    rfl
  · rw [if_neg hnil] at hT
    rw [executions_of_dispatch hT, ← hnames, List.count_eq_countP, List.countP_map]
    refine List.countP_congr fun call hcall => ?_
    have hmem : (req.ids, call) ∈ dispatchedCalls T :=
      mem_dispatchedCalls (c := .dispatch _ req.ids) (by rw [hT]; exact List.mem_singleton_self _)
        hcall
    have hrun := hruns _ hmem (hrequired call hcall)
    simp [hrun]

/-- How often a tool is executed: by the workflow, and by the forced dispatch. -/
theorem run_split (h : (st.dispatcher.carryOut (st.run req)).Trace t (.ok result)) :
    ∃ calls T r, buildSelectedCalls req.selectedTools (some st.dispatcher.registry)
        req.userMessage = .ok calls ∧ (st.workflow req calls).Trace T (.ok r) ∧
      (∀ n, (executed t).count n = st.dispatcher.executions n T + (forcedNames req).count n) ∧
      (∀ x ∈ dispatchedCalls T, x.2.required = true → st.dispatcher.Runs x.1 x.2) ∧
      ∀ step ∈ T, ∃ t', (st.dispatcher.reply step.1).Trace t' (.ok step.2) := by
  obtain ⟨T, hT, hcarried⟩ := exists_carriedOut reply_ok h
  have hreturn := strict_run st req T result hT
  obtain ⟨calls, T₁, T₂, r, hcalls, hworkflow, hforced, rfl⟩ := run_trace hT
  have hruns := (executions_of_carriedOut hcarried hreturn "").2
  rw [dispatchedCalls_append] at hruns
  refine ⟨calls, T₁, r, hcalls, hworkflow, fun n => ?_, fun x hx => ?_, fun step hstep => ?_⟩
  · rw [(executions_of_carriedOut hcarried hreturn n).1, executions_append,
      executions_forced hcalls hforced fun x hx => hruns x (List.mem_append_right _ hx)]
  · exact hruns x (List.mem_append_left _ hx)
  · exact hcarried.of_mem (List.mem_append_left _ hstep)

/-! ## Each selected tool once -/

/-- Where a search is selected, the mode executes it once if it covers it, and not at all if it
does not. -/
def SearchOnce (st : ToolStages) (req : ToolRequest) : Prop :=
  match mode req with
  | .default | .tutor | .code | .askFiles => True
  | .webSearch =>
    hasSearch req.plan.tools = false ∨
      (req.plan.tools.countP fun c => c.toolName = "web_search" ∧ st.dispatcher.Runs {}
        (rewritePlanned st.planner req.userMessage (st.rewrite req.userMessage) c)) = 1
  | .smart =>
    ∀ task ∈ (Smart.planSubTasks st.planner req.userMessage
        (req.plan.tools.filter (·.toolName ∉ normalizeSelection req.selectedTools))
        req.plan.isFallback).take (st.iterations req).toNat,
      Smart.SubTask.tool task = "web_search" →
        ¬ st.dispatcher.Runs {} (Smart.dispatched req.userMessage task)
  | .deepResearch =>
    ∀ k : Nat, (k : Int) < max 1 (st.iterations req) →
      ¬ st.dispatcher.Runs {} (DeepResearch.searchCall (DeepResearch.queryAt req.userMessage k))

theorem count_forcedNames (hn : n ∈ normalizeSelection req.selectedTools) :
    (forcedNames req).count n = if Covered req n then 0 else 1 := by
  have hnodup : (forcedNames req).Nodup := (nodup_normalizeSelection req.selectedTools).filter _
  split
  · rename_i hcovered
    exact List.count_eq_zero.mpr fun hmem => (mem_forcedNames.mp hmem).2 hcovered
  · rename_i hcovered
    exact List.count_eq_one_of_mem hnodup (mem_forcedNames.mpr ⟨hn, hcovered⟩)

/-- A tool that is forced is none of the plan. -/
theorem not_planned_of_forced (hcalls : buildSelectedCalls req.selectedTools
      (some st.dispatcher.registry) req.userMessage = .ok calls) (hn : n ∈ forcedNames req) :
    ∀ planned ∈ (st.prepare req calls).plan.tools, planned.toolName ≠ n := by
  intro planned hplanned hname
  rw [(prepare_plan hcalls).2.2.2] at hplanned
  have hnot := of_decide_eq_true (List.mem_filter.mp hplanned).2
  rw [hname] at hnot
  exact hnot hn

/-- The workflow executes no forced tool but the search. -/
theorem executions_workflow_of_ne (hcalls : buildSelectedCalls req.selectedTools
      (some st.dispatcher.registry) req.userMessage = .ok calls) (hn : n ∈ forcedNames req)
    (hne : n ≠ "web_search") (h : (st.workflow req calls).Trace T (.ok result)) :
    st.dispatcher.executions n T = 0 := by
  refine executions_eq_zero_iff.mpr fun c hc call hcall hname => ?_
  rcases named_dispatch h c hc call hcall with hsearch | ⟨planned, hplanned, hsame⟩
  · exact absurd (hname.symm.trans hsearch) hne
  · exact absurd (hsame.trans hname) (not_planned_of_forced hcalls hn planned hplanned)

/-- A research whose searches are not executed finds nothing. -/
theorem found_of_unexecuted {d : ToolDispatcher} {queries : Nat → String} {step : Σ c, DispatchReply c}
    (hcommands : T.map Sigma.fst = (List.range T.length).map fun k =>
      .dispatch [DeepResearch.searchCall (queries k)] {})
    (hnone : ∀ c ∈ (List.range T.length).map fun k =>
        DispatchCommand.dispatch [DeepResearch.searchCall (queries k)] {},
      ∀ call ∈ c.calls, call.toolName = "web_search" → ¬ d.Runs c.ids call)
    (hstep : step ∈ T) (hcarried : ∃ t', (d.reply step.1).Trace t' (.ok step.2)) :
    ∀ results, step.2 = .ok results → results.flatMap (·.found) = [] := by
  intro results hresults
  have hmem : step.1 ∈ T.map Sigma.fst := List.mem_map_of_mem hstep
  rw [hcommands] at hmem
  obtain ⟨t', hreply⟩ := hcarried
  obtain ⟨c, reply⟩ := step
  obtain ⟨k, -, rfl⟩ := List.mem_map.mp hmem
  rcases reply_trace hreply with ⟨results', hr, hdispatch⟩ | ⟨e, hr⟩
  · obtain rfl : results = results' := Except.ok.inj (hresults.symm.trans (Except.ok.inj hr))
    have hfailed := dispatch_unexecuted rfl hdispatch
      (hnone _ hmem _ (List.mem_singleton_self _) rfl)
    refine List.flatMap_eq_nil_iff.mpr fun result hresult => ?_
    rw [ToolResult.found, hfailed result hresult]
    rfl
  · obtain rfl := Except.ok.inj hr
    cases hresults

/-- What is planned does not search where the search is forced. -/
theorem executions_planned (hcalls : buildSelectedCalls req.selectedTools
      (some st.dispatcher.registry) req.userMessage = .ok calls)
    (hforced : "web_search" ∈ forcedNames req) {m : UserMode} {ctx : WorkflowContext}
    (h : (planned m (st.prepare req calls).plan ctx).Trace T (.ok result)) :
    st.dispatcher.executions "web_search" T = 0 := by
  refine executions_eq_zero_iff.mpr fun c hc call hcall hname => ?_
  rw [commands_planned h] at hc
  split at hc
  · cases hc
  · rw [List.mem_singleton.mp hc] at hcall
    exact absurd hname (not_planned_of_forced hcalls hforced call hcall)

theorem executions_smart_iff {d : ToolDispatcher} {plan : ExecutionPlan} {ctx : WorkflowContext}
    (h : (ModeDispatcher.smart st.planner plan ctx).Trace T (.ok result)) :
    d.executions "web_search" T = 0 ↔
      ∀ task ∈ (Smart.planSubTasks st.planner ctx.userMessage plan.tools plan.isFallback).take
        plan.maxIterations.toNat, Smart.SubTask.tool task = "web_search" →
          ¬ d.Runs {} (Smart.dispatched ctx.userMessage task) := by
  rw [executions_eq_zero_iff, commands_smart h]
  constructor
  · intro hnone task htask hsearch
    exact hnone _ (List.mem_map_of_mem htask) _ (List.mem_singleton_self _) hsearch
  · intro hnone c hc call hcall hname
    obtain ⟨task, htask, rfl⟩ := List.mem_map.mp hc
    rw [List.mem_singleton.mp hcall] at hname ⊢
    exact hnone task htask hname

/-- A research that executes no search asks all the queries that it can. -/
theorem executions_deepResearch_iff {d : ToolDispatcher} {plan : ExecutionPlan}
    {ctx : WorkflowContext}
    (h : (ModeDispatcher.deepResearch st.planner plan ctx).Trace T (.ok result))
    (hcarried : ∀ step ∈ T, ∃ t', (d.reply step.1).Trace t' (.ok step.2)) :
    d.executions "web_search" T = 0 ↔ ∀ k : Nat, (k : Int) < max 1 plan.maxIterations →
      ¬ d.Runs {} (DeepResearch.searchCall (DeepResearch.queryAt ctx.userMessage k)) := by
  obtain ⟨hcommands, hle, hspent⟩ := commands_deepResearch h
  rw [executions_eq_zero_iff, hcommands]
  constructor
  · intro hnone k hk
    have hlength := hspent fun step hstep => found_of_unexecuted hcommands hnone hstep
      (hcarried step hstep)
    refine hnone _ (List.mem_map_of_mem (List.mem_range.mpr ?_)) _ (List.mem_singleton_self _) rfl
    omega
  · intro hnone c hc call hcall _
    obtain ⟨k, hk, rfl⟩ := List.mem_map.mp hc
    rw [List.mem_singleton.mp hcall]
    have hlt := List.mem_range.mp hk
    exact hnone k (by omega)

/-- Where the mode does not cover the search, the condition says that it executes none. -/
theorem executions_search_iff (hcalls : buildSelectedCalls req.selectedTools
      (some st.dispatcher.registry) req.userMessage = .ok calls)
    (hforced : "web_search" ∈ forcedNames req) (hmode : mode req ≠ .webSearch)
    (h : (st.workflow req calls).Trace T (.ok result))
    (hcarried : ∀ step ∈ T, ∃ t', (st.dispatcher.reply step.1).Trace t' (.ok step.2)) :
    st.dispatcher.executions "web_search" T = 0 ↔ st.SearchOnce req := by
  obtain ⟨hplanMode, hiterations, hfallback, -⟩ := prepare_plan hcalls
  rw [workflow, ModeDispatcher.dispatch, hplanMode] at h
  rw [SearchOnce]
  cases hm : mode req with
  | default | tutor | code =>
    rw [hm] at h
    exact iff_of_true (executions_planned hcalls hforced h) trivial
  | askFiles =>
    rw [hm] at h
    obtain ⟨rfl, -⟩ := trace_pure_iff.mp h
    exact iff_of_true rfl trivial
  | webSearch => exact absurd hm hmode
  | smart =>
    rw [hm] at h
    have hnames : forcedNames req = normalizeSelection req.selectedTools := by
      refine List.filter_eq_self.mpr fun n _ => ?_
      rw [decide_eq_false fun hcovered : Covered req n => hmode hcovered.1]
      rfl
    rw [executions_smart_iff h, tools_of_forced hcalls hforced, hiterations, hfallback, hnames]
  | deepResearch =>
    rw [hm] at h
    rw [executions_deepResearch_iff h hcarried, hiterations]

/-- The web search executes one search, where it adds its own or the plan has one that runs. -/
theorem countP_webSearch_iff {d : ToolDispatcher} {plan : ExecutionPlan} {ctx : WorkflowContext}
    (hruns : ∀ c ∈ WebSearchHandler.tools plan ctx, c.required = true → d.Runs {} c) :
    ((WebSearchHandler.tools plan ctx).countP fun c =>
        c.toolName = "web_search" ∧ d.Runs {} c) = 1 ↔
      hasSearch plan.tools = false ∨
        (plan.tools.countP fun c => c.toolName = "web_search" ∧ d.Runs {} c) = 1 := by
  rw [WebSearchHandler.tools] at hruns ⊢
  cases hhas : plan.tools.any fun c => c.toolName = "web_search" with
  | true =>
    rw [hasSearch, hhas, if_pos rfl]
    exact (or_iff_right (by decide)).symm
  | false =>
    rw [hhas] at hruns
    have hown : d.Runs {} (WebSearchHandler.searchCall ctx) :=
      hruns _ (List.mem_append_right _ (List.mem_singleton_self _)) rfl
    have hnone : (plan.tools.countP fun c => c.toolName = "web_search" ∧ d.Runs {} c) = 0 := by
      refine List.countP_eq_zero.mpr fun c hc hrun => ?_
      have hnot := List.any_eq_false.mp hhas c hc
      exact hnot (decide_eq_true (of_decide_eq_true hrun).1)
    refine iff_of_true ?_ (.inl hhas)
    rw [if_neg Bool.false_ne_true, List.countP_append, hnone, List.countP_singleton,
      if_pos (decide_eq_true ⟨rfl, hown⟩)]

/-- Where the mode covers the search, the condition says that it executes one. -/
theorem executions_covered_iff (hcalls : buildSelectedCalls req.selectedTools
      (some st.dispatcher.registry) req.userMessage = .ok calls) (hmode : mode req = .webSearch)
    (h : (st.workflow req calls).Trace T (.ok result))
    (hruns : ∀ x ∈ dispatchedCalls T, x.2.required = true → st.dispatcher.Runs x.1 x.2) :
    st.dispatcher.executions "web_search" T = 1 ↔ st.SearchOnce req := by
  have hkept : "web_search" ∉ forcedNames req :=
    fun hmem => (mem_forcedNames.mp hmem).2 ⟨hmode, rfl⟩
  have htools := tools_of_covered hcalls hmode
  have hsearch : hasSearch (st.prepare req calls).plan.tools = hasSearch req.plan.tools := by
    rw [hasSearch, htools, List.any_filter, List.any_map]
    refine List.any_congr rfl fun c => ?_
    by_cases hname : c.toolName = "web_search"
    · simp [hname, hkept]
    · simp [hname]
  have hcount : (st.prepare req calls).plan.tools.countP (fun c => c.toolName = "web_search" ∧
      st.dispatcher.Runs {} c) = req.plan.tools.countP fun c => c.toolName = "web_search" ∧
        st.dispatcher.Runs {} (rewritePlanned st.planner req.userMessage
          (st.rewrite req.userMessage) c) := by
    rw [htools, List.countP_filter, List.countP_map]
    refine List.countP_congr fun c _ => ?_
    by_cases hname : c.toolName = "web_search"
    · simp [hname, hkept]
    · simp [hname]
  rw [workflow, ModeDispatcher.dispatch, (prepare_plan hcalls).1, hmode] at h
  have hcommands := commands_webSearch h
  rw [SearchOnce, hmode, ← hcount, ← hsearch, executions_of_dispatch hcommands]
  refine countP_webSearch_iff fun c hc hrequired => ?_
  refine hruns _ (mem_dispatchedCalls (c := .dispatch _ {}) ?_ hc) hrequired
  rw [hcommands]
  exact List.mem_singleton_self _

/-- Each tool that is selected is executed once, where the prompt is reached, iff the mode executes
the search as often as it should. -/
theorem selectedOnce_iff_searchOnce
    (h : (st.dispatcher.carryOut (st.run req)).Trace t (.ok result)) :
    (∀ n ∈ normalizeSelection req.selectedTools, (executed t).count n = 1) ↔
      ("web_search" ∈ normalizeSelection req.selectedTools → st.SearchOnce req) := by
  obtain ⟨calls, T, r, hcalls, hworkflow, hcount, hruns, hcarried⟩ := run_split h
  -- only the search may be executed elsewhere
  have hother : ∀ n ∈ normalizeSelection req.selectedTools, n ≠ "web_search" →
      (executed t).count n = 1 := by
    intro n hn hne
    have huncovered : ¬ Covered req n := fun hcovered => hne hcovered.2
    rw [hcount, count_forcedNames hn, if_neg huncovered,
      executions_workflow_of_ne hcalls (mem_forcedNames.mpr ⟨hn, huncovered⟩) hne hworkflow]
  have hsearch : "web_search" ∈ normalizeSelection req.selectedTools →
      ((executed t).count "web_search" = 1 ↔ st.SearchOnce req) := by
    intro hn
    rw [hcount, count_forcedNames hn]
    by_cases hmode : mode req = .webSearch
    · rw [if_pos ⟨hmode, rfl⟩, Nat.add_zero]
      exact executions_covered_iff hcalls hmode hworkflow hruns
    · have huncovered : ¬ Covered req "web_search" := fun hcovered => hmode hcovered.1
      rw [if_neg huncovered, Nat.add_eq_right]
      exact executions_search_iff hcalls (mem_forcedNames.mpr ⟨hn, huncovered⟩) hmode hworkflow
        hcarried
  constructor
  · intro honce hn
    exact (hsearch hn).mp (honce _ hn)
  · intro honce n hn
    by_cases hname : n = "web_search"
    · subst hname
      exact (hsearch hn).mpr (honce hn)
    · exact hother n hn hname

/-- The search is registered, and no message is rewritten. -/
def searchStages : ToolStages where
  dispatcher := ⟨ToolRegistry.empty.register WebSearchTool⟩
  planner := plainPlanner
  rewrite := PyText.stripStr
  smartIterations := 6
  deepResearchIterations := 4

/-- A request that selects the search, in a mode that it asks for. -/
def searchRequest (mode : UserMode) : ToolRequest where
  userMessage := "rust"
  selectedTools := ["web_search"]
  requestedMode := some mode
  plan := {}

/-- Every search returns nothing. -/
def nothingFound : (c : ToolCommand) → ToolReply c
  | .execute tool _ => .returned { toolName := tool, success := true }

/-- What the stages do then. -/
def searchRun (mode : UserMode) : ToolTrace × Except PyRaise WorkflowResult :=
  (searchStages.dispatcher.carryOut (searchStages.run (searchRequest mode))).follow nothingFound

/-- In a plain mode the search that is selected is executed once. -/
theorem defaultMode_searchedOnce :
    ∃ t result, (searchStages.dispatcher.carryOut (searchStages.run (searchRequest .default))).Trace
        t (.ok result) ∧
      ∀ n ∈ normalizeSelection (searchRequest .default).selectedTools, (executed t).count n = 1 := by
  have htrace : (searchStages.dispatcher.carryOut (searchStages.run
      (searchRequest .default))).Trace (searchRun .default).1 (searchRun .default).2 :=
    trace_follow _ _
  obtain ⟨result, hresult⟩ : ∃ result, (searchRun .default).2 = .ok result := ⟨_, rfl⟩
  rw [hresult] at htrace
  exact ⟨_, result, htrace, (selectedOnce_iff_searchOnce htrace).mpr fun _ => trivial⟩

/-- A research searches beside the forced dispatch. -/
theorem deepResearch_searchedAgain :
    ¬ ∀ (st : ToolStages) (req : ToolRequest) (t : ToolTrace) (result : WorkflowResult),
      (st.dispatcher.carryOut (st.run req)).Trace t (.ok result) →
        ∀ n ∈ normalizeSelection req.selectedTools, (executed t).count n = 1 := by
  intro honce
  have htrace : (searchStages.dispatcher.carryOut (searchStages.run
      (searchRequest .deepResearch))).Trace (searchRun .deepResearch).1
        (searchRun .deepResearch).2 := trace_follow _ _
  obtain ⟨result, hresult⟩ : ∃ result, (searchRun .deepResearch).2 = .ok result := ⟨_, rfl⟩
  rw [hresult] at htrace
  have hone := honce _ _ _ _ htrace "web_search" (by decide)
  have hfive : (executed (searchRun .deepResearch).1).count "web_search" = 5 := by decide
  rw [hfive] at hone
  omega

end Run

end ToolStages

end LlmService
