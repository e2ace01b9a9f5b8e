import LlmService.Lib.PyText
import LlmService.Workflow.Dispatches

/-!
# The smart workflow

`langgraph_workflows/smart`: the planner makes sub-tasks of the tools that the
analysis has planned, or of its own rules; then each turn of the loop selects
the first sub-task that is not satisfied and dispatches its call. What `re`
finds in a message is a parameter, and so are the case mappings of `str`.
-/

namespace LlmService

/-- The expressions of `freshness.py`, by what they find in a text. -/
structure FreshnessPatterns where
  explicit : String → Bool
  current : String → Bool
  fastMoving : String → Bool
  papers : String → Bool
  /-- `_YEAR.findall`. -/
  years : String → List Nat

inductive SearchReason where
  | none | explicit | current | fastMoving | papers | recentYear
  deriving DecidableEq

/-- `needs_web_search`. -/
def FreshnessPatterns.needsWebSearch (p : FreshnessPatterns) (thisYear : Nat) (message : String) :
    Bool × SearchReason :=
  let text := PyText.stripStr message
  if text = "" then (false, .none)
  else if p.explicit text then (true, .explicit)
  else if p.current text then (true, .current)
  else if p.fastMoving text then (true, .fastMoving)
  else if p.papers text then (true, .papers)
  else if (p.years text).any fun y => thisYear ≤ y + 1 then (true, .recentYear)
  else (false, .none)

/-- `SubTask`. -/
structure SubTask where
  id : String
  description : String
  toolName : Option String := none
  params : CallParams := ∅
  required : Bool := false

/-- `SmartGraphState`; the fields with a reducer start empty. -/
structure SmartState where
  userMessage : String
  plannedTools : List ToolCall := []
  planIsFallback : Bool := false
  subTasks : List SubTask := []
  satisfiedSubTasks : List String := []
  toolResults : List ToolResult := []
  nextToolCall : Option ToolCall := none
  loopIterationCount : Nat := 0
  maxIterations : Int
  draftResponse : Option String := none

/-- What the nodes use that is not their state's. -/
structure SmartPlanner where
  patterns : FreshnessPatterns
  thisYear : Nat
  /-- `str.lower` and `str.upper`. -/
  lower : String → String
  upper : String → String
  /-- `str(value)` of a value that is no text. -/
  str : JsonValue → String
  /-- How many nodes LangGraph runs by default; the sub-tasks need eleven. -/
  recursionLimit : Nat
  recursionLimit_ge : 11 ≤ recursionLimit

/-- `str(value)`. -/
def SmartPlanner.pyStr (p : SmartPlanner) : JsonValue → String
  | .string text => text
  | value => p.str value

namespace Smart

/-- `any(w in lower_msg for w in words)`. -/
def containsAny (words : List String) (lowerMsg : String) : Bool :=
  words.any fun w => w.toList <:+: lowerMsg.toList

def searchTask (id description : String) : SubTask where
  id := id
  description := description
  toolName := some "web_search"

/-- `_rule_based_subtasks`. -/
def ruleBasedSubtasks (userMsg lowerMsg : String) (searchNeeded : Bool) : List SubTask :=
  let isComparison := containsAny ["compare", "vs", "versus", "difference between"] lowerMsg
  let hasCodeIntent :=
    containsAny ["code", "implement", "implementation", "python", "pytorch"] lowerMsg
  let hasBenchmarkIntent :=
    containsAny ["benchmark", "performance", "speed", "accuracy", "evaluation", "paper"] lowerMsg
  if isComparison ∧ (hasCodeIntent ∨ hasBenchmarkIntent) ∧ (hasBenchmarkIntent ∨ searchNeeded) then
    [searchTask "subtask_theory"
        s!"Theoretical comparison and mathematical convergence: {userMsg}"] ++
      (if hasCodeIntent then
        [searchTask "subtask_code" s!"Implementation architecture differences: {userMsg}"]
      else []) ++
      (if hasBenchmarkIntent then
        [searchTask "subtask_benchmarks"
          s!"Empirical benchmarks and experimental findings: {userMsg}"]
      else [])
  else if searchNeeded then [searchTask "subtask_search_1" userMsg]
  else []

/-- `MAX_PLANNED_TOOLS`. -/
def maxPlannedTools : Nat := 4

/-- `str(call.params.get("query") or user_msg)`. -/
def describe (p : SmartPlanner) (userMsg : String) (call : ToolCall) : String :=
  match call.params.lookup "query" with
  | none => userMsg
  | some value => if value.truthy then p.pyStr value else userMsg

def plannedTask (p : SmartPlanner) (userMsg : String) (call : ToolCall) (i : Nat) : SubTask where
  id := s!"subtask_tool_{i}"
  description := describe p userMsg call
  toolName := some call.toolName
  params := call.params
  required := call.required

/-- The sub-tasks of `planner`. -/
def planSubTasks (p : SmartPlanner) (userMessage : String) (planned : List ToolCall)
    (fallback : Bool) : List SubTask :=
  let userMsg := PyText.stripStr userMessage
  let search := p.patterns.needsWebSearch p.thisYear userMsg
  if planned ≠ [] then
    ((planned.take maxPlannedTools).zipIdx 1).map fun x => plannedTask p userMsg x.1 x.2
  else if fallback ∨ search.2 = .explicit then
    ruleBasedSubtasks userMsg (p.lower userMsg) search.1
  else []

/-- What `planner` returns for the fields with a reducer is empty. -/
def planner (p : SmartPlanner) (s : SmartState) : SmartState :=
  { s with
    subTasks := planSubTasks p s.userMessage s.plannedTools s.planIsFallback
    loopIterationCount := 0 }

def unsatisfied (s : SmartState) : List SubTask :=
  s.subTasks.filter (·.id ∉ s.satisfiedSubTasks)

/-- `next_task.tool_name or "web_search"`. -/
def SubTask.tool (task : SubTask) : String :=
  match task.toolName with
  | none | some "" => "web_search"
  | some name => name

/-- `params.setdefault("query", …)`. -/
def setDefaultQuery (params : CallParams) (query : String) : CallParams :=
  if "query" ∈ params then params else params.insert "query" (.string query)

/-- The call of a sub-task, with its id in the parameters. -/
def toolCall (userMessage : String) (task : SubTask) : ToolCall where
  toolName := SubTask.tool task
  params :=
    let params :=
      if SubTask.tool task = "web_search" then
        setDefaultQuery task.params (if task.description = "" then userMessage else task.description)
      else task.params
    params.insert "sub_task_id" (.string task.id)
  parallel := false
  required := task.required

def dynamicToolSelection (s : SmartState) : SmartState :=
  match unsatisfied s with
  | [] => { s with nextToolCall := none }
  | nextTask :: _ => { s with nextToolCall := some (toolCall s.userMessage nextTask) }

/-- `[satisfied_id] if satisfied_id else []`; the id is a text. -/
def satisfiedBy (call : ToolCall) : List String :=
  match call.params.lookup "sub_task_id" with
  | some (.string id) => if id = "" then [] else [id]
  | _ => []

/-- `clean`. -/
def cleaned (call : ToolCall) : ToolCall :=
  { call with params := call.params.erase "sub_task_id" }

/-- The update that `execution` returns. -/
def executed (s : SmartState) (nextCall : ToolCall) (results : List ToolResult) : SmartState :=
  { s with
    toolResults := s.toolResults ++ results
    satisfiedSubTasks := s.satisfiedSubTasks ++ satisfiedBy nextCall
    loopIterationCount := s.loopIterationCount + 1 }

def execution (s : SmartState) : WorkflowScript SmartState :=
  match s.nextToolCall with
  | none => return s
  | some nextCall => do
    let results ← dispatchCalls [cleaned nextCall]
    return executed s nextCall results

/-- The section of one finding. -/
def findingSections (upper : String → String) (f : SearchResult) (idx : Nat) : List String :=
  [s!"### {idx}. {f.title} ({upper f.source})",
    s!"{f.snippet}\n- **Source URL**: [{f.url}]({f.url})\n"]

def draft (upper : String → String) (s : SmartState) : List String :=
  let allFindings := s.toolResults.flatMap (·.found)
  let query := s.userMessage
  [s!"# Analysis & Synthesis: {query}\n",
    "## 1. Executive Summary",
    s!"Based on multi-step agentic research over **{s.loopIterationCount} iterative reasoning steps** with **{allFindings.length} verified knowledge sources**, here is the comprehensive analysis.\n",
    "## 2. Key Findings & Theoretical Insights"] ++
  (if allFindings = [] then
    ["Direct analytical breakdown based on foundational knowledge principles.\n"]
  else ((allFindings.take 6).zipIdx 1).flatMap fun x => findingSections upper x.1 x.2) ++
  ["## 3. Grounded Conclusion",
    s!"The synthesis above addresses all dimensions of '{query}' using cross-referenced scholarly, encyclopedic, and technical sources."]

def generation (upper : String → String) (s : SmartState) : SmartState :=
  { s with draftResponse := some ("\n".intercalate (draft upper s)) }

/-- `route_after_execution`. -/
def routeAfterExecution (s : SmartState) : LoopDecision :=
  LoopGuard.evaluate s.loopIterationCount s.maxIterations (!(unsatisfied s).isEmpty)

inductive Node where
  | planner | dynamicToolSelection | execution | prompt | generation
  deriving DecidableEq

/-- `SmartGraphBuilder.build`. The text that `prompt` returns is under a key
that is no field of the state. -/
def graph (p : SmartPlanner) : StateGraph WorkflowScript Node SmartState where
  entry := .planner
  node
    | .planner => fun s => pure (planner p s)
    | .dynamicToolSelection => fun s => pure (dynamicToolSelection s)
    | .execution => execution
    | .prompt => fun s => pure s
    | .generation => fun s => pure (generation p.upper s)
  next
    | .planner, _ => some .dynamicToolSelection
    | .dynamicToolSelection, _ => some .execution
    | .execution, s =>
      match routeAfterExecution s with
      | .loop => some .dynamicToolSelection
      | .proceed => some .prompt
    | .prompt, _ => some .generation
    | .generation, _ => none

end Smart

end LlmService
