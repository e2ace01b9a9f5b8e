import LlmService.Lib.ScriptTrace
import LlmService.Tools.Registry

/-!
# ToolDispatcher

`tools/executor.py` and `tools/dispatcher.py`, as scripts whose commands are
the executions of tools: what a tool returns, or how it fails, is its
environment's. Tools that run in parallel are executed one after another here;
none of them sees another's result.
-/

namespace LlmService

/-- What leaves an `await`: an `Exception`, or the cancellation that is none. -/
inductive PyRaise where
  | exception (exc : Exc)
  | cancelled

/-- A search result, as `normalize_web_search` gives it. -/
structure SearchResult where
  title : String := ""
  url : String := ""
  snippet : String := ""
  source : String := "web"

/-- `ToolResult`; of `data`, its `results`. -/
structure ToolResult where
  toolName : String
  success : Bool
  data : Option (List SearchResult) := none
  error : Option String := none

/-- `ToolNormalizer.normalize_error`. -/
def normalizeError (toolName errorMessage : String) : ToolResult :=
  { toolName, success := false, error := some errorMessage }

/-- An `str | None` in an f-string. -/
def pyOptional (text : Option String) : String := text.getD "None"

/-- `await tool.execute(params)`. -/
inductive ToolCommand where
  | execute (tool : String) (params : ToolParams)

/-- How an execution under the timeout ends. -/
inductive ToolOutcome where
  | returned (result : ToolResult)
  | timedOut
  | raised (exc : Exc)
  | cancelled

abbrev ToolReply : ToolCommand → Type := fun _ => ToolOutcome

abbrev ToolScript := Script ToolReply PyRaise

/-- The trace of a script of executions. -/
abbrev ToolTrace := List (Σ c, ToolReply c)

/-- The tool that a command executes. -/
def ToolCommand.tool : ToolCommand → String
  | .execute tool _ => tool

/-- The tools executed along a trace. -/
def executed (t : ToolTrace) : List String := t.map fun step => step.1.tool

@[simp] theorem executed_nil : executed [] = [] := rfl

@[simp] theorem executed_append (t₁ t₂ : ToolTrace) :
    executed (t₁ ++ t₂) = executed t₁ ++ executed t₂ := List.map_append

/-- `raise exc`. -/
def raiseExc {α : Type} (exc : Exc) : ToolScript α := throw (.exception exc)

/-- The ids that a dispatch hands to its tools. -/
structure DispatchIds where
  traceId : String := ""
  userId : String := ""
  conversationId : String := ""

/-- `RequiredToolFailedError`. -/
def requiredToolFailed (message : String) : Exc where
  cls := .requiredToolFailedError
  message := message
  errorCode := some "REQUIRED_TOOL_FAILED"

namespace ToolExecutor

/-- What `execute` makes of an execution. -/
def ofOutcome (tool : Tool) : ToolOutcome → ToolScript ToolResult
  | .returned result => return result
  | .timedOut => return normalizeError tool.name s!"Tool timed out after {tool.timeoutMs}ms"
  | .raised exc =>
    if exc.cls = .timeoutError then
      return normalizeError tool.name s!"Tool timed out after {tool.timeoutMs}ms"
    else return normalizeError tool.name s!"Tool error: {exc.str}"
  | .cancelled => throw .cancelled

/-- `execute`. -/
def execute (tool : Tool) (params : ToolParams) : ToolScript ToolResult :=
  match tool.validateParams params with
  | .error exc => raiseExc exc
  | .ok validation =>
    if !validation.valid then
      return normalizeError tool.name s!"Validation failed: {pyOptional validation.error}"
    else do
      let outcome ← Script.command (.execute tool.name params)
      ofOutcome tool outcome

end ToolExecutor

/-- `ToolDispatcher`. -/
structure ToolDispatcher where
  registry : ToolRegistry

namespace ToolDispatcher

variable (d : ToolDispatcher) (ids : DispatchIds)

/-- The `ToolParams` of a call. -/
def toolParams (call : ToolCall) : ToolParams :=
  { toolName := call.toolName, params := call.params, traceId := ids.traceId
    userId := ids.userId, conversationId := ids.conversationId }

/-- `_execute_single_tool`. -/
def executeSingleTool (call : ToolCall) : ToolScript ToolResult :=
  match d.registry.get call.toolName with
  | .error exc => return normalizeError call.toolName exc.str
  | .ok tool => ToolExecutor.execute tool (toolParams ids call)

/-- A task of `gather(return_exceptions=True)`. -/
def gathered (call : ToolCall) : ToolScript (Except PyRaise ToolResult) :=
  tryCatch (do return .ok (← d.executeSingleTool ids call)) fun e => return .error e

/-- What `_dispatch_parallel` makes of what a task came to; a cancellation is
not an `Exception` and has no `success`. -/
def parallelResult (call : ToolCall) : Except PyRaise ToolResult → ToolScript ToolResult
  | .error (.exception exc) =>
    if call.required then
      raiseExc (requiredToolFailed s!"Required tool '{call.toolName}' failed: {exc.str}")
    else return normalizeError call.toolName exc.str
  | .error .cancelled =>
    raiseExc
      { cls := .other "AttributeError"
        message := "'CancelledError' object has no attribute 'success'" }
  | .ok result =>
    if !result.success ∧ call.required then
      raiseExc (requiredToolFailed
        s!"Required tool '{call.toolName}' execution failed: {pyOptional result.error}")
    else return result

/-- `_dispatch_parallel`. -/
def dispatchParallel (tools : List ToolCall) : ToolScript (List ToolResult) := do
  let rawResults ← tools.mapM (d.gathered ids)
  (tools.zip rawResults).mapM fun (call, raw) => parallelResult call raw

/-- The `except Exception` of `_dispatch_sequential`. -/
def sequentialFailed (call : ToolCall) : PyRaise → ToolScript ToolResult
  | .exception exc =>
    if call.required then
      raiseExc (requiredToolFailed s!"Required tool '{call.toolName}' raised: {exc.str}")
    else return normalizeError call.toolName exc.str
  | .cancelled => throw .cancelled

/-- One call of `_dispatch_sequential`; what its `try` raises itself is caught, too. -/
def dispatchOne (call : ToolCall) : ToolScript ToolResult :=
  tryCatch
    (do
      let res ← d.executeSingleTool ids call
      if !res.success ∧ call.required then
        raiseExc (requiredToolFailed
          s!"Required tool '{call.toolName}' execution failed: {pyOptional res.error}")
      else return res)
    (sequentialFailed call)

/-- `_dispatch_sequential`. -/
def dispatchSequential (tools : List ToolCall) : ToolScript (List ToolResult) :=
  tools.mapM (d.dispatchOne ids)

/-- `dispatch`. -/
def dispatch (tools : List ToolCall) : ToolScript (List ToolResult) := do
  let parallelResults ← d.dispatchParallel ids (tools.filter (·.parallel))
  let sequentialResults ← d.dispatchSequential ids (tools.filter (!·.parallel))
  return parallelResults ++ sequentialResults

/-! ## What is executed -/

/-- The call comes to an execution: its tool is there and accepts its parameters. -/
def Runs (call : ToolCall) : Prop :=
  ∃ tool validation, d.registry.get call.toolName = .ok tool
    ∧ tool.validateParams (toolParams ids call) = .ok validation ∧ validation.valid = true

instance (call : ToolCall) : Decidable (d.Runs ids call) :=
  match hget : d.registry.get call.toolName with
  | .error exc => isFalse fun ⟨tool, validation, h, _⟩ => by rw [hget] at h; cases h
  | .ok tool =>
    match hvalidate : tool.validateParams (toolParams ids call) with
    | .error exc => isFalse fun ⟨tool', validation, h, h', _⟩ => by
        obtain rfl := Except.ok.inj (hget.symm.trans h)
        rw [hvalidate] at h'
        cases h'
    | .ok validation =>
      if hvalid : validation.valid = true then isTrue ⟨tool, validation, hget, hvalidate, hvalid⟩
      else isFalse fun ⟨tool', validation', h, h', h''⟩ => by
        obtain rfl := Except.ok.inj (hget.symm.trans h)
        obtain rfl := Except.ok.inj (hvalidate.symm.trans h')
        exact hvalid h''

open Script

variable {d ids} {call : ToolCall} {t : ToolTrace}

theorem ofOutcome_trace {tool : Tool} {outcome : ToolOutcome} {r : Except PyRaise ToolResult}
    (h : (ToolExecutor.ofOutcome tool outcome).Trace t r) : t = [] := by
  cases outcome with
  | returned result => exact (trace_pure_iff.mp h).1
  | timedOut => exact (trace_pure_iff.mp h).1
  | raised exc =>
    rw [ToolExecutor.ofOutcome] at h
    split at h
    · exact (trace_pure_iff.mp h).1
    · exact (trace_pure_iff.mp h).1
  | cancelled => exact (trace_throw_iff.mp h).1

/-- A call is executed once, or it is not executed, whatever its environment does. -/
theorem executed_executeSingleTool {r : Except PyRaise ToolResult}
    (h : (d.executeSingleTool ids call).Trace t r) :
    executed t = if d.Runs ids call then [call.toolName] else [] := by
  rw [executeSingleTool] at h
  cases hget : d.registry.get call.toolName with
  | error exc =>
    rw [hget] at h
    have hnot : ¬ d.Runs ids call := by
      intro hruns
      obtain ⟨tool, -, htool, -⟩ := hruns
      rw [hget] at htool
      cases htool
    rw [if_neg hnot, (trace_pure_iff.mp h).1, executed_nil]
  | ok tool =>
    rw [hget] at h
    dsimp only at h
    rw [ToolExecutor.execute] at h
    cases hvalidate : tool.validateParams (toolParams ids call) with
    | error exc =>
      rw [hvalidate] at h
      have hnot : ¬ d.Runs ids call := by
        intro hruns
        obtain ⟨tool', validation, htool, hok, -⟩ := hruns
        obtain rfl := Except.ok.inj (hget.symm.trans htool)
        rw [hvalidate] at hok
        cases hok
      rw [if_neg hnot, (trace_throw_iff.mp h).1, executed_nil]
    | ok validation =>
      rw [hvalidate] at h
      dsimp only at h
      cases hvalid : validation.valid with
      | false =>
        rw [hvalid, if_pos (by rfl)] at h
        have hnot : ¬ d.Runs ids call := by
          intro hruns
          obtain ⟨tool', validation', htool, hok, hruns⟩ := hruns
          obtain rfl := Except.ok.inj (hget.symm.trans htool)
          obtain rfl := Except.ok.inj (hvalidate.symm.trans hok)
          rw [hvalid] at hruns
          cases hruns
        rw [if_neg hnot, (trace_pure_iff.mp h).1, executed_nil]
      | true =>
        rw [hvalid, if_neg (by decide), trace_command_bind_iff] at h
        obtain ⟨outcome, t', rfl, hrest⟩ := h
        have hname : tool.name = call.toolName := ToolRegistry.name_of_get hget
        rw [if_pos ⟨tool, validation, hget, hvalidate, hvalid⟩, ofOutcome_trace hrest, ← hname]
        rfl

end ToolDispatcher

end LlmService
