import LlmService.Lib.StateGraph
import LlmService.Tools.Dispatcher

/-!
# Scripts that dispatch tool calls

What the mode handlers and the nodes of the graphs await: the dispatch of tool
calls, which returns the results or raises. Beside it the guard that both
graphs ask before they loop.
-/

namespace LlmService

inductive DispatchCommand where
  | dispatch (calls : List ToolCall) (ids : DispatchIds)

def DispatchCommand.calls : DispatchCommand → List ToolCall
  | .dispatch calls _ => calls

def DispatchCommand.ids : DispatchCommand → DispatchIds
  | .dispatch _ ids => ids

abbrev DispatchReply : DispatchCommand → Type := fun _ => Except PyRaise (List ToolResult)

abbrev WorkflowScript := Script DispatchReply PyRaise

/-- The trace of a script of dispatches. -/
abbrev DispatchTrace := List (Σ c, DispatchReply c)

/-- `await tool_dispatcher.dispatch(calls)`. -/
def dispatchCalls (calls : List ToolCall) (ids : DispatchIds := {}) :
    WorkflowScript (List ToolResult) := do
  let reply : Except PyRaise (List ToolResult) ← Script.command (.dispatch calls ids)
  match reply with
  | .ok results => return results
  | .error e => throw e

/-- What a result holds, if it is one of success. -/
def ToolResult.found (result : ToolResult) : List SearchResult :=
  if result.success then result.data.getD [] else []

/-- No dispatch raises; one does where a required tool fails or the task is cancelled. -/
def AllReturn (t : DispatchTrace) : Prop := ∀ step ∈ t, ∃ results, step.2 = .ok results

section Trace

open Script

variable {α : Type} {calls : List ToolCall} {ids : DispatchIds}
  {f : List ToolResult → WorkflowScript α} {t : DispatchTrace} {r : Except PyRaise α}

/-- A dispatch, and what runs behind it if it returns. -/
theorem trace_dispatchCalls_bind (h : (dispatchCalls calls ids >>= f).Trace t r) :
    (∃ results t', t = ⟨.dispatch calls ids, .ok results⟩ :: t' ∧ (f results).Trace t' r) ∨
      ∃ e, t = [⟨.dispatch calls ids, .error e⟩] ∧ r = .error e := by
  rw [dispatchCalls, bind_assoc] at h
  obtain ⟨reply, t', rfl, hrest⟩ := trace_command_bind_iff.mp h
  cases reply with
  | ok results =>
    dsimp only at hrest
    rw [pure_bind] at hrest
    exact .inl ⟨results, t', rfl, hrest⟩
  | error e =>
    obtain ⟨rfl, rfl⟩ := trace_throw_iff.mp hrest
    exact .inr ⟨e, rfl, rfl⟩

/-- A dispatch is made, whether it returns or raises. -/
theorem commands_dispatchCalls {reply : Except PyRaise (List ToolResult)}
    (h : (dispatchCalls calls ids).Trace t reply) : t.map Sigma.fst = [.dispatch calls ids] := by
  obtain ⟨results, t', rfl, hrest⟩ := trace_command_bind_iff.mp h
  cases results with
  | ok results =>
    obtain ⟨rfl, -⟩ := trace_pure_iff.mp hrest
    rfl
  | error e =>
    obtain ⟨rfl, -⟩ := trace_throw_iff.mp hrest
    rfl

/-- What is made of a script's value dispatches nothing. -/
theorem exists_trace_of_bind_pure {β : Type} {p : WorkflowScript β} {g : β → α}
    (h : (do return g (← p)).Trace t r) : ∃ r', p.Trace t r' := by
  rcases trace_bind_iff.mp h with ⟨e, hp, -⟩ | ⟨b, u, v, hp, hpure, rfl⟩
  · exact ⟨_, hp⟩
  · obtain ⟨rfl, -⟩ := trace_pure_iff.mp hpure
    rw [List.append_nil]
    exact ⟨_, hp⟩

end Trace

/-- A dispatch that raises makes the script raise: what returns was returned to. -/
def Strict {α : Type} (p : WorkflowScript α) : Prop :=
  ∀ t a, p.Trace t (.ok a) → AllReturn t

section Strict

open Script (trace_pure_iff trace_throw_iff trace_bind_ok_iff trace_command_bind_iff)

variable {α β : Type} {p : WorkflowScript α} {f : α → WorkflowScript β}

theorem strict_pure (a : α) : Strict (pure a : WorkflowScript α) := by
  intro t a' h
  obtain ⟨rfl, -⟩ := trace_pure_iff.mp h
  exact List.forall_mem_nil _

theorem strict_throw (e : PyRaise) : Strict (throw e : WorkflowScript α) := by
  intro t a h
  cases (trace_throw_iff.mp h).2

theorem Strict.bind (hp : Strict p) (hf : ∀ a, Strict (f a)) : Strict (p >>= f) := by
  intro t b h
  obtain ⟨a, t₁, t₂, h₁, h₂, rfl⟩ := trace_bind_ok_iff.mp h
  intro step hstep
  rcases List.mem_append.mp hstep with hstep | hstep
  · exact hp t₁ a h₁ step hstep
  · exact hf a t₂ b h₂ step hstep

theorem strict_dispatchCalls (calls : List ToolCall) (ids : DispatchIds) :
    Strict (dispatchCalls calls ids) := by
  intro t a h
  obtain ⟨reply, t', rfl, hrest⟩ := trace_command_bind_iff.mp h
  cases reply with
  | ok results =>
    obtain ⟨rfl, -⟩ := trace_pure_iff.mp hrest
    exact List.forall_mem_singleton.mpr ⟨results, rfl⟩
  | error e => cases (trace_throw_iff.mp hrest).2

theorem strict_runFrom {N S : Type} {g : StateGraph WorkflowScript N S}
    (hnode : ∀ n s, Strict (g.node n s)) (e : PyRaise) (limit : Nat) :
    ∀ n s, Strict (g.runFrom (throw e) limit n s) := by
  induction limit with
  | zero => exact fun n s => strict_throw e
  | succ limit ih =>
    intro n s
    refine (hnode n s).bind fun u => ?_
    cases g.next n u with
    | none => exact strict_pure u
    | some m => exact ih m u

end Strict

/-- `GraphRecursionError` of LangGraph. -/
def graphRecursionError (limit : Nat) : PyRaise :=
  .exception
    { cls := .other "GraphRecursionError"
      message := s!"Recursion limit of {limit} reached without hitting a stop condition." }

/-- `graph.ainvoke`: a graph runs no more nodes than its limit. -/
def StateGraph.ainvoke {N S : Type} (g : StateGraph WorkflowScript N S) (limit : Nat) (s : S) :
    WorkflowScript S :=
  g.invoke (throw (graphRecursionError limit)) limit s

/-! ## LoopGuard -/

inductive LoopDecision where
  | loop | proceed
  deriving DecidableEq

/-- `LoopGuard.evaluate`. -/
def LoopGuard.evaluate (currentIteration : Nat) (maxIterations : Int)
    (hasUnsatisfiedTasks : Bool) : LoopDecision :=
  if !hasUnsatisfiedTasks then .proceed
  else if maxIterations ≤ currentIteration then .proceed
  else .loop

theorem LoopGuard.evaluate_eq_loop_iff {currentIteration : Nat} {maxIterations : Int}
    {hasUnsatisfiedTasks : Bool} :
    evaluate currentIteration maxIterations hasUnsatisfiedTasks = .loop ↔
      hasUnsatisfiedTasks = true ∧ (currentIteration : Int) < maxIterations := by
  rw [evaluate]
  cases hasUnsatisfiedTasks with
  | false => simp
  | true => simp

end LlmService
