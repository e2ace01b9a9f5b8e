import LlmService.Lib.ScriptInterpret
import LlmService.Workflow.Dispatches

/-!
# What a dispatch executes

A dispatch that returns has executed each of its calls that comes to an
execution, once, and each of its required calls has; the result of a call that
is not executed is none of success.
-/

namespace LlmService

open Script

namespace ToolDispatcher

variable {d : ToolDispatcher} {ids : DispatchIds} {call : ToolCall} {calls : List ToolCall}
  {t : ToolTrace}

/-- What is executed of a call. -/
def executedOf (d : ToolDispatcher) (ids : DispatchIds) (call : ToolCall) : List String :=
  if d.Runs ids call then [call.toolName] else []

/-! ## One call -/

/-- A call that is not executed has no success. -/
theorem runs_of_success {result : ToolResult}
    (h : (d.executeSingleTool ids call).Trace t (.ok result)) (hsuccess : result.success = true) :
    d.Runs ids call := by
  rw [executeSingleTool] at h
  cases hget : d.registry.get call.toolName with
  | error exc =>
    rw [hget] at h
    obtain ⟨-, hresult⟩ := trace_pure_iff.mp h
    obtain rfl := Except.ok.inj hresult
    cases hsuccess
  | ok tool =>
    rw [hget] at h
    dsimp only at h
    rw [ToolExecutor.execute] at h
    cases hvalidate : tool.validateParams (toolParams ids call) with
    | error exc =>
      rw [hvalidate] at h
      cases (trace_throw_iff.mp h).2
    | ok validation =>
      rw [hvalidate] at h
      dsimp only at h
      cases hvalid : validation.valid with
      | false =>
        rw [hvalid] at h
        obtain ⟨-, hresult⟩ := trace_pure_iff.mp h
        obtain rfl := Except.ok.inj hresult
        cases hsuccess
      | true => exact ⟨tool, validation, hget, hvalidate, hvalid⟩

/-- A task of the parallel group executes its call and does not raise. -/
theorem gathered_trace {r : Except PyRaise (Except PyRaise ToolResult)}
    (h : (d.gathered ids call).Trace t r) :
    executed t = executedOf d ids call ∧
      ∃ raw, r = .ok raw ∧ ∀ result, raw = .ok result → result.success = true → d.Runs ids call := by
  rcases trace_handle_iff.mp h with ⟨raw, hbody, rfl⟩ | ⟨e, t₁, t₂, hbody, hcatch, rfl⟩
  · obtain ⟨result, t₁, t₂, hexecute, hpure, rfl⟩ := trace_bind_ok_iff.mp hbody
    obtain ⟨rfl, hraw⟩ := trace_pure_iff.mp hpure
    rw [List.append_nil]
    refine ⟨executed_executeSingleTool hexecute, raw, rfl, ?_⟩
    rintro result' hresult hsuccess
    obtain rfl := Except.ok.inj (hresult.symm.trans (Except.ok.inj hraw))
    exact runs_of_success hexecute hsuccess
  · rcases trace_bind_iff.mp hbody with ⟨e', hexecute, -⟩ | ⟨a, t₃, t₄, -, hpure, -⟩
    · obtain ⟨rfl, rfl⟩ := trace_pure_iff.mp hcatch
      rw [List.append_nil]
      exact ⟨executed_executeSingleTool hexecute, .error e, rfl, fun result hresult => nomatch hresult⟩
    · cases (trace_pure_iff.mp hpure).2

theorem parallelResult_trace {raw : Except PyRaise ToolResult} {result : ToolResult}
    (h : (parallelResult call raw).Trace t (.ok result)) :
    t = [] ∧ (call.required = true → ∃ res, raw = .ok res ∧ res.success = true) := by
  cases raw with
  | error e =>
    cases e with
    | exception exc =>
      rw [parallelResult] at h
      by_cases hrequired : call.required = true
      · rw [if_pos hrequired] at h
        cases (trace_throw_iff.mp h).2
      · rw [if_neg hrequired] at h
        exact ⟨(trace_pure_iff.mp h).1, fun hcontra => absurd hcontra hrequired⟩
    | cancelled => cases (trace_throw_iff.mp h).2
  | ok res =>
    rw [parallelResult] at h
    by_cases hfailed : (!res.success) = true ∧ call.required = true
    · rw [if_pos hfailed] at h
      cases (trace_throw_iff.mp h).2
    · rw [if_neg hfailed] at h
      refine ⟨(trace_pure_iff.mp h).1, fun hrequired => ⟨res, rfl, ?_⟩⟩
      cases hsuccess : res.success with
      | true => rfl
      | false => exact absurd ⟨by rw [hsuccess]; rfl, hrequired⟩ hfailed

/-- Whatever a sequential call raises, it is not required, and has no success. -/
theorem sequentialFailed_trace {e : PyRaise} {result : ToolResult}
    (h : (sequentialFailed call e).Trace t (.ok result)) :
    t = [] ∧ call.required = false ∧ result.success = false := by
  cases e with
  | exception exc =>
    rw [sequentialFailed] at h
    by_cases hrequired : call.required = true
    · rw [if_pos hrequired] at h
      cases (trace_throw_iff.mp h).2
    · rw [if_neg hrequired] at h
      obtain ⟨ht, hresult⟩ := trace_pure_iff.mp h
      obtain rfl := Except.ok.inj hresult
      exact ⟨ht, Bool.eq_false_iff.mpr hrequired, rfl⟩
  | cancelled => cases (trace_throw_iff.mp h).2

/-- A call of the sequential group is executed, also where what it returns is refused. -/
theorem dispatchOne_trace {result : ToolResult} (h : (d.dispatchOne ids call).Trace t (.ok result)) :
    executed t = executedOf d ids call ∧ (call.required = true → d.Runs ids call) ∧
      (result.success = true → d.Runs ids call) := by
  rcases trace_handle_iff.mp h with ⟨res, hbody, hres⟩ | ⟨e, t₁, t₂, hbody, hcatch, rfl⟩
  · obtain rfl := Except.ok.inj hres
    obtain ⟨res, t₁, t₂, hexecute, hrest, rfl⟩ := trace_bind_ok_iff.mp hbody
    by_cases hfailed : (!res.success) = true ∧ call.required = true
    · rw [if_pos hfailed] at hrest
      cases (trace_throw_iff.mp hrest).2
    · rw [if_neg hfailed] at hrest
      obtain ⟨rfl, hresult⟩ := trace_pure_iff.mp hrest
      obtain rfl := Except.ok.inj hresult
      rw [List.append_nil]
      refine ⟨executed_executeSingleTool hexecute, fun hrequired => ?_, runs_of_success hexecute⟩
      cases hsuccess : result.success with
      | true => exact runs_of_success hexecute hsuccess
      | false => exact absurd ⟨by rw [hsuccess]; rfl, hrequired⟩ hfailed
  · obtain ⟨rfl, hrequired, hsuccess⟩ := sequentialFailed_trace hcatch
    rw [List.append_nil]
    refine ⟨?_, fun hcontra => ?_, fun hcontra => ?_⟩
    · rcases trace_bind_iff.mp hbody with ⟨e', hexecute, -⟩ | ⟨res, t₃, t₄, hexecute, hrest, rfl⟩
      · exact executed_executeSingleTool hexecute
      · by_cases hfailed : (!res.success) = true ∧ call.required = true
        · rw [if_pos hfailed] at hrest
          obtain ⟨rfl, -⟩ := trace_throw_iff.mp hrest
          rw [List.append_nil]
          exact executed_executeSingleTool hexecute
        · rw [if_neg hfailed] at hrest
          cases (trace_pure_iff.mp hrest).2
    · rw [hrequired] at hcontra
      cases hcontra
    · rw [hsuccess] at hcontra
      cases hcontra

/-! ## The groups -/

theorem gather_trace {raws : List (Except PyRaise ToolResult)}
    (h : (calls.mapM (d.gathered ids)).Trace t (.ok raws)) :
    executed t = calls.flatMap (executedOf d ids) ∧
      ∀ x ∈ calls.zip raws, ∀ result, x.2 = .ok result → result.success = true → d.Runs ids x.1 := by
  induction calls generalizing t raws with
  | nil =>
    obtain ⟨rfl, rfl⟩ := trace_mapM_nil.mp h
    exact ⟨rfl, fun x hx => absurd hx List.not_mem_nil⟩
  | cons call calls ih =>
    obtain ⟨raw, raws', t₁, t₂, hcall, hrest, rfl, rfl⟩ := trace_mapM_cons.mp h
    obtain ⟨hexecuted, raw', hraw, hruns⟩ := gathered_trace hcall
    obtain rfl := Except.ok.inj hraw
    obtain ⟨hexecuted', hruns'⟩ := ih hrest
    refine ⟨?_, fun x hx => ?_⟩
    · rw [executed_append, hexecuted, hexecuted', List.flatMap_cons]
    · rw [List.zip_cons_cons] at hx
      rcases List.mem_cons.mp hx with rfl | hx
      · exact hruns
      · exact hruns' x hx

theorem parallelResults_trace {pairs : List (ToolCall × Except PyRaise ToolResult)}
    {results : List ToolResult}
    (h : (pairs.mapM fun (call, raw) => parallelResult call raw).Trace t (.ok results)) :
    t = [] ∧ ∀ x ∈ pairs, x.1.required = true → ∃ res, x.2 = .ok res ∧ res.success = true := by
  induction pairs generalizing t results with
  | nil =>
    obtain ⟨rfl, -⟩ := trace_mapM_nil.mp h
    exact ⟨rfl, fun x hx => absurd hx List.not_mem_nil⟩
  | cons pair pairs ih =>
    obtain ⟨result, results', t₁, t₂, hpair, hrest, rfl, rfl⟩ := trace_mapM_cons.mp h
    obtain ⟨rfl, hrequired⟩ := parallelResult_trace hpair
    obtain ⟨rfl, hrequired'⟩ := ih hrest
    refine ⟨rfl, fun x hx => ?_⟩
    rcases List.mem_cons.mp hx with rfl | hx
    · exact hrequired
    · exact hrequired' x hx

theorem length_of_trace_mapM {α β : Type} {f : α → ToolScript β} {as : List α} {bs : List β}
    (h : (as.mapM f).Trace t (.ok bs)) : bs.length = as.length := by
  induction as generalizing t bs with
  | nil =>
    obtain ⟨-, rfl⟩ := trace_mapM_nil.mp h
    rfl
  | cons a as ih =>
    obtain ⟨b, bs', t₁, t₂, -, hrest, -, rfl⟩ := trace_mapM_cons.mp h
    rw [List.length_cons, List.length_cons, ih hrest]

theorem dispatchParallel_trace {results : List ToolResult}
    (h : (d.dispatchParallel ids calls).Trace t (.ok results)) :
    executed t = calls.flatMap (executedOf d ids) ∧
      ∀ call ∈ calls, call.required = true → d.Runs ids call := by
  obtain ⟨raws, t₁, t₂, hgather, hresults, rfl⟩ := trace_bind_ok_iff.mp h
  obtain ⟨hexecuted, hruns⟩ := gather_trace hgather
  obtain ⟨rfl, hrequired⟩ := parallelResults_trace hresults
  rw [List.append_nil]
  refine ⟨hexecuted, fun call hcall hreq => ?_⟩
  obtain ⟨i, hi, rfl⟩ := List.mem_iff_getElem.mp hcall
  have hlength := length_of_trace_mapM hgather
  have hmem : (calls[i], raws[i]) ∈ calls.zip raws := by
    refine List.mem_iff_getElem.mpr ⟨i, ?_, ?_⟩
    · rw [List.length_zip, hlength, Nat.min_self]
      exact hi
    · exact List.getElem_zip
  obtain ⟨res, hraw, hsuccess⟩ := hrequired _ hmem hreq
  exact hruns _ hmem res hraw hsuccess

theorem dispatchSequential_trace {results : List ToolResult}
    (h : (d.dispatchSequential ids calls).Trace t (.ok results)) :
    executed t = calls.flatMap (executedOf d ids) ∧
      ∀ call ∈ calls, call.required = true → d.Runs ids call := by
  rw [dispatchSequential] at h
  induction calls generalizing t results with
  | nil =>
    obtain ⟨rfl, -⟩ := trace_mapM_nil.mp h
    exact ⟨rfl, fun call hcall => absurd hcall List.not_mem_nil⟩
  | cons call calls ih =>
    obtain ⟨result, results', t₁, t₂, hcall, hrest, rfl, rfl⟩ := trace_mapM_cons.mp h
    obtain ⟨hexecuted, hruns, -⟩ := dispatchOne_trace hcall
    obtain ⟨hexecuted', hruns'⟩ := ih hrest
    refine ⟨?_, fun x hx => ?_⟩
    · rw [executed_append, hexecuted, hexecuted', List.flatMap_cons]
    · rcases List.mem_cons.mp hx with rfl | hx
      · exact hruns
      · exact hruns' x hx

/-! ## A dispatch -/

/-- The executions of a tool are its calls that come to one. -/
theorem count_flatMap_executedOf (n : String) (calls : List ToolCall) :
    (calls.flatMap (executedOf d ids)).count n =
      calls.countP fun call => call.toolName = n ∧ d.Runs ids call := by
  induction calls with
  | nil => rfl
  | cons call calls ih =>
    rw [List.flatMap_cons, List.count_append, ih, List.countP_cons, executedOf]
    by_cases hruns : d.Runs ids call
    · by_cases hname : call.toolName = n
      · simp [hruns, hname, Nat.add_comm]
      · simp [hruns, hname]
    · simp [hruns]

theorem dispatch_trace {results : List ToolResult}
    (h : (d.dispatch ids calls).Trace t (.ok results)) (n : String) :
    (executed t).count n = (calls.countP fun call => call.toolName = n ∧ d.Runs ids call) ∧
      ∀ call ∈ calls, call.required = true → d.Runs ids call := by
  obtain ⟨parallel, t₁, t₂, hparallel, hrest, rfl⟩ := trace_bind_ok_iff.mp h
  obtain ⟨sequential, t₃, t₄, hsequential, hpure, rfl⟩ := trace_bind_ok_iff.mp hrest
  obtain ⟨rfl, -⟩ := trace_pure_iff.mp hpure
  obtain ⟨hexecuted, hruns⟩ := dispatchParallel_trace hparallel
  obtain ⟨hexecuted', hruns'⟩ := dispatchSequential_trace hsequential
  constructor
  · rw [List.append_nil, executed_append, hexecuted, hexecuted', List.count_append,
      count_flatMap_executedOf, count_flatMap_executedOf, ← List.countP_append]
    exact (List.filter_append_perm (·.parallel) calls).countP_eq _
  · intro call hcall hrequired
    cases hgroup : call.parallel with
    | true => exact hruns call (List.mem_filter.mpr ⟨hcall, hgroup⟩) hrequired
    | false =>
      refine hruns' call (List.mem_filter.mpr ⟨hcall, ?_⟩) hrequired
      rw [hgroup]
      rfl

/-- A call that is dispatched alone, in sequence, and not executed. -/
theorem dispatch_unexecuted {results : List ToolResult} (hgroup : call.parallel = false)
    (h : (d.dispatch ids [call]).Trace t (.ok results)) (hruns : ¬ d.Runs ids call) :
    ∀ result ∈ results, result.success = false := by
  have hparallel : [call].filter (·.parallel) = [] := by
    rw [List.filter_singleton, hgroup]
    rfl
  have hsequential : [call].filter (!·.parallel) = [call] := by
    rw [List.filter_singleton, hgroup]
    rfl
  rw [dispatch, hparallel, hsequential] at h
  obtain ⟨parallel, t₁, t₂, hgather, hrest, rfl⟩ := trace_bind_ok_iff.mp h
  obtain ⟨sequential, t₃, t₄, hone, hpure, rfl⟩ := trace_bind_ok_iff.mp hrest
  obtain ⟨-, hresults⟩ := trace_pure_iff.mp hpure
  obtain rfl := Except.ok.inj hresults
  obtain ⟨raws, t₅, t₆, hraws, hresults', -⟩ := trace_bind_ok_iff.mp hgather
  obtain ⟨-, rfl⟩ := trace_mapM_nil.mp hraws
  obtain ⟨-, rfl⟩ := trace_mapM_nil.mp hresults'
  obtain ⟨result, rest, t₇, t₈, hcall, hnil, -, rfl⟩ := trace_mapM_cons.mp hone
  obtain ⟨-, rfl⟩ := trace_mapM_nil.mp hnil
  rw [List.nil_append]
  refine List.forall_mem_singleton.mpr ?_
  cases hsuccess : result.success with
  | false => rfl
  | true => exact absurd ((dispatchOne_trace hcall).2.2 hsuccess) hruns

/-! ## A workflow that is carried out -/

/-- The reply of a dispatch: what it returns or raises. -/
def reply (d : ToolDispatcher) : (c : DispatchCommand) → ToolScript (DispatchReply c)
  | .dispatch calls ids =>
    tryCatch (do return .ok (← d.dispatch ids calls)) fun e => return .error e

/-- A script of dispatches, carried out. -/
def carryOut {α : Type} (d : ToolDispatcher) (p : WorkflowScript α) : ToolScript α :=
  p.interpret d.reply

theorem reply_trace {r : Except PyRaise (Except PyRaise (List ToolResult))}
    (h : (d.reply (.dispatch calls ids)).Trace t r) :
    (∃ results, r = .ok (.ok results) ∧ (d.dispatch ids calls).Trace t (.ok results)) ∨
      ∃ e, r = .ok (.error e) := by
  rcases trace_handle_iff.mp h with ⟨raw, hbody, rfl⟩ | ⟨e, t₁, t₂, -, hcatch, -⟩
  · obtain ⟨results, t₁, t₂, hdispatch, hpure, rfl⟩ := trace_bind_ok_iff.mp hbody
    obtain ⟨rfl, hraw⟩ := trace_pure_iff.mp hpure
    obtain rfl := Except.ok.inj hraw
    rw [List.append_nil]
    exact .inl ⟨results, rfl, hdispatch⟩
  · exact .inr ⟨e, (trace_pure_iff.mp hcatch).2⟩

theorem reply_ok (c : DispatchCommand) (t : ToolTrace) (e : PyRaise) :
    ¬ (d.reply c).Trace t (.error e) := by
  intro h
  cases c with
  | dispatch calls ids =>
    rcases reply_trace h with ⟨results, hr, -⟩ | ⟨e', hr⟩
    · cases hr
    · cases hr

end ToolDispatcher

/-- The calls that are dispatched along a trace, each with the ids it is dispatched with. -/
def dispatchedCalls (T : DispatchTrace) : List (DispatchIds × ToolCall) :=
  T.flatMap fun step => step.1.calls.map fun call => (step.1.ids, call)

theorem dispatchedCalls_append (T₁ T₂ : DispatchTrace) :
    dispatchedCalls (T₁ ++ T₂) = dispatchedCalls T₁ ++ dispatchedCalls T₂ :=
  List.flatMap_append

/-- The calls of a trace are those of its commands. -/
theorem dispatchedCalls_eq (T : DispatchTrace) : dispatchedCalls T =
    (T.map Sigma.fst).flatMap fun c => c.calls.map fun call => (c.ids, call) := by
  rw [List.flatMap_map]
  rfl

theorem mem_dispatchedCalls {T : DispatchTrace} {c : DispatchCommand} {call : ToolCall}
    (hc : c ∈ T.map Sigma.fst) (hcall : call ∈ c.calls) : (c.ids, call) ∈ dispatchedCalls T := by
  rw [dispatchedCalls_eq]
  exact List.mem_flatMap.mpr ⟨c, hc, List.mem_map_of_mem hcall⟩

namespace ToolDispatcher

variable {d : ToolDispatcher} {T : DispatchTrace} {t : ToolTrace}

/-- How often a tool is executed along a trace of dispatches. -/
def executions (d : ToolDispatcher) (n : String) (T : DispatchTrace) : Nat :=
  (dispatchedCalls T).countP fun x => x.2.toolName = n ∧ d.Runs x.1 x.2

theorem executions_append (n : String) (T₁ T₂ : DispatchTrace) :
    d.executions n (T₁ ++ T₂) = d.executions n T₁ + d.executions n T₂ := by
  rw [executions, dispatchedCalls_append, List.countP_append]
  rfl

theorem executions_cons (n : String) (calls : List ToolCall) (ids : DispatchIds)
    (r : Except PyRaise (List ToolResult)) (T : DispatchTrace) :
    d.executions n (⟨.dispatch calls ids, r⟩ :: T) =
      (calls.countP fun call => call.toolName = n ∧ d.Runs ids call) + d.executions n T := by
  rw [executions, dispatchedCalls, List.flatMap_cons, List.countP_append, List.countP_map]
  rfl

theorem executions_eq_zero_iff {n : String} : d.executions n T = 0 ↔
    ∀ c ∈ T.map Sigma.fst, ∀ call ∈ c.calls, call.toolName = n → ¬ d.Runs c.ids call := by
  rw [executions, List.countP_eq_zero]
  constructor
  · intro h c hc call hcall hname hruns
    exact h (c.ids, call) (mem_dispatchedCalls hc hcall) (decide_eq_true ⟨hname, hruns⟩)
  · intro h x hx hrun
    rw [dispatchedCalls_eq] at hx
    obtain ⟨c, hc, hx⟩ := List.mem_flatMap.mp hx
    obtain ⟨call, hcall, rfl⟩ := List.mem_map.mp hx
    obtain ⟨hname, hruns⟩ := of_decide_eq_true hrun
    exact h c hc call hcall hname hruns

theorem executions_of_dispatch {ids : DispatchIds} {calls : List ToolCall}
    (h : T.map Sigma.fst = [.dispatch calls ids]) (n : String) :
    d.executions n T = calls.countP fun call => call.toolName = n ∧ d.Runs ids call := by
  rw [executions, dispatchedCalls_eq, h, List.flatMap_singleton, List.countP_map]
  rfl

/-- Where every dispatch returns, the executions of a tool are counted by the calls, and all
required calls are executed. -/
theorem executions_of_carriedOut (h : CarriedOut d.reply T t) (hreturn : AllReturn T) (n : String) :
    (executed t).count n = d.executions n T ∧
      ∀ x ∈ dispatchedCalls T, x.2.required = true → d.Runs x.1 x.2 := by
  induction h with
  | nil => exact ⟨rfl, fun x hx => absurd hx List.not_mem_nil⟩
  | @cons c r T t t' hreply _ ih =>
    obtain ⟨hcount, hrequired⟩ := ih fun step hstep => hreturn step (List.mem_cons_of_mem _ hstep)
    obtain ⟨results, hresults⟩ := hreturn _ List.mem_cons_self
    cases c with
    | dispatch calls ids =>
      rcases reply_trace hreply with ⟨results', hr, hdispatch⟩ | ⟨e, hr⟩
      · obtain ⟨hexecuted, hruns⟩ := dispatch_trace hdispatch n
        constructor
        · rw [executed_append, List.count_append, hexecuted, hcount, executions_cons]
        · intro x hx
          rcases List.mem_append.mp hx with hx | hx
          · obtain ⟨call, hcall, rfl⟩ := List.mem_map.mp hx
            exact hruns call hcall
          · exact hrequired x hx
      · obtain rfl := Except.ok.inj hr
        cases hresults

end ToolDispatcher

end LlmService
