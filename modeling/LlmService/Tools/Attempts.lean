import LlmService.Lib.ScriptTrace
import LlmService.Tools.Dispatcher

/-!
# What a dispatch makes of its calls

The calls that a dispatch attempts, each with what it came to, and what the
dispatch returns or raises for them. A tool that is cancelled is seen by
neither group: `_dispatch_parallel` reads `success` of the cancellation, and
`_dispatch_sequential` lets it pass.
-/

namespace LlmService

open Script (trace_pure_iff trace_throw_iff trace_bind_iff trace_handle_iff trace_mapM_cons_cases)

namespace ToolDispatcher

/-- A call, and what `_execute_single_tool` came to. -/
structure Attempt where
  call : ToolCall
  raw : Except PyRaise ToolResult

namespace Attempt

def succeeded (a : Attempt) : Bool :=
  match a.raw with
  | .ok result => result.success
  | .error _ => false

/-- A required call that did not succeed. -/
def failed (a : Attempt) : Bool := a.call.required && !a.succeeded

def cancelled (a : Attempt) : Bool :=
  match a.raw with
  | .error .cancelled => true
  | _ => false

/-- The call stops its group. -/
def stops (a : Attempt) : Bool := a.failed || a.cancelled

/-- The result is that of the call: what its tool returned, or a failure under its name. -/
def Gives (a : Attempt) (result : ToolResult) : Prop :=
  match a.raw with
  | .ok res => result = res
  | .error _ => result.toolName = a.call.toolName ∧ result.success = false

end Attempt

/-- The trace of calls that are attempted one after another. -/
inductive Attempts (d : ToolDispatcher) (ids : DispatchIds) : List Attempt → ToolTrace → Prop
  | nil : Attempts d ids [] []
  | cons {a : Attempt} {as : List Attempt} {t t' : ToolTrace} :
      (d.executeSingleTool ids a.call).Trace t a.raw → Attempts d ids as t' →
        Attempts d ids (a :: as) (t ++ t')

/-- The calls in the order of the groups. -/
def grouped (tools : List ToolCall) : List ToolCall :=
  tools.filter (·.parallel) ++ tools.filter (!·.parallel)

/-- `RequiredToolFailedError` is raised. -/
def RequiredFailed {α : Type} (r : Except PyRaise α) : Prop :=
  ∃ exc : Exc, r = .error (.exception exc) ∧ exc.cls = .requiredToolFailedError

/-- The dispatch raises for required calls that failed, and for nothing else;
it returns one result for each call; and behind a failed required call no
sequential one is attempted. -/
structure Accounted (tools : List ToolCall) (attempted : List Attempt)
    (r : Except PyRaise (List ToolResult)) : Prop where
  failed_iff : RequiredFailed r ↔ ∃ a ∈ attempted, a.failed = true
  only : ∀ e, r = .error e → RequiredFailed r
  each : ∀ results, r = .ok results →
    attempted.map (·.call) = grouped tools ∧ List.Forall₂ Attempt.Gives attempted results
  stops : attempted.Pairwise fun a b => a.failed = true → b.call.parallel = true

/-- Attempts that explain the trace: all parallel calls, and sequential ones from the first on. -/
structure Attempted (d : ToolDispatcher) (ids : DispatchIds) (tools : List ToolCall)
    (t : ToolTrace) (attempted : List Attempt) : Prop where
  trace : Attempts d ids attempted t
  calls : attempted.map (·.call) <+: grouped tools
  parallel : tools.filter (·.parallel) <+: attempted.map (·.call)

def Accounts (d : ToolDispatcher) (ids : DispatchIds) (tools : List ToolCall) (t : ToolTrace)
    (r : Except PyRaise (List ToolResult)) : Prop :=
  ∃ attempted, Attempted d ids tools t attempted ∧ Accounted tools attempted r

/-- The first call that is cancelled, or required and failed, is not cancelled. -/
def FailsBeforeCancelled (attempts : List Attempt) : Prop :=
  ∀ a ∈ attempts.find? Attempt.stops, a.cancelled = false

/-! ## One call -/

variable {d : ToolDispatcher} {ids : DispatchIds} {call : ToolCall} {calls tools : List ToolCall}
  {t : ToolTrace} {a : Attempt} {as : List Attempt} {stop : PyRaise}

/-- What is made of an attempt, where `stop` is what leaves a cancelled one. -/
inductive Checked (stop : PyRaise) (a : Attempt) {α : Type} (P : α → Prop) : Except PyRaise α → Prop
  | cancelled : a.cancelled = true → Checked stop a P (.error stop)
  | failed {exc : Exc} : a.failed = true → a.cancelled = false →
      exc.cls = .requiredToolFailedError → Checked stop a P (.error (.exception exc))
  | passed {result : α} : a.failed = false → a.cancelled = false → P result →
      Checked stop a P (.ok result)

/-- What `isinstance` misses: a cancellation has no `success`. -/
def noSuccess : Exc where
  cls := .other "AttributeError"
  message := "'CancelledError' object has no attribute 'success'"

theorem not_requiredFailed_noSuccess :
    ¬ RequiredFailed (.error (.exception noSuccess) : Except PyRaise (List ToolResult)) := by
  rintro ⟨exc, hexc, hcls⟩
  obtain rfl : noSuccess = exc := PyRaise.exception.inj (Except.error.inj hexc)
  cases hcls

theorem not_requiredFailed_cancelled :
    ¬ RequiredFailed (.error .cancelled : Except PyRaise (List ToolResult)) := by
  rintro ⟨exc, hexc, -⟩
  cases hexc

theorem parallelResult_checked {r : Except PyRaise ToolResult}
    (h : (parallelResult a.call a.raw).Trace t r) :
    t = [] ∧ Checked (.exception noSuccess) a a.Gives r := by
  obtain ⟨call, raw⟩ := a
  cases raw with
  | error e =>
    cases e with
    | cancelled =>
      obtain ⟨rfl, rfl⟩ := trace_throw_iff.mp h
      exact ⟨rfl, .cancelled rfl⟩
    | exception exc =>
      by_cases hrequired : call.required = true
      · rw [parallelResult, if_pos hrequired] at h
        obtain ⟨rfl, rfl⟩ := trace_throw_iff.mp h
        exact ⟨rfl, .failed (by simp [Attempt.failed, Attempt.succeeded, hrequired]) rfl rfl⟩
      · rw [parallelResult, if_neg hrequired] at h
        obtain ⟨rfl, rfl⟩ := trace_pure_iff.mp h
        exact ⟨rfl, .passed (by simp [Attempt.failed, hrequired]) rfl ⟨rfl, rfl⟩⟩
  | ok result =>
    by_cases hfailed : (!result.success) = true ∧ call.required = true
    · rw [parallelResult, if_pos hfailed] at h
      obtain ⟨rfl, rfl⟩ := trace_throw_iff.mp h
      refine ⟨rfl, .failed ?_ rfl rfl⟩
      show (call.required && !result.success) = true
      rw [hfailed.1, hfailed.2]
      rfl
    · rw [parallelResult, if_neg hfailed] at h
      obtain ⟨rfl, rfl⟩ := trace_pure_iff.mp h
      refine ⟨rfl, .passed ?_ rfl rfl⟩
      show (call.required && !result.success) = false
      rw [Bool.and_comm, Bool.eq_false_iff]
      intro hboth
      exact hfailed (Bool.and_eq_true_iff.mp hboth)

/-- A sequential call is attempted, and its failure is the one that is raised
again by the `except` around it. -/
theorem dispatchOne_checked {r : Except PyRaise ToolResult}
    (h : (d.dispatchOne ids call).Trace t r) :
    ∃ raw, (d.executeSingleTool ids call).Trace t raw ∧
      Checked .cancelled ⟨call, raw⟩ (Attempt.Gives ⟨call, raw⟩) r := by
  rcases trace_handle_iff.mp h with ⟨result, hbody, rfl⟩ | ⟨e, t₁, t₂, hbody, hcatch, rfl⟩
  · rcases trace_bind_iff.mp hbody with ⟨e, -, he⟩ | ⟨res, t₁, t₂, hexecute, hrest, rfl⟩
    · cases he
    · by_cases hfailed : (!res.success) = true ∧ call.required = true
      · rw [if_pos hfailed] at hrest
        cases (trace_throw_iff.mp hrest).2
      · rw [if_neg hfailed] at hrest
        obtain ⟨rfl, hresult⟩ := trace_pure_iff.mp hrest
        obtain rfl := Except.ok.inj hresult
        refine ⟨.ok result, by rwa [List.append_nil], .passed ?_ rfl rfl⟩
        show (call.required && !result.success) = false
        rw [Bool.and_comm, Bool.eq_false_iff]
        intro hboth
        exact hfailed (Bool.and_eq_true_iff.mp hboth)
  · rcases trace_bind_iff.mp hbody with ⟨e', hexecute, he⟩ | ⟨res, t₃, t₄, hexecute, hrest, rfl⟩
    · obtain rfl := Except.error.inj he
      cases e with
      | cancelled =>
        obtain ⟨rfl, rfl⟩ := trace_throw_iff.mp hcatch
        exact ⟨.error .cancelled, by rwa [List.append_nil], .cancelled rfl⟩
      | exception exc =>
        refine ⟨.error (.exception exc), ?_⟩
        by_cases hrequired : call.required = true
        · rw [sequentialFailed, if_pos hrequired] at hcatch
          obtain ⟨rfl, rfl⟩ := trace_throw_iff.mp hcatch
          refine ⟨by rwa [List.append_nil], .failed ?_ rfl rfl⟩
          simp [Attempt.failed, Attempt.succeeded, hrequired]
        · rw [sequentialFailed, if_neg hrequired] at hcatch
          obtain ⟨rfl, rfl⟩ := trace_pure_iff.mp hcatch
          refine ⟨by rwa [List.append_nil], .passed ?_ rfl ⟨rfl, rfl⟩⟩
          simp [Attempt.failed, hrequired]
    · by_cases hfailed : (!res.success) = true ∧ call.required = true
      · rw [if_pos hfailed] at hrest
        obtain ⟨rfl, he⟩ := trace_throw_iff.mp hrest
        obtain rfl := Except.error.inj he
        rw [sequentialFailed, if_pos hfailed.2] at hcatch
        obtain ⟨rfl, rfl⟩ := trace_throw_iff.mp hcatch
        refine ⟨.ok res, by simpa using hexecute, .failed ?_ rfl rfl⟩
        show (call.required && !res.success) = true
        rw [hfailed.1, hfailed.2]
        rfl
      · rw [if_neg hfailed] at hrest
        cases (trace_pure_iff.mp hrest).2

/-! ## The groups -/

/-- The calls of a group up to the one that is cancelled or fails, if there is one. -/
inductive Group (stop : PyRaise) : List Attempt → Except PyRaise (List ToolResult) → Prop
  | nil : Group stop [] (.ok [])
  | stopped {a : Attempt} {e : PyRaise} :
      Checked stop a a.Gives (.error e) → Group stop [a] (.error e)
  | cons {a : Attempt} {as : List Attempt} {result : ToolResult}
      {r : Except PyRaise (List ToolResult)} :
      Checked stop a a.Gives (.ok result) → Group stop as r →
        Group stop (a :: as) (r.map (result :: ·))

theorem gathered_attempt {raw : Except PyRaise (Except PyRaise ToolResult)}
    (h : (d.gathered ids call).Trace t raw) :
    ∃ res, raw = .ok res ∧ (d.executeSingleTool ids call).Trace t res := by
  rcases trace_handle_iff.mp h with ⟨res, hbody, rfl⟩ | ⟨e, t₁, t₂, hbody, hcatch, rfl⟩
  · rcases trace_bind_iff.mp hbody with ⟨e, -, he⟩ | ⟨result, t₁, t₂, hexecute, hrest, rfl⟩
    · cases he
    · obtain ⟨rfl, hres⟩ := trace_pure_iff.mp hrest
      obtain rfl := Except.ok.inj hres
      exact ⟨.ok result, rfl, by rwa [List.append_nil]⟩
  · rcases trace_bind_iff.mp hbody with ⟨e', hexecute, he⟩ | ⟨result, t₃, t₄, -, hrest, -⟩
    · obtain rfl := Except.error.inj he
      obtain ⟨rfl, rfl⟩ := trace_pure_iff.mp hcatch
      exact ⟨.error e, rfl, by rwa [List.append_nil]⟩
    · cases (trace_pure_iff.mp hrest).2

theorem gather_attempts {raws : Except PyRaise (List (Except PyRaise ToolResult))}
    (h : (calls.mapM (d.gathered ids)).Trace t raws) :
    ∃ as, Attempts d ids as t ∧ as.map (·.call) = calls ∧ raws = .ok (as.map (·.raw)) := by
  induction calls generalizing t raws with
  | nil =>
    obtain ⟨rfl, rfl⟩ := trace_pure_iff.mp h
    exact ⟨[], .nil, rfl, rfl⟩
  | cons call calls ih =>
    rcases trace_mapM_cons_cases h with ⟨e, hcall, -⟩ | ⟨raw, t₁, t₂, raws', hcall, hrest, rfl, rfl⟩
    · obtain ⟨res, hres, -⟩ := gathered_attempt hcall
      cases hres
    · obtain ⟨res, hres, hexecute⟩ := gathered_attempt hcall
      obtain rfl := Except.ok.inj hres
      obtain ⟨as, has, rfl, rfl⟩ := ih hrest
      exact ⟨⟨call, raw⟩ :: as, .cons hexecute has, rfl, rfl⟩

/-- The results of the parallel calls are checked in their order. -/
theorem parallelResults_group {pairs : List (ToolCall × Except PyRaise ToolResult)}
    {r : Except PyRaise (List ToolResult)}
    (h : (pairs.mapM fun (call, raw) => parallelResult call raw).Trace t r) :
    t = [] ∧ ∃ done later, pairs.map (fun x => ⟨x.1, x.2⟩) = done ++ later ∧
      Group (.exception noSuccess) done r ∧ ∀ results, r = .ok results → later = [] := by
  induction pairs generalizing t r with
  | nil =>
    obtain ⟨rfl, rfl⟩ := trace_pure_iff.mp h
    exact ⟨rfl, [], [], rfl, .nil, fun results _ => rfl⟩
  | cons pair pairs ih =>
    rcases trace_mapM_cons_cases h with ⟨e, hpair, rfl⟩ | ⟨result, t₁, t₂, r', hpair, hrest, rfl, rfl⟩
    · obtain ⟨rfl, hchecked⟩ := parallelResult_checked (a := ⟨pair.1, pair.2⟩) hpair
      exact ⟨rfl, [⟨pair.1, pair.2⟩], pairs.map _, rfl, .stopped hchecked,
        fun results hr => nomatch hr⟩
    · obtain ⟨rfl, hchecked⟩ := parallelResult_checked (a := ⟨pair.1, pair.2⟩) hpair
      obtain ⟨rfl, done, later, heq, hgroup, hnone⟩ := ih hrest
      refine ⟨rfl, ⟨pair.1, pair.2⟩ :: done, later, ?_, .cons hchecked hgroup, ?_⟩
      · rw [List.map_cons, heq, List.cons_append]
      · intro results hr
        cases r' with
        | error e => cases hr
        | ok results' => exact hnone results' rfl

theorem dispatchParallel_group {r : Except PyRaise (List ToolResult)}
    (h : (d.dispatchParallel ids calls).Trace t r) :
    ∃ done later, Attempts d ids (done ++ later) t ∧ (done ++ later).map (·.call) = calls ∧
      Group (.exception noSuccess) done r ∧ ∀ results, r = .ok results → later = [] := by
  rcases trace_bind_iff.mp h with ⟨e, hgather, -⟩ | ⟨raws, t₁, t₂, hgather, hresults, rfl⟩
  · obtain ⟨as, -, -, hraws⟩ := gather_attempts hgather
    cases hraws
  · obtain ⟨as, has, rfl, hraws⟩ := gather_attempts hgather
    obtain rfl := Except.ok.inj hraws
    obtain ⟨rfl, done, later, heq, hgroup, hnone⟩ := parallelResults_group hresults
    have hzip : ((as.map (·.call)).zip (as.map (·.raw))).map
        (fun x => (⟨x.1, x.2⟩ : Attempt)) = as := by
      rw [List.zip_map', List.map_map]
      exact List.map_id' as
    rw [hzip] at heq
    subst heq
    exact ⟨done, later, by rwa [List.append_nil], rfl, hgroup, hnone⟩

/-- The sequential calls are attempted until one of them stops the group. -/
theorem dispatchSequential_group {r : Except PyRaise (List ToolResult)}
    (h : (d.dispatchSequential ids calls).Trace t r) :
    ∃ as, Attempts d ids as t ∧ as.map (·.call) <+: calls ∧ Group .cancelled as r ∧
      ∀ results, r = .ok results → as.map (·.call) = calls := by
  rw [dispatchSequential] at h
  induction calls generalizing t r with
  | nil =>
    obtain ⟨rfl, rfl⟩ := trace_pure_iff.mp h
    exact ⟨[], .nil, List.nil_prefix, .nil, fun results _ => rfl⟩
  | cons call calls ih =>
    rcases trace_mapM_cons_cases h with ⟨e, hcall, rfl⟩ | ⟨result, t₁, t₂, r', hcall, hrest, rfl, rfl⟩
    · obtain ⟨raw, hexecute, hchecked⟩ := dispatchOne_checked hcall
      refine ⟨[⟨call, raw⟩], ?_, ?_, .stopped hchecked, fun results hr => nomatch hr⟩
      · rw [← List.append_nil t]
        exact .cons hexecute .nil
      · exact List.prefix_append [call] calls
    · obtain ⟨raw, hexecute, hchecked⟩ := dispatchOne_checked hcall
      obtain ⟨as, has, hprefix, hgroup, hall⟩ := ih hrest
      refine ⟨⟨call, raw⟩ :: as, .cons hexecute has, ?_, .cons hchecked hgroup, ?_⟩
      · exact (List.prefix_cons_inj call).mpr hprefix
      · intro results hr
        cases r' with
        | error e => cases hr
        | ok results' =>
          rw [List.map_cons, hall results' rfl]

/-- A group that returns has a result for each of its calls, and none of them failed. -/
theorem group_returned {results : List ToolResult} (h : Group stop as (.ok results)) :
    (∀ a ∈ as, a.stops = false) ∧ List.Forall₂ Attempt.Gives as results := by
  generalize hr : (Except.ok results : Except PyRaise (List ToolResult)) = r at h
  induction h generalizing results with
  | nil =>
    obtain rfl := Except.ok.inj hr
    exact ⟨List.forall_mem_nil _, .nil⟩
  | stopped h => cases hr
  | @cons a as result r hchecked hgroup ih =>
    cases r with
    | error e => cases hr
    | ok results' =>
      obtain rfl := Except.ok.inj hr
      obtain ⟨hpass, hgives⟩ := ih rfl
      cases hchecked with
      | passed hfailed hcancelled hresult =>
        refine ⟨List.forall_mem_cons.mpr ⟨?_, hpass⟩, .cons hresult hgives⟩
        rw [Attempt.stops, hfailed, hcancelled]
        rfl

/-- A group that raises does so for its last attempt. -/
theorem group_raised {e : PyRaise} (h : Group stop as (.error e)) :
    ∃ done a, as = done ++ [a] ∧ (∀ x ∈ done, x.stops = false) ∧
      Checked stop a a.Gives (.error e) := by
  generalize hr : (Except.error e : Except PyRaise (List ToolResult)) = r at h
  induction h generalizing e with
  | nil => cases hr
  | @stopped a e' h =>
    obtain rfl := Except.error.inj hr
    exact ⟨[], a, rfl, List.forall_mem_nil _, h⟩
  | @cons a as result r hchecked hgroup ih =>
    cases r with
    | ok results => cases hr
    | error e' =>
      obtain rfl := Except.error.inj hr
      obtain ⟨done, last, rfl, hpass, hlast⟩ := ih rfl
      cases hchecked with
      | passed hfailed hcancelled hresult =>
        refine ⟨a :: done, last, rfl, List.forall_mem_cons.mpr ⟨?_, hpass⟩, hlast⟩
        rw [Attempt.stops, hfailed, hcancelled]
        rfl

/-! ## The dispatch -/

/-- What is said of attempts, whatever the other calls would have come to. -/
structure Verdict (tools : List ToolCall) (attempted : List Attempt)
    (r : Except PyRaise (List ToolResult)) : Prop where
  accounted : ∀ rest : List Attempt, (attempted ++ rest).map (·.call) = grouped tools →
    FailsBeforeCancelled (attempted ++ rest) → Accounted tools attempted r
  other : ∀ rest : List Attempt, (attempted ++ rest).map (·.call) = grouped tools →
    ¬ FailsBeforeCancelled (attempted ++ rest) → ∃ e, r = .error e ∧ ¬ RequiredFailed r

theorem failsBeforeCancelled_iff {done later : List Attempt} (hdone : ∀ x ∈ done, x.stops = false)
    (ha : a.stops = true) : FailsBeforeCancelled (done ++ a :: later) ↔ a.cancelled = false := by
  have hfind : (done ++ a :: later).find? Attempt.stops = some a := by
    have hnone : done.find? Attempt.stops = none := by
      rw [List.find?_eq_none]
      intro x hx
      rw [Bool.not_eq_true]
      exact hdone x hx
    rw [List.find?_append, hnone]
    exact List.find?_cons_of_pos ha
  rw [FailsBeforeCancelled, hfind]
  simp

/-- Where the attempts stop at one, it decides. -/
theorem verdict_of_stopped {done later : List Attempt} {e : PyRaise}
    (hdone : ∀ x ∈ done, x.stops = false)
    (hstop : ¬ RequiredFailed (.error stop : Except PyRaise (List ToolResult)))
    (ha : Checked stop a a.Gives (.error e)) (hlater : ∀ b ∈ later, b.call.parallel = true) :
    Verdict tools (done ++ a :: later) (.error e) := by
  have hstops : a.stops = true := by
    cases ha with
    | cancelled h => rw [Attempt.stops, h, Bool.or_true]
    | failed h hcancelled => rw [Attempt.stops, h, Bool.true_or]
  have hpass : ∀ x ∈ done, x.failed = true → False := by
    intro x hx hfailed
    have hnot := hdone x hx
    rw [Attempt.stops, hfailed] at hnot
    cases hnot
  refine ⟨fun rest hrest hbefore => ?_, fun rest hrest hbefore => ?_⟩
  · rw [List.append_assoc, List.cons_append, failsBeforeCancelled_iff hdone hstops] at hbefore
    cases ha with
    | cancelled h =>
      rw [h] at hbefore
      cases hbefore
    | @failed exc hfailed hcancelled hcls =>
      refine ⟨⟨fun _ => ⟨a, by simp, hfailed⟩, fun _ => ⟨exc, rfl, hcls⟩⟩,
        fun e he => ⟨exc, rfl, hcls⟩, fun results hr => (by cases hr), ?_⟩
      rw [List.pairwise_append, List.pairwise_cons]
      refine ⟨?_, ⟨fun b hb _ => hlater b hb, ?_⟩, ?_⟩
      · apply List.pairwise_of_forall_mem_list
        intro x hx y _ hfails
        exact (hpass x hx hfails).elim
      · apply List.pairwise_of_forall_mem_list
        intro x _ y hy _
        exact hlater y hy
      · intro x hx y _ hfails
        exact (hpass x hx hfails).elim
  · rw [List.append_assoc, List.cons_append, failsBeforeCancelled_iff hdone hstops] at hbefore
    cases ha with
    | cancelled h => exact ⟨stop, rfl, hstop⟩
    | failed hfailed hcancelled hcls => exact absurd hcancelled hbefore

theorem verdict_of_returned {attempted : List Attempt} {results : List ToolResult}
    (hpass : ∀ a ∈ attempted, a.stops = false) (hcalls : attempted.map (·.call) = grouped tools)
    (hgives : List.Forall₂ Attempt.Gives attempted results) :
    Verdict tools attempted (.ok results) := by
  have hfails : ∀ a ∈ attempted, a.failed = false := by
    intro a ha
    have hstops := hpass a ha
    rw [Attempt.stops, Bool.or_eq_false_iff] at hstops
    exact hstops.1
  refine ⟨fun rest hrest hbefore => ⟨⟨?_, ?_⟩, ?_, ?_, ?_⟩, fun rest hrest hbefore => ?_⟩
  · rintro ⟨exc, hexc, -⟩
    cases hexc
  · rintro ⟨a, ha, hfailed⟩
    rw [hfails a ha] at hfailed
    cases hfailed
  · intro e he
    cases he
  · intro results' hresults
    obtain rfl := Except.ok.inj hresults
    exact ⟨hcalls, hgives⟩
  · apply List.pairwise_of_forall_mem_list
    intro a ha b _ hfailed
    rw [hfails a ha] at hfailed
    cases hfailed
  · exfalso
    apply hbefore
    rw [List.map_append, hcalls, List.append_right_eq_self, List.map_eq_nil_iff] at hrest
    subst hrest
    have hfind : (attempted ++ []).find? Attempt.stops = none := by
      rw [List.append_nil, List.find?_eq_none]
      intro a ha
      rw [Bool.not_eq_true]
      exact hpass a ha
    rw [FailsBeforeCancelled, hfind]
    simp

theorem Attempts.append {bs : List Attempt} {t' : ToolTrace} (h : Attempts d ids as t)
    (h' : Attempts d ids bs t') : Attempts d ids (as ++ bs) (t ++ t') := by
  induction h with
  | nil => exact h'
  | cons hcall _ ih =>
    rw [List.append_assoc]
    exact .cons hcall ih

/-- A dispatch attempts all parallel calls, and then sequential ones. -/
theorem dispatch_verdict {r : Except PyRaise (List ToolResult)}
    (h : (d.dispatch ids tools).Trace t r) :
    ∃ attempted, Attempted d ids tools t attempted ∧ Verdict tools attempted r := by
  rcases trace_bind_iff.mp h with ⟨e, hparallel, rfl⟩ | ⟨parallel, t₁, t₂, hparallel, hrest, rfl⟩
  · obtain ⟨done, later, has, hcalls, hgroup, -⟩ := dispatchParallel_group hparallel
    obtain ⟨done, a, rfl, hdone, ha⟩ := group_raised hgroup
    refine ⟨done ++ [a] ++ later, ⟨has, ?_, ?_⟩, ?_⟩
    · rw [hcalls]
      exact List.prefix_append _ _
    · rw [hcalls]
    · rw [List.append_assoc, List.singleton_append]
      refine verdict_of_stopped hdone not_requiredFailed_noSuccess ha fun b hb => ?_
      have hmem : b.call ∈ tools.filter (·.parallel) := by
        rw [← hcalls]
        exact List.mem_map_of_mem (by simp [hb])
      exact (List.mem_filter.mp hmem).2
  · obtain ⟨as, later, has, hcalls, hgroup, hnone⟩ := dispatchParallel_group hparallel
    obtain rfl := hnone parallel rfl
    rw [List.append_nil] at has hcalls
    obtain ⟨hpass, hgives⟩ := group_returned hgroup
    rcases trace_bind_iff.mp hrest with ⟨e, hsequential, rfl⟩ | ⟨results, t₃, t₄, hsequential, hpure, rfl⟩
    · obtain ⟨bs, hbs, hprefix, hgroup', -⟩ := dispatchSequential_group hsequential
      obtain ⟨done, b, rfl, hdone, hb⟩ := group_raised hgroup'
      refine ⟨as ++ (done ++ [b]), ⟨has.append hbs, ?_, ?_⟩, ?_⟩
      · rw [List.map_append, hcalls]
        exact (List.prefix_append_right_inj _).mpr hprefix
      · rw [List.map_append, hcalls]
        exact List.prefix_append _ _
      · rw [← List.append_assoc]
        refine verdict_of_stopped (fun x hx => ?_) not_requiredFailed_cancelled hb
          (List.forall_mem_nil _)
        exact (List.mem_append.mp hx).elim (hpass x) (hdone x)
    · obtain ⟨bs, hbs, -, hgroup', hall⟩ := dispatchSequential_group hsequential
      obtain ⟨hpass', hgives'⟩ := group_returned hgroup'
      obtain ⟨rfl, rfl⟩ := trace_pure_iff.mp hpure
      have hgrouped : (as ++ bs).map (·.call) = grouped tools := by
        rw [List.map_append, hcalls, hall results rfl]
        rfl
      refine ⟨as ++ bs, ⟨?_, ?_, ?_⟩, ?_⟩
      · rw [List.append_nil]
        exact has.append hbs
      · rw [hgrouped]
      · rw [hgrouped]
        exact List.prefix_append _ _
      · refine verdict_of_returned (fun x hx => ?_) hgrouped (List.rel_append hgives hgives')
        exact (List.mem_append.mp hx).elim (hpass x) (hpass' x)

/-- A dispatch accounts for its calls unless one of them is cancelled before a
required one has failed. -/
theorem accounts_iff_failsBeforeCancelled {r : Except PyRaise (List ToolResult)}
    (h : (d.dispatch ids tools).Trace t r) :
    ∃ attempted, Attempted d ids tools t attempted ∧
      ∀ rest : List Attempt, (attempted ++ rest).map (·.call) = grouped tools →
        (Accounts d ids tools t r ↔ FailsBeforeCancelled (attempted ++ rest)) := by
  obtain ⟨attempted, hattempted, hverdict⟩ := dispatch_verdict h
  refine ⟨attempted, hattempted, fun rest hrest => ⟨fun haccounts => ?_, fun hbefore => ?_⟩⟩
  · by_contra hbefore
    obtain ⟨e, rfl, hother⟩ := hverdict.other rest hrest hbefore
    obtain ⟨attempted', -, haccounted⟩ := haccounts
    exact hother (haccounted.only e rfl)
  · exact ⟨attempted, hattempted, hverdict.accounted rest hrest hbefore⟩

/-! ## A tool that is cancelled -/

/-- A tool without parameters, which is enabled. -/
def oneTool : ToolDispatcher where
  registry := ToolRegistry.empty.register { name := "clock" }

/-- An optional call of it is enough. -/
def clockCall : ToolCall := { toolName := "clock" }

/-- Every execution ends like this. -/
def alwaysEnds (outcome : ToolOutcome) : (c : ToolCommand) → ToolReply c := fun _ => outcome

/-- The dispatch of the optional call with the run in which its tool is cancelled. -/
theorem optionalCall_notAccounted :
    ∃ t r, (oneTool.dispatch {} [clockCall]).Trace t r ∧ ¬ Accounts oneTool {} [clockCall] t r := by
  refine ⟨_, _, Script.trace_follow (alwaysEnds .cancelled) _, ?_⟩
  rintro ⟨attempted, -, haccounted⟩
  have hraised : ((oneTool.dispatch {} [clockCall]).follow (alwaysEnds .cancelled)).2 =
      .error (.exception noSuccess) := rfl
  rw [hraised] at haccounted
  exact not_requiredFailed_noSuccess (haccounted.only _ rfl)

/-- A clock, a sum and a lock. -/
def threeTools : ToolDispatcher where
  registry := ((ToolRegistry.empty.register { name := "clock" }).register { name := "sum" }).register
    { name := "lock" }

/-- Two parallel calls, of which one is required, and three sequential ones. -/
def mixedCalls : List ToolCall :=
  [{ toolName := "clock" }, { toolName := "clock", parallel := false },
    { toolName := "sum", required := true }, { toolName := "lock", parallel := false, required := true },
    { toolName := "sum", parallel := false }]

/-- The clock times out, the sum succeeds, and the lock does not. -/
def lockFails : (c : ToolCommand) → ToolReply c
  | .execute tool _ =>
    if tool = "clock" then .timedOut
    else .returned { toolName := tool, success := tool = "sum" }

/-- The required sequential call fails behind three that are passed, and the last call is not made. -/
theorem mixedCalls_accounted : ∃ t r, (threeTools.dispatch {} mixedCalls).Trace t r ∧ t.length = 4 ∧
    RequiredFailed r ∧ ∃ attempted, Attempted threeTools {} mixedCalls t attempted ∧
      ∀ rest : List Attempt, (attempted ++ rest).map (·.call) = grouped mixedCalls →
        (Accounts threeTools {} mixedCalls t r ↔ FailsBeforeCancelled (attempted ++ rest)) :=
  ⟨_, _, Script.trace_follow lockFails _, rfl, ⟨_, rfl, rfl⟩,
    accounts_iff_failsBeforeCancelled (Script.trace_follow lockFails _)⟩

end ToolDispatcher

end LlmService
