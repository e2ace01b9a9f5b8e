import LlmService.Lib.ScriptTrace
import LlmService.Visualization.Runner
import Mathlib.Data.List.Chain

/-!
# The attempt budget of a job

What `_run_job` calls, whatever the store, the validation, the repairs and the
renderer answer: along every trace of the runner, the renderer and the repair
callback are called within the attempts of the record, the attempt behind a
transient failure repairs nothing, and a permanent failure is the last thing
that is rendered.
-/

namespace LlmService

/-- What a runner has called, and how it was answered. -/
abbrev JobTrace := List (Σ c : JobCommand, c.Reply)

namespace JobCommand

def isAttempt : JobCommand → Bool
  | attempt _ => true
  | _ => false

def isRender : JobCommand → Bool
  | .render _ => true
  | _ => false

/-- The attempt that a repair is asked for in. -/
def repairAttempt : JobCommand → Option Int
  | .repair _ _ number => some number
  | _ => none

/-- Nothing of an attempt that is counted, and nothing that may fail. -/
def Quiet : JobCommand → Prop
  | attempt _ | repair _ _ _ | render _ | save _ => False
  | _ => True

end JobCommand

namespace JobTrace

/-- How often the renderer is called. -/
def renders (t : JobTrace) : Nat := t.countP (·.1.isRender)

/-- The attempts in which the repair callback is called. -/
def repairs (t : JobTrace) : List Int := t.filterMap (·.1.repairAttempt)

/-- The attempts of a trace, behind what comes before the first. -/
def byAttempt (t : JobTrace) : List JobTrace := t.splitOnP (·.1.isAttempt)

/-- The failure of a render: the category it comes with, or the storage's. -/
def failure : (Σ c : JobCommand, c.Reply) → Option FailureCategory
  | ⟨.render _, reply⟩ =>
    match (reply : Except Exc RenderResult) with
    | .ok result =>
      match result.ok, result.path with
      | true, some _ => none
      | _, _ => some (result.category.getD .renderError)
    | .error _ => none
  | ⟨.save _, reply⟩ =>
    match (reply : Except Exc String) with
    | .error _ => some .storageFailure
    | .ok _ => none
  | _ => none

/-- The render has failed for a reason of the kind. -/
def FailsBy (kind : List FailureCategory) (step : Σ c : JobCommand, c.Reply) : Prop :=
  ∃ category ∈ failure step, category ∈ kind

/-- Within the attempts of a job, which has `maxAttempts` of them. -/
structure Budgeted (maxAttempts : Int) (t : JobTrace) : Prop where
  renders_le : renders t ≤ maxAttempts
  repairs_le : (repairs t).length ≤ maxAttempts - 1
  repairs_increase : (repairs t).Pairwise (· < ·)
  repairs_bounds : ∀ attempt ∈ repairs t, 2 ≤ attempt ∧ attempt ≤ maxAttempts
  transient_spared : (byAttempt t).IsChain fun failed next =>
    (∃ step ∈ failed, FailsBy FailureCategory.transient step) → repairs next = []
  permanent_last : t.Pairwise fun failed later =>
    FailsBy FailureCategory.permanent failed →
      later.1.isRender = false ∧ later.1.repairAttempt = none

end JobTrace

/-- Nothing that the methods of a store call is counted. -/
structure JobStore.IsQuiet (store : JobStore) : Prop where
  get : store.get.Only JobCommand.Quiet
  update : ∀ new fields, (store.update new fields).Only JobCommand.Quiet
  claim : store.claim.Only JobCommand.Quiet

theorem JobCommand.call_quiet {c : JobCommand} (h : c.Quiet) : c.call.Only Quiet :=
  ⟨h, fun _ => trivial⟩

theorem RedisJobStore.updateFrom_quiet (new : JobState) (fields : Fields) (tries : Nat) :
    (updateFrom new fields tries).Only JobCommand.Quiet := by
  induction tries with
  | zero => trivial
  | succ tries ih =>
    apply Script.only_command_bind trivial
    intro version
    apply Script.only_command_bind trivial
    intro found
    cases found with
    | none => trivial
    | some rec =>
      apply Script.only_command_bind trivial
      intro now
      cases hdecision : rec.onUpdate new fields now with
      | kept => trivial
      | refused => trivial
      | written rec' =>
        apply Script.only_command_bind trivial
        intro executed
        cases executed with
        | true => trivial
        | false => exact ih

theorem Deployment.store_quiet (d : Deployment) : d.store.IsQuiet := by
  cases d with
  | inline =>
    exact ⟨JobCommand.call_quiet trivial, fun _ _ => JobCommand.call_quiet trivial,
      JobCommand.call_quiet trivial⟩
  | worker =>
    exact ⟨JobCommand.call_quiet trivial,
      fun new fields => RedisJobStore.updateFrom_quiet new fields _,
      JobCommand.call_quiet trivial⟩

namespace Runner

open JobTrace Script

/-! ## One attempt -/

/-- One attempt as it is traced: `repairing` is the attempt that it may repair
in, `r` how it ends. -/
structure Pass (repairing : Option Int) (t : JobTrace) (r : Except Exc AttemptEnd) : Prop where
  unmarked : ∀ step ∈ t, step.1.isAttempt = false
  renders_le : renders t ≤ 1
  repairs_sublist : (repairs t).Sublist repairing.toList
  permanent_last : t.Pairwise fun failed later =>
    FailsBy FailureCategory.permanent failed →
      later.1.isRender = false ∧ later.1.repairAttempt = none
  transient : (∃ step ∈ t, FailsBy FailureCategory.transient step) →
    ∀ a, r = .ok (.goesOn a) → a.needRepair = false
  permanent : (∃ step ∈ t, FailsBy FailureCategory.permanent step) → ∀ a, r ≠ .ok (.goesOn a)

section Pass

variable {c : JobCommand} {reply : c.Reply} {step : Σ c : JobCommand, c.Reply} {q t : JobTrace}
  {r : Except Exc AttemptEnd} {n : Option Int} {kind : List FailureCategory}

theorem calls_of_quiet (h : c.Quiet) :
    c.isAttempt = false ∧ c.isRender = false ∧ c.repairAttempt = none := by
  cases c <;> first | exact ⟨rfl, rfl, rfl⟩ | exact h.elim

theorem not_failsBy_of_quiet (h : step.1.Quiet) : ¬ FailsBy kind step := by
  intro hfails
  obtain ⟨category, hfailure, -⟩ := hfails
  obtain ⟨c, reply⟩ := step
  cases c <;> first | exact h.elim | cases hfailure

theorem repairs_of_quiet (h : ∀ step ∈ q, step.1.Quiet) : repairs q = [] :=
  List.filterMap_eq_nil_iff.mpr fun step hstep => (calls_of_quiet (h step hstep)).2.2

theorem renders_of_quiet (h : ∀ step ∈ q, step.1.Quiet) : renders q = 0 :=
  List.countP_eq_zero.mpr fun step hstep => by rw [(calls_of_quiet (h step hstep)).2.1]; decide

theorem renders_append (q t : JobTrace) : renders (q ++ t) = renders q + renders t :=
  List.countP_append

theorem repairs_append (q t : JobTrace) : repairs (q ++ t) = repairs q ++ repairs t :=
  List.filterMap_append

theorem repairs_cons (h : step.1.repairAttempt = none) : repairs (step :: t) = repairs t :=
  List.filterMap_cons_none h

/-- Behind what has not failed anything may follow. -/
theorem pairwise_of_unfailed {P : (Σ c : JobCommand, c.Reply) → Prop}
    (h : ∀ step ∈ q, ¬ FailsBy kind step) :
    q.Pairwise fun failed later => FailsBy kind failed → P later := by
  apply List.pairwise_of_forall_mem_list
  intro step hstep _ _ hkind
  exact absurd hkind (h step hstep)

theorem unfailed_of_quiet (h : ∀ step ∈ q, step.1.Quiet) : ∀ step ∈ q, ¬ FailsBy kind step :=
  fun step hstep => not_failsBy_of_quiet (h step hstep)

/-- Before quiet steps a pass may have rendered and saved, and what came last
may have failed. -/
theorem Pass.of_last {before : JobTrace} (step : Σ c : JobCommand, c.Reply) (hq : ∀ step ∈ q, step.1.Quiet)
    (hbefore : ∀ s ∈ before, s.1.isAttempt = false ∧ s.1.repairAttempt = none ∧
      ∀ kind, ¬ FailsBy kind s)
    (hlast : step.1.isAttempt = false ∧ step.1.repairAttempt = none)
    (hrenders : renders (before ++ [step]) ≤ 1)
    (htransient : FailsBy FailureCategory.transient step →
      ∀ a, r = .ok (.goesOn a) → a.needRepair = false)
    (hpermanent : FailsBy FailureCategory.permanent step → ∀ a, r ≠ .ok (.goesOn a)) :
    Pass n (before ++ step :: q) r := by
  have hfails : ∀ {kind}, (∃ s ∈ before ++ step :: q, FailsBy kind s) → FailsBy kind step := by
    intro kind h
    obtain ⟨s, hs, hkind⟩ := h
    rcases List.mem_append.mp hs with hs | hs
    · exact absurd hkind ((hbefore s hs).2.2 kind)
    · rcases List.mem_cons.mp hs with rfl | hs
      · exact hkind
      · exact absurd hkind (not_failsBy_of_quiet (hq s hs))
  refine ⟨?_, ?_, ?_, ?_, fun h => htransient (hfails h), fun h => hpermanent (hfails h)⟩
  · intro s hs
    rcases List.mem_append.mp hs with hs | hs
    · exact (hbefore s hs).1
    · rcases List.mem_cons.mp hs with rfl | hs
      · exact hlast.1
      · exact (calls_of_quiet (hq s hs)).1
  · rw [List.append_cons, renders_append, renders_of_quiet hq]
    exact hrenders
  · have hnone : repairs (before ++ step :: q) = [] := by
      rw [repairs, List.filterMap_eq_nil_iff]
      intro s hs
      rcases List.mem_append.mp hs with hs | hs
      · exact (hbefore s hs).2.1
      · rcases List.mem_cons.mp hs with rfl | hs
        · exact hlast.2
        · exact (calls_of_quiet (hq s hs)).2.2
    rw [hnone]
    exact List.nil_sublist _
  · rw [List.pairwise_append, List.pairwise_cons]
    refine ⟨pairwise_of_unfailed fun s hs => (hbefore s hs).2.2 _,
      ⟨?_, pairwise_of_unfailed (unfailed_of_quiet hq)⟩, ?_⟩
    · intro s hs _
      exact (calls_of_quiet (hq s hs)).2
    · intro s hs _ _ hkind
      exact absurd hkind ((hbefore s hs).2.2 _)

/-- A pass in which nothing is counted. -/
theorem Pass.of_quiet (hq : ∀ step ∈ q, step.1.Quiet) : Pass n q r where
  unmarked step hstep := (calls_of_quiet (hq step hstep)).1
  renders_le := by rw [renders_of_quiet hq]; exact Nat.zero_le 1
  repairs_sublist := by rw [repairs_of_quiet hq]; exact List.nil_sublist _
  permanent_last := pairwise_of_unfailed (unfailed_of_quiet hq)
  transient h := by
    obtain ⟨step, hstep, hfails⟩ := h
    exact absurd hfails (not_failsBy_of_quiet (hq step hstep))
  permanent h := by
    obtain ⟨step, hstep, hfails⟩ := h
    exact absurd hfails (not_failsBy_of_quiet (hq step hstep))

/-- Steps that fail in no way and render nothing change nothing, but for a
repair that is allowed for. -/
theorem Pass.cons {m : Option Int} (h : Pass m t r) (hmark : step.1.isAttempt = false)
    (hrender : step.1.isRender = false) (hfails : ∀ kind, ¬ FailsBy kind step)
    (hrepair : (repairs (step :: t)).Sublist n.toList) : Pass n (step :: t) r := by
  have hlater : ∀ {kind}, (∃ s ∈ step :: t, FailsBy kind s) → ∃ s ∈ t, FailsBy kind s := by
    intro kind h
    obtain ⟨s, hs, hkind⟩ := h
    rcases List.mem_cons.mp hs with rfl | hs
    · exact absurd hkind (hfails kind)
    · exact ⟨s, hs, hkind⟩
  refine ⟨List.forall_mem_cons.mpr ⟨hmark, h.unmarked⟩, ?_, hrepair, ?_,
    fun hs => h.transient (hlater hs), fun hs => h.permanent (hlater hs)⟩
  · have hle := h.renders_le
    rw [renders] at hle ⊢
    rw [List.countP_cons_of_neg (by rw [hrender]; decide)]
    exact hle
  · exact List.pairwise_cons.mpr
      ⟨fun _ _ hkind => absurd hkind (hfails _), h.permanent_last⟩

theorem Pass.quiet_cons (h : Pass n t r) (hq : step.1.Quiet) : Pass n (step :: t) r := by
  obtain ⟨hmark, hrender, hrepair⟩ := calls_of_quiet hq
  refine h.cons hmark hrender (fun _ => not_failsBy_of_quiet hq) ?_
  rw [repairs_cons hrepair]
  exact h.repairs_sublist

/-- The attempt that a pass repairs in. -/
theorem Pass.eq_of_mem_repairs (h : Pass n t r) {attempt : Int} (hattempt : attempt ∈ repairs t) :
    n = some attempt := Option.mem_toList.mp (h.repairs_sublist.subset hattempt)

theorem Pass.repairs_increase (h : Pass n t r) : (repairs t).Pairwise (· < ·) := by
  refine List.Pairwise.sublist h.repairs_sublist ?_
  cases n with
  | none => exact .nil
  | some attempt => exact List.pairwise_singleton _ attempt

theorem Pass.quiet_append (hq : ∀ step ∈ q, step.1.Quiet) (h : Pass n t r) :
    Pass n (q ++ t) r := by
  induction q with
  | nil => exact h
  | cons step q ih =>
    obtain ⟨hstep, hq⟩ := List.forall_mem_cons.mp hq
    exact (ih hq).quiet_cons hstep

end Pass

/-! ## Attempts as scripts -/

/-- However it is answered, the script is one attempt. -/
def Passes (n : Option Int) (p : JobScript AttemptEnd) : Prop := ∀ t r, p.Trace t r → Pass n t r

section Scripts

variable {α : Type} {n : Option Int} {p : JobScript α} {f : α → JobScript AttemptEnd}

theorem passes_of_quiet {p : JobScript AttemptEnd} (hp : p.Only JobCommand.Quiet) : Passes n p :=
  fun _ _ h => .of_quiet (hp.of_trace h)

theorem passes_bind (hp : p.Only JobCommand.Quiet) (hf : ∀ a, Passes n (f a)) :
    Passes n (p >>= f) := by
  intro t r h
  rcases trace_bind_iff.mp h with ⟨e, hfirst, rfl⟩ | ⟨a, t₁, t₂, hfirst, hrest, rfl⟩
  · exact .of_quiet (hp.of_trace hfirst)
  · exact (hf a t₂ r hrest).quiet_append (hp.of_trace hfirst)

end Scripts

/-! ## The parts of an attempt -/

theorem failed_transient {a a' : Attempting} {last : FailureCategory}
    (hlast : last ∈ FailureCategory.transient) (h : a.failed last = .goesOn a') :
    a'.needRepair = false := by
  simp only [Attempting.failed, AttemptTracker.nextStep] at h
  have hrepairable : last ∉ FailureCategory.repairable := by
    revert hlast
    cases last <;> decide
  split at h
  · cases h
  · rename_i hstep
    rw [if_neg hrepairable] at hstep
    split at hstep <;> cases hstep
  · obtain rfl := AttemptEnd.goesOn.inj h
    rfl

theorem failed_permanent {a a' : Attempting} {last : FailureCategory}
    (hlast : last ∈ FailureCategory.permanent) : a.failed last ≠ .goesOn a' := by
  intro h
  simp only [Attempting.failed, AttemptTracker.nextStep, if_pos (Or.inr hlast)] at h
  cases h

/-- What follows a failure decides how the attempt ends. -/
theorem Pass.of_failed {a : Attempting} {before : JobTrace} (step : Σ c : JobCommand, c.Reply)
    {last : FailureCategory} {n : Option Int} (hfailure : failure step = some last)
    (hbefore : ∀ s ∈ before, s.1.isAttempt = false ∧ s.1.repairAttempt = none ∧
      ∀ kind, ¬ FailsBy kind s)
    (hlast : step.1.isAttempt = false ∧ step.1.repairAttempt = none)
    (hrenders : renders (before ++ [step]) ≤ 1) :
    Pass n (before ++ [step]) (.ok (a.failed last)) := by
  have hkind : ∀ {kind}, FailsBy kind step → last ∈ kind := by
    intro kind h
    obtain ⟨category, hcategory, hmem⟩ := h
    rw [hfailure] at hcategory
    rwa [Option.some.inj hcategory]
  apply Pass.of_last step (List.forall_mem_nil _) hbefore hlast hrenders
  · intro h a' ha'
    exact failed_transient (hkind h) (Except.ok.inj ha')
  · intro h a' ha'
    exact failed_permanent (hkind h) (Except.ok.inj ha')

variable {store : JobStore} {cfg : RunConfig}

theorem orGet_quiet (hstore : store.IsQuiet) (updated : Option JobRecord) :
    (orGet store updated).Only JobCommand.Quiet := by
  cases updated with
  | none => exact hstore.get
  | some rec => trivial

/-- A render that is answered with a result. -/
abbrev rendered (spec : String) (result : RenderResult) : Σ c : JobCommand, c.Reply :=
  ⟨.render spec, (.ok result : Except Exc RenderResult)⟩

/-- Saving what was rendered. -/
abbrev saved (path : String) (reply : Except Exc String) : Σ c : JobCommand, c.Reply :=
  ⟨.save path, reply⟩

theorem renders_singleton_le (step : Σ c : JobCommand, c.Reply) : renders [step] ≤ 1 :=
  List.countP_le_length

/-- A job that is cancelled while it renders is rendered no more. -/
theorem cancelled_passes (hstore : store.IsQuiet) (spec : String) (result : RenderResult)
    {t : JobTrace} {r : Except Exc AttemptEnd}
    (h : Trace (do
      let _ ← store.update .cancelled {}
      return .returned (← store.get)) t r) : Pass none (rendered spec result :: t) r := by
  have hquiet : Script.Only JobCommand.Quiet (do
      let _ ← store.update .cancelled {}
      return AttemptEnd.returned (← store.get) : JobScript AttemptEnd) := by
    apply only_bind (hstore.update _ _)
    intro _
    exact only_bind hstore.get fun _ => trivial
  have hreturned : Script.Yields (fun ended => ∃ rec, ended = .returned rec) (do
      let _ ← store.update .cancelled {}
      return AttemptEnd.returned (← store.get) : JobScript AttemptEnd) := by
    apply (yields_trivial _).bind
    intro _ _
    apply (yields_trivial _).bind
    intro rec _
    exact ⟨rec, rfl⟩
  have hstops : ∀ a, r ≠ .ok (.goesOn a) := by
    intro a ha
    obtain ⟨rec, hrec⟩ := hreturned.of_trace h _ ha
    cases hrec
  exact Pass.of_last _ (hquiet.of_trace h) (List.forall_mem_nil _) ⟨rfl, rfl⟩
    (renders_singleton_le _) (fun _ a ha => absurd ha (hstops a)) fun _ => hstops

/-- What follows a render without a video. -/
theorem notRendered_passes (hstore : store.IsQuiet) (a : Attempting) (spec : String)
    {result : RenderResult}
    (hfailure : failure (rendered spec result) = some (result.category.getD .renderError))
    {t : JobTrace} {r : Except Exc AttemptEnd}
    (h : Trace (if result.category.getD .renderError = .cancelled then do
        let _ ← store.update .cancelled {}
        return .returned (← store.get)
      else return a.failed (result.category.getD .renderError)) t r) :
    Pass none (rendered spec result :: t) r := by
  by_cases hcancelled : result.category.getD .renderError = .cancelled
  · rw [if_pos hcancelled] at h
    exact cancelled_passes hstore spec result h
  · rw [if_neg hcancelled] at h
    obtain ⟨rfl, rfl⟩ := trace_pure_iff.mp h
    exact Pass.of_failed _ hfailure (List.forall_mem_nil _) ⟨rfl, rfl⟩ (renders_singleton_le _)

/-- What follows a video. -/
theorem rendered_passes (hstore : store.IsQuiet) (a : Attempting) (spec path : String)
    (category : Option FailureCategory) {t : JobTrace} {r : Except Exc AttemptEnd}
    (h : Trace (do
      let reply : Except Exc String ← (JobCommand.save path).call
      match reply with
      | .error _ => return a.failed .storageFailure
      | .ok key =>
        let done ← store.update .ready
          { mediaKey := some key, failure := some none, history := some a.tracker.history }
        return .returned (← orGet store done)) t r) :
    Pass none (rendered spec ⟨true, category, some path⟩ :: t) r := by
  obtain ⟨reply, rest, rfl, hreply⟩ := trace_command_bind_iff.mp h
  have hbefore : ∀ s ∈ [rendered spec ⟨true, category, some path⟩],
      s.1.isAttempt = false ∧ s.1.repairAttempt = none ∧ ∀ kind, ¬ FailsBy kind s := by
    intro s hs
    rw [List.mem_singleton] at hs
    subst hs
    refine ⟨rfl, rfl, ?_⟩
    intro kind hfails
    obtain ⟨c, hc, -⟩ := hfails
    cases hc
  cases reply with
  | error exc =>
    obtain ⟨rfl, rfl⟩ := trace_pure_iff.mp hreply
    exact Pass.of_failed (saved path (.error exc)) rfl hbefore ⟨rfl, rfl⟩ (Nat.le_refl 1)
  | ok key =>
    have hquiet : Script.Only JobCommand.Quiet (do
        let done ← store.update .ready
          { mediaKey := some key, failure := some none, history := some a.tracker.history }
        return AttemptEnd.returned (← orGet store done) : JobScript AttemptEnd) := by
      apply only_bind (hstore.update _ _)
      intro done
      exact only_bind (orGet_quiet hstore done) fun _ => trivial
    have hnone : ∀ kind, ¬ FailsBy kind (saved path (.ok key)) := by
      intro kind hfails
      obtain ⟨c, hc, -⟩ := hfails
      cases hc
    exact Pass.of_last (saved path (.ok key)) (hquiet.of_trace hreply) hbefore ⟨rfl, rfl⟩
      (Nat.le_refl 1) (fun hfails => absurd hfails (hnone _)) fun hfails => absurd hfails (hnone _)

theorem renderSpec_passes (hstore : store.IsQuiet) (a : Attempting) :
    Passes none (renderSpec store a) := by
  apply passes_bind (hstore.update _ _)
  intro _ t r h
  obtain ⟨reply, rest, rfl, hreply⟩ := trace_command_bind_iff.mp h
  cases reply with
  | error exc =>
    obtain ⟨rfl, rfl⟩ := trace_throw_iff.mp hreply
    apply Pass.of_last _ (List.forall_mem_nil _) (List.forall_mem_nil _) ⟨rfl, rfl⟩
      (renders_singleton_le _)
    · intro _ a' ha'
      cases ha'
    · intro _ a' ha'
      cases ha'
  | ok result =>
    obtain ⟨ok, category, path⟩ := result
    cases ok with
    | false => exact notRendered_passes hstore a a.specJson rfl hreply
    | true =>
      cases path with
      | none => exact notRendered_passes hstore a a.specJson rfl hreply
      | some path => exact rendered_passes hstore a a.specJson path category hreply

theorem validateSpec_passes (hstore : store.IsQuiet) (a : Attempting) :
    Passes none (validateSpec store a) := by
  apply passes_bind (JobCommand.call_quiet (c := .validate a.specJson) trivial)
  intro reply
  cases reply with
  | ok => exact renderSpec_passes hstore a
  | specError unsupported => exact passes_of_quiet trivial
  | valueError => exact passes_of_quiet trivial
  | raised exc => exact passes_of_quiet trivial

/-- A repair is asked for at most once, in the attempt. -/
theorem repairSpec_trace {a : Attempting} {attempt : Int} {t : JobTrace}
    {r : Except Exc (Option String)} (h : (repairSpec cfg a attempt).Trace t r) :
    t = [] ∨ ∃ reply : Except Exc (Option String), t = [⟨.repair a.specJson a.last attempt, reply⟩] := by
  unfold repairSpec at h
  split at h
  · obtain ⟨reply, rest, rfl, hreply⟩ := trace_command_bind_iff.mp h
    right
    cases reply with
    | ok fixed =>
      obtain ⟨rfl, -⟩ := trace_pure_iff.mp hreply
      exact ⟨.ok fixed, rfl⟩
    | error exc =>
      obtain ⟨rfl, -⟩ := trace_throw_iff.mp hreply
      exact ⟨.error exc, rfl⟩
  · exact .inl (trace_pure_iff.mp h).1

theorem Pass.repair {spec : String} {last : FailureCategory} {attempt : Int} {t : JobTrace}
    {reply : Except Exc (Option String)} {r : Except Exc AttemptEnd} (h : Pass none t r) :
    Pass (some attempt) (⟨.repair spec last attempt, reply⟩ :: t) r := by
  refine h.cons rfl rfl ?_ ?_
  · intro kind hfails
    obtain ⟨category, hcategory, -⟩ := hfails
    cases hcategory
  · have hnone : repairs t = [] := List.eq_nil_of_sublist_nil h.repairs_sublist
    show (attempt :: repairs t).Sublist [attempt]
    rw [hnone]

theorem Pass.mono {t : JobTrace} {r : Except Exc AttemptEnd} (h : Pass none t r)
    (n : Option Int) : Pass n t r :=
  { h with repairs_sublist := h.repairs_sublist.trans (List.nil_sublist _) }

/-- The attempt in which the next pass may ask for a repair. -/
def repairing (a : Attempting) (attempt : Int) : Option Int :=
  if a.needRepair then some attempt else none

theorem attemptOnce_passes (hstore : store.IsQuiet) (a : Attempting) (attempt : Int) :
    Passes (repairing a attempt) (attemptOnce store cfg a attempt) := by
  apply passes_bind (hstore.update _ _)
  intro begun
  cases begun with
  | none => exact passes_of_quiet (only_bind hstore.get fun _ => trivial)
  | some begun =>
    by_cases hrepair : a.needRepair = true
    · simp only [repairing, hrepair, if_true]
      apply passes_bind (hstore.update _ _)
      intro _ t r h
      have hlater : ∀ fixed, Passes none (match fixed with
          | none => return a.notFixed cfg.hasRepair
          | some fixed => do
            let _ ← store.update .validating {}
            validateSpec store { a with specJson := fixed, needRepair := false }) := by
        intro fixed
        cases fixed with
        | none => exact passes_of_quiet trivial
        | some fixed =>
          exact passes_bind (hstore.update _ _) fun _ => validateSpec_passes hstore _
      rcases trace_bind_iff.mp h with ⟨e, hfirst, rfl⟩ | ⟨fixed, t₁, t₂, hfirst, hrest, rfl⟩
      · rcases repairSpec_trace hfirst with rfl | ⟨reply, rfl⟩
        · exact Pass.of_quiet (List.forall_mem_nil _)
        · exact (Pass.of_quiet (List.forall_mem_nil _)).repair
      · rcases repairSpec_trace hfirst with rfl | ⟨reply, rfl⟩
        · exact (hlater fixed t₂ r hrest).mono _
        · exact (hlater fixed t₂ r hrest).repair
    · simp only [repairing, hrepair]
      exact validateSpec_passes hstore a

/-! ## The loop -/

/-- What is called from the state of the loop on, in which `used` of the
attempts are used. -/
structure Rest (maxAttempts used : Int) (needRepair : Bool) (t : JobTrace) : Prop where
  renders_le : (renders t : Int) ≤ max 0 (maxAttempts - used)
  repairs_increase : (repairs t).Pairwise (· < ·)
  repairs_bounds : ∀ attempt ∈ repairs t, used < attempt ∧ attempt ≤ maxAttempts ∧
    (needRepair = false → used + 1 < attempt)
  transient_spared : ∃ quiet rest, byAttempt t = quiet :: rest ∧ (∀ step ∈ quiet, step.1.Quiet) ∧
    (rest.IsChain fun failed next =>
      (∃ step ∈ failed, FailsBy FailureCategory.transient step) → repairs next = []) ∧
    (needRepair = false → ∀ next ∈ rest.head?, repairs next = [])
  permanent_last : t.Pairwise fun failed later =>
    FailsBy FailureCategory.permanent failed →
      later.1.isRender = false ∧ later.1.repairAttempt = none

section Rest

variable {maxAttempts used : Int} {needRepair : Bool} {q t : JobTrace}

/-- Without an attempt, a trace is not taken apart. -/
theorem byAttempt_append (hq : ∀ step ∈ q, step.1.isAttempt = false) {head : JobTrace}
    {rest : List JobTrace} (ht : byAttempt t = head :: rest) :
    byAttempt (q ++ t) = (q ++ head) :: rest := by
  induction q with
  | nil => exact ht
  | cons step q ih =>
    obtain ⟨hstep, hq⟩ := List.forall_mem_cons.mp hq
    have hlater := ih hq
    rw [byAttempt] at hlater ⊢
    rw [List.cons_append, List.splitOnP_cons_eq_if_modifyHead, if_neg (by rw [hstep]; decide), hlater]
    rfl

/-- An attempt begins the next of the parts. -/
theorem byAttempt_cons {step : Σ c : JobCommand, c.Reply} (hmark : step.1.isAttempt = true) :
    byAttempt (step :: t) = [] :: byAttempt t := by
  rw [byAttempt, List.splitOnP_cons_eq_if_modifyHead, if_pos hmark]
  rfl

theorem Rest.of_quiet (hq : ∀ step ∈ q, step.1.Quiet) : Rest maxAttempts used needRepair q where
  renders_le := by rw [renders_of_quiet hq]; exact Int.le_max_left _ _
  repairs_increase := by rw [repairs_of_quiet hq]; exact .nil
  repairs_bounds := by rw [repairs_of_quiet hq]; exact List.forall_mem_nil _
  transient_spared := by
    have hattempts := byAttempt_append (t := []) (fun step hstep => (calls_of_quiet (hq step hstep)).1)
      (show byAttempt [] = [] :: [] from rfl)
    rw [List.append_nil] at hattempts
    exact ⟨q, [], hattempts, hq, .nil, fun _ _ h => by cases h⟩
  permanent_last := pairwise_of_unfailed (unfailed_of_quiet hq)

theorem not_failsBy_of_attempt {step : Σ c : JobCommand, c.Reply} {n : Int}
    {kind : List FailureCategory}
    (h : step.1 = .attempt n) : ¬ FailsBy kind step := by
  intro hfails
  obtain ⟨category, hcategory, -⟩ := hfails
  obtain ⟨c, reply⟩ := step
  dsimp only at h
  subst h
  cases hcategory

/-- A pass repairs only where it is asked to, and as the attempt that it is. -/
theorem Pass.eq_of_repairs {r : Except Exc AttemptEnd}
    (hpass : Pass (if needRepair then some (used + 1) else none) q r) :
    ∀ attempt ∈ repairs q, attempt = used + 1 ∧ needRepair = true := by
  intro attempt hattempt
  have hsome := hpass.eq_of_mem_repairs hattempt
  cases needRepair with
  | true => exact ⟨(Option.some.inj hsome).symm, rfl⟩
  | false => cases hsome

/-- An attempt, and what is left behind it. -/
theorem Rest.attempt {r : Except Exc AttemptEnd} {later : Bool}
    (begun : Σ c : JobCommand, c.Reply) (hused : used < maxAttempts)
    (hbegun : begun.1 = .attempt (used + 1))
    (hpass : Pass (if needRepair then some (used + 1) else none) q r)
    (hrest : Rest maxAttempts (used + 1) later t)
    (htransient : (∃ step ∈ q, FailsBy FailureCategory.transient step) → later = false)
    (hpermanent : (∃ step ∈ q, FailsBy FailureCategory.permanent step) →
      ∀ step ∈ t, step.1.Quiet) :
    Rest maxAttempts used needRepair (begun :: (q ++ t)) := by
  have hmark : begun.1.isAttempt = true := by rw [hbegun]; rfl
  have hrender : begun.1.isRender = false := by rw [hbegun]; rfl
  have hrepair : begun.1.repairAttempt = none := by rw [hbegun]; rfl
  have hrepairs : repairs (begun :: (q ++ t)) = repairs q ++ repairs t := by
    rw [repairs_cons hrepair, repairs_append]
  have hfirst := hpass.eq_of_repairs
  obtain ⟨quiet, rest, hby, hquiet, hchain, hhead⟩ := hrest.transient_spared
  refine ⟨?_, ?_, ?_, ?_, ?_⟩
  · have hcount : renders (begun :: (q ++ t)) = renders q + renders t := by
      rw [renders, List.countP_cons_of_neg (by rw [hrender]; decide)]
      exact renders_append q t
    have hq := hpass.renders_le
    have ht := hrest.renders_le
    rw [hcount]
    omega
  · rw [hrepairs, List.pairwise_append]
    refine ⟨hpass.repairs_increase, hrest.repairs_increase, ?_⟩
    intro attempt hattempt attempt' hattempt'
    have hlt := (hrest.repairs_bounds attempt' hattempt').1
    rw [(hfirst attempt hattempt).1]
    exact hlt
  · intro attempt hattempt
    rw [hrepairs, List.mem_append] at hattempt
    rcases hattempt with hattempt | hattempt
    · obtain ⟨rfl, hneed⟩ := hfirst attempt hattempt
      refine ⟨by omega, by omega, fun hnot => ?_⟩
      rw [hneed] at hnot
      cases hnot
    · obtain ⟨hlt, hle, -⟩ := hrest.repairs_bounds attempt hattempt
      exact ⟨by omega, hle, fun _ => hlt⟩
  · refine ⟨[], (q ++ quiet) :: rest, ?_, List.forall_mem_nil _, ?_, ?_⟩
    · rw [byAttempt_cons hmark, byAttempt_append hpass.unmarked hby]
    · rw [List.isChain_cons]
      refine ⟨?_, hchain⟩
      intro next hnext hfailed
      apply hhead (htransient ?_) next hnext
      obtain ⟨step, hstep, hkind⟩ := hfailed
      rcases List.mem_append.mp hstep with hstep | hstep
      · exact ⟨step, hstep, hkind⟩
      · exact absurd hkind (not_failsBy_of_quiet (hquiet step hstep))
    · intro hnot next hnext
      obtain rfl := Option.some.inj hnext
      have hnone : repairs q = [] := by
        refine List.eq_nil_iff_forall_not_mem.mpr fun attempt hattempt => ?_
        rw [(hfirst attempt hattempt).2] at hnot
        cases hnot
      rw [repairs_append, hnone, repairs_of_quiet hquiet]
      rfl
  · rw [List.pairwise_cons, List.pairwise_append]
    refine ⟨fun _ _ hkind => absurd hkind (not_failsBy_of_attempt hbegun), hpass.permanent_last, hrest.permanent_last, ?_⟩
    intro failed hfailed step hstep hkind
    exact (calls_of_quiet (hpermanent ⟨failed, hfailed, hkind⟩ step hstep)).2

end Rest

theorem giveUp_quiet (hstore : store.IsQuiet) (a : Attempting) :
    (giveUp store a).Only JobCommand.Quiet :=
  only_bind (hstore.update _ _) fun failed => orGet_quiet hstore failed

/-- The loop, from whatever state. -/
theorem attempts_rest (hstore : store.IsQuiet) {passes : Nat} {a : Attempting} {t : JobTrace}
    {r : Except Exc (Option JobRecord)} (h : (attempts store cfg passes a).Trace t r) :
    Rest a.tracker.maxAttempts a.tracker.used a.needRepair t := by
  induction passes generalizing a t with
  | zero => exact .of_quiet ((giveUp_quiet hstore a).of_trace h)
  | succ passes ih =>
    rw [attempts] at h
    cases hbegin : a.tracker.beginAttempt with
    | none =>
      rw [hbegin] at h
      exact .of_quiet ((giveUp_quiet hstore a).of_trace h)
    | some begun =>
      rw [hbegin] at h
      obtain ⟨attempt, tracker⟩ := begun
      simp only [AttemptTracker.beginAttempt] at hbegin
      by_cases hspent : a.tracker.maxAttempts ≤ a.tracker.used
      · rw [if_pos hspent] at hbegin
        cases hbegin
      · rw [if_neg hspent] at hbegin
        obtain ⟨rfl, rfl⟩ := Prod.mk.inj (Option.some.inj hbegin)
        obtain ⟨reply, later, rfl, hlater⟩ := trace_command_bind_iff.mp h
        have hpasses : Passes _ (attemptOnce store cfg _ _) := attemptOnce_passes hstore
          { a with tracker := { a.tracker with used := a.tracker.used + 1 } } (a.tracker.used + 1)
        have hused := Int.not_le.mp hspent
        rcases trace_bind_iff.mp hlater with ⟨e, hpass, rfl⟩ | ⟨ended, q, rest, hpass, hrest, rfl⟩
        · have hattempt := Rest.attempt ⟨_, reply⟩ hused rfl (hpasses _ _ hpass)
            (.of_quiet (q := []) (List.forall_mem_nil _)) (fun _ => rfl) fun _ => List.forall_mem_nil _
          rwa [List.append_nil] at hattempt
        · have hq := hpasses _ _ hpass
          cases ended with
          | returned rec =>
            obtain ⟨rfl, -⟩ := trace_pure_iff.mp hrest
            exact .attempt ⟨_, reply⟩ hused rfl hq (.of_quiet (List.forall_mem_nil _))
              (fun _ => rfl) fun _ => List.forall_mem_nil _
          | gaveUp a' =>
            have hquiet := (giveUp_quiet hstore a').of_trace hrest
            exact .attempt ⟨_, reply⟩ hused rfl hq (.of_quiet hquiet) (fun _ => rfl) fun _ => hquiet
          | goesOn a' =>
            obtain ⟨last, htracker⟩ :=
              Yields.of_trace (attemptOnce_tracker _ _) hpass _ rfl a' rfl
            have hlater := ih hrest
            rw [htracker] at hlater
            exact .attempt ⟨_, reply⟩ hused rfl hq hlater (fun h => hq.transient h a' rfl)
              fun h => absurd rfl (hq.permanent h a')

/-! ## The job -/

/-- So many numbers fit between two bounds. -/
theorem length_le_of_increasing {numbers : List Int} {low high : Int} (h : numbers.Pairwise (· < ·))
    (hbounds : ∀ n ∈ numbers, low ≤ n ∧ n ≤ high) (hle : low ≤ high + 1) :
    (numbers.length : Int) ≤ high + 1 - low := by
  induction numbers generalizing low with
  | nil =>
    show (0 : Int) ≤ _
    omega
  | cons n numbers ih =>
    obtain ⟨hfirst, hrest⟩ := List.pairwise_cons.mp h
    obtain ⟨⟨hlow, hhigh⟩, hbounds⟩ := List.forall_mem_cons.mp hbounds
    have hlength := @ih (n + 1) hrest (fun m hm => ⟨hfirst m hm, (hbounds m hm).2⟩) (by omega)
    rw [List.length_cons]
    omega

/-- From its first attempt on, a job is within its attempts. -/
theorem Rest.budgeted {maxAttempts : Int} {q t : JobTrace} (hmax : 1 ≤ maxAttempts)
    (hq : ∀ step ∈ q, step.1.Quiet) (h : Rest maxAttempts 0 false t) :
    Budgeted maxAttempts (q ++ t) := by
  have hrenders : renders (q ++ t) = renders t := by
    rw [renders_append, renders_of_quiet hq, Nat.zero_add]
  have hrepairs : repairs (q ++ t) = repairs t := by
    rw [repairs_append, repairs_of_quiet hq, List.nil_append]
  have hbounds : ∀ attempt ∈ repairs t, 2 ≤ attempt ∧ attempt ≤ maxAttempts := by
    intro attempt hattempt
    obtain ⟨-, hle, hlt⟩ := h.repairs_bounds attempt hattempt
    exact ⟨hlt rfl, hle⟩
  obtain ⟨quiet, rest, hby, hquiet, hchain, -⟩ := h.transient_spared
  refine ⟨?_, ?_, ?_, ?_, ?_, ?_⟩
  · have hle := h.renders_le
    rw [hrenders]
    omega
  · have hle := length_le_of_increasing h.repairs_increase hbounds (by omega)
    rw [hrepairs]
    omega
  · rw [hrepairs]
    exact h.repairs_increase
  · rw [hrepairs]
    exact hbounds
  · rw [byAttempt_append (fun step hstep => (calls_of_quiet (hq step hstep)).1) hby,
      List.isChain_cons]
    refine ⟨?_, hchain⟩
    intro next _ hfailed
    obtain ⟨step, hstep, hkind⟩ := hfailed
    have hmem : step.1.Quiet := by
      rcases List.mem_append.mp hstep with hstep | hstep
      · exact hq step hstep
      · exact hquiet step hstep
    exact absurd hkind (not_failsBy_of_quiet hmem)
  · rw [List.pairwise_append]
    exact ⟨pairwise_of_unfailed (unfailed_of_quiet hq), h.permanent_last, fun s hs _ _ hkind =>
      absurd hkind (not_failsBy_of_quiet (hq s hs))⟩

/-- More passes than there are attempts change nothing: the loop ends by itself. -/
theorem attempts_add {passes : Nat} {a : Attempting} (h : a.tracker.remaining < passes)
    (more : Nat) : attempts store cfg (passes + more) a = attempts store cfg passes a := by
  induction more with
  | zero => rfl
  | succ more ih =>
    rw [← Nat.add_assoc, ← attempts_enough (by omega), ih]

end Runner

/-- The state in which the loop of `_run_job` begins. -/
def Attempting.start (record : JobRecord) : Attempting :=
  { tracker := { maxAttempts := record.maxAttempts }, specJson := record.spec }

/-- The record that a runner has read first. -/
def JobTrace.record (t : JobTrace) : Option JobRecord :=
  t.findSome? fun step =>
    match step with
    | ⟨.get, found⟩ => (found : Option JobRecord)
    | _ => none

namespace Runner

open JobTrace Script

/-- A job whose record has so many attempts is within them, whatever its store,
its validation, its repairs and its renderer answer, and its loop ends. -/
theorem runJob_budgeted (d : Deployment) (cfg : RunConfig) {t : JobTrace}
    {r : Except Exc (Option JobRecord)} (h : (runJob d.store cfg).Trace t r) {record : JobRecord}
    (hrecord : t.record = some record) (hmax : 1 ≤ record.maxAttempts) :
    Budgeted record.maxAttempts t ∧
      ∀ more, attempts d.store cfg (record.maxAttempts.toNat + 1 + more) (.start record)
        = attempts d.store cfg (record.maxAttempts.toNat + 1) (.start record) := by
  have hquiet : (∀ step ∈ t, step.1.Quiet) → Budgeted record.maxAttempts t := by
    intro hq
    have hbudgeted := Rest.budgeted (t := []) hmax hq (.of_quiet (List.forall_mem_nil _))
    rwa [List.append_nil] at hbudgeted
  have hstart : (Attempting.start record).tracker.remaining < (record.maxAttempts.toNat + 1 : Nat) := by
    show record.maxAttempts - 0 < _
    omega
  refine ⟨?_, attempts_add hstart⟩
  have hstore := d.store_quiet
  have hclaim : d.store.claim = claimJob := by cases d <;> rfl
  have hget : d.store.get = getJob := by cases d <;> rfl
  unfold runJob at h
  rw [hclaim, hget] at h
  obtain ⟨claimed, later, rfl, hlater⟩ := trace_command_bind_iff.mp h
  cases claimed with
  | false =>
    have hgot : getJob.Only JobCommand.Quiet := JobCommand.call_quiet trivial
    exact hquiet (List.forall_mem_cons.mpr ⟨trivial, hgot.of_trace hlater⟩)
  | true =>
    obtain ⟨found, rest, rfl, hrest⟩ := trace_command_bind_iff.mp hlater
    cases found with
    | none =>
      obtain ⟨rfl, -⟩ := trace_pure_iff.mp hrest
      cases hrecord
    | some found =>
      obtain rfl : found = record := Option.some.inj hrecord
      have hbegin : ∀ step ∈ ([⟨.claim, true⟩, ⟨.get, some found⟩] : JobTrace), step.1.Quiet :=
        List.forall_mem_cons.mpr ⟨trivial, List.forall_mem_singleton.mpr trivial⟩
      dsimp only at hrest
      by_cases hactive : found.state ∉ JobState.active
      · rw [if_pos hactive] at hrest
        obtain ⟨rfl, -⟩ := trace_pure_iff.mp hrest
        exact hquiet hbegin
      · rw [if_neg hactive] at hrest
        exact Rest.budgeted hmax hbegin (attempts_rest hstore hrest)

/-- A job that renders nothing, and that can be repaired every time. -/
def unrenderable : (c : JobCommand) → c.Reply
  | .get => some { spec := "spec" }
  | .claim => true
  | .memoryUpdate _ _ => some { spec := "spec" }
  | .memoryCreate rec => (rec, true)
  | .watch => (0 : Nat)
  | .exec _ _ => true
  | .setNx _ => true
  | .set _ => ()
  | .deleteClaim => ()
  | .time => (0 : Seconds)
  | .attempt _ => ()
  | .repair _ _ _ => (.ok (some "spec") : Except Exc (Option String))
  | .validate _ => Validation.ok
  | .render _ => (.ok { ok := false, category := some .renderError } : Except Exc RenderResult)
  | .save _ => (.ok "key" : Except Exc String)

theorem runJob_budgeted_unrenderable :
    Budgeted 3 ((runJob memoryJobStore {}).follow unrenderable).1 :=
  (@runJob_budgeted .inline {} _ _ (trace_follow unrenderable _) { spec := "spec" } rfl
    (by decide)).1

end Runner

end LlmService
