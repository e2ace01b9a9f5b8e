import Mathlib.Logic.Function.Basic
import LlmService.Visualization.Runner

/-!
# Who works on which record

Any number of workers, submissions and cancellations of one job, step by step.
A submission over a record that has ended creates a record of its own under
the same id and drops the claim. `incarnation` counts the records, and a
worker is remembered with the record that was current when it claimed the job.
-/

namespace LlmService

/-- `cancel_job`. -/
def cancelJob (store : JobStore) : JobScript Unit := do
  match ← store.get with
  | none => return ()
  | some rec =>
    if rec.state ∈ JobState.active then
      let _ ← store.update .cancelled { failure := some (some .cancelled) }

namespace Incarnations

open Script

/-- Who acts on the job. A submission creates the record; the worker that it
starts, or queues the job for, is a party of its own. -/
inductive Party where
  | submission (rec : JobRecord)
  | cancellation
  | worker (cfg : RunConfig)

def Party.script (d : Deployment) : Party → JobScript Unit
  | .submission rec => do let _ ← d.store.createIfAbsent rec
  | .cancellation => cancelJob d.store
  | .worker cfg => Runner.worker cfg d

abbrev RaceLabel := Pool.Label JobAnswer Seconds

/-- The parties, and the record that each has claimed. -/
structure Race where
  pool : Pool JobEntry (JobScript Unit)
  claims : Nat → Option Nat

/-- A successful `claim` is one of the current record. -/
def claimsAfter (s : Race) : RaceLabel → Nat → Option Nat
  | .work i _ =>
    match s.pool.scripts[i]? with
    | some (.call .claim _) =>
      if s.pool.shared.claimed then s.claims
      else Function.update s.claims i (some s.pool.shared.incarnation)
    | _ => s.claims
  | .other _ => s.claims

def raceStep (s : Race) (a : RaceLabel) : Option Race :=
  (Pool.step JobCommand.perform (fun now e => some { e with clock := now }) s.pool a).map
    fun pool => { pool, claims := claimsAfter s a }

/-- The parties on a store without the job. -/
def startRace (d : Deployment) (parties : List Party) : Race where
  pool := { shared := {}, scripts := parties.map (Party.script d) }
  claims := fun _ => none

/-- The party `i` has claimed the record `n`, and has not finished with it. -/
def Executing (s : Race) (i n : Nat) : Prop :=
  s.claims i = some n ∧ ∃ p, s.pool.scripts[i]? = some p ∧ ¬ p.Finished

/-- At most one worker is executing attempts. -/
def OneWorker (s : Race) : Prop := ∀ i j m n, Executing s i m → Executing s j n → i = j

/-- What a worker writes, it writes to the record it has claimed. -/
def OwnWrite (s : Race) (a : RaceLabel) (t : Race) : Prop :=
  ∀ i w n, a = .work i w → s.claims i = some n →
    t.pool.shared.version ≠ s.pool.shared.version →
    s.pool.shared.incarnation = n ∧ t.pool.shared.incarnation = n

/-- One worker at any time, and no write to another record than its own. -/
structure SafeRace (d : Deployment) (parties : List Party) (l : List RaceLabel) : Prop where
  one : ∀ t, Runs.Visited raceStep (startRace d parties) l t → OneWorker t
  own : ∀ s a t, Runs.StepAt raceStep (startRace d parties) l s a t → OwnWrite s a t

/-- The command creates a record, or drops the claim of the last one. -/
def Recreates (c : JobCommand) (e : JobEntry) : Prop :=
  match c with
  | .memoryCreate _ => ∀ existing, e.job = some existing → ¬ existing.state.Reusable
  | .setNx _ => e.job = none
  | .set _ | .deleteClaim => True
  | _ => False

/-- No record is created, and no claim is dropped, while a worker is executing. -/
def Quiet (s : Race) (a : RaceLabel) : Prop :=
  ∀ i w c rest, a = .work i w → s.pool.scripts[i]? = some (.call c rest) →
    Recreates c s.pool.shared → ∀ j n, ¬ Executing s j n

/-! ## What the scripts may still do -/

/-- The commands of a worker that has answered its `claim`. -/
def Inner (c : JobCommand) : Prop := c ≠ .claim ∧ ∀ e, ¬ Recreates c e

/-- A party that has claimed a record neither claims nor creates; one that has
not may claim with its first command. -/
def Shaped : Option Nat → JobScript Unit → Prop
  | some _, p => p.Only Inner
  | none, p => p.Only (· ≠ .claim) ∨ ∃ rest, p = .call .claim rest ∧ ∀ r, (rest r).Only Inner

section Scripts

variable {cfg : RunConfig} (d : Deployment)

theorem getJob_inner : getJob.Only Inner := ⟨⟨nofun, fun _ => id⟩, fun _ => trivial⟩

theorem get_inner : d.store.get.Only Inner := by
  cases d <;> exact getJob_inner

/-- The rounds of `update` watch, read and write. -/
theorem updateFrom_inner (new : JobState) (fields : Fields) (tries : Nat) :
    (RedisJobStore.updateFrom new fields tries).Only Inner := by
  induction tries with
  | zero => trivial
  | succ tries ih =>
    apply only_command_bind ⟨nofun, fun _ => id⟩
    intro version
    apply only_command_bind ⟨nofun, fun _ => id⟩
    intro found
    cases found with
    | none => trivial
    | some rec =>
      apply only_command_bind ⟨nofun, fun _ => id⟩
      intro now
      cases hdecision : rec.onUpdate new fields now with
      | kept => trivial
      | refused => trivial
      | written rec' =>
        apply only_command_bind ⟨nofun, fun _ => id⟩
        intro executed
        cases executed with
        | true => trivial
        | false => exact ih

theorem update_inner (new : JobState) (fields : Fields) :
    (d.store.update new fields).Only Inner := by
  cases d with
  | inline => exact ⟨⟨nofun, fun _ => id⟩, fun _ => trivial⟩
  | worker => exact updateFrom_inner new fields _

theorem orGet_inner (updated : Option JobRecord) : (Runner.orGet d.store updated).Only Inner := by
  cases updated with
  | none => exact get_inner d
  | some rec => trivial

theorem repairSpec_inner (a : Attempting) (attempt : Int) :
    (Runner.repairSpec cfg a attempt).Only Inner := by
  rw [Runner.repairSpec]
  by_cases hrepair : (cfg.hasRepair && cfg.repairEnabled) = true
  · rw [if_pos hrepair]
    apply only_command_bind ⟨nofun, fun _ => id⟩
    intro reply
    cases reply with
    | ok fixed => trivial
    | error exc => trivial
  · rw [if_neg hrepair]
    trivial

theorem renderSpec_inner (a : Attempting) : (Runner.renderSpec d.store a).Only Inner := by
  apply only_bind (update_inner d _ _)
  intro _
  apply only_command_bind ⟨nofun, fun _ => id⟩
  intro reply
  cases reply with
  | error exc => trivial
  | ok result =>
    obtain ⟨ok, category, path⟩ := result
    have hcategory : Script.Only Inner (if category.getD .renderError = .cancelled then do
          let _ ← d.store.update .cancelled {}
          return .returned (← d.store.get)
        else return a.failed (category.getD .renderError) : JobScript AttemptEnd) := by
      by_cases hcancelled : category.getD .renderError = .cancelled
      · rw [if_pos hcancelled]
        apply only_bind (update_inner d _ _)
        intro _
        exact only_bind (get_inner d) fun _ => trivial
      · rw [if_neg hcancelled]
        trivial
    cases ok with
    | false => exact hcategory
    | true =>
      cases path with
      | none => exact hcategory
      | some path =>
        apply only_command_bind ⟨nofun, fun _ => id⟩
        intro saved
        cases saved with
        | error exc => trivial
        | ok key =>
          apply only_bind (update_inner d _ _)
          intro done
          exact only_bind (orGet_inner d done) fun _ => trivial

theorem validateSpec_inner (a : Attempting) : (Runner.validateSpec d.store a).Only Inner := by
  apply only_command_bind ⟨nofun, fun _ => id⟩
  intro reply
  cases reply with
  | ok => exact renderSpec_inner d a
  | specError unsupported => trivial
  | valueError => trivial
  | raised exc => trivial

theorem attemptOnce_inner (a : Attempting) (attempt : Int) :
    (Runner.attemptOnce d.store cfg a attempt).Only Inner := by
  apply only_bind (update_inner d _ _)
  intro begun
  cases begun with
  | none => exact only_bind (get_inner d) fun _ => trivial
  | some begun =>
    by_cases hrepair : a.needRepair
    · simp only [hrepair, if_true]
      apply only_bind (update_inner d _ _)
      intro _
      apply only_bind (repairSpec_inner a attempt)
      intro fixed
      cases fixed with
      | none => trivial
      | some fixed =>
        apply only_bind (update_inner d _ _)
        intro _
        exact validateSpec_inner d _
    · simp only [hrepair]
      exact validateSpec_inner d a

theorem giveUp_inner (a : Attempting) : (Runner.giveUp d.store a).Only Inner := by
  apply only_bind (update_inner d _ _)
  intro failed
  exact orGet_inner d failed

/-- The induction is on the passes of the loop. -/
theorem attempts_inner (passes : Nat) (a : Attempting) :
    (Runner.attempts d.store cfg passes a).Only Inner := by
  induction passes generalizing a with
  | zero => exact giveUp_inner d a
  | succ passes ih =>
    rw [Runner.attempts]
    cases a.tracker.beginAttempt with
    | none => exact giveUp_inner d a
    | some begun =>
      obtain ⟨attempt, tracker⟩ := begun
      have hinner : Inner (.attempt attempt) := ⟨by simp, fun _ => id⟩
      apply only_command_bind hinner
      intro _
      apply only_bind (attemptOnce_inner d _ _)
      intro ended
      cases ended with
      | returned rec => trivial
      | gaveUp a' => exact giveUp_inner d a'
      | goesOn a' => exact ih a'

/-- `_run_job` claims first; what follows neither claims nor creates. -/
theorem runJob_claims (cfg : RunConfig) :
    ∃ rest, Runner.runJob d.store cfg = .call .claim rest ∧ ∀ r, (rest r).Only Inner := by
  have hclaim : d.store.claim = claimJob := by cases d <;> rfl
  rw [Runner.runJob, hclaim]
  refine ⟨_, rfl, ?_⟩
  intro r
  cases r with
  | false => exact get_inner d
  | true =>
    apply only_bind (get_inner d)
    intro found
    cases found with
    | none => trivial
    | some record =>
      by_cases hactive : record.state ∉ JobState.active
      · simp only [if_pos hactive]
        trivial
      · simp only [if_neg hactive]
        exact attempts_inner d _ _

theorem cancelJob_inner : (cancelJob d.store).Only Inner := by
  apply only_bind (get_inner d)
  intro found
  cases found with
  | none => trivial
  | some rec =>
    by_cases hactive : rec.state ∈ JobState.active
    · simp only [if_pos hactive]
      apply only_bind (update_inner d _ _)
      intro _
      trivial
    · simp only [if_neg hactive]
      trivial

theorem createIfAbsent_unclaimed (rec : JobRecord) :
    (d.store.createIfAbsent rec).Only (· ≠ .claim) := by
  have hreplace : (RedisJobStore.createIfAbsent.replace rec).Only (· ≠ .claim) :=
    ⟨nofun, fun _ => ⟨nofun, fun _ => trivial⟩⟩
  cases d with
  | inline => exact ⟨nofun, fun _ => trivial⟩
  | worker =>
    apply only_command_bind nofun
    intro absent
    cases absent with
    | true => trivial
    | false =>
      apply only_command_bind nofun
      intro found
      cases found with
      | none => exact hreplace
      | some existing =>
        by_cases hreusable : existing.state.Reusable
        · simp only [if_pos hreusable]
          trivial
        · simp only [if_neg hreusable]
          exact hreplace

theorem script_shaped (party : Party) : Shaped none (party.script d) := by
  cases party with
  | submission rec =>
    exact .inl (only_bind (createIfAbsent_unclaimed d rec) fun _ => trivial)
  | cancellation => exact .inl ((cancelJob_inner d).mono fun _ hinner => hinner.1)
  | worker cfg =>
    obtain ⟨rest, hrun, hrest⟩ := runJob_claims d cfg
    refine .inr ?_
    cases d with
    | inline =>
      simp only [Party.script, Runner.worker, Runner.go, hrun]
      refine ⟨_, rfl, ?_⟩
      intro r
      apply only_handle
      · apply only_bind (hrest r)
        intro _
        trivial
      · intro exc
        apply only_bind (update_inner .inline _ _)
        intro _
        trivial
    | worker =>
      simp only [Party.script, Runner.worker, Runner.handle, hrun]
      refine ⟨_, rfl, ?_⟩
      intro r
      apply only_handle
      · apply only_bind (hrest r)
        intro _
        trivial
      · intro exc
        trivial

end Scripts

/-! ## What a step does -/

/-- A command that neither creates a record nor drops the claim, and that is
not the first claim. -/
theorem perform_same {c : JobCommand} {w : JobAnswer} {e e' : JobEntry} {r : c.Reply}
    (h : c.perform w e = some (r, e')) (hcreates : ¬ Recreates c e)
    (hclaim : c = .claim → e.claimed = true) :
    e'.incarnation = e.incarnation ∧ e'.claimed = e.claimed := by
  cases c with
  | get =>
    obtain ⟨rfl, rfl⟩ := Prod.mk.inj (Option.some.inj h)
    exact ⟨rfl, rfl⟩
  | claim =>
    simp only [JobCommand.perform, hclaim rfl, if_true] at h
    obtain ⟨rfl, rfl⟩ := Prod.mk.inj (Option.some.inj h)
    exact ⟨rfl, rfl⟩
  | memoryUpdate new fields =>
    rcases perform_memoryUpdate w h with ⟨-, -, rfl⟩ | ⟨rec, -, hrec⟩
    · exact ⟨rfl, rfl⟩
    · rcases hrec with ⟨-, -, rfl⟩ | ⟨-, -, rfl⟩ | ⟨rec', -, -, rfl⟩
      · exact ⟨rfl, rfl⟩
      · exact ⟨rfl, rfl⟩
      · exact ⟨rfl, rfl⟩
  | memoryCreate rec =>
    simp only [Recreates, not_forall, not_not] at hcreates
    obtain ⟨existing, hjob, hreusable⟩ := hcreates
    simp only [JobCommand.perform, hjob, if_pos hreusable] at h
    obtain ⟨rfl, rfl⟩ := Prod.mk.inj (Option.some.inj h)
    exact ⟨rfl, rfl⟩
  | watch =>
    obtain ⟨rfl, rfl⟩ := Prod.mk.inj (Option.some.inj h)
    exact ⟨rfl, rfl⟩
  | exec version rec =>
    rcases perform_exec w h with ⟨-, -, rfl⟩ | ⟨-, -, rfl⟩
    · exact ⟨rfl, rfl⟩
    · exact ⟨rfl, rfl⟩
  | setNx rec =>
    simp only [Recreates, ← Option.isNone_iff_eq_none] at hcreates
    simp only [JobCommand.perform, hcreates] at h
    obtain ⟨rfl, rfl⟩ := Prod.mk.inj (Option.some.inj h)
    exact ⟨rfl, rfl⟩
  | set rec => exact absurd trivial hcreates
  | deleteClaim => exact absurd trivial hcreates
  | time =>
    obtain ⟨rfl, rfl⟩ := Prod.mk.inj (Option.some.inj h)
    exact ⟨rfl, rfl⟩
  | attempt number =>
    obtain ⟨rfl, rfl⟩ := Prod.mk.inj (Option.some.inj h)
    exact ⟨rfl, rfl⟩
  | repair spec error attempt =>
    obtain ⟨-, rfl⟩ := perform_repair w h
    exact ⟨rfl, rfl⟩
  | validate spec =>
    obtain ⟨-, rfl⟩ := perform_validate w h
    exact ⟨rfl, rfl⟩
  | render spec =>
    obtain ⟨-, rfl⟩ := perform_render w h
    exact ⟨rfl, rfl⟩
  | save path =>
    obtain ⟨-, rfl⟩ := perform_save w h
    exact ⟨rfl, rfl⟩

theorem raceStep_iff {s t : Race} {a : RaceLabel} :
    raceStep s a = some t ↔
      ∃ pool, Pool.step JobCommand.perform (fun now e => some { e with clock := now })
        s.pool a = some pool ∧ t = { pool, claims := claimsAfter s a } := by
  simp only [raceStep, Option.map_eq_some_iff]
  apply exists_congr
  intro pool
  rw [eq_comm (a := t)]

theorem claimsAfter_of_ne {s : Race} {i : Nat} {w : JobAnswer} {c : JobCommand}
    {rest : c.Reply → JobScript Unit} (hp : s.pool.scripts[i]? = some (.call c rest))
    (hc : c ≠ .claim) : claimsAfter s (.work i w) = s.claims := by
  simp only [claimsAfter, hp]
  cases c with
  | claim => exact absurd rfl hc
  | _ => rfl

/-- Each party is of its shape; at most one is executing, and what it has
claimed is the current record, which is claimed. -/
structure Owned (s : Race) : Prop where
  shape : ∀ (i : Nat) p, s.pool.scripts[i]? = some p → Shaped (s.claims i) p
  one : OneWorker s
  current : ∀ i n, Executing s i n → s.pool.shared.incarnation = n ∧ s.pool.shared.claimed = true

theorem owned_start (d : Deployment) (parties : List Party) : Owned (startRace d parties) where
  shape := by
    intro i p hp
    simp only [startRace, List.getElem?_map] at hp
    obtain ⟨party, -, rfl⟩ := Option.map_eq_some_iff.mp hp
    exact script_shaped d party
  one := by
    intro i j m n hi
    cases hi.1
  current := by
    intro i n hi
    cases hi.1

/-- A party that has claimed a record runs the inner commands only. -/
theorem Owned.inner {s : Race} (h : Owned s) {i n : Nat} {c : JobCommand}
    {rest : c.Reply → JobScript Unit} (hp : s.pool.scripts[i]? = some (.call c rest))
    (hclaimed : s.claims i = some n) : Inner c := by
  have hshape := h.shape i _ hp
  rw [hclaimed] at hshape
  exact hshape.1

/-- The rest of a script is shaped by what its party has claimed then. -/
theorem Shaped.rest {claims claims' : Option Nat} {c : JobCommand} {r : c.Reply}
    {rest : c.Reply → JobScript Unit} (h : Shaped claims (.call c rest))
    (hclaims : c ≠ .claim → claims' = claims) : Shaped claims' (rest r) := by
  cases claims with
  | some n =>
    rw [hclaims h.1.1]
    exact h.2 r
  | none =>
    rcases h with hunclaimed | ⟨rest', hcall, hinner⟩
    · rw [hclaims hunclaimed.1]
      exact .inl (hunclaimed.2 r)
    · cases hcall
      cases claims' with
      | none => exact .inl ((hinner r).mono fun _ hc => hc.1)
      | some n => exact hinner r

theorem owned_shape {s t : Race} {a : RaceLabel} (h : Owned s) (hstep : raceStep s a = some t)
    (i : Nat) (p : JobScript Unit) (hp : t.pool.scripts[i]? = some p) :
    Shaped (t.claims i) p := by
  obtain ⟨pool, hpool, rfl⟩ := raceStep_iff.mp hstep
  cases a with
  | other now =>
    obtain ⟨u, -, rfl⟩ := Pool.step_other_iff.mp hpool
    exact h.shape i p hp
  | work j w =>
    obtain ⟨c, rest, r, u, hj, -, rfl⟩ := Pool.step_work_iff.mp hpool
    by_cases hij : j = i
    · subst hij
      rw [List.getElem?_set_self (List.getElem?_eq_some_iff.mp hj).1] at hp
      obtain rfl := Option.some.inj hp
      apply (h.shape j _ hj).rest
      intro hc
      exact congrFun (claimsAfter_of_ne (w := w) hj hc) j
    · rw [List.getElem?_set_ne hij] at hp
      have hclaims : claimsAfter s (.work j w) i = s.claims i := by
        by_cases hc : c = .claim
        · subst hc
          simp only [claimsAfter, hj]
          by_cases hclaimed : s.pool.shared.claimed = true
          · rw [if_pos hclaimed]
          · rw [if_neg hclaimed, Function.update_of_ne (Ne.symm hij)]
        · rw [claimsAfter_of_ne hj hc]
      show Shaped (claimsAfter s (.work j w) i) p
      rw [hclaims]
      exact h.shape i p hp

/-- A party that executes after a step executed before it, unless the step
is its claim. -/
theorem executing_before {s : Race} {pool : Pool JobEntry (JobScript Unit)} {i : Nat}
    {w : JobAnswer} {c : JobCommand} {rest : c.Reply → JobScript Unit} {r : c.Reply}
    (hp : s.pool.scripts[i]? = some (.call c rest))
    (hscripts : pool.scripts = s.pool.scripts.set i (rest r)) {j n : Nat}
    (hclaims : claimsAfter s (.work i w) j = s.claims j)
    (h : Executing { pool, claims := claimsAfter s (.work i w) } j n) : Executing s j n := by
  obtain ⟨hclaim, p, hj, hfinished⟩ := h
  refine ⟨hclaims.symm.trans hclaim, ?_⟩
  by_cases hij : i = j
  · subst hij
    exact ⟨_, hp, id⟩
  · rw [hscripts, List.getElem?_set_ne hij] at hj
    exact ⟨p, hj, hfinished⟩

theorem owned_step {s t : Race} {a : RaceLabel} (h : Owned s) (hquiet : Quiet s a)
    (hstep : raceStep s a = some t) : Owned t := by
  have hshape := owned_shape h hstep
  obtain ⟨pool, hpool, rfl⟩ := raceStep_iff.mp hstep
  cases a with
  | other now =>
    obtain ⟨u, hu, rfl⟩ := Pool.step_other_iff.mp hpool
    obtain rfl := Option.some.inj hu
    exact ⟨hshape, h.one, h.current⟩
  | work i w =>
    obtain ⟨c, rest, r, u, hp, hperform, rfl⟩ := Pool.step_work_iff.mp hpool
    by_cases hfirst : c = .claim ∧ s.pool.shared.claimed = false
    · -- The claim is free: no other party is executing.
      obtain ⟨rfl, hfree⟩ := hfirst
      have hnone : ∀ j n, ¬ Executing s j n := by
        intro j n hj
        rw [(h.current j n hj).2] at hfree
        cases hfree
      simp only [JobCommand.perform, hfree] at hperform
      obtain ⟨rfl, rfl⟩ := Prod.mk.inj (Option.some.inj hperform)
      have hclaims : claimsAfter s (.work i w) =
          Function.update s.claims i (some s.pool.shared.incarnation) := by
        simp only [claimsAfter, hp, hfree]
        rfl
      have honly : ∀ j n, Executing
          { pool := { shared := { s.pool.shared with claimed := true },
                      scripts := s.pool.scripts.set i (rest true) },
            claims := claimsAfter s (.work i w) } j n → j = i := by
        intro j n hj
        by_cases hij : j = i
        · exact hij
        · refine absurd (executing_before hp rfl ?_ hj) (hnone j n)
          rw [hclaims, Function.update_of_ne hij]
      refine ⟨hshape, ?_, ?_⟩
      · intro j k m n hj hk
        rw [honly j m hj, honly k n hk]
      · intro j n hj
        obtain rfl := honly j n hj
        have hcurrent := hj.1
        simp only [hclaims, Function.update_self, Option.some.injEq] at hcurrent
        exact ⟨hcurrent, rfl⟩
    · have hclaims : claimsAfter s (.work i w) = s.claims := by
        by_cases hc : c = .claim
        · subst hc
          have htaken : s.pool.shared.claimed = true := by
            simpa using hfirst
          simp only [claimsAfter, hp, htaken, if_true]
        · exact claimsAfter_of_ne hp hc
      have hbefore : ∀ j n, Executing
          { pool := { shared := u, scripts := s.pool.scripts.set i (rest r) },
            claims := claimsAfter s (.work i w) } j n → Executing s j n := by
        intro j n hj
        exact executing_before hp rfl (congrFun hclaims j) hj
      refine ⟨hshape, ?_, ?_⟩
      · intro j k m n hj hk
        exact h.one j k m n (hbefore j m hj) (hbefore k n hk)
      · intro j n hj
        by_cases hcreates : Recreates c s.pool.shared
        · exact absurd (hbefore j n hj) (hquiet i w c rest rfl hp hcreates j n)
        · have hsame := perform_same hperform hcreates fun hc => by simpa [hc] using hfirst
          have hcurrent := h.current j n (hbefore j n hj)
          exact ⟨hsame.1.trans hcurrent.1, hsame.2.trans hcurrent.2⟩

/-- What a worker writes while it owns the current record, it writes there. -/
theorem Owned.ownWrite {s t : Race} {a : RaceLabel} (h : Owned s)
    (hstep : raceStep s a = some t) : OwnWrite s a t := by
  intro i w n ha hclaimed _
  subst ha
  obtain ⟨pool, hpool, rfl⟩ := raceStep_iff.mp hstep
  obtain ⟨c, rest, r, u, hp, hperform, rfl⟩ := Pool.step_work_iff.mp hpool
  have hinner := h.inner hp hclaimed
  have hcurrent := (h.current i n ⟨hclaimed, _, hp, id⟩).1
  have hsame := perform_same hperform (hinner.2 _) fun hc => absurd hc hinner.1
  exact ⟨hcurrent, hsame.1.trans hcurrent⟩

/-! ## Whole runs -/

/-- Runs that create no record and drop no claim while a worker is executing. -/
theorem safeRace_of_quiet (d : Deployment) (parties : List Party) (l : List RaceLabel)
    (hquiet : ∀ s a t, Runs.StepAt raceStep (startRace d parties) l s a t → Quiet s a) :
    SafeRace d parties l := by
  have howned : ∀ t, Runs.Visited raceStep (startRace d parties) l t → Owned t :=
    Runs.visited_of_steps (fun _ _ _ (htrue : True) _ => htrue)
      (fun _ _ _ _ hs hok hstep => owned_step hs hok hstep) trivial
      (owned_start d parties) hquiet
  constructor
  · intro t ht
    exact (howned t ht).one
  · intro s a t hat
    obtain ⟨l₁, l₂, rfl, hrun, hstep⟩ := hat
    exact (howned s ⟨l₁, a :: l₂, rfl, hrun⟩).ownWrite hstep

instance (s : Race) (i n : Nat) : Decidable (Executing s i n) :=
  inferInstanceAs (Decidable (_ ∧ ∃ p ∈ s.pool.scripts[i]?, ¬ p.Finished))

instance (c : JobCommand) (e : JobEntry) : Decidable (Recreates c e) :=
  match c with
  | .memoryCreate _ =>
    inferInstanceAs (Decidable (∀ existing ∈ e.job, ¬ existing.state.Reusable))
  | .setNx _ => inferInstanceAs (Decidable (e.job = none))
  | .set _ | .deleteClaim => isTrue trivial
  | .get | .claim | .memoryUpdate _ _ | .watch | .exec _ _ | .time | .attempt _ | .repair _ _ _
  | .validate _ | .render _ | .save _ => isFalse id

/-- Some worker has claimed a record, and has not finished with it. -/
def AnyExecuting (s : Race) : Prop :=
  ∃ i < s.pool.scripts.length, ∃ n ∈ s.claims i, Executing s i n

instance (s : Race) : Decidable (AnyExecuting s) :=
  inferInstanceAs (Decidable (∃ i < s.pool.scripts.length, ∃ n ∈ s.claims i, Executing s i n))

theorem anyExecuting_of_executing {s : Race} {i n : Nat} (h : Executing s i n) : AnyExecuting s := by
  obtain ⟨p, hp, -⟩ := h.2
  exact ⟨i, (List.getElem?_eq_some_iff.mp hp).1, n, h.1, h⟩

/-- The command of the label, if it is one. -/
def commandOf (s : Race) : RaceLabel → Option JobCommand
  | .work i _ =>
    match s.pool.scripts[i]? with
    | some (.call c _) => some c
    | _ => none
  | .other _ => none

theorem quiet_of_command {s : Race} {a : RaceLabel}
    (h : ∀ c ∈ commandOf s a, Recreates c s.pool.shared → ¬ AnyExecuting s) : Quiet s a := by
  intro i w c rest ha hp hcreates j n hj
  subst ha
  have hcommand : c ∈ commandOf s (.work i w) := by
    rw [commandOf, hp]
    rfl
  exact h c hcommand hcreates (anyExecuting_of_executing hj)

/-- A job that is submitted twice, with two workers at once, cancelled while it
renders, submitted again, and taken up by a third worker. -/
def oneByOne : List Party :=
  [.submission { spec := "[]" }, .worker {}, .worker {}, .submission { spec := "[]" },
    .cancellation, .submission { spec := "[]" }, .worker {}]

/-- The commands of a submission that finds the record, and of one that replaces it. -/
def submissionLengths : Deployment → Nat × Nat
  | .inline => (1, 1)
  | .worker => (2, 4)

/-- The first worker has come to its end before the job is submitted again. -/
def oneByOneLabels (d : Deployment) : List RaceLabel :=
  let steps (i n : Nat) : List RaceLabel := List.replicate n (.work i .none)
  steps 0 1 ++ steps 1 (3 + d.updateLength) ++ steps 2 2 ++ .work 1 (.validated .ok) ::
    steps 3 (submissionLengths d).1 ++ steps 1 d.updateLength ++ .other 5 ::
    steps 4 (1 + d.updateLength) ++
    .work 1 (.rendered (.ok { ok := false, category := some .cancelled })) ::
    steps 1 (d.refusalLength + 1) ++ steps 5 (submissionLengths d).2 ++
    steps 6 (3 + d.updateLength) ++ .work 6 (.validated .ok) :: steps 6 d.updateLength ++
    .work 6 (.rendered (.ok { ok := true, path := some "clip.mp4" })) ::
    .work 6 (.saved (.ok "clip")) :: steps 6 d.updateLength

/-- The record, the state of the job and its version when all have finished. -/
def endsWith (d : Deployment) (l : List RaceLabel) : Option (Nat × Option JobState) := do
  let t ← Runs.run raceStep (startRace d oneByOne) l
  if ∀ p ∈ t.pool.scripts, p.Finished then
    some (t.pool.shared.incarnation, t.pool.shared.job.map (·.state))
  else none

theorem safeRace_oneByOne :
    (SafeRace .inline oneByOne (oneByOneLabels .inline) ∧
        endsWith .inline (oneByOneLabels .inline) = some (2, some .ready)) ∧
      SafeRace .worker oneByOne (oneByOneLabels .worker) ∧
        endsWith .worker (oneByOneLabels .worker) = some (2, some .ready) := by
  have hquiet : ∀ d, Runs.EveryStep raceStep
      (fun s a => ∀ c ∈ commandOf s a, Recreates c s.pool.shared → ¬ AnyExecuting s)
      (startRace d oneByOne) (oneByOneLabels d) := by
    intro d
    cases d <;> decide
  have hsafe : ∀ d, SafeRace d oneByOne (oneByOneLabels d) := fun d =>
    safeRace_of_quiet d oneByOne _ fun s a t hstep =>
      quiet_of_command (Runs.everyStep_iff.mp (hquiet d) s a t hstep)
  exact ⟨⟨hsafe .inline, by decide⟩, hsafe .worker, by decide⟩

/-! ## A late worker -/

/-- A job that is cancelled and submitted again, with a worker each time. -/
def resubmitted : List Party :=
  [.submission { spec := "[]" }, .worker {}, .cancellation, .submission { spec := "[]" },
    .worker {}]

/-- Both workers render. -/
def bothRender (d : Deployment) : List RaceLabel :=
  .work 0 .none :: List.replicate (3 + d.updateLength) (.work 1 .none) ++
    .work 1 (.validated .ok) :: List.replicate (d.updateLength) (.work 1 .none) ++
    List.replicate (1 + d.updateLength) (.work 2 .none) ++
    List.replicate (d.updateLength) (.work 3 .none) ++
    List.replicate (3 + d.updateLength) (.work 4 .none) ++
    .work 4 (.validated .ok) :: List.replicate (d.updateLength) (.work 4 .none)

/-- The first worker then comes to the last command of its update. -/
def lateWorker (d : Deployment) : List RaceLabel :=
  bothRender d ++ .work 1 (.rendered (.ok { ok := true, path := some "clip.mp4" })) ::
    .work 1 (.saved (.ok "clip")) :: List.replicate (d.updateLength - 1) (.work 1 .none)

/-- The first worker executes the record that was cancelled, the second the new one. -/
theorem both_executing (d : Deployment) :
    ∃ t, Runs.run raceStep (startRace d resubmitted) (bothRender d) = some t ∧
      Executing t 1 1 ∧ Executing t 4 2 := by
  have hrun : ∃ t ∈ Runs.run raceStep (startRace d resubmitted) (bothRender d),
      Executing t 1 1 ∧ Executing t 4 2 := by
    cases d <;> decide
  exact hrun

/-- The first worker completes the record of the second. -/
theorem late_write (d : Deployment) :
    ∃ s, Runs.run raceStep (startRace d resubmitted) (lateWorker d) = some s ∧
      ∃ t, raceStep s (.work 1 .none) = some t ∧ s.claims 1 = some 1 ∧
        s.pool.shared.incarnation = 2 ∧ s.pool.shared.version < t.pool.shared.version ∧
        t.pool.shared.job.map (·.state) = some .ready := by
  have hrun : ∃ s ∈ Runs.run raceStep (startRace d resubmitted) (lateWorker d),
      ∃ t ∈ raceStep s (.work 1 .none), s.claims 1 = some 1 ∧
        s.pool.shared.incarnation = 2 ∧ s.pool.shared.version < t.pool.shared.version ∧
        t.pool.shared.job.map (·.state) = some .ready := by
    cases d <;> decide
  exact hrun

/-- Two workers at a time, and a write to a record of another. -/
theorem unsafe_runs (d : Deployment) :
    (¬ ∀ t, Runs.Visited raceStep (startRace d resubmitted) (bothRender d) t → OneWorker t) ∧
      ¬ ∀ s a t, Runs.StepAt raceStep (startRace d resubmitted)
        (lateWorker d ++ [.work 1 .none]) s a t → OwnWrite s a t := by
  constructor
  · intro hone
    obtain ⟨t, hrun, hfirst, hsecond⟩ := both_executing d
    have hsame := hone t ⟨bothRender d, [], by simp, hrun⟩ 1 4 1 2 hfirst hsecond
    omega
  · intro hown
    obtain ⟨s, hrun, t, hstep, hclaims, hcurrent, hversion, -⟩ := late_write d
    have hsame := hown s _ t ⟨lateWorker d, [], rfl, hrun, hstep⟩ 1 .none 1 rfl hclaims (by omega)
    omega

/-- In both deployments the two halves fail, each in a run of its own. -/
theorem not_safeRace :
    (¬ SafeRace .inline resubmitted (bothRender .inline) ∧
        ¬ SafeRace .inline resubmitted (lateWorker .inline ++ [.work 1 .none])) ∧
      ¬ SafeRace .worker resubmitted (bothRender .worker) ∧
        ¬ SafeRace .worker resubmitted (lateWorker .worker ++ [.work 1 .none]) :=
  ⟨⟨fun h => (unsafe_runs .inline).1 h.one, fun h => (unsafe_runs .inline).2 h.own⟩,
    fun h => (unsafe_runs .worker).1 h.one, fun h => (unsafe_runs .worker).2 h.own⟩

end Incarnations

end LlmService
