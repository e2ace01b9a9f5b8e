import Mathlib.Logic.Relation
import LlmService.Visualization.Jobs

/-!
# The states of a job

Any number of `update` calls on one stored record, in any order of their
steps, while Redis may also expire the key. A write follows the transition
table, whatever the others wrote since the call read the record: `EXEC` fails
unless the record is the one that was read.
-/

namespace LlmService

namespace JobStates

open Relation Script

/-- What happens to the entry besides the calls. -/
inductive Elsewhere where
  | tick (now : Seconds)
  | expireKey
  deriving DecidableEq

def elsewhere : Elsewhere → JobEntry → Option JobEntry
  | .tick now, e => some { e with clock := now }
  | .expireKey, e => some { e with job := none, version := e.version + 1 }

abbrev Updates := Pool JobEntry (JobScript (Option JobRecord))

abbrev UpdateLabel := Pool.Label JobAnswer Elsewhere

/-- One step of one call, or of what happens elsewhere. -/
def updateStep (s : Updates) (a : UpdateLabel) : Option Updates :=
  Pool.step JobCommand.perform elsewhere s a

/-- The calls, none of which has begun. -/
def updateCalls (d : Deployment) (e : JobEntry) (calls : List (JobState × Fields)) : Updates where
  shared := e
  scripts := calls.map fun call => d.store.update call.1 call.2

/-- What is promised about the record while the calls run. -/
structure SafeUpdates (s : Updates) (calls : List (JobState × Fields)) (l : List UpdateLabel) :
    Prop where
  /-- The states are a path of the transition table. -/
  path : ∀ {u t r r'}, Runs.Later updateStep s l u t → u.shared.job = some r →
    t.shared.job = some r' → ReflTransGen JobState.CanTransition r.state r'.state
  /-- A terminal state is left only by `ready` that expires; else no field changes. -/
  terminal : ∀ {u t r r'}, Runs.Later updateStep s l u t → u.shared.job = some r →
    t.shared.job = some r' → r.state ∈ JobState.terminal →
    r' = r ∨ (r.state = .ready ∧ r'.state = .expired)
  /-- What was cancelled, has failed or has expired never becomes ready. -/
  neverReady : ∀ {u t r r'}, Runs.Later updateStep s l u t → u.shared.job = some r →
    t.shared.job = some r' → r.state ∈ [.failed, .cancelled, .expired] → r' = r
  /-- A step of a call writes its own state, and only where the table allows it. -/
  writes : ∀ {u i w t new fields}, Runs.StepAt updateStep s l u (.work i w) t →
    calls[i]? = some (new, fields) → t.shared.job ≠ u.shared.job →
    ∃ r r', u.shared.job = some r ∧ t.shared.job = some r' ∧
      JobState.CanTransition r.state new ∧ r'.state = new
  /-- A call that writes the terminal state that the record has changes nothing. -/
  repeated : ∀ {u i w t new fields r}, Runs.StepAt updateStep s l u (.work i w) t →
    calls[i]? = some (new, fields) → u.shared.job = some r → r.state = new →
    new ∈ JobState.terminal → t.shared.job = u.shared.job
  /-- A call that has returned `None` has changed nothing. -/
  refused : ∀ {i t}, Runs.run updateStep s l = some t → t.scripts[i]? = some (.pure none) →
    ∀ {u w v}, Runs.StepAt updateStep s l u (.work i w) v → v.shared.job = u.shared.job

/-! ## One call -/

/-- What a call relies on: a version stands for one record. -/
structure Unwritten (s t : JobEntry) : Prop where
  version : s.version ≤ t.version
  job : t.version = s.version → t.job = s.job

/-- What a step of a call does: nothing to the record, or a write that the
table allows. -/
def Moves (s t : JobEntry) : Prop :=
  (t.version = s.version ∧ t.job = s.job) ∨
    (t.version = s.version + 1 ∧ ∃ r r', s.job = some r ∧ t.job = some r' ∧
      JobState.CanTransition r.state r'.state)

def updateContract : Contract JobCommand.Reply JobAnswer JobEntry where
  exec := JobCommand.perform
  rely := Unwritten
  ok _ _ _ := True
  guar := Moves
  rely_refl s := ⟨Nat.le_refl _, fun _ => rfl⟩
  rely_trans {s t u} hst htu := by
    refine ⟨Nat.le_trans hst.version htu.version, ?_⟩
    intro hversion
    have h₁ := hst.version
    have h₂ := htu.version
    rw [htu.job (by omega), hst.job (by omega)]

theorem Moves.unwritten {s t : JobEntry} (h : Moves s t) : Unwritten s t := by
  rcases h with ⟨hversion, hjob⟩ | ⟨hversion, -⟩
  · exact ⟨by omega, fun _ => hjob⟩
  · exact ⟨by omega, fun h => by omega⟩

theorem elsewhere_unwritten {e : Elsewhere} {s t : JobEntry} (h : elsewhere e s = some t) :
    Unwritten s t := by
  cases e with
  | tick now =>
    obtain rfl := Option.some.inj h
    exact ⟨Nat.le_refl _, fun _ => rfl⟩
  | expireKey =>
    obtain rfl := Option.some.inj h
    refine ⟨Nat.le_succ _, ?_⟩
    intro hversion
    simp at hversion

theorem moves_refl (s : JobEntry) : Moves s s := .inl ⟨rfl, rfl⟩

theorem moves_write {s : JobEntry} {r r' : JobRecord} (hjob : s.job = some r)
    (hcan : JobState.CanTransition r.state r'.state) : Moves s (s.write r') :=
  .inr ⟨rfl, r, r', hjob, rfl, hcan⟩

/-- Nothing is promised about what a call returns. -/
abbrev AnyPost : Except Exc (Option JobRecord) → JobEntry → Prop := fun _ _ => True

theorem memoryUpdate_ensures (new : JobState) (fields : Fields) (s : JobEntry) :
    Ensures updateContract AnyPost (memoryJobStore.update new fields) s := by
  intro t _ w r u _ hexec
  refine ⟨?_, fun _ _ => trivial⟩
  rcases perform_memoryUpdate w hexec with ⟨-, -, rfl⟩ | ⟨rec, hjob, hdecided⟩
  · exact moves_refl _
  · rcases hdecided with ⟨-, -, rfl⟩ | ⟨-, -, rfl⟩ | ⟨rec', hwritten, -, rfl⟩
    · exact moves_refl _
    · exact moves_refl _
    · obtain ⟨hcan, hstate⟩ := JobRecord.onUpdate_written hwritten
      exact moves_write hjob (hstate ▸ hcan)

/-- A round of the Redis loop: `EXEC` writes over the record that was read. The
induction is on the rounds that are left. -/
theorem updateFrom_ensures (new : JobState) (fields : Fields) (tries : Nat) (s : JobEntry) :
    Ensures updateContract AnyPost (RedisJobStore.updateFrom new fields tries) s := by
  induction tries generalizing s with
  | zero => exact fun _ _ => trivial
  | succ tries ih =>
    rw [RedisJobStore.updateFrom]
    apply ensures_command_bind
    intro watched _ w version e₁ _ hwatch
    obtain ⟨rfl, rfl⟩ := Prod.mk.inj (Option.some.inj hwatch)
    refine ⟨moves_refl _, ?_⟩
    apply ensures_command_bind
    intro read hread w job e₂ _ hget
    obtain ⟨rfl, rfl⟩ := Prod.mk.inj (Option.some.inj hget)
    refine ⟨moves_refl _, ?_⟩
    cases hjob : read.job with
    | none => exact fun _ _ => trivial
    | some rec =>
      apply ensures_command_bind
      intro timed htimed w now e₃ _ htime
      obtain ⟨rfl, rfl⟩ := Prod.mk.inj (Option.some.inj htime)
      refine ⟨moves_refl _, ?_⟩
      cases hdecision : rec.onUpdate new fields timed.clock with
      | kept => exact fun _ _ => trivial
      | refused => exact fun _ _ => trivial
      | written rec' =>
        obtain ⟨hcan, hstate⟩ := JobRecord.onUpdate_written hdecision
        apply ensures_command_bind
        intro executed hexecuted w r e₄ _ hexec
        rcases perform_exec w hexec with ⟨hversion, rfl, rfl⟩ | ⟨-, rfl, rfl⟩
        · -- the key still has the version that was watched, so the record is the one read
          have hsame := updateContract.rely_trans htimed hexecuted
          have hread' := hread.version
          have htimed' := hsame.version
          have hcurrent : executed.job = some rec := by
            rw [hsame.job (by omega), hjob]
          exact ⟨moves_write hcurrent (hstate ▸ hcan), fun _ _ => trivial⟩
        · exact ⟨moves_refl _, ih _⟩

theorem update_ensures (d : Deployment) (new : JobState) (fields : Fields) (s : JobEntry) :
    Ensures updateContract AnyPost (d.store.update new fields) s := by
  cases d with
  | inline => exact memoryUpdate_ensures new fields s
  | worker => exact updateFrom_ensures new fields RedisJobStore.tries s

/-- A command that changes the record writes the state `new`, and the call
returns what it has written. -/
def WritesOnly (new : JobState) : JobScript (Option JobRecord) → Prop
  | .pure _ | .raise _ => True
  | .call c rest =>
    (∀ w e r e', c.perform w e = some (r, e') → e'.job ≠ e.job →
      (∃ rec, e'.job = some rec ∧ rec.state = new) ∧ ∃ rec, rest r = .pure (some rec)) ∧
    ∀ r, WritesOnly new (rest r)

theorem writesOnly_call_bind {new : JobState} {c : JobCommand}
    {f : c.Reply → JobScript (Option JobRecord)}
    (hreads : ∀ w e r e', c.perform w e = some (r, e') → e' = e)
    (hrest : ∀ r, WritesOnly new (f r)) : WritesOnly new (c.call >>= f) := by
  refine ⟨?_, hrest⟩
  intro w e r e' hperform hchanged
  rw [hreads w e r e' hperform] at hchanged
  exact absurd rfl hchanged

theorem memoryUpdate_writesOnly (new : JobState) (fields : Fields) :
    WritesOnly new (memoryJobStore.update new fields) := by
  refine ⟨?_, fun _ => trivial⟩
  intro w e r e' hperform hchanged
  rcases perform_memoryUpdate w hperform with ⟨-, -, rfl⟩ | ⟨rec, -, hdecided⟩
  · exact absurd rfl hchanged
  · rcases hdecided with ⟨-, -, rfl⟩ | ⟨-, -, rfl⟩ | ⟨rec', hwritten, rfl, rfl⟩
    · exact absurd rfl hchanged
    · exact absurd rfl hchanged
    · exact ⟨⟨rec', rfl, (JobRecord.onUpdate_written hwritten).2⟩, rec', rfl⟩

theorem updateFrom_writesOnly (new : JobState) (fields : Fields) (tries : Nat) :
    WritesOnly new (RedisJobStore.updateFrom new fields tries) := by
  induction tries with
  | zero => trivial
  | succ tries ih =>
    rw [RedisJobStore.updateFrom]
    apply writesOnly_call_bind
    · intro w e r e' hperform
      exact (Prod.mk.inj (Option.some.inj hperform)).2.symm
    intro version
    apply writesOnly_call_bind
    · intro w e r e' hperform
      exact (Prod.mk.inj (Option.some.inj hperform)).2.symm
    intro job
    cases job with
    | none => trivial
    | some rec =>
      apply writesOnly_call_bind
      · intro w e r e' hperform
        exact (Prod.mk.inj (Option.some.inj hperform)).2.symm
      intro now
      cases hdecision : rec.onUpdate new fields now with
      | kept => trivial
      | refused => trivial
      | written rec' =>
        refine ⟨?_, ?_⟩
        · intro w e r e' hperform hchanged
          rcases perform_exec w hperform with ⟨-, rfl, rfl⟩ | ⟨-, -, rfl⟩
          · exact ⟨⟨rec', rfl, (JobRecord.onUpdate_written hdecision).2⟩, rec', rfl⟩
          · exact absurd rfl hchanged
        · intro executed
          cases executed with
          | true => trivial
          | false => exact ih

theorem update_writesOnly (d : Deployment) (new : JobState) (fields : Fields) :
    WritesOnly new (d.store.update new fields) := by
  cases d with
  | inline => exact memoryUpdate_writesOnly new fields
  | worker => exact updateFrom_writesOnly new fields RedisJobStore.tries

/-! ## One step of the calls -/

/-- Every call keeps to its contract and writes only its own state. -/
structure Calling (calls : List (JobState × Fields)) (s : Updates) : Prop where
  keeps : Pool.Keeps updateContract (fun _ => AnyPost) s
  writes : ∀ (i : Nat) p, s.scripts[i]? = some p →
    ∃ call : JobState × Fields, calls[i]? = some call ∧ WritesOnly call.1 p

theorem calling_start (d : Deployment) (e : JobEntry) (calls : List (JobState × Fields)) :
    Calling calls (updateCalls d e calls) := by
  have hscript : ∀ (i : Nat) p, (updateCalls d e calls).scripts[i]? = some p →
      ∃ call : JobState × Fields, calls[i]? = some call ∧ p = d.store.update call.1 call.2 := by
    intro i p hp
    simp only [updateCalls, List.getElem?_map, Option.map_eq_some_iff] at hp
    obtain ⟨call, hcall, rfl⟩ := hp
    exact ⟨call, hcall, rfl⟩
  constructor
  · intro i p hp
    obtain ⟨call, -, rfl⟩ := hscript i p hp
    exact update_ensures d _ _ _
  · intro i p hp
    obtain ⟨call, hcall, rfl⟩ := hscript i p hp
    exact ⟨call, hcall, update_writesOnly d _ _⟩

variable {calls : List (JobState × Fields)} {s t : Updates}

theorem Calling.step (hcalling : Calling calls s) {a : UpdateLabel}
    (h : updateStep s a = some t) : Calling calls t := by
  have hok : Pool.Allowed updateContract s a := by
    cases a with
    | work i w => exact fun _ _ _ => trivial
    | other e => trivial
  constructor
  · exact hcalling.keeps.step (fun _ _ _ => Moves.unwritten) (fun _ _ _ => elsewhere_unwritten)
      hok h
  · apply Pool.step_inherits _ hcalling.writes h
    intro i c rest hcall r
    obtain ⟨call, hcall, hwrites⟩ := hcall
    exact ⟨call, hcall, hwrites.2 r⟩

/-- What a step of a call does to the record. -/
theorem Calling.step_work (hcalling : Calling calls s) {i : Nat} {w : JobAnswer}
    (h : updateStep s (.work i w) = some t) :
    t.shared.job = s.shared.job ∨
      ∃ (call : JobState × Fields) (r r' rec : JobRecord), calls[i]? = some call ∧ s.shared.job = some r ∧ t.shared.job = some r' ∧
        JobState.CanTransition r.state call.1 ∧ r'.state = call.1 ∧
        t.scripts[i]? = some (.pure (some rec)) := by
  by_cases hchanged : t.shared.job = s.shared.job
  · exact .inl hchanged
  · right
    have hmoves : Moves s.shared t.shared := hcalling.keeps.guar (fun _ _ _ => trivial) h
    rcases hmoves with ⟨-, hsame⟩ | ⟨-, r, r', hr, hr', hcan⟩
    · exact absurd hsame hchanged
    · obtain ⟨c, rest, reply, u, hp, hperform, rfl⟩ := Pool.step_work_iff.mp h
      obtain ⟨call, hcall, hwrites⟩ := hcalling.writes i _ hp
      obtain ⟨⟨rec, hrec, hstate⟩, rec', hrest⟩ := hwrites.1 w _ _ _ hperform hchanged
      obtain rfl : rec = r' := Option.some.inj (hrec.symm.trans hr')
      refine ⟨call, r, rec, rec', hcall, hr, hr', hstate ▸ hcan, hstate, ?_⟩
      rw [List.getElem?_set_self (List.getElem?_eq_some_iff.mp hp).1, hrest]

/-! ## Whole runs -/

/-- The record stays away, stays as it is, or follows the table. -/
structure Follows (s t : JobEntry) : Prop where
  gone : s.job = none → t.job = none
  path : ∀ r r', s.job = some r → t.job = some r' →
    r' = r ∨ TransGen JobState.CanTransition r.state r'.state

theorem follows_refl (s : JobEntry) : Follows s s := by
  refine ⟨id, ?_⟩
  intro r r' hr hr'
  exact .inl (Option.some.inj (hr'.symm.trans hr))

theorem Follows.trans {s t u : JobEntry} (hst : Follows s t) (htu : Follows t u) :
    Follows s u := by
  refine ⟨fun h => htu.gone (hst.gone h), ?_⟩
  intro r r'' hr hr''
  cases hjob : t.job with
  | none =>
    rw [htu.gone hjob] at hr''
    cases hr''
  | some r' =>
    rcases hst.path r r' hr hjob with rfl | hfirst
    · exact htu.path _ _ hjob hr''
    · rcases htu.path r' r'' hjob hr'' with rfl | hsecond
      · exact .inr hfirst
      · exact .inr (hfirst.trans hsecond)

theorem Calling.step_follows (hcalling : Calling calls s) {a : UpdateLabel}
    (h : updateStep s a = some t) : Follows s.shared t.shared := by
  cases a with
  | work i w =>
    rcases hcalling.step_work h with hsame | ⟨call, r, r', -, -, hr, hr', hcan, hstate, -⟩
    · refine ⟨fun hnone => hsame ▸ hnone, ?_⟩
      intro r r' hr hr'
      rw [hsame, hr] at hr'
      exact .inl (Option.some.inj hr').symm
    · constructor
      · intro hnone
        rw [hr] at hnone
        cases hnone
      · intro r₁ r₂ hr₁ hr₂
        obtain rfl := Option.some.inj (hr.symm.trans hr₁)
        obtain rfl := Option.some.inj (hr'.symm.trans hr₂)
        exact .inr (.single (hstate ▸ hcan))
  | other e =>
    obtain ⟨u, hu, rfl⟩ := Pool.step_other_iff.mp h
    cases e with
    | tick now =>
      obtain rfl := Option.some.inj hu
      exact ⟨id, (follows_refl _).path⟩
    | expireKey =>
      obtain rfl := Option.some.inj hu
      exact ⟨fun _ => rfl, fun _ _ _ hr' => by cases hr'⟩

/-- From a terminal state the table leads from `ready` to `expired`, and no further. -/
theorem transGen_of_terminal {old new : JobState}
    (h : TransGen JobState.CanTransition old new) (hold : old ∈ JobState.terminal) :
    old = .ready ∧ new = .expired := by
  have hfirst : ∀ {new}, JobState.CanTransition old new → old = .ready ∧ new = .expired := by
    intro new hcan
    rcases hcan.source with hactive | hready
    · exact absurd hold (JobState.not_terminal_of_active hactive)
    · exact hready
  induction h with
  | single hcan => exact hfirst hcan
  | tail _ hcan ih =>
    obtain ⟨rfl, rfl⟩ := ih
    simp [JobState.CanTransition, JobState.allowed] at hcan

theorem calling_follows {d : Deployment} {e : JobEntry} {l : List UpdateLabel} {u : Updates}
    (h : Runs.Later updateStep (updateCalls d e calls) l u t) :
    Follows u.shared t.shared := by
  have hinv : ∀ s a t, Calling calls s → updateStep s a = some t → Calling calls t :=
    fun _ _ _ hs hstep => hs.step hstep
  let followed : Updates → Updates → Prop := fun s t => Follows s.shared t.shared
  have hrefl : ∀ s, followed s s := fun s => follows_refl s.shared
  have htrans : ∀ s t u, followed s t → followed t u → followed s u := fun _ _ _ => Follows.trans
  have hrel : ∀ s a t, Calling calls s → updateStep s a = some t → followed s t :=
    fun _ _ _ hs hstep => hs.step_follows hstep
  exact h.related hinv hrefl htrans hrel (calling_start d e calls)

/-- What has come to its end stays there until the end of the run. -/
theorem finished_of_run {l : List UpdateLabel} {i : Nat}
    {p : JobScript (Option JobRecord)} (hp : s.scripts[i]? = some p) (hfinished : p.Finished)
    (h : Runs.run updateStep s l = some t) : t.scripts[i]? = some p := by
  have hstep : ∀ (s : Updates) a t, s.scripts[i]? = some p → updateStep s a = some t →
      t.scripts[i]? = some p := fun _ _ _ hs hstep => Pool.step_finished hstep hs hfinished
  exact Runs.run_invariant hstep hp h

/-- Whatever updates are called on a record, in whatever order their steps are
taken, the record keeps to the transition table. -/
theorem updates_safe (d : Deployment) (e : JobEntry) (calls : List (JobState × Fields))
    (l : List UpdateLabel) : SafeUpdates (updateCalls d e calls) calls l := by
  have hinv : ∀ {u}, Runs.Visited updateStep (updateCalls d e calls) l u → Calling calls u :=
    fun hu => hu.invariant (fun _ _ _ hs hstep => hs.step hstep) (calling_start d e calls)
  have hterminal : ∀ {u t r r'}, Runs.Later updateStep (updateCalls d e calls) l u t →
      u.shared.job = some r → t.shared.job = some r' → r.state ∈ JobState.terminal →
      r' = r ∨ (r.state = .ready ∧ r'.state = .expired) := by
    intro u t r r' hlater hr hr' hstate
    rcases (calling_follows hlater).path r r' hr hr' with hsame | hpath
    · exact .inl hsame
    · exact .inr (transGen_of_terminal hpath hstate)
  have hstep : ∀ {u i w t}, Runs.StepAt updateStep (updateCalls d e calls) l u (.work i w) t →
      updateStep u (.work i w) = some t := by
    intro u i w t hat
    obtain ⟨_, _, _, _, hstep⟩ := hat
    exact hstep
  have hwrites : ∀ {u i w t new fields},
      Runs.StepAt updateStep (updateCalls d e calls) l u (.work i w) t →
      calls[i]? = some (new, fields) → t.shared.job ≠ u.shared.job →
      ∃ r r', u.shared.job = some r ∧ t.shared.job = some r' ∧
        JobState.CanTransition r.state new ∧ r'.state = new := by
    intro u i w t new fields hat hcall hchanged
    rcases (hinv hat.source).step_work (hstep hat) with
      hsame | ⟨call, r, r', -, hcall', hr, hr', hcan, hstate, -⟩
    · exact absurd hsame hchanged
    · obtain rfl := Option.some.inj (hcall'.symm.trans hcall)
      exact ⟨r, r', hr, hr', hcan, hstate⟩
  constructor
  case path =>
    intro u t r r' hlater hr hr'
    rcases (calling_follows hlater).path r r' hr hr' with rfl | hpath
    · exact .refl
    · exact hpath.to_reflTransGen
  case terminal => exact hterminal
  case neverReady =>
    intro u t r r' hlater hr hr' hstate
    have hdead : r.state ∈ JobState.terminal ∧ r.state ≠ .ready := by
      revert hstate
      cases r.state <;> decide
    rcases hterminal hlater hr hr' hdead.1 with hsame | ⟨hready, -⟩
    · exact hsame
    · exact absurd hready hdead.2
  case writes => exact hwrites
  case repeated =>
    intro u i w t new fields r hat hcall hr hstate hnew
    by_contra hchanged
    obtain ⟨r₁, r₂, hr₁, -, hcan, -⟩ := hwrites hat hcall hchanged
    obtain rfl := Option.some.inj (hr.symm.trans hr₁)
    -- a terminal state is no successor of its own
    obtain ⟨hready, hexpired⟩ := transGen_of_terminal (.single hcan) (hstate ▸ hnew)
    rw [hstate, hexpired] at hready
    cases hready
  case refused =>
    intro i t hrun hnone u w v hat
    rcases (hinv hat.source).step_work (hstep hat) with
      hsame | ⟨-, -, -, rec, -, -, -, -, -, hreturned⟩
    · exact hsame
    · -- a call that has written returns what it wrote
      obtain ⟨l₁, l₂, rfl, hu, hv⟩ := hat
      rw [Runs.run_append, hu, Option.bind_some, Runs.run_cons, hv, Option.bind_some] at hrun
      rw [finished_of_run hreturned trivial hrun] at hnone
      cases hnone

end JobStates

end LlmService
