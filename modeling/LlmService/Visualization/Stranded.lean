import LlmService.Visualization.Runner

/-!
# Jobs that are left behind

One worker runs a job to its end, while others cancel it, expire it, or its
key expires. A job is stranded if its record is still active when the worker
has finished with it.
-/

namespace LlmService

namespace Stranded

open Script Runner

/-- The job has ended, or its record is gone. -/
def JobOver (e : JobEntry) : Prop := ∀ rec, e.job = some rec → rec.state ∈ JobState.terminal

/-- The job is over, or in one of the states. -/
def JobOverOrIn (states : List JobState) (e : JobEntry) : Prop :=
  ∀ rec, e.job = some rec → rec.state ∈ JobState.terminal ∨ rec.state ∈ states

/-! ## The run of a worker -/

/-- What happens to the record while the worker runs. -/
inductive Meanwhile where
  | tick (now : Seconds)
  /-- `cancel_job`. -/
  | cancel
  | expire
  | expireKey
  deriving DecidableEq

/-- The record as another update leaves it. -/
def updated (new : JobState) (fields : Fields) (e : JobEntry) : JobEntry :=
  match e.job with
  | none => e
  | some rec =>
    match rec.onUpdate new fields e.clock with
    | .written rec' => e.write rec'
    | _ => e

def meanwhile : Meanwhile → JobEntry → Option JobEntry
  | .tick now, e => some { e with clock := now }
  | .cancel, e => some (updated .cancelled { failure := some (some .cancelled) } e)
  | .expire, e => some (updated .expired {} e)
  | .expireKey, e => some { e with job := none, version := e.version + 1 }

abbrev Working := Pool JobEntry (JobScript Unit)

abbrev WorkLabel := Pool.Label JobAnswer Meanwhile

def workStep (s : Working) (a : WorkLabel) : Option Working :=
  Pool.step JobCommand.perform meanwhile s a

/-- A worker that is about to claim the job. -/
def startWorker (d : Deployment) (cfg : RunConfig) (e : JobEntry) : Working where
  shared := e
  scripts := [worker cfg d]

/-- When the worker has finished with the job, the job is over. -/
def NotStranded (s : Working) : Prop := (∀ p ∈ s.scripts, p.Finished) → JobOver s.shared

/-- A callback raises, and `_run_job` does not catch it. -/
def Raises : JobAnswer → Prop
  | .repaired (.error _) => True
  | .validated (.raised _) => True
  | .rendered (.error _) => True
  | _ => False

/-- No attempt begins on a record that is being validated, and in a worker
process no exception leaves `_run_job` before the job is over. -/
def Orderly (d : Deployment) (c : JobCommand) (w : JobAnswer) (e : JobEntry) : Prop :=
  (∀ number, c = .attempt number → ∀ rec, e.job = some rec → rec.state ≠ .validating) ∧
    (d = .worker → Raises w → JobOver e)

/-! ## What others do -/

/-- The record stays, or the job is over. -/
def Disturbed (s t : JobEntry) : Prop :=
  t.claimed = s.claimed ∧
    ((t.job = s.job ∧ t.version = s.version) ∨ (s.version < t.version ∧ JobOver t))

theorem JobOver.overOrIn {e : JobEntry} (h : JobOver e) (states : List JobState) : JobOverOrIn states e :=
  fun rec hrec => .inl (h rec hrec)

theorem JobOverOrIn.over_of_terminal {e : JobEntry} {new : JobState} (h : JobOverOrIn [new] e)
    (hnew : new ∈ JobState.terminal) : JobOver e := by
  intro rec hrec
  rcases h rec hrec with hterminal | hstate
  · exact hterminal
  · rwa [List.mem_singleton.mp hstate]

theorem overOrIn_active (e : JobEntry) : JobOverOrIn JobState.active e := fun rec _ =>
  (JobState.active_or_terminal rec.state).symm

theorem Disturbed.overOrIn {states : List JobState} {s t : JobEntry} (h : Disturbed s t)
    (hs : JobOverOrIn states s) : JobOverOrIn states t := by
  rcases h.2 with ⟨hjob, -⟩ | ⟨-, hover⟩
  · intro rec hrec
    exact hs rec (hjob ▸ hrec)
  · exact hover.overOrIn states

theorem Disturbed.over {s t : JobEntry} (h : Disturbed s t) (hs : JobOver s) : JobOver t := by
  rcases h.2 with ⟨hjob, -⟩ | ⟨-, hover⟩
  · intro rec hrec
    exact hs rec (hjob ▸ hrec)
  · exact hover

def workContract (d : Deployment) : Contract JobCommand.Reply JobAnswer JobEntry where
  exec := JobCommand.perform
  rely := Disturbed
  ok := Orderly d
  guar _ _ := True
  rely_refl _ := ⟨rfl, .inl ⟨rfl, rfl⟩⟩
  rely_trans {s t u} hst htu := by
    refine ⟨htu.1.trans hst.1, ?_⟩
    rcases hst.2 with ⟨hjob, hversion⟩ | ⟨hversion, hover⟩
    · rcases htu.2 with ⟨hjob', hversion'⟩ | ⟨hversion', hover'⟩
      · exact .inl ⟨hjob'.trans hjob, hversion'.trans hversion⟩
      · exact .inr ⟨by omega, hover'⟩
    · refine .inr ⟨?_, htu.over hover⟩
      rcases htu.2 with ⟨-, hversion'⟩ | ⟨hversion', -⟩
      · omega
      · omega

theorem updated_disturbed {new : JobState} (hnew : new ∈ JobState.terminal) (fields : Fields)
    (e : JobEntry) : Disturbed e (updated new fields e) := by
  simp only [updated]
  cases hjob : e.job with
  | none => exact ⟨rfl, .inl ⟨rfl, rfl⟩⟩
  | some rec =>
    dsimp only
    cases hdecision : rec.onUpdate new fields e.clock with
    | kept => exact ⟨rfl, .inl ⟨rfl, rfl⟩⟩
    | refused => exact ⟨rfl, .inl ⟨rfl, rfl⟩⟩
    | written rec' =>
      refine ⟨rfl, .inr ⟨Nat.lt_succ_self _, ?_⟩⟩
      intro rec hrec
      obtain rfl := Option.some.inj hrec
      rwa [(JobRecord.onUpdate_written hdecision).2]

theorem meanwhile_disturbed {m : Meanwhile} {s t : JobEntry} (h : meanwhile m s = some t) :
    Disturbed s t := by
  cases m with
  | tick now =>
    obtain rfl := Option.some.inj h
    exact ⟨rfl, .inl ⟨rfl, rfl⟩⟩
  | cancel =>
    obtain rfl := Option.some.inj h
    exact updated_disturbed (by decide) _ s
  | expire =>
    obtain rfl := Option.some.inj h
    exact updated_disturbed (by decide) _ s
  | expireKey =>
    obtain rfl := Option.some.inj h
    refine ⟨rfl, .inr ⟨Nat.lt_succ_self _, ?_⟩⟩
    intro rec hrec
    cases hrec

/-! ## The updates of the worker -/

section Update

variable {d : Deployment} {new : JobState} {fields : Fields}

/-- What is written over a job that is over is over. -/
theorem over_write {rec rec' : JobRecord} {now : Seconds} (e : JobEntry)
    (hterminal : rec.state ∈ JobState.terminal)
    (hwritten : rec.onUpdate new fields now = .written rec') : JobOver (e.write rec') := by
  obtain ⟨hcan, hstate⟩ := JobRecord.onUpdate_written hwritten
  intro rec₁ hrec₁
  obtain rfl := Option.some.inj hrec₁
  rcases hcan.source with hactive | ⟨-, hexpired⟩
  · exact absurd hterminal (JobState.not_terminal_of_active hactive)
  · rw [hstate, hexpired]
    decide

theorem overOrIn_write {rec rec' : JobRecord} {now : Seconds} (e : JobEntry)
    (hwritten : rec.onUpdate new fields now = .written rec') : JobOverOrIn [new] (e.write rec') := by
  intro rec₁ hrec₁
  obtain rfl := Option.some.inj hrec₁
  exact .inr (List.mem_singleton.mpr (JobRecord.onUpdate_written hwritten).2)

/-- What an update of the worker leaves, if the table allows it from every
state that the job may be in: its own state, and `None` only for a job that
is over. -/
def Updated (new : JobState) (r : Except Exc (Option JobRecord)) (e : JobEntry) : Prop :=
  match r with
  | .ok (some _) => JobOverOrIn [new] e
  | .ok none => JobOver e
  | .error _ => False

theorem Updated.of_over {e : JobEntry} (h : JobOver e) (r : Option JobRecord) :
    Updated new (.ok r) e := by
  cases r with
  | none => exact h
  | some rec => exact h.overOrIn _

theorem over_of_kept {rec : JobRecord} {now : Seconds} {e : JobEntry}
    (hjob : e.job = some rec) (hkept : rec.onUpdate new fields now = .kept) : JobOver e := by
  intro rec₁ hrec₁
  obtain rfl := Option.some.inj (hjob.symm.trans hrec₁)
  obtain ⟨hstate, hterminal⟩ := JobRecord.onUpdate_kept hkept
  rwa [hstate]

/-- A record that refuses an update which the table allows is over. -/
theorem over_of_refused {states : List JobState}
    (hcan : ∀ state ∈ states, JobState.CanTransition state new) {rec : JobRecord}
    {now : Seconds} {e : JobEntry} (h : JobOverOrIn states e) (hjob : e.job = some rec)
    (hrefused : rec.onUpdate new fields now = .refused) : JobOver e := by
  intro rec₁ hrec₁
  obtain rfl := Option.some.inj (hjob.symm.trans hrec₁)
  rcases h rec hjob with hterminal | hstate
  · exact hterminal
  · exact absurd (hcan rec.state hstate) (JobRecord.onUpdate_refused hrefused)

theorem over_of_none {e : JobEntry} (hjob : e.job = none) : JobOver e := by
  intro rec hrec
  rw [hjob] at hrec
  cases hrec

theorem memoryUpdate_updated {states : List JobState}
    (hcan : ∀ state ∈ states, JobState.CanTransition state new) {s : JobEntry}
    (h : JobOverOrIn states s) :
    Ensures (workContract d) (Updated new) (memoryJobStore.update new fields) s := by
  intro t ht w r u _ hexec
  refine ⟨trivial, ?_⟩
  have hat : JobOverOrIn states t := Disturbed.overOrIn ht h
  intro v hv
  rcases perform_memoryUpdate w hexec with ⟨hjob, rfl, rfl⟩ | ⟨rec, hjob, hdecided⟩
  · exact Disturbed.over hv (over_of_none hjob)
  · rcases hdecided with ⟨hkept, rfl, rfl⟩ | ⟨hrefused, rfl, rfl⟩ | ⟨rec', hwritten, rfl, rfl⟩
    · exact (Disturbed.over hv (over_of_kept hjob hkept)).overOrIn _
    · exact Disturbed.over hv (over_of_refused hcan hat hjob hrefused)
    · exact Disturbed.overOrIn hv (overOrIn_write t hwritten)

/-- The Redis loop on a job that is over. -/
theorem updateFrom_over (tries : Nat) {s : JobEntry} (h : JobOver s) :
    Ensures (workContract d) (fun r e => (∃ rec, r = .ok rec) ∧ JobOver e)
      (RedisJobStore.updateFrom new fields tries) s := by
  induction tries generalizing s with
  | zero => exact fun t ht => ⟨⟨_, rfl⟩, Disturbed.over ht h⟩
  | succ tries ih =>
    rw [RedisJobStore.updateFrom]
    apply ensures_command_bind
    intro watched hwatched w version e₁ _ hwatch
    obtain ⟨rfl, rfl⟩ := Prod.mk.inj (Option.some.inj hwatch)
    refine ⟨trivial, ?_⟩
    apply ensures_command_bind
    intro read hread w job e₂ _ hget
    obtain ⟨rfl, rfl⟩ := Prod.mk.inj (Option.some.inj hget)
    refine ⟨trivial, ?_⟩
    have hover : JobOver read := Disturbed.over hread (Disturbed.over hwatched h)
    cases hjob : read.job with
    | none => exact fun t ht => ⟨⟨_, rfl⟩, Disturbed.over ht hover⟩
    | some rec =>
      apply ensures_command_bind
      intro timed htimed w now e₃ _ htime
      obtain ⟨rfl, rfl⟩ := Prod.mk.inj (Option.some.inj htime)
      refine ⟨trivial, ?_⟩
      have hover' : JobOver timed := Disturbed.over htimed hover
      cases hdecision : rec.onUpdate new fields timed.clock with
      | kept => exact fun t ht => ⟨⟨_, rfl⟩, Disturbed.over ht hover'⟩
      | refused => exact fun t ht => ⟨⟨_, rfl⟩, Disturbed.over ht hover'⟩
      | written rec' =>
        apply ensures_command_bind
        intro executed hexecuted w r e₄ _ hexec
        refine ⟨trivial, ?_⟩
        have hover'' : JobOver executed := Disturbed.over hexecuted hover'
        rcases perform_exec w hexec with ⟨-, rfl, rfl⟩ | ⟨-, rfl, rfl⟩
        · have hwrite := over_write executed (hover rec hjob) hdecision
          exact fun t ht => ⟨⟨_, rfl⟩, Disturbed.over ht hwrite⟩
        · exact ih hover''

/-- A round of the Redis loop; where `EXEC` fails, another client has ended the job. -/
theorem redisUpdate_updated {states : List JobState}
    (hcan : ∀ state ∈ states, JobState.CanTransition state new) {s : JobEntry}
    (h : JobOverOrIn states s) :
    Ensures (workContract d) (Updated new) (redisJobStore.update new fields) s := by
  show Ensures (workContract d) (Updated new) (RedisJobStore.updateFrom new fields (4 + 1)) s
  rw [RedisJobStore.updateFrom]
  apply ensures_command_bind
  intro watched hwatched w version e₁ _ hwatch
  obtain ⟨rfl, rfl⟩ := Prod.mk.inj (Option.some.inj hwatch)
  refine ⟨trivial, ?_⟩
  apply ensures_command_bind
  intro read hread w job e₂ _ hget
  obtain ⟨rfl, rfl⟩ := Prod.mk.inj (Option.some.inj hget)
  refine ⟨trivial, ?_⟩
  have hat : JobOverOrIn states read := Disturbed.overOrIn hread (Disturbed.overOrIn hwatched h)
  cases hjob : read.job with
  | none => exact fun t ht => Disturbed.over ht (over_of_none hjob)
  | some rec =>
    apply ensures_command_bind
    intro timed htimed w now e₃ _ htime
    obtain ⟨rfl, rfl⟩ := Prod.mk.inj (Option.some.inj htime)
    refine ⟨trivial, ?_⟩
    cases hdecision : rec.onUpdate new fields timed.clock with
    | kept =>
      have hover := Disturbed.over htimed (over_of_kept hjob hdecision)
      exact fun t ht => (Disturbed.over ht hover).overOrIn _
    | refused =>
      have hover := Disturbed.over htimed (over_of_refused hcan hat hjob hdecision)
      exact fun t ht => Disturbed.over ht hover
    | written rec' =>
      apply ensures_command_bind
      intro executed hexecuted w r e₄ _ hexec
      refine ⟨trivial, ?_⟩
      rcases perform_exec w hexec with ⟨-, rfl, rfl⟩ | ⟨hversion, rfl, rfl⟩
      · exact fun t ht => Disturbed.overOrIn ht (overOrIn_write executed hdecision)
      · have hsince : Disturbed read e₄ := (workContract d).rely_trans htimed hexecuted
        have hsince' : Disturbed watched e₄ := (workContract d).rely_trans hread hsince
        rcases hsince'.2 with ⟨-, hsame⟩ | ⟨-, hover⟩
        · exact absurd hsame hversion
        · apply (updateFrom_over 4 hover).weaken
          intro r t hboth
          obtain ⟨⟨rec₁, rfl⟩, hover₁⟩ := hboth
          exact .of_over hover₁ rec₁

/-- An update that the table allows from every state the job may be in. -/
theorem update_updated {states : List JobState}
    (hcan : ∀ state ∈ states, JobState.CanTransition state new) {s : JobEntry}
    (h : JobOverOrIn states s) : Ensures (workContract d) (Updated new) (d.store.update new fields) s := by
  cases d with
  | inline => exact memoryUpdate_updated hcan h
  | worker => exact redisUpdate_updated hcan h

end Update

/-! ## The script of the worker -/

section Work

variable {d : Deployment} {cfg : RunConfig}

/-- How a part of `_run_job` ends: with `post`, or with an exception, which a
worker process only lets out of a job that is over. -/
def Ends {α : Type} (d : Deployment) (post : α → JobEntry → Prop) (r : Except Exc α)
    (e : JobEntry) : Prop :=
  match r with
  | .ok a => post a e
  | .error _ => d = .worker → JobOver e

/-- An update, and what comes behind it. -/
theorem update_bind {α : Type} {new : JobState} {fields : Fields} {states : List JobState}
    (hcan : ∀ state ∈ states, JobState.CanTransition state new) {s : JobEntry}
    (h : JobOverOrIn states s) {post : α → JobEntry → Prop} {f : Option JobRecord → JobScript α}
    (hsome : ∀ rec t, JobOverOrIn [new] t → Ensures (workContract d) (Ends d post) (f (some rec)) t)
    (hnone : ∀ t, JobOver t → Ensures (workContract d) (Ends d post) (f none) t) :
    Ensures (workContract d) (Ends d post) (d.store.update new fields >>= f) s := by
  apply Ensures.bind
  apply (update_updated hcan h).weaken
  intro r t hupdated
  cases r with
  | error exc => exact hupdated.elim
  | ok r =>
    cases r with
    | none => exact hnone t hupdated
    | some rec => exact hsome rec t hupdated

/-- The record, as long as the job is over. -/
theorem get_over {s : JobEntry} (h : JobOver s) :
    Ensures (workContract d) (Ends d fun _ => JobOver) (d.store.get) s := by
  have hget : d.store.get = getJob := by cases d <;> rfl
  rw [hget]
  intro t ht w r u _ hexec
  obtain ⟨rfl, rfl⟩ := Prod.mk.inj (Option.some.inj hexec)
  refine ⟨trivial, ?_⟩
  intro v hv
  exact Disturbed.over hv (Disturbed.over ht h)

theorem orGet_over {s : JobEntry} (h : JobOver s) (r : Option JobRecord) :
    Ensures (workContract d) (Ends d fun _ => JobOver) (orGet d.store r) s := by
  cases r with
  | none => exact get_over h
  | some rec => exact fun t ht => Disturbed.over ht h

/-- What an update leaves does not depend on its result. -/
theorem update_then {α : Type} {new : JobState} {fields : Fields} {states : List JobState}
    (hcan : ∀ state ∈ states, JobState.CanTransition state new) {s : JobEntry}
    (h : JobOverOrIn states s) {post : α → JobEntry → Prop} {f : Option JobRecord → JobScript α}
    (hrest : ∀ r t, JobOverOrIn [new] t → Ensures (workContract d) (Ends d post) (f r) t) :
    Ensures (workContract d) (Ends d post) (d.store.update new fields >>= f) s :=
  update_bind hcan h (fun rec t ht => hrest (some rec) t ht)
    fun t ht => hrest none t (ht.overOrIn _)

/-- An update that ends the job, and the record behind it. -/
theorem update_orGet {new : JobState} {fields : Fields} {states : List JobState}
    (hcan : ∀ state ∈ states, JobState.CanTransition state new)
    (hnew : new ∈ JobState.terminal) {s : JobEntry} (h : JobOverOrIn states s) :
    Ensures (workContract d) (Ends d fun _ => JobOver)
      (d.store.update new fields >>= orGet d.store) s :=
  update_then hcan h fun r _ ht => orGet_over (ht.over_of_terminal hnew) r

/-- What leaves the loop with `return` leaves a job that is over. -/
def EndsOver : AttemptEnd → JobEntry → Prop
  | .returned _, e => JobOver e
  | _, _ => True

theorem failed_endsOver (a : Attempting) (last : FailureCategory) (e : JobEntry) :
    EndsOver (a.failed last) e := by
  simp only [Attempting.failed]
  cases (a.tracker.recordFailure last).nextStep last <;> trivial

theorem notFixed_endsOver (a : Attempting) (hasRepair : Bool) (e : JobEntry) :
    EndsOver (a.notFixed hasRepair) e := by
  simp only [Attempting.notFixed]
  generalize (if hasRepair then FailureCategory.invalidSpec else .workerUnavailable) = last
  by_cases hgive : (a.tracker.recordFailure last).nextStep last = .giveUp
  · rw [if_pos hgive]
    trivial
  · rw [if_neg hgive]
    trivial

/-- An exception of a callback leaves `_run_job`. -/
theorem throw_ends {α : Type} {post : α → JobEntry → Prop} {s : JobEntry} {exc : Exc}
    (h : d = .worker → JobOver s) :
    Ensures (workContract d) (Ends d post) (throw exc : JobScript α) s :=
  fun _ ht hd => Disturbed.over ht (h hd)

theorem returned_ends {s : JobEntry} {script : JobScript (Option JobRecord)}
    (h : Ensures (workContract d) (Ends d fun _ => JobOver) script s) :
    Ensures (workContract d) (Ends d EndsOver) (script >>= fun rec => return .returned rec) s := by
  apply Ensures.bind
  apply h.weaken
  intro r t hr
  cases r with
  | error exc => exact hr
  | ok rec => exact fun u hu => Disturbed.over hu hr

theorem renderSpec_ends (a : Attempting) {s : JobEntry} (h : JobOverOrIn [.validating] s) :
    Ensures (workContract d) (Ends d EndsOver) (renderSpec d.store a) s := by
  apply update_then (by decide) h
  intro _ t ht
  apply ensures_command_bind
  intro rendering hrendering w reply e hok hrender
  refine ⟨trivial, ?_⟩
  have hat : JobOverOrIn [.rendering] rendering := Disturbed.overOrIn hrendering ht
  obtain ⟨rfl, rfl⟩ := perform_render w hrender
  cases reply with
  | error exc => exact throw_ends fun hd => hok.2 hd trivial
  | ok result =>
    obtain ⟨ok, category, path⟩ := result
    have hcategory : Ensures (workContract d) (Ends d EndsOver)
        (if category.getD .renderError = .cancelled then do
          let _ ← d.store.update .cancelled {}
          return .returned (← d.store.get)
        else return a.failed (category.getD .renderError)) e := by
      by_cases hcancelled : category.getD .renderError = .cancelled
      · rw [if_pos hcancelled]
        apply update_then (by decide) hat
        intro _ u hu
        exact returned_ends (get_over (hu.over_of_terminal (by decide)))
      · rw [if_neg hcancelled]
        exact fun _ _ => failed_endsOver a _ _
    cases ok with
    | false => exact hcategory
    | true =>
      cases path with
      | none => exact hcategory
      | some path =>
        apply ensures_command_bind
        intro saving hsaving w saved e' _ hsave
        refine ⟨trivial, ?_⟩
        obtain ⟨rfl, rfl⟩ := perform_save w hsave
        cases saved with
        | error exc => exact fun _ _ => failed_endsOver a _ _
        | ok key =>
          apply update_then (by decide) (Disturbed.overOrIn hsaving hat)
          intro done u hu
          exact returned_ends (orGet_over (hu.over_of_terminal (by decide)) done)

theorem validateSpec_ends (a : Attempting) {s : JobEntry} (h : JobOverOrIn [.validating] s) :
    Ensures (workContract d) (Ends d EndsOver) (validateSpec d.store a) s := by
  apply ensures_command_bind
  intro t ht w reply e hok hvalidate
  refine ⟨trivial, ?_⟩
  obtain ⟨rfl, rfl⟩ := perform_validate w hvalidate
  cases reply with
  | ok => exact renderSpec_ends a (Disturbed.overOrIn ht h)
  | specError unsupported => exact fun _ _ => failed_endsOver a _ _
  | valueError => exact fun _ _ => failed_endsOver a _ _
  | raised exc => exact throw_ends fun hd => hok.2 hd trivial

theorem repairSpec_ends (a : Attempting) (attempt : Int) {states : List JobState} {s : JobEntry}
    (h : JobOverOrIn states s) :
    Ensures (workContract d) (Ends d fun _ => JobOverOrIn states) (repairSpec cfg a attempt) s := by
  rw [repairSpec]
  by_cases hrepair : (cfg.hasRepair && cfg.repairEnabled) = true
  · rw [if_pos hrepair]
    apply ensures_command_bind
    intro t ht w reply e hok hcall
    refine ⟨trivial, ?_⟩
    obtain ⟨rfl, rfl⟩ := perform_repair w hcall
    cases reply with
    | error exc => exact throw_ends fun hd => hok.2 hd trivial
    | ok fixed => exact fun u hu => Disturbed.overOrIn hu (Disturbed.overOrIn ht h)
  · rw [if_neg hrepair]
    exact fun u hu => Disturbed.overOrIn hu h

/-- An attempt that does not begin on a record that is being validated. -/
theorem attemptOnce_ends (a : Attempting) (attempt : Int) {s : JobEntry}
    (h : JobOverOrIn [.pending, .rendering, .repairing] s) :
    Ensures (workContract d) (Ends d EndsOver) (attemptOnce d.store cfg a attempt) s := by
  apply update_bind (by decide) h
  · intro rec t ht
    by_cases hrepair : a.needRepair
    · simp only [hrepair, if_true]
      apply update_then (by decide) ht
      intro _ u hu
      apply Ensures.bind
      apply (repairSpec_ends a attempt hu).weaken
      intro r v hr
      cases r with
      | error exc => exact hr
      | ok fixed =>
        cases fixed with
        | none => exact fun _ _ => notFixed_endsOver a _ _
        | some fixed =>
          apply update_then (by decide) hr
          intro _ x hx
          exact validateSpec_ends _ hx
    · simp only [hrepair]
      exact validateSpec_ends a ht
  · intro t ht
    exact returned_ends (get_over ht)

theorem giveUp_over (a : Attempting) (s : JobEntry) :
    Ensures (workContract d) (Ends d fun _ => JobOver) (giveUp d.store a) s :=
  update_orGet (by decide) (by decide) (overOrIn_active s)

/-- The loop leaves a job that is over. The induction is on the passes. -/
theorem attempts_over (passes : Nat) (a : Attempting) (s : JobEntry) :
    Ensures (workContract d) (Ends d fun _ => JobOver) (attempts d.store cfg passes a) s := by
  induction passes generalizing a s with
  | zero => exact giveUp_over a s
  | succ passes ih =>
    rw [attempts]
    cases a.tracker.beginAttempt with
    | none => exact giveUp_over a s
    | some begun =>
      obtain ⟨attempt, tracker⟩ := begun
      apply ensures_command_bind
      intro t ht w r e hok hcall
      obtain ⟨rfl, rfl⟩ := Prod.mk.inj (Option.some.inj hcall)
      refine ⟨trivial, ?_⟩
      have hat : JobOverOrIn [.pending, .rendering, .repairing] t := by
        intro rec hrec
        have hstate := hok.1 attempt rfl rec hrec
        revert hstate
        cases rec.state <;> decide
      apply Ensures.bind
      apply (attemptOnce_ends { a with tracker } attempt hat).weaken
      intro r u hr
      cases r with
      | error exc => exact hr
      | ok ended =>
        cases ended with
        | returned rec => exact fun v hv => Disturbed.over hv hr
        | gaveUp a' => exact giveUp_over a' u
        | goesOn a' => exact ih a' u

/-- A worker that claims the job leaves it over. -/
theorem runJob_over {s : JobEntry} (hclaimed : s.claimed = false) :
    Ensures (workContract d) (Ends d fun _ => JobOver) (runJob d.store cfg) s := by
  have hclaim : d.store.claim = claimJob := by cases d <;> rfl
  have hget : d.store.get = getJob := by cases d <;> rfl
  rw [runJob, hclaim, hget]
  apply ensures_command_bind
  intro t ht w r e _ hcall
  have hfree : t.claimed = false := (show Disturbed s t from ht).1.trans hclaimed
  simp only [workContract, JobCommand.perform, hfree] at hcall
  obtain ⟨rfl, rfl⟩ := Prod.mk.inj (Option.some.inj hcall)
  refine ⟨trivial, ?_⟩
  apply ensures_command_bind
  intro u hu w r e _ hcall
  obtain ⟨rfl, rfl⟩ := Prod.mk.inj (Option.some.inj hcall)
  refine ⟨trivial, ?_⟩
  cases hjob : u.job with
  | none => exact fun v hv => Disturbed.over hv (over_of_none hjob)
  | some record =>
    by_cases hactive : record.state ∉ JobState.active
    · simp only [if_pos hactive]
      intro v hv
      apply Disturbed.over hv
      intro rec hrec
      obtain rfl := Option.some.inj (hjob.symm.trans hrec)
      exact (JobState.active_or_terminal record.state).resolve_left hactive
    · simp only [if_neg hactive]
      exact attempts_over _ _ u

/-- The task around it: what leaves `_run_job` is an exception from a job that
is over, or `go` ends the job. -/
theorem worker_over {s : JobEntry} (hclaimed : s.claimed = false) :
    Ensures (workContract d) (fun _ => JobOver) (worker cfg d) s := by
  have hrun : Ensures (workContract d) (Ends d fun _ => JobOver)
      (do let _ ← runJob d.store cfg : JobScript Unit) s := by
    apply Ensures.bind
    apply (runJob_over hclaimed).weaken
    intro r t hr
    cases r with
    | error exc => exact hr
    | ok rec => exact fun u hu => Disturbed.over hu hr
  cases d with
  | inline =>
    apply Ensures.handle
    apply hrun.weaken
    intro r t hr
    cases r with
    | ok rec => exact hr
    | error exc =>
      apply Ensures.bind
      apply (update_updated (by decide) (overOrIn_active t)).weaken
      intro r u hu
      have hover : JobOver u := by
        cases r with
        | error exc => exact hu.elim
        | ok r =>
          cases r with
          | none => exact hu
          | some rec => exact JobOverOrIn.over_of_terminal hu (by decide)
      cases r with
      | error exc => exact hu.elim
      | ok r => exact fun v hv => Disturbed.over hv hover
  | worker =>
    apply Ensures.handle
    apply hrun.weaken
    intro r t hr
    cases r with
    | ok rec => exact hr
    | error exc => exact fun u hu => Disturbed.over hu (hr rfl)

end Work

/-! ## Whole runs -/

/-- The commands that a label runs are orderly. -/
def OrderlyStep (d : Deployment) (s : Working) (a : WorkLabel) : Prop :=
  Pool.Allowed (workContract d) s a

/-- In every state of the run in which the worker has finished, the job is over. -/
def NeverStranded (d : Deployment) (cfg : RunConfig) (e : JobEntry) (l : List WorkLabel) : Prop :=
  ∀ t, Runs.Visited workStep (startWorker d cfg e) l t → NotStranded t

/-- A worker whose attempts do not begin on a record that is being validated,
and that no exception takes off an active job, strands no job. -/
theorem neverStranded_of_orderly (d : Deployment) (cfg : RunConfig) (e : JobEntry)
    (l : List WorkLabel) (hclaimed : e.claimed = false)
    (horderly : ∀ u a t, Runs.StepAt workStep (startWorker d cfg e) l u a t → OrderlyStep d u a) :
    NeverStranded d cfg e l := by
  let post : Nat → Except Exc Unit → JobEntry → Prop := fun _ _ => JobOver
  have hlength : ∀ (s : Working) a t, s.scripts.length = 1 → workStep s a = some t →
      t.scripts.length = 1 := fun _ _ _ hs hstep => (Pool.step_length hstep).trans hs
  have hkeeps : ∀ (s : Working) a t, s.scripts.length = 1 → Pool.Keeps (workContract d) post s →
      OrderlyStep d s a → workStep s a = some t → Pool.Keeps (workContract d) post t := by
    intro s a t hs hkeeps hok hstep
    exact hkeeps.step (fun hmany => by omega) (fun _ _ _ => meanwhile_disturbed) hok hstep
  have hstart : Pool.Keeps (workContract d) post (startWorker d cfg e) := by
    intro i p hp
    cases i with
    | zero =>
      obtain rfl := Option.some.inj hp
      exact worker_over hclaimed
    | succ i => simp [startWorker] at hp
  intro t ht hfinished
  have hkept := Runs.visited_of_steps hlength hkeeps rfl hstart horderly t ht
  have hone : t.scripts.length = 1 := ht.invariant hlength rfl
  have hp : t.scripts[0]? = some t.scripts[0] := List.getElem?_eq_getElem (by omega)
  have hfirst := hfinished t.scripts[0] (List.getElem_mem _)
  revert hp hfirst
  cases t.scripts[0] with
  | pure a => exact fun hp _ => hkept.returned hp
  | raise exc => exact fun hp _ => hkept.raised hp
  | call c rest => exact fun _ hfirst => hfirst.elim

instance (e : JobEntry) : Decidable (JobOver e) :=
  inferInstanceAs (Decidable (∀ rec ∈ e.job, rec.state ∈ JobState.terminal))

instance (w : JobAnswer) : Decidable (Raises w) :=
  match w with
  | .repaired (.error _) | .validated (.raised _) | .rendered (.error _) => isTrue trivial
  | .none | .repaired (.ok _) | .validated .ok | .validated (.specError _)
  | .validated .valueError | .rendered (.ok _) | .saved _ => isFalse id

instance (c : JobCommand) (e : JobEntry) :
    Decidable (∀ number, c = .attempt number → ∀ rec, e.job = some rec → rec.state ≠ .validating) :=
  match c with
  | .attempt number =>
    decidable_of_iff (∀ rec ∈ e.job, rec.state ≠ .validating) ⟨fun h _ _ => h, fun h => h number rfl⟩
  | .get | .claim | .memoryUpdate _ _ | .memoryCreate _ | .watch | .exec _ _ | .setNx _ | .set _
  | .deleteClaim | .time | .repair _ _ _ | .validate _ | .render _ | .save _ => isTrue nofun

instance (d : Deployment) (c : JobCommand) (w : JobAnswer) (e : JobEntry) :
    Decidable ((workContract d).ok c w e) :=
  inferInstanceAs (Decidable (_ ∧ (d = .worker → Raises w → JobOver e)))

instance (d : Deployment) (s : Working) (a : WorkLabel) : Decidable (OrderlyStep d s a) :=
  inferInstanceAs (Decidable (Pool.Allowed (workContract d) s a))

def pendingJob : JobEntry := { job := some { spec := "[]" } }

/-- The state of the job when the worker has finished. -/
def leftIn (d : Deployment) (l : List WorkLabel) : Option JobState := do
  let t ← Runs.run workStep (startWorker d {} pendingJob) l
  if ∀ p ∈ t.scripts, p.Finished then t.shared.job.map (·.state) else none

/-- The first attempt fails to render; the second repairs the specification, and renders it. -/
def repairedJob (d : Deployment) : List WorkLabel :=
  let update := List.replicate d.updateLength (.work 0 .none)
  List.replicate 3 (.work 0 .none) ++ update ++ .work 0 (.validated .ok) :: update ++
    .work 0 (.rendered (.ok { ok := false, category := some .renderError })) ::
    .other (.tick 7) :: .work 0 .none :: update ++ update ++
    .work 0 (.repaired (.ok (some "[1]"))) :: update ++ .work 0 (.validated .ok) :: update ++
    .work 0 (.rendered (.ok { ok := true, path := some "clip.mp4" })) ::
    .work 0 (.saved (.ok "clip")) :: update

/-- A job that is cancelled while it renders. -/
def cancelledJob (d : Deployment) : List WorkLabel :=
  let update := List.replicate d.updateLength (.work 0 .none)
  List.replicate 3 (.work 0 .none) ++ update ++ .work 0 (.validated .ok) :: update ++
    .other .cancel :: .work 0 (.rendered (.ok { ok := true, path := some "clip.mp4" })) ::
    .work 0 (.saved (.ok "clip")) :: List.replicate (d.refusalLength + 1) (.work 0 .none)

theorem neverStranded_repaired :
    (NeverStranded .worker {} pendingJob (repairedJob .worker) ∧
        leftIn .worker (repairedJob .worker) = some .ready) ∧
      NeverStranded .inline {} pendingJob (cancelledJob .inline) ∧
        leftIn .inline (cancelledJob .inline) = some .cancelled := by
  have hrepaired : Runs.EveryStep workStep (OrderlyStep .worker)
      (startWorker .worker {} pendingJob) (repairedJob .worker) := by decide
  have hcancelled : Runs.EveryStep workStep (OrderlyStep .inline)
      (startWorker .inline {} pendingJob) (cancelledJob .inline) := by decide
  refine ⟨⟨?_, by decide⟩, ?_, by decide⟩
  · exact neverStranded_of_orderly .worker {} pendingJob _ rfl (Runs.everyStep_iff.mp hrepaired)
  · exact neverStranded_of_orderly .inline {} pendingJob _ rfl (Runs.everyStep_iff.mp hcancelled)

/-! ## Two stranded jobs -/

/-- In a worker process the renderer raises in the first attempt. -/
def crash : List WorkLabel :=
  List.replicate 7 (.work 0 .none) ++ .work 0 (.validated .ok) ::
    List.replicate 4 (.work 0 .none) ++ [.work 0 (.rendered (.error { cls := .osError }))]

/-- Inline, the repaired specification of the second attempt is not valid. -/
def invalidRepair : List WorkLabel :=
  List.replicate 4 (.work 0 .none) ++ .work 0 (.validated .ok) :: .work 0 .none ::
    .work 0 (.rendered (.ok { ok := false, category := some .renderError })) ::
    List.replicate 3 (.work 0 .none) ++ .work 0 (.repaired (.ok (some "[]"))) :: .work 0 .none ::
    .work 0 (.validated (.specError false)) :: List.replicate 3 (.work 0 .none)

theorem stranded_of_leftIn {d : Deployment} {l : List WorkLabel} {state : JobState}
    (h : leftIn d l = some state) (hactive : state ∈ JobState.active) :
    ¬ NeverStranded d {} pendingJob l := by
  intro hnever
  simp only [leftIn] at h
  cases hrun : Runs.run workStep (startWorker d {} pendingJob) l with
  | none =>
    rw [hrun] at h
    cases h
  | some t =>
    simp only [hrun, Option.bind_eq_bind, Option.bind_some] at h
    by_cases hfinished : ∀ p ∈ t.scripts, p.Finished
    · rw [if_pos hfinished] at h
      obtain ⟨rec, hrec, rfl⟩ := Option.map_eq_some_iff.mp h
      have hover := hnever t ⟨l, [], by simp, hrun⟩ hfinished rec hrec
      exact JobState.not_terminal_of_active hactive hover
    · rw [if_neg hfinished] at h
      cases h

/-- The first job is left rendering, the second validating. -/
theorem not_neverStranded :
    ¬ NeverStranded .worker {} pendingJob crash ∧
      ¬ NeverStranded .inline {} pendingJob invalidRepair := by
  have hcrash : leftIn .worker crash = some .rendering := by decide
  have hinvalid : leftIn .inline invalidRepair = some .validating := by decide
  exact ⟨stranded_of_leftIn hcrash (by decide), stranded_of_leftIn hinvalid (by decide)⟩

end Stranded

end LlmService
