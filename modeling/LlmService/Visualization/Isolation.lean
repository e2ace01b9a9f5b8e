import LlmService.Lib.Unwinding
import LlmService.Visualization.Endpoints

/-!
# Isolation of users

What a user is answered does not depend on the requests of others: over any
run of the service, a user gets the replies that it would get if nobody else
had asked for anything. The ids of the jobs that are submitted must not
collide between users.
-/

namespace LlmService

open Unwinding

/-! ## The jobs of one owner -/

theorem filter_kerase {α : Type} {β : α → Type} [DecidableEq α] (p : Sigma β → Bool) (a : α)
    {l : List (Sigma β)} (h : l.NodupKeys) : (l.kerase a).filter p = (l.filter p).kerase a := by
  induction l with
  | nil => rfl
  | cons entry l ih =>
    obtain ⟨key, value⟩ := entry
    have hrest := List.nodupKeys_cons.mp h
    by_cases hkey : a = key
    · subst hkey
      have herase : ∀ l : List (Sigma β), List.kerase a (⟨a, value⟩ :: l) = l :=
        fun l => List.kerase_cons_eq rfl
      have habsent : a ∉ (l.filter p).keys :=
        fun hmem => hrest.1 (List.Sublist.subset (List.Sublist.map _ List.filter_sublist) hmem)
      rw [herase]
      by_cases hp : p ⟨a, value⟩ = true
      · rw [List.filter_cons_of_pos hp, herase]
      · rw [List.filter_cons_of_neg hp, List.kerase_of_notMem_keys habsent]
    · have herase : ∀ l : List (Sigma β), List.kerase a (⟨key, value⟩ :: l) = ⟨key, value⟩ :: l.kerase a :=
        fun l => List.kerase_cons_ne hkey
      rw [herase]
      by_cases hp : p ⟨key, value⟩ = true
      · rw [List.filter_cons_of_pos hp, List.filter_cons_of_pos hp, herase, ih hrest.2]
      · rw [List.filter_cons_of_neg hp, List.filter_cons_of_neg hp, ih hrest.2]

namespace JobTable

variable {jobs : JobTable} {id owner : String} {job : OwnedJob}

/-- The jobs of the owner. -/
def ofOwner (jobs : JobTable) (owner : String) : JobTable :=
  ⟨jobs.entries.filter fun entry => entry.2.owner = owner, jobs.nodupKeys.sublist List.filter_sublist⟩

theorem entries_ofOwner (jobs : JobTable) (owner : String) :
    (jobs.ofOwner owner).entries = jobs.entries.filter fun entry => entry.2.owner = owner := rfl

theorem mem_lookup_ofOwner :
    job ∈ (jobs.ofOwner owner).lookup id ↔ job ∈ jobs.lookup id ∧ job.owner = owner := by
  rw [AList.mem_lookup_iff, AList.mem_lookup_iff, entries_ofOwner, List.mem_filter, decide_eq_true_eq]

theorem lookup_ofOwner (jobs : JobTable) (owner id : String) :
    (jobs.ofOwner owner).lookup id = (jobs.lookup id).filter fun job => job.owner = owner := by
  ext job
  rw [← Option.mem_def, mem_lookup_ofOwner, ← Option.mem_def, Option.mem_filter_iff, decide_eq_true_eq]

theorem activeOf_ofOwner (jobs : JobTable) (owner : String) :
    (jobs.ofOwner owner).activeOf owner = jobs.activeOf owner := by
  rw [activeOf, activeOf, entries_ofOwner, List.filter_filter]
  congr 2
  ext entry
  rw [← Bool.decide_and, decide_eq_decide]
  exact and_iff_left_of_imp And.left

theorem ofOwner_insert_own (hjob : job.owner = owner) :
    ofOwner (jobs.insert id job) owner = (jobs.ofOwner owner).insert id job := by
  apply AList.ext
  rw [entries_ofOwner, AList.entries_insert, AList.entries_insert, entries_ofOwner,
    List.filter_cons_of_pos (by simpa using hjob), filter_kerase _ _ jobs.nodupKeys]

/-- A job of someone else may take the place of one that is not the owner's. -/
theorem ofOwner_insert_other (hjob : job.owner ≠ owner)
    (hold : ∀ old, jobs.lookup id = some old → old.owner ≠ owner) :
    ofOwner (jobs.insert id job) owner = jobs.ofOwner owner := by
  have habsent : id ∉ (jobs.ofOwner owner).entries.keys := by
    rw [← AList.keys, ← AList.mem_keys, ← AList.lookup_eq_none, lookup_ofOwner, Option.filter_eq_none_iff]
    intro old hmem
    simpa using hold old hmem
  apply AList.ext
  rw [entries_ofOwner, AList.entries_insert, List.filter_cons_of_neg (by simpa using hjob),
    filter_kerase _ _ jobs.nodupKeys]
  exact List.kerase_of_notMem_keys habsent

theorem ofOwner_erase (jobs : JobTable) (owner id : String) :
    ofOwner (jobs.erase id) owner = (jobs.ofOwner owner).erase id := by
  apply AList.ext
  show (jobs.entries.kerase id).filter _ = _
  rw [filter_kerase _ _ jobs.nodupKeys]
  rfl

/-- A worker's update of a job is one of the owner's jobs, if it is the owner's. -/
theorem ofOwner_update (jobs : JobTable) (owner id : String) (new : JobState) (fields : Fields)
    (now : Seconds) :
    (jobs.update id new fields now).ofOwner owner = (jobs.ofOwner owner).update id new fields now := by
  simp only [update, lookup_ofOwner]
  cases hlookup : jobs.lookup id with
  | none => rfl
  | some job =>
    by_cases hjob : job.owner = owner
    · simp only [Option.filter_some, hjob, decide_true, if_true]
      cases job.record.onUpdate new fields now with
      | written record => exact ofOwner_insert_own rfl
      | kept => rfl
      | refused => rfl
    · simp only [Option.filter_some, hjob, decide_false, Bool.false_eq_true, if_false]
      cases job.record.onUpdate new fields now with
      | written record =>
        refine ofOwner_insert_other hjob fun old hold => ?_
        rw [hlookup] at hold
        obtain rfl := Option.some.inj hold
        exact hjob
      | kept => rfl
      | refused => rfl

/-- Every job is at an id that was issued to its owner. -/
def Keyed (issued : String → String → Prop) (jobs : JobTable) : Prop :=
  ∀ id job, jobs.lookup id = some job → issued id job.owner

variable {issued : String → String → Prop}

theorem Keyed.insert (h : Keyed issued jobs) (hjob : issued id job.owner) :
    Keyed issued (jobs.insert id job) := by
  intro id' job' hlookup
  by_cases hid : id' = id
  · subst hid
    rw [AList.lookup_insert] at hlookup
    obtain rfl := Option.some.inj hlookup
    exact hjob
  · rw [AList.lookup_insert_ne hid] at hlookup
    exact h id' job' hlookup

theorem Keyed.erase (h : Keyed issued jobs) (id : String) : Keyed issued (jobs.erase id) := by
  intro id' job' hlookup
  by_cases hid : id' = id
  · subst hid
    rw [AList.lookup_erase] at hlookup
    cases hlookup
  · rw [AList.lookup_erase_ne hid] at hlookup
    exact h id' job' hlookup

/-- An id that is issued to the owner holds a job of the owner, or none. -/
theorem Keyed.lookup_eq {jobs' : JobTable} (h : Keyed issued jobs) (h' : Keyed issued jobs')
    (hsame : jobs.ofOwner owner = jobs'.ofOwner owner)
    (hapart : ∀ id o o', issued id o → issued id o' → o = o') (hid : issued id owner) :
    jobs.lookup id = jobs'.lookup id := by
  have hown : ∀ jobs : JobTable, Keyed issued jobs →
      ∀ job, job ∈ jobs.lookup id ↔ job ∈ (jobs.ofOwner owner).lookup id := by
    intro jobs hkeyed job
    rw [mem_lookup_ofOwner]
    exact ⟨fun hjob => ⟨hjob, hapart id _ _ (hkeyed id job hjob) hid⟩, And.left⟩
  ext job
  rw [← Option.mem_def, ← Option.mem_def, hown jobs h, hown jobs' h', hsame]

theorem Keyed.update (h : Keyed issued jobs) (new : JobState) (fields : Fields) (now : Seconds) :
    Keyed issued (jobs.update id new fields now) := by
  rw [JobTable.update]
  cases hlookup : jobs.lookup id with
  | none => exact h
  | some job =>
    simp only
    cases job.record.onUpdate new fields now with
    | written record => exact h.insert (h id job hlookup)
    | kept => exact h
    | refused => exact h

end JobTable

/-! ## What an owner sees of a store -/

namespace MemoryJobs

open JobTable
open VisualizationService (repairKey owned StoreRules)

/-- The stores look the same to the owner. -/
structure Looks (issued : String → String → Prop) (owner : String) (s t : MemoryJobs) : Prop where
  jobs : s.jobs.ofOwner owner = t.jobs.ofOwner owner
  hits : ∀ key ∈ [owner, repairKey owner], s.hits key = t.hits key
  clock : s.clock = t.clock
  left : Keyed issued s.jobs
  right : Keyed issued t.jobs

section Looks

variable {issued : String → String → Prop} {owner : String} {s t : MemoryJobs}

/-- An id issued to the owner holds the same job in both stores. -/
theorem Looks.lookup_eq (h : Looks issued owner s t)
    (hapart : ∀ id o o', issued id o → issued id o' → o = o') {id : String} (hid : issued id owner) :
    s.jobs.lookup id = t.jobs.lookup id :=
  Keyed.lookup_eq h.left h.right h.jobs hapart hid

theorem Looks.update (h : Looks issued owner s t) (id : String) (new : JobState) (fields : Fields) :
    Looks issued owner { s with jobs := s.jobs.update id new fields s.clock }
      { t with jobs := t.jobs.update id new fields t.clock } := by
  refine ⟨?_, h.hits, h.clock, h.left.update new fields _, h.right.update new fields _⟩
  show JobTable.ofOwner (s.jobs.update id new fields s.clock) owner =
    JobTable.ofOwner (t.jobs.update id new fields t.clock) owner
  rw [ofOwner_update, ofOwner_update, h.jobs, h.clock]

end Looks

/-- `updateJob` writes what a worker's update does. -/
theorem run_updateJob (id : String) (new : JobState) (fields : Fields) (s : MemoryJobs) :
    ((updateJob id new fields).run s).2 = { s with jobs := s.jobs.update id new fields s.clock } := by
  rw [updateJob, run_get_bind, JobTable.update]
  cases hlookup : s.jobs.lookup id with
  | none => rfl
  | some job =>
    simp only
    cases job.record.onUpdate new fields s.clock with
    | written record => rfl
    | kept => rfl
    | refused => rfl

/-! ## The operations -/

section Runs

variable (s : MemoryJobs)

theorem run_owned (files : String → Option Text) (owner id : String) :
    (owned (apiStore files) owner id).run s =
      (if isJobId id then (s.jobs.ofOwner owner).lookup id else none, s) := by
  rw [owned]
  by_cases hid : isJobId id = true
  · rw [if_pos hid, if_pos hid, lookup_ofOwner]
    rfl
  · rw [if_neg hid, if_neg hid]
    rfl

/-- What is left of the hour, and whether there is room in it. -/
theorem run_hourlyCount (key : String) (limit : Nat) :
    (hourlyCount key limit).run s =
      let recent := (s.hits key).filter fun t => s.clock - t < 3600
      if limit ≤ recent.length then (false, { s with hits := Function.update s.hits key recent })
      else (true, { s with hits := Function.update s.hits key (recent ++ [s.clock]) }) := by
  rw [hourlyCount, run_get_bind]
  by_cases hfull : limit ≤ ((s.hits key).filter fun t => s.clock - t < 3600).length
  · simp only [if_pos hfull]
    rfl
  · simp only [if_neg hfull]
    rfl

theorem run_createIfAbsent (id : String) (job : OwnedJob) :
    (∃ existing, s.jobs.lookup id = some existing ∧ existing.record.state.Reusable ∧
      (createIfAbsent id job).run s = ((existing, false), s)) ∨
    ((∀ existing, s.jobs.lookup id = some existing → ¬ existing.record.state.Reusable) ∧
      (createIfAbsent id job).run s = ((job, true),
        { s with jobs := s.jobs.insert id job, claimed := s.claimed.filter (· ≠ id) })) := by
  rw [createIfAbsent, run_get_bind]
  cases hlookup : s.jobs.lookup id with
  | none =>
    right
    refine ⟨?_, rfl⟩
    intro existing h
    cases h
  | some existing =>
    by_cases hreusable : existing.record.state.Reusable
    · left
      refine ⟨existing, rfl, hreusable, ?_⟩
      simp only [if_pos hreusable]
      rfl
    · right
      refine ⟨?_, ?_⟩
      · intro other h
        exact Option.some.inj h ▸ hreusable
      · simp only [if_neg hreusable]
        rfl

end Runs

section Rules

variable {issued : String → String → Prop} {owner other : String}

/-- The owner's own operations are answered alike. -/
theorem storeRules_alike (hapart : ∀ id o o', issued id o → issued id o' → o = o')
    (files : String → Option Text) :
    StoreRules (apiStore files) (alike (Looks issued owner)) owner fun id => issued id owner where
  owned := by
    intro id s t h
    rw [run_owned, run_owned, h.jobs]
    refine ⟨rfl, ?_, h⟩
    intro job hjob
    by_cases hid : isJobId id = true
    · rw [if_pos hid] at hjob
      obtain ⟨hlookup, howner⟩ := mem_lookup_ofOwner.mp hjob
      exact howner ▸ h.right id job hlookup
    · rw [if_neg hid] at hjob
      cases hjob
  get := by
    intro id hid s t h
    exact ⟨h.lookup_eq hapart hid, trivial, h⟩
  activeCount := by
    intro s t h
    refine ⟨?_, trivial, h⟩
    show (s.jobs.activeOf owner).length = (t.jobs.activeOf owner).length
    rw [← activeOf_ofOwner s.jobs, ← activeOf_ofOwner t.jobs, h.jobs]
  hourlyCount := by
    intro key hkey limit s t h
    have hupdate : ∀ hits key', key' ∈ [owner, repairKey owner] →
        Function.update s.hits key hits key' = Function.update t.hits key hits key' := by
      intro hits key' hkey'
      by_cases heq : key' = key
      · rw [heq, Function.update_self, Function.update_self]
      · rw [Function.update_of_ne heq, Function.update_of_ne heq, h.hits key' hkey']
    show ((hourlyCount key limit).run s).1 = ((hourlyCount key limit).run t).1 ∧ True ∧
      Looks issued owner ((hourlyCount key limit).run s).2 ((hourlyCount key limit).run t).2
    rw [run_hourlyCount, run_hourlyCount, h.hits key hkey, h.clock]
    dsimp only
    split
    · exact ⟨rfl, trivial, h.jobs, hupdate _, rfl, h.left, h.right⟩
    · exact ⟨rfl, trivial, h.jobs, hupdate _, rfl, h.left, h.right⟩
  createIfAbsent := by
    intro id job hid hjob s t h
    have hlookup := h.lookup_eq hapart hid
    have hkeyed : issued id job.owner := hjob ▸ hid
    rcases run_createIfAbsent s id job with ⟨existing, hsome, hreusable, hs⟩ | ⟨hnone, hs⟩
    · rcases run_createIfAbsent t id job with ⟨existing', hsome', -, ht⟩ | ⟨hnone', -⟩
      · rw [← hlookup, hsome] at hsome'
        obtain rfl := Option.some.inj hsome'
        show ((createIfAbsent id job).run s).1 = ((createIfAbsent id job).run t).1 ∧ True ∧
          Looks issued owner ((createIfAbsent id job).run s).2 ((createIfAbsent id job).run t).2
        rw [hs, ht]
        exact ⟨rfl, trivial, h⟩
      · exact absurd hreusable (hnone' existing (hlookup ▸ hsome))
    · rcases run_createIfAbsent t id job with ⟨existing', hsome', hreusable', -⟩ | ⟨-, ht⟩
      · exact absurd hreusable' (hnone existing' (hlookup.trans hsome'))
      · show ((createIfAbsent id job).run s).1 = ((createIfAbsent id job).run t).1 ∧ True ∧
          Looks issued owner ((createIfAbsent id job).run s).2 ((createIfAbsent id job).run t).2
        rw [hs, ht]
        refine ⟨rfl, trivial, ?_, h.hits, h.clock, h.left.insert hkeyed, h.right.insert hkeyed⟩
        show JobTable.ofOwner (s.jobs.insert id job) owner = JobTable.ofOwner (t.jobs.insert id job) owner
        rw [ofOwner_insert_own hjob, ofOwner_insert_own hjob, h.jobs]
  start := by
    intro id _ s t h
    exact ⟨rfl, trivial, h.jobs, h.hits, h.clock, h.left, h.right⟩
  update := by
    intro id new fields hid s t h
    show ((updateJob id new fields).run s).1 = ((updateJob id new fields).run t).1 ∧ True ∧
      Looks issued owner ((updateJob id new fields).run s).2 ((updateJob id new fields).run t).2
    rw [run_updateJob, run_updateJob]
    refine ⟨?_, trivial, h.update id new fields⟩
    rw [updateJob, run_get_bind, run_get_bind, h.lookup_eq hapart hid, h.clock]
    cases t.jobs.lookup id with
    | none => rfl
    | some job =>
      simp only
      cases job.record.onUpdate new fields t.clock with
      | written record => rfl
      | kept => rfl
      | refused => rfl
  file := by
    intro path s t h
    exact ⟨rfl, trivial, h⟩

/-- What others do leaves the owner's view as it is. -/
theorem storeRules_keeps (hapart : ∀ id o o', issued id o → issued id o' → o = o') (hother : other ≠ owner)
    (hkeys : ∀ key ∈ [other, repairKey other], key ∉ [owner, repairKey owner])
    (files : String → Option Text) (t : MemoryJobs) :
    StoreRules (apiStore files) (keeps fun s => Looks issued owner s t) other fun id => issued id other where
  owned := by
    intro id s h
    rw [run_owned]
    refine ⟨?_, h⟩
    intro job hjob
    by_cases hid : isJobId id = true
    · rw [if_pos hid] at hjob
      obtain ⟨hlookup, howner⟩ := mem_lookup_ofOwner.mp hjob
      exact howner ▸ h.left id job hlookup
    · rw [if_neg hid] at hjob
      cases hjob
  get := fun id _ s h => ⟨trivial, h⟩
  activeCount := fun s h => ⟨trivial, h⟩
  hourlyCount := by
    intro key hkey limit s h
    have hupdate : ∀ hits key', key' ∈ [owner, repairKey owner] →
        Function.update s.hits key hits key' = t.hits key' := by
      intro hits key' hkey'
      have hne : key' ≠ key := fun heq => hkeys key hkey (heq ▸ hkey')
      rw [Function.update_of_ne hne, h.hits key' hkey']
    show True ∧ Looks issued owner ((hourlyCount key limit).run s).2 t
    rw [run_hourlyCount]
    dsimp only
    split
    · exact ⟨trivial, h.jobs, hupdate _, h.clock, h.left, h.right⟩
    · exact ⟨trivial, h.jobs, hupdate _, h.clock, h.left, h.right⟩
  createIfAbsent := by
    intro id job hid hjob s h
    show True ∧ Looks issued owner ((createIfAbsent id job).run s).2 t
    rcases run_createIfAbsent s id job with ⟨existing, -, -, hs⟩ | ⟨-, hs⟩
    · rw [hs]
      exact ⟨trivial, h⟩
    · rw [hs]
      refine ⟨trivial, ?_, h.hits, h.clock, h.left.insert (hjob ▸ hid), h.right⟩
      show JobTable.ofOwner (s.jobs.insert id job) owner = t.jobs.ofOwner owner
      rw [ofOwner_insert_other (hjob ▸ hother), h.jobs]
      intro old hold howner
      exact hother (hapart id other owner hid (howner ▸ h.left id old hold))
  start := fun id _ s h => ⟨trivial, h.jobs, h.hits, h.clock, h.left, h.right⟩
  update := by
    intro id new fields hid s h
    show True ∧ Looks issued owner ((updateJob id new fields).run s).2 t
    rw [run_updateJob]
    refine ⟨trivial, ?_, h.hits, h.clock, h.left.update new fields _, h.right⟩
    show JobTable.ofOwner (s.jobs.update id new fields s.clock) owner = t.jobs.ofOwner owner
    have habsent : (s.jobs.ofOwner owner).lookup id = none := by
      rw [lookup_ofOwner, Option.filter_eq_none_iff]
      intro old hold
      have hne : old.owner ≠ owner := by
        intro howner
        exact hother (hapart id other owner hid (howner ▸ h.left id old hold))
      simpa using hne
    rw [ofOwner_update, JobTable.update, habsent]
    exact h.jobs
  file := fun path s h => ⟨trivial, h⟩

end Rules

end MemoryJobs

/-! ## Users -/

theorem mem_hexText {c : Char} (width n : Nat) (h : c ∈ hexText width n) : ∃ d < 16, c = Nat.digitChar d := by
  induction width generalizing n with
  | zero => cases h
  | succ width ih =>
    rw [hexText, List.mem_append, List.mem_singleton] at h
    rcases h with h | rfl
    · exact ih (n / 16) h
    · exact ⟨n % 16, Nat.mod_lt n (by omega), rfl⟩

theorem length_hexText (width n : Nat) : (hexText width n).length = width := by
  induction width generalizing n with
  | zero => rfl
  | succ width ih =>
    rw [hexText, List.length_append, ih]
    rfl

/-- The keys of users and those of their repairs are different. -/
theorem uuidText_ne_repairKey (n : Nat) (owner : String) :
    uuidText n ≠ VisualizationService.repairKey owner := by
  intro heq
  have hhead := congrArg (fun text : String => text.toList.head?) heq
  have hlen := length_hexText 32 n
  cases hhex : hexText 32 n with
  | nil =>
    rw [hhex] at hlen
    cases hlen
  | cons c rest =>
    obtain ⟨d, hd, rfl⟩ := mem_hexText 32 n (hhex ▸ List.mem_cons_self)
    have hr : some (Nat.digitChar d) = some 'r' := by
      simp only [uuidText, hhex, VisualizationService.repairKey, String.toList_ofList,
        String.toList_append] at hhead
      exact hhead
    have hall : ∀ d < 16, Nat.digitChar d ≠ 'r' := by decide
    exact hall d hd (Option.some.inj hr)

theorem exists_of_userOf {header : Option String} {owner : String} (h : userOf header = some owner) :
    ∃ n, owner = uuidText n := by
  obtain ⟨n, -, rfl⟩ := Option.map_eq_some_iff.mp h
  exact ⟨n, rfl⟩

/-- Two users count under different keys. -/
theorem keys_apart {header header' : Option String} {owner other : String}
    (howner : userOf header = some owner) (hother : userOf header' = some other) (hne : other ≠ owner) :
    ∀ key ∈ [other, VisualizationService.repairKey other],
      key ∉ [owner, VisualizationService.repairKey owner] := by
  obtain ⟨n, rfl⟩ := exists_of_userOf howner
  obtain ⟨m, rfl⟩ := exists_of_userOf hother
  intro key hkey hmem
  simp only [List.mem_cons, List.not_mem_nil, or_false] at hkey hmem
  rcases hkey with rfl | rfl
  · rcases hmem with heq | heq
    · exact hne heq
    · exact uuidText_ne_repairKey m _ heq
  · rcases hmem with heq | heq
    · exact uuidText_ne_repairKey n _ heq.symm
    · exact hne (String.append_right_inj "repair:" |>.mp heq)

/-! ## Runs -/

namespace VisualizationState

open MemoryJobs (Looks apiStore storeRules_alike storeRules_keeps)

/-- The label is a request of the owner, or no request. -/
def Concerns (owner : String) : Label → Prop
  | .request header _ => userOf header = some owner
  | _ => True

instance decidableConcerns (owner : String) : DecidablePred (Concerns owner) := fun label =>
  match label with
  | .request header _ => inferInstanceAs (Decidable (userOf header = some owner))
  | .update _ _ _ | .claim _ | .file _ _ | .tick _ => isTrue trivial

/-- A job id that the run gives to the owner. -/
def Issued (svc : VisualizationService) (l : List Label) (id owner : String) : Prop :=
  ∃ header body spec, Label.request header (.createJob body) ∈ l ∧ userOf header = some owner ∧
    svc.validateSpec body = .ok spec ∧ id = svc.jobIdFor owner spec

/-- The service looks the same to the owner. -/
structure LooksTo (issued : String → String → Prop) (owner : String) (s t : VisualizationState) :
    Prop where
  store : Looks issued owner s.store t.store
  files : s.files = t.files
  replies : s.repliesTo owner = t.repliesTo owner

section Unwinding

variable {svc : VisualizationService} {l : List Label} {owner : String}

theorem repliesTo_concat (s : VisualizationState) (who : Option String) (reply : ApiReply) :
    repliesTo { s with replies := s.replies ++ [(who, reply)] } owner =
      if who = some owner then s.repliesTo owner ++ [reply] else s.repliesTo owner := by
  rw [repliesTo, List.filter_append, List.map_append]
  by_cases hwho : who = some owner
  · rw [if_pos hwho, List.filter_cons_of_pos (by simpa using hwho)]
    rfl
  · rw [if_neg hwho, List.filter_cons_of_neg (by simpa using hwho)]
    exact List.append_nil _

/-- A request of a user that is known. -/
theorem step_request {header : Option String} {user : String} (hheader : userOf header = some user)
    (request : ApiRequest) (s : VisualizationState) :
    step svc s (.request header request) =
      let after := (svc.handle (apiStore s.files) user request).run s.store
      some { s with store := after.2, replies := s.replies ++ [(some user, after.1)] } := by
  simp only [step, hheader]
  rfl

theorem issued_of_mem {header : Option String} {user body spec : String}
    (hmem : Label.request header (.createJob body) ∈ l) (hheader : userOf header = some user)
    (hspec : svc.validateSpec body = .ok spec) : Issued svc l (svc.jobIdFor user spec) user :=
  ⟨header, body, spec, hmem, hheader, hspec, rfl⟩

/-- The owner sees nothing of what others do. -/
theorem unwinds (howner : ∃ header, userOf header = some owner)
    (hapart : ∀ id o o', Issued svc l id o → Issued svc l id o' → o = o') :
    Unwinds (step svc) (· ∈ l) (Concerns owner) (LooksTo (Issued svc l) owner) where
  follows := by
    intro s t a s' h hmem hconcerns hstep
    cases a with
    | request header request =>
      have hheader : userOf header = some owner := hconcerns
      rw [step_request hheader] at hstep
      obtain rfl := Option.some.inj hstep
      obtain ⟨hreply, -, hlooks⟩ := (storeRules_alike hapart s.files).handle request
        (fun body spec hrequest hspec => issued_of_mem (hrequest ▸ hmem) hheader hspec) _ _ h.store
      refine ⟨_, step_request hheader request t, ?_, h.files, ?_⟩
      · rw [← h.files]
        exact hlooks
      · show repliesTo { s with replies := _ } owner = repliesTo { t with replies := _ } owner
        rw [repliesTo_concat, repliesTo_concat, if_pos rfl, if_pos rfl, h.replies, ← h.files, hreply]
    | update id new fields =>
      obtain rfl := Option.some.inj hstep
      exact ⟨_, rfl, h.store.update id new fields, h.files, h.replies⟩
    | claim id =>
      obtain rfl := Option.some.inj hstep
      exact ⟨_, rfl, ⟨h.store.jobs, h.store.hits, h.store.clock, h.store.left, h.store.right⟩, h.files,
        h.replies⟩
    | file path content =>
      obtain rfl := Option.some.inj hstep
      exact ⟨_, rfl, h.store, by rw [h.files], h.replies⟩
    | tick now =>
      obtain rfl := Option.some.inj hstep
      exact ⟨_, rfl, ⟨h.store.jobs, h.store.hits, rfl, h.store.left, h.store.right⟩, h.files, h.replies⟩
  hides := by
    intro s t a s' h hmem hconcerns hstep
    cases a with
    | request header request =>
      have hheader : userOf header ≠ some owner := hconcerns
      cases huser : userOf header with
      | none =>
        simp only [step, huser] at hstep
        obtain rfl := Option.some.inj hstep
        refine ⟨h.store, h.files, ?_⟩
        rw [repliesTo_concat, if_neg (Option.some_ne_none owner).symm, h.replies]
      | some other =>
        have hother : other ≠ owner := fun heq => hheader (heq ▸ huser)
        obtain ⟨ownerHeader, howner⟩ := howner
        rw [step_request huser] at hstep
        obtain rfl := Option.some.inj hstep
        obtain ⟨-, hlooks⟩ := (storeRules_keeps hapart hother (keys_apart howner huser hother) s.files
          t.store).handle request
          (fun body spec hrequest hspec => issued_of_mem (hrequest ▸ hmem) huser hspec) _ h.store
        refine ⟨hlooks, h.files, ?_⟩
        show repliesTo { s with replies := _ } owner = _
        rw [repliesTo_concat, if_neg (fun heq => hother (Option.some.inj heq)), h.replies]
    | update _ _ _ | claim _ | file _ _ | tick _ => exact absurd trivial hconcerns

/-- What a user is answered does not depend on the requests of others. -/
theorem isolated (svc : VisualizationService) {l : List Label} {header : Option String} {owner : String}
    (howner : userOf header = some owner)
    (hapart : ∀ id o o', Issued svc l id o → Issued svc l id o' → o = o') {s : VisualizationState}
    (hrun : Runs.run (step svc) {} l = some s) :
    ∃ t, Runs.run (step svc) {} (l.filter (Concerns owner)) = some t ∧
      t.repliesTo owner = s.repliesTo owner := by
  have hkeyed : JobTable.Keyed (Issued svc l) ∅ := by
    intro id job hlookup
    cases hlookup
  have hstart : LooksTo (Issued svc l) owner {} {} :=
    ⟨⟨rfl, fun _ _ => rfl, rfl, hkeyed, hkeyed⟩, rfl, rfl⟩
  obtain ⟨t, ht, hlooks⟩ := run_purged (unwinds ⟨header, howner⟩ hapart) hstart (fun _ ha => ha) hrun
  exact ⟨t, ht, hlooks.replies.symm⟩

end Unwinding

/-! ## Two users -/

theorem exists_step (svc : VisualizationService) (s : VisualizationState) (a : Label) :
    ∃ t, step svc s a = some t := by
  cases a with
  | request header request =>
    cases huser : userOf header with
    | none =>
      simp only [step, huser]
      exact ⟨_, rfl⟩
    | some user => exact ⟨_, step_request huser request s⟩
  | update id new fields => exact ⟨_, rfl⟩
  | claim id => exact ⟨_, rfl⟩
  | file path content => exact ⟨_, rfl⟩
  | tick now => exact ⟨_, rfl⟩

def alice : String := "00000000-0000-0000-0000-00000000000a"

def bob : String := "00000000-0000-0000-0000-00000000000b"

/-- A service that accepts one specification; its ids hold those of the owners. -/
def oneSpec : VisualizationService where
  mediaRoot := "/media"
  validators := Repair.asciiValidators
  validateSpec _ := .ok ""
  jobIdFor owner _ := "mj_" ++ String.ofList (owner.toList.filter (· ≠ '-'))

/-- Both submit the same animation, and one asks for the other's. -/
def sameAnimation : List Label :=
  [.request (some alice) (.createJob "\x7b\x7d"), .request (some bob) (.createJob "\x7b\x7d"),
    .request (some bob) (.getJob (oneSpec.jobIdFor alice ""))]

theorem apart_sameAnimation (id o o' : String) (h : Issued oneSpec sameAnimation id o)
    (h' : Issued oneSpec sameAnimation id o') : o = o' := by
  have halice : userOf (some alice) = some alice := by decide
  have hbob : userOf (some bob) = some bob := by decide
  have hids : ∀ spec spec', oneSpec.jobIdFor alice spec ≠ oneSpec.jobIdFor bob spec' := by
    intro spec spec'
    show oneSpec.jobIdFor alice "" ≠ oneSpec.jobIdFor bob ""
    decide
  have howner : ∀ o, Issued oneSpec sameAnimation id o →
      (o = alice ∨ o = bob) ∧ ∃ spec, id = oneSpec.jobIdFor o spec := by
    rintro o ⟨header, body, spec, hmem, huser, -, hid⟩
    refine ⟨?_, spec, hid⟩
    have hheader : header = some alice ∨ header = some bob := by
      simp only [sameAnimation, List.mem_cons, List.not_mem_nil, or_false, Label.request.injEq] at hmem
      rcases hmem with h | h | h
      · exact .inl h.1
      · exact .inr h.1
      · exact .inr h.1
    rcases hheader with rfl | rfl
    · rw [halice] at huser
      exact .inl (Option.some.inj huser).symm
    · rw [hbob] at huser
      exact .inr (Option.some.inj huser).symm
  obtain ⟨ho, spec, hid⟩ := howner o h
  obtain ⟨ho', spec', hid'⟩ := howner o' h'
  rcases ho with rfl | rfl
  · rcases ho' with rfl | rfl
    · rfl
    · exact absurd (hid.symm.trans hid') (hids _ _)
  · rcases ho' with rfl | rfl
    · exact absurd (hid'.symm.trans hid) (hids _ _)
    · rfl

theorem isolated_sameAnimation :
    ∃ s t, Runs.run (step oneSpec) {} sameAnimation = some s ∧
      Runs.run (step oneSpec) {} (sameAnimation.filter (Concerns bob)) = some t ∧
        t.repliesTo bob = s.repliesTo bob := by
  have hbob : userOf (some bob) = some bob := by decide
  obtain ⟨s, hs⟩ := Runs.exists_run (exists_step oneSpec) {} sameAnimation
  obtain ⟨t, ht, hreplies⟩ := isolated oneSpec hbob apart_sameAnimation hs
  exact ⟨s, t, hs, ht, hreplies⟩

end VisualizationState

end LlmService
