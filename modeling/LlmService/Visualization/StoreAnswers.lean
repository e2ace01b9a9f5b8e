import LlmService.Lib.Limiters
import LlmService.Visualization.HourlyBudget

/-!
# Where the two stores answer alike

A condition on the calls and the readings of the clock under which every call
of the two stores is answered alike. For `hourly_count` the calls of one owner
are a history of the two limiters: both stores keep what these keep.
-/

namespace LlmService

namespace TwoStores

open Limiters

/-! ## Calls within an hour -/

/-- A call of `hourly_count` for the owner: when it comes, and its limit. -/
def hourCall (owner : String) (a : TimedCall) : Option (Seconds × Nat) :=
  match a.call with
  | .hourlyCount o limit => if o = owner then some (a.now, limit.toNat) else none
  | _ => none

def hourCalls (owner : String) (past : List TimedCall) : List (Seconds × Nat) :=
  past.filterMap (hourCall owner)

/-- The clock has not been set back, up to this reading. -/
def InOrder (past : List TimedCall) (now : Seconds) : Prop :=
  (past.map TimedCall.now ++ [now]).Pairwise (· ≤ ·)

/-- Nobody is let through, or fewer calls than the limit came in the last hour, or those
that came began behind an hour without one, and had no lower limits. -/
def HourFits (past : List TimedCall) (a : TimedCall) : Prop :=
  ∀ owner limit, a.call = .hourlyCount owner limit →
    limit ≤ 0 ∨ InOrder past a.now ∧ FewOrQuiet hour (hourCalls owner past) a.now limit.toNat

instance (past : List TimedCall) (now : Seconds) : Decidable (InOrder past now) :=
  inferInstanceAs (Decidable (List.Pairwise _ _))

instance (past : List TimedCall) : ∀ a, Decidable (HourFits past a)
  | ⟨.hourlyCount owner limit, now, _⟩ => decidable_of_iff
      (limit ≤ 0 ∨ InOrder past now ∧ FewOrQuiet hour (hourCalls owner past) now limit.toNat)
      ⟨fun h _ _ heq => by cases heq; exact h, fun h => h owner limit rfl⟩
  | ⟨.createIfAbsent _ _, _, _⟩ | ⟨.get _, _, _⟩ | ⟨.update _ _ _, _, _⟩ | ⟨.activeCount _, _, _⟩
  | ⟨.claim _, _, _⟩ => isTrue fun _ _ heq => nomatch heq

variable {past : List TimedCall} {a : TimedCall} {now t : Seconds} {owner : String} {limit : Int}
  {s s' : MemoryJobs × TimedRedis}

theorem hourCall_of_hourlyCount (ha : a.call = .hourlyCount owner limit) :
    hourCall owner a = some (a.now, limit.toNat) := by
  rw [hourCall, ha]
  exact if_pos rfl

theorem hourCall_of_ne (ha : ∀ limit, a.call ≠ .hourlyCount owner limit) : hourCall owner a = none := by
  rw [hourCall]
  split
  · rename_i o limit hcall
    refine if_neg fun howner => ?_
    subst howner
    exact ha limit hcall
  · rfl

theorem hourCall_now {x : Seconds × Nat} (h : hourCall owner a = some x) : x.1 = a.now := by
  rw [hourCall] at h
  split at h
  · split at h
    · rw [← Option.some.inj h]
    · cases h
  · cases h

theorem hourCalls_concat (a : TimedCall) :
    hourCalls owner (past ++ [a]) = hourCalls owner past ++ (hourCall owner a).toList := by
  rw [hourCalls, List.filterMap_append, List.filterMap_cons]
  cases hourCall owner a <;> rfl

theorem times_hourCalls_sublist (owner : String) (past : List TimedCall) :
    (times (hourCalls owner past)).Sublist (past.map TimedCall.now) := by
  induction past with
  | nil => exact List.Sublist.refl _
  | cons a past ih =>
    rw [hourCalls, List.filterMap_cons, List.map_cons]
    cases hcall : hourCall owner a with
    | none => exact ih.cons _
    | some x =>
      rw [← hourCall_now hcall]
      exact ih.cons_cons _

theorem InOrder.of_concat (h : InOrder (past ++ [a]) t) :
    InOrder past a.now ∧ InOrder past t ∧ a.now ≤ t := by
  rw [InOrder, List.map_append, List.map_cons, List.map_nil] at h
  have hparts := List.pairwise_append.mp h
  refine ⟨hparts.1, List.pairwise_append.mpr ⟨?_, List.pairwise_singleton _ _, ?_⟩, ?_⟩
  · exact (List.pairwise_append.mp hparts.1).1
  · exact fun x hx => hparts.2.2 x (List.mem_append_left _ hx)
  · exact hparts.2.2 _ (List.mem_append_right _ (List.mem_singleton_self _)) t (List.mem_singleton_self t)

/-- The calls of one owner come in the order of the clock. -/
theorem InOrder.upTo (h : InOrder past now) (owner : String) : UpTo (hourCalls owner past) now :=
  List.Pairwise.sublist ((times_hourCalls_sublist owner past).append_right _) h

/-! ## What the stores keep -/

/-- The counter of the owner in Redis. -/
def counterOf (r : TimedRedis) (owner : String) : Counter Seconds where
  count := r.redis.hours owner
  ends := r.hourEnds owner

/-- Both stores keep what the two limiters keep of the calls so far. -/
structure Counted (past : List TimedCall) (s : MemoryJobs × TimedRedis) : Prop where
  hits : ∀ owner, s.1.hits owner = Limiters.hits hour (hourCalls owner past)
  read : ∀ owner t, InOrder past t →
    (counterOf s.2 owner).read t = (counter hour (hourCalls owner past)).read t

theorem counterOf_expireHours (r : TimedRedis) (now : Seconds) (owner : String) :
    counterOf (r.expireHours now) owner = (counterOf r owner).read now := by
  rw [Counter.read]
  by_cases hexpired : ∃ e ∈ r.hourEnds owner, e ≤ now
  · have hcounter : ∃ e ∈ (counterOf r owner).ends, e ≤ now := hexpired
    rw [if_pos hcounter]
    show Counter.mk (if ∃ e ∈ r.hourEnds owner, e ≤ now then 0 else _)
      (if ∃ e ∈ r.hourEnds owner, e ≤ now then none else _) = _
    rw [if_pos hexpired, if_pos hexpired]
  · have hcounter : ¬ ∃ e ∈ (counterOf r owner).ends, e ≤ now := hexpired
    rw [if_neg hcounter]
    show Counter.mk (if ∃ e ∈ r.hourEnds owner, e ≤ now then 0 else _)
      (if ∃ e ∈ r.hourEnds owner, e ≤ now then none else _) = _
    rw [if_neg hexpired, if_neg hexpired]
    rfl

/-- Where a call fits, it is on one side of both limits. -/
theorem Counted.sameSide (h : Counted past s) (hfits : HourFits past a) : SameSide s a := by
  intro owner limit ha
  rcases hfits owner limit ha with hnone | ⟨horder, hfew⟩
  · rw [Int.toNat_of_nonpos hnone]
    exact iff_of_false (Nat.not_lt_zero _) (Nat.not_lt_zero _)
  · have hcount : (s.2.expireHours a.now).redis.hours owner =
        ((counter hour (hourCalls owner past)).read a.now).count := by
      rw [← h.read owner a.now horder, ← counterOf_expireHours]
      rfl
    rw [hcount, h.hits owner]
    exact hfew.sides (horder.upTo owner)

/-! ## One more call -/

/-- Other calls leave the hourly counters as they are at this reading. -/
theorem hours_answer {order : TimedRedis.SetOrder} {call : StoreCall}
    (hother : ∀ owner limit, call ≠ .hourlyCount owner limit) {r : TimedRedis}
    {x : StoreAnswer × TimedRedis} (h : r.answer order now call = some x) :
    x.2.redis.hours = (r.expireHours now).redis.hours ∧ x.2.hourEnds = (r.expireHours now).hourEnds := by
  cases call with
  | hourlyCount owner limit => exact absurd rfl (hother owner limit)
  | get id =>
    obtain rfl := Option.some.inj h
    exact ⟨rfl, rfl⟩
  | claim id =>
    obtain rfl := Option.some.inj h
    show ((r.expireHours now).claim id).2.redis.hours = _ ∧ ((r.expireHours now).claim id).2.hourEnds = _
    rw [TimedRedis.claim]
    split
    · exact ⟨rfl, rfl⟩
    · exact ⟨rfl, rfl⟩
  | update id new fields =>
    have hupdate : ((r.expireHours now).update id new fields now).map
        (fun x => (StoreAnswer.updated x.1, x.2)) = some x := h
    rw [redis_update] at hupdate
    obtain rfl := Option.some.inj hupdate
    exact ⟨rfl, rfl⟩
  | activeCount owner =>
    have hactive : TimedRedis.returning .active
        ((RedisJobs.activeCount owner).alone (TimedRedis.exec order now) (r.expireHours now)) = some x := h
    rw [alone_activeCount] at hactive
    obtain rfl := Option.some.inj hactive
    exact ⟨rfl, rfl⟩
  | createIfAbsent id job =>
    have hcreate : TimedRedis.returning (fun created => .created created.1 created.2)
        ((RedisJobs.createIfAbsent id job).alone (TimedRedis.exec order now) (r.expireHours now)) =
          some x := h
    rw [alone_createIfAbsent] at hcreate
    cases hlookup : (r.expireHours now).redis.jobs.lookup id with
    | none =>
      rw [hlookup] at hcreate
      obtain rfl := Option.some.inj hcreate
      exact ⟨rfl, rfl⟩
    | some existing =>
      rw [hlookup] at hcreate
      dsimp only at hcreate
      by_cases hreusable : existing.record.state.Reusable
      · rw [if_pos hreusable] at hcreate
        obtain rfl := Option.some.inj hcreate
        exact ⟨rfl, rfl⟩
      · rw [if_neg hreusable] at hcreate
        obtain rfl := Option.some.inj hcreate
        exact ⟨rfl, rfl⟩

/-- A call of `hourly_count` is one more of its owner's counter in Redis. -/
theorem counterOf_hourlyCount {order : TimedRedis.SetOrder} {r : TimedRedis} {x : StoreAnswer × TimedRedis}
    (h : r.answer order now (.hourlyCount owner limit) = some x) (o : String) :
    counterOf x.2 o =
      if o = owner then (counterOf r o).tick hour now else (counterOf r o).read now := by
  have hcount : TimedRedis.returning .within ((RedisJobs.hourlyCount owner limit.toNat).alone
      (TimedRedis.exec order now) (r.expireHours now)) = some x := h
  rw [alone_hourlyCount] at hcount
  obtain rfl := Option.some.inj hcount
  by_cases howner : o = owner
  · subst howner
    rw [if_pos rfl, Counter.tick, ← counterOf_expireHours, counterOf]
    dsimp only
    rw [Function.update_self]
    by_cases hfirst : (r.expireHours now).redis.hours o = 0
    · rw [if_pos (congrArg Nat.succ hfirst), Function.update_self]
      exact congrArg (Counter.mk _) (if_pos hfirst).symm
    · rw [if_neg fun h => hfirst (Nat.succ.inj h)]
      exact congrArg (Counter.mk _) (if_neg hfirst).symm
  · rw [if_neg howner, ← counterOf_expireHours, counterOf]
    dsimp only
    rw [Function.update_of_ne howner]
    split
    · rw [Function.update_of_ne howner]
      rfl
    · rfl

theorem hits_hourlyCount (m : MemoryJobs) (o : String) :
    ((MemoryJobs.answer now (.hourlyCount owner limit)).run m).2.hits o =
      if o = owner then slide hour (m.hits o) (now, limit.toNat) else m.hits o := by
  show ((MemoryJobs.hourlyCount owner limit.toNat).run { m with clock := now }).2.hits o = _
  rw [hourlyCount_run]
  dsimp only
  by_cases howner : o = owner
  · subst howner
    rw [if_pos rfl, slide]
    split
    · rename_i hfull
      exact (Function.update_self ..).trans (if_pos hfull).symm
    · rename_i hfull
      exact (Function.update_self ..).trans (if_neg hfull).symm
  · rw [if_neg howner]
    split
    · exact Function.update_of_ne howner ..
    · exact Function.update_of_ne howner ..

theorem Counted.step (h : Counted past s) (hstep : step s a = some s') : Counted (past ++ [a]) s' := by
  obtain ⟨call, now, order⟩ := a
  rw [TwoStores.step, Option.map_eq_some_iff] at hstep
  obtain ⟨x, hx, rfl⟩ := hstep
  by_cases hcall : ∃ owner limit, call = .hourlyCount owner limit
  · obtain ⟨owner, limit, rfl⟩ := hcall
    refine ⟨?_, ?_⟩
    · intro o
      show ((MemoryJobs.answer now (.hourlyCount owner limit)).run s.1).2.hits o = _
      rw [hits_hourlyCount, hourCalls_concat, h.hits o]
      by_cases howner : o = owner
      · subst howner
        rw [if_pos rfl, hourCall_of_hourlyCount rfl]
        exact hits_concat.symm
      · rw [if_neg howner, hourCall_of_ne fun _ heq => howner (StoreCall.hourlyCount.inj heq).1.symm]
        exact congrArg _ (List.append_nil _).symm
    · intro o t ht
      obtain ⟨hnow, hpast, hle⟩ := ht.of_concat
      show (counterOf x.2 o).read t = _
      rw [counterOf_hourlyCount hx, hourCalls_concat]
      by_cases howner : o = owner
      · subst howner
        rw [if_pos rfl, hourCall_of_hourlyCount rfl]
        show _ = (counter hour (hourCalls o past ++ [(now, limit.toNat)])).read t
        rw [counter_concat, Counter.tick_of_read (h.read o now hnow)]
      · rw [if_neg howner, hourCall_of_ne fun _ heq => howner (StoreCall.hourlyCount.inj heq).1.symm,
          Counter.read_read _ hle, h.read o t hpast]
        exact congrArg (fun calls => (counter hour calls).read t) (List.append_nil _).symm
  -- another call lets counters expire, and so does a later reading of them
  · have hother : ∀ owner limit, call ≠ .hourlyCount owner limit :=
      fun owner limit heq => hcall ⟨owner, limit, heq⟩
    have hcalls : ∀ o, hourCalls o (past ++ [⟨call, now, order⟩]) = hourCalls o past := by
      intro o
      rw [hourCalls_concat, hourCall_of_ne (hother o)]
      exact List.append_nil _
    refine ⟨?_, ?_⟩
    · intro o
      show ((MemoryJobs.answer now call).run s.1).2.hits o = _
      rw [(MemoryBudget.hits_answer hother s.1).1, hcalls]
      exact h.hits o
    · intro o t ht
      obtain ⟨-, hpast, hle⟩ := ht.of_concat
      obtain ⟨hhours, hends⟩ := hours_answer hother hx
      have hcounter : counterOf x.2 o = (counterOf s.2 o).read now := by
        rw [← counterOf_expireHours, counterOf, hhours, hends]
        rfl
      show (counterOf x.2 o).read t = _
      rw [hcounter, Counter.read_read _ hle, hcalls]
      exact h.read o t hpast

theorem counted_empty : Counted [] ({}, {}) where
  hits _ := rfl
  read _ _ _ := rfl

/-! ## All calls -/

variable {l before after : List TimedCall}

/-- The condition on a call, where the calls are split at it. -/
theorem hourFits_of_split (hhours : ∀ i : Fin l.length, HourFits (l.take i) (l.get i))
    (hl : l = before ++ a :: after) : HourFits before a := by
  have hlt : before.length < l.length := by
    rw [hl, List.length_append, List.length_cons]
    omega
  have hcall := hhours ⟨before.length, hlt⟩
  subst hl
  simpa using hcall

/-- Where all calls fit, the stores are alike behind each of them. -/
theorem alike_of_prefix (hfits : ∀ u a t, Runs.StepAt TwoStores.step ({}, {}) l u a t → Fits u a)
    (hhours : ∀ i : Fin l.length, HourFits (l.take i) (l.get i)) (hl : l = before ++ after) :
    ∃ u, Runs.run TwoStores.step ({}, {}) before = some u ∧ Alike u ∧ Counted before u := by
  induction before using List.reverseRecOn generalizing after with
  | nil => exact ⟨_, rfl, alike_empty, counted_empty⟩
  | append_singleton before a ih =>
    have hsplit : l = before ++ a :: after := by rw [hl, List.append_assoc, List.singleton_append]
    obtain ⟨u, hu, halike, hcounted⟩ := ih hsplit
    -- the next call fits by the calls before it, which the stores have counted
    obtain ⟨t, ht⟩ := exists_step u a
    have hside : SameSide u a := hcounted.sameSide (hourFits_of_split hhours hsplit)
    refine ⟨t, (Runs.run_snoc_iff _).mpr ⟨u, hu, ht⟩, ?_, hcounted.step ht⟩
    exact halike.step_of_fits (hfits u a t ⟨before, after, hsplit, hu, ht⟩) hside ht

end TwoStores

open TwoStores Runs

/-- Calls from empty stores are all answered, and where each of them fits, each is
answered alike. -/
theorem stores_answer_alike {l : List TimedCall}
    (hfits : ∀ u a t, StepAt step ({}, {}) l u a t → Fits u a)
    (hhours : ∀ i : Fin l.length, HourFits (l.take i) (l.get i)) :
    (∃ t, run step ({}, {}) l = some t) ∧
      ∀ u a t, StepAt step ({}, {}) l u a t → AnswerAlike u a := by
  refine ⟨exists_run exists_step ({}, {}) l, fun u a t hstep => ?_⟩
  obtain ⟨before, after, hl, hu, ht⟩ := id hstep
  obtain ⟨v, hv, halike, hcounted⟩ := alike_of_prefix hfits hhours hl
  obtain rfl := Option.some.inj (hu.symm.trans hv)
  exact halike.answerAlike (hfits u a t hstep) (hcounted.sameSide (hourFits_of_split hhours hl))

/-- A job fails and is created again by its owner, who makes three calls within a limit of two,
and three more behind a quiet hour. -/
def twoBursts : List TimedCall :=
  let job : OwnedJob := { owner := "u1", record := { spec := "circle" } }
  [{ call := .createIfAbsent "mj_1" job, now := 10 },
    { call := .hourlyCount "u1" 2, now := 10 },
    { call := .claim "mj_1", now := 11 },
    { call := .update "mj_1" .failed {}, now := 12 },
    { call := .createIfAbsent "mj_1" job, now := 20 },
    { call := .hourlyCount "u1" 2, now := 20 },
    { call := .claim "mj_1", now := 21 },
    { call := .get "mj_1", now := 22 },
    { call := .activeCount "u1", now := 23 },
    { call := .hourlyCount "u1" 2, now := 30 },
    { call := .hourlyCount "u1" 2, now := 4000 },
    { call := .hourlyCount "u1" 2, now := 4001 },
    { call := .hourlyCount "u1" 2, now := 4002 }]

example : (run step ({}, {}) twoBursts).map (fun u => (u.1.hits "u1", u.2.redis.hours "u1")) =
    some ([4000, 4001], 3) := by
  decide +kernel

theorem twoBursts_alike :
    (∃ t, run step ({}, {}) twoBursts = some t) ∧
      ∀ u a t, StepAt step ({}, {}) twoBursts u a t → AnswerAlike u a := by
  have hfits : EveryStep step Fits ({}, {}) twoBursts := by decide +kernel
  exact stores_answer_alike (everyStep_iff.mp hfits) (by decide +kernel)

/-- A claim that came before the first creation is only dropped in memory. -/
def claimFirst : List TimedCall :=
  [{ call := .claim "mj_1", now := 10 },
    { call := .createIfAbsent "mj_1" { owner := "u1", record := { spec := "circle" } }, now := 11 }]

/-- Behind it the store in memory lets the job be claimed once more, and Redis does not. -/
theorem claimFirst_not_alike :
    ¬ ∀ (l : List TimedCall) u a t, StepAt step ({}, {}) l u a t → AnswerAlike u a := by
  intro h
  let again : TimedCall := { call := .claim "mj_1", now := 12 }
  obtain ⟨u, hu⟩ := exists_run exists_step ({}, {}) claimFirst
  obtain ⟨t, ht⟩ := exists_step u again
  have halike : AnswerAlike u again := h (claimFirst ++ [again]) u again t ⟨claimFirst, [], rfl, hu, ht⟩
  have hrun : (run step ({}, {}) claimFirst).map (fun u => decide (AnswerAlike u again)) =
      some false := by
    decide
  rw [hu] at hrun
  exact absurd halike (of_decide_eq_false (Option.some.inj hrun))

end LlmService
