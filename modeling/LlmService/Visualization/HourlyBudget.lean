import LlmService.Lib.Windows
import LlmService.Visualization.TwoStores

/-!
# Hourly budgets

`hourly_count` of the two job stores, over runs of any length. The store in
memory admits no more calls of an owner than the limit in any hour. Redis
counts from one expiry of a counter to the next, and the counter is told to
expire by a command of its own: whatever commands of whichever clients run
between, and however late a counter expires, no hour sees more than twice the
limit.
-/

namespace LlmService

open Runs Windows

/-- `EXPIRE` is for an hour, and an hour is how far the other store looks back. -/
abbrev hour : Seconds := 3600

/-! ## In memory -/

/-- The store, and what `hourly_count` has admitted, with the owner. -/
structure MemoryBudget where
  store : MemoryJobs := {}
  admitted : List (String × Seconds) := []

namespace MemoryBudget

/-- When the owner was admitted. -/
def times (b : MemoryBudget) (owner : String) : List Seconds :=
  (b.admitted.filter fun a => a.1 = owner).map Prod.snd

/-- A call that is admitted. -/
def noted (call : StoreCall) (answer : StoreAnswer) (now : Seconds) : List (String × Seconds) :=
  match call, answer with
  | .hourlyCount owner _, .within true => [(owner, now)]
  | _, _ => []

/-- The limit of an owner is always the same. -/
def fits (limits : String → Nat) : StoreCall → Bool
  | .hourlyCount owner limit => limit = limits owner
  | _ => true

/-- A call, at a time that is not before the last one. -/
def step (limits : String → Nat) (b : MemoryBudget) (a : StoreCall × Seconds) : Option MemoryBudget :=
  if b.store.clock ≤ a.2 ∧ fits limits a.1 then
    let result := (MemoryJobs.answer a.2 a.1).run b.store
    some { store := result.2, admitted := b.admitted ++ noted a.1 result.1 a.2 }
  else none

variable {limits : String → Nat} {b b' : MemoryBudget} {call : StoreCall} {now : Seconds}
  {l : List (StoreCall × Seconds)}

/-- The store remembers what it has admitted as long as that counts. -/
structure Budgeted (limits : String → Nat) (b : MemoryBudget) (owner : String) : Prop where
  atMost : AtMost hour (limits owner) (b.times owner)
  past : ∀ x ∈ b.times owner, x ≤ b.store.clock
  remembered : ∀ now, b.store.clock ≤ now →
    ((b.store.hits owner).filter fun x => now - x < hour) = (b.times owner).filter fun x => now - x < hour

/-- What is recent later on is recent now. -/
theorem filter_recent {now' : Seconds} (hnow : now ≤ now') (xs : List Seconds) :
    (xs.filter fun x => now - x < hour).filter (fun x => now' - x < hour) =
      xs.filter fun x => now' - x < hour := by
  rw [List.filter_filter]
  refine List.filter_congr fun x _ => ?_
  rw [Bool.and_eq_left_iff_imp]
  intro h
  have hlater := of_decide_eq_true h
  exact decide_eq_true (by linarith)

/-- Other calls remember what was remembered. -/
theorem hits_answer (hother : ∀ owner limit, call ≠ .hourlyCount owner limit) (m : MemoryJobs) :
    ((MemoryJobs.answer now call).run m).2.hits = m.hits ∧
      ((MemoryJobs.answer now call).run m).2.clock = now := by
  cases call with
  | hourlyCount owner limit => exact absurd rfl (hother owner limit)
  | get id | activeCount owner | update id new fields => exact ⟨rfl, rfl⟩
  | claim id =>
    have hrun : (MemoryJobs.claim id).run { m with clock := now } = if id ∈ m.claimed then
        (false, { m with clock := now }) else (true, { m with clock := now, claimed := id :: m.claimed }) :=
      TwoStores.claim_run _
    show ((MemoryJobs.claim id).run { m with clock := now }).2.hits = _ ∧
      ((MemoryJobs.claim id).run { m with clock := now }).2.clock = now
    rw [hrun]
    split
    · exact ⟨rfl, rfl⟩
    · exact ⟨rfl, rfl⟩
  | createIfAbsent id job =>
    show ((MemoryJobs.createIfAbsent id job).run { m with clock := now }).2.hits = _ ∧
      ((MemoryJobs.createIfAbsent id job).run { m with clock := now }).2.clock = now
    rw [MemoryJobs.createIfAbsent_run]
    split
    · split
      · exact ⟨rfl, rfl⟩
      · exact ⟨rfl, rfl⟩
    · exact ⟨rfl, rfl⟩

/-- Without an admission, the time alone passes. -/
theorem Budgeted.of_same {owner : String} (h : Budgeted limits b owner) (hclock : b.store.clock ≤ b'.store.clock)
    (htimes : b'.times owner = b.times owner)
    (hhits : ∀ now, b'.store.clock ≤ now → ((b'.store.hits owner).filter fun x => now - x < hour) =
      (b.store.hits owner).filter fun x => now - x < hour) : Budgeted limits b' owner where
  atMost := by
    rw [htimes]
    exact h.atMost
  past := by
    rw [htimes]
    exact fun x hx => (h.past x hx).trans hclock
  remembered := by
    intro now hnow
    rw [htimes, hhits now hnow]
    exact h.remembered now (hclock.trans hnow)

theorem times_append (b : MemoryBudget) (m : MemoryJobs) (more : List (String × Seconds)) (owner : String) :
    times ⟨m, b.admitted ++ more⟩ owner =
      b.times owner ++ (more.filter fun a => a.1 = owner).map Prod.snd := by
  rw [times, List.filter_append, List.map_append]
  rfl

/-- One call of `hourly_count`. -/
theorem budgeted_hourlyCount {owner : String} {limit : Int} (h : ∀ o, Budgeted limits b o)
    (hclock : b.store.clock ≤ now) (hlimit : limit = limits owner) (o : String) :
    Budgeted limits
      { store := ((MemoryJobs.answer now (.hourlyCount owner limit)).run b.store).2
        admitted := b.admitted ++ noted (.hourlyCount owner limit)
          ((MemoryJobs.answer now (.hourlyCount owner limit)).run b.store).1 now } o := by
  have hanswer : (MemoryJobs.answer now (.hourlyCount owner limit)).run b.store =
      (.within ((MemoryJobs.hourlyCount owner limit.toNat).run { b.store with clock := now }).1,
        ((MemoryJobs.hourlyCount owner limit.toNat).run { b.store with clock := now }).2) := rfl
  have hnat : limit.toNat = limits owner := by omega
  have hrecent := (h owner).remembered now hclock
  rw [hanswer, TwoStores.hourlyCount_run, hnat]
  dsimp only
  by_cases hfull : limits owner ≤ ((b.store.hits owner).filter fun x => now - x < 3600).length
  · rw [if_pos hfull]
    refine (h o).of_same hclock ?_ ?_
    · rw [times_append]
      exact List.append_nil _
    · intro now' hnow'
      by_cases howner : o = owner
      · subst howner
        show ((Function.update b.store.hits o _ o).filter _) = _
        rw [Function.update_self]
        exact filter_recent hnow' _
      · show ((Function.update b.store.hits owner _ o).filter _) = _
        rw [Function.update_of_ne howner]
  · rw [if_neg hfull]
    by_cases howner : o = owner
    · subst howner
      have htimes : ∀ m, times ⟨m, b.admitted ++ noted (.hourlyCount o limit) (.within true) now⟩ o =
          b.times o ++ [now] := by
        intro m
        rw [times_append]
        simp [noted]
      refine ⟨?_, ?_, ?_⟩
      · rw [htimes]
        refine (h o).atMost.snoc ?_
        rw [← hrecent]
        exact Nat.lt_of_not_le hfull
      · rw [htimes]
        exact List.forall_mem_append.mpr ⟨fun x hx => ((h o).past x hx).trans hclock,
          fun x hx => (List.mem_singleton.mp hx).le⟩
      · intro now' hnow'
        rw [htimes]
        show ((Function.update b.store.hits o _ o).filter _) = _
        rw [Function.update_self, List.filter_append, List.filter_append, filter_recent hnow',
          (h o).remembered now' (hclock.trans hnow')]
    · refine (h o).of_same hclock ?_ ?_
      · rw [times_append]
        simp [noted, Ne.symm howner]
      · intro now' _
        show ((Function.update b.store.hits owner _ o).filter _) = _
        rw [Function.update_of_ne howner]

theorem budgeted_step {a : StoreCall × Seconds} (h : ∀ o, Budgeted limits b o)
    (hstep : step limits b a = some b') (o : String) : Budgeted limits b' o := by
  obtain ⟨call, now⟩ := a
  rw [step] at hstep
  split at hstep
  · rename_i hfits
    obtain rfl := Option.some.inj hstep
    by_cases hhour : ∃ owner limit, call = .hourlyCount owner limit
    · obtain ⟨owner, limit, rfl⟩ := hhour
      exact budgeted_hourlyCount h hfits.1 (of_decide_eq_true hfits.2) o
    · have hother : ∀ owner limit, call ≠ .hourlyCount owner limit :=
        fun owner limit hcall => hhour ⟨owner, limit, hcall⟩
      have hanswer : ((MemoryJobs.answer now call).run b.store).2.hits = b.store.hits ∧
          ((MemoryJobs.answer now call).run b.store).2.clock = now := hits_answer hother b.store
      obtain ⟨hhits, hclock⟩ := hanswer
      refine (h o).of_same (hfits.1.trans hclock.ge) ?_ ?_
      · have hnoted : ∀ answer, noted call answer now = [] := by
          intro answer
          cases call with
          | hourlyCount owner limit => exact absurd rfl (hother owner limit)
          | get id | activeCount owner | update id new fields | claim id | createIfAbsent id job => rfl
        rw [times_append, hnoted]
        exact List.append_nil _
      · intro now' _
        show ((((MemoryJobs.answer now call).run b.store).2.hits o).filter _) = _
        rw [hhits]
  · cases hstep

/-- Over any run of the store in memory, no more calls of an owner are admitted in any hour than the
limit. -/
theorem hour_atMost (h : run (step limits) {} l = some b) (owner : String) :
    AtMost hour (limits owner) (b.times owner) := by
  have hempty : ∀ o, Budgeted limits {} o := fun o => ⟨atMost_nil, List.forall_mem_nil _, fun _ _ => rfl⟩
  exact (run_invariant (fun _ _ _ hs hstep => budgeted_step hs hstep) hempty h owner).atMost

theorem hour_atMost_twoCalls : ∃ b, run (step fun _ => 1) {}
    [(.hourlyCount "alice" 1, 0), (.hourlyCount "alice" 1, 10), (.hourlyCount "alice" 1, 3600)] = some b ∧
      AtMost hour 1 (b.times "alice") := by
  have hruns : (run (step fun _ => 1) {} [(.hourlyCount "alice" 1, 0), (.hourlyCount "alice" 1, 10),
    (.hourlyCount "alice" 1, 3600)]).isSome = true := by decide +kernel
  obtain ⟨b, hb⟩ := Option.isSome_iff_exists.mp hruns
  exact ⟨b, hb, hour_atMost hb "alice"⟩

end MemoryBudget

/-! ## In Redis -/

/-- The keys, and the calls that a counter has admitted, with the owner. -/
structure RedisBudget where
  redis : TimedRedis := {}
  now : Seconds := 0
  admitted : List (String × Seconds) := []

/-- What comes next: a command of some client, time, or the expiry of a counter that is due. -/
inductive RedisLabel where
  | command (c : RedisCommand) (order : TimedRedis.SetOrder)
  | tick (elapsed : Seconds)
  | expired (owner : String)

namespace RedisBudget

/-- When the owner was admitted. -/
def times (b : RedisBudget) (owner : String) : List Seconds :=
  (b.admitted.filter fun a => a.1 = owner).map Prod.snd

/-- `n <= limit`, of the answer to an `INCR`. -/
def noted (limits : String → Nat) (now : Seconds) : (c : RedisCommand) → c.Reply → List (String × Seconds)
  | .incr owner, n => if (show Nat from n) ≤ limits owner then [(owner, now)] else []
  | _, _ => []

def step (limits : String → Nat) (b : RedisBudget) : RedisLabel → Option RedisBudget
  | .command c order =>
    (TimedRedis.exec order b.now c b.redis).map fun result =>
      { b with redis := result.2, admitted := b.admitted ++ noted limits b.now c result.1 }
  | .tick elapsed => if 0 ≤ elapsed then some { b with now := b.now + elapsed } else none
  | .expired owner =>
    match b.redis.hourEnds owner with
    | some ends =>
      if ends ≤ b.now then
        some { b with redis := {
          redis := { b.redis.redis with hours := Function.update b.redis.redis.hours owner 0 }
          hourEnds := Function.update b.redis.hourEnds owner none } }
      else none
    | none => none

variable {limits : String → Nat} {b b' : RedisBudget} {l : List RedisLabel} {owner : String}

/-- The counter of an owner, and what it has admitted since its last two resets. -/
structure Counting (limits : String → Nat) (b : RedisBudget) (owner : String) (reset : Seconds)
    (older prev cur : List Seconds) : Prop where
  times_eq : b.times owner = older ++ prev ++ cur
  counted : Counted hour (limits owner) reset older prev cur
  cur_le : cur.length ≤ b.redis.redis.hours owner
  reset_le : reset ≤ b.now
  past : ∀ x ∈ b.times owner, x ≤ b.now
  ends : ∀ e, b.redis.hourEnds owner = some e → ∀ x ∈ older ++ prev, x ≤ e - hour

def Counts (limits : String → Nat) (b : RedisBudget) (owner : String) : Prop :=
  ∃ reset older prev cur, Counting limits b owner reset older prev cur

/-- Where the counter is left alone, or told to expire, time alone passes. -/
theorem Counts.of_same (h : Counts limits b owner) (hnow : b.now ≤ b'.now)
    (htimes : b'.times owner = b.times owner)
    (hhours : b.redis.redis.hours owner ≤ b'.redis.redis.hours owner)
    (hends : ∀ e, b'.redis.hourEnds owner = some e → b.redis.hourEnds owner = some e ∨ e = b.now + hour) :
    Counts limits b' owner := by
  obtain ⟨reset, older, prev, cur, hcounting⟩ := h
  refine ⟨reset, older, prev, cur, htimes.trans hcounting.times_eq, hcounting.counted, ?_,
    hcounting.reset_le.trans hnow, ?_, ?_⟩
  · exact hcounting.cur_le.trans hhours
  · rw [htimes]
    exact fun x hx => (hcounting.past x hx).trans hnow
  · intro e he x hx
    rcases hends e he with hsame | rfl
    · exact hcounting.ends e hsame x hx
    · have hreset := (hcounting.counted.prev_le x hx).trans hcounting.reset_le
      linarith

theorem times_append (b : RedisBudget) (redis : TimedRedis) (more : List (String × Seconds)) (owner : String) :
    times { b with redis, admitted := b.admitted ++ more } owner =
      b.times owner ++ (more.filter fun a => a.1 = owner).map Prod.snd := by
  rw [times, List.filter_append, List.map_append]
  rfl

/-- An `INCR`, of this owner's counter or of another's. -/
theorem Counts.incr (h : Counts limits b owner) (o : String) {redis : TimedRedis}
    (hhours : redis.redis.hours = Function.update b.redis.redis.hours o (b.redis.redis.hours o + 1))
    (hends : redis.hourEnds = b.redis.hourEnds) :
    Counts limits { b with redis, admitted :=
      b.admitted ++ if b.redis.redis.hours o + 1 ≤ limits o then [(o, b.now)] else [] } owner := by
  have hle : b.redis.redis.hours owner ≤ redis.redis.hours owner := by
    rw [hhours]
    by_cases howner : owner = o
    · subst howner
      rw [Function.update_self]
      exact Nat.le_succ _
    · rw [Function.update_of_ne howner]
  by_cases hfits : b.redis.redis.hours o + 1 ≤ limits o
  · rw [if_pos hfits]
    have htimes := times_append b redis [(o, b.now)] owner
    by_cases howner : o = owner
    · subst howner
      obtain ⟨reset, older, prev, cur, hcounting⟩ := h
      have hcur := hcounting.cur_le
      have hone : ((([(o, b.now)] : List (String × Seconds)).filter fun a => a.1 = o).map Prod.snd) =
          [b.now] := by simp
      rw [hone] at htimes
      refine ⟨reset, older, prev, cur ++ [b.now], ?_, hcounting.counted.snoc hcounting.reset_le (by omega),
        ?_, hcounting.reset_le, ?_, ?_⟩
      · rw [htimes, hcounting.times_eq, List.append_assoc]
      · show (cur ++ [b.now]).length ≤ redis.redis.hours o
        rw [hhours, Function.update_self, List.length_append, List.length_singleton]
        exact Nat.succ_le_succ hcur
      · rw [htimes]
        exact List.forall_mem_append.mpr ⟨hcounting.past, fun x hx => (List.mem_singleton.mp hx).le⟩
      · intro e he
        change redis.hourEnds o = some e at he
        rw [hends] at he
        exact hcounting.ends e he
    · refine h.of_same le_rfl ?_ hle ?_
      · rw [htimes]
        simp [howner]
      · intro e he
        change redis.hourEnds owner = some e at he
        rw [hends] at he
        exact .inl he
  · rw [if_neg hfits]
    refine h.of_same le_rfl ?_ hle ?_
    · rw [times_append]
      exact List.append_nil _
    · intro e he
      change redis.hourEnds owner = some e at he
      rw [hends] at he
      exact .inl he

/-- A counter that expires is an hour behind what was admitted before it began. -/
theorem Counts.expired (h : Counts limits b owner) {ends : Seconds}
    (hends : b.redis.hourEnds owner = some ends) (hdue : ends ≤ b.now) (redis : TimedRedis)
    (hnone : redis.hourEnds owner = none) : Counts limits { b with redis } owner := by
  obtain ⟨reset, older, prev, cur, hcounting⟩ := h
  refine ⟨b.now, older ++ prev, cur, [], ?_, hcounting.counted.turn ?_ ?_, Nat.zero_le _, le_rfl,
    hcounting.past, ?_⟩
  · rw [List.append_nil]
    exact hcounting.times_eq
  · rw [← hcounting.times_eq]
    exact hcounting.past
  · intro x hx
    have hbefore := hcounting.ends ends hends x hx
    linarith
  · intro e he
    rw [show ({ b with redis } : RedisBudget).redis.hourEnds owner = none from hnone] at he
    cases he

theorem counts_step {a : RedisLabel} (h : ∀ o, Counts limits b o) (hstep : step limits b a = some b')
    (owner : String) : Counts limits b' owner := by
  cases a with
  | tick elapsed =>
    rw [step] at hstep
    split at hstep
    · rename_i helapsed
      obtain rfl := Option.some.inj hstep
      exact (h owner).of_same (le_add_of_nonneg_right helapsed) rfl le_rfl fun e he => .inl he
    · cases hstep
  | expired o =>
    rw [step] at hstep
    cases hends : b.redis.hourEnds o with
    | none =>
      rw [hends] at hstep
      cases hstep
    | some ends =>
      simp only [hends] at hstep
      split at hstep
      · rename_i hdue
        obtain rfl := Option.some.inj hstep
        by_cases howner : o = owner
        · subst howner
          exact (h o).expired hends hdue _ (Function.update_self ..)
        · refine (h owner).of_same le_rfl rfl (Function.update_of_ne (Ne.symm howner) _ _).ge ?_
          intro e he
          change Function.update b.redis.hourEnds o none owner = some e at he
          rw [Function.update_of_ne (Ne.symm howner)] at he
          exact .inl he
      · cases hstep
  | command c order =>
    obtain ⟨result, hexec, rfl⟩ := Option.map_eq_some_iff.mp hstep
    have hsame : noted limits b.now c result.1 = [] → result.2.redis.hours = b.redis.redis.hours →
        (∀ e, result.2.hourEnds owner = some e → b.redis.hourEnds owner = some e ∨ e = b.now + hour) →
        Counts limits { b with redis := result.2, admitted := b.admitted ++ noted limits b.now c result.1 }
          owner := by
      intro hnoted hhours hends
      refine (h owner).of_same le_rfl ?_ (congrFun hhours owner).ge hends
      rw [times_append, hnoted]
      exact List.append_nil _
    cases c with
    | incr o =>
      obtain rfl := Option.some.inj hexec
      exact (h owner).incr o rfl rfl
    | expire o =>
      obtain rfl := Option.some.inj hexec
      refine hsame rfl rfl ?_
      intro e he
      change Function.update b.redis.hourEnds o (some (b.now + hour)) owner = some e at he
      by_cases howner : o = owner
      · subst howner
        rw [Function.update_self] at he
        exact .inr (Option.some.inj he).symm
      · rw [Function.update_of_ne (Ne.symm howner)] at he
        exact .inl he
    | get id | set id job | sadd o id | deleteClaim id | rpush id =>
      obtain rfl := Option.some.inj hexec
      exact hsame rfl rfl fun e he => .inl he
    | smembers o =>
      have hperm := (order (b.redis.redis.owned o)).2
      simp only [TimedRedis.exec, RedisCommand.perform, if_pos hperm, Option.map_some] at hexec
      obtain rfl := Option.some.inj hexec
      exact hsame rfl rfl fun e he => .inl he
    | setNx id job =>
      obtain ⟨x, hx, rfl⟩ := Option.map_eq_some_iff.mp hexec
      rw [RedisCommand.perform] at hx
      split at hx
      · obtain rfl := Option.some.inj hx
        exact hsame rfl rfl fun e he => .inl he
      · obtain rfl := Option.some.inj hx
        exact hsame rfl rfl fun e he => .inl he

/-- Whatever commands of whichever clients run one after another, and however late its counter expires,
no more than twice the limit of an owner is admitted in any hour. -/
theorem twoHours_atMost {start : Seconds} (h : run (step limits) { now := start } l = some b)
    (owner : String) : AtMost hour (2 * limits owner) (b.times owner) := by
  have hempty : ∀ o, Counts limits { now := start } o := by
    intro o
    refine ⟨start, [], [], [], rfl, counted_nil _ _ _, Nat.le_refl 0, le_rfl, List.forall_mem_nil _, ?_⟩
    intro e he
    cases he
  obtain ⟨reset, older, prev, cur, hcounting⟩ :=
    run_invariant (fun _ _ _ hs hstep => counts_step hs hstep) hempty h owner
  rw [hcounting.times_eq]
  exact hcounting.counted.atMost

/-- Two clients count between one another's commands; the counter expires in time. -/
def twoClients : List RedisLabel :=
  let sorted : TimedRedis.SetOrder := fun ids => ⟨ids, .refl ids⟩
  [.command (.incr "alice") sorted, .command (.incr "alice") sorted, .command (.expire "alice") sorted,
    .tick 3600, .expired "alice", .command (.incr "alice") sorted]

theorem twoHours_atMost_twoClients : ∃ b, run (step fun _ => 1) { now := 0 } twoClients = some b ∧
    AtMost hour 2 (b.times "alice") := by
  have hruns : (run (step fun _ => 1) { now := 0 } twoClients).isSome = true := by decide +kernel
  obtain ⟨b, hb⟩ := Option.isSome_iff_exists.mp hruns
  exact ⟨b, hb, twoHours_atMost hb "alice"⟩

end RedisBudget

end LlmService
