import LlmService.Lib.LruMap
import Mathlib.Data.Finset.Card
import Mathlib.Data.List.Basic

/-!
# Maps of the latest writes

A map of bounded size in which a write, but no read, brings its item to the
front: what was written longest ago leaves first. Expired items stay until
something removes them, and that is seen by nobody: `Held` relates such a map
to the history of the writes, the latest first. Of a key it still holds what
was written last, unless its time is over, or as many other keys were written
since as the map has room for.
-/

namespace LlmService.LruMap

section Descending

variable {K V T : Type} [LinearOrder T] {now : T} {m : List (LruItem K V T)}

theorem live_cons (now : T) (item : LruItem K V T) (m : List (LruItem K V T)) :
    live now (item :: m) = if now ≤ item.expiresAt then item :: live now m else live now m := by
  rw [live, List.filter_cons]
  simp only [decide_eq_true_eq]
  rfl

/-- What comes first expires last. -/
def Descending (m : List (LruItem K V T)) : Prop := m.Pairwise fun a b => b.expiresAt ≤ a.expiresAt

/-- Behind an item that has expired, all have. -/
theorem Descending.live_eq_nil {item : LruItem K V T} (h : Descending (item :: m))
    (hitem : ¬ now ≤ item.expiresAt) : live now m = [] := by
  refine List.filter_eq_nil_iff.mpr fun other hother hlive => hitem ?_
  exact (of_decide_eq_true hlive).trans ((List.pairwise_cons.mp h).1 other hother)

/-- The live items come first. -/
theorem live_take (h : Descending m) (n : Nat) : live now (m.take n) = (live now m).take n := by
  induction m generalizing n with
  | nil => simp [live]
  | cons first m ih =>
    cases n with
    | zero => simp [live]
    | succ n =>
      rw [List.take_succ_cons, live_cons, live_cons, ih (List.pairwise_cons.mp h).2]
      by_cases hlive : now ≤ first.expiresAt
      · rw [if_pos hlive, if_pos hlive, List.take_succ_cons]
      · rw [if_neg hlive, if_neg hlive, h.live_eq_nil hlive, List.take_nil, List.take_nil]

end Descending

variable {K V T : Type} [DecidableEq K]

/-- The latest write of each key. -/
def latest : List (LruItem K V T) → List (LruItem K V T)
  | [] => []
  | item :: items => item :: without item.key (latest items)

/-- A write, behind which no more than `max` items stay. -/
def write (max : Nat) (item : LruItem K V T) (m : List (LruItem K V T)) : List (LruItem K V T) :=
  (item :: without item.key m).take max

variable {max : Nat} {item : LruItem K V T} {ws m m' : List (LruItem K V T)} {key : K}

@[simp] theorem latest_cons (item : LruItem K V T) (ws : List (LruItem K V T)) :
    latest (item :: ws) = item :: without item.key (latest ws) := rfl

theorem latest_sublist (ws : List (LruItem K V T)) : (latest ws).Sublist ws := by
  induction ws with
  | nil => exact List.Sublist.refl _
  | cons item ws ih => exact (List.filter_sublist.trans ih).cons_cons item

theorem distinct_latest (ws : List (LruItem K V T)) : Distinct (latest ws) := by
  induction ws with
  | nil => exact List.nodup_nil
  | cons item ws ih =>
    rw [latest_cons, Distinct, List.map_cons, List.nodup_cons]
    refine ⟨?_, ih.sublist List.filter_sublist⟩
    intro hmem
    obtain ⟨other, hother, hkey⟩ := List.mem_map.mp hmem
    exact (mem_without.mp hother).2 hkey

theorem mem_keys_latest : key ∈ (latest ws).map (·.key) ↔ key ∈ ws.map (·.key) := by
  induction ws with
  | nil => exact Iff.rfl
  | cons item ws ih =>
    rw [latest_cons, List.map_cons, List.map_cons, List.mem_cons, List.mem_cons, ← ih]
    by_cases hkey : key = item.key
    · simp [hkey]
    · simp only [hkey, false_or, List.mem_map, mem_without]
      constructor
      · intro h
        obtain ⟨other, ⟨hother, -⟩, rfl⟩ := h
        exact ⟨other, hother, rfl⟩
      · intro h
        obtain ⟨other, hother, rfl⟩ := h
        exact ⟨other, ⟨hother, hkey⟩, rfl⟩

/-- There is one latest write for each key that was written. -/
theorem length_latest (ws : List (LruItem K V T)) :
    (latest ws).length = (ws.map (·.key)).toFinset.card := by
  have hsame : (ws.map (·.key)).toFinset = ((latest ws).map (·.key)).toFinset := by
    ext key
    rw [List.mem_toFinset, List.mem_toFinset, mem_keys_latest]
  rw [hsame, List.toFinset_card_of_nodup (distinct_latest ws), List.length_map]

/-- What later writes leave of earlier ones. -/
theorem latest_append (ws ws' : List (LruItem K V T)) :
    latest (ws ++ ws') = latest ws ++ (latest ws').filter fun item => item.key ∉ ws.map (·.key) := by
  induction ws with
  | nil => simp [latest]
  | cons item ws ih =>
    rw [List.cons_append, latest_cons, latest_cons, ih, without, List.filter_append, List.filter_filter,
      List.cons_append]
    congr 2
    refine List.filter_congr fun other _ => ?_
    rw [← Bool.decide_and]
    simp [not_or]

/-- The latest write of a key comes behind those of the keys written since. -/
theorem latest_split (hkey : item.key ∉ ws.map (·.key)) (older : List (LruItem K V T)) :
    ∃ rest, latest (ws ++ item :: older) = latest ws ++ item :: rest := by
  rw [latest_append, latest_cons, List.filter_cons_of_pos (by simpa using hkey)]
  exact ⟨_, rfl⟩

/-- A key that was written was written last somewhere. -/
theorem exists_latest (hmem : item ∈ latest ws) :
    ∃ newer older, ws = newer ++ item :: older ∧ item.key ∉ newer.map (·.key) := by
  induction ws with
  | nil => cases hmem
  | cons first ws ih =>
    rcases List.mem_cons.mp hmem with rfl | hmem
    · exact ⟨[], ws, rfl, List.not_mem_nil⟩
    · obtain ⟨hlatest, hkey⟩ := mem_without.mp hmem
      obtain ⟨newer, older, rfl, hnewer⟩ := ih hlatest
      refine ⟨first :: newer, older, rfl, ?_⟩
      rw [List.map_cons, List.mem_cons]
      intro h
      rcases h with heq | h
      · exact hkey heq
      · exact hnewer h

/-- Among the latest `max` writes is the last of a key since which fewer other keys were written. -/
theorem mem_take_latest_iff : item ∈ (latest ws).take max ↔
    ∃ newer older, ws = newer ++ item :: older ∧ item.key ∉ newer.map (·.key) ∧
      (newer.map (·.key)).toFinset.card < max := by
  constructor
  · intro h
    obtain ⟨newer, older, rfl, hkey⟩ := exists_latest (List.mem_of_mem_take h)
    refine ⟨newer, older, rfl, hkey, ?_⟩
    obtain ⟨rest, hrest⟩ := latest_split hkey older
    by_contra hmax
    rw [← length_latest] at hmax
    rw [hrest, List.take_append_of_le_length (by omega)] at h
    have hnewer := (latest_sublist _).subset (List.mem_of_mem_take h)
    exact hkey (List.mem_map_of_mem hnewer)
  · intro h
    obtain ⟨newer, older, rfl, hkey, hlt⟩ := h
    obtain ⟨rest, hrest⟩ := latest_split hkey older
    rw [← length_latest] at hlt
    rw [hrest, List.take_append, List.mem_append]
    right
    obtain ⟨n, hn⟩ : ∃ n, max - (latest newer).length = n + 1 := ⟨max - (latest newer).length - 1, by omega⟩
    rw [hn, List.take_succ_cons]
    exact List.mem_cons_self

/-- Where at most one item leaves, one more may be looked at. -/
theorem take_without (h : Distinct m) :
    (without key (m.take (max + 1))).take max = (without key m).take max := by
  induction m generalizing max with
  | nil => simp
  | cons first m ih =>
    rw [Distinct, List.map_cons, List.nodup_cons] at h
    rw [List.take_succ_cons]
    by_cases hkey : first.key = key
    · have hgone : ∀ m' : List (LruItem K V T), m' ⊆ m → without key m' = m' := by
        intro m' hsub
        refine List.filter_eq_self.mpr fun other hother => decide_eq_true ?_
        intro heq
        exact h.1 (List.mem_map.mpr ⟨other, hsub hother, heq.trans hkey.symm⟩)
      have hfirst : ∀ m' : List (LruItem K V T), without key (first :: m') = without key m' :=
        fun m' => List.filter_cons_of_neg (by simp [hkey])
      rw [hfirst, hfirst, hgone _ (List.take_subset _ _), hgone _ (List.Subset.refl _), List.take_take,
        Nat.min_self]
    · have hfirst : ∀ m' : List (LruItem K V T), without key (first :: m') = first :: without key m' :=
        fun m' => List.filter_cons_of_pos (by simp [hkey])
      rw [hfirst, hfirst]
      cases max with
      | zero => simp
      | succ n =>
        rw [List.take_succ_cons, List.take_succ_cons, ih h.2]

section Expiry

variable [LinearOrder T] {now now' : T}

theorem live_without (key : K) (m : List (LruItem K V T)) :
    live now (without key m) = without key (live now m) := by
  rw [live, live, without, without, List.filter_filter, List.filter_filter]
  refine List.filter_congr fun item _ => ?_
  rw [Bool.and_comm]

/-- The map agrees with the latest writes, on what has not expired. -/
structure Held (max : Nat) (now : T) (ws m : List (LruItem K V T)) : Prop where
  descending : Descending ws
  sublist : m.Sublist (latest ws)
  live_eq : live now m = live now ((latest ws).take max)

theorem held_nil (max : Nat) (now : T) : Held max now ([] : List (LruItem K V T)) [] :=
  ⟨List.Pairwise.nil, List.Sublist.refl _, by simp [latest]⟩

theorem Held.later (h : Held max now ws m) (hnow : now ≤ now') : Held max now' ws m where
  descending := h.descending
  sublist := h.sublist
  live_eq := by rw [← live_live hnow, h.live_eq, live_live hnow]

/-- What has expired may leave. -/
theorem Held.of_live (h : Held max now ws m) (hsub : m'.Sublist m) (hlive : live now m' = live now m) :
    Held max now ws m' where
  descending := h.descending
  sublist := hsub.trans h.sublist
  live_eq := hlive.trans h.live_eq

/-- A write that expires last. -/
theorem Held.write (h : Held max now ws m) (hlast : ∀ w ∈ ws, w.expiresAt ≤ item.expiresAt) :
    Held max now (item :: ws) (write max item m) where
  descending := List.pairwise_cons.mpr ⟨hlast, h.descending⟩
  sublist := (List.take_sublist _ _).trans ((h.sublist.filter _).cons_cons item)
  live_eq := by
    have hlatest : Descending (latest ws) := h.descending.sublist (latest_sublist ws)
    have hm : Descending m := hlatest.sublist h.sublist
    have hfront : ∀ l, l.Sublist (latest ws) → Descending (item :: without item.key l) := by
      intro l hl
      have hsub : (without item.key l).Sublist (latest ws) := List.filter_sublist.trans hl
      refine List.pairwise_cons.mpr ⟨fun other hother => ?_, hlatest.sublist hsub⟩
      exact hlast other ((latest_sublist _).subset (hsub.subset hother))
    have hlive : live now m = (live now (latest ws)).take max := by
      rw [h.live_eq, live_take hlatest]
    have hdistinct : Distinct (live now (latest ws)) := distinct_live (distinct_latest ws)
    rw [LruMap.write, live_take (hfront m h.sublist), latest_cons,
      live_take (hfront _ (List.Sublist.refl _)), live_cons, live_cons, live_without, live_without, hlive]
    by_cases hitem : now ≤ item.expiresAt
    · rw [if_pos hitem, if_pos hitem]
      cases max with
      | zero => rfl
      | succ n => rw [List.take_succ_cons, List.take_succ_cons, take_without hdistinct]
    · rw [if_neg hitem, if_neg hitem]
      -- What was written before has expired with the item.
      have hws : Descending (item :: latest ws) :=
        List.pairwise_cons.mpr ⟨fun w hw => hlast w ((latest_sublist ws).subset hw), hlatest⟩
      rw [hws.live_eq_nil hitem, List.take_nil]

/-- A live item is held if it is the last write of its key, and fewer other keys were written since than
the map has room for. -/
theorem Held.mem_iff (h : Held max now ws m) (hitem : now ≤ item.expiresAt) :
    item ∈ m ↔ ∃ newer older, ws = newer ++ item :: older ∧ item.key ∉ newer.map (·.key) ∧
      (newer.map (·.key)).toFinset.card < max := by
  have hlive : item ∈ live now m ↔ item ∈ live now ((latest ws).take max) := by rw [h.live_eq]
  rw [mem_live, mem_live, and_iff_left hitem, and_iff_left hitem, mem_take_latest_iff] at hlive
  exact hlive

end Expiry

end LlmService.LruMap
