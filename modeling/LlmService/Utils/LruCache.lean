import LlmService.Lib.LruMap
import LlmService.Utils.RecentKeys

/-!
# TTLCache as a least recently used map

The cache keeps recency in `access_seq`, expiry in `expires_at` and its bound
in `set`; expired entries stay until something meets them. `Refines` relates
it to the map of `LruMap`, which drops them at once: the unexpired entries, in
the order of their stamps, are the items of the map.
-/

namespace LlmService

open LruMap (live without room)

namespace TTLCache

variable {V : Type}

/-- A call on a cache. -/
inductive CacheCall (V : Type) where
  | get (key : String)
  | set (key : String) (value : V) (ttl : Option Int)
  | contains (key : String)
  | delete (key : String)
  | clear

/-- The cache after a call. -/
def apply (c : TTLCache V) (now : Seconds) : CacheCall V → TTLCache V
  | .get key => (c.get key now).2
  | .set key value ttl => c.set key now value ttl
  | .contains key => (c.contains key now).2
  | .delete key => (c.delete key).2
  | .clear => c.clear

def after (c : TTLCache V) (calls : List (Seconds × CacheCall V)) : TTLCache V :=
  calls.foldl (fun c call => c.apply call.1 call.2) c

/-- The call as an operation of the map. -/
def CacheCall.op (defaultTtl : Int) (now : Seconds) : CacheCall V → LruOp String V Seconds
  | .get key | .contains key => .get key
  | .set key value ttl => .set key value (now + (ttl.getD defaultTtl : Int))
  | .delete key => .delete key
  | .clear => .clear

def history (defaultTtl : Int) (calls : List (Seconds × CacheCall V)) :
    List (Seconds × LruOp String V Seconds) :=
  calls.map fun call => (call.1, call.2.op defaultTtl call.1)

/-- An entry as an item. -/
def item (x : String × CacheEntry V) : LruItem String V Seconds :=
  ⟨x.1, x.2.value, x.2.expiresAt⟩

/-- The unexpired entries in the order in which they were used. -/
structure Ordered (c : TTLCache V) (now : Seconds) (es : List (String × CacheEntry V)) : Prop where
  mem : ∀ k e, (k, e) ∈ es ↔ c.store.lookup k = some e ∧ now ≤ e.expiresAt
  sorted : es.Pairwise fun a b => a.2.accessSeq < b.2.accessSeq

structure Refines (c : TTLCache V) (now : Seconds) (m : List (LruItem String V Seconds)) : Prop where
  bounded : c.size ≤ c.maxSize
  stamped : Stamped c
  entries : ∃ es, Ordered c now es ∧ live now m = es.map item

variable {c c' c₁ : TTLCache V} {key k : String} {now now' : Seconds} {entry : CacheEntry V}
  {es : List (String × CacheEntry V)} {m : List (LruItem String V Seconds)}

/-! ## The entries of a cache -/

theorem Ordered.nodup (h : Ordered c now es) : (es.map Prod.fst).Nodup := by
  rw [List.Nodup, List.pairwise_map]
  refine h.sorted.imp_of_mem ?_
  rintro ⟨k, e⟩ ⟨k', e'⟩ ha hb hlt heq
  obtain rfl : k = k' := heq
  have hsame : e = e' :=
    Option.some.inj (((h.mem k e).mp ha).1.symm.trans ((h.mem k e').mp hb).1)
  subst hsame
  exact lt_irrefl _ hlt

theorem mem_keys_iff : k ∈ c.store.keys ↔ ∃ e, c.store.lookup k = some e := by
  rw [← AList.mem_keys, ← AList.lookup_isSome, Option.isSome_iff_exists]

theorem size_le_of_shrinks (h : Shrinks c c') : c'.size ≤ c.size := by
  apply List.Subperm.length_le
  apply List.subperm_of_subset c'.store.keys_nodup
  intro k hk
  obtain ⟨e, he⟩ := mem_keys_iff.mp hk
  exact mem_keys_iff.mpr ⟨e, h.lookup k e he⟩

/-- There are no more unexpired entries than entries. -/
theorem Ordered.length_le (h : Ordered c now es) : es.length ≤ c.size := by
  rw [← List.length_map Prod.fst]
  apply List.Subperm.length_le
  apply List.subperm_of_subset h.nodup
  intro k hk
  obtain ⟨⟨k, e⟩, he, rfl⟩ := List.mem_map.mp hk
  exact mem_keys_iff.mpr ⟨e, ((h.mem k e).mp he).1⟩

/-- Where no entry has expired, they are all of them. -/
theorem Ordered.length_eq (h : Ordered c now es)
    (hlive : ∀ k e, c.store.lookup k = some e → now ≤ e.expiresAt) : es.length = c.size := by
  apply Nat.le_antisymm h.length_le
  rw [← List.length_map Prod.fst]
  apply List.Subperm.length_le
  apply List.subperm_of_subset c.store.keys_nodup
  intro k hk
  obtain ⟨e, he⟩ := mem_keys_iff.mp hk
  exact List.mem_map.mpr ⟨(k, e), (h.mem k e).mpr ⟨he, hlive k e he⟩, rfl⟩

/-- An entry that has expired takes a place of its own. -/
theorem Ordered.length_lt (h : Ordered c now es) (hentry : c.store.lookup key = some entry)
    (hexpired : ¬ now ≤ entry.expiresAt) : es.length < c.size := by
  have hnot : key ∉ es.map Prod.fst := by
    intro hmem
    obtain ⟨⟨k, e⟩, he, rfl⟩ := List.mem_map.mp hmem
    obtain ⟨hlookup, hlive⟩ := (h.mem k e).mp he
    obtain rfl := Option.some.inj (hentry.symm.trans hlookup)
    exact hexpired hlive
  have hsub : (key :: es.map Prod.fst).Subperm c.store.keys := by
    apply List.subperm_of_subset (List.nodup_cons.mpr ⟨hnot, h.nodup⟩)
    intro k hk
    rcases List.mem_cons.mp hk with rfl | hk
    · exact mem_keys_iff.mpr ⟨entry, hentry⟩
    · obtain ⟨⟨k, e⟩, he, rfl⟩ := List.mem_map.mp hk
      exact mem_keys_iff.mpr ⟨e, ((h.mem k e).mp he).1⟩
  have hle := hsub.length_le
  rw [List.length_cons, List.length_map] at hle
  exact hle

theorem Ordered.mem_keys (h : Ordered c now es) : key ∈ es.map Prod.fst ↔
    ∃ e, c.store.lookup key = some e ∧ now ≤ e.expiresAt := by
  constructor
  · intro hmem
    obtain ⟨⟨k, e⟩, he, rfl⟩ := List.mem_map.mp hmem
    exact ⟨e, (h.mem k e).mp he⟩
  · intro hex
    obtain ⟨e, he⟩ := hex
    exact List.mem_map.mpr ⟨(key, e), (h.mem key e).mpr he, rfl⟩

/-- A part of the entries, where the others are gone from the cache. -/
theorem Ordered.filter (h : Ordered c now es) (p : String × CacheEntry V → Bool)
    (hmem : ∀ k e, (c'.store.lookup k = some e ∧ now' ≤ e.expiresAt) ↔
      (c.store.lookup k = some e ∧ now ≤ e.expiresAt) ∧ p (k, e) = true) :
    Ordered c' now' (es.filter p) := by
  refine ⟨fun k e => ?_, h.sorted.sublist List.filter_sublist⟩
  rw [List.mem_filter, h.mem, hmem]

/-- The entries without the one whose key is erased. -/
theorem Ordered.erase (h : Ordered c now es) (hstore : c'.store = c.store.erase key) :
    Ordered c' now (es.filter fun x => x.1 ≠ key) := by
  apply h.filter
  intro k e
  rw [hstore, decide_eq_true_eq]
  by_cases hk : k = key
  · subst hk
    rw [AList.lookup_erase]
    simp
  · rw [AList.lookup_erase_ne hk]
    exact ⟨fun he => ⟨he, hk⟩, fun he => he.1⟩

theorem map_fst_eq (es : List (String × CacheEntry V)) :
    (es.map item).map (·.key) = es.map Prod.fst := by
  rw [List.map_map]
  rfl

theorem map_item_without (key : String) (es : List (String × CacheEntry V)) :
    without key (es.map item) = (es.filter fun x => x.1 ≠ key).map item := by
  rw [without, List.filter_map]
  rfl

theorem live_map_item (now : Seconds) (es : List (String × CacheEntry V)) :
    live now (es.map item) = (es.filter fun x => now ≤ x.2.expiresAt).map item := by
  rw [live, List.filter_map]
  rfl

/-! ## A later time -/

theorem Refines.later (h : Refines c now m) (hnow : now ≤ now') : Refines c now' m := by
  obtain ⟨es, hes, hm⟩ := h.entries
  refine ⟨h.bounded, h.stamped, es.filter fun x => now' ≤ x.2.expiresAt, ?_, ?_⟩
  · apply hes.filter
    intro k e
    rw [decide_eq_true_eq]
    exact ⟨fun he => ⟨⟨he.1, hnow.trans he.2⟩, he.2⟩, fun he => ⟨he.1.1, he.2⟩⟩
  · rw [← LruMap.live_live hnow, hm, live_map_item]

/-! ## Using an entry -/

/-- A new stamp on one entry brings it to the end of the order. -/
theorem Ordered.stamp (h : Ordered c₁ now es) (hstamped : Stamped c₁)
    (hkey : c'.store.lookup key = some entry) (hseq : entry.accessSeq = c₁.seq + 1)
    (hrest : ∀ k, k ≠ key → c'.store.lookup k = c₁.store.lookup k) :
    Ordered c' now (((es.filter fun x => x.1 ≠ key) ++ [(key, entry)]).filter
      fun x => now ≤ x.2.expiresAt) := by
  refine ⟨fun k e => ?_, List.Pairwise.sublist List.filter_sublist ?_⟩
  · simp only [List.mem_filter, List.mem_append, List.mem_singleton, decide_eq_true_eq, h.mem]
    by_cases hk : k = key
    · subst hk
      rw [hkey]
      simp [eq_comm]
    · simp [hk, hrest k hk]
  · rw [List.pairwise_append]
    refine ⟨h.sorted.sublist List.filter_sublist, List.pairwise_singleton _ _, ?_⟩
    rintro ⟨k, e⟩ hx y hy
    rw [List.mem_singleton.mp hy, hseq]
    have hlookup := ((h.mem k e).mp (List.mem_filter.mp hx).1).1
    exact Nat.lt_succ_of_le (hstamped k e hlookup)

theorem map_item_stamp (now : Seconds) (key : String) (es : List (String × CacheEntry V))
    (entry : CacheEntry V) :
    live now (without key (es.map item) ++ [item (key, entry)]) =
      ((((es.filter fun x => x.1 ≠ key) ++ [(key, entry)]).filter
        fun x => now ≤ x.2.expiresAt).map item) := by
  rw [map_item_without, ← live_map_item, List.map_append]
  rfl

/-- The item that the map finds for a key is an unexpired entry. -/
theorem Refines.find_eq_some (h : Refines c now m) {x : LruItem String V Seconds}
    (hx : (live now m).find? (·.key = key) = some x) :
    ∃ e, c.store.lookup key = some e ∧ now ≤ e.expiresAt ∧ x = item (key, e) := by
  obtain ⟨es, hes, hm⟩ := h.entries
  have hkey : x.key = key := by simpa using List.find?_some hx
  have hmem := List.mem_of_find?_eq_some hx
  rw [hm] at hmem
  obtain ⟨⟨k, e⟩, he, rfl⟩ := List.mem_map.mp hmem
  obtain rfl : k = key := hkey
  exact ⟨e, ((hes.mem k e).mp he).1, ((hes.mem k e).mp he).2, rfl⟩

theorem Refines.find_eq_none (h : Refines c now m)
    (hgone : ∀ e, c.store.lookup key = some e → ¬ now ≤ e.expiresAt) :
    (live now m).find? (·.key = key) = none := by
  cases hx : (live now m).find? (·.key = key) with
  | none => rfl
  | some x =>
    obtain ⟨e, he, hlive, -⟩ := h.find_eq_some hx
    exact absurd hlive (hgone e he)

theorem Refines.get (h : Refines c now m) (key : String) :
    Refines (c.get key now).2 now (LruMap.step c.maxSize m now (.get key)) := by
  obtain ⟨es, hes, hm⟩ := h.entries
  show Refines (c.contains key now).2 now _
  have hstamped : Stamped (c.contains key now).2 := contains_stamped h.stamped
  have hmaxSize : (c.contains key now).2.maxSize = c.maxSize := (contains_limits c key now).1
  rw [LruMap.step]
  rcases contains_cases c key now with ⟨hlookup, hc⟩ | ⟨e, hlookup, hexpired, hc⟩ |
    ⟨e, hlookup, hlive, hc⟩
  · rw [h.find_eq_none (fun e he => by rw [hlookup] at he; cases he)]
    rw [hc] at hstamped ⊢
    exact ⟨h.bounded, hstamped, es, ⟨hes.mem, hes.sorted⟩, by rw [LruMap.live_live le_rfl, hm]⟩
  · have hgone : ∀ e, c.store.lookup key = some e → ¬ now ≤ e.expiresAt := by
      intro e' he'
      obtain rfl := Option.some.inj (hlookup.symm.trans he')
      exact not_le.mpr hexpired
    have hothers : es.filter (fun x => x.1 ≠ key) = es := by
      rw [List.filter_eq_self]
      rintro ⟨k, e'⟩ hmem
      rw [decide_eq_true_eq]
      rintro rfl
      obtain ⟨he', hlive⟩ := (hes.mem k e').mp hmem
      exact hgone e' he' hlive
    rw [h.find_eq_none hgone]
    rw [hc] at hstamped ⊢
    refine ⟨(size_le_of_shrinks (shrinks_erase c key _ _)).trans h.bounded, hstamped, es, ?_,
      by rw [LruMap.live_live le_rfl, hm]⟩
    rw [← hothers]
    exact hes.erase rfl
  · have hmem : item (key, e) ∈ live now m := by
      rw [hm]
      exact List.mem_map_of_mem ((hes.mem key e).mpr ⟨hlookup, hlive⟩)
    cases hx : (live now m).find? (·.key = key) with
    | none => exact absurd (decide_eq_true rfl) (List.find?_eq_none.mp hx _ hmem)
    | some x =>
      obtain ⟨e', he', -, rfl⟩ := h.find_eq_some hx
      obtain rfl := Option.some.inj (hlookup.symm.trans he')
      rw [hc] at hstamped hmaxSize ⊢
      refine ⟨?_, hstamped, _, hes.stamp h.stamped (lookup_replace_self hlookup _) rfl
        (fun k hk => lookup_replace_ne hk _), ?_⟩
      · rw [size, AList.keys_replace]
        exact h.bounded
      · rw [hm]
        exact map_item_stamp now key es
          { e with
            accessCount := e.accessCount + 1
            lastAccessed := now
            accessSeq := c.seq + 1 }

/-! ## Making room -/

theorem foldl_erase_lookup (keys : List String) (c : TTLCache V) (hk : k ∈ keys) :
    (keys.foldl
      (fun c key => { c with store := c.store.erase key, evictions := c.evictions + 1 })
        c).store.lookup k = none := by
  induction keys generalizing c with
  | nil => cases hk
  | cons key keys ih =>
    rw [List.foldl_cons]
    by_cases hmem : k ∈ keys
    · exact ih _ hmem
    · obtain rfl := (List.mem_cons.mp hk).resolve_right hmem
      rw [(foldl_erase keys _).2 k hmem]
      exact AList.lookup_erase _ _

/-- `evict_expired` leaves the unexpired entries. -/
theorem lookup_evictExpired (c : TTLCache V) (now : Seconds) (k : String) (e : CacheEntry V) :
    (c.evictExpired now).store.lookup k = some e ↔
      c.store.lookup k = some e ∧ now ≤ e.expiresAt := by
  constructor
  · intro h
    have hlookup := (evictExpired_shrinks c now).lookup k e h
    refine ⟨hlookup, not_lt.mp fun hexpired => ?_⟩
    rw [evictExpired, foldl_erase_lookup _ c (mem_expiredKeys.mpr ⟨e, hlookup, hexpired⟩)] at h
    cases h
  · rintro ⟨hlookup, hlive⟩
    exact evictExpired_keeps hlookup hlive

theorem Ordered.evictExpired (h : Ordered c now es) : Ordered (c.evictExpired now) now es := by
  refine ⟨fun k e => ?_, h.sorted⟩
  rw [h.mem, lookup_evictExpired]
  exact ⟨fun he => ⟨he, he.2⟩, fun he => he.1⟩

theorem Ordered.length_evictExpired (h : Ordered c now es) :
    es.length = (c.evictExpired now).size :=
  h.evictExpired.length_eq fun k e he => ((lookup_evictExpired c now k e).mp he).2

/-- The oldest key of a cache without expired entries is the first of the order. -/
theorem Ordered.oldestKey_eq {e : CacheEntry V} {rest : List (String × CacheEntry V)}
    (h : Ordered c now ((k, e) :: rest))
    (hall : ∀ k e, c.store.lookup k = some e → now ≤ e.expiresAt)
    (holdest : c.oldestKey = some key) : key = k := by
  obtain ⟨entry, hentry, hleast⟩ := oldestKey_eq_some holdest
  obtain ⟨hlookup, -⟩ := (h.mem k e).mp List.mem_cons_self
  by_contra hne
  -- an entry behind the first was used after it
  have hmem := (h.mem key entry).mpr ⟨hentry, hall key entry hentry⟩
  rcases List.mem_cons.mp hmem with heq | hmem
  · exact hne (Prod.mk.inj heq).1
  · have hlt := (List.pairwise_cons.mp h.sorted).1 _ hmem
    have hle := hleast k e hlookup
    dsimp only at hlt
    omega

theorem Ordered.filter_head {e : CacheEntry V} {rest : List (String × CacheEntry V)}
    (h : Ordered c now ((key, e) :: rest)) :
    ((key, e) :: rest).filter (fun x => x.1 ≠ key) = rest := by
  have hnodup := h.nodup
  rw [List.map_cons, List.nodup_cons] at hnodup
  rw [List.filter_cons_of_neg (by simp), List.filter_eq_self]
  intro x hx
  rw [decide_eq_true_eq]
  intro heq
  apply hnodup.1
  have hmem : x.1 ∈ rest.map Prod.fst := List.mem_map_of_mem hx
  rw [heq] at hmem
  exact hmem

/-- Where the cache is full of unexpired entries, the first of them is evicted. -/
theorem Ordered.evictLru_of_full (h : Ordered c now es) (hpos : 1 ≤ c.maxSize)
    (hfull : c.maxSize ≤ es.length) :
    ∃ oldest rest, es = oldest :: rest ∧ (c.evictLru now).size + 1 = es.length ∧
      Ordered (c.evictLru now) now rest := by
  have hmaxSize := (evictExpired_shrinks c now).maxSize_eq
  have hsize := h.length_evictExpired
  have hevict := h.evictExpired
  have hall : ∀ k e, (c.evictExpired now).store.lookup k = some e → now ≤ e.expiresAt :=
    fun k e he => ((lookup_evictExpired c now k e).mp he).2
  unfold evictLru
  generalize c.evictExpired now = c₁ at hmaxSize hsize hevict hall
  rw [← hmaxSize] at hpos hfull
  simp only [if_neg (show ¬ c₁.size < c₁.maxSize by omega)]
  cases holdest : c₁.oldestKey with
  | none =>
    exfalso
    rw [oldestKey, Option.map_eq_none_iff, List.argmin_eq_none] at holdest
    have hzero : c₁.size = 0 := by
      rw [size, AList.keys, List.keys, holdest]
      rfl
    omega
  | some key =>
    cases es with
    | nil =>
      rw [List.length_nil] at hfull
      omega
    | cons first rest =>
      obtain ⟨k, e⟩ := first
      obtain rfl := hevict.oldestKey_eq hall holdest
      obtain ⟨hlookup, -⟩ := (hevict.mem key e).mp List.mem_cons_self
      refine ⟨(key, e), rest, rfl, ?_, ?_⟩
      · show (c₁.store.erase key).keys.length + 1 = _
        have hkey : key ∈ c₁.store.keys := mem_keys_iff.mpr ⟨e, hlookup⟩
        have hpositive := List.length_pos_of_mem hkey
        rw [AList.keys_erase, List.length_erase_of_mem hkey, hsize]
        show c₁.store.keys.length - 1 + 1 = c₁.store.keys.length
        omega
      · rw [← hevict.filter_head]
        exact hevict.erase rfl

/-- The cache that a key is put into has the room that the map makes for it. -/
theorem Refines.exists_room (h : Refines c now m) (hpos : 1 ≤ c.maxSize)
    (hc₁ : c₁ = c ∧ (c.size < c.maxSize ∨ key ∈ c.store) ∨ key ∉ c.store ∧ c₁ = c.evictLru now) :
    ∃ es, Ordered c₁ now es ∧ room c.maxSize now key m = es.map item ∧
      (c₁.size < c.maxSize ∨ key ∈ c₁.store ∧ c₁.size ≤ c.maxSize) := by
  obtain ⟨es, hes, hm⟩ := h.entries
  have hbounded := h.bounded
  have hroom : key ∈ es.map Prod.fst ∨ es.length < c.maxSize →
      room c.maxSize now key m = es.map item := by
    intro hfits
    rw [room, hm, map_fst_eq, List.length_map, if_pos hfits]
  rcases hc₁ with ⟨rfl, hfits⟩ | ⟨hnew, rfl⟩
  · refine ⟨es, hes, hroom ?_, hfits.imp_right fun hmem => ⟨hmem, hbounded⟩⟩
    rcases hfits with hlt | hmem
    · exact .inr (hes.length_le.trans_lt hlt)
    · obtain ⟨e, he⟩ := mem_keys_iff.mp hmem
      by_cases hlive : now ≤ e.expiresAt
      · exact .inl (hes.mem_keys.mpr ⟨e, he, hlive⟩)
      · exact .inr ((hes.length_lt he hlive).trans_le hbounded)
  · have hsize := hes.length_evictExpired
    by_cases hfull : c.maxSize ≤ es.length
    · obtain ⟨oldest, rest, rfl, hless, hrest⟩ := hes.evictLru_of_full hpos hfull
      have hnot : ¬ (key ∈ (oldest :: rest).map Prod.fst ∨
          (oldest :: rest).length < c.maxSize) := by
        rintro (hmem | hlt)
        · obtain ⟨e, he, -⟩ := hes.mem_keys.mp hmem
          exact hnew (mem_keys_iff.mpr ⟨e, he⟩)
        · omega
      refine ⟨rest, hrest, ?_, .inl ?_⟩
      · rw [room, hm, map_fst_eq, List.length_map, if_neg hnot]
        rfl
      · have hle := hes.length_le
        omega
    · have hevict : c.evictLru now = c.evictExpired now := by
        have hlt : (c.evictExpired now).size < (c.evictExpired now).maxSize := by
          rw [(evictExpired_shrinks c now).maxSize_eq]
          omega
        rw [evictLru]
        exact if_pos hlt
      rw [hevict]
      exact ⟨es, hes.evictExpired, hroom (.inr (not_le.mp hfull)), .inl (by omega)⟩

theorem Refines.set (h : Refines c now m) (hpos : 1 ≤ c.maxSize) (key : String) (value : V)
    (ttl : Option Int) :
    Refines (c.set key now value ttl) now
      (LruMap.step c.maxSize m now
        (.set key value (now + (ttl.getD c.defaultTtl : Int)))) := by
  have hstamped : Stamped (c.set key now value ttl) := set_stamped h.stamped ttl
  have hmaxSize := (set_limits c key now value ttl).1
  obtain ⟨c₁, hc₁, hset⟩ := set_cases c key now value ttl
  have hstamped₁ : Stamped c₁ := by
    rcases hc₁ with ⟨rfl, -⟩ | ⟨-, rfl⟩
    · exact h.stamped
    · exact h.stamped.of_shrinks (evictLru_shrinks c now)
  obtain ⟨es, hes, hroom, hsize⟩ := h.exists_room hpos hc₁
  rw [LruMap.step, hroom]
  refine ⟨?_, hstamped, ?_⟩
  · rw [hmaxSize, hset, size, AList.keys_insert, List.length_cons]
    by_cases hkey : key ∈ c₁.store
    · have hpositive := List.length_pos_of_mem (AList.mem_keys.mp hkey)
      rw [List.length_erase_of_mem (AList.mem_keys.mp hkey)]
      rw [size] at hsize
      omega
    · rw [List.erase_of_not_mem (fun hmem => hkey (AList.mem_keys.mpr hmem))]
      have hlt := hsize.resolve_right fun hmem => hkey hmem.1
      rw [size] at hlt
      omega
  · rw [hset]
    refine ⟨_, hes.stamp hstamped₁ (AList.lookup_insert _) rfl
      fun k hk => AList.lookup_insert_ne hk, ?_⟩
    exact map_item_stamp now key es
      { value, expiresAt := now + (ttl.getD c.defaultTtl : Int), lastAccessed := now
        accessSeq := c₁.seq + 1 }

theorem Refines.delete (h : Refines c now m) (key : String) :
    Refines (c.delete key).2 now (without key (live now m)) := by
  obtain ⟨es, hes, hm⟩ := h.entries
  have hshrinks : Shrinks c (c.delete key).2 := shrinks_erase c key _ _
  refine ⟨(size_le_of_shrinks hshrinks).trans h.bounded, h.stamped.of_shrinks hshrinks,
    es.filter fun x => x.1 ≠ key, hes.erase rfl, ?_⟩
  rw [hm, map_item_without, live_map_item]
  congr 1
  rw [List.filter_eq_self]
  rintro ⟨k, e⟩ hx
  exact decide_eq_true ((hes.mem k e).mp (List.mem_filter.mp hx).1).2

theorem refines_empty (hempty : c.store = ∅) : Refines c now [] := by
  have hlookup : ∀ k, c.store.lookup k = none := by
    intro k
    rw [hempty]
    rfl
  refine ⟨?_, fun k e he => ?_, [], ⟨fun k e => ?_, List.Pairwise.nil⟩, rfl⟩
  · rw [size, hempty]
    exact Nat.zero_le _
  · rw [hlookup k] at he
    cases he
  · rw [hlookup k]
    simp

/-- Every call does to the cache what its operation does to the map. -/
theorem Refines.apply (h : Refines c now m) (hpos : 1 ≤ c.maxSize) (call : CacheCall V) :
    Refines (c.apply now call) now (LruMap.step c.maxSize m now (call.op c.defaultTtl now)) := by
  cases call with
  | get key => exact h.get key
  | contains key => exact h.get key
  | set key value ttl => exact h.set hpos key value ttl
  | delete key => exact h.delete key
  | clear => exact refines_empty rfl

theorem apply_limits (c : TTLCache V) (now : Seconds) (call : CacheCall V) :
    (c.apply now call).maxSize = c.maxSize ∧ (c.apply now call).defaultTtl = c.defaultTtl := by
  cases call with
  | get key => exact contains_limits c key now
  | contains key => exact contains_limits c key now
  | set key value ttl => exact set_limits c key now value ttl
  | delete key => exact ⟨rfl, rfl⟩
  | clear => exact ⟨rfl, rfl⟩

theorem after_snoc (c : TTLCache V) (calls : List (Seconds × CacheCall V))
    (call : Seconds × CacheCall V) :
    c.after (calls ++ [call]) = (c.after calls).apply call.1 call.2 := by
  rw [after, List.foldl_append]
  rfl

/-- A cache that was filled by calls in the order of the clock. -/
theorem refines_after {maxSize : Nat} (hmax : 1 ≤ maxSize) (defaultTtl : Int)
    {calls : List (Seconds × CacheCall V)}
    (hclock : (calls.map Prod.fst ++ [now]).Pairwise (· ≤ ·)) :
    let c := after ({ maxSize, defaultTtl } : TTLCache V) calls
    Refines c now (LruMap.run maxSize (history defaultTtl calls)) ∧ c.maxSize = maxSize ∧
      c.defaultTtl = defaultTtl := by
  induction calls using List.reverseRecOn generalizing now with
  | nil => exact ⟨refines_empty rfl, rfl, rfl⟩
  | append_singleton calls call ih =>
    rw [List.map_append, List.map_singleton] at hclock
    obtain ⟨hbefore, -, hnow⟩ := List.pairwise_append.mp hclock
    obtain ⟨hrefines, hsize, httl⟩ := ih hbefore
    have hlate : call.1 ≤ now := hnow call.1 (by simp) now (List.mem_singleton_self now)
    have happly := hrefines.apply (by rw [hsize]; exact hmax) call.2
    rw [hsize, httl] at happly
    obtain ⟨hsize', httl'⟩ := apply_limits
      (after ({ maxSize, defaultTtl } : TTLCache V) calls) call.1 call.2
    rw [after_snoc, history, List.map_append, List.map_singleton, LruMap.run_snoc]
    exact ⟨happly.later hlate, hsize'.trans hsize, httl'.trans httl⟩

/-! ## What a caller sees -/

/-- The key has an entry that has not expired. -/
def Unexpired (c : TTLCache V) (now : Seconds) (key : String) : Prop :=
  ∃ e, c.store.lookup key = some e ∧ now ≤ e.expiresAt

/-- The cache is the map of the operations: what it returns was set last and is
still there, and what it loses before its time is the least recently accessed
of as many entries as there may be. -/
structure IsLru (c : TTLCache V) (maxSize : Nat) (ops : List (Seconds × LruOp String V Seconds))
    (now : Seconds) : Prop where
  bounded : c.size ≤ maxSize
  get_iff : ∀ k v, (c.get k now).1 = some v ↔
    ∃ deadline, now ≤ deadline ∧ LruMap.LastSet maxSize ops k v deadline
  contains_iff : ∀ k, (c.contains k now).1 = true ↔
    ∃ v deadline, now ≤ deadline ∧ LruMap.LastSet maxSize ops k v deadline
  unexpired_iff : ∀ k, c.Unexpired now k ↔ k ∈ (live now (LruMap.run maxSize ops)).map (·.key)
  distinct : LruMap.Distinct (live now (LruMap.run maxSize ops))
  inOrder : LruMap.InOrder (LruMap.accesses maxSize ops) (live now (LruMap.run maxSize ops))
  lost_iff : ∀ call k, c.Unexpired now k → (k ∉ (c.apply now call).store ↔
    call = .delete k ∨ call = .clear ∨
      ∃ key value ttl rest, call = .set key value ttl ∧ key ∉ c.store ∧
        (live now (LruMap.run maxSize ops)).length = maxSize ∧
        (live now (LruMap.run maxSize ops)).map (·.key) = k :: rest)

theorem get_eq_some_iff {v : V} : (c.get key now).1 = some v ↔
    ∃ e, c.store.lookup key = some e ∧ now ≤ e.expiresAt ∧ e.value = v := by
  rw [get]
  cases hlookup : c.store.lookup key with
  | none => simp
  | some e =>
    by_cases hexpired : e.expiresAt < now
    · simp [hexpired]
    · simp [hexpired, not_lt.mp hexpired]

theorem contains_eq_true_iff : (c.contains key now).1 = true ↔ ∃ v, (c.get key now).1 = some v := by
  show (c.get key now).1.isSome = true ↔ _
  rw [Option.isSome_iff_exists]

theorem Refines.mem_live_iff (h : Refines c now m) {v : V} {deadline : Seconds} :
    (⟨k, v, deadline⟩ : LruItem String V Seconds) ∈ live now m ↔
      ∃ e, c.store.lookup k = some e ∧ now ≤ e.expiresAt ∧ e.value = v ∧ e.expiresAt = deadline := by
  obtain ⟨es, hes, hm⟩ := h.entries
  rw [hm, List.mem_map]
  constructor
  · rintro ⟨⟨k', e⟩, he, heq⟩
    obtain ⟨hlookup, hlive⟩ := (hes.mem k' e).mp he
    cases heq
    exact ⟨e, hlookup, hlive, rfl, rfl⟩
  · rintro ⟨e, hlookup, hlive, rfl, rfl⟩
    exact ⟨(k, e), (hes.mem k e).mpr ⟨hlookup, hlive⟩, rfl⟩

theorem Refines.unexpired_iff (h : Refines c now m) :
    c.Unexpired now k ↔ k ∈ (live now m).map (·.key) := by
  obtain ⟨es, hes, hm⟩ := h.entries
  rw [hm, map_fst_eq, hes.mem_keys]
  rfl

/-- A new key that finds the cache full of unexpired entries evicts the first. -/
theorem Refines.evicted_iff (h : Refines c now m) {value : V} {expiresAt : Seconds} :
    LruMap.evicted c.maxSize m now (.set key value expiresAt) = some k ↔
      key ∉ c.store ∧ (live now m).length = c.maxSize ∧
        ∃ rest, (live now m).map (·.key) = k :: rest := by
  obtain ⟨es, hes, hm⟩ := h.entries
  have hbounded := h.bounded
  have hle := hes.length_le
  have hlength : (live now m).length = es.length := by rw [hm, List.length_map]
  have hhead : (live now m).head?.map (·.key) = some k ↔
      ∃ rest, (live now m).map (·.key) = k :: rest := by
    cases live now m with
    | nil => simp
    | cons first rest => simp
  rw [LruMap.evicted]
  by_cases hfits : key ∈ (live now m).map (·.key) ∨ (live now m).length < c.maxSize
  · rw [if_pos hfits]
    constructor
    · intro hnone
      cases hnone
    · rintro ⟨hnew, hfull, -⟩
      rcases hfits with hmem | hlt
      · obtain ⟨e, he, -⟩ := h.unexpired_iff.mpr hmem
        exact absurd (mem_keys_iff.mpr ⟨e, he⟩) hnew
      · omega
  · rw [if_neg hfits, hhead]
    rw [not_or] at hfits
    constructor
    · intro hrest
      refine ⟨fun hmem => ?_, by omega, hrest⟩
      obtain ⟨e, he⟩ := mem_keys_iff.mp hmem
      by_cases hlive : now ≤ e.expiresAt
      · exact hfits.1 (h.unexpired_iff.mp ⟨e, he, hlive⟩)
      · have hlt := hes.length_lt he hlive
        omega
    · exact fun hall => hall.2.2

/-- A key that is set leaves of the others only what was there. -/
theorem lookup_of_set {value : V} {ttl : Option Int} (hk : k ≠ key)
    (h : (c.set key now value ttl).store.lookup k = some entry) : c.store.lookup k = some entry := by
  obtain ⟨c₁, hc₁, hset⟩ := set_cases c key now value ttl
  rw [hset] at h
  dsimp only at h
  rw [AList.lookup_insert_ne hk] at h
  rcases hc₁ with ⟨rfl, -⟩ | ⟨-, rfl⟩
  · exact h
  · exact (evictLru_shrinks c now).lookup k entry h

theorem mem_of_unexpired (h : c.Unexpired now k) : k ∈ c.store := by
  obtain ⟨e, he, -⟩ := h
  exact mem_keys_iff.mpr ⟨e, he⟩

/-- An entry that an operation neither ends nor evicts is still there. -/
theorem Refines.unexpired_apply (h : Refines c now m) (hdistinct : LruMap.Distinct m)
    (hpos : 1 ≤ c.maxSize) {call : CacheCall V} (hk : c.Unexpired now k)
    (hends : ¬ LruMap.Ends k (call.op c.defaultTtl now))
    (hevicted : LruMap.evicted c.maxSize m now (call.op c.defaultTtl now) ≠ some k) :
    (c.apply now call).Unexpired now k := by
  obtain ⟨e, he, hlive⟩ := hk
  have hmem := h.mem_live_iff.mpr ⟨e, he, hlive, rfl, rfl⟩
  rw [LruMap.mem_live] at hmem
  have hstep : (⟨k, e.value, e.expiresAt⟩ : LruItem String V Seconds) ∈
      LruMap.step c.maxSize m now (call.op c.defaultTtl now) :=
    (LruMap.mem_step_iff hdistinct).mpr (.inr ⟨hmem.1, hlive, hends, hevicted⟩)
  obtain ⟨e', he', hlive', -⟩ := (h.apply hpos call).mem_live_iff.mp
    (LruMap.mem_live.mpr ⟨hstep, hlive⟩)
  exact ⟨e', he', hlive'⟩

theorem Refines.lost_of_set_iff (h : Refines c now m) (hdistinct : LruMap.Distinct m)
    (hpos : 1 ≤ c.maxSize) {value : V} {ttl : Option Int} (hk : c.Unexpired now k) :
    k ∉ (c.apply now (.set key value ttl)).store ↔
      CacheCall.set key value ttl = .delete k ∨ CacheCall.set key value ttl = .clear ∨
      ∃ key' value' ttl' rest, CacheCall.set key value ttl = .set key' value' ttl' ∧
        key' ∉ c.store ∧ (live now m).length = c.maxSize ∧ (live now m).map (·.key) = k :: rest := by
  have hrhs : (CacheCall.set key value ttl = .delete k ∨ CacheCall.set key value ttl = .clear ∨
      ∃ key' value' ttl' rest, CacheCall.set key value ttl = .set key' value' ttl' ∧
        key' ∉ c.store ∧ (live now m).length = c.maxSize ∧
        (live now m).map (·.key) = k :: rest) ↔
      LruMap.evicted c.maxSize m now ((CacheCall.set key value ttl).op c.defaultTtl now) =
        some k := by
    rw [CacheCall.op, h.evicted_iff]
    constructor
    · rintro (heq | heq | ⟨key', value', ttl', rest, heq, hnew, hfull, hrest⟩)
      · cases heq
      · cases heq
      · cases heq
        exact ⟨hnew, hfull, rest, hrest⟩
    · rintro ⟨hnew, hfull, rest, hrest⟩
      exact .inr (.inr ⟨key, value, ttl, rest, rfl, hnew, hfull, hrest⟩)
  rw [hrhs]
  by_cases hkey : key = k
  · subst hkey
    have hmem : key ∈ (c.apply now (.set key value ttl)).store := by
      obtain ⟨c₁, -, hset⟩ := set_cases c key now value ttl
      show key ∈ (c.set key now value ttl).store
      rw [hset]
      exact AList.mem_insert _ |>.mpr (.inl rfl)
    have hnot : LruMap.evicted c.maxSize m now
        ((CacheCall.set key value ttl).op c.defaultTtl now) ≠ some key := by
      rw [CacheCall.op, Ne, h.evicted_iff]
      exact fun hnew => hnew.1 (mem_of_unexpired hk)
    simp [hmem, hnot]
  · constructor
    · intro hlost
      by_contra hstays
      exact hlost (mem_of_unexpired (h.unexpired_apply hdistinct hpos hk hkey hstays))
    · intro hevicted hmem
      obtain ⟨e, he⟩ := mem_keys_iff.mp hmem
      obtain ⟨e', he', hlive⟩ := hk
      -- what is left of `k` is the entry that was there
      have hsame := lookup_of_set (fun heq => hkey heq.symm) he
      obtain rfl := Option.some.inj (he'.symm.trans hsame)
      have hitem := (h.apply hpos (.set key value ttl)).mem_live_iff.mpr ⟨e', he, hlive, rfl, rfl⟩
      rcases (LruMap.mem_step_iff hdistinct).mp (LruMap.mem_live.mp hitem).1 with heq | hkept
      · exact hkey (LruOp.set.inj heq).1
      · exact hkept.2.2.2 hevicted

/-- What a call takes away before its time was deleted, cleared or evicted. -/
theorem Refines.lost_iff (h : Refines c now m) (hdistinct : LruMap.Distinct m)
    (hpos : 1 ≤ c.maxSize) (call : CacheCall V) (hk : c.Unexpired now k) :
    k ∉ (c.apply now call).store ↔ call = .delete k ∨ call = .clear ∨
      ∃ key value ttl rest, call = .set key value ttl ∧ key ∉ c.store ∧
        (live now m).length = c.maxSize ∧ (live now m).map (·.key) = k :: rest := by
  have hthere := mem_of_unexpired hk
  cases call with
  | get key =>
    have hmem : k ∈ (c.apply now (.get key)).store := by
      apply mem_of_unexpired (h.unexpired_apply hdistinct hpos hk _ _)
      · exact fun hends => hends
      · exact fun hnone => nomatch hnone
    simp [hmem]
  | contains key =>
    have hmem : k ∈ (c.apply now (.contains key)).store := by
      apply mem_of_unexpired (h.unexpired_apply hdistinct hpos hk _ _)
      · exact fun hends => hends
      · exact fun hnone => nomatch hnone
    simp [hmem]
  | delete key =>
    show k ∉ c.store.erase key ↔ _
    rw [AList.mem_erase]
    simp [hthere, eq_comm]
  | clear =>
    have hmem : k ∉ (c.apply now .clear).store := AList.notMem_empty k
    simp [hmem]
  | set key value ttl => exact h.lost_of_set_iff hdistinct hpos hk

/-- The calls from a fresh cache, in the order of the clock: it is a least
recently used map. -/
theorem isLru_after {V : Type} {maxSize : Nat} (hmax : 1 ≤ maxSize) (defaultTtl : Int)
    {calls : List (Seconds × CacheCall V)} {now : Seconds}
    (hclock : (calls.map Prod.fst ++ [now]).Pairwise (· ≤ ·)) :
    IsLru (after ({ maxSize, defaultTtl } : TTLCache V) calls) maxSize
      (history defaultTtl calls) now := by
  obtain ⟨hrefines, hsize, -⟩ := refines_after (V := V) hmax defaultTtl hclock
  generalize after ({ maxSize, defaultTtl } : TTLCache V) calls = c at hrefines hsize
  subst hsize
  have hdistinct := LruMap.distinct_run c.maxSize (history defaultTtl calls)
  have htimes : ∀ op ∈ history defaultTtl calls, op.1 ≤ now := by
    intro op hop
    obtain ⟨call, hcall, rfl⟩ := List.mem_map.mp hop
    obtain ⟨-, -, hnow⟩ := List.pairwise_append.mp hclock
    exact hnow call.1 (List.mem_map_of_mem hcall) now (List.mem_singleton_self now)
  have hget : ∀ k v, (c.get k now).1 = some v ↔ ∃ deadline, now ≤ deadline ∧
      LruMap.LastSet c.maxSize (history defaultTtl calls) k v deadline := by
    intro k v
    rw [get_eq_some_iff]
    constructor
    · rintro ⟨e, he, hlive, rfl⟩
      refine ⟨e.expiresAt, hlive, (LruMap.mem_run_iff htimes hlive).mp ?_⟩
      exact (LruMap.mem_live.mp (hrefines.mem_live_iff.mpr ⟨e, he, hlive, rfl, rfl⟩)).1
    · rintro ⟨deadline, hlive, hset⟩
      have hmem := (LruMap.mem_run_iff htimes hlive).mpr hset
      obtain ⟨e, he, hlive', rfl, -⟩ :=
        hrefines.mem_live_iff.mp (LruMap.mem_live.mpr ⟨hmem, hlive⟩)
      exact ⟨e, he, hlive', rfl⟩
  refine ⟨hrefines.bounded, hget, fun k => ?_, fun k => hrefines.unexpired_iff,
    LruMap.distinct_live hdistinct,
    (LruMap.inOrder_run c.maxSize (history defaultTtl calls)).sublist List.filter_sublist,
    fun call k hk => hrefines.lost_iff hdistinct hmax call hk⟩
  rw [contains_eq_true_iff]
  exact exists_congr fun v => hget k v

/-- Two entries at most: the one that was read last survives the third key. -/
theorem isLru_after_eviction :
    let calls : List (Seconds × CacheCall Nat) :=
      [(0, .set "a" 1 none), (1, .set "b" 2 (some 5)), (2, .get "a"), (3, .set "c" 3 none)]
    let c := after { maxSize := 2, defaultTtl := 10 } calls
    IsLru c 2 (history 10 calls) 4 ∧ (c.get "a" 4).1 = some 1 ∧ (c.get "b" 4).1 = none := by
  refine ⟨isLru_after (by decide) 10 (by decide), ?_, ?_⟩
  · decide +kernel
  · decide +kernel

end TTLCache

end LlmService
