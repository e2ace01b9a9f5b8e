import LlmService.Utils.TTLCache
import Mathlib.Data.Finset.Card
import Mathlib.Data.Finset.Dedup

/-!
# How long the cache remembers a key

Looking a key up and setting it when it is missing is one synchronous step.
The key it takes is found again as long as its time is not over and fewer
than `maxSize` other keys have come since: an entry is only evicted as the
least recently used one, when all others have been used after it.
-/

namespace LlmService

/-- The store after a `replace`. -/
theorem dlookup_kreplace {V : Type} {key k : String} (v : V)
    (l : List (Sigma fun _ : String => V)) :
    (l.kreplace key v).dlookup k =
      if k = key then (l.dlookup key).map fun _ => v else l.dlookup k := by
  induction l with
  | nil => simp [List.kreplace]
  | cons x l ih =>
    obtain ⟨k', v'⟩ := x
    by_cases hkey : key = k'
    · subst hkey
      rw [List.kreplace, List.lookmap_cons_some (b := ⟨key, v⟩) _ _ (by simp)]
      by_cases hk : k = key
      · subst hk
        simp
      · rw [List.dlookup_cons_ne _ _ hk]
        simp [hk, List.dlookup_cons_ne]
    · rw [List.kreplace, List.lookmap_cons_none _ _ (by simp [hkey])]
      rw [List.kreplace] at ih
      by_cases hk : k = k'
      · subst hk
        simp [Ne.symm hkey]
      · rw [List.dlookup_cons_ne _ _ hk, ih, List.dlookup_cons_ne _ _ hkey,
          List.dlookup_cons_ne _ _ hk]

namespace TTLCache

variable {V : Type} {c c' : TTLCache V} {key k : String} {now deadline : Seconds} {value : V}
  {since : Finset String} {entry : CacheEntry V}

/-- `contains`, and `set` when the key is not there. -/
def containsOrSet (c : TTLCache V) (key : String) (now : Seconds) (value : V) :
    Bool × TTLCache V :=
  let (found, c) := c.contains key now
  if found then (true, c) else (false, c.set key now value)

/-! ## Reading and evicting -/

/-- A lookup misses, drops what has expired, or stamps what it has found. -/
theorem contains_cases (c : TTLCache V) (key : String) (now : Seconds) :
    c.store.lookup key = none ∧ c.contains key now = (false, { c with misses := c.misses + 1 }) ∨
    (∃ entry, c.store.lookup key = some entry ∧ entry.expiresAt < now ∧
      c.contains key now = (false,
        { c with
          store := c.store.erase key
          misses := c.misses + 1
          evictions := c.evictions + 1 })) ∨
    ∃ entry, c.store.lookup key = some entry ∧ now ≤ entry.expiresAt ∧
      c.contains key now = (true,
        { c with
          store := c.store.replace key
            { entry with
              accessCount := entry.accessCount + 1
              lastAccessed := now
              accessSeq := c.seq + 1 }
          seq := c.seq + 1
          hits := c.hits + 1 }) := by
  cases hlookup : c.store.lookup key with
  | none =>
    left
    refine ⟨rfl, ?_⟩
    simp only [contains, get, hlookup]
    rfl
  | some entry =>
    right
    by_cases hexpired : entry.expiresAt < now
    · left
      refine ⟨entry, rfl, hexpired, ?_⟩
      simp only [contains, get, hlookup, if_pos hexpired]
      rfl
    · right
      refine ⟨entry, rfl, not_lt.mp hexpired, ?_⟩
      simp only [contains, get, hlookup, if_neg hexpired]
      rfl

/-- Nothing was added to the cache. -/
structure Shrinks (c c' : TTLCache V) : Prop where
  seq_eq : c'.seq = c.seq
  maxSize_eq : c'.maxSize = c.maxSize
  defaultTtl_eq : c'.defaultTtl = c.defaultTtl
  lookup : ∀ k entry, c'.store.lookup k = some entry → c.store.lookup k = some entry

theorem Shrinks.refl (c : TTLCache V) : Shrinks c c := ⟨rfl, rfl, rfl, fun _ _ h => h⟩

theorem Shrinks.trans {c'' : TTLCache V} (h : Shrinks c c') (h' : Shrinks c' c'') :
    Shrinks c c'' :=
  ⟨h'.seq_eq.trans h.seq_eq, h'.maxSize_eq.trans h.maxSize_eq,
    h'.defaultTtl_eq.trans h.defaultTtl_eq,
    fun k entry hentry => h.lookup k entry (h'.lookup k entry hentry)⟩

theorem lookup_of_erase {store : AList fun _ : String => V} {v : V}
    (h : (store.erase key).lookup k = some v) : k ≠ key ∧ store.lookup k = some v := by
  by_cases hk : k = key
  · subst hk
    rw [AList.lookup_erase] at h
    cases h
  · rw [AList.lookup_erase_ne hk] at h
    exact ⟨hk, h⟩

theorem shrinks_erase (c : TTLCache V) (key : String) (misses evictions : Nat) :
    Shrinks c { c with store := c.store.erase key, misses, evictions } :=
  ⟨rfl, rfl, rfl, fun _ _ h => (lookup_of_erase h).2⟩

theorem mem_expiredKeys : k ∈ c.expiredKeys now ↔
    ∃ entry, c.store.lookup k = some entry ∧ entry.expiresAt < now := by
  simp only [expiredKeys, List.mem_map, List.mem_filter, decide_eq_true_eq]
  constructor
  · intro h
    obtain ⟨⟨k, entry⟩, ⟨hmem, hexpired⟩, rfl⟩ := h
    exact ⟨entry, AList.mem_lookup_iff.mpr hmem, hexpired⟩
  · intro h
    obtain ⟨entry, hlookup, hexpired⟩ := h
    exact ⟨⟨k, entry⟩, ⟨AList.mem_lookup_iff.mp hlookup, hexpired⟩, rfl⟩

/-- Erasing keys one by one leaves the entries of all others. -/
theorem foldl_erase (keys : List String) (c : TTLCache V) :
    Shrinks c (keys.foldl
        (fun c key => { c with store := c.store.erase key, evictions := c.evictions + 1 }) c) ∧
      ∀ k, k ∉ keys → (keys.foldl
        (fun c key => { c with store := c.store.erase key, evictions := c.evictions + 1 })
          c).store.lookup k = c.store.lookup k := by
  induction keys generalizing c with
  | nil => exact ⟨.refl c, fun _ _ => rfl⟩
  | cons key keys ih =>
    obtain ⟨hshrinks, hkeeps⟩ :=
      ih { c with store := c.store.erase key, evictions := c.evictions + 1 }
    refine ⟨(shrinks_erase c key _ _).trans hshrinks, ?_⟩
    intro k hk
    rw [List.mem_cons, not_or] at hk
    rw [List.foldl_cons, hkeeps k hk.2]
    exact AList.lookup_erase_ne hk.1

theorem evictExpired_shrinks (c : TTLCache V) (now : Seconds) : Shrinks c (c.evictExpired now) :=
  (foldl_erase _ c).1

theorem evictExpired_keeps (h : c.store.lookup k = some entry) (hnow : now ≤ entry.expiresAt) :
    (c.evictExpired now).store.lookup k = some entry := by
  rw [evictExpired, (foldl_erase _ c).2 k, h]
  intro hmem
  obtain ⟨entry', hentry', hexpired⟩ := mem_expiredKeys.mp hmem
  obtain rfl : entry = entry' := Option.some.inj (h.symm.trans hentry')
  exact absurd hexpired (not_lt.mpr hnow)

/-- The oldest key is that of an entry that was used before all others. -/
theorem oldestKey_eq_some (h : c.oldestKey = some key) :
    ∃ entry, c.store.lookup key = some entry ∧
      ∀ k e, c.store.lookup k = some e → entry.accessSeq ≤ e.accessSeq := by
  obtain ⟨⟨oldest, entry⟩, hmin, rfl⟩ := Option.map_eq_some_iff.mp h
  refine ⟨entry, AList.mem_lookup_iff.mpr (List.argmin_mem hmin), ?_⟩
  intro k e he
  have hle := List.le_of_mem_argmin (AList.mem_lookup_iff.mp he) hmin
  rcases Prod.Lex.toLex_le_toLex.mp hle with hlt | ⟨heq, -⟩
  · exact hlt.le
  · exact heq.le

/-- What `evictLru` removes beyond the expired entries is the least recently used one. -/
theorem evictLru_cases (c : TTLCache V) (now : Seconds) :
    c.evictLru now = c.evictExpired now ∨
      (c.evictExpired now).maxSize ≤ (c.evictExpired now).size ∧
        ∃ oldest entry, (c.evictExpired now).store.lookup oldest = some entry ∧
          (∀ k e, (c.evictExpired now).store.lookup k = some e →
            entry.accessSeq ≤ e.accessSeq) ∧
          c.evictLru now =
            { c.evictExpired now with
              store := (c.evictExpired now).store.erase oldest
              evictions := (c.evictExpired now).evictions + 1 } := by
  unfold evictLru
  generalize c.evictExpired now = c₁
  by_cases hsize : c₁.size < c₁.maxSize
  · exact .inl (if_pos hsize)
  · simp only [if_neg hsize]
    cases holdest : c₁.oldestKey with
    | none => exact .inl rfl
    | some oldest =>
      right
      obtain ⟨entry, hentry, hleast⟩ := oldestKey_eq_some holdest
      exact ⟨not_lt.mp hsize, oldest, entry, hentry, hleast, rfl⟩

theorem evictLru_shrinks (c : TTLCache V) (now : Seconds) : Shrinks c (c.evictLru now) := by
  rcases evictLru_cases c now with h | ⟨-, oldest, _, -, -, h⟩
  · rw [h]
    exact evictExpired_shrinks c now
  · rw [h]
    exact (evictExpired_shrinks c now).trans (shrinks_erase _ oldest _ _)

/-- What `set` does: make room if need be, and put a freshly stamped entry. -/
theorem set_cases (c : TTLCache V) (key : String) (now : Seconds) (value : V)
    (ttl : Option Int := none) :
    ∃ c₁, (c₁ = c ∧ (c.size < c.maxSize ∨ key ∈ c.store) ∨ key ∉ c.store ∧ c₁ = c.evictLru now) ∧
      c.set key now value ttl =
        { c₁ with
          seq := c₁.seq + 1
          store := c₁.store.insert key
            { value, expiresAt := now + (ttl.getD c.defaultTtl : Int), lastAccessed := now
              accessSeq := c₁.seq + 1 } } := by
  by_cases hfull : c.size ≥ c.maxSize ∧ key ∉ c.store
  · refine ⟨c.evictLru now, .inr ⟨hfull.2, rfl⟩, ?_⟩
    simp only [set, if_pos hfull]
  · refine ⟨c, .inl ⟨rfl, ?_⟩, ?_⟩
    · rwa [not_and_or, not_not, ge_iff_le, not_le] at hfull
    · simp only [set, if_neg hfull]

/-! ## Stamps -/

/-- No entry was used after the last use counted. -/
def Stamped (c : TTLCache V) : Prop :=
  ∀ k entry, c.store.lookup k = some entry → entry.accessSeq ≤ c.seq

theorem Stamped.of_shrinks (h : Shrinks c c') (hc : Stamped c) : Stamped c' := by
  intro k entry hentry
  rw [h.seq_eq]
  exact hc k entry (h.lookup k entry hentry)

/-- A new stamp on one key, behind which all others stay. -/
theorem Stamped.stamp (hc : Stamped c) (hseq : c'.seq = c.seq + 1)
    (hkey : ∀ e, c'.store.lookup key = some e → e.accessSeq = c.seq + 1)
    (hrest : ∀ k, k ≠ key → c'.store.lookup k = c.store.lookup k) : Stamped c' := by
  intro k e he
  by_cases hk : k = key
  · subst hk
    rw [hkey e he, hseq]
  · rw [hrest k hk] at he
    have hle := hc k e he
    omega

theorem lookup_replace_self (h : c.store.lookup key = some entry) (e : CacheEntry V) :
    (c.store.replace key e).lookup key = some e := by
  rw [AList.lookup] at h ⊢
  exact (dlookup_kreplace e _).trans (by rw [if_pos rfl, h, Option.map_some])

theorem lookup_replace_ne (hk : k ≠ key) (e : CacheEntry V) :
    (c.store.replace key e).lookup k = c.store.lookup k :=
  (dlookup_kreplace e _).trans (if_neg hk)

theorem contains_stamped (hc : Stamped c) : Stamped (c.contains key now).2 := by
  rcases contains_cases c key now with ⟨-, h⟩ | ⟨entry, -, -, h⟩ | ⟨entry, hentry, -, h⟩
  · rw [h]
    exact hc
  · rw [h]
    exact hc.of_shrinks (shrinks_erase c key _ _)
  · rw [h]
    refine hc.stamp rfl ?_ fun k hk => lookup_replace_ne hk _
    intro e he
    obtain rfl := Option.some.inj ((lookup_replace_self hentry _).symm.trans he)
    rfl

theorem set_stamped (hc : Stamped c) (ttl : Option Int := none) :
    Stamped (c.set key now value ttl) := by
  obtain ⟨c₁, hc₁, hset⟩ := set_cases c key now value ttl
  have hstamped : Stamped c₁ := by
    rcases hc₁ with ⟨rfl, -⟩ | ⟨-, rfl⟩
    · exact hc
    · exact hc.of_shrinks (evictLru_shrinks c now)
  rw [hset]
  refine hstamped.stamp rfl ?_ fun k hk => AList.lookup_insert_ne hk
  intro e he
  obtain rfl := Option.some.inj ((AList.lookup_insert _).symm.trans he)
  rfl

theorem containsOrSet_eq (c : TTLCache V) (key : String) (now : Seconds) (value : V) :
    c.containsOrSet key now value =
      if (c.contains key now).1 then (true, (c.contains key now).2)
      else (false, (c.contains key now).2.set key now value) := rfl

theorem containsOrSet_stamped (hc : Stamped c) : Stamped (c.containsOrSet key now value).2 := by
  rw [containsOrSet_eq]
  split
  · exact contains_stamped hc
  · exact set_stamped (contains_stamped hc)

/-! ## The limits of the cache stay -/

theorem contains_limits (c : TTLCache V) (key : String) (now : Seconds) :
    (c.contains key now).2.maxSize = c.maxSize ∧
      (c.contains key now).2.defaultTtl = c.defaultTtl := by
  rcases contains_cases c key now with ⟨-, h⟩ | ⟨_, -, -, h⟩ | ⟨_, -, -, h⟩ <;> rw [h] <;>
    exact ⟨rfl, rfl⟩

theorem set_limits (c : TTLCache V) (key : String) (now : Seconds) (value : V)
    (ttl : Option Int := none) :
    (c.set key now value ttl).maxSize = c.maxSize ∧
      (c.set key now value ttl).defaultTtl = c.defaultTtl := by
  obtain ⟨c₁, hc₁, hset⟩ := set_cases c key now value ttl
  rw [hset]
  rcases hc₁ with ⟨rfl, -⟩ | ⟨-, rfl⟩
  · exact ⟨rfl, rfl⟩
  · exact ⟨(evictLru_shrinks c now).maxSize_eq, (evictLru_shrinks c now).defaultTtl_eq⟩

theorem containsOrSet_limits (c : TTLCache V) (key : String) (now : Seconds) (value : V) :
    (c.containsOrSet key now value).2.maxSize = c.maxSize ∧
      (c.containsOrSet key now value).2.defaultTtl = c.defaultTtl := by
  obtain ⟨hsize, httl⟩ := contains_limits c key now
  rw [containsOrSet_eq]
  split
  · exact ⟨hsize, httl⟩
  · obtain ⟨hsize', httl'⟩ := set_limits (c.contains key now).2 key now value
    exact ⟨hsize'.trans hsize, httl'.trans httl⟩

/-! ## A key that was taken -/

/-- `key` is there at least until `deadline`, and all entries used after it are
those of the keys in `since`. -/
def Recent (c : TTLCache V) (key : String) (deadline : Seconds) (since : Finset String) : Prop :=
  ∃ entry, c.store.lookup key = some entry ∧ deadline ≤ entry.expiresAt ∧
    ∀ k e, c.store.lookup k = some e → k ≠ key → k ∉ since → e.accessSeq < entry.accessSeq

/-- What has just been set is the entry used last. -/
theorem recent_set (hc : Stamped c) :
    Recent (c.set key now value) key (now + c.defaultTtl) ∅ := by
  obtain ⟨c₁, hc₁, hset⟩ := set_cases c key now value
  have hstamped : Stamped c₁ := by
    rcases hc₁ with ⟨rfl, -⟩ | ⟨-, rfl⟩
    · exact hc
    · exact hc.of_shrinks (evictLru_shrinks c now)
  rw [hset]
  refine ⟨_, AList.lookup_insert _, le_refl _, ?_⟩
  intro k e he hk _
  rw [AList.lookup_insert_ne hk] at he
  exact Nat.lt_succ_of_le (hstamped k e he)

/-- A key that was missing has been taken. -/
theorem recent_of_taken (hc : Stamped c) (h : (c.containsOrSet key now value).1 = false) :
    Recent (c.containsOrSet key now value).2 key (now + c.defaultTtl) ∅ := by
  rw [containsOrSet_eq] at h ⊢
  by_cases hfound : (c.contains key now).1 = true
  · rw [if_pos hfound] at h
    cases h
  · rw [if_neg hfound, ← (contains_limits c key now).2]
    exact recent_set (contains_stamped hc)

namespace Recent

theorem of_shrinks (hc : Recent c key deadline since) (h : Shrinks c c')
    (hkey : ∀ e, c.store.lookup key = some e → deadline ≤ e.expiresAt →
      c'.store.lookup key = some e) : Recent c' key deadline since := by
  obtain ⟨entry, hentry, hdeadline, hlt⟩ := hc
  exact ⟨entry, hkey entry hentry hdeadline, hdeadline,
    fun k e he hk hsince => hlt k e (h.lookup k e he) hk hsince⟩

/-- A change of another key's entry, which counts as used from now on. -/
theorem of_other (hc : Recent c key deadline since) {other : String} (hne : other ≠ key)
    (hrest : ∀ k, k ≠ other → c'.store.lookup k = c.store.lookup k) :
    Recent c' key deadline (insert other since) := by
  obtain ⟨entry, hentry, hdeadline, hlt⟩ := hc
  refine ⟨entry, by rw [hrest key hne.symm, hentry], hdeadline, ?_⟩
  intro k e he hk hsince
  rw [Finset.mem_insert, not_or] at hsince
  rw [hrest k hsince.1] at he
  exact hlt k e he hk hsince.2

theorem contains_other (hc : Recent c key deadline since) {other : String} (hne : other ≠ key) :
    Recent (c.contains other now).2 key deadline (insert other since) := by
  rcases contains_cases c other now with ⟨-, h⟩ | ⟨_, -, -, h⟩ | ⟨_, -, -, h⟩
  · rw [h]
    exact hc.of_other hne fun _ _ => rfl
  · rw [h]
    exact hc.of_other hne fun k hk => AList.lookup_erase_ne hk
  · rw [h]
    exact hc.of_other hne fun k hk => lookup_replace_ne hk _

/-- Making room for a key that is missing spares the recent one: were it the
least recently used, the cache would hold no more than the keys that came since. -/
theorem evictLru (hc : Recent c key deadline since) (hnow : now ≤ deadline) {other : String}
    (hother : other ∈ since) (hmissing : other ∉ c.store) (hcard : since.card < c.maxSize) :
    Recent (c.evictLru now) key deadline since := by
  have hexpired : Recent (c.evictExpired now) key deadline since :=
    hc.of_shrinks (evictExpired_shrinks c now) fun e he hdeadline =>
      evictExpired_keeps he (hnow.trans hdeadline)
  rcases evictLru_cases c now with h | ⟨hfull, oldest, last, hlast, hleast, h⟩
  · rw [h]
    exact hexpired
  · rw [h]
    refine hexpired.of_shrinks (shrinks_erase _ oldest _ _) ?_
    intro e he _
    refine (AList.lookup_erase_ne ?_).trans he
    intro hoccurs
    subst hoccurs
    obtain ⟨entry, hentry, -, hlt⟩ := hexpired
    obtain rfl : last = entry := Option.some.inj (hlast.symm.trans hentry)
    have hsubset : (c.evictExpired now).store.keys.toFinset ⊆
        insert key (since.erase other) := by
      intro k hk
      rw [List.mem_toFinset, ← AList.mem_keys, ← AList.lookup_isSome,
        Option.isSome_iff_exists] at hk
      obtain ⟨e', he'⟩ := hk
      by_cases hkey : k = key
      · exact hkey ▸ Finset.mem_insert_self _ _
      · refine Finset.mem_insert_of_mem (Finset.mem_erase.mpr ⟨?_, ?_⟩)
        · intro hk
          refine hmissing (AList.lookup_isSome.mp ?_)
          rw [← hk, (evictExpired_shrinks c now).lookup k e' he']
          rfl
        · by_contra hsince
          exact absurd (hlt k e' he' hkey hsince) (not_lt.mpr (hleast k e' he'))
    have hsize : (c.evictExpired now).size ≤ (since.erase other).card + 1 := by
      rw [size, ← List.toFinset_card_of_nodup (AList.keys_nodup _)]
      exact (Finset.card_le_card hsubset).trans (Finset.card_insert_le _ _)
    rw [Finset.card_erase_add_one hother] at hsize
    rw [(evictExpired_shrinks c now).maxSize_eq] at hfull
    omega

theorem set_other (hc : Recent c key deadline since) (hnow : now ≤ deadline) {other : String}
    (hne : other ≠ key) (hother : other ∈ since) (hcard : since.card < c.maxSize) :
    Recent (c.set other now value) key deadline since := by
  obtain ⟨c₁, hc₁, hset⟩ := set_cases c other now value
  have hrecent : Recent c₁ key deadline since := by
    rcases hc₁ with ⟨rfl, -⟩ | ⟨hmissing, rfl⟩
    · exact hc
    · exact hc.evictLru hnow hother hmissing hcard
  rw [hset, ← Finset.insert_eq_of_mem hother]
  exact hrecent.of_other hne fun k hk => AList.lookup_insert_ne hk

/-- Another key comes. -/
theorem containsOrSet_other (hc : Recent c key deadline since) (hnow : now ≤ deadline)
    {other : String} (hne : other ≠ key) (hcard : (insert other since).card < c.maxSize) :
    Recent (c.containsOrSet other now value).2 key deadline (insert other since) := by
  have hcontains : Recent (c.contains other now).2 key deadline (insert other since) :=
    hc.contains_other hne
  rw [containsOrSet_eq]
  split
  · exact hcontains
  · refine hcontains.set_other hnow hne (Finset.mem_insert_self _ _) ?_
    rw [(contains_limits c other now).1]
    exact hcard

/-- The key comes again in time, and is found. -/
theorem containsOrSet_self (hc : Recent c key deadline since) (hstamped : Stamped c)
    (hnow : now ≤ deadline) :
    (c.containsOrSet key now value).1 = true ∧
      Recent (c.containsOrSet key now value).2 key deadline since := by
  obtain ⟨entry, hentry, hdeadline, -⟩ := hc
  rcases contains_cases c key now with ⟨hnone, -⟩ | ⟨e, he, hexpired, -⟩ | ⟨e, he, -, h⟩
  · rw [hentry] at hnone
    cases hnone
  · obtain rfl : entry = e := Option.some.inj (hentry.symm.trans he)
    exact absurd (hnow.trans hdeadline) (not_le.mpr hexpired)
  · obtain rfl : entry = e := Option.some.inj (hentry.symm.trans he)
    rw [containsOrSet_eq, h, if_pos rfl]
    refine ⟨rfl, _, lookup_replace_self hentry _, hdeadline, ?_⟩
    intro k e he hk _
    rw [lookup_replace_ne hk] at he
    exact Nat.lt_succ_of_le (hstamped k e he)

end Recent

/-! ## A sequence of keys -/

/-- The cache after keys have come at given times. -/
def afterKeys (c : TTLCache V) (value : V) (uses : List (String × Seconds)) : TTLCache V :=
  uses.foldl (fun c use => (c.containsOrSet use.1 use.2 value).2) c

theorem afterKeys_stamped (hc : Stamped c) (value : V) (uses : List (String × Seconds)) :
    Stamped (c.afterKeys value uses) := by
  induction uses generalizing c with
  | nil => exact hc
  | cons use uses ih => exact ih (containsOrSet_stamped hc)

theorem afterKeys_limits (c : TTLCache V) (value : V) (uses : List (String × Seconds)) :
    (c.afterKeys value uses).maxSize = c.maxSize ∧
      (c.afterKeys value uses).defaultTtl = c.defaultTtl := by
  induction uses generalizing c with
  | nil => exact ⟨rfl, rfl⟩
  | cons use uses ih =>
    obtain ⟨hsize, httl⟩ := containsOrSet_limits c use.1 use.2 value
    obtain ⟨hsize', httl'⟩ := ih (c.containsOrSet use.1 use.2 value).2
    exact ⟨hsize'.trans hsize, httl'.trans httl⟩

/-- A recent key stays there while its time runs, as long as fewer than `maxSize`
other keys have come since. -/
theorem Recent.afterKeys {uses : List (String × Seconds)} (hc : Recent c key deadline since)
    (hstamped : Stamped c) (hnow : ∀ use ∈ uses, use.2 ≤ deadline)
    (hcard : (since ∪ (uses.map Prod.fst).toFinset.erase key).card < c.maxSize) :
    Recent (c.afterKeys value uses) key deadline
      (since ∪ (uses.map Prod.fst).toFinset.erase key) := by
  induction uses generalizing c since with
  | nil =>
    simp only [List.map_nil, List.toFinset_nil, Finset.erase_empty, Finset.union_empty]
    exact hc
  | cons use uses ih =>
    obtain ⟨k, time⟩ := use
    have htime : time ≤ deadline := hnow _ List.mem_cons_self
    have hrest : ∀ use ∈ uses, use.2 ≤ deadline :=
      fun use huse => hnow use (List.mem_cons_of_mem _ huse)
    have hstamped' : Stamped (c.containsOrSet k time value).2 := containsOrSet_stamped hstamped
    have hlimit := (containsOrSet_limits c k time value).1
    rw [List.map_cons, List.toFinset_cons] at hcard ⊢
    by_cases hk : k = key
    · subst hk
      rw [Finset.erase_insert_eq_erase] at hcard ⊢
      exact ih (hc.containsOrSet_self hstamped htime).2 hstamped' hrest (hlimit ▸ hcard)
    · rw [Finset.erase_insert_of_ne hk, Finset.union_insert, ← Finset.insert_union] at hcard ⊢
      refine ih (hc.containsOrSet_other htime hk ?_) hstamped' hrest (hlimit ▸ hcard)
      exact lt_of_le_of_lt (Finset.card_le_card Finset.subset_union_left) hcard

/-- A key that was taken is found again in time, if fewer than `maxSize` other keys
have come in between. -/
theorem containsOrSet_again (uses : List (String × Seconds)) (now' : Seconds) (hc : Stamped c)
    (htaken : (c.containsOrSet key now value).1 = false)
    (hbetween : ∀ use ∈ uses, use.2 ≤ now + c.defaultTtl) (hnow' : now' ≤ now + c.defaultTtl)
    (hcard : ((uses.map Prod.fst).toFinset.erase key).card < c.maxSize) :
    (((c.containsOrSet key now value).2.afterKeys value uses).containsOrSet
      key now' value).1 = true := by
  have hstamped : Stamped (c.containsOrSet key now value).2 := containsOrSet_stamped hc
  have hrecent : Recent ((c.containsOrSet key now value).2.afterKeys value uses) key
      (now + c.defaultTtl) (∅ ∪ (uses.map Prod.fst).toFinset.erase key) := by
    refine (recent_of_taken hc htaken).afterKeys hstamped hbetween ?_
    rw [Finset.empty_union, (containsOrSet_limits c key now value).1]
    exact hcard
  exact (hrecent.containsOrSet_self (afterKeys_stamped hstamped value uses) hnow').1

end TTLCache

end LlmService
