import LlmService.Lib.Provenance
import LlmService.Tools.WebSearch
import LlmService.Utils.LruCache

/-!
# Web searches that share a cache

All the web searches of a service share one cache, and run one command at a
time beside one another. Whatever the cache gives, an earlier search of the
same query found it, no longer ago than the cache keeps it; and what a search
has stored is given again, as long as it is kept and not too many other
searches have come since.
-/

namespace LlmService

open WebSearch Script Runs

/-- What the searches share: the cache, and the clock. -/
structure SearchWorld (V : Type) where
  cache : TTLCache (List (RawResult V))
  now : Seconds

/-- Time passes. -/
inductive SearchEvent where
  | tick (elapsed : Seconds)

namespace SearchWorld

variable {V : Type}

/-- The cache answers its calls, and the environment is asked for the providers' responses. -/
def exec (c : SearchCommand V) (answer : (c : SearchCommand V) → SearchReply V c) (u : SearchWorld V) :
    Option (SearchReply V c × SearchWorld V) :=
  match c with
  | .getCached key =>
    let found := u.cache.get key u.now
    some ((found.1, u.now), { u with cache := found.2 })
  | .gather query maxResults => some (answer (.gather query maxResults), u)
  | .setCached key results => some (u.now, { u with cache := u.cache.set key u.now results })

def disturb : SearchEvent → SearchWorld V → Option (SearchWorld V)
  | .tick elapsed, u => if 0 ≤ elapsed then some { u with now := u.now + elapsed } else none

end SearchWorld

abbrev WebSearches (V : Type) := Pool (SearchWorld V) (SearchScript V ToolResult)

abbrev WebSearchLabel (V : Type) := Pool.Label ((c : SearchCommand V) → SearchReply V c) SearchEvent

namespace TTLCache

variable {V : Type} {c : TTLCache V} {key k : String} {now deadline deadline' : Seconds} {value : V}
  {since since' : Finset String} {entry : CacheEntry V}

theorem Recent.mono (h : Recent c key deadline since) (hdeadline : deadline' ≤ deadline)
    (hsince : since ⊆ since') : Recent c key deadline' since' := by
  obtain ⟨entry, hentry, hexpires, hlt⟩ := h
  exact ⟨entry, hentry, hdeadline.trans hexpires, fun k e he hk hnew => hlt k e he hk fun hmem => hnew (hsince hmem)⟩

/-- A recent key is found as long as its time is not over. -/
theorem Recent.get_self (h : Recent c key deadline since) (hstamped : Stamped c) (hnow : now ≤ deadline) :
    (c.get key now).1.isSome = true ∧ Recent (c.get key now).2 key deadline since := by
  obtain ⟨entry, -⟩ := id h
  have hself : (c.containsOrSet key now entry.value).1 = true ∧
      Recent (c.containsOrSet key now entry.value).2 key deadline since := h.containsOrSet_self hstamped hnow
  obtain ⟨hfound, hrecent⟩ := hself
  rw [containsOrSet_eq] at hfound hrecent
  by_cases hcontains : (c.contains key now).1 = true
  · rw [if_pos hcontains] at hrecent
    exact ⟨hcontains, hrecent⟩
  · rw [if_neg hcontains] at hfound
    cases hfound

/-- A lookup changes no value and no deadline. -/
theorem lookup_get (h : (c.get key now).2.store.lookup k = some entry) :
    ∃ old, c.store.lookup k = some old ∧ entry.value = old.value ∧ entry.expiresAt = old.expiresAt := by
  change (c.contains key now).2.store.lookup k = some entry at h
  rcases contains_cases c key now with ⟨-, hget⟩ | ⟨_, -, -, hget⟩ | ⟨found, hfound, -, hget⟩
  · rw [hget] at h
    exact ⟨entry, h, rfl, rfl⟩
  · rw [hget] at h
    exact ⟨entry, (lookup_of_erase h).2, rfl, rfl⟩
  · rw [hget] at h
    by_cases hk : k = key
    · subst hk
      obtain rfl := Option.some.inj ((lookup_replace_self hfound _).symm.trans h)
      exact ⟨found, hfound, rfl, rfl⟩
    · rw [lookup_replace_ne hk] at h
      exact ⟨entry, h, rfl, rfl⟩

/-- What is there behind a `set` was there before, or was set. -/
theorem lookup_set (h : (c.set key now value).store.lookup k = some entry) :
    c.store.lookup k = some entry ∨
      k = key ∧ entry.value = value ∧ entry.expiresAt = now + (c.defaultTtl : Int) := by
  obtain ⟨c₁, hc₁, hset⟩ := set_cases c key now value
  rw [hset] at h
  by_cases hk : k = key
  · subst hk
    obtain rfl := Option.some.inj ((AList.lookup_insert _).symm.trans h)
    exact .inr ⟨rfl, rfl, rfl⟩
  · left
    have hold : c₁.store.lookup k = some entry := (AList.lookup_insert_ne hk).symm.trans h
    rcases hc₁ with ⟨rfl, -⟩ | ⟨-, rfl⟩
    · exact hold
    · exact (evictLru_shrinks c now).lookup k entry hold

end TTLCache

namespace WebSearches

open WebSearchTool

variable {V : Type}

def step : WebSearches V → WebSearchLabel V → Option (WebSearches V) :=
  Pool.step SearchWorld.exec SearchWorld.disturb

/-- What is performed along a run, with the answers. -/
def performed : WebSearches V → List (WebSearchLabel V) → SearchTrace V :=
  Pool.performed SearchWorld.exec SearchWorld.disturb

/-- What one search performs along a run. -/
def performedBy (i : Nat) : WebSearches V → List (WebSearchLabel V) → SearchTrace V :=
  Pool.performedBy SearchWorld.exec SearchWorld.disturb i

def maxCached : Nat := 1000

/-- The executions of some requests, behind an empty cache. -/
def initial (s : SearchSources V) (ttl : Int) (start : Seconds) (requests : List ToolParams) : WebSearches V where
  shared := { cache := { maxSize := maxCached, defaultTtl := ttl }, now := start }
  scripts := requests.map fun params => WebSearchTool.run s params

/-! ## What a search has heard -/

/-- The providers were asked for the query, and this is left of their responses. -/
def Answered (s : SearchSources V) (past : SearchTrace V) (query : Text) (maxResults : Int)
    (raw : List (RawResult V)) : Prop :=
  ∃ replies, ⟨.gather query maxResults, .ok replies⟩ ∈ past ∧ ¬ NothingAnswered s replies ∧
    deduplicateByDomain s.urls s.values (aggregated s replies) = .ok raw

/-- What is stored is not empty, and is left of the responses to a query of its key. -/
def Justified (s : SearchSources V) (past : SearchTrace V) : SearchCommand V → Prop
  | .setCached key raw => raw ≠ [] ∧ ∃ query n, key = cacheKey s query n ∧ Answered s past query n raw
  | .getCached _ | .gather _ _ => True

variable {s : SearchSources V} {params : ToolParams} {past past' : SearchTrace V} {query : Text} {n : Int}
  {key : String} {raw : List (RawResult V)}

theorem Answered.mono (h : Answered s past query n raw) (hsub : past ⊆ past') : Answered s past' query n raw := by
  obtain ⟨replies, hmem, hrest⟩ := h
  exact ⟨replies, hsub hmem, hrest⟩

theorem Justified.mono {c : SearchCommand V} (h : Justified s past c) (hsub : past ⊆ past') :
    Justified s past' c := by
  cases c with
  | setCached key raw =>
    obtain ⟨hne, query, n, hkey, hanswered⟩ := h
    exact ⟨hne, query, n, hkey, hanswered.mono hsub⟩
  | getCached | gather => trivial

theorem sourced_store (h : raw ≠ [] → Justified s past (.setCached key raw)) :
    (store (V := V) key raw).Sourced (Justified s) past := by
  cases raw with
  | nil => trivial
  | cons r rest => exact ⟨h (List.cons_ne_nil r rest), fun _ => trivial⟩

theorem sourced_conclude {replies : List (ProviderReply V)}
    (h : ⟨.gather query n, .ok replies⟩ ∈ past) :
    (conclude s (cacheKey s query n) replies).Sourced (Justified s) past := by
  rw [conclude]
  by_cases hnothing : NothingAnswered s replies
  · rw [if_pos hnothing]
    trivial
  · rw [if_neg hnothing]
    cases hraw : deduplicateByDomain s.urls s.values (aggregated s replies) with
    | error exc => trivial
    | ok raw =>
      refine (sourced_store fun hne => ?_).bind fun _ _ _ => trivial
      exact ⟨hne, query, n, rfl, replies, h, hnothing, hraw⟩

theorem sourced_search : (search s query n).Sourced (Justified s) past := by
  refine sourced_command_bind trivial fun cached => ?_
  obtain ⟨found, now⟩ := cached
  cases found with
  | some results => trivial
  | none =>
    refine sourced_command_bind trivial fun gathered => ?_
    cases gathered with
    | error raised => trivial
    | ok replies => exact sourced_conclude (List.mem_append_right _ (List.mem_singleton_self _))

theorem sourced_run : (WebSearchTool.run s params).Sourced (Justified s) past := by
  rw [WebSearchTool.run]
  by_cases hvalid : (!(validateParams params).valid) = true
  · simp only [if_pos hvalid]
    trivial
  · simp only [if_neg hvalid]
    refine Sourced.handle ?_ fun u raised _ => ?_
    · rw [execute]
      cases maxResults s params with
      | error exc => trivial
      | ok n => exact sourced_search
    · cases raised with
      | cancelled => trivial
      | exception exc =>
        rw [afterRaise]
        split <;> trivial

/-! ## What the cache has heard -/

/-- The key of a call of the cache. -/
def keyOf : SearchCommand V → Option String
  | .getCached key | .setCached key _ => some key
  | .gather _ _ => none

/-- The keys other than `key` that the cache was called with. -/
def otherKeys (key : String) (t : SearchTrace V) : Finset String :=
  (t.filterMap fun step => keyOf step.1).toFinset.erase key

/-- What the cache holds was stored, and a key that was stored is recent as long as it is to be kept and
there is room for all that came since. -/
structure Holds (ttl : Int) (past : SearchTrace V) (u : SearchWorld V) : Prop where
  maxSize_eq : u.cache.maxSize = maxCached
  ttl_eq : u.cache.defaultTtl = ttl
  stamped : u.cache.Stamped
  clock : ∀ key raw storedAt, ⟨.setCached key raw, storedAt⟩ ∈ past → storedAt ≤ u.now
  entries : ∀ key entry, u.cache.store.lookup key = some entry →
    ∃ storedAt : Seconds, ⟨.setCached key entry.value, storedAt⟩ ∈ past ∧ entry.expiresAt = storedAt + ttl
  recent : ∀ before key raw (storedAt : Seconds) since,
    past = before ++ ⟨.setCached key raw, storedAt⟩ :: since → u.now ≤ storedAt + ttl →
      (otherKeys key since).card < maxCached → u.cache.Recent key (storedAt + ttl) (otherKeys key since)

/-- What is performed is justified by what was performed before; and the cache gives what was stored, and
gives it as long as it is kept. -/
def Grounded (s : SearchSources V) (ttl : Int) (past : SearchTrace V) : (Σ c, SearchReply V c) → Prop
  | ⟨.getCached key, (found, readAt)⟩ =>
    (∀ raw, found = some raw → ∃ storedAt : Seconds, ⟨.setCached key raw, storedAt⟩ ∈ past ∧ readAt ≤ storedAt + ttl) ∧
      ∀ before raw (storedAt : Seconds) since, past = before ++ ⟨.setCached key raw, storedAt⟩ :: since →
        readAt ≤ storedAt + ttl → (otherKeys key since).card < maxCached → found.isSome = true
  | ⟨c, _⟩ => Justified s past c

variable {ttl : Int} {u v : SearchWorld V} {k : String} {since : SearchTrace V} {x : Σ c, SearchReply V c}

theorem otherKeys_concat_self (h : keyOf x.1 = some key) : otherKeys key (since ++ [x]) = otherKeys key since := by
  unfold otherKeys
  ext other
  simp [h]

theorem otherKeys_concat_other (h : keyOf x.1 = some k) (hk : k ≠ key) :
    otherKeys key (since ++ [x]) = insert k (otherKeys key since) := by
  unfold otherKeys
  ext other
  simp only [List.filterMap_append, List.toFinset_append, Finset.mem_erase, Finset.mem_union, List.mem_toFinset,
    List.filterMap_cons, List.filterMap_nil, h, List.mem_singleton, Finset.mem_insert]
  by_cases hother : other = k
  · subst hother
    simp [hk]
  · simp [hother]

theorem otherKeys_concat_gather (h : keyOf x.1 = none) : otherKeys key (since ++ [x]) = otherKeys key since := by
  unfold otherKeys
  ext other
  simp [h]

/-- A call that is no `set` leaves what is kept, if it does so for a `key` that is its own or another's. -/
theorem Holds.recent_concat (h : Holds ttl past u) {c' : TTLCache (List (RawResult V))}
    (hx : ∀ key raw (storedAt : Seconds), x ≠ ⟨.setCached key raw, storedAt⟩)
    (hself : ∀ key deadline since, keyOf x.1 = some key → u.now ≤ deadline →
      u.cache.Recent key deadline since → c'.Recent key deadline since)
    (hother : ∀ k key deadline since, keyOf x.1 = some k → k ≠ key → u.cache.Recent key deadline since →
      c'.Recent key deadline (insert k since))
    (hnone : keyOf x.1 = none → c' = u.cache) {before : SearchTrace V} {storedAt : Seconds}
    (hsplit : past ++ [x] = before ++ ⟨.setCached key raw, storedAt⟩ :: since) (hnow : u.now ≤ storedAt + ttl)
    (hcard : (otherKeys key since).card < maxCached) : c'.Recent key (storedAt + ttl) (otherKeys key since) := by
  rcases concat_eq_append_cons hsplit with ⟨-, hset, -⟩ | ⟨rest, rfl, hpast⟩
  · exact absurd hset (hx key raw storedAt)
  · cases hkey : keyOf x.1 with
    | none =>
      rw [otherKeys_concat_gather hkey] at hcard ⊢
      rw [hnone hkey]
      exact h.recent before key raw storedAt rest hpast hnow hcard
    | some k =>
      by_cases hk : k = key
      · subst hk
        rw [otherKeys_concat_self hkey] at hcard ⊢
        exact hself k _ _ hkey hnow (h.recent before k raw storedAt rest hpast hnow hcard)
      · rw [otherKeys_concat_other hkey hk] at hcard ⊢
        have hless := (Finset.card_le_card (Finset.subset_insert k (otherKeys key rest))).trans_lt hcard
        exact hother k key _ _ hkey hk (h.recent before key raw storedAt rest hpast hnow hless)

/-- A call that is no `set` is heard of as it is. -/
theorem mem_concat_iff (hx : ∀ key raw (storedAt : Seconds), x ≠ ⟨.setCached key raw, storedAt⟩)
    {storedAt : Seconds} : (⟨.setCached key raw, storedAt⟩ : Σ c, SearchReply V c) ∈ past ++ [x] ↔
      ⟨.setCached key raw, storedAt⟩ ∈ past := by
  rw [List.mem_append, List.mem_singleton, or_iff_left]
  exact fun heq => hx key raw storedAt heq.symm

/-- A call that is no `set` leaves everything that is known, if what it leaves in the cache was there before. -/
theorem Holds.concat (h : Holds ttl past u) {c' : TTLCache (List (RawResult V))}
    (hx : ∀ key raw (storedAt : Seconds), x ≠ ⟨.setCached key raw, storedAt⟩)
    (hlimits : c'.maxSize = u.cache.maxSize ∧ c'.defaultTtl = u.cache.defaultTtl) (hstamped : c'.Stamped)
    (hentries : ∀ k entry, c'.store.lookup k = some entry → ∃ old, u.cache.store.lookup k = some old ∧
      entry.value = old.value ∧ entry.expiresAt = old.expiresAt)
    (hself : ∀ key deadline since, keyOf x.1 = some key → u.now ≤ deadline →
      u.cache.Recent key deadline since → c'.Recent key deadline since)
    (hother : ∀ k key deadline since, keyOf x.1 = some k → k ≠ key → u.cache.Recent key deadline since →
      c'.Recent key deadline (insert k since))
    (hnone : keyOf x.1 = none → c' = u.cache) : Holds ttl (past ++ [x]) { u with cache := c' } := by
  refine ⟨hlimits.1.trans h.maxSize_eq, hlimits.2.trans h.ttl_eq, hstamped, ?_, ?_, ?_⟩
  · intro k raw storedAt hmem
    exact h.clock k raw storedAt ((mem_concat_iff hx).mp hmem)
  · intro k entry hentry
    obtain ⟨old, hold, hvalue, hexpires⟩ := hentries k entry hentry
    obtain ⟨storedAt, hmem, hdeadline⟩ := h.entries k old hold
    rw [hvalue, hexpires]
    exact ⟨storedAt, (mem_concat_iff hx).mpr hmem, hdeadline⟩
  · intro before k raw storedAt since hsplit hnow hcard
    exact h.recent_concat hx hself hother hnone hsplit hnow hcard

theorem Holds.gather (h : Holds ttl past u) (query : Text) (n : Int)
    (reply : Except PyRaise (List (ProviderReply V))) : Holds ttl (past ++ [⟨.gather query n, reply⟩]) u := by
  -- the providers are asked past the cache: there is no key to be another's or its own
  refine h.concat (fun _ _ _ heq => by cases heq) ⟨rfl, rfl⟩ h.stamped ?_ (fun _ _ _ hkey => nomatch hkey)
    (fun _ _ _ _ hkey => nomatch hkey) (fun _ => rfl)
  intro k entry hentry
  exact ⟨entry, hentry, rfl, rfl⟩

theorem Holds.getCached (h : Holds ttl past u) (key : String) :
    Holds ttl (past ++ [⟨.getCached key, ((u.cache.get key u.now).1, u.now)⟩])
      { u with cache := (u.cache.get key u.now).2 } := by
  refine h.concat (fun _ _ _ heq => by cases heq) (TTLCache.contains_limits u.cache key u.now)
    (TTLCache.contains_stamped h.stamped) (fun k entry hentry => TTLCache.lookup_get hentry) ?_ ?_
    (fun hkey => nomatch hkey)
  · intro k deadline since hkey hdeadline hrecent
    obtain rfl := Option.some.inj hkey
    exact (hrecent.get_self h.stamped hdeadline).2
  · intro k other deadline since hkey hne hrecent
    obtain rfl := Option.some.inj hkey
    exact hrecent.contains_other hne

theorem Holds.setCached (h : Holds ttl past u) (key : String) (raw : List (RawResult V)) :
    Holds ttl (past ++ [⟨.setCached key raw, u.now⟩]) { u with cache := u.cache.set key u.now raw } := by
  have hlimits := TTLCache.set_limits u.cache key u.now raw
  have hsub : past ⊆ past ++ [⟨.setCached key raw, u.now⟩] := List.subset_append_left _ _
  refine ⟨hlimits.1.trans h.maxSize_eq, hlimits.2.trans h.ttl_eq, TTLCache.set_stamped h.stamped, ?_, ?_, ?_⟩
  · intro k raw' storedAt hmem
    rcases List.mem_append.mp hmem with hold | hnew
    · exact h.clock k raw' storedAt hold
    · cases List.mem_singleton.mp hnew
      exact le_refl u.now
  · intro k entry hentry
    rcases TTLCache.lookup_set hentry with hold | ⟨rfl, hvalue, hexpires⟩
    · obtain ⟨storedAt, hmem, hdeadline⟩ := h.entries k entry hold
      exact ⟨storedAt, hsub hmem, hdeadline⟩
    · refine ⟨u.now, ?_, ?_⟩
      · rw [hvalue]
        exact List.mem_append_right _ (List.mem_singleton_self _)
      · rw [hexpires, h.ttl_eq]
  · intro before k raw' storedAt since hsplit hnow hcard
    have hset : (u.cache.set key u.now raw).Recent key (u.now + ttl) ∅ := by
      rw [← h.ttl_eq]
      exact TTLCache.recent_set h.stamped
    rcases concat_eq_append_cons hsplit with ⟨-, hcalls, rfl⟩ | ⟨rest, rfl, hpast⟩
    · cases hcalls
      exact hset
    · have hkey : keyOf (V := V) (.setCached key raw) = some key := rfl
      have hearlier : storedAt ≤ u.now := by
        refine h.clock k raw' storedAt ?_
        rw [hpast]
        exact List.mem_append_right _ List.mem_cons_self
      -- a key that is set anew starts anew; another one may have made room, but not by the one that is recent
      by_cases hk : key = k
      · subst hk
        exact hset.mono (by linarith) (Finset.empty_subset _)
      · rw [otherKeys_concat_other hkey hk] at hcard ⊢
        have hless := (Finset.card_le_card (Finset.subset_insert key (otherKeys k rest))).trans_lt hcard
        have hrecent := h.recent before k raw' storedAt rest hpast hnow hless
        refine (hrecent.mono le_rfl (Finset.subset_insert key _)).set_other hnow hk (Finset.mem_insert_self _ _) ?_
        rw [h.maxSize_eq]
        exact hcard

/-- Each command is grounded in the past, and the cache hears of it. -/
theorem grounded_exec (past mine : SearchTrace V) (c : SearchCommand V)
    (answer : (c : SearchCommand V) → SearchReply V c) (u : SearchWorld V) (r : SearchReply V c) (v : SearchWorld V)
    (h : Holds ttl past u) (hmine : mine.Sublist past) (hjustified : Justified s mine c)
    (hexec : SearchWorld.exec c answer u = some (r, v)) :
    Grounded s ttl past ⟨c, r⟩ ∧ Holds ttl (past ++ [⟨c, r⟩]) v := by
  cases c with
  | getCached key =>
    obtain ⟨rfl, rfl⟩ := Prod.mk.inj (Option.some.inj hexec)
    refine ⟨⟨?_, ?_⟩, h.getCached key⟩
    · intro raw hfound
      obtain ⟨entry, hentry, hlive, rfl⟩ := TTLCache.get_eq_some_iff.mp hfound
      obtain ⟨storedAt, hmem, hexpires⟩ := h.entries key entry hentry
      exact ⟨storedAt, hmem, hexpires ▸ hlive⟩
    · intro before raw storedAt since hpast hnow hcard
      exact ((h.recent before key raw storedAt since hpast hnow hcard).get_self h.stamped hnow).1
  | gather query n =>
    obtain ⟨rfl, rfl⟩ := Prod.mk.inj (Option.some.inj hexec)
    exact ⟨trivial, h.gather query n _⟩
  | setCached key raw =>
    obtain ⟨rfl, rfl⟩ := Prod.mk.inj (Option.some.inj hexec)
    exact ⟨hjustified.mono hmine.subset, h.setCached key raw⟩

theorem holds_disturb (past : SearchTrace V) (e : SearchEvent) (u v : SearchWorld V) (h : Holds ttl past u)
    (hdisturb : SearchWorld.disturb e u = some v) : Holds ttl past v := by
  cases e with
  | tick elapsed =>
    rw [SearchWorld.disturb] at hdisturb
    split at hdisturb
    · rename_i helapsed
      obtain rfl := Option.some.inj hdisturb
      refine ⟨h.maxSize_eq, h.ttl_eq, h.stamped, ?_, h.entries, ?_⟩
      · intro key raw storedAt hmem
        have hclock := h.clock key raw storedAt hmem
        show storedAt ≤ u.now + elapsed
        linarith
      · intro before key raw storedAt since hpast hnow hcard
        have hlater : u.now + elapsed ≤ storedAt + ttl := hnow
        exact h.recent before key raw storedAt since hpast (by linarith) hcard
    · cases hdisturb

section Runs

variable {start : Seconds} {requests : List ToolParams} {l : List (WebSearchLabel V)} {pool : WebSearches V}

/-- Everything that is performed along a run is grounded in what was performed before. -/
theorem grounded_run (h : run step (initial s ttl start requests) l = some pool) :
    Vouched (Grounded s ttl) (performed (initial s ttl start requests) l) := by
  -- nothing was performed yet, and the cache is empty
  have hremembers : Pool.Remembers (Justified s) (Holds ttl) [] (initial s ttl start requests) := by
    refine ⟨?_, rfl, rfl, ?_, ?_, ?_, ?_⟩
    · intro i p hp
      obtain ⟨params, -, rfl⟩ := List.mem_map.mp (List.mem_of_getElem? hp)
      exact ⟨[], List.Sublist.refl _, sourced_run⟩
    · intro key entry hentry
      cases hentry
    · intro key raw storedAt hmem
      cases hmem
    · intro key entry hentry
      cases hentry
    · intro before key raw storedAt since hpast
      cases before with
      | nil => cases hpast
      | cons x before => cases hpast
  exact (hremembers.vouched grounded_exec holds_disturb vouched_nil h).2

/-- What the cache gives was found by an earlier search of the same query, up to case, and not longer ago than
the cache keeps it. -/
theorem cached_found {before after : SearchTrace V} {readAt : Seconds}
    (h : run step (initial s ttl start requests) l = some pool)
    (hsplit : performed (initial s ttl start requests) l =
      before ++ ⟨.getCached (cacheKey s query n), (some raw, readAt)⟩ :: after) :
    raw ≠ [] ∧ ∃ query' storedAt, s.urls.lower query' = s.urls.lower query ∧ Answered s before query' n raw ∧
      ⟨.setCached (cacheKey s query n) raw, storedAt⟩ ∈ before ∧ readAt ≤ storedAt + ttl := by
  have hvouched := grounded_run h
  obtain ⟨storedAt, hstored, hlive⟩ := (hvouched _ _ _ hsplit).1 raw rfl
  -- from the cache's answer back to the store, and from there to the providers' responses
  obtain ⟨b₁, b₂, rfl⟩ := List.append_of_mem hstored
  obtain ⟨hne, query', n', hkey, hanswered⟩ := hvouched b₁ _ _ (by rw [hsplit, List.append_assoc, List.cons_append])
  obtain ⟨hquery, rfl⟩ := cacheKey_inj.mp hkey
  exact ⟨hne, query', storedAt, hquery.symm, hanswered.mono (List.subset_append_left _ _), hstored, hlive⟩

/-- In any run of any searches, however they are interleaved, a search that succeeds gives what is left of the
responses to itself, or to an earlier search of the same query up to case, not longer ago than the cache keeps
it; in either case no URL comes twice, and no domain more often than it may. -/
theorem served (hurls : s.urls.Lawful) (h : run step (initial s ttl start requests) l = some pool) {i : Nat}
    {result : ToolResult} (hparams : requests[i]? = some params) (hresult : pool.scripts[i]? = some (.pure result))
    (hsuccess : result.success = true) :
    ∃ n raw, maxResults s params = .ok n ∧ result = normalizeWebSearch s raw ∧
      (raw.map (urlText s.values)).Nodup ∧
      (∀ domain, (domains s.urls s.values raw).count domain ≤ maxResultsPerDomain) ∧
      (Answered s (performedBy i (initial s ttl start requests) l) (WebSearchTool.query s params) n raw ∨
        ∃ before after query', ∃ readAt storedAt : Seconds,
          ⟨.getCached (cacheKey s (WebSearchTool.query s params) n), (some raw, readAt)⟩ ∈
            performedBy i (initial s ttl start requests) l ∧
          performed (initial s ttl start requests) l = before ++
            ⟨.getCached (cacheKey s (WebSearchTool.query s params) n), (some raw, readAt)⟩ :: after ∧ raw ≠ [] ∧
          s.urls.lower query' = s.urls.lower (WebSearchTool.query s params) ∧ Answered s before query' n raw ∧
          ⟨.setCached (cacheKey s (WebSearchTool.query s params) n) raw, storedAt⟩ ∈ before ∧
          readAt ≤ storedAt + ttl) := by
  have hscript : (initial s ttl start requests).scripts[i]? = some (WebSearchTool.run s params) := by
    show (requests.map _)[i]? = _
    rw [List.getElem?_map, hparams, Option.map_some]
  have htrace := Pool.trace_of_returned h hscript hresult
  obtain ⟨n, hn, hsearch⟩ := trace_run htrace hsuccess
  have hkept : ∀ {past query raw}, Answered s past query n raw → (raw.map (urlText s.values)).Nodup ∧
      ∀ domain, (domains s.urls s.values raw).count domain ≤ maxResultsPerDomain := by
    intro past query raw hanswered
    obtain ⟨replies, -, -, hraw⟩ := hanswered
    obtain rfl := eq_sift_of_ok hurls hraw
    exact sift_pick _
  rcases trace_search hsearch with ⟨raw, readAt, hread, rfl⟩ | ⟨replies, u, hgather, hconclude⟩
  · -- what this search was answered is a part of what the run performed
    obtain ⟨before, after, hsplit⟩ := List.append_of_mem ((Pool.performedBy_sublist _ _).subset hread)
    obtain ⟨hne, query', storedAt, hquery, hanswered, hstored, hlive⟩ := cached_found h hsplit
    obtain ⟨hnodup, hdomains⟩ := hkept hanswered
    exact ⟨n, raw, hn, rfl, hnodup, hdomains, .inr ⟨before, after, query', readAt, storedAt, hread, hsplit,
      hne, hquery, hanswered, hstored, hlive⟩⟩
  · rcases trace_conclude hconclude with rfl | ⟨hanswer, raw, hraw, rfl⟩
    · cases hsuccess
    · have hanswered : Answered s (performedBy i (initial s ttl start requests) l)
          (WebSearchTool.query s params) n raw := ⟨replies, hgather, hanswer, hraw⟩
      obtain ⟨hnodup, hdomains⟩ := hkept hanswered
      exact ⟨n, raw, hn, rfl, hnodup, hdomains, .inl hanswered⟩

end Runs

/-- Two sources, of which one fails. -/
def plainSources : SearchSources Text where
  urls := asciiUrlData
  values := textValues
  truthy := fun text => text ≠ []
  providers := ["wikipedia", "arxiv"]
  str := fun _ => []
  int := fun _ => .error { cls := .other "TypeError" }

def searchFor (query : String) : ToolParams where
  toolName := "web_search"
  params := AList.insert "query" (.string query) ∅

def onePage : (c : SearchCommand Text) → SearchReply Text c
  | .getCached _ => (none, 0)
  | .gather _ _ => .ok [.found [page "http://a/x".toList], .failed]
  | .setCached _ _ => 0

/-- One query twice, written in two ways. -/
def twoQueries : List ToolParams := [searchFor "Lean 4", searchFor "lean  4"]

def twoSearches : WebSearches Text := initial plainSources 60 0 twoQueries

def twoSearchesLabels : List (WebSearchLabel Text) :=
  List.replicate 3 (.work 0 onePage) ++ [.other (.tick 5), .work 1 onePage]

/-- What the second search has come to. -/
def secondResult : Option ToolResult :=
  match (run step twoSearches twoSearchesLabels).bind fun pool => pool.scripts[1]? with
  | some (Script.pure result) => some result
  | some (.raise _) | some (.call _ _) | none => none

theorem served_twoSearches : ∃ result, secondResult = some result ∧
    ∃ n raw, maxResults plainSources (searchFor "lean  4") = .ok n ∧ result = normalizeWebSearch plainSources raw ∧
      (raw.map (urlText plainSources.values)).Nodup ∧
      (∀ domain, (domains plainSources.urls plainSources.values raw).count domain ≤ maxResultsPerDomain) ∧
      (Answered plainSources (performedBy 1 twoSearches twoSearchesLabels)
          (WebSearchTool.query plainSources (searchFor "lean  4")) n raw ∨
        ∃ before after query', ∃ readAt storedAt : Seconds,
          ⟨.getCached (cacheKey plainSources (WebSearchTool.query plainSources (searchFor "lean  4")) n),
            (some raw, readAt)⟩ ∈ performedBy 1 twoSearches twoSearchesLabels ∧
          performed twoSearches twoSearchesLabels = before ++
            ⟨.getCached (cacheKey plainSources (WebSearchTool.query plainSources (searchFor "lean  4")) n),
              (some raw, readAt)⟩ :: after ∧ raw ≠ [] ∧
          plainSources.urls.lower query' =
            plainSources.urls.lower (WebSearchTool.query plainSources (searchFor "lean  4")) ∧
          Answered plainSources before query' n raw ∧
          ⟨.setCached (cacheKey plainSources (WebSearchTool.query plainSources (searchFor "lean  4")) n) raw,
            storedAt⟩ ∈ before ∧ readAt ≤ storedAt + (60 : Int)) := by
  have hsucceeds : secondResult.map ToolResult.success = some true := by decide +kernel
  obtain ⟨result, hresult, hsuccess⟩ := Option.map_eq_some_iff.mp hsucceeds
  refine ⟨result, hresult, ?_⟩
  unfold secondResult at hresult
  split at hresult
  · rename_i returned hreturned
    obtain rfl := Option.some.inj hresult
    obtain ⟨pool, hpool, hscript⟩ := Option.bind_eq_some_iff.mp hreturned
    exact served asciiUrlData_lawful hpool (i := 1) rfl hscript hsuccess
  all_goals cases hresult

section Runs

variable {start : Seconds} {requests : List ToolParams} {l : List (WebSearchLabel V)} {pool : WebSearches V}

/-- In any run, what a search has stored spares the later ones: a search of the same key is answered by the
cache as long as it is kept and fewer other keys than the cache has room for were asked for since. -/
theorem spared {before since after : SearchTrace V} {stored : List (RawResult V)}
    {found : Option (List (RawResult V))} {storedAt readAt : Seconds}
    (h : run step (initial s ttl start requests) l = some pool)
    (hsplit : performed (initial s ttl start requests) l =
      before ++ ⟨.setCached (cacheKey s query n) stored, storedAt⟩ :: since ++
        ⟨.getCached (cacheKey s query n), (found, readAt)⟩ :: after)
    (hlive : readAt ≤ storedAt + ttl) (hroom : (otherKeys (cacheKey s query n) since).card < maxCached) :
    ∃ raw, found = some raw ∧ raw ≠ [] ∧ ∃ query', s.urls.lower query' = s.urls.lower query ∧
      Answered s (performed (initial s ttl start requests) l) query' n raw := by
  have hfound := (grounded_run h _ _ _ hsplit).2 before stored storedAt since rfl hlive hroom
  obtain ⟨raw, rfl⟩ := Option.isSome_iff_exists.mp hfound
  obtain ⟨hne, query', -, hquery, hanswered, -⟩ := cached_found h hsplit
  refine ⟨raw, rfl, hne, query', hquery, hanswered.mono ?_⟩
  rw [hsplit]
  exact List.subset_append_left _ _

end Runs

/-- What both searches are stored under. -/
def leanKey : String := cacheKey plainSources "Lean 4".toList 5

/-- What is left of the responses to the first. -/
def leanPages : List (RawResult Text) :=
  [withUrl textValues (withSource plainSources "wikipedia" (page "http://a/x".toList)) "http://a/x".toList]

theorem spared_twoSearches : ∃ raw, some leanPages = some raw ∧ raw ≠ [] ∧
    ∃ query', plainSources.urls.lower query' = plainSources.urls.lower "Lean 4".toList ∧
      Answered plainSources (performed twoSearches twoSearchesLabels) query' 5 raw := by
  have hruns : (run step twoSearches twoSearchesLabels).isSome = true := by decide +kernel
  obtain ⟨pool, hpool⟩ := Option.isSome_iff_exists.mp hruns
  have hsplit : performed twoSearches twoSearchesLabels =
      [⟨.getCached leanKey, (none, 0)⟩, ⟨.gather "Lean 4".toList 5, onePage (.gather "Lean 4".toList 5)⟩] ++
        ⟨.setCached leanKey leanPages, 0⟩ :: [] ++ ⟨.getCached leanKey, (some leanPages, 5)⟩ :: [] := by
    with_unfolding_all rfl
  exact spared hpool hsplit (by norm_num) (by decide)

end WebSearches

end LlmService
