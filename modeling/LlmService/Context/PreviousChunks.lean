import LlmService.Basic
import LlmService.Lib.LatestWrites

/-!
# PreviousChunkStore

`context/previous_chunks.py`. The ordered dictionary is the list of its
entries, the one recorded longest ago first. `get_eq_iff` says of any history
of calls which ids are found: those recorded last for the conversation, unless
their time is over or too many other conversations were recorded since.
-/

namespace LlmService

/-- `list(dict.fromkeys(i for i in chunk_ids if i))[: max_ids]`. -/
def firstIds (maxIds : Nat) (chunkIds : List String) : List String :=
  (chunkIds.filter (· ≠ "")).eraseDups.take maxIds

theorem nodup_eraseDups {α : Type} [DecidableEq α] (l : List α) : l.eraseDups.Nodup := by
  induction hn : l.length using Nat.strong_induction_on generalizing l with
  | _ n ih =>
    cases l with
    | nil => exact List.nodup_nil
    | cons a l =>
      rw [List.eraseDups_cons, List.nodup_cons]
      constructor
      · simp
      · refine ih _ ?_ _ rfl
        rw [← hn, List.length_cons]
        exact Nat.lt_succ_of_le (List.length_filter_le _ _)

section FirstIds

variable {maxIds : Nat} {chunkIds : List String} {id : String}

theorem nodup_firstIds : (firstIds maxIds chunkIds).Nodup :=
  (nodup_eraseDups _).sublist (List.take_sublist _ _)

theorem length_firstIds_le : (firstIds maxIds chunkIds).length ≤ maxIds := List.length_take_le _ _

theorem mem_of_mem_firstIds (h : id ∈ firstIds maxIds chunkIds) : id ∈ chunkIds ∧ id ≠ "" := by
  have hmem := List.mem_of_mem_take h
  rw [List.mem_eraseDups, List.mem_filter] at hmem
  exact ⟨hmem.1, of_decide_eq_true hmem.2⟩

end FirstIds

/-- An entry of `_items`. -/
structure RecordedTurn where
  conversationId : String
  recordedAt : Seconds
  ids : List String

theorem RecordedTurn.distinct_nil :
    (([] : List RecordedTurn).map (·.conversationId)).Nodup := List.nodup_nil

structure PreviousChunkStore where
  ttl : Seconds := 3600
  maxConversations : Nat := 2000
  maxIds : Nat := 20
  items : List RecordedTurn := []
  distinct : (items.map (·.conversationId)).Nodup := by exact RecordedTurn.distinct_nil
  bounded : items.length ≤ maxConversations := by exact Nat.zero_le _

namespace PreviousChunkStore

/-- The entries of the other conversations. -/
def others (conversationId : String) (items : List RecordedTurn) : List RecordedTurn :=
  items.filter fun turn => turn.conversationId ≠ conversationId

/-- The loop of `record` that pops the first entry while there are too many. -/
def popFirst (max : Nat) (items : List RecordedTurn) : List RecordedTurn :=
  items.drop (items.length - max)

variable (s : PreviousChunkStore) (conversationId : String) (now : Seconds)

theorem distinct_others : ((others conversationId s.items).map (·.conversationId)).Nodup :=
  s.distinct.sublist (List.filter_sublist.map _)

theorem bounded_others : (others conversationId s.items).length ≤ s.maxConversations :=
  (List.length_filter_le _ _).trans s.bounded

theorem distinct_record (max : Nat) (turn : RecordedTurn) :
    ((popFirst max (others turn.conversationId s.items ++ [turn])).map (·.conversationId)).Nodup := by
  refine List.Nodup.sublist ((List.drop_sublist _ _).map _) ?_
  rw [List.map_append, List.nodup_append]
  refine ⟨s.distinct_others _, List.nodup_singleton _, ?_⟩
  intro a ha b hb heq
  obtain ⟨other, hother, rfl⟩ := List.mem_map.mp ha
  rw [List.map_singleton, List.mem_singleton] at hb
  exact of_decide_eq_true (List.mem_filter.mp hother).2 (heq.trans hb)

theorem length_popFirst_le (max : Nat) (items : List RecordedTurn) :
    (popFirst max items).length ≤ max := by
  rw [popFirst, List.length_drop]
  omega

/-- `record`: an empty turn keeps the earlier ids. -/
def record (chunkIds : List String) : PreviousChunkStore :=
  let ids := firstIds s.maxIds chunkIds
  if conversationId = "" ∨ ids = [] then s
  else
    let turn : RecordedTurn := { conversationId, recordedAt := now, ids }
    { s with
      items := popFirst s.maxConversations (others conversationId s.items ++ [turn])
      distinct := s.distinct_record s.maxConversations turn
      bounded := length_popFirst_le _ _ }

def get : List String × PreviousChunkStore :=
  match s.items.find? fun turn => turn.conversationId = conversationId with
  | none => ([], s)
  | some turn =>
    if s.ttl < now - turn.recordedAt then
      ([], { s with
        items := others conversationId s.items
        distinct := s.distinct_others conversationId
        bounded := s.bounded_others conversationId })
    else (turn.ids, s)

/-! ## Histories -/

/-- A call on the store. -/
inductive PreviousCall where
  | record (conversationId : String) (chunkIds : List String)
  | get (conversationId : String)

/-- The store after a call. -/
def apply : PreviousCall → PreviousChunkStore
  | .record conversationId chunkIds => s.record conversationId now chunkIds
  | .get conversationId => (s.get conversationId now).2

/-- The store after calls, each with its time. -/
def after (calls : List (Seconds × PreviousCall)) : PreviousChunkStore :=
  calls.foldl (fun s call => s.apply call.1 call.2) s

/-- What a call writes, if it writes. -/
def writeOf (call : Seconds × PreviousCall) : Option (LruItem String (List String) Seconds) :=
  match call.2 with
  | .record conversationId chunkIds =>
    if conversationId = "" ∨ firstIds s.maxIds chunkIds = [] then none
    else some ⟨conversationId, firstIds s.maxIds chunkIds, call.1 + s.ttl⟩
  | .get _ => none

/-- The writes of a history, the latest first. -/
def writes (calls : List (Seconds × PreviousCall)) : List (LruItem String (List String) Seconds) :=
  (calls.filterMap s.writeOf).reverse

/-- The conversations for which something is recorded. -/
def recordedFor (calls : List (Seconds × PreviousCall)) : List String :=
  (calls.filterMap s.writeOf).map (·.key)

/-- An entry as an item that expires. -/
def item (ttl : Seconds) (turn : RecordedTurn) : LruItem String (List String) Seconds :=
  ⟨turn.conversationId, turn.ids, turn.recordedAt + ttl⟩

/-- The entries, the latest first. -/
def contents : List (LruItem String (List String) Seconds) := (s.items.map (item s.ttl)).reverse

open LruMap (Held live without)

/-- The store agrees with the history of its calls. -/
structure Agrees (start : PreviousChunkStore) (calls : List (Seconds × PreviousCall))
    (s : PreviousChunkStore) (now : Seconds) : Prop where
  ttl_eq : s.ttl = start.ttl
  maxConversations_eq : s.maxConversations = start.maxConversations
  maxIds_eq : s.maxIds = start.maxIds
  past : ∀ call ∈ calls, call.1 ≤ now
  held : Held start.maxConversations now (start.writes calls) s.contents

variable {s conversationId now} {start : PreviousChunkStore} {calls : List (Seconds × PreviousCall)}
  {now' : Seconds} {ids chunkIds : List String}

theorem map_item_others (ttl : Seconds) (conversationId : String) (items : List RecordedTurn) :
    (others conversationId items).map (item ttl) = without conversationId (items.map (item ttl)) := by
  rw [without, List.filter_map]
  rfl

/-- The last entries come first in the reverse. -/
theorem reverse_popFirst {α : Type} (max : Nat) (l : List α) :
    (l.drop (l.length - max)).reverse = l.reverse.take max := by
  rw [List.reverse_drop]
  by_cases hmax : l.length ≤ max
  · rw [show l.length - (l.length - max) = l.length by omega, List.take_of_length_le (by simp),
      List.take_of_length_le (by simpa using hmax)]
  · rw [show l.length - (l.length - max) = max by omega]

theorem contents_record (hrecords : ¬ (conversationId = "" ∨ firstIds s.maxIds chunkIds = [])) :
    (s.record conversationId now chunkIds).contents = LruMap.write s.maxConversations
      ⟨conversationId, firstIds s.maxIds chunkIds, now + s.ttl⟩ s.contents := by
  rw [record, if_neg hrecords]
  show ((popFirst _ _).map _).reverse = _
  rw [popFirst, List.map_drop, ← List.length_map (f := item s.ttl), reverse_popFirst, List.map_append,
    List.reverse_append, map_item_others, LruMap.write, contents, without, without, List.filter_reverse]
  rfl

theorem Agrees.later (h : Agrees start calls s now) (hnow : now ≤ now') : Agrees start calls s now' where
  ttl_eq := h.ttl_eq
  maxConversations_eq := h.maxConversations_eq
  maxIds_eq := h.maxIds_eq
  past := fun call hcall => (h.past call hcall).trans hnow
  held := h.held.later hnow

theorem writes_append (start : PreviousChunkStore) (calls : List (Seconds × PreviousCall))
    (call : Seconds × PreviousCall) :
    start.writes (calls ++ [call]) = (start.writeOf call).toList ++ start.writes calls := by
  rw [writes, List.filterMap_append, List.reverse_append]
  congr 1
  cases hcall : start.writeOf call with
  | none => simp [hcall]
  | some w => simp [hcall]

/-- A write expires when the time of its call is over. -/
theorem expiresAt_of_mem_writes {w : LruItem String (List String) Seconds} (hw : w ∈ start.writes calls) :
    ∃ call ∈ calls, w.expiresAt = call.1 + start.ttl := by
  obtain ⟨call, hcall, hwrite⟩ := List.mem_filterMap.mp (List.mem_reverse.mp hw)
  refine ⟨call, hcall, ?_⟩
  rw [writeOf] at hwrite
  split at hwrite
  · split at hwrite
    · cases hwrite
    · obtain rfl := Option.some.inj hwrite
      rfl
  · cases hwrite

/-- Another entry of a conversation would be the same. -/
theorem eq_of_find {turn turn' : RecordedTurn}
    (hfind : s.items.find? (fun turn => turn.conversationId = conversationId) = some turn)
    (hmem : turn' ∈ s.items) (hkey : turn'.conversationId = conversationId) : turn' = turn := by
  have hfound : turn.conversationId = conversationId := by simpa using List.find?_some hfind
  exact List.inj_on_of_nodup_map s.distinct hmem (List.mem_of_find?_eq_some hfind)
    (hkey.trans hfound.symm)

theorem Agrees.get (h : Agrees start calls s now) (conversationId : String) :
    Agrees start (calls ++ [(now, .get conversationId)]) (s.get conversationId now).2 now := by
  have hpast : ∀ call ∈ calls ++ [(now, PreviousCall.get conversationId)], call.1 ≤ now := by
    rw [List.forall_mem_append]
    exact ⟨h.past, fun call hcall => (congrArg Prod.fst (List.mem_singleton.mp hcall)).le⟩
  have hwrites : start.writes (calls ++ [(now, .get conversationId)]) = start.writes calls :=
    writes_append start calls _
  have hsame : Agrees start (calls ++ [(now, .get conversationId)]) s now :=
    ⟨h.ttl_eq, h.maxConversations_eq, h.maxIds_eq, hpast, hwrites ▸ h.held⟩
  rw [PreviousChunkStore.get]
  cases hfind : s.items.find? (fun turn => turn.conversationId = conversationId) with
  | none => exact hsame
  | some turn =>
    by_cases hexpired : s.ttl < now - turn.recordedAt
    · show Agrees _ _ (Prod.snd (if s.ttl < now - turn.recordedAt then _ else _)) _
      rw [if_pos hexpired]
      refine ⟨h.ttl_eq, h.maxConversations_eq, h.maxIds_eq, hpast, ?_⟩
      rw [hwrites]
      have hcontents : ((others conversationId s.items).map (item s.ttl)).reverse =
          without conversationId s.contents := by
        rw [map_item_others, contents, without, without, List.filter_reverse]
      show Held _ _ _ ((others conversationId s.items).map (item s.ttl)).reverse
      rw [hcontents]
      refine h.held.of_live List.filter_sublist ?_
      rw [LruMap.live_without, without, List.filter_eq_self]
      -- The entry of the conversation has expired, so nothing live goes.
      intro x hx
      obtain ⟨hmem, hlive⟩ := LruMap.mem_live.mp hx
      obtain ⟨turn', hturn', rfl⟩ := List.mem_map.mp (List.mem_reverse.mp hmem)
      refine decide_eq_true fun hkey => ?_
      obtain rfl := eq_of_find hfind hturn' hkey
      have hlate : now ≤ turn'.recordedAt + s.ttl := hlive
      linarith
    · show Agrees _ _ (Prod.snd (if s.ttl < now - turn.recordedAt then _ else _)) _
      rw [if_neg hexpired]
      exact hsame

theorem Agrees.record (h : Agrees start calls s now) (conversationId : String) (chunkIds : List String) :
    Agrees start (calls ++ [(now, .record conversationId chunkIds)])
      (s.record conversationId now chunkIds) now := by
  have hpast : ∀ call ∈ calls ++ [(now, PreviousCall.record conversationId chunkIds)], call.1 ≤ now := by
    rw [List.forall_mem_append]
    exact ⟨h.past, fun call hcall => (congrArg Prod.fst (List.mem_singleton.mp hcall)).le⟩
  have hwrites := writes_append start calls (now, .record conversationId chunkIds)
  rw [writeOf, ← h.maxIds_eq] at hwrites
  by_cases hnothing : conversationId = "" ∨ firstIds s.maxIds chunkIds = []
  · have hsame : s.record conversationId now chunkIds = s := if_pos hnothing
    rw [hsame]
    refine ⟨h.ttl_eq, h.maxConversations_eq, h.maxIds_eq, hpast, ?_⟩
    rw [hwrites]
    show Held _ _ ((if conversationId = "" ∨ firstIds s.maxIds chunkIds = [] then _ else _ :
      Option _).toList ++ _) _
    rw [if_pos hnothing]
    exact h.held
  · have hcontents : (s.record conversationId now chunkIds).contents = LruMap.write s.maxConversations
        ⟨conversationId, firstIds s.maxIds chunkIds, now + s.ttl⟩ s.contents := contents_record hnothing
    have hlimits : (s.record conversationId now chunkIds).ttl = s.ttl ∧
        (s.record conversationId now chunkIds).maxConversations = s.maxConversations ∧
        (s.record conversationId now chunkIds).maxIds = s.maxIds := by
      rw [PreviousChunkStore.record, if_neg hnothing]
      exact ⟨rfl, rfl, rfl⟩
    refine ⟨hlimits.1.trans h.ttl_eq, hlimits.2.1.trans h.maxConversations_eq,
      hlimits.2.2.trans h.maxIds_eq, hpast, ?_⟩
    rw [hwrites, hcontents, h.maxConversations_eq, ← h.ttl_eq]
    show Held _ _ ((if conversationId = "" ∨ firstIds s.maxIds chunkIds = [] then _ else _ :
      Option _).toList ++ _) _
    rw [if_neg hnothing]
    refine h.held.write fun w hw => ?_
    obtain ⟨call, hcall, hexpires⟩ := expiresAt_of_mem_writes hw
    rw [hexpires, h.ttl_eq]
    show call.1 + start.ttl ≤ now + start.ttl
    have hle := h.past call hcall
    linarith

/-- Along calls whose times do not go back, the store agrees with their history. -/
theorem agrees_after (hempty : start.items = []) (htimes : (calls.map Prod.fst).Pairwise (· ≤ ·))
    (hpast : ∀ call ∈ calls, call.1 ≤ now) : Agrees start calls (start.after calls) now := by
  induction calls using List.reverseRecOn generalizing now with
  | nil =>
    refine ⟨rfl, rfl, rfl, List.forall_mem_nil _, ?_⟩
    show Held _ _ [] ((start.items.map (item start.ttl)).reverse)
    rw [hempty]
    exact LruMap.held_nil _ _
  | append_singleton calls call ih =>
    rw [List.map_append, List.pairwise_append] at htimes
    obtain ⟨hbefore, -, hlast⟩ := htimes
    obtain ⟨time, c⟩ := call
    have hagrees : Agrees start calls (start.after calls) time :=
      ih hbefore fun call hcall => hlast call.1 (List.mem_map_of_mem hcall) time (List.mem_singleton_self _)
    have hafter : start.after (calls ++ [(time, c)]) = (start.after calls).apply time c := by
      rw [after, List.foldl_append]
      rfl
    rw [hafter]
    refine Agrees.later ?_ (hpast _ (List.mem_append_right _ (List.mem_singleton_self _)))
    cases c with
    | record conversationId chunkIds => exact hagrees.record conversationId chunkIds
    | get conversationId => exact hagrees.get conversationId

/-- The last write of a key stands in the history as a call with no later one. -/
theorem writes_split_iff {w : LruItem String (List String) Seconds} :
    (∃ newer older, start.writes calls = newer ++ w :: older ∧ w.key ∉ newer.map (·.key) ∧
        (newer.map (·.key)).toFinset.card < start.maxConversations) ↔
      ∃ before call since, calls = before ++ call :: since ∧ start.writeOf call = some w ∧
        w.key ∉ start.recordedFor since ∧
        (start.recordedFor since).toFinset.card < start.maxConversations := by
  have hkeys : ∀ l : List (LruItem String (List String) Seconds),
      (l.reverse.map (·.key)).toFinset = (l.map (·.key)).toFinset := by
    intro l
    rw [List.map_reverse, List.toFinset_reverse]
  constructor
  · intro h
    obtain ⟨newer, older, hsplit, hkey, hcard⟩ := h
    rw [writes, List.reverse_eq_iff, List.reverse_append, List.reverse_cons, List.append_assoc,
      List.singleton_append] at hsplit
    obtain ⟨before, rest, rfl, hbefore, hrest⟩ := List.filterMap_eq_append_iff.mp hsplit
    obtain ⟨skipped, call, since, rfl, -, hcall, hsince⟩ := List.filterMap_eq_cons_iff.mp hrest
    refine ⟨before ++ skipped, call, since, by simp, hcall, ?_, ?_⟩
    · rw [recordedFor, hsince, ← List.mem_toFinset, hkeys, List.mem_toFinset]
      exact hkey
    · rw [recordedFor, hsince, hkeys]
      exact hcard
  · intro h
    obtain ⟨before, call, since, rfl, hcall, hkey, hcard⟩ := h
    refine ⟨(since.filterMap start.writeOf).reverse, (before.filterMap start.writeOf).reverse, ?_, ?_, ?_⟩
    · rw [writes, List.filterMap_append, List.filterMap_cons_some hcall]
      simp
    · rw [← List.mem_toFinset, hkeys, List.mem_toFinset]
      exact hkey
    · rw [hkeys]
      exact hcard

/-- What `get` finds is an entry whose time is not over. -/
theorem get_eq_iff_mem (hids : ids ≠ []) : (s.get conversationId now).1 = ids ↔
    ∃ expiresAt, ⟨conversationId, ids, expiresAt⟩ ∈ s.contents ∧ now ≤ expiresAt := by
  rw [PreviousChunkStore.get]
  cases hfind : s.items.find? (fun turn => turn.conversationId = conversationId) with
  | none =>
    refine iff_of_false (Ne.symm hids) ?_
    intro h
    obtain ⟨expiresAt, hmem, -⟩ := h
    obtain ⟨turn, hturn, heq⟩ := List.mem_map.mp (List.mem_reverse.mp hmem)
    have hkey : turn.conversationId = conversationId := congrArg LruItem.key heq
    have hnone := List.find?_eq_none.mp hfind turn hturn
    exact hnone (decide_eq_true hkey)
  | some turn =>
    have hmem := List.mem_of_find?_eq_some hfind
    have hkey : turn.conversationId = conversationId := by simpa using List.find?_some hfind
    by_cases hexpired : s.ttl < now - turn.recordedAt
    · show (Prod.fst (if s.ttl < now - turn.recordedAt then _ else _)) = _ ↔ _
      rw [if_pos hexpired]
      refine iff_of_false (Ne.symm hids) ?_
      intro h
      obtain ⟨expiresAt, hitem, hlive⟩ := h
      obtain ⟨turn', hturn', heq⟩ := List.mem_map.mp (List.mem_reverse.mp hitem)
      obtain rfl := eq_of_find hfind hturn' (congrArg LruItem.key heq)
      have hexpires : turn'.recordedAt + s.ttl = expiresAt := congrArg LruItem.expiresAt heq
      linarith
    · show (Prod.fst (if s.ttl < now - turn.recordedAt then _ else _)) = _ ↔ _
      rw [if_neg hexpired]
      constructor
      · intro h
        refine ⟨turn.recordedAt + s.ttl, List.mem_reverse.mpr (List.mem_map.mpr ⟨turn, hmem, ?_⟩), ?_⟩
        · rw [item, hkey, ← h]
        · linarith
      · intro h
        obtain ⟨expiresAt, hitem, -⟩ := h
        obtain ⟨turn', hturn', heq⟩ := List.mem_map.mp (List.mem_reverse.mp hitem)
        obtain rfl := eq_of_find hfind hturn' (congrArg LruItem.key heq)
        exact congrArg LruItem.value heq

/-- Over any history of calls whose times do not go back, `get` finds ids if and only if they are those of
the last turn recorded for the conversation, not more than `ttl_s` ago, and fewer than `max_conversations`
other conversations were recorded since. -/
theorem get_eq_iff (hempty : start.items = []) (htimes : (calls.map Prod.fst).Pairwise (· ≤ ·))
    (hpast : ∀ call ∈ calls, call.1 ≤ now) (hids : ids ≠ []) :
    ((start.after calls).get conversationId now).1 = ids ↔
      conversationId ≠ "" ∧ ∃ before recordedAt chunkIds since,
        calls = before ++ (recordedAt, .record conversationId chunkIds) :: since ∧
        firstIds start.maxIds chunkIds = ids ∧ now - recordedAt ≤ start.ttl ∧
        conversationId ∉ start.recordedFor since ∧
        (start.recordedFor since).toFinset.card < start.maxConversations := by
  have hagrees := agrees_after hempty htimes hpast
  rw [get_eq_iff_mem hids]
  constructor
  · intro h
    obtain ⟨expiresAt, hitem, hlive⟩ := h
    obtain ⟨before, ⟨recordedAt, call⟩, since, hsplit, hcall, hkey, hcard⟩ :=
      writes_split_iff.mp ((hagrees.held.mem_iff hlive).mp hitem)
    cases call with
    | get conversationId' => cases hcall
    | record conversationId' chunkIds =>
      rw [writeOf] at hcall
      split at hcall
      · rename_i heq
        split at hcall
        · cases hcall
        · rename_i hrecords
          cases heq
          obtain ⟨rfl, rfl, rfl⟩ : _ ∧ _ ∧ _ := LruItem.mk.inj (Option.some.inj hcall)
          have hlate : now ≤ recordedAt + start.ttl := hlive
          exact ⟨fun hblank => hrecords (.inl hblank), before, recordedAt, chunkIds, since, hsplit, rfl,
            by linarith, hkey, hcard⟩
      · cases hcall
  · intro h
    obtain ⟨hnonblank, before, recordedAt, chunkIds, since, hsplit, rfl, hage, hkey, hcard⟩ := h
    have hlive : now ≤ recordedAt + start.ttl := by linarith
    refine ⟨recordedAt + start.ttl, (hagrees.held.mem_iff hlive).mpr (writes_split_iff.mpr
      ⟨before, _, since, hsplit, ?_, hkey, hcard⟩), hlive⟩
    rw [writeOf]
    exact if_neg (not_or.mpr ⟨hnonblank, hids⟩)

/-- A store with room for one conversation. -/
def single : PreviousChunkStore where
  maxConversations := 1

/-- Two turns of a conversation, with one of another between them. -/
def twoTurns : List (Seconds × PreviousCall) :=
  [(0, .record "first" ["a", "", "a", "b"]), (10, .record "second" ["c"]), (20, .record "first" ["d"])]

theorem get_eq_iff_twoTurns : ("first" : String) ≠ "" ∧ ∃ before recordedAt chunkIds since,
    twoTurns = before ++ (recordedAt, .record "first" chunkIds) :: since ∧
      firstIds single.maxIds chunkIds = ["d"] ∧ 30 - recordedAt ≤ single.ttl ∧
      "first" ∉ single.recordedFor since ∧
      (single.recordedFor since).toFinset.card < single.maxConversations :=
  (get_eq_iff rfl (by norm_num [twoTurns]) (by norm_num [twoTurns]) (by simp)).mp (by decide +kernel)

end PreviousChunkStore

end LlmService
