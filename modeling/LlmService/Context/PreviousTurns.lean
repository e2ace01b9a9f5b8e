import LlmService.Context.CollectedDocuments
import LlmService.Lib.Provenance

/-!
# The chunks of the previous turn

All the collections of a service share one store of the chunks that were shown
last in each conversation, and run one command at a time beside one another.
Whatever is searched with the ids of earlier chunks, these are the ids of one
earlier search of the same conversation: no id of another conversation is ever
offered, and none that the retrieval service did not find before.
-/

namespace LlmService

open Script Runs ContextCollector

/-- What the collections share: the store, and the clock. -/
structure ContextWorld where
  store : PreviousChunkStore
  now : Seconds

/-- Time passes. -/
inductive ContextEvent where
  | tick (elapsed : Seconds)

namespace ContextWorld

/-- The store answers its calls, and the environment all other commands. -/
def exec (c : ContextCommand) (answer : (c : ContextCommand) → ContextReply c) (u : ContextWorld) :
    Option (ContextReply c × ContextWorld) :=
  match c with
  | .getPrevious conversationId =>
    let found := u.store.get conversationId u.now
    some (found.1, { u with store := found.2 })
  | .record conversationId chunkIds =>
    some ((), { u with store := u.store.record conversationId u.now chunkIds })
  | c => some (answer c, u)

def disturb : ContextEvent → ContextWorld → Option ContextWorld
  | .tick elapsed, u => if 0 ≤ elapsed then some { u with now := u.now + elapsed } else none

end ContextWorld

abbrev Collections := Pool ContextWorld (ContextScript ContextBundle)

abbrev CollectionLabel := Pool.Label ((c : ContextCommand) → ContextReply c) ContextEvent

namespace Collections

variable {Digest : Type}

def step : Collections → CollectionLabel → Option Collections :=
  Pool.step ContextWorld.exec ContextWorld.disturb

/-- What is performed along a run, with the answers. -/
def performed : Collections → List CollectionLabel → ContextTrace :=
  Pool.performed ContextWorld.exec ContextWorld.disturb

/-- The collections of some requests, behind an empty store. -/
def initial [DecidableEq Digest] (collector : ContextCollector Digest) (ttl start : Seconds) (requests : List CollectRequest) :
    Collections where
  shared := { store := { ttl }, now := start }
  scripts := requests.map fun ctx => collector.collect ctx

/-! ## What a collection has heard -/

/-- The ids that are offered are those that the store gave for the conversation, and what is recorded was
found by a search of it. -/
def Justified (collector : ContextCollector Digest) (past : ContextTrace) : ContextCommand → Prop
  | .search request => request.previousChunkIds = [] ∨
      collector.config.previousChunksEnabled = true ∧
        ⟨.getPrevious request.conversationId, request.previousChunkIds⟩ ∈ past
  | .record conversationId chunkIds => ∃ request response, request.conversationId = conversationId ∧
      ⟨.search request, .ok response⟩ ∈ past ∧ response.chunks.map Prod.fst = chunkIds
  | _ => True

variable {collector : ContextCollector Digest} {ctx : CollectRequest} {past past' t : ContextTrace}

theorem Justified.mono {c : ContextCommand} (h : Justified collector past c) (hsub : past ⊆ past') :
    Justified collector past' c := by
  cases c with
  | search request => exact h.imp id fun hgiven => ⟨hgiven.1, hsub hgiven.2⟩
  | record conversationId chunkIds =>
    obtain ⟨request, response, hconversation, hmem, hids⟩ := h
    exact ⟨request, response, hconversation, hsub hmem, hids⟩
  | memory | graph | documents | rewrite | getPrevious | sleep => trivial

/-- A command that needs no justification. -/
def AlwaysJustified : ContextCommand → Prop
  | .search _ | .record _ _ => False
  | _ => True

theorem justified_of_always (past : ContextTrace) (c : ContextCommand) (h : AlwaysJustified c) :
    Justified collector past c := by
  cases c with
  | search | record => exact h.elim
  | memory | graph | documents | rewrite | getPrevious | sleep => trivial

theorem sourced_of_always {α : Type} {p : ContextScript α} (hp : p.Only AlwaysJustified) :
    p.Sourced (Justified collector) past :=
  .of_only hp justified_of_always

theorem sourced_searchOnce {request : SearchRequest} (h : Justified collector past (.search request)) :
    (searchOnce request).Sourced (Justified collector) past :=
  sourced_command_bind h fun _ => sourced_of_always (only_ended _)

theorem sourced_search {request : SearchRequest} (h : Justified collector past (.search request)) :
    (search request).Sourced (Justified collector) past := by
  refine (sourced_searchOnce h).bind fun u res _ => ?_
  split
  · refine sourced_command_bind trivial fun slept => (sourced_of_always (only_ended _)).bind fun v _ _ => ?_
    refine sourced_searchOnce (h.mono ?_)
    rw [List.append_assoc, List.append_assoc]
    exact List.subset_append_left _ _
  · trivial

/-- What is offered is what the store has given. -/
theorem trace_previous {ids : List String} (h : (collector.previous ctx).Trace t (.ok ids)) :
    ids = [] ∨ collector.config.previousChunksEnabled = true ∧ ⟨.getPrevious ctx.conversationId, ids⟩ ∈ t := by
  rw [previous] at h
  by_cases henabled : collector.config.previousChunksEnabled = true
  · rw [if_pos henabled] at h
    obtain ⟨answer, t', rfl, hpure⟩ := (trace_command_bind_iff (f := Script.pure)).mp h
    cases hpure
    exact .inr ⟨henabled, List.mem_cons_self⟩
  · rw [if_neg henabled] at h
    exact .inl (Except.ok.inj (trace_pure_iff.mp h).2)

theorem sourced_searchAnew : (collector.searchAnew ctx).Sourced (Justified collector) past := by
  refine (sourced_of_always (only_query fun _ => trivial)).bind fun u rq _ => ?_
  refine (sourced_of_always (only_previous trivial)).bind fun v ids hids => ?_
  refine sourced_search ?_
  rcases trace_previous hids with rfl | ⟨henabled, hmem⟩
  · exact .inl rfl
  · exact .inr ⟨henabled, List.mem_append_right _ hmem⟩

/-- What a search returns was found along its trace. -/
theorem trace_found {res : FetchedRetrieval} (h : (collector.searchAnew ctx).Trace t (.ok res)) :
    ∃ request response, request.conversationId = ctx.conversationId ∧
      ⟨.search request, .ok response⟩ ∈ t ∧ response.chunks.map Prod.fst = res.chunkIds := by
  rcases trace_searchAnew h with ⟨-, -, hraised⟩ | ⟨rq, previous, u, v, rfl, -, -, hsearched⟩
  · exact absurd rfl (hraised res)
  · have hlast := List.mem_of_getLast? (hsearched.returned res rfl)
    obtain ⟨⟨c, reply⟩, hmem, hread⟩ := List.mem_filterMap.mp hlast
    cases c with
    | search request =>
      obtain ⟨rfl, hreply⟩ := Prod.mk.inj (Option.some.inj hread)
      cases reply with
      | error raised => cases hreply
      | ok response =>
        refine ⟨_, response, rfl, List.mem_append_right _ hmem, ?_⟩
        rw [← Except.ok.inj hreply]
        rfl
    | memory | graph | documents | rewrite | getPrevious | sleep | record => cases hread

/-- The whole text is marked as such. -/
theorem fullText_of_whole {res : FetchedRetrieval} (h : (collector.wholeText ctx).Trace t (.ok (some res))) :
    res.fullText = true := by
  obtain ⟨-, ⟨res', hres, hwholes, -⟩ | ⟨hnone, -⟩⟩ := trace_whole h
  · obtain rfl := Option.some.inj (Except.ok.inj hres)
    have hmem : Except.ok res ∈ wholes t := by
      rw [hwholes]
      exact List.mem_singleton_self _
    obtain ⟨⟨c, reply⟩, -, hread⟩ := List.mem_filterMap.mp hmem
    cases c with
    | documents userId fileIds maxTokens =>
      have hreply := Option.some.inj hread
      cases reply with
      | error raised => cases hreply
      | ok response =>
        rw [← Except.ok.inj hreply]
        rfl
    | memory | graph | search | rewrite | getPrevious | sleep | record => cases hread
  · exact absurd rfl (hnone res)

theorem only_wholeText : (collector.wholeText ctx).Only AlwaysJustified := by
  rw [wholeText]
  split
  · rw [tryFullText]
    split
    · trivial
    · refine only_command_bind trivial fun reply => ?_
      cases reply with
      | ok response =>
        dsimp only
        split <;> trivial
      | error raised =>
        cases raised with
        | exception exc => trivial
        | cancelled => trivial
  · trivial

/-- What is recorded was found by a search of the conversation. -/
theorem sourced_recordChunks {res : FetchedRetrieval} (h : res.fullText = true ∨
      Justified collector past (.record ctx.conversationId res.chunkIds)) :
    (collector.recordChunks ctx res).Sourced (Justified collector) past := by
  rw [recordChunks]
  by_cases hrecords : collector.config.previousChunksEnabled ∧ res.chunks ≠ [] ∧ res.fullText = false
  · rw [if_pos hrecords]
    rcases h with hfull | hjustified
    · rw [hrecords.2.2] at hfull
      cases hfull
    · exact ⟨hjustified, fun _ => trivial⟩
  · rw [if_neg hrecords]
    trivial

theorem sourced_fetchRetrieval : (collector.fetchRetrieval ctx).Sourced (Justified collector) past := by
  rw [fetchRetrieval]
  split
  · trivial
  refine (sourced_of_always only_wholeText).bind fun u given hgiven => ?_
  cases given with
  | some res =>
    exact (sourced_recordChunks (.inl (fullText_of_whole hgiven))).bind fun _ _ _ => trivial
  | none =>
    refine sourced_searchAnew.bind fun v res hres => ?_
    obtain ⟨request, response, hconversation, hmem, hids⟩ := trace_found hres
    refine (sourced_recordChunks (.inr ⟨request, response, hconversation, ?_, hids⟩)).bind fun _ _ _ => trivial
    exact List.mem_append_right _ hmem

theorem sourced_gathered {α : Type} {fetch : ContextScript α} (h : fetch.Sourced (Justified collector) past) :
    (gathered fetch).Sourced (Justified collector) past := by
  refine Sourced.handle (Sourced.bind h fun u a _ => ?_) fun u raised _ => ?_
  · trivial
  · trivial

theorem sourced_collect [DecidableEq Digest] : (collector.collect ctx).Sourced (Justified collector) past := by
  have hmemory : (fetchMemory ctx).Only AlwaysJustified := only_command_bind trivial fun _ => only_ended _
  have hgraph : (fetchGraph ctx).Only AlwaysJustified := only_command_bind trivial fun _ => only_ended _
  refine (sourced_gathered (sourced_of_always hmemory)).bind fun _ _ _ => ?_
  refine (sourced_gathered (sourced_of_always hgraph)).bind fun _ _ _ => ?_
  exact (sourced_gathered sourced_fetchRetrieval).bind fun _ _ _ => trivial

/-! ## What the store has heard -/

/-- Each entry of the store was recorded. -/
structure Recorded (maxIds : Nat) (past : ContextTrace) (u : ContextWorld) : Prop where
  maxIds_eq : u.store.maxIds = maxIds
  items : ∀ turn ∈ u.store.items, ∃ chunkIds, ⟨.record turn.conversationId chunkIds, ()⟩ ∈ past ∧
    turn.ids = firstIds maxIds chunkIds

/-- What is performed is justified by what was performed before; and the store gives what was recorded. -/
def Grounded (collector : ContextCollector Digest) (maxIds : Nat) (past : ContextTrace) :
    (Σ c, ContextReply c) → Prop
  | ⟨.getPrevious conversationId, ids⟩ => ids = [] ∨ ∃ chunkIds,
      ⟨.record conversationId chunkIds, ()⟩ ∈ past ∧ ids = firstIds maxIds chunkIds
  | ⟨c, _⟩ => Justified collector past c

variable {u v : ContextWorld} {maxIds : Nat} {conversationId : String} {chunkIds : List String}

theorem Recorded.mono (h : Recorded maxIds past u) (hsub : past ⊆ past') : Recorded maxIds past' u where
  maxIds_eq := h.maxIds_eq
  items := by
    intro turn hturn
    obtain ⟨chunkIds, hmem, hids⟩ := h.items turn hturn
    exact ⟨chunkIds, hsub hmem, hids⟩

/-- A call of `get` gives nothing new, and drops at most an entry. -/
theorem Recorded.get (h : Recorded maxIds past u) (conversationId : String) :
    ((u.store.get conversationId u.now).1 = [] ∨ ∃ chunkIds,
        ⟨.record conversationId chunkIds, ()⟩ ∈ past ∧
          (u.store.get conversationId u.now).1 = firstIds maxIds chunkIds) ∧
      Recorded maxIds past { u with store := (u.store.get conversationId u.now).2 } := by
  rw [PreviousChunkStore.get]
  cases hfind : u.store.items.find? (fun turn => turn.conversationId = conversationId) with
  | none => exact ⟨.inl rfl, h⟩
  | some turn =>
    have hkey : turn.conversationId = conversationId := by simpa using List.find?_some hfind
    dsimp only
    split
    · refine ⟨.inl rfl, h.maxIds_eq, fun other hother => ?_⟩
      exact h.items other (List.mem_filter.mp hother).1
    · obtain ⟨chunkIds, hmem, hids⟩ := h.items turn (List.mem_of_find?_eq_some hfind)
      exact ⟨.inr ⟨chunkIds, hkey ▸ hmem, hids⟩, h⟩

theorem Recorded.record (h : Recorded maxIds past u) (conversationId : String) (chunkIds : List String) :
    Recorded maxIds (past ++ [⟨.record conversationId chunkIds, ()⟩])
      { u with store := u.store.record conversationId u.now chunkIds } := by
  have hlater : Recorded maxIds (past ++ [⟨.record conversationId chunkIds, ()⟩]) u :=
    h.mono (List.subset_append_left _ _)
  rw [PreviousChunkStore.record]
  show Recorded _ _ { u with store := if conversationId = "" ∨ firstIds u.store.maxIds chunkIds = [] then _ else _ }
  split
  · exact hlater
  · refine ⟨h.maxIds_eq, fun turn hturn => ?_⟩
    rcases List.mem_append.mp (List.mem_of_mem_drop hturn) with hold | hnew
    · exact hlater.items turn (List.mem_filter.mp hold).1
    · rw [List.mem_singleton.mp hnew]
      refine ⟨chunkIds, List.mem_append_right _ (List.mem_singleton_self _), ?_⟩
      rw [← h.maxIds_eq]

/-- Each command is grounded in the past, and the store hears of what is recorded. -/
theorem grounded_exec (past mine : ContextTrace) (c : ContextCommand)
    (answer : (c : ContextCommand) → ContextReply c) (u : ContextWorld) (r : ContextReply c) (v : ContextWorld)
    (h : Recorded maxIds past u) (hmine : mine.Sublist past) (hjustified : Justified collector mine c)
    (hexec : ContextWorld.exec c answer u = some (r, v)) :
    Grounded collector maxIds past ⟨c, r⟩ ∧ Recorded maxIds (past ++ [⟨c, r⟩]) v := by
  have hpast : Justified collector past c := hjustified.mono hmine.subset
  have hlater : Recorded maxIds (past ++ [⟨c, r⟩]) u := h.mono (List.subset_append_left _ _)
  cases c with
  | getPrevious conversationId =>
    obtain ⟨rfl, rfl⟩ := Prod.mk.inj (Option.some.inj hexec)
    exact ⟨(h.get conversationId).1, (h.get conversationId).2.mono (List.subset_append_left _ _)⟩
  | record conversationId chunkIds =>
    obtain ⟨rfl, rfl⟩ := Prod.mk.inj (Option.some.inj hexec)
    exact ⟨hpast, h.record conversationId chunkIds⟩
  | memory | graph | documents | rewrite | search | sleep =>
    obtain ⟨rfl, rfl⟩ := Prod.mk.inj (Option.some.inj hexec)
    exact ⟨hpast, hlater⟩

theorem recorded_disturb (past : ContextTrace) (e : ContextEvent) (u v : ContextWorld)
    (h : Recorded maxIds past u) (hdisturb : ContextWorld.disturb e u = some v) : Recorded maxIds past v := by
  cases e with
  | tick elapsed =>
    rw [ContextWorld.disturb] at hdisturb
    split at hdisturb
    · obtain rfl := Option.some.inj hdisturb
      exact ⟨h.maxIds_eq, h.items⟩
    · cases hdisturb

section Runs

variable [DecidableEq Digest] {ttl start : Seconds} {requests : List CollectRequest}
  {l : List CollectionLabel} {s : Collections}

/-- Everything that is performed along a run is grounded in what was performed before. -/
theorem grounded_run (h : run step (initial collector ttl start requests) l = some s) :
    Vouched (Grounded collector 20) (performed (initial collector ttl start requests) l) := by
  have hremembers : Pool.Remembers (Justified collector) (Recorded 20) []
      (initial collector ttl start requests) := by
    refine ⟨?_, rfl, List.forall_mem_nil _⟩
    intro i p hp
    obtain ⟨ctx, -, rfl⟩ := List.mem_map.mp (List.mem_of_getElem? hp)
    exact ⟨[], List.Sublist.refl _, sourced_collect⟩
  exact (hremembers.vouched grounded_exec recorded_disturb vouched_nil h).2

/-- In any run of any collections, however they are interleaved, the ids of earlier chunks that go with a
search are those of one earlier search of the same conversation: the first twenty of them, each once. -/
theorem offered_found {before after : ContextTrace} {request : SearchRequest}
    {reply : Except PyRaise RetrievalResponse}
    (h : run step (initial collector ttl start requests) l = some s)
    (hsplit : performed (initial collector ttl start requests) l =
      before ++ ⟨.search request, reply⟩ :: after) :
    request.previousChunkIds = [] ∨ collector.config.previousChunksEnabled = true ∧
      ∃ earlier response, earlier.conversationId = request.conversationId ∧
        ⟨.search earlier, .ok response⟩ ∈ before ∧
        request.previousChunkIds = firstIds 20 (response.chunks.map Prod.fst) := by
  have hvouched := grounded_run h
  rcases hvouched _ _ _ hsplit with hnone | ⟨henabled, hgiven⟩
  · exact .inl hnone
  -- back from the search to the store's answer, from there to the record, and to what was recorded
  obtain ⟨b₁, b₂, rfl⟩ := List.append_of_mem hgiven
  have hstore := hvouched b₁ _ _ (by rw [hsplit, List.append_assoc, List.cons_append])
  rcases hstore with hempty | ⟨chunkIds, hrecord, hids⟩
  · exact .inl hempty
  obtain ⟨b₃, b₄, rfl⟩ := List.append_of_mem hrecord
  have hrecorded := hvouched b₃ _ _ (by
    rw [hsplit, List.append_assoc, List.append_assoc, List.cons_append, List.cons_append])
  obtain ⟨earlier, response, hconversation, hfound, hchunks⟩ := hrecorded
  refine .inr ⟨henabled, earlier, response, hconversation, ?_, ?_⟩
  · rw [List.append_assoc]
    exact List.mem_append_left _ hfound
  · rw [hids, hchunks]

end Runs

/-- A question about the same file in another conversation. -/
def elsewhere : CollectRequest := { aboutFile with conversationId := "d" }

/-- Two turns of one conversation, and one of another that comes between. -/
def threeTurns : Collections := initial plainCollector 3600 0 [aboutFile, elsewhere, aboutFile]

/-- The first turn searches, the other begins, and the next asks the store. -/
def threeTurnsLabels : List CollectionLabel :=
  List.replicate 5 (.work 0 onePassage) ++ List.replicate 4 (.work 1 onePassage) ++
    List.replicate 3 (.work 2 onePassage)

/-- What the next turn searches. -/
def nextSearch : SearchRequest :=
  plainCollector.searchRequest aboutFile (rawQuery aboutFile) ["chunk"]

theorem offered_found_threeTurns : nextSearch.previousChunkIds = [] ∨
    plainCollector.config.previousChunksEnabled = true ∧
      ∃ earlier response, earlier.conversationId = "c" ∧
        ⟨.search earlier, .ok response⟩ ∈ performed threeTurns threeTurnsLabels ∧
        nextSearch.previousChunkIds = firstIds 20 (response.chunks.map Prod.fst) := by
  have hruns : (run step threeTurns (threeTurnsLabels ++ [.work 2 onePassage])).isSome = true := by
    decide +kernel
  obtain ⟨s, hs⟩ := Option.isSome_iff_exists.mp hruns
  have hsplit : performed threeTurns (threeTurnsLabels ++ [.work 2 onePassage]) =
      performed threeTurns threeTurnsLabels ++
        ⟨.search nextSearch, onePassage (.search nextSearch)⟩ :: [] := by with_unfolding_all rfl
  exact offered_found hs hsplit

end Collections

end LlmService
