import LlmService.Context.Collector

/-!
# Documents that were collected

Whatever the services answer or raise, a collection ends with a bundle, and a
turn with attached documents goes on behind it only if the retrieval service
has answered for these documents: with their whole text, or with what its last
search found. It is searched no more than twice, and a second time only where
the first answer was that it could not be reached in time.
-/

namespace LlmService

open Script AttachedDocuments

namespace ContextCollector

/-! ## What is asked about the documents -/

/-- The searches along a trace, with their answers. -/
def searches (t : ContextTrace) : List (SearchRequest × Except PyRaise FetchedRetrieval) :=
  t.filterMap fun step =>
    match step with
    | ⟨.search request, reply⟩ => some (request, reply.map RetrievalResponse.relevantChunks)
    | _ => none

/-- The answers to requests for the whole text, along a trace. -/
def wholes (t : ContextTrace) : List (Except PyRaise FetchedRetrieval) :=
  t.filterMap fun step =>
    match step with
    | ⟨.documents _ _ _, reply⟩ => some (reply.map RetrievalResponse.documentChunks)
    | _ => none

/-- A command that asks nothing about the documents. -/
def AsksNoDocuments : ContextCommand → Prop
  | .search _ | .documents _ _ _ => False
  | _ => True

/-- The whole text can stand for a search. -/
def UsableWhole (res : FetchedRetrieval) : Prop :=
  res.status = .ok ∧ res.truncated = false ∧ res.chunks ≠ []

/-- What the retrieval service has answered in the end. -/
def Delivered (t : ContextTrace) (res : FetchedRetrieval) : Prop :=
  (.ok res ∈ wholes t ∧ UsableWhole res) ∨ ∃ request, (searches t).getLast? = some (request, .ok res)

variable {Digest : Type} {collector : ContextCollector Digest} {ctx : CollectRequest}
  {t t₁ t₂ : ContextTrace}

theorem searches_append : searches (t₁ ++ t₂) = searches t₁ ++ searches t₂ := List.filterMap_append

theorem wholes_append : wholes (t₁ ++ t₂) = wholes t₁ ++ wholes t₂ := List.filterMap_append

theorem quiet_of_asksNoDocuments (h : ∀ step ∈ t, AsksNoDocuments step.1) :
    searches t = [] ∧ wholes t = [] := by
  constructor
  · refine List.filterMap_eq_nil_iff.mpr fun step hstep => ?_
    obtain ⟨c, reply⟩ := step
    cases c with
    | search request => exact (h _ hstep).elim
    | memory | graph | documents | rewrite | getPrevious | sleep | record => rfl
  · refine List.filterMap_eq_nil_iff.mpr fun step hstep => ?_
    obtain ⟨c, reply⟩ := step
    cases c with
    | documents userId fileIds maxTokens => exact (h _ hstep).elim
    | memory | graph | search | rewrite | getPrevious | sleep | record => rfl

/-! ## Scripts that ask nothing about the documents -/

theorem only_ended {P : ContextCommand → Prop} {α : Type} (reply : Except PyRaise α) : (ended reply).Only P := by
  cases reply with
  | ok a => trivial
  | error raised => trivial

theorem only_embed {P : ContextCommand → Prop} {α : Type} (hP : ∀ c, P (.rewrite c)) (p : RewriteScript α) :
    (p.embed ContextCommand.rewrite (Q := ContextReply) fun _ => rfl).Only P := by
  induction p with
  | pure a => trivial
  | raise e => trivial
  | call c rest ih => exact ⟨hP c, fun r => ih _⟩

theorem only_query {P : ContextCommand → Prop} (hP : ∀ c, P (.rewrite c)) : (collector.query ctx).Only P := by
  rw [query]
  split
  · split
    · refine only_handle (only_embed hP _) fun raised => ?_
      cases raised with
      | exception exc => trivial
      | cancelled => trivial
    · trivial
  · trivial

theorem only_previous {P : ContextCommand → Prop} (hP : P (.getPrevious ctx.conversationId)) :
    (collector.previous ctx).Only P := by
  rw [previous]
  split
  · exact ⟨hP, fun _ => trivial⟩
  · trivial

theorem only_recordChunks {P : ContextCommand → Prop} (hP : ∀ ids, P (.record ctx.conversationId ids))
    (res : FetchedRetrieval) : (collector.recordChunks ctx res).Only P := by
  rw [recordChunks]
  split
  · exact ⟨hP _, fun _ => trivial⟩
  · trivial

/-! ## The search -/

theorem trace_searchOnce {request : SearchRequest} {r : Except PyRaise FetchedRetrieval}
    (h : (searchOnce request).Trace t r) :
    ∃ reply, t = [⟨.search request, reply⟩] ∧ r = reply.map RetrievalResponse.relevantChunks := by
  obtain ⟨reply, t', rfl, hrest⟩ := trace_command_bind_iff.mp h
  refine ⟨reply, ?_⟩
  cases reply with
  | ok response =>
    obtain ⟨rfl, rfl⟩ := trace_pure_iff.mp hrest
    exact ⟨rfl, rfl⟩
  | error raised =>
    obtain ⟨rfl, rfl⟩ := trace_throw_iff.mp hrest
    exact ⟨rfl, rfl⟩

/-- The searches for a request: one, or a second behind an answer that is transient. -/
structure Searched (request : SearchRequest) (t : ContextTrace) (r : Except PyRaise FetchedRetrieval) :
    Prop where
  quiet : wholes t = []
  requests : ∀ s ∈ searches t, s.1 = request
  length_pos : 0 < (searches t).length
  again : 1 < (searches t).length → (searches t).length = 2 ∧
    ∃ first, (searches t).head? = some (request, .ok first) ∧ isTransient first.status = true
  returned : ∀ res, r = .ok res → (searches t).getLast? = some (request, .ok res)
  answered : ∀ res, (searches t).getLast? = some (request, .ok res) →
    isFailure res.status = false → r = .ok res

/-- An answer that the service could not be reached in time fails a turn. -/
theorem isFailure_of_isTransient {status : RetrievalStatus} (h : isTransient status = true) :
    isFailure status = true := by
  cases status with
  | unavailable | timeout => rfl
  | ok | noMatch | noScope | accessDenied | notIndexed | indexing | indexingFailed => cases h

/-- One search. -/
theorem searched_once {request : SearchRequest} {r f : Except PyRaise FetchedRetrieval}
    (hsearches : searches t = [(request, f)]) (hquiet : wholes t = [])
    (hr : ∀ res, r = .ok res → f = .ok res)
    (hfound : ∀ res, f = .ok res → isFailure res.status = false → r = .ok res) :
    Searched request t r where
  quiet := hquiet
  requests := by
    rw [hsearches]
    intro s hs
    rw [List.mem_singleton.mp hs]
  length_pos := by
    rw [hsearches]
    exact Nat.one_pos
  again := by
    rw [hsearches]
    exact fun hlt => absurd hlt (Nat.lt_irrefl 1)
  returned := by
    rw [hsearches]
    intro res hres
    rw [hr res hres]
    rfl
  answered := by
    rw [hsearches]
    intro res hlast hfine
    exact hfound res (congrArg Prod.snd (Option.some.inj hlast)) hfine

theorem searched_search {request : SearchRequest} {r : Except PyRaise FetchedRetrieval}
    (h : (search request).Trace t r) : Searched request t r := by
  rcases trace_bind_iff.mp h with ⟨raised, hfirst, rfl⟩ | ⟨first, u, v, hfirst, hrest, rfl⟩
  · obtain ⟨reply, rfl, hreply⟩ := trace_searchOnce hfirst
    refine searched_once (f := .error raised) ?_ rfl (fun _ hres => hres) fun _ hres _ => hres
    rw [hreply]
    rfl
  · obtain ⟨reply, rfl, hreply⟩ := trace_searchOnce hfirst
    by_cases htransient : isTransient first.status = true
    · rw [if_pos htransient] at hrest
      obtain ⟨slept, v', rfl, hslept⟩ := trace_command_bind_iff.mp hrest
      cases slept with
      | error raised =>
        obtain ⟨rfl, rfl⟩ := trace_throw_iff.mp hslept
        refine searched_once (f := .ok first) ?_ rfl (fun _ hres => by cases hres) ?_
        · rw [hreply]
          rfl
        · intro res hres hfine
          obtain rfl := Except.ok.inj hres
          rw [isFailure_of_isTransient htransient] at hfine
          cases hfine
      | ok _ =>
        obtain ⟨again, rfl, rfl⟩ := trace_searchOnce hslept
        have hsearches : searches ([⟨.search request, reply⟩] ++ ⟨.sleep, .ok ()⟩ :: [⟨.search request, again⟩]) =
            [(request, .ok first), (request, again.map RetrievalResponse.relevantChunks)] := by
          rw [hreply]
          rfl
        refine ⟨rfl, ?_, ?_, ?_, ?_, ?_⟩
        · rw [hsearches]
          intro s hs
          rcases List.mem_cons.mp hs with rfl | hs
          · rfl
          · rw [List.mem_singleton.mp hs]
        · rw [hsearches]
          exact Nat.two_pos
        · rw [hsearches]
          intro _
          exact ⟨rfl, first, rfl, htransient⟩
        · rw [hsearches]
          intro res hres
          rw [hres]
          rfl
        · rw [hsearches]
          intro res hlast _
          exact congrArg Prod.snd (Option.some.inj hlast)
    · rw [if_neg htransient] at hrest
      obtain ⟨rfl, rfl⟩ := trace_pure_iff.mp hrest
      refine searched_once (f := .ok first) ?_ rfl (fun _ hres => hres) fun _ hres _ => hres
      rw [hreply]
      rfl

/-! ## The fetch -/

/-- Nothing is searched, and the whole text is given where it can stand for a search. -/
def Whole (t : ContextTrace) (r : Except PyRaise (Option FetchedRetrieval)) : Prop :=
  searches t = [] ∧ ((∃ res, r = .ok (some res) ∧ wholes t = [.ok res] ∧ UsableWhole res) ∨
    (∀ res, r ≠ .ok (some res)) ∧ ∀ res, .ok res ∈ wholes t → ¬ UsableWhole res)

theorem whole_nil : Whole [] (.ok none) :=
  ⟨rfl, .inr ⟨fun res hres => (by cases hres), fun res hres => (by cases hres)⟩⟩

/-- A request for the whole text that gives nothing. -/
theorem whole_none {userId : String} {fileIds : List String} {maxTokens : Int}
    {reply : Except PyRaise RetrievalResponse} {r : Except PyRaise (Option FetchedRetrieval)}
    (hr : ∀ res, r ≠ .ok (some res))
    (hreply : ∀ res, reply.map RetrievalResponse.documentChunks = .ok res → ¬ UsableWhole res) :
    Whole [⟨.documents userId fileIds maxTokens, reply⟩] r :=
  ⟨rfl, .inr ⟨hr, fun res hres => hreply res (List.mem_singleton.mp hres).symm⟩⟩

theorem trace_whole {r : Except PyRaise (Option FetchedRetrieval)}
    (h : (collector.wholeText ctx).Trace t r) : Whole t r := by
  rw [wholeText] at h
  by_cases henabled : collector.config.fullTextEnabled = true
  · rw [if_pos henabled, tryFullText] at h
    by_cases hbudget : collector.config.fullTextShare collector.inputBudgetTokens ≤ 0
    · simp only [if_pos hbudget] at h
      obtain ⟨rfl, rfl⟩ := trace_pure_iff.mp h
      exact whole_nil
    · simp only [if_neg hbudget] at h
      obtain ⟨reply, t', rfl, hrest⟩ := trace_command_bind_iff.mp h
      cases reply with
      | ok response =>
        by_cases hunusable : response.documentChunks.status ≠ .ok ∨
            response.documentChunks.truncated = true ∨ response.documentChunks.chunks = []
        · simp only [if_pos hunusable] at hrest
          obtain ⟨rfl, rfl⟩ := trace_pure_iff.mp hrest
          refine whole_none (fun res hres => (by cases hres)) fun res' hres' husable => ?_
          obtain rfl := Except.ok.inj hres'
          rcases hunusable with hstatus | htruncated | hchunks
          · exact hstatus husable.1
          · rw [husable.2.1] at htruncated
            cases htruncated
          · exact husable.2.2 hchunks
        · simp only [if_neg hunusable] at hrest
          obtain ⟨rfl, rfl⟩ := trace_pure_iff.mp hrest
          simp only [not_or, ne_eq, not_not, Bool.not_eq_true] at hunusable
          exact ⟨rfl, .inl ⟨response.documentChunks, rfl, rfl, hunusable⟩⟩
      | error raised =>
        cases raised with
        | exception exc =>
          obtain ⟨rfl, rfl⟩ := trace_pure_iff.mp hrest
          exact whole_none (fun res hres => (by cases hres)) fun res hres => (by cases hres)
        | cancelled =>
          obtain ⟨rfl, rfl⟩ := trace_throw_iff.mp hrest
          exact whole_none (fun res hres => (by cases hres)) fun res hres => (by cases hres)
  · rw [if_neg henabled] at h
    obtain ⟨rfl, rfl⟩ := trace_pure_iff.mp h
    exact whole_nil

/-- A search is made for the files of the request, behind commands that ask nothing about them. -/
theorem trace_searchAnew {r : Except PyRaise FetchedRetrieval} (h : (collector.searchAnew ctx).Trace t r) :
    (searches t = [] ∧ wholes t = [] ∧ ∀ res, r ≠ .ok res) ∨
      ∃ rq previousChunkIds u v, t = u ++ v ∧ searches u = [] ∧ wholes u = [] ∧
        Searched (collector.searchRequest ctx rq previousChunkIds) v r := by
  rcases trace_bind_iff.mp h with ⟨raised, hquery, rfl⟩ | ⟨rq, u, v, hquery, hrest, rfl⟩
  · obtain ⟨hsearches, hwholes⟩ := quiet_of_asksNoDocuments ((only_query fun _ => trivial).of_trace hquery)
    exact .inl ⟨hsearches, hwholes, fun res hres => (by cases hres)⟩
  · obtain ⟨hsearches, hwholes⟩ := quiet_of_asksNoDocuments ((only_query fun _ => trivial).of_trace hquery)
    rcases trace_bind_iff.mp hrest with ⟨raised, hprevious, rfl⟩ | ⟨previous, u', v', hprevious, hsearch, rfl⟩
    · obtain ⟨hsearches', hwholes'⟩ := quiet_of_asksNoDocuments ((only_previous trivial).of_trace hprevious)
      refine .inl ⟨?_, ?_, fun res hres => (by cases hres)⟩
      · rw [searches_append, hsearches, hsearches']
        rfl
      · rw [wholes_append, hwholes, hwholes']
        rfl
    · obtain ⟨hsearches', hwholes'⟩ := quiet_of_asksNoDocuments ((only_previous trivial).of_trace hprevious)
      refine .inr ⟨rq, previous, u ++ u', v', (List.append_assoc _ _ _).symm, ?_, ?_, searched_search hsearch⟩
      · rw [searches_append, hsearches, hsearches']
        rfl
      · rw [wholes_append, hwholes, hwholes']
        rfl

/-- What a fetch has to do with what was asked along its trace. -/
structure Fetched (ctx : CollectRequest) (t : ContextTrace)
    (r : Except PyRaise (Option FetchedRetrieval)) : Prop where
  length_le : (searches t).length ≤ 2
  requests : ∃ request : SearchRequest, request.fileIds = ctx.fileIds ∧ ∀ s ∈ searches t, s.1 = request
  again : 1 < (searches t).length →
    ∃ request first, (searches t).head? = some (request, .ok first) ∧ isTransient first.status = true
  returned : ∀ res, r = .ok (some res) → Delivered t res
  answered : ∀ res, Delivered t res → isFailure res.status = false → r = .ok (some res)
  silent : ctx.fileIds = [] ↔ r = .ok none
  unasked : ctx.fileIds = [] → searches t = [] ∧ wholes t = []

/-- Recording the chunks neither raises nor asks anything. -/
theorem trace_recorded {res : FetchedRetrieval} {r : Except PyRaise (Option FetchedRetrieval)}
    (h : (do collector.recordChunks ctx res; return some res : ContextScript _).Trace t r) :
    r = .ok (some res) ∧ searches t = [] ∧ wholes t = [] := by
  have hquiet : ∀ {u r'}, (collector.recordChunks ctx res).Trace u r' →
      r' = .ok () ∧ searches u = [] ∧ wholes u = [] := by
    intro u r' hu
    refine ⟨?_, quiet_of_asksNoDocuments ((only_recordChunks (fun _ => trivial) res).of_trace hu)⟩
    rw [recordChunks] at hu
    split at hu
    · obtain ⟨answer, t', rfl, hpure⟩ := (trace_command_bind_iff (f := Script.pure)).mp hu
      cases hpure
      rfl
    · exact (trace_pure_iff.mp hu).2
  rcases trace_bind_iff.mp h with ⟨raised, hrecord, rfl⟩ | ⟨_, u, v, hrecord, hpure, rfl⟩
  · cases (hquiet hrecord).1
  · obtain ⟨rfl, rfl⟩ := trace_pure_iff.mp hpure
    rw [List.append_nil]
    exact ⟨rfl, (hquiet hrecord).2⟩

/-- Along a trace without searches, and without a whole text that can be used, nothing is delivered. -/
theorem not_delivered {res : FetchedRetrieval} (hsearches : searches t = [])
    (hwholes : ∀ res, .ok res ∈ wholes t → ¬ UsableWhole res) : ¬ Delivered t res := by
  intro h
  rcases h with ⟨hmem, husable⟩ | ⟨request, hlast⟩
  · exact hwholes res hmem husable
  · rw [hsearches] at hlast
    cases hlast

theorem fetched_of_raised {raised : PyRaise} (collector : ContextCollector Digest) (hfiles : ctx.fileIds ≠ []) (hsearches : searches t = [])
    (hwholes : ∀ res, .ok res ∈ wholes t → ¬ UsableWhole res) : Fetched ctx t (.error raised) where
  length_le := by simp [hsearches]
  requests := ⟨collector.searchRequest ctx (rawQuery ctx) [], rfl, by simp [hsearches]⟩
  again := by simp [hsearches]
  returned := fun res hres => (by cases hres)
  answered := fun res hres => absurd hres (not_delivered hsearches hwholes)
  silent := iff_of_false hfiles fun hr => (by cases hr)
  unasked := fun hnone => absurd hnone hfiles

/-- A whole text is what is delivered. -/
theorem fetched_of_whole {res : FetchedRetrieval} (hfiles : ctx.fileIds ≠ []) (hsearches : searches t = [])
    (hwholes : wholes t = [.ok res]) (husable : UsableWhole res) (request : SearchRequest)
    (hrequest : request.fileIds = ctx.fileIds) : Fetched ctx t (.ok (some res)) where
  length_le := by simp [hsearches]
  requests := ⟨request, hrequest, by simp [hsearches]⟩
  again := by simp [hsearches]
  returned := by
    intro res' hres'
    obtain rfl := Option.some.inj (Except.ok.inj hres')
    refine .inl ⟨?_, husable⟩
    rw [hwholes]
    exact List.mem_singleton_self _
  answered := by
    intro res' hres' _
    rcases hres' with ⟨hmem, -⟩ | ⟨request', hlast⟩
    · rw [hwholes, List.mem_singleton] at hmem
      rw [Except.ok.inj hmem]
    · rw [hsearches] at hlast
      cases hlast
  silent := iff_of_false hfiles fun hr => (by cases hr)
  unasked := fun hnone => absurd hnone hfiles

/-- What the last search found is what is delivered. -/
theorem fetched_of_searched {request : SearchRequest} {u : ContextTrace} {r : Except PyRaise FetchedRetrieval}
    (hfiles : ctx.fileIds ≠ []) (hrequest : request.fileIds = ctx.fileIds) (h : Searched request u r)
    (hsearches : searches t = searches u) (hwholes : ∀ res, .ok res ∈ wholes t → ¬ UsableWhole res) :
    Fetched ctx t (r.map some) where
  length_le := by
    rw [hsearches]
    by_cases hone : 1 < (searches u).length
    · exact (h.again hone).1.le
    · omega
  requests := ⟨request, hrequest, by rw [hsearches]; exact h.requests⟩
  again := by
    rw [hsearches]
    intro hlt
    obtain ⟨-, first, hfirst, htransient⟩ := h.again hlt
    exact ⟨_, first, hfirst, htransient⟩
  returned := by
    intro res hres
    cases r with
    | error raised => cases hres
    | ok res' =>
      obtain rfl := Option.some.inj (Except.ok.inj hres)
      refine .inr ⟨request, ?_⟩
      rw [hsearches]
      exact h.returned _ rfl
  answered := by
    intro res hres hfine
    rcases hres with ⟨hmem, husable⟩ | ⟨request', hlast⟩
    · exact absurd husable (hwholes res hmem)
    · rw [hsearches] at hlast
      have hsame : request' = request := h.requests _ (List.mem_of_getLast? hlast)
      rw [h.answered res (hsame ▸ hlast) hfine]
      rfl
  silent := by
    refine iff_of_false hfiles fun hr => ?_
    cases r with
    | error raised => cases hr
    | ok res => cases hr
  unasked := fun hnone => absurd hnone hfiles

theorem fetched_of_found {given : Option FetchedRetrieval} {u v w : ContextTrace}
    {r : Except PyRaise FetchedRetrieval} (hfiles : ctx.fileIds ≠ []) (hwhole : Whole u (.ok given))
    (hfound : (collector.wholeOrFound ctx given).Trace v r) (hw : searches w = [] ∧ wholes w = []) :
    Fetched ctx (u ++ (v ++ w)) (r.map some) := by
  obtain ⟨hsearches, hwhole⟩ := hwhole
  cases given with
  | some res =>
    obtain ⟨rfl, rfl⟩ := trace_pure_iff.mp hfound
    rcases hwhole with ⟨res', hres', hwholes, husable⟩ | ⟨hnone, -⟩
    · obtain rfl := Option.some.inj (Except.ok.inj hres')
      refine fetched_of_whole hfiles ?_ ?_ husable (collector.searchRequest ctx (rawQuery ctx) []) rfl
      · rw [List.nil_append, searches_append, hsearches, hw.1]
        rfl
      · rw [List.nil_append, wholes_append, hwholes, hw.2]
        rfl
    · exact absurd rfl (hnone res)
  | none =>
    have hnot : ∀ res, .ok res ∈ wholes u → ¬ UsableWhole res := by
      rcases hwhole with ⟨res, hres, -, -⟩ | ⟨-, hnot⟩
      · cases hres
      · exact hnot
    rcases trace_searchAnew hfound with ⟨hs, hws, hraised⟩ | ⟨rq, previous, u', v', rfl, hs, hws, hsearched⟩
    · cases r with
      | ok res => exact absurd rfl (hraised res)
      | error raised =>
        refine fetched_of_raised collector hfiles ?_ ?_
        · rw [searches_append, searches_append, hsearches, hs, hw.1]
          rfl
        · rw [wholes_append, wholes_append, hws, hw.2, List.append_nil, List.append_nil]
          exact hnot
    · refine fetched_of_searched hfiles rfl hsearched ?_ ?_
      · rw [searches_append, searches_append, searches_append, hsearches, hs, hw.1, List.append_nil]
        rfl
      · simp only [wholes_append, hws, hsearched.quiet, hw.2, List.append_nil]
        exact hnot

theorem fetched_fetchRetrieval {r : Except PyRaise (Option FetchedRetrieval)}
    (h : (collector.fetchRetrieval ctx).Trace t r) : Fetched ctx t r := by
  rw [fetchRetrieval] at h
  by_cases hfiles : ctx.fileIds = []
  · rw [if_pos hfiles] at h
    obtain ⟨rfl, rfl⟩ := trace_pure_iff.mp h
    exact {
      length_le := Nat.zero_le _
      requests := ⟨collector.searchRequest ctx (rawQuery ctx) [], rfl, List.forall_mem_nil _⟩
      again := fun hlt => absurd hlt (Nat.not_lt_zero 1)
      returned := fun res hres => (by cases hres)
      answered := fun res hres => absurd hres (not_delivered rfl fun res hmem => (by cases hmem))
      silent := iff_of_true hfiles rfl
      unasked := fun _ => ⟨rfl, rfl⟩ }
  rw [if_neg hfiles] at h
  rcases trace_bind_iff.mp h with ⟨raised, hwhole, rfl⟩ | ⟨given, u, v, hwhole, hrest, rfl⟩
  · obtain ⟨hsearches, ⟨res, hres, -, -⟩ | ⟨-, hwholes⟩⟩ := trace_whole hwhole
    · cases hres
    · exact fetched_of_raised collector hfiles hsearches hwholes
  · have hgiven := trace_whole hwhole
    rcases trace_bind_iff.mp hrest with ⟨raised, hfound, rfl⟩ | ⟨res, v₁, v₂, hfound, hend, rfl⟩
    · have hfetched := fetched_of_found hfiles hgiven hfound (w := []) ⟨rfl, rfl⟩
      rw [List.append_nil] at hfetched
      exact hfetched
    · obtain ⟨rfl, hquiet⟩ := trace_recorded hend
      exact fetched_of_found hfiles hgiven hfound hquiet

/-! ## The collection -/

/-- What is gathered is the result, however the fetch ends. -/
theorem trace_gathered {α : Type} {fetch : ContextScript α} {r : Except PyRaise (Except PyRaise α)}
    (h : (gathered fetch).Trace t r) : ∃ result, fetch.Trace t result ∧ r = .ok result := by
  rcases trace_handle_iff.mp h with ⟨result, hfetch, rfl⟩ | ⟨raised, u, v, hfetch, hpure, rfl⟩
  · obtain ⟨a, u, v, ha, hpure, rfl⟩ := trace_bind_ok_iff.mp hfetch
    obtain ⟨rfl, hresult⟩ := trace_pure_iff.mp hpure
    obtain rfl := Except.ok.inj hresult
    rw [List.append_nil]
    exact ⟨.ok a, ha, rfl⟩
  · obtain ⟨rfl, rfl⟩ := trace_pure_iff.mp hpure
    rw [List.append_nil]
    rcases trace_bind_iff.mp hfetch with ⟨e, he, hraised⟩ | ⟨a, u', v', -, hpure, -⟩
    · obtain rfl := Except.error.inj hraised
      exact ⟨.error raised, he, rfl⟩
    · cases (trace_pure_iff.mp hpure).2

theorem trace_fetchMemory {r : Except PyRaise MemoryContext} (h : (fetchMemory ctx).Trace t r) :
    t = [⟨.memory ctx.userId ctx.conversationId ctx.userMessage, r⟩] := by
  obtain ⟨reply, t', rfl, hrest⟩ := trace_command_bind_iff.mp h
  cases reply with
  | ok memory =>
    obtain ⟨rfl, rfl⟩ := trace_pure_iff.mp hrest
    rfl
  | error raised =>
    obtain ⟨rfl, rfl⟩ := trace_throw_iff.mp hrest
    rfl

theorem trace_fetchGraph {r : Except PyRaise GraphContext} (h : (fetchGraph ctx).Trace t r) :
    t = [⟨.graph ctx.userId ctx.conversationId ctx.userMessage, r⟩] := by
  obtain ⟨reply, t', rfl, hrest⟩ := trace_command_bind_iff.mp h
  cases reply with
  | ok graph =>
    obtain ⟨rfl, rfl⟩ := trace_pure_iff.mp hrest
    rfl
  | error raised =>
    obtain ⟨rfl, rfl⟩ := trace_throw_iff.mp hrest
    rfl

/-- A collection ends with the bundle of what its three fetches gave. -/
theorem trace_collect [DecidableEq Digest] {r : Except PyRaise ContextBundle}
    (h : (collector.collect ctx).Trace t r) : ∃ memory graph retrieval u,
      t = ⟨.memory ctx.userId ctx.conversationId ctx.userMessage, memory⟩ ::
        ⟨.graph ctx.userId ctx.conversationId ctx.userMessage, graph⟩ :: u ∧
      Fetched ctx u retrieval ∧ r = .ok (collector.bundleOf memory graph retrieval) := by
  have hgathered : ∀ {α : Type} {fetch : ContextScript α} {u raised}, ¬ (gathered fetch).Trace u (.error raised) := by
    intro α fetch u raised hraised
    obtain ⟨result, -, hresult⟩ := trace_gathered hraised
    cases hresult
  rcases trace_bind_iff.mp h with ⟨raised, hmemory, -⟩ | ⟨memory, t₁, s₁, hmemory, hbehind, rfl⟩
  · exact absurd hmemory hgathered
  rcases trace_bind_iff.mp hbehind with ⟨raised, hgraph, -⟩ | ⟨graph, t₂, s₂, hgraph, hlast, rfl⟩
  · exact absurd hgraph hgathered
  rcases trace_bind_iff.mp hlast with ⟨raised, hretrieval, -⟩ | ⟨retrieval, t₃, s₃, hretrieval, hpure, rfl⟩
  · exact absurd hretrieval hgathered
  obtain ⟨rfl, rfl⟩ := trace_pure_iff.mp hpure
  obtain ⟨_, hm, hr⟩ := trace_gathered hmemory
  obtain rfl := Except.ok.inj hr
  obtain rfl := trace_fetchMemory hm
  obtain ⟨_, hg, hr⟩ := trace_gathered hgraph
  obtain rfl := Except.ok.inj hr
  obtain rfl := trace_fetchGraph hg
  obtain ⟨_, hf, hr⟩ := trace_gathered hretrieval
  obtain rfl := Except.ok.inj hr
  exact ⟨memory, graph, retrieval, t₃, by simp, fetched_fetchRetrieval hf, rfl⟩

/-- The turn goes on behind a bundle whose retrieval has not failed. -/
theorem exists_notice_iff {retrieval : Option RetrievalContext} :
    (∃ notice, enforceDocumentContext ctx.fileIds retrieval = .ok notice) ↔
      ctx.fileIds = [] ∨ ∃ res, retrieval = some res ∧ isFailure res.status = false := by
  unfold enforceDocumentContext
  by_cases hfiles : ctx.fileIds = []
  · rw [if_pos hfiles]
    exact iff_of_true ⟨[], rfl⟩ (.inl hfiles)
  · rw [if_neg hfiles]
    cases retrieval with
    | none => simp [hfiles]
    | some res =>
      cases hfailure : isFailure res.status with
      | true => simp [hfiles, hfailure]
      | false => simp [hfailure]

/-- Whatever the services and the models answer or raise, a collection ends with a bundle. The documents
are searched no more than twice, for one request about the files of the turn, and twice only if the first
answer was that the service could not be reached in time; and the turn goes on behind the bundle exactly if
it has no files, or the service has delivered an answer for them that is no failure, which is then in the
bundle. -/
theorem collect_documents [DecidableEq Digest] {r : Except PyRaise ContextBundle}
    (h : (collector.collect ctx).Trace t r) : ∃ bundle, r = .ok bundle ∧ (searches t).length ≤ 2 ∧
      (∃ request : SearchRequest, request.fileIds = ctx.fileIds ∧ ∀ s ∈ searches t, s.1 = request) ∧
      (1 < (searches t).length →
        ∃ request first, (searches t).head? = some (request, .ok first) ∧ isTransient first.status = true) ∧
      ((∃ notice, enforceDocumentContext ctx.fileIds bundle.retrieval = .ok notice) ↔
        ctx.fileIds = [] ∨ ∃ res, Delivered t res ∧ isFailure res.status = false) ∧
      ∀ retrieval, bundle.retrieval = some retrieval → ∃ res graph, Delivered t res ∧
        retrieval = collector.merger.mergeRetrieval res.toRetrievalContext graph := by
  obtain ⟨memory, graph, retrieval, u, rfl, hfetched, rfl⟩ := trace_collect h
  -- The memory and the graph are asked nothing about the documents.
  have hbundle : (collector.bundleOf memory graph retrieval).retrieval =
      ((retrieval.toOption.bind id).map FetchedRetrieval.toRetrievalContext).map
        (collector.merger.mergeRetrieval · graph.toOption) := rfl
  have hsome : ∀ merged, (collector.bundleOf memory graph retrieval).retrieval = some merged →
      ∃ res, retrieval = .ok (some res) ∧
        merged = collector.merger.mergeRetrieval res.toRetrievalContext graph.toOption := by
    intro merged hmerged
    rw [hbundle, Option.map_map, Option.map_eq_some_iff] at hmerged
    obtain ⟨res, hres, rfl⟩ := hmerged
    cases retrieval with
    | error raised => cases hres
    | ok found =>
      obtain rfl : found = some res := hres
      exact ⟨res, rfl, rfl⟩
  refine ⟨_, rfl, hfetched.length_le, hfetched.requests, hfetched.again, ?_, ?_⟩
  · rw [exists_notice_iff]
    refine or_congr_right ?_
    constructor
    · intro hfine
      obtain ⟨merged, hmerged, hstatus⟩ := hfine
      obtain ⟨res, hres, rfl⟩ := hsome merged hmerged
      rw [ContextMerger.mergeRetrieval_status] at hstatus
      exact ⟨res, hfetched.returned res hres, hstatus⟩
    · intro hdelivered
      obtain ⟨res, hres, hstatus⟩ := hdelivered
      have hreturned := hfetched.answered res hres hstatus
      refine ⟨collector.merger.mergeRetrieval res.toRetrievalContext graph.toOption, ?_, ?_⟩
      · rw [hbundle, hreturned]
        rfl
      · rw [ContextMerger.mergeRetrieval_status]
        exact hstatus
  · intro merged hmerged
    obtain ⟨res, hres, rfl⟩ := hsome merged hmerged
    exact ⟨res, graph.toOption, hfetched.returned res hres, rfl⟩

/-- A collector that remembers chunks, without models. -/
def plainCollector : ContextCollector Text where
  merger := ContextMerger.textMerger
  config := { fullTextShare := fun _ => 0 }

/-- A question about a file. -/
def aboutFile : CollectRequest where
  userId := "u"
  conversationId := "c"
  fileIds := ["f"]
  userMessage := "what is in it".toList

/-- The services answer, but for the graph; one passage is found. -/
def onePassage : (c : ContextCommand) → ContextReply c
  | .memory _ _ _ => .ok {}
  | .graph _ _ _ => .error (.exception { cls := .grpcError })
  | .documents _ _ _ => .error .cancelled
  | .rewrite ⟨.client _, _⟩ => none
  | .rewrite ⟨.adapter _, _⟩ => .error .cancelled
  | .getPrevious _ => []
  | .search _ => .ok { chunks := [("chunk", { content := ['p'] })] }
  | .sleep => .ok ()
  | .record _ _ => ()

/-- But the first search is too late for an answer. -/
def secondAnswers (before : ContextTrace) : (c : ContextCommand) → ContextReply c
  | .search request =>
    if (searches before).length = 0 then .ok { status := .timeout } else onePassage (.search request)
  | c => onePassage c

def answeredRun : ContextTrace × Except PyRaise ContextBundle :=
  followFrom secondAnswers [] (plainCollector.collect aboutFile)

theorem collect_documents_answered : (searches answeredRun.1).length = 2 ∧
    ∃ bundle, answeredRun.2 = .ok bundle ∧ (searches answeredRun.1).length ≤ 2 ∧
      (∃ request : SearchRequest, request.fileIds = ["f"] ∧ ∀ s ∈ searches answeredRun.1, s.1 = request) ∧
      (1 < (searches answeredRun.1).length → ∃ request first,
        (searches answeredRun.1).head? = some (request, .ok first) ∧ isTransient first.status = true) ∧
      ((∃ notice, enforceDocumentContext ["f"] bundle.retrieval = .ok notice) ↔
        (["f"] : List String) = [] ∨ ∃ res, Delivered answeredRun.1 res ∧ isFailure res.status = false) ∧
      ∀ retrieval, bundle.retrieval = some retrieval → ∃ res graph, Delivered answeredRun.1 res ∧
        retrieval = ContextMerger.textMerger.mergeRetrieval res.toRetrievalContext graph :=
  ⟨rfl, collect_documents (trace_followFrom secondAnswers [] (plainCollector.collect aboutFile))⟩

end ContextCollector

end LlmService
