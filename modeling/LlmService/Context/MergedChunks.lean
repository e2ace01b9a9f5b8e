import LlmService.Context.Merger
import LlmService.Lib.Infix
import LlmService.Lib.Sieve
import LlmService.Lib.StableSort

/-!
# What the merger keeps

A chunk without a file id leaves the fingerprint of its bare text behind, which
is taken for that of a description: a chunk of another file with the same text
is dropped, in the same merge or, where ranking puts the chunks in that order,
in the next one.
-/

namespace LlmService

namespace ContextMerger

section Definitions

variable {Digest : Type} [DecidableEq Digest] (m : ContextMerger Digest)

/-- What `merge` makes of the retrieval result and the graph. -/
def merge (retrieval : RetrievalContext) (graph : Option GraphContext) :
    RetrievalContext × Option GraphContext :=
  (m.mergeRetrieval retrieval graph, graph.map deduplicateGraph)

/-- The text that is fingerprinted. -/
def normalize (text : Text) : Text :=
  PyText.dropEndWhile (· ∈ ['.', '!', '?', ';', ':', ','])
    (PyText.join [' '] (PyText.words (text.flatMap m.unicode.casefold)))

/-- The normalised descriptions of the graph. -/
def descriptions (graph : Option GraphContext) : List Text :=
  match graph with
  | none => []
  | some graph => graph.entities.filterMap fun entity =>
    match entity.description with
    | none | some [] => none
    | some description => some (m.normalize description)

/-- The file of a chunk, and its normalised text. -/
def chunkKey (chunk : DocumentChunk) : Text × Text := (chunk.fileId, m.normalize chunk.content)

/-- Ranked higher, or ranked alike and delivered earlier. -/
def RankedBefore (e f : Nat × DocumentChunk) : Prop :=
  f.2.score < e.2.score ∨ e.2.score = f.2.score ∧ e.1 < f.1

/-- The claim for a merge: every passage is kept, for its file, but those of the graph; the
survivors are ranked by score, in the order they came; and a second merge changes nothing. -/
structure MergesSafely (retrieval : RetrievalContext) (graph : Option GraphContext) : Prop where
  dropped : ∀ chunk ∈ retrieval.chunks, m.normalize chunk.content ∉ m.descriptions graph →
    ∃ kept ∈ (m.merge retrieval graph).1.chunks, m.chunkKey kept = m.chunkKey chunk
  apart : ∀ x ∈ retrieval.chunks, ∀ y ∈ retrieval.chunks, x.fileId ≠ y.fileId →
    m.normalize x.content = m.normalize y.content →
    m.normalize x.content ∉ m.descriptions graph →
      ∃ a ∈ (m.merge retrieval graph).1.chunks, ∃ b ∈ (m.merge retrieval graph).1.chunks,
        a.fileId = x.fileId ∧ b.fileId = y.fileId ∧
        m.normalize a.content = m.normalize x.content ∧
        m.normalize b.content = m.normalize x.content
  ranked : ∃ entries : List (Nat × DocumentChunk),
    (m.merge retrieval graph).1.chunks = entries.map Prod.snd ∧
      (∀ entry ∈ entries, retrieval.chunks[entry.1]? = some entry.2) ∧
      entries.Pairwise RankedBefore
  idempotent : m.merge (m.merge retrieval graph).1 (m.merge retrieval graph).2 =
    m.merge retrieval graph

/-- The chunk is the first of its file with its text. -/
def FirstAt (chunks : List DocumentChunk) (i : Nat) (chunk : DocumentChunk) : Prop :=
  chunks[i]? = some chunk ∧
    ∀ j < i, ∀ other, chunks[j]? = some other → m.chunkKey other ≠ m.chunkKey chunk

/-- A passage without a file id comes behind those of the files with its text, and ranks no
higher. -/
def FilelessLast (chunks : List DocumentChunk) (graph : Option GraphContext) : Prop :=
  ∀ i j x y, m.FirstAt chunks i x → m.FirstAt chunks j y → x.fileId = [] → y.fileId ≠ [] →
    m.normalize x.content = m.normalize y.content → m.normalize x.content ∉ m.descriptions graph →
      j < i ∧ x.score ≤ y.score

/-- What is kept of a chunk behind the chunks that are kept. -/
def pickChunk (described : List Text) (kept : List DocumentChunk) (chunk : DocumentChunk) :
    Option DocumentChunk :=
  if m.normalize chunk.content ∈ described ∨
      ([], m.normalize chunk.content) ∈ kept.map m.chunkKey ∨
      m.chunkKey chunk ∈ kept.map m.chunkKey then none
  else some chunk

end Definitions

/-! ## Fingerprints -/

section Fingerprints

variable {Digest : Type} {m : ContextMerger Digest} {graph : Option GraphContext}

theorem separator_not_mem_normalize (text : Text) : '\x1f' ∉ m.normalize text := by
  intro hmem
  rcases PyText.mem_join ((PyText.dropEndWhile_isPrefix _ _).subset hmem) with h | ⟨word, hword, h⟩
  · exact absurd (List.mem_singleton.mp h) (by decide)
  · have hspace := PyText.not_isSpace_of_mem_words hword _ h
    revert hspace
    decide

/-- Texts that end in different scopes, or differ, have different fingerprints. -/
theorem generateFingerprint_eq_iff (hsha : Function.Injective m.sha256) {text text' scope scope' : Text} :
    m.generateFingerprint text scope = m.generateFingerprint text' scope' ↔
      scope = scope' ∧ m.normalize text = m.normalize text' := by
  constructor
  · intro h
    have heq : scope ++ ['\x1f'] ++ m.normalize text = scope' ++ ['\x1f'] ++ m.normalize text' :=
      hsha h
    have hreverse := congrArg List.reverse heq
    simp only [List.reverse_append, List.reverse_singleton, List.singleton_append] at hreverse
    have hcut := append_cons_inj
      (fun hmem => separator_not_mem_normalize text (List.mem_reverse.mp hmem))
      (fun hmem => separator_not_mem_normalize text' (List.mem_reverse.mp hmem)) hreverse
    exact ⟨List.reverse_injective hcut.2, List.reverse_injective hcut.1⟩
  · intro h
    show m.sha256 (scope ++ ['\x1f'] ++ m.normalize text) = m.sha256 (scope' ++ _ ++ m.normalize text')
    rw [h.1, h.2]

theorem mem_graphFingerprints_iff (hsha : Function.Injective m.sha256) {text scope : Text} :
    m.generateFingerprint text scope ∈ m.graphFingerprints graph ↔
      scope = [] ∧ m.normalize text ∈ m.descriptions graph := by
  cases graph with
  | none => simp [graphFingerprints, descriptions]
  | some graph =>
    rw [graphFingerprints, descriptions, List.mem_filterMap, List.mem_filterMap]
    constructor
    · rintro ⟨entity, hentity, hfp⟩
      cases hdescription : entity.description with
      | none => simp [hdescription] at hfp
      | some description =>
        cases description with
        | nil => simp [hdescription] at hfp
        | cons c rest =>
          rw [hdescription] at hfp
          have heq := (generateFingerprint_eq_iff hsha).mp (Option.some.inj hfp)
          exact ⟨heq.1.symm, entity, hentity, by rw [hdescription, ← heq.2]⟩
    · rintro ⟨hscope, entity, hentity, htext⟩
      cases hdescription : entity.description with
      | none => simp [hdescription] at htext
      | some description =>
        cases description with
        | nil => simp [hdescription] at htext
        | cons c rest =>
          rw [hdescription] at htext
          refine ⟨entity, hentity, ?_⟩
          rw [hdescription]
          exact congrArg some ((generateFingerprint_eq_iff hsha).mpr
            ⟨hscope.symm, Option.some.inj htext⟩)

/-- The loop remembers the fingerprints of the graph and of the chunks that it keeps. -/
theorem dedupLoop_eq_sift [DecidableEq Digest] (hsha : Function.Injective m.sha256) {seen : List Digest}
    {kept chunks : List DocumentChunk}
    (hseen : ∀ fp, fp ∈ seen ↔ fp ∈ m.graphFingerprints graph ∨
      fp ∈ kept.map fun chunk => m.generateFingerprint chunk.content chunk.fileId) :
    kept ++ m.dedupLoop seen chunks = Sieve.sift (m.pickChunk (m.descriptions graph)) kept chunks := by
  have hkept : ∀ text scope, (m.generateFingerprint text scope ∈
      kept.map fun chunk => m.generateFingerprint chunk.content chunk.fileId) ↔
        (scope, m.normalize text) ∈ kept.map m.chunkKey := by
    intro text scope
    simp only [List.mem_map, generateFingerprint_eq_iff hsha, chunkKey, Prod.mk.injEq]
  induction chunks generalizing seen kept with
  | nil => simp [dedupLoop]
  | cons chunk rest ih =>
    have hdrop : (m.generateFingerprint chunk.content [] ∈ seen ∨
        m.generateFingerprint chunk.content chunk.fileId ∈ seen) ↔
          (m.normalize chunk.content ∈ m.descriptions graph ∨
            ([], m.normalize chunk.content) ∈ kept.map m.chunkKey ∨
            m.chunkKey chunk ∈ kept.map m.chunkKey) := by
      rw [hseen, hseen, hkept, hkept, mem_graphFingerprints_iff hsha,
        mem_graphFingerprints_iff hsha, chunkKey]
      tauto
    rw [dedupLoop, Sieve.sift, pickChunk]
    by_cases hdropped : m.generateFingerprint chunk.content [] ∈ seen ∨
        m.generateFingerprint chunk.content chunk.fileId ∈ seen
    · rw [if_pos hdropped, if_pos (hdrop.mp hdropped), Option.toList_none, List.append_nil]
      exact ih hseen hkept
    · rw [if_neg hdropped, if_neg (mt hdrop.mpr hdropped), Option.toList_some]
      have hrest : kept ++ [chunk] ++
          m.dedupLoop (m.generateFingerprint chunk.content chunk.fileId :: seen) rest =
            Sieve.sift (m.pickChunk (m.descriptions graph)) (kept ++ [chunk]) rest := by
        refine ih ?_ ?_
        · intro fp
          rw [List.mem_cons, hseen, List.map_append, List.mem_append, List.map_singleton,
            List.mem_singleton]
          tauto
        · intro text scope
          simp only [List.mem_map, generateFingerprint_eq_iff hsha, chunkKey, Prod.mk.injEq]
      rw [← hrest, List.append_assoc]
      rfl

theorem deduplicateChunks_eq [DecidableEq Digest] (hsha : Function.Injective m.sha256)
    (chunks : List DocumentChunk) (graph : Option GraphContext) :
    m.deduplicateChunks chunks graph = Sieve.sift (m.pickChunk (m.descriptions graph)) [] chunks :=
  (List.nil_append _).symm.trans (dedupLoop_eq_sift hsha fun fp => by simp)

end Fingerprints

/-! ## The chunks that are kept -/

section Kept

variable {Digest : Type} {m : ContextMerger Digest} {described : List Text}
  {chunks kept : List DocumentChunk} {entries : List (Nat × DocumentChunk)} {i j : Nat}
  {x y chunk : DocumentChunk}

theorem pickChunk_eq_some_iff :
    m.pickChunk described kept chunk = some x ↔
      x = chunk ∧ m.normalize chunk.content ∉ described ∧
        ([], m.normalize chunk.content) ∉ kept.map m.chunkKey ∧
        m.chunkKey chunk ∉ kept.map m.chunkKey := by
  rw [pickChunk]
  by_cases hdrop : m.normalize chunk.content ∈ described ∨
      ([], m.normalize chunk.content) ∈ kept.map m.chunkKey ∨
      m.chunkKey chunk ∈ kept.map m.chunkKey
  · rw [if_pos hdrop]
    constructor
    · intro h
      cases h
    · rintro ⟨-, htext, hbare, hkey⟩
      rcases hdrop with h | h | h
      · exact absurd h htext
      · exact absurd h hbare
      · exact absurd h hkey
  · rw [if_neg hdrop, Option.some.injEq, eq_comm]
    rw [not_or, not_or] at hdrop
    exact (and_iff_left hdrop).symm

theorem pickChunk_self : ∀ kept chunk x, m.pickChunk described kept chunk = some x → x = chunk :=
  fun _ _ _ h => (pickChunk_eq_some_iff.mp h).1

theorem FirstAt.eq_of_key (hx : m.FirstAt chunks i x) (hy : m.FirstAt chunks j y)
    (hkey : m.chunkKey x = m.chunkKey y) : i = j := by
  rcases Nat.lt_trichotomy i j with hlt | heq | hlt
  · exact absurd hkey (hy.2 i hlt x hx.1)
  · exact heq
  · exact absurd hkey.symm (hx.2 j hlt y hy.1)

/-- Of every file and text there is a first chunk. -/
theorem exists_firstAt (hi : chunks[i]? = some x) :
    ∃ j y, m.FirstAt chunks j y ∧ m.chunkKey y = m.chunkKey x := by
  induction i using Nat.strong_induction_on generalizing x with
  | _ i ih =>
    by_cases hfirst : m.FirstAt chunks i x
    · exact ⟨i, x, hfirst, rfl⟩
    · have hearlier : ∃ j < i, ∃ y, chunks[j]? = some y ∧ m.chunkKey y = m.chunkKey x := by
        by_contra hnone
        refine hfirst ⟨hi, fun j hj y hy hkey => hnone ⟨j, hj, y, hy, hkey⟩⟩
      obtain ⟨j, hj, y, hy, hkey⟩ := hearlier
      obtain ⟨k, z, hz, hzkey⟩ := ih j hj hy
      exact ⟨k, z, hz, hzkey.trans hkey⟩

variable (hs : Sieve.Sifts (m.pickChunk described) chunks entries)

include hs

theorem kept_spec (h : (i, x) ∈ entries) :
    chunks[i]? = some x ∧ m.normalize x.content ∉ described ∧
      ([], m.normalize x.content) ∉ (Sieve.before entries i).map m.chunkKey ∧
      m.chunkKey x ∉ (Sieve.before entries i).map m.chunkKey := by
  obtain ⟨chunk, hchunk, hpick⟩ := hs.picked _ h
  obtain ⟨rfl, hrest⟩ := pickChunk_eq_some_iff.mp hpick
  exact ⟨hchunk, hrest⟩

/-- A kept chunk is the first of its file with its text: another one would have been kept, or
dropped for what drops this one. -/
theorem firstAt_of_kept (h : (i, x) ∈ entries) : m.FirstAt chunks i x := by
  obtain ⟨hx, htext, hbare, hkey⟩ := kept_spec hs h
  refine ⟨hx, fun j hj y hy hsame => ?_⟩
  have hmono : (Sieve.before entries j).map m.chunkKey ⊆
      (Sieve.before entries i).map m.chunkKey := List.map_subset _ (Sieve.before_mono hj.le)
  by_cases hkept : j ∈ entries.map Prod.fst
  · obtain ⟨entry, hentry, rfl⟩ := List.mem_map.mp hkept
    obtain ⟨hz, -⟩ := kept_spec hs (i := entry.1) (x := entry.2) hentry
    obtain rfl : entry.2 = y := Option.some.inj (hz.symm.trans hy)
    apply hkey
    rw [← hsame]
    exact List.mem_map_of_mem (Sieve.mem_before_iff.mpr ⟨entry.1, hj, hentry⟩)
  · have hdropped := hs.dropped j y hy hkept
    have hnorm : m.normalize y.content = m.normalize x.content := congrArg Prod.snd hsame
    have hpicked : m.pickChunk described (Sieve.before entries j) y = some y := by
      refine pickChunk_eq_some_iff.mpr ⟨rfl, ?_, ?_, ?_⟩
      · rw [hnorm]
        exact htext
      · rw [hnorm]
        exact fun hmem => hbare (hmono hmem)
      · rw [hsame]
        exact fun hmem => hkey (hmono hmem)
    rw [hdropped] at hpicked
    cases hpicked

/-- The first of its file with its text is kept, unless a chunk without a file has left the text
behind. -/
theorem kept_of_firstAt (h : m.FirstAt chunks i x) (htext : m.normalize x.content ∉ described) :
    (i, x) ∈ entries ∨ x.fileId ≠ [] ∧
      ∃ k < i, ∃ z, (k, z) ∈ entries ∧ z.fileId = [] ∧ m.normalize z.content = m.normalize x.content := by
  by_cases hkept : i ∈ entries.map Prod.fst
  · left
    obtain ⟨entry, hentry, rfl⟩ := List.mem_map.mp hkept
    obtain ⟨hz, -⟩ := kept_spec hs (i := entry.1) (x := entry.2) hentry
    obtain rfl : entry.2 = x := Option.some.inj (hz.symm.trans h.1)
    exact hentry
  · right
    have hfresh : ∀ k z, k < i → (k, z) ∈ entries → m.chunkKey z ≠ m.chunkKey x :=
      fun k z hk hz => h.2 k hk z (kept_spec hs hz).1
    have hbare : ([], m.normalize x.content) ∈ (Sieve.before entries i).map m.chunkKey := by
      by_contra hbare
      have hpicked : m.pickChunk described (Sieve.before entries i) x = some x := by
        refine pickChunk_eq_some_iff.mpr ⟨rfl, htext, hbare, fun hmem => ?_⟩
        obtain ⟨z, hz, hzkey⟩ := List.mem_map.mp hmem
        obtain ⟨k, hk, hzk⟩ := Sieve.mem_before_iff.mp hz
        exact hfresh k z hk hzk hzkey
      rw [hs.dropped i x h.1 hkept] at hpicked
      cases hpicked
    obtain ⟨z, hz, hzkey⟩ := List.mem_map.mp hbare
    obtain ⟨k, hk, hzk⟩ := Sieve.mem_before_iff.mp hz
    have hfile : z.fileId = [] := congrArg Prod.fst hzkey
    have hnorm : m.normalize z.content = m.normalize x.content := congrArg Prod.snd hzkey
    refine ⟨fun hnil => hfresh k z hk hzk ?_, k, hk, z, hzk, hfile, hnorm⟩
    rw [chunkKey, chunkKey, hfile, hnil, hnorm]

end Kept

/-! ## Ranking -/

section Ranking

variable {entries : List (Nat × DocumentChunk)} {e f : Nat × DocumentChunk}

/-- The kept chunks with their positions, ranked. -/
def rankEntries (entries : List (Nat × DocumentChunk)) : List (Nat × DocumentChunk) :=
  entries.insertionSort fun e f => f.2.score ≤ e.2.score

theorem mem_rankEntries : e ∈ rankEntries entries ↔ e ∈ entries :=
  (List.perm_insertionSort _ _).mem_iff

theorem map_rankEntries (entries : List (Nat × DocumentChunk)) :
    (rankEntries entries).map Prod.snd = rankChunks (entries.map Prod.snd) :=
  List.map_insertionSort _ _ _ _ fun _ _ _ _ => Iff.rfl

theorem pairwise_rankEntries (h : (entries.map Prod.fst).Pairwise (· < ·)) :
    (rankEntries entries).Pairwise RankedBefore := by
  have hstable := StableSort.pairwise_insertionSort_stable
    (r := fun e f : Nat × DocumentChunk => f.2.score ≤ e.2.score)
    (fun e f => le_total f.2.score e.2.score) (fun e f g hef hfg => hfg.trans hef)
    (List.pairwise_map.mp h)
  refine hstable.imp fun {e f} hef => ?_
  rcases hef.1.lt_or_eq with hlt | heq
  · exact .inl hlt
  · exact .inr ⟨heq.symm, hef.2 heq.ge⟩

/-- Ranked chunks are in their ranks. -/
theorem rankChunks_eq_self {chunks : List DocumentChunk}
    (h : chunks.Pairwise fun x y => y.score ≤ x.score) : rankChunks chunks = chunks :=
  h.insertionSort_eq

end Ranking

/-! ## The second merge -/

section Again

variable {Digest : Type} [DecidableEq Digest] {m : ContextMerger Digest}
  {graph : Option GraphContext} {retrieval : RetrievalContext}

theorem firstOfKey_subset {α κ : Type} [DecidableEq κ] (key : α → κ) (seen : List κ) (l : List α) :
    firstOfKey key seen l ⊆ l := by
  induction l generalizing seen with
  | nil => exact List.Subset.refl []
  | cons x rest ih =>
    rw [firstOfKey]
    by_cases hseen : key x ∈ seen
    · rw [if_pos hseen]
      exact List.subset_cons_of_subset x (ih seen)
    · rw [if_neg hseen]
      exact List.cons_subset_cons x (ih _)

theorem firstOfKey_firstOfKey {α κ : Type} [DecidableEq κ] (key : α → κ) {seen seen' : List κ}
    (hseen : seen' ⊆ seen) (l : List α) :
    firstOfKey key seen' (firstOfKey key seen l) = firstOfKey key seen l := by
  induction l generalizing seen seen' with
  | nil => rfl
  | cons x rest ih =>
    rw [firstOfKey]
    by_cases hx : key x ∈ seen
    · rw [if_pos hx]
      exact ih hseen
    · rw [if_neg hx, firstOfKey, if_neg fun hmem => hx (hseen hmem),
        ih (List.cons_subset_cons _ hseen)]

theorem deduplicateGraph_deduplicateGraph (graph : GraphContext) :
    deduplicateGraph (deduplicateGraph graph) = deduplicateGraph graph := by
  simp only [deduplicateGraph, firstOfKey_firstOfKey _ (List.Subset.refl _)]

omit [DecidableEq Digest] in
/-- The merged graph describes nothing else. -/
theorem descriptions_deduplicateGraph (graph : Option GraphContext) :
    m.descriptions (graph.map deduplicateGraph) ⊆ m.descriptions graph := by
  cases graph with
  | none => exact List.Subset.refl []
  | some graph => exact List.filterMap_subset _ (firstOfKey_subset _ _ _)

theorem merge_chunks (retrieval : RetrievalContext) (graph : Option GraphContext) :
    (m.merge retrieval graph).1.chunks =
      rankChunks (m.deduplicateChunks retrieval.chunks graph) := by
  show (m.mergeRetrieval retrieval graph).chunks = _
  rw [mergeRetrieval]
  by_cases hnone : retrieval.chunks = []
  · rw [if_pos hnone, hnone]
    rfl
  · rw [if_neg hnone]

/-- A second merge changes nothing if it leaves the ranked chunks alone. -/
theorem merge_merge_iff :
    m.merge (m.merge retrieval graph).1 (m.merge retrieval graph).2 = m.merge retrieval graph ↔
      rankChunks (m.deduplicateChunks (m.merge retrieval graph).1.chunks
        (graph.map deduplicateGraph)) = (m.merge retrieval graph).1.chunks := by
  have hgraph : (graph.map deduplicateGraph).map deduplicateGraph = graph.map deduplicateGraph := by
    cases graph with
    | none => rfl
    | some graph => exact congrArg some (deduplicateGraph_deduplicateGraph graph)
  constructor
  · intro h
    rw [← merge_chunks]
    exact congrArg (fun merged : RetrievalContext × Option GraphContext => merged.1.chunks) h
  · intro h
    refine Prod.ext ?_ hgraph
    show m.mergeRetrieval (m.merge retrieval graph).1 (graph.map deduplicateGraph) = _
    rw [mergeRetrieval, h]
    split
    · rfl
    · rfl

/-- The entries of a merge: the kept chunks, with their positions. -/
structure Entries (m : ContextMerger Digest) (retrieval : RetrievalContext)
    (graph : Option GraphContext) (entries : List (Nat × DocumentChunk)) : Prop where
  sifts : Sieve.Sifts (m.pickChunk (m.descriptions graph)) retrieval.chunks entries
  nodup : (entries.map fun entry => m.chunkKey entry.2).Nodup
  chunks : (m.merge retrieval graph).1.chunks = (rankEntries entries).map Prod.snd

theorem exists_entries (hsha : Function.Injective m.sha256) (retrieval : RetrievalContext)
    (graph : Option GraphContext) : ∃ entries, m.Entries retrieval graph entries := by
  obtain ⟨entries, hs, hsift⟩ :=
    Sieve.exists_sifts (m.pickChunk (m.descriptions graph)) retrieval.chunks
  refine ⟨entries, hs, ?_, ?_⟩
  · have hnodup : ((Sieve.sift (m.pickChunk (m.descriptions graph)) [] retrieval.chunks).map
        m.chunkKey).Nodup := by
      refine Sieve.sift_invariant (P := fun kept => (kept.map m.chunkKey).Nodup) List.nodup_nil ?_
      intro kept chunk x hkept hpick
      obtain ⟨rfl, -, -, hkey⟩ := pickChunk_eq_some_iff.mp hpick
      rw [List.map_append, List.map_singleton]
      exact hkept.append (List.nodup_singleton _) (by simpa using hkey)
    rwa [hsift, List.map_map] at hnodup
  · rw [merge_chunks, deduplicateChunks_eq hsha, hsift, map_rankEntries]

variable {entries : List (Nat × DocumentChunk)}

theorem Entries.mem_chunks_iff (h : m.Entries retrieval graph entries) {chunk : DocumentChunk} :
    chunk ∈ (m.merge retrieval graph).1.chunks ↔ ∃ i, (i, chunk) ∈ entries := by
  rw [h.chunks, List.mem_map]
  constructor
  · rintro ⟨entry, hentry, rfl⟩
    exact ⟨entry.1, mem_rankEntries.mp hentry⟩
  · rintro ⟨i, hi⟩
    exact ⟨(i, chunk), mem_rankEntries.mpr hi, rfl⟩

theorem Entries.ranked (h : m.Entries retrieval graph entries) :
    (rankEntries entries).Pairwise RankedBefore := pairwise_rankEntries h.sifts.increasing

theorem Entries.nodup_chunks (h : m.Entries retrieval graph entries) :
    (m.merge retrieval graph).1.chunks.Pairwise fun x y => m.chunkKey x ≠ m.chunkKey y := by
  rw [h.chunks, List.pairwise_map]
  have hperm : ((rankEntries entries).map fun entry => m.chunkKey entry.2).Nodup :=
    ((List.perm_insertionSort _ _).map _).nodup_iff.mpr h.nodup
  exact List.pairwise_map.mp hperm

/-- In the second merge a chunk is dropped if a chunk without a file id and with its text ranks
before it. -/
theorem Entries.merge_merge_iff (h : m.Entries retrieval graph entries)
    (hsha : Function.Injective m.sha256) :
    m.merge (m.merge retrieval graph).1 (m.merge retrieval graph).2 = m.merge retrieval graph ↔
      (rankEntries entries).Pairwise fun e f =>
        ¬ (e.2.fileId = [] ∧ m.normalize e.2.content = m.normalize f.2.content) := by
  have hchunks := h.chunks
  have hdistinct := h.nodup_chunks
  have htexts : ∀ chunk ∈ (m.merge retrieval graph).1.chunks,
      m.normalize chunk.content ∉ m.descriptions (graph.map deduplicateGraph) := by
    intro chunk hchunk hmem
    obtain ⟨i, hi⟩ := h.mem_chunks_iff.mp hchunk
    exact (kept_spec h.sifts hi).2.1 (descriptions_deduplicateGraph graph hmem)
  have hsorted : rankChunks (m.merge retrieval graph).1.chunks =
      (m.merge retrieval graph).1.chunks := by
    refine rankChunks_eq_self ?_
    rw [h.chunks, List.pairwise_map]
    refine h.ranked.imp fun {e f} hef => ?_
    rcases hef with hlt | heq
    · exact hlt.le
    · exact heq.1.ge
  rw [ContextMerger.merge_merge_iff, deduplicateChunks_eq hsha]
  have hpairwise : ((rankEntries entries).Pairwise fun e f =>
      ¬ (e.2.fileId = [] ∧ m.normalize e.2.content = m.normalize f.2.content)) ↔
        (m.merge retrieval graph).1.chunks.Pairwise fun x y =>
          ¬ (x.fileId = [] ∧ m.normalize x.content = m.normalize y.content) := by
    rw [h.chunks, List.pairwise_map]
  rw [hpairwise]
  generalize (m.merge retrieval graph).1.chunks = ranked at hdistinct htexts hsorted
  have hself : rankChunks (Sieve.sift
      (m.pickChunk (m.descriptions (graph.map deduplicateGraph))) [] ranked) = ranked ↔
        Sieve.sift (m.pickChunk (m.descriptions (graph.map deduplicateGraph))) [] ranked =
          [] ++ ranked := by
    constructor
    · intro heq
      refine (Sieve.sift_sublist pickChunk_self).eq_of_length ?_
      have hlength := congrArg List.length heq
      rw [rankChunks, List.length_insertionSort] at hlength
      exact hlength
    · intro heq
      rw [heq]
      exact hsorted
  rw [hself, Sieve.sift_eq_append_iff pickChunk_self, Sieve.pairwise_iff_front]
  constructor
  · intro hpicked front chunk back heq x hx hbare
    have hfree := (pickChunk_eq_some_iff.mp (hpicked front chunk back heq)).2.2.1
    apply hfree
    rw [← hbare.1, ← hbare.2]
    exact List.mem_map_of_mem hx
  · intro hbare front chunk back heq
    refine pickChunk_eq_some_iff.mpr ⟨rfl, htexts chunk ?_, ?_, ?_⟩
    · rw [heq]
      exact List.mem_append_right _ List.mem_cons_self
    · intro hmem
      obtain ⟨x, hx, hkey⟩ := List.mem_map.mp hmem
      exact hbare front chunk back heq x hx
        ⟨congrArg Prod.fst hkey, congrArg Prod.snd hkey⟩
    · intro hmem
      obtain ⟨x, hx, hkey⟩ := List.mem_map.mp hmem
      exact Sieve.pairwise_iff_front.mp hdistinct front chunk back heq x hx hkey

end Again

/-! ## When a merge is safe -/

section Safe

variable {Digest : Type} [DecidableEq Digest] {m : ContextMerger Digest}
  {graph : Option GraphContext} {retrieval : RetrievalContext}
  {entries : List (Nat × DocumentChunk)}

/-- Where the passages without a file id come last, the first of every file with its text is
kept. -/
theorem Entries.mem_of_firstAt (h : m.Entries retrieval graph entries)
    (hlast : m.FilelessLast retrieval.chunks graph) {i : Nat} {x : DocumentChunk}
    (hx : m.FirstAt retrieval.chunks i x) (htext : m.normalize x.content ∉ m.descriptions graph) :
    (i, x) ∈ entries := by
  rcases kept_of_firstAt h.sifts hx htext with hkept | ⟨hfile, k, hk, z, hz, hnofile, hnorm⟩
  · exact hkept
  · have horder := hlast k i z x (firstAt_of_kept h.sifts hz) hx hnofile hfile hnorm
      (by rw [hnorm]; exact htext)
    omega

theorem mergesSafely_of_filelessLast (hsha : Function.Injective m.sha256)
    (hlast : m.FilelessLast retrieval.chunks graph) : m.MergesSafely retrieval graph := by
  obtain ⟨entries, h⟩ := exists_entries hsha retrieval graph
  have hdropped : ∀ chunk ∈ retrieval.chunks, m.normalize chunk.content ∉ m.descriptions graph →
      ∃ kept ∈ (m.merge retrieval graph).1.chunks, m.chunkKey kept = m.chunkKey chunk := by
    intro chunk hchunk htext
    obtain ⟨i, hi⟩ := List.mem_iff_getElem?.mp hchunk
    obtain ⟨j, y, hy, hkey⟩ := exists_firstAt (m := m) hi
    have hnorm : m.normalize y.content = m.normalize chunk.content := congrArg Prod.snd hkey
    have hmem := h.mem_of_firstAt hlast hy (by rw [hnorm]; exact htext)
    exact ⟨y, h.mem_chunks_iff.mpr ⟨j, hmem⟩, hkey⟩
  refine ⟨hdropped, ?_, ?_, ?_⟩
  · intro x hx y hy _ hnorm htext
    obtain ⟨a, ha, hakey⟩ := hdropped x hx htext
    obtain ⟨b, hb, hbkey⟩ := hdropped y hy (by rw [← hnorm]; exact htext)
    refine ⟨a, ha, b, hb, congrArg Prod.fst hakey, congrArg Prod.fst hbkey,
      congrArg Prod.snd hakey, ?_⟩
    rw [hnorm]
    exact congrArg Prod.snd hbkey
  · exact ⟨rankEntries entries, h.chunks,
      fun entry hentry => (kept_spec h.sifts (mem_rankEntries.mp hentry)).1, h.ranked⟩
  · rw [h.merge_merge_iff hsha]
    refine h.ranked.imp_of_mem fun {e f} he hf hef => ?_
    rintro ⟨hfile, hnorm⟩
    have he' := mem_rankEntries.mp he
    have hf' := mem_rankEntries.mp hf
    have hefirst := firstAt_of_kept h.sifts he'
    have hffirst := firstAt_of_kept h.sifts hf'
    have hranks : ¬ (f.1 < e.1 ∧ e.2.score ≤ f.2.score) := by
      rintro ⟨hlt, hscore⟩
      rcases hef with hhigher | ⟨-, hearlier⟩
      · exact absurd hscore (not_le.mpr hhigher)
      · omega
    by_cases hboth : f.2.fileId = []
    · -- two chunks without a file and with one text are one
      have hkey : m.chunkKey e.2 = m.chunkKey f.2 := by
        rw [chunkKey, chunkKey, hfile, hboth, hnorm]
      have hposition := hefirst.eq_of_key hffirst hkey
      have hsame : e.2 = f.2 := by
        have hat := hefirst.1
        rw [hposition] at hat
        exact Option.some.inj (hat.symm.trans hffirst.1)
      rcases hef with hhigher | ⟨-, hearlier⟩
      · rw [hsame] at hhigher
        exact lt_irrefl _ hhigher
      · omega
    · exact hranks (hlast e.1 f.1 e.2 f.2 hefirst hffirst hfile hboth hnorm
        (kept_spec h.sifts he').2.1)

theorem filelessLast_of_mergesSafely (hsha : Function.Injective m.sha256)
    (hsafe : m.MergesSafely retrieval graph) : m.FilelessLast retrieval.chunks graph := by
  obtain ⟨entries, h⟩ := exists_entries hsha retrieval graph
  have hagain := (h.merge_merge_iff hsha).mp hsafe.idempotent
  intro i j x y hx hy hnofile hfile hnorm htext
  have hxkept : (i, x) ∈ entries :=
    (kept_of_firstAt h.sifts hx htext).resolve_right fun hlost => hlost.1 hnofile
  -- the passage of the file is kept, since it must not be lost
  have hykept : (j, y) ∈ entries := by
    obtain ⟨kept, hkept, hkey⟩ := hsafe.dropped y (List.mem_of_getElem? hy.1)
      (by rw [← hnorm]; exact htext)
    obtain ⟨k, hk⟩ := h.mem_chunks_iff.mp hkept
    have hkfirst := firstAt_of_kept h.sifts hk
    have hposition := hkfirst.eq_of_key hy hkey
    have hsame : kept = y := by
      have hat := hkfirst.1
      rw [hposition] at hat
      exact Option.some.inj (hat.symm.trans hy.1)
    rw [← hposition, ← hsame]
    exact hk
  have hbare := (kept_spec h.sifts hykept).2.2.1
  have hle : j ≤ i := by
    by_contra hlt
    apply hbare
    have hxkey : m.chunkKey x = ([], m.normalize y.content) := by
      rw [chunkKey, hnofile, hnorm]
    rw [← hxkey]
    exact List.mem_map_of_mem (Sieve.mem_before_iff.mpr ⟨i, Nat.not_le.mp hlt, hxkept⟩)
  have hne : (i, x) ≠ (j, y) := by
    intro heq
    apply hfile
    rw [← (Prod.mk.inj heq).2]
    exact hnofile
  -- of the two, the passage of the file ranks first
  have hrank := Sieve.or_of_pairwise (h.ranked.and hagain) (mem_rankEntries.mpr hxkept)
    (mem_rankEntries.mpr hykept) hne
  rcases hrank with ⟨-, hfree⟩ | ⟨hbefore, -⟩
  · exact absurd ⟨hnofile, hnorm⟩ hfree
  · rcases hbefore with hhigher | ⟨hscore, hearlier⟩
    · refine ⟨?_, hhigher.le⟩
      have : i ≠ j := by
        rintro rfl
        exact hne (Prod.ext rfl (Option.some.inj (hx.1.symm.trans hy.1)))
      omega
    · exact ⟨hearlier, hscore.ge⟩

/-- A merge is safe if and only if the passages without a file id come behind those of the files
with their texts, and rank no higher. -/
theorem mergesSafely_iff (hsha : Function.Injective m.sha256) (retrieval : RetrievalContext)
    (graph : Option GraphContext) :
    m.MergesSafely retrieval graph ↔ m.FilelessLast retrieval.chunks graph :=
  ⟨filelessLast_of_mergesSafely hsha, mergesSafely_of_filelessLast hsha⟩

/-- A passage of two files, or of none and one. -/
def samePassage (file file' : Text) : RetrievalContext where
  chunks := [{ fileId := file, content := ['A', '.'] }, { fileId := file', content := ['a'] }]

/-- Texts are their own digests. -/
def textMerger : ContextMerger Text := ⟨PyText.asciiData, id⟩

theorem mergesSafely_samePassage : textMerger.MergesSafely (samePassage ['f'] ['g']) none := by
  refine (mergesSafely_iff Function.injective_id _ _).mpr ?_
  intro i j x y hx _ hnofile
  have hfiles : ∀ chunk ∈ (samePassage ['f'] ['g']).chunks, chunk.fileId ≠ [] := by decide
  exact absurd hnofile (hfiles x (List.mem_of_getElem? hx.1))

/-- The passage of the file is lost behind the one without a file id. -/
theorem not_mergesSafely_samePassage :
    ¬ textMerger.MergesSafely (samePassage [] ['g']) none := by
  intro hsafe
  obtain ⟨kept, hkept, hkey⟩ := hsafe.dropped { fileId := ['g'], content := ['a'] } (by decide)
    (by decide)
  have hfiles : ∀ chunk ∈ (textMerger.merge (samePassage [] ['g']) none).1.chunks,
      chunk.fileId = [] := by decide
  have hfile : kept.fileId = ['g'] := congrArg Prod.fst hkey
  rw [hfiles kept hkept] at hfile
  cases hfile

end Safe

end ContextMerger

end LlmService
