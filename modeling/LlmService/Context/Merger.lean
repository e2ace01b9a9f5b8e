import LlmService.ContextWindow.Models
import LlmService.Lib.PyText
import Mathlib.Data.List.Sort

/-!
# ContextMerger

`context/merger.py`, for the two sources that meet in it: the chunks that the
retrieval service delivers, and the knowledge graph. The statuses are those of
`retrieval.proto`.
-/

namespace LlmService

/-- `RetrievalStatus`. -/
inductive RetrievalStatus where
  | ok | noMatch | noScope | accessDenied | notIndexed | indexing | indexingFailed
  | unavailable | timeout
  deriving DecidableEq, Repr

def RetrievalStatus.name : RetrievalStatus → String
  | .ok => "OK"
  | .noMatch => "NO_MATCH"
  | .noScope => "NO_SCOPE"
  | .accessDenied => "ACCESS_DENIED"
  | .notIndexed => "NOT_INDEXED"
  | .indexing => "INDEXING"
  | .indexingFailed => "INDEXING_FAILED"
  | .unavailable => "UNAVAILABLE"
  | .timeout => "TIMEOUT"

/-- `Coverage`. -/
inductive Coverage where
  | unspecified | strong | weak | none
  deriving DecidableEq, Repr

/-- `DocumentChunk`; `sectionName` is its `section`. -/
structure DocumentChunk where
  fileId : Text := []
  sourceName : Text := []
  content : Text
  score : ℚ := 0
  pageNumber : Option Nat := none
  sectionName : Text := []
  deriving DecidableEq

/-- `RetrievalContext`. -/
structure RetrievalContext where
  chunks : List DocumentChunk := []
  status : RetrievalStatus := .ok
  statusDetail : String := ""
  requestedCount : Nat := 0
  authorizedCount : Nat := 0
  coverage : Coverage := .unspecified
  deriving DecidableEq

/-- `EntityNode`. -/
structure EntityNode where
  id : String
  name : Text
  type : Text := "Concept".toList
  description : Option Text := none
  deriving DecidableEq

/-- `RelationshipEdge`. -/
structure RelationshipEdge where
  sourceId : String
  targetId : String
  relationType : String
  deriving DecidableEq

/-- `GraphContext`. -/
structure GraphContext where
  entities : List EntityNode := []
  relationships : List RelationshipEdge := []
  deriving DecidableEq

/-- `ContextMerger`: the hash is that of the UTF-8 encoding of a text. -/
structure ContextMerger (Digest : Type) where
  unicode : PyText.UnicodeData
  sha256 : Text → Digest

namespace ContextMerger

variable {Digest : Type} [DecidableEq Digest] (m : ContextMerger Digest)

/-- `_generate_fingerprint`. -/
def generateFingerprint (text scope : Text) : Digest :=
  let normalized := PyText.dropEndWhile (· ∈ ['.', '!', '?', ';', ':', ','])
    (PyText.join [' '] (PyText.words (text.flatMap m.unicode.casefold)))
  m.sha256 (scope ++ ['\x1f'] ++ normalized)

/-- The loop of `_deduplicate_chunks`. -/
def dedupLoop : List Digest → List DocumentChunk → List DocumentChunk
  | _, [] => []
  | seen, chunk :: rest =>
    let fp := m.generateFingerprint chunk.content chunk.fileId
    if m.generateFingerprint chunk.content [] ∈ seen ∨ fp ∈ seen then dedupLoop seen rest
    else chunk :: dedupLoop (fp :: seen) rest

/-- The fingerprints of the descriptions in the graph. -/
def graphFingerprints (graph : Option GraphContext) : List Digest :=
  match graph with
  | none => []
  | some graph => graph.entities.filterMap fun entity =>
    match entity.description with
    | none | some [] => none
    | some description => some (m.generateFingerprint description [])

/-- `_deduplicate_chunks`. -/
def deduplicateChunks (chunks : List DocumentChunk) (graph : Option GraphContext) :
    List DocumentChunk :=
  m.dedupLoop (m.graphFingerprints graph) chunks

/-- `_rank_chunks`: the sort is stable. -/
def rankChunks (chunks : List DocumentChunk) : List DocumentChunk :=
  chunks.insertionSort fun a b => b.score ≤ a.score

/-- `_deduplicate_graph`: the first node of an id and the first edge of a key. -/
def firstOfKey {α κ : Type} [DecidableEq κ] (key : α → κ) : List κ → List α → List α
  | _, [] => []
  | seen, x :: rest =>
    if key x ∈ seen then firstOfKey key seen rest
    else x :: firstOfKey key (key x :: seen) rest

def deduplicateGraph (graph : GraphContext) : GraphContext where
  entities := firstOfKey (·.id) [] graph.entities
  relationships := firstOfKey (fun e => (e.sourceId, e.targetId, e.relationType)) []
    graph.relationships

/-- What `merge` makes of the retrieval result. -/
def mergeRetrieval (retrieval : RetrievalContext) (graph : Option GraphContext) :
    RetrievalContext :=
  if retrieval.chunks = [] then retrieval
  else { retrieval with chunks := rankChunks (m.deduplicateChunks retrieval.chunks graph) }

/-! ## The chunks that are left -/

variable {m}

theorem dedupLoop_subset {seen : List Digest} {chunks : List DocumentChunk} :
    m.dedupLoop seen chunks ⊆ chunks := by
  induction chunks generalizing seen with
  | nil => exact List.Subset.refl []
  | cons chunk rest ih =>
    simp only [dedupLoop]
    by_cases hseen : m.generateFingerprint chunk.content [] ∈ seen ∨
        m.generateFingerprint chunk.content chunk.fileId ∈ seen
    · rw [if_pos hseen]
      exact List.subset_cons_of_subset chunk ih
    · rw [if_neg hseen]
      exact List.cons_subset_cons chunk ih

/-- Only delivered chunks are left. -/
theorem mem_mergeRetrieval {retrieval : RetrievalContext} {graph : Option GraphContext}
    {chunk : DocumentChunk} (h : chunk ∈ (m.mergeRetrieval retrieval graph).chunks) :
    chunk ∈ retrieval.chunks := by
  rw [mergeRetrieval] at h
  by_cases hnone : retrieval.chunks = []
  · rw [if_pos hnone] at h
    exact h
  · rw [if_neg hnone] at h
    exact dedupLoop_subset ((List.mem_insertionSort _).mp h)

theorem mergeRetrieval_status (retrieval : RetrievalContext) (graph : Option GraphContext) :
    (m.mergeRetrieval retrieval graph).status = retrieval.status := by
  rw [mergeRetrieval]
  split <;> rfl

end ContextMerger

end LlmService
