import LlmService.Context.MergedChunks
import LlmService.Context.PreviousChunks
import LlmService.Context.RetrievalQuery
import LlmService.Lib.Lockstep
import LlmService.Pipeline.AttachedDocuments

/-!
# ContextCollector

`context/collector.py`, with the client of the retrieval service: the memory, the graph and the attached documents are
fetched for a request, and whatever fails is missing from the bundle. The
services, the models that rewrite the question, and when an `await` is
cancelled, are environment; the store of the previous chunks is shared by all
collections. The fetches do not see one another's answers, and stand one
behind another here. A collection that is cancelled as a whole takes no
further step.
-/

namespace LlmService

open Script

/-! ## What is fetched -/

/-- `Fact`. -/
structure Fact where
  factId : String
  statement : Text
  deriving DecidableEq

/-- `MemoryContext`, with the layers that the collector reads or the pipeline goes on with. -/
structure MemoryContext where
  shortTermMessages : List Message := []
  longTermFacts : List Fact := []
  summary : Text := []
  deriving DecidableEq

/-- A `RetrievalContext` as a client delivers it. -/
structure FetchedRetrieval extends RetrievalContext where
  /-- The `chunk_id` of each chunk. -/
  chunkIds : List String
  fullText : Bool := false
  truncated : Bool := false
  chunkIds_length : chunkIds.length = chunks.length

/-- A response of the retrieval service; each chunk has its id, and is as `_map_chunks` makes it. -/
structure RetrievalResponse where
  chunks : List (String × DocumentChunk) := []
  status : RetrievalStatus := .ok
  statusDetail : String := ""
  requestedCount : Nat := 0
  authorizedCount : Nat := 0
  coverage : Coverage := .unspecified
  truncated : Bool := false

namespace RetrievalResponse

variable (response : RetrievalResponse)

theorem length_ids : (response.chunks.map Prod.fst).length = (response.chunks.map Prod.snd).length := by
  rw [List.length_map, List.length_map]

/-- An answer without chunks is no match. -/
def effectiveStatus : RetrievalStatus :=
  if response.status = .ok ∧ response.chunks = [] then .noMatch else response.status

/-- `get_relevant_chunks`, on its response. -/
def relevantChunks : FetchedRetrieval where
  chunks := response.chunks.map Prod.snd
  status := response.effectiveStatus
  statusDetail := response.statusDetail
  requestedCount := response.requestedCount
  authorizedCount := response.authorizedCount
  coverage := response.coverage
  chunkIds := response.chunks.map Prod.fst
  chunkIds_length := response.length_ids

/-- `get_document_chunks`, on its response. -/
def documentChunks : FetchedRetrieval where
  chunks := response.chunks.map Prod.snd
  status := response.effectiveStatus
  statusDetail := response.statusDetail
  requestedCount := response.requestedCount
  authorizedCount := response.authorizedCount
  chunkIds := response.chunks.map Prod.fst
  fullText := true
  truncated := response.truncated
  chunkIds_length := response.length_ids

end RetrievalResponse

/-- `ContextBundle`. -/
structure ContextBundle where
  memory : Option MemoryContext := none
  graph : Option GraphContext := none
  retrieval : Option RetrievalContext := none
  missingSources : List String := []
  degraded : Bool := false

namespace ContextMerger

variable {Digest : Type} [DecidableEq Digest] (m : ContextMerger Digest)

/-- The loop of `_deduplicate_memory`: an id that starts with `fact_` says nothing. -/
def dedupFacts : List Digest → List String → List Fact → List Fact
  | _, _, [] => []
  | seen, seenIds, fact :: rest =>
    let fp := m.generateFingerprint fact.statement []
    let stableId := if "fact_".toList.isPrefixOf fact.factId.toList then "" else fact.factId
    if fp ∈ seen ∨ (stableId ≠ "" ∧ stableId ∈ seenIds) then dedupFacts seen seenIds rest
    else fact :: dedupFacts (fp :: seen) (if stableId = "" then seenIds else stableId :: seenIds) rest

def deduplicateMemory (memory : MemoryContext) : MemoryContext :=
  { memory with longTermFacts := m.dedupFacts [] [] memory.longTermFacts }

/-- `merge`, of what was fetched. -/
def bundle (memory : Option MemoryContext) (graph : Option GraphContext)
    (retrieval : Option RetrievalContext) (missing : List String) : ContextBundle where
  memory := memory.map m.deduplicateMemory
  graph := graph.map deduplicateGraph
  retrieval := retrieval.map (m.mergeRetrieval · graph)
  missingSources := missing
  degraded := missing ≠ []

end ContextMerger

/-! ## Commands -/

/-- What the collector reads of a `PipelineContext`. -/
structure CollectRequest where
  userId : String
  conversationId : String
  fileIds : List String := []
  userMessage : Text
  eventHistory : List (String × Text) := []

/-- What `get_relevant_chunks` is asked. -/
structure SearchRequest where
  userId : String
  conversationId : String
  query : Text
  denseQuery : Option Text := none
  fileIds : List String
  topK : Nat
  maxTokens : Nat
  previousChunkIds : List String := []

/-- What a collection does where others see it, or see to it. -/
inductive ContextCommand where
  | memory (userId conversationId : String) (query : Text)
  | graph (userId conversationId : String) (query : Text)
  | documents (userId : String) (fileIds : List String) (maxTokens : Int)
  | rewrite (c : RewriteCommand)
  /-- `previous_chunks.get` -/
  | getPrevious (conversationId : String)
  | search (request : SearchRequest)
  /-- The sleep before the second search. -/
  | sleep
  /-- `previous_chunks.record` -/
  | record (conversationId : String) (chunkIds : List String)

@[reducible] def ContextReply : ContextCommand → Type
  | .memory _ _ _ => Except PyRaise MemoryContext
  | .graph _ _ _ => Except PyRaise GraphContext
  | .documents _ _ _ => Except PyRaise RetrievalResponse
  | .rewrite c => RewriteReply c
  | .getPrevious _ => List String
  | .search _ => Except PyRaise RetrievalResponse
  | .sleep => Except PyRaise Unit
  | .record _ _ => Unit

abbrev ContextScript := Script ContextReply PyRaise

abbrev ContextTrace := List (Σ c, ContextReply c)

theorem thousand_le_budget : 1000 ≤ 150000 := by decide

/-- What the collector reads of `LLMServiceConfig`. -/
structure RetrievalConfig where
  topK : Nat := 8
  maxTokens : Nat := 4000
  queryRewriteEnabled : Bool := true
  previousChunksEnabled : Bool := true
  fullTextEnabled : Bool := false
  /-- `int(tokens * retrieval_full_text_share)` -/
  fullTextShare : Nat → Int
  inputBudgetTokens : Nat := 0
  promptTokenBudget : Nat := 0
  contextBudgetDefaultTokens : Nat := 150000
  /-- `Field(default=150_000, ge=1_000)`. -/
  contextBudgetDefaultTokens_ge : 1000 ≤ contextBudgetDefaultTokens := by exact thousand_le_budget

/-- `ContextCollector`. -/
structure ContextCollector (Digest : Type) where
  merger : ContextMerger Digest
  queryRewriter : Option RetrievalQueryRewriter := none
  config : RetrievalConfig

namespace ContextCollector

variable {Digest : Type} (collector : ContextCollector Digest) (ctx : CollectRequest)

/-- `return` or `raise`. -/
def ended {α : Type} : Except PyRaise α → ContextScript α
  | .ok a => return a
  | .error raised => throw raised

def fetchMemory : ContextScript MemoryContext := do
  ended (← command (R := ContextReply) (.memory ctx.userId ctx.conversationId ctx.userMessage))

def fetchGraph : ContextScript GraphContext := do
  ended (← command (R := ContextReply) (.graph ctx.userId ctx.conversationId ctx.userMessage))

/-- `_input_budget_tokens`. -/
def inputBudgetTokens : Nat :=
  if collector.config.inputBudgetTokens ≠ 0 then collector.config.inputBudgetTokens
  else if collector.config.promptTokenBudget = 0 then collector.config.contextBudgetDefaultTokens
  else min collector.config.promptTokenBudget collector.config.contextBudgetDefaultTokens

/-- `_try_full_text`. -/
def tryFullText : ContextScript (Option FetchedRetrieval) := do
  let budget := collector.config.fullTextShare collector.inputBudgetTokens
  if budget ≤ 0 then return none
  else
    match ← command (R := ContextReply) (.documents ctx.userId ctx.fileIds budget) with
    | .ok response =>
      let res := response.documentChunks
      if res.status ≠ .ok ∨ res.truncated = true ∨ res.chunks = [] then return none else return some res
    | .error (.exception _) => return none
    | .error .cancelled => throw .cancelled

/-- The message as it is. -/
def rawQuery : RetrievalQuery := { query := ctx.userMessage, method := .disabled }

/-- The rewritten question, or the message if the rewriter raises. -/
def rewriteQuery (rewriter : RetrievalQueryRewriter) : ContextScript RetrievalQuery :=
  tryCatch ((rewriter.build ctx.userMessage ctx.eventHistory).embed .rewrite fun _ => rfl) fun raised =>
    match raised with
    | .exception _ => return rawQuery ctx
    | .cancelled => throw .cancelled

def query : ContextScript RetrievalQuery :=
  match collector.queryRewriter with
  | some rewriter =>
    if collector.config.queryRewriteEnabled then rewriteQuery ctx rewriter else return rawQuery ctx
  | none => return rawQuery ctx

def previous : ContextScript (List String) :=
  if collector.config.previousChunksEnabled then
    command (R := ContextReply) (.getPrevious ctx.conversationId)
  else return []

def searchRequest (rq : RetrievalQuery) (previousChunkIds : List String) : SearchRequest where
  userId := ctx.userId
  conversationId := ctx.conversationId
  query := rq.query
  denseQuery := rq.denseQuery
  fileIds := ctx.fileIds
  topK := collector.config.topK
  maxTokens := collector.config.maxTokens
  previousChunkIds

def searchOnce (request : SearchRequest) : ContextScript FetchedRetrieval := do
  ended ((← command (R := ContextReply) (.search request)).map RetrievalResponse.relevantChunks)

/-- `_TRANSIENT` -/
def isTransient (status : RetrievalStatus) : Bool := status = .unavailable ∨ status = .timeout

/-- The two attempts of the search. -/
def search (request : SearchRequest) : ContextScript FetchedRetrieval := do
  let res ← searchOnce request
  if isTransient res.status then
    ended (← command (R := ContextReply) .sleep)
    searchOnce request
  else return res

/-- The search behind the rewritten question, with the chunks of the turn before. -/
def searchAnew : ContextScript FetchedRetrieval := do
  let rq ← collector.query ctx
  let previousChunkIds ← collector.previous ctx
  search (collector.searchRequest ctx rq previousChunkIds)

/-- What is found is recorded for the next turn, unless it is the whole text. -/
def recordChunks (res : FetchedRetrieval) : ContextScript Unit :=
  if collector.config.previousChunksEnabled ∧ res.chunks ≠ [] ∧ res.fullText = false then
    command (R := ContextReply) (.record ctx.conversationId res.chunkIds)
  else return ()

/-- Small documents go in full. -/
def wholeText : ContextScript (Option FetchedRetrieval) :=
  if collector.config.fullTextEnabled then collector.tryFullText ctx else return none

/-- The whole text, or what is found. -/
def wholeOrFound : Option FetchedRetrieval → ContextScript FetchedRetrieval
  | some res => return res
  | none => collector.searchAnew ctx

/-- `_fetch_retrieval`. -/
def fetchRetrieval : ContextScript (Option FetchedRetrieval) :=
  if ctx.fileIds = [] then return none
  else do
    let res ← collector.wholeOrFound ctx (← collector.wholeText ctx)
    collector.recordChunks ctx res
    return some res

/-- One of the results of `asyncio.gather(…, return_exceptions=True)`. -/
def gathered {α : Type} (fetch : ContextScript α) : ContextScript (Except PyRaise α) :=
  tryCatch (do return .ok (← fetch)) fun raised => return .error raised

/-- The source is missing if its fetch has raised an `Exception`; a cancelled one is not. -/
def missing {α : Type} (source : String) : Except PyRaise α → List String
  | .error (.exception _) => [source]
  | _ => []

/-- The bundle of what was gathered. -/
def bundleOf [DecidableEq Digest] (memory : Except PyRaise MemoryContext)
    (graph : Except PyRaise GraphContext) (retrieval : Except PyRaise (Option FetchedRetrieval)) :
    ContextBundle :=
  collector.merger.bundle memory.toOption graph.toOption
    ((retrieval.toOption.bind id).map FetchedRetrieval.toRetrievalContext)
    (missing "memory" memory ++ missing "graph" graph ++ missing "retrieval" retrieval)

/-- `collect`. -/
def collect [DecidableEq Digest] : ContextScript ContextBundle := do
  let memory ← gathered (fetchMemory ctx)
  let graph ← gathered (fetchGraph ctx)
  let retrieval ← gathered (collector.fetchRetrieval ctx)
  return collector.bundleOf memory graph retrieval

end ContextCollector

end LlmService
