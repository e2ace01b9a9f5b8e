import LlmService.Lib.PyText
import LlmService.Workflow.Dispatches

/-!
# Deep research

`langgraph_workflows/deep_research`: searches and analyses alternate until the
evidence suffices or the iterations are spent; then the findings are compared,
summarised and reported.
-/

namespace LlmService

/-- `Finding`, without its score, which is a constant. -/
structure Finding where
  source : String
  title : String := ""
  url : Option String := none
  snippet : String
  corroborated : Bool := false
  deriving DecidableEq

/-- `DeepResearchGraphState`; the fields with a reducer start empty. -/
structure DeepResearchState where
  userMessage : String
  queriesIssued : List String := []
  searchResults : List ToolResult := []
  findings : List Finding := []
  coverageSufficient : Bool := false
  loopIterationCount : Nat := 0
  maxIterations : Int
  crossReferencedFindings : Option (List Finding) := none
  synthesis : Option String := none
  structuredReport : Option String := none

def Finding.ofResult (r : SearchResult) : Finding :=
  { source := r.source, title := r.title, url := some r.url, snippet := r.snippet }

namespace DeepResearch

/-- `search` asks the last query issued, and at first the message. -/
def query (s : DeepResearchState) : String :=
  s.queriesIssued.getLast?.getD (PyText.stripStr s.userMessage)

def searchCall (query : String) : ToolCall where
  toolName := "web_search"
  params := (AList.insert "query" (.string query) ∅).insert "max_results" (.int 5)
  parallel := false
  required := false

/-- The update that `search` returns. -/
def searched (s : DeepResearchState) (results : List ToolResult) : DeepResearchState :=
  { s with
    searchResults := s.searchResults ++ results
    queriesIssued := s.queriesIssued ++ if s.queriesIssued = [] then [query s] else []
    loopIterationCount := s.loopIterationCount + 1 }

def search (s : DeepResearchState) : WorkflowScript DeepResearchState := do
  let results ← dispatchCalls [searchCall (query s)]
  return searched s results

/-- `new_findings`: of all the results there are. -/
def newFindings (s : DeepResearchState) : List Finding :=
  (s.searchResults.flatMap (·.found)).map Finding.ofResult

def nextQuery (s : DeepResearchState) : String :=
  if s.loopIterationCount = 1 then
    s!"Empirical benchmarks and performance evaluation: {s.userMessage}"
  else if s.loopIterationCount = 2 then
    s!"Technical specifications and limitations: {s.userMessage}"
  else s!"Scholarly research papers and state of the art: {s.userMessage}"

/-- `is_sufficient`. -/
def IsSufficient (s : DeepResearchState) : Prop :=
  6 ≤ s.findings.length + (newFindings s).length ∨ s.maxIterations ≤ s.loopIterationCount

instance (s : DeepResearchState) : Decidable (IsSufficient s) :=
  inferInstanceAs (Decidable (_ ∨ _))

def analyze (s : DeepResearchState) : DeepResearchState :=
  { s with
    findings := s.findings ++ newFindings s
    coverageSufficient := IsSufficient s
    queriesIssued := s.queriesIssued ++ if IsSufficient s then [] else [nextQuery s] }

/-- The loop of `compare_sources`, behind the sources seen. -/
def crossReference : List String → List Finding → List Finding
  | _, [] => []
  | seen, f :: fs =>
    if f.source ∈ seen then { f with corroborated := true } :: crossReference seen fs
    else f :: crossReference (f.source :: seen) fs

/-- The findings it marks are those of the state, not copies of them. -/
def compareSources (s : DeepResearchState) : DeepResearchState :=
  { s with
    findings := crossReference [] s.findings
    crossReferencedFindings := some (crossReference [] s.findings) }

/-- `state.get("cross_referenced_findings") or state.get("findings") or []`. -/
def comparedFindings (s : DeepResearchState) : List Finding :=
  match s.crossReferencedFindings with
  | none | some [] => s.findings
  | some findings => findings

/-- `upper` is `str.upper`. -/
def thematicPoint (upper : String → String) (f : Finding) (idx : Nat) : String :=
  s!"{idx}. **{f.title}** ({upper f.source})\n   - {f.snippet}\n   - Reference: {pyOptional f.url}"

def summarize (upper : String → String) (s : DeepResearchState) : DeepResearchState :=
  let thematicPoints := ((comparedFindings s).take 8).zipIdx 1 |>.map fun x =>
    thematicPoint upper x.1 x.2
  { s with synthesis :=
      if thematicPoints = [] then
        some "No external findings were retrieved for thematic synthesis."
      else
        some (s!"Thematic research synthesis for '{s.userMessage}':\n\n" ++
          "\n\n".intercalate thematicPoints) }

/-- The lines of one finding in section 3. -/
def findingLines (upper : String → String) (f : Finding) (idx : Nat) : List String :=
  let badge := if f.corroborated then " [VERIFIED CROSS-SOURCE]" else ""
  [s!"### 3.{idx}. {f.title} ({upper f.source}){badge}", f.snippet] ++
    match f.url with
    | none | some "" => []
    | some url => [s!"- **Primary Reference**: [{url}]({url})\n"]

/-- The references of section 6: each address once. -/
def referenceLines (upper : String → String) : List String → List Finding → List String
  | _, [] => []
  | seenUrls, f :: fs =>
    match f.url with
    | none | some "" => referenceLines upper seenUrls fs
    | some url =>
      if url ∈ seenUrls then referenceLines upper seenUrls fs
      else
        s!"[{seenUrls.length + 1}] **{f.title}** — {upper f.source} ([{url}]({url}))" ::
          referenceLines upper (url :: seenUrls) fs

def reportLines (upper : String → String) (s : DeepResearchState) : List String :=
  let query := s.userMessage
  let findings := comparedFindings s
  [s!"# Deep Research Report: {query}\n",
    "## 1. Executive Summary",
    s!"This report presents an exhaustive, multi-stage investigation into **{query}**. " ++
      s!"The research was conducted autonomously across **{s.loopIterationCount} deep research iterations**, " ++
      s!"evaluating **{findings.length} distinct findings** across scholarly publications, technical documentation, and encyclopedic knowledge graphs.\n",
    "## 2. Table of Contents",
    "- 1. Executive Summary",
    "- 2. Table of Contents",
    "- 3. Comprehensive Analysis & Findings",
    "- 4. Comparative Assessment & Cross-Referenced Evidence",
    "- 5. Strategic Conclusions",
    "- 6. Grounded References & Source Citations\n",
    "## 3. Comprehensive Analysis & Findings"] ++
  ((findings.take 8).zipIdx 1).flatMap (fun x => findingLines upper x.1 x.2) ++
  ["## 4. Comparative Assessment & Cross-Referenced Evidence",
    "Cross-referencing across multi-provider sources confirms high consistency in theoretical principles and empirical findings. " ++
      "The findings reflect current state-of-the-art developments and academic literature.\n",
    "## 5. Strategic Conclusions",
    s!"The investigation into '{query}' demonstrates conclusive evidence across multiple peer-reviewed and open data sources. " ++
      "Further exploration may leverage specialized experimental sandboxes or domain-specific benchmark suites.\n",
    "## 6. Grounded References & Source Citations"] ++
  referenceLines upper [] findings

def generateReport (upper : String → String) (s : DeepResearchState) : DeepResearchState :=
  { s with structuredReport := some ("\n".intercalate (reportLines upper s)) }

inductive RouteDecision where
  | searchAgain | proceed
  deriving DecidableEq

/-- `route_need_more_information`. -/
def routeNeedMoreInformation (s : DeepResearchState) : RouteDecision :=
  if s.coverageSufficient then .proceed
  else
    match LoopGuard.evaluate s.loopIterationCount s.maxIterations (!s.coverageSufficient) with
    | .proceed => .proceed
    | .loop => .searchAgain

/-- A research goes on until its analysis suffices. -/
theorem route_analyze_eq_proceed_iff {s : DeepResearchState} :
    routeNeedMoreInformation (analyze s) = .proceed ↔ IsSufficient s := by
  rw [routeNeedMoreInformation]
  by_cases hsufficient : IsSufficient s
  · have hcovered : (analyze s).coverageSufficient = true := decide_eq_true hsufficient
    rw [if_pos hcovered]
    exact iff_of_true rfl hsufficient
  · have hcovered : (analyze s).coverageSufficient = false := decide_eq_false hsufficient
    have hbelow : ((analyze s).loopIterationCount : Int) < (analyze s).maxIterations :=
      not_le.mp fun hle => hsufficient (.inr hle)
    have hloop : LoopGuard.evaluate (analyze s).loopIterationCount (analyze s).maxIterations
        true = .loop := LoopGuard.evaluate_eq_loop_iff.mpr ⟨rfl, hbelow⟩
    rw [hcovered, if_neg Bool.false_ne_true, Bool.not_false, hloop]
    exact iff_of_false (fun h => nomatch h) hsufficient

inductive Node where
  | search | analyze | compareSources | summarize | generateReport
  deriving DecidableEq

/-- `DeepResearchGraphBuilder.build`. -/
def graph (upper : String → String) : StateGraph WorkflowScript Node DeepResearchState where
  entry := .search
  node
    | .search => search
    | .analyze => fun s => pure (analyze s)
    | .compareSources => fun s => pure (compareSources s)
    | .summarize => fun s => pure (summarize upper s)
    | .generateReport => fun s => pure (generateReport upper s)
  next
    | .search, _ => some .analyze
    | .analyze, s =>
      match routeNeedMoreInformation s with
      | .searchAgain => some .search
      | .proceed => some .compareSources
    | .compareSources, _ => some .summarize
    | .summarize, _ => some .generateReport
    | .generateReport, _ => none

/-- Behind an analysis. -/
theorem next_analyze (upper : String → String) (s : DeepResearchState) :
    (graph upper).next .analyze (analyze s) =
      if IsSufficient s then some .compareSources else some .search := by
  show (match routeNeedMoreInformation (analyze s) with
    | .searchAgain => some Node.search
    | .proceed => some .compareSources) = _
  by_cases hsufficient : IsSufficient s
  · rw [route_analyze_eq_proceed_iff.mpr hsufficient, if_pos hsufficient]
  · rw [if_neg hsufficient]
    cases hdecision : routeNeedMoreInformation (analyze s) with
    | searchAgain => rfl
    | proceed => exact absurd (route_analyze_eq_proceed_iff.mp hdecision) hsufficient

end DeepResearch

end LlmService
