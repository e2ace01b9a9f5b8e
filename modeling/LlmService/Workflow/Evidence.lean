import LlmService.Workflow.DeepResearch

/-!
# The evidence of a deep research

`analyze` makes findings of all the results that the searches have returned so
far, and they are added to the findings of the analyses before. So a result is
found once if its search is the last one, and more often if not: the findings
are those of the evidence, each once, iff no search but the last found anything.
-/

namespace LlmService

namespace DeepResearch

open StateGraph Script

/-- What the searches of a run have returned. -/
def evidence (t : DispatchTrace) : List SearchResult :=
  t.flatMap fun step =>
    match step.2 with
    | .ok results => results.flatMap (·.found)
    | .error _ => []

/-- A finding as `analyze` makes it. -/
def uncorroborated (f : Finding) : Finding := { f with corroborated := false }

/-- Each result that was returned is one finding. -/
def EvidenceOnce (t : DispatchTrace) (s : DeepResearchState) : Prop :=
  (s.findings.map uncorroborated).Perm ((evidence t).map Finding.ofResult)

/-- The searches of a run return the answers, from the `i`-th on. -/
def AnsweredBy (answers : Nat → List ToolResult) : Nat → DispatchTrace → Prop
  | _, [] => True
  | i, step :: t => step.2 = .ok (answers i) ∧ AnsweredBy answers (i + 1) t

/-- From the `i`-th search on, the first that finds something finds enough for the research
to end, or it is the last that the iterations allow. -/
def FirstFindEnough (maxIterations : Int) (answers : Nat → List ToolResult) (i : Nat) : Prop :=
  ∀ k, i ≤ k → (∀ j, i ≤ j → j < k → (answers j).flatMap (·.found) = []) →
    (answers k).flatMap (·.found) ≠ [] →
      6 ≤ ((answers k).flatMap (·.found)).length ∨ maxIterations ≤ k + 1

variable {upper : String → String} {s v : DeepResearchState} {t : DispatchTrace}
  {results : List ToolResult}

/-! ## One turn of the loop -/

/-- A search and its analysis; then the report, or the next search. -/
theorem path_search (h : (graph upper).Path .search s t v) :
    ∃ results t', t = ⟨.dispatch [searchCall (query s)] {}, .ok results⟩ :: t' ∧
      ((IsSufficient (searched s results) ∧ t' = [] ∧
          v = generateReport upper (summarize upper
            (compareSources (analyze (searched s results))))) ∨
        (¬ IsSufficient (searched s results) ∧
          (graph upper).Path .search (analyze (searched s results)) t' v)) := by
  obtain ⟨u, t₁, t₂, hsearch, hpath, rfl⟩ := h.exists_step (m := .analyze) fun _ _ _ => rfl
  rcases trace_dispatchCalls_bind hsearch with ⟨results, t', rfl, hpure⟩ | ⟨e, -, he⟩
  · obtain ⟨rfl, hu⟩ := trace_pure_iff.mp hpure
    obtain rfl := Except.ok.inj hu
    refine ⟨results, t₂, rfl, ?_⟩
    by_cases hsufficient : IsSufficient (searched s results)
    · have hnext := (next_analyze upper (searched s results)).trans (if_pos hsufficient)
      have hcompare := hpath.of_pure rfl hnext
      have hsummarize := hcompare.of_pure rfl rfl
      have hreport := hsummarize.of_pure rfl rfl
      obtain ⟨hnil, hv⟩ := hreport.eq_of_pure rfl rfl
      exact .inl ⟨hsufficient, hnil, hv⟩
    · have hnext := (next_analyze upper (searched s results)).trans (if_neg hsufficient)
      exact .inr ⟨hsufficient, hpath.of_pure rfl hnext⟩
  · cases he

/-! ## The findings of a run -/

/-- The marks of `compare_sources` are all it changes. -/
theorem map_uncorroborated_crossReference (fs : List Finding) : ∀ seen : List String,
    (crossReference seen fs).map uncorroborated = fs.map uncorroborated := by
  induction fs with
  | nil => exact fun seen => rfl
  | cons f fs ih =>
    intro seen
    rw [crossReference]
    by_cases hseen : f.source ∈ seen
    · rw [if_pos hseen, List.map_cons, List.map_cons, ih]
      rfl
    · rw [if_neg hseen, List.map_cons, List.map_cons, ih]

/-- What the state reports is what the last analysis found. -/
theorem findings_report (upper : String → String) (s : DeepResearchState) :
    (generateReport upper (summarize upper (compareSources s))).findings.map uncorroborated =
      s.findings.map uncorroborated :=
  map_uncorroborated_crossReference s.findings []

theorem newFindings_searched (s : DeepResearchState) (results : List ToolResult) :
    newFindings (searched s results) =
      (s.searchResults.flatMap (·.found) ++ results.flatMap (·.found)).map Finding.ofResult := by
  rw [← List.flatMap_append]
  rfl

theorem evidence_cons {calls : List ToolCall} {ids : DispatchIds} :
    evidence (⟨.dispatch calls ids, .ok results⟩ :: t) =
      results.flatMap (·.found) ++ evidence t := rfl

theorem findings_analyze_searched (s : DeepResearchState) (results : List ToolResult) :
    (analyze (searched s results)).findings =
      s.findings ++
        (s.searchResults.flatMap (·.found) ++ results.flatMap (·.found)).map Finding.ofResult := by
  rw [← newFindings_searched]
  rfl

theorem found_analyze_searched (s : DeepResearchState) (results : List ToolResult) :
    (analyze (searched s results)).searchResults.flatMap (·.found) =
      s.searchResults.flatMap (·.found) ++ results.flatMap (·.found) :=
  List.flatMap_append

/-- Where there are findings before a search, the results of the searches so far are found
again, and there are more findings than results. -/
theorem length_evidence_lt (hfindings : s.findings ≠ [])
    (h : (graph upper).Path .search s t v) :
    (s.searchResults.flatMap (·.found)).length + (evidence t).length < v.findings.length := by
  induction t generalizing s with
  | nil =>
    obtain ⟨results, t', hnil, -⟩ := path_search h
    cases hnil
  | cons step t ih =>
    obtain ⟨results, t', hcons, hturn⟩ := path_search h
    obtain ⟨rfl, rfl⟩ := List.cons.inj hcons
    have hsome : 0 < s.findings.length := List.length_pos_of_ne_nil hfindings
    have hanalyzed := findings_analyze_searched s results
    rw [evidence_cons, List.length_append]
    rcases hturn with ⟨-, rfl, rfl⟩ | ⟨-, hpath⟩
    · have hlength := congrArg List.length
        (findings_report upper (analyze (searched s results)))
      rw [List.length_map, List.length_map, hanalyzed, List.length_append, List.length_map,
        List.length_append] at hlength
      have hnil : (evidence []).length = 0 := rfl
      omega
    · have hmore : (analyze (searched s results)).findings ≠ [] := by
        rw [hanalyzed]
        exact List.append_ne_nil_of_left_ne_nil hfindings _
      have hlt := ih hmore hpath
      rw [found_analyze_searched, List.length_append] at hlt
      omega

/-- The first search that finds something, if there is one, decides. -/
theorem firstFindEnough_iff_of_nil {maxIterations : Int} {answers : Nat → List ToolResult} {i : Nat}
    (h : (answers i).flatMap (·.found) = []) :
    FirstFindEnough maxIterations answers i ↔ FirstFindEnough maxIterations answers (i + 1) := by
  constructor
  · intro hfirst k hik hbefore hfound
    refine hfirst k (by omega) (fun j hij hjk => ?_) hfound
    by_cases hj : j = i
    · subst hj
      exact h
    · exact hbefore j (by omega) hjk
  · intro hfirst k hik hbefore hfound
    have hne : k ≠ i := by
      intro hk
      subst hk
      exact hfound h
    exact hfirst k (by omega) (fun j hij hjk => hbefore j (by omega) hjk) hfound

/-- When the research ends with a search before which nothing was found. -/
theorem isSufficient_searched_iff (hfindings : s.findings = [])
    (hfound : s.searchResults.flatMap (·.found) = []) :
    IsSufficient (searched s results) ↔
      6 ≤ (results.flatMap (·.found)).length ∨ s.maxIterations ≤ s.loopIterationCount + 1 := by
  have hnew : (newFindings (searched s results)).length = (results.flatMap (·.found)).length := by
    rw [newFindings_searched, hfound, List.nil_append, List.length_map]
  have hnone : (searched s results).findings.length = 0 := by
    show s.findings.length = 0
    rw [hfindings]
    rfl
  rw [IsSufficient, hnew, hnone, Nat.zero_add]
  rfl

/-- From a search before which nothing was found. -/
theorem evidenceOnce_iff {answers : Nat → List ToolResult} (hfindings : s.findings = [])
    (hfound : s.searchResults.flatMap (·.found) = [])
    (hanswers : AnsweredBy answers s.loopIterationCount t)
    (h : (graph upper).Path .search s t v) :
    EvidenceOnce t v ↔ FirstFindEnough s.maxIterations answers s.loopIterationCount := by
  induction t generalizing s with
  | nil =>
    obtain ⟨results, t', hnil, -⟩ := path_search h
    cases hnil
  | cons step t ih =>
    obtain ⟨results, t', hcons, hturn⟩ := path_search h
    obtain ⟨rfl, rfl⟩ := List.cons.inj hcons
    obtain ⟨hanswer, hrest⟩ := hanswers
    obtain rfl := Except.ok.inj hanswer
    have hanalyzed := findings_analyze_searched s (answers s.loopIterationCount)
    have hfound' := found_analyze_searched s (answers s.loopIterationCount)
    rw [hfindings, hfound, List.nil_append, List.nil_append] at hanalyzed
    rw [hfound, List.nil_append] at hfound'
    rw [isSufficient_searched_iff hfindings hfound] at hturn
    rw [EvidenceOnce, evidence_cons]
    rcases hturn with ⟨hsufficient, rfl, rfl⟩ | ⟨hinsufficient, hpath⟩
    · refine iff_of_true ?_ ?_
      · rw [findings_report, hanalyzed, List.map_map]
        show (List.map _ _).Perm (List.map Finding.ofResult (_ ++ []))
        rw [List.append_nil]
        exact .refl _
      · intro k hik hbefore hsome
        by_cases hk : k = s.loopIterationCount
        · subst hk
          exact hsufficient
        · have hnone := hbefore s.loopIterationCount le_rfl (by omega)
          rw [hnone, List.length_nil] at hsufficient
          omega
    · by_cases hnone : (answers s.loopIterationCount).flatMap (·.found) = []
      · rw [hnone] at hanalyzed hfound' ⊢
        rw [firstFindEnough_iff_of_nil hnone]
        exact ih hanalyzed hfound' hrest hpath
      · refine iff_of_false ?_ ?_
        · intro hperm
          have hmore : (analyze (searched s (answers s.loopIterationCount))).findings ≠ [] := by
            rw [hanalyzed]
            exact fun hmap => hnone (List.map_eq_nil_iff.mp hmap)
          have hlt := length_evidence_lt hmore hpath
          have hlength := hperm.length_eq
          rw [List.length_map, List.length_map, List.length_append] at hlength
          rw [hfound'] at hlt
          omega
        · intro hfirst
          exact hinsufficient (hfirst s.loopIterationCount le_rfl
            (fun j hij hji => absurd hij (Nat.not_le_of_lt hji)) hnone)

/-- In a deep research each result that the searches return is one finding, iff the first
search that finds something is the last one. -/
theorem evidenceOnce_iff_firstFindEnough {userMessage : String} {maxIterations : Int}
    {answers : Nat → List ToolResult}
    (h : (graph upper).Path .search { userMessage, maxIterations } t v)
    (hanswers : AnsweredBy answers 0 t) :
    EvidenceOnce t v ↔ FirstFindEnough maxIterations answers 0 :=
  evidenceOnce_iff rfl rfl hanswers h

/-! ## Two runs -/

/-- Two results at every search. -/
def twoResults : List ToolResult :=
  [{ toolName := "web_search", success := true
     data := some [{ title := "A", source := "arxiv" }, { title := "B", source := "wikipedia" }] }]

/-- A research in which each search is answered alike. -/
def answeredAlike (maxIterations : Int) (results : List ToolResult) :
    DispatchTrace × Except PyRaise DeepResearchState :=
  ((graph id).ainvoke 25 { userMessage := "optimizers", maxIterations }).follow
    fun _ => .ok results

theorem path_answeredAlike {maxIterations : Int}
    (h : (answeredAlike maxIterations results).2 = .ok v) :
    (graph id).Path .search { userMessage := "optimizers", maxIterations }
      (answeredAlike maxIterations results).1 v := by
  have htrace := trace_follow (fun _ : DispatchCommand => .ok results)
    ((graph id).ainvoke 25 { userMessage := "optimizers", maxIterations })
  have hresult : (((graph id).ainvoke 25 { userMessage := "optimizers", maxIterations }).follow
      fun _ => .ok results).2 = .ok v := h
  rw [hresult] at htrace
  exact path_of_trace htrace

/-- One iteration finds its results once. -/
theorem oneIteration_once :
    ∃ v, (answeredAlike 1 twoResults).2 = .ok v ∧ EvidenceOnce (answeredAlike 1 twoResults).1 v := by
  have hfirst : FirstFindEnough 1 (fun _ => twoResults) 0 := fun k _ _ _ => .inr (by omega)
  have hanswered : AnsweredBy (fun _ => twoResults) 0 (answeredAlike 1 twoResults).1 :=
    ⟨rfl, trivial⟩
  exact ⟨_, rfl,
    (evidenceOnce_iff_firstFindEnough (path_answeredAlike rfl) hanswered).mpr hfirst⟩

/-- In two iterations the results of the first search are found twice. -/
theorem twoIterations_not_once :
    ¬ ∀ (upper : String → String) (userMessage : String) (maxIterations : Int)
      (t : DispatchTrace) (v : DeepResearchState),
      (graph upper).Path .search { userMessage, maxIterations } t v → EvidenceOnce t v := by
  intro h
  have honce := h id "optimizers" 2 (answeredAlike 2 twoResults).1 _ (path_answeredAlike rfl)
  have hlength := honce.length_eq
  rw [List.length_map, List.length_map] at hlength
  exact absurd hlength (by decide)

end DeepResearch

end LlmService
