import LlmService.Workflow.DeepResearch

/-!
# What corroborates a finding

`compare_sources` marks a finding whose source name it has seen before, so the
findings of one source mark each other, and a finding that another source
supports is not marked on its account.
-/

namespace LlmService

namespace DeepResearch

open Script StateGraph

/-- What the report makes of the findings of a state whose sources are compared. -/
def verdicts (s : DeepResearchState) : List Finding := comparedFindings (compareSources s)

/-- Findings are corroborated by independent sources: one that is marked is supported by
findings of two source names, and of the findings of one source alone none is marked. -/
structure Independent (supports : Finding → Finding → Prop) (s : DeepResearchState) : Prop where
  twoSources : ∀ f ∈ verdicts s, f.corroborated = true →
    ∃ g ∈ s.findings, ∃ h ∈ s.findings, supports g f ∧ supports h f ∧ g.source ≠ h.source
  repeated : ∀ name, ∀ f ∈ verdicts { s with findings := s.findings.filter (·.source = name) },
    f.corroborated = false

/-- The finding is not marked. -/
abbrev Unmarked (fs : List Finding) : Prop := ∀ f ∈ fs, f.corroborated = false

theorem verdicts_eq (s : DeepResearchState) : verdicts s = crossReference [] s.findings := by
  unfold verdicts comparedFindings compareSources
  cases crossReference [] s.findings with
  | nil => rfl
  | cons f fs => rfl

/-! ## The loop -/

/-- Nothing is marked if no source name is seen twice. -/
theorem unmarked_crossReference_iff {seen : List String} {fs : List Finding} (h : Unmarked fs) :
    Unmarked (crossReference seen fs) ↔
      (∀ f ∈ fs, f.source ∉ seen) ∧ (fs.map (·.source)).Nodup := by
  induction fs generalizing seen with
  | nil => simp [crossReference, Unmarked]
  | cons f fs ih =>
    rw [Unmarked, List.forall_mem_cons] at h
    rw [crossReference, List.forall_mem_cons, List.map_cons, List.nodup_cons]
    by_cases hseen : f.source ∈ seen
    · rw [if_pos hseen]
      constructor
      · intro hmarked
        exact absurd (hmarked _ List.mem_cons_self) Bool.noConfusion
      · intro hdistinct
        exact absurd hseen hdistinct.1.1
    · rw [if_neg hseen, Unmarked, List.forall_mem_cons]
      have hrest : Unmarked (crossReference (f.source :: seen) fs) ↔ _ := ih h.2
      rw [Unmarked] at hrest
      rw [hrest]
      constructor
      · intro hunmarked
        obtain ⟨-, hfresh, hnodup⟩ := hunmarked
        refine ⟨⟨hseen, fun g hg hmem => hfresh g hg (List.mem_cons_of_mem _ hmem)⟩, ?_, hnodup⟩
        intro hmem
        obtain ⟨g, hg, hsource⟩ := List.mem_map.mp hmem
        exact hfresh g hg (hsource ▸ List.mem_cons_self)
      · intro hdistinct
        obtain ⟨⟨-, hfresh⟩, hhead, hnodup⟩ := hdistinct
        refine ⟨h.1, fun g hg hmem => ?_, hnodup⟩
        rcases List.mem_cons.mp hmem with hsource | hmem
        · exact hhead (hsource ▸ List.mem_map_of_mem hg)
        · exact hfresh g hg hmem

/-- A source name stands twice among the findings if it does among those of that name. -/
theorem nodup_sources_iff {fs : List Finding} :
    (fs.map (·.source)).Nodup ↔
      ∀ name, ((fs.filter (·.source = name)).map (·.source)).Nodup := by
  constructor
  · intro h name
    exact h.sublist (List.filter_sublist.map _)
  · intro h
    rw [List.nodup_iff_count_le_one]
    intro name
    have hcount := List.nodup_iff_count_le_one.mp (h name) name
    have hfilter : ((fs.filter (·.source = name)).map (·.source)).count name =
        (fs.map (·.source)).count name := by
      rw [List.count_eq_countP, List.count_eq_countP, List.countP_map, List.countP_map,
        List.countP_filter]
      refine List.countP_congr fun f _ => ?_
      simp
    rw [← hfilter]
    exact hcount

/-! ## Along a run -/

/-- Until the sources are compared no finding is marked. -/
theorem unmarked_of_reaches {upper : String → String} {s₀ s : DeepResearchState} {n : Node}
    (h : (graph upper).Reaches s₀ n s) (h₀ : Unmarked s₀.findings)
    (hn : n = .search ∨ n = .analyze ∨ n = .compareSources) : Unmarked s.findings := by
  refine h.invariant (P := fun n s =>
    n = .search ∨ n = .analyze ∨ n = .compareSources → Unmarked s.findings) (fun _ => h₀) ?_ hn
  intro n s t u m hs hnode hnext hm
  cases n with
  | search =>
    rcases trace_dispatchCalls_bind hnode with ⟨results, t', -, hrest⟩ | ⟨e, -, hraised⟩
    · obtain ⟨-, hu⟩ := trace_pure_iff.mp hrest
      obtain rfl := Except.ok.inj hu
      exact hs (.inl rfl)
    · cases hraised
  | analyze =>
    obtain ⟨-, hu⟩ := trace_pure_iff.mp hnode
    obtain rfl := Except.ok.inj hu
    intro f hf
    rcases List.mem_append.mp hf with hf | hf
    · exact hs (.inr (.inl rfl)) f hf
    · obtain ⟨r, -, rfl⟩ := List.mem_map.mp hf
      rfl
  | compareSources | summarize | generateReport =>
    -- behind these nodes none of the first three is run
    cases hnext
    all_goals simp at hm

/-- The sources that a run compares corroborate its findings independently, whatever support
means, if and only if no source name occurs twice among the findings. -/
theorem independent_iff {upper : String → String} {userMessage : String} {maxIterations : Int}
    {s : DeepResearchState}
    (h : (graph upper).Reaches { userMessage, maxIterations } .compareSources s)
    (supports : Finding → Finding → Prop) :
    Independent supports s ↔ (s.findings.map (·.source)).Nodup := by
  have hunmarked : Unmarked s.findings :=
    unmarked_of_reaches h (List.forall_mem_nil _) (.inr (.inr rfl))
  have halone : ∀ name, Unmarked (s.findings.filter (·.source = name)) :=
    fun name f hf => hunmarked f (List.mem_of_mem_filter hf)
  constructor
  · intro hindependent
    rw [nodup_sources_iff]
    intro name
    have hrepeated := hindependent.repeated name
    rw [verdicts_eq] at hrepeated
    exact ((unmarked_crossReference_iff (halone name)).mp hrepeated).2
  · intro hnodup
    have hnone : Unmarked (crossReference [] s.findings) :=
      (unmarked_crossReference_iff hunmarked).mpr ⟨fun f _ => List.not_mem_nil, hnodup⟩
    refine ⟨?_, ?_⟩
    · intro f hf hmarked
      rw [verdicts_eq] at hf
      rw [hnone f hf] at hmarked
      cases hmarked
    · intro name
      rw [verdicts_eq]
      exact (unmarked_crossReference_iff (halone name)).mpr
        ⟨fun f _ => List.not_mem_nil, nodup_sources_iff.mp hnodup name⟩

/-- A run of one iteration compares the sources of what its search found. -/
theorem reaches_compareSources (upper : String → String) (userMessage : String)
    (results : List ToolResult) :
    (graph upper).Reaches { userMessage, maxIterations := 1 } .compareSources
      (analyze (searched { userMessage, maxIterations := 1 } results)) := by
  have hsearch : ((graph upper).node .search { userMessage, maxIterations := 1 }).Trace
      [⟨.dispatch [searchCall (query { userMessage, maxIterations := 1 })] {}, .ok results⟩]
      (.ok (searched { userMessage, maxIterations := 1 } results)) := .call (.pure _)
  have hsufficient : IsSufficient (searched { userMessage, maxIterations := 1 } results) :=
    .inr le_rfl
  exact .step (.step .entry hsearch rfl) (.pure _)
    ((next_analyze upper _).trans (if_pos hsufficient))

/-- A search that found two pages, each at a source. -/
def twoPages (first second : String) : List ToolResult :=
  [{ toolName := "web_search", success := true
     data := some
      [{ title := "A", url := "https://a.org/", snippet := "a", source := first },
        { title := "B", url := "https://b.org/", snippet := "b", source := second }] }]

/-- `str.upper` of the name of a source. -/
def upperName (source : String) : String :=
  if source = "duckduckgo" then "DUCKDUCKGO" else source

theorem independent_twoPages :
    Independent (fun _ _ => True) (analyze (searched { userMessage := "q", maxIterations := 1 }
      (twoPages "arxiv" "wikipedia"))) :=
  (independent_iff (reaches_compareSources upperName "q" _) _).mpr (by decide)

/-- Two pages of one source: the report verifies the second across sources. -/
theorem not_independent_twoPages :
    ∃ s, (graph upperName).Reaches { userMessage := "q", maxIterations := 1 } .compareSources s ∧
      (∀ f ∈ s.findings, f.source = "duckduckgo") ∧
      "### 3.2. B (DUCKDUCKGO) [VERIFIED CROSS-SOURCE]" ∈ reportLines upperName (compareSources s) ∧
      ¬ Independent (fun _ _ => True) s := by
  refine ⟨_, reaches_compareSources _ "q" (twoPages "duckduckgo" "duckduckgo"), by decide, ?_, ?_⟩
  · decide
  · intro h
    obtain ⟨g, hg, g', hg', -, -, hne⟩ := h.twoSources
      { source := "duckduckgo", title := "B", url := some "https://b.org/", snippet := "b"
        corroborated := true } (by decide) rfl
    have hsource : ∀ f ∈ (analyze (searched { userMessage := "q", maxIterations := 1 }
        (twoPages "duckduckgo" "duckduckgo"))).findings, f.source = "duckduckgo" := by decide
    exact hne ((hsource g hg).trans (hsource g' hg').symm)

end DeepResearch

end LlmService
