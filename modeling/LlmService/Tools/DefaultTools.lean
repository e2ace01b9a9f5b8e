import LlmService.Tools.Selection
import LlmService.Lib.Infix

/-!
# Saved default tools

What `filter_default_tools` keeps of the saved names is what
`build_selected_calls` takes: both normalise the names, and what the one asks
of a tool is no less than what the other does.
-/

namespace LlmService.ToolSelection

variable {registry : ToolRegistry} {selected names : List String} {name userMessage : String}

/-! ## Normalised names -/

/-- One name of `normalize_selection`. -/
def addName (seen : List String) (name : String) : List String :=
  if name = "" ∨ name ∈ seen then seen else seen ++ [name]

theorem normalizeSelection_eq (selected : List String) :
    normalizeSelection selected = (selected.map PyText.stripStr).foldl addName [] := rfl

/-- Names that are unique and not empty are added as they are. -/
theorem foldl_addName (names seen : List String) (hnodup : (seen ++ names).Nodup)
    (hne : "" ∉ names) : names.foldl addName seen = seen ++ names := by
  induction names generalizing seen with
  | nil => simp
  | cons name names ih =>
    have hname : ¬(name = "" ∨ name ∈ seen) := by
      rintro (hempty | hmem)
      · exact hne (by simp [hempty])
      · exact (List.nodup_append.mp hnodup).2.2 name hmem name (by simp) rfl
    have happend : seen ++ name :: names = seen ++ [name] ++ names := by simp
    rw [List.foldl_cons, addName, if_neg hname, happend]
    apply ih
    · rwa [← happend]
    · intro hmem
      exact hne (List.mem_cons_of_mem _ hmem)

theorem mem_foldl_addName (names seen : List String) :
    name ∈ names.foldl addName seen ↔ name ∈ seen ∨ (name ≠ "" ∧ name ∈ names) := by
  induction names generalizing seen with
  | nil => simp
  | cons first names ih =>
    rw [List.foldl_cons, ih, addName]
    split
    · rename_i h
      constructor
      · rintro (hseen | ⟨hne, hmem⟩)
        · exact .inl hseen
        · exact .inr ⟨hne, List.mem_cons_of_mem _ hmem⟩
      · rintro (hseen | ⟨hne, hmem⟩)
        · exact .inl hseen
        · rcases List.mem_cons.mp hmem with rfl | hmem
          · exact .inl (h.resolve_left hne)
          · exact .inr ⟨hne, hmem⟩
    · rename_i h
      have hfirst : first ≠ "" := fun hempty => h (.inl hempty)
      rw [List.mem_append, List.mem_singleton, List.mem_cons]
      constructor
      · rintro ((hseen | rfl) | ⟨hne, hmem⟩)
        · exact .inl hseen
        · exact .inr ⟨hfirst, .inl rfl⟩
        · exact .inr ⟨hne, .inr hmem⟩
      · rintro (hseen | ⟨hne, rfl | hmem⟩)
        · exact .inl (.inl hseen)
        · exact .inl (.inr rfl)
        · exact .inr ⟨hne, hmem⟩

/-- The normalised names are the stripped ones, without the empty one. -/
theorem mem_normalizeSelection :
    name ∈ normalizeSelection selected ↔ name ≠ "" ∧ name ∈ selected.map PyText.stripStr := by
  rw [normalizeSelection_eq, mem_foldl_addName]
  simp

theorem foldl_addName_sublist (names seen : List String) :
    (names.foldl addName seen).Sublist (seen ++ names) := by
  induction names generalizing seen with
  | nil => simp
  | cons name names ih =>
    rw [List.foldl_cons]
    apply (ih _).trans
    rw [addName]
    split
    · exact (List.sublist_cons_self name names).append_left seen
    · simp

/-- They stand in the order in which they were asked for. -/
theorem normalizeSelection_sublist (selected : List String) :
    (normalizeSelection selected).Sublist (selected.map PyText.stripStr) := by
  rw [normalizeSelection_eq]
  simpa using foldl_addName_sublist (selected.map PyText.stripStr) []

theorem stripStr_of_mem (h : name ∈ normalizeSelection selected) : PyText.stripStr name = name := by
  obtain ⟨raw, -, rfl⟩ := List.mem_map.mp (mem_normalizeSelection.mp h).2
  rw [PyText.stripStr, PyText.stripStr, String.toList_ofList, PyText.strip_strip]

/-- Normalised names, and any part of them, are normalised. -/
theorem normalizeSelection_of_sublist (h : names.Sublist (normalizeSelection selected)) :
    normalizeSelection names = names := by
  have hstrip : names.map PyText.stripStr = names := by
    have heq : ∀ name ∈ names, PyText.stripStr name = name :=
      fun name hmem => stripStr_of_mem (h.subset hmem)
    rw [List.map_congr_left heq, List.map_id']
  rw [normalizeSelection_eq, hstrip, foldl_addName names []]
  · rfl
  · exact (nodup_normalizeSelection selected).sublist h
  · intro hmem
    exact (mem_normalizeSelection.mp (h.subset hmem)).1 rfl

/-! ## What is kept -/

/-- One name of `filter_default_tools`. -/
def sortName (registry : ToolRegistry) (parts : List String × List String) (name : String) :
    List String × List String :=
  if keepsDefault registry name ∧ parts.1.length < maxSelectedTools then
    (parts.1 ++ [name], parts.2)
  else (parts.1, parts.2 ++ [name])

/-- The names that were seen are kept or dropped, in their order, and what is
kept can be called. -/
structure Sorted (registry : ToolRegistry) (names : List String)
    (parts : List String × List String) : Prop where
  perm : (parts.1 ++ parts.2).Perm names
  kept : parts.1.Sublist names
  dropped : parts.2.Sublist names
  length_le : parts.1.length ≤ maxSelectedTools
  keeps : ∀ name ∈ parts.1, keepsDefault registry name = true

theorem Sorted.sortName {seen : List String} {parts : List String × List String}
    (h : Sorted registry seen parts) (name : String) :
    Sorted registry (seen ++ [name]) (sortName registry parts name) := by
  obtain ⟨kept, dropped⟩ := parts
  rw [ToolSelection.sortName]
  split
  · rename_i hkeep
    refine ⟨?_, h.kept.append (List.Sublist.refl _), ?_, ?_, ?_⟩
    · show (kept ++ [name] ++ dropped).Perm (seen ++ [name])
      rw [List.append_assoc]
      apply ((List.perm_append_comm.append_left kept).trans _)
      rw [← List.append_assoc]
      exact h.perm.append_right [name]
    · exact h.dropped.trans (List.sublist_append_left _ _)
    · have hlt : kept.length < maxSelectedTools := hkeep.2
      show (kept ++ [name]).length ≤ maxSelectedTools
      rw [List.length_append, List.length_singleton]
      omega
    · intro other hmem
      rcases List.mem_append.mp hmem with hmem | hmem
      · exact h.keeps other hmem
      · rw [List.mem_singleton.mp hmem]
        exact hkeep.1
  · refine ⟨?_, h.kept.trans (List.sublist_append_left _ _),
      h.dropped.append (List.Sublist.refl _), h.length_le, h.keeps⟩
    show (kept ++ (dropped ++ [name])).Perm (seen ++ [name])
    rw [← List.append_assoc]
    exact h.perm.append_right [name]

theorem foldl_sortName {seen : List String} {parts : List String × List String}
    (h : Sorted registry seen parts) (names : List String) :
    Sorted registry (seen ++ names) (names.foldl (ToolSelection.sortName registry) parts) := by
  induction names generalizing seen parts with
  | nil => simpa using h
  | cons name names ih => simpa using ih (h.sortName name)

theorem sorted_filterDefaultTools (registry : ToolRegistry) (selected : List String) :
    Sorted registry (normalizeSelection selected)
      (filterDefaultTools selected (some registry)) := by
  have hstart : Sorted registry [] ([], []) :=
    ⟨List.Perm.refl _, List.Sublist.refl _, List.Sublist.refl _, Nat.zero_le _,
      List.forall_mem_nil _⟩
  unfold filterDefaultTools
  generalize normalizeSelection selected = names
  cases names with
  | nil => exact hstart
  | cons name names => exact foldl_sortName hstart (name :: names)

/-! ## What is called -/

/-- The message is given for every required parameter, where each is one of text. -/
theorem selectedParams_of_text (name userMessage : String) {required : List String}
    (h : ∀ r ∈ required, r ∈ textParams) :
    ∃ params, selectedParams name userMessage required = .ok params ∧
      ∀ r ∈ required, params.lookup r = some (.string userMessage) := by
  have hfold : ∀ (required : List String) (params : CallParams), (∀ r ∈ required, r ∈ textParams) →
      ∃ filled, required.foldlM
        (fun params r =>
          if r ∈ textParams then Except.ok (params.insert r (.string userMessage))
          else .error (invalidToolSelection [name]
            s!"it needs a '{r}' value that cannot be provided from chat")) params = .ok filled ∧
        ∀ r, r ∈ required ∨ params.lookup r = some (.string userMessage) →
          filled.lookup r = some (.string userMessage) := by
    intro required
    induction required with
    | nil => exact fun params h => ⟨params, rfl, fun r hr => hr.resolve_left List.not_mem_nil⟩
    | cons first required ih =>
      intro params h
      obtain ⟨hfirst, hrest⟩ := List.forall_mem_cons.mp h
      obtain ⟨filled, hfilled, hlookup⟩ := ih (params.insert first (.string userMessage)) hrest
      refine ⟨filled, ?_, ?_⟩
      · rw [List.foldlM_cons, if_pos hfirst]
        exact hfilled
      · intro r hr
        apply hlookup
        by_cases heq : r = first
        · right
          rw [heq, AList.lookup_insert]
        · rw [AList.lookup_insert_ne heq]
          exact hr.imp_left fun hmem => (List.mem_cons.mp hmem).resolve_left heq
  obtain ⟨filled, hfilled, hlookup⟩ := hfold required ∅ h
  exact ⟨filled, hfilled, fun r hr => hlookup r (.inl hr)⟩

theorem keepsDefault_iff : keepsDefault registry name = true ↔
    ∃ tool, registry.get name = .ok tool ∧ tool.schema.userSelectable = true ∧
      tool.isAvailable = true ∧ ∀ r ∈ tool.schema.required, r ∈ textParams := by
  rw [keepsDefault, ToolRegistry.isUserSelectable, ToolRegistry.get]
  cases registry.tools.lookup name with
  | none => simp
  | some tool =>
    by_cases henabled : name ∈ registry.enabled
    · simp [henabled]
    · simp [henabled]

/-- What the call of a tool is to be: required, and with the message for each
parameter that the tool requires. -/
def CallsTool (registry : ToolRegistry) (userMessage : String) (call : ToolCall) : Prop :=
  call.required = true ∧ ∃ tool, registry.get call.toolName = .ok tool ∧
    ∀ r ∈ tool.schema.required, call.params.lookup r = some (.string userMessage)

theorem selectedCall_of_keepsDefault (h : keepsDefault registry name = true) :
    ∃ call, selectedCall registry userMessage name = .ok call ∧ call.toolName = name ∧
      CallsTool registry userMessage call := by
  obtain ⟨tool, hget, -, havailable, htext⟩ := keepsDefault_iff.mp h
  obtain ⟨params, hparams, hlookup⟩ :=
    selectedParams_of_text name userMessage htext
  refine ⟨{ toolName := name, params, parallel := true, required := true }, ?_, rfl, rfl, tool,
    hget, hlookup⟩
  simp [selectedCall, hget, havailable, hparams, bind, Except.bind, pure, Except.pure]

theorem mapM_selectedCall_of_keepsDefault (h : ∀ name ∈ names, keepsDefault registry name = true) :
    ∃ calls, names.mapM (selectedCall registry userMessage) = .ok calls ∧
      calls.map (·.toolName) = names ∧ ∀ call ∈ calls, CallsTool registry userMessage call := by
  induction names with
  | nil => exact ⟨[], rfl, rfl, List.forall_mem_nil _⟩
  | cons name names ih =>
    obtain ⟨hname, hnames⟩ := List.forall_mem_cons.mp h
    obtain ⟨call, hcall, rfl, hcalls⟩ := selectedCall_of_keepsDefault hname
    obtain ⟨calls, hrest, heq, hall⟩ := ih hnames
    refine ⟨call :: calls, ?_, by rw [List.map_cons, heq],
      List.forall_mem_cons.mpr ⟨hcalls, hall⟩⟩
    rw [List.mapM_cons, hcall]
    show (do
      let rest ← names.mapM (selectedCall registry userMessage)
      pure (call :: rest)) = _
    rw [hrest]
    rfl

/-- Names that are normalised, not too many and can be called are called. -/
theorem buildSelectedCalls_of_keepsDefault (userMessage : String)
    (hnormal : normalizeSelection names = names) (hlength : names.length ≤ maxSelectedTools)
    (hkeeps : ∀ name ∈ names, keepsDefault registry name = true) :
    ∃ calls, buildSelectedCalls names (some registry) userMessage = .ok calls ∧
      calls.map (·.toolName) = names ∧ ∀ call ∈ calls, CallsTool registry userMessage call := by
  obtain ⟨calls, hcalls, hcalled⟩ := mapM_selectedCall_of_keepsDefault hkeeps
  refine ⟨calls, ?_, hcalled⟩
  have havailable : names.filter (!registry.isEnabled ·) = [] := by
    rw [List.filter_eq_nil_iff]
    intro name hmem
    obtain ⟨tool, hget, -⟩ := keepsDefault_iff.mp (hkeeps name hmem)
    simp [ToolRegistry.isEnabled_iff.mpr ⟨tool, hget⟩]
  rw [buildSelectedCalls, hnormal]
  dsimp only
  by_cases hnames : names = []
  · subst hnames
    obtain rfl := Except.ok.inj hcalls
    rfl
  · rw [if_neg hnames, if_neg (Nat.not_lt.mpr hlength), havailable, if_neg (by simp), hcalls]

/-- What `filter_default_tools` keeps runs: the normalised names are kept or
dropped, and each that is kept is called, with all that it requires. -/
theorem filterDefaultTools_run (selected : List String) (registry : Option ToolRegistry)
    (userMessage : String) :
    ∃ kept dropped calls,
      filterDefaultTools selected registry = (kept, dropped) ∧
      (kept ++ dropped).Perm (normalizeSelection selected) ∧ (kept ++ dropped).Nodup ∧
      (∀ name, name ∈ kept ++ dropped ↔ name ≠ "" ∧ name ∈ selected.map PyText.stripStr) ∧
      kept.Sublist (normalizeSelection selected) ∧
      kept.Sublist (selected.map PyText.stripStr) ∧ kept.length ≤ maxSelectedTools ∧
      buildSelectedCalls kept registry userMessage = .ok calls ∧
      calls.map (·.toolName) = kept ∧
      ∀ call ∈ calls, ∃ reg, registry = some reg ∧ CallsTool reg userMessage call := by
  cases registry with
  | none =>
    have hfilter : filterDefaultTools selected none = ([], normalizeSelection selected) := by
      unfold filterDefaultTools
      cases normalizeSelection selected with
      | nil => rfl
      | cons name names => rfl
    exact ⟨[], normalizeSelection selected, [], hfilter, List.Perm.refl _,
      nodup_normalizeSelection selected, fun name => mem_normalizeSelection,
      List.nil_sublist _, List.nil_sublist _, Nat.zero_le _, rfl, rfl, List.forall_mem_nil _⟩
  | some registry =>
    obtain ⟨kept, dropped, hparts⟩ : ∃ kept dropped,
        filterDefaultTools selected (some registry) = (kept, dropped) := ⟨_, _, rfl⟩
    have hsorted := sorted_filterDefaultTools registry selected
    rw [hparts] at hsorted
    obtain ⟨calls, hbuild, hnames, hcalls⟩ := buildSelectedCalls_of_keepsDefault userMessage
      (normalizeSelection_of_sublist hsorted.kept) hsorted.length_le hsorted.keeps
    refine ⟨kept, dropped, calls, hparts, hsorted.perm, ?_, ?_, hsorted.kept,
      hsorted.kept.trans (normalizeSelection_sublist selected), hsorted.length_le, hbuild, hnames,
      fun call hmem => ⟨registry, rfl, hcalls call hmem⟩⟩
    · show (kept ++ dropped).Nodup
      rw [hsorted.perm.nodup_iff]
      exact nodup_normalizeSelection selected
    · intro name
      rw [hsorted.perm.mem_iff, mem_normalizeSelection]

end LlmService.ToolSelection
