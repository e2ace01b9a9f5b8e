import LlmService.Tools.Registry

/-!
# Explicit tool selection

`tools/selection.py`: the names that come with a message, and the calls that
are made of them.
-/

namespace LlmService

namespace ToolSelection

/-- `MAX_SELECTED_TOOLS`. -/
def maxSelectedTools : Nat := 5

/-- `_TEXT_PARAMS`. -/
def textParams : List String := ["query", "prompt", "text", "input", "question"]

/-- `", ".join(f"'{n}'" for n in tool_names)`. -/
def quotedNames (toolNames : List String) : String :=
  ", ".intercalate (toolNames.map fun name => s!"'{name}'")

/-- `InvalidToolSelectionError(tool_names, reason)`. -/
def invalidToolSelection (toolNames : List String) (reason : String) : Exc :=
  let names := quotedNames toolNames
  { cls := .userFacingError
    message := s!"Invalid tool selection {names}: {reason}"
    errorCode := some "INVALID_TOOL_SELECTION"
    errorType := .tool
    userMessage := s!"The selected tool {names} is not available ({reason}). " ++
      "Remove it or choose another tool and send the message again." }

/-- `normalize_selection`: the first of each name stays. -/
def normalizeSelection (selected : List String) : List String :=
  (selected.map PyText.stripStr).foldl
    (fun seen name => if name = "" ∨ name ∈ seen then seen else seen ++ [name]) []

/-- Whether a default tool is kept: it is selectable, available, and runs on text. -/
def keepsDefault (registry : ToolRegistry) (name : String) : Bool :=
  registry.isUserSelectable name &&
    match registry.get name with
    | .error _ => false
    | .ok tool => tool.isAvailable && tool.schema.required.all (· ∈ textParams)

/-- `filter_default_tools`: what is kept and what is dropped. -/
def filterDefaultTools (selected : List String) (registry : Option ToolRegistry) :
    List String × List String :=
  let names := normalizeSelection selected
  match names, registry with
  | [], _ | _, none => ([], names)
  | names, some registry =>
    names.foldl
      (fun (kept, dropped) name =>
        if keepsDefault registry name ∧ kept.length < maxSelectedTools then (kept ++ [name], dropped)
        else (kept, dropped ++ [name]))
      ([], [])

/-- `drop_calls_covered_by_mode`. -/
def dropCallsCoveredByMode (calls : List ToolCall) (mode : UserMode) : List ToolCall :=
  let covered := if mode = .webSearch then ["web_search"] else []
  calls.filter (·.toolName ∉ covered)

/-- The parameters that the message gives to a tool. -/
def selectedParams (name userMessage : String) (required : List String) : Except Exc CallParams :=
  required.foldlM
    (fun params r =>
      if r ∈ textParams then .ok (params.insert r (.string userMessage))
      else
        .error (invalidToolSelection [name] s!"it needs a '{r}' value that cannot be provided from chat"))
    ∅

/-- The call of one selected tool. -/
def selectedCall (registry : ToolRegistry) (userMessage name : String) : Except Exc ToolCall := do
  let tool ← registry.get name
  if !tool.isAvailable then
    throw (invalidToolSelection [name] "it is not configured on this server")
  let params ← selectedParams name userMessage tool.schema.required
  return { toolName := name, params, parallel := true, required := true }

/-- `build_selected_calls`. -/
def buildSelectedCalls (selected : List String) (registry : Option ToolRegistry)
    (userMessage : String) : Except Exc (List ToolCall) :=
  let names := normalizeSelection selected
  if names = [] then .ok []
  else
    match registry with
    | none => .error (invalidToolSelection names "tools are not available right now")
    | some registry =>
      if maxSelectedTools < names.length then
        .error (invalidToolSelection (names.drop maxSelectedTools)
          s!"at most {maxSelectedTools} tools can be selected")
      else
        let unavailable := names.filter (!registry.isEnabled ·)
        if unavailable ≠ [] then .error (invalidToolSelection unavailable "unknown or disabled")
        else names.mapM (selectedCall registry userMessage)

/-! ## The calls -/

variable {registry : ToolRegistry} {selected : List String} {userMessage : String}
  {calls : List ToolCall} {call : ToolCall}

/-- A name is added to the names before it if it is not one of them. -/
theorem nodup_foldl_add (names : List String) {seen : List String} (h : seen.Nodup) :
    (names.foldl (fun seen name => if name = "" ∨ name ∈ seen then seen else seen ++ [name])
      seen).Nodup := by
  induction names generalizing seen with
  | nil => exact h
  | cons name names ih =>
    apply ih
    dsimp only
    by_cases hskip : name = "" ∨ name ∈ seen
    · rw [if_pos hskip]
      exact h
    · rw [if_neg hskip, List.nodup_append]
      refine ⟨h, List.nodup_singleton name, ?_⟩
      intro a ha b hb heq
      rw [List.mem_singleton] at hb
      subst hb heq
      exact hskip (.inr ha)

theorem nodup_normalizeSelection (selected : List String) : (normalizeSelection selected).Nodup :=
  nodup_foldl_add _ List.nodup_nil

theorem selectedCall_eq {name : String} (h : selectedCall registry userMessage name = .ok call) :
    call.toolName = name ∧ call.parallel = true ∧ call.required = true := by
  rw [selectedCall] at h
  cases hget : registry.get name with
  | error exc =>
    rw [hget] at h
    cases h
  | ok tool =>
    rw [hget] at h
    cases havailable : tool.isAvailable with
    | false =>
      simp [bind, Except.bind, havailable, throw, throwThe, MonadExceptOf.throw] at h
    | true =>
      cases hparams : selectedParams name userMessage tool.schema.required with
      | error exc => simp [bind, Except.bind, havailable, hparams] at h
      | ok params =>
        simp [bind, Except.bind, havailable, hparams, pure, Except.pure] at h
        subst h
        exact ⟨rfl, rfl, rfl⟩

/-- The calls of a selection are those of its names. -/
theorem mapM_selectedCall {names : List String}
    (h : names.mapM (selectedCall registry userMessage) = .ok calls) :
    calls.map (·.toolName) = names ∧ ∀ call ∈ calls, call.required = true := by
  induction names generalizing calls with
  | nil =>
    obtain rfl := Except.ok.inj h
    exact ⟨rfl, List.forall_mem_nil _⟩
  | cons name names ih =>
    rw [List.mapM_cons] at h
    cases hcall : selectedCall registry userMessage name with
    | error exc =>
      rw [hcall] at h
      cases h
    | ok call =>
      rw [hcall] at h
      cases hcalls : names.mapM (selectedCall registry userMessage) with
      | error exc =>
        rw [hcalls] at h
        cases h
      | ok calls' =>
        rw [hcalls] at h
        obtain rfl := Except.ok.inj h
        obtain ⟨hname, -, hrequired⟩ := selectedCall_eq hcall
        obtain ⟨hnames, hall⟩ := ih hcalls
        rw [List.map_cons, hname, hnames]
        exact ⟨rfl, List.forall_mem_cons.mpr ⟨hrequired, hall⟩⟩

theorem buildSelectedCalls_eq
    (h : buildSelectedCalls selected (some registry) userMessage = .ok calls) :
    calls.map (·.toolName) = normalizeSelection selected ∧ ∀ call ∈ calls, call.required = true := by
  rw [buildSelectedCalls] at h
  dsimp only at h
  by_cases hnames : normalizeSelection selected = []
  · rw [if_pos hnames] at h
    obtain rfl := Except.ok.inj h
    exact ⟨hnames.symm, List.forall_mem_nil _⟩
  · rw [if_neg hnames] at h
    by_cases hmany : maxSelectedTools < (normalizeSelection selected).length
    · rw [if_pos hmany] at h
      cases h
    · rw [if_neg hmany] at h
      by_cases hunavailable : (normalizeSelection selected).filter (!registry.isEnabled ·) ≠ []
      · rw [if_pos hunavailable] at h
        cases h
      · rw [if_neg hunavailable] at h
        exact mapM_selectedCall h

end ToolSelection

end LlmService
