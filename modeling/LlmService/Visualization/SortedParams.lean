import LlmService.Lib.SortedJson
import LlmService.Visualization.ManimBuilders

/-!
# Parameters with sorted keys

The builders of the animation templates look their parameters up by key: what
they build does not depend on the order of the keys, and parameters that are
accepted have no `float` and no large number in them, so that nothing is lost
when they are written as JSON and read again.
-/

namespace LlmService

namespace ManimTemplates

open PyJson (Everywhere EverywhereItems EverywhereFields KeysOnce get sortKeys sortedFields)

/-- A value that is read as it was written. -/
def Exact : PyJson → Prop
  | .float _ => False
  | .int n => (Nat.toDigits 10 n.natAbs).length ≤ JsonText.maxStrDigits
  | _ => True

theorem plain_of_exact {value : PyJson} (hkeys : Everywhere KeysOnce value)
    (hexact : Everywhere Exact value) : Everywhere JsonText.Plain value := by
  apply PyJson.Everywhere.combine _ value hkeys hexact
  intro part hpart hexact
  cases part with
  | float literal => exact hexact
  | int n => exact hexact
  | object fields => exact hpart
  | _ => trivial

/-- A check that looks fields up by key, of a value without a `float`. -/
def ReadsKeys {α : Type} (check : PyJson → Except SpecError α) : Prop :=
  ∀ value out, Everywhere KeysOnce value → check value = .ok out →
    check (sortKeys value) = .ok out ∧ Everywhere Exact value

/-- A builder that looks its parameters up by key. -/
def BuildsByKeys {α : Type} (build : Params → Except SpecError α) : Prop :=
  ∀ params out, Everywhere KeysOnce (.object params) → build params = .ok out →
    build (sortedFields params) = .ok out ∧ Everywhere Exact (.object params)

section Checks

variable {d : ManimData} {params fields : Params} {α : Type} {allowed : List String}

theorem extraKeys_eq_nil_iff : extraKeys fields allowed = [] ↔ ∀ field ∈ fields, field.1 ∈ allowed := by
  rw [extraKeys, List.filter_eq_nil_iff]
  simp

theorem extraKeys_sortedFields (h : extraKeys fields allowed = []) :
    extraKeys (sortedFields fields) allowed = [] := by
  rw [extraKeys, List.filter_eq_nil_iff] at h ⊢
  intro key hkey
  exact h key ((PyJson.keys_sortedFields_perm fields).mem_iff.mp hkey)

theorem everywhere_lookup {p : PyJson → Prop} (h : EverywhereFields p fields) {key : String}
    {value : PyJson} (hvalue : fields.lookup key = some value) : Everywhere p value := by
  obtain ⟨before, after, hsplit, -⟩ := List.lookup_eq_some_iff.mp hvalue
  apply PyJson.everywhereFields_iff.mp h (key, value)
  rw [hsplit]
  exact List.mem_append_right _ List.mem_cons_self

theorem everywhere_get {p : PyJson → Prop} (hnull : p .null) (h : EverywhereFields p fields)
    (key : String) : Everywhere p (get fields key) := by
  rw [PyJson.get]
  cases hfield : fields.lookup key with
  | none => exact hnull
  | some value => exact everywhere_lookup h hfield

/-- An object whose fields are all checked. -/
theorem exact_object (hkeys : (fields.map Prod.fst).Nodup) (hextra : extraKeys fields allowed = [])
    (h : ∀ key ∈ allowed, Everywhere Exact (get fields key)) : Everywhere Exact (.object fields) := by
  refine ⟨trivial, PyJson.everywhereFields_iff.mpr ?_⟩
  intro (key, value) hfield
  have hvalue := h key (extraKeys_eq_nil_iff.mp hextra _ hfield)
  rw [PyJson.get, (PyJson.mem_iff_lookup hkeys).mp hfield] at hvalue
  exact hvalue

theorem readsKeys_of_string {check : PyJson → Except SpecError α}
    (h : ∀ value out, check value = .ok out → ∃ text, value = .string text) : ReadsKeys check := by
  intro value out _ hcheck
  obtain ⟨text, rfl⟩ := h value out hcheck
  exact ⟨hcheck, trivial⟩

theorem exact_int {n : Int} (h : n.natAbs < 10 ^ 3) : Exact (.int n) := by
  have hlen : (Nat.toDigits 10 n.natAbs).length ≤ 3 :=
    (Nat.length_toDigits_le_iff (by omega) (by omega)).mpr h
  exact hlen.trans (by decide)

theorem readsKeys_int {name : String} {lo hi : Int} (hlo : -1000 < lo) (hhi : hi < 1000) :
    ReadsKeys fun value => int value name lo hi := by
  intro value out _ hcheck
  obtain ⟨rfl, hrange⟩ := int_eq_ok_iff.mp hcheck
  exact ⟨hcheck, exact_int (by omega)⟩

theorem readsKeys_intList {name : String} {lo hi : Int} {minLen maxLen : Nat} (hlo : -1000 < lo)
    (hhi : hi < 1000) : ReadsKeys fun value => intList value name lo hi minLen maxLen := by
  intro value out _ hcheck
  obtain ⟨rfl, -, hrange⟩ := intList_eq_ok_iff.mp hcheck
  have hsort : sortKeys (.array (out.map .int)) = .array (out.map .int) := by
    rw [sortKeys, PyJson.sortKeysItems_eq_map, List.map_map]
    rfl
  refine ⟨by rwa [hsort], trivial, PyJson.everywhereItems_iff.mpr ?_⟩
  intro item hitem
  obtain ⟨n, hn, rfl⟩ := List.mem_map.mp hitem
  have := hrange n hn
  exact exact_int (by omega)

/-- The items of a list, each with the same check. -/
theorem forall₂_sortKeys {check : PyJson → Except SpecError α} (h : ReadsKeys check)
    {items : List PyJson} {outs : List α} (hkeys : EverywhereItems KeysOnce items)
    (hitems : List.Forall₂ (fun item out => check item = .ok out) items outs) :
    List.Forall₂ (fun item out => check item = .ok out) (PyJson.sortKeysItems items) outs ∧
      EverywhereItems Exact items := by
  induction hitems with
  | nil => exact ⟨.nil, trivial⟩
  | @cons item out items outs hitem _ ih =>
    obtain ⟨hsorted, hexact⟩ := h item out hkeys.1 hitem
    obtain ⟨hrest, hall⟩ := ih hkeys.2
    exact ⟨.cons hsorted hrest, hexact, hall⟩

theorem length_sortKeysItems (items : List PyJson) :
    (PyJson.sortKeysItems items).length = items.length := by
  rw [PyJson.sortKeysItems_eq_map, List.length_map]

theorem label_eq_ok_string {value : PyJson} {name : String} {limit : Int} {clip : Bool} {out : Text}
    (h : label d.word value name limit clip = .ok out) : ∃ text, value = .string text := by
  cases value with
  | string text => exact ⟨text, rfl⟩
  | _ => cases h

theorem readsKeys_names {hi : Nat} {kind : String} {limit : Int} {listMessage uniqueMessage : String} :
    ReadsKeys fun value => names d value hi kind limit listMessage uniqueMessage := by
  intro value out hkeys hcheck
  obtain ⟨items, rfl, hlen, hlabels, hnodup⟩ := names_eq_ok_iff.mp hcheck
  have hlabel : ReadsKeys fun value => label d.word value kind limit false :=
    readsKeys_of_string fun _ _ => label_eq_ok_string
  obtain ⟨hsorted, hexact⟩ := forall₂_sortKeys hlabel hkeys.2 hlabels
  refine ⟨names_eq_ok_iff.mpr ⟨_, rfl, ?_, hsorted, hnodup⟩, trivial, hexact⟩
  rw [length_sortKeysItems]
  exact hlen

theorem readsKeys_member {labels : List Text} {error : String} :
    ReadsKeys fun value => member labels value error := by
  apply readsKeys_of_string
  intro value out hcheck
  obtain ⟨name, rfl, -⟩ := member_eq_ok_iff.mp hcheck
  exact ⟨name, rfl⟩

theorem readsKeys_edge {labels : List Text} : ReadsKeys (edge labels) := by
  intro value out _ hcheck
  obtain ⟨a, b, rfl, -⟩ := edge_eq_ok_iff.mp hcheck
  exact ⟨hcheck, trivial, trivial, trivial, trivial⟩

/-- A message or a transition. -/
theorem linkEnds_sortKeys {labels : List Text} {error : String} {item : PyJson} {a b : Text}
    {text : PyJson} (hkeys : Everywhere KeysOnce item)
    (h : linkEnds labels item error = .ok (a, b, text)) :
    linkEnds labels (sortKeys item) error = .ok (a, b, sortKeys text) ∧
      (Everywhere Exact text → Everywhere Exact item) := by
  obtain ⟨fields, rfl, hextra, ⟨hsource, ha⟩, ⟨htarget, hb⟩, rfl⟩ := linkEnds_eq_ok_iff.mp h
  have hget := PyJson.get_sortedFields hkeys.1
  constructor
  · refine linkEnds_eq_ok_iff.mpr ⟨sortedFields fields, rfl, extraKeys_sortedFields hextra, ⟨?_, ha⟩,
      ⟨?_, hb⟩, (hget "label").symm⟩
    · rw [hget, hsource]
      rfl
    · rw [hget, htarget]
      rfl
  · intro htext
    apply exact_object hkeys.1 hextra
    simp only [List.forall_mem_cons]
    refine ⟨?_, ?_, htext, by simp⟩
    · rw [hsource]
      exact trivial
    · rw [htarget]
      exact trivial

theorem readsKeys_message {labels : List Text} : ReadsKeys (message d labels) := by
  intro value out hkeys hcheck
  obtain ⟨a, b, text, hends, hsource, htarget, hlabel⟩ := message_eq_ok_iff.mp hcheck
  obtain ⟨hsorted, hexact⟩ := linkEnds_sortKeys hkeys hends
  obtain ⟨shown, rfl⟩ := label_eq_ok_string hlabel
  exact ⟨message_eq_ok_iff.mpr ⟨a, b, _, hsorted, hsource, htarget, hlabel⟩, hexact trivial⟩

theorem readsKeys_transition {labels : List Text} : ReadsKeys (transition d labels) := by
  intro value out hkeys hcheck
  obtain ⟨a, b, text, hends, hne, hsource, htarget, hlabel⟩ := transition_eq_ok_iff.mp hcheck
  obtain ⟨hsorted, hexact⟩ := linkEnds_sortKeys hkeys hends
  obtain ⟨shown, rfl⟩ := label_eq_ok_string hlabel
  exact ⟨transition_eq_ok_iff.mpr ⟨a, b, _, hsorted, hne, hsource, htarget, hlabel⟩, hexact trivial⟩

/-- A parameter that is checked. -/
theorem ReadsKeys.get {check : PyJson → Except SpecError α} (h : ReadsKeys check)
    (hkeys : Everywhere KeysOnce (.object params)) {key : String} {out : α}
    (hcheck : check (PyJson.get params key) = .ok out) :
    check (PyJson.get (sortedFields params) key) = .ok out ∧ Everywhere Exact (PyJson.get params key) := by
  rw [PyJson.get_sortedFields hkeys.1]
  exact h _ out (everywhere_get trivial hkeys.2 key) hcheck

/-- A parameter that is a list, each item of it checked. -/
theorem ReadsKeys.list {check : PyJson → Except SpecError α} (h : ReadsKeys check)
    (hkeys : Everywhere KeysOnce (.object params)) {key : String} {lo hi : Nat} {outs : List α}
    (hlist : ∃ items, PyJson.get params key = .array items ∧ (lo ≤ items.length ∧ items.length ≤ hi) ∧
      List.Forall₂ (fun item out => check item = .ok out) items outs) :
    (∃ items, PyJson.get (sortedFields params) key = .array items ∧
      (lo ≤ items.length ∧ items.length ≤ hi) ∧
      List.Forall₂ (fun item out => check item = .ok out) items outs) ∧
        Everywhere Exact (PyJson.get params key) := by
  obtain ⟨items, hvalue, hlen, hitems⟩ := hlist
  have hvalues := everywhere_get (p := KeysOnce) trivial hkeys.2 key
  rw [hvalue] at hvalues
  obtain ⟨hsorted, hexact⟩ := forall₂_sortKeys h hvalues.2 hitems
  rw [PyJson.get_sortedFields hkeys.1, hvalue]
  refine ⟨⟨_, rfl, ?_, hsorted⟩, trivial, hexact⟩
  rw [length_sortKeysItems]
  exact hlen

end Checks

/-! ## The builders -/

section Builders

variable {d : ManimData}

theorem binarySearch_buildsByKeys : BuildsByKeys (binarySearch d) := by
  intro params out hkeys h
  obtain ⟨hextra, arr, harr, hsorted, target, htarget, rfl⟩ := binarySearch_eq_ok_iff.mp h
  obtain ⟨harr', harray⟩ := (readsKeys_intList (by omega) (by omega)).get hkeys harr
  obtain ⟨htarget', hint⟩ := (readsKeys_int (by omega) (by omega)).get hkeys htarget
  constructor
  · exact binarySearch_eq_ok_iff.mpr
      ⟨extraKeys_sortedFields hextra, arr, harr', hsorted, target, htarget', rfl⟩
  · apply exact_object hkeys.1 hextra
    simp [harray, hint]

theorem sortAlgorithm_eq_ok_string {value : PyJson} {algorithm : SortAlgorithm}
    (h : sortAlgorithm value = .ok algorithm) : ∃ text, value = .string text := by
  cases value with
  | string text => exact ⟨text, rfl⟩
  | _ => cases h

theorem sorting_buildsByKeys : BuildsByKeys (sorting d) := by
  intro params out hkeys h
  obtain ⟨hextra, algorithm, halgorithm, arr, harr, rfl⟩ := sorting_eq_ok_iff.mp h
  obtain ⟨halgorithm', hname⟩ :=
    (readsKeys_of_string fun _ _ => sortAlgorithm_eq_ok_string).get hkeys halgorithm
  obtain ⟨harr', harray⟩ := (readsKeys_intList (by omega) (by omega)).get hkeys harr
  constructor
  · exact sorting_eq_ok_iff.mpr
      ⟨extraKeys_sortedFields hextra, algorithm, halgorithm', arr, harr', rfl⟩
  · apply exact_object hkeys.1 hextra
    simp [hname, harray]

theorem recursiveFunction_eq_ok_string {value : PyJson} {function : RecursiveFunction}
    (h : recursiveFunction value = .ok function) : ∃ text, value = .string text := by
  cases value with
  | string text => exact ⟨text, rfl⟩
  | _ => cases h

theorem recursionStack_buildsByKeys : BuildsByKeys (recursionStack d) := by
  intro params out hkeys h
  simp only [recursionStack, except_bind_eq_ok, only_eq_ok_iff, exists_const] at h ⊢
  obtain ⟨hextra, function, hfunction, n, hn, hrest⟩ := h
  obtain ⟨hfunction', hname⟩ :=
    (readsKeys_of_string fun _ _ => recursiveFunction_eq_ok_string).get hkeys hfunction
  obtain ⟨hn', hint⟩ := (readsKeys_int (by omega) (by omega)).get hkeys hn
  constructor
  · exact ⟨extraKeys_sortedFields hextra, function, hfunction', n, hn', hrest⟩
  · apply exact_object hkeys.1 hextra
    simp [hname, hint]

theorem startIndex_sortKeys {labels : List Text} {params : Params} {s : Nat}
    (hkeys : Everywhere KeysOnce (.object params))
    (h : startIndex labels (params.lookup "start") = .ok s) :
    startIndex labels ((sortedFields params).lookup "start") = .ok s ∧
      Everywhere Exact (get params "start") := by
  rw [PyJson.lookup_sortedFields hkeys.1, PyJson.get]
  cases hstart : params.lookup "start" with
  | none =>
    rw [hstart] at h
    exact ⟨h, trivial⟩
  | some value =>
    rw [hstart] at h
    have hvalue := everywhere_get (p := KeysOnce) trivial hkeys.2 "start"
    rw [PyJson.get, hstart] at hvalue
    exact readsKeys_member value s hvalue h

theorem graphTraversal_buildsByKeys : BuildsByKeys (graphTraversal d) := by
  intro params out hkeys h
  obtain ⟨hextra, halgorithm, hnodes, hedges, s, hs, horder⟩ := graphTraversal_eq_ok_iff.mp h
  have hstring : ∀ value algorithm, graphAlgorithm value = .ok algorithm →
      ∃ text, value = .string text := fun _ _ h => ⟨_, graphAlgorithm_eq_ok_iff.mp h⟩
  obtain ⟨halgorithm', hname⟩ := (readsKeys_of_string hstring).get hkeys halgorithm
  obtain ⟨hnodes', hlabels⟩ := readsKeys_names.get hkeys hnodes
  obtain ⟨hedges', hpairs⟩ := readsKeys_edge.list hkeys hedges
  obtain ⟨hs', hstart⟩ := startIndex_sortKeys hkeys hs
  constructor
  · exact graphTraversal_eq_ok_iff.mpr ⟨extraKeys_sortedFields hextra, halgorithm', hnodes', hedges', s,
      hs', horder⟩
  · apply exact_object hkeys.1 hextra
    simp [hname, hlabels, hpairs, hstart]

theorem messageFlow_buildsByKeys : BuildsByKeys (messageFlow d) := by
  intro params out hkeys h
  obtain ⟨hextra, hactors, hmessages⟩ := messageFlow_eq_ok_iff.mp h
  obtain ⟨hactors', hlabels⟩ := readsKeys_names.get hkeys hactors
  obtain ⟨hmessages', hitems⟩ := readsKeys_message.list hkeys hmessages
  constructor
  · exact messageFlow_eq_ok_iff.mpr ⟨extraKeys_sortedFields hextra, hactors', hmessages'⟩
  · apply exact_object hkeys.1 hextra
    simp [hlabels, hitems]

theorem statePath_sortKeys {labels : List Text} {params : Params} {path : List Nat}
    (hkeys : Everywhere KeysOnce (.object params))
    (h : statePath labels (params.lookup "path") = .ok path) :
    statePath labels ((sortedFields params).lookup "path") = .ok path ∧
      Everywhere Exact (get params "path") := by
  rw [PyJson.lookup_sortedFields hkeys.1, PyJson.get]
  cases hpath : params.lookup "path" with
  | none =>
    rw [hpath] at h
    exact ⟨h, trivial⟩
  | some value =>
    rw [hpath] at h
    have hvalue := everywhere_get (p := KeysOnce) trivial hkeys.2 "path"
    rw [PyJson.get, hpath] at hvalue
    obtain ⟨items, rfl, hlen, hitems⟩ := statePath_some_eq_ok_iff.mp h
    obtain ⟨hsorted, hexact⟩ := forall₂_sortKeys readsKeys_member hvalue.2 hitems
    refine ⟨statePath_some_eq_ok_iff.mpr ⟨_, rfl, ?_, hsorted⟩, trivial, hexact⟩
    rw [length_sortKeysItems]
    exact hlen

theorem stateMachine_buildsByKeys : BuildsByKeys (stateMachine d) := by
  intro params out hkeys h
  obtain ⟨hextra, hstates, htransitions, hpath⟩ := stateMachine_eq_ok_iff.mp h
  obtain ⟨hstates', hlabels⟩ := readsKeys_names.get hkeys hstates
  obtain ⟨htransitions', hitems⟩ := readsKeys_transition.list hkeys htransitions
  obtain ⟨hpath', hindices⟩ := statePath_sortKeys hkeys hpath
  constructor
  · exact stateMachine_eq_ok_iff.mpr
      ⟨extraKeys_sortedFields hextra, hstates', htransitions', hpath'⟩
  · apply exact_object hkeys.1 hextra
    simp [hlabels, hitems, hindices]

theorem textSteps_buildsByKeys : BuildsByKeys (textSteps d) := by
  intro params out hkeys h
  simp only [textSteps, except_bind_eq_ok, only_eq_ok_iff, listOf_eq_ok_iff, mapM_eq_ok_iff,
    exists_const] at h ⊢
  obtain ⟨hextra, items, ⟨hvalue, hlen⟩, steps, hsteps, hpure⟩ := h
  have hlabel : ReadsKeys fun value => label d.word value "step" 48 true :=
    readsKeys_of_string fun _ _ => label_eq_ok_string
  obtain ⟨⟨items', hvalue', hlen', hsteps'⟩, hexact⟩ :=
    hlabel.list hkeys ⟨items, hvalue, hlen, hsteps⟩
  constructor
  · exact ⟨extraKeys_sortedFields hextra, items', ⟨hvalue', hlen'⟩, steps, hsteps', hpure⟩
  · apply exact_object hkeys.1 hextra
    simp [hexact]

end Builders

end ManimTemplates

end LlmService
