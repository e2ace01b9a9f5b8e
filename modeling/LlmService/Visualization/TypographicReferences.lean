import LlmService.Visualization.ManimBuilders

/-!
# References and typography

Three templates declare names, which are brought into their plain form, and
refer to them elsewhere in their parameters: `_graph_traversal`,
`_message_flow` and `_state_machine`. A reference is looked up as it is
written, so that one which carries a typographic character is never found.
-/

namespace LlmService

namespace ManimTemplates

open PyJson (get mapStrings mapFields)

/-! ## Declared names -/

/-- A rewriting of strings that labels do not notice. -/
structure Rewrites (ρ : Text → Text) : Prop where
  plain : ∀ text, plainForm (ρ text) = plainForm text
  /-- names of letters come from themselves only -/
  letters : ∀ text name, (∀ c ∈ name, c.isAlpha = true) → (ρ text = name ↔ text = name)

theorem rewrites_id : Rewrites id := ⟨fun _ => rfl, fun _ _ _ => Iff.rfl⟩

theorem rewrites_translate : Rewrites translate where
  plain := plainForm_translate
  letters text name hname := by
    have htable : (typography.all fun p => !p.1.isAlpha && !p.2.isAlpha) = true := by decide
    have hother : ∀ c e, typography.lookup c = some e → c.isAlpha = false ∧ e.isAlpha = false := by
      intro c e h
      simpa using forall_lookup htable h
    have hkept : ∀ c, ((typography.lookup c).getD c).isAlpha = true → typography.lookup c = none := by
      intro c hc
      cases hlookup : typography.lookup c with
      | none => rfl
      | some e =>
        rw [hlookup, Option.getD_some, (hother c e hlookup).2] at hc
        cases hc
    constructor
    · intro h
      rw [← h]
      refine (translate_eq_self_iff.mpr ?_).symm
      intro c hc
      apply hkept
      apply hname
      rw [← h]
      exact List.mem_map_of_mem hc
    · rintro rfl
      refine translate_eq_self_iff.mpr ?_
      intro c hc
      cases hlookup : typography.lookup c with
      | none => rfl
      | some e =>
        have hletter := hname c hc
        rw [(hother c e hlookup).1] at hletter
        cases hletter

section Declared

variable {d : ManimData} {ρ : Text → Text} {value : PyJson} {params : Params} {labels : List Text}

theorem label_mapStrings (hρ : Rewrites ρ) (value : PyJson) (name : String) (limit : Int)
    (clip : Bool) : label d.word (mapStrings ρ value) name limit clip =
      label d.word value name limit clip := by
  cases value with
  | string text =>
    rw [mapStrings, label, label, labelText, labelText, hρ.plain]
  | _ => rfl

theorem extraKeys_mapFields (allowed : List String) :
    extraKeys (mapFields ρ params) allowed = extraKeys params allowed := by
  rw [extraKeys, PyJson.map_fst_mapFields, extraKeys]

theorem names_mapStrings_iff (hρ : Rewrites ρ) {hi : Nat} {kind listMessage uniqueMessage : String}
    {limit : Int} : names d (mapStrings ρ value) hi kind limit listMessage uniqueMessage = .ok labels ↔
      names d value hi kind limit listMessage uniqueMessage = .ok labels := by
  rw [names_eq_ok_iff, names_eq_ok_iff]
  constructor
  · rintro ⟨items, hvalue, hlen, hlabels, hnodup⟩
    obtain ⟨old, rfl, rfl⟩ := PyJson.mapStrings_eq_array_iff.mp hvalue
    rw [List.length_map] at hlen
    refine ⟨old, rfl, hlen, ?_, hnodup⟩
    rw [List.forall₂_map_left_iff] at hlabels
    exact hlabels.imp fun v name h => (label_mapStrings hρ v _ _ _).symm.trans h
  · rintro ⟨items, rfl, hlen, hlabels, hnodup⟩
    refine ⟨items.map (mapStrings ρ), PyJson.mapStrings_eq_array_iff.mpr ⟨items, rfl, rfl⟩, ?_, ?_,
      hnodup⟩
    · rw [List.length_map]
      exact hlen
    · rw [List.forall₂_map_left_iff]
      exact hlabels.imp fun v name h => (label_mapStrings hρ v _ _ _).trans h

/-- The declared names are in normal form. -/
theorem normalForm_of_names {hi : Nat} {kind listMessage uniqueMessage : String} {limit : Int}
    (h : names d value hi kind limit listMessage uniqueMessage = .ok labels) :
    ∀ name ∈ labels, normalForm name = name := by
  obtain ⟨items, -, -, hlabels, -⟩ := names_eq_ok_iff.mp h
  intro name hname
  obtain ⟨i, hi, rfl⟩ := List.mem_iff_getElem.mp hname
  have hi' : i < items.length := hlabels.length_eq ▸ hi
  obtain ⟨text, -, hnormal⟩ := normalForm_of_label (hlabels.get hi' hi)
  show normalForm labels[i] = labels[i]
  have hnormal : labels[i] = normalForm text := hnormal
  rw [hnormal, normalForm_normalForm]

theorem graphAlgorithm_mapStrings_iff (hρ : Rewrites ρ) {algorithm : GraphAlgorithm} :
    graphAlgorithm (mapStrings ρ value) = .ok algorithm ↔ graphAlgorithm value = .ok algorithm := by
  have hletters : ∀ c ∈ algorithm.name, c.isAlpha = true :=
    List.all_eq_true.mp (by cases algorithm <;> rfl)
  rw [graphAlgorithm_eq_ok_iff, graphAlgorithm_eq_ok_iff, PyJson.mapStrings_eq_string_iff]
  constructor
  · rintro ⟨text, rfl, htext⟩
    rw [(hρ.letters text _ hletters).mp htext]
  · rintro rfl
    exact ⟨_, rfl, (hρ.letters _ _ hletters).mpr rfl⟩

end Declared

/-! ## References -/

/-- The strings of a value that is one, the items of one that is a list, and the fields of an
object. -/
def texts : PyJson → List Text
  | .string text => [text]
  | _ => []

def itemsOf : PyJson → List PyJson
  | .array items => items
  | _ => []

def fieldsOf : PyJson → Params
  | .object fields => fields
  | _ => []

/-- The texts at both ends of a message or a transition. -/
def ends (item : PyJson) : List Text :=
  texts (get (fieldsOf item) "from") ++ texts (get (fieldsOf item) "to")

/-- The templates with references. -/
inductive RefTemplate where
  | graphTraversal | messageFlow | stateMachine

namespace RefTemplate

/-- All references of the parameters. -/
def references : RefTemplate → Params → List Text
  | .graphTraversal, params =>
    (itemsOf (get params "edges")).flatMap (fun e => (itemsOf e).flatMap texts) ++
      texts (get params "start")
  | .messageFlow, params => (itemsOf (get params "messages")).flatMap ends
  | .stateMachine, params =>
    (itemsOf (get params "transitions")).flatMap ends ++ (itemsOf (get params "path")).flatMap texts

/-- The list of the names that are declared. -/
def declared : RefTemplate → Params → PyJson
  | .graphTraversal, params => get params "nodes"
  | .messageFlow, params => get params "actors"
  | .stateMachine, params => get params "states"

/-- The declared names, as the builder reads them. -/
def labels (d : ManimData) : RefTemplate → Params → Except SpecError (List Text)
  | .graphTraversal, params => names d (get params "nodes") 8 "node" 12
      "nodes must be a list of 2-8 labels" "node labels must be unique"
  | .messageFlow, params => names d (get params "actors") 5 "actor" 16
      "actors must be a list of 2-5 names" "actor names must be unique"
  | .stateMachine, params => names d (get params "states") 6 "state" 14
      "states must be a list of 2-6 names" "state names must be unique"

/-- The typographic characters do not matter for what is built. -/
def SameData (d : ManimData) : RefTemplate → Params → Prop
  | .graphTraversal, params =>
    (ManimTemplates.graphTraversal d (mapFields translate params)).toOption =
      (ManimTemplates.graphTraversal d params).toOption
  | .messageFlow, params =>
    (ManimTemplates.messageFlow d (mapFields translate params)).toOption =
      (ManimTemplates.messageFlow d params).toOption
  | .stateMachine, params =>
    (ManimTemplates.stateMachine d (mapFields translate params)).toOption =
      (ManimTemplates.stateMachine d params).toOption

/-- A reference that is written exactly like a declared name is one of the names. -/
def Recognised (d : ManimData) (T : RefTemplate) (params : Params) : Prop :=
  ∀ names, T.labels d params = .ok names → ∀ r ∈ T.references params,
    .string r ∈ itemsOf (T.declared params) → r ∈ names

structure Consistent (d : ManimData) (T : RefTemplate) (params : Params) : Prop where
  sameData : SameData d T params
  recognised : Recognised d T params

end RefTemplate

/-! ## What is read of the parameters

The checks, with each reference looked up as `ρ` writes it. -/

section References

variable {d : ManimData} {ρ σ : Text → Text} {value item : PyJson} {params : Params}
  {labels : List Text}

def MemberReads (ρ : Text → Text) (labels : List Text) (value : PyJson) (i : Nat) : Prop :=
  ∃ name, value = .string name ∧ ρ name ∈ labels ∧ i = labels.idxOf (ρ name)

def EdgeReads (ρ : Text → Text) (labels : List Text) (item : PyJson) (e : Nat × Nat) : Prop :=
  ∃ a b, item = .array [.string a, .string b] ∧ (ρ a ∈ labels ∧ ρ b ∈ labels ∧ ρ a ≠ ρ b) ∧
    e = (labels.idxOf (ρ a), labels.idxOf (ρ b))

def StartReads (ρ : Text → Text) (labels : List Text) (start : Option PyJson) (s : Nat) : Prop :=
  start = none ∧ s = 0 ∨ ∃ value, start = some value ∧ MemberReads ρ labels value s

/-- A message, or a transition between two `distinct` states. -/
structure LinkReads (d : ManimData) (ρ : Text → Text) (labels : List Text) (limit : Int) (clip : Bool)
    (distinct : Prop) (fields : Params) (a b : Text) (link : Link) : Prop where
  keys : extraKeys fields ["from", "to", "label"] = []
  source : get fields "from" = .string a
  target : get fields "to" = .string b
  known : ρ a ∈ labels ∧ ρ b ∈ labels
  different : distinct → ρ a ≠ ρ b
  indices : link.source = labels.idxOf (ρ a) ∧ link.target = labels.idxOf (ρ b)
  text : label d.word (get fields "label") "label" limit clip = .ok link.label

def ItemReads (d : ManimData) (ρ : Text → Text) (labels : List Text) (limit : Int) (clip : Bool)
    (distinct : Prop) (item : PyJson) (link : Link) : Prop :=
  ∃ fields a b, item = .object fields ∧ LinkReads d ρ labels limit clip distinct fields a b link

def PathReads (ρ : Text → Text) (labels : List Text) (path : Option PyJson) (indices : List Nat) :
    Prop :=
  path = none ∧ indices = [] ∨ ∃ items, path = some (.array items) ∧ items.length ≤ 10 ∧
    List.Forall₂ (MemberReads ρ labels) items indices

/-- A list of `lo` to `hi` items, each read by `R`. -/
def ListReads {β : Type} (R : PyJson → β → Prop) (lo hi : Nat) (value : PyJson) (out : List β) : Prop :=
  ∃ items, value = .array items ∧ (lo ≤ items.length ∧ items.length ≤ hi) ∧ List.Forall₂ R items out

structure GraphReads (d : ManimData) (ρ : Text → Text) (params : Params) (out : GraphTraversal) :
    Prop where
  keys : extraKeys params ["algorithm", "nodes", "edges", "start"] = []
  algorithm : graphAlgorithm (get params "algorithm") = .ok out.algorithm
  nodes : RefTemplate.graphTraversal.labels d params = .ok out.nodes
  edges : ListReads (EdgeReads ρ out.nodes) 1 14 (get params "edges") out.edges
  order : ∃ s, StartReads ρ out.nodes (params.lookup "start") s ∧
    out.order = out.algorithm.order out.nodes.length out.edges s

structure FlowReads (d : ManimData) (ρ : Text → Text) (params : Params) (out : MessageFlow) : Prop where
  keys : extraKeys params ["actors", "messages"] = []
  actors : RefTemplate.messageFlow.labels d params = .ok out.actors
  messages : ListReads (ItemReads d ρ out.actors 28 true False) 1 10 (get params "messages") out.messages

structure MachineReads (d : ManimData) (ρ : Text → Text) (params : Params) (out : StateMachine) :
    Prop where
  keys : extraKeys params ["states", "transitions", "path"] = []
  states : RefTemplate.stateMachine.labels d params = .ok out.states
  transitions : ListReads (ItemReads d ρ out.states 16 false True) 1 10 (get params "transitions")
    out.transitions
  path : PathReads ρ out.states (params.lookup "path") out.path

theorem listReads_mapStrings_iff {β : Type} {check : PyJson → Except SpecError β}
    {R : PyJson → β → Prop} (h : ∀ item b, check (mapStrings ρ item) = .ok b ↔ R item b)
    {lo hi : Nat} {out : List β} :
    (∃ items, mapStrings ρ value = .array items ∧ (lo ≤ items.length ∧ items.length ≤ hi) ∧
      List.Forall₂ (fun item b => check item = .ok b) items out) ↔ ListReads R lo hi value out := by
  constructor
  · rintro ⟨items, hvalue, hlen, hforall⟩
    obtain ⟨old, rfl, rfl⟩ := PyJson.mapStrings_eq_array_iff.mp hvalue
    rw [List.length_map] at hlen
    rw [List.forall₂_map_left_iff] at hforall
    exact ⟨old, rfl, hlen, hforall.imp fun item b => (h item b).mp⟩
  · rintro ⟨items, rfl, hlen, hforall⟩
    refine ⟨items.map (mapStrings ρ), PyJson.mapStrings_eq_array_iff.mpr ⟨items, rfl, rfl⟩, ?_, ?_⟩
    · rw [List.length_map]
      exact hlen
    · rw [List.forall₂_map_left_iff]
      exact hforall.imp fun item b => (h item b).mpr

theorem member_mapStrings_iff {error : String} {i : Nat} :
    member labels (mapStrings ρ value) error = .ok i ↔ MemberReads ρ labels value i := by
  rw [member_eq_ok_iff]
  constructor
  · rintro ⟨name, hvalue, hname, hi⟩
    obtain ⟨old, rfl, rfl⟩ := PyJson.mapStrings_eq_string_iff.mp hvalue
    exact ⟨old, rfl, hname, hi⟩
  · rintro ⟨name, rfl, hname, hi⟩
    exact ⟨ρ name, rfl, hname, hi⟩

theorem edge_mapStrings_iff {e : Nat × Nat} :
    edge labels (mapStrings ρ item) = .ok e ↔ EdgeReads ρ labels item e := by
  rw [edge_eq_ok_iff]
  constructor
  · rintro ⟨a, b, hitem, hends, he⟩
    obtain ⟨old, rfl, hold⟩ := PyJson.mapStrings_eq_array_iff.mp hitem
    obtain ⟨x, y, rfl, hx, hy⟩ : ∃ x y, old = [x, y] ∧ mapStrings ρ x = .string a ∧
        mapStrings ρ y = .string b := by
      rcases old with _ | ⟨x, _ | ⟨y, _ | ⟨z, old⟩⟩⟩
      · simp at hold
      · simp at hold
      · simp only [List.map_cons, List.map_nil, List.cons.injEq, and_true] at hold
        exact ⟨x, y, rfl, hold.1, hold.2⟩
      · simp at hold
    obtain ⟨a, rfl, rfl⟩ := PyJson.mapStrings_eq_string_iff.mp hx
    obtain ⟨b, rfl, rfl⟩ := PyJson.mapStrings_eq_string_iff.mp hy
    exact ⟨a, b, rfl, hends, he⟩
  · rintro ⟨a, b, rfl, hends, he⟩
    exact ⟨ρ a, ρ b, rfl, hends, he⟩

theorem linkEnds_mapStrings_iff {error : String} {a b : Text} {text : PyJson} :
    linkEnds labels (mapStrings ρ item) error = .ok (a, b, text) ↔
      ∃ fields a' b', item = .object fields ∧ extraKeys fields ["from", "to", "label"] = [] ∧
        (get fields "from" = .string a' ∧ ρ a' = a ∧ a ∈ labels) ∧
        (get fields "to" = .string b' ∧ ρ b' = b ∧ b ∈ labels) ∧
        text = mapStrings ρ (get fields "label") := by
  rw [linkEnds_eq_ok_iff]
  constructor
  · rintro ⟨fields, hitem, hkeys, ⟨hsource, ha⟩, ⟨htarget, hb⟩, htext⟩
    obtain ⟨old, rfl, rfl⟩ := PyJson.mapStrings_eq_object_iff.mp hitem
    rw [PyJson.get_mapFields] at hsource htarget htext
    obtain ⟨a', ha', rfl⟩ := PyJson.mapStrings_eq_string_iff.mp hsource
    obtain ⟨b', hb', rfl⟩ := PyJson.mapStrings_eq_string_iff.mp htarget
    rw [extraKeys_mapFields] at hkeys
    exact ⟨old, a', b', rfl, hkeys, ⟨ha', rfl, ha⟩, ⟨hb', rfl, hb⟩, htext⟩
  · rintro ⟨fields, a', b', rfl, hkeys, ⟨hsource, rfl, ha⟩, ⟨htarget, rfl, hb⟩, rfl⟩
    refine ⟨mapFields ρ fields, rfl, ?_, ⟨?_, ha⟩, ⟨?_, hb⟩, ?_⟩
    · rw [extraKeys_mapFields]
      exact hkeys
    · rw [PyJson.get_mapFields, hsource]
      rfl
    · rw [PyJson.get_mapFields, htarget]
      rfl
    · rw [PyJson.get_mapFields]

theorem message_mapStrings_iff (hρ : Rewrites ρ) {link : Link} :
    message d labels (mapStrings ρ item) = .ok link ↔
      ItemReads d ρ labels 28 true False item link := by
  rw [message_eq_ok_iff]
  constructor
  · rintro ⟨a, b, text, hends, hsource, htarget, hlabel⟩
    obtain ⟨fields, a', b', hitem, hkeys, ⟨ha, rfl, hla⟩, ⟨hb, rfl, hlb⟩, rfl⟩ :=
      linkEnds_mapStrings_iff.mp hends
    rw [label_mapStrings hρ] at hlabel
    exact ⟨fields, a', b', hitem, hkeys, ha, hb, ⟨hla, hlb⟩, False.elim, ⟨hsource, htarget⟩, hlabel⟩
  · rintro ⟨fields, a, b, hitem, h⟩
    refine ⟨ρ a, ρ b, mapStrings ρ (get fields "label"), ?_, h.indices.1, h.indices.2, ?_⟩
    · exact linkEnds_mapStrings_iff.mpr ⟨fields, a, b, hitem, h.keys, ⟨h.source, rfl, h.known.1⟩,
        ⟨h.target, rfl, h.known.2⟩, rfl⟩
    · rw [label_mapStrings hρ]
      exact h.text

theorem transition_mapStrings_iff (hρ : Rewrites ρ) {link : Link} :
    transition d labels (mapStrings ρ item) = .ok link ↔
      ItemReads d ρ labels 16 false True item link := by
  rw [transition_eq_ok_iff]
  constructor
  · rintro ⟨a, b, text, hends, hne, hsource, htarget, hlabel⟩
    obtain ⟨fields, a', b', hitem, hkeys, ⟨ha, rfl, hla⟩, ⟨hb, rfl, hlb⟩, rfl⟩ :=
      linkEnds_mapStrings_iff.mp hends
    rw [label_mapStrings hρ] at hlabel
    exact ⟨fields, a', b', hitem, hkeys, ha, hb, ⟨hla, hlb⟩, fun _ => hne, ⟨hsource, htarget⟩, hlabel⟩
  · rintro ⟨fields, a, b, hitem, h⟩
    refine ⟨ρ a, ρ b, mapStrings ρ (get fields "label"), ?_, h.different trivial, h.indices.1,
      h.indices.2, ?_⟩
    · exact linkEnds_mapStrings_iff.mpr ⟨fields, a, b, hitem, h.keys, ⟨h.source, rfl, h.known.1⟩,
        ⟨h.target, rfl, h.known.2⟩, rfl⟩
    · rw [label_mapStrings hρ]
      exact h.text

theorem startIndex_mapStrings_iff {start : Option PyJson} {s : Nat} :
    startIndex labels (start.map (mapStrings ρ)) = .ok s ↔ StartReads ρ labels start s := by
  cases start with
  | none => simp [startIndex, StartReads, eq_comm]
  | some value =>
    rw [Option.map_some, startIndex, member_mapStrings_iff]
    simp [StartReads]

theorem statePath_mapStrings_iff {path : Option PyJson} {indices : List Nat} :
    statePath labels (path.map (mapStrings ρ)) = .ok indices ↔ PathReads ρ labels path indices := by
  cases path with
  | none => simp [statePath, PathReads, eq_comm]
  | some value =>
    rw [Option.map_some, statePath_some_eq_ok_iff]
    constructor
    · rintro ⟨items, hvalue, hlen, hforall⟩
      obtain ⟨old, rfl, rfl⟩ := PyJson.mapStrings_eq_array_iff.mp hvalue
      rw [List.length_map] at hlen
      rw [List.forall₂_map_left_iff] at hforall
      exact .inr ⟨old, rfl, hlen, hforall.imp fun item i => member_mapStrings_iff.mp⟩
    · rintro (⟨⟨⟩, -⟩ | ⟨items, hvalue, hlen, hforall⟩)
      obtain rfl := Option.some.inj hvalue
      refine ⟨items.map (mapStrings ρ), PyJson.mapStrings_eq_array_iff.mpr ⟨items, rfl, rfl⟩, ?_, ?_⟩
      · rw [List.length_map]
        exact hlen
      · rw [List.forall₂_map_left_iff]
        exact hforall.imp fun item i => member_mapStrings_iff.mpr

theorem graphTraversal_mapFields_iff (hρ : Rewrites ρ) {out : GraphTraversal} :
    graphTraversal d (mapFields ρ params) = .ok out ↔ GraphReads d ρ params out := by
  rw [graphTraversal_eq_ok_iff, extraKeys_mapFields, PyJson.get_mapFields,
    graphAlgorithm_mapStrings_iff hρ, PyJson.get_mapFields, names_mapStrings_iff hρ,
    PyJson.get_mapFields, listReads_mapStrings_iff fun item e => edge_mapStrings_iff,
    PyJson.lookup_mapFields]
  simp only [startIndex_mapStrings_iff]
  constructor
  · rintro ⟨hkeys, halgorithm, hnodes, hedges, horder⟩
    exact ⟨hkeys, halgorithm, hnodes, hedges, horder⟩
  · rintro ⟨hkeys, halgorithm, hnodes, hedges, horder⟩
    exact ⟨hkeys, halgorithm, hnodes, hedges, horder⟩

theorem messageFlow_mapFields_iff (hρ : Rewrites ρ) {out : MessageFlow} :
    messageFlow d (mapFields ρ params) = .ok out ↔ FlowReads d ρ params out := by
  rw [messageFlow_eq_ok_iff, extraKeys_mapFields, PyJson.get_mapFields, names_mapStrings_iff hρ,
    PyJson.get_mapFields, listReads_mapStrings_iff fun item link => message_mapStrings_iff hρ]
  constructor
  · rintro ⟨hkeys, hactors, hmessages⟩
    exact ⟨hkeys, hactors, hmessages⟩
  · rintro ⟨hkeys, hactors, hmessages⟩
    exact ⟨hkeys, hactors, hmessages⟩

theorem stateMachine_mapFields_iff (hρ : Rewrites ρ) {out : StateMachine} :
    stateMachine d (mapFields ρ params) = .ok out ↔ MachineReads d ρ params out := by
  rw [stateMachine_eq_ok_iff, extraKeys_mapFields, PyJson.get_mapFields, names_mapStrings_iff hρ,
    PyJson.get_mapFields, listReads_mapStrings_iff fun item link => transition_mapStrings_iff hρ,
    PyJson.lookup_mapFields, statePath_mapStrings_iff]
  constructor
  · rintro ⟨hkeys, hstates, htransitions, hpath⟩
    exact ⟨hkeys, hstates, htransitions, hpath⟩
  · rintro ⟨hkeys, hstates, htransitions, hpath⟩
    exact ⟨hkeys, hstates, htransitions, hpath⟩

/-! ## Which references are found -/

theorem exists_of_forall₂ {α β : Type} {R : α → β → Prop} {xs : List α} {ys : List β} {x : α}
    (h : List.Forall₂ R xs ys) (hx : x ∈ xs) : ∃ y, R x y := by
  induction h with
  | nil => cases hx
  | @cons x' y xs ys hy _ ih =>
    rcases List.mem_cons.mp hx with rfl | hx
    · exact ⟨y, hy⟩
    · exact ih hx

theorem forall₂_of_mem {α β : Type} {R S : α → β → Prop} {xs : List α} {ys : List β}
    (h : List.Forall₂ R xs ys) (hRS : ∀ x ∈ xs, ∀ y, R x y → S x y) : List.Forall₂ S xs ys := by
  induction h with
  | nil => exact .nil
  | @cons x y xs ys hy _ ih =>
    obtain ⟨hx, hxs⟩ := List.forall_mem_cons.mp hRS
    exact .cons (hx y hy) (ih hxs)

/-- A list that is read is read by any `S` that follows from `R` at its items. -/
theorem ListReads.imp {β : Type} {R S : PyJson → β → Prop} {lo hi : Nat} {out : List β}
    (h : ListReads R lo hi value out) (hRS : ∀ item ∈ itemsOf value, ∀ b, R item b → S item b) :
    ListReads S lo hi value out := by
  obtain ⟨items, rfl, hlen, hforall⟩ := h
  exact ⟨items, rfl, hlen, forall₂_of_mem hforall hRS⟩

theorem ListReads.exists_of_mem {β : Type} {R : PyJson → β → Prop} {lo hi : Nat} {out : List β}
    (h : ListReads R lo hi value out) (hitem : item ∈ itemsOf value) : ∃ b, R item b := by
  obtain ⟨items, rfl, -, hforall⟩ := h
  exact exists_of_forall₂ hforall hitem

theorem MemberReads.congr {i : Nat} (h : MemberReads ρ labels value i)
    (hσ : ∀ r ∈ texts value, ρ r = σ r) : MemberReads σ labels value i := by
  obtain ⟨name, rfl, hname, hi⟩ := h
  rw [hσ name List.mem_cons_self] at hname hi
  exact ⟨name, rfl, hname, hi⟩

theorem EdgeReads.congr {e : Nat × Nat} (h : EdgeReads ρ labels item e)
    (hσ : ∀ r ∈ (itemsOf item).flatMap texts, ρ r = σ r) : EdgeReads σ labels item e := by
  obtain ⟨a, b, rfl, hends, he⟩ := h
  rw [hσ a (by simp [itemsOf, texts]), hσ b (by simp [itemsOf, texts])] at hends he
  exact ⟨a, b, rfl, hends, he⟩

theorem ItemReads.congr {limit : Int} {clip : Bool} {distinct : Prop} {link : Link}
    (h : ItemReads d ρ labels limit clip distinct item link) (hσ : ∀ r ∈ ends item, ρ r = σ r) :
    ItemReads d σ labels limit clip distinct item link := by
  obtain ⟨fields, a, b, rfl, h⟩ := h
  have ha : ρ a = σ a := hσ a (by rw [ends, fieldsOf, h.source]; simp [texts])
  have hb : ρ b = σ b := hσ b (by rw [ends, fieldsOf, h.target]; simp [texts])
  refine ⟨fields, a, b, rfl, h.keys, h.source, h.target, ?_, ?_, ?_, h.text⟩
  · rw [← ha, ← hb]
    exact h.known
  · rw [← ha, ← hb]
    exact h.different
  · rw [← ha, ← hb]
    exact h.indices

theorem StartReads.congr {start : Option PyJson} {s : Nat} (h : StartReads ρ labels start s)
    (hσ : ∀ r ∈ texts (start.getD .null), ρ r = σ r) : StartReads σ labels start s := by
  rcases h with h | ⟨value, rfl, h⟩
  · exact .inl h
  · exact .inr ⟨value, rfl, h.congr hσ⟩

theorem PathReads.congr {path : Option PyJson} {indices : List Nat} (h : PathReads ρ labels path indices)
    (hσ : ∀ r ∈ (itemsOf (path.getD .null)).flatMap texts, ρ r = σ r) :
    PathReads σ labels path indices := by
  rcases h with h | ⟨items, rfl, hlen, hforall⟩
  · exact .inl h
  · refine .inr ⟨items, rfl, hlen, forall₂_of_mem hforall ?_⟩
    intro item hitem i hi
    exact hi.congr fun r hr => hσ r (List.mem_flatMap.mpr ⟨item, hitem, hr⟩)

/-! A reference that is looked up as it is written is one of the names. -/

theorem MemberReads.mem {i : Nat} (h : MemberReads id labels value i) : ∀ r ∈ texts value, r ∈ labels := by
  obtain ⟨name, rfl, hname, -⟩ := h
  intro r hr
  obtain rfl := List.mem_singleton.mp hr
  exact hname

theorem EdgeReads.mem {e : Nat × Nat} (h : EdgeReads id labels item e) :
    ∀ r ∈ (itemsOf item).flatMap texts, r ∈ labels := by
  obtain ⟨a, b, rfl, ⟨ha, hb, -⟩, -⟩ := h
  intro r hr
  have hr' : r = a ∨ r = b := by simpa [itemsOf, texts] using hr
  rcases hr' with rfl | rfl
  · exact ha
  · exact hb

theorem ItemReads.mem {limit : Int} {clip : Bool} {distinct : Prop} {link : Link}
    (h : ItemReads d id labels limit clip distinct item link) : ∀ r ∈ ends item, r ∈ labels := by
  obtain ⟨fields, a, b, rfl, h⟩ := h
  intro r hr
  rw [ends, fieldsOf, h.source, h.target] at hr
  have hr' : r = a ∨ r = b := by simpa [texts] using hr
  rcases hr' with rfl | rfl
  · exact h.known.1
  · exact h.known.2

theorem GraphReads.references_mem {out : GraphTraversal} (h : GraphReads d id params out) :
    ∀ r ∈ RefTemplate.graphTraversal.references params, r ∈ out.nodes := by
  intro r hr
  rcases List.mem_append.mp hr with hr | hr
  · obtain ⟨e, he, hr⟩ := List.mem_flatMap.mp hr
    obtain ⟨_, hreads⟩ := h.edges.exists_of_mem he
    exact hreads.mem r hr
  · obtain ⟨s, ⟨hnone, -⟩ | ⟨value, hvalue, hreads⟩, -⟩ := h.order
    · rw [PyJson.get, hnone] at hr
      cases hr
    · rw [PyJson.get, hvalue] at hr
      exact hreads.mem r hr

theorem FlowReads.references_mem {out : MessageFlow} (h : FlowReads d id params out) :
    ∀ r ∈ RefTemplate.messageFlow.references params, r ∈ out.actors := by
  intro r hr
  obtain ⟨item, hitem, hr⟩ := List.mem_flatMap.mp hr
  obtain ⟨_, hreads⟩ := h.messages.exists_of_mem hitem
  exact hreads.mem r hr

theorem MachineReads.references_mem {out : StateMachine} (h : MachineReads d id params out) :
    ∀ r ∈ RefTemplate.stateMachine.references params, r ∈ out.states := by
  intro r hr
  rcases List.mem_append.mp hr with hr | hr
  · obtain ⟨item, hitem, hr⟩ := List.mem_flatMap.mp hr
    obtain ⟨_, hreads⟩ := h.transitions.exists_of_mem hitem
    exact hreads.mem r hr
  · rcases h.path with ⟨hnone, -⟩ | ⟨items, hvalue, -, hforall⟩
    · rw [PyJson.get, hnone] at hr
      cases hr
    · rw [PyJson.get, hvalue] at hr
      obtain ⟨item, hitem, hr⟩ := List.mem_flatMap.mp hr
      obtain ⟨_, hreads⟩ := exists_of_forall₂ hforall hitem
      exact hreads.mem r hr

theorem GraphReads.congr {out : GraphTraversal} (h : GraphReads d ρ params out)
    (hσ : ∀ r ∈ RefTemplate.graphTraversal.references params, ρ r = σ r) :
    GraphReads d σ params out := by
  refine ⟨h.keys, h.algorithm, h.nodes, h.edges.imp ?_, ?_⟩
  · intro e he i hi
    exact hi.congr fun r hr =>
      hσ r (List.mem_append_left _ (List.mem_flatMap.mpr ⟨e, he, hr⟩))
  · obtain ⟨s, hs, horder⟩ := h.order
    exact ⟨s, hs.congr fun r hr => hσ r (List.mem_append_right _ hr), horder⟩

theorem FlowReads.congr {out : MessageFlow} (h : FlowReads d ρ params out)
    (hσ : ∀ r ∈ RefTemplate.messageFlow.references params, ρ r = σ r) : FlowReads d σ params out := by
  refine ⟨h.keys, h.actors, h.messages.imp ?_⟩
  intro item hitem link hlink
  exact hlink.congr fun r hr => hσ r (List.mem_flatMap.mpr ⟨item, hitem, hr⟩)

theorem MachineReads.congr {out : StateMachine} (h : MachineReads d ρ params out)
    (hσ : ∀ r ∈ RefTemplate.stateMachine.references params, ρ r = σ r) :
    MachineReads d σ params out := by
  refine ⟨h.keys, h.states, h.transitions.imp ?_, h.path.congr fun r hr =>
    hσ r (List.mem_append_right _ hr)⟩
  intro item hitem link hlink
  exact hlink.congr fun r hr =>
    hσ r (List.mem_append_left _ (List.mem_flatMap.mpr ⟨item, hitem, hr⟩))

/-- Two runs agree if and only if the second accepts nothing for which the first would look up a
typographic character. -/
theorem toOption_eq_iff {α : Type} {first second : Except SpecError α} {refs : List Text}
    (reads : (Text → Text) → α → Prop) (hfirst : ∀ out, first = .ok out ↔ reads id out)
    (hsecond : ∀ out, second = .ok out ↔ reads translate out)
    (hcongr : ∀ ρ σ out, (∀ r ∈ refs, ρ r = σ r) → reads ρ out → reads σ out)
    (hplain : ∀ out, reads id out → ∀ r ∈ refs, translate r = r) :
    second.toOption = first.toOption ↔
      ((∃ out, reads translate out) → ∀ r ∈ refs, translate r = r) := by
  constructor
  · rintro hsame ⟨out, hout⟩
    rw [(hsecond out).mpr hout] at hsame
    have hok : first = .ok out := eq_ok_of_toOption hsame.symm
    exact hplain out ((hfirst out).mp hok)
  · intro hrefs
    cases hone : first with
    | ok out =>
      have hreads := (hfirst out).mp hone
      have htwo : second = .ok out :=
        (hsecond out).mpr (hcongr id translate out (fun r hr => (hplain out hreads r hr).symm) hreads)
      rw [htwo]
    | error e =>
      cases htwo : second with
      | error e' => rfl
      | ok out =>
        have hreads := (hsecond out).mp htwo
        have hok := (hfirst out).mpr (hcongr translate id out (hrefs ⟨out, hreads⟩) hreads)
        rw [hone] at hok
        cases hok

end References

namespace RefTemplate

/-- The parameters are right but for the typography of their references. -/
def Admissible (d : ManimData) : RefTemplate → Params → Prop
  | .graphTraversal, params => ∃ out, GraphReads d translate params out
  | .messageFlow, params => ∃ out, FlowReads d translate params out
  | .stateMachine, params => ∃ out, MachineReads d translate params out

variable {d : ManimData} {T : RefTemplate} {params : Params}

theorem normalForm_of_labels {names : List Text} (h : T.labels d params = .ok names) :
    ∀ name ∈ names, normalForm name = name := by
  cases T <;> exact normalForm_of_names h

theorem translate_of_normalForm {text : Text} (h : normalForm text = text) : translate text = text := by
  rw [← h]
  exact translate_normalForm text

theorem sameData_iff :
    SameData d T params ↔ (Admissible d T params → ∀ r ∈ T.references params, translate r = r) := by
  cases T with
  | graphTraversal =>
    refine toOption_eq_iff (fun ρ out => GraphReads d ρ params out) (fun out => ?_)
      (fun out => graphTraversal_mapFields_iff rewrites_translate) (fun ρ σ out hσ h => h.congr hσ) ?_
    · rw [← graphTraversal_mapFields_iff rewrites_id, PyJson.mapFields_id]
    · intro out h r hr
      exact translate_of_normalForm (normalForm_of_labels h.nodes r (h.references_mem r hr))
  | messageFlow =>
    refine toOption_eq_iff (fun ρ out => FlowReads d ρ params out) (fun out => ?_)
      (fun out => messageFlow_mapFields_iff rewrites_translate) (fun ρ σ out hσ h => h.congr hσ) ?_
    · rw [← messageFlow_mapFields_iff rewrites_id, PyJson.mapFields_id]
    · intro out h r hr
      exact translate_of_normalForm (normalForm_of_labels h.actors r (h.references_mem r hr))
  | stateMachine =>
    refine toOption_eq_iff (fun ρ out => MachineReads d ρ params out) (fun out => ?_)
      (fun out => stateMachine_mapFields_iff rewrites_translate) (fun ρ σ out hσ h => h.congr hσ) ?_
    · rw [← stateMachine_mapFields_iff rewrites_id, PyJson.mapFields_id]
    · intro out h r hr
      exact translate_of_normalForm (normalForm_of_labels h.states r (h.references_mem r hr))

/-- The names of a list that is accepted are the normal forms of its items. -/
theorem normalForm_mem_of_names {value : PyJson} {hi : Nat} {kind listMessage uniqueMessage : String}
    {limit : Int} {labels : List Text} {text : Text}
    (h : names d value hi kind limit listMessage uniqueMessage = .ok labels)
    (htext : .string text ∈ itemsOf value) : normalForm text ∈ labels := by
  obtain ⟨items, rfl, -, hforall, -⟩ := names_eq_ok_iff.mp h
  obtain ⟨i, hi, hitem⟩ := List.mem_iff_getElem.mp htext
  have hi' : i < labels.length := hforall.length_eq ▸ hi
  obtain ⟨old, hold, hname⟩ := normalForm_of_label (hforall.get hi hi')
  have holdtext : PyJson.string text = .string old := hitem.symm.trans hold
  obtain rfl := PyJson.string.inj holdtext
  rw [← hname]
  exact List.getElem_mem hi'

theorem normalForm_mem_of_labels {names : List Text} {text : Text} (h : T.labels d params = .ok names)
    (htext : .string text ∈ itemsOf (T.declared params)) : normalForm text ∈ names := by
  cases T <;> exact normalForm_mem_of_names h htext

/-- A reference that is written like a declared name is found if and only if it is written in
normal form. -/
theorem recognised_iff : Recognised d T params ↔
    ∀ names, T.labels d params = .ok names → ∀ r ∈ T.references params,
      .string r ∈ itemsOf (T.declared params) → normalForm r = r := by
  constructor
  · intro h names hnames r hr hdeclared
    exact normalForm_of_labels hnames r (h names hnames r hr hdeclared)
  · intro h names hnames r hr hdeclared
    rw [← h names hnames r hr hdeclared]
    exact normalForm_mem_of_labels hnames hdeclared

/-- Exactly then does the typography of a specification not matter. -/
theorem consistent_iff (d : ManimData) (T : RefTemplate) (params : Params) :
    Consistent d T params ↔
      (Admissible d T params → ∀ r ∈ T.references params, translate r = r) ∧
      ∀ names, T.labels d params = .ok names → ∀ r ∈ T.references params,
        .string r ∈ itemsOf (T.declared params) → normalForm r = r := by
  rw [← sameData_iff, ← recognised_iff]
  exact ⟨fun h => ⟨h.sameData, h.recognised⟩, fun h => ⟨h.1, h.2⟩⟩

/-- Two nodes, the first of which is written with a dash wherever it stands. -/
def dashed : Params :=
  [("algorithm", .string ['b', 'f', 's']),
    ("nodes", .array [.string ['A', '\u2013', 'B'], .string ['C']]),
    ("edges", .array [.array [.string ['A', '\u2013', 'B'], .string ['C']]])]

/-- A reference with a dash is not found, though the node is written with the same dash. -/
theorem not_consistent_dashed : ¬ Consistent asciiManim .graphTraversal dashed := by
  intro h
  have hlabels : RefTemplate.graphTraversal.labels asciiManim dashed =
      .ok [['A', '-', 'B'], ['C']] := by decide
  have hmem := h.recognised _ hlabels ['A', '\u2013', 'B'] (by decide) List.mem_cons_self
  exact absurd hmem (by decide)

end RefTemplate

end ManimTemplates

end LlmService
