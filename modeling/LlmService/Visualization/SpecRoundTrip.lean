import LlmService.Visualization.ManimTemplates
import LlmService.Visualization.SortedParams

/-!
# Validating a specification again

A specification that `validate_spec` accepts is written as `canonical_json` and
validated again, by the job that `create_job` makes of it and after a repair.
The canonical form always has a title. Where the specification has none, it may
become too large by the default one.
-/

namespace LlmService

namespace ManimTemplates

open JsonText (write loads quote escapeChar fieldSize)
open PyJson (Everywhere KeysOnce get sortKeys sortedFields)

/-! ## Titles -/

section Titles

variable {d : ManimData} {text : Text} {c : Char}

/-- A typographic character is written longer than what stands for it. -/
theorem length_escape_plain (c : Char) :
    ((if (typography.lookup c).getD c = '…' then ['.', '.', '.']
      else [(typography.lookup c).getD c]).flatMap escapeChar).length ≤ (escapeChar c).length := by
  cases hlookup : typography.lookup c with
  | some e =>
    have htable : (typography.all fun p =>
        p.2 != '…' && decide ((escapeChar p.2).length ≤ (escapeChar p.1).length)) = true := by decide
    have he := forall_lookup htable hlookup
    simp only [Bool.and_eq_true, bne_iff_ne, decide_eq_true_eq] at he
    rw [Option.getD_some, if_neg he.1, List.flatMap_singleton]
    exact he.2
  | none =>
    rw [Option.getD_none]
    by_cases hdots : c = '…'
    · subst hdots
      decide
    · rw [if_neg hdots, List.flatMap_singleton]

theorem length_escape_plainForm (text : Text) :
    ((plainForm text).flatMap escapeChar).length ≤ (text.flatMap escapeChar).length := by
  rw [plainForm, translate]
  induction text with
  | nil => exact Nat.le_refl 0
  | cons c text ih =>
    have hc := length_escape_plain c
    rw [List.map_cons, List.flatMap_cons, List.flatMap_append, List.length_append, List.flatMap_cons,
      List.length_append]
    omega

/-- A text is not written longer in its normal form. -/
theorem length_quote_normalForm (text : Text) :
    (quote (normalForm text)).length ≤ (quote text).length := by
  have hstrip : (normalForm text).Sublist (plainForm text) :=
    ((PyText.dropEndWhile_isPrefix _ _).sublist).trans (List.dropWhile_suffix _).sublist
  have hlen := (hstrip.flatMap escapeChar).length_le
  have hplain := length_escape_plainForm text
  simp only [quote, List.length_append, List.length_cons]
  omega

theorem normalForm_of_ascii (h : (text.all fun c => c.toNat < 128) = true) :
    normalForm text = PyText.strip text := by
  rw [normalForm, plainForm_eq_self]
  intro c hc
  have hascii : c.toNat < 128 := by simpa using List.all_eq_true.mp h c hc
  have htable : (typography.all fun p => 128 ≤ p.1.toNat) = true := by decide
  constructor
  · by_contra hlookup
    obtain ⟨e, he⟩ := Option.ne_none_iff_exists'.mp hlookup
    have hkey : 128 ≤ c.toNat := by simpa using forall_lookup htable he
    omega
  · rintro rfl
    exact absurd hascii (by decide)

theorem label_title_again {title : PyJson} {out : Text}
    (h : label d.word title "title" maxTitle false = .ok out) :
    label d.word (.string out) "title" maxTitle false = .ok out := by
  obtain ⟨text, rfl, hout⟩ := normalForm_of_label h
  obtain ⟨-, hne, hlen, hother⟩ := label_string_eq_ok_iff.mp h
  refine label_string_eq_ok_iff.mpr ⟨?_, hne, hlen, hother⟩
  show out = normalForm out
  rw [hout, normalForm_normalForm]

end Titles

/-! ## Templates -/

section Templates

variable {d : ManimData} {t : Template} {name : String}

/-- What every template has. -/
structure Template.Good (d : ManimData) (t : Template) : Prop where
  byKeys : BuildsByKeys t.build
  /-- it builds something, and nothing without parameters -/
  needsParams : ∀ built, t.build [] ≠ .ok built
  nonempty : ∀ params built, t.build params = .ok built → built.isEmpty = false
  found : findTemplate d t.name = some t
  scene : (scenes.lookup t.name).isSome = true
  /-- the default title is in normal form, and not cut off -/
  description : normalForm (t.description.toList.take maxTitle.toNat) = t.description.toList

theorem Template.Good.of {α : Type} {name description : String} {build : Params → Except SpecError α}
    {data : α → Params} (hkeys : BuildsByKeys build) (herror : ∃ error, build [] = .error error)
    (hdata : ∀ a, (data a).isEmpty = false)
    (hfound : findTemplate d name = some ⟨name, description, fun params => (build params).map data⟩)
    (hscene : (scenes.lookup name).isSome = true)
    (hascii : ((description.toList.take maxTitle.toNat).all fun c => c.toNat < 128) = true)
    (hstrip : PyText.strip (description.toList.take maxTitle.toNat) = description.toList) :
    Good d ⟨name, description, fun params => (build params).map data⟩ where
  byKeys := by
    intro params out hparams hout
    obtain ⟨built, hbuild, rfl⟩ := except_map_eq_ok.mp hout
    obtain ⟨hsorted, hexact⟩ := hkeys params built hparams hbuild
    exact ⟨except_map_eq_ok.mpr ⟨built, hsorted, rfl⟩, hexact⟩
  needsParams := by
    intro out hout
    obtain ⟨built, hbuild, -⟩ := except_map_eq_ok.mp hout
    obtain ⟨error, herror⟩ := herror
    rw [herror] at hbuild
    cases hbuild
  nonempty := by
    intro params out hout
    obtain ⟨built, -, rfl⟩ := except_map_eq_ok.mp hout
    exact hdata built
  found := hfound
  scene := hscene
  description := (normalForm_of_ascii hascii).trans hstrip

theorem good_of_mem (h : t ∈ templates d) : t.Good d := by
  simp only [templates, List.mem_cons, List.not_mem_nil, or_false] at h
  rcases h with rfl | rfl | rfl | rfl | rfl | rfl | rfl
  · exact .of binarySearch_buildsByKeys ⟨_, rfl⟩ (fun _ => rfl) rfl rfl rfl rfl
  · exact .of sorting_buildsByKeys ⟨_, rfl⟩ (fun _ => rfl) rfl rfl rfl rfl
  · exact .of recursionStack_buildsByKeys ⟨_, rfl⟩ (fun _ => rfl) rfl rfl rfl rfl
  · exact .of graphTraversal_buildsByKeys ⟨_, rfl⟩ (fun _ => rfl) rfl rfl rfl rfl
  · exact .of messageFlow_buildsByKeys ⟨_, rfl⟩ (fun _ => rfl) rfl rfl rfl rfl
  · exact .of stateMachine_buildsByKeys ⟨_, rfl⟩ (fun _ => rfl) rfl rfl rfl rfl
  · exact .of textSteps_buildsByKeys ⟨_, rfl⟩ (fun _ => rfl) rfl rfl rfl rfl

end Templates

/-! ## What is accepted -/

/-- The specification `fields` names the template `t`, gives it `params`, and becomes `v`. -/
structure Accepted (d : ManimData) (fields : Params) (maxChars : Int) (t : Template) (params : Params)
    (v : ValidatedSpec) : Prop where
  size : (write [' '] (.object fields)).length ≤ maxChars
  keys : extraKeys fields specFields = []
  version : versionOk (fields.lookup "schema_version") = true
  named : namedTemplate d (get fields "template") = some t
  title : specTitle d t (fields.lookup "title") = .ok v.title
  given : fields.lookup "params" = some (.object params)
  built : ∃ data, t.build params = .ok data
  normal : v.params = sortedFields params
  template : v.template = t.name

section Validation

variable {d : ManimData} {floatText : Text → Text} {fields params : Params} {maxChars : Int}
  {t : Template} {title : Text} {v : ValidatedSpec}

theorem isBlank_space : ∀ c ∈ [' '], JsonText.isBlank c = true := List.all_eq_true.mp rfl

theorem namedTemplate_good {name : PyJson} (h : namedTemplate d name = some t) : t.Good d := by
  cases name with
  | string name =>
    rw [namedTemplate, findTemplate] at h
    exact good_of_mem (List.mem_of_find?_eq_some h)
  | _ => cases h

theorem namedTemplate_eq_some_iff {name : PyJson} :
    namedTemplate d name = some t ↔ name = str t.name ∧ t.Good d := by
  constructor
  · intro h
    refine ⟨?_, namedTemplate_good h⟩
    cases name with
    | string name =>
      have hname : t.name = String.ofList name := by simpa using List.find?_some h
      rw [hname, str, String.toList_ofList]
    | _ => cases h
  · rintro ⟨rfl, hgood⟩
    show findTemplate d (String.ofList t.name.toList) = some t
    rw [String.ofList_toList]
    exact hgood.found

theorem checkSpec_eq_ok_iff :
    checkSpec d fields maxChars = .ok (t, title) ↔
      (write [' '] (.object fields)).length ≤ maxChars ∧ extraKeys fields specFields = [] ∧
        versionOk (fields.lookup "schema_version") = true ∧
        namedTemplate d (get fields "template") = some t ∧
        specTitle d t (fields.lookup "title") = .ok title := by
  simp only [checkSpec, except_bind_eq_ok, require_eq_ok_iff, exists_const]
  refine and_congr_right fun _ => and_congr_right fun _ => and_congr_right fun _ => ?_
  cases hname : namedTemplate d (get fields "template") with
  | none => simp
  | some named =>
    simp only [except_bind_eq_ok, Option.some.injEq]
    constructor
    · rintro ⟨shown, hshown, hpure⟩
      obtain ⟨rfl, rfl⟩ := Prod.mk.inj (Except.ok.inj hpure)
      exact ⟨rfl, hshown⟩
    · rintro ⟨rfl, hshown⟩
      exact ⟨title, hshown, rfl⟩

/-- The parameters are written and read again with sorted keys. -/
theorem normalised_eq_ok_iff (hgood : t.Good d) {value : PyJson} (hkeys : Everywhere KeysOnce value) :
    normalised floatText t value = .ok params ↔
      ∃ fields, value = .object fields ∧ (∃ data, t.build fields = .ok data) ∧
        params = sortedFields fields := by
  cases value with
  | object fields =>
    have hwritten : ∀ data, t.build fields = .ok data → data.isEmpty = false ∧
        loads floatText (write [' '] (sortKeys (.object fields))) = some (.object (sortedFields fields)) := by
      intro data hbuild
      have hplain := plain_of_exact hkeys (hgood.byKeys fields data hkeys hbuild).2
      exact ⟨hgood.nonempty fields data hbuild,
        JsonText.loads_write_sortKeys floatText isBlank_space hplain⟩
    simp only [normalised, except_bind_eq_ok, except_mapError_eq_ok, PyJson.object.injEq,
      exists_eq_left']
    constructor
    · rintro ⟨data, hbuild, h⟩
      obtain ⟨hnonempty, hloads⟩ := hwritten data hbuild
      rw [hnonempty, if_neg Bool.false_ne_true, hloads] at h
      exact ⟨⟨data, hbuild⟩, (Except.ok.inj h).symm⟩
    · rintro ⟨⟨data, hbuild⟩, rfl⟩
      obtain ⟨hnonempty, hloads⟩ := hwritten data hbuild
      refine ⟨data, hbuild, ?_⟩
      rw [hnonempty, if_neg Bool.false_ne_true, hloads]
      rfl
  | _ => simp [normalised]

theorem validateSpec_eq_ok_iff (hkeys : Everywhere KeysOnce (.object fields)) :
    validateSpec d floatText (.object fields) maxChars = .ok v ↔
      ∃ t params, Accepted d fields maxChars t params v := by
  have hvalue : Everywhere KeysOnce ((fields.lookup "params").getD (.object [])) := by
    cases hlookup : fields.lookup "params" with
    | none => exact ⟨List.nodup_nil, trivial⟩
    | some value => exact everywhere_lookup hkeys.2 hlookup
  simp only [validateSpec, except_bind_eq_ok, except_mapError_eq_ok]
  constructor
  · rintro ⟨⟨t, title⟩, hcheck, params, hparams, hpure⟩
    obtain ⟨hsize, hextra, hversion, hnamed, htitle⟩ := checkSpec_eq_ok_iff.mp hcheck
    have hgood := namedTemplate_good hnamed
    obtain ⟨given, hgiven, ⟨data, hdata⟩, rfl⟩ := (normalised_eq_ok_iff hgood hvalue).mp hparams
    obtain rfl := Except.ok.inj hpure
    refine ⟨t, given, hsize, hextra, hversion, hnamed, htitle, ?_, ⟨data, hdata⟩, rfl, rfl⟩
    cases hlookup : fields.lookup "params" with
    | none =>
      rw [hlookup, Option.getD_none] at hgiven
      obtain rfl := PyJson.object.inj hgiven
      exact absurd hdata (hgood.needsParams data)
    | some value =>
      rw [hlookup, Option.getD_some] at hgiven
      rw [hgiven]
  · rintro ⟨t, params, h⟩
    refine ⟨(t, v.title), checkSpec_eq_ok_iff.mpr ⟨h.size, h.keys, h.version, h.named, h.title⟩,
      v.params, ?_, ?_⟩
    · rw [normalised_eq_ok_iff (namedTemplate_good h.named) hvalue]
      exact ⟨params, by rw [h.given]; rfl, h.built, h.normal⟩
    · rw [← h.template]
      rfl

end Validation

/-! ## Sizes -/

section Sizes

variable {d : ManimData} {fields params : Params} {maxChars : Int} {t : Template} {v : ValidatedSpec}

theorem versionOk_some_iff {value : PyJson} : versionOk (some value) = true ↔ value = str specVersion := by
  cases value with
  | string version => simp [versionOk, str]
  | _ => simp [versionOk, str]

theorem Accepted.lookup_template (h : Accepted d fields maxChars t params v) :
    fields.lookup "template" = some (str t.name) := by
  have hname := (namedTemplate_eq_some_iff.mp h.named).1
  rw [PyJson.get] at hname
  cases hlookup : fields.lookup "template" with
  | none =>
    rw [hlookup] at hname
    cases hname
  | some value =>
    rw [hlookup, Option.getD_some] at hname
    rw [hname]

/-- How long an accepted specification is. -/
theorem Accepted.length_eq (h : Accepted d fields maxChars t params v)
    (hkeys : (fields.map Prod.fst).Nodup) :
    (write [' '] (.object fields)).length =
      (if (fields.lookup "schema_version").isSome then
        fieldSize [' '] ("schema_version", str specVersion) else 0) +
      fieldSize [' '] ("template", str t.name) +
      ((fields.lookup "title").map fun title => fieldSize [' '] ("title", title)).getD 0 +
      fieldSize [' '] ("params", .object params) := by
  have hne : fields ≠ [] := by
    rintro rfl
    cases h.given
  have hwrite := JsonText.length_write_object [' '] hne
  have hsum := PyJson.sum_map_fields (fieldSize [' ']) (by decide : specFields.Nodup) hkeys
    (extraKeys_eq_nil_iff.mp h.keys)
  have hversion : ((fields.lookup "schema_version").map fun value =>
      fieldSize [' '] ("schema_version", value)).getD 0 =
      if (fields.lookup "schema_version").isSome then
        fieldSize [' '] ("schema_version", str specVersion) else 0 := by
    cases hlookup : fields.lookup "schema_version" with
    | none => rfl
    | some value =>
      have hok := h.version
      rw [hlookup] at hok
      rw [versionOk_some_iff.mp hok]
      rfl
  simp only [specFields, List.map_cons, List.map_nil, List.sum_cons, List.sum_nil, hversion,
    h.lookup_template, h.given, Option.map_some, Option.getD_some] at hsum
  rw [List.length_singleton] at hwrite
  omega

theorem length_document (v : ValidatedSpec) :
    (write [' '] v.document).length =
      fieldSize [' '] ("template", str v.template) + fieldSize [' '] ("title", .string v.title) +
        fieldSize [' '] ("params", .object v.params) := by
  have hwrite := JsonText.length_write_object [' '] (List.cons_ne_nil _ _ : v.fields ≠ [])
  simp only [List.map_cons, List.map_nil, List.sum_cons, List.sum_nil,
    List.length_singleton] at hwrite
  show (write [' '] (.object v.fields)).length = _
  rw [ValidatedSpec.fields]
  omega

end Sizes

/-! ## The canonical form -/

section Again

variable {d : ManimData} {floatText : Text → Text} {fields params : Params} {maxChars : Int}
  {t : Template} {v : ValidatedSpec}

theorem sortKeys_document (v : ValidatedSpec) : sortKeys v.document = .object (sortedFields v.fields) := rfl

theorem Accepted.good (h : Accepted d fields maxChars t params v) : t.Good d :=
  namedTemplate_good h.named

theorem Accepted.keysOnce_params (h : Accepted d fields maxChars t params v)
    (hkeys : Everywhere KeysOnce (.object fields)) : Everywhere KeysOnce (.object params) :=
  everywhere_lookup hkeys.2 h.given

theorem Accepted.keysOnce_document (h : Accepted d fields maxChars t params v)
    (hkeys : Everywhere KeysOnce (.object fields)) : Everywhere KeysOnce v.document := by
  have hnodup : (v.fields.map Prod.fst).Nodup := by
    show ["template", "title", "params"].Nodup
    decide
  have hparams : Everywhere KeysOnce (.object v.params) := by
    rw [h.normal]
    exact PyJson.keysOnce_sortKeys (h.keysOnce_params hkeys)
  exact ⟨hnodup, trivial, trivial, hparams, trivial⟩

/-- The parameters are built the same with sorted keys. -/
theorem Accepted.built_again (h : Accepted d fields maxChars t params v)
    (hkeys : Everywhere KeysOnce (.object fields)) :
    (∃ data, t.build v.params = .ok data) ∧ Everywhere Exact (.object v.params) := by
  obtain ⟨data, hdata⟩ := h.built
  have hparams := h.keysOnce_params hkeys
  have hsorted := (h.good.byKeys params data hparams hdata).1
  rw [h.normal]
  exact ⟨⟨data, hsorted⟩,
    (h.good.byKeys _ data (PyJson.keysOnce_sortKeys hparams) hsorted).2⟩

theorem Accepted.loads_canonicalJson (h : Accepted d fields maxChars t params v)
    (hkeys : Everywhere KeysOnce (.object fields)) :
    loads floatText v.canonicalJson = some (sortKeys v.document) := by
  have hexact : Everywhere Exact v.document :=
    ⟨trivial, trivial, trivial, (h.built_again hkeys).2, trivial⟩
  exact JsonText.loads_write_sortKeys floatText (fun _ hc => absurd hc List.not_mem_nil)
    (plain_of_exact (h.keysOnce_document hkeys) hexact)

/-- The canonical form is accepted as the specification was, if it is not too large. -/
theorem Accepted.again (h : Accepted d fields maxChars t params v)
    (hkeys : Everywhere KeysOnce (.object fields))
    (hsize : (write [' '] v.document).length ≤ maxChars) :
    Accepted d (sortedFields v.fields) maxChars t (sortedFields v.params) v := by
  have hlookup := PyJson.lookup_sortedFields (h.keysOnce_document hkeys).1
  have hget := PyJson.get_sortedFields (h.keysOnce_document hkeys).1
  have hnormal : sortedFields v.params = v.params := by
    rw [h.normal, PyJson.sortedFields_sortedFields]
  constructor
  case size =>
    rw [← sortKeys_document, JsonText.length_write_sortKeys]
    exact hsize
  case keys => exact extraKeys_sortedFields rfl
  case version =>
    rw [hlookup]
    rfl
  case named =>
    have hname : get (sortedFields v.fields) "template" = str v.template := hget "template"
    rw [hname, h.template]
    exact namedTemplate_eq_some_iff.mpr ⟨rfl, h.good⟩
  case title =>
    rw [hlookup]
    exact label_title_again h.title
  case given =>
    rw [hlookup]
    rfl
  case built =>
    rw [hnormal]
    exact (h.built_again hkeys).1
  case normal => rw [hnormal, hnormal]
  case template => exact h.template

/-- The canonical form is accepted as the specification was, exactly if it is not too large. -/
theorem Accepted.validateSpec_document_iff (h : Accepted d fields maxChars t params v)
    (hkeys : Everywhere KeysOnce (.object fields)) :
    validateSpec d floatText (sortKeys v.document) maxChars = .ok v ↔
      (write [' '] v.document).length ≤ maxChars := by
  have hdocument := PyJson.keysOnce_sortKeys (h.keysOnce_document hkeys)
  rw [sortKeys_document] at hdocument ⊢
  rw [validateSpec_eq_ok_iff hdocument]
  constructor
  · rintro ⟨t', params', h'⟩
    have hsize := h'.size
    rwa [← sortKeys_document, JsonText.length_write_sortKeys] at hsize
  · intro hsize
    exact ⟨t, sortedFields v.params, h.again hkeys hsize⟩

/-- The scene of an accepted specification is built. -/
theorem Accepted.buildSceneSource_eq_ok (h : Accepted d fields maxChars t params v)
    (hkeys : Everywhere KeysOnce (.object fields)) : ∃ source, buildSceneSource d v = .ok source := by
  obtain ⟨data, hdata⟩ := (h.built_again hkeys).1
  obtain ⟨lines, hlines⟩ := Option.isSome_iff_exists.mp h.good.scene
  simp only [buildSceneSource, h.template, h.good.found, hdata, hlines]
  exact ⟨_, rfl⟩

end Again

/-! ## Specifications that stay valid -/

section StaysValid

variable {d : ManimData} {floatText : Text → Text} {fields params : Params} {maxChars : Int}
  {t : Template} {v : ValidatedSpec}

/-- What comes of a specification that became `v`: its canonical form is validated again, its scene is
built, and it is valid for the first attempt of its job, and as a repair. -/
structure StaysValid (d : ManimData) (floatText : Text → Text) (fields : Params) (maxChars : Int)
    (v : ValidatedSpec) : Prop where
  again : ∃ spec, loads floatText v.canonicalJson = some spec ∧
    validateSpec d floatText spec maxChars = .ok v
  scene : ∃ source, buildSceneSource d v = .ok source
  firstAttempt : ∃ spec, jobSpec floatText v = some spec ∧
    attemptValidation d floatText (jsonDump spec) maxChars = .ok
  repaired : ∀ mermaid candidate maxMermaid, loads floatText candidate = some (.object fields) →
    let outcome := validateCandidate d floatText mermaid "manim" candidate maxMermaid maxChars
    outcome.ok = true ∧ attemptValidation d floatText outcome.content maxChars = .ok

/-- There is a title, or room for the one that the template has, where a `schema_version` is left
out again. -/
def RoomForTitle (d : ManimData) (fields : Params) (maxChars : Int) : Prop :=
  (fields.lookup "title").isSome = true ∨
    ∀ t, namedTemplate d (get fields "template") = some t →
      ((write [' '] (.object fields)).length + fieldSize [' '] ("title", str t.description) : Int) ≤
        maxChars + (if (fields.lookup "schema_version").isSome then
          fieldSize [' '] ("schema_version", str specVersion) else 0 : Nat)

theorem fieldSize_sortedFields (key : String) (fields : Params) :
    fieldSize [' '] (key, .object (sortedFields fields)) = fieldSize [' '] (key, .object fields) := by
  have hlen : (write [' '] (.object (sortedFields fields))).length = (write [' '] (.object fields)).length :=
    JsonText.length_write_sortKeys (.object fields)
  simp only [fieldSize, List.length_append, List.length_cons, hlen]

/-- The title takes no more room than the given one, and is the default one where there is none. -/
theorem Accepted.title_size (h : Accepted d fields maxChars t params v) :
    (∃ title, fields.lookup "title" = some title ∧
      fieldSize [' '] ("title", .string v.title) ≤ fieldSize [' '] ("title", title)) ∨
    (fields.lookup "title" = none ∧ v.title = t.description.toList) := by
  have htitle := h.title
  cases hlookup : fields.lookup "title" with
  | some title =>
    rw [hlookup] at htitle
    obtain ⟨text, rfl, hnormal⟩ := normalForm_of_label htitle
    have hlen := length_quote_normalForm text
    rw [← hnormal] at hlen
    refine .inl ⟨_, rfl, ?_⟩
    simp only [fieldSize, write, List.length_append, List.length_cons]
    omega
  | none =>
    rw [hlookup] at htitle
    obtain ⟨text, htext, hnormal⟩ := normalForm_of_label htitle
    obtain rfl := PyJson.string.inj htext
    exact .inr ⟨rfl, hnormal.trans h.good.description⟩

/-- The canonical form is within the limit exactly if there is room for the title. -/
theorem Accepted.length_document_le_iff (h : Accepted d fields maxChars t params v)
    (hkeys : Everywhere KeysOnce (.object fields)) :
    (write [' '] v.document).length ≤ maxChars ↔ RoomForTitle d fields maxChars := by
  have hlen := h.length_eq hkeys.1
  have hdocument := length_document v
  have hsize := h.size
  rw [h.normal, fieldSize_sortedFields, h.template] at hdocument
  rcases h.title_size with ⟨title, hlookup, htitle⟩ | ⟨hlookup, htitle⟩
  · simp only [RoomForTitle, hlookup, Option.isSome_some, true_or, iff_true]
    simp only [hlookup, Option.map_some, Option.getD_some] at hlen
    omega
  · simp only [RoomForTitle, hlookup, Option.isSome_none, Bool.false_eq_true, false_or, h.named,
      Option.some.injEq, forall_eq']
    simp only [hlookup, Option.map_none, Option.getD_none] at hlen
    rw [htitle] at hdocument
    show _ ↔ _ + (fieldSize [' '] ("title", .string t.description.toList) : Int) ≤ _
    omega

theorem attemptValidation_of_validateSpec {specJson : Text} {spec : PyJson}
    (hspec : loads floatText specJson = some spec)
    (h : validateSpec d floatText spec maxChars = .ok v) :
    attemptValidation d floatText specJson maxChars = .ok := by
  simp only [attemptValidation, hspec, h]

theorem validateCandidate_manim {mermaid : Mermaid.MermaidData} {candidate : Text} {maxMermaid : Int}
    {spec : PyJson} (hspec : loads floatText candidate = some spec)
    (h : validateSpec d floatText spec maxChars = .ok v) :
    validateCandidate d floatText mermaid "manim" candidate maxMermaid maxChars =
      { ok := true, kind := "manim", content := v.canonicalJson } := by
  have hkind : ("manim" : String) ≠ "mermaid" := by decide
  simp only [validateCandidate, if_neg hkind, hspec, h]

/-- A specification stays valid exactly if there is room for its title. -/
theorem staysValid_iff (d : ManimData) (floatText : Text → Text) (fields : Params) (maxChars : Int)
    (v : ValidatedSpec) (hkeys : Everywhere KeysOnce (.object fields))
    (hv : validateSpec d floatText (.object fields) maxChars = .ok v) :
    StaysValid d floatText fields maxChars v ↔ RoomForTitle d fields maxChars := by
  obtain ⟨t, params, h⟩ := (validateSpec_eq_ok_iff hkeys).mp hv
  have hloads : loads floatText v.canonicalJson = some (sortKeys v.document) :=
    h.loads_canonicalJson hkeys
  have hagain_iff : validateSpec d floatText (sortKeys v.document) maxChars = .ok v ↔
      (write [' '] v.document).length ≤ maxChars := h.validateSpec_document_iff hkeys
  rw [← h.length_document_le_iff hkeys, ← hagain_iff]
  constructor
  · intro hstays
    obtain ⟨spec, hspec, hagain⟩ := hstays.again
    rw [hloads] at hspec
    obtain rfl := Option.some.inj hspec
    exact hagain
  · intro hagain
    have hattempt := attemptValidation_of_validateSpec hloads hagain
    constructor
    case again => exact ⟨_, hloads, hagain⟩
    case scene => exact h.buildSceneSource_eq_ok hkeys
    case firstAttempt =>
      refine ⟨_, hloads, ?_⟩
      rw [jsonDump, PyJson.sortKeys_sortKeys]
      exact hattempt
    case repaired =>
      intro mermaid candidate maxMermaid hcandidate
      rw [validateCandidate_manim hcandidate hv]
      exact ⟨rfl, hattempt⟩

/-- Two lines without a title. -/
def untitled : Params :=
  [("template", str "text_steps"), ("params", .object [("steps", .array [str "a", str "b"])])]

/-- What becomes of `untitled`. -/
def untitledSpec : ValidatedSpec where
  template := "text_steps"
  title := "A short derivation or explanation shown line by line".toList
  params := [("steps", .array [str "a", str "b"])]

theorem keysOnce_untitled : Everywhere KeysOnce (.object untitled) := by
  refine ⟨?_, trivial, ⟨?_, ⟨trivial, trivial, trivial, trivial⟩, trivial⟩, trivial⟩
  · show ["template", "params"].Nodup
    decide
  · exact List.nodup_singleton "steps"

theorem accepted_untitled (h : 59 ≤ maxChars) :
    ∃ t params, Accepted asciiManim untitled maxChars t params untitledSpec := by
  have hsize : (write [' '] (.object untitled)).length = 59 := by decide
  exact ⟨_, _, by omega, rfl, rfl, rfl, rfl, rfl, ⟨_, rfl⟩, rfl, rfl⟩

theorem staysValid_untitled : StaysValid asciiManim id untitled 4000 untitledSpec := by
  have hv : validateSpec asciiManim id (.object untitled) 4000 = .ok untitledSpec :=
    (validateSpec_eq_ok_iff keysOnce_untitled).mpr (accepted_untitled (by omega))
  apply (staysValid_iff asciiManim id untitled 4000 untitledSpec keysOnce_untitled hv).mpr
  refine .inr fun t ht => ?_
  obtain rfl := Option.some.inj ht
  decide

/-- Where the limit is the size of `untitled`, it is accepted, and not with the title. -/
theorem not_staysValid_untitled :
    ¬ ∀ d floatText fields maxChars v, Everywhere KeysOnce (.object fields) →
      validateSpec d floatText (.object fields) maxChars = .ok v →
        StaysValid d floatText fields maxChars v := by
  intro hall
  have haccepted := accepted_untitled (Int.le_refl 59)
  have hv : validateSpec asciiManim id (.object untitled) 59 = .ok untitledSpec :=
    (validateSpec_eq_ok_iff keysOnce_untitled).mpr haccepted
  obtain ⟨spec, hspec, hagain⟩ := (hall _ _ _ _ _ keysOnce_untitled hv).again
  obtain ⟨t, params, h⟩ := haccepted
  rw [h.loads_canonicalJson keysOnce_untitled] at hspec
  obtain rfl := Option.some.inj hspec
  have hsize := (h.validateSpec_document_iff keysOnce_untitled).mp hagain
  rcases (h.length_document_le_iff keysOnce_untitled).mp hsize with htitle | hroom
  · cases htitle
  · have hlen := hroom _ rfl
    revert hlen
    decide

end StaysValid

end ManimTemplates

end LlmService
