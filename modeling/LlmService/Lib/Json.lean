/-!
# JSON values

What `json.loads` returns. The fields of an object stand in the order of the
`dict`; a `float` is kept as `json.dumps` writes it.
-/

namespace LlmService

inductive PyJson where
  | null
  | bool (value : Bool)
  | int (value : Int)
  | float (literal : List Char)
  | string (value : List Char)
  | array (items : List PyJson)
  | object (fields : List (String × PyJson))

namespace PyJson

/-- `fields.get(key)`; without the key, `None` -/
def get (fields : List (String × PyJson)) (key : String) : PyJson :=
  (fields.lookup key).getD .null

/-! ## Parts of a value -/

section Everywhere

variable {p q r : PyJson → Prop}

mutual

/-- The value and all that is in it have `p`. -/
def Everywhere (p : PyJson → Prop) : PyJson → Prop
  | .array items => p (.array items) ∧ EverywhereItems p items
  | .object fields => p (.object fields) ∧ EverywhereFields p fields
  | value => p value

def EverywhereItems (p : PyJson → Prop) : List PyJson → Prop
  | [] => True
  | item :: items => Everywhere p item ∧ EverywhereItems p items

def EverywhereFields (p : PyJson → Prop) : List (String × PyJson) → Prop
  | [] => True
  | (_, value) :: fields => Everywhere p value ∧ EverywhereFields p fields

end

theorem everywhereItems_iff {items : List PyJson} :
    EverywhereItems p items ↔ ∀ item ∈ items, Everywhere p item := by
  induction items with
  | nil => simp [EverywhereItems]
  | cons item items ih => rw [EverywhereItems, ih, List.forall_mem_cons]

theorem everywhereFields_iff {fields : List (String × PyJson)} :
    EverywhereFields p fields ↔ ∀ field ∈ fields, Everywhere p field.2 := by
  induction fields with
  | nil => simp [EverywhereFields]
  | cons field fields ih =>
    obtain ⟨key, value⟩ := field
    rw [EverywhereFields, ih, List.forall_mem_cons]

mutual

/-- What follows of each part from two properties of it. -/
theorem Everywhere.combine (h : ∀ part, p part → q part → r part) :
    ∀ value, Everywhere p value → Everywhere q value → Everywhere r value
  | .null, hp, hq | .bool _, hp, hq | .int _, hp, hq | .float _, hp, hq | .string _, hp, hq => h _ hp hq
  | .array items, hp, hq => ⟨h _ hp.1 hq.1, EverywhereItems.combine h items hp.2 hq.2⟩
  | .object fields, hp, hq => ⟨h _ hp.1 hq.1, EverywhereFields.combine h fields hp.2 hq.2⟩

theorem EverywhereItems.combine (h : ∀ part, p part → q part → r part) :
    ∀ items, EverywhereItems p items → EverywhereItems q items → EverywhereItems r items
  | [], _, _ => trivial
  | item :: items, hp, hq =>
    ⟨Everywhere.combine h item hp.1 hq.1, EverywhereItems.combine h items hp.2 hq.2⟩

theorem EverywhereFields.combine (h : ∀ part, p part → q part → r part) :
    ∀ fields, EverywhereFields p fields → EverywhereFields q fields → EverywhereFields r fields
  | [], _, _ => trivial
  | (_, value) :: fields, hp, hq =>
    ⟨Everywhere.combine h value hp.1 hq.1, EverywhereFields.combine h fields hp.2 hq.2⟩

end

end Everywhere

/-! ## Strings replaced -/

mutual

/-- The value with `f` applied to each string in it. -/
def mapStrings (f : List Char → List Char) : PyJson → PyJson
  | .string value => .string (f value)
  | .array items => .array (mapItems f items)
  | .object fields => .object (mapFields f fields)
  | value => value

def mapItems (f : List Char → List Char) : List PyJson → List PyJson
  | [] => []
  | item :: items => mapStrings f item :: mapItems f items

def mapFields (f : List Char → List Char) : List (String × PyJson) → List (String × PyJson)
  | [] => []
  | (key, value) :: fields => (key, mapStrings f value) :: mapFields f fields

end

variable {f : List Char → List Char} {fields : List (String × PyJson)} {value : PyJson}

theorem mapItems_eq_map (items : List PyJson) : mapItems f items = items.map (mapStrings f) := by
  induction items with
  | nil => rfl
  | cons item items ih => rw [mapItems, ih, List.map_cons]

theorem map_fst_mapFields (fields : List (String × PyJson)) :
    (mapFields f fields).map Prod.fst = fields.map Prod.fst := by
  induction fields with
  | nil => rfl
  | cons field fields ih =>
    obtain ⟨key, value⟩ := field
    rw [mapFields, List.map_cons, List.map_cons, ih]

theorem lookup_mapFields (key : String) :
    (mapFields f fields).lookup key = (fields.lookup key).map (mapStrings f) := by
  induction fields with
  | nil => rfl
  | cons field fields ih =>
    obtain ⟨key', value⟩ := field
    rw [mapFields, List.lookup_cons, List.lookup_cons, ih]
    split <;> rfl

theorem get_mapFields (key : String) : get (mapFields f fields) key = mapStrings f (get fields key) := by
  rw [get, get, lookup_mapFields]
  cases fields.lookup key <;> rfl

mutual

theorem mapStrings_id : ∀ value, mapStrings id value = value
  | .null | .bool _ | .int _ | .float _ | .string _ => rfl
  | .array items => by rw [mapStrings, mapItems_id items]
  | .object fields => by rw [mapStrings, mapFields_id fields]

theorem mapItems_id : ∀ items, mapItems id items = items
  | [] => rfl
  | item :: items => by rw [mapItems, mapStrings_id item, mapItems_id items]

theorem mapFields_id : ∀ fields, mapFields id fields = fields
  | [] => rfl
  | (key, value) :: fields => by rw [mapFields, mapStrings_id value, mapFields_id fields]

end

theorem mapStrings_eq_string_iff {text : List Char} :
    mapStrings f value = .string text ↔ ∃ old, value = .string old ∧ f old = text := by
  cases value <;> simp [mapStrings]

theorem mapStrings_eq_array_iff {items : List PyJson} :
    mapStrings f value = .array items ↔ ∃ old, value = .array old ∧ old.map (mapStrings f) = items := by
  cases value <;> simp [mapStrings, mapItems_eq_map]

theorem mapStrings_eq_object_iff :
    mapStrings f value = .object fields ↔ ∃ old, value = .object old ∧ mapFields f old = fields := by
  cases value <;> simp [mapStrings]

end PyJson

end LlmService
