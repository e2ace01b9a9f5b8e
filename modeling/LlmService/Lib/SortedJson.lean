import LlmService.Lib.JsonText
import Mathlib.Algebra.GroupWithZero.Nat
import Mathlib.Data.List.Nodup
import Mathlib.Data.List.Sort

/-!
# JSON with sorted keys

`json.dumps(value, sort_keys=True)` writes `sortKeys value`: the same fields in
the order of their keys. Nothing that reads fields by their keys, and no length,
depends on that order.
-/

namespace LlmService

namespace PyJson

/-- `sort_keys` orders the fields of an object by their keys. -/
def keyLe (a b : String × PyJson) : Prop := a.1 ≤ b.1

instance : DecidableRel keyLe := fun a b => inferInstanceAs (Decidable (a.1 ≤ b.1))

instance : Std.Total keyLe := ⟨fun a b => String.le_total a.1 b.1⟩

instance : IsTrans (String × PyJson) keyLe := ⟨fun _ _ _ => String.le_trans⟩

mutual

/-- The value that is written for `value` with `sort_keys=True`. -/
def sortKeys : PyJson → PyJson
  | .array items => .array (sortKeysItems items)
  | .object fields => .object ((sortKeysFields fields).insertionSort keyLe)
  | value => value

def sortKeysItems : List PyJson → List PyJson
  | [] => []
  | item :: items => sortKeys item :: sortKeysItems items

def sortKeysFields : List (String × PyJson) → List (String × PyJson)
  | [] => []
  | (key, value) :: fields => (key, sortKeys value) :: sortKeysFields fields

end

def sortedFields (fields : List (String × PyJson)) : List (String × PyJson) :=
  (sortKeysFields fields).insertionSort keyLe

/-- No key stands twice in an object: it is a `dict`. -/
def KeysOnce : PyJson → Prop
  | .object fields => (fields.map Prod.fst).Nodup
  | _ => True

section Sorted

variable {fields other : List (String × PyJson)} {value : PyJson} {key : String} {p : PyJson → Prop}

theorem sortKeysItems_eq_map (items : List PyJson) : sortKeysItems items = items.map sortKeys := by
  induction items with
  | nil => rfl
  | cons item items ih => rw [sortKeysItems, ih, List.map_cons]

theorem sortKeysFields_eq_map (fields : List (String × PyJson)) :
    sortKeysFields fields = fields.map fun field => (field.1, sortKeys field.2) := by
  induction fields with
  | nil => rfl
  | cons field fields ih =>
    obtain ⟨key, value⟩ := field
    rw [sortKeysFields, ih, List.map_cons]

theorem sortedFields_perm (fields : List (String × PyJson)) :
    (sortedFields fields).Perm (fields.map fun field => (field.1, sortKeys field.2)) := by
  rw [sortedFields, sortKeysFields_eq_map]
  exact List.perm_insertionSort _ _

theorem keys_sortedFields_perm (fields : List (String × PyJson)) :
    ((sortedFields fields).map Prod.fst).Perm (fields.map Prod.fst) := by
  have hkeys : fields.map Prod.fst =
      (fields.map fun field => (field.1, sortKeys field.2)).map Prod.fst := by
    rw [List.map_map]
    rfl
  rw [hkeys]
  exact (sortedFields_perm fields).map _

theorem mem_iff_lookup (h : (fields.map Prod.fst).Nodup) :
    (key, value) ∈ fields ↔ fields.lookup key = some value := by
  induction fields with
  | nil => simp
  | cons field fields ih =>
    obtain ⟨first, old⟩ := field
    rw [List.map_cons, List.nodup_cons] at h
    rw [List.mem_cons, List.lookup_cons, ih h.2]
    by_cases hkey : key = first
    · subst hkey
      have hnone : fields.lookup key = none := by
        rw [List.lookup_eq_none_iff]
        intro field hfield
        have hne : key ≠ field.1 := fun heq =>
          h.1 (List.mem_map.mpr ⟨field, hfield, heq.symm⟩)
        simpa using hne
      simp [hnone, eq_comm]
    · have hbeq : (key == first) = false := by simpa using hkey
      simp [hbeq, hkey]

/-- Fields in another order are looked up the same. -/
theorem lookup_perm (h : (fields.map Prod.fst).Nodup) (hperm : other.Perm fields) (key : String) :
    other.lookup key = fields.lookup key := by
  have hother : (other.map Prod.fst).Nodup := (hperm.map Prod.fst).nodup_iff.mpr h
  apply Option.ext
  intro value
  rw [← mem_iff_lookup h, ← mem_iff_lookup hother, hperm.mem_iff]

theorem lookup_sortKeysFields (fields : List (String × PyJson)) (key : String) :
    (sortKeysFields fields).lookup key = (fields.lookup key).map sortKeys := by
  induction fields with
  | nil => rfl
  | cons field fields ih =>
    obtain ⟨first, value⟩ := field
    rw [sortKeysFields, List.lookup_cons, List.lookup_cons, ih]
    split <;> rfl

theorem lookup_sortedFields (h : (fields.map Prod.fst).Nodup) (key : String) :
    (sortedFields fields).lookup key = (fields.lookup key).map sortKeys := by
  have hkeys : ((sortKeysFields fields).map Prod.fst).Nodup := by
    rw [sortKeysFields_eq_map, List.map_map]
    exact h
  rw [← lookup_sortKeysFields]
  exact lookup_perm hkeys (List.perm_insertionSort _ _) key

theorem get_sortedFields (h : (fields.map Prod.fst).Nodup) (key : String) :
    get (sortedFields fields) key = sortKeys (get fields key) := by
  rw [get, get, lookup_sortedFields h]
  cases fields.lookup key <;> rfl

/-- A sum over the fields, key by key. -/
theorem sum_map_fields (f : String × PyJson → Nat) {keys : List String} (hkeys : keys.Nodup)
    (h : (fields.map Prod.fst).Nodup) (hall : ∀ field ∈ fields, field.1 ∈ keys) :
    (fields.map f).sum =
      (keys.map fun key => ((fields.lookup key).map fun value => f (key, value)).getD 0).sum := by
  have hperm : fields.Perm
      (keys.filterMap fun key => (fields.lookup key).map fun value => (key, value)) := by
    apply (List.perm_ext_iff_of_nodup (List.Nodup.of_map _ h) ?_).mpr
    · intro (key, value)
      rw [List.mem_filterMap]
      constructor
      · intro hfield
        exact ⟨key, hall _ hfield, by rw [(mem_iff_lookup h).mp hfield, Option.map_some]⟩
      · rintro ⟨key', -, hvalue⟩
        obtain ⟨value', hlookup, hpair⟩ := Option.map_eq_some_iff.mp hvalue
        obtain ⟨rfl, rfl⟩ := Prod.mk.inj hpair
        exact (mem_iff_lookup h).mpr hlookup
    · apply hkeys.filterMap
      intro key key' field hfield hfield'
      obtain ⟨value, -, rfl⟩ := Option.map_eq_some_iff.mp hfield
      obtain ⟨value', -, hpair⟩ := Option.map_eq_some_iff.mp hfield'
      exact (Prod.mk.inj hpair).1.symm
  rw [(hperm.map f).sum_nat]
  clear hperm hkeys hall
  induction keys with
  | nil => rfl
  | cons key keys ih =>
    rw [List.map_cons, List.sum_cons, ← ih, List.filterMap_cons]
    cases fields.lookup key with
    | none => simp
    | some value => simp

/-! ## Values with sorted keys -/

@[simp] theorem sortKeys_eq_string_iff {text : List Char} :
    sortKeys value = .string text ↔ value = .string text := by
  cases value <;> simp [sortKeys]

@[simp] theorem sortKeys_eq_int_iff {n : Int} : sortKeys value = .int n ↔ value = .int n := by
  cases value <;> simp [sortKeys]

mutual

theorem sortKeys_sortKeys : ∀ value, sortKeys (sortKeys value) = sortKeys value
  | .null | .bool _ | .int _ | .float _ | .string _ => rfl
  | .array items => by rw [sortKeys, sortKeys, sortKeysItems_sortKeysItems items]
  | .object fields => by
    have hsort : sortKeysFields ((sortKeysFields fields).insertionSort keyLe) =
        (sortKeysFields (sortKeysFields fields)).insertionSort keyLe := by
      rw [sortKeysFields_eq_map (List.insertionSort _ _), sortKeysFields_eq_map (sortKeysFields fields)]
      exact List.map_insertionSort keyLe keyLe _ _ fun _ _ _ _ => Iff.rfl
    rw [sortKeys, sortKeys, hsort, sortKeysFields_sortKeysFields fields,
      (List.pairwise_insertionSort keyLe (sortKeysFields fields)).insertionSort_eq]

theorem sortKeysItems_sortKeysItems : ∀ items, sortKeysItems (sortKeysItems items) = sortKeysItems items
  | [] => rfl
  | item :: items => by
    rw [sortKeysItems, sortKeysItems, sortKeys_sortKeys item, sortKeysItems_sortKeysItems items]

theorem sortKeysFields_sortKeysFields :
    ∀ fields, sortKeysFields (sortKeysFields fields) = sortKeysFields fields
  | [] => rfl
  | (key, value) :: fields => by
    rw [sortKeysFields, sortKeysFields, sortKeys_sortKeys value, sortKeysFields_sortKeysFields fields]

end

theorem sortedFields_sortedFields (fields : List (String × PyJson)) :
    sortedFields (sortedFields fields) = sortedFields fields :=
  PyJson.object.inj (sortKeys_sortKeys (.object fields))

mutual

/-- What holds of all parts of a value and does not depend on the order of fields, holds of all
parts with sorted keys. -/
theorem everywhere_sortKeys (harray : ∀ items, p (.array items) → p (.array (sortKeysItems items)))
    (hobject : ∀ fields, p (.object fields) → p (.object (sortedFields fields))) :
    ∀ value, Everywhere p value → Everywhere p (sortKeys value)
  | .null, h | .bool _, h | .int _, h | .float _, h | .string _, h => h
  | .array items, h => ⟨harray items h.1, everywhereItems_sortKeys harray hobject items h.2⟩
  | .object fields, h => by
    refine ⟨hobject fields h.1, ?_⟩
    have hall := everywhereFields_iff.mp (everywhereFields_sortKeys harray hobject fields h.2)
    rw [everywhereFields_iff]
    intro field hfield
    exact hall field ((List.perm_insertionSort _ _).mem_iff.mp hfield)

theorem everywhereItems_sortKeys
    (harray : ∀ items, p (.array items) → p (.array (sortKeysItems items)))
    (hobject : ∀ fields, p (.object fields) → p (.object (sortedFields fields))) :
    ∀ items, EverywhereItems p items → EverywhereItems p (sortKeysItems items)
  | [], _ => trivial
  | item :: items, h =>
    ⟨everywhere_sortKeys harray hobject item h.1, everywhereItems_sortKeys harray hobject items h.2⟩

theorem everywhereFields_sortKeys
    (harray : ∀ items, p (.array items) → p (.array (sortKeysItems items)))
    (hobject : ∀ fields, p (.object fields) → p (.object (sortedFields fields))) :
    ∀ fields, EverywhereFields p fields → EverywhereFields p (sortKeysFields fields)
  | [], _ => trivial
  | (_, value) :: fields, h =>
    ⟨everywhere_sortKeys harray hobject value h.1, everywhereFields_sortKeys harray hobject fields h.2⟩

end

theorem keysOnce_sortKeys (h : Everywhere KeysOnce value) : Everywhere KeysOnce (sortKeys value) := by
  apply everywhere_sortKeys _ _ value h
  · exact fun _ _ => trivial
  · intro fields hfields
    exact (keys_sortedFields_perm fields).nodup_iff.mpr hfields

end Sorted

end PyJson

namespace JsonText

open PyJson PyText

/-! ## Lengths -/

section Lengths

variable {blank : List Char} {value : PyJson} {fields : List (String × PyJson)}

theorem length_join_add (sep : List Char) {parts : List (List Char)} (h : parts ≠ []) :
    (join sep parts).length + sep.length = (parts.map fun part => part.length + sep.length).sum := by
  induction parts with
  | nil => exact absurd rfl h
  | cons part parts ih =>
    cases parts with
    | nil =>
      rw [join, List.intercalate_singleton]
      simp
    | cons next parts =>
      have hrest := ih (List.cons_ne_nil next parts)
      rw [join_cons _ _ (List.cons_ne_nil next parts), List.map_cons, List.sum_cons, ← hrest,
        List.length_append, List.length_append]
      omega

theorem length_join_congr (sep : List Char) {parts others : List (List Char)}
    (h : (parts.map List.length).Perm (others.map List.length)) :
    (join sep parts).length = (join sep others).length := by
  have hlen := h.length_eq
  rw [List.length_map, List.length_map] at hlen
  by_cases hparts : parts = []
  · subst hparts
    rw [List.length_nil] at hlen
    rw [List.length_eq_zero_iff.mp hlen.symm]
  · have hothers : others ≠ [] := by
      rintro rfl
      exact hparts (List.length_eq_zero_iff.mp hlen)
    have hsum := (h.map (· + sep.length)).sum_nat
    rw [List.map_map, List.map_map] at hsum
    have hleft := length_join_add sep hparts
    have hright := length_join_add sep hothers
    simp only [Function.comp_def] at hsum
    omega

/-- The length of a field that is written, with the separator in front of it or behind it. -/
def fieldSize (blank : List Char) (field : String × PyJson) : Nat :=
  (quote field.1.toList ++ ':' :: (blank ++ write blank field.2)).length + (blank.length + 1)

theorem writeFields_eq_map (fields : List (String × PyJson)) :
    writeFields blank fields =
      fields.map fun field => quote field.1.toList ++ ':' :: (blank ++ write blank field.2) := by
  induction fields with
  | nil => rfl
  | cons field fields ih =>
    obtain ⟨key, value⟩ := field
    rw [writeFields, ih, List.map_cons]

theorem length_write_object (blank : List Char) (h : fields ≠ []) :
    (write blank (.object fields)).length + (blank.length + 1) =
      (fields.map (fieldSize blank)).sum + 2 := by
  have hne : writeFields blank fields ≠ [] := by
    rw [writeFields_eq_map]
    simpa using h
  have hjoin := length_join_add (',' :: blank) hne
  rw [writeFields_eq_map, List.map_map, List.length_cons] at hjoin
  have hwrite : (write blank (.object fields)).length =
      (join (',' :: blank) (writeFields blank fields)).length + 2 := by simp [write]
  rw [hwrite, writeFields_eq_map]
  show _ = (fields.map fun field => fieldSize blank field).sum + 2
  simp only [fieldSize, Function.comp_def] at hjoin ⊢
  omega

mutual

/-- Sorted keys are as long. -/
theorem length_write_sortKeys : ∀ value, (write blank (sortKeys value)).length = (write blank value).length
  | .null | .bool _ | .int _ | .float _ | .string _ => rfl
  | .array items => by
    have hjoin := length_join_congr (',' :: blank)
      (List.Perm.of_eq (lengths_writeItems_sortKeys items))
    simp only [sortKeys, write, List.length_append, List.length_cons, hjoin]
  | .object fields => by
    have hperm : ((writeFields blank ((sortKeysFields fields).insertionSort keyLe)).map
        List.length).Perm ((writeFields blank fields).map List.length) := by
      rw [← lengths_writeFields_sortKeys fields, writeFields_eq_map, writeFields_eq_map]
      exact ((List.perm_insertionSort _ _).map _).map _
    have hjoin := length_join_congr (',' :: blank) hperm
    simp only [sortKeys, write, List.length_append, List.length_cons, hjoin]

theorem lengths_writeItems_sortKeys : ∀ items,
    (writeItems blank (sortKeysItems items)).map List.length = (writeItems blank items).map List.length
  | [] => rfl
  | item :: items => by
    rw [sortKeysItems, writeItems, writeItems, List.map_cons, List.map_cons,
      length_write_sortKeys item, lengths_writeItems_sortKeys items]

theorem lengths_writeFields_sortKeys : ∀ fields,
    (writeFields blank (sortKeysFields fields)).map List.length =
      (writeFields blank fields).map List.length
  | [] => rfl
  | (key, value) :: fields => by
    have hvalue : (write blank (sortKeys value)).length = (write blank value).length :=
      length_write_sortKeys value
    rw [sortKeysFields, writeFields, writeFields, List.map_cons, List.map_cons,
      lengths_writeFields_sortKeys fields]
    simp [hvalue]

end

end Lengths

/-! ## Reading again -/

section Again

variable {blank : List Char} {value : PyJson} {fields : List (String × PyJson)}

theorem plain_sortKeys (h : Everywhere Plain value) : Everywhere Plain (sortKeys value) := by
  apply everywhere_sortKeys _ _ value h
  · exact fun _ _ => trivial
  · intro fields hfields
    exact (keys_sortedFields_perm fields).nodup_iff.mpr hfields

/-- What is written with sorted keys is read with sorted keys. -/
theorem loads_write_sortKeys (floatText : List Char → List Char)
    (hblank : ∀ c ∈ blank, isBlank c = true) (h : Everywhere Plain value) :
    loads floatText (write blank (sortKeys value)) = some (sortKeys value) :=
  loads_write floatText hblank (plain_sortKeys h)

end Again

end JsonText

end LlmService
