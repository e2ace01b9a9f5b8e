import LlmService.Lib.SortedJson

/-!
# Keys of a document

An object that `json.loads` returns has each of its keys once: where a document
repeats one, the last value is kept, in the place of the first.
-/

namespace LlmService

namespace JsonText

open PyJson (Everywhere EverywhereItems EverywhereFields KeysOnce everywhereFields_iff)

variable {floatText : List Char → List Char}

/-! ## Dictionaries -/

theorem keys_setItem (fields : List (String × PyJson)) (field : String × PyJson) :
    (setItem fields field).map Prod.fst =
      if field.1 ∈ fields.map Prod.fst then fields.map Prod.fst
      else fields.map Prod.fst ++ [field.1] := by
  rw [setItem]
  by_cases hold : field.1 ∈ fields.map Prod.fst
  · rw [if_pos hold, if_pos hold, List.map_map]
    apply List.map_congr_left
    intro old _
    show (if old.1 = field.1 then field else old).1 = old.1
    by_cases hkey : old.1 = field.1
    · rw [if_pos hkey, hkey]
    · rw [if_neg hkey]
  · rw [if_neg hold, if_neg hold, List.map_append]
    rfl

theorem nodup_keys_setItem {fields : List (String × PyJson)} (h : (fields.map Prod.fst).Nodup)
    (field : String × PyJson) : ((setItem fields field).map Prod.fst).Nodup := by
  rw [keys_setItem]
  by_cases hold : field.1 ∈ fields.map Prod.fst
  · rw [if_pos hold]
    exact h
  · rw [if_neg hold]
    exact List.nodup_append.mpr ⟨h, List.nodup_singleton _,
      fun key hkey new hnew heq => hold (List.mem_singleton.mp hnew ▸ heq ▸ hkey)⟩

theorem mem_setItem {fields : List (String × PyJson)} {field other : String × PyJson}
    (h : other ∈ setItem fields field) : other ∈ fields ∨ other = field := by
  rw [setItem] at h
  by_cases hold : field.1 ∈ fields.map Prod.fst
  · rw [if_pos hold] at h
    obtain ⟨old, hmem, rfl⟩ := List.mem_map.mp h
    by_cases hkey : old.1 = field.1
    · rw [if_pos hkey]
      exact .inr rfl
    · rw [if_neg hkey]
      exact .inl hmem
  · rw [if_neg hold] at h
    rcases List.mem_append.mp h with hmem | hmem
    · exact .inl hmem
    · exact .inr (List.mem_singleton.mp hmem)

/-- The fields of a dictionary are some of its pairs, and no key is there twice. -/
theorem dictOf_spec (pairs : List (String × PyJson)) :
    ((dictOf pairs).map Prod.fst).Nodup ∧ ∀ field ∈ dictOf pairs, field ∈ pairs := by
  have hfold : ∀ done, (done.map Prod.fst).Nodup →
      ((pairs.foldl setItem done).map Prod.fst).Nodup ∧
        ∀ field ∈ pairs.foldl setItem done, field ∈ done ∨ field ∈ pairs := by
    induction pairs with
    | nil => exact fun done h => ⟨h, fun field hfield => .inl hfield⟩
    | cons pair pairs ih =>
      intro done h
      obtain ⟨hnodup, hmem⟩ := ih (setItem done pair) (nodup_keys_setItem h pair)
      refine ⟨hnodup, fun field hfield => ?_⟩
      rcases hmem field hfield with hdone | hlater
      · rcases mem_setItem hdone with hold | rfl
        · exact .inl hold
        · exact .inr List.mem_cons_self
      · exact .inr (List.mem_cons_of_mem pair hlater)
  obtain ⟨hnodup, hmem⟩ := hfold [] List.nodup_nil
  exact ⟨hnodup, fun field hfield => (hmem field hfield).resolve_left List.not_mem_nil⟩

theorem everywhere_dictOf {pairs : List (String × PyJson)}
    (h : ∀ pair ∈ pairs, Everywhere KeysOnce pair.2) :
    Everywhere KeysOnce (.object (dictOf pairs)) := by
  obtain ⟨hnodup, hmem⟩ := dictOf_spec pairs
  exact ⟨hnodup, everywhereFields_iff.mpr fun field hfield => h field (hmem field hfield)⟩

/-! ## Documents -/

theorem keysOnce_scalar {text rest : List Char} {v : PyJson}
    (h : scalar floatText text = some (v, rest)) : Everywhere KeysOnce v := by
  have hnumber : ∀ v rest, number floatText text = some (v, rest) → Everywhere KeysOnce v := by
    intro v rest h
    -- a number is an `int` or a `float`, whatever its digits are
    simp only [number] at h
    split_ifs at h <;> obtain ⟨rfl, -⟩ := Prod.mk.inj (Option.some.inj h) <;> trivial
  rw [scalar] at h
  cases hread : number floatText text with
  | some read =>
    rw [hread] at h
    obtain rfl := Option.some.inj h
    exact hnumber v rest hread
  | none =>
    rw [hread] at h
    obtain ⟨constant, hconstant, heq⟩ := Option.map_eq_some_iff.mp h
    obtain ⟨rfl, -⟩ := Prod.mk.inj heq
    have hall : ∀ constant ∈ constants, Everywhere KeysOnce constant.2 := by
      intro constant hmem
      simp only [constants, List.mem_cons, List.not_mem_nil, or_false] at hmem
      rcases hmem with rfl | rfl | rfl | rfl | rfl | rfl <;> trivial
    exact hall constant (List.mem_of_find?_eq_some hconstant)

/-- By the depth to which a document is read. -/
theorem keysOnce_read (fuel : Nat) :
    (∀ text v rest, value floatText fuel text = some (v, rest) → Everywhere KeysOnce v) ∧
    (∀ text list rest, items floatText fuel text = some (list, rest) → EverywhereItems KeysOnce list) ∧
    (∀ text pairs rest, fields floatText fuel text = some (pairs, rest) →
      ∀ pair ∈ pairs, Everywhere KeysOnce pair.2) := by
  induction fuel with
  | zero =>
    refine ⟨?_, ?_, ?_⟩
    · intro text v rest h
      cases h
    · intro text list rest h
      cases h
    · intro text pairs rest h
      cases h
  | succ fuel ih =>
    obtain ⟨hvalue, hitems, hfields⟩ := ih
    refine ⟨?_, ?_, ?_⟩
    · intro text v rest h
      rw [value] at h
      split at h
      · obtain ⟨read, -, heq⟩ := Option.map_eq_some_iff.mp h
        obtain ⟨rfl, -⟩ := Prod.mk.inj heq
        trivial
      · split at h
        · simp only at h
          split at h
          · cases h
            exact ⟨trivial, trivial⟩
          · obtain ⟨read, hread, heq⟩ := Option.map_eq_some_iff.mp h
            obtain ⟨rfl, -⟩ := Prod.mk.inj heq
            exact ⟨trivial, hitems _ _ _ hread⟩
        · split at h
          · simp only at h
            split at h
            · cases h
              exact ⟨List.nodup_nil, trivial⟩
            · obtain ⟨read, hread, heq⟩ := Option.map_eq_some_iff.mp h
              obtain ⟨rfl, -⟩ := Prod.mk.inj heq
              exact everywhere_dictOf (hfields _ _ _ hread)
          · exact keysOnce_scalar h
    · intro text list rest h
      rw [items] at h
      obtain ⟨⟨item, after⟩, hitem, h⟩ := Option.bind_eq_some_iff.mp h
      have hfirst := hvalue _ _ _ hitem
      simp only at h
      split at h
      · cases h
        exact ⟨hfirst, trivial⟩
      · obtain ⟨next, -, h⟩ := Option.bind_eq_some_iff.mp h
        obtain ⟨⟨more, last⟩, hmore, h⟩ := Option.bind_eq_some_iff.mp h
        cases h
        exact ⟨hfirst, hitems _ _ _ hmore⟩
    · intro text pairs rest h
      rw [fields] at h
      obtain ⟨open', -, h⟩ := Option.bind_eq_some_iff.mp h
      obtain ⟨⟨key, after⟩, -, h⟩ := Option.bind_eq_some_iff.mp h
      obtain ⟨colon, -, h⟩ := Option.bind_eq_some_iff.mp h
      obtain ⟨⟨v, behind⟩, hv, h⟩ := Option.bind_eq_some_iff.mp h
      have hfirst := hvalue _ _ _ hv
      simp only at h
      split at h
      · cases h
        exact List.forall_mem_singleton.mpr hfirst
      · obtain ⟨next, -, h⟩ := Option.bind_eq_some_iff.mp h
        obtain ⟨⟨more, last⟩, hmore, h⟩ := Option.bind_eq_some_iff.mp h
        cases h
        exact List.forall_mem_cons.mpr ⟨hfirst, hfields _ _ _ hmore⟩

/-- What is read from a document has no key twice. -/
theorem keysOnce_loads {text : List Char} {v : PyJson} (h : loads floatText text = some v) :
    Everywhere KeysOnce v := by
  rw [loads] at h
  obtain ⟨⟨read, rest⟩, hread, h⟩ := Option.bind_eq_some_iff.mp h
  have hkeys := (keysOnce_read _).1 _ _ _ hread
  by_cases hend : skipBlank rest = []
  · simp only [hend, if_true, Option.some.injEq] at h
    exact h ▸ hkeys
  · simp only [hend, if_false] at h
    cases h

end JsonText

end LlmService
