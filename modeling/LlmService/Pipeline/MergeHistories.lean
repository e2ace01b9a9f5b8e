import Mathlib.Data.List.Nodup
import LlmService.ContextWindow.Models
import LlmService.Lib.PyText

/-!
# Two windows of one conversation

`merge_histories` of `pipeline/request_pipeline.py`: memory's window of a
conversation, which may lack the newest turns, and the history that came with
the request, which ends with them.
-/

namespace LlmService

namespace MergeHistories

/-- `sig`: the role and the text, with its white space normalised. -/
def sig (m : Message) : Text × Text :=
  (m.role.value, PyText.join [' '] (PyText.words m.content))

/-- `event_ids`; an empty id is none. -/
def eventIds (eventMessages : List Message) : List String :=
  (eventMessages.filterMap (·.messageId)).filter (· ≠ "")

/-- A message of memory that the request's history has too, by its id or by
its role and text. -/
def known (eventMessages : List Message) (m : Message) : Bool :=
  (m.messageId.any fun id => id ≠ "" && (eventIds eventMessages).contains id)
    || (eventMessages.map sig).contains (sig m)

/-- `merge_histories`. -/
def mergeHistories (memoryMessages eventMessages : List Message) : List Message :=
  if eventMessages.isEmpty then memoryMessages
  else if memoryMessages.isEmpty then eventMessages
  else
    match memoryMessages.findIdx? (known eventMessages) with
    | some index => memoryMessages.take index ++ eventMessages
    | none => memoryMessages

/-! ## Windows -/

/-- A message of the conversation, as memory and as the request have it. -/
structure Turn where
  memory : Message
  event : Message
  deriving DecidableEq

/-- Both have the id. -/
def SameId (m e : Message) : Prop :=
  ∃ id, id ≠ "" ∧ m.messageId = some id ∧ e.messageId = some id

/-- The messages with a number from `a` up to `b`, as memory has them. -/
def memoryWindow (turns : List Turn) (a b : Nat) : List Message :=
  ((turns.take b).drop a).map (·.memory)

/-- The messages from `c` to the newest, as the request has them. -/
def eventWindow (turns : List Turn) (c : Nat) : List Message := (turns.drop c).map (·.event)

/-- The windows share a message; the shared ones are recognised by their ids or
by role and text, and no two messages of the conversation have one id. -/
structure Windows (turns : List Turn) (a b c : Nat) : Prop where
  shared : max a c < b
  bounded : b ≤ turns.length
  recognised : ∀ (i : Nat) t, turns[i]? = some t → max a c ≤ i → i < b →
    SameId t.memory t.event ∨ sig t.memory = sig t.event
  distinct : ∀ (i j : Nat) t u, turns[i]? = some t → turns[j]? = some u → i ≠ j →
    ¬ SameId t.memory u.event

/-- A copy of the message, by either source. -/
def IsCopy (m : Message) (t : Turn) : Prop := m = t.memory ∨ m = t.event

/-- Every message of either window once, in the order of the conversation. -/
def IsUnion (turns : List Turn) (a c : Nat) (merged : List Message) : Prop :=
  List.Forall₂ IsCopy merged (turns.drop (min a c))

theorem known_iff {eventMessages : List Message} {m : Message} :
    known eventMessages m = true ↔
      ∃ e ∈ eventMessages, SameId m e ∨ sig m = sig e := by
  simp only [known, eventIds, Bool.or_eq_true, Option.any_eq_true, Bool.and_eq_true,
    decide_eq_true_eq, List.contains_iff_mem, List.mem_filter, List.mem_filterMap, List.mem_map]
  constructor
  · intro h
    rcases h with ⟨id, hm, hid, ⟨e, he, hsame⟩, -⟩ | ⟨e, he, hsig⟩
    · exact ⟨e, he, .inl ⟨id, hid, hm, hsame⟩⟩
    · exact ⟨e, he, .inr hsig.symm⟩
  · intro h
    obtain ⟨e, he, ⟨id, hid, hm, hsame⟩ | hsig⟩ := h
    · exact .inl ⟨id, hm, hid, ⟨e, he, hsame⟩, hid⟩
    · exact .inr ⟨e, he, hsig.symm⟩

section Merge

variable {turns : List Turn} {a b c : Nat}

theorem getElem?_memoryWindow {k : Nat} (hk : a + k < b) :
    (memoryWindow turns a b)[k]? = turns[a + k]?.map (·.memory) := by
  rw [memoryWindow, List.getElem?_map, List.getElem?_drop, List.getElem?_take_of_lt hk]

theorem mem_eventWindow {e : Message} :
    e ∈ eventWindow turns c ↔ ∃ (j : Nat) (u : Turn), c ≤ j ∧ turns[j]? = some u ∧ e = u.event := by
  rw [eventWindow, List.mem_map]
  constructor
  · intro h
    obtain ⟨u, hu, rfl⟩ := h
    obtain ⟨k, hk⟩ := List.mem_iff_getElem?.mp hu
    rw [List.getElem?_drop] at hk
    exact ⟨c + k, u, by omega, hk, rfl⟩
  · intro h
    obtain ⟨j, u, hj, hu, rfl⟩ := h
    refine ⟨u, List.mem_iff_getElem?.mpr ⟨j - c, ?_⟩, rfl⟩
    rw [List.getElem?_drop, Nat.add_sub_cancel' hj]
    exact hu

/-- A merge that cuts memory's window at its first message known to both. -/
theorem mergeHistories_eq (h : Windows turns a b c) {k : Nat}
    (hfirst : (memoryWindow turns a b).findIdx? (known (eventWindow turns c)) = some k) :
    mergeHistories (memoryWindow turns a b) (eventWindow turns c) =
      (memoryWindow turns a b).take k ++ eventWindow turns c := by
  have hshared := h.shared
  have hbounded := h.bounded
  have hevent : eventWindow turns c ≠ [] := by
    rw [eventWindow, ne_eq, List.map_eq_nil_iff, List.drop_eq_nil_iff]
    omega
  have hmemory : memoryWindow turns a b ≠ [] := by
    rw [memoryWindow, ne_eq, List.map_eq_nil_iff, List.drop_eq_nil_iff, List.length_take]
    omega
  rw [mergeHistories, if_neg (by simpa using hevent), if_neg (by simpa using hmemory), hfirst]

/-- The first message that the windows share is known. -/
theorem known_shared (h : Windows turns a b c) :
    ∃ m, (memoryWindow turns a b)[max a c - a]? = some m ∧
      known (eventWindow turns c) m = true := by
  have hshared := h.shared
  have hbounded := h.bounded
  have hturn : turns[max a c]? = some turns[max a c] := List.getElem?_eq_getElem (by omega)
  refine ⟨turns[max a c].memory, ?_, known_iff.mpr ⟨turns[max a c].event, ?_, ?_⟩⟩
  · rw [getElem?_memoryWindow (by omega), Nat.add_sub_cancel' (Nat.le_max_left a c), hturn]
    rfl
  · exact mem_eventWindow.mpr ⟨max a c, _, Nat.le_max_right a c, hturn, rfl⟩
  · exact h.recognised _ _ hturn (Nat.le_refl _) hshared

/-- A message of memory is known, if it is not shared, by role and text alone. -/
theorem known_older (h : Windows turns a b c) {i : Nat} {t : Turn} (hi : i < c)
    (ht : turns[i]? = some t) :
    known (eventWindow turns c) t.memory = true ↔
      ∃ (j : Nat) (u : Turn), c ≤ j ∧ turns[j]? = some u ∧ sig t.memory = sig u.event := by
  rw [known_iff]
  constructor
  · intro hknown
    obtain ⟨e, he, hsame⟩ := hknown
    obtain ⟨j, u, hj, hu, rfl⟩ := mem_eventWindow.mp he
    rcases hsame with hid | hsig
    · exact absurd hid (h.distinct i j t u ht hu (by omega))
    · exact ⟨j, u, hj, hu, hsig⟩
  · intro hknown
    obtain ⟨j, u, hj, hu, hsig⟩ := hknown
    exact ⟨u.event, mem_eventWindow.mpr ⟨j, u, hj, hu, rfl⟩, .inr hsig⟩

/-- What is taken of memory's window up to the request's, and then the request's. -/
theorem isUnion_of_take (h : Windows turns a b c) :
    IsUnion turns a c ((memoryWindow turns a b).take (max a c - a) ++ eventWindow turns c) := by
  have hshared := h.shared
  have hsplit : turns.drop (min a c) = (turns.drop a).take (max a c - a) ++ turns.drop c := by
    by_cases hac : a ≤ c
    · rw [Nat.min_eq_left hac, Nat.max_eq_right hac]
      have hdrop : turns.drop c = (turns.drop a).drop (c - a) := by
        rw [List.drop_drop, Nat.add_sub_cancel' hac]
      rw [hdrop, List.take_append_drop]
    · rw [Nat.min_eq_right (by omega), Nat.max_eq_left (by omega), Nat.sub_self, List.take_zero,
        List.nil_append]
  have hwindow : (memoryWindow turns a b).take (max a c - a) =
      ((turns.drop a).take (max a c - a)).map (·.memory) := by
    rw [memoryWindow, List.drop_take, ← List.map_take, List.take_take,
      Nat.min_eq_left (by omega)]
  rw [IsUnion, hsplit, hwindow, eventWindow]
  apply List.rel_append
  · rw [List.forall₂_map_left_iff]
    exact List.forall₂_same.mpr fun t _ => .inl rfl
  · rw [List.forall₂_map_left_iff]
    exact List.forall₂_same.mpr fun t _ => .inr rfl

end Merge

/-- The merge is the union of the windows exactly if no message that is older
than the request's history repeats the role and the text of a message in it. -/
theorem isUnion_merge_iff {turns : List Turn} {a b c : Nat} (h : Windows turns a b c) :
    IsUnion turns a c (mergeHistories (memoryWindow turns a b) (eventWindow turns c)) ↔
      ∀ (i j : Nat) t u, a ≤ i → i < c → c ≤ j → turns[i]? = some t → turns[j]? = some u →
        sig t.memory ≠ sig u.event := by
  have hshared := h.shared
  have hbounded := h.bounded
  obtain ⟨m, hm, hknown⟩ := known_shared h
  -- the cut is at the first shared message, or before it
  have hfirst : ∃ k, (memoryWindow turns a b).findIdx? (known (eventWindow turns c)) = some k :=
    ⟨_, List.findIdx?_eq_some_of_exists ⟨m, List.mem_of_getElem? hm, hknown⟩⟩
  obtain ⟨k, hk⟩ := hfirst
  rw [mergeHistories_eq h hk]
  obtain ⟨hklength, hkknown, hkfirst⟩ := List.findIdx?_eq_some_iff_getElem.mp hk
  have hcut : k ≤ max a c - a := by
    by_contra hlater
    obtain ⟨hlength, hget⟩ := List.getElem?_eq_some_iff.mp hm
    exact hkfirst _ (Nat.not_le.mp hlater) (by rw [hget]; exact hknown)
  have hlength : (memoryWindow turns a b).length = b - a := by
    rw [memoryWindow, List.length_map, List.length_drop, List.length_take,
      Nat.min_eq_left hbounded]
  constructor
  · intro hunion i j t u hai hic hcj ht hu hsig
    have hsize := hunion.length_eq
    rw [List.length_append, List.length_take, hlength, eventWindow, List.length_map,
      List.length_drop, List.length_drop] at hsize
    have hget : (memoryWindow turns a b)[i - a]? = some t.memory := by
      rw [getElem?_memoryWindow (by omega), Nat.add_sub_cancel' hai, ht]
      rfl
    obtain ⟨hi, hget⟩ := List.getElem?_eq_some_iff.mp hget
    apply hkfirst (i - a) (by omega)
    rw [hget]
    exact (known_older h hic ht).mpr ⟨j, u, hcj, hu, hsig⟩
  · intro hnone
    have hkeq : k = max a c - a := by
      by_contra hearlier
      have hturn : turns[a + k]? = some turns[a + k] := List.getElem?_eq_getElem (by omega)
      have hget : (memoryWindow turns a b)[k]? = turns[a + k]?.map (·.memory) :=
        getElem?_memoryWindow (by omega)
      rw [hturn, List.getElem?_eq_getElem hklength, Option.map_some, Option.some.injEq] at hget
      rw [hget] at hkknown
      obtain ⟨j, u, hj, hu, hsig⟩ := (known_older h (by omega) hturn).mp hkknown
      exact hnone (a + k) j _ u (by omega) (by omega) hj hturn hu hsig
    rw [hkeq]
    exact isUnion_of_take h

/-! ## A text that recurs -/

/-- A message that both sources have, under the same id. -/
def told (role : Role) (content : String) (id : String) : Turn where
  memory := { role, content := content.toList, messageId := some id }
  event := { role, content := content.toList, messageId := some id }

/-- The user confirms twice. -/
def confirmedTwice : List Turn :=
  [told .user "Yes" "m0", told .assistant "Which file?" "m1", told .user "The second" "m2",
    told .assistant "Delete it?" "m3", told .user "yes" "m4", told .user "Yes" "m5"]

theorem windows_of_told {turns : List Turn} {a b c : Nat} (hshared : max a c < b)
    (hbounded : b ≤ turns.length) (hsame : ∀ t ∈ turns, t.memory = t.event)
    (hids : (turns.map (·.memory.messageId)).Nodup) : Windows turns a b c where
  shared := hshared
  bounded := hbounded
  recognised := by
    intro i t ht _ _
    rw [hsame t (List.mem_of_getElem? ht)]
    exact .inr rfl
  distinct := by
    intro i j t u ht hu hij hid
    obtain ⟨id, -, hti, hui⟩ := hid
    rw [← hsame u (List.mem_of_getElem? hu)] at hui
    apply hij
    have hi : (turns.map (·.memory.messageId))[i]? = some (some id) := by
      rw [List.getElem?_map, ht, ← hti]
      rfl
    have hj : (turns.map (·.memory.messageId))[j]? = some (some id) := by
      rw [List.getElem?_map, hu, ← hui]
      rfl
    obtain ⟨hilt, hi⟩ := List.getElem?_eq_some_iff.mp hi
    obtain ⟨hjlt, hj⟩ := List.getElem?_eq_some_iff.mp hj
    exact (List.Nodup.getElem_inj_iff hids).mp (hi.trans hj.symm)

theorem windows_confirmedTwice (n : Nat) (hn : n ≤ 6) (hfour : 4 ≤ n) :
    Windows (confirmedTwice.take n) 0 4 2 := by
  have hlength : (confirmedTwice.take n).length = n := by
    rw [List.length_take]
    exact Nat.min_eq_left hn
  apply windows_of_told (by decide) (by omega)
  · intro t ht
    have hall : ∀ t ∈ confirmedTwice, t.memory = t.event := by decide
    exact hall t (List.mem_of_mem_take ht)
  · rw [List.map_take]
    have hall : (confirmedTwice.map (·.memory.messageId)).Nodup := by decide
    exact hall.sublist (List.take_sublist _ _)

/-- As long as the second confirmation has not come. -/
theorem isUnion_before_second :
    IsUnion (confirmedTwice.take 5) 0 2
      (mergeHistories (memoryWindow (confirmedTwice.take 5) 0 4)
        (eventWindow (confirmedTwice.take 5) 2)) := by
  apply (isUnion_merge_iff (windows_confirmedTwice 5 (by omega) (by omega))).mpr
  intro i j t u _ hi hj ht hu
  have hdistinct : ∀ t ∈ confirmedTwice.take 2, ∀ u ∈ (confirmedTwice.take 5).drop 2,
      sig t.memory ≠ sig u.event := by decide
  apply hdistinct
  · apply List.mem_of_getElem? (i := i)
    rw [← ht, List.getElem?_take_of_lt hi, List.getElem?_take_of_lt (by omega)]
  · apply List.mem_of_getElem? (i := j - 2)
    rw [List.getElem?_drop, Nat.add_sub_cancel' hj, hu]

/-- The second confirmation hides the first turn, although all ids are known. -/
theorem not_isUnion_confirmedTwice :
    Windows confirmedTwice 0 4 2 ∧ ¬ IsUnion confirmedTwice 0 2
      (mergeHistories (memoryWindow confirmedTwice 0 4) (eventWindow confirmedTwice 2)) := by
  refine ⟨windows_confirmedTwice 6 (by omega) (by omega), ?_⟩
  intro hunion
  have hlength : (mergeHistories (memoryWindow confirmedTwice 0 4)
      (eventWindow confirmedTwice 2)).length = 4 := by decide
  have hsize := hunion.length_eq
  rw [hlength] at hsize
  revert hsize
  decide

end MergeHistories

end LlmService
