import Mathlib.Data.List.Chain
import Mathlib.Data.List.Induction

/-!
# Conversations

A conversation is a list of turns: each has a speaker and what it says, in
parts. Two turns in a row have different speakers, so what a speaker adds to
its own turn becomes a part of it. `utterances` are the parts of all turns
with their speakers; a conversation is heard from them (`utterances_hear`)
and determines them.

With two speakers the turns are strictly alternating (`alternates_speakers`).
-/

namespace LlmService

variable {κ τ : Type _}

structure Conversation (κ τ : Type _) where
  turns : List (κ × List τ)
  changes : turns.IsChain fun s t => s.1 ≠ t.1
  spoken : ∀ t ∈ turns, t.2 ≠ []

/-- The two take turns; `first` begins. -/
def Alternates (first second : κ) : List κ → Prop
  | [] => True
  | k :: ks => k = first ∧ Alternates second first ks

instance decidableAlternates [DecidableEq κ] (first second : κ) :
    (ks : List κ) → Decidable (Alternates first second ks)
  | [] => isTrue trivial
  | k :: ks =>
    have := decidableAlternates second first ks
    inferInstanceAs (Decidable (k = first ∧ Alternates second first ks))

/-- A list without two equal neighbours, over two values, alternates. -/
theorem alternates_of_isChain {ks : List κ} {first second : κ} (hchain : ks.IsChain (· ≠ ·))
    (htwo : ∀ k ∈ ks, k = first ∨ k = second) (hhead : ∀ k ∈ ks.head?, k = first) :
    Alternates first second ks := by
  induction ks generalizing first second with
  | nil => trivial
  | cons k ks ih =>
    have hk : k = first := hhead k rfl
    subst hk
    refine ⟨rfl, ih hchain.tail ?_ ?_⟩
    · intro j hj
      exact (htwo j (List.mem_cons_of_mem _ hj)).symm
    · intro j hj
      have hne : k ≠ j := (List.isChain_cons.mp hchain).1 j hj
      rcases htwo j (List.mem_cons_of_mem _ (List.mem_of_mem_head? hj)) with h | h
      · exact absurd h.symm hne
      · exact h

namespace Conversation

def empty : Conversation κ τ := ⟨[], List.isChain_nil, by simp⟩

def speakers (c : Conversation κ τ) : List κ := c.turns.map (·.1)

def utterances (c : Conversation κ τ) : List (κ × τ) :=
  c.turns.flatMap fun t => t.2.map (t.1, ·)

@[simp] theorem turns_empty : (empty : Conversation κ τ).turns = [] := rfl

@[simp] theorem utterances_empty : (empty : Conversation κ τ).utterances = [] := rfl

section Say

variable [DecidableEq κ]

/-- What a speaker says is a part of the last turn if this is its own. -/
def addTurn (turns : List (κ × List τ)) (k : κ) (x : τ) : List (κ × List τ) :=
  match turns.getLast? with
  | some last =>
    if last.1 = k then turns.dropLast ++ [(k, last.2 ++ [x])] else turns ++ [(k, [x])]
  | none => [(k, [x])]

@[simp] theorem addTurn_nil (k : κ) (x : τ) : addTurn [] k x = [(k, [x])] := rfl

@[simp] theorem addTurn_concat (turns : List (κ × List τ)) (t : κ × List τ) (k : κ) (x : τ) :
    addTurn (turns ++ [t]) k x =
      if t.1 = k then turns ++ [(k, t.2 ++ [x])] else turns ++ [t] ++ [(k, [x])] := by
  simp [addTurn]

theorem addTurn_changes {turns : List (κ × List τ)} (h : turns.IsChain fun s t => s.1 ≠ t.1)
    (k : κ) (x : τ) : (addTurn turns k x).IsChain fun s t => s.1 ≠ t.1 := by
  induction turns using List.reverseRecOn with
  | nil => exact List.isChain_singleton _
  | append_singleton turns t _ =>
    rw [addTurn_concat]
    split
    · next hk =>
      rw [List.isChain_append] at h ⊢
      refine ⟨h.1, List.isChain_singleton _, ?_⟩
      intro s hs u hu
      obtain rfl : (k, t.2 ++ [x]) = u := by simpa using hu
      have hne := h.2.2 s hs t rfl
      rwa [hk] at hne
    · next hk =>
      rw [List.isChain_append]
      refine ⟨h, List.isChain_singleton _, ?_⟩
      intro s hs u hu
      obtain rfl : t = s := by simpa using hs
      obtain rfl : (k, [x]) = u := by simpa using hu
      exact hk

theorem addTurn_spoken {turns : List (κ × List τ)} (h : ∀ t ∈ turns, t.2 ≠ []) (k : κ) (x : τ) :
    ∀ t ∈ addTurn turns k x, t.2 ≠ [] := by
  induction turns using List.reverseRecOn with
  | nil => simp
  | append_singleton turns t _ =>
    intro u hu
    rw [addTurn_concat] at hu
    split at hu <;> rw [List.mem_append, List.mem_singleton] at hu <;> rcases hu with hu | rfl
    · exact h u (List.mem_append_left _ hu)
    · simp
    · exact h u hu
    · simp

def say (c : Conversation κ τ) (k : κ) (x : τ) : Conversation κ τ where
  turns := addTurn c.turns k x
  changes := addTurn_changes c.changes k x
  spoken := addTurn_spoken c.spoken k x

@[simp] theorem turns_say (c : Conversation κ τ) (k : κ) (x : τ) :
    (c.say k x).turns = addTurn c.turns k x := rfl

theorem utterances_say (c : Conversation κ τ) (k : κ) (x : τ) :
    (c.say k x).utterances = c.utterances ++ [(k, x)] := by
  simp only [utterances, turns_say]
  induction c.turns using List.reverseRecOn with
  | nil => rfl
  | append_singleton turns t _ =>
    rw [addTurn_concat]
    split
    · next hk =>
      subst hk
      simp
    · simp

theorem getLast_speakers_say (c : Conversation κ τ) (k : κ) (x : τ) :
    (c.say k x).speakers.getLast? = some k := by
  simp only [speakers, turns_say]
  induction c.turns using List.reverseRecOn with
  | nil => rfl
  | append_singleton turns t _ =>
    rw [addTurn_concat]
    split <;> simp

/-- Who spoke first goes on to have spoken first. -/
theorem head_say {c : Conversation κ τ} {k : κ} (h : ∀ j ∈ c.speakers.head?, j = k) (x : τ) :
    ∀ j ∈ (c.say k x).speakers.head?, j = k := by
  simp only [speakers, turns_say] at h ⊢
  generalize c.turns = turns at h
  rcases List.eq_nil_or_concat turns with rfl | ⟨turns, t, rfl⟩
  · simp
  · rw [List.concat_eq_append, addTurn_concat]
    cases turns with
    | nil =>
      have ht : t.1 = k := by simpa using h
      simp [ht]
    | cons s turns =>
      have hs : s.1 = k := by simpa using h
      split <;> simp [hs]

/-- The conversation in which these parts are said one after another. -/
def hear (l : List (κ × τ)) : Conversation κ τ := l.foldl (fun c u => c.say u.1 u.2) empty

theorem utterances_hear (l : List (κ × τ)) : (hear l).utterances = l := by
  induction l using List.reverseRecOn with
  | nil => rfl
  | append_singleton l u ih =>
    rw [hear, List.foldl_concat, utterances_say]
    exact congrArg (· ++ [u]) ih

/-- The conversation from the first turn of `k` on. -/
def openedBy (c : Conversation κ τ) (k : κ) : Conversation κ τ where
  turns := c.turns.dropWhile fun t => t.1 ≠ k
  changes := c.changes.suffix (List.dropWhile_suffix _)
  spoken := fun t ht => c.spoken t ((List.dropWhile_suffix _).subset ht)

theorem head_openedBy (c : Conversation κ τ) (k : κ) : ∀ j ∈ (c.openedBy k).speakers.head?, j = k := by
  intro j hj
  simp only [speakers, openedBy, List.head?_map, Option.mem_def, Option.map_eq_some_iff] at hj
  obtain ⟨t, ht, rfl⟩ := hj
  have := List.head?_dropWhile_not (fun t : κ × List τ => decide (t.1 ≠ k)) c.turns
  rw [ht] at this
  simpa using this

theorem utterances_openedBy (c : Conversation κ τ) (k : κ) :
    (c.openedBy k).utterances = c.utterances.dropWhile fun u => u.1 ≠ k := by
  simp only [utterances, openedBy]
  have hspoken := c.spoken
  generalize c.turns = turns at hspoken
  induction turns with
  | nil => rfl
  | cons t turns ih =>
    have hparts : ∀ u ∈ t.2.map (t.1, ·), u.1 = t.1 := by
      intro u hu
      obtain ⟨x, _, rfl⟩ := List.mem_map.mp hu
      rfl
    by_cases hk : t.1 = k
    · obtain ⟨x, xs, hx⟩ := List.exists_cons_of_ne_nil (hspoken t List.mem_cons_self)
      simp [hk, hx]
    · rw [List.dropWhile_cons_of_pos (by simpa using hk), List.flatMap_cons,
        List.dropWhile_append_of_pos]
      · exact ih fun t ht => hspoken t (List.mem_cons_of_mem _ ht)
      · intro u hu
        rw [hparts u hu]
        simpa using hk

end Say

theorem mem_speakers_iff {c : Conversation κ τ} {k : κ} :
    k ∈ c.speakers ↔ k ∈ c.utterances.map (·.1) := by
  simp only [speakers, utterances, List.mem_map, List.mem_flatMap]
  constructor
  · rintro ⟨t, ht, rfl⟩
    obtain ⟨x, hx⟩ := List.exists_mem_of_ne_nil _ (c.spoken t ht)
    exact ⟨(t.1, x), ⟨t, ht, x, hx, rfl⟩, rfl⟩
  · rintro ⟨u, ⟨t, ht, x, _, rfl⟩, rfl⟩
    exact ⟨t, ht, rfl⟩

/-- Two speakers take turns. -/
theorem alternates_speakers {c : Conversation κ τ} {first second : κ}
    (htwo : ∀ u ∈ c.utterances, u.1 = first ∨ u.1 = second)
    (hhead : ∀ k ∈ c.speakers.head?, k = first) : Alternates first second c.speakers := by
  apply alternates_of_isChain
  · exact (List.isChain_map _).mpr c.changes
  · intro k hk
    obtain ⟨u, hu, rfl⟩ := List.mem_map.mp (mem_speakers_iff.mp hk)
    exact htwo u hu
  · exact hhead

end Conversation

end LlmService
