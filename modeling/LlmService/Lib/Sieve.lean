import Mathlib.Data.List.Induction

/-!
# Sieves

A sieve reads items in their order, and keeps an item, in a form of its own, or
drops it, by what it has kept so far. `Sifts` says which items are kept: those
that are picked behind what was kept before them.
-/

namespace LlmService.Sieve

variable {α β : Type} (pick : List β → α → Option β)

def sift : List β → List α → List β
  | kept, [] => kept
  | kept, a :: as => sift (kept ++ (pick kept a).toList) as

/-- What was kept of the items before position `i`. -/
def before (entries : List (Nat × β)) (i : Nat) : List β :=
  (entries.filter fun entry => entry.1 < i).map Prod.snd

/-- The entries are the kept items, with their positions. -/
structure Sifts (as : List α) (entries : List (Nat × β)) : Prop where
  increasing : (entries.map Prod.fst).Pairwise (· < ·)
  picked : ∀ entry ∈ entries,
    ∃ a, as[entry.1]? = some a ∧ pick (before entries entry.1) a = some entry.2
  dropped : ∀ i a, as[i]? = some a → i ∉ entries.map Prod.fst → pick (before entries i) a = none

variable {pick} {as bs : List α} {kept : List β} {entries : List (Nat × β)}

@[simp] theorem sift_nil : sift pick kept [] = kept := rfl

theorem sift_append :
    sift pick kept (as ++ bs) = sift pick (sift pick kept as) bs := by
  induction as generalizing kept with
  | nil => rfl
  | cons a as ih => exact ih

theorem sift_concat (a : α) :
    sift pick kept (as ++ [a]) =
      sift pick kept as ++ (pick (sift pick kept as) a).toList := by
  rw [sift_append]
  rfl

/-- What every pick preserves holds of what is kept in the end. -/
theorem sift_invariant {P : List β → Prop} (h : P kept)
    (hstep : ∀ kept a b, P kept → pick kept a = some b → P (kept ++ [b])) :
    P (sift pick kept as) := by
  induction as generalizing kept with
  | nil => exact h
  | cons a as ih =>
    refine ih ?_
    cases ha : pick kept a with
    | none => simpa using h
    | some b => exact hstep kept a b h ha

/-- The kept items stand before the position behind the last one. -/
theorem before_eq_self {n : Nat} (h : ∀ entry ∈ entries, entry.1 < n) :
    before entries n = entries.map Prod.snd := by
  rw [before, List.filter_eq_self.mpr fun entry hentry => decide_eq_true (h entry hentry)]

/-- A later entry does not stand before a position. -/
theorem before_concat {i n : Nat} {b : β} (h : i ≤ n) :
    before (entries ++ [(n, b)]) i = before entries i := by
  have hlater : [(n, b)].filter (fun entry => decide (entry.1 < i)) = [] :=
    List.filter_eq_nil_iff.mpr fun entry hentry => by
      rw [List.mem_singleton.mp hentry, decide_eq_true_eq]
      exact Nat.not_lt.mpr h
  rw [before, List.filter_append, hlater, List.append_nil]
  rfl

theorem mem_before_iff {i : Nat} {b : β} :
    b ∈ before entries i ↔ ∃ j < i, (j, b) ∈ entries := by
  rw [before, List.mem_map]
  constructor
  · intro h
    obtain ⟨entry, hentry, rfl⟩ := h
    obtain ⟨hmem, hlt⟩ := List.mem_filter.mp hentry
    exact ⟨entry.1, of_decide_eq_true hlt, hmem⟩
  · intro h
    obtain ⟨j, hlt, hmem⟩ := h
    exact ⟨(j, b), List.mem_filter.mpr ⟨hmem, decide_eq_true hlt⟩, rfl⟩

theorem before_mono {i j : Nat} (hle : i ≤ j) : before entries i ⊆ before entries j := by
  intro b hb
  obtain ⟨k, hk, hmem⟩ := mem_before_iff.mp hb
  exact mem_before_iff.mpr ⟨k, Nat.lt_of_lt_of_le hk hle, hmem⟩

theorem Sifts.position_lt (h : Sifts pick as entries) {entry : Nat × β} (hentry : entry ∈ entries) :
    entry.1 < as.length := by
  obtain ⟨a, ha, -⟩ := h.picked entry hentry
  exact (List.getElem?_eq_some_iff.mp ha).1

theorem Sifts.before_length (h : Sifts pick as entries) :
    before entries as.length = entries.map Prod.snd := before_eq_self fun _ => h.position_lt

/-- A dropped item at the end. -/
theorem Sifts.drop (h : Sifts pick as entries) {a : α}
    (ha : pick (entries.map Prod.snd) a = none) : Sifts pick (as ++ [a]) entries := by
  refine ⟨h.increasing, ?_, ?_⟩
  · intro entry hentry
    obtain ⟨c, hc, hpick⟩ := h.picked entry hentry
    exact ⟨c, by rw [List.getElem?_append_left (h.position_lt hentry), hc], hpick⟩
  · intro i c hc hi
    by_cases hlt : i < as.length
    · rw [List.getElem?_append_left hlt] at hc
      exact h.dropped i c hc hi
    · have hlen := (List.getElem?_eq_some_iff.mp hc).1
      rw [List.length_append, List.length_singleton] at hlen
      obtain rfl : i = as.length := by omega
      rw [List.getElem?_concat_length] at hc
      obtain rfl := Option.some.inj hc
      rw [h.before_length]
      exact ha

/-- A kept item at the end. -/
theorem Sifts.keep (h : Sifts pick as entries) {a : α} {b : β}
    (ha : pick (entries.map Prod.snd) a = some b) :
    Sifts pick (as ++ [a]) (entries ++ [(as.length, b)]) := by
  refine ⟨?_, ?_, ?_⟩
  · rw [List.map_append, List.pairwise_append]
    refine ⟨h.increasing, List.pairwise_singleton _ _, ?_⟩
    intro i hi n hn
    obtain ⟨entry, hentry, rfl⟩ := List.mem_map.mp hi
    rw [List.mem_singleton.mp hn]
    exact h.position_lt hentry
  · intro entry hentry
    rcases List.mem_append.mp hentry with hentry | hentry
    · have hlt := h.position_lt hentry
      obtain ⟨c, hc, hpick⟩ := h.picked entry hentry
      refine ⟨c, by rw [List.getElem?_append_left hlt, hc], ?_⟩
      rw [before_concat (Nat.le_of_lt hlt)]
      exact hpick
    · rw [List.mem_singleton.mp hentry]
      refine ⟨a, List.getElem?_concat_length, ?_⟩
      rw [before_concat (Nat.le_refl _), h.before_length]
      exact ha
  · intro i c hc hi
    rw [List.map_append, List.mem_append, not_or] at hi
    have hlen := (List.getElem?_eq_some_iff.mp hc).1
    have hne : i ≠ as.length := fun heq => hi.2 (List.mem_singleton.mpr heq)
    rw [List.length_append, List.length_singleton] at hlen
    have hlt : i < as.length := by omega
    rw [List.getElem?_append_left hlt] at hc
    rw [before_concat (Nat.le_of_lt hlt)]
    exact h.dropped i c hc hi.1

/-- Of every list, a sieve keeps the items that it picks behind those that it kept. -/
theorem exists_sifts (pick : List β → α → Option β) (as : List α) :
    ∃ entries, Sifts pick as entries ∧ sift pick [] as = entries.map Prod.snd := by
  induction as using List.reverseRecOn with
  | nil => exact ⟨[], ⟨.nil, by simp, by simp⟩, rfl⟩
  | append_singleton as a ih =>
    obtain ⟨entries, hsifts, hkept⟩ := ih
    rw [sift_concat, hkept]
    cases ha : pick (entries.map Prod.snd) a with
    | none => exact ⟨entries, hsifts.drop ha, by simp⟩
    | some b => exact ⟨_, hsifts.keep ha, by simp⟩

/-! ## What keeps everything -/

theorem length_sift_le : (sift pick kept as).length ≤ kept.length + as.length := by
  induction as generalizing kept with
  | nil => exact Nat.le_refl _
  | cons a as ih =>
    refine Nat.le_trans ih ?_
    rw [List.length_append, List.length_cons]
    have hone : (pick kept a).toList.length ≤ 1 := by
      cases pick kept a with
      | none => exact Nat.zero_le _
      | some b => exact Nat.le_refl _
    omega

/-- A sieve that keeps items as they are keeps all of them if it picks each behind the
others before it. -/
theorem sift_eq_append_iff {pick : List α → α → Option α} {kept as : List α}
    (hself : ∀ kept a b, pick kept a = some b → b = a) :
    sift pick kept as = kept ++ as ↔
      ∀ front a back, as = front ++ a :: back → pick (kept ++ front) a = some a := by
  induction as generalizing kept with
  | nil => simp
  | cons c as ih =>
    constructor
    · intro h
      cases hc : pick kept c with
      | none =>
        have hshort : (sift pick (kept ++ (pick kept c).toList) as).length ≤ _ := length_sift_le
        rw [sift] at h
        rw [h, hc, Option.toList_none, List.append_nil, List.length_append, List.length_cons] at hshort
        omega
      | some b =>
        obtain rfl := hself _ _ _ hc
        have hrest : sift pick (kept ++ [b]) as = kept ++ [b] ++ as := by
          rw [sift, hc] at h
          simpa using h
        intro front a back heq
        cases front with
        | nil =>
          obtain ⟨rfl, -⟩ := List.cons.inj heq
          rw [List.append_nil]
          exact hc
        | cons e front =>
          obtain ⟨rfl, htail⟩ := List.cons.inj heq
          have hpick := ih.mp hrest front a back htail
          rwa [List.append_assoc] at hpick
    · intro h
      have hc := h [] c as rfl
      rw [List.append_nil] at hc
      have hrest : sift pick (kept ++ [c]) as = kept ++ [c] ++ as := by
        refine ih.mpr fun front a back heq => ?_
        rw [List.append_assoc]
        exact h (c :: front) a back (congrArg _ heq)
      rw [sift, hc]
      simpa using hrest

theorem sift_sublist {pick : List α → α → Option α} {kept as : List α}
    (hself : ∀ kept a b, pick kept a = some b → b = a) : (sift pick kept as).Sublist (kept ++ as) := by
  induction as generalizing kept with
  | nil =>
    rw [List.append_nil]
    exact List.Sublist.refl _
  | cons a as ih =>
    refine ih.trans ?_
    rw [List.append_assoc]
    refine List.Sublist.append_left ?_ kept
    cases ha : pick kept a with
    | none => exact List.sublist_cons_self a as
    | some b =>
      obtain rfl := hself _ _ _ ha
      exact List.Sublist.refl _

/-- What holds of each item and those before it. -/
theorem pairwise_iff_front {P : α → α → Prop} :
    as.Pairwise P ↔ ∀ front a back, as = front ++ a :: back → ∀ x ∈ front, P x a := by
  constructor
  · intro h front a back heq x hx
    rw [heq, List.pairwise_append] at h
    exact h.2.2 x hx a List.mem_cons_self
  · intro h
    induction as using List.reverseRecOn with
    | nil => exact .nil
    | append_singleton as a ih =>
      rw [List.pairwise_append]
      refine ⟨ih fun front b back heq => ?_, List.pairwise_singleton _ _, ?_⟩
      · exact h front b (back ++ [a]) (by rw [heq, List.append_assoc]; rfl)
      · intro x hx b hb
        rw [List.mem_singleton.mp hb]
        exact h as a [] rfl x hx

/-- Of two items, one stands before the other. -/
theorem or_of_pairwise {P : α → α → Prop} (h : as.Pairwise P) {a b : α} (ha : a ∈ as) (hb : b ∈ as)
    (hne : a ≠ b) : P a b ∨ P b a := by
  induction as with
  | nil => cases ha
  | cons c as ih =>
    obtain ⟨hc, hrest⟩ := List.pairwise_cons.mp h
    rcases List.mem_cons.mp ha with rfl | ha'
    · exact .inl (hc b ((List.mem_cons.mp hb).resolve_left (Ne.symm hne)))
    · rcases List.mem_cons.mp hb with rfl | hb'
      · exact .inr (hc a ha')
      · exact ih hrest ha' hb'

end LlmService.Sieve
