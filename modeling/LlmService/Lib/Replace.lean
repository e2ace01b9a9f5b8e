import Mathlib.Algebra.GroupWithZero.Nat
import Mathlib.Data.List.Infix
import LlmService.Lib.PyText

/-!
# Replacing a part of a text

`replaceAll` replaces every occurrence of a part, from left to right, in one
pass. When the result has no occurrence of a part left, and which texts still
assemble one, is a matter of what the replacement begins and ends with.
-/

namespace LlmService

section Guarded

variable {α : Type} {new t : List α}

/-- The replacement begins with something that a text has not, and no end of
it begins the text. -/
structure Guarded (new t : List α) : Prop where
  ne_nil : t ≠ []
  guard : ∃ b rest, new = b :: rest ∧ b ∉ t
  apart : ∀ s, s <:+ new → s ≠ [] → ∀ rest, ¬ t <+: s ++ rest

/-- Guarding is a matter of the two texts alone. -/
theorem Guarded.of_tails (ht : t ≠ []) (hguard : ∃ b rest, new = b :: rest ∧ b ∉ t)
    (htails : ∀ s ∈ new.tails, s ≠ [] → ¬ s <+: t ∧ ¬ t <+: s) : Guarded new t where
  ne_nil := ht
  guard := hguard
  apart := by
    intro s hs hne rest h
    obtain ⟨hst, hts⟩ := htails s ((List.mem_tails s new).mpr hs) hne
    rcases List.prefix_or_prefix_of_prefix h (List.prefix_append s rest) with h | h
    · exact hts h
    · exact hst h

/-- A text is not assembled where the replacement ends. -/
theorem Guarded.infix_append_iff (hguard : Guarded new t) (rest : List α) :
    t <:+: new ++ rest ↔ t <:+: rest := by
  constructor
  · intro h
    have happart : ∀ s, s <:+ new → t <:+: s ++ rest → t <:+: rest := by
      intro s
      induction s with
      | nil => exact fun _ h => h
      | cons c s ih =>
        intro hs h
        rcases List.infix_cons_iff.mp h with hbegins | hlater
        · exact absurd hbegins (hguard.apart _ hs (List.cons_ne_nil c s) rest)
        · exact ih ((List.suffix_cons c s).trans hs) hlater
    exact happart new List.suffix_rfl h
  · intro h
    exact h.trans (List.suffix_append new rest).isInfix

end Guarded

section Replace

variable {α : Type} [DecidableEq α] {old new t text : List α} {c : α}

/-- Replace `old` by `new`; the number says how much of an occurrence just
found is still to be skipped. -/
def replaceAux (old new : List α) : Nat → List α → List α
  | _, [] => []
  | skip + 1, _ :: rest => replaceAux old new skip rest
  | 0, c :: rest =>
    if old.isPrefixOf (c :: rest) then new ++ replaceAux old new (old.length - 1) rest
    else c :: replaceAux old new 0 rest

/-- `text.replace(old, new)`, for an `old` that is not empty. -/
def replaceAll (old new text : List α) : List α := replaceAux old new 0 text

theorem replaceAux_append (skipped rest : List α) :
    replaceAux old new skipped.length (skipped ++ rest) = replaceAll old new rest := by
  induction skipped with
  | nil => rfl
  | cons c skipped ih => exact ih

theorem replaceAll_nil : replaceAll old new [] = [] := rfl

theorem replaceAll_hit (hold : old ≠ []) (rest : List α) :
    replaceAll old new (old ++ rest) = new ++ replaceAll old new rest := by
  cases old with
  | nil => exact absurd rfl hold
  | cons c old =>
    have hthere : (c :: old).isPrefixOf (c :: (old ++ rest)) = true :=
      List.isPrefixOf_iff_prefix.mpr ⟨rest, rfl⟩
    rw [replaceAll, List.cons_append, replaceAux, if_pos hthere]
    congr 1
    exact replaceAux_append old rest

theorem replaceAll_keep {rest : List α} (h : ¬ old <+: c :: rest) :
    replaceAll old new (c :: rest) = c :: replaceAll old new rest := by
  have hthere : ¬ old.isPrefixOf (c :: rest) = true := by
    rwa [List.isPrefixOf_iff_prefix]
  rw [replaceAll, replaceAux, if_neg hthere]
  rfl

/-- The cases of the scan: an occurrence is replaced, or a character is kept. -/
theorem replaceAll_induction {motive : List α → Prop} (hold : old ≠ []) (nil : motive [])
    (hit : ∀ rest, motive rest → motive (old ++ rest))
    (keep : ∀ c rest, ¬ old <+: c :: rest → motive rest → motive (c :: rest))
    (text : List α) : motive text := by
  induction hn : text.length using Nat.strong_induction_on generalizing text with
  | _ n ih =>
    cases text with
    | nil => exact nil
    | cons c rest =>
      by_cases hthere : old <+: c :: rest
      · obtain ⟨after, hafter⟩ := hthere
        rw [← hafter] at hn ⊢
        have hpos := List.length_pos_iff.mpr hold
        rw [List.length_append] at hn
        exact hit after (ih after.length (by omega) after rfl)
      · rw [List.length_cons] at hn
        exact keep c rest hthere (ih rest.length (by omega) rest rfl)

/-! ## Occurrences that a replacement neither makes nor breaks -/

/-- What begins the result and cannot run into a replacement began the text. -/
theorem isPrefix_of_replaceAll (hold : old ≠ []) (hguard : ∃ b rest, new = b :: rest ∧ b ∉ t)
    (h : t <+: replaceAll old new text) : t <+: text := by
  obtain ⟨b, tail, hnew, hb⟩ := hguard
  induction text using replaceAll_induction hold generalizing t with
  | nil => exact h
  | hit rest _ =>
    rw [replaceAll_hit hold, hnew] at h
    cases t with
    | nil => exact List.nil_prefix
    | cons c t =>
      have hc : c = b := (List.cons_prefix_cons.mp h).1
      exact absurd (hc ▸ List.mem_cons_self) hb
  | keep c rest hthere ih =>
    rw [replaceAll_keep hthere] at h
    cases t with
    | nil => exact List.nil_prefix
    | cons d t =>
      obtain ⟨rfl, htail⟩ := List.cons_prefix_cons.mp h
      exact List.cons_prefix_cons.mpr
        ⟨rfl, ih htail (fun hmem => hb (List.mem_cons_of_mem _ hmem))⟩

/-- A replacement that is guarded against a text does not assemble it. -/
theorem Guarded.infix_of_replaceAll (hguard : Guarded new t) (hold : old ≠ [])
    (h : t <:+: replaceAll old new text) : t <:+: text := by
  induction text using replaceAll_induction hold with
  | nil => exact h
  | hit rest ih =>
    rw [replaceAll_hit hold, hguard.infix_append_iff] at h
    exact (ih h).trans (List.suffix_append old rest).isInfix
  | keep c rest hthere ih =>
    have hwhole : t <+: replaceAll old new (c :: rest) → t <+: c :: rest :=
      isPrefix_of_replaceAll hold hguard.guard
    rw [replaceAll_keep hthere] at h hwhole
    rcases List.infix_cons_iff.mp h with hbegins | hlater
    · exact (hwhole hbegins).isInfix
    · exact (ih hlater).trans (List.suffix_cons c rest).isInfix

/-- Guarded against the part itself, nothing is left of it. -/
theorem Guarded.not_infix_replaceAll (hguard : Guarded new old) :
    ¬ old <:+: replaceAll old new text := by
  have hold := hguard.ne_nil
  induction text using replaceAll_induction hold with
  | nil =>
    intro h
    exact hold (List.eq_nil_of_infix_nil h)
  | hit rest ih =>
    rw [replaceAll_hit hold, hguard.infix_append_iff]
    exact ih
  | keep c rest hthere ih =>
    rw [replaceAll_keep hthere]
    intro h
    rcases List.infix_cons_iff.mp h with hbegins | hlater
    · rw [← replaceAll_keep hthere] at hbegins
      exact hthere (isPrefix_of_replaceAll hold hguard.guard hbegins)
    · exact ih hlater

/-- What has nothing in common with the part begins the result if it begins the text. -/
theorem isPrefix_replaceAll (hold : old ≠ []) (hdisjoint : ∀ c ∈ t, c ∉ old) (h : t <+: text) :
    t <+: replaceAll old new text := by
  induction text using replaceAll_induction hold generalizing t with
  | nil => exact h
  | hit rest _ =>
    cases t with
    | nil => exact List.nil_prefix
    | cons c t =>
      cases old with
      | nil => exact absurd rfl hold
      | cons d old =>
        have hc : c = d := (List.cons_prefix_cons.mp h).1
        exact absurd (hc ▸ List.mem_cons_self) (hdisjoint c List.mem_cons_self)
  | keep c rest hthere ih =>
    rw [replaceAll_keep hthere]
    cases t with
    | nil => exact List.nil_prefix
    | cons d t =>
      obtain ⟨rfl, htail⟩ := List.cons_prefix_cons.mp h
      exact List.cons_prefix_cons.mpr
        ⟨rfl, ih (fun c hc => hdisjoint c (List.mem_cons_of_mem _ hc)) htail⟩

/-- What has nothing in common with the part stays. -/
theorem infix_replaceAll (hold : old ≠ []) (ht : t ≠ []) (hdisjoint : ∀ c ∈ t, c ∉ old)
    (h : t <:+: text) : t <:+: replaceAll old new text := by
  induction text using replaceAll_induction hold with
  | nil => exact h
  | hit rest ih =>
    have hrest : ∀ s, s <:+ old → t <:+: s ++ rest → t <:+: rest := by
      intro s
      induction s with
      | nil => exact fun _ h => h
      | cons c s ih =>
        intro hs h
        rcases List.infix_cons_iff.mp h with hbegins | hlater
        · cases t with
          | nil => exact absurd rfl ht
          | cons d t =>
            have hd : d = c := (List.cons_prefix_cons.mp hbegins).1
            exact absurd (hs.subset (hd ▸ List.mem_cons_self)) (hdisjoint d List.mem_cons_self)
        · exact ih ((List.suffix_cons c s).trans hs) hlater
    rw [replaceAll_hit hold]
    exact (ih (hrest old List.suffix_rfl h)).trans (List.suffix_append new _).isInfix
  | keep c rest hthere ih =>
    rcases List.infix_cons_iff.mp h with hbegins | hlater
    · exact (isPrefix_replaceAll hold hdisjoint hbegins).isInfix
    · rw [replaceAll_keep hthere]
      exact (ih hlater).trans (List.suffix_cons c _).isInfix

/-! ## One replacement after another -/

/-- Every part is replaced, in the order of the list. -/
def replaceEach (parts : List (List α × List α)) (text : List α) : List α :=
  parts.foldl (fun text part => replaceAll part.1 part.2 text) text

theorem replaceEach_cons (part : List α × List α) (parts : List (List α × List α))
    (text : List α) :
    replaceEach (part :: parts) text = replaceEach parts (replaceAll part.1 part.2 text) := rfl

theorem replaceEach_nil (parts : List (List α × List α)) : replaceEach parts [] = [] := by
  induction parts with
  | nil => rfl
  | cons part parts ih => rw [replaceEach_cons, replaceAll_nil, ih]

theorem not_infix_replaceEach {parts : List (List α × List α)}
    (hparts : ∀ part ∈ parts, part.1 ≠ [] ∧ Guarded part.2 t) (h : ¬ t <:+: text) :
    ¬ t <:+: replaceEach parts text := by
  induction parts generalizing text with
  | nil => exact h
  | cons part parts ih =>
    obtain ⟨hold, hguard⟩ := hparts part List.mem_cons_self
    refine ih (fun other hother => hparts other (List.mem_cons_of_mem _ hother)) ?_
    exact fun hthere => h (hguard.infix_of_replaceAll hold hthere)

theorem infix_replaceEach {parts : List (List α × List α)} (ht : t ≠ [])
    (hparts : ∀ part ∈ parts, part.1 ≠ [] ∧ ∀ c ∈ t, c ∉ part.1) (h : t <:+: text) :
    t <:+: replaceEach parts text := by
  induction parts generalizing text with
  | nil => exact h
  | cons part parts ih =>
    obtain ⟨hold, hdisjoint⟩ := hparts part List.mem_cons_self
    exact ih (fun other hother => hparts other (List.mem_cons_of_mem _ hother))
      (infix_replaceAll hold ht hdisjoint h)

/-- Nothing is left of parts whose replacements are all guarded against all of them. -/
theorem not_infix_replaceEach_of_mem {parts : List (List α × List α)}
    (hparts : ∀ part ∈ parts, ∀ other ∈ parts, Guarded part.2 other.1)
    {part : List α × List α} (hpart : part ∈ parts) :
    ¬ part.1 <:+: replaceEach parts text := by
  induction parts generalizing text with
  | nil => cases hpart
  | cons first parts ih =>
    rcases List.mem_cons.mp hpart with rfl | hlater
    · have hself := hparts part List.mem_cons_self part List.mem_cons_self
      show ¬ part.1 <:+: replaceEach parts (replaceAll part.1 part.2 text)
      refine not_infix_replaceEach (fun other hother => ?_) hself.not_infix_replaceAll
      have hmem := List.mem_cons_of_mem part hother
      exact ⟨(hparts other hmem other hmem).ne_nil, hparts other hmem part List.mem_cons_self⟩
    · exact ih (fun a ha b hb =>
        hparts a (List.mem_cons_of_mem _ ha) b (List.mem_cons_of_mem _ hb)) hlater

end Replace

/-! ## How often a part occurs -/

section Occurrences

variable {α : Type} {d text : List α} {x : α}

/-- What is in the first items ends among them. -/
theorem infix_take_iff (n : Nat) (text : List α) :
    d <:+: text.take n ↔ ∃ u, u ++ d <+: text ∧ (u ++ d).length ≤ n := by
  constructor
  · rintro ⟨u, v, h⟩
    exact ⟨u, List.prefix_take_iff.mp ⟨v, h⟩⟩
  · rintro ⟨u, h⟩
    exact (List.suffix_append u d).isInfix.trans (List.prefix_take_iff.mpr h).isInfix

/-- What the separator cuts nowhere stands in one of the joined parts. -/
theorem isPrefix_intercalate_iff (hd : d ≠ []) (hx : x ∉ d) (u : List α)
    (parts : List (List α)) :
    u ++ d <+: [x].intercalate parts
      ↔ ∃ earlier before after later, parts = earlier ++ (before ++ d ++ after) :: later
          ∧ u = earlier.flatMap (· ++ [x]) ++ before := by
  induction parts generalizing u with
  | nil =>
    rw [List.intercalate_nil, List.prefix_nil]
    constructor
    · intro h
      exact absurd (List.append_eq_nil_iff.mp h).2 hd
    · rintro ⟨earlier, before, after, later, h, -⟩
      cases earlier <;> cases h
  | cons part rest ih =>
    have hfirst : u ++ d <+: part → ∃ earlier before after later,
        part :: rest = earlier ++ (before ++ d ++ after) :: later
          ∧ u = earlier.flatMap (· ++ [x]) ++ before := by
      rintro ⟨after, rfl⟩
      exact ⟨[], u, after, rest, rfl, rfl⟩
    cases rest with
    | nil =>
      rw [List.intercalate_singleton]
      constructor
      · exact hfirst
      · rintro ⟨earlier, before, after, later, h, rfl⟩
        cases earlier with
        | nil => exact ⟨after, (List.cons.inj h).1.symm⟩
        | cons _ earlier => cases earlier <;> cases (List.cons.inj h).2
    | cons next rest =>
      rw [List.intercalate_cons_cons, List.append_assoc, List.singleton_append]
      constructor
      · rintro ⟨tail, htail⟩
        rcases List.append_eq_append_iff.mp htail with ⟨e, he, -⟩ | ⟨e, he, htail⟩
        · exact hfirst ⟨e, he.symm⟩
        · cases e with
          | nil => exact hfirst ⟨[], by rw [he, List.append_nil, List.append_nil]⟩
          | cons y e =>
            -- the text before `d` goes on behind the separator
            obtain ⟨rfl, hlater⟩ := List.cons.inj htail
            rcases List.append_eq_append_iff.mp he with ⟨f, -, hf⟩ | ⟨f, rfl, hf⟩
            · exact absurd (hf ▸ by simp) hx
            · cases f with
              | nil =>
                rw [List.nil_append] at hf
                exact absurd (hf ▸ List.mem_cons_self) hx
              | cons z f =>
                obtain ⟨rfl, rfl⟩ := List.cons.inj hf
                obtain ⟨earlier, before, after, later, h, rfl⟩ := (ih f).mp ⟨tail, hlater.symm⟩
                refine ⟨part :: earlier, before, after, later, by rw [h]; rfl, ?_⟩
                simp
      · rintro ⟨earlier, before, after, later, h, rfl⟩
        cases earlier with
        | nil =>
          obtain ⟨rfl, -⟩ := List.cons.inj h
          exact ⟨after ++ x :: [x].intercalate (next :: rest), by simp⟩
        | cons first earlier =>
          obtain ⟨rfl, hrest⟩ := List.cons.inj h
          have hlater := (ih (earlier.flatMap (· ++ [x]) ++ before)).mpr
            ⟨earlier, before, after, later, hrest, rfl⟩
          rw [List.flatMap_cons, List.append_assoc, List.append_assoc, List.append_assoc,
            List.prefix_append_right_inj, List.singleton_append, List.cons_prefix_cons,
            ← List.append_assoc]
          exact ⟨rfl, hlater⟩

theorem isPrefix_append_cons_iff (hx : x ∉ d) (a b : List α) : d <+: a ++ x :: b ↔ d <+: a := by
  induction a generalizing d with
  | nil =>
    cases d with
    | nil => simp
    | cons c d =>
      have hc : c ≠ x := fun h => hx (h ▸ List.mem_cons_self)
      simp [List.cons_prefix_cons, hc]
  | cons e a ih =>
    cases d with
    | nil => simp
    | cons c d =>
      rw [List.cons_append, List.cons_prefix_cons, List.cons_prefix_cons,
        ih (List.not_mem_of_not_mem_cons hx)]

variable [DecidableEq α]

/-- How often `d` begins in a text: `text.count(d)` for a `d` that does not
overlap itself. -/
def occurrences (d text : List α) : Nat := text.tails.countP (d.isPrefixOf ·)

theorem occurrences_cons (d : List α) (c : α) (text : List α) :
    occurrences d (c :: text) = occurrences d text + if d <+: c :: text then 1 else 0 := by
  rw [occurrences, List.tails_cons, List.countP_cons, occurrences]
  simp only [List.isPrefixOf_iff_prefix]

theorem occurrences_nil (hd : d ≠ []) : occurrences d [] = 0 := by
  cases d with
  | nil => exact absurd rfl hd
  | cons c d => rfl

theorem occurrences_eq_zero_iff (hd : d ≠ []) (text : List α) :
    occurrences d text = 0 ↔ ¬ d <:+: text := by
  induction text with
  | nil =>
    rw [occurrences_nil hd, List.infix_nil]
    simpa using hd
  | cons c text ih =>
    rw [occurrences_cons, List.infix_cons_iff, not_or, Nat.add_eq_zero_iff, ih, and_comm]
    by_cases h : d <+: c :: text
    · simp [h]
    · simp [h]

/-- What is cut by an item that `d` has not is counted on both sides. -/
theorem occurrences_append_cons (hd : d ≠ []) (hx : x ∉ d) (a b : List α) :
    occurrences d (a ++ x :: b) = occurrences d a + occurrences d b := by
  induction a with
  | nil =>
    have hnot : ¬ d <+: x :: b := by
      rw [← List.nil_append (x :: b), isPrefix_append_cons_iff hx, List.prefix_nil]
      exact hd
    rw [List.nil_append, occurrences_cons, if_neg hnot, occurrences_nil hd]
    omega
  | cons c a ih =>
    have hsame := isPrefix_append_cons_iff hx (c :: a) b
    rw [List.cons_append] at hsame ⊢
    rw [occurrences_cons, occurrences_cons, ih]
    simp only [hsame]
    omega

theorem occurrences_intercalate (hd : d ≠ []) (hx : x ∉ d) (parts : List (List α)) :
    occurrences d ([x].intercalate parts) = (parts.map (occurrences d)).sum := by
  induction parts with
  | nil => rw [List.intercalate_nil, occurrences_nil hd]; rfl
  | cons part rest ih =>
    cases rest with
    | nil => simp [List.intercalate_singleton]
    | cons next rest =>
      rw [List.intercalate_cons_cons, List.append_assoc, List.singleton_append,
        occurrences_append_cons hd hx, ih]
      rfl

theorem occurrences_of_not_mem (hc : x ∈ d) (h : x ∉ text) : occurrences d text = 0 := by
  rw [occurrences_eq_zero_iff (List.ne_nil_of_mem hc)]
  exact fun hthere => h (hthere.subset hc)

theorem occurrences_self (hd : d ≠ []) : occurrences d d = 1 := by
  cases d with
  | nil => exact absurd rfl hd
  | cons c d =>
    have hrest : occurrences (c :: d) d = 0 := by
      rw [occurrences_eq_zero_iff hd]
      intro h
      have hlength := h.length_le
      rw [List.length_cons] at hlength
      omega
    rw [occurrences_cons, hrest, if_pos List.prefix_rfl]

end Occurrences

end LlmService
