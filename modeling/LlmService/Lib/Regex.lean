import Mathlib.Data.List.Basic

/-!
# Regular expressions

Expressions with greedy repetition and assertions about the characters around a
position, as a backtracking matcher reads them. `Spans` says which part of a
text an expression matches there, `ends` computes how far it may match in order
of preference, and `sub` replaces its matches from left to right.

Replacing the matches of an expression brings in no match of another one that
cannot touch the replacement (`Masks`, `free_sub`).
-/

namespace LlmService

inductive Regex where
  | empty
  | set (p : Char → Bool)
  | seq (a b : Regex)
  | alt (a b : Regex)
  /-- as many characters of the set as there are -/
  | many (p : Char → Bool)
  /-- an assertion about the characters before and behind -/
  | look (q : Option Char → Option Char → Bool)

namespace Regex

def char (c : Char) : Regex := set (· == c)

/-- `a?` -/
def opt (a : Regex) : Regex := alt a empty

/-- `p+` -/
def some1 (p : Char → Bool) : Regex := seq (set p) (many p)

/-- `a{n}` -/
def pow (a : Regex) : Nat → Regex
  | 0 => empty
  | n + 1 => seq a (pow a n)

/-- `a{0,n}` -/
def upTo (a : Regex) : Nat → Regex
  | 0 => empty
  | n + 1 => opt (seq a (upTo a n))

/-- `a₁a₂…` -/
def cat : List Regex → Regex
  | [] => empty
  | [a] => a
  | a :: rest => seq a (cat rest)

/-- `a₁|a₂|…` -/
def oneOf : List Regex → Regex
  | [] => set fun _ => false
  | [a] => a
  | a :: rest => alt a (oneOf rest)

/-! ## Matching -/

/-- A position of a text: the character before it, and the text behind it. -/
structure Position where
  prev : Option Char
  rest : List Char

def manyEnds (p : Char → Bool) : Option Char → List Char → List Position
  | prev, [] => [⟨prev, []⟩]
  | prev, c :: rest =>
    if p c then manyEnds p (some c) rest ++ [⟨prev, c :: rest⟩] else [⟨prev, c :: rest⟩]

/-- Where a match may end, in order of preference. -/
def ends : Regex → Position → List Position
  | empty, at₀ => [at₀]
  | set p, at₀ =>
    match at₀.rest with
    | [] => []
    | c :: rest => if p c then [⟨some c, rest⟩] else []
  | seq a b, at₀ => (a.ends at₀).flatMap b.ends
  | alt a b, at₀ => a.ends at₀ ++ b.ends at₀
  | many p, at₀ => manyEnds p at₀.prev at₀.rest
  | look q, at₀ => if q at₀.prev at₀.rest.head? then [at₀] else []

def searchFrom (r : Regex) (prev : Option Char) (rest : List Char) : Bool :=
  !(r.ends ⟨prev, rest⟩).isEmpty ||
    match rest with
    | [] => false
    | c :: rest => searchFrom r (some c) rest

/-- `pattern.search(text)` finds a match. -/
def search (r : Regex) (text : List Char) : Bool := r.searchFrom none text

/-- From a position on, behind so many characters of a match that is replaced. -/
def subFrom (r : Regex) (repl : List Char) : Nat → Option Char → List Char → List Char
  | _, _, [] => []
  | skip + 1, _, c :: rest => subFrom r repl skip (some c) rest
  | 0, prev, c :: rest =>
    match (r.ends ⟨prev, c :: rest⟩).head? with
    | none => c :: subFrom r repl 0 (some c) rest
    | some stop => repl ++ subFrom r repl (rest.length - stop.rest.length) (some c) rest

/-- `pattern.sub(repl, text)`, for a pattern that matches no empty text. -/
def sub (r : Regex) (repl text : List Char) : List Char := r.subFrom repl 0 none text

/-- The character before what is behind `m`. -/
def lastOr (prev : Option Char) (m : List Char) : Option Char := m.getLast?.or prev

/-- The first character of `m` and what is behind it. -/
def headOr (m : List Char) (next : Option Char) : Option Char := m.head?.or next

/-- The expression matches `m` between these characters. -/
def Spans : Regex → Option Char → List Char → Option Char → Prop
  | empty, _, m, _ => m = []
  | set p, _, m, _ => ∃ c, p c = true ∧ m = [c]
  | seq a b, prev, m, next => ∃ m₁ m₂, m = m₁ ++ m₂ ∧ a.Spans prev m₁ (headOr m₂ next) ∧
      b.Spans (lastOr prev m₁) m₂ next
  | alt a b, prev, m, next => a.Spans prev m next ∨ b.Spans prev m next
  | many p, _, m, _ => ∀ c ∈ m, p c = true
  | look q, prev, m, next => m = [] ∧ q prev next = true

/-- Some part of the text is matched, behind a character. -/
def OccursIn (r : Regex) (prev : Option Char) (text : List Char) : Prop :=
  ∃ a m b, text = a ++ m ++ b ∧ r.Spans (lastOr prev a) m b.head?

section Matching

variable {r : Regex} {prev next : Option Char} {m a b rest text repl : List Char}

@[simp] theorem lastOr_nil (prev : Option Char) : lastOr prev [] = prev := rfl

@[simp] theorem headOr_nil (next : Option Char) : headOr [] next = next := rfl

theorem lastOr_append (prev : Option Char) (a b : List Char) :
    lastOr prev (a ++ b) = lastOr (lastOr prev a) b := by
  rw [lastOr, lastOr, lastOr, List.getLast?_append, Option.or_assoc]

@[simp] theorem lastOr_cons (prev : Option Char) (c : Char) (a : List Char) :
    lastOr prev (c :: a) = lastOr (some c) a := by
  rw [← List.singleton_append, lastOr_append]
  rfl

theorem head?_append_eq (m b : List Char) : (m ++ b).head? = headOr m b.head? := List.head?_append

theorem headOr_append (a b : List Char) (next : Option Char) :
    headOr (a ++ b) next = headOr a (headOr b next) := by
  rw [headOr, headOr, headOr, List.head?_append, Option.or_assoc]

theorem headOr_of_ne_nil (h : m ≠ []) (next : Option Char) : headOr m next = m.head? := by
  obtain ⟨c, rest, rfl⟩ := List.exists_cons_of_ne_nil h
  rfl

theorem lastOr_of_ne_nil (h : m ≠ []) (prev : Option Char) : lastOr prev m = m.getLast? := by
  rw [lastOr, List.getLast?_eq_some_getLast h]
  rfl

theorem exists_of_mem_manyEnds {p : Char → Bool} {stop : Position}
    (h : stop ∈ manyEnds p prev rest) :
    ∃ m, rest = m ++ stop.rest ∧ stop.prev = lastOr prev m ∧ ∀ c ∈ m, p c = true := by
  induction rest generalizing prev with
  | nil =>
    rw [manyEnds, List.mem_singleton] at h
    rw [h]
    exact ⟨[], rfl, rfl, List.forall_mem_nil _⟩
  | cons c rest ih =>
    rw [manyEnds] at h
    by_cases hc : p c = true
    · rw [if_pos hc, List.mem_append, List.mem_singleton] at h
      rcases h with h | h
      · obtain ⟨m, hrest, hprev, hall⟩ := ih h
        refine ⟨c :: m, by rw [hrest]; rfl, ?_, List.forall_mem_cons.mpr ⟨hc, hall⟩⟩
        rw [lastOr_cons]
        exact hprev
      · rw [h]
        exact ⟨[], rfl, rfl, List.forall_mem_nil _⟩
    · rw [if_neg hc, List.mem_singleton] at h
      rw [h]
      exact ⟨[], rfl, rfl, List.forall_mem_nil _⟩

theorem mem_manyEnds {p : Char → Bool} (hm : ∀ c ∈ m, p c = true) (rest : List Char) :
    ⟨lastOr prev m, rest⟩ ∈ manyEnds p prev (m ++ rest) := by
  induction m generalizing prev with
  | nil =>
    cases rest with
    | nil => exact List.mem_singleton_self _
    | cons c rest =>
      rw [List.nil_append, manyEnds]
      split
      · exact List.mem_append_right _ (List.mem_singleton_self _)
      · exact List.mem_singleton_self _
  | cons c m ih =>
    obtain ⟨hc, hm⟩ := List.forall_mem_cons.mp hm
    rw [List.cons_append, manyEnds, if_pos hc, lastOr_cons]
    exact List.mem_append_left _ (ih hm)

/-- As many characters as there are come first. -/
theorem head?_manyEnds {p : Char → Bool} {q rest : List Char} (hq : ∀ c ∈ q, p c = true)
    (hrest : ∀ c ∈ rest.head?, p c = false) (prev : Option Char) :
    (manyEnds p prev (q ++ rest)).head? = some ⟨lastOr prev q, rest⟩ := by
  induction q generalizing prev with
  | nil =>
    cases rest with
    | nil => rfl
    | cons c rest =>
      rw [List.nil_append, manyEnds, if_neg (by simp [hrest c rfl])]
      rfl
  | cons c q ih =>
    obtain ⟨hc, hq⟩ := List.forall_mem_cons.mp hq
    rw [List.cons_append, manyEnds, if_pos hc, List.head?_append, ih hq, lastOr_cons]
    rfl

/-- What is before an end is matched. -/
theorem exists_spans_of_mem_ends {r : Regex} {start stop : Position} (h : stop ∈ r.ends start) :
    ∃ m, start.rest = m ++ stop.rest ∧ stop.prev = lastOr start.prev m ∧
      r.Spans start.prev m stop.rest.head? := by
  induction r generalizing start stop with
  | empty =>
    rw [ends, List.mem_singleton] at h
    rw [h]
    exact ⟨[], rfl, rfl, rfl⟩
  | set p =>
    obtain ⟨prev, rest⟩ := start
    cases rest with
    | nil => cases h
    | cons c rest =>
      change stop ∈ if p c then [(⟨some c, rest⟩ : Position)] else [] at h
      by_cases hc : p c = true
      · rw [if_pos hc, List.mem_singleton] at h
        rw [h]
        exact ⟨[c], rfl, rfl, c, hc, rfl⟩
      · rw [if_neg hc] at h
        cases h
  | seq a b iha ihb =>
    rw [ends, List.mem_flatMap] at h
    obtain ⟨middle, hmiddle, hstop⟩ := h
    obtain ⟨m₁, hrest₁, hprev₁, h₁⟩ := iha hmiddle
    obtain ⟨m₂, hrest₂, hprev₂, h₂⟩ := ihb hstop
    rw [hrest₂, head?_append_eq] at h₁
    rw [hprev₁] at h₂ hprev₂
    refine ⟨m₁ ++ m₂, by rw [hrest₁, hrest₂, List.append_assoc], ?_, m₁, m₂, rfl, h₁, h₂⟩
    rw [lastOr_append]
    exact hprev₂
  | alt a b iha ihb =>
    rw [ends, List.mem_append] at h
    rcases h with h | h
    · obtain ⟨m, hrest, hprev, hspans⟩ := iha h
      exact ⟨m, hrest, hprev, .inl hspans⟩
    · obtain ⟨m, hrest, hprev, hspans⟩ := ihb h
      exact ⟨m, hrest, hprev, .inr hspans⟩
  | many p => exact exists_of_mem_manyEnds h
  | look q =>
    by_cases hq : q start.prev start.rest.head? = true
    · rw [ends, if_pos hq, List.mem_singleton] at h
      rw [h]
      exact ⟨[], rfl, rfl, rfl, hq⟩
    · rw [ends, if_neg hq] at h
      cases h

/-- What is matched may be taken. -/
theorem mem_ends {r : Regex} (h : r.Spans prev m rest.head?) :
    ⟨lastOr prev m, rest⟩ ∈ r.ends ⟨prev, m ++ rest⟩ := by
  induction r generalizing prev m rest with
  | empty =>
    obtain rfl := h
    exact List.mem_singleton_self _
  | set p =>
    obtain ⟨c, hc, rfl⟩ := h
    show _ ∈ if p c then [(⟨some c, rest⟩ : Position)] else []
    rw [if_pos hc]
    exact List.mem_singleton_self _
  | seq a b iha ihb =>
    obtain ⟨m₁, m₂, rfl, h₁, h₂⟩ := h
    rw [ends, List.mem_flatMap, List.append_assoc, lastOr_append]
    rw [← head?_append_eq] at h₁
    exact ⟨_, iha h₁, ihb h₂⟩
  | alt a b iha ihb =>
    rw [ends, List.mem_append]
    rcases h with h | h
    · exact .inl (iha h)
    · exact .inr (ihb h)
  | many p => exact mem_manyEnds h rest
  | look q =>
    obtain ⟨rfl, hq⟩ := h
    rw [ends, if_pos (by exact hq)]
    exact List.mem_singleton_self _

/-- The expression matches at the beginning of a text. -/
def MatchesAt (r : Regex) (prev : Option Char) (text : List Char) : Prop :=
  ∃ m b, text = m ++ b ∧ r.Spans prev m b.head?

theorem ends_eq_nil_iff : r.ends ⟨prev, text⟩ = [] ↔ ¬ r.MatchesAt prev text := by
  rw [List.eq_nil_iff_forall_not_mem]
  constructor
  · rintro h ⟨m, b, rfl, hspans⟩
    exact h _ (mem_ends hspans)
  · intro h stop hstop
    obtain ⟨m, hrest, -, hspans⟩ := exists_spans_of_mem_ends hstop
    exact h ⟨m, stop.rest, hrest, hspans⟩

theorem occursIn_nil_iff : r.OccursIn prev [] ↔ r.MatchesAt prev [] := by
  constructor
  · rintro ⟨a, m, b, heq, hspans⟩
    have hnil := List.append_eq_nil_iff.mp heq.symm
    obtain ⟨rfl, rfl⟩ := List.append_eq_nil_iff.mp hnil.1
    exact ⟨[], b, by rw [hnil.2]; rfl, hspans⟩
  · rintro ⟨m, b, heq, hspans⟩
    exact ⟨[], m, b, heq, hspans⟩

theorem occursIn_cons_iff {c : Char} :
    r.OccursIn prev (c :: text) ↔ r.MatchesAt prev (c :: text) ∨ r.OccursIn (some c) text := by
  constructor
  · rintro ⟨a, m, b, heq, hspans⟩
    cases a with
    | nil => exact .inl ⟨m, b, heq, hspans⟩
    | cons d a =>
      obtain ⟨rfl, hrest⟩ := List.cons.inj heq
      rw [lastOr_cons] at hspans
      exact .inr ⟨a, m, b, hrest, hspans⟩
  · rintro (⟨m, b, heq, hspans⟩ | ⟨a, m, b, heq, hspans⟩)
    · exact ⟨[], m, b, heq, hspans⟩
    · refine ⟨c :: a, m, b, by rw [heq]; rfl, ?_⟩
      rw [lastOr_cons]
      exact hspans

/-- A search finds a match if there is one. -/
theorem searchFrom_iff : r.searchFrom prev text = true ↔ r.OccursIn prev text := by
  have hhere : ∀ prev text, (!(r.ends ⟨prev, text⟩).isEmpty) = true ↔ r.MatchesAt prev text := by
    intro prev text
    rw [Bool.not_eq_true', ← Bool.not_eq_true, List.isEmpty_iff, ends_eq_nil_iff, not_not]
  induction text generalizing prev with
  | nil => rw [searchFrom, Bool.or_false, hhere, occursIn_nil_iff]
  | cons c text ih =>
    rw [searchFrom, Bool.or_eq_true, hhere, occursIn_cons_iff]
    exact or_congr_right ih

theorem search_iff : r.search text = true ↔ r.OccursIn none text := searchFrom_iff

/-! ## Replacing -/

/-- The text with its matches replaced from left to right. -/
inductive Replaced (r : Regex) (repl : List Char) : Option Char → List Char → List Char → Prop
  | nil {prev : Option Char} : Replaced r repl prev [] []
  | keep {prev : Option Char} {c : Char} {rest out : List Char} : ¬ r.MatchesAt prev (c :: rest) →
      Replaced r repl (some c) rest out → Replaced r repl prev (c :: rest) (c :: out)
  | replace {prev : Option Char} {m rest out : List Char} : m ≠ [] →
      r.Spans prev m rest.head? → Replaced r repl (lastOr prev m) rest out →
      Replaced r repl prev (m ++ rest) (repl ++ out)

/-- A match has characters. -/
def Nonempty (r : Regex) : Prop := ∀ prev m next, r.Spans prev m next → m ≠ []

/-- Behind a match the rest of it is passed over. -/
theorem subFrom_append (r : Regex) (repl : List Char) (prev : Option Char) (m rest : List Char) :
    r.subFrom repl m.length prev (m ++ rest) = r.subFrom repl 0 (lastOr prev m) rest := by
  induction m generalizing prev with
  | nil => rfl
  | cons c m ih =>
    rw [List.length_cons, List.cons_append, subFrom, ih, lastOr_cons]

theorem replaced_subFrom (hr : r.Nonempty) (repl : List Char) (prev : Option Char)
    (text : List Char) : r.Replaced repl prev text (r.subFrom repl 0 prev text) := by
  induction hlen : text.length using Nat.strongRecOn generalizing prev text with
  | ind n ih =>
    cases text with
    | nil => exact .nil
    | cons c text =>
      rw [subFrom]
      cases hends : r.ends ⟨prev, c :: text⟩ with
      | nil => exact .keep (ends_eq_nil_iff.mp hends) (ih text.length (by rw [← hlen]; simp) _ _ rfl)
      | cons stop others =>
        obtain ⟨m, hrest, -, hspans⟩ :=
          exists_spans_of_mem_ends (hends ▸ List.mem_cons_self : stop ∈ r.ends ⟨prev, c :: text⟩)
        have hne := hr _ _ _ hspans
        obtain ⟨d, m, rfl⟩ := List.exists_cons_of_ne_nil hne
        obtain ⟨rfl, htail⟩ := List.cons.inj hrest
        have htext : text = m ++ stop.rest := htail
        have hskip : text.length - stop.rest.length = m.length := by
          rw [htext, List.length_append]
          omega
        show r.Replaced repl prev (c :: text)
          (repl ++ r.subFrom repl (text.length - stop.rest.length) (some c) text)
        rw [hskip, htext, subFrom_append, ← lastOr_cons prev]
        refine .replace (m := c :: m) hne hspans (ih stop.rest.length ?_ _ _ rfl)
        rw [← hlen, htext, List.length_cons, List.length_append]
        omega

theorem replaced_sub (hr : r.Nonempty) (repl text : List Char) :
    r.Replaced repl none text (r.sub repl text) := replaced_subFrom hr repl none text

/-- Without a match nothing is replaced. -/
theorem Replaced.eq_of_not_occursIn {out : List Char} (h : r.Replaced repl prev text out)
    (hnone : ¬ r.OccursIn prev text) : out = text := by
  induction h with
  | nil => rfl
  | keep hkeep _ ih => rw [ih fun h => hnone (occursIn_cons_iff.mpr (.inr h))]
  | replace hne hspans _ _ => exact absurd ⟨[], _, _, rfl, hspans⟩ hnone

/-! ## Matches that replacing brings in -/

/-- The assertions of an expression. -/
def looks : Regex → List (Option Char → Option Char → Bool)
  | look q => [q]
  | seq a b | alt a b => a.looks ++ b.looks
  | empty | set _ | many _ => []

/-- What the expression asserts in the first place holds in the second. -/
def Implies (r : Regex) (prev next prev' next' : Option Char) : Prop :=
  ∀ q ∈ r.looks, q prev next = true → q prev' next' = true

theorem implies_refl (r : Regex) (prev next : Option Char) : r.Implies prev next prev next :=
  fun _ _ h => h

variable {q : Regex} {prev' next' : Option Char} {out : List Char}

/-- Between two parts of a match nothing is asserted about what is around it. -/
theorem Implies.between {m₁ m₂ : List Char}
    (hstart : r.Implies prev (headOr (m₁ ++ m₂) next) prev' (headOr (m₁ ++ m₂) next'))
    (hstop : r.Implies (lastOr prev (m₁ ++ m₂)) next (lastOr prev' (m₁ ++ m₂)) next') :
    r.Implies (lastOr prev m₁) (headOr m₂ next) (lastOr prev' m₁) (headOr m₂ next') := by
  by_cases h₁ : m₁ = []
  · rw [h₁] at hstart ⊢
    exact hstart
  · by_cases h₂ : m₂ = []
    · rw [h₂, List.append_nil] at hstop
      rw [h₂]
      exact hstop
    · rw [lastOr_of_ne_nil h₁, lastOr_of_ne_nil h₁, headOr_of_ne_nil h₂, headOr_of_ne_nil h₂]
      exact implies_refl r _ _

/-- A match stays one where its assertions hold. -/
theorem Spans.context (h : r.Spans prev m next)
    (hstart : r.Implies prev (headOr m next) prev' (headOr m next'))
    (hstop : r.Implies (lastOr prev m) next (lastOr prev' m) next') : r.Spans prev' m next' := by
  induction r generalizing prev m next prev' next' with
  | empty | set _ | many _ => exact h
  | seq a b iha ihb =>
    obtain ⟨m₁, m₂, rfl, h₁, h₂⟩ := h
    have hbetween := Implies.between hstart hstop
    rw [headOr_append, headOr_append] at hstart
    rw [lastOr_append, lastOr_append] at hstop
    refine ⟨m₁, m₂, rfl, iha h₁ ?_ ?_, ihb h₂ ?_ ?_⟩
    · exact fun l hl => hstart l (List.mem_append_left _ hl)
    · exact fun l hl => hbetween l (List.mem_append_left _ hl)
    · exact fun l hl => hbetween l (List.mem_append_right _ hl)
    · exact fun l hl => hstop l (List.mem_append_right _ hl)
  | alt a b iha ihb =>
    rcases h with h | h
    · exact .inl (iha h (fun l hl => hstart l (List.mem_append_left _ hl))
        fun l hl => hstop l (List.mem_append_left _ hl))
    · exact .inr (ihb h (fun l hl => hstart l (List.mem_append_right _ hl))
        fun l hl => hstop l (List.mem_append_right _ hl))
  | look l =>
    obtain ⟨rfl, hl⟩ := h
    exact ⟨rfl, hstart l (List.mem_singleton_self _) hl⟩

/-- A match of `q` cannot touch `repl` where it stands for a match of `r`: it has neither of the
characters at its ends, has one that `repl` has not, and asserts beside `repl` nothing that does
not hold beside the match. -/
structure Masks (r q : Regex) (repl : List Char) : Prop where
  ne_nil : repl ≠ []
  start : ∀ prev m next, r.Spans prev m next → q.Implies prev repl.head? prev m.head?
  stop : ∀ prev m next, r.Spans prev m next → q.Implies repl.getLast? next m.getLast? next
  apart : ∀ prev m next, q.Spans prev m next →
    (∀ c ∈ repl.head?, c ∉ m) ∧ (∀ c ∈ repl.getLast?, c ∉ m) ∧ ∃ c ∈ m, c ∉ repl

/-- What comes before the first replacement was there before. -/
theorem Masks.of_prefix (hmasks : Masks r q repl) (h : r.Replaced repl prev text out)
    (hout : out = m ++ b) (hm : ∀ c ∈ repl.head?, c ∉ m) :
    ∃ b', text = m ++ b' ∧ q.Implies (lastOr prev m) b.head? (lastOr prev m) b'.head? := by
  induction h generalizing m with
  | nil =>
    obtain ⟨rfl, rfl⟩ := List.append_eq_nil_iff.mp hout.symm
    exact ⟨[], rfl, implies_refl q _ _⟩
  | @keep prev c rest out _ _ ih =>
    cases m with
    | nil =>
      rw [List.nil_append] at hout
      rw [← hout]
      exact ⟨c :: rest, rfl, implies_refl q _ _⟩
    | cons d m =>
      obtain ⟨rfl, htail⟩ := List.cons.inj hout
      obtain ⟨b', hrest, himplies⟩ := ih htail fun e he hmem => hm e he (List.mem_cons_of_mem _ hmem)
      rw [← lastOr_cons prev] at himplies
      exact ⟨b', by rw [hrest]; rfl, himplies⟩
  | @replace prev m' rest out hne hspans _ _ =>
    obtain ⟨e, repl', hrepl⟩ := List.exists_cons_of_ne_nil hmasks.ne_nil
    cases m with
    | nil =>
      refine ⟨m' ++ rest, rfl, ?_⟩
      have hstart := hmasks.start _ _ _ hspans
      rw [List.nil_append] at hout
      rw [← hout, head?_append_eq, head?_append_eq, headOr_of_ne_nil hmasks.ne_nil,
        headOr_of_ne_nil hne]
      exact hstart
    | cons d m =>
      rw [hrepl] at hout hm
      obtain ⟨rfl, -⟩ := List.cons.inj hout
      exact absurd List.mem_cons_self (hm e rfl)

/-- Where every match of `q` stands at a match of `r`, replacing leaves none. -/
theorem Masks.not_occursIn (hmasks : Masks r q repl) (h : r.Replaced repl prev text out)
    (hcovered : ∀ a b, text = a ++ b → q.MatchesAt (lastOr prev a) b → r.MatchesAt (lastOr prev a) b)
    (hprev : q.Implies prev' text.head? prev text.head?) : ¬ q.OccursIn prev' out := by
  induction h generalizing prev' with
  | nil =>
    intro hoccurs
    obtain ⟨m, b, heq, hspans⟩ := occursIn_nil_iff.mp hoccurs
    obtain ⟨-, -, c, hc, -⟩ := hmasks.apart _ _ _ hspans
    rw [(List.append_eq_nil_iff.mp heq.symm).1] at hc
    cases hc
  | @keep prev c rest out hkeep hrest ih =>
    rw [occursIn_cons_iff]
    rintro (⟨m, b, heq, hspans⟩ | hoccurs)
    · obtain ⟨hhead, -, d, hd, -⟩ := hmasks.apart _ _ _ hspans
      have hne : m ≠ [] := List.ne_nil_of_mem hd
      obtain ⟨b', htext, himplies⟩ := hmasks.of_prefix (.keep hkeep hrest) heq hhead
      have hfirst : (c :: rest).head? = m.head? := by
        rw [htext, head?_append_eq, headOr_of_ne_nil hne]
      apply hkeep
      refine hcovered [] (c :: rest) rfl ⟨m, b', htext, hspans.context ?_ ?_⟩
      · rw [headOr_of_ne_nil hne, headOr_of_ne_nil hne, ← hfirst]
        exact hprev
      · rw [lastOr_of_ne_nil hne, lastOr_nil, lastOr_of_ne_nil hne]
        rw [lastOr_of_ne_nil hne] at himplies
        exact himplies
    · refine ih (fun a b heq hmatch => ?_) (implies_refl q _ _) hoccurs
      have hlater := hcovered (c :: a) b (by rw [heq]; rfl)
      rw [lastOr_cons] at hlater
      exact hlater hmatch
  | @replace prev m' rest out hne hspans _ ih =>
    -- behind the replacement the text is as it was behind the match
    have hbehind : ∀ prev', ¬ q.OccursIn (lastOr prev' repl) out := by
      intro prev'
      refine ih (fun a b heq hmatch => ?_) ?_
      · have hlater := hcovered (m' ++ a) b (by rw [heq, List.append_assoc])
        rw [lastOr_append] at hlater
        exact hlater hmatch
      · rw [lastOr_of_ne_nil hmasks.ne_nil, lastOr_of_ne_nil hne]
        exact hmasks.stop _ _ _ hspans
    rintro ⟨a, m, b, heq, hmatch⟩
    obtain ⟨-, hlast, c, hc, hfresh⟩ := hmasks.apart _ _ _ hmatch
    rw [List.append_assoc] at heq
    rcases List.append_eq_append_iff.mp heq with ⟨d, rfl, hout⟩ | ⟨d, hrepl, hm⟩
    · rw [lastOr_append] at hmatch
      exact hbehind prev' ⟨d, m, b, by rw [hout, List.append_assoc], hmatch⟩
    · -- the match would begin in the replacement
      rcases List.append_eq_append_iff.mp hm with ⟨e, rfl, -⟩ | ⟨e, rfl, hout⟩
      · apply hfresh
        rw [hrepl]
        exact List.mem_append_right _ (List.mem_append_left _ hc)
      · cases d with
        | nil =>
          rw [List.append_nil] at hrepl
          rw [← hrepl] at hmatch
          exact hbehind prev' ⟨[], e, b, by rw [hout]; rfl, hmatch⟩
        | cons f d =>
          have hend : repl.getLast? = (f :: d).getLast? := by
            rw [hrepl, List.getLast?_append_of_ne_nil _ (List.cons_ne_nil f d)]
          refine hlast _ (by rw [hend]; exact List.getLast?_eq_some_getLast (List.cons_ne_nil f d)) ?_
          exact List.mem_append_left _ (List.getLast_mem _)

/-- An expression whose matches cannot touch the replacement has none left. -/
theorem Masks.not_occursIn_sub_self (hmasks : Masks r r repl) (text : List Char) :
    ¬ r.OccursIn none (r.sub repl text) := by
  refine hmasks.not_occursIn (replaced_sub (fun prev m next hspans => ?_) repl text)
    (fun _ _ _ h => h) (implies_refl r _ _)
  obtain ⟨-, -, c, hc, -⟩ := hmasks.apart _ _ _ hspans
  exact List.ne_nil_of_mem hc

/-- Replacing matches brings in none of another expression. -/
theorem Masks.not_occursIn_sub (hmasks : Masks r q repl) (hr : r.Nonempty)
    (hnone : ¬ q.OccursIn none text) : ¬ q.OccursIn none (r.sub repl text) := by
  refine hmasks.not_occursIn (replaced_sub hr repl text) (fun a b heq hmatch => ?_)
    (implies_refl q _ _)
  obtain ⟨m, b', rfl, hspans⟩ := hmatch
  exact absurd ⟨a, m, b', by rw [heq, List.append_assoc], hspans⟩ hnone

/-! ## The characters of a match -/

/-- Every character of a match has the property. -/
def Within (P : Char → Prop) : Regex → Prop
  | set p | many p => ∀ c, p c = true → P c
  | seq a b | alt a b => a.Within P ∧ b.Within P
  | empty | look _ => True

/-- A match has a character with the property. -/
def Has (P : Char → Prop) : Regex → Prop
  | set p => ∀ c, p c = true → P c
  | seq a b => a.Has P ∨ b.Has P
  | alt a b => a.Has P ∧ b.Has P
  | empty | many _ | look _ => False

/-- The expression asserts `l` first. -/
def StartsIn (l : Option Char → Option Char → Bool) : Regex → Prop
  | look q => q = l
  | seq a _ => a.StartsIn l
  | empty | set _ | many _ | alt _ _ => False

/-- The expression asserts `l` last. -/
def EndsIn (l : Option Char → Option Char → Bool) : Regex → Prop
  | look q => q = l
  | seq _ b => b.EndsIn l
  | empty | set _ | many _ | alt _ _ => False

variable {P : Char → Prop} {l : Option Char → Option Char → Bool}

theorem Spans.forall_mem (h : r.Spans prev m next) (hr : r.Within P) : ∀ c ∈ m, P c := by
  induction r generalizing prev m next with
  | empty =>
    obtain rfl := h
    exact List.forall_mem_nil _
  | set p =>
    obtain ⟨c, hc, rfl⟩ := h
    exact List.forall_mem_singleton.mpr (hr c hc)
  | seq a b iha ihb =>
    obtain ⟨m₁, m₂, rfl, h₁, h₂⟩ := h
    exact List.forall_mem_append.mpr ⟨iha h₁ hr.1, ihb h₂ hr.2⟩
  | alt a b iha ihb =>
    rcases h with h | h
    · exact iha h hr.1
    · exact ihb h hr.2
  | many p => exact fun c hc => hr c (h c hc)
  | look q =>
    obtain ⟨rfl, -⟩ := h
    exact List.forall_mem_nil _

theorem Spans.exists_mem (h : r.Spans prev m next) (hr : r.Has P) : ∃ c ∈ m, P c := by
  induction r generalizing prev m next with
  | empty | many _ | look _ => cases hr
  | set p =>
    obtain ⟨c, hc, rfl⟩ := h
    exact ⟨c, List.mem_singleton_self c, hr c hc⟩
  | seq a b iha ihb =>
    obtain ⟨m₁, m₂, rfl, h₁, h₂⟩ := h
    rcases hr with hr | hr
    · obtain ⟨c, hc, hP⟩ := iha h₁ hr
      exact ⟨c, List.mem_append_left _ hc, hP⟩
    · obtain ⟨c, hc, hP⟩ := ihb h₂ hr
      exact ⟨c, List.mem_append_right _ hc, hP⟩
  | alt a b iha ihb =>
    rcases h with h | h
    · exact iha h hr.1
    · exact ihb h hr.2

theorem Spans.startsIn (h : r.Spans prev m next) (hr : r.StartsIn l) :
    l prev (headOr m next) = true := by
  induction r generalizing prev m next with
  | empty | set _ | many _ | alt _ _ _ _ => cases hr
  | look q =>
    obtain rfl := hr
    obtain ⟨rfl, hq⟩ := h
    exact hq
  | seq a b iha _ =>
    obtain ⟨m₁, m₂, rfl, h₁, -⟩ := h
    rw [headOr_append]
    exact iha h₁ hr

theorem Spans.endsIn (h : r.Spans prev m next) (hr : r.EndsIn l) :
    l (lastOr prev m) next = true := by
  induction r generalizing prev m next with
  | empty | set _ | many _ | alt _ _ _ _ => cases hr
  | look q =>
    obtain rfl := hr
    obtain ⟨rfl, hq⟩ := h
    exact hq
  | seq a b _ ihb =>
    obtain ⟨m₁, m₂, rfl, -, h₂⟩ := h
    rw [lastOr_append]
    exact ihb h₂ hr

theorem within_pow {a : Regex} (h : a.Within P) (n : Nat) : (a.pow n).Within P := by
  induction n with
  | zero => trivial
  | succ n ih => exact ⟨h, ih⟩

theorem within_upTo {a : Regex} (h : a.Within P) (n : Nat) : (a.upTo n).Within P := by
  induction n with
  | zero => trivial
  | succ n ih => exact ⟨⟨h, ih⟩, trivial⟩

end Matching

end Regex

/-! ## The classes of characters -/

/-- The Unicode classes of `re`. -/
structure CharClasses where
  /-- `\d` -/
  digit : Char → Bool
  /-- `\w` -/
  word : Char → Bool

/-- The digits of ASCII are its digits. -/
structure CharClasses.Lawful (d : CharClasses) : Prop where
  digit_ascii : ∀ c, c.toNat < 128 → d.digit c = c.isDigit

/-- `\b` -/
def CharClasses.boundary (d : CharClasses) (prev next : Option Char) : Bool :=
  prev.any d.word != next.any d.word

/-- The classes for ASCII text. -/
def asciiClasses : CharClasses where
  digit := Char.isDigit
  word c := c.isAlphanum || c == '_'

theorem asciiClasses_lawful : asciiClasses.Lawful := ⟨fun _ _ => rfl⟩

end LlmService
