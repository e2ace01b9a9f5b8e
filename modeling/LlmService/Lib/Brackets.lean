import Mathlib.Data.List.Basic

/-!
# Balanced brackets

A scan of a text with a stack of the brackets that are still to be closed. It
ends with nothing open if and only if the text is a word of the grammar of
balanced brackets (`scan_eq_some_nil_iff`).
-/

namespace LlmService.Brackets

variable {α : Type} [DecidableEq α]

/-- The brackets that are to be closed behind the text, the last one first; `none` if one is
closed that is not open there. -/
def scan (pairs : List (α × α)) : List α → List α → Option (List α)
  | stack, [] => some stack
  | stack, ch :: rest =>
    match pairs.lookup ch with
    | some close => scan pairs (close :: stack) rest
    | none =>
      if ch ∈ pairs.map Prod.snd then
        if stack.head? = some ch then scan pairs stack.tail rest else none
      else scan pairs stack rest

/-- The grammar of balanced brackets, with other characters in between. -/
inductive Balanced (pairs : List (α × α)) : List α → Prop
  | nil : Balanced pairs []
  | plain {c : α} {w : List α} : pairs.lookup c = none → c ∉ pairs.map Prod.snd →
      Balanced pairs w → Balanced pairs (c :: w)
  | nest {o c : α} {u w : List α} : pairs.lookup o = some c → Balanced pairs u →
      Balanced pairs w → Balanced pairs (o :: (u ++ c :: w))

/-- The text closes these brackets one after another, and is balanced in between. -/
def Closes (pairs : List (α × α)) : List α → List α → Prop
  | [], w => Balanced pairs w
  | c :: stack, w => ∃ u v, w = u ++ c :: v ∧ Balanced pairs u ∧ Closes pairs stack v

variable {pairs : List (α × α)} {stack w : List α} {ch o close : α}

theorem scan_open (h : pairs.lookup ch = some close) (stack w : List α) :
    scan pairs stack (ch :: w) = scan pairs (close :: stack) w := by
  rw [scan, h]

theorem scan_plain (h : pairs.lookup ch = none) (hclose : ch ∉ pairs.map Prod.snd)
    (stack w : List α) : scan pairs stack (ch :: w) = scan pairs stack w := by
  rw [scan, h]
  exact if_neg hclose

theorem scan_close (h : pairs.lookup ch = none) (hclose : ch ∈ pairs.map Prod.snd)
    (stack w : List α) :
    scan pairs stack (ch :: w) = if stack.head? = some ch then scan pairs stack.tail w else none := by
  rw [scan, h]
  exact if_pos hclose

theorem mem_snd_of_lookup (h : pairs.lookup o = some close) : close ∈ pairs.map Prod.snd := by
  induction pairs with
  | nil => cases h
  | cons pair pairs ih =>
    rw [List.lookup_cons] at h
    split at h
    · rw [← Option.some.inj h]
      exact List.mem_cons_self
    · exact List.mem_cons_of_mem _ (ih h)

/-- A balanced text leaves the stack as it is. -/
theorem Balanced.scan_append (hclosers : ∀ c ∈ pairs.map Prod.snd, pairs.lookup c = none)
    (h : Balanced pairs w) (stack rest : List α) :
    scan pairs stack (w ++ rest) = scan pairs stack rest := by
  induction h generalizing stack rest with
  | nil => rfl
  | plain hopen hclose _ ih =>
    rw [List.cons_append, scan_plain hopen hclose]
    exact ih stack rest
  | @nest o c u w hopen _ _ ihu ihw =>
    have hmem := mem_snd_of_lookup hopen
    rw [List.cons_append, List.append_assoc, scan_open hopen, ihu, List.cons_append,
      scan_close (hclosers c hmem) hmem, if_pos List.head?_cons, List.tail_cons]
    exact ihw stack rest

/-- What closes a bracket more, behind an opening one. -/
theorem Closes.open (hopen : pairs.lookup o = some close) (h : Closes pairs (close :: stack) w) :
    Closes pairs stack (o :: w) := by
  obtain ⟨u, v, rfl, hu, hv⟩ := h
  cases stack with
  | nil => exact .nest hopen hu hv
  | cons c stack =>
    obtain ⟨u', v', rfl, hu', hv'⟩ := hv
    exact ⟨o :: (u ++ close :: u'), v', by simp, .nest hopen hu hu', hv'⟩

theorem Closes.plain (hopen : pairs.lookup ch = none) (hclose : ch ∉ pairs.map Prod.snd)
    (h : Closes pairs stack w) : Closes pairs stack (ch :: w) := by
  cases stack with
  | nil => exact .plain hopen hclose h
  | cons c stack =>
    obtain ⟨u, v, rfl, hu, hv⟩ := h
    exact ⟨ch :: u, v, rfl, .plain hopen hclose hu, hv⟩

theorem closes_of_scan (h : scan pairs stack w = some []) : Closes pairs stack w := by
  induction w generalizing stack with
  | nil =>
    obtain rfl := Option.some.inj h
    exact .nil
  | cons ch w ih =>
    cases hopen : pairs.lookup ch with
    | some close =>
      rw [scan_open hopen] at h
      exact (ih h).open hopen
    | none =>
      by_cases hclose : ch ∈ pairs.map Prod.snd
      · rw [scan_close hopen hclose] at h
        split at h
        · rename_i htop
          obtain ⟨rest, rfl⟩ := List.head?_eq_some_iff.mp htop
          exact ⟨[], w, rfl, .nil, ih h⟩
        · cases h
      · rw [scan_plain hopen hclose] at h
        exact (ih h).plain hopen hclose

/-- The scan ends with nothing open on balanced texts, and only on these. -/
theorem scan_eq_some_nil_iff (hclosers : ∀ c ∈ pairs.map Prod.snd, pairs.lookup c = none) :
    scan pairs [] w = some [] ↔ Balanced pairs w := by
  constructor
  · exact closes_of_scan
  · intro h
    have hscan := h.scan_append hclosers [] []
    rw [List.append_nil] at hscan
    exact hscan

end LlmService.Brackets
