import Mathlib.Algebra.GroupWithZero.Nat
import LlmService.Lib.Infix

/-!
# Text cut at a byte

A text in UTF-8, cut after some bytes and decoded with `errors="replace"`: the
characters that are whole, and one U+FFFD for a character that the cut splits.
-/

namespace LlmService.PyText

/-- U+FFFD. -/
def replacementChar : Char := '\uFFFD'

/-- The length of a text in UTF-8. -/
def utf8Length (text : List Char) : Nat := (text.map Char.utf8Size).sum

/-- The first bytes of a text, decoded. -/
def decodeBytes : List Char → Nat → List Char
  | [], _ => []
  | c :: rest, bytes =>
    if bytes = 0 then []
    else if c.utf8Size ≤ bytes then c :: decodeBytes rest (bytes - c.utf8Size)
    else [replacementChar]

/-- The cut is inside the character between the two parts of the text. -/
structure SplitsChar (text : List Char) (bytes : Nat) (before : List Char) (c : Char)
    (after : List Char) : Prop where
  parts : text = before ++ c :: after
  starts : utf8Length before < bytes
  ends : bytes < utf8Length before + c.utf8Size

@[simp] theorem utf8Length_nil : utf8Length [] = 0 := rfl

@[simp] theorem utf8Length_cons (c : Char) (rest : List Char) :
    utf8Length (c :: rest) = c.utf8Size + utf8Length rest := rfl

@[simp] theorem decodeBytes_zero (text : List Char) : decodeBytes text 0 = [] := by
  cases text <;> rfl

theorem decodeBytes_cons_of_le {c : Char} {bytes : Nat} (h : c.utf8Size ≤ bytes)
    (rest : List Char) :
    decodeBytes (c :: rest) bytes = c :: decodeBytes rest (bytes - c.utf8Size) := by
  have hpos := c.utf8Size_pos
  rw [decodeBytes, if_neg (by omega), if_pos h]

/-- A cut that splits a character leaves what is before it, and U+FFFD. -/
theorem decodeBytes_of_splits {text before after : List Char} {bytes : Nat} {c : Char}
    (h : SplitsChar text bytes before c after) :
    decodeBytes text bytes = before ++ [replacementChar] := by
  obtain ⟨rfl, hstarts, hends⟩ := h
  induction before generalizing bytes with
  | nil =>
    simp only [utf8Length_nil, Nat.zero_add] at hstarts hends
    rw [List.nil_append, decodeBytes, if_neg (by omega), if_neg (by omega)]
    rfl
  | cons d before ih =>
    simp only [utf8Length_cons] at hstarts hends
    rw [List.cons_append, decodeBytes_cons_of_le (by omega), List.cons_append,
      ih (by omega) (by omega)]

/-- Any other cut leaves a prefix of the text. -/
theorem decodeBytes_cases (text : List Char) (bytes : Nat) :
    decodeBytes text bytes <+: text ∨
      ∃ before c after, SplitsChar text bytes before c after := by
  induction text generalizing bytes with
  | nil => exact .inl List.prefix_rfl
  | cons c rest ih =>
    by_cases hzero : bytes = 0
    · rw [hzero, decodeBytes_zero]
      exact .inl List.nil_prefix
    · by_cases hwhole : c.utf8Size ≤ bytes
      · rw [decodeBytes_cons_of_le hwhole]
        rcases ih (bytes - c.utf8Size) with h | ⟨before, d, after, h⟩
        · exact .inl (List.prefix_cons_inj c |>.mpr h)
        · refine .inr ⟨c :: before, d, after, ?_, ?_, ?_⟩
          · rw [h.parts, List.cons_append]
          · have := h.starts
            simp only [utf8Length_cons]
            omega
          · have := h.ends
            simp only [utf8Length_cons]
            omega
      · exact .inr ⟨[], c, rest, rfl, by simp; omega, by simp; omega⟩

/-! ## Where a text may end -/

/-- `part` begins the text, and stops before white space or at the end. -/
structure EndsAtWord (text part : List Char) : Prop where
  isPrefix : part <+: text
  boundary : part = [] ∨ ∀ c ∈ text[part.length]?, isSpace c = true

/-- Stripping a part keeps it at a word's end. -/
theorem endsAtWord_rstrip {text part : List Char} (h : part <+: text)
    (hboundary : ∀ c ∈ text[part.length]?, isSpace c = true) : EndsAtWord text (rstrip part) := by
  refine ⟨(rstrip_isPrefix part).trans h, .inr ?_⟩
  obtain ⟨blank, hpart, hblank⟩ := exists_rstrip_append part
  generalize rstrip part = kept at hpart
  subst hpart
  obtain ⟨rest, rfl⟩ := h
  cases blank with
  | nil => simpa using hboundary
  | cons d blank =>
    intro c hc
    obtain rfl : d = c := by simpa using hc
    exact hblank d List.mem_cons_self

theorem rfind_eq_some {c : Char} {text : List Char} {i : Nat} (h : rfind c text = some i) :
    text[i]? = some c := by
  rw [rfind, Option.map_eq_some_iff] at h
  obtain ⟨j, hj, rfl⟩ := h
  obtain ⟨hlt, hc, -⟩ := List.findIdx?_eq_some_iff_getElem.mp hj
  rw [List.length_reverse] at hlt
  rw [List.getElem_reverse] at hc
  rw [List.getElem?_eq_getElem (by omega)]
  simpa using hc

end LlmService.PyText
