import LlmService.ContextWindow.Models
import LlmService.Lib.Infix
import LlmService.Lib.Json
import LlmService.Lib.Regex

/-!
# Labels of an animation

`_label` of `visualization/manim_templates.py`. A label with a character that
is not on the list is rejected, unless it is a display line that is too long
and the character stands where the line is cut off: a shortened line is
checked after it is shortened.
-/

namespace LlmService

/-- `SpecError` -/
structure SpecError where
  message : String
  unsupported : Bool := false
  deriving DecidableEq, Repr

namespace ManimTemplates

def maxTitle : Int := 60

/-- `_TYPOGRAPHY` -/
def typography : List (Char × Char) :=
  [('\u2010', '-'), ('\u2011', '-'), ('\u2012', '-'), ('\u2013', '-'), ('\u2014', '-'),
    ('\u2212', '-'), ('\u2018', '\''), ('\u2019', '\''), ('\u201c', '\''), ('\u201d', '\''),
    ('\u2022', '-'), ('\u00a0', ' '), ('\u202f', ' ')]

/-- `value.translate(_TYPOGRAPHY)` -/
def translate (value : Text) : Text := value.map fun c => (typography.lookup c).getD c

/-- `value.translate(_TYPOGRAPHY).replace("…", "...")` -/
def plainForm (value : Text) : Text :=
  (translate value).flatMap fun c => if c = '…' then ['.', '.', '.'] else [c]

section Label

variable (word : Char → Bool)

/-- The characters of `_LABEL`; `word` is `\w`. -/
def labelChar (c : Char) : Bool := word c || " .,:+-*/=<>()[]#%'?!&→←↔≤≥≠".toList.contains c

/-- `_LABEL.match(text)`; its `$` also stands before a line break that ends the text. -/
def labelMatch (text : Text) : Bool :=
  let rest := text.dropWhile (labelChar word)
  text.head?.any (labelChar word) && (rest = [] || rest = ['\n'])

/-- The characters that `rstrip` takes off a line that is cut. -/
def cutEnds : Text := [' ', ',', '.', ';', ':', '-']

/-- `text`, shortened to the limit. -/
def clipLine (text : Text) (limit : Nat) : Text :=
  let cut := text.take (limit - 3)
  PyText.dropEndWhile (cutEnds.contains ·)
    (if ' ' ∈ cut.drop (limit / 2) then PyText.beforeLast ' ' cut else cut) ++ ['.', '.', '.']

/-- The text that is checked and returned. -/
def labelText (value : Text) (limit : Int) (clip : Bool) : Text :=
  let text := PyText.strip (plainForm value)
  if clip ∧ limit < text.length ∧ 3 < limit then clipLine text limit.toNat else text

/-- `_label` -/
def label (value : PyJson) (name : String) (limit : Int) (clip : Bool) : Except SpecError Text :=
  let error : SpecError :=
    { message := s!"{name} must be 1-{limit} plain characters (letters, digits and simple punctuation)" }
  match value with
  | .string value =>
    let value := PyText.strip (labelText value limit clip)
    if value = [] ∨ limit < value.length ∨ labelMatch word value = false then .error error
    else .ok value
  | _ => .error error

end Label

/-! ## Where a line is cut -/

/-- What stands before the cut: all before the last blank, where that is not in the first half of
the limit, else all that leaves room for three dots. -/
inductive CutsOff (text : Text) (limit : Nat) : Text → Prop
  | blank {kept after : Text} (hcut : text.take (limit - 3) = kept ++ ' ' :: after)
      (hafter : ' ' ∉ after) (hhalf : limit / 2 ≤ kept.length) : CutsOff text limit kept
  | whole (hblank : ' ' ∉ (text.take (limit - 3)).drop (limit / 2)) :
      CutsOff text limit (text.take (limit - 3))

/-- A character that is not on the list stands before the cut, and not merely among what is taken
off the end there. -/
def ShowsOther (word : Char → Bool) (text : Text) (limit : Nat) : Prop :=
  ∃ kept, CutsOff text limit kept ∧ ∃ a c b, kept = a ++ c :: b ∧ labelChar word c = false ∧
    ∃ x ∈ c :: b, x ∉ cutEnds

/-- The text has a character that is not on the list. -/
def HasOther (word : Char → Bool) (text : Text) : Prop := ∃ c ∈ text, labelChar word c = false

/-- A string with a character that is not on the list is no label. -/
def NeverRepaired (word : Char → Bool) (value : Text) (limit : Int) (clip : Bool) : Prop :=
  HasOther word (PyText.strip (plainForm value)) →
    ∀ name, ∃ error, label word (.string value) name limit clip = .error error

variable {word : Char → Bool} {text value kept : Text}

theorem exists_cutsOff (text : Text) (limit : Nat) : ∃ kept, CutsOff text limit kept := by
  by_cases hblank : ' ' ∈ (text.take (limit - 3)).drop (limit / 2)
  · obtain ⟨after, a, hsplit, hafter⟩ :=
      List.eq_append_cons_of_mem (List.mem_reverse.mpr hblank)
    have hdrop : (text.take (limit - 3)).drop (limit / 2) = a.reverse ++ ' ' :: after.reverse := by
      rw [← List.reverse_reverse ((text.take (limit - 3)).drop (limit / 2)), hsplit]
      simp
    have hlen := congrArg List.length hdrop
    simp only [List.length_drop, List.length_append, List.length_cons] at hlen
    have hcut : text.take (limit - 3) =
        ((text.take (limit - 3)).take (limit / 2) ++ a.reverse) ++ ' ' :: after.reverse := by
      rw [List.append_assoc, ← hdrop, List.take_append_drop]
    refine ⟨_, .blank hcut ?_ ?_⟩
    · exact fun hmem => hafter (List.mem_reverse.mp hmem)
    · rw [List.length_append, List.length_take]
      omega
  · exact ⟨_, .whole hblank⟩

theorem clipLine_of_cutsOff {limit : Nat} (h : CutsOff text limit kept) :
    clipLine text limit = PyText.dropEndWhile (cutEnds.contains ·) kept ++ ['.', '.', '.'] := by
  rw [clipLine]
  cases h with
  | @blank _ after hcut hafter hhalf =>
    have hblank : ' ' ∈ (kept ++ ' ' :: after).drop (limit / 2) := by
      rw [List.drop_append_of_le_length hhalf]
      exact List.mem_append_right _ List.mem_cons_self
    rw [hcut, if_pos hblank, PyText.beforeLast_append hafter]
  | whole hblank =>
    rw [if_neg hblank]

/-- A shortened line shows what stands before the cut. -/
theorem hasOther_clipLine_iff {limit : Nat} :
    HasOther word (clipLine text limit) ↔ ShowsOther word text limit := by
  have hdots : ∀ c ∈ (['.', '.', '.'] : Text), labelChar word c = true := by
    intro c hc
    obtain rfl : c = '.' := by simpa using hc
    simp [labelChar]
  constructor
  · rintro ⟨c, hc, hother⟩
    obtain ⟨kept, hkept⟩ := exists_cutsOff text limit
    rw [clipLine_of_cutsOff hkept] at hc
    rcases List.mem_append.mp hc with hc | hc
    · obtain ⟨a, b, hsplit, x, hx, hend⟩ := PyText.mem_dropEndWhile_iff.mp hc
      exact ⟨kept, hkept, a, c, b, hsplit, hother, x, hx, by simpa using hend⟩
    · rw [hdots c hc] at hother
      cases hother
  · rintro ⟨kept, hkept, a, c, b, hsplit, hother, x, hx, hend⟩
    refine ⟨c, ?_, hother⟩
    rw [clipLine_of_cutsOff hkept]
    exact List.mem_append_left _
      (PyText.mem_dropEndWhile_iff.mpr ⟨a, b, hsplit, x, hx, by simpa using hend⟩)

/-! ## Labels -/

theorem labelMatch_iff (hlast : ∀ c ∈ text.getLast?, PyText.isSpace c = false) :
    labelMatch word text = true ↔ text ≠ [] ∧ ¬ HasOther word text := by
  have hline : text.dropWhile (labelChar word) ≠ ['\n'] := by
    intro hline
    have hsuffix := List.dropWhile_suffix (labelChar word) (l := text)
    rw [hline] at hsuffix
    obtain ⟨a, rfl⟩ := hsuffix
    have := hlast '\n' (by simp)
    exact absurd this (by decide)
  have hall : text.dropWhile (labelChar word) = [] ↔ ¬ HasOther word text := by
    rw [List.dropWhile_eq_nil_iff, HasOther]
    simp
  rw [labelMatch, decide_eq_false hline, Bool.or_false, Bool.and_eq_true, decide_eq_true_eq, hall]
  constructor
  · rintro ⟨hhead, hother⟩
    refine ⟨?_, hother⟩
    rintro rfl
    cases hhead
  · rintro ⟨hne, hother⟩
    refine ⟨?_, hother⟩
    cases text with
    | nil => exact absurd rfl hne
    | cons c rest =>
      by_contra hc
      exact hother ⟨c, List.mem_cons_self, by simpa using hc⟩

theorem length_clipLine_le {limit : Nat} (hlimit : 3 < limit) :
    (clipLine text limit).length ≤ limit := by
  obtain ⟨kept, hkept⟩ := exists_cutsOff text limit
  have hlen : kept.length ≤ limit - 3 := by
    cases hkept with
    | @blank _ after hcut _ _ =>
      have := congrArg List.length hcut
      simp only [List.length_take, List.length_append, List.length_cons] at this
      omega
    | whole _ =>
      rw [List.length_take]
      omega
  have := (PyText.dropEndWhile_isPrefix (cutEnds.contains ·) kept).length_le
  rw [clipLine_of_cutsOff hkept, List.length_append]
  simp only [List.length_cons, List.length_nil]
  omega

/-- A shortened line has no white space around it. -/
theorem strip_clipLine {limit : Nat} (h : ∀ c ∈ text.head?, PyText.isSpace c = false) :
    PyText.strip (clipLine text limit) = clipLine text limit := by
  obtain ⟨kept, hkept⟩ := exists_cutsOff text limit
  have hprefix : kept <+: text := by
    cases hkept with
    | @blank _ after hcut _ _ =>
      have htake := List.take_prefix (limit - 3) text
      rw [hcut] at htake
      exact (List.prefix_append kept _).trans htake
    | whole _ => exact List.take_prefix _ _
  obtain ⟨rest, hrest⟩ := (PyText.dropEndWhile_isPrefix (cutEnds.contains ·) kept).trans hprefix
  rw [clipLine_of_cutsOff hkept]
  apply PyText.strip_eq_self
  · intro c hc
    cases hshown : PyText.dropEndWhile (cutEnds.contains ·) kept with
    | nil =>
      rw [hshown] at hc
      obtain rfl := Option.some.inj hc
      decide
    | cons d shown =>
      rw [hshown] at hc hrest
      apply h
      rw [← hrest]
      exact hc
  · intro c hc
    rw [List.getLast?_append] at hc
    obtain rfl := Option.some.inj hc
    decide

/-- The text that is checked has no white space around it. -/
theorem strip_labelText (value : Text) (limit : Int) (clip : Bool) :
    PyText.strip (labelText value limit clip) = labelText value limit clip := by
  rw [labelText]
  split
  · exact strip_clipLine (PyText.isSpace_head_strip _)
  · exact PyText.strip_strip _

/-- A string is a label if its text is not too long and has only characters of the list. -/
theorem label_string_eq_ok_iff {name : String} {limit : Int} {clip : Bool} {out : Text} :
    label word (.string value) name limit clip = .ok out ↔
      out = labelText value limit clip ∧ out ≠ [] ∧ out.length ≤ limit ∧ ¬ HasOther word out := by
  have hlast : ∀ c ∈ (labelText value limit clip).getLast?, PyText.isSpace c = false := by
    rw [← strip_labelText]
    exact PyText.isSpace_getLast_strip _
  rw [label, strip_labelText]
  generalize labelText value limit clip = checked at hlast
  by_cases hmatch : labelMatch word checked = true
  · obtain ⟨hne, hother⟩ := (labelMatch_iff hlast).mp hmatch
    by_cases hlimit : limit < checked.length
    · rw [if_pos (.inr (.inl hlimit))]
      constructor
      · rintro ⟨⟩
      · rintro ⟨rfl, -, hle, -⟩
        omega
    · rw [if_neg (by simp [hne, hlimit, hmatch])]
      constructor
      · rintro ⟨⟩
        exact ⟨rfl, hne, by omega, hother⟩
      · rintro ⟨rfl, -, -, -⟩
        rfl
  · rw [if_pos (.inr (.inr (by simpa using hmatch)))]
    constructor
    · rintro ⟨⟩
    · rintro ⟨rfl, hne, -, hother⟩
      exact absurd ((labelMatch_iff hlast).mpr ⟨hne, hother⟩) hmatch

/-- Exactly those strings are rejected for a character that is not on the list which are not
shortened, or which show such a character before the cut. -/
theorem neverRepaired_iff (word : Char → Bool) (value : Text) (limit : Int) (clip : Bool) :
    NeverRepaired word value limit clip ↔
      (clip = true → 3 < limit → limit < (PyText.strip (plainForm value)).length →
        HasOther word (PyText.strip (plainForm value)) →
          ShowsOther word (PyText.strip (plainForm value)) limit.toNat) := by
  generalize htext : PyText.strip (plainForm value) = text
  rw [NeverRepaired, htext]
  by_cases hcut : clip ∧ limit < text.length ∧ 3 < limit
  · have hlabel : labelText value limit clip = clipLine text limit.toNat := by
      rw [labelText, htext]
      exact if_pos hcut
    have hlen : (clipLine text limit.toNat).length ≤ limit.toNat := length_clipLine_le (by omega)
    have hne : clipLine text limit.toNat ≠ [] := by simp [clipLine]
    rw [← hasOther_clipLine_iff]
    constructor
    · intro h _ _ _ hother
      by_contra hshows
      obtain ⟨error, herror⟩ := h hother ""
      have hok : label word (.string value) "" limit clip = .ok (clipLine text limit.toNat) :=
        label_string_eq_ok_iff.mpr ⟨hlabel.symm, hne, by omega, hshows⟩
      rw [hok] at herror
      cases herror
    · intro h hother name
      cases hresult : label word (.string value) name limit clip with
      | error error => exact ⟨error, rfl⟩
      | ok out =>
        obtain ⟨rfl, -, -, hnone⟩ := label_string_eq_ok_iff.mp hresult
        rw [hlabel] at hnone
        exact absurd (h hcut.1 hcut.2.2 hcut.2.1 hother) hnone
  · have hlabel : labelText value limit clip = text := by
      rw [labelText, htext]
      exact if_neg hcut
    constructor
    · intro _ hclip hlimit hlen
      exact absurd ⟨hclip, hlen, hlimit⟩ hcut
    · intro _ hother name
      cases hresult : label word (.string value) name limit clip with
      | error error => exact ⟨error, rfl⟩
      | ok out =>
        obtain ⟨rfl, -, -, hnone⟩ := label_string_eq_ok_iff.mp hresult
        rw [hlabel] at hnone
        exact absurd hother hnone

/-- A quotation mark behind the cut is not seen. -/
theorem not_neverRepaired_cutQuote :
    ¬ NeverRepaired asciiClasses.word (List.replicate 60 'a' ++ ['"', ';']) 48 true := by
  intro h
  obtain ⟨error, herror⟩ := h ⟨'"', by decide, by decide⟩ "step"
  have hlabel : label asciiClasses.word (.string (List.replicate 60 'a' ++ ['"', ';'])) "step" 48
      true = .ok (List.replicate 45 'a' ++ ['.', '.', '.']) := by decide
  rw [hlabel] at herror
  cases herror

/-! ## Plain forms -/

section PlainForms

variable {text : Text} {c : Char}

/-- What holds of the table holds of what is found in it. -/
theorem forall_lookup {e : Char} {p : Char × Char → Bool} (hall : typography.all p = true)
    (h : typography.lookup c = some e) : p (c, e) = true := by
  obtain ⟨a, b, hsplit, -⟩ := List.lookup_eq_some_iff.mp h
  apply List.all_eq_true.mp hall
  rw [hsplit]
  simp

theorem lookup_typography_of_some {e : Char} (h : typography.lookup c = some e) :
    typography.lookup e = none ∧ e ≠ '…' := by
  have hvalues : (typography.all fun p => (typography.lookup p.2).isNone && p.2 != '…') = true := by
    decide
  simpa using forall_lookup hvalues h

/-- A translated text has no typographic character. -/
theorem lookup_of_mem_translate (h : c ∈ translate text) : typography.lookup c = none := by
  obtain ⟨b, -, rfl⟩ := List.mem_map.mp h
  cases hb : typography.lookup b with
  | none => exact hb
  | some e => exact (lookup_typography_of_some hb).1

theorem translate_eq_self_iff : translate text = text ↔ ∀ c ∈ text, typography.lookup c = none := by
  constructor
  · intro h c hc
    rw [← h] at hc
    exact lookup_of_mem_translate hc
  · intro h
    rw [translate]
    conv_rhs => rw [← List.map_id text]
    refine List.map_congr_left ?_
    intro c hc
    rw [h c hc]
    rfl

theorem translate_translate (text : Text) : translate (translate text) = translate text :=
  translate_eq_self_iff.mpr fun _ hc => lookup_of_mem_translate hc

theorem plainForm_translate (text : Text) : plainForm (translate text) = plainForm text := by
  rw [plainForm, translate_translate, plainForm]

theorem mem_plainForm (h : c ∈ plainForm text) : typography.lookup c = none ∧ c ≠ '…' := by
  obtain ⟨b, hb, hc⟩ := List.mem_flatMap.mp h
  by_cases hdots : b = '…'
  · rw [if_pos hdots] at hc
    obtain rfl : c = '.' := by simpa using hc
    decide
  · rw [if_neg hdots] at hc
    obtain rfl := List.mem_singleton.mp hc
    exact ⟨lookup_of_mem_translate hb, hdots⟩

theorem plainForm_eq_self (h : ∀ c ∈ text, typography.lookup c = none ∧ c ≠ '…') :
    plainForm text = text := by
  rw [plainForm, translate_eq_self_iff.mpr fun c hc => (h c hc).1]
  induction text with
  | nil => rfl
  | cons c text ih =>
    rw [List.flatMap_cons, if_neg (h c List.mem_cons_self).2,
      ih fun b hb => h b (List.mem_cons_of_mem c hb)]
    rfl

/-- What a label is read as. -/
def normalForm (text : Text) : Text := PyText.strip (plainForm text)

theorem mem_of_mem_strip (h : c ∈ PyText.strip text) : c ∈ text :=
  (List.dropWhile_suffix _).subset ((PyText.dropEndWhile_isPrefix _ _).subset h)

theorem plainForm_normalForm (text : Text) : plainForm (normalForm text) = normalForm text :=
  plainForm_eq_self fun _ hc => mem_plainForm (mem_of_mem_strip hc)

theorem normalForm_normalForm (text : Text) : normalForm (normalForm text) = normalForm text := by
  rw [normalForm, plainForm_normalForm]
  exact PyText.strip_strip _

theorem translate_normalForm (text : Text) : translate (normalForm text) = normalForm text :=
  translate_eq_self_iff.mpr fun _ hc => (mem_plainForm (mem_of_mem_strip hc)).1

/-- A label that is not clipped is the normal form of what is written. -/
theorem normalForm_of_label {word : Char → Bool} {value : PyJson} {kind : String} {limit : Int}
    {name : Text} (h : label word value kind limit false = .ok name) :
    ∃ text, value = .string text ∧ name = normalForm text := by
  cases value with
  | string text => exact ⟨text, rfl, (label_string_eq_ok_iff.mp h).1⟩
  | _ => cases h

end PlainForms

end ManimTemplates

end LlmService
