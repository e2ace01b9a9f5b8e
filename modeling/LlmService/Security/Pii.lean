import LlmService.ContextWindow.Models
import LlmService.Lib.PyText
import LlmService.Lib.Regex

/-!
# PIIDetector

`security/pii.py`: the patterns are applied one after another, and their
matches replaced by placeholders. No placeholder can be part of a match, and a
pattern that begins and ends at a word boundary leaves a bracket there, so that
replacing its matches brings in none of the patterns before it.
-/

namespace LlmService

open Regex

namespace PIIDetector

/-- `[a-zA-Z0-9._%+-]+@[a-zA-Z0-9.-]+\.[a-zA-Z]{2,}` -/
def email : Regex :=
  cat [some1 fun c => c.isAlphanum || ['.', '_', '%', '+', '-'].contains c, char '@',
    some1 fun c => c.isAlphanum || ['.', '-'].contains c, char '.', pow (set Char.isAlpha) 2,
    many Char.isAlpha]

section Patterns

variable (d : CharClasses)

/-- `[-.\s]?` -/
def separator : Regex := opt (set fun c => c == '-' || c == '.' || PyText.isSpace c)

def digits (n : Nat) : Regex := pow (set d.digit) n

/-- `\b(\+1[-.\s]?)?\(?\d{3}\)?[-.\s]?\d{3}[-.\s]?\d{4}\b` -/
def phone : Regex :=
  cat [look d.boundary, opt (cat [char '+', char '1', separator]), opt (char '('), digits d 3,
    opt (char ')'), separator, digits d 3, separator, digits d 4, look d.boundary]

/-- `\b\d{3}-\d{2}-\d{4}\b` -/
def ssn : Regex :=
  cat [look d.boundary, digits d 3, char '-', digits d 2, char '-', digits d 4, look d.boundary]

/-- `\d[ -]?` -/
def cardDigit : Regex := seq (set d.digit) (opt (set fun c => c == ' ' || c == '-'))

/-- `\b(?:\d[ -]?){13,16}\b` -/
def creditCard : Regex :=
  cat [look d.boundary, pow (cardDigit d) 13, upTo (cardDigit d) 3, look d.boundary]

/-- `PII_PATTERNS`, with their placeholders. -/
def piiPatterns : List (Regex × Text) :=
  [(email, "[EMAIL_REDACTED]".toList), (phone d, "[PHONE_REDACTED]".toList),
    (ssn d, "[SSN_REDACTED]".toList), (creditCard d, "[CARD_REDACTED]".toList)]

/-- One pattern, on the text so far and whether something was found. -/
def redactStep (state : Text × Bool) (pattern : Regex × Text) : Text × Bool :=
  if pattern.1.search state.1 then (pattern.1.sub pattern.2 state.1, true) else state

/-- `detect_and_redact`; `ctx.pii_detected` is set as well where the second part is true. -/
def detectAndRedact (text : Text) : Text × Bool :=
  if text = [] then ([], false) else (piiPatterns d).foldl redactStep (text, false)

end Patterns

section Redacted

variable {d : CharClasses} {r q : Regex} {repl text : Text} {patterns : List (Regex × Text)}

/-- A character that no placeholder has. -/
def Tells (d : CharClasses) (c : Char) : Prop := c = '@' ∨ d.digit c = true

/-- What is matched is no part of a placeholder, and has no bracket. -/
structure Telling (d : CharClasses) (q : Regex) : Prop where
  has : q.Has (Tells d)
  within : q.Within fun c => c ≠ '[' ∧ c ≠ ']'

/-- An expression that asserts boundaries only. -/
def OnlyBoundaries (d : CharClasses) (q : Regex) : Prop := ∀ l ∈ q.looks, l = d.boundary

/-- The expression matches between boundaries. -/
def Bounded (d : CharClasses) (r : Regex) : Prop :=
  r.StartsIn d.boundary ∧ r.EndsIn d.boundary

/-- A placeholder stands in brackets, and tells nothing. -/
structure Placeholder (d : CharClasses) (repl : Text) : Prop where
  head : repl.head? = some '['
  last : repl.getLast? = some ']'
  silent : ∀ c ∈ repl, ¬ Tells d c

theorem Telling.nonempty (h : Telling d q) : q.Nonempty := by
  intro prev m next hspans
  obtain ⟨c, hc, -⟩ := hspans.exists_mem h.has
  exact List.ne_nil_of_mem hc

theorem Telling.apart (h : Telling d q) (hrepl : Placeholder d repl) :
    ∀ prev m next, q.Spans prev m next →
      (∀ c ∈ repl.head?, c ∉ m) ∧ (∀ c ∈ repl.getLast?, c ∉ m) ∧ ∃ c ∈ m, c ∉ repl := by
  intro prev m next hspans
  have hbrackets := hspans.forall_mem h.within
  refine ⟨?_, ?_, ?_⟩
  · intro c hc hmem
    rw [hrepl.head] at hc
    exact (hbrackets c hmem).1 (Option.some.inj hc).symm
  · intro c hc hmem
    rw [hrepl.last] at hc
    exact (hbrackets c hmem).2 (Option.some.inj hc).symm
  · obtain ⟨c, hc, htells⟩ := hspans.exists_mem h.has
    exact ⟨c, hc, fun hmem => hrepl.silent c hmem htells⟩

/-- An expression without assertions is not brought in. -/
theorem masks_of_no_looks (hq : Telling d q) (hlooks : q.looks = []) (hrepl : Placeholder d repl) :
    Masks r q repl := by
  have himplies : ∀ prev next prev' next', q.Implies prev next prev' next' := by
    intro prev next prev' next' l hl
    rw [hlooks] at hl
    cases hl
  refine ⟨?_, fun _ _ _ _ => himplies _ _ _ _, fun _ _ _ _ => himplies _ _ _ _, hq.apart hrepl⟩
  intro hnil
  have hhead := hrepl.head
  rw [hnil] at hhead
  cases hhead

/-- Beside a bracket there is no boundary that was not beside the match. -/
theorem masks_of_bounded (hr : Telling d r) (hbounded : Bounded d r) (hq : Telling d q)
    (hlooks : OnlyBoundaries d q) (hrepl : Placeholder d repl) : Masks r q repl := by
  refine ⟨?_, ?_, ?_, hq.apart hrepl⟩
  · intro hnil
    have hhead := hrepl.head
    rw [hnil] at hhead
    cases hhead
  · intro prev m next hspans l hl _
    rw [hlooks l hl, ← headOr_of_ne_nil (hr.nonempty _ _ _ hspans) next]
    exact hspans.startsIn hbounded.1
  · intro prev m next hspans l hl _
    rw [hlooks l hl, ← lastOr_of_ne_nil (hr.nonempty _ _ _ hspans) prev]
    exact hspans.endsIn hbounded.2

theorem redactStep_fst (r : Regex) (hr : r.Nonempty) (repl text : Text) (found : Bool) :
    (redactStep (text, found) (r, repl)).1 = r.sub repl text := by
  rw [redactStep]
  by_cases hfound : r.search text = true
  · rw [if_pos hfound]
  · rw [if_neg hfound]
    exact ((replaced_sub hr repl text).eq_of_not_occursIn (mt search_iff.mpr hfound)).symm

/-! ## The patterns -/

theorem not_bracket_of_not {p : Char → Bool} (hopen : p '[' = false) (hclose : p ']' = false)
    (c : Char) (hc : p c = true) : c ≠ '[' ∧ c ≠ ']' := by
  constructor
  · rintro rfl
    rw [hopen] at hc
    cases hc
  · rintro rfl
    rw [hclose] at hc
    cases hc

theorem telling_email : Telling d email := by
  have hletter : ∀ c, Char.isAlpha c = true → c ≠ '[' ∧ c ≠ ']' :=
    not_bracket_of_not (by decide) (by decide)
  refine ⟨.inr (.inl fun c hc => .inl (eq_of_beq hc)), ⟨?_, ?_⟩, ?_, ⟨?_, ?_⟩, ?_,
    ⟨hletter, hletter, trivial⟩, hletter⟩
  all_goals exact not_bracket_of_not (by decide) (by decide)

variable (hd : d.Lawful)

include hd

theorem digit_not_bracket : ∀ c, d.digit c = true → c ≠ '[' ∧ c ≠ ']' :=
  not_bracket_of_not (hd.digit_ascii '[' (by decide)) (hd.digit_ascii ']' (by decide))

theorem telling_phone : Telling d (phone d) := by
  have hseparator : separator.Within fun c => c ≠ '[' ∧ c ≠ ']' :=
    ⟨not_bracket_of_not (by decide) (by decide), trivial⟩
  have hdigits : ∀ n, (digits d n).Within fun c => c ≠ '[' ∧ c ≠ ']' :=
    within_pow (digit_not_bracket hd)
  refine ⟨.inr (.inr (.inr (.inl (.inl fun c hc => .inr hc)))), trivial,
    ⟨⟨?_, ?_, hseparator⟩, trivial⟩, ⟨?_, trivial⟩, hdigits 3, ⟨?_, trivial⟩, hseparator,
    hdigits 3, hseparator, hdigits 4, trivial⟩
  all_goals exact not_bracket_of_not (by decide) (by decide)

theorem telling_ssn : Telling d (ssn d) := by
  have hdigits : ∀ n, (digits d n).Within fun c => c ≠ '[' ∧ c ≠ ']' :=
    within_pow (digit_not_bracket hd)
  have hdash : (char '-').Within fun c => c ≠ '[' ∧ c ≠ ']' :=
    not_bracket_of_not (by decide) (by decide)
  exact ⟨.inr (.inl (.inl fun c hc => .inr hc)), trivial, hdigits 3, hdash, hdigits 2, hdash,
    hdigits 4, trivial⟩

theorem telling_creditCard : Telling d (creditCard d) := by
  have hcard : (cardDigit d).Within fun c => c ≠ '[' ∧ c ≠ ']' :=
    ⟨digit_not_bracket hd, not_bracket_of_not (by decide) (by decide), trivial⟩
  exact ⟨.inr (.inl (.inl (.inl fun c hc => .inr hc))), trivial, within_pow hcard 13,
    within_upTo hcard 3, trivial⟩

/-- A text in brackets of letters and underscores. -/
theorem placeholder_of_all {body : Text}
    (h : body.all (fun c => decide (c.toNat < 128) && !c.isDigit && decide (c ≠ '@')) = true)
    (hhead : body.head? = some '[') (hlast : body.getLast? = some ']') : Placeholder d body := by
  refine ⟨hhead, hlast, ?_⟩
  rintro c hc (heq | hdigit)
  · have hall := List.all_eq_true.mp h c hc
    simp [heq] at hall
  · have hall := List.all_eq_true.mp h c hc
    simp only [Bool.and_eq_true, decide_eq_true_eq, Bool.not_eq_true'] at hall
    rw [hd.digit_ascii c hall.1.1, hall.1.2] at hdigit
    cases hdigit

theorem placeholder_of_mem {pattern : Regex × Text} (h : pattern ∈ piiPatterns d) :
    Placeholder d pattern.2 := by
  simp only [piiPatterns, List.mem_cons, List.not_mem_nil, or_false] at h
  rcases h with rfl | rfl | rfl | rfl
  all_goals
    refine placeholder_of_all hd ?_ ?_ ?_
    all_goals
      dsimp only
      decide

omit hd in
theorem onlyBoundaries_of_looks (h : q.looks = [d.boundary, d.boundary]) : OnlyBoundaries d q := by
  intro l hl
  rw [h] at hl
  simpa using hl

/-! ## All of them -/

/-- The text with the matches of all patterns replaced, in their order. -/
def redacted (d : CharClasses) (text : Text) : Text :=
  (piiPatterns d).foldl (fun text pattern => pattern.1.sub pattern.2 text) text

theorem telling_of_mem {pattern : Regex × Text} (h : pattern ∈ piiPatterns d) :
    Telling d pattern.1 := by
  simp only [piiPatterns, List.mem_cons, List.not_mem_nil, or_false] at h
  rcases h with rfl | rfl | rfl | rfl
  · exact telling_email
  · exact telling_phone hd
  · exact telling_ssn hd
  · exact telling_creditCard hd

omit hd in
/-- Redacting replaces the matches of each pattern, whether it is searched for first or not. -/
theorem foldl_redactStep (hpatterns : ∀ pattern ∈ patterns, Telling d pattern.1)
    (state : Text × Bool) :
    (patterns.foldl redactStep state).1 =
      patterns.foldl (fun text pattern => pattern.1.sub pattern.2 text) state.1 := by
  induction patterns generalizing state with
  | nil => rfl
  | cons pattern patterns ih =>
    obtain ⟨hpattern, hrest⟩ := List.forall_mem_cons.mp hpatterns
    rw [List.foldl_cons, List.foldl_cons, ih hrest,
      ← redactStep_fst pattern.1 hpattern.nonempty pattern.2 state.1 state.2]

/-- What the patterns before it left, no pattern brings in. -/
theorem not_occursIn_redacted (text : Text) :
    ∀ pattern ∈ piiPatterns d, ¬ pattern.1.OccursIn none (redacted d text) := by
  have hrepl : ∀ pattern ∈ piiPatterns d, Placeholder d pattern.2 :=
    fun pattern h => placeholder_of_mem hd h
  simp only [piiPatterns, List.forall_mem_cons] at hrepl
  obtain ⟨hemail, hphone, hssn, hcard, -⟩ := hrepl
  have phoneBoundaries : OnlyBoundaries d (phone d) := onlyBoundaries_of_looks rfl
  have ssnBoundaries : OnlyBoundaries d (ssn d) := onlyBoundaries_of_looks rfl
  have cardBoundaries : OnlyBoundaries d (creditCard d) := onlyBoundaries_of_looks rfl
  have hsub : ∀ {r q repl text}, Telling d r → Bounded d r → Telling d q →
      OnlyBoundaries d q → Placeholder d repl → ¬ q.OccursIn none text →
        ¬ q.OccursIn none (r.sub repl text) :=
    fun hr hbounded hq hlooks hrepl hnone =>
      (masks_of_bounded hr hbounded hq hlooks hrepl).not_occursIn_sub hr.nonempty hnone
  have hself : ∀ {r repl text}, Telling d r → Bounded d r → OnlyBoundaries d r →
      Placeholder d repl → ¬ r.OccursIn none (r.sub repl text) :=
    fun hr hbounded hlooks hrepl =>
      (masks_of_bounded hr hbounded hr hlooks hrepl).not_occursIn_sub_self _
  have emailBoundaries : OnlyBoundaries d email := fun l hl => by cases hl
  have tellsPhone := telling_phone hd
  have tellsSsn := telling_ssn hd
  have tellsCard := telling_creditCard hd
  simp only [redacted, piiPatterns, List.foldl_cons, List.foldl_nil, List.forall_mem_cons]
  refine ⟨?_, ?_, ?_, ?_, List.forall_mem_nil _⟩
  · refine hsub tellsCard ⟨rfl, rfl⟩ telling_email emailBoundaries hcard ?_
    refine hsub tellsSsn ⟨rfl, rfl⟩ telling_email emailBoundaries hssn ?_
    refine hsub tellsPhone ⟨rfl, rfl⟩ telling_email emailBoundaries hphone ?_
    exact (masks_of_no_looks telling_email rfl hemail).not_occursIn_sub_self text
  · refine hsub tellsCard ⟨rfl, rfl⟩ tellsPhone phoneBoundaries hcard ?_
    refine hsub tellsSsn ⟨rfl, rfl⟩ tellsPhone phoneBoundaries hssn ?_
    exact hself tellsPhone ⟨rfl, rfl⟩ phoneBoundaries hphone
  · refine hsub tellsCard ⟨rfl, rfl⟩ tellsSsn ssnBoundaries hcard ?_
    exact hself tellsSsn ⟨rfl, rfl⟩ ssnBoundaries hssn
  · exact hself tellsCard ⟨rfl, rfl⟩ cardBoundaries hcard

omit hd in
/-- A text without matches is left alone, and nothing is found in it. -/
theorem foldl_redactStep_of_clean
    (hclean : ∀ pattern ∈ patterns, ¬ pattern.1.OccursIn none text) (found : Bool) :
    patterns.foldl redactStep (text, found) = (text, found) := by
  induction patterns with
  | nil => rfl
  | cons pattern patterns ih =>
    obtain ⟨hpattern, hrest⟩ := List.forall_mem_cons.mp hclean
    rw [List.foldl_cons, redactStep, if_neg (mt search_iff.mp hpattern)]
    exact ih hrest

/-- In what is returned no pattern matches, and redacting it again finds nothing. -/
theorem detectAndRedact_clean (text : Text) :
    (∀ pattern ∈ piiPatterns d,
        ¬ pattern.1.OccursIn none (detectAndRedact d text).1) ∧
      detectAndRedact d (detectAndRedact d text).1 = ((detectAndRedact d text).1, false) := by
  have hclean : ∀ pattern ∈ piiPatterns d, ¬ pattern.1.OccursIn none (detectAndRedact d text).1 := by
    intro pattern hpattern
    rw [detectAndRedact]
    by_cases hnil : text = []
    · rw [if_pos hnil]
      rintro ⟨a, m, b, heq, hspans⟩
      obtain ⟨c, hc, -⟩ := hspans.exists_mem (telling_of_mem hd hpattern).has
      have hmem : c ∈ a ++ m ++ b := List.mem_append_left b (List.mem_append_right a hc)
      rw [← heq] at hmem
      cases hmem
    · rw [if_neg hnil, foldl_redactStep fun pattern => telling_of_mem hd]
      exact not_occursIn_redacted hd text pattern hpattern
  refine ⟨hclean, ?_⟩
  generalize (detectAndRedact d text).1 = out at hclean
  rw [detectAndRedact]
  by_cases hnil : out = []
  · rw [if_pos hnil, hnil]
  · rw [if_neg hnil, foldl_redactStep_of_clean hclean]

end Redacted

/-- A number that begins in brackets right behind another one. -/
theorem detectAndRedact_clean_numbers :
    (∀ pattern ∈ piiPatterns asciiClasses,
        ¬ pattern.1.OccursIn none
          (detectAndRedact asciiClasses "5551234567(555)123-4567".toList).1) ∧
      detectAndRedact asciiClasses
          (detectAndRedact asciiClasses "5551234567(555)123-4567".toList).1 =
        ((detectAndRedact asciiClasses "5551234567(555)123-4567".toList).1, false) :=
  detectAndRedact_clean asciiClasses_lawful _

end PIIDetector

end LlmService
