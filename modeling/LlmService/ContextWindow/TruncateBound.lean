import LlmService.ContextWindow.TokenCounter

/-!
# Truncating by characters

Without an encoding, a text is counted at four characters for a token and
truncated to as many characters, but never to fewer than ten, which count as two
tokens.
-/

namespace LlmService

namespace TokenCounter

/-- No text is encoded: every count is that of the fallback. -/
def FallsBack (c : TokenCounter) : Prop := ∀ text, c.encode text = none

/-- Truncated for one provider, the text is a prefix that is within the target for another. -/
structure Bounded (c : TokenCounter) (text : Text) (targetTokens : Nat)
    (truncatedFor provider : String) : Prop where
  count_le : c.countText (c.truncateTextToTokens text targetTokens truncatedFor) provider ≤
    targetTokens
  isPrefix : c.truncateTextToTokens text targetTokens truncatedFor <+: text

variable {c : TokenCounter} {text : Text} {targetTokens : Nat} {provider truncatedFor : String}

theorem FallsBack.countText_eq (h : c.FallsBack) (htext : text ≠ []) (provider : String) :
    c.countText text provider = calibrate (max 1 (text.length / 4)) provider := by
  rw [countText, if_neg htext, h text]

theorem FallsBack.truncate_eq (h : c.FallsBack) (htarget : 1 ≤ targetTokens) :
    c.truncateTextToTokens text targetTokens provider =
      if c.countText text provider ≤ targetTokens then text
      else text.take (max 10 (targetTokens * 4)) := by
  rw [truncateTextToTokens, if_neg (by omega), h text]
  cases c.tokenizer with
  | none => rfl
  | some tokenizer => rfl

theorem calibrate_le_max (count : Nat) (provider : String) :
    calibrate count provider ≤ max 1 count := by
  rcases calibrate_eq provider with h | h
  · rw [(h count).1]
  · rw [(h count).1]
    omega

/-- A provider that is not calibrated counts the most. -/
theorem calibrate_le_of_one (h : multiplier truncatedFor = 1) (count : Nat) :
    calibrate count provider ≤ calibrate count truncatedFor := by
  have hone : calibrate count truncatedFor = max 1 count := by
    rw [calibrate, h, mul_one, Nat.floor_natCast]
  rw [hone]
  exact calibrate_le_max count provider

/-- The cut text, of which ten characters are left at least. -/
theorem FallsBack.countText_take_le (h : c.FallsBack) (htarget : 1 ≤ targetTokens)
    (hroom : ¬ (targetTokens = 1 ∧ multiplier provider = 1 ∧ 8 ≤ text.length)) :
    c.countText (text.take (max 10 (targetTokens * 4))) provider ≤ targetTokens := by
  by_cases hnil : text.take (max 10 (targetTokens * 4)) = []
  · rw [hnil, countText_nil]
    exact Nat.zero_le _
  · rw [h.countText_eq hnil, List.length_take]
    by_cases hone : targetTokens = 1
    · rcases multiplier_eq provider with hmul | hmul
      · have hshort : text.length < 8 := Nat.not_le.mp fun hle => hroom ⟨hone, hmul, hle⟩
        have hcount := calibrate_le_max
          (max 1 (min (max 10 (targetTokens * 4)) text.length / 4)) provider
        omega
      · have hcalibrate : ∀ count, calibrate count provider = max 1 (count * 97 / 100) := by
          rcases calibrate_eq provider with heq | heq
          · -- this is the case of the multiplier one
            intro count
            have hfloor := (heq 97).2
            rw [hmul] at hfloor
            norm_num at hfloor
          · exact fun count => (heq count).1
        rw [hcalibrate]
        omega
    · have hcount := calibrate_le_max
        (max 1 (min (max 10 (targetTokens * 4)) text.length / 4)) provider
      omega

theorem FallsBack.bounded (h : c.FallsBack) (htarget : 1 ≤ targetTokens)
    (hroom : ¬ (targetTokens = 1 ∧ multiplier provider = 1 ∧ 8 ≤ text.length))
    (hmost : ∀ count, calibrate count provider ≤ calibrate count truncatedFor) :
    c.Bounded text targetTokens truncatedFor provider := by
  have heq : c.truncateTextToTokens text targetTokens truncatedFor = _ := h.truncate_eq htarget
  by_cases hfits : c.countText text truncatedFor ≤ targetTokens
  · rw [if_pos hfits] at heq
    refine ⟨?_, by simp only [heq, List.prefix_rfl]⟩
    rw [heq]
    by_cases hnil : text = []
    · rw [hnil, countText_nil]
      exact Nat.zero_le _
    · rw [h.countText_eq hnil] at hfits ⊢
      exact (hmost _).trans hfits
  · rw [if_neg hfits] at heq
    refine ⟨?_, ?_⟩
    · rw [heq]
      exact h.countText_take_le htarget hroom
    · rw [heq]
      exact List.take_prefix _ _

/-- Eight characters or more are cut to ten at most, which are two tokens. -/
theorem FallsBack.not_bounded (h : c.FallsBack) (htruncated : multiplier truncatedFor = 1)
    (hmul : multiplier provider = 1) (hlong : 8 ≤ text.length) :
    ¬ c.Bounded text 1 truncatedFor provider := by
  intro hbounded
  have hcount := hbounded.count_le
  have htext : text ≠ [] := List.ne_nil_of_length_pos (by omega)
  have hmore : ¬ c.countText text truncatedFor ≤ 1 := by
    rw [h.countText_eq htext, calibrate_of_multiplier_one htruncated (Nat.le_max_left 1 _)]
    omega
  have hcut : text.take (max 10 (1 * 4)) ≠ [] := by
    apply List.ne_nil_of_length_pos
    rw [List.length_take]
    omega
  rw [h.truncate_eq le_rfl, if_neg hmore, h.countText_eq hcut,
    calibrate_of_multiplier_one hmul (Nat.le_max_left 1 _), List.length_take] at hcount
  omega

/-- By characters, a text is truncated within its target, for its provider as for the default
one, unless the target is one token, the provider is not calibrated, and the text has eight
characters. -/
theorem bounded_iff (h : c.FallsBack) (htarget : 1 ≤ targetTokens) (text : Text)
    (provider : String) :
    ∀ truncatedFor ∈ ["nvidia", provider],
      (c.Bounded text targetTokens truncatedFor provider ↔
        ¬ (targetTokens = 1 ∧ multiplier provider = 1 ∧ 8 ≤ text.length)) := by
  intro truncatedFor hmem
  constructor
  · intro hbounded hcut
    obtain ⟨rfl, hmul, hlong⟩ := hcut
    refine h.not_bounded ?_ hmul hlong hbounded
    rcases List.mem_cons.mp hmem with heq | hmem
    · rw [heq]
      decide
    · rw [List.mem_singleton.mp hmem]
      exact hmul
  · intro hroom
    refine h.bounded htarget hroom ?_
    rcases List.mem_cons.mp hmem with heq | hmem
    · have hone : multiplier truncatedFor = 1 := by
        rw [heq]
        decide
      exact calibrate_le_of_one hone
    · rw [List.mem_singleton.mp hmem]
      exact fun count => le_rfl

theorem fallsBack_empty : FallsBack {} := fun _ => rfl

/-- Of a text that counts six, three tokens are left. -/
theorem bounded_truncated :
    Bounded {} "counted at four characters".toList 3 "nvidia" "groq" ∧
      Bounded {} "counted at four characters".toList 3 "groq" "groq" ∧
      truncateTextToTokens {} "counted at four characters".toList 3 "nvidia" =
        "counted at f".toList := by
  have hbounded := bounded_iff fallsBack_empty (by decide : 1 ≤ 3)
    "counted at four characters".toList "groq"
  refine ⟨(hbounded "nvidia" (by simp)).mpr (by decide),
    (hbounded "groq" (by simp)).mpr (by decide), ?_⟩
  have hmore : ¬ countText {} "counted at four characters".toList "nvidia" ≤ 3 := by
    rw [fallsBack_empty.countText_eq (by decide),
      calibrate_of_multiplier_one (by decide) (Nat.le_max_left 1 _)]
    decide
  rw [fallsBack_empty.truncate_eq (by decide), if_neg hmore]
  decide

/-- One token is asked for, and ten characters are left. -/
theorem not_bounded_hello : ¬ Bounded {} "hello world".toList 1 "nvidia" "nvidia" :=
  fallsBack_empty.not_bounded (by decide) (by decide) (by decide)

end TokenCounter

end LlmService
