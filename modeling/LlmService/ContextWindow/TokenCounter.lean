import Mathlib.Data.Rat.Floor
import Mathlib.Tactic.Ring
import LlmService.ContextWindow.Models
import LlmService.Lib.PyText

/-!
# TokenCounter

`context_window/token_counter.py`. The tiktoken encoding is a parameter: it
may be missing, and `encode` may raise (`none`).
-/

namespace LlmService

/-- A tiktoken encoding. -/
structure Tokenizer where
  encode : Text → Option (List Nat)
  decode : List Nat → Text

/-- `TokenCounter`. -/
structure TokenCounter where
  tokenizer : Option Tokenizer := none

/-- `provider.lower()`. -/
def lowerName (name : String) : String := String.ofList (PyText.lower name.toList)

namespace TokenCounter

def providerMultipliers : List (String × ℚ) :=
  [("nvidia", 1), ("groq", 1), ("gemini", 97 / 100), ("openai", 1)]

/-- `PROVIDER_MULTIPLIERS.get(provider.lower(), 1.00)`. -/
def multiplier (provider : String) : ℚ :=
  (providerMultipliers.lookup (lowerName provider)).getD 1

/-- `max(1, int(count * multiplier))`. -/
def calibrate (count : Nat) (provider : String) : Nat := max 1 ⌊(count : ℚ) * multiplier provider⌋₊

variable (c : TokenCounter)

/-- `tokenizer.encode(text)`, if there is a tokenizer and it does not raise. -/
def encode (text : Text) : Option (List Nat) := c.tokenizer.bind (·.encode text)

def countText (text : Text) (provider : String) : Nat :=
  if text = [] then 0
  else
    match c.encode text with
    | some tokens => calibrate tokens.length provider
    -- fallback heuristic: about four characters per token
    | none => calibrate (max 1 (text.length / 4)) provider

def countMessages (messages : List ChatMessage) (provider : String) : Nat :=
  (messages.map fun msg => c.countText msg.content provider + 4).sum + 2

def truncateTextToTokens (text : Text) (targetTokens : Nat) (provider : String) : Text :=
  if targetTokens = 0 then []
  else if c.countText text provider ≤ targetTokens then text
  else
    match c.tokenizer, c.encode text with
    | some tokenizer, some tokens =>
      tokenizer.decode (tokens.take (max 1 ⌊(targetTokens : ℚ) / multiplier provider⌋₊))
    | _, _ => text.take (max 10 (targetTokens * 4))

/-! ## Counting -/

@[simp] theorem countText_nil (provider : String) : c.countText [] provider = 0 := by
  simp [countText]

/-- Text that is not empty costs at least one token. -/
theorem countText_pos {text : Text} (h : text ≠ []) (provider : String) :
    0 < c.countText text provider := by
  rw [countText, if_neg h]
  split <;> exact Nat.lt_of_lt_of_le Nat.one_pos (Nat.le_max_left _ _)

theorem multiplier_eq (provider : String) :
    multiplier provider = 1 ∨ multiplier provider = 97 / 100 := by
  simp only [multiplier, providerMultipliers, List.lookup_cons]
  split
  · exact .inl rfl
  · split
    · exact .inl rfl
    · split
      · exact .inr rfl
      · split
        · exact .inl rfl
        · exact .inl rfl

/-- The calibration of a count, and its inverse, in whole numbers. -/
theorem calibrate_eq (provider : String) :
    (∀ count, calibrate count provider = max 1 count ∧
        ⌊(count : ℚ) / multiplier provider⌋₊ = count) ∨
      ∀ count, calibrate count provider = max 1 (count * 97 / 100) ∧
        ⌊(count : ℚ) / multiplier provider⌋₊ = count * 100 / 97 := by
  rcases multiplier_eq provider with h | h
  · left
    intro count
    rw [calibrate, h, mul_one, div_one, Nat.floor_natCast]
    exact ⟨rfl, rfl⟩
  · right
    intro count
    have hmul : (count : ℚ) * (97 / 100) = ((count * 97 : Nat) : ℚ) / (100 : Nat) := by
      push_cast
      ring
    have hdiv : (count : ℚ) / (97 / 100) = ((count * 100 : Nat) : ℚ) / (97 : Nat) := by
      push_cast
      ring
    rw [calibrate, h, hmul, hdiv, Rat.natFloor_natCast_div_natCast,
      Rat.natFloor_natCast_div_natCast]
    exact ⟨rfl, rfl⟩

theorem calibrate_of_multiplier_one {provider : String} (h : multiplier provider = 1)
    {count : Nat} (hpos : 1 ≤ count) : calibrate count provider = count := by
  rw [calibrate, h, mul_one, Nat.floor_natCast]
  exact Nat.max_eq_right hpos

/-- The fallback count of text that is not empty, for an uncalibrated provider. -/
theorem countText_fallback (hfallback : c.tokenizer = none) {provider : String}
    (h : multiplier provider = 1) {text : Text} (htext : text ≠ []) :
    c.countText text provider = max 1 (text.length / 4) := by
  have hencode : c.encode text = none := by simp [encode, hfallback]
  rw [countText, if_neg htext, hencode]
  exact calibrate_of_multiplier_one h (Nat.le_max_left _ _)

@[simp] theorem countMessages_nil (provider : String) : c.countMessages [] provider = 2 := rfl

@[simp] theorem countMessages_cons (msg : ChatMessage) (rest : List ChatMessage)
    (provider : String) :
    c.countMessages (msg :: rest) provider
      = c.countText msg.content provider + 4 + c.countMessages rest provider := by
  simp [countMessages, Nat.add_assoc]

end TokenCounter

end LlmService
