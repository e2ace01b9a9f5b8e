/-!
# Python text

`str` methods on lists of characters.
-/

namespace LlmService.PyText

/-- `text in texts` is decided. -/
instance lawfulBEqText : LawfulBEq (List Char) := List.instLawfulBEq

/-- `str.isspace` of one character. -/
def isSpace (c : Char) : Bool :=
  let n := c.toNat
  (9 ≤ n && n ≤ 13) || (28 ≤ n && n ≤ 32) || n == 0x85 || n == 0xA0 || n == 0x1680
    || (0x2000 ≤ n && n ≤ 0x200A) || n == 0x2028 || n == 0x2029 || n == 0x202F
    || n == 0x205F || n == 0x3000

/-- Drop the characters with `p` at the end. -/
def dropEndWhile (p : Char → Bool) (text : List Char) : List Char :=
  (text.reverse.dropWhile p).reverse

/-- `text.strip(chars)`, for the characters with `p`. -/
def stripWhile (p : Char → Bool) (text : List Char) : List Char :=
  dropEndWhile p (text.dropWhile p)

def strip (text : List Char) : List Char := stripWhile isSpace text

/-- `text.lstrip()` and `text.rstrip()`. -/
def lstrip (text : List Char) : List Char := text.dropWhile isSpace

def rstrip (text : List Char) : List Char := dropEndWhile isSpace text

/-- `strip` of a `String`. -/
def stripStr (text : String) : String := String.ofList (strip text.toList)

/-- `text.split()`: the runs of characters that are not white space. -/
def words (text : List Char) : List (List Char) :=
  (text.splitOnP isSpace).filter (· ≠ [])

/-- `sep.join(parts)`. -/
def join (sep : List Char) (parts : List (List Char)) : List Char := sep.intercalate parts

/-- `text.rfind(c)`. -/
def rfind (c : Char) (text : List Char) : Option Nat :=
  (text.reverse.findIdx? (· = c)).map fun i => text.length - 1 - i

/-- `text.rsplit(c, 1)[0]`. -/
def beforeLast (c : Char) (text : List Char) : List Char :=
  if c ∈ text then (text.reverse.dropWhile (· ≠ c)).tail.reverse else text

/-- `text.lower()`, for ASCII text. -/
def lower (text : List Char) : List Char := text.map Char.toLower

/-- `int(c, 16)` of one digit. -/
def hexValue (c : Char) : Option Nat :=
  if '0' ≤ c ∧ c ≤ '9' then some (c.toNat - 48)
  else if 'A' ≤ c ∧ c ≤ 'F' then some (c.toNat - 55)
  else if 'a' ≤ c ∧ c ≤ 'f' then some (c.toNat - 87)
  else none

/-- What the `str` methods read of the Unicode database. -/
structure UnicodeData where
  /-- `c.casefold()` -/
  casefold : Char → List Char
  /-- `c.isprintable()` -/
  isPrintable : Char → Bool
  /-- the value of a decimal digit, which `\d` matches and `int` reads -/
  decimal : Char → Option Nat

/-- The Unicode tables, for ASCII text. -/
def asciiData : UnicodeData where
  casefold := fun c => [c.toLower]
  isPrintable := fun c => 32 ≤ c.toNat && c.toNat < 127
  decimal := fun c => if c.isDigit then some (c.toNat - 48) else none

/-- `text.replace(part, "")` for a part that is not empty; the number says
how much of a part just found is still to be skipped. -/
def removeAll (part : List Char) : Nat → List Char → List Char
  | _, [] => []
  | skip + 1, _ :: rest => removeAll part skip rest
  | 0, c :: rest =>
    if part.isPrefixOf (c :: rest) then removeAll part (part.length - 1) rest
    else c :: removeAll part 0 rest

theorem toLower_of_isLower {c : Char} (h : c.isLower = true) : c.toLower = c := by
  unfold Char.toLower
  unfold Char.isLower at h
  rw [dif_neg]
  intro hupper
  simp only [Bool.and_eq_true, decide_eq_true_eq, UInt32.le_iff_toNat_le,
    ge_iff_le] at h hupper
  have hbefore : 'Z'.val.toNat < 'a'.val.toNat := by decide
  omega

theorem toLower_cases (c : Char) : c.toLower = c ∨ c.toLower.isLower = true := by
  unfold Char.toLower
  split
  · next hupper =>
    right
    simp only [ge_iff_le, UInt32.le_iff_toNat_le] at hupper
    unfold Char.isLower
    simp only [Bool.and_eq_true, decide_eq_true_eq, UInt32.le_iff_toNat_le,
      ge_iff_le, UInt32.toNat_add]
    change 65 ≤ c.val.toNat ∧ c.val.toNat ≤ 90 at hupper
    change 97 ≤ (c.val.toNat + 32) % 2 ^ 32 ∧ (c.val.toNat + 32) % 2 ^ 32 ≤ 122
    omega
  · exact .inl rfl

/-- Lower case brings in letters only. -/
theorem mem_of_mem_lower {text : List Char} {c : Char} (h : c ∈ lower text)
    (hc : c.isLower = false) : c ∈ text := by
  obtain ⟨a, ha, rfl⟩ := List.mem_map.mp h
  rcases toLower_cases a with hsame | hlower
  · rw [hsame]
    exact ha
  · rw [hlower] at hc
    cases hc

theorem lower_lower (text : List Char) : lower (lower text) = lower text := by
  rw [lower, lower, List.map_map]
  apply List.map_congr_left
  intro c _
  rw [Function.comp_apply]
  rcases toLower_cases c with hsame | hlower
  · rw [hsame, hsame]
  · exact toLower_of_isLower hlower

/-- The characters of a literal, which `rfl` reads off. -/
theorem toList_eq {text : String} {chars : List Char} (h : text = String.ofList chars) :
    text.toList = chars := by
  rw [h, String.toList_ofList]

end LlmService.PyText
