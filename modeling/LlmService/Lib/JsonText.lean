import LlmService.Lib.Infix
import LlmService.Lib.Json

/-!
# JSON text

`json.dumps` and `json.loads`. What is written without a `float` is read again
as it was (`loads_write`). `float(literal)` and how it is written again is a
parameter; the error of `json.loads` for a document that is nested too deeply
is left out.
-/

namespace LlmService

namespace JsonText

open PyText (hexValue join)

/-! ## Writing -/

/-- `ESCAPE_DCT`: the letter of an escape. -/
def escapes : List (Char × Char) :=
  [('"', '"'), ('\\', '\\'), ('\n', 'n'), ('\r', 'r'), ('\t', 't'), ('\x08', 'b'), ('\x0c', 'f')]

/-- The escape of a code unit. -/
def unitEscape (n : Nat) : List Char :=
  ['\\', 'u', Nat.digitChar (n / 4096), Nat.digitChar (n / 256 % 16), Nat.digitChar (n / 16 % 16),
    Nat.digitChar (n % 16)]

/-- One character in `encode_basestring_ascii`. -/
def escapeChar (c : Char) : List Char :=
  match escapes.lookup c with
  | some letter => ['\\', letter]
  | none =>
    let n := c.toNat
    if 32 ≤ n ∧ n ≤ 126 then [c]
    else if n < 0x10000 then unitEscape n
    else unitEscape (0xd800 + (n - 0x10000) / 1024) ++ unitEscape (0xdc00 + (n - 0x10000) % 1024)

def quote (text : List Char) : List Char := '"' :: text.flatMap escapeChar ++ ['"']

def writeInt (n : Int) : List Char := (if n < 0 then ['-'] else []) ++ Nat.toDigits 10 n.natAbs

mutual

/-- `json.dumps`, with separators that are a comma or a colon and `blank`. -/
def write (blank : List Char) : PyJson → List Char
  | .null => ['n', 'u', 'l', 'l']
  | .bool true => ['t', 'r', 'u', 'e']
  | .bool false => ['f', 'a', 'l', 's', 'e']
  | .int n => writeInt n
  | .float literal => literal
  | .string text => quote text
  | .array items => '[' :: join (',' :: blank) (writeItems blank items) ++ [']']
  | .object fields => '{' :: join (',' :: blank) (writeFields blank fields) ++ ['}']

def writeItems (blank : List Char) : List PyJson → List (List Char)
  | [] => []
  | item :: items => write blank item :: writeItems blank items

def writeFields (blank : List Char) : List (String × PyJson) → List (List Char)
  | [] => []
  | (key, value) :: fields =>
    (quote key.toList ++ ':' :: (blank ++ write blank value)) :: writeFields blank fields

end

/-! ## Reading -/

def isBlank (c : Char) : Bool := c = ' ' || c = '\t' || c = '\n' || c = '\r'

def skipBlank (text : List Char) : List Char := text.dropWhile isBlank

/-- `_decode_uXXXX` -/
def readUnit : List Char → Option (Nat × List Char)
  | a :: b :: c :: d :: rest => do
    let a ← hexValue a
    let b ← hexValue b
    let c ← hexValue c
    let d ← hexValue d
    return (((a * 16 + b) * 16 + c) * 16 + d, rest)
  | _ => none

/-- What stands behind a backslash. A surrogate that is alone, which is no `Char`, is read as
the replacement character. -/
def readEscape (text : List Char) : Option (Char × List Char) :=
  match text with
  | [] => none
  | letter :: rest =>
    if letter = 'u' then do
      let (n, rest) ← readUnit rest
      if 0xd800 ≤ n ∧ n < 0xdc00 then
        if rest.take 2 = ['\\', 'u'] then do
          let (m, after) ← readUnit (rest.drop 2)
          if 0xdc00 ≤ m ∧ m < 0xe000 then
            return (Char.ofNat (0x10000 + (n - 0xd800) * 1024 + (m - 0xdc00)), after)
          else return ('\ufffd', rest)
        else return ('\ufffd', rest)
      else if 0xdc00 ≤ n ∧ n < 0xe000 then return ('\ufffd', rest)
      else return (Char.ofNat n, rest)
    else
      (('/', '/') :: escapes).find? (·.2 = letter) |>.map fun (c, _) => (c, rest)

def readChar (text : List Char) : Option (Char × List Char) :=
  match text with
  | [] => none
  | c :: rest =>
    if c = '\\' then readEscape rest
    else if c.toNat < 32 then none
    else some (c, rest)

/-- `scanstring`, behind the quotation mark. -/
def scanString : Nat → List Char → Option (List Char × List Char)
  | 0, _ => none
  | fuel + 1, text =>
    if text.head? = some '"' then some ([], text.tail)
    else do
      let (c, rest) ← readChar text
      let (value, rest) ← scanString fuel rest
      return (c :: value, rest)

/-- Each step of `scanString` reads at least one character. -/
def readString (text : List Char) : Option (List Char × List Char) := scanString text.length text

/-- The digits from which on `int(literal)` is an error. -/
def maxStrDigits : Nat := 4300

/-- `(\.[0-9]+)?` -/
def fraction (text : List Char) : List Char :=
  let digits := text.tail.takeWhile Char.isDigit
  if text.head? = some '.' ∧ digits ≠ [] then '.' :: digits else []

/-- `([eE][-+]?[0-9]+)?` -/
def exponent (text : List Char) : List Char :=
  let sign := text.tail.take 1 |>.filter fun c => c = '+' ∨ c = '-'
  let digits := (text.tail.drop sign.length).takeWhile Char.isDigit
  if (text.head? = some 'e' ∨ text.head? = some 'E') ∧ digits ≠ [] then
    text.take 1 ++ sign ++ digits
  else []

section Reading

variable (floatText : List Char → List Char)

/-- `NUMBER_RE` -/
def number (text : List Char) : Option (PyJson × List Char) :=
  let sign := if text.head? = some '-' then ['-'] else []
  let unsigned := text.drop sign.length
  let whole := if unsigned.head? = some '0' then ['0'] else unsigned.takeWhile Char.isDigit
  let rest := unsigned.drop whole.length
  let literal := fraction rest ++ exponent (rest.drop (fraction rest).length)
  if whole = [] then none
  else if literal ≠ [] then some (.float (floatText (sign ++ whole ++ literal)), rest.drop literal.length)
  else if maxStrDigits < whole.length then none
  else
    let n : Int := Nat.ofDigitChars 10 whole 0
    some (.int (if sign = [] then n else -n), rest)

def constants : List (List Char × PyJson) :=
  [(['n', 'u', 'l', 'l'], .null), (['t', 'r', 'u', 'e'], .bool true),
    (['f', 'a', 'l', 's', 'e'], .bool false), (['N', 'a', 'N'], .float ['N', 'a', 'N']),
    ("Infinity".toList, .float "Infinity".toList), ("-Infinity".toList, .float "-Infinity".toList)]

def scalar (text : List Char) : Option (PyJson × List Char) :=
  match number floatText text with
  | some read => some read
  | none =>
    constants.find? (fun (word, _) => word.isPrefixOf text) |>.map
      fun (word, value) => (value, text.drop word.length)

/-- `pairs[key] = value` -/
def setItem (fields : List (String × PyJson)) (field : String × PyJson) : List (String × PyJson) :=
  if field.1 ∈ fields.map Prod.fst then
    fields.map fun old => if old.1 = field.1 then field else old
  else fields ++ [field]

/-- `dict(pairs)` -/
def dictOf (pairs : List (String × PyJson)) : List (String × PyJson) := pairs.foldl setItem []

/-- The character, skipped. -/
def expect (c : Char) (text : List Char) : Option (List Char) :=
  if text.head? = some c then some text.tail else none

mutual

/-- `scan_once`. The second number bounds the nesting, and the items of each
array or object; a document never has more than it has characters. -/
def value : Nat → List Char → Option (PyJson × List Char)
  | 0, _ => none
  | fuel + 1, text =>
    if text.head? = some '"' then
      (readString text.tail).map fun (string, rest) => (.string string, rest)
    else if text.head? = some '[' then
      let rest := skipBlank text.tail
      if rest.head? = some ']' then some (.array [], rest.tail)
      else (items fuel rest).map fun (items, rest) => (.array items, rest)
    else if text.head? = some '{' then
      let rest := skipBlank text.tail
      if rest.head? = some '}' then some (.object [], rest.tail)
      else (fields fuel rest).map fun (pairs, rest) => (.object (dictOf pairs), rest)
    else scalar floatText text

/-- `JSONArray`, from an item on. -/
def items : Nat → List Char → Option (List PyJson × List Char)
  | 0, _ => none
  | fuel + 1, text => do
    let (item, rest) ← value fuel text
    let rest := skipBlank rest
    if rest.head? = some ']' then return ([item], rest.tail)
    else
      let rest ← expect ',' rest
      let (more, rest) ← items fuel (skipBlank rest)
      return (item :: more, rest)

/-- `JSONObject`, from a key on. -/
def fields : Nat → List Char → Option (List (String × PyJson) × List Char)
  | 0, _ => none
  | fuel + 1, text => do
    let rest ← expect '"' text
    let (key, rest) ← readString rest
    let rest ← expect ':' (skipBlank rest)
    let (value, rest) ← value fuel (skipBlank rest)
    let rest := skipBlank rest
    if rest.head? = some '}' then return ([(String.ofList key, value)], rest.tail)
    else
      let rest ← expect ',' rest
      let (more, rest) ← fields fuel (skipBlank rest)
      return ((String.ofList key, value) :: more, rest)

end

/-- `json.loads`; without a value, its `ValueError`. -/
def loads (text : List Char) : Option PyJson := do
  let (value, rest) ← value floatText text.length (skipBlank text)
  if skipBlank rest = [] then some value else none

end Reading

/-! ## Strings -/

theorem hexValue_digitChar {n : Nat} (h : n < 16) : hexValue (Nat.digitChar n) = some n := by
  have hall : ∀ n < 16, hexValue (Nat.digitChar n) = some n := by decide
  exact hall n h

theorem readUnit_unitEscape {n : Nat} (h : n < 0x10000) (rest : List Char) :
    readUnit ((unitEscape n).drop 2 ++ rest) = some (n, rest) := by
  have hsum : ((n / 4096 * 16 + n / 256 % 16) * 16 + n / 16 % 16) * 16 + n % 16 = n := by omega
  show readUnit (_ :: _ :: _ :: _ :: rest) = _
  rw [readUnit, hexValue_digitChar (by omega), hexValue_digitChar (by omega),
    hexValue_digitChar (by omega), hexValue_digitChar (by omega)]
  show some (((n / 4096 * 16 + n / 256 % 16) * 16 + n / 16 % 16) * 16 + n % 16, rest) = _
  rw [hsum]

theorem toNat_lt (c : Char) : c.toNat < 0x110000 := by
  rcases c.valid with hlow | hhigh
  · have hlow : c.toNat < 0xd800 := hlow
    omega
  · exact hhigh.2

/-- A code unit that is no surrogate. -/
theorem readEscape_unit {c : Char} (h : c.toNat < 0x10000) (rest : List Char) :
    readEscape ((unitEscape c.toNat).tail ++ rest) = some (c, rest) := by
  have hvalid : c.toNat < 0xd800 ∨ 0xdfff < c.toNat := by
    rcases c.valid with hlow | hhigh
    · exact .inl hlow
    · exact .inr hhigh.1
  have hunit := readUnit_unitEscape h rest
  show readEscape ('u' :: ((unitEscape c.toNat).drop 2 ++ rest)) = _
  rw [readEscape, if_pos rfl, hunit]
  simp only [Option.bind_eq_bind, Option.bind_some]
  rw [if_neg (by omega), if_neg (by omega), Char.ofNat_toNat]
  rfl

/-- Two surrogates. -/
theorem readEscape_pair {high low : Nat} (hhigh : 0xd800 ≤ high ∧ high < 0xdc00)
    (hlow : 0xdc00 ≤ low ∧ low < 0xe000) (rest : List Char) :
    readEscape ((unitEscape high).tail ++ (unitEscape low ++ rest)) =
      some (Char.ofNat (0x10000 + (high - 0xd800) * 1024 + (low - 0xdc00)), rest) := by
  have hfirst := readUnit_unitEscape (n := high) (by omega) (unitEscape low ++ rest)
  have hsecond := readUnit_unitEscape (n := low) (by omega) rest
  have hshape : (unitEscape low ++ rest).take 2 = ['\\', 'u'] := rfl
  have hdrop : (unitEscape low ++ rest).drop 2 = (unitEscape low).drop 2 ++ rest := rfl
  show readEscape ('u' :: ((unitEscape high).drop 2 ++ (unitEscape low ++ rest))) = _
  rw [readEscape, if_pos rfl, hfirst]
  simp only [Option.bind_eq_bind, Option.bind_some]
  rw [if_pos hhigh, if_pos hshape, hdrop, hsecond, Option.bind_some]
  exact if_pos hlow

theorem readChar_escapeChar (c : Char) (rest : List Char) :
    readChar (escapeChar c ++ rest) = some (c, rest) := by
  have hescapes : ∀ field ∈ escapes, field.2 ≠ 'u' ∧
      (('/', '/') :: escapes).find? (·.2 = field.2) = some field := by decide
  rw [escapeChar]
  cases hletter : escapes.lookup c with
  | some letter =>
    have hmem : (c, letter) ∈ escapes := by
      obtain ⟨a, b, hsplit, -⟩ := List.lookup_eq_some_iff.mp hletter
      rw [hsplit]
      exact List.mem_append_right _ List.mem_cons_self
    obtain ⟨hu, hfind⟩ := hescapes _ hmem
    show readEscape (letter :: rest) = _
    rw [readEscape, if_neg hu, hfind]
    rfl
  | none =>
    have hslash : c ≠ '\\' := by
      rintro rfl
      cases hletter
    show readChar ((if _ then _ else if _ then _ else _) ++ rest) = _
    by_cases hplain : 32 ≤ c.toNat ∧ c.toNat ≤ 126
    · rw [if_pos hplain]
      show readChar (c :: rest) = _
      rw [readChar, if_neg hslash, if_neg (by omega)]
    · rw [if_neg hplain]
      by_cases hunit : c.toNat < 0x10000
      · rw [if_pos hunit]
        exact readEscape_unit hunit rest
      · rw [if_neg hunit, List.append_assoc]
        have hvalid := toNat_lt c
        have hhigh : 0xd800 ≤ 0xd800 + (c.toNat - 0x10000) / 1024 ∧
            0xd800 + (c.toNat - 0x10000) / 1024 < 0xdc00 := by omega
        have hlow : 0xdc00 ≤ 0xdc00 + (c.toNat - 0x10000) % 1024 ∧
            0xdc00 + (c.toNat - 0x10000) % 1024 < 0xe000 := by omega
        have hpair := readEscape_pair hhigh hlow rest
        have hsum : 0x10000 + (0xd800 + (c.toNat - 0x10000) / 1024 - 0xd800) * 1024 +
            (0xdc00 + (c.toNat - 0x10000) % 1024 - 0xdc00) = c.toNat := by omega
        rw [hsum, Char.ofNat_toNat] at hpair
        exact hpair

/-- No character is written with a quotation mark in front. -/
theorem head?_escapeChar (c : Char) (rest : List Char) :
    (escapeChar c ++ rest).head? ≠ some '"' := by
  rw [escapeChar]
  cases hletter : escapes.lookup c with
  | some letter => simp
  | none =>
    have hquote : c ≠ '"' := by
      rintro rfl
      cases hletter
    show ((if _ then _ else if _ then _ else _) ++ rest).head? ≠ _
    by_cases hplain : 32 ≤ c.toNat ∧ c.toNat ≤ 126
    · rw [if_pos hplain]
      simpa using hquote
    · rw [if_neg hplain]
      by_cases hunit : c.toNat < 0x10000
      · rw [if_pos hunit]
        simp [unitEscape]
      · rw [if_neg hunit]
        simp [unitEscape]

theorem escapeChar_ne_nil (c : Char) : escapeChar c ≠ [] := by
  intro h
  have := readChar_escapeChar c []
  rw [h] at this
  cases this

theorem scanString_escaped (text rest : List Char) {fuel : Nat} (h : text.length < fuel) :
    scanString fuel (text.flatMap escapeChar ++ '"' :: rest) = some (text, rest) := by
  induction text generalizing fuel with
  | nil =>
    obtain ⟨fuel, rfl⟩ := Nat.exists_eq_add_of_lt h
    rw [List.length_nil, Nat.zero_add] at *
    rfl
  | cons c text ih =>
    cases fuel with
    | zero => cases h
    | succ fuel =>
      rw [List.length_cons] at h
      rw [List.flatMap_cons, List.append_assoc, scanString, if_neg (head?_escapeChar c _),
        readChar_escapeChar]
      simp only [Option.bind_eq_bind, Option.bind_some, ih (show text.length < fuel by omega)]
      rfl

theorem length_le_flatMap_escapeChar (text : List Char) :
    text.length ≤ (text.flatMap escapeChar).length := by
  induction text with
  | nil => exact Nat.zero_le _
  | cons c text ih =>
    have := List.length_pos_iff.mpr (escapeChar_ne_nil c)
    rw [List.flatMap_cons, List.length_append, List.length_cons]
    omega

theorem readString_quote (text rest : List Char) :
    readString ((quote text).tail ++ rest) = some (text, rest) := by
  have hlen := length_le_flatMap_escapeChar text
  show readString ((text.flatMap escapeChar ++ ['"']) ++ rest) = _
  rw [List.append_assoc]
  show readString (text.flatMap escapeChar ++ '"' :: rest) = _
  apply scanString_escaped
  rw [List.length_append, List.length_cons]
  omega

/-! ## Numbers -/

/-- What stands behind a value in a document that was written. -/
def Ends (rest : List Char) : Prop := ∀ c ∈ rest.head?, c ∈ [',', ']', '}']

theorem exists_first_digit (n : Nat) :
    ∃ c digits, Nat.toDigits 10 n = c :: digits ∧ c.isDigit = true ∧ (c = '0' → n = 0) := by
  induction n using Nat.strongRecOn with
  | _ n ih =>
    by_cases hn : n < 10
    · have hall : ∀ n < 10, (Nat.digitChar n).isDigit = true ∧ (Nat.digitChar n = '0' → n = 0) := by
        decide
      exact ⟨_, [], Nat.toDigits_of_lt_base hn, hall n hn⟩
    · obtain ⟨c, digits, hdigits, hc, hzero⟩ := ih (n / 10) (by omega)
      refine ⟨c, digits ++ [Nat.digitChar (n % 10)], ?_, hc, ?_⟩
      · rw [Nat.toDigits_of_base_le (by omega) (by omega), hdigits, List.cons_append]
      · intro h
        have := hzero h
        omega

theorem not_isDigit_of_ends {rest : List Char} (h : Ends rest) : rest.takeWhile Char.isDigit = [] := by
  cases rest with
  | nil => rfl
  | cons c rest =>
    have hall : [',', ']', '}'].all (fun c => !c.isDigit) = true := by decide
    have hc := List.all_eq_true.mp hall c (h c rfl)
    rw [List.takeWhile_cons_of_neg]
    simpa using hc

/-- The digits of a number are read to their end. -/
theorem takeWhile_toDigits (n : Nat) {rest : List Char} (h : Ends rest) :
    (if (Nat.toDigits 10 n ++ rest).head? = some '0' then ['0']
      else (Nat.toDigits 10 n ++ rest).takeWhile Char.isDigit) = Nat.toDigits 10 n := by
  by_cases hn : n = 0
  · subst hn
    rfl
  · obtain ⟨c, digits, hdigits, -, hzero⟩ := exists_first_digit n
    have hhead : (Nat.toDigits 10 n ++ rest).head? ≠ some '0' := by
      rw [hdigits]
      intro h
      exact hn (hzero (Option.some.inj h))
    rw [if_neg hhead, List.takeWhile_append_of_pos, not_isDigit_of_ends h, List.append_nil]
    intro c hc
    exact Nat.isDigit_of_mem_toDigits (by omega) (by omega) hc

theorem fraction_of_ends {rest : List Char} (h : Ends rest) : fraction rest = [] := by
  rw [fraction, if_neg]
  rintro ⟨hpoint, -⟩
  exact absurd (h _ hpoint) (by decide)

theorem exponent_of_ends {rest : List Char} (h : Ends rest) : exponent rest = [] := by
  rw [exponent, if_neg]
  rintro ⟨hletter | hletter, -⟩
  · exact absurd (h _ hletter) (by decide)
  · exact absurd (h _ hletter) (by decide)

theorem number_writeInt (floatText : List Char → List Char) {n : Int} {rest : List Char}
    (hn : (Nat.toDigits 10 n.natAbs).length ≤ maxStrDigits) (h : Ends rest) :
    number floatText (writeInt n ++ rest) = some (.int n, rest) := by
  obtain ⟨c, digits, hdigits, hc, -⟩ := exists_first_digit n.natAbs
  have hread : ∀ sign : List Char, (sign = [] ∧ 0 ≤ n ∨ sign = ['-'] ∧ n < 0) →
      (if (sign ++ (Nat.toDigits 10 n.natAbs ++ rest)).head? = some '-' then ['-'] else []) = sign := by
    rintro sign (⟨rfl, -⟩ | ⟨rfl, -⟩)
    · rw [if_neg]
      rw [hdigits]
      intro hminus
      rw [Option.some.inj hminus] at hc
      cases hc
    · rfl
  obtain ⟨sign, hsign, hcase⟩ : ∃ sign, writeInt n = sign ++ Nat.toDigits 10 n.natAbs ∧
      (sign = [] ∧ 0 ≤ n ∨ sign = ['-'] ∧ n < 0) := by
    by_cases hneg : n < 0
    · exact ⟨['-'], by rw [writeInt, if_pos hneg], .inr ⟨rfl, hneg⟩⟩
    · exact ⟨[], by rw [writeInt, if_neg hneg], .inl ⟨rfl, by omega⟩⟩
  rw [hsign, List.append_assoc, number, hread sign hcase]
  simp only [List.drop_left, takeWhile_toDigits n.natAbs h, fraction_of_ends h, exponent_of_ends h,
    List.length_nil, List.drop_zero, List.append_nil, Nat.ofDigitChars_ten_toDigits]
  rw [if_neg (by simp), if_neg (by simp), if_neg (by omega)]
  rcases hcase with ⟨rfl, hnonneg⟩ | ⟨rfl, hneg⟩
  · rw [if_pos rfl, Int.natAbs_of_nonneg hnonneg]
  · rw [if_neg (by simp), Int.ofNat_natAbs_of_nonpos (by omega), Int.neg_neg]

/-! ## Values -/

/-- No `float`, no number that is too long to be read, and no key twice. -/
def Plain : PyJson → Prop
  | .int n => (Nat.toDigits 10 n.natAbs).length ≤ maxStrDigits
  | .float _ => False
  | .object fields => (fields.map Prod.fst).Nodup
  | _ => True

theorem dictOf_eq_self {pairs : List (String × PyJson)} (h : (pairs.map Prod.fst).Nodup) :
    dictOf pairs = pairs := by
  have hfold : ∀ done, ((done ++ pairs).map Prod.fst).Nodup → pairs.foldl setItem done = done ++ pairs := by
    clear h
    induction pairs with
    | nil =>
      intro done _
      rw [List.foldl_nil, List.append_nil]
    | cons pair pairs ih =>
      intro done h
      have hnew : pair.1 ∉ done.map Prod.fst := by
        rw [List.map_append, List.nodup_append] at h
        intro hmem
        exact h.2.2 _ hmem _ List.mem_cons_self rfl
      have hsplit : done ++ pair :: pairs = done ++ [pair] ++ pairs := by simp
      rw [List.foldl_cons, setItem, if_neg hnew, ih _ (hsplit ▸ h), hsplit]
  exact hfold [] h

theorem skipBlank_cons {c : Char} (h : isBlank c = false) (text : List Char) :
    skipBlank (c :: text) = c :: text := by
  rw [skipBlank, List.dropWhile_cons_of_neg]
  simpa using h

theorem ends_cons {c : Char} (h : c ∈ [',', ']', '}']) (rest : List Char) : Ends (c :: rest) := by
  intro d hd
  obtain rfl := Option.some.inj hd
  exact h

theorem isBlank_of_isDigit {c : Char} (h : c.isDigit = true) : isBlank c = false := by
  by_contra hblank
  rw [Bool.not_eq_false] at hblank
  simp only [isBlank, Bool.or_eq_true, decide_eq_true_eq, or_assoc] at hblank
  rcases hblank with rfl | rfl | rfl | rfl
  · cases h
  · cases h
  · cases h
  · cases h

section Written

variable {blank : List Char} {v : PyJson}

theorem exists_first_writeInt (n : Int) :
    ∃ c text, writeInt n = c :: text ∧ (c = '-' ∨ c.isDigit = true) := by
  obtain ⟨c, digits, hdigits, hc, -⟩ := exists_first_digit n.natAbs
  by_cases hneg : n < 0
  · exact ⟨'-', Nat.toDigits 10 n.natAbs, by rw [writeInt, if_pos hneg]; rfl, .inl rfl⟩
  · exact ⟨c, digits, by rw [writeInt, if_neg hneg, hdigits]; rfl, .inr hc⟩

/-- How a value begins. -/
theorem exists_first_write (blank : List Char) (h : PyJson.Everywhere Plain v) :
    ∃ c text, write blank v = c :: text ∧ isBlank c = false ∧ c ≠ ']' := by
  cases v with
  | null => exact ⟨_, _, rfl, by decide, by decide⟩
  | bool value => cases value <;> exact ⟨_, _, rfl, by decide, by decide⟩
  | int n =>
    obtain ⟨c, text, htext, hc⟩ := exists_first_writeInt n
    refine ⟨c, text, htext, ?_⟩
    rcases hc with rfl | hc
    · decide
    · refine ⟨isBlank_of_isDigit hc, ?_⟩
      rintro rfl
      cases hc
  | float literal => exact absurd h id
  | string text => exact ⟨_, _, rfl, by decide, by decide⟩
  | array items => exact ⟨_, _, rfl, by decide, by decide⟩
  | object fields => exact ⟨_, _, rfl, by decide, by decide⟩

theorem write_ne_nil (blank : List Char) (h : PyJson.Everywhere Plain v) : write blank v ≠ [] := by
  obtain ⟨c, text, htext, -⟩ := exists_first_write blank h
  rw [htext]
  exact List.cons_ne_nil c text

theorem skipBlank_write (h : PyJson.Everywhere Plain v) (rest : List Char) :
    skipBlank (write blank v ++ rest) = write blank v ++ rest := by
  obtain ⟨c, text, htext, hc, -⟩ := exists_first_write blank h
  rw [htext, List.cons_append, skipBlank_cons hc]

theorem skipBlank_blank (hblank : ∀ c ∈ blank, isBlank c = true) (text : List Char) :
    skipBlank (blank ++ text) = skipBlank text := by
  rw [skipBlank, List.dropWhile_append_of_pos hblank]
  rfl

theorem value_writeInt (floatText : List Char → List Char) {n : Int} {rest : List Char} {fuel : Nat}
    (hn : PyJson.Everywhere Plain (.int n)) (h : Ends rest) :
    value floatText (fuel + 1) (writeInt n ++ rest) = some (.int n, rest) := by
  obtain ⟨c, text, htext, hc⟩ := exists_first_writeInt n
  have hother : ∀ d : Char, d ≠ '-' → d.isDigit = false → (writeInt n ++ rest).head? ≠ some d := by
    intro d hminus hdigit hd
    rw [htext] at hd
    obtain rfl := Option.some.inj hd
    rcases hc with rfl | hc
    · exact hminus rfl
    · rw [hdigit] at hc
      cases hc
  rw [value, if_neg (hother '"' (by decide) (by decide)), if_neg (hother '[' (by decide) (by decide)),
    if_neg (hother '{' (by decide) (by decide)), scalar, number_writeInt floatText hn h]

theorem value_quote (floatText : List Char → List Char) (fuel : Nat) (text rest : List Char) :
    value floatText (fuel + 1) (quote text ++ rest) = some (.string text, rest) := by
  have hhead : (quote text ++ rest).head? = some '"' := rfl
  have htail : (quote text ++ rest).tail = (quote text).tail ++ rest := rfl
  rw [value, if_pos hhead, htail, readString_quote]
  rfl

theorem value_bracket (floatText : List Char → List Char) (fuel : Nat) {text : List Char}
    (hskip : skipBlank text = text) (hhead : text.head? ≠ some ']') :
    value floatText (fuel + 1) ('[' :: text) =
      (items floatText fuel text).map fun (items, rest) => (.array items, rest) := by
  have hstring : ('[' :: text).head? ≠ some '"' := by simp
  have hopen : ('[' :: text).head? = some '[' := rfl
  rw [value, if_neg hstring, if_pos hopen, List.tail_cons, hskip]
  exact if_neg hhead

theorem value_brace (floatText : List Char → List Char) (fuel : Nat) {text : List Char}
    (hskip : skipBlank text = text) (hhead : text.head? ≠ some '}') :
    value floatText (fuel + 1) ('{' :: text) =
      (fields floatText fuel text).map fun (pairs, rest) => (.object (dictOf pairs), rest) := by
  have hstring : ('{' :: text).head? ≠ some '"' := by simp
  have harray : ('{' :: text).head? ≠ some '[' := by simp
  have hopen : ('{' :: text).head? = some '{' := rfl
  rw [value, if_neg hstring, if_neg harray, if_pos hopen, List.tail_cons, hskip]
  exact if_neg hhead

/-- The last item of an array. -/
theorem items_last {floatText : List Char → List Char} {fuel : Nat} {text rest : List Char}
    (hv : value floatText fuel (text ++ ']' :: rest) = some (v, ']' :: rest)) :
    items floatText (fuel + 1) (text ++ ']' :: rest) = some ([v], rest) := by
  rw [items, hv]
  rfl

/-- An item of an array, and those behind it. -/
theorem items_cons {floatText : List Char → List Char} {fuel : Nat} {text after rest : List Char}
    {more : List PyJson} (hblank : ∀ c ∈ blank, isBlank c = true)
    (hv : value floatText fuel (text ++ ',' :: (blank ++ after)) = some (v, ',' :: (blank ++ after)))
    (hskip : skipBlank after = after) (hmore : items floatText fuel after = some (more, rest)) :
    items floatText (fuel + 1) (text ++ ',' :: (blank ++ after)) = some (v :: more, rest) := by
  have hcomma : skipBlank (',' :: (blank ++ after)) = ',' :: (blank ++ after) :=
    skipBlank_cons (by decide) _
  have hclose : (',' :: (blank ++ after)).head? ≠ some ']' := by simp
  rw [items, hv]
  simp only [Option.bind_eq_bind, Option.bind_some]
  rw [hcomma, if_neg hclose]
  show (items floatText fuel (skipBlank (blank ++ after))).bind _ = _
  rw [skipBlank_blank hblank, hskip, hmore]
  rfl

/-- The key and the value of a field. -/
theorem fields_field {floatText : List Char → List Char} {fuel : Nat} (key : String)
    {text after : List Char} (hblank : ∀ c ∈ blank, isBlank c = true)
    (hskip : skipBlank (text ++ after) = text ++ after)
    (hv : value floatText fuel (text ++ after) = some (v, after)) :
    fields floatText (fuel + 1) (quote key.toList ++ ':' :: (blank ++ text) ++ after) =
      (let rest := skipBlank after
      if rest.head? = some '}' then some ([(key, v)], rest.tail)
      else
        (expect ',' rest).bind fun rest =>
          (fields floatText fuel (skipBlank rest)).bind fun more => some ((key, v) :: more.1, more.2)) := by
  have hquote : expect '"' (quote key.toList ++ ':' :: (blank ++ text) ++ after) =
      some ((quote key.toList).tail ++ ':' :: (blank ++ (text ++ after))) := by
    rw [List.append_assoc, List.cons_append, List.append_assoc]
    rfl
  have hcolon : expect ':' (skipBlank (':' :: (blank ++ (text ++ after)))) =
      some (blank ++ (text ++ after)) := rfl
  rw [fields, hquote]
  simp only [Option.bind_eq_bind, Option.bind_some, readString_quote, hcolon,
    skipBlank_blank hblank, hskip, hv, String.ofList_toList]
  rfl

theorem fields_last {floatText : List Char → List Char} {fuel : Nat} (key : String)
    {text rest : List Char} (hblank : ∀ c ∈ blank, isBlank c = true)
    (hskip : skipBlank (text ++ '}' :: rest) = text ++ '}' :: rest)
    (hv : value floatText fuel (text ++ '}' :: rest) = some (v, '}' :: rest)) :
    fields floatText (fuel + 1) (quote key.toList ++ ':' :: (blank ++ text) ++ '}' :: rest) =
      some ([(key, v)], rest) := by
  rw [fields_field key hblank hskip hv]
  rfl

theorem fields_cons {floatText : List Char → List Char} {fuel : Nat} (key : String)
    {text after rest : List Char} {more : List (String × PyJson)}
    (hblank : ∀ c ∈ blank, isBlank c = true)
    (hskip : skipBlank (text ++ ',' :: (blank ++ after)) = text ++ ',' :: (blank ++ after))
    (hv : value floatText fuel (text ++ ',' :: (blank ++ after)) = some (v, ',' :: (blank ++ after)))
    (hafter : skipBlank after = after) (hmore : fields floatText fuel after = some (more, rest)) :
    fields floatText (fuel + 1) (quote key.toList ++ ':' :: (blank ++ text) ++ ',' :: (blank ++ after)) =
      some ((key, v) :: more, rest) := by
  have hcomma : skipBlank (',' :: (blank ++ after)) = ',' :: (blank ++ after) :=
    skipBlank_cons (by decide) _
  have hclose : (',' :: (blank ++ after)).head? ≠ some '}' := by simp
  rw [fields_field key hblank hskip hv, hcomma]
  show (if _ then _ else _) = _
  rw [if_neg hclose]
  show (fields floatText fuel (skipBlank (blank ++ after))).bind _ = _
  rw [skipBlank_blank hblank, hafter, hmore]
  rfl

theorem join_cons_cons (first second : List Char) (more : List (List Char)) :
    join (',' :: blank) (first :: second :: more) =
      first ++ ',' :: (blank ++ join (',' :: blank) (second :: more)) := by
  rw [PyText.join_cons _ _ (List.cons_ne_nil second more), List.append_assoc, List.cons_append]

theorem skipBlank_of_head? {c : Char} {text : List Char} (h : text.head? = some c)
    (hc : isBlank c = false) : skipBlank text = text := by
  cases text with
  | nil => cases h
  | cons d text =>
    obtain rfl := Option.some.inj h
    exact skipBlank_cons hc text

/-- What the items of an array begin with. -/
theorem head?_writeItems (blank : List Char) {item : PyJson} (items : List PyJson)
    (h : PyJson.Everywhere Plain item) (rest : List Char) :
    ∃ c, (join (',' :: blank) (writeItems blank (item :: items)) ++ rest).head? = some c ∧
      isBlank c = false ∧ c ≠ ']' := by
  obtain ⟨c, text, htext, hc⟩ := exists_first_write blank h
  refine ⟨c, ?_, hc⟩
  cases items with
  | nil =>
    rw [writeItems, writeItems, htext, join, List.intercalate_singleton]
    rfl
  | cons next items =>
    rw [writeItems, writeItems, join_cons_cons, htext]
    rfl

theorem head?_writeFields (blank : List Char) (field : String × PyJson)
    (fields : List (String × PyJson)) (rest : List Char) :
    (join (',' :: blank) (writeFields blank (field :: fields)) ++ rest).head? = some '"' := by
  cases fields with
  | nil => rfl
  | cons next fields =>
    rw [writeFields, writeFields, join_cons_cons]
    rfl

variable (floatText : List Char → List Char)

mutual

theorem value_write (hblank : ∀ c ∈ blank, isBlank c = true) : ∀ v, PyJson.Everywhere Plain v →
    ∀ fuel rest, (write blank v).length ≤ fuel → Ends rest →
      value floatText fuel (write blank v ++ rest) = some (v, rest)
  | v, hv, 0, rest, hfuel, _ => by
    exact absurd (List.length_eq_zero_iff.mp (Nat.le_zero.mp hfuel)) (write_ne_nil blank hv)
  | .null, _, fuel + 1, rest, _, _ => by rfl
  | .bool true, _, fuel + 1, rest, _, _ => by rfl
  | .bool false, _, fuel + 1, rest, _, _ => by rfl
  | .int n, hv, fuel + 1, rest, _, hrest => value_writeInt floatText hv hrest
  | .float _, hv, _, _, _, _ => absurd hv id
  | .string text, _, fuel + 1, rest, _, _ => value_quote floatText fuel text rest
  | .array [], _, fuel + 1, rest, _, _ => by rfl
  | .array (item :: items), hv, fuel + 1, rest, hfuel, _ => by
    have hlen : (write blank (.array (item :: items))).length =
        (join (',' :: blank) (writeItems blank (item :: items))).length + 2 := by
      simp [write]
    have hitems := items_write hblank (item :: items) (List.cons_ne_nil _ _) hv.2 fuel rest (by omega)
    obtain ⟨c, hhead, hc, hclose⟩ := head?_writeItems blank items hv.2.1 (']' :: rest)
    have hwritten : write blank (.array (item :: items)) ++ rest =
        '[' :: (join (',' :: blank) (writeItems blank (item :: items)) ++ ']' :: rest) := by
      simp [write]
    rw [hwritten, value_bracket]
    · rw [hitems]
      rfl
    · exact skipBlank_of_head? hhead hc
    · rw [hhead]
      simpa using hclose
  | .object [], _, fuel + 1, rest, _, _ => by rfl
  | .object (field :: fields), hv, fuel + 1, rest, hfuel, _ => by
    have hlen : (write blank (.object (field :: fields))).length =
        (join (',' :: blank) (writeFields blank (field :: fields))).length + 2 := by
      simp [write]
    have hfields := fields_write hblank (field :: fields) (List.cons_ne_nil _ _) hv.2 fuel rest
      (by omega)
    have hhead := head?_writeFields blank field fields ('}' :: rest)
    have hwritten : write blank (.object (field :: fields)) ++ rest =
        '{' :: (join (',' :: blank) (writeFields blank (field :: fields)) ++ '}' :: rest) := by
      simp [write]
    rw [hwritten, value_brace]
    · rw [hfields]
      show some (PyJson.object (dictOf (field :: fields)), rest) = _
      rw [dictOf_eq_self hv.1]
    · exact skipBlank_of_head? hhead (by decide)
    · rw [hhead]
      simp

theorem items_write (hblank : ∀ c ∈ blank, isBlank c = true) : ∀ list, list ≠ [] →
    PyJson.EverywhereItems Plain list → ∀ fuel rest,
      (join (',' :: blank) (writeItems blank list)).length < fuel →
        items floatText fuel (join (',' :: blank) (writeItems blank list) ++ ']' :: rest) =
          some (list, rest)
  | [], hne, _, _, _, _ => absurd rfl hne
  | _ :: _, _, _, 0, _, hfuel => by cases hfuel
  | [item], _, hitem, fuel + 1, rest, hfuel => by
    have hjoin : join (',' :: blank) (writeItems blank [item]) = write blank item :=
      List.intercalate_singleton
    rw [hjoin] at hfuel ⊢
    apply items_last
    exact value_write hblank item hitem.1 fuel _ (by omega) (ends_cons (by decide) rest)
  | item :: next :: more, _, hitems, fuel + 1, rest, hfuel => by
    rw [writeItems, writeItems, join_cons_cons] at hfuel ⊢
    rw [List.length_append, List.length_cons, List.length_append] at hfuel
    obtain ⟨c, hhead, hc, -⟩ := head?_writeItems blank more hitems.2.1 (']' :: rest)
    have hmore := items_write hblank (next :: more) (List.cons_ne_nil _ _) hitems.2 fuel rest
    rw [writeItems] at hhead hmore
    rw [List.append_assoc, List.cons_append, List.append_assoc]
    apply items_cons hblank
    · exact value_write hblank item hitems.1 fuel _ (by omega) (ends_cons (by decide) _)
    · exact skipBlank_of_head? hhead hc
    · exact hmore (by omega)

theorem fields_write (hblank : ∀ c ∈ blank, isBlank c = true) : ∀ list, list ≠ [] →
    PyJson.EverywhereFields Plain list → ∀ fuel rest,
      (join (',' :: blank) (writeFields blank list)).length < fuel →
        fields floatText fuel (join (',' :: blank) (writeFields blank list) ++ '}' :: rest) =
          some (list, rest)
  | [], hne, _, _, _, _ => absurd rfl hne
  | _ :: _, _, _, 0, _, hfuel => by cases hfuel
  | [(key, v)], _, hfield, fuel + 1, rest, hfuel => by
    have hjoin : join (',' :: blank) (writeFields blank [(key, v)]) =
        quote key.toList ++ ':' :: (blank ++ write blank v) := List.intercalate_singleton
    rw [hjoin] at hfuel ⊢
    rw [List.length_append, List.length_cons, List.length_append] at hfuel
    apply fields_last key hblank
    · exact skipBlank_write hfield.1 _
    · exact value_write hblank v hfield.1 fuel _ (by omega) (ends_cons (by decide) rest)
  | (key, v) :: next :: more, _, hfields, fuel + 1, rest, hfuel => by
    have hhead := head?_writeFields blank next more ('}' :: rest)
    have hmore := fields_write hblank (next :: more) (List.cons_ne_nil _ _) hfields.2 fuel rest
    rw [writeFields, writeFields, join_cons_cons] at hfuel ⊢
    rw [writeFields] at hhead hmore
    rw [List.length_append, List.length_append, List.length_cons, List.length_cons,
      List.length_append, List.length_append] at hfuel
    rw [List.append_assoc, List.cons_append, List.append_assoc blank]
    apply fields_cons key hblank
    · exact skipBlank_write hfields.1 _
    · exact value_write hblank v hfields.1 fuel _ (by omega) (ends_cons (by decide) _)
    · exact skipBlank_of_head? hhead (by decide)
    · exact hmore (by omega)

end

/-- What is written is read again. -/
theorem loads_write (hblank : ∀ c ∈ blank, isBlank c = true) (hv : PyJson.Everywhere Plain v) :
    loads floatText (write blank v) = some v := by
  have hread := value_write floatText hblank v hv _ [] (Nat.le_refl _) (by intro c hc; cases hc)
  rw [List.append_nil] at hread
  have hskip : skipBlank (write blank v ++ []) = write blank v ++ [] := skipBlank_write hv []
  rw [List.append_nil] at hskip
  rw [loads, hskip, hread]
  rfl

end Written

/-- A written integer is digits, and a sign. -/
theorem mem_writeInt {n : Int} {c : Char} (h : c ∈ writeInt n) : c = '-' ∨ c.isDigit = true := by
  rcases List.mem_append.mp h with hsign | hdigit
  · split at hsign
    · exact .inl (List.mem_singleton.mp hsign)
    · cases hsign
  · exact .inr (Nat.isDigit_of_mem_toDigits (by omega) (by omega) hdigit)

theorem writeInt_injective : Function.Injective writeInt := by
  have habs : ∀ {m n : Int}, Nat.toDigits 10 m.natAbs = Nat.toDigits 10 n.natAbs → m.natAbs = n.natAbs := by
    intro m n h
    rw [← Nat.ofDigitChars_ten_toDigits (n := m.natAbs), h, Nat.ofDigitChars_ten_toDigits]
  have hsign : ∀ n : Int, '-' ∉ Nat.toDigits 10 n.natAbs := by
    intro n hmem
    exact absurd (Nat.isDigit_of_mem_toDigits (by omega) (by omega) hmem) (by decide)
  intro m n h
  unfold writeInt at h
  by_cases hm : m < 0
  · by_cases hn : n < 0
    · rw [if_pos hm, if_pos hn] at h
      have hnat := habs (List.append_cancel_left h)
      omega
    · rw [if_pos hm, if_neg hn] at h
      have hmem : '-' ∈ [] ++ Nat.toDigits 10 n.natAbs := h ▸ List.mem_cons_self
      exact absurd hmem (hsign n)
  · by_cases hn : n < 0
    · rw [if_neg hm, if_pos hn] at h
      have hmem : '-' ∈ [] ++ Nat.toDigits 10 m.natAbs := h ▸ List.mem_cons_self
      exact absurd hmem (hsign m)
    · rw [if_neg hm, if_neg hn] at h
      have hnat := habs h
      omega

end JsonText

end LlmService
