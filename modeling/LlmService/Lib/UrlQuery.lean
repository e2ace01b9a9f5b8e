import LlmService.Lib.Url
import Mathlib.Data.List.SplitBy

/-!
# URL queries

`parse_qsl` and `urlencode` of `urllib.parse`: what is encoded is parsed
again as it was (`parseQsl_urlencode`), for every decoding of bytes that gives
back encoded text.
-/

namespace LlmService.Url

open PyText (hexValue)

/-- `text.encode("utf-8")` -/
def encodeUtf8 (text : List Char) : List UInt8 := text.flatMap String.utf8EncodeChar

/-- `_ALWAYS_SAFE` -/
def isAlwaysSafe (b : UInt8) : Bool :=
  (65 ≤ b && b ≤ 90) || (97 ≤ b && b ≤ 122) || (48 ≤ b && b ≤ 57)
    || b == 95 || b == 46 || b == 45 || b == 126

def hexDigit (n : Nat) : Char := Char.ofNat (if n < 10 then 48 + n else 55 + n)

/-- One byte in `quote_plus`. -/
def quoteByte (b : UInt8) : List Char :=
  if isAlwaysSafe b then [Char.ofNat b.toNat]
  else if b = 32 then ['+']
  else ['%', hexDigit (b.toNat / 16), hexDigit (b.toNat % 16)]

def quotePlus (text : List Char) : List Char := (encodeUtf8 text).flatMap quoteByte

/-- `_hextobyte` -/
def hexByte (a b : Char) : Option UInt8 :=
  match hexValue a, hexValue b with
  | some high, some low => some (UInt8.ofNat (16 * high + low))
  | _, _ => none

/-- `unquote_to_bytes`: a percent sign that no two hexadecimal digits follow stays. -/
def unquoteToBytes : List Char → List UInt8
  | [] => []
  | '%' :: a :: b :: rest =>
    match hexByte a b with
    | some byte => byte :: unquoteToBytes rest
    -- the two characters behind the sign are read again
    | none => String.utf8EncodeChar '%' ++ unquoteToBytes (a :: b :: rest)
  | c :: rest => String.utf8EncodeChar c ++ unquoteToBytes rest

def isAscii (c : Char) : Bool := c.toNat < 128

variable (decode : List UInt8 → List Char)

/-- `unquote`; `decode` is `bytes.decode("utf-8", "replace")`. -/
def unquote (text : List Char) : List Char :=
  if '%' ∈ text then
    (text.splitBy fun a b => isAscii a == isAscii b).flatMap fun run =>
      if run.all isAscii then decode (unquoteToBytes run) else run
  else text

/-- `unquote_plus` -/
def unquotePlus (text : List Char) : List Char :=
  unquote decode (text.map fun c => if c = '+' then ' ' else c)

/-- `parse_qsl(qs, keep_blank_values=True)` -/
def parseQsl (qs : List Char) : List (List Char × List Char) :=
  (qs.splitOn '&').filterMap fun field =>
    if field = [] then none
    else some (unquotePlus decode (cutAt '=' field).1, unquotePlus decode (cutAt '=' field).2)

def urlencode (query : List (List Char × List Char)) : List Char :=
  PyText.join ['&'] (query.map fun field => quotePlus field.1 ++ '=' :: quotePlus field.2)

/-! ## Encoding and parsing -/

theorem hexValue_hexDigit {n : Nat} (h : n < 16) : hexValue (hexDigit n) = some n := by
  have hall : ∀ n < 16, hexValue (hexDigit n) = some n := by decide
  exact hall n h

theorem hexDigit_spec {n : Nat} (h : n < 16) :
    isAscii (hexDigit n) = true ∧ hexDigit n ≠ '+' ∧ hexDigit n ≠ '&' ∧ hexDigit n ≠ '=' ∧
      hexDigit n ≠ '#' ∧ PyText.isSpace (hexDigit n) = false := by
  have hall : ∀ n < 16, isAscii (hexDigit n) = true ∧ hexDigit n ≠ '+' ∧ hexDigit n ≠ '&' ∧
      hexDigit n ≠ '=' ∧ hexDigit n ≠ '#' ∧ PyText.isSpace (hexDigit n) = false := by decide
  exact hall n h

theorem hexByte_hexDigit (b : UInt8) :
    hexByte (hexDigit (b.toNat / 16)) (hexDigit (b.toNat % 16)) = some b := by
  have hlt := b.toNat_lt
  rw [hexByte, hexValue_hexDigit (by omega), hexValue_hexDigit (by omega)]
  simp only [Option.some.injEq]
  have hsum : 16 * (b.toNat / 16) + b.toNat % 16 = b.toNat := by omega
  rw [hsum]
  exact UInt8.ofNat_toNat

theorem unquoteToBytes_cons {c : Char} (h : c ≠ '%') (rest : List Char) :
    unquoteToBytes (c :: rest) = String.utf8EncodeChar c ++ unquoteToBytes rest := by
  match rest with
  | [] => simp [unquoteToBytes]
  | [_] => simp [unquoteToBytes]
  | _ :: _ :: _ => simp [unquoteToBytes, h]

/-- One byte as `quote_plus` writes it: an ASCII character that `unquote_plus`
reads as itself, a space, or two hexadecimal digits. -/
theorem quoteByte_cases (b : UInt8) :
    (∃ c : Char, quoteByte b = [c] ∧ c ≠ '+' ∧ c ≠ '%' ∧ c ≠ '&' ∧ c ≠ '=' ∧ c ≠ '#' ∧
        isAscii c = true ∧ PyText.isSpace c = false ∧ String.utf8EncodeChar c = [b]) ∨
      quoteByte b = ['+'] ∧ b = 32 ∨
      quoteByte b = ['%', hexDigit (b.toNat / 16), hexDigit (b.toNat % 16)] := by
  rw [quoteByte]
  by_cases hsafe : isAlwaysSafe b = true
  · rw [if_pos hsafe]
    left
    refine ⟨_, rfl, ?_⟩
    have hall : ∀ n < 256, isAlwaysSafe (UInt8.ofNat n) = true →
        Char.ofNat n ≠ '+' ∧ Char.ofNat n ≠ '%' ∧ Char.ofNat n ≠ '&' ∧ Char.ofNat n ≠ '=' ∧
          Char.ofNat n ≠ '#' ∧ isAscii (Char.ofNat n) = true ∧
          PyText.isSpace (Char.ofNat n) = false ∧
          String.utf8EncodeChar (Char.ofNat n) = [UInt8.ofNat n] := by
      decide +kernel
    -- the bytes are run through once
    have := hall b.toNat b.toNat_lt
    rw [UInt8.ofNat_toNat] at this
    exact this hsafe
  · rw [if_neg hsafe]
    by_cases hspace : b = 32
    · rw [if_pos hspace]
      exact .inr (.inl ⟨rfl, hspace⟩)
    · rw [if_neg hspace]
      exact .inr (.inr rfl)

/-- What `quote_plus` writes has no character that separates fields or ends a query. -/
theorem quotePlus_spec {text : List Char} {c : Char} (h : c ∈ quotePlus text) :
    c ≠ '&' ∧ c ≠ '=' ∧ c ≠ '#' ∧ isAscii c = true ∧ PyText.isSpace c = false := by
  obtain ⟨b, -, hc⟩ := List.mem_flatMap.mp h
  have hlt := b.toNat_lt
  rcases quoteByte_cases b with ⟨d, hb, -, -, hamp, heq, hhash, hascii, hspace, -⟩ | ⟨hb, -⟩ | hb
  · rw [hb, List.mem_singleton] at hc
    subst hc
    exact ⟨hamp, heq, hhash, hascii, hspace⟩
  · rw [hb, List.mem_singleton] at hc
    subst hc
    decide
  · rw [hb] at hc
    rcases List.mem_cons.mp hc with rfl | hc
    · decide
    · rcases List.mem_cons.mp hc with rfl | hc
      · have := hexDigit_spec (n := b.toNat / 16) (by omega)
        exact ⟨this.2.2.1, this.2.2.2.1, this.2.2.2.2.1, this.1, this.2.2.2.2.2⟩
      · rw [List.mem_singleton] at hc
        subst hc
        have := hexDigit_spec (n := b.toNat % 16) (by omega)
        exact ⟨this.2.2.1, this.2.2.2.1, this.2.2.2.2.1, this.1, this.2.2.2.2.2⟩

/-- `+` is read as a space. -/
def plusToSpace (text : List Char) : List Char := text.map fun c => if c = '+' then ' ' else c

theorem unquoteToBytes_quoted (bytes : List UInt8) (rest : List Char) :
    unquoteToBytes (plusToSpace (bytes.flatMap quoteByte) ++ rest) =
      bytes ++ unquoteToBytes rest := by
  induction bytes with
  | nil => rfl
  | cons b bytes ih =>
    have hlt := b.toNat_lt
    rw [List.flatMap_cons, plusToSpace, List.map_append, List.append_assoc]
    rw [plusToSpace] at ih
    rcases quoteByte_cases b with ⟨c, hb, hplus, hpercent, -, -, -, -, -, hencode⟩ | ⟨hb, rfl⟩ | hb
    · rw [hb, List.map_singleton, if_neg hplus, List.singleton_append,
        unquoteToBytes_cons hpercent, ih, hencode]
      rfl
    · rw [hb, List.map_singleton, if_pos rfl, List.singleton_append,
        unquoteToBytes_cons (by decide), ih]
      rfl
    · have hhigh := (hexDigit_spec (n := b.toNat / 16) (by omega)).2.1
      have hlow := (hexDigit_spec (n := b.toNat % 16) (by omega)).2.1
      have hmap : (['%', hexDigit (b.toNat / 16), hexDigit (b.toNat % 16)].map
          fun c => if c = '+' then ' ' else c) =
          ['%', hexDigit (b.toNat / 16), hexDigit (b.toNat % 16)] := by
        simp [hhigh, hlow]
      rw [hb, hmap]
      simp only [List.cons_append, List.nil_append, unquoteToBytes, hexByte_hexDigit, ih]

/-- Text without a percent sign is its own bytes. -/
theorem unquoteToBytes_of_not_mem {text : List Char} (h : '%' ∉ text) :
    unquoteToBytes text = encodeUtf8 text := by
  induction text with
  | nil => rfl
  | cons c text ih =>
    have hc : c ≠ '%' := fun heq => h (by rw [heq]; exact List.mem_cons_self)
    rw [unquoteToBytes_cons hc, ih fun hmem => h (List.mem_cons_of_mem _ hmem)]
    rfl

variable {decode}

/-- What is quoted is unquoted as it was. -/
theorem unquotePlus_quotePlus (hdecode : ∀ text, decode (encodeUtf8 text) = text)
    (text : List Char) : unquotePlus decode (quotePlus text) = text := by
  have hbytes : unquoteToBytes (plusToSpace (quotePlus text)) = encodeUtf8 text := by
    have h := unquoteToBytes_quoted (encodeUtf8 text) []
    simpa [unquoteToBytes, quotePlus] using h
  have hascii : ∀ c ∈ plusToSpace (quotePlus text), isAscii c = true := by
    intro c hc
    obtain ⟨d, hd, rfl⟩ := List.mem_map.mp hc
    split
    · decide
    · exact (quotePlus_spec hd).2.2.2.1
  show unquote decode (plusToSpace (quotePlus text)) = text
  generalize plusToSpace (quotePlus text) = quoted at hbytes hascii
  rw [unquote]
  by_cases hpercent : '%' ∈ quoted
  · rw [if_pos hpercent]
    -- what is quoted is one run of ASCII
    have hchain : quoted.IsChain fun a b => (isAscii a == isAscii b) = true := by
      apply List.isChain_iff_getElem.mpr
      intro i hi
      rw [hascii _ (List.getElem_mem _), hascii _ (List.getElem_mem _)]
      rfl
    rw [List.splitBy_of_isChain (List.ne_nil_of_mem hpercent) hchain, List.flatMap_singleton,
      if_pos (List.all_eq_true.mpr hascii), hbytes, hdecode]
  · rw [if_neg hpercent]
    rw [unquoteToBytes_of_not_mem hpercent] at hbytes
    rw [← hdecode quoted, hbytes, hdecode]

/-- What is encoded is parsed as it was. -/
theorem parseQsl_urlencode (hdecode : ∀ text, decode (encodeUtf8 text) = text)
    (query : List (List Char × List Char)) : parseQsl decode (urlencode query) = query := by
  have hfield : ∀ field : List Char × List Char,
      cutAt '=' (quotePlus field.1 ++ '=' :: quotePlus field.2) =
        (quotePlus field.1, quotePlus field.2) := by
    intro field
    apply cutAt_append_cons
    intro h
    exact (quotePlus_spec h).2.1 rfl
  by_cases hnone : query = []
  · subst hnone
    rfl
  · have hsplit : (urlencode query).splitOn '&' =
        query.map fun field => quotePlus field.1 ++ '=' :: quotePlus field.2 := by
      apply List.splitOn_intercalate
      · intro field hfield hmem
        obtain ⟨field, -, rfl⟩ := List.mem_map.mp hfield
        rcases List.mem_append.mp hmem with hmem | hmem
        · exact (quotePlus_spec hmem).1 rfl
        · rcases List.mem_cons.mp hmem with hmem | hmem
          · exact absurd hmem (by decide)
          · exact (quotePlus_spec hmem).1 rfl
      · simpa using hnone
    rw [parseQsl, hsplit, List.filterMap_map]
    have hsome : ∀ field ∈ query, ((fun field : List Char => if field = [] then none
        else some (unquotePlus decode (cutAt '=' field).1, unquotePlus decode (cutAt '=' field).2))
          ∘ fun field : List Char × List Char => quotePlus field.1 ++ '=' :: quotePlus field.2) field
        = some field := by
      intro field _
      simp only [Function.comp_apply, hfield]
      rw [if_neg (by simp), unquotePlus_quotePlus hdecode, unquotePlus_quotePlus hdecode]
    rw [List.filterMap_congr hsome]
    exact List.filterMap_some

/-- An encoded query is empty only without fields. -/
theorem urlencode_eq_nil_iff (query : List (List Char × List Char)) :
    urlencode query = [] ↔ query = [] := by
  constructor
  · intro h
    cases query with
    | nil => rfl
    | cons field query =>
      have hmem : (quotePlus field.1 ++ '=' :: quotePlus field.2) <:+: urlencode (field :: query) :=
        PyText.infix_join List.mem_cons_self
      rw [h] at hmem
      simpa using List.eq_nil_of_infix_nil hmem
  · intro h
    rw [h]
    rfl

/-- No character of an encoded query ends it, or is white space. -/
theorem urlencode_spec {query : List (List Char × List Char)} {c : Char}
    (h : c ∈ urlencode query) : c ≠ '#' ∧ PyText.isSpace c = false := by
  rcases PyText.mem_join h with h | ⟨part, hpart, h⟩
  · rw [List.mem_singleton] at h
    subst h
    decide
  · obtain ⟨field, -, rfl⟩ := List.mem_map.mp hpart
    rcases List.mem_append.mp h with h | h
    · have := quotePlus_spec h
      exact ⟨this.2.2.1, this.2.2.2.2⟩
    · rcases List.mem_cons.mp h with rfl | h
      · decide
      · have := quotePlus_spec h
        exact ⟨this.2.2.1, this.2.2.2.2⟩

end LlmService.Url
