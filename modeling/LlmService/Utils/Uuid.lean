import LlmService.Basic
import LlmService.Lib.PyText

/-!
# UUIDv7 times

`_uuid7_datetime` of `app/producers/kafka_producer.py`, with what it uses of
`uuid.UUID`, `int(…, 16)` and `datetime.fromtimestamp`. Digits are those of
ASCII. A `datetime` is its POSIX reading in seconds; 9999 is the last year
that one can hold.
-/

namespace LlmService

open PyText

def hexDigit (c : Char) : Option Nat :=
  if '0' ≤ c ∧ c ≤ '9' then some (c.toNat - '0'.toNat)
  else if 'a' ≤ c ∧ c ≤ 'f' then some (c.toNat - 'a'.toNat + 10)
  else if 'A' ≤ c ∧ c ≤ 'F' then some (c.toNat - 'A'.toNat + 10)
  else none

/-- Digits after the first one, with single underscores between them. -/
def hexRest : Nat → List Char → Option Nat
  | n, [] => some n
  | n, '_' :: c :: rest => (hexDigit c).bind fun d => hexRest (16 * n + d) rest
  | n, c :: rest => (hexDigit c).bind fun d => hexRest (16 * n + d) rest

def hexNumber : List Char → Option Nat
  | [] => none
  | c :: rest => (hexDigit c).bind fun d => hexRest d rest

/-- `int(text, 16)`. -/
def intHex (text : List Char) : Option Int :=
  let unsigned := fun text : List Char =>
    match text with
    | '0' :: 'x' :: '_' :: rest | '0' :: 'X' :: '_' :: rest
    | '0' :: 'x' :: rest | '0' :: 'X' :: rest => hexNumber rest
    | text => hexNumber text
  match strip text with
  | '-' :: rest => (unsigned rest).map fun n => -(n : Int)
  | '+' :: rest => (unsigned rest).map Int.ofNat
  | text => (unsigned text).map Int.ofNat

/-- `uuid.UUID(text).int`; `none` is its `ValueError`. -/
def uuidInt (text : List Char) : Option Nat :=
  let hex := removeAll "uuid:".toList 0 (removeAll "urn:".toList 0 text)
  let hex := removeAll ['-'] 0 (stripWhile (fun c => c = '{' || c = '}') hex)
  if hex.length ≠ 32 then none
  else
    match intHex hex with
    | some (.ofNat n) => if n < 2 ^ 128 then some n else none
    | _ => none

/-- `UUID.version`, defined for the RFC 4122 variant only. -/
def uuidVersion (n : Nat) : Option Nat :=
  if n.testBit 63 && !n.testBit 62 then some (n / 2 ^ 76 % 16) else none

/-- The civil year of a day count from 1970-01-01, in 400-year cycles that
start in March. -/
def yearOfDay (day : Nat) : Nat :=
  let z := day + 719468
  let era := z / 146097
  let doe := z % 146097
  let yoe := (doe - doe / 1460 + doe / 36524 - doe / 146096) / 365
  let doy := doe - (365 * yoe + yoe / 4 - yoe / 100)
  yoe + era * 400 + if 306 ≤ doy then 1 else 0

/-- `datetime.fromtimestamp(ms / 1000.0, tz=UTC)`. The quotient is exact; the float of the code is off by
microseconds from the year 5000 or so on. -/
def fromTimestampMs (ms : Nat) : Except Exc Seconds :=
  let year := yearOfDay (ms / 86400000)
  if 9999 < year then
    .error { cls := .valueError, message := s!"year {year} is out of range" }
  else .ok (ms / 1000)

/-- `_uuid7_datetime`. Digits are the ASCII ones; `int(hex, 16)` reads those of other scripts too. -/
def uuid7Datetime (value : String) : Except Exc (Option Seconds) :=
  match uuidInt value.toList with
  | none => .ok none
  | some n =>
    if uuidVersion n ≠ some 7 then .ok none
    else (fromTimestampMs (n / 2 ^ 80)).map some

end LlmService
