import Mathlib.Data.List.Induction
import LlmService.ContextWindow.Models
import LlmService.Lib.Brackets
import LlmService.Lib.PyText
import LlmService.Lib.Regex

/-!
# validate_mermaid

`visualization/mermaid.py`: a gate for the sources of diagrams. A flowchart that
has passed the other checks is accepted if on each of its lines the brackets are
balanced outside of quoted strings.
-/

namespace LlmService

namespace Mermaid

open Regex

def allowedTypes : List String :=
  ["flowchart", "graph", "sequenceDiagram", "classDiagram", "stateDiagram-v2", "stateDiagram",
    "erDiagram", "gantt", "pie", "journey", "mindmap", "timeline", "gitGraph", "quadrantChart",
    "requirementDiagram", "xychart-beta"]

def maxLines : Nat := 400

structure MermaidData where
  classes : CharClasses
  /-- whether `re.I` takes the second character for the first -/
  ignoreCase : Char → Char → Bool
  /-- `repr(text)` -/
  repr : Text → String

section Patterns

variable (d : MermaidData)

def word (text : String) : Regex := cat (text.toList.map fun c => set (d.ignoreCase c))

/-- `[a-z]` under `re.I`. -/
def letter (c : Char) : Bool := "abcdefghijklmnopqrstuvwxyz".toList.any fun l => d.ignoreCase l c

/-- `\s*` -/
def spaces : Regex := many PyText.isSpace

/-- `^` under `re.M`. -/
def lineStart (prev _ : Option Char) : Bool := prev.all (· == '\n')

def wordEnd : Regex := look d.classes.boundary

/-- `_UNSAFE` -/
def unsafePatterns : List (Regex × String) :=
  [(cat [char '<', spaces, opt (char '/'), spaces,
      oneOf (["script", "iframe", "object", "embed", "img", "a", "svg", "style", "link", "meta",
        "form", "input"].map (word d)), wordEnd d], "markup tag"),
    (oneOf (["javascript", "vbscript", "data"].map fun scheme =>
      cat [word d scheme, spaces, char ':']), "script or data URL"),
    (cat [wordEnd d, word d "on", some1 (letter d), spaces, char '='], "event handler"),
    (cat [char '%', char '%', spaces, char '{'], "directive"),
    (cat [look lineStart, spaces, oneOf (["click", "link", "callback"].map (word d)), wordEnd d],
      "interaction/link directive"),
    (oneOf [cat [wordEnd d, word d "href", spaces, char '='], cat [word d "url", spaces, char '('],
      word d "@import"], "external resource"),
    (oneOf [cat [word d "http", opt (word d "s"), word d "://"],
      cat [word d "//", some1 fun c => !PyText.isSpace c, char '.', set d.classes.word]],
      "external URL")]

end Patterns

/-- `_PAIRS` -/
def pairs : List (Char × Char) := [('[', ']'), ('(', ')'), ('{', '}')]

structure MermaidValidation where
  ok : Bool
  category : String := ""
  message : String := ""
  deriving DecidableEq

def reject (category message : String) : MermaidValidation := { ok := false, category, message }

/-- `"[^"\n]*"` -/
def quoted : Regex := cat [char '"', many fun c => c != '"' && c != '\n', char '"']

def stripQuoted (line : Text) : Text := quoted.sub ['"', '"'] line

/-- A line that is neither blank nor a comment. -/
def IsBody (line : Text) : Prop :=
  PyText.strip line ≠ [] ∧ ¬ ['%', '%'] <+: PyText.strip line

instance (line : Text) : Decidable (IsBody line) := inferInstanceAs (Decidable (_ ∧ _))

/-- `text`, the source without the line breaks around it. -/
def sourceText (source : Text) : Text := PyText.stripWhile (· = '\n') source

def bodyLines (source : Text) : List Text := ((sourceText source).splitOn '\n').filter IsBody

/-- `first` -/
def firstLine (source : Text) : Text :=
  match bodyLines source with
  | [] => []
  | line :: _ => PyText.strip line

/-- `re.split(r"[\s{;:]", first, maxsplit=1)[0]` -/
def keyword (source : Text) : Text :=
  (firstLine source).takeWhile fun c => !(PyText.isSpace c || ['{', ';', ':'].contains c)

/-- The checks before the one of the brackets. -/
def earlyRejection (d : MermaidData) (source : Text) (maxChars : Int) : Option MermaidValidation :=
  let text := sourceText source
  if PyText.strip text = [] then some (reject "empty" "The diagram is empty.")
  else if maxChars < text.length then
    some (reject "too_large" s!"The diagram is longer than {maxChars} characters.")
  else if maxLines < (text.splitOn '\n').length then
    some (reject "too_complex" s!"The diagram has more than {maxLines} lines.")
  else
    match (unsafePatterns d).find? fun pattern => pattern.1.search text with
    | some pattern => some (reject "unsafe" s!"Not allowed: {pattern.2}.")
    | none =>
      if firstLine source = ['-', '-', '-'] then
        some (reject "unsafe" "Front matter is not allowed.")
      else if String.ofList (keyword source) ∉ allowedTypes then
        some (reject "unsupported_type"
          s!"Unsupported or missing diagram type: {d.repr ((keyword source).take 30)}.")
      else none

/-- The lines from `number` on. -/
def checkLines : Nat → List Text → MermaidValidation
  | _, [] => { ok := true }
  | number, line :: rest =>
    match Brackets.scan pairs [] (stripQuoted line) with
    | none => reject "syntax" s!"Unbalanced brackets near line {number}."
    | some [] => checkLines (number + 1) rest
    | some _ => reject "syntax" s!"Unclosed bracket on line {number}."

def validateMermaid (d : MermaidData) (source : Text) (maxChars : Int) : MermaidValidation :=
  match earlyRejection d source maxChars with
  | some rejection => rejection
  | none =>
    -- other diagrams have brackets in their texts
    if String.ofList (keyword source) ∉ ["flowchart", "graph"] then { ok := true }
    else checkLines 1 (bodyLines source)

/-! ## Quoted strings -/

/-- A quoted string is emptied, and what is behind it is stripped of its own. -/
theorem subFrom_quoted {q rest : Text} (hq : ∀ c ∈ q, c ≠ '"' ∧ c ≠ '\n') (prev : Option Char) :
    quoted.subFrom ['"', '"'] 0 prev ('"' :: (q ++ '"' :: rest)) =
      '"' :: '"' :: quoted.subFrom ['"', '"'] 0 (some '"') rest := by
  have hmany : (manyEnds (fun c => c != '"' && c != '\n') (some '"') (q ++ '"' :: rest)).head? =
      some ⟨lastOr (some '"') q, '"' :: rest⟩ := by
    refine head?_manyEnds (fun c hc => ?_) (fun c hc => ?_) _
    · simp [hq c hc]
    · obtain rfl := Option.some.inj hc
      rfl
  obtain ⟨others, hothers⟩ := List.head?_eq_some_iff.mp hmany
  have hends : (quoted.ends ⟨prev, '"' :: (q ++ '"' :: rest)⟩).head? = some ⟨some '"', rest⟩ := by
    show (([⟨some '"', q ++ '"' :: rest⟩] : List Position).flatMap
      (seq (many fun c => c != '"' && c != '\n') (char '"')).ends).head? = _
    rw [List.flatMap_singleton]
    show ((manyEnds (fun c => c != '"' && c != '\n') (some '"') (q ++ '"' :: rest)).flatMap
      (char '"').ends).head? = _
    rw [hothers, List.flatMap_cons]
    rfl
  rw [subFrom, hends]
  dsimp only
  have hskip : (q ++ '"' :: rest).length - rest.length = (q ++ ['"']).length := by
    rw [List.length_append, List.length_append, List.length_cons, List.length_singleton]
    omega
  have hsplit : q ++ '"' :: rest = (q ++ ['"']) ++ rest := by simp
  rw [hskip, hsplit, subFrom_append, lastOr_append]
  rfl

theorem stripQuoted_of_not_mem {line : Text} (h : '"' ∉ line) : stripQuoted line = line := by
  have hnonempty : quoted.Nonempty := by
    intro prev m next hspans
    obtain ⟨c, hc, -⟩ := hspans.exists_mem (P := (· = '"')) (.inl fun c hc => eq_of_beq hc)
    exact List.ne_nil_of_mem hc
  refine (replaced_sub hnonempty _ line).eq_of_not_occursIn ?_
  rintro ⟨a, m, b, rfl, hspans⟩
  obtain ⟨c, hc, rfl⟩ := hspans.exists_mem (P := (· = '"')) (.inl fun c hc => eq_of_beq hc)
  exact h (List.mem_append_left b (List.mem_append_right a hc))

/-! ## Lines -/

theorem mem_splitOn_dropWhile_iff {line text : Text} (hline : line ≠ []) :
    line ∈ (text.dropWhile (· = '\n')).splitOn '\n' ↔ line ∈ text.splitOn '\n' := by
  induction text with
  | nil => rfl
  | cons c text ih =>
    by_cases hc : c = '\n'
    · have hsplit : (c :: text).splitOn '\n' = [] :: text.splitOn '\n' := by
        rw [hc]
        exact List.splitOn_append_cons_self [] text
      rw [List.dropWhile_cons_of_pos (by simpa using hc), ih, hsplit, List.mem_cons]
      exact (or_iff_right hline).symm
    · rw [List.dropWhile_cons_of_neg (by simpa using hc)]

theorem mem_splitOn_dropEndWhile_iff {line text : Text} (hline : line ≠ []) :
    line ∈ (PyText.dropEndWhile (· = '\n') text).splitOn '\n' ↔ line ∈ text.splitOn '\n' := by
  induction text using List.reverseRecOn with
  | nil => rfl
  | append_singleton text c ih =>
    by_cases hc : c = '\n'
    · have hsplit : (text ++ [c]).splitOn '\n' = text.splitOn '\n' ++ [[]] := by
        rw [hc]
        exact List.splitOn_append_cons_self text []
      have hdrop : PyText.dropEndWhile (· = '\n') (text ++ [c]) =
          PyText.dropEndWhile (· = '\n') text := by
        rw [PyText.dropEndWhile, List.reverse_concat,
          List.dropWhile_cons_of_pos (by simpa using hc)]
        rfl
      rw [hdrop, ih, hsplit, List.mem_append, List.mem_singleton]
      exact (or_iff_left hline).symm
    · have hkeep : PyText.dropEndWhile (· = '\n') (text ++ [c]) = text ++ [c] := by
        rw [PyText.dropEndWhile, List.reverse_concat,
          List.dropWhile_cons_of_neg (by simpa using hc), List.reverse_cons, List.reverse_reverse]
      rw [hkeep]

/-- The line breaks around a source bring in blank lines only. -/
theorem mem_bodyLines_iff {source line : Text} :
    line ∈ bodyLines source ↔ line ∈ source.splitOn '\n' ∧ IsBody line := by
  rw [bodyLines, List.mem_filter, decide_eq_true_eq]
  refine and_congr_left fun hbody => ?_
  have hline : line ≠ [] := by
    rintro rfl
    exact hbody.1 rfl
  rw [sourceText, PyText.stripWhile, mem_splitOn_dropEndWhile_iff hline,
    mem_splitOn_dropWhile_iff hline]

/-! ## Brackets -/

theorem checkLines_ok_iff (number : Nat) (lines : List Text) :
    (checkLines number lines).ok = true ↔
      ∀ line ∈ lines, Brackets.Balanced pairs (stripQuoted line) := by
  have hclosers : ∀ c ∈ pairs.map Prod.snd, pairs.lookup c = none := by
    intro c hc
    simp only [pairs, List.map_cons, List.map_nil, List.mem_cons, List.not_mem_nil, or_false] at hc
    rcases hc with rfl | rfl | rfl <;> decide
  induction lines generalizing number with
  | nil => simp [checkLines]
  | cons line rest ih =>
    rw [checkLines, List.forall_mem_cons, ← Brackets.scan_eq_some_nil_iff hclosers]
    cases Brackets.scan pairs [] (stripQuoted line) with
    | none => simp [reject]
    | some stack =>
      cases stack with
      | nil => simp [ih]
      | cons top stack => simp [reject]

/-- Behind the other checks, a flowchart is accepted if and only if its lines have balanced
brackets outside of quoted strings. -/
theorem validateMermaid_ok_iff {d : MermaidData} {source : Text} {maxChars : Int}
    (hgates : earlyRejection d source maxChars = none)
    (htype : String.ofList (keyword source) ∈ ["flowchart", "graph"]) :
    (validateMermaid d source maxChars).ok = true ↔
      ∀ line ∈ source.splitOn '\n', IsBody line → Brackets.Balanced pairs (stripQuoted line) := by
  rw [validateMermaid, hgates]
  dsimp only
  rw [if_neg (not_not_intro htype), checkLines_ok_iff]
  constructor
  · exact fun h line hline hbody => h line (mem_bodyLines_iff.mpr ⟨hline, hbody⟩)
  · intro h line hline
    obtain ⟨hline, hbody⟩ := mem_bodyLines_iff.mp hline
    exact h line hline hbody

/-- Case and classes of ASCII; texts are shown as they are. -/
def asciiMermaid : MermaidData where
  classes := asciiClasses
  ignoreCase c c' := c.toLower == c'.toLower
  repr := String.ofList

/-- A bracket in a quoted string is not counted. -/
theorem validateMermaid_ok_iff_quoted :
    (validateMermaid asciiMermaid ['g', 'r', 'a', 'p', 'h', '\n', '(', '"', ']', '"', ')'] 6000).ok = true ↔
      ∀ line ∈ ['g', 'r', 'a', 'p', 'h', '\n', '(', '"', ']', '"', ')'].splitOn '\n', IsBody line →
        Brackets.Balanced pairs (stripQuoted line) :=
  validateMermaid_ok_iff (by decide) (by decide)

end Mermaid

end LlmService
