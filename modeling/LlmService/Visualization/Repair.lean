import LlmService.ContextWindow.Models
import LlmService.Lib.Cut
import LlmService.Lib.JsonKeys
import LlmService.Visualization.SpecRoundTrip
import Mathlib.Data.List.DropRight

/-!
# Repairs

`visualization/repair.py`: the model is asked for a corrected block, and what
it answers is read up to a bound, taken out of its fence and validated. The
stream of the chain is environment. A repair is a matter of the text that is
streamed, and not of its tokens (`repairBlock_eq`).
-/

namespace LlmService

namespace ManimTemplates

/-- The `example` of each template. -/
def templateExamples : List (String × Params) :=
  [("binary_search", [("array", ints [2, 5, 8, 12, 16, 23, 38]), ("target", .int 23)]),
    ("sorting", [("algorithm", str "bubble"), ("array", ints [5, 2, 8, 1, 9])]),
    ("recursion_stack", [("function", str "factorial"), ("n", .int 4)]),
    ("graph_traversal",
      [("algorithm", str "bfs"), ("nodes", .array [str "A", str "B", str "C", str "D"]),
        ("edges", .array [.array [str "A", str "B"], .array [str "A", str "C"],
          .array [str "B", str "D"]]),
        ("start", str "A")]),
    ("message_flow",
      [("actors", .array [str "Client", str "Server"]),
        ("messages", .array
          [.object [("from", str "Client"), ("to", str "Server"), ("label", str "request")],
            .object [("from", str "Server"), ("to", str "Client"), ("label", str "response")]])]),
    ("state_machine",
      [("states", .array [str "Idle", str "Running", str "Done"]),
        ("transitions", .array
          [.object [("from", str "Idle"), ("to", str "Running"), ("label", str "start")],
            .object [("from", str "Running"), ("to", str "Done"), ("label", str "finish")]]),
        ("path", .array [str "Idle", str "Running", str "Done"])]),
    ("text_steps", [("steps", .array [str "2x + 3 = 11", str "2x = 8", str "x = 4"])])]

end ManimTemplates

namespace Repair

open JsonText (write loads)
open ManimTemplates
open PyJson (sortKeys)

def maxFailedInput : Nat := 3000

def maxError : Nat := 300

def maxReplyChars : Nat := 8000

/-! ## The prompt -/

/-- `_MERMAID_RULES` -/
def mermaidRules : String :=
  "You fix ONE Mermaid diagram. Reply with ONLY the corrected diagram source, no prose, no code fence. Rules: first line is the " ++
  "diagram type (flowchart TD, sequenceDiagram, classDiagram, stateDiagram-v2, erDiagram, gantt, pie...). Wrap any label that " ++
  "has spaces or punctuation in double quotes. No HTML, no links, no click/callback lines, no %% directives, no init blocks."

/-- `_manim_rules` -/
def manimRules : String :=
  let names := "; ".intercalate (templateExamples.map fun template =>
    template.1 ++ " e.g. " ++ String.ofList (JsonText.write [] (.object template.2)))
  "You fix ONE animation specification. Reply with ONLY a corrected JSON object, no prose, no code fence: " ++
  "\x7b\"template\": <name>, \"title\": <short>, \"params\": \x7b...\x7d\x7d. Python code is never allowed. " ++
  "Allowed templates with valid example params: " ++ names ++
  ". Pick the closest template and keep parameters small (at most 10 short plain-text items)."

/-- `build_repair_prompt` -/
def buildRepairPrompt (kind : String) (failed error : Text) (attempt : Int) : TrimmedPrompt :=
  let rules := if kind = "mermaid" then mermaidRules else manimRules
  let thing := if kind = "mermaid" then "source" else "specification"
  let user := ("Attempt " ++ toString attempt ++ ". The previous " ++ kind ++ " " ++ thing ++
    " failed.\nError: ").toList ++ error.take maxError ++ "\n\nPrevious:\n".toList ++
    failed.take maxFailedInput ++ "\n\nReturn the corrected one now.".toList
  { messages := [⟨.system, rules.toList⟩, ⟨.user, user⟩], mode := "visualization_repair" }

/-! ## The reply -/

def backquotes : Text := ['`', '`', '`']

/-- `[a-zA-Z]` -/
def isLetter (c : Char) : Bool := ('a' ≤ c && c ≤ 'z') || ('A' ≤ c && c ≤ 'Z')

/-- What the group of `_FENCE` holds: from behind the letters and the blanks
up to the next backquotes. There are none in what the greedy parts take, so
that no other way to match finds any either. -/
def fenced (text : Text) : Option Text :=
  (cut backquotes text).bind fun opened =>
    (cut backquotes ((opened.2.dropWhile isLetter).dropWhile PyText.isSpace)).map Prod.fst

/-- `_extract` -/
def extract (reply : Text) : Text :=
  let text := PyText.strip (reply.take maxReplyChars)
  PyText.strip ((fenced text).getD text)

/-- What a stream comes to: its tokens, and whether it fails behind them. -/
structure ReplyStream where
  tokens : List Text
  fails : Bool := false

/-- The loop over the stream, behind `size` characters: the tokens it takes,
and whether it comes to the end of the stream. -/
def readTokens : Nat → List Text → List Text × Bool
  | _, [] => ([], true)
  | size, token :: rest =>
    if maxReplyChars < size + token.length then ([token], false)
    else
      let later := readTokens (size + token.length) rest
      (token :: later.1, later.2)

/-- The reply, or `none` where the stream fails before its reader stops. -/
def readReply (stream : ReplyStream) : Option Text :=
  let parts := readTokens 0 stream.tokens
  if parts.2 ∧ stream.fails then none else some parts.1.flatten

/-- What `validate_candidate` is given by both its callers. -/
structure Validators where
  mermaid : Mermaid.MermaidData
  manim : ManimData
  floatText : Text → Text
  maxMermaid : Int := 6000
  maxManim : Int := 4000

def Validators.candidate (v : Validators) (kind : String) (candidate : Text) : RepairOutcome :=
  validateCandidate v.manim v.floatText v.mermaid kind candidate v.maxMermaid v.maxManim

/-- `repair_block`; without a chain there is no stream. -/
def repairBlock (v : Validators)
    (generate : Option (TrimmedPrompt → ReplyStream)) (kind : String) (failed error : Text)
    (attempt : Int) : RepairOutcome :=
  let unavailable : RepairOutcome := { ok := false, kind, category := "worker_unavailable" }
  match generate with
  | none => unavailable
  | some generate =>
    if kind ∉ ["mermaid", "manim"] then unavailable
    else
      match readReply (generate (buildRepairPrompt kind failed error attempt)) with
      | none => unavailable
      | some reply => v.candidate kind (extract reply)

/-! ## Reading -/

section Reading

variable {tokens : List Text} {size : Nat}

/-- What is read begins the reply. -/
theorem readTokens_isPrefix : (readTokens size tokens).1 <+: tokens := by
  induction tokens generalizing size with
  | nil => exact List.prefix_rfl
  | cons token rest ih =>
    rw [readTokens]
    by_cases hlong : maxReplyChars < size + token.length
    · rw [if_pos hlong]
      exact List.prefix_append [token] rest
    · rw [if_neg hlong]
      exact (List.prefix_cons_inj token).mpr ih

/-- The reader comes to the end of what is within the limit, and stops behind it. -/
theorem readTokens_end_iff (hsize : size ≤ maxReplyChars) :
    (readTokens size tokens).2 = true ↔ size + tokens.flatten.length ≤ maxReplyChars := by
  induction tokens generalizing size with
  | nil => simpa [readTokens] using hsize
  | cons token rest ih =>
    rw [readTokens, List.flatten_cons, List.length_append]
    by_cases hlong : maxReplyChars < size + token.length
    · rw [if_pos hlong]
      constructor
      · intro h
        cases h
      · intro h
        omega
    · rw [if_neg hlong]
      show (readTokens (size + token.length) rest).2 = true ↔ _
      rw [ih (by omega)]
      omega

/-- A reader that comes to the end has read everything. -/
theorem readTokens_eq_self (h : (readTokens size tokens).2 = true) :
    (readTokens size tokens).1 = tokens := by
  induction tokens generalizing size with
  | nil => rfl
  | cons token rest ih =>
    rw [readTokens] at h ⊢
    by_cases hlong : maxReplyChars < size + token.length
    · rw [if_pos hlong] at h
      cases h
    · rw [if_neg hlong] at h ⊢
      show token :: (readTokens (size + token.length) rest).1 = token :: rest
      rw [ih h]

/-- A reader that stops has more than the limit. -/
theorem lt_length_readTokens (h : (readTokens size tokens).2 = false) :
    maxReplyChars < size + (readTokens size tokens).1.flatten.length := by
  induction tokens generalizing size with
  | nil => cases h
  | cons token rest ih =>
    rw [readTokens] at h ⊢
    by_cases hlong : maxReplyChars < size + token.length
    · rw [if_pos hlong, List.flatten_singleton]
      exact hlong
    · rw [if_neg hlong] at h ⊢
      have hrest := ih h
      show maxReplyChars < size + (token :: (readTokens (size + token.length) rest).1).flatten.length
      rw [List.flatten_cons, List.length_append]
      omega

/-- What is read, as far as it is looked at, is the reply. -/
theorem take_readTokens (tokens : List Text) :
    (readTokens 0 tokens).1.flatten.take maxReplyChars = tokens.flatten.take maxReplyChars := by
  cases hend : (readTokens 0 tokens).2 with
  | true => rw [readTokens_eq_self hend]
  | false =>
    have hread : (readTokens 0 tokens).1 <+: tokens := readTokens_isPrefix
    obtain ⟨rest, hrest⟩ := hread
    have hlong := lt_length_readTokens hend
    have hsplit : tokens.flatten = (readTokens 0 tokens).1.flatten ++ rest.flatten := by
      rw [← List.flatten_append, hrest]
    rw [hsplit, List.take_append_of_le_length (by omega)]

theorem extract_readTokens (tokens : List Text) :
    extract (readTokens 0 tokens).1.flatten = extract tokens.flatten := by
  rw [extract, extract, take_readTokens]

end Reading

/-! ## The text of a reply -/

section Framed

variable {pre body post lang reply : Text}

/-- What frames a text that neither begins nor ends in white space is stripped on its own. -/
theorem strip_framed {m : Text} (hm : m ≠ []) (hhead : ∀ c ∈ m.head?, PyText.isSpace c = false)
    (hlast : ∀ c ∈ m.getLast?, PyText.isSpace c = false) (a b : Text) :
    ∃ a' b', PyText.strip (a ++ (m ++ b)) = a' ++ (m ++ b') ∧ a' <:+ a := by
  have hrstrip : PyText.rstrip m = m := PyText.dropEndWhile_eq_self hlast
  have hstop : (m ++ b).dropWhile PyText.isSpace = m ++ b := by
    obtain ⟨c, rest, rfl⟩ := List.exists_cons_of_ne_nil hm
    exact List.dropWhile_cons_of_neg (by rw [hhead c rfl]; exact Bool.false_ne_true)
  have hleft : (a ++ (m ++ b)).dropWhile PyText.isSpace = a.dropWhile PyText.isSpace ++ (m ++ b) := by
    rw [List.dropWhile_append]
    cases hblank : (a.dropWhile PyText.isSpace).isEmpty with
    | true =>
      rw [if_pos rfl, hstop, List.isEmpty_iff.mp hblank]
      rfl
    | false => rw [if_neg Bool.false_ne_true]
  have hright : ∃ b', PyText.rstrip (m ++ b) = m ++ b' := by
    by_cases hb : PyText.rstrip b = []
    · exact ⟨[], by rw [PyText.rstrip_append_of_blank hb, hrstrip, List.append_nil]⟩
    · exact ⟨PyText.rstrip b, PyText.rstrip_append hb⟩
  obtain ⟨b', hb'⟩ := hright
  refine ⟨a.dropWhile PyText.isSpace, b', ?_, List.dropWhile_suffix _⟩
  have hne : PyText.rstrip (m ++ b) ≠ [] := by
    rw [hb']
    exact List.append_ne_nil_of_left_ne_nil hm b'
  rw [PyText.strip, PyText.stripWhile, hleft, ← hb']
  exact PyText.rstrip_append hne

/-- The body of the first fence: behind the letters of its opening line. -/
theorem fenced_append (hpre : ¬ backquotes <:+: pre ++ ['`', '`']) (hlang : lang.all isLetter = true)
    (hhead : ∀ c ∈ body.head?, isLetter c = false) (hbody : ¬ backquotes <:+: body ++ ['`', '`']) :
    fenced (pre ++ (backquotes ++ (lang ++ (body ++ (backquotes ++ post))))) =
      some (body.dropWhile PyText.isSpace) := by
  have hletters : (lang ++ (body ++ (backquotes ++ post))).dropWhile isLetter =
      body ++ (backquotes ++ post) := by
    rw [List.dropWhile_append_of_pos (List.all_eq_true.mp hlang)]
    cases body with
    | nil => rfl
    | cons c body => exact List.dropWhile_cons_of_neg (by rw [hhead c rfl]; exact Bool.false_ne_true)
  have hspaces : (body ++ (backquotes ++ post)).dropWhile PyText.isSpace =
      body.dropWhile PyText.isSpace ++ (backquotes ++ post) := by
    rw [List.dropWhile_append]
    cases hblank : (body.dropWhile PyText.isSpace).isEmpty with
    | true =>
      rw [if_pos rfl, List.isEmpty_iff.mp hblank]
      rfl
    | false => rw [if_neg Bool.false_ne_true]
  have hrest : ¬ backquotes <:+: body.dropWhile PyText.isSpace ++ ['`', '`'] := by
    intro hinside
    refine hbody (hinside.trans ?_)
    obtain ⟨blank, hblank⟩ := List.dropWhile_suffix (l := body) PyText.isSpace
    exact ⟨blank, [], by rw [List.append_nil, ← List.append_assoc, hblank]⟩
  rw [fenced, cut_append hpre, Option.bind_some, hletters, hspaces, cut_append hrest]
  rfl

theorem strip_dropWhile (text : Text) :
    PyText.strip (text.dropWhile PyText.isSpace) = PyText.strip text := by
  have htwice : (text.dropWhile PyText.isSpace).dropWhile PyText.isSpace = text.dropWhile PyText.isSpace :=
    List.dropWhile_idempotent _ _
  rw [PyText.strip, PyText.stripWhile, htwice]
  rfl

/-- A reply is read as what is in its fence, whatever is written around it. -/
theorem extract_framed (hpre : ¬ backquotes <:+: pre ++ ['`', '`']) (hlang : lang.all isLetter = true)
    (hhead : ∀ c ∈ body.head?, isLetter c = false) (hbody : ¬ backquotes <:+: body ++ ['`', '`'])
    (hsize : (pre ++ (backquotes ++ (lang ++ (body ++ backquotes)))).length ≤ maxReplyChars) (post : Text) :
    extract (pre ++ (backquotes ++ (lang ++ (body ++ (backquotes ++ post))))) = PyText.strip body := by
  have hassoc : ∀ post, pre ++ (backquotes ++ (lang ++ (body ++ (backquotes ++ post)))) =
      pre ++ ((backquotes ++ (lang ++ (body ++ backquotes))) ++ post) := by
    intro post
    simp only [List.append_assoc]
  have htake : (pre ++ (backquotes ++ (lang ++ (body ++ (backquotes ++ post))))).take maxReplyChars =
      pre ++ (backquotes ++ (lang ++ (body ++ (backquotes ++
        post.take (maxReplyChars - (pre ++ (backquotes ++ (lang ++ (body ++ backquotes)))).length))))) := by
    rw [hassoc, hassoc, ← List.append_assoc, List.take_append, List.take_of_length_le hsize,
      List.append_assoc]
  have hfence : ∀ c ∈ (backquotes ++ (lang ++ (body ++ backquotes))).getLast?, PyText.isSpace c = false := by
    rw [← List.append_assoc, ← List.append_assoc, List.getLast?_append]
    intro c hc
    obtain rfl := Option.some.inj hc
    rfl
  have hopen : ∀ c ∈ (backquotes ++ (lang ++ (body ++ backquotes))).head?, PyText.isSpace c = false := by
    intro c hc
    obtain rfl := Option.some.inj hc
    rfl
  have hne : backquotes ++ (lang ++ (body ++ backquotes)) ≠ [] := List.cons_ne_nil _ _
  obtain ⟨pre', post', hstrip, hsuffix⟩ := strip_framed hne hopen hfence pre
    (post.take (maxReplyChars - (pre ++ (backquotes ++ (lang ++ (body ++ backquotes)))).length))
  have hpre' : ¬ backquotes <:+: pre' ++ ['`', '`'] := by
    intro hinside
    obtain ⟨more, rfl⟩ := hsuffix
    rw [List.append_assoc] at hpre
    exact hpre (hinside.trans (List.suffix_append more _).isInfix)
  rw [extract, htake, hassoc, hstrip]
  simp only [List.append_assoc]
  rw [fenced_append hpre' hlang hhead hbody]
  exact strip_dropWhile body

end Framed

/-! ## Repairs -/

section Outcomes

variable {v : Validators} {generate : TrimmedPrompt → ReplyStream} {kind : String} {failed error : Text}
  {attempt : Int}

/-- A repair is a matter of the text that is streamed: the tokens it comes in do not count, nor does
a failure behind what is read. -/
theorem repairBlock_eq (hkind : kind ∈ ["mermaid", "manim"]) :
    repairBlock v (some generate) kind failed error attempt =
      let stream := generate (buildRepairPrompt kind failed error attempt)
      if stream.fails ∧ stream.tokens.flatten.length ≤ maxReplyChars then
        { ok := false, kind, category := "worker_unavailable" }
      else v.candidate kind (extract stream.tokens.flatten) := by
  have hend : (readTokens 0 (generate (buildRepairPrompt kind failed error attempt)).tokens).2 = true ↔
      0 + (generate (buildRepairPrompt kind failed error attempt)).tokens.flatten.length ≤ maxReplyChars :=
    readTokens_end_iff (Nat.zero_le maxReplyChars)
  rw [Nat.zero_add] at hend
  simp only [repairBlock, readReply, hend, if_neg (not_not_intro hkind)]
  by_cases hfails : (generate (buildRepairPrompt kind failed error attempt)).fails = true ∧
      (generate (buildRepairPrompt kind failed error attempt)).tokens.flatten.length ≤ maxReplyChars
  · rw [if_pos hfails, if_pos hfails.symm]
  · rw [if_neg hfails, if_neg (fun h => hfails h.symm)]
    show v.candidate kind (extract _) = _
    rw [extract_readTokens]

/-- However a model words and streams its reply, the block in its fence is what is validated, unless
the stream fails before its reader stops. -/
theorem repairBlock_framed {pre lang body post : Text} (hkind : kind ∈ ["mermaid", "manim"])
    (hreply : (generate (buildRepairPrompt kind failed error attempt)).tokens.flatten =
      pre ++ (backquotes ++ (lang ++ (body ++ (backquotes ++ post)))))
    (hpre : ¬ backquotes <:+: pre ++ ['`', '`']) (hlang : lang.all isLetter = true)
    (hhead : ∀ c ∈ body.head?, isLetter c = false) (hbody : ¬ backquotes <:+: body ++ ['`', '`'])
    (hsize : (pre ++ (backquotes ++ (lang ++ (body ++ backquotes)))).length ≤ maxReplyChars)
    (hends : (generate (buildRepairPrompt kind failed error attempt)).fails = false ∨
      maxReplyChars < (generate (buildRepairPrompt kind failed error attempt)).tokens.flatten.length) :
    repairBlock v (some generate) kind failed error attempt = v.candidate kind (PyText.strip body) := by
  have hread : ¬ ((generate (buildRepairPrompt kind failed error attempt)).fails = true ∧
      (generate (buildRepairPrompt kind failed error attempt)).tokens.flatten.length ≤ maxReplyChars) := by
    rintro ⟨hfails, hshort⟩
    rcases hends with hends | hlong
    · rw [hends] at hfails
      cases hfails
    · exact absurd hshort (Nat.not_le.mpr hlong)
  rw [repairBlock_eq hkind]
  simp only [if_neg hread]
  rw [hreply, extract_framed hpre hlang hhead hbody hsize post]

/-- Validators that read ASCII. -/
def asciiValidators : Validators where
  mermaid := Mermaid.asciiMermaid
  manim := asciiManim
  floatText := id

/-- A diagram in its fence, in two tokens, with a letter in front and one behind. -/
def wordyReply : TrimmedPrompt → ReplyStream := fun _ =>
  { tokens := [['A', ' ', '`', '`', '`', 'm'], ['\n', 'p', 'i', 'e', '\n', '`', '`', '`', 'Z']] }

theorem flatten_wordyReply (prompt : TrimmedPrompt) :
    (wordyReply prompt).tokens.flatten =
      ['A', ' '] ++ (backquotes ++ (['m'] ++ (['\n', 'p', 'i', 'e', '\n'] ++ (backquotes ++ ['Z'])))) := rfl

theorem head_pie : ∀ c ∈ ['\n', 'p', 'i', 'e', '\n'].head?, isLetter c = false := by
  intro c hc
  obtain rfl := Option.some.inj hc
  rfl

theorem repairBlock_framed_wordyReply :
    repairBlock asciiValidators (some wordyReply) "mermaid" [] [] 2 =
      asciiValidators.candidate "mermaid" (PyText.strip ['\n', 'p', 'i', 'e', '\n']) := by
  have hkind : "mermaid" ∈ ["mermaid", "manim"] := List.mem_cons_self
  exact repairBlock_framed hkind (flatten_wordyReply _) (by decide) rfl head_pie (by decide) (by decide)
    (.inl rfl)

/-- What a repaired block is good for: a diagram is accepted as it stands; a specification is read
again as the one that was validated, and its scene is built. -/
inductive Usable (v : Validators) : String → Text → Prop
  | mermaid {content : Text} :
    (Mermaid.validateMermaid v.mermaid content v.maxMermaid).ok = true →
      content.length ≤ maxReplyChars → Usable v "mermaid" content
  | manim (spec : ValidatedSpec) :
    loads v.floatText spec.canonicalJson = some (sortKeys spec.document) →
      (∃ source, buildSceneSource v.manim spec = .ok source) →
      (validateSpec v.manim v.floatText (sortKeys spec.document) v.maxManim = .ok spec ↔
        (write [' '] spec.document).length ≤ v.maxManim) →
      Usable v "manim" spec.canonicalJson

theorem length_extract_le (reply : Text) : (extract reply).length ≤ maxReplyChars := by
  have hstrip : ∀ text : Text, (PyText.strip text).length ≤ text.length := by
    intro text
    exact (PyText.dropEndWhile_isPrefix _ _).length_le.trans (List.dropWhile_suffix _).length_le
  have htext : (PyText.strip (reply.take maxReplyChars)).length ≤ maxReplyChars :=
    (hstrip _).trans (List.length_take_le _ _)
  rw [extract]
  cases hfence : fenced (PyText.strip (reply.take maxReplyChars)) with
  | none => exact (hstrip _).trans htext
  | some body =>
    refine (hstrip _).trans (le_trans ?_ htext)
    obtain ⟨opened, hopened, hbody⟩ := Option.bind_eq_some_iff.mp hfence
    obtain ⟨closed, hclosed, rfl⟩ := Option.map_eq_some_iff.mp hbody
    have houter := congrArg List.length (cut_eq_some hopened)
    have hinner := congrArg List.length (cut_eq_some hclosed)
    have hdrop := ((List.dropWhile_suffix (l := opened.2.dropWhile isLetter) PyText.isSpace).trans
      (List.dropWhile_suffix isLetter)).length_le
    simp only [List.length_append] at houter hinner
    show closed.1.length ≤ _
    omega

theorem candidate_usable {candidate : Text} (hkind : kind ∈ ["mermaid", "manim"])
    (hsize : candidate.length ≤ maxReplyChars) (h : (v.candidate kind candidate).ok = true) :
    Usable v kind (v.candidate kind candidate).content := by
  simp only [List.mem_cons, List.not_mem_nil, or_false] at hkind
  rcases hkind with rfl | rfl
  · have hok : (Mermaid.validateMermaid v.mermaid candidate v.maxMermaid).ok = true := h
    have hcontent : (v.candidate "mermaid" candidate).content = candidate := by
      show (if _ then candidate else []) = candidate
      rw [if_pos hok]
    rw [hcontent]
    exact .mermaid hok hsize
  · have hne : ("manim" : String) ≠ "mermaid" := by decide
    simp only [Validators.candidate, validateCandidate, if_neg hne] at h ⊢
    cases hloads : loads v.floatText candidate with
    | none =>
      rw [hloads] at h
      cases h
    | some spec =>
      simp only [hloads] at h ⊢
      cases hspec : validateSpec v.manim v.floatText spec v.maxManim with
      | error error =>
        rw [hspec] at h
        cases error with
        | spec error => cases h
        | value => cases h
      | ok valid =>
        have hobject : ∃ fields, spec = .object fields := by
          cases spec with
          | object fields => exact ⟨fields, rfl⟩
          | _ => cases hspec
        obtain ⟨fields, rfl⟩ := hobject
        have hkeys := JsonText.keysOnce_loads hloads
        obtain ⟨t, params, haccepted⟩ := (validateSpec_eq_ok_iff hkeys).mp hspec
        exact .manim valid (haccepted.loads_canonicalJson hkeys) (haccepted.buildSceneSource_eq_ok hkeys)
          (haccepted.validateSpec_document_iff hkeys)

/-- Whatever is streamed, a block that is said to be repaired is usable. -/
theorem repairBlock_usable (v : Validators) (generate : Option (TrimmedPrompt → ReplyStream))
    (kind : String) (failed error : Text) (attempt : Int)
    (h : (repairBlock v generate kind failed error attempt).ok = true) :
    Usable v kind (repairBlock v generate kind failed error attempt).content := by
  cases generate with
  | none => cases h
  | some generate =>
    by_cases hkind : kind ∈ ["mermaid", "manim"]
    · rw [repairBlock_eq hkind] at h ⊢
      simp only at h ⊢
      split_ifs at h ⊢ with hfails
      exact candidate_usable hkind (length_extract_le _) h
    · simp only [repairBlock, if_pos hkind] at h
      cases h

theorem wordyReply_ok :
    (repairBlock asciiValidators (some wordyReply) "mermaid" [] [] 2).ok = true := by
  have hkind : "mermaid" ∈ ["mermaid", "manim"] := List.mem_cons_self
  have hextract : extract (['A', ' '] ++ (backquotes ++ (['m'] ++ (['\n', 'p', 'i', 'e', '\n'] ++
      (backquotes ++ ['Z']))))) = ['p', 'i', 'e'] :=
    extract_framed (by decide) rfl head_pie (by decide) (by decide) ['Z']
  rw [repairBlock_eq hkind]
  simp only [flatten_wordyReply, hextract]
  rfl

/-- Two lines without a title, in their fence. -/
def specReply : TrimmedPrompt → ReplyStream := fun _ =>
  { tokens := [backquotes ++ ['j', 's'], ['o', 'n', '\n'], write [' '] (.object untitled) ++ ['\n'],
      backquotes] }

theorem flatten_specReply (prompt : TrimmedPrompt) :
    (specReply prompt).tokens.flatten =
      [] ++ (backquotes ++ (['j', 's', 'o', 'n'] ++
        (('\n' :: (write [' '] (.object untitled) ++ ['\n'])) ++ (backquotes ++ [])))) := by
  simp [specReply]

theorem specReply_ok : (repairBlock asciiValidators (some specReply) "manim" [] [] 2).ok = true := by
  have hkind : "manim" ∈ ["mermaid", "manim"] := by decide
  have hhead : ∀ c ∈ ('\n' :: (write [' '] (.object untitled) ++ ['\n'])).head?, isLetter c = false := by
    intro c hc
    obtain rfl := Option.some.inj hc
    rfl
  have hstrip : PyText.strip ('\n' :: (write [' '] (.object untitled) ++ ['\n'])) =
      write [' '] (.object untitled) := by
    decide
  have hlimit : (59 : Int) ≤ 4000 := by omega
  obtain ⟨t, params, haccepted⟩ := accepted_untitled hlimit
  have hv : validateSpec asciiManim id (.object untitled) 4000 = .ok untitledSpec :=
    (validateSpec_eq_ok_iff keysOnce_untitled).mpr ⟨t, params, haccepted⟩
  have hplain : PyJson.Everywhere JsonText.Plain (.object untitled) :=
    plain_of_exact keysOnce_untitled
      ⟨trivial, trivial, ⟨trivial, ⟨trivial, trivial, trivial, trivial⟩, trivial⟩, trivial⟩
  have hloads : loads id (write [' '] (.object untitled)) = some (.object untitled) :=
    JsonText.loads_write id isBlank_space hplain
  rw [repairBlock_framed hkind (flatten_specReply _) (by decide) rfl hhead (by decide) (by decide)
    (.inl rfl), hstrip]
  exact congrArg RepairOutcome.ok (validateCandidate_manim hloads hv)

theorem repairBlock_usable_bothKinds :
    Usable asciiValidators "mermaid"
        (repairBlock asciiValidators (some wordyReply) "mermaid" [] [] 2).content ∧
      Usable asciiValidators "manim"
        (repairBlock asciiValidators (some specReply) "manim" [] [] 2).content :=
  ⟨repairBlock_usable asciiValidators (some wordyReply) "mermaid" [] [] 2 wordyReply_ok,
    repairBlock_usable asciiValidators (some specReply) "manim" [] [] 2 specReply_ok⟩

end Outcomes

end Repair

end LlmService
