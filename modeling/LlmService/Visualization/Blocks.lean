import LlmService.Basic
import LlmService.Prompts.Documents

/-!
# Response blocks

`visualization/blocks.py`: an answer is split, line by line, into text and
fenced visual blocks. What `json.loads` makes of a text is a parameter: it
reads a value, or it raises `ValueError` or `RecursionError`, which are caught.
-/

namespace LlmService

open PyText (UnicodeData)

/-- What `json.loads` returns; a number is kept as it is written. -/
inductive Json where
  | null
  | bool (value : Bool)
  | number (literal : Text)
  | string (value : Text)
  | array (items : List Json)
  | object (fields : List (Text × Json))

/-- `lang` of a fence that becomes a block. -/
inductive BlockKind where
  | mermaid | manim
  deriving DecidableEq, Repr

/-- `InvalidBlock.reason`. -/
inductive InvalidReason where
  | tooLarge | malformed | disabled | limitExceeded | empty
  deriving DecidableEq, Repr

/-- `TextBlock`, `MermaidBlock`, `ManimBlock` and `InvalidBlock`. -/
inductive Block where
  | text (id content : Text)
  | mermaid (id : Text) (title : Option Text) (source : Text)
  | manim (id : Text) (title : Option Text) (spec : List (Text × Json))
  | invalid (id : Text) (requestedType : BlockKind) (reason : InvalidReason) (original : Text)

namespace Block

def id : Block → Text
  | .text id _ => id
  | .mermaid id _ _ => id
  | .manim id _ _ => id
  | .invalid id _ _ _ => id

/-- Whether the block is one of `visual_blocks`. -/
def isVisual : Block → Bool
  | .mermaid _ _ _ => true
  | .manim _ _ _ => true
  | _ => false

end Block

structure ParsedResponse where
  schemaVersion : String := "1.0"
  blocks : List Block

/-- The keyword arguments of `parse_response_blocks`. -/
structure BlockLimits where
  maxVisualBlocks : Int := 5
  mermaidEnabled : Bool := true
  manimEnabled : Bool := true
  maxMermaidChars : Int := 6000
  maxManimChars : Int := 4000
  deriving DecidableEq, Repr

/-- What the parser calls: the Unicode database and `json.loads`. -/
structure BlockReader where
  unicode : UnicodeData
  loads : Text → Option Json

/-- The fence of a line: `fence[0]` and `len(fence)`. -/
structure Fence where
  mark : Char
  size : Nat
  deriving DecidableEq, Repr

namespace Blocks

/-- `_FENCE_OPEN`: the fence of a line that opens one, and its info text. -/
def openFence (line : Text) : Option (Fence × Text) :=
  let rest := line.dropWhile (· = ' ')
  match rest with
  | [] => none
  | mark :: _ =>
    let fence := rest.takeWhile (· = mark)
    let info := rest.drop fence.length
    if line.length ≤ rest.length + 3 ∧ (mark = '`' ∨ mark = '~') ∧ 3 ≤ fence.length ∧ '`' ∉ info then
      some (⟨mark, fence.length⟩, PyText.lstrip info)
    else none

/-- `lang`: the first word of the info text. -/
def language (info : Text) : Text := PyText.lower ((PyText.words (PyText.strip info)).headD [])

/-- Whether a line closes a fence. -/
def closesFence (fence : Fence) (line : Text) : Bool :=
  let line := PyText.strip line
  (List.replicate fence.size fence.mark).isPrefixOf line
    && decide (line ≠ []) && line.all (· = fence.mark)

/-- How many lines stand between a fence and the one that closes it. -/
def findClose (fence : Fence) (rest : List Text) : Option Nat := rest.findIdx? (closesFence fence)

/-- `"\n".join(lines)`. -/
def joinLines (lines : List Text) : Text := PyText.join ['\n'] lines

/-- The names in `TEMPLATES`. -/
def templates : List Text :=
  ["binary_search".toList, "sorting".toList, "recursion_stack".toList, "graph_traversal".toList,
    "message_flow".toList, "state_machine".toList, "text_steps".toList]

/-- `value in TEMPLATES`: a list or a dict has no hash. -/
def inTemplates : Option Json → Except Exc Bool
  | some (.string name) => .ok (name ∈ templates)
  | some (.array _) => .error { cls := .typeError, message := "unhashable type: 'list'" }
  | some (.object _) => .error { cls := .typeError, message := "unhashable type: 'dict'" }
  | _ => .ok false

/-- Whether `json.loads` makes a known template and its parameters of a body. -/
def isSpec (loads : Text → Option Json) (body : Text) : Except Exc Bool :=
  match loads body with
  | some (.object spec) =>
    match inTemplates (spec.lookup "template".toList) with
    | .error e => .error e
    | .ok false => .ok false
    | .ok true =>
      match spec.lookup "params".toList with
      | some (.object _) => .ok true
      | _ => .ok false
  | _ => .ok false

/-- `_is_manim_spec` of the lines that follow the fence. -/
def isManimSpec (loads : Text → Option Json) (fence : Fence) (rest : List Text) :
    Except Exc Bool :=
  match findClose fence rest with
  | none => .ok false
  | some close => isSpec loads (joinLines (rest.take close))

/-- The kind of block that a line opens, if any; a fence that is tagged
`json`, or not at all, may hold an animation. -/
def blockKind (loads : Text → Option Json) (line : Text) (rest : List Text) :
    Except Exc (Option (BlockKind × Fence)) :=
  match openFence line with
  | none => .ok none
  | some (fence, info) =>
    let lang := language info
    if lang = "mermaid".toList then .ok (some (.mermaid, fence))
    else if lang = "manim".toList then .ok (some (.manim, fence))
    else if lang = "json".toList ∨ lang = [] then
      match isManimSpec loads fence rest with
      | .error e => .error e
      | .ok true => .ok (some (.manim, fence))
      | .ok false => .ok none
    else .ok none

/-- `_clean_title`. -/
def cleanTitle (u : UnicodeData) (value : Text) : Option Text :=
  let flat := (PyText.join [' '] (PyText.words (value.filter u.isPrintable))).take 120
  if flat = [] then none else some flat

/-- What `re.IGNORECASE` takes a letter of `title` for. -/
def foldLetter (c : Char) : Char := if c = 'İ' ∨ c = 'ı' then 'i' else c.toLower

/-- The group of `^%%\s*title:\s*(.+)$`, which has at least one character. -/
def matchTitle (first : Text) : Option Text :=
  match first with
  | '%' :: '%' :: rest =>
    let rest := PyText.lstrip rest
    let title := rest.drop 6
    if (rest.take 6).map foldLetter = "title:".toList ∧ title ≠ [] then
      some (if PyText.lstrip title = [] then title.drop (title.length - 1) else PyText.lstrip title)
    else none
  | _ => none

/-- The title and the source of a Mermaid body. -/
def mermaidParts (u : UnicodeData) (body : Text) : Option Text × Text :=
  let lead := PyText.lstrip body
  match matchTitle (lead.takeWhile (· ≠ '\n')) with
  | some title => (cleanTitle u title, (lead.dropWhile (· ≠ '\n')).drop 1)
  | none => (none, body)

/-- The block made of a closed fence. -/
def fencedBlock (r : BlockReader) (limits : BlockLimits) (visuals : Nat) (id : Text)
    (kind : BlockKind) (body original : Text) : Block :=
  let enabled : Bool := match kind with
    | .mermaid => limits.mermaidEnabled
    | .manim => limits.manimEnabled
  let limit : Int := match kind with
    | .mermaid => limits.maxMermaidChars
    | .manim => limits.maxManimChars
  if ¬ enabled then .invalid id kind .disabled original
  else if limits.maxVisualBlocks ≤ visuals then .invalid id kind .limitExceeded original
  else if PyText.strip body = [] then .invalid id kind .empty original
  else if limit < body.length then .invalid id kind .tooLarge original
  else match kind with
    | .mermaid =>
      let (title, source) := mermaidParts r.unicode body
      if PyText.strip source = [] then .invalid id .mermaid .empty original
      else .mermaid id title (PyText.stripWhile (· = '\n') source)
    | .manim =>
      match r.loads body with
      | some (.object spec) =>
        let title := match spec.lookup "title".toList with
          | some (.string value) => cleanTitle r.unicode value
          | _ => none
        .manim id title spec
      | _ => .invalid id .manim .malformed original

/-- `blocks`, `buffer` and `visuals`. -/
structure ParseState where
  blocks : List Block := []
  buffer : List Text := []
  visuals : Nat := 0

/-- `f"b{len(blocks) + 1}"`. -/
def ParseState.nextId (st : ParseState) : Text :=
  'b' :: Documents.decimalText (st.blocks.length + 1)

/-- `flush_text`. -/
def ParseState.flushText (st : ParseState) : ParseState :=
  let content := joinLines st.buffer
  { st with
    buffer := []
    blocks := if PyText.strip content = [] then st.blocks
      else st.blocks ++ [.text st.nextId content] }

/-- A block is appended. -/
def ParseState.append (st : ParseState) (block : Block) : ParseState :=
  { st with
    blocks := st.blocks ++ [block]
    visuals := if block.isVisual then st.visuals + 1 else st.visuals }

/-- A closed fence: the text before it is flushed first. -/
def ParseState.addFenced (r : BlockReader) (limits : BlockLimits) (st : ParseState)
    (kind : BlockKind) (body fenced : List Text) : ParseState :=
  let st := st.flushText
  st.append (fencedBlock r limits st.visuals st.nextId kind (joinLines body) (joinLines fenced))

/-- The loop over the lines; a fence that is not closed is text to the end. -/
def parseLines (r : BlockReader) (limits : BlockLimits) (lines : List Text) (st : ParseState) :
    Except Exc ParseState :=
  match lines with
  | [] => .ok st
  | line :: rest =>
    match blockKind r.loads line rest with
    | .error e => .error e
    | .ok none => parseLines r limits rest { st with buffer := st.buffer ++ [line] }
    | .ok (some (kind, fence)) =>
      match findClose fence rest with
      | none => .ok { st with buffer := st.buffer ++ line :: rest }
      | some close =>
        parseLines r limits (rest.drop (close + 1))
          (st.addFenced r limits kind (rest.take close) (line :: rest.take (close + 1)))
  termination_by lines.length

end Blocks

/-- `parse_response_blocks`. -/
def parseResponseBlocks (r : BlockReader) (text : Text) (limits : BlockLimits) :
    Except Exc ParsedResponse :=
  match Blocks.parseLines r limits (text.splitOn '\n') {} with
  | .error e => .error e
  | .ok st => .ok { blocks := st.flushText.blocks }

end LlmService
