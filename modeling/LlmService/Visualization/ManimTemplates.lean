import LlmService.Lib.SortedJson
import LlmService.Lib.UrlQuery
import LlmService.Visualization.Jobs
import LlmService.Visualization.ManimBuilders
import LlmService.Visualization.ManimScenes
import LlmService.Visualization.Mermaid

/-!
# Animation specifications

`validate_spec` and `build_scene_source` of `visualization/manim_templates.py`,
with what `api/visualizations.py`, `visualization/runner.py` and
`visualization/repair.py` call them for.
-/

namespace LlmService

namespace ManimTemplates

open JsonText (write loads)
open PyJson (get sortKeys)

/-! ## The data of a scene -/

/-- A `str` of the source. -/
def str (text : String) : PyJson := .string text.toList

def ints (ns : List Int) : PyJson := .array (ns.map .int)

def indices (ns : List Nat) : PyJson := .array (ns.map fun n => .int n)

def labelTexts (ts : List Text) : PyJson := .array (ts.map .string)

def SearchStep.json (s : SearchStep) : PyJson :=
  .object [("low", .int s.low), ("high", .int s.high), ("mid", .int s.mid), ("cmp", str s.cmp)]

def BinarySearch.data (b : BinarySearch) : Params :=
  [("array", ints b.array), ("target", .int b.target), ("steps", .array (b.steps.map SearchStep.json)),
    ("found", .bool b.found), ("result", str b.result)]

def SortAlgorithm.name : SortAlgorithm → String
  | .bubble => "bubble"
  | .insertion => "insertion"
  | .selection => "selection"

def Frame.json (f : Frame) : PyJson :=
  .object [("arr", ints f.arr), ("hl", indices f.hl), ("note", str f.note)]

def Sorting.data (s : Sorting) : Params :=
  [("algorithm", str s.algorithm.name), ("frames", .array (s.frames.map Frame.json))]

def RecursiveFunction.name : RecursiveFunction → String
  | .factorial => "factorial"
  | .fibonacci => "fibonacci"

def CallEvent.json (e : CallEvent) : PyJson := .object [("op", str e.op), ("text", str e.text)]

def RecursionStack.data (r : RecursionStack) : Params :=
  [("function", str r.function.name), ("n", .int r.n), ("events", .array (r.events.map CallEvent.json)),
    ("result", .int r.result)]

def GraphTraversal.data (g : GraphTraversal) : Params :=
  [("algorithm", .string g.algorithm.name), ("nodes", labelTexts g.nodes),
    ("edges", .array (g.edges.map fun (a, b) => indices [a, b])), ("order", indices g.order)]

def Link.json (l : Link) : PyJson :=
  .object [("from", .int l.source), ("to", .int l.target), ("label", .string l.label)]

def MessageFlow.data (m : MessageFlow) : Params :=
  [("actors", labelTexts m.actors), ("messages", .array (m.messages.map Link.json))]

def StateMachine.data (s : StateMachine) : Params :=
  [("states", labelTexts s.states), ("transitions", .array (s.transitions.map Link.json)),
    ("path", indices s.path)]

def TextSteps.data (t : TextSteps) : Params := [("steps", labelTexts t.steps)]

/-! ## Templates -/

structure Template where
  name : String
  description : String
  build : Params → Except SpecError Params

/-- `TEMPLATES` -/
def templates (d : ManimData) : List Template :=
  [{ name := "binary_search"
     description := "Binary search narrowing a sorted array"
     build := fun params => (binarySearch d params).map BinarySearch.data },
    { name := "sorting"
      description := "Bubble, insertion or selection sort on up to 10 numbers"
      build := fun params => (sorting d params).map Sorting.data },
    { name := "recursion_stack"
      description := "Call stack of factorial or fibonacci"
      build := fun params => (recursionStack d params).map RecursionStack.data },
    { name := "graph_traversal"
      description := "BFS or DFS over a small graph"
      build := fun params => (graphTraversal d params).map GraphTraversal.data },
    { name := "message_flow"
      description := "Messages between up to 5 actors (sequence diagram)"
      build := fun params => (messageFlow d params).map MessageFlow.data },
    { name := "state_machine"
      description := "A finite-state machine with a highlighted path"
      build := fun params => (stateMachine d params).map StateMachine.data },
    { name := "text_steps"
      description := "A short derivation or explanation shown line by line"
      build := fun params => (textSteps d params).map TextSteps.data }]

/-- `TEMPLATES.get(name)` -/
def findTemplate (d : ManimData) (name : String) : Option Template :=
  (templates d).find? (·.name = name)

/-! ## Validation -/

def specVersion : String := "1.0"

structure ValidatedSpec where
  template : String
  title : Text
  params : Params

namespace ValidatedSpec

/-- What `canonical_json` writes. -/
def fields (v : ValidatedSpec) : Params :=
  [("template", str v.template), ("title", .string v.title), ("params", .object v.params)]

def document (v : ValidatedSpec) : PyJson := .object v.fields

def canonicalJson (v : ValidatedSpec) : Text := write [] (sortKeys v.document)

end ValidatedSpec

/-- A `SpecError`, or the `ValueError` of `json.loads`. -/
inductive ValidateError where
  | spec (error : SpecError)
  | value

def specFields : List String := ["schema_version", "template", "title", "params"]

section Validate

variable (d : ManimData)

/-- The template that is named by a specification. -/
def namedTemplate (name : PyJson) : Option Template :=
  match name with
  | .string name => findTemplate d (String.ofList name)
  | _ => none

/-- `spec.get("schema_version", SPEC_VERSION) == SPEC_VERSION` -/
def versionOk (version : Option PyJson) : Bool :=
  match version with
  | none => true
  | some (.string version) => version = specVersion.toList
  | some _ => false

/-- `_label` of the title, which is the description where there is none. -/
def specTitle (template : Template) (title : Option PyJson) : Except SpecError Text :=
  label d.word (title.getD (.string (template.description.toList.take maxTitle.toNat))) "title"
    maxTitle false

/-- The checks of `validate_spec`, but for the parameters. -/
def checkSpec (fields : Params) (maxChars : Int) : Except SpecError (Template × Text) := do
  require ((write [' '] (.object fields)).length ≤ maxChars) "the specification is too large"
  let extra := extraKeys fields specFields
  require (extra = []) s!"unknown field(s): {showNames d (firstNames extra)}"
  require (versionOk (fields.lookup "schema_version"))
    s!"unsupported schema_version (expected {specVersion})"
  match namedTemplate d (get fields "template") with
  | none =>
    let name := String.ofList (d.repr ((d.str (get fields "template")).take 30))
    let supported := ", ".intercalate ((templates d).map Template.name)
    .error { message := s!"unknown template {name}; supported: {supported}", unsupported := true }
  | some template => return (template, ← specTitle d template (fields.lookup "title"))

variable (floatText : Text → Text)

/-- `_normalised` -/
def normalised (template : Template) (params : PyJson) : Except ValidateError Params :=
  match params with
  | .object fields => do
    let built ← (template.build fields).mapError .spec
    if built.isEmpty then return []
    else
      match loads floatText (write [' '] (sortKeys params)) with
      | some (.object fields) => return fields
      | _ => .error .value
  | _ => .error (.spec { message := "params must be an object" })

def validateSpec (spec : PyJson) (maxChars : Int) : Except ValidateError ValidatedSpec :=
  match spec with
  | .object fields => do
    let (template, title) ← (checkSpec d fields maxChars).mapError .spec
    let params ← normalised floatText template ((fields.lookup "params").getD (.object []))
    return { template := template.name, title, params }
  | _ => .error (.spec { message := "the specification must be a JSON object" })

end Validate

/-! ## The source of a scene -/

def b64Char (n : Nat) : Char :=
  if n < 26 then Char.ofNat (65 + n)
  else if n < 52 then Char.ofNat (71 + n)
  else if n < 62 then Char.ofNat (n - 4)
  else if n = 62 then '+'
  else '/'

/-- `base64.b64encode` -/
def b64encode : List UInt8 → Text
  | a :: b :: c :: rest =>
    let n := (a.toNat * 256 + b.toNat) * 256 + c.toNat
    b64Char (n / 262144) :: b64Char (n / 4096 % 64) :: b64Char (n / 64 % 64) :: b64Char (n % 64)
      :: b64encode rest
  | [a, b] =>
    let n := (a.toNat * 256 + b.toNat) * 4
    [b64Char (n / 4096), b64Char (n / 64 % 64), b64Char (n % 64), '=']
  | [a] =>
    let n := a.toNat * 16
    [b64Char (n / 64), b64Char (n % 64), '=', '=']
  | [] => []

inductive SceneError where
  | keyError (name : String)
  | spec (error : SpecError)

def buildSceneSource (d : ManimData) (v : ValidatedSpec) : Except SceneError Text :=
  match findTemplate d v.template with
  | none => .error (.keyError v.template)
  | some template => do
    let data ← (template.build v.params).mapError .spec
    let data := JsonText.setItem data ("title", .string v.title)
    let encoded := b64encode (Url.encodeUtf8 (write [] (.object data)))
    match scenes.lookup v.template with
    | none => .error (.keyError v.template)
    | some lines => return header encoded ++ ("\n".intercalate lines).toList

/-! ## Jobs and repairs -/

section Jobs

variable (d : ManimData) (floatText : Text → Text)

/-- `json_dump` -/
def jsonDump (obj : PyJson) : Text := write [] (sortKeys obj)

/-- The specification in the record of a job that `create_job` makes. -/
def jobSpec (v : ValidatedSpec) : Option PyJson := loads floatText v.canonicalJson

/-- `validate_spec(json.loads(spec_json), max_spec_chars)`, as `_run_job` takes it. -/
def attemptValidation (specJson : Text) (maxChars : Int) : Validation :=
  match loads floatText specJson with
  | none => .valueError
  | some spec =>
    match validateSpec d floatText spec maxChars with
    | .ok _ => .ok
    | .error (.spec error) => .specError error.unsupported
    | .error .value => .valueError

structure RepairOutcome where
  ok : Bool
  kind : String
  content : Text := []
  category : String := ""

def validateCandidate (mermaid : Mermaid.MermaidData) (kind : String) (candidate : Text)
    (maxMermaid maxManim : Int) : RepairOutcome :=
  if kind = "mermaid" then
    let v := Mermaid.validateMermaid mermaid candidate maxMermaid
    { ok := v.ok, kind, content := if v.ok then candidate else [],
      category := if v.ok then "" else v.category }
  else
    match loads floatText candidate with
    | none => { ok := false, kind, category := "invalid_spec" }
    | some spec =>
      match validateSpec d floatText spec maxManim with
      | .ok v => { ok := true, kind, content := v.canonicalJson }
      | .error (.spec error) =>
        { ok := false, kind,
          category := if error.unsupported then "unsupported_template" else "invalid_spec" }
      | .error .value => { ok := false, kind, category := "invalid_spec" }

end Jobs

end ManimTemplates

end LlmService
