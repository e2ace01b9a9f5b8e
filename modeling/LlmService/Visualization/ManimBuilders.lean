import LlmService.Lib.GraphSearch
import LlmService.Lib.StableSort
import LlmService.Lib.SwapSort
import LlmService.Lib.Within
import LlmService.Visualization.ManimLabel

/-!
# The builders of the animation templates

`visualization/manim_templates.py`, the host side: each builder checks the
parameters of its template and computes the data of the scene. A builder is a
chain of checks, and `.ok` of it is what the checks have read.
-/

namespace LlmService

namespace ManimTemplates

def maxFrames : Nat := 60

/-- What the templates read of Python. -/
structure ManimData where
  /-- `\w` -/
  word : Char → Bool
  /-- `str(value)` -/
  str : PyJson → Text
  /-- `repr(text)` -/
  repr : Text → Text

/-- `re` and `str` for ASCII text. -/
def asciiManim : ManimData where
  word := asciiClasses.word
  str _ := []
  repr text := text

/-- A `dict`. -/
abbrev Params := List (String × PyJson)

open PyJson (get)

/-! ## Checks -/

def require (p : Prop) [Decidable p] (message : String) : Except SpecError Unit :=
  if p then .ok () else .error { message }

/-- `_int` -/
def int (value : PyJson) (name : String) (lo hi : Int) : Except SpecError Int :=
  let error : SpecError := { message := s!"{name} must be an integer between {lo} and {hi}" }
  match value with
  | .int value => if lo ≤ value ∧ value ≤ hi then .ok value else .error error
  | _ => .error error

/-- A list of `lo` to `hi` items, or `message`. -/
def listOf (value : PyJson) (lo hi : Nat) (message : String) : Except SpecError (List PyJson) :=
  match value with
  | .array items =>
    if lo ≤ items.length ∧ items.length ≤ hi then .ok items else .error { message }
  | _ => .error { message }

/-- `_int_list` -/
def intList (value : PyJson) (name : String) (lo hi : Int) (minLen maxLen : Nat) :
    Except SpecError (List Int) := do
  let items ← listOf value minLen maxLen s!"{name} must be a list of {minLen}-{maxLen} integers"
  items.zipIdx.mapM fun (v, i) => int v s!"{name}[{i}]" lo hi

section Only

variable (d : ManimData)

/-- `f"{names}"`, for a list of texts -/
def showNames (names : List String) : String :=
  "[" ++ ", ".intercalate (names.map fun name => String.ofList (d.repr name.toList)) ++ "]"

/-- `sorted(extra)[:3]` -/
def firstNames (extra : List String) : List String := (extra.insertionSort (· ≤ ·)).take 3

/-- `set(params) - allowed` -/
def extraKeys (params : Params) (allowed : List String) : List String :=
  (params.map Prod.fst).filter (· ∉ allowed)

/-- `_only` -/
def only (params : Params) (allowed : List String) : Except SpecError Unit :=
  let extra := extraKeys params allowed
  require (extra = []) s!"unknown parameter(s): {showNames d (firstNames extra)}"

end Only

/-- `value in names`, and its index, or `message`. -/
def member (names : List Text) (value : PyJson) (message : String) : Except SpecError Nat :=
  match value with
  | .string name => if name ∈ names then .ok (names.idxOf name) else .error { message }
  | _ => .error { message }

/-! ## Binary search -/

structure SearchStep where
  low : Int
  high : Int
  mid : Int
  cmp : String

/-- `while lo <= hi`: the steps, and whether the target was found. -/
def searchLoop (arr : List Int) (target lo hi : Int) : List SearchStep × Bool :=
  if lo ≤ hi then
    let mid := (lo + hi) / 2
    let value := SwapSort.item arr mid.toNat
    let cmp := if value = target then "==" else if value < target then "<" else ">"
    let step : SearchStep := { low := lo, high := hi, mid, cmp }
    if value = target then ([step], true)
    else
      let rest := if value < target then searchLoop arr target (mid + 1) hi
        else searchLoop arr target lo (mid - 1)
      (step :: rest.1, rest.2)
  else ([], false)
termination_by (hi + 1 - lo).toNat
decreasing_by all_goals omega

structure BinarySearch where
  array : List Int
  target : Int
  steps : List SearchStep
  found : Bool
  result : String

/-- The data for a sorted array. -/
def searchData (array : List Int) (target : Int) : BinarySearch :=
  let run := searchLoop array target 0 (array.length - 1)
  { array, target, steps := run.1, found := run.2,
    result :=
      match run.2, run.1.getLast? with
      | true, some last => s!"found at index {last.mid}"
      | _, _ => "not found" }

/-- `_binary_search` -/
def binarySearch (d : ManimData) (params : Params) : Except SpecError BinarySearch := do
  only d params ["array", "target"]
  let arr ← intList (get params "array") "array" (-999) 999 2 16
  require (arr = arr.insertionSort (· ≤ ·)) "array must be sorted ascending"
  let target ← int (get params "target") "target" (-999) 999
  return searchData arr target

/-! ## Sorting -/

inductive SortAlgorithm where
  | bubble | insertion | selection
  deriving DecidableEq, Repr

structure Frame where
  arr : List Int
  hl : List Nat
  note : String

/-- The array and the frames recorded so far. -/
structure Sorter where
  a : List Int
  frames : List Frame

namespace Sorter

open SwapSort (item)

/-- `rec` -/
def record (s : Sorter) (hl : List Nat) (note : String) : Sorter :=
  if s.frames.length < maxFrames then { s with frames := s.frames ++ [{ arr := s.a, hl, note }] } else s

def swap (s : Sorter) (i j : Nat) : Sorter := { s with a := SwapSort.swap s.a i j }

def bubbleStep (s : Sorter) (j : Nat) : Sorter :=
  let s := s.record [j, j + 1] s!"compare {item s.a j} and {item s.a (j + 1)}"
  if item s.a (j + 1) < item s.a j then (s.swap j (j + 1)).record [j, j + 1] "swap" else s

def bubble (s : Sorter) : Sorter :=
  let n := s.a.length
  (List.range n).foldl (fun s i => (List.range (n - 1 - i)).foldl bubbleStep s) s

def insert : Nat → Sorter → Sorter
  | 0, s => s
  | k + 1, s =>
    if item s.a (k + 1) < item s.a k then
      let s := s.record [k, k + 1] s!"{item s.a (k + 1)} < {item s.a k}: move left"
      insert k ((s.swap k (k + 1)).record [k, k + 1] "swap")
    else s

def insertion (s : Sorter) : Sorter :=
  (List.range' 1 (s.a.length - 1)).foldl (fun s i => insert i s) s

/-- The inner loop: the index of the least item so far goes with the array. -/
def findMin (s : Sorter) (i : Nat) : Sorter × Nat :=
  (List.range' (i + 1) (s.a.length - (i + 1))).foldl
    (fun (s, m) j =>
      let s := s.record [m, j] s!"find minimum: {item s.a j} vs {item s.a m}"
      (s, if item s.a j < item s.a m then j else m))
    (s, i)

def selectStep (s : Sorter) (i : Nat) : Sorter :=
  let (s, m) := s.findMin i
  if m ≠ i then (s.swap i m).record [i, m] "swap minimum into place" else s

def selection (s : Sorter) : Sorter := (List.range s.a.length).foldl selectStep s

end Sorter

def SortAlgorithm.run : SortAlgorithm → Sorter → Sorter
  | .bubble => Sorter.bubble
  | .insertion => Sorter.insertion
  | .selection => Sorter.selection

def sortFrames (algorithm : SortAlgorithm) (array : List Int) : List Frame :=
  let start : Frame := { arr := array, hl := [], note := "start" }
  let s := algorithm.run { a := array, frames := [start] }
  let last : Frame := { arr := s.a, hl := [], note := "sorted" }
  (s.frames ++ [last]).take (maxFrames + 1)

structure Sorting where
  algorithm : SortAlgorithm
  frames : List Frame

def sortAlgorithm (value : PyJson) : Except SpecError SortAlgorithm :=
  let error : SpecError := { message := "algorithm must be bubble, insertion or selection" }
  match value with
  | .string name =>
    match String.ofList name with
    | "bubble" => .ok .bubble
    | "insertion" => .ok .insertion
    | "selection" => .ok .selection
    | _ => .error error
  | _ => .error error

/-- `_sorting` -/
def sorting (d : ManimData) (params : Params) : Except SpecError Sorting := do
  only d params ["algorithm", "array"]
  let algorithm ← sortAlgorithm (get params "algorithm")
  let arr ← intList (get params "array") "array" 1 99 2 10
  return { algorithm, frames := sortFrames algorithm arr }

/-! ## Recursion -/

inductive RecursiveFunction where
  | factorial | fibonacci
  deriving DecidableEq, Repr

structure CallEvent where
  op : String
  text : String

/-- The events of a call: `push`, those of the calls in it, and `pop`. -/
def call (name : String) (k : Nat) (inner : List CallEvent) (r : Nat) : List CallEvent × Nat :=
  (⟨"push", s!"{name}({k})"⟩ :: inner ++ [⟨"pop", s!"{name}({k}) = {r}"⟩], r)

def fact : Nat → List CallEvent × Nat
  | k + 2 =>
    let below := fact (k + 1)
    call "fact" (k + 2) below.1 ((k + 2) * below.2)
  | k => call "fact" k [] 1

def fib : Nat → List CallEvent × Nat
  | k + 2 =>
    let first := fib (k + 1)
    let second := fib k
    call "fib" (k + 2) (first.1 ++ second.1) (first.2 + second.2)
  | k => call "fib" k [] k

structure RecursionStack where
  function : RecursiveFunction
  n : Int
  events : List CallEvent
  result : Nat

def recursiveFunction (value : PyJson) : Except SpecError RecursiveFunction :=
  let error : SpecError := { message := "function must be factorial or fibonacci" }
  match value with
  | .string name =>
    match String.ofList name with
    | "factorial" => .ok .factorial
    | "fibonacci" => .ok .fibonacci
    | _ => .error error
  | _ => .error error

/-- `_recursion_stack` -/
def recursionStack (d : ManimData) (params : Params) : Except SpecError RecursionStack := do
  only d params ["function", "n"]
  let function ← recursiveFunction (get params "function")
  let n ← int (get params "n") "n" 1 6
  let run :=
    match function with
    | .factorial => fact n.toNat
    | .fibonacci => fib n.toNat
  require (run.1.length ≤ 2 * maxFrames) "this recursion is too long to animate; use a smaller n"
  return { function, n, events := run.1, result := run.2 }

/-! ## Graph traversal -/

inductive GraphAlgorithm where
  | bfs | dfs
  deriving DecidableEq, Repr

def GraphAlgorithm.name : GraphAlgorithm → Text
  | .bfs => ['b', 'f', 's']
  | .dfs => ['d', 'f', 's']

def graphAlgorithm (value : PyJson) : Except SpecError GraphAlgorithm :=
  let error : SpecError := { message := "algorithm must be bfs or dfs" }
  match value with
  | .string name =>
    match String.ofList name with
    | "bfs" => .ok .bfs
    | "dfs" => .ok .dfs
    | _ => .error error
  | _ => .error error

/-- A list of labels that are all different. -/
def names (d : ManimData) (value : PyJson) (hi : Nat) (kind : String) (limit : Int)
    (listMessage uniqueMessage : String) : Except SpecError (List Text) := do
  let items ← listOf value 2 hi listMessage
  let names ← items.mapM fun v => label d.word v kind limit false
  require names.Nodup uniqueMessage
  return names

def edge (nodes : List Text) (e : PyJson) : Except SpecError (Nat × Nat) :=
  let error : SpecError := { message := "each edge must be two different node labels from nodes" }
  match e with
  | .array [.string a, .string b] =>
    if a ∈ nodes ∧ b ∈ nodes ∧ a ≠ b then .ok (nodes.idxOf a, nodes.idxOf b) else .error error
  | _ => .error error

/-- `sorted(adj[v])` -/
def neighbours (edges : List (Nat × Nat)) (v : Nat) : List Nat :=
  (edges.flatMap fun (a, b) => (if a = v then [b] else []) ++ if b = v then [a] else []).insertionSort
    (· ≤ ·)

/-- `order`; neither search runs out of passes. -/
def GraphAlgorithm.order (algorithm : GraphAlgorithm) (count : Nat) (edges : List (Nat × Nat))
    (s : Nat) : List Nat :=
  match algorithm with
  | .bfs => (GraphSearch.bfs (neighbours edges) count s).getD []
  | .dfs => (GraphSearch.dfs (neighbours edges) count s []).getD []

structure GraphTraversal where
  algorithm : GraphAlgorithm
  nodes : List Text
  edges : List (Nat × Nat)
  order : List Nat

/-- `nodes.index(params.get("start", nodes[0]))` -/
def startIndex (nodes : List Text) (start : Option PyJson) : Except SpecError Nat :=
  match start with
  | none => .ok 0
  | some start => member nodes start "start must be one of the nodes"

/-- `_graph_traversal` -/
def graphTraversal (d : ManimData) (params : Params) : Except SpecError GraphTraversal := do
  only d params ["algorithm", "nodes", "edges", "start"]
  let algorithm ← graphAlgorithm (get params "algorithm")
  let nodes ← names d (get params "nodes") 8 "node" 12 "nodes must be a list of 2-8 labels"
    "node labels must be unique"
  let items ← listOf (get params "edges") 1 14 "edges must be a list of 1-14 pairs"
  let edges ← items.mapM (edge nodes)
  let s ← startIndex nodes (params.lookup "start")
  return { algorithm, nodes, edges, order := algorithm.order nodes.length edges s }

/-! ## Messages and transitions -/

/-- A message or a transition; `source` and `target` are written `from` and `to`. -/
structure Link where
  source : Nat
  target : Nat
  label : Text

/-- The names at both ends and the label of an item, or `message`. -/
def linkEnds (names : List Text) (item : PyJson) (message : String) :
    Except SpecError (Text × Text × PyJson) :=
  match item with
  | .object fields =>
    match get fields "from", get fields "to" with
    | .string a, .string b =>
      if extraKeys fields ["from", "to", "label"] = [] ∧ a ∈ names ∧ b ∈ names then
        .ok (a, b, get fields "label")
      else .error { message }
    | _, _ => .error { message }
  | _ => .error { message }

structure MessageFlow where
  actors : List Text
  messages : List Link

def message (d : ManimData) (actors : List Text) (item : PyJson) : Except SpecError Link := do
  let (a, b, text) ← linkEnds actors item "each message needs from, to (actor names) and label"
  let text ← label d.word text "label" 28 true
  return { source := actors.idxOf a, target := actors.idxOf b, label := text }

/-- `_message_flow` -/
def messageFlow (d : ManimData) (params : Params) : Except SpecError MessageFlow := do
  only d params ["actors", "messages"]
  let actors ← names d (get params "actors") 5 "actor" 16 "actors must be a list of 2-5 names"
    "actor names must be unique"
  let items ← listOf (get params "messages") 1 10 "messages must be a list of 1-10 items"
  let messages ← items.mapM (message d actors)
  return { actors, messages }

structure StateMachine where
  states : List Text
  transitions : List Link
  path : List Nat

def transition (d : ManimData) (states : List Text) (item : PyJson) : Except SpecError Link := do
  let error := "each transition needs from, to (two different states) and label"
  let (a, b, text) ← linkEnds states item error
  require (a ≠ b) error
  let text ← label d.word text "label" 16 false
  return { source := states.idxOf a, target := states.idxOf b, label := text }

def statePath (states : List Text) (path : Option PyJson) : Except SpecError (List Nat) :=
  match path with
  | none => .ok []
  | some path => do
    let error := "path must be a list of up to 10 state names"
    let items ← listOf path 0 10 error
    items.mapM fun p => member states p error

/-- `_state_machine` -/
def stateMachine (d : ManimData) (params : Params) : Except SpecError StateMachine := do
  only d params ["states", "transitions", "path"]
  let states ← names d (get params "states") 6 "state" 14 "states must be a list of 2-6 names"
    "state names must be unique"
  let items ← listOf (get params "transitions") 1 10 "transitions must be a list of 1-10 items"
  let transitions ← items.mapM (transition d states)
  let path ← statePath states (params.lookup "path")
  return { states, transitions, path }

/-! ## Lines of text -/

structure TextSteps where
  steps : List Text

/-- `_text_steps` -/
def textSteps (d : ManimData) (params : Params) : Except SpecError TextSteps := do
  only d params ["steps"]
  let items ← listOf (get params "steps") 2 8 "steps must be a list of 2-8 short lines"
  let steps ← items.mapM fun s => label d.word s "step" 48 true
  return { steps }

/-! ## What the checks read -/

section Reads

variable {d : ManimData} {value item : PyJson} {params : Params} {error kind name : String}
  {labels : List Text}

@[simp] theorem require_eq_ok_iff {p : Prop} [Decidable p] {u : Unit} :
    require p error = .ok u ↔ p := by
  rw [require]
  split
  · simp [*]
  · simp [*]

@[simp] theorem only_eq_ok_iff {allowed : List String} {u : Unit} :
    only d params allowed = .ok u ↔ extraKeys params allowed = [] := require_eq_ok_iff

@[simp] theorem int_eq_ok_iff {lo hi n : Int} :
    int value name lo hi = .ok n ↔ value = .int n ∧ lo ≤ n ∧ n ≤ hi := by
  cases value with
  | int m =>
    rw [int]
    split
    · rename_i hrange
      simp only [Except.ok.injEq, PyJson.int.injEq]
      constructor
      · rintro rfl
        exact ⟨rfl, hrange⟩
      · exact And.left
    · rename_i hrange
      simp only [PyJson.int.injEq, reduceCtorEq, false_iff]
      rintro ⟨rfl, hn⟩
      exact hrange hn
  | _ => simp [int]

@[simp] theorem listOf_eq_ok_iff {lo hi : Nat} {items : List PyJson} :
    listOf value lo hi error = .ok items ↔
      value = .array items ∧ lo ≤ items.length ∧ items.length ≤ hi := by
  cases value with
  | array list =>
    rw [listOf]
    split
    · rename_i hlen
      simp only [Except.ok.injEq, PyJson.array.injEq]
      constructor
      · rintro rfl
        exact ⟨rfl, hlen⟩
      · exact And.left
    · rename_i hlen
      simp only [PyJson.array.injEq, reduceCtorEq, false_iff]
      rintro ⟨rfl, hn⟩
      exact hlen hn
  | _ => simp [listOf]

theorem mapM_int_eq_ok_iff {lo hi : Int} {items : List PyJson} {start : Nat} {ns : List Int} :
    ((items.zipIdx start).mapM fun (v, i) => int v s!"{name}[{i}]" lo hi) = .ok ns ↔
      items = ns.map .int ∧ ∀ n ∈ ns, lo ≤ n ∧ n ≤ hi := by
  rw [mapM_eq_ok_iff]
  induction items generalizing start ns with
  | nil =>
    rw [List.zipIdx_nil, List.forall₂_nil_left_iff]
    constructor
    · rintro rfl
      simp
    · rintro ⟨hns, -⟩
      exact List.map_eq_nil_iff.mp hns.symm
  | cons v items ih =>
    rw [List.zipIdx_cons]
    cases ns with
    | nil => simp
    | cons n ns =>
      rw [List.forall₂_cons, ih, List.map_cons, List.cons.injEq, List.forall_mem_cons]
      simp only [int_eq_ok_iff]
      constructor
      · rintro ⟨⟨hv, hn⟩, hitems, hns⟩
        exact ⟨⟨hv, hitems⟩, hn, hns⟩
      · rintro ⟨⟨hv, hitems⟩, hn, hns⟩
        exact ⟨⟨hv, hn⟩, hitems, hns⟩

theorem intList_eq_ok_iff {lo hi : Int} {minLen maxLen : Nat} {ns : List Int} :
    intList value name lo hi minLen maxLen = .ok ns ↔
      value = .array (ns.map .int) ∧ (minLen ≤ ns.length ∧ ns.length ≤ maxLen) ∧
        ∀ n ∈ ns, lo ≤ n ∧ n ≤ hi := by
  simp only [intList, except_bind_eq_ok, listOf_eq_ok_iff, mapM_int_eq_ok_iff]
  constructor
  · rintro ⟨items, ⟨rfl, hlen⟩, rfl, hns⟩
    rw [List.length_map] at hlen
    exact ⟨rfl, hlen, hns⟩
  · rintro ⟨rfl, hlen, hns⟩
    exact ⟨_, ⟨rfl, by simpa using hlen⟩, rfl, hns⟩

theorem names_eq_ok_iff {hi : Nat} {limit : Int} {listMessage uniqueMessage : String} :
    names d value hi kind limit listMessage uniqueMessage = .ok labels ↔
      ∃ items, value = .array items ∧ (2 ≤ items.length ∧ items.length ≤ hi) ∧
        List.Forall₂ (fun v name => label d.word v kind limit false = .ok name) items labels ∧
        labels.Nodup := by
  simp only [names, except_bind_eq_ok, listOf_eq_ok_iff, mapM_eq_ok_iff, require_eq_ok_iff]
  constructor
  · rintro ⟨items, ⟨hvalue, hlen⟩, labels', hlabels, -, hnodup, hpure⟩
    obtain rfl := Except.ok.inj hpure
    exact ⟨items, hvalue, hlen, hlabels, hnodup⟩
  · rintro ⟨items, hvalue, hlen, hlabels, hnodup⟩
    exact ⟨items, ⟨hvalue, hlen⟩, labels, hlabels, (), hnodup, rfl⟩

theorem member_eq_ok_iff {i : Nat} :
    member labels value error = .ok i ↔
      ∃ name, value = .string name ∧ name ∈ labels ∧ i = labels.idxOf name := by
  cases value with
  | string text =>
    rw [member]
    split
    · rename_i hmem
      simp only [Except.ok.injEq, PyJson.string.injEq]
      constructor
      · rintro rfl
        exact ⟨text, rfl, hmem, rfl⟩
      · rintro ⟨name, rfl, -, rfl⟩
        rfl
    · rename_i hmem
      simp only [PyJson.string.injEq, reduceCtorEq, false_iff]
      rintro ⟨name, rfl, hname, -⟩
      exact hmem hname
  | _ => simp [member]

theorem graphAlgorithm_eq_ok_iff {algorithm : GraphAlgorithm} :
    graphAlgorithm value = .ok algorithm ↔ value = .string algorithm.name := by
  constructor
  · intro h
    unfold graphAlgorithm at h
    split at h
    · rename_i text
      split at h
      · rename_i hname
        obtain rfl := Except.ok.inj h
        have htext : text = ['b', 'f', 's'] := by simpa using congrArg String.toList hname
        rw [htext]
        rfl
      · rename_i hname
        obtain rfl := Except.ok.inj h
        have htext : text = ['d', 'f', 's'] := by simpa using congrArg String.toList hname
        rw [htext]
        rfl
      · cases h
    · cases h
  · rintro rfl
    cases algorithm <;> rfl

theorem edge_eq_ok_iff {e : Nat × Nat} :
    edge labels item = .ok e ↔
      ∃ a b, item = .array [.string a, .string b] ∧ (a ∈ labels ∧ b ∈ labels ∧ a ≠ b) ∧
        e = (labels.idxOf a, labels.idxOf b) := by
  unfold edge
  split
  · rename_i a b
    split
    · rename_i hends
      simp only [Except.ok.injEq, PyJson.array.injEq, List.cons.injEq, PyJson.string.injEq, and_true]
      constructor
      · rintro rfl
        exact ⟨a, b, ⟨rfl, rfl⟩, hends, rfl⟩
      · rintro ⟨_, _, ⟨rfl, rfl⟩, -, rfl⟩
        rfl
    · rename_i hends
      simp only [PyJson.array.injEq, List.cons.injEq, PyJson.string.injEq, and_true, reduceCtorEq,
        false_iff]
      rintro ⟨_, _, ⟨rfl, rfl⟩, hends', -⟩
      exact hends hends'
  · rename_i hshape
    simp only [reduceCtorEq, false_iff]
    rintro ⟨a, b, hitem, -⟩
    exact hshape a b hitem

theorem linkEnds_eq_ok_iff {a b : Text} {text : PyJson} :
    linkEnds labels item error = .ok (a, b, text) ↔
      ∃ fields, item = .object fields ∧ extraKeys fields ["from", "to", "label"] = [] ∧
        (get fields "from" = .string a ∧ a ∈ labels) ∧ (get fields "to" = .string b ∧ b ∈ labels) ∧
        text = get fields "label" := by
  cases item with
  | object fields =>
    rw [linkEnds]
    simp only [PyJson.object.injEq, exists_eq_left']
    split
    · rename_i a' b' ha' hb'
      rw [ha', hb']
      split
      · rename_i hends
        simp only [Except.ok.injEq, Prod.mk.injEq, PyJson.string.injEq]
        constructor
        · rintro ⟨rfl, rfl, rfl⟩
          exact ⟨hends.1, ⟨rfl, hends.2.1⟩, ⟨rfl, hends.2.2⟩, rfl⟩
        · rintro ⟨-, ⟨rfl, -⟩, ⟨rfl, -⟩, rfl⟩
          exact ⟨rfl, rfl, rfl⟩
      · rename_i hends
        simp only [PyJson.string.injEq, reduceCtorEq, false_iff]
        rintro ⟨hkeys, ⟨rfl, ha⟩, ⟨rfl, hb⟩, -⟩
        exact hends ⟨hkeys, ha, hb⟩
    · rename_i hshape
      simp only [reduceCtorEq, false_iff]
      rintro ⟨-, ⟨ha, -⟩, ⟨hb, -⟩, -⟩
      exact hshape a b ha hb
  | _ => simp [linkEnds]

theorem binarySearch_eq_ok_iff {out : BinarySearch} :
    binarySearch d params = .ok out ↔ extraKeys params ["array", "target"] = [] ∧
      ∃ arr, intList (get params "array") "array" (-999) 999 2 16 = .ok arr ∧
        arr = arr.insertionSort (· ≤ ·) ∧
        ∃ target, int (get params "target") "target" (-999) 999 = .ok target ∧
          out = searchData arr target := by
  simp only [binarySearch, except_bind_eq_ok, only_eq_ok_iff, require_eq_ok_iff, exists_const]
  constructor
  · rintro ⟨hkeys, arr, harr, hsorted, target, htarget, hpure⟩
    exact ⟨hkeys, arr, harr, hsorted, target, htarget, (Except.ok.inj hpure).symm⟩
  · rintro ⟨hkeys, arr, harr, hsorted, target, htarget, rfl⟩
    exact ⟨hkeys, arr, harr, hsorted, target, htarget, rfl⟩

theorem sorting_eq_ok_iff {out : Sorting} :
    sorting d params = .ok out ↔ extraKeys params ["algorithm", "array"] = [] ∧
      ∃ algorithm, sortAlgorithm (get params "algorithm") = .ok algorithm ∧
        ∃ arr, intList (get params "array") "array" 1 99 2 10 = .ok arr ∧
          out = { algorithm, frames := sortFrames algorithm arr } := by
  simp only [sorting, except_bind_eq_ok, only_eq_ok_iff, exists_const]
  constructor
  · rintro ⟨hkeys, algorithm, halgorithm, arr, harr, hpure⟩
    exact ⟨hkeys, algorithm, halgorithm, arr, harr, (Except.ok.inj hpure).symm⟩
  · rintro ⟨hkeys, algorithm, halgorithm, arr, harr, rfl⟩
    exact ⟨hkeys, algorithm, halgorithm, arr, harr, rfl⟩

theorem graphTraversal_eq_ok_iff {out : GraphTraversal} :
    graphTraversal d params = .ok out ↔
      extraKeys params ["algorithm", "nodes", "edges", "start"] = [] ∧
      graphAlgorithm (get params "algorithm") = .ok out.algorithm ∧
      names d (get params "nodes") 8 "node" 12 "nodes must be a list of 2-8 labels"
        "node labels must be unique" = .ok out.nodes ∧
      (∃ items, get params "edges" = .array items ∧ (1 ≤ items.length ∧ items.length ≤ 14) ∧
        List.Forall₂ (fun item e => edge out.nodes item = .ok e) items out.edges) ∧
      ∃ s, startIndex out.nodes (params.lookup "start") = .ok s ∧
        out.order = out.algorithm.order out.nodes.length out.edges s := by
  simp only [graphTraversal, except_bind_eq_ok, only_eq_ok_iff, listOf_eq_ok_iff, mapM_eq_ok_iff,
    exists_const]
  constructor
  · rintro ⟨hkeys, algorithm, halgorithm, nodes, hnodes, items, ⟨hvalue, hlen⟩, edges, hedges, s, hs,
      hpure⟩
    obtain rfl := Except.ok.inj hpure
    exact ⟨hkeys, halgorithm, hnodes, ⟨items, hvalue, hlen, hedges⟩, s, hs, rfl⟩
  · rintro ⟨hkeys, halgorithm, hnodes, ⟨items, hvalue, hlen, hedges⟩, s, hs, horder⟩
    refine ⟨hkeys, _, halgorithm, _, hnodes, items, ⟨hvalue, hlen⟩, _, hedges, s, hs, ?_⟩
    rw [← horder]
    rfl

theorem message_eq_ok_iff {link : Link} :
    message d labels item = .ok link ↔
      ∃ a b text, linkEnds labels item "each message needs from, to (actor names) and label" =
          .ok (a, b, text) ∧ link.source = labels.idxOf a ∧ link.target = labels.idxOf b ∧
        label d.word text "label" 28 true = .ok link.label := by
  simp only [message, except_bind_eq_ok]
  constructor
  · rintro ⟨⟨a, b, text⟩, hends, shown, hlabel, hpure⟩
    obtain rfl := Except.ok.inj hpure
    exact ⟨a, b, text, hends, rfl, rfl, hlabel⟩
  · rintro ⟨a, b, text, hends, hsource, htarget, hlabel⟩
    refine ⟨⟨a, b, text⟩, hends, _, hlabel, ?_⟩
    rw [← hsource, ← htarget]
    rfl

theorem transition_eq_ok_iff {link : Link} :
    transition d labels item = .ok link ↔
      ∃ a b text, linkEnds labels item
          "each transition needs from, to (two different states) and label" = .ok (a, b, text) ∧
        a ≠ b ∧ link.source = labels.idxOf a ∧ link.target = labels.idxOf b ∧
        label d.word text "label" 16 false = .ok link.label := by
  simp only [transition, except_bind_eq_ok, require_eq_ok_iff, exists_const]
  constructor
  · rintro ⟨⟨a, b, text⟩, hends, hne, shown, hlabel, hpure⟩
    obtain rfl := Except.ok.inj hpure
    exact ⟨a, b, text, hends, hne, rfl, rfl, hlabel⟩
  · rintro ⟨a, b, text, hends, hne, hsource, htarget, hlabel⟩
    refine ⟨⟨a, b, text⟩, hends, hne, _, hlabel, ?_⟩
    rw [← hsource, ← htarget]
    rfl

theorem messageFlow_eq_ok_iff {out : MessageFlow} :
    messageFlow d params = .ok out ↔ extraKeys params ["actors", "messages"] = [] ∧
      names d (get params "actors") 5 "actor" 16 "actors must be a list of 2-5 names"
        "actor names must be unique" = .ok out.actors ∧
      ∃ items, get params "messages" = .array items ∧ (1 ≤ items.length ∧ items.length ≤ 10) ∧
        List.Forall₂ (fun item link => message d out.actors item = .ok link) items
          out.messages := by
  simp only [messageFlow, except_bind_eq_ok, only_eq_ok_iff, listOf_eq_ok_iff, mapM_eq_ok_iff,
    exists_const]
  constructor
  · rintro ⟨hkeys, actors, hactors, items, ⟨hvalue, hlen⟩, messages, hmessages, hpure⟩
    obtain rfl := Except.ok.inj hpure
    exact ⟨hkeys, hactors, items, hvalue, hlen, hmessages⟩
  · rintro ⟨hkeys, hactors, items, hvalue, hlen, hmessages⟩
    exact ⟨hkeys, _, hactors, items, ⟨hvalue, hlen⟩, _, hmessages, rfl⟩

theorem statePath_some_eq_ok_iff {path : List Nat} :
    statePath labels (some value) = .ok path ↔
      ∃ items, value = .array items ∧ items.length ≤ 10 ∧
        List.Forall₂ (fun p i => member labels p "path must be a list of up to 10 state names" = .ok i)
          items path := by
  simp only [statePath, except_bind_eq_ok, listOf_eq_ok_iff, mapM_eq_ok_iff, Nat.zero_le, true_and]
  constructor
  · rintro ⟨items, ⟨hvalue, hlen⟩, hpath⟩
    exact ⟨items, hvalue, hlen, hpath⟩
  · rintro ⟨items, hvalue, hlen, hpath⟩
    exact ⟨items, ⟨hvalue, hlen⟩, hpath⟩

theorem stateMachine_eq_ok_iff {out : StateMachine} :
    stateMachine d params = .ok out ↔ extraKeys params ["states", "transitions", "path"] = [] ∧
      names d (get params "states") 6 "state" 14 "states must be a list of 2-6 names"
        "state names must be unique" = .ok out.states ∧
      (∃ items, get params "transitions" = .array items ∧ (1 ≤ items.length ∧ items.length ≤ 10) ∧
        List.Forall₂ (fun item link => transition d out.states item = .ok link) items
          out.transitions) ∧
      statePath out.states (params.lookup "path") = .ok out.path := by
  simp only [stateMachine, except_bind_eq_ok, only_eq_ok_iff, listOf_eq_ok_iff, mapM_eq_ok_iff,
    exists_const]
  constructor
  · rintro ⟨hkeys, states, hstates, items, ⟨hvalue, hlen⟩, transitions, htransitions, path, hpath,
      hpure⟩
    obtain rfl := Except.ok.inj hpure
    exact ⟨hkeys, hstates, ⟨items, hvalue, hlen, htransitions⟩, hpath⟩
  · rintro ⟨hkeys, hstates, ⟨items, hvalue, hlen, htransitions⟩, hpath⟩
    exact ⟨hkeys, _, hstates, items, ⟨hvalue, hlen⟩, _, htransitions, _, hpath, rfl⟩

end Reads

end ManimTemplates

end LlmService
