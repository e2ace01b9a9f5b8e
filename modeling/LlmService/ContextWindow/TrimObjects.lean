import LlmService.ContextWindow.TrimTurns
import LlmService.Lib.Within

/-!
# Trimming on section objects

`trim` as it acts on objects: the caller holds references to sections, whose
`items` refer to lists of messages; `model_copy` makes a new section object
that refers to the same list, and the loop assigns to the fields of the
copies. What the objects hold in the end is what `trimBudget` computes, and
no object of the caller is written to.
-/

namespace LlmService

/-- A `PromptSection` object; `items` is a reference. -/
structure SectionObject where
  name : String
  content : Text
  priority : Nat := 5
  tokenCount : Nat := 0
  trimmable : Bool := true
  items : Option Nat := none
  header : Text := []
  declared : decide (1 ≤ priority ∧ priority ≤ 10) = true := by exact Eq.refl true

/-- The section objects, the lists of messages and the lists of sections; a
reference is the position of an object. -/
structure ObjectHeap where
  sections : List SectionObject := []
  messageLists : List (List ChatMessage) := []
  sectionLists : List (List Nat) := []

/-- The heap of a caller: every reference to a list of messages is to one. -/
structure CallerHeap extends ObjectHeap where
  items_lt : ∀ o ∈ sections, ∀ p ∈ o.items, p < messageLists.length

namespace ObjectHeap

variable (h : ObjectHeap)

/-- What an object says. -/
def load (o : SectionObject) : PromptSection :=
  { name := o.name, content := o.content, priority := o.priority, tokenCount := o.tokenCount
    trimmable := o.trimmable, items := o.items.map fun p => h.messageLists.getD p []
    header := o.header, declared := o.declared }

def loadRefs (refs : List Nat) : List PromptSection :=
  (refs.filterMap (h.sections[·]?)).map h.load

/-- What the list at a reference says. -/
def loadList (list : Nat) : List PromptSection := h.loadRefs (h.sectionLists.getD list [])

/-- `[s.model_copy() for s in sections]`. -/
def copySections (refs : List Nat) : List Nat × ObjectHeap :=
  let copies := refs.filterMap (h.sections[·]?)
  (List.range' h.sections.length copies.length, { h with sections := h.sections ++ copies })

/-- Assignment to the fields of a section. -/
def assign (ref : Nat) (o : SectionObject) : ObjectHeap :=
  { h with sections := h.sections.set ref o }

def newMessages (items : List ChatMessage) : Nat × ObjectHeap :=
  (h.messageLists.length, { h with messageLists := h.messageLists ++ [items] })

def newSectionList (refs : List Nat) : Nat × ObjectHeap :=
  (h.sectionLists.length, { h with sectionLists := h.sectionLists ++ [refs] })

/-- Every object of `h` is still what it was. -/
structure Frame (h h' : ObjectHeap) : Prop where
  sections : h.sections <+: h'.sections
  messageLists : h.messageLists <+: h'.messageLists
  sectionLists : h.sectionLists <+: h'.sectionLists

end ObjectHeap

namespace PriorityTrimmer

section Objects

variable (counter : TokenCounter) (provider : String) (targetTokens : Nat) (h : ObjectHeap)
  (ref : Nat) (o : SectionObject)

/-- `_shrink_history`, on the object at `ref`. -/
def shrinkHistoryObject : ObjectHeap :=
  let (header, items) := historyItems (h.load o)
  -- `[dict(i) for i in sec.items]`, or what was parsed: a new list in either case
  let (list, h) := h.newMessages items
  if items = [] then
    h.assign ref
      { o with
        content :=
          PyText.strip (PyText.join [' ']
            (dropWords counter provider targetTokens (o.content.splitOn ' '))) }
  else
    let items := dropOldest counter provider targetTokens header items
    -- the pops are from the new list
    let h := { h with messageLists := h.messageLists.set list items }
    h.assign ref
      { o with
        items := o.items.map fun _ => list
        content := if items = [] then [] else renderHistory header items }

/-- `_shrink`. -/
def shrinkObject : ObjectHeap :=
  if o.name = "conversation_history" then shrinkHistoryObject counter provider targetTokens h ref o
  else
    h.assign ref { o with content := keepWholeLines counter provider targetTokens o.content }

def cutObject : ObjectHeap :=
  if targetTokens = 0 then h.assign ref { o with content := [], items := none, tokenCount := 0 }
  else
    let h := shrinkObject counter provider targetTokens h ref o
    match h.sections[ref]? with
    | some o => h.assign ref { o with tokenCount := counter.countText o.content provider }
    | none => h

end Objects

/-- The local variables of the trimming loop, on objects. -/
structure ObjectTrimming where
  heap : ObjectHeap
  excess : Nat
  trimmedNames : List String := []

variable (counter : TokenCounter) (provider : String)

/-- The loop body, for the index `idx` of `working_sections`. -/
def trimObject (working : List Nat) (t : ObjectTrimming) (idx : Nat) : ObjectTrimming :=
  match working[idx]? with
  | none => t
  | some ref =>
    match t.heap.sections[ref]? with
    | none => t
    | some o =>
      let canTrim := o.tokenCount - sectionMinimum o.name
      if canTrim = 0 then t
      else
        let actualTrim := min canTrim t.excess
        { heap := cutObject counter provider (o.tokenCount - actualTrim) t.heap ref o
          excess := t.excess - actualTrim
          trimmedNames :=
            if o.name ∈ t.trimmedNames then t.trimmedNames else t.trimmedNames ++ [o.name] }

def trimObjectsLoop (working : List Nat) : List Nat → ObjectTrimming → ObjectTrimming
  | [], t => t
  | idx :: rest, t =>
    if t.excess = 0 then t
    else trimObjectsLoop working rest (trimObject counter provider working t idx)

/-- `trim`, on the list of sections at a reference. -/
def trimObjects (h : ObjectHeap) (sections : Nat) (totalBudget : ℤ) :
    Except Exc (Nat × List String) × ObjectHeap :=
  let refs := h.sectionLists.getD sections []
  let currentTotal := sectionTokens (h.loadRefs refs)
  let (working, h) := h.copySections refs
  if (currentTotal : ℤ) ≤ totalBudget then
    let (out, h) := h.newSectionList working
    (.ok (out, []), h)
  else
    let trimmableIndices := (trimOrder (h.loadRefs working)).map Prod.snd
    let t := trimObjectsLoop counter provider working trimmableIndices
      { heap := h, excess := ((currentTotal : ℤ) - totalBudget).toNat }
    let finalRefs := working.filter fun ref => (t.heap.loadRefs [ref]).any PromptSection.hasText
    let finalTotal := sectionTokens (t.heap.loadRefs finalRefs)
    if totalBudget < (finalTotal : ℤ) then
      (.error (contextOverflow
        (s!"Cannot fit prompt within token budget ({totalBudget}) even after maximum trimming. "
          ++ s!"Locked sections require {finalTotal} tokens.")), t.heap)
    else
      let (out, h) := t.heap.newSectionList finalRefs
      (.ok (out, t.trimmedNames), h)

/-! ## The copies -/

/-- After some turns: the objects of the caller, and behind them the copies,
which say what the working sections are. -/
structure Working (h h' : ObjectHeap) (copies : List SectionObject)
    (working : List PromptSection) : Prop where
  sections : h'.sections = h.sections ++ copies
  messageLists : h.messageLists <+: h'.messageLists
  sectionLists : h'.sectionLists = h.sectionLists
  items_lt : ∀ o ∈ copies, ∀ p ∈ o.items, p < h'.messageLists.length
  load : copies.map h'.load = working

variable {counter provider} {h h' : ObjectHeap} {copies : List SectionObject}
  {working : List PromptSection} {o : SectionObject} {idx : Nat}

theorem Working.frame (hw : Working h h' copies working) : h.Frame h' :=
  ⟨hw.sections ▸ List.prefix_append _ _, hw.messageLists, hw.sectionLists ▸ List.prefix_rfl⟩

/-- Assignment to one of the copies. -/
theorem Working.assign (hw : Working h h' copies working) (idx : Nat)
    (hitems : ∀ p ∈ o.items, p < h'.messageLists.length) {s : PromptSection}
    (hload : h'.load o = s) :
    Working h (h'.assign (h.sections.length + idx) o) (copies.set idx o)
      (working.set idx s) where
  sections := by
    rw [ObjectHeap.assign, hw.sections, List.set_append_right _ _ (Nat.le_add_right _ _),
      Nat.add_sub_cancel_left]
  messageLists := hw.messageLists
  sectionLists := hw.sectionLists
  items_lt := by
    intro o' ho'
    rcases List.mem_or_eq_of_mem_set ho' with hold | rfl
    · exact hw.items_lt o' hold
    · exact hitems
  load := by
    rw [← hw.load, ← hload, ← List.map_set]
    rfl

theorem load_newMessages (items : List ChatMessage)
    (ho : ∀ p ∈ o.items, p < h'.messageLists.length) :
    ({ h' with messageLists := h'.messageLists ++ [items] } : ObjectHeap).load o = h'.load o := by
  have hitems : o.items.map (fun p => (h'.messageLists ++ [items]).getD p []) =
      o.items.map fun p => h'.messageLists.getD p [] := by
    refine Option.map_congr ?_
    intro p hp
    rw [List.getD_eq_getElem?_getD, List.getD_eq_getElem?_getD,
      List.getElem?_append_left (ho p hp)]
  simp only [ObjectHeap.load, hitems]

/-- A new list of messages changes nothing that was there. -/
theorem Working.newMessages (hw : Working h h' copies working) (items : List ChatMessage) :
    Working h { h' with messageLists := h'.messageLists ++ [items] } copies working where
  sections := hw.sections
  messageLists := hw.messageLists.trans (List.prefix_append _ _)
  sectionLists := hw.sectionLists
  items_lt := by
    intro o ho p hp
    rw [List.length_append]
    exact Nat.lt_add_right _ (hw.items_lt o ho p hp)
  load := by
    rw [← hw.load]
    exact List.map_congr_left fun o ho => load_newMessages items (hw.items_lt o ho)

/-- The copies still stand where they were made. -/
theorem Working.getElem? (hw : Working h h' copies working) (idx : Nat) :
    h'.sections[h.sections.length + idx]? = copies[idx]? := by
  rw [hw.sections, List.getElem?_append_right (Nat.le_add_right _ _), Nat.add_sub_cancel_left]

/-! ## One turn -/

variable (counter provider) in
theorem Working.shrinkHistory (hw : Working h h' copies working) (ho : o ∈ copies)
    (idx target : Nat) :
    ∃ o', Working h (shrinkHistoryObject counter provider target h' (h.sections.length + idx) o)
        (copies.set idx o')
        (working.set idx (PriorityTrimmer.shrinkHistory counter provider target (h'.load o))) := by
  have hvalid := hw.items_lt o ho
  simp only [shrinkHistoryObject, PriorityTrimmer.shrinkHistory, ObjectHeap.newMessages]
  have hlonger : ∀ items : List ChatMessage, ∀ p ∈ o.items,
      p < (h'.messageLists ++ [items]).length := by
    intro items p hp
    rw [List.length_append]
    exact Nat.lt_add_right _ (hvalid p hp)
  by_cases hitems : (historyItems (h'.load o)).2 = []
  · rw [if_pos hitems, if_pos hitems]
    refine ⟨_, (hw.newMessages _).assign idx ?_ ?_⟩
    · exact hlonger _
    · exact congrArg (fun s : PromptSection => { s with
        content := PyText.strip (PyText.join [' ']
          (dropWords counter provider target (o.content.splitOn ' '))) })
        (load_newMessages _ hvalid)
  · rw [if_neg hitems, if_neg hitems, List.set_append_right _ _ (Nat.le_refl _), Nat.sub_self,
      List.set_cons_zero]
    refine ⟨_, (hw.newMessages _).assign idx ?_ ?_⟩
    · intro p hp
      obtain ⟨_, -, rfl⟩ := Option.map_eq_some_iff.mp hp
      simp
    · simp [ObjectHeap.load, Function.comp_def]

variable (counter provider) in
theorem Working.shrink (hw : Working h h' copies working) (ho : o ∈ copies) (idx target : Nat) :
    ∃ o', Working h (shrinkObject counter provider target h' (h.sections.length + idx) o)
        (copies.set idx o')
        (working.set idx (PriorityTrimmer.shrink counter provider target (h'.load o))) := by
  have hname : (h'.load o).name = o.name := rfl
  rw [shrinkObject, PriorityTrimmer.shrink, hname]
  by_cases hhistory : o.name = "conversation_history"
  · rw [if_pos hhistory, if_pos hhistory]
    exact hw.shrinkHistory counter provider ho idx target
  · rw [if_neg hhistory, if_neg hhistory]
    refine ⟨_, hw.assign idx ?_ rfl⟩
    exact hw.items_lt o ho

variable (counter provider) in
/-- Cutting the copy at `idx` cuts the working section at `idx`. -/
theorem Working.cut (hw : Working h h' copies working) (ho : copies[idx]? = some o)
    (target : Nat) :
    ∃ copies', Working h (cutObject counter provider target h' (h.sections.length + idx) o) copies'
        (working.set idx (cutTo counter provider target (h'.load o))) ∧
      copies'.length = copies.length ∧ ∀ j, j ≠ idx → copies'[j]? = copies[j]? := by
  have hmem := List.mem_of_getElem? ho
  have hlt := (List.getElem?_eq_some_iff.mp ho).1
  rw [cutObject, cutTo]
  by_cases hzero : target = 0
  · rw [if_pos hzero, if_pos hzero]
    refine ⟨_, hw.assign idx (by simp) rfl, List.length_set, ?_⟩
    intro j hj
    exact List.getElem?_set_ne hj.symm
  · rw [if_neg hzero, if_neg hzero]
    obtain ⟨o', hshrunk⟩ := hw.shrink counter provider hmem idx target
    have hget := hshrunk.getElem? idx
    rw [List.getElem?_set_self hlt] at hget
    have hload : (shrinkObject counter provider target h' (h.sections.length + idx) o).load o' =
        PriorityTrimmer.shrink counter provider target (h'.load o) := by
      have hmap := congrArg (·[idx]?) hshrunk.load
      have hworking : idx < working.length := by
        rw [← hw.load, List.length_map]
        exact hlt
      simp only [List.getElem?_map, List.getElem?_set_self hlt,
        List.getElem?_set_self hworking, Option.map_some, Option.some.injEq] at hmap
      exact hmap
    simp only [hget]
    have hvalid := hshrunk.items_lt o' (List.mem_set hlt o')
    have hcut := hshrunk.assign idx (o := { o' with
        tokenCount := counter.countText o'.content provider }) hvalid
      (congrArg (fun s : PromptSection => { s with
        tokenCount := counter.countText s.content provider }) hload)
    rw [List.set_set, List.set_set] at hcut
    refine ⟨_, hcut, List.length_set, ?_⟩
    intro j hj
    exact List.getElem?_set_ne hj.symm

/-! ## The loop -/

/-- The references to the copies. -/
theorem getElem?_copyRefs (hlt : idx < copies.length) :
    (List.range' h.sections.length copies.length)[idx]? = some (h.sections.length + idx) := by
  rw [List.getElem?_range' hlt, Nat.one_mul]

variable (counter provider) in
/-- The loop on the objects computes what the loop on the sections does, as long as each
section in the order is still as it came in. -/
theorem trimObjectsLoop_working {n : Nat} (order : List (PromptSection × Nat))
    (hnodup : (order.map Prod.snd).Nodup) (t : Trimming) (hn : copies.length = n)
    (hw : Working h h' copies t.working)
    (horder : ∀ x ∈ order, t.working[x.2]? = some x.1) :
    ∃ copies',
      Working h
        (trimObjectsLoop counter provider (List.range' h.sections.length n) (order.map Prod.snd)
          { heap := h', excess := t.excess, trimmedNames := t.trimmedNames }).heap
        copies' (trimLoop counter provider order t).working ∧
      copies'.length = n ∧
      (trimObjectsLoop counter provider (List.range' h.sections.length n) (order.map Prod.snd)
          { heap := h', excess := t.excess, trimmedNames := t.trimmedNames }).trimmedNames =
        (trimLoop counter provider order t).trimmedNames := by
  induction order generalizing t h' copies with
  | nil => exact ⟨copies, hw, hn, rfl⟩
  | cons head rest ih =>
    obtain ⟨s, idx⟩ := head
    rw [List.map_cons, List.nodup_cons] at hnodup
    simp only [List.map_cons, trimObjectsLoop, trimLoop]
    by_cases hdone : t.excess = 0
    · rw [if_pos hdone, if_pos hdone]
      exact ⟨copies, hw, hn, rfl⟩
    · rw [if_neg hdone, if_neg hdone]
      -- the object at `idx` says what `s` is
      have hs := horder (s, idx) List.mem_cons_self
      rw [← hw.load, List.getElem?_map] at hs
      obtain ⟨o, ho, rfl⟩ := Option.map_eq_some_iff.mp hs
      have hlt := (List.getElem?_eq_some_iff.mp ho).1
      have hobject := hw.getElem? idx
      rw [ho] at hobject
      have href := getElem?_copyRefs (h := h) hlt
      rw [hn] at href
      have hcount : (h'.load o).tokenCount = o.tokenCount := rfl
      have hname : (h'.load o).name = o.name := rfl
      simp only [trimObject, trimSection, href, hobject, hcount, hname]
      by_cases hspare : o.tokenCount - sectionMinimum o.name = 0
      · simp only [if_pos hspare]
        exact ih hnodup.2 t hn hw fun x hx => horder x (List.mem_cons_of_mem _ hx)
      · simp only [if_neg hspare]
        obtain ⟨copies', hw', hlength, -⟩ := hw.cut counter provider ho
          (o.tokenCount - min (o.tokenCount - sectionMinimum o.name) t.excess)
        refine ih hnodup.2 { working := _, excess := _, trimmedNames := _ } (hlength.trans hn) hw' ?_
        intro x hx
        have hne : idx ≠ x.2 := by
          intro heq
          have hmem : x.2 ∈ rest.map Prod.snd := List.mem_map_of_mem hx
          rw [← heq] at hmem
          exact hnodup.1 hmem
        rw [List.getElem?_set_ne hne]
        exact horder x (List.mem_cons_of_mem _ hx)

/-! ## The whole of `trim` -/

theorem filterMap_copyRefs (hw : Working h h' copies working) :
    (List.range' h.sections.length copies.length).filterMap (h'.sections[·]?) = copies := by
  have hall := filter_eq_filterMap_range (fun _ => true) copies
  rw [List.filter_true] at hall
  conv_rhs => rw [hall]
  rw [List.range'_eq_map_range, List.filterMap_map]
  refine List.filterMap_congr ?_
  intro idx _
  rw [Function.comp_apply, hw.getElem? idx]
  cases copies[idx]? <;> rfl

theorem loadRefs_copyRefs (hw : Working h h' copies working) :
    h'.loadRefs (List.range' h.sections.length copies.length) = working := by
  rw [ObjectHeap.loadRefs, filterMap_copyRefs hw, hw.load]

theorem loadRefs_filter (h : ObjectHeap) (p : PromptSection → Bool) (refs : List Nat) :
    h.loadRefs (refs.filter fun ref => (h.loadRefs [ref]).any p) = (h.loadRefs refs).filter p := by
  simp only [ObjectHeap.loadRefs]
  induction refs with
  | nil => rfl
  | cons ref refs ih =>
    cases hsection : h.sections[ref]? with
    | none => simpa [List.filter_cons, List.filterMap_cons, hsection] using ih
    | some o =>
      by_cases hp : p (h.load o) = true
      · simpa [List.filter_cons, List.filterMap_cons, hsection, hp] using ih
      · simpa [List.filter_cons, List.filterMap_cons, hsection, hp] using ih

theorem loadList_newSectionList (h : ObjectHeap) (refs : List Nat) :
    (h.newSectionList refs).2.loadList (h.newSectionList refs).1 = h.loadRefs refs := by
  rw [ObjectHeap.loadList, ObjectHeap.newSectionList, List.getD_eq_getElem?_getD,
    List.getElem?_append_right (Nat.le_refl _), Nat.sub_self]
  rfl

theorem frame_newSectionList (hframe : h.Frame h') (refs : List Nat) :
    h.Frame (h'.newSectionList refs).2 :=
  ⟨hframe.sections, hframe.messageLists, hframe.sectionLists.trans (List.prefix_append _ _)⟩

theorem working_copySections (h : CallerHeap) (refs : List Nat) :
    Working h.toObjectHeap (h.copySections refs).2 (refs.filterMap (h.sections[·]?))
      (h.loadRefs refs) where
  sections := rfl
  messageLists := List.prefix_rfl
  sectionLists := rfl
  items_lt := by
    intro o ho
    obtain ⟨ref, -, hsection⟩ := List.mem_filterMap.mp ho
    exact h.items_lt o (List.mem_of_getElem? hsection)
  load := rfl

variable (counter provider) in
/-- On objects `trim` returns what `trimBudget` does, and leaves every object of the
caller as it was. -/
theorem trimObjects_refines (h : CallerHeap) (sections : Nat) (totalBudget : ℤ) :
    h.Frame (trimObjects counter provider h.toObjectHeap sections totalBudget).2 ∧
      (trimObjects counter provider h.toObjectHeap sections totalBudget).1.map
          (fun out => ((trimObjects counter provider h.toObjectHeap sections totalBudget).2.loadList
            out.1, out.2)) =
        trimBudget counter provider (h.loadList sections) totalBudget := by
  have hcopies := working_copySections h (h.sectionLists.getD sections [])
  have hloaded : h.loadList sections = h.loadRefs (h.sectionLists.getD sections []) := rfl
  rw [hloaded]
  simp only [trimObjects, trimBudget]
  generalize h.sectionLists.getD sections [] = refs at hcopies
  by_cases hfits : (sectionTokens (h.loadRefs refs) : ℤ) ≤ totalBudget
  · simp only [if_pos hfits]
    refine ⟨frame_newSectionList hcopies.frame _, ?_⟩
    simp only [Except.map, loadList_newSectionList]
    exact congrArg (fun out => Except.ok (out, [])) (loadRefs_copyRefs hcopies)
  · simp only [if_neg hfits]
    have hworking : (h.copySections refs).2.loadRefs (h.copySections refs).1 = h.loadRefs refs :=
      loadRefs_copyRefs hcopies
    have horder : ∀ x ∈ trimOrder (h.loadRefs refs), (h.loadRefs refs)[x.2]? = some x.1 :=
      fun x hx => (mem_trimOrder hx).1
    obtain ⟨copies', hw, hlength, hnames⟩ := trimObjectsLoop_working counter provider
      (trimOrder (h.loadRefs refs)) (trimOrder_positions_nodup _)
      { working := h.loadRefs refs
        excess := ((sectionTokens (h.loadRefs refs) : ℤ) - totalBudget).toNat } rfl hcopies horder
    have hrefs : (h.copySections refs).1 =
        List.range' h.sections.length (refs.filterMap (h.sections[·]?)).length := rfl
    rw [hworking, hrefs, ← trimExcess] at *
    generalize trimObjectsLoop counter provider _ _ _ = t at hw hnames ⊢
    generalize trimExcess counter provider (h.loadRefs refs) _ = trimmed at hw hnames ⊢
    rw [← hlength]
    have hfinal : t.heap.loadRefs ((List.range' h.sections.length copies'.length).filter fun ref =>
        (t.heap.loadRefs [ref]).any PromptSection.hasText) =
          trimmed.working.filter PromptSection.hasText := by
      rw [loadRefs_filter, loadRefs_copyRefs hw]
    rw [hfinal]
    by_cases hover : totalBudget < (sectionTokens (trimmed.working.filter PromptSection.hasText) : ℤ)
    · simp only [if_pos hover]
      exact ⟨hw.frame, rfl⟩
    · simp only [if_neg hover]
      refine ⟨frame_newSectionList hw.frame _, ?_⟩
      simp only [Except.map, loadList_newSectionList, hfinal, hnames]

/-- When `trim` returns, no object of the caller has changed; the returned sections are
the caller's in their order, whole or cut, the locked ones whole; and where one was
trimmed, every trimmable one of a lower priority is at its floor or below. -/
theorem trimObjects_trimmedInOrder (provider : String)
    (hone : TokenCounter.multiplier provider = 1) (h : CallerHeap) (sections : Nat)
    (totalBudget : ℤ) (out : Nat) (names : List String)
    (hout : (trimObjects builtIn provider h.toObjectHeap sections totalBudget).1 =
      .ok (out, names)) :
    h.Frame (trimObjects builtIn provider h.toObjectHeap sections totalBudget).2 ∧
      ∃ left turn, TrimmedInOrder builtIn provider (h.loadList sections)
        ((trimObjects builtIn provider h.toObjectHeap sections totalBudget).2.loadList out)
        names left turn := by
  obtain ⟨hframe, hresult⟩ := trimObjects_refines builtIn provider h sections totalBudget
  rw [hout] at hresult
  exact ⟨hframe, trimmedInOrder_of_trimBudget hone hresult.symm⟩

/-- A prompt of a fact, three lines of retrieved text and a question. -/
def threeLines : CallerHeap where
  sections :=
    [{ name := "graph_context", content := "fact".toList, priority := 4, tokenCount := 1 },
      { name := "retrieval", content := "aaaa\nbbbb\ncccc".toList, tokenCount := 3 },
      { name := "user_query", content := "why?".toList, priority := 10, tokenCount := 1
        trimmable := false }]
  messageLists := []
  sectionLists := [[0, 1, 2]]
  items_lt := by simp

/-- The fact is dropped, and two of the lines. -/
theorem threeLines_trimmedInOrder :
    threeLines.Frame (trimObjects builtIn "nvidia" threeLines.toObjectHeap 0 3).2 ∧
      ∃ left turn, TrimmedInOrder builtIn "nvidia" (threeLines.loadList 0)
        ((trimObjects builtIn "nvidia" threeLines.toObjectHeap 0 3).2.loadList 1)
        ["graph_context", "retrieval"] left turn := by
  refine trimObjects_trimmedInOrder "nvidia" (by decide) threeLines 0 3 1
    ["graph_context", "retrieval"] ?_
  apply eq_ok_of_toOption
  decide +kernel

end PriorityTrimmer

end LlmService
