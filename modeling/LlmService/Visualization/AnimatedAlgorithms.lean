import Mathlib.Combinatorics.SimpleGraph.Metric
import LlmService.Visualization.ManimBuilders

/-!
# The animated algorithms

What `_sorting`, `_graph_traversal` and `_binary_search` show is right: the last
frame is the sorted array, whatever frames were dropped before it, a traversal
visits what can be reached from its start, nearest first if it goes in breadth,
and a search finds its target if it is there.
-/

namespace LlmService

namespace ManimTemplates

open PyJson (get)
open SwapSort (item)

/-! ## Sorting -/

/-- The last frame holds the array, in ascending order. -/
def SortsArray (frames : List Frame) (array : List Int) : Prop :=
  ∃ last, frames.getLast? = some last ∧ last.arr.Perm array ∧ last.arr.Pairwise (· ≤ ·)

namespace Sorter

@[simp] theorem record_a (s : Sorter) (hl : List Nat) (note : String) :
    (s.record hl note).a = s.a := by
  rw [record]
  split <;> rfl

@[simp] theorem swap_a (s : Sorter) (i j : Nat) : (s.swap i j).a = SwapSort.swap s.a i j := rfl

/-! The array of each loop is the one of the sort without its frames. -/

theorem bubbleStep_a (s : Sorter) (j : Nat) : (s.bubbleStep j).a = SwapSort.compareSwap s.a j := by
  rw [bubbleStep, SwapSort.compareSwap]
  simp only [record_a]
  split
  · rw [record_a, swap_a, record_a]
  · rw [record_a]

theorem bubble_a (s : Sorter) : s.bubble.a = SwapSort.bubbleSort s.a := by
  rw [bubble, SwapSort.bubbleSort]
  have hpass : ∀ (t : Sorter) (i : Nat), SwapSort.bubblePass s.a.length t.a i =
      ((List.range (s.a.length - 1 - i)).foldl bubbleStep t).a := by
    intro t i
    exact List.foldl_hom Sorter.a fun t j => (bubbleStep_a t j).symm
  exact (List.foldl_hom Sorter.a hpass).symm

theorem insert_a (k : Nat) (s : Sorter) : (insert k s).a = SwapSort.sink k s.a := by
  induction k generalizing s with
  | zero => rfl
  | succ k ih =>
    rw [insert, SwapSort.sink]
    split
    · rw [ih, record_a, swap_a, record_a]
    · rfl

theorem insertion_a (s : Sorter) : s.insertion.a = SwapSort.insertionSort s.a := by
  rw [insertion, SwapSort.insertionSort]
  exact (List.foldl_hom Sorter.a fun t i => (insert_a i t).symm).symm

theorem findMin_spec (s : Sorter) (i : Nat) :
    (s.findMin i).1.a = s.a ∧ (s.findMin i).2 = SwapSort.minIndex s.a i := by
  rw [findMin, SwapSort.minIndex]
  generalize List.range' (i + 1) (s.a.length - (i + 1)) = js
  have hscan : ∀ (t : Sorter) (m : Nat), t.a = s.a →
      (js.foldl (fun p j =>
        let s := p.1.record [p.2, j] s!"find minimum: {item p.1.a j} vs {item p.1.a p.2}"
        (s, if item s.a j < item s.a p.2 then j else p.2)) (t, m)).1.a = s.a ∧
      (js.foldl (fun p j =>
        let s := p.1.record [p.2, j] s!"find minimum: {item p.1.a j} vs {item p.1.a p.2}"
        (s, if item s.a j < item s.a p.2 then j else p.2)) (t, m)).2 =
        js.foldl (fun m j => if item s.a j < item s.a m then j else m) m := by
    induction js with
    | nil => exact fun t m ht => ⟨ht, rfl⟩
    | cons j js ih =>
      intro t m ht
      rw [List.foldl_cons, List.foldl_cons]
      dsimp only
      rw [record_a, ht]
      exact ih _ _ (by rw [record_a, ht])
  exact hscan s i rfl

theorem selectStep_a (s : Sorter) (i : Nat) : (s.selectStep i).a = SwapSort.selectStep s.a i := by
  obtain ⟨ha, hm⟩ := findMin_spec s i
  rw [selectStep, SwapSort.selectStep, ← hm, ← ha]
  dsimp only
  split
  · rw [record_a, swap_a]
  · rfl

theorem selection_a (s : Sorter) : s.selection.a = SwapSort.selectionSort s.a := by
  rw [selection, SwapSort.selectionSort]
  exact (List.foldl_hom Sorter.a fun t i => (selectStep_a t i).symm).symm

/-! There are never more frames than the cap. -/

def Capped (s : Sorter) : Prop := s.frames.length ≤ maxFrames

theorem Capped.record {s : Sorter} (h : s.Capped) (hl : List Nat) (note : String) :
    (s.record hl note).Capped := by
  rw [Sorter.record]
  split
  · rename_i hlt
    show (s.frames ++ [_]).length ≤ maxFrames
    rw [List.length_append, List.length_singleton]
    omega
  · exact h

theorem Capped.swap {s : Sorter} (h : s.Capped) (i j : Nat) : (s.swap i j).Capped := h

theorem Capped.foldl {β : Type} {f : Sorter → β → Sorter} {s : Sorter} (h : s.Capped)
    (hf : ∀ t b, t.Capped → (f t b).Capped) (bs : List β) : (bs.foldl f s).Capped :=
  List.foldlRecOn bs f h fun t ht b _ => hf t b ht

theorem Capped.bubbleStep {s : Sorter} (h : s.Capped) (j : Nat) : (s.bubbleStep j).Capped := by
  rw [Sorter.bubbleStep]
  split
  · exact ((h.record _ _).swap _ _).record _ _
  · exact h.record _ _

theorem Capped.insert {s : Sorter} (h : s.Capped) (k : Nat) : (Sorter.insert k s).Capped := by
  induction k generalizing s with
  | zero => exact h
  | succ k ih =>
    rw [Sorter.insert]
    split
    · exact ih (((h.record _ _).swap _ _).record _ _)
    · exact h

theorem Capped.selectStep {s : Sorter} (h : s.Capped) (i : Nat) : (s.selectStep i).Capped := by
  have hfind : (s.findMin i).1.Capped := by
    rw [findMin]
    refine List.foldlRecOn (motive := fun p : Sorter × Nat => p.1.Capped) _ _ h ?_
    exact fun p hp j _ => hp.record _ _
  rw [Sorter.selectStep]
  dsimp only
  split
  · exact (hfind.swap _ _).record _ _
  · exact hfind

theorem Capped.run {s : Sorter} (h : s.Capped) (algorithm : SortAlgorithm) :
    (algorithm.run s).Capped := by
  cases algorithm with
  | bubble => exact h.foldl (fun t i ht => ht.foldl (fun t j ht => ht.bubbleStep j) _) _
  | insertion => exact h.foldl (fun t i ht => ht.insert i) _
  | selection => exact h.foldl (fun t i ht => ht.selectStep i) _

end Sorter

theorem run_spec (algorithm : SortAlgorithm) (s : Sorter) :
    (algorithm.run s).a.Perm s.a ∧ (algorithm.run s).a.Pairwise (· ≤ ·) := by
  cases algorithm with
  | bubble =>
    show s.bubble.a.Perm s.a ∧ s.bubble.a.Pairwise (· ≤ ·)
    rw [Sorter.bubble_a]
    exact SwapSort.bubbleSort_spec s.a
  | insertion =>
    show s.insertion.a.Perm s.a ∧ s.insertion.a.Pairwise (· ≤ ·)
    rw [Sorter.insertion_a]
    exact SwapSort.insertionSort_spec s.a
  | selection =>
    show s.selection.a.Perm s.a ∧ s.selection.a.Pairwise (· ≤ ·)
    rw [Sorter.selection_a]
    exact SwapSort.selectionSort_spec s.a

/-- The cap and the slice leave the last frame. -/
theorem sortsArray_sortFrames (algorithm : SortAlgorithm) (array : List Int) :
    SortsArray (sortFrames algorithm array) array := by
  rw [sortFrames]
  generalize hstart : (Sorter.mk array [{ arr := array, hl := [], note := "start" }]) = start
  have ha : start.a = array := by rw [← hstart]
  have hcapped : start.Capped := by
    rw [← hstart]
    show 1 ≤ 60
    omega
  have hrun : (algorithm.run start).frames.length ≤ maxFrames := hcapped.run algorithm
  obtain ⟨hperm, hsorted⟩ := run_spec algorithm start
  rw [ha] at hperm
  refine ⟨{ arr := (algorithm.run start).a, hl := [], note := "sorted" }, ?_, hperm, hsorted⟩
  rw [List.take_of_length_le (by rw [List.length_append, List.length_singleton]; omega)]
  exact List.getLast?_concat

/-! ## Binary search -/

/-- What a search reports of the target. -/
structure Finds (search : BinarySearch) (array : List Int) (target : Int) : Prop where
  found_iff : search.found = true ↔ target ∈ array
  last_mid : search.found = true →
    ∃ step, search.steps.getLast? = some step ∧ 0 ≤ step.mid ∧
      array[step.mid.toNat]? = some target ∧ search.result = s!"found at index {step.mid}"
  not_found : search.found = false → search.result = "not found"

/-- What the loop on the part of an array from `lo` to `hi` finds, with the steps to it. -/
structure FindsBetween (arr : List Int) (target lo hi : Int) (out : List SearchStep × Bool) : Prop where
  found_iff : out.2 = true ↔ ∃ k : Nat, lo ≤ k ∧ (k : Int) ≤ hi ∧ item arr k = target
  last_mid : out.2 = true → ∃ step, out.1.getLast? = some step ∧ 0 ≤ step.mid ∧
    step.mid < arr.length ∧ item arr step.mid.toNat = target

section Search

variable {arr : List Int} {target lo hi mid : Int} {out : List SearchStep × Bool} {step : SearchStep}

theorem FindsBetween.empty (h : hi < lo) : FindsBetween arr target lo hi ([], false) := by
  constructor
  case found_iff =>
    constructor
    · rintro ⟨⟩
    · rintro ⟨k, hk, hk', -⟩
      omega
  case last_mid => rintro ⟨⟩

theorem FindsBetween.middle (hmid : step.mid = mid) (hlo : lo ≤ mid) (hhi : mid ≤ hi) (hpos : 0 ≤ lo)
    (hlen : hi < arr.length) (hfound : item arr mid.toNat = target) :
    FindsBetween arr target lo hi ([step], true) := by
  constructor
  case found_iff => exact ⟨fun _ => ⟨mid.toNat, by omega, by omega, hfound⟩, fun _ => rfl⟩
  case last_mid =>
    intro _
    exact ⟨step, rfl, by omega, by omega, by rw [hmid, hfound]⟩

/-- The target stands in a smaller part, if anywhere. -/
theorem FindsBetween.cons {lo' hi' : Int} (h : FindsBetween arr target lo' hi' out)
    (hlo : lo ≤ lo') (hhi : hi' ≤ hi)
    (hpart : ∀ k : Nat, lo ≤ k → (k : Int) ≤ hi → item arr k = target → lo' ≤ k ∧ (k : Int) ≤ hi') :
    FindsBetween arr target lo hi (step :: out.1, out.2) := by
  constructor
  case found_iff =>
    refine h.found_iff.trans ⟨?_, ?_⟩
    · rintro ⟨k, hk, hk', hitem⟩
      exact ⟨k, by omega, by omega, hitem⟩
    · rintro ⟨k, hk, hk', hitem⟩
      obtain ⟨hk, hk'⟩ := hpart k hk hk' hitem
      exact ⟨k, hk, hk', hitem⟩
  case last_mid =>
    intro hfound
    obtain ⟨last, hlast, hspec⟩ := h.last_mid hfound
    refine ⟨last, ?_, hspec⟩
    rw [List.getLast?_cons, hlast]
    rfl

/-- The loop on a part of a sorted array. -/
theorem searchLoop_spec (hsorted : arr.Pairwise (· ≤ ·)) (n : Nat) (hn : (hi + 1 - lo).toNat ≤ n)
    (hlo : 0 ≤ lo) (hhi : hi < arr.length) :
    FindsBetween arr target lo hi (searchLoop arr target lo hi) := by
  induction n generalizing lo hi with
  | zero =>
    rw [searchLoop, if_neg (by omega)]
    exact .empty (by omega)
  | succ n ih =>
    rw [searchLoop]
    by_cases hrange : lo ≤ hi
    · rw [if_pos hrange]
      dsimp only
      generalize hmid : (lo + hi) / 2 = mid
      by_cases hfound : item arr mid.toNat = target
      · rw [if_pos hfound]
        have hbetween : lo ≤ mid ∧ mid ≤ hi := by omega
        exact .middle rfl hbetween.1 hbetween.2 hlo hhi hfound
      · rw [if_neg hfound]
        by_cases hless : item arr mid.toNat < target
        · -- the target stands to the right of the middle, if anywhere
          simp only [if_pos hless]
          refine (ih (by omega) (by omega) hhi).cons (by omega) le_rfl fun k _ hk' hitem => ?_
          refine ⟨?_, hk'⟩
          by_contra hle
          have := SwapSort.item_le_item hsorted (i := k) (j := mid.toNat) (by omega) (by omega)
          omega
        · simp only [if_neg hless]
          refine (ih (by omega) hlo (by omega)).cons le_rfl (by omega) fun k hk _ hitem => ?_
          refine ⟨hk, ?_⟩
          by_contra hle
          have := SwapSort.item_le_item hsorted (i := mid.toNat) (j := k) (by omega) (by omega)
          omega
    · rw [if_neg hrange]
      exact .empty (by omega)

end Search

theorem finds_searchData {array : List Int} (hsorted : array.Pairwise (· ≤ ·)) (target : Int) :
    Finds (searchData array target) array target := by
  have hwhole : ((array.length : Int) - 1 + 1 - 0).toNat ≤ array.length := by omega
  have hspec : FindsBetween array target 0 (array.length - 1)
      (searchLoop array target 0 (array.length - 1)) :=
    searchLoop_spec hsorted array.length hwhole (Int.le_refl 0) (by omega)
  obtain ⟨hiff, hlast⟩ := hspec
  refine ⟨?_, ?_, ?_⟩
  · show (searchLoop array target 0 (array.length - 1)).2 = true ↔ _
    rw [hiff, List.mem_iff_getElem]
    constructor
    · rintro ⟨k, -, hk, hitem⟩
      have hlt : k < array.length := by omega
      exact ⟨k, hlt, by rw [← SwapSort.item_eq_getElem hlt, hitem]⟩
    · rintro ⟨k, hlt, hitem⟩
      exact ⟨k, by omega, by omega, by rw [SwapSort.item_eq_getElem hlt, hitem]⟩
  · intro hfound
    obtain ⟨step, hstep, hnonneg, hlt, hitem⟩ := hlast hfound
    have hindex : step.mid.toNat < array.length := by omega
    refine ⟨step, hstep, hnonneg, ?_, ?_⟩
    · rw [List.getElem?_eq_getElem hindex, ← SwapSort.item_eq_getElem hindex, hitem]
    · have hsecond : (searchLoop array target 0 (array.length - 1)).2 = true := hfound
      rw [searchData, hsecond, hstep]
  · intro hfound
    have hsecond : (searchLoop array target 0 (array.length - 1)).2 = false := hfound
    rw [searchData, hsecond]

/-! ## Graph traversal -/

/-- The graph that the edges draw. -/
def edgeGraph (edges : List (Nat × Nat)) : SimpleGraph Nat :=
  SimpleGraph.fromRel fun a b => (a, b) ∈ edges

/-- What a traversal lists. -/
structure Traverses (algorithm : GraphAlgorithm) (edges : List (Nat × Nat)) (s : Nat)
    (order : List Nat) : Prop where
  nodup : order.Nodup
  mem_iff : ∀ v, v ∈ order ↔ (edgeGraph edges).Reachable s v
  nearest : algorithm = .bfs →
    order.Pairwise fun v w => (edgeGraph edges).dist s v ≤ (edgeGraph edges).dist s w

section Graph

variable {edges : List (Nat × Nat)} {s v w : Nat}

theorem mem_neighbours_iff : w ∈ neighbours edges v ↔ (v, w) ∈ edges ∨ (w, v) ∈ edges := by
  rw [neighbours, List.mem_insertionSort, List.mem_flatMap]
  constructor
  · rintro ⟨⟨a, b⟩, he, hw⟩
    rcases List.mem_append.mp hw with hw | hw
    · split at hw
      · rename_i hav
        obtain rfl := List.mem_singleton.mp hw
        exact .inl (hav ▸ he)
      · cases hw
    · split at hw
      · rename_i hbv
        obtain rfl := List.mem_singleton.mp hw
        exact .inr (hbv ▸ he)
      · cases hw
  · rintro (he | he)
    · exact ⟨(v, w), he, by simp⟩
    · exact ⟨(w, v), he, by simp⟩

/-- A walk along the neighbours is one of the graph, which need not stay at a node. -/
theorem exists_walk {k : Nat} (h : GraphSearch.Walk (neighbours edges) s v k) :
    ∃ p : (edgeGraph edges).Walk s v, p.length ≤ k := by
  induction h with
  | nil => exact ⟨.nil, Nat.le_refl 0⟩
  | @step u w k _ hnext ih =>
    obtain ⟨p, hp⟩ := ih
    by_cases heq : u = w
    · subst heq
      exact ⟨p, by omega⟩
    · have hadj : (edgeGraph edges).Adj u w :=
        (SimpleGraph.fromRel_adj _ u w).mpr ⟨heq, mem_neighbours_iff.mp hnext⟩
      refine ⟨p.concat hadj, ?_⟩
      rw [SimpleGraph.Walk.length_concat]
      omega

theorem walk_of_walk (p : (edgeGraph edges).Walk s v) :
    GraphSearch.Walk (neighbours edges) s v p.length := by
  induction p with
  | nil => exact .nil
  | @cons u w v hadj p ih =>
    rw [SimpleGraph.Walk.length_cons]
    exact .cons (mem_neighbours_iff.mpr ((SimpleGraph.fromRel_adj _ u w).mp hadj).2) ih

theorem reachable_iff :
    GraphSearch.Reachable (neighbours edges) s v ↔ (edgeGraph edges).Reachable s v := by
  constructor
  · rintro ⟨k, hwalk⟩
    obtain ⟨p, -⟩ := exists_walk hwalk
    exact ⟨p⟩
  · rintro ⟨p⟩
    exact ⟨p.length, walk_of_walk p⟩

theorem dist_le_of_noFurther (h : GraphSearch.NoFurther (neighbours edges) s v w)
    (hw : (edgeGraph edges).Reachable s w) :
    (edgeGraph edges).dist s v ≤ (edgeGraph edges).dist s w := by
  obtain ⟨p, hp⟩ := hw.exists_walk_length_eq_dist
  obtain ⟨j, hj, hwalk⟩ := h p.length (walk_of_walk p)
  obtain ⟨q, hq⟩ := exists_walk hwalk
  have := SimpleGraph.dist_le q
  omega

/-- Either search visits what can be reached. -/
theorem traverses_order (algorithm : GraphAlgorithm) {n : Nat}
    (hedges : ∀ e ∈ edges, e.1 < n ∧ e.2 < n) (hs : s < n) :
    Traverses algorithm edges s (algorithm.order n edges s) := by
  have hclosed : ∀ u ∈ List.range n, ∀ w ∈ neighbours edges u, w ∈ List.range n := by
    intro u _ w hw
    rcases mem_neighbours_iff.mp hw with he | he
    · exact List.mem_range.mpr (hedges _ he).2
    · exact List.mem_range.mpr (hedges _ he).1
  cases algorithm with
  | bfs =>
    obtain ⟨order, horder, hnodup, hmem, hnear⟩ :=
      GraphSearch.bfs_spec (List.mem_range.mpr hs) hclosed
    rw [List.length_range] at horder
    rw [GraphAlgorithm.order, horder]
    refine ⟨hnodup, fun v => (hmem v).trans reachable_iff, fun _ => ?_⟩
    refine List.Pairwise.imp_of_mem ?_ hnear
    intro v w _ hw hle
    exact dist_le_of_noFurther hle (reachable_iff.mp ((hmem w).mp hw))
  | dfs =>
    obtain ⟨order, horder, hnodup, hmem⟩ := GraphSearch.dfs_spec (List.mem_range.mpr hs) hclosed
    rw [List.length_range] at horder
    rw [GraphAlgorithm.order, horder]
    refine ⟨hnodup, fun v => (hmem v).trans reachable_iff, ?_⟩
    rintro ⟨⟩

end Graph

/-! ## The builders -/

/-- What the parameters say of the graph, and of where the traversal starts. -/
structure GraphOf (d : ManimData) (params : Params) (g : GraphTraversal) (s : Nat) : Prop where
  nodes : ∃ items, get params "nodes" = .array items ∧
    List.Forall₂ (fun item name => label d.word item "node" 12 false = .ok name) items g.nodes
  nodup : g.nodes.Nodup
  edges : ∃ items, get params "edges" = .array items ∧
    List.Forall₂ (fun item e => ∃ a b, item = .array [.string a, .string b] ∧
      g.nodes[e.1]? = some a ∧ g.nodes[e.2]? = some b) items g.edges
  start : params.lookup "start" = none ∧ s = 0 ∨
    ∃ name, params.lookup "start" = some (.string name) ∧ g.nodes[s]? = some name

/-- The algorithms are right on arrays and graphs of any size. -/
structure AlgorithmsCorrect : Prop where
  sorts : ∀ algorithm array, SortsArray (sortFrames algorithm array) array
  traverses : ∀ (algorithm : GraphAlgorithm) n edges s, (∀ e ∈ edges, e.1 < n ∧ e.2 < n) → s < n →
    Traverses algorithm edges s (algorithm.order n edges s)
  searches : ∀ array target, array.Pairwise (· ≤ ·) →
    Finds (searchData array target) array target

theorem algorithms_correct : AlgorithmsCorrect where
  sorts := sortsArray_sortFrames
  traverses algorithm _ _ _ hedges hs := traverses_order algorithm hedges hs
  searches _ target hsorted := finds_searchData hsorted target

theorem getElem?_idxOf {names : List Text} {name : Text} (h : name ∈ names) :
    names[names.idxOf name]? = some name := by
  have hlt := List.idxOf_lt_length_of_mem h
  rw [List.getElem?_eq_getElem hlt, List.getElem_idxOf hlt]

/-- An accepted traversal is one of the graph of its parameters. -/
theorem graphTraversal_spec {d : ManimData} {params : Params} {g : GraphTraversal}
    (h : graphTraversal d params = .ok g) :
    ∃ s, GraphOf d params g s ∧ Traverses g.algorithm g.edges s g.order := by
  obtain ⟨-, -, hnodes, ⟨items, hitems, -, hedges⟩, s, hs, horder⟩ := graphTraversal_eq_ok_iff.mp h
  obtain ⟨labels, hlabels, hlen, hforall, hnodup⟩ := names_eq_ok_iff.mp hnodes
  have hcount := hforall.length_eq
  have hends : List.Forall₂ (fun item e => ∃ a b, item = PyJson.array [.string a, .string b] ∧
      g.nodes[e.1]? = some a ∧ g.nodes[e.2]? = some b) items g.edges := by
    refine hedges.imp ?_
    intro item e he
    obtain ⟨a, b, hitem, ⟨ha, hb, -⟩, rfl⟩ := edge_eq_ok_iff.mp he
    exact ⟨a, b, hitem, getElem?_idxOf ha, getElem?_idxOf hb⟩
  have hbounds : ∀ e ∈ g.edges, e.1 < g.nodes.length ∧ e.2 < g.nodes.length := by
    intro e he
    obtain ⟨i, hi, rfl⟩ := List.mem_iff_getElem.mp he
    have hi' : i < items.length := hends.length_eq ▸ hi
    obtain ⟨a, b, -, ha, hb⟩ := hends.get hi' hi
    exact ⟨(List.getElem?_eq_some_iff.mp ha).1, (List.getElem?_eq_some_iff.mp hb).1⟩
  have hstart : (params.lookup "start" = none ∧ s = 0 ∨
      ∃ name, params.lookup "start" = some (.string name) ∧ g.nodes[s]? = some name) ∧
      s < g.nodes.length := by
    cases hlookup : params.lookup "start" with
    | none =>
      rw [hlookup] at hs
      obtain rfl := Except.ok.inj hs
      exact ⟨.inl ⟨rfl, rfl⟩, by omega⟩
    | some start =>
      rw [hlookup] at hs
      obtain ⟨name, rfl, hname, rfl⟩ := member_eq_ok_iff.mp hs
      exact ⟨.inr ⟨name, rfl, getElem?_idxOf hname⟩, List.idxOf_lt_length_of_mem hname⟩
  refine ⟨s, ⟨⟨labels, hlabels, hforall⟩, hnodup, ⟨items, hitems, hends⟩, hstart.1⟩, ?_⟩
  rw [horder]
  exact traverses_order g.algorithm hbounds hstart.2

/-- What the three templates show is right, for all parameters that their builders accept. -/
theorem animations_correct (d : ManimData) :
    AlgorithmsCorrect ∧
    (∀ params out, sorting d params = .ok out →
      ∃ array, get params "array" = .array (array.map .int) ∧ SortsArray out.frames array) ∧
    (∀ params out, graphTraversal d params = .ok out →
      ∃ s, GraphOf d params out s ∧ Traverses out.algorithm out.edges s out.order) ∧
    ∀ params out, binarySearch d params = .ok out →
      ∃ array target, get params "array" = .array (array.map .int) ∧
        get params "target" = .int target ∧ Finds out array target := by
  refine ⟨algorithms_correct, ?_, fun params out h => graphTraversal_spec h, ?_⟩
  · intro params out h
    obtain ⟨-, algorithm, -, array, harray, rfl⟩ := sorting_eq_ok_iff.mp h
    exact ⟨array, (intList_eq_ok_iff.mp harray).1, sortsArray_sortFrames algorithm array⟩
  · intro params out h
    obtain ⟨-, array, harray, hsorted, target, htarget, rfl⟩ := binarySearch_eq_ok_iff.mp h
    refine ⟨array, target, (intList_eq_ok_iff.mp harray).1, (int_eq_ok_iff.mp htarget).1,
      finds_searchData ?_ target⟩
    rw [hsorted]
    exact List.pairwise_insertionSort _ _

/-- Ten items in the wrong order, which is more to show than there are frames. -/
def tenDown : Params :=
  [("algorithm", .string ['b', 'u', 'b', 'b', 'l', 'e']),
    ("array", .array ([10, 9, 8, 7, 6, 5, 4, 3, 2, 1].map .int))]

/-- A square with a tail, and a pair that cannot be reached. -/
def square : Params :=
  [("algorithm", .string ['b', 'f', 's']),
    ("nodes", .array ([['a'], ['b'], ['c'], ['d'], ['e'], ['f'], ['g']].map .string)),
    ("edges", .array [.array [.string ['a'], .string ['b']], .array [.string ['d'], .string ['c']],
      .array [.string ['b'], .string ['c']], .array [.string ['d'], .string ['a']],
      .array [.string ['a'], .string ['e']], .array [.string ['f'], .string ['g']]]),
    ("start", .string ['c'])]

def lastOfFour : Params := [("array", .array ([1, 3, 3, 7].map .int)), ("target", .int 7)]

theorem animations_correct_square :
    (∃ out array, sorting asciiManim tenDown = .ok out ∧ out.frames.length = maxFrames + 1 ∧
      get tenDown "array" = .array (array.map .int) ∧ SortsArray out.frames array) ∧
    (∃ out s, graphTraversal asciiManim square = .ok out ∧ out.order = [2, 1, 3, 0, 4] ∧
      GraphOf asciiManim square out s ∧ Traverses out.algorithm out.edges s out.order) ∧
    ∃ out array target, binarySearch asciiManim lastOfFour = .ok out ∧
      get lastOfFour "array" = .array (array.map .int) ∧ get lastOfFour "target" = .int target ∧
      Finds out array target := by
  have hsorting : ∃ out, sorting asciiManim tenDown = .ok out ∧ out.frames.length = maxFrames + 1 :=
    ⟨_, sorting_eq_ok_iff.mpr ⟨by decide, .bubble, rfl, [10, 9, 8, 7, 6, 5, 4, 3, 2, 1], by decide, rfl⟩,
      by decide +kernel⟩
  have htraversal : ∃ out, graphTraversal asciiManim square = .ok out ∧ out.order = [2, 1, 3, 0, 4] :=
    ⟨_, rfl, rfl⟩
  have hsearch : ∃ out, binarySearch asciiManim lastOfFour = .ok out :=
    ⟨_, binarySearch_eq_ok_iff.mpr ⟨by decide, [1, 3, 3, 7], by decide, by decide, 7, by decide, rfl⟩⟩
  obtain ⟨out, hout, hframes⟩ := hsorting
  obtain ⟨traversal, htraversal, horder⟩ := htraversal
  obtain ⟨search, hsearch⟩ := hsearch
  obtain ⟨array, harray, hsorts⟩ := (animations_correct asciiManim).2.1 _ out hout
  obtain ⟨s, hgraph, htraverses⟩ := (animations_correct asciiManim).2.2.1 _ traversal htraversal
  obtain ⟨items, target, hitems, htarget, hfinds⟩ := (animations_correct asciiManim).2.2.2 _ search hsearch
  exact ⟨⟨out, array, hout, hframes, harray, hsorts⟩,
    ⟨traversal, s, htraversal, horder, hgraph, htraverses⟩,
    ⟨search, items, target, hsearch, hitems, htarget, hfinds⟩⟩

end ManimTemplates

end LlmService
