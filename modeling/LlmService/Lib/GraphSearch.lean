import Mathlib.Data.List.Nodup
import Mathlib.Data.List.Perm.Subperm

/-!
# Searching a graph

Breadth-first and depth-first search from one node, where `next` lists the
neighbours of a node. Each visits exactly the nodes that can be reached, each
once; breadth-first search visits none before a nearer one. A search is given
as many passes, or as much depth, as there are nodes, and never runs out.
-/

namespace LlmService

namespace GraphSearch

variable {α : Type}

/-! ## Walks -/

/-- A walk of so many steps from `s`. -/
inductive Walk (next : α → List α) (s : α) : α → Nat → Prop
  | nil : Walk next s s 0
  | step {u w : α} {k : Nat} (hwalk : Walk next s u k) (hnext : w ∈ next u) : Walk next s w (k + 1)

theorem Walk.cons {next : α → List α} {s u v : α} {k : Nat} (hnext : u ∈ next s)
    (h : Walk next u v k) : Walk next s v (k + 1) := by
  induction h with
  | nil => exact .step .nil hnext
  | step _ hw ih => exact .step ih hw

def Reachable (next : α → List α) (s v : α) : Prop := ∃ k, Walk next s v k

/-- For every walk to `b` there is one to `a` that is no longer. -/
def NoFurther (next : α → List α) (s a b : α) : Prop :=
  ∀ k, Walk next s b k → ∃ j ≤ k, Walk next s a j

variable {next : α → List α} {s v : α}

theorem Reachable.invariant {P : α → Prop} (h : Reachable next s v) (hs : P s)
    (hnext : ∀ u, P u → ∀ w ∈ next u, P w) : P v := by
  obtain ⟨k, hwalk⟩ := h
  induction hwalk with
  | nil => exact hs
  | step _ hw ih => exact hnext _ ih _ hw

theorem Reachable.step {w : α} (h : Reachable next s v) (hw : w ∈ next v) : Reachable next s w := by
  obtain ⟨k, hwalk⟩ := h
  exact ⟨k + 1, hwalk.step hw⟩

theorem length_le_of_nodup {part nodes : List α} (hnodup : part.Nodup)
    (hsubset : ∀ x ∈ part, x ∈ nodes) : part.length ≤ nodes.length :=
  (List.subperm_of_subset hnodup hsubset).length_le

/-! ## Breadth-first search -/

/-- `if w not in seen`: the node is seen from now on, and queued. -/
def discover [DecidableEq α] (found : List α × List α) (w : α) : List α × List α :=
  if w ∈ found.2 then found else (found.1 ++ [w], found.2 ++ [w])

/-- `while queue` -/
def bfsLoop [DecidableEq α] (next : α → List α) : Nat → List α → List α → List α → Option (List α)
  | _, [], order, _ => some order
  | 0, _ :: _, _, _ => none
  | passes + 1, v :: queue, order, seen =>
    let found := (next v).foldl discover (queue, seen)
    bfsLoop next passes found.1 (order ++ [v]) found.2

def bfs [DecidableEq α] (next : α → List α) (passes : Nat) (s : α) : Option (List α) :=
  bfsLoop next passes [s] [] [s]

theorem exists_discovered [DecidableEq α] (ws queue seen : List α) :
    ∃ new, ws.foldl discover (queue, seen) = (queue ++ new, seen ++ new) ∧ new.Nodup ∧
      (∀ w ∈ new, w ∈ ws ∧ w ∉ seen) ∧ ∀ w ∈ ws, w ∈ seen ++ new := by
  induction ws generalizing queue seen with
  | nil => exact ⟨[], by simp⟩
  | cons w ws ih =>
    rw [List.foldl_cons, discover]
    by_cases hw : w ∈ seen
    · rw [if_pos hw]
      obtain ⟨new, hfold, hnodup, hnew, hall⟩ := ih queue seen
      refine ⟨new, hfold, hnodup, ?_, ?_⟩
      · intro x hx
        exact ⟨List.mem_cons_of_mem w (hnew x hx).1, (hnew x hx).2⟩
      · intro x hx
        rcases List.mem_cons.mp hx with rfl | hx
        · exact List.mem_append_left new hw
        · exact hall x hx
    · rw [if_neg hw]
      obtain ⟨new, hfold, hnodup, hnew, hall⟩ := ih (queue ++ [w]) (seen ++ [w])
      have hfresh : w ∉ new := fun h => (hnew w h).2 (by simp)
      refine ⟨w :: new, ?_, List.nodup_cons.mpr ⟨hfresh, hnodup⟩, ?_, ?_⟩
      · simpa using hfold
      · intro x hx
        rcases List.mem_cons.mp hx with rfl | hx
        · exact ⟨List.mem_cons_self, hw⟩
        · obtain ⟨hmem, hseen⟩ := hnew x hx
          exact ⟨List.mem_cons_of_mem w hmem, fun h => hseen (List.mem_append_left [w] h)⟩
      · intro x hx
        rcases List.mem_cons.mp hx with rfl | hx
        · simp
        · simpa using hall x hx

/-- What holds whenever the loop begins a pass: the nodes that were seen are those visited and
those queued, nearest first, and the queue spans at most two distances. -/
structure Frontier (next : α → List α) (s : α) (queue order seen : List α) : Prop where
  parts : seen = order ++ queue
  nodup : seen.Nodup
  start : s ∈ seen
  closed : ∀ u ∈ order, ∀ w ∈ next u, w ∈ seen
  reached : ∀ v ∈ seen, Reachable next s v
  sorted : seen.Pairwise (NoFurther next s)
  span : ∀ v ∈ queue.head?, ∀ x ∈ queue, ∀ k, Walk next s v k → ∃ j ≤ k + 1, Walk next s x j

section Frontier

variable {queue order seen : List α}

/-- A walk that leaves the visited nodes passes through the queue. -/
theorem Frontier.exists_queued (h : Frontier next s queue order seen) {u : α} {k : Nat}
    (hwalk : Walk next s u k) (hu : u ∉ order) : ∃ x ∈ queue, ∃ j ≤ k, Walk next s x j := by
  have hqueued : ∀ x ∈ seen, x ∉ order → x ∈ queue := by
    intro x hx hout
    rw [h.parts] at hx
    exact (List.mem_append.mp hx).resolve_left hout
  induction hwalk with
  | nil => exact ⟨s, hqueued s h.start hu, 0, Nat.le_refl 0, .nil⟩
  | @step u w k hwalk hnext ih =>
    by_cases hprev : u ∈ order
    · exact ⟨w, hqueued w (h.closed u hprev w hnext) hu, k + 1, Nat.le_refl _, hwalk.step hnext⟩
    · obtain ⟨x, hx, j, hj, hto⟩ := ih hprev
      exact ⟨x, hx, j, by omega, hto⟩

/-- The node at the head of the queue is nearer than any node that was not seen. -/
theorem Frontier.head_nearer (h : Frontier next s (v :: queue) order seen) {w : α} {k : Nat}
    (hw : w ∉ seen) (hwalk : Walk next s w k) : ∃ j, j + 1 ≤ k ∧ Walk next s v j := by
  cases hwalk with
  | nil => exact absurd h.start hw
  | @step u _ k hwalk hnext =>
    have hu : u ∉ order := fun hu => hw (h.closed u hu w hnext)
    obtain ⟨x, hx, j, hj, hto⟩ := h.exists_queued hwalk hu
    have hsorted := h.sorted
    rw [h.parts, List.pairwise_append, List.pairwise_cons] at hsorted
    rcases List.mem_cons.mp hx with rfl | hx
    · exact ⟨j, by omega, hto⟩
    · obtain ⟨i, hi, hv⟩ := hsorted.2.1.1 x hx j hto
      exact ⟨i, by omega, hv⟩

theorem frontier_start (next : α → List α) (s : α) : Frontier next s [s] [] [s] where
  parts := rfl
  nodup := List.nodup_singleton s
  start := List.mem_singleton_self s
  closed u hu := absurd hu List.not_mem_nil
  reached v hv := by
    obtain rfl := List.mem_singleton.mp hv
    exact ⟨0, .nil⟩
  sorted := List.pairwise_singleton _ s
  span v hv x hx k hwalk := by
    obtain rfl := Option.some.inj hv
    obtain rfl := List.mem_singleton.mp hx
    exact ⟨k, Nat.le_succ k, hwalk⟩

/-- One pass keeps the invariant. -/
theorem Frontier.step (h : Frontier next s (v :: queue) order seen) {new : List α}
    (hnodup : new.Nodup) (hnew : ∀ w ∈ new, w ∈ next v ∧ w ∉ seen)
    (hall : ∀ w ∈ next v, w ∈ seen ++ new) :
    Frontier next s (queue ++ new) (order ++ [v]) (seen ++ new) := by
  have hv : v ∈ seen := by
    rw [h.parts]
    exact List.mem_append_right order List.mem_cons_self
  have hsorted := h.sorted
  rw [h.parts, List.pairwise_append, List.pairwise_cons] at hsorted
  obtain ⟨-, ⟨hhead, -⟩, hvisited⟩ := hsorted
  -- a new node is one step further than the head of the queue
  have hnear : ∀ w ∈ new, ∀ k, Walk next s v k → Walk next s w (k + 1) :=
    fun w hw k hwalk => hwalk.step (hnew w hw).1
  have hfar : ∀ w ∈ new, ∀ k, Walk next s w k → ∃ j, j + 1 ≤ k ∧ Walk next s v j :=
    fun w hw k hwalk => h.head_nearer (hnew w hw).2 hwalk
  refine ⟨?_, ?_, ?_, ?_, ?_, ?_, ?_⟩
  · rw [h.parts]
    simp
  · refine List.nodup_append.mpr ⟨h.nodup, hnodup, ?_⟩
    rintro x hx y hy rfl
    exact (hnew x hy).2 hx
  · exact List.mem_append_left new h.start
  · intro u hu w hw
    rcases List.mem_append.mp hu with hu | hu
    · exact List.mem_append_left new (h.closed u hu w hw)
    · obtain rfl := List.mem_singleton.mp hu
      exact hall w hw
  · intro x hx
    rcases List.mem_append.mp hx with hx | hx
    · exact h.reached x hx
    · exact (h.reached v hv).step (hnew x hx).1
  · refine List.pairwise_append.mpr ⟨h.sorted, ?_, ?_⟩
    · refine List.pairwise_of_forall_mem_list ?_
      intro x hx y hy k hwalk
      obtain ⟨j, hj, hto⟩ := hfar y hy k hwalk
      exact ⟨j + 1, hj, hnear x hx j hto⟩
    · intro x hx y hy k hwalk
      obtain ⟨j, hj, hto⟩ := hfar y hy k hwalk
      rw [h.parts] at hx
      rcases List.mem_append.mp hx with hx | hx
      · obtain ⟨i, hi, hx⟩ := hvisited x hx v List.mem_cons_self j hto
        exact ⟨i, by omega, hx⟩
      · obtain ⟨i, hi, hx⟩ := h.span v rfl x hx j hto
        exact ⟨i, by omega, hx⟩
  · intro u hu x hx k hwalk
    -- the head of what is left is no nearer than `v`
    have hbefore : ∃ j ≤ k, Walk next s v j := by
      rcases List.mem_append.mp (List.mem_of_mem_head? hu) with hu | hu
      · exact hhead u hu k hwalk
      · obtain ⟨j, hj, hto⟩ := hfar u hu k hwalk
        exact ⟨j, by omega, hto⟩
    obtain ⟨j, hj, hto⟩ := hbefore
    rcases List.mem_append.mp hx with hx | hx
    · obtain ⟨i, hi, hx⟩ := h.span v rfl x (List.mem_cons_of_mem v hx) j hto
      exact ⟨i, by omega, hx⟩
    · exact ⟨j + 1, by omega, hnear x hx j hto⟩

theorem Frontier.order_length_lt (h : Frontier next s (v :: queue) order seen) {nodes : List α}
    (hseen : ∀ x ∈ seen, x ∈ nodes) : order.length < nodes.length := by
  have hle := length_le_of_nodup h.nodup hseen
  rw [h.parts, List.length_append, List.length_cons] at hle
  omega

theorem Frontier.done (h : Frontier next s [] order seen) : Frontier next s [] order order := by
  have hparts := h.parts
  rw [List.append_nil] at hparts
  rw [hparts] at h
  exact h

/-- The loop ends with an empty queue. -/
theorem bfsLoop_spec [DecidableEq α] {nodes : List α}
    (hclosed : ∀ u ∈ nodes, ∀ w ∈ next u, w ∈ nodes) (passes : Nat)
    (h : Frontier next s queue order seen) (hseen : ∀ x ∈ seen, x ∈ nodes)
    (hpasses : nodes.length ≤ order.length + passes) :
    ∃ out, bfsLoop next passes queue order seen = some out ∧ Frontier next s [] out out := by
  induction passes generalizing queue order seen with
  | zero =>
    cases queue with
    | nil => exact ⟨order, by rw [bfsLoop], h.done⟩
    | cons v queue =>
      have := h.order_length_lt hseen
      omega
  | succ passes ih =>
    cases queue with
    | nil => exact ⟨order, by rw [bfsLoop], h.done⟩
    | cons v queue =>
      obtain ⟨new, hfold, hnodup, hnew, hall⟩ := exists_discovered (next v) queue seen
      rw [bfsLoop, hfold]
      refine ih (h.step hnodup hnew hall) ?_ ?_
      · intro x hx
        rcases List.mem_append.mp hx with hx | hx
        · exact hseen x hx
        · have hv : v ∈ seen := by
            rw [h.parts]
            exact List.mem_append_right order List.mem_cons_self
          exact hclosed v (hseen v hv) x (hnew x hx).1
      · rw [List.length_append, List.length_singleton]
        omega

end Frontier

/-- Breadth-first search lists the nodes that can be reached, nearest first. -/
theorem bfs_spec [DecidableEq α] {nodes : List α} (hs : s ∈ nodes)
    (hclosed : ∀ u ∈ nodes, ∀ w ∈ next u, w ∈ nodes) :
    ∃ out, bfs next nodes.length s = some out ∧ out.Nodup ∧ (∀ v, v ∈ out ↔ Reachable next s v) ∧
      out.Pairwise (NoFurther next s) := by
  obtain ⟨out, hout, h⟩ := bfsLoop_spec hclosed nodes.length (frontier_start next s)
    (fun x hx => List.mem_singleton.mp hx ▸ hs) (by simp)
  refine ⟨out, hout, h.nodup, ?_, h.sorted⟩
  intro v
  exact ⟨h.reached v, fun hv => hv.invariant h.start h.closed⟩

/-! ## Depth-first search -/

/-- `dfs(v)`: `order` lists the nodes that were seen, in the order of their visits. -/
def dfs [DecidableEq α] (next : α → List α) : Nat → α → List α → Option (List α)
  | 0, _, _ => none
  | depth + 1, v, order =>
    (next v).foldlM (fun order w => if w ∈ order then some order else dfs next depth w order)
      (order ++ [v])

/-- What a visit adds: nodes with `P`, each once, whose neighbours are all seen. -/
structure Grown (next : α → List α) (P : α → Prop) (before after : List α) : Prop where
  isPrefix : before <+: after
  nodup : after.Nodup
  closed : ∀ x ∈ after, x ∉ before → ∀ w ∈ next x, w ∈ after
  all : ∀ x ∈ after, x ∉ before → P x

theorem Grown.refl {P : α → Prop} {order : List α} (h : order.Nodup) : Grown next P order order where
  isPrefix := List.prefix_rfl
  nodup := h
  closed _ hx hout := absurd hx hout
  all _ hx hout := absurd hx hout

theorem Grown.trans {P : α → Prop} {a b c : List α} (hab : Grown next P a b)
    (hbc : Grown next P b c) : Grown next P a c where
  isPrefix := hab.isPrefix.trans hbc.isPrefix
  nodup := hbc.nodup
  closed x hx hout w hw := by
    by_cases hxb : x ∈ b
    · exact hbc.isPrefix.subset (hab.closed x hxb hout w hw)
    · exact hbc.closed x hx hxb w hw
  all x hx hout := by
    by_cases hxb : x ∈ b
    · exact hab.all x hxb hout
    · exact hbc.all x hx hxb

section Visits

variable {P : α → Prop} {nodes order : List α}

/-- What visits have added are nodes. -/
theorem Grown.subset_nodes {before after : List α} (h : Grown next P before after)
    (hnodes : ∀ x, P x → x ∈ nodes) (hbefore : ∀ x ∈ before, x ∈ nodes) : ∀ x ∈ after, x ∈ nodes := by
  intro x hx
  by_cases hseen : x ∈ before
  · exact hbefore x hseen
  · exact hnodes x (h.all x hx hseen)

/-- The visits of neighbours, one after another. -/
theorem visits_grown [DecidableEq α] {depth : Nat} (hnodes : ∀ x, P x → x ∈ nodes)
    (hdfs : ∀ w cur, P w → w ∉ cur → cur.Nodup → (∀ x ∈ cur, x ∈ nodes) →
      nodes.length ≤ cur.length + depth →
        ∃ out, dfs next depth w cur = some out ∧ w ∈ out ∧ Grown next P cur out)
    {ws : List α} (hws : ∀ w ∈ ws, P w) (hnodup : order.Nodup) (horder : ∀ x ∈ order, x ∈ nodes)
    (hdepth : nodes.length ≤ order.length + depth) :
    ∃ out, ws.foldlM (fun order w => if w ∈ order then some order else dfs next depth w order) order =
        some out ∧ (∀ w ∈ ws, w ∈ out) ∧ Grown next P order out := by
  induction ws generalizing order with
  | nil => exact ⟨order, rfl, by simp, .refl hnodup⟩
  | cons w ws ih =>
    obtain ⟨hw, hws⟩ := List.forall_mem_cons.mp hws
    have hfirst : ∃ mid, (if w ∈ order then some order else dfs next depth w order) = some mid ∧
        w ∈ mid ∧ Grown next P order mid := by
      by_cases hseen : w ∈ order
      · rw [if_pos hseen]
        exact ⟨order, rfl, hseen, .refl hnodup⟩
      · rw [if_neg hseen]
        exact hdfs w order hw hseen hnodup horder hdepth
    obtain ⟨mid, hmid, hwmid, hgrown⟩ := hfirst
    have hlen := hgrown.isPrefix.length_le
    obtain ⟨out, hout, hall, hrest⟩ :=
      ih hws hgrown.nodup (hgrown.subset_nodes hnodes horder) (by omega)
    refine ⟨out, ?_, ?_, hgrown.trans hrest⟩
    · rw [List.foldlM_cons, hmid]
      exact hout
    · exact List.forall_mem_cons.mpr ⟨hrest.isPrefix.subset hwmid, hall⟩

/-- A visit of a node that was not seen. -/
theorem dfs_grown [DecidableEq α] (hP : ∀ x, P x → ∀ w ∈ next x, P w)
    (hnodes : ∀ x, P x → x ∈ nodes) (depth : Nat) (hv : P v) (hfresh : v ∉ order)
    (hnodup : order.Nodup) (horder : ∀ x ∈ order, x ∈ nodes)
    (hdepth : nodes.length ≤ order.length + depth) :
    ∃ out, dfs next depth v order = some out ∧ v ∈ out ∧ Grown next P order out := by
  induction depth generalizing v order with
  | zero =>
    have hlonger : (v :: order).length ≤ nodes.length := by
      refine length_le_of_nodup (List.nodup_cons.mpr ⟨hfresh, hnodup⟩) ?_
      intro x hx
      rcases List.mem_cons.mp hx with rfl | hx
      · exact hnodes x hv
      · exact horder x hx
    rw [List.length_cons] at hlonger
    omega
  | succ depth ih =>
    have hstart : (order ++ [v]).Nodup := by
      refine List.nodup_append.mpr ⟨hnodup, List.nodup_singleton v, ?_⟩
      rintro x hx y hy rfl
      exact hfresh (List.mem_singleton.mp hy ▸ hx)
    have hsubset : ∀ x ∈ order ++ [v], x ∈ nodes := by
      intro x hx
      rcases List.mem_append.mp hx with hx | hx
      · exact horder x hx
      · exact List.mem_singleton.mp hx ▸ hnodes v hv
    have hroom : nodes.length ≤ (order ++ [v]).length + depth := by
      rw [List.length_append, List.length_singleton]
      omega
    obtain ⟨out, hout, hall, hgrown⟩ :=
      visits_grown hnodes (fun w cur hw => ih hw) (hP v hv) hstart hsubset hroom
    refine ⟨out, hout, hgrown.isPrefix.subset (by simp), (List.prefix_append order [v]).trans
      hgrown.isPrefix, hgrown.nodup, ?_, ?_⟩
    · intro x hx hout
      by_cases hxv : x = v
      · rw [hxv]
        exact hall
      · exact hgrown.closed x hx (by simp [hout, hxv])
    · intro x hx hout
      by_cases hxv : x = v
      · rw [hxv]
        exact hv
      · exact hgrown.all x hx (by simp [hout, hxv])

end Visits

/-- Depth-first search lists the nodes that can be reached. -/
theorem dfs_spec [DecidableEq α] {nodes : List α} (hs : s ∈ nodes)
    (hclosed : ∀ u ∈ nodes, ∀ w ∈ next u, w ∈ nodes) :
    ∃ out, dfs next nodes.length s [] = some out ∧ out.Nodup ∧
      ∀ v, v ∈ out ↔ Reachable next s v := by
  have hreached : ∀ v, Reachable next s v → v ∈ nodes := fun v hv => hv.invariant hs hclosed
  obtain ⟨out, hout, hstart, h⟩ := dfs_grown (P := Reachable next s)
    (fun _ hx _ hw => hx.step hw) hreached nodes.length ⟨0, .nil⟩ List.not_mem_nil
    List.nodup_nil (by simp) (by simp)
  refine ⟨out, hout, h.nodup, ?_⟩
  intro v
  constructor
  · intro hv
    exact h.all v hv List.not_mem_nil
  · intro hv
    exact hv.invariant hstart fun u hu => h.closed u hu List.not_mem_nil

end GraphSearch

end LlmService
