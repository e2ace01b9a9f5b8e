import LlmService.Lib.ScriptTrace

/-!
# Graphs of nodes over a state

A graph runs one node after another on a state: a node returns the state with
its update, and the edge that leaves it says which node is next. No more nodes
are run than a limit allows. `Path` are the ways through the graph, with what
the nodes call on them; whatever the limit, a run that ends has taken one.
`Reaches` are the nodes that runs come to, with the states they find there.
-/

namespace LlmService

/-- A graph; where no edge leaves a node, the run is over. -/
structure StateGraph (M : Type → Type) (N S : Type) where
  entry : N
  node : N → S → M S
  next : N → S → Option N

namespace StateGraph

section Run

variable {M : Type → Type} [Monad M] {N S : Type} (g : StateGraph M N S) (exceeded : M S)

/-- At most so many nodes are run, from `n` on. -/
def runFrom : Nat → N → S → M S
  | 0, _, _ => exceeded
  | limit + 1, n, s => do
    let s ← g.node n s
    match g.next n s with
    | none => return s
    | some n => runFrom limit n s

def invoke (limit : Nat) (s : S) : M S := g.runFrom exceeded limit g.entry s

variable [LawfulMonad M] {g} {exceeded} {n m : N} {s u : S} (limit : Nat)

/-- A node that awaits nothing. -/
theorem runFrom_of_pure (hnode : g.node n s = pure u) (hnext : g.next n u = some m) :
    g.runFrom exceeded (limit + 1) n s = g.runFrom exceeded limit m u := by
  rw [runFrom, hnode, pure_bind, hnext]

theorem runFrom_last (hnode : g.node n s = pure u) (hnext : g.next n u = none) :
    g.runFrom exceeded (limit + 1) n s = pure u := by
  rw [runFrom, hnode, pure_bind, hnext]

end Run

section Path

open Script

variable {C : Type} {R : C → Type} {ε N S : Type}

/-- From a node and a state, the graph ends in a state. -/
inductive Path (g : StateGraph (Script R ε) N S) : N → S → List (Σ c, R c) → S → Prop
  | finish {n : N} {s u : S} {t : List (Σ c, R c)} :
      (g.node n s).Trace t (.ok u) → g.next n u = none → Path g n s t u
  | step {n m : N} {s u v : S} {t₁ t₂ : List (Σ c, R c)} :
      (g.node n s).Trace t₁ (.ok u) → g.next n u = some m → Path g m u t₂ v →
      Path g n s (t₁ ++ t₂) v

variable {g : StateGraph (Script R ε) N S} {n m : N} {s u v : S} {t : List (Σ c, R c)}

/-- A graph calls what its nodes call. -/
theorem only_runFrom {P : C → Prop} (hnode : ∀ n s, (g.node n s).Only P) (e : ε) (limit : Nat) :
    ∀ n s, (g.runFrom (throw e) limit n s).Only P := by
  induction limit with
  | zero => exact fun n s => trivial
  | succ limit ih =>
    intro n s
    refine only_bind (hnode n s) fun u => ?_
    cases g.next n u with
    | none => trivial
    | some m => exact ih m u

/-- A run that ends took a path. -/
theorem path_of_trace {e : ε} {limit : Nat}
    (h : (g.runFrom (throw e) limit n s).Trace t (.ok v)) : g.Path n s t v := by
  induction limit generalizing n s t with
  | zero =>
    obtain ⟨-, he⟩ := trace_throw_iff.mp h
    cases he
  | succ limit ih =>
    rw [runFrom, trace_bind_ok_iff] at h
    obtain ⟨u, t₁, t₂, hnode, hrest, rfl⟩ := h
    cases hnext : g.next n u with
    | none =>
      rw [hnext] at hrest
      obtain ⟨rfl, hu⟩ := trace_pure_iff.mp hrest
      obtain rfl := Except.ok.inj hu
      rw [List.append_nil]
      exact .finish hnode hnext
    | some m =>
      rw [hnext] at hrest
      exact .step hnode hnext (ih hrest)

/-- A path through a node that an edge leaves. -/
theorem Path.exists_step (h : g.Path n s t v)
    (hnext : ∀ t u, (g.node n s).Trace t (.ok u) → g.next n u = some m) :
    ∃ u t₁ t₂, (g.node n s).Trace t₁ (.ok u) ∧ g.Path m u t₂ v ∧ t = t₁ ++ t₂ := by
  cases h with
  | finish hnode hnone =>
    rw [hnext _ _ hnode] at hnone
    cases hnone
  | step hnode hsome hrest =>
    rw [hnext _ _ hnode] at hsome
    obtain rfl := Option.some.inj hsome
    exact ⟨_, _, _, hnode, hrest, rfl⟩

/-- A node that calls nothing. -/
theorem Path.of_pure (h : g.Path n s t v) (hnode : g.node n s = pure u)
    (hnext : g.next n u = some m) : g.Path m u t v := by
  have hpure : ∀ t' u', (g.node n s).Trace t' (.ok u') → t' = [] ∧ u' = u := by
    intro t' u' h'
    rw [hnode] at h'
    obtain ⟨ht, hu⟩ := trace_pure_iff.mp h'
    exact ⟨ht, Except.ok.inj hu⟩
  obtain ⟨u', t₁, t₂, htrace, hrest, rfl⟩ := h.exists_step (m := m) fun t' u' h' => by
    rw [(hpure t' u' h').2, hnext]
  obtain ⟨rfl, rfl⟩ := hpure t₁ u' htrace
  exact hrest

/-- The last node, if it calls nothing. -/
theorem Path.eq_of_pure (h : g.Path n s t v) (hnode : g.node n s = pure u)
    (hnext : g.next n u = none) : t = [] ∧ v = u := by
  cases h with
  | finish htrace _ =>
    rw [hnode] at htrace
    obtain ⟨ht, hu⟩ := trace_pure_iff.mp htrace
    exact ⟨ht, Except.ok.inj hu⟩
  | step htrace hsome _ =>
    rw [hnode] at htrace
    obtain rfl := Except.ok.inj (trace_pure_iff.mp htrace).2
    rw [hnext] at hsome
    cases hsome

end Path

section Reaches

open Script

variable {C : Type} {R : C → Type} {ε N S : Type}

/-- A run from a state comes to a node with a state. -/
inductive Reaches (g : StateGraph (Script R ε) N S) (s₀ : S) : N → S → Prop
  | entry : Reaches g s₀ g.entry s₀
  | step {n m : N} {s u : S} {t : List (Σ c, R c)} :
      Reaches g s₀ n s → (g.node n s).Trace t (.ok u) → g.next n u = some m → Reaches g s₀ m u

/-- What holds at the entry, and behind each edge, holds wherever a run comes. -/
theorem Reaches.invariant {g : StateGraph (Script R ε) N S} {s₀ s : S} {n : N} {P : N → S → Prop}
    (h : g.Reaches s₀ n s) (hentry : P g.entry s₀)
    (hstep : ∀ n s t u m, P n s → (g.node n s).Trace t (.ok u) → g.next n u = some m → P m u) :
    P n s := by
  induction h with
  | entry => exact hentry
  | step _ hnode hnext ih => exact hstep _ _ _ _ _ ih hnode hnext

end Reaches

end StateGraph

end LlmService
