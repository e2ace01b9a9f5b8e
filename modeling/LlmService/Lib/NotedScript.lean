import LlmService.Lib.Script

/-!
# Scripts with notes

Where what a script may rely on depends on how far it has come, it carries a
note of the commands it has called and of their answers. The note is there for
the statements only: no command reads it. `NotedEnsures` is the rely–guarantee
judgement of `Ensures` with such a note, and `NotedPool.Keeps.step` carries the
judgements of a pool along, as long as each step leaves the others what their
notes let them rely on.
-/

namespace LlmService

namespace Script

variable {C : Type} {R : C → Type} {ε α β γ ω σ : Type}

/-- A contract for scripts with notes `γ`: `note` is the note behind a
command, `rely` what the others may do to a script with this note, `ok` the
commands that it is allowed, `guar` what a command of its does. -/
structure NotedContract (R : C → Type) (γ ω σ : Type) where
  exec : (c : C) → ω → σ → Option (R c × σ)
  note : γ → (c : C) → R c → γ
  rely : γ → σ → σ → Prop
  ok : γ → C → ω → σ → Prop
  guar : C → σ → σ → Prop
  rely_refl : ∀ g s, rely g s s
  rely_trans : ∀ {g s t u}, rely g s t → rely g t u → rely g s u

variable (K : NotedContract R γ ω σ)

/-- The script keeps to the contract and returns with `post`. -/
def NotedEnsures (post : α → γ → σ → Prop) : Script R ε α → γ → σ → Prop
  | .pure a, g, s => post a g s
  | .raise _, _, _ => True
  | .call c rest, g, s => ∀ t, K.rely g s t → ∀ w r u, K.ok g c w t → K.exec c w t = some (r, u) →
      K.guar c t u ∧ NotedEnsures post (rest r) (K.note g c r) u

variable {K} {post : α → γ → σ → Prop} {p : Script R ε α} {g : γ} {s t : σ}

/-- What the others do does not break the judgement of a script that goes on. -/
theorem NotedEnsures.stable (h : NotedEnsures K post p g s) (hp : ¬ p.Finished)
    (hrely : K.rely g s t) : NotedEnsures K post p g t := by
  cases p with
  | pure a => exact absurd trivial hp
  | raise e => exact absurd trivial hp
  | call c rest => exact fun u hu => h u (K.rely_trans hrely hu)

theorem NotedEnsures.weaken {post' : α → γ → σ → Prop} (h : NotedEnsures K post p g s)
    (hpost : ∀ a g t, post a g t → post' a g t) : NotedEnsures K post' p g s := by
  induction p generalizing g s with
  | pure a => exact hpost a g s h
  | raise e => trivial
  | call c rest ih =>
    intro t ht w r u hok hexec
    obtain ⟨hguar, hrest⟩ := h t ht w r u hok hexec
    exact ⟨hguar, ih r hrest⟩

/-- A script in two parts: the second starts where the first has returned. -/
theorem NotedEnsures.bind {post : β → γ → σ → Prop} {f : α → Script R ε β}
    (h : NotedEnsures K (fun a g t => NotedEnsures K post (f a) g t) p g s) :
    NotedEnsures K post (p >>= f) g s := by
  induction p generalizing g s with
  | pure a => exact h
  | raise e => trivial
  | call c rest ih =>
    intro t ht w r u hok hexec
    obtain ⟨hguar, hrest⟩ := h t ht w r u hok hexec
    exact ⟨hguar, ih r hrest⟩

/-- The others act, then the command is answered. -/
theorem notedEnsures_command_bind {c : C} {f : R c → Script R ε α}
    (h : ∀ t, K.rely g s t → ∀ w r u, K.ok g c w t → K.exec c w t = some (r, u) →
      K.guar c t u ∧ NotedEnsures K post (f r) (K.note g c r) u) :
    NotedEnsures K post (command c >>= f) g s := h

end Script

namespace NotedPool

open Script

variable {C : Type} {R : C → Type} {ε α γ ω η σ : Type}

/-- A script and the note it carries. -/
abbrev Noted (R : C → Type) (ε α γ : Type) := Script R ε α × γ

section Step

variable (exec : (c : C) → ω → σ → Option (R c × σ)) (note : γ → (c : C) → R c → γ)
  (disturb : η → σ → Option σ)

def step (s : Pool σ (Noted R ε α γ)) : Pool.Label ω η → Option (Pool σ (Noted R ε α γ))
  | .work i w =>
    match s.scripts[i]? with
    | some (.call c rest, g) =>
      (exec c w s.shared).map fun answer =>
        { shared := answer.2, scripts := s.scripts.set i (rest answer.1, note g c answer.1) }
    | _ => none
  | .other e => (disturb e s.shared).map fun t => { s with shared := t }

variable {exec note disturb} {s t : Pool σ (Noted R ε α γ)}

theorem exists_of_step_work {i : Nat} {w : ω}
    (h : step exec note disturb s (.work i w) = some t) :
    ∃ c rest g r u, s.scripts[i]? = some (.call c rest, g) ∧ exec c w s.shared = some (r, u) ∧
      t = { shared := u, scripts := s.scripts.set i (rest r, note g c r) } := by
  cases hp : s.scripts[i]? with
  | none => simp [step, hp] at h
  | some p =>
    obtain ⟨p, g⟩ := p
    cases p with
    | pure a => simp [step, hp] at h
    | raise e => simp [step, hp] at h
    | call c rest =>
      simp only [step, hp] at h
      obtain ⟨⟨r, u⟩, hexec, rfl⟩ := Option.map_eq_some_iff.mp h
      exact ⟨c, rest, g, r, u, rfl, hexec, rfl⟩

theorem exists_of_step_other {e : η} (h : step exec note disturb s (.other e) = some t) :
    ∃ u, disturb e s.shared = some u ∧ t = { s with shared := u } := by
  obtain ⟨u, hu, rfl⟩ := Option.map_eq_some_iff.mp h
  exact ⟨u, hu, rfl⟩

/-- The steps of a pool with notes are those of the pool without them. -/
theorem step_forget {a : Pool.Label ω η} (h : step exec note disturb s a = some t) :
    Pool.step exec disturb { shared := s.shared, scripts := s.scripts.map Prod.fst } a
      = some { shared := t.shared, scripts := t.scripts.map Prod.fst } := by
  cases a with
  | work i w =>
    obtain ⟨c, rest, g, r, u, hp, hexec, rfl⟩ := exists_of_step_work h
    rw [Pool.step_work_iff]
    refine ⟨c, rest, r, u, ?_, hexec, ?_⟩
    · rw [List.getElem?_map, hp]
      rfl
    · rw [List.map_set]
  | other e =>
    obtain ⟨u, hu, rfl⟩ := exists_of_step_other h
    rw [Pool.step_other_iff]
    exact ⟨u, hu, rfl⟩

end Step

/-- Every script that goes on keeps to the contract. -/
def Keeps (K : NotedContract R γ ω σ) (post : α → γ → σ → Prop)
    (s : Pool σ (Noted R ε α γ)) : Prop :=
  ∀ (i : Nat) (p : Script R ε α) (g : γ), s.scripts[i]? = some (p, g) → ¬ p.Finished →
    NotedEnsures K post p g s.shared

/-- The script at `i` is allowed its next command. -/
def Allowed (K : NotedContract R γ ω σ) (s : Pool σ (Noted R ε α γ)) (i : Nat) (w : ω) : Prop :=
  ∀ (c : C) (rest : R c → Script R ε α) (g : γ), s.scripts[i]? = some (.call c rest, g) →
    K.ok g c w s.shared

variable {K : NotedContract R γ ω σ} {post : α → γ → σ → Prop}
  {disturb : η → σ → Option σ} {s t : Pool σ (Noted R ε α γ)}

/-- The command of a script gives its guarantee. -/
theorem Keeps.guar (hkeeps : Keeps K post s) {i : Nat} {w : ω} (hok : Allowed K s i w) {c : C}
    {rest : R c → Script R ε α} {g : γ} {r : R c} {u : σ}
    (hp : s.scripts[i]? = some (.call c rest, g)) (hexec : K.exec c w s.shared = some (r, u)) :
    K.guar c s.shared u :=
  (hkeeps i _ g hp id s.shared (K.rely_refl g _) w r u (hok c rest g hp) hexec).1

/-- A step that leaves every other script what it relies on keeps all judgements. -/
theorem Keeps.step_work (hkeeps : Keeps K post s) {i : Nat} {w : ω} (hok : Allowed K s i w)
    (hothers : ∀ (j : Nat) (p : Script R ε α) (g : γ), j ≠ i → s.scripts[j]? = some (p, g) →
      ¬ p.Finished → K.rely g s.shared t.shared)
    (hstep : step K.exec K.note disturb s (.work i w) = some t) : Keeps K post t := by
  obtain ⟨c, rest, g, r, u, hp, hexec, rfl⟩ := exists_of_step_work hstep
  intro j p g' hj hfinished
  by_cases hij : i = j
  · subst hij
    rw [List.getElem?_set_self (List.getElem?_eq_some_iff.mp hp).1] at hj
    obtain ⟨rfl, rfl⟩ := Prod.mk.inj (Option.some.inj hj)
    exact (hkeeps i _ g hp id s.shared (K.rely_refl g _) w r u (hok c rest g hp) hexec).2
  · rw [List.getElem?_set_ne hij] at hj
    exact (hkeeps j p g' hj hfinished).stable hfinished
      (hothers j p g' (fun h => hij h.symm) hj hfinished)

theorem Keeps.step_other (hkeeps : Keeps K post s) {e : η}
    (hothers : ∀ g t, disturb e s.shared = some t → K.rely g s.shared t)
    (hstep : step K.exec K.note disturb s (.other e) = some t) : Keeps K post t := by
  obtain ⟨u, hu, rfl⟩ := exists_of_step_other hstep
  intro j p g hj hfinished
  exact (hkeeps j p g hj hfinished).stable hfinished (hothers g u hu)

end NotedPool

end LlmService
