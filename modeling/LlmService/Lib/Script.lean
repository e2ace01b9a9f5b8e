import LlmService.Lib.Runs

/-!
# Scripts over a shared state

A script is a tree of commands: each is answered by the shared state, which
it may change, and by its environment. Scripts run one command at a time, so
that between two commands of one script others may act.

`Ensures` is the rely–guarantee judgement: as long as the others keep to
`rely`, each allowed command of the script gives its `guar`, and the script
ends with `post`. Its rules follow the structure of the script. `Pool` runs
any number of scripts on one state, and `Pool.Keeps.step` carries the
judgements of its scripts along.
-/

namespace LlmService

/-- A script with commands `C`, answered by `R`, that returns or raises. -/
inductive Script {C : Type} (R : C → Type) (ε α : Type) where
  | pure (a : α)
  | raise (e : ε)
  | call (c : C) (rest : R c → Script R ε α)

namespace Script

section Monad

variable {C : Type} {R : C → Type} {ε α β : Type}

def bind : Script R ε α → (α → Script R ε β) → Script R ε β
  | .pure a, f => f a
  | .raise e, _ => .raise e
  | .call c rest, f => .call c fun r => (rest r).bind f

def handle : Script R ε α → (ε → Script R ε α) → Script R ε α
  | .pure a, _ => .pure a
  | .raise e, f => f e
  | .call c rest, f => .call c fun r => (rest r).handle f

instance : Monad (Script R ε) where
  pure := .pure
  bind := .bind

instance : MonadExceptOf ε (Script R ε) where
  throw := .raise
  tryCatch := .handle

/-- The script of a single command. -/
def command (c : C) : Script R ε (R c) := .call c .pure

/-- The script has come to its end. -/
def Finished : Script R ε α → Prop
  | .pure _ | .raise _ => True
  | .call _ _ => False

instance (p : Script R ε α) : Decidable p.Finished :=
  match p with
  | .pure _ => isTrue trivial
  | .raise _ => isTrue trivial
  | .call _ _ => isFalse id

/-- Every command that the script may still call satisfies `P`. -/
def Only (P : C → Prop) : Script R ε α → Prop
  | .pure _ | .raise _ => True
  | .call c rest => P c ∧ ∀ r, (rest r).Only P

theorem only_bind {P : C → Prop} {p : Script R ε α} {f : α → Script R ε β}
    (hp : p.Only P) (hf : ∀ a, (f a).Only P) : (p >>= f).Only P := by
  induction p with
  | pure a => exact hf a
  | raise e => trivial
  | call c rest ih => exact ⟨hp.1, fun r => ih r (hp.2 r)⟩

theorem only_handle {P : C → Prop} {p : Script R ε α} {f : ε → Script R ε α}
    (hp : p.Only P) (hf : ∀ e, (f e).Only P) : (tryCatch p f).Only P := by
  induction p with
  | pure a => trivial
  | raise e => exact hf e
  | call c rest ih => exact ⟨hp.1, fun r => ih r (hp.2 r)⟩

theorem only_command_bind {P : C → Prop} {c : C} {f : R c → Script R ε α}
    (hc : P c) (hf : ∀ r, (f r).Only P) : (command c >>= f).Only P := ⟨hc, hf⟩

theorem Only.mono {P Q : C → Prop} {p : Script R ε α} (hp : p.Only P) (hPQ : ∀ c, P c → Q c) :
    p.Only Q := by
  induction p with
  | pure a => trivial
  | raise e => trivial
  | call c rest ih => exact ⟨hPQ c hp.1, fun r => ih r (hp.2 r)⟩

/-- Every value that the script may return satisfies `P`. -/
def Yields (P : α → Prop) : Script R ε α → Prop
  | .pure a => P a
  | .raise _ => True
  | .call _ rest => ∀ r, (rest r).Yields P

theorem yields_trivial (p : Script R ε α) : p.Yields fun _ => True := by
  induction p with
  | pure a => trivial
  | raise e => trivial
  | call c rest ih => exact ih

theorem Yields.mono {P Q : α → Prop} {p : Script R ε α} (hp : p.Yields P)
    (hPQ : ∀ a, P a → Q a) : p.Yields Q := by
  induction p with
  | pure a => exact hPQ a hp
  | raise e => trivial
  | call c rest ih => exact fun r => ih r (hp r)

theorem Yields.bind {P : α → Prop} {Q : β → Prop} {p : Script R ε α} {f : α → Script R ε β}
    (hp : p.Yields P) (hf : ∀ a, P a → (f a).Yields Q) : (p >>= f).Yields Q := by
  induction p with
  | pure a => exact hf a hp
  | raise e => trivial
  | call c rest ih => exact fun r => ih r (hp r)

/-- A second part is only run on what the first may return. -/
theorem Yields.bind_congr {P : α → Prop} {p : Script R ε α} {f g : α → Script R ε β}
    (hp : p.Yields P) (hfg : ∀ a, P a → f a = g a) : p >>= f = p >>= g := by
  induction p with
  | pure a => exact hfg a hp
  | raise e => rfl
  | call c rest ih => exact congrArg (Script.call c) (funext fun r => ih r (hp r))

end Monad

/-! ## Rely and guarantee -/

section Ensures

variable {C : Type} {R : C → Type} {ε α β ω σ : Type}

/-- What a script relies on and what it gives: `exec` answers a command,
`rely` is what the others may do, `ok` are the commands that are allowed. -/
structure Contract (R : C → Type) (ω σ : Type) where
  exec : (c : C) → ω → σ → Option (R c × σ)
  rely : σ → σ → Prop
  ok : C → ω → σ → Prop
  guar : σ → σ → Prop
  rely_refl : ∀ s, rely s s
  rely_trans : ∀ {s t u}, rely s t → rely t u → rely s u

variable (K : Contract R ω σ)

/-- The script keeps to the contract and ends with `post`. -/
def Ensures (post : Except ε α → σ → Prop) : Script R ε α → σ → Prop
  | .pure a, s => ∀ t, K.rely s t → post (.ok a) t
  | .raise e, s => ∀ t, K.rely s t → post (.error e) t
  | .call c rest, s => ∀ t, K.rely s t → ∀ w r u, K.ok c w t → K.exec c w t = some (r, u) →
      K.guar t u ∧ Ensures post (rest r) u

variable {K} {post : Except ε α → σ → Prop} {p : Script R ε α} {s t : σ}

/-- What the others do does not break a judgement. -/
theorem Ensures.stable (h : Ensures K post p s) (hrely : K.rely s t) : Ensures K post p t := by
  cases p with
  | pure a => exact fun u hu => h u (K.rely_trans hrely hu)
  | raise e => exact fun u hu => h u (K.rely_trans hrely hu)
  | call c rest => exact fun u hu => h u (K.rely_trans hrely hu)

theorem Ensures.weaken {post' : Except ε α → σ → Prop} (h : Ensures K post p s)
    (hpost : ∀ r t, post r t → post' r t) : Ensures K post' p s := by
  induction p generalizing s with
  | pure a => exact fun t ht => hpost _ t (h t ht)
  | raise e => exact fun t ht => hpost _ t (h t ht)
  | call c rest ih =>
    intro t ht w r u hok hexec
    obtain ⟨hguar, hrest⟩ := h t ht w r u hok hexec
    exact ⟨hguar, ih r hrest⟩

/-- A script in two parts: the second starts where the first has returned. -/
theorem Ensures.bind {post : Except ε β → σ → Prop} {f : α → Script R ε β}
    (h : Ensures K (fun r t => match r with
      | .ok a => Ensures K post (f a) t
      | .error e => post (.error e) t) p s) : Ensures K post (p >>= f) s := by
  induction p generalizing s with
  | pure a => exact h s (K.rely_refl s)
  | raise e => exact h
  | call c rest ih =>
    intro t ht w r u hok hexec
    obtain ⟨hguar, hrest⟩ := h t ht w r u hok hexec
    exact ⟨hguar, ih r hrest⟩

/-- A handler starts where the script has raised. -/
theorem Ensures.handle {f : ε → Script R ε α}
    (h : Ensures K (fun r t => match r with
      | .ok a => post (.ok a) t
      | .error e => Ensures K post (f e) t) p s) : Ensures K post (tryCatch p f) s := by
  induction p generalizing s with
  | pure a => exact h
  | raise e => exact h s (K.rely_refl s)
  | call c rest ih =>
    intro t ht w r u hok hexec
    obtain ⟨hguar, hrest⟩ := h t ht w r u hok hexec
    exact ⟨hguar, ih r hrest⟩

/-- The others act, then the command is answered. -/
theorem ensures_command_bind {c : C} {f : R c → Script R ε α}
    (h : ∀ t, K.rely s t → ∀ w r u, K.ok c w t → K.exec c w t = some (r, u) →
      K.guar t u ∧ Ensures K post (f r) u) :
    Ensures K post (command c >>= f) s := h

end Ensures

end Script

/-! ## Pools of scripts -/

/-- Scripts on a shared state. -/
structure Pool (σ P : Type) where
  shared : σ
  scripts : List P

namespace Pool

open Script

variable {C : Type} {R : C → Type} {ε α ω η σ : Type}

/-- The script at `i` takes a step, answered by `w`, or something else happens. -/
inductive Label (ω η : Type) where
  | work (i : Nat) (w : ω)
  | other (e : η)

section Step

variable (exec : (c : C) → ω → σ → Option (R c × σ)) (disturb : η → σ → Option σ)

def step (s : Pool σ (Script R ε α)) : Label ω η → Option (Pool σ (Script R ε α))
  | .work i w =>
    match s.scripts[i]? with
    | some (.call c rest) =>
      (exec c w s.shared).map fun answer =>
        { shared := answer.2, scripts := s.scripts.set i (rest answer.1) }
    | _ => none
  | .other e => (disturb e s.shared).map fun t => { s with shared := t }

variable {exec disturb} {s t : Pool σ (Script R ε α)}

theorem step_work_iff {i : Nat} {w : ω} :
    step exec disturb s (.work i w) = some t ↔
      ∃ c rest r u, s.scripts[i]? = some (.call c rest) ∧ exec c w s.shared = some (r, u) ∧
        t = { shared := u, scripts := s.scripts.set i (rest r) } := by
  cases hp : s.scripts[i]? with
  | none => simp [step, hp]
  | some p =>
    cases p with
    | pure a => simp [step, hp]
    | raise e => simp [step, hp]
    | call c rest =>
      simp only [step, hp, Option.map_eq_some_iff, Prod.exists, Option.some.injEq,
        Script.call.injEq]
      constructor
      · intro hrun
        obtain ⟨r, u, hexec, rfl⟩ := hrun
        exact ⟨c, rest, r, u, ⟨rfl, HEq.rfl⟩, hexec, rfl⟩
      · intro hrun
        obtain ⟨c', rest', r, u, ⟨rfl, hrest⟩, hexec, rfl⟩ := hrun
        cases hrest
        exact ⟨r, u, hexec, rfl⟩

theorem step_other_iff {e : η} :
    step exec disturb s (.other e) = some t ↔
      ∃ u, disturb e s.shared = some u ∧ t = { s with shared := u } := by
  simp only [step, Option.map_eq_some_iff]
  apply exists_congr
  intro u
  rw [eq_comm (a := t)]

theorem step_length {a : Label ω η} (h : step exec disturb s a = some t) :
    t.scripts.length = s.scripts.length := by
  cases a with
  | work i w =>
    obtain ⟨c, rest, r, u, -, -, rfl⟩ := step_work_iff.mp h
    exact List.length_set
  | other e =>
    obtain ⟨u, -, rfl⟩ := step_other_iff.mp h
    rfl

/-- A script that has come to its end stays there. -/
theorem step_finished {a : Label ω η} {i : Nat} {p : Script R ε α}
    (h : step exec disturb s a = some t) (hp : s.scripts[i]? = some p) (hfinished : p.Finished) :
    t.scripts[i]? = some p := by
  cases a with
  | work j w =>
    obtain ⟨c, rest, r, u, hj, -, rfl⟩ := step_work_iff.mp h
    by_cases hij : j = i
    · subst hij
      rw [hp] at hj
      cases hj
      exact hfinished.elim
    · rw [List.getElem?_set_ne hij]
      exact hp
  | other e =>
    obtain ⟨u, -, rfl⟩ := step_other_iff.mp h
    exact hp

/-- What is left of a script has every property that is inherited. -/
theorem step_inherits {P : Nat → Script R ε α → Prop}
    (hinherits : ∀ i c rest, P i (.call c rest) → ∀ r, P i (rest r))
    (hs : ∀ i p, s.scripts[i]? = some p → P i p) {a : Label ω η}
    (h : step exec disturb s a = some t) : ∀ i p, t.scripts[i]? = some p → P i p := by
  intro j p hj
  cases a with
  | work i w =>
    obtain ⟨c, rest, r, u, hp, -, rfl⟩ := step_work_iff.mp h
    by_cases hij : i = j
    · subst hij
      rw [List.getElem?_set_self (List.getElem?_eq_some_iff.mp hp).1] at hj
      obtain rfl := Option.some.inj hj
      exact hinherits i c rest (hs i _ hp) r
    · rw [List.getElem?_set_ne hij] at hj
      exact hs j p hj
  | other e =>
    obtain ⟨u, -, rfl⟩ := step_other_iff.mp h
    exact hs j p hj

end Step

/-- The commands that the label runs are allowed. -/
def Allowed (K : Contract R ω σ) (s : Pool σ (Script R ε α)) (a : Label ω η) : Prop :=
  match a with
  | .work i w => ∀ c rest, s.scripts[i]? = some (.call c rest) → K.ok c w s.shared
  | .other _ => True

instance (K : Contract R ω σ) [∀ c w s, Decidable (K.ok c w s)] (s : Pool σ (Script R ε α))
    (a : Label ω η) : Decidable (Allowed K s a) :=
  match a with
  | .other _ => isTrue trivial
  | .work i w =>
    match h : s.scripts[i]? with
    | none => isTrue fun _ _ hp => nomatch h.symm.trans hp
    | some (.pure _) => isTrue fun _ _ hp => nomatch h.symm.trans hp
    | some (.raise _) => isTrue fun _ _ hp => nomatch h.symm.trans hp
    | some (.call c _) =>
      decidable_of_iff (K.ok c w s.shared)
        ⟨fun hok _ _ hp => by cases h.symm.trans hp; exact hok, fun hok => hok c _ h⟩

/-- Every script of the pool keeps to the contract. -/
def Keeps (K : Contract R ω σ) (post : Nat → Except ε α → σ → Prop)
    (s : Pool σ (Script R ε α)) : Prop :=
  ∀ i p, s.scripts[i]? = some p → Ensures K (post i) p s.shared

section Keeps

variable {K : Contract R ω σ} {post : Nat → Except ε α → σ → Prop}
  {disturb : η → σ → Option σ} {s t : Pool σ (Script R ε α)}

/-- The step of a script gives its guarantee. -/
theorem Keeps.guar (hkeeps : Keeps K post s) {i : Nat} {w : ω}
    (hok : Allowed K s (.work i w : Label ω η))
    (hstep : step K.exec disturb s (.work i w) = some t) : K.guar s.shared t.shared := by
  obtain ⟨c, rest, r, u, hp, hexec, rfl⟩ := step_work_iff.mp hstep
  exact (hkeeps i _ hp s.shared (K.rely_refl _) w r u (hok c rest hp) hexec).1

/-- What each script guarantees the others, if there are any, rely on: the
judgements of all scripts are carried along. -/
theorem Keeps.step (hguar : 1 < s.scripts.length → ∀ s t, K.guar s t → K.rely s t)
    (hdisturb : ∀ e s t, disturb e s = some t → K.rely s t)
    (hkeeps : Keeps K post s) {a : Label ω η} (hok : Allowed K s a)
    (hstep : step K.exec disturb s a = some t) : Keeps K post t := by
  cases a with
  | work i w =>
    obtain ⟨c, rest, r, u, hp, hexec, rfl⟩ := step_work_iff.mp hstep
    obtain ⟨hg, hrest⟩ := hkeeps i _ hp s.shared (K.rely_refl _) w r u (hok c rest hp) hexec
    intro j p hj
    by_cases hij : i = j
    · subst hij
      rw [List.getElem?_set_self (List.getElem?_eq_some_iff.mp hp).1] at hj
      obtain rfl := Option.some.inj hj
      exact hrest
    · rw [List.getElem?_set_ne hij] at hj
      have hi := (List.getElem?_eq_some_iff.mp hp).1
      have hj' := (List.getElem?_eq_some_iff.mp hj).1
      exact (hkeeps j p hj).stable (hguar (by omega) _ _ hg)
  | other e =>
    obtain ⟨u, hu, rfl⟩ := step_other_iff.mp hstep
    intro j p hj
    exact (hkeeps j p hj).stable (hdisturb e _ _ hu)

theorem Keeps.returned (hkeeps : Keeps K post s) {i : Nat} {a : α}
    (hp : s.scripts[i]? = some (.pure a)) : post i (.ok a) s.shared :=
  hkeeps i _ hp s.shared (K.rely_refl _)

theorem Keeps.raised (hkeeps : Keeps K post s) {i : Nat} {e : ε}
    (hp : s.scripts[i]? = some (.raise e)) : post i (.error e) s.shared :=
  hkeeps i _ hp s.shared (K.rely_refl _)

end Keeps

end Pool

end LlmService
