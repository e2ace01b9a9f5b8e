import LlmService.Lib.Script
import LlmService.Lib.Unwinding

/-!
# Scripts in lockstep

A pool of scripts, some of which are an observer's. `lockstep` is the logic of
scripts that run alike from any two states that look the same, whatever the
others do between their commands; `guarded` is the logic of scripts whose
commands leave alone what the observer sees. When the observer's scripts are in
the one and the scripts of others in the other, the observer's scripts run as
if nobody else had taken a step (`pool_unwinds`).

`embed` takes a script to a larger set of commands, and a logic back from it.
-/

namespace LlmService

open Script

namespace Unwinding

section Logics

variable {C : Type} {R : C → Type} {ε ω σ : Type} (exec : (c : C) → ω → σ → Option (R c × σ))
  (rel : σ → σ → Prop)

/-- From states that look the same every command is run alike: the answers may
differ, as long as the script goes on in the same way. -/
def Lockstep {β : Type} (post : β → Prop) : Script R ε β → Prop
  | .pure b => post b
  | .raise _ => True
  | .call c rest => ∀ w s t r s', rel s t → exec c w s = some (r, s') →
      ∃ r' t', exec c w t = some (r', t') ∧ rel s' t' ∧ rest r = rest r' ∧ Lockstep post (rest r)

def lockstep : ProgramLogic (Script R ε) where
  Holds post p := Lockstep exec rel post p
  pure h := h
  bind := by
    intro β γ post last p f hp hf
    induction p with
    | pure b => exact hf b hp
    | raise e => trivial
    | call c rest ih =>
      intro w s t r s' hrel hexec
      obtain ⟨r', t', hexec', hrel', hsame, hrest⟩ := hp w s t r s' hrel hexec
      refine ⟨r', t', hexec', hrel', ?_, ih r hrest⟩
      show (rest r).bind f = (rest r').bind f
      rw [hsame]

/-- No command changes what the observer sees. -/
def Guarded {β : Type} (post : β → Prop) : Script R ε β → Prop
  | .pure b => post b
  | .raise _ => True
  | .call c rest => ∀ w s t r s', rel s t → exec c w s = some (r, s') →
      rel s' t ∧ Guarded post (rest r)

def guarded : ProgramLogic (Script R ε) where
  Holds post p := Guarded exec rel post p
  pure h := h
  bind := by
    intro β γ post last p f hp hf
    induction p with
    | pure b => exact hf b hp
    | raise e => trivial
    | call c rest ih =>
      intro w s t r s' hrel hexec
      obtain ⟨hrel', hrest⟩ := hp w s t r s' hrel hexec
      exact ⟨hrel', ih r hrest⟩

/-- A single command is in lockstep if it is answered alike. -/
theorem lockstep_command {c : C} {post : R c → Prop}
    (h : ∀ w s t r s', rel s t → exec c w s = some (r, s') →
      ∃ t', exec c w t = some (r, t') ∧ rel s' t' ∧ post r) :
    (lockstep (ε := ε) exec rel).Holds post (Script.command c) := by
  intro w s t r s' hrel hexec
  obtain ⟨t', hexec', hrel', hpost⟩ := h w s t r s' hrel hexec
  exact ⟨r, t', hexec', hrel', rfl, hpost⟩

theorem guarded_command {c : C} {post : R c → Prop}
    (h : ∀ w s t r s', rel s t → exec c w s = some (r, s') → rel s' t ∧ post r) :
    (guarded (ε := ε) exec rel).Holds post (Script.command c) := h

end Logics

/-! ## Pools -/

section Pools

variable {C : Type} {R : C → Type} {ε α ω η σ : Type} (exec : (c : C) → ω → σ → Option (R c × σ))
  (disturb : η → σ → Option σ) (rel : σ → σ → Prop) (mine : Nat → Prop)

/-- The pools look the same to the owner of the scripts that are `mine`. -/
structure PoolView (s t : Pool σ (Script R ε α)) : Prop where
  shared : rel s.shared t.shared
  same : ∀ i, mine i → s.scripts[i]? = t.scripts[i]?
  own : ∀ i p, mine i → s.scripts[i]? = some p → Lockstep exec rel (fun _ => True) p
  others : ∀ i p, ¬ mine i → s.scripts[i]? = some p → Guarded exec rel (fun _ => True) p

/-- The label is a step of one of the scripts that are `mine`, or none of a script. -/
def Mine : Pool.Label ω η → Prop
  | .work i _ => mine i
  | .other _ => True

instance decidableMine [DecidablePred mine] : DecidablePred (Mine (ω := ω) (η := η) mine) := fun label =>
  match label with
  | .work i _ => inferInstanceAs (Decidable (mine i))
  | .other _ => isTrue trivial

variable {exec disturb rel mine}

/-- The owner of some scripts does not see the steps of the others. -/
theorem pool_unwinds
    (hdisturb : ∀ e s t s', rel s t → disturb e s = some s' → ∃ t', disturb e t = some t' ∧ rel s' t') :
    Unwinds (Pool.step exec disturb) (fun _ => True) (Mine mine)
      (PoolView (ε := ε) (α := α) exec rel mine) where
  follows := by
    intro s t a s' h _ hmine hstep
    cases a with
    | work i w =>
      have hi : mine i := hmine
      obtain ⟨c, rest, r, u, hp, hexec, rfl⟩ := Pool.step_work_iff.mp hstep
      obtain ⟨r', v, hexec', hrel, hsame, hrest⟩ := h.own i _ hi hp w _ _ r u h.shared hexec
      have hp' := (h.same i hi).symm.trans hp
      refine ⟨_, Pool.step_work_iff.mpr ⟨c, rest, r', v, hp', hexec', rfl⟩, hrel, ?_, ?_, ?_⟩
      · intro j hj
        by_cases hij : i = j
        · subst hij
          rw [List.getElem?_set_self (List.getElem?_eq_some_iff.mp hp).1,
            List.getElem?_set_self (List.getElem?_eq_some_iff.mp hp').1, hsame]
        · rw [List.getElem?_set_ne hij, List.getElem?_set_ne hij]
          exact h.same j hj
      · intro j p hj hjp
        by_cases hij : i = j
        · subst hij
          rw [List.getElem?_set_self (List.getElem?_eq_some_iff.mp hp).1] at hjp
          obtain rfl := Option.some.inj hjp
          exact hrest
        · rw [List.getElem?_set_ne hij] at hjp
          exact h.own j p hj hjp
      · intro j p hj hjp
        have hij : i ≠ j := fun heq => hj (heq ▸ hi)
        rw [List.getElem?_set_ne hij] at hjp
        exact h.others j p hj hjp
    | other e =>
      obtain ⟨u, hu, rfl⟩ := Pool.step_other_iff.mp hstep
      obtain ⟨v, hv, hrel⟩ := hdisturb e _ _ u h.shared hu
      exact ⟨_, Pool.step_other_iff.mpr ⟨v, hv, rfl⟩, hrel, h.same, h.own, h.others⟩
  hides := by
    intro s t a s' h _ hmine hstep
    cases a with
    | other e => exact absurd trivial hmine
    | work i w =>
      have hi : ¬ mine i := hmine
      obtain ⟨c, rest, r, u, hp, hexec, rfl⟩ := Pool.step_work_iff.mp hstep
      obtain ⟨hrel, hrest⟩ := h.others i _ hi hp w _ t.shared r u h.shared hexec
      refine ⟨hrel, ?_, ?_, ?_⟩
      · intro j hj
        have hij : i ≠ j := fun heq => hi (heq ▸ hj)
        rw [List.getElem?_set_ne hij]
        exact h.same j hj
      · intro j p hj hjp
        have hij : i ≠ j := fun heq => hi (heq ▸ hj)
        rw [List.getElem?_set_ne hij] at hjp
        exact h.own j p hj hjp
      · intro j p hj hjp
        by_cases hij : i = j
        · subst hij
          rw [List.getElem?_set_self (List.getElem?_eq_some_iff.mp hp).1] at hjp
          obtain rfl := Option.some.inj hjp
          exact hrest
        · rw [List.getElem?_set_ne hij] at hjp
          exact h.others j p hj hjp

end Pools

end Unwinding

/-! ## More commands -/

namespace Script

variable {C D : Type} {R : C → Type} {Q : D → Type} {ε α β : Type} (f : C → D)
  (reply : ∀ c, Q (f c) = R c)

/-- The script with each command under its name in a larger set. -/
def embed : Script R ε α → Script Q ε α
  | .pure a => .pure a
  | .raise e => .raise e
  | .call c rest => .call (f c) fun r => (rest (cast (reply c) r)).embed

theorem embed_bind (p : Script R ε α) (g : α → Script R ε β) :
    (p.bind g).embed f reply = (p.embed f reply).bind fun a => (g a).embed f reply := by
  induction p with
  | pure a => rfl
  | raise e => rfl
  | call c rest ih => exact congrArg (Script.call (f c)) (funext fun r => ih _)

/-- A logic of the larger set of commands, for scripts of the smaller one. -/
def embedded (L : ProgramLogic (Script Q ε)) : ProgramLogic (Script R ε) where
  Holds post p := L.Holds post (p.embed f reply)
  pure h := L.pure h
  bind := by
    intro β γ post last p g hp hg
    show L.Holds last ((p.bind g).embed f reply)
    rw [embed_bind]
    exact L.bind hp hg

end Script

end LlmService
