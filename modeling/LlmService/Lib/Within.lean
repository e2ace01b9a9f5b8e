import Mathlib.Data.List.Forall2
import Mathlib.Order.Defs.Unbundled

/-!
# What a program changes

`EStateM` programs, whose state survives an exception. `Within R x` says that
`x`, whether it returns or raises, ends in a state that `R` relates to the
one it started in. For a preorder `R` the rules follow the structure of the
program.
-/

namespace LlmService

variable {ε σ α β : Type}

/-- A sequence of two parts succeeds exactly if both do. -/
theorem except_bind_eq_ok {x : Except ε α} {f : α → Except ε β} {b : β} :
    x >>= f = .ok b ↔ ∃ a, x = .ok a ∧ f a = .ok b := by
  cases x with
  | error e => simp [Bind.bind, Except.bind]
  | ok a => simp [Bind.bind, Except.bind]

theorem except_map_eq_ok {x : Except ε α} {f : α → β} {b : β} :
    x.map f = .ok b ↔ ∃ a, x = .ok a ∧ f a = b := by
  cases x with
  | error e => simp [Except.map]
  | ok a => simp [Except.map]

theorem except_mapError_eq_ok {ε' : Type} {x : Except ε α} {f : ε → ε'} {a : α} :
    x.mapError f = .ok a ↔ x = .ok a := by
  cases x with
  | error e => simp [Except.mapError]
  | ok a => simp [Except.mapError]

/-- A computation over a list succeeds exactly if it does at each item. -/
theorem mapM_eq_ok_iff {f : α → Except ε β} {xs : List α} {ys : List β} :
    xs.mapM f = .ok ys ↔ List.Forall₂ (fun x y => f x = .ok y) xs ys := by
  induction xs generalizing ys with
  | nil =>
    rw [List.mapM_nil, List.forall₂_nil_left_iff]
    constructor
    · rintro ⟨⟩
      rfl
    · rintro rfl
      rfl
  | cons x xs ih =>
    rw [List.mapM_cons, except_bind_eq_ok]
    constructor
    · rintro ⟨y, hy, hrest⟩
      obtain ⟨ys', hys, hpure⟩ := except_bind_eq_ok.mp hrest
      obtain rfl := Except.ok.inj hpure
      exact .cons hy (ih.mp hys)
    · intro h
      cases h with
      | @cons _ y _ ys hy hrest =>
        exact ⟨y, hy, except_bind_eq_ok.mpr ⟨ys, ih.mpr hrest, rfl⟩⟩

/-- What is computed from a result says that there is one. -/
theorem exists_ok_of_map {x : Except ε α} {g : α → β} {b : β}
    (h : x.toOption.map g = some b) : ∃ a, x = .ok a ∧ g a = b := by
  cases x with
  | error e => cases h
  | ok a => exact ⟨a, rfl, Option.some.inj h⟩

theorem eq_ok_of_toOption {x : Except ε α} {a : α} (h : x.toOption = some a) : x = .ok a := by
  cases x with
  | error e => cases h
  | ok b => exact congrArg Except.ok (Option.some.inj h)

/-- The state in which a program ends. -/
def endState : EStateM.Result ε σ α → σ
  | .ok _ s => s
  | .error _ s => s

@[simp] theorem endState_ok (a : α) (s : σ) :
    endState (.ok a s : EStateM.Result ε σ α) = s := rfl

@[simp] theorem endState_error (e : ε) (s : σ) :
    endState (.error e s : EStateM.Result ε σ α) = s := rfl

theorem run_tryCatch (x : EStateM ε σ α) (handle : ε → EStateM ε σ α) (s : σ) :
    (tryCatch x handle).run s =
      match x.run s with
      | .ok a t => .ok a t
      | .error e t => (handle e).run t := by
  show EStateM.tryCatch x handle s = _
  unfold EStateM.tryCatch EStateM.run
  cases x s <;> rfl

theorem run_throw (e : ε) (s : σ) :
    (throw e : EStateM ε σ α).run s = .error e s := rfl

theorem run_ofExcept (x : Except ε α) (s : σ) :
    (ofExcept x : EStateM ε σ α).run s =
      match x with
      | .ok a => .ok a s
      | .error e => .error e s := by
  cases x <;> rfl

/-- A handler sees what follows a part that has returned. -/
theorem run_tryCatch_bind_of_ok {x : EStateM ε σ α} {f : α → EStateM ε σ β}
    {handle : ε → EStateM ε σ β} {s t : σ} {a : α} (h : x.run s = .ok a t) :
    (tryCatch (x >>= f) handle).run s = (tryCatch (f a) handle).run t := by
  simp only [run_tryCatch, EStateM.run_bind, h]

theorem run_tryCatch_bind_of_error {x : EStateM ε σ α} {f : α → EStateM ε σ β}
    {handle : ε → EStateM ε σ β} {s t : σ} {e : ε} (h : x.run s = .error e t) :
    (tryCatch (x >>= f) handle).run s = (handle e).run t := by
  simp only [run_tryCatch, EStateM.run_bind, h]

/-- Whatever `x` does, it ends in a state related to the first one. -/
def Within (R : σ → σ → Prop) (x : EStateM ε σ α) : Prop :=
  ∀ s, R s (endState (x.run s))

namespace Within

variable {R : σ → σ → Prop} {x : EStateM ε σ α} {s t : σ}

theorem of_ok {a : α} (h : Within R x) (hx : x.run s = .ok a t) : R s t := by
  have hs := h s
  rwa [hx] at hs

theorem of_error {e : ε} (h : Within R x) (hx : x.run s = .error e t) : R s t := by
  have hs := h s
  rwa [hx] at hs

theorem modifyState {f : σ → σ} (h : ∀ s, R s (f s)) :
    Within R (modify f : EStateM ε σ PUnit) := h

variable [IsPreorder σ R]

theorem returns (a : α) : Within R (pure a : EStateM ε σ α) := fun s => refl_of R s

theorem raises (e : ε) : Within R (throw e : EStateM ε σ α) := fun s => refl_of R s

theorem reads : Within R (get : EStateM ε σ σ) := fun s => refl_of R s

theorem bind {f : α → EStateM ε σ β} (hx : Within R x) (hf : ∀ a, Within R (f a)) :
    Within R (x >>= f) := by
  intro s
  rw [EStateM.run_bind]
  cases hrun : x.run s with
  | ok a t => exact trans_of R (hx.of_ok hrun) (hf a t)
  | error e t => exact hx.of_error hrun

end Within

end LlmService
