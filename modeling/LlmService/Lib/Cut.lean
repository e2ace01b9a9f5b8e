import Mathlib.Data.List.Infix

/-!
# Cutting a text at a separator

`cut` is `str.partition`: a text is cut at the first occurrence of a separator.
-/

namespace LlmService

variable {α : Type} [DecidableEq α]

/-- What is before the first occurrence of `sep`, and what is behind it. -/
def cut (sep : List α) : List α → Option (List α × List α)
  | [] => if sep = [] then some ([], []) else none
  | c :: text =>
    if sep <+: c :: text then some ([], (c :: text).drop sep.length)
    else (cut sep text).map fun parts => (c :: parts.1, parts.2)

variable {sep text a b : List α}

theorem cut_hit (rest : List α) : cut sep (sep ++ rest) = some ([], rest) := by
  cases hsep : sep ++ rest with
  | nil =>
    obtain ⟨rfl, rfl⟩ := List.append_eq_nil_iff.mp hsep
    rfl
  | cons c text =>
    rw [cut, if_pos (hsep ▸ List.prefix_append sep rest), ← hsep, List.drop_left]

/-- A text is cut at an occurrence, if there is none that begins before it. -/
theorem cut_append (h : ¬ sep <:+: a ++ sep.dropLast) (rest : List α) :
    cut sep (a ++ (sep ++ rest)) = some (a, rest) := by
  induction a with
  | nil => exact cut_hit rest
  | cons c a ih =>
    have hlater : ¬ sep <:+: a ++ sep.dropLast :=
      fun hinside => h (hinside.trans (List.suffix_cons c _).isInfix)
    have hhere : ¬ sep <+: c :: (a ++ (sep ++ rest)) := by
      intro hprefix
      have hlen : sep.length ≤ (c :: a ++ sep.dropLast).length := by
        simp only [List.length_append, List.length_cons, List.length_dropLast]
        omega
      have hbefore : c :: a ++ sep.dropLast <+: c :: (a ++ (sep ++ rest)) := by
        rw [← List.cons_append, List.prefix_append_right_inj]
        exact (List.dropLast_prefix sep).trans (List.prefix_append sep rest)
      exact h (List.prefix_of_prefix_length_le hprefix hbefore hlen).isInfix
    rw [List.cons_append, cut, if_neg hhere, ih hlater]
    rfl

theorem cut_eq_some (h : cut sep text = some (a, b)) : text = a ++ (sep ++ b) := by
  induction text generalizing a with
  | nil =>
    by_cases hsep : sep = []
    · rw [cut, if_pos hsep] at h
      obtain ⟨rfl, rfl⟩ := Prod.mk.inj (Option.some.inj h)
      rw [hsep]
      rfl
    · rw [cut, if_neg hsep] at h
      cases h
  | cons c text ih =>
    by_cases hprefix : sep <+: c :: text
    · rw [cut, if_pos hprefix] at h
      obtain ⟨rfl, rfl⟩ := Prod.mk.inj (Option.some.inj h)
      exact (List.prefix_append_drop hprefix)
    · rw [cut, if_neg hprefix] at h
      obtain ⟨parts, hparts, heq⟩ := Option.map_eq_some_iff.mp h
      obtain ⟨rfl, rfl⟩ := Prod.mk.inj heq
      rw [ih hparts]
      rfl

end LlmService
