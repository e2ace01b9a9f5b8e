import Mathlib.Data.List.Infix

/-!
# The longest part of a list that fits

Cutting a list of units down, from its front or from its end, until what is
left fits: the result is the longest tail, or the longest head, that does.
-/

namespace LlmService

variable {α : Type} {fits : List α → Prop} {l : List α}

/-- `tail` is the longest tail of `l` that fits. -/
structure LongestTail (fits : List α → Prop) (l tail : List α) : Prop where
  isSuffix : tail <:+ l
  fit : fits tail
  longest : ∀ other, other <:+ l → fits other → other.length ≤ tail.length

/-- `head` is the longest head of `l` that fits. -/
structure LongestHead (fits : List α → Prop) (l head : List α) : Prop where
  isPrefix : head <+: l
  fit : fits head
  longest : ∀ other, other <+: l → fits other → other.length ≤ head.length

theorem LongestTail.unique {tail tail' : List α} (h : LongestTail fits l tail)
    (h' : LongestTail fits l tail') : tail = tail' := by
  have hle := h'.longest tail h.isSuffix h.fit
  have hge := h.longest tail' h'.isSuffix h'.fit
  exact (List.suffix_of_suffix_length_le h.isSuffix h'.isSuffix hle).eq_of_length
    (Nat.le_antisymm hle hge)

theorem LongestHead.unique {head head' : List α} (h : LongestHead fits l head)
    (h' : LongestHead fits l head') : head = head' := by
  have hle := h'.longest head h.isPrefix h.fit
  have hge := h.longest head' h'.isPrefix h'.fit
  exact (List.prefix_of_prefix_length_le h.isPrefix h'.isPrefix hle).eq_of_length
    (Nat.le_antisymm hle hge)

/-- A list that fits is its own longest tail. -/
theorem LongestTail.self (h : fits l) : LongestTail fits l l :=
  ⟨List.suffix_rfl, h, fun _ hother _ => hother.length_le⟩

/-- The first unit of a list that does not fit goes. -/
theorem LongestTail.cons {x : α} {tail : List α} (hover : ¬ fits (x :: l))
    (h : LongestTail fits l tail) : LongestTail fits (x :: l) tail where
  isSuffix := h.isSuffix.trans (List.suffix_cons x l)
  fit := h.fit
  longest := by
    intro other hother hfits
    rcases List.suffix_cons_iff.mp hother with rfl | hother
    · exact absurd hfits hover
    · exact h.longest other hother hfits

/-- A loop that takes the first unit off while the rest costs too much. -/
theorem longestTail_of_loop {loop : List α → List α} {cost : List α → Nat} {target : Nat}
    (hnil : loop [] = [])
    (hcons : ∀ x l, loop (x :: l) = if target < cost (x :: l) then loop l else x :: l)
    (l : List α) : LongestTail (fun l => l = [] ∨ cost l ≤ target) l (loop l) := by
  induction l with
  | nil =>
    rw [hnil]
    exact .self (.inl rfl)
  | cons x l ih =>
    rw [hcons]
    by_cases hover : target < cost (x :: l)
    · rw [if_pos hover]
      refine .cons ?_ ih
      simpa using hover
    · rw [if_neg hover]
      exact .self (.inr (not_lt.mp hover))

end LlmService
