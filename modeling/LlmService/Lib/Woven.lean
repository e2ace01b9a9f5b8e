import Mathlib.Data.List.Infix
import LlmService.Lib.Replace

/-!
# What removing parts of a text puts together

Removing a part joins what stood around it. A text is left exactly when the
whole had it with the removed pieces woven in between its items; this is the
inductive relation `Woven`, for one removal and for two in a row.
-/

namespace LlmService

/-- `w` is `t` with pieces in front of its items. -/
inductive Woven {α : Type} (piece : List α → Prop) : List α → List α → Prop
  | last (c : α) : Woven piece [c] [c]
  | item (c : α) {t w : List α} : Woven piece t w → Woven piece (c :: t) (c :: w)
  | insert {p t w : List α} : piece p → Woven piece t w → Woven piece t (p ++ w)

section Woven

variable {α : Type} {piece : List α → Prop} {t u v w : List α} {a x : α}

theorem Woven.ne_nil (h : Woven piece t w) : t ≠ [] := by
  induction h with
  | last c => exact List.cons_ne_nil c []
  | item c _ _ => exact List.cons_ne_nil c _
  | insert _ _ ih => exact ih

theorem Woven.whole_ne_nil (h : Woven piece t w) : w ≠ [] := by
  induction h with
  | last c => exact List.cons_ne_nil c []
  | item c _ _ => exact List.cons_ne_nil c _
  | insert _ _ ih => exact List.append_ne_nil_of_right_ne_nil _ ih

theorem Woven.mono {other : List α → Prop} (hpiece : ∀ p, piece p → other p)
    (h : Woven piece t w) : Woven other t w := by
  induction h with
  | last c => exact .last c
  | item c _ ih => exact .item c ih
  | insert hp _ ih => exact .insert (hpiece _ hp) ih

theorem Woven.append {b : List α} (h : Woven piece u w) (hv : Woven piece v b) :
    Woven piece (u ++ v) (w ++ b) := by
  induction h with
  | last c => exact .item c hv
  | item c _ ih => exact .item c ih
  | insert hp _ ih =>
    rw [List.append_assoc]
    exact .insert hp ih

/-- A text that is woven from two parts is cut between them. -/
theorem Woven.split (h : Woven piece (u ++ v) w) (hu : u ≠ []) (hv : v ≠ []) :
    ∃ a b, w = a ++ b ∧ Woven piece u a ∧ Woven piece v b := by
  generalize htext : u ++ v = text at h
  induction h generalizing u with
  | last c =>
    have hlength := congrArg List.length htext
    have hupos := List.length_pos_iff.mpr hu
    have hvpos := List.length_pos_iff.mpr hv
    rw [List.length_append, List.length_singleton] at hlength
    omega
  | @item c rest w' hrest ih =>
    cases u with
    | nil => exact absurd rfl hu
    | cons d u =>
      obtain ⟨rfl, htail⟩ := List.cons.inj htext
      by_cases hnil : u = []
      · subst hnil
        refine ⟨[d], w', rfl, .last d, ?_⟩
        rw [show v = rest from htail]
        exact hrest
      · obtain ⟨a, b, rfl, ha, hb⟩ := ih hnil htail
        exact ⟨d :: a, b, rfl, .item d ha, hb⟩
  | @insert p rest w' hp _ ih =>
    obtain ⟨a, b, rfl, ha, hb⟩ := ih hu htext
    exact ⟨p ++ a, b, by rw [List.append_assoc], .insert hp ha, hb⟩

/-- A woven text begins with its first item or with a piece. -/
theorem Woven.head (h : Woven piece (x :: t) w) (hpiece : ∀ p, piece p → p.head? = some a) :
    w.head? = some x ∨ w.head? = some a := by
  generalize htext : x :: t = text at h
  induction h with
  | last c =>
    obtain ⟨rfl, -⟩ := List.cons.inj htext
    exact .inl rfl
  | item c _ _ =>
    obtain ⟨rfl, -⟩ := List.cons.inj htext
    exact .inl rfl
  | insert hp _ _ =>
    refine .inr ?_
    rw [List.head?_append, hpiece _ hp]
    rfl

/-- Pieces begin with an item that the text has not: where it is found whole,
none was woven in. -/
theorem Woven.eq_of_isPrefix (h : Woven piece t w) (hpiece : ∀ p, piece p → p.head? = some a)
    (ha : a ∉ t) {rest : List α} (hbegins : t <+: w ++ rest) : w = t := by
  induction h with
  | last c => rfl
  | item c _ ih =>
    rw [ih (List.not_mem_of_not_mem_cons ha) (List.cons_prefix_cons.mp hbegins).2]
  | @insert p t w' hp hrest _ =>
    obtain ⟨q, rfl⟩ := List.head?_eq_some_iff.mp (hpiece p hp)
    cases t with
    | nil => exact absurd rfl hrest.ne_nil
    | cons x t =>
      have hx : x = a := (List.cons_prefix_cons.mp hbegins).1
      exact absurd (hx ▸ List.mem_cons_self) ha

/-- Weaving twice: pieces may themselves have pieces woven in. -/
theorem Woven.trans {other both : List α → Prop} (hinner : ∀ p, piece p → both p)
    (houter : ∀ p q, other p → Woven piece p q → both q) (hne : ∀ p, other p → p ≠ [])
    (h : Woven other t u) (hw : Woven piece u w) : Woven both t w := by
  induction h generalizing w with
  | last c => exact hw.mono hinner
  | item c hrest ih =>
    obtain ⟨a, b, rfl, ha, hb⟩ :=
      Woven.split (u := [c]) hw (List.cons_ne_nil c []) hrest.whole_ne_nil
    exact (ha.mono hinner).append (ih hb)
  | insert hp hrest ih =>
    obtain ⟨a, b, rfl, ha, hb⟩ := hw.split (hne _ hp) hrest.whole_ne_nil
    exact .insert (houter _ _ hp ha) (ih hb)

/-- The text has `d` with pieces woven in between its items. -/
def Nested (piece : List α → Prop) (d text : List α) : Prop :=
  ∃ a t w, d = a :: t ∧ Woven piece t w ∧ w ≠ t ∧ a :: w <:+: text

theorem nested_cons_iff {text : List α} :
    Nested piece (a :: t) text ↔ ∃ w, Woven piece t w ∧ w ≠ t ∧ a :: w <:+: text := by
  constructor
  · rintro ⟨b, t', w, hd, hw⟩
    obtain ⟨rfl, rfl⟩ := List.cons.inj hd
    exact ⟨w, hw⟩
  · rintro ⟨w, hw⟩
    exact ⟨a, t, w, rfl, hw⟩

/-- What vanishes when first `first` is removed and then `second`: a copy of
`first`, or one of `second` with copies of `first` woven in. -/
def Vanishing (first second p : List α) : Prop := p = first ∨ Woven (· = first) second p

theorem Vanishing.head {first second p : List α} (h : Vanishing first second p)
    (hfirst : first.head? = some a) (hsecond : second.head? = some a) : p.head? = some a := by
  rcases h with rfl | hwoven
  · exact hfirst
  · obtain ⟨rest, rfl⟩ := List.head?_eq_some_iff.mp hsecond
    have hp := hwoven.head (fun q hq => hq ▸ hfirst)
    rwa [or_self] at hp

end Woven

section Remove

variable {α : Type} [DecidableEq α] {a x y : α} {d t w text : List α}

/-- The scan comes to every place whose item stands nowhere behind the part's
first: no occurrence runs over it. -/
theorem replaceAll_reach (new : List α) (ha : a ∉ d.tail) (hd : d ≠ [])
    (before rest : List α) :
    ∃ u, replaceAll d new (before ++ a :: rest) = u ++ replaceAll d new (a :: rest) := by
  generalize htext : before ++ a :: rest = text
  induction text using replaceAll_induction hd generalizing before with
  | nil => exact absurd htext (by simp)
  | hit after ih =>
    cases before with
    | nil => exact ⟨[], by rw [← htext]; rfl⟩
    | cons c before =>
      rcases List.append_eq_append_iff.mp htext with ⟨e, he, hafter⟩ | ⟨e, he, hafter⟩
      · -- the occurrence ends behind the place
        cases e with
        | nil =>
          obtain ⟨u, hu⟩ := ih [] hafter
          rw [List.append_nil] at he
          exact ⟨new ++ u, by rw [replaceAll_hit hd, hu, List.append_assoc]⟩
        | cons b e =>
          have hab : a = b := (List.cons.inj hafter).1
          rw [he, hab] at ha
          exact absurd (by simp) ha
      · obtain ⟨u, hu⟩ := ih e hafter.symm
        exact ⟨new ++ u, by rw [replaceAll_hit hd, hu, List.append_assoc]⟩
  | keep c after hthere ih =>
    cases before with
    | nil => exact ⟨[], by rw [← htext]; rfl⟩
    | cons b before =>
      obtain ⟨rfl, hafter⟩ := List.cons.inj htext
      obtain ⟨u, hu⟩ := ih before hafter
      exact ⟨b :: u, by rw [replaceAll_keep hthere, hu, List.cons_append]⟩

/-- What begins the result was woven from copies of the part. -/
theorem exists_woven_of_isPrefix (hd : d ≠ []) (ht : t ≠ []) (h : t <+: replaceAll d [] text) :
    ∃ w, Woven (· = d) t w ∧ w <+: text := by
  induction text using replaceAll_induction hd generalizing t with
  | nil => exact absurd (List.prefix_nil.mp h) ht
  | hit rest ih =>
    rw [replaceAll_hit hd, List.nil_append] at h
    obtain ⟨w, hw, hbegins⟩ := ih ht h
    exact ⟨d ++ w, .insert rfl hw, (List.prefix_append_right_inj d).mpr hbegins⟩
  | keep c rest hthere ih =>
    rw [replaceAll_keep hthere] at h
    cases t with
    | nil => exact absurd rfl ht
    | cons b t =>
      obtain ⟨rfl, htail⟩ := List.cons_prefix_cons.mp h
      by_cases hnil : t = []
      · subst hnil
        exact ⟨[b], .last b, ⟨rest, rfl⟩⟩
      · obtain ⟨w, hw, hbegins⟩ := ih hnil htail
        exact ⟨b :: w, .item b hw, List.cons_prefix_cons.mpr ⟨rfl, hbegins⟩⟩

/-- What is in the result was woven, and the part does not stand at its beginning. -/
theorem exists_woven_of_infix (hd : d ≠ []) (ht : t ≠ [])
    (h : a :: t <:+: replaceAll d [] text) :
    ∃ w, Woven (· = d) t w ∧ ¬ d <+: a :: w ∧ a :: w <:+: text := by
  induction text using replaceAll_induction hd with
  | nil => exact absurd (List.eq_nil_of_infix_nil h) (List.cons_ne_nil a t)
  | hit rest ih =>
    rw [replaceAll_hit hd, List.nil_append] at h
    obtain ⟨w, hw, hnot, hthere⟩ := ih h
    exact ⟨w, hw, hnot, hthere.trans (List.suffix_append d rest).isInfix⟩
  | keep c rest hkept ih =>
    rw [replaceAll_keep hkept] at h
    rcases List.infix_cons_iff.mp h with hbegins | hlater
    · obtain ⟨rfl, htail⟩ := List.cons_prefix_cons.mp hbegins
      obtain ⟨w, hw, hrest⟩ := exists_woven_of_isPrefix hd ht htail
      have hcons : a :: w <+: a :: rest := List.cons_prefix_cons.mpr ⟨rfl, hrest⟩
      exact ⟨w, hw, fun h => hkept (h.trans hcons), hcons.isInfix⟩
    · obtain ⟨w, hw, hnot, hthere⟩ := ih hlater
      exact ⟨w, hw, hnot, hthere.trans (List.suffix_cons c rest).isInfix⟩

/-- The copies of the part that were woven in are removed. -/
theorem replaceAll_woven (hd : d.head? = some a) (ha : a ∉ t) (h : Woven (· = d) t w)
    (rest : List α) : replaceAll d [] (w ++ rest) = t ++ replaceAll d [] rest := by
  obtain ⟨d', rfl⟩ := List.head?_eq_some_iff.mp hd
  have hkeep : ∀ c tail, c ≠ a → ¬ a :: d' <+: c :: tail :=
    fun c tail hc h => hc (List.cons_prefix_cons.mp h).1.symm
  induction h with
  | last c =>
    have hc : c ≠ a := fun h => ha (h ▸ List.mem_cons_self)
    exact replaceAll_keep (hkeep c rest hc)
  | item c _ ih =>
    have hc : c ≠ a := fun h => ha (h ▸ List.mem_cons_self)
    rw [List.cons_append, replaceAll_keep (hkeep c _ hc),
      ih (List.not_mem_of_not_mem_cons ha), List.cons_append]
  | insert hp _ ih =>
    subst hp
    rw [List.append_assoc, replaceAll_hit (List.cons_ne_nil a d'), ih ha, List.nil_append]

/-- Where the part does not stand itself, what was woven from copies of it is left. -/
theorem infix_replaceAll_of_woven (hd : d.head? = some a) (had : a ∉ d.tail) (ha : a ∉ t)
    (h : Woven (· = d) t w) (hkept : ∀ rest, ¬ d <+: a :: (w ++ rest))
    (hthere : a :: w <:+: text) : a :: t <:+: replaceAll d [] text := by
  have hne : d ≠ [] := by
    rintro rfl
    cases hd
  obtain ⟨before, rest, rfl⟩ := hthere
  rw [List.append_assoc, List.cons_append]
  obtain ⟨u, hu⟩ := replaceAll_reach [] had hne before (w ++ rest)
  rw [hu, replaceAll_keep (hkept rest), replaceAll_woven hd ha h]
  exact ⟨u, replaceAll d [] rest, by simp⟩

/-- A part is left of its own removal exactly when the text has it with copies
of it woven in. -/
theorem infix_remove_iff (ht : t ≠ []) (ha : a ∉ t) :
    a :: t <:+: replaceAll (a :: t) [] text ↔ Nested (· = a :: t) (a :: t) text := by
  rw [nested_cons_iff]
  have hhead : ∀ p, p = a :: t → p.head? = some a := fun p hp => hp ▸ rfl
  constructor
  · intro h
    obtain ⟨w, hw, hnot, hthere⟩ := exists_woven_of_infix (List.cons_ne_nil a t) ht h
    exact ⟨w, hw, fun h => hnot (h ▸ List.prefix_rfl), hthere⟩
  · rintro ⟨w, hw, hne, hthere⟩
    refine infix_replaceAll_of_woven rfl ha ha hw (fun rest hbegins => ?_) hthere
    exact hne (hw.eq_of_isPrefix hhead ha (List.cons_prefix_cons.mp hbegins).2)

/-! ## Two removals in a row -/

/-- A copy of the second part loses what was woven into it in the first removal. -/
theorem replaceAll_woven_second {first' second' p : List α} (hxa : x ≠ a) (hxy : x ≠ y)
    (hsecond : a ∉ y :: second') (h : Woven (· = a :: x :: first') (a :: y :: second') p)
    (rest : List α) :
    replaceAll (a :: x :: first') [] (p ++ rest)
      = a :: y :: second' ++ replaceAll (a :: x :: first') [] rest := by
  generalize htext : a :: y :: second' = second at h
  induction h with
  | last c => exact absurd (List.cons.inj htext).2 (List.cons_ne_nil y second')
  | @item c tail p' hp' _ =>
    obtain ⟨rfl, rfl⟩ := List.cons.inj htext
    have hkept : ¬ a :: x :: first' <+: a :: (p' ++ rest) := by
      intro h
      obtain ⟨after, hafter⟩ := (List.cons_prefix_cons.mp h).2
      have hfirst : (p' ++ rest).head? = some x := by rw [← hafter]; rfl
      rcases hp'.head (a := a) (fun p hp => hp ▸ rfl) with hhead | hhead
      · rw [List.head?_append, hhead] at hfirst
        exact hxy (Option.some.inj hfirst).symm
      · rw [List.head?_append, hhead] at hfirst
        exact hxa (Option.some.inj hfirst).symm
    rw [List.cons_append, replaceAll_keep hkept, replaceAll_woven rfl hsecond hp']
    rfl
  | insert hp _ ih =>
    subst hp
    rw [List.append_assoc, replaceAll_hit (List.cons_ne_nil a _), ih htext, List.nil_append]

/-- The first removal leaves the copies of the second part. -/
theorem replaceAll_woven_first {first' second' : List α} (hxa : x ≠ a) (hxy : x ≠ y)
    (hsecond : a ∉ y :: second') (ha : a ∉ t)
    (h : Woven (Vanishing (a :: x :: first') (a :: y :: second')) t w) :
    ∃ w', Woven (· = a :: y :: second') t w' ∧ ∀ rest,
      replaceAll (a :: x :: first') [] (w ++ rest)
        = w' ++ replaceAll (a :: x :: first') [] rest := by
  have hkeep : ∀ c tail, c ≠ a → ¬ a :: x :: first' <+: c :: tail :=
    fun c tail hc h => hc (List.cons_prefix_cons.mp h).1.symm
  induction h with
  | last c =>
    have hc : c ≠ a := fun h => ha (h ▸ List.mem_cons_self)
    exact ⟨[c], .last c, fun rest => replaceAll_keep (hkeep c rest hc)⟩
  | item c _ ih =>
    have hc : c ≠ a := fun h => ha (h ▸ List.mem_cons_self)
    obtain ⟨w', hw', hrest⟩ := ih (List.not_mem_of_not_mem_cons ha)
    refine ⟨c :: w', .item c hw', fun rest => ?_⟩
    rw [List.cons_append, replaceAll_keep (hkeep c _ hc), hrest, List.cons_append]
  | insert hp _ ih =>
    obtain ⟨w', hw', hrest⟩ := ih ha
    rcases hp with rfl | hp
    · refine ⟨w', hw', fun rest => ?_⟩
      rw [List.append_assoc, replaceAll_hit (List.cons_ne_nil a _), hrest, List.nil_append]
    · refine ⟨a :: y :: second' ++ w', .insert rfl hw', fun rest => ?_⟩
      rw [List.append_assoc, replaceAll_woven_second hxa hxy hsecond hp, hrest,
        List.append_assoc]

/-- The first part is left of both removals exactly when the text has it with
vanishing pieces woven in. -/
theorem infix_remove_both_iff {first' second' : List α} (hxy : x ≠ y) (hfirst : a ∉ x :: first')
    (hsecond : a ∉ y :: second') :
    a :: x :: first' <:+: replaceAll (a :: y :: second') [] (replaceAll (a :: x :: first') [] text)
      ↔ Nested (Vanishing (a :: x :: first') (a :: y :: second')) (a :: x :: first') text := by
  rw [nested_cons_iff]
  have hxa : x ≠ a := fun h => hfirst (h ▸ List.mem_cons_self)
  constructor
  · intro h
    obtain ⟨w', hw', -, hthere'⟩ :=
      exists_woven_of_infix (List.cons_ne_nil a _) (List.cons_ne_nil x first') h
    obtain ⟨w, hw, hnot, hthere⟩ :=
      exists_woven_of_infix (List.cons_ne_nil a _) hw'.whole_ne_nil hthere'
    refine ⟨w, ?_, fun h => hnot (h ▸ List.prefix_rfl), hthere⟩
    refine Woven.trans (fun p hp => .inl hp) (fun p q hp hq => ?_) ?_ hw' hw
    · exact .inr (hp ▸ hq)
    · rintro p rfl
      exact List.cons_ne_nil a _
  · rintro ⟨w, hw, hne, before, rest, rfl⟩
    obtain ⟨w', hw', hrest⟩ := replaceAll_woven_first hxa hxy hsecond hfirst hw
    have hkept : ¬ a :: x :: first' <+: a :: (w ++ rest) := by
      intro h
      exact hne (hw.eq_of_isPrefix (fun p hp => hp.head rfl rfl) hfirst
        (List.cons_prefix_cons.mp h).2)
    refine infix_replaceAll_of_woven rfl hsecond hfirst hw' (fun after h => ?_) ?_
    · -- the woven text goes on with its own second item or with a copy
      obtain ⟨more, hmore⟩ := (List.cons_prefix_cons.mp h).2
      have hy : (w' ++ after).head? = some y := by rw [← hmore]; rfl
      rcases hw'.head (a := a) (fun p hp => hp ▸ rfl) with hhead | hhead
      · rw [List.head?_append, hhead] at hy
        exact hxy (Option.some.inj hy)
      · rw [List.head?_append, hhead] at hy
        exact hsecond (Option.some.inj hy ▸ List.mem_cons_self)
    · rw [List.append_assoc, List.cons_append]
      obtain ⟨u, hu⟩ := replaceAll_reach [] (d := a :: x :: first') hfirst
        (List.cons_ne_nil a _) before (w ++ rest)
      rw [hu, replaceAll_keep hkept, hrest]
      exact ⟨u, replaceAll (a :: x :: first') [] rest, by simp⟩

end Remove

end LlmService
