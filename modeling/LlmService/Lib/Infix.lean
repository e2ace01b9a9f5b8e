import Mathlib.Data.List.TakeWhile
import Mathlib.Data.List.Infix
import LlmService.Lib.PyText

/-!
# Parts of a text

Where a text that has no blank line stands in a text that is joined from
parts by blank lines: in one of the parts. Then what `strip` and `split` leave
of a text.
-/

namespace LlmService

section Infix

variable {α : Type} {x : α} {t : List α}

/-- A text that two `x` in a row neither break nor touch. -/
structure Unbroken (x : α) (t : List α) : Prop where
  ne_nil : t ≠ []
  no_pair : ¬ [x, x] <:+: t
  head : t.head? ≠ some x
  last : t.getLast? ≠ some x

theorem Unbroken.infix_append_iff (ht : Unbroken x t) (a b : List α) :
    t <:+: a ++ [x, x] ++ b ↔ t <:+: a ∨ t <:+: b := by
  constructor
  · intro h
    obtain ⟨p, q, hpq⟩ := h
    rw [List.append_assoc, List.append_assoc] at hpq
    rcases List.append_eq_append_iff.mp hpq with ⟨d, rfl, hd⟩ | ⟨d, rfl, hd⟩
    · -- `t` begins in `a`: it ends there, or runs into the separator
      rcases List.append_eq_append_iff.mp hd with ⟨e, rfl, -⟩ | ⟨e, rfl, he⟩
      · exact .inl ⟨p, e, by rw [List.append_assoc]⟩
      · cases e with
        | nil => exact .inl ⟨p, [], by simp⟩
        | cons y e =>
          simp only [List.cons_append, List.nil_append, List.cons.injEq] at he
          obtain ⟨rfl, he⟩ := he
          cases e with
          | nil => exact absurd (by simp) ht.last
          | cons z e =>
            simp only [List.cons_append, List.cons.injEq] at he
            obtain ⟨rfl, -⟩ := he
            exact absurd ⟨d, e, by simp⟩ ht.no_pair
    · -- `t` begins in the separator, or behind it
      cases t with
      | nil => exact absurd rfl ht.ne_nil
      | cons y t =>
        cases d with
        | nil =>
          simp only [List.cons_append, List.nil_append, List.cons.injEq] at hd
          obtain ⟨rfl, -⟩ := hd
          exact absurd rfl ht.head
        | cons z d =>
          cases d with
          | nil =>
            simp only [List.cons_append, List.nil_append, List.cons.injEq] at hd
            obtain ⟨-, rfl, -⟩ := hd
            exact absurd rfl ht.head
          | cons z' d =>
            simp only [List.cons_append, List.nil_append, List.cons.injEq] at hd
            obtain ⟨-, -, rfl⟩ := hd
            exact .inr ⟨d, q, by simp⟩
  · intro h
    rcases h with h | h
    · exact h.trans ⟨[], [x, x] ++ b, by simp⟩
    · exact h.trans ⟨a ++ [x, x], [], by simp⟩

theorem Unbroken.infix_intercalate_iff (ht : Unbroken x t) (parts : List (List α)) :
    t <:+: [x, x].intercalate parts ↔ ∃ part ∈ parts, t <:+: part := by
  induction parts with
  | nil =>
    simp [List.intercalate, ht.ne_nil]
  | cons part rest ih =>
    cases rest with
    | nil => simp [List.intercalate]
    | cons next rest =>
      rw [List.intercalate_cons_cons, ht.infix_append_iff, ih]
      simp

/-- A line break between two texts that it does not touch is the only one there. -/
theorem not_pair_infix_append {a b : List α} (ha : x ∉ a) (hhead : b.head? ≠ some x)
    (hb : ¬ [x, x] <:+: b) : ¬ [x, x] <:+: a ++ [x] ++ b := by
  intro h
  obtain ⟨p, q, hpq⟩ := h
  rw [List.append_assoc, List.append_assoc] at hpq
  rcases List.append_eq_append_iff.mp hpq with ⟨d, rfl, hd⟩ | ⟨d, rfl, hd⟩
  · cases d with
    | nil =>
      simp only [List.cons_append, List.nil_append, List.cons.injEq] at hd
      exact hhead (by simp [← hd.2])
    | cons y d =>
      simp only [List.cons_append, List.cons.injEq] at hd
      exact ha (by simp [hd.1])
  · cases d with
    | nil =>
      simp only [List.cons_append, List.nil_append, List.cons.injEq] at hd
      exact hhead (by simp [hd.2])
    | cons y d =>
      simp only [List.cons_append, List.nil_append, List.cons.injEq] at hd
      exact hb ⟨d, q, by simp [hd.2]⟩

/-- Lines that are not empty are not joined to a blank line. -/
theorem not_pair_infix_intercalate {lines : List (List α)}
    (h : ∀ line ∈ lines, line ≠ [] ∧ x ∉ line) :
    ¬ [x, x] <:+: [x].intercalate lines ∧ ([x].intercalate lines).head? ≠ some x := by
  induction lines with
  | nil => simp [List.intercalate]
  | cons line rest ih =>
    obtain ⟨hne, hx⟩ := h line List.mem_cons_self
    have hhead : ∀ b : List α, (line ++ b).head? ≠ some x := by
      intro b hb
      cases line with
      | nil => exact hne rfl
      | cons y line =>
        obtain rfl := Option.some.inj hb
        exact hx List.mem_cons_self
    cases rest with
    | nil =>
      rw [List.intercalate_singleton]
      refine ⟨fun hpair => hx (hpair.subset (by simp)), ?_⟩
      simpa using hhead []
    | cons next rest =>
      obtain ⟨hpair, hnext⟩ := ih fun line hline => h line (List.mem_cons_of_mem _ hline)
      rw [List.intercalate_cons_cons]
      refine ⟨not_pair_infix_append hx hnext hpair, ?_⟩
      rw [List.append_assoc]
      exact hhead _

/-- What is before the first `x`, and what is after it. -/
theorem append_cons_inj {a a' b b' : List α} (ha : x ∉ a) (ha' : x ∉ a')
    (h : a ++ x :: b = a' ++ x :: b') : a = a' ∧ b = b' := by
  induction a generalizing a' with
  | nil =>
    cases a' with
    | nil => exact ⟨rfl, (List.cons.inj h).2⟩
    | cons c a' => exact absurd ((List.cons.inj h).1 ▸ List.mem_cons_self) ha'
  | cons c a ih =>
    cases a' with
    | nil => exact absurd ((List.cons.inj h).1 ▸ List.mem_cons_self) ha
    | cons c' a' =>
      obtain ⟨rfl, hrest⟩ := List.cons.inj h
      obtain ⟨rfl, rfl⟩ := ih (fun hmem => ha (List.mem_cons_of_mem _ hmem))
        (fun hmem => ha' (List.mem_cons_of_mem _ hmem)) hrest
      exact ⟨rfl, rfl⟩

/-- What is before the first item with `p` is before every item with `p`. -/
theorem append_cons_cases {p : α → Prop} {a a' b b' : List α} {x y : α} (ha : ∀ z ∈ a, ¬ p z)
    (hy : p y) (h : a ++ x :: b = a' ++ y :: b') : (a = a' ∧ x = y) ∨ ∃ more, a' = a ++ x :: more := by
  induction a generalizing a' with
  | nil =>
    cases a' with
    | nil => exact .inl ⟨rfl, (List.cons.inj h).1⟩
    | cons c a' =>
      obtain ⟨rfl, -⟩ := List.cons.inj h
      exact .inr ⟨a', rfl⟩
  | cons c a ih =>
    cases a' with
    | nil =>
      obtain ⟨rfl, -⟩ := List.cons.inj h
      exact absurd hy (ha c List.mem_cons_self)
    | cons c' a' =>
      obtain ⟨rfl, hrest⟩ := List.cons.inj h
      rcases ih (fun z hz => ha z (List.mem_cons_of_mem _ hz)) hrest with ⟨rfl, rfl⟩ | ⟨more, rfl⟩
      · exact .inl ⟨rfl, rfl⟩
      · exact .inr ⟨more, rfl⟩

end Infix

namespace PyText

/-! ## What is left of a text -/

theorem dropEndWhile_isPrefix (p : Char → Bool) (text : List Char) : dropEndWhile p text <+: text := by
  rw [dropEndWhile, ← List.reverse_suffix, List.reverse_reverse]
  exact List.dropWhile_suffix p

theorem beforeLast_append {c : Char} {a b : List Char} (h : c ∉ b) :
    beforeLast c (a ++ c :: b) = a := by
  have hall : ∀ x ∈ b.reverse, decide (x ≠ c) = true := by
    intro x hx
    exact decide_eq_true fun hxc => h (hxc ▸ List.mem_reverse.mp hx)
  rw [beforeLast, if_pos (List.mem_append_right a List.mem_cons_self), List.reverse_append,
    List.reverse_cons, List.append_assoc, List.dropWhile_append_of_pos hall]
  simp

theorem rstrip_isPrefix (text : List Char) : rstrip text <+: text := dropEndWhile_isPrefix _ _

/-- `rstrip` takes off white space. -/
theorem exists_rstrip_append (text : List Char) :
    ∃ blank, text = rstrip text ++ blank ∧ ∀ c ∈ blank, isSpace c = true := by
  refine ⟨(text.reverse.takeWhile isSpace).reverse, ?_, ?_⟩
  · rw [rstrip, dropEndWhile, ← List.reverse_append, List.takeWhile_append_dropWhile,
      List.reverse_reverse]
  · intro c hc
    exact List.mem_takeWhile_imp (List.mem_reverse.mp hc)

theorem strip_eq_rstrip {text : List Char} (h : ∀ c ∈ text.head?, isSpace c = false) :
    strip text = rstrip text := by
  cases text with
  | nil => rfl
  | cons c rest =>
    have hc : isSpace c = false := h c rfl
    rw [strip, stripWhile, List.dropWhile_cons, hc]
    rfl

/-- What is stripped does not end in white space. -/
theorem getLast_dropEndWhile (p : Char → Bool) (text : List Char) :
    ∀ c ∈ (dropEndWhile p text).getLast?, p c = false := by
  intro c hc
  rw [dropEndWhile, List.getLast?_reverse, Option.mem_def] at hc
  have hhead := List.head?_dropWhile_not p text.reverse
  rw [hc] at hhead
  simpa using hhead

theorem dropEndWhile_eq_self {p : Char → Bool} {text : List Char}
    (h : ∀ c ∈ text.getLast?, p c = false) : dropEndWhile p text = text := by
  rw [dropEndWhile]
  cases hreverse : text.reverse with
  | nil => simpa using (List.reverse_eq_nil_iff.mp hreverse).symm
  | cons c rest =>
    have hc : p c = false := by
      apply h
      rw [← List.head?_reverse, hreverse]
      rfl
    rw [List.dropWhile_cons, hc, ← hreverse]
    exact List.reverse_reverse text

theorem dropEndWhile_eq_nil_iff {p : Char → Bool} {text : List Char} :
    dropEndWhile p text = [] ↔ ∀ c ∈ text, p c = true := by
  rw [dropEndWhile, List.reverse_eq_nil_iff, List.dropWhile_eq_nil_iff]
  simp

theorem dropEndWhile_append {p : Char → Bool} {a b : List Char} (h : dropEndWhile p b ≠ []) :
    dropEndWhile p (a ++ b) = a ++ dropEndWhile p b := by
  have hb : b.reverse.dropWhile p ≠ [] := by
    intro hnil
    apply h
    rw [dropEndWhile, hnil]
    rfl
  rw [dropEndWhile, List.reverse_append, List.dropWhile_append]
  have hempty : (b.reverse.dropWhile p).isEmpty = false := by simpa using hb
  rw [hempty]
  simp [dropEndWhile]

/-- What is left by a drop at the end stands before something that is not dropped, or is it. -/
theorem mem_dropEndWhile_iff {p : Char → Bool} {text : List Char} {c : Char} :
    c ∈ dropEndWhile p text ↔ ∃ a b, text = a ++ c :: b ∧ ∃ x ∈ c :: b, p x = false := by
  constructor
  · intro h
    obtain ⟨a, b, hsplit⟩ := List.append_of_mem h
    obtain ⟨tail, htail⟩ := dropEndWhile_isPrefix p text
    refine ⟨a, b ++ tail, ?_, ?_⟩
    · rw [← htail, hsplit]
      simp
    · have hne : c :: b ≠ [] := List.cons_ne_nil c b
      refine ⟨(c :: b).getLast hne, ?_, ?_⟩
      · rw [← List.cons_append]
        exact List.mem_append_left tail (List.getLast_mem hne)
      · apply getLast_dropEndWhile p text
        rw [hsplit, List.getLast?_append, List.getLast?_eq_some_getLast hne]
        rfl
  · rintro ⟨a, b, rfl, x, hx, hpx⟩
    have hne : dropEndWhile p (c :: b) ≠ [] := by
      intro hnil
      have := dropEndWhile_eq_nil_iff.mp hnil x hx
      rw [hpx] at this
      cases this
    rw [dropEndWhile_append hne]
    cases hkept : dropEndWhile p (c :: b) with
    | nil => exact absurd hkept hne
    | cons d rest =>
      have hprefix := dropEndWhile_isPrefix p (c :: b)
      rw [hkept] at hprefix
      obtain ⟨rfl, -⟩ := List.cons_prefix_cons.mp hprefix
      exact List.mem_append_right a List.mem_cons_self

/-- A text that ends in something else is stripped of nothing there. -/
theorem rstrip_append {a b : List Char} (h : rstrip b ≠ []) : rstrip (a ++ b) = a ++ rstrip b :=
  dropEndWhile_append h

theorem rstrip_append_of_blank {a b : List Char} (h : rstrip b = []) :
    rstrip (a ++ b) = rstrip a := by
  have hb : b.reverse.dropWhile isSpace = [] := by
    rw [rstrip, dropEndWhile, List.reverse_eq_nil_iff] at h
    exact h
  rw [rstrip, dropEndWhile, List.reverse_append, List.dropWhile_append, hb]
  rfl

/-- A part of a text, without the white space at its end, is left by `rstrip`. -/
theorem rstrip_infix_rstrip {part text : List Char} (h : part <:+: text) :
    rstrip part <:+: rstrip text := by
  obtain ⟨a, b, rfl⟩ := h
  by_cases hb : rstrip b = []
  · rw [rstrip_append_of_blank hb]
    by_cases hpart : rstrip part = []
    · rw [hpart]
      exact List.nil_infix
    · rw [rstrip_append hpart]
      exact ⟨a, [], by simp⟩
  · rw [rstrip_append hb]
    obtain ⟨rest, hrest⟩ := rstrip_isPrefix part
    refine ⟨a, rest ++ rstrip b, ?_⟩
    rw [List.append_assoc, ← List.append_assoc (rstrip part), hrest, ← List.append_assoc]

/-- A text begins with something that is not white space if what `rstrip`
leaves of it does. -/
theorem prefix_rstrip_iff {lead text : List Char} {c : Char} (hc : isSpace c = false) :
    lead ++ [c] <+: rstrip text ↔ lead ++ [c] <+: text := by
  constructor
  · intro h
    exact h.trans (rstrip_isPrefix text)
  · intro h
    obtain ⟨rest, rfl⟩ := h
    have hsingle : rstrip [c] = [c] := by simp [rstrip, dropEndWhile, hc]
    by_cases hrest : rstrip rest = []
    · rw [rstrip_append_of_blank hrest,
        rstrip_append (by rw [hsingle]; exact List.cons_ne_nil c []), hsingle]
    · rw [rstrip_append hrest]
      exact List.prefix_append _ _

theorem join_cons_cons (sep : List Char) (x : Char) (first : List Char)
    (others : List (List Char)) :
    join sep ((x :: first) :: others) = x :: join sep (first :: others) := by
  cases others with
  | nil => rw [join, join, List.intercalate_singleton, List.intercalate_singleton]
  | cons next rest =>
    rw [join, join, List.intercalate_cons_cons, List.intercalate_cons_cons]
    rfl

/-- The first lines of a text begin with `lead` and one more character if they
are more than `lead` breaks into. -/
theorem prefix_join_take_iff {sep c : Char} (hc : c ≠ sep) {lead text : List Char}
    (h : lead ++ [c] <+: text) (n : Nat) :
    lead ++ [c] <+: join [sep] ((text.splitOn sep).take n) ↔ lead.count sep < n := by
  have hnone : ∀ l : List Char, l ≠ [] → (l <+: join [sep] [] ↔ False) := by
    intro l hl
    rw [join, List.intercalate_nil, List.prefix_nil]
    exact iff_false_intro hl
  induction lead generalizing text n with
  | nil =>
    obtain ⟨rest, rfl⟩ := h
    rw [List.splitOn_eq_splitOnP, List.nil_append, List.singleton_append,
      List.splitOnP_cons_eq_if_modifyHead, if_neg (by simpa using hc)]
    cases hsplit : rest.splitOnP (· == sep) with
    | nil => exact absurd hsplit (List.splitOnP_ne_nil _ rest)
    | cons first others =>
      cases n with
      | zero => simpa using hnone [c] (List.cons_ne_nil c [])
      | succ n =>
        rw [List.modifyHead_cons, List.take_succ_cons, join_cons_cons]
        simp
  | cons x lead ih =>
    obtain ⟨rest, rfl⟩ := h
    have htail : lead ++ [c] <+: lead ++ [c] ++ rest := List.prefix_append _ _
    have hcons : x :: lead ++ [c] ++ rest = x :: (lead ++ [c] ++ rest) := rfl
    rw [hcons, List.splitOn_eq_splitOnP, List.splitOnP_cons_eq_if_modifyHead,
      ← List.splitOn_eq_splitOnP]
    generalize lead ++ [c] ++ rest = tail at htail
    cases n with
    | zero => simpa using hnone (x :: lead ++ [c]) (List.cons_ne_nil x _)
    | succ n =>
      by_cases hx : x = sep
      · subst hx
        rw [if_pos (by simp), List.take_succ_cons, List.count_cons_self]
        have hnext := ih htail n
        cases hparts : (tail.splitOn x).take n with
        | nil =>
          rw [hparts, hnone _ (by simp)] at hnext
          rw [join, List.intercalate_singleton, List.prefix_nil]
          simpa using hnext
        | cons first others =>
          rw [hparts, join] at hnext
          rw [join, List.intercalate_cons_cons, List.nil_append, List.singleton_append,
            List.cons_append, List.cons_prefix_cons]
          exact (and_iff_right rfl).trans (hnext.trans Nat.succ_lt_succ_iff.symm)
      · rw [if_neg (by simpa using hx), List.count_cons_of_ne hx]
        have hnext := ih htail (n + 1)
        cases hsplit : tail.splitOn sep with
        | nil =>
          rw [List.splitOn_eq_splitOnP] at hsplit
          exact absurd hsplit (List.splitOnP_ne_nil _ tail)
        | cons first others =>
          rw [hsplit, List.take_succ_cons] at hnext
          rw [List.modifyHead_cons, List.take_succ_cons, join_cons_cons, List.cons_append,
            List.cons_prefix_cons]
          exact (and_iff_right rfl).trans hnext

/-- A character that splits is in none of the parts. -/
theorem not_of_mem_splitOnP {p : Char → Bool} {text part : List Char}
    (h : part ∈ text.splitOnP p) : ∀ c ∈ part, p c = false := by
  induction text generalizing part with
  | nil =>
    rw [List.splitOnP_nil, List.mem_singleton] at h
    simp [h]
  | cons c rest ih =>
    rw [List.splitOnP_cons_eq_if_modifyHead] at h
    by_cases hc : p c = true
    · rw [if_pos hc] at h
      rcases List.mem_cons.mp h with rfl | h
      · simp
      · exact ih h
    · rw [if_neg hc] at h
      cases hsplit : rest.splitOnP p with
      | nil => exact absurd hsplit (List.splitOnP_ne_nil p rest)
      | cons first others =>
        rw [hsplit] at ih h
        rw [List.modifyHead_cons] at h
        rcases List.mem_cons.mp h with rfl | h
        · intro d hd
          rcases List.mem_cons.mp hd with rfl | hd
          · simpa using hc
          · exact ih List.mem_cons_self d hd
        · exact ih (List.mem_cons_of_mem _ h)

theorem not_isSpace_of_mem_words {text word : List Char} (h : word ∈ words text) :
    ∀ c ∈ word, isSpace c = false :=
  not_of_mem_splitOnP (List.mem_filter.mp h).1

theorem mem_join {sep : List Char} {parts : List (List Char)} {c : Char} (h : c ∈ join sep parts) :
    c ∈ sep ∨ ∃ part ∈ parts, c ∈ part := by
  induction parts with
  | nil => simp [join, List.intercalate] at h
  | cons part rest ih =>
    cases rest with
    | nil =>
      rw [join, List.intercalate_singleton] at h
      exact .inr ⟨part, List.mem_cons_self, h⟩
    | cons next rest =>
      rw [join, List.intercalate_cons_cons] at h
      rcases List.mem_append.mp h with h | h
      · rcases List.mem_append.mp h with h | h
        · exact .inr ⟨part, List.mem_cons_self, h⟩
        · exact .inl h
      · rcases ih h with h | ⟨part', hpart', h⟩
        · exact .inl h
        · exact .inr ⟨part', List.mem_cons_of_mem _ hpart', h⟩

theorem infix_join {sep part : List Char} {parts : List (List Char)} (h : part ∈ parts) :
    part <:+: join sep parts := by
  induction parts with
  | nil => cases h
  | cons first rest ih =>
    cases rest with
    | nil =>
      rw [List.mem_singleton.mp h, join, List.intercalate_singleton]
    | cons next rest =>
      rw [join, List.intercalate_cons_cons]
      rcases List.mem_cons.mp h with rfl | h
      · exact ⟨[], sep ++ sep.intercalate (next :: rest), by simp⟩
      · exact (ih h).trans ⟨first ++ sep, [], by simp [join]⟩

theorem join_cons (sep first : List Char) {rest : List (List Char)} (h : rest ≠ []) :
    join sep (first :: rest) = first ++ sep ++ join sep rest := by
  cases rest with
  | nil => exact absurd rfl h
  | cons next rest => exact List.intercalate_cons_cons

theorem join_glue (sep first second : List Char) (rest : List (List Char)) :
    join sep ((first ++ sep ++ second) :: rest) = join sep (first :: second :: rest) := by
  rw [join_cons sep first (List.cons_ne_nil second rest)]
  cases rest with
  | nil => rw [join, List.intercalate_singleton, join, List.intercalate_singleton]
  | cons next rest =>
    rw [join_cons _ _ (List.cons_ne_nil next rest), join_cons _ _ (List.cons_ne_nil next rest)]
    simp only [List.append_assoc]

theorem join_concat (sep last : List Char) {parts : List (List Char)} (h : parts ≠ []) :
    join sep (parts ++ [last]) = join sep parts ++ sep ++ last := by
  induction parts with
  | nil => exact absurd rfl h
  | cons first rest ih =>
    cases rest with
    | nil =>
      rw [List.singleton_append, join_cons sep first (List.cons_ne_nil last []), join, join,
        List.intercalate_singleton, List.intercalate_singleton]
    | cons next rest =>
      rw [List.cons_append, join_cons sep first (by simp), ih (List.cons_ne_nil next rest),
        join_cons sep first (List.cons_ne_nil next rest)]
      simp only [List.append_assoc]

/-- A joined text is continued in its last part. -/
theorem join_concat_append (sep : List Char) (parts : List (List Char)) (a b : List Char) :
    join sep (parts ++ [a ++ b]) = join sep (parts ++ [a]) ++ b := by
  induction parts with
  | nil => simp [join, List.intercalate_singleton]
  | cons first rest ih =>
    rw [List.cons_append, List.cons_append, join_cons _ _ (by simp), join_cons _ _ (by simp), ih,
      List.append_assoc _ _ b]

/-- It begins with what its first parts and the start of the next are joined to. -/
theorem join_concat_isPrefix (sep : List Char) (parts : List (List Char)) {a b : List Char}
    (h : a <+: b) (others : List (List Char)) :
    join sep (parts ++ [a]) <+: join sep (parts ++ b :: others) := by
  induction parts with
  | nil =>
    rw [List.nil_append, List.nil_append]
    cases others with
    | nil => simpa [join, List.intercalate_singleton] using h
    | cons next rest =>
      rw [join_cons _ b (List.cons_ne_nil next rest), List.append_assoc]
      have ha : join sep [a] = a := List.intercalate_singleton
      rw [ha]
      exact h.trans (List.prefix_append _ _)
  | cons first rest ih =>
    rw [List.cons_append, List.cons_append, join_cons _ _ (by simp), join_cons _ _ (by simp)]
    exact (List.prefix_append_right_inj _).mpr ih

theorem head_strip {text : List Char} {c : Char} {rest : List Char} (h : strip text = c :: rest) :
    isSpace c = false := by
  obtain ⟨more, hmore⟩ := dropEndWhile_isPrefix isSpace (text.dropWhile isSpace)
  have hhead := List.head?_dropWhile_not isSpace text
  rw [← hmore] at hhead
  rw [strip, stripWhile] at h
  rw [h] at hhead
  simpa using hhead

theorem isSpace_head_strip (text : List Char) : ∀ c ∈ (strip text).head?, isSpace c = false := by
  intro c hc
  cases htext : strip text with
  | nil =>
    rw [htext] at hc
    cases hc
  | cons first rest =>
    rw [htext] at hc
    obtain rfl := Option.some.inj hc
    exact head_strip htext

theorem isSpace_getLast_strip (text : List Char) :
    ∀ c ∈ (strip text).getLast?, isSpace c = false := getLast_dropEndWhile isSpace _

/-- Text that neither begins nor ends in white space is stripped of nothing. -/
theorem strip_eq_self {text : List Char} (hfirst : ∀ c ∈ text.head?, isSpace c = false)
    (hlast : ∀ c ∈ text.getLast?, isSpace c = false) : strip text = text := by
  rw [strip_eq_rstrip hfirst]
  exact dropEndWhile_eq_self hlast

/-- What is stripped has nothing left to strip. -/
theorem strip_strip (text : List Char) : strip (strip text) = strip text :=
  strip_eq_self (isSpace_head_strip text) (isSpace_getLast_strip text)

/-- A text with something else than white space is not blank. -/
theorem strip_ne_nil {text : List Char} {c : Char} (hmem : c ∈ text) (hc : isSpace c = false) :
    strip text ≠ [] := by
  intro hnil
  rw [strip, stripWhile, dropEndWhile, List.reverse_eq_nil_iff, List.dropWhile_eq_nil_iff] at hnil
  rw [← List.takeWhile_append_dropWhile (p := isSpace) (l := text)] at hmem
  have hspace : isSpace c = true := by
    rcases List.mem_append.mp hmem with h | h
    · exact List.mem_takeWhile_imp h
    · exact hnil c (List.mem_reverse.mpr h)
  rw [hc] at hspace
  cases hspace

end PyText

end LlmService
