import LlmService.ContextWindow.Compaction

/-!
# The omission marker

`_clip` of `context_window/compaction.py` shows the start and the end of a long
message around a marker. The number in the marker is counted before there is
room made for the marker: the characters that the marker takes the place of
are missing from it.
-/

namespace LlmService

namespace Compaction

/-- `flat` -/
def flatten (text : Text) : Text := PyText.join [' '] (PyText.words text)

def marker (number : Nat) : Text := s!" … [{number} chars omitted] … ".toList

/-- What `_clip` puts together for a flat text that is too long. -/
structure Cut where
  head : Text
  number : Nat
  tail : Text

def cut (flat : Text) (limit : Nat) : Cut :=
  let number := flat.length - limit
  let room := limit - (marker number).length
  let head := room * 3 / 5
  let tail := room - head
  { head := PyText.rstrip (flat.take head), number,
    tail := if tail = 0 then [] else PyText.lstrip (flat.drop (flat.length - tail)) }

namespace Cut

def text (c : Cut) : Text := c.head ++ marker c.number ++ c.tail

/-- There are `number` characters between what is shown of the text, but for white space next to
the cut. -/
def Omits (c : Cut) (flat : Text) (number : Nat) : Prop :=
  ∃ before hidden after, flat = c.head ++ (before ++ hidden ++ after) ++ c.tail ∧
    before.all PyText.isSpace = true ∧ after.all PyText.isSpace = true ∧ hidden.length = number

end Cut

/-- A text is shown as it is, or else by its start and its end, and the marker says how many
characters are not shown. -/
structure TellsTruth (text : Text) (limit : Nat) : Prop where
  length_le : (clip text limit).length ≤ limit
  whole : (flatten text).length ≤ limit → clip text limit = flatten text
  parts : limit < (flatten text).length →
    clip text limit = (cut (flatten text) limit).text ∧
      (cut (flatten text) limit).head <+: flatten text ∧ (cut (flatten text) limit).tail <:+ flatten text
  number : limit < (flatten text).length →
    (cut (flatten text) limit).Omits (flatten text) (cut (flatten text) limit).number

section Clip

variable {text flat : Text} {limit : Nat}

theorem clip_of_le (h : (flatten text).length ≤ limit) : clip text limit = flatten text := if_pos h

theorem clip_of_lt (h : limit < (flatten text).length) :
    clip text limit = (cut (flatten text) limit).text := if_neg (Nat.not_le.mpr h)

theorem three_le_length_marker (number : Nat) : 3 ≤ (marker number).length := by
  simp only [marker, String.toList_append, List.length_append]
  have hstart : (toString " … [").toList.length = 4 := by decide
  omega

/-- What is stripped off at both ends of a cut. -/
theorem exists_stripped {lead middle rest : Text} (h : flat = lead ++ middle ++ rest) :
    ∃ before after, flat = PyText.rstrip lead ++ (before ++ middle ++ after) ++ PyText.lstrip rest ∧
      before.all PyText.isSpace = true ∧ after.all PyText.isSpace = true := by
  obtain ⟨before, hbefore, hblank⟩ := PyText.exists_rstrip_append lead
  refine ⟨before, rest.takeWhile PyText.isSpace, ?_, List.all_eq_true.mpr hblank,
    List.all_eq_true.mpr fun c hc => List.mem_takeWhile_imp hc⟩
  calc flat = lead ++ middle ++ rest := h
    _ = (PyText.rstrip lead ++ before) ++ middle ++
        (rest.takeWhile PyText.isSpace ++ rest.dropWhile PyText.isSpace) := by
      rw [← hbefore, List.takeWhile_append_dropWhile]
    _ = PyText.rstrip lead ++ (before ++ middle ++ rest.takeWhile PyText.isSpace) ++
        PyText.lstrip rest := by
      simp only [PyText.lstrip, List.append_assoc]

/-- A text around `middle`, which begins at `start` and has `tail` characters behind it. -/
theorem eq_take_append_drop {start tail : Nat} (h : start + tail ≤ flat.length) :
    flat = flat.take start ++ (flat.drop start).take (flat.length - (start + tail)) ++
      flat.drop (flat.length - tail) := by
  have hrest : flat.drop (flat.length - tail) =
      (flat.drop start).drop (flat.length - (start + tail)) := by
    rw [List.drop_drop]
    congr 1
    omega
  rw [hrest, List.append_assoc, List.take_append_drop, List.take_append_drop]

/-- The tail of a cut, with or without room for it. -/
theorem tail_eq_lstrip (flat : Text) (tail : Nat) :
    (if tail = 0 then [] else PyText.lstrip (flat.drop (flat.length - tail))) =
      PyText.lstrip (flat.drop (flat.length - tail)) := by
  split
  · rename_i htail
    rw [htail, Nat.sub_zero, List.drop_length]
    rfl
  · rfl

/-- Where a flat text is cut. -/
theorem exists_cut (flat : Text) (limit : Nat) :
    ∃ start tail, start + tail = limit - (marker (flat.length - limit)).length ∧
      cut flat limit = { head := PyText.rstrip (flat.take start), number := flat.length - limit,
                         tail := PyText.lstrip (flat.drop (flat.length - tail)) } := by
  refine ⟨(limit - (marker (flat.length - limit)).length) * 3 / 5,
    limit - (marker (flat.length - limit)).length -
      (limit - (marker (flat.length - limit)).length) * 3 / 5, by omega, ?_⟩
  rw [← tail_eq_lstrip]
  rfl

/-- Between what is shown there are as many characters as the marker says, and as many more as the
marker has. -/
theorem cut_omits (h : limit < flat.length) (hroom : (marker (flat.length - limit)).length ≤ limit) :
    (cut flat limit).Omits flat
      ((cut flat limit).number + (marker (cut flat limit).number).length) := by
  obtain ⟨start, tail, hsum, hcut⟩ := exists_cut flat limit
  have hshown : start + tail ≤ flat.length := by omega
  obtain ⟨before, after, hflat, hbefore, hafter⟩ := exists_stripped (eq_take_append_drop hshown)
  rw [hcut]
  refine ⟨before, _, after, hflat, hbefore, hafter, ?_⟩
  rw [List.length_take, List.length_drop]
  show min (flat.length - (start + tail)) (flat.length - start) =
    flat.length - limit + (marker (flat.length - limit)).length
  omega

/-- The cut is no longer than the limit. -/
theorem length_cut_le (hroom : (marker (flat.length - limit)).length ≤ limit) :
    (cut flat limit).text.length ≤ limit := by
  obtain ⟨start, tail, hsum, hcut⟩ := exists_cut flat limit
  have hhead := (PyText.rstrip_isPrefix (flat.take start)).length_le
  have htail := (List.dropWhile_suffix (l := flat.drop (flat.length - tail)) PyText.isSpace).length_le
  rw [List.length_take] at hhead
  rw [List.length_drop] at htail
  rw [hcut, Cut.text, List.length_append, List.length_append]
  show (PyText.rstrip (flat.take start)).length + (marker (flat.length - limit)).length +
    ((flat.drop (flat.length - tail)).dropWhile PyText.isSpace).length ≤ limit
  omega

theorem cut_parts (flat : Text) (limit : Nat) :
    (cut flat limit).head <+: flat ∧ (cut flat limit).tail <:+ flat := by
  obtain ⟨start, tail, -, hcut⟩ := exists_cut flat limit
  rw [hcut]
  constructor
  · exact (PyText.rstrip_isPrefix _).trans (List.take_prefix start flat)
  · exact (List.dropWhile_suffix _).trans (List.drop_suffix _ flat)

/-- What `_clip` makes of a text that is too long. -/
theorem clip_shows (h : limit < (flatten text).length)
    (hroom : (marker ((flatten text).length - limit)).length ≤ limit) :
    (clip text limit).length ≤ limit ∧ clip text limit = (cut (flatten text) limit).text ∧
      (cut (flatten text) limit).head <+: flatten text ∧
      (cut (flatten text) limit).tail <:+ flatten text ∧
      (cut (flatten text) limit).Omits (flatten text)
        ((cut (flatten text) limit).number + (marker (cut (flatten text) limit).number).length) := by
  obtain ⟨hhead, htail⟩ := cut_parts (flatten text) limit
  rw [clip_of_lt h]
  exact ⟨length_cut_le hroom, rfl, hhead, htail, cut_omits h hroom⟩

/-- The words of a flat text are one blank apart. -/
theorem length_blank_le {blank : Text} (hblank : blank.all PyText.isSpace = true)
    (h : blank <:+: flatten text) : blank.length ≤ 1 := by
  have hwords : ∀ word ∈ PyText.words text, word ≠ [] ∧ ' ' ∉ word := by
    intro word hword
    refine ⟨by simpa using (List.mem_filter.mp hword).2, ?_⟩
    intro hspace
    exact absurd (PyText.not_isSpace_of_mem_words hword _ hspace) (by decide)
  have hspaces : ∀ c ∈ blank, c = ' ' := by
    intro c hc
    rcases PyText.mem_join (h.subset hc) with hsep | ⟨word, hword, hmem⟩
    · exact List.mem_singleton.mp hsep
    · have := List.all_eq_true.mp hblank c hc
      rw [PyText.not_isSpace_of_mem_words hword c hmem] at this
      cases this
  match blank, hspaces, h with
  | [], _, _ => exact Nat.zero_le 1
  | [_], _, _ => exact Nat.le_refl 1
  | c :: d :: rest, hspaces, h =>
    obtain rfl := hspaces c (by simp)
    obtain rfl := hspaces d (by simp)
    exact absurd ((List.prefix_append [' ', ' '] rest).isInfix.trans h)
      (not_pair_infix_intercalate hwords).1

/-- The marker of a text that is cut is wrong. -/
theorem not_tellsTruth_of_lt (hlong : limit < (flatten text).length)
    (hroom : (marker ((flatten text).length - limit)).length ≤ limit) : ¬ TellsTruth text limit := by
  intro h
  have hnumber := h.number hlong
  have hcut := length_cut_le hroom
  have hcount : (cut (flatten text) limit).number = (flatten text).length - limit := rfl
  generalize cut (flatten text) limit = c at hnumber hcut hcount
  obtain ⟨before, hidden, after, hflat, hbefore, hafter, hnumber⟩ := hnumber
  -- what is not shown is at least a marker longer than the number, and white space is no help
  have hbefore := length_blank_le hbefore
    ⟨c.head, hidden ++ after ++ c.tail, by rw [hflat]; simp only [List.append_assoc]⟩
  have hafter := length_blank_le hafter
    ⟨c.head ++ before ++ hidden, c.tail, by rw [hflat]; simp only [List.append_assoc]⟩
  have hmarker := three_le_length_marker c.number
  have hlen := congrArg List.length hflat
  simp only [Cut.text, List.length_append] at hcut hlen
  omega

/-- The marker tells the truth where there is none. -/
theorem tellsTruth_iff (text : Text) (limit : Nat)
    (hroom : limit < (flatten text).length →
      (marker ((flatten text).length - limit)).length ≤ limit) :
    TellsTruth text limit ↔ (flatten text).length ≤ limit := by
  constructor
  · intro h
    by_contra hlong
    have hlong : limit < (flatten text).length := by omega
    exact not_tellsTruth_of_lt hlong (hroom hlong) h
  · intro h
    have hwhole := clip_of_le h
    exact {
      length_le := hwhole ▸ h
      whole := fun _ => hwhole
      parts := fun hlong => absurd h (by omega)
      number := fun hlong => absurd h (by omega) }

theorem tellsTruth_iff_forty :
    TellsTruth (List.replicate 40 'a') 30 ↔ (flatten (List.replicate 40 'a')).length ≤ 30 :=
  tellsTruth_iff _ _ (by decide)

theorem flatten_replicate {n : Nat} (h : n ≠ 0) : flatten (List.replicate n 'a') = List.replicate n 'a' := by
  have hspace : ∀ c ∈ List.replicate n 'a', PyText.isSpace c = false := by
    intro c hc
    rw [List.eq_of_mem_replicate hc]
    decide
  rw [flatten, PyText.words, List.splitOnP_eq_singleton hspace, List.filter_singleton]
  simp [h, PyText.join, List.intercalate_singleton]

/-- Of two hundred characters the marker counts twenty, and it stands for more. -/
theorem not_tellsTruth_long :
    ¬ ∀ text limit, (limit < (flatten text).length →
      (marker ((flatten text).length - limit)).length ≤ limit) → TellsTruth text limit := by
  intro h
  have hlen : (flatten (List.replicate 200 'a')).length = 200 := by
    rw [flatten_replicate (by decide), List.length_replicate]
  have hroom : (marker ((flatten (List.replicate 200 'a')).length - lineClipChars)).length ≤
      lineClipChars := by
    rw [hlen]
    decide
  have hlong : lineClipChars < (flatten (List.replicate 200 'a')).length := by
    rw [hlen]
    decide
  exact not_tellsTruth_of_lt hlong hroom (h _ _ fun _ => hroom)

end Clip

end Compaction

end LlmService
