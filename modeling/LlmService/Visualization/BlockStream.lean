import LlmService.Visualization.BlockPartition

/-!
# Blocks of an answer that goes on

While an answer streams, what is there of it is parsed again and again. The
pieces of its first lines are among the pieces of the whole, save text lines
at the end, so a block that was shown stays as it is. What this rests on is
that no JSON text has a line that begins like a fence.
-/

namespace LlmService

namespace Blocks

/-- After at most three spaces the line begins with three backticks or tildes. -/
def BeginsFence (line : Text) : Prop :=
  ∃ k ≤ 3, ∃ mark, (mark = '`' ∨ mark = '~')
    ∧ List.replicate k ' ' ++ List.replicate 3 mark <+: line

/-- No text with such a line is a JSON text. -/
def RejectsFences (loads : Text → Option Json) : Prop :=
  ∀ text : Text, (∃ line ∈ text.splitOn '\n', BeginsFence line) → loads text = none

variable {loads : Text → Option Json} {line : Text} {lines rest more : List Text}
  {fence : Fence} {pieces : List Piece}

theorem eq_replicate_takeWhile (c : Char) (text : Text) :
    text.takeWhile (· = c) = List.replicate (text.takeWhile (· = c)).length c := by
  rw [List.eq_replicate_iff]
  refine ⟨rfl, fun x hx => ?_⟩
  have hp := List.mem_takeWhile_imp hx
  exact of_decide_eq_true hp

/-- What opens a fence begins like one. -/
theorem beginsFence_of_openFence {info : Text} (h : openFence line = some (fence, info)) :
    BeginsFence line := by
  rw [openFence] at h
  have hline : line.takeWhile (· = ' ') ++ line.dropWhile (· = ' ') = line :=
    List.takeWhile_append_dropWhile
  have hindent := eq_replicate_takeWhile ' ' line
  generalize line.takeWhile (· = ' ') = indent at hline hindent
  generalize line.dropWhile (· = ' ') = tail at h hline
  cases tail with
  | nil => simp at h
  | cons mark tail =>
    dsimp only at h
    split_ifs at h with hcond
    obtain ⟨hlength, hmark, hsize, -⟩ := hcond
    have hrun := eq_replicate_takeWhile mark (mark :: tail)
    have hthree : List.replicate 3 mark <+: mark :: tail := by
      refine List.IsPrefix.trans ?_ (List.takeWhile_prefix (· = mark))
      rw [hrun]
      refine ⟨List.replicate (((mark :: tail).takeWhile (· = mark)).length - 3) mark, ?_⟩
      rw [List.replicate_append_replicate]
      congr 1
      omega
    refine ⟨indent.length, ?_, mark, hmark, ?_⟩
    · rw [← hline, List.length_append] at hlength
      omega
    · rw [← hindent, ← hline]
      exact (List.prefix_append_right_inj indent).mpr hthree

/-- A body with a line that opens a fence is no animation. -/
theorem RejectsFences.loads_joinLines (hloads : RejectsFences loads)
    (hbreak : ∀ line ∈ lines, '\n' ∉ line) {info : Text} (hmem : line ∈ lines)
    (hopen : openFence line = some (fence, info)) : loads (joinLines lines) = none := by
  apply hloads
  have hsplit : (joinLines lines).splitOn '\n' = lines :=
    List.splitOn_intercalate '\n' hbreak (List.ne_nil_of_mem hmem)
  rw [hsplit]
  exact ⟨line, hmem, beginsFence_of_openFence hopen⟩

/-! ## Lines without a fence -/

theorem blockKind_of_no_fence (h : openFence line = none) (rest : List Text) :
    blockKind loads line rest = .ok none := by
  rw [blockKind, h]

theorem scan_map_line (h : ∀ line ∈ lines, openFence line = none) :
    Scan loads lines (lines.map .line) := by
  induction lines with
  | nil => exact .nil
  | cons line lines ih =>
    exact .text (blockKind_of_no_fence (h line List.mem_cons_self) lines)
      (ih fun other hother => h other (List.mem_cons_of_mem _ hother))

theorem openFence_nil : openFence [] = none := rfl

theorem closesFence_nil (fence : Fence) : closesFence fence [] = false := by
  have hstrip : PyText.strip [] = [] := rfl
  rw [closesFence, hstrip]
  simp

/-! ## The first lines and the whole -/

/-- A fence that is closed among the first lines is read the same in any continuation. -/
theorem blockKind_append_eq (loads : Text → Option Json) {body : List Text} {closing info : Text}
    (hclosed : ClosedBy fence body closing) (hopen : openFence line = some (fence, info))
    (after more more' : List Text) :
    blockKind loads line (body ++ closing :: (after ++ more))
      = blockKind loads line (body ++ closing :: (after ++ more')) := by
  apply blockKind_congr hopen
  rw [isManimSpec_of_closedBy loads hclosed, isManimSpec_of_closedBy loads hclosed]

theorem findClose_append_nil (h : findClose fence rest = none) :
    findClose fence (rest ++ [[]]) = none := by
  rw [findClose_eq_none_iff] at h ⊢
  intro other hother
  rcases List.mem_append.mp hother with hrest | hlast
  · exact h other hrest
  · rw [List.mem_singleton.mp hlast]
    exact closesFence_nil fence

/-- A fence that is not closed among the first lines, one of which opens a
fence, holds no animation in any continuation. -/
theorem isManimSpec_append (hloads : RejectsFences loads)
    (hbreak : ∀ l ∈ rest ++ more, '\n' ∉ l) (hclose : findClose fence rest = none)
    {info : Text} {fence' : Fence} (hmem : line ∈ rest) (hopen : openFence line = some (fence', info)) :
    isManimSpec loads fence (rest ++ more) = .ok false := by
  cases hfound : findClose fence (rest ++ more) with
  | none => exact isManimSpec_of_unclosed loads hfound
  | some close =>
    obtain ⟨body, closing, after, heq, -, hclosed⟩ := exists_closedBy hfound
    rw [findClose_eq_none_iff] at hclose
    have hbody : line ∈ body := by
      rcases List.append_eq_append_iff.mp heq with ⟨e, rfl, -⟩ | ⟨e, rfl, he⟩
      · exact List.mem_append_left e hmem
      · cases e with
        | nil => simpa using hmem
        | cons first e =>
          obtain ⟨rfl, -⟩ := List.cons.inj he
          have hnot := hclose closing (by simp)
          rw [hclosed.closes] at hnot
          cases hnot
    have hlines : ∀ l ∈ body, '\n' ∉ l := by
      intro l hl
      exact hbreak l (heq ▸ List.mem_append_left _ hl)
    have hnone := hloads.loads_joinLines hlines hbody hopen
    rw [heq, isManimSpec_of_closedBy loads hclosed, isSpec, hnone]

/-- The lines, before an empty one, are read into pieces that `pieces` begins
with, and text lines behind them. -/
def SharesPieces (loads : Text → Option Json) (lines : List Text) (pieces : List Piece) : Prop :=
  ∃ (common : List Piece) (tail : List Text),
    Scan loads (lines ++ [[]]) (common ++ tail.map .line) ∧ common <+: pieces

section Shares

variable {later : List Piece}

/-- Lines that begin no block share no piece. -/
theorem sharesPieces_of_text (h : Scan loads (lines ++ [[]]) ((lines ++ [[]]).map .line)) :
    SharesPieces loads lines pieces :=
  ⟨[], lines ++ [[]], h, List.nil_prefix⟩

/-- A line that is text in both is shared. -/
theorem SharesPieces.cons_line (h : SharesPieces loads rest later)
    (hfirst : blockKind loads line (rest ++ [[]]) = .ok none) :
    SharesPieces loads (line :: rest) (.line line :: later) := by
  obtain ⟨common, tail, hscan, hcommon⟩ := h
  exact ⟨.line line :: common, tail, .text hfirst hscan, List.cons_prefix_cons.mpr ⟨rfl, hcommon⟩⟩

/-- A fence that is a block in both is shared. -/
theorem SharesPieces.cons_fenced {after body : List Text} {closing : Text} {kind : BlockKind}
    (h : SharesPieces loads after later) (hclosed : ClosedBy fence body closing)
    (hkind : blockKind loads line (body ++ closing :: (after ++ [[]])) = .ok (some (kind, fence))) :
    SharesPieces loads (line :: (body ++ closing :: after))
      (.fenced kind line body closing :: later) := by
  obtain ⟨common, tail, hscan, hcommon⟩ := h
  refine ⟨.fenced kind line body closing :: common, tail, ?_,
    List.cons_prefix_cons.mpr ⟨rfl, hcommon⟩⟩
  have hlines : line :: (body ++ closing :: after) ++ [[]]
      = line :: (body ++ closing :: (after ++ [[]])) := by simp
  rw [hlines]
  exact .fenced hclosed hkind hscan

end Shares

/-- The pieces of the first lines, save text lines at the end, are the first
pieces of the whole. -/
theorem Scan.sharesPieces (hloads : RejectsFences loads) (hbreak : ∀ l ∈ lines ++ more, '\n' ∉ l)
    (h : Scan loads (lines ++ more) pieces) : SharesPieces loads lines pieces := by
  induction hn : lines.length using Nat.strong_induction_on generalizing lines pieces with
  | _ n ih =>
    cases lines with
    | nil =>
      refine sharesPieces_of_text (scan_map_line ?_)
      simp [openFence_nil]
    | cons line rest =>
      rw [List.length_cons] at hn
      have hrest : ∀ l ∈ rest ++ more, '\n' ∉ l := fun l hl => hbreak l (List.mem_cons_of_mem _ hl)
      have htext : blockKind loads line (rest ++ [[]]) = .ok none →
          blockKind loads line (rest ++ more) = .ok none →
          SharesPieces loads (line :: rest) pieces := by
        intro hfirst hwhole
        obtain ⟨later, rfl, hlater⟩ := (scan_iff_of_text hwhole).mp h
        exact (ih rest.length (by omega) hrest hlater rfl).cons_line hfirst
      cases hopen : openFence line with
      | none => exact htext (blockKind_of_no_fence hopen _) (blockKind_of_no_fence hopen _)
      | some found =>
        obtain ⟨fence, info⟩ := found
        cases hclose : findClose fence rest with
        | some close =>
          obtain ⟨body, closing, after, rfl, -, hclosed⟩ := exists_closedBy hclose
          have hsame := blockKind_append_eq loads hclosed hopen after [[]] more
          rw [List.append_assoc, List.cons_append, List.append_assoc, List.cons_append] at htext
          have hwhole : line :: (body ++ closing :: after) ++ more
              = line :: (body ++ closing :: (after ++ more)) := by simp
          rw [hwhole] at h
          cases hkind : blockKind loads line (body ++ closing :: (after ++ more)) with
          | error e => exact absurd h (not_scan_of_error hkind)
          | ok found =>
            cases found with
            | none => exact htext (hsame.trans hkind) hkind
            | some found =>
              obtain ⟨kind, fence'⟩ := found
              obtain ⟨info', hopen'⟩ := exists_openFence hkind
              obtain ⟨rfl, -⟩ := Prod.mk.inj (Option.some.inj (hopen.symm.trans hopen'))
              obtain ⟨later, rfl, hlater⟩ := (scan_iff_of_closedBy hclosed hkind).mp h
              rw [List.length_append, List.length_cons] at hn
              have hafter : ∀ l ∈ after ++ more, '\n' ∉ l := by
                intro l hl
                refine hrest l ?_
                rw [List.append_assoc]
                exact List.mem_append_right _ (List.mem_cons_of_mem _ hl)
              exact (ih after.length (by omega) hafter hlater rfl).cons_fenced hclosed
                (hsame.trans hkind)
        | none =>
          by_cases hlang : language info = "mermaid".toList ∨ language info = "manim".toList
          · obtain ⟨kind, hkind⟩ := exists_blockKind_of_tagged loads hopen hlang
            exact sharesPieces_of_text (.unclosed (hkind _) (findClose_append_nil hclose))
          · have hfirst : blockKind loads line (rest ++ [[]]) = .ok none :=
              blockKind_of_not_spec hopen hlang
                (isManimSpec_of_unclosed loads (findClose_append_nil hclose))
            by_cases hfree : ∀ l ∈ rest, openFence l = none
            · refine sharesPieces_of_text (.text hfirst (scan_map_line ?_))
              intro l hl
              rcases List.mem_append.mp hl with hmem | hlast
              · exact hfree l hmem
              · rw [List.mem_singleton.mp hlast, openFence_nil]
            · simp only [not_forall] at hfree
              obtain ⟨l, hl, hne⟩ := hfree
              obtain ⟨⟨fence', info'⟩, hopen'⟩ := Option.ne_none_iff_exists'.mp hne
              exact htext hfirst (blockKind_of_not_spec hopen hlang
                (isManimSpec_append hloads hrest hclose hl hopen'))

/-! ## The blocks -/

section Blocks

variable {r : BlockReader} {limits : BlockLimits}

theorem flushText_blocks_isPrefix (st : ParseState) : st.blocks <+: st.flushText.blocks := by
  rw [ParseState.flushText]
  split_ifs
  · exact List.prefix_rfl
  · exact List.prefix_append _ _

/-- What was appended stays. -/
theorem render_blocks_isPrefix (pieces : List Piece) (st : ParseState) :
    st.blocks <+: (render r limits pieces st).blocks := by
  induction pieces generalizing st with
  | nil => exact List.prefix_rfl
  | cons piece pieces ih =>
    refine List.IsPrefix.trans ?_ (ih (st.addPiece r limits piece))
    cases piece with
    | line text => exact List.prefix_rfl
    | fenced kind opening body closing =>
      exact (flushText_blocks_isPrefix st).trans (List.prefix_append _ _)

theorem render_append (first later : List Piece) (st : ParseState) :
    render r limits (first ++ later) st = render r limits later (render r limits first st) :=
  List.foldl_append

/-- The blocks without a text block at the end. -/
def dropTrailingText (blocks : List Block) : List Block :=
  match blocks.getLast? with
  | some (.text _ _) => blocks.dropLast
  | _ => blocks

theorem dropTrailingText_isPrefix (blocks : List Block) : dropTrailingText blocks <+: blocks := by
  rw [dropTrailingText]
  split
  · exact List.dropLast_prefix blocks
  · exact List.prefix_rfl

/-- What a flush appends is a text block at the end. -/
theorem dropTrailingText_flushText (st : ParseState) :
    dropTrailingText st.flushText.blocks <+: st.blocks := by
  rw [ParseState.flushText]
  dsimp only
  split_ifs
  · exact dropTrailingText_isPrefix st.blocks
  · rw [dropTrailingText, List.getLast?_concat]
    dsimp only
    rw [List.dropLast_concat]

/-- The blocks of a text that ends with a line break, save a text block at the
end, stay the first ones exactly when the whole text does not trip the loop. -/
theorem blocks_stable_iff (hloads : RejectsFences r.loads) {p : Text} (hp : p.getLast? = some '\n')
    (q : Text) :
    (∃ P Q, parseResponseBlocks r p limits = .ok P ∧ parseResponseBlocks r (p ++ q) limits = .ok Q
        ∧ dropTrailingText P.blocks <+: Q.blocks)
      ↔ ¬ Trips r.loads ((p ++ q).splitOn '\n') := by
  rw [← exists_scan_iff]
  obtain ⟨front, rfl⟩ : ∃ front, p = front ++ ['\n'] := by
    rw [List.getLast?_eq_some_iff] at hp
    exact hp
  have hfirst : (front ++ ['\n']).splitOn '\n' = front.splitOn '\n' ++ [[]] := by
    rw [List.splitOn_eq_splitOnP, List.splitOnP_append_cons front [] (by simp)]
    rfl
  have hwhole : (front ++ ['\n'] ++ q).splitOn '\n' = front.splitOn '\n' ++ q.splitOn '\n' := by
    rw [List.append_assoc, List.singleton_append, List.splitOn_eq_splitOnP,
      List.splitOnP_append_cons front q (by simp)]
    rfl
  constructor
  · rintro ⟨P, Q, -, hQ, -⟩
    obtain ⟨pieces, hscan, -⟩ := parseResponseBlocks_eq_ok_iff.mp hQ
    exact ⟨pieces, hscan⟩
  · rintro ⟨pieces, hscan⟩
    have hbreak : ∀ l ∈ front.splitOn '\n' ++ q.splitOn '\n', '\n' ∉ l := by
      intro l hl hmem
      rw [← hwhole, List.splitOn_eq_splitOnP] at hl
      have hnot := PyText.not_of_mem_splitOnP hl '\n' hmem
      simp at hnot
    have hscan' := hscan
    rw [hwhole] at hscan'
    obtain ⟨common, tail, hshort, later, rfl⟩ := hscan'.sharesPieces hloads hbreak
    rw [← hfirst] at hshort
    refine ⟨_, _, parseResponseBlocks_eq_ok_iff.mpr ⟨_, hshort, rfl⟩,
      parseResponseBlocks_eq_ok_iff.mpr ⟨_, hscan, rfl⟩, ?_⟩
    rw [render_append, render_append, render_map_line]
    refine (dropTrailingText_flushText _).trans ?_
    have hstay : (render r limits common {}).blocks
        <+: (render r limits later (render r limits common {})).blocks :=
      render_blocks_isPrefix later _
    exact hstay.trans (flushText_blocks_isPrefix _)

end Blocks

/-! ## Two readings -/

theorem rejectsFences_listTemplateReader : RejectsFences listTemplateReader.loads := by
  rintro text ⟨line, hline, k, -, mark, hmark, hbegins⟩
  have hloads : listTemplateReader.loads text
      = if text = listTemplate then some (.object [("template".toList, .array [])]) else none := rfl
  rw [hloads]
  refine if_neg ?_
  rintro rfl
  have hlines : listTemplate.splitOn '\n' = [listTemplate] := by decide
  rw [hlines] at hline
  obtain rfl := List.mem_singleton.mp hline
  have hhead : listTemplate = '\x7b' :: listTemplate.tail := by decide
  rw [hhead] at hbegins
  cases k with
  | zero =>
    have hfirst : mark = '\x7b' := (List.cons_prefix_cons.mp hbegins).1
    rw [hfirst] at hmark
    exact absurd hmark (by decide)
  | succ k =>
    have hfirst : ' ' = '\x7b' := (List.cons_prefix_cons.mp hbegins).1
    exact absurd hfirst (by decide)

/-- A diagram stays as it is while the answer goes on. -/
theorem diagram_stable :
    ∃ P Q,
      parseResponseBlocks listTemplateReader "```mermaid\nflowchart TD\n```\n".toList {} = .ok P
        ∧ parseResponseBlocks listTemplateReader
            ("```mermaid\nflowchart TD\n```\n".toList ++ "It starts at the top.".toList) {} = .ok Q
        ∧ dropTrailingText P.blocks <+: Q.blocks := by
  refine (blocks_stable_iff rejectsFences_listTemplateReader (by decide) _).mpr ?_
  have hlines : ("```mermaid\nflowchart TD\n```\n".toList
      ++ "It starts at the top.".toList).splitOn '\n'
      = "```mermaid".toList :: (["flowchart TD".toList] ++ "```".toList
          :: ["It starts at the top.".toList]) := by decide
  have hopen : openFence "```mermaid".toList = some (⟨'`', 3⟩, "mermaid".toList) := by
    decide
  have hclosed : ClosedBy ⟨'`', 3⟩ ["flowchart TD".toList] "```".toList :=
    ⟨by decide, by decide⟩
  obtain ⟨kind, hkind⟩ := exists_blockKind_of_tagged listTemplateReader.loads hopen
    (.inl (by decide))
  rw [hlines, ← exists_scan_iff]
  exact ⟨_, .fenced hclosed (hkind _) (scan_map_line (by decide))⟩

/-- The end of a fence that names its template by a list stops the parser,
which had read the beginning as text. -/
theorem listTemplate_not_stable :
    RejectsFences listTemplateReader.loads
      ∧ ¬ ∃ P Q,
        parseResponseBlocks listTemplateReader ("```\n".toList ++ listTemplate ++ "\n".toList) {}
            = .ok P
          ∧ parseResponseBlocks listTemplateReader
              ("```\n".toList ++ listTemplate ++ "\n".toList ++ "```".toList) {} = .ok Q
          ∧ dropTrailingText P.blocks <+: Q.blocks := by
  refine ⟨rejectsFences_listTemplateReader, ?_⟩
  rintro ⟨P, Q, -, hQ, -⟩
  obtain ⟨pieces, hscan, -⟩ := parseResponseBlocks_eq_ok_iff.mp hQ
  have hlines : ("```\n".toList ++ listTemplate ++ "\n".toList ++ "```".toList).splitOn '\n'
      = ["```".toList, listTemplate, "```".toList] := by decide
  rw [hlines] at hscan
  refine (exists_scan_iff _ _).mp ⟨pieces, hscan⟩ ?_
  exact ⟨_, _, .refl, unhashableTemplate_listTemplate⟩

end Blocks

end LlmService
