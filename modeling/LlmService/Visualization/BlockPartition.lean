import LlmService.Visualization.BlockPieces

/-!
# Blocks partition the lines

The blocks of a response are numbered in order, the visual ones stay within
their limit, and the lines of the text fall into consecutive runs: each one
the content of a text block, the range of a fence that became a block, or
blank text that is dropped.
-/

namespace LlmService

namespace Blocks

/-- The lines of a fence: it is opened in the first and closed in the last. -/
def FenceRange (run : List Text) : Prop :=
  ∃ opening body closing fence info, run = opening :: (body ++ [closing])
    ∧ openFence opening = some (fence, info) ∧ ClosedBy fence body closing

/-- A block made of a fence; an invalid one keeps its lines. -/
def MadeOf (run : List Text) : Block → Prop
  | .text _ _ => False
  | .mermaid _ _ _ => True
  | .manim _ _ _ => True
  | .invalid _ _ _ original => original = joinLines run

/-- The lines fall into consecutive runs: text blocks, fences and blank text. -/
inductive Partition : List Text → List Block → Prop
  | nil : Partition [] []
  | text {lines : List Text} {blocks : List Block} {run : List Text} {id : Text} :
      Partition lines blocks → PyText.strip (joinLines run) ≠ [] →
      Partition (lines ++ run) (blocks ++ [.text id (joinLines run)])
  | blank {lines : List Text} {blocks : List Block} {run : List Text} :
      Partition lines blocks → run ≠ [] → PyText.strip (joinLines run) = [] →
      Partition (lines ++ run) blocks
  | fence {lines : List Text} {blocks : List Block} {run : List Text} {block : Block} :
      Partition lines blocks → FenceRange run → MadeOf run block →
      Partition (lines ++ run) (blocks ++ [block])

/-- `f"b{n}"`. -/
def blockId (n : Nat) : Text := 'b' :: Documents.decimalText n

/-- The ids count the blocks from one. -/
def Numbered (blocks : List Block) : Prop :=
  blocks.map Block.id = (List.range blocks.length).map fun k => blockId (k + 1)

/-- How many of the blocks are visual. -/
def visualCount (blocks : List Block) : Nat := blocks.countP Block.isVisual

theorem numbered_nil : Numbered [] := rfl

theorem Numbered.append {blocks : List Block} {block : Block} (h : Numbered blocks)
    (hid : block.id = blockId (blocks.length + 1)) : Numbered (blocks ++ [block]) := by
  rw [Numbered] at h ⊢
  rw [List.map_append, List.map_singleton, List.length_append, List.length_singleton,
    List.range_succ, List.map_append, List.map_singleton, h, hid]

/-! ## The block of a fence -/

/-- The block of a fence is invalid, or it is visual and the limit is not reached. -/
theorem fencedBlock_cases (r : BlockReader) (limits : BlockLimits) (visuals : Nat) (id : Text)
    (kind : BlockKind) (body original : Text) :
    (∃ reason, fencedBlock r limits visuals id kind body original
        = .invalid id kind reason original)
    ∨ visuals < limits.maxVisualBlocks
      ∧ ((∃ title source, fencedBlock r limits visuals id kind body original
            = .mermaid id title source)
          ∨ ∃ title spec, fencedBlock r limits visuals id kind body original
            = .manim id title spec) := by
  unfold fencedBlock
  cases kind with
  | mermaid =>
    dsimp only
    split_ifs
    all_goals first
      | exact .inl ⟨_, rfl⟩
      | exact .inr ⟨by omega, .inl ⟨_, _, rfl⟩⟩
  | manim =>
    dsimp only
    split_ifs
    all_goals first
      | exact .inl ⟨_, rfl⟩
      | skip
    split
    · exact .inr ⟨by omega, .inr ⟨_, _, rfl⟩⟩
    · exact .inl ⟨_, rfl⟩

section Rendered

variable {r : BlockReader} {limits : BlockLimits} {st : ParseState} {done : List Text}

/-- What holds of the state once the lines `done` are read. -/
structure Rendered (limits : BlockLimits) (done : List Text) (st : ParseState) : Prop where
  numbered : Numbered st.blocks
  counted : visualCount st.blocks = st.visuals
  bounded : (st.visuals : Int) ≤ max 0 limits.maxVisualBlocks
  covered : ∃ before, done = before ++ st.buffer ∧ Partition before st.blocks

theorem rendered_start (limits : BlockLimits) : Rendered limits [] {} where
  numbered := numbered_nil
  counted := rfl
  bounded := le_max_left 0 limits.maxVisualBlocks
  covered := ⟨[], rfl, .nil⟩

theorem flushText_of_blank (h : PyText.strip (joinLines st.buffer) = []) :
    st.flushText = { st with buffer := [] } := by
  rw [ParseState.flushText, if_pos h]

theorem flushText_of_text (h : PyText.strip (joinLines st.buffer) ≠ []) :
    st.flushText
      = { st with
          buffer := []
          blocks := st.blocks ++ [.text st.nextId (joinLines st.buffer)] } := by
  rw [ParseState.flushText, if_neg h]

theorem Rendered.flushText (h : Rendered limits done st) :
    Rendered limits done st.flushText ∧ st.flushText.buffer = [] := by
  obtain ⟨before, rfl, hpartition⟩ := h.covered
  by_cases hblank : PyText.strip (joinLines st.buffer) = []
  · rw [flushText_of_blank hblank]
    refine ⟨⟨h.numbered, h.counted, h.bounded, before ++ st.buffer, by simp, ?_⟩, rfl⟩
    by_cases hempty : st.buffer = []
    · rw [hempty, List.append_nil]
      exact hpartition
    · exact .blank hpartition hempty hblank
  · rw [flushText_of_text hblank]
    refine ⟨⟨h.numbered.append rfl, ?_, h.bounded, before ++ st.buffer, by simp, ?_⟩, rfl⟩
    · rw [← h.counted, visualCount, visualCount, List.countP_append]
      rfl
    · exact .text hpartition hblank

theorem Rendered.addLine (h : Rendered limits done st) (line : Text) :
    Rendered limits (done ++ [line]) { st with buffer := st.buffer ++ [line] } := by
  obtain ⟨before, rfl, hpartition⟩ := h.covered
  exact ⟨h.numbered, h.counted, h.bounded, before, List.append_assoc _ _ _, hpartition⟩

/-- A block behind what was flushed. -/
theorem Rendered.append {run : List Text} {block : Block} (h : Rendered limits done st)
    (hbuffer : st.buffer = []) (hid : block.id = st.nextId) (hrun : FenceRange run)
    (hmade : MadeOf run block)
    (hvisual : block.isVisual = true → st.visuals < limits.maxVisualBlocks) :
    Rendered limits (done ++ run) (st.append block) := by
  obtain ⟨before, rfl, hpartition⟩ := h.covered
  have hcount : visualCount (st.blocks ++ [block]) = (st.append block).visuals := by
    rw [visualCount, List.countP_append, ← visualCount, h.counted, List.countP_singleton]
    rw [ParseState.append]
    by_cases hv : block.isVisual = true
    · simp [hv]
    · simp [hv]
  refine ⟨h.numbered.append hid, hcount, ?_, before ++ run, ?_, .fence hpartition hrun hmade⟩
  · have hbounded := h.bounded
    rw [ParseState.append]
    by_cases hv : block.isVisual = true
    · have hlt := hvisual hv
      simp only [if_pos hv]
      omega
    · simp only [if_neg hv]
      exact hbounded
  · simp [ParseState.append, hbuffer]

theorem Rendered.addFenced {body : List Text} {opening closing : Text} {kind : BlockKind}
    (h : Rendered limits done st) (hrange : FenceRange (opening :: (body ++ [closing]))) :
    Rendered limits (done ++ opening :: (body ++ [closing]))
      (st.addFenced r limits kind body (opening :: (body ++ [closing]))) := by
  obtain ⟨hflushed, hbuffer⟩ := h.flushText
  rw [ParseState.addFenced]
  rcases fencedBlock_cases r limits st.flushText.visuals st.flushText.nextId kind (joinLines body)
      (joinLines (opening :: (body ++ [closing]))) with
    ⟨reason, hblock⟩ | ⟨hlt, ⟨title, source, hblock⟩ | ⟨title, spec, hblock⟩⟩
  · rw [hblock]
    exact hflushed.append hbuffer rfl hrange rfl (fun hv => nomatch hv)
  · rw [hblock]
    exact hflushed.append hbuffer rfl hrange trivial (fun _ => hlt)
  · rw [hblock]
    exact hflushed.append hbuffer rfl hrange trivial (fun _ => hlt)

/-- Every piece of a scan keeps what holds of the state. -/
theorem Scan.rendered {loads : Text → Option Json} {lines : List Text} {pieces : List Piece}
    (hscan : Scan loads lines pieces) (h : Rendered limits done st) :
    Rendered limits (done ++ lines) (render r limits pieces st) := by
  induction hscan generalizing done st with
  | nil =>
    rw [List.append_nil]
    exact h
  | text _ _ ih =>
    rw [List.append_cons]
    exact ih (h.addLine _)
  | unclosed _ _ =>
    obtain ⟨before, rfl, hpartition⟩ := h.covered
    rw [render_map_line]
    exact ⟨h.numbered, h.counted, h.bounded, before, List.append_assoc _ _ _, hpartition⟩
  | @fenced line closing body after _ fence _ hclosed hkind _ ih =>
    obtain ⟨info, hopen⟩ := exists_openFence hkind
    have hrange : FenceRange (line :: (body ++ [closing])) :=
      ⟨line, body, closing, fence, info, rfl, hopen, hclosed⟩
    have hlines : done ++ line :: (body ++ closing :: after)
        = done ++ line :: (body ++ [closing]) ++ after := by simp
    rw [hlines]
    exact ih (h.addFenced hrange)

end Rendered

/-- The lines of the text are partitioned into the blocks of the response. -/
structure Lossless (text : Text) (limits : BlockLimits) (response : ParsedResponse) : Prop where
  numbered : Numbered response.blocks
  bounded : (visualCount response.blocks : Int) ≤ limits.maxVisualBlocks
  partition : Partition (text.splitOn '\n') response.blocks

/-- The parser returns a lossless partition exactly when the limit is no
negative number and no line that the loop comes to trips it. -/
theorem exists_lossless_iff (r : BlockReader) (text : Text) (limits : BlockLimits) :
    (∃ response, parseResponseBlocks r text limits = .ok response ∧ Lossless text limits response)
      ↔ 0 ≤ limits.maxVisualBlocks ∧ ¬ Trips r.loads (text.splitOn '\n') := by
  rw [← exists_scan_iff]
  constructor
  · rintro ⟨response, hparse, hlossless⟩
    obtain ⟨pieces, hscan, -⟩ := parseResponseBlocks_eq_ok_iff.mp hparse
    have hbounded := hlossless.bounded
    exact ⟨by omega, pieces, hscan⟩
  · rintro ⟨hlimit, pieces, hscan⟩
    refine ⟨_, parseResponseBlocks_eq_ok_iff.mpr ⟨pieces, hscan, rfl⟩, ?_⟩
    obtain ⟨hrendered, hbuffer⟩ := (hscan.rendered (r := r) (rendered_start limits)).flushText
    obtain ⟨before, hlines, hpartition⟩ := hrendered.covered
    rw [hbuffer, List.append_nil, List.nil_append] at hlines
    have hbounded := hrendered.bounded
    rw [← hrendered.counted, max_eq_right hlimit] at hbounded
    exact ⟨hrendered.numbered, hbounded, hlines ▸ hpartition⟩

/-- An object whose template is an empty list. -/
def listTemplate : Text := "\x7b\"template\": []\x7d".toList

/-- The Unicode database restricted to ASCII, and a `json.loads` that reads
the one object. -/
def listTemplateReader : BlockReader where
  unicode :=
    { casefold := fun c => [c.toLower]
      isPrintable := fun c => 32 ≤ c.toNat && c.toNat < 127
      decimal := fun _ => none }
  loads := fun text =>
    if text = listTemplate then some (.object [("template".toList, .array [])]) else none

theorem unhashableTemplate_listTemplate :
    UnhashableTemplate listTemplateReader.loads "```".toList [listTemplate, "```".toList] := by
  refine ⟨⟨'`', 3⟩, [], [listTemplate], "```".toList, [], [("template".toList, .array [])], .array [],
    by decide, .inr (by decide), rfl, ⟨by decide, by decide⟩, ?_,
    rfl, trivial⟩
  have hbody : joinLines [listTemplate] = listTemplate := by decide
  have hloads : listTemplateReader.loads listTemplate
      = if listTemplate = listTemplate then some (.object [("template".toList, .array [])])
        else none := rfl
  rw [hbody, hloads, if_pos rfl]

/-- An untagged fence whose object names its template by a list stops the parser. -/
theorem not_exists_lossless_listTemplate :
    ¬ ∃ response,
      parseResponseBlocks listTemplateReader ("```\n".toList ++ listTemplate ++ "\n```".toList) {}
          = .ok response
        ∧ Lossless ("```\n".toList ++ listTemplate ++ "\n```".toList) {} response := by
  rintro ⟨response, hparse, -⟩
  obtain ⟨pieces, hscan, -⟩ := parseResponseBlocks_eq_ok_iff.mp hparse
  have hlines : ("```\n".toList ++ listTemplate ++ "\n```".toList).splitOn '\n'
      = ["```".toList, listTemplate, "```".toList] := by decide
  rw [hlines] at hscan
  refine (exists_scan_iff _ _).mp ⟨pieces, hscan⟩ ?_
  exact ⟨_, _, .refl, unhashableTemplate_listTemplate⟩

end Blocks

end LlmService
