import Mathlib.Logic.Relation
import LlmService.Lib.Infix
import LlmService.Visualization.Blocks

/-!
# The pieces of a response

The loop of `parse_response_blocks` taken apart: the lines fall into single
text lines and closed fences (`Scan`), and the blocks are what these pieces
are rendered to. A text is not read to its end exactly when a line is reached
whose candidate for an animation names its template by a list or an object.
-/

namespace LlmService

namespace Blocks

/-- What a step of the loop consumes. -/
inductive Piece where
  | line (text : Text)
  | fenced (kind : BlockKind) (opening : Text) (body : List Text) (closing : Text)

namespace Piece

def lines : Piece → List Text
  | .line text => [text]
  | .fenced _ opening body closing => opening :: (body ++ [closing])

end Piece

variable {loads : Text → Option Json} {line opening closing : Text}
  {lines rest body after : List Text} {kind : BlockKind} {fence : Fence} {pieces : List Piece}

/-! ## Where a fence closes -/

/-- The first line behind a fence that closes it. -/
structure ClosedBy (fence : Fence) (body : List Text) (closing : Text) : Prop where
  closes : closesFence fence closing = true
  first : ∀ line ∈ body, closesFence fence line = false

theorem ClosedBy.findClose (h : ClosedBy fence body closing) (after : List Text) :
    findClose fence (body ++ closing :: after) = some body.length := by
  rw [Blocks.findClose, List.findIdx?_append, List.findIdx?_eq_none_iff.mpr h.first,
    List.findIdx?_cons, h.closes]
  simp

theorem exists_closedBy {close : Nat} (h : findClose fence rest = some close) :
    ∃ body closing after, rest = body ++ closing :: after ∧ body.length = close
      ∧ ClosedBy fence body closing := by
  induction rest generalizing close with
  | nil => cases h
  | cons line rest ih =>
    rw [Blocks.findClose, List.findIdx?_cons] at h
    by_cases hline : closesFence fence line = true
    · rw [if_pos hline] at h
      obtain rfl := Option.some.inj h
      exact ⟨[], line, rest, rfl, rfl, hline, fun _ hmem => absurd hmem List.not_mem_nil⟩
    · rw [if_neg hline, Option.map_eq_some_iff] at h
      obtain ⟨close', hclose, rfl⟩ := h
      obtain ⟨body, closing, after, rfl, rfl, hcloses, hfirst⟩ := ih hclose
      refine ⟨line :: body, closing, after, rfl, rfl, hcloses, ?_⟩
      intro other hother
      rcases List.mem_cons.mp hother with rfl | hbody
      · exact Bool.eq_false_iff.mpr hline
      · exact hfirst other hbody

/-- A fence is closed at one place. -/
theorem ClosedBy.inj {body' after' : List Text} {closing' : Text} (h : ClosedBy fence body closing)
    (h' : ClosedBy fence body' closing') (heq : body ++ closing :: after = body' ++ closing' :: after') :
    body = body' ∧ closing = closing' ∧ after = after' := by
  have hlength : body.length = body'.length := by
    have hclose := h.findClose after
    rw [heq, h'.findClose after'] at hclose
    exact (Option.some.inj hclose).symm
  obtain ⟨hbody, hrest⟩ := List.append_inj heq hlength
  exact ⟨hbody, List.cons.inj hrest⟩

theorem findClose_eq_none_iff :
    findClose fence rest = none ↔ ∀ line ∈ rest, closesFence fence line = false := by
  rw [Blocks.findClose, List.findIdx?_eq_none_iff]

/-- What becomes a block is opened by a fence. -/
theorem exists_openFence (h : blockKind loads line rest = .ok (some (kind, fence))) :
    ∃ info, openFence line = some (fence, info) := by
  rw [blockKind] at h
  cases hopen : openFence line with
  | none => simp [hopen] at h
  | some found =>
    obtain ⟨fence', info⟩ := found
    rw [hopen] at h
    dsimp only at h
    refine ⟨info, ?_⟩
    split_ifs at h
    · cases h
      rfl
    · cases h
      rfl
    · cases hspec : isManimSpec loads fence' rest with
      | error e => simp [hspec] at h
      | ok found =>
        cases found with
        | false => simp [hspec] at h
        | true =>
          rw [hspec] at h
          cases h
          rfl
    · cases h

/-! ## The steps of the loop -/

section Steps

variable {r : BlockReader} {limits : BlockLimits}

/-- What a line can be: it raises, it is text, it opens a block that is not
closed, or one that is. -/
theorem blockKind_cases (loads : Text → Option Json) (line : Text) (rest : List Text) :
    (∃ e, blockKind loads line rest = .error e)
    ∨ blockKind loads line rest = .ok none
    ∨ (∃ kind fence, blockKind loads line rest = .ok (some (kind, fence))
        ∧ findClose fence rest = none)
    ∨ ∃ kind fence body closing after, rest = body ++ closing :: after
        ∧ ClosedBy fence body closing ∧ blockKind loads line rest = .ok (some (kind, fence)) := by
  cases hkind : blockKind loads line rest with
  | error e => exact .inl ⟨e, rfl⟩
  | ok found =>
    cases found with
    | none => exact .inr (.inl rfl)
    | some found =>
      obtain ⟨kind, fence⟩ := found
      cases hclose : findClose fence rest with
      | none => exact .inr (.inr (.inl ⟨kind, fence, rfl, hclose⟩))
      | some close =>
        obtain ⟨body, closing, after, hrest, -, hclosed⟩ := exists_closedBy hclose
        exact .inr (.inr (.inr ⟨kind, fence, body, closing, after, hrest, hclosed, rfl⟩))

/-- Induction along the loop. -/
theorem lines_induction {motive : List Text → Prop} (loads : Text → Option Json)
    (nil : motive [])
    (error : ∀ line rest e, blockKind loads line rest = .error e → motive (line :: rest))
    (text : ∀ line rest, blockKind loads line rest = .ok none → motive rest →
      motive (line :: rest))
    (unclosed : ∀ line rest kind fence, blockKind loads line rest = .ok (some (kind, fence)) →
      findClose fence rest = none → motive (line :: rest))
    (fenced : ∀ line kind fence body closing after, ClosedBy fence body closing →
      blockKind loads line (body ++ closing :: after) = .ok (some (kind, fence)) →
      motive after → motive (line :: (body ++ closing :: after)))
    (lines : List Text) : motive lines := by
  induction hn : lines.length using Nat.strong_induction_on generalizing lines with
  | _ n ih =>
    cases lines with
    | nil => exact nil
    | cons line rest =>
      rw [List.length_cons] at hn
      rcases blockKind_cases loads line rest with
        ⟨e, he⟩ | hnone | ⟨kind, fence, hkind, hclose⟩ |
          ⟨kind, fence, body, closing, after, rfl, hclosed, hkind⟩
      · exact error line rest e he
      · exact text line rest hnone (ih rest.length (by omega) rest rfl)
      · exact unclosed line rest kind fence hkind hclose
      · rw [List.length_append, List.length_cons] at hn
        exact fenced line kind fence body closing after hclosed hkind
          (ih after.length (by omega) after rfl)

variable (st : ParseState)

theorem parseLines_nil : parseLines r limits [] st = .ok st := by
  rw [parseLines]

theorem parseLines_error {e : Exc} (h : blockKind r.loads line rest = .error e) :
    parseLines r limits (line :: rest) st = .error e := by
  rw [parseLines, h]

theorem parseLines_text (h : blockKind r.loads line rest = .ok none) :
    parseLines r limits (line :: rest) st
      = parseLines r limits rest { st with buffer := st.buffer ++ [line] } := by
  rw [parseLines, h]

theorem parseLines_unclosed (h : blockKind r.loads line rest = .ok (some (kind, fence)))
    (hclose : findClose fence rest = none) :
    parseLines r limits (line :: rest) st = .ok { st with buffer := st.buffer ++ line :: rest } := by
  rw [parseLines, h]
  simp only [hclose]

theorem parseLines_fenced (hclosed : ClosedBy fence body closing)
    (h : blockKind r.loads line (body ++ closing :: after) = .ok (some (kind, fence))) :
    parseLines r limits (line :: (body ++ closing :: after)) st
      = parseLines r limits after
          (st.addFenced r limits kind body (line :: (body ++ [closing]))) := by
  have hbody : (body ++ closing :: after).take body.length = body := List.take_left
  have hfenced : (body ++ closing :: after).take (body.length + 1) = body ++ [closing] := by
    simp [List.take_append]
  have hafter : (body ++ closing :: after).drop (body.length + 1) = after := by
    simp [List.drop_append]
  rw [parseLines, h]
  simp only [hclosed.findClose, hbody, hfenced, hafter]

end Steps

/-! ## Pieces -/

/-- The pieces that the loop takes from the lines when it comes to their end. -/
inductive Scan (loads : Text → Option Json) : List Text → List Piece → Prop
  | nil : Scan loads [] []
  | text {line : Text} {rest : List Text} {pieces : List Piece} :
      blockKind loads line rest = .ok none → Scan loads rest pieces →
      Scan loads (line :: rest) (.line line :: pieces)
  | unclosed {line : Text} {rest : List Text} {kind : BlockKind} {fence : Fence} :
      blockKind loads line rest = .ok (some (kind, fence)) →
      findClose fence rest = none → Scan loads (line :: rest) ((line :: rest).map .line)
  | fenced {line closing : Text} {body after : List Text} {kind : BlockKind} {fence : Fence}
      {pieces : List Piece} :
      ClosedBy fence body closing →
      blockKind loads line (body ++ closing :: after) = .ok (some (kind, fence)) →
      Scan loads after pieces →
      Scan loads (line :: (body ++ closing :: after)) (.fenced kind line body closing :: pieces)

theorem not_scan_of_error {e : Exc} (h : blockKind loads line rest = .error e) :
    ¬ Scan loads (line :: rest) pieces := by
  intro hscan
  cases hscan with
  | text hkind _ =>
    rw [h] at hkind
    cases hkind
  | unclosed hkind _ =>
    rw [h] at hkind
    cases hkind
  | fenced _ hkind _ =>
    rw [h] at hkind
    cases hkind

theorem scan_iff_of_text (h : blockKind loads line rest = .ok none) :
    Scan loads (line :: rest) pieces
      ↔ ∃ later, pieces = .line line :: later ∧ Scan loads rest later := by
  constructor
  · intro hscan
    cases hscan with
    | text _ hlater => exact ⟨_, rfl, hlater⟩
    | unclosed hkind _ =>
      rw [h] at hkind
      cases hkind
    | fenced _ hkind _ =>
      rw [h] at hkind
      cases hkind
  · rintro ⟨later, rfl, hlater⟩
    exact .text h hlater

theorem scan_iff_of_unclosed (h : blockKind loads line rest = .ok (some (kind, fence)))
    (hclose : findClose fence rest = none) :
    Scan loads (line :: rest) pieces ↔ pieces = (line :: rest).map .line := by
  constructor
  · intro hscan
    cases hscan with
    | text hkind _ =>
      rw [h] at hkind
      cases hkind
    | unclosed _ _ => rfl
    | fenced hclosed hkind _ =>
      rw [h] at hkind
      cases hkind
      rw [hclosed.findClose] at hclose
      cases hclose
  · rintro rfl
    exact .unclosed h hclose

theorem scan_iff_of_closedBy (hclosed : ClosedBy fence body closing)
    (h : blockKind loads line (body ++ closing :: after) = .ok (some (kind, fence))) :
    Scan loads (line :: (body ++ closing :: after)) pieces
      ↔ ∃ later, pieces = .fenced kind line body closing :: later ∧ Scan loads after later := by
  constructor
  · intro hscan
    generalize hrest : body ++ closing :: after = rest at hscan h
    cases hscan with
    | text hkind _ =>
      rw [h] at hkind
      cases hkind
    | unclosed hkind hclose =>
      rw [h] at hkind
      cases hkind
      rw [← hrest, hclosed.findClose] at hclose
      cases hclose
    | fenced hclosed' hkind hlater =>
      rw [h] at hkind
      cases hkind
      obtain ⟨rfl, rfl, rfl⟩ := hclosed.inj hclosed' hrest
      exact ⟨_, rfl, hlater⟩
  · rintro ⟨later, rfl, hlater⟩
    exact .fenced hclosed h hlater

/-- The pieces are the lines. -/
theorem Scan.flatMap_lines (h : Scan loads lines pieces) : pieces.flatMap Piece.lines = lines := by
  induction h with
  | nil => rfl
  | text _ _ ih => rw [List.flatMap_cons, ih]; rfl
  | unclosed _ _ =>
    rename_i line rest _ _ _ _
    rw [List.flatMap_map]
    exact List.flatMap_singleton' (line :: rest)
  | fenced _ _ _ ih => rw [List.flatMap_cons, ih]; simp [Piece.lines]

/-- One piece is added to the state. -/
def ParseState.addPiece (r : BlockReader) (limits : BlockLimits) (st : ParseState) :
    Piece → ParseState
  | .line text => { st with buffer := st.buffer ++ [text] }
  | .fenced kind opening body closing =>
    st.addFenced r limits kind body (opening :: (body ++ [closing]))

/-- The state once every piece is added. -/
def render (r : BlockReader) (limits : BlockLimits) (pieces : List Piece) (st : ParseState) :
    ParseState :=
  pieces.foldl (ParseState.addPiece r limits) st

theorem render_map_line (r : BlockReader) (limits : BlockLimits) (st : ParseState) :
    render r limits (lines.map .line) st = { st with buffer := st.buffer ++ lines } := by
  induction lines generalizing st with
  | nil => simp [render]
  | cons line lines ih =>
    rw [List.map_cons, render, List.foldl_cons]
    refine (ih _).trans ?_
    simp [ParseState.addPiece]

/-- The loop renders the pieces. -/
theorem Scan.parseLines {r : BlockReader} {limits : BlockLimits} (h : Scan r.loads lines pieces)
    (st : ParseState) : parseLines r limits lines st = .ok (render r limits pieces st) := by
  induction h generalizing st with
  | nil => exact parseLines_nil st
  | text hkind _ ih =>
    rw [parseLines_text st hkind, ih]
    rfl
  | unclosed hkind hclose =>
    rw [parseLines_unclosed st hkind hclose, render_map_line]
  | fenced hclosed hkind _ ih =>
    rw [parseLines_fenced st hclosed hkind, ih]
    rfl

/-- What the loop returns is rendered from pieces. -/
theorem exists_scan_of_parseLines {r : BlockReader} {limits : BlockLimits} {st st' : ParseState}
    (h : Blocks.parseLines r limits lines st = .ok st') :
    ∃ pieces, Scan r.loads lines pieces ∧ st' = render r limits pieces st := by
  induction lines using lines_induction r.loads generalizing st with
  | nil =>
    rw [parseLines_nil] at h
    exact ⟨[], .nil, (Except.ok.inj h).symm⟩
  | error line rest e he =>
    rw [parseLines_error st he] at h
    cases h
  | text line rest hkind ih =>
    rw [parseLines_text st hkind] at h
    obtain ⟨pieces, hscan, rfl⟩ := ih h
    exact ⟨.line line :: pieces, .text hkind hscan, rfl⟩
  | unclosed line rest kind fence hkind hclose =>
    rw [parseLines_unclosed st hkind hclose] at h
    refine ⟨_, .unclosed hkind hclose, ?_⟩
    rw [render_map_line]
    exact (Except.ok.inj h).symm
  | fenced line kind fence body closing after hclosed hkind ih =>
    rw [parseLines_fenced st hclosed hkind] at h
    obtain ⟨pieces, hscan, rfl⟩ := ih h
    exact ⟨.fenced kind line body closing :: pieces, .fenced hclosed hkind hscan, rfl⟩

/-! ## When the loop comes to the end -/

/-- A value that no dictionary can be asked for. -/
def Unhashable : Json → Prop
  | .array _ => True
  | .object _ => True
  | _ => False

theorem inTemplates_eq_error_iff (value : Option Json) :
    (∃ e, inTemplates value = .error e) ↔ ∃ v, value = some v ∧ Unhashable v := by
  cases value with
  | none => simp [inTemplates]
  | some v => cases v <;> simp [inTemplates, Unhashable]

/-- The line opens a fence tagged `json` or not at all, which is closed, and
whose body is an object with a template that is a list or an object. -/
def UnhashableTemplate (loads : Text → Option Json) (line : Text) (rest : List Text) : Prop :=
  ∃ fence info body closing after spec value,
    openFence line = some (fence, info) ∧ (language info = "json".toList ∨ language info = [])
      ∧ rest = body ++ closing :: after ∧ ClosedBy fence body closing
      ∧ loads (joinLines body) = some (.object spec)
      ∧ spec.lookup "template".toList = some value ∧ Unhashable value

theorem isSpec_eq_error_iff (loads : Text → Option Json) (body : Text) :
    (∃ e, isSpec loads body = .error e)
      ↔ ∃ spec value, loads body = some (.object spec)
          ∧ spec.lookup "template".toList = some value ∧ Unhashable value := by
  unfold isSpec
  cases hloads : loads body with
  | none => simp
  | some value =>
    cases value with
    | object spec =>
      have hin := inTemplates_eq_error_iff (spec.lookup "template".toList)
      constructor
      · rintro ⟨e, he⟩
        cases hinT : inTemplates (spec.lookup "template".toList) with
        | error e' =>
          obtain ⟨v, hv, hunhashable⟩ := hin.mp ⟨e', hinT⟩
          exact ⟨spec, v, rfl, hv, hunhashable⟩
        | ok found =>
          dsimp only at he
          rw [hinT] at he
          cases found with
          | false => cases he
          | true =>
            simp only at he
            split at he
            · cases he
            · cases he
      · rintro ⟨spec', v, hspec, hv, hunhashable⟩
        obtain rfl := Json.object.inj (Option.some.inj hspec)
        obtain ⟨e, he⟩ := hin.mpr ⟨v, hv, hunhashable⟩
        refine ⟨e, ?_⟩
        dsimp only
        rw [he]
    | _ => simp

theorem isManimSpec_of_closedBy (loads : Text → Option Json) (hclosed : ClosedBy fence body closing)
    (after : List Text) :
    isManimSpec loads fence (body ++ closing :: after) = isSpec loads (joinLines body) := by
  have hbody : (body ++ closing :: after).take body.length = body := List.take_left
  rw [isManimSpec, hclosed.findClose]
  simp only [hbody]

theorem isManimSpec_of_unclosed (loads : Text → Option Json) (h : findClose fence rest = none) :
    isManimSpec loads fence rest = .ok false := by
  rw [isManimSpec, h]

/-- A fence that is tagged `json`, or not at all, is an animation or text. -/
theorem blockKind_of_untagged {info : Text} (rest : List Text)
    (hopen : openFence line = some (fence, info))
    (hlang : language info = "json".toList ∨ language info = []) :
    blockKind loads line rest
      = match isManimSpec loads fence rest with
        | .error e => .error e
        | .ok true => .ok (some (.manim, fence))
        | .ok false => .ok none := by
  have hmermaid : language info ≠ "mermaid".toList := by
    rcases hlang with h | h <;> (rw [h]; decide)
  have hmanim : language info ≠ "manim".toList := by
    rcases hlang with h | h <;> (rw [h]; decide)
  rw [blockKind, hopen]
  dsimp only
  rw [if_neg hmermaid, if_neg hmanim]
  exact if_pos hlang

/-- A fence that is tagged `mermaid` or `manim` opens a block. -/
theorem exists_blockKind_of_tagged (loads : Text → Option Json) {info : Text}
    (hopen : openFence line = some (fence, info))
    (hlang : language info = "mermaid".toList ∨ language info = "manim".toList) :
    ∃ kind, ∀ rest, blockKind loads line rest = .ok (some (kind, fence)) := by
  by_cases hmermaid : language info = "mermaid".toList
  · refine ⟨.mermaid, fun rest => ?_⟩
    rw [blockKind, hopen]
    dsimp only
    rw [if_pos hmermaid]
  · refine ⟨.manim, fun rest => ?_⟩
    rw [blockKind, hopen]
    dsimp only
    rw [if_neg hmermaid, if_pos (hlang.resolve_left hmermaid)]

/-- Any other fence opens one only with the body of an animation. -/
theorem blockKind_of_not_spec {info : Text} (hopen : openFence line = some (fence, info))
    (hlang : ¬ (language info = "mermaid".toList ∨ language info = "manim".toList))
    (hspec : isManimSpec loads fence rest = .ok false) : blockKind loads line rest = .ok none := by
  rw [not_or] at hlang
  rw [blockKind, hopen]
  dsimp only
  rw [if_neg hlang.1, if_neg hlang.2, hspec, ite_self]

theorem blockKind_congr {rest' : List Text} {info : Text} (hopen : openFence line = some (fence, info))
    (hspec : isManimSpec loads fence rest = isManimSpec loads fence rest') :
    blockKind loads line rest = blockKind loads line rest' := by
  rw [blockKind, blockKind, hopen]
  dsimp only
  rw [hspec]

/-- A line raises exactly when its template is a list or an object. -/
theorem blockKind_eq_error_iff (loads : Text → Option Json) (line : Text) (rest : List Text) :
    (∃ e, blockKind loads line rest = .error e) ↔ UnhashableTemplate loads line rest := by
  constructor
  · rintro ⟨e, he⟩
    cases hopen : openFence line with
    | none => simp [blockKind, hopen] at he
    | some found =>
      obtain ⟨fence, info⟩ := found
      by_cases hlang : language info = "json".toList ∨ language info = []
      · rw [blockKind_of_untagged rest hopen hlang] at he
        cases hclose : findClose fence rest with
        | none =>
          rw [isManimSpec_of_unclosed loads hclose] at he
          cases he
        | some close =>
          obtain ⟨body, closing, after, rfl, -, hclosed⟩ := exists_closedBy hclose
          rw [isManimSpec_of_closedBy loads hclosed] at he
          cases hspec : isSpec loads (joinLines body) with
          | error e' =>
            obtain ⟨spec, value, hloads, htemplate, hvalue⟩ :=
              (isSpec_eq_error_iff loads (joinLines body)).mp ⟨e', hspec⟩
            exact ⟨fence, info, body, closing, after, spec, value, hopen, hlang, rfl, hclosed,
              hloads, htemplate, hvalue⟩
          | ok found =>
            rw [hspec] at he
            cases found <;> cases he
      · rw [blockKind, hopen] at he
        dsimp only at he
        split_ifs at he
  · rintro ⟨fence, info, body, closing, after, spec, value, hopen, hlang, rfl, hclosed, hloads,
      htemplate, hvalue⟩
    obtain ⟨e, he⟩ := (isSpec_eq_error_iff loads (joinLines body)).mpr
      ⟨spec, value, hloads, htemplate, hvalue⟩
    refine ⟨e, ?_⟩
    rw [blockKind_of_untagged _ hopen hlang, isManimSpec_of_closedBy loads hclosed, he]

/-- One step of the loop goes from what is left of the lines to what is left
behind a text line or a closed fence. -/
inductive Step (loads : Text → Option Json) : List Text → List Text → Prop
  | text {line : Text} {rest : List Text} : blockKind loads line rest = .ok none →
      Step loads (line :: rest) rest
  | fenced {line closing : Text} {body after : List Text} {kind : BlockKind} {fence : Fence} :
      ClosedBy fence body closing →
      blockKind loads line (body ++ closing :: after) = .ok (some (kind, fence)) →
      Step loads (line :: (body ++ closing :: after)) after

/-- What is left of the lines when the loop comes to some line. -/
def Reached (loads : Text → Option Json) : List Text → List Text → Prop :=
  Relation.ReflTransGen (Step loads)

/-- The loop comes to a line that raises. -/
def Trips (loads : Text → Option Json) (lines : List Text) : Prop :=
  ∃ line rest, Reached loads lines (line :: rest) ∧ UnhashableTemplate loads line rest

theorem step_iff_of_text (h : blockKind loads line rest = .ok none) :
    Step loads (line :: rest) after ↔ after = rest := by
  constructor
  · intro hstep
    cases hstep with
    | text _ => rfl
    | fenced _ hkind =>
      rw [h] at hkind
      cases hkind
  · rintro rfl
    exact .text h

theorem step_iff_of_block (h : blockKind loads line rest = .ok (some (kind, fence))) :
    Step loads (line :: rest) after
      ↔ ∃ body closing, rest = body ++ closing :: after ∧ ClosedBy fence body closing := by
  constructor
  · intro hstep
    cases hstep with
    | text hkind =>
      rw [h] at hkind
      cases hkind
    | fenced hclosed hkind =>
      rw [h] at hkind
      cases hkind
      exact ⟨_, _, rfl, hclosed⟩
  · rintro ⟨body, closing, rfl, hclosed⟩
    exact .fenced hclosed h

theorem not_step_of_unclosed (h : blockKind loads line rest = .ok (some (kind, fence)))
    (hclose : findClose fence rest = none) : ¬ Step loads (line :: rest) after := by
  rw [step_iff_of_block h]
  rintro ⟨body, closing, rfl, hclosed⟩
  rw [hclosed.findClose] at hclose
  cases hclose

theorem step_iff_of_closedBy {next : List Text} (hclosed : ClosedBy fence body closing)
    (h : blockKind loads line (body ++ closing :: after) = .ok (some (kind, fence))) :
    Step loads (line :: (body ++ closing :: after)) next ↔ next = after := by
  constructor
  · intro hstep
    obtain ⟨body', closing', heq, hclosed'⟩ := (step_iff_of_block h).mp hstep
    exact (hclosed.inj hclosed' heq).2.2.symm
  · rintro rfl
    exact .fenced hclosed h

theorem not_trips_nil : ¬ Trips loads [] := by
  rintro ⟨line, rest, hreached, -⟩
  rcases Relation.ReflTransGen.cases_head hreached with h | ⟨next, hstep, -⟩
  · cases h
  · cases hstep

/-- The loop trips at the first line, or behind its first step. -/
theorem trips_cons_iff : Trips loads (line :: rest)
    ↔ UnhashableTemplate loads line rest ∨ ∃ next, Step loads (line :: rest) next ∧ Trips loads next := by
  constructor
  · rintro ⟨line', rest', hreached, htrips⟩
    rcases Relation.ReflTransGen.cases_head hreached with h | ⟨next, hstep, hnext⟩
    · obtain ⟨rfl, rfl⟩ := List.cons.inj h
      exact .inl htrips
    · exact .inr ⟨next, hstep, line', rest', hnext, htrips⟩
  · rintro (htrips | ⟨next, hstep, line', rest', hnext, htrips⟩)
    · exact ⟨line, rest, .refl, htrips⟩
    · exact ⟨line', rest', .head hstep hnext, htrips⟩

theorem not_unhashableTemplate_of_ok {found : Option (BlockKind × Fence)}
    (h : blockKind loads line rest = .ok found) : ¬ UnhashableTemplate loads line rest := by
  rw [← blockKind_eq_error_iff]
  rintro ⟨e, he⟩
  rw [h] at he
  cases he

theorem trips_cons_iff_of_text (h : blockKind loads line rest = .ok none) :
    Trips loads (line :: rest) ↔ Trips loads rest := by
  rw [trips_cons_iff, or_iff_right (not_unhashableTemplate_of_ok h)]
  simp only [step_iff_of_text h, exists_eq_left]

theorem trips_cons_iff_of_closedBy (hclosed : ClosedBy fence body closing)
    (h : blockKind loads line (body ++ closing :: after) = .ok (some (kind, fence))) :
    Trips loads (line :: (body ++ closing :: after)) ↔ Trips loads after := by
  rw [trips_cons_iff, or_iff_right (not_unhashableTemplate_of_ok h)]
  simp only [step_iff_of_closedBy hclosed h, exists_eq_left]

theorem not_trips_of_unclosed (h : blockKind loads line rest = .ok (some (kind, fence)))
    (hclose : findClose fence rest = none) : ¬ Trips loads (line :: rest) := by
  rw [trips_cons_iff, or_iff_right (not_unhashableTemplate_of_ok h)]
  rintro ⟨next, hstep, -⟩
  exact not_step_of_unclosed h hclose hstep

/-- The lines are scanned to the end exactly when the loop does not trip. -/
theorem exists_scan_iff (loads : Text → Option Json) (lines : List Text) :
    (∃ pieces, Scan loads lines pieces) ↔ ¬ Trips loads lines := by
  induction lines using lines_induction loads with
  | nil => exact iff_of_true ⟨[], .nil⟩ not_trips_nil
  | error line rest e he =>
    have htrips : Trips loads (line :: rest) :=
      trips_cons_iff.mpr (.inl ((blockKind_eq_error_iff loads line rest).mp ⟨e, he⟩))
    refine iff_of_false ?_ (not_not_intro htrips)
    rintro ⟨pieces, hscan⟩
    exact not_scan_of_error he hscan
  | text line rest hkind ih =>
    rw [trips_cons_iff_of_text hkind, ← ih]
    simp only [scan_iff_of_text hkind]
    constructor
    · rintro ⟨-, later, -, hlater⟩
      exact ⟨later, hlater⟩
    · rintro ⟨later, hlater⟩
      exact ⟨_, later, rfl, hlater⟩
  | unclosed line rest kind fence hkind hclose =>
    exact iff_of_true ⟨_, .unclosed hkind hclose⟩ (not_trips_of_unclosed hkind hclose)
  | fenced line kind fence body closing after hclosed hkind ih =>
    rw [trips_cons_iff_of_closedBy hclosed hkind, ← ih]
    simp only [scan_iff_of_closedBy hclosed hkind]
    constructor
    · rintro ⟨-, later, -, hlater⟩
      exact ⟨later, hlater⟩
    · rintro ⟨later, hlater⟩
      exact ⟨_, later, rfl, hlater⟩

/-- The response is rendered from the pieces of the text. -/
theorem parseResponseBlocks_eq_ok_iff {r : BlockReader} {text : Text} {limits : BlockLimits}
    {response : ParsedResponse} :
    parseResponseBlocks r text limits = .ok response
      ↔ ∃ pieces, Scan r.loads (text.splitOn '\n') pieces
          ∧ response = { blocks := (render r limits pieces {}).flushText.blocks } := by
  rw [parseResponseBlocks]
  constructor
  · intro h
    cases hlines : parseLines r limits (text.splitOn '\n') {} with
    | error e =>
      rw [hlines] at h
      cases h
    | ok st =>
      rw [hlines] at h
      obtain ⟨pieces, hscan, rfl⟩ := exists_scan_of_parseLines hlines
      exact ⟨pieces, hscan, (Except.ok.inj h).symm⟩
  · rintro ⟨pieces, hscan, rfl⟩
    rw [hscan.parseLines]

end Blocks

end LlmService
