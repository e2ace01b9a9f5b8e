import LlmService.Visualization.BlockPartition

/-!
# Quoted fences

The fences of a text, whatever their language, say which lines lie inside an
ordinary fence. The parser reads such a fence line by line, so a visual fence
that is quoted in it becomes a block.
-/

namespace LlmService

namespace Blocks

/-- Where a line lies: outside of every fence, inside one of another language,
or inside a visual one. The line that opens a fence lies outside of it. -/
inductive Mark where
  | outside | ordinary | visual
  deriving DecidableEq, Repr

/-- The mark of the lines behind one that opens a fence. -/
def insideMark (loads : Text → Option Json) (line : Text) (rest : List Text) : Mark :=
  match blockKind loads line rest with
  | .ok (some _) => .visual
  | _ => .ordinary

/-- The fences of a text: each one goes on to the first line that closes it,
or to the end. -/
def marks (loads : Text → Option Json) (lines : List Text) : List Mark :=
  match lines with
  | [] => []
  | line :: rest =>
    match openFence line with
    | none => .outside :: marks loads rest
    | some (fence, _) =>
      match findClose fence rest with
      | none => .outside :: List.replicate rest.length (insideMark loads line rest)
      | some close =>
        .outside :: (List.replicate (close + 1) (insideMark loads line rest)
          ++ marks loads (rest.drop (close + 1)))
  termination_by lines.length

/-- The line lies inside a fence of another language that is still open. -/
def QuotedAt (loads : Text → Option Json) (lines : List Text) (k : Nat) : Prop :=
  (marks loads lines)[k]? = some .ordinary

/-- Which lines are part of a block that is no text. -/
def covered (pieces : List Piece) : List Bool :=
  pieces.flatMap fun
    | .line _ => [false]
    | .fenced _ _ body _ => List.replicate (body.length + 2) true

/-- The first of the lines opens a visual fence that is closed. -/
def OpensClosed (loads : Text → Option Json) : List Text → Prop
  | [] => False
  | line :: rest => ∃ kind fence, blockKind loads line rest = .ok (some (kind, fence))
      ∧ findClose fence rest ≠ none

/-- The first of the lines opens a visual fence that is never closed. -/
def LeavesOpen (loads : Text → Option Json) : List Text → Prop
  | [] => False
  | line :: rest => ∃ kind fence, blockKind loads line rest = .ok (some (kind, fence))
      ∧ findClose fence rest = none

/-- The quoted lines are text lines of the parser. -/
def QuotedStay (loads : Text → Option Json) (lines : List Text) (pieces : List Piece) : Prop :=
  ∀ k, QuotedAt loads lines k → (covered pieces)[k]? = some false

/-- No quoted line opens a visual fence that is closed, unless an earlier one
opens a visual fence that never is. -/
def Unquoting (loads : Text → Option Json) (lines : List Text) : Prop :=
  ∀ k, QuotedAt loads lines k → OpensClosed loads (lines.drop k) →
    ∃ m < k, QuotedAt loads lines m ∧ LeavesOpen loads (lines.drop m)

variable {loads : Text → Option Json} {line : Text} {lines rest inner after : List Text}
  {kind : BlockKind} {fence : Fence} {pieces later : List Piece}

theorem marks_nil : marks loads [] = [] := by
  rw [marks]

theorem marks_of_no_fence (loads : Text → Option Json) (h : openFence line = none)
    (rest : List Text) :
    marks loads (line :: rest) = .outside :: marks loads rest := by
  rw [marks, h]

theorem marks_of_unclosed (loads : Text → Option Json) {info : Text}
    (hopen : openFence line = some (fence, info))
    (hclose : findClose fence rest = none) :
    marks loads (line :: rest)
      = .outside :: List.replicate rest.length (insideMark loads line rest) := by
  rw [marks, hopen]
  dsimp only
  rw [hclose]

theorem marks_of_closedBy (loads : Text → Option Json) {body : List Text} {closing info : Text}
    (hopen : openFence line = some (fence, info)) (hclosed : ClosedBy fence body closing)
    (after : List Text) :
    marks loads (line :: (body ++ closing :: after))
      = .outside :: (List.replicate (body.length + 1)
          (insideMark loads line (body ++ closing :: after)) ++ marks loads after) := by
  have hafter : (body ++ closing :: after).drop (body.length + 1) = after := by
    simp [List.drop_append]
  rw [marks, hopen]
  dsimp only
  rw [hclosed.findClose]
  dsimp only
  rw [hafter]

/-! ## Behind the first lines -/

theorem unquoting_iff_drop {n : Nat} (hdrop : lines.drop n = after)
    (hquoted : ∀ j, QuotedAt loads lines (n + j) ↔ QuotedAt loads after j)
    (hinert : ∀ k < n, QuotedAt loads lines k →
      ¬ OpensClosed loads (lines.drop k) ∧ ¬ LeavesOpen loads (lines.drop k)) :
    Unquoting loads lines ↔ Unquoting loads after := by
  have hsame : ∀ j, lines.drop (n + j) = after.drop j := by
    intro j
    rw [← hdrop, List.drop_drop]
  constructor
  · intro h j hj hopens
    obtain ⟨m, hm, hmquoted, hleaves⟩ := h (n + j) ((hquoted j).mpr hj) (by rwa [hsame])
    by_cases hmn : m < n
    · exact absurd hleaves (hinert m hmn hmquoted).2
    · obtain ⟨i, rfl⟩ := Nat.exists_eq_add_of_le (Nat.le_of_not_lt hmn)
      rw [hsame] at hleaves
      exact ⟨i, by omega, (hquoted i).mp hmquoted, hleaves⟩
  · intro h k hk hopens
    by_cases hkn : k < n
    · exact absurd hopens (hinert k hkn hk).1
    · obtain ⟨j, rfl⟩ := Nat.exists_eq_add_of_le (Nat.le_of_not_lt hkn)
      rw [hsame] at hopens
      obtain ⟨i, hi, hiquoted, hleaves⟩ := h j ((hquoted j).mp hk) hopens
      exact ⟨n + i, by omega, (hquoted i).mpr hiquoted, by rwa [hsame]⟩

theorem quotedStay_iff_drop {n : Nat}
    (hquoted : ∀ j, QuotedAt loads lines (n + j) ↔ QuotedAt loads after j)
    (hcovered : ∀ j, (covered pieces)[n + j]? = (covered later)[j]?)
    (hinert : ∀ k < n, QuotedAt loads lines k → (covered pieces)[k]? = some false) :
    QuotedStay loads lines pieces ↔ QuotedStay loads after later := by
  constructor
  · intro h j hj
    rw [← hcovered]
    exact h (n + j) ((hquoted j).mpr hj)
  · intro h k hk
    by_cases hkn : k < n
    · exact hinert k hkn hk
    · obtain ⟨j, rfl⟩ := Nat.exists_eq_add_of_le (Nat.le_of_not_lt hkn)
      rw [hcovered]
      exact h j ((hquoted j).mp hk)

/-! ## Inside an ordinary fence -/

theorem covered_map_line (lines : List Text) :
    covered (lines.map .line) = List.replicate lines.length false := by
  induction lines with
  | nil => rfl
  | cons line lines ih =>
    rw [List.map_cons, covered, List.flatMap_cons, ← covered, ih]
    rfl

theorem covered_append (first later : List Piece) :
    covered (first ++ later) = covered first ++ covered later := List.flatMap_append

theorem not_opensClosed_of_text (h : blockKind loads line rest = .ok none) :
    ¬ OpensClosed loads (line :: rest) := by
  rintro ⟨kind, fence, hkind, -⟩
  rw [h] at hkind
  cases hkind

theorem not_leavesOpen_of_text (h : blockKind loads line rest = .ok none) :
    ¬ LeavesOpen loads (line :: rest) := by
  rintro ⟨kind, fence, hkind, -⟩
  rw [h] at hkind
  cases hkind

/-- The parser reads on line by line: to the end of the lines, to a visual
fence that is never closed, or to one that becomes a block. -/
theorem Scan.inner_cases (h : Scan loads (inner ++ after) pieces) :
    (∃ later, pieces = inner.map .line ++ later ∧ Scan loads after later
      ∧ ∀ j < inner.length, ¬ OpensClosed loads ((inner ++ after).drop j)
          ∧ ¬ LeavesOpen loads ((inner ++ after).drop j))
    ∨ (∃ j < inner.length, LeavesOpen loads ((inner ++ after).drop j)
        ∧ (∀ i ≤ j, ¬ OpensClosed loads ((inner ++ after).drop i))
        ∧ pieces = (inner ++ after).map .line)
    ∨ ∃ j < inner.length, OpensClosed loads ((inner ++ after).drop j)
        ∧ (∀ i < j, ¬ LeavesOpen loads ((inner ++ after).drop i))
        ∧ (covered pieces)[j]? = some true := by
  induction inner generalizing pieces with
  | nil => exact .inl ⟨pieces, rfl, h, fun j hj => absurd hj (Nat.not_lt_zero j)⟩
  | cons line inner ih =>
    rw [List.cons_append] at h ⊢
    rcases blockKind_cases loads line (inner ++ after) with
      ⟨e, he⟩ | hnone | ⟨kind, fence, hkind, hclose⟩ |
        ⟨kind, fence, body, closing, more, hrest, hclosed, hkind⟩
    · exact absurd h (not_scan_of_error he)
    · obtain ⟨later, rfl, hlater⟩ := (scan_iff_of_text hnone).mp h
      rcases ih hlater with ⟨more, rfl, hscan, hinert⟩ | ⟨j, hj, hleaves, hbefore, rfl⟩ |
        ⟨j, hj, hopens, hbefore, hcovered⟩
      · refine .inl ⟨more, rfl, hscan, fun j hj => ?_⟩
        cases j with
        | zero => exact ⟨not_opensClosed_of_text hnone, not_leavesOpen_of_text hnone⟩
        | succ j => exact hinert j (Nat.lt_of_succ_lt_succ hj)
      · refine .inr (.inl ⟨j + 1, Nat.succ_lt_succ hj, hleaves, fun i hi => ?_, rfl⟩)
        cases i with
        | zero => exact not_opensClosed_of_text hnone
        | succ i => exact hbefore i (Nat.le_of_succ_le_succ hi)
      · refine .inr (.inr ⟨j + 1, Nat.succ_lt_succ hj, hopens, fun i hi => ?_, hcovered⟩)
        cases i with
        | zero => exact not_leavesOpen_of_text hnone
        | succ i => exact hbefore i (Nat.lt_of_succ_lt_succ hi)
    · refine .inr (.inl ⟨0, Nat.zero_lt_succ _, ⟨kind, fence, hkind, hclose⟩, fun i hi => ?_,
        (scan_iff_of_unclosed hkind hclose).mp h⟩)
      obtain rfl := Nat.le_zero.mp hi
      rintro ⟨kind', fence', hkind', hclose'⟩
      rw [hkind] at hkind'
      cases hkind'
      exact hclose' hclose
    · refine .inr (.inr ⟨0, Nat.zero_lt_succ _, ⟨kind, fence, hkind, ?_⟩,
        fun i hi => absurd hi (Nat.not_lt_zero i), ?_⟩)
      · rw [hrest, hclosed.findClose]
        exact Option.some_ne_none _
      · rw [hrest] at h hkind
        obtain ⟨later, rfl, -⟩ := (scan_iff_of_closedBy hclosed hkind).mp h
        rfl

/-! ## Fence by fence -/

section Fence

variable {inside : Mark} {n : Nat}

theorem not_quotedAt_zero (hmarks : marks loads lines = .outside :: (List.replicate n inside ++ marks loads after)) :
    ¬ QuotedAt loads lines 0 := by
  rw [QuotedAt, hmarks]
  exact fun h => nomatch h

theorem quotedAt_inside_iff
    (hmarks : marks loads lines = .outside :: (List.replicate n inside ++ marks loads after))
    {j : Nat} (hj : j < n) : QuotedAt loads lines (j + 1) ↔ inside = .ordinary := by
  rw [QuotedAt, hmarks, List.getElem?_cons_succ,
    List.getElem?_append_left (by rwa [List.length_replicate]), List.getElem?_replicate, if_pos hj,
    Option.some_inj]

theorem quotedAt_after_iff
    (hmarks : marks loads lines = .outside :: (List.replicate n inside ++ marks loads after))
    (j : Nat) : QuotedAt loads lines (n + 1 + j) ↔ QuotedAt loads after j := by
  have hindex : n + 1 + j = n + j + 1 := by omega
  rw [QuotedAt, QuotedAt, hmarks, hindex, List.getElem?_cons_succ,
    List.getElem?_append_right (by rw [List.length_replicate]; omega), List.length_replicate,
    Nat.add_sub_cancel_left]

/-- Every line has a mark. -/
theorem length_marks (loads : Text → Option Json) (lines : List Text) :
    (marks loads lines).length = lines.length := by
  induction hn : lines.length using Nat.strong_induction_on generalizing lines with
  | _ n ih =>
    cases lines with
    | nil =>
      rw [marks_nil, ← hn]
      rfl
    | cons line rest =>
      rw [List.length_cons] at hn
      cases hopen : openFence line with
      | none =>
        rw [marks_of_no_fence loads hopen, List.length_cons, ih rest.length (by omega) rest rfl, hn]
      | some found =>
        obtain ⟨fence, info⟩ := found
        cases hclose : findClose fence rest with
        | none => rw [marks_of_unclosed loads hopen hclose, List.length_cons, List.length_replicate, hn]
        | some close =>
          obtain ⟨body, closing, after, rfl, -, hclosed⟩ := exists_closedBy hclose
          rw [List.length_append, List.length_cons] at hn
          rw [marks_of_closedBy loads hopen hclosed after, List.length_cons, List.length_append,
            List.length_replicate, ih after.length (by omega) after rfl]
          omega

theorem lt_length_of_quotedAt {k : Nat} (h : QuotedAt loads lines k) : k < lines.length := by
  obtain ⟨hk, -⟩ := List.getElem?_eq_some_iff.mp h
  rwa [length_marks] at hk

/-- Lines that are not quoted, read at once. -/
theorem quotedStay_iff_of_not_ordinary
    (hmarks : marks loads lines = .outside :: (List.replicate n inside ++ marks loads after))
    (hdrop : lines.drop (n + 1) = after) (hinside : inside ≠ .ordinary ∨ n = 0)
    (hcovered : ∀ j, (covered pieces)[n + 1 + j]? = (covered later)[j]?)
    (ih : QuotedStay loads after later ↔ Unquoting loads after) :
    QuotedStay loads lines pieces ↔ Unquoting loads lines := by
  have hnot : ∀ k < n + 1, ¬ QuotedAt loads lines k := by
    intro k hk
    cases k with
    | zero => exact not_quotedAt_zero hmarks
    | succ j =>
      rw [quotedAt_inside_iff hmarks (by omega)]
      exact hinside.resolve_right (by omega)
  rw [quotedStay_iff_drop (quotedAt_after_iff hmarks) hcovered
      (fun k hk hquoted => absurd hquoted (hnot k hk)),
    unquoting_iff_drop hdrop (quotedAt_after_iff hmarks)
      (fun k hk hquoted => absurd hquoted (hnot k hk))]
  exact ih

/-- An ordinary fence, whose lines the parser reads one by one. -/
theorem quotedStay_iff_of_ordinary
    (hmarks : marks loads (line :: (inner ++ after))
      = .outside :: (List.replicate inner.length .ordinary ++ marks loads after))
    (hscan : Scan loads (inner ++ after) later)
    (ih : ∀ pieces, Scan loads after pieces → (QuotedStay loads after pieces ↔ Unquoting loads after)) :
    QuotedStay loads (line :: (inner ++ after)) (.line line :: later)
      ↔ Unquoting loads (line :: (inner ++ after)) := by
  have hdrop : (line :: (inner ++ after)).drop (inner.length + 1) = after := by simp
  have hzero := not_quotedAt_zero hmarks
  rcases hscan.inner_cases with ⟨more, rfl, hmore, hinert⟩ | ⟨j, hj, hleaves, hbefore, rfl⟩ |
    ⟨j, hj, hopens, hbefore, hcovered⟩
  · -- no line of the fence opens a visual one
    have hcovered : covered (.line line :: (inner.map .line ++ more))
        = List.replicate (inner.length + 1) false ++ covered more := by
      rw [← List.cons_append, ← List.map_cons, covered_append, covered_map_line, List.length_cons]
    have hsame : ∀ i, (covered (.line line :: (inner.map .line ++ more)))[inner.length + 1 + i]?
        = (covered more)[i]? := by
      intro i
      rw [hcovered, List.getElem?_append_right (by rw [List.length_replicate]; omega),
        List.length_replicate, Nat.add_sub_cancel_left]
    rw [quotedStay_iff_drop (quotedAt_after_iff hmarks) hsame, unquoting_iff_drop hdrop
      (quotedAt_after_iff hmarks)]
    · exact ih more hmore
    · intro k hk hquoted
      cases k with
      | zero => exact absurd hquoted hzero
      | succ k => exact hinert k (by omega)
    · intro k hk hquoted
      rw [hcovered, List.getElem?_append_left (by rwa [List.length_replicate]),
        List.getElem?_replicate, if_pos hk]
  · -- one is opened and never closed: the parser stops
    refine iff_of_true (fun k hk => ?_) (fun k hk hopens => ?_)
    · have hlength := lt_length_of_quotedAt hk
      rw [← List.map_cons, covered_map_line, List.getElem?_replicate, if_pos hlength]
    · have hquoted := (quotedAt_inside_iff hmarks hj).mpr rfl
      refine ⟨j + 1, ?_, hquoted, hleaves⟩
      by_contra hle
      cases k with
      | zero => exact hzero hk
      | succ k => exact hbefore k (by omega) hopens
  · -- one becomes a block
    refine iff_of_false (fun h => ?_) (fun h => ?_)
    · have hquoted := (quotedAt_inside_iff hmarks hj).mpr rfl
      have hfalse : (covered later)[j]? = some false := h (j + 1) hquoted
      rw [hcovered] at hfalse
      cases hfalse
    · have hquoted := (quotedAt_inside_iff hmarks hj).mpr rfl
      obtain ⟨m, hm, hmquoted, hleaves⟩ := h (j + 1) hquoted hopens
      cases m with
      | zero => exact hzero hmquoted
      | succ m => exact hbefore m (by omega) hleaves

/-- A line that opens an ordinary fence, or one that is not closed. -/
theorem quotedStay_iff_of_text {fence : Fence} {info : Text}
    (hopen : openFence line = some (fence, info)) (hnone : blockKind loads line rest = .ok none)
    (hlater : Scan loads rest later)
    (ih : ∀ lines, lines.length < rest.length + 1 → ∀ pieces, Scan loads lines pieces →
      (QuotedStay loads lines pieces ↔ Unquoting loads lines)) :
    QuotedStay loads (line :: rest) (.line line :: later) ↔ Unquoting loads (line :: rest) := by
  have hinside : insideMark loads line rest = .ordinary := by rw [insideMark, hnone]
  cases hclose : findClose fence rest with
  | none =>
    have hmarks := marks_of_unclosed loads hopen hclose
    rw [hinside] at hmarks
    have hordinary : QuotedStay loads (line :: (rest ++ [])) (.line line :: later)
        ↔ Unquoting loads (line :: (rest ++ [])) := by
      refine quotedStay_iff_of_ordinary ?_ ?_ (ih [] (Nat.succ_pos _))
      · rw [List.append_nil, marks_nil, List.append_nil]
        exact hmarks
      · rw [List.append_nil]
        exact hlater
    rwa [List.append_nil] at hordinary
  | some close =>
    obtain ⟨body, closing, after, rfl, -, hclosed⟩ := exists_closedBy hclose
    have hmarks := marks_of_closedBy loads hopen hclosed after
    have hrest : body ++ closing :: after = body ++ [closing] ++ after := by simp
    have hlength : after.length < (body ++ closing :: after).length + 1 := by
      rw [List.length_append, List.length_cons]
      omega
    rw [hinside, hrest] at hmarks
    rw [hrest] at hlater ⊢
    refine quotedStay_iff_of_ordinary ?_ hlater (ih after hlength)
    rw [List.length_append, List.length_singleton]
    exact hmarks

/-- A visual fence that is not closed quotes nothing. -/
theorem quotedStay_iff_of_unclosed {kind : BlockKind} {fence : Fence}
    (hkind : blockKind loads line rest = .ok (some (kind, fence)))
    (hclose : findClose fence rest = none) :
    QuotedStay loads (line :: rest) pieces ↔ Unquoting loads (line :: rest) := by
  obtain ⟨info, hopen⟩ := exists_openFence hkind
  have hmarks := marks_of_unclosed loads hopen hclose
  have hinside : insideMark loads line rest = .visual := by rw [insideMark, hkind]
  rw [hinside] at hmarks
  have hnone : ∀ k, ¬ QuotedAt loads (line :: rest) k := by
    intro k hk
    rw [QuotedAt, hmarks] at hk
    have hmem := List.mem_of_getElem? hk
    simp at hmem
  exact iff_of_true (fun k hk => absurd hk (hnone k)) (fun k hk => absurd hk (hnone k))

/-- A visual fence that is closed is a block, whose lines are not quoted. -/
theorem quotedStay_iff_of_block {kind : BlockKind} {fence : Fence} {body : List Text}
    {closing : Text} (hclosed : ClosedBy fence body closing)
    (hkind : blockKind loads line (body ++ closing :: after) = .ok (some (kind, fence)))
    (ih : QuotedStay loads after later ↔ Unquoting loads after) :
    QuotedStay loads (line :: (body ++ closing :: after)) (.fenced kind line body closing :: later)
      ↔ Unquoting loads (line :: (body ++ closing :: after)) := by
  obtain ⟨info, hopen⟩ := exists_openFence hkind
  have hmarks := marks_of_closedBy loads hopen hclosed after
  have hinside : insideMark loads line (body ++ closing :: after) = .visual := by
    rw [insideMark, hkind]
  rw [hinside] at hmarks
  refine quotedStay_iff_of_not_ordinary hmarks ?_ (.inl (by decide)) (fun j => ?_) ih
  · simp [List.drop_append]
  · have hcovered : covered (.fenced kind line body closing :: later)
        = List.replicate (body.length + 2) true ++ covered later := rfl
    rw [hcovered, List.getElem?_append_right (by rw [List.length_replicate]; omega),
      List.length_replicate]
    congr 1
    omega

/-- The quoted lines stay text exactly when no quoted visual fence is closed
before the parser stops. -/
theorem Scan.quotedStay_iff (h : Scan loads lines pieces) :
    QuotedStay loads lines pieces ↔ Unquoting loads lines := by
  induction hn : lines.length using Nat.strong_induction_on generalizing lines pieces with
  | _ n ih =>
    cases lines with
    | nil =>
      have hnone : ∀ k, ¬ QuotedAt loads [] k := fun k hk => Nat.not_lt_zero k (lt_length_of_quotedAt hk)
      exact iff_of_true (fun k hk => absurd hk (hnone k)) (fun k hk => absurd hk (hnone k))
    | cons line rest =>
      rw [List.length_cons] at hn
      cases hopen : openFence line with
      | none =>
        have hkind : blockKind loads line rest = .ok none := by rw [blockKind, hopen]
        obtain ⟨later, rfl, hlater⟩ := (scan_iff_of_text hkind).mp h
        have hmarks : marks loads (line :: rest)
            = .outside :: (List.replicate 0 .outside ++ marks loads rest) :=
          marks_of_no_fence loads hopen rest
        refine quotedStay_iff_of_not_ordinary hmarks rfl (.inr rfl) (fun j => ?_)
          (ih rest.length (by omega) hlater rfl)
        rw [Nat.add_comm]
        rfl
      | some found =>
        obtain ⟨fence, info⟩ := found
        rcases blockKind_cases loads line rest with
          ⟨e, he⟩ | hnone | ⟨kind, fence', hkind, hclose⟩ |
            ⟨kind, fence', body, closing, after, rfl, hclosed, hkind⟩
        · exact absurd h (not_scan_of_error he)
        · obtain ⟨later, rfl, hlater⟩ := (scan_iff_of_text hnone).mp h
          exact quotedStay_iff_of_text hopen hnone hlater
            fun lines' hlength pieces' hscan => ih lines'.length (by omega) hscan rfl
        · exact quotedStay_iff_of_unclosed hkind hclose
        · obtain ⟨later, rfl, hlater⟩ := (scan_iff_of_closedBy hclosed hkind).mp h
          rw [List.length_append, List.length_cons] at hn
          exact quotedStay_iff_of_block hclosed hkind (ih after.length (by omega) hlater rfl)

end Fence

/-- What the parser makes of the quoted lines: they are text lines of the
pieces that the blocks are rendered from. -/
def KeepsQuoted (r : BlockReader) (text : Text) (limits : BlockLimits) : Prop :=
  ∃ response pieces, parseResponseBlocks r text limits = .ok response
    ∧ Scan r.loads (text.splitOn '\n') pieces
    ∧ response.blocks = (render r limits pieces {}).flushText.blocks
    ∧ QuotedStay r.loads (text.splitOn '\n') pieces

/-- When the lines inside ordinary fences stay text. -/
theorem keepsQuoted_iff (r : BlockReader) (text : Text) (limits : BlockLimits) :
    KeepsQuoted r text limits
      ↔ ¬ Trips r.loads (text.splitOn '\n') ∧ Unquoting r.loads (text.splitOn '\n') := by
  rw [← exists_scan_iff]
  constructor
  · rintro ⟨response, pieces, -, hscan, -, hstay⟩
    exact ⟨⟨pieces, hscan⟩, hscan.quotedStay_iff.mp hstay⟩
  · rintro ⟨⟨pieces, hscan⟩, hunquoting⟩
    exact ⟨_, pieces, parseResponseBlocks_eq_ok_iff.mpr ⟨pieces, hscan, rfl⟩, hscan, rfl,
      hscan.quotedStay_iff.mpr hunquoting⟩

/-- A diagram that is quoted in a Markdown fence becomes a block. -/
theorem not_keepsQuoted_markdown :
    ¬ KeepsQuoted listTemplateReader
        "````markdown\n```mermaid\nflowchart TD\n```\n````".toList {} := by
  rintro ⟨response, pieces, -, hscan, -, hstay⟩
  have hlines : "````markdown\n```mermaid\nflowchart TD\n```\n````".toList.splitOn '\n'
      = "````markdown".toList :: (["```mermaid".toList, "flowchart TD".toList, "```".toList]
          ++ "````".toList :: []) := by decide
  rw [hlines] at hscan hstay
  have hopen : openFence "````markdown".toList = some (⟨'`', 4⟩, "markdown".toList) := by
    decide
  have hclosed : ClosedBy ⟨'`', 4⟩ ["```mermaid".toList, "flowchart TD".toList, "```".toList]
      "````".toList := ⟨by decide, by decide⟩
  have hkind : ∀ rest, blockKind listTemplateReader.loads "````markdown".toList rest = .ok none := by
    intro rest
    rw [blockKind, hopen]
    dsimp only
    rw [if_neg (by decide), if_neg (by decide), if_neg (by decide)]
  have hmarks := marks_of_closedBy listTemplateReader.loads hopen hclosed []
  rw [insideMark, hkind] at hmarks
  have hquoted := (quotedAt_inside_iff (j := 0) hmarks (by decide)).mpr rfl
  have hdiagram : openFence "```mermaid".toList = some (⟨'`', 3⟩, "mermaid".toList) := by
    decide
  obtain ⟨kind, hblock⟩ := exists_blockKind_of_tagged listTemplateReader.loads hdiagram
    (.inl (by decide))
  obtain ⟨m, hm, hmquoted, -⟩ := hscan.quotedStay_iff.mp hstay 1 hquoted
    ⟨kind, ⟨'`', 3⟩, hblock _, by decide⟩
  obtain rfl : m = 0 := by omega
  exact not_quotedAt_zero hmarks hmquoted

end Blocks

end LlmService
