import LlmService.ContextWindow.SectionFloors

/-!
# When trim raises

The loop counts what it asks for, not what is left. What is left is below what
was asked for where whole units do not fill it, and one token above it where a
text is to be cut to a single token. So `trim` may return where the floors do
not fit, and may raise where they do.
-/

namespace LlmService

namespace PriorityTrimmer

/-- The least that the sections can be asked to come to. -/
def floorSum (sections : List PromptSection) : Nat :=
  (sections.map fun s => if s.canBeCut then floorOf s else s.tokenCount).sum

/-- Cut to one token, the text is kept up to a word's end in its first ten
characters, and that is eight characters or more. -/
def OneOver (s : PromptSection) : Prop :=
  s.name ≠ "conversation_history" ∧ s.content.head? ≠ some '\n' ∧
    8 ≤ (cutAtWord (s.content.take 10) s.content).length

section Specification

variable (provider : String)

/-- Whole units within the floor fill it. -/
def FillsFloor (s : PromptSection) : Prop :=
  spare s = 0 ∨ ∃ text, Remainder builtIn provider (sectionMinimum s.name) s text ∧
    sectionMinimum s.name ≤ textTokens builtIn provider text

/-- What is over is all but one token of a section, with the spare tokens of
the sections that are trimmed before; these fill their floors. -/
def EndsOneOver (sections : List PromptSection) (excess : Nat) : Prop :=
  ∃ (idx : Nat) (s : PromptSection), sections[idx]? = some s ∧ s.canBeCut ∧
    spareBefore sections idx + (s.tokenCount - 1) = excess ∧ 2 ≤ s.tokenCount ∧
    sectionMinimum s.name = 0 ∧ OneOver s ∧
    ∀ x ∈ (trimOrder sections).takeWhile fun x => x.2 ≠ idx, FillsFloor provider x.1

/-- The sections that can be cut lose less below their floors than the floors
are over the budget. -/
def LosesLess (sections : List PromptSection) (totalBudget : ℤ) : Prop :=
  ∃ kept : PromptSection → Text,
    (∀ s, Remainder builtIn provider (sectionMinimum s.name) s (kept s)) ∧
      totalBudget + ((sections.filter PromptSection.canBeCut).map fun s =>
        if spare s = 0 then 0
        else sectionMinimum s.name - textTokens builtIn provider (kept s)).sum < floorSum sections

end Specification

/-! ## What the loop leaves -/

section Left

/-- What a section adds to the final total. -/
def heldTokens (s : PromptSection) : Nat := if s.hasText then s.tokenCount else 0

variable (counter : TokenCounter) (provider : String)

/-- The final total of sections that have their turns one after another. -/
def leftSum : List PromptSection → Nat → Nat
  | [], _ => 0
  | s :: rest, excess =>
    heldTokens (leftOf counter provider excess s) + leftSum rest (excess - spare s)

variable {counter provider} {sections : List PromptSection}

theorem heldTokens_of_hasText {s : PromptSection} (h : s.hasText) : heldTokens s = s.tokenCount :=
  if_pos h

theorem heldTokens_le (s : PromptSection) : heldTokens s ≤ s.tokenCount := by
  rw [heldTokens]
  split <;> omega

theorem sectionTokens_filter (l : List PromptSection) :
    sectionTokens (l.filter PromptSection.hasText) = (l.map heldTokens).sum := by
  induction l with
  | nil => rfl
  | cons s l ih =>
    rw [List.map_cons, List.sum_cons, ← ih, heldTokens]
    by_cases htext : s.hasText = true
    · rw [List.filter_cons_of_pos htext, if_pos htext]
      rfl
    · rw [List.filter_cons_of_neg htext, if_neg htext, Nat.zero_add]

theorem sum_map_set {α : Type} (f : α → Nat) {l : List α} {i : Nat} {a : α} (b : α)
    (h : l[i]? = some a) : ((l.set i b).map f).sum + f a = (l.map f).sum + f b := by
  induction l generalizing i with
  | nil => simp at h
  | cons c l ih =>
    cases i with
    | zero =>
      obtain rfl : c = a := by simpa using h
      simp only [List.set_cons_zero, List.map_cons, List.sum_cons]
      omega
    | succ i =>
      have htail := ih (i := i) (by simpa using h)
      simp only [List.set_cons_succ, List.map_cons, List.sum_cons]
      omega

/-- One turn exchanges the section for what is left of it. -/
theorem trimSection_held {t : Trimming} {sec : PromptSection} {idx : Nat}
    (hsec : t.working[idx]? = some sec) (hexcess : t.excess ≠ 0) :
    ((trimSection counter provider t sec idx).working.map heldTokens).sum + heldTokens sec =
      (t.working.map heldTokens).sum + heldTokens (leftOf counter provider t.excess sec) := by
  by_cases hspare : spare sec = 0
  · have hkept : trimSection counter provider t sec idx = t := by
      simp only [trimSection]
      rw [spare] at hspare
      rw [if_pos hspare]
    rw [hkept, leftOf, if_pos (.inr hspare)]
  · have hcut : (trimSection counter provider t sec idx).working = t.working.set idx
        (cutTo counter provider (sec.tokenCount - min (spare sec) t.excess) sec) := by
      simp only [trimSection]
      rw [spare] at hspare
      rw [if_neg hspare, spare]
    rw [hcut, leftOf, if_neg (not_or.mpr ⟨hexcess, hspare⟩)]
    exact sum_map_set heldTokens _ hsec

theorem leftSum_zero (l : List PromptSection) :
    leftSum counter provider l 0 = (l.map heldTokens).sum := by
  induction l with
  | nil => rfl
  | cons s l ih =>
    rw [leftSum, Nat.zero_sub, ih, leftOf, if_pos (.inl rfl), List.map_cons, List.sum_cons]

theorem leftSum_append (before after : List PromptSection) (excess : Nat) :
    leftSum counter provider (before ++ after) excess =
      leftSum counter provider before excess
        + leftSum counter provider after (excess - (before.map spare).sum) := by
  induction before generalizing excess with
  | nil => simp [leftSum]
  | cons s before ih =>
    rw [List.cons_append, leftSum, leftSum, ih, List.map_cons, List.sum_cons, Nat.sub_sub]
    omega

variable (counter provider) in
theorem trimLoop_held (order : List (PromptSection × Nat)) (t : Trimming)
    (hworking : ∀ x ∈ order, t.working[x.2]? = some x.1) (hnodup : (order.map Prod.snd).Nodup) :
    ((trimLoop counter provider order t).working.map heldTokens).sum
        + (order.map fun x => heldTokens x.1).sum =
      (t.working.map heldTokens).sum
        + leftSum counter provider (order.map Prod.fst) t.excess := by
  induction order generalizing t with
  | nil => rfl
  | cons head rest ih =>
    obtain ⟨sec, idx⟩ := head
    rw [List.map_cons, List.nodup_cons] at hnodup
    simp only [trimLoop]
    by_cases hdone : t.excess = 0
    · rw [if_pos hdone, hdone, leftSum_zero, List.map_map]
      rfl
    · rw [if_neg hdone]
      simp only [List.map_cons, leftSum, List.sum_cons]
      have hsec : t.working[idx]? = some sec := hworking (sec, idx) List.mem_cons_self
      have hturn : ((trimSection counter provider t sec idx).working.map heldTokens).sum
            + heldTokens sec =
          (t.working.map heldTokens).sum + heldTokens (leftOf counter provider t.excess sec) :=
        trimSection_held hsec hdone
      have hrest := ih (trimSection counter provider t sec idx) ?_ hnodup.2
      · rw [trimSection_excess] at hrest
        omega
      · intro x hx
        rw [trimSection_working]
        · exact hworking x (List.mem_cons_of_mem _ hx)
        · intro heq
          exact hnodup.1 (List.mem_map.mpr ⟨x, hx, heq.symm⟩)

theorem trimOrder_perm (sections : List PromptSection) :
    ((trimOrder sections).map Prod.fst).Perm (sections.filter PromptSection.canBeCut) := by
  have hsort := (List.perm_insertionSort (fun a b : PromptSection × Nat =>
    a.1.priority ≤ b.1.priority) (sections.zipIdx.filter fun s => s.1.canBeCut)).map Prod.fst
  have hfilter : (sections.zipIdx.filter fun s => s.1.canBeCut).map Prod.fst =
      sections.filter PromptSection.canBeCut := by
    have hmap : (sections.zipIdx.map Prod.fst).filter PromptSection.canBeCut =
        (sections.zipIdx.filter (PromptSection.canBeCut ∘ Prod.fst)).map Prod.fst :=
      List.filter_map
    rw [List.zipIdx_map_fst] at hmap
    exact hmap.symm
  rw [hfilter] at hsort
  exact hsort

theorem mem_of_mem_trimOrder {s : PromptSection} (h : s ∈ (trimOrder sections).map Prod.fst) :
    s ∈ sections := by
  obtain ⟨x, hx, rfl⟩ := List.mem_map.mp h
  exact List.mem_of_getElem? (mem_trimOrder hx).1

variable (counter provider) in
/-- The final total of `trim`. -/
theorem final_add (sections : List PromptSection) (htext : ∀ s ∈ sections, s.hasText)
    (excess : Nat) :
    sectionTokens ((trimExcess counter provider sections excess).working.filter
        PromptSection.hasText)
        + (((trimOrder sections).map Prod.fst).map (·.tokenCount)).sum =
      sectionTokens sections
        + leftSum counter provider ((trimOrder sections).map Prod.fst) excess := by
  have hloop := trimLoop_held counter provider (trimOrder sections)
    { working := sections, excess } (fun x hx => (mem_trimOrder hx).1)
    (trimOrder_positions_nodup sections)
  have hall : (sections.map heldTokens).sum = sectionTokens sections := by
    rw [sectionTokens]
    congr 1
    exact List.map_congr_left fun s hs => heldTokens_of_hasText (htext s hs)
  have horder : ((trimOrder sections).map fun x => heldTokens x.1).sum =
      (((trimOrder sections).map Prod.fst).map (·.tokenCount)).sum := by
    rw [List.map_map]
    congr 1
    apply List.map_congr_left
    intro x hx
    exact heldTokens_of_hasText (htext _ (mem_of_mem_trimOrder (List.mem_map_of_mem hx)))
  rw [sectionTokens_filter, trimExcess]
  dsimp only at hloop
  omega

theorem floorOf_add_spare (s : PromptSection) : floorOf s + spare s = s.tokenCount := by
  rw [floorOf, spare]
  omega

theorem sum_floorOf_add (l : List PromptSection) :
    (l.map floorOf).sum + (l.map spare).sum = (l.map (·.tokenCount)).sum := by
  rw [← List.sum_map_add]
  congr 1
  exact List.map_congr_left fun s _ => floorOf_add_spare s

/-- What the sections that can be cut can give is what the floors leave of the total. -/
theorem floorSum_add (sections : List PromptSection) :
    floorSum sections + (((trimOrder sections).map Prod.fst).map spare).sum =
      sectionTokens sections := by
  rw [((trimOrder_perm sections).map spare).sum_eq, floorSum, sectionTokens]
  induction sections with
  | nil => rfl
  | cons s sections ih =>
    have hone := floorOf_add_spare s
    by_cases hcut : s.canBeCut = true
    · rw [List.filter_cons_of_pos hcut]
      simp only [List.map_cons, List.sum_cons, if_pos hcut]
      omega
    · rw [List.filter_cons_of_neg hcut]
      simp only [List.map_cons, List.sum_cons, if_neg hcut]
      omega

end Left

/-- The element where a running sum reaches a value. -/
theorem exists_reaches {α : Type} (f : α → Nat) {l : List α} {n : Nat} (hpos : 0 < n)
    (hle : n ≤ (l.map f).sum) :
    ∃ before a after, l = before ++ a :: after ∧ (before.map f).sum < n ∧
      n ≤ (before.map f).sum + f a := by
  induction l generalizing n with
  | nil =>
    rw [List.map_nil, List.sum_nil] at hle
    omega
  | cons a l ih =>
    rw [List.map_cons, List.sum_cons] at hle
    by_cases hfirst : n ≤ f a
    · exact ⟨[], a, l, rfl, by simpa using hpos, by simpa using hfirst⟩
    · obtain ⟨before, b, after, hsplit, hlt, hreach⟩ := @ih (n - f a) (by omega) (by omega)
      refine ⟨a :: before, b, after, by rw [hsplit]; rfl, ?_, ?_⟩
      · rw [List.map_cons, List.sum_cons]
        omega
      · rw [List.map_cons, List.sum_cons]
        omega

/-! ## What the built-in counter leaves -/

section BuiltIn

variable {provider : String} {sections : List PromptSection}

/-- The tokens of a section that is cut are those of what is left of its text. -/
theorem heldTokens_cutTo (counter : TokenCounter) (target : Nat) (s : PromptSection) :
    heldTokens (cutTo counter provider target s) =
      if target = 0 then 0
      else textTokens counter provider (shrink counter provider target s).content := by
  by_cases hzero : target = 0
  · rw [if_pos hzero, cutTo, if_pos hzero]
    exact Nat.le_zero.mp (heldTokens_le _)
  · rw [if_neg hzero, cutTo, if_neg hzero, heldTokens, textTokens]
    by_cases hblank : PyText.strip (shrink counter provider target s).content = []
    · simp [PromptSection.hasText, hblank]
    · simp [PromptSection.hasText, hblank]

/-- What a section loses below its floor when it is cut to it. -/
def lossOf (provider : String) (s : PromptSection) : Nat :=
  if spare s = 0 then 0
  else sectionMinimum s.name - heldTokens (cutTo builtIn provider (sectionMinimum s.name) s)

/-- Cut to one token, a text keeps its first line if it is empty. -/
theorem keepWholeLines_one_of_break (rest : Text) :
    keepWholeLines builtIn provider 1 ('\n' :: rest) = [] := by
  have hsplit : ('\n' :: rest).splitOn '\n' = [] :: rest.splitOn '\n' := by
    rw [List.splitOn_cons_eq_if_modifyHead, if_pos (by decide)]
  have hlines : wholeLines builtIn provider 1 (('\n' :: rest).splitOn '\n') 0 = [[]] := by
    rw [hsplit]
    cases rest.splitOn '\n' with
    | nil => simp [wholeLines]
    | cons line lines => simp [wholeLines]
  rw [keepWholeLines_eq, hlines, if_neg (by simp)]
  rfl

/-- Cut to one token, a text keeps of any other first line what its first ten
characters have. -/
theorem keepWholeLines_one {c : Char} {rest : Text} (hc : c ≠ '\n')
    (hcount : 2 ≤ builtIn.countText (c :: rest) provider) :
    keepWholeLines builtIn provider 1 (c :: rest) =
      cutAtWord ((c :: rest).take 10) (c :: rest) := by
  have hnone : wholeLines builtIn provider 1 ((c :: rest).splitOn '\n') 0 = [] := by
    rw [wholeLines_eq_nil_iff, linesTokens, List.splitOn_cons_eq_if_modifyHead,
      if_neg (by simpa using hc)]
    cases hsplit : rest.splitOn '\n' with
    | nil => exact absurd hsplit (List.splitOn_ne_nil _ _)
    | cons line lines =>
      have hpos := builtIn.countText_pos (List.cons_ne_nil c line) provider
      simp only [List.modifyHead_cons, List.take_succ_cons, List.take_zero, List.map_cons,
        List.map_nil, List.sum_cons, List.sum_nil]
      omega
  rw [keepWholeLines_eq, hnone, if_pos rfl, TokenCounter.truncateTextToTokens,
    if_neg (by decide), if_neg (by omega)]
  rfl

/-- What is kept up to a word's end is not blank. -/
theorem strip_cutAtWord_ne_nil {cut text : Text} (h : cutAtWord cut text ≠ []) :
    PyText.strip (cutAtWord cut text) ≠ [] := by
  have hrstrip : ∃ part, cutAtWord cut text = PyText.rstrip part := by
    simp only [cutAtWord]
    split
    · exact ⟨_, rfl⟩
    · split
      · exact ⟨_, rfl⟩
      · split
        · exact ⟨_, rfl⟩
        · exact ⟨[], rfl⟩
  obtain ⟨part, hpart⟩ := hrstrip
  rw [hpart] at h ⊢
  have hlast := List.getLast?_eq_some_getLast h
  exact PyText.strip_ne_nil (List.getLast_mem h) (PyText.getLast_dropEndWhile _ _ _ hlast)

/-- What a section loses below its floor, from what whole units leave of it. -/
theorem lossOf_eq {s : PromptSection} {text : Text}
    (h : Remainder builtIn provider (sectionMinimum s.name) s text) :
    lossOf provider s =
      if spare s = 0 then 0 else sectionMinimum s.name - textTokens builtIn provider text := by
  rw [lossOf, heldTokens_cutTo, ← remainder_iff.mp h]
  by_cases hzero : sectionMinimum s.name = 0
  · simp [hzero]
  · rw [if_neg hzero]

theorem fillsFloor_iff (s : PromptSection) : FillsFloor provider s ↔ lossOf provider s = 0 := by
  constructor
  · intro h
    rcases h with hspare | ⟨text, hremainder, hle⟩
    · rw [lossOf, if_pos hspare]
    · rw [lossOf_eq hremainder]
      split <;> omega
  · intro h
    by_cases hspare : spare s = 0
    · exact .inl hspare
    · have hremainder : Remainder builtIn provider (sectionMinimum s.name) s _ :=
        remainder_iff.mpr rfl
      rw [lossOf_eq hremainder, if_neg hspare] at h
      exact .inr ⟨_, hremainder, by omega⟩

/-- Nothing is lost below the floors that are filled. -/
theorem sum_lossOf_eq_zero_iff (before : List (PromptSection × Nat)) :
    (before.map fun x => lossOf provider x.1).sum = 0 ↔ ∀ x ∈ before, FillsFloor provider x.1 := by
  rw [List.sum_eq_zero_iff]
  constructor
  · intro h x hx
    exact (fillsFloor_iff x.1).mpr (h _ (List.mem_map_of_mem hx))
  · intro h n hn
    obtain ⟨x, hx, rfl⟩ := List.mem_map.mp hn
    exact (fillsFloor_iff x.1).mp (h x hx)

theorem losesLess_iff (sections : List PromptSection) (totalBudget : ℤ) :
    LosesLess provider sections totalBudget ↔
      totalBudget + (((trimOrder sections).map Prod.fst).map (lossOf provider)).sum <
        floorSum sections := by
  have hsum : ∀ kept : PromptSection → Text,
      (∀ s, Remainder builtIn provider (sectionMinimum s.name) s (kept s)) →
      ((sections.filter PromptSection.canBeCut).map fun s => if spare s = 0 then 0
        else sectionMinimum s.name - textTokens builtIn provider (kept s)).sum =
        (((trimOrder sections).map Prod.fst).map (lossOf provider)).sum := by
    intro kept hkept
    rw [((trimOrder_perm sections).map (lossOf provider)).sum_eq]
    congr 1
    exact List.map_congr_left fun s _ => (lossOf_eq (hkept s)).symm
  constructor
  · rintro ⟨kept, hkept, h⟩
    rw [hsum kept hkept] at h
    exact h
  · intro h
    refine ⟨fun s => (shrink builtIn provider (sectionMinimum s.name) s).content,
      fun s => remainder_iff.mpr rfl, ?_⟩
    rw [hsum _ fun s => remainder_iff.mpr rfl]
    exact h

variable (provider sections) in
/-- `trim` raises when the sections are over the budget and what is left still is. -/
theorem raises_iff (totalBudget : ℤ) :
    (∃ exc, trimBudget builtIn provider sections totalBudget = .error exc ∧
        exc.cls = .contextOverflowError) ↔
      totalBudget < sectionTokens sections ∧
        totalBudget < sectionTokens ((trimExcess builtIn provider sections
          (excessOf sections totalBudget)).working.filter PromptSection.hasText) := by
  rw [trimBudget]
  by_cases hfits : (sectionTokens sections : ℤ) ≤ totalBudget
  · rw [if_pos hfits]
    constructor
    · rintro ⟨exc, h, -⟩
      cases h
    · intro h
      omega
  · rw [if_neg hfits]
    simp only [excessOf]
    split
    · next hover => exact ⟨fun _ => ⟨by omega, hover⟩, fun _ => ⟨_, rfl, rfl⟩⟩
    · next hover =>
      constructor
      · rintro ⟨exc, h, -⟩
        cases h
      · intro h
        exact absurd h.2 hover

section Multiplier

variable (hone : TokenCounter.multiplier provider = 1)

include hone

theorem heldTokens_floor_le (s : PromptSection) :
    heldTokens (cutTo builtIn provider (sectionMinimum s.name) s) ≤ sectionMinimum s.name :=
  (heldTokens_le _).trans (cutTo_tokenCount_le hone (sectionMinimum_ge _) s)

/-- With enough to be cut, every section comes to its floor, less what it loses. -/
theorem leftSum_add_loss {l : List PromptSection} {excess : Nat} (htext : ∀ s ∈ l, s.hasText)
    (hle : (l.map spare).sum ≤ excess) :
    leftSum builtIn provider l excess + (l.map (lossOf provider)).sum = (l.map floorOf).sum := by
  induction l generalizing excess with
  | nil => rfl
  | cons s l ih =>
    simp only [List.map_cons, List.sum_cons] at hle ⊢
    have htail : leftSum builtIn provider l (excess - spare s) + (l.map (lossOf provider)).sum =
        (l.map floorOf).sum :=
      ih (fun r hr => htext r (List.mem_cons_of_mem _ hr)) (by omega)
    have hfloor := floorOf_add_spare s
    have hhead : heldTokens (leftOf builtIn provider excess s) + lossOf provider s = floorOf s := by
      by_cases hspare : spare s = 0
      · rw [leftOf, if_pos (.inr hspare), lossOf, if_pos hspare,
          heldTokens_of_hasText (htext s List.mem_cons_self)]
        omega
      · have htarget : s.tokenCount - min (spare s) excess = sectionMinimum s.name := by
          rw [spare] at hspare hle ⊢
          omega
        have hexcess : excess ≠ 0 := by omega
        have hbelow := heldTokens_floor_le hone s
        rw [leftOf, if_neg (not_or.mpr ⟨hexcess, hspare⟩), htarget, lossOf, if_neg hspare, floorOf]
        rw [spare] at hspare
        omega
    rw [leftSum]
    omega

/-- Where the excess ends, a section is cut to what is left to it, and those
after it are whole. -/
theorem leftSum_split {before after : List PromptSection} {s : PromptSection} {excess : Nat}
    (htext : ∀ r ∈ before ++ s :: after, r.hasText) (hlt : (before.map spare).sum < excess)
    (hle : excess ≤ (before.map spare).sum + spare s) :
    leftSum builtIn provider (before ++ s :: after) excess + (before.map (lossOf provider)).sum =
      (before.map floorOf).sum
        + heldTokens (cutTo builtIn provider
            (s.tokenCount - (excess - (before.map spare).sum)) s)
        + (after.map (·.tokenCount)).sum := by
  have hbefore : leftSum builtIn provider before excess + (before.map (lossOf provider)).sum =
      (before.map floorOf).sum :=
    leftSum_add_loss hone (fun r hr => htext r (List.mem_append_left _ hr)) hlt.le
  have hafter : (after.map heldTokens).sum = (after.map (·.tokenCount)).sum := by
    congr 1
    apply List.map_congr_left
    intro r hr
    exact heldTokens_of_hasText (htext r (List.mem_append_right _ (List.mem_cons_of_mem _ hr)))
  have hdone : excess - (before.map spare).sum - spare s = 0 := by omega
  have hturn : leftOf builtIn provider (excess - (before.map spare).sum) s =
      cutTo builtIn provider (s.tokenCount - (excess - (before.map spare).sum)) s := by
    rw [leftOf, if_neg (by omega), Nat.min_eq_right (by omega)]
  rw [leftSum_append, leftSum, hdone, leftSum_zero, hafter, hturn]
  omega

/-- With two tokens or more to be cut to, nothing is left above them. -/
theorem heldTokens_cutTo_le {target : Nat} (htarget : target ≠ 1) (s : PromptSection) :
    heldTokens (cutTo builtIn provider target s) ≤ target := by
  rw [heldTokens_cutTo]
  by_cases hzero : target = 0
  · rw [if_pos hzero]
    exact Nat.zero_le _
  · rw [if_neg hzero]
    refine (textTokens_le _).trans ?_
    by_cases hhistory : s.name = "conversation_history"
    · rw [shrink, if_pos hhistory]
      exact shrinkHistory_count_le hone (by omega) s
    · rw [shrink, if_neg hhistory]
      exact keepWholeLines_count_le hone (by omega) s.content

/-- Cut to one token, a section is one token over it in one case. -/
theorem heldTokens_cutTo_one {s : PromptSection}
    (hcount : 2 ≤ builtIn.countText s.content provider) :
    heldTokens (cutTo builtIn provider 1 s) ≤ 1 ∧ ¬ OneOver s ∨
      heldTokens (cutTo builtIn provider 1 s) = 2 ∧ OneOver s := by
  rw [heldTokens_cutTo, if_neg Nat.one_ne_zero]
  by_cases hhistory : s.name = "conversation_history"
  · left
    refine ⟨(textTokens_le _).trans ?_, fun hover => hover.1 hhistory⟩
    rw [shrink, if_pos hhistory]
    exact shrinkHistory_count_le hone (Nat.le_refl 1) s
  · have hcontent : (shrink builtIn provider 1 s).content =
        keepWholeLines builtIn provider 1 s.content := by
      rw [shrink, if_neg hhistory]
    rw [hcontent]
    cases htext : s.content with
    | nil =>
      rw [htext, TokenCounter.countText_nil] at hcount
      omega
    | cons c rest =>
      rw [htext] at hcount
      by_cases hc : c = '\n'
      · left
        subst hc
        rw [keepWholeLines_one_of_break]
        refine ⟨by simp [textTokens, PyText.strip, PyText.stripWhile, PyText.dropEndWhile], ?_⟩
        intro hover
        exact hover.2.1 (by rw [htext]; rfl)
      · rw [keepWholeLines_one hc hcount]
        have hlength := length_cutAtWord ((c :: rest).take 10) (c :: rest)
        have hten : ((c :: rest).take 10).length ≤ 10 := List.length_take_le _ _
        by_cases height : 8 ≤ (cutAtWord ((c :: rest).take 10) (c :: rest)).length
        · right
          have hne : cutAtWord ((c :: rest).take 10) (c :: rest) ≠ [] := by
            intro hnil
            rw [hnil] at height
            exact absurd height (by decide)
          refine ⟨?_, hhistory, by rw [htext]; simpa using hc, by rw [htext]; exact height⟩
          rw [textTokens, if_neg (strip_cutAtWord_ne_nil hne),
            TokenCounter.countText_fallback builtIn rfl hone hne]
          omega
        · left
          refine ⟨(textTokens_le _).trans (builtIn_count_le hone (Nat.le_refl 1) (by omega)), ?_⟩
          intro hover
          apply height
          have := hover.2.2
          rwa [htext] at this

/-! ## The budget -/

/-- Below the floors, what is left is the floors less what they lose. -/
theorem final_of_floors {excess : Nat} (htext : ∀ s ∈ sections, s.hasText)
    (hle : sectionTokens sections ≤ floorSum sections + excess) :
    sectionTokens ((trimExcess builtIn provider sections excess).working.filter
        PromptSection.hasText)
        + (((trimOrder sections).map Prod.fst).map (lossOf provider)).sum =
      floorSum sections := by
  have hfinal := final_add builtIn provider sections htext excess
  have hfloors := floorSum_add sections
  have hsplit := sum_floorOf_add ((trimOrder sections).map Prod.fst)
  have hle' : (((trimOrder sections).map Prod.fst).map spare).sum ≤ excess := by omega
  have hleft := leftSum_add_loss hone (fun s hs => htext s (mem_of_mem_trimOrder hs)) hle'
  omega

/-- Above the floors, what is left is the budget, less what the sections before
the last one lose, and what the last one has above its target. -/
theorem final_of_split {before after : List (PromptSection × Nat)} {s : PromptSection}
    {idx excess : Nat} (htext : ∀ s ∈ sections, s.hasText)
    (horder : trimOrder sections = before ++ (s, idx) :: after)
    (hlt : (before.map fun x => spare x.1).sum < excess)
    (hle : excess ≤ (before.map fun x => spare x.1).sum + spare s) :
    sectionTokens ((trimExcess builtIn provider sections excess).working.filter
        PromptSection.hasText)
        + (before.map fun x => lossOf provider x.1).sum
        + (s.tokenCount - (excess - (before.map fun x => spare x.1).sum)) + excess =
      sectionTokens sections
        + heldTokens (cutTo builtIn provider
            (s.tokenCount - (excess - (before.map fun x => spare x.1).sum)) s) := by
  have hfinal := final_add builtIn provider sections htext excess
  have horder' : (trimOrder sections).map Prod.fst =
      before.map Prod.fst ++ s :: after.map Prod.fst := by
    rw [horder, List.map_append, List.map_cons]
  have htext' : ∀ r ∈ before.map Prod.fst ++ s :: after.map Prod.fst, r.hasText := by
    intro r hr
    rw [← horder'] at hr
    exact htext r (mem_of_mem_trimOrder hr)
  have hspares : ((before.map Prod.fst).map spare).sum = (before.map fun x => spare x.1).sum := by
    rw [List.map_map]
    rfl
  have hlosses : ((before.map Prod.fst).map (lossOf provider)).sum =
      (before.map fun x => lossOf provider x.1).sum := by
    rw [List.map_map]
    rfl
  rw [← hspares] at hlt hle ⊢
  have hleft := leftSum_split hone htext' hlt hle
  have hsplit := sum_floorOf_add (before.map Prod.fst)
  have hspare := floorOf_add_spare s
  rw [horder'] at hfinal
  simp only [List.map_append, List.map_cons, List.sum_append, List.sum_cons] at hfinal
  omega

/-- Above the floors, only a section that ends one token over leaves `trim` over its budget. -/
theorem endsOneOver_of_lt_final {excess : Nat} (htext : ∀ s ∈ sections, s.hasText)
    (hcount : ∀ s ∈ sections, s.tokenCount = builtIn.countText s.content provider)
    (hpos : 0 < excess) (hle : floorSum sections + excess ≤ sectionTokens sections)
    (h : sectionTokens sections < sectionTokens ((trimExcess builtIn provider sections
      excess).working.filter PromptSection.hasText) + excess) :
    EndsOneOver provider sections excess := by
  have hreaches : excess ≤ ((trimOrder sections).map fun x => spare x.1).sum := by
    have hfloors := floorSum_add sections
    rw [List.map_map] at hfloors
    have hsame : ((trimOrder sections).map (spare ∘ Prod.fst)).sum =
        ((trimOrder sections).map fun x => spare x.1).sum := rfl
    omega
  obtain ⟨before, ⟨s, idx⟩, after, horder, hlt, hreach⟩ := exists_reaches _ hpos hreaches
  have hfinal := final_of_split hone htext horder hlt hreach
  have hmem : (s, idx) ∈ trimOrder sections := by
    rw [horder]
    exact List.mem_append_right _ List.mem_cons_self
  obtain ⟨hs, hcut⟩ := mem_trimOrder hmem
  -- two tokens or more are never exceeded
  have htarget : s.tokenCount - (excess - (before.map fun x => spare x.1).sum) = 1 := by
    by_contra hne
    have hheld := heldTokens_cutTo_le hone hne s
    omega
  rw [htarget] at hfinal
  dsimp only at hreach
  have hcount' := hcount s (List.mem_of_getElem? hs)
  have hunique := (trimOrder_unique horder).1
  rcases heldTokens_cutTo_one hone (s := s) (by omega) with ⟨hheld, -⟩ | ⟨hheld, hover⟩
  · omega
  · refine ⟨idx, s, hs, hcut, ?_, by omega, ?_, hover, ?_⟩
    · rw [spareBefore, hunique]
      omega
    · -- the floor is at most the one token that is asked for
      rcases sectionMinimum_ge s.name with hzero | hthree
      · exact hzero
      · rw [spare] at hreach
        omega
    · rw [hunique]
      exact (sum_lossOf_eq_zero_iff before).mp (by omega)

/-- A section that ends one token over leaves `trim` over its budget. -/
theorem lt_final_of_endsOneOver {excess : Nat} (htext : ∀ s ∈ sections, s.hasText)
    (hcount : ∀ s ∈ sections, s.tokenCount = builtIn.countText s.content provider)
    (h : EndsOneOver provider sections excess) :
    sectionTokens sections < sectionTokens ((trimExcess builtIn provider sections
      excess).working.filter PromptSection.hasText) + excess := by
  obtain ⟨idx, s, hs, hcut, hexcess, htwo, hfloor, hover, hfills⟩ := h
  obtain ⟨after, horder, -⟩ := trimOrder_split hs hcut
  rw [spareBefore] at hexcess
  generalize (trimOrder sections).takeWhile (fun x => x.2 ≠ idx) = before at *
  have hspare : spare s = s.tokenCount := by rw [spare, hfloor, Nat.sub_zero]
  have hfinal := @final_of_split _ _ hone _ _ _ _ excess htext horder (by omega) (by omega)
  have htarget : s.tokenCount - (excess - (before.map fun x => spare x.1).sum) = 1 := by omega
  have hcount' := hcount s (List.mem_of_getElem? hs)
  rw [htarget, (sum_lossOf_eq_zero_iff before).mpr hfills] at hfinal
  rcases heldTokens_cutTo_one hone (s := s) (by omega) with ⟨-, hnot⟩ | ⟨hheld, -⟩
  · exact absurd hover hnot
  · omega

/-- Above the floors, `trim` is over its budget exactly when it ends one token over. -/
theorem lt_final_iff {excess : Nat} (htext : ∀ s ∈ sections, s.hasText)
    (hcount : ∀ s ∈ sections, s.tokenCount = builtIn.countText s.content provider)
    (hpos : 0 < excess) (hle : floorSum sections + excess ≤ sectionTokens sections) :
    sectionTokens sections < sectionTokens ((trimExcess builtIn provider sections
        excess).working.filter PromptSection.hasText) + excess ↔
      EndsOneOver provider sections excess :=
  ⟨endsOneOver_of_lt_final hone htext hcount hpos hle, lt_final_of_endsOneOver hone htext hcount⟩

/-- When `trim` raises exactly on a budget below the floors: on a budget that
holds the floors it must not end one token over, and on any other one the
floors must lose less than they are over. -/
theorem raises_iff_floors_iff (htext : ∀ s ∈ sections, s.hasText)
    (hcount : ∀ s ∈ sections, s.tokenCount = builtIn.countText s.content provider)
    (totalBudget : ℤ) :
    ((∃ exc, trimBudget builtIn provider sections totalBudget = .error exc ∧
        exc.cls = .contextOverflowError) ↔ totalBudget < floorSum sections) ↔
      (floorSum sections : ℤ) ≤ totalBudget ∧
          ¬ EndsOneOver provider sections (excessOf sections totalBudget) ∨
        totalBudget < floorSum sections ∧ LosesLess provider sections totalBudget := by
  have hfloors := floorSum_add sections
  rw [raises_iff]
  rcases lt_or_ge totalBudget (floorSum sections : ℤ) with hbelow | habove
  · have hexcess : sectionTokens sections ≤ floorSum sections + excessOf sections totalBudget := by
      rw [excessOf]
      omega
    have hfinal := final_of_floors hone htext hexcess
    rw [losesLess_iff]
    constructor
    · intro h
      have hover := (h.mpr hbelow).2
      exact .inr ⟨hbelow, by omega⟩
    · intro h
      rcases h with h | h
      · omega
      · exact ⟨fun _ => hbelow, fun _ => ⟨by omega, by omega⟩⟩
  · by_cases hover : totalBudget < sectionTokens sections
    · have hexcess : (excessOf sections totalBudget : ℤ) = sectionTokens sections - totalBudget := by
        rw [excessOf]
        omega
      have hfinal := @lt_final_iff _ _ hone (excessOf sections totalBudget) htext hcount
        (by omega) (by omega)
      rw [← hfinal]
      constructor
      · intro h
        left
        refine ⟨habove, ?_⟩
        intro hlt
        have := h.mp ⟨hover, by omega⟩
        omega
      · intro h
        rcases h with ⟨-, h⟩ | ⟨h, -⟩
        · constructor
          · intro hraises
            exact absurd (by omega) h
          · intro hlt
            omega
        · omega
    · constructor
      · intro _
        left
        refine ⟨habove, ?_⟩
        rintro ⟨idx, s, -, -, hlast, htwo, -⟩
        rw [excessOf] at hlast
        omega
      · intro _
        exact ⟨fun h => absurd h.1 hover, fun h => by omega⟩

end Multiplier

end BuiltIn

/-! ### Five tokens of context, and five that are locked -/

def lockedQuery : PromptSection :=
  { name := "user_query", content := "What is it, then?...".toList, priority := 10, tokenCount := 5
    trimmable := false }

def twoWords : PromptSection :=
  { name := "graph_context", content := "aaaaaaaaa bbbbbbbbbb".toList, priority := 5
    tokenCount := 5 }

/-- A fact and five lines before the question. -/
def factAndLines : List PromptSection :=
  [{ name := "graph_context", content := "fact".toList, priority := 4, tokenCount := 1 },
    { name := "retrieval", content := "aaaa\nbbbb\ncccc\ndddd\neeee".toList, tokenCount := 6 },
    lockedQuery]

/-- Three tokens are over: the fact is dropped, and three of the lines. -/
theorem raises_iff_floors_cut :
    ((trimBudget builtIn "nvidia" factAndLines 9).toOption.map Prod.snd =
        some ["graph_context", "retrieval"]) ∧
      ((∃ exc, trimBudget builtIn "nvidia" factAndLines 9 = .error exc ∧
        exc.cls = .contextOverflowError) ↔ (9 : ℤ) < floorSum factAndLines) := by
  refine ⟨by decide +kernel, ?_⟩
  refine (raises_iff_floors_iff (by decide +kernel) (by decide +kernel) (by decide +kernel) 9).mpr
    (.inl ⟨by decide, ?_⟩)
  -- the fact has no token but one, and of the lines three tokens are left
  rintro ⟨idx, s, hs, hcut, hexcess, -⟩
  match idx with
  | 0 | 1 =>
    obtain rfl := Option.some.inj hs
    exact absurd hexcess (by decide)
  | 2 =>
    obtain rfl := Option.some.inj hs
    exact absurd hcut (by decide)
  | n + 3 => cases hs

/-- With one token left for the context, nine of its characters are kept. -/
theorem not_forall_raises_iff_floors :
    ¬ ∀ (sections : List PromptSection) (totalBudget : ℤ), (∀ s ∈ sections, s.hasText) →
      (∀ s ∈ sections, s.tokenCount = builtIn.countText s.content "nvidia") →
      ((∃ exc, trimBudget builtIn "nvidia" sections totalBudget = .error exc ∧
          exc.cls = .contextOverflowError) ↔ totalBudget < floorSum sections) := by
  intro h
  have hiff := h [lockedQuery, twoWords] 6 (by decide +kernel) (by decide +kernel)
  have hraises := (raises_iff "nvidia" [lockedQuery, twoWords] 6).mpr (by decide +kernel)
  exact absurd (hiff.mp hraises) (by decide)

end PriorityTrimmer

end LlmService
