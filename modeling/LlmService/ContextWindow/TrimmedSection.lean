import LlmService.ContextWindow.Trimmer
import LlmService.Lib.Infix
import LlmService.Lib.StableSort

/-!
# What trimming leaves of one section

A section is cut to the tokens that are still over when its turn comes; by
then every cuttable section of a lower priority has given what it can. What
is cut is left as its first whole lines.
-/

namespace LlmService

namespace PriorityTrimmer

/-- What a section can give. -/
def spare (s : PromptSection) : Nat := s.tokenCount - sectionMinimum s.name

/-- The tokens that are still over the budget when the sections below a
priority have given what they can. -/
def stillOver (sections : List PromptSection) (totalBudget priority : Nat) : Nat :=
  (sectionTokens sections - totalBudget)
    - ((sections.filter fun s => s.canBeCut && decide (s.priority < priority)).map spare).sum

/-- What is left of a section when so many tokens are still over. -/
def leftOf (counter : TokenCounter) (provider : String) (excess : Nat) (sec : PromptSection) :
    PromptSection :=
  if excess = 0 ∨ spare sec = 0 then sec
  else cutTo counter provider (sec.tokenCount - min (spare sec) excess) sec

variable {counter : TokenCounter} {provider : String} {sections : List PromptSection}
  {totalBudget : Nat}

section Loop

theorem trimLoop_of_done (order : List (PromptSection × Nat)) {t : Trimming} (h : t.excess = 0) :
    trimLoop counter provider order t = t := by
  cases order with
  | nil => rfl
  | cons head rest => rw [trimLoop, if_pos h]

variable (counter provider) in
theorem trimLoop_append (before after : List (PromptSection × Nat)) (t : Trimming) :
    trimLoop counter provider (before ++ after) t =
      trimLoop counter provider after (trimLoop counter provider before t) := by
  induction before generalizing t with
  | nil => rfl
  | cons head rest ih =>
    obtain ⟨sec, idx⟩ := head
    simp only [List.cons_append, trimLoop]
    by_cases hdone : t.excess = 0
    · rw [if_pos hdone, if_pos hdone, trimLoop_of_done after hdone]
    · rw [if_neg hdone, if_neg hdone]
      exact ih _

variable (counter provider) in
theorem trimSection_excess (t : Trimming) (sec : PromptSection) (idx : Nat) :
    (trimSection counter provider t sec idx).excess = t.excess - spare sec := by
  simp only [trimSection]
  by_cases hspare : sec.tokenCount - sectionMinimum sec.name = 0
  · rw [if_pos hspare, spare, hspare, Nat.sub_zero]
  · rw [if_neg hspare]
    show t.excess - min (sec.tokenCount - sectionMinimum sec.name) t.excess = _
    rw [spare]
    omega

variable (counter provider) in
theorem trimLoop_excess (order : List (PromptSection × Nat)) (t : Trimming) :
    (trimLoop counter provider order t).excess =
      t.excess - (order.map fun s => spare s.1).sum := by
  induction order generalizing t with
  | nil => rfl
  | cons head rest ih =>
    obtain ⟨sec, idx⟩ := head
    simp only [trimLoop, List.map_cons, List.sum_cons]
    by_cases hdone : t.excess = 0
    · rw [if_pos hdone, hdone, Nat.zero_sub]
    · rw [if_neg hdone, ih, trimSection_excess]
      omega

variable (counter provider) in
/-- The turn of one section, when what stands before it has had its own. -/
theorem trimLoop_getElem? {before after : List (PromptSection × Nat)} {sec : PromptSection}
    {idx : Nat} {t : Trimming} (hsec : t.working[idx]? = some sec)
    (hother : ∀ s ∈ before ++ after, s.2 ≠ idx) :
    (trimLoop counter provider (before ++ (sec, idx) :: after) t).working[idx]? =
      some (leftOf counter provider (t.excess - (before.map fun s => spare s.1).sum) sec) := by
  rw [trimLoop_append, ← trimLoop_excess counter provider before t]
  have hbefore : (trimLoop counter provider before t).working[idx]? = some sec := by
    rw [trimLoop_working counter provider before t fun s hs => hother s (List.mem_append_left _ hs)]
    exact hsec
  generalize trimLoop counter provider before t = u at hbefore
  simp only [trimLoop, leftOf]
  by_cases hdone : u.excess = 0
  · rw [if_pos hdone, if_pos (.inl hdone)]
    exact hbefore
  · rw [if_neg hdone, trimLoop_working counter provider after _ fun s hs =>
      hother s (List.mem_append_right _ hs)]
    simp only [trimSection]
    by_cases hspare : sec.tokenCount - sectionMinimum sec.name = 0
    · rw [if_pos hspare, if_pos (.inr hspare)]
      exact hbefore
    · have hneg : ¬ (u.excess = 0 ∨ spare sec = 0) := not_or.mpr ⟨hdone, hspare⟩
      rw [if_neg hspare, if_neg hneg]
      exact List.getElem?_set_self (List.getElem?_eq_some_iff.mp hbefore).1

end Loop

/-! ## The order of the loop -/

theorem trimOrder_positions_nodup (sections : List PromptSection) :
    ((trimOrder sections).map Prod.snd).Nodup := by
  have hperm := (List.perm_insertionSort (fun a b : PromptSection × Nat =>
    a.1.priority ≤ b.1.priority) (sections.zipIdx.filter fun s => s.1.canBeCut)).map Prod.snd
  rw [trimOrder, hperm.nodup_iff]
  refine List.Nodup.sublist (List.filter_sublist.map Prod.snd) ?_
  rw [List.zipIdx_map_snd]
  exact List.nodup_range' ..

theorem mem_trimOrder_iff {s : PromptSection} {idx : Nat} :
    (s, idx) ∈ trimOrder sections ↔ sections[idx]? = some s ∧ s.canBeCut := by
  simp only [trimOrder, List.mem_insertionSort, List.mem_filter, List.mem_zipIdx_iff_getElem?]

/-- A position occurs once in the order. -/
theorem trimOrder_unique {below above : List (PromptSection × Nat)} {s : PromptSection} {idx : Nat}
    (h : trimOrder sections = below ++ (s, idx) :: above) :
    ((trimOrder sections).takeWhile fun s => s.2 ≠ idx) = below ∧
      ∀ x ∈ below ++ above, x.2 ≠ idx := by
  have hnodup := trimOrder_positions_nodup sections
  rw [h, List.map_append, List.map_cons] at hnodup
  have hother : ∀ x ∈ below ++ above, x.2 ≠ idx := by
    intro x hx hidx
    have hmem : x.2 ∈ below.map Prod.snd ++ above.map Prod.snd := by
      rw [← List.map_append]
      exact List.mem_map_of_mem hx
    rw [hidx] at hmem
    exact (List.nodup_middle.mp hnodup).notMem hmem
  refine ⟨?_, hother⟩
  rw [h, List.takeWhile_append_of_pos fun x hx => by
    simpa using hother x (List.mem_append_left _ hx)]
  simp

/-- The order in which sections are cut, around the first section of its priority. -/
theorem trimOrder_eq_append {before : List PromptSection} {sec : PromptSection}
    (after : List PromptSection) (hcut : sec.canBeCut) (hfirst : ∀ s ∈ before, s.canBeCut → s.priority ≠ sec.priority) :
    ∃ below above, trimOrder (before ++ sec :: after) =
        below ++ (sec, before.length) :: above ∧
      (below.map fun s => spare s.1).sum = (((before ++ sec :: after).filter fun s =>
        s.canBeCut && decide (s.priority < sec.priority)).map spare).sum := by
  have hsplit : ((before ++ sec :: after).zipIdx.filter fun s => s.1.canBeCut) =
      (before.zipIdx.filter fun s => s.1.canBeCut) ++ (sec, before.length) ::
        ((after.zipIdx (before.length + 1)).filter fun s => s.1.canBeCut) := by
    rw [List.zipIdx_append, List.filter_append, Nat.zero_add, List.zipIdx_cons,
      List.filter_cons_of_pos (by exact hcut)]
  have hkeys : ∀ s ∈ before.zipIdx.filter fun s => s.1.canBeCut,
      s.1.priority ≠ sec.priority := by
    intro s hs
    obtain ⟨hmem, hcan⟩ := List.mem_filter.mp hs
    exact hfirst s.1 (List.fst_mem_of_mem_zipIdx hmem) hcan
  obtain ⟨below, above, hsort, hperm⟩ := StableSort.insertionSort_eq_append
    (fun s : PromptSection × Nat => s.1.priority) (x := (sec, before.length))
    ((after.zipIdx (before.length + 1)).filter fun s => s.1.canBeCut) hkeys
  refine ⟨below, above, ?_, ?_⟩
  · rw [trimOrder, hsplit]
    exact hsort
  · rw [← hsplit, List.filter_filter] at hperm
    have hfst : ((before ++ sec :: after).filter fun s =>
          s.canBeCut && decide (s.priority < sec.priority)) =
        ((before ++ sec :: after).zipIdx.filter fun s =>
          decide (s.1.priority < sec.priority) && s.1.canBeCut).map Prod.fst := by
      conv_lhs => rw [← List.zipIdx_map_fst 0 (before ++ sec :: after)]
      rw [List.filter_map]
      congr 2
      funext s
      exact Bool.and_comm _ _
    rw [hfst, List.map_map]
    exact (hperm.map _).sum_eq

/-! ## One section -/

theorem leftOf_name (counter : TokenCounter) (provider : String) (excess : Nat)
    (sec : PromptSection) : (leftOf counter provider excess sec).name = sec.name := by
  rw [leftOf]
  by_cases hwhole : excess = 0 ∨ spare sec = 0
  · rw [if_pos hwhole]
  · rw [if_neg hwhole, cutTo_name]

/-- The position of the only section of its name. -/
theorem position_of_name {before after : List PromptSection} {sec s : PromptSection} {idx : Nat}
    (hname : ∀ s ∈ before ++ after, s.name ≠ sec.name)
    (hidx : (before ++ sec :: after)[idx]? = some s) (hs : s.name = sec.name) :
    idx = before.length := by
  by_contra hne
  rcases Nat.lt_or_gt_of_ne hne with hlt | hgt
  · rw [List.getElem?_append_left hlt] at hidx
    exact hname s (List.mem_append_left _ (List.mem_of_getElem? hidx)) hs
  · rw [List.getElem?_append_right (by omega)] at hidx
    obtain ⟨k, hk⟩ : ∃ k, idx - before.length = k + 1 := ⟨idx - before.length - 1, by omega⟩
    rw [hk, List.getElem?_cons_succ] at hidx
    exact hname s (List.mem_append_right _ (List.mem_of_getElem? hidx)) hs

/-- A section that is the first of its priority and the only one of its name
comes out of `trim` as what the tokens still over leave of it. -/
theorem mem_trim_iff {out before after : List PromptSection} {names : List String}
    {sec : PromptSection} (h : trim counter provider sections totalBudget = .ok (out, names))
    (hsections : sections = before ++ sec :: after) (hcut : sec.canBeCut) (htext : sec.hasText)
    (hfirst : ∀ s ∈ before, s.canBeCut → s.priority ≠ sec.priority)
    (hname : ∀ s ∈ before ++ after, s.name ≠ sec.name) (s : PromptSection) :
    (s ∈ out ∧ s.name = sec.name) ↔
      s = leftOf counter provider (stillOver sections totalBudget sec.priority) sec ∧
        s.hasText := by
  have hposition : ∀ (j : Nat) s₀, sections[j]? = some s₀ → s₀.name = sec.name →
      j = before.length := by
    rw [hsections]
    exact fun j s₀ => position_of_name hname
  have hsec : sections[before.length]? = some sec := by
    rw [hsections, List.getElem?_append_right (Nat.le_refl _), Nat.sub_self]
    rfl
  simp only [trim] at h
  by_cases hfits : sectionTokens sections ≤ totalBudget
  · rw [if_pos hfits] at h
    cases h
    have hover : stillOver sections totalBudget sec.priority = 0 := by
      rw [stillOver]
      omega
    rw [hover, leftOf, if_pos (.inl rfl)]
    constructor
    · intro hs
      obtain ⟨hmem, hsame⟩ := hs
      obtain ⟨j, hj⟩ := List.getElem?_of_mem hmem
      rw [hposition j s hj hsame, hsec] at hj
      cases hj
      exact ⟨rfl, htext⟩
    · intro hs
      rw [hs.1]
      exact ⟨List.mem_of_getElem? hsec, rfl⟩
  · rw [if_neg hfits] at h
    obtain ⟨below, above, horder, hsum⟩ := trimOrder_eq_append after hcut hfirst
    have hother := (trimOrder_unique horder).2
    rw [← hsections] at horder hsum
    have hleft := trimLoop_getElem? counter provider
      (t := { working := sections, excess := sectionTokens sections - totalBudget }) hsec hother
    rw [hsum, ← horder] at hleft
    split at h
    · cases h
    · cases h
      simp only [List.mem_filter, trimExcess]
      constructor
      · intro hs
        obtain ⟨⟨hmem, hkept⟩, hsame⟩ := hs
        obtain ⟨j, hj⟩ := List.getElem?_of_mem hmem
        obtain ⟨s₀, hs₀, hcut₀⟩ := trimLoop_isCut
          (t := { working := sections, excess := sectionTokens sections - totalBudget })
          (fun x hx => mem_trimOrder hx) (fun j s hs => ⟨s, hs, .inl rfl⟩) j s hj
        have hs₀name : s₀.name = sec.name := by
          rcases hcut₀ with rfl | ⟨-, target, rfl⟩
          · exact hsame
          · rw [cutTo_name] at hsame
            exact hsame
        rw [hposition j s₀ hs₀ hs₀name, hleft] at hj
        exact ⟨(Option.some.inj hj).symm, hkept⟩
      · intro hs
        obtain ⟨hs, hkept⟩ := hs
        refine ⟨⟨?_, hkept⟩, ?_⟩
        · rw [hs]
          exact List.mem_of_getElem? hleft
        · rw [hs]
          exact leftOf_name counter provider _ sec

/-! ## Whole lines -/

/-- What the first `n` lines of a text cost. -/
def linesTokens (counter : TokenCounter) (provider : String) (text : Text) (n : Nat) : Nat :=
  (((text.splitOn '\n').take n).map fun line => counter.countText line provider + 1).sum

variable (counter provider) in
/-- The lines that are kept are as many as fit. -/
theorem wholeLines_eq_take (target : Nat) (lines : List Text) (used : Nat) :
    ∃ n, wholeLines counter provider target lines used = lines.take n ∧
      ∀ k, k ≤ lines.length → (k ≤ n ↔ k = 0 ∨
        used + ((lines.take k).map fun line => counter.countText line provider + 1).sum
          ≤ target) := by
  induction lines generalizing used with
  | nil =>
    refine ⟨0, rfl, ?_⟩
    intro k hk
    rw [List.length_nil, Nat.le_zero] at hk
    subst hk
    simp
  | cons line rest ih =>
    simp only [wholeLines]
    by_cases hover : target < used + (counter.countText line provider + 1)
    · refine ⟨0, by rw [if_pos hover]; rfl, ?_⟩
      intro k hk
      cases k with
      | zero => simp
      | succ k =>
        simp only [List.take_succ_cons, List.map_cons, List.sum_cons]
        omega
    · obtain ⟨n, htake, hn⟩ := ih (used + (counter.countText line provider + 1))
      refine ⟨n + 1, by rw [if_neg hover, htake]; rfl, ?_⟩
      intro k hk
      cases k with
      | zero => simp
      | succ k =>
        simp only [List.take_succ_cons, List.map_cons, List.sum_cons]
        have hk' := hn k (by simpa using hk)
        rw [← Nat.add_assoc]
        cases k with
        | zero =>
          simp only [List.take_zero, List.map_nil, List.sum_nil]
          omega
        | succ k => omega

theorem length_cutAtWord (cut original : Text) : (cutAtWord cut original).length ≤ cut.length := by
  have hrstrip : ∀ text : Text, (PyText.rstrip text).length ≤ text.length :=
    fun text => (PyText.rstrip_isPrefix text).length_le
  simp only [cutAtWord]
  cases original[cut.length]? with
  | none => exact hrstrip cut
  | some c =>
    by_cases hc : PyText.isSpace c = true
    · simp only [if_pos hc]
      exact hrstrip cut
    · simp only [if_neg hc]
      split
      · refine (hrstrip _).trans ?_
        rw [List.length_take]
        exact Nat.min_le_right _ _
      · exact Nat.zero_le _

/-- A text that is cut to its whole lines still reaches beyond `lead` if the
lines up to there fit. When not even its first line does, its start is cut by
tokens, which must not reach so far. -/
theorem prefix_keepWholeLines_iff {lead text : Text} {c : Char} {target : Nat}
    (htext : lead ++ [c] <+: text) (hc : PyText.isSpace c = false)
    (hshort : target < linesTokens counter provider text 1 →
      (counter.truncateTextToTokens text target provider).length ≤ lead.length) :
    lead ++ [c] <+: keepWholeLines counter provider target text ↔
      linesTokens counter provider text (lead.count '\n' + 1) ≤ target := by
  have hbreak : c ≠ '\n' := by
    intro h
    rw [h] at hc
    exact absurd hc (by decide)
  have hlines : lead.count '\n' + 1 ≤ (text.splitOn '\n').length := by
    have hall := PyText.prefix_join_take_iff hbreak htext (text.splitOn '\n').length
    rw [List.take_length, PyText.join, List.intercalate_splitOn] at hall
    exact hall.mp htext
  obtain ⟨n, htake, hn⟩ := wholeLines_eq_take counter provider target (text.splitOn '\n') 0
  have hfits : linesTokens counter provider text (lead.count '\n' + 1) ≤ target ↔
      lead.count '\n' < n := by
    have hcount := hn (lead.count '\n' + 1) hlines
    rw [Nat.zero_add] at hcount
    rw [linesTokens]
    omega
  rw [hfits]
  simp only [keepWholeLines, htake]
  cases hkept : (text.splitOn '\n').take n with
  | cons first others =>
    simp only []
    rw [PyText.prefix_rstrip_iff hc, newline, ← hkept]
    exact PyText.prefix_join_take_iff hbreak htext n
  | nil =>
    have hzero : n = 0 := by
      by_contra hne
      have hlength := congrArg List.length hkept
      rw [List.length_take, List.length_nil] at hlength
      omega
    have hover : target < linesTokens counter provider text 1 := by
      have hone := hn 1 (by omega)
      rw [Nat.zero_add] at hone
      rw [linesTokens]
      omega
    simp only []
    constructor
    · intro h
      have hlength := h.length_le
      have hcut := length_cutAtWord (counter.truncateTextToTokens text target provider) text
      have hshort := hshort hover
      rw [List.length_append, List.length_singleton] at hlength
      omega
    · intro h
      omega

end PriorityTrimmer

end LlmService
