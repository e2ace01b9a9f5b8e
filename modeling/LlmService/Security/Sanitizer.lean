import LlmService.ContextWindow.Models
import LlmService.Lib.Replace

/-!
# InputSanitizer

`security/sanitizer.py`: the delimiters of a prompt are escaped in what the
user wrote. The patterns are literal texts, and so are their replacements: an
escape of a character that is no letter stays in a replacement as it is.
Whether a message looks like a jailbreak is left out.
-/

namespace LlmService

namespace InputSanitizer

/-- Three number signs, the first of `PROMPT_DELIMITERS`. -/
def hashes : Text := "###".toList

def escapedHashes : Text := "\\#\\#\\#".toList

/-- The other `PROMPT_DELIMITERS`, with what they are replaced by. -/
def tagDelimiters : List (Text × Text) :=
  [("<|im_start|>".toList, "\\<\\|im_start\\|\\>".toList),
    ("<|im_end|>".toList, "\\<\\|im_end\\|\\>".toList),
    ("[INST]".toList, "\\[INST\\]_escaped".toList),
    ("[/INST]".toList, "\\[/INST\\]_escaped".toList),
    ("<<SYS>>".toList, "\\<\\<SYS\\>\\>_escaped".toList),
    ("<</SYS>>".toList, "\\<\\</SYS\\>\\>_escaped".toList)]

/-- `PROMPT_DELIMITERS`. -/
def promptDelimiters : List (Text × Text) := (hashes, escapedHashes) :: tagDelimiters

/-- `sanitize`; `maxChars` is 4096 by default. -/
def sanitize (maxChars : Nat) (userMessage : Text) : Text :=
  if userMessage = [] then [] else replaceEach promptDelimiters (userMessage.take maxChars)

theorem sanitize_eq (maxChars : Nat) (userMessage : Text) :
    sanitize maxChars userMessage
      = replaceEach tagDelimiters (replaceAll hashes escapedHashes (userMessage.take maxChars)) := by
  rw [sanitize]
  by_cases h : userMessage = []
  · subst h
    rw [if_pos rfl, List.take_nil, replaceAll_nil, replaceEach_nil]
  · rw [if_neg h, promptDelimiters, replaceEach_cons]

/-! ## The tags -/

/-- No escape of a tag assembles a delimiter. -/
theorem guarded_tagDelimiters :
    ∀ part ∈ tagDelimiters, ∀ other ∈ promptDelimiters, Guarded part.2 other.1 := by
  have htails : ∀ part ∈ tagDelimiters, ∀ other ∈ promptDelimiters,
      other.1 ≠ [] ∧ part.2.head? = some '\\' ∧ '\\' ∉ other.1 ∧
        ∀ s ∈ part.2.tails, s ≠ [] → ¬ s <+: other.1 ∧ ¬ other.1 <+: s := by
    decide
  intro part hpart other hother
  obtain ⟨hne, hhead, hfree, hs⟩ := htails part hpart other hother
  refine .of_tails hne ?_ hs
  obtain ⟨rest, hrest⟩ := List.head?_eq_some_iff.mp hhead
  exact ⟨'\\', rest, hrest, hfree⟩

/-- No number sign stands in a tag, and the escape of a tag has none either. -/
theorem tagDelimiters_spare_hashes :
    ∀ part ∈ tagDelimiters, part.1 ≠ [] ∧ ∀ c ∈ hashes, c ∉ part.1 := by
  simp [tagDelimiters, hashes]

/-- Escaping the tags leaves no tag. -/
theorem not_infix_sanitize {part : Text × Text} (hpart : part ∈ tagDelimiters) (maxChars : Nat)
    (userMessage : Text) : ¬ part.1 <:+: sanitize maxChars userMessage := by
  rw [sanitize_eq]
  exact not_infix_replaceEach_of_mem
    (fun a ha b hb => guarded_tagDelimiters a ha b (List.mem_cons_of_mem _ hb)) hpart

/-- Escaping the tags neither makes nor breaks three number signs in a row. -/
theorem hashes_infix_sanitize (maxChars : Nat) (userMessage : Text) :
    hashes <:+: sanitize maxChars userMessage
      ↔ hashes <:+: replaceAll hashes escapedHashes (userMessage.take maxChars) := by
  rw [sanitize_eq]
  constructor
  · intro h
    by_contra hnot
    refine not_infix_replaceEach (fun part hpart => ?_) hnot h
    exact ⟨(tagDelimiters_spare_hashes part hpart).1,
      guarded_tagDelimiters part hpart (hashes, escapedHashes) List.mem_cons_self⟩
  · intro h
    exact infix_replaceEach (by decide) tagDelimiters_spare_hashes h

/-! ## Rows of number signs -/

/-- The rows of number signs of a text: empty ones stand between any two other
characters. -/
def hashRows (text : Text) : List Text := text.splitOnP (· ≠ '#')

theorem hashRows_nil : hashRows [] = [[]] := rfl

theorem hashRows_hash {text row : Text} {rows : List Text} (h : hashRows text = row :: rows) :
    hashRows ('#' :: text) = ('#' :: row) :: rows := by
  rw [hashRows] at h ⊢
  rw [List.splitOnP_cons_eq_if_modifyHead, if_neg (by decide), h]
  rfl

theorem hashRows_other {c : Char} (hc : c ≠ '#') (text : Text) :
    hashRows (c :: text) = [] :: hashRows text := by
  rw [hashRows, List.splitOnP_cons_eq_if_modifyHead, if_pos (decide_eq_true hc)]
  rfl

/-- What the escapes leave of a row is three in a row when two are left over
behind an escape. -/
def LeavesHashes (row : Text) : Prop := 5 ≤ row.length ∧ row.length % 3 = 2

instance (row : Text) : Decidable (LeavesHashes row) :=
  inferInstanceAs (Decidable (_ ∧ _))

theorem hashRows_cons (text : Text) : ∃ row rows, hashRows text = row :: rows :=
  List.exists_cons_of_ne_nil (List.splitOnP_ne_nil _ text)

/-- The first row is all the number signs that the text begins with. -/
theorem begins_hashRow {text row : Text} {rows : List Text} (h : hashRows text = row :: rows)
    (k : Nat) : List.replicate k '#' <+: text ↔ k ≤ row.length := by
  induction text generalizing row rows k with
  | nil =>
    obtain ⟨rfl, rfl⟩ := List.cons.inj h
    simp
  | cons c rest ih =>
    obtain ⟨later, rows', hrest⟩ := hashRows_cons rest
    cases k with
    | zero => simp
    | succ k =>
      rw [List.replicate_succ, List.cons_prefix_cons, ih hrest k]
      by_cases hc : c = '#'
      · subst hc
        obtain ⟨rfl, rfl⟩ := List.cons.inj (h.symm.trans (hashRows_hash hrest))
        rw [and_iff_right rfl, List.length_cons]
        omega
      · obtain ⟨rfl, rfl⟩ := List.cons.inj (h.symm.trans (hashRows_other hc rest))
        simp [Ne.symm hc]

/-- A number sign that is kept stands in a row too short for an escape. -/
theorem length_lt_of_kept {rest row : Text} {rows : List Text} (hthere : ¬ hashes <+: '#' :: rest)
    (h : hashRows rest = row :: rows) : row.length < 2 := by
  have hlength := begins_hashRow (hashRows_hash h) 3
  rw [List.length_cons] at hlength
  by_contra hnot
  exact hthere (hlength.mpr (by omega))

/-- A text whose first row is too short for an escape keeps it; any other one
begins with an escape. -/
theorem begins_escaped {text row : Text} {rows : List Text} (h : hashRows text = row :: rows)
    (k : Nat) :
    List.replicate k '#' <+: replaceAll hashes escapedHashes text
      ↔ k = 0 ∨ k ≤ row.length ∧ row.length < 3 := by
  induction text using replaceAll_induction (show hashes ≠ [] by decide)
    generalizing row rows k with
  | nil =>
    obtain ⟨rfl, rfl⟩ := List.cons.inj (h.symm.trans hashRows_nil)
    rw [replaceAll_nil, List.prefix_nil, List.replicate_eq_nil_iff, List.length_nil]
    omega
  | hit rest _ =>
    obtain ⟨later, rows', hrest⟩ := hashRows_cons rest
    have hrow : hashRows (hashes ++ rest) = ('#' :: '#' :: '#' :: later) :: rows' :=
      hashRows_hash (hashRows_hash (hashRows_hash hrest))
    obtain ⟨rfl, rfl⟩ := List.cons.inj (h.symm.trans hrow)
    rw [replaceAll_hit (by decide)]
    cases k with
    | zero => simp
    | succ k =>
      have hescape : escapedHashes = '\\' :: "#\\#\\#".toList := rfl
      rw [List.replicate_succ, hescape, List.cons_append, List.cons_prefix_cons]
      simp
  | keep c rest hthere ih =>
    obtain ⟨later, rows', hrest⟩ := hashRows_cons rest
    rw [replaceAll_keep hthere]
    cases k with
    | zero => simp
    | succ k =>
      rw [List.replicate_succ, List.cons_prefix_cons, ih hrest k]
      by_cases hc : c = '#'
      · subst hc
        have hshort := length_lt_of_kept hthere hrest
        obtain ⟨rfl, rfl⟩ := List.cons.inj (h.symm.trans (hashRows_hash hrest))
        rw [and_iff_right rfl, List.length_cons]
        omega
      · obtain ⟨rfl, rfl⟩ := List.cons.inj (h.symm.trans (hashRows_other hc rest))
        simp [Ne.symm hc]

/-- An escape leaves three in a row exactly with two that follow it. -/
theorem hashes_infix_escape (rest : Text) :
    hashes <:+: escapedHashes ++ rest ↔ List.replicate 2 '#' <+: rest ∨ hashes <:+: rest := by
  have hescape : escapedHashes = ['\\', '#', '\\', '#', '\\', '#'] := rfl
  have hhashes : hashes = ['#', '#', '#'] := rfl
  rw [hescape, hhashes]
  simp [List.infix_cons_iff, List.cons_prefix_cons]

theorem hashes_infix_escaped (text : Text) :
    hashes <:+: replaceAll hashes escapedHashes text
      ↔ ∃ row ∈ hashRows text, LeavesHashes row := by
  induction text using replaceAll_induction (show hashes ≠ [] by decide) with
  | nil => simp [replaceAll_nil, hashRows_nil, LeavesHashes, hashes]
  | hit rest ih =>
    obtain ⟨later, rows, hrest⟩ := hashRows_cons rest
    have hrow : hashRows (hashes ++ rest) = ('#' :: '#' :: '#' :: later) :: rows :=
      hashRows_hash (hashRows_hash (hashRows_hash hrest))
    rw [replaceAll_hit (by decide), hashes_infix_escape, ih, begins_escaped hrest, hrow, hrest]
    have hleaves : LeavesHashes ('#' :: '#' :: '#' :: later)
        ↔ (2 = 0 ∨ 2 ≤ later.length ∧ later.length < 3) ∨ LeavesHashes later := by
      simp only [LeavesHashes, List.length_cons]
      omega
    rw [List.exists_mem_cons_iff, List.exists_mem_cons_iff, hleaves]
    simp only [or_assoc]
  | keep c rest hthere ih =>
    obtain ⟨later, rows, hrest⟩ := hashRows_cons rest
    rw [replaceAll_keep hthere, List.infix_cons_iff, ih]
    have hbegins := begins_escaped hrest 2
    by_cases hc : c = '#'
    · subst hc
      have hshort := length_lt_of_kept hthere hrest
      rw [hashRows_hash hrest, hrest, List.exists_mem_cons_iff, List.exists_mem_cons_iff]
      have hnot : ¬ hashes <+: '#' :: replaceAll hashes escapedHashes rest := by
        intro h
        have htwo := hbegins.mp (List.cons_prefix_cons.mp h).2
        omega
      simp only [hnot, false_or, LeavesHashes, List.length_cons]
      constructor
      · exact Or.imp_left (fun _ => by omega)
      · exact Or.imp_left (fun _ => by omega)
    · rw [hashRows_other hc]
      simp [LeavesHashes, hashes, List.cons_prefix_cons, Ne.symm hc]

/-- No delimiter is left exactly when no row of number signs has five or more
with two left over. -/
theorem sanitize_spares_iff (maxChars : Nat) (userMessage : Text) :
    (∀ part ∈ promptDelimiters, ¬ part.1 <:+: sanitize maxChars userMessage)
      ↔ ∀ row ∈ hashRows (userMessage.take maxChars), ¬ (5 ≤ row.length ∧ row.length % 3 = 2) := by
  have hhashes : hashes <:+: sanitize maxChars userMessage
      ↔ ∃ row ∈ hashRows (userMessage.take maxChars), LeavesHashes row :=
    (hashes_infix_sanitize maxChars userMessage).trans (hashes_infix_escaped _)
  constructor
  · intro h row hrow hleaves
    exact h (hashes, escapedHashes) List.mem_cons_self (hhashes.mpr ⟨row, hrow, hleaves⟩)
  · intro h part hpart hthere
    rcases List.mem_cons.mp hpart with rfl | htag
    · obtain ⟨row, hrow, hleaves⟩ := hhashes.mp hthere
      exact h row hrow hleaves
    · exact not_infix_sanitize htag maxChars userMessage hthere

/-- Five number signs leave three behind the escape. -/
theorem exists_delimiter_sanitize :
    sanitize 4096 "#####".toList = "\\#\\#\\###".toList
      ∧ ¬ ∀ part ∈ promptDelimiters, ¬ part.1 <:+: sanitize 4096 "#####".toList := by
  have hsanitize : sanitize 4096 "#####".toList = "\\#\\#\\###".toList := by decide
  refine ⟨hsanitize, fun h => h (hashes, escapedHashes) List.mem_cons_self ?_⟩
  rw [hsanitize]
  exact ⟨"\\#\\#\\".toList, [], rfl⟩

end InputSanitizer

end LlmService
