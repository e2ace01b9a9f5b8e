import LlmService.Lib.Infix
import LlmService.Lib.Regex
import LlmService.RequestAnalyzer.Analyzer

/-!
# Models asked for a query

What `context/retrieval_query.py` and `tools/query_rewrite.py` share: fast
models are asked one after another to rewrite a message, up to the first with
a usable answer. Nothing that a model raises is more than a missing answer.
-/

namespace LlmService

open Script

/-- Who is asked for a rewrite. -/
inductive RewriteModel where
  | client (i : Nat)
  | adapter (i : Nat)
  deriving DecidableEq, Repr

/-- A prompt sent to a model, under `asyncio.wait_for`. -/
structure RewriteCommand where
  model : RewriteModel
  prompt : List ChatMessage

/-- A client may be waited for in vain. -/
@[reducible] def RewriteReply : RewriteCommand → Type
  | ⟨.client _, _⟩ => Option (Except GroqFailure (Option Text))
  | ⟨.adapter _, _⟩ => Except PyRaise Completion

abbrev RewriteScript := Script RewriteReply PyRaise

abbrev RewriteTrace := List (Σ c, RewriteReply c)

/-- What the rewriters read of the Unicode database, and of how values are printed. -/
structure QueryData where
  classes : CharClasses
  /-- whether `re.IGNORECASE` takes the second character for the first -/
  ignoreCase : Char → Char → Bool
  /-- `text.lower()` -/
  lower : Text → Text
  /-- `c.isdigit()` -/
  isDigit : Char → Bool
  /-- `str(value)`, of a value that is no string -/
  printed : PyJson → Text
  /-- how a literal of a `float` is written -/
  floatText : List Char → List Char

/-- `str(value)` -/
def QueryData.str (d : QueryData) : PyJson → Text
  | .string text => text
  | value => d.printed value

/-! ## Cleaned text -/

/-- `" ".join(text.replace("\n", " ").split())[:limit].strip()` -/
def cleanQuery (limit : Nat) (text : Text) : Text :=
  PyText.strip ((PyText.join [' ']
    (PyText.words (text.map fun c => if c = '\n' then ' ' else c))).take limit)

theorem length_cleanQuery_le (limit : Nat) (text : Text) : (cleanQuery limit text).length ≤ limit := by
  have hstrip : ∀ cut : Text, (PyText.strip cut).length ≤ cut.length := fun cut =>
    (PyText.dropEndWhile_isPrefix _ _).length_le.trans (List.dropWhile_suffix _).length_le
  rw [cleanQuery]
  exact (hstrip _).trans (List.length_take_le _ _)

@[simp] theorem strip_cleanQuery (limit : Nat) (text : Text) :
    PyText.strip (cleanQuery limit text) = cleanQuery limit text := PyText.strip_strip _

/-- A text has words if it is not blank. -/
theorem words_ne_nil {text : Text} {c : Char} (hmem : c ∈ text) (hc : PyText.isSpace c = false) :
    PyText.words text ≠ [] := by
  intro hnil
  have hempty : ∀ part ∈ text.splitOnP PyText.isSpace, part = [] := by
    intro part hpart
    by_contra hne
    have hword : part ∈ PyText.words text := List.mem_filter.mpr ⟨hpart, decide_eq_true hne⟩
    rw [hnil] at hword
    cases hword
  induction text with
  | nil => cases hmem
  | cons first rest ih =>
    rw [List.splitOnP_cons_eq_if_modifyHead] at hempty
    by_cases hfirst : PyText.isSpace first = true
    · rw [if_pos hfirst] at hempty
      have hrest : ∀ part ∈ rest.splitOnP PyText.isSpace, part = [] :=
        fun part hpart => hempty part (List.mem_cons_of_mem _ hpart)
      rcases List.mem_cons.mp hmem with rfl | hmem
      · rw [hc] at hfirst
        cases hfirst
      · exact ih hmem (List.filter_eq_nil_iff.mpr fun part hpart => by simp [hrest part hpart]) hrest
    · rw [if_neg hfirst] at hempty
      cases hsplit : rest.splitOnP PyText.isSpace with
      | nil => exact List.splitOnP_ne_nil _ _ hsplit
      | cons part parts =>
        rw [hsplit, List.modifyHead_cons] at hempty
        cases hempty _ List.mem_cons_self

/-- The words of a text, joined, begin with the first of them. -/
theorem head_join_words {text : Text} (h : PyText.words text ≠ []) :
    ∃ c rest, PyText.join [' '] (PyText.words text) = c :: rest ∧ PyText.isSpace c = false := by
  cases hwords : PyText.words text with
  | nil => exact absurd hwords h
  | cons word others =>
    have hword : word ∈ PyText.words text := by
      rw [hwords]
      exact List.mem_cons_self
    cases word with
    | nil => exact absurd rfl (of_decide_eq_true (List.mem_filter.mp hword).2)
    | cons c word =>
      rw [PyText.join_cons_cons]
      exact ⟨c, _, rfl, PyText.not_isSpace_of_mem_words hword c List.mem_cons_self⟩

/-- What is not blank leaves something when it is cleaned. -/
theorem cleanQuery_ne_nil {limit : Nat} (hlimit : 0 < limit) {text : Text} {c : Char} (hmem : c ∈ text)
    (hc : PyText.isSpace c = false) : cleanQuery limit text ≠ [] := by
  have hspace : PyText.isSpace '\n' = true := by decide
  have hkept : c ∈ text.map fun c => if c = '\n' then ' ' else c := by
    refine List.mem_map.mpr ⟨c, hmem, if_neg fun hnewline => ?_⟩
    rw [hnewline, hspace] at hc
    cases hc
  obtain ⟨first, rest, hjoin, hfirst⟩ := head_join_words (words_ne_nil hkept hc)
  obtain ⟨n, rfl⟩ := Nat.exists_eq_succ_of_ne_zero (Nat.pos_iff_ne_zero.mp hlimit)
  rw [cleanQuery, hjoin, List.take_succ_cons]
  exact PyText.strip_ne_nil List.mem_cons_self hfirst

/-! ## Asking -/

/-- The clients, and how many providers there are behind them. -/
structure RewriteModels where
  clients : List GroqAnalysisClient := []
  adapters : Nat := 0

namespace RewriteModels

variable (ms : RewriteModels) {α : Type} (read : RewriteModel → Text → Option α)

/-- The text that is heard of a model. -/
def heard : (c : RewriteCommand) → RewriteReply c → Except PyRaise Text
  | ⟨.client i, _⟩, some reply => ((ms.clients[i]?).getD {}).complete reply
  | ⟨.client _, _⟩, none => .error RequestAnalyzer.waitedInVain
  | ⟨.adapter _, _⟩, reply => reply.map Completion.content

/-- The models in the order in which they are asked. -/
def models : List RewriteModel :=
  (List.range ms.clients.length).map .client ++ (List.range ms.adapters).map .adapter

/-- The `try` block around a model: whatever it raises, the next one is asked. -/
def attempt (c : RewriteCommand) : RewriteScript (Option α) :=
  tryCatch
    (do
      match ms.heard c (← command (R := RewriteReply) c) with
      | .ok raw => return read c.model raw
      | .error raised => throw raised)
    fun raised =>
      match raised with
      | .exception _ => return none
      | .cancelled => throw .cancelled

/-- The loops over the models. -/
def askModels (prompt : List ChatMessage) : RewriteScript (Option α) :=
  firstOf (ms.models.map fun model => ms.attempt read ⟨model, prompt⟩)

/-- What an answer is good for. -/
def reading (step : Σ c, RewriteReply c) : Option α :=
  match ms.heard step.1 step.2 with
  | .ok raw => read step.1.model raw
  | .error _ => none

/-- The models that a trace asks, each with what its answer is good for. -/
def answers (t : RewriteTrace) : List (RewriteModel × Option α) :=
  t.map fun step => (step.1.model, ms.reading read step)

/-- Along the trace, the wait for a model is cancelled. -/
def Cancelled (t : RewriteTrace) : Prop := ∃ step ∈ t, ms.heard step.1 step.2 = .error .cancelled

variable {ms read} {c : RewriteCommand} {t : RewriteTrace} {r : Except PyRaise (Option α)}
  {prompt : List ChatMessage}

/-- What is given was read off an answer. -/
theorem exists_read {given : α} (h : Settled (ms.answers read t) (some given)) :
    ∃ model raw, read model raw = some given := by
  obtain ⟨a, ha, hgiven⟩ := Option.bind_eq_some_iff.mp h.2.symm
  obtain ⟨step, -, rfl⟩ := List.mem_map.mp (List.mem_of_getLast? ha)
  have hreading : ms.reading read step = some given := hgiven
  rw [reading] at hreading
  split at hreading
  · exact ⟨_, _, hreading⟩
  · cases hreading

theorem trace_attempt (h : (ms.attempt read c).Trace t r) :
    ∃ reply, t = [⟨c, reply⟩] ∧
      ((r = .error .cancelled ∧ ms.heard c reply = .error .cancelled) ∨
        r = .ok (ms.reading read ⟨c, reply⟩)) := by
  rcases trace_handle_iff.mp h with ⟨given, hcall, rfl⟩ | ⟨raised, u, v, hcall, hrest, rfl⟩
  · obtain ⟨reply, t', rfl, hrest⟩ := trace_command_bind_iff.mp hcall
    refine ⟨reply, ?_⟩
    cases hheard : ms.heard c reply with
    | ok raw =>
      rw [hheard] at hrest
      obtain ⟨rfl, hgiven⟩ := trace_pure_iff.mp hrest
      refine ⟨rfl, .inr ?_⟩
      rw [reading, hheard]
      exact hgiven
    | error raised =>
      rw [hheard] at hrest
      obtain ⟨-, hraised⟩ := trace_throw_iff.mp hrest
      cases hraised
  · obtain ⟨reply, t', rfl, hthrow⟩ := trace_command_bind_iff.mp hcall
    refine ⟨reply, ?_⟩
    cases hheard : ms.heard c reply with
    | ok raw =>
      rw [hheard] at hthrow
      obtain ⟨-, hgiven⟩ := trace_pure_iff.mp hthrow
      cases hgiven
    | error e =>
      rw [hheard] at hthrow
      obtain ⟨rfl, he⟩ := trace_throw_iff.mp hthrow
      obtain rfl := Except.error.inj he
      cases raised with
      | exception exc =>
        obtain ⟨rfl, rfl⟩ := trace_pure_iff.mp hrest
        refine ⟨rfl, .inr ?_⟩
        rw [reading, hheard]
      | cancelled =>
        obtain ⟨rfl, rfl⟩ := trace_throw_iff.mp hrest
        exact ⟨rfl, .inl ⟨rfl, rfl⟩⟩

/-- Models in turn: only the last one asked may have given something. -/
theorem trace_firstOf {models : List RewriteModel}
    (h : (firstOf (models.map fun model => ms.attempt read ⟨model, prompt⟩)).Trace t r) :
    (∀ step ∈ t, step.1.prompt = prompt) ∧ ∃ n, (ms.answers read t).map Prod.fst = models.take n ∧
      ((r = .error .cancelled ∧ ms.Cancelled t) ∨
        ∃ given, r = .ok given ∧ Settled (ms.answers read t) given ∧
          (given = none → models.take n = models)) := by
  induction models generalizing t with
  | nil =>
    obtain ⟨rfl, rfl⟩ := trace_pure_iff.mp h
    exact ⟨List.forall_mem_nil _, 0, rfl, .inr ⟨none, rfl, settled_nil, fun _ => rfl⟩⟩
  | cons model models ih =>
    rcases trace_firstOf_cons_iff.mp h with ⟨hlast, hends⟩ | ⟨u, v, hnone, hrest, rfl⟩
    · obtain ⟨reply, rfl, hr⟩ := trace_attempt hlast
      refine ⟨fun step hstep => by rw [List.mem_singleton.mp hstep], 1, rfl, ?_⟩
      rcases hr with ⟨rfl, hcancelled⟩ | rfl
      · exact .inl ⟨rfl, _, List.mem_singleton_self _, hcancelled⟩
      · refine .inr ⟨_, rfl, settled_singleton (model, ms.reading read _), ?_⟩
        intro hgiven
        exact absurd (congrArg Except.ok hgiven) hends
    · obtain ⟨reply, rfl, hr⟩ := trace_attempt hnone
      obtain ⟨hprompt, n, hasked, hend⟩ := ih hrest
      have hreading : ms.reading read ⟨⟨model, prompt⟩, reply⟩ = none := by
        rcases hr with ⟨hr, -⟩ | hr
        · cases hr
        · exact (Except.ok.inj hr).symm
      refine ⟨?_, n + 1, ?_, ?_⟩
      · intro step hstep
        rcases List.mem_cons.mp hstep with rfl | hstep
        · rfl
        · exact hprompt step hstep
      · show model :: (ms.answers read v).map Prod.fst = _
        rw [hasked, List.take_succ_cons]
      · rcases hend with ⟨rfl, step, hstep, hcancelled⟩ | ⟨given, rfl, hsettled, hall⟩
        · exact .inl ⟨rfl, step, List.mem_cons_of_mem _ hstep, hcancelled⟩
        · refine .inr ⟨given, rfl, ?_, ?_⟩
          · have hfirst : Settled [(model, ms.reading read ⟨⟨model, prompt⟩, reply⟩)] none := by
              rw [settled_none_iff]
              intro a ha
              rw [List.mem_singleton.mp ha]
              exact hreading
            exact hfirst.append hsettled
          · intro hgiven
            rw [List.take_succ_cons, hall hgiven]

end RewriteModels

end LlmService
