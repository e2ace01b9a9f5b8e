import LlmService.Providers.Chain

/-!
# One turn of the chain

What one call of `generate_stream` can do, said once: `Walk` is the part of
the loop that passes over entries without an answer, `NoAnswer` the ways an
entry is passed over, read off the entry and its environment. Every run is a
walk over a prefix of the entries that either reaches the end of the list or
stops at the one entry that leaves the loop (`generateStream_cases`).
-/

namespace LlmService

/-! ## with_deadlines -/

@[simp] theorem drained_tokens (ending : StreamEnd) (limit : Option Seconds) (label : String)
    (first : Bool) (now : Seconds) : (drained ending limit label first now).tokens = [] := by
  cases ending with
  | stop delay =>
    simp only [drained]
    split <;> rfl
  | fail delay exc =>
    simp only [drained]
    split
    · rfl
    · split <;> rfl
  | hang =>
    simp only [drained]
    split <;> rfl

/-- What `with_deadlines` yields is a prefix of its source. -/
theorem withDeadlinesFrom_prefix (ending : StreamEnd) (ft it : Option Seconds)
    (label : String) (tokens : List (Seconds × String)) (first : Bool) (now : Seconds) :
    (withDeadlinesFrom ending ft it label tokens first now).tokens.map Prod.snd
      <+: tokens.map Prod.snd := by
  induction tokens generalizing first now with
  | nil => simp [withDeadlinesFrom]
  | cons head rest ih =>
    obtain ⟨delay, token⟩ := head
    simp only [withDeadlinesFrom]
    generalize (if first = true then ft else it) = limit
    split
    · exact List.nil_prefix
    · simpa [List.prefix_cons_inj] using ih false (now + delay)

theorem withDeadlines_prefix (s : AdapterStream) (ft it : Option Seconds) (label : String)
    (now : Seconds) :
    (withDeadlines s ft it label now).tokens.map Prod.snd <+: s.texts :=
  withDeadlinesFrom_prefix _ _ _ _ _ _ _

/-! ## One entry -/

section Entry

variable (fitter : Option Fitter) (idle : Option Seconds) (adapter : Adapter)
  (prompt : TrimmedPrompt) (params : Params)

/-- The entry's breaker lets the turn through. -/
def ChainEntry.Admits (e : ChainEntry) (now : Seconds) : Prop :=
  e.breaker.any (·.isOpen now) = false

/-- The fitter hands `messages` over for the entry (without a fitter: the
prompt as it is). -/
def ChainEntry.Fits (e : ChainEntry) (messages : List ChatMessage) : Prop :=
  match fitter with
  | none => messages = prompt.messages
  | some fit => ∃ p, fit prompt e.name = .ok p ∧ messages = p.messages

/-- The stream of the entry's adapter under its deadlines. -/
def ChainEntry.heard (e : ChainEntry) (messages : List ChatMessage) (now : Seconds) : Streamed :=
  withDeadlines (adapter messages params) e.firstTokenTimeoutS idle e.name now

/-- The ways an entry gives no answer: its breaker is open, the prompt does
not fit it, or it fails before its first token. The last argument is the
time at which the loop goes on. -/
inductive NoAnswer (e : ChainEntry) (now : Seconds) : Seconds → Prop where
  | breakerOpen : ¬ e.Admits now → NoAnswer e now now
  | doesNotFit {fit : Fitter} {exc : Exc} : e.Admits now → fitter = some fit →
      fit prompt e.name = .error exc → exc.cls = .contextOverflowError → NoAnswer e now now
  | failedEarly {messages : List ChatMessage} {exc : Exc} : e.Admits now →
      e.Fits fitter prompt messages →
      (e.heard idle adapter params messages now).tokens = [] →
      (e.heard idle adapter params messages now).outcome = .raised exc →
      NoAnswer e now (e.heard idle adapter params messages now).endTime

variable {fitter idle adapter prompt params}

variable (idle adapter params) in
/-- The calling part of the loop body, by the way the stream ends. -/
theorem ChainEntry.stream_cases (e : ChainEntry) (messages : List ChatMessage) (now : Seconds) :
    let s := e.heard idle adapter params messages now
    let a := e.stream idle adapter messages params now
    a.sent = some messages ∧ a.tokens = s.tokens.map Prod.snd ∧ a.now = s.endTime ∧
      match s.outcome with
      | .returned => a.verdict = .leave .returned
      | .blocked => a.verdict = .leave .blocked
      | .raised exc =>
        if s.tokens = [] then a.verdict = .next s!"{exc.cls.name}: {exc.str}"
        else a.verdict = .leave (.reraised exc) := by
  simp only [ChainEntry.stream, ChainEntry.heard]
  generalize withDeadlines (adapter messages params) e.firstTokenTimeoutS idle e.name now = s
  obtain ⟨tokens, outcome, endTime⟩ := s
  cases outcome with
  | returned => simp
  | blocked => simp
  | raised exc => cases tokens <;> simp

/-- The loop body once the breaker has let the turn through. -/
theorem ChainEntry.attempt_of_fits {e : ChainEntry} {now : Seconds} {messages : List ChatMessage}
    (ha : e.Admits now) (hf : e.Fits fitter prompt messages) :
    e.attempt fitter idle adapter prompt params now
      = e.stream idle adapter messages params now := by
  unfold ChainEntry.Admits at ha
  simp only [ChainEntry.attempt, ha, Bool.false_eq_true, if_false]
  cases fitter with
  | none =>
    cases hf
    rfl
  | some fit =>
    obtain ⟨p, hp, rfl⟩ := hf
    simp only [hp]

variable (fitter idle adapter prompt params) in
/-- What the loop body does with an entry, guards included. -/
theorem ChainEntry.attempt_cases (e : ChainEntry) (now : Seconds) :
    (¬ e.Admits now ∧ e.attempt fitter idle adapter prompt params now =
        { breaker := e.breaker, now, verdict := .next "circuit breaker open" }) ∨
    (e.Admits now ∧ ∃ fit exc, fitter = some fit ∧ fit prompt e.name = .error exc ∧
      e.attempt fitter idle adapter prompt params now =
        if exc.cls = .contextOverflowError then
          { breaker := e.breaker, now, verdict := .next s!"context_too_large: {exc.str}" }
        else { breaker := e.breaker, now, verdict := .leave (.escaped exc) }) ∨
    (e.Admits now ∧ ∃ messages, e.Fits fitter prompt messages ∧
      e.attempt fitter idle adapter prompt params now
        = e.stream idle adapter messages params now) := by
  by_cases ha : e.Admits now
  · right
    cases fitter with
    | none =>
      have hfits : e.Fits none prompt prompt.messages := rfl
      exact .inr ⟨ha, prompt.messages, hfits, ChainEntry.attempt_of_fits ha hfits⟩
    | some fit =>
      cases hp : fit prompt e.name with
      | error exc =>
        unfold ChainEntry.Admits at ha
        exact .inl ⟨ha, fit, exc, rfl, hp, by simp [ChainEntry.attempt, ha, hp]⟩
      | ok p =>
        have hfits : e.Fits (some fit) prompt p.messages := ⟨p, hp, rfl⟩
        exact .inr ⟨ha, p.messages, hfits, ChainEntry.attempt_of_fits ha hfits⟩
  · left
    refine ⟨ha, ?_⟩
    unfold ChainEntry.Admits at ha
    simp only [Bool.not_eq_false] at ha
    simp [ChainEntry.attempt, ha]

/-- The loop goes on to the next entry exactly after an entry that gave no
answer. -/
theorem ChainEntry.attempt_next_iff (e : ChainEntry) (now now' : Seconds) :
    ((∃ reason, (e.attempt fitter idle adapter prompt params now).verdict = .next reason) ∧
        (e.attempt fitter idle adapter prompt params now).now = now') ↔
      NoAnswer fitter idle adapter prompt params e now now' := by
  constructor
  · intro hanswers
    obtain ⟨⟨reason, hv⟩, rfl⟩ := hanswers
    rcases e.attempt_cases fitter idle adapter prompt params now with ⟨ha, h⟩ | ⟨ha, fit, exc, hf, hp, h⟩ | ⟨ha, m, hf, h⟩
    · rw [h]
      exact .breakerOpen ha
    · rw [h] at hv ⊢
      split at hv
      · rename_i hc
        rw [if_pos hc]
        exact .doesNotFit ha hf hp hc
      · simp at hv
    · rw [h] at hv ⊢
      obtain ⟨_, _, hnow, hcase⟩ := e.stream_cases idle adapter params m now
      rw [hnow]
      split at hcase
      · simp [hcase] at hv
      · simp [hcase] at hv
      · rename_i exc ho
        split at hcase
        · rename_i ht
          exact .failedEarly ha hf ht ho
        · simp [hcase] at hv
  · intro h
    cases h with
    | breakerOpen ha =>
      unfold ChainEntry.Admits at ha
      simp only [Bool.not_eq_false] at ha
      simp [ChainEntry.attempt, ha]
    | doesNotFit ha hf hp hc =>
      unfold ChainEntry.Admits at ha
      simp [ChainEntry.attempt, ha, hf, hp, hc]
    | @failedEarly m exc ha hf ht ho =>
      rw [ChainEntry.attempt_of_fits ha hf]
      obtain ⟨_, _, hnow, hcase⟩ := e.stream_cases idle adapter params m now
      rw [ho] at hcase
      simp only [ht, if_true] at hcase
      exact ⟨⟨_, hcase⟩, hnow⟩

/-- An entry that leaves the loop does not do so with the chain's own error. -/
theorem ChainEntry.attempt_leave_ne_allFailed (e : ChainEntry) (now : Seconds) (exc : Exc) :
    (e.attempt fitter idle adapter prompt params now).verdict ≠ .leave (.allFailed exc) := by
  rcases e.attempt_cases fitter idle adapter prompt params now with ⟨_, h⟩ | ⟨_, _, exc', _, _, h⟩ | ⟨_, m, _, h⟩
  · simp [h]
  · rw [h]
    split <;> simp
  · rw [h]
    obtain ⟨_, _, _, hcase⟩ := e.stream_cases idle adapter params m now
    split at hcase
    · simp [hcase]
    · simp [hcase]
    · split at hcase <;> simp [hcase]

/-- The messages that reach the adapter are those the fitter handed over. -/
theorem ChainEntry.attempt_sent_iff (e : ChainEntry) (now : Seconds) (m : List ChatMessage) :
    (e.attempt fitter idle adapter prompt params now).sent = some m ↔
      e.Admits now ∧ e.Fits fitter prompt m := by
  constructor
  · intro hs
    rcases e.attempt_cases fitter idle adapter prompt params now with ⟨_, h⟩ | ⟨_, _, exc', _, _, h⟩ | ⟨ha, m', hf, h⟩
    · simp [h] at hs
    · rw [h] at hs
      split at hs <;> simp at hs
    · obtain ⟨hsent, _⟩ := e.stream_cases idle adapter params m' now
      rw [h, hsent] at hs
      cases hs
      exact ⟨ha, hf⟩
  · intro hboth
    obtain ⟨ha, hf⟩ := hboth
    rw [ChainEntry.attempt_of_fits ha hf]
    exact (e.stream_cases _ _ _ m now).1

end Entry

/-! ## The loop -/

section Loop

variable (fitter : Option Fitter) (idle : Option Seconds) (t : Turn)

/-- The loop passes over the first `n` entries of what is left, entry by
entry without an answer, and then looks at the clock reading `now'`. -/
inductive Walk : List ChainEntry → Nat → Seconds → Nat → Seconds → Prop where
  | here {es : List ChainEntry} {idx : Nat} {now : Seconds} : Walk es idx now 0 now
  | pass {e : ChainEntry} {rest : List ChainEntry} {idx n : Nat} {now now₁ now' : Seconds} :
      NoAnswer fitter idle (t.adapter idx) t.prompt t.params e now now₁ →
      Walk rest (idx + 1) now₁ n now' → Walk (e :: rest) idx now (n + 1) now'

variable {fitter idle t} {es : List ChainEntry} {idx n : Nat} {now now' : Seconds}

theorem Walk.snoc {e : ChainEntry} {now'' : Seconds} (h : Walk fitter idle t es idx now n now')
    (he : es[n]? = some e)
    (hn : NoAnswer fitter idle (t.adapter (idx + n)) t.prompt t.params e now' now'') :
    Walk fitter idle t es idx now (n + 1) now'' := by
  induction h with
  | @here es idx now =>
    cases es with
    | nil => simp at he
    | cons e' rest =>
      simp only [List.getElem?_cons_zero, Option.some.injEq] at he
      subst he
      exact .pass hn .here
  | @pass e' rest idx n now now₁ now' hfirst _ ih =>
    refine .pass hfirst (ih (by simpa using he) ?_)
    rwa [show idx + 1 + n = idx + (n + 1) by omega]

/-- The loop passes over entries whose breakers are open. -/
theorem walk_of_breakersOpen (hopen : ∀ j < n, ∃ e, es[j]? = some e ∧ ¬ e.Admits now) :
    Walk fitter idle t es idx now n now := by
  induction n with
  | zero => exact .here
  | succ n ih =>
    obtain ⟨e, he, hclosed⟩ := hopen n (by omega)
    exact (ih fun j hj => hopen j (by omega)).snoc he (.breakerOpen hclosed)

/-- Every entry a walk has passed over gave no answer. -/
theorem Walk.passed (h : Walk fitter idle t es idx now n now') {j : Nat} (hj : j < n) :
    ∃ e now₁ now₂, es[j]? = some e ∧ Walk fitter idle t es idx now j now₁ ∧
      NoAnswer fitter idle (t.adapter (idx + j)) t.prompt t.params e now₁ now₂ := by
  induction h generalizing j with
  | here => omega
  | @pass e rest idx n now now₁ now' hfirst _ ih =>
    cases j with
    | zero => exact ⟨e, now, now₁, rfl, .here, hfirst⟩
    | succ j =>
      obtain ⟨e', a, b, he, hw, hn⟩ := ih (j := j) (by omega)
      refine ⟨e', a, b, by simpa using he, .pass hfirst hw, ?_⟩
      rwa [show idx + (j + 1) = idx + 1 + j by omega]

/-- The clock reading at the end of a walk is determined. -/
theorem Walk.unique {now'' : Seconds} (h : Walk fitter idle t es idx now n now')
    (h' : Walk fitter idle t es idx now n now'') : now' = now'' := by
  induction h with
  | here =>
    cases h'
    rfl
  | @pass e rest idx n now now₁ now' hfirst _ ih =>
    cases h' with
    | @pass _ _ _ _ _ now₂ _ hfirst' hrest' =>
      have h₁ := ((e.attempt_next_iff now now₁).mpr hfirst).2
      have h₂ := ((e.attempt_next_iff now now₂).mpr hfirst').2
      obtain rfl : now₁ = now₂ := h₁.symm.trans h₂
      exact ih hrest'

theorem walk_cons_iff {e : ChainEntry} :
    Walk fitter idle t (e :: es) idx now (n + 1) now' ↔
      ∃ now₁, NoAnswer fitter idle (t.adapter idx) t.prompt t.params e now now₁ ∧
        Walk fitter idle t es (idx + 1) now₁ n now' := by
  constructor
  · intro h
    cases h with
    | @pass _ _ _ _ _ now₁ _ hfirst hrest => exact ⟨now₁, hfirst, hrest⟩
  · intro hboth
    obtain ⟨now₁, hfirst, hrest⟩ := hboth
    exact .pass hfirst hrest

/-- A walk beyond the first entries passes over them first. -/
theorem walk_append_iff {before rest : List ChainEntry} :
    Walk fitter idle t (before ++ rest) idx now (before.length + n) now' ↔
      ∃ now₁, Walk fitter idle t before idx now before.length now₁ ∧
        Walk fitter idle t rest (idx + before.length) now₁ n now' := by
  induction before generalizing idx now with
  | nil =>
    rw [List.nil_append, List.length_nil, Nat.zero_add, Nat.add_zero]
    constructor
    · intro h
      exact ⟨now, .here, h⟩
    · intro hboth
      obtain ⟨now₁, hfirst, hrest⟩ := hboth
      cases hfirst
      exact hrest
  | cons e before ih =>
    rw [List.cons_append, List.length_cons, show before.length + 1 + n = before.length + n + 1 by omega,
      walk_cons_iff]
    simp only [ih, walk_cons_iff]
    rw [show idx + 1 + before.length = idx + (before.length + 1) by omega]
    constructor
    · intro h
      obtain ⟨now₁, hfirst, now₂, hbefore, hrest⟩ := h
      exact ⟨now₂, ⟨now₁, hfirst, hbefore⟩, hrest⟩
    · intro h
      obtain ⟨now₂, ⟨now₁, hfirst, hbefore⟩, hrest⟩ := h
      exact ⟨now₁, hfirst, now₂, hbefore, hrest⟩

/-- A walk reads nothing of a turn but the prompt, the parameters and the
adapters of the entries it passes over. -/
theorem Walk.congr {t' : Turn} {idx' : Nat} (h : Walk fitter idle t es idx now n now')
    (hprompt : t'.prompt = t.prompt) (hparams : t'.params = t.params)
    (hadapter : ∀ j < es.length, t'.adapter (idx' + j) = t.adapter (idx + j)) :
    Walk fitter idle t' es idx' now n now' := by
  induction h generalizing idx' with
  | here => exact .here
  | @pass e rest idx n now now₁ now' hfirst _ ih =>
    apply Walk.pass
    · have hhead := hadapter 0 (by simp)
      rw [Nat.add_zero, Nat.add_zero] at hhead
      rw [hhead, hprompt, hparams]
      exact hfirst
    · apply ih
      intro j hj
      have htail := hadapter (j + 1) (by simpa using hj)
      rwa [show idx' + 1 + j = idx' + (j + 1) by omega, show idx + 1 + j = idx + (j + 1) by omega]

/-- A loop that goes on over a whole prefix, or meets an entry that leaves. -/
theorem walk_total (fitter : Option Fitter) (idle : Option Seconds) (t : Turn)
    (es : List ChainEntry) (idx : Nat) (now : Seconds) :
    (∃ now', Walk fitter idle t es idx now es.length now') ∨
    ∃ n now' e outcome, Walk fitter idle t es idx now n now' ∧ es[n]? = some e ∧
      (e.attempt fitter idle (t.adapter (idx + n)) t.prompt t.params now').verdict
        = .leave outcome := by
  induction es generalizing idx now with
  | nil => exact .inl ⟨now, .here⟩
  | cons e rest ih =>
    cases hv : (e.attempt fitter idle (t.adapter idx) t.prompt t.params now).verdict with
    | leave outcome => exact .inr ⟨0, now, e, outcome, .here, rfl, hv⟩
    | next reason =>
      have hno := (e.attempt_next_iff now _).mp ⟨⟨reason, hv⟩, rfl⟩
      rcases ih (idx + 1) _ with ⟨now', hw⟩ | ⟨n, now', e', outcome, hw, he, hl⟩
      · exact .inl ⟨now', .pass hno hw⟩
      · refine .inr ⟨n + 1, now', e', outcome, .pass hno hw, by simpa using he, ?_⟩
        rwa [show idx + (n + 1) = idx + 1 + n by omega]

/-- The run after a walk is the run on the rest, but for calls and breakers. -/
theorem generateStreamFrom_walk (h : Walk fitter idle t es idx now n now')
    (fs : List (String × String)) :
    ∃ fs', let r := generateStreamFrom fitter idle t es idx now fs
      let r' := generateStreamFrom fitter idle t (es.drop n) (idx + n) now' fs'
      r.tokens = r'.tokens ∧ r.outcome = r'.outcome ∧ r.route = r'.route ∧ r.now = r'.now := by
  induction h generalizing fs with
  | here => exact ⟨fs, rfl, rfl, rfl, rfl⟩
  | @pass e rest idx n now now₁ now' hfirst _ ih =>
    obtain ⟨⟨reason, hv⟩, rfl⟩ := (e.attempt_next_iff now now₁).mpr hfirst
    obtain ⟨fs', ht, ho, hr, hn⟩ := ih (fs ++ [(e.name, reason)])
    refine ⟨fs', ?_⟩
    rw [show idx + (n + 1) = idx + 1 + n by omega, List.drop_succ_cons]
    simp only [generateStreamFrom, hv]
    exact ⟨ht, ho, hr, hn⟩

theorem generateStreamFrom_exhausted (h : Walk fitter idle t es idx now es.length now')
    (fs : List (String × String)) :
    let r := generateStreamFrom fitter idle t es idx now fs
    r.tokens = [] ∧ r.route = none ∧ ∃ fs', r.outcome = .allFailed (allProvidersFailed fs') := by
  obtain ⟨fs', ht, ho, hr, _⟩ := generateStreamFrom_walk h fs
  simp only [List.drop_length, generateStreamFrom] at ht ho hr
  exact ⟨ht, hr, fs', ho⟩

theorem generateStreamFrom_leave {e : ChainEntry} {outcome : ChainOutcome}
    (h : Walk fitter idle t es idx now n now') (he : es[n]? = some e)
    (hl : (e.attempt fitter idle (t.adapter (idx + n)) t.prompt t.params now').verdict
      = .leave outcome) (fs : List (String × String)) :
    let r := generateStreamFrom fitter idle t es idx now fs
    let a := e.attempt fitter idle (t.adapter (idx + n)) t.prompt t.params now'
    r.tokens = a.tokens.map (fun token => (idx + n, token)) ∧ r.outcome = outcome ∧
      r.now = a.now := by
  obtain ⟨fs', ht, ho, _, hn⟩ := generateStreamFrom_walk h fs
  have hd : es.drop n = e :: es.drop (n + 1) := by
    obtain ⟨hlt, rfl⟩ := List.getElem?_eq_some_iff.mp he
    exact List.drop_eq_getElem_cons hlt
  rw [hd] at ht ho hn
  simp only [generateStreamFrom, hl] at ht ho hn
  exact ⟨ht, ho, hn⟩

/-- The calls of a run: one for each entry the loop reaches, lets through
and has a prompt for. -/
theorem mem_generateStreamFrom_calls {fs : List (String × String)} {j : Nat}
    {m : List ChatMessage} :
    (j, m) ∈ (generateStreamFrom fitter idle t es idx now fs).calls ↔
      ∃ n now' e, j = idx + n ∧ Walk fitter idle t es idx now n now' ∧ es[n]? = some e ∧
        (e.attempt fitter idle (t.adapter j) t.prompt t.params now').sent = some m := by
  induction es generalizing idx now fs with
  | nil => simp [generateStreamFrom]
  | cons e rest ih =>
    cases hv : (e.attempt fitter idle (t.adapter idx) t.prompt t.params now).verdict with
    | leave outcome =>
      simp only [generateStreamFrom, hv, List.mem_map, Option.mem_toList, Prod.mk.injEq]
      constructor
      · intro hfirst
        obtain ⟨m', hm, rfl, rfl⟩ := hfirst
        exact ⟨0, now, e, rfl, .here, rfl, hm⟩
      · intro hlater
        obtain ⟨n, now', e', rfl, hw, he, hs⟩ := hlater
        cases hw with
        | here =>
          simp only [List.getElem?_cons_zero, Option.some.injEq] at he
          subst he
          exact ⟨m, hs, rfl, rfl⟩
        | pass hno _ =>
          obtain ⟨⟨reason, hv'⟩, _⟩ := (e.attempt_next_iff now _).mpr hno
          simp [hv] at hv'
    | next reason =>
      have hno := (e.attempt_next_iff now _).mp ⟨⟨reason, hv⟩, rfl⟩
      simp only [generateStreamFrom, hv, List.mem_append, List.mem_map, Option.mem_toList,
        Prod.mk.injEq, ih]
      constructor
      · intro hcall
        rcases hcall with ⟨m', hm, rfl, rfl⟩ | ⟨n, now', e', rfl, hw, he, hs⟩
        · exact ⟨0, now, e, rfl, .here, rfl, hm⟩
        · exact ⟨n + 1, now', e', by omega, .pass hno hw, by simpa using he, hs⟩
      · intro hlater
        obtain ⟨n, now', e', rfl, hw, he, hs⟩ := hlater
        cases hw with
        | here =>
          simp only [List.getElem?_cons_zero, Option.some.injEq] at he
          subst he
          exact .inl ⟨m, hs, rfl, rfl⟩
        | @pass _ _ _ n _ now₁ _ hno' hw =>
          obtain rfl := ((e.attempt_next_iff now now₁).mpr hno').2
          exact .inr ⟨n, now', e', by omega, hw, by simpa using he, hs⟩

end Loop

end LlmService
