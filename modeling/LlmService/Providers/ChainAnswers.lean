import LlmService.Providers.ChainTurn

/-!
# What a turn of the chain answers

The results about one `generate_stream`: all tokens come from one entry, the
entries before it gave no answer and those after it are never called; the
chain's own error stands for a list of entries of which none answered. The
exception is an entry whose stream ends without a token: the loop returns
there, whatever the other entries could do.
-/

namespace LlmService

namespace ProviderChain

variable (c : ProviderChain) (t : Turn)

/-- The loop comes to the entry `e` at position `k` at the time `now`. -/
def Reaches (k : Nat) (e : ChainEntry) (now : Seconds) : Prop :=
  c.entries[k]? = some e ∧ Walk c.fitter c.idleTimeoutS t c.entries 0 t.now k now

/-- The entry at `k` was skipped or failed before its first token. -/
def PassedOver (k : Nat) : Prop :=
  ∃ e now now', c.Reaches t k e now ∧
    NoAnswer c.fitter c.idleTimeoutS (t.adapter k) t.prompt t.params e now now'

/-- The stream that the chain hears from `e` when it sends it `messages`. -/
def hears (k : Nat) (e : ChainEntry) (messages : List ChatMessage) (now : Seconds) : Streamed :=
  e.heard c.idleTimeoutS (t.adapter k) t.params messages now

variable {c t} {k : Nat} {e : ChainEntry} {now : Seconds} {messages : List ChatMessage}

/-- A reached entry that is let through and fits is called. -/
theorem Reaches.called (h : c.Reaches t k e now) (ha : e.Admits now)
    (hf : e.Fits c.fitter t.prompt messages) :
    (k, messages) ∈ (c.generateStream t).calls := by
  refine mem_generateStreamFrom_calls.mpr ⟨k, now, e, by simp, h.2, h.1, ?_⟩
  exact (e.attempt_sent_iff now messages).mpr ⟨ha, hf⟩

/-- The run ends at a reached entry that leaves the loop. -/
theorem Reaches.leave {outcome : ChainOutcome} (h : c.Reaches t k e now)
    (hl : (e.attempt c.fitter c.idleTimeoutS (t.adapter k) t.prompt t.params now).verdict
      = .leave outcome) :
    let a := e.attempt c.fitter c.idleTimeoutS (t.adapter k) t.prompt t.params now
    (c.generateStream t).tokens = a.tokens.map (fun token => (k, token)) ∧
      (c.generateStream t).outcome = outcome := by
  have hk : 0 + k = k := Nat.zero_add k
  obtain ⟨ht, ho, _⟩ := generateStreamFrom_leave h.2 h.1 (hk.symm ▸ hl) []
  rw [hk] at ht
  exact ⟨ht, ho⟩

/-- No entry behind one that leaves the loop is called. -/
theorem Reaches.le_of_called {outcome : ChainOutcome} {j : Nat} (h : c.Reaches t k e now)
    (hl : (e.attempt c.fitter c.idleTimeoutS (t.adapter k) t.prompt t.params now).verdict
      = .leave outcome) (hj : (j, messages) ∈ (c.generateStream t).calls) : j ≤ k := by
  obtain ⟨n, now', e', rfl, hw, _, _⟩ := mem_generateStreamFrom_calls.mp hj
  rw [Nat.zero_add]
  by_contra hlt
  obtain ⟨e₁, a, b, he, hwk, hno⟩ := hw.passed (j := k) (by omega)
  rw [Nat.zero_add] at hno
  obtain rfl : e₁ = e := by simpa [h.1] using he.symm
  obtain rfl := hwk.unique h.2
  obtain ⟨⟨reason, hv⟩, _⟩ := (e₁.attempt_next_iff a b).mpr hno
  simp [hl] at hv

theorem Reaches.passedOver_of_lt {j : Nat} (h : c.Reaches t k e now) (hj : j < k) :
    c.PassedOver t j := by
  obtain ⟨e', a, b, he, hw, hno⟩ := h.2.passed hj
  rw [Nat.zero_add] at hno
  exact ⟨e', a, b, ⟨he, hw⟩, hno⟩

/-- A turn passes over all entries, or ends at one that it reaches. -/
theorem turn_cases (c : ProviderChain) (t : Turn) :
    (∃ now', Walk c.fitter c.idleTimeoutS t c.entries 0 t.now c.entries.length now') ∨
    ∃ k e now outcome, c.Reaches t k e now ∧
      (e.attempt c.fitter c.idleTimeoutS (t.adapter k) t.prompt t.params now).verdict
        = .leave outcome := by
  rcases walk_total c.fitter c.idleTimeoutS t c.entries 0 t.now with h | ⟨n, now, e, o, hw, he, hl⟩
  · exact .inl h
  · rw [Nat.zero_add] at hl
    exact .inr ⟨n, e, now, o, ⟨he, hw⟩, hl⟩

/-- How the loop is left when the heard stream has a token, or ends without
an exception. -/
theorem leaves_of_heard (ha : e.Admits now) (hf : e.Fits c.fitter t.prompt messages)
    (hne : (c.hears t k e messages now).tokens ≠ [] ∨
      (c.hears t k e messages now).outcome = .returned) :
    let a := e.attempt c.fitter c.idleTimeoutS (t.adapter k) t.prompt t.params now
    a.tokens = (c.hears t k e messages now).tokens.map Prod.snd ∧
      a.verdict = .leave
        (match (c.hears t k e messages now).outcome with
        | .returned => .returned
        | .blocked => .blocked
        | .raised exc => .reraised exc) := by
  obtain ⟨_, htok, _, hcase⟩ := e.stream_cases c.idleTimeoutS (t.adapter k) t.params messages now
  rw [← ChainEntry.attempt_of_fits ha hf] at htok hcase
  refine ⟨htok, ?_⟩
  unfold hears at *
  generalize e.heard c.idleTimeoutS (t.adapter k) t.params messages now = s at *
  cases ho : s.outcome with
  | returned => simpa [ho] using hcase
  | blocked => simpa [ho] using hcase
  | raised exc =>
    have hs : s.tokens ≠ [] := by simpa [ho] using hne
    simpa [ho, hs] using hcase

/-- A token of the run was heard from an entry that was reached and called. -/
theorem heard_of_mem_tokens {token : String} (h : (k, token) ∈ (c.generateStream t).tokens) :
    ∃ e now messages, c.Reaches t k e now ∧ e.Admits now ∧ e.Fits c.fitter t.prompt messages ∧
      (c.hears t k e messages now).tokens ≠ [] := by
  rcases turn_cases c t with ⟨now', hw⟩ | ⟨k', e, now, outcome, hr, hl⟩
  · obtain ⟨ht, _⟩ := generateStreamFrom_exhausted hw []
    unfold generateStream at h
    simp [ht] at h
  · rw [(hr.leave hl).1] at h
    simp only [List.mem_map, Prod.mk.injEq] at h
    obtain ⟨token', htok, rfl, rfl⟩ := h
    rcases e.attempt_cases c.fitter c.idleTimeoutS (t.adapter k') t.prompt t.params now with
      ⟨_, h⟩ | ⟨_, fit, exc, _, _, h⟩ | ⟨ha, m, hf, h⟩
    · simp [h] at htok
    · rw [h] at htok
      split at htok <;> simp at htok
    · refine ⟨e, now, m, hr, ha, hf, ?_⟩
      rw [h, (e.stream_cases _ _ _ m now).2.1] at htok
      unfold hears
      intro hnil
      simp [hnil] at htok

theorem passedOver_all_iff :
    (∃ exc, (c.generateStream t).outcome = .allFailed exc) ↔
      ∀ j < c.entries.length, c.PassedOver t j := by
  constructor
  · intro hfailed j hj
    obtain ⟨exc, ho⟩ := hfailed
    rcases turn_cases c t with ⟨now', hw⟩ | ⟨k, e, now, outcome, hr, hl⟩
    · obtain ⟨e, a, b, he, hwj, hno⟩ := hw.passed hj
      rw [Nat.zero_add] at hno
      exact ⟨e, a, b, ⟨he, hwj⟩, hno⟩
    · rw [(hr.leave hl).2] at ho
      exact absurd (ho ▸ hl) (e.attempt_leave_ne_allFailed now exc)
  · intro hall
    rcases turn_cases c t with ⟨now', hw⟩ | ⟨k, e, now, outcome, hr, hl⟩
    · obtain ⟨_, _, fs, ho⟩ := generateStreamFrom_exhausted hw []
      exact ⟨_, ho⟩
    · obtain ⟨hlt, _⟩ := List.getElem?_eq_some_iff.mp hr.1
      obtain ⟨e', now₁, now₂, hr', hno⟩ := hall k hlt
      obtain rfl : e' = e := by simpa [hr.1] using hr'.1.symm
      obtain rfl := hr'.2.unique hr.2
      obtain ⟨⟨reason, hv⟩, _⟩ := (e'.attempt_next_iff now₁ now₂).mpr hno
      simp [hl] at hv

/-- No splicing, and an honest failure. -/
theorem generateStream_single_source (c : ProviderChain) (t : Turn) :
    (∀ k token, (k, token) ∈ (c.generateStream t).tokens →
      (∃ messages texts, (k, messages) ∈ (c.generateStream t).calls ∧
        texts <+: (t.adapter k messages t.params).texts ∧
        (c.generateStream t).tokens = texts.map fun text => (k, text)) ∧
      (∀ j < k, c.PassedOver t j) ∧
      ∀ j messages, (j, messages) ∈ (c.generateStream t).calls → j ≤ k) ∧
    (∀ k e now messages exc, c.Reaches t k e now → e.Admits now →
      e.Fits c.fitter t.prompt messages → (c.hears t k e messages now).tokens ≠ [] →
      (c.hears t k e messages now).outcome = .raised exc →
      (c.generateStream t).outcome = .reraised exc) ∧
    ((∃ exc, (c.generateStream t).outcome = .allFailed exc) ↔
      ∀ j < c.entries.length, c.PassedOver t j) := by
  refine ⟨?_, ?_, passedOver_all_iff⟩
  · intro k token htoken
    obtain ⟨e, now, messages, hr, ha, hf, hne⟩ := heard_of_mem_tokens htoken
    obtain ⟨htok, hl⟩ := leaves_of_heard ha hf (.inl hne)
    refine ⟨⟨messages, _, hr.called ha hf, ?_, htok ▸ (hr.leave hl).1⟩, ?_, ?_⟩
    · exact withDeadlines_prefix _ _ _ _ _
    · intro j hj
      exact hr.passedOver_of_lt hj
    · intro j m hj
      exact hr.le_of_called hl hj
  · intro k e now messages exc hr ha hf hne ho
    obtain ⟨_, hl⟩ := leaves_of_heard ha hf (.inl hne)
    rw [ho] at hl
    exact (hr.leave hl).2

/-! ## A stream that ends without a token -/

/-- The entry at `k` is called and its stream ends cleanly, without a token. -/
def SilentEnd (c : ProviderChain) (t : Turn) (k : Nat) (e : ChainEntry) (now : Seconds) : Prop :=
  e.Admits now ∧ ∃ messages, e.Fits c.fitter t.prompt messages ∧
    (c.hears t k e messages now).tokens = [] ∧
    (c.hears t k e messages now).outcome = .returned

/-- After the entry at `k` the run is the one the loop makes of the entries
behind it: with none left, it raises the chain's own error. -/
def GoesOnAfter (c : ProviderChain) (t : Turn) (k : Nat) : Prop :=
  ∃ now' failures,
    let r := generateStreamFrom c.fitter c.idleTimeoutS t (c.entries.drop (k + 1)) (k + 1)
      now' failures
    (c.generateStream t).tokens = r.tokens ∧ (c.generateStream t).outcome = r.outcome ∧
      ∀ j messages, k < j →
        ((j, messages) ∈ (c.generateStream t).calls ↔ (j, messages) ∈ r.calls)

/-- A turn that finishes without raising has yielded a token, and an entry
whose stream ends without one counts as an entry without an answer. -/
def FirstTokenWins (c : ProviderChain) (t : Turn) : Prop :=
  ((c.generateStream t).outcome = .returned → (c.generateStream t).tokens ≠ []) ∧
    ∀ k e now, c.Reaches t k e now → c.SilentEnd t k e now → c.GoesOnAfter t k

/-- The loop returns at an entry whose stream ends without a token. -/
theorem SilentEnd.returned (h : c.SilentEnd t k e now) (hr : c.Reaches t k e now) :
    (c.generateStream t).tokens = [] ∧ (c.generateStream t).outcome = .returned := by
  obtain ⟨ha, messages, hf, htok, ho⟩ := h
  obtain ⟨ht, hl⟩ := leaves_of_heard ha hf (.inr ho)
  rw [ho] at hl
  obtain ⟨htokens, hout⟩ := hr.leave hl
  exact ⟨by simp [htokens, ht, htok], hout⟩

/-- A turn that returns ends at an entry whose stream ended cleanly. -/
theorem returned_cases (h : (c.generateStream t).outcome = .returned) :
    ∃ k e now messages, c.Reaches t k e now ∧ e.Admits now ∧
      e.Fits c.fitter t.prompt messages ∧ (c.hears t k e messages now).outcome = .returned := by
  rcases turn_cases c t with ⟨now', hw⟩ | ⟨k, e, now, outcome, hr, hl⟩
  · obtain ⟨_, _, fs, ho⟩ := generateStreamFrom_exhausted hw []
    unfold generateStream at h
    simp [ho] at h
  · obtain rfl : outcome = .returned := (hr.leave hl).2.symm.trans h
    rcases e.attempt_cases c.fitter c.idleTimeoutS (t.adapter k) t.prompt t.params now with
      ⟨_, h⟩ | ⟨_, fit, exc, _, _, h⟩ | ⟨ha, m, hf, h⟩
    · simp [h] at hl
    · rw [h] at hl
      split at hl <;> simp at hl
    · refine ⟨k, e, now, m, hr, ha, hf, ?_⟩
      obtain ⟨_, _, _, hcase⟩ := e.stream_cases c.idleTimeoutS (t.adapter k) t.params m now
      rw [h] at hl
      unfold hears
      generalize e.heard c.idleTimeoutS (t.adapter k) t.params m now = s at *
      cases ho : s.outcome with
      | returned => rfl
      | blocked => simp [ho, hl] at hcase
      | raised exc =>
        rw [ho] at hcase
        by_cases hs : s.tokens = [] <;> simp [hs, hl] at hcase

theorem firstTokenWins_iff (c : ProviderChain) (t : Turn) :
    c.FirstTokenWins t ↔ ∀ k e now, c.Reaches t k e now → ¬ c.SilentEnd t k e now := by
  constructor
  · intro hsilent k e now hr hs
    obtain ⟨hret, _⟩ := hsilent
    obtain ⟨htok, ho⟩ := hs.returned hr
    exact hret ho htok
  · intro hno
    refine ⟨?_, ?_⟩
    · intro ho htok
      obtain ⟨k, e, now, messages, hr, ha, hf, hret⟩ := returned_cases ho
      obtain ⟨ht, hl⟩ := leaves_of_heard ha hf (.inr hret)
      rw [(hr.leave hl).1, ht] at htok
      exact hno k e now hr ⟨ha, messages, hf, by simpa using htok, hret⟩
    · intro k e now hr hs
      exact absurd hs (hno k e now hr)

/-- Two providers, without breakers or a fitter. -/
def twoProviders : ProviderChain where
  entries := [⟨"gemini", none, some 30⟩, ⟨"groq", none, some 30⟩]
  entries_ne := by decide

/-- The first provider completes its stream without any text; the second
one would answer. -/
def emptyCompletion : Turn where
  prompt := {}
  params := {}
  now := 0
  adapter
    | 0 => fun _ _ => { ending := .stop 1 }
    | _ => fun _ _ => { tokens := [(1, "Hello")], ending := .stop 1 }

theorem not_firstTokenWins_emptyCompletion : ¬ twoProviders.FirstTokenWins emptyCompletion := by
  have silent : twoProviders.SilentEnd emptyCompletion 0 ⟨"gemini", none, some 30⟩ 0 := by
    refine ⟨rfl, [], rfl, ?_⟩
    simp [hears, ChainEntry.heard, withDeadlines, withDeadlinesFrom, emptyCompletion, drained,
      expires]
  intro hsilent
  obtain ⟨hret, _⟩ := hsilent
  obtain ⟨htok, ho⟩ := silent.returned ⟨rfl, .here⟩
  exact hret ho htok

end ProviderChain

end LlmService
