import LlmService.Providers.ChainAnswers
import LlmService.Utils.BreakerCalls

/-!
# The breakers of a chain, turn after turn

`after` is the chain with the breakers a turn leaves behind, `turns` a run of
turns. A turn changes only the breakers of the entries it reaches, and those
through the calls of `BreakerCall`. A failure after the first token first
takes one failure off the count, through `on_success`, and then adds it back:
such turns do not move the breaker towards its threshold.
-/

namespace LlmService

open Runs

section Loop

variable {fitter : Option Fitter} {idle : Option Seconds} {t : Turn} {es : List ChainEntry}
  {idx n : Nat} {now now' : Seconds}

theorem generateStreamFrom_breakers_length (fitter : Option Fitter) (idle : Option Seconds)
    (t : Turn) (es : List ChainEntry) (idx : Nat) (now : Seconds) (fs : List (String × String)) :
    (generateStreamFrom fitter idle t es idx now fs).breakers.length = es.length := by
  induction es generalizing idx now fs with
  | nil => rfl
  | cons e rest ih =>
    simp only [generateStreamFrom]
    split
    · simp
    · simp [ih]

/-- The breaker of a reached entry is the one its pass of the loop leaves. -/
theorem generateStreamFrom_breaker_of_walk {e : ChainEntry}
    (h : Walk fitter idle t es idx now n now') (he : es[n]? = some e)
    (fs : List (String × String)) :
    (generateStreamFrom fitter idle t es idx now fs).breakers[n]? =
      some (e.attempt fitter idle (t.adapter (idx + n)) t.prompt t.params now').breaker := by
  induction h generalizing fs with
  | @here es idx now =>
    cases es with
    | nil => simp at he
    | cons e' rest =>
      simp only [List.getElem?_cons_zero, Option.some.injEq] at he
      subst he
      simp only [generateStreamFrom, Nat.add_zero]
      split <;> rfl
  | @pass e' rest idx n now now₁ now' hfirst _ ih =>
    obtain ⟨⟨reason, hv⟩, rfl⟩ := (e'.attempt_next_iff now now₁).mpr hfirst
    have hrest := ih (by simpa using he) (fs ++ [(e'.name, reason)])
    rw [show idx + (n + 1) = idx + 1 + n by omega]
    simpa only [generateStreamFrom, hv, List.getElem?_cons_succ] using hrest

/-- An entry that is not reached keeps its breaker. -/
theorem generateStreamFrom_breaker_of_unreached
    (h : ∀ now', ¬ Walk fitter idle t es idx now n now') (fs : List (String × String)) :
    (generateStreamFrom fitter idle t es idx now fs).breakers[n]? = es[n]?.map (·.breaker) := by
  induction es generalizing idx now n fs with
  | nil => rfl
  | cons e rest ih =>
    cases n with
    | zero => exact absurd .here (h now)
    | succ n =>
      cases hv : (e.attempt fitter idle (t.adapter idx) t.prompt t.params now).verdict with
      | leave outcome => simp [generateStreamFrom, hv]
      | next reason =>
        have hno := (e.attempt_next_iff now _).mp ⟨⟨reason, hv⟩, rfl⟩
        simp only [generateStreamFrom, hv, List.getElem?_cons_succ]
        exact ih (fun now' hw => h now' (.pass hno hw)) _

end Loop

/-- What a heard stream does to the breaker. -/
def breakerAfter (s : Streamed) (b : CircuitBreaker) : CircuitBreaker :=
  let b := if s.tokens = [] then b else b.onSuccess
  match s.outcome with
  | .raised _ => b.onFailure s.endTime
  | _ => b

theorem ChainEntry.stream_breaker (e : ChainEntry) (idle : Option Seconds) (adapter : Adapter)
    (messages : List ChatMessage) (params : Params) (now : Seconds) :
    (e.stream idle adapter messages params now).breaker =
      e.breaker.map (breakerAfter (e.heard idle adapter params messages now)) := by
  simp only [ChainEntry.stream, ChainEntry.heard]
  generalize withDeadlines (adapter messages params) e.firstTokenTimeoutS idle e.name now = s
  obtain ⟨tokens, outcome, endTime⟩ := s
  cases e.breaker <;> cases tokens <;> cases outcome <;> rfl

/-- A heard stream drives the breaker: the check has let the turn through,
then `on_success` at the first token and `on_failure` at an exception. -/
theorem breakerAfter_driven (s : Streamed) (b : CircuitBreaker) (now : Seconds)
    (hb : b.isOpen now = false) :
    ∃ calls, run CircuitBreaker.drive b calls = some (breakerAfter s b) := by
  obtain ⟨tokens, outcome, endTime⟩ := s
  refine ⟨.isOpen now false :: ((if tokens = [] then [] else [.onSuccess endTime]) ++
    match outcome with
    | .raised _ => [.onFailure endTime]
    | _ => []), ?_⟩
  cases tokens <;> cases outcome <;>
    simp [run_cons, CircuitBreaker.drive, hb, breakerAfter]

theorem ChainEntry.attempt_driven (fitter : Option Fitter) (idle : Option Seconds)
    (adapter : Adapter) (prompt : TrimmedPrompt) (params : Params) {e : ChainEntry}
    {b : CircuitBreaker} (hb : e.breaker = some b) (now : Seconds) :
    ∃ calls b', (e.attempt fitter idle adapter prompt params now).breaker = some b' ∧
      run CircuitBreaker.drive b calls = some b' := by
  rcases e.attempt_cases fitter idle adapter prompt params now with ⟨_, h⟩ | ⟨_, fit, exc, _, _, h⟩ | ⟨ha, m, hf, h⟩
  · exact ⟨[], b, by simp [h, hb], rfl⟩
  · refine ⟨[], b, ?_, rfl⟩
    rw [h]
    split <;> simp [hb]
  · unfold ChainEntry.Admits at ha
    rw [hb] at ha
    obtain ⟨calls, hcalls⟩ :=
      breakerAfter_driven (e.heard idle adapter params m now) b now ha
    exact ⟨calls, _, by rw [h, e.stream_breaker, hb]; rfl, hcalls⟩

namespace ProviderChain

/-- The chain after a turn. -/
def after (c : ProviderChain) (t : Turn) : ProviderChain where
  entries := List.zipWith (fun e b => { e with breaker := b }) c.entries
    (c.generateStream t).breakers
  idleTimeoutS := c.idleTimeoutS
  fitter := c.fitter
  entries_ne := by
    have hlen : (c.generateStream t).breakers.length = c.entries.length :=
      generateStreamFrom_breakers_length ..
    have hne := List.length_pos_iff.mpr c.entries_ne
    rw [← List.length_pos_iff, List.length_zipWith, hlen]
    omega

/-- The chain after a run of turns. -/
def turns (c : ProviderChain) (ts : List Turn) : ProviderChain := ts.foldl after c

variable {c : ProviderChain} {t : Turn} {k : Nat} {e : ChainEntry} {b : CircuitBreaker}
  {now : Seconds} {messages : List ChatMessage}

@[simp] theorem turns_nil (c : ProviderChain) : c.turns [] = c := rfl

@[simp] theorem turns_snoc (c : ProviderChain) (ts : List Turn) (t : Turn) :
    c.turns (ts ++ [t]) = (c.turns ts).after t := by
  simp [turns]

theorem after_entry (he : c.entries[k]? = some e) {b : Option CircuitBreaker}
    (hb : (c.generateStream t).breakers[k]? = some b) :
    (c.after t).entries[k]? = some { e with breaker := b } := by
  simp [after, List.getElem?_zipWith, he, hb]

theorem after_entry_of_reaches (h : c.Reaches t k e now) :
    (c.after t).entries[k]? = some { e with breaker :=
      (e.attempt c.fitter c.idleTimeoutS (t.adapter k) t.prompt t.params now).breaker } := by
  have hb := generateStreamFrom_breaker_of_walk h.2 h.1 []
  rw [Nat.zero_add] at hb
  exact after_entry h.1 hb

/-- Whatever a turn does, it drives each entry's breaker. -/
theorem after_driven (he : c.entries[k]? = some e) (hb : e.breaker = some b) (t : Turn) :
    ∃ calls b', (c.after t).entries[k]? = some { e with breaker := some b' } ∧
      run CircuitBreaker.drive b calls = some b' := by
  by_cases hreach : ∃ now, c.Reaches t k e now
  · obtain ⟨now, hr⟩ := hreach
    obtain ⟨calls, b', hb', hcalls⟩ := ChainEntry.attempt_driven c.fitter
      c.idleTimeoutS (t.adapter k) t.prompt t.params hb now
    exact ⟨calls, b', by rw [after_entry_of_reaches hr, hb'], hcalls⟩
  · have hno : ∀ now', ¬ Walk c.fitter c.idleTimeoutS t c.entries 0 t.now k now' := by
      intro now' hw
      exact hreach ⟨now', he, hw⟩
    have hkeep := generateStreamFrom_breaker_of_unreached hno []
    refine ⟨[], b, ?_, rfl⟩
    rw [he, Option.map_some, hb] at hkeep
    exact after_entry he hkeep

/-- Over any run of turns, each breaker is only ever driven. -/
theorem turns_driven (he : c.entries[k]? = some e) (hb : e.breaker = some b)
    (ts : List Turn) :
    ∃ calls b', (c.turns ts).entries[k]? = some { e with breaker := some b' } ∧
      run CircuitBreaker.drive b calls = some b' := by
  induction ts using List.reverseRecOn with
  | nil =>
    refine ⟨[], b, ?_, rfl⟩
    rw [turns_nil, he, ← hb]
  | append_singleton ts t ih =>
    obtain ⟨calls, b₁, he₁, hcalls⟩ := ih
    obtain ⟨calls', b₂, he₂, hcalls'⟩ := after_driven he₁ rfl t
    refine ⟨calls ++ calls', b₂, by rw [turns_snoc, he₂], ?_⟩
    rw [run_append, hcalls]
    exact hcalls'

/-! ## Consecutive failures -/

/-- In the turn the entry at `k` is called and its stream fails. -/
def Fails (c : ProviderChain) (t : Turn) (k : Nat) : Prop :=
  ∃ e now messages exc, c.Reaches t k e now ∧ e.Admits now ∧ e.Fits c.fitter t.prompt messages ∧
    (c.hears t k e messages now).outcome = .raised exc

/-- It fails before its first token. -/
def FailsEarly (c : ProviderChain) (t : Turn) (k : Nat) : Prop :=
  ∃ e now messages exc, c.Reaches t k e now ∧ e.Admits now ∧ e.Fits c.fitter t.prompt messages ∧
    (c.hears t k e messages now).outcome = .raised exc ∧
    (c.hears t k e messages now).tokens = []

/-- The entry fails in every turn of the run. -/
def KeepsFailing (c : ProviderChain) (k : Nat) (ts : List Turn) : Prop :=
  ∀ l₁ t l₂, ts = l₁ ++ t :: l₂ → (c.turns l₁).Fails t k

/-- In every turn but the first, it fails before its first token. -/
def LaterFailEarly (c : ProviderChain) (k : Nat) (ts : List Turn) : Prop :=
  ∀ l₁ t l₂, ts = l₁ ++ t :: l₂ → l₁ ≠ [] → (c.turns l₁).FailsEarly t k

/-- The entry's breaker reports open at the moment of its last failure, and
a turn that comes to the entry within the recovery timeout does not call it. -/
def SkippedNext (c : ProviderChain) (k : Nat) : Prop :=
  ∃ e b, c.entries[k]? = some e ∧ e.breaker = some b ∧ b.isOpen b.lastFailureTime = true ∧
    ∀ t now, c.Reaches t k e now →
      now - b.lastFailureTime < b.config.recoveryTimeoutSeconds →
      ∀ messages, (k, messages) ∉ (c.generateStream t).calls

/-- What a failing turn does to the entry's breaker. -/
theorem Fails.after (h : c.Fails t k) (he : c.entries[k]? = some e) (hb : e.breaker = some b) :
    ∃ now, (c.FailsEarly t k ∧
        (c.after t).entries[k]? = some { e with breaker := some (b.onFailure now) }) ∨
      (¬ c.FailsEarly t k ∧
        (c.after t).entries[k]? = some { e with breaker := some (b.onSuccess.onFailure now) }) := by
  by_cases hearly : c.FailsEarly t k
  · obtain ⟨e', now, messages, exc, hr, ha, hf, ho, htok⟩ := id hearly
    obtain rfl : e' = e := by simpa [hr.1] using he
    have hs := e'.stream_breaker c.idleTimeoutS (t.adapter k) messages t.params now
    unfold hears at ho htok
    refine ⟨(e'.heard c.idleTimeoutS (t.adapter k) t.params messages now).endTime,
      .inl ⟨hearly, ?_⟩⟩
    rw [after_entry_of_reaches hr, ChainEntry.attempt_of_fits ha hf, hs, hb]
    simp [breakerAfter, ho, htok]
  · obtain ⟨e', now, messages, exc, hr, ha, hf, ho⟩ := h
    obtain rfl : e' = e := by simpa [hr.1] using he
    have htok : (c.hears t k e' messages now).tokens ≠ [] := by
      intro htok
      exact hearly ⟨e', now, messages, exc, hr, ha, hf, ho, htok⟩
    have hs := e'.stream_breaker c.idleTimeoutS (t.adapter k) messages t.params now
    unfold hears at ho htok
    refine ⟨(e'.heard c.idleTimeoutS (t.adapter k) t.params messages now).endTime,
      .inr ⟨hearly, ?_⟩⟩
    rw [after_entry_of_reaches hr, ChainEntry.attempt_of_fits ha hf, hs, hb]
    simp [breakerAfter, ho, htok]

/-- The entry's breaker after `m ≥ 1` failing turns, none past its threshold. -/
structure FailedTurns (config : CircuitBreakerConfig) (m : Nat) (laterEarly : Prop)
    (b : CircuitBreaker) : Prop where
  config_eq : b.config = config
  count_pos : 1 ≤ b.failureCount
  count_le : b.failureCount ≤ m
  count_eq : b.failureCount = m ↔ laterEarly
  state_eq : b.state = if config.failureThreshold ≤ b.failureCount then .opened else .closed

/-- The first failure counts one, whichever way the stream fails. -/
theorem failedTurns_first {config : CircuitBreakerConfig} (name : String) (now : Seconds) :
    FailedTurns config 1 True ((CircuitBreaker.fresh name config).onFailure now) ∧
      FailedTurns config 1 True ((CircuitBreaker.fresh name config).onSuccess.onFailure now) := by
  have hsame : (CircuitBreaker.fresh name config).onSuccess = CircuitBreaker.fresh name config :=
    rfl
  rw [hsame, and_self]
  refine ⟨by simp [CircuitBreaker.fresh], by simp, by simp [CircuitBreaker.fresh],
    by simp [CircuitBreaker.fresh], ?_⟩
  rw [CircuitBreaker.onFailure_state _ _ (by simp [CircuitBreaker.fresh])]
  simp [CircuitBreaker.fresh]

section Step

variable {config : CircuitBreakerConfig} {m : Nat} {p : Prop}

theorem FailedTurns.closed (h : FailedTurns config m p b) (hm : m < config.failureThreshold) :
    b.state = .closed := by
  have hle := h.count_le
  rw [h.state_eq, if_neg (by omega)]

/-- A failure before the first token adds one. -/
theorem FailedTurns.early (h : FailedTurns config m p b) (hm : m < config.failureThreshold)
    (now : Seconds) : FailedTurns config (m + 1) p (b.onFailure now) := by
  have hclosed := h.closed hm
  have hle := h.count_le
  refine ⟨by simp [h.config_eq], by simp, by simpa using hle, ?_, ?_⟩
  · simpa using h.count_eq
  · rw [CircuitBreaker.onFailure_state b now (by simp [hclosed])]
    simp [h.config_eq, hclosed]

/-- A failure after the first token leaves the count where it was. -/
theorem FailedTurns.midStream (h : FailedTurns config m p b) (hm : m < config.failureThreshold)
    (now : Seconds) : FailedTurns config (m + 1) False (b.onSuccess.onFailure now) := by
  have hclosed := h.closed hm
  have hpos := h.count_pos
  have hle := h.count_le
  -- `on_success` stops at zero, which a count that is positive does not reach
  have hcount : (b.onSuccess.onFailure now).failureCount = b.failureCount := by
    simp only [CircuitBreaker.onFailure_failureCount, CircuitBreaker.onSuccess_of_closed b hclosed]
    omega
  refine ⟨by simp [h.config_eq], by omega, by omega, ?_, ?_⟩
  · simp only [iff_false]
    omega
  · have hs : b.onSuccess.state = .closed := by
      simp [CircuitBreaker.onSuccess_of_closed b hclosed, hclosed]
    rw [CircuitBreaker.onFailure_state _ now (by simp [hs]), hs]
    rw [CircuitBreaker.onFailure_failureCount] at hcount
    simp only [CircuitBreaker.onSuccess_config, h.config_eq, ge_iff_le, hcount,
      CircuitBreaker.onFailure_failureCount]

end Step

/-- A condition on every turn of a run, split at the last turn. -/
theorem forall_split_snoc {p : List Turn → Turn → Prop} (ts : List Turn) (t : Turn) :
    (∀ l₁ u l₂, ts ++ [t] = l₁ ++ u :: l₂ → p l₁ u) ↔
      (∀ l₁ u l₂, ts = l₁ ++ u :: l₂ → p l₁ u) ∧ p ts t := by
  constructor
  · intro h
    refine ⟨?_, h ts t [] rfl⟩
    intro l₁ u l₂ hl
    exact h l₁ u (l₂ ++ [t]) (by simp [hl])
  · intro hboth l₁ u l₂ hl
    obtain ⟨h, hlast⟩ := hboth
    rcases List.eq_nil_or_concat l₂ with rfl | ⟨l₂', v, rfl⟩
    · obtain ⟨rfl, heq⟩ := List.append_inj' hl rfl
      obtain rfl : t = u := by simpa using heq
      exact hlast
    · have hinit : ts ++ [t] = (l₁ ++ u :: l₂') ++ [v] := by simpa using hl
      exact h l₁ u l₂' (List.append_inj_left' hinit rfl)

theorem keepsFailing_snoc (ts : List Turn) (t : Turn) :
    c.KeepsFailing k (ts ++ [t]) ↔ c.KeepsFailing k ts ∧ (c.turns ts).Fails t k :=
  forall_split_snoc (p := fun l₁ u => (c.turns l₁).Fails u k) ts t

theorem laterFailEarly_snoc (ts : List Turn) (t : Turn) :
    c.LaterFailEarly k (ts ++ [t]) ↔
      c.LaterFailEarly k ts ∧ (ts ≠ [] → (c.turns ts).FailsEarly t k) :=
  forall_split_snoc (p := fun l₁ u => l₁ ≠ [] → (c.turns l₁).FailsEarly u k) ts t

/-- A run of failing turns, up to the threshold. -/
theorem failedTurns_run {name : String} {config : CircuitBreakerConfig}
    (he : c.entries[k]? = some e) (hb : e.breaker = some (.fresh name config))
    (ts : List Turn) (hne : ts ≠ []) (hlen : ts.length ≤ config.failureThreshold)
    (hfail : c.KeepsFailing k ts) :
    ∃ b, (c.turns ts).entries[k]? = some { e with breaker := some b } ∧
      FailedTurns config ts.length (c.LaterFailEarly k ts) b := by
  induction ts using List.reverseRecOn with
  | nil => exact absurd rfl hne
  | append_singleton ts t ih =>
    obtain ⟨hkeeps, hlast⟩ := (keepsFailing_snoc ts t).mp hfail
    rw [List.length_append, List.length_singleton] at hlen ⊢
    simp only [turns_snoc, laterFailEarly_snoc]
    by_cases hts : ts = []
    · -- the first turn: the breaker is fresh
      subst hts
      have hall : c.LaterFailEarly k [] ∧ (([] : List Turn) ≠ [] →
          (c.turns []).FailsEarly t k) ↔ True := by
        simp [LaterFailEarly]
      rw [hall]
      rcases hlast.after he hb with ⟨now, ⟨_, hafter⟩ | ⟨_, hafter⟩⟩
      · exact ⟨_, hafter, (failedTurns_first name now).1⟩
      · exact ⟨_, hafter, (failedTurns_first name now).2⟩
    · obtain ⟨b, he', hturns⟩ := ih hts (by omega) hkeeps
      rcases hlast.after he' rfl with ⟨now, ⟨hearly, hafter⟩ | ⟨hmid, hafter⟩⟩
      · refine ⟨_, hafter, ?_⟩
        have hall : c.LaterFailEarly k ts ∧ (ts ≠ [] → (c.turns ts).FailsEarly t k) ↔
            c.LaterFailEarly k ts := by
          simp [hearly]
        rw [hall]
        exact hturns.early (by omega) now
      · refine ⟨_, hafter, ?_⟩
        have hall : c.LaterFailEarly k ts ∧ (ts ≠ [] → (c.turns ts).FailsEarly t k) ↔ False := by
          simp [hmid, hts]
        rw [hall]
        exact hturns.midStream (by omega) now

/-- An open breaker keeps the loop from calling its entry. -/
theorem not_called_of_isOpen (h : c.Reaches t k e now) (hb : e.breaker = some b)
    (ho : b.isOpen now = true) : (k, messages) ∉ (c.generateStream t).calls := by
  intro hcall
  obtain ⟨n, now', e', hn, hw, he, hs⟩ := mem_generateStreamFrom_calls.mp hcall
  obtain rfl : k = n := by simpa using hn
  obtain rfl : e' = e := by simpa [h.1] using he.symm
  obtain rfl := hw.unique h.2
  have ha := ((e'.attempt_sent_iff now' messages).mp hs).1
  simp [ChainEntry.Admits, hb, ho] at ha

/-- After `failure_threshold` consecutive failing turns the entry is skipped
exactly when all of them but the first failed before their first token. -/
theorem skippedNext_iff_laterFailEarly {name : String} {config : CircuitBreakerConfig}
    (he : c.entries[k]? = some e) (hb : e.breaker = some (.fresh name config))
    (hthreshold : 2 ≤ config.failureThreshold) (ts : List Turn)
    (hlen : ts.length = config.failureThreshold) (hfail : c.KeepsFailing k ts) :
    (c.turns ts).SkippedNext k ↔ c.LaterFailEarly k ts := by
  have hne : ts ≠ [] := by
    intro heq
    subst heq
    simp at hlen
    omega
  obtain ⟨b, he', hturns⟩ := failedTurns_run he hb ts hne hlen.le hfail
  have hstate := hturns.state_eq
  rw [← hturns.count_eq, hlen]
  constructor
  · intro hskipped
    obtain ⟨e₁, b₁, he₁, hb₁, hopen, _⟩ := hskipped
    obtain rfl : { e with breaker := some b } = e₁ := by simpa [he'] using he₁
    obtain rfl : b = b₁ := by simpa using hb₁
    by_contra hcount
    have hle := hturns.count_le
    rw [if_neg (by omega)] at hstate
    rw [CircuitBreaker.isOpen_of_not_opened b (by simp [hstate])] at hopen
    cases hopen
  · intro hcount
    rw [if_pos hcount.ge] at hstate
    have hpos : (0 : Seconds) < b.config.recoveryTimeoutSeconds := by
      exact_mod_cast b.config.recovery_pos
    refine ⟨_, b, he', rfl, b.isOpen_of_opened hstate (by simpa using hpos), ?_⟩
    intro t now hr hrecent messages
    exact not_called_of_isOpen hr rfl (b.isOpen_of_opened hstate hrecent)

/-! ## Two failing turns -/

/-- One provider whose breaker opens at the second failure. -/
def oneProvider : ProviderChain where
  entries := [⟨"gemini", some (.fresh "gemini" { failureThreshold := 2 }), some 30⟩]
  entries_ne := by decide

/-- A turn in which the provider fails after some tokens, a second each. -/
def failingTurn (now : Seconds) (tokens : List String) : Turn where
  prompt := {}
  params := {}
  now
  adapter := fun _ _ _ =>
    { tokens := tokens.map fun token => (1, token)
      ending := .fail 1 { cls := .providerError, message := "stream reset" } }

theorem failingTurn_heard (e : ChainEntry) (tokens : List String) (start now : Seconds) (k : Nat)
    (he : e.firstTokenTimeoutS = some 30) :
    (oneProvider.hears (failingTurn start tokens) k e [] now).outcome =
        .raised { cls := .providerError, message := "stream reset" } ∧
      ((oneProvider.hears (failingTurn start tokens) k e [] now).tokens = [] ↔ tokens = []) := by
  have hlimits : ∀ first : Bool, expires (if first then some 30 else some 20) 1 = false := by
    intro first
    cases first <;> simp [expires]
  simp only [hears, ChainEntry.heard, withDeadlines, failingTurn, he,
    show oneProvider.idleTimeoutS = some 20 from rfl]
  generalize true = first
  induction tokens generalizing first now with
  | nil => simp [withDeadlinesFrom, drained, hlimits first]
  | cons token rest ih =>
    simp only [List.map_cons, withDeadlinesFrom, hlimits first, Bool.false_eq_true, if_false]
    exact ⟨(ih (now + 1) false).1, by simp⟩

/-- Two failing turns in a row, with any tokens before the failures. -/
theorem keepsFailing_two (tokens tokens' : List String) :
    oneProvider.KeepsFailing 0 [failingTurn 0 tokens, failingTurn 10 tokens'] ∧
      (oneProvider.LaterFailEarly 0 [failingTurn 0 tokens, failingTurn 10 tokens'] ↔
        tokens' = []) := by
  have hfirst : oneProvider.KeepsFailing 0 [failingTurn 0 tokens] := by
    refine (keepsFailing_snoc [] _).mpr ⟨by simp [KeepsFailing], ?_⟩
    exact ⟨_, _, [], _, ⟨rfl, .here⟩, rfl, rfl, (failingTurn_heard _ tokens 0 _ 0 rfl).1⟩
  obtain ⟨b, he, hturns⟩ := failedTurns_run (c := oneProvider) (k := 0) rfl rfl
    [failingTurn 0 tokens] (by simp) (by simp) hfirst
  have hclosed := hturns.closed (by simp)
  have hr : (oneProvider.turns [failingTurn 0 tokens]).Reaches (failingTurn 10 tokens') 0
      ⟨"gemini", some b, some 30⟩ 10 := ⟨he, .here⟩
  have ha : ChainEntry.Admits ⟨"gemini", some b, some 30⟩ 10 :=
    b.isOpen_of_not_opened (by simp [hclosed])
  obtain ⟨hraised, htokens⟩ :=
    failingTurn_heard ⟨"gemini", some b, some 30⟩ tokens' 10 10 0 rfl
  refine ⟨(keepsFailing_snoc [failingTurn 0 tokens] _).mpr ⟨hfirst, ?_⟩, ?_⟩
  · exact ⟨_, _, [], _, hr, ha, rfl, hraised⟩
  · rw [← htokens]
    have hsplit := laterFailEarly_snoc (c := oneProvider) (k := 0) [failingTurn 0 tokens]
      (failingTurn 10 tokens')
    refine hsplit.trans ⟨?_, ?_⟩
    · intro hboth
      obtain ⟨_, hlast⟩ := hboth
      obtain ⟨e', now', m', exc', hr', _, hm', _, htok⟩ := hlast (by simp)
      obtain rfl : (⟨"gemini", some b, some 30⟩ : ChainEntry) = e' := by
        simpa [hr.1] using hr'.1
      obtain rfl := hr'.2.unique hr.2
      obtain rfl : m' = [] := hm'
      exact htok
    · intro htok
      refine ⟨?_, fun _ => ⟨_, _, [], _, hr, ha, rfl, hraised, htok⟩⟩
      refine (laterFailEarly_snoc [] (failingTurn 0 tokens)).mpr ⟨by simp [LaterFailEarly], ?_⟩
      intro h
      exact absurd rfl h

theorem skippedNext_two_early :
    (oneProvider.turns [failingTurn 0 [], failingTurn 10 []]).SkippedNext 0 :=
  (skippedNext_iff_laterFailEarly (c := oneProvider) (k := 0) rfl rfl (by decide) _ rfl
    (keepsFailing_two [] []).1).mpr ((keepsFailing_two [] []).2.mpr rfl)

/-- Two turns that break off after some text leave the breaker closed. -/
theorem not_forall_skippedNext :
    ¬ ∀ (c : ProviderChain) (k : Nat) (e : ChainEntry) (name : String)
      (config : CircuitBreakerConfig) (ts : List Turn), c.entries[k]? = some e →
      e.breaker = some (.fresh name config) → 2 ≤ config.failureThreshold →
      ts.length = config.failureThreshold → c.KeepsFailing k ts →
      (c.turns ts).SkippedNext k := by
  intro h
  obtain ⟨hfail, hearly⟩ := keepsFailing_two ["Hel"] ["Hel"]
  obtain ⟨e, b, he, hb, hopen, _⟩ := h oneProvider 0 _ "gemini" { failureThreshold := 2 } _ rfl
    rfl (by decide) rfl hfail
  obtain ⟨b', he', hturns⟩ := failedTurns_run (c := oneProvider) (k := 0) rfl rfl _ (by simp)
    le_rfl hfail
  rw [he'] at he
  obtain rfl := Option.some.inj he
  obtain rfl : b' = b := Option.some.inj hb
  have hcount : b'.failureCount ≠ 2 := by
    intro hcount
    exact absurd (hearly.mp (hturns.count_eq.mp hcount)) (by simp)
  have hle : b'.failureCount ≤ 2 := hturns.count_le
  have hstate : b'.state = .closed := by
    rw [hturns.state_eq, if_neg]
    simp only [not_le]
    omega
  rw [b'.isOpen_of_not_opened (by simp [hstate])] at hopen
  cases hopen

end ProviderChain

end LlmService
