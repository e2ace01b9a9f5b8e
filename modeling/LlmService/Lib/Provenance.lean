import LlmService.Lib.Spending

/-!
# Where commands come from

A script is sourced if each of its commands is justified by what the script
has been answered before. The shared state answers from what all scripts have
told it. So, however the scripts of a pool are interleaved, each command that
is performed is justified by what was performed before it, and `Vouched` says
this of the whole of a history.
-/

namespace LlmService

namespace Script

variable {C : Type} {R : C → Type} {ε α β : Type} {P : List (Σ c, R c) → C → Prop}
  {past : List (Σ c, R c)} {p : Script R ε α}

/-- Each command is justified by what has been answered before. -/
def Sourced (P : List (Σ c, R c) → C → Prop) : Script R ε α → List (Σ c, R c) → Prop
  | .pure _, _ | .raise _, _ => True
  | .call c rest, past => P past c ∧ ∀ r, (rest r).Sourced P (past ++ [⟨c, r⟩])

theorem Sourced.bind {f : α → Script R ε β} (hp : p.Sourced P past)
    (hf : ∀ t a, p.Trace t (.ok a) → (f a).Sourced P (past ++ t)) : (p >>= f).Sourced P past := by
  induction p generalizing past with
  | pure a =>
    have h := hf [] a (.pure a)
    rw [List.append_nil] at h
    exact h
  | raise e => trivial
  | call c rest ih =>
    refine ⟨hp.1, fun r => ih r (hp.2 r) ?_⟩
    intro t a ht
    simpa using hf (⟨c, r⟩ :: t) a (.call ht)

theorem Sourced.handle {f : ε → Script R ε α} (hp : p.Sourced P past)
    (hf : ∀ t e, p.Trace t (.error e) → (f e).Sourced P (past ++ t)) :
    (tryCatch p f).Sourced P past := by
  induction p generalizing past with
  | pure a => trivial
  | raise e =>
    have h := hf [] e (.raise e)
    rw [List.append_nil] at h
    exact h
  | call c rest ih =>
    refine ⟨hp.1, fun r => ih r (hp.2 r) ?_⟩
    intro t e ht
    simpa using hf (⟨c, r⟩ :: t) e (.call ht)

theorem sourced_command_bind {c : C} {f : R c → Script R ε α} (hc : P past c)
    (hf : ∀ r, (f r).Sourced P (past ++ [⟨c, r⟩])) : (command c >>= f).Sourced P past := ⟨hc, hf⟩

/-- Commands that need no justification. -/
theorem Sourced.of_only {free : C → Prop} (hp : p.Only free) (hfree : ∀ past c, free c → P past c) :
    p.Sourced P past := by
  induction p generalizing past with
  | pure a => trivial
  | raise e => trivial
  | call c rest ih => exact ⟨hfree past c hp.1, fun r => ih r (hp.2 r)⟩

end Script

/-- Each item of a history is vouched for by those before it. -/
def Vouched {α : Type} (Q : List α → α → Prop) (l : List α) : Prop :=
  ∀ before x after, l = before ++ x :: after → Q before x

section Vouched

variable {α : Type} {Q : List α → α → Prop} {l : List α} {a : α}

theorem vouched_nil : Vouched Q [] := by
  intro before x after h
  cases before with
  | nil => cases h
  | cons b before => cases h

/-- An item of a list with one more at its end: the last one, or an earlier one. -/
theorem concat_eq_append_cons {before after : List α} {x : α} (h : l ++ [a] = before ++ x :: after) :
    (l = before ∧ a = x ∧ after = []) ∨ ∃ rest, after = rest ++ [a] ∧ l = before ++ x :: rest := by
  rcases List.eq_nil_or_concat after with rfl | ⟨rest, last, rfl⟩
  · obtain ⟨rfl, hx⟩ := List.append_inj' h rfl
    exact .inl ⟨rfl, List.singleton_inj.mp hx, rfl⟩
  · have hinner : l ++ [a] = (before ++ x :: rest) ++ [last] := by simpa using h
    obtain ⟨hl, hlast⟩ := List.append_inj' hinner rfl
    exact .inr ⟨rest, by rw [List.singleton_inj.mp hlast, List.concat_eq_append], hl⟩

theorem vouched_concat_iff : Vouched Q (l ++ [a]) ↔ Vouched Q l ∧ Q l a := by
  constructor
  · intro h
    refine ⟨?_, h l a [] rfl⟩
    intro before x after hsplit
    exact h before x (after ++ [a]) (by simp [hsplit])
  · intro h before x after hsplit
    rcases concat_eq_append_cons hsplit with ⟨rfl, rfl, -⟩ | ⟨rest, -, hl⟩
    · exact h.2
    · exact h.1 before x rest hl

end Vouched

namespace Pool

open Script Runs

variable {C : Type} {R : C → Type} {ε α ω η σ : Type} {exec : (c : C) → ω → σ → Option (R c × σ)}
  {disturb : η → σ → Option σ} {P : List (Σ c, R c) → C → Prop}
  {Q : List (Σ c, R c) → (Σ c, R c) → Prop} {J : List (Σ c, R c) → σ → Prop}
  {past : List (Σ c, R c)} {s t : Pool σ (Script R ε α)} {a : Label ω η} {l : List (Label ω η)}

/-- The past of each script is a part of the past of the pool, and the shared state knows the latter. -/
structure Remembers (P : List (Σ c, R c) → C → Prop) (J : List (Σ c, R c) → σ → Prop)
    (past : List (Σ c, R c)) (s : Pool σ (Script R ε α)) : Prop where
  sourced : ∀ (i : Nat) (p : Script R ε α), s.scripts[i]? = some p →
    ∃ mine : List (Σ c, R c), mine.Sublist past ∧ p.Sourced P mine
  shared : J past s.shared

/-- One more command is vouched for by the past of its script, and by what the shared state knows. -/
theorem Remembers.step
    (hexec : ∀ past mine c w u r v, J past u → mine.Sublist past → P mine c →
      exec c w u = some (r, v) → Q past ⟨c, r⟩ ∧ J (past ++ [⟨c, r⟩]) v)
    (hdisturb : ∀ past e u v, J past u → disturb e u = some v → J past v)
    (h : Remembers P J past s) (hstep : Pool.step exec disturb s a = some t) :
    Remembers P J (past ++ (executed exec s a).toList) t ∧ ∀ x ∈ executed exec s a, Q past x := by
  cases a with
  | other e =>
    obtain ⟨u, hu, rfl⟩ := step_other_iff.mp hstep
    refine ⟨⟨?_, ?_⟩, fun x hx => nomatch hx⟩
    · intro i p hp
      rw [executed, Option.toList_none, List.append_nil]
      exact h.sourced i p hp
    · rw [executed, Option.toList_none, List.append_nil]
      exact hdisturb past e _ _ h.shared hu
  | work i w =>
    obtain ⟨c, rest, r, u, hp, hexecuted, rfl⟩ := step_work_iff.mp hstep
    obtain ⟨mine, hmine, hcall⟩ := h.sourced i _ hp
    obtain ⟨hvouched, hshared⟩ := hexec past mine c w _ r u h.shared hmine hcall.1 hexecuted
    rw [executed_work hp hexecuted]
    refine ⟨⟨?_, hshared⟩, ?_⟩
    · intro j q hq
      by_cases hij : i = j
      · subst hij
        rw [List.getElem?_set_self (List.getElem?_eq_some_iff.mp hp).1] at hq
        obtain rfl := Option.some.inj hq
        exact ⟨mine ++ [⟨c, r⟩], hmine.append (List.Sublist.refl _), hcall.2 r⟩
      · rw [List.getElem?_set_ne hij] at hq
        obtain ⟨other, hother, hsourced⟩ := h.sourced j q hq
        exact ⟨other, hother.trans (List.sublist_append_left _ _), hsourced⟩
    · intro x hx
      obtain rfl := Option.some.inj hx
      exact hvouched

/-- Whatever is performed along a run is vouched for by what was performed before. -/
theorem Remembers.vouched
    (hexec : ∀ past mine c w u r v, J past u → mine.Sublist past → P mine c →
      exec c w u = some (r, v) → Q past ⟨c, r⟩ ∧ J (past ++ [⟨c, r⟩]) v)
    (hdisturb : ∀ past e u v, J past u → disturb e u = some v → J past v)
    (h : Remembers P J past s) (hpast : Vouched Q past) (hrun : run (Pool.step exec disturb) s l = some t) :
    Remembers P J (past ++ performed exec disturb s l) t ∧
      Vouched Q (past ++ performed exec disturb s l) := by
  induction l generalizing s past with
  | nil =>
    obtain rfl := Option.some.inj hrun
    rw [performed, List.append_nil]
    exact ⟨h, hpast⟩
  | cons a l ih =>
    rw [run_cons] at hrun
    obtain ⟨u, hu, hrest⟩ := Option.bind_eq_some_iff.mp hrun
    obtain ⟨hremembers, hq⟩ := h.step hexec hdisturb hu
    rw [performed_cons hu, ← List.append_assoc]
    refine ih hremembers ?_ hrest
    cases hx : executed exec s a with
    | none =>
      rw [Option.toList_none, List.append_nil]
      exact hpast
    | some x => exact vouched_concat_iff.mpr ⟨hpast, hq x hx⟩

section OwnPart

variable (exec disturb) (i : Nat)

/-- What the script at `i` performs in a step. -/
def executedBy (s : Pool σ (Script R ε α)) (a : Label ω η) : Option (Σ c, R c) :=
  match a with
  | .work j _ => if j = i then executed exec s a else none
  | .other _ => none

/-- What the script at `i` performs along a run. -/
def performedBy : Pool σ (Script R ε α) → List (Label ω η) → List (Σ c, R c)
  | _, [] => []
  | s, a :: l =>
    match Pool.step exec disturb s a with
    | none => []
    | some t => (executedBy exec i s a).toList ++ performedBy t l

variable {exec disturb i}

theorem performedBy_cons (h : Pool.step exec disturb s a = some t) (l : List (Label ω η)) :
    performedBy exec disturb i s (a :: l) =
      (executedBy exec i s a).toList ++ performedBy exec disturb i t l := by
  rw [performedBy, h]

theorem executedBy_sublist (s : Pool σ (Script R ε α)) (a : Label ω η) :
    (executedBy exec i s a).toList.Sublist (executed exec s a).toList := by
  cases a with
  | other e => exact List.nil_sublist _
  | work j w =>
    rw [executedBy]
    split
    · exact List.Sublist.refl _
    · exact List.nil_sublist _

/-- The own part of a script comes in the order of the run. -/
theorem performedBy_sublist (s : Pool σ (Script R ε α)) (l : List (Label ω η)) :
    (performedBy exec disturb i s l).Sublist (performed exec disturb s l) := by
  induction l generalizing s with
  | nil => exact List.Sublist.refl _
  | cons a l ih =>
    rw [performedBy, performed]
    cases Pool.step exec disturb s a with
    | none => exact List.nil_sublist _
    | some t => exact (executedBy_sublist s a).append (ih t)

/-- Wherever a script has come to, it was answered on its way by its own part of what was performed. -/
theorem exists_traced {p : Script R ε α} (h : run (Pool.step exec disturb) s l = some t)
    (hp : s.scripts[i]? = some p) : ∃ q, t.scripts[i]? = some q ∧
      ∀ u r, q.Trace u r → p.Trace (performedBy exec disturb i s l ++ u) r := by
  induction l generalizing s p with
  | nil =>
    obtain rfl := Option.some.inj h
    exact ⟨p, hp, fun _ _ hu => hu⟩
  | cons a l ih =>
    rw [run_cons] at h
    obtain ⟨v, hv, hrest⟩ := Option.bind_eq_some_iff.mp h
    rw [performedBy_cons hv]
    cases a with
    | other e =>
      obtain ⟨u, -, rfl⟩ := step_other_iff.mp hv
      exact ih hrest hp
    | work j w =>
      obtain ⟨c, rest, r, u, hcall, hexecuted, rfl⟩ := step_work_iff.mp hv
      -- only a command of its own is an answer to the script
      by_cases hij : j = i
      · subst hij
        obtain rfl := Option.some.inj (hcall.symm.trans hp)
        obtain ⟨q, hq, htrace⟩ := ih hrest (List.getElem?_set_self (List.getElem?_eq_some_iff.mp hcall).1)
        rw [executedBy, if_pos rfl, executed_work hcall hexecuted, Option.toList_some]
        exact ⟨q, hq, fun u' r' hu => .call (htrace u' r' hu)⟩
      · rw [executedBy, if_neg hij]
        exact ih hrest ((List.getElem?_set_ne hij).trans hp)

/-- What a script has returned, it has returned along its own part of what was performed. -/
theorem trace_of_returned {p : Script R ε α} {x : α} (h : run (Pool.step exec disturb) s l = some t)
    (hp : s.scripts[i]? = some p) (hx : t.scripts[i]? = some (.pure x)) :
    p.Trace (performedBy exec disturb i s l) (.ok x) := by
  obtain ⟨q, hq, htrace⟩ := exists_traced h hp
  obtain rfl := Option.some.inj (hx.symm.trans hq)
  rw [← List.append_nil (performedBy exec disturb i s l)]
  exact htrace [] _ (.pure x)

/-- The own part of a script begins one of its traces. -/
theorem exists_performedBy_isPrefix (answer : (c : C) → R c) {p : Script R ε α}
    (h : run (Pool.step exec disturb) s l = some t) (hp : s.scripts[i]? = some p) :
    ∃ T r, p.Trace T r ∧ performedBy exec disturb i s l <+: T := by
  obtain ⟨q, -, htrace⟩ := exists_traced h hp
  exact ⟨_, _, htrace _ _ (trace_follow answer q), List.prefix_append _ _⟩

end OwnPart

end Pool

end LlmService
