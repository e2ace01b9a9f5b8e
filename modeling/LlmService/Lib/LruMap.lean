import Mathlib.Order.Lattice
import Mathlib.Data.List.Induction
import Mathlib.Data.List.Nodup
import Mathlib.Order.Basic

/-!
# Least recently used maps with expiry

A map of bounded size is the list of its items, the least recently accessed
first. Every operation drops what has expired; an access moves its item to
the end, and a new key that finds the map full drops the item at the head.
`LastSet` says of a history what the map still holds.
-/

namespace LlmService

structure LruItem (K V T : Type) where
  key : K
  value : V
  expiresAt : T

inductive LruOp (K V T : Type) where
  | get (key : K)
  | set (key : K) (value : V) (expiresAt : T)
  | delete (key : K)
  | clear

namespace LruMap

variable {K V T : Type}

/-- The keys of a map are distinct. -/
def Distinct (m : List (LruItem K V T)) : Prop := (m.map (·.key)).Nodup

theorem Distinct.sublist {m m' : List (LruItem K V T)} (h : Distinct m) (hsub : m'.Sublist m) :
    Distinct m' := List.Nodup.sublist (hsub.map _) h

/-- Items of one key are one. -/
theorem Distinct.eq {m : List (LruItem K V T)} {item item' : LruItem K V T} (h : Distinct m)
    (hmem : item ∈ m) (hmem' : item' ∈ m) (hkey : item.key = item'.key) : item = item' :=
  List.inj_on_of_nodup_map h hmem hmem' hkey

section Live

variable [LinearOrder T]

/-- The items that have not expired. -/
def live (now : T) (m : List (LruItem K V T)) : List (LruItem K V T) :=
  m.filter fun item => now ≤ item.expiresAt

@[simp] theorem mem_live {now : T} {m : List (LruItem K V T)} {item : LruItem K V T} :
    item ∈ live now m ↔ item ∈ m ∧ now ≤ item.expiresAt := by
  simp [live]

theorem live_live {now now' : T} (h : now ≤ now') (m : List (LruItem K V T)) :
    live now' (live now m) = live now' m := by
  rw [live, live, List.filter_filter]
  apply List.filter_congr
  intro item _
  rw [← Bool.decide_and]
  exact decide_eq_decide.mpr ⟨fun h' => h'.1, fun h' => ⟨h', h.trans h'⟩⟩

theorem distinct_live {now : T} {m : List (LruItem K V T)} (h : Distinct m) :
    Distinct (live now m) := h.sublist List.filter_sublist

end Live

variable [DecidableEq K]

def without (key : K) (m : List (LruItem K V T)) : List (LruItem K V T) :=
  m.filter fun item => item.key ≠ key

section Append

variable {key : K} {m m' : List (LruItem K V T)} {item : LruItem K V T}

@[simp] theorem mem_without : item ∈ without key m ↔ item ∈ m ∧ item.key ≠ key := by
  simp [without]

/-- An item at the end, behind all others but those of its key. -/
theorem Distinct.append (h : Distinct m) (hsub : m'.Sublist m)
    (hkey : item.key = key) : Distinct (without key m' ++ [item]) := by
  have hwithout : Distinct (without key m') := h.sublist (List.filter_sublist.trans hsub)
  rw [Distinct, List.map_append, List.nodup_append]
  refine ⟨hwithout, List.nodup_singleton _, ?_⟩
  intro a ha b hb heq
  obtain ⟨other, hother, rfl⟩ := List.mem_map.mp ha
  rw [List.map_singleton, List.mem_singleton, hkey] at hb
  exact (mem_without.mp hother).2 (heq.trans hb)

/-- Of two items the later one was accessed later. -/
def InOrder (keys : List K) (m : List (LruItem K V T)) : Prop :=
  m.Pairwise fun item item' => keys.idxOf item'.key < keys.idxOf item.key

theorem InOrder.sublist {keys : List K} (h : InOrder keys m)
    (hsub : m'.Sublist m) : InOrder keys m' := List.Pairwise.sublist hsub h

/-- The access of a key brings its item to the end. -/
theorem InOrder.append {keys : List K} (h : InOrder keys m)
    (hsub : m'.Sublist m) (hkey : item.key = key) :
    InOrder (key :: keys) (without key m' ++ [item]) := by
  have hne : ∀ other ∈ without key m', key ≠ other.key :=
    fun other hother heq => (mem_without.mp hother).2 heq.symm
  rw [InOrder, List.pairwise_append]
  refine ⟨?_, List.pairwise_singleton _ _, ?_⟩
  · refine ((h.sublist (List.filter_sublist.trans hsub)).imp_of_mem ?_ : InOrder _ (without key m'))
    intro a b ha hb hlt
    rw [List.idxOf_cons_ne _ (hne a ha), List.idxOf_cons_ne _ (hne b hb)]
    omega
  · intro a ha b hb
    rw [List.mem_singleton.mp hb, hkey, List.idxOf_cons_self, List.idxOf_cons_ne _ (hne a ha)]
    omega

end Append

variable [LinearOrder T]

/-- What a key finds room in: the live items, without the first if it is new
and they are as many as may be. -/
def room (max : Nat) (now : T) (key : K) (m : List (LruItem K V T)) : List (LruItem K V T) :=
  if key ∈ (live now m).map (·.key) ∨ (live now m).length < max then live now m
  else (live now m).tail

def step (max : Nat) (m : List (LruItem K V T)) (now : T) : LruOp K V T → List (LruItem K V T)
  | .get key =>
    match (live now m).find? (·.key = key) with
    | none => live now m
    | some item => without key (live now m) ++ [item]
  | .set key value expiresAt => without key (room max now key m) ++ [⟨key, value, expiresAt⟩]
  | .delete key => without key (live now m)
  | .clear => []

/-- The key of the item that an operation evicts. -/
def evicted (max : Nat) (m : List (LruItem K V T)) (now : T) : LruOp K V T → Option K
  | .set key _ _ =>
    if key ∈ (live now m).map (·.key) ∨ (live now m).length < max then none
    else (live now m).head?.map (·.key)
  | _ => none

/-- The key that an operation accesses. -/
def accessed (m : List (LruItem K V T)) (now : T) : LruOp K V T → Option K
  | .get key => if key ∈ (live now m).map (·.key) then some key else none
  | .set key _ _ => some key
  | _ => none

def run (max : Nat) (ops : List (T × LruOp K V T)) : List (LruItem K V T) :=
  ops.foldl (fun m op => step max m op.1 op.2) []

/-- The keys accessed along a history, the latest first. -/
def accesses (max : Nat) (ops : List (T × LruOp K V T)) : List K :=
  (ops.foldl (fun x op => (step max x.1 op.1 op.2, (accessed x.1 op.1 op.2).toList ++ x.2))
    (([], []) : List (LruItem K V T) × List K)).2

/-- The operation ends what the key holds. -/
def Ends (key : K) : LruOp K V T → Prop
  | .get _ => False
  | .set key' _ _ => key' = key
  | .delete key' => key' = key
  | .clear => True

/-- The value was the last one set for the key, which has not been deleted,
cleared or evicted since. -/
def LastSet (max : Nat) (ops : List (T × LruOp K V T)) (key : K) (value : V) (expiresAt : T) :
    Prop :=
  ∃ before t after, ops = before ++ (t, .set key value expiresAt) :: after ∧
    (∀ op ∈ after, ¬ Ends key op.2) ∧
    ∀ a op b, after = a ++ op :: b →
      evicted max (run max (before ++ (t, .set key value expiresAt) :: a)) op.1 op.2 ≠ some key

variable {max : Nat} {m : List (LruItem K V T)} {now t : T} {key : K} {item : LruItem K V T}
  {op : LruOp K V T} {ops : List (T × LruOp K V T)}

theorem run_snoc (max : Nat) (ops : List (T × LruOp K V T)) (op : T × LruOp K V T) :
    run max (ops ++ [op]) = step max (run max ops) op.1 op.2 := by
  rw [run, List.foldl_append]
  rfl

/-! ## Distinct keys -/

theorem room_sublist : (room max now key m).Sublist (live now m) := by
  rw [room]
  split
  · exact List.Sublist.refl _
  · exact List.tail_sublist _

theorem distinct_step (h : Distinct m) : Distinct (step max m now op) := by
  cases op with
  | get key =>
    rw [step]
    cases hfind : (live now m).find? (·.key = key) with
    | none => exact distinct_live h
    | some item =>
      have hkey := List.find?_some hfind
      exact (distinct_live h).append (List.Sublist.refl _) (of_decide_eq_true hkey)
  | set key value expiresAt => exact (distinct_live h).append room_sublist rfl
  | delete key => exact (distinct_live h).sublist List.filter_sublist
  | clear => exact List.nodup_nil

theorem distinct_run (max : Nat) (ops : List (T × LruOp K V T)) : Distinct (run max ops) := by
  induction ops using List.reverseRecOn with
  | nil => exact List.nodup_nil
  | append_singleton ops op ih =>
    rw [run_snoc]
    exact distinct_step ih

/-! ## What is kept -/

theorem mem_room_iff (h : Distinct m) : item ∈ room max now key m ↔
    item ∈ live now m ∧ (if key ∈ (live now m).map (·.key) ∨ (live now m).length < max then none
      else (live now m).head?.map (·.key)) ≠ some item.key := by
  rw [room]
  split
  · simp
  · have hlive : Distinct (live now m) := distinct_live h
    cases hm : live now m with
    | nil => simp
    | cons first rest =>
      rw [hm, Distinct, List.map_cons, List.nodup_cons] at hlive
      rw [List.tail_cons, List.mem_cons, List.head?_cons, Option.map_some]
      constructor
      · intro hmem
        refine ⟨.inr hmem, fun heq => hlive.1 ?_⟩
        rw [Option.some.inj heq]
        exact List.mem_map_of_mem hmem
      · rintro ⟨rfl | hmem, hne⟩
        · exact absurd rfl hne
        · exact hmem

/-- After an operation there is what was set, and what was there and neither
ended nor evicted. -/
theorem mem_step_iff (h : Distinct m) : item ∈ step max m now op ↔
    op = .set item.key item.value item.expiresAt ∨
      (item ∈ m ∧ now ≤ item.expiresAt ∧ ¬ Ends item.key op ∧
        evicted max m now op ≠ some item.key) := by
  cases op with
  | get key =>
    have hlive : Distinct (live now m) := distinct_live h
    have hiff : item ∈ step max m now (.get key) ↔ item ∈ live now m := by
      rw [step]
      cases hfind : (live now m).find? (·.key = key) with
      | none => exact Iff.rfl
      | some found =>
        have hmem := List.mem_of_find?_eq_some hfind
        have hkey : found.key = key := by simpa using List.find?_some hfind
        rw [List.mem_append, mem_without, List.mem_singleton]
        constructor
        · rintro (⟨hitem, -⟩ | rfl)
          · exact hitem
          · exact hmem
        · intro hitem
          by_cases heq : item.key = key
          · exact .inr (hlive.eq hitem hmem (heq.trans hkey.symm))
          · exact .inl ⟨hitem, heq⟩
    rw [hiff, mem_live]
    simp [Ends, evicted]
  | set key value expiresAt =>
    rw [step, List.mem_append, mem_without, List.mem_singleton, mem_room_iff h, mem_live]
    obtain ⟨k, v, e⟩ := item
    constructor
    · rintro (⟨⟨⟨hmem, hnow⟩, hkept⟩, hne⟩ | heq)
      · exact .inr ⟨hmem, hnow, fun heq => hne heq.symm, hkept⟩
      · cases heq
        exact .inl rfl
    · rintro (heq | ⟨hmem, hnow, hne, hkept⟩)
      · cases heq
        exact .inr rfl
      · exact .inl ⟨⟨⟨hmem, hnow⟩, hkept⟩, fun heq => hne heq.symm⟩
  | delete key =>
    rw [step, mem_without, mem_live]
    simp [Ends, evicted, eq_comm, and_assoc]
  | clear => simp [step, Ends]

/-- A map holds what was set last, as long as its time is not over. -/
theorem mem_run_iff (hnow : ∀ op ∈ ops, op.1 ≤ now) {value : V} {expiresAt : T}
    (hexpires : now ≤ expiresAt) :
    ⟨key, value, expiresAt⟩ ∈ run max ops ↔ LastSet max ops key value expiresAt := by
  induction ops using List.reverseRecOn with
  | nil => simp [run, LastSet]
  | append_singleton ops op ih =>
    obtain ⟨hops, hop⟩ := List.forall_mem_append.mp hnow
    have hlate : op.1 ≤ expiresAt := (hop op (List.mem_singleton_self op)).trans hexpires
    rw [run_snoc, mem_step_iff (distinct_run max ops), ih hops]
    constructor
    · rintro (hset | ⟨⟨before, t, after, rfl, hends, hkept⟩, -, hend, hevicted⟩)
      · refine ⟨ops, op.1, [], ?_, List.forall_mem_nil _, ?_⟩
        · rw [← hset]
        · intro a x b hsplit
          simp at hsplit
      · refine ⟨before, t, after ++ [op], by simp, ?_, ?_⟩
        · rw [List.forall_mem_append]
          exact ⟨hends, fun x hx => by rwa [List.mem_singleton.mp hx]⟩
        · intro a x b hsplit
          rcases List.eq_nil_or_concat b with rfl | ⟨b, last, rfl⟩
          · obtain ⟨rfl, hx⟩ := List.append_inj' hsplit rfl
            obtain rfl := List.singleton_inj.mp hx
            exact hevicted
          · apply hkept a x b
            have hcons : after ++ [op] = (a ++ x :: b) ++ [last] := by simpa using hsplit
            exact (List.append_inj' hcons rfl).1
    · rintro ⟨before, t, after, hsplit, hends, hkept⟩
      rcases List.eq_nil_or_concat after with rfl | ⟨after, last, rfl⟩
      · obtain ⟨rfl, hx⟩ := List.append_inj' hsplit rfl
        obtain rfl := List.singleton_inj.mp hx
        exact .inl rfl
      · have hcons : ops ++ [op] = (before ++ (t, .set key value expiresAt) :: after) ++ [last] := by
          simpa using hsplit
        obtain ⟨rfl, hx⟩ := List.append_inj' hcons rfl
        obtain rfl := List.singleton_inj.mp hx
        refine .inr ⟨⟨before, t, after, rfl, ?_, ?_⟩, hlate, ?_, ?_⟩
        · exact fun x hx => hends x (by simp [hx])
        · intro a x b heq
          exact hkept a x (b ++ [op]) (by simp [heq])
        · exact hends op (by simp)
        · exact hkept after op [] (by simp)

/-! ## The order of the items -/

theorem accesses_snoc (max : Nat) (ops : List (T × LruOp K V T)) (op : T × LruOp K V T) :
    accesses max (ops ++ [op]) =
      (accessed (run max ops) op.1 op.2).toList ++ accesses max ops := by
  have hrun : ∀ (ops : List (T × LruOp K V T)) (x : List (LruItem K V T) × List K),
      (ops.foldl (fun x op =>
        (step max x.1 op.1 op.2, (accessed x.1 op.1 op.2).toList ++ x.2)) x).1 =
        ops.foldl (fun m op => step max m op.1 op.2) x.1 := by
    intro ops
    induction ops with
    | nil => exact fun _ => rfl
    | cons op ops ih => exact fun x => ih _
  rw [accesses, List.foldl_append, List.foldl_cons, List.foldl_nil, hrun]
  rfl

theorem inOrder_run (max : Nat) (ops : List (T × LruOp K V T)) :
    InOrder (accesses max ops) (run max ops) := by
  induction ops using List.reverseRecOn with
  | nil => exact List.Pairwise.nil
  | append_singleton ops op ih =>
    rw [run_snoc, accesses_snoc]
    have hlive : InOrder (accesses max ops) (live op.1 (run max ops)) :=
      ih.sublist List.filter_sublist
    cases hop : op.2 with
    | get key =>
      rw [step, accessed]
      cases hfind : (live op.1 (run max ops)).find? (·.key = key) with
      | none =>
        have hnot : key ∉ (live op.1 (run max ops)).map (·.key) := by
          intro hmem
          obtain ⟨item, hitem, hkey⟩ := List.mem_map.mp hmem
          exact List.find?_eq_none.mp hfind item hitem (decide_eq_true hkey)
        rw [if_neg hnot]
        exact hlive
      | some item =>
        have hkey : item.key = key := by simpa using List.find?_some hfind
        have hmem : key ∈ (live op.1 (run max ops)).map (·.key) :=
          List.mem_map.mpr ⟨item, List.mem_of_find?_eq_some hfind, hkey⟩
        rw [if_pos hmem]
        exact hlive.append (List.Sublist.refl _) hkey
    | set key value expiresAt => exact hlive.append room_sublist rfl
    | delete key => exact hlive.sublist List.filter_sublist
    | clear => exact List.Pairwise.nil

end LruMap

end LlmService
