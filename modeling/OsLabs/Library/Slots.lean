import Mathlib.Algebra.BigOperators.Fin
import Mathlib.Algebra.Order.BigOperators.Group.Finset
import Mathlib.Data.Finset.Card
import Mathlib.Data.Fintype.Card
import Mathlib.Data.Fin.Tuple.Basic
import Mathlib.Data.List.FinRange
import Mathlib.Logic.Function.Basic

/-!
# Tallies and Slot Tables

Two finite structures that shared state is made of.

A family `f : ι → α` holds one value per thread or per slot, and a program
changes it one entry at a time. `tally` counts the entries that satisfy a
test, and the three update lemmas say how the count moves: it stays when the
test agrees on the old and the new entry, and moves by one when it does not.

A slot table is a family of optional values. Filling an empty slot and
emptying a full one are the only two changes, and what is asked of a table is
that some key of its entries names at most one slot. `distinct_put_iff` is
the reason this can be settled exactly: filling a slot keeps the keys
distinct precisely when the new key is fresh, so a check made before filling
is right exactly when it tests for freshness.

A roster is a table with a counter that the program keeps by hand. Entering
and evicting keep the counter right as long as an eviction looks whether
there is anything to evict, which is what makes it safe to repeat.

`scan` is the linear search of a C loop over such a table: the first index
that passes, in index order.

## Main definitions

* `tally`: The number of entries that satisfy a test.
* `put`: A table with one slot filled.
* `clear`: A table with one slot emptied.
* `occupied`: The number of full slots.
* `load`: What the entries of a table weigh together.
* `Distinct`: No two full slots share a key.
* `Roster`, `evict`, `enter`: A table with its counter and the two changes.
* `Counted`: The counter counts the full slots.
* `scan`: The first index that passes a test.

## Theorems

* `tally_update_same`: An entry that keeps its answer keeps the tally.
* `tally_update_gain`: An entry that starts to count adds one.
* `tally_update_loss`: An entry that stops counting removes one.
* `tally_move`, `sum_move`, `sum_of_ne`: An entry that changes moves the tally,
  or a sum, by the difference.
* `tally_lt`, `tally_mono`: Tests that ask for less count more.
* `tally_congr`: Families that agree under the test have one tally.
* `tally_pos`, `tally_eq_zero`: A tally is positive exactly when some entry
  counts.
* `occupied_put`, `occupied_clear`: The two changes move the count by one.
* `load_put`, `load_mono`: A filled slot adds its weight; emptying adds none.
* `load_le`: Few light entries weigh little.
* `distinct_put_iff`: Filling keeps keys distinct exactly for a fresh key.
* `distinct_clear`, `distinct_of_subset`: Emptying keeps keys distinct.
* `counted_evict`, `counted_enter`: The changes keep the counter right.
* `slots_evictions`: Evictions only empty slots.
* `scan_some`, `scan_none`: What a search that stops, or does not, has seen.
* `filterMap_finRange_single`: A loop that does something for one index only.
-/

namespace OsLabs

section Tally

variable {ι α : Type*} [Fintype ι]

/-- How many entries of the family satisfy the test. -/
def tally (p : α → Bool) (f : ι → α) : Nat :=
  (Finset.univ.filter fun i => p (f i) = true).card

theorem tally_le_card (p : α → Bool) (f : ι → α) : tally p f ≤ Fintype.card ι :=
  Finset.card_le_univ _

theorem tally_congr {β : Type*} {p : α → Bool} {q : β → Bool} {f : ι → α} {g : ι → β}
    (h : ∀ i, p (f i) = q (g i)) :
    tally p f = tally q g := by
  simp only [tally, h]

theorem tally_const_false {p : α → Bool} {f : ι → α} (h : ∀ i, p (f i) = false) :
    tally p f = 0 := by
  simp only [tally, h, Bool.false_eq_true, Finset.filter_false, Finset.card_empty]

theorem tally_const_true {p : α → Bool} {f : ι → α} (h : ∀ i, p (f i) = true) :
    tally p f = Fintype.card ι := by
  simp only [tally, h, Finset.filter_true, Finset.card_univ]

theorem tally_pos {p : α → Bool} {f : ι → α} : 0 < tally p f ↔ ∃ i, p (f i) = true := by
  simp only [tally, Finset.card_pos, Finset.Nonempty, Finset.mem_filter, Finset.mem_univ, true_and]

theorem tally_mono {p q : α → Bool} {f : ι → α} (h : ∀ a, p a = true → q a = true) :
    tally p f ≤ tally q f := by
  refine Finset.card_le_card (fun i hi => ?_)
  simp only [Finset.mem_filter, Finset.mem_univ, true_and] at hi ⊢
  exact h (f i) hi

variable [DecidableEq ι]

theorem tally_update_same {p : α → Bool} {f : ι → α} {i : ι} {x : α} (h : p x = p (f i)) :
    tally p (Function.update f i x) = tally p f := by
  refine tally_congr (fun j => ?_)
  by_cases hji : j = i
  · rw [hji, Function.update_self, h]
  · rw [Function.update_of_ne hji]

theorem tally_update_gain {p : α → Bool} {f : ι → α} {i : ι} {x : α}
    (hx : p x = true) (hi : p (f i) = false) :
    tally p (Function.update f i x) = tally p f + 1 := by
  have hset : (Finset.univ.filter fun j => p (Function.update f i x j) = true)
      = insert i (Finset.univ.filter fun j => p (f j) = true) := by
    ext j
    simp only [Finset.mem_filter, Finset.mem_univ, true_and, Finset.mem_insert]
    by_cases hji : j = i
    · simp only [hji, Function.update_self, hx, true_or]
    · simp only [Function.update_of_ne hji, hji, false_or]
  rw [tally, hset, Finset.card_insert_of_notMem, tally]
  simp only [Finset.mem_filter, Finset.mem_univ, true_and, hi, Bool.false_eq_true,
    not_false_eq_true]

theorem tally_update_loss {p : α → Bool} {f : ι → α} {i : ι} {x : α}
    (hx : p x = false) (hi : p (f i) = true) :
    tally p (Function.update f i x) + 1 = tally p f := by
  -- Putting the old entry back is a gain.
  have hback := tally_update_gain (p := p) (f := Function.update f i x) (i := i) (x := f i) hi
    (by rw [Function.update_self, hx])
  rw [Function.update_idem, Function.update_eq_self] at hback
  exact hback.symm

/-- An entry that changes moves the tally by the difference of its answers. -/
theorem tally_move (p : α → Bool) (f : ι → α) (i : ι) (x : α) :
    tally p (Function.update f i x) + (p (f i)).toNat = tally p f + (p x).toNat := by
  cases hx : p x with
  | false =>
      cases hi : p (f i) with
      | false => rw [tally_update_same (by rw [hx, hi])]
      | true =>
          rw [Bool.toNat_true, Bool.toNat_false, Nat.add_zero]
          exact tally_update_loss hx hi
  | true =>
      cases hi : p (f i) with
      | false =>
          rw [Bool.toNat_true, Bool.toNat_false, Nat.add_zero]
          exact tally_update_gain hx hi
      | true => rw [tally_update_same (by rw [hx, hi])]

/-- An entry that changes moves a sum over the entries by the difference. -/
theorem sum_move (weight : α → Nat) (f : ι → α) (i : ι) (x : α) :
    (∑ j, weight (Function.update f i x j)) + weight (f i) = (∑ j, weight (f j)) + weight x := by
  have hupdate : (fun j => weight (Function.update f i x j))
      = Function.update (fun j => weight (f j)) i (weight x) := by
    funext j
    by_cases hj : j = i
    · rw [hj, Function.update_self, Function.update_self]
    · rw [Function.update_of_ne hj, Function.update_of_ne hj]
  have hrest := Finset.add_sum_erase Finset.univ (fun j => weight (f j)) (Finset.mem_univ i)
  rw [hupdate, Finset.sum_update_of_mem (Finset.mem_univ i), Finset.sdiff_singleton_eq_erase,
    ← hrest]
  omega

/-- Sums that differ in one term differ by it. -/
theorem sum_of_ne {f g : ι → Nat} {i : ι} (h : ∀ j, j ≠ i → g j = f j) :
    (∑ j, g j) + f i = (∑ j, f j) + g i := by
  have hupdate : g = Function.update f i (g i) := by
    funext j
    by_cases hj : j = i
    · rw [hj, Function.update_self]
    · rw [Function.update_of_ne hj, h j hj]
  have hmove := sum_move (fun n => n) f i (g i)
  rw [← hupdate] at hmove
  exact hmove

omit [DecidableEq ι] in
/-- A test that asks for less counts strictly more, if some entry shows it. -/
theorem tally_lt {p q : α → Bool} {f : ι → α} (h : ∀ a, p a = true → q a = true) {i : ι}
    (hq : q (f i) = true) (hp : p (f i) = false) : tally p f < tally q f := by
  refine Finset.card_lt_card (Finset.ssubset_iff_of_subset ?_ |>.mpr ⟨i, ?_, ?_⟩)
  · intro j hj
    simp only [Finset.mem_filter, Finset.mem_univ, true_and] at hj ⊢
    exact h _ hj
  · simp only [Finset.mem_filter, Finset.mem_univ, true_and, hq]
  · simp only [Finset.mem_filter, Finset.mem_univ, true_and, hp, Bool.false_eq_true,
      not_false_eq_true]

omit [DecidableEq ι] in
theorem tally_eq_zero {p : α → Bool} {f : ι → α} : tally p f = 0 ↔ ∀ i, p (f i) = false := by
  rw [← Nat.le_zero, ← Nat.not_lt, tally_pos]
  simp only [not_exists, Bool.not_eq_true]

end Tally

section Slots

variable {ι α κ : Type*} [DecidableEq ι]

/-- Fill one slot. -/
def put (t : ι → Option α) (i : ι) (a : α) : ι → Option α := Function.update t i (some a)

/-- Empty one slot. -/
def clear (t : ι → Option α) (i : ι) : ι → Option α := Function.update t i none

theorem put_self (t : ι → Option α) (i : ι) (a : α) : put t i a i = some a :=
  Function.update_self ..

theorem put_of_ne (t : ι → Option α) {i j : ι} (a : α) (h : j ≠ i) : put t i a j = t j :=
  Function.update_of_ne h ..

theorem clear_self (t : ι → Option α) (i : ι) : clear t i i = none := Function.update_self ..

theorem clear_of_ne (t : ι → Option α) {i j : ι} (h : j ≠ i) : clear t i j = t j :=
  Function.update_of_ne h ..

theorem put_eq_some {t : ι → Option α} {i j : ι} {a b : α} :
    put t i a j = some b ↔ (j = i ∧ b = a) ∨ (j ≠ i ∧ t j = some b) := by
  by_cases hji : j = i
  · subst hji
    simp only [put_self, Option.some.injEq, true_and, ne_eq, not_true_eq_false, false_and, or_false]
    exact eq_comm
  · simp only [put_of_ne t a hji, hji, false_and, ne_eq, not_false_eq_true, true_and, false_or]

theorem clear_eq_some {t : ι → Option α} {i j : ι} {b : α} :
    clear t i j = some b ↔ j ≠ i ∧ t j = some b := by
  by_cases hji : j = i
  · subst hji
    simp only [clear_self, reduceCtorEq, ne_eq, not_true_eq_false, false_and]
  · simp only [clear_of_ne t hji, ne_eq, hji, not_false_eq_true, true_and]

/-- The number of full slots. -/
def occupied [Fintype ι] (t : ι → Option α) : Nat := tally Option.isSome t

omit [DecidableEq ι] in
theorem occupied_empty [Fintype ι] : occupied (fun _ : ι => (none : Option α)) = 0 :=
  tally_const_false (fun _ => rfl)

theorem occupied_put [Fintype ι] {t : ι → Option α} {i : ι} (a : α) (h : t i = none) :
    occupied (put t i a) = occupied t + 1 :=
  tally_update_gain rfl (by rw [h]; rfl)

theorem occupied_clear [Fintype ι] {t : ι → Option α} {i : ι} {a : α} (h : t i = some a) :
    occupied (clear t i) + 1 = occupied t :=
  tally_update_loss rfl (by rw [h]; rfl)

/-- What the entries of a table weigh together. -/
def load [Fintype ι] (weight : α → Nat) (t : ι → Option α) : Nat :=
  ∑ i, (t i).elim 0 weight

omit [DecidableEq ι] in
theorem load_empty [Fintype ι] (weight : α → Nat) : load weight (fun _ : ι => none) = 0 :=
  Finset.sum_const_zero

/-- A filled slot adds the weight of its entry. -/
theorem load_put [Fintype ι] (weight : α → Nat) {t : ι → Option α} {i : ι} (a : α)
    (h : t i = none) : load weight (put t i a) = load weight t + weight a := by
  have hmove := sum_move (fun o : Option α => o.elim 0 weight) t i (some a)
  rw [h] at hmove
  exact hmove

omit [DecidableEq ι] in
/-- Emptying slots takes weight away, if anything. -/
theorem load_mono [Fintype ι] (weight : α → Nat) {t t' : ι → Option α}
    (h : ∀ i a, t' i = some a → t i = some a) : load weight t' ≤ load weight t := by
  refine Finset.sum_le_sum fun i _ => ?_
  cases hi : t' i with
  | none => exact Nat.zero_le _
  | some a => rw [h i a hi]

omit [DecidableEq ι] in
/-- Entries of bounded weight. -/
theorem load_le [Fintype ι] {weight : α → Nat} {t : ι → Option α} {m : Nat}
    (h : ∀ i a, t i = some a → weight a ≤ m) : load weight t ≤ occupied t * m := by
  have hsum : load weight t = ∑ i with (t i).isSome = true, (t i).elim 0 weight := by
    refine (Finset.sum_filter_of_ne fun i _ hne => ?_).symm
    cases hi : t i with
    | none => exact absurd (by rw [hi]; rfl) hne
    | some a => exact Option.isSome_some
  rw [hsum]
  refine Finset.sum_le_card_nsmul _ _ m fun i hi => ?_
  rcases Option.isSome_iff_exists.mp (Finset.mem_filter.mp hi).2 with ⟨a, ha⟩
  rw [ha]
  exact h i a ha

/-- No two full slots share a key. -/
def Distinct (key : α → κ) (t : ι → Option α) : Prop :=
  ∀ i j a b, t i = some a → t j = some b → key a = key b → i = j

omit [DecidableEq ι] in
theorem distinct_empty (key : α → κ) : Distinct key (fun _ : ι => none) := by
  intro i j a b hi
  exact absurd hi (by simp only [reduceCtorEq, not_false_eq_true])

omit [DecidableEq ι] in
theorem distinct_of_subset {key : α → κ} {t t' : ι → Option α}
    (hsub : ∀ i a, t' i = some a → t i = some a) (h : Distinct key t) : Distinct key t' := by
  intro i j a b hi hj hab
  exact h i j a b (hsub i a hi) (hsub j b hj) hab

theorem distinct_clear {key : α → κ} {t : ι → Option α} (i : ι) (h : Distinct key t) :
    Distinct key (clear t i) :=
  distinct_of_subset (fun _ _ hj => (clear_eq_some.mp hj).2) h

/-- Filling an empty slot keeps the keys distinct exactly when no full slot
    has the new key already. -/
theorem distinct_put_iff {key : α → κ} {t : ι → Option α} {i : ι} {a : α}
    (hi : t i = none) (h : Distinct key t) :
    Distinct key (put t i a) ↔ ∀ j b, t j = some b → key b ≠ key a := by
  constructor
  · intro hput j b hj hkey
    have hji : j ≠ i := by
      rintro rfl
      rw [hi] at hj
      exact absurd hj (by simp only [reduceCtorEq, not_false_eq_true])
    exact hji (hput j i b a (put_eq_some.mpr (Or.inr ⟨hji, hj⟩)) (put_self t i a) hkey)
  · intro hfresh j k b c hj hk hbc
    rcases put_eq_some.mp hj with ⟨rfl, rfl⟩ | ⟨_, hj'⟩
    · rcases put_eq_some.mp hk with ⟨rfl, _⟩ | ⟨_, hk'⟩
      · rfl
      · exact absurd hbc.symm (hfresh k c hk')
    · rcases put_eq_some.mp hk with ⟨rfl, rfl⟩ | ⟨_, hk'⟩
      · exact absurd hbc (hfresh j b hj')
      · exact h j k b c hj' hk' hbc

end Slots

section Roster

variable {ι α κ : Type*} [DecidableEq ι]

/-- A family of slots and a counter that a program keeps for it. -/
@[ext]
structure Roster (ι α : Type*) where
  slots : ι → Option α
  count : Int

namespace Roster

/-- Empty a slot, if there is something in it. -/
def evict (r : Roster ι α) (i : ι) : Roster ι α :=
  match r.slots i with
  | none => r
  | some _ => ⟨OsLabs.clear r.slots i, r.count - 1⟩

/-- Fill a slot. -/
def enter (r : Roster ι α) (i : ι) (a : α) : Roster ι α := ⟨put r.slots i a, r.count + 1⟩

theorem evict_of_none {r : Roster ι α} {i : ι} (h : r.slots i = none) : r.evict i = r := by
  simp only [evict, h]

theorem evict_of_some {r : Roster ι α} {i : ι} {a : α} (h : r.slots i = some a) :
    r.evict i = ⟨OsLabs.clear r.slots i, r.count - 1⟩ := by
  simp only [evict, h]

theorem slots_evict {r : Roster ι α} {i j : ι} {a : α} (h : (r.evict i).slots j = some a) :
    r.slots j = some a := by
  cases hi : r.slots i with
  | none => rwa [evict_of_none hi] at h
  | some _ =>
      rw [evict_of_some hi] at h
      exact (clear_eq_some.mp h).2

theorem slots_evict_self (r : Roster ι α) (i : ι) : (r.evict i).slots i = none := by
  cases hi : r.slots i with
  | none => rwa [evict_of_none hi]
  | some _ =>
      rw [evict_of_some hi]
      exact clear_self ..

/-- Evictions only empty slots. -/
theorem slots_evictions {r : Roster ι α} {is : List ι} {j : ι} {a : α}
    (h : (is.foldl evict r).slots j = some a) : r.slots j = some a := by
  induction is generalizing r with
  | nil => exact h
  | cons i is ih => exact slots_evict (ih h)

variable [Fintype ι]

/-- The counter counts the full slots. -/
def Counted (r : Roster ι α) : Prop := r.count = occupied r.slots

theorem counted_evict {r : Roster ι α} (i : ι) (h : r.Counted) : (r.evict i).Counted := by
  cases hi : r.slots i with
  | none => rwa [evict_of_none hi]
  | some a =>
      have hocc := occupied_clear hi
      rw [evict_of_some hi]
      unfold Counted at h ⊢
      simp only [h]
      omega

theorem counted_evictions {r : Roster ι α} (is : List ι) (h : r.Counted) :
    (is.foldl evict r).Counted :=
  List.foldlRecOn (motive := Counted) _ _ h (fun _ hs i _ => counted_evict i hs)

theorem counted_enter {r : Roster ι α} {i : ι} (a : α) (hi : r.slots i = none)
    (h : r.Counted) : (r.enter i a).Counted := by
  have hocc := occupied_put a hi
  unfold Counted at h ⊢
  simp only [enter, h, hocc]
  omega

end Roster

end Roster

section Scan

variable {n : Nat}

/-- The first index that passes the test, in index order. -/
def scan (p : Fin n → Bool) : Option (Fin n) := (List.finRange n).find? p

theorem scan_some {p : Fin n → Bool} {i : Fin n} (h : scan p = some i) : p i = true :=
  List.find?_some h

theorem scan_none {p : Fin n → Bool} : scan p = none ↔ ∀ i, p i = false := by
  simp only [scan, List.find?_eq_none, List.mem_finRange, forall_const, Bool.not_eq_true]

/-- A loop that does something for one index only does that. -/
theorem filterMap_finRange_single {α : Type*} {f : Fin n → Option α} {i : Fin n}
    (h : ∀ j, j ≠ i → f j = none) : (List.finRange n).filterMap f = (f i).toList := by
  rcases List.append_of_mem (List.mem_finRange i) with ⟨front, back, hsplit⟩
  have hnodup := List.nodup_finRange n
  rw [hsplit, List.nodup_append] at hnodup
  rcases hnodup with ⟨_, hback, hdisjoint⟩
  have hfront : front.filterMap f = [] := by
    rw [List.filterMap_eq_nil_iff]
    exact fun j hj => h j (hdisjoint j hj i List.mem_cons_self)
  have hrest : back.filterMap f = [] := by
    rw [List.filterMap_eq_nil_iff]
    exact fun j hj => h j fun heq => (List.nodup_cons.mp hback).1 (heq ▸ hj)
  rw [hsplit, List.filterMap_append, hfront, List.nil_append, List.filterMap_cons]
  cases f i with
  | none => exact hrest
  | some a => exact congrArg (a :: ·) hrest

end Scan

end OsLabs
