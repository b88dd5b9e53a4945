import OsLabs.Library.Slots
import Mathlib.Data.Nat.ModEq

/-!
# Counting Semaphores and Rings

A counting semaphore is a number. `semWait` takes one away and cannot be done
at zero, `semPost` adds one. What a program proves with semaphores is that
the value and what the processes hold between their operations add up to a
constant, so the arithmetic is that of tallies.

A semaphore that starts at one is a lock. `Guards` says what it is good for:
who is inside has the resource to himself, may leave it in any state while he
is there, and has to put it in order before he leaves. The rules are one for
each way of changing who is inside, and one for everything else.

A ring keeps the last entries of a growing list in `n` slots, entry `i` in
slot `i % n`. `Kept` says which entries are still there. Writing the next
entry costs the one that was written `n` entries ago, and no other.

## Main definitions

* `semWait`, `semPost`: The two operations.
* `Guards`: A semaphore that guards a resource.
* `Kept`: The entries from some point on are in their slots.

## Theorems

* `semWait_eq_some`: What a wait that returns has done.
* `Guards.of_in`, `Guards.unique`: Nobody else is inside.
* `Guards.enter`, `Guards.work`, `Guards.leave`, `Guards.frame`: The rules.
* `mod_ne_mod_of_lt`: Entries closer than `n` have different slots.
* `kept_write`: Writing the next entry keeps the others.
* `kept_mono`: Fewer entries are still there.
-/

namespace OsLabs

section Semaphore

/-- `sem_wait`: blocked at zero. -/
def semWait (value : Nat) : Option Nat := if 0 < value then some (value - 1) else none

/-- `sem_post` -/
def semPost (value : Nat) : Nat := value + 1

theorem semWait_eq_some {value value' : Nat} :
    semWait value = some value' ↔ value = value' + 1 := by
  unfold semWait
  by_cases hpos : 0 < value
  · rw [if_pos hpos, Option.some.injEq]
    omega
  · rw [if_neg hpos]
    simp only [reduceCtorEq, false_iff]
    omega

end Semaphore

section Lock

variable {ι : Type*} {inside inside' : ι → Prop} {free free' : Prop} {held held' : ι → Prop}
  {value value' : Nat} {p q : ι}

/-- A semaphore that guards a resource. At one nobody is inside, and the
    resource is as it is left. At zero somebody is, and nobody else, and the
    resource is as he has it. -/
inductive Guards (inside : ι → Prop) (free : Prop) (held : ι → Prop) : Nat → Prop where
  | free (hout : ∀ p, ¬ inside p) (hfree : free) : Guards inside free held 1
  | held (p : ι) (hin : inside p) (hout : ∀ q, q ≠ p → ¬ inside q) (hheld : held p) :
      Guards inside free held 0

namespace Guards

theorem free_of_out (h : Guards inside free held value) (hall : ∀ p, ¬ inside p) : free := by
  cases h with
  | free _ hfree => exact hfree
  | held p hin _ _ => exact absurd hin (hall p)

theorem eq_one_of_out (h : Guards inside free held value) (hall : ∀ p, ¬ inside p) : value = 1 := by
  cases h with
  | free _ _ => rfl
  | held p hin _ _ => exact absurd hin (hall p)

theorem le_one (h : Guards inside free held value) : value ≤ 1 := by
  cases h with
  | free _ _ => exact Nat.le_refl 1
  | held _ _ _ _ => exact Nat.zero_le 1

/-- Who is inside is alone there, and has the resource. -/
theorem of_in (h : Guards inside free held value) (hp : inside p) :
    value = 0 ∧ (∀ q, q ≠ p → ¬ inside q) ∧ held p := by
  cases h with
  | free hout _ => exact absurd hp (hout p)
  | held r _ hout hheld =>
      have hpr : p = r := by
        by_contra hne
        exact hout p hne hp
      rw [hpr]
      exact ⟨rfl, hout, hheld⟩

theorem unique (h : Guards inside free held value) (hp : inside p) (hq : inside q) : p = q := by
  by_contra hne
  exact (h.of_in hp).2.1 q (Ne.symm hne) hq

/-- A wait that returns lets in the one who waited, and hands him the
    resource. -/
theorem enter (h : Guards inside free held value) (hwait : semWait value = some value')
    (hin : inside' p) (hother : ∀ q, q ≠ p → inside' q → inside q) (hheld : free → held' p) :
    Guards inside' free' held' value' := by
  rw [semWait_eq_some] at hwait
  cases h with
  | free hout hfree =>
      have hzero : value' = 0 := by omega
      rw [hzero]
      exact .held p hin (fun q hq hq' => hout q (hother q hq hq')) (hheld hfree)
  | held r _ _ _ => omega

/-- What happens inside changes the resource for him who is there. -/
theorem work (h : Guards inside free held value) (hp : inside p) (hin : inside' p)
    (hother : ∀ q, q ≠ p → inside' q → inside q) (hheld : held p → held' p) :
    Guards inside' free' held' value := by
  rcases h.of_in hp with ⟨hzero, hout, hmine⟩
  rw [hzero]
  exact .held p hin (fun q hq hq' => hout q hq (hother q hq hq')) (hheld hmine)

/-- A post hands the resource back. -/
theorem leave (h : Guards inside free held value) (hp : inside p) (hleft : ¬ inside' p)
    (hother : ∀ q, q ≠ p → inside' q → inside q) (hfree : held p → free') :
    Guards inside' free' held' (semPost value) := by
  rcases h.of_in hp with ⟨hzero, hout, hmine⟩
  rw [hzero]
  refine .free (fun q hq => ?_) (hfree hmine)
  by_cases hqp : q = p
  · rw [hqp] at hq
    exact hleft hq
  · exact hout q hqp (hother q hqp hq)

/-- What happens outside does not matter. -/
theorem frame (h : Guards inside free held value) (hinside : ∀ q, inside' q ↔ inside q)
    (hfree : free → free') (hheld : ∀ q, inside q → held q → held' q) :
    Guards inside' free' held' value := by
  cases h with
  | free hout h => exact .free (fun q hq => hout q ((hinside q).mp hq)) (hfree h)
  | held p hin hout h =>
      exact .held p ((hinside p).mpr hin) (fun q hq hq' => hout q hq ((hinside q).mp hq'))
        (hheld p hin h)

end Guards

end Lock

section Ring

variable {α : Type*}

theorem mod_ne_mod_of_lt {n i j : Nat} (hij : i < j) (hjn : j < i + n) : i % n ≠ j % n := by
  intro heq
  have hdvd : n ∣ j - i := (Nat.modEq_iff_dvd' (Nat.le_of_lt hij)).mp heq
  have hle := Nat.le_of_dvd (by omega) hdvd
  omega

/-- The entries of the list from `d` on are in their slots. -/
def Kept (n : Nat) (slots : Nat → α) (entries : List α) (d : Nat) : Prop :=
  ∀ i a, d ≤ i → entries[i]? = some a → slots (i % n) = a

theorem kept_nil (n : Nat) (slots : Nat → α) (d : Nat) : Kept n slots [] d := by
  intro i a _ hi
  exact absurd hi (by simp only [List.getElem?_nil, reduceCtorEq, not_false_eq_true])

theorem kept_mono {n d d' : Nat} {slots : Nat → α} {entries : List α} (hd : d ≤ d')
    (h : Kept n slots entries d) : Kept n slots entries d' :=
  fun i a hi hget => h i a (Nat.le_trans hd hi) hget

/-- With room for one more, writing the next entry into its slot keeps the
    others in theirs. -/
theorem kept_write {n d : Nat} {slots : Nat → α} {entries : List α} (a : α)
    (hroom : entries.length < d + n) (h : Kept n slots entries d) :
    Kept n (Function.update slots (entries.length % n) a) (entries ++ [a]) d := by
  intro i b hi hget
  have hlt : i < (entries ++ [a]).length := (List.getElem?_eq_some_iff.mp hget).1
  rw [List.length_append, List.length_singleton] at hlt
  by_cases hlast : i = entries.length
  · rw [hlast, List.getElem?_concat_length, Option.some.injEq] at hget
    rw [hlast, Function.update_self, hget]
  · have hold : i < entries.length := by omega
    rw [List.getElem?_append_left hold] at hget
    rw [Function.update_of_ne (mod_ne_mod_of_lt hold (by omega))]
    exact h i b hi hget

end Ring

end OsLabs
