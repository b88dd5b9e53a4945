import Mathlib.Data.Nat.Find
import Mathlib.Data.Part
import Mathlib.Logic.Function.Iterate

/-!
# Loops

A `while` loop is a guard and a body. It may go on for ever, so what it ends
in is a partial value: the state before the first turn in which the guard
fails, if there is one.

The states on the way are iterates of the body. Where they have a closed form,
the number of turns can be read off the guard, and everything else about the
loop follows from the closed form at that number. That is why the rules here
are about iterates and not about single turns.

## Main definitions

* `Ends`: The loop ends after a number of turns.
* `loop`: What the loop ends in.
* `visited`: The states that its turns start in.
* `Survives`: The guard of a loop whose body may fail.

## Theorems

* `ends_of_not_guard`, `Ends.of_body`: A loop turn by turn.
* `dom_loop_iff`: When there is an end.
* `loop_eq_some`, `visited_eq_some`: What it is, and what led to it.
* `loop_of_not_guard`, `loop_body`: What is left of it.
* `loop_bind_of_forall`, `loop_bind_of_exists`: Loops whose body may fail.
* `mapM_eq_some`: Computations one after another.
-/

namespace OsLabs

namespace Loop

variable {σ : Type*} {guard : σ → Prop} {body : σ → σ} {s : σ} {n : Nat}

/-- The loop, entered in `s`, ends after `n` turns. -/
structure Ends (guard : σ → Prop) (body : σ → σ) (s : σ) (n : Nat) : Prop where
  turns : ∀ m < n, guard (body^[m] s)
  stops : ¬ guard (body^[n] s)

theorem ends_of_not_guard (h : ¬ guard s) : Ends guard body s 0 :=
  ⟨fun m hm => absurd hm (Nat.not_lt_zero m), h⟩

/-- A turn, and then the loop from the state that it leads to. -/
theorem Ends.of_body (hs : guard s) (h : Ends guard body (body s) n) :
    Ends guard body s (n + 1) where
  turns m hm := by
    cases m with
    | zero => exact hs
    | succ m =>
        rw [Function.iterate_succ_apply]
        exact h.turns m (Nat.lt_of_succ_lt_succ hm)
  stops := by
    rw [Function.iterate_succ_apply]
    exact h.stops

section Partial

variable [DecidablePred guard]

/-- The state in which the guard fails for the first time. -/
def loop (guard : σ → Prop) [DecidablePred guard] (body : σ → σ) (s : σ) : Part σ where
  Dom := ∃ n, ¬ guard (body^[n] s)
  get h := body^[Nat.find h] s

theorem Ends.find_eq (h : Ends guard body s n) (hdom : ∃ n, ¬ guard (body^[n] s)) :
    Nat.find hdom = n :=
  (Nat.find_eq_iff hdom).mpr ⟨h.stops, fun m hm => not_not.mpr (h.turns m hm)⟩

theorem loop_eq_some (h : Ends guard body s n) : loop guard body s = Part.some (body^[n] s) := by
  have hdom : ∃ n, ¬ guard (body^[n] s) := ⟨n, h.stops⟩
  rw [Part.eq_some_iff]
  refine ⟨hdom, ?_⟩
  change body^[Nat.find hdom] s = body^[n] s
  rw [h.find_eq hdom]

/-- The states in which the loop enters its body, in order. -/
def visited (guard : σ → Prop) [DecidablePred guard] (body : σ → σ) (s : σ) : Part (List σ) where
  Dom := ∃ n, ¬ guard (body^[n] s)
  get h := (List.range (Nat.find h)).map fun m => body^[m] s

theorem visited_eq_some (h : Ends guard body s n) :
    visited guard body s = Part.some ((List.range n).map fun m => body^[m] s) := by
  have hdom : ∃ n, ¬ guard (body^[n] s) := ⟨n, h.stops⟩
  rw [Part.eq_some_iff]
  refine ⟨hdom, ?_⟩
  change (List.range (Nat.find hdom)).map (fun m => body^[m] s) = _
  rw [h.find_eq hdom]

theorem dom_loop_iff : (loop guard body s).Dom ↔ ∃ n, Ends guard body s n := by
  constructor
  · intro h
    exact ⟨Nat.find h, fun m hm => not_not.mp (Nat.find_min h hm), Nat.find_spec h⟩
  · rintro ⟨n, h⟩
    exact ⟨n, h.stops⟩

theorem loop_of_not_guard (h : ¬ guard s) : loop guard body s = Part.some s :=
  loop_eq_some (ends_of_not_guard h)

/-- A turn leaves the rest of the loop as it was. -/
theorem loop_body (h : guard s) : loop guard body (body s) = loop guard body s := by
  by_cases hdom : (loop guard body (body s)).Dom
  · rcases dom_loop_iff.mp hdom with ⟨n, hends⟩
    rw [loop_eq_some hends, loop_eq_some (hends.of_body h), Function.iterate_succ_apply]
  · have hdom' : ¬ (loop guard body s).Dom := by
      rintro ⟨n, hn⟩
      cases n with
      | zero => exact hn h
      | succ n => exact hdom ⟨n, by rwa [Function.iterate_succ_apply] at hn⟩
    rw [Part.eq_none_iff'.mpr hdom, Part.eq_none_iff'.mpr hdom']

/-- Computations one after another, all of which end. -/
theorem mapM_eq_some {α β : Type*} {f : α → Part β} {g : α → β} {l : List α}
    (h : ∀ a ∈ l, f a = Part.some (g a)) : l.mapM f = Part.some (l.map g) := by
  induction l with
  | nil => exact List.mapM_nil
  | cons a l ih =>
      rw [List.forall_mem_cons] at h
      rw [List.mapM_cons, h.1, ih h.2, List.map_cons]
      exact (Part.bind_some _ _).trans (Part.bind_some _ _)

end Partial

section Checked

variable {check : σ → Option σ}

/-- The guard of a loop whose body may fail. After a failure there are no more
    turns. -/
def Survives (guard : σ → Prop) : Option σ → Prop
  | none => False
  | some s => guard s

instance [DecidablePred guard] : DecidablePred (Survives guard) :=
  fun o => match o with
  | none => inferInstanceAs (Decidable False)
  | some s => inferInstanceAs (Decidable (guard s))

/-- Turns that do not fail are those of the plain body. -/
theorem iterate_bind (hcheck : ∀ m < n, check (body^[m] s) = some (body^[m + 1] s)) :
    ∀ m ≤ n, (fun o : Option σ => o.bind check)^[m] (some s) = some (body^[m] s) := by
  intro m hm
  induction m with
  | zero => rfl
  | succ m ih =>
      rw [Function.iterate_succ_apply', ih (Nat.le_of_succ_le hm), Option.bind_some,
        hcheck m hm]

variable [DecidablePred guard]

/-- A loop whose turns all succeed ends as the plain one does. -/
theorem loop_bind_of_forall (h : Ends guard body s n)
    (hcheck : ∀ m < n, check (body^[m] s) = some (body^[m + 1] s)) :
    loop (Survives guard) (fun o => o.bind check) (some s) = Part.some (some (body^[n] s)) := by
  have hiterate := iterate_bind hcheck
  have hends : Ends (Survives guard) (fun o => o.bind check) (some s) n := by
    refine ⟨fun m hm => ?_, ?_⟩
    · rw [hiterate m (Nat.le_of_lt hm)]
      exact h.turns m hm
    · rw [hiterate n (Nat.le_refl n)]
      exact h.stops
  rw [loop_eq_some hends, hiterate n (Nat.le_refl n)]

/-- A loop with a turn that fails ends in the failure. -/
theorem loop_bind_of_none (h : Ends guard body s n) {m : Nat} (hm : m < n)
    (hcheck : ∀ j < m, check (body^[j] s) = some (body^[j + 1] s))
    (hnone : check (body^[m] s) = none) :
    loop (Survives guard) (fun o => o.bind check) (some s) = Part.some none := by
  have hiterate := iterate_bind hcheck
  have hfailed : (fun o : Option σ => o.bind check)^[m + 1] (some s) = none := by
    rw [Function.iterate_succ_apply', hiterate m (Nat.le_refl m), Option.bind_some, hnone]
  have hends : Ends (Survives guard) (fun o => o.bind check) (some s) (m + 1) := by
    refine ⟨fun j hj => ?_, ?_⟩
    · rw [hiterate j (Nat.le_of_lt_succ hj)]
      exact h.turns j (Nat.lt_of_le_of_lt (Nat.le_of_lt_succ hj) hm)
    · rw [hfailed]
      exact id
  rw [loop_eq_some hends, hfailed]

/-- The same, if it is not known which turn fails first. -/
theorem loop_bind_of_exists (h : Ends guard body s n)
    (hcheck : ∀ m < n, check (body^[m] s) = none ∨ check (body^[m] s) = some (body^[m + 1] s))
    (hfails : ∃ m < n, check (body^[m] s) = none) :
    loop (Survives guard) (fun o => o.bind check) (some s) = Part.some none := by
  classical
  rcases Nat.find_spec hfails with ⟨hm, hnone⟩
  refine loop_bind_of_none h hm (fun j hj => ?_) hnone
  have hlt : j < n := Nat.lt_trans hj hm
  refine (hcheck j hlt).resolve_left fun hearlier => ?_
  exact Nat.find_min hfails hj ⟨hlt, hearlier⟩

end Checked

end Loop

end OsLabs
