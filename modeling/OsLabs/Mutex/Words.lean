import OsLabs.Library.CString
import OsLabs.Library.ForkJoin
import OsLabs.Library.Semaphore

/-!
# Threads that Recite a Dictionary

`Funkcje/Mutex/zad1.c`. Each thread prints the word that is next, and moves on
in the dictionary, from the last word to the first. The position is shared, and
all that is done with it is done under a mutex.

A step of a thread is one access to what is shared. Reading the position and
writing it back are two, and so is the test behind the last word, so without
the mutex words could be printed twice, and a position behind the last word
could be used. With the mutex none of this happens: what is printed is always
the dictionary from its beginning, over and over, as far as threads have come.

The main thread starts the threads and joins them in order, and prints a
newline when all have ended. The number of threads is a parameter; the program
has 20. Left out are that newline, the blanks between the words, and the second
that a thread sleeps.

## Main definitions

* `slownik`: The dictionary.
* `Place`, `funWatka`: A thread.
* `recital`: The first words of the dictionary, over and over.
* `Held`, `Inv`: What the mutex guards.
* `Recited`, `Recites`: The program is through, and gets there.

## Theorems

* `inv_work`: The invariant.
* `progress_of_inv`: A thread can always go on.
* `recites`: The program ends, and has printed a word for each thread, in order.
-/

namespace OsLabs

namespace Words

open Machine ForkJoin

/-- `L_SLOW` -/
def lSlow : Nat := 8

/-- `slownik` -/
def slownik : List Bytes :=
  [text "alfa", text "bravo", text "charlie", text "delta", text "echo", text "foxtrot",
    text "golf", text "hotel"]

/-- Where a thread is: at its next access to what is shared, with what it has
    read. -/
inductive Place where
  | lock
  | load
  | store (k : Nat)
  | print (k : Nat)
  /-- At the test behind the last word. -/
  | wrap
  | unlock
  | sleep
  | ended
  deriving DecidableEq

/-- What the threads share: `mutex01`, `NR` and the output. -/
structure Shared where
  mutex : Nat
  nr : Nat
  output : List Bytes

def fresh : Shared := ⟨1, 0, []⟩

/-- A step of `fun_watka`. There is none for a word outside of the array. -/
def funWatka (s : Shared) : Place → Option (Shared × Place)
  | .lock => (semWait s.mutex).map fun value => ({ s with mutex := value }, .load)
  | .load => some (s, .store s.nr)
  | .store k => some ({ s with nr := k + 1 }, .print k)
  | .print k => slownik[k]?.map fun word => ({ s with output := s.output ++ [word] }, .wrap)
  | .wrap => some (if lSlow ≤ s.nr then { s with nr := 0 } else s, .unlock)
  | .unlock => some ({ s with mutex := semPost s.mutex }, .sleep)
  | .sleep => some (s, .ended)
  | .ended => none

/-- The thread has the mutex. -/
def Place.inside : Place → Bool
  | .load | .store _ | .print _ | .wrap | .unlock => true
  | .lock | .sleep | .ended => false

/-- The thread has printed its word. -/
def Place.printed : Place → Bool
  | .wrap | .unlock | .sleep | .ended => true
  | .lock | .load | .store _ | .print _ => false

/-- How many steps a thread has left. -/
def Place.rank : Place → Nat
  | .lock => 7
  | .load => 6
  | .store _ => 5
  | .print _ => 4
  | .wrap => 3
  | .unlock => 2
  | .sleep => 1
  | .ended => 0

/-- The threads of the program. -/
def crew (n : Nat) : Crew n Shared Place where
  enter := fun _ => .lock
  step := fun _ => funWatka
  ended := fun place => decide (place = .ended)

/-- The first words of the dictionary, over and over. -/
def recital (m : Nat) : List Bytes := (List.range m).map fun j => slownik.getD (j % lSlow) []

theorem recital_succ {m : Nat} {word : Bytes} (hword : slownik[m % lSlow]? = some word) :
    recital (m + 1) = recital m ++ [word] := by
  unfold recital
  rw [List.range_succ, List.map_append, List.map_singleton, List.getD_eq_getElem?_getD, hword]
  rfl

theorem recital_prefix {m k : Nat} (h : m ≤ k) : recital m <+: recital k := by
  rcases Nat.exists_eq_add_of_le h with ⟨d, rfl⟩
  unfold recital
  rw [List.range_add, List.map_append]
  exact List.prefix_append _ _

theorem mod_lSlow_lt (m : Nat) : m % lSlow < lSlow := Nat.mod_lt m (by decide)

/-- Behind the last word comes the first. -/
theorem succ_mod_lSlow (m : Nat) :
    (m + 1) % lSlow = if lSlow ≤ m % lSlow + 1 then 0 else m % lSlow + 1 := by
  have hlast := mod_lSlow_lt m
  have hadd : (m + 1) % lSlow = (m % lSlow + 1) % lSlow := by rw [Nat.mod_add_mod]
  rw [hadd]
  by_cases hwrap : lSlow ≤ m % lSlow + 1
  · have heq : m % lSlow + 1 = lSlow := by omega
    rw [if_pos hwrap, heq, Nat.mod_self]
  · rw [if_neg hwrap, Nat.mod_eq_of_lt (by omega)]

/-- What the position is for a thread with the mutex, after so many words. -/
def Held (nr m : Nat) : Place → Prop
  | .load | .unlock => nr = m % lSlow
  | .store k => k = m % lSlow
  | .print k => k = m % lSlow ∧ nr = k + 1
  | .wrap => ∃ k, m = k + 1 ∧ nr = k % lSlow + 1
  | .lock | .sleep | .ended => False

/-- A thread that was started is at a place of some kind. -/
def At (p : Place → Bool) (thread : Option Place) : Bool := thread.any p

/-- The mutex guards the position, and what was printed is the dictionary. -/
structure Inv {n : Nat} (s : Shared) (threads : Fin n → Option Place) : Prop where
  guards : Guards (fun i => At Place.inside (threads i) = true) (s.nr = s.output.length % lSlow)
    (fun i => ∀ place, threads i = some place → Held s.nr s.output.length place) s.mutex
  recited : s.output = recital s.output.length
  counted : s.output.length = tally (At Place.printed) threads

variable {n : Nat} {s s' : Shared} {threads : Fin n → Option Place} {i : Fin n}
  {place place' : Place}

theorem inv_fresh : Inv fresh (fun _ : Fin n => none) where
  guards := .free (fun _ => Bool.false_ne_true) rfl
  recited := rfl
  counted := (tally_const_false fun _ => rfl).symm

/-- A thread that is somewhere else does not notice. -/
theorem inside_of_ne {thread : Option Place} (q : Fin n) (hq : q ≠ i)
    (hin : At Place.inside (Function.update threads i thread q) = true) :
    At Place.inside (threads q) = true := by
  rwa [Function.update_of_ne hq] at hin

theorem inv_create (h : Inv s threads) (hnone : threads i = none) :
    Inv s (Function.update threads i (some .lock)) := by
  -- A new thread is in front of the lock, where it counts for nothing.
  have hplaces : ∀ p : Place → Bool, p .lock = false → ∀ q,
      At p (Function.update threads i (some .lock) q) = At p (threads q) := by
    intro p hp q
    by_cases hq : q = i
    · rw [hq, Function.update_self, hnone]
      exact hp
    · rw [Function.update_of_ne hq]
  refine ⟨h.guards.frame (fun q => ?_) id (fun q hin hheld place hq => ?_), h.recited, ?_⟩
  · rw [hplaces _ rfl]
  · by_cases hqi : q = i
    · rw [hqi, hnone] at hin
      exact absurd hin Bool.false_ne_true
    · rw [Function.update_of_ne hqi] at hq
      exact hheld place hq
  -- It has printed nothing.
  · rw [tally_update_same (by rw [hnone]; rfl)]
    exact h.counted

/-- A thread with the mutex works on. -/
theorem inv_inside (h : Inv s threads) (hthread : threads i = some place)
    (hplace : place.inside = true) (hplace' : place'.inside = true)
    (hmutex : s'.mutex = s.mutex) (hheld : Held s.nr s.output.length place →
      Held s'.nr s'.output.length place' ∧
        (s.output = recital s.output.length → s'.output = recital s'.output.length))
    (hcount : s'.output.length + (place.printed).toNat
      = s.output.length + (place'.printed).toNat) :
    Inv s' (Function.update threads i (some place')) := by
  have hin : At Place.inside (threads i) = true := by
    rw [hthread]
    exact hplace
  -- What is held with the mutex is known to the one inside, which is this thread.
  have hmine := hheld ((h.guards.of_in hin).2.2 place hthread)
  refine ⟨?_, hmine.2 h.recited, ?_⟩
  · rw [hmutex]
    refine h.guards.work hin ?_ inside_of_ne fun _ place'' heq => ?_
    · rw [Function.update_self]
      exact hplace'
    · rw [Function.update_self] at heq
      rw [← Option.some.inj heq]
      exact hmine.1
  -- The words printed and the threads that have printed move together.
  · have hmove := tally_move (At Place.printed) threads i (some place')
    rw [hthread] at hmove
    have hcounted := h.counted
    change tally (At Place.printed) (Function.update threads i (some place'))
      + (place.printed).toNat = tally (At Place.printed) threads + (place'.printed).toNat at hmove
    omega

/-- A thread that is outside stays outside. -/
theorem inv_outside (h : Inv s threads) (hthread : threads i = some place)
    (hplace : place.inside = false) (hplace' : place'.inside = false)
    (hprinted : place'.printed = place.printed) :
    Inv s (Function.update threads i (some place')) := by
  -- Neither before nor after it is inside.
  have hsame : ∀ q, At Place.inside (Function.update threads i (some place') q)
      = At Place.inside (threads q) := by
    intro q
    by_cases hq : q = i
    · rw [hq, Function.update_self, hthread]
      exact hplace'.trans hplace.symm
    · rw [Function.update_of_ne hq]
  refine ⟨h.guards.frame (fun q => by rw [hsame q]) id (fun q hin hheld place'' hq => ?_),
    h.recited, ?_⟩
  · by_cases hqi : q = i
    · rw [hqi, hthread] at hin
      exact absurd (hin.symm.trans hplace) (by decide)
    · rw [Function.update_of_ne hqi] at hq
      exact hheld place'' hq
  -- It has printed before, or not, and that stays so.
  · rw [tally_update_same (by rw [hthread]; exact hprinted)]
    exact h.counted

/-- The steps of a thread. -/
theorem inv_work (h : Inv s threads) (hthread : threads i = some place)
    (hstep : funWatka s place = some (s', place')) :
    Inv s' (Function.update threads i (some place')) := by
  cases place with
  | ended => cases hstep
  | sleep =>
      rcases Prod.mk.inj (Option.some.inj hstep) with ⟨rfl, rfl⟩
      exact inv_outside h hthread rfl rfl rfl
  | lock =>
      rcases Option.map_eq_some_iff.mp hstep with ⟨value, hwait, heq⟩
      rcases Prod.mk.inj heq with ⟨rfl, rfl⟩
      -- It gets the mutex, and with it what was true while the mutex was free.
      refine ⟨h.guards.enter (p := i) hwait ?_ inside_of_ne fun hfree place'' heq => ?_,
        h.recited, ?_⟩
      · rw [Function.update_self]
        rfl
      · rw [Function.update_self] at heq
        rw [← Option.some.inj heq]
        exact hfree
      · rw [tally_update_same (by rw [hthread]; rfl)]
        exact h.counted
  | load =>
      rcases Prod.mk.inj (Option.some.inj hstep) with ⟨rfl, rfl⟩
      -- The number that it reads is the one that stands there.
      exact inv_inside h hthread rfl rfl rfl (fun hheld => ⟨hheld, id⟩) rfl
  | store k =>
      rcases Prod.mk.inj (Option.some.inj hstep) with ⟨rfl, rfl⟩
      -- The one that it writes back is the next.
      exact inv_inside h hthread rfl rfl rfl (fun hheld => ⟨⟨hheld, rfl⟩, id⟩) rfl
  | print k =>
      rcases Option.map_eq_some_iff.mp hstep with ⟨word, hword, heq⟩
      rcases Prod.mk.inj heq with ⟨rfl, rfl⟩
      -- The word printed is the next of the recital.
      refine inv_inside h hthread rfl rfl rfl (fun hheld => ⟨⟨s.output.length, ?_, ?_⟩, ?_⟩) ?_
      · rw [List.length_append, List.length_singleton]
      · rw [hheld.2, hheld.1]
      · intro hrecited
        rw [hheld.1] at hword
        dsimp only
        rw [List.length_append, List.length_singleton, recital_succ hword, ← hrecited]
      · exact List.length_append
  | wrap =>
      rcases Prod.mk.inj (Option.some.inj hstep) with ⟨rfl, rfl⟩
      by_cases hwrap : lSlow ≤ s.nr
      -- The number has come to the end, and starts over,
      · rw [if_pos hwrap]
        refine inv_inside h hthread rfl rfl rfl (fun hheld => ⟨?_, id⟩) rfl
        rcases hheld with ⟨k, hk, hnr⟩
        change 0 = s.output.length % lSlow
        rw [hk, succ_mod_lSlow, ← hnr, if_pos hwrap]
      -- or is the place in the list anyway.
      · rw [if_neg hwrap]
        refine inv_inside h hthread rfl rfl rfl (fun hheld => ⟨?_, id⟩) rfl
        rcases hheld with ⟨k, hk, hnr⟩
        change s.nr = s.output.length % lSlow
        rw [hk, succ_mod_lSlow, ← hnr, if_neg hwrap]
  | unlock =>
      rcases Prod.mk.inj (Option.some.inj hstep) with ⟨rfl, rfl⟩
      have hin : At Place.inside (threads i) = true := by
        rw [hthread]
        rfl
      -- With the mutex it hands over the number, which is in range again.
      refine ⟨h.guards.leave hin ?_ inside_of_ne fun hheld => hheld _ hthread, h.recited, ?_⟩
      · rw [Function.update_self]
        exact Bool.false_ne_true
      · rw [tally_update_same (by rw [hthread]; rfl)]
        exact h.counted

/-- A thread with the mutex can go on: the word is in the dictionary. -/
theorem works_of_held {m : Nat} (hheld : Held s.nr m place) :
    place ≠ .ended ∧ (funWatka s place).isSome = true := by
  cases place with
  | lock | sleep | ended => exact absurd hheld id
  | load | store | wrap | unlock => exact ⟨nofun, rfl⟩
  | print k =>
      refine ⟨nofun, ?_⟩
      have hk : k < slownik.length := by
        rw [hheld.1]
        exact mod_lSlow_lt m
      rw [funWatka, Option.isSome_map, List.getElem?_eq_getElem hk]
      rfl

/-- Who waits for the mutex waits for a thread that can go on. -/
theorem progress_of_inv (h : Inv s threads) (hthread : threads i = some place)
    (hrunning : place ≠ .ended) :
    ∃ j place', threads j = some place' ∧ place' ≠ .ended ∧ (funWatka s place').isSome = true := by
  by_cases hsome : ∃ j, At Place.inside (threads j) = true
  -- Whoever is inside can go on.
  · rcases hsome with ⟨j, hin⟩
    have hheld := (h.guards.of_in hin).2.2
    cases hj : threads j with
    | none =>
        rw [hj] at hin
        exact absurd hin Bool.false_ne_true
    | some place' => exact ⟨j, place', hj, works_of_held (hheld place' hj)⟩
  · -- The mutex is free, so everybody can go on.
    -- The mutex is at one, so a wait for it would pass.
    have hmutex : s.mutex = 1 := h.guards.eq_one_of_out fun p hin => hsome ⟨p, hin⟩
    refine ⟨i, place, hthread, hrunning, ?_⟩
    cases place with
    | lock => rw [funWatka, hmutex]; rfl
    | sleep | load | store | wrap | unlock => rfl
    | ended => exact absurd rfl hrunning
    | print k => exact absurd ⟨i, by rw [hthread]; rfl⟩ hsome

theorem rank_funWatka (hstep : funWatka s place = some (s', place')) :
    place'.rank < place.rank := by
  cases place with
  | ended => cases hstep
  | lock =>
      rcases Option.map_eq_some_iff.mp hstep with ⟨_, _, heq⟩
      rw [← (Prod.mk.inj heq).2]
      decide
  | print k =>
      rcases Option.map_eq_some_iff.mp hstep with ⟨_, _, heq⟩
      rw [← (Prod.mk.inj heq).2]
      exact Nat.lt_succ_self 3
  | load | store | wrap | unlock | sleep =>
      rw [← (Prod.mk.inj (Option.some.inj hstep)).2]
      exact Nat.lt_succ_self _

theorem steady_inv (n : Nat) : Steady (crew n) Inv where
  create := fun _ _ _ h hnone => inv_create h hnone
  work := fun _ _ _ _ _ _ h hthread _ hstep => inv_work h hthread hstep
  progress := by
    intro shared threads i place h hthread hended
    rcases progress_of_inv h hthread (of_decide_eq_false hended) with
      ⟨j, place', hj, hrunning, hstep⟩
    exact ⟨j, place', hj, decide_eq_false hrunning, hstep⟩

/-- Every thread has ended, and each has printed a word. -/
structure Recited (s : State n Shared Place) : Prop where
  main : s.main = .joining n
  output : s.shared.output = recital n
  mutex : s.shared.mutex = 1

theorem recited_of_joined {s : State n Shared Place} (h : Joined (crew n) Inv s) : Recited s := by
  have hended : ∀ i, s.threads i = some .ended := by
    intro i
    rcases h.threads i with ⟨place, hthread, hplace⟩
    rw [hthread, of_decide_eq_true hplace]
  have hlength : s.shared.output.length = n := by
    rw [h.inv.counted, tally_const_true fun i => by rw [hended i]; rfl, Fintype.card_fin]
  refine ⟨h.main, ?_, h.inv.guards.eq_one_of_out fun i hin => ?_⟩
  · rw [h.inv.recited, hlength]
  · rw [hended i] at hin
    exact absurd hin Bool.false_ne_true

/-- What the program does, for any number of threads. -/
structure Recites (n : Nat) : Prop where
  /-- It ends, and has printed the dictionary as often as there were threads
      for. -/
  completes : Completes (step (crew n)) (start fresh) (9 * n + 1) Recited
  /-- On the way there it has printed a part of that. -/
  meanwhile : ∀ s, Reaches (step (crew n)) (start fresh) s →
    s.shared.output <+: recital n

theorem recites (n : Nat) : Recites n := by
  have hbound : (∑ _ : Fin n, Place.lock.rank) + (2 * n + 1) = 9 * n + 1 := by
    rw [Finset.sum_const, Finset.card_univ, Fintype.card_fin, smul_eq_mul, Place.rank]
    omega
  refine ⟨?_, fun s hreaches => ?_⟩
  · have hcompletes := completes_of_steady (steady_inv n)
      (fun _ _ _ _ _ hstep => rank_funWatka hstep) inv_fresh
    have hlength := hcompletes.length_le
    change ∀ t es, exec (step (crew n)) (start fresh) es = some t →
      es.length ≤ (∑ _ : Fin n, Place.lock.rank) + (2 * n + 1) at hlength
    rw [hbound] at hlength
    exact ⟨hlength, fun t ht hstuck => recited_of_joined (hcompletes.of_stuck t ht hstuck)⟩
  · have hinv := inv_of_reaches (steady_inv n) inv_fresh hreaches
    -- Every word printed belongs to a thread of its own.
    have hle : s.shared.output.length ≤ n := by
      have htally := tally_le_card (At Place.printed) s.threads
      rw [Fintype.card_fin] at htally
      rw [hinv.counted]
      exact htally
    rw [hinv.recited]
    exact recital_prefix hle

end Words

end OsLabs
