import OsLabs.Library.Machine
import OsLabs.Library.Slots
import OsLabs.Mutex.Threads

/-!
# Reaping Threads

A thread may end before the main thread has set its counter, several may end
before it is woken, and the broadcast comes after the mutex was released. A
broadcast that comes too early is not missed, since the other counter has grown
before it and is tested under the mutex. And a thread that has counted itself
does not need the mutex any more, so it can be joined under it.

One invariant says all of this. With it the main thread can always be waited
for: whoever it waits for, in a join or asleep, has a step to take. And every
step is one of those that are left, where the section of a thread may cost the
main thread another round through the array, and a broadcast the way from being
asleep back to the test of the counter.

## Main definitions

* `Sound`: What is kept in all steps.
* `rank`: How many steps there are left.
* `Reaped`: The counters are right, and threads are joined as they should be.

## Theorems

* `sound_step`: The counters and the places stay in agreement.
* `exists_step`: There is always a step until the end.
* `rank_lt`: And only so many of them.
* `reaped_run`: The threads are reaped.
-/

namespace OsLabs

namespace Mutex

open Machine

variable {n : Nat}

section Invariant

/-- It has ended and was not joined. -/
def ended (t : Thread) : Bool := decide (t.state = .terminated)

/-- It was not joined. -/
def unreaped (t : Thread) : Bool := decide (t.state ≠ .joined)

/-- The state of a thread and its place agree. -/
structure Coherent (t : Thread) : Prop where
  alive : t.state = .alive ↔ t.place = .uncreated ∨ t.place = .working
  joined : t.state = .joined → t.place = .exited
  joins : t.joins = if t.state = .joined then 1 else 0

/-- The main thread is in the outer loop and has not begun the inner one over
    the threads. -/
def MainPc.entered : MainPc n → Bool
  | .locking | .checking | .asleep | .woken => true
  | _ => false

/-- How many threads have been passed by the loop over them. -/
def MainPc.passed : MainPc n → Nat
  | .scanning idx => idx
  | .joining i => i
  | .unlocking => n
  | _ => 0

/-- What is kept in all steps. -/
structure Sound (s : State n) : Prop where
  coherent : ∀ i, Coherent (s.threads i)
  creating : ∀ idx, s.main = .creating idx → ∀ i : Fin n,
    (s.threads i).place = .uncreated ↔ idx ≤ i.val
  created : s.main.counted = true → ∀ i, (s.threads i).place ≠ .uncreated
  early : s.main.counted = false → ∀ i, (s.threads i).state ≠ .joined
  total : s.main.counted = true → s.totThreads = n
  live : s.main.counted = true → s.numLive = tally unreaped s.threads
  unjoined : s.numUnjoined = tally ended s.threads
  entered : s.main.entered = true → 0 < s.numLive
  asleep : s.main = .asleep →
    ∃ i, (s.threads i).place = .working ∨ (s.threads i).place = .broadcasting
  joining : ∀ i, s.main = .joining i → (s.threads i).state = .terminated
  passed : ∀ i : Fin n, i.val < s.main.passed → (s.threads i).state ≠ .terminated
  finished : s.main = .finished → ¬ 0 < s.numLive

theorem sound_init : Sound (init n) where
  coherent := fun _ => ⟨iff_of_true rfl (.inl rfl), fun h => (nomatch h), rfl⟩
  creating := fun idx h i => by
    cases h
    exact iff_of_true rfl (Nat.zero_le _)
  created := fun h => (nomatch h)
  early := fun _ _ h => (nomatch h)
  total := fun h => (nomatch h)
  live := fun h => (nomatch h)
  unjoined := (congrArg Int.ofNat (tally_const_false fun _ => rfl)).symm
  entered := fun h => (nomatch h)
  asleep := fun h => (nomatch h)
  joining := fun _ h => (nomatch h)
  passed := fun _ h => absurd h (Nat.not_lt_zero _)
  finished := fun h => (nomatch h)

variable {s s' : State n} {e : Event n}

theorem Goes.counted {pc : MainPc n} (h : Goes s pc) :
    s.main.counted = true ∧ pc.counted = true := by
  cases h with
  | enter hmain | leave hmain | lock hmain | sleep hmain | wake hmain | begin hmain
  | pick _ hmain | skip _ hmain | complete _ hmain | unlock hmain =>
      rw [hmain]
      exact ⟨rfl, rfl⟩

/-- If some thread was not joined and none has ended, one is alive. -/
theorem exists_alive (h : Sound s) (hcounted : s.main.counted = true) (hlive : 0 < s.numLive)
    (hnone : s.numUnjoined = 0) :
    ∃ i, (s.threads i).state = .alive ∧ (s.threads i).place = .working := by
  rw [h.live hcounted] at hlive
  rw [h.unjoined] at hnone
  rcases tally_pos.mp (Int.natCast_pos.mp hlive) with ⟨i, hi⟩
  have hended := tally_eq_zero.mp (Int.natCast_eq_zero.mp hnone) i
  have halive : (s.threads i).state = .alive := by
    cases hstate : (s.threads i).state with
    | alive => rfl
    | terminated => exact absurd hstate (of_decide_eq_false hended)
    | joined => exact absurd hstate (of_decide_eq_true hi)
  rcases (h.coherent i).alive.mp halive with hplace | hplace
  · exact absurd hplace (h.created hcounted i)
  · exact ⟨i, halive, hplace⟩

/-- What has been passed in the loop over the threads stays passed. -/
theorem passed_goes {pc : MainPc n} (h : Sound s) (hgo : Goes s pc) {i : Fin n}
    (hi : i.val < pc.passed) : (s.threads i).state ≠ .terminated := by
  -- What was passed before keeps its state: the main thread holds the mutex all through the loop.
  have hbefore := h.passed i
  cases hgo with
  | pick j hmain hlt hstate =>
      rw [hmain] at hbefore
      exact hbefore hi
  -- The thread that is skipped is passed from here on, and has not terminated.
  | skip j hmain hlt hstate =>
      rw [hmain] at hbefore
      by_cases hij : i = j
      · rw [hij]
        exact hstate
      · refine hbefore ?_
        have hle : i.val < j.val + 1 := hi
        have hne : i.val ≠ j.val := fun hval => hij (Fin.ext hval)
        change i.val < j.val
        omega
  -- The loop has gone over all threads, so all are passed.
  | complete idx hmain hge =>
      rw [h.total (by rw [hmain]; rfl)] at hge
      rw [hmain] at hbefore
      exact hbefore (Nat.lt_of_lt_of_le i.isLt (Nat.not_lt.mp hge))
  | enter | leave | lock | sleep | wake | begin | unlock => exact absurd hi (Nat.not_lt_zero _)

theorem sound_goes {pc : MainPc n} (h : Sound s) (hgo : Goes s pc) :
    Sound { s with main := pc } where
  coherent := h.coherent
  creating := by
    intro idx hidx
    have hcounted := hgo.counted.2
    -- The main thread is behind the creation, so there is nobody left to create.
    rw [show pc = .creating idx from hidx] at hcounted
    cases hcounted
  created := fun _ => h.created hgo.counted.1
  early := by
    intro hearly
    rw [show pc.counted = true from hgo.counted.2] at hearly
    cases hearly
  total := fun _ => h.total hgo.counted.1
  live := fun _ => h.live hgo.counted.1
  unjoined := h.unjoined
  entered := by
    cases hgo with
    -- It enters the loop with the counter of live threads positive, and only joins lower it.
    | enter _ hlive => exact fun _ => hlive
    | lock hmain | sleep hmain | wake hmain => exact fun _ => h.entered (by rw [hmain]; rfl)
    | leave | begin | pick | skip | complete | unlock => exact fun hentered => (nomatch hentered)
  asleep := by
    cases hgo with
    | sleep hmain hnone =>
        intro _
        -- The counter was tested under the mutex.
        rcases exists_alive h (by rw [hmain]; rfl) (h.entered (by rw [hmain]; rfl)) hnone with
          ⟨i, _, hplace⟩
        exact ⟨i, .inl hplace⟩
    | enter | leave | lock | wake | begin | pick | skip | complete | unlock =>
        exact fun hasleep => (nomatch hasleep)
  joining := by
    intro i hi
    cases hgo with
    -- It picks a thread that has terminated.
    | pick j hmain hlt hstate =>
        cases hi
        exact hstate
    | enter | leave | lock | sleep | wake | begin | skip | complete | unlock => cases hi
  passed := fun _ hi => passed_goes h hgo hi
  finished := by
    cases hgo with
    -- The counter of live threads was not positive when it left.
    | leave _ hlive => exact fun _ => hlive
    | enter | lock | sleep | wake | begin | pick | skip | complete | unlock =>
        exact fun hfinished => (nomatch hfinished)

/-- A thread that is changed, and the others. -/
theorem forall_update {P : Fin n → Thread → Prop} {f : Fin n → Thread} {i : Fin n} {t : Thread}
    (hnew : P i t) (hold : ∀ j, j ≠ i → P j (f j)) (j : Fin n) :
    P j (Function.update f i t j) := by
  by_cases hj : j = i
  · rw [hj, Function.update_self]
    exact hnew
  · rw [Function.update_of_ne hj]
    exact hold j hj

theorem sound_create {i : Fin n} (h : Sound s) (hmain : s.main = .creating i) :
    Sound { s with
      main := .creating (i.val + 1)
      threads := Function.update s.threads i
        { s.threads i with place := .working, state := .alive } } := by
  -- Thread `i` is the next to be created, so it has not been before.
  have hplace : (s.threads i).place = .uncreated := (h.creating i hmain i).mpr (Nat.le_refl _)
  have hstate : (s.threads i).state = .alive := (h.coherent i).alive.mpr (.inl hplace)
  have hearly := h.early (by rw [hmain]; rfl)
  refine ⟨?_, ?_, fun hc => (nomatch hc), fun _ => ?_, fun hc => (nomatch hc),
    fun hc => (nomatch hc), ?_, fun hc => (nomatch hc), fun hc => (nomatch hc),
    fun _ hc => (nomatch hc), fun _ hlt => absurd hlt (Nat.not_lt_zero _),
    fun hc => (nomatch hc)⟩
  -- It is alive, and was never joined.
  · refine forall_update ⟨iff_of_true rfl (.inr rfl), fun hc => (nomatch hc), ?_⟩
      fun j _ => h.coherent j
    rw [(h.coherent i).joins, if_neg (hearly i)]
    rfl
  · intro idx hidx
    cases hidx
    refine forall_update (P := fun j t => t.place = .uncreated ↔ i.val + 1 ≤ j.val)
      (iff_of_false (fun hc => nomatch hc) (by omega)) fun j hj => ?_
    have hne : j.val ≠ i.val := fun hval => hj (Fin.ext hval)
    rw [h.creating i hmain j]
    omega
  · exact forall_update (P := fun _ t => t.state ≠ .joined) (fun hc => nomatch hc)
      fun j _ => hearly j
  -- It has not ended, neither before nor after.
  · rw [h.unjoined]
    refine congrArg Int.ofNat (tally_update_same ?_).symm
    rw [ended, ended, hstate]

theorem sound_count {idx : Nat} (h : Sound s) (hmain : s.main = .creating idx)
    (hge : ¬ idx < n) : Sound { s with main := .testing, totThreads := n, numLive := n } where
  coherent := h.coherent
  creating := fun _ hc => (nomatch hc)
  created := by
    intro _ i hplace
    have hle := (h.creating idx hmain i).mp hplace
    have hlt := i.isLt
    omega
  early := fun hc => (nomatch hc)
  total := fun _ => rfl
  live := by
    intro _
    -- Some may have ended already, but none was joined.
    have hall : tally unreaped s.threads = n := by
      refine (tally_const_true fun i => ?_).trans (Fintype.card_fin n)
      exact decide_eq_true (h.early (by rw [hmain]; rfl) i)
    exact congrArg Int.ofNat hall.symm
  unjoined := h.unjoined
  entered := fun hc => (nomatch hc)
  asleep := fun hc => (nomatch hc)
  joining := fun _ hc => (nomatch hc)
  passed := fun _ hlt => absurd hlt (Nat.not_lt_zero _)
  finished := fun hc => (nomatch hc)

theorem sound_join {i : Fin n} (h : Sound s) (hmain : s.main = .joining i)
    (hexited : (s.threads i).place = .exited) :
    Sound { s.reaped i with main := .scanning (i.val + 1) } := by
  have hcounted : s.main.counted = true := by
    rw [hmain]
    rfl
  -- Its state says that it has terminated, and so nobody has joined it.
  have hstate := h.joining i hmain
  refine ⟨?_, fun _ hc => (nomatch hc), fun _ => ?_, fun hc => (nomatch hc),
    fun _ => h.total hcounted, fun _ => ?_, ?_, fun hc => (nomatch hc), fun hc => (nomatch hc),
    fun _ hc => (nomatch hc), ?_, fun hc => (nomatch hc)⟩
  · refine forall_update ⟨?_, fun _ => hexited, ?_⟩ fun j _ => h.coherent j
    · rw [hexited]
      exact iff_of_false (fun hc => nomatch hc) (by rintro (hc | hc) <;> cases hc)
    · rw [(h.coherent i).joins, hstate]
      rfl
  · refine forall_update (P := fun _ t => t.place ≠ .uncreated) ?_
      fun j _ => h.created hcounted j
    rw [hexited]
    exact fun hc => nomatch hc
  -- Both counters are lowered with the one thread that is joined.
  · have hloss : tally unreaped (s.reaped i).threads + 1 = tally unreaped s.threads :=
      tally_update_loss rfl (by rw [unreaped, hstate]; rfl)
    have hlive := h.live hcounted
    change s.numLive - 1 = (tally unreaped (s.reaped i).threads : Nat)
    omega
  · have hloss : tally ended (s.reaped i).threads + 1 = tally ended s.threads :=
      tally_update_loss rfl (by rw [ended, hstate]; rfl)
    have hunjoined := h.unjoined
    change s.numUnjoined - 1 = (tally ended (s.reaped i).threads : Nat)
    omega
  -- It is passed, and those before it stay passed.
  · refine forall_update (P := fun j t => j.val < i.val + 1 → t.state ≠ .terminated)
      (fun _ hc => nomatch hc) fun j hj hlt => h.passed j ?_
    have hne : j.val ≠ i.val := fun hval => hj (Fin.ext hval)
    rw [hmain]
    change j.val < i.val
    omega

/-- The main thread is woken, by a broadcast or by nobody. -/
theorem sound_woken (h : Sound s) (hmain : s.main = .asleep) :
    Sound { s with main := .woken } := by
  have hcounted : s.main.counted = true := by
    rw [hmain]
    rfl
  exact ⟨h.coherent, fun _ hc => (nomatch hc), fun _ => h.created hcounted,
    fun hc => (nomatch hc), fun _ => h.total hcounted, fun _ => h.live hcounted, h.unjoined,
    fun _ => h.entered (by rw [hmain]; rfl), fun hc => (nomatch hc), fun _ hc => (nomatch hc),
    fun _ hlt => absurd hlt (Nat.not_lt_zero _), fun hc => (nomatch hc)⟩

/-- Without the mutex the main thread is joining none and has passed none. -/
theorem passed_eq_zero {pc : MainPc n} (h : pc.holds = false) :
    pc.passed = 0 ∧ ∀ i, pc ≠ .joining i := by
  cases pc with
  | scanning | joining | unlocking => cases h
  | creating | testing | locking | checking | asleep | woken | finished =>
      exact ⟨rfl, fun _ hc => nomatch hc⟩

theorem sound_terminate {i : Fin n} (h : Sound s) (hplace : (s.threads i).place = .working)
    (hfree : s.main.holds = false) : Sound (s.terminated i) := by
  have hstate : (s.threads i).state = .alive := (h.coherent i).alive.mpr (.inr hplace)
  -- Without the mutex in its hands the main thread is not in the loop over the threads.
  have hfree' := passed_eq_zero hfree
  refine ⟨?_, fun idx hidx => ?_, fun hc => ?_, fun hc => ?_, h.total, fun hc => ?_, ?_, h.entered,
    fun _ => ⟨i, ?_⟩, fun j hj => absurd hj (hfree'.2 j), fun j hlt => ?_, h.finished⟩
  -- It has terminated from here on.
  · refine forall_update ⟨?_, fun hc => (nomatch hc), ?_⟩ fun j _ => h.coherent j
    · exact iff_of_false (fun hc => nomatch hc) (by rintro (hc | hc) <;> cases hc)
    · rw [(h.coherent i).joins, hstate]
      rfl
  · refine forall_update (P := fun j t => t.place = .uncreated ↔ idx ≤ j.val) ?_
      fun j _ => h.creating idx hidx j
    rw [← h.creating idx hidx i, hplace]
    exact iff_of_false (fun hc => nomatch hc) (fun hc => nomatch hc)
  · exact forall_update (P := fun _ t => t.place ≠ .uncreated) (fun hc => nomatch hc)
      fun j _ => h.created hc j
  · exact forall_update (P := fun _ t => t.state ≠ .joined) (fun hc => nomatch hc)
      fun j _ => h.early hc j
  -- It counts as live until it is joined,
  · refine (h.live hc).trans (congrArg Int.ofNat (tally_update_same ?_).symm)
    rw [unreaped, unreaped, hstate]
    rfl
  -- and as one to be joined from now on.
  · have hgain : tally ended (s.terminated i).threads = tally ended s.threads + 1 :=
      tally_update_gain rfl (by rw [ended, hstate]; rfl)
    have hunjoined := h.unjoined
    change s.numUnjoined + 1 = (tally ended (s.terminated i).threads : Nat)
    omega
  -- It is the one whose broadcast wakes the main thread.
  · exact .inr (congrArg Thread.place (Function.update_self i _ s.threads))
  · change j.val < s.main.passed at hlt
    rw [hfree'.1] at hlt
    exact absurd hlt (Nat.not_lt_zero _)

theorem moved_of_ne {i j : Fin n} (place : Place) (hne : j ≠ i) :
    s.moved i place j = s.threads j :=
  Function.update_of_ne hne _ _

theorem state_moved (i j : Fin n) (place : Place) :
    (s.moved i place j).state = (s.threads j).state := by
  by_cases hj : j = i
  · rw [hj, State.moved, Function.update_self]
  · rw [moved_of_ne place hj]

/-- A thread goes on after its section. Only its broadcast could matter. -/
theorem sound_moved {i : Fin n} {place : Place} (h : Sound s)
    (hbefore : (s.threads i).place = .broadcasting ∨ (s.threads i).place = .returning)
    (hafter : place = .returning ∨ place = .exited)
    (hawake : s.main = .asleep → (s.threads i).place = .returning) :
    Sound { s with threads := s.moved i place } := by
  -- Behind its section a thread has terminated, and is not joined before it has exited.
  have hstate : (s.threads i).state = .terminated := by
    cases hs : (s.threads i).state with
    | alive =>
        rcases (h.coherent i).alive.mp hs with hc | hc <;> rw [hc] at hbefore <;>
          rcases hbefore with hc | hc <;> cases hc
    | terminated => rfl
    | joined =>
        rw [(h.coherent i).joined hs] at hbefore
        rcases hbefore with hc | hc <;> cases hc
  have hnot : place ≠ .uncreated ∧ place ≠ .working := by
    rcases hafter with hc | hc <;> rw [hc] <;> exact ⟨Place.noConfusion, Place.noConfusion⟩
  have hnot' : (s.threads i).place ≠ .uncreated := by
    rcases hbefore with hc | hc <;> rw [hc] <;> exact fun hc => nomatch hc
  refine ⟨?_, fun idx hidx => ?_, fun hc => ?_, fun hc => ?_, h.total, fun hc => ?_, ?_, h.entered,
    fun hc => ?_, fun j hj => ?_, fun j hlt => ?_, h.finished⟩
  -- Its state does not depend on where it stands behind the section.
  · refine forall_update ⟨?_, fun hc => ?_, (h.coherent i).joins⟩ fun j _ => h.coherent j
    · change (s.threads i).state = .alive ↔ place = .uncreated ∨ place = .working
      rw [hstate]
      exact iff_of_false (fun hc => nomatch hc) (fun hc => hc.elim hnot.1 hnot.2)
    · change (s.threads i).state = .joined at hc
      rw [hstate] at hc
      cases hc
  · refine forall_update (P := fun j t => t.place = .uncreated ↔ idx ≤ j.val) ?_
      fun j _ => h.creating idx hidx j
    rw [← h.creating idx hidx i]
    exact iff_of_false hnot.1 hnot'
  · exact forall_update (P := fun _ t => t.place ≠ .uncreated) hnot.1 fun j _ => h.created hc j
  · exact fun j hs => h.early hc j ((state_moved i j place).symm.trans hs)
  -- The same holds of both counters.
  · have hsame : tally unreaped (s.moved i place) = tally unreaped s.threads :=
      tally_update_same rfl
    exact (h.live hc).trans (congrArg Int.ofNat hsame.symm)
  · have hsame : tally ended (s.moved i place) = tally ended s.threads := tally_update_same rfl
    exact h.unjoined.trans (congrArg Int.ofNat hsame.symm)
  · -- Whoever is still to broadcast is another thread.
    rcases h.asleep hc with ⟨j, hj⟩
    have hne : j ≠ i := by
      intro hji
      rw [hji, hawake hc] at hj
      rcases hj with hj | hj <;> cases hj
    rw [← moved_of_ne place hne] at hj
    exact ⟨j, hj⟩
  · exact (state_moved i j place).trans (h.joining j hj)
  · exact fun hs => h.passed j hlt ((state_moved i j place).symm.trans hs)

/-- Every step keeps the counters and the places in agreement. -/
theorem sound_step (h : Sound s) (hstep : step s e = some s') : Sound s' := by
  cases step_move hstep with
  | goes pc hgo => exact sound_goes h hgo
  | create i hmain => exact sound_create h hmain
  | count idx hmain hge => exact sound_count h hmain hge
  | join i hmain hexited => exact sound_join h hmain hexited
  | spurious hmain => exact sound_woken h hmain
  | terminate i hplace hfree => exact sound_terminate h hplace hfree
  | broadcast i hplace =>
      by_cases hmain : s.main = .asleep
      · rw [if_pos hmain]
        exact sound_moved (sound_woken h hmain) (.inl hplace) (.inl rfl) fun hc => (nomatch hc)
      · rw [if_neg hmain]
        exact sound_moved h (.inl hplace) (.inl rfl) fun hc => absurd hc hmain
  | exit i hplace => exact sound_moved h (.inr hplace) (.inr rfl) fun _ => hplace

/-- A thread whose place is behind its section does not need the mutex. -/
theorem place_of_terminated {i : Fin n} (h : Sound s) (hstate : (s.threads i).state = .terminated) :
    (s.threads i).place ≠ .uncreated ∧ (s.threads i).place ≠ .working := by
  have hnot : ¬ ((s.threads i).place = .uncreated ∨ (s.threads i).place = .working) := by
    rw [← (h.coherent i).alive, hstate]
    exact fun hc => nomatch hc
  exact ⟨fun hc => hnot (.inl hc), fun hc => hnot (.inr hc)⟩

/-- Until the end somebody can go on, without a wake-up by nobody. -/
theorem exists_step (h : Sound s) (hmain : s.main ≠ .finished) :
    ∃ e s', e ≠ .spurious ∧ step s e = some s' := by
  have hgo : s.mainStep.isSome = true → ∃ e s', e ≠ .spurious ∧ step s e = some s' := by
    intro hsome
    rcases Option.isSome_iff_exists.mp hsome with ⟨s', hs'⟩
    exact ⟨.main, s', nofun, hs'⟩
  have hthread : ∀ i, (s.threadStep i).isSome = true →
      ∃ e s', e ≠ .spurious ∧ step s e = some s' := by
    intro i hsome
    rcases Option.isSome_iff_exists.mp hsome with ⟨s', hs'⟩
    exact ⟨.thread i, s', nofun, hs'⟩
  cases hpc : s.main with
  | creating idx =>
      refine hgo ?_
      rw [State.mainStep, hpc]
      -- Either the next thread is created or the count begins.
      by_cases hlt : idx < n
      · simp only [dif_pos hlt, Option.isSome_some]
      · simp only [dif_neg hlt, Option.isSome_some]
  | testing | locking | checking | woken | unlocking =>
      refine hgo ?_
      rw [State.mainStep, hpc]
      rfl
  | asleep =>
      -- Whoever is still to broadcast can do what comes before it.
      rcases h.asleep hpc with ⟨i, hplace | hplace⟩
      · refine hthread i ?_
        -- A thread in front of its section finds the mutex free while the main thread sleeps.
        rw [State.threadStep, hplace, hpc]
        rfl
      · refine hthread i ?_
        rw [State.threadStep, hplace]
        rfl
  | scanning idx =>
      have htotal := h.total (by rw [hpc]; rfl)
      refine hgo ?_
      rw [State.mainStep, hpc, htotal]
      -- The loop goes on or is over.
      by_cases hlt : idx < n
      · simp only [if_pos hlt, dif_pos hlt, Option.isSome_some]
      · simp only [if_neg hlt, Option.isSome_some]
  | joining i =>
      -- The thread that is joined goes on to its end.
      have hbehind := place_of_terminated h (h.joining i hpc)
      cases hplace : (s.threads i).place with
      | uncreated => exact absurd hplace hbehind.1
      | working => exact absurd hplace hbehind.2
      | broadcasting | returning =>
          refine hthread i ?_
          rw [State.threadStep, hplace]
          rfl
      | exited =>
          -- It has exited, so the join comes back.
          refine hgo ?_
          rw [State.mainStep, hpc]
          simp only [if_pos hplace, Option.isSome_some]
  | finished => exact absurd hpc hmain

end Invariant

section Rank

variable {s s' : State n} {e : Event n}

/-- What is left to a thread. Its broadcast may wake the main thread, and its
    section may make it go through all threads once more. -/
def Place.left (n : Nat) : Place → Nat
  | .uncreated | .working => 2 * n + 11
  | .broadcasting => 5
  | .returning => 1
  | .exited => 0

/-- What is left to the main thread until it sleeps, or ends. -/
def MainPc.left : MainPc n → Nat
  | .creating idx => n - idx + 5
  | .testing => 4
  | .locking => 3
  | .checking => 2
  | .asleep => 0
  | .woken => 3
  | .scanning idx => 2 * (n - idx) + 6
  | .joining i => 2 * (n - i) + 5
  | .unlocking => 5
  | .finished => 0

/-- The main thread is in the loop over the threads, or just behind it. -/
def MainPc.passing : MainPc n → Bool
  | .scanning _ | .joining _ | .unlocking => true
  | _ => false

/-- The loop over the threads, if there is something for it to do. -/
def pending (pc : MainPc n) (numUnjoined : Int) : Nat :=
  if pc.passing = false ∧ numUnjoined ≠ 0 then 2 * n + 5 else 0

def threadsLeft (threads : Fin n → Thread) : Nat := ∑ i, (threads i).place.left n

/-- The steps that are left, if nobody is woken by nobody. -/
def rank (s : State n) : Nat :=
  threadsLeft s.threads + (s.main.left + pending s.main s.numUnjoined)

theorem pending_of_some {pc : MainPc n} {u : Int} (hpassing : pc.passing = false) (hu : u ≠ 0) :
    pending pc u = 2 * n + 5 :=
  if_pos ⟨hpassing, hu⟩

theorem pending_of_none (pc : MainPc n) : pending pc 0 = 0 := if_neg fun hc => hc.2 rfl

theorem pending_of_passing {pc : MainPc n} {u : Int} (hpassing : pc.passing = true) :
    pending pc u = 0 :=
  if_neg fun hc => Bool.noConfusion (hpassing.symm.trans hc.1)

theorem pending_congr {pc pc' : MainPc n} (u : Int) (h : pc.passing = pc'.passing) :
    pending pc u = pending pc' u := by
  rw [pending, pending, h]

theorem pending_le (pc : MainPc n) (u : Int) : pending pc u ≤ 2 * n + 5 := by
  rw [pending]
  split <;> omega

/-- A thread that goes to another place. -/
theorem threadsLeft_update (threads : Fin n → Thread) (i : Fin n) (t : Thread) :
    threadsLeft (Function.update threads i t) + (threads i).place.left n
      = threadsLeft threads + t.place.left n :=
  sum_move (fun t : Thread => t.place.left n) threads i t

theorem left_goes {pc : MainPc n} (h : Sound s) (hgo : Goes s pc) :
    pc.left + pending pc s.numUnjoined + 1 ≤ s.main.left + pending s.main s.numUnjoined := by
  cases hgo with
  | enter hmain hlive | leave hmain hlive | lock hmain | sleep hmain hnone | wake hmain =>
      rw [hmain]
      simp only [MainPc.left, pending, MainPc.passing]
      omega
  | begin hmain hsome =>
      -- The loop over the threads was pending.
      rw [hmain, pending_of_passing rfl, pending_of_some rfl hsome]
      simp only [MainPc.left]
      omega
  | pick i hmain hlt hstate =>
      -- The steps of the loop itself are paid by those that are left of it.
      rw [hmain, pending_of_passing rfl, pending_of_passing rfl]
      simp only [MainPc.left]
      omega
  | skip i hmain hlt hstate =>
      have hi := i.isLt
      rw [hmain, pending_of_passing rfl, pending_of_passing rfl]
      simp only [MainPc.left]
      omega
  | complete idx hmain hge =>
      rw [hmain, pending_of_passing rfl, pending_of_passing rfl]
      simp only [MainPc.left]
      omega
  | unlock hmain =>
      -- Behind the loop there is nothing for it to do.
      have hnone : s.numUnjoined = 0 := by
        refine h.unjoined.trans (congrArg Int.ofNat (tally_const_false fun i => ?_))
        refine decide_eq_false (h.passed i ?_)
        rw [hmain]
        exact i.isLt
      rw [hmain, hnone, pending_of_none, pending_of_none]
      simp only [MainPc.left]
      omega

/-- A wake-up costs three steps, if the main thread sleeps. -/
theorem left_woken (pc : MainPc n) (u : Int) :
    MainPc.left (if pc = .asleep then .woken else pc)
        + pending (if pc = .asleep then .woken else pc) u ≤ pc.left + pending pc u + 3 := by
  by_cases hasleep : pc = .asleep
  · have hpending : pending (.woken : MainPc n) u = pending (.asleep : MainPc n) u :=
      pending_congr u rfl
    rw [if_pos hasleep, hasleep, hpending]
    simp only [MainPc.left]
    omega
  · rw [if_neg hasleep]
    exact Nat.le_add_right _ 3

/-- Every step is one of those that are left, but for wake-ups by nobody. -/
theorem rank_lt (h : Sound s) (hstep : step s e = some s') :
    rank s' + 1 ≤ rank s + (if e == .spurious then 3 + 1 else 0) := by
  cases step_move hstep with
  | goes pc hgo =>
      -- A step of the main thread that changes nothing else.
      have hleft := left_goes h hgo
      change threadsLeft s.threads + (pc.left + pending pc s.numUnjoined) + 1 ≤ rank s + 0
      rw [rank]
      omega
  | create i hmain =>
      have hplace : (s.threads i).place = .uncreated := (h.creating i hmain i).mpr (Nat.le_refl _)
      have hthreads := threadsLeft_update s.threads i
        { s.threads i with place := .working, state := .alive }
      have hi := i.isLt
      rw [hplace] at hthreads
      -- The thread has its steps from the beginning: creating it costs one of the main thread.
      have hpending : pending (.creating (i.val + 1)) s.numUnjoined
          = pending (.creating i : MainPc n) s.numUnjoined := pending_congr _ rfl
      change threadsLeft (Function.update s.threads i _) + (n - (i.val + 1) + 5
        + pending (.creating (i.val + 1)) s.numUnjoined) + 1 ≤ rank s + 0
      rw [rank, hmain, hpending]
      simp only [Place.left, MainPc.left] at hthreads ⊢
      omega
  | count idx hmain hge =>
      change threadsLeft s.threads + (4 + pending (.creating idx) s.numUnjoined) + 1 ≤ rank s + 0
      rw [rank, hmain]
      simp only [MainPc.left]
      omega
  | join i hmain hexited =>
      have hthreads : threadsLeft (s.reaped i).threads + (s.threads i).place.left n
          = threadsLeft s.threads + (s.threads i).place.left n := threadsLeft_update _ _ _
      have hi := i.isLt
      change threadsLeft (s.reaped i).threads + (2 * (n - (i.val + 1)) + 6 + 0) + 1 ≤ rank s + 0
      rw [rank, hmain, pending_of_passing rfl]
      simp only [MainPc.left]
      -- A join is two steps, and this was the second of them.
      omega
  | spurious hmain =>
      have hwoken := left_woken s.main s.numUnjoined
      rw [if_pos hmain] at hwoken
      change threadsLeft s.threads +
        (MainPc.left (.woken : MainPc n) + pending .woken s.numUnjoined) + 1 ≤ rank s + 4
      rw [rank]
      -- A wake-up by nobody brings the main thread back behind its `wait`.
      omega
  | terminate i hplace hfree =>
      have hthreads : threadsLeft (s.terminated i).threads + (s.threads i).place.left n
          = threadsLeft s.threads + 5 := threadsLeft_update _ _ _
      have hpending := pending_le s.main (s.numUnjoined + 1)
      rw [hplace] at hthreads
      change threadsLeft (s.terminated i).threads
        + (s.main.left + pending s.main (s.numUnjoined + 1)) + 1 ≤ rank s + 0
      rw [rank]
      simp only [Place.left] at hthreads
      -- The section makes work for the main thread, and has as much put by for it.
      omega
  | broadcast i hplace =>
      have hthreads : threadsLeft (s.moved i .returning) + (s.threads i).place.left n
          = threadsLeft s.threads + 1 := threadsLeft_update _ _ _
      have hwoken := left_woken s.main s.numUnjoined
      rw [hplace] at hthreads
      simp only [Place.left] at hthreads
      change threadsLeft (s.moved i .returning)
        + (MainPc.left (if s.main = .asleep then .woken else s.main)
          + pending (if s.main = .asleep then .woken else s.main) s.numUnjoined) + 1 ≤ rank s + 0
      rw [rank]
      -- The broadcast may wake it, which the thread pays for.
      omega
  | exit i hplace =>
      have hthreads : threadsLeft (s.moved i .exited) + (s.threads i).place.left n
          = threadsLeft s.threads + 0 := threadsLeft_update _ _ _
      rw [hplace] at hthreads
      simp only [Place.left] at hthreads
      change threadsLeft (s.moved i .exited) + (s.main.left + pending s.main s.numUnjoined) + 1
        ≤ rank s + 0
      rw [rank]
      omega

end Rank

section Result

variable {s s' : State n}

/-- The counters are right whenever the mutex is free, threads are joined once
    and as late as it takes, the main thread is not left asleep, and all
    threads are joined at the end, which is not out of reach. -/
structure Reaped (s : State n) : Prop where
  counters : s.main.counted = true → s.main.holds = false →
    s.numUnjoined = tally ended s.threads ∧ s.numLive = tally unreaped s.threads
  once : ∀ i, (s.threads i).joins = if (s.threads i).state = .joined then 1 else 0
  released : ∀ i, s.main = .joining i →
    (s.threads i).place ≠ .uncreated ∧ (s.threads i).place ≠ .working
  waits : ∀ s', step s .main = some s' → s'.main = .asleep → ∃ i, (s'.threads i).state = .alive
  asleep : s.main = .asleep →
    ∃ i, (s.threads i).place = .working ∨ (s.threads i).place = .broadcasting
  finished : s.main = .finished → ∀ i, (s.threads i).state = .joined ∧ (s.threads i).joins = 1
  goesOn : s.main ≠ .finished → ∃ e s', e ≠ .spurious ∧ step s e = some s'

/-- The main thread falls asleep where it has tested the counter. -/
theorem sleep_of_step (hstep : step s .main = some s') (hasleep : s'.main = .asleep) :
    s.main = .checking ∧ s.numUnjoined = 0 ∧ s'.threads = s.threads := by
  cases step_move hstep with
  | goes pc hgo =>
      change pc = .asleep at hasleep
      subst hasleep
      cases hgo with
      | sleep hmain hnone => exact ⟨hmain, hnone, rfl⟩
  | create | count | join => cases hasleep

theorem reaped_of_sound (h : Sound s) : Reaped s where
  counters := fun hcounted _ => ⟨h.unjoined, h.live hcounted⟩
  once := fun i => (h.coherent i).joins
  released := fun i hmain => place_of_terminated h (h.joining i hmain)
  waits := by
    intro s' hstep hasleep
    -- It has tested the counter under the mutex before it sleeps.
    rcases sleep_of_step hstep hasleep with ⟨hmain, hnone, hthreads⟩
    rcases exists_alive h (by rw [hmain]; rfl) (h.entered (by rw [hmain]; rfl)) hnone with
      ⟨i, halive, _⟩
    rw [hthreads]
    exact ⟨i, halive⟩
  asleep := h.asleep
  finished := by
    intro hmain i
    have hlive := h.finished hmain
    rw [h.live (by rw [hmain]; rfl)] at hlive
    -- With the counter at zero there is nobody who is not joined.
    have hnone : tally unreaped s.threads = 0 := by omega
    have hjoined := of_decide_eq_false (tally_eq_zero.mp hnone i)
    rw [not_not] at hjoined
    exact ⟨hjoined, by rw [(h.coherent i).joins, if_pos hjoined]⟩
  goesOn := exists_step h

theorem rank_init (n : Nat) : rank (init n) = n * (2 * n + 11) + (n + 5) := by
  have hthreads : threadsLeft (init n).threads = n * (2 * n + 11) := by
    rw [threadsLeft]
    exact (Finset.sum_const _).trans (by rw [Finset.card_univ, Fintype.card_fin, smul_eq_mul])
  have hpending : pending (init n).main (init n).numUnjoined = 0 := pending_of_none _
  rw [rank, hthreads, hpending]
  rfl

/-- In every run the threads are reaped, and but for wake-ups by nobody the run
    is over after so many steps. -/
theorem reaped_run {es : List (Event n)} (hrun : exec step (init n) es = some s) :
    Reaped s ∧ es.length ≤ n * (2 * n + 11) + (n + 5) + 4 * es.count .spurious := by
  constructor
  · exact reaped_of_sound (exec_invariant (fun _ _ _ => sound_step) sound_init hrun)
  · have hlength := exec_length_le_add (fun _ _ _ => sound_step) (fun _ _ _ => rank_lt) sound_init
      hrun
    rw [rank_init] at hlength
    exact Nat.le_trans (Nat.le_add_left _ _) hlength

/-- Two threads. One has ended before the main thread counts, and the other one
    ends while the main thread waits. -/
def twoThreadsRun : List (Event 2) :=
  let early : Fin 2 := ⟨0, Nat.two_pos⟩
  let late : Fin 2 := ⟨1, Nat.one_lt_two⟩
  [.main, .main, .main, .thread early, .thread early, .thread early] ++
    List.replicate 11 .main ++ [.thread late, .thread late, .thread late] ++
    List.replicate 8 .main

theorem reaped_two_threads :
    (exec step (init 2) (twoThreadsRun.take 17)).any (fun s => decide (s.main = .asleep)) = true ∧
      ∃ s, exec step (init 2) twoThreadsRun = some s ∧ s.main = .finished ∧ Reaped s ∧
        twoThreadsRun.length
          ≤ 2 * (2 * 2 + 11) + (2 + 5) + 4 * twoThreadsRun.count .spurious := by
  have hend : (exec step (init 2) twoThreadsRun).any (fun s =>
      decide (s.main = .finished)) = true := by
    decide +kernel
  rcases exists_of_exec_any hend with ⟨s, hrun, hs⟩
  exact ⟨by decide +kernel, s, hrun, of_decide_eq_true hs, reaped_run hrun⟩

end Result

end Mutex

end OsLabs
