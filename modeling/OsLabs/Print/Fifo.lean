import OsLabs.Print.Queue

/-!
# First In, First Out

The ring is right because three sums never change. What `sem_mutex` holds
and the processes in a critical section add up to one. What `sem_empty`
holds, the users that took a place and have not filled it, the jobs in the
ring, and the printers that took a job out and have not given its place back
add up to `QUEUE_SIZE`. And what `sem_full` holds, the users that put a job
in and have not said so, and the printers that took one from the semaphore
and not yet from the ring add up to the jobs in the ring.

The first sum makes the two statements of a critical section one, so that an
index lags behind its log only while its process is between them. The other
two keep the users from running into the printers, however often both have
gone around.

## Main definitions

* `Counts`: The three sums.
* `Ring`: The indices, the slots and the order.
* `Fifo`: What the queue is for.
* `Start`, `Emptied`: How a run begins.

## Theorems

* `counts_start`, `ring_start`: The invariant holds in the beginning.
* `counts_step`, `ring_step`: Every step keeps the invariant.
* `fifo`: The queue is first in, first out in every state.
-/

namespace OsLabs

namespace Print

open Machine

variable {U P : Nat}

/-- Between `sem_wait(sem_mutex)` and `sem_post(sem_mutex)`. -/
def UserPc.isCritical : UserPc → Bool
  | .copy _ | .advance | .postMutex => true
  | _ => false

/-- Has a place in the ring that it has not filled. -/
def UserPc.hasPlace : UserPc → Bool
  | .waitMutex _ | .copy _ => true
  | _ => false

/-- Has copied its job and not moved the index. -/
def UserPc.isAdvancing : UserPc → Bool
  | .advance => true
  | _ => false

/-- Has copied its job and not posted `sem_full`. -/
def UserPc.owesFull : UserPc → Bool
  | .advance | .postMutex | .postFull => true
  | _ => false

/-- Between `sem_wait(sem_mutex)` and `sem_post(sem_mutex)`. -/
def PrinterPc.isCritical : PrinterPc → Bool
  | .copy | .advance | .postMutex => true
  | _ => false

/-- Is promised a job that it has not copied. -/
def PrinterPc.hasPromise : PrinterPc → Bool
  | .waitMutex | .copy => true
  | _ => false

/-- Has copied a job and not moved the index. -/
def PrinterPc.isAdvancing : PrinterPc → Bool
  | .advance => true
  | _ => false

/-- Has copied a job and not posted `sem_empty`. -/
def PrinterPc.owesEmpty : PrinterPc → Bool
  | .advance | .postMutex | .postEmpty => true
  | _ => false

namespace State

/-- How many processes are in a critical section. -/
def inside (s : State U P) : Nat :=
  tally UserPc.isCritical s.user + tally PrinterPc.isCritical s.printer

end State

/-- The three sums. -/
structure Counts (s : State U P) : Prop where
  mutex : s.semMutex + s.inside = 1
  places : s.semEmpty + tally UserPc.hasPlace s.user + tally PrinterPc.owesEmpty s.printer +
    s.enqueued.length = queueSize + s.dequeued.length
  promises : s.semFull + tally UserPc.owesFull s.user + tally PrinterPc.hasPromise s.printer +
    s.dequeued.length = s.enqueued.length

/-- The indices follow the logs, and the jobs in the ring are where they were
    put. -/
structure Ring (s : State U P) : Prop where
  tail : s.tail < queueSize ∧
    (s.tail + tally UserPc.isAdvancing s.user) % queueSize = s.enqueued.length % queueSize
  head : s.head < queueSize ∧
    (s.head + tally PrinterPc.isAdvancing s.printer) % queueSize = s.dequeued.length % queueSize
  kept : Kept queueSize s.jobs s.enqueued s.dequeued.length
  order : s.dequeued = s.enqueued.take s.dequeued.length

/-- What the queue is for. -/
structure Fifo (s : State U P) : Prop where
  /-- One process at a time. -/
  exclusive : s.inside ≤ 1
  indices : s.head < queueSize ∧ s.tail < queueSize
  bounded : s.dequeued.length ≤ s.enqueued.length ∧
    s.enqueued.length ≤ s.dequeued.length + queueSize
  /-- A user about to copy has a slot whose job, if any, is gone. -/
  spared : ∀ u job, s.user u = .copy job → ∀ i, s.dequeued.length ≤ i → i < s.enqueued.length →
    i % queueSize ≠ s.tail
  /-- What was not taken out yet is still there. -/
  kept : Kept queueSize s.jobs s.enqueued s.dequeued.length
  order : s.dequeued <+: s.enqueued

/-- The processes are where they begin, and nothing has happened yet. -/
structure Start (s : State U P) : Prop where
  users : ∀ u, s.user u = .idle
  printers : ∀ p, s.printer p = .waitFull
  enqueued : s.enqueued = []
  dequeued : s.dequeued = []
  head : s.head = 0
  tail : s.tail = 0

/-- The semaphores say that nobody is inside and the ring is empty. -/
structure Emptied (s : State U P) : Prop where
  mutex : s.semMutex = 1
  full : s.semFull = 0
  empty : s.semEmpty = queueSize

theorem Start.user_eq_zero {s : State U P} (h : Start s) {p : UserPc → Bool}
    (hp : p .idle = false) : tally p s.user = 0 :=
  tally_const_false (fun u => by rw [h.users u, hp])

theorem Start.printer_eq_zero {s : State U P} (h : Start s) {p : PrinterPc → Bool}
    (hp : p .waitFull = false) : tally p s.printer = 0 :=
  tally_const_false (fun j => by rw [h.printers j, hp])

theorem counts_start {s : State U P} (h : Start s) (hsems : Emptied s) : Counts s := by
  have hmutex := hsems.mutex
  have hfull := hsems.full
  have hempty := hsems.empty
  refine ⟨?_, ?_, ?_⟩
  · rw [State.inside, h.user_eq_zero rfl, h.printer_eq_zero rfl]
    omega
  · rw [h.user_eq_zero rfl, h.printer_eq_zero rfl, h.enqueued, h.dequeued]
    omega
  · rw [h.user_eq_zero rfl, h.printer_eq_zero rfl, h.enqueued, h.dequeued]
    omega

/-- What is left in the slots does not matter. -/
theorem ring_start {s : State U P} (h : Start s) : Ring s where
  tail := by
    rw [h.user_eq_zero rfl, h.tail, h.enqueued]
    exact ⟨Nat.succ_pos 6, rfl⟩
  head := by
    rw [h.printer_eq_zero rfl, h.head, h.dequeued]
    exact ⟨Nat.succ_pos 6, rfl⟩
  kept := by
    rw [h.enqueued]
    exact kept_nil _ _ _
  order := by
    rw [h.dequeued]
    rfl

theorem start_fresh : Start (fresh U P) := ⟨fun _ => rfl, fun _ => rfl, rfl, rfl, rfl, rfl⟩

theorem emptied_fresh : Emptied (fresh U P) := ⟨rfl, rfl, rfl⟩

/-- A user that moves keeps the sums if what it brings about in the
    semaphores and the logs is what it takes or leaves itself. -/
theorem counts_setUser {s t : State U P} {u : Fin U} {pc : UserPc} (h : Counts s)
    (huser : t.user = s.user) (hprinter : t.printer = s.printer) (hdeq : t.dequeued = s.dequeued)
    (hmutex : t.semMutex + pc.isCritical.toNat = s.semMutex + (s.user u).isCritical.toNat)
    (hplaces : t.semEmpty + pc.hasPlace.toNat + t.enqueued.length
      = s.semEmpty + (s.user u).hasPlace.toNat + s.enqueued.length)
    (hpromises : t.semFull + pc.owesFull.toNat + s.enqueued.length
      = s.semFull + (s.user u).owesFull.toNat + t.enqueued.length) : Counts (t.setUser u pc) := by
  -- The tallies move by what this user brings in and leaves.
  have hcritical := tally_move UserPc.isCritical s.user u pc
  have hplace := tally_move UserPc.hasPlace s.user u pc
  have howes := tally_move UserPc.owesFull s.user u pc
  have hmutex' := h.mutex
  have hplaces' := h.places
  have hpromises' := h.promises
  unfold State.inside at hmutex'
  refine ⟨?_, ?_, ?_⟩
  · simp only [State.setUser, State.inside, huser, hprinter]
    omega
  · simp only [State.setUser, huser, hprinter, hdeq]
    omega
  · simp only [State.setUser, huser, hprinter, hdeq]
    omega

theorem counts_setPrinter {s t : State U P} {p : Fin P} {pc : PrinterPc} (h : Counts s)
    (huser : t.user = s.user) (hprinter : t.printer = s.printer) (henq : t.enqueued = s.enqueued)
    (hmutex : t.semMutex + pc.isCritical.toNat = s.semMutex + (s.printer p).isCritical.toNat)
    (hplaces : t.semEmpty + pc.owesEmpty.toNat + s.dequeued.length
      = s.semEmpty + (s.printer p).owesEmpty.toNat + t.dequeued.length)
    (hpromises : t.semFull + pc.hasPromise.toNat + t.dequeued.length
      = s.semFull + (s.printer p).hasPromise.toNat + s.dequeued.length) :
    Counts (t.setPrinter p pc) := by
  -- The same for a printer, with the parts of `sem_full` and `sem_empty` exchanged.
  have hcritical := tally_move PrinterPc.isCritical s.printer p pc
  have hpromise := tally_move PrinterPc.hasPromise s.printer p pc
  have howes := tally_move PrinterPc.owesEmpty s.printer p pc
  have hmutex' := h.mutex
  have hplaces' := h.places
  have hpromises' := h.promises
  unfold State.inside at hmutex'
  refine ⟨?_, ?_, ?_⟩
  · simp only [State.setPrinter, State.inside, huser, hprinter]
    omega
  · simp only [State.setPrinter, huser, hprinter, henq]
    omega
  · simp only [State.setPrinter, huser, hprinter, henq]
    omega

theorem counts_user {s s' : State U P} {u : Fin U} (h : Counts s) (hturn : UserTurn s u s') :
    Counts s' := by
  cases hturn with
  | waitEmpty job v hpc hv heq =>
      rw [heq]
      refine counts_setUser h rfl rfl rfl (by rw [hpc]; rfl) ?_ (by rw [hpc]; rfl)
      -- What `sem_empty` loses the user has.
      simp only [hpc, hv, UserPc.hasPlace, Bool.toNat_true, Bool.toNat_false]
  | waitMutex job v hpc hv heq =>
      rw [heq]
      refine counts_setUser h rfl rfl rfl ?_ (by rw [hpc]; rfl) (by rw [hpc]; rfl)
      -- The mutex goes over to it.
      simp only [hpc, hv, UserPc.isCritical, Bool.toNat_true, Bool.toNat_false]
  | copy job hpc heq =>
      rw [heq]
      refine counts_setUser h rfl rfl rfl (by rw [hpc]; rfl) ?_ ?_
      -- Its place is taken by the job.
      · simp only [hpc, State.copyIn, UserPc.hasPlace, Bool.toNat_true, Bool.toNat_false,
          List.length_append, List.length_singleton]
        omega
      -- And it owes one to `sem_full` from here on.
      · simp only [hpc, State.copyIn, UserPc.owesFull, Bool.toNat_true, Bool.toNat_false,
          List.length_append, List.length_singleton]
        omega
  | advance hpc heq =>
      rw [heq]
      -- In these three the user changes places, and the semaphore pays what is owed.
      exact counts_setUser h rfl rfl rfl (by rw [hpc]; rfl) (by rw [hpc]; rfl) (by rw [hpc]; rfl)
  | postMutex hpc heq =>
      rw [heq]
      exact counts_setUser h rfl rfl rfl (by rw [hpc]; rfl) (by rw [hpc]; rfl) (by rw [hpc]; rfl)
  | postFull hpc heq =>
      rw [heq]
      exact counts_setUser h rfl rfl rfl (by rw [hpc]; rfl) (by rw [hpc]; rfl) (by rw [hpc]; rfl)

theorem counts_printer {s s' : State U P} {p : Fin P} (h : Counts s)
    (hturn : PrinterTurn s p s') : Counts s' := by
  cases hturn with
  | waitFull v hpc hv heq =>
      rw [heq]
      refine counts_setPrinter h rfl rfl rfl (by rw [hpc]; rfl) (by rw [hpc]; rfl) ?_
      -- What `sem_full` loses the printer has.
      simp only [hpc, hv, PrinterPc.hasPromise, Bool.toNat_true, Bool.toNat_false]
  | waitMutex v hpc hv heq =>
      rw [heq]
      refine counts_setPrinter h rfl rfl rfl ?_ (by rw [hpc]; rfl) (by rw [hpc]; rfl)
      simp only [hpc, hv, PrinterPc.isCritical, Bool.toNat_true, Bool.toNat_false]
  | copy hpc heq =>
      rw [heq]
      refine counts_setPrinter h rfl rfl rfl (by rw [hpc]; rfl) ?_ ?_
      -- Taking a job out makes a place that it owes to `sem_empty`.
      · simp only [hpc, State.copyOut, PrinterPc.owesEmpty, Bool.toNat_true, Bool.toNat_false,
          List.length_append, List.length_singleton]
        omega
      -- Its promise is kept.
      · simp only [hpc, State.copyOut, PrinterPc.hasPromise, Bool.toNat_true, Bool.toNat_false,
          List.length_append, List.length_singleton]
        omega
  | advance hpc heq =>
      rw [heq]
      exact counts_setPrinter h rfl rfl rfl (by rw [hpc]; rfl) (by rw [hpc]; rfl)
        (by rw [hpc]; rfl)
  | postMutex hpc heq =>
      rw [heq]
      exact counts_setPrinter h rfl rfl rfl (by rw [hpc]; rfl) (by rw [hpc]; rfl)
        (by rw [hpc]; rfl)
  | postEmpty hpc heq =>
      rw [heq]
      exact counts_setPrinter h rfl rfl rfl (by rw [hpc]; rfl) (by rw [hpc]; rfl)
        (by rw [hpc]; rfl)

theorem counts_step {s s' : State U P} {e : Event U P} (h : Counts s)
    (hstep : step s e = some s') : Counts s' := by
  cases e with
  | submit u job =>
      rcases submit_cases hstep with ⟨hpc, heq⟩
      rw [heq]
      exact counts_setUser h rfl rfl rfl (by rw [hpc]; rfl) (by rw [hpc]; rfl) (by rw [hpc]; rfl)
  | user u => exact counts_user h (userStep_cases hstep)
  | printer p => exact counts_printer h (printerStep_cases hstep)

/-- With one user in a critical section and not between its statements, the
    other index is up to date. -/
theorem user_isAdvancing_eq_zero {s : State U P} (h : Counts s) {u : Fin U}
    (hcritical : (s.user u).isCritical = true) (hnot : (s.user u).isAdvancing = false) :
    tally UserPc.isAdvancing s.user = 0 := by
  have hlt : tally UserPc.isAdvancing s.user < tally UserPc.isCritical s.user := by
    refine tally_lt (fun pc hpc => ?_) hcritical hnot
    cases pc with
    | advance => rfl
    | _ => exact absurd hpc Bool.false_ne_true
  have hmutex := h.mutex
  unfold State.inside at hmutex
  omega

theorem printer_isAdvancing_eq_zero {s : State U P} (h : Counts s) {p : Fin P}
    (hcritical : (s.printer p).isCritical = true) (hnot : (s.printer p).isAdvancing = false) :
    tally PrinterPc.isAdvancing s.printer = 0 := by
  have hlt : tally PrinterPc.isAdvancing s.printer < tally PrinterPc.isCritical s.printer := by
    refine tally_lt (fun pc hpc => ?_) hcritical hnot
    cases pc with
    | advance => rfl
    | _ => exact absurd hpc Bool.false_ne_true
  have hmutex := h.mutex
  unfold State.inside at hmutex
  omega

/-- A user about to copy writes the slot of the next job, and there is room
    for it. -/
theorem tail_of_copy {s : State U P} (hcounts : Counts s) (h : Ring s) {u : Fin U} {job : Job}
    (hpc : s.user u = .copy job) : s.tail = s.enqueued.length % queueSize ∧
      s.enqueued.length < s.dequeued.length + queueSize := by
  have hnone := user_isAdvancing_eq_zero hcounts (u := u) (by rw [hpc]; rfl) (by rw [hpc]; rfl)
  rcases h.tail with ⟨hlt, hmod⟩
  rw [hnone, Nat.add_zero, Nat.mod_eq_of_lt hlt] at hmod
  -- Its own place is one of the places that the sum leaves free.
  have hplace : 0 < tally UserPc.hasPlace s.user := tally_pos.mpr ⟨u, by rw [hpc]; rfl⟩
  have hplaces := hcounts.places
  exact ⟨hmod, by omega⟩

/-- A printer about to copy reads the slot of the oldest job, and it is
    there. -/
theorem job_of_copy {s : State U P} (hcounts : Counts s) (h : Ring s) {p : Fin P}
    (hpc : s.printer p = .copy) : s.enqueued[s.dequeued.length]? = some (s.jobs s.head) := by
  have hnone := printer_isAdvancing_eq_zero hcounts (p := p) (by rw [hpc]; rfl) (by rw [hpc]; rfl)
  rcases h.head with ⟨hlt, hmod⟩
  rw [hnone, Nat.add_zero, Nat.mod_eq_of_lt hlt] at hmod
  -- Its promise is one of those that jobs in the ring back.
  have hpromise : 0 < tally PrinterPc.hasPromise s.printer := tally_pos.mpr ⟨p, by rw [hpc]; rfl⟩
  have hpromises := hcounts.promises
  have hsome : s.dequeued.length < s.enqueued.length := by omega
  have hget := List.getElem?_eq_getElem hsome
  rw [hget, hmod, h.kept _ _ (le_refl _) hget]

/-- A process that moves outside of the two statements leaves the ring alone. -/
theorem ring_congr {s s' : State U P} (h : Ring s) (hjobs : s'.jobs = s.jobs)
    (htail : s'.tail = s.tail) (hhead : s'.head = s.head) (henq : s'.enqueued = s.enqueued)
    (hdeq : s'.dequeued = s.dequeued)
    (huser : tally UserPc.isAdvancing s'.user = tally UserPc.isAdvancing s.user)
    (hprinter : tally PrinterPc.isAdvancing s'.printer = tally PrinterPc.isAdvancing s.printer) :
    Ring s' := by
  refine ⟨?_, ?_, ?_, ?_⟩
  · rw [htail, huser, henq]
    exact h.tail
  · rw [hhead, hprinter, hdeq]
    exact h.head
  · rw [hjobs, henq, hdeq]
    exact h.kept
  · rw [hdeq, henq]
    exact h.order

theorem ring_user {s s' : State U P} {u : Fin U} (hcounts : Counts s) (h : Ring s)
    (hturn : UserTurn s u s') : Ring s' := by
  cases hturn with
  | waitEmpty job v hpc hv heq =>
      rw [heq]
      -- Only `copy` and `advance` touch the ring.
      exact ring_congr h rfl rfl rfl rfl rfl (tally_update_same (by rw [hpc]; rfl)) rfl
  | waitMutex job v hpc hv heq =>
      rw [heq]
      exact ring_congr h rfl rfl rfl rfl rfl (tally_update_same (by rw [hpc]; rfl)) rfl
  | copy job hpc heq =>
      -- The slot at `tail` is the next in turn, and the job in it is gone.
      rcases tail_of_copy hcounts h hpc with ⟨htail, hroom⟩
      have hmove := tally_move UserPc.isAdvancing s.user u .advance
      rcases h.tail with ⟨hlt, hmod⟩
      simp only [hpc, UserPc.isAdvancing, Bool.toNat_true, Bool.toNat_false] at hmove
      rw [heq]
      refine ⟨⟨hlt, ?_⟩, h.head, ?_, ?_⟩
      · simp only [State.setUser, State.copyIn, List.length_append, List.length_singleton,
          queueSize] at hmod ⊢
        omega
      · simp only [State.setUser, State.copyIn, htail]
        exact kept_write job.bytes hroom h.kept
      -- What has been taken out is a part of what was there before.
      · have hpromises := hcounts.promises
        simp only [State.setUser, State.copyIn]
        rw [List.take_append_of_le_length (by omega)]
        exact h.order
  | advance hpc heq =>
      have hmove := tally_move UserPc.isAdvancing s.user u .postMutex
      rcases h.tail with ⟨hlt, hmod⟩
      simp only [hpc, UserPc.isAdvancing, Bool.toNat_true, Bool.toNat_false] at hmove
      rw [heq]
      refine ⟨⟨Nat.mod_lt _ (Nat.succ_pos 6), ?_⟩, h.head, h.kept, h.order⟩
      -- What the tally loses the index has gained, going around or not.
      simp only [State.setUser, queueSize] at hmod ⊢
      omega
  | postMutex hpc heq =>
      rw [heq]
      exact ring_congr h rfl rfl rfl rfl rfl (tally_update_same (by rw [hpc]; rfl)) rfl
  | postFull hpc heq =>
      rw [heq]
      exact ring_congr h rfl rfl rfl rfl rfl (tally_update_same (by rw [hpc]; rfl)) rfl

theorem ring_printer {s s' : State U P} {p : Fin P} (hcounts : Counts s) (h : Ring s)
    (hturn : PrinterTurn s p s') : Ring s' := by
  cases hturn with
  | waitFull v hpc hv heq =>
      rw [heq]
      exact ring_congr h rfl rfl rfl rfl rfl rfl (tally_update_same (by rw [hpc]; rfl))
  | waitMutex v hpc hv heq =>
      rw [heq]
      exact ring_congr h rfl rfl rfl rfl rfl rfl (tally_update_same (by rw [hpc]; rfl))
  | copy hpc heq =>
      -- What is copied out is the oldest job.
      have hget := job_of_copy hcounts h hpc
      have hmove := tally_move PrinterPc.isAdvancing s.printer p .advance
      rcases h.head with ⟨hlt, hmod⟩
      simp only [hpc, PrinterPc.isAdvancing, Bool.toNat_true, Bool.toNat_false] at hmove
      have hlen : (s.dequeued ++ [s.jobs s.head]).length = s.dequeued.length + 1 := by
        rw [List.length_append, List.length_singleton]
      rw [heq]
      refine ⟨h.tail, ⟨hlt, ?_⟩, ?_, ?_⟩
      -- The index lags behind by this printer.
      · simp only [State.setPrinter, State.copyOut, hlen, queueSize] at hmod ⊢
        omega
      -- Fewer jobs are to be kept.
      · simp only [State.setPrinter, State.copyOut, hlen]
        exact kept_mono (Nat.le_succ _) h.kept
      -- The next in order is the one copied.
      · simp only [State.setPrinter, State.copyOut, hlen]
        rw [List.take_add_one, hget, ← h.order]
        rfl
  | advance hpc heq =>
      have hmove := tally_move PrinterPc.isAdvancing s.printer p .postMutex
      rcases h.head with ⟨hlt, hmod⟩
      simp only [hpc, PrinterPc.isAdvancing, Bool.toNat_true, Bool.toNat_false] at hmove
      rw [heq]
      refine ⟨h.tail, ⟨Nat.mod_lt _ (Nat.succ_pos 6), ?_⟩, h.kept, h.order⟩
      simp only [State.setPrinter, queueSize] at hmod ⊢
      omega
  | postMutex hpc heq =>
      rw [heq]
      exact ring_congr h rfl rfl rfl rfl rfl rfl (tally_update_same (by rw [hpc]; rfl))
  | postEmpty hpc heq =>
      rw [heq]
      exact ring_congr h rfl rfl rfl rfl rfl rfl (tally_update_same (by rw [hpc]; rfl))

theorem ring_step {s s' : State U P} {e : Event U P} (hcounts : Counts s) (h : Ring s)
    (hstep : step s e = some s') : Ring s' := by
  cases e with
  | submit u job =>
      rcases submit_cases hstep with ⟨hpc, heq⟩
      rw [heq]
      exact ring_congr h rfl rfl rfl rfl rfl (tally_update_same (by rw [hpc]; rfl)) rfl
  | user u => exact ring_user hcounts h (userStep_cases hstep)
  | printer p => exact ring_printer hcounts h (printerStep_cases hstep)

theorem fifo_of_ring {s : State U P} (hcounts : Counts s) (h : Ring s) : Fifo s where
  exclusive := by
    -- Everybody inside has a part in the one mutex.
    have hmutex := hcounts.mutex
    omega
  indices := ⟨h.head.1, h.tail.1⟩
  bounded := by
    have hplaces := hcounts.places
    have hpromises := hcounts.promises
    omega
  -- The slot of the new job is none of those that are still to be read.
  spared := by
    intro u job hpc i hi hlt
    rcases tail_of_copy hcounts h hpc with ⟨htail, hroom⟩
    rw [htail]
    exact mod_ne_mod_of_lt hlt (by omega)
  kept := h.kept
  order := by
    rw [h.order]
    exact List.take_prefix _ _

/-- From a fresh start, for any number of users and printers and any
    interleaving of their steps, the queue is first in, first out. -/
theorem fifo (U P : Nat) (s : State U P) (h : Reaches step (fresh U P) s) : Fifo s := by
  have hinv := reaches_invariant (I := fun s : State U P => Counts s ∧ Ring s)
    (fun _ _ _ hs hstep => ⟨counts_step hs.1 hstep, ring_step hs.1 hs.2 hstep⟩)
    ⟨counts_start start_fresh emptied_fresh, ring_start start_fresh⟩ h
  exact fifo_of_ring hinv.1 hinv.2

/-- A job of ten equal letters. -/
def plainJob : Job := ⟨List.replicate jobLength 97, rfl, fun b hb => by
  rw [(List.mem_replicate.mp hb).2]
  decide⟩

/-- A job of ten other letters. -/
def otherJob : Job := ⟨List.replicate jobLength 98, rfl, fun b hb => by
  rw [(List.mem_replicate.mp hb).2]
  decide⟩

/-- Two users put a job in, one of them while the other is about to, and a
    printer takes both out. -/
def twoJobsRun : List (Event 2 1) :=
  [.submit 0 plainJob, .user 0, .user 0, .user 0, .submit 1 otherJob, .user 1, .user 0, .user 0,
    .user 0, .printer 0, .printer 0, .printer 0, .printer 0, .printer 0, .user 1, .user 1,
    .user 1, .user 1, .user 1, .printer 0, .printer 0, .printer 0, .printer 0]

theorem fifo_after_two_jobs :
    ∃ s : State 2 1, s.dequeued = [plainJob.bytes, otherJob.bytes] ∧ Fifo s := by
  have hend : (exec step (fresh 2 1) twoJobsRun).any (fun s =>
      decide (s.dequeued = [plainJob.bytes, otherJob.bytes])) = true := by
    decide +kernel
  rcases exists_of_exec_any hend with ⟨s, hrun, hs⟩
  exact ⟨s, of_decide_eq_true hs, fifo 2 1 s ⟨twoJobsRun, hrun⟩⟩

end Print

end OsLabs
