import Unpv13e.Base.Descriptors
import Unpv13e.Base.Queue
import Unpv13e.Base.Runs

/-!
# Handing connections to threads

Library `Pool`. The main thread of `src/server/serv08.c:36–48` puts connections into a circular array,
the threads of `src/server/pthread08.c:13–33` take them out. What a thread does between locking and
unlocking `clifd_mutex`, or waiting for `clifd_cond`, is one step. `pthread_cond_signal` unblocks at
least one of the threads that wait; any of them may also be unblocked without a signal.
-/

namespace Unpv13e.Pool
open Unpv13e.Base

/-- `MAXNCLI` -/
def maxNCli : Nat := 32

namespace Prethread

/-- Where the main thread is. -/
inductive Main
  | accept
  /-- `Accept` has returned this descriptor -/
  | put (connfd : Fd)
  /-- `err_quit` -/
  | quit
  deriving DecidableEq

/-- Where a thread is. -/
inductive Worker
  /-- at `Pthread_mutex_lock` -/
  | lock
  /-- in `Pthread_cond_wait`, waiting for a signal -/
  | waiting
  /-- in `Pthread_cond_wait`, waiting for the mutex only -/
  | woken
  /-- in `web_child` -/
  | serving (connfd : Fd)
  deriving DecidableEq

end Prethread

/-- The shared variables and the threads. -/
structure Prethread (n : Nat) where
  clifd : Fin maxNCli → Fd
  iget : Fin maxNCli
  iput : Fin maxNCli
  main : Prethread.Main
  worker : Fin n → Prethread.Worker
  thread_count : Fin n → Nat
  /-- what was put in, not a variable of the code -/
  stored : List Fd
  /-- what was taken out and by whom, not a variable of the code -/
  fetched : List (Fd × Fin n)

namespace Prethread

variable {n : Nat}

/-- What happens next. -/
inductive Act (n : Nat)
  /-- `Accept` returns this descriptor -/
  | accept (connfd : Fd)
  /-- the main thread's critical section; these threads are unblocked -/
  | put (signalled : Finset (Fin n))
  /-- a thread's critical section -/
  | take (w : Fin n)
  /-- a thread is unblocked without a signal -/
  | wake (w : Fin n)
  /-- `web_child` and `Close` -/
  | done (w : Fin n)

/-- Before the first turn of the loop, `src/server/serv08.c:28–34`. -/
def start : Prethread n where
  clifd := fun _ ↦ 0
  iget := ⟨0, by decide⟩
  iput := ⟨0, by decide⟩
  main := .accept
  worker := fun _ ↦ .lock
  thread_count := fun _ ↦ 0
  stored := []
  fetched := []

/-- The threads that wait for a signal. -/
def waiters (s : Prethread n) : Finset (Fin n) := Finset.univ.filter fun w ↦ s.worker w = .waiting

/-- `src/server/serv08.c:40–47` -/
def put (s : Prethread n) (connfd : Fd) (signalled : Finset (Fin n)) : Option (Prethread n) :=
  let s := { s with
    clifd := Function.update s.clifd s.iput connfd
    iput := Queue.next s.iput
    stored := s.stored ++ [connfd] }
  if s.iput = s.iget then some { s with main := .quit }
  else if signalled ⊆ s.waiters ∧ (s.waiters.Nonempty → signalled.Nonempty) then
    some { s with
      main := .accept
      worker := fun w ↦ if w ∈ signalled then .woken else s.worker w }
  else none

/-- `src/server/pthread08.c:22–29` -/
def take (s : Prethread n) (w : Fin n) : Prethread n :=
  if s.iget = s.iput then { s with worker := Function.update s.worker w .waiting }
  else { s with
    iget := Queue.next s.iget
    worker := Function.update s.worker w (.serving (s.clifd s.iget))
    thread_count := Function.update s.thread_count w (s.thread_count w + 1)
    fetched := s.fetched ++ [(s.clifd s.iget, w)] }

/-- The next step. -/
def step (s : Prethread n) (a : Act n) : Option (Prethread n) :=
  if s.main = .quit then none
  else
    match a with
    | .accept connfd => if s.main = .accept then some { s with main := .put connfd } else none
    | .put signalled =>
      match s.main with
      | .put connfd => s.put connfd signalled
      | _ => none
    | .take w => if s.worker w = .lock ∨ s.worker w = .woken then some (s.take w) else none
    | .wake w =>
      if s.worker w = .waiting then some { s with worker := Function.update s.worker w .woken }
      else none
    | .done w =>
      match s.worker w with
      | .serving _ => some { s with worker := Function.update s.worker w .lock }
      | _ => none

/-- The step as a relation. -/
def Step (s : Prethread n) (a : Act n) (t : Prethread n) : Prop := s.step a = some t

/-! ### What a step does -/

variable {s t : Prethread n} {a : Act n}

/-- The steps that are taken. -/
inductive Does (s : Prethread n) : Prethread n → Prop
  | accept (connfd : Fd) (hmain : s.main = .accept) : Does s { s with main := .put connfd }
  | put {t : Prethread n} (connfd : Fd) (signalled : Finset (Fin n)) (hmain : s.main = .put connfd)
    (hput : s.put connfd signalled = some t) : Does s t
  | take (w : Fin n) (hmain : s.main ≠ .quit) : Does s (s.take w)
  | move (w : Fin n) (p : Worker) (hmain : s.main ≠ .quit) (hp : p ≠ .waiting) :
    Does s { s with worker := Function.update s.worker w p }

/-- Every step is one of these. -/
theorem does_of_step (h : Step s a t) : Does s t := by
  unfold Step step at h
  split at h
  · cases h
  · next hrun =>
    cases a with
    | accept connfd =>
      obtain ⟨hmain, h⟩ := Option.ite_none_right_eq_some.mp h
      cases h
      exact .accept connfd hmain
    | put signalled =>
      dsimp only at h
      split at h
      · next connfd hmain => exact .put connfd signalled hmain h
      · cases h
    | take w =>
      obtain ⟨-, h⟩ := Option.ite_none_right_eq_some.mp h
      cases h
      exact .take w hrun
    | wake w =>
      obtain ⟨-, h⟩ := Option.ite_none_right_eq_some.mp h
      cases h
      exact .move w .woken hrun (by decide)
    | done w =>
      dsimp only at h
      split at h
      · cases h
        exact .move w .lock hrun (by decide)
      · cases h

/-! ### The array and the threads -/

/-- What is in the array is what was put in and not yet taken out, and the main thread has quit if the
array is full. -/
def Stocked (s : Prethread n) : Prop :=
  ∃ q, s.stored = s.fetched.map Prod.fst ++ q ∧ Queue.Holds s.clifd s.iget s.iput q ∧
    (s.main = .quit ↔ q.length = maxNCli)

/-- While something is in the array not all threads wait for a signal. Without threads nobody waits. -/
def Attended (s : Prethread n) : Prop :=
  s.iget ≠ s.iput → (∃ w, s.worker w = .waiting) → ∃ w, s.worker w ≠ .waiting

theorem stocked_start : Stocked (start : Prethread n) :=
  ⟨[], rfl, Queue.Holds.empty _ _, iff_of_false (by intro he; cases he) (by decide)⟩

/-- A connection is put in. -/
theorem Stocked.put (h : Stocked s) {connfd : Fd} {signalled : Finset (Fin n)}
    (hmain : s.main ≠ .quit) (hput : s.put connfd signalled = some t) : Stocked t := by
  obtain ⟨q, hstored, hholds, hfull⟩ := h
  have hlt : q.length < maxNCli := lt_of_le_of_ne hholds.fits fun he ↦ hmain (hfull.mpr he)
  have hpush := hholds.push (x := connfd) hlt
  have hmeet := hpush.meet_iff
  rw [or_iff_right (by simp)] at hmeet
  have hstored' : s.stored ++ [connfd] = s.fetched.map Prod.fst ++ (q ++ [connfd]) := by
    rw [hstored, List.append_assoc]
  unfold Prethread.put at hput
  dsimp only at hput
  split at hput
  · next heq =>
    cases hput
    exact ⟨q ++ [connfd], hstored', hpush, iff_of_true rfl (hmeet.mp heq)⟩
  · next hne =>
    split at hput
    · cases hput
      refine ⟨q ++ [connfd], hstored', hpush, iff_of_false ?_ fun hlen ↦ hne (hmeet.mpr hlen)⟩
      intro he
      cases he
    · cases hput

/-- The first connection is taken out, if there is one. -/
theorem Stocked.take (h : Stocked s) (hmain : s.main ≠ .quit) (w : Fin n) : Stocked (s.take w) := by
  obtain ⟨q, hstored, hholds, hfull⟩ := h
  have hlt : q.length ≠ maxNCli := fun he ↦ hmain (hfull.mpr he)
  unfold Prethread.take
  split
  · exact ⟨q, hstored, hholds, hfull⟩
  · next hne =>
    cases q with
    | nil => exact absurd (hholds.meet_iff.mpr (.inl rfl)).symm hne
    | cons c q =>
      refine ⟨q, ?_, hholds.pop, iff_of_false hmain ?_⟩
      · dsimp only
        rw [hholds.first, hstored, List.map_append, List.append_assoc]
        rfl
      · have := hholds.fits
        rw [List.length_cons] at this
        omega

/-- One step. -/
theorem Stocked.does (h : Stocked s) (hd : Does s t) : Stocked t := by
  cases hd with
  | accept connfd hmain =>
    obtain ⟨q, hstored, hholds, hfull⟩ := h
    refine ⟨q, hstored, hholds, iff_of_false (by intro he; cases he) fun he ↦ ?_⟩
    have := hfull.mpr he
    rw [hmain] at this
    cases this
  | put connfd signalled hmain hput =>
    exact h.put (by rw [hmain]; intro he; cases he) hput
  | take w hmain => exact h.take hmain w
  | move w p hmain hp => exact h

/-- A signal reaches a thread that waits, and a thread waits only when nothing is in the array. -/
theorem Attended.does (h : Attended s) (hd : Does s t) : Attended t := by
  cases hd with
  | accept connfd hmain => exact h
  | put connfd signalled hmain hput =>
    unfold Prethread.put at hput
    dsimp only at hput
    split at hput
    · next heq =>
      cases hput
      exact fun hne ↦ absurd heq.symm hne
    · split at hput
      · next hsig =>
        cases hput
        rintro - ⟨w, hw⟩
        dsimp only at hw
        split at hw
        · cases hw
        · obtain ⟨v, hv⟩ := hsig.2 ⟨w, Finset.mem_filter.mpr ⟨Finset.mem_univ w, hw⟩⟩
          refine ⟨v, ?_⟩
          dsimp only
          rw [if_pos hv]
          decide
      · cases hput
  | take w hmain =>
    unfold take
    split
    · next heq => exact fun hne ↦ absurd heq hne
    · rintro - -
      refine ⟨w, ?_⟩
      dsimp only
      rw [Function.update_self]
      intro he
      cases he
  | move w p hmain hp =>
    rintro - -
    refine ⟨w, ?_⟩
    dsimp only
    rwa [Function.update_self]

/-- For any number of threads and any order of steps: the connections are taken out in the order they
were put in, each once, and those in between are in the array; the main thread has quit exactly when
32 are in it; and a thread that waits for a signal with a connection in the array is not alone: another
has been signalled, is at the lock or serves a client and will look at the array next. -/
theorem ring_loses_nothing (h : Run Step (start : Prethread n) s) :
    (∃ q, s.stored = s.fetched.map Prod.fst ++ q ∧
      (∀ k (hk : k < q.length), s.clifd (Queue.pos s.iget k) = q[k]) ∧
      q.length ≤ maxNCli ∧ (s.main = .quit ↔ q.length = maxNCli)) ∧
    (s.iget ≠ s.iput → (∃ w, s.worker w = .waiting) → ∃ w, s.worker w ≠ .waiting) := by
  have hinv : Stocked s ∧ Attended s := by
    refine h.preserves (I := fun s ↦ Stocked s ∧ Attended s) (fun _ _ _ hi _ hs ↦ ?_)
      ⟨stocked_start, ?_⟩
    · exact ⟨hi.1.does (does_of_step hs), hi.2.does (does_of_step hs)⟩
    · exact fun hne ↦ absurd rfl hne
  obtain ⟨⟨q, hstored, hholds, hfull⟩, hattended⟩ := hinv
  exact ⟨⟨q, hstored, hholds.entry, hholds.fits, hfull⟩, hattended⟩

/-- A thread that has waited takes the only connection. -/
theorem ring_loses_nothing_once : ∃ s : Prethread 1, s.fetched = [(7, 0)] ∧
    ∃ q, s.stored = s.fetched.map Prod.fst ++ q := by
  let acts : List (Act 1) := [.take 0, .accept 7, .put {0}, .take 0]
  have hrun : (playActs step start acts).map (fun s ↦ decide (s.fetched = [(7, 0)])) = some true := by
    decide +kernel
  obtain ⟨s, hs, hend⟩ := Option.map_eq_some_iff.mp hrun
  obtain ⟨q, hq, -⟩ := (ring_loses_nothing (run_of_playActs hs)).1
  exact ⟨s, of_decide_eq_true hend, q, hq⟩

end Prethread
end Unpv13e.Pool
