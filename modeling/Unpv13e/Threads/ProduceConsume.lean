import Unpv13e.Base.Queue
import Unpv13e.Base.Runs

/-!
# A producer and a consumer

Library `Threads`. The two threads of `src/threads/example03.c` with a circular buffer between them, a mutex
and two condition variables. `pthread_cond_wait` may also return without a signal. What is produced is consumed
once and in order, and no thread sleeps through a signal it needs.
-/

namespace Unpv13e.Threads.ProduceConsume
open Unpv13e.Base

/-- `NLOOP` -/
def nloop : Nat := 50

/-- `BUFFSIZE` -/
def buffsize : Nat := 10

instance : NeZero buffsize := ⟨by decide⟩

/-- The two threads that `main` creates. -/
inductive Tid
  | produce
  | consume
  deriving DecidableEq

/-- Where a thread is in the body of its loop. -/
inductive Pc
  /-- at `Pthread_mutex_lock`, or returned -/
  | top
  /-- at the `while` -/
  | test
  /-- in `Pthread_cond_wait`, without the mutex -/
  | asleep
  /-- in `Pthread_cond_wait`, to lock the mutex again -/
  | woken
  /-- behind `printf` in `produce`, behind the first assignment to `val` in `consume` -/
  | work (val : Nat)
  /-- at `++bptr->b_nextput` and `++bptr->b_nextget` -/
  | advance
  /-- at `b_nitems++` and `b_nitems--` -/
  | count
  /-- at `Pthread_cond_signal` -/
  | signal
  /-- at `Pthread_mutex_unlock` -/
  | unlock
  deriving DecidableEq

/-- `i`, and where the thread is. -/
structure Thread where
  i : Nat
  pc : Pc
  deriving DecidableEq

/-- `buf_t`, the threads, and what has been printed. -/
structure State (n : Nat) where
  b_buf : Fin n → Nat
  b_nitems : Int
  b_nextget : Fin n
  b_nextput : Fin n
  b_mutex : Option Tid
  producer : Thread
  consumer : Thread
  out : List (Tid × Nat)

variable {n N : Nat}

/-- Before the threads run. -/
def start (n : Nat) [NeZero n] : State n := ⟨fun _ ↦ 0, 0, 0, 0, none, ⟨0, .top⟩, ⟨0, .top⟩, []⟩

/-- A thread that waits for a condition variable is signalled, `Pthread_cond_signal`. -/
def Thread.wake (th : Thread) : Thread := if th.pc = .asleep then { th with pc := .woken } else th

/-- What `produce_loop` does next, lines 62–80 and 106–117, with `N` for `NLOOP` and `n` for `BUFFSIZE`. -/
def produce (N : Nat) (s : State n) : Option (State n) :=
  let i := s.producer.i
  match s.producer.pc with
  | .top =>
    if i < N ∧ s.b_mutex = none then some { s with producer := ⟨i, .test⟩, b_mutex := some .produce }
    else none
  | .test =>
    if s.b_nitems ≥ n then some { s with producer := ⟨i, .asleep⟩, b_mutex := none }
    else some { s with producer := ⟨i, .work i⟩, out := s.out ++ [(.produce, i)] }
  | .asleep => none
  | .woken =>
    if s.b_mutex = none then some { s with producer := ⟨i, .test⟩, b_mutex := some .produce } else none
  | .work val =>
    some { s with producer := ⟨i, .advance⟩, b_buf := Function.update s.b_buf s.b_nextput val }
  | .advance => some { s with producer := ⟨i, .count⟩, b_nextput := Queue.next s.b_nextput }
  | .count => some { s with producer := ⟨i, .signal⟩, b_nitems := s.b_nitems + 1 }
  | .signal => some { s with producer := ⟨i, .unlock⟩, consumer := s.consumer.wake }
  | .unlock => some { s with producer := ⟨i + 1, .top⟩, b_mutex := none }

/-- What `consume_loop` does next, lines 82–104 and 119–130. -/
def consume (N : Nat) (s : State n) : Option (State n) :=
  let i := s.consumer.i
  match s.consumer.pc with
  | .top =>
    if i < N ∧ s.b_mutex = none then some { s with consumer := ⟨i, .test⟩, b_mutex := some .consume }
    else none
  | .test =>
    if s.b_nitems ≤ 0 then some { s with consumer := ⟨i, .asleep⟩, b_mutex := none }
    else some { s with consumer := ⟨i, .work (s.b_buf s.b_nextget)⟩ }
  | .asleep => none
  | .woken =>
    if s.b_mutex = none then some { s with consumer := ⟨i, .test⟩, b_mutex := some .consume } else none
  | .work val => some { s with consumer := ⟨i, .advance⟩, out := s.out ++ [(.consume, val)] }
  | .advance => some { s with consumer := ⟨i, .count⟩, b_nextget := Queue.next s.b_nextget }
  | .count => some { s with consumer := ⟨i, .signal⟩, b_nitems := s.b_nitems - 1 }
  | .signal => some { s with consumer := ⟨i, .unlock⟩, producer := s.producer.wake }
  | .unlock => some { s with consumer := ⟨i + 1, .top⟩, b_mutex := none }

/-- What happens next. -/
inductive Act
  | run (t : Tid)
  /-- `pthread_cond_wait` returns without a signal -/
  | spurious (t : Tid)

/-- The next step of a thread; none also where it waits. -/
def run (N : Nat) (s : State n) : Tid → Option (State n)
  | .produce => produce N s
  | .consume => consume N s

/-- The next step. -/
def step (N : Nat) (s : State n) : Act → Option (State n)
  | .run t => run N s t
  | .spurious .produce => some { s with producer := s.producer.wake }
  | .spurious .consume => some { s with consumer := s.consumer.wake }

/-- The step as a relation. -/
def Steps (N : Nat) (s : State n) (a : Act) (t : State n) : Prop := step N s a = some t

/-- Both threads have returned. -/
def State.Complete (N : Nat) (s : State n) : Prop := s.producer = ⟨N, .top⟩ ∧ s.consumer = ⟨N, .top⟩

/-- What a thread has printed. -/
def State.printed (s : State n) (t : Tid) : List Nat :=
  s.out.filterMap fun e ↦ if e.1 = t then some e.2 else none

/-! ### What a step does -/

variable {s t : State n} {a : Act}

/-- The steps of the producer. -/
inductive Produces (N : Nat) (s : State n) : State n → Prop
  | lock : (s.producer.pc = .top → s.producer.i < N) → s.producer.pc = .top ∨ s.producer.pc = .woken →
      s.b_mutex = none →
      Produces N s { s with producer := ⟨s.producer.i, .test⟩, b_mutex := some .produce }
  | full : s.producer.pc = .test → s.b_nitems ≥ n →
      Produces N s { s with producer := ⟨s.producer.i, .asleep⟩, b_mutex := none }
  | print : s.producer.pc = .test → s.b_nitems < n →
      Produces N s { s with
        producer := ⟨s.producer.i, .work s.producer.i⟩, out := s.out ++ [(.produce, s.producer.i)] }
  | put (val : Nat) : s.producer.pc = .work val →
      Produces N s { s with
        producer := ⟨s.producer.i, .advance⟩, b_buf := Function.update s.b_buf s.b_nextput val }
  | advance : s.producer.pc = .advance →
      Produces N s { s with producer := ⟨s.producer.i, .count⟩, b_nextput := Queue.next s.b_nextput }
  | count : s.producer.pc = .count →
      Produces N s { s with producer := ⟨s.producer.i, .signal⟩, b_nitems := s.b_nitems + 1 }
  | signal : s.producer.pc = .signal →
      Produces N s { s with producer := ⟨s.producer.i, .unlock⟩, consumer := s.consumer.wake }
  | unlock : s.producer.pc = .unlock →
      Produces N s { s with producer := ⟨s.producer.i + 1, .top⟩, b_mutex := none }

/-- The steps of the consumer. -/
inductive Consumes (N : Nat) (s : State n) : State n → Prop
  | lock : (s.consumer.pc = .top → s.consumer.i < N) → s.consumer.pc = .top ∨ s.consumer.pc = .woken →
      s.b_mutex = none →
      Consumes N s { s with consumer := ⟨s.consumer.i, .test⟩, b_mutex := some .consume }
  | empty : s.consumer.pc = .test → s.b_nitems ≤ 0 →
      Consumes N s { s with consumer := ⟨s.consumer.i, .asleep⟩, b_mutex := none }
  | get : s.consumer.pc = .test → 0 < s.b_nitems →
      Consumes N s { s with consumer := ⟨s.consumer.i, .work (s.b_buf s.b_nextget)⟩ }
  | print (val : Nat) : s.consumer.pc = .work val →
      Consumes N s { s with consumer := ⟨s.consumer.i, .advance⟩, out := s.out ++ [(.consume, val)] }
  | advance : s.consumer.pc = .advance →
      Consumes N s { s with consumer := ⟨s.consumer.i, .count⟩, b_nextget := Queue.next s.b_nextget }
  | count : s.consumer.pc = .count →
      Consumes N s { s with consumer := ⟨s.consumer.i, .signal⟩, b_nitems := s.b_nitems - 1 }
  | signal : s.consumer.pc = .signal →
      Consumes N s { s with consumer := ⟨s.consumer.i, .unlock⟩, producer := s.producer.wake }
  | unlock : s.consumer.pc = .unlock →
      Consumes N s { s with consumer := ⟨s.consumer.i + 1, .top⟩, b_mutex := none }

theorem produces_of_produce (h : produce N s = some t) : Produces N s t := by
  unfold produce at h
  cases hpc : s.producer.pc with
  | top =>
    rw [hpc] at h
    obtain ⟨⟨hi, hmutex⟩, h⟩ := Option.ite_none_right_eq_some.mp h
    cases h
    exact .lock (fun _ ↦ hi) (.inl hpc) hmutex
  | test =>
    rw [hpc] at h
    dsimp only at h
    split at h
    · next hfull =>
      cases h
      exact .full hpc hfull
    · next hroom =>
      cases h
      exact .print hpc (not_le.mp hroom)
  | asleep =>
    rw [hpc] at h
    cases h
  | woken =>
    rw [hpc] at h
    obtain ⟨hmutex, h⟩ := Option.ite_none_right_eq_some.mp h
    cases h
    exact .lock (fun htop ↦ by rw [hpc] at htop; cases htop) (.inr hpc) hmutex
  | work val =>
    rw [hpc] at h
    cases h
    exact .put val hpc
  | advance =>
    rw [hpc] at h
    cases h
    exact .advance hpc
  | count =>
    rw [hpc] at h
    cases h
    exact .count hpc
  | signal =>
    rw [hpc] at h
    cases h
    exact .signal hpc
  | unlock =>
    rw [hpc] at h
    cases h
    exact .unlock hpc

theorem consumes_of_consume (h : consume N s = some t) : Consumes N s t := by
  unfold consume at h
  cases hpc : s.consumer.pc with
  | top =>
    rw [hpc] at h
    obtain ⟨⟨hi, hmutex⟩, h⟩ := Option.ite_none_right_eq_some.mp h
    cases h
    exact .lock (fun _ ↦ hi) (.inl hpc) hmutex
  | test =>
    rw [hpc] at h
    dsimp only at h
    split at h
    · next hempty =>
      cases h
      exact .empty hpc hempty
    · next hsome =>
      cases h
      exact .get hpc (not_le.mp hsome)
  | asleep =>
    rw [hpc] at h
    cases h
  | woken =>
    rw [hpc] at h
    obtain ⟨hmutex, h⟩ := Option.ite_none_right_eq_some.mp h
    cases h
    exact .lock (fun htop ↦ by rw [hpc] at htop; cases htop) (.inr hpc) hmutex
  | work val =>
    rw [hpc] at h
    cases h
    exact .print val hpc
  | advance =>
    rw [hpc] at h
    cases h
    exact .advance hpc
  | count =>
    rw [hpc] at h
    cases h
    exact .count hpc
  | signal =>
    rw [hpc] at h
    cases h
    exact .signal hpc
  | unlock =>
    rw [hpc] at h
    cases h
    exact .unlock hpc

/-! ### What the mutex keeps -/

/-- The thread has locked the mutex. -/
def Pc.inside : Pc → Bool
  | .top => false
  | .asleep => false
  | .woken => false
  | _ => true

/-- The index has been moved in this round. -/
def Pc.moved : Pc → Nat
  | .count => 1
  | .signal => 1
  | .unlock => 1
  | _ => 0

/-- The index has been moved, and `b_nitems` has not been changed. -/
def Pc.due : Pc → Nat
  | .count => 1
  | _ => 0

/-- The producer has printed in this round. -/
def Pc.said : Pc → Nat
  | .work _ => 1
  | .advance => 1
  | pc => pc.moved

/-- The consumer has printed in this round. -/
def Pc.told : Pc → Nat
  | .advance => 1
  | pc => pc.moved

/-- How many values have been put into the buffer. -/
def State.stored (s : State n) : Nat := s.producer.i + s.producer.pc.moved

/-- How many have been taken from it. -/
def State.taken (s : State n) : Nat := s.consumer.i + s.consumer.pc.moved

/-- The mutex and the sleepers. -/
structure Exclusive (N : Nat) (s : State n) : Prop where
  producer : s.producer.pc.inside = true ↔ s.b_mutex = some .produce
  consumer : s.consumer.pc.inside = true ↔ s.b_mutex = some .consume
  producerRounds : s.producer.i ≤ N ∧ (s.producer.pc ≠ .top → s.producer.i < N)
  consumerRounds : s.consumer.i ≤ N ∧ (s.consumer.pc ≠ .top → s.consumer.i < N)

theorem Exclusive.produces (h : Exclusive N s) (hs : Produces N s t) : Exclusive N t := by
  obtain ⟨hp, hc, hpi, hci⟩ := h
  cases hs <;> constructor <;> grind [Pc.inside, Thread.wake]

theorem Exclusive.consumes (h : Exclusive N s) (hs : Consumes N s t) : Exclusive N t := by
  obtain ⟨hp, hc, hpi, hci⟩ := h
  cases hs <;> constructor <;> grind [Pc.inside, Thread.wake]

theorem due_of_outside {pc : Pc} (h : pc.inside = false) : pc.due = 0 := by
  cases pc <;> first | rfl | cases h

/-- While one thread has the mutex, the other has changed `b_nitems`. -/
theorem Exclusive.consumer_due (h : Exclusive N s) (hp : s.producer.pc.inside = true) : s.consumer.pc.due = 0 := by
  refine due_of_outside (Bool.eq_false_iff.mpr ?_)
  rw [ne_eq, h.consumer, h.producer.mp hp]
  decide

theorem Exclusive.producer_due (h : Exclusive N s) (hc : s.consumer.pc.inside = true) : s.producer.pc.due = 0 := by
  refine due_of_outside (Bool.eq_false_iff.mpr ?_)
  rw [ne_eq, h.producer, h.consumer.mp hc]
  decide

/-- `b_nitems`, and why a thread sleeps: the buffer is full or empty, or the other is about to signal. -/
structure Counts (s : State n) : Prop where
  le : s.taken ≤ s.stored
  nitems : s.b_nitems + s.producer.pc.due = (s.stored : Int) - s.taken + s.consumer.pc.due
  roomWork : ∀ val, s.producer.pc = .work val → s.stored - s.taken < n
  room : s.producer.pc = .advance → s.stored - s.taken < n
  someWork : ∀ val, s.consumer.pc = .work val → s.taken < s.stored
  some : s.consumer.pc = .advance → s.taken < s.stored
  producerAsleep : s.producer.pc = .asleep → (n : Int) ≤ s.b_nitems ∨ s.consumer.pc = .signal
  consumerAsleep : s.consumer.pc = .asleep → s.b_nitems ≤ 0 ∨ s.producer.pc = .signal

theorem Counts.produces (h : Counts s) (he : Exclusive N s) (hs : Produces N s t) : Counts t := by
  obtain ⟨hp, hc, -, -⟩ := he
  obtain ⟨hle, hn, hroomWork, hroom, hsomeWork, hsome, hpa, hca⟩ := h
  cases hs <;> constructor <;>
    grind [State.stored, State.taken, Pc.moved, Pc.due, Thread.wake, Pc.inside]

theorem Counts.consumes (h : Counts s) (he : Exclusive N s) (hs : Consumes N s t) : Counts t := by
  obtain ⟨hp, hc, -, -⟩ := he
  obtain ⟨hle, hn, hroomWork, hroom, hsomeWork, hsome, hpa, hca⟩ := h
  cases hs <;> constructor <;>
    grind [State.stored, State.taken, Pc.moved, Pc.due, Thread.wake, Pc.inside]

/-- The buffer holds the values that have been stored and not taken. -/
def Queued (s : State n) (taken stored : Nat) : Prop :=
  Queue.Holds s.b_buf s.b_nextget s.b_nextput (List.range' taken (stored - taken))

/-- What is in the buffer, in the hands of the threads, and printed. -/
structure Kept (N : Nat) (s : State n) : Prop where
  exclusive : Exclusive N s
  counts : Counts s
  queue : Queued s s.taken s.stored
  bounds : 0 ≤ s.b_nitems ∧ s.b_nitems ≤ n
  work : ∀ val, s.producer.pc = .work val → val = s.producer.i
  written : s.producer.pc = .advance → s.b_buf s.b_nextput = s.producer.i
  read : ∀ val, s.consumer.pc = .work val → val = s.consumer.i
  produced : s.printed .produce = List.range (s.producer.i + s.producer.pc.said)
  consumed : s.printed .consume = List.range (s.consumer.i + s.consumer.pc.told)

theorem kept_start [NeZero n] : Kept N (start n) := by
  refine ⟨⟨?_, ?_, ?_, ?_⟩, ⟨le_refl 0, rfl, ?_, ?_, ?_, ?_, ?_, ?_⟩, Queue.Holds.empty _ _, ?_, ?_, ?_, ?_, rfl,
    rfl⟩ <;>
    simp [start, Pc.inside]

theorem printed_concat (s : State n) (u t : Tid) (val : Nat) :
    (s.out ++ [(u, val)]).filterMap (fun e ↦ if e.1 = t then some e.2 else none) =
      s.printed t ++ if u = t then [val] else [] := by
  by_cases h : u = t <;> simp [State.printed, h]

@[simp] theorem wake_i (th : Thread) : th.wake.i = th.i := by
  unfold Thread.wake
  split <;> rfl

theorem wake_pc (th : Thread) : th.wake.pc = th.pc ∨ th.pc = .asleep ∧ th.wake.pc = .woken := by
  unfold Thread.wake
  split
  · next h => exact .inr ⟨h, rfl⟩
  · exact .inl rfl

/-- A signal moves no index and prints nothing. -/
theorem wake_said (th : Thread) : th.wake.pc.said = th.pc.said := by
  rcases wake_pc th with h | ⟨h, h'⟩
  · rw [h]
  · rw [h, h']
    rfl

theorem wake_told (th : Thread) : th.wake.pc.told = th.pc.told := by
  rcases wake_pc th with h | ⟨h, h'⟩
  · rw [h]
  · rw [h, h']
    rfl

theorem wake_moved (th : Thread) : th.wake.pc.moved = th.pc.moved := by
  rcases wake_pc th with h | ⟨h, h'⟩
  · rw [h]
  · rw [h, h']
    rfl

theorem taken_wake (s : State n) : s.consumer.wake.i + s.consumer.wake.pc.moved = s.taken := by
  rw [wake_i, wake_moved]
  rfl

theorem stored_wake (s : State n) : s.producer.wake.i + s.producer.wake.pc.moved = s.stored := by
  rw [wake_i, wake_moved]
  rfl

theorem Kept.queue_produces (h : Kept N s) (hs : Produces N s t) : Queued t t.taken t.stored := by
  have hle := h.counts.le
  have hqueue := h.queue
  have hlen : (List.range' s.taken (s.stored - s.taken)).length = s.stored - s.taken := List.length_range'
  cases hs with
  | lock hi hpc hmutex =>
    have hstored : s.stored = s.producer.i := by rcases hpc with hpc | hpc <;> simp [State.stored, hpc, Pc.moved]
    rw [hstored] at hqueue
    exact hqueue
  | put val hpc =>
    have hstored : s.stored = s.producer.i := by simp [State.stored, hpc, Pc.moved]
    have hroom := h.counts.roomWork val hpc
    have hwrite := Queue.Holds.write (x := val) hqueue (by rwa [hlen])
    rw [hstored] at hwrite
    exact hwrite
  | advance hpc =>
    have hstored : s.stored = s.producer.i := by simp [State.stored, hpc, Pc.moved]
    have hroom := h.counts.room hpc
    have hgrow := Queue.Holds.grow hqueue (by rwa [hlen])
    have hsub : s.producer.i + 1 - s.taken = s.stored - s.taken + 1 := by omega
    have hlast : s.taken + 1 * (s.stored - s.taken) = s.producer.i := by omega
    change Queue.Holds s.b_buf s.b_nextget (Queue.next s.b_nextput)
      (List.range' s.taken (s.producer.i + 1 - s.taken))
    rwa [hsub, List.range'_concat, hlast, ← h.written hpc]
  | signal hpc =>
    have hstored : s.stored = s.producer.i + 1 := by simp [State.stored, hpc, Pc.moved]
    change Queue.Holds s.b_buf s.b_nextget s.b_nextput
      (List.range' (s.consumer.wake.i + s.consumer.wake.pc.moved)
        (s.producer.i + 1 - (s.consumer.wake.i + s.consumer.wake.pc.moved)))
    rw [taken_wake, ← hstored]
    exact hqueue
  | full hpc hfull =>
    have hstored : s.stored = s.producer.i := by simp [State.stored, hpc, Pc.moved]
    rw [hstored] at hqueue
    exact hqueue
  | print hpc hroom =>
    have hstored : s.stored = s.producer.i := by simp [State.stored, hpc, Pc.moved]
    rw [hstored] at hqueue
    exact hqueue
  | count hpc =>
    have hstored : s.stored = s.producer.i + 1 := by simp [State.stored, hpc, Pc.moved]
    rw [hstored] at hqueue
    exact hqueue
  | unlock hpc =>
    have hstored : s.stored = s.producer.i + 1 := by simp [State.stored, hpc, Pc.moved]
    rw [hstored] at hqueue
    exact hqueue

theorem Kept.queue_consumes (h : Kept N s) (hs : Consumes N s t) : Queued t t.taken t.stored := by
  have hqueue := h.queue
  cases hs with
  | lock hi hpc hmutex =>
    have htaken : s.taken = s.consumer.i := by rcases hpc with hpc | hpc <;> simp [State.taken, hpc, Pc.moved]
    rw [htaken] at hqueue
    exact hqueue
  | advance hpc =>
    have htaken : s.taken = s.consumer.i := by simp [State.taken, hpc, Pc.moved]
    have hsome := h.counts.some hpc
    have hsub : s.stored - s.taken = s.stored - (s.taken + 1) + 1 := by omega
    unfold Queued at hqueue
    rw [hsub, List.range'_succ] at hqueue
    have hpop := Queue.Holds.pop hqueue
    rw [htaken] at hpop
    exact hpop
  | signal hpc =>
    have htaken : s.taken = s.consumer.i + 1 := by simp [State.taken, hpc, Pc.moved]
    change Queue.Holds s.b_buf s.b_nextget s.b_nextput
      (List.range' (s.consumer.i + 1) (s.producer.wake.i + s.producer.wake.pc.moved - (s.consumer.i + 1)))
    rw [stored_wake, ← htaken]
    exact hqueue
  | empty hpc hempty =>
    have htaken : s.taken = s.consumer.i := by simp [State.taken, hpc, Pc.moved]
    rw [htaken] at hqueue
    exact hqueue
  | get hpc hsome =>
    have htaken : s.taken = s.consumer.i := by simp [State.taken, hpc, Pc.moved]
    rw [htaken] at hqueue
    exact hqueue
  | print val hpc =>
    have htaken : s.taken = s.consumer.i := by simp [State.taken, hpc, Pc.moved]
    rw [htaken] at hqueue
    exact hqueue
  | count hpc =>
    have htaken : s.taken = s.consumer.i + 1 := by simp [State.taken, hpc, Pc.moved]
    rw [htaken] at hqueue
    exact hqueue
  | unlock hpc =>
    have htaken : s.taken = s.consumer.i + 1 := by simp [State.taken, hpc, Pc.moved]
    rw [htaken] at hqueue
    exact hqueue

theorem Kept.fits (h : Kept N s) : s.stored - s.taken ≤ n := by
  have hfits := Queue.Holds.fits h.queue
  rwa [List.length_range'] at hfits

/-- The first value in the buffer is the next to be taken. -/
theorem Kept.first (h : Kept N s) (hlt : s.taken < s.stored) : s.b_buf s.b_nextget = s.taken := by
  have hqueue := h.queue
  have hsub : s.stored - s.taken = s.stored - (s.taken + 1) + 1 := by omega
  unfold Queued at hqueue
  rw [hsub, List.range'_succ] at hqueue
  exact hqueue.first

theorem wake_eq_work {th : Thread} {val : Nat} : th.wake.pc = .work val ↔ th.pc = .work val := by
  rcases wake_pc th with h | ⟨h, h'⟩ <;> simp_all

theorem wake_eq_advance {th : Thread} : th.wake.pc = .advance ↔ th.pc = .advance := by
  rcases wake_pc th with h | ⟨h, h'⟩ <;> simp_all

/-- A step of the producer. -/
theorem Kept.produces (h : Kept N s) (hs : Produces N s t) : Kept N t := by
  refine ⟨h.exclusive.produces hs, h.counts.produces h.exclusive hs, h.queue_produces hs, ?_, ?_, ?_, ?_, ?_, ?_⟩
  · cases hs with
    | count hpc =>
      have hitems := h.counts.nitems
      have hfits := h.fits
      have hbounds := h.bounds
      rw [h.exclusive.consumer_due (by rw [hpc]; rfl), hpc] at hitems
      change s.b_nitems + 1 = (s.stored : Int) - s.taken + 0 at hitems
      change 0 ≤ s.b_nitems + 1 ∧ s.b_nitems + 1 ≤ n
      omega
    | _ => exact h.bounds
  · intro val hval
    cases hs with
    | print hpc hroom =>
      cases hval
      rfl
    | _ => cases hval
  · intro hval
    cases hs with
    | put val hpc =>
      change Function.update s.b_buf s.b_nextput val s.b_nextput = s.producer.i
      rw [Function.update_self]
      exact h.work val hpc
    | _ => cases hval
  · intro val hval
    cases hs with
    | signal hpc => exact (h.read val (wake_eq_work.mp hval)).trans (wake_i _).symm
    | _ => exact h.read val hval
  · have hproduced := h.produced
    cases hs with
    | lock hi hpc hmutex => rcases hpc with hpc | hpc <;> simpa [State.printed, hpc, Pc.said, Pc.moved] using hproduced
    | print hpc hroom =>
      refine (printed_concat s _ _ _).trans ?_
      rw [if_pos rfl, hproduced, hpc]
      exact List.range_succ.symm
    | put val hpc => simpa [State.printed, hpc, Pc.said, Pc.moved] using hproduced
    | _ hpc => simpa [State.printed, hpc, Pc.said, Pc.moved] using hproduced
  · have hconsumed := h.consumed
    cases hs with
    | print hpc hroom =>
      refine (printed_concat s _ _ _).trans ?_
      rw [if_neg (by decide), List.append_nil]
      exact hconsumed
    | signal hpc =>
      change s.printed .consume = List.range (s.consumer.wake.i + s.consumer.wake.pc.told)
      rw [wake_i, wake_told]
      exact hconsumed
    | _ => exact hconsumed

/-- A step of the consumer. -/
theorem Kept.consumes (h : Kept N s) (hs : Consumes N s t) : Kept N t := by
  refine ⟨h.exclusive.consumes hs, h.counts.consumes h.exclusive hs, h.queue_consumes hs, ?_, ?_, ?_, ?_, ?_, ?_⟩
  · cases hs with
    | count hpc =>
      have hitems := h.counts.nitems
      have hle := h.counts.le
      have hbounds := h.bounds
      rw [h.exclusive.producer_due (by rw [hpc]; rfl), hpc] at hitems
      change s.b_nitems + 0 = (s.stored : Int) - s.taken + 1 at hitems
      change 0 ≤ s.b_nitems - 1 ∧ s.b_nitems - 1 ≤ n
      omega
    | _ => exact h.bounds
  · intro val hval
    cases hs with
    | signal hpc => exact (h.work val (wake_eq_work.mp hval)).trans (wake_i _).symm
    | _ => exact h.work val hval
  · intro hval
    cases hs with
    | signal hpc => exact (h.written (wake_eq_advance.mp hval)).trans (wake_i _).symm
    | _ => exact h.written hval
  · intro val hval
    cases hs with
    | get hpc hsome =>
      cases hval
      have htaken : s.taken = s.consumer.i := by simp [State.taken, hpc, Pc.moved]
      have hlt : s.taken < s.stored := by
        have hn := h.counts.nitems
        rw [h.exclusive.producer_due (by rw [hpc]; rfl), hpc] at hn
        change s.b_nitems + 0 = (s.stored : Int) - s.taken + 0 at hn
        omega
      exact (h.first hlt).trans htaken
    | _ => cases hval
  · have hproduced := h.produced
    cases hs with
    | print val hpc =>
      refine (printed_concat s _ _ _).trans ?_
      rw [if_neg (by decide), List.append_nil]
      exact hproduced
    | signal hpc =>
      change s.printed .produce = List.range (s.producer.wake.i + s.producer.wake.pc.said)
      rw [wake_i, wake_said]
      exact hproduced
    | _ => exact hproduced
  · have hconsumed := h.consumed
    cases hs with
    | lock hi hpc hmutex =>
      rcases hpc with hpc | hpc <;> simpa [State.printed, hpc, Pc.told, Pc.moved] using hconsumed
    | print val hpc =>
      refine (printed_concat s _ _ _).trans ?_
      rw [if_pos rfl, hconsumed, hpc, h.read val hpc]
      exact List.range_succ.symm
    | _ hpc => simpa [State.printed, hpc, Pc.told, Pc.moved] using hconsumed

/-- `pthread_cond_wait` returns without a signal. -/
theorem Kept.spurious (h : Kept N s) {u : Tid} (hs : step N s (.spurious u) = some t) : Kept N t := by
  obtain ⟨hp, hc, hpi, hci⟩ := h.exclusive
  obtain ⟨hle, hn, hroomWork, hroom, hsomeWork, hsome, hpa, hca⟩ := h.counts
  cases u with
  | produce =>
    cases hs
    refine ⟨?_, ?_, ?_, h.bounds, ?_, ?_, h.read, ?_, h.consumed⟩
    · constructor <;> grind [Pc.inside, Thread.wake]
    · constructor <;> grind [State.stored, State.taken, Pc.moved, Pc.due, Thread.wake]
    · change Queued s s.taken (s.producer.wake.i + s.producer.wake.pc.moved)
      rw [stored_wake]
      exact h.queue
    · exact fun val hval ↦ (h.work val (wake_eq_work.mp hval)).trans (wake_i _).symm
    · exact fun hval ↦ (h.written (wake_eq_advance.mp hval)).trans (wake_i _).symm
    · change s.printed .produce = List.range (s.producer.wake.i + s.producer.wake.pc.said)
      rw [wake_i, wake_said]
      exact h.produced
  | consume =>
    cases hs
    refine ⟨?_, ?_, ?_, h.bounds, h.work, h.written, ?_, h.produced, ?_⟩
    · constructor <;> grind [Pc.inside, Thread.wake]
    · constructor <;> grind [State.stored, State.taken, Pc.moved, Pc.due, Thread.wake]
    · change Queued s (s.consumer.wake.i + s.consumer.wake.pc.moved) s.stored
      rw [taken_wake]
      exact h.queue
    · exact fun val hval ↦ (h.read val (wake_eq_work.mp hval)).trans (wake_i _).symm
    · change s.printed .consume = List.range (s.consumer.wake.i + s.consumer.wake.pc.told)
      rw [wake_i, wake_told]
      exact h.consumed

/-- Every run. -/
theorem kept_of_run [NeZero n] (h : Run (Steps N) (start n) s) : Kept N s := by
  refine RunWith.preserves (fun s a t hk _ hs ↦ ?_) h kept_start
  cases a with
  | run u =>
    cases u with
    | produce => exact hk.produces (produces_of_produce hs)
    | consume => exact hk.consumes (consumes_of_consume hs)
  | spurious u => exact hk.spurious hs

/-! ### No run goes on forever, none stops early -/

/-- The steps a thread is away from the end of its round, with room for what the other has to do when it is
signalled. -/
def Pc.rank : Pc → Nat
  | .top => 12
  | .woken => 12
  | .test => 11
  | .asleep => 10
  | .work _ => 10
  | .advance => 9
  | .count => 8
  | .signal => 7
  | .unlock => 1

/-- What is left to do. -/
def State.work (N : Nat) (s : State n) : Nat :=
  13 * (N - s.producer.i) + s.producer.pc.rank + (13 * (N - s.consumer.i) + s.consumer.pc.rank)

theorem wake_rank (th : Thread) : th.wake.pc.rank ≤ th.pc.rank + 2 := by
  rcases wake_pc th with h | ⟨h, h'⟩
  · rw [h]
    exact Nat.le_add_right _ _
  · rw [h, h']
    decide

theorem Kept.work_produces (h : Kept N s) (hs : Produces N s t) : t.work N < s.work N := by
  have hin := h.exclusive.producerRounds.2
  cases hs with
  | lock hi hpc hmutex =>
    unfold State.work
    rcases hpc with hpc | hpc <;> simp [hpc, Pc.rank]
  | signal hpc =>
    have hrank := wake_rank s.consumer
    have hseven : s.producer.pc.rank = 7 := by rw [hpc]; rfl
    change 13 * (N - s.producer.i) + 1 + (13 * (N - s.consumer.wake.i) + s.consumer.wake.pc.rank) < s.work N
    rw [wake_i, State.work]
    omega
  | unlock hpc =>
    have hi := hin (by rw [hpc]; exact Pc.noConfusion)
    unfold State.work
    simp only [hpc, Pc.rank]
    omega
  | put val hpc => simp [State.work, hpc, Pc.rank]
  | _ hpc => simp [State.work, hpc, Pc.rank]

theorem Kept.work_consumes (h : Kept N s) (hs : Consumes N s t) : t.work N < s.work N := by
  have hin := h.exclusive.consumerRounds.2
  cases hs with
  | lock hi hpc hmutex =>
    unfold State.work
    rcases hpc with hpc | hpc <;> simp [hpc, Pc.rank]
  | signal hpc =>
    have hrank := wake_rank s.producer
    have hseven : s.consumer.pc.rank = 7 := by rw [hpc]; rfl
    change 13 * (N - s.producer.wake.i) + s.producer.wake.pc.rank + (13 * (N - s.consumer.i) + 1) < s.work N
    rw [wake_i, State.work]
    omega
  | unlock hpc =>
    have hi := hin (by rw [hpc]; exact Pc.noConfusion)
    unfold State.work
    simp only [hpc, Pc.rank]
    omega
  | print val hpc => simp [State.work, hpc, Pc.rank]
  | _ hpc => simp [State.work, hpc, Pc.rank]

/-- A thread that has the mutex can go on. -/
theorem produce_inside (h : s.producer.pc.inside = true) : produce N s ≠ none := by
  unfold produce
  cases hpc : s.producer.pc with
  | test =>
    dsimp only
    split <;> exact Option.some_ne_none _
  | work val => exact Option.some_ne_none _
  | advance => exact Option.some_ne_none _
  | count => exact Option.some_ne_none _
  | signal => exact Option.some_ne_none _
  | unlock => exact Option.some_ne_none _
  | _ =>
    rw [hpc] at h
    cases h

theorem consume_inside (h : s.consumer.pc.inside = true) : consume N s ≠ none := by
  unfold consume
  cases hpc : s.consumer.pc with
  | test =>
    dsimp only
    split <;> exact Option.some_ne_none _
  | work val => exact Option.some_ne_none _
  | advance => exact Option.some_ne_none _
  | count => exact Option.some_ne_none _
  | signal => exact Option.some_ne_none _
  | unlock => exact Option.some_ne_none _
  | _ =>
    rw [hpc] at h
    cases h

/-- A thread that cannot go on though the mutex is free has returned or sleeps. -/
theorem producer_stuck (hfree : s.b_mutex = none) (hstuck : produce N s = none) :
    s.producer.pc = .top ∧ N ≤ s.producer.i ∨ s.producer.pc = .asleep := by
  by_contra hnot
  refine absurd hstuck ?_
  unfold produce
  cases hpc : s.producer.pc with
  | top =>
    have hi : s.producer.i < N := by
      by_contra hge
      exact hnot (.inl ⟨hpc, not_lt.mp hge⟩)
    simp [hi, hfree]
  | asleep => exact absurd (.inr hpc) hnot
  | woken => simp [hfree]
  | _ => exact fun h ↦ produce_inside (by rw [hpc]; rfl) hstuck

theorem consumer_stuck (hfree : s.b_mutex = none) (hstuck : consume N s = none) :
    s.consumer.pc = .top ∧ N ≤ s.consumer.i ∨ s.consumer.pc = .asleep := by
  by_contra hnot
  refine absurd hstuck ?_
  unfold consume
  cases hpc : s.consumer.pc with
  | top =>
    have hi : s.consumer.i < N := by
      by_contra hge
      exact hnot (.inl ⟨hpc, not_lt.mp hge⟩)
    simp [hi, hfree]
  | asleep => exact absurd (.inr hpc) hnot
  | woken => simp [hfree]
  | _ => exact fun h ↦ consume_inside (by rw [hpc]; rfl) hstuck

/-- Where no thread can go on, both have returned. -/
theorem Kept.complete [NeZero n] (h : Kept N s) (hstuck : ∀ t, run N s t = none) : s.Complete N := by
  have hfree : s.b_mutex = none := by
    cases hm : s.b_mutex with
    | none => rfl
    | some t =>
      cases t with
      | produce => exact absurd (hstuck .produce) (produce_inside (h.exclusive.producer.mpr hm))
      | consume => exact absurd (hstuck .consume) (consume_inside (h.exclusive.consumer.mpr hm))
  have hn : 0 < n := Nat.pos_of_ne_zero (NeZero.ne n)
  have hle := h.counts.le
  have hitems := h.counts.nitems
  have hpi := h.exclusive.producerRounds
  have hci := h.exclusive.consumerRounds
  rcases producer_stuck hfree (hstuck .produce) with ⟨hp, hpN⟩ | hp <;>
    rcases consumer_stuck hfree (hstuck .consume) with ⟨hc, hcN⟩ | hc
  · have hpi : s.producer.i = N := by omega
    have hci : s.consumer.i = N := by omega
    exact ⟨by rw [← hpi, ← hp], by rw [← hci, ← hc]⟩
  · -- The consumer sleeps over an empty buffer, and all has been produced.
    have hci := hci.2 (by rw [hc]; exact Pc.noConfusion)
    have hempty := h.counts.consumerAsleep hc
    simp [State.stored, State.taken, hp, hc, Pc.moved, Pc.due] at hle hitems hempty
    omega
  · -- The producer sleeps over a full buffer, and all has been consumed.
    have hpi := hpi.2 (by rw [hp]; exact Pc.noConfusion)
    simp [State.stored, State.taken, hp, hc, Pc.moved] at hle
    omega
  · -- Both sleep.
    have hfull := h.counts.producerAsleep hp
    have hempty := h.counts.consumerAsleep hc
    simp [hp, hc] at hfull hempty
    omega

/-- What has been printed by one thread is never more than a buffer ahead of the other. -/
theorem Kept.ahead (h : Kept N s) :
    s.consumer.i + s.consumer.pc.told ≤ s.producer.i + s.producer.pc.said ∧
      s.producer.i + s.producer.pc.said ≤ s.consumer.i + s.consumer.pc.told + n := by
  have hle := h.counts.le
  have hfits := h.fits
  have hsaid : s.stored ≤ s.producer.i + s.producer.pc.said ∧
      s.producer.i + s.producer.pc.said ≤ s.taken + n := by
    cases hpc : s.producer.pc with
    | work val =>
      have := h.counts.roomWork val hpc
      simp only [State.stored, hpc, Pc.said, Pc.moved] at this hfits hle ⊢
      omega
    | advance =>
      have := h.counts.room hpc
      simp only [State.stored, hpc, Pc.said, Pc.moved] at this hfits hle ⊢
      omega
    | _ =>
      simp only [State.stored, hpc, Pc.said, Pc.moved] at hfits hle ⊢
      omega
  have htold : s.taken ≤ s.consumer.i + s.consumer.pc.told ∧
      s.consumer.i + s.consumer.pc.told ≤ s.stored := by
    cases hpc : s.consumer.pc with
    | advance =>
      have := h.counts.some hpc
      simp only [State.taken, hpc, Pc.told, Pc.moved] at this hle ⊢
      omega
    | _ =>
      simp only [State.taken, hpc, Pc.told, Pc.moved] at hle ⊢
      omega
  omega

/-- The two threads of `src/threads/example03.c`. The buffer never holds too much or too little; each thread
prints 0, 1, 2 and so on, the consumer what has been produced and at most a buffer behind; no run without
spurious returns goes on forever, and one in which no thread can go on has produced and consumed everything. -/
theorem final_example03 (s : State buffsize) (h : Run (Steps nloop) (start buffsize) s) :
    (0 ≤ s.b_nitems ∧ s.b_nitems ≤ buffsize) ∧
      (∃ p c, s.printed .produce = List.range p ∧ s.printed .consume = List.range c ∧ c ≤ p ∧
        p ≤ c + buffsize) ∧
      (∀ t u, run nloop s t = some u → u.work nloop < s.work nloop) ∧
      ((∀ t, run nloop s t = none) →
        s.Complete nloop ∧ s.printed .produce = List.range nloop ∧ s.printed .consume = List.range nloop) := by
  have hk := kept_of_run h
  refine ⟨hk.bounds, ⟨_, _, hk.produced, hk.consumed, hk.ahead⟩, fun t u hu ↦ ?_, fun hstuck ↦ ?_⟩
  · cases t with
    | produce => exact hk.work_produces (produces_of_produce hu)
    | consume => exact hk.work_consumes (consumes_of_consume hu)
  · have hcomplete := hk.complete hstuck
    refine ⟨hcomplete, ?_, ?_⟩
    · rw [hk.produced, hcomplete.1]
      rfl
    · rw [hk.consumed, hcomplete.2]
      rfl

/-- The consumer comes first and sleeps until the first value is there. -/
theorem final_example03_first : ∃ s : State buffsize, s.out = [(.produce, 0), (.consume, 0)] ∧
    ∃ p c, s.printed .produce = List.range p ∧ s.printed .consume = List.range c ∧ c ≤ p ∧
      p ≤ c + buffsize := by
  let acts : List Act := [.run .consume, .run .consume] ++ List.replicate 7 (.run .produce) ++
    List.replicate 3 (.run .consume)
  have hplay : playActs (step nloop) (start buffsize) acts = some _ := rfl
  exact ⟨_, rfl, (final_example03 _ (run_of_playActs hplay)).2.1⟩

end Unpv13e.Threads.ProduceConsume
