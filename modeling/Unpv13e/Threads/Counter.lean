import Unpv13e.Base.Runs

/-!
# Two threads that count

Library `Threads`. The two threads of `src/threads/example01.c` and `src/threads/example02.c` that fetch,
print and store one counter, the second with a mutex around the three. The accesses to the counter
interleave in any order. Which values the counter can end with, and what is printed.
-/

namespace Unpv13e.Threads.Counter
open Unpv13e.Base

/-- `NLOOP` -/
def nloop : Nat := 5000

/-- The two threads that `main` creates. -/
inductive Tid
  | A
  | B
  deriving DecidableEq

/-- Where a thread is in the body of its loop. -/
inductive Pc
  | top
  /-- the mutex is locked -/
  | locked
  /-- behind `val = counter` -/
  | print (val : Nat)
  /-- behind `printf` -/
  | store (val : Nat)
  /-- behind `counter = val + 1`, the mutex still locked -/
  | stored
  deriving DecidableEq

/-- `i`, and where the thread is. -/
structure Thread where
  i : Nat
  pc : Pc
  deriving DecidableEq

/-- The shared variables, the threads, and the numbers printed so far. -/
structure State where
  counter : Nat
  mutex : Option Tid
  thread : Tid → Thread
  out : List (Tid × Nat)

/-- Before the threads run. -/
def start : State := ⟨0, none, fun _ ↦ ⟨0, .top⟩, []⟩

/-- A thread has gone on. -/
def State.set (s : State) (t : Tid) (th : Thread) : State :=
  { s with thread := Function.update s.thread t th }

/-- What a thread does next in `doit` of `src/threads/example01.c:25–42`, with `n` for `NLOOP`. -/
def unguarded (n : Nat) (s : State) (t : Tid) : Option State :=
  let th := s.thread t
  match th.pc with
  | .top => if th.i < n then some (s.set t { th with pc := .print s.counter }) else none
  | .print val => some { s.set t { th with pc := .store val } with out := s.out ++ [(t, val + 1)] }
  | .store val => some { s.set t ⟨th.i + 1, .top⟩ with counter := val + 1 }
  | _ => none

/-- What a thread does next in `doit` of `src/threads/example02.c:26–47`, with `n` for `NLOOP`; none
also where it waits for the mutex. -/
def guarded (n : Nat) (s : State) (t : Tid) : Option State :=
  let th := s.thread t
  match th.pc with
  | .top =>
    if th.i < n ∧ s.mutex = none then some { s.set t { th with pc := .locked } with mutex := some t }
    else none
  | .locked => some (s.set t { th with pc := .print s.counter })
  | .print val => some { s.set t { th with pc := .store val } with out := s.out ++ [(t, val + 1)] }
  | .store val => some { s.set t { th with pc := .stored } with counter := val + 1 }
  | .stored => some { s.set t ⟨th.i + 1, .top⟩ with mutex := none }

/-- Both threads have returned. -/
def State.Complete (n : Nat) (s : State) : Prop := ∀ t, s.thread t = ⟨n, .top⟩

theorem set_self (s : State) (t : Tid) (th : Thread) : (s.set t th).thread t = th :=
  Function.update_self ..

theorem set_ne (s : State) {t u : Tid} (h : u ≠ t) (th : Thread) : (s.set t th).thread u = s.thread u :=
  Function.update_of_ne h ..

/-- What holds of every thread after one has gone on. -/
theorem forall_set {s : State} {t : Tid} {th : Thread} {P : Tid → Thread → Prop} (ht : P t th)
    (hother : ∀ u, P u (s.thread u)) (u : Tid) : P u ((s.set t th).thread u) := by
  by_cases h : u = t
  · rw [h, set_self]
    exact ht
  · rw [set_ne s h]
    exact hother u

/-- A sum over the threads. -/
def State.sum (s : State) (f : Thread → Nat) : Nat := f (s.thread .A) + f (s.thread .B)

theorem sum_set (s : State) (t : Tid) (th : Thread) (f : Thread → Nat) :
    (s.set t th).sum f + f (s.thread t) = s.sum f + f th := by
  cases t <;> simp only [State.sum, State.set, Function.update, reduceCtorEq, dite_true, dite_false] <;>
    omega

/-- How often the loops have been gone round. -/
def State.rounds (s : State) : Nat := s.sum Thread.i

theorem rounds_set (s : State) (t : Tid) (th : Thread) :
    (s.set t th).rounds + (s.thread t).i = s.rounds + th.i := sum_set s t th Thread.i

/-- The other thread. -/
def Tid.other : Tid → Tid
  | .A => .B
  | .B => .A

theorem other_ne (t : Tid) : t.other ≠ t := by cases t <;> decide

theorem eq_other {t u : Tid} (h : u ≠ t) : u = t.other := by
  cases t <;> cases u <;> first | rfl | exact absurd rfl h

/-- The sum over a thread and the other. -/
theorem sum_eq (s : State) (t : Tid) (f : Thread → Nat) :
    s.sum f = f (s.thread t) + f (s.thread t.other) := by
  cases t
  · rfl
  · exact Nat.add_comm _ _

/-! ### Without the mutex -/

/-- A step relation of a partial step function. -/
abbrev Steps (f : State → Tid → Option State) : State → Tid → State → Prop := fun s t u ↦ f s t = some u

/-- The value a thread holds between fetch and store. -/
def Pc.Holds (val : Nat) : Pc → Prop
  | .print v => v = val
  | .store v => v = val
  | _ => False

/-- What a step without the mutex can do: it fetches, prints, or stores. -/
inductive Fetches (n : Nat) (s : State) (t : Tid) : State → Prop
  | fetch : (s.thread t).pc = .top → (s.thread t).i < n →
      Fetches n s t (s.set t { s.thread t with pc := .print s.counter })
  | print (val : Nat) : (s.thread t).pc = .print val →
      Fetches n s t { s.set t { s.thread t with pc := .store val } with out := s.out ++ [(t, val + 1)] }
  | store (val : Nat) : (s.thread t).pc = .store val →
      Fetches n s t { s.set t ⟨(s.thread t).i + 1, .top⟩ with counter := val + 1 }

theorem fetches_of_unguarded {n : Nat} {s u : State} {t : Tid} (h : unguarded n s t = some u) :
    Fetches n s t u := by
  unfold unguarded at h
  cases hpc : (s.thread t).pc with
  | top =>
    simp only [hpc] at h
    obtain ⟨hi, h⟩ := Option.ite_none_right_eq_some.mp h
    cases h
    exact .fetch hpc hi
  | print val =>
    simp only [hpc] at h
    cases h
    exact .print val hpc
  | store val =>
    simp only [hpc] at h
    cases h
    exact .store val hpc
  | locked => simp only [hpc] at h; cases h
  | stored => simp only [hpc] at h; cases h

/-- Bounds on what is stored and on what is held. -/
structure Bounded (n : Nat) (s : State) : Prop where
  /-- no round counts twice -/
  counter_le : s.counter ≤ s.rounds
  held_le : ∀ t val, (s.thread t).pc.Holds val → val ≤ s.rounds
  /-- a thread that has stored fetches no zero -/
  counter_pos : ∀ t, 0 < (s.thread t).i → 0 < s.counter
  held_pos : ∀ t val, (s.thread t).pc.Holds val → 0 < (s.thread t).i → 0 < val
  /-- the last to store had been round before, or has been once only -/
  last : ∃ t, min 2 (s.thread t).i ≤ s.counter
  inside : ∀ t, (s.thread t).i ≤ n ∧ ((s.thread t).pc ≠ .top → (s.thread t).i < n)

theorem bounded_start (n : Nat) : Bounded n start where
  counter_le := Nat.zero_le _
  held_le := fun _ _ h ↦ h.elim
  counter_pos := fun _ h ↦ absurd h (Nat.lt_irrefl 0)
  held_pos := fun _ _ h ↦ h.elim
  last := ⟨.A, Nat.zero_le _⟩
  inside := fun _ ↦ ⟨Nat.zero_le n, fun h ↦ absurd rfl h⟩

/-- A step that leaves the counter and the number of rounds of every thread. -/
theorem Bounded.keep {n : Nat} {s u : State} {t : Tid} {pc : Pc} (h : Bounded n s)
    (hcounter : u.counter = s.counter) (hthread : u.thread = (s.set t { s.thread t with pc := pc }).thread)
    (hle : ∀ val, pc.Holds val → val ≤ s.rounds)
    (hpos : ∀ val, pc.Holds val → 0 < (s.thread t).i → 0 < val) (hi : (s.thread t).i < n) :
    Bounded n u := by
  have hrounds : u.rounds = s.rounds := by
    have := rounds_set s t { s.thread t with pc := pc }
    unfold State.rounds State.sum at this ⊢
    rw [hthread]
    exact Nat.add_right_cancel this
  have hsame (v : Tid) : (u.thread v).i = (s.thread v).i := by
    rw [hthread]
    refine forall_set (P := fun v th ↦ th.i = (s.thread v).i) ?_ (fun _ ↦ rfl) v
    rfl
  constructor
  · rw [hcounter, hrounds]
    exact h.counter_le
  · intro v
    rw [hrounds, hthread]
    exact forall_set (P := fun _ th ↦ ∀ val, th.pc.Holds val → val ≤ s.rounds) hle h.held_le v
  · intro v
    rw [hcounter, hsame]
    exact h.counter_pos v
  · intro v
    rw [hthread]
    exact forall_set (P := fun _ th ↦ ∀ val, th.pc.Holds val → 0 < th.i → 0 < val) hpos h.held_pos v
  · obtain ⟨v, hv⟩ := h.last
    exact ⟨v, by rw [hsame, hcounter]; exact hv⟩
  · intro v
    rw [hthread]
    refine forall_set (P := fun _ th ↦ th.i ≤ n ∧ (th.pc ≠ .top → th.i < n)) ?_ h.inside v
    exact ⟨hi.le, fun _ ↦ hi⟩

/-- Every step keeps the bounds. -/
theorem Fetches.bounded {n : Nat} {s u : State} {t : Tid} (hstep : Fetches n s t u)
    (h : Bounded n s) : Bounded n u := by
  cases hstep with
  | fetch hpc hi =>
    refine h.keep rfl rfl ?_ ?_ hi
    · rintro _ rfl
      exact h.counter_le
    · rintro _ rfl
      exact h.counter_pos t
  | print val hpc =>
    refine h.keep rfl rfl ?_ ?_ ((h.inside t).2 (by rw [hpc]; exact Pc.noConfusion))
    · rintro _ rfl
      exact h.held_le t val (by rw [hpc]; rfl)
    · rintro _ rfl
      exact h.held_pos t val (by rw [hpc]; rfl)
  | store val hpc =>
    have hheld : (s.thread t).pc.Holds val := by rw [hpc]; rfl
    have hle := h.held_le t val hheld
    have hpos := h.held_pos t val hheld
    have hi := (h.inside t).2 (by rw [hpc]; exact Pc.noConfusion)
    have hset := rounds_set s t ⟨(s.thread t).i + 1, .top⟩
    have hrounds : (s.set t ⟨(s.thread t).i + 1, .top⟩).rounds = s.rounds + 1 := by
      change _ = s.rounds + ((s.thread t).i + 1) at hset
      omega
    constructor
    · change val + 1 ≤ (s.set t _).rounds
      omega
    · intro v w hw
      change w ≤ (s.set t _).rounds
      have hall : ∀ v w, ((s.set t ⟨(s.thread t).i + 1, .top⟩).thread v).pc.Holds w → w ≤ s.rounds :=
        forall_set (P := fun _ th ↦ ∀ w, th.pc.Holds w → w ≤ s.rounds) (fun _ hw ↦ hw.elim) h.held_le
      have := hall v w hw
      omega
    · exact fun _ _ ↦ Nat.succ_pos val
    · exact forall_set (P := fun _ th ↦ ∀ val, th.pc.Holds val → 0 < th.i → 0 < val)
        (fun _ hw ↦ hw.elim) h.held_pos
    · refine ⟨t, ?_⟩
      change min 2 ((s.set t _).thread t).i ≤ val + 1
      rw [set_self]
      change min 2 ((s.thread t).i + 1) ≤ val + 1
      omega
    · exact forall_set (P := fun _ th ↦ th.i ≤ n ∧ (th.pc ≠ .top → th.i < n))
        ⟨hi, fun hne ↦ absurd rfl hne⟩ h.inside

theorem bounded_of_run {n : Nat} {s : State} (h : Run (Steps (unguarded n)) start s) : Bounded n s :=
  RunWith.preserves (fun _ _ _ hb _ hs ↦ (fetches_of_unguarded hs).bounded hb) h (bounded_start n)

/-- The counter is `c`, a thread is at `th` and the other at `th'`. -/
structure At (s : State) (t : Tid) (c : Nat) (th th' : Thread) : Prop where
  counter : s.counter = c
  self : s.thread t = th
  other : s.thread t.other = th'

theorem At.swap {s : State} {t : Tid} {c : Nat} {th th' : Thread} (h : At s t c th th') :
    At s t.other c th' th := by
  refine ⟨h.counter, h.other, ?_⟩
  rw [← h.self]
  cases t <;> rfl

/-- A state in which a thread has gone on, reached without the mutex. -/
def Reaches (n : Nat) (s : State) (t : Tid) (c : Nat) (th th' : Thread) : Prop :=
  ∃ u, Run (Steps (unguarded n)) s u ∧ At u t c th th'

theorem Reaches.step {n : Nat} {s u : State} {t : Tid} {c : Nat} {th th' : Thread}
    (h : unguarded n s t = some u) (hu : Reaches n u t c th th') : Reaches n s t c th th' := by
  obtain ⟨v, hrun, hat⟩ := hu
  exact ⟨v, RunWith.cons True.intro h hrun, hat⟩

theorem Reaches.trans {n : Nat} {s : State} {t t' : Tid} {c c' : Nat} {th th' x x' : Thread}
    (h : Reaches n s t c th th') (hnext : ∀ u, At u t c th th' → Reaches n u t' c' x x') :
    Reaches n s t' c' x x' := by
  obtain ⟨u, hrun, hat⟩ := h
  obtain ⟨v, hrun', hat'⟩ := hnext u hat
  exact ⟨v, RunWith.trans hrun hrun', hat'⟩

theorem Reaches.swap {n : Nat} {s : State} {t : Tid} {c : Nat} {th th' : Thread}
    (h : Reaches n s t c th th') : Reaches n s t.other c th' th := by
  obtain ⟨u, hrun, hat⟩ := h
  exact ⟨u, hrun, hat.swap⟩

/-- A thread fetches and prints. -/
theorem At.fetches {n : Nat} {s : State} {t : Tid} {c i : Nat} {th' : Thread}
    (h : At s t c ⟨i, .top⟩ th') (hi : i < n) : Reaches n s t c ⟨i, .store c⟩ th' := by
  refine Reaches.step (u := s.set t ⟨i, .print c⟩) ?_ (Reaches.step (u := { s.set t ⟨i, .print c⟩ with
    thread := Function.update (s.set t ⟨i, .print c⟩).thread t ⟨i, .store c⟩
    out := s.out ++ [(t, c + 1)] }) ?_ ⟨_, RunWith.refl, h.counter, set_self _ _ _, ?_⟩)
  · simp only [unguarded, h.self, h.counter, if_pos hi]
  · simp only [unguarded, set_self]
    rfl
  · rw [← h.other]
    exact (set_ne (s.set t ⟨i, .print c⟩) (other_ne t) _).trans (set_ne s (other_ne t) _)

/-- A thread stores what it holds. -/
theorem At.stores {n : Nat} {s : State} {t : Tid} {c i val : Nat} {th' : Thread}
    (h : At s t c ⟨i, .store val⟩ th') : Reaches n s t (val + 1) ⟨i + 1, .top⟩ th' := by
  refine Reaches.step (u := { s.set t ⟨i + 1, .top⟩ with counter := val + 1 }) ?_
    ⟨_, RunWith.refl, rfl, set_self _ _ _, ?_⟩
  · simp only [unguarded, h.self]
  · rw [← h.other]
    exact set_ne s (other_ne t) _

/-- A thread goes round alone. -/
theorem At.alone {n : Nat} {s : State} {t : Tid} {c i : Nat} {th' : Thread} (k : Nat)
    (h : At s t c ⟨i, .top⟩ th') (hk : i + k ≤ n) : Reaches n s t (c + k) ⟨i + k, .top⟩ th' := by
  induction k with
  | zero => exact ⟨s, RunWith.refl, h⟩
  | succ k ih =>
    refine (ih (by omega)).trans fun u hu ↦ ?_
    exact (hu.fetches (by omega)).trans fun v hv ↦ hv.stores

/-- Both threads go round to the end, one after the other. -/
theorem At.finish {n : Nat} {s : State} {t : Tid} {c i j : Nat} (h : At s t c ⟨i, .top⟩ ⟨j, .top⟩)
    (hi : i ≤ n) (hj : j ≤ n) : Reaches n s t (c + (n - i) + (n - j)) ⟨n, .top⟩ ⟨n, .top⟩ := by
  refine (h.alone (n - i) (by omega)).trans fun u hu ↦ ?_
  have hrest := (hu.swap.alone (n := n) (n - j) (by omega)).swap
  have hother : t.other.other = t := by cases t <;> rfl
  rw [hother, Nat.add_sub_cancel' hi, Nat.add_sub_cancel' hj] at hrest
  exact hrest

/-- A thread stores over the `m` rounds the other has gone in between. -/
theorem At.overtaken {n : Nat} {s : State} {t : Tid} {c i j : Nat} (m : Nat)
    (h : At s t c ⟨i, .top⟩ ⟨j, .top⟩) (hi : i < n) (hj : j + m ≤ n) :
    Reaches n s t (c + 1) ⟨i + 1, .top⟩ ⟨j + m, .top⟩ := by
  have hother : t.other.other = t := by cases t <;> rfl
  refine (h.fetches hi).trans fun u hu ↦ ?_
  have halone := (hu.swap.alone (n := n) m hj).swap
  rw [hother] at halone
  exact halone.trans fun v hv ↦ hv.stores

/-- Every value from two on is what some run ends with. -/
theorem exists_run {n v : Nat} (hlow : 2 ≤ v) (hhigh : v ≤ 2 * n) :
    Reaches n start .A v ⟨n, .top⟩ ⟨n, .top⟩ := by
  have hstart : At start .A 0 ⟨0, .top⟩ ⟨0, .top⟩ := ⟨rfl, rfl, rfl⟩
  by_cases hv : n < v
  · refine (hstart.overtaken (2 * n - v) (by omega) (by omega)).trans fun u hu ↦ ?_
    have hend := hu.finish (n := n) (by omega) (by omega)
    have hsum : 0 + 1 + (n - (0 + 1)) + (n - (0 + (2 * n - v))) = v := by omega
    rwa [hsum] at hend
  · -- The first thread stores over all rounds of the second but one, and that one over rounds of its.
    refine (hstart.overtaken (n - 1) (by omega) (by omega)).trans fun u hu ↦ ?_
    have hsecond := (hu.swap.overtaken (n := n) (n + 1 - v) (by omega) (by omega)).swap
    refine hsecond.trans fun w hw ↦ ?_
    have hend := hw.finish (n := n) (by omega) (by omega)
    have hsum : 0 + 1 + 1 + (n - (0 + 1 + (n + 1 - v))) + (n - (0 + (n - 1) + 1)) = v := by omega
    rwa [hsum] at hend

/-- Without the mutex the counter can end with every value from two up to the number of rounds of both
threads, and with no other. -/
theorem final_unguarded {n : Nat} (hn : 2 ≤ n) (v : Nat) :
    (∃ s, Run (Steps (unguarded n)) start s ∧ s.Complete n ∧ s.counter = v) ↔ 2 ≤ v ∧ v ≤ 2 * n := by
  constructor
  · rintro ⟨s, hrun, hcomplete, rfl⟩
    have hb := bounded_of_run hrun
    have hrounds : s.rounds = 2 * n := by
      rw [State.rounds, State.sum, hcomplete, hcomplete]
      exact (Nat.two_mul n).symm
    refine ⟨?_, hrounds ▸ hb.counter_le⟩
    obtain ⟨t, ht⟩ := hb.last
    rw [hcomplete] at ht
    change min 2 n ≤ s.counter at ht
    omega
  · rintro ⟨hlow, hhigh⟩
    obtain ⟨s, hrun, hat⟩ := exists_run hlow hhigh
    refine ⟨s, hrun, fun t ↦ ?_, hat.counter⟩
    cases t
    · exact hat.self
    · exact hat.other

/-- Without the mutex the counter of `src/threads/example01.c` can end with every value from two up to
the number of rounds of both threads, and with no other. -/
theorem final_example01 (v : Nat) :
    (∃ s, Run (Steps (unguarded nloop)) start s ∧ s.Complete nloop ∧ s.counter = v) ↔
      2 ≤ v ∧ v ≤ 2 * nloop := final_unguarded (by decide) v

/-! ### With the mutex -/

/-- What a step with the mutex can do. -/
inductive Locks (n : Nat) (s : State) (t : Tid) : State → Prop
  | lock : (s.thread t).pc = .top → (s.thread t).i < n → s.mutex = none →
      Locks n s t { s.set t ⟨(s.thread t).i, .locked⟩ with mutex := some t }
  | fetch : (s.thread t).pc = .locked → Locks n s t (s.set t ⟨(s.thread t).i, .print s.counter⟩)
  | print (val : Nat) : (s.thread t).pc = .print val →
      Locks n s t { s.set t ⟨(s.thread t).i, .store val⟩ with out := s.out ++ [(t, val + 1)] }
  | store (val : Nat) : (s.thread t).pc = .store val →
      Locks n s t { s.set t ⟨(s.thread t).i, .stored⟩ with counter := val + 1 }
  | unlock : (s.thread t).pc = .stored →
      Locks n s t { s.set t ⟨(s.thread t).i + 1, .top⟩ with mutex := none }

theorem locks_of_guarded {n : Nat} {s u : State} {t : Tid} (h : guarded n s t = some u) :
    Locks n s t u := by
  unfold guarded at h
  cases hpc : (s.thread t).pc with
  | top =>
    simp only [hpc] at h
    obtain ⟨⟨hi, hmutex⟩, h⟩ := Option.ite_none_right_eq_some.mp h
    cases h
    exact .lock hpc hi hmutex
  | locked =>
    simp only [hpc] at h
    cases h
    exact .fetch hpc
  | print val =>
    simp only [hpc] at h
    cases h
    exact .print val hpc
  | store val =>
    simp only [hpc] at h
    cases h
    exact .store val hpc
  | stored =>
    simp only [hpc] at h
    cases h
    exact .unlock hpc

/-- The rounds in which a thread has stored. -/
def Thread.stored (th : Thread) : Nat :=
  match th.pc with
  | .stored => th.i + 1
  | _ => th.i

/-- The rounds in which a thread has printed. -/
def Thread.printed (th : Thread) : Nat :=
  match th.pc with
  | .store _ => th.i + 1
  | .stored => th.i + 1
  | _ => th.i

/-- What the mutex keeps. -/
structure Exclusive (n : Nat) (s : State) : Prop where
  mutex : ∀ t, (s.thread t).pc ≠ .top ↔ s.mutex = some t
  /-- no round is lost -/
  counter : s.counter = s.sum Thread.stored
  held : ∀ t val, (s.thread t).pc.Holds val → val = s.counter
  out : s.out.map Prod.snd = List.range' 1 (s.sum Thread.printed)
  inside : ∀ t, (s.thread t).i ≤ n ∧ ((s.thread t).pc ≠ .top → (s.thread t).i < n)

theorem exclusive_start (n : Nat) : Exclusive n start where
  mutex := fun t ↦ ⟨fun h ↦ absurd rfl h, fun h ↦ by cases h⟩
  counter := rfl
  held := fun _ _ h ↦ h.elim
  out := rfl
  inside := fun _ ↦ ⟨Nat.zero_le n, fun h ↦ absurd rfl h⟩

/-- While a thread is inside, the other is not. -/
theorem Exclusive.other_top {n : Nat} {s : State} (h : Exclusive n s) {t : Tid}
    (ht : (s.thread t).pc ≠ .top) : (s.thread t.other).pc = .top := by
  by_contra hother
  have hboth := ((h.mutex t).mp ht).symm.trans ((h.mutex t.other).mp hother)
  exact other_ne t (Option.some.inj hboth).symm

/-- A thread that is inside keeps the mutex when it goes on inside. -/
theorem Exclusive.mutex_set {n : Nat} {s : State} (h : Exclusive n s) {t : Tid} {i : Nat} {pc : Pc}
    (ht : (s.thread t).pc ≠ .top) (hpc : pc ≠ .top) (v : Tid) :
    ((s.set t ⟨i, pc⟩).thread v).pc ≠ .top ↔ s.mutex = some v := by
  refine forall_set (P := fun v th ↦ th.pc ≠ .top ↔ s.mutex = some v) ?_ h.mutex v
  exact ⟨fun _ ↦ (h.mutex t).mp ht, fun _ ↦ hpc⟩

/-- The sum after a step of a thread that is inside, the other being outside. -/
theorem Exclusive.sum_inside {n : Nat} {s : State} (h : Exclusive n s) {t : Tid}
    (ht : (s.thread t).pc ≠ .top) {f : Thread → Nat} (hf : ∀ i, f ⟨i, .top⟩ = i) :
    s.sum f = f (s.thread t) + (s.thread t.other).i := by
  have hother : s.thread t.other = ⟨(s.thread t.other).i, .top⟩ := by
    rw [← h.other_top ht]
  rw [sum_eq s t, hother, hf]

/-- No thread but the one that is inside holds a value. -/
theorem Exclusive.held_set {n : Nat} {s : State} (h : Exclusive n s) {t : Tid} {th : Thread} {c : Nat}
    (ht : (s.thread t).pc ≠ .top) (hth : ∀ val, th.pc.Holds val → val = c) (v : Tid) (val : Nat)
    (hv : ((s.set t th).thread v).pc.Holds val) : val = c := by
  by_cases hvt : v = t
  · rw [hvt, set_self] at hv
    exact hth val hv
  · rw [set_ne s hvt, eq_other hvt, h.other_top ht] at hv
    exact hv.elim

/-- The sum is the same where what is added up is. -/
theorem sum_set_of_eq {s : State} {t : Tid} {th : Thread} {f : Thread → Nat}
    (hf : f th = f (s.thread t)) : (s.set t th).sum f = s.sum f := by
  have := sum_set s t th f
  omega

/-- The sum is one more where what is added up is. -/
theorem sum_set_of_succ {s : State} {t : Tid} {th : Thread} {f : Thread → Nat}
    (hf : f th = f (s.thread t) + 1) : (s.set t th).sum f = s.sum f + 1 := by
  have := sum_set s t th f
  omega

/-- A step that prints nothing. -/
theorem Exclusive.out_set {n : Nat} {s : State} (h : Exclusive n s) {t : Tid} {th : Thread}
    (hth : th.printed = (s.thread t).printed) :
    s.out.map Prod.snd = List.range' 1 ((s.set t th).sum Thread.printed) := by
  rw [sum_set_of_eq hth]
  exact h.out

/-- Every step keeps what the mutex keeps. -/
theorem Locks.exclusive {n : Nat} {s u : State} {t : Tid} (hstep : Locks n s t u)
    (h : Exclusive n s) : Exclusive n u := by
  have hthread {pc : Pc} (hpc : (s.thread t).pc = pc) : s.thread t = ⟨(s.thread t).i, pc⟩ := by rw [← hpc]
  have hinside {th : Thread} (hth : th.i ≤ n ∧ (th.pc ≠ .top → th.i < n)) (v : Tid) :=
    forall_set (P := fun _ th ↦ th.i ≤ n ∧ (th.pc ≠ .top → th.i < n)) (s := s) (t := t) hth h.inside v
  cases hstep with
  | lock hpc hi hmutex =>
    constructor
    · intro v
      by_cases hvt : v = t
      · rw [hvt]
        change ((s.set t _).thread t).pc ≠ .top ↔ some t = some t
        rw [set_self]
        exact ⟨fun _ ↦ rfl, fun _ ↦ Pc.noConfusion⟩
      · change ((s.set t _).thread v).pc ≠ .top ↔ some t = some v
        rw [set_ne s hvt, h.mutex v, hmutex, Option.some.injEq]
        exact ⟨fun hv ↦ (by cases hv), fun hv ↦ absurd hv.symm hvt⟩
    · refine h.counter.trans (sum_set_of_eq ?_).symm
      rw [hthread hpc]
      rfl
    · exact forall_set (P := fun _ th ↦ ∀ val, th.pc.Holds val → val = s.counter)
        (fun _ hw ↦ hw.elim) h.held
    · refine h.out_set ?_
      rw [hthread hpc]
      rfl
    · exact hinside ⟨hi.le, fun _ ↦ hi⟩
  | fetch hpc =>
    have hne : (s.thread t).pc ≠ .top := by rw [hpc]; exact Pc.noConfusion
    have hi := (h.inside t).2 hne
    constructor
    · exact h.mutex_set hne Pc.noConfusion
    · refine h.counter.trans (sum_set_of_eq ?_).symm
      rw [hthread hpc]
      rfl
    · exact h.held_set hne fun val hval ↦ hval.symm
    · refine h.out_set ?_
      rw [hthread hpc]
      rfl
    · exact hinside ⟨hi.le, fun _ ↦ hi⟩
  | print val hpc =>
    have hne : (s.thread t).pc ≠ .top := by rw [hpc]; exact Pc.noConfusion
    have hi := (h.inside t).2 hne
    have hval := h.held t val (by rw [hpc]; rfl)
    constructor
    · exact h.mutex_set hne Pc.noConfusion
    · refine h.counter.trans (sum_set_of_eq ?_).symm
      rw [hthread hpc]
      rfl
    · exact h.held_set hne fun w hw ↦ hw.symm.trans hval
    · have hprinted : s.sum Thread.printed = val := by
        rw [hval, h.counter, h.sum_inside hne fun _ ↦ rfl, h.sum_inside hne fun _ ↦ rfl, hthread hpc]
        rfl
      have hmore : (s.set t ⟨(s.thread t).i, .store val⟩).sum Thread.printed =
          s.sum Thread.printed + 1 := by
        refine sum_set_of_succ ?_
        rw [hthread hpc]
        rfl
      change (s.out ++ [(t, val + 1)]).map Prod.snd = List.range' 1 ((s.set t _).sum Thread.printed)
      rw [hmore, List.range'_concat, List.map_append, h.out, hprinted]
      simp [Nat.add_comm]
    · exact hinside ⟨hi.le, fun _ ↦ hi⟩
  | store val hpc =>
    have hne : (s.thread t).pc ≠ .top := by rw [hpc]; exact Pc.noConfusion
    have hi := (h.inside t).2 hne
    have hval := h.held t val (by rw [hpc]; rfl)
    constructor
    · exact h.mutex_set hne Pc.noConfusion
    · have hmore : (s.set t ⟨(s.thread t).i, .stored⟩).sum Thread.stored = s.sum Thread.stored + 1 := by
        refine sum_set_of_succ ?_
        rw [hthread hpc]
        rfl
      change val + 1 = (s.set t _).sum Thread.stored
      rw [hmore, hval, h.counter]
    · exact h.held_set hne fun w hw ↦ hw.elim
    · refine h.out_set ?_
      rw [hthread hpc]
      rfl
    · exact hinside ⟨hi.le, fun _ ↦ hi⟩
  | unlock hpc =>
    have hne : (s.thread t).pc ≠ .top := by rw [hpc]; exact Pc.noConfusion
    have hi := (h.inside t).2 hne
    constructor
    · intro v
      change ((s.set t _).thread v).pc ≠ .top ↔ none = some v
      by_cases hvt : v = t
      · rw [hvt, set_self]
        simp
      · rw [set_ne s hvt, eq_other hvt, h.other_top hne]
        simp
    · refine h.counter.trans (sum_set_of_eq ?_).symm
      rw [hthread hpc]
      rfl
    · exact h.held_set hne fun w hw ↦ hw.elim
    · refine h.out_set ?_
      rw [hthread hpc]
      rfl
    · exact hinside ⟨hi, fun hne ↦ absurd rfl hne⟩

theorem exclusive_of_run {n : Nat} {s : State} (h : Run (Steps (guarded n)) start s) : Exclusive n s :=
  RunWith.preserves (fun _ _ _ he _ hs ↦ (locks_of_guarded hs).exclusive he) h (exclusive_start n)

/-! ### No run goes on forever, none stops early -/

/-- The steps of a thread that are left. -/
def Thread.left (n : Nat) (th : Thread) : Nat :=
  5 * (n - th.i) -
    match th.pc with
    | .top => 0
    | .locked => 1
    | .print _ => 2
    | .store _ => 3
    | .stored => 4

theorem Locks.left {n : Nat} {s u : State} {t : Tid} (hstep : Locks n s t u) (h : Exclusive n s) :
    s.sum (Thread.left n) = u.sum (Thread.left n) + 1 := by
  have hthread {pc : Pc} (hpc : (s.thread t).pc = pc) : s.thread t = ⟨(s.thread t).i, pc⟩ := by rw [← hpc]
  have hstep' {th : Thread} (hth : Thread.left n (s.thread t) = Thread.left n th + 1) :
      s.sum (Thread.left n) = (s.set t th).sum (Thread.left n) + 1 := by
    have := sum_set s t th (Thread.left n)
    omega
  have hinside := (h.inside t).2
  cases hstep with
  | lock hpc hi _ =>
    refine hstep' ?_
    rw [hthread hpc]
    change 5 * (n - (s.thread t).i) - 0 = 5 * (n - (s.thread t).i) - 1 + 1
    omega
  | fetch hpc =>
    have hi := hinside (by rw [hpc]; exact Pc.noConfusion)
    refine hstep' ?_
    rw [hthread hpc]
    change 5 * (n - (s.thread t).i) - 1 = 5 * (n - (s.thread t).i) - 2 + 1
    omega
  | print val hpc =>
    have hi := hinside (by rw [hpc]; exact Pc.noConfusion)
    refine hstep' ?_
    rw [hthread hpc]
    change 5 * (n - (s.thread t).i) - 2 = 5 * (n - (s.thread t).i) - 3 + 1
    omega
  | store val hpc =>
    have hi := hinside (by rw [hpc]; exact Pc.noConfusion)
    refine hstep' ?_
    rw [hthread hpc]
    change 5 * (n - (s.thread t).i) - 3 = 5 * (n - (s.thread t).i) - 4 + 1
    omega
  | unlock hpc =>
    have hi := hinside (by rw [hpc]; exact Pc.noConfusion)
    refine hstep' ?_
    rw [hthread hpc]
    change 5 * (n - (s.thread t).i) - 4 = 5 * (n - ((s.thread t).i + 1)) - 0 + 1
    omega

/-- A thread that is inside is never held up. -/
theorem guarded_inside {n : Nat} {s : State} {t : Tid} (h : (s.thread t).pc ≠ .top) :
    guarded n s t ≠ none := by
  unfold guarded
  cases hpc : (s.thread t).pc with
  | top => exact absurd hpc h
  | locked => simp [hpc]
  | print val => simp [hpc]
  | store val => simp [hpc]
  | stored => simp [hpc]

/-- Where no thread can go on, both have returned. -/
theorem Exclusive.complete {n : Nat} {s : State} (h : Exclusive n s)
    (hstuck : ∀ t, guarded n s t = none) : s.Complete n := by
  have htop (t : Tid) : (s.thread t).pc = .top := by
    by_contra hne
    exact guarded_inside hne (hstuck t)
  have hmutex : s.mutex = none := by
    cases hm : s.mutex with
    | none => rfl
    | some t => exact absurd (htop t) ((h.mutex t).mpr hm)
  intro t
  have hi : ¬ (s.thread t).i < n := by
    intro hlt
    have := hstuck t
    simp [guarded, htop t, hlt, hmutex] at this
  have hle := (h.inside t).1
  have heq : (s.thread t).i = n := by omega
  rw [← heq, ← htop t]

/-- With the mutex the numbers printed are one, two, three and so on, no run goes on forever, and one
that has stopped has counted every round of both threads. -/
theorem final_guarded {n : Nat} {s : State} (h : Run (Steps (guarded n)) start s) :
    s.out.map Prod.snd = List.range' 1 s.out.length ∧
      (∀ t u, guarded n s t = some u → s.sum (Thread.left n) = u.sum (Thread.left n) + 1) ∧
      ((∀ t, guarded n s t = none) → s.Complete n ∧ s.counter = 2 * n ∧ s.out.length = 2 * n) := by
  have he := exclusive_of_run h
  have hlen : s.out.length = s.sum Thread.printed := by
    have := congrArg List.length he.out
    rwa [List.length_map, List.length_range'] at this
  refine ⟨?_, ?_, ?_⟩
  · rw [hlen]
    exact he.out
  · exact fun t u hu ↦ (locks_of_guarded hu).left he
  · intro hstuck
    have hcomplete := he.complete hstuck
    refine ⟨hcomplete, ?_, ?_⟩
    · rw [he.counter, State.sum, hcomplete, hcomplete]
      exact (Nat.two_mul n).symm
    · rw [hlen, State.sum, hcomplete, hcomplete]
      exact (Nat.two_mul n).symm

end Unpv13e.Threads.Counter
