import Mathlib

/-!
# Queues in circular arrays

Library `Base`. An array of `n` entries with an index to get at and an index to put at, both of which
go round. Which list of values the array holds, first in first out.
-/

namespace Unpv13e.Base.Queue

variable {α : Type} {n : Nat}

/-- `if (++i == n) i = 0` -/
def next (i : Fin n) : Fin n := if h : i.val + 1 < n then ⟨i.val + 1, h⟩ else ⟨0, i.pos⟩

/-- The entry `k` places after `i`. -/
def pos (i : Fin n) (k : Nat) : Fin n := ⟨(i.val + k) % n, Nat.mod_lt _ i.pos⟩

theorem pos_zero (i : Fin n) : pos i 0 = i := Fin.ext (Nat.mod_eq_of_lt i.isLt)

theorem next_eq (i : Fin n) : next i = pos i 1 := by
  unfold next pos
  split
  · next h => exact Fin.ext (Nat.mod_eq_of_lt h).symm
  · next h =>
    have hn : i.val + 1 = n := by
      have := i.isLt
      omega
    apply Fin.ext
    change 0 = (i.val + 1) % n
    rw [hn, Nat.mod_self]

theorem pos_next (i : Fin n) (k : Nat) : pos (next i) k = pos i (k + 1) := by
  rw [next_eq]
  apply Fin.ext
  change ((i.val + 1) % n + k) % n = (i.val + (k + 1)) % n
  rw [Nat.mod_add_mod, Nat.add_assoc, Nat.add_comm 1 k]

theorem next_pos (i : Fin n) (k : Nat) : next (pos i k) = pos i (k + 1) := by
  rw [next_eq]
  apply Fin.ext
  change ((i.val + k) % n + 1) % n = (i.val + (k + 1)) % n
  rw [Nat.mod_add_mod, Nat.add_assoc]

/-- Less than a round apart the entries are different. -/
theorem pos_inj {i : Fin n} {j k : Nat} (hj : j < n) (hk : k < n) (h : pos i j = pos i k) : j = k := by
  have hmod : (i.val + j) % n = (i.val + k) % n := congrArg Fin.val h
  have := Nat.ModEq.add_left_cancel' i.val hmod
  rwa [Nat.ModEq, Nat.mod_eq_of_lt hj, Nat.mod_eq_of_lt hk] at this

/-- After a whole round the entry is the same. -/
theorem pos_self (i : Fin n) : pos i n = i := by
  apply Fin.ext
  change (i.val + n) % n = i.val
  rw [Nat.add_mod_right, Nat.mod_eq_of_lt i.isLt]

/-- The array holds the values of `q` from `get` to before `put`. -/
structure Holds (mem : Fin n → α) (get put : Fin n) (q : List α) : Prop where
  fits : q.length ≤ n
  put_eq : put = pos get q.length
  entry : ∀ k (h : k < q.length), mem (pos get k) = q[k]

namespace Holds

variable {mem : Fin n → α} {get put : Fin n} {q : List α} {x : α}

/-- Nothing is held. -/
theorem empty (mem : Fin n → α) (i : Fin n) : Holds mem i i [] :=
  ⟨Nat.zero_le n, (pos_zero i).symm, fun k h ↦ absurd h (Nat.not_lt_zero k)⟩

/-- The entry to put at is none of those held, unless the array is full. -/
theorem put_ne (h : Holds mem get put q) (hlt : q.length < n) {k : Nat} (hk : k < q.length) :
    pos get k ≠ put := by
  rw [h.put_eq]
  intro he
  have := pos_inj (by omega) hlt he
  omega

/-- The indices meet when nothing is held and when the array is full. -/
theorem meet_iff (h : Holds mem get put q) : put = get ↔ q = [] ∨ q.length = n := by
  rw [h.put_eq]
  constructor
  · intro he
    rcases Nat.lt_or_ge q.length n with hlt | hge
    · have := pos_inj hlt get.pos (he.trans (pos_zero get).symm)
      exact .inl (List.eq_nil_of_length_eq_zero this)
    · exact .inr (le_antisymm h.fits hge)
  · rintro (rfl | hfull)
    · exact pos_zero get
    · rw [hfull]
      exact pos_self get

/-- A value is put in. -/
theorem push (h : Holds mem get put q) (hlt : q.length < n) :
    Holds (Function.update mem put x) get (next put) (q ++ [x]) := by
  refine ⟨?_, ?_, ?_⟩
  · rw [List.length_append, List.length_singleton]
    omega
  · rw [h.put_eq, next_pos, List.length_append, List.length_singleton]
  · intro k hk
    rw [List.length_append, List.length_singleton] at hk
    rcases Nat.lt_succ_iff_lt_or_eq.mp hk with hk' | rfl
    · rw [Function.update_of_ne (h.put_ne hlt hk'), h.entry k hk', List.getElem_append_left hk']
    · rw [← h.put_eq, Function.update_self, List.getElem_concat_length rfl]

/-- A value is written where the next is to be put. -/
theorem write (h : Holds mem get put q) (hlt : q.length < n) : Holds (Function.update mem put x) get put q :=
  ⟨h.fits, h.put_eq, fun k hk ↦ by rw [Function.update_of_ne (h.put_ne hlt hk), h.entry k hk]⟩

/-- The value that has been written is put in. -/
theorem grow (h : Holds mem get put q) (hlt : q.length < n) : Holds mem get (next put) (q ++ [mem put]) := by
  have hpush := h.push hlt (x := mem put)
  rwa [Function.update_eq_self] at hpush

/-- The first value is got. -/
theorem first (h : Holds mem get put (x :: q)) : mem get = x := by
  have := h.entry 0 (Nat.zero_lt_succ _)
  rwa [pos_zero] at this

/-- The first value is given up. -/
theorem pop (h : Holds mem get put (x :: q)) : Holds mem (next get) put q := by
  have hfits := h.fits
  rw [List.length_cons] at hfits
  refine ⟨by omega, ?_, ?_⟩
  · rw [pos_next]
    exact h.put_eq
  · intro k hk
    rw [pos_next]
    exact h.entry (k + 1) (Nat.succ_lt_succ hk)

end Holds
end Unpv13e.Base.Queue
