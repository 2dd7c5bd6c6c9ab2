import Mathlib

/-!
# Strings in memory

Library `Base`. Memory as a cell for every address: overwriting a block of cells, and reading a string
that ends at a terminator `z`.
-/

namespace Unpv13e.Base

variable {α : Type} {m m' : Nat → α} {a i n : Nat} {bs w : List α}

/-- The cells from `a` on are overwritten with `bs`. -/
def overwrite (m : Nat → α) (a : Nat) (bs : List α) : Nat → α :=
  fun x ↦ if x < a then m x else (bs[x - a]?).getD (m x)

/-- A cell that is overwritten. -/
theorem overwrite_add (hi : i < bs.length) : overwrite m a bs (a + i) = bs[i] := by
  unfold overwrite
  rw [if_neg (by omega), Nat.add_sub_cancel_left, List.getElem?_eq_getElem hi]
  rfl

/-- A cell before the block. -/
theorem overwrite_before {x : Nat} (h : x < a) : overwrite m a bs x = m x := if_pos h

/-- A cell after the block. -/
theorem overwrite_after {x : Nat} (h : a + bs.length ≤ x) : overwrite m a bs x = m x := by
  unfold overwrite
  rw [if_neg (by omega), List.getElem?_eq_none (by omega)]
  rfl

variable [DecidableEq α] (z : α)

/-- The cells from an address on up to the first `z`, `n` cells at most. -/
def stringAt (m : Nat → α) : Nat → Nat → List α
  | 0, _ => []
  | n + 1, a => if m a = z then [] else m a :: stringAt m n (a + 1)

/-- A string is read where its elements and the terminator stand. -/
theorem stringAt_eq (hz : z ∉ w) (hn : w.length < n)
    (hw : ∀ (i : Nat) (hi : i < w.length), m (a + i) = w[i]) (hend : m (a + w.length) = z) :
    stringAt z m n a = w := by
  induction w generalizing n a with
  | nil =>
    cases n with
    | zero => rfl
    | succ n => exact if_pos hend
  | cons c w ih =>
    cases n with
    | zero => exact absurd hn (Nat.not_lt_zero _)
    | succ n =>
      have hc : m a = c := hw 0 (Nat.succ_pos _)
      have hcz : m a ≠ z := fun he ↦ hz (List.mem_cons.mpr (.inl (he.symm.trans hc)))
      rw [stringAt, if_neg hcz, hc]
      refine congrArg (c :: ·) (ih ?_ ?_ ?_ ?_)
      · exact fun hmem ↦ hz (List.mem_cons_of_mem c hmem)
      · exact Nat.lt_of_succ_lt_succ hn
      · intro i hi
        have hnext := hw (i + 1) (Nat.succ_lt_succ hi)
        rw [Nat.add_assoc, Nat.add_comm 1 i]
        exact hnext
      · rw [Nat.add_assoc, Nat.add_comm 1]
        exact hend

/-- The string that is read is what was written with its terminator. -/
theorem stringAt_overwrite (hz : z ∉ w) (hn : w.length < n) :
    stringAt z (overwrite m a (w ++ [z])) n a = w := by
  have hlen : (w ++ [z]).length = w.length + 1 := List.length_append
  refine stringAt_eq z hz hn ?_ ?_
  · intro i hi
    rw [overwrite_add (by omega), List.getElem_append_left hi]
  · rw [overwrite_add (by omega)]
    exact List.getElem_concat_length rfl _

/-- A string depends on its elements and its terminator only. -/
theorem stringAt_congr (h : ∀ i ≤ (stringAt z m n a).length, m' (a + i) = m (a + i)) :
    stringAt z m' n a = stringAt z m n a := by
  induction n generalizing a with
  | zero => rfl
  | succ n ih =>
    have hhead : m' a = m a := h 0 (Nat.zero_le _)
    rw [stringAt, stringAt, hhead]
    split
    · rfl
    next hz =>
    refine congrArg (m a :: ·) (ih fun i hi ↦ ?_)
    have hlen : (stringAt z m (n + 1) a).length = (stringAt z m n (a + 1)).length + 1 := by
      rw [stringAt, if_neg hz]
      rfl
    have hnext := h (i + 1) (by omega)
    rw [Nat.add_assoc, Nat.add_comm 1 i]
    exact hnext

end Unpv13e.Base
