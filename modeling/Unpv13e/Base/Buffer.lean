import Mathlib

/-!
# Buffers with two pointers

Library `Base`. An array with a pointer to put values in at and a pointer to take them out from. When
the second meets the first both go back to the beginning. Which values lie in between.
-/

namespace Unpv13e.Base

variable {α : Type}

/-- The array and the two pointers, as distances from its beginning. -/
structure Buffer (α : Type) where
  mem : List α
  optr : Nat
  iptr : Nat

namespace Buffer

/-- The pointers are in order and within the array. -/
structure Ordered (b : Buffer α) : Prop where
  le : b.optr ≤ b.iptr
  fits : b.iptr ≤ b.mem.length

/-- The free space behind the pointer. -/
def room (b : Buffer α) : Nat := b.mem.length - b.iptr

/-- The values between the pointers. -/
def pending (b : Buffer α) : List α := (b.mem.take b.iptr).drop b.optr

/-- Values are read into the free space. -/
def fill (b : Buffer α) (xs : List α) : Buffer α :=
  { b with mem := b.mem.take b.iptr ++ xs ++ b.mem.drop (b.iptr + xs.length), iptr := b.iptr + xs.length }

/-- The first `k` values have been taken. -/
def drain (b : Buffer α) (k : Nat) : Buffer α :=
  if b.optr + k = b.iptr then { b with optr := 0, iptr := 0 } else { b with optr := b.optr + k }

variable {b : Buffer α} {xs : List α} {k : Nat}

theorem length_pending (h : b.Ordered) : b.pending.length = b.iptr - b.optr := by
  have := h.fits
  unfold pending
  rw [List.length_drop, List.length_take, Nat.min_eq_left this]

/-- Nothing lies between pointers that have met. -/
theorem pending_eq_nil_iff (h : b.Ordered) : b.pending = [] ↔ b.optr = b.iptr := by
  have := h.le
  rw [← List.length_eq_zero_iff, length_pending h]
  omega

theorem length_fill (h : b.Ordered) (hroom : xs.length ≤ b.room) :
    (b.fill xs).mem.length = b.mem.length := by
  have := h.fits
  unfold room at hroom
  unfold fill
  simp only [List.length_append, List.length_take, List.length_drop]
  omega

theorem ordered_fill (h : b.Ordered) (hroom : xs.length ≤ b.room) : (b.fill xs).Ordered := by
  have hfits := h.fits
  have hle := h.le
  refine ⟨?_, ?_⟩
  · change b.optr ≤ b.iptr + xs.length
    omega
  · rw [length_fill h hroom]
    change b.iptr + xs.length ≤ b.mem.length
    unfold room at hroom
    omega

/-- What is read in comes last. -/
theorem pending_fill (h : b.Ordered) : (b.fill xs).pending = b.pending ++ xs := by
  have hfits := h.fits
  have hle := h.le
  have hlen : (b.mem.take b.iptr).length = b.iptr := by rw [List.length_take, Nat.min_eq_left hfits]
  have htake : (b.mem.take b.iptr ++ xs ++ b.mem.drop (b.iptr + xs.length)).take (b.iptr + xs.length) =
      b.mem.take b.iptr ++ xs := by
    apply List.take_left'
    rw [List.length_append, hlen]
  unfold pending fill
  dsimp only
  rw [htake, List.drop_append_of_le_length (by rw [hlen]; exact hle)]

theorem length_drain (b : Buffer α) (k : Nat) : (b.drain k).mem.length = b.mem.length := by
  unfold drain
  split <;> rfl

theorem ordered_drain (h : b.Ordered) (hk : k ≤ b.iptr - b.optr) : (b.drain k).Ordered := by
  have hfits := h.fits
  have hle := h.le
  unfold drain
  split
  · exact ⟨le_refl 0, Nat.zero_le _⟩
  · refine ⟨?_, hfits⟩
    dsimp only
    omega

/-- What is taken out came first. -/
theorem pending_drain (h : b.Ordered) : (b.drain k).pending = b.pending.drop k := by
  unfold drain
  split
  · next heq =>
    have hnil : b.pending.drop k = [] := by
      apply List.drop_eq_nil_of_le
      rw [length_pending h]
      omega
    rw [hnil]
    rfl
  · unfold pending
    rw [List.drop_drop]

/-- What is taken out and what is left. -/
theorem take_append_pending (h : b.Ordered) (k : Nat) :
    b.pending.take k ++ (b.drain k).pending = b.pending := by
  rw [pending_drain h, List.take_append_drop]

/-- What has been read in is what has been taken out and what lies in between. -/
structure Relays (b : Buffer α) (input output : List α) : Prop where
  ordered : b.Ordered
  flow : input = output ++ b.pending

namespace Relays

variable {input output : List α}

/-- Nothing yet. -/
theorem start (mem : List α) : Relays ⟨mem, 0, 0⟩ [] [] :=
  ⟨⟨le_refl 0, Nat.zero_le _⟩, rfl⟩

theorem fill (h : Relays b input output) (hroom : xs.length ≤ b.room) :
    Relays (b.fill xs) (input ++ xs) output := by
  refine ⟨ordered_fill h.ordered hroom, ?_⟩
  rw [pending_fill h.ordered, h.flow, List.append_assoc]

theorem drain (h : Relays b input output) (hk : k ≤ b.iptr - b.optr) :
    Relays (b.drain k) input (output ++ b.pending.take k) := by
  refine ⟨ordered_drain h.ordered hk, ?_⟩
  rw [List.append_assoc, take_append_pending h.ordered, h.flow]

/-- The values come out in order. -/
theorem isPrefix (h : Relays b input output) : output <+: input := ⟨b.pending, h.flow.symm⟩

/-- They have all come out when the pointers have met. -/
theorem complete_iff (h : Relays b input output) : output = input ↔ b.optr = b.iptr := by
  rw [← pending_eq_nil_iff h.ordered, h.flow, List.self_eq_append_right]

end Relays
end Buffer
end Unpv13e.Base
