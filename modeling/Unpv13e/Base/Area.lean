import Unpv13e.Base.Reads

/-!
# Filling an area

Library `Base`. Memory from the beginning of an array on, of which the stores are recorded. An array that is
cleared first and then filled from its beginning holds what was stored, and zeros.
-/

namespace Unpv13e.Base

/-- Memory from the beginning of an array on, and what has been stored since. -/
structure Area where
  mem : Nat → UInt8
  writes : List Field

/-- Vectors of the same length one after another. -/
theorem length_flatMap_toList {n : Nat} (vs : List (Vector UInt8 n)) :
    (vs.flatMap (·.toList)).length = n * vs.length := by
  induction vs with
  | nil => rfl
  | cons v vs ih =>
    rw [List.flatMap_cons, List.length_append, ih, Vector.length_toList, List.length_cons, Nat.mul_succ, Nat.add_comm]

namespace Area

/-- The bytes `bs` are stored at `off`. -/
def store (a : Area) (off : Nat) (bs : List UInt8) : Area :=
  ⟨overwrite a.mem off bs, a.writes ++ [⟨off, bs.length⟩]⟩

/-- `bzero` of the first `n` bytes. -/
def clear (a : Area) (n : Nat) : Area := a.store 0 (List.replicate n 0)

/-- The first `n` bytes. -/
def bytes (a : Area) (n : Nat) : List UInt8 := bytesAt a.mem 0 n

/-- The first `n` bytes are those of `l` and then zeros. -/
def Holds (a : Area) (n : Nat) (l : List UInt8) : Prop := ∀ x < n, a.mem x = l[x]?.getD 0

variable {a : Area} {n k off : Nat} {l bs : List UInt8} {b : UInt8}

/-- A store is in the array when its end is. -/
theorem within_store : Within (a.store off bs).writes n ↔ Within a.writes n ∧ off + bs.length ≤ n := by
  rw [store, within_append, within_singleton]

/-- Nothing is held by an array that has been cleared. -/
theorem holds_clear : (a.clear n).Holds n [] := by
  intro x hx
  have hlen : (List.replicate n (0 : UInt8)).length = n := List.length_replicate
  have hcell : overwrite a.mem 0 (List.replicate n 0) (0 + x) = _ := overwrite_add (by omega)
  rw [Nat.zero_add, List.getElem_replicate] at hcell
  exact hcell

/-- A store behind what is held. -/
theorem Holds.append (h : a.Holds n l) : (a.store l.length bs).Holds n (l ++ bs) := by
  intro x hx
  change overwrite a.mem l.length bs x = _
  rcases Nat.lt_or_ge x l.length with hlt | hge
  · rw [overwrite_before hlt, h x hx, List.getElem?_append_left hlt]
  · rw [List.getElem?_append_right hge]
    rcases Nat.lt_or_ge (x - l.length) bs.length with hin | hout
    · have hcell : overwrite a.mem l.length bs (l.length + (x - l.length)) = _ := overwrite_add hin
      rw [Nat.add_sub_cancel' hge] at hcell
      rw [hcell, List.getElem?_eq_getElem hin]
      rfl
    · rw [overwrite_after (by omega), h x hx, List.getElem?_eq_none hge, List.getElem?_eq_none hout]

/-- A byte that is passed over stays zero. -/
theorem Holds.skip (h : a.Holds n l) : a.Holds n (l ++ [0]) := by
  intro x hx
  rw [h x hx]
  rcases Nat.lt_trichotomy x l.length with hlt | rfl | hgt
  · rw [List.getElem?_append_left hlt]
  · rw [List.getElem?_append_right le_rfl, List.getElem?_eq_none le_rfl, Nat.sub_self]
    rfl
  · have hout : (l ++ [(0 : UInt8)]).length ≤ x := by rwa [List.length_append]
    rw [List.getElem?_eq_none (Nat.le_of_lt hgt), List.getElem?_eq_none hout]

/-- One byte of what is held is stored again. -/
theorem Holds.set (h : a.Holds n l) (hoff : off < l.length) : (a.store off [b]).Holds n (l.set off b) := by
  intro x hx
  change overwrite a.mem off [b] x = _
  rcases Nat.lt_trichotomy x off with hlt | rfl | hgt
  · rw [overwrite_before hlt, h x hx, List.getElem?_set_ne (Nat.ne_of_gt hlt)]
  · have hcell : overwrite a.mem x [b] (x + 0) = b := overwrite_add Nat.one_pos
    rw [Nat.add_zero] at hcell
    rw [hcell, List.getElem?_set_self hoff]
    rfl
  · have hafter : off + [b].length ≤ x := hgt
    rw [overwrite_after hafter, h x hx, List.getElem?_set_ne (Nat.ne_of_lt hgt)]

/-- The bytes of an array that holds `l`. -/
theorem Holds.bytes_eq (h : a.Holds n l) (hk : k ≤ n) (hl : l.length ≤ k) :
    a.bytes k = l ++ List.replicate (k - l.length) 0 := by
  refine List.ext_getElem ?_ fun i hi hi' ↦ ?_
  · rw [bytes, length_bytesAt, List.length_append, List.length_replicate]
    omega
  · have hik : i < k := by
      rw [bytes, length_bytesAt] at hi
      exact hi
    have hcell : (a.bytes k)[i] = a.mem i := by
      simp only [bytes, bytesAt, List.getElem_map, List.getElem_range, Nat.zero_add]
    rw [hcell, h i (by omega), List.getElem_append]
    split
    · next hlt =>
      rw [List.getElem?_eq_getElem hlt]
      rfl
    · next hge =>
      rw [List.getElem?_eq_none (by omega), List.getElem_replicate]
      rfl

end Area

end Unpv13e.Base
