import Mathlib

/-!
# `shuffle`

Library `Uno`. `src/tcpcliserv/final_server.c:150–167`: the indices in order, then one
exchange per index from the last one down. The values of `rand()` are a parameter, the
one drawn for index `i` being `rand i`; `int` is the value an index is stored as.
-/

namespace Unpv13e.Uno

universe u
variable {α : Type u}

/-- `temp = array[i]; array[i] = array[j]; array[j] = temp`. -/
def exchange (array : Nat → α) (i j : Nat) : Nat → α :=
  Function.update (Function.update array i (array j)) j (array i)

/-- The loop `for (i = size - 1; i > 0; i--)`, entered with the given `i`. -/
def exchangeDown (rand : Nat → Nat) : Nat → (Nat → α) → Nat → α
  | 0, array => array
  | i + 1, array => exchangeDown rand i (exchange array (i + 1) (rand (i + 1) % (i + 2)))

/-- The loop `array[i] = i` for the first `size` entries. -/
def countUp (int : Nat → α) (array : Nat → α) (size : Nat) : Nat → α :=
  fun k ↦ if k < size then int k else array k

/-- `shuffle(array, size)`, `src/tcpcliserv/final_server.c:150–167`. -/
def shuffle (int : Nat → α) (rand : Nat → Nat) (array : Nat → α) (size : Nat) : Nat → α :=
  exchangeDown rand (size - 1) (countUp int array size)

private theorem exchange_eq (array : Nat → α) (i j : Nat) :
    exchange array i j = array ∘ Equiv.swap j i :=
  (Equiv.comp_swap_eq_update j i array).symm

/-- Which entries the exchanges from index `n` down put where. -/
def exchanges (rand : Nat → Nat) : Nat → Equiv.Perm Nat
  | 0 => Equiv.refl Nat
  | i + 1 => (exchanges rand i).trans (Equiv.swap (rand (i + 1) % (i + 2)) (i + 1))

theorem exchangeDown_eq (rand : Nat → Nat) (n : Nat) (array : Nat → α) :
    exchangeDown rand n array = array ∘ exchanges rand n := by
  induction n generalizing array with
  | zero => rfl
  | succ n ih =>
    rw [exchangeDown, ih, exchange_eq]
    rfl

/-- The exchanges stay below the index they start from. -/
theorem exchanges_fix (rand : Nat → Nat) {n k : Nat} (hk : n < k) : exchanges rand n k = k := by
  induction n with
  | zero => rfl
  | succ n ih =>
    have hj : rand (n + 1) % (n + 2) < n + 2 := Nat.mod_lt _ (by omega)
    rw [exchanges, Equiv.trans_apply, ih (by omega)]
    exact Equiv.swap_apply_of_ne_of_ne (by omega) (by omega)

/-- A permutation of the first entries takes them to one another. -/
private theorem apply_le_of_fix {π : Equiv.Perm Nat} {n : Nat} (hfix : ∀ k, n < k → π k = k) {k : Nat} (hk : k ≤ n) :
    π k ≤ n := by
  by_contra hgt
  have h := π.injective (hfix (π k) (by omega))
  omega

/-- Every permutation is that of one sequence of remainders: the first remainder is where the last entry comes
from, and the others give what is left of the permutation. -/
theorem exchanges_eq_iff (n : Nat) (π : Equiv.Perm Nat) (hfix : ∀ k, n < k → π k = k) :
    ∃ r : Nat → Nat, (∀ i, 1 ≤ i → i ≤ n → r i ≤ i) ∧
      ∀ rand, exchanges rand n = π ↔ ∀ i, 1 ≤ i → i ≤ n → rand i % (i + 1) = r i := by
  induction n generalizing π with
  | zero =>
    have hπ : Equiv.refl Nat = π := by
      ext k
      by_cases hk : k = 0
      · have h0 := apply_le_of_fix hfix (le_refl 0)
        rw [hk, Equiv.refl_apply]
        omega
      · exact (hfix k (by omega)).symm
    exact ⟨fun _ ↦ 0, fun i h1 h0 ↦ by omega, fun rand ↦ iff_of_true hπ fun i h1 h0 ↦ by omega⟩
  | succ n ih =>
    let top := π (n + 1)
    have htop : top ≤ n + 1 := apply_le_of_fix hfix (le_refl _)
    obtain ⟨r, hr, hiff⟩ := ih (π.trans (Equiv.swap top (n + 1))) fun k hk ↦ by
      rw [Equiv.trans_apply]
      by_cases hkn : k = n + 1
      · rw [hkn]
        exact Equiv.swap_apply_left top (n + 1)
      · have hne : k ≠ top := by omega
        rw [hfix k (by omega)]
        exact Equiv.swap_apply_of_ne_of_ne hne hkn
    refine ⟨fun i ↦ if i = n + 1 then top else r i, fun i h1 hi ↦ ?_, fun rand ↦ ?_⟩
    · dsimp only
      split
      · omega
      · exact hr i h1 (by omega)
    have hfirst : exchanges rand (n + 1) (n + 1) = rand (n + 1) % (n + 2) := by
      rw [exchanges, Equiv.trans_apply, exchanges_fix rand (Nat.lt_succ_self n)]
      exact Equiv.swap_apply_right _ _
    have hsplit : exchanges rand (n + 1) = π ↔
        rand (n + 1) % (n + 2) = top ∧ exchanges rand n = π.trans (Equiv.swap top (n + 1)) := by
      constructor
      · intro h
        have hlast : rand (n + 1) % (n + 2) = top := by rw [← hfirst, h]
        refine ⟨hlast, ?_⟩
        rw [← h, exchanges, hlast, Equiv.trans_assoc, Equiv.swap_swap, Equiv.trans_refl]
      · rintro ⟨hlast, h⟩
        rw [exchanges, h, hlast, Equiv.trans_assoc, Equiv.swap_swap, Equiv.trans_refl]
    rw [hsplit, hiff rand]
    constructor
    · rintro ⟨hlast, hrest⟩ i h1 hi
      dsimp only
      by_cases hin : i = n + 1
      · rw [if_pos hin, hin]
        exact hlast
      · rw [if_neg hin]
        exact hrest i h1 (by omega)
    · intro h
      refine ⟨?_, fun i h1 hi ↦ ?_⟩
      · simpa using h (n + 1) (by omega) (le_refl _)
      · have hi' := h i h1 (by omega)
        dsimp only at hi'
        rwa [if_neg (by omega)] at hi'

private theorem exchanges_of_le (rand : Nat → Nat) {size k : Nat} (hk : size ≤ k) :
    exchanges rand (size - 1) k = k := by
  cases size with
  | zero => rfl
  | succ n => exact exchanges_fix rand (by omega)

private theorem exchanges_lt (rand : Nat → Nat) (size k : Nat) : k < size ↔ exchanges rand (size - 1) k < size := by
  constructor
  · intro hk
    have hle := apply_le_of_fix (n := size - 1) (fun j hj ↦ exchanges_fix rand hj) (k := k) (by omega)
    omega
  · intro hk
    by_contra hge
    rw [exchanges_of_le rand (by omega)] at hk
    exact hge hk

/-- An entry of the shuffled part. -/
theorem shuffle_apply (int : Nat → α) (rand : Nat → Nat) (array : Nat → α) {size k : Nat} (hk : k < size) :
    shuffle int rand array size k = int (exchanges rand (size - 1) k) := by
  rw [shuffle, exchangeDown_eq, Function.comp_apply, countUp, if_pos ((exchanges_lt rand size k).mp hk)]

/-- The other entries stay as they are. -/
theorem shuffle_of_le (int : Nat → α) (rand : Nat → Nat) (array : Nat → α) {size k : Nat} (hk : size ≤ k) :
    shuffle int rand array size k = array k := by
  rw [shuffle, exchangeDown_eq, Function.comp_apply, exchanges_of_le rand hk, countUp, if_neg (by omega)]

/-- After `shuffle` the first `size` entries are a permutation of the first `size` indices
and no other entry has changed. -/
theorem shuffle_perm (int : Nat → α) (rand : Nat → Nat) (array : Nat → α) (size : Nat) :
    ∃ π : Equiv.Perm Nat, (∀ k, k < size ↔ π k < size) ∧
      (∀ k, k < size → shuffle int rand array size k = int (π k)) ∧
      ∀ k, size ≤ k → shuffle int rand array size k = array k :=
  ⟨exchanges rand (size - 1), exchanges_lt rand size, fun _ ↦ shuffle_apply int rand array,
    fun _ ↦ shuffle_of_le int rand array⟩

/-- Whatever the array held, `shuffle` puts a permutation of the first `size` numbers into its first `size` entries
and changes no other; and it puts there a given permutation for exactly one sequence of remainders. -/
theorem shuffle_bijective (array : Nat → Int) (size : Nat) :
    (∀ rand, (∃ π : Equiv.Perm (Fin size), ∀ k, shuffle (fun i ↦ (i : Int)) rand array size k.val = (π k).val) ∧
      ∀ k, size ≤ k → shuffle (fun i ↦ (i : Int)) rand array size k = array k) ∧
    ∀ π : Equiv.Perm (Fin size), ∃ r : Nat → Nat, (∀ i, 1 ≤ i → i < size → r i ≤ i) ∧
      ∀ rand, (∀ k, shuffle (fun i ↦ (i : Int)) rand array size k.val = (π k).val) ↔
        ∀ i, 1 ≤ i → i < size → rand i % (i + 1) = r i := by
  refine ⟨fun rand ↦ ⟨?_, fun k hk ↦ shuffle_of_le _ rand array hk⟩, fun π ↦ ?_⟩
  · let f : Fin size → Fin size := fun k ↦ ⟨exchanges rand (size - 1) k, (exchanges_lt rand size k).mp k.isLt⟩
    have hinj : Function.Injective f := by
      intro j k he
      exact Fin.ext ((exchanges rand (size - 1)).injective (congrArg Fin.val he))
    refine ⟨Equiv.ofBijective f (Finite.injective_iff_bijective.mp hinj), fun k ↦ ?_⟩
    exact shuffle_apply (fun i ↦ (i : Int)) rand array k.isLt
  · let whole : Equiv.Perm Nat := π.extendDomain Fin.equivSubtype
    have hin (k : Fin size) : whole k = π k :=
      Equiv.Perm.extendDomain_apply_subtype π Fin.equivSubtype k.isLt
    have hout (k : Nat) (hk : size ≤ k) : whole k = k :=
      Equiv.Perm.extendDomain_apply_not_subtype π Fin.equivSubtype (by omega)
    obtain ⟨r, hr, hiff⟩ := exchanges_eq_iff (size - 1) whole fun k hk ↦ hout k (by omega)
    refine ⟨r, fun i h1 hi ↦ hr i h1 (by omega), fun rand ↦ ?_⟩
    have hsame : (∀ k : Fin size, shuffle (fun i ↦ (i : Int)) rand array size k.val = (π k).val) ↔
        exchanges rand (size - 1) = whole := by
      constructor
      · intro h
        ext k
        by_cases hk : k < size
        · have hk' := (shuffle_apply (fun i ↦ (i : Int)) rand array hk).symm.trans (h ⟨k, hk⟩)
          exact (Int.ofNat_inj.mp hk').trans (hin ⟨k, hk⟩).symm
        · rw [hout k (by omega), exchanges_of_le rand (by omega)]
      · intro h k
        rw [shuffle_apply _ rand array k.isLt, h, hin k]
    rw [hsame, hiff rand]
    constructor
    · exact fun h i h1 hi ↦ h i h1 (by omega)
    · exact fun h i h1 hi ↦ h i h1 (by omega)

end Unpv13e.Uno
