import Mathlib

/-!
# Counting indices

Library `Base`. A counter that a program keeps beside a table agrees with the number of entries
that have some property. What a change of one entry does to that number.
-/

namespace Unpv13e.Base

variable {ι : Type} [Fintype ι] {p q : ι → Prop} [DecidablePred p] [DecidablePred q]

/-- How many indices have a property. -/
def count (p : ι → Prop) [DecidablePred p] : Nat := (Finset.univ.filter p).card

/-- The number depends on which indices have the property only. -/
theorem count_congr (h : ∀ i, p i ↔ q i) : count p = count q := by
  unfold count
  congr 1
  ext i
  simp [h i]

/-- One index more. -/
theorem count_gain (j : ι) (hp : ¬ p j) (hq : q j) (h : ∀ i, i ≠ j → (p i ↔ q i)) :
    count q = count p + 1 := by
  classical
  have hinsert : Finset.univ.filter q = insert j (Finset.univ.filter p) := by
    ext i
    by_cases hi : i = j
    · subst hi
      simp [hq]
    · simp [hi, h i hi]
  unfold count
  rw [hinsert, Finset.card_insert_of_notMem (by simp [hp])]

/-- One index less. -/
theorem count_lose (j : ι) (hp : p j) (hq : ¬ q j) (h : ∀ i, i ≠ j → (p i ↔ q i)) :
    count p = count q + 1 := count_gain j hq hp fun i hi ↦ (h i hi).symm

/-- No index has a property of which the number is zero. -/
theorem count_eq_zero : count p = 0 ↔ ∀ i, ¬ p i := by
  simp [count, Finset.filter_eq_empty_iff]

/-- A property of which the number is positive holds somewhere. -/
theorem count_pos : 0 < count p ↔ ∃ i, p i := by
  simp [count, Finset.card_pos, Finset.filter_nonempty_iff]

/-- A weaker property holds of no fewer indices. -/
theorem count_le (h : ∀ i, p i → q i) : count p ≤ count q :=
  Finset.card_le_card (Finset.monotone_filter_right _ fun i _ ↦ h i)

end Unpv13e.Base
