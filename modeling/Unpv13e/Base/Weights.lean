import Mathlib

/-!
# Weights over a family of sets

Library `Base`. The weight of a family of finite sets, taken set by set, against the weight of what
is in them, each element once.
-/

namespace Unpv13e.Base

variable {ι α : Type} [Fintype ι] [Fintype α] [DecidableEq α]
variable (f : ι → Finset α) (w : α → Nat)

/-- Set by set an element counts once for every set that has it. -/
theorem sum_family :
    ∑ k, ∑ q ∈ f k, w q = ∑ q, w q * (Finset.univ.filter fun k ↦ q ∈ f k).card := by
  have hset (k : ι) : ∑ q ∈ f k, w q = ∑ q, if q ∈ f k then w q else 0 := by
    rw [← Finset.sum_filter, Finset.filter_univ_mem]
  calc ∑ k, ∑ q ∈ f k, w q = ∑ k, ∑ q, if q ∈ f k then w q else 0 :=
        Finset.sum_congr rfl fun k _ ↦ hset k
    _ = ∑ q, ∑ k, if q ∈ f k then w q else 0 := Finset.sum_comm
    _ = ∑ q, w q * (Finset.univ.filter fun k ↦ q ∈ f k).card := by
        refine Finset.sum_congr rfl fun q _ ↦ ?_
        rw [← Finset.sum_filter, Finset.sum_const, smul_eq_mul, Nat.mul_comm]

variable [DecidableEq ι]

/-- What is in the sets other than `f j`. -/
def others (j : ι) : Finset α := Finset.univ.filter fun q ↦ ∃ k, k ≠ j ∧ q ∈ f k

/-- Set by set the family weighs as much as what is in the sets other than `f j` exactly when no
element with a weight is in `f j` or in two sets. -/
theorem sum_family_eq_others (j : ι) :
    ∑ k, ∑ q ∈ f k, w q = ∑ q ∈ others f j, w q ↔
      ∀ q, 0 < w q → q ∉ f j ∧ ∀ k k', q ∈ f k → q ∈ f k' → k = k' := by
  have hothers : ∑ q ∈ others f j, w q =
      ∑ q, w q * if ∃ k, k ≠ j ∧ q ∈ f k then 1 else 0 := by
    unfold others
    rw [Finset.sum_filter]
    refine Finset.sum_congr rfl fun q _ ↦ ?_
    split <;> simp
  have hle (q : α) : (if ∃ k, k ≠ j ∧ q ∈ f k then 1 else 0) ≤
      (Finset.univ.filter fun k ↦ q ∈ f k).card := by
    split
    · next h =>
      obtain ⟨k, -, hk⟩ := h
      exact Finset.card_pos.mpr ⟨k, by simpa using hk⟩
    · exact Nat.zero_le _
  rw [sum_family, hothers, eq_comm,
    Finset.sum_eq_sum_iff_of_le fun q _ ↦ Nat.mul_le_mul_left _ (hle q)]
  refine forall_congr' fun q ↦ ?_
  rw [forall_prop_of_true (Finset.mem_univ q)]
  rcases Nat.eq_zero_or_pos (w q) with hw | hw
  · simp [hw]
  rw [forall_prop_of_true hw, Nat.mul_right_inj (by omega)]
  constructor
  · intro h
    have hone : (Finset.univ.filter fun k ↦ q ∈ f k).card ≤ 1 := by
      rw [← h]
      split <;> omega
    have huniq (k k' : ι) (hk : q ∈ f k) (hk' : q ∈ f k') : k = k' :=
      Finset.card_le_one.mp hone k (by simpa using hk) k' (by simpa using hk')
    refine ⟨fun hj ↦ ?_, huniq⟩
    have hnone : ¬ ∃ k, k ≠ j ∧ q ∈ f k := fun ⟨k, hk, hq⟩ ↦ hk (huniq k j hq hj)
    rw [if_neg hnone, eq_comm, Finset.card_eq_zero] at h
    exact Finset.notMem_empty j (h ▸ by simpa using hj)
  · rintro ⟨hj, huniq⟩
    split
    · next h =>
      obtain ⟨k, -, hk⟩ := h
      refine (Finset.card_eq_one.mpr ⟨k, ?_⟩).symm
      ext k'
      simp only [Finset.mem_filter, Finset.mem_univ, true_and, Finset.mem_singleton]
      exact ⟨fun hk' ↦ huniq k' k hk' hk, fun he ↦ he ▸ hk⟩
    · next h =>
      refine (Finset.card_eq_zero.mpr (Finset.filter_eq_empty_iff.mpr fun k _ hk ↦ ?_)).symm
      by_cases hkj : k = j
      · exact hj (hkj ▸ hk)
      · exact h ⟨k, hkj, hk⟩

end Unpv13e.Base
