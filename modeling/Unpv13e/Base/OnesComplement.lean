import Mathlib.Data.Nat.ModEq
import Mathlib.Algebra.BigOperators.Group.List.Basic

/-!
# One's complement arithmetic

Library `Base`. Words of `w` bits are the numbers up to `2 ^ w - 1`, which stands for zero like zero itself.
A sum with end-around carries is the ordinary sum reduced modulo `2 ^ w - 1`, without giving up the difference
of the two zeros.
-/

namespace Unpv13e.Base.OnesComplement

/-- The greatest word, the other zero. -/
def top (w : Nat) : Nat := 2 ^ w - 1

/-- Addition with the carry out of the word brought around to its low end. -/
def add (w a b : Nat) : Nat := if a + b < 2 ^ w then a + b else a + b + 1 - 2 ^ w

/-- The one's complement sum. -/
def sum (w : Nat) (ws : List Nat) : Nat := ws.foldl (add w) 0

/-- The one's complement of a word. -/
def complement (w a : Nat) : Nat := top w - a

/-- What a number is as a word. -/
def reduce (w n : Nat) : Nat := if n = 0 then 0 else (n - 1) % top w + 1

/-- The part of a number above a word added to the word. -/
def fold (w n : Nat) : Nat := n / 2 ^ w + n % 2 ^ w

variable {w : Nat}

/-- The modulus. -/
theorem two_pow_eq (w : Nat) : 2 ^ w = top w + 1 := by
  have hpos : 0 < 2 ^ w := Nat.two_pow_pos w
  unfold top
  omega

theorem top_pos (hw : 0 < w) : 0 < top w := by
  have htwo : 2 ^ 1 ≤ 2 ^ w := Nat.pow_le_pow_right Nat.two_pos hw
  unfold top
  omega

/-! ### Reduction -/

@[simp] theorem reduce_zero : reduce w 0 = 0 := rfl

private theorem reduce_pos {n : Nat} (hn : 0 < n) : 0 < reduce w n := by
  unfold reduce
  rw [if_neg hn.ne']
  exact Nat.succ_pos _

/-- A reduced number is a word. -/
theorem reduce_le (hw : 0 < w) (n : Nat) : reduce w n ≤ top w := by
  unfold reduce
  split
  · exact Nat.zero_le _
  · exact Nat.mod_lt _ (top_pos hw)

/-- Reduction keeps the residue. -/
theorem reduce_modEq (n : Nat) : reduce w n ≡ n [MOD top w] := by
  unfold reduce
  split
  · next hn =>
    rw [hn]
  · next hn =>
    have hmod := (Nat.mod_modEq (n - 1) (top w)).add_right 1
    rw [Nat.sub_add_cancel (Nat.pos_of_ne_zero hn)] at hmod
    exact hmod

/-- A number is reduced to the word of its residue that is not zero. -/
theorem reduce_eq_of_modEq {n r : Nat} (hw : 0 < w) (hn : 0 < n) (hr : 0 < r) (hle : r ≤ top w)
    (h : r ≡ n [MOD top w]) : reduce w n = r := by
  have hpos := reduce_pos (w := w) hn
  have htop := reduce_le hw n
  have hmod : reduce w n ≡ r [MOD top w] := (reduce_modEq n).trans h.symm
  obtain ⟨a, ha⟩ := Nat.exists_eq_add_of_le' hpos
  obtain ⟨b, hb⟩ := Nat.exists_eq_add_of_le' hr
  rw [ha, hb] at hmod
  have hab : a = b := (Nat.ModEq.add_right_cancel' 1 hmod).eq_of_lt_of_lt (by omega) (by omega)
  rw [ha, hb, hab]

/-- A word is what it is. -/
theorem reduce_of_le {n : Nat} (hw : 0 < w) (h : n ≤ top w) : reduce w n = n := by
  rcases Nat.eq_zero_or_pos n with rfl | hn
  · rfl
  · exact reduce_eq_of_modEq hw hn hn h Nat.ModEq.rfl

/-- Numbers with one residue that are zero together are reduced alike. -/
theorem reduce_congr {m n : Nat} (hw : 0 < w) (h0 : m = 0 ↔ n = 0) (h : m ≡ n [MOD top w]) :
    reduce w m = reduce w n := by
  rcases Nat.eq_zero_or_pos n with hn | hn
  · rw [hn, h0.mpr hn]
  · have hm : 0 < m := Nat.pos_of_ne_zero fun hm ↦ hn.ne' (h0.mp hm)
    exact reduce_eq_of_modEq hw hm (reduce_pos hn) (reduce_le hw n) ((reduce_modEq n).trans h.symm)

private theorem reduce_eq_zero {n : Nat} : reduce w n = 0 ↔ n = 0 := by
  constructor
  · intro h
    by_contra hn
    exact (reduce_pos (Nat.pos_of_ne_zero hn)).ne' h
  · rintro rfl
    rfl

/-- A summand may be reduced first. -/
theorem reduce_add_reduce (hw : 0 < w) (m n : Nat) : reduce w (reduce w m + n) = reduce w (m + n) := by
  apply reduce_congr hw
  · rw [Nat.add_eq_zero_iff, Nat.add_eq_zero_iff, reduce_eq_zero]
  · exact (reduce_modEq m).add_right n

/-! ### Sums -/

/-- An end-around carry reduces. -/
theorem add_eq_reduce {a b : Nat} (hw : 0 < w) (ha : a ≤ top w) (hb : b ≤ top w) :
    add w a b = reduce w (a + b) := by
  have htwo := two_pow_eq w
  unfold add
  split
  · next hlt => exact (reduce_of_le hw (by omega)).symm
  · next hge =>
    refine (reduce_eq_of_modEq hw (by omega) (by omega) (by omega) ?_).symm
    have hsplit : a + b = a + b + 1 - 2 ^ w + top w := by omega
    conv_rhs => rw [hsplit]
    exact Nat.ModEq.symm (Nat.add_modEq_right)

private theorem foldl_add (hw : 0 < w) {ws : List Nat} (h : ∀ a ∈ ws, a ≤ top w) (n : Nat) :
    ws.foldl (add w) (reduce w n) = reduce w (n + ws.sum) := by
  induction ws generalizing n with
  | nil => rfl
  | cons a ws ih =>
    rw [List.foldl_cons, add_eq_reduce hw (reduce_le hw n) (h a List.mem_cons_self),
      reduce_add_reduce hw, ih (fun b hb ↦ h b (List.mem_cons_of_mem a hb)), List.sum_cons, Nat.add_assoc]

/-- The one's complement sum is the sum, reduced. -/
theorem sum_eq_reduce (hw : 0 < w) {ws : List Nat} (h : ∀ a ∈ ws, a ≤ top w) :
    sum w ws = reduce w ws.sum := by
  have hfold := foldl_add hw h 0
  rw [reduce_zero, Nat.zero_add] at hfold
  exact hfold

/-- A sum is the other zero if it is a multiple of it and not of zeros alone. -/
theorem sum_eq_top_iff (hw : 0 < w) {ws : List Nat} (h : ∀ a ∈ ws, a ≤ top w) :
    sum w ws = top w ↔ 0 < ws.sum ∧ top w ∣ ws.sum := by
  rw [sum_eq_reduce hw h]
  constructor
  · intro htop
    have hpos : 0 < ws.sum := by
      apply Nat.pos_of_ne_zero
      intro h0
      rw [h0, reduce_zero] at htop
      exact (top_pos hw).ne htop
    have hmod := (reduce_modEq (w := w) ws.sum).symm
    rw [htop] at hmod
    exact ⟨hpos, (Nat.modEq_zero_iff_dvd.mp (hmod.trans (Nat.modEq_zero_iff_dvd.mpr dvd_rfl)))⟩
  · rintro ⟨hpos, hdvd⟩
    apply reduce_eq_of_modEq hw hpos (top_pos hw) le_rfl
    exact (Nat.modEq_zero_iff_dvd.mpr dvd_rfl).trans (Nat.modEq_zero_iff_dvd.mpr hdvd).symm

/-! ### Folding -/

/-- Folding keeps what a number is as a word. -/
theorem reduce_fold (hw : 0 < w) (n : Nat) : reduce w (fold w n) = reduce w n := by
  have hdiv : n = 2 ^ w * (n / 2 ^ w) + n % 2 ^ w := (Nat.div_add_mod n (2 ^ w)).symm
  unfold fold
  apply reduce_congr hw
  · constructor
    · intro h
      obtain ⟨hhi, hlo⟩ := Nat.add_eq_zero_iff.mp h
      rw [hdiv, hhi, hlo]
      rfl
    · rintro rfl
      rw [Nat.zero_div, Nat.zero_mod]
  · conv_rhs => rw [hdiv]
    apply Nat.ModEq.add_right
    rw [two_pow_eq, Nat.add_mul, Nat.one_mul]
    exact (Nat.left_modEq_add_iff.mpr (Nat.dvd_mul_right _ _)).trans (by rw [Nat.add_comm])

/-- One fold of a number of two words leaves a carry of one at most. -/
theorem fold_lt_of_lt {n : Nat} (h : n < 2 ^ w * 2 ^ w) : fold w n < 2 * 2 ^ w - 1 := by
  have hpos : 0 < 2 ^ w := Nat.two_pow_pos w
  have hhi : n / 2 ^ w < 2 ^ w := Nat.div_lt_of_lt_mul h
  have hlo : n % 2 ^ w < 2 ^ w := Nat.mod_lt n hpos
  unfold fold
  omega

/-- The second fold brings it into the word. -/
theorem fold_lt {n : Nat} (h : n < 2 * 2 ^ w - 1) : fold w n < 2 ^ w := by
  have hpos : 0 < 2 ^ w := Nat.two_pow_pos w
  unfold fold
  rcases Nat.lt_or_ge n (2 ^ w) with hlt | hge
  · rw [Nat.div_eq_of_lt hlt, Nat.mod_eq_of_lt hlt, Nat.zero_add]
    exact hlt
  · have hsub : n - 2 ^ w < 2 ^ w := by omega
    rw [Nat.div_eq_sub_div hpos hge, Nat.mod_eq_sub_mod hge, Nat.div_eq_of_lt hsub, Nat.mod_eq_of_lt hsub]
    omega

/-- Two folds of a number of two words reduce it. -/
theorem fold_fold (hw : 0 < w) {n : Nat} (h : n < 2 ^ w * 2 ^ w) : fold w (fold w n) = reduce w n := by
  have hlt : fold w (fold w n) < 2 ^ w := fold_lt (fold_lt_of_lt h)
  rw [← reduce_fold hw n, ← reduce_fold hw (fold w n)]
  exact (reduce_of_le hw (by rw [two_pow_eq] at hlt; omega)).symm

/-- A carry is added to the word it stands above. -/
theorem fold_eq_mod {n : Nat} (h : fold w n < 2 ^ w) : (n + n / 2 ^ w) % 2 ^ w = fold w n := by
  have hmod : (n + n / 2 ^ w) % 2 ^ w = fold w n % 2 ^ w := by
    unfold fold
    rw [Nat.add_comm (n / 2 ^ w), Nat.mod_add_mod]
  rw [hmod, Nat.mod_eq_of_lt h]

/-! ### The complement -/

/-- A number and the complement of its word have the sum that stands for zero. -/
theorem reduce_add_complement (hw : 0 < w) (n : Nat) :
    reduce w (n + complement w (reduce w n)) = top w := by
  have hle := reduce_le hw n
  rw [← reduce_add_reduce hw]
  unfold complement
  rw [Nat.add_sub_cancel' hle]
  exact reduce_of_le hw (Nat.le_refl _)

end Unpv13e.Base.OnesComplement
