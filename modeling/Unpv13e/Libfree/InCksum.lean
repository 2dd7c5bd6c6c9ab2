import Mathlib.Algebra.Order.BigOperators.Group.List
import Mathlib.Algebra.Order.Ring.Nat
import Unpv13e.Base.OnesComplement

/-!
# `in_cksum`

Library `Libfree`. `src/libfree/in_cksum.c`: the 16-bit words of a buffer are added up in a 32-bit accumulator,
whose upper half is folded into the lower one twice. The words are those of the machine, of either byte order.
-/

namespace Unpv13e.Libfree
open Unpv13e.Base

/-- The order of the bytes of a word in memory. -/
inductive ByteOrder
  | little
  | big
  deriving DecidableEq, Repr

/-- The word that two bytes of memory hold. -/
def ByteOrder.word : ByteOrder → UInt8 → UInt8 → UInt16
  | .little, a, b => a.toUInt16 + 256 * b.toUInt16
  | .big, a, b => 256 * a.toUInt16 + b.toUInt16

/-- The two bytes that hold a word. -/
def ByteOrder.bytes : ByteOrder → UInt16 → UInt8 × UInt8
  | .little, x => (x.toUInt8, (x >>> 8).toUInt8)
  | .big, x => ((x >>> 8).toUInt8, x.toUInt8)

/-- Lines 16–25: the words are added, and an odd last byte as the first byte of a word that is zero. -/
def accumulate (order : ByteOrder) : UInt32 → List UInt8 → UInt32
  | sum, a :: b :: w => accumulate order (sum + (order.word a b).toUInt32) w
  | sum, [a] => sum + (order.word a 0).toUInt32
  | sum, [] => sum

/-- `in_cksum(addr, len)`, `src/libfree/in_cksum.c:3–32`, of the `len` bytes at `addr`. -/
def in_cksum (order : ByteOrder) (addr : List UInt8) : UInt16 :=
  let sum := accumulate order 0 addr
  let sum := (sum >>> 16) + (sum &&& 0xffff)
  let sum := sum + (sum >>> 16)
  (~~~sum).toUInt16

/-! ### The words of a buffer -/

/-- The words, an odd last byte padded with zero. -/
def words (order : ByteOrder) : List UInt8 → List UInt16
  | a :: b :: w => order.word a b :: words order w
  | [a] => [order.word a 0]
  | [] => []

/-- Their values. -/
def values (order : ByteOrder) (addr : List UInt8) : List Nat := (words order addr).map UInt16.toNat

variable {order : ByteOrder} {addr : List UInt8}

theorem values_le : ∀ a ∈ values order addr, a ≤ OnesComplement.top 16 := by
  intro a ha
  obtain ⟨x, -, rfl⟩ := List.mem_map.mp ha
  exact Nat.le_of_lt_succ x.toNat_lt

private theorem length_words (order : ByteOrder) (addr : List UInt8) :
    (words order addr).length = (addr.length + 1) / 2 := by
  fun_induction words order addr with
  | case1 a b w ih =>
    rw [List.length_cons, ih, List.length_cons, List.length_cons]
    omega
  | case2 a => exact (show 1 = (1 + 1) / 2 from rfl)
  | case3 => rfl

private theorem sum_values_le : (values order addr).sum ≤ (addr.length + 1) / 2 * 65535 := by
  have hsum := List.sum_le_card_nsmul (values order addr) 65535 values_le
  have hlen : (values order addr).length = (addr.length + 1) / 2 := by
    rw [values, List.length_map, length_words]
  rw [hlen] at hsum
  exact hsum

/-! ### The accumulator -/

/-- A word is added without a carry out. -/
private theorem toNat_add_word {sum : UInt32} {x : UInt16} (h : sum.toNat + x.toNat < 2 ^ 32) :
    (sum + x.toUInt32).toNat = sum.toNat + x.toNat := by
  rw [UInt32.toNat_add, UInt16.toNat_toUInt32, Nat.mod_eq_of_lt h]

private theorem toNat_accumulate (sum : UInt32) (h : sum.toNat + (values order addr).sum < 2 ^ 32) :
    (accumulate order sum addr).toNat = sum.toNat + (values order addr).sum := by
  fun_induction accumulate order sum addr with
  | case1 sum a b w ih =>
    have hvalues : (values order (a :: b :: w)).sum = (order.word a b).toNat + (values order w).sum := rfl
    rw [hvalues] at h ⊢
    have hadd : (sum + (order.word a b).toUInt32).toNat = sum.toNat + (order.word a b).toNat :=
      toNat_add_word (by omega)
    rw [ih (by rw [hadd]; omega), hadd, Nat.add_assoc]
  | case2 sum a =>
    have hvalues : (values order [a]).sum = (order.word a 0).toNat := rfl
    rw [hvalues] at h ⊢
    exact toNat_add_word h
  | case3 sum => rfl

/-- The accumulator holds the sum: it has room for that of 65536 words. -/
theorem toNat_accumulate_zero (h : addr.length ≤ 131072) :
    (accumulate order 0 addr).toNat = (values order addr).sum := by
  have hle := @sum_values_le order addr
  have hsum := @toNat_accumulate order addr 0 (by
    change 0 + _ < _
    omega)
  rw [hsum]
  exact Nat.zero_add _

/-- The upper half of the accumulator added to the lower one. -/
private theorem toNat_fold (sum : UInt32) :
    ((sum >>> 16) + (sum &&& (0xffff : UInt32))).toNat = OnesComplement.fold 16 sum.toNat ∧
      ((sum >>> 16) + (sum &&& (0xffff : UInt32))).toNat =
        (sum >>> 16).toNat + (sum &&& (0xffff : UInt32)).toNat := by
  have hlt : OnesComplement.fold 16 sum.toNat < 2 * 2 ^ 16 - 1 := OnesComplement.fold_lt_of_lt sum.toNat_lt
  have hand : (sum &&& (0xffff : UInt32)).toNat = sum.toNat % 2 ^ 16 := by
    rw [UInt32.toNat_and]
    exact Nat.and_two_pow_sub_one_eq_mod sum.toNat 16
  have hshift : (sum >>> 16).toNat = sum.toNat / 2 ^ 16 := by
    rw [UInt32.toNat_shiftRight]
    exact Nat.shiftRight_eq_div_pow sum.toNat 16
  unfold OnesComplement.fold at hlt ⊢
  rw [UInt32.toNat_add, hand, hshift, Nat.mod_eq_of_lt (by omega)]
  exact ⟨rfl, rfl⟩

/-- The carry added, and the complement cut to a word. -/
private theorem toNat_answer {sum : UInt32} (h : sum.toNat < 2 * 2 ^ 16 - 1) :
    (sum + (sum >>> 16)).toNat = sum.toNat + (sum >>> 16).toNat ∧
      (~~~(sum + (sum >>> 16))).toUInt16.toNat =
        OnesComplement.complement 16 (OnesComplement.fold 16 sum.toNat) := by
  have hshift : (sum >>> 16).toNat = sum.toNat / 2 ^ 16 := by
    rw [UInt32.toNat_shiftRight]
    exact Nat.shiftRight_eq_div_pow sum.toNat 16
  have hadd : (sum + (sum >>> 16)).toNat = sum.toNat + sum.toNat / 2 ^ 16 := by
    rw [UInt32.toNat_add, hshift, Nat.mod_eq_of_lt (by omega)]
  have hfold := OnesComplement.fold_eq_mod (OnesComplement.fold_lt h)
  have hlt := OnesComplement.fold_lt h
  refine ⟨hadd.trans (by rw [hshift]), ?_⟩
  rw [UInt32.toNat_toUInt16, UInt32.toNat_not, hadd]
  unfold OnesComplement.complement OnesComplement.top UInt32.size
  omega

/-- What is returned: the complement of the sum as a word. -/
theorem toNat_in_cksum (h : addr.length ≤ 131072) : (in_cksum order addr).toNat =
    OnesComplement.complement 16 (OnesComplement.reduce 16 (values order addr).sum) := by
  have hsum : (accumulate order 0 addr).toNat = (values order addr).sum := toNat_accumulate_zero h
  have hfold := (toNat_fold (accumulate order 0 addr)).1
  have hlt : OnesComplement.fold 16 (accumulate order 0 addr).toNat < 2 * 2 ^ 16 - 1 :=
    OnesComplement.fold_lt_of_lt (accumulate order 0 addr).toNat_lt
  have hanswer := (toNat_answer (hfold ▸ hlt)).2
  rw [hfold, OnesComplement.fold_fold (by decide) (accumulate order 0 addr).toNat_lt, hsum] at hanswer
  exact hanswer

/-- No addition wraps: not in the loop, after any of its turns, nor with the odd byte, nor in the folds. -/
structure NoOverflow (order : ByteOrder) (addr : List UInt8) : Prop where
  turn : ∀ k, (accumulate order 0 (addr.take (2 * k))).toNat = (values order (addr.take (2 * k))).sum
  odd : (accumulate order 0 addr).toNat = (values order addr).sum
  folded : ∀ sum, sum = accumulate order 0 addr →
    ((sum >>> 16) + (sum &&& (0xffff : UInt32))).toNat = (sum >>> 16).toNat + (sum &&& (0xffff : UInt32)).toNat
  carry : ∀ sum, sum = (accumulate order 0 addr >>> 16) + (accumulate order 0 addr &&& (0xffff : UInt32)) →
    (sum + (sum >>> 16)).toNat = sum.toNat + (sum >>> 16).toNat

private theorem noOverflow (h : addr.length ≤ 65535) : NoOverflow order addr := by
  refine ⟨fun k ↦ ?_, toNat_accumulate_zero (h.trans (by decide)), ?_, ?_⟩
  · apply toNat_accumulate_zero
    rw [List.length_take]
    omega
  · rintro sum -
    exact (toNat_fold sum).2
  · rintro sum rfl
    have hlt : OnesComplement.fold 16 (accumulate order 0 addr).toNat < 2 * 2 ^ 16 - 1 :=
      OnesComplement.fold_lt_of_lt (accumulate order 0 addr).toNat_lt
    rw [← (toNat_fold _).1] at hlt
    exact (toNat_answer hlt).1

/-! ### Either byte order -/

theorem toNat_two_bytes (a b : UInt8) :
    (a.toUInt16 + (256 : UInt16) * b.toUInt16).toNat = a.toNat + 256 * b.toNat := by
  have ha := a.toNat_lt
  have hb := b.toNat_lt
  rw [UInt16.toNat_add, UInt16.toNat_mul, UInt8.toNat_toUInt16, UInt8.toNat_toUInt16]
  change (a.toNat + 256 * b.toNat % 2 ^ 16) % 2 ^ 16 = _
  omega

theorem toNat_word_little (a b : UInt8) : (ByteOrder.little.word a b).toNat = a.toNat + 256 * b.toNat :=
  toNat_two_bytes a b

theorem toNat_word_big (a b : UInt8) : (ByteOrder.big.word a b).toNat = b.toNat + 256 * a.toNat := by
  rw [← toNat_two_bytes b a]
  exact congrArg UInt16.toNat (UInt16.add_comm _ _)

/-- A word of swapped bytes is 256 times the word, with the carries brought around. -/
private theorem word_modEq (a b : UInt8) :
    (ByteOrder.little.word a b).toNat ≡ 256 * (ByteOrder.big.word a b).toNat [MOD OnesComplement.top 16] := by
  rw [toNat_word_little, toNat_word_big]
  change (a.toNat + 256 * b.toNat) % 65535 = (256 * (b.toNat + 256 * a.toNat)) % 65535
  omega

private theorem values_modEq (addr : List UInt8) :
    (values .little addr).sum ≡ 256 * (values .big addr).sum [MOD OnesComplement.top 16] := by
  fun_induction words .little addr with
  | case1 a b w ih =>
    have hlittle : (values .little (a :: b :: w)).sum =
        (ByteOrder.little.word a b).toNat + (values .little w).sum := rfl
    have hbig : (values .big (a :: b :: w)).sum = (ByteOrder.big.word a b).toNat + (values .big w).sum := rfl
    rw [hlittle, hbig, Nat.mul_add]
    exact (word_modEq a b).add ih
  | case2 a => exact word_modEq a 0
  | case3 => rfl

private theorem values_pos (addr : List UInt8) :
    0 < (values .little addr).sum ↔ 0 < (values .big addr).sum := by
  fun_induction words .little addr with
  | case1 a b w ih =>
    have hlittle : (values .little (a :: b :: w)).sum =
        (ByteOrder.little.word a b).toNat + (values .little w).sum := rfl
    have hbig : (values .big (a :: b :: w)).sum = (ByteOrder.big.word a b).toNat + (values .big w).sum := rfl
    rw [hlittle, hbig, toNat_word_little, toNat_word_big]
    omega
  | case2 a =>
    change 0 < (ByteOrder.little.word a 0).toNat ↔ 0 < (ByteOrder.big.word a 0).toNat
    rw [toNat_word_little, toNat_word_big]
    omega
  | case3 => rfl

/-- Whether the sum is the other zero does not depend on the byte order. -/
theorem sum_eq_top_congr (order order' : ByteOrder) (addr : List UInt8) :
    OnesComplement.sum 16 (values order addr) = OnesComplement.top 16 ↔
      OnesComplement.sum 16 (values order' addr) = OnesComplement.top 16 := by
  have hswap : OnesComplement.sum 16 (values .little addr) = OnesComplement.top 16 ↔
      OnesComplement.sum 16 (values .big addr) = OnesComplement.top 16 := by
    rw [OnesComplement.sum_eq_top_iff (by decide) values_le, OnesComplement.sum_eq_top_iff (by decide) values_le,
      values_pos, (values_modEq addr).dvd_iff dvd_rfl]
    exact and_congr_right fun _ ↦ Nat.Coprime.dvd_mul_left (by decide)
  cases order <;> cases order'
  · rfl
  · exact hswap
  · exact hswap.symm
  · rfl

/-! ### A checksum in its field -/

/-- A word stored at an even offset. -/
def storeWord (order : ByteOrder) (addr : List UInt8) (k : Nat) (x : UInt16) : List UInt8 :=
  (addr.set (2 * k) (order.bytes x).1).set (2 * k + 1) (order.bytes x).2

theorem word_bytes (order : ByteOrder) (x : UInt16) :
    order.word (order.bytes x).1 (order.bytes x).2 = x := by
  have hx := x.toNat_lt
  have hlo : x.toUInt8.toNat = x.toNat % 256 := UInt16.toNat_toUInt8 x
  have hhi : (x >>> 8).toUInt8.toNat = x.toNat / 256 := by
    rw [UInt16.toNat_toUInt8, UInt16.toNat_shiftRight]
    change x.toNat >>> 8 % 2 ^ 8 = x.toNat / 256
    rw [Nat.shiftRight_eq_div_pow]
    omega
  have hjoin : x.toUInt8.toUInt16 + (256 : UInt16) * (x >>> 8).toUInt8.toUInt16 = x := by
    apply UInt16.toNat_inj.mp
    rw [toNat_two_bytes, hlo, hhi]
    omega
  cases order with
  | little => exact hjoin
  | big => exact (UInt16.add_comm _ _).trans hjoin

/-- The bytes of a word are those it was made of. -/
theorem bytes_word (order : ByteOrder) (a b : UInt8) : order.bytes (order.word a b) = (a, b) := by
  have hlo (a b : UInt8) : (a.toUInt16 + (256 : UInt16) * b.toUInt16).toUInt8 = a := by
    apply UInt8.toNat_inj.mp
    rw [UInt16.toNat_toUInt8, toNat_two_bytes]
    have ha := a.toNat_lt
    omega
  have hhi (a b : UInt8) : ((a.toUInt16 + (256 : UInt16) * b.toUInt16) >>> 8).toUInt8 = b := by
    apply UInt8.toNat_inj.mp
    rw [UInt16.toNat_toUInt8, UInt16.toNat_shiftRight, toNat_two_bytes]
    change (a.toNat + 256 * b.toNat) >>> 8 % 2 ^ 8 = b.toNat
    have ha := a.toNat_lt
    have hb := b.toNat_lt
    rw [Nat.shiftRight_eq_div_pow]
    omega
  cases order with
  | little => exact Prod.ext (hlo a b) (hhi a b)
  | big =>
    have hword : ByteOrder.big.word a b = b.toUInt16 + (256 : UInt16) * a.toUInt16 := UInt16.add_comm _ _
    rw [hword]
    exact Prod.ext (hhi b a) (hlo b a)

/-- A buffer with a word at an even offset. -/
private theorem exists_cons_cons {k : Nat} (h : 2 * k + 1 < addr.length) : ∃ a b w, addr = a :: b :: w := by
  cases addr with
  | nil => exact absurd h (Nat.not_lt_zero _)
  | cons a w =>
    cases w with
    | nil =>
      rw [List.length_singleton] at h
      omega
    | cons b w => exact ⟨a, b, w, rfl⟩

private theorem words_storeWord {k : Nat} (x : UInt16) (h : 2 * k + 1 < addr.length) :
    words order (storeWord order addr k x) = (words order addr).set k x := by
  induction k generalizing addr with
  | zero =>
    obtain ⟨a, b, w, rfl⟩ := exists_cons_cons h
    exact congrArg (· :: words order w) (word_bytes order x)
  | succ k ih =>
    obtain ⟨a, b, w, rfl⟩ := exists_cons_cons h
    have hw : 2 * k + 1 < w.length := by
      rw [List.length_cons, List.length_cons] at h
      omega
    exact congrArg (order.word a b :: ·) (ih hw)

private theorem words_zero {k : Nat} (h : addr[2 * k]? = some 0) (h' : addr[2 * k + 1]? = some 0) :
    (words order addr)[k]? = some 0 := by
  obtain ⟨hk, -⟩ := List.getElem?_eq_some_iff.mp h'
  induction k generalizing addr with
  | zero =>
    obtain ⟨a, b, w, rfl⟩ := exists_cons_cons hk
    cases h
    cases h'
    cases order with
    | little => rfl
    | big => rfl
  | succ k ih =>
    obtain ⟨a, b, w, rfl⟩ := exists_cons_cons hk
    obtain ⟨hw, -⟩ := List.getElem?_eq_some_iff.mp (show w[2 * k + 1]? = some 0 from h')
    exact ih h h' hw

private theorem sum_set {ws : List Nat} {k : Nat} (h : ws[k]? = some 0) (v : Nat) :
    (ws.set k v).sum = ws.sum + v := by
  induction ws generalizing k with
  | nil => cases h
  | cons a ws ih =>
    cases k with
    | zero =>
      cases h
      rw [List.set_cons_zero, List.sum_cons, List.sum_cons]
      omega
    | succ k =>
      rw [List.set_cons_succ, List.sum_cons, List.sum_cons, ih h, Nat.add_assoc]

/-- A buffer that holds its own checksum has the checksum zero. -/
private theorem in_cksum_storeWord (hlen : addr.length ≤ 65535) {k : Nat} (h : addr[2 * k]? = some 0)
    (h' : addr[2 * k + 1]? = some 0) :
    in_cksum order (storeWord order addr k (in_cksum order addr)) = 0 := by
  obtain ⟨hk, -⟩ := List.getElem?_eq_some_iff.mp h'
  have hstored : (storeWord order addr k (in_cksum order addr)).length ≤ 65535 := by
    unfold storeWord
    rw [List.length_set, List.length_set]
    exact hlen
  have hvalues : (values order (storeWord order addr k (in_cksum order addr))).sum =
      (values order addr).sum + (in_cksum order addr).toNat := by
    have hzero : (values order addr)[k]? = some 0 := by
      unfold values
      rw [List.getElem?_map, words_zero h h']
      rfl
    unfold values
    rw [words_storeWord _ hk, List.map_set]
    exact sum_set hzero _
  apply UInt16.toNat_inj.mp
  rw [toNat_in_cksum (hstored.trans (by decide)), hvalues, toNat_in_cksum (hlen.trans (by decide)),
    OnesComplement.reduce_add_complement (by decide)]
  rfl

/-- `in_cksum` is the complement of the one's complement sum of the words, computed without overflow, and
verifies itself wherever it is stored. -/
theorem in_cksum_correct (h : addr.length ≤ 65535) :
    NoOverflow order addr ∧
    (in_cksum order addr).toNat = OnesComplement.complement 16 (OnesComplement.sum 16 (values order addr)) ∧
    ∀ k, addr[2 * k]? = some 0 → addr[2 * k + 1]? = some 0 →
      in_cksum order (storeWord order addr k (in_cksum order addr)) = 0 := by
  refine ⟨noOverflow h, ?_, fun k hk hk' ↦ in_cksum_storeWord h hk hk'⟩
  rw [toNat_in_cksum (h.trans (by decide)), OnesComplement.sum_eq_reduce (by decide) values_le]

/-- An echo request with five bytes of data. -/
theorem in_cksum_echo :
    in_cksum .little (storeWord .little [8, 0, 0, 0, 0x12, 0x34, 0, 1, 0xa5, 0xa5, 0xa5, 0xa5, 0xa5] 1
      (in_cksum .little [8, 0, 0, 0, 0x12, 0x34, 0, 1, 0xa5, 0xa5, 0xa5, 0xa5, 0xa5])) = 0 :=
  (in_cksum_correct (by decide)).2.2 1 rfl rfl

end Unpv13e.Libfree
