import Unpv13e.Base.Fields
import Unpv13e.Base.Memory

/-!
# Reading memory

Library `Base`. A computation over memory that keeps the fields it reads, and numbers of which the low byte stands
first.
-/

namespace Unpv13e.Base

/-- What is computed, and what was read for it, in order. -/
structure Read (α : Type) where
  val : α
  reads : List Field

variable {α β : Type} {n : Nat} {mem : Nat → UInt8}

instance : Monad Read where
  pure a := ⟨a, []⟩
  bind x f := ⟨(f x.val).val, x.reads ++ (f x.val).reads⟩

/-- The bytes of a field. -/
def bytesAt (mem : Nat → UInt8) (off len : Nat) : List UInt8 := (List.range len).map fun i ↦ mem (off + i)

/-- A number whose low byte stands first. -/
def ofBytes : List UInt8 → Nat
  | [] => 0
  | b :: bs => b.toNat + 256 * ofBytes bs

/-- The bytes of a number, the low one first. -/
def toBytes : Nat → Nat → List UInt8
  | 0, _ => []
  | len + 1, x => UInt8.ofNat x :: toBytes len (x / 256)

def load (mem : Nat → UInt8) (off len : Nat) : Read (List UInt8) := ⟨bytesAt mem off len, [⟨off, len⟩]⟩

def load8 (mem : Nat → UInt8) (off : Nat) : Read UInt8 := ⟨mem off, [⟨off, 1⟩]⟩

def load16 (mem : Nat → UInt8) (off : Nat) : Read UInt16 :=
  ⟨UInt16.ofNat (ofBytes (bytesAt mem off 2)), [⟨off, 2⟩]⟩

def load32 (mem : Nat → UInt8) (off : Nat) : Read UInt32 :=
  ⟨UInt32.ofNat (ofBytes (bytesAt mem off 4)), [⟨off, 4⟩]⟩

def load64 (mem : Nat → UInt8) (off : Nat) : Read UInt64 :=
  ⟨UInt64.ofNat (ofBytes (bytesAt mem off 8)), [⟨off, 8⟩]⟩

/-- A string, read up to its terminator. One that does not end before `n` is read beyond `n`. -/
def loadString (mem : Nat → UInt8) (off n : Nat) : Read (List UInt8) :=
  let s := stringAt 0 mem (n - off) off
  ⟨s, [⟨off, s.length + 1⟩]⟩

/-! ### What is computed -/

@[simp] theorem val_pure (a : α) : (pure a : Read α).val = a := rfl

@[simp] theorem val_bind (x : Read α) (f : α → Read β) : (x >>= f).val = (f x.val).val := rfl

@[simp] theorem val_load8 (mem : Nat → UInt8) (off : Nat) : (load8 mem off).val = mem off := rfl

@[simp] theorem val_load (mem : Nat → UInt8) (off len : Nat) : (load mem off len).val = bytesAt mem off len := rfl

@[simp] theorem val_loadString (mem : Nat → UInt8) (off n : Nat) :
    (loadString mem off n).val = stringAt 0 mem (n - off) off := rfl

theorem length_bytesAt (mem : Nat → UInt8) (off len : Nat) : (bytesAt mem off len).length = len := by
  rw [bytesAt, List.length_map, List.length_range]

/-! ### What is read -/

@[simp] theorem within_pure (a : α) : Within (pure a : Read α).reads n ↔ True := iff_true_intro within_nil

@[simp] theorem within_bind (x : Read α) (f : α → Read β) :
    Within (x >>= f).reads n ↔ Within x.reads n ∧ Within (f x.val).reads n := within_append

@[simp] theorem within_load (mem : Nat → UInt8) (off len : Nat) :
    Within (load mem off len).reads n ↔ off + len ≤ n := within_singleton

@[simp] theorem within_load8 (mem : Nat → UInt8) (off : Nat) : Within (load8 mem off).reads n ↔ off + 1 ≤ n :=
  within_singleton

@[simp] theorem within_load16 (mem : Nat → UInt8) (off : Nat) : Within (load16 mem off).reads n ↔ off + 2 ≤ n :=
  within_singleton

@[simp] theorem within_load32 (mem : Nat → UInt8) (off : Nat) : Within (load32 mem off).reads n ↔ off + 4 ≤ n :=
  within_singleton

@[simp] theorem within_load64 (mem : Nat → UInt8) (off : Nat) : Within (load64 mem off).reads n ↔ off + 8 ≤ n :=
  within_singleton

@[simp] theorem within_loadString (mem : Nat → UInt8) (off m : Nat) :
    Within (loadString mem off m).reads n ↔ off + ((stringAt 0 mem (m - off) off).length + 1) ≤ n :=
  within_singleton

/-! ### Bytes of numbers -/

theorem length_toBytes (len x : Nat) : (toBytes len x).length = len := by
  induction len generalizing x with
  | zero => rfl
  | succ len ih => rw [toBytes, List.length_cons, ih]

/-- A number is read back modulo the room it had. -/
theorem ofBytes_toBytes (len x : Nat) : ofBytes (toBytes len x) = x % 256 ^ len := by
  induction len generalizing x with
  | zero => rw [Nat.pow_zero, Nat.mod_one, toBytes, ofBytes]
  | succ len ih =>
    have hpow : 256 ^ (len + 1) = 256 * 256 ^ len := Nat.pow_succ'
    rw [toBytes, ofBytes, ih, UInt8.toNat_ofNat', hpow]
    exact Nat.mod_mul.symm

/-- Bytes are the bytes of the number they hold. -/
theorem toBytes_ofBytes (bs : List UInt8) : toBytes bs.length (ofBytes bs) = bs := by
  induction bs with
  | nil => rfl
  | cons b bs ih =>
    have hb := b.toNat_lt
    have hlow : UInt8.ofNat (b.toNat + 256 * ofBytes bs) = b := by
      apply UInt8.toNat_inj.mp
      rw [UInt8.toNat_ofNat']
      omega
    have hhigh : (b.toNat + 256 * ofBytes bs) / 256 = ofBytes bs := by omega
    rw [List.length_cons, ofBytes, toBytes, hlow, hhigh, ih]

theorem ofBytes_lt (bs : List UInt8) : ofBytes bs < 256 ^ bs.length := by
  induction bs with
  | nil => exact Nat.one_pos
  | cons b bs ih =>
    have hb := b.toNat_lt
    have hpow : 256 ^ (bs.length + 1) = 256 * 256 ^ bs.length := Nat.pow_succ'
    rw [ofBytes, List.length_cons, hpow]
    omega

/-! ### Bytes in memory -/

variable {a b bs : List UInt8} {off off' k m : Nat}

/-- Memory holds bytes at an offset. -/
def HasBytes (mem : Nat → UInt8) (off : Nat) (bs : List UInt8) : Prop := bytesAt mem off bs.length = bs

private theorem hasBytes_of (h : ∀ (i : Nat) (hi : i < bs.length), mem (off + i) = bs[i]) : HasBytes mem off bs := by
  apply List.ext_getElem (length_bytesAt _ _ _)
  intro i _ hi
  simp only [bytesAt, List.getElem_map, List.getElem_range, h i hi]

theorem HasBytes.get (h : HasBytes mem off bs) {i : Nat} (hi : i < bs.length) : mem (off + i) = bs[i] := by
  have hget := congrArg (·[i]?) h
  simp only [bytesAt, List.getElem?_map, List.getElem?_range hi, Option.map_some] at hget
  rw [List.getElem?_eq_getElem hi] at hget
  exact Option.some.inj hget

/-- A field of the bytes. -/
theorem HasBytes.bytesAt (h : HasBytes mem off bs) (hle : k + m ≤ bs.length) :
    bytesAt mem (off + k) m = (bs.drop k).take m := by
  apply List.ext_getElem
  · rw [length_bytesAt, List.length_take, List.length_drop]
    omega
  · intro i hi _
    rw [length_bytesAt] at hi
    simp only [Base.bytesAt, List.getElem_map, List.getElem_range, List.getElem_take, List.getElem_drop]
    rw [Nat.add_assoc, h.get (show k + i < bs.length by omega)]

theorem HasBytes.tail {c : UInt8} (h : HasBytes mem off (c :: bs)) :
    HasBytes mem (off + 1) bs := hasBytes_of fun i hi ↦ by
  rw [Nat.add_assoc, Nat.add_comm 1 i]
  exact h.get (Nat.succ_lt_succ hi)

/-- Memory that agrees from an offset on holds the same bytes there. -/
theorem HasBytes.congr {mem' : Nat → UInt8} (h : HasBytes mem off bs) (hmem : ∀ i, off ≤ i → mem' i = mem i) :
    HasBytes mem' off bs := hasBytes_of fun i hi ↦ by
  rw [hmem _ (Nat.le_add_right off i), h.get hi]

/-- A string is read that memory holds. -/
theorem HasBytes.stringAt (h : HasBytes mem off (bs ++ [0])) (hz : 0 ∉ bs) {n : Nat} (hn : bs.length < n) :
    stringAt 0 mem n off = bs := by
  apply stringAt_eq 0 hz hn
  · intro i hi
    rw [h.get (by rw [List.length_append]; omega), List.getElem_append_left hi]
  · have hend := h.get (i := bs.length) (by rw [List.length_append, List.length_singleton]; omega)
    rw [List.getElem_append_right (Nat.le_refl _)] at hend
    simpa using hend

/-- What is written is held. -/
theorem hasBytes_overwrite (mem : Nat → UInt8) (off : Nat) (bs : List UInt8) :
    HasBytes (overwrite mem off bs) off bs := hasBytes_of fun _ ↦ overwrite_add

/-- And it is held still after something is written behind it. -/
theorem HasBytes.overwrite_behind (h : HasBytes mem off bs) (hle : off + bs.length ≤ off') (a : List UInt8) :
    HasBytes (overwrite mem off' a) off bs := hasBytes_of fun i hi ↦ by
  rw [overwrite_before (show off + i < off' by omega), h.get hi]

/-- Or before it. -/
theorem HasBytes.overwrite_ahead (h : HasBytes mem off bs) (hle : off' + a.length ≤ off) :
    HasBytes (overwrite mem off' a) off bs := hasBytes_of fun i hi ↦ by
  rw [overwrite_after (show off' + a.length ≤ off + i by omega), h.get hi]

/-- Blocks written one after the other. -/
def writeAll (mem : Nat → UInt8) (blocks : List (Nat × List UInt8)) : Nat → UInt8 :=
  blocks.foldl (fun m block ↦ overwrite m block.1 block.2) mem

/-- Blocks of which each stands behind the one before, and the first not before `off`. -/
def Ascending : Nat → List (Nat × List UInt8) → Prop
  | _, [] => True
  | off, block :: blocks => off ≤ block.1 ∧ Ascending (block.1 + block.2.length) blocks

private theorem HasBytes.kept {blocks : List (Nat × List UInt8)} (h : HasBytes mem off bs)
    (hle : off + bs.length ≤ off') (hblocks : Ascending off' blocks) : HasBytes (writeAll mem blocks) off bs := by
  induction blocks generalizing mem off' with
  | nil => exact h
  | cons block blocks ih =>
    have hblock : off + bs.length ≤ block.1 := Nat.le_trans hle hblocks.1
    exact ih (h.overwrite_behind hblock block.2) (Nat.le_trans hblock (Nat.le_add_right _ _)) hblocks.2

/-- Ascending blocks are all held. -/
theorem hasBytes_writeAll {blocks : List (Nat × List UInt8)} (mem : Nat → UInt8) (h : Ascending off blocks) :
    ∀ block ∈ blocks, HasBytes (writeAll mem blocks) block.1 block.2 := by
  induction blocks generalizing mem off with
  | nil => exact fun _ hb ↦ absurd hb List.not_mem_nil
  | cons block blocks ih =>
    have hfirst : HasBytes (writeAll (overwrite mem block.1 block.2) blocks) block.1 block.2 :=
      (hasBytes_overwrite mem block.1 block.2).kept (Nat.le_refl _) h.2
    exact List.forall_mem_cons.mpr ⟨hfirst, ih _ h.2⟩

/-! ### Numbers in memory -/

theorem ofNat16 (x : UInt16) : UInt16.ofNat (ofBytes (toBytes 2 x.toNat)) = x := by
  apply UInt16.toNat_inj.mp
  rw [ofBytes_toBytes, UInt16.toNat_ofNat']
  have hx := x.toNat_lt
  omega

theorem ofNat32 (x : UInt32) : UInt32.ofNat (ofBytes (toBytes 4 x.toNat)) = x := by
  apply UInt32.toNat_inj.mp
  rw [ofBytes_toBytes, UInt32.toNat_ofNat']
  have hx := x.toNat_lt
  omega

/-- A word is read that the bytes hold. -/
theorem HasBytes.load16 (h : HasBytes mem off bs) {x : UInt16} (hle : k + 2 ≤ bs.length)
    (hx : (bs.drop k).take 2 = toBytes 2 x.toNat) : (load16 mem (off + k)).val = x := by
  unfold Base.load16
  rw [h.bytesAt hle, hx, ofNat16]

theorem HasBytes.load32 (h : HasBytes mem off bs) {x : UInt32} (hle : k + 4 ≤ bs.length)
    (hx : (bs.drop k).take 4 = toBytes 4 x.toNat) : (load32 mem (off + k)).val = x := by
  unfold Base.load32
  rw [h.bytesAt hle, hx, ofNat32]

end Unpv13e.Base
