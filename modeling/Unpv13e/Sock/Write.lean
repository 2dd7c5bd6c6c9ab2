import Unpv13e.Base.Runs
import Unpv13e.Lib.Readn

/-!
# Writing in chunks

Library `Sock`. `src/sock/write.c:17–66`: `dowrite`, which hands a buffer to one call of `write`, to a call of
`write` for each of at most `UIO_MAXIOV` chunks, or to one call of `writev` for all of them. What each system call
answers is a parameter.
-/

namespace Unpv13e.Sock

open Lib (Answer)

/-- The largest `int`. -/
def intMax : Nat := 2147483647

/-- The conversion of a `size_t` to an `int`. -/
def toInt (n : Nat) : Int := Int.bmod n (2 ^ 32)

/-- `struct iovec`, with its base as an offset into the buffer. -/
structure Iovec where
  iov_base : Nat
  iov_len : Nat
  deriving DecidableEq, Repr

/-- The bytes of a chunk. -/
def Iovec.bytes (buf : List UInt8) (v : Iovec) : List UInt8 := (buf.drop v.iov_base).take v.iov_len

/-- `chunksize`, `src/sock/write.c:32–36` -/
def chunksize (uioMaxiov nbytes : Nat) : Int :=
  let chunksize := toInt (nbytes / uioMaxiov)
  if chunksize ≤ 0 then 1 else if nbytes % uioMaxiov ≠ 0 then chunksize + 1 else chunksize

/-- The loop that fills `iov`, with the number of slots left. None is left when `i` has come to `UIO_MAXIOV`. -/
def layOut (chunksize : Int) : Nat → Nat → Int → Except String (List Iovec)
  | 0, _, _ => .error "i == UIO_MAXIOV"
  | slots + 1, ptr, nleft => do
    let n := if nleft ≥ chunksize then chunksize else nleft
    if nleft - n = 0 then return [⟨ptr, n.toNat⟩]
    else
      let iov ← layOut chunksize slots (ptr + n.toNat) (nleft - n)
      return ⟨ptr, n.toNat⟩ :: iov

/-- The chunks of a buffer of `nbytes` bytes, `src/sock/write.c:32–52`. -/
def chunks (uioMaxiov nbytes : Nat) : Except String (List Iovec) :=
  layOut (chunksize uioMaxiov nbytes) uioMaxiov 0 (toInt nbytes)

/-- A system call: how many bytes it was given, and what it returned. -/
structure Call where
  asked : Nat
  returned : Int
  deriving DecidableEq, Repr

/-- What `dowrite` returns, the bytes transferred, and the calls made. -/
structure Written where
  value : Int
  sent : List UInt8
  calls : List Call
  deriving DecidableEq, Repr

/-- No call has failed or has transferred less than it was given. -/
def Written.NoneShort (w : Written) : Prop := ∀ c ∈ w.calls, c.returned = c.asked

/-- A call for these bytes. -/
def writeOnce (bytes : List UInt8) (a : Answer) : Written :=
  let nwritten := a.written bytes.length
  ⟨nwritten, bytes.take nwritten.toNat, [⟨bytes.length, nwritten⟩]⟩

/-- The calls for the chunks, `src/sock/write.c:57–64`. `n` chunks have been written. -/
def writeChunks (buf : List UInt8) (answers : Nat → Answer) (n : Nat) (ntotal : Int) : List Iovec → Written
  | [] => ⟨ntotal, [], []⟩
  | v :: iov =>
    let w := writeOnce (v.bytes buf) (answers n)
    if w.value ≠ v.iov_len then { w with value := -1 }
    else
      let rest := writeChunks buf answers (n + 1) (ntotal + w.value) iov
      ⟨rest.value, w.sent ++ rest.sent, w.calls ++ rest.calls⟩

/-- `dowrite(fd, vptr, nbytes)`, `src/sock/write.c:17–66`, for the bytes at `vptr`. -/
def dowrite (uioMaxiov : Nat) (chunkwrite usewritev : Int) (vptr : List UInt8) (answers : Nat → Answer) :
    Except String Written :=
  if chunkwrite = 0 ∧ usewritev = 0 then .ok (writeOnce vptr (answers 0))
  else do
    let iov ← chunks uioMaxiov vptr.length
    if usewritev ≠ 0 then return writeOnce (iov.flatMap (·.bytes vptr)) (answers 0)
    else return writeChunks vptr answers 0 0 iov

/-! ### The chunks -/

/-- The chunks follow one another from `a` to `b`. -/
def Contiguous : Nat → List Iovec → Nat → Prop
  | a, [], b => a = b
  | a, v :: iov, b => v.iov_base = a ∧ Contiguous (a + v.iov_len) iov b

variable {uioMaxiov slots ptr nleft size a b n : Nat} {buf : List UInt8} {iov : List Iovec} {answers : Nat → Answer}

private theorem Contiguous.le (h : Contiguous a iov b) : a ≤ b := by
  induction iov generalizing a with
  | nil => exact le_of_eq h
  | cons v iov ih => exact (Nat.le_add_right a v.iov_len).trans (ih h.2)

/-- Chunks that follow one another are the buffer between their ends. -/
theorem flatMap_bytes (h : Contiguous a iov b) :
    iov.flatMap (·.bytes buf) = (buf.drop a).take (b - a) := by
  induction iov generalizing a with
  | nil =>
    cases h
    rw [Nat.sub_self, List.take_zero, List.flatMap_nil]
  | cons v iov ih =>
    obtain ⟨rfl, hrest⟩ := h
    have hle := hrest.le
    have hsplit : b - v.iov_base = v.iov_len + (b - (v.iov_base + v.iov_len)) := by omega
    rw [List.flatMap_cons, ih hrest, Iovec.bytes, hsplit, List.take_add, List.drop_drop]

/-- There are enough slots when as many full chunks would hold what is left. -/
theorem layOut_spec {c : Nat} (ptr : Nat) (hslots : 0 < slots) (hroom : nleft ≤ slots * c) :
    ∃ iov, layOut c slots ptr nleft = .ok iov ∧ iov.length ≤ slots ∧ Contiguous ptr iov (ptr + nleft) := by
  induction slots generalizing ptr nleft with
  | zero => exact absurd hslots (Nat.lt_irrefl 0)
  | succ slots ih =>
    rw [Nat.succ_mul] at hroom
    rw [layOut]
    by_cases hle : nleft ≤ c
    · -- the last chunk
      have hn : (if (nleft : Int) ≥ c then (c : Int) else nleft) = nleft := by
        split
        · omega
        · rfl
      simp only [hn, Int.toNat_natCast, sub_self, if_pos]
      exact ⟨[⟨ptr, nleft⟩], rfl, Nat.succ_le_succ (Nat.zero_le _), rfl, rfl⟩
    · have hn : (if (nleft : Int) ≥ c then (c : Int) else nleft) = c := if_pos (by omega)
      have hrest : (nleft : Int) - c = (nleft - c : Nat) := by omega
      simp only [hn, Int.toNat_natCast, hrest]
      rw [if_neg (by omega)]
      have hslots' : 0 < slots := by
        refine Nat.pos_of_ne_zero fun h0 ↦ ?_
        rw [h0, Nat.zero_mul] at hroom
        omega
      have hleft : nleft - c ≤ slots * c := by omega
      obtain ⟨iov, hiov, hlen, hcont⟩ := ih (ptr + c) hslots' hleft
      rw [hiov]
      refine ⟨⟨ptr, c⟩ :: iov, rfl, Nat.succ_le_succ hlen, rfl, ?_⟩
      have hend : ptr + c + (nleft - c) = ptr + nleft := by omega
      rw [hend] at hcont
      exact hcont

/-- A length an `int` holds is converted unchanged. -/
theorem toInt_of_le (h : n ≤ intMax) : toInt n = n := by
  unfold toInt
  unfold intMax at h
  exact Int.bmod_eq_of_le (by omega) (by omega)

/-- The size is rounded up, and so the slots are enough. -/
theorem chunksize_spec (huio : 1 ≤ uioMaxiov) (hn : n ≤ intMax) :
    ∃ c : Nat, chunksize uioMaxiov n = c ∧ n ≤ uioMaxiov * c := by
  have hdiv : toInt (n / uioMaxiov) = (n / uioMaxiov : Nat) := toInt_of_le ((Nat.div_le_self n uioMaxiov).trans hn)
  have hsum : uioMaxiov * (n / uioMaxiov) + n % uioMaxiov = n := Nat.div_add_mod n uioMaxiov
  have hlt : n % uioMaxiov < uioMaxiov := Nat.mod_lt n huio
  unfold chunksize
  simp only [hdiv]
  split
  · -- fewer bytes than slots: chunks of one byte
    next hzero =>
    have hq : n / uioMaxiov = 0 := Nat.le_zero.mp (Int.ofNat_le.mp hzero)
    rw [hq, Nat.mul_zero] at hsum
    exact ⟨1, rfl, by omega⟩
  · split
    · refine ⟨n / uioMaxiov + 1, rfl, ?_⟩
      rw [Nat.mul_succ]
      omega
    · exact ⟨n / uioMaxiov, rfl, by omega⟩

/-- The chunks of a buffer: at most `UIO_MAXIOV`, one after another, from its beginning to its end. -/
theorem chunks_spec (huio : 1 ≤ uioMaxiov) (hn : n ≤ intMax) :
    ∃ iov, chunks uioMaxiov n = .ok iov ∧ iov.length ≤ uioMaxiov ∧ Contiguous 0 iov n := by
  obtain ⟨c, hc, hroom⟩ := chunksize_spec huio hn
  unfold chunks
  rw [hc, toInt_of_le hn]
  obtain ⟨iov, hiov, hlen, hcont⟩ := layOut_spec 0 huio hroom
  rw [Nat.zero_add] at hcont
  exact ⟨iov, hiov, hlen, hcont⟩

/-! ### The calls -/

/-- A call that is not short transfers what it is given. -/
theorem writeOnce_full {bytes : List UInt8} {a : Answer} (h : (writeOnce bytes a).NoneShort) :
    (writeOnce bytes a).value = bytes.length ∧ (writeOnce bytes a).sent = bytes := by
  have hvalue : a.written bytes.length = bytes.length := h _ List.mem_cons_self
  refine ⟨hvalue, ?_⟩
  change bytes.take (a.written bytes.length).toNat = bytes
  rw [hvalue, Int.toNat_natCast, List.take_length]

private theorem length_bytes {v : Iovec} (h : v.iov_base + v.iov_len ≤ buf.length) :
    (v.bytes buf).length = v.iov_len := by
  rw [Iovec.bytes, List.length_take, List.length_drop]
  omega

/-- Chunk after chunk: the loop goes on as long as no call is short. -/
theorem writeChunks_full {ntotal : Int} (hcont : Contiguous a iov b) (hb : b ≤ buf.length)
    (h : (writeChunks buf answers n ntotal iov).NoneShort) :
    (writeChunks buf answers n ntotal iov).value = ntotal + (b - a : Nat) ∧
      (writeChunks buf answers n ntotal iov).sent = iov.flatMap (·.bytes buf) := by
  induction iov generalizing a n ntotal with
  | nil =>
    cases hcont
    rw [Nat.sub_self, Nat.cast_zero, add_zero]
    exact ⟨rfl, rfl⟩
  | cons v iov ih =>
    obtain ⟨rfl, hrest⟩ := hcont
    have hle := hrest.le
    have hlen : (v.bytes buf).length = v.iov_len := length_bytes (hle.trans hb)
    rw [writeChunks] at h ⊢
    dsimp only at h ⊢
    split at h
    · -- the call that ends the loop is short
      next hne =>
      have hfull : (writeOnce (v.bytes buf) (answers n)).NoneShort := h
      obtain ⟨hvalue, -⟩ := writeOnce_full hfull
      exact absurd (hvalue.trans (congrArg Nat.cast hlen)) hne
    next hvalue =>
    have hvalue : (writeOnce (v.bytes buf) (answers n)).value = v.iov_len := not_not.mp hvalue
    have hfirst : (writeOnce (v.bytes buf) (answers n)).NoneShort := fun c hc ↦ h c (List.mem_append_left _ hc)
    have hothers := ih hrest fun c hc ↦ h c (List.mem_append_right _ hc)
    rw [if_neg (not_not.mpr hvalue), hothers.1, hothers.2, (writeOnce_full hfirst).2, hvalue, List.flatMap_cons]
    refine ⟨?_, rfl⟩
    omega

/-- The chunks are at most `UIO_MAXIOV` pieces that follow one another and make up the buffer. In each of the three
modes `dowrite` comes to its end, and, unless a call fails or is short, it has transferred the bytes of the buffer
in order and returns their number. -/
theorem dowrite_modes_agree (huio : 1 ≤ uioMaxiov) {vptr : List UInt8} (hn : vptr.length ≤ intMax) :
    (∃ iov, chunks uioMaxiov vptr.length = .ok iov ∧ iov.length ≤ uioMaxiov ∧ Contiguous 0 iov vptr.length ∧
      iov.flatMap (·.bytes vptr) = vptr) ∧
    ∀ chunkwrite usewritev answers, ∃ w, dowrite uioMaxiov chunkwrite usewritev vptr answers = .ok w ∧
      (w.NoneShort → w.value = vptr.length ∧ w.sent = vptr) := by
  obtain ⟨iov, hiov, hlen, hcont⟩ := chunks_spec huio hn
  have hwhole : iov.flatMap (·.bytes vptr) = vptr := by
    rw [flatMap_bytes hcont, Nat.sub_zero, List.drop_zero, List.take_length]
  refine ⟨⟨iov, hiov, hlen, hcont, hwhole⟩, fun chunkwrite usewritev answers ↦ ?_⟩
  unfold dowrite
  split
  · exact ⟨_, rfl, writeOnce_full⟩
  rw [hiov, Base.ok_bind]
  split
  · rw [hwhole]
    exact ⟨_, rfl, writeOnce_full⟩
  · refine ⟨_, rfl, fun h ↦ ?_⟩
    obtain ⟨hvalue, hsent⟩ := writeChunks_full hcont le_rfl h
    rw [hvalue, hsent, hwhole, Nat.sub_zero, zero_add]
    exact ⟨rfl, rfl⟩

/-- Three bytes in chunks of two, with two slots. -/
theorem dowrite_modes_agree_three :
    chunks 2 3 = .ok [⟨0, 2⟩, ⟨2, 1⟩] ∧
      ∃ w, dowrite 2 1 0 [7, 8, 9] (fun _ ↦ .upTo 100) = .ok w ∧ w.value = 3 ∧ w.sent = [7, 8, 9] := by
  refine ⟨by decide, ?_⟩
  have hlen : ([7, 8, 9] : List UInt8).length ≤ intMax := by decide
  obtain ⟨w, hw, h⟩ := (dowrite_modes_agree one_le_two hlen).2 1 0 fun _ ↦ .upTo 100
  refine ⟨w, hw, h ?_⟩
  have hrun : dowrite 2 1 0 [7, 8, 9] (fun _ ↦ .upTo 100) = .ok ⟨3, [7, 8, 9], [⟨2, 2⟩, ⟨1, 1⟩]⟩ := by decide
  rw [hrun] at hw
  cases hw
  intro c hc
  fin_cases hc <;> rfl

end Unpv13e.Sock
