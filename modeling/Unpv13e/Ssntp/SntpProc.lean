import Unpv13e.Base.Binary64

/-!
# `sntp_proc`

Library `Ssntp`. `src/ssntp/sntp_proc.c`: the transmit time of a packet is taken from the local time, in
microseconds, and the difference is cut to 32 bits. `long` has 64 bits.
-/

namespace Unpv13e.Ssntp
open Unpv13e.Base

/-- `JAN_1970`, `src/ssntp/ntp.h:1`, an `unsigned long`. -/
def JAN_1970 : UInt64 := 2208988800
def VERSION_MASK : UInt8 := 0x38
def MODE_MASK : UInt8 := 0x07
def MODE_CLIENT : UInt8 := 3
/-- `sizeof(struct ntpdata)` -/
def sizeofNtpdata : Nat := 48

/-- `struct timeval` -/
structure Timeval where
  tv_sec : Int
  tv_usec : Int
  deriving DecidableEq, Repr

/-- What is printed. -/
inductive Report
  /-- `packet too small: %d bytes` -/
  | tooSmall (n : Nat)
  /-- `v%d, mode %d, strat %d, client` -/
  | client (version mode stratum : UInt8)
  /-- `v%d, mode %d, strat %d, clock difference = %d usec` -/
  | difference (version mode stratum : UInt8) (usec : Int)
  deriving DecidableEq, Repr

/-- `ntohl` of the four bytes at an offset. -/
def ntohl (buf : List UInt8) (off : Nat) : UInt32 :=
  let byte (k : Nat) : UInt32 := (buf.getD (off + k) 0).toUInt32
  byte 0 <<< 24 ||| byte 1 <<< 16 ||| byte 2 <<< 8 ||| byte 3

/-- `ntp->status` and `ntp->stratum`. -/
def status (buf : List UInt8) : UInt8 := buf.getD 0 0
def stratum (buf : List UInt8) : UInt8 := buf.getD 1 0
/-- `ntohl(ntp->xmt.int_part)` and `ntohl(ntp->xmt.fraction)`. -/
def xmtIntPart (buf : List UInt8) : UInt32 := ntohl buf 40
def xmtFraction (buf : List UInt8) : UInt32 := ntohl buf 44

/-- The result of arithmetic on `long`; none if there is none. -/
def long (x : Int) : Option Int := if -2 ^ 63 ≤ x ∧ x < 2 ^ 63 then some x else none

/-- Lines 27–30: a fraction of 32 bits in parts per million, by way of a `double`. -/
def partsPerMillion (fp : Rounding) (fraction : UInt32) : UInt32 :=
  let usecf := fp.round fraction.toNat
  let usecf := fp.round (usecf / fp.round 4294967296)
  let usecf := fp.round (usecf * fp.round 1000000)
  UInt32.ofNat ⌊usecf⌋.toNat

/-- Lines 32–38. -/
def clockDifference (nowptr : Timeval) (nsec useci : UInt32) : Option Int := do
  let tv_sec ← long (nowptr.tv_sec - nsec.toNat)
  let tv_usec ← long (nowptr.tv_usec - useci.toNat)
  let diff : Timeval ← if tv_usec < 0 then do
      let tv_usec ← long (tv_usec + 1000000)
      let tv_sec ← long (tv_sec - 1)
      pure ⟨tv_sec, tv_usec⟩
    else pure ⟨tv_sec, tv_usec⟩
  let product ← long (diff.tv_sec * 1000000)
  let sum ← long (product + diff.tv_usec)
  let useci := UInt32.ofInt sum
  return useci.toBitVec.toInt

/-- `sntp_proc(buf, n, nowptr)`, `src/ssntp/sntp_proc.c:3–39`, of a packet of `n` bytes. -/
def sntp_proc (fp : Rounding) (buf : List UInt8) (nowptr : Timeval) : Option Report := do
  if buf.length < sizeofNtpdata then return .tooSmall buf.length
  let version := (status buf &&& VERSION_MASK) >>> 3
  let mode := status buf &&& MODE_MASK
  if mode = MODE_CLIENT then return .client version mode (stratum buf)
  let nsec := ((xmtIntPart buf).toUInt64 - JAN_1970).toUInt32
  let useci := partsPerMillion fp (xmtFraction buf)
  let usec ← clockDifference nowptr nsec useci
  return .difference version mode (stratum buf) usec

/-! ### The true difference -/

/-- The transmit time in microseconds since 1970, the fraction rounded down. -/
def transmitTime (buf : List UInt8) : Int :=
  ((xmtIntPart buf).toNat - 2208988800) * 1000000 + (xmtFraction buf).toNat * 1000000 / 2 ^ 32

/-- The local time less the transmit time. -/
def trueDifference (buf : List UInt8) (nowptr : Timeval) : Int :=
  nowptr.tv_sec * 1000000 + nowptr.tv_usec - transmitTime buf

/-! ### The fraction -/

section Difference
variable {fp : Rounding} {buf : List UInt8} {nowptr : Timeval} {nsec useci : UInt32} {usec x y : Int}

/-- The scaling is exact: the product has 52 bits at most. -/
theorem toNat_partsPerMillion (fp : Rounding) (fraction : UInt32) :
    (partsPerMillion fp fraction).toNat = fraction.toNat * 1000000 / 2 ^ 32 := by
  have hlt := fraction.toNat_lt
  have hint : fp.round fraction.toNat = fraction.toNat := fp.exact _ (representable_natCast (by omega))
  have hden : fp.round 4294967296 = 2 ^ 32 := by
    have h := fp.exact _ (representable_natCast (n := 4294967296) (by decide))
    norm_num at h ⊢
    exact h
  have hscale : fp.round 1000000 = 1000000 := by
    have h := fp.exact _ (representable_natCast (n := 1000000) (by decide))
    norm_num at h ⊢
    exact h
  have hquot : fp.round ((fraction.toNat : ℚ) / 2 ^ 32) = fraction.toNat / 2 ^ 32 :=
    fp.exact _ (representable_div (by omega) (by decide))
  have hprod : fp.round ((fraction.toNat : ℚ) / 2 ^ 32 * 1000000) =
      ((fraction.toNat * 1000000 : ℕ) : ℚ) / ((2 ^ 32 : ℕ) : ℚ) := by
    have h := fp.exact _ (representable_div (n := fraction.toNat * 1000000) (k := 32) (by omega) (by decide))
    have hcomm : (fraction.toNat : ℚ) / 2 ^ 32 * 1000000 = ((fraction.toNat * 1000000 : ℕ) : ℚ) / 2 ^ 32 := by
      push_cast
      ring
    rw [hcomm, h]
    norm_num
  unfold partsPerMillion
  dsimp only
  rw [hint, hden, hquot, hscale, hprod, Rat.floor_natCast_div_natCast, ← Int.natCast_ediv, Int.toNat_natCast,
    UInt32.toNat_ofNat']
  apply Nat.mod_eq_of_lt
  omega

theorem partsPerMillion_lt (fp : Rounding) (fraction : UInt32) : (partsPerMillion fp fraction).toNat < 1000000 := by
  have hlt := fraction.toNat_lt
  rw [toNat_partsPerMillion]
  omega

/-! ### The difference -/

private theorem long_of (hlow : -2 ^ 63 ≤ x) (hhigh : x < 2 ^ 63) : long x = some x := if_pos ⟨hlow, hhigh⟩

private theorem bind_long {α : Type} {f : Int → Option α} {a : α} (h : (long x).bind f = some a) : f x = some a := by
  unfold long at h
  split at h
  · exact h
  · cases h

private theorem toInt_ofInt (x : Int) : (UInt32.ofInt x).toBitVec.toInt = x.bmod (2 ^ 32) := by
  have hnat : ((UInt32.ofInt x).toBitVec.toNat : Int) = x % 2 ^ 32 := by
    change (((x % 2 ^ 32).toNat % 2 ^ 32 : Nat) : Int) = _
    omega
  rw [BitVec.toInt_eq_toNat_bmod, hnat]
  exact Int.emod_bmod x (2 ^ 32)

/-- A difference that is printed is the true one as far as 32 bits go, whether or not there was a borrow. -/
private theorem clockDifference_some (h : clockDifference nowptr nsec useci = some usec) :
    usec = ((nowptr.tv_sec - nsec.toNat) * 1000000 + (nowptr.tv_usec - useci.toNat)).bmod (2 ^ 32) := by
  have h := bind_long (bind_long h)
  split at h
  · have h := bind_long (bind_long (bind_long (bind_long h)))
    have husec := (Option.some.inj h).symm
    rw [toInt_ofInt] at husec
    rw [husec]
    congr 1
    ring
  · have h := bind_long (bind_long h)
    have husec := (Option.some.inj h).symm
    rw [toInt_ofInt] at husec
    exact husec

/-- There is no overflow as long as the seconds differ by less than 2 ^ 34. -/
private theorem clockDifference_isSome (hsec : -2 ^ 34 < nowptr.tv_sec - nsec.toNat)
    (hsec' : nowptr.tv_sec - nsec.toNat < 2 ^ 34) (husec : 0 ≤ nowptr.tv_usec) (husec' : nowptr.tv_usec < 1000000)
    (huseci : useci.toNat < 1000000) : (clockDifference nowptr nsec useci).isSome := by
  unfold clockDifference
  rw [long_of (by omega) (by omega), long_of (by omega) (by omega)]
  simp only [Option.bind_eq_bind, Option.bind_some]
  split
  · rw [long_of (by omega) (by omega), Option.bind_some, long_of (by omega) (by omega), Option.bind_some]
    rw [Option.pure_def, Option.bind_some, long_of (by dsimp only; omega) (by dsimp only; omega), Option.bind_some,
      long_of (by dsimp only; omega) (by dsimp only; omega)]
    rfl
  · rw [Option.pure_def, Option.bind_some, long_of (by dsimp only; omega) (by dsimp only; omega), Option.bind_some,
      long_of (by dsimp only; omega) (by dsimp only; omega)]
    rfl

private theorem toNat_nsec (x : UInt32) :
    ((x.toUInt64 - JAN_1970).toUInt32.toNat : Int) = (x.toNat - 2208988800) % 2 ^ 32 := by
  have hlt := x.toNat_lt
  have hjan : JAN_1970.toNat = 2208988800 := rfl
  rw [UInt64.toNat_toUInt32, UInt64.toNat_sub, UInt32.toNat_toUInt64, hjan]
  omega

/-- The clock difference is printed as it is exactly if it fits into 32 bits with a sign. -/
theorem sntp_proc_difference_iff (fp : Rounding) (hsize : sizeofNtpdata ≤ buf.length)
    (hmode : status buf &&& MODE_MASK ≠ MODE_CLIENT) (husec : 0 ≤ nowptr.tv_usec)
    (husec' : nowptr.tv_usec < 1000000) :
    (∃ version mode stratum,
      sntp_proc fp buf nowptr = some (.difference version mode stratum (trueDifference buf nowptr))) ↔
    -2 ^ 31 ≤ trueDifference buf nowptr ∧ trueDifference buf nowptr < 2 ^ 31 := by
  let nsec := ((xmtIntPart buf).toUInt64 - JAN_1970).toUInt32
  let useci := partsPerMillion fp (xmtFraction buf)
  have hnsec : (nsec.toNat : Int) = ((xmtIntPart buf).toNat - 2208988800) % 2 ^ 32 := toNat_nsec _
  have huseci : useci.toNat = (xmtFraction buf).toNat * 1000000 / 2 ^ 32 := toNat_partsPerMillion fp _
  have hlt := partsPerMillion_lt fp (xmtFraction buf)
  have hint := (xmtIntPart buf).toNat_lt
  have hfraction := (xmtFraction buf).toNat_lt
  have hdiff : trueDifference buf nowptr = nowptr.tv_sec * 1000000 + nowptr.tv_usec -
      (((xmtIntPart buf).toNat - 2208988800) * 1000000 + useci.toNat) := by
    rw [huseci]
    rfl
  -- The seconds that the 32 bits of `nsec` leave out are a multiple of 2 ^ 32 also in microseconds.
  have hmod : ((nowptr.tv_sec - nsec.toNat) * 1000000 + (nowptr.tv_usec - useci.toNat)).bmod (2 ^ 32) =
      (trueDifference buf nowptr).bmod (2 ^ 32) := by
    rw [hdiff, hnsec, ← Int.emod_bmod, ← Int.emod_bmod (_ - _)]
    congr 1
    omega
  have hproc : sntp_proc fp buf nowptr = (clockDifference nowptr nsec useci).bind fun usec ↦
      some (.difference ((status buf &&& VERSION_MASK) >>> 3) (status buf &&& MODE_MASK) (stratum buf) usec) := by
    unfold sntp_proc
    rw [if_neg (Nat.not_lt.mpr hsize)]
    dsimp only
    rw [if_neg hmode]
    rfl
  constructor
  · rintro ⟨version, mode, stratum, hreport⟩
    rw [hproc, Option.bind_eq_some_iff] at hreport
    obtain ⟨usec, hclock, hprinted⟩ := hreport
    cases hprinted
    rw [clockDifference_some hclock, hmod]
    have hlow := Int.le_bmod (x := trueDifference buf nowptr) (m := 2 ^ 32) (by decide)
    have hhigh := Int.bmod_lt (x := trueDifference buf nowptr) (m := 2 ^ 32) (by decide)
    exact ⟨hlow, hhigh⟩
  · rintro ⟨hlow, hhigh⟩
    have hsome : (clockDifference nowptr nsec useci).isSome :=
      clockDifference_isSome (by omega) (by omega) husec husec' hlt
    obtain ⟨usec, hclock⟩ := Option.isSome_iff_exists.mp hsome
    have husec := clockDifference_some hclock
    rw [hmod, Int.bmod_eq_of_le hlow hhigh] at husec
    rw [hproc, hclock, husec]
    exact ⟨_, _, _, rfl⟩

end Difference

/-- A server's reply, with the transmit time of half a second into 1970. -/
def reply : List UInt8 :=
  [0x24, 1, 6, 0xec, 0, 0, 0, 0, 0, 0, 0, 0, 0x47, 0x50, 0x53, 0] ++ List.replicate 24 0 ++
    [0x83, 0xaa, 0x7e, 0x80, 0x80, 0, 0, 0]

/-- The reply as it is read a quarter of a second later. -/
theorem sntp_proc_difference_reply :
    (∃ version mode stratum, sntp_proc ⟨id, fun _ _ ↦ rfl⟩ reply ⟨0, 750000⟩ =
      some (.difference version mode stratum (trueDifference reply ⟨0, 750000⟩))) ↔
    -2 ^ 31 ≤ trueDifference reply ⟨0, 750000⟩ ∧ trueDifference reply ⟨0, 750000⟩ < 2 ^ 31 :=
  sntp_proc_difference_iff ⟨id, fun _ _ ↦ rfl⟩ (by decide) (by decide) (by decide) (by decide)

/-- An hour later the difference printed is negative. -/
theorem sntp_proc_hour : sntp_proc ⟨id, fun _ _ ↦ rfl⟩ reply ⟨3600, 500000⟩ = some (.difference 4 4 1 (-694967296)) ∧
    trueDifference reply ⟨3600, 500000⟩ = 3600000000 := by
  constructor
  · decide +kernel
  · decide +kernel

end Unpv13e.Ssntp
