import Unpv13e.Base.Reads

/-!
# `print_sadb_msg`

Library `Key`. `src/key/printsadbmsg.c`, with the structures of RFC 2367 on a machine that stores the low byte
first: the extensions of a message are printed one after the other. The names of types and algorithms are left
out, and numbers printed in their place.
-/

namespace Unpv13e.Key
open Unpv13e.Base

def PF_KEY_V2 : UInt8 := 2

def SADB_ADD : UInt8 := 3

def SADB_EXT_RESERVED : UInt16 := 0
def SADB_EXT_SA : UInt16 := 1
def SADB_EXT_LIFETIME_CURRENT : UInt16 := 2
def SADB_EXT_LIFETIME_HARD : UInt16 := 3
def SADB_EXT_LIFETIME_SOFT : UInt16 := 4
def SADB_EXT_ADDRESS_SRC : UInt16 := 5
def SADB_EXT_ADDRESS_DST : UInt16 := 6
def SADB_EXT_ADDRESS_PROXY : UInt16 := 7
def SADB_EXT_KEY_AUTH : UInt16 := 8
def SADB_EXT_KEY_ENCRYPT : UInt16 := 9
def SADB_EXT_IDENTITY_SRC : UInt16 := 10
def SADB_EXT_IDENTITY_DST : UInt16 := 11
def SADB_EXT_SENSITIVITY : UInt16 := 12
def SADB_EXT_PROPOSAL : UInt16 := 13
def SADB_EXT_SUPPORTED_AUTH : UInt16 := 14
def SADB_EXT_SUPPORTED_ENCRYPT : UInt16 := 15
def SADB_EXT_SPIRANGE : UInt16 := 16

def AF_UNIX : UInt16 := 1
def AF_INET : UInt16 := 2
def AF_INET6 : UInt16 := 10

/-- `sizeof(struct sadb_msg)` -/
def sizeofMsg : Nat := 16
/-- The sizes of `struct sadb_sa`, `struct sadb_lifetime`, `struct sadb_address`, `struct sadb_key`,
`struct sadb_supported` and `struct sadb_alg`. -/
def sizeofSa : Nat := 16
def sizeofLifetime : Nat := 32
def sizeofAddress : Nat := 8
def sizeofKey : Nat := 8
def sizeofSupported : Nat := 8
def sizeofAlg : Nat := 8

/-- A socket address as `sock_ntop` reads it. -/
inductive Shown
  | inet (addr : List UInt8) (port : UInt16)
  | inet6 (addr : List UInt8) (port : UInt16)
  | unix (path : List UInt8)
  | unknown (family : UInt16) (salen : Int)
  deriving DecidableEq, Repr

/-- One entry of a list of algorithms. -/
structure Alg where
  id : UInt8
  ivlen : UInt8
  minbits : UInt16
  maxbits : UInt16
  deriving DecidableEq, Repr

/-- What is printed of an extension. -/
inductive Item
  | reserved
  | sa (spi : UInt32) (replay state auth encrypt : UInt8) (flags : UInt32)
  | lifetime (exttype : UInt16) (allocations : UInt32) (bytes addtime usetime : UInt64)
  | address (exttype : UInt16) (sa : Shown) (prefixlen proto : UInt8)
  | key (exttype bits : UInt16) (key : List UInt8)
  | identity
  | sensitivity
  | proposal
  | supported (exttype : UInt16) (algs : List Alg)
  | spirange
  | unknown (type : UInt16)
  deriving DecidableEq, Repr

/-! ### The printers -/

/-- `sa_print`, `src/key/printsadbmsg.c:120–133` -/
def sa_print (mem : Nat → UInt8) (ext : Nat) : Read Item := do
  let spi ← load32 mem (ext + 4)
  let replay ← load8 mem (ext + 8)
  let state ← load8 mem (ext + 9)
  let auth ← load8 mem (ext + 10)
  let encrypt ← load8 mem (ext + 11)
  let flags ← load32 mem (ext + 12)
  return .sa spi replay state auth encrypt flags

/-- The entries from `alg` on, while `len` is positive. -/
def supportedAlgs (mem : Nat → UInt8) : Nat → Nat → Read (List Alg)
  | _, 0 => pure []
  | alg, count + 1 => do
    let id ← load8 mem alg
    let ivlen ← load8 mem (alg + 1)
    let minbits ← load16 mem (alg + 2)
    let maxbits ← load16 mem (alg + 4)
    let algs ← supportedAlgs mem (alg + sizeofAlg) count
    return ⟨id, ivlen, minbits, maxbits⟩ :: algs

/-- `supported_print`, `src/key/printsadbmsg.c:135–157`. The length is that of the header and of whole entries; one
of zero leaves a negative number of bytes, and no entry is printed. -/
def supported_print (mem : Nat → UInt8) (ext : Nat) : Read Item := do
  let exttype ← load16 mem (ext + 2)
  let sadb_supported_len ← load16 mem ext
  let len : Int := sadb_supported_len.toNat * 8 - sizeofSupported
  if len = 0 then return .supported exttype []
  let algs ← supportedAlgs mem (ext + sizeofSupported) (len / sizeofAlg).toNat
  return .supported exttype algs

/-- `lifetime_print`, `src/key/printsadbmsg.c:159–194` -/
def lifetime_print (mem : Nat → UInt8) (ext : Nat) : Read Item := do
  let exttype ← load16 mem (ext + 2)
  let allocations ← load32 mem (ext + 4)
  let bytes ← load64 mem (ext + 8)
  let addtime ← load64 mem (ext + 16)
  let usetime ← load64 mem (ext + 24)
  return .lifetime exttype allocations bytes addtime usetime

/-- `sock_ntop`, `src/lib/sock_ntop.c:7–76`, of an address in a message of `n` bytes. -/
def sock_ntop (mem : Nat → UInt8) (n sa : Nat) (salen : Int) : Read Shown := do
  let sa_family ← load16 mem sa
  if sa_family = AF_INET then
    let sin_addr ← load mem (sa + 4) 4
    let sin_port ← load16 mem (sa + 2)
    return .inet sin_addr sin_port
  else if sa_family = AF_INET6 then
    let sin6_addr ← load mem (sa + 8) 16
    let sin6_port ← load16 mem (sa + 2)
    return .inet6 sin6_addr sin6_port
  else if sa_family = AF_UNIX then
    let sun_path ← loadString mem (sa + 2) n
    return .unix sun_path
  else return .unknown sa_family salen

/-- `address_print`, `src/key/printsadbmsg.c:196–222` -/
def address_print (mem : Nat → UInt8) (n ext : Nat) : Read Item := do
  let exttype ← load16 mem (ext + 2)
  let sadb_address_len ← load16 mem ext
  let sa ← sock_ntop mem n (ext + sizeofAddress) (sadb_address_len.toNat * 8 - sizeofAddress)
  let prefixlen ← load8 mem (ext + 5)
  let proto ← load8 mem (ext + 4)
  return .address exttype sa prefixlen proto

/-- The bytes from `p` on, while `bits` is positive. -/
def keyBytes (mem : Nat → UInt8) (p bits : Nat) : Read (List UInt8) :=
  if 0 < bits then do
    let c ← load8 mem p
    let key ← keyBytes mem (p + 1) (bits - 8)
    return c :: key
  else pure []

/-- `key_print`, `src/key/printsadbmsg.c:224–239` -/
def key_print (mem : Nat → UInt8) (ext : Nat) : Read Item := do
  let exttype ← load16 mem (ext + 2)
  let bits ← load16 mem (ext + 4)
  let key ← keyBytes mem (ext + sizeofKey) bits.toNat
  return .key exttype bits key

/-! ### The walk -/

/-- The `switch` over the type of an extension. -/
def ext_print (mem : Nat → UInt8) (n ext : Nat) : Read Item := do
  let sadb_ext_type ← load16 mem (ext + 2)
  if sadb_ext_type = SADB_EXT_RESERVED then return .reserved
  else if sadb_ext_type = SADB_EXT_SA then sa_print mem ext
  else if sadb_ext_type = SADB_EXT_LIFETIME_CURRENT ∨ sadb_ext_type = SADB_EXT_LIFETIME_HARD ∨
      sadb_ext_type = SADB_EXT_LIFETIME_SOFT then lifetime_print mem ext
  else if sadb_ext_type = SADB_EXT_ADDRESS_SRC ∨ sadb_ext_type = SADB_EXT_ADDRESS_DST ∨
      sadb_ext_type = SADB_EXT_ADDRESS_PROXY then address_print mem n ext
  else if sadb_ext_type = SADB_EXT_KEY_AUTH ∨ sadb_ext_type = SADB_EXT_KEY_ENCRYPT then key_print mem ext
  else if sadb_ext_type = SADB_EXT_IDENTITY_SRC ∨ sadb_ext_type = SADB_EXT_IDENTITY_DST then return .identity
  else if sadb_ext_type = SADB_EXT_SENSITIVITY then return .sensitivity
  else if sadb_ext_type = SADB_EXT_PROPOSAL then return .proposal
  else if sadb_ext_type = SADB_EXT_SUPPORTED_AUTH ∨ sadb_ext_type = SADB_EXT_SUPPORTED_ENCRYPT then
    supported_print mem ext
  else if sadb_ext_type = SADB_EXT_SPIRANGE then return .spirange
  else return .unknown sadb_ext_type

/-- An extension that is visited: where it is, and what is read for it and printed of it. -/
structure Visit where
  off : Nat
  item : Item
  reads : List Field

/-- One turn of the loop, with the length that it advances by. -/
def visit (mem : Nat → UInt8) (n ext : Nat) : Visit × Nat :=
  let turn : Read (Item × Nat) := do
    let item ← ext_print mem n ext
    let sadb_ext_len ← load16 mem ext
    return (item, sadb_ext_len.toNat <<< 3)
  (⟨ext, turn.val.1, turn.reads⟩, turn.val.2)

/-- The loop, with what is left of `msglen` at its end; none if it has not ended after `fuel` turns. -/
def walk (mem : Nat → UInt8) (n : Nat) : Nat → Nat → Int → Option (List Visit × Int)
  | 0, _, _ => none
  | fuel + 1, ext, msglen =>
    if 0 < msglen then do
      let (v, len) := visit mem n ext
      let (visits, left) ← walk mem n fuel (ext + len) (msglen - len)
      return (v :: visits, left)
    else some ([], msglen)

/-- What is printed of a message. -/
inductive Printed
  /-- `SADB Message length (%d) doesn't match msglen (%d)` -/
  | wrongLength (len msglen : Nat)
  /-- `SADB Message version not PF_KEY_V2` -/
  | wrongVersion
  /-- `SADB Message %s, errno %d, satype %s, seq %d, pid %d`, the extensions, and what is left. -/
  | message (type errno satype : UInt8) (seq pid : UInt32) (visits : List Visit) (left : Int)

/-- `sadb_msg_len` and `sadb_msg_version` of a message. -/
def sadb_msg_len (mem : Nat → UInt8) : UInt16 := (load16 mem 4).val
def sadb_msg_version (mem : Nat → UInt8) : UInt8 := mem 0

/-- `print_sadb_msg`, `src/key/printsadbmsg.c:241–297`, of `msglen` bytes at the start of `mem`. -/
def print_sadb_msg (fuel : Nat) (mem : Nat → UInt8) (msglen : Nat) : Option Printed :=
  if msglen ≠ (sadb_msg_len mem).toNat * 8 then some (.wrongLength ((sadb_msg_len mem).toNat * 8) msglen)
  else if sadb_msg_version mem ≠ PF_KEY_V2 then some .wrongVersion
  else
    let printed := Printed.message (mem 1) (mem 2) (mem 3) (load32 mem 8).val (load32 mem 12).val
    if msglen = sizeofMsg then some (printed [] 0)
    else (walk mem msglen fuel sizeofMsg (msglen - sizeofMsg)).map fun (visits, left) ↦ printed visits left

/-! ### The bytes an extension needs -/

/-- `sadb_ext_type` and `sadb_ext_len`. -/
def extType (mem : Nat → UInt8) (ext : Nat) : UInt16 := (load16 mem (ext + 2)).val
def extLen (mem : Nat → UInt8) (ext : Nat) : Nat := (load16 mem ext).val.toNat

/-- The first bytes of a socket address, as far as its family has them read. -/
def sockaddrNeed (mem : Nat → UInt8) (n sa : Nat) : Nat :=
  if (load16 mem sa).val = AF_INET then 8
  else if (load16 mem sa).val = AF_INET6 then 24
  else if (load16 mem sa).val = AF_UNIX then 2 + ((loadString mem (sa + 2) n).val.length + 1)
  else 2

/-- The first bytes of an extension, as far as its type has them read. -/
def need (mem : Nat → UInt8) (n ext : Nat) : Nat :=
  let type := extType mem ext
  if type = SADB_EXT_SA then sizeofSa
  else if type = SADB_EXT_LIFETIME_CURRENT ∨ type = SADB_EXT_LIFETIME_HARD ∨ type = SADB_EXT_LIFETIME_SOFT then
    sizeofLifetime
  else if type = SADB_EXT_ADDRESS_SRC ∨ type = SADB_EXT_ADDRESS_DST ∨ type = SADB_EXT_ADDRESS_PROXY then
    sizeofAddress + sockaddrNeed mem n (ext + sizeofAddress)
  else if type = SADB_EXT_KEY_AUTH ∨ type = SADB_EXT_KEY_ENCRYPT then
    sizeofKey + ((load16 mem (ext + 4)).val.toNat + 7) / 8
  else if type = SADB_EXT_SUPPORTED_AUTH ∨ type = SADB_EXT_SUPPORTED_ENCRYPT then extLen mem ext * 8
  else 4

section Needs
variable {mem : Nat → UInt8} {n ext : Nat}

private theorem within_sa_print : Within (sa_print mem ext).reads n ↔ ext + 16 ≤ n := by
  unfold sa_print
  simp only [within_bind, within_load32, within_load8, within_pure, and_true]
  omega

private theorem within_lifetime_print : Within (lifetime_print mem ext).reads n ↔ ext + 32 ≤ n := by
  unfold lifetime_print
  simp only [within_bind, within_load16, within_load32, within_load64, within_pure, and_true]
  omega

private theorem within_sock_ntop {sa : Nat} {salen : Int} :
    Within (sock_ntop mem n sa salen).reads n ↔ sa + sockaddrNeed mem n sa ≤ n := by
  unfold sock_ntop sockaddrNeed
  simp only [within_bind, within_load16]
  split
  · simp only [within_bind, within_load16, within_load, within_pure, and_true]
    omega
  split
  · simp only [within_bind, within_load16, within_load, within_pure, and_true]
    omega
  split
  · simp only [within_bind, within_loadString, within_pure, and_true, val_loadString]
    omega
  · simp only [within_pure, and_true]

private theorem within_address_print (h8 : ext + 8 ≤ n) :
    Within (address_print mem n ext).reads n ↔
      ext + (sizeofAddress + sockaddrNeed mem n (ext + sizeofAddress)) ≤ n := by
  unfold address_print
  simp only [within_bind, within_load16, within_load8, within_pure, and_true, within_sock_ntop]
  omega

private theorem within_keyBytes {p bits : Nat} (hp : p ≤ n) :
    Within (keyBytes mem p bits).reads n ↔ p + (bits + 7) / 8 ≤ n := by
  fun_induction keyBytes mem p bits with
  | case1 p bits hpos ih =>
    simp only [within_bind, within_load8, within_pure, and_true]
    by_cases hlt : p + 1 ≤ n
    · rw [ih hlt]
      omega
    · omega
  | case2 p bits hpos =>
    refine iff_of_true within_nil ?_
    omega

private theorem within_key_print (h8 : ext + 8 ≤ n) :
    Within (key_print mem ext).reads n ↔ ext + (sizeofKey + ((load16 mem (ext + 4)).val.toNat + 7) / 8) ≤ n := by
  unfold key_print
  simp only [within_bind, within_load16, within_pure, and_true, within_keyBytes (show ext + sizeofKey ≤ n from h8)]
  omega

private theorem within_supportedAlgs {alg count : Nat} (ha : alg ≤ n) (halign : 8 ∣ n - alg) :
    Within (supportedAlgs mem alg count).reads n ↔ alg + 8 * count ≤ n := by
  induction count generalizing alg with
  | zero =>
    refine iff_of_true within_nil ?_
    omega
  | succ count ih =>
    unfold supportedAlgs
    simp only [within_bind, within_load8, within_load16, within_pure, and_true, sizeofAlg]
    by_cases hlt : alg + 8 ≤ n
    · rw [ih hlt (by omega)]
      omega
    · omega

private theorem within_supported_print (h8 : ext + 8 ≤ n) (halign : 8 ∣ n - ext) :
    Within (supported_print mem ext).reads n ↔ ext + extLen mem ext * 8 ≤ n := by
  unfold supported_print
  simp only [within_bind, within_load16]
  have hlen : (load16 mem ext).val.toNat = extLen mem ext := rfl
  rw [hlen]
  split
  · next h =>
    unfold sizeofSupported at h
    simp only [within_pure, and_true]
    omega
  · simp only [within_bind, within_pure, and_true]
    rw [within_supportedAlgs (by unfold sizeofSupported; omega) (by unfold sizeofSupported; omega)]
    unfold sizeofSupported sizeofAlg
    omega

/-- What is read of an extension lies in the message exactly if the bytes it needs do. -/
theorem within_visit (h8 : ext + 8 ≤ n) (halign : 8 ∣ n - ext) :
    Within (visit mem n ext).1.reads n ↔ ext + need mem n ext ≤ n := by
  have hext : Within (visit mem n ext).1.reads n ↔ Within (ext_print mem n ext).reads n := by
    unfold visit
    simp only [within_bind, within_load16, within_pure, and_true]
    exact and_iff_left (by omega)
  have hread : ext + 2 + 2 ≤ n := by omega
  rw [hext]
  unfold ext_print need
  simp only [within_bind, within_load16, hread, true_and]
  have htype : (load16 mem (ext + 2)).val = extType mem ext := rfl
  rw [htype]
  generalize extType mem ext = type
  by_cases hsa : type = SADB_EXT_SA
  · rw [if_neg (by rw [hsa]; decide), if_pos hsa, if_pos hsa]
    exact within_sa_print
  by_cases hlife : type = SADB_EXT_LIFETIME_CURRENT ∨ type = SADB_EXT_LIFETIME_HARD ∨ type = SADB_EXT_LIFETIME_SOFT
  · rw [if_neg (by rcases hlife with rfl | rfl | rfl <;> decide), if_neg hsa, if_neg hsa, if_pos hlife, if_pos hlife]
    exact within_lifetime_print
  by_cases haddr : type = SADB_EXT_ADDRESS_SRC ∨ type = SADB_EXT_ADDRESS_DST ∨ type = SADB_EXT_ADDRESS_PROXY
  · rw [if_neg (by rcases haddr with rfl | rfl | rfl <;> decide), if_neg hsa, if_neg hsa, if_neg hlife, if_neg hlife,
      if_pos haddr, if_pos haddr]
    exact within_address_print h8
  by_cases hkey : type = SADB_EXT_KEY_AUTH ∨ type = SADB_EXT_KEY_ENCRYPT
  · rw [if_neg (by rcases hkey with rfl | rfl <;> decide), if_neg hsa, if_neg hsa, if_neg hlife, if_neg hlife,
      if_neg haddr, if_neg haddr, if_pos hkey, if_pos hkey]
    exact within_key_print h8
  by_cases hsup : type = SADB_EXT_SUPPORTED_AUTH ∨ type = SADB_EXT_SUPPORTED_ENCRYPT
  · rcases hsup with rfl | rfl
    · exact within_supported_print h8 halign
    · exact within_supported_print h8 halign
  · simp only [hsa, hlife, haddr, hkey, hsup, if_false]
    refine iff_of_true ?_ (by omega)
    split_ifs <;> exact within_nil

end Needs

/-! ### Messages whose extensions fit -/

/-- From an offset on every extension has a length, and the bytes it needs are in the message. -/
inductive ExtsFit (mem : Nat → UInt8) (n : Nat) : Nat → Prop
  | done {off : Nat} : n ≤ off → ExtsFit mem n off
  | ext {off : Nat} : off < n → extLen mem off ≠ 0 → off + need mem n off ≤ n →
      ExtsFit mem n (off + extLen mem off * 8) → ExtsFit mem n off

/-- The extensions that are visited. -/
def Printed.visits : Printed → List Visit
  | .message _ _ _ _ _ visits _ => visits
  | _ => []

/-- The printing of a message ends, at extensions that follow one another in the message, and without a read
beyond it. -/
def PrintsWithin (mem : Nat → UInt8) (msglen : Nat) : Prop :=
  ∃ fuel printed, print_sadb_msg fuel mem msglen = some printed ∧
    (printed.visits.map Visit.off).Pairwise (· < ·) ∧
    ∀ v ∈ printed.visits, v.off < msglen ∧ Within v.reads msglen

/-- A message whose extensions are walked over. -/
def Walked (mem : Nat → UInt8) (msglen : Nat) : Prop :=
  msglen = (sadb_msg_len mem).toNat * 8 ∧ sadb_msg_version mem = PF_KEY_V2

instance (mem : Nat → UInt8) (msglen : Nat) : Decidable (Walked mem msglen) :=
  inferInstanceAs (Decidable (_ ∧ _))

section Walk
variable {mem : Nat → UInt8} {n off fuel : Nat} {visits : List Visit} {left : Int}

theorem visit_snd (mem : Nat → UInt8) (n ext : Nat) : (visit mem n ext).2 = extLen mem ext * 8 := by
  change extLen mem ext <<< 3 = _
  rw [Nat.shiftLeft_eq]

theorem walk_done (h : n ≤ off) (fuel : Nat) :
    walk mem n (fuel + 1) off (n - off) = some ([], (n : Int) - off) := by
  unfold walk
  exact if_neg (by omega)

theorem walk_turn (h : off < n) (fuel : Nat) :
    walk mem n (fuel + 1) off (n - off) =
      (walk mem n fuel (off + extLen mem off * 8) (n - (off + extLen mem off * 8 : Nat))).map
        fun r ↦ ((visit mem n off).1 :: r.1, r.2) := by
  have hleft : (n : Int) - off - (extLen mem off * 8 : Nat) = n - (off + extLen mem off * 8 : Nat) := by omega
  rw [walk, if_pos (by omega)]
  simp only [visit_snd, hleft]
  cases walk mem n fuel (off + extLen mem off * 8) (n - (off + extLen mem off * 8 : Nat)) <;> rfl

/-- An extension without a length is visited forever. -/
private theorem walk_stuck (off : Nat) (h : off < n) (hlen : extLen mem off = 0) (fuel : Nat) :
    walk mem n fuel off (n - off) = none := by
  induction fuel with
  | zero => rfl
  | succ fuel ih =>
    rw [walk_turn h, hlen, Nat.zero_mul, Nat.add_zero, ih]
    rfl

private theorem walk_of_extsFit (hn : 8 ∣ n) (hoff : 8 ∣ off) (h : ExtsFit mem n off) :
    ∃ fuel visits left, walk mem n fuel off (n - off) = some (visits, left) ∧
      (visits.map Visit.off).Pairwise (· < ·) ∧
      ∀ v ∈ visits, off ≤ v.off ∧ v.off < n ∧ Within v.reads n := by
  induction h with
  | done hle => exact ⟨1, [], _, walk_done hle 0, .nil, fun _ hv ↦ absurd hv List.not_mem_nil⟩
  | @ext off hlt hlen hneed _ ih =>
    obtain ⟨fuel, visits, left, hwalk, hpairwise, hall⟩ := ih (by omega)
    refine ⟨fuel + 1, (visit mem n off).1 :: visits, left, ?_, ?_, ?_⟩
    · rw [walk_turn hlt, hwalk]
      rfl
    · refine List.pairwise_cons.mpr ⟨fun o ho ↦ ?_, hpairwise⟩
      obtain ⟨v, hv, rfl⟩ := List.mem_map.mp ho
      have hge := (hall v hv).1
      change off < v.off
      omega
    · refine List.forall_mem_cons.mpr ⟨⟨Nat.le_refl off, hlt, ?_⟩, fun v hv ↦ ?_⟩
      · exact (within_visit (by omega) (by omega)).mpr hneed
      · obtain ⟨hge, hrest⟩ := hall v hv
        exact ⟨by omega, hrest⟩

private theorem extsFit_of_walk (hn : 8 ∣ n) (hoff : 8 ∣ off)
    (hwalk : walk mem n fuel off (n - off) = some (visits, left)) (hall : ∀ v ∈ visits, Within v.reads n) :
    ExtsFit mem n off := by
  induction fuel generalizing off visits left with
  | zero => exact absurd hwalk (Option.some_ne_none _).symm
  | succ fuel ih =>
    by_cases hlt : off < n
    · by_cases hlen : extLen mem off = 0
      · rw [walk_stuck _ hlt hlen] at hwalk
        cases hwalk
      · rw [walk_turn hlt] at hwalk
        obtain ⟨⟨rest, left'⟩, hrest, heq⟩ := Option.map_eq_some_iff.mp hwalk
        cases heq
        obtain ⟨hvisit, hothers⟩ := List.forall_mem_cons.mp hall
        exact .ext hlt hlen ((within_visit (by omega) (by omega)).mp hvisit) (ih (by omega) hrest hothers)
    · exact .done (Nat.not_lt.mp hlt)

/-- A message that is rejected or has no extensions. -/
private theorem print_unwalked {msglen : Nat} (h : ¬ Walked mem msglen ∨ msglen = sizeofMsg) :
    PrintsWithin mem msglen := by
  have hprinted : ∃ printed, print_sadb_msg 0 mem msglen = some printed ∧ printed.visits = [] := by
    unfold print_sadb_msg
    split
    · exact ⟨_, rfl, rfl⟩
    next hlen =>
    split
    · exact ⟨_, rfl, rfl⟩
    next hversion =>
    dsimp only
    rw [if_pos (h.resolve_left (not_not_intro ⟨not_not.mp hlen, not_not.mp hversion⟩))]
    exact ⟨_, rfl, rfl⟩
  obtain ⟨printed, hsome, hvisits⟩ := hprinted
  refine ⟨0, printed, hsome, ?_, ?_⟩
  · rw [hvisits]
    exact .nil
  · rw [hvisits]
    exact fun _ hv ↦ absurd hv List.not_mem_nil

theorem print_walked {msglen : Nat} (h : Walked mem msglen) (hne : msglen ≠ sizeofMsg) (fuel : Nat) :
    print_sadb_msg fuel mem msglen = (walk mem msglen fuel sizeofMsg (msglen - sizeofMsg)).map fun (visits, left) ↦
      .message (mem 1) (mem 2) (mem 3) (load32 mem 8).val (load32 mem 12).val visits left := by
  unfold print_sadb_msg
  rw [if_neg (not_not_intro h.1), if_neg (not_not_intro h.2)]
  exact if_neg hne

/-- A message is printed within its bytes exactly if it is rejected or its extensions fit. -/
theorem print_sadb_msg_within_iff (mem : Nat → UInt8) (msglen : Nat) :
    PrintsWithin mem msglen ↔ (Walked mem msglen → ExtsFit mem msglen sizeofMsg) := by
  by_cases hwalked : Walked mem msglen
  · have hn : 8 ∣ msglen := ⟨(sadb_msg_len mem).toNat, by rw [Nat.mul_comm]; exact hwalked.1⟩
    by_cases hbare : msglen = sizeofMsg
    · exact iff_of_true (print_unwalked (.inr hbare)) fun _ ↦ .done (Nat.le_of_eq hbare)
    · constructor
      · rintro ⟨fuel, printed, hprinted, -, hall⟩ -
        rw [print_walked hwalked hbare] at hprinted
        obtain ⟨⟨visits, left⟩, hwalk, rfl⟩ := Option.map_eq_some_iff.mp hprinted
        exact extsFit_of_walk hn ⟨2, rfl⟩ hwalk fun v hv ↦ (hall v hv).2
      · intro hfit
        obtain ⟨fuel, visits, left, hwalk, hpairwise, hall⟩ := walk_of_extsFit hn ⟨2, rfl⟩ (hfit hwalked)
        have hprinted := print_walked hwalked hbare fuel
        rw [show walk mem msglen fuel sizeofMsg (msglen - sizeofMsg) = some (visits, left) from hwalk] at hprinted
        exact ⟨fuel, _, hprinted, hpairwise, fun v hv ↦ (hall v hv).2⟩
  · exact iff_of_true (print_unwalked (.inl hwalked)) fun h ↦ absurd h hwalked

end Walk

/-- A message with an extension of length zero. -/
def zeroLength : Nat → UInt8 := fun i ↦ [2, 3, 0, 3, 3, 0].getD i 0

/-- The walk stays at the extension. -/
theorem print_sadb_msg_stuck : ¬ PrintsWithin zeroLength 24 := by
  rintro ⟨fuel, printed, hprinted, -⟩
  have hstuck : walk zeroLength 24 fuel sizeofMsg ((24 : Nat) - sizeofMsg) = none :=
    walk_stuck 16 (by decide) (by decide) fuel
  rw [print_walked (by decide) (by decide), hstuck] at hprinted
  cases hprinted

end Unpv13e.Key
