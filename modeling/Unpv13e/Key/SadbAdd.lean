import Unpv13e.Key.PrintSadbMsg

/-!
# `sadb_add`

Library `Key`. `src/key/add.c`: the message that adds a security association is built in a buffer of 4096 bytes,
from two addresses and a key of any length that `main` accepts.
-/

namespace Unpv13e.Key
open Unpv13e.Base

def SADB_SASTATE_MATURE : UInt8 := 1
def SADB_EALG_NONE : UInt8 := 0
/-- `sizeof(buf)` -/
def sizeofBuf : Nat := 4096

/-- `struct sockaddr_in` and `struct sockaddr_in6`, whose ports and addresses are as in memory. -/
inductive Sockaddr
  | inet (sin_port : UInt16) (sin_addr : Vector UInt8 4)
  | inet6 (sin6_port : UInt16) (sin6_flowinfo : UInt32) (sin6_addr : Vector UInt8 16) (sin6_scope_id : UInt32)

/-- `sa_family` -/
def Sockaddr.sa_family : Sockaddr → UInt16
  | .inet .. => AF_INET
  | .inet6 .. => AF_INET6

/-- The bytes of a socket address. -/
def Sockaddr.bytes : Sockaddr → List UInt8
  | .inet port addr => toBytes 2 AF_INET.toNat ++ (toBytes 2 port.toNat ++ (addr.toList ++ List.replicate 8 0))
  | .inet6 port flowinfo addr scope => toBytes 2 AF_INET6.toNat ++ (toBytes 2 port.toNat ++
      (toBytes 4 flowinfo.toNat ++ (addr.toList ++ toBytes 4 scope.toNat)))

/-- `salen`, `src/key/add.c:4–21` -/
def salen : Sockaddr → Nat
  | .inet .. => 16
  | .inet6 .. => 28

/-- `prefix_all`, `src/key/add.c:23–36` -/
def prefix_all : Sockaddr → UInt8
  | .inet .. => 32
  | .inet6 .. => 128

/-- `htonl`, which is its own inverse. -/
def htonl (x : UInt32) : UInt32 := UInt32.ofNat (ofBytes (toBytes 4 x.toNat).reverse)

/-- An `int` where a `size_t` is expected. -/
def toSize (x : Int) : Nat := (x % 2 ^ 64).toNat

/-- The buffer, and the fields that were written. -/
structure Buf where
  mem : Nat → UInt8
  writes : List Field

/-- The buffer after `bzero`. -/
def Buf.zero : Buf := ⟨fun _ ↦ 0, []⟩

/-- Assignments to members that follow one another. -/
def Buf.store (buf : Buf) (off : Nat) (bytes : List UInt8) : Buf :=
  ⟨overwrite buf.mem off bytes, buf.writes ++ [⟨off, bytes.length⟩]⟩

/-- `memcpy(buf + off, bytes, n)`, of the bytes that there are. -/
def Buf.memcpy (buf : Buf) (off : Nat) (bytes : List UInt8) (n : Nat) : Buf :=
  ⟨overwrite buf.mem off (bytes.take n), buf.writes ++ [⟨off, n⟩]⟩

/-- The members of `struct sadb_sa`, lines 68–75. -/
def saBytes (alg : UInt8) (spi : UInt32) : List UInt8 :=
  toBytes 2 (sizeofSa / 8) ++ (toBytes 2 SADB_EXT_SA.toNat ++ (toBytes 4 (htonl spi).toNat ++
    ([0, SADB_SASTATE_MATURE, alg, SADB_EALG_NONE] ++ toBytes 4 0)))

/-- `sadb_address_len` -/
def addressLen (sa : Sockaddr) : UInt16 := UInt16.ofNat ((sizeofAddress + salen sa + 7) / 8)

/-- The members of `struct sadb_address`. -/
def addressBytes (exttype : UInt16) (sa : Sockaddr) : List UInt8 :=
  toBytes 2 (addressLen sa).toNat ++ (toBytes 2 exttype.toNat ++ ([0, prefix_all sa] ++ toBytes 2 0))

/-- Lines 79–87 and 89–97. -/
def addAddress (exttype : UInt16) (sa : Sockaddr) (buf : Buf) (p : Nat) : Buf :=
  (buf.store p (addressBytes exttype sa)).memcpy (p + sizeofAddress) sa.bytes (salen sa)

/-- `sadb_key_len` -/
def keyLen (keybits : Int) : UInt16 :=
  UInt16.ofNat (toSize (sizeofKey + keybits.tdiv 8 + 7) / 8)

/-- The members of `struct sadb_key`. -/
def keyHeader (keybits : Int) : List UInt8 :=
  toBytes 2 (keyLen keybits).toNat ++ (toBytes 2 SADB_EXT_KEY_AUTH.toNat ++
    (toBytes 2 (UInt16.ofInt keybits).toNat ++ toBytes 2 0))

/-- Lines 99–107. -/
def addKey (keybits : Int) (keydata : List UInt8) (buf : Buf) (p : Nat) : Buf :=
  (buf.store p (keyHeader keybits)).memcpy (p + sizeofKey) keydata (toSize (keybits.tdiv 8))

/-- `sadb_add`, `src/key/add.c:39–112`: the buffer and the length that are printed and written. -/
def sadb_add (src dst : Sockaddr) (type alg : UInt8) (spi pid : UInt32) (keybits : Int) (keydata : List UInt8) :
    Buf × Nat :=
  let buf := Buf.zero.store 0 [PF_KEY_V2, SADB_ADD, 0, type]
  let buf := buf.store 12 (toBytes 4 pid.toNat)
  let p := sizeofMsg
  let buf := buf.store p (saBytes alg spi)
  let p := p + sizeofSa / 8 * 8
  let buf := addAddress SADB_EXT_ADDRESS_SRC src buf p
  let p := p + (addressLen src).toNat * 8
  let buf := addAddress SADB_EXT_ADDRESS_DST dst buf p
  let p := p + (addressLen dst).toNat * 8
  let buf := addKey keybits keydata buf p
  let len := p + (keyLen keybits).toNat * 8
  (buf.store 4 (toBytes 2 (len / 8)), len)

/-! ### The keys that are accepted -/

/-- The loop of `main` over the digits, lines 164–179, of which `sscanf2x` reads two as `sscanf` with `%2x` does. -/
def readKey (sscanf2x : List Char → Option UInt8) : Nat → List Char → Option (List UInt8)
  | 0, p => if p.length > 0 then none else some []
  | turns + 1, p =>
    if p.length < 2 then none
    else do
      let c ← sscanf2x p
      let rest ← readKey sscanf2x turns (p.drop 2)
      return c :: rest

/-- The digits of an argument that may begin with `0x`. -/
def digits : List Char → List Char
  | '0' :: 'x' :: p => p
  | '0' :: 'X' :: p => p
  | p => p

/-- `src/key/add.c:156–179`: the key, unless `main` quits. -/
def acceptKey (sscanf2x : List Char → Option UInt8) (keybits : Int) (arg : List Char) : Option (List UInt8) :=
  if keybits.tmod 8 ≠ 0 then none else readKey sscanf2x ((keybits + 7) / 8).toNat (digits arg)

/-! ### What the reader recovers -/

/-- A socket address as it is printed. -/
def Sockaddr.shown : Sockaddr → Shown
  | .inet port addr => .inet addr.toList port
  | .inet6 port _ addr _ => .inet6 addr.toList port

/-- The items of a message: the association, the two addresses and the key. -/
def items (src dst : Sockaddr) (alg : UInt8) (spi : UInt32) (keybits : UInt16) (keydata : List UInt8) : List Item :=
  [.sa spi 0 SADB_SASTATE_MATURE alg SADB_EALG_NONE 0,
    .address SADB_EXT_ADDRESS_SRC src.shown (prefix_all src) 0,
    .address SADB_EXT_ADDRESS_DST dst.shown (prefix_all dst) 0,
    .key SADB_EXT_KEY_AUTH keybits keydata]

/-- A message that fits in the buffer and that its own reader accepts: it visits four extensions and ends at the
end of the message. -/
structure Readable (src dst : Sockaddr) (alg : UInt8) (spi : UInt32) (keybits : Int) (keydata : List UInt8)
    (msg : Buf × Nat) : Prop where
  fits : Within msg.1.writes sizeofBuf ∧ msg.2 ≤ sizeofBuf
  msg_len : (sadb_msg_len msg.1.mem).toNat * 8 = msg.2
  exts : ∃ spi' bits fuel type errno satype seq pid visits,
    htonl spi' = spi ∧ (bits.toNat : Int) = keybits ∧
    print_sadb_msg fuel msg.1.mem msg.2 = some (.message type errno satype seq pid visits 0) ∧
    visits.map Visit.item = items src dst alg spi' bits keydata

/-- The longest key that fits behind two addresses, in bits. -/
def maxBits : Sockaddr → Int
  | .inet .. => 32064
  | .inet6 .. => 31808

section Read
variable {mem : Nat → UInt8} {n ext : Nat} {sa : Sockaddr} {alg : UInt8} {spi : UInt32} {exttype : UInt16}
  {keybits : Int} {keydata : List UInt8}

theorem htonl_htonl (x : UInt32) : htonl (htonl x) = x := by
  have hlt : ofBytes (toBytes 4 x.toNat).reverse < 256 ^ 4 := ofBytes_lt _
  have hof : (htonl x).toNat = ofBytes (toBytes 4 x.toNat).reverse := by
    rw [htonl, UInt32.toNat_ofNat']
    exact Nat.mod_eq_of_lt hlt
  have hbytes : toBytes 4 (ofBytes (toBytes 4 x.toNat).reverse) = (toBytes 4 x.toNat).reverse :=
    toBytes_ofBytes (toBytes 4 x.toNat).reverse
  rw [htonl, hof, hbytes, List.reverse_reverse, ofNat32]

private theorem visit_sa (h : HasBytes mem ext (saBytes alg spi)) :
    (visit mem n ext).1.item = .sa (htonl spi) 0 SADB_SASTATE_MATURE alg SADB_EALG_NONE 0 ∧ extLen mem ext = 2 := by
  have htype : (load16 mem (ext + 2)).val = SADB_EXT_SA := h.load16 (by decide : 2 + 2 ≤ 16) rfl
  have hlen : (load16 mem ext).val = 2 := h.load16 (by decide : 0 + 2 ≤ 16) rfl
  have hspi : (load32 mem (ext + 4)).val = htonl spi := h.load32 (by decide : 4 + 4 ≤ 16) rfl
  have hflags : (load32 mem (ext + 12)).val = 0 := h.load32 (by decide : 12 + 4 ≤ 16) rfl
  refine ⟨?_, congrArg UInt16.toNat hlen⟩
  change (ext_print mem n ext).val = _
  unfold ext_print
  rw [val_bind, htype]
  change (sa_print mem ext).val = _
  unfold sa_print
  simp only [val_bind, val_load8, val_pure, hspi, hflags]
  rw [show mem (ext + 8) = 0 from h.get (by decide : 8 < 16),
    show mem (ext + 9) = SADB_SASTATE_MATURE from h.get (by decide : 9 < 16),
    show mem (ext + 10) = alg from h.get (by decide : 10 < 16),
    show mem (ext + 11) = SADB_EALG_NONE from h.get (by decide : 11 < 16)]

private theorem length_bytes (sa : Sockaddr) : sa.bytes.length = salen sa := by
  cases sa with
  | inet port addr =>
    simp only [Sockaddr.bytes, List.length_append, length_toBytes, Vector.length_toList, List.length_replicate]
    rfl
  | inet6 port flowinfo addr scope =>
    simp only [Sockaddr.bytes, List.length_append, length_toBytes, Vector.length_toList]
    rfl

/-- `sock_ntop` shows a socket address as it was stored. -/
private theorem val_sock_ntop {p : Nat} {salen : Int} (h : HasBytes mem p sa.bytes) :
    (sock_ntop mem n p salen).val = sa.shown := by
  have hlen := length_bytes sa
  cases sa with
  | inet port addr =>
    change _ = 16 at hlen
    have hfamily : (load16 mem p).val = AF_INET := h.load16 (k := 0) (by omega) rfl
    have hport : (load16 mem (p + 2)).val = port := h.load16 (by omega) rfl
    have haddr : bytesAt mem (p + 4) 4 = addr.toList := by
      rw [h.bytesAt (by omega)]
      exact List.take_left' (Vector.length_toList)
    unfold sock_ntop
    rw [val_bind, hfamily]
    change (Shown.inet (bytesAt mem (p + 4) 4) (load16 mem (p + 2)).val) = _
    rw [haddr, hport]
    rfl
  | inet6 port flowinfo addr scope =>
    change _ = 28 at hlen
    have hfamily : (load16 mem p).val = AF_INET6 := h.load16 (k := 0) (by omega) rfl
    have hport : (load16 mem (p + 2)).val = port := h.load16 (by omega) rfl
    have haddr : bytesAt mem (p + 8) 16 = addr.toList := by
      rw [h.bytesAt (by omega)]
      exact List.take_left' (Vector.length_toList)
    unfold sock_ntop
    rw [val_bind, hfamily]
    change (Shown.inet6 (bytesAt mem (p + 8) 16) (load16 mem (p + 2)).val) = _
    rw [haddr, hport]
    rfl

private theorem visit_address (hext : exttype = SADB_EXT_ADDRESS_SRC ∨ exttype = SADB_EXT_ADDRESS_DST)
    (h : HasBytes mem ext (addressBytes exttype sa)) (hsa : HasBytes mem (ext + sizeofAddress) sa.bytes) :
    (visit mem n ext).1.item = .address exttype sa.shown (prefix_all sa) 0 ∧
      extLen mem ext = (addressLen sa).toNat := by
  have htype : (load16 mem (ext + 2)).val = exttype := h.load16 (by decide : 2 + 2 ≤ 8) rfl
  have hlen : (load16 mem ext).val = addressLen sa := h.load16 (by decide : 0 + 2 ≤ 8) rfl
  refine ⟨?_, congrArg UInt16.toNat hlen⟩
  change (ext_print mem n ext).val = _
  have hprint : (ext_print mem n ext).val = (address_print mem n ext).val := by
    unfold ext_print
    rw [val_bind, htype]
    obtain rfl | rfl := hext
    · rfl
    · rfl
  rw [hprint]
  unfold address_print
  simp only [val_bind, val_load8, val_pure, htype, val_sock_ntop hsa]
  rw [show mem (ext + 5) = prefix_all sa from h.get (by decide : 5 < 8),
    show mem (ext + 4) = 0 from h.get (by decide : 4 < 8)]

private theorem val_keyBytes {p : Nat} (h : HasBytes mem p keydata) :
    (keyBytes mem p (8 * keydata.length)).val = keydata := by
  induction keydata generalizing p with
  | nil =>
    rw [keyBytes]
    exact congrArg Read.val (if_neg (Nat.lt_irrefl 0))
  | cons c keydata ih =>
    have hfirst : mem p = c := h.get (Nat.succ_pos _)
    have hbits : 8 * (c :: keydata).length - 8 = 8 * keydata.length := by
      rw [List.length_cons]
      omega
    rw [keyBytes, if_pos (by rw [List.length_cons]; omega), val_bind, val_bind, hbits, val_load8, ih h.tail, hfirst]
    rfl

private theorem visit_key (h : HasBytes mem ext (keyHeader keybits)) (hkey : HasBytes mem (ext + sizeofKey) keydata)
    (hbits : (UInt16.ofInt keybits).toNat = 8 * keydata.length) :
    (visit mem n ext).1.item = .key SADB_EXT_KEY_AUTH (UInt16.ofInt keybits) keydata ∧
      extLen mem ext = (keyLen keybits).toNat := by
  have htype : (load16 mem (ext + 2)).val = SADB_EXT_KEY_AUTH := h.load16 (by decide : 2 + 2 ≤ 8) rfl
  have hlen : (load16 mem ext).val = keyLen keybits := h.load16 (by decide : 0 + 2 ≤ 8) rfl
  have hval : (load16 mem (ext + 4)).val = UInt16.ofInt keybits := h.load16 (by decide : 4 + 2 ≤ 8) rfl
  refine ⟨?_, congrArg UInt16.toNat hlen⟩
  change (ext_print mem n ext).val = _
  have hprint : (ext_print mem n ext).val = (key_print mem ext).val := by
    unfold ext_print
    rw [val_bind, htype]
    rfl
  rw [hprint]
  unfold key_print
  simp only [val_bind, val_pure, htype, hval, hbits, val_keyBytes hkey]

end Read

/-! ### The message in the buffer -/

section Message
variable {src dst : Sockaddr} {type alg : UInt8} {spi pid : UInt32} {keybits : Int} {keydata : List UInt8}

/-- The room an address takes. -/
private theorem addressLen_inet (port : UInt16) (addr : Vector UInt8 4) :
    (addressLen (.inet port addr)).toNat * 8 = 24 :=
  (by decide : (UInt16.ofNat ((8 + 16 + 7) / 8)).toNat * 8 = 24)

private theorem addressLen_inet6 (port : UInt16) (flowinfo : UInt32) (addr : Vector UInt8 16) (scope : UInt32) :
    (addressLen (.inet6 port flowinfo addr scope)).toNat * 8 = 40 :=
  (by decide : (UInt16.ofNat ((8 + 28 + 7) / 8)).toNat * 8 = 40)

private theorem salen_le (sa : Sockaddr) : 8 + salen sa ≤ (addressLen sa).toNat * 8 := by
  cases sa with
  | inet port addr =>
    rw [addressLen_inet]
    exact Nat.le_refl 24
  | inet6 port flowinfo addr scope =>
    rw [addressLen_inet6]
    exact (by decide : 36 ≤ 40)

/-- The offsets of the second address and of the key. -/
private def dstOff (src : Sockaddr) : Nat := 32 + (addressLen src).toNat * 8
private def keyOff (src dst : Sockaddr) : Nat := dstOff src + (addressLen dst).toNat * 8

/-- What is stored before the length of the message, in the order of the buffer. -/
private def blocks (src dst : Sockaddr) (type alg : UInt8) (spi pid : UInt32) (keybits : Int)
    (keydata : List UInt8) : List (Nat × List UInt8) :=
  [(0, [PF_KEY_V2, SADB_ADD, 0, type]), (12, toBytes 4 pid.toNat), (16, saBytes alg spi),
    (32, addressBytes SADB_EXT_ADDRESS_SRC src), (40, src.bytes),
    (dstOff src, addressBytes SADB_EXT_ADDRESS_DST dst), (dstOff src + 8, dst.bytes),
    (keyOff src dst, keyHeader keybits), (keyOff src dst + 8, keydata)]

private theorem blocks_ascending (src dst : Sockaddr) (type alg : UInt8) (spi pid : UInt32) (keybits : Int)
    (keydata : List UInt8) : Ascending 0 (blocks src dst type alg spi pid keybits keydata) := by
  have hsrc := salen_le src
  have hdst := salen_le dst
  have hsrcb := length_bytes src
  have hdstb := length_bytes dst
  refine ⟨Nat.le_refl 0, (by decide : 4 ≤ 12), (by decide : 16 ≤ 16), (by decide : 32 ≤ 32), (by decide : 40 ≤ 40),
    ?_, Nat.le_refl _, ?_, Nat.le_refl _, trivial⟩
  · dsimp only [dstOff]
    omega
  · dsimp only [keyOff]
    omega

private theorem sadb_add_mem (hkey : toSize (keybits.tdiv 8) = keydata.length) :
    (sadb_add src dst type alg spi pid keybits keydata).1.mem =
      overwrite (writeAll (fun _ ↦ 0) (blocks src dst type alg spi pid keybits keydata)) 4
        (toBytes 2 ((sadb_add src dst type alg spi pid keybits keydata).2 / 8)) := by
  have hsrc : src.bytes.take (salen src) = src.bytes := by rw [← length_bytes, List.take_length]
  have hdst : dst.bytes.take (salen dst) = dst.bytes := by rw [← length_bytes, List.take_length]
  have hdata : keydata.take (toSize (keybits.tdiv 8)) = keydata := by rw [hkey, List.take_length]
  simp only [sadb_add, addAddress, addKey, Buf.store, Buf.memcpy, hsrc, hdst, hdata]
  rfl

/-- What the buffer holds at the end. -/
private structure Stored (src dst : Sockaddr) (alg : UInt8) (spi : UInt32) (keybits : Int) (keydata : List UInt8)
    (mem : Nat → UInt8) (len : Nat) : Prop where
  version : mem 0 = PF_KEY_V2
  msgLen : HasBytes mem 4 (toBytes 2 (len / 8))
  sa : HasBytes mem 16 (saBytes alg spi)
  srcExt : HasBytes mem 32 (addressBytes SADB_EXT_ADDRESS_SRC src)
  srcAddr : HasBytes mem 40 src.bytes
  dstExt : HasBytes mem (dstOff src) (addressBytes SADB_EXT_ADDRESS_DST dst)
  dstAddr : HasBytes mem (dstOff src + 8) dst.bytes
  keyExt : HasBytes mem (keyOff src dst) (keyHeader keybits)
  keyData : HasBytes mem (keyOff src dst + 8) keydata

private theorem stored (hkey : toSize (keybits.tdiv 8) = keydata.length) :
    Stored src dst alg spi keybits keydata (sadb_add src dst type alg spi pid keybits keydata).1.mem
      (sadb_add src dst type alg spi pid keybits keydata).2 := by
  have hall := hasBytes_writeAll (fun _ ↦ 0) (blocks_ascending src dst type alg spi pid keybits keydata)
  rw [sadb_add_mem hkey]
  generalize (sadb_add src dst type alg spi pid keybits keydata).2 = len
  generalize writeAll (fun _ ↦ 0) (blocks src dst type alg spi pid keybits keydata) = mem at hall
  simp only [blocks, List.forall_mem_cons] at hall
  obtain ⟨hfirst, -, hsa, hsrcExt, hsrcAddr, hdstExt, hdstAddr, hkeyExt, hkeyData, -⟩ := hall
  have hdstOff : 32 ≤ dstOff src := Nat.le_add_right _ _
  have hkeyOff : 32 ≤ keyOff src dst := Nat.le_trans hdstOff (Nat.le_add_right _ _)
  have hlen : (toBytes 2 (len / 8)).length = 2 := rfl
  refine ⟨?_, hasBytes_overwrite _ _ _, hsa.overwrite_ahead (by omega), hsrcExt.overwrite_ahead (by omega),
    hsrcAddr.overwrite_ahead (by omega), hdstExt.overwrite_ahead (by omega), hdstAddr.overwrite_ahead (by omega),
    hkeyExt.overwrite_ahead (by omega), hkeyData.overwrite_ahead (by omega)⟩
  exact (hfirst.overwrite_behind (by decide : 4 ≤ 4) _).get (by decide : 0 < 4)

/-- A walk over four extensions that end at the end of the message. -/
private theorem walk_four {mem : Nat → UInt8} {n b c d : Nat} (hb : 16 + extLen mem 16 * 8 = b)
    (hc : b + extLen mem b * 8 = c) (hd : c + extLen mem c * 8 = d) (hn : d + extLen mem d * 8 = n) (hlt : d < n) :
    walk mem n 5 16 (n - (16 : Nat)) =
      some ([(visit mem n 16).1, (visit mem n b).1, (visit mem n c).1, (visit mem n d).1], 0) := by
  have hdone : walk mem n 1 n ((n : Int) - n) = some ([], 0) :=
    (walk_done (Nat.le_refl n) 0).trans (by rw [Int.sub_self])
  rw [walk_turn (by omega), hb, walk_turn (by omega), hc, walk_turn (by omega), hd, walk_turn hlt, hn, hdone]
  rfl

/-- What the room for a key means for its length. -/
private theorem keyOff_eq (hfamily : src.sa_family = dst.sa_family) :
    80 ≤ keyOff src dst ∧ 8 ∣ keyOff src dst ∧ maxBits src = 8 * (4088 - keyOff src dst) := by
  unfold keyOff dstOff
  cases src <;> cases dst
  · rw [addressLen_inet, addressLen_inet]
    exact ⟨by decide, by decide, rfl⟩
  · cases hfamily
  · cases hfamily
  · rw [addressLen_inet6, addressLen_inet6]
    exact ⟨by decide, by decide, rfl⟩

private theorem sadb_add_snd : (sadb_add src dst type alg spi pid keybits keydata).2 =
    keyOff src dst + (keyLen keybits).toNat * 8 := rfl

private theorem keyLen_eq {len : Nat} (hlen : len ≤ 4096) :
    toSize (((len : Int) * 8).tdiv 8) = len ∧ (keyLen ((len : Int) * 8)).toNat = (8 + len + 7) / 8 := by
  have hdiv : ((len : Int) * 8).tdiv 8 = len := Int.mul_tdiv_cancel _ (by decide)
  have hsum : (sizeofKey : Int) + len + 7 = (8 + len + 7 : Nat) := rfl
  unfold keyLen
  rw [hdiv, hsum, toSize, toSize, UInt16.toNat_ofNat']
  omega

/-- What is read of a message that is stored. -/
private theorem Stored.exts {mem : Nat → UInt8} {len : Nat}
    (h : Stored src dst alg spi ((keydata.length : Int) * 8) keydata mem len) (hmax : keydata.length ≤ 4096)
    (hlen : keyOff src dst + (keyLen ((keydata.length : Int) * 8)).toNat * 8 = len) (hle : len ≤ 4096) :
    (sadb_msg_len mem).toNat * 8 = len ∧ ∃ type errno satype seq pid visits,
      print_sadb_msg 5 mem len = some (.message type errno satype seq pid visits 0) ∧
      visits.map Visit.item = items src dst alg (htonl spi) (UInt16.ofInt ((keydata.length : Int) * 8)) keydata := by
  have hoff : keyOff src dst = 32 + (addressLen src).toNat * 8 + (addressLen dst).toNat * 8 := rfl
  have hbits : (UInt16.ofInt ((keydata.length : Int) * 8)).toNat = 8 * keydata.length := by
    rw [UInt16.ofInt, UInt16.toNat_ofNat']
    omega
  have hroom := (keyLen_eq hmax).2
  obtain ⟨hsa, hsaLen⟩ := visit_sa (n := len) h.sa
  obtain ⟨hsrc, hsrcLen⟩ := visit_address (n := len) (.inl rfl) h.srcExt h.srcAddr
  obtain ⟨hdst, hdstLen⟩ := visit_address (n := len) (.inr rfl) h.dstExt h.dstAddr
  obtain ⟨hkey, hkeyLen⟩ := visit_key (n := len) h.keyExt h.keyData hbits
  have hmsg : sadb_msg_len mem = UInt16.ofNat (len / 8) := by
    have hval : (UInt16.ofNat (len / 8)).toNat = len / 8 := by
      rw [UInt16.toNat_ofNat']
      omega
    exact h.msgLen.load16 (k := 0) (Nat.le_refl 2) (by rw [hval]; rfl)
  have hmsgLen : (sadb_msg_len mem).toNat * 8 = len := by
    rw [hmsg, UInt16.toNat_ofNat']
    omega
  have hwalk : walk mem len 5 16 (len - (16 : Nat)) = some ([(visit mem len 16).1, (visit mem len 32).1,
      (visit mem len (dstOff src)).1, (visit mem len (keyOff src dst)).1], 0) := by
    apply walk_four
    · rw [hsaLen]
    · rw [hsrcLen]
      rfl
    · rw [hdstLen]
      rfl
    · rw [hkeyLen, hlen]
    · omega
  have hprint := print_walked ⟨hmsgLen.symm, h.version⟩ (by unfold sizeofMsg; omega) 5
  rw [show walk mem len 5 sizeofMsg (len - sizeofMsg) = _ from hwalk] at hprint
  refine ⟨hmsgLen, _, _, _, _, _, _, hprint, ?_⟩
  rw [List.map_cons, List.map_cons, List.map_cons, List.map_cons, hsa, hsrc, hdst, hkey]
  rfl

/-- A key fits in the buffer, or something is written behind it. -/
private theorem within_writes (hfamily : src.sa_family = dst.sa_family) :
    Within (sadb_add src dst type alg spi pid keybits keydata).1.writes sizeofBuf ↔
      keyOff src dst + 8 + toSize (keybits.tdiv 8) ≤ 4096 := by
  have hroom := (keyOff_eq hfamily).1
  have hsrc := salen_le src
  have hdst := salen_le dst
  have hoff : keyOff src dst = 32 + (addressLen src).toNat * 8 + (addressLen dst).toNat * 8 := rfl
  have hpid : (toBytes 4 pid.toNat).length = 4 := rfl
  have hsa : (saBytes alg spi).length = 16 := rfl
  have haddr (exttype : UInt16) (sa : Sockaddr) : (addressBytes exttype sa).length = 8 := rfl
  have hkey : (keyHeader keybits).length = 8 := rfl
  have hlen (x : Nat) : (toBytes 2 x).length = 2 := rfl
  simp only [sadb_add, addAddress, addKey, Buf.store, Buf.memcpy, Buf.zero, List.nil_append, within_append,
    within_singleton, List.length_cons, List.length_nil, hpid, hsa, haddr, hkey, hlen, sizeofMsg, sizeofSa,
    sizeofAddress, sizeofKey, sizeofBuf]
  omega

private theorem length_readKey {sscanf2x : List Char → Option UInt8} {turns : Nat} {p : List Char}
    (h : readKey sscanf2x turns p = some keydata) : keydata.length = turns := by
  induction turns generalizing p keydata with
  | zero =>
    unfold readKey at h
    split at h
    · cases h
    · cases h
      rfl
  | succ turns ih =>
    unfold readKey at h
    split at h
    · cases h
    · obtain ⟨c, -, hrest⟩ := Option.bind_eq_some_iff.mp h
      obtain ⟨rest, hread, hcons⟩ := Option.bind_eq_some_iff.mp hrest
      cases hcons
      rw [List.length_cons, ih hread]

/-- The message built of any key that `main` accepts is one its reader accepts, exactly if the key is not longer
than the buffer has room for. -/
theorem sadb_add_readable_iff {sscanf2x : List Char → Option UInt8} {arg : List Char}
    (haccept : acceptKey sscanf2x keybits arg = some keydata) (hlow : -2 ^ 31 ≤ keybits)
    (hhigh : keybits < 2 ^ 31) (hfamily : src.sa_family = dst.sa_family) :
    Readable src dst alg spi keybits keydata (sadb_add src dst type alg spi pid keybits keydata) ↔
      0 ≤ keybits ∧ keybits ≤ maxBits src := by
  obtain ⟨hge, hdvd, hroom⟩ := keyOff_eq hfamily
  unfold acceptKey at haccept
  split at haccept
  · cases haccept
  next hmod =>
  have hdata := length_readKey haccept
  have height : keybits = keybits.tdiv 8 * 8 := by
    have hsplit := Int.mul_tdiv_add_tmod keybits 8
    omega
  generalize keybits.tdiv 8 = k at height
  subst height
  have hdiv : (k * 8).tdiv 8 = k := Int.mul_tdiv_cancel _ (by decide)
  constructor
  · intro hreadable
    have hwithin := (within_writes hfamily).mp hreadable.fits.1
    rw [hdiv, toSize] at hwithin
    omega
  · rintro ⟨hpos, hmax⟩
    obtain ⟨n, rfl⟩ := Int.eq_ofNat_of_zero_le (show 0 ≤ k by omega)
    have hn : keydata.length = n := by
      rw [hdata]
      omega
    subst hn
    have hle : keydata.length ≤ 4096 := by omega
    obtain ⟨hsize, hklen⟩ := keyLen_eq hle
    have hsnd : (sadb_add src dst type alg spi pid ((keydata.length : Int) * 8) keydata).2 =
      keyOff src dst + (keyLen ((keydata.length : Int) * 8)).toNat * 8 := sadb_add_snd
    have hlen : (sadb_add src dst type alg spi pid ((keydata.length : Int) * 8) keydata).2 ≤ 4096 := by omega
    obtain ⟨hmsg, type', errno, satype, seq, pid', visits, hprint, hitems⟩ :=
      (stored hsize).exts hle hsnd.symm hlen
    have hbits : ((UInt16.ofInt ((keydata.length : Int) * 8)).toNat : Int) = (keydata.length : Int) * 8 := by
      rw [UInt16.ofInt, UInt16.toNat_ofNat']
      omega
    refine ⟨⟨(within_writes hfamily).mpr ?_, hlen⟩, hmsg, htonl spi, UInt16.ofInt ((keydata.length : Int) * 8), 5,
      type', errno, satype, seq, pid', visits, htonl_htonl spi, hbits, hprint, hitems⟩
    rw [hsize]
    omega

end Message

/-- A key of two bytes between two hosts. -/
theorem sadb_add_readable_two :
    Readable (.inet 0 #v[10, 0, 0, 1]) (.inet 0 #v[10, 0, 0, 2]) 2 0x9876 16 [0, 0]
      (sadb_add (.inet 0 #v[10, 0, 0, 1]) (.inet 0 #v[10, 0, 0, 2]) 2 2 0x9876 42 16 [0, 0]) ↔
    0 ≤ (16 : Int) ∧ (16 : Int) ≤ maxBits (.inet 0 #v[10, 0, 0, 1]) :=
  sadb_add_readable_iff (show acceptKey (fun _ ↦ some 0) 16 ['0', 'x', '0', '0', '0', '0'] = some [0, 0] from rfl)
    (by decide) (by decide) rfl

private theorem readKey_zeros (n : Nat) :
    readKey (fun _ ↦ some 0) n (List.replicate (2 * n) '0') = some (List.replicate n 0) := by
  induction n with
  | zero => rfl
  | succ n ih =>
    have htwo : List.replicate (2 * (n + 1)) '0' = '0' :: '0' :: List.replicate (2 * n) '0' := rfl
    rw [htwo, readKey, if_neg (by rw [List.length_cons, List.length_cons]; omega)]
    change ((readKey (fun _ ↦ some 0) n (List.replicate (2 * n) '0')).bind fun rest ↦ some (0 :: rest)) = _
    rw [ih]
    rfl

private theorem acceptKey_zeros (n : Nat) :
    acceptKey (fun _ ↦ some 0) (n * 8) (List.replicate (2 * n) '0') = some (List.replicate n 0) := by
  have hdigits : digits (List.replicate (2 * n) '0') = List.replicate (2 * n) '0' := by
    cases n with
    | zero => rfl
    | succ n => rfl
  have hmod : ((n : Int) * 8).tmod 8 = 0 := Int.mul_tmod_left _ _
  have hturns : (((n : Int) * 8 + 7) / 8).toNat = n := by omega
  rw [acceptKey, if_neg (not_not_intro hmod), hdigits, hturns, readKey_zeros]

private theorem not_readable {src dst : Sockaddr} {type alg : UInt8} {spi pid : UInt32} {keybits : Int}
    {keydata : List UInt8} (hfamily : src.sa_family = dst.sa_family)
    (h : 4096 < keyOff src dst + 8 + toSize (keybits.tdiv 8)) :
    ¬ Readable src dst alg spi keybits keydata (sadb_add src dst type alg spi pid keybits keydata) := fun hreadable ↦
  absurd ((within_writes hfamily).mp hreadable.fits.1) (Nat.not_le.mpr h)

/-- A key of 4009 bytes is accepted and does not fit. -/
theorem sadb_add_overflow : ∃ arg keydata, acceptKey (fun _ ↦ some 0) ((4009 : Nat) * 8) arg = some keydata ∧
    ¬ Readable (.inet 0 #v[10, 0, 0, 1]) (.inet 0 #v[10, 0, 0, 2]) 2 0x9876 ((4009 : Nat) * 8) keydata
      (sadb_add (.inet 0 #v[10, 0, 0, 1]) (.inet 0 #v[10, 0, 0, 2]) 2 2 0x9876 42 ((4009 : Nat) * 8) keydata) :=
  ⟨_, _, acceptKey_zeros 4009, not_readable rfl (by decide)⟩

end Unpv13e.Key
