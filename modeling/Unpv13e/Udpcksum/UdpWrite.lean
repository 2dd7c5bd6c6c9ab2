import Unpv13e.Libfree.InCksum

/-!
# `udp_write`

Library `Udpcksum`. `src/udpcksum/udpwrite.c`: the pseudo-header is laid over the place of the IP header, the
checksum is computed over both, and the IP header is then written over the pseudo-header.
-/

namespace Unpv13e.Udpcksum
open Unpv13e.Base Unpv13e.Libfree

/-- `struct sockaddr_in`, of which the port is a word in network byte order. -/
structure SockaddrIn where
  sin_port : UInt16
  s_addr : Vector UInt8 4
  deriving DecidableEq, Repr

def IPPROTO_UDP : UInt8 := 17
def IPVERSION : UInt8 := 4
/-- `src/udpcksum/udpcksum.h`. -/
def TTL_OUT : UInt8 := 64
/-- `sizeof(struct ip)` and `sizeof(struct ipovly)`. -/
def sizeofIp : Nat := 20
/-- `sizeof(struct udphdr)`. -/
def sizeofUdphdr : Nat := 8
/-- `sizeof(struct udpiphdr)`. -/
def sizeofUdpiphdr : Nat := sizeofIp + sizeofUdphdr

/-- The word whose first byte in memory is the upper one of `x`. -/
def htons (order : ByteOrder) (x : UInt16) : UInt16 := order.word (x >>> 8).toUInt8 x.toUInt8

/-- A word read at an even offset. -/
def loadWord (order : ByteOrder) (buf : List UInt8) (k : Nat) : UInt16 :=
  order.word (buf.getD (2 * k) 0) (buf.getD (2 * k + 1) 0)

/-- Bytes stored at an offset. -/
def store (buf : List UInt8) (off : Nat) (bytes : List UInt8) : List UInt8 :=
  buf.take off ++ bytes ++ buf.drop (off + bytes.length)

/-- Lines 37–48: the overlay of nine zeros, the protocol, the length and the addresses, and the UDP header. -/
def overlay (order : ByteOrder) (localAddr dest : SockaddrIn) (buf : List UInt8) (userlen : Nat) : List UInt8 :=
  let ui := store buf 0 (List.replicate sizeofUdpiphdr 0)
  let ui := storeWord order ui 5 (htons order (UInt16.ofNat (sizeofUdphdr + userlen)))
  let ui := ui.set 9 IPPROTO_UDP
  let ui := store ui 12 localAddr.s_addr.toList
  let ui := store ui 16 dest.s_addr.toList
  let ui := storeWord order ui 10 localAddr.sin_port
  let ui := storeWord order ui 11 dest.sin_port
  storeWord order ui 12 (loadWord order ui 5)

/-- Lines 49–56, after `userlen` has become the length of the packet. -/
def checksum (order : ByteOrder) (zerosum : Int) (ui : List UInt8) (userlen : Nat) : List UInt8 :=
  if zerosum = 0 then
    let ui_sum := in_cksum order (ui.take userlen)
    storeWord order ui 13 (if ui_sum = 0 then 0xffff else ui_sum)
  else ui

/-- Lines 60–70, on Linux. `ip_p` stays, and `ip_sum` is what the overlay has there. -/
def ipHeader (order : ByteOrder) (ip : List UInt8) (userlen : Nat) : List UInt8 :=
  let ip := ip.set 0 ((ip.getD 0 0 &&& (0x0f : UInt8)) ||| (IPVERSION <<< 4))
  let ip := ip.set 0 ((ip.getD 0 0 &&& (0xf0 : UInt8)) ||| UInt8.ofNat (sizeofIp >>> 2))
  let ip := ip.set 1 0
  let ip := storeWord order ip 1 (htons order (UInt16.ofNat userlen))
  let ip := storeWord order ip 2 0
  let ip := storeWord order ip 3 0
  ip.set 8 TTL_OUT

/-- `udp_write(buf, userlen)`, `src/udpcksum/udpwrite.c:27–73`: the packet handed to `Sendto`. -/
def udp_write (order : ByteOrder) (zerosum : Int) (localAddr dest : SockaddrIn) (buf : List UInt8)
    (userlen : Nat) : List UInt8 :=
  let ui := overlay order localAddr dest buf userlen
  let userlen := userlen + sizeofUdpiphdr
  let ui := checksum order zerosum ui userlen
  let ip := ipHeader order ui userlen
  ip.take userlen

/-! ### What a receiver checks -/

/-- The two bytes of a word in network byte order. -/
def netWord (x : UInt16) : List UInt8 := [(x >>> 8).toUInt8, x.toUInt8]

/-- The pseudo-header of a datagram of `ulen` bytes. -/
def pseudoHeader (src dst : Vector UInt8 4) (ulen : UInt16) : List UInt8 :=
  src.toList ++ dst.toList ++ [0, IPPROTO_UDP] ++ netWord ulen

/-- A packet that carries `payload` from one address to the other and that every receiver accepts. -/
structure Accepted (order : ByteOrder) (localAddr dest : SockaddrIn) (payload packet : List UInt8) : Prop where
  source : (packet.drop 12).take 4 = localAddr.s_addr.toList
  destination : (packet.drop 16).take 4 = dest.s_addr.toList
  protocol : packet[9]? = some IPPROTO_UDP
  ports : loadWord order packet 10 = localAddr.sin_port ∧ loadWord order packet 11 = dest.sin_port
  ulen : (packet.drop 24).take 2 = netWord (UInt16.ofNat (8 + payload.length))
  ui_sum : loadWord order packet 13 ≠ 0
  data : packet.drop sizeofUdpiphdr = payload
  /-- Whatever the byte order of the machine that adds them up. -/
  sum : ∀ order', OnesComplement.sum 16 (values order' (pseudoHeader localAddr.s_addr dest.s_addr
    (UInt16.ofNat (8 + payload.length)) ++ packet.drop sizeofIp)) = 0xffff

/-! ### The bytes -/

section Bytes
variable {order : ByteOrder} {localAddr dest : SockaddrIn} {header payload rest : List UInt8}

private theorem toList_four (v : Vector UInt8 4) : v.toList = [v.get 0, v.get 1, v.get 2, v.get 3] := by
  obtain ⟨⟨l⟩, hl⟩ := v
  match l, hl with
  | [a, b, c, d], _ => rfl

/-- The overlay and what follows it, with the bytes of the length, of the UDP length and of the checksum. -/
private def laid (order : ByteOrder) (localAddr dest : SockaddrIn) (len ulen sum : UInt8 × UInt8)
    (tail : List UInt8) : List UInt8 :=
  [0, 0, 0, 0, 0, 0, 0, 0, 0, IPPROTO_UDP, len.1, len.2,
    localAddr.s_addr.get 0, localAddr.s_addr.get 1, localAddr.s_addr.get 2, localAddr.s_addr.get 3,
    dest.s_addr.get 0, dest.s_addr.get 1, dest.s_addr.get 2, dest.s_addr.get 3,
    (order.bytes localAddr.sin_port).1, (order.bytes localAddr.sin_port).2,
    (order.bytes dest.sin_port).1, (order.bytes dest.sin_port).2,
    ulen.1, ulen.2, sum.1, sum.2] ++ tail

/-- The bytes of a word in network byte order. -/
private def net (x : UInt16) : UInt8 × UInt8 := ((x >>> 8).toUInt8, x.toUInt8)

private theorem bytes_htons (order : ByteOrder) (x : UInt16) : order.bytes (htons order x) = net x :=
  bytes_word order _ _

set_option maxRecDepth 2048 in
private theorem overlay_eq (h : header.length = sizeofUdpiphdr) (tail : List UInt8) (userlen : Nat) :
    overlay order localAddr dest (header ++ tail) userlen =
      laid order localAddr dest (net (UInt16.ofNat (8 + userlen))) (net (UInt16.ofNat (8 + userlen)))
        (0, 0) tail := by
  have hzero : store (header ++ tail) 0 (List.replicate sizeofUdpiphdr 0) =
      List.replicate sizeofUdpiphdr 0 ++ tail := by
    unfold store
    rw [List.take_zero, List.nil_append, List.length_replicate, Nat.zero_add, List.drop_left' h]
  have hlaid : storeWord order (laid order localAddr dest (net (UInt16.ofNat (8 + userlen))) (0, 0) (0, 0) tail) 12
        (order.word (net (UInt16.ofNat (8 + userlen))).1 (net (UInt16.ofNat (8 + userlen))).2) =
      laid order localAddr dest (net (UInt16.ofNat (8 + userlen)))
        (order.bytes (htons order (UInt16.ofNat (8 + userlen)))) (0, 0) tail := rfl
  rw [bytes_htons] at hlaid
  rw [← hlaid, ← bytes_htons order]
  unfold overlay
  rw [hzero, toList_four, toList_four]
  rfl

private theorem versionByte :
    ((((0 : UInt8) &&& (0x0f : UInt8)) ||| (IPVERSION <<< 4)) &&& (0xf0 : UInt8)) |||
      UInt8.ofNat (sizeofIp >>> 2) = 0x45 := by
  decide

private theorem ipHeader_eq (len ulen sum : UInt8 × UInt8) (tail : List UInt8) (userlen : Nat) :
    ipHeader order (laid order localAddr dest len ulen sum tail) userlen =
      [0x45, 0, (net (UInt16.ofNat userlen)).1, (net (UInt16.ofNat userlen)).2,
        (order.bytes 0).1, (order.bytes 0).2, (order.bytes 0).1, (order.bytes 0).2, TTL_OUT] ++
      (laid order localAddr dest len ulen sum tail).drop 9 := by
  rw [← bytes_htons order, ← versionByte]
  rfl

/-- The words of the overlay are those of the pseudo-header and the UDP header in another order. -/
private theorem sum_laid (x : UInt16) (ulen : UInt16) (tail : List UInt8) :
    (values order (laid order localAddr dest (net ulen) (net ulen) (order.bytes x) tail)).sum =
      (values order (pseudoHeader localAddr.s_addr dest.s_addr ulen ++
        (laid order localAddr dest (net ulen) (net ulen) (order.bytes x) tail).drop sizeofIp)).sum := by
  have hzero : (order.word 0 0).toNat = 0 := by
    cases order <;> rfl
  unfold pseudoHeader netWord laid values net sizeofIp
  rw [toList_four, toList_four]
  simp only [List.cons_append, List.nil_append, List.drop_succ_cons, List.drop_zero, words, List.map_cons,
    List.sum_cons, hzero]
  omega

private theorem sum_laid_add (x : UInt16) (ulen : UInt16) (tail : List UInt8) :
    (values order (laid order localAddr dest (net ulen) (net ulen) (order.bytes x) tail)).sum =
      (values order (laid order localAddr dest (net ulen) (net ulen) (0, 0) tail)).sum + x.toNat := by
  have hzero : (order.word 0 0).toNat = 0 := by
    cases order <;> rfl
  unfold laid values
  simp only [List.cons_append, List.nil_append, words, List.map_cons, List.sum_cons, hzero, word_bytes]
  omega

/-- The checksum with its replacement completes the sum to the other zero. -/
private theorem reduce_add_checksum {ui : List UInt8} (hlen : ui.length ≤ 131072) :
    OnesComplement.reduce 16 ((values order ui).sum +
      (if in_cksum order ui = 0 then (0xffff : UInt16) else in_cksum order ui).toNat) = OnesComplement.top 16 := by
  have hcksum := @toNat_in_cksum order ui hlen
  have hcompl := OnesComplement.reduce_add_complement (w := 16) (by decide) (values order ui).sum
  split
  · next hzero =>
    have hreduce : OnesComplement.reduce 16 (values order ui).sum = OnesComplement.top 16 := by
      have hle := OnesComplement.reduce_le (w := 16) (by decide) (values order ui).sum
      rw [hzero] at hcksum
      unfold OnesComplement.complement at hcksum
      change 0 = _ at hcksum
      omega
    rw [← OnesComplement.reduce_add_reduce (by decide), hreduce]
    rfl
  · rw [hcksum]
    exact hcompl

private theorem take_laid (len ulen sum : UInt8 × UInt8) :
    (laid order localAddr dest len ulen sum (payload ++ rest)).take (payload.length + sizeofUdpiphdr) =
      laid order localAddr dest len ulen sum payload := by
  have happend : laid order localAddr dest len ulen sum (payload ++ rest) =
      laid order localAddr dest len ulen sum payload ++ rest := rfl
  rw [happend]
  exact List.take_left' rfl

private theorem checksum_laid (len ulen : UInt8 × UInt8) :
    checksum order 0 (laid order localAddr dest len ulen (0, 0) (payload ++ rest))
        (payload.length + sizeofUdpiphdr) =
      laid order localAddr dest len ulen
        (order.bytes (if in_cksum order (laid order localAddr dest len ulen (0, 0) payload) = 0 then 0xffff
          else in_cksum order (laid order localAddr dest len ulen (0, 0) payload))) (payload ++ rest) := by
  simp only [checksum, take_laid, ↓reduceIte]
  rfl

/-- The packet: the IP header over the first nine bytes of the overlay that was summed up. -/
private theorem udp_write_eq (h : header.length = sizeofUdpiphdr) (hlen : 8 + payload.length < 65536) :
    ∃ sum : UInt16, sum ≠ 0 ∧
      OnesComplement.reduce 16 (values order (laid order localAddr dest (net (UInt16.ofNat (8 + payload.length)))
        (net (UInt16.ofNat (8 + payload.length))) (order.bytes sum) payload)).sum = OnesComplement.top 16 ∧
      udp_write order 0 localAddr dest (header ++ payload ++ rest) payload.length =
        [0x45, 0, (net (UInt16.ofNat (payload.length + 28))).1, (net (UInt16.ofNat (payload.length + 28))).2,
          (order.bytes 0).1, (order.bytes 0).2, (order.bytes 0).1, (order.bytes 0).2, TTL_OUT] ++
        (laid order localAddr dest (net (UInt16.ofNat (8 + payload.length)))
          (net (UInt16.ofNat (8 + payload.length))) (order.bytes sum) payload).drop 9 := by
  let len := net (UInt16.ofNat (8 + payload.length))
  let ui := laid order localAddr dest len len (0, 0) payload
  have hui : ui.length ≤ 131072 := by
    have hsize : ui.length = payload.length + 28 := rfl
    omega
  refine ⟨if in_cksum order ui = 0 then 0xffff else in_cksum order ui, ?_, ?_, ?_⟩
  · split
    · decide
    · assumption
  · rw [sum_laid_add]
    exact reduce_add_checksum hui
  · simp only [udp_write]
    rw [List.append_assoc, overlay_eq h, checksum_laid, ipHeader_eq]
    change ([_, _, _, _, _, _, _, _, _] ++ List.drop 9 (laid order localAddr dest len len _ payload) ++ rest).take _ = _
    exact List.take_left' rfl

/-- Every packet written with checksums on is accepted. -/
theorem udp_write_accepted (h : header.length = sizeofUdpiphdr) (hlen : 8 + payload.length < 65536) :
    Accepted order localAddr dest payload
      (udp_write order 0 localAddr dest (header ++ payload ++ rest) payload.length) := by
  obtain ⟨sum, hne, hsum, hpacket⟩ := @udp_write_eq order localAddr dest header payload rest h hlen
  rw [hpacket]
  refine ⟨(toList_four _).symm, (toList_four _).symm, rfl, ⟨word_bytes _ _, word_bytes _ _⟩, rfl, ?_, rfl, ?_⟩
  · exact (word_bytes order sum).trans_ne hne
  · intro order'
    refine (sum_eq_top_congr order' order _).mpr ?_
    rw [OnesComplement.sum_eq_reduce (by decide) values_le]
    rw [sum_laid] at hsum
    exact hsum

end Bytes

/-- A query of five bytes between two hosts. -/
theorem udp_write_query :
    Accepted .little ⟨0x3930, #v[192, 168, 0, 1]⟩ ⟨0x3500, #v[192, 168, 0, 2]⟩ [1, 2, 3, 4, 5]
      (udp_write .little 0 ⟨0x3930, #v[192, 168, 0, 1]⟩ ⟨0x3500, #v[192, 168, 0, 2]⟩
        (List.replicate 28 0xaa ++ [1, 2, 3, 4, 5] ++ [0xbb]) 5) :=
  udp_write_accepted (by decide) (by decide)

end Unpv13e.Udpcksum
