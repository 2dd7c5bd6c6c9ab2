import Unpv13e.Base.Fields
import Unpv13e.Udpcksum.UdpWrite

/-!
# `udp_read`

Library `Udpcksum`. `src/udpcksum/udpread.c` and `next_pcap` of `src/udpcksum/pcap.c`: the header of the link is
skipped, the header of the packet is checked, and the packet is returned as an overlay with a UDP header at a
fixed place. The memory from the start of the capture on may be read beyond the bytes captured.
-/

namespace Unpv13e.Udpcksum
open Unpv13e.Base Unpv13e.Libfree

/-- What `pcap_next` delivers: the memory from the packet on, and `caplen` of its header. -/
structure Frame where
  bytes : Nat → UInt8
  caplen : UInt32

/-- The calls of `err_quit`, each with what it prints. -/
inductive Quit
  /-- `Ethernet type %x not IP` -/
  | etherType (type : UInt16)
  /-- `unsupported datalink (%d)` -/
  | datalink (datalink : Int)
  /-- `len = %d` -/
  | len (len : Int)
  /-- `ip_v = %d` -/
  | ip_v (ip_v : UInt8)
  /-- `ip_hl = %d` -/
  | ip_hl (ip_hl : UInt8)
  /-- `len = %d, hlen = %d` -/
  | hlen (len : Int) (hlen : Nat)
  /-- `ip checksum error` -/
  | checksum
  /-- `not a UDP packet` -/
  | notUdp
  deriving DecidableEq, Repr

/-- Why nothing is returned. -/
inductive Stop
  /-- `pcap_next` has nothing yet. -/
  | blocked
  | quit (quit : Quit)
  /-- The difference of two `int`s is none. -/
  | overflow
  deriving DecidableEq, Repr

/-- `src/udpcksum/pcap.c:134–147`, of the answers of `pcap_next`. -/
def next_pcap : List (Option Frame) → Except Stop (Frame × List (Option Frame))
  | [] => .error .blocked
  | none :: answers => next_pcap answers
  | some frame :: answers => .ok (frame, answers)

/-- The value of an `int` assigned from an unsigned one. -/
def toInt (x : UInt32) : Int := x.toBitVec.toInt

/-- An `int` compared with a `size_t`. -/
def toSize (x : Int) : Nat := (x % 2 ^ 64).toNat

/-- The bytes from an address on. -/
def bytesFrom (mem : Nat → UInt8) (ptr n : Nat) : List UInt8 := (List.range n).map fun i ↦ mem (ptr + i)

/-- A word stored at an address. -/
def storeAt (order : ByteOrder) (mem : Nat → UInt8) (ptr : Nat) (x : UInt16) : Nat → UInt8 :=
  fun a ↦ if a = ptr then (order.bytes x).1 else if a = ptr + 1 then (order.bytes x).2 else mem a

/-- A `struct udpiphdr *`: the memory as it is then, and the address of the overlay. -/
structure Udpiphdr where
  mem : Nat → UInt8
  addr : Nat

/-- `ip_v` and `ip_hl` of the packet at an address. -/
def ip_v (mem : Nat → UInt8) (ptr : Nat) : UInt8 := mem ptr >>> 4
def ip_hl (mem : Nat → UInt8) (ptr : Nat) : UInt8 := mem ptr &&& 0x0f

/-- `udp_check(ptr, len)`, `src/udpcksum/udpread.c:52–84`. -/
def udp_check (order : ByteOrder) (mem : Nat → UInt8) (ptr : Nat) (len : Int) : Except Stop Udpiphdr :=
  if toSize len < sizeofIp + sizeofUdphdr then .error (.quit (.len len))
  else if ip_v mem ptr ≠ IPVERSION then .error (.quit (.ip_v (ip_v mem ptr)))
  else
    let hlen := (ip_hl mem ptr).toNat <<< 2
    if hlen < sizeofIp then .error (.quit (.ip_hl (ip_hl mem ptr)))
    else if toSize len < hlen + sizeofUdphdr then .error (.quit (.hlen len hlen))
    else
      let ip_sum := in_cksum order (bytesFrom mem ptr hlen)
      let mem := storeAt order mem (ptr + 10) ip_sum
      if ip_sum ≠ 0 then .error (.quit .checksum)
      else if mem (ptr + 9) = IPPROTO_UDP then .ok ⟨mem, ptr⟩
      else .error (.quit .notUdp)

/-- The call of `udp_check` behind a link header of `link` bytes. -/
def skipLink (order : ByteOrder) (frame : Frame) (link : Nat) : Except Stop Udpiphdr :=
  if toInt frame.caplen - link < -2 ^ 31 then .error .overflow
  else udp_check order frame.bytes link (toInt frame.caplen - link)

/-- `<net/bpf.h>`. -/
def DLT_NULL : Int := 0
def DLT_EN10MB : Int := 1
def DLT_SLIP : Int := 8
def DLT_PPP : Int := 9
def ETHERTYPE_IP : UInt16 := 0x0800

/-- `eptr->ether_type` in the byte order of the machine. -/
def ether_type (frame : Frame) : UInt16 := ByteOrder.big.word (frame.bytes 12) (frame.bytes 13)

/-- `udp_read()`, `src/udpcksum/udpread.c:11–41`. No turn of its loop is followed by another. -/
def udp_read (order : ByteOrder) (datalink : Int) (answers : List (Option Frame)) : Except Stop Udpiphdr := do
  let (frame, _) ← next_pcap answers
  if datalink = DLT_NULL then skipLink order frame 4
  else if datalink = DLT_EN10MB then
    if ether_type frame ≠ ETHERTYPE_IP then .error (.quit (.etherType (ether_type frame)))
    else skipLink order frame 14
  else if datalink = DLT_SLIP then skipLink order frame 24
  else if datalink = DLT_PPP then skipLink order frame 24
  else .error (.quit (.datalink datalink))

/-! ### The fields of the overlay -/

/-- Where `ui_sport`, `ui_dport`, `ui_ulen` and `ui_sum` are. -/
def Udpiphdr.fields (ui : Udpiphdr) : List Field :=
  [⟨ui.addr + 20, 2⟩, ⟨ui.addr + 22, 2⟩, ⟨ui.addr + 24, 2⟩, ⟨ui.addr + 26, 2⟩]

/-- The fields of a UDP header at an address. -/
def udphdrAt (addr : Nat) : List Field := [⟨addr, 2⟩, ⟨addr + 2, 2⟩, ⟨addr + 4, 2⟩, ⟨addr + 6, 2⟩]

/-- The length of the link header of each supported type. -/
def linkLength (datalink : Int) : Nat :=
  if datalink = DLT_NULL then 4 else if datalink = DLT_EN10MB then 14 else 24

/-- What is to be returned of a frame: the packet behind the link header, whose headers are captured, with
the UDP fields that follow the IP header. -/
structure UdpHeaderOf (datalink : Int) (frame : Frame) (ui : Udpiphdr) : Prop where
  ip : ui.addr = linkLength datalink
  captured : Within [⟨ui.addr, 4 * (ip_hl frame.bytes ui.addr).toNat⟩,
    ⟨ui.addr + 4 * (ip_hl frame.bytes ui.addr).toNat, sizeofUdphdr⟩] frame.caplen.toNat
  fields : ui.fields = udphdrAt (ui.addr + 4 * (ip_hl frame.bytes ui.addr).toNat)
  values : ∀ f ∈ ui.fields, bytesFrom ui.mem f.off f.len = bytesFrom frame.bytes f.off f.len

/-! ### What the checks leave -/

section Checks
variable {order : ByteOrder} {mem : Nat → UInt8} {ptr : Nat} {len datalink : Int} {frame : Frame}
  {answers rest : List (Option Frame)} {ui : Udpiphdr}

private theorem shiftLeft_two (n : Nat) : n <<< 2 = 4 * n := by
  rw [Nat.shiftLeft_eq]
  omega

/-- A packet that is returned has passed both comparisons, and only its checksum was stored into. -/
private theorem udp_check_ok (h : udp_check order mem ptr len = .ok ui) :
    ui.addr = ptr ∧ 20 ≤ 4 * (ip_hl mem ptr).toNat ∧ 4 * (ip_hl mem ptr).toNat + 8 ≤ toSize len ∧
      ∃ sum, ui.mem = storeAt order mem (ptr + 10) sum := by
  unfold udp_check at h
  simp only [shiftLeft_two] at h
  split at h
  · cases h
  split at h
  · cases h
  split at h
  · cases h
  next hip =>
  split at h
  · cases h
  next hlen =>
  split at h
  · cases h
  split at h
  · cases h
    exact ⟨rfl, Nat.le_of_not_lt hip, Nat.le_of_not_lt hlen, _, rfl⟩
  · cases h

private theorem skipLink_ok {link : Nat} (h : skipLink order frame link = .ok ui) :
    -2 ^ 31 ≤ toInt frame.caplen - link ∧ udp_check order frame.bytes link (toInt frame.caplen - link) = .ok ui := by
  unfold skipLink at h
  split at h
  · cases h
  · next hlink => exact ⟨Int.not_lt.mp hlink, h⟩

private theorem udp_read_ok (hnext : next_pcap answers = .ok (frame, rest))
    (h : udp_read order datalink answers = .ok ui) : skipLink order frame (linkLength datalink) = .ok ui := by
  unfold udp_read at h
  rw [hnext] at h
  simp only [bind, Except.bind] at h
  unfold linkLength
  split at h
  · next hnull => rwa [if_pos hnull]
  next hnull =>
  rw [if_neg hnull]
  split at h
  · next heth =>
    rw [if_pos heth]
    split at h
    · cases h
    · exact h
  next heth =>
  rw [if_neg heth]
  split at h
  · exact h
  split at h
  · exact h
  · cases h

private theorem linkLength_le (datalink : Int) : linkLength datalink ≤ 24 := by
  unfold linkLength
  split
  · decide
  · split <;> decide

private theorem ip_hl_le (mem : Nat → UInt8) (ptr : Nat) : (ip_hl mem ptr).toNat ≤ 15 := by
  unfold ip_hl
  rw [UInt8.toNat_and]
  exact Nat.and_le_right

/-- A capture is an `int` as long as it is below 2 ^ 31. -/
private theorem toInt_cases (x : UInt32) :
    x.toNat < 2 ^ 31 ∧ toInt x = x.toNat ∨ 2 ^ 31 ≤ x.toNat ∧ toInt x = x.toNat - 2 ^ 32 := by
  unfold toInt
  rw [BitVec.toInt_eq_toNat_cond]
  change (x.toNat < 2 ^ 31 ∧ (if 2 * x.toNat < 2 ^ 32 then (x.toNat : Int) else x.toNat - (2 ^ 32 : Nat)) = _) ∨
    (2 ^ 31 ≤ x.toNat ∧ (if 2 * x.toNat < 2 ^ 32 then (x.toNat : Int) else x.toNat - (2 ^ 32 : Nat)) = _)
  split <;> omega

/-- The comparisons bound the headers by what is captured if the link header is. -/
private theorem headers_captured {x : UInt32} {link n : Nat} (hlink : link ≤ x.toNat) (hle : link ≤ 24) (hn : n ≤ 68)
    (hsize : n ≤ toSize (toInt x - link)) : link + n ≤ x.toNat := by
  unfold toSize at hsize
  obtain ⟨hlt, hint⟩ | ⟨hge, -⟩ := toInt_cases x
  · rw [hint] at hsize
    omega
  · omega

/-- The UDP fields of an overlay lie behind the field that was stored into. -/
private theorem values_kept (sum : UInt16) {f : Field}
    (hf : f ∈ Udpiphdr.fields ⟨storeAt order mem (ptr + 10) sum, ptr⟩) :
    bytesFrom (storeAt order mem (ptr + 10) sum) f.off f.len = bytesFrom mem f.off f.len := by
  have hoff : ptr + 20 ≤ f.off := by
    simp only [Udpiphdr.fields, List.mem_cons, List.not_mem_nil, or_false] at hf
    obtain rfl | rfl | rfl | rfl := hf <;> dsimp only <;> omega
  apply List.map_congr_left
  intro i _
  unfold storeAt
  rw [if_neg (by omega), if_neg (by omega)]

/-- A packet is returned with its UDP header exactly if the capture reaches beyond the link header and the IP
header has no options. -/
theorem udp_read_header_iff (hnext : next_pcap answers = .ok (frame, rest))
    (h : udp_read order datalink answers = .ok ui) :
    UdpHeaderOf datalink frame ui ↔
      linkLength datalink ≤ frame.caplen.toNat ∧ ip_hl frame.bytes (linkLength datalink) = 5 := by
  obtain ⟨-, hcheck⟩ := skipLink_ok (udp_read_ok hnext h)
  obtain ⟨haddr, -, hsize, sum, hmem⟩ := udp_check_ok hcheck
  have hhl := ip_hl_le frame.bytes (linkLength datalink)
  constructor
  · intro hheader
    have hip := (within_cons.mp hheader.captured).1
    have hfields := hheader.fields
    rw [haddr] at hip hfields
    have hfirst := congrArg (fun fields ↦ (fields.headD ⟨0, 0⟩).off) hfields
    change ui.addr + 20 = linkLength datalink + 4 * (ip_hl frame.bytes (linkLength datalink)).toNat at hfirst
    refine ⟨by omega, ?_⟩
    apply UInt8.toNat_inj.mp
    change _ = 5
    omega
  · rintro ⟨hlink, hfive⟩
    have hwords : (ip_hl frame.bytes ui.addr).toNat = 5 := by
      rw [haddr, hfive]
      rfl
    have hcaptured := headers_captured hlink (linkLength_le datalink) (by omega) hsize
    rw [hfive] at hcaptured
    change _ + 28 ≤ _ at hcaptured
    refine ⟨haddr, ?_, ?_, ?_⟩
    · rw [hwords, within_cons, within_cons, haddr]
      exact ⟨by omega, hcaptured, within_nil⟩
    · rw [hwords]
      rfl
    · obtain ⟨mem, addr⟩ := ui
      cases hmem
      cases haddr
      exact fun f hf ↦ values_kept sum hf

end Checks

/-- A reply from port 53, captured on the loopback interface. -/
def replyFrame : Frame where
  bytes i := [2, 0, 0, 0, 0x45, 0, 0, 0x1c, 0, 0, 0, 0, 0x40, 0x11, 0xf9, 0x7d, 192, 168, 0, 1, 192, 168, 0, 2,
    0, 53, 0x1f, 0x90, 0, 8, 0x12, 0x34].getD i 0
  caplen := 32

theorem udp_read_header_reply : ∃ ui, udp_read .little DLT_NULL [none, some replyFrame] = .ok ui ∧
    (UdpHeaderOf DLT_NULL replyFrame ui ↔
      linkLength DLT_NULL ≤ replyFrame.caplen.toNat ∧ ip_hl replyFrame.bytes (linkLength DLT_NULL) = 5) := by
  have hread : udp_read .little DLT_NULL [none, some replyFrame] =
      .ok ⟨storeAt .little replyFrame.bytes 14 0, 4⟩ := rfl
  exact ⟨_, hread, udp_read_header_iff rfl hread⟩

/-- The same reply with an option of four bytes in its IP header. -/
def optionFrame : Frame where
  bytes i := [2, 0, 0, 0, 0x46, 0, 0, 0x20, 0, 0, 0, 0, 0x40, 0x11, 0xf6, 0x77, 192, 168, 0, 1, 192, 168, 0, 2,
    1, 1, 1, 1, 0, 53, 0x1f, 0x90, 0, 8, 0x12, 0x34].getD i 0
  caplen := 36

/-- The overlay finds the option where the port should be. -/
theorem udp_read_option : ∃ ui, udp_read .little DLT_NULL [some optionFrame] = .ok ui ∧
    ¬ UdpHeaderOf DLT_NULL optionFrame ui ∧
    bytesFrom ui.mem (ui.addr + 20) 2 = [1, 1] ∧ bytesFrom optionFrame.bytes (ui.addr + 24) 2 = [0, 53] :=
  ⟨⟨storeAt .little optionFrame.bytes 14 0, 4⟩, rfl, fun hheader ↦ absurd hheader.fields (by decide), rfl, rfl⟩

end Unpv13e.Udpcksum
