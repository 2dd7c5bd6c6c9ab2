import Unpv13e.Base.Runs
import Unpv13e.Base.Text

/-!
# ICMP messages and what clients are told of them

Library `Icmpd`. How `readable_v4` and `readable_v6` read the buffer a raw socket filled,
`src/icmpd/readable_v4.c:27–53` and `src/icmpd/readable_v6.c:31–56`, and the record they send,
`src/icmpd/unpicmpd.h:8–14`. Bytes after those received are indeterminate. `err_quit` ends the
program. Ports are numbers as read in network byte order, here and in the clients' table.
-/

namespace Unpv13e.Icmpd
open Unpv13e.Base

/-- `AF_INET` -/
def afInet : Nat := 2

/-- `AF_INET6` -/
def afInet6 : Nat := 10

/-- `MAXLINE` -/
def maxLine : Nat := 4096

/-- The values of `icmpd_errno`. -/
inductive Errno
  | ehostunreach
  | emsgsize
  | econnrefused
  deriving DecidableEq

/-- The socket address in `icmpd_dest`. -/
structure Dest where
  family : Nat
  addr : List UInt8
  port : Nat
  deriving DecidableEq

/-- `struct icmpd_err` -/
structure IcmpdErr where
  icmpd_errno : Errno
  icmpd_type : UInt8
  icmpd_code : UInt8
  icmpd_len : Nat
  icmpd_dest : Dest
  deriving DecidableEq

/-! ### Fields of the buffer -/

/-- One byte. -/
def byteAt (buf : List UInt8) (k : Nat) : Except Stop UInt8 :=
  match buf[k]? with
  | some b => .ok b
  | none => .error .indeterminate

/-- Several bytes. -/
def bytesAt (buf : List UInt8) (k n : Nat) : Except Stop (List UInt8) :=
  if k + n ≤ buf.length then .ok ((buf.drop k).take n) else .error .indeterminate

/-- The number two bytes stand for. -/
def port (hi lo : UInt8) : Nat := 256 * hi.toNat + lo.toNat

/-- A port. -/
def portAt (buf : List UInt8) (k : Nat) : Except Stop Nat :=
  byteAt buf k >>= fun hi ↦ byteAt buf (k + 1) >>= fun lo ↦ .ok (port hi lo)

/-- `ip_hl << 2` of a header that begins with this byte. -/
def headerLen (b : UInt8) : Nat := 4 * (b.toNat % 16)

/-- The type and code of a message that quotes a UDP datagram, and where the quoted IP header and the
UDP header begin. -/
structure Quote where
  type : UInt8
  code : UInt8
  hip : Nat
  udp : Nat

/-- `ICMP_UNREACH`, `ICMP_TIMXCEED` and `ICMP_SOURCEQUENCH` -/
def types4 : List UInt8 := [3, 11, 4]

/-- `ICMP6_DST_UNREACH`, `ICMP6_PACKET_TOO_BIG` and `ICMP6_TIME_EXCEEDED` -/
def types6 : List UInt8 := [1, 2, 3]

/-- `src/icmpd/readable_v4.c:27–53` -/
def parse4 (buf : List UInt8) : Except Stop (Option Quote) :=
  byteAt buf 0 >>= fun ip_hl ↦
    if buf.length < headerLen ip_hl + 8 then .error .blocked
    else
      byteAt buf (headerLen ip_hl) >>= fun type ↦
        byteAt buf (headerLen ip_hl + 1) >>= fun code ↦
          if type ∈ types4 then
            if buf.length < headerLen ip_hl + (8 + 20 + 8) then .error .blocked
            else
              byteAt buf (headerLen ip_hl + 8) >>= fun hip_hl ↦
                byteAt buf (headerLen ip_hl + (8 + 9)) >>= fun ip_p ↦
                  if ip_p = 17 then
                    .ok (some ⟨type, code, headerLen ip_hl + 8,
                      headerLen ip_hl + (8 + headerLen hip_hl)⟩)
                  else .ok none
          else .ok none

/-- `src/icmpd/readable_v6.c:31–56` -/
def parse6 (buf : List UInt8) : Except Stop (Option Quote) :=
  if buf.length < 8 then .error .blocked
  else
    byteAt buf 0 >>= fun type ↦
      byteAt buf 1 >>= fun code ↦
        if type ∈ types6 then
          if buf.length < 8 + 8 then .error .blocked
          else
            byteAt buf (8 + 6) >>= fun ip6_nxt ↦
              if ip6_nxt = 17 then .ok (some ⟨type, code, 8, 8 + 40⟩) else .ok none
        else .ok none

/-- `src/icmpd/readable_v4.c:77–84` -/
def errno4 (type code : UInt8) : Errno :=
  if type = 3 then
    if code = 3 then .econnrefused else if code = 4 then .emsgsize else .ehostunreach
  else .ehostunreach

/-- `src/icmpd/readable_v6.c:80–86` -/
def errno6 (type code : UInt8) : Errno :=
  if type = 2 then .emsgsize else if type = 1 ∧ code = 4 then .econnrefused else .ehostunreach

/-- `src/icmpd/readable_v4.c:63–84` -/
def icmpdErr4 (buf : List UInt8) (q : Quote) : Except Stop IcmpdErr :=
  bytesAt buf (q.hip + 16) 4 >>= fun addr ↦ portAt buf (q.udp + 2) >>= fun dport ↦
    .ok ⟨errno4 q.type q.code, q.type, q.code, 16, ⟨afInet, addr, dport⟩⟩

/-- `src/icmpd/readable_v6.c:66–86` -/
def icmpdErr6 (buf : List UInt8) (q : Quote) : Except Stop IcmpdErr :=
  bytesAt buf (q.hip + 24) 16 >>= fun addr ↦ portAt buf (q.udp + 2) >>= fun dport ↦
    .ok ⟨errno6 q.type q.code, q.type, q.code, 28, ⟨afInet6, addr, dport⟩⟩

/-! ### Well-formed messages -/

/-- An ICMPv4 error that quotes a UDP datagram, as a raw socket gives it. -/
structure Icmp4 where
  ip : List UInt8
  type : UInt8
  code : UInt8
  /-- the rest of the ICMP header -/
  rest : List UInt8
  hip : List UInt8
  sport : UInt8 × UInt8
  dport : UInt8 × UInt8
  /-- what follows the ports in the datagram -/
  tail : List UInt8
  ip_hl : ip.head?.map headerLen = some ip.length
  handled : type ∈ types4
  rest_len : rest.length = 6
  hip_hl : hip.head?.map headerLen = some hip.length
  hip_len : 20 ≤ hip.length
  ip_p : hip[9]? = some 17
  tail_len : 4 ≤ tail.length

/-- An ICMPv6 error that quotes a UDP datagram, as a raw socket gives it. -/
structure Icmp6 where
  type : UInt8
  code : UInt8
  rest : List UInt8
  hip6 : List UInt8
  sport : UInt8 × UInt8
  dport : UInt8 × UInt8
  tail : List UInt8
  handled : type ∈ types6
  rest_len : rest.length = 6
  hip6_len : hip6.length = 40
  ip6_nxt : hip6[6]? = some 17

/-- The two ports and what follows. -/
def udpBytes (sport dport : UInt8 × UInt8) (tail : List UInt8) : List UInt8 :=
  sport.1 :: sport.2 :: dport.1 :: dport.2 :: tail

/-- The message as received. -/
def Icmp4.bytes (m : Icmp4) : List UInt8 :=
  m.ip ++ ((m.type :: m.code :: m.rest) ++ (m.hip ++ udpBytes m.sport m.dport m.tail))

/-- The message as received. -/
def Icmp6.bytes (m : Icmp6) : List UInt8 :=
  (m.type :: m.code :: m.rest) ++ (m.hip6 ++ udpBytes m.sport m.dport m.tail)

/-- What a client is told of it. -/
def Icmp4.err (m : Icmp4) : IcmpdErr :=
  ⟨errno4 m.type m.code, m.type, m.code, 16,
    ⟨afInet, (m.hip.drop 16).take 4, port m.dport.1 m.dport.2⟩⟩

/-- What a client is told of it. -/
def Icmp6.err (m : Icmp6) : IcmpdErr :=
  ⟨errno6 m.type m.code, m.type, m.code, 28,
    ⟨afInet6, (m.hip6.drop 24).take 16, port m.dport.1 m.dport.2⟩⟩

/-! ### Reading them -/

theorem byteAt_append_left {xs : List UInt8} {k : Nat} {b : UInt8} (h : xs[k]? = some b)
    (ys : List UInt8) : byteAt (xs ++ ys) k = .ok b := by
  unfold byteAt
  rw [List.getElem?_append_left (List.getElem?_eq_some_iff.mp h).1, h]

theorem byteAt_append_right {xs : List UInt8} {k : Nat} (h : xs.length = k) (ys : List UInt8) (j : Nat) :
    byteAt (xs ++ ys) (k + j) = byteAt ys j := by
  unfold byteAt
  rw [List.getElem?_append_right (by omega), h, Nat.add_sub_cancel_left]

theorem bytesAt_append_left {xs : List UInt8} {k n : Nat} (h : k + n ≤ xs.length) (ys : List UInt8) :
    bytesAt (xs ++ ys) k n = .ok ((xs.drop k).take n) := by
  unfold bytesAt
  rw [if_pos (by rw [List.length_append]; omega), List.drop_append_of_le_length (by omega),
    List.take_append_of_le_length (by rw [List.length_drop]; omega)]

theorem bytesAt_append_right {xs : List UInt8} {k : Nat} (h : xs.length = k) (ys : List UInt8)
    (j n : Nat) : bytesAt (xs ++ ys) (k + j) n = bytesAt ys j n := by
  unfold bytesAt
  rw [List.length_append, h, ← List.drop_drop, ← h, List.drop_left]
  simp only [Nat.add_assoc, Nat.add_le_add_iff_left]

theorem portAt_append_right {xs : List UInt8} {k : Nat} (h : xs.length = k) (ys : List UInt8) (j : Nat) :
    portAt (xs ++ ys) (k + j) = portAt ys j := by
  unfold portAt
  rw [byteAt_append_right h, Nat.add_assoc, byteAt_append_right h]

theorem portAt_sport (sport dport : UInt8 × UInt8) (tail : List UInt8) :
    portAt (udpBytes sport dport tail) 0 = .ok (port sport.1 sport.2) := rfl

theorem portAt_dport (sport dport : UInt8 × UInt8) (tail : List UInt8) :
    portAt (udpBytes sport dport tail) 2 = .ok (port dport.1 dport.2) := rfl

private theorem byteAt_head {xs : List UInt8} {n : Nat} (h : xs.head?.map headerLen = some n)
    (ys : List UInt8) : ∃ b, byteAt (xs ++ ys) 0 = .ok b ∧ headerLen b = n := by
  obtain ⟨b, hb, hn⟩ := Option.map_eq_some_iff.mp h
  exact ⟨b, byteAt_append_left (by rw [← List.head?_eq_getElem?]; exact hb) ys, hn⟩

namespace Icmp4

variable (m : Icmp4)

private theorem length_header : (m.type :: m.code :: m.rest).length = 8 := by
  rw [List.length_cons, List.length_cons, m.rest_len]

theorem length_bytes : m.bytes.length = m.ip.length + (8 + (m.hip.length + (4 + m.tail.length))) := by
  unfold bytes udpBytes
  simp only [List.length_append, List.length_cons, m.rest_len]
  omega

/-- The quoted datagram is found. -/
theorem parse4_bytes :
    parse4 m.bytes = .ok (some ⟨m.type, m.code, m.ip.length + 8, m.ip.length + (8 + m.hip.length)⟩) := by
  have hlen := m.length_bytes
  have hhip := m.hip_len
  have htail := m.tail_len
  obtain ⟨b, hb, hbl⟩ := byteAt_head m.ip_hl
    ((m.type :: m.code :: m.rest) ++ (m.hip ++ udpBytes m.sport m.dport m.tail))
  obtain ⟨c, hc, hcl⟩ := byteAt_head m.hip_hl (udpBytes m.sport m.dport m.tail)
  have htype : byteAt m.bytes m.ip.length = .ok m.type := byteAt_append_right rfl _ 0
  have hcode : byteAt m.bytes (m.ip.length + 1) = .ok m.code := byteAt_append_right rfl _ 1
  have hhl : byteAt m.bytes (m.ip.length + 8) = .ok c := by
    unfold bytes
    rw [byteAt_append_right rfl]
    exact (byteAt_append_right m.length_header _ 0).trans hc
  have hp : byteAt m.bytes (m.ip.length + (8 + 9)) = .ok 17 := by
    unfold bytes
    rw [byteAt_append_right rfl, byteAt_append_right m.length_header]
    exact byteAt_append_left m.ip_p _
  unfold parse4
  rw [show byteAt m.bytes 0 = .ok b from hb, ok_bind, hbl, if_neg (by omega), htype, ok_bind, hcode,
    ok_bind, if_pos m.handled, if_neg (by omega), hhl, ok_bind, hp, ok_bind, if_pos rfl, hcl]

/-- The source port is the quoted one. -/
theorem portAt_bytes :
    portAt m.bytes (m.ip.length + (8 + m.hip.length)) = .ok (port m.sport.1 m.sport.2) := by
  unfold bytes
  rw [portAt_append_right rfl, portAt_append_right m.length_header]
  exact (portAt_append_right rfl _ 0).trans (portAt_sport _ _ _)

/-- The record that is sent. -/
theorem icmpdErr4_bytes :
    icmpdErr4 m.bytes ⟨m.type, m.code, m.ip.length + 8, m.ip.length + (8 + m.hip.length)⟩ =
      .ok m.err := by
  have haddr : bytesAt m.bytes (m.ip.length + (8 + 16)) 4 = .ok ((m.hip.drop 16).take 4) := by
    unfold bytes
    rw [bytesAt_append_right rfl, bytesAt_append_right m.length_header]
    exact bytesAt_append_left m.hip_len _
  have hport : portAt m.bytes (m.ip.length + (8 + (m.hip.length + 2))) =
      .ok (port m.dport.1 m.dport.2) := by
    unfold bytes
    rw [portAt_append_right rfl, portAt_append_right m.length_header, portAt_append_right rfl,
      portAt_dport]
  unfold icmpdErr4
  dsimp only
  rw [Nat.add_assoc, haddr, ok_bind, Nat.add_assoc, Nat.add_assoc, hport, ok_bind]
  rfl

end Icmp4

namespace Icmp6

variable (m : Icmp6)

private theorem length_header : (m.type :: m.code :: m.rest).length = 8 := by
  rw [List.length_cons, List.length_cons, m.rest_len]

/-- The quoted datagram is found. -/
theorem parse6_bytes : parse6 m.bytes = .ok (some ⟨m.type, m.code, 8, 8 + 40⟩) := by
  have hlen : 16 ≤ m.bytes.length := by
    unfold bytes udpBytes
    simp only [List.length_append, List.length_cons, m.rest_len, m.hip6_len]
    omega
  have hnxt : byteAt m.bytes (8 + 6) = .ok 17 := by
    unfold bytes
    rw [byteAt_append_right m.length_header]
    exact byteAt_append_left m.ip6_nxt _
  unfold parse6
  rw [if_neg (by omega), show byteAt m.bytes 0 = .ok m.type from rfl, ok_bind,
    show byteAt m.bytes 1 = .ok m.code from rfl, ok_bind, if_pos m.handled, if_neg (by omega), hnxt,
    ok_bind, if_pos rfl]

/-- The source port is the quoted one. -/
theorem portAt_bytes : portAt m.bytes (8 + 40) = .ok (port m.sport.1 m.sport.2) := by
  unfold bytes
  rw [portAt_append_right m.length_header]
  exact (portAt_append_right m.hip6_len _ 0).trans (portAt_sport _ _ _)

/-- The record that is sent. -/
theorem icmpdErr6_bytes : icmpdErr6 m.bytes ⟨m.type, m.code, 8, 8 + 40⟩ = .ok m.err := by
  have haddr : bytesAt m.bytes (8 + 24) 16 = .ok ((m.hip6.drop 24).take 16) := by
    unfold bytes
    rw [bytesAt_append_right m.length_header]
    exact bytesAt_append_left (by rw [m.hip6_len]) _
  have hport : portAt m.bytes (8 + (40 + 2)) = .ok (port m.dport.1 m.dport.2) := by
    unfold bytes
    rw [portAt_append_right m.length_header, portAt_append_right m.hip6_len, portAt_dport]
  unfold icmpdErr6
  dsimp only
  rw [haddr, ok_bind, hport, ok_bind]
  rfl

end Icmp6
end Unpv13e.Icmpd
