import Unpv13e.Base.Reads

/-!
# `get_ifi_info`

Library `Lib`. `src/lib/get_ifi_info.c` on x86_64 Linux, without `sa_len` and `sockaddr_dl`: the kernel fills a
buffer with records of 40 bytes, and the loop over it advances by the name and a socket address.
-/

namespace Unpv13e.Lib
open Unpv13e.Base

def AF_INET : UInt16 := 2
def AF_INET6 : UInt16 := 10
def IFF_UP : UInt16 := 0x1
def IFF_BROADCAST : UInt16 := 0x2
def IFF_POINTOPOINT : UInt16 := 0x10
def IFNAMSIZ : Nat := 16
def IFI_NAME : Nat := 16
def IFI_ALIAS : UInt16 := 1
/-- `sizeof(struct ifreq)`, `sizeof(struct sockaddr)` and `sizeof(struct sockaddr_in6)`. -/
def sizeofIfreq : Nat := 40
def sizeofSockaddr : Nat := 16
def sizeofSockaddrIn6 : Nat := 28

/-- One address of an interface as the kernel has it: the name, the members of its `struct sockaddr_in`, and what
else there is in the union. -/
structure Record where
  name : List UInt8
  sin_port : UInt16
  sin_addr : Vector UInt8 4
  sin_zero : Vector UInt8 8
  union : Vector UInt8 8
  length_name : name.length < IFNAMSIZ
  zero_notMem_name : 0 ∉ name

/-- The socket address of a record. -/
def Record.sockaddr (r : Record) : List UInt8 :=
  toBytes 2 AF_INET.toNat ++ (toBytes 2 r.sin_port.toNat ++ (r.sin_addr.toList ++ r.sin_zero.toList))

/-- The bytes of its `struct ifreq`. -/
def Record.bytes (r : Record) : List UInt8 :=
  (r.name ++ List.replicate (IFNAMSIZ - r.name.length) 0) ++ (r.sockaddr ++ r.union.toList)

/-- What `ioctl` answers: the records, and what it knows of an interface by its name, unless there is none of that
name. -/
structure Kernel where
  records : List Record
  /-- `SIOCGIFFLAGS` -/
  flags : List UInt8 → Option UInt16
  /-- `SIOCGIFMTU` -/
  mtu : List UInt8 → Option UInt16
  /-- `SIOCGIFBRDADDR` -/
  brdaddr : List UInt8 → Option (List UInt8)
  /-- `SIOCGIFDSTADDR` -/
  dstaddr : List UInt8 → Option (List UInt8)

/-- `struct ifi_info`, its `ifi_next` apart. -/
structure IfiInfo where
  ifi_name : List UInt8
  ifi_index : UInt16
  ifi_mtu : UInt16
  ifi_hlen : UInt16
  ifi_flags : UInt16
  ifi_myflags : UInt16
  ifi_addr : List UInt8
  ifi_brdaddr : Option (List UInt8)
  ifi_dstaddr : Option (List UInt8)

/-- Why there is no list. -/
inductive Halt
  /-- `err_sys` -/
  | quit
  /-- `strchr` beyond the end of the buffer. -/
  | undefined

/-! ### The buffer -/

/-- `ifc_len` after `SIOCGIFCONF` with a buffer of `len` bytes: as many records as there is room for. -/
def Kernel.ifc_len (k : Kernel) (len : Nat) : Nat := sizeofIfreq * min k.records.length (len / sizeofIfreq)

/-- The loop of lines 19–33, from a `len` and a `lastlen` on: the length of the buffer and of the records in it. -/
def sizeBuffer (k : Kernel) : Nat → Nat → Nat → Option (Nat × Nat)
  | 0, _, _ => none
  | fuel + 1, len, lastlen =>
    if k.ifc_len len = lastlen then some (len, k.ifc_len len)
    else sizeBuffer k fuel (len + 10 * sizeofIfreq) (k.ifc_len len)

/-- The buffer: the records, over what the memory was before. -/
def Kernel.buffer (k : Kernel) (fresh : Nat → UInt8) (ifc_len : Nat) : Nat → UInt8 :=
  overwrite fresh 0 ((k.records.take (ifc_len / sizeofIfreq)).flatMap Record.bytes)

/-! ### The loop over the records -/

/-- A string in an array of bytes. -/
def cstr (s : List UInt8) : List UInt8 := s.takeWhile (· ≠ 0)

/-- `ifr->ifr_addr.sa_family` -/
def saFamily (mem : Nat → UInt8) (ptr : Nat) : UInt16 := (load16 mem (ptr + IFNAMSIZ)).val

/-- What `ptr` is advanced by, lines 47–59. -/
def advance (mem : Nat → UInt8) (ptr : Nat) : Nat :=
  IFNAMSIZ + if saFamily mem ptr = AF_INET6 then sizeofSockaddrIn6 else sizeofSockaddr

/-- An answer of `Ioctl`, which ends the program without one. -/
def ioctl {α : Type} (answer : Option α) : Except Halt α := answer.elim (.error .quit) .ok

/-- Lines 93–160: the entry for a record of an interface that is up. -/
def ifiInfo (k : Kernel) (mem : Nat → UInt8) (ptr : Nat) (flags myflags : UInt16) : Except Halt IfiInfo := do
  let name := bytesAt mem ptr IFNAMSIZ
  let mtu ← ioctl (k.mtu (cstr name))
  let brdaddr ← if saFamily mem ptr = AF_INET ∧ flags &&& IFF_BROADCAST ≠ 0 then
      (ioctl (k.brdaddr (cstr name))).map some
    else pure none
  let dstaddr ← if flags &&& IFF_POINTOPOINT ≠ 0 then (ioctl (k.dstaddr (cstr name))).map some else pure none
  let addrlen := if saFamily mem ptr = AF_INET6 then sizeofSockaddrIn6 else sizeofSockaddr
  return ⟨name.take (IFI_NAME - 1) ++ [0], 0, mtu, 0, flags, myflags, bytesAt mem (ptr + IFNAMSIZ) addrlen, brdaddr,
    dstaddr⟩

/-- What a turn of the loop leaves. -/
structure Turn where
  mem : Nat → UInt8
  lastname : List UInt8
  info : Option IfiInfo

/-- The body of the loop, lines 72–160, of a buffer of `size` bytes. -/
def turn (k : Kernel) (size : Nat) (family : UInt16) (doaliases : Int) (ptr : Nat) (mem : Nat → UInt8)
    (lastname : List UInt8) : Except Halt Turn := do
  if saFamily mem ptr ≠ family then return ⟨mem, lastname, none⟩
  let s := stringAt 0 mem (size - ptr) ptr
  if ptr + s.length ≥ size then .error .undefined
  let mem := match s.idxOf? 58 with
    | some cptr => overwrite mem (ptr + cptr) [0]
    | none => mem
  let ifr_name := bytesAt mem ptr IFNAMSIZ
  let same := cstr lastname = cstr ifr_name
  if same ∧ doaliases = 0 then return ⟨mem, lastname, none⟩
  let flags ← ioctl (k.flags (cstr ifr_name))
  if flags &&& IFF_UP = 0 then return ⟨mem, ifr_name, none⟩
  let info ← ifiInfo k mem ptr flags (if same then IFI_ALIAS else 0)
  return ⟨mem, ifr_name, some info⟩

/-- The offsets that were taken for records, and the list. -/
structure Walk where
  visited : List Nat
  result : Except Halt (List IfiInfo)

/-- The loop of lines 41–161. -/
def walk (k : Kernel) (size : Nat) (family : UInt16) (doaliases : Int) (ifc_len ptr : Nat) (mem : Nat → UInt8)
    (lastname : List UInt8) : Walk :=
  if ptr < ifc_len then
    match turn k size family doaliases ptr mem lastname with
    | .error halt => ⟨[ptr], .error halt⟩
    | .ok t =>
      let w := walk k size family doaliases ifc_len (ptr + advance mem ptr) t.mem t.lastname
      ⟨ptr :: w.visited, w.result.map (t.info.toList ++ ·)⟩
  else ⟨[], .ok []⟩
termination_by ifc_len - ptr
decreasing_by
  unfold advance IFNAMSIZ
  omega

/-- `get_ifi_info(family, doaliases)`, `src/lib/get_ifi_info.c:4–164`, with what the memory of the buffer was
before; none if the buffer is not large enough after `fuel` turns. -/
def get_ifi_info (k : Kernel) (fresh : Nat → UInt8) (fuel : Nat) (family : UInt16) (doaliases : Int) : Option Walk :=
  (sizeBuffer k fuel (100 * sizeofIfreq) 0).map fun (size, ifc_len) ↦
    walk k size family doaliases ifc_len 0 (k.buffer fresh ifc_len) (List.replicate IFNAMSIZ 0)

/-! ### What is to be returned -/

/-- The name of a record's interface, without that of the alias. -/
def Record.ifname (r : Record) : List UInt8 := r.name.takeWhile (· ≠ 58)

/-- The records of interfaces that are up. -/
def Kernel.up (k : Kernel) : List Record :=
  k.records.filter fun r ↦ (k.flags r.ifname).any (· &&& IFF_UP ≠ 0)

/-- The records are walked over, no other bytes are, and each one of an interface that is up is returned with its
name and address. -/
structure ReturnsAll (k : Kernel) (w : Walk) : Prop where
  visited : w.visited = (List.range k.records.length).map (sizeofIfreq * ·)
  result : ∃ infos, w.result = .ok infos ∧
    infos.map (fun i ↦ (cstr i.ifi_name, i.ifi_addr)) = k.up.map fun r ↦ (r.ifname, r.sockaddr)

section Layout
variable {k : Kernel} {fresh mem : Nat → UInt8} {size ifc_len ptr len fuel : Nat} {family : UInt16} {doaliases : Int}
  {lastname : List UInt8}

/-- A buffer that ten more records leave as full as it was has all of them. -/
private theorem ifc_len_all (h : k.ifc_len (len + 10 * sizeofIfreq) = k.ifc_len len) :
    k.ifc_len (len + 10 * sizeofIfreq) = sizeofIfreq * k.records.length := by
  unfold Kernel.ifc_len sizeofIfreq at h ⊢
  have hdiv : (len + 10 * 40) / 40 = len / 40 + 10 := Nat.add_mul_div_right len 10 (by decide)
  rw [hdiv] at h ⊢
  omega

private theorem sizeBuffer_grown
    (h : sizeBuffer k fuel (len + 10 * sizeofIfreq) (k.ifc_len len) = some (size, ifc_len)) :
    ifc_len = sizeofIfreq * k.records.length := by
  induction fuel generalizing len with
  | zero => cases h
  | succ fuel ih =>
    unfold sizeBuffer at h
    split at h
    · next heq =>
      cases h
      exact ifc_len_all heq
    · exact ih h

/-- The buffer that is taken has all the records. -/
theorem sizeBuffer_all (h : sizeBuffer k fuel (100 * sizeofIfreq) 0 = some (size, ifc_len)) :
    ifc_len = sizeofIfreq * k.records.length := by
  cases fuel with
  | zero => cases h
  | succ fuel =>
    unfold sizeBuffer at h
    split at h
    · next heq =>
      cases h
      unfold Kernel.ifc_len sizeofIfreq at heq ⊢
      omega
    · exact sizeBuffer_grown h

private theorem length_front (r : Record) : (r.name ++ List.replicate (IFNAMSIZ - r.name.length) 0).length = 16 := by
  have hname := r.length_name
  unfold IFNAMSIZ at hname ⊢
  rw [List.length_append, List.length_replicate]
  omega

/-- The first record is one of `AF_INET`. -/
private theorem saFamily_first {r : Record} {rs : List Record} (hrecords : k.records = r :: rs) :
    saFamily (k.buffer fresh (sizeofIfreq * k.records.length)) 0 = AF_INET := by
  have hdiv : sizeofIfreq * k.records.length / sizeofIfreq = k.records.length :=
    Nat.mul_div_cancel_left _ (by decide)
  have hbuffer : k.buffer fresh (sizeofIfreq * k.records.length) =
      overwrite fresh 0 (r.bytes ++ rs.flatMap Record.bytes) := by
    unfold Kernel.buffer
    rw [hdiv, List.take_length, hrecords, List.flatMap_cons]
  have hheld := hasBytes_overwrite fresh 0 (r.bytes ++ rs.flatMap Record.bytes)
  rw [← hbuffer] at hheld
  have hfront := length_front r
  refine hheld.load16 (k := 16) ?_ ?_
  · unfold Record.bytes Record.sockaddr
    simp only [List.length_append, length_toBytes] at hfront ⊢
    omega
  · unfold Record.bytes
    rw [List.append_assoc, List.drop_left' hfront]
    rfl

private theorem head_visited (h : ptr < ifc_len) :
    ∃ rest, (walk k size family doaliases ifc_len ptr mem lastname).visited = ptr :: rest := by
  unfold walk
  rw [if_pos h]
  split
  · exact ⟨_, rfl⟩
  · exact ⟨_, rfl⟩

/-- A walk that ends goes on 32 bytes behind a record that is not one of `AF_INET6`. -/
private theorem walk_misaligned (hfamily : saFamily mem 0 = AF_INET) (hlen : sizeofIfreq ≤ ifc_len)
    {infos : List IfiInfo} (hok : (walk k size family doaliases ifc_len 0 mem lastname).result = .ok infos) :
    ∃ rest, (walk k size family doaliases ifc_len 0 mem lastname).visited = 0 :: 32 :: rest := by
  have hadvance : 0 + advance mem 0 = 32 := by
    unfold advance
    rw [hfamily]
    rfl
  have hpos : 0 < ifc_len := Nat.lt_of_lt_of_le (by decide : 0 < 40) hlen
  have hnext : 32 < ifc_len := Nat.lt_of_lt_of_le (by decide : 32 < 40) hlen
  unfold walk at hok ⊢
  rw [if_pos hpos] at hok ⊢
  split
  · next halt hturn =>
    rw [hturn] at hok
    cases hok
  · next t hturn =>
    rw [hadvance]
    obtain ⟨rest, hrest⟩ := @head_visited k t.mem size ifc_len 32 family doaliases t.lastname hnext
    exact ⟨rest, congrArg (0 :: ·) hrest⟩

private theorem not_returnsAll {r : Record} {rs : List Record} (hrecords : k.records = r :: rs) :
    ¬ ∃ fuel w, get_ifi_info k fresh fuel AF_INET 1 = some w ∧ ReturnsAll k w := by
  rintro ⟨fuel, w, hget, hall⟩
  obtain ⟨⟨size, ifc_len⟩, hsize, rfl⟩ := Option.map_eq_some_iff.mp hget
  obtain ⟨infos, hok, -⟩ := hall.result
  have hvisited := hall.visited
  have hlen := sizeBuffer_all hsize
  have hone : sizeofIfreq ≤ ifc_len := by
    rw [hlen, hrecords, List.length_cons]
    exact Nat.le_mul_of_pos_right _ (Nat.succ_pos _)
  subst hlen
  obtain ⟨rest, hwalk⟩ := walk_misaligned (saFamily_first hrecords) hone hok
  rw [hwalk, hrecords, List.length_cons] at hvisited
  cases rs with
  | nil => cases hvisited
  | cons r' rs =>
    have hsecond := congrArg (·[1]?) hvisited
    simp [sizeofIfreq] at hsecond

/-- The records are walked over exactly if there are none. -/
theorem get_ifi_info_returnsAll_iff (k : Kernel) (fresh : Nat → UInt8) :
    (∃ fuel w, get_ifi_info k fresh fuel AF_INET 1 = some w ∧ ReturnsAll k w) ↔ k.records = [] := by
  constructor
  · intro hall
    cases hrecords : k.records with
    | nil => rfl
    | cons r rs => exact absurd hall (not_returnsAll hrecords)
  · intro hnone
    have hzero : k.ifc_len (100 * sizeofIfreq) = 0 := by
      unfold Kernel.ifc_len
      rw [hnone]
      rfl
    have hget : get_ifi_info k fresh 1 AF_INET 1 = some ⟨[], .ok []⟩ := by
      rw [get_ifi_info, sizeBuffer, if_pos hzero, hzero]
      change some (walk k (100 * sizeofIfreq) AF_INET 1 0 0 (k.buffer fresh 0) (List.replicate IFNAMSIZ 0)) = _
      rw [walk, if_neg (Nat.lt_irrefl 0)]
    refine ⟨1, _, hget, ?_, [], rfl, ?_⟩
    · rw [hnone]
      rfl
    · rw [Kernel.up, hnone]
      rfl

end Layout

/-- The loopback interface alone. -/
def loopback : Kernel where
  records := [⟨[108, 111], 0, #v[127, 0, 0, 1], #v[0, 0, 0, 0, 0, 0, 0, 0], #v[0, 0, 0, 0, 0, 0, 0, 0], by decide,
    by decide⟩]
  flags name := if name = [108, 111] then some 0x49 else none
  mtu name := if name = [108, 111] then some 16436 else none
  brdaddr _ := none
  dstaddr _ := none

/-- Even one record is followed by a visit to the bytes behind its socket address. -/
theorem get_ifi_info_loopback :
    ¬ ∃ fuel w, get_ifi_info loopback (fun _ ↦ 0) fuel AF_INET 1 = some w ∧ ReturnsAll loopback w :=
  not_returnsAll rfl

end Unpv13e.Lib
