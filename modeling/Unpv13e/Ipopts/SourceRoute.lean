import Unpv13e.Base.Area
import Unpv13e.Base.Runs
import Unpv13e.Libgai.InetNtop

/-!
# Source routes

Library `Ipopts`. `src/ipopts/sourceroute.c:6–82`: the option with a source route, built address by address and
printed with the first hop that the kernel puts before it. `Malloc` returns; what `Host_serv` answers is a parameter.
-/

namespace Unpv13e.Ipopts
open Unpv13e.Base
open Libgai (InAddr dottedQuad inetNtop4 inetAddrstrlen)

/-- `IPOPT_NOP` -/
def ipoptNop : UInt8 := 1

/-- `IPOPT_LSRR` -/
def ipoptLsrr : UInt8 := 131

/-- `IPOPT_SSRR` -/
def ipoptSsrr : UInt8 := 137

/-- `NOP, code, len, ptr, up to 10 addresses` -/
def optionSize : Nat := 44

/-- The array that `inet_srcrt_init` allocates, `optr` and `lenptr` as offsets into it, and `ocnt`. -/
structure Srcrt where
  area : Area
  optr : Nat
  lenptr : Nat
  ocnt : Nat

/-- The code of the option. -/
def codeOf (type : Int) : UInt8 := if type ≠ 0 then ipoptSsrr else ipoptLsrr

/-- `inet_srcrt_init`, `src/ipopts/sourceroute.c:10–23`, for what the allocated memory holds. -/
def inet_srcrt_init (type : Int) (mem : Nat → UInt8) : Srcrt where
  area := ((((Area.mk mem []).clear optionSize).store 0 [ipoptNop]).store 1 [codeOf type]).store 3 [4]
  optr := 4
  lenptr := 2
  ocnt := 0

/-- A call that ends the program: what it says, and what has been built until then. -/
structure Quit where
  msg : Text
  left : Srcrt

/-- `inet_srcrt_add`, `src/ipopts/sourceroute.c:27–47`. `hostServ` is the address of the host, or what `Host_serv`
ends the program with. -/
def inet_srcrt_add (hostServ : Text → Except Text InAddr) (hostptr : Text) (s : Srcrt) : Except Quit (Nat × Srcrt) :=
  if s.ocnt > 9 then .error ⟨"too many source routes with: ".toList ++ hostptr, s⟩
  else
    match hostServ hostptr with
    | .error msg => .error ⟨msg, s⟩
    | .ok sin_addr =>
      let area := s.area.store s.optr sin_addr.toList
      let ocnt := s.ocnt + 1
      let len := 3 + ocnt * 4
      .ok (len + 1, ⟨area.store s.lenptr [UInt8.ofNat len], s.optr + 4, s.lenptr, ocnt⟩)

/-- One call after another, with the value the last of them has returned. -/
def addNext (hostServ : Text → Except Text InAddr) (r : Nat × Srcrt) (hostptr : Text) : Except Quit (Nat × Srcrt) :=
  inet_srcrt_add hostServ hostptr r.2

/-- `while ((c = *ptr++) == IPOPT_NOP);` with the first other byte and those after it. -/
def skipNops : List UInt8 → Except Stop (UInt8 × List UInt8)
  | [] => .error .outOfBounds
  | c :: ptr => if c = ipoptNop then skipNops ptr else .ok (c, ptr)

/-- `printf("%s ", Inet_ntop(AF_INET, ptr, str, sizeof(str)))`, where `Inet_ntop` ends the program on `NULL`. -/
def printAddr (addr : InAddr) : Except Stop Text :=
  inetNtop4 addr inetAddrstrlen >>= fun str ↦
    match str with
    | some str => .ok (str ++ [' '])
    | none => .error .blocked

/-- The loop over the addresses, `src/ipopts/sourceroute.c:75–79`. -/
def printAddrs : Int → List UInt8 → Except Stop Text
  | len, a :: b :: c :: d :: ptr =>
    if len > 0 then do
      let text ← printAddr #v[a, b, c, d]
      let rest ← printAddrs (len - 4) ptr
      return text ++ rest
    else .ok []
  | len, _ => if len > 0 then .error .outOfBounds else .ok []

/-- `inet_srcrt_print`, `src/ipopts/sourceroute.c:49–82`, on bytes beyond which nothing may be read. Its parameter
`len` is not looked at. -/
def inet_srcrt_print : List UInt8 → Except Stop Text
  | x :: y :: z :: w :: ptr => do
    let hop1 : InAddr := #v[x, y, z, w]
    let (c, ptr) ← skipNops ptr
    if c = ipoptLsrr ∨ c = ipoptSsrr then
      let head := if c = ipoptLsrr then "received LSRR: ".toList else "received SSRR: ".toList
      let first ← printAddr hop1
      match ptr with
      | len :: _ :: ptr =>
        let rest ← printAddrs (len.toNat - 4) ptr
        return head ++ first ++ rest ++ ['\n']
      | _ => throw .outOfBounds
    else return "received option type ".toList ++ decimal c.toNat ++ ['\n']
  | _ => .error .outOfBounds

/-! ### What is built -/

/-- The option of a list of addresses. -/
def optionOf (type : Int) (len : UInt8) (addrs : List InAddr) : List UInt8 :=
  [ipoptNop, codeOf type, len, 4] ++ addrs.flatMap (·.toList)

/-- The option as far as it has been built, and the value the last call has returned. -/
structure Filled (type : Int) (addrs : List InAddr) (r : Nat × Srcrt) : Prop where
  optr : r.2.optr = 4 + 4 * addrs.length
  lenptr : r.2.lenptr = 2
  ocnt : r.2.ocnt = addrs.length
  inside : Within r.2.area.writes optionSize
  holds : ∃ len, r.2.area.Holds optionSize (optionOf type len addrs) ∧
    (addrs ≠ [] → len = UInt8.ofNat (3 + 4 * addrs.length) ∧ r.1 = 4 + 4 * addrs.length)

variable {type : Int} {addrs addrs' : List InAddr} {addr : InAddr} {r : Nat × Srcrt} {hosts : List Text}
  {hostptr : Text} {hostServ : Text → Except Text InAddr}

/-- The length of an option. -/
theorem length_optionOf (type : Int) (len : UInt8) (addrs : List InAddr) :
    (optionOf type len addrs).length = 4 + 4 * addrs.length := by
  rw [optionOf, List.length_append, length_flatMap_toList]
  rfl

/-- What `inet_srcrt_init` leaves. -/
theorem filled_init (type : Int) (mem : Nat → UInt8) : Filled type [] (0, inet_srcrt_init type mem) where
  optr := rfl
  lenptr := rfl
  ocnt := rfl
  inside := by
    unfold inet_srcrt_init Area.clear
    simp only [Area.within_store, List.length_replicate, List.length_singleton]
    exact ⟨⟨⟨⟨within_nil, by decide⟩, by decide⟩, by decide⟩, by decide⟩
  holds := by
    have hnop : (((Area.mk mem []).clear optionSize).store 0 [ipoptNop]).Holds optionSize [ipoptNop] :=
      Area.holds_clear.append
    have hcode : ((((Area.mk mem []).clear optionSize).store 0 [ipoptNop]).store 1 [codeOf type]).Holds optionSize
        [ipoptNop, codeOf type] := hnop.append
    exact ⟨0, hcode.skip.append, fun h ↦ absurd rfl h⟩

private theorem optionOf_concat (len : UInt8) :
    optionOf type len (addrs ++ [addr]) = optionOf type len addrs ++ addr.toList := by
  rw [optionOf, List.flatMap_append, List.flatMap_singleton, ← List.append_assoc]
  rfl

private theorem addNext_eq (hhost : hostServ hostptr = .ok addr) (hlt : r.2.ocnt ≤ 9) :
    addNext hostServ r hostptr = .ok (3 + (r.2.ocnt + 1) * 4 + 1,
      ⟨(r.2.area.store r.2.optr addr.toList).store r.2.lenptr [UInt8.ofNat (3 + (r.2.ocnt + 1) * 4)],
        r.2.optr + 4, r.2.lenptr, r.2.ocnt + 1⟩) := by
  rw [addNext, inet_srcrt_add, if_neg (Nat.not_lt.mpr hlt), hhost]

/-- An address more. -/
theorem Filled.add (h : Filled type addrs r) (hhost : hostServ hostptr = .ok addr) (hlt : addrs.length < 10) :
    ∃ t, addNext hostServ r hostptr = .ok t ∧ Filled type (addrs ++ [addr]) t := by
  have hcount : (addrs ++ [addr]).length = addrs.length + 1 := List.length_append
  obtain ⟨len, hholds, -⟩ := h.holds
  refine ⟨_, addNext_eq hhost (by rw [h.ocnt]; omega), ?_⟩
  rw [h.optr, h.lenptr, h.ocnt]
  refine ⟨?_, rfl, hcount.symm, ?_, UInt8.ofNat (3 + (addrs.length + 1) * 4), ?_, fun _ ↦ ⟨?_, ?_⟩⟩
  · rw [hcount]
    rfl
  · rw [Area.within_store, Area.within_store, Vector.length_toList, List.length_singleton]
    unfold optionSize
    exact ⟨⟨h.inside, by omega⟩, by omega⟩
  · have hstored : (r.2.area.store (optionOf type len addrs).length addr.toList).Holds optionSize
        (optionOf type len (addrs ++ [addr])) := by
      rw [optionOf_concat]
      exact hholds.append
    rw [length_optionOf] at hstored
    refine hstored.set ?_
    rw [length_optionOf]
    omega
  · rw [hcount, Nat.mul_comm 4]
  · rw [hcount]
    dsimp only
    omega

/-- The calls for a list of hosts. -/
theorem Filled.run (h : Filled type addrs r)
    (hnet : List.Forall₂ (fun host addr ↦ hostServ host = .ok addr) hosts addrs')
    (hle : addrs.length + hosts.length ≤ 10) :
    ∃ t, runActs (addNext hostServ) r hosts = .ok t ∧ Filled type (addrs ++ addrs') t := by
  induction hnet generalizing addrs r with
  | nil =>
    rw [List.append_nil]
    exact ⟨r, rfl, h⟩
  | @cons host addr hosts addrs' hhost _ ih =>
    rw [List.length_cons] at hle
    obtain ⟨t, ht, hadd⟩ := h.add hhost (by omega)
    have hcount : (addrs ++ [addr]).length = addrs.length + 1 := List.length_append
    obtain ⟨u, hu, hall⟩ := ih hadd (by omega)
    refine ⟨u, ?_, ?_⟩
    · rw [runActs, ht, ok_bind]
      exact hu
    · rw [List.append_assoc] at hall
      exact hall

/-- An eleventh address is refused, and nothing is stored. -/
theorem Filled.refuses (h : Filled type addrs r) (hten : addrs.length = 10) (hostptr : Text) (rest : List Text) :
    runActs (addNext hostServ) r (hostptr :: rest) =
      .error ⟨"too many source routes with: ".toList ++ hostptr, r.2⟩ := by
  have hocnt : r.2.ocnt > 9 := by
    rw [h.ocnt]
    omega
  rw [runActs, addNext, inet_srcrt_add, if_pos hocnt]
  rfl

/-! ### What is printed -/

private theorem exists_bytes (addr : InAddr) : ∃ a b c d : UInt8, addr = #v[a, b, c, d] := by
  obtain ⟨⟨l⟩, hl⟩ := addr
  match l, hl with
  | [a, b, c, d], _ => exact ⟨a, b, c, d, rfl⟩

/-- An address as it is printed. -/
theorem printAddr_eq (addr : InAddr) : printAddr addr = .ok (dottedQuad addr ++ [' ']) := by
  rw [printAddr, Libgai.inetNtop4_of_lt (Libgai.length_dottedQuad addr), ok_bind]

/-- The addresses of an option, whose length has lost the pointer and one address. -/
theorem printAddrs_eq (addrs : List InAddr) :
    printAddrs (4 * addrs.length - 1) (addrs.flatMap (·.toList)) = .ok (addrs.flatMap (dottedQuad · ++ [' '])) := by
  induction addrs with
  | nil => rfl
  | cons addr addrs ih =>
    have hlen : (4 : Int) * (addr :: addrs).length - 1 - 4 = 4 * addrs.length - 1 := by
      rw [List.length_cons]
      omega
    have hpos : (4 : Int) * (addr :: addrs).length - 1 > 0 := by
      rw [List.length_cons]
      omega
    obtain ⟨a, b, c, d, rfl⟩ := exists_bytes addr
    rw [List.flatMap_cons, List.flatMap_cons]
    change printAddrs _ (a :: b :: c :: d :: addrs.flatMap (·.toList)) = _
    rw [printAddrs, if_pos hpos, printAddr_eq, ok_bind, hlen, ih, ok_bind]
    rfl

private theorem codeOf_cases (type : Int) :
    (type ≠ 0 ∧ codeOf type = ipoptSsrr) ∨ (¬type ≠ 0 ∧ codeOf type = ipoptLsrr) := by
  by_cases htype : type ≠ 0
  · exact .inl ⟨htype, if_pos htype⟩
  · exact .inr ⟨htype, if_neg htype⟩

private theorem skipNops_option (type : Int) (ptr : List UInt8) :
    skipNops (ipoptNop :: codeOf type :: ptr) = .ok (codeOf type, ptr) := by
  rw [skipNops, if_pos rfl, skipNops]
  rcases codeOf_cases type with ⟨-, hcode⟩ | ⟨-, hcode⟩
  · rw [hcode, if_neg (by decide)]
  · rw [hcode, if_neg (by decide)]

/-- What is printed of a first hop and an option. -/
theorem print_optionOf (hop1 : InAddr) (hle : addrs.length ≤ 10) :
    inet_srcrt_print (hop1.toList ++ optionOf type (UInt8.ofNat (3 + 4 * addrs.length)) addrs) =
      .ok ((if type ≠ 0 then "received SSRR: ".toList else "received LSRR: ".toList) ++
        (hop1 :: addrs).flatMap (dottedQuad · ++ [' ']) ++ ['\n']) := by
  have hlen : (((UInt8.ofNat (3 + 4 * addrs.length)).toNat : Int) - 4) = 4 * addrs.length - 1 := by
    have hlt : 3 + 4 * addrs.length < UInt8.size := by
      change 3 + 4 * addrs.length < 256
      omega
    rw [UInt8.toNat_ofNat_of_lt' hlt]
    omega
  obtain ⟨x, y, z, w, rfl⟩ := exists_bytes hop1
  change inet_srcrt_print (x :: y :: z :: w :: ipoptNop :: codeOf type :: UInt8.ofNat (3 + 4 * addrs.length) :: 4 ::
    addrs.flatMap (·.toList)) = _
  rw [inet_srcrt_print, skipNops_option, ok_bind, List.flatMap_cons]
  rcases codeOf_cases type with ⟨htype, hcode⟩ | ⟨htype, hcode⟩
  · rw [if_pos htype]
    dsimp only
    rw [hcode, if_pos (.inr rfl), if_neg (by decide), printAddr_eq, ok_bind, hlen, printAddrs_eq, ok_bind]
    simp only [List.append_assoc]
    rfl
  · rw [if_neg htype]
    dsimp only
    rw [hcode, if_pos (.inl rfl), if_pos rfl, printAddr_eq, ok_bind, hlen, printAddrs_eq, ok_bind]
    simp only [List.append_assoc]
    rfl

/-- The bytes that are built for one to ten addresses stay in the array, and the last call returns their number.
What is printed of any first hop and these bytes is the first hop and the addresses in order, and no byte beyond
them is read. An eleventh address is refused with the state left as it was. -/
theorem srcrt_round_trip (type : Int) (mem : Nat → UInt8)
    (hnet : List.Forall₂ (fun host addr ↦ hostServ host = .ok addr) hosts addrs) (hpos : 0 < hosts.length)
    (hle : hosts.length ≤ 10) :
    ∃ n s, runActs (addNext hostServ) (0, inet_srcrt_init type mem) hosts = .ok (n, s) ∧
      Within s.area.writes optionSize ∧ n = s.optr ∧ n ≤ optionSize ∧
      (∀ hop1 : InAddr, inet_srcrt_print (hop1.toList ++ s.area.bytes n) =
        .ok ((if type ≠ 0 then "received SSRR: ".toList else "received LSRR: ".toList) ++
          (hop1 :: addrs).flatMap (dottedQuad · ++ [' ']) ++ ['\n'])) ∧
      (hosts.length = 10 → ∀ hostptr rest,
        runActs (addNext hostServ) (0, inet_srcrt_init type mem) (hosts ++ hostptr :: rest) =
          .error ⟨"too many source routes with: ".toList ++ hostptr, s⟩) := by
  have hcount : hosts.length = addrs.length := hnet.length_eq
  have hne : addrs ≠ [] := by
    intro hnil
    rw [hcount, hnil] at hpos
    exact Nat.lt_irrefl 0 hpos
  have hempty : 0 + hosts.length ≤ 10 := by omega
  obtain ⟨⟨n, s⟩, hrun, hfilled⟩ := (filled_init type mem).run hnet hempty
  rw [List.nil_append] at hfilled
  obtain ⟨len, hholds, hlast⟩ := hfilled.holds
  obtain ⟨rfl, hn⟩ := hlast hne
  dsimp only at hn hholds
  have hbytes : s.area.bytes n = optionOf type (UInt8.ofNat (3 + 4 * addrs.length)) addrs := by
    rw [hholds.bytes_eq (by unfold optionSize; omega) (by rw [length_optionOf]; omega), length_optionOf, hn,
      Nat.sub_self, List.replicate_zero, List.append_nil]
  refine ⟨n, s, hrun, hfilled.inside, hn.trans hfilled.optr.symm, ?_, fun hop1 ↦ ?_, fun hten hostptr rest ↦ ?_⟩
  · unfold optionSize
    omega
  · rw [hbytes]
    exact print_optionOf hop1 (by omega)
  · rw [runActs_append, hrun, ok_bind]
    exact hfilled.refuses (by omega) hostptr rest

/-- Two names of the host 10.0.0.2. -/
def oneAddress (host : Text) : Except Text InAddr :=
  if host = ['a'] ∨ host = ['b'] then .ok #v[10, 0, 0, 2] else .error "host_serv error".toList

/-- A strict route of two addresses. -/
theorem srcrt_round_trip_two :
    ∃ n s, runActs (addNext oneAddress) (0, inet_srcrt_init 1 fun _ ↦ 7) [['a'], ['b']] = .ok (n, s) ∧
      inet_srcrt_print ([10, 0, 0, 9] ++ s.area.bytes n) =
        .ok "received SSRR: 10.0.0.9 10.0.0.2 10.0.0.2 \n".toList := by
  have hnet : List.Forall₂ (fun host addr ↦ oneAddress host = .ok addr) [['a'], ['b']]
      [#v[10, 0, 0, 2], #v[10, 0, 0, 2]] := .cons rfl (.cons rfl .nil)
  obtain ⟨n, s, hrun, -, -, -, hprint, -⟩ := srcrt_round_trip 1 (fun _ ↦ 7) hnet Nat.two_pos
    (Nat.le_of_ble_eq_true rfl)
  exact ⟨n, s, hrun, (hprint #v[10, 0, 0, 9]).trans (by decide)⟩

end Unpv13e.Ipopts
