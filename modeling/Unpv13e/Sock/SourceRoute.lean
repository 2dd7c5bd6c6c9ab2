import Unpv13e.Base.Area
import Unpv13e.Base.Runs
import Unpv13e.Libgai.InetNtop

/-!
# The source route of `sock`

Library `Sock`. `src/sock/sourceroute.c:27–110`: the IP option that the `-g` and `-G` options build, hop by hop, and
that is given to `setsockopt` with the destination at its end. `sizeof(u_long)` is a parameter. What stands in
memory behind an `in_addr` is not the program's own, and so is a parameter as well.
-/

namespace Unpv13e.Sock
open Unpv13e.Base
open Libgai (InAddr)

/-- `IPOPT_LSRR` -/
def ipoptLsrr : UInt8 := 131

/-- `IPOPT_SSRR` -/
def ipoptSsrr : UInt8 := 137

/-- `sizeof(sroute_opt)` -/
def srouteOptSize : Nat := 44

/-- A `-g` or `-G` option, and what stands behind the `in_addr` its host is resolved to. -/
structure Hop where
  strict : Bool
  argptr : Text
  beyond : Nat → UInt8

/-- `inet_aton` and `gethostbyname` -/
structure Resolver where
  inet_aton : Text → Option InAddr
  gethostbyname : Text → Option InAddr

/-- `sroute_opt` and the memory behind it, `optr` as an offset into it, `sroute_cnt`, and how many bytes each
`memcpy` has read from an `in_addr`. -/
structure Sroute where
  sroute_opt : Area
  optr : Nat
  sroute_cnt : Nat
  reads : List Nat

/-- The `word` bytes from an `in_addr` on. -/
def bytesFrom (word : Nat) (addr : InAddr) (beyond : Nat → UInt8) : List UInt8 :=
  (List.range word).map fun i ↦ (addr.toList[i]?).getD (beyond (i - 4))

/-- `memcpy(optr, addr, sizeof(u_long))` and `optr += sizeof(u_long)`. -/
def Sroute.copy (word : Nat) (addr : InAddr) (beyond : Nat → UInt8) (s : Sroute) : Sroute where
  sroute_opt := s.sroute_opt.store s.optr (bytesFrom word addr beyond)
  optr := s.optr + word
  sroute_cnt := s.sroute_cnt
  reads := s.reads ++ [word]

/-- The beginning of the option, `src/sock/sourceroute.c:36–42`. -/
def Sroute.first (strict : Bool) (s : Sroute) : Sroute where
  sroute_opt := ((s.sroute_opt.clear srouteOptSize).store 0 [if strict then ipoptSsrr else ipoptLsrr]).store 2 [4]
  optr := 3
  sroute_cnt := s.sroute_cnt
  reads := s.reads

/-- `sroute_cnt++` -/
def Sroute.count (s : Sroute) : Sroute := { s with sroute_cnt := s.sroute_cnt + 1 }

/-- `sroute_doopt`, `src/sock/sourceroute.c:27–61` -/
def sroute_doopt (word : Nat) (net : Resolver) (s : Sroute) (hop : Hop) : Except Text Sroute :=
  if s.sroute_cnt ≥ 9 then .error ("too many source routes with: ".toList ++ hop.argptr)
  else
    let s := if s.sroute_cnt = 0 then s.first hop.strict else s
    match net.inet_aton hop.argptr with
    | some inaddr => .ok (s.copy word inaddr hop.beyond).count
    | none =>
      match net.gethostbyname hop.argptr with
      | some h_addr => .ok (s.copy word h_addr hop.beyond).count
      | none => .error ("unknown host: ".toList ++ hop.argptr ++ ['\n'])

/-- `while ((optr - sroute_opt) & 3) optr++;` -/
def pad (optr : Nat) : Nat := if optr % 4 = 0 then optr else pad (optr + 1)
termination_by (4 - optr % 4) % 4

/-- `sroute_set`, `src/sock/sourceroute.c:78–110`, with the bytes that are given to `setsockopt`. -/
def sroute_set (word : Nat) (sin_addr : InAddr) (beyond : Nat → UInt8) (s : Sroute) : List UInt8 × Sroute :=
  let s := s.count
  let len := UInt8.ofNat (3 + s.sroute_cnt * 4)
  let s := { s with sroute_opt := s.sroute_opt.store 1 [len] }.copy word sin_addr beyond
  let s := { s with optr := pad s.optr }
  (s.sroute_opt.bytes s.optr, { s with sroute_cnt := 0 })

/-- The options of a command line, and the call of `sroute_set` for the destination. -/
def sourceRoute (word : Nat) (net : Resolver) (mem : Nat → UInt8) (hops : List Hop) (sin_addr : InAddr)
    (beyond : Nat → UInt8) : Except Text (List UInt8 × Sroute) := do
  let s ← runActs (sroute_doopt word net) ⟨⟨mem, []⟩, 0, 0, []⟩ hops
  return sroute_set word sin_addr beyond s

/-! ### What the option is to be -/

/-- The host of a hop has this address. -/
def Resolver.Resolves (net : Resolver) (hop : Hop) (addr : InAddr) : Prop :=
  (net.inet_aton hop.argptr <|> net.gethostbyname hop.argptr) = some addr

/-- Zeros up to a multiple of four. -/
def padded (l : List UInt8) : List UInt8 := l ++ List.replicate ((4 - l.length % 4) % 4) 0

/-- The type of the option, which the first hop decides. -/
def typeOf : List Hop → UInt8
  | hop :: _ => if hop.strict then ipoptSsrr else ipoptLsrr
  | [] => 0

/-- The option of a list of hops, all stores in `sroute_opt`, and no read beyond an `in_addr`. -/
structure Valid (type : UInt8) (addrs : List InAddr) (r : List UInt8 × Sroute) : Prop where
  option : r.1 = padded ([type, UInt8.ofNat (3 + 4 * addrs.length), 4] ++ addrs.flatMap (·.toList))
  inside : Within r.2.sroute_opt.writes srouteOptSize
  reads : ∀ k ∈ r.2.reads, k ≤ 4

variable {word k : Nat} {net : Resolver} {s : Sroute} {hop : Hop} {hops : List Hop} {addr sin_addr : InAddr}
  {addrs : List InAddr} {beyond : Nat → UInt8} {l : List UInt8}

private theorem length_bytesFrom (word : Nat) (addr : InAddr) (beyond : Nat → UInt8) :
    (bytesFrom word addr beyond).length = word := by
  rw [bytesFrom, List.length_map, List.length_range]

/-- Four bytes are the address. -/
theorem bytesFrom_four (addr : InAddr) (beyond : Nat → UInt8) : bytesFrom 4 addr beyond = addr.toList := by
  refine List.ext_getElem ?_ fun i hi hi' ↦ ?_
  · rw [length_bytesFrom, Vector.length_toList]
  · simp only [bytesFrom, List.getElem_map, List.getElem_range, List.getElem?_eq_getElem hi', Option.getD_some]

/-! ### Hop after hop -/

/-- The option as far as it has been built: `k` addresses, and the bytes `l` up to `optr`. -/
structure Filled (word k : Nat) (l : List UInt8) (s : Sroute) : Prop where
  count : s.sroute_cnt = k
  optr : s.optr = l.length
  holds : s.sroute_opt.Holds srouteOptSize l
  inside : Within s.sroute_opt.writes srouteOptSize ↔ l.length ≤ srouteOptSize
  reads : s.reads = List.replicate k word

/-- An address more. -/
theorem Filled.copy (addr : InAddr) (beyond : Nat → UInt8) (h : Filled word k l s) :
    Filled word (k + 1) (l ++ bytesFrom word addr beyond) (s.copy word addr beyond).count where
  count := congrArg (· + 1) h.count
  optr := by
    rw [List.length_append, length_bytesFrom, ← h.optr]
    rfl
  holds := by
    change (s.sroute_opt.store s.optr _).Holds srouteOptSize _
    rw [h.optr]
    exact h.holds.append
  inside := by
    change Within (s.sroute_opt.store s.optr _).writes srouteOptSize ↔ _
    rw [Area.within_store, h.inside, h.optr, List.length_append]
    omega
  reads := by
    rw [List.replicate_succ', ← h.reads]
    rfl

/-- The three bytes before the first address. -/
theorem filled_first (word : Nat) (strict : Bool) (hcnt : s.sroute_cnt = 0) (hwrites : s.sroute_opt.writes = [])
    (hreads : s.reads = []) :
    Filled word 0 [if strict then ipoptSsrr else ipoptLsrr, 0, 4] (s.first strict) where
  count := hcnt
  optr := rfl
  holds := by
    have htype : ((s.sroute_opt.clear srouteOptSize).store 0 [if strict then ipoptSsrr else ipoptLsrr]).Holds
        srouteOptSize [if strict then ipoptSsrr else ipoptLsrr] := Area.holds_clear.append
    exact htype.skip.append
  inside := by
    refine iff_of_true ?_ (Nat.le_of_ble_eq_true rfl)
    unfold Sroute.first Area.clear
    simp only [Area.within_store, hwrites, List.length_replicate, List.length_singleton]
    exact ⟨⟨⟨within_nil, by decide⟩, by decide⟩, by decide⟩
  reads := hreads

private theorem doopt_eq (hnet : net.Resolves hop addr) (hcnt : s.sroute_cnt < 9) :
    sroute_doopt word net s hop =
      .ok ((if s.sroute_cnt = 0 then s.first hop.strict else s).copy word addr hop.beyond).count := by
  unfold sroute_doopt
  rw [if_neg (Nat.not_le.mpr hcnt)]
  unfold Resolver.Resolves at hnet
  cases haton : net.inet_aton hop.argptr with
  | some a =>
    rw [haton] at hnet
    cases hnet
    rfl
  | none =>
    rw [haton] at hnet
    have hhost : net.gethostbyname hop.argptr = some addr := hnet
    simp only [hhost]

/-- The addresses of a list of hops, with what stands behind them. -/
def blocks (word : Nat) (hops : List Hop) (addrs : List InAddr) : List UInt8 :=
  (List.zipWith (fun hop addr ↦ bytesFrom word addr hop.beyond) hops addrs).flatten

/-- Hops after the first. -/
theorem run_filled (hnet : List.Forall₂ net.Resolves hops addrs) (hk : 0 < k) (hle : k + hops.length ≤ 9)
    (h : Filled word k l s) : ∃ t, runActs (sroute_doopt word net) s hops = .ok t ∧
      Filled word (k + hops.length) (l ++ blocks word hops addrs) t := by
  induction hnet generalizing k l s with
  | nil =>
    refine ⟨s, rfl, ?_⟩
    rw [blocks, List.zipWith_nil_left, List.flatten_nil, List.append_nil]
    exact h
  | @cons hop addr hops addrs hhop _ ih =>
    rw [List.length_cons] at hle ⊢
    have hne : s.sroute_cnt ≠ 0 := by
      rw [h.count]
      omega
    have hcopy := h.copy addr hop.beyond
    obtain ⟨t, ht, hfilled⟩ := ih (Nat.succ_pos k) (by omega) hcopy
    refine ⟨t, ?_, ?_⟩
    · rw [runActs, doopt_eq hhop (by rw [h.count]; omega), if_neg hne, ok_bind]
      exact ht
    · have hcount : k + 1 + hops.length = k + (hops.length + 1) := by omega
      rw [hcount, List.append_assoc] at hfilled
      exact hfilled

/-- All hops of a command line. -/
theorem run_first (word : Nat) (mem : Nat → UInt8) (hnet : List.Forall₂ net.Resolves hops addrs)
    (hpos : 0 < hops.length) (hle : hops.length ≤ 9) :
    ∃ t, runActs (sroute_doopt word net) ⟨⟨mem, []⟩, 0, 0, []⟩ hops = .ok t ∧
      Filled word hops.length ([typeOf hops, 0, 4] ++ blocks word hops addrs) t := by
  cases hnet with
  | nil => exact absurd hpos (Nat.lt_irrefl 0)
  | @cons hop addr hops addrs hhop hrest =>
    rw [List.length_cons] at hle
    have hbegin : Filled word 0 _ (Sroute.first hop.strict ⟨⟨mem, []⟩, 0, 0, []⟩) :=
      filled_first word hop.strict rfl rfl rfl
    have hfirst := hbegin.copy addr hop.beyond
    obtain ⟨t, ht, hfilled⟩ := run_filled hrest Nat.one_pos (by omega) hfirst
    refine ⟨t, ?_, ?_⟩
    · rw [runActs, doopt_eq hhop (Nat.succ_pos 8), if_pos rfl, ok_bind]
      exact ht
    · rw [Nat.add_comm, List.append_assoc] at hfilled
      exact hfilled

private theorem length_blocks (hnet : List.Forall₂ net.Resolves hops addrs) :
    (blocks word hops addrs).length = word * hops.length := by
  induction hnet with
  | nil => rfl
  | @cons hop addr hops addrs _ _ ih =>
    change (bytesFrom word addr hop.beyond ++ blocks word hops addrs).length = word * (hops.length + 1)
    rw [List.length_append, length_bytesFrom, ih, Nat.mul_succ, Nat.add_comm]

private theorem blocks_four (hnet : List.Forall₂ net.Resolves hops addrs) :
    blocks 4 hops addrs = addrs.flatMap (·.toList) := by
  induction hnet with
  | nil => rfl
  | @cons hop addr hops addrs _ _ ih =>
    change bytesFrom 4 addr hop.beyond ++ blocks 4 hops addrs = _
    rw [ih, bytesFrom_four, List.flatMap_cons]

/-! ### The destination -/

private theorem pad_spec (m : Nat) : pad (4 * m + 3) = 4 * m + 4 := by
  rw [pad, if_neg (by omega), pad, if_pos (by omega)]

/-- The length byte, the destination and the padding. -/
theorem sroute_set_filled (sin_addr : InAddr) (beyond : Nat → UInt8) (h : Filled word k l s) (hl : 1 < l.length) :
    ∃ u, Filled word (k + 1) (l.set 1 (UInt8.ofNat (3 + (k + 1) * 4)) ++ bytesFrom word sin_addr beyond) u ∧
      sroute_set word sin_addr beyond s =
        (u.sroute_opt.bytes (pad (l.length + word)), { u with optr := pad (l.length + word), sroute_cnt := 0 }) := by
  have hset : Filled word k (l.set 1 (UInt8.ofNat (3 + (k + 1) * 4)))
      { s with sroute_opt := s.sroute_opt.store 1 [UInt8.ofNat (3 + (k + 1) * 4)] } := by
    refine ⟨h.count, ?_, h.holds.set hl, ?_, h.reads⟩
    · rw [List.length_set]
      exact h.optr
    · rw [Area.within_store, h.inside, List.length_set, List.length_singleton]
      unfold srouteOptSize
      omega
  refine ⟨_, hset.copy sin_addr beyond, ?_⟩
  rw [← h.optr, ← h.count]
  rfl

variable (word sin_addr beyond) (mem : Nat → UInt8)

/-- The whole run: what stands in the array, and how much of it is given to `setsockopt`. -/
theorem sourceRoute_filled (hnet : List.Forall₂ net.Resolves hops addrs) (hpos : 0 < hops.length)
    (hle : hops.length ≤ 9) : ∃ u, Filled word (hops.length + 1)
      ([typeOf hops, UInt8.ofNat (3 + (hops.length + 1) * 4), 4] ++ blocks word hops addrs ++
        bytesFrom word sin_addr beyond) u ∧
      sourceRoute word net mem hops sin_addr beyond = .ok
        (u.sroute_opt.bytes (pad (word * (hops.length + 1) + 3)),
          { u with optr := pad (word * (hops.length + 1) + 3), sroute_cnt := 0 }) := by
  obtain ⟨t, ht, hfilled⟩ := run_first word mem hnet hpos hle
  have hlength : ([typeOf hops, 0, 4] ++ blocks word hops addrs).length + word = word * (hops.length + 1) + 3 := by
    rw [List.length_append, length_blocks hnet, Nat.mul_succ]
    change 3 + word * hops.length + word = _
    omega
  obtain ⟨u, hu, hset⟩ := sroute_set_filled sin_addr beyond hfilled
    (by rw [List.length_append]; exact Nat.lt_add_right _ (Nat.one_lt_succ_succ 1))
  rw [hlength] at hset
  refine ⟨u, hu, ?_⟩
  rw [sourceRoute, ht, ok_bind, hset]
  rfl

/-- With words of four bytes the option is what it is to be. -/
theorem valid_four (hnet : List.Forall₂ net.Resolves hops addrs) (hpos : 0 < hops.length)
    (hle : hops.length ≤ 9) : ∃ r, sourceRoute 4 net mem hops sin_addr beyond = .ok r ∧
      Valid (typeOf hops) (addrs ++ [sin_addr]) r := by
  obtain ⟨u, hu, hrun⟩ := sourceRoute_filled 4 sin_addr beyond mem hnet hpos hle
  rw [pad_spec] at hrun
  have hcount : (addrs ++ [sin_addr]).length = hops.length + 1 := by
    rw [List.length_append, hnet.length_eq]
    rfl
  generalize hm : [typeOf hops, UInt8.ofNat (3 + (hops.length + 1) * 4), 4] ++ blocks 4 hops addrs ++
    bytesFrom 4 sin_addr beyond = m at hu
  have hlength : m.length = 4 * (hops.length + 1) + 3 := by
    rw [← hm, List.length_append, List.length_append, length_blocks hnet, length_bytesFrom]
    change 3 + 4 * hops.length + 4 = _
    omega
  have hroute : [typeOf hops, UInt8.ofNat (3 + 4 * (addrs ++ [sin_addr]).length), 4] ++
      (addrs ++ [sin_addr]).flatMap (·.toList) = m := by
    rw [← hm, hcount, Nat.mul_comm 4, List.flatMap_append, blocks_four hnet, bytesFrom_four, List.append_assoc,
      List.flatMap_singleton]
  have hrest : 4 * (hops.length + 1) + 4 - (4 * (hops.length + 1) + 3) = 1 := by omega
  have hzero : (4 - (4 * (hops.length + 1) + 3) % 4) % 4 = 1 := by omega
  refine ⟨_, hrun, ?_, ?_, ?_⟩
  · rw [hroute, padded, hlength, hzero]
    have hbytes := hu.holds.bytes_eq (k := 4 * (hops.length + 1) + 4) (by unfold srouteOptSize; omega) (by omega)
    rw [hlength, hrest] at hbytes
    exact hbytes
  · refine hu.inside.mpr ?_
    unfold srouteOptSize
    omega
  · intro k hk
    rw [hu.reads] at hk
    exact (List.eq_of_mem_replicate hk).le

/-- With words of eight bytes every `memcpy` reads behind the `in_addr`, the addresses are eight bytes apart, and
from the fifth hop on the array is overrun. -/
theorem not_valid_eight (hnet : List.Forall₂ net.Resolves hops addrs) (hpos : 0 < hops.length)
    (hle : hops.length ≤ 9) : ∃ r, sourceRoute 8 net mem hops sin_addr beyond = .ok r ∧
      (∀ k ∈ r.2.reads, k = 8) ∧ r.1 ≠ padded
        ([typeOf hops, UInt8.ofNat (3 + 4 * (addrs ++ [sin_addr]).length), 4] ++
          (addrs ++ [sin_addr]).flatMap (·.toList)) ∧
      (Within r.2.sroute_opt.writes srouteOptSize ↔ hops.length ≤ 4) ∧
      ¬Valid (typeOf hops) (addrs ++ [sin_addr]) r := by
  obtain ⟨u, hu, hrun⟩ := sourceRoute_filled 8 sin_addr beyond mem hnet hpos hle
  have hodd : 8 * (hops.length + 1) + 3 = 4 * (2 * (hops.length + 1)) + 3 := by omega
  rw [hodd, pad_spec] at hrun
  have hcount : (addrs ++ [sin_addr]).length = hops.length + 1 := by
    rw [List.length_append, hnet.length_eq]
    rfl
  have hreads : ∀ k ∈ u.reads, k = 8 := by
    intro k hk
    rw [hu.reads] at hk
    exact List.eq_of_mem_replicate hk
  refine ⟨_, hrun, hreads, fun hroute ↦ ?_, ?_, fun hvalid ↦ ?_⟩
  · have hlength := congrArg List.length hroute
    rw [Area.bytes, length_bytesAt, padded, List.length_append, List.length_append, length_flatMap_toList, hcount,
      List.length_replicate] at hlength
    change _ = 3 + 4 * (hops.length + 1) + (4 - (3 + 4 * (hops.length + 1)) % 4) % 4 at hlength
    omega
  · refine hu.inside.trans ?_
    rw [List.length_append, List.length_append, length_blocks hnet, length_bytesFrom]
    change 3 + 8 * hops.length + 8 ≤ 44 ↔ _
    omega
  · have hmem : 8 ∈ u.reads := by
      rw [hu.reads]
      exact List.mem_replicate.mpr ⟨Nat.succ_ne_zero _, rfl⟩
    exact absurd (hvalid.reads 8 hmem) (by decide)

/-- The option of a command line with one to nine hops. With `sizeof(u_long) = 8` it is never valid: all reads are
of eight bytes, the bytes given to `setsockopt` are not the option, and the stores stay in the array for at most
four hops. With `sizeof(u_long) = 4` it is always valid. -/
theorem sourceRoute_valid_iff (hnet : List.Forall₂ net.Resolves hops addrs) (hpos : 0 < hops.length)
    (hle : hops.length ≤ 9) :
    (∃ r, sourceRoute 8 net mem hops sin_addr beyond = .ok r ∧
      (∀ k ∈ r.2.reads, k = 8) ∧ r.1 ≠ padded
        ([typeOf hops, UInt8.ofNat (3 + 4 * (addrs ++ [sin_addr]).length), 4] ++
          (addrs ++ [sin_addr]).flatMap (·.toList)) ∧
      (Within r.2.sroute_opt.writes srouteOptSize ↔ hops.length ≤ 4) ∧
      ¬Valid (typeOf hops) (addrs ++ [sin_addr]) r) ∧
    ∃ r, sourceRoute 4 net mem hops sin_addr beyond = .ok r ∧ Valid (typeOf hops) (addrs ++ [sin_addr]) r :=
  ⟨not_valid_eight sin_addr beyond mem hnet hpos hle, valid_four sin_addr beyond mem hnet hpos hle⟩

/-- The resolver that knows the address 10.0.0.1 only. -/
def oneHost : Resolver := ⟨fun s ↦ if s = "10.0.0.1".toList then some #v[10, 0, 0, 1] else none, fun _ ↦ none⟩

private theorem oneHost_resolves (strict : Bool) (beyond : Nat → UInt8) :
    oneHost.Resolves ⟨strict, "10.0.0.1".toList, beyond⟩ #v[10, 0, 0, 1] := by
  have haton : oneHost.inet_aton "10.0.0.1".toList = some #v[10, 0, 0, 1] := by decide
  unfold Resolver.Resolves
  rw [haton]
  rfl

/-- Two hops, the first of them loose, both through 10.0.0.1. -/
theorem sourceRoute_valid_iff_two :
    ∃ r, sourceRoute 4 oneHost (fun _ ↦ 0)
        [⟨false, "10.0.0.1".toList, fun _ ↦ 7⟩, ⟨true, "10.0.0.1".toList, fun _ ↦ 8⟩] #v[10, 0, 0, 2] (fun _ ↦ 9) =
          .ok r ∧ Valid ipoptLsrr [#v[10, 0, 0, 1], #v[10, 0, 0, 1], #v[10, 0, 0, 2]] r := by
  have hnet : List.Forall₂ oneHost.Resolves
      [⟨false, "10.0.0.1".toList, fun _ ↦ 7⟩, ⟨true, "10.0.0.1".toList, fun _ ↦ 8⟩]
      [#v[10, 0, 0, 1], #v[10, 0, 0, 1]] := .cons (oneHost_resolves _ _) (.cons (oneHost_resolves _ _) .nil)
  exact (sourceRoute_valid_iff #v[10, 0, 0, 2] (fun _ ↦ 9) (fun _ ↦ 0) hnet Nat.two_pos
    (Nat.le_of_ble_eq_true rfl)).2

/-- One loose hop through 10.0.0.1. -/
theorem sourceRoute_reads_behind :
    ∃ r, sourceRoute 8 oneHost (fun _ ↦ 0) [⟨false, "10.0.0.1".toList, fun _ ↦ 7⟩] #v[10, 0, 0, 2] (fun _ ↦ 9) =
      .ok r ∧ ¬Valid ipoptLsrr [#v[10, 0, 0, 1], #v[10, 0, 0, 2]] r := by
  have hnet : List.Forall₂ oneHost.Resolves [⟨false, "10.0.0.1".toList, fun _ ↦ 7⟩] [#v[10, 0, 0, 1]] :=
    .cons (oneHost_resolves _ _) .nil
  obtain ⟨r, hrun, -, -, -, hvalid⟩ := not_valid_eight #v[10, 0, 0, 2] (fun _ ↦ 9) (fun _ ↦ 0) hnet Nat.one_pos
    (Nat.le_of_ble_eq_true rfl)
  exact ⟨r, hrun, hvalid⟩

end Unpv13e.Sock
