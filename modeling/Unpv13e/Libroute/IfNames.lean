import Unpv13e.Base.Reads

/-!
# Interface names

Library `Libroute`. `if_nameindex`, `if_nametoindex` and `if_indextoname` of `src/libroute`, on a system with
routing sockets, `long`s of 64 bits, and the low byte stored first. All three walk over the messages of one
reply of `sysctl`, whose header has a system's own `struct if_data` at its end.
-/

namespace Unpv13e.Libroute
open Unpv13e.Base

def RTM_IFINFO : UInt8 := 0x0e
def AF_LINK : UInt8 := 18
/-- `RTAX_IFP` and `RTAX_MAX`. -/
def RTAX_IFP : Nat := 4
def RTAX_MAX : Nat := 8
def IFNAMSIZ : Nat := 16
/-- `sizeof(u_long)` and `sizeof(struct if_nameindex)`. -/
def sizeofUlong : Nat := 8
def sizeofNameindex : Nat := 16

/-- `sizeof(struct if_msghdr)`, of which the last member is a `struct if_data`. -/
def sizeofMsghdr (ifData : Nat) : Nat := 16 + ifData

/-- A reply of `sysctl`. -/
structure Reply where
  mem : Nat → UInt8
  len : Nat

/-- Why nothing is returned. -/
inductive Stop
  /-- A message of length zero is read again and again. -/
  | loops
  /-- A pointer before the beginning of the allocated memory. -/
  | undefined
  deriving DecidableEq

/-! ### The members -/

def ifm_msglen (mem : Nat → UInt8) (ifm : Nat) : Nat := (load16 mem ifm).val.toNat
def ifm_type (mem : Nat → UInt8) (ifm : Nat) : UInt8 := mem (ifm + 3)
def ifm_addrs (mem : Nat → UInt8) (ifm : Nat) : UInt32 := (load32 mem (ifm + 4)).val

def sa_len (mem : Nat → UInt8) (sa : Nat) : Nat := (mem sa).toNat
def sa_family (mem : Nat → UInt8) (sa : Nat) : UInt8 := mem (sa + 1)

def sdl_index (mem : Nat → UInt8) (sdl : Nat) : UInt32 := (load16 mem (sdl + 2)).val.toUInt32
def sdl_nlen (mem : Nat → UInt8) (sdl : Nat) : Nat := (mem (sdl + 5)).toNat
/-- Where `sdl_data` begins. -/
def sdlData : Nat := 8

/-- The name in a `struct sockaddr_dl`. -/
def sdlName (mem : Nat → UInt8) (sdl : Nat) : List UInt8 := bytesAt mem (sdl + sdlData) (sdl_nlen mem sdl)

/-! ### The walk -/

/-- `ROUNDUP`, `src/libroute/get_rtaddrs.c:6` -/
def ROUNDUP (a size : Nat) : Nat := if a &&& (size - 1) ≠ 0 then 1 + (a ||| (size - 1)) else a

/-- What `NEXT_SA` advances by, `src/libroute/get_rtaddrs.c:12–14`. -/
def nextSa (mem : Nat → UInt8) (sa : Nat) : Nat :=
  if sa_len mem sa ≠ 0 then ROUNDUP (sa_len mem sa) sizeofUlong else sizeofUlong

/-- The loop of `get_rtaddrs` over the remaining values of `i`. -/
def rtaddrs (mem : Nat → UInt8) (addrs : UInt32) : List Nat → Nat → List (Option Nat)
  | [], _ => []
  | i :: is, sa =>
    if addrs &&& (1 <<< UInt32.ofNat i) ≠ 0 then some sa :: rtaddrs mem addrs is (sa + nextSa mem sa)
    else none :: rtaddrs mem addrs is sa

/-- `get_rtaddrs`, `src/libroute/get_rtaddrs.c:16–28`: `rti_info`. -/
def get_rtaddrs (mem : Nat → UInt8) (addrs : UInt32) (sa : Nat) : List (Option Nat) :=
  rtaddrs mem addrs (List.range RTAX_MAX) sa

/-- The `struct sockaddr_dl` of a message, as all three functions look for it. -/
def sdlOf (ifData : Nat) (mem : Nat → UInt8) (ifm : Nat) : Option Nat :=
  if ifm_type mem ifm = RTM_IFINFO then
    match (get_rtaddrs mem (ifm_addrs mem ifm) (ifm + sizeofMsghdr ifData))[RTAX_IFP]? with
    | some (some sa) => if sa_family mem sa = AF_LINK then some sa else none
    | _ => none
  else none

variable {σ ρ : Type}

/-- The loop over the messages, whose body either goes on or returns. -/
def walk (ifData : Nat) (r : Reply) (body : σ → Nat → σ ⊕ ρ) : Nat → Nat → σ → Except Stop (σ ⊕ ρ)
  | 0, _, _ => .error .loops
  | fuel + 1, next, s =>
    if next < r.len then
      match (sdlOf ifData r.mem next).elim (.inl s) (body s) with
      | .inl s => walk ifData r body fuel (next + ifm_msglen r.mem next) s
      | .inr a => .ok (.inr a)
    else .ok (.inl s)

/-- The whole loop. In as many turns as there are bytes it ends, or a message has no length. -/
def forSdl (ifData : Nat) (r : Reply) (body : σ → Nat → σ ⊕ ρ) (s : σ) : Except Stop (σ ⊕ ρ) :=
  walk ifData r body (r.len + 1) 0 s

/-! ### The three functions -/

/-- A string in an array of bytes. -/
def cstr (s : List UInt8) : List UInt8 := s.takeWhile (· ≠ 0)

/-- The bytes that `strncpy` writes for the first bytes of an array. -/
def strncpy (s : List UInt8) : List UInt8 := cstr s ++ List.replicate (s.length - (cstr s).length) 0

/-- What `if_nameindex` builds: the array, whose entries have the offsets of their names, and the memory of the names
down to `namptr`. -/
structure NameIndex where
  entries : List (UInt32 × Nat)
  mem : Nat → UInt8
  namptr : Nat

/-- The body of its loop, lines 33–38. -/
def addName (mem : Nat → UInt8) (s : NameIndex) (sdl : Nat) : NameIndex ⊕ Unit :=
  if s.namptr < sdl_nlen mem sdl + 1 then .inr ()
  else
    let namptr := s.namptr - (sdl_nlen mem sdl + 1)
    .inl ⟨s.entries ++ [(sdl_index mem sdl, namptr)], overwrite s.mem namptr (strncpy (sdlName mem sdl) ++ [0]),
      namptr⟩

/-- `if_nameindex`, `src/libroute/if_nameindex.c:5–48`; none if it returns `NULL`. The parameters are what `sysctl`
answers, what `malloc` answers to a length of zero, and what the allocated memory was before. -/
def if_nameindex (ifData : Nat) (sysctl : UInt32 → Option Reply) (mallocZero : Bool) (fresh : Nat → UInt8) :
    Except Stop (Option NameIndex) :=
  match sysctl 0 with
  | none => .ok none
  | some r =>
    if r.len = 0 ∧ mallocZero = false then .ok none
    else
      match forSdl ifData r (addName r.mem) ⟨[], fresh, r.len⟩ with
      | .error e => .error e
      | .ok (.inl s) => .ok (some s)
      | .ok (.inr _) => .error .undefined

/-- `if_nametoindex`, `src/libroute/if_nametoindex.c:5–40` -/
def if_nametoindex (ifData : Nat) (sysctl : UInt32 → Option Reply) (name : List UInt8) : Except Stop UInt32 :=
  match sysctl 0 with
  | none => .ok 0
  | some r =>
    let body (_ : Unit) (sdl : Nat) : Unit ⊕ UInt32 :=
      if sdl_nlen r.mem sdl = name.length ∧ cstr (sdlName r.mem sdl) = cstr (name.take (sdl_nlen r.mem sdl)) then
        .inr (sdl_index r.mem sdl)
      else .inl ()
    match forSdl ifData r body () with
    | .error e => .error e
    | .ok (.inl _) => .ok 0
    | .ok (.inr idx) => .ok idx

/-- `if_indextoname`, `src/libroute/if_indextoname.c:5–40`; none if it returns `NULL`. -/
def if_indextoname (ifData : Nat) (sysctl : UInt32 → Option Reply) (idx : UInt32) :
    Except Stop (Option (List UInt8)) :=
  match sysctl idx with
  | none => .ok none
  | some r =>
    let body (_ : Unit) (sdl : Nat) : Unit ⊕ List UInt8 :=
      if sdl_index r.mem sdl = idx then
        .inr (cstr (strncpy (bytesAt r.mem (sdl + sdlData) (min (IFNAMSIZ - 1) (sdl_nlen r.mem sdl)))))
      else .inl ()
    match forSdl ifData r body () with
    | .error e => .error e
    | .ok (.inl _) => .ok none
    | .ok (.inr name) => .ok (some name)

/-! ### Well-formed replies -/

/-- From an offset on messages with a length fill the buffer, and each `RTM_IFINFO` has a `struct sockaddr_dl` that
fits in it. -/
inductive Messages (ifData : Nat) (r : Reply) : Nat → List Nat → Prop
  | done : Messages ifData r r.len []
  | other {next : Nat} {sdls : List Nat} : 0 < ifm_msglen r.mem next → next + ifm_msglen r.mem next ≤ r.len →
      ifm_type r.mem next ≠ RTM_IFINFO → Messages ifData r (next + ifm_msglen r.mem next) sdls →
      Messages ifData r next sdls
  | ifinfo {next sdl : Nat} {sdls : List Nat} : 0 < ifm_msglen r.mem next →
      next + ifm_msglen r.mem next ≤ r.len → sdlOf ifData r.mem next = some sdl →
      sdl + sdlData + sdl_nlen r.mem sdl ≤ next + ifm_msglen r.mem next →
      Messages ifData r (next + ifm_msglen r.mem next) sdls → Messages ifData r next (sdl :: sdls)

/-- The index and the name of an interface. -/
abbrev Interface := UInt32 × List UInt8

/-- A reply with the messages of some interfaces, in this order. -/
structure WellFormed (ifData : Nat) (r : Reply) (ifs : List Interface) : Prop where
  messages : ∃ sdls, Messages ifData r 0 sdls ∧ ifs = sdls.map fun sdl ↦ (sdl_index r.mem sdl, sdlName r.mem sdl)
  names : ∀ i ∈ ifs, i.2.length ≤ IFNAMSIZ - 1 ∧ 0 ∉ i.2
  indexes : ∀ i ∈ ifs, i.1 ≠ 0
  nodup_names : (ifs.map Prod.snd).Nodup
  nodup_indexes : (ifs.map Prod.fst).Nodup

/-- `sysctl` with an index answers with the messages of that interface only. -/
def OnlyIndex (ifData : Nat) (sysctl : UInt32 → Option Reply) (ifs : List Interface) : Prop :=
  ∀ idx, idx ≠ 0 → (sysctl idx = none ∧ ∀ i ∈ ifs, i.1 ≠ idx) ∨
    ∃ r, sysctl idx = some r ∧ WellFormed ifData r (ifs.filter (·.1 = idx))

/-! ### What the functions are to return -/

/-- The array that ends before the names, and in `len` bytes has the interfaces. -/
structure NameIndex.Returns (s : NameIndex) (len : Nat) (ifs : List Interface) : Prop where
  entries : s.entries.map (fun e ↦ (e.1, stringAt 0 s.mem (len - e.2) e.2)) = ifs
  apart : sizeofNameindex * (s.entries.length + 1) ≤ s.namptr
  names : ∀ e ∈ s.entries, s.namptr ≤ e.2 ∧ e.2 + (stringAt 0 s.mem (len - e.2) e.2).length + 1 ≤ len

/-- The three functions agree on the interfaces. -/
structure Agree (ifData : Nat) (sysctl : UInt32 → Option Reply) (mallocZero : Bool) (fresh : Nat → UInt8) (len : Nat)
    (ifs : List Interface) : Prop where
  nameindex : ∃ s, if_nameindex ifData sysctl mallocZero fresh = .ok (some s) ∧ s.Returns len ifs
  nametoindex : ∀ i ∈ ifs, if_nametoindex ifData sysctl i.2 = .ok i.1
  nametoindex_other : ∀ name, 0 ∉ name → (∀ i ∈ ifs, i.2 ≠ name) → if_nametoindex ifData sysctl name = .ok 0
  indextoname : ∀ i ∈ ifs, if_indextoname ifData sysctl i.1 = .ok (some i.2)
  indextoname_other : ∀ idx, (∀ i ∈ ifs, i.1 ≠ idx) → if_indextoname ifData sysctl idx = .ok none

/-! ### The walk over a well-formed reply -/

section Walk
variable {ifData : Nat} {r : Reply} {next fuel : Nat} {sdls : List Nat} {body : σ → Nat → σ ⊕ ρ}

/-- The body over the socket addresses there are. -/
def runBody (body : σ → Nat → σ ⊕ ρ) : σ → List Nat → σ ⊕ ρ
  | s, [] => .inl s
  | s, sdl :: sdls =>
    match body s sdl with
    | .inl s => runBody body s sdls
    | .inr a => .inr a

theorem Messages.le (h : Messages ifData r next sdls) : next ≤ r.len := by
  cases h with
  | done => exact Nat.le_refl _
  | other hpos hle _ _ => omega
  | ifinfo hpos hle _ _ _ => omega

theorem Messages.walk_eq (h : Messages ifData r next sdls) (hfuel : r.len < next + fuel) (s : σ) :
    walk ifData r body fuel next s = .ok (runBody body s sdls) := by
  induction h generalizing fuel s with
  | done =>
    cases fuel with
    | zero => omega
    | succ fuel => exact if_neg (Nat.lt_irrefl _)
  | @other next sdls hpos hle htype hrest ih =>
    cases fuel with
    | zero => omega
    | succ fuel =>
      have hnone : sdlOf ifData r.mem next = none := if_neg htype
      rw [walk, if_pos (by omega), hnone]
      exact ih (by omega) s
  | @ifinfo next sdl sdls hpos hle hsdl hfit hrest ih =>
    cases fuel with
    | zero => omega
    | succ fuel =>
      rw [walk, if_pos (by omega), hsdl, runBody]
      change (match body s sdl with | .inl s => _ | .inr a => _) = _
      cases body s sdl with
      | inl s => exact ih (by omega) s
      | inr a => rfl

/-- A body that returns at the first socket address with a property. -/
theorem runBody_first {p : Nat → Prop} [DecidablePred p] {f : Nat → ρ} {sdl : Nat} (hmem : sdl ∈ sdls) (hp : p sdl)
    (hsame : ∀ sdl' ∈ sdls, p sdl' → f sdl' = f sdl) :
    runBody (fun (_ : Unit) sdl ↦ if p sdl then .inr (f sdl) else .inl ()) () sdls = .inr (f sdl) := by
  induction sdls with
  | nil => exact absurd hmem List.not_mem_nil
  | cons sdl' sdls ih =>
    rw [runBody]
    by_cases hp' : p sdl'
    · rw [if_pos hp', hsame sdl' List.mem_cons_self hp']
    · rw [if_neg hp']
      have hne : sdl ≠ sdl' := fun heq ↦ hp' (heq ▸ hp)
      exact ih (List.mem_of_ne_of_mem hne hmem) fun sdl'' h ↦ hsame sdl'' (List.mem_cons_of_mem _ h)

theorem runBody_none {p : Nat → Prop} [DecidablePred p] {f : Nat → ρ} (hnone : ∀ sdl ∈ sdls, ¬ p sdl) :
    runBody (fun (_ : Unit) sdl ↦ if p sdl then .inr (f sdl) else .inl ()) () sdls = .inl () := by
  induction sdls with
  | nil => rfl
  | cons sdl sdls ih =>
    rw [runBody, if_neg (hnone sdl List.mem_cons_self)]
    exact ih fun sdl' h ↦ hnone sdl' (List.mem_cons_of_mem _ h)

/-! ### The space in a reply -/

private theorem rtaddrs_ge {mem : Nat → UInt8} {addrs : UInt32} {is : List Nat} {sa a : Nat}
    (h : some a ∈ rtaddrs mem addrs is sa) : sa ≤ a := by
  induction is generalizing sa with
  | nil => exact absurd h List.not_mem_nil
  | cons i is ih =>
    rw [rtaddrs] at h
    split at h
    · obtain heq | hrest := List.mem_cons.mp h
      · exact Nat.le_of_eq (Option.some.inj heq).symm
      · exact Nat.le_trans (Nat.le_add_right _ _) (ih hrest)
    · obtain heq | hrest := List.mem_cons.mp h
      · exact absurd heq (Option.some_ne_none a)
      · exact ih hrest

/-- The socket addresses stand behind the header. -/
theorem sdlOf_ge {mem : Nat → UInt8} {sdl : Nat} (h : sdlOf ifData mem next = some sdl) :
    next + sizeofMsghdr ifData ≤ sdl := by
  unfold sdlOf at h
  split at h
  · split at h
    · next sa hget =>
      have hsa : next + sizeofMsghdr ifData ≤ sa := rtaddrs_ge (List.mem_of_getElem? hget)
      split at h
      · exact Option.some.inj h ▸ hsa
      · cases h
    · cases h
  · cases h

/-- The bytes of the names, each with its terminator. -/
def namesLen (ifs : List Interface) : Nat := (ifs.map fun i ↦ i.2.length + 1).sum

theorem namesLen_append (ifs ifs' : List Interface) : namesLen (ifs ++ ifs') = namesLen ifs + namesLen ifs' := by
  unfold namesLen
  rw [List.map_append, List.sum_append_nat]

def interfaceAt (mem : Nat → UInt8) (sdl : Nat) : Interface := (sdl_index mem sdl, sdlName mem sdl)

/-- A message is longer than what its name and its entry will take. -/
theorem Messages.space (h : Messages ifData r next sdls) :
    next + (sizeofMsghdr ifData + 7) * sdls.length + namesLen (sdls.map (interfaceAt r.mem)) ≤ r.len := by
  induction h with
  | done => exact Nat.le_refl _
  | other hpos hle htype hrest ih => omega
  | @ifinfo next sdl sdls hpos hle hsdl hfit hrest ih =>
    have hge := sdlOf_ge hsdl
    have hname : (interfaceAt r.mem sdl).2.length = sdl_nlen r.mem sdl := length_bytesAt _ _ _
    have hnames : namesLen ((sdl :: sdls).map (interfaceAt r.mem)) =
        sdl_nlen r.mem sdl + 1 + namesLen (sdls.map (interfaceAt r.mem)) := by
      rw [← hname]
      rfl
    rw [hnames, List.length_cons, Nat.mul_succ]
    unfold sdlData at hfit
    omega

end Walk

/-! ### The names from the end of the memory -/

theorem cstr_eq {s : List UInt8} (hz : 0 ∉ s) : cstr s = s := by
  unfold cstr
  apply List.takeWhile_eq_self_iff.mpr
  intro b hb
  exact decide_eq_true fun heq ↦ hz (heq ▸ hb)

theorem strncpy_eq {s : List UInt8} (hz : 0 ∉ s) : strncpy s = s := by
  unfold strncpy
  rw [cstr_eq hz, Nat.sub_self, List.replicate_zero, List.append_nil]

/-- A string of the memory between two offsets, with its terminator. -/
structure Stored (s : NameIndex) (len : Nat) (e : UInt32 × Nat) (i : Interface) : Prop where
  index : e.1 = i.1
  noZero : 0 ∉ i.2
  ge : s.namptr ≤ e.2
  le : e.2 + i.2.length + 1 ≤ len
  held : HasBytes s.mem e.2 (i.2 ++ [0])

/-- The entries of the interfaces up to now, whose names take the memory from `namptr` on. -/
structure Holds (s : NameIndex) (len : Nat) (ifs : List Interface) : Prop where
  entries : List.Forall₂ (Stored s len) s.entries ifs
  namptr : s.namptr + namesLen ifs = len

section Names
variable {mem : Nat → UInt8} {s : NameIndex} {len sdl : Nat} {ifs : List Interface} {sdls : List Nat}

/-- One more name stands before the others and leaves them as they are. -/
theorem Holds.addName (h : Holds s len ifs) (hz : 0 ∉ sdlName mem sdl) (hroom : sdl_nlen mem sdl + 1 ≤ s.namptr) :
    ∃ s', addName mem s sdl = .inl s' ∧ Holds s' len (ifs ++ [interfaceAt mem sdl]) := by
  have hlen : (sdlName mem sdl).length = sdl_nlen mem sdl := length_bytesAt _ _ _
  have hnamptr := h.namptr
  refine ⟨_, if_neg (Nat.not_lt.mpr hroom), ?_, ?_⟩
  · rw [strncpy_eq hz]
    apply List.rel_append
    · apply h.entries.imp
      intro e i hstored
      refine ⟨hstored.index, hstored.noZero, Nat.le_trans (Nat.sub_le _ _) hstored.ge, hstored.le, ?_⟩
      apply hstored.held.overwrite_ahead
      have hge := hstored.ge
      rw [List.length_append, hlen, List.length_singleton]
      omega
    · refine List.Forall₂.cons ⟨rfl, hz, Nat.le_refl _, ?_, hasBytes_overwrite _ _ _⟩ List.Forall₂.nil
      change _ + (sdlName mem sdl).length + 1 ≤ len
      rw [hlen]
      omega
  · have hname : namesLen [interfaceAt mem sdl] = sdl_nlen mem sdl + 1 := by
      rw [← hlen]
      rfl
    rw [namesLen_append, hname]
    change s.namptr - (sdl_nlen mem sdl + 1) + _ = len
    omega

theorem Holds.run (h : Holds s len ifs) (hz : ∀ sdl ∈ sdls, 0 ∉ sdlName mem sdl)
    (hroom : namesLen (sdls.map (interfaceAt mem)) ≤ s.namptr) :
    ∃ s', runBody (Libroute.addName mem) s sdls = .inl s' ∧ Holds s' len (ifs ++ sdls.map (interfaceAt mem)) := by
  induction sdls generalizing s ifs with
  | nil => exact ⟨s, rfl, by rwa [List.map_nil, List.append_nil]⟩
  | cons sdl sdls ih =>
    have hlen : (sdlName mem sdl).length = sdl_nlen mem sdl := length_bytesAt _ _ _
    have hnames : namesLen ((sdl :: sdls).map (interfaceAt mem)) =
        sdl_nlen mem sdl + 1 + namesLen (sdls.map (interfaceAt mem)) := by
      rw [← hlen]
      rfl
    obtain ⟨s', hadd, hs'⟩ := h.addName (hz sdl List.mem_cons_self) (by omega)
    have hleft : s'.namptr + (sdl_nlen mem sdl + 1) = s.namptr := by
      have hone : namesLen [interfaceAt mem sdl] = sdl_nlen mem sdl + 1 := by
        rw [← hlen]
        rfl
      have hn := h.namptr
      have hn' := hs'.namptr
      rw [namesLen_append, hone] at hn'
      omega
    obtain ⟨s'', hrun, hs''⟩ := ih hs' (fun sdl' hm ↦ hz sdl' (List.mem_cons_of_mem _ hm)) (by omega)
    refine ⟨s'', ?_, ?_⟩
    · rw [runBody, hadd]
      exact hrun
    · rwa [List.append_assoc] at hs''

private theorem Stored.name_eq {e : UInt32 × Nat} {i : Interface} (h : Stored s len e i) :
    stringAt 0 s.mem (len - e.2) e.2 = i.2 := by
  have hle := h.le
  exact h.held.stringAt h.noZero (by omega)

private theorem entries_eq {es : List (UInt32 × Nat)} (h : List.Forall₂ (Stored s len) es ifs) :
    es.map (fun e ↦ (e.1, stringAt 0 s.mem (len - e.2) e.2)) = ifs := by
  induction h with
  | nil => rfl
  | cons hstored _ ih => rw [List.map_cons, ih, hstored.name_eq, hstored.index]

private theorem entries_within {es : List (UInt32 × Nat)} (h : List.Forall₂ (Stored s len) es ifs) :
    ∀ e ∈ es, s.namptr ≤ e.2 ∧ e.2 + (stringAt 0 s.mem (len - e.2) e.2).length + 1 ≤ len := by
  induction h with
  | nil => exact fun e he ↦ absurd he List.not_mem_nil
  | cons hstored _ ih =>
    rw [List.forall_mem_cons]
    refine ⟨⟨hstored.ge, ?_⟩, ih⟩
    rw [hstored.name_eq]
    exact hstored.le

/-- What is held is returned, if the array ends before the names. -/
theorem Holds.returns (h : Holds s len ifs) (hapart : sizeofNameindex * (ifs.length + 1) ≤ s.namptr) :
    s.Returns len ifs := by
  refine ⟨entries_eq h.entries, ?_, entries_within h.entries⟩
  rw [h.entries.length_eq]
  exact hapart

end Names

/-! ### The three functions on a well-formed reply -/

section Agreement
variable {ifData : Nat} {sysctl : UInt32 → Option Reply} {mallocZero : Bool} {fresh : Nat → UInt8} {r : Reply}
  {ifs : List Interface} {idx : UInt32} {name : List UInt8}

/-- The offsets of the socket addresses, and what any of the loops does over them. -/
theorem WellFormed.forSdl_eq (h : WellFormed ifData r ifs) :
    ∃ sdls, Messages ifData r 0 sdls ∧ ifs = sdls.map (interfaceAt r.mem) ∧
      ∀ {σ ρ : Type} (body : σ → Nat → σ ⊕ ρ) (s : σ), forSdl ifData r body s = .ok (runBody body s sdls) := by
  obtain ⟨sdls, hmessages, hifs⟩ := h.messages
  refine ⟨sdls, hmessages, hifs, ?_⟩
  intro σ ρ body s
  exact hmessages.walk_eq (by omega) s

private theorem if_nameindex_holds (fresh : Nat → UInt8) (hsys : sysctl 0 = some r) (h : WellFormed ifData r ifs)
    (hzero : ¬ (r.len = 0 ∧ mallocZero = false)) :
    ∃ s, if_nameindex ifData sysctl mallocZero fresh = .ok (some s) ∧ Holds s r.len ifs := by
  obtain ⟨sdls, hmessages, hifs, hloop⟩ := h.forSdl_eq
  have hspace := hmessages.space
  have hz : ∀ sdl ∈ sdls, 0 ∉ sdlName r.mem sdl := by
    intro sdl hm
    exact (h.names (interfaceAt r.mem sdl) (hifs ▸ List.mem_map_of_mem hm)).2
  have hstart : Holds ⟨[], fresh, r.len⟩ r.len [] := ⟨List.Forall₂.nil, rfl⟩
  obtain ⟨s, hrun, hs⟩ := hstart.run hz (show _ ≤ r.len by omega)
  refine ⟨s, ?_, hifs ▸ hs⟩
  rw [if_nameindex, hsys]
  change (if _ then _ else _) = _
  rw [if_neg hzero, hloop, hrun]

/-- All messages are longer than their entries and names, and the terminator takes what is left of the first. -/
private theorem apart_of (hdata : 9 ≤ ifData) (h : WellFormed ifData r ifs) (hlen : sizeofNameindex ≤ r.len)
    {namptr : Nat} (hnamptr : namptr + namesLen ifs = r.len) : sizeofNameindex * (ifs.length + 1) ≤ namptr := by
  obtain ⟨sdls, hmessages, rfl, -⟩ := h.forSdl_eq
  have hspace := hmessages.space
  unfold sizeofMsghdr at hspace
  unfold sizeofNameindex at hlen ⊢
  rw [List.length_map]
  cases sdls with
  | nil =>
    change namptr + 0 = r.len at hnamptr
    change 16 * 1 ≤ namptr
    omega
  | cons sdl sdls =>
    rw [List.length_cons] at hspace ⊢
    have hmul : 32 * (sdls.length + 1) ≤ (16 + ifData + 7) * (sdls.length + 1) :=
      Nat.mul_le_mul_right _ (by omega)
    omega

private theorem eq_of_name (h : WellFormed ifData r ifs) {i i' : Interface} (hi : i ∈ ifs) (hi' : i' ∈ ifs)
    (heq : i.2 = i'.2) : i = i' := List.inj_on_of_nodup_map h.nodup_names hi hi' heq

private theorem eq_of_index (h : WellFormed ifData r ifs) {i i' : Interface} (hi : i ∈ ifs) (hi' : i' ∈ ifs)
    (heq : i.1 = i'.1) : i = i' := List.inj_on_of_nodup_map h.nodup_indexes hi hi' heq

/-- What `if_nametoindex` compares, for a name that has no zero. -/
private theorem matches_iff {mem : Nat → UInt8} {sdl : Nat} (hz : 0 ∉ sdlName mem sdl) (hname : 0 ∉ name) :
    (sdl_nlen mem sdl = name.length ∧ cstr (sdlName mem sdl) = cstr (name.take (sdl_nlen mem sdl))) ↔
      sdlName mem sdl = name := by
  have hlen : (sdlName mem sdl).length = sdl_nlen mem sdl := length_bytesAt _ _ _
  rw [cstr_eq hz, cstr_eq fun hmem ↦ hname (List.mem_of_mem_take hmem)]
  constructor
  · rintro ⟨heq, hcmp⟩
    rw [hcmp, heq, List.take_length]
  · rintro rfl
    refine ⟨hlen.symm, ?_⟩
    rw [← hlen, List.take_length]

private theorem if_nametoindex_mem (hsys : sysctl 0 = some r) (h : WellFormed ifData r ifs) {i : Interface}
    (hi : i ∈ ifs) : if_nametoindex ifData sysctl i.2 = .ok i.1 := by
  obtain ⟨sdls, -, hifs, hloop⟩ := h.forSdl_eq
  have hmem : ∀ sdl ∈ sdls, interfaceAt r.mem sdl ∈ ifs := fun sdl hm ↦ hifs ▸ List.mem_map_of_mem hm
  have hz : ∀ sdl ∈ sdls, 0 ∉ sdlName r.mem sdl := fun sdl hm ↦ (h.names _ (hmem sdl hm)).2
  obtain ⟨sdl, hsdl, rfl⟩ := List.mem_map.mp (hifs ▸ hi)
  have hsame : ∀ sdl' ∈ sdls, sdl_nlen r.mem sdl' = (sdlName r.mem sdl).length ∧
      cstr (sdlName r.mem sdl') = cstr ((sdlName r.mem sdl).take (sdl_nlen r.mem sdl')) →
      sdl_index r.mem sdl' = sdl_index r.mem sdl := by
    intro sdl' hm hp
    have hname := (matches_iff (hz sdl' hm) (hz sdl hsdl)).mp hp
    exact congrArg Prod.fst (eq_of_name h (hmem sdl' hm) (hmem sdl hsdl) hname)
  have hfirst := runBody_first hsdl ((matches_iff (hz sdl hsdl) (hz sdl hsdl)).mpr rfl) hsame
  change if_nametoindex ifData sysctl (sdlName r.mem sdl) = .ok (sdl_index r.mem sdl)
  simp only [if_nametoindex, hsys, hloop]
  rw [hfirst]

private theorem if_nametoindex_other (hsys : sysctl 0 = some r) (h : WellFormed ifData r ifs) (hname : 0 ∉ name)
    (hother : ∀ i ∈ ifs, i.2 ≠ name) : if_nametoindex ifData sysctl name = .ok 0 := by
  obtain ⟨sdls, -, hifs, hloop⟩ := h.forSdl_eq
  have hnone : ∀ sdl ∈ sdls, ¬ (sdl_nlen r.mem sdl = name.length ∧
      cstr (sdlName r.mem sdl) = cstr (name.take (sdl_nlen r.mem sdl))) := by
    intro sdl hm hp
    have hmem : interfaceAt r.mem sdl ∈ ifs := hifs ▸ List.mem_map_of_mem hm
    exact hother _ hmem ((matches_iff (h.names _ hmem).2 hname).mp hp)
  simp only [if_nametoindex, hsys, hloop]
  rw [runBody_none hnone]

/-- The name that `if_indextoname` copies. -/
private theorem copied_eq {mem : Nat → UInt8} {sdl : Nat} (hlen : (sdlName mem sdl).length ≤ IFNAMSIZ - 1)
    (hz : 0 ∉ sdlName mem sdl) :
    cstr (strncpy (bytesAt mem (sdl + sdlData) (min (IFNAMSIZ - 1) (sdl_nlen mem sdl)))) = sdlName mem sdl := by
  have hnlen : (sdlName mem sdl).length = sdl_nlen mem sdl := length_bytesAt _ _ _
  rw [Nat.min_eq_right (hnlen ▸ hlen)]
  change cstr (strncpy (sdlName mem sdl)) = _
  rw [strncpy_eq hz, cstr_eq hz]

private theorem if_indextoname_mem (hsys : sysctl idx = some r) (h : WellFormed ifData r ifs) {i : Interface}
    (hi : i ∈ ifs) (hidx : i.1 = idx) : if_indextoname ifData sysctl idx = .ok (some i.2) := by
  obtain ⟨sdls, -, hifs, hloop⟩ := h.forSdl_eq
  have hmem : ∀ sdl ∈ sdls, interfaceAt r.mem sdl ∈ ifs := fun sdl hm ↦ hifs ▸ List.mem_map_of_mem hm
  obtain ⟨sdl, hsdl, rfl⟩ := List.mem_map.mp (hifs ▸ hi)
  have hfirst := runBody_first (p := fun sdl' ↦ sdl_index r.mem sdl' = idx)
    (f := fun sdl' ↦ cstr (strncpy (bytesAt r.mem (sdl' + sdlData) (min (IFNAMSIZ - 1) (sdl_nlen r.mem sdl')))))
    hsdl hidx (by
      intro sdl' hm hp
      have heq : interfaceAt r.mem sdl' = interfaceAt r.mem sdl :=
        eq_of_index h (hmem sdl' hm) (hmem sdl hsdl) (hp.trans hidx.symm)
      rw [copied_eq (h.names _ (hmem sdl' hm)).1 (h.names _ (hmem sdl' hm)).2,
        copied_eq (h.names _ (hmem sdl hsdl)).1 (h.names _ (hmem sdl hsdl)).2]
      exact congrArg Prod.snd heq)
  simp only [if_indextoname, hsys, hloop]
  rw [hfirst, copied_eq (h.names _ (hmem sdl hsdl)).1 (h.names _ (hmem sdl hsdl)).2]
  rfl

private theorem if_indextoname_other (hsys : sysctl idx = some r) (h : WellFormed ifData r ifs)
    (hother : ∀ i ∈ ifs, i.1 ≠ idx) : if_indextoname ifData sysctl idx = .ok none := by
  obtain ⟨sdls, -, hifs, hloop⟩ := h.forSdl_eq
  have hnone : ∀ sdl ∈ sdls, ¬ sdl_index r.mem sdl = idx := fun sdl hm ↦
    hother (interfaceAt r.mem sdl) (hifs ▸ List.mem_map_of_mem hm)
  simp only [if_indextoname, hsys, hloop]
  rw [runBody_none hnone]

private theorem room_of_agree (hsys : sysctl 0 = some r) (h : WellFormed ifData r ifs)
    (hagree : Agree ifData sysctl mallocZero fresh r.len ifs) : sizeofNameindex ≤ r.len := by
  obtain ⟨s, hs, hreturns⟩ := hagree.nameindex
  have hzero : ¬ (r.len = 0 ∧ mallocZero = false) := by
    intro hnone
    rw [if_nameindex, hsys] at hs
    change (if _ then _ else _) = _ at hs
    rw [if_pos hnone] at hs
    cases hs
  obtain ⟨s', hs', hholds⟩ := if_nameindex_holds fresh hsys h hzero
  obtain rfl : s = s' := Option.some.inj (Except.ok.inj (hs.symm.trans hs'))
  -- The terminator stands before the names, and these begin in the memory.
  have hapart := hreturns.apart
  have hnamptr := hholds.namptr
  rw [Nat.mul_succ] at hapart
  omega

/-- The three functions agree exactly if the array has room for its terminator, as it has with any interface. -/
theorem if_names_agree_iff (hdata : 9 ≤ ifData) (hsys : sysctl 0 = some r) (h : WellFormed ifData r ifs)
    (honly : OnlyIndex ifData sysctl ifs) :
    Agree ifData sysctl mallocZero fresh r.len ifs ↔ sizeofNameindex ≤ r.len := by
  refine ⟨room_of_agree hsys h, ?_⟩
  intro hlen
  have hzero : ¬ (r.len = 0 ∧ mallocZero = false) := by
    rintro ⟨hnone, -⟩
    rw [hnone] at hlen
    exact absurd hlen (by decide)
  obtain ⟨s, hs, hholds⟩ := if_nameindex_holds fresh hsys h hzero
  refine ⟨⟨s, hs, hholds.returns (apart_of hdata h hlen hholds.namptr)⟩, fun i ↦ if_nametoindex_mem hsys h,
    fun name ↦ if_nametoindex_other hsys h, ?_, ?_⟩
  · intro i hi
    obtain ⟨-, hnone⟩ | ⟨r', hsys', h'⟩ := honly i.1 (h.indexes i hi)
    · exact absurd rfl (hnone i hi)
    · exact if_indextoname_mem hsys' h' (List.mem_filter.mpr ⟨hi, decide_eq_true rfl⟩) rfl
  · intro idx hother
    by_cases hidx : idx = 0
    · subst hidx
      exact if_indextoname_other hsys h hother
    · obtain ⟨hsys', -⟩ | ⟨r', hsys', h'⟩ := honly idx hidx
      · simp only [if_indextoname, hsys']
      · exact if_indextoname_other hsys' h' fun i hi ↦ hother i (List.mem_filter.mp hi).1

end Agreement

/-- The one message of the interface `lo0`, with 152 bytes of `struct if_data`. -/
def lo0 : Reply where
  mem i :=
    let bytes : List UInt8 := [192, 0, 5, 14, 16, 0, 0, 0, 0x49, 0, 0, 0, 1, 0, 0, 0] ++ List.replicate 152 0 ++
      [20, 18, 1, 0, 24, 3, 0, 0, 108, 111, 48] ++ List.replicate 13 0
    bytes.getD i 0
  len := 192

def sysctl_lo0 (idx : UInt32) : Option Reply := if idx = 0 ∨ idx = 1 then some lo0 else none

private theorem wellFormed_lo0 : WellFormed 152 lo0 [(1, [108, 111, 48])] := by
  refine ⟨⟨[168], ?_, by decide +kernel⟩, by decide, by decide, by decide, by decide⟩
  exact .ifinfo (by decide +kernel) (by decide +kernel) (by decide +kernel) (by decide +kernel)
    (show Messages 152 lo0 lo0.len [] from .done)

private theorem onlyIndex_lo0 : OnlyIndex 152 sysctl_lo0 [(1, [108, 111, 48])] := by
  intro idx hidx
  by_cases hone : idx = 1
  · subst hone
    exact .inr ⟨lo0, rfl, wellFormed_lo0⟩
  · refine .inl ⟨if_neg fun h ↦ h.elim hidx hone, ?_⟩
    intro i hi
    rw [List.mem_singleton.mp hi]
    exact fun heq ↦ hone heq.symm

theorem if_names_agree_lo0 :
    Agree 152 sysctl_lo0 true (fun _ ↦ 0) lo0.len [(1, [108, 111, 48])] ↔ sizeofNameindex ≤ lo0.len :=
  if_names_agree_iff (by decide) rfl wellFormed_lo0 onlyIndex_lo0

/-- The reply of a system without interfaces. -/
def noReply : Reply := ⟨fun _ ↦ 0, 0⟩

def sysctl_none (idx : UInt32) : Option Reply := if idx = 0 then some noReply else none

private theorem wellFormed_none : WellFormed 152 noReply [] :=
  ⟨⟨[], .done, rfl⟩, by decide, by decide, by decide, by decide⟩

/-- Without an interface the terminator is written outside the memory. -/
theorem if_names_agree_none :
    WellFormed 152 noReply [] ∧ OnlyIndex 152 sysctl_none [] ∧
      ¬ Agree 152 sysctl_none true (fun _ ↦ 0) noReply.len [] := by
  refine ⟨wellFormed_none, ?_, ?_⟩
  · intro idx hidx
    exact .inl ⟨if_neg hidx, fun i hi ↦ absurd hi List.not_mem_nil⟩
  · intro hagree
    exact absurd (room_of_agree rfl wellFormed_none hagree) (by decide)

end Unpv13e.Libroute
