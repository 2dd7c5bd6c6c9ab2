import Unpv13e.Libgai.Ports

/-!
# A look up and its memory

Library `Libfree`. `getaddrinfo` and `freeaddrinfo` of `src/libfree`, with IPv4, IPv6 and the Unix domain compiled
in and without `REENTRANT`. The resolver, `inet_pton` and the allocations are parameters. A list of
`struct addrinfo` is a `List`, and each entry knows the blocks of memory it is made of.
-/

namespace Unpv13e.Libfree
open Unpv13e.Base Unpv13e.Libgai

/-! ### The memory of a call -/

/-- How many allocations there were in a call, and the blocks of those that succeeded. -/
structure Heap where
  tried : Nat
  blocks : List Nat
  lt : ∀ b ∈ blocks, b < tried
  nodup : blocks.Nodup

def Heap.empty : Heap := ⟨0, [], fun _ hb ↦ absurd hb List.not_mem_nil, List.nodup_nil⟩

/-- `calloc`, `malloc` or `strdup`: a block that is not allocated yet, or none for a null pointer. -/
def Heap.alloc (ok : Nat → Bool) (h : Heap) : Option Nat × Heap :=
  if ok h.tried then
    (some h.tried, {
      tried := h.tried + 1
      blocks := h.blocks ++ [h.tried]
      lt := by
        intro b hb
        obtain hold | hnew := List.mem_append.mp hb
        · exact Nat.lt_succ_of_lt (h.lt b hold)
        · exact Nat.lt_succ_of_le (Nat.le_of_eq (List.mem_singleton.mp hnew))
      nodup := by
        apply List.nodup_append.mpr ⟨h.nodup, List.nodup_singleton _, ?_⟩
        intro b hb b' hb'
        rw [List.mem_singleton.mp hb']
        exact Nat.ne_of_lt (h.lt b hb) })
  else
    (none, { h with
      tried := h.tried + 1
      lt := fun b hb ↦ Nat.lt_succ_of_lt (h.lt b hb) })

/-- `struct addrinfo`, its `ai_next` apart: the block it is in, and what stands in the block `ai_addr`. -/
structure Addrinfo where
  block : Nat
  ai_flags : UInt32
  ai_family : Family
  ai_socktype : Socktype
  ai_protocol : Int
  ai_addrlen : Nat
  ai_canonname : Option (Nat × Text)
  ai_addr : Option Nat
  sockaddr : Sockaddr

/-- What `freeaddrinfo` frees of one entry, lines 762–767. -/
def Addrinfo.blocks (ai : Addrinfo) : List Nat :=
  ai.ai_addr.toList ++ (ai.ai_canonname.map Prod.fst).toList ++ [ai.block]

/-- `freeaddrinfo`, `src/libfree/getaddrinfo.c:756–769`: the blocks it frees. -/
def freeaddrinfo (aihead : List Addrinfo) : List Nat := aihead.flatMap Addrinfo.blocks

/-- What the automatic variable `aihead` holds. -/
inductive Head
  | indeterminate
  | list (ais : List Addrinfo)

/-- A returned call: its code or 0, what it stores at `*result`, what it passes to `freeaddrinfo`, and the blocks
that it has allocated. -/
structure Outcome where
  rc : Option Eai
  result : Option (List Addrinfo)
  freed : Option Head
  blocks : List Nat

/-- The label `bad`, lines 433–435. -/
def bad (aihead : Head) (error : Eai) (h : Heap) : Outcome := ⟨some error, none, some aihead, h.blocks⟩

/-! ### The host -/

/-- `struct hostent` -/
structure Hostent where
  h_name : Option Text
  h_addrs : HostAddrs

def Hostent.h_addrtype (h : Hostent) : Family :=
  match h.h_addrs with
  | .inet _ => .afInet
  | .inet6 _ => .afInet6

def Hostent.h_addr_list (h : Hostent) : List Address :=
  match h.h_addrs with
  | .inet addrs => addrs.map .inet
  | .inet6 addrs => addrs.map .inet6

/-- What is called outside of the directory. The first argument of `gethostbyname` is the option `RES_USE_INET6`. -/
structure System where
  inet_pton4 : Text → Option InAddr
  inet_pton6 : Text → Option In6Addr
  gethostbyname : Bool → Text → Except HErrno Hostent
  getservbyname : Text → Text → Option UInt16

/-- `HENTBUFSIZ` -/
def HENTBUFSIZ : Nat := 8192

/-- The test before `inet_pton` for IPv6, line 477. -/
def maybeHex (host : Text) : Bool := isxdigit (charAt host 0) || charAt host 0 = ':'

/-- `getaddrinfo_host`, `src/libfree/getaddrinfo.c:442–531` -/
def getaddrinfo_host (sys : System) (host : Text) (family : Family) : Except Eai Hostent :=
  match if maybeDotted host then sys.inet_pton4 host else none with
  | some addr => .ok ⟨some (host.take (HENTBUFSIZ - 1)), .inet [addr]⟩
  | none =>
    match if maybeHex host then sys.inet_pton6 host else none with
    | some addr => .ok ⟨some (host.take (HENTBUFSIZ - 1)), .inet6 [addr]⟩
    | none =>
      match sys.gethostbyname (family = .afInet6) host with
      | .error e => .error e.eai
      | .ok h => .ok h

/-! ### The service -/

/-- `getaddrinfo_clone`, `src/libfree/getaddrinfo.c:689–711`: the entry it links behind `ai`, if there is one, and
whether it returns it. -/
def getaddrinfo_clone (ok : Nat → Bool) (ai : Addrinfo) (h : Heap) : Option Addrinfo × Bool × Heap :=
  match h.alloc ok with
  | (none, h) => (none, false, h)
  | (some b, h) =>
    let new := { ai with block := b, ai_flags := 0, ai_canonname := none, ai_addr := none }
    match h.alloc ok with
    | (none, h) => (some new, false, h)
    | (some sa, h) => (some { new with ai_addr := some sa }, true, h)

/-- Lines 665–680. -/
def setPort (port : UInt16) (socktype : Socktype) (ai : Addrinfo) : Addrinfo × Nat :=
  let ai := { ai with ai_socktype := socktype }
  match ai.sockaddr with
  | .inet sin => ({ ai with sockaddr := .inet { sin with sin_port := port } }, 1)
  | .inet6 sin6 => ({ ai with sockaddr := .inet6 { sin6 with sin6_port := port } }, 1)
  | _ => (ai, 0)

/-- `getaddrinfo_port`, `src/libfree/getaddrinfo.c:639–683`: its count, or none for −1, and the list. -/
def getaddrinfo_port (ok : Nat → Bool) (port : UInt16) (socktype : Socktype) :
    List Addrinfo → Heap → Option Nat × List Addrinfo × Heap
  | [], h => (some 0, [], h)
  | ai :: rest, h =>
    if hasFlag ai.ai_flags aiClone ∧ ai.ai_socktype ≠ .zero then
      match getaddrinfo_clone ok ai h with
      | (new, false, h) => (none, ai :: (new.toList ++ rest), h)
      | (new, true, h) =>
        let (nfound, rest', h) := getaddrinfo_port ok port socktype rest h
        let ported := new.toList.map (setPort port socktype)
        (nfound.map (· + (ported.map Prod.snd).sum), ai :: (ported.map Prod.fst ++ rest'), h)
    else if ¬ hasFlag ai.ai_flags aiClone ∧ ai.ai_socktype ≠ socktype then
      let (nfound, rest', h) := getaddrinfo_port ok port socktype rest h
      (nfound, ai :: rest', h)
    else
      let (nfound, rest', h) := getaddrinfo_port ok port socktype rest h
      let (ai', n) := setPort port socktype ai
      (nfound.map (· + n), ai' :: rest', h)

/-- Lines 570–581 and 587–598, for one protocol. -/
def servicePort (ok : Nat → Bool) (sys : System) (hints : Hints) (serv protocol : Text) (socktype : Socktype)
    (aihead : List Addrinfo) (h : Heap) : Option Nat × List Addrinfo × Heap :=
  if hints.ai_socktype = .zero ∨ hints.ai_socktype = socktype then
    match sys.getservbyname serv protocol with
    | none => (some 0, aihead, h)
    | some s_port => getaddrinfo_port ok s_port socktype aihead h
  else (some 0, aihead, h)

/-- `getaddrinfo_serv`, `src/libfree/getaddrinfo.c:537–611`: the code it returns, or none for 0, and the list. -/
def getaddrinfo_serv (ok : Nat → Bool) (sys : System) (hints : Hints) (serv : Text) (aihead : List Addrinfo)
    (h : Heap) : Option Eai × List Addrinfo × Heap :=
  if (charAt serv 0).isDigit ∧ hints.ai_socktype ≠ .zero then
    match getaddrinfo_port ok (portOf serv) hints.ai_socktype aihead h with
    | (some 0, aihead, h) => (some .noname, aihead, h)
    | (none, aihead, h) => (some .memory, aihead, h)
    | (some _, aihead, h) => (none, aihead, h)
  else
    match servicePort ok sys hints serv ['t', 'c', 'p'] .sockStream aihead h with
    | (none, aihead, h) => (some .memory, aihead, h)
    | (some tcp, aihead, h) =>
      match servicePort ok sys hints serv ['u', 'd', 'p'] .sockDgram aihead h with
      | (none, aihead, h) => (some .memory, aihead, h)
      | (some udp, aihead, h) =>
        if tcp + udp = 0 then
          if hints.ai_socktype = .zero then (some .noname, aihead, h) else (some .service, aihead, h)
        else (none, aihead, h)

/-! ### `getaddrinfo` -/

/-- Lines 177–218: the error of the hints, if there is one. -/
def checkHints (hints : Hints) : Option Eai :=
  if hints.ai_flags &&& ~~~(aiPassive ||| aiCanonname) ≠ 0 then some .badflags
  else if hints.ai_family = .afUnspec then none
  else
    match socktypes hints.ai_family with
    | none => some .family
    | some types => if hints.ai_socktype ∈ types then none else some .socktype

def anyHost4 : Text := ['0', '.', '0', '.', '0', '.', '0']
def anyHost6 : Text := ['0', ':', ':', '0']
def localhost : Text := ['l', 'o', 'c', 'a', 'l', 'h', 'o', 's', 't']

/-- Lines 220–283: the host that is looked up, and the family. -/
def hostOf (sys : System) (host serv : Option Text) (hints : Hints) : Except Eai (Option Text × Family) :=
  if isEmpty host then
    if isEmpty serv then .error .noname
    else if hasFlag hints.ai_flags aiPassive then
      match hints.ai_family with
      | .afInet => .ok (some anyHost4, .afInet)
      | .afInet6 => .ok (some anyHost6, .afInet6)
      | .afLocal =>
        if charAt (serv.getD []) 0 ≠ '/' then .error .addrfamily else .ok (host, .afLocal)
      | .afUnspec => .error .addrfamily
      | .other family => .ok (host, .other family)
    else .ok (some localhost, hints.ai_family)
  else if hints.ai_family = .afUnspec then
    let host' := host.getD []
    let family := if (sys.inet_pton4 host').isSome then .afInet else .afUnspec
    .ok (host, if (sys.inet_pton6 host').isSome then .afInet6 else family)
  else .ok (host, hints.ai_family)

/-- The path of a Unix domain socket, lines 300–304. -/
def localPath (host serv : Option Text) : Option Text :=
  if charAt (host.getD []) 0 = '/' then host
  else if charAt (serv.getD []) 0 = '/' then serv
  else none

/-- `addrinfo_local`, `src/libfree/getaddrinfo.c:719–753`. It frees nothing. -/
def addrinfo_local (ok : Nat → Bool) (path : Text) (hints : Hints) : Outcome :=
  if hints.ai_socktype = .zero then ⟨some .socktype, none, none, []⟩
  else
    match Heap.empty.alloc ok with
    -- `return(NULL)`, which is 0
    | (none, h) => ⟨none, none, none, h.blocks⟩
    | (some b, h) =>
      match h.alloc ok with
      | (none, h) => ⟨some .memory, none, none, h.blocks⟩
      | (some sa, h) =>
        let ai : Addrinfo := ⟨b, 0, .afLocal, hints.ai_socktype, 0, 110, none, some sa, .unix ⟨path.take sunPathSize⟩⟩
        ⟨none, some [ai], none, h.blocks⟩

/-- The length of a socket address. -/
def addrlen : Address → Nat
  | .inet _ => 16
  | .inet6 _ => 28
  | .path _ => 0

/-- The loop over the addresses, lines 352–398: whether it ends, and the entries it has linked. -/
def addAddresses (ok : Nat → Bool) (hints : Hints) : List Address → Heap → Bool × List Addrinfo × Heap
  | [], h => (true, [], h)
  | ap :: rest, h =>
    match h.alloc ok with
    | (none, h) => (false, [], h)
    | (some b, h) =>
      let ai_flags := if hints.ai_socktype = .zero then aiClone else 0
      let ai : Addrinfo :=
        ⟨b, ai_flags, ap.family, hints.ai_socktype, hints.ai_protocol, 0, none, none, ap.sockaddr 0⟩
      match h.alloc ok with
      | (none, h) => (false, [ai], h)
      | (some sa, h) =>
        let (ended, ais, h) := addAddresses ok hints rest h
        (ended, { ai with ai_addr := some sa, ai_addrlen := addrlen ap } :: ais, h)

/-- Lines 419–431. -/
def lookUpService (ok : Nat → Bool) (sys : System) (hints : Hints) (serv : Option Text) (aihead : List Addrinfo)
    (h : Heap) : Outcome :=
  if isEmpty serv then ⟨none, some aihead, none, h.blocks⟩
  else
    match getaddrinfo_serv ok sys hints (serv.getD []) aihead h with
    | (some rc, aihead, h) => bad (.list aihead) rc h
    | (none, aihead, h) => ⟨none, some aihead, none, h.blocks⟩

/-- Lines 350–435, once `aihead` is initialised; none if a null pointer is dereferenced. -/
def makeList (ok : Nat → Bool) (sys : System) (hints : Hints) (host : Text) (serv : Option Text) (hptr : Hostent) :
    Option Outcome :=
  match addAddresses ok hints hptr.h_addr_list Heap.empty with
  | (false, aihead, h) => some (bad (.list aihead) .memory h)
  | (true, aihead, h) =>
    if hasFlag hints.ai_flags aiCanonname then
      match aihead with
      | [] => none
      | ai :: ais =>
        match h.alloc ok with
        | (none, h) => some (bad (.list (ai :: ais)) .memory h)
        | (some b, h) =>
          let ai := { ai with ai_canonname := some (b, hptr.h_name.getD host) }
          some (lookUpService ok sys hints serv (ai :: ais) h)
    else some (lookUpService ok sys hints serv aihead h)

/-- `getaddrinfo`, `src/libfree/getaddrinfo.c:136–436`; none if a null pointer is dereferenced. -/
def getaddrinfo (ok : Nat → Bool) (sys : System) (host serv : Option Text) (hintsptr : Option Hints) :
    Option Outcome :=
  let hints := hintsptr.getD .zero
  match checkHints hints with
  | some error => some (bad .indeterminate error Heap.empty)
  | none =>
    match hostOf sys host serv hints with
    | .error error => some (bad .indeterminate error Heap.empty)
    | .ok (host, family) =>
      let hints := { hints with ai_family := family }
      match localPath host serv with
      | some path => some (addrinfo_local ok path hints)
      | none =>
        match getaddrinfo_host sys (host.getD []) family with
        | .error rc => some (bad .indeterminate rc Heap.empty)
        | .ok hptr =>
          if family ≠ .afUnspec ∧ family ≠ hptr.h_addrtype then some (bad .indeterminate .addrfamily Heap.empty)
          else makeList ok sys hints (host.getD []) serv hptr

/-! ### What is freed -/

/-- What is passed to `freeaddrinfo` is the list of the entries, whose blocks are those that the call has allocated,
each of them once; and nothing is stored with an error. -/
structure Outcome.CleansUp (o : Outcome) : Prop where
  freed : ∀ aihead, o.freed = some aihead →
    ∃ ais, aihead = .list ais ∧ (freeaddrinfo ais).Perm o.blocks ∧ (freeaddrinfo ais).Nodup
  result : o.rc ≠ none → o.result = none

/-- From a list and a memory to others: the blocks that are allocated in between are in the list. -/
def Grows (ais : List Addrinfo) (h : Heap) (ais' : List Addrinfo) (h' : Heap) : Prop :=
  ∃ new, h'.blocks = h.blocks ++ new ∧ (freeaddrinfo ais').Perm (freeaddrinfo ais ++ new)

section Lists
variable {ok : Nat → Bool} {sys : System} {ais ais' ais₁ ais₁' ais₂ ais₂' : List Addrinfo} {h h₁ h₂ : Heap}
  {ai ai' : Addrinfo} {b : Nat}

theorem Heap.alloc_some (halloc : h.alloc ok = (some b, h₁)) : h₁.blocks = h.blocks ++ [b] := by
  unfold Heap.alloc at halloc
  split at halloc
  · cases halloc
    rfl
  · cases halloc

theorem Heap.alloc_none (halloc : h.alloc ok = (none, h₁)) : h₁.blocks = h.blocks := by
  unfold Heap.alloc at halloc
  split at halloc
  · cases halloc
  · cases halloc
    rfl

theorem freeaddrinfo_append (ais ais' : List Addrinfo) :
    freeaddrinfo (ais ++ ais') = freeaddrinfo ais ++ freeaddrinfo ais' := List.flatMap_append

theorem freeaddrinfo_cons (ai : Addrinfo) (ais : List Addrinfo) :
    freeaddrinfo (ai :: ais) = ai.blocks ++ freeaddrinfo ais := List.flatMap_cons

theorem freeaddrinfo_singleton (ai : Addrinfo) : freeaddrinfo [ai] = ai.blocks := List.flatMap_singleton _ _

theorem Grows.refl (ais : List Addrinfo) (h : Heap) : Grows ais h ais h :=
  ⟨[], (List.append_nil _).symm, by rw [List.append_nil]⟩

/-- An allocation that fails changes nothing. -/
theorem Grows.of_none (halloc : h.alloc ok = (none, h₁)) : Grows ais h ais h₁ :=
  ⟨[], by rw [Heap.alloc_none halloc, List.append_nil], by rw [List.append_nil]⟩

theorem Grows.trans (hfirst : Grows ais h ais₁ h₁) (hsecond : Grows ais₁ h₁ ais₂ h₂) : Grows ais h ais₂ h₂ := by
  obtain ⟨new, hblocks, hperm⟩ := hfirst
  obtain ⟨new', hblocks', hperm'⟩ := hsecond
  refine ⟨new ++ new', ?_, ?_⟩
  · rw [hblocks', hblocks, List.append_assoc]
  · rw [← List.append_assoc]
    exact hperm'.trans (hperm.append_right new')

/-- Two parts of a list grow one after the other. -/
theorem Grows.append (hfirst : Grows ais₁ h ais₁' h₁) (hsecond : Grows ais₂ h₁ ais₂' h₂) :
    Grows (ais₁ ++ ais₂) h (ais₁' ++ ais₂') h₂ := by
  obtain ⟨new, hblocks, hperm⟩ := hfirst
  obtain ⟨new', hblocks', hperm'⟩ := hsecond
  refine ⟨new ++ new', ?_, ?_⟩
  · rw [hblocks', hblocks, List.append_assoc]
  · rw [freeaddrinfo_append, freeaddrinfo_append]
    apply (hperm.append hperm').trans
    apply List.perm_iff_count.mpr
    intro b
    simp only [List.count_append]
    omega

/-- An entry whose blocks stay the same. -/
theorem Grows.cons (hsame : ai'.blocks = ai.blocks) (hrest : Grows ais h ais' h₁) :
    Grows (ai :: ais) h (ai' :: ais') h₁ := by
  have hentry : Grows [ai] h [ai'] h := by
    refine ⟨[], (List.append_nil _).symm, ?_⟩
    rw [List.append_nil, freeaddrinfo_singleton, freeaddrinfo_singleton, hsame]
  exact hentry.append hrest

/-- A block for an entry. -/
theorem Grows.new {ai_flags : UInt32} {ai_family : Family} {ai_socktype : Socktype} {ai_protocol : Int}
    {ai_addrlen : Nat} {sockaddr : Sockaddr} (halloc : h.alloc ok = (some b, h₁)) :
    Grows [] h [⟨b, ai_flags, ai_family, ai_socktype, ai_protocol, ai_addrlen, none, none, sockaddr⟩] h₁ :=
  ⟨[b], Heap.alloc_some halloc, List.Perm.refl _⟩

/-- A block for its address, behind the one for the entry. -/
theorem Grows.address {ai_flags : UInt32} {ai_family : Family} {ai_socktype : Socktype} {ai_protocol : Int}
    {ai_addrlen : Nat} {sockaddr : Sockaddr} {sa : Nat} (halloc : h.alloc ok = (some b, h₁))
    (halloc' : h₁.alloc ok = (some sa, h₂)) :
    Grows [] h [⟨b, ai_flags, ai_family, ai_socktype, ai_protocol, ai_addrlen, none, some sa, sockaddr⟩] h₂ := by
  refine ⟨[b, sa], ?_, List.Perm.swap b sa []⟩
  rw [Heap.alloc_some halloc', Heap.alloc_some halloc, List.append_assoc]
  rfl

/-- A block for the canonical name of the first entry. -/
theorem Grows.canonname {name : Text} (hnone : ai.ai_canonname = none) (halloc : h.alloc ok = (some b, h₁)) :
    Grows (ai :: ais) h ({ ai with ai_canonname := some (b, name) } :: ais) h₁ := by
  refine ⟨[b], Heap.alloc_some halloc, ?_⟩
  rw [freeaddrinfo_cons, freeaddrinfo_cons, Addrinfo.blocks, Addrinfo.blocks, hnone]
  apply List.perm_iff_count.mpr
  intro b
  simp only [Option.map_some, Option.map_none, Option.toList_some, Option.toList_none, List.count_append,
    List.count_nil]
  omega

/-! ### The functions that make the list -/

theorem setPort_blocks (port : UInt16) (socktype : Socktype) (ai : Addrinfo) :
    (setPort port socktype ai).1.blocks = ai.blocks := by
  unfold setPort
  cases ai.sockaddr <;> rfl

theorem freeaddrinfo_setPort (port : UInt16) (socktype : Socktype) (ais : List Addrinfo) :
    freeaddrinfo ((ais.map (setPort port socktype)).map Prod.fst) = freeaddrinfo ais := by
  induction ais with
  | nil => rfl
  | cons ai ais ih => rw [List.map_cons, List.map_cons, freeaddrinfo_cons, freeaddrinfo_cons, ih, setPort_blocks]

theorem getaddrinfo_clone_grows (ok : Nat → Bool) (ai : Addrinfo) (h : Heap) :
    Grows [] h (getaddrinfo_clone ok ai h).1.toList (getaddrinfo_clone ok ai h).2.2 := by
  unfold getaddrinfo_clone
  split
  · next h₁ halloc => exact Grows.of_none halloc
  · next b h₁ halloc =>
    dsimp only
    split
    · next h₂ halloc' => exact (Grows.new halloc).trans (Grows.of_none halloc')
    · next sa h₂ halloc' => exact Grows.address halloc halloc'

theorem getaddrinfo_port_grows (ok : Nat → Bool) (port : UInt16) (socktype : Socktype) (ais : List Addrinfo)
    (h : Heap) : Grows ais h (getaddrinfo_port ok port socktype ais h).2.1
      (getaddrinfo_port ok port socktype ais h).2.2 := by
  induction ais generalizing h with
  | nil => exact Grows.refl [] h
  | cons ai rest ih =>
    unfold getaddrinfo_port
    split
    · have hclone := getaddrinfo_clone_grows ok ai h
      split
      · next new h₁ heq =>
        rw [heq] at hclone
        exact Grows.cons rfl (hclone.append (Grows.refl rest h₁))
      · next new h₁ heq =>
        rw [heq] at hclone
        have hported : Grows [] h ((new.toList.map (setPort port socktype)).map Prod.fst) h₁ := by
          obtain ⟨blocks, hblocks, hperm⟩ := hclone
          exact ⟨blocks, hblocks, by rwa [freeaddrinfo_setPort]⟩
        exact Grows.cons rfl (hported.append (ih h₁))
    split
    · exact Grows.cons rfl (ih h)
    · exact Grows.cons (setPort_blocks port socktype ai) (ih h)

theorem servicePort_grows (ok : Nat → Bool) (sys : System) (hints : Hints) (serv protocol : Text)
    (socktype : Socktype) (ais : List Addrinfo) (h : Heap) :
    Grows ais h (servicePort ok sys hints serv protocol socktype ais h).2.1
      (servicePort ok sys hints serv protocol socktype ais h).2.2 := by
  unfold servicePort
  split
  · split
    · exact Grows.refl ais h
    · exact getaddrinfo_port_grows ok _ socktype ais h
  · exact Grows.refl ais h

theorem getaddrinfo_serv_grows (ok : Nat → Bool) (sys : System) (hints : Hints) (serv : Text)
    (ais : List Addrinfo) (h : Heap) : Grows ais h (getaddrinfo_serv ok sys hints serv ais h).2.1
      (getaddrinfo_serv ok sys hints serv ais h).2.2 := by
  unfold getaddrinfo_serv
  split
  · have hport := getaddrinfo_port_grows ok (portOf serv) hints.ai_socktype ais h
    split <;> next heq => rwa [heq] at hport
  · have htcp := servicePort_grows ok sys hints serv ['t', 'c', 'p'] .sockStream ais h
    split
    · next heq => rwa [heq] at htcp
    · next ais₁ h₁ heq =>
      rw [heq] at htcp
      have hudp := htcp.trans (servicePort_grows ok sys hints serv ['u', 'd', 'p'] .sockDgram ais₁ h₁)
      split
      · next heq' => rwa [heq'] at hudp
      · next heq' =>
        rw [heq'] at hudp
        split
        · split <;> exact hudp
        · exact hudp

theorem addAddresses_grows (ok : Nat → Bool) (hints : Hints) (addrs : List Address) (h : Heap) :
    Grows [] h (addAddresses ok hints addrs h).2.1 (addAddresses ok hints addrs h).2.2 := by
  induction addrs generalizing h with
  | nil => exact Grows.refl [] h
  | cons ap rest ih =>
    unfold addAddresses
    split
    · next h₁ halloc => exact Grows.of_none halloc
    · next b h₁ halloc =>
      dsimp only
      split
      · next h₂ halloc' => exact (Grows.new halloc).trans (Grows.of_none halloc')
      · next sa h₂ halloc' => exact (Grows.address halloc halloc').append (ih h₂)

/-- None of the entries has a canonical name yet. -/
theorem addAddresses_canonname (ok : Nat → Bool) (hints : Hints) (addrs : List Address) (h : Heap) :
    ∀ ai ∈ (addAddresses ok hints addrs h).2.1, ai.ai_canonname = none := by
  induction addrs generalizing h with
  | nil => exact fun ai hai ↦ absurd hai List.not_mem_nil
  | cons ap rest ih =>
    unfold addAddresses
    split
    · exact fun ai hai ↦ absurd hai List.not_mem_nil
    · dsimp only
      split
      · intro ai hai
        rw [List.mem_singleton.mp hai]
      · next sa h₂ halloc' =>
        intro ai hai
        obtain rfl | hrest := List.mem_cons.mp hai
        · rfl
        · exact ih h₂ ai hrest

/-! ### The ends of a call -/

/-- An end of a call with a list that has the blocks of the memory. -/
private theorem cleansUp_bad (hgrows : Grows [] Heap.empty ais h) (error : Eai) :
    (bad (.list ais) error h).CleansUp := by
  obtain ⟨new, hblocks, hperm⟩ := hgrows
  have hall : (freeaddrinfo ais).Perm h.blocks := by
    rw [hblocks]
    exact hperm
  refine ⟨?_, fun _ ↦ rfl⟩
  intro aihead hfreed
  exact ⟨ais, (Option.some.inj hfreed).symm, hall, hall.nodup_iff.mpr h.nodup⟩

private theorem cleansUp_ok (ais : List Addrinfo) (blocks : List Nat) :
    (⟨none, some ais, none, blocks⟩ : Outcome).CleansUp :=
  ⟨fun _ hfreed ↦ (Option.some_ne_none _ hfreed.symm).elim, fun hrc ↦ absurd rfl hrc⟩

theorem not_cleansUp_indeterminate (error : Eai) (h : Heap) : ¬ (bad .indeterminate error h).CleansUp := by
  intro hclean
  obtain ⟨ais, heq, -⟩ := hclean.freed .indeterminate rfl
  cases heq

theorem addrinfo_local_cleansUp (ok : Nat → Bool) (path : Text) (hints : Hints) :
    (addrinfo_local ok path hints).CleansUp := by
  unfold addrinfo_local
  split
  · exact ⟨fun _ hfreed ↦ (Option.some_ne_none _ hfreed.symm).elim, fun _ ↦ rfl⟩
  split
  · exact ⟨fun _ hfreed ↦ (Option.some_ne_none _ hfreed.symm).elim, fun _ ↦ rfl⟩
  split
  · exact ⟨fun _ hfreed ↦ (Option.some_ne_none _ hfreed.symm).elim, fun _ ↦ rfl⟩
  · exact cleansUp_ok _ _

private theorem lookUpService_cleansUp (hgrows : Grows [] Heap.empty ais h) (sys : System) (hints : Hints)
    (serv : Option Text) : (lookUpService ok sys hints serv ais h).CleansUp := by
  unfold lookUpService
  split
  · exact cleansUp_ok ais h.blocks
  · have hserv := hgrows.trans (getaddrinfo_serv_grows ok sys hints (serv.getD []) ais h)
    split
    · next heq =>
      rw [heq] at hserv
      exact cleansUp_bad hserv _
    · exact cleansUp_ok _ _

/-- Once `aihead` is initialised, every end cleans up. -/
theorem makeList_cleansUp {o : Outcome} (hints : Hints) (host : Text) (serv : Option Text) (hptr : Hostent)
    (hmake : makeList ok sys hints host serv hptr = some o) : o.CleansUp := by
  have hgrows := addAddresses_grows ok hints hptr.h_addr_list Heap.empty
  have hcanon := addAddresses_canonname ok hints hptr.h_addr_list Heap.empty
  unfold makeList at hmake
  split at hmake
  · next heq =>
    rw [heq] at hgrows
    cases hmake
    exact cleansUp_bad hgrows _
  · next aihead h₁ heq =>
    rw [heq] at hgrows hcanon
    split at hmake
    · cases aihead with
      | nil => cases hmake
      | cons ai ais =>
        dsimp only at hmake
        split at hmake
        · next h₂ halloc =>
          cases hmake
          exact cleansUp_bad (hgrows.trans (Grows.of_none halloc)) _
        · next b h₂ halloc =>
          cases hmake
          exact lookUpService_cleansUp (hgrows.trans (Grows.canonname (hcanon ai List.mem_cons_self) halloc)) _ _ _
    · cases hmake
      exact lookUpService_cleansUp hgrows _ _ _

end Lists

/-! ### The calls that come to the list -/

/-- The flags, the family and the socket type are known. -/
structure KnownHints (hints : Hints) : Prop where
  flags : hints.ai_flags &&& ~~~(aiPassive ||| aiCanonname) = 0
  family : hints.ai_family = .afUnspec ∨
    ∃ types, socktypes hints.ai_family = some types ∧ hints.ai_socktype ∈ types

/-- There is a host, or a service and an address for it: the local host, or with `AI_PASSIVE` the one of a family. -/
def HostGiven (host serv : Option Text) (hints : Hints) : Prop :=
  isEmpty host = false ∨
    isEmpty serv = false ∧ (hasFlag hints.ai_flags aiPassive → hints.ai_family = .afInet ∨
      hints.ai_family = .afInet6 ∨ hints.ai_family = .afLocal ∧ charAt (serv.getD []) 0 = '/')

/-- The host that such a call is for. -/
def hostFor (host : Option Text) (hints : Hints) : Text :=
  if isEmpty host then
    if hasFlag hints.ai_flags aiPassive then
      if hints.ai_family = .afInet then anyHost4 else if hints.ai_family = .afInet6 then anyHost6 else []
    else localhost
  else host.getD []

/-- The family that is asked for: that of a host which is an address, if the caller names none. -/
def familyFor (sys : System) (host : Option Text) (hints : Hints) : Family :=
  if isEmpty host = false ∧ hints.ai_family = .afUnspec then
    if (sys.inet_pton6 (host.getD [])).isSome then .afInet6
    else if (sys.inet_pton4 (host.getD [])).isSome then .afInet
    else .afUnspec
  else hints.ai_family

/-- The host or the service is a path, or the host is found with the family. -/
def HostFound (sys : System) (host serv : Option Text) (hints : Hints) : Prop :=
  charAt (host.getD []) 0 = '/' ∨ charAt (serv.getD []) 0 = '/' ∨
    ∃ hptr, getaddrinfo_host sys (hostFor host hints) (familyFor sys host hints) = .ok hptr ∧
      (familyFor sys host hints = .afUnspec ∨ familyFor sys host hints = hptr.h_addrtype)

section Calls
variable {sys : System} {host serv : Option Text} {hints : Hints}

theorem checkHints_eq_none_iff : checkHints hints = none ↔ KnownHints hints := by
  unfold checkHints
  by_cases hflags : hints.ai_flags &&& ~~~(aiPassive ||| aiCanonname) = 0
  · rw [if_neg (not_not.mpr hflags)]
    by_cases hfamily : hints.ai_family = .afUnspec
    · rw [if_pos hfamily]
      exact iff_of_true rfl ⟨hflags, .inl hfamily⟩
    rw [if_neg hfamily]
    constructor
    · intro h
      split at h
      · cases h
      · next types htypes =>
        split at h
        · next hmem => exact ⟨hflags, .inr ⟨types, htypes, hmem⟩⟩
        · cases h
    · intro hknown
      obtain hunspec | ⟨types, htypes, hmem⟩ := hknown.family
      · exact absurd hunspec hfamily
      · rw [htypes]
        exact if_pos hmem
  · rw [if_pos hflags]
    exact iff_of_false (Option.some_ne_none _) fun hknown ↦ hflags hknown.flags

private theorem familyFor_empty (hempty : isEmpty host = true) : familyFor sys host hints = hints.ai_family := by
  unfold familyFor
  apply if_neg
  rintro ⟨hfalse, -⟩
  rw [hempty] at hfalse
  cases hfalse

private theorem hostOf_nonempty (hhost : isEmpty host = false) :
    hostOf sys host serv hints = .ok (host, familyFor sys host hints) := by
  unfold hostOf familyFor
  rw [hhost, if_neg Bool.false_ne_true]
  by_cases hfamily : hints.ai_family = .afUnspec
  · rw [if_pos hfamily, if_pos ⟨rfl, hfamily⟩]
  · rw [if_neg hfamily, if_neg fun h ↦ hfamily h.2]

private theorem getD_of_isEmpty (hempty : isEmpty host = true) : host.getD [] = [] := by
  cases host with
  | none => rfl
  | some host => exact of_decide_eq_true hempty

/-- Without a host the family is that of the caller. -/
private theorem hostOf_empty (hempty : isEmpty host = true) (hserv : isEmpty serv = false)
    (hpassive : hasFlag hints.ai_flags aiPassive → hints.ai_family = .afInet ∨
      hints.ai_family = .afInet6 ∨ hints.ai_family = .afLocal ∧ charAt (serv.getD []) 0 = '/') :
    ∃ host', hostOf sys host serv hints = .ok (host', hints.ai_family) ∧ host'.getD [] = hostFor host hints := by
  unfold hostOf hostFor
  rw [if_pos hempty, hserv, if_neg Bool.false_ne_true, if_pos hempty]
  by_cases hflag : hasFlag hints.ai_flags aiPassive = true
  · rw [if_pos hflag, if_pos hflag]
    obtain hfamily | hfamily | ⟨hfamily, hslash⟩ := hpassive hflag
    · rw [hfamily]
      exact ⟨some anyHost4, rfl, rfl⟩
    · rw [hfamily]
      exact ⟨some anyHost6, rfl, rfl⟩
    · rw [hfamily]
      exact ⟨host, if_neg (not_not.mpr hslash), getD_of_isEmpty hempty⟩
  · rw [if_neg hflag, if_neg hflag]
    exact ⟨some localhost, rfl, rfl⟩

/-- The host and the family of a call that has them. -/
theorem hostOf_of_hostGiven (sys : System) (hgiven : HostGiven host serv hints) :
    ∃ host', hostOf sys host serv hints = .ok (host', familyFor sys host hints) ∧
      host'.getD [] = hostFor host hints := by
  cases hempty : isEmpty host with
  | false =>
    refine ⟨host, hostOf_nonempty hempty, ?_⟩
    unfold hostFor
    rw [hempty, if_neg Bool.false_ne_true]
  | true =>
    obtain hhost | ⟨hserv, hpassive⟩ := hgiven
    · rw [hempty] at hhost
      cases hhost
    · rw [familyFor_empty hempty]
      exact hostOf_empty hempty hserv hpassive

/-- A call whose host and family are found has them. -/
theorem hostGiven_of_hostOf (hknown : KnownHints hints) {p : Option Text × Family}
    (h : hostOf sys host serv hints = .ok p) : HostGiven host serv hints := by
  unfold hostOf at h
  cases hhost : isEmpty host with
  | false => exact .inl hhost
  | true =>
    rw [hhost, if_pos rfl] at h
    cases hserv : isEmpty serv with
    | true =>
      rw [hserv, if_pos rfl] at h
      cases h
    | false =>
      rw [hserv, if_neg Bool.false_ne_true] at h
      refine .inr ⟨hserv, ?_⟩
      intro hpassive
      rw [if_pos hpassive] at h
      split at h
      · next hfamily => exact .inl hfamily
      · next hfamily => exact .inr (.inl hfamily)
      · next hfamily =>
        refine .inr (.inr ⟨hfamily, ?_⟩)
        split at h
        · cases h
        · next hslash => exact not_not.mp hslash
      · cases h
      · next family hfamily =>
        obtain hunspec | ⟨types, htypes, -⟩ := hknown.family
        · rw [hfamily] at hunspec
          cases hunspec
        · rw [hfamily] at htypes
          cases htypes

theorem localPath_eq_none_iff :
    localPath host serv = none ↔ ¬ (charAt (host.getD []) 0 = '/' ∨ charAt (serv.getD []) 0 = '/') := by
  have hne (s : Option Text) (hslash : charAt (s.getD []) 0 = '/') : s ≠ none := by
    rintro rfl
    exact absurd hslash (by decide)
  unfold localPath
  split
  · next hslash => exact iff_of_false (hne host hslash) fun h ↦ h (.inl hslash)
  · next hhost =>
    split
    · next hslash => exact iff_of_false (hne serv hslash) fun h ↦ h (.inr hslash)
    · next hserv => exact iff_of_true rfl fun h ↦ h.elim hhost hserv

/-- No other host than a given one begins with a slash. -/
theorem hostFor_slash_iff : charAt (hostFor host hints) 0 = '/' ↔ charAt (host.getD []) 0 = '/' := by
  unfold hostFor
  split
  · next hempty =>
    rw [getD_of_isEmpty hempty]
    refine iff_of_false ?_ (by decide)
    split
    · split
      · decide
      split
      · decide
      · decide
    · decide
  · rfl

variable {ok : Nat → Bool} {hintsptr : Option Hints} {host' : Option Text}

private theorem not_cleansUp_of_bad (error : Eai)
    (hget : getaddrinfo ok sys host serv hintsptr = some (bad .indeterminate error Heap.empty)) :
    ¬ ∀ o, getaddrinfo ok sys host serv hintsptr = some o → o.CleansUp := fun hall ↦
  not_cleansUp_indeterminate error Heap.empty (hall _ hget)

/-- A call that has a host to look up. -/
private theorem cleansUp_iff_hostFound (hcheck : checkHints (hintsptr.getD .zero) = none)
    (hhost : hostOf sys host serv (hintsptr.getD .zero) = .ok (host', familyFor sys host (hintsptr.getD .zero)))
    (hname : host'.getD [] = hostFor host (hintsptr.getD .zero)) :
    (∀ o, getaddrinfo ok sys host serv hintsptr = some o → o.CleansUp) ↔
      HostFound sys host serv (hintsptr.getD .zero) := by
  have hslash : charAt (host'.getD []) 0 = '/' ↔ charAt (host.getD []) 0 = '/' := by
    rw [hname]
    exact hostFor_slash_iff
  cases hpath : localPath host' serv with
  | some path =>
    refine iff_of_true ?_ ?_
    · intro o ho
      simp only [getaddrinfo, hcheck, hhost, hpath] at ho
      cases ho
      exact addrinfo_local_cleansUp ok path _
    · by_contra hnot
      have hnone : localPath host' serv = none := by
        apply localPath_eq_none_iff.mpr
        rintro (hhost | hserv)
        · exact hnot (.inl (hslash.mp hhost))
        · exact hnot (.inr (.inl hserv))
      rw [hnone] at hpath
      cases hpath
  | none =>
    have hno := localPath_eq_none_iff.mp hpath
    have hfound : HostFound sys host serv (hintsptr.getD .zero) ↔
        ∃ hptr, getaddrinfo_host sys (hostFor host (hintsptr.getD .zero))
          (familyFor sys host (hintsptr.getD .zero)) = .ok hptr ∧
          (familyFor sys host (hintsptr.getD .zero) = .afUnspec ∨
            familyFor sys host (hintsptr.getD .zero) = hptr.h_addrtype) := by
      unfold HostFound
      rw [← hslash, or_iff_right fun h ↦ hno (.inl h), or_iff_right fun h ↦ hno (.inr h)]
    rw [hfound]
    cases hlook : getaddrinfo_host sys (hostFor host (hintsptr.getD .zero))
        (familyFor sys host (hintsptr.getD .zero)) with
    | error rc =>
      refine iff_of_false ?_ ?_
      · exact not_cleansUp_of_bad rc (by simp only [getaddrinfo, hcheck, hhost, hpath, hname, hlook])
      · rintro ⟨hptr, heq, -⟩
        cases heq
    | ok hptr =>
      by_cases hother : familyFor sys host (hintsptr.getD .zero) ≠ .afUnspec ∧
          familyFor sys host (hintsptr.getD .zero) ≠ hptr.h_addrtype
      · refine iff_of_false ?_ ?_
        · apply not_cleansUp_of_bad .addrfamily
          simp only [getaddrinfo, hcheck, hhost, hpath, hname, hlook]
          exact if_pos hother
        · rintro ⟨hptr', heq, hmatch⟩
          cases heq
          exact hmatch.elim hother.1 hother.2
      · refine iff_of_true ?_ ?_
        · intro o ho
          simp only [getaddrinfo, hcheck, hhost, hpath, hname, hlook] at ho
          rw [if_neg hother] at ho
          exact makeList_cleansUp _ _ _ _ ho
        · refine ⟨hptr, rfl, ?_⟩
          by_contra hnot
          exact hother (not_or.mp hnot)

/-- What is passed to `freeaddrinfo` is what the call has built exactly if it comes to initialise `aihead`, or does
without it. -/
theorem getaddrinfo_cleansUp_iff (ok : Nat → Bool) (sys : System) (host serv : Option Text)
    (hintsptr : Option Hints) :
    (∀ o, getaddrinfo ok sys host serv hintsptr = some o → o.CleansUp) ↔
      KnownHints (hintsptr.getD .zero) ∧ HostGiven host serv (hintsptr.getD .zero) ∧
        HostFound sys host serv (hintsptr.getD .zero) := by
  cases hcheck : checkHints (hintsptr.getD .zero) with
  | some error =>
    refine iff_of_false (not_cleansUp_of_bad error (by simp only [getaddrinfo, hcheck])) ?_
    rintro ⟨hknown, -⟩
    rw [checkHints_eq_none_iff.mpr hknown] at hcheck
    cases hcheck
  | none =>
    have hknown := checkHints_eq_none_iff.mp hcheck
    by_cases hgiven : HostGiven host serv (hintsptr.getD .zero)
    · obtain ⟨host', hhost, hname⟩ := hostOf_of_hostGiven sys hgiven
      rw [cleansUp_iff_hostFound hcheck hhost hname]
      constructor
      · intro hfound
        exact ⟨hknown, hgiven, hfound⟩
      · rintro ⟨-, -, hfound⟩
        exact hfound
    · cases hhost : hostOf sys host serv (hintsptr.getD .zero) with
      | ok p => exact absurd (hostGiven_of_hostOf hknown hhost) hgiven
      | error error =>
        refine iff_of_false (not_cleansUp_of_bad error (by simp only [getaddrinfo, hcheck, hhost])) ?_
        exact fun h ↦ hgiven h.2.1

end Calls

/-- A system whose resolver knows no host. -/
def noHost : System where
  inet_pton4 _ := none
  inet_pton6 _ := none
  gethostbyname _ _ := .error .hostNotFound
  getservbyname _ _ := none

/-- A host that is not found. -/
theorem getaddrinfo_unknown_host :
    ¬ ∀ o, getaddrinfo (fun _ ↦ true) noHost (some ['h', 'o', 's', 't']) none none = some o → o.CleansUp := fun hall ↦
  not_cleansUp_indeterminate .noname Heap.empty (hall _ rfl)

end Unpv13e.Libfree
