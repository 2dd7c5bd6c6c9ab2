import Unpv13e.Libgai.Getaddrinfo

/-!
# From an address to its text and back

Library `Libgai`. The strings `getnameinfo` writes for a numeric host and service are those
`getaddrinfo` makes one entry of, with the address they came from.
-/

namespace Unpv13e.Libgai
open Unpv13e.Base

/-- An address whose fields are all in its text: scope and flow are zero, and a path begins at
the root and leaves room for its terminator. -/
def Sockaddr.Numeric : Sockaddr → Prop
  | .inet _ => True
  | .inet6 sin6 => sin6.sin6_flowinfo = 0 ∧ sin6.sin6_scope_id = 0
  | .unix un => charAt un.sun_path 0 = '/' ∧ un.sun_path.length < sunPathSize
  | .other _ => False

/-- `inet_pton` gives back the address `inet_ntop` wrote, and rejects the text for the other
family. -/
def Inverts (sys : System) : Sockaddr → Prop
  | .inet sin => ∀ s, inetNtop4 sin.sin_addr inetAddrstrlen = .ok (some s) →
      sys.inet_pton4 s = some sin.sin_addr ∧ sys.inet_pton6 s = none
  | .inet6 sin6 => ∀ s, inetNtop6 sin6.sin6_addr inet6Addrstrlen = .ok (some s) →
      sys.inet_pton6 s = some sin6.sin6_addr ∧ sys.inet_pton4 s = none
  | _ => True

/-! ### The port -/

theorem htons_ntohs (port : UInt16) : htons (ntohs port) = port := by
  apply UInt16.toBitVec_inj.mp
  simp only [htons, ntohs, swapBytes, UInt16.toBitVec_or, UInt16.toBitVec_shiftLeft,
    UInt16.toBitVec_shiftRight]
  apply BitVec.eq_of_getElem_eq
  intro i hi
  have hout : port.toBitVec.getLsbD (8 + (8 + i)) = false := BitVec.getLsbD_of_ge _ _ (by omega)
  by_cases h : i < 8
  · have hlow : 8 + i < 16 := by omega
    simp [h, hlow, hout]
  · have hback : 8 + (i - 8) = i := by omega
    have hhigh : ¬ 8 + i < 16 := by omega
    have hlow : i - 8 < 8 := by omega
    simp [h, hhigh, hlow, hback, hout, BitVec.getLsbD_eq_getElem hi]

/-- The decimal text of a port. -/
def portText (port : UInt16) : Text := decimal (ntohs port).toNat

theorem portOf_portText (port : UInt16) : portOf (portText port) = port := by
  have hlt := (ntohs port).toNat_lt_size
  simp only [UInt16.size] at hlt
  have hint : IsInt ((ntohs port).toNat : Int) := by
    constructor <;> omega
  have hof : UInt16.ofInt ((ntohs port).toNat : Int) = ntohs port := by
    apply UInt16.toNat_inj.mp
    simp only [UInt16.ofInt, UInt16.toNat_ofNat']
    omega
  rw [portOf, portText, hint.strtol_decimal, hof, htons_ntohs]

theorem length_portText (port : UInt16) : (portText port).length ≤ 5 := by
  apply (Nat.length_toDigits_le_iff (by decide) (by decide)).mpr
  have := (ntohs port).toNat_lt_size
  simp only [UInt16.size] at this
  omega

theorem isDigit_portText (port : UInt16) : (charAt (portText port) 0).isDigit = true := by
  obtain ⟨c, cs, hcs⟩ := List.exists_cons_of_ne_nil
    (Nat.toDigits_ne_nil (b := 10) (n := (ntohs port).toNat))
  have hc : c.isDigit = true :=
    Nat.isDigit_of_mem_toDigits (by decide) (by decide) (hcs ▸ List.mem_cons_self)
  have hfirst : charAt (portText port) 0 = c := by
    change charAt (Nat.toDigits 10 (ntohs port).toNat) 0 = c
    rw [hcs]
    rfl
  rw [hfirst, hc]

/-! ### `getnameinfo` -/

/-- Room for the terminator is enough. -/
theorem snprintf_of_lt {size : Nat} {text : Text} (h : text.length < size) :
    snprintf size text = text := List.take_of_length_le (by omega)

/-- A numeric host and service: the text of the address, and of the port. -/
theorem gnIpv46_numeric (sys : System) {addr : Address} {port : UInt16} {hostlen servlen : Nat}
    {host : Text} (hhost : inetNtop addr hostlen = .ok (some host)) (hpos : 0 < hostlen)
    (hserv : (portText port).length < servlen) :
    gnIpv46 sys hostlen servlen addr port (niNumerichost ||| niNumericserv) =
      .ok (some ⟨some host, some (portText port)⟩) := by
  have hflag : hasFlag (niNumerichost ||| niNumericserv) niNumerichost = true := by decide
  have hflag' : hasFlag (niNumerichost ||| niNumericserv) niNumericserv = true := by decide
  have hname : hostName sys addr hostlen (niNumerichost ||| niNumericserv) = .ok (some host) := by
    rw [hostName, if_pos hflag, hhost]
  have hsnprintf : servName sys port servlen (niNumerichost ||| niNumericserv) = portText port := by
    rw [servName, if_pos hflag']
    exact snprintf_of_lt hserv
  have hservlen : servlen > 0 := by omega
  simp only [gnIpv46, hname, hsnprintf, if_pos hservlen, if_pos hpos, bind, Except.bind, pure,
    Except.pure]

/-! ### `getaddrinfo` -/

/-- Hints without flags and without a family, for one of the two socket types. -/
structure Hints.Open (hints : Hints) : Prop where
  flags : hints.ai_flags = 0
  family : hints.ai_family = .afUnspec
  socktype : hints.ai_socktype = .sockStream ∨ hints.ai_socktype = .sockDgram

theorem Hints.Open.socktype_ne {hints : Hints} (h : hints.Open) : hints.ai_socktype ≠ .zero := by
  rcases h.socktype with hs | hs <;> simp [hs]

theorem isEmpty_some {s : Text} (h : s ≠ []) : isEmpty (some s) = false := by simp [isEmpty, h]

theorem Hints.Open.gaEcheck {hints : Hints} (h : hints.Open) {host : Text} (hhost : host ≠ [])
    (servname : Option Text) : gaEcheck (some host) servname hints = .ok () := by
  have hflags : ¬ hints.ai_flags &&& ~~~(aiPassive ||| aiCanonname) ≠ 0 := by
    rw [h.flags]
    decide
  have hempty : ¬ (isEmpty (some host) && isEmpty servname) = true := by
    simp [isEmpty_some hhost]
  rw [Libgai.gaEcheck, if_neg hflags, if_neg hempty, if_pos h.family]

theorem Hints.Open.gaNsearch {hints : Hints} (h : hints.Open) {host : Text} (hhost : host ≠ []) :
    gaNsearch (some host) hints = .ok [⟨host, .afInet6⟩, ⟨host, .afInet⟩] := by
  simp [Libgai.gaNsearch, isEmpty_some hhost, h.family, searchFor]

theorem Hints.Open.wantsCanon {hints : Hints} (h : hints.Open) (hostname : Option Text) :
    wantsCanon hostname hints = false := by
  have : hasFlag 0 aiCanonname = false := by decide
  simp [Libgai.wantsCanon, h.flags, this]

/-- The entry of a numeric IPv4 or IPv6 address; a Unix domain entry has no port to set. -/
def entry (hints : Hints) (family : Family) (len : Nat) (sa : Sockaddr) : Addrinfo :=
  ⟨0, family, hints.ai_socktype, hints.ai_protocol, len, none, sa⟩

theorem Hints.Open.gaAistruct_inet {hints : Hints} (h : hints.Open) (a : InAddr) :
    gaAistruct hints (.inet a) = .ok (entry hints .afInet 16 (.inet ⟨a, 0⟩)) := by
  simp [gaAistruct, entry, h.socktype_ne]

theorem Hints.Open.gaAistruct_inet6 {hints : Hints} (h : hints.Open) (a : In6Addr) :
    gaAistruct hints (.inet6 a) = .ok (entry hints .afInet6 28 (.inet6 ⟨a, 0, 0, 0⟩)) := by
  simp [gaAistruct, entry, h.socktype_ne]

theorem Hints.Open.gaAistruct_path {hints : Hints} (h : hints.Open) {p : Text}
    (hp : p.length < sunPathSize) :
    gaAistruct hints (.path p) = .ok (entry hints .afLocal 110 (.unix ⟨p⟩)) := by
  have hroom : ¬ p.length ≥ sunPathSize := by omega
  simp [gaAistruct, entry, h.socktype_ne, hroom]

/-- A numeric service sets its port in an entry of the caller's socket type. -/
theorem Hints.Open.gaServ_portText {hints : Hints} (h : hints.Open) (sys : System)
    {port : UInt16} {family : Family} {len : Nat} {sa : Sockaddr} {ai : Addrinfo}
    (hset : setPort port hints.ai_socktype (entry hints family len sa) = (ai, 1)) :
    gaServ sys hints (portText port) [entry hints family len sa] = .ok [ai] := by
  have hports : servicePorts sys hints (portText port) = [(port, hints.ai_socktype)] := by
    rw [servicePorts, if_pos (isDigit_portText port), if_pos h.socktype_ne, portOf_portText]
  have hclone : ¬ hasFlag (entry hints family len sa).ai_flags aiClone = true := by
    change ¬ hasFlag 0 aiClone = true
    decide
  have htype : ¬ (entry hints family len sa).ai_socktype ≠ hints.ai_socktype := fun hne ↦ hne rfl
  have hport : gaPort port hints.ai_socktype [entry hints family len sa] = ([ai], 1) := by
    simp only [gaPort, if_neg hclone, if_neg htype, hset]
  simp [gaServ, hports, gaPorts, hport]

/-- A host that names neither Unix domain spelling goes through the search list. -/
theorem unixPath_of_ne {host : Text} (h : charAt host 0 ≠ '/') (servname : Option Text) :
    unixPath (some host) servname = none := by
  have hlocal : host ≠ slashLocal := by
    rintro rfl
    exact h rfl
  have hunix : host ≠ slashUnix := by
    rintro rfl
    exact h rfl
  cases servname <;> simp [unixPath, hlocal, hunix]

/-- The search makes one entry of a host that is the text of an address: the other family's
search ignores it. -/
theorem Hints.Open.search {hints : Hints} (h : hints.Open) (sys : System) {host : Text}
    {family : Family} (hfamily : family = .afInet ∨ family = .afInet6) {addr : Address}
    {ai : Addrinfo} (hai : gaAistruct hints addr = .ok ai)
    (hone : ∀ found sptr, sptr.host = host →
      searchOne sys (some host) hints 2 found sptr = addAddress hints found sptr family addr) :
    [Search.mk host .afInet6, Search.mk host .afInet].foldlM (searchOne sys (some host) hints 2)
      ⟨[], none⟩ = .ok ⟨[ai], none⟩ := by
  have hopen : ¬ (hints.ai_family ≠ .afUnspec ∧ hints.ai_family ≠ family) := fun hf ↦ hf.1 h.family
  have hmake (found : Found) : append hints found addr =
      .ok { found with aihead := found.aihead ++ [ai] } := by
    simp [append, hai, bind, Except.bind, pure, Except.pure]
  simp only [List.foldlM_cons, List.foldlM_nil, hone, addAddress, if_neg hopen, hmake]
  rcases hfamily with rfl | rfl <;> simp [bind, Except.bind, pure, Except.pure]

/-- The whole call for such a host and a numeric service. -/
theorem Hints.Open.getaddrinfo {hints : Hints} (h : hints.Open) (sys : System) {host : Text}
    {port : UInt16} {family : Family} {len : Nat} {sa : Sockaddr} {ai : Addrinfo}
    (hslash : charAt host 0 ≠ '/') (hne : host ≠ [])
    (hsearch : [Search.mk host .afInet6, Search.mk host .afInet].foldlM
      (searchOne sys (some host) hints 2) ⟨[], none⟩ = .ok ⟨[entry hints family len sa], none⟩)
    (hset : setPort port hints.ai_socktype (entry hints family len sa) = (ai, 1)) :
    getaddrinfo sys (some host) (some (portText port)) (some hints) = .ok [ai] := by
  have hserv : isEmpty (some (portText port)) = false := isEmpty_some Nat.toDigits_ne_nil
  simp only [Libgai.getaddrinfo, Option.getD_some, h.gaEcheck hne, unixPath_of_ne hslash,
    h.gaNsearch hne, h.wantsCanon, hserv, bind, Except.bind, List.length_cons, List.length_nil,
    Nat.zero_add, Nat.reduceAdd]
  rw [hsearch]
  simpa [pure, Except.pure] using h.gaServ_portText sys hset

/-- The text of an IPv4 address is found as one. -/
theorem searchOne_dotted {sys : System} {a : InAddr} (hpton : sys.inet_pton4 (dottedQuad a) = some a)
    (hostname : Option Text) (hints : Hints) (n : Nat) (found : Found) {sptr : Search}
    (hhost : sptr.host = dottedQuad a) :
    searchOne sys hostname hints n found sptr = addAddress hints found sptr .afInet (.inet a) := by
  have hdotted : maybeDotted (dottedQuad a) = true := isDigit_charAt_dottedQuad a
  simp [searchOne, hhost, hdotted, hpton]

/-- The text of an IPv6 address is found as one, whether or not it begins with a digit. -/
theorem searchOne_hex {sys : System} {host : Text} {a : In6Addr} (hhex : IsHexString host)
    (hpton6 : sys.inet_pton6 host = some a) (hpton4 : sys.inet_pton4 host = none)
    (hostname : Option Text) (hints : Hints) (n : Nat) (found : Found) {sptr : Search}
    (hhost : sptr.host = host) :
    searchOne sys hostname hints n found sptr = addAddress hints found sptr .afInet6 (.inet6 a) := by
  have hmaybe : maybeHex host = true := decide_eq_true hhex
  simp [searchOne, hhost, hmaybe, hpton6, hpton4]

/-- The entry of a Unix domain path. -/
theorem Hints.Open.getaddrinfo_path {hints : Hints} (h : hints.Open) (sys : System) {path : Text}
    (hslash : charAt path 0 = '/') (hlen : path.length < sunPathSize) :
    Libgai.getaddrinfo sys (some slashLocal) (some path) (some hints) =
      .ok [entry hints .afLocal 110 (.unix ⟨path⟩)] := by
  have hcanon : hasFlag 0 aiCanonname = false := by decide
  have hne : slashLocal ≠ [] := by decide
  simp [Libgai.getaddrinfo, h.gaEcheck hne, unixPath, hslash, gaUnix, h.family, h.flags,
    h.socktype_ne, h.gaAistruct_path hlen, hcanon, bind, Except.bind, pure, Except.pure]

/-- A numeric address goes through its two strings and comes back as the only entry. -/
theorem getaddrinfo_getnameinfo (sys : System) (sa : Sockaddr) (hints : Hints)
    (hsa : sa.Numeric) (hpton : Inverts sys sa) (hhints : hints.Open) :
    ∃ host serv : Text, host.length < inet6Addrstrlen ∧ serv.length < sunPathSize ∧
      (∀ hostlen servlen, host.length < hostlen → serv.length < servlen →
        getnameinfo sys sa hostlen servlen (niNumerichost ||| niNumericserv) =
          .ok (some ⟨some host, some serv⟩)) ∧
      ∃ ai, getaddrinfo sys (some host) (some serv) (some hints) = .ok [ai] ∧
        ai.ai_family = sa.sa_family ∧ ai.ai_addr = sa ∧ ai.ai_socktype = hints.ai_socktype := by
  cases sa with
  | inet sin =>
    have hshort := length_dottedQuad sin.sin_addr
    have hport := length_portText sin.sin_port
    have hdigit := isDigit_charAt_dottedQuad sin.sin_addr
    have hpton4 := (hpton _ (inetNtop4_of_lt hshort)).1
    have hslash : charAt (dottedQuad sin.sin_addr) 0 ≠ '/' := by
      intro he
      rw [he] at hdigit
      cases hdigit
    have hne : dottedQuad sin.sin_addr ≠ [] := by
      intro he
      rw [he] at hdigit
      cases hdigit
    refine ⟨dottedQuad sin.sin_addr, portText sin.sin_port, ?_, ?_, ?_, ?_⟩
    · exact hshort.trans (by decide)
    · exact lt_of_le_of_lt hport (by decide)
    · intro hostlen servlen hhost hserv
      exact gnIpv46_numeric sys (inetNtop4_of_lt hhost) (by omega) hserv
    · refine ⟨entry hints .afInet 16 (.inet sin), ?_, rfl, rfl, rfl⟩
      apply hhints.getaddrinfo sys hslash hne
      · exact hhints.search sys (.inl rfl) (hhints.gaAistruct_inet sin.sin_addr)
          fun found sptr hhost ↦ searchOne_dotted hpton4 _ hints 2 found hhost
      · rfl
  | inet6 sin6 =>
    obtain ⟨host, hhex, hshort, hntop⟩ := exists_inetNtop6 sin6.sin6_addr
    obtain ⟨hpton6, hpton4⟩ := hpton host (hntop _ hshort)
    have hport := length_portText sin6.sin6_port
    have hslash : charAt host 0 ≠ '/' := by
      intro he
      have := hhex.1
      rw [he] at this
      revert this
      decide
    refine ⟨host, portText sin6.sin6_port, hshort, ?_, ?_, ?_⟩
    · exact lt_of_le_of_lt hport (by decide)
    · intro hostlen servlen hhost hserv
      exact gnIpv46_numeric sys (hntop hostlen hhost) (by omega) hserv
    · have hzero : sin6 = ⟨sin6.sin6_addr, sin6.sin6_port, 0, 0⟩ := by
        obtain ⟨addr, port, flow, scope⟩ := sin6
        obtain ⟨hflow, hscope⟩ : flow = 0 ∧ scope = 0 := hsa
        rw [hflow, hscope]
      refine ⟨entry hints .afInet6 28 (.inet6 sin6), ?_, rfl, rfl, rfl⟩
      apply hhints.getaddrinfo sys hslash (List.ne_nil_of_mem hhex.2)
      · exact hhints.search sys (.inr rfl) (hhints.gaAistruct_inet6 sin6.sin6_addr)
          fun found sptr hhost ↦ searchOne_hex hhex hpton6 hpton4 _ hints 2 found hhost
      · rw [hzero]
        rfl
  | unix un =>
    refine ⟨slashLocal, un.sun_path, by decide, hsa.2, ?_, ?_⟩
    · intro hostlen servlen hhost hserv
      have hpos : hostlen > 0 := by omega
      have hpos' : servlen > 0 := by omega
      simp [getnameinfo, hpos, hpos', snprintf_of_lt hhost, snprintf_of_lt hserv]
    · exact ⟨_, hhints.getaddrinfo_path sys hsa.1 hsa.2, rfl, rfl, rfl⟩
  | other family => exact absurd hsa id

/-- `2001:db8::1`, port 80. -/
def documentation : SockaddrIn6 :=
  ⟨#v[0x20, 0x01, 0x0d, 0xb8, 0, 0, 0, 0, 0, 0, 0, 0, 0, 0, 0, 1], htons 80, 0, 0⟩

/-- The text of `documentation`. -/
def documentationText : Text := ['2', '0', '0', '1', ':', 'd', 'b', '8', ':', ':', '1']

/-- A resolver that knows no name, and an `inet_pton` that knows one address. -/
def documentationOnly : System where
  inet_pton4 _ := none
  inet_pton6 s := if s = documentationText then some documentation.sin6_addr else none
  gethostbyname _ _ := .error .hostNotFound
  gethostbyname2 _ _ := none
  gethostbyaddr _ := none
  getservbyname _ _ := none
  getservbyport _ _ := none
  nodename := none

theorem getaddrinfo_getnameinfo_documentation :
    ∃ host serv : Text, host.length < inet6Addrstrlen ∧ serv.length < sunPathSize ∧
      (∀ hostlen servlen, host.length < hostlen → serv.length < servlen →
        getnameinfo documentationOnly (.inet6 documentation) hostlen servlen
          (niNumerichost ||| niNumericserv) = .ok (some ⟨some host, some serv⟩)) ∧
      ∃ ai, getaddrinfo documentationOnly (some host) (some serv)
          (some ⟨0, .afUnspec, .sockDgram, 0⟩) = .ok [ai] ∧
        ai.ai_family = .afInet6 ∧ ai.ai_addr = .inet6 documentation ∧
        ai.ai_socktype = .sockDgram := by
  have htext : inetNtop6 documentation.sin6_addr inet6Addrstrlen = .ok (some documentationText) := by
    decide +kernel
  refine getaddrinfo_getnameinfo documentationOnly (.inet6 documentation)
    ⟨0, .afUnspec, .sockDgram, 0⟩ ⟨rfl, rfl⟩ ?_ ⟨rfl, rfl, .inr rfl⟩
  intro s hs
  rw [htext] at hs
  cases hs
  exact ⟨rfl, rfl⟩

end Unpv13e.Libgai
