import Unpv13e.Libgai.InetNtop

/-!
# Names and addresses

Library `Libgai`. `getaddrinfo` and `getnameinfo` of `src/libgai`, with IPv4, IPv6 and the Unix
domain compiled in. The resolver, `inet_pton` and `uname` are parameters. Allocation succeeds, and
the `unlink` of a passive Unix domain path is left out. A list of `struct addrinfo` is a `List`.
-/

namespace Unpv13e.Libgai
open Unpv13e.Base

/-- The values of `ai_family`. -/
inductive Family
  | afUnspec
  | afLocal
  | afInet
  | afInet6
  | other (family : Int)
  deriving DecidableEq

/-- The values of `ai_socktype`. -/
inductive Socktype
  | zero
  | sockStream
  | sockDgram
  | sockRaw
  | other (socktype : Int)
  deriving DecidableEq

/-- The `EAI_` codes. -/
inductive Eai
  | addrfamily
  | again
  | badflags
  | fail
  | family
  | memory
  | nodata
  | noname
  | service
  | socktype
  | system
  deriving DecidableEq

/-- A call that does not return a list: the code it returns, or the end of the program. -/
inductive Failure
  | eai (code : Eai)
  | quit
  deriving DecidableEq

def aiPassive : UInt32 := 1
def aiCanonname : UInt32 := 2
def aiClone : UInt32 := 4

def niNofqdn : UInt32 := 1
def niNumerichost : UInt32 := 2
def niNamereqd : UInt32 := 4
def niNumericserv : UInt32 := 8
def niDgram : UInt32 := 16

/-- `flags & flag` -/
def hasFlag (flags flag : UInt32) : Bool := flags &&& flag ≠ 0

/-- `sizeof(unp->sun_path)` -/
def sunPathSize : Nat := 108

/-- `htons` and `ntohs` of a machine that stores the low byte first. -/
def swapBytes (port : UInt16) : UInt16 := port <<< 8 ||| port >>> 8

/-- `htons` -/
def htons (port : UInt16) : UInt16 := swapBytes port

/-- `ntohs` -/
def ntohs (port : UInt16) : UInt16 := swapBytes port

/-- `struct sockaddr_in` -/
structure SockaddrIn where
  sin_addr : InAddr
  sin_port : UInt16
  deriving DecidableEq

/-- `struct sockaddr_in6` -/
structure SockaddrIn6 where
  sin6_addr : In6Addr
  sin6_port : UInt16
  sin6_flowinfo : UInt32
  sin6_scope_id : UInt32
  deriving DecidableEq

/-- `struct sockaddr_un` -/
structure SockaddrUn where
  sun_path : Text
  deriving DecidableEq

/-- `struct sockaddr`, by its family. -/
inductive Sockaddr
  | inet (sin : SockaddrIn)
  | inet6 (sin6 : SockaddrIn6)
  | unix (un : SockaddrUn)
  | other (family : Int)
  deriving DecidableEq

/-- `sa_family` -/
def Sockaddr.sa_family : Sockaddr → Family
  | .inet _ => .afInet
  | .inet6 _ => .afInet6
  | .unix _ => .afLocal
  | .other family => .other family

/-- The address a list entry is made of, by its family. -/
inductive Address
  | inet (addr : InAddr)
  | inet6 (addr : In6Addr)
  | path (addr : Text)
  deriving DecidableEq

/-- `struct addrinfo`, its `ai_next` apart. -/
structure Addrinfo where
  ai_flags : UInt32
  ai_family : Family
  ai_socktype : Socktype
  ai_protocol : Int
  ai_addrlen : Nat
  ai_canonname : Option Text
  ai_addr : Sockaddr
  deriving DecidableEq

/-- What is read of the caller's `struct addrinfo`. -/
structure Hints where
  ai_flags : UInt32
  ai_family : Family
  ai_socktype : Socktype
  ai_protocol : Int
  deriving DecidableEq

/-- The hints of a caller that passes none. -/
def Hints.zero : Hints := ⟨0, .afUnspec, .zero, 0⟩

/-- `h_addr_list`, whose elements are of the family `h_addrtype`. -/
inductive HostAddrs
  | inet (addrs : List InAddr)
  | inet6 (addrs : List In6Addr)

/-- `struct hostent` -/
structure Hostent where
  h_name : Text
  h_addrs : HostAddrs

/-- `h_addrtype` -/
def Hostent.h_addrtype (h : Hostent) : Family :=
  match h.h_addrs with
  | .inet _ => .afInet
  | .inet6 _ => .afInet6

/-- The addresses of `h_addr_list`, in order. -/
def Hostent.h_addr_list (h : Hostent) : List Address :=
  match h.h_addrs with
  | .inet addrs => addrs.map .inet
  | .inet6 addrs => addrs.map .inet6

/-- `h_errno` -/
inductive HErrno
  | hostNotFound
  | tryAgain
  | noRecovery
  | noData
  | other

/-- What is called outside of the directory. A call that gives a name gives none also when the
name is a null pointer. -/
structure System where
  inet_pton4 : Text → Option InAddr
  inet_pton6 : Text → Option In6Addr
  /-- The first argument is the option `RES_USE_INET6`. -/
  gethostbyname : Bool → Text → Except HErrno Hostent
  gethostbyname2 : Text → Family → Option Hostent
  gethostbyaddr : Address → Option Text
  getservbyname : Text → Text → Option UInt16
  getservbyport : UInt16 → Option Text → Option Text
  /-- The `nodename` of `uname`. -/
  nodename : Option Text

/-! ### `getaddrinfo` -/

/-- A null pointer or an empty string. -/
def isEmpty (s : Option Text) : Bool := s.all (· = [])

/-- The `switch` of `ga_echeck`: the socket types of a family. -/
def socktypes : Family → Option (List Socktype)
  | .afInet => some [.zero, .sockStream, .sockDgram, .sockRaw]
  | .afInet6 => some [.zero, .sockStream, .sockDgram, .sockRaw]
  | .afLocal => some [.zero, .sockStream, .sockDgram]
  | _ => none

/-- `ga_echeck`, `src/libgai/ga_echeck.c:8–54` -/
def gaEcheck (hostname servname : Option Text) (hints : Hints) : Except Failure Unit :=
  if hints.ai_flags &&& ~~~(aiPassive ||| aiCanonname) ≠ 0 then .error (.eai .badflags)
  else if isEmpty hostname && isEmpty servname then .error (.eai .noname)
  else if hints.ai_family = .afUnspec then .ok ()
  else
    match socktypes hints.ai_family with
    | none => .error (.eai .family)
    | some types =>
      if hints.ai_socktype ∈ types then .ok () else .error (.eai .socktype)

/-- `ga_aistruct`, `src/libgai/ga_aistruct.c:9–82`: the entry it appends to the list. -/
def gaAistruct (hints : Hints) (addr : Address) : Except Failure Addrinfo :=
  let ai_flags := if hints.ai_socktype = .zero then aiClone else 0
  let entry (family : Family) (len : Nat) (sa : Sockaddr) : Addrinfo :=
    ⟨ai_flags, family, hints.ai_socktype, hints.ai_protocol, len, none, sa⟩
  match addr with
  | .inet a => .ok (entry .afInet 16 (.inet ⟨a, 0⟩))
  | .inet6 a => .ok (entry .afInet6 28 (.inet6 ⟨a, 0, 0, 0⟩))
  | .path p =>
    if p.length ≥ sunPathSize then .error (.eai .service)
    else .ok (entry .afLocal 110 (.unix ⟨p⟩))

/-- `ga_unix`, `src/libgai/ga_unix.c:6–44` -/
def gaUnix (sys : System) (path : Text) (hints : Hints) : Except Failure (List Addrinfo) := do
  if hints.ai_family ≠ .afUnspec ∧ hints.ai_family ≠ .afLocal then .error (.eai .addrfamily)
  let aihead ← if hints.ai_socktype = .zero then do
      let first ← gaAistruct { hints with ai_socktype := .sockStream } (.path path)
      let second ← gaAistruct { hints with ai_socktype := .sockDgram } (.path path)
      pure [first, second]
    else do
      let only ← gaAistruct hints (.path path)
      pure [only]
  if hasFlag hints.ai_flags aiCanonname then
    match sys.nodename with
    | none => .error (.eai .system)
    | some name => .ok (aihead.modifyHead fun ai ↦ { ai with ai_canonname := some name })
  else .ok aihead

/-- `struct search` -/
structure Search where
  host : Text
  family : Family

/-- The hosts `ga_nsearch` looks up for the caller's family, IPv6 first. -/
def searchFor (family : Family) (host4 host6 : Text) : List Search :=
  match family with
  | .afInet => [⟨host4, .afInet⟩]
  | .afInet6 => [⟨host6, .afInet6⟩]
  | .afUnspec => [⟨host6, .afInet6⟩, ⟨host4, .afInet⟩]
  | _ => []

/-- `ga_nsearch`, `src/libgai/ga_nsearch.c:9–114` -/
def gaNsearch (hostname : Option Text) (hints : Hints) : Except Failure (List Search) :=
  let search :=
    if isEmpty hostname then
      if hasFlag hints.ai_flags aiPassive then
        searchFor hints.ai_family ['0', '.', '0', '.', '0', '.', '0'] ['0', ':', ':', '0']
      else
        searchFor hints.ai_family ['l', 'o', 'c', 'a', 'l', 'h', 'o', 's', 't']
          ['0', ':', ':', '1']
    else
      let host := hostname.getD []
      searchFor hints.ai_family host host
  if search.length < 1 ∨ search.length > 2 then .error .quit else .ok search

/-- The list so far, and the canonical name once it is known. -/
structure Found where
  aihead : List Addrinfo
  canon : Option Text

/-- One entry more at the end of the list. -/
def append (hints : Hints) (found : Found) (addr : Address) : Except Failure Found := do
  let ai ← gaAistruct hints addr
  return { found with aihead := found.aihead ++ [ai] }

/-- The caller asks for the canonical name of a host. -/
def wantsCanon (hostname : Option Text) (hints : Hints) : Bool :=
  !isEmpty hostname && hasFlag hints.ai_flags aiCanonname

/-- What is done with a host the resolver knows, lines 104–121. -/
def addHost (hostname : Option Text) (hints : Hints) (found : Found) (h : Hostent) :
    Except Failure Found := do
  if hints.ai_family ≠ .afUnspec ∧ hints.ai_family ≠ h.h_addrtype then .error (.eai .addrfamily)
  let canon := if wantsCanon hostname hints && found.canon.isNone then some h.h_name
    else found.canon
  h.h_addr_list.foldlM (append hints) { found with canon }

/-- The code for a failing look up of a single host. -/
def HErrno.eai : HErrno → Eai
  | .hostNotFound => .noname
  | .tryAgain => .again
  | .noRecovery => .fail
  | .noData => .nodata
  | .other => .noname

/-- The remainder of the loop, which looks the host up, lines 75–121. -/
def lookUp (sys : System) (hostname : Option Text) (hints : Hints) (nsearch : Nat)
    (found : Found) (sptr : Search) : Except Failure Found :=
  if nsearch = 2 then
    match sys.gethostbyname2 sptr.host sptr.family with
    | none => .ok found
    | some h => addHost hostname hints found h
  else
    match sys.gethostbyname (sptr.family = .afInet6) sptr.host with
    | .error e => .error (.eai e.eai)
    | .ok h => addHost hostname hints found h

/-- An address the host is the text of: refused when the caller wants another family, ignored in
the search for another one. -/
def addAddress (hints : Hints) (found : Found) (sptr : Search) (family : Family)
    (addr : Address) : Except Failure Found :=
  if hints.ai_family ≠ .afUnspec ∧ hints.ai_family ≠ family then .error (.eai .addrfamily)
  else if sptr.family ≠ family then .ok found
  else append hints found addr

/-- The test before `inet_pton` for IPv4, line 45. -/
def maybeDotted (host : Text) : Bool := (charAt host 0).isDigit

/-- The test before `inet_pton` for IPv6, lines 63–64. -/
def maybeHex (host : Text) : Bool := decide (IsHexString host)

/-- The body of the loop over the search list, lines 42–122. -/
def searchOne (sys : System) (hostname : Option Text) (hints : Hints) (nsearch : Nat)
    (found : Found) (sptr : Search) : Except Failure Found :=
  match if maybeDotted sptr.host then sys.inet_pton4 sptr.host else none with
  | some inaddr => addAddress hints found sptr .afInet (.inet inaddr)
  | none =>
    match if maybeHex sptr.host then sys.inet_pton6 sptr.host else none with
    | some in6addr => addAddress hints found sptr .afInet6 (.inet6 in6addr)
    | none => lookUp sys hostname hints nsearch found sptr

/-- `ga_clone`, `src/libgai/ga_clone.c:8–31` -/
def gaClone (ai : Addrinfo) : Addrinfo := { ai with ai_flags := 0, ai_canonname := none }

/-- The end of the loop body of `ga_port`, and what it adds to the count. -/
def setPort (port : UInt16) (socktype : Socktype) (ai : Addrinfo) : Addrinfo × Nat :=
  let ai := { ai with ai_socktype := socktype }
  match ai.ai_addr with
  | .inet sin => ({ ai with ai_addr := .inet { sin with sin_port := port } }, 1)
  | .inet6 sin6 => ({ ai with ai_addr := .inet6 { sin6 with sin6_port := port } }, 1)
  | _ => (ai, 0)

/-- `ga_port`, `src/libgai/ga_port.c:32–69`: the list, and how many entries have the port. -/
def gaPort (port : UInt16) (socktype : Socktype) : List Addrinfo → List Addrinfo × Nat
  | [] => ([], 0)
  | ai :: rest =>
    let (rest', nfound) := gaPort port socktype rest
    if hasFlag ai.ai_flags aiClone then
      if ai.ai_socktype ≠ .zero then
        let (new, n) := setPort port socktype (gaClone ai)
        (ai :: new :: rest', n + nfound)
      else
        let (ai', n) := setPort port socktype ai
        (ai' :: rest', n + nfound)
    else if ai.ai_socktype ≠ socktype then (ai :: rest', nfound)
    else
      let (ai', n) := setPort port socktype ai
      (ai' :: rest', n + nfound)

/-- `htons(atoi(serv))` -/
def portOf (serv : Text) : UInt16 := htons (UInt16.ofInt (strtol serv))

/-- The calls of `ga_port` for the socket types a service is looked up with, in their order. -/
def gaPorts : List (UInt16 × Socktype) → List Addrinfo → List Addrinfo × Nat
  | [], aihead => (aihead, 0)
  | (port, socktype) :: rest, aihead =>
    let (aihead', n) := gaPort port socktype aihead
    let (aihead'', nfound) := gaPorts rest aihead'
    (aihead'', n + nfound)

/-- The ports and socket types of a service. -/
def servicePorts (sys : System) (hints : Hints) (serv : Text) : List (UInt16 × Socktype) :=
  if (charAt serv 0).isDigit then
    if hints.ai_socktype ≠ .zero then [(portOf serv, hints.ai_socktype)]
    else [(portOf serv, .sockStream), (portOf serv, .sockDgram)]
  else
    let tcp := if hints.ai_socktype = .zero ∨ hints.ai_socktype = .sockStream then
      sys.getservbyname serv ['t', 'c', 'p'] else none
    let udp := if hints.ai_socktype = .zero ∨ hints.ai_socktype = .sockDgram then
      sys.getservbyname serv ['u', 'd', 'p'] else none
    tcp.toList.map (·, .sockStream) ++ udp.toList.map (·, .sockDgram)

/-- `ga_serv`, `src/libgai/ga_serv.c:8–57` -/
def gaServ (sys : System) (hints : Hints) (serv : Text) (aihead : List Addrinfo) :
    Except Failure (List Addrinfo) :=
  let (aihead', nfound) := gaPorts (servicePorts sys hints serv) aihead
  if nfound = 0 then
    if hints.ai_socktype = .zero then .error (.eai .noname) else .error (.eai .service)
  else .ok aihead'

def slashLocal : Text := ['/', 'l', 'o', 'c', 'a', 'l']
def slashUnix : Text := ['/', 'u', 'n', 'i', 'x']

/-- The Unix domain path of a call that names one, lines 33–36. -/
def unixPath : Option Text → Option Text → Option Text
  | some hostname, some servname =>
    if (hostname = slashLocal ∨ hostname = slashUnix) ∧ charAt servname 0 = '/' then some servname
    else none
  | _, _ => none

/-- `getaddrinfo`, `src/libgai/getaddrinfo.c:6–168`: the list of a call that returns 0. -/
def getaddrinfo (sys : System) (hostname servname : Option Text) (hintsp : Option Hints) :
    Except Failure (List Addrinfo) := do
  let hints := hintsp.getD .zero
  gaEcheck hostname servname hints
  match unixPath hostname servname with
  | some path => gaUnix sys path hints
  | none =>
    let search ← gaNsearch hostname hints
    let found ← search.foldlM (searchOne sys hostname hints search.length) ⟨[], none⟩
    if found.aihead = [] then .error (.eai .noname)
    let aihead := if wantsCanon hostname hints then
        let name := found.canon.getD ((search.head?.map (·.host)).getD [])
        found.aihead.modifyHead fun ai ↦ { ai with ai_canonname := some name }
      else found.aihead
    if isEmpty servname then .ok aihead else gaServ sys hints (servname.getD []) aihead

/-! ### `getnameinfo` -/

/-- What is written into the two buffers; a buffer of size 0 is left alone. -/
structure Names where
  host : Option Text
  serv : Option Text
  deriving DecidableEq

/-- `snprintf(s, size, "%s", text)` into a buffer that is not empty. -/
def snprintf (size : Nat) (text : Text) : Text := text.take (size - 1)

/-- `inet_ntop`, `src/libfree/inet_ntop.c:53–69` -/
def inetNtop (addr : Address) (size : Nat) : Except Stop (Option Text) :=
  match addr with
  | .inet a => inetNtop4 a size
  | .inet6 a => inetNtop6 a size
  | .path _ => .ok none

/-- The host name of `gn_ipv46`; none when it returns 1. -/
def hostName (sys : System) (addr : Address) (hostlen : Nat) (flags : UInt32) :
    Except Stop (Option Text) :=
  if hasFlag flags niNumerichost then inetNtop addr hostlen
  else
    match sys.gethostbyaddr addr with
    | some h_name =>
      let name := if hasFlag flags niNofqdn then h_name.takeWhile (· ≠ '.') else h_name
      .ok (some (snprintf hostlen name))
    | none => if hasFlag flags niNamereqd then .ok none else inetNtop addr hostlen

/-- The service name of `gn_ipv46`. -/
def servName (sys : System) (port : UInt16) (servlen : Nat) (flags : UInt32) : Text :=
  let numeric := snprintf servlen (decimal (ntohs port).toNat)
  if hasFlag flags niNumericserv then numeric
  else
    match sys.getservbyport port
      (if hasFlag flags niDgram then some ['u', 'd', 'p'] else none) with
    | some s_name => snprintf servlen s_name
    | none => numeric

/-- `gn_ipv46`, `src/libgai/gn_ipv46.c:8–49`; none when it returns 1. -/
def gnIpv46 (sys : System) (hostlen servlen : Nat) (addr : Address) (port : UInt16)
    (flags : UInt32) : Except Stop (Option Names) := do
  let serv := if servlen > 0 then some (servName sys port servlen flags) else none
  if hostlen > 0 then
    let some host ← hostName sys addr hostlen flags | return none
    return some ⟨some host, serv⟩
  return some ⟨none, serv⟩

/-- `getnameinfo`, `src/libgai/getnameinfo.c:4–46`; none when it returns 1. -/
def getnameinfo (sys : System) (sa : Sockaddr) (hostlen servlen : Nat) (flags : UInt32) :
    Except Stop (Option Names) :=
  match sa with
  | .inet sin => gnIpv46 sys hostlen servlen (.inet sin.sin_addr) sin.sin_port flags
  | .inet6 sin6 => gnIpv46 sys hostlen servlen (.inet6 sin6.sin6_addr) sin6.sin6_port flags
  | .unix un =>
    .ok (some ⟨if hostlen > 0 then some (snprintf hostlen slashLocal) else none,
      if servlen > 0 then some (snprintf servlen un.sun_path) else none⟩)
  | .other _ => .ok none

end Unpv13e.Libgai
