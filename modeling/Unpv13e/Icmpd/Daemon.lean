import Unpv13e.Base.Descriptors
import Unpv13e.Icmpd.Message

/-!
# The ICMP daemon

Library `Icmpd`. `main` of `src/icmpd/icmpd.c` and the four functions it calls when a descriptor is
ready: `readable_listen`, `readable_v4`, `readable_v6` and `readable_conn`. A step of the daemon is a
`select` or one `if` of its loop. `err_quit` and failing calls end the program; it takes no step then.
-/

namespace Unpv13e.Icmpd
open Unpv13e.Base

/-- `struct client` -/
structure Client where
  /-- `none` for -1 -/
  connfd : Option Fd
  family : Nat
  lport : Int

/-- Where `main` is. -/
inductive Pc
  | select
  | listen
  | v4
  | v6
  /-- the loop over the clients, at index `i` -/
  | scan (i : Nat)
  deriving DecidableEq

/-- The global variables. -/
structure Daemon where
  fd4 : Fd
  fd6 : Fd
  listenfd : Fd
  client : Fin fdSetSize → Client
  maxi : Int
  maxfd : Fd
  allset : FdSet
  rset : FdSet
  nready : Int
  pc : Pc
  /-- the latest successful registration of each client, not a variable of the code -/
  own : Fin fdSetSize → Option (Nat × Int)

/-- What `readable_conn` finds. -/
inductive Request
  /-- `Read_fd` returns 0 -/
  | closed
  /-- no descriptor was passed -/
  | noDescriptor
  /-- `getsockname` fails -/
  | unnamed
  /-- a socket of this family; `bound` is the port after `bind` of a wildcard, if that succeeds -/
  | socket (family : Nat) (port : Nat) (bound : Option Nat)

/-- What a step gets from outside. -/
inductive Act
  /-- `Select` leaves these descriptors in `rset` -/
  | select (ready : FdSet)
  /-- nothing is read -/
  | pass
  /-- `Accept` returns this descriptor -/
  | accept (connfd : Fd)
  /-- `Recvfrom` fills the buffer -/
  | icmp (buf : List UInt8)
  | request (r : Request)

/-- `src/lib/sock_get_port.c:4–24` -/
def sock_get_port (family port : Nat) : Int :=
  if family = afInet ∨ family = afInet6 then port else -1

/-- `src/lib/sock_bind_wild.c:4–44` -/
def sock_bind_wild (family : Nat) (bound : Option Nat) : Int :=
  if family = afInet ∨ family = afInet6 then bound.elim (-1) fun port ↦ port else -1

namespace Daemon

/-- After one of the functions has returned. -/
def onwards (left : Int) (next : Pc) : Pc := if left ≤ 0 then .select else next

/-- Before the first turn of the loop, `src/icmpd/icmpd.c:13–37`. `Socket` returns a descriptor that
is not in use. -/
def start (fd4 fd6 listenfd : Fd) : Except Stop Daemon :=
  if [fd4, fd6, listenfd].Nodup then
    FdSet.set fd4 ∅ >>= fun allset ↦ FdSet.set fd6 allset >>= fun allset ↦
      FdSet.set listenfd allset >>= fun allset ↦
        .ok ⟨fd4, fd6, listenfd, fun _ ↦ ⟨none, 0, 0⟩, -1, max (max fd4 fd6) listenfd, allset, ∅, 0,
          .select, fun _ ↦ none⟩
  else .error .blocked

/-- `src/icmpd/readable_listen.c:9–31` -/
def readable_listen (s : Daemon) (connfd : Fd) : Except Stop Daemon :=
  match Slots.firstHole none fun i ↦ (s.client i).connfd with
  | none => .ok { s with nready := s.nready - 1, pc := onwards (s.nready - 1) .v4 }
  | some i =>
    FdSet.set connfd s.allset >>= fun allset ↦
      .ok { s with
        client := Function.update s.client i { s.client i with connfd := some connfd }
        own := Function.update s.own i none
        allset := allset
        maxfd := if connfd > s.maxfd then connfd else s.maxfd
        maxi := if (i.val : Int) > s.maxi then i.val else s.maxi
        nready := s.nready - 1
        pc := onwards (s.nready - 1) .v4 }

/-- The clients the loops of `src/icmpd/readable_v4.c:58–61` and `src/icmpd/readable_v6.c:61–64`
choose. -/
def addressees (s : Daemon) (family : Nat) (sport : Nat) : List Fd :=
  (List.finRange fdSetSize).filterMap fun i ↦
    if (i.val : Int) ≤ s.maxi ∧ (s.client i).family = family ∧ (s.client i).lport = sport then
      (s.client i).connfd
    else none

/-- Every descriptor of a list is written the same record, composed anew for each. -/
def writeAll (err : Except Stop IcmpdErr) : List Fd → Except Stop (List (Fd × IcmpdErr))
  | [] => .ok []
  | fd :: fds => err >>= fun e ↦ writeAll err fds >>= fun ws ↦ .ok ((fd, e) :: ws)

/-- What is written to the clients for a message, `quote` being what was found in it. -/
def tell (s : Daemon) (family : Nat) (buf : List UInt8) (err : Quote → Except Stop IcmpdErr) :
    Option Quote → Except Stop (List (Fd × IcmpdErr))
  | none => .ok []
  | some q => portAt buf q.udp >>= fun sport ↦ writeAll (err q) (s.addressees family sport)

/-- `src/icmpd/readable_v4.c:9–86`, with what it writes to the clients -/
def readable_v4 (s : Daemon) (buf : List UInt8) : Except Stop (Daemon × List (Fd × IcmpdErr)) :=
  parse4 buf >>= fun quote ↦ s.tell afInet buf (icmpdErr4 buf) quote >>= fun ws ↦
    .ok ({ s with nready := s.nready - 1, pc := onwards (s.nready - 1) .v6 }, ws)

/-- `src/icmpd/readable_v6.c:13–90`, with what it writes to the clients -/
def readable_v6 (s : Daemon) (buf : List UInt8) : Except Stop (Daemon × List (Fd × IcmpdErr)) :=
  parse6 buf >>= fun quote ↦ s.tell afInet6 buf (icmpdErr6 buf) quote >>= fun ws ↦
    .ok ({ s with nready := s.nready - 1, pc := onwards (s.nready - 1) (.scan 0) }, ws)

/-- The end of a client, `src/icmpd/readable_conn.c:48–54`. -/
def clientdone (s : Daemon) (i : Fin fdSetSize) (unixfd : Fd) : Except Stop Daemon :=
  FdSet.clr unixfd s.allset >>= fun allset ↦
    .ok { s with
      allset := allset
      client := Function.update s.client i { s.client i with connfd := none }
      own := Function.update s.own i none
      nready := s.nready - 1
      pc := onwards (s.nready - 1) (.scan (i + 1)) }

/-- `client[i].family` and `client[i].lport` are assigned. -/
def assign (s : Daemon) (i : Fin fdSetSize) (family : Nat) (lport : Int) : Daemon :=
  { s with client := Function.update s.client i ⟨(s.client i).connfd, family, lport⟩ }

/-- A client has registered, `src/icmpd/readable_conn.c:42–44`. -/
def registered (s : Daemon) (i : Fin fdSetSize) (family : Nat) (lport : Int) : Daemon :=
  { s.assign i family lport with
    own := Function.update s.own i (some (family, lport))
    nready := s.nready - 1
    pc := onwards (s.nready - 1) (.scan (i + 1)) }

/-- `src/icmpd/readable_conn.c:4–55`, with the answer to the client -/
def readable_conn (s : Daemon) (i : Fin fdSetSize) (unixfd : Fd) :
    Request → Except Stop (Daemon × Option Char)
  | .closed => s.clientdone i unixfd >>= fun t ↦ .ok (t, none)
  | .noDescriptor | .unnamed => s.clientdone i unixfd >>= fun t ↦ .ok (t, some '0')
  | .socket family port bound =>
    if sock_get_port family port = 0 then
      if sock_bind_wild family bound ≤ 0 then
        (s.assign i family (sock_bind_wild family bound)).clientdone i unixfd >>= fun t ↦
          .ok (t, some '0')
      else .ok (s.registered i family (sock_bind_wild family bound), some '1')
    else .ok (s.registered i family (sock_get_port family port), some '1')

/-- The next step. A descriptor that `Accept` returns was not in use. -/
def step (s : Daemon) (a : Act) : Except Stop Daemon :=
  match s.pc with
  | .select =>
    match a with
    | .select ready =>
      if ready ⊆ s.allset.filter (· ≤ s.maxfd) then
        .ok { s with rset := ready, nready := ready.card, pc := .listen }
      else .error .blocked
    | _ => .error .blocked
  | .listen =>
    FdSet.isset s.listenfd s.rset >>= fun isset ↦
      match isset, a with
      | true, .accept connfd =>
        if connfd ∈ s.allset then .error .blocked else s.readable_listen connfd
      | false, .pass => .ok { s with pc := .v4 }
      | _, _ => .error .blocked
  | .v4 =>
    FdSet.isset s.fd4 s.rset >>= fun isset ↦
      match isset, a with
      | true, .icmp buf =>
        if buf.length ≤ maxLine then s.readable_v4 buf >>= fun r ↦ .ok r.1 else .error .blocked
      | false, .pass => .ok { s with pc := .v6 }
      | _, _ => .error .blocked
  | .v6 =>
    FdSet.isset s.fd6 s.rset >>= fun isset ↦
      match isset, a with
      | true, .icmp buf =>
        if buf.length ≤ maxLine then s.readable_v6 buf >>= fun r ↦ .ok r.1 else .error .blocked
      | false, .pass => .ok { s with pc := .scan 0 }
      | _, _ => .error .blocked
  | .scan k =>
    if h : (k : Int) ≤ s.maxi ∧ k < fdSetSize then
      match (s.client ⟨k, h.2⟩).connfd with
      | none =>
        match a with
        | .pass => .ok { s with pc := .scan (k + 1) }
        | _ => .error .blocked
      | some sockfd =>
        FdSet.isset sockfd s.rset >>= fun isset ↦
          match isset, a with
          | true, .request r => s.readable_conn ⟨k, h.2⟩ sockfd r >>= fun r ↦ .ok r.1
          | false, .pass => .ok { s with pc := .scan (k + 1) }
          | _, _ => .error .blocked
    else
      match a with
      | .pass => .ok { s with pc := .select }
      | _ => .error .blocked

/-- The step as a relation. -/
def Step (s : Daemon) (a : Act) (t : Daemon) : Prop := s.step a = .ok t

/-! ### What a step does -/

/-- The descriptors of the clients. -/
def conn (s : Daemon) (i : Fin fdSetSize) : Option Fd := (s.client i).connfd

/-- The steps that are taken: most leave the table alone. -/
inductive Does (s : Daemon) (a : Act) : Daemon → Prop
  | quiet (rset : FdSet) (nready : Int) (pc : Pc) :
    Does s a { s with rset := rset, nready := nready, pc := pc }
  | accept (i : Fin fdSetSize) (connfd maxfd : Fd) (maxi nready : Int) (pc : Pc)
    (ha : a = .accept connfd) (hlt : connfd < fdSetSize) (hnew : connfd ∉ s.allset)
    (hfirst : Slots.firstHole none s.conn = some i) (hmaxi : s.maxi ≤ maxi ∧ i.val ≤ maxi) :
    Does s a { s with
      client := Function.update s.client i { s.client i with connfd := some connfd }
      own := Function.update s.own i none
      allset := insert connfd s.allset
      maxfd := maxfd
      maxi := maxi
      nready := nready
      pc := pc }
  | register (i : Fin fdSetSize) (unixfd : Fd) (family : Nat) (lport : Int)
    (hi : s.conn i = some unixfd) : Does s a (s.registered i family lport)
  | close (i : Fin fdSetSize) (unixfd : Fd) (family : Nat) (lport nready : Int) (pc : Pc)
    (hi : s.conn i = some unixfd) :
    Does s a { s with
      allset := s.allset.erase unixfd
      client := Function.update s.client i ⟨none, family, lport⟩
      own := Function.update s.own i none
      nready := nready
      pc := pc }

private theorem does_of_listen {s t : Daemon} {connfd : Fd} (hnew : connfd ∉ s.allset)
    (h : s.readable_listen connfd = .ok t) : Does s (.accept connfd) t := by
  unfold readable_listen at h
  split at h
  · cases h
    exact .quiet s.rset (s.nready - 1) (onwards (s.nready - 1) .v4)
  · next i hi =>
    obtain ⟨allset, hset, h⟩ := exists_of_bind_ok h
    obtain ⟨hlt, rfl⟩ := FdSet.set_ok hset
    cases h
    refine .accept i connfd _ _ _ _ rfl hlt hnew hi ?_
    split <;> omega

private theorem does_of_clientdone {s t : Daemon} {a : Act} {i : Fin fdSetSize} {unixfd : Fd}
    (family : Nat) (lport : Int) (hi : s.conn i = some unixfd)
    (h : (s.assign i family lport).clientdone i unixfd = .ok t) : Does s a t := by
  obtain ⟨allset, hclr, h⟩ := exists_of_bind_ok h
  obtain ⟨-, rfl⟩ := FdSet.clr_ok hclr
  cases h
  have hdoes := Does.close (a := a) i unixfd family lport (s.nready - 1)
    (onwards (s.nready - 1) (.scan (i + 1))) hi
  unfold assign
  dsimp only
  rw [Function.update_idem, Function.update_self]
  exact hdoes

private theorem does_of_conn {s t : Daemon} {a : Act} {i : Fin fdSetSize} {unixfd : Fd}
    {r : Request} {reply : Option Char} (hi : s.conn i = some unixfd)
    (h : s.readable_conn i unixfd r = .ok (t, reply)) : Does s a t := by
  have hsame : s.assign i (s.client i).family (s.client i).lport = s := by
    unfold assign
    rw [Function.update_eq_self]
  have hdone (u : Daemon) (hu : s.clientdone i unixfd = .ok u) : Does s a u := by
    rw [← hsame] at hu
    exact does_of_clientdone _ _ hi hu
  unfold readable_conn at h
  split at h
  · obtain ⟨u, hu, h⟩ := exists_of_bind_ok h
    cases h
    exact hdone t hu
  · obtain ⟨u, hu, h⟩ := exists_of_bind_ok h
    cases h
    exact hdone t hu
  · obtain ⟨u, hu, h⟩ := exists_of_bind_ok h
    cases h
    exact hdone t hu
  · split at h
    · split at h
      · obtain ⟨u, hu, h⟩ := exists_of_bind_ok h
        cases h
        exact does_of_clientdone _ _ hi hu
      · cases h
        exact .register i unixfd _ _ hi
    · cases h
      exact .register i unixfd _ _ hi

private theorem does_of_v4 {s t : Daemon} {a : Act} {buf : List UInt8} {ws : List (Fd × IcmpdErr)}
    (h : s.readable_v4 buf = .ok (t, ws)) : Does s a t := by
  obtain ⟨quote, -, h⟩ := exists_of_bind_ok h
  obtain ⟨ws, -, h⟩ := exists_of_bind_ok h
  cases h
  exact .quiet s.rset (s.nready - 1) (onwards (s.nready - 1) .v6)

private theorem does_of_v6 {s t : Daemon} {a : Act} {buf : List UInt8} {ws : List (Fd × IcmpdErr)}
    (h : s.readable_v6 buf = .ok (t, ws)) : Does s a t := by
  obtain ⟨quote, -, h⟩ := exists_of_bind_ok h
  obtain ⟨ws, -, h⟩ := exists_of_bind_ok h
  cases h
  exact .quiet s.rset (s.nready - 1) (onwards (s.nready - 1) (.scan 0))

private theorem does_move {s : Daemon} {a : Act} (pc : Pc) : Does s a { s with pc := pc } :=
  .quiet s.rset s.nready pc

/-- Every step is one of these. -/
theorem does_of_step {s t : Daemon} {a : Act} (h : Step s a t) : Does s a t := by
  unfold Step step at h
  split at h
  · split at h
    · next ready =>
      split at h
      · cases h
        exact .quiet ready ready.card .listen
      · cases h
    · cases h
  · obtain ⟨isset, -, hm⟩ := exists_of_bind_ok h
    clear h
    split at hm
    · split at hm
      · cases hm
      · next hnew => exact does_of_listen hnew hm
    · cases hm
      exact does_move .v4
    · cases hm
  · obtain ⟨isset, -, hm⟩ := exists_of_bind_ok h
    clear h
    split at hm
    · split at hm
      · obtain ⟨r, hr, hm⟩ := exists_of_bind_ok hm
        cases hm
        exact does_of_v4 hr
      · cases hm
    · cases hm
      exact does_move .v6
    · cases hm
  · obtain ⟨isset, -, hm⟩ := exists_of_bind_ok h
    clear h
    split at hm
    · split at hm
      · obtain ⟨r, hr, hm⟩ := exists_of_bind_ok hm
        cases hm
        exact does_of_v6 hr
      · cases hm
    · cases hm
      exact does_move (.scan 0)
    · cases hm
  · next k hpc =>
    split at h
    · next hk =>
      split at h
      · split at h
        · cases h
          exact does_move (.scan (k + 1))
        · cases h
      · next sockfd hi =>
        obtain ⟨isset, -, hm⟩ := exists_of_bind_ok h
        clear h
        split at hm
        · obtain ⟨r, hr, hm⟩ := exists_of_bind_ok hm
          cases hm
          exact does_of_conn hi hr
        · cases hm
          exact does_move (.scan (k + 1))
        · cases hm
    · split at h
      · cases h
        exact does_move .select
      · cases h

/-! ### The table -/

/-- The table against the set, its bound, and what is remembered of registered clients. -/
structure Kept (s : Daemon) : Prop where
  tracks : Tracks {s.fd4, s.fd6, s.listenfd} s.allset s.conn
  used : ∀ i, s.conn i ≠ none → (i.val : Int) ≤ s.maxi
  owned : ∀ i family lport, s.own i = some (family, lport) →
    s.conn i ≠ none ∧ (s.client i).family = family ∧ (s.client i).lport = lport

/-- No clients at first. -/
theorem conn_start {fd4 fd6 listenfd : Fd} {s : Daemon} (h : start fd4 fd6 listenfd = .ok s)
    (i : Fin fdSetSize) : s.conn i = none := by
  unfold start at h
  split at h
  · obtain ⟨a, -, h⟩ := exists_of_bind_ok h
    obtain ⟨b, -, h⟩ := exists_of_bind_ok h
    obtain ⟨c, -, h⟩ := exists_of_bind_ok h
    cases h
    rfl
  · cases h

/-- Before the first turn. -/
theorem kept_start {fd4 fd6 listenfd : Fd} {s : Daemon} (h : start fd4 fd6 listenfd = .ok s) :
    Kept s := by
  unfold start at h
  split at h
  · obtain ⟨a, ha, h⟩ := exists_of_bind_ok h
    obtain ⟨b, hb, h⟩ := exists_of_bind_ok h
    obtain ⟨c, hc, h⟩ := exists_of_bind_ok h
    obtain ⟨h4, rfl⟩ := FdSet.set_ok ha
    obtain ⟨h6, rfl⟩ := FdSet.set_ok hb
    obtain ⟨hl, rfl⟩ := FdSet.set_ok hc
    cases h
    refine ⟨?_, fun i hi ↦ absurd rfl hi, fun i f p ho ↦ by cases ho⟩
    have heq : insert listenfd (insert fd6 (insert fd4 ∅)) = ({fd4, fd6, listenfd} : FdSet) := by
      ext fd
      simp only [Finset.mem_insert, Finset.notMem_empty, Finset.mem_singleton, or_false]
      tauto
    dsimp only
    rw [heq]
    apply Tracks.empty
    intro fd hfd
    simp only [Finset.mem_insert, Finset.mem_singleton] at hfd
    rcases hfd with rfl | rfl | rfl <;> assumption
  · cases h

/-- One entry of the table is changed. -/
theorem conn_of_update {s t : Daemon} {i : Fin fdSetSize} {c : Client}
    (h : t.client = Function.update s.client i c) : t.conn = Function.update s.conn i c.connfd := by
  funext j
  unfold conn
  rw [h]
  by_cases hji : j = i
  · rw [hji, Function.update_self, Function.update_self]
  · rw [Function.update_of_ne hji, Function.update_of_ne hji]

private theorem used_update {s : Daemon} {i : Fin fdSetSize} {fd : Option Fd} {maxi : Int}
    (hk : Kept s) (hle : s.maxi ≤ maxi) (hi : fd ≠ none → i.val ≤ maxi) (j : Fin fdSetSize)
    (hj : Function.update s.conn i fd j ≠ none) : (j.val : Int) ≤ maxi := by
  by_cases hji : j = i
  · rw [hji, Function.update_self] at hj
    exact hji ▸ hi hj
  · rw [Function.update_of_ne hji] at hj
    exact (hk.used j hj).trans hle

/-- A changed entry belongs to nobody, or to the client that has just registered. -/
private theorem owned_update {s : Daemon} {i : Fin fdSetSize} {c : Client} {o : Option (Nat × Int)}
    (hk : Kept s)
    (hi : ∀ family lport, o = some (family, lport) →
      c.connfd ≠ none ∧ c.family = family ∧ c.lport = lport)
    (j : Fin fdSetSize) (family : Nat) (lport : Int)
    (hj : Function.update s.own i o j = some (family, lport)) :
    (Function.update s.client i c j).connfd ≠ none ∧
      (Function.update s.client i c j).family = family ∧
        (Function.update s.client i c j).lport = lport := by
  by_cases hji : j = i
  · rw [hji, Function.update_self] at hj
    rw [hji, Function.update_self]
    exact hi family lport hj
  · rw [Function.update_of_ne hji] at hj
    rw [Function.update_of_ne hji]
    exact hk.owned j family lport hj

/-- One step keeps the table. -/
theorem Kept.does {s t : Daemon} {a : Act} (hk : Kept s) (hd : Does s a t) : Kept t := by
  cases hd with
  | quiet rset nready pc => exact ⟨hk.tracks, hk.used, hk.owned⟩
  | accept i connfd maxfd maxi nready pc _ hlt hnew hfirst hmaxi =>
    refine ⟨?_, ?_, owned_update hk fun family lport ho ↦ by cases ho⟩
    · rw [conn_of_update (s := s) rfl]
      exact hk.tracks.add (Slots.of_firstHole hfirst).1 hlt hnew
    · rw [conn_of_update (s := s) rfl]
      exact used_update hk hmaxi.1 fun _ ↦ hmaxi.2
  | register i unixfd family lport hi =>
    have hopen : s.conn i ≠ none := by
      rw [hi]
      exact Option.some_ne_none unixfd
    have hsame : (s.registered i family lport).conn = s.conn := by
      rw [conn_of_update (s := s) rfl]
      exact Function.update_eq_self i s.conn
    refine ⟨?_, ?_, owned_update hk ?_⟩
    · rw [hsame]
      exact hk.tracks
    · rw [hsame]
      exact hk.used
    · rintro f p ho
      cases ho
      exact ⟨hopen, rfl, rfl⟩
  | close i unixfd family lport nready pc hi =>
    refine ⟨?_, ?_, owned_update hk fun family lport ho ↦ by cases ho⟩
    · rw [conn_of_update (s := s) rfl]
      exact hk.tracks.drop hi
    · rw [conn_of_update (s := s) rfl]
      exact used_update hk (le_refl _) fun hne ↦ absurd rfl hne

/-- Every reachable state is kept. -/
theorem kept_of_run {fd4 fd6 listenfd : Fd} {s₀ s : Daemon} (hstart : start fd4 fd6 listenfd = .ok s₀)
    (h : Run Step s₀ s) : Kept s :=
  h.preserves (fun _ _ _ hk _ hs ↦ hk.does (does_of_step hs)) (kept_start hstart)

end Daemon
end Unpv13e.Icmpd
