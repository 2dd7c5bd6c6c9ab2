import Unpv13e.Icmpd.Daemon

/-!
# Who is told of an error

Library `Icmpd`. A client's entry in the table keeps the family and the port of the client that had it
before, until the new client registers. An error reaches the clients that registered for the quoted
port exactly when no such entry of a client not yet registered matches.
-/

namespace Unpv13e.Icmpd
open Unpv13e.Base

/-- An error as received. -/
inductive Received
  | v4 (m : Icmp4)
  | v6 (m : Icmp6)

namespace Received

/-- The address family of the socket it came on. -/
def family : Received → Nat
  | v4 _ => afInet
  | v6 _ => afInet6

/-- The source port of the quoted datagram. -/
def sport : Received → Nat
  | v4 m => port m.sport.1 m.sport.2
  | v6 m => port m.sport.1 m.sport.2

/-- The record for the clients. -/
def err : Received → IcmpdErr
  | v4 m => m.err
  | v6 m => m.err

end Received

namespace Daemon

/-- The daemon reads the error. -/
def receive (s : Daemon) : Received → Except Stop (Daemon × List (Fd × IcmpdErr))
  | .v4 m => s.readable_v4 m.bytes
  | .v6 m => s.readable_v6 m.bytes

/-- A connected client whose latest successful registration is this. -/
def Owns (s : Daemon) (fd : Fd) (family sport : Nat) : Prop :=
  ∃ i, s.conn i = some fd ∧ s.own i = some (family, (sport : Int))

/-- The error is written once to every client it belongs to and to no other. -/
def ReachesOwners (s : Daemon) (r : Received) : Prop :=
  ∃ t ws, s.receive r = .ok (t, ws) ∧ (ws.map Prod.fst).Nodup ∧
    (∀ fd, fd ∈ ws.map Prod.fst ↔ s.Owns fd r.family r.sport) ∧ ∀ w ∈ ws, w.2 = r.err

/-- A connected client that has not registered has an entry with this family and port. -/
def Stale (s : Daemon) (family sport : Nat) : Prop :=
  ∃ i, s.conn i ≠ none ∧ s.own i = none ∧ (s.client i).family = family ∧ (s.client i).lport = sport

/-- Every record is composed from the same message. -/
theorem writeAll_ok (e : IcmpdErr) (fds : List Fd) :
    writeAll (.ok e) fds = .ok (fds.map fun fd ↦ (fd, e)) := by
  induction fds with
  | nil => rfl
  | cons fd fds ih =>
    unfold writeAll
    rw [ok_bind, ih]
    rfl

/-- The chosen clients are told. -/
theorem receive_eq (s : Daemon) (r : Received) :
    ∃ t, s.receive r = .ok (t, (s.addressees r.family r.sport).map fun fd ↦ (fd, r.err)) := by
  cases r with
  | v4 m =>
    refine ⟨{ s with nready := s.nready - 1, pc := onwards (s.nready - 1) .v6 }, ?_⟩
    unfold receive readable_v4
    dsimp only
    rw [m.parse4_bytes, ok_bind]
    unfold tell
    dsimp only
    rw [m.portAt_bytes, ok_bind, m.icmpdErr4_bytes, writeAll_ok, ok_bind]
    rfl
  | v6 m =>
    refine ⟨{ s with nready := s.nready - 1, pc := onwards (s.nready - 1) (.scan 0) }, ?_⟩
    unfold receive readable_v6
    dsimp only
    rw [m.parse6_bytes, ok_bind]
    unfold tell
    dsimp only
    rw [m.portAt_bytes, ok_bind, m.icmpdErr6_bytes, writeAll_ok, ok_bind]
    rfl

/-- The chosen clients are those with a matching entry. -/
theorem mem_addressees {s : Daemon} (hk : Kept s) {family sport : Nat} {fd : Fd} :
    fd ∈ s.addressees family sport ↔
      ∃ i, s.conn i = some fd ∧ (s.client i).family = family ∧ (s.client i).lport = sport := by
  unfold addressees
  rw [List.mem_filterMap]
  constructor
  · rintro ⟨i, -, hi⟩
    split at hi
    · next hmatch => exact ⟨i, hi, hmatch.2⟩
    · cases hi
  · rintro ⟨i, hi, hmatch⟩
    have hle := hk.used i (by rw [hi]; exact Option.some_ne_none fd)
    exact ⟨i, List.mem_finRange i, by rw [if_pos ⟨hle, hmatch⟩]; exact hi⟩

/-- No client is chosen twice. -/
theorem nodup_addressees {s : Daemon} (hk : Kept s) (family sport : Nat) :
    (s.addressees family sport).Nodup := by
  unfold addressees
  refine List.Nodup.filterMap ?_ (List.nodup_finRange fdSetSize)
  intro i j fd hi hj
  have hin (k : Fin fdSetSize) (h : (fd : Fd) ∈ (if (k.val : Int) ≤ s.maxi ∧
      (s.client k).family = family ∧ (s.client k).lport = sport then (s.client k).connfd
      else none)) : s.conn k = some fd := by
    split at h
    · exact h
    · cases h
  exact hk.tracks.once (hin i hi) (hin j hj)

/-- An error reaches its owners exactly when no entry of an unregistered client matches. -/
theorem reachesOwners_iff {s : Daemon} (hk : Kept s) (r : Received) :
    s.ReachesOwners r ↔ ¬ s.Stale r.family r.sport := by
  obtain ⟨t, ht⟩ := s.receive_eq r
  have hfst : ((s.addressees r.family r.sport).map fun fd ↦ (fd, r.err)).map Prod.fst =
      s.addressees r.family r.sport := by
    rw [List.map_map]
    exact List.map_id _
  constructor
  · rintro ⟨t', ws, hws, -, hiff, -⟩ ⟨i, hopen, hown, hmatch⟩
    rw [ht] at hws
    cases hws
    obtain ⟨fd, hfd⟩ := Option.ne_none_iff_exists'.mp hopen
    rw [hfst] at hiff
    obtain ⟨j, hj, hown'⟩ := (hiff fd).mp ((mem_addressees hk).mpr ⟨i, hfd, hmatch⟩)
    rw [hk.tracks.once hj hfd, hown] at hown'
    cases hown'
  · intro hstale
    refine ⟨t, _, ht, ?_, ?_, ?_⟩
    · rw [hfst]
      exact nodup_addressees hk _ _
    · intro fd
      rw [hfst, mem_addressees hk]
      constructor
      · rintro ⟨i, hi, hfam, hport⟩
        have hopen : s.conn i ≠ none := by
          rw [hi]
          exact Option.some_ne_none fd
        cases hown : s.own i with
        | none => exact absurd ⟨i, hopen, hown, hfam, hport⟩ hstale
        | some o =>
          obtain ⟨-, hf, hp⟩ := hk.owned i o.1 o.2 hown
          refine ⟨i, hi, ?_⟩
          rw [hown, ← hfam, ← hport, hf, hp]
      · rintro ⟨i, hi, hown⟩
        exact ⟨i, hi, (hk.owned i _ _ hown).2⟩
    · intro w hw
      obtain ⟨fd, -, rfl⟩ := List.mem_map.mp hw
      rfl

/-! ### Entries without a registration left in them -/

/-- The entry has a family and a port that an error can match. -/
def Remembers (s : Daemon) (i : Fin fdSetSize) : Prop :=
  ((s.client i).family = afInet ∨ (s.client i).family = afInet6) ∧ 0 ≤ (s.client i).lport

/-- A new client gets an entry in which nothing is left. -/
def Clean (s : Daemon) (a : Act) : Prop :=
  ∀ connfd i, a = .accept connfd → Slots.firstHole none s.conn = some i → ¬ s.Remembers i

/-- No client that has not registered has an entry that an error can match. -/
def Unmatched (s : Daemon) : Prop := ∀ i, s.conn i ≠ none → s.own i = none → ¬ s.Remembers i

/-- A step that gives new clients clean entries keeps the others unmatched. -/
theorem Unmatched.does {s t : Daemon} {a : Act} (hu : Unmatched s) (hclean : Clean s a)
    (hd : Does s a t) : Unmatched t := by
  cases hd with
  | quiet rset nready pc => exact hu
  | accept i connfd maxfd maxi nready pc ha hlt hnew hfirst hmaxi =>
    intro j hj hown
    rw [conn_of_update (s := s) rfl] at hj
    unfold Remembers
    dsimp only at hown ⊢
    by_cases hji : j = i
    · rw [hji, Function.update_self]
      exact hclean connfd i ha hfirst
    · rw [Function.update_of_ne hji] at hj hown ⊢
      exact hu j hj hown
  | register i unixfd family lport hi =>
    intro j hj hown
    rw [conn_of_update (s := s) rfl] at hj
    unfold Remembers
    unfold registered assign at hown ⊢
    dsimp only at hown ⊢
    by_cases hji : j = i
    · rw [hji, Function.update_self] at hown
      cases hown
    · rw [Function.update_of_ne hji] at hj hown ⊢
      exact hu j hj hown
  | close i unixfd family lport nready pc hi =>
    intro j hj hown
    rw [conn_of_update (s := s) rfl] at hj
    unfold Remembers
    dsimp only at hown ⊢
    by_cases hji : j = i
    · rw [hji, Function.update_self] at hj
      exact absurd rfl hj
    · rw [Function.update_of_ne hji] at hj hown ⊢
      exact hu j hj hown

/-- A destination unreachable message that quotes a datagram from port 1000. -/
def unreachable : Icmp4 where
  ip := 0x45 :: List.replicate 19 0
  type := 3
  code := 3
  rest := List.replicate 6 0
  hip := 0x45 :: List.replicate 8 0 ++ 17 :: List.replicate 10 0
  sport := (3, 232)
  dport := (0, 53)
  tail := List.replicate 4 0
  ip_hl := rfl
  handled := List.mem_cons_self
  rest_len := rfl
  hip_hl := rfl
  hip_len := by decide
  ip_p := rfl
  tail_len := by decide

end Daemon
end Unpv13e.Icmpd
