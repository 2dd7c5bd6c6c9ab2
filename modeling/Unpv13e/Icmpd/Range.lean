import Unpv13e.Icmpd.Daemon
import Unpv13e.Select.TcpServSelect

/-!
# Servers with many descriptors

Library `Icmpd`. The daemon and the echo server with `select` both look for a free entry of a table
with as many entries as a set has bits, and neither looks at the descriptor. As other sockets are in
the set, a free entry is always found, and what a descriptor too high for a set does is undefined.
-/

namespace Unpv13e.Icmpd
open Unpv13e.Base

/-! ### Reading a message leaves no set -/

private theorem byteAt_inRange (buf : List UInt8) (k : Nat) : InRange (byteAt buf k) := by
  unfold byteAt
  split
  · exact InRange.ok _
  · exact InRange.indeterminate

private theorem bytesAt_inRange (buf : List UInt8) (k n : Nat) : InRange (bytesAt buf k n) := by
  unfold bytesAt
  split
  · exact InRange.ok _
  · exact InRange.indeterminate

private theorem portAt_inRange (buf : List UInt8) (k : Nat) : InRange (portAt buf k) :=
  (byteAt_inRange buf k).bind fun _ ↦ (byteAt_inRange buf (k + 1)).bind fun _ ↦ InRange.ok _

private theorem parse4_inRange (buf : List UInt8) : InRange (parse4 buf) := by
  refine (byteAt_inRange buf 0).bind fun ip_hl ↦ ?_
  split
  · exact InRange.blocked
  · refine (byteAt_inRange _ _).bind fun type ↦ (byteAt_inRange _ _).bind fun code ↦ ?_
    split
    · split
      · exact InRange.blocked
      · refine (byteAt_inRange _ _).bind fun hip_hl ↦ (byteAt_inRange _ _).bind fun ip_p ↦ ?_
        split <;> exact InRange.ok _
    · exact InRange.ok _

private theorem parse6_inRange (buf : List UInt8) : InRange (parse6 buf) := by
  unfold parse6
  split
  · exact InRange.blocked
  · refine (byteAt_inRange _ _).bind fun type ↦ (byteAt_inRange _ _).bind fun code ↦ ?_
    split
    · split
      · exact InRange.blocked
      · refine (byteAt_inRange _ _).bind fun ip6_nxt ↦ ?_
        split <;> exact InRange.ok _
    · exact InRange.ok _

private theorem icmpdErr4_inRange (buf : List UInt8) (q : Quote) : InRange (icmpdErr4 buf q) :=
  (bytesAt_inRange _ _ _).bind fun _ ↦ (portAt_inRange _ _).bind fun _ ↦ InRange.ok _

private theorem icmpdErr6_inRange (buf : List UInt8) (q : Quote) : InRange (icmpdErr6 buf q) :=
  (bytesAt_inRange _ _ _).bind fun _ ↦ (portAt_inRange _ _).bind fun _ ↦ InRange.ok _

namespace Daemon

private theorem writeAll_inRange {err : Except Stop IcmpdErr} (h : InRange err) (fds : List Fd) :
    InRange (writeAll err fds) := by
  induction fds with
  | nil => exact InRange.ok _
  | cons fd fds ih => exact h.bind fun _ ↦ ih.bind fun _ ↦ InRange.ok _

private theorem tell_inRange {err : Quote → Except Stop IcmpdErr} (h : ∀ q, InRange (err q))
    (s : Daemon) (family : Nat) (buf : List UInt8) (quote : Option Quote) :
    InRange (s.tell family buf err quote) := by
  cases quote with
  | none => exact InRange.ok _
  | some q => exact (portAt_inRange _ _).bind fun _ ↦ writeAll_inRange (h q) _

theorem readable_v4_inRange (s : Daemon) (buf : List UInt8) : InRange (s.readable_v4 buf) :=
  (parse4_inRange buf).bind fun _ ↦
    (tell_inRange (icmpdErr4_inRange buf) s afInet buf _).bind fun _ ↦ InRange.ok _

theorem readable_v6_inRange (s : Daemon) (buf : List UInt8) : InRange (s.readable_v6 buf) :=
  (parse6_inRange buf).bind fun _ ↦
    (tell_inRange (icmpdErr6_inRange buf) s afInet6 buf _).bind fun _ ↦ InRange.ok _

/-! ### Steps -/

/-- The step accepts a connection whose descriptor is no index of a set. -/
def TooHigh (s : Daemon) (a : Act) : Prop :=
  s.pc = .listen ∧ s.listenfd ∈ s.rset ∧ ∃ connfd, a = .accept connfd ∧ fdSetSize ≤ connfd

theorem start_inRange_iff {fd4 fd6 listenfd : Fd} (h : [fd4, fd6, listenfd].Nodup) :
    InRange (start fd4 fd6 listenfd) ↔ fd4 < fdSetSize ∧ fd6 < fdSetSize ∧ listenfd < fdSetSize := by
  unfold start
  rw [if_pos h, InRange.set_bind_iff, InRange.set_bind_iff, InRange.set_bind_iff,
    and_iff_left (InRange.ok _)]

private theorem others_lt {s : Daemon} (hk : Kept s) {fd : Fd}
    (h : fd ∈ ({s.fd4, s.fd6, s.listenfd} : FdSet)) : fd < fdSetSize :=
  hk.tracks.small fd (hk.tracks.base h)

/-- There is a free entry, whatever descriptor is accepted. -/
theorem readable_listen_inRange_iff {s : Daemon} (hk : Kept s) (connfd : Fd) :
    InRange (s.readable_listen connfd) ↔ connfd < fdSetSize := by
  obtain ⟨i, hi⟩ := Slots.exists_firstHole (hk.tracks.hole ⟨_, Finset.mem_insert_self _ _⟩)
  unfold readable_listen
  rw [show Slots.firstHole none (fun i ↦ (s.client i).connfd) = some i from hi]
  exact InRange.set_bind_iff.trans (and_iff_left (InRange.ok _))

private theorem clientdone_inRange {s : Daemon} {i : Fin fdSetSize} {unixfd : Fd}
    (hlt : unixfd < fdSetSize) : InRange (s.clientdone i unixfd) :=
  InRange.clr_bind hlt (InRange.ok _)

private theorem readable_conn_inRange {s : Daemon} {i : Fin fdSetSize} {unixfd : Fd} (r : Request)
    (hlt : unixfd < fdSetSize) : InRange (s.readable_conn i unixfd r) := by
  unfold readable_conn
  split
  · exact (clientdone_inRange hlt).bind fun _ ↦ InRange.ok _
  · exact (clientdone_inRange hlt).bind fun _ ↦ InRange.ok _
  · exact (clientdone_inRange hlt).bind fun _ ↦ InRange.ok _
  · split
    · split
      · exact (clientdone_inRange hlt).bind fun _ ↦ InRange.ok _
      · exact InRange.ok _
    · exact InRange.ok _

private theorem not_tooHigh {s : Daemon} {a : Act} (h : s.pc ≠ .listen ∨ s.listenfd ∉ s.rset) :
    ¬ s.TooHigh a := by
  rintro ⟨hpc, hready, -⟩
  rcases h with h | h
  · exact h hpc
  · exact h hready

private theorem listen_inRange_iff {s : Daemon} (hk : Kept s) (hpc : s.pc = .listen) (a : Act) :
    InRange (s.step a) ↔ ¬ s.TooHigh a := by
  unfold step
  rw [hpc]
  dsimp only
  rw [FdSet.isset_eq (others_lt hk (by simp)), ok_bind]
  by_cases hready : s.listenfd ∈ s.rset
  · rw [decide_eq_true hready]
    cases a with
    | accept connfd =>
      have hhigh : s.TooHigh (.accept connfd) ↔ fdSetSize ≤ connfd := by
        constructor
        · rintro ⟨-, -, fd, he, hge⟩
          cases he
          exact hge
        · exact fun hge ↦ ⟨hpc, hready, connfd, rfl, hge⟩
      rw [hhigh, not_le]
      dsimp only
      split
      · next hmem => exact iff_of_true InRange.blocked (hk.tracks.small _ hmem)
      · exact readable_listen_inRange_iff hk connfd
    | _ =>
      refine iff_of_true InRange.blocked ?_
      rintro ⟨-, -, fd, he, -⟩
      cases he
  · rw [decide_eq_false hready]
    refine iff_of_true ?_ (not_tooHigh (.inr hready))
    cases a with
    | pass => exact InRange.ok _
    | _ => exact InRange.blocked

private theorem scan_inRange {s : Daemon} (hk : Kept s) {k : Nat} (hpc : s.pc = .scan k) (a : Act) :
    InRange (s.step a) := by
  unfold step
  rw [hpc]
  dsimp only
  split
  · next hk' =>
    cases hi : (s.client ⟨k, hk'.2⟩).connfd with
    | none =>
      cases a with
      | pass => exact InRange.ok _
      | _ => exact InRange.blocked
    | some sockfd =>
      have hlt := hk.tracks.small _ (hk.tracks.mem hi).1
      apply InRange.isset_bind hlt
      split
      · exact (readable_conn_inRange _ hlt).bind fun _ ↦ InRange.ok _
      · exact InRange.ok _
      · exact InRange.blocked
  · cases a with
    | pass => exact InRange.ok _
    | _ => exact InRange.blocked

/-- The only step that leaves a set is one that accepts a descriptor too high for it. -/
theorem step_inRange_iff {s : Daemon} (hk : Kept s) (a : Act) :
    InRange (s.step a) ↔ ¬ s.TooHigh a := by
  have hother {pc : Pc} (hpc : s.pc = pc) (hne : pc ≠ .listen) (h : InRange (s.step a)) :
      InRange (s.step a) ↔ ¬ s.TooHigh a := iff_of_true h (not_tooHigh (.inl (hpc ▸ hne)))
  cases hpc : s.pc with
  | select =>
    refine hother hpc (by decide) ?_
    unfold step
    rw [hpc]
    cases a with
    | select ready =>
      dsimp only
      split
      · exact InRange.ok _
      · exact InRange.blocked
    | _ => exact InRange.blocked
  | listen => exact listen_inRange_iff hk hpc a
  | v4 =>
    refine hother hpc (by decide) ?_
    unfold step
    rw [hpc]
    apply InRange.isset_bind (others_lt hk (by simp))
    split
    · split
      · exact (readable_v4_inRange s _).bind fun _ ↦ InRange.ok _
      · exact InRange.blocked
    · exact InRange.ok _
    · exact InRange.blocked
  | v6 =>
    refine hother hpc (by decide) ?_
    unfold step
    rw [hpc]
    apply InRange.isset_bind (others_lt hk (by simp))
    split
    · split
      · exact (readable_v6_inRange s _).bind fun _ ↦ InRange.ok _
      · exact InRange.blocked
    · exact InRange.ok _
    · exact InRange.blocked
  | scan k =>
    refine hother hpc ?_ (scan_inRange hk hpc a)
    intro h
    cases h

end Daemon

/-! ### Both servers -/

open Select in
/-- Whether the servers stay within the sets is decided by the descriptors that the system gives them:
those of their own sockets and those of accepted connections. -/
theorem descriptors_in_range (listenfd fd4 fd6 unixfd : Fd) :
    (InRange (Serv.start listenfd) ↔ listenfd < fdSetSize) ∧
      (∀ s₀ s a, Serv.start listenfd = .ok s₀ → Run Serv.Step s₀ s →
        (InRange (s.step a) ↔ ¬ s.TooHigh a)) ∧
      ([fd4, fd6, unixfd].Nodup → (InRange (Daemon.start fd4 fd6 unixfd) ↔
        fd4 < fdSetSize ∧ fd6 < fdSetSize ∧ unixfd < fdSetSize)) ∧
      ∀ s₀ s a, Daemon.start fd4 fd6 unixfd = .ok s₀ → Run Daemon.Step s₀ s →
        (InRange (s.step a) ↔ ¬ s.TooHigh a) :=
  ⟨Serv.start_inRange_iff listenfd,
    fun _ _ a hstart h ↦ Serv.step_inRange_iff (Serv.kept_of_run hstart h) a,
    Daemon.start_inRange_iff,
    fun _ _ a hstart h ↦ Daemon.step_inRange_iff (Daemon.kept_of_run hstart h) a⟩

open Select in
/-- Descriptors 3, 4 and 5 are indices of a set. -/
theorem descriptors_in_range_started : (∃ s₀, Serv.start 3 = .ok s₀ ∧ InRange (s₀.step .pass)) ∧
    InRange (Daemon.start 3 4 5) := by
  obtain ⟨hserv, hstep, hstart, -⟩ := descriptors_in_range 3 3 4 5
  obtain ⟨s₀, h⟩ : ∃ s₀, Serv.start 3 = .ok s₀ := ⟨_, rfl⟩
  refine ⟨⟨s₀, h, (hstep s₀ s₀ .pass h .refl).mpr ?_⟩, (hstart (by decide)).mpr (by decide)⟩
  rintro ⟨-, -, fd, he, -⟩
  cases he

open Select in
/-- Both accept a connection whose descriptor is 1024. -/
theorem accepts_1024 :
    (∃ s₀ s, Serv.start 3 = .ok s₀ ∧ Run Serv.Step s₀ s ∧ ¬ InRange (s.step (.accept 1024))) ∧
      ∃ s₀ s, Daemon.start 3 4 5 = .ok s₀ ∧ Run Daemon.Step s₀ s ∧
        ¬ InRange (s.step (.accept 1024)) := by
  constructor
  · have hrun : (Serv.start 3 >>= fun s ↦ runActs Serv.step s [.select {3}]).toOption.map
        (fun s ↦ decide (¬ InRange (s.step (.accept 1024)))) = some true := by decide +kernel
    obtain ⟨s₀, s, hstart, hs, hend⟩ := exists_of_runActs hrun
    exact ⟨s₀, s, hstart, run_of_runActs _ _ _ _ hs, of_decide_eq_true hend⟩
  · have hrun : (Daemon.start 3 4 5 >>= fun s ↦ runActs Daemon.step s [.select {5}]).toOption.map
        (fun s ↦ decide (¬ InRange (s.step (.accept 1024)))) = some true := by decide +kernel
    obtain ⟨s₀, s, hstart, hs, hend⟩ := exists_of_runActs hrun
    exact ⟨s₀, s, hstart, run_of_runActs _ _ _ _ hs, of_decide_eq_true hend⟩

end Unpv13e.Icmpd
