import Unpv13e.Base.Countdown
import Unpv13e.Base.Descriptors
import Unpv13e.Base.Runs
import Unpv13e.Base.Slots

/-!
# The echo server with `select`

Library `Select`. `main` of `src/tcpcliserv/tcpservselect01.c:7–82`: one turn of the loop is a
`select`, a new connection and the test of every client. `FD_SET` and its kind are undefined for a
descriptor that is no index of a set. `err_quit` and failing calls end the program; it takes no step
then.
-/

namespace Unpv13e.Select
open Unpv13e.Base

/-- Where `main` is. -/
inductive Pc
  /-- `rset = allset` and `Select` -/
  | select
  /-- `if (FD_ISSET(listenfd, &rset))` -/
  | listen
  /-- the loop over the clients, at index `i` -/
  | scan (i : Nat)
  deriving DecidableEq

/-- The local variables of `main`. -/
structure Serv where
  listenfd : Fd
  /-- `none` for -1 -/
  client : Fin fdSetSize → Option Fd
  maxi : Int
  maxfd : Fd
  allset : FdSet
  rset : FdSet
  nready : Int
  pc : Pc
  /-- what has been accepted on or read from since the last `select`, not a variable of the code -/
  served : List Fd

/-- What a step gets from outside. -/
inductive Act
  /-- `Select` leaves these descriptors in `rset` -/
  | select (ready : FdSet)
  /-- nothing is read -/
  | pass
  /-- `Accept` returns this descriptor -/
  | accept (connfd : Fd)
  /-- `Read` returns this number -/
  | read (n : Nat)

namespace Serv

/-- Before the first turn of the loop, `src/tcpcliserv/tcpservselect01.c:26–31`. -/
def start (listenfd : Fd) : Except Stop Serv :=
  FdSet.set listenfd ∅ >>= fun allset ↦
    .ok ⟨listenfd, fun _ ↦ none, -1, listenfd, allset, ∅, 0, .select, []⟩

/-- A new connection, `src/tcpcliserv/tcpservselect01.c:39–64`. -/
def accept (s : Serv) (connfd : Fd) : Except Stop Serv :=
  match Slots.firstHole none s.client with
  | none => .error .blocked
  | some i =>
    FdSet.set connfd s.allset >>= fun allset ↦
      .ok { s with
        client := Function.update s.client i (some connfd)
        allset := allset
        maxfd := if connfd > s.maxfd then connfd else s.maxfd
        maxi := if (i.val : Int) > s.maxi then i.val else s.maxi
        nready := s.nready - 1
        pc := if s.nready - 1 ≤ 0 then .select else .scan 0
        served := s.served ++ [s.listenfd] }

/-- A client that is ready, `src/tcpcliserv/tcpservselect01.c:71–80`. -/
def read (s : Serv) (i : Fin fdSetSize) (sockfd : Fd) (n : Nat) : Except Stop Serv :=
  let s := { s with
    nready := s.nready - 1
    pc := if s.nready - 1 ≤ 0 then .select else .scan (i.val + 1)
    served := s.served ++ [sockfd] }
  if n = 0 then
    FdSet.clr sockfd s.allset >>= fun allset ↦
      .ok { s with allset := allset, client := Function.update s.client i none }
  else .ok s

/-- The next step. A descriptor that `Accept` returns was not in use. -/
def step (s : Serv) (a : Act) : Except Stop Serv :=
  match s.pc with
  | .select =>
    match a with
    | .select ready =>
      if ready ⊆ s.allset.filter (· ≤ s.maxfd) then
        .ok { s with rset := ready, nready := ready.card, pc := .listen, served := [] }
      else .error .blocked
    | _ => .error .blocked
  | .listen =>
    FdSet.isset s.listenfd s.rset >>= fun isset ↦
      match isset, a with
      | true, .accept connfd => if connfd ∈ s.allset then .error .blocked else s.accept connfd
      | false, .pass => .ok { s with pc := .scan 0 }
      | _, _ => .error .blocked
  | .scan k =>
    if h : (k : Int) ≤ s.maxi ∧ k < fdSetSize then
      match s.client ⟨k, h.2⟩ with
      | none =>
        match a with
        | .pass => .ok { s with pc := .scan (k + 1) }
        | _ => .error .blocked
      | some sockfd =>
        FdSet.isset sockfd s.rset >>= fun isset ↦
          match isset, a with
          | true, .read n => s.read ⟨k, h.2⟩ sockfd n
          | false, .pass => .ok { s with pc := .scan (k + 1) }
          | _, _ => .error .blocked
    else
      match a with
      | .pass => .ok { s with pc := .select }
      | _ => .error .blocked

/-- The step as a relation. -/
def Step (s : Serv) (a : Act) (t : Serv) : Prop := s.step a = .ok t

/-! ### What a step does -/

/-- After a descriptor has been served the loop over the clients goes on or ends. -/
def onwards (left : Int) (k : Nat) : Pc := if left ≤ 0 then .select else .scan k

/-- The steps that are taken, one constructor for each. -/
inductive Does (s : Serv) : Serv → Prop
  | select (ready : FdSet) (hpc : s.pc = .select) (hsub : ready ⊆ s.allset) :
    Does s { s with rset := ready, nready := ready.card, pc := .listen, served := [] }
  | accept (i : Fin fdSetSize) (connfd : Fd) (hpc : s.pc = .listen) (hready : s.listenfd ∈ s.rset)
    (hnew : connfd ∉ s.allset) (hlt : connfd < fdSetSize) (hfree : s.client i = none) :
    Does s { s with
      client := Function.update s.client i (some connfd)
      allset := insert connfd s.allset
      maxfd := if connfd > s.maxfd then connfd else s.maxfd
      maxi := if (i.val : Int) > s.maxi then i.val else s.maxi
      nready := s.nready - 1
      pc := onwards (s.nready - 1) 0
      served := s.served ++ [s.listenfd] }
  | noAccept (hpc : s.pc = .listen) (hready : s.listenfd ∉ s.rset) : Does s { s with pc := .scan 0 }
  | skip (k : Nat) (hpc : s.pc = .scan k)
    (hnone : ∀ i fd, i.val = k → s.client i = some fd → fd ∉ s.rset) :
    Does s { s with pc := .scan (k + 1) }
  | data (i : Fin fdSetSize) (sockfd : Fd) (hpc : s.pc = .scan i) (hi : s.client i = some sockfd)
    (hready : sockfd ∈ s.rset) :
    Does s { s with
      nready := s.nready - 1
      pc := onwards (s.nready - 1) (i + 1)
      served := s.served ++ [sockfd] }
  | eof (i : Fin fdSetSize) (sockfd : Fd) (hpc : s.pc = .scan i) (hi : s.client i = some sockfd)
    (hready : sockfd ∈ s.rset) :
    Does s { s with
      nready := s.nready - 1
      pc := onwards (s.nready - 1) (i + 1)
      served := s.served ++ [sockfd]
      allset := s.allset.erase sockfd
      client := Function.update s.client i none }
  | last (k : Nat) (hpc : s.pc = .scan k) (hend : s.maxi < k ∨ fdSetSize ≤ k) :
    Does s { s with pc := .select }

private theorem does_of_accept {s t : Serv} {connfd : Fd} (hpc : s.pc = .listen)
    (hready : s.listenfd ∈ s.rset) (hnew : connfd ∉ s.allset) (h : s.accept connfd = .ok t) :
    Does s t := by
  unfold accept at h
  split at h
  · cases h
  · next i hi =>
    obtain ⟨allset, hset, h⟩ := exists_of_bind_ok h
    obtain ⟨hlt, rfl⟩ := FdSet.set_ok hset
    cases h
    exact .accept i connfd hpc hready hnew hlt (Slots.of_firstHole hi).1

private theorem does_of_read {s t : Serv} {i : Fin fdSetSize} {sockfd : Fd} {n : Nat}
    (hpc : s.pc = .scan i) (hi : s.client i = some sockfd) (hready : sockfd ∈ s.rset)
    (h : s.read i sockfd n = .ok t) : Does s t := by
  unfold read at h
  dsimp only at h
  split at h
  · obtain ⟨allset, hclr, h⟩ := exists_of_bind_ok h
    obtain ⟨-, rfl⟩ := FdSet.clr_ok hclr
    cases h
    exact .eof i sockfd hpc hi hready
  · cases h
    exact .data i sockfd hpc hi hready

private theorem does_of_listen {s t : Serv} {a : Act} (hpc : s.pc = .listen)
    (h : s.step a = .ok t) : Does s t := by
  unfold step at h
  rw [hpc] at h
  obtain ⟨isset, hisset, hm⟩ := exists_of_bind_ok h
  obtain ⟨-, hb⟩ := FdSet.isset_ok hisset
  clear h hisset
  split at hm
  · next connfd =>
    split at hm
    · cases hm
    · next hnew => exact does_of_accept hpc (of_decide_eq_true hb.symm) hnew hm
  · cases hm
    exact .noAccept hpc (of_decide_eq_false hb.symm)
  · cases hm

private theorem does_of_client {s t : Serv} {a : Act} {i : Fin fdSetSize} {sockfd : Fd}
    (hpc : s.pc = .scan i) (hi : s.client i = some sockfd) (hle : (i.val : Int) ≤ s.maxi)
    (h : s.step a = .ok t) : Does s t := by
  unfold step at h
  rw [hpc] at h
  dsimp only at h
  rw [dif_pos ⟨hle, i.isLt⟩, hi] at h
  obtain ⟨isset, hisset, hm⟩ := exists_of_bind_ok h
  obtain ⟨-, hb⟩ := FdSet.isset_ok hisset
  clear h hisset
  split at hm
  · exact does_of_read hpc hi (of_decide_eq_true hb.symm) hm
  · cases hm
    refine .skip i hpc ?_
    intro j fd hj hfd
    rw [Fin.ext hj, hi, Option.some_inj] at hfd
    exact hfd ▸ of_decide_eq_false hb.symm
  · cases hm

/-- Every step is one of these. -/
theorem does_of_step {s t : Serv} {a : Act} (h : Step s a t) : Does s t := by
  unfold Step at h
  cases hpc : s.pc with
  | select =>
    unfold step at h
    rw [hpc] at h
    cases a with
    | select ready =>
      dsimp only at h
      split at h
      · next hsub =>
        cases h
        exact .select ready hpc (hsub.trans (Finset.filter_subset _ _))
      · cases h
    | _ => cases h
  | listen => exact does_of_listen hpc h
  | scan k =>
    by_cases hk : (k : Int) ≤ s.maxi ∧ k < fdSetSize
    · cases hi : s.client ⟨k, hk.2⟩ with
      | some sockfd => exact does_of_client (i := ⟨k, hk.2⟩) hpc hi hk.1 h
      | none =>
        unfold step at h
        rw [hpc] at h
        dsimp only at h
        rw [dif_pos hk, hi] at h
        cases a with
        | pass =>
          cases h
          refine .skip k hpc ?_
          rintro i fd rfl hfd
          rw [hi] at hfd
          cases hfd
        | _ => cases h
    · unfold step at h
      rw [hpc] at h
      dsimp only at h
      rw [dif_neg hk] at h
      cases a with
      | pass =>
        cases h
        exact .last k hpc (by omega)
      | _ => cases h

/-! ### Bookkeeping -/

/-- What has been served since the last `select`, against what it reported. -/
def Round (s : Serv) : Prop :=
  match s.pc with
  | .select => s.served.Nodup ∧ ∀ fd, fd ∈ s.served ↔ fd ∈ s.rset
  | .listen => s.served = [] ∧ s.rset ⊆ s.allset ∧ Countdown s.rset s.served s.nready
  | .scan k => Scan s.rset s.served s.nready s.client k

/-- The table, its bounds and the current round. -/
structure Kept (s : Serv) : Prop where
  tracks : Tracks {s.listenfd} s.allset s.client
  used : ∀ i, s.client i ≠ none → (i.val : Int) ≤ s.maxi
  top : ∀ fd ∈ s.allset, fd ≤ s.maxfd
  round : s.Round

/-- When none is left the round is over. -/
theorem round_onwards {s : Serv} {k : Nat} (hpc : s.pc = onwards s.nready k)
    (h : Scan s.rset s.served s.nready s.client k) : s.Round := by
  unfold Round
  rw [hpc]
  unfold onwards
  split
  · next heq =>
    split at heq
    · next h0 => exact ⟨h.nodup, h.complete h0⟩
    · cases heq
  · next heq => split at heq <;> cases heq
  · next heq =>
    split at heq
    · cases heq
    · cases heq
      exact h

/-- Before the first turn. -/
theorem kept_start {listenfd : Fd} {s : Serv} (h : start listenfd = .ok s) : Kept s := by
  obtain ⟨allset, hset, h⟩ := exists_of_bind_ok h
  obtain ⟨hlt, rfl⟩ := FdSet.set_ok hset
  cases h
  refine ⟨Tracks.empty ?_, fun i hi ↦ absurd rfl hi, ?_, List.nodup_nil, ?_⟩
  · intro fd hfd
    rwa [Finset.mem_singleton.mp hfd]
  · intro fd hfd
    exact le_of_eq (Finset.mem_singleton.mp hfd)
  · intro fd
    exact iff_of_false List.not_mem_nil (Finset.notMem_empty fd)

/-- What is reported and is not the listening socket is a client's. -/
private theorem client_of_reported {s : Serv} (hk : Kept s) (hsub : s.rset ⊆ s.allset) {fd : Fd}
    (hfd : fd ∈ s.rset) (hne : fd ≠ s.listenfd) : ∃ i, s.client i = some fd := by
  rcases (hk.tracks.mem_iff fd).mp (hsub hfd) with hl | hi
  · exact absurd (Finset.mem_singleton.mp hl) hne
  · exact hi

/-- A new connection is counted as one served descriptor. Its own was not reported. -/
private theorem scan_accept {s : Serv} {connfd : Fd} {i : Fin fdSetSize} (hk : Kept s)
    (hpc : s.pc = .listen) (hready : s.listenfd ∈ s.rset) (hnew : connfd ∉ s.allset)
    (hfree : s.client i = none) :
    Scan s.rset (s.served ++ [s.listenfd]) (s.nready - 1)
      (Function.update s.client i (some connfd)) 0 := by
  have hround := hk.round
  unfold Round at hround
  rw [hpc] at hround
  obtain ⟨hserved, hsub, hcount⟩ := hround
  refine ⟨hcount.serve hready (by rw [hserved]; exact List.not_mem_nil), ?_, ?_⟩
  · intro fd hfd hs
    rw [hserved, List.nil_append, List.mem_singleton] at hs
    obtain ⟨j, hj⟩ := client_of_reported hk hsub hfd hs
    have hji : j ≠ i := by
      rintro rfl
      rw [hfree] at hj
      cases hj
    exact ⟨j, Nat.zero_le _, by rwa [Function.update_of_ne hji]⟩
  · intro j fd _ hj hs
    rw [hserved, List.nil_append, List.mem_singleton] at hs
    rw [hs] at hj
    by_cases hji : j = i
    · rw [hji, Function.update_self, Option.some_inj] at hj
      exact hnew (hj ▸ hk.tracks.base (Finset.mem_singleton_self _))
    · rw [Function.update_of_ne hji] at hj
      exact (hk.tracks.mem hj).2 (Finset.mem_singleton_self _)

/-- No new connection: all that is reported are clients. -/
private theorem scan_noAccept {s : Serv} (hk : Kept s) (hpc : s.pc = .listen)
    (hready : s.listenfd ∉ s.rset) : Scan s.rset s.served s.nready s.client 0 := by
  have hround := hk.round
  unfold Round at hround
  rw [hpc] at hround
  obtain ⟨hserved, hsub, hcount⟩ := hround
  refine ⟨hcount, ?_, ?_⟩
  · intro fd hfd _
    obtain ⟨i, hi⟩ := client_of_reported hk hsub hfd fun he ↦ hready (he ▸ hfd)
    exact ⟨i, Nat.zero_le _, hi⟩
  · intro i fd _ _ hs
    rw [hserved] at hs
    cases hs

/-- One step keeps the table and serves no descriptor twice. -/
theorem Kept.does {s t : Serv} (hk : Kept s) (hd : Does s t) : Kept t := by
  have hround := hk.round
  unfold Round at hround
  cases hd with
  | select ready hpc hsub =>
    exact ⟨hk.tracks, hk.used, hk.top, rfl, hsub, .start ready⟩
  | accept i connfd hpc hready hnew hlt hfree =>
    refine ⟨hk.tracks.add hfree hlt hnew, ?_, ?_, ?_⟩
    · intro j hj
      dsimp only at hj ⊢
      by_cases hji : j = i
      · rw [hji]
        split <;> omega
      · rw [Function.update_of_ne hji] at hj
        have := hk.used j hj
        split <;> omega
    · intro fd hfd
      dsimp only
      rcases Finset.mem_insert.mp hfd with rfl | hfd
      · split
        · exact le_refl fd
        · next hle => exact not_lt.mp hle
      · split
        · next hgt => exact (hk.top fd hfd).trans (le_of_lt hgt)
        · exact hk.top fd hfd
    · exact round_onwards rfl (scan_accept hk hpc hready hnew hfree)
  | noAccept hpc hready =>
    have hscan := scan_noAccept hk hpc hready
    exact ⟨hk.tracks, hk.used, hk.top, hscan⟩
  | skip k hpc hnone =>
    rw [hpc] at hround
    exact ⟨hk.tracks, hk.used, hk.top, hround.skip hnone⟩
  | data i sockfd hpc hi hready =>
    rw [hpc] at hround
    refine ⟨hk.tracks, hk.used, hk.top, round_onwards rfl ?_⟩
    exact hround.hit hi hready fun j hj ↦ hk.tracks.once hj hi
  | eof i sockfd hpc hi hready =>
    rw [hpc] at hround
    refine ⟨hk.tracks.drop hi, ?_, ?_, round_onwards rfl ?_⟩
    · intro j hj
      by_cases hji : j = i
      · rw [hji] at hj
        exact absurd (Function.update_self i none s.client) hj
      · exact hk.used j (by rwa [← Function.update_of_ne hji none s.client])
    · intro fd hfd
      exact hk.top fd (Finset.mem_of_mem_erase hfd)
    · refine (hround.hit hi hready fun j hj ↦ hk.tracks.once hj hi).congr fun j hj ↦ ?_
      apply Function.update_of_ne
      rintro rfl
      omega
  | last k hpc hend =>
    rw [hpc] at hround
    refine ⟨hk.tracks, hk.used, hk.top, hround.nodup, hround.finish ?_⟩
    intro i hki
    by_contra hne
    have := hk.used i hne
    have := i.isLt
    omega

/-- Every reachable state is kept. -/
theorem kept_of_run {listenfd : Fd} {s₀ s : Serv} (hstart : start listenfd = .ok s₀)
    (h : Run Step s₀ s) : Kept s :=
  h.preserves (fun _ _ _ hk _ hs ↦ hk.does (does_of_step hs)) (kept_start hstart)

/-- At the top of the loop the set has the listening socket and the clients, each client once and
within the bounds, and the last iteration served what `select` had reported, each once. -/
theorem bookkeeping {listenfd : Fd} {s₀ s : Serv} (hstart : start listenfd = .ok s₀)
    (h : RunWith Step (fun _ a ↦ ∀ connfd, a = .accept connfd → connfd < fdSetSize) s₀ s)
    (htop : s.pc = .select) :
    (∀ fd, fd ∈ s.allset ↔ fd = s.listenfd ∨ ∃ i, s.client i = some fd) ∧
      (∀ i j fd, s.client i = some fd → s.client j = some fd → i = j) ∧
      (∀ i fd, s.client i = some fd → (i.val : Int) ≤ s.maxi) ∧
      (∀ fd ∈ s.allset, fd ≤ s.maxfd) ∧ s.served.Nodup ∧ ∀ fd, fd ∈ s.served ↔ fd ∈ s.rset := by
  have hk := kept_of_run hstart (h.mono fun _ _ _ ↦ True.intro)
  have hround := hk.round
  unfold Round at hround
  rw [htop] at hround
  refine ⟨?_, fun i j fd ↦ hk.tracks.once, ?_, hk.top, hround⟩
  · intro fd
    rw [hk.tracks.mem_iff, Finset.mem_singleton]
  · intro i fd hi
    exact hk.used i (by rw [hi]; simp)

/-- Listening socket 3 and a client 4, which ends in the second turn. -/
theorem bookkeeping_closed : ∃ s : Serv, s.rset = {4} ∧ s.served.Nodup ∧
    ∀ fd, fd ∈ s.served ↔ fd ∈ s.rset := by
  let acts : List Act := [.select {3}, .accept 4, .select {4}, .pass, .read 0]
  have hrun : (start 3 >>= fun s ↦ runActs step s acts).toOption.map
      (fun s ↦ decide (s.pc = .select ∧ s.rset = {4})) = some true := by decide +kernel
  obtain ⟨s₀, s, hstart, hs, hend⟩ := exists_of_runActs hrun
  have hend := of_decide_eq_true hend
  refine ⟨s, hend.2, (bookkeeping hstart (runWith_of_runActs ?_ hs) hend.1).2.2.2.2⟩
  intro a ha _ connfd he
  subst he
  simp only [acts, List.mem_cons, List.not_mem_nil, Act.accept.injEq, reduceCtorEq, or_false,
    false_or] at ha
  rw [ha]
  decide

/-! ### Descriptors out of range -/

/-- The step accepts a connection whose descriptor is no index of a set. -/
def TooHigh (s : Serv) (a : Act) : Prop :=
  s.pc = .listen ∧ s.listenfd ∈ s.rset ∧ ∃ connfd, a = .accept connfd ∧ fdSetSize ≤ connfd

theorem start_inRange_iff (listenfd : Fd) : InRange (start listenfd) ↔ listenfd < fdSetSize :=
  InRange.set_bind_iff.trans (and_iff_left (InRange.ok _))

/-- There is a free entry, whatever descriptor is accepted. -/
theorem accept_inRange_iff {s : Serv} (hk : Kept s) (connfd : Fd) :
    InRange (s.accept connfd) ↔ connfd < fdSetSize := by
  obtain ⟨i, hi⟩ := Slots.exists_firstHole (hk.tracks.hole ⟨_, Finset.mem_singleton_self _⟩)
  unfold accept
  rw [hi]
  exact InRange.set_bind_iff.trans (and_iff_left (InRange.ok _))

private theorem read_inRange {s : Serv} {i : Fin fdSetSize} {sockfd : Fd} (n : Nat)
    (hlt : sockfd < fdSetSize) : InRange (s.read i sockfd n) := by
  unfold read
  dsimp only
  split
  · exact InRange.clr_bind hlt (InRange.ok _)
  · exact InRange.ok _

private theorem not_tooHigh {s : Serv} {a : Act} (h : s.pc ≠ .listen ∨ s.listenfd ∉ s.rset) :
    ¬ s.TooHigh a := by
  rintro ⟨hpc, hready, -⟩
  rcases h with h | h
  · exact h hpc
  · exact h hready

private theorem listen_inRange_iff {s : Serv} (hk : Kept s) (hpc : s.pc = .listen) (a : Act) :
    InRange (s.step a) ↔ ¬ s.TooHigh a := by
  have hmem : s.listenfd ∈ s.allset := hk.tracks.base (Finset.mem_singleton_self _)
  unfold step
  rw [hpc]
  dsimp only
  rw [FdSet.isset_eq (hk.tracks.small _ hmem), ok_bind]
  by_cases hready : s.listenfd ∈ s.rset
  · rw [decide_eq_true hready]
    cases a with
    | accept connfd =>
      have hhigh : s.TooHigh (.accept connfd) ↔ fdSetSize ≤ connfd := by
        constructor
        · rintro ⟨-, -, fd, he, hge⟩
          cases he
          exact hge
        · exact fun hge ↦ ⟨hpc, hready, connfd, rfl, hge⟩
      rw [hhigh, not_le]
      dsimp only
      split
      · next hmem => exact iff_of_true InRange.blocked (hk.tracks.small _ hmem)
      · exact accept_inRange_iff hk connfd
    | _ =>
      refine iff_of_true InRange.blocked ?_
      rintro ⟨-, -, fd, he, -⟩
      cases he
  · rw [decide_eq_false hready]
    refine iff_of_true ?_ (not_tooHigh (.inr hready))
    cases a with
    | pass => exact InRange.ok _
    | _ => exact InRange.blocked

private theorem scan_inRange {s : Serv} (hk : Kept s) {k : Nat} (hpc : s.pc = .scan k) (a : Act) :
    InRange (s.step a) := by
  unfold step
  rw [hpc]
  dsimp only
  split
  · next hk' =>
    cases hi : s.client ⟨k, hk'.2⟩ with
    | none =>
      cases a with
      | pass => exact InRange.ok _
      | _ => exact InRange.blocked
    | some sockfd =>
      have hlt := hk.tracks.small _ (hk.tracks.mem hi).1
      apply InRange.isset_bind hlt
      split
      · exact read_inRange _ hlt
      · exact InRange.ok _
      · exact InRange.blocked
  · cases a with
    | pass => exact InRange.ok _
    | _ => exact InRange.blocked

/-- The only step that leaves a set is one that accepts a descriptor too high for it. -/
theorem step_inRange_iff {s : Serv} (hk : Kept s) (a : Act) :
    InRange (s.step a) ↔ ¬ s.TooHigh a := by
  cases hpc : s.pc with
  | select =>
    refine iff_of_true ?_ (not_tooHigh (.inl (by rw [hpc]; decide)))
    unfold step
    rw [hpc]
    cases a with
    | select ready =>
      dsimp only
      split
      · exact InRange.ok _
      · exact InRange.blocked
    | _ => exact InRange.blocked
  | listen => exact listen_inRange_iff hk hpc a
  | scan k =>
    refine iff_of_true (scan_inRange hk hpc a) (not_tooHigh (.inl ?_))
    rw [hpc]
    intro h
    cases h

end Serv
end Unpv13e.Select
