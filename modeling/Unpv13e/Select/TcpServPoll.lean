import Unpv13e.Base.Count
import Unpv13e.Base.Descriptors
import Unpv13e.Base.Runs

/-!
# The echo server with `poll`

Library `Select`. `main` of `src/tcpcliserv/tcpservpoll01.c:6–89`. `client[0]` is the entry of the
listening socket. `poll` writes `revents` of the entries up to `maxi`, 0 for those with descriptor
-1, and returns how many of them are not 0. `err_quit` and failing calls end the program; it takes
no step then.
-/

namespace Unpv13e.Select
open Unpv13e.Base

/-- What `poll` reports of a descriptor it is asked for `POLLRDNORM` of. -/
inductive PollBit
  | rdnorm
  | err
  | hup
  | nval
  deriving DecidableEq

/-- `revents` -/
abbrev Revents := Finset PollBit

/-- `revents & (POLLRDNORM | POLLERR)` -/
def Revents.Readable (r : Revents) : Prop := .rdnorm ∈ r ∨ .err ∈ r

instance (r : Revents) : Decidable r.Readable := inferInstanceAs (Decidable (_ ∨ _))

/-- Where `main` is. -/
inductive PollPc
  /-- `Poll` -/
  | poll
  /-- `if (client[0].revents & POLLRDNORM)` -/
  | listen
  /-- the loop over the clients, at index `i` -/
  | scan (i : Nat)
  deriving DecidableEq

/-- The local variables of `main`, where `OPEN_MAX` is `m + 1`. -/
structure PollServ (m : Nat) where
  /-- `client[i].fd`, `none` for -1 -/
  fd : Fin (m + 1) → Option Fd
  /-- `client[i].revents` -/
  revents : Fin (m + 1) → Revents
  maxi : Nat
  nready : Int
  pc : PollPc
  /-- the descriptor for which the last `poll` wrote `client[i].revents`, `none` if it did not; not a
  variable of the code -/
  polled : Fin (m + 1) → Option Fd

/-- What `read` comes to. After another error the program ends. -/
inductive ReadResult
  | data
  | eof
  /-- `ECONNRESET` -/
  | reset
  deriving DecidableEq

/-- What a step gets from outside. -/
inductive PollAct (m : Nat)
  /-- `Poll` writes these `revents` -/
  | poll (revents : Fin (m + 1) → Revents)
  /-- nothing is read -/
  | pass
  /-- `Accept` returns this descriptor -/
  | accept (connfd : Fd)
  | read (result : ReadResult)

namespace PollServ
variable {m : Nat}

/-- Before the first turn of the loop, `src/tcpcliserv/tcpservpoll01.c:27–31`. Nothing has written
the `revents`. -/
def start (listenfd : Fd) (revents : Fin (m + 1) → Revents) : PollServ m where
  fd i := if i = 0 then some listenfd else none
  revents := revents
  maxi := 0
  nready := 0
  pc := .poll
  polled _ := none

/-- How many entries from `k` up to, but not including, `n` have something reported. -/
def reported (k n : Nat) (revents : Fin (m + 1) → Revents) : Nat :=
  count fun i ↦ k ≤ i.val ∧ i.val < n ∧ revents i ≠ ∅

/-- After a descriptor has been served the loop over the clients goes on or ends. -/
def pollOnwards (left : Int) (k : Nat) : PollPc := if left ≤ 0 then .poll else .scan k

/-- `Poll(client, maxi+1, INFTIM)` -/
def poll (s : PollServ m) (revents : Fin (m + 1) → Revents) : PollServ m :=
  { s with
    revents := fun i ↦ if i.val ≤ s.maxi then revents i else s.revents i
    nready := reported 0 (s.maxi + 1) revents
    pc := .listen
    polled := fun i ↦ if i.val ≤ s.maxi then s.fd i else none }

/-- A new connection, `src/tcpcliserv/tcpservpoll01.c:45–60`. -/
def accept (s : PollServ m) (connfd : Fd) : Option (PollServ m) :=
  match (List.finRange (m + 1)).find? fun i ↦ 1 ≤ i.val ∧ s.fd i = none with
  | none => none
  | some i => some { s with
      fd := Function.update s.fd i (some connfd)
      maxi := if i.val > s.maxi then i.val else s.maxi
      nready := s.nready - 1
      pc := pollOnwards (s.nready - 1) 1 }

/-- A client that is ready, `src/tcpcliserv/tcpservpoll01.c:67–88`. -/
def read (s : PollServ m) (i : Fin (m + 1)) (result : ReadResult) : PollServ m :=
  { s with
    fd := if result = .data then s.fd else Function.update s.fd i none
    nready := s.nready - 1
    pc := pollOnwards (s.nready - 1) (i.val + 1) }

/-- `main` reads from `client[i]`, whose descriptor is `sockfd`. -/
def Reads (s : PollServ m) (i : Fin (m + 1)) (sockfd : Fd) : Prop :=
  s.pc = .scan i.val ∧ i.val ≤ s.maxi ∧ s.fd i = some sockfd ∧ (s.revents i).Readable

instance (s : PollServ m) (i : Fin (m + 1)) (sockfd : Fd) : Decidable (s.Reads i sockfd) :=
  inferInstanceAs (Decidable (_ ∧ _ ∧ _ ∧ _))

/-- The next step. A descriptor that `Accept` returns was not in use. -/
def step (s : PollServ m) (a : PollAct m) : Option (PollServ m) :=
  match s.pc, a with
  | .poll, .poll revents =>
    if (∀ i, s.fd i = none → revents i = ∅) ∧ 0 < reported 0 (s.maxi + 1) revents then
      some (s.poll revents)
    else none
  | .listen, .accept connfd =>
    if .rdnorm ∈ s.revents 0 ∧ ∀ i, s.fd i ≠ some connfd then s.accept connfd else none
  | .listen, .pass => if .rdnorm ∈ s.revents 0 then none else some { s with pc := .scan 1 }
  | .scan k, .read result =>
    if h : k < m + 1 then
      if k ≤ s.maxi ∧ s.fd ⟨k, h⟩ ≠ none ∧ (s.revents ⟨k, h⟩).Readable then
        some (s.read ⟨k, h⟩ result)
      else none
    else none
  | .scan k, .pass =>
    if h : k < m + 1 then
      if s.maxi < k then some { s with pc := .poll }
      else if s.fd ⟨k, h⟩ ≠ none ∧ (s.revents ⟨k, h⟩).Readable then none
      else some { s with pc := .scan (k + 1) }
    else some { s with pc := .poll }
  | _, _ => none

/-- The step as a relation. -/
def Step (s : PollServ m) (a : PollAct m) (t : PollServ m) : Prop := s.step a = some t

/-- When a connection gets an entry beyond those that were polled, all else that was reported is
reported as readable, or what the entry happens to hold does not look readable. -/
def Served (s : PollServ m) : PollAct m → Prop
  | .accept _ =>
    (∃ i : Fin (m + 1), 1 ≤ i.val ∧ i.val ≤ s.maxi ∧ s.fd i = none) ∨
      (∀ i : Fin (m + 1), 1 ≤ i.val → i.val ≤ s.maxi → s.revents i ≠ ∅ → (s.revents i).Readable) ∨
      ∀ i : Fin (m + 1), i.val = s.maxi + 1 → ¬ (s.revents i).Readable
  | _ => True

instance (s : PollServ m) (a : PollAct m) : Decidable (s.Served a) :=
  match a with
  | .accept _ => inferInstanceAs (Decidable (_ ∨ _ ∨ _))
  | .poll _ => isTrue True.intro
  | .pass => isTrue True.intro
  | .read _ => isTrue True.intro

/-! ### What a step does -/

/-- The steps that are taken, one constructor for each. -/
inductive Does (s : PollServ m) : PollAct m → PollServ m → Prop
  | poll (revents : Fin (m + 1) → Revents) (hpc : s.pc = .poll)
    (hfree : ∀ i, s.fd i = none → revents i = ∅) (hsome : 0 < reported 0 (s.maxi + 1) revents) :
    Does s (.poll revents) (s.poll revents)
  | accept (i : Fin (m + 1)) (connfd : Fd) (hpc : s.pc = .listen) (hready : .rdnorm ∈ s.revents 0)
    (hi : 1 ≤ i.val) (hfree : s.fd i = none) (hfirst : ∀ j, 1 ≤ j.val → j < i → s.fd j ≠ none) :
    Does s (.accept connfd) { s with
      fd := Function.update s.fd i (some connfd)
      maxi := if i.val > s.maxi then i.val else s.maxi
      nready := s.nready - 1
      pc := pollOnwards (s.nready - 1) 1 }
  | noAccept (hpc : s.pc = .listen) : Does s .pass { s with pc := .scan 1 }
  | read (i : Fin (m + 1)) (sockfd : Fd) (result : ReadResult) (hreads : s.Reads i sockfd) :
    Does s (.read result) (s.read i result)
  | skip (i : Fin (m + 1)) (hpc : s.pc = .scan i.val)
    (hnot : s.fd i = none ∨ ¬ (s.revents i).Readable) : Does s .pass { s with pc := .scan (i.val + 1) }
  | last : Does s .pass { s with pc := .poll }

/-- Every step is one of these. -/
theorem does_of_step {s t : PollServ m} {a : PollAct m} (h : Step s a t) : Does s a t := by
  unfold Step step at h
  split at h
  · next revents hpc =>
    obtain ⟨⟨hfree, hsome⟩, h⟩ := Option.ite_none_right_eq_some.mp h
    cases h
    exact .poll revents hpc hfree hsome
  · next connfd hpc =>
    obtain ⟨⟨hready, -⟩, h⟩ := Option.ite_none_right_eq_some.mp h
    unfold accept at h
    split at h
    · cases h
    · next i hi =>
      cases h
      have hfound := List.find?_some hi
      rw [decide_eq_true_eq] at hfound
      refine .accept i connfd hpc hready hfound.1 hfound.2 fun j hj hji hnone ↦ ?_
      -- the search would have stopped there
      have hbefore := List.find?_eq_some_iff_getElem.mp hi
      obtain ⟨-, k, hk, hki, hno⟩ := hbefore
      rw [List.getElem_finRange, Fin.cast_mk] at hki
      have hjk : j.val < k := by
        rw [← hki] at hji
        exact hji
      have := hno j.val hjk
      rw [List.getElem_finRange, Fin.cast_mk] at this
      simp [hj, hnone] at this
  · next hpc =>
    split at h
    · cases h
    · cases h
      exact .noAccept hpc
  · next k result hpc =>
    split at h
    · next hk =>
      obtain ⟨⟨hle, hfd, hread⟩, h⟩ := Option.ite_none_right_eq_some.mp h
      cases h
      obtain ⟨sockfd, hfd⟩ := Option.ne_none_iff_exists'.mp hfd
      exact .read ⟨k, hk⟩ sockfd result ⟨hpc, hle, hfd, hread⟩
    · cases h
  · next k hpc =>
    split at h
    · next hk =>
      split at h
      · cases h
        exact .last
      split at h
      · cases h
      · next hnot =>
        cases h
        refine .skip ⟨k, hk⟩ hpc ?_
        by_cases hfd : s.fd ⟨k, hk⟩ = none
        · exact .inl hfd
        · exact .inr fun hread ↦ hnot ⟨hfd, hread⟩
    · cases h
      exact .last
  · cases h

/-! ### What has been polled -/

/-- The entries from `k` on whose `revents` look readable were written by the last `poll`, for the
descriptor they have now. -/
def Fresh (s : PollServ m) (k : Nat) : Prop :=
  ∀ (i : Fin (m + 1)) (sockfd : Fd), k ≤ i.val → i.val ≤ s.maxi → s.fd i = some sockfd →
    (s.revents i).Readable → s.polled i = some sockfd

/-- The last entry is new and was not polled, but the entries before it use up what was reported. -/
structure Spent (s : PollServ m) (k : Nat) : Prop where
  before : ∀ (i : Fin (m + 1)) (sockfd : Fd), k ≤ i.val → i.val < s.maxi → s.fd i = some sockfd →
    (s.revents i).Readable → s.polled i = some sockfd
  occupied : ∀ i : Fin (m + 1), k ≤ i.val → i.val < s.maxi → s.fd i ≠ none
  readable : ∀ i : Fin (m + 1), k ≤ i.val → i.val < s.maxi → s.revents i ≠ ∅ → (s.revents i).Readable
  left : s.nready = reported k s.maxi s.revents

/-- The entries against the last `poll`, by where `main` is. -/
def Round (s : PollServ m) : Prop :=
  match s.pc with
  | .poll => True
  | .listen =>
    (∀ i : Fin (m + 1), i.val ≤ s.maxi → s.polled i = s.fd i) ∧
      (∀ i : Fin (m + 1), i.val ≤ s.maxi → s.fd i = none → s.revents i = ∅) ∧
      s.nready = reported 0 (s.maxi + 1) s.revents
  | .scan k => 1 ≤ k ∧ (s.Fresh k ∨ 0 < s.nready ∧ s.Spent k)

/-- The table and the current round. -/
structure Kept (s : PollServ m) : Prop where
  beyond : ∀ i : Fin (m + 1), s.maxi < i.val → s.fd i = none
  round : s.Round

/-- Before the first turn. -/
theorem kept_start (listenfd : Fd) (revents : Fin (m + 1) → Revents) :
    Kept (start listenfd revents) := by
  refine ⟨fun i hi ↦ ?_, True.intro⟩
  refine if_neg ?_
  rintro rfl
  exact absurd hi (Nat.not_lt_zero 0)

/-- When none is left the round is over. -/
theorem round_pollOnwards {s : PollServ m} {k : Nat} (hpc : s.pc = pollOnwards s.nready k)
    (hk : 1 ≤ k) (h : s.Fresh k ∨ s.Spent k) : s.Round := by
  unfold Round
  rw [hpc]
  unfold pollOnwards
  by_cases h0 : s.nready ≤ 0
  · rw [if_pos h0]
    exact True.intro
  · rw [if_neg h0]
    exact ⟨hk, h.imp id fun hs ↦ ⟨not_le.mp h0, hs⟩⟩

private theorem reported_step {k n : Nat} {revents : Fin (m + 1) → Revents} {i : Fin (m + 1)}
    (hi : i.val = k) (hn : k < n) (hsome : revents i ≠ ∅) :
    reported k n revents = reported (k + 1) n revents + 1 := by
  refine count_lose i ⟨hi.ge, hi ▸ hn, hsome⟩ ?_ fun j hj ↦ ?_
  · rintro ⟨hle, -⟩
    omega
  · have := Fin.val_ne_of_ne hj
    constructor
    · rintro ⟨hle, hrest⟩
      exact ⟨by omega, hrest⟩
    · rintro ⟨hle, hrest⟩
      exact ⟨by omega, hrest⟩

private theorem reported_skip {k n : Nat} {revents : Fin (m + 1) → Revents} {i : Fin (m + 1)}
    (hi : i.val = k) (hnone : k < n → revents i = ∅) :
    reported k n revents = reported (k + 1) n revents := by
  refine count_congr fun j ↦ ?_
  constructor
  · rintro ⟨hle, hlt, hne⟩
    refine ⟨?_, hlt, hne⟩
    by_contra hgt
    have hj : j = i := Fin.ext (by omega)
    exact hne (hj ▸ hnone (by omega))
  · rintro ⟨hle, hrest⟩
    exact ⟨by omega, hrest⟩

/-- In a round that has used up what was reported, the new entry is not reached. -/
private theorem Spent.not_last {s : PollServ m} {k : Nat} (h : s.Spent k) (hpos : 0 < s.nready) :
    k < s.maxi := by
  by_contra hge
  have hzero : reported k s.maxi s.revents = 0 := by
    refine count_eq_zero.mpr fun i ↦ ?_
    rintro ⟨hle, hlt, -⟩
    omega
  have := h.left
  omega

/-- A read takes one off what is left. -/
private theorem Spent.read {s : PollServ m} {i : Fin (m + 1)} (h : s.Spent i.val)
    (hpos : 0 < s.nready) (hread : (s.revents i).Readable) (result : ReadResult) :
    (s.read i result).Spent (i.val + 1) := by
  have hlt := h.not_last hpos
  have hsome : s.revents i ≠ ∅ := by
    intro he
    rw [he] at hread
    rcases hread with hr | hr <;> cases hr
  have hfd (j : Fin (m + 1)) (hj : i.val + 1 ≤ j.val) : (s.read i result).fd j = s.fd j := by
    change (if result = .data then s.fd else Function.update s.fd i none) j = _
    split
    · rfl
    · exact Function.update_of_ne (fun he ↦ by subst he; omega) _ _
  refine ⟨?_, ?_, ?_, ?_⟩
  · intro j sockfd hj hlt' hs hr
    exact h.before j sockfd (by omega) hlt' (hfd j hj ▸ hs) hr
  · intro j hj hlt'
    rw [hfd j hj]
    exact h.occupied j (by omega) hlt'
  · intro j hj hlt'
    exact h.readable j (by omega) hlt'
  · have hleft := h.left
    rw [reported_step rfl hlt hsome] at hleft
    change s.nready - 1 = reported (i.val + 1) s.maxi s.revents
    omega

/-- A new connection, when the entries were polled. -/
private theorem round_accept {s : PollServ m} {i : Fin (m + 1)} {connfd : Fd} (hk : Kept s)
    (hpc : s.pc = .listen) (hready : .rdnorm ∈ s.revents 0) (hi : 1 ≤ i.val)
    (hfree : s.fd i = none) (hfirst : ∀ j, 1 ≤ j.val → j < i → s.fd j ≠ none)
    (hok : s.Served (.accept connfd)) :
    Round { s with
      fd := Function.update s.fd i (some connfd)
      maxi := if i.val > s.maxi then i.val else s.maxi
      nready := s.nready - 1
      pc := pollOnwards (s.nready - 1) 1 } := by
  have hround := hk.round
  unfold Round at hround
  rw [hpc] at hround
  obtain ⟨hpolled, hempty, hcount⟩ := hround
  refine round_pollOnwards rfl (le_refl 1) ?_
  have hold (j : Fin (m + 1)) (sockfd : Fd) (hj : j.val ≤ s.maxi) (hne : j ≠ i)
      (hs : Function.update s.fd i (some connfd) j = some sockfd) : s.polled j = some sockfd := by
    rw [Function.update_of_ne hne] at hs
    rw [hpolled j hj, hs]
  by_cases hin : i.val ≤ s.maxi
  · -- a free entry that was polled has nothing reported
    left
    intro j sockfd _ hj hs hr
    dsimp only at hj hs hr
    rw [if_neg (by omega)] at hj
    refine hold j sockfd hj ?_ hs
    rintro rfl
    rw [hempty j hin hfree] at hr
    rcases hr with hr | hr <;> cases hr
  · have hnext : i.val = s.maxi + 1 := by
      by_contra hne
      have hsmall : s.maxi + 1 < m + 1 := by omega
      have hlt : (⟨s.maxi + 1, hsmall⟩ : Fin (m + 1)) < i := Fin.lt_def.mpr (by dsimp only; omega)
      exact hfirst _ (Nat.le_add_left 1 _) hlt (hk.beyond _ (Nat.lt_succ_self _))
    rcases hok with ⟨j, hj, hle, hnone⟩ | hread | hnot
    · exact absurd hnone (hfirst j hj (Fin.lt_def.mpr (by omega)))
    · right
      have hmaxi : (if i.val > s.maxi then i.val else s.maxi) = s.maxi + 1 := by
        rw [if_pos (by omega), hnext]
      refine ⟨?_, ?_, ?_, ?_⟩
      · intro j sockfd _ hj hs _
        dsimp only at hj hs
        rw [hmaxi] at hj
        exact hold j sockfd (by omega) (fun he ↦ by subst he; omega) hs
      · intro j h1 hj
        dsimp only at hj ⊢
        rw [hmaxi] at hj
        rw [Function.update_of_ne (fun he ↦ by subst he; omega)]
        exact hfirst j h1 (Fin.lt_def.mpr (by omega))
      · intro j h1 hj
        dsimp only at hj ⊢
        rw [hmaxi] at hj
        exact hread j h1 (by omega)
      · have hzero : s.revents 0 ≠ ∅ := by
          intro he
          rw [he] at hready
          cases hready
        have hsplit : reported 0 (s.maxi + 1) s.revents = reported 1 (s.maxi + 1) s.revents + 1 :=
          reported_step (i := 0) rfl (Nat.succ_pos _) hzero
        rw [hsplit] at hcount
        dsimp only
        rw [hmaxi]
        omega
    · -- what the new entry holds does not look readable
      left
      intro j sockfd _ hj hs hr
      dsimp only at hj hs hr
      rw [if_pos (by omega)] at hj
      by_cases hne : j = i
      · subst hne
        exact absurd hr (hnot j hnext)
      · have := Fin.val_ne_of_ne hne
        exact hold j sockfd (by omega) hne hs

/-- One step keeps what `main` reads within what was polled. -/
theorem Kept.does {s t : PollServ m} {a : PollAct m} (hk : Kept s) (hs : Step s a t)
    (hok : s.Served a) : Kept t := by
  have hround := hk.round
  unfold Round at hround
  cases does_of_step hs with
  | poll revents hpc hfree hsome =>
    refine ⟨hk.beyond, ?_, ?_, ?_⟩
    · intro i hi
      exact if_pos hi
    · intro i hi hnone
      exact (if_pos hi).trans (hfree i hnone)
    · change ((reported 0 (s.maxi + 1) revents : Nat) : Int) = _
      congr 1
      refine count_congr fun i ↦ ?_
      change _ ↔ 0 ≤ i.val ∧ i.val < s.maxi + 1 ∧ (if i.val ≤ s.maxi then _ else _) ≠ ∅
      by_cases hi : i.val ≤ s.maxi
      · rw [if_pos hi]
      · refine iff_of_false ?_ ?_
        · rintro ⟨-, hlt, -⟩
          omega
        · rintro ⟨-, hlt, -⟩
          omega
  | accept i connfd hpc hready hi hfree hfirst =>
    refine ⟨?_, round_accept hk hpc hready hi hfree hfirst hok⟩
    intro j hj
    dsimp only at hj ⊢
    have hj' : s.maxi < j.val ∧ i.val < j.val := by
      split at hj <;> omega
    rw [Function.update_of_ne fun he ↦ by subst he; omega]
    exact hk.beyond j hj'.1
  | noAccept hpc =>
    rw [hpc] at hround
    refine ⟨hk.beyond, le_refl 1, .inl ?_⟩
    intro i sockfd _ hi hs _
    exact (hround.1 i hi).trans hs
  | read i sockfd result hreads =>
    obtain ⟨hpc, hle, hfd, hread⟩ := hreads
    rw [hpc] at hround
    have hfd' (j : Fin (m + 1)) (hj : j ≠ i) : (s.read i result).fd j = s.fd j := by
      change (if result = .data then s.fd else Function.update s.fd i none) j = _
      split
      · rfl
      · exact Function.update_of_ne hj _ _
    refine ⟨?_, round_pollOnwards rfl (Nat.le_add_left 1 _) ?_⟩
    · intro j hj
      rw [hfd' j fun he ↦ by subst he; exact absurd hj (Nat.not_lt.mpr hle)]
      exact hk.beyond j hj
    · rcases hround.2 with hfresh | ⟨hpos, hspent⟩
      · left
        intro j fd hj hjm hs hr
        have hne : j ≠ i := fun he ↦ by subst he; omega
        exact hfresh j fd (by omega) hjm (hfd' j hne ▸ hs) hr
      · exact .inr (hspent.read hpos hread result)
  | skip i hpc hnot =>
    rw [hpc] at hround
    refine ⟨hk.beyond, Nat.le_add_left 1 _, ?_⟩
    rcases hround.2 with hfresh | ⟨hpos, hspent⟩
    · exact .inl fun j fd hj ↦ hfresh j fd (by omega)
    · right
      refine ⟨hpos, fun j fd hj ↦ hspent.before j fd (by omega), fun j hj ↦ hspent.occupied j (by omega),
        fun j hj ↦ hspent.readable j (by omega), ?_⟩
      rw [hspent.left]
      congr 1
      refine reported_skip rfl fun hlt ↦ ?_
      by_contra hsome
      rcases hnot with hnone | hnot
      · exact hspent.occupied i (le_refl _) hlt hnone
      · exact hnot (hspent.readable i (le_refl _) hlt hsome)
  | last => exact ⟨hk.beyond, True.intro⟩

/-- In every run in which a connection gets an entry beyond those that were polled only when all else
that was reported is reported as readable, or when the entry does not look readable, `main` reads from
a client only what the last `poll` has reported of its descriptor. -/
theorem reads_what_was_polled {listenfd : Fd} {revents : Fin (m + 1) → Revents} {s : PollServ m}
    (hr : RunWith Step Served (start listenfd revents) s) (i : Fin (m + 1)) (sockfd : Fd)
    (h : s.Reads i sockfd) : s.polled i = some sockfd := by
  have hk : Kept s := by
    refine RunWith.preserves (I := Kept) ?_ hr (kept_start listenfd revents)
    intro u a t hu ha hs
    exact hu.does hs ha
  obtain ⟨hpc, hle, hfd, hread⟩ := h
  have hround := hk.round
  unfold Round at hround
  rw [hpc] at hround
  rcases hround.2 with hfresh | ⟨hpos, hspent⟩
  · exact hfresh i sockfd (le_refl _) hle hfd hread
  · exact hspent.before i sockfd (le_refl _) (hspent.not_last hpos) hfd hread

/-- The entry of index 2 happens to look readable before it is used. -/
private def leftOver : Fin 3 → Revents := fun i ↦ if i = 2 then {.rdnorm} else ∅

/-- A new connection, and `r` reported of the first client. -/
private def twoReported (r : Revents) : Fin 3 → Revents :=
  fun i ↦ if i = 0 then {.rdnorm} else if i = 1 then r else ∅

/-- A second client connects while the first one sends data. -/
theorem reads_first_client : ∃ s, RunWith Step Served (start 3 leftOver) s ∧ s.Reads 1 4 ∧
    s.polled 1 = some 4 := by
  have h : (playActs (guarded (fun s a ↦ decide (s.Served a)) step) (start 3 leftOver)
      [.poll (twoReported ∅), .accept 4, .poll (twoReported {.rdnorm}), .accept 5]).map
      (fun s ↦ decide (s.Reads 1 4)) = some true := by decide
  obtain ⟨s, hs, hreads⟩ := Option.map_eq_some_iff.mp h
  have hrun : RunWith Step Served (start 3 leftOver) s :=
    runWith_of_playActs (fun _ _ hgood ↦ of_decide_eq_true hgood) hs
  have hreads' : s.Reads 1 4 := of_decide_eq_true hreads
  exact ⟨s, hrun, hreads', reads_what_was_polled hrun 1 4 hreads'⟩

/-- A second client connects when all that is reported of the first one is that it has hung up. The
loop goes on to the new entry, which no `poll` has written, and reads from its connection. -/
theorem reads_unpolled : ∃ s, Run Step (start 3 leftOver) s ∧ s.Reads 2 5 ∧ s.polled 2 = none := by
  have h : (playActs step (start 3 leftOver)
      [.poll (twoReported ∅), .accept 4, .poll (twoReported {.hup}), .accept 5, .pass]).map
      (fun s ↦ decide (s.Reads 2 5 ∧ s.polled 2 = none)) = some true := by decide
  obtain ⟨s, hs, hreads⟩ := Option.map_eq_some_iff.mp h
  exact ⟨s, run_of_playActs hs, of_decide_eq_true hreads⟩

end PollServ
end Unpv13e.Select
