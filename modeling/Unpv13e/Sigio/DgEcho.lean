import Unpv13e.Base.Queue
import Unpv13e.Base.Runs
import Unpv13e.Base.Text

/-!
# The signal-driven echo server

Library `Sigio`. `dg_echo` and its handler `sig_io` of `src/sigio/dgecho01.c`. The handler reads
datagrams into a circular array, the main loop echoes them. It can run wherever SIGIO is not blocked,
and the main loop stands still meanwhile. Failing calls end the program; it takes no step then.
-/

namespace Unpv13e.Sigio
open Unpv13e.Base

/-- `QSIZE` -/
def qSize : Nat := 8

/-- `MAXDG` -/
def maxDg : Nat := 4096

/-- A datagram and the address of its sender or receiver. -/
structure Datagram where
  data : List UInt8
  sa : List UInt8
  deriving DecidableEq

/-- `DG` -/
structure DG where
  dg_data : List UInt8
  dg_len : Nat
  dg_sa : List UInt8
  dg_salen : Nat

/-- The first bytes of a buffer are overwritten. -/
def fill (buf new : List UInt8) : List UInt8 := new ++ buf.drop new.length

/-- `recvfrom` into an entry: at most `MAXDG` bytes of data are kept. -/
def DG.recvfrom (ptr : DG) (d : Datagram) : DG where
  dg_data := fill ptr.dg_data (d.data.take maxDg)
  dg_len := (d.data.take maxDg).length
  dg_sa := fill ptr.dg_sa d.sa
  dg_salen := d.sa.length

/-- What `Sendto` sends from an entry. -/
def DG.datagram (p : DG) : Datagram := ⟨p.dg_data.take p.dg_len, p.dg_sa.take p.dg_salen⟩

/-- Where `dg_echo` is; each name is that of the statement it comes to next. -/
inductive Pc
  /-- `Ioctl` with `FIONBIO`; until then `recvfrom` waits for a datagram -/
  | nonblock
  /-- the first `Sigprocmask` with `SIG_BLOCK` -/
  | block
  /-- `while (nqueue == 0)` -/
  | test
  /-- in `sigsuspend` -/
  | suspend
  /-- `Sigprocmask` with `SIG_SETMASK` -/
  | unblock
  /-- `Sendto` -/
  | send
  /-- `++iget` -/
  | advance
  /-- `Sigprocmask` with `SIG_BLOCK` -/
  | reblock
  /-- `nqueue--` -/
  | decrement
  deriving DecidableEq

/-- SIGIO is delivered here. -/
def Pc.unblocked : Pc → Bool
  | nonblock | block | suspend | send | advance | reblock => true
  | test | unblock | decrement => false

/-- Where the handler is. -/
inductive Handler
  | idle
  /-- at the top of its loop -/
  | reading (nread : Nat)
  /-- `err_quit("receive overflow")` -/
  | quit
  deriving DecidableEq

/-- The global variables, the socket and the two programs. -/
structure DgEcho where
  dg : Fin qSize → DG
  cntread : Fin (qSize + 1) → Nat
  iget : Fin qSize
  iput : Fin qSize
  nqueue : Int
  clilen : Nat
  pc : Pc
  handler : Handler
  /-- datagrams that have arrived and were not read -/
  socket : List Datagram
  /-- the datagrams that were read, not a variable of the code -/
  received : List Datagram
  /-- what was sent -/
  echoed : List Datagram

namespace DgEcho

/-- What happens next. -/
inductive Act
  | arrive (d : Datagram)
  /-- SIGIO is delivered -/
  | signal
  /-- a turn of the handler's loop -/
  | read
  /-- a statement of `dg_echo` -/
  | go
  deriving DecidableEq

/-- `dg_echo` up to `FIOASYNC`, `src/sigio/dgecho01.c:35–48`. -/
def start (clilen : Nat) : DgEcho where
  dg := fun _ ↦ ⟨List.replicate maxDg 0, 0, List.replicate clilen 0, clilen⟩
  cntread := fun _ ↦ 0
  iget := ⟨0, by decide⟩
  iput := ⟨0, by decide⟩
  nqueue := 0
  clilen := clilen
  pc := .nonblock
  handler := .idle
  socket := []
  received := []
  echoed := []

/-- A turn of the handler's loop, `src/sigio/dgecho01.c:85–106`. -/
def read (s : DgEcho) (nread : Nat) : Except Stop DgEcho :=
  if s.nqueue ≥ qSize then .ok { s with handler := .quit }
  else
    match s.socket with
    | d :: ds =>
      .ok { s with
        dg := Function.update s.dg s.iput ((s.dg s.iput).recvfrom d)
        socket := ds
        received := s.received ++ [d]
        nqueue := s.nqueue + 1
        iput := Queue.next s.iput
        handler := .reading (nread + 1) }
    | [] =>
      if s.pc = .nonblock then .error .blocked
      else if h : nread < qSize + 1 then
        .ok { s with
          cntread := Function.update s.cntread ⟨nread, h⟩ (s.cntread ⟨nread, h⟩ + 1)
          handler := .idle }
      else .error .outOfBounds

/-- A statement of `dg_echo`, `src/sigio/dgecho01.c:49–74`. -/
def go (s : DgEcho) : DgEcho :=
  match s.pc with
  | .nonblock => { s with pc := .block }
  | .block => { s with pc := .test }
  | .test => { s with pc := if s.nqueue = 0 then .suspend else .unblock }
  | .suspend => { s with pc := .test }
  | .unblock => { s with pc := .send }
  | .send => { s with echoed := s.echoed ++ [(s.dg s.iget).datagram], pc := .advance }
  | .advance => { s with iget := Queue.next s.iget, pc := .reblock }
  | .reblock => { s with pc := .decrement }
  | .decrement => { s with nqueue := s.nqueue - 1, pc := .test }

/-- The next step. An address fits the buffer for it. -/
def step (s : DgEcho) : Act → Except Stop DgEcho
  | .arrive d => if d.sa.length ≤ s.clilen then .ok { s with socket := s.socket ++ [d] } else .error .blocked
  | .signal =>
    if s.handler = .idle ∧ s.pc.unblocked then .ok { s with handler := .reading 0 }
    else .error .blocked
  | .read =>
    match s.handler with
    | .reading nread => s.read nread
    | _ => .error .blocked
  | .go => if s.handler = .idle then .ok s.go else .error .blocked

/-- The step as a relation. -/
def Step (s : DgEcho) (a : Act) (t : DgEcho) : Prop := s.step a = .ok t

/-! ### The queue -/

/-- A datagram as it is kept. -/
def clip (d : Datagram) : Datagram := ⟨d.data.take maxDg, d.sa⟩

theorem take_fill (buf new : List UInt8) : (fill buf new).take new.length = new := by
  unfold fill
  exact List.take_left

/-- What is sent from an entry is what was read into it. -/
theorem datagram_recvfrom (p : DG) (d : Datagram) : (p.recvfrom d).datagram = clip d := by
  unfold DG.datagram DG.recvfrom clip
  rw [take_fill, take_fill]

/-- The first entry that was not sent: `iget` is behind it between `Sendto` and `++iget`. -/
def front (s : DgEcho) : Fin qSize := if s.pc = .advance then Queue.next s.iget else s.iget

/-- What `nqueue` counts too much: it is decremented after the datagram was sent. -/
def lag (s : DgEcho) : Nat := if s.pc = .advance ∨ s.pc = .reblock ∨ s.pc = .decrement then 1 else 0

/-- The datagrams that could be sent from the entries. -/
def entries (s : DgEcho) (i : Fin qSize) : Datagram := (s.dg i).datagram

/-- The handler has read no more than it counted in `nqueue`, and quits on a full queue. -/
def Handling (s : DgEcho) : Prop :=
  match s.handler with
  | .idle => True
  | .reading nread => (nread : Int) ≤ s.nqueue
  | .quit => s.nqueue = qSize

theorem handling_of_idle {s : DgEcho} (h : s.handler = .idle) : s.Handling := by
  unfold Handling
  rw [h]
  trivial

/-- What holds of the datagrams `q` that were read and not sent. -/
structure Queued (s : DgEcho) (q : List Datagram) : Prop where
  order : s.received.map clip = s.echoed ++ q
  holds : Queue.Holds s.entries s.front s.iput q
  counted : s.nqueue = q.length + s.lag
  bounded : s.nqueue ≤ qSize
  ready : s.pc = .unblock ∨ s.pc = .send → q ≠ []
  handling : s.Handling

theorem queued_start (clilen : Nat) : Queued (start clilen) [] where
  order := rfl
  holds := Queue.Holds.empty _ _
  counted := rfl
  bounded := Int.natCast_nonneg qSize
  ready := fun h ↦ by rcases h with h | h <;> cases h
  handling := handling_of_idle rfl

private theorem entries_recvfrom (s : DgEcho) (d : Datagram) :
    (fun i ↦ (Function.update s.dg s.iput ((s.dg s.iput).recvfrom d) i).datagram) =
      Function.update s.entries s.iput (clip d) := by
  funext i
  by_cases hi : i = s.iput
  · rw [hi, Function.update_self, Function.update_self, datagram_recvfrom]
  · rw [Function.update_of_ne hi, Function.update_of_ne hi]
    rfl

variable {s t : DgEcho} {q : List Datagram}

/-- A datagram is read into an entry that holds none, or the handler ends or quits. -/
theorem Queued.read (h : Queued s q) {nread : Nat} (hread : s.handler = .reading nread)
    (hs : s.read nread = .ok t) : ∃ q', Queued t q' := by
  have hprogress := h.handling
  unfold Handling at hprogress
  rw [hread] at hprogress
  dsimp only at hprogress
  unfold DgEcho.read at hs
  split at hs
  · next hge =>
    cases hs
    exact ⟨q, h.order, h.holds, h.counted, h.bounded, h.ready, le_antisymm h.bounded hge⟩
  · next hlt =>
    split at hs
    · next d ds hsocket =>
      cases hs
      have hroom : q.length < qSize := by
        have := h.counted
        omega
      refine ⟨q ++ [clip d], ?_, ?_, ?_, ?_, ?_, ?_⟩
      · dsimp only
        rw [List.map_append, h.order, List.append_assoc]
        rfl
      · have hpush := h.holds.push (x := clip d) hroom
        rw [← entries_recvfrom] at hpush
        exact hpush
      · have := h.counted
        change s.nqueue + 1 = ((q ++ [clip d]).length : Int) + s.lag
        rw [List.length_append, List.length_singleton]
        push_cast
        omega
      · dsimp only
        omega
      · intro _
        exact List.append_ne_nil_of_right_ne_nil q (List.cons_ne_nil _ _)
      · change ((nread + 1 : Nat) : Int) ≤ s.nqueue + 1
        push_cast
        omega
    · split at hs
      · cases hs
      · split at hs
        · cases hs
          exact ⟨q, h.order, h.holds, h.counted, h.bounded, h.ready, handling_of_idle rfl⟩
        · cases hs

/-- The histogram has an entry for every number of datagrams. -/
theorem Queued.read_inBounds (h : Queued s q) {nread : Nat} (hread : s.handler = .reading nread) :
    s.read nread ≠ .error .outOfBounds := by
  have hprogress := h.handling
  unfold Handling at hprogress
  rw [hread] at hprogress
  dsimp only at hprogress
  have hbounded := h.bounded
  unfold DgEcho.read
  intro he
  split at he
  · cases he
  · split at he
    · cases he
    · split at he
      · cases he
      · split at he
        · cases he
        · next hge => omega

/-- A statement that is neither `Sendto` nor changes a variable. -/
private theorem queued_of_pc (h : Queued s q) (hidle : s.handler = .idle) (pc : Pc)
    (hfront : front { s with pc := pc } = s.front) (hlag : lag { s with pc := pc } = s.lag)
    (hready : pc = .unblock ∨ pc = .send → q ≠ []) : Queued { s with pc := pc } q where
  order := h.order
  holds := by
    rw [hfront]
    exact h.holds
  counted := by
    rw [hlag]
    exact h.counted
  bounded := h.bounded
  ready := hready
  handling := handling_of_idle hidle

/-- `Sendto` takes the first datagram off the queue. -/
private theorem queued_send (h : Queued s q) (hidle : s.handler = .idle) (hpc : s.pc = .send) :
    ∃ x q', q = x :: q' ∧ (s.dg s.iget).datagram = x ∧
      Queued { s with echoed := s.echoed ++ [x], pc := .advance } q' := by
  have hfront : s.front = s.iget := by
    unfold front
    rw [hpc]
    rfl
  have hlag : s.lag = 0 := by
    unfold lag
    rw [hpc]
    rfl
  cases q with
  | nil => exact absurd rfl (h.ready (.inr hpc))
  | cons x q' =>
    have hholds := h.holds
    rw [hfront] at hholds
    refine ⟨x, q', rfl, hholds.first, ?_, hholds.pop, ?_, h.bounded, ?_, handling_of_idle hidle⟩
    · dsimp only
      rw [h.order, List.append_assoc]
      rfl
    · have := h.counted
      rw [hlag, List.length_cons] at this
      change s.nqueue = (q'.length : Int) + (1 : Nat)
      push_cast at this ⊢
      omega
    · rintro (he | he) <;> cases he

/-- `nqueue` catches up. -/
private theorem queued_decrement (h : Queued s q) (hidle : s.handler = .idle)
    (hpc : s.pc = .decrement) : Queued { s with nqueue := s.nqueue - 1, pc := .test } q := by
  have hfront : s.front = s.iget := by
    unfold front
    rw [hpc]
    rfl
  have hlag : s.lag = 1 := by
    unfold lag
    rw [hpc]
    rfl
  have hcounted := h.counted
  have hbounded := h.bounded
  have hholds := h.holds
  rw [hlag] at hcounted
  rw [hfront] at hholds
  refine ⟨h.order, hholds, ?_, ?_, ?_, handling_of_idle hidle⟩
  · change s.nqueue - 1 = (q.length : Int) + (0 : Nat)
    push_cast at hcounted ⊢
    omega
  · dsimp only
    omega
  · rintro (he | he) <;> cases he

/-- The main loop sends the first datagram, and counts it later. -/
theorem Queued.go (h : Queued s q) (hidle : s.handler = .idle) : ∃ q', Queued s.go q' := by
  have hmove (pc : Pc) (hfront : front { s with pc := pc } = s.front)
      (hlag : lag { s with pc := pc } = s.lag) (hready : pc ≠ .unblock ∧ pc ≠ .send) :
      Queued { s with pc := pc } q := by
    refine queued_of_pc h hidle pc hfront hlag ?_
    rintro (he | he)
    · exact absurd he hready.1
    · exact absurd he hready.2
  unfold DgEcho.go
  cases hpc : s.pc with
  | nonblock => exact ⟨q, hmove .block (by simp [front, hpc]) (by simp [lag, hpc]) (by decide)⟩
  | block => exact ⟨q, hmove .test (by simp [front, hpc]) (by simp [lag, hpc]) (by decide)⟩
  | test =>
    have hcounted := h.counted
    have hlag : s.lag = 0 := by simp [lag, hpc]
    rw [hlag] at hcounted
    dsimp only
    split
    · exact ⟨q, hmove .suspend (by simp [front, hpc]) (by simp [lag, hpc]) (by decide)⟩
    · next hne =>
      refine ⟨q, queued_of_pc h hidle .unblock (by simp [front, hpc]) (by simp [lag, hpc]) ?_⟩
      rintro - rfl
      exact hne hcounted
  | suspend => exact ⟨q, hmove .test (by simp [front, hpc]) (by simp [lag, hpc]) (by decide)⟩
  | unblock =>
    refine ⟨q, queued_of_pc h hidle .send (by simp [front, hpc]) (by simp [lag, hpc]) ?_⟩
    exact fun _ ↦ h.ready (.inl hpc)
  | send =>
    obtain ⟨x, q', -, hx, hq'⟩ := queued_send h hidle hpc
    dsimp only
    rw [hx]
    exact ⟨q', hq'⟩
  | advance =>
    refine ⟨q, h.order, ?_, ?_, h.bounded, ?_, handling_of_idle hidle⟩
    · have hholds := h.holds
      unfold front at hholds ⊢
      rwa [if_pos hpc] at hholds
    · have hcounted := h.counted
      unfold lag at hcounted ⊢
      rwa [if_pos (.inl hpc)] at hcounted
    · rintro (he | he) <;> cases he
  | reblock => exact ⟨q, hmove .decrement (by simp [front, hpc]) (by simp [lag, hpc]) (by decide)⟩
  | decrement => exact ⟨q, queued_decrement h hidle hpc⟩

theorem Queued.nonneg (h : Queued s q) : 0 ≤ s.nqueue := by
  have := h.counted
  omega

/-- One step of either program. -/
theorem Queued.step (h : Queued s q) {a : Act} (hs : Step s a t) : ∃ q', Queued t q' := by
  unfold Step DgEcho.step at hs
  cases a with
  | arrive d =>
    dsimp only at hs
    split at hs
    · cases hs
      exact ⟨q, h.order, h.holds, h.counted, h.bounded, h.ready, h.handling⟩
    · cases hs
  | signal =>
    dsimp only at hs
    split at hs
    · cases hs
      exact ⟨q, h.order, h.holds, h.counted, h.bounded, h.ready, h.nonneg⟩
    · cases hs
  | read =>
    dsimp only at hs
    split at hs
    · next nread hread => exact h.read hread hs
    · cases hs
  | go =>
    dsimp only at hs
    split at hs
    · next hidle =>
      cases hs
      exact h.go hidle
    · cases hs

/-- Every reachable state. -/
theorem queued_of_run {clilen : Nat} (h : Run Step (start clilen) s) : ∃ q, Queued s q :=
  h.preserves (I := fun s ↦ ∃ q, Queued s q) (fun _ _ _ hq _ hs ↦ hq.elim fun _ hq ↦ hq.step hs)
    ⟨[], queued_start clilen⟩

/-! ### The main loop empties the queue -/

/-- How many statements there are at most before the next `Sendto`. -/
def Pc.rank : Pc → Nat
  | .send => 0
  | .unblock => 1
  | .test => 2
  | .suspend => 3
  | .block => 4
  | .nonblock => 5
  | .decrement => 6
  | .reblock => 7
  | .advance => 8

/-- How many statements there are at most before everything has been sent. -/
def toGo (s : DgEcho) : Nat := 9 * (s.received.length - s.echoed.length) + Pc.rank s.pc

theorem received_go (s : DgEcho) : s.go.received = s.received := by
  unfold go
  cases s.pc <;> rfl

theorem handler_go (s : DgEcho) : s.go.handler = s.handler := by
  unfold go
  cases s.pc <;> rfl

/-- While a datagram waits every statement brings the end nearer. -/
theorem toGo_go (h : Queued s q) (hq : q ≠ []) : s.go.toGo < s.toGo := by
  have hlen : s.received.length = s.echoed.length + q.length := by
    rw [← List.length_append, ← h.order, List.length_map]
  have hpos : 0 < q.length := List.length_pos_iff.mpr hq
  have hcounted := h.counted
  unfold toGo go
  cases hpc : s.pc with
  | test =>
    have hne : s.nqueue ≠ 0 := by omega
    dsimp only
    rw [if_neg hne]
    simp only [Pc.rank]
    omega
  | send =>
    simp only [Pc.rank, List.length_append, List.length_singleton]
    omega
  | _ =>
    simp only [Pc.rank]
    omega

/-- With no more signals everything that was read is sent. -/
theorem Queued.drains (h : Queued s q) (hidle : s.handler = .idle) :
    ∃ t, Run Step s t ∧ t.received = s.received ∧ t.echoed = s.received.map clip := by
  induction hm : s.toGo using Nat.strong_induction_on generalizing s q with
  | _ m ih =>
    by_cases hq : q = []
    · have horder := h.order
      rw [hq, List.append_nil] at horder
      exact ⟨s, .refl, rfl, horder.symm⟩
    · obtain ⟨q', hq'⟩ := h.go hidle
      have hless := toGo_go h hq
      rw [hm] at hless
      obtain ⟨t, hrun, hreceived, hechoed⟩ := ih _ hless hq' ((handler_go s).trans hidle) rfl
      rw [received_go] at hreceived hechoed
      refine ⟨t, .cons (a := .go) True.intro ?_ hrun, hreceived, hechoed⟩
      unfold Step DgEcho.step
      exact if_pos hidle

end DgEcho
end Unpv13e.Sigio
