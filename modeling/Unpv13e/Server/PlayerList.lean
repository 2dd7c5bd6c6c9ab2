import Mathlib
import Unpv13e.Base.Ring
import Unpv13e.Base.Runs
import Unpv13e.Uno.Table

/-!
# The list of connections of `main`

Library `Server`. The loop of `main` over `used_player_list`: the clean-up pass before `select`,
`FindEmpty` and `accept`, and the pass that reads (`src/tcpcliserv/final_server.c:1210–1430`).
Each statement that reads or writes what other threads can change is one step. Room threads and
handlers take theirs in between. Only `main` uses the list, so its links are set in one step.
-/

namespace Unpv13e.Server
open Unpv13e.Base
open Unpv13e.Uno (ConnId ConnState)

/-- `MAXPLAYER`, `src/tcpcliserv/final_server.c:21`. -/
abbrev maxPlayer : Nat := 45

/-- What the room thread that serves a slot does with it. -/
inductive Charge
  | serving
  /-- the descriptor is closed, `state = 0` comes next -/
  | closed
  deriving DecidableEq, Repr

/-- Where `main` is. The pointer `temp` is an address, `&used_player_list` the address 0. -/
inductive MainPc
  /-- the test `temp != &used_player_list` of the clean-up pass and the one for state 1 -/
  | clean (temp : Nat)
  /-- the test for state 0 -/
  | cleanElse (temp : Nat)
  | select
  /-- `FindEmpty` before it looks at `conns[i]` -/
  | findEmpty (i : Nat)
  | accept (index : ConnId)
  /-- `conns[index].state = 1` -/
  | setLobby (index : ConnId)
  /-- the new node -/
  | link (index : ConnId)
  /-- the tests of the pass that reads, and `readline` -/
  | read (temp : Nat)
  /-- `global_player_num--` and `close` after `n == 0` -/
  | readGone (temp : Nat)
  deriving DecidableEq, Repr

/-- What `main` and the threads share, and what `main` has of its own. -/
structure Main where
  pc : MainPc
  state : ConnId → ConnState
  connfd : ConnId → Int
  charge : ConnId → Charge
  globalPlayerNum : Int
  heap : Heap Nat ConnId
  /-- the nodes `malloc` has given and `free` has not taken back -/
  live : Nat → Bool
  /-- the open descriptors -/
  opened : Int → Bool
  /-- whether `listenfd` is in `rset` -/
  listening : Bool
  /-- the other descriptors in `rset` -/
  rset : List Int
  /-- the descriptors `readline` was called on since the last `select` -/
  reads : List Int

/-- What the kernel and the C library answer `main`. -/
inductive Answer
  | nothing
  /-- the descriptors `select` leaves in `rset` -/
  | ready (listen : Bool) (fds : List Int)
  /-- `-1` with `errno == EINTR` -/
  | interrupted
  /-- what `accept` returns -/
  | descriptor (fd : Int)
  /-- what `malloc` returns -/
  | address (a : Nat)
  /-- `readline` returns 0 -/
  | eof
  /-- `readline` returns something else, a request for a room or not -/
  | line (toRoom : Bool)

namespace Main

/-- `conns` and the list before the loop, with the descriptors that are open already. -/
def start (opened : Int → Bool) : Main where
  pc := .clean 0
  state _ := .empty
  connfd _ := 0
  charge _ := .serving
  globalPlayerNum := 0
  heap _ := ⟨0, 0, 0⟩
  live _ := false
  opened := opened
  listening := true
  rset := []
  reads := []

/-- The top of the loop: `FD_ZERO`, `listenfd`, and the clean-up pass begins. -/
def top (s : Main) : Main :=
  { s with
    listening := s.globalPlayerNum < maxPlayer
    rset := []
    pc := .clean (s.heap 0).next }

/-- The next step of `main`. -/
def next (s : Main) (answer : Answer) : Option Main :=
  match s.pc, answer with
  | .clean temp, .nothing =>
    if temp = 0 then some { s with pc := .select }
    else
      let k := (s.heap temp).index
      if s.state k = .lobby then
        some { s with rset := s.connfd k :: s.rset, pc := .clean (s.heap temp).next }
      else some { s with pc := .cleanElse temp }
  | .cleanElse temp, .nothing =>
    if s.state (s.heap temp).index = .empty then
      let heap := s.heap.unlink temp
      some { s with
        heap := heap
        live := fun a ↦ if a = temp then false else s.live a
        pc := .clean (heap temp).next }
    else some { s with pc := .clean (s.heap temp).next }
  | .select, .ready listen fds =>
    if fds ⊆ s.rset ∧ (listen → s.listening) then
      some { s with
        rset := fds
        reads := []
        pc := if listen then .findEmpty 0 else .read (s.heap 0).next }
    else none
  | .select, .interrupted => some s.top
  | .findEmpty i, .nothing =>
    if h : i < maxPlayer then
      if s.state ⟨i, h⟩ = .empty then some { s with pc := .accept ⟨i, h⟩ }
      else some { s with pc := .findEmpty (i + 1) }
    else some s.top
  | .accept k, .descriptor fd =>
    if s.opened fd then none
    else some { s with
      connfd := fun j ↦ if j = k then fd else s.connfd j
      opened := fun f ↦ if f = fd then true else s.opened f
      pc := .setLobby k }
  | .accept k, .interrupted =>
    some { s with connfd := fun j ↦ if j = k then -1 else s.connfd j }.top
  | .setLobby k, .nothing =>
    some { s with state := fun j ↦ if j = k then .lobby else s.state j, pc := .link k }
  | .link k, .address a =>
    if a = 0 ∨ s.live a then none
    else
      let heap := s.heap.pushBack 0 a k
      some { s with
        heap := heap
        live := fun b ↦ if b = a then true else s.live b
        globalPlayerNum := s.globalPlayerNum + 1
        pc := .read (heap 0).next }
  | .read temp, answer =>
    let k := (s.heap temp).index
    if temp = 0 then some s.top
    else if s.state k = .lobby ∧ s.connfd k ∈ s.rset then
      match answer with
      | .eof => some { s with
          state := fun j ↦ if j = k then .empty else s.state j
          reads := s.connfd k :: s.reads
          pc := .readGone temp }
      | .line toRoom => some { s with
          state := fun j ↦ if j = k ∧ toRoom then .room else s.state j
          reads := s.connfd k :: s.reads
          pc := .read (s.heap temp).next }
      | _ => none
    else some { s with pc := .read (s.heap temp).next }
  | .readGone temp, .nothing =>
    -- `continue` comes before `temp = temp->next`
    some { s with
      globalPlayerNum := s.globalPlayerNum - 1
      opened := fun f ↦ if f = s.connfd (s.heap temp).index then false else s.opened f
      pc := .read temp }
  | _, _ => none

end Main

/-- A step of `main`, or of a room thread or handler on a slot. -/
inductive ListAct
  | main (answer : Answer)
  /-- `close(conns[k].connfd)` -/
  | roomClose (k : ConnId)
  /-- `conns[k].state = 0` -/
  | roomFree (k : ConnId)
  /-- `conns[k].state = 1` -/
  | roomLobby (k : ConnId)
  /-- `global_player_num--` -/
  | roomCount

namespace Main

/-- One step. A room thread frees a slot after it has closed its descriptor,
`src/tcpcliserv/final_server.c:783–787` and `:394–397`. -/
def step (s : Main) : ListAct → Option Main
  | .main answer => s.next answer
  | .roomClose k =>
    if s.charge k = .serving then
      some { s with
        opened := fun f ↦ if f = s.connfd k then false else s.opened f
        charge := fun j ↦ if j = k then .closed else s.charge j }
    else none
  | .roomFree k =>
    if s.charge k = .closed then
      some { s with
        state := fun j ↦ if j = k then .empty else s.state j
        charge := fun j ↦ if j = k then .serving else s.charge j }
    else none
  | .roomLobby k =>
    if s.charge k = .serving then
      some { s with state := fun j ↦ if j = k then .lobby else s.state j }
    else none
  | .roomCount => some { s with globalPlayerNum := s.globalPlayerNum - 1 }

/-- The step as a relation. -/
def Step (s : Main) (a : ListAct) (t : Main) : Prop := s.step a = some t

/-- A node of the list has the index. -/
def Listed (s : Main) (k : ConnId) : Prop := ∃ a, s.live a = true ∧ (s.heap a).index = k

/-- A slot `FindEmpty` finds free has been taken out of the list before, and a room thread
does not touch a slot that is free and closes only the descriptor of a slot in a room. -/
def Orderly (s : Main) : ListAct → Prop
  | .main _ => ∀ (i : Nat) (h : i < maxPlayer), s.pc = .findEmpty i → s.state ⟨i, h⟩ = .empty →
      ¬ s.Listed ⟨i, h⟩
  | .roomClose k => s.state k = .room
  | .roomFree _ => True
  | .roomLobby k => s.state k ≠ .empty
  | .roomCount => True

/-! ### The invariant -/

/-- The indices on the list. -/
private def indices (s : Main) (xs : List Nat) : List ConnId := xs.map fun a ↦ (s.heap a).index

/-- A slot whose descriptor is open and used for it. -/
private def InUse (s : Main) (k : ConnId) : Prop := s.state k ≠ .empty ∧ s.charge k = .serving

/-- The nodes `xs` are the list, no index is in it twice, descriptors in use are open and
different, and none was read twice since the last `select`. -/
private structure Core (s : Main) (xs : List Nat) : Prop where
  ring : IsRing s.heap 0 xs
  live : ∀ a, s.live a = true ↔ a ∈ xs
  nodup : (s.indices xs).Nodup
  closed : ∀ k, s.charge k = .closed → s.state k = .room
  opened : ∀ k, s.InUse k → s.opened (s.connfd k) = true
  distinct : ∀ j k, s.InUse j → s.InUse k → s.connfd j = s.connfd k → j = k
  reads : s.reads.Nodup

/-- Every slot that is not free is on the list. -/
private def Covers (s : Main) (xs : List Nat) : Prop := ∀ k, s.state k ≠ .empty → k ∈ s.indices xs

/-- A pointer of `main` is at a place of the list. -/
private def Cursor (xs : List Nat) (temp : Nat) (rest : List Nat) : Prop :=
  ∃ done, xs = done ++ rest ∧ temp = rest.headD 0

/-- No descriptor of the slots was read since the last `select`. -/
private def Unread (s : Main) (rest : List Nat) : Prop :=
  ∀ k ∈ s.indices rest, s.InUse k → s.connfd k ∉ s.reads

/-- What holds where `main` is. -/
private def At (s : Main) (xs : List Nat) : Prop :=
  match s.pc with
  | .clean temp => s.Covers xs ∧ ∃ rest, Cursor xs temp rest
  | .cleanElse temp => s.Covers xs ∧ ∃ rest, Cursor xs temp (temp :: rest)
  | .select => s.Covers xs
  | .findEmpty _ => s.Covers xs ∧ s.reads = []
  | .accept k => s.Covers xs ∧ s.reads = [] ∧ s.state k = .empty ∧ k ∉ s.indices xs
  | .setLobby k => s.Covers xs ∧ s.reads = [] ∧ s.state k = .empty ∧ k ∉ s.indices xs ∧
      s.opened (s.connfd k) = true ∧ ∀ j, s.InUse j → s.connfd j ≠ s.connfd k
  | .link k => (∀ j, s.state j ≠ .empty → j ∈ s.indices xs ∨ j = k) ∧ s.reads = [] ∧
      k ∉ s.indices xs
  | .read temp => s.Covers xs ∧ ∃ rest, Cursor xs temp rest ∧ s.Unread rest
  | .readGone temp => s.Covers xs ∧ ∃ rest, Cursor xs temp (temp :: rest) ∧
      (∀ j, s.InUse j → s.connfd j ≠ s.connfd (s.heap temp).index) ∧ s.Unread (temp :: rest)

/-- The invariant of the loop. -/
private def Inv (s : Main) : Prop := ∃ xs, s.Core xs ∧ s.At xs

private theorem start_inv (opened : Int → Bool) : (start opened).Inv := by
  refine ⟨[], ⟨⟨⟨rfl, rfl⟩, List.nodup_singleton 0⟩, ?_, List.nodup_nil, nofun, ?_, ?_,
    List.nodup_nil⟩, ?_, [], [], rfl, rfl⟩
  · exact fun a ↦ ⟨nofun, nofun⟩
  · exact fun k h ↦ absurd rfl h.1
  · exact fun j k h ↦ absurd rfl h.1
  · exact fun k h ↦ absurd rfl h

private theorem Core.serving {s : Main} {xs : List Nat} (h : s.Core xs) {k : ConnId}
    (hk : s.state k ≠ .room) : s.charge k = .serving := by
  cases hc : s.charge k with
  | serving => rfl
  | closed => exact absurd (h.closed k hc) hk

private theorem Core.listed {s : Main} {xs : List Nat} (h : s.Core xs) {k : ConnId} :
    s.Listed k ↔ k ∈ s.indices xs := by
  unfold Listed indices
  simp only [h.live, List.mem_map]

private theorem Core.same {s t : Main} {xs : List Nat} (h : s.Core xs) (hstate : t.state = s.state)
    (hconnfd : t.connfd = s.connfd) (hcharge : t.charge = s.charge) (hheap : t.heap = s.heap)
    (hlive : t.live = s.live) (hopened : t.opened = s.opened) (hreads : t.reads.Nodup) :
    t.Core xs := by
  have hidx : t.indices xs = s.indices xs := by unfold indices; rw [hheap]
  have huse (k : ConnId) : t.InUse k ↔ s.InUse k := by unfold InUse; rw [hstate, hcharge]
  constructor
  · rw [hheap]; exact h.ring
  · rw [hlive]; exact h.live
  · rw [hidx]; exact h.nodup
  · rw [hcharge, hstate]; exact h.closed
  · rw [hopened, hconnfd]; exact fun k hk ↦ h.opened k ((huse k).mp hk)
  · rw [hconnfd]; exact fun j k hj hk ↦ h.distinct j k ((huse j).mp hj) ((huse k).mp hk)
  · exact hreads

private theorem Cursor.cases {s : Main} {xs rest : List Nat} {temp : Nat} (hc : s.Core xs)
    (h : Cursor xs temp rest) (hne : temp ≠ 0) :
    ∃ rest', rest = temp :: rest' ∧ Cursor xs (s.heap temp).next rest' := by
  obtain ⟨done, rfl, rfl⟩ := h
  obtain ⟨t, rest', rfl⟩ := hc.ring.cursor hne
  refine ⟨rest', rfl, done ++ [t], by simp, ?_⟩
  exact hc.ring.next_eq

private theorem Core.first {s : Main} {xs : List Nat} (h : s.Core xs) :
    Cursor xs (s.heap 0).next xs := ⟨[], rfl, h.ring.1.next_eq⟩

private theorem Core.top {s : Main} {xs : List Nat} (h : s.Core xs) (hcov : s.Covers xs) :
    s.top.Inv :=
  ⟨xs, h.same rfl rfl rfl rfl rfl rfl h.reads, hcov, xs, h.first⟩

/-! ### Steps of other threads -/

/-- What a step of a room thread leaves as it is. -/
private structure Elsewhere (s t : Main) : Prop where
  pc : t.pc = s.pc
  connfd : t.connfd = s.connfd
  heap : t.heap = s.heap
  live : t.live = s.live
  reads : t.reads = s.reads
  free : ∀ k, s.state k = .empty → t.state k = .empty
  inUse : ∀ k, t.InUse k → s.InUse k
  closed : ∀ k, t.charge k = .closed → t.state k = .room
  opened : ∀ f, s.opened f = true →
    t.opened f = true ∨ ∃ j, s.InUse j ∧ ¬ t.InUse j ∧ f = s.connfd j

private theorem step_elsewhere {s t : Main} {xs : List Nat} {a : ListAct} (hc : s.Core xs)
    (hok : s.Orderly a) (h : s.step a = some t) (ha : ∀ answer, a ≠ .main answer) :
    s.Elsewhere t := by
  cases a with
  | main answer => exact absurd rfl (ha answer)
  | roomClose k =>
    simp only [step, Option.ite_none_right_eq_some, Option.some.injEq] at h
    obtain ⟨hk, rfl⟩ := h
    have hroom : s.state k = .room := hok
    refine ⟨rfl, rfl, rfl, rfl, rfl, fun _ ↦ id, ?_, ?_, ?_⟩
    · rintro j ⟨hj, hch⟩
      dsimp only at hj hch
      split at hch
      · cases hch
      · exact ⟨hj, hch⟩
    · intro j hch
      dsimp only at hch
      split at hch
      · next he => rw [he]; exact hroom
      · exact hc.closed j hch
    · intro f hf
      by_cases he : f = s.connfd k
      · refine .inr ⟨k, ⟨by rw [hroom]; nofun, hk⟩, ?_, he⟩
        rintro ⟨-, hch⟩
        simp at hch
      · exact .inl (by simpa [he] using hf)
  | roomFree k =>
    simp only [step, Option.ite_none_right_eq_some, Option.some.injEq] at h
    obtain ⟨hk, rfl⟩ := h
    refine ⟨rfl, rfl, rfl, rfl, rfl, ?_, ?_, ?_, fun _ ↦ .inl⟩
    · intro j hj
      dsimp only
      split
      · rfl
      · exact hj
    · rintro j ⟨hj, hch⟩
      dsimp only at hj hch
      split at hj
      · exact absurd rfl hj
      · next he => exact ⟨hj, by simpa [he] using hch⟩
    · intro j hch
      dsimp only at hch ⊢
      split at hch
      · cases hch
      · next he => rw [if_neg he]; exact hc.closed j hch
  | roomLobby k =>
    simp only [step, Option.ite_none_right_eq_some, Option.some.injEq] at h
    obtain ⟨hk, rfl⟩ := h
    have hne : s.state k ≠ .empty := hok
    refine ⟨rfl, rfl, rfl, rfl, rfl, ?_, ?_, ?_, fun _ ↦ .inl⟩
    · intro j hj
      have hjk : j ≠ k := by rintro rfl; exact hne hj
      dsimp only
      rw [if_neg hjk]
      exact hj
    · rintro j ⟨hj, hch⟩
      dsimp only at hj hch
      split at hj
      · next he => rw [he]; exact ⟨hne, hk⟩
      · exact ⟨hj, hch⟩
    · intro j hch
      have hjk : j ≠ k := by rintro rfl; rw [hk] at hch; cases hch
      dsimp only
      rw [if_neg hjk]
      exact hc.closed j hch
  | roomCount =>
    cases h
    exact ⟨rfl, rfl, rfl, rfl, rfl, fun _ ↦ id, fun _ ↦ id, hc.closed, fun _ ↦ .inl⟩

private theorem Elsewhere.inv {s t : Main} (h : s.Elsewhere t) (hs : s.Inv) : t.Inv := by
  obtain ⟨xs, hc, hat⟩ := hs
  have hidx (ys : List Nat) : t.indices ys = s.indices ys := by unfold indices; rw [h.heap]
  have hopened {f : Int} (hf : s.opened f = true)
      (hno : ∀ j, s.InUse j → ¬ t.InUse j → f ≠ s.connfd j) : t.opened f = true := by
    rcases h.opened f hf with hf | ⟨j, hj, hj', he⟩
    · exact hf
    · exact absurd he (hno j hj hj')
  refine ⟨xs, ?_, ?_⟩
  · constructor
    · rw [h.heap]; exact hc.ring
    · rw [h.live]; exact hc.live
    · rw [hidx]; exact hc.nodup
    · exact h.closed
    · intro k hk
      rw [h.connfd]
      refine hopened (hc.opened k (h.inUse k hk)) ?_
      intro j hj hj' he
      exact hj' (hc.distinct k j (h.inUse k hk) hj he ▸ hk)
    · rw [h.connfd]
      exact fun j k hj hk ↦ hc.distinct j k (h.inUse j hj) (h.inUse k hk)
    · rw [h.reads]; exact hc.reads
  · have hcov (hcov : s.Covers xs) : t.Covers xs := by
      intro k hk
      rw [hidx]
      exact hcov k fun hf ↦ hk (h.free k hf)
    have hunread {rest : List Nat} (hu : s.Unread rest) : t.Unread rest := by
      intro k hk huse
      rw [h.connfd, h.reads]
      exact hu k (hidx rest ▸ hk) (h.inUse k huse)
    unfold At at hat ⊢
    rw [h.pc]
    cases hpc : s.pc with
    | clean temp => rw [hpc] at hat; exact ⟨hcov hat.1, hat.2⟩
    | cleanElse temp => rw [hpc] at hat; exact ⟨hcov hat.1, hat.2⟩
    | select => rw [hpc] at hat; exact hcov hat
    | findEmpty i =>
      rw [hpc] at hat
      dsimp only
      rw [h.reads]
      exact ⟨hcov hat.1, hat.2⟩
    | accept k =>
      rw [hpc] at hat
      dsimp only
      rw [h.reads, hidx]
      exact ⟨hcov hat.1, hat.2.1, h.free k hat.2.2.1, hat.2.2.2⟩
    | setLobby k =>
      rw [hpc] at hat
      obtain ⟨h1, h2, h3, h4, h5, h6⟩ := hat
      dsimp only
      rw [h.reads, hidx, h.connfd]
      exact ⟨hcov h1, h2, h.free k h3, h4, hopened h5 fun j hj _ he ↦ h6 j hj he.symm,
        fun j hj ↦ h6 j (h.inUse j hj)⟩
    | link k =>
      rw [hpc] at hat
      dsimp only
      rw [h.reads, hidx]
      exact ⟨fun j hj ↦ hat.1 j fun hf ↦ hj (h.free j hf), hat.2⟩
    | read temp =>
      rw [hpc] at hat
      obtain ⟨h1, rest, h2, h3⟩ := hat
      exact ⟨hcov h1, rest, h2, hunread h3⟩
    | readGone temp =>
      rw [hpc] at hat
      obtain ⟨h1, rest, h2, h3, h4⟩ := hat
      dsimp only
      rw [h.connfd, h.heap]
      exact ⟨hcov h1, rest, h2, fun j hj ↦ h3 j (h.inUse j hj), hunread h4⟩

/-! ### Steps of `main` -/

section
-- every lemma on a statement of `main` unfolds these two
attribute [local simp] next At

private theorem clean_inv {s t : Main} {xs : List Nat} {temp : Nat} (hc : s.Core xs)
    (hat : s.At xs) (hpc : s.pc = .clean temp) (h : s.next .nothing = some t) : t.Inv := by
  unfold At at hat
  rw [hpc] at hat
  obtain ⟨hcov, rest, hcur⟩ := hat
  simp only [next, hpc] at h
  split at h
  · cases h
    exact ⟨xs, hc.same rfl rfl rfl rfl rfl rfl hc.reads, hcov⟩
  next hne =>
  obtain ⟨rest', rfl, hcur'⟩ := hcur.cases hc hne
  split at h
  · cases h
    exact ⟨xs, hc.same rfl rfl rfl rfl rfl rfl hc.reads, hcov, rest', hcur'⟩
  · cases h
    exact ⟨xs, hc.same rfl rfl rfl rfl rfl rfl hc.reads, hcov, rest', hcur⟩

private theorem cleanElse_inv {s t : Main} {xs : List Nat} {temp : Nat} (hc : s.Core xs)
    (hat : s.At xs) (hpc : s.pc = .cleanElse temp) (h : s.next .nothing = some t) : t.Inv := by
  unfold At at hat
  rw [hpc] at hat
  obtain ⟨hcov, rest, hcur⟩ := hat
  simp only [next, hpc] at h
  split at h
  · next hfree =>
    cases h
    obtain ⟨done, rfl, -⟩ := hcur
    have hidx (ys : List Nat) : List.map (fun a ↦ (s.heap.unlink temp a).index) ys =
        s.indices ys := by simp [indices]
    have hnodup : (s.indices (done ++ temp :: rest)).Nodup := hc.nodup
    have hsub : (done ++ rest).Sublist (done ++ temp :: rest) :=
      List.Sublist.append_left (List.sublist_cons_self _ _) _
    have htemp : temp ∉ done ++ rest := by
      have := (List.nodup_middle.mp (List.nodup_cons.mp hc.ring.2).2)
      exact (List.nodup_cons.mp this).1
    refine ⟨done ++ rest, ⟨hc.ring.unlink, ?_, ?_, hc.closed, hc.opened, hc.distinct, hc.reads⟩,
      ?_, rest, done, rfl, ?_⟩
    · intro a
      dsimp only
      split
      · next he => rw [he]; exact ⟨nofun, fun hm ↦ absurd hm htemp⟩
      · next he =>
        rw [hc.live]
        simp [he]
    · change (List.map _ _).Nodup
      rw [hidx]
      exact hnodup.sublist (hsub.map _)
    · intro k hk
      change k ∈ List.map _ _
      rw [hidx]
      have hmem := hcov k hk
      unfold indices at hmem ⊢
      simp only [List.map_append, List.map_cons, List.mem_append, List.mem_cons] at hmem ⊢
      rcases hmem with hm | rfl | hm
      · exact .inl hm
      · exact absurd hfree hk
      · exact .inr hm
    · simp [hc.ring.next_eq]
  · cases h
    obtain ⟨done, rfl, -⟩ := hcur
    exact ⟨_, hc.same rfl rfl rfl rfl rfl rfl hc.reads, hcov, rest, done ++ [temp], by simp,
      hc.ring.next_eq⟩

private theorem select_inv {s t : Main} {xs : List Nat} {answer : Answer} (hc : s.Core xs)
    (hat : s.At xs) (hpc : s.pc = .select) (h : s.next answer = some t) : t.Inv := by
  unfold At at hat
  rw [hpc] at hat
  have hcov : s.Covers xs := hat
  cases answer with
  | ready listen fds =>
    simp only [next, hpc, Option.ite_none_right_eq_some, Option.some.injEq] at h
    obtain ⟨-, rfl⟩ := h
    refine ⟨xs, hc.same rfl rfl rfl rfl rfl rfl List.nodup_nil, ?_⟩
    cases listen with
    | true => exact ⟨hcov, rfl⟩
    | false => exact ⟨hcov, xs, hc.first, fun k _ _ ↦ List.not_mem_nil⟩
  | interrupted =>
    simp only [next, hpc, Option.some.injEq] at h
    cases h
    exact hc.top hcov
  | _ => simp [next, hpc] at h

private theorem findEmpty_inv {s t : Main} {xs : List Nat} {i : Nat} (hc : s.Core xs)
    (hat : s.At xs) (hpc : s.pc = .findEmpty i) (hok : s.Orderly (.main .nothing))
    (h : s.next .nothing = some t) : t.Inv := by
  unfold At at hat
  rw [hpc] at hat
  obtain ⟨hcov, hreads⟩ := hat
  simp only [next, hpc] at h
  split at h
  · next hi =>
    split at h
    · next hfree =>
      cases h
      exact ⟨xs, hc.same rfl rfl rfl rfl rfl rfl hc.reads, hcov, hreads, hfree,
        fun hm ↦ hok i hi hpc hfree (hc.listed.mpr hm)⟩
    · cases h
      exact ⟨xs, hc.same rfl rfl rfl rfl rfl rfl hc.reads, hcov, hreads⟩
  · cases h
    exact hc.top hcov

private theorem accept_inv {s t : Main} {xs : List Nat} {k : ConnId} {answer : Answer}
    (hc : s.Core xs) (hat : s.At xs) (hpc : s.pc = .accept k) (h : s.next answer = some t) :
    t.Inv := by
  unfold At at hat
  rw [hpc] at hat
  obtain ⟨hcov, hreads, hfree, hfresh⟩ := hat
  -- no slot in use has the index, so the descriptors in use stay
  have hne {j : ConnId} (hj : s.InUse j) : j ≠ k := by
    rintro rfl
    exact hj.1 hfree
  cases answer with
  | descriptor fd =>
    simp only [next, hpc] at h
    split at h
    · cases h
    next hfd =>
    cases h
    refine ⟨xs, ⟨hc.ring, hc.live, hc.nodup, hc.closed, ?_, ?_, hc.reads⟩, hcov, hreads, hfree,
      hfresh, ?_, ?_⟩
    · intro j hj
      have hj' : s.InUse j := hj
      simp [hne hj', hc.opened j hj']
    · intro j j' hj hj' he
      have hj₁ : s.InUse j := hj
      have hj₂ : s.InUse j' := hj'
      refine hc.distinct j j' hj₁ hj₂ ?_
      simpa [hne hj₁, hne hj₂] using he
    · simp
    · intro j hj
      have hj' : s.InUse j := hj
      have ho := hc.opened j hj'
      simp only [hne hj', if_false, if_true]
      rintro rfl
      exact hfd ho
  | interrupted =>
    simp only [next, hpc, Option.some.injEq] at h
    cases h
    refine @Core.top _ xs ⟨hc.ring, hc.live, hc.nodup, hc.closed, ?_, ?_, hc.reads⟩ hcov
    · intro j hj
      have hj' : s.InUse j := hj
      simp [hne hj', hc.opened j hj']
    · intro j j' hj hj' he
      have hj₁ : s.InUse j := hj
      have hj₂ : s.InUse j' := hj'
      refine hc.distinct j j' hj₁ hj₂ ?_
      simpa [hne hj₁, hne hj₂] using he
  | _ => simp [next, hpc] at h

private theorem setLobby_inv {s t : Main} {xs : List Nat} {k : ConnId} (hc : s.Core xs)
    (hat : s.At xs) (hpc : s.pc = .setLobby k) (h : s.next .nothing = some t) : t.Inv := by
  unfold At at hat
  rw [hpc] at hat
  obtain ⟨hcov, hreads, hfree, hfresh, hopened, hdist⟩ := hat
  simp only [next, hpc, Option.some.injEq] at h
  subst h
  have huse {j : ConnId} (hj : InUse { s with
      state := fun j ↦ if j = k then .lobby else s.state j, pc := .link k } j) (hjk : j ≠ k) :
      s.InUse j := ⟨by simpa [hjk] using hj.1, hj.2⟩
  have hserving : s.charge k = .serving := hc.serving (by rw [hfree]; nofun)
  refine ⟨xs, ⟨hc.ring, hc.live, hc.nodup, ?_, ?_, ?_, hc.reads⟩, ?_, hreads, hfresh⟩
  · intro j hj
    have hjk : j ≠ k := by
      rintro rfl
      have hj' : s.charge j = .closed := hj
      rw [hserving] at hj'
      cases hj'
    simpa [hjk] using hc.closed j hj
  · intro j hj
    by_cases hjk : j = k
    · rw [hjk]; exact hopened
    · exact hc.opened j (huse hj hjk)
  · intro j j' hj hj' he
    by_cases hjk : j = k
    · by_cases hjk' : j' = k
      · rw [hjk, hjk']
      · subst hjk
        exact absurd he.symm (hdist j' (huse hj' hjk'))
    · by_cases hjk' : j' = k
      · subst hjk'
        exact absurd he (hdist j (huse hj hjk))
      · exact hc.distinct j j' (huse hj hjk) (huse hj' hjk') he
  · intro j hj
    by_cases hjk : j = k
    · exact .inr hjk
    · exact .inl (hcov j (by simpa [hjk] using hj))

private theorem link_inv {s t : Main} {xs : List Nat} {k : ConnId} {answer : Answer}
    (hc : s.Core xs) (hat : s.At xs) (hpc : s.pc = .link k) (h : s.next answer = some t) :
    t.Inv := by
  unfold At at hat
  rw [hpc] at hat
  obtain ⟨hcov, hreads, hfresh⟩ := hat
  cases answer with
  | address a =>
    simp only [next, hpc] at h
    split at h
    · cases h
    next ha =>
    cases h
    rw [not_or, hc.live] at ha
    obtain ⟨ha0, hax⟩ := ha
    have hring := hc.ring.pushBack (t := a) (by simp [ha0, hax]) k
    have hidx : List.map (fun b ↦ (s.heap.pushBack 0 a k b).index) (xs ++ [a]) =
        s.indices xs ++ [k] := by
      rw [List.map_append, List.map_singleton, Heap.pushBack_index, if_pos rfl]
      congr 1
      refine List.map_congr_left fun b hb ↦ ?_
      rw [Heap.pushBack_index, if_neg]
      rintro rfl
      exact hax hb
    refine ⟨xs ++ [a], ⟨hring, ?_, ?_, hc.closed, hc.opened, hc.distinct, hc.reads⟩, ?_,
      xs ++ [a], ⟨[], rfl, hring.1.next_eq⟩, ?_⟩
    · intro b
      by_cases hb : b = a
      · simp [hb]
      · simpa [hb] using hc.live b
    · change (List.map _ _).Nodup
      rw [hidx]
      exact (List.nodup_append_comm.mp (List.nodup_cons.mpr ⟨hfresh, hc.nodup⟩))
    · intro j hj
      change j ∈ List.map _ _
      rw [hidx, List.mem_append, List.mem_singleton]
      exact hcov j hj
    · intro j _ _
      change s.connfd j ∉ s.reads
      rw [hreads]
      exact List.not_mem_nil
  | _ => simp [next, hpc] at h

private theorem readGone_inv {s t : Main} {xs : List Nat} {temp : Nat} (hc : s.Core xs)
    (hat : s.At xs) (hpc : s.pc = .readGone temp) (h : s.next .nothing = some t) : t.Inv := by
  unfold At at hat
  rw [hpc] at hat
  obtain ⟨hcov, rest, hcur, hdist, hunread⟩ := hat
  simp only [next, hpc, Option.some.injEq] at h
  subst h
  refine ⟨xs, ⟨hc.ring, hc.live, hc.nodup, hc.closed, ?_, hc.distinct, hc.reads⟩, hcov,
    temp :: rest, hcur, hunread⟩
  intro j hj
  have hj' : s.InUse j := hj
  simp [hdist j hj', hc.opened j hj']

private theorem read_inv {s t : Main} {xs : List Nat} {temp : Nat} {answer : Answer}
    (hc : s.Core xs) (hat : s.At xs) (hpc : s.pc = .read temp) (h : s.next answer = some t) :
    t.Inv := by
  unfold At at hat
  rw [hpc] at hat
  obtain ⟨hcov, rest, hcur, hunread⟩ := hat
  simp only [next, hpc] at h
  split at h
  · cases h
    exact hc.top hcov
  next hne =>
  obtain ⟨rest', rfl, hcur'⟩ := hcur.cases hc hne
  have hunread' : s.Unread rest' := fun k hk ↦ hunread k (List.mem_cons_of_mem _ hk)
  split at h
  swap
  · cases h
    exact ⟨xs, hc.same rfl rfl rfl rfl rfl rfl hc.reads, hcov, rest', hcur', hunread'⟩
  next hlobby =>
  obtain ⟨hlobby, -⟩ := hlobby
  generalize hk : (s.heap temp).index = k at h hlobby
  have huse : s.InUse k := ⟨by rw [hlobby]; nofun, hc.serving (by rw [hlobby]; nofun)⟩
  have hmem : k ∈ s.indices (temp :: rest') := by
    unfold indices
    rw [List.map_cons, hk]
    exact List.mem_cons_self
  have hreads : (s.connfd k :: s.reads).Nodup :=
    List.nodup_cons.mpr ⟨hunread k hmem huse, hc.reads⟩
  have hrest : k ∉ s.indices rest' := by
    obtain ⟨done, hdone, -⟩ := hcur
    have hnd : (s.indices (temp :: rest')).Nodup := by
      have := hc.nodup
      rw [hdone] at this
      exact this.sublist ((List.sublist_append_right _ _).map _)
    unfold indices at hnd
    rw [List.map_cons, hk] at hnd
    exact (List.nodup_cons.mp hnd).1
  have hother {j : ConnId} (hj : s.InUse j) (hjk : j ≠ k) (hju : s.connfd j ∉ s.reads) :
      s.connfd j ∉ s.connfd k :: s.reads := by
    rw [List.mem_cons, not_or]
    exact ⟨fun he ↦ hjk (hc.distinct j k hj huse he), hju⟩
  have hclosed {j : ConnId} (hj : s.charge j = .closed) : j ≠ k := by
    rintro rfl
    rw [huse.2] at hj
    cases hj
  cases answer with
  | eof =>
    cases h
    have hfrom {j : ConnId} (hj : (if j = k then ConnState.empty else s.state j) ≠ .empty ∧
        s.charge j = .serving) : s.InUse j ∧ j ≠ k := by
      by_cases hjk : j = k
      · simp [hjk] at hj
      · exact ⟨⟨by simpa [hjk] using hj.1, hj.2⟩, hjk⟩
    refine ⟨xs, ⟨hc.ring, hc.live, hc.nodup, ?_, fun j hj ↦ hc.opened j (hfrom hj).1,
      fun j j' hj hj' ↦ hc.distinct j j' (hfrom hj).1 (hfrom hj').1, hreads⟩, ?_, rest', hcur,
      ?_, ?_⟩
    · intro j hj
      simpa [hclosed hj] using hc.closed j hj
    · intro j hj
      by_cases hjk : j = k
      · simp [hjk] at hj
      · exact hcov j (by simpa [hjk] using hj)
    · intro j hj
      obtain ⟨hj, hjk⟩ := hfrom hj
      dsimp only
      rw [hk]
      exact fun he ↦ hjk (hc.distinct j k hj huse he)
    · intro j hmem' hj
      obtain ⟨hj, hjk⟩ := hfrom hj
      exact hother hj hjk (hunread j hmem' hj)
  | line toRoom =>
    cases h
    have hfree {j : ConnId} (hj : (if j = k ∧ toRoom then ConnState.room else s.state j) ≠ .empty) :
        s.state j ≠ .empty := by
      by_cases hjk : j = k
      · rw [hjk]; exact huse.1
      · simpa [hjk] using hj
    refine ⟨xs, ⟨hc.ring, hc.live, hc.nodup, ?_, fun j hj ↦ hc.opened j ⟨hfree hj.1, hj.2⟩,
      fun j j' hj hj' ↦ hc.distinct j j' ⟨hfree hj.1, hj.2⟩ ⟨hfree hj'.1, hj'.2⟩, hreads⟩,
      fun j hj ↦ hcov j (hfree hj), rest', hcur', ?_⟩
    · intro j hj
      simpa [hclosed hj] using hc.closed j hj
    · intro j hmem' hj
      have hj' : s.InUse j := ⟨hfree hj.1, hj.2⟩
      refine hother hj' ?_ (hunread' j hmem' hj')
      rintro rfl
      exact hrest hmem'
  | nothing => cases h
  | ready => cases h
  | interrupted => cases h
  | descriptor => cases h
  | address => cases h

end

/-- Every step keeps the invariant. -/
private theorem step_inv {s t : Main} {a : ListAct} (hi : s.Inv) (hok : s.Orderly a)
    (h : s.Step a t) : t.Inv := by
  obtain ⟨xs, hc, hat⟩ := hi
  cases a with
  | main answer =>
    have h' : s.next answer = some t := h
    cases hpc : s.pc with
    | clean temp =>
      cases answer with
      | nothing => exact clean_inv hc hat hpc h'
      | _ => simp [next, hpc] at h'
    | cleanElse temp =>
      cases answer with
      | nothing => exact cleanElse_inv hc hat hpc h'
      | _ => simp [next, hpc] at h'
    | select => exact select_inv hc hat hpc h'
    | findEmpty i =>
      cases answer with
      | nothing => exact findEmpty_inv hc hat hpc hok h'
      | _ => simp [next, hpc] at h'
    | accept k => exact accept_inv hc hat hpc h'
    | setLobby k =>
      cases answer with
      | nothing => exact setLobby_inv hc hat hpc h'
      | _ => simp [next, hpc] at h'
    | link k => exact link_inv hc hat hpc h'
    | read temp => exact read_inv hc hat hpc h'
    | readGone temp =>
      cases answer with
      | nothing => exact readGone_inv hc hat hpc h'
      | _ => simp [next, hpc] at h'
  | _ => exact (step_elsewhere hc hok h nofun).inv ⟨xs, hc, hat⟩

/-- After the clean-up pass `main` waits with a ring in which no index occurs twice and every
slot in the lobby or in a room occurs, and it never reads a descriptor twice after one `select`,
in a run of orderly steps. -/
theorem list_matches_of_orderly {opened : Int → Bool} {s : Main}
    (h : RunWith Step Orderly (start opened) s) :
    (s.pc = .select → ∃ xs, IsRing s.heap 0 xs ∧ (xs.map fun a ↦ (s.heap a).index).Nodup ∧
      ∀ k, s.state k = .lobby ∨ s.state k = .room → k ∈ xs.map fun a ↦ (s.heap a).index) ∧
    s.reads.Nodup := by
  have hi : s.Inv := h.preserves (fun s a t hi hok hs ↦ step_inv hi hok hs) (start_inv opened)
  obtain ⟨xs, hc, hat⟩ := hi
  refine ⟨fun hpc ↦ ?_, hc.reads⟩
  unfold At at hat
  rw [hpc] at hat
  refine ⟨xs, hc.ring, hc.nodup, fun k hk ↦ hat k ?_⟩
  rcases hk with hk | hk <;> rw [hk] <;> nofun

/-! ### A slot freed behind the clean-up pass -/

/-- Standard streams and `listenfd`. -/
private def stdOpen (fd : Int) : Bool := decide (0 ≤ fd ∧ fd < 4)

/-- A client connects and is served until `main` waits again. -/
private def connect : List ListAct :=
  [.main .nothing, .main (.ready true []), .main .nothing, .main (.descriptor 4), .main .nothing,
    .main (.address 1), .main .nothing, .main .nothing, .main .nothing, .main .nothing]

/-- It asks for a room, the clean-up pass goes by, and it leaves before the next client comes. -/
private def leaveAndConnect : List ListAct :=
  [.main (.ready false [4]), .main (.line true), .main .nothing, .main .nothing, .main .nothing,
    .roomClose 0, .roomFree 0, .main .nothing, .main (.ready true []),
    .main .nothing, .main (.descriptor 4), .main .nothing, .main (.address 2), .main .nothing,
    .main .nothing, .main .nothing, .main .nothing, .main .nothing, .main .nothing]

/-- Both nodes of the slot are read after one `select`. -/
private def readTwice : List ListAct :=
  [.main (.ready false [4]), .main (.line false), .main (.line false)]

/-- Two clients one after the other leave two nodes with the same index, and the descriptor is
then read twice. -/
theorem slot_listed_twice :
    (∃ s, Run Step (start stdOpen) s ∧ s.pc = .select ∧
      ¬ ∃ xs, IsRing s.heap 0 xs ∧ (xs.map fun a ↦ (s.heap a).index).Nodup) ∧
    ∃ s, Run Step (start stdOpen) s ∧ ¬ s.reads.Nodup := by
  have h1 : (playActs step (start stdOpen) (connect ++ leaveAndConnect)).map (fun s ↦ (s.pc,
      (s.heap 0).next, (s.heap 1).next, (s.heap 1).index, (s.heap 2).index)) =
      some (.select, 1, 2, 0, 0) := by decide
  have h2 : (playActs step (start stdOpen) (connect ++ leaveAndConnect ++ readTwice)).map reads =
      some [4, 4] := by decide
  obtain ⟨s, hs, he⟩ := Option.map_eq_some_iff.mp h1
  obtain ⟨t, ht, hr⟩ := Option.map_eq_some_iff.mp h2
  refine ⟨⟨s, run_of_playActs hs, congrArg Prod.fst he, ?_⟩, t, run_of_playActs ht, by rw [hr]; decide⟩
  simp only [Prod.mk.injEq] at he
  obtain ⟨-, hn0, hn1, hi1, hi2⟩ := he
  rintro ⟨xs, hring, hnd⟩
  match xs, hring.1 with
  | [], hl => exact absurd (hl.1.symm.trans hn0) (by decide)
  | [x], hl =>
    obtain rfl : 1 = x := hn0.symm.trans hl.1
    exact absurd (hl.2.2.1.symm.trans hn1) (by decide)
  | x :: y :: xs, hl =>
    obtain rfl : 1 = x := hn0.symm.trans hl.1
    obtain rfl : 2 = y := hn1.symm.trans hl.2.2.1
    simp [hi1, hi2] at hnd

private theorem orderly_of_pc {s : Main} {answer : Answer} (h : ∀ i, s.pc ≠ .findEmpty i) :
    s.Orderly (.main answer) := fun i _ hpc ↦ absurd hpc (h i)

/-- A step of `main` that looks for no free slot. -/
private def looksElsewhere : Main → ListAct → Bool
  | s, .main _ =>
    match s.pc with
    | .findEmpty _ => false
    | _ => true
  | _, _ => false

private theorem orderly_of_looksElsewhere (s : Main) (a : ListAct) (h : looksElsewhere s a = true) :
    s.Orderly a := by
  unfold looksElsewhere at h
  split at h
  · split at h
    · cases h
    · next hpc => exact orderly_of_pc hpc
  · cases h

/-- One client connects and is on the list when `main` waits again. -/
theorem client_listed :
    ∃ s, Run Step (start stdOpen) s ∧ s.pc = .select ∧ s.state 0 = .lobby ∧
      ∃ xs, IsRing s.heap 0 xs ∧ 0 ∈ xs.map fun a ↦ (s.heap a).index := by
  let found : Main := { start stdOpen with pc := .findEmpty 0 }
  let accepting : Main := { start stdOpen with pc := .accept 0 }
  have hfound : playActs (guarded looksElsewhere step) (start stdOpen)
      [.main .nothing, .main (.ready true [])] = some found := rfl
  have h1 : RunWith Step Orderly (start stdOpen) found :=
    runWith_of_playActs orderly_of_looksElsewhere hfound
  have h2 : RunWith Step Orderly (start stdOpen) accepting := by
    refine RunWith.snoc (a := .main .nothing) h1 ?_ rfl
    rintro i h - - ⟨a, ha, -⟩
    cases ha
  have h3 : (playActs (guarded looksElsewhere step) accepting [.main (.descriptor 4), .main .nothing,
      .main (.address 1), .main .nothing, .main .nothing, .main .nothing, .main .nothing]).map
      (fun s ↦ (s.pc, s.state 0)) = some (.select, .lobby) := by decide
  obtain ⟨s, hs, he⟩ := Option.map_eq_some_iff.mp h3
  have hrun := h2.trans (runWith_of_playActs orderly_of_looksElsewhere hs)
  have hpc : s.pc = .select := congrArg Prod.fst he
  have hstate : s.state 0 = .lobby := congrArg Prod.snd he
  obtain ⟨xs, hring, -, hall⟩ := (list_matches_of_orderly hrun).1 hpc
  exact ⟨s, hrun.mono fun _ _ _ ↦ True.intro, hpc, hstate, xs, hring, hall _ (.inl hstate)⟩

end Main
end Unpv13e.Server
