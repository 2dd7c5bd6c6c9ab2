import Unpv13e.Base.Count
import Unpv13e.Base.Descriptors
import Unpv13e.Chat.Relay

/-!
# The chat room

Library `Chat`. `src/tcpcliserv/hw6_111550002.c:11–191`: the server that keeps its users in ten slots. One turn of the
loop is a `Select`, at most one `accept`, and what the users who are ready have sent. Calls other than `accept` and
`Read` succeed. A descriptor that `accept` returns is one that is not open.
-/

namespace Unpv13e.Chat
open Unpv13e.Base

/-- `struct connection` -/
structure Connection where
  conn : Int
  used : Bool
  name : Text

/-- A text that is sent to everyone but its sender, with the descriptors it is written to, in order, and those of
the users who are connected then. -/
structure Broadcast where
  sender : Int
  text : Text
  receivers : List Int
  connected : List Int

/-- `conns` and `user_num`; and, not variables of the code, the connected users whose names have been received, with
their descriptors, and what has been written to a single user and to everyone. -/
structure Server where
  conns : Fin 10 → Connection
  user_num : Int
  users : List (Int × Text)
  direct : List (Int × Text)
  broadcasts : List Broadcast

/-- Why the server takes no step any more. -/
inductive Halt
  /-- `exit(0)` after this has been printed -/
  | exit (msg : Text)
  /-- an array is overrun, or a descriptor is no index of a set -/
  | outOfBounds
  /-- an argument of `sprintf` is missing -/
  | indeterminate
  deriving DecidableEq

/-- How `accept` ends. -/
inductive Accept
  /-- `-1` with `errno == EINTR` -/
  | interrupted
  /-- a descriptor, from which the first `Read` returns the name, or nothing at the end -/
  | connected (fd : Int) (name : Text)

/-- One turn as `Select` and the calls of `Read` answer it: whether `listenfd` is ready, and what is read from the
descriptors that are ready. -/
structure Turn where
  listen : Option Accept
  ready : Int → Option Text

namespace Server

/-- `FindEmpty`, `src/tcpcliserv/hw6_111550002.c:16–24` -/
def findEmpty (s : Server) : Option (Fin 10) := (List.finRange 10).find? fun i ↦ !(s.conns i).used

/-- The descriptors of the used slots other than `who`, in the order of the table. -/
def receivers (s : Server) (who : Option (Fin 10)) : List Int :=
  ((List.finRange 10).filter fun i ↦ (s.conns i).used && some i ≠ who).map fun i ↦ (s.conns i).conn

/-- A text is written to the receivers. -/
def send (s : Server) (sender : Int) (text : Text) (receivers : List Int) : Server :=
  { s with broadcasts := s.broadcasts ++ [⟨sender, text, receivers, s.users.map Prod.fst⟩] }

/-- `WriteToEveryone`, `src/tcpcliserv/hw6_111550002.c:26–42` -/
def writeToEveryone (s : Server) (who : Fin 10) (sendline : Text) : Server :=
  s.send (s.conns who).conn sendline (s.receivers (some who))

/-- A slot gets other contents. -/
def setSlot (s : Server) (i : Fin 10) (c : Connection) : Server := { s with conns := Function.update s.conns i c }

/-- `"(%s left the room. %d users left)\n"` -/
def leftRoom (name : Text) (user_num : Int) : Text :=
  '(' :: name ++ " left the room. ".toList ++ decimal user_num ++ " users left)\n".toList

/-- `SomeoneLeave`, `src/tcpcliserv/hw6_111550002.c:44–65`. The format for the last user has a `%s` with no argument. -/
def someoneLeave (s : Server) (who : Fin 10) : Except Halt Server :=
  let c := s.conns who
  let s := s.setSlot who { c with used := false }
  let s := { s with direct := s.direct ++ [(c.conn, "Bye!\n".toList)] }
  if s.user_num > 1 then .ok (s.send c.conn (leftRoom c.name s.user_num) (s.receivers none))
  else .error .indeterminate

/-- `"You are the #%d user.\nYou may now type in or wait for other users.\n"` -/
def greeting (index : Fin 10) : Text :=
  "You are the #".toList ++ decimal (index.val + 1) ++
    " user.\nYou may now type in or wait for other users.\n".toList

/-- `"(#%d user %s enters.)\n"` -/
def enters (index : Fin 10) (name : Text) : Text :=
  "(#".toList ++ decimal (index.val + 1) ++ " user ".toList ++ name ++ " enters.)\n".toList

/-- `"user %d didn't send the name\n"` -/
def noName (index : Fin 10) : Text := "user ".toList ++ decimal index.val ++ " didn't send the name\n".toList

/-- `sizeof(conns[0].name)` -/
def nameSize : Nat := 64

/-- A user whose name has been received is put into the table and greeted. -/
def enter (s : Server) (index : Fin 10) (fd : Int) (name : Text) : Server where
  conns := Function.update s.conns index ⟨fd, true, name⟩
  user_num := s.user_num + 1
  users := (fd, name) :: s.users
  direct := s.direct ++ [(fd, greeting index)]
  broadcasts := s.broadcasts

/-- What is done with a name, `src/tcpcliserv/hw6_111550002.c:141–157`. -/
def welcome (s : Server) (index : Fin 10) (fd : Int) (name : Text) : Except Halt Server :=
  if name.length + 1 > nameSize then .error .outOfBounds
  else .ok ((s.enter index fd name).writeToEveryone index (enters index name))

/-- What is done when `listenfd` is ready, `src/tcpcliserv/hw6_111550002.c:115–158`, and whether the turn goes on. -/
def accept (s : Server) (a : Accept) : Except Halt (Server × Bool) :=
  match s.findEmpty with
  | none => .error (.exit "don't have empty space\n".toList)
  | some index =>
    match a with
    | .interrupted => .ok (s.setSlot index { s.conns index with conn := -1, used := true }, false)
    | .connected fd recvline =>
      if recvline = [] then .error (.exit (noName index))
      else (s.welcome index fd (cString recvline)).map (·, true)

/-- What is done for a slot, `src/tcpcliserv/hw6_111550002.c:162–190`. -/
def serve (ready : Int → Option Text) (s : Server) (i : Fin 10) : Except Halt Server :=
  let c := s.conns i
  if c.used then
    match ready c.conn with
    | none => .ok s
    | some recvline =>
      if recvline = [] then
        { s with user_num := s.user_num - 1, users := s.users.filter (·.1 ≠ c.conn) }.someoneLeave i
      else if (said c.name (cString recvline)).length + 1 > maxline then .error .outOfBounds
      else .ok (s.writeToEveryone i (said c.name (cString recvline)))
  else .ok s

/-- The loop over the slots. -/
def serveAll (ready : Int → Option Text) (s : Server) : Except Halt Server :=
  runActs (serve ready) s (List.finRange 10)

/-- `FD_SET` of a slot's descriptor is defined. -/
def InSet (c : Connection) : Prop := c.used = true → 0 ≤ c.conn ∧ c.conn < fdSetSize

instance (c : Connection) : Decidable (InSet c) :=
  inferInstanceAs (Decidable (c.used = true → 0 ≤ c.conn ∧ c.conn < fdSetSize))

/-- All calls of `FD_SET` for used slots are defined. -/
def InSets (s : Server) : Prop := ∀ i, InSet (s.conns i)

instance (s : Server) : Decidable s.InSets := inferInstanceAs (Decidable (∀ i, InSet (s.conns i)))

/-- One turn of the loop, `src/tcpcliserv/hw6_111550002.c:95–191`. -/
def step (s : Server) (a : Turn) : Except Halt Server :=
  if s.InSets then
    match a.listen with
    | none => serveAll a.ready s
    | some answer => do
      let (s, goes_on) ← s.accept answer
      if goes_on then serveAll a.ready s else return s
  else .error .outOfBounds

/-- The server when the loop begins. -/
def start : Server := ⟨fun _ ↦ ⟨0, false, []⟩, 0, [], [], []⟩

end Server

/-! ### What is claimed -/

/-- A broadcast is written to every other connected user once, and to nobody else. -/
structure Broadcast.Exact (b : Broadcast) : Prop where
  nodup : b.receivers.Nodup
  mem_iff : ∀ fd, fd ∈ b.receivers ↔ fd ∈ b.connected ∧ fd ≠ b.sender

namespace Server

/-- The descriptor in a slot that is used. -/
def fdAt (s : Server) (i : Fin 10) : Option Int := if (s.conns i).used then some (s.conns i).conn else none

/-- The table at the top of the loop: the used slots hold the descriptors and names of the connected users, each of
them once, `user_num` is their number, and all broadcasts so far have been exact. -/
structure Consistent (s : Server) : Prop where
  user_num : s.user_num = count fun i ↦ (s.conns i).used = true
  slots : Slots.Lists none s.fdAt fun x ↦ ∃ u ∈ s.users, x = some u.1
  names : ∀ i, (s.conns i).used = true → ((s.conns i).conn, (s.conns i).name) ∈ s.users
  exact : ∀ b ∈ s.broadcasts, b.Exact

/-- What can happen in a turn. `listenfd` is looked at while there are less than ten users; a new descriptor is not
open, and is an index of a set; only descriptors of used slots are looked at. -/
structure Possible (s : Server) (a : Turn) : Prop where
  listen : a.listen.isSome → s.user_num < 10
  fresh : ∀ fd name, a.listen = some (.connected fd name) →
    (∀ u ∈ s.users, u.1 ≠ fd) ∧ 0 ≤ fd ∧ fd < fdSetSize
  ready : ∀ fd, (a.ready fd).isSome → ∃ i, s.fdAt i = some fd

/-- The user in this slot leaves in this turn. -/
def Leaves (ready : Int → Option Text) (c : Connection) : Prop := c.used = true ∧ ready c.conn = some []

instance (ready : Int → Option Text) (c : Connection) : Decidable (Leaves ready c) :=
  inferInstanceAs (Decidable (c.used = true ∧ ready c.conn = some []))

/-- How many users leave in this turn. -/
def leaving (s : Server) (ready : Int → Option Text) (l : List (Fin 10)) : Nat :=
  l.countP fun i ↦ Leaves ready (s.conns i)

/-- How many users enter in this turn. -/
def entering (a : Turn) : Nat :=
  match a.listen with
  | some (.connected _ _) => 1
  | _ => 0

/-- The condition of a turn: no `accept` fails, names fit into a slot, messages fit into `sendline`, and at least two
users are left when users leave. -/
structure Fine (s : Server) (a : Turn) : Prop where
  accepted : a.listen ≠ some .interrupted
  name : ∀ fd name, a.listen = some (.connected fd name) → (cString name).length < nameSize
  said : ∀ i chunk, (s.conns i).used = true → a.ready (s.conns i).conn = some chunk → chunk ≠ [] →
    (said (s.conns i).name (cString chunk)).length < maxline
  left : 0 < s.leaving a.ready (List.finRange 10) →
    (s.leaving a.ready (List.finRange 10) : Int) + 2 ≤ s.user_num + entering a

variable {s t : Server} {i j index : Fin 10} {c : Connection} {fd : Int} {name text : Text} {who : Option (Fin 10)}

/-! ### Slots -/

/-- A slot whose contents have been changed. -/
theorem setSlot_self (s : Server) (i : Fin 10) (c : Connection) : (s.setSlot i c).conns i = c :=
  Function.update_self _ _ _

/-- A slot whose contents have not. -/
theorem setSlot_other (s : Server) (c : Connection) (h : j ≠ i) : (s.setSlot i c).conns j = s.conns j :=
  Function.update_of_ne h _ _

/-- The descriptors after a slot has got other contents. -/
theorem fdAt_setSlot (s : Server) (i : Fin 10) (c : Connection) :
    (s.setSlot i c).fdAt = Function.update s.fdAt i (if c.used then some c.conn else none) := by
  funext j
  unfold fdAt
  by_cases hj : j = i
  · rw [hj, setSlot_self, Function.update_self]
  · rw [setSlot_other s c hj, Function.update_of_ne hj]

theorem fdAt_used (h : (s.conns i).used = true) : s.fdAt i = some (s.conns i).conn := if_pos h

theorem fdAt_eq_some : s.fdAt i = some fd ↔ (s.conns i).used = true ∧ (s.conns i).conn = fd := by
  unfold fdAt
  split
  · next h => exact ⟨fun he ↦ ⟨h, Option.some.inj he⟩, fun he ↦ congrArg some he.2⟩
  · next h => exact ⟨fun he ↦ (nomatch he), fun he ↦ absurd he.1 h⟩

/-- Two used slots with one descriptor are one slot. -/
theorem Consistent.eq_of_conn (h : s.Consistent) (hi : (s.conns i).used = true) (hj : (s.conns j).used = true)
    (he : (s.conns i).conn = (s.conns j).conn) : i = j := by
  have hne : s.fdAt i ≠ none := by
    rw [fdAt_used hi]
    exact Option.some_ne_none _
  refine h.slots.once i j hne ?_
  rw [fdAt_used hi, fdAt_used hj, he]

/-- With less than ten users there is an empty slot. -/
theorem Consistent.exists_empty (h : s.Consistent) (hnum : s.user_num < 10) :
    ∃ i, s.findEmpty = some i ∧ (s.conns i).used = false := by
  cases hfind : s.findEmpty with
  | some i =>
    refine ⟨i, rfl, ?_⟩
    simpa using List.find?_some hfind
  | none =>
    have hall (i : Fin 10) : (s.conns i).used = true := by
      simpa using List.find?_eq_none.mp hfind i (List.mem_finRange i)
    have hcount : (count fun i ↦ (s.conns i).used = true) = 10 := by
      rw [count_congr fun i ↦ iff_true_intro (hall i)]
      decide
    rw [h.user_num, hcount] at hnum
    exact absurd hnum (by decide)

/-! ### Broadcasts -/

private theorem mem_receivers :
    fd ∈ s.receivers who ↔ ∃ j, (s.conns j).used = true ∧ some j ≠ who ∧ (s.conns j).conn = fd := by
  simp [receivers, and_assoc]

/-- What is written to the used slots other than those of the sender is exact. -/
theorem exact_receivers (hslots : Slots.Lists none s.fdAt fun x ↦ ∃ u ∈ s.users, x = some u.1)
    (hwho : ∀ j, (s.conns j).used = true → (some j ≠ who ↔ (s.conns j).conn ≠ fd)) :
    Broadcast.Exact ⟨fd, text, s.receivers who, s.users.map Prod.fst⟩ where
  nodup := by
    refine List.Nodup.map_on ?_ ((List.nodup_finRange 10).filter _)
    intro i hi j hj he
    have hui : (s.conns i).used = true := (Bool.and_eq_true_iff.mp (List.mem_filter.mp hi).2).1
    have huj : (s.conns j).used = true := (Bool.and_eq_true_iff.mp (List.mem_filter.mp hj).2).1
    refine hslots.once i j ?_ ?_
    · rw [fdAt_used hui]
      exact Option.some_ne_none _
    · rw [fdAt_used hui, fdAt_used huj, he]
  mem_iff x := by
    change x ∈ s.receivers who ↔ x ∈ s.users.map Prod.fst ∧ x ≠ fd
    rw [mem_receivers, List.mem_map]
    constructor
    · rintro ⟨j, hused, hj, rfl⟩
      obtain ⟨u, hu, he⟩ := hslots.sound j (by rw [fdAt_used hused]; exact Option.some_ne_none _)
      rw [fdAt_used hused] at he
      exact ⟨⟨u, hu, (Option.some.inj he).symm⟩, (hwho j hused).mp hj⟩
    · rintro ⟨⟨u, hu, rfl⟩, hne⟩
      obtain ⟨j, hj⟩ := hslots.complete (some u.1) ⟨u, hu, rfl⟩
      obtain ⟨hused, hconn⟩ := fdAt_eq_some.mp hj
      exact ⟨j, hused, (hwho j hused).mpr (hconn ▸ hne), hconn⟩

/-- A broadcast changes nothing in the table. -/
theorem Consistent.send (h : s.Consistent)
    (hexact : Broadcast.Exact ⟨fd, text, s.receivers who, s.users.map Prod.fst⟩) :
    (s.send fd text (s.receivers who)).Consistent where
  user_num := h.user_num
  slots := h.slots
  names := h.names
  exact b hb := by
    rcases List.mem_append.mp hb with hold | hnew
    · exact h.exact b hold
    · rw [List.mem_singleton.mp hnew]
      exact hexact

/-- A user's text is written to everyone else. -/
theorem Consistent.writeToEveryone (h : s.Consistent) (hi : (s.conns i).used = true) :
    (s.writeToEveryone i text).Consistent := by
  refine h.send (exact_receivers h.slots fun j hj ↦ ?_)
  refine not_congr ⟨fun he ↦ ?_, fun he ↦ ?_⟩
  · rw [Option.some.inj he]
  · rw [h.eq_of_conn hj hi he]

/-! ### Entering -/

/-- A user with a new descriptor is put into an empty slot. -/
theorem Consistent.enter (h : s.Consistent) (hfree : (s.conns index).used = false)
    (hfresh : ∀ u ∈ s.users, u.1 ≠ fd) : (s.enter index fd name).Consistent := by
  have hself : (s.enter index fd name).conns index = ⟨fd, true, name⟩ := Function.update_self _ _ _
  have hother (i : Fin 10) (hi : i ≠ index) : (s.enter index fd name).conns i = s.conns i :=
    Function.update_of_ne hi _ _
  refine ⟨?_, ?_, fun i hi ↦ ?_, h.exact⟩
  · have hfree' : ¬(s.conns index).used = true := by
      rw [hfree]
      exact Bool.false_ne_true
    have hgain : (count fun i ↦ ((s.enter index fd name).conns i).used = true) =
        (count fun i ↦ (s.conns i).used = true) + 1 := by
      refine count_gain index hfree' (congrArg Connection.used hself) fun i hi ↦ ?_
      rw [hother i hi]
    rw [hgain, Nat.cast_succ, ← h.user_num]
    rfl
  · have hnew : ¬∃ u ∈ s.users, some fd = some u.1 := by
      rintro ⟨u, hu, he⟩
      exact hfresh u hu (Option.some.inj he).symm
    have hnone : s.fdAt index = none := by
      unfold fdAt
      rw [hfree]
      rfl
    have hfdAt : (s.enter index fd name).fdAt = Function.update s.fdAt index (some fd) :=
      fdAt_setSlot s index ⟨fd, true, name⟩
    rw [hfdAt]
    refine (h.slots.fill hnew (Option.some_ne_none fd) hnone).congr fun x ↦ ?_
    change _ ↔ ∃ u ∈ (fd, name) :: s.users, x = some u.1
    rw [List.exists_mem_cons_iff]
    exact or_comm
  · by_cases hidx : i = index
    · rw [hidx, hself]
      exact List.mem_cons_self
    · rw [hother i hidx] at hi ⊢
      exact List.mem_cons_of_mem _ (h.names i hi)

/-- A user whose name fits is put into the table and announced. -/
theorem Consistent.welcome (h : s.Consistent) (hfree : (s.conns index).used = false)
    (hfresh : ∀ u ∈ s.users, u.1 ≠ fd) (hname : name.length < nameSize) :
    ∃ t, s.welcome index fd name = .ok t ∧ t.Consistent ∧ t.user_num = s.user_num + 1 ∧
      t.conns = Function.update s.conns index ⟨fd, true, name⟩ := by
  have hself : (s.enter index fd name).conns index = ⟨fd, true, name⟩ := Function.update_self _ _ _
  unfold Server.welcome
  rw [if_neg (by omega)]
  exact ⟨_, rfl, (h.enter hfree hfresh).writeToEveryone (congrArg Connection.used hself), rfl, rfl⟩

/-! ### Leaving -/

/-- The server when a user has left and has been sent the last line. -/
def depart (s : Server) (i : Fin 10) : Server where
  conns := Function.update s.conns i { s.conns i with used := false }
  user_num := s.user_num - 1
  users := s.users.filter (·.1 ≠ (s.conns i).conn)
  direct := s.direct ++ [((s.conns i).conn, "Bye!\n".toList)]
  broadcasts := s.broadcasts

/-- The user in a used slot leaves. -/
theorem Consistent.depart (h : s.Consistent) (hi : (s.conns i).used = true) : (s.depart i).Consistent := by
  have hself : (s.depart i).conns i = { s.conns i with used := false } := Function.update_self _ _ _
  have hother (j : Fin 10) (hj : j ≠ i) : (s.depart i).conns j = s.conns j := Function.update_of_ne hj _ _
  refine ⟨?_, ?_, fun j hj ↦ ?_, h.exact⟩
  · have hgone : ¬((s.depart i).conns i).used = true := by
      rw [hself]
      exact Bool.false_ne_true
    have hlose : (count fun j ↦ (s.conns j).used = true) =
        (count fun j ↦ ((s.depart i).conns j).used = true) + 1 := by
      refine count_lose i hi hgone fun j hj ↦ ?_
      rw [hother j hj]
    have hnum := h.user_num
    change s.user_num - 1 = _
    omega
  · have hne : s.fdAt i ≠ none := by
      rw [fdAt_used hi]
      exact Option.some_ne_none _
    have hfdAt : (s.depart i).fdAt = Function.update s.fdAt i none :=
      fdAt_setSlot s i { s.conns i with used := false }
    rw [hfdAt]
    refine (h.slots.vacate hne).congr fun x ↦ ?_
    rw [fdAt_used hi]
    change _ ↔ ∃ u ∈ s.users.filter (·.1 ≠ (s.conns i).conn), x = some u.1
    constructor
    · rintro ⟨⟨u, hu, rfl⟩, hx⟩
      exact ⟨u, List.mem_filter.mpr ⟨hu, decide_eq_true fun he ↦ hx (congrArg some he)⟩, rfl⟩
    · rintro ⟨u, hu, rfl⟩
      obtain ⟨hu, hne⟩ := List.mem_filter.mp hu
      exact ⟨⟨u, hu, rfl⟩, fun he ↦ of_decide_eq_true hne (Option.some.inj he)⟩
  · by_cases hji : j = i
    · rw [hji, hself] at hj
      exact absurd hj Bool.false_ne_true
    · rw [hother j hji] at hj ⊢
      refine List.mem_filter.mpr ⟨h.names j hj, decide_eq_true fun he ↦ hji ?_⟩
      exact h.eq_of_conn hj hi he

/-- A departure that leaves at least two users is announced. -/
theorem Consistent.someoneLeave (h : s.Consistent) (hi : (s.conns i).used = true) (hnum : 2 < s.user_num) :
    ∃ t, { s with user_num := s.user_num - 1, users := s.users.filter (·.1 ≠ (s.conns i).conn) }.someoneLeave i =
        .ok t ∧ t.Consistent ∧ t.user_num = s.user_num - 1 ∧ t.conns = (s.depart i).conns := by
  have hleft : (s.depart i).user_num > 1 := by
    change s.user_num - 1 > 1
    omega
  have hdepart := h.depart hi
  refine ⟨_, if_pos hleft, hdepart.send (exact_receivers hdepart.slots fun j hj ↦ ?_), rfl, rfl⟩
  refine iff_of_true (Option.some_ne_none j) fun he ↦ ?_
  -- the descriptor of the one who has left is that of no user any more
  have hmem := (List.mem_filter.mp (hdepart.names j hj)).2
  exact of_decide_eq_true hmem he

/-! ### The loop over the slots -/

/-- What is done for one slot. Only this slot can change, and `user_num` falls when its user leaves. -/
theorem Consistent.serve {ready : Int → Option Text} (h : s.Consistent)
    (hsaid : ∀ chunk, (s.conns i).used = true → ready (s.conns i).conn = some chunk → chunk ≠ [] →
      (said (s.conns i).name (cString chunk)).length < maxline)
    (hleft : Leaves ready (s.conns i) → 2 < s.user_num) :
    ∃ t, s.serve ready i = .ok t ∧ t.Consistent ∧ (t.conns = s.conns ∨ t.conns = (s.depart i).conns) ∧
      t.user_num = s.user_num - if Leaves ready (s.conns i) then 1 else 0 := by
  have hstays (hn : ¬Leaves ready (s.conns i)) :
      s.user_num = s.user_num - if Leaves ready (s.conns i) then 1 else 0 := by
    rw [if_neg hn, sub_zero]
  unfold Server.serve
  by_cases hused : (s.conns i).used = true
  · dsimp only
    rw [if_pos hused]
    cases hready : ready (s.conns i).conn with
    | none => exact ⟨s, rfl, h, .inl rfl, hstays fun hl ↦ (nomatch hready.symm.trans hl.2)⟩
    | some chunk =>
      dsimp only
      by_cases hchunk : chunk = []
      · rw [hchunk] at hready
        have hleaves : Leaves ready (s.conns i) := ⟨hused, hready⟩
        obtain ⟨t, ht, hcons, hnum, hconns⟩ := h.someoneLeave hused (hleft hleaves)
        rw [if_pos hchunk, if_pos hleaves]
        exact ⟨t, ht, hcons, .inr hconns, hnum⟩
      · have hfits := hsaid chunk hused hready hchunk
        rw [if_neg hchunk, if_neg (by omega)]
        refine ⟨_, rfl, h.writeToEveryone hused, .inl rfl, hstays fun hl ↦ ?_⟩
        exact hchunk (Option.some.inj (hready.symm.trans hl.2))
  · dsimp only
    rw [if_neg hused]
    exact ⟨s, rfl, h, .inl rfl, hstays fun hl ↦ hused hl.1⟩

private theorem InSets.of_conns (h : s.InSets) (hconns : t.conns = s.conns ∨ t.conns = (s.depart i).conns) :
    t.InSets := by
  intro j hused
  rcases hconns with hsame | hgone
  · rw [hsame] at hused ⊢
    exact h j hused
  · rw [hgone] at hused ⊢
    by_cases hji : j = i
    · have hself : (s.depart i).conns j = { s.conns i with used := false } := by
        rw [hji]
        exact Function.update_self _ _ _
      rw [hself] at hused
      exact absurd hused Bool.false_ne_true
    · have hother : (s.depart i).conns j = s.conns j := Function.update_of_ne hji _ _
      rw [hother] at hused ⊢
      exact h j hused

/-- The slots that have not been looked at yet are as they were, and enough users remain for those who leave. -/
theorem Consistent.serveAll {ready : Int → Option Text} {l : List (Fin 10)} (hl : l.Nodup) (h : s.Consistent)
    (hset : s.InSets) (hsaid : ∀ i ∈ l, ∀ chunk, (s.conns i).used = true → ready (s.conns i).conn = some chunk →
      chunk ≠ [] → (said (s.conns i).name (cString chunk)).length < maxline)
    (hleft : 0 < s.leaving ready l → (s.leaving ready l : Int) + 2 ≤ s.user_num) :
    ∃ t, runActs (Server.serve ready) s l = .ok t ∧ t.Consistent ∧ t.InSets := by
  induction l generalizing s with
  | nil => exact ⟨s, rfl, h, hset⟩
  | cons i l ih =>
    obtain ⟨hi, hnodup⟩ := List.nodup_cons.mp hl
    have hcount : s.leaving ready (i :: l) = s.leaving ready l + if Leaves ready (s.conns i) then 1 else 0 := by
      unfold leaving
      rw [List.countP_cons]
      simp only [decide_eq_true_eq]
    rw [hcount] at hleft
    obtain ⟨t, ht, hcons, hconns, hnum⟩ := h.serve (hsaid i List.mem_cons_self) fun hleaves ↦ by
      rw [if_pos hleaves] at hleft
      have := hleft (Nat.succ_pos _)
      omega
    have hsame (j : Fin 10) (hj : j ∈ l) : t.conns j = s.conns j := by
      have hji : j ≠ i := fun he ↦ hi (he ▸ hj)
      rcases hconns with hsame | hgone
      · rw [hsame]
      · rw [hgone]
        exact Function.update_of_ne hji _ _
    have hrest : t.leaving ready l = s.leaving ready l := by
      refine List.countP_congr fun j hj ↦ ?_
      rw [hsame j hj]
    obtain ⟨u, hu, hlast⟩ := ih hnodup hcons (hset.of_conns hconns)
      (fun j hj ↦ by rw [hsame j hj]; exact hsaid j (List.mem_cons_of_mem i hj)) fun hpos ↦ by
        rw [hrest] at hpos ⊢
        have := hleft (Nat.lt_add_right _ hpos)
        split at hnum
        · rw [if_pos ‹_›] at this
          omega
        · rw [if_neg ‹_›] at this
          omega
    refine ⟨u, ?_, hlast⟩
    rw [runActs, ht, ok_bind]
    exact hu

/-! ### Turns -/

variable {a : Turn}

/-- A turn without a new user. -/
private theorem Consistent.step_none (h : s.Consistent) (hset : s.InSets) (hf : s.Fine a)
    (hlisten : a.listen = none) : ∃ t, s.step a = .ok t ∧ t.Consistent ∧ t.InSets := by
  have hleft := hf.left
  unfold entering at hleft
  rw [hlisten] at hleft
  dsimp only at hleft
  rw [Nat.cast_zero, add_zero] at hleft
  unfold Server.step
  rw [if_pos hset, hlisten]
  exact h.serveAll (List.nodup_finRange 10) hset (fun i _ ↦ hf.said i) hleft

/-- A descriptor that is not open is not looked at. -/
private theorem Consistent.quiet (h : s.Consistent) (hp : s.Possible a) (hfresh : ∀ u ∈ s.users, u.1 ≠ fd) :
    a.ready fd = none := by
  cases hready : a.ready fd with
  | none => rfl
  | some chunk =>
    obtain ⟨i, hi⟩ := hp.ready fd (by rw [hready]; rfl)
    obtain ⟨u, hu, he⟩ := h.slots.sound i (by rw [hi]; exact Option.some_ne_none _)
    exact absurd (Option.some.inj (he.symm.trans hi)) (hfresh u hu)

/-- A user who has just entered does not leave in the same turn. -/
private theorem leaving_welcome {ready : Int → Option Text} (hfree : (s.conns index).used = false)
    (hquiet : ready fd = none) (hself : t.conns index = ⟨fd, true, name⟩)
    (hother : ∀ i, i ≠ index → t.conns i = s.conns i) (l : List (Fin 10)) :
    t.leaving ready l = s.leaving ready l := by
  refine List.countP_congr fun i _ ↦ ?_
  rw [decide_eq_true_eq, decide_eq_true_eq]
  by_cases hidx : i = index
  · rw [hidx]
    refine iff_of_false (fun hl ↦ ?_) fun hl ↦ ?_
    · have hready := hl.2
      rw [hself] at hready
      exact (nomatch hquiet.symm.trans hready)
    · have hused := hl.1
      rw [hfree] at hused
      exact Bool.false_ne_true hused
  · rw [hother i hidx]

/-- A turn with a new user, whose descriptor is not looked at before the next one. -/
private theorem Consistent.step_connected (h : s.Consistent) (hset : s.InSets) (hp : s.Possible a) (hf : s.Fine a)
    {recvline : Text} (hlisten : a.listen = some (.connected fd recvline)) (hne : recvline ≠ []) :
    ∃ t, s.step a = .ok t ∧ t.Consistent ∧ t.InSets := by
  obtain ⟨hfresh, hpos, hlt⟩ := hp.fresh fd recvline hlisten
  obtain ⟨index, hindex, hfree⟩ := h.exists_empty (hp.listen (by rw [hlisten]; rfl))
  obtain ⟨t, ht, hcons, hnum, hconns⟩ := h.welcome hfree hfresh (hf.name fd recvline hlisten)
  have hself : t.conns index = ⟨fd, true, cString recvline⟩ := by rw [hconns, Function.update_self]
  have hother (i : Fin 10) (hi : i ≠ index) : t.conns i = s.conns i := by rw [hconns, Function.update_of_ne hi]
  have hquiet := h.quiet hp hfresh
  have hset' : t.InSets := by
    intro i hused
    by_cases hidx : i = index
    · rw [hidx, hself]
      exact ⟨hpos, hlt⟩
    · rw [hother i hidx] at hused ⊢
      exact hset i hused
  have hsaid (i : Fin 10) (chunk : Text) (hused : (t.conns i).used = true)
      (hready : a.ready (t.conns i).conn = some chunk) (hchunk : chunk ≠ []) :
      (said (t.conns i).name (cString chunk)).length < maxline := by
    by_cases hidx : i = index
    · rw [hidx, hself] at hready
      exact (nomatch hquiet.symm.trans hready)
    · rw [hother i hidx] at hused hready ⊢
      exact hf.said i chunk hused hready hchunk
  have hleft := hf.left
  unfold entering at hleft
  rw [hlisten] at hleft
  rw [← leaving_welcome hfree hquiet hself hother] at hleft
  obtain ⟨u, hu, hlast⟩ := hcons.serveAll (List.nodup_finRange 10) hset' (fun i _ ↦ hsaid i) fun hpos ↦ by
    have hle := hleft hpos
    dsimp only at hle
    omega
  refine ⟨u, ?_, hlast⟩
  have haccept : s.accept (.connected fd recvline) = .ok (t, true) := by
    unfold Server.accept
    rw [hindex]
    dsimp only
    rw [if_neg hne, ht]
    rfl
  unfold Server.step
  rw [if_pos hset, hlisten]
  dsimp only
  rw [haccept, ok_bind]
  exact hu

/-- A turn that meets the condition keeps the table consistent, unless the program ends because a new user has not
sent a name. -/
theorem Consistent.step (h : s.Consistent) (hset : s.InSets) (hp : s.Possible a) (hf : s.Fine a) :
    (∃ t, s.step a = .ok t ∧ t.Consistent ∧ t.InSets) ∨
      (∃ fd, a.listen = some (.connected fd [])) ∧ ∃ index, s.step a = .error (.exit (noName index)) := by
  cases hlisten : a.listen with
  | none => exact .inl (h.step_none hset hf hlisten)
  | some answer =>
    cases answer with
    | interrupted => exact absurd hlisten hf.accepted
    | connected fd recvline =>
      by_cases hne : recvline = []
      · subst hne
        obtain ⟨index, hindex, -⟩ := h.exists_empty (hp.listen (by rw [hlisten]; rfl))
        refine .inr ⟨⟨fd, rfl⟩, index, ?_⟩
        unfold Server.step
        rw [if_pos hset, hlisten]
        dsimp only
        unfold Server.accept
        rw [hindex]
        rfl
      · exact .inl (h.step_connected hset hp hf hlisten hne)

/-! ### Runs -/

/-- Before the first turn there are no users. -/
theorem consistent_start : start.Consistent where
  user_num := by
    have hnone : (count fun i ↦ (start.conns i).used = true) = 0 := count_eq_zero.mpr fun _ ↦ Bool.false_ne_true
    rw [hnone]
    rfl
  slots := by
    refine ⟨?_, fun i hi ↦ absurd rfl hi, ?_, fun i j hi _ ↦ absurd rfl hi⟩
    · rintro ⟨u, hu, -⟩
      exact absurd hu List.not_mem_nil
    · rintro w ⟨u, hu, -⟩
      exact absurd hu List.not_mem_nil
  names i hi := absurd hi Bool.false_ne_true
  exact b hb := absurd hb List.not_mem_nil

/-- The invariant of a run. -/
private theorem consistent_of_run
    (h : RunWith (fun s a t ↦ s.step a = .ok t) (fun s a ↦ s.Possible a ∧ s.Fine a) start s) :
    s.Consistent ∧ s.InSets := by
  have hstart : start.Consistent ∧ start.InSets := ⟨consistent_start, fun _ hused ↦ absurd hused Bool.false_ne_true⟩
  refine h.preserves (I := fun s ↦ s.Consistent ∧ s.InSets) (fun s a t hs hok hstep ↦ ?_) hstart
  rcases hs.1.step hs.2 hok.1 hok.2 with ⟨u, hu, hinv⟩ | ⟨-, index, hexit⟩
  · rw [hstep] at hu
    cases hu
    exact hinv
  · rw [hstep] at hexit
    cases hexit

/-- In every run whose turns meet the condition the table is consistent at the top of the loop, and each broadcast so
far has been written to every other connected user once and to nobody else. When `listenfd` is ready there is an
empty slot. A turn that meets the condition succeeds, unless a new user does not send a name. -/
theorem table_consistent
    (h : RunWith (fun s a t ↦ s.step a = .ok t) (fun s a ↦ s.Possible a ∧ s.Fine a) start s) :
    s.Consistent ∧ ∀ a, s.Possible a →
      (a.listen.isSome → ∃ i, s.findEmpty = some i) ∧
      (s.Fine a → (∃ t, s.step a = .ok t) ∨
        (∃ fd, a.listen = some (.connected fd [])) ∧ ∃ index, s.step a = .error (.exit (noName index))) := by
  obtain ⟨hcons, hset⟩ := consistent_of_run h
  refine ⟨hcons, fun a hp ↦ ⟨fun hlisten ↦ ?_, fun hf ↦ ?_⟩⟩
  · obtain ⟨i, hi, -⟩ := hcons.exists_empty (hp.listen hlisten)
    exact ⟨i, hi⟩
  · rcases hcons.step hset hp hf with ⟨t, ht, -⟩ | hexit
    · exact .inl ⟨t, ht⟩
    · exact .inr hexit

/-- A turn in which a user enters and nobody says anything. -/
private theorem fine_enter {s : Server} {fd : Int} {name : Text} (hname : (cString name).length < nameSize) :
    s.Fine ⟨some (.connected fd name), fun _ ↦ none⟩ := by
  refine ⟨fun he ↦ (nomatch he), fun fd' name' he ↦ ?_, fun i chunk _ hready ↦ (nomatch hready), fun hpos ↦ ?_⟩
  · cases he
    exact hname
  · obtain ⟨i, -, hi⟩ := List.countP_pos_iff.mp hpos
    exact (nomatch (of_decide_eq_true hi).2)

/-- The server when a first user has entered. -/
def withAnn : Server := (start.enter 0 5 "ann".toList).writeToEveryone 0 (enters 0 "ann".toList)

/-- Two users enter. -/
theorem table_consistent_two :
    ∃ s : Server, s.user_num = 2 ∧ s.users = [(6, "bob".toList), (5, "ann".toList)] ∧
      s.broadcasts.map (·.receivers) = [[], [5]] ∧ s.Consistent := by
  have hfirst : start.Possible ⟨some (.connected 5 "ann".toList), fun _ ↦ none⟩ := by
    refine ⟨fun _ ↦ by decide, fun fd name he ↦ ?_, fun fd h ↦ (nomatch h)⟩
    cases he
    exact ⟨fun u hu ↦ absurd hu List.not_mem_nil, by decide, by decide⟩
  have hsecond : withAnn.Possible ⟨some (.connected 6 "bob".toList), fun _ ↦ none⟩ := by
    refine ⟨fun _ ↦ by decide, fun fd name he ↦ ?_, fun fd h ↦ (nomatch h)⟩
    cases he
    exact ⟨by decide, by decide, by decide⟩
  have hone : RunWith (fun (s : Server) a t ↦ s.step a = .ok t) (fun s a ↦ s.Possible a ∧ s.Fine a) start withAnn :=
    RunWith.refl.snoc ⟨hfirst, fine_enter (by decide)⟩ rfl
  have hstep : withAnn.step ⟨some (.connected 6 "bob".toList), fun _ ↦ none⟩ =
      .ok ((withAnn.enter 1 6 "bob".toList).writeToEveryone 1 (enters 1 "bob".toList)) := rfl
  exact ⟨_, rfl, rfl, by decide, (table_consistent (hone.snoc ⟨hsecond, fine_enter (by decide)⟩ hstep)).1⟩

/-- An `accept` that is interrupted leaves a slot used without a user, and the next turn is undefined. -/
theorem interrupted_accept_leaks :
    start.Possible ⟨some .interrupted, fun _ ↦ none⟩ ∧
      ∃ t, start.step ⟨some .interrupted, fun _ ↦ none⟩ = .ok t ∧ ¬t.Consistent ∧
        ∀ a, t.step a = .error .outOfBounds := by
  refine ⟨⟨fun _ ↦ by decide, fun fd name h ↦ (nomatch h), fun fd h ↦ (nomatch h)⟩,
    start.setSlot 0 ⟨-1, true, []⟩, rfl, fun hcons ↦ ?_, fun a ↦ ?_⟩
  · have hpos : 0 < count fun i ↦ ((start.setSlot 0 ⟨-1, true, []⟩).conns i).used = true := count_pos.mpr ⟨0, rfl⟩
    have hnum := hcons.user_num
    change (0 : Int) = _ at hnum
    omega
  · refine if_neg fun hset ↦ ?_
    have hle := (hset 0 rfl).1
    exact absurd hle (by decide)

end Server

end Unpv13e.Chat
