import Unpv13e.Base.Runs
import Unpv13e.Uno.GameStart

/-!
# Lobby and rooms

Library `Server`. The parties of the server: `main`, which serves the lobby and hands requests
over, the handler `GetInRoom` of every connection and the thread `RoomProcess` of every room
(`src/tcpcliserv/final_server.c:658–1160` and `:1294–1405`). A statement that reads or writes
what other parties can change is one step, and so is a section under a semaphore. The lines
written in a step are its output. `room_arg[r].room_no` is `r` wherever it is set, so the
thread's `room_no` is its number. Descriptors and the list of `main` are left out here.
-/

namespace Unpv13e.Server
open Unpv13e.Base Unpv13e.Uno

/-- An index of `room_data`. -/
abbrev RoomId := Fin 45

/-- `room_data[r]`. -/
structure RoomData where
  newPlayer : Bool
  playerNum : Int
  players : Seat → Option ConnId
  used : Bool
  inGame : Bool
  random : Bool

/-- `room_arg[r]`. -/
structure RoomArg where
  owner : Seat
  random : Bool

/-- `handler_arg[k]`. -/
structure HandlerArg where
  roomNo : Int
  owner : ConnId
  random : Bool

/-- Where the thread of a room is. `ready` are the seats in `rset`. -/
inductive RoomPc
  /-- `if(room_working[tid] == 0) continue;` -/
  | waiting
  /-- `used[]` is emptied and `room_arg[tid]` read -/
  | load
  /-- `while(room_working[tid] == 1)` and the test of `already_play` -/
  | loopTest
  /-- the section that lets new players in -/
  | letIn
  | select
  /-- the `for` loop over the seats, at seat `i` -/
  | scan (ready : List Seat) (i : Nat)
  /-- `conns[used[i]].state = state` -/
  | leaveState (ready : List Seat) (i : Seat) (state : ConnState)
  /-- the section that takes the player out -/
  | leaveLock (ready : List Seat) (i : Seat)
  /-- `if(room_working[tid] == 0) break;` -/
  | leaveTest (ready : List Seat) (i : Seat)
  /-- the new owner, the line `8` or `7`, and `used[i] = -1` -/
  | leaveOwner (ready : List Seat) (i : Seat)
  /-- `if(player_num < 2)` after a line `7` -/
  | startTest (ready : List Seat) (i : Seat)
  /-- `in_game = 1` in its section -/
  | gameLock
  /-- the opening of `GameStart` -/
  | gameOpen
  /-- the loop of `GameStart`, with the effects done and those to come -/
  | game (g : Game) (done todo : List Effect)
  /-- the section that resets the room -/
  | resetLock
  /-- `room_data[room_no].random = 0` -/
  | finishRandom
  /-- `room_num--` -/
  | finishNum

/-- Where the thread goes on after it has read from seat `i`,
`src/tcpcliserv/final_server.c:779–835`. -/
def RoomPc.afterRead (ready : List Seat) (i : Seat) : Event → RoomPc
  | .eof => .leaveState ready i .empty
  | .line recvline =>
    if charAt recvline 0 = '6' then .leaveState ready i .lobby
    else if charAt recvline 0 = '7' then .startTest ready i
    else .scan ready (i.val + 1)

/-- The local variables of `RoomProcess`. -/
structure Thread where
  pc : RoomPc
  used : Seat → Option ConnId
  owner : Seat
  playerNum : Int
  alreadyPlay : Bool
  /-- for which creation of the room it was last started, not a variable of the code -/
  serves : Nat

/-- Where a handler is. -/
inductive HandlerPc
  /-- `if(handler_working[tid] == 0) continue;` -/
  | idle
  /-- `handler_arg[tid]` is read -/
  | load
  /-- the search for a random room, at `index` -/
  | scanRandom (index : Nat) (fittest : Option RoomId)
  /-- the section that joins a random room -/
  | joinRandom (r : RoomId)
  /-- the search for an unused room -/
  | scanCreate (index : Nat)
  /-- the section that creates a room -/
  | create (r : RoomId) (random : Bool)
  /-- the section that joins the room asked for -/
  | join (roomNo : Int)
  /-- the line `17` when there is no room left -/
  | fullSend
  /-- `conns[player_index].state = 1` after it -/
  | fullState
  /-- `handler_working[tid] = 0` after a refusal -/
  | refusedWorking
  /-- `conns[player_index].state = 1` after that -/
  | refusedState
  /-- `handler_working[tid] = 0` -/
  | done

/-- The local variables of `GetInRoom`. -/
structure Handler where
  pc : HandlerPc
  playerIndex : ConnId

/-- Where `main` is with a request. -/
inductive RequestPc
  | idle
  /-- `handler_arg[k]` is set -/
  | arg (k : ConnId) (a : HandlerArg)
  /-- `conns[k].state = 2` -/
  | setRoom (k : ConnId)
  /-- `handler_working[k] = 1` -/
  | setWorking (k : ConnId)

/-- All parties and what they share. -/
structure Parties where
  main : RequestPc
  state : ConnId → ConnState
  name : ConnId → Text
  handlerArg : ConnId → HandlerArg
  handlerWorking : ConnId → Bool
  handler : ConnId → Handler
  room : RoomId → RoomData
  roomArg : RoomId → RoomArg
  roomWorking : RoomId → Bool
  thread : RoomId → Thread
  roomNum : Int
  /-- how often the room was created, not a variable of the code -/
  created : RoomId → Nat

/-- A line written to a connection. -/
abbrev Sent := ConnId × Text

/-- What a thread gets from outside in a step. -/
inductive Input
  | nothing
  /-- the seats `select` reports -/
  | ready (seats : List Seat)
  /-- what `readline` returns -/
  | read (event : Event)
  /-- the random numbers of the opening of `GameStart` -/
  | opening (rand : Nat → Nat) (draw : Nat)
  /-- a step of the loop of `GameStart` -/
  | game (act : GameAct)

/-- A step of a party. -/
inductive ServerAct
  /-- `accept` -/
  | accept (k : ConnId)
  /-- `main` reads from a connection in the lobby -/
  | read (k : ConnId) (event : Event)
  | main
  | handler (k : ConnId)
  | thread (r : RoomId) (input : Input)

/-- `SendToEveryone`, `src/tcpcliserv/final_server.c:117–131`. -/
def sendToEveryone (who : Option Seat) (line : Text) (used : Seat → Option ConnId) : List Sent :=
  (List.finRange 10).filterMap fun i ↦ if who = some i then none else (used i).map fun k ↦ (k, line)

/-- A player is put on the first free place, `src/tcpcliserv/final_server.c:941–953`. -/
def RoomData.join (d : RoomData) (k : ConnId) : Option RoomData :=
  match (List.finRange 10).find? fun i ↦ d.players i = none with
  | none => none
  | some i => some { d with
      playerNum := d.playerNum + 1
      players := Function.update d.players i (some k)
      newPlayer := true }

namespace Parties

/-- Before the first connection. -/
def start : Parties where
  main := .idle
  state _ := .empty
  name _ := []
  handlerArg _ := ⟨0, 0, false⟩
  handlerWorking _ := false
  handler _ := ⟨.idle, 0⟩
  room _ := ⟨false, 0, fun _ ↦ none, false, false, false⟩
  roomArg _ := ⟨0, false⟩
  roomWorking _ := false
  thread _ := ⟨.waiting, fun _ ↦ none, 0, 0, false, 0⟩
  roomNum := 0
  created _ := 0

/-- `conns[k].state = state` -/
def setState (k : ConnId) (state : ConnState) (s : Parties) : Parties :=
  { s with state := Function.update s.state k state }

/-- `handler_working[k] = b` -/
def setWorking (k : ConnId) (b : Bool) (s : Parties) : Parties :=
  { s with handlerWorking := Function.update s.handlerWorking k b }

/-- `conns[k].name` is written; `none` is a write past the 32 bytes. -/
def setName (k : ConnId) (name : Text) (s : Parties) : Option Parties :=
  if name.length < 32 then some { s with name := Function.update s.name k name } else none

/-- The handler of `k` goes on at `pc`. -/
def setHandler (k : ConnId) (pc : HandlerPc) (s : Parties) : Parties :=
  { s with handler := Function.update s.handler k { s.handler k with pc := pc } }

/-- The thread of `r` goes on with these variables. -/
def setThread (r : RoomId) (t : Thread) (s : Parties) : Parties :=
  { s with thread := Function.update s.thread r t }

/-- `room_data[r]` is changed. -/
def setRoom (r : RoomId) (d : RoomData) (s : Parties) : Parties :=
  { s with room := Function.update s.room r d }

/-- `room_working[r] = b` -/
def setRoomWorking (r : RoomId) (b : Bool) (s : Parties) : Parties :=
  { s with roomWorking := Function.update s.roomWorking r b }

/-! ### `main` -/

/-- `HandleLogin`, `src/tcpcliserv/final_server.c:100–109`. -/
def handleLogin (s : Parties) (id : Text) (thisId : ConnId) : Prop :=
  ∀ i, s.state i ≠ .empty → i ≠ thisId → s.name i ≠ id

instance (s : Parties) (id : Text) (thisId : ConnId) : Decidable (s.handleLogin id thisId) :=
  inferInstanceAs (Decidable (∀ _, _))

/-- What `main` does with a line from the lobby, `src/tcpcliserv/final_server.c:1313–1405`. -/
def request (s : Parties) (k : ConnId) (recvline : Text) : Option (Parties × List Sent) :=
  match tokens (chop recvline) with
  | [] => none
  | op :: rest =>
    if op = ['1'] then some (s, [(k, ['1', '\n'])])
    else if charAt op 0 < '0' ∨ '9' < charAt op 0 then do
      -- `sprintf(conns[k].name, op, strlen(op))`
      let name ← sprintf op (some op.length)
      let s ← s.setName k name
      match rest with
      | [] => none
      | opop :: _ => if opop = ['1'] then some (s, [(k, line1 ['4'] op)]) else some (s, [])
    else if op = ['2'] then
      match rest with
      | login :: id :: _ =>
        if login = ['1'] ∧ s.handleLogin id k then do
          let s ← s.setName k id
          return (s, [(k, ['2', '\n']), (k, line1 ['4'] id)])
        else some (s, [(k, ['3', '\n'])])
      | [login] => if login = ['1'] then none else some (s, [(k, ['3', '\n'])])
      | [] => none
    else if op = ['3'] then some ({ s with main := .arg k ⟨-1, k, false⟩ }, [])
    else if op = ['4'] then
      match rest with
      | strRoomNo :: _ => some ({ s with main := .arg k ⟨strtol strRoomNo, k, false⟩ }, [])
      | [] => none
    else if op = ['5'] then some ({ s with main := .arg k ⟨-1, k, true⟩ }, [])
    else some (s, [])

/-- The next statement of `main` for a request, `src/tcpcliserv/final_server.c:1369–1405`. -/
def mainNext (s : Parties) : Option (Parties × List Sent) :=
  match s.main with
  | .idle => none
  | .arg k a =>
    some ({ s with handlerArg := Function.update s.handlerArg k a, main := .setRoom k }, [])
  | .setRoom k => some ({ s.setState k .room with main := .setWorking k }, [])
  | .setWorking k => some ({ s.setWorking k true with main := .idle }, [])

/-! ### `GetInRoom` -/

/-- The section that joins a room is passed. -/
def joined (s : Parties) (k : ConnId) (r : RoomId) : Option (Parties × List Sent) :=
  match (s.room r).join (s.handler k).playerIndex with
  | none => none
  | some d => some ({ (s.setRoom r d).setHandler k .done with roomNum := s.roomNum + 1 }, [])

/-- The section that creates a room, `src/tcpcliserv/final_server.c:988–1018`, `:1062–1087`. -/
def createRoom (s : Parties) (k : ConnId) (r : RoomId) (random : Bool) : Parties :=
  { ((s.setRoom r { s.room r with
      used := true
      playerNum := 1
      random := random
      players := Function.update (s.room r).players 0 (some (s.handler k).playerIndex)
      inGame := false
      newPlayer := true }).setRoomWorking r true).setHandler k .done with
    roomNum := s.roomNum + 1
    roomArg := Function.update s.roomArg r ⟨0, true⟩
    created := Function.update s.created r (s.created r + 1) }

/-- A refusal in the section of a join. -/
def refuse (s : Parties) (k : ConnId) (line : Text) : Parties × List Sent :=
  (s.setHandler k .refusedWorking, [((s.handler k).playerIndex, line)])

/-- The next step of the handler of `k`. -/
def handlerNext (s : Parties) (k : ConnId) : Option (Parties × List Sent) :=
  match (s.handler k).pc with
  | .idle => if s.handlerWorking k then some (s.setHandler k .load, []) else none
  | .load =>
    let a := s.handlerArg k
    let pc : HandlerPc :=
      if a.random then .scanRandom 0 none else if a.roomNo = -1 then .scanCreate 0 else .join a.roomNo
    some ({ s with handler := Function.update s.handler k ⟨pc, a.owner⟩ }, [])
  | .scanRandom index fittest =>
    if h : index < 45 then
      let d := s.room ⟨index, h⟩
      if d.inGame = false ∧ d.random = true then some (s.setHandler k (.joinRandom ⟨index, h⟩), [])
      else if d.used = false ∧ fittest = none then
        some (s.setHandler k (.scanRandom (index + 1) (some ⟨index, h⟩)), [])
      else some (s.setHandler k (.scanRandom (index + 1) fittest), [])
    else
      match fittest with
      | none => some (s.setHandler k .fullSend, [])
      | some r => some (s.setHandler k (.create r true), [])
  | .joinRandom r =>
    let d := s.room r
    if d.used = false ∨ d.inGame = true ∨ 9 ≤ d.playerNum then
      some (s.setHandler k (.scanRandom 0 none), [])
    else s.joined k r
  | .scanCreate index =>
    if h : index < 45 then
      if (s.room ⟨index, h⟩).used = false then some (s.setHandler k (.create ⟨index, h⟩ false), [])
      else some (s.setHandler k (.scanCreate (index + 1)), [])
    else some (s.setHandler k .fullSend, [])
  | .create r random =>
    if (s.room r).used = true then
      some (s.setHandler k (if random then .scanRandom 0 none else .scanCreate 0), [])
    else some (s.createRoom k r random, [])
  | .join roomNo =>
    if h : 0 ≤ roomNo ∧ roomNo.toNat < 45 then
      let d := s.room ⟨roomNo.toNat, h.2⟩
      if d.used = false ∨ d.random = true then some (s.refuse k ['1', '6', '\n'])
      else if d.inGame = true then some (s.refuse k ['1', '8', '\n'])
      else if 9 ≤ d.playerNum then some (s.refuse k ['1', '7', '\n'])
      else s.joined k ⟨roomNo.toNat, h.2⟩
    else none
  | .fullSend => some (s.setHandler k .fullState, [((s.handler k).playerIndex, ['1', '7', '\n'])])
  | .fullState => some ((s.setState (s.handler k).playerIndex .lobby).setHandler k .done, [])
  | .refusedWorking => some ((s.setWorking k false).setHandler k .refusedState, [])
  | .refusedState => some ((s.setState (s.handler k).playerIndex .lobby).setHandler k .idle, [])
  | .done => some ((s.setWorking k false).setHandler k .idle, [])

/-! ### `RoomProcess` -/

/-- `"5 %d %s"`, the other names, and the newline, `src/tcpcliserv/final_server.c:713–722`. A
place without a player has no name. -/
def enterLine (s : Parties) (r : RoomId) (owner : Seat) (used : Seat → Option ConnId) :
    Option Text := do
  let d := s.room r
  let o ← d.players owner
  let others ← ((List.finRange 10).filter fun j ↦ j.val < 9 ∧ (used j).isSome ∧ j ≠ owner).mapM
    fun j ↦ d.players j
  return ['5'] ++ blankJoin (decimal r.val :: s.name o :: others.map s.name) ++ ['\n']

/-- Seat `i` of the loop that lets players in, `src/tcpcliserv/final_server.c:707–742`: `used[]`
and the lines written. -/
def letInSeat (s : Parties) (r : RoomId) (owner : Seat)
    (acc : (Seat → Option ConnId) × List Sent) (i : Seat) :
    Option ((Seat → Option ConnId) × List Sent) :=
  match (s.room r).players i with
  | none => some acc
  | some k =>
    if s.state k = .room ∧ acc.1 i = none then do
      let line ← s.enterLine r owner acc.1
      let used := Function.update acc.1 i (some k)
      return (used, acc.2 ++ (k, line) :: sendToEveryone (some i) (line1 ['6'] (s.name k)) used)
    else some acc

/-- The section that lets new players in, `src/tcpcliserv/final_server.c:698–747`. -/
def letIn (s : Parties) (r : RoomId) (t : Thread) : Option (Parties × List Sent) :=
  let d := s.room r
  if d.newPlayer = true then do
    let acc ← (List.finRange 10).foldlM (s.letInSeat r t.owner) (t.used, [])
    let t := { t with
      pc := .select
      used := acc.1
      -- `player_num` is read when somebody is let in
      playerNum := if acc.2 = [] then t.playerNum else d.playerNum }
    return ((s.setRoom r { d with newPlayer := false }).setThread r t, acc.2)
  else some (s.setThread r { t with pc := .select }, [])

/-- A player is taken out, `src/tcpcliserv/final_server.c:803–816`. -/
def takeOut (s : Parties) (r : RoomId) (t : Thread) (ready : List Seat) (i : Seat) : Parties :=
  let d := s.room r
  let n := d.playerNum - 1
  let d := { d with players := Function.update d.players i none, playerNum := n }
  let t := { t with pc := .leaveTest ready i, playerNum := n }
  if n = 0 then
    ((s.setRoom r { d with used := false }).setRoomWorking r false).setThread r t
  else (s.setRoom r d).setThread r t

/-- The new owner, if the owner leaves: the first other seat in use. -/
def nextOwner (t : Thread) (i : Seat) : Seat :=
  ((List.finRange 10).find? fun j ↦ j ≠ i ∧ (t.used j).isSome).getD t.owner

/-- The line about a player that left, and `used[i] = -1`,
`src/tcpcliserv/final_server.c:820–845`. -/
def leaveOwner (s : Parties) (r : RoomId) (t : Thread) (ready : List Seat) (i : Seat) :
    Option (Parties × List Sent) :=
  let owner := if i = t.owner then nextOwner t i else t.owner
  let named := if i = t.owner then t.used owner else t.used i
  match named with
  | none => none
  | some k =>
    let op := if i = t.owner then ['8'] else ['7']
    let t' := { t with
      pc := .scan ready (i.val + 1), owner := owner, used := Function.update t.used i none }
    some (s.setThread r t', sendToEveryone (some i) (line1 op (s.name k)) t.used)

/-- The room is reset after a game, `src/tcpcliserv/final_server.c:857–868`. -/
def reset (s : Parties) (r : RoomId) (t : Thread) : Parties :=
  ((s.setRoom r { s.room r with
    playerNum := 0, used := false, inGame := false, random := false,
    players := fun _ ↦ none }).setRoomWorking r false).setThread r { t with pc := .loopTest }

/-- An effect of `GameStart`. -/
def perform (s : Parties) : Effect → Parties × List Sent
  | .send c line => (s, [(c, line)])
  | .setState c state => (s.setState c state, [])

/-- The next step of the thread of `r`. What it does not ask for is not looked at. -/
def threadNext (s : Parties) (r : RoomId) (input : Input) : Option (Parties × List Sent) :=
  let t := s.thread r
  match t.pc with
  | .waiting =>
    if s.roomWorking r then some (s.setThread r { t with pc := .load }, []) else none
  | .load =>
    some (s.setThread r { t with
      pc := .loopTest, used := fun _ ↦ none, owner := (s.roomArg r).owner, alreadyPlay := false,
      serves := s.created r }, [])
  | .loopTest =>
    some (s.setThread r { t with
      pc := if s.roomWorking r ∧ t.alreadyPlay = false then .letIn else .finishRandom }, [])
  | .letIn => s.letIn r t
  | .select =>
    match input with
    | .ready seats =>
      if ∀ i ∈ seats, (t.used i).isSome then some (s.setThread r { t with pc := .scan seats 0 }, [])
      else none
    | _ => none
  | .scan ready i =>
    if h : i < 10 then
      if t.used ⟨i, h⟩ = none ∨ ⟨i, h⟩ ∉ ready then
        some (s.setThread r { t with pc := .scan ready (i + 1) }, [])
      else
        match input with
        | .read event => some (s.setThread r { t with pc := .afterRead ready ⟨i, h⟩ event }, [])
        | _ => none
    else some (s.setThread r { t with pc := .loopTest }, [])
  | .leaveState ready i state =>
    match t.used i with
    | none => none
    | some k => some ((s.setState k state).setThread r { t with pc := .leaveLock ready i }, [])
  | .leaveLock ready i => some (s.takeOut r t ready i, [])
  | .leaveTest ready i =>
    some (s.setThread r { t with
      pc := if s.roomWorking r then .leaveOwner ready i else .loopTest }, [])
  | .leaveOwner ready i => s.leaveOwner r t ready i
  | .startTest ready i =>
    if t.playerNum < 2 then
      some (s.setThread r { t with pc := .scan ready (i.val + 1) },
        sendToEveryone none ['1', '9', '\n'] t.used)
    else some (s.setThread r { t with pc := .gameLock }, [])
  | .gameLock =>
    some ((s.setRoom r { s.room r with inGame := true }).setThread r { t with pc := .gameOpen }, [])
  | .gameOpen =>
    match input with
    | .opening rand draw =>
      match Game.gameStart s.name rand draw t.used t.playerNum.toNat with
      | .error _ => none
      | .ok g => some (s.setThread r { t with pc := .game g [] g.out }, [])
    | _ => none
  | .game g done (e :: todo) =>
    let (s', out) := s.perform e
    some (s'.setThread r { t with pc := .game g (done ++ [e]) todo }, out)
  | .game g done [] =>
    if g.pc = .ended then some (s.setThread r { t with pc := .resetLock, alreadyPlay := true }, [])
    else
      match input with
      | .game act =>
        match g.step act with
        | .error _ => none
        | .ok g' => some (s.setThread r { t with pc := .game g' done (g'.out.drop g.out.length) }, [])
      | _ => none
  | .resetLock => some (s.reset r t, [])
  | .finishRandom =>
    some ((s.setRoom r { s.room r with random := false }).setThread r { t with pc := .finishNum }, [])
  | .finishNum =>
    some ({ s.setThread r { t with pc := .waiting } with roomNum := s.roomNum - 1 }, [])

/-! ### Steps -/

/-- One step, with the lines written. -/
def step (s : Parties) : ServerAct → Option (Parties × List Sent)
  | .accept k =>
    match s.main with
    | .idle => if s.state k = .empty then some (s.setState k .lobby, []) else none
    | _ => none
  | .read k event =>
    match s.main with
    | .idle =>
      if s.state k = .lobby then
        match event with
        | .eof => some (s.setState k .empty, [])
        | .line recvline => s.request k recvline
      else none
    | _ => none
  | .main => s.mainNext
  | .handler k => s.handlerNext k
  | .thread r input => s.threadNext r input

/-- The state after a step. -/
def next (s : Parties) (a : ServerAct) : Option Parties := (s.step a).map Prod.fst

/-- The step as a relation. -/
def Step (s : Parties) (a : ServerAct) (t : Parties) : Prop := s.next a = some t

/-- A step has an output. -/
theorem Step.exists_out {s t : Parties} {a : ServerAct} (h : s.Step a t) :
    ∃ out, s.step a = some (t, out) := by
  obtain ⟨⟨t', out⟩, hs, rfl⟩ := Option.map_eq_some_iff.mp h
  exact ⟨out, hs⟩

end Parties
end Unpv13e.Server
