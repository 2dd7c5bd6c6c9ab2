import Mathlib
import Unpv13e.Uno.Table

/-!
# `GameStart`

Library `Uno`. `src/tcpcliserv/final_server.c:281–656`. A call is the opening
(`gameStart`: deal, opening card, first player, first round line) followed by the loop,
cut into the steps of `Game.step`: a seat passed over, a line or the end of file of a
seat, and the settlement of the UNO calls after the last seat.
-/

namespace Unpv13e.Uno
open Unpv13e.Base

/-- What `readline` returned for a seat: nothing (`n == 0`) or the text in `recvline`. -/
inductive Event
  | eof
  | line (recvline : Text)
  deriving DecidableEq, Repr

/-- A step of the loop of `GameStart`. -/
inductive GameAct
  /-- the seat is not in the game or not readable -/
  | pass
  | recv (env : Env) (event : Event)
  | settle (env : Env)

namespace Game

/-! ### The opening -/

/-- `hand[i][card_seq[card_num - 1]] = 1; card_num--` -/
def dealCard (i : Seat) (g : Game) : Game :=
  { g with
    hand := Function.update g.hand i (insert (g.cardSeq (g.cardNum - 1)) (g.hand i))
    cardNum := g.cardNum - 1 }

/-- Seven cards for an occupied seat. -/
def dealSeat (g : Game) (i : Seat) : Game :=
  if (g.used i).isNone then g
  else
    let g := (dealCard i)^[7] g
    { g with handNum := Function.update g.handNum i 7 }

/-- The loop that turns up cards until one is no wild card: the card and the pile left. -/
def turnUp (cardSeq : Nat → CardId) : Nat → Except Stop (CardId × Nat)
  | 0 => .error .outOfBounds
  | n + 1 => if (cardSeq n).val < 100 then .ok (cardSeq n, n) else turnUp cardSeq n

/-- `rand() % player_num` and the loop that turns it into an occupied seat. -/
def firstPlayer (used : Seat → Option ConnId) (playerNum draw : Nat) : Except Stop Seat :=
  if playerNum = 0 then .error .divByZero
  else
    match ((List.finRange 10).filter fun i ↦ (used i).isSome)[draw % playerNum]? with
    | some i => .ok i
    | none =>
      if h : draw % playerNum < 10 then .ok ⟨draw % playerNum, h⟩ else .error .outOfBounds

/-- The local variables once the pile is shuffled and nothing is dealt. -/
def freshTable (rand : Nat → Nat) (used : Seat → Option ConnId) (playerNum : Nat) : Game where
  used := used
  playerNum := playerNum
  hand := fun _ ↦ ∅
  handNum := fun _ ↦ -1
  cardSeq := shuffle cardOfIndex rand (fun _ ↦ 0) 108
  cardNum := 108
  whoseRound := 0
  turn := 0
  tableCard := 0
  colour := Char.ofNat 0
  cardId := none
  isUno := fun _ ↦ false
  haveUno := none
  timeStamp := fun _ ↦ longMax
  winner := none
  pc := .scan 0
  out := []

/-- `SendToEveryone` with the line `9` and the names of the occupied seats. -/
def announce (name : ConnId → Text) (g : Game) : Game :=
  let members := (List.finRange 10).filterMap g.used
  g.emit (members.map fun c ↦ .send c (['9'] ++ blankJoin (members.map name) ++ ['\n']))

/-- The opening card, the pile below it and the first player. -/
def openTable (tableCard : CardId) (cardNum : Nat) (first : Seat) (g : Game) : Game :=
  { g with
    tableCard := tableCard
    cardNum := cardNum
    colour := charAt (cards tableCard) 1
    whoseRound := first }

/-- The opening of `GameStart`, `src/tcpcliserv/final_server.c:281–351`, up to the loop.
`rand` shuffles the deck and `draw` picks the first player. -/
def gameStart (name : ConnId → Text) (rand : Nat → Nat) (draw : Nat)
    (used : Seat → Option ConnId) (playerNum : Nat) : Except Stop Game :=
  let g := (List.finRange 10).foldl dealSeat (freshTable rand used playerNum)
  turnUp g.cardSeq g.cardNum >>= fun p ↦
  firstPlayer used playerNum draw >>= fun first ↦
    startRound name (cards p.1) ((g.openTable p.1 p.2 first).announce name)

/-! ### The end of a game -/

/-- `winner_score`: the cards in all hands, those of departed seats included. -/
def winnerScore (g : Game) : Nat :=
  ((List.finRange 10).map fun k ↦
    if (g.used k).isSome then ((handList (g.hand k)).map score).sum else 0).sum

/-- The line `15` for seat `winner`, whose connection is `c`. -/
def winLine (name : ConnId → Text) (g : Game) (c : ConnId) : Text :=
  line2 ['1', '5'] (name c) (decimal g.winnerScore)

/-- Whether a seat with cards has no connection, so that `conns[used[j]]` is no connection. -/
def hasGhost (g : Game) : Prop := ∃ j, g.handNum j ≠ -1 ∧ g.used j = none

instance (g : Game) : Decidable g.hasGhost := inferInstanceAs (Decidable (∃ _, _))

/-- `GameStart` returns. -/
def endGame (winner : Option Seat) (g : Game) : Game := { g with winner := winner, pc := .ended }

/-- A player got rid of the last card, `src/tcpcliserv/final_server.c:484–511`. -/
def winByPlay (name : ConnId → Text) (i : Seat) (g : Game) : Except Stop Game :=
  g.conn i >>= fun c ↦
    if g.hasGhost then .error .outOfBounds
    else
      let g' := g.sendToEveryoneInGame none (g.winLine name c)
      .ok ((g'.emit (g.active.map fun p ↦ .setState p.2 .lobby)).endGame (some i))

/-- Everybody else has left, `src/tcpcliserv/final_server.c:410–439`. -/
def winByDeparture (name : ConnId → Text) (g : Game) : Except Stop Game :=
  if g.hasGhost then .error .outOfBounds
  else
    let es := g.active.flatMap fun p ↦
      [.send p.2 (g.winLine name p.2), .setState p.2 .lobby]
    .ok ((g.emit es).endGame ((g.active.getLast?).map Prod.fst <|> g.winner))

/-! ### Lines of a seat -/

/-- `whose_round = SwitchToNextPlayer(whose_round, hand_num, turn)` -/
def nextTurn (g : Game) : Game :=
  { g with whoseRound := switchToNextPlayer g.whoseRound g.handNum g.turn }

/-- `hand_num[i] = -1; player_num--` -/
def leaveSeat (i : Seat) (g : Game) : Game :=
  { g with handNum := Function.update g.handNum i (-1), playerNum := g.playerNum - 1 }

/-- The counter of a departed seat. -/
theorem handNum_leaveSeat (i : Seat) (g : Game) : (g.leaveSeat i).handNum i = -1 :=
  Function.update_self _ _ _

/-- The other counters stay as they are. -/
theorem handNum_leaveSeat_of_ne {i j : Seat} (hj : j ≠ i) (g : Game) :
    (g.leaveSeat i).handNum j = g.handNum j :=
  Function.update_of_ne hj _ _

/-- A departure, `src/tcpcliserv/final_server.c:387–449`. The connection goes to `state`. -/
def depart (env : Env) (state : ConnState) (i : Seat) (g : Game) : Except Stop Game :=
  g.conn i >>= fun c ↦
    let g := ((g.leaveSeat i).emit [.setState c state]).sendToEveryoneInGame (some i)
      (line1 ['7'] (env.name c))
    if g.playerNum < 2 then winByDeparture env.name g
    else if i = g.whoseRound then
      startRound env.name (recolour g.tableCard g.colour) g.nextTurn
    else .ok g

/-- The name `buffer2` a played card is looked up by: a wild card's colour becomes `x`. -/
def lookupName (residue cardName : Text) : Text :=
  match cardName with
  | c :: _ :: rest => if c = 'd' ∨ c = 'e' then c :: 'x' :: rest else cardName
  | [c] => if c = 'd' ∨ c = 'e' then c :: 'x' :: residue else cardName
  | [] => cardName

/-- The first card of the hand with that name. -/
def findCard (h : Finset CardId) (cardName : Text) : Option CardId :=
  (List.finRange 108).find? fun q ↦ q ∈ h ∧ cards q = cardName

/-- `card_id = q; hand[i][q] = 0; hand_num[i]--` -/
def dropCard (i : Seat) (q : CardId) (g : Game) : Game :=
  { g with
    cardId := some q
    hand := Function.update g.hand i ((g.hand i).erase q)
    handNum := Function.update g.handNum i (g.handNum i - 1) }

/-- The card put down leaves the hand. -/
theorem hand_dropCard (i : Seat) (q : CardId) (g : Game) :
    (g.dropCard i q).hand i = (g.hand i).erase q :=
  Function.update_self _ _ _

/-- The other hands stay as they are. -/
theorem hand_dropCard_of_ne {i j : Seat} (hj : j ≠ i) (q : CardId) (g : Game) :
    (g.dropCard i q).hand j = g.hand j :=
  Function.update_of_ne hj _ _

/-- The counter goes down by one. -/
theorem handNum_dropCard (i : Seat) (q : CardId) (g : Game) :
    (g.dropCard i q).handNum i = g.handNum i - 1 :=
  Function.update_self _ _ _

/-- The other counters stay as they are. -/
theorem handNum_dropCard_of_ne {i j : Seat} (hj : j ≠ i) (q : CardId) (g : Game) :
    (g.dropCard i q).handNum j = g.handNum j :=
  Function.update_of_ne hj _ _

/-- The card leaves the hand, if the hand has it. -/
def putDown (residue cardName : Text) (i : Seat) (g : Game) : Game :=
  match findCard (g.hand i) (lookupName residue cardName) with
  | some q => g.dropCard i q
  | none => g

/-- `table_card = q; colour = c` -/
def showCard (q : CardId) (c : Char) (g : Game) : Game := { g with tableCard := q, colour := c }

/-- `turn = (turn + 1) % 2` -/
def flipTurn (g : Game) : Game := { g with turn := g.turn + 1 }

/-- Draw cards for the next player and pass over that player. -/
def drawAndSkip (rand : Nat → Nat → Nat) (howMany : Nat) (g : Game) : Except Stop Game :=
  let g := g.nextTurn
  giveCardToPlayer rand g.whoseRound howMany g >>= fun g ↦ .ok g.nextTurn

/-- The effect of the card on the table, `src/tcpcliserv/final_server.c:513–542`. -/
def cardEffect (rand : Nat → Nat → Nat) (g : Game) : Except Stop Game :=
  let t := g.tableCard.val
  if 76 ≤ t ∧ t < 84 then .ok g.nextTurn.nextTurn
  else if 84 ≤ t ∧ t < 92 then
    .ok (if g.playerNum > 2 then g.flipTurn.nextTurn else g.flipTurn)
  else if 92 ≤ t ∧ t < 100 then drawAndSkip rand 2 g
  else if 104 ≤ t ∧ t < 108 then drawAndSkip rand 4 g
  else .ok g.nextTurn

/-- The second token of a line, `strtok(NULL, " ")` after the first call. -/
def arg1 (l : Text) : Except Stop Text :=
  match (tokens l)[1]? with
  | some w => .ok w
  | none => .error .nullToken

/-- The third token of a line. -/
def arg2 (l : Text) : Except Stop Text :=
  match (tokens l)[2]? with
  | some w => .ok w
  | none => .error .nullToken

/-- The fourth token of a line. -/
def arg3 (l : Text) : Except Stop Text :=
  match (tokens l)[3]? with
  | some w => .ok w
  | none => .error .nullToken

/-- A line `9`: a card is played, `src/tcpcliserv/final_server.c:461–543`. -/
def play (env : Env) (i : Seat) (l : Text) (g : Game) : Except Stop Game :=
  arg1 l >>= fun cardName ↦
    let g := g.putDown env.residue cardName i
    match g.cardId with
    | none => .error .indeterminate
    | some q =>
      let g := g.showCard q (charAt cardName 1)
      if g.handNum i ≤ 0 then g.winByPlay env.name i
      else cardEffect env.rand g >>= startRound env.name cardName

/-- A line `10`: a card is drawn, `src/tcpcliserv/final_server.c:544–551`. -/
def skip (env : Env) (g : Game) : Except Stop Game :=
  giveCardToPlayer env.rand g.whoseRound 1 g >>= fun g ↦
    startRound env.name (recolour g.tableCard g.colour) g.nextTurn

/-- `if(time_stamp[i] == LONG_MAX) time_stamp[i] = strtol(str_time_stamp, &op, 10)`, where
`str_time_stamp` is fetched before but only used here. -/
def stamp (i : Seat) (strTimeStamp : Except Stop Text) (g : Game) : Except Stop Game :=
  if g.timeStamp i = longMax then
    strTimeStamp >>= fun w ↦
      .ok { g with timeStamp := Function.update g.timeStamp i (strtol w) }
  else .ok g

/-- `have_uno = u` -/
def setUno (u : Option Seat) (g : Game) : Game := { g with haveUno := u }

/-- A line `11`: a player calls UNO, `src/tcpcliserv/final_server.c:553–575`. -/
def callUno (env : Env) (i : Seat) (l : Text) (g : Game) : Except Stop Game :=
  arg1 l >>= fun valid ↦
    if charAt valid 0 = '0' then
      giveCardToPlayer env.rand i 2 g >>= fun g ↦
      g.conn i >>= fun c ↦
        .ok (g.sendToEveryoneInGame none (line1 ['1', '1'] (env.name c)))
    else if g.isUno i = false ∧ g.handNum i = 1 then stamp i (arg2 l) (g.setUno (some i))
    else .ok g

/-- The search for the named player: seats are compared by `conns[j].name`. -/
def findNamed (env : Env) (g : Game) (w : Text) : Option Seat :=
  (List.finRange 10).find? fun j ↦
    g.handNum j ≠ -1 ∧ env.name (seatAsConn j) = w

/-- A line `12`: a player catches another, `src/tcpcliserv/final_server.c:576–616`. -/
def catchUno (env : Env) (i : Seat) (l : Text) (g : Game) : Except Stop Game :=
  arg1 l >>= fun valid ↦
    if charAt valid 0 = '0' then
      giveCardToPlayer env.rand i 2 g >>= fun g ↦
      g.conn i >>= fun c ↦
      arg2 l >>= fun w ↦
        .ok (g.sendToEveryoneInGame none (line2 ['1', '9'] (env.name c) w))
    else
      (match g.haveUno with
        | some j => .ok (some j)
        | none => arg2 l >>= fun w ↦ .ok (g.findNamed env w)) >>= fun named ↦
      match named with
      | none => .error .outOfBounds
      | some j =>
        if g.isUno j = false ∧ g.handNum j = 1 then stamp i (arg3 l) (g.setUno (some j))
        else .ok (g.setUno none)

/-- What `GameStart` does with what it read from seat `i`. -/
def recv (env : Env) (i : Seat) (event : Event) (g : Game) : Except Stop Game :=
  match event with
  | .eof => depart env .empty i g
  | .line recvline =>
    if charAt recvline 0 = '8' then depart env .lobby i g
    else if charAt recvline 0 = '2' ∧ charAt recvline 1 = '1' then
      .ok (g.sendToEveryoneInGame none recvline)
    else
      let l := chop recvline
      if charAt l 0 = '9' then play env i l g
      else if charAt l 0 = '1' ∧ charAt l 1 = '0' then skip env g
      else if charAt l 0 = '1' ∧ charAt l 1 = '1' then callUno env i l g
      else if charAt l 0 = '1' ∧ charAt l 1 = '2' then catchUno env i l g
      else .ok g

/-- A line `9` is a play. -/
theorem recv_play {env : Env} {i : Seat} {l : Text} {g : Game} (hl : charAt l 0 = '9') :
    recv env i (.line l) g = play env i (chop l) g := by
  cases l with
  | nil => exact absurd hl (by decide)
  | cons c cs =>
    have hc : c = '9' := hl
    subst hc
    have hchop : charAt (chop ('9' :: cs)) 0 = '9' := rfl
    unfold recv
    dsimp only
    rw [if_neg (fun h8 ↦ absurd (hl.symm.trans h8) (by decide)),
      if_neg (fun h21 ↦ absurd (hl.symm.trans h21.1) (by decide)), if_pos hchop]

/-! ### The settlement -/

/-- One turn of the loop for the smallest time stamp; the seat with one card wins ties. -/
def fasterOf (g : Game) (u fastest i : Seat) : Seat :=
  if g.handNum i = -1 then fastest
  else if g.timeStamp i < g.timeStamp fastest then i
  else if g.timeStamp i = g.timeStamp fastest ∧ i = u then i
  else fastest

/-- `fastest` after the loop over the seats 1 to 9. -/
def fastest (g : Game) (u : Seat) : Seat := ((List.finRange 10).tail).foldl (g.fasterOf u) 0

/-- `is_uno[u] = 1` -/
def markUno (u : Seat) (g : Game) : Game := { g with isUno := Function.update g.isUno u true }

/-- Seat `u` called or was caught this round, `src/tcpcliserv/final_server.c:620–653`. -/
def settleUno (env : Env) (u : Seat) (g : Game) : Except Stop Game :=
  let f := g.fastest u
  g.conn u >>= fun c ↦
    if f = u then
      .ok ((g.markUno u).sendToEveryoneInGame none (line1 ['1', '4'] (env.name c)))
    else
      g.conn f >>= fun _ ↦
      giveCardToPlayer env.rand u 2 g >>= fun g ↦
        .ok (g.sendToEveryoneInGame none
          (line2 ['1', '3'] (env.name (seatAsConn u)) (env.name (seatAsConn f))))

/-- `have_uno` and `time_stamp` at the start of a turn of the loop. -/
def newRound (g : Game) : Game :=
  { g with haveUno := none, timeStamp := fun _ ↦ longMax, pc := .scan 0 }

/-- The end of a turn of the loop, and the start of the next. -/
def settle (env : Env) (g : Game) : Except Stop Game :=
  (match g.haveUno with
    | none => .ok g
    | some u => settleUno env u g) >>= fun g ↦
    .ok g.newRound

/-! ### Steps -/

/-- The loop variable moves on to the next seat. -/
def advance (i : Seat) (g : Game) : Game :=
  match g.pc with
  | .ended => g
  | _ => { g with pc := if h : i.val + 1 < 10 then .scan ⟨i.val + 1, h⟩ else .settle }

/-- A step of the loop of `GameStart`. -/
def step (g : Game) : GameAct → Except Stop Game
  | .pass =>
    match g.pc with
    | .scan i => .ok (g.advance i)
    | _ => .error .blocked
  | .recv env event =>
    match g.pc with
    | .scan i =>
      if (g.used i).isNone ∨ g.handNum i = -1 then .error .blocked
      else recv env i event g >>= fun g ↦ .ok (g.advance i)
    | _ => .error .blocked
  | .settle env =>
    match g.pc with
    | .settle => settle env g
    | _ => .error .blocked

/-- A seat in the game that has something to read is read. -/
theorem step_recv_eq {g : Game} {env : Env} {event : Event} {i : Seat} (hpc : g.pc = .scan i)
    (hu : (g.used i).isSome) (hn : g.handNum i ≠ -1) :
    g.step (.recv env event) = recv env i event g >>= fun r ↦ .ok (r.advance i) := by
  have hin : ¬ ((g.used i).isNone ∨ g.handNum i = -1) := by
    rintro (h | h)
    · rw [Option.isNone_iff_eq_none] at h
      rw [h] at hu
      cases hu
    · exact hn h
  unfold step
  dsimp only
  rw [hpc]
  dsimp only
  rw [if_neg hin]

/-- Reading it goes well. -/
theorem step_recv {g r : Game} {env : Env} {event : Event} {i : Seat} (hpc : g.pc = .scan i)
    (hu : (g.used i).isSome) (hn : g.handNum i ≠ -1) (hr : recv env i event g = .ok r) :
    g.step (.recv env event) = .ok (r.advance i) := by
  rw [step_recv_eq hpc hu hn, hr]
  rfl

end Game

/-- The steps of the loop of `GameStart`. -/
def GameStep (g : Game) (a : GameAct) (g' : Game) : Prop := g.step a = .ok g'

end Unpv13e.Uno
