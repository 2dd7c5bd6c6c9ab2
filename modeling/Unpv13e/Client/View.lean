import Unpv13e.Base.Runs
import Unpv13e.Base.Text

/-!
# What a player sees of the game

Library `Client`. The variables in which `game` keeps the table and what it does to them for
each kind of line of the server (`src/tcpcliserv/final_cli.c:768–1001`). Texts that are only
shown (`broadcast`, `new_card`), the clock and the chat are left out.
-/

namespace Unpv13e.Client
open Unpv13e.Base

/-- The variables of `game`, `src/tcpcliserv/final_cli.c:768–781`. -/
structure View where
  /-- `player[0..n)` -/
  players : List Text
  nRemain : Int
  playerRemain : Nat → Int
  uno : Nat → Bool
  cardRemain : Int
  tableCard : Text
  direct : Bool
  whosTurn : Text
  myCard : Text

namespace View

/-- The names of the line `9`, `src/tcpcliserv/final_cli.c:783–793`. There is room for ten
names of 31 characters. -/
def start (recvline : Text) : Except Stop View :=
  let players := (tokens (chop recvline)).tail
  if players.length ≤ 10 ∧ ∀ w ∈ players, w.length < 32 then
    .ok {
      players := players
      nRemain := players.length
      playerRemain := fun _ ↦ 0
      uno := fun _ ↦ false
      cardRemain := 0
      tableCard := []
      direct := false
      whosTurn := []
      myCard := [] }
  else .error .outOfBounds

/-- `strcat(my_card, tt); strcat(my_card, " ")` for each card, and the last blank cut off. -/
def joinCards (ws : List Text) : Text := (ws.flatMap fun w ↦ w ++ [' ']).dropLast

private theorem flatMap_blank (w : Text) (ws : List Text) :
    ((w :: ws).flatMap fun w ↦ w ++ [' ']) = w ++ blankJoin ws ++ [' '] := by
  induction ws generalizing w with
  | nil => simp [blankJoin]
  | cons v vs ih =>
    rw [List.flatMap_cons, ih]
    simp [blankJoin]

/-- The cards are read back from the string. -/
theorem tokens_joinCards {ws : List Text} (hne : ws ≠ []) (hws : ∀ v ∈ ws, IsField v) :
    tokens (joinCards ws) = ws := by
  cases ws with
  | nil => exact absurd rfl hne
  | cons w ws =>
    unfold joinCards
    rw [flatMap_blank, List.dropLast_concat]
    exact tokens_blankJoin w ws (hws w (by simp)).1 fun v hv ↦ (hws v (by simp [hv])).1

/-- The line `10`, `src/tcpcliserv/final_cli.c:857–885`. -/
def round (line : Text) (v : View) : Except Stop View :=
  match tokens (chop line) with
  | _ :: table :: pile :: direction :: turn :: rest =>
    if rest.length < v.players.length then .error .nullToken
    else if 2 < table.length ∨ 31 < turn.length ∨ rest.length = v.players.length then
      .error .outOfBounds
    else
      let remain : Nat → Int := fun i ↦
        if i < v.players.length then strtol (rest.getD i []) else v.playerRemain i
      .ok { v with
        tableCard := table
        cardRemain := strtol pile
        direct := charAt direction 0 = '1'
        whosTurn := turn
        playerRemain := remain
        uno := fun i ↦ if i < v.players.length ∧ 2 ≤ remain i then false else v.uno i
        myCard := joinCards (rest.drop v.players.length) }
  | _ => .error .nullToken

/-- The player `name` has `k` cards more, taken from the pile. -/
def add (name : Text) (k : Int) (v : View) : View :=
  { v with
    uno := fun i ↦ if v.players[i]? = some name ∧ v.playerRemain i = 1 then false else v.uno i
    playerRemain := fun i ↦
      if v.players[i]? = some name then v.playerRemain i + k else v.playerRemain i
    cardRemain := v.cardRemain - k * v.players.count name }

/-- A player is given two cards, unless it is this one, which has been told by lines `12`. -/
def punish (myId name : Text) (v : View) : View := if myId = name then v else v.add name 2

/-- The line `12`, `src/tcpcliserv/final_cli.c:901–922`. -/
def draw (myId line : Text) (v : View) : View :=
  let ws := (tokens (chop line)).tail
  let v := v.add myId ws.length
  { v with myCard := ws.foldl (fun c w ↦ (if c = [] then c else c ++ [' ']) ++ w) v.myCard }

/-- The player `name` has left. -/
def leave (name : Text) (v : View) : View :=
  { v with
    nRemain := v.nRemain - 1
    playerRemain := fun i ↦ if v.players[i]? = some name then -1 else v.playerRemain i }

/-- The player `name` has called in time. -/
def called (name : Text) (v : View) : View :=
  { v with uno := fun i ↦ if v.players[i]? = some name then true else v.uno i }

/-- The second word of a line. -/
def nameIn (line : Text) : Except Stop Text :=
  match tokens (chop line) with
  | _ :: name :: _ => .ok name
  | _ => .error .nullToken

/-- What `game` does with a line, `src/tcpcliserv/final_cli.c:857–1005`. After the line `15` and
after one of an unknown kind it does nothing any more. -/
def handle (myId line : Text) (v : View) : Except Stop View :=
  match opOf line with
  | ('1', '0') => v.round line
  | ('1', '1') => nameIn line >>= fun name ↦ .ok (v.punish myId name)
  | ('1', '2') => .ok (v.draw myId line)
  | ('1', '3') => nameIn line >>= fun name ↦ .ok (v.punish myId name)
  | ('1', '9') => nameIn line >>= fun name ↦ .ok (v.punish myId name)
  | ('1', '4') => nameIn line >>= fun name ↦ .ok (v.called name)
  | ('7', ' ') => nameIn line >>= fun name ↦ .ok (v.leave name)
  | _ => .ok v

/-- The lines of a game, the first one the line `9`. -/
def handleAll (myId : Text) : List Text → View → Except Stop View
  | [], v => .ok v
  | line :: lines, v => v.handle myId line >>= handleAll myId lines

end View
end Unpv13e.Client
