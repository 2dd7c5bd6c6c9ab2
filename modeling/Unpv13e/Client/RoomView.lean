import Unpv13e.Base.Slots
import Unpv13e.Base.Text

/-!
# What a player sees of a room

Library `Client`. The variables in which `goto_room` keeps the members of a room, what it does to
them for the lines `5` to `8` and what it prints (`src/tcpcliserv/final_cli.c:256–378`). The number
of the room, which is only shown, is left out.
-/

namespace Unpv13e.Client
open Unpv13e.Base

/-- `master` and `player[]`; a place is free when its name is empty. -/
structure RoomView where
  master : Text
  player : Fin 9 → Text

namespace RoomView

/-- The line `5`, `src/tcpcliserv/final_cli.c:271–292`. There is room for nine names. -/
def enter (myId recvline : Text) : Option RoomView :=
  match tokens (chop recvline) with
  | _ :: _roomId :: master :: names =>
    if names.length ≤ 9 then
      let player := Slots.ofList [] names
      some ⟨master, if myId = master then player else Slots.put [] myId player⟩
    else none
  | _ => none

/-- The line `6`: a new player, `src/tcpcliserv/final_cli.c:322–333`. -/
def arrive (name : Text) (v : RoomView) : RoomView :=
  { v with player := Slots.put [] name v.player }

/-- The line `7`: a player has left, `src/tcpcliserv/final_cli.c:334–347`. -/
def leave (name : Text) (v : RoomView) : RoomView :=
  { v with player := Slots.clearFirst [] name v.player }

/-- The line `8`: the owner has left, `src/tcpcliserv/final_cli.c:348–360`. -/
def hand (name : Text) (v : RoomView) : RoomView :=
  { v with master := name, player := Slots.clearAll [] name v.player }

/-- What becomes of the view with a line of the room. Other lines leave it alone. -/
def hear (myId recvline : Text) (v : Option RoomView) : Option RoomView :=
  match opOf recvline with
  | ('5', ' ') => enter myId recvline
  | ('6', ' ') => v.map (arrive ((chop recvline).drop 2))
  | ('7', ' ') => v.map (leave ((chop recvline).drop 2))
  | ('8', ' ') => v.map (hand ((chop recvline).drop 2))
  | _ => v

/-- The names printed after the owner's, `src/tcpcliserv/final_cli.c:367–375`. -/
def printed (v : RoomView) : List Text := Slots.front [] v.player

end RoomView
end Unpv13e.Client
