import Unpv13e.Base.Text

/-!
# The UNO deck

Library `Uno`. The tables `cards[]` and `score[]` of
`src/tcpcliserv/final_server.c:22–56` and the index types of the server's arrays.
-/

namespace Unpv13e.Uno
open Unpv13e.Base

/-- An index into `conns[]`: one of the `MAXPLAYER` connection slots,
`src/tcpcliserv/final_server.c:20`. -/
abbrev ConnId := Fin 45

/-- An index into `used[]`, `hand[]`, `hand_num[]`: a seat of a room. -/
abbrev Seat := Fin 10

/-- An index into `cards[]`: one of the 108 cards. -/
abbrev CardId := Fin 108

/-- The table `cards[]`, `src/tcpcliserv/final_server.c:22–37`. -/
def cardTable : List Text :=
  [['0', 'r'], ['0', 'y'], ['0', 'g'], ['0', 'b'],
   ['1', 'r'], ['1', 'r'], ['1', 'y'], ['1', 'y'], ['1', 'g'], ['1', 'g'], ['1', 'b'], ['1', 'b'],
   ['2', 'r'], ['2', 'r'], ['2', 'y'], ['2', 'y'], ['2', 'g'], ['2', 'g'], ['2', 'b'], ['2', 'b'],
   ['3', 'r'], ['3', 'r'], ['3', 'y'], ['3', 'y'], ['3', 'g'], ['3', 'g'], ['3', 'b'], ['3', 'b'],
   ['4', 'r'], ['4', 'r'], ['4', 'y'], ['4', 'y'], ['4', 'g'], ['4', 'g'], ['4', 'b'], ['4', 'b'],
   ['5', 'r'], ['5', 'r'], ['5', 'y'], ['5', 'y'], ['5', 'g'], ['5', 'g'], ['5', 'b'], ['5', 'b'],
   ['6', 'r'], ['6', 'r'], ['6', 'y'], ['6', 'y'], ['6', 'g'], ['6', 'g'], ['6', 'b'], ['6', 'b'],
   ['7', 'r'], ['7', 'r'], ['7', 'y'], ['7', 'y'], ['7', 'g'], ['7', 'g'], ['7', 'b'], ['7', 'b'],
   ['8', 'r'], ['8', 'r'], ['8', 'y'], ['8', 'y'], ['8', 'g'], ['8', 'g'], ['8', 'b'], ['8', 'b'],
   ['9', 'r'], ['9', 'r'], ['9', 'y'], ['9', 'y'], ['9', 'g'], ['9', 'g'], ['9', 'b'], ['9', 'b'],
   ['a', 'r'], ['a', 'r'], ['a', 'y'], ['a', 'y'], ['a', 'g'], ['a', 'g'], ['a', 'b'], ['a', 'b'],
   ['b', 'r'], ['b', 'r'], ['b', 'y'], ['b', 'y'], ['b', 'g'], ['b', 'g'], ['b', 'b'], ['b', 'b'],
   ['c', 'r'], ['c', 'r'], ['c', 'y'], ['c', 'y'], ['c', 'g'], ['c', 'g'], ['c', 'b'], ['c', 'b'],
   ['d', 'x'], ['d', 'x'], ['d', 'x'], ['d', 'x'], ['e', 'x'], ['e', 'x'], ['e', 'x'], ['e', 'x']]

private theorem length_cardTable : cardTable.length = 108 := rfl

/-- `cards[q]`: the two characters, value and colour, a card is sent as. -/
def cards (q : CardId) : Text := cardTable.get (Fin.cast length_cardTable.symm q)

/-- The table `score[]`, `src/tcpcliserv/final_server.c:39–56`. -/
def scoreTable : List Nat :=
  List.replicate 4 0 ++
  List.replicate 8 1 ++ List.replicate 8 2 ++ List.replicate 8 3 ++ List.replicate 8 4 ++
  List.replicate 8 5 ++ List.replicate 8 6 ++ List.replicate 8 7 ++ List.replicate 8 8 ++
  List.replicate 8 9 ++
  List.replicate 8 20 ++ List.replicate 8 20 ++ List.replicate 8 20 ++
  List.replicate 8 50

private theorem length_scoreTable : scoreTable.length = 108 := rfl

/-- `score[q]`. -/
def score (q : CardId) : Nat := scoreTable.get (Fin.cast length_scoreTable.symm q)

/-- Every card is sent as a word of two characters. -/
theorem cards_word (q : CardId) : IsWord (cards q) ∧ (cards q).length = 2 := by
  have table : ∀ w ∈ cardTable, IsWord w ∧ w.length = 2 := by decide
  exact table _ (List.get_mem _ _)

end Unpv13e.Uno
