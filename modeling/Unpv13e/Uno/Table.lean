import Mathlib
import Unpv13e.Base.Runs
import Unpv13e.Uno.Cards
import Unpv13e.Uno.Shuffle

/-!
# The card table of a running game

Library `Uno`. The local variables of `GameStart` and the functions it calls on them:
`SendToEveryoneInGame`, `StartRound`, `SwitchToNextPlayer` and `GiveCardToPlayer`
(`src/tcpcliserv/final_server.c:133–279`). A line written to a connection and a change of
`conns[].state` are effects, kept in program order. Log lines written to descriptor 0 are
left out; an array index or a name such a line reads is checked all the same.
-/

namespace Unpv13e.Uno
open Unpv13e.Base

/-- `conns[].state`: 0 free, 1 in the lobby, 2 in a room. -/
inductive ConnState
  | empty
  | lobby
  | room
  deriving DecidableEq, Repr

/-- What a thread does to the world outside its local variables. -/
inductive Effect
  /-- `Writen(conns[c].connfd, line, strlen(line))` -/
  | send (c : ConnId) (line : Text)
  /-- `conns[c].state = state` -/
  | setState (c : ConnId) (state : ConnState)
  deriving DecidableEq, Repr

/-- Where `GameStart` is in its loop. -/
inductive Pc
  /-- the `for` loop over the seats `select` reported, at seat `i` -/
  | scan (i : Seat)
  /-- after that loop, where UNO calls and catches are settled -/
  | settle
  /-- `GameStart` has returned -/
  | ended
  deriving DecidableEq, Repr

/-- The local variables of `GameStart`, and the effects of the call so far. -/
structure Game where
  used : Seat → Option ConnId
  playerNum : Nat
  /-- `hand[i][q] == 1` is membership -/
  hand : Seat → Finset CardId
  handNum : Seat → Int
  cardSeq : Nat → CardId
  cardNum : Nat
  whoseRound : Seat
  turn : Fin 2
  tableCard : CardId
  colour : Char
  /-- `none` until the first assignment -/
  cardId : Option CardId
  isUno : Seat → Bool
  haveUno : Option Seat
  timeStamp : Seat → Int
  winner : Option Seat
  pc : Pc
  out : List Effect

/-- What a step reads that is not a local variable of `GameStart`. -/
structure Env where
  /-- `conns[c].name` -/
  name : ConnId → Text
  /-- `rand ()` by call of `shuffle` and index -/
  rand : Nat → Nat → Nat
  /-- what `buffer2` holds from its third character on when a shorter text is copied into it -/
  residue : Text

/-- A seat used as an index into `conns[]`, where `used[j]` is meant. -/
def seatAsConn (j : Seat) : ConnId := Fin.castLE (by decide) j

/-! ### Lines -/

/-- `"op w\n"` -/
def line1 (op w : Text) : Text := op ++ ' ' :: (w ++ ['\n'])

/-- `"op v w\n"` -/
def line2 (op v w : Text) : Text := op ++ ' ' :: (v ++ ' ' :: (w ++ ['\n']))

/-- `buffer = cards[table_card]; buffer[1] = colour`, as a C string. -/
def recolour (q : CardId) (colour : Char) : Text :=
  ((cards q).take 1 ++ [colour]).takeWhile (· ≠ Char.ofNat 0)

namespace Game

/-- The effects `es` happen. -/
def emit (g : Game) (es : List Effect) : Game := { g with out := g.out ++ es }

/-- `used[i]` as an index into `conns[]`. -/
def conn (g : Game) (i : Seat) : Except Stop ConnId :=
  match g.used i with
  | some c => .ok c
  | none => .error .outOfBounds

/-- The seats with `used[i] != -1 && hand_num[i] != -1`, in order, with their connections. -/
def active (g : Game) : List (Seat × ConnId) :=
  (List.finRange 10).filterMap fun i ↦
    if g.handNum i ≠ -1 then (g.used i).map fun c ↦ (i, c) else none

/-- `SendToEveryoneInGame`, `src/tcpcliserv/final_server.c:133–148`. -/
def sendToEveryoneInGame (g : Game) (who : Option Seat) (line : Text) : Game :=
  g.emit ((g.active.filter fun p ↦ who ≠ some p.1).map fun p ↦ .send p.2 line)

/-- The cards of a hand in the order `StartRound` goes through them. -/
def handList (h : Finset CardId) : List CardId := (List.finRange 108).filter (· ∈ h)

/-- The part of the round line all seats get, `src/tcpcliserv/final_server.c:172–178`. -/
def roundHead (g : Game) (tableCard name : Text) : Text :=
  ['1', '0'] ++ blankJoin ([tableCard, decimal g.cardNum, decimal g.turn.val, name] ++
    ((List.finRange 10).filter fun i ↦ (g.used i).isSome).map fun i ↦ decimal (g.handNum i))

/-- The round line of seat `i`. -/
def roundLine (g : Game) (tableCard name : Text) (i : Seat) : Text :=
  g.roundHead tableCard name ++ blankJoin ((handList (g.hand i)).map cards) ++ ['\n']

/-- `StartRound`, `src/tcpcliserv/final_server.c:169–197`. -/
def startRound (name : ConnId → Text) (tableCard : Text) (g : Game) : Except Stop Game :=
  g.conn g.whoseRound >>= fun c ↦
    .ok (g.emit (g.active.map fun p ↦ .send p.2 (g.roundLine tableCard (name c) p.1)))

end Game

/-- `conn` gives the connection of an occupied seat. -/
theorem used_of_conn {i : Seat} {c : ConnId} {g : Game} (h : g.conn i = .ok c) : g.used i = some c := by
  unfold Game.conn at h
  split at h
  · next he => cases h; exact he
  · cases h

/-! ### Turns -/

/-- The search of `SwitchToNextPlayer`, from seat `j` on in steps of `d`. The bound is never
reached: after ten steps `j` is `whoseRound` again. -/
def switchFrom (handNum : Seat → Int) (d whoseRound : Seat) : Nat → Seat → Seat
  | 0, _ => whoseRound
  | n + 1, j =>
    if j = whoseRound then whoseRound
    else if handNum j = -1 then switchFrom handNum d whoseRound n (j + d)
    else j

/-- `SwitchToNextPlayer`, `src/tcpcliserv/final_server.c:199–229`. -/
def switchToNextPlayer (whoseRound : Seat) (handNum : Seat → Int) (turn : Fin 2) : Seat :=
  if turn = 0 then switchFrom handNum 1 whoseRound 10 (whoseRound + 1)
  else switchFrom handNum 9 whoseRound 10 (whoseRound + 9)

/-! ### Drawing cards -/

/-- The card id an index is stored as by `shuffle`. -/
def cardOfIndex (k : Nat) : CardId := Fin.ofNat 108 k

namespace Game

/-- `adopted_cards` after the hands of all seats still in the game were added. -/
def adopt (g : Game) (adopted : Finset CardId) : Finset CardId :=
  adopted ∪ Finset.univ.filter fun q ↦ ∃ j, g.handNum j ≠ -1 ∧ q ∈ g.hand j

/-- The refilled pile: the cards not adopted in order, then `shuffle(card_seq, *card_num)`. -/
def refill (rand : Nat → Nat) (adopted : Finset CardId) (g : Game) : Game :=
  let free := (List.finRange 108).filter (· ∉ adopted)
  { g with
    cardSeq := shuffle cardOfIndex rand (fun k ↦ free.getD k (g.cardSeq k)) free.length
    cardNum := free.length }

/-- The branch for an empty pile, `src/tcpcliserv/final_server.c:241–262`. -/
def reshuffle (rand : Nat → Nat) (adopted : Finset CardId) (g : Game) : Finset CardId × Game :=
  let g := g.sendToEveryoneInGame none ['2', '0', '\n']
  let adopted := g.adopt adopted
  (adopted, g.refill rand adopted)

/-- The card on top of the pile goes to seat `w`, whose connection is `c`. -/
def takeTop (w : Seat) (c : ConnId) (g : Game) : Game :=
  let q := g.cardSeq (g.cardNum - 1)
  { g with
    hand := Function.update g.hand w (insert q (g.hand w))
    handNum := Function.update g.handNum w (g.handNum w + 1)
    cardNum := g.cardNum - 1
    isUno := Function.update g.isUno w false
    out := g.out ++ [.send c (line1 ['1', '2'] (cards q))] }

/-- The drawn card joins the hand. -/
theorem hand_takeTop (w : Seat) (c : ConnId) (g : Game) :
    (g.takeTop w c).hand w = insert (g.cardSeq (g.cardNum - 1)) (g.hand w) :=
  Function.update_self _ _ _

/-- The other hands stay as they are. -/
theorem hand_takeTop_of_ne {w i : Seat} (hi : i ≠ w) (c : ConnId) (g : Game) :
    (g.takeTop w c).hand i = g.hand i :=
  Function.update_of_ne hi _ _

/-- The counter goes up by one. -/
theorem handNum_takeTop (w : Seat) (c : ConnId) (g : Game) :
    (g.takeTop w c).handNum w = g.handNum w + 1 :=
  Function.update_self _ _ _

/-- The other counters stay as they are. -/
theorem handNum_takeTop_of_ne {w i : Seat} (hi : i ≠ w) (c : ConnId) (g : Game) :
    (g.takeTop w c).handNum i = g.handNum i :=
  Function.update_of_ne hi _ _

/-- `adopted_cards` and the table after `if(*card_num <= 0)`. -/
def supply (rand : Nat → Nat) (adopted : Finset CardId) (g : Game) : Finset CardId × Game :=
  if g.cardNum = 0 then g.reshuffle rand adopted else (adopted, g)

/-- One turn of the loop of `GiveCardToPlayer`. The log line reads `card_seq[*card_num]`. -/
def giveOne (rand : Nat → Nat) (w : Seat) (adopted : Finset CardId) (g : Game) :
    Except Stop (Finset CardId × Game) :=
  let s := g.supply rand adopted
  s.2.conn w >>= fun c ↦
    if s.2.cardNum = 0 ∨ 108 ≤ s.2.cardNum then .error .outOfBounds
    else .ok (s.1, s.2.takeTop w c)

/-- The loop of `GiveCardToPlayer` from turn `k` on, with the turns left. -/
def giveFrom (rand : Nat → Nat → Nat) (w : Seat) :
    Nat → Nat → Finset CardId → Game → Except Stop Game
  | _, 0, _, g => .ok g
  | k, n + 1, adopted, g =>
    giveOne (rand k) w adopted g >>= fun s ↦ giveFrom rand w (k + 1) n s.1 s.2

/-- `GiveCardToPlayer`, `src/tcpcliserv/final_server.c:231–279`. -/
def giveCardToPlayer (rand : Nat → Nat → Nat) (w : Seat) (howMany : Nat) (g : Game) :
    Except Stop Game :=
  giveFrom rand w 0 howMany ∅ g

/-- The rule for the loop of `GiveCardToPlayer`: what filling the pile again keeps, and what counts up with every
card taken, holds of the table in the end. -/
theorem giveFrom_rule {I : Nat → Game → Prop} {rand : Nat → Nat → Nat} {w : Seat}
    (hrefill : ∀ m rand adopted r, r.cardNum = 0 → I m r → I m (r.reshuffle rand adopted).2)
    (htop : ∀ m c r, r.used w = some c → 0 < r.cardNum → r.cardNum < 108 → I m r → I (m + 1) (r.takeTop w c))
    {m k n : Nat} {adopted : Finset CardId} {g g' : Game} (h : giveFrom rand w k n adopted g = .ok g') (hg : I m g) :
    I (m + n) g' := by
  induction n generalizing m k adopted g with
  | zero =>
    cases h
    exact hg
  | succ n ih =>
    obtain ⟨s, hs, h⟩ := exists_of_bind_ok h
    obtain ⟨c, hc, hs⟩ := exists_of_bind_ok hs
    split at hs
    · cases hs
    next hin =>
    cases hs
    have hsup : I m (g.supply (rand k) adopted).2 := by
      unfold supply
      split
      · next h0 => exact hrefill m (rand k) adopted g h0 hg
      · exact hg
    have htaken := htop m c _ (used_of_conn hc) (by omega) (by omega) hsup
    have hrest := ih h htaken
    rwa [Nat.add_right_comm] at hrest

/-- A card from a pile that has one. -/
theorem giveOne_top (rand : Nat → Nat) (adopted : Finset CardId) {w : Seat} {c : ConnId} {g : Game}
    (hc : g.used w = some c) (hlow : 1 ≤ g.cardNum) (hhigh : g.cardNum < 108) :
    giveOne rand w adopted g = .ok (adopted, g.takeTop w c) := by
  have hsup : g.supply rand adopted = (adopted, g) := if_neg (by omega)
  have hconn : g.conn w = .ok c := by
    unfold conn
    rw [hc]
  unfold giveOne
  rw [hsup]
  dsimp only
  rw [hconn]
  exact if_neg (by omega)

/-- Two cards from a pile that has them. -/
theorem giveTwo (rand : Nat → Nat → Nat) {i : Seat} {c : ConnId} {g : Game}
    (hc : g.used i = some c) (hlow : 2 ≤ g.cardNum) (hhigh : g.cardNum < 108) :
    giveCardToPlayer rand i 2 g = .ok ((g.takeTop i c).takeTop i c) := by
  have hnum : (g.takeTop i c).cardNum = g.cardNum - 1 := rfl
  unfold giveCardToPlayer giveFrom giveFrom
  rw [giveOne_top (rand 0) ∅ hc (by omega) hhigh]
  change (giveOne (rand 1) i ∅ (g.takeTop i c) >>= _) = _
  rw [giveOne_top (rand 1) ∅ (g := g.takeTop i c) hc (by omega) (by omega)]
  rfl

end Game
end Unpv13e.Uno
