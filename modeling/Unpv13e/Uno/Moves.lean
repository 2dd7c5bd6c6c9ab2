import Unpv13e.Base.Deck
import Unpv13e.Base.Runs
import Unpv13e.Uno.GameStart

/-!
# What a step of `GameStart` can do

Library `Uno`. A step of the loop is a sequence of elementary moves: bookkeeping, a line or
a state change, a departure, a card put down, a card drawn, a reshuffle. `handOut` names the
one call of `GiveCardToPlayer` a step makes. `step_moves` is the inversion lemma every
invariant of a running game is derived from.
-/

namespace Unpv13e.Uno
open Unpv13e.Base

/-- The kinds of line a running game sends other than the round line `10`. -/
def newsOps : List (Char × Char) :=
  [('1', '1'), ('1', '2'), ('1', '3'), ('1', '4'), ('1', '9'), ('2', '0'), ('2', '1'), ('7', ' ')]

/-- A line of a running game other than the round line. -/
def IsNews (line : Text) : Prop := opOf line ∈ newsOps

/-- The line `15` that ends a game. -/
def IsResult (line : Text) : Prop := opOf line = ('1', '5')

/-- The elementary moves. -/
inductive Move
  /-- only `turn`, `is_uno[]`, `have_uno`, `time_stamp[]` and the place in the loop change -/
  | book
  /-- `whose_round = SwitchToNextPlayer(whose_round, hand_num, turn)` -/
  | turn
  /-- lines to seats still in the game -/
  | say (es : List Effect)
  /-- `StartRound` -/
  | round (name : ConnId → Text) (tableCard : Text)
  /-- seat `i` leaves: `hand_num[i] = -1; player_num--`, and its connection changes state -/
  | leave (i : Seat) (state : ConnState)
  /-- seat `i` puts down card `q` -/
  | drop (i : Seat) (q : CardId)
  /-- the card last put down is the table card -/
  | table
  /-- the top card goes to seat `w` -/
  | top (w : Seat)
  /-- the empty pile is filled again -/
  | refill
  /-- the results are sent, the players go to the lobby and `GameStart` returns -/
  | finish (es : List Effect) (winner : Option Seat)

/-- `g'` differs from `g` in bookkeeping only. -/
structure Books (g g' : Game) : Prop where
  used : g'.used = g.used
  playerNum : g'.playerNum = g.playerNum
  hand : g'.hand = g.hand
  handNum : g'.handNum = g.handNum
  cardSeq : g'.cardSeq = g.cardSeq
  cardNum : g'.cardNum = g.cardNum
  tableCard : g'.tableCard = g.tableCard
  cardId : g'.cardId = g.cardId
  whoseRound : g'.whoseRound = g.whoseRound
  winner : g'.winner = g.winner
  out : g'.out = g.out
  ended : g'.pc = .ended ↔ g.pc = .ended

/-- The elementary moves as a transition relation. -/
def MoveStep (g : Game) (m : Move) (g' : Game) : Prop :=
  match m with
  | .book => Books g g'
  | .turn => g' = g.nextTurn
  | .say es => g' = g.emit es
  | .round name tableCard => Game.startRound name tableCard g = .ok g'
  | .leave i state => ∃ c, g.used i = some c ∧ g' = (g.leaveSeat i).emit [.setState c state]
  | .drop i q => g.handNum i ≠ -1 ∧ q ∈ g.hand i ∧ g' = g.dropCard i q
  | .table => ∃ q colour, g.cardId = some q ∧ g' = g.showCard q colour
  | .top w => ∃ c, g.used w = some c ∧ 0 < g.cardNum ∧ g' = g.takeTop w c
  | .refill => g.cardNum = 0 ∧ ∃ rand adopted, g' = g.refill rand (g.adopt adopted)
  | .finish es winner => g' = (g.emit es).endGame winner

namespace Game

/-- The news of a running game: a line to a seat still in the game. -/
def News (g : Game) : Effect → Prop
  | .send c line => (∃ i, (i, c) ∈ g.active) ∧ IsNews line
  | .setState _ _ => False

/-- The last effects of a game: the result to a seat still in the game, whose connection
goes back to the lobby. -/
def Ending (g : Game) : Effect → Prop
  | .send c line => (∃ i, (i, c) ∈ g.active) ∧ IsResult line
  | .setState c state => (∃ i, (i, c) ∈ g.active) ∧ state = .lobby

/-! ### The call of `GiveCardToPlayer` a step makes -/

/-- The call made for a card played by seat `i`. -/
def handOutPlay (env : Env) (i : Seat) (l : Text) (g : Game) : Option (Seat × Nat) :=
  match arg1 l with
  | .error _ => none
  | .ok cardName =>
    let g := g.putDown env.residue cardName i
    match g.cardId with
    | none => none
    | some q =>
      if g.handNum i ≤ 0 then none
      else if 92 ≤ q.val ∧ q.val < 100 then some (g.nextTurn.whoseRound, 2)
      else if 104 ≤ q.val ∧ q.val < 108 then some (g.nextTurn.whoseRound, 4)
      else none

/-- The call made for a wrong UNO call or a wrong catch of seat `i`. -/
def handOutPenalty (i : Seat) (l : Text) : Option (Seat × Nat) :=
  match arg1 l with
  | .error _ => none
  | .ok valid => if charAt valid 0 = '0' then some (i, 2) else none

/-- The call made for a line of seat `i`. -/
def handOutLine (env : Env) (i : Seat) (recvline : Text) (g : Game) : Option (Seat × Nat) :=
  if charAt recvline 0 = '8' then none
  else if charAt recvline 0 = '2' ∧ charAt recvline 1 = '1' then none
  else
    let l := chop recvline
    if charAt l 0 = '9' then g.handOutPlay env i l
    else if charAt l 0 = '1' ∧ charAt l 1 = '0' then some (g.whoseRound, 1)
    else if charAt l 0 = '1' ∧ charAt l 1 = '1' then handOutPenalty i l
    else if charAt l 0 = '1' ∧ charAt l 1 = '2' then handOutPenalty i l
    else none

/-- The seat that is given cards in a step, and how many. -/
def handOut (g : Game) : GameAct → Option (Seat × Nat)
  | .pass => none
  | .recv env event =>
    match g.pc, event with
    | .scan i, .line recvline => g.handOutLine env i recvline
    | _, _ => none
  | .settle _ =>
    match g.haveUno with
    | some u => if g.fastest u = u then none else some (u, 2)
    | none => none

/-- What is read from a seat that leaves. -/
def Departure : Event → Prop
  | .eof => True
  | .line recvline => charAt recvline 0 = '8'

instance (event : Event) : Decidable (Departure event) :=
  match event with
  | .eof => isTrue True.intro
  | .line recvline => inferInstanceAs (Decidable (charAt recvline 0 = '8'))

end Game

/-- What a step is about: the cards it gives, the seat that leaves, the seat it reads from
and the size of the pile it starts with. -/
structure Plan where
  due : Option (Seat × Nat)
  leaver : Option Seat
  actor : Option Seat
  pile : Nat

/-- The plan of a step of the loop. -/
def Game.plan (g : Game) (a : GameAct) : Plan :=
  match a, g.pc with
  | .recv _ event, .scan i =>
    ⟨g.handOut a, if Departure event then some i else none, some i, g.cardNum⟩
  | _, _ => ⟨g.handOut a, none, none, g.cardNum⟩

/-- The plan hands out what the step hands out. -/
theorem plan_due (g : Game) (a : GameAct) : (g.plan a).due = g.handOut a := by
  unfold Game.plan
  split <;> rfl

/-- The plan starts from the pile of the game. -/
theorem plan_pile (g : Game) (a : GameAct) : (g.plan a).pile = g.cardNum := by
  unfold Game.plan
  split <;> rfl

/-- The moves of a step: cards go to the seat they are due to, the pile is filled again only
when it is short, a card is put down by the seat that is read from, and the winner is that
seat or one still in the game. -/
def Allowed (p : Plan) (g : Game) : Move → Prop
  | .book => True
  | .turn => True
  | .say es => ∀ e ∈ es, g.News e
  | .round _ _ => True
  | .leave i _ => p.due = none ∧ p.leaver = some i
  | .drop i _ => p.actor = some i
  | .table => True
  | .top w => ∃ n, p.due = some (w, n)
  | .refill => ∃ w n, p.due = some (w, n) ∧ p.pile < n
  | .finish es winner =>
    (∀ e ∈ es, g.Ending e) ∧ (∀ q ∈ g.active, .setState q.2 .lobby ∈ es) ∧
      ∀ w, winner = some w → g.winner = some w ∨ p.actor = some w ∨ ∃ c, (w, c) ∈ g.active

/-- Sequences of moves of one step. -/
abbrev Moves (p : Plan) : Game → Game → Prop := RunWith MoveStep (Allowed p)

open Game
variable {p : Plan} {g g' : Game}

private theorem books_of (turn : Fin 2) (isUno : Seat → Bool) (haveUno : Option Seat)
    (timeStamp : Seat → Int) (pc : Pc) (h : pc = .ended ↔ g.pc = .ended) :
    Books g { g with
      turn := turn, isUno := isUno, haveUno := haveUno, timeStamp := timeStamp, pc := pc } :=
  ⟨rfl, rfl, rfl, rfl, rfl, rfl, rfl, rfl, rfl, rfl, rfl, h⟩

private theorem moves_book (h : Books g g') : Moves p g g' :=
  RunWith.snoc (a := Move.book) RunWith.refl True.intro h

/-- The seats still in the game and their connections. -/
theorem Game.mem_active (i : Seat) (c : ConnId) :
    (i, c) ∈ g.active ↔ g.handNum i ≠ -1 ∧ g.used i = some c := by
  simp only [Game.active, List.mem_filterMap, List.mem_finRange, true_and]
  constructor
  · rintro ⟨j, hj⟩
    split at hj
    · next hn =>
      obtain ⟨c', hc', he⟩ := Option.map_eq_some_iff.mp hj
      cases he
      exact ⟨hn, hc'⟩
    · cases hj
  · rintro ⟨hn, hc⟩
    exact ⟨i, by simp [hn, hc]⟩

/-- No seat is listed twice. -/
theorem Game.active_nodup : g.active.Nodup := by
  apply List.Nodup.filterMap _ (List.nodup_finRange 10)
  intro i j b hi hj
  rw [Option.mem_def] at hi hj
  split at hi
  · obtain ⟨c, -, rfl⟩ := Option.map_eq_some_iff.mp hi
    split at hj
    · obtain ⟨c', -, he⟩ := Option.map_eq_some_iff.mp hj
      exact (congrArg Prod.fst he).symm
    · cases hj
  · cases hi

private theorem moves_nextTurn : Moves p g g.nextTurn :=
  RunWith.snoc (a := Move.turn) RunWith.refl True.intro rfl

private theorem moves_send (who : Option Seat) (line : Text) (hline : IsNews line) :
    Moves p g (g.sendToEveryoneInGame who line) := by
  refine RunWith.snoc (a := Move.say _) RunWith.refl ?_ rfl
  intro e he
  obtain ⟨p, hp, rfl⟩ := List.mem_map.mp he
  exact ⟨⟨p.1, List.mem_of_mem_filter hp⟩, hline⟩

private theorem moves_startRound {name : ConnId → Text} {tableCard : Text}
    (h : startRound name tableCard g = .ok g') : Moves p g g' :=
  RunWith.snoc (a := Move.round name tableCard) RunWith.refl True.intro h

theorem isNews_of_op {line : Text} (a b : Char) (h : opOf line = (a, b))
    (hab : (a, b) ∈ newsOps := by decide) : IsNews line := by
  unfold IsNews
  rw [h]
  exact hab

/-! ### Drawing cards -/

private theorem moves_supply (rand : Nat → Nat) (adopted : Finset CardId) {w : Seat}
    {total : Nat} (hdue : p.due = some (w, total)) (hpile : g.cardNum = 0 → p.pile < total) :
    Moves p g (g.supply rand adopted).2 := by
  unfold supply
  split
  · next h0 =>
    refine RunWith.snoc (a := Move.refill) (moves_send none ['2', '0', '\n']
      (isNews_of_op '2' '0' rfl)) ⟨w, total, hdue, hpile h0⟩ ?_
    exact ⟨h0, rand, adopted, rfl⟩
  · exact RunWith.refl

private theorem moves_giveOne {rand : Nat → Nat} {w : Seat} {adopted : Finset CardId}
    {s : Finset CardId × Game} {total : Nat} (hdue : p.due = some (w, total))
    (hpile : g.cardNum = 0 → p.pile < total) (h : giveOne rand w adopted g = .ok s) :
    Moves p g s.2 ∧ (0 < g.cardNum → s.2.cardNum = g.cardNum - 1) := by
  obtain ⟨c, hc, h⟩ := exists_of_bind_ok h
  split at h
  · cases h
  next hn =>
  cases h
  constructor
  · refine RunWith.snoc (a := Move.top w) (moves_supply rand adopted hdue hpile) ⟨total, hdue⟩ ?_
    exact ⟨c, used_of_conn hc, by omega, rfl⟩
  · intro h0
    simp only [takeTop, supply, if_neg (show ¬ g.cardNum = 0 by omega)]

private theorem moves_giveFrom {rand : Nat → Nat → Nat} {w : Seat} {total : Nat}
    (hdue : p.due = some (w, total)) (k n : Nat) (adopted : Finset CardId)
    (hpile : total ≤ p.pile → n ≤ g.cardNum) (h : giveFrom rand w k n adopted g = .ok g') :
    Moves p g g' := by
  induction n generalizing k adopted g with
  | zero =>
    cases h
    exact RunWith.refl
  | succ n ih =>
    obtain ⟨s, hs, h⟩ := exists_of_bind_ok h
    have hshort : g.cardNum = 0 → p.pile < total := by
      intro h0
      by_contra hge
      have := hpile (by omega)
      omega
    obtain ⟨hm, hc⟩ := moves_giveOne hdue hshort hs
    refine RunWith.trans hm (ih (k + 1) s.1 ?_ h)
    intro hp
    have hn := hpile hp
    rw [hc (by omega)]
    omega

private theorem moves_give {rand : Nat → Nat → Nat} {w : Seat} {n : Nat}
    (hdue : p.due = some (w, n)) (hpile : g.cardNum = p.pile)
    (h : giveCardToPlayer rand w n g = .ok g') : Moves p g g' :=
  moves_giveFrom hdue 0 n ∅ (fun hp ↦ by omega) h

/-! ### Departures -/

private theorem moves_winByDeparture {name : ConnId → Text}
    (h : winByDeparture name g = .ok g') : Moves p g g' := by
  unfold winByDeparture at h
  split at h
  · cases h
  cases h
  refine RunWith.snoc (a := Move.finish _ _) RunWith.refl ⟨?_, ?_, ?_⟩ rfl
  · intro e he
    obtain ⟨p, hp, he⟩ := List.mem_flatMap.mp he
    rcases List.mem_cons.mp he with rfl | he
    · exact ⟨⟨p.1, hp⟩, rfl⟩
    · rw [List.mem_singleton] at he
      subst he
      exact ⟨⟨p.1, hp⟩, rfl⟩
  · intro p hp
    exact List.mem_flatMap.mpr ⟨p, hp, by simp⟩
  · intro w hw
    cases hl : g.active.getLast? with
    | none =>
      rw [hl] at hw
      exact Or.inl hw
    | some q =>
      rw [hl] at hw
      cases hw
      exact Or.inr (Or.inr ⟨q.2, List.mem_of_getLast? hl⟩)

/-- The plan of the moves after a seat has left. -/
def Plan.left (pile : Nat) : Plan := ⟨none, none, none, pile⟩

/-- A departure is the seat's leaving, followed by moves of seats still in the game. The game
is over, or the turn is passed on when it was the turn of the seat that left. -/
theorem depart_moves {env : Env} {state : ConnState} {i : Seat} (pile : Nat)
    (h : depart env state i g = .ok g') :
    ∃ c, g.used i = some c ∧
      Moves (.left pile) ((g.leaveSeat i).emit [.setState c state]) g' ∧
      (g'.pc = .ended ∨ 2 ≤ g.playerNum - 1 ∧ g'.whoseRound =
        if i = g.whoseRound then switchToNextPlayer g.whoseRound (g.leaveSeat i).handNum g.turn
        else g.whoseRound) := by
  obtain ⟨c, hc, h⟩ := exists_of_bind_ok h
  refine ⟨c, used_of_conn hc, ?_⟩
  have hsent : Moves (.left pile) ((g.leaveSeat i).emit [.setState c state]) _ :=
    moves_send (some i) (line1 ['7'] (env.name c)) (isNews_of_op '7' ' ' rfl)
  dsimp only at h
  split at h
  · refine ⟨hsent.trans (moves_winByDeparture h), Or.inl ?_⟩
    unfold winByDeparture at h
    split at h
    · cases h
    cases h
    rfl
  next hmany =>
  have hmany' : 2 ≤ g.playerNum - 1 := Nat.le_of_not_lt hmany
  split at h
  · next hturn =>
    have hturn' : i = g.whoseRound := hturn
    refine ⟨(hsent.trans moves_nextTurn).trans (moves_startRound h), Or.inr ⟨hmany', ?_⟩⟩
    obtain ⟨c', -, h⟩ := exists_of_bind_ok h
    cases h
    rw [if_pos hturn']
    rfl
  · next hturn =>
    have hturn' : ¬ i = g.whoseRound := hturn
    cases h
    refine ⟨hsent, Or.inr ⟨hmany', ?_⟩⟩
    rw [if_neg hturn']
    rfl

private theorem allowed_of_left {m : Move} (h : Allowed (.left p.pile) g m) : Allowed p g m := by
  cases m with
  | leave i state => exact absurd h.2 nofun
  | drop i q => exact absurd h nofun
  | top w => exact absurd h nofun
  | refill => obtain ⟨w, n, hw, -⟩ := h; cases hw
  | finish es winner =>
    refine ⟨h.1, h.2.1, fun w hw ↦ ?_⟩
    rcases h.2.2 w hw with h | h | h
    · exact Or.inl h
    · cases h
    · exact Or.inr (Or.inr h)
  | book => exact h
  | turn => exact h
  | say es => exact h
  | round name tableCard => exact h
  | table => exact h

private theorem moves_depart {env : Env} {state : ConnState} {i : Seat} (hdue : p.due = none)
    (hleave : p.leaver = some i) (h : depart env state i g = .ok g') : Moves p g g' := by
  obtain ⟨c, hc, hm, -⟩ := depart_moves p.pile h
  refine RunWith.cons (a := Move.leave i state) ⟨hdue, hleave⟩ ⟨c, hc, rfl⟩ ?_
  exact RunWith.mono (fun _ _ ↦ allowed_of_left) hm

/-! ### Lines of a seat -/

private theorem moves_cardEffect {rand : Nat → Nat → Nat}
    (hpile : g.cardNum = p.pile)
    (h2 : 92 ≤ g.tableCard.val ∧ g.tableCard.val < 100 → p.due = some (g.nextTurn.whoseRound, 2))
    (h4 : 104 ≤ g.tableCard.val ∧ g.tableCard.val < 108 → p.due = some (g.nextTurn.whoseRound, 4))
    (h : cardEffect rand g = .ok g') : Moves p g g' := by
  have drawn {n : Nat} (hdue : p.due = some (g.nextTurn.whoseRound, n))
      (h : drawAndSkip rand n g = .ok g') : Moves p g g' := by
    obtain ⟨r, hr, h⟩ := exists_of_bind_ok h
    cases h
    exact (moves_nextTurn.trans (moves_give hdue hpile hr)).trans
      moves_nextTurn
  have flipped : Books g g.flipTurn := books_of _ _ _ _ _ Iff.rfl
  unfold cardEffect at h
  dsimp only at h
  split at h
  · cases h
    exact moves_nextTurn.trans moves_nextTurn
  split at h
  · cases h
    split
    · exact (moves_book flipped).trans moves_nextTurn
    · exact moves_book flipped
  split at h
  · next ht => exact drawn (h2 ht) h
  split at h
  · next ht => exact drawn (h4 ht) h
  · cases h
    exact moves_nextTurn

private theorem moves_winByPlay {name : ConnId → Text} {i : Seat} (hactor : p.actor = some i)
    (h : winByPlay name i g = .ok g') : Moves p g g' := by
  obtain ⟨c, _, h⟩ := exists_of_bind_ok h
  split at h
  · cases h
  cases h
  let sends : List Effect := (g.active.filter fun p ↦ none ≠ some p.1).map fun p ↦
    .send p.2 (g.winLine name c)
  let states : List Effect := g.active.map fun p ↦ .setState p.2 .lobby
  refine RunWith.snoc (a := Move.finish (sends ++ states) (some i)) RunWith.refl
    ⟨?_, ?_, ?_⟩ ?_
  · intro e he
    rcases List.mem_append.mp he with he | he
    · obtain ⟨p, hp, rfl⟩ := List.mem_map.mp he
      exact ⟨⟨p.1, List.mem_of_mem_filter hp⟩, rfl⟩
    · obtain ⟨p, hp, rfl⟩ := List.mem_map.mp he
      exact ⟨⟨p.1, hp⟩, rfl⟩
  · intro p hp
    exact List.mem_append_right _ (List.mem_map.mpr ⟨p, hp, rfl⟩)
  · rintro w hw
    cases hw
    exact Or.inr (Or.inl hactor)
  · simp only [MoveStep, sendToEveryoneInGame, emit, endGame, List.append_assoc, sends, states]

/-- The card found is in the hand. -/
theorem findCard_mem {h : Finset CardId} {cardName : Text} {q : CardId}
    (hq : findCard h cardName = some q) : q ∈ h := by
  have := List.find?_some hq
  simp only [decide_eq_true_eq] at this
  exact this.1

private theorem moves_putDown {residue cardName : Text} {i : Seat} (hi : g.handNum i ≠ -1)
    (hactor : p.actor = some i) :
    Moves p g (g.putDown residue cardName i) := by
  unfold putDown
  split
  · next q hq =>
    exact RunWith.snoc (a := Move.drop i q) RunWith.refl hactor ⟨hi, findCard_mem hq, rfl⟩
  · exact RunWith.refl

private theorem cardNum_putDown (residue cardName : Text) (i : Seat) (g : Game) :
    (g.putDown residue cardName i).cardNum = g.cardNum := by
  unfold putDown
  split <;> rfl

private theorem moves_play {env : Env} {i : Seat} {l : Text} (hi : g.handNum i ≠ -1)
    (hactor : p.actor = some i)
    (hpile : g.cardNum = p.pile) (hdue : p.due = g.handOutPlay env i l)
    (h : play env i l g = .ok g') : Moves p g g' := by
  obtain ⟨cardName, hname, h⟩ := exists_of_bind_ok h
  have hput : Moves p g (g.putDown env.residue cardName i) := moves_putDown hi hactor
  have hnum := cardNum_putDown env.residue cardName i g
  rw [handOutPlay, hname] at hdue
  dsimp only at h hdue
  generalize g.putDown env.residue cardName i = r at h hdue hput hnum
  cases hid : r.cardId with
  | none => rw [hid] at h; cases h
  | some q =>
    rw [hid] at h hdue
    dsimp only at h hdue
    have hshow : Moves p r (r.showCard q (charAt cardName 1)) :=
      RunWith.snoc (a := Move.table) RunWith.refl True.intro ⟨q, _, hid, rfl⟩
    refine (hput.trans hshow).trans ?_
    split at h
    · exact moves_winByPlay hactor h
    next hpos =>
    have hpos' : ¬ r.handNum i ≤ 0 := hpos
    rw [if_neg hpos'] at hdue
    obtain ⟨r', hr', h⟩ := exists_of_bind_ok h
    refine RunWith.trans (moves_cardEffect (hnum.trans hpile) ?_ ?_ hr') (moves_startRound h)
    · intro ht
      have ht' : 92 ≤ q.val ∧ q.val < 100 := ht
      rw [hdue, if_pos ht']
      rfl
    · intro ht
      have ht' : 104 ≤ q.val ∧ q.val < 108 := ht
      rw [hdue, if_neg (by omega), if_pos ht']
      rfl

private theorem moves_skip {env : Env} (hpile : g.cardNum = p.pile)
    (hdue : p.due = some (g.whoseRound, 1)) (h : skip env g = .ok g') : Moves p g g' := by
  obtain ⟨r, hr, h⟩ := exists_of_bind_ok h
  exact ((moves_give hdue hpile hr).trans moves_nextTurn).trans (moves_startRound h)

private theorem moves_stamp {i : Seat} {w : Except Stop Text} (h : stamp i w g = .ok g') :
    Moves p g g' := by
  unfold stamp at h
  split at h
  · obtain ⟨t, _, h⟩ := exists_of_bind_ok h
    cases h
    exact moves_book (books_of _ _ _ _ _ Iff.rfl)
  · cases h
    exact RunWith.refl

private theorem books_setUno (u : Option Seat) : Books g (g.setUno u) :=
  books_of _ _ _ _ _ Iff.rfl

private theorem moves_callUno {env : Env} {i : Seat} {l : Text} (hpile : g.cardNum = p.pile)
    (hdue : p.due = handOutPenalty i l) (h : callUno env i l g = .ok g') :
    Moves p g g' := by
  obtain ⟨valid, hv, h⟩ := exists_of_bind_ok h
  rw [handOutPenalty, hv] at hdue
  dsimp only at hdue
  split at h
  · next h0 =>
    rw [if_pos h0] at hdue
    obtain ⟨r, hr, h⟩ := exists_of_bind_ok h
    obtain ⟨c, _, h⟩ := exists_of_bind_ok h
    cases h
    exact (moves_give hdue hpile hr).trans
      (moves_send none _ (isNews_of_op '1' '1' rfl))
  split at h
  · exact (moves_book (books_setUno (some i))).trans (moves_stamp h)
  · cases h
    exact RunWith.refl

private theorem moves_catchUno {env : Env} {i : Seat} {l : Text} (hpile : g.cardNum = p.pile)
    (hdue : p.due = handOutPenalty i l) (h : catchUno env i l g = .ok g') :
    Moves p g g' := by
  obtain ⟨valid, hv, h⟩ := exists_of_bind_ok h
  rw [handOutPenalty, hv] at hdue
  dsimp only at hdue
  split at h
  · next h0 =>
    rw [if_pos h0] at hdue
    obtain ⟨r, hr, h⟩ := exists_of_bind_ok h
    obtain ⟨c, _, h⟩ := exists_of_bind_ok h
    obtain ⟨w, _, h⟩ := exists_of_bind_ok h
    cases h
    exact (moves_give hdue hpile hr).trans
      (moves_send none _ (isNews_of_op '1' '9' rfl))
  · obtain ⟨named, _, h⟩ := exists_of_bind_ok h
    cases named with
    | none => cases h
    | some j =>
      dsimp only at h
      split at h
      · exact (moves_book (books_setUno (some j))).trans (moves_stamp h)
      · cases h
        exact moves_book (books_setUno none)

private theorem moves_recv {env : Env} {i : Seat} {event : Event} (hi : g.handNum i ≠ -1)
    (hpile : g.cardNum = p.pile)
    (hdue : p.due = match event with
      | .eof => none
      | .line recvline => g.handOutLine env i recvline)
    (hleave : p.leaver = if Departure event then some i else none) (hactor : p.actor = some i)
    (h : recv env i event g = .ok g') : Moves p g g' := by
  cases event with
  | eof => exact moves_depart hdue hleave h
  | line recvline =>
    unfold recv at h
    dsimp only [handOutLine] at h hdue
    split at h
    · next h8 =>
      exact moves_depart (by rw [hdue, if_pos h8]) (by rw [hleave]; exact if_pos h8) h
    next h8 =>
    rw [if_neg h8] at hdue
    split at h
    · next h21 =>
      cases h
      exact moves_send none recvline
        (isNews_of_op '2' '1' (Prod.ext h21.1 h21.2))
    next h21 =>
    rw [if_neg h21] at hdue
    split at h
    · next h9 => exact moves_play hi hactor hpile (by rw [hdue, if_pos h9]) h
    next h9 =>
    rw [if_neg h9] at hdue
    split at h
    · next h10 => exact moves_skip hpile (by rw [hdue, if_pos h10]) h
    next h10 =>
    rw [if_neg h10] at hdue
    split at h
    · next h11 => exact moves_callUno hpile (by rw [hdue, if_pos h11]) h
    next h11 =>
    rw [if_neg h11] at hdue
    split at h
    · next h12 => exact moves_catchUno hpile (by rw [hdue, if_pos h12]) h
    · cases h
      exact RunWith.refl

/-! ### The settlement and the step -/

private theorem moves_settleUno {env : Env} {u : Seat} (hpile : g.cardNum = p.pile)
    (hdue : p.due = if g.fastest u = u then none else some (u, 2))
    (h : settleUno env u g = .ok g') : Moves p g g' := by
  obtain ⟨c, _, h⟩ := exists_of_bind_ok h
  split at h
  · cases h
    have hmark : Books g (g.markUno u) := books_of _ _ _ _ _ Iff.rfl
    exact (moves_book hmark).trans (moves_send none _ (isNews_of_op '1' '4' rfl))
  · next hf =>
    rw [if_neg hf] at hdue
    obtain ⟨c', _, h⟩ := exists_of_bind_ok h
    obtain ⟨r, hr, h⟩ := exists_of_bind_ok h
    cases h
    exact (moves_give hdue hpile hr).trans
      (moves_send none _ (isNews_of_op '1' '3' rfl))

/-- Going on to the next seat is bookkeeping. -/
theorem books_advance (i : Seat) : Books g (g.advance i) := by
  unfold advance
  split
  · exact books_of _ _ _ _ _ Iff.rfl
  · next hpc =>
    refine books_of _ _ _ _ _ ⟨?_, fun h ↦ absurd h hpc⟩
    split <;> exact nofun

/-- Handing out cards does not move the loop on. -/
theorem pc_giveFrom {rand : Nat → Nat → Nat} {w : Seat} (k n : Nat)
    (adopted : Finset CardId) (h : giveFrom rand w k n adopted g = .ok g') : g'.pc = g.pc :=
  giveFrom_rule (I := fun _ r ↦ r.pc = g.pc) (m := 0) (fun _ _ _ _ _ hr ↦ hr) (fun _ _ _ _ _ _ hr ↦ hr) h rfl

private theorem pc_settleUno {env : Env} {u : Seat} (h : settleUno env u g = .ok g') :
    g'.pc = g.pc := by
  obtain ⟨c, _, h⟩ := exists_of_bind_ok h
  split at h
  · cases h
    rfl
  · obtain ⟨c', _, h⟩ := exists_of_bind_ok h
    obtain ⟨r, hr, h⟩ := exists_of_bind_ok h
    cases h
    exact (pc_giveFrom 0 2 ∅ hr : r.pc = g.pc)

private theorem moves_settle {env : Env} (hpc : g.pc = .settle) (hpile : g.cardNum = p.pile)
    (hdue : p.due = g.handOut (.settle env)) (h : settle env g = .ok g') :
    Moves p g g' := by
  have hround (r : Game) (hr : r.pc = .settle) : Books r r.newRound := by
    refine books_of _ _ _ _ _ (iff_of_false ?_ ?_)
    · exact Pc.noConfusion
    · rw [hr]
      exact Pc.noConfusion
  obtain ⟨r, hr, h⟩ := exists_of_bind_ok h
  cases h
  dsimp only [handOut] at hdue
  cases hu : g.haveUno with
  | none =>
    rw [hu] at hr
    cases hr
    exact moves_book (hround g hpc)
  | some u =>
    rw [hu] at hr hdue
    exact (moves_settleUno hpile hdue hr).trans
      (moves_book (hround r ((pc_settleUno hr).trans hpc)))

/-- The plan of a step that reads from seat `i`. -/
theorem plan_recv {env : Env} {event : Event} {i : Seat} (hpc : g.pc = .scan i) :
    g.plan (.recv env event) = ⟨g.handOut (.recv env event),
      if Departure event then some i else none, some i, g.cardNum⟩ := by
  unfold plan
  rw [hpc]

/-- The plan of a settlement. -/
theorem plan_settle {env : Env} :
    g.plan (.settle env) = ⟨g.handOut (.settle env), none, none, g.cardNum⟩ := rfl

/-- A step that reads from a seat is made for the seat the loop is at. -/
theorem recv_step {env : Env} {event : Event} (h : GameStep g (.recv env event) g') :
    ∃ i r, g.pc = .scan i ∧ g.handNum i ≠ -1 ∧ (g.used i).isSome ∧
      recv env i event g = .ok r ∧ g' = r.advance i := by
  unfold GameStep step at h
  dsimp only at h
  split at h
  · next i hpc =>
    split at h
    · cases h
    next hin =>
    obtain ⟨r, hr, h⟩ := exists_of_bind_ok h
    cases h
    refine ⟨i, r, hpc, fun hn ↦ hin (Or.inr hn), ?_, hr, rfl⟩
    cases hu : g.used i with
    | none => exact absurd (Or.inl (by rw [hu]; rfl)) hin
    | some c => rfl
  · cases h

/-- A step in which seat `i` leaves is its departure. -/
theorem leaver_step {a : GameAct} {i : Seat} (h : GameStep g a g')
    (hl : (g.plan a).leaver = some i) :
    ∃ env state r, g.pc = .scan i ∧ g.handNum i ≠ -1 ∧ state ≠ .room ∧
      depart env state i g = .ok r ∧ g' = r.advance i := by
  cases a with
  | pass => cases hl
  | settle env => cases hl
  | recv env event =>
    obtain ⟨j, r, hpc, hj, -, hr, rfl⟩ := recv_step h
    rw [plan_recv hpc] at hl
    dsimp only at hl
    split at hl
    · next hdep =>
      cases hl
      cases event with
      | eof => exact ⟨env, .empty, r, hpc, hj, by decide, hr, rfl⟩
      | line recvline =>
        have h8 : charAt recvline 0 = '8' := hdep
        unfold recv at hr
        dsimp only at hr
        rw [if_pos h8] at hr
        exact ⟨env, .lobby, r, hpc, hj, by decide, hr, rfl⟩
    · cases hl

/-- A step of the loop of `GameStart` is a sequence of allowed moves. -/
theorem step_moves {a : GameAct} (h : GameStep g a g') : Moves (g.plan a) g g' := by
  cases a with
  | pass =>
    unfold GameStep step at h
    dsimp only at h
    split at h
    · cases h
      exact moves_book (books_advance _)
    · cases h
  | recv env event =>
    obtain ⟨i, r, hpc, hi, -, hr, rfl⟩ := recv_step h
    rw [plan_recv hpc]
    refine RunWith.trans (moves_recv hi rfl ?_ rfl rfl hr) (moves_book (books_advance i))
    unfold handOut
    rw [hpc]
    cases event <;> rfl
  | settle env =>
    unfold GameStep step at h
    dsimp only at h
    split at h
    · next hpc =>
      rw [plan_settle]
      exact moves_settle hpc rfl rfl h
    · cases h

end Unpv13e.Uno
