import Unpv13e.Client.View
import Unpv13e.Uno.Opening

/-!
# The round line read back

Library `Client`. What `StartRound` writes (`src/tcpcliserv/final_server.c:169–197`) against what
the branch for the line `10` of `game` takes from it (`src/tcpcliserv/final_cli.c:857–885`), with
the names of the line `9` of the same game.
-/

namespace Unpv13e.Client
open Unpv13e.Base Unpv13e.Uno

/-- A text that fits `name[32]` and can be sent as a word of a line. -/
def IsName (w : Text) : Prop := IsField w ∧ w.length < 32

instance (w : Text) : Decidable (IsName w) := inferInstanceAs (Decidable (_ ∧ _))

/-- The seats occupied at the start of the game, in order. -/
def seatsOf (g : Game) : List Seat := (List.finRange 10).filter fun i ↦ (g.used i).isSome

/-- The cards of a hand, as they are sent, are the cards of the hand. -/
theorem coe_handList (h : Finset CardId) : (Game.handList h : Multiset CardId) = h.val := by
  unfold Game.handList
  apply Multiset.Nodup.ext _ h.nodup |>.mpr
  · intro q
    simp
  · exact ((List.nodup_finRange 108).filter _)

/-- The name of a card is a field. -/
theorem isField_cards (q : CardId) : IsField (cards q) := by
  have table : ∀ w ∈ cardTable, IsField w := by decide
  exact table _ (List.get_mem _ _)

/-- The names of the line `9` are those of the occupied seats. -/
theorem start_names {name : ConnId → Text} {g : Game}
    (hname : ∀ i c, g.used i = some c → IsName (name c)) :
    ∃ v, View.start (['9'] ++ blankJoin (((List.finRange 10).filterMap g.used).map name) ++ ['\n']) =
      .ok v ∧ v.players = ((List.finRange 10).filterMap g.used).map name := by
  have hall : ∀ w ∈ ((List.finRange 10).filterMap g.used).map name, IsName w := by
    intro w hw
    obtain ⟨d, hd, rfl⟩ := List.mem_map.mp hw
    obtain ⟨i, -, hi⟩ := List.mem_filterMap.mp hd
    exact hname i d hi
  have htokens := tokens_line (w := ['9']) (by decide) fun w hw ↦ (hall w hw).1
  have hlen : (((List.finRange 10).filterMap g.used).map name).length ≤ 10 := by
    rw [List.length_map]
    exact List.length_filterMap_le _ _
  unfold View.start
  rw [htokens]
  dsimp only [List.tail_cons]
  rw [if_pos ⟨hlen, fun w hw ↦ (hall w hw).2⟩]
  exact ⟨_, rfl, rfl⟩

/-- The line `9` is the same for every player. -/
private theorem nine_eq {name : ConnId → Text} {g : Game} {c : ConnId} {nine : Text}
    (h : Effect.send c nine ∈ (g.announce name).out.drop g.out.length) :
    nine = ['9'] ++ blankJoin (((List.finRange 10).filterMap g.used).map name) ++ ['\n'] := by
  simp only [Game.announce, Game.emit, List.drop_left] at h
  obtain ⟨d, -, hd⟩ := List.mem_map.mp h
  cases hd
  rfl

/-- The words of a round line. -/
theorem tokens_roundLine {name tableCard : Text} {g : Game} (i : Seat)
    (hname : IsField name) (hcard : IsField tableCard) :
    tokens (chop (g.roundLine tableCard name i)) =
      ['1', '0'] :: tableCard :: decimal g.cardNum :: decimal g.turn.val :: name ::
        ((seatsOf g).map (fun j ↦ decimal (g.handNum j)) ++ (Game.handList (g.hand i)).map cards) := by
  have hline : g.roundLine tableCard name i = ['1', '0'] ++ blankJoin (tableCard ::
      decimal g.cardNum :: decimal g.turn.val :: name :: ((seatsOf g).map (fun j ↦
        decimal (g.handNum j)) ++ (Game.handList (g.hand i)).map cards)) ++ ['\n'] := by
    unfold Game.roundLine Game.roundHead seatsOf
    simp [blankJoin]
  rw [hline]
  apply tokens_line (by decide)
  intro w hw
  simp only [List.mem_cons, List.mem_append, List.mem_map] at hw
  rcases hw with rfl | rfl | rfl | rfl | ⟨j, -, rfl⟩ | ⟨q, -, rfl⟩
  · exact hcard
  · exact isField_decimal _
  · exact isField_decimal _
  · exact hname
  · exact isField_decimal _
  · exact isField_cards q

private theorem filterMap_used (used : Seat → Option ConnId) (is : List Seat) :
    (is.filter fun i ↦ (used i).isSome).map used = (is.filterMap used).map some := by
  induction is with
  | nil => rfl
  | cons i is ih =>
    cases hu : used i with
    | none => simpa [hu] using ih
    | some c => simpa [hu] using ih

/-- What a client has of a game when it has read a round line of it. -/
structure ShowsRound (name : ConnId → Text) (tableCard turn : Text) (g : Game) (i : Seat) (v : View) :
    Prop where
  tableCard : v.tableCard = tableCard
  cardRemain : v.cardRemain = g.cardNum
  direct : v.direct = true ↔ g.turn = 1
  whosTurn : v.whosTurn = turn
  counts : (List.range v.players.length).map (fun k ↦ (v.players[k]?, v.playerRemain k)) =
    (seatsOf g).map fun j ↦ ((g.used j).map name, g.handNum j)
  myCard : (tokens v.myCard : Multiset Text) = (g.hand i).val.map cards

/-- The names of the players are those of the occupied seats, in order. -/
theorem map_players {name : ConnId → Text} {g : Game} {v : View}
    (hv : v.players = ((List.finRange 10).filterMap g.used).map name) :
    v.players.map some = (seatsOf g).map fun j ↦ (g.used j).map name := by
  have hf := congrArg (List.map (Option.map name)) (filterMap_used g.used (List.finRange 10))
  rw [hv, List.map_map]
  simpa [seatsOf, List.map_map, Function.comp_def] using hf.symm

/-- A round line is read by a client that has the names of the occupied seats. -/
theorem round_roundLine {name : ConnId → Text} {g : Game} {tableCard turn : Text} {i : Seat} {v : View}
    (hv : v.players = ((List.finRange 10).filterMap g.used).map name)
    (hcard : IsField tableCard ∧ tableCard.length ≤ 2) (hturn : IsName turn)
    (hint : IsInt g.cardNum ∧ ∀ j, IsInt (g.handNum j)) (hhand : (g.hand i).Nonempty) :
    ∃ v', v.round (g.roundLine tableCard turn i) = .ok v' ∧ v'.players = v.players ∧
      ShowsRound name tableCard turn g i v' := by
  have htokens := tokens_roundLine (g := g) i hturn.1 hcard.1
  have hnames := map_players hv
  have hlen : v.players.length = (seatsOf g).length := by
    simpa using congrArg List.length hnames
  have hcards : (Game.handList (g.hand i)).map cards ≠ [] := by
    intro hnil
    have hlist : Game.handList (g.hand i) = [] := List.map_eq_nil_iff.mp hnil
    have hval := coe_handList (g.hand i)
    rw [hlist] at hval
    exact hhand.ne_empty (Finset.val_eq_zero.mp hval.symm)
  have hpos := List.length_pos_iff.mpr hcards
  unfold View.round
  rw [htokens]
  dsimp only
  rw [if_neg (by rw [List.length_append, List.length_map]; omega), if_neg ?_]
  swap
  · rw [List.length_append, List.length_map]
    have := hturn.2
    omega
  refine ⟨_, rfl, rfl, rfl, hint.1.strtol_decimal, ?_, rfl, ?_, ?_⟩
  · have hturn : g.turn = 0 ∨ g.turn = 1 := by omega
    rcases hturn with ht | ht
    · simp only [ht]
      exact iff_of_false (by decide) (by decide)
    · simp only [ht]
      exact iff_of_true (by decide) (by decide)
  · dsimp only
    apply List.ext_getElem
    · simp [hlen]
    · intro k hk hk'
      have hkn : k < v.players.length := by simpa using hk
      have hks : k < (seatsOf g).length := hlen ▸ hkn
      have hname' := congrArg (fun l ↦ l[k]?) hnames
      simp only [List.getElem?_map, List.getElem?_eq_getElem hkn,
        List.getElem?_eq_getElem hks, Option.map_some, Option.some.injEq] at hname'
      have hcount : ((seatsOf g).map (fun j ↦ decimal (g.handNum j)) ++
          (Game.handList (g.hand i)).map cards).getD k [] = decimal (g.handNum (seatsOf g)[k]) := by
        rw [List.getD_append _ _ _ _ (by simpa using hks), List.getD_eq_getElem _ _ (by simpa using hks)]
        simp
      simp only [List.getElem_map, List.getElem_range, if_pos hkn, hcount,
        (hint.2 _).strtol_decimal, List.getElem?_eq_getElem hkn, hname']
  · dsimp only
    have hdrop : ((seatsOf g).map (fun j ↦ decimal (g.handNum j)) ++
        (Game.handList (g.hand i)).map cards).drop v.players.length =
        (Game.handList (g.hand i)).map cards := by
      rw [hlen, ← List.length_map (f := fun j ↦ decimal (g.handNum j)), List.drop_left]
    rw [hdrop, View.tokens_joinCards hcards]
    · rw [← coe_handList]
      simp
    · intro u hu
      obtain ⟨q, -, rfl⟩ := List.mem_map.mp hu
      exact isField_cards q

/-- The line `10` that `StartRound` writes to a seat in the game, read by a client that has the
names of the line `9` of the game, gives the card on the table, the size of the pile, the
direction, the player in turn, the count of every participant in the order of the seats, and the
cards of the hand. -/
theorem round_line_decodes {name : ConnId → Text} {g₀ g g' : Game} {tableCard nine : Text}
    {i : Seat} {c : ConnId} (hname : ∀ j d, g.used j = some d → IsName (name d))
    (hcard : IsField tableCard ∧ tableCard.length = 2)
    (hint : IsInt g.cardNum ∧ ∀ j, IsInt (g.handNum j)) (hused : g₀.used = g.used)
    (hnine : Effect.send c nine ∈ (g₀.announce name).out.drop g₀.out.length)
    (h : Game.startRound name tableCard g = .ok g') (hi : (i, c) ∈ g.active)
    (hhand : (g.hand i).Nonempty) :
    ∃ w v₀ line, g.used g.whoseRound = some w ∧ View.start nine = .ok v₀ ∧
      Effect.send c line ∈ g'.out.drop g.out.length ∧
      ∀ v : View, v.players = v₀.players → ∃ v', v.round line = .ok v' ∧
        v'.tableCard = tableCard ∧ v'.cardRemain = g.cardNum ∧ (v'.direct = true ↔ g.turn = 1) ∧
        v'.whosTurn = name w ∧
        (List.range v'.players.length).map (fun k ↦ (v'.players[k]?, v'.playerRemain k)) =
          (seatsOf g).map (fun j ↦ ((g.used j).map name, g.handNum j)) ∧
        (tokens v'.myCard : Multiset Text) = (g.hand i).val.map cards := by
  obtain ⟨w, hw, rfl⟩ := startRound_emits h
  obtain ⟨v₀, hstart, hplayers⟩ := start_names (g := g₀) (hused ▸ hname)
  rw [← nine_eq hnine] at hstart
  refine ⟨w, v₀, g.roundLine tableCard (name w) i, hw, hstart, ?_, fun v hv ↦ ?_⟩
  · simp only [Game.emit, List.drop_left]
    exact List.mem_map.mpr ⟨(i, c), hi, rfl⟩
  have hv' : v.players = ((List.finRange 10).filterMap g.used).map name := by
    rw [hv, hplayers, hused]
  obtain ⟨v', hround, -, hshows⟩ := round_roundLine hv' ⟨hcard.1, hcard.2.le⟩ (hname _ _ hw) hint hhand
  exact ⟨v', hround, hshows.tableCard, hshows.cardRemain, hshows.direct, hshows.whosTurn, hshows.counts,
    hshows.myCard⟩

/-- A game of two, on slots 3 and 7, with one card each. -/
private def twoSeats : Game :=
  { Game.freshTable (fun _ ↦ 0) (fun i ↦ if i = 0 then some 3 else if i = 1 then some 7 else none) 2
    with
    hand := fun _ ↦ {4}
    handNum := fun i ↦ if i.val < 2 then 1 else -1
    cardNum := 90 }

private def twoNames (c : ConnId) : Text := if c = 3 then ['a'] else ['b']

/-- The players of a game of two read their round lines. -/
theorem two_seats_decode : ∃ v₀ line, View.start ['9', ' ', 'a', ' ', 'b', '\n'] = .ok v₀ ∧
    ∀ v : View, v.players = v₀.players → ∃ v', v.round line = .ok v' ∧
      v'.tableCard = ['5', 'r'] ∧ v'.cardRemain = 90 ∧ v'.whosTurn = ['a'] ∧
      (tokens v'.myCard : Multiset Text) = {['1', 'r']} := by
  have h := @round_line_decodes twoNames twoSeats twoSeats _ ['5', 'r']
    ['9', ' ', 'a', ' ', 'b', '\n'] 0 3 (by decide) (by decide) (by decide) rfl (by decide) rfl
    (by decide) (by decide)
  obtain ⟨w, v₀, line, hw, hstart, -, hall⟩ := h
  refine ⟨v₀, line, hstart, fun v hv ↦ ?_⟩
  obtain ⟨v', hv', h1, h2, -, h3, -, h4⟩ := hall v hv
  have hw' : w = 3 := Option.some.inj (hw.symm.trans (by decide))
  exact ⟨v', hv', h1, h2, by rw [h3, hw']; decide, by rw [h4]; decide⟩

end Unpv13e.Client
