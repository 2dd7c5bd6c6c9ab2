import Unpv13e.Base.Deck
import Unpv13e.Base.Runs
import Unpv13e.Uno.GameStart

/-!
# The opening of a game

Library `Uno`. What holds when `GameStart` enters its loop: seven cards for every occupied
seat, a table card that is no wild card, and every card in one place.
-/

namespace Unpv13e.Uno
open Unpv13e.Base Game

/-- Pile and hands of a game. -/
def Game.dealt (g : Game) : Dealt Seat CardId := ⟨g.cardSeq, g.cardNum, g.hand⟩

/-- Every card has one place, and the table card and the card last played are out. -/
def Accounted (g : Game) : Prop :=
  ∃ place, Accounts place g.dealt ∧ place g.tableCard = .out ∧
    ∀ q, g.cardId = some q → place q = .out

/-- The state `GameStart` enters its loop in. -/
structure Opened (used : Seat → Option ConnId) (playerNum draw : Nat) (g : Game) : Prop where
  accounted : Accounted g
  seats : g.used = used
  players : g.playerNum = playerNum
  handNum : ∀ j, g.handNum j = if (used j).isSome then 7 else -1
  card : ∀ j, (g.hand j).card = if (used j).isSome then 7 else 0
  first : firstPlayer used playerNum draw = .ok g.whoseRound
  table : g.tableCard.val < 100
  turn : g.turn = 0
  haveUno : g.haveUno = none
  isUno : ∀ j, g.isUno j = false
  timeStamp : ∀ j, g.timeStamp j = longMax
  winner : g.winner = none
  pc : g.pc = .scan 0

private theorem dealCards (i : Seat) (n : Nat) (g : Game) (hn : n ≤ g.cardNum)
    (hacc : ∃ place, Accounts place g.dealt) :
    (∃ place, Accounts place ((dealCard i)^[n] g).dealt) ∧
      ((dealCard i)^[n] g).cardNum = g.cardNum - n ∧
      (((dealCard i)^[n] g).hand i).card = (g.hand i).card + n ∧
      ∀ j, j ≠ i → ((dealCard i)^[n] g).hand j = g.hand j := by
  induction n with
  | zero => exact ⟨hacc, rfl, rfl, fun _ _ ↦ rfl⟩
  | succ n ih =>
    obtain ⟨⟨place, hp⟩, hnum, hcard, hother⟩ := ih (by omega)
    rw [Function.iterate_succ_apply']
    generalize (dealCard i)^[n] g = r at hp hnum hcard hother ⊢
    have hpos : 0 < r.dealt.size := by
      change 0 < r.cardNum
      omega
    refine ⟨⟨_, hp.top hpos i⟩, ?_, ?_, ?_⟩
    · change r.cardNum - 1 = _
      omega
    · have hc : ((r.dealCard i).hand i).card = (r.hand i).card + 1 := hp.card_top hpos i
      omega
    · intro j hj
      rw [← hother j hj]
      exact Function.update_of_ne hj _ _

private theorem dealCards_frame (i : Seat) (n : Nat) (g : Game) :
    (dealCard i)^[n] g = { g with
      hand := ((dealCard i)^[n] g).hand, cardNum := ((dealCard i)^[n] g).cardNum } := by
  induction n with
  | zero => rfl
  | succ n ih =>
    rw [Function.iterate_succ_apply']
    generalize (dealCard i)^[n] g = r at ih ⊢
    rw [ih]
    rfl

/-- The deal before the seats `is`: every other occupied seat has its seven cards. -/
private structure Dealing (used : Seat → Option ConnId) (is : List Seat) (g : Game) : Prop where
  accounts : ∃ place, Accounts place g.dealt
  seats : g.used = used
  enough : 7 * is.length ≤ g.cardNum
  handNum : ∀ j, g.handNum j = if j ∉ is ∧ (used j).isSome then 7 else -1
  card : ∀ j, (g.hand j).card = if j ∉ is ∧ (used j).isSome then 7 else 0

private theorem dealing_step {used : Seat → Option ConnId} {i : Seat} {is : List Seat} {g : Game}
    (hi : i ∉ is) (h : Dealing used (i :: is) g) : Dealing used is (dealSeat g i) := by
  have hlen : 7 * is.length + 7 ≤ g.cardNum := by
    have := h.enough
    rw [List.length_cons] at this
    omega
  unfold dealSeat
  split
  · next hnone =>
    rw [h.seats] at hnone
    refine ⟨h.accounts, h.seats, by omega, fun j ↦ ?_, fun j ↦ ?_⟩
    · rw [h.handNum j]
      by_cases hj : j = i
      · subst hj; simp [Option.isNone_iff_eq_none.mp hnone]
      · simp [hj]
    · rw [h.card j]
      by_cases hj : j = i
      · subst hj; simp [Option.isNone_iff_eq_none.mp hnone]
      · simp [hj]
  · next hsome =>
    have hi' : (used i).isSome := by
      rw [h.seats] at hsome
      cases hu : used i with
      | none => simp [hu] at hsome
      | some c => rfl
    obtain ⟨hacc, hnum, hcard, hother⟩ := dealCards i 7 g (by omega) h.accounts
    have hframe := dealCards_frame i 7 g
    generalize (dealCard i)^[7] g = r at hacc hnum hcard hother hframe ⊢
    have hrused : r.used = used := by rw [hframe]; exact h.seats
    have hrnum : r.handNum = g.handNum := by rw [hframe]
    refine ⟨hacc, hrused, ?_, fun j ↦ ?_, fun j ↦ ?_⟩
    · change 7 * is.length ≤ r.cardNum
      omega
    · change Function.update r.handNum i 7 j = _
      by_cases hj : j = i
      · subst hj; simp [hi, hi']
      · rw [Function.update_of_ne hj, hrnum, h.handNum j]
        simp [hj]
    · change (r.hand j).card = _
      by_cases hj : j = i
      · subst hj
        rw [hcard, h.card j]
        simp [hi, hi']
      · rw [hother j hj, h.card j]
        simp [hj]

private theorem dealing_run {used : Seat → Option ConnId} (is : List Seat) (g : Game)
    (hnd : is.Nodup) (h : Dealing used is g) : Dealing used [] (is.foldl dealSeat g) := by
  induction is generalizing g with
  | nil => exact h
  | cons i is ih =>
    obtain ⟨hi, hnd⟩ := List.nodup_cons.mp hnd
    exact ih _ hnd (dealing_step hi h)

/-- The deal changes the hands, the counters and the pile only. -/
theorem dealSeat_frame (is : List Seat) (g : Game) :
    is.foldl dealSeat g = { g with
      hand := (is.foldl dealSeat g).hand
      handNum := (is.foldl dealSeat g).handNum
      cardNum := (is.foldl dealSeat g).cardNum } := by
  induction is generalizing g with
  | nil => rfl
  | cons i is ih =>
    rw [List.foldl_cons, ih]
    unfold dealSeat
    split
    · rfl
    · rw [dealCards_frame]

private theorem freshTable_accounts (rand : Nat → Nat) (used : Seat → Option ConnId)
    (playerNum : Nat) : Accounts (fun _ ↦ .pile) (freshTable rand used playerNum).dealt := by
  apply accounts_undealt
  · intro j k hj hk he
    obtain ⟨π, hlt, hval, _⟩ := shuffle_perm cardOfIndex rand (fun _ ↦ 0) 108
    have hj' : j < 108 := hj
    have hk' : k < 108 := hk
    change shuffle cardOfIndex rand (fun _ ↦ 0) 108 j =
      shuffle cardOfIndex rand (fun _ ↦ 0) 108 k at he
    rw [hval j hj', hval k hk'] at he
    have hπj := (hlt j).mp hj'
    have hπk := (hlt k).mp hk'
    have hmod := congrArg Fin.val he
    simp only [cardOfIndex, Fin.ofNat, Nat.mod_eq_of_lt hπj, Nat.mod_eq_of_lt hπk] at hmod
    exact π.injective hmod
  · intro i
    rfl

private theorem turnUp_spec {cardSeq : Nat → CardId} {n : Nat} {p : CardId × Nat}
    (h : turnUp cardSeq n = .ok p) :
    p.2 < n ∧ cardSeq p.2 = p.1 ∧ p.1.val < 100 := by
  induction n with
  | zero => cases h
  | succ n ih =>
    rw [turnUp] at h
    split at h
    · next hlt =>
      cases h
      exact ⟨Nat.lt_succ_self n, rfl, hlt⟩
    · obtain ⟨h1, h2, h3⟩ := ih h
      exact ⟨by omega, h2, h3⟩

/-- `startRound` only writes lines. -/
theorem startRound_emits {name : ConnId → Text} {tableCard : Text} {g g' : Game}
    (h : startRound name tableCard g = .ok g') :
    ∃ c, g.used g.whoseRound = some c ∧ g' = g.emit (g.active.map fun p ↦
      .send p.2 (g.roundLine tableCard (name c) p.1)) := by
  obtain ⟨c, hc, h⟩ := exists_of_bind_ok h
  refine ⟨c, ?_, (Except.ok.inj h).symm⟩
  unfold conn at hc
  split at hc
  · next he => cases hc; exact he
  · cases hc

/-- `GameStart` enters its loop with the table set as `Opened` says. -/
theorem gameStart_opened {name : ConnId → Text} {rand : Nat → Nat} {draw playerNum : Nat}
    {used : Seat → Option ConnId} {g : Game}
    (h : gameStart name rand draw used playerNum = .ok g) : Opened used playerNum draw g := by
  obtain ⟨p, hp, h⟩ := exists_of_bind_ok h
  obtain ⟨first, hfirst, h⟩ := exists_of_bind_ok h
  obtain ⟨c, _, rfl⟩ := startRound_emits h
  have hfresh : Dealing used (List.finRange 10) (freshTable rand used playerNum) :=
    ⟨⟨_, freshTable_accounts rand used playerNum⟩, rfl, by simp [freshTable],
      fun j ↦ by simp [freshTable], fun j ↦ by simp [freshTable]⟩
  have hdealt := dealing_run _ _ (List.nodup_finRange 10) hfresh
  have hframe := dealSeat_frame (List.finRange 10) (freshTable rand used playerNum)
  generalize (List.finRange 10).foldl dealSeat (freshTable rand used playerNum) = r
    at hp hdealt hframe h ⊢
  obtain ⟨hlt, hcard, htable⟩ := turnUp_spec hp
  obtain ⟨place, hplace⟩ := hdealt.accounts
  have hnotpile : ∀ k, k < p.2 → r.cardSeq k ≠ p.1 := by
    intro k hk he
    have hk' : k < r.dealt.size := Nat.lt_trans hk hlt
    have := hplace.inj k p.2 hk' hlt (he.trans hcard.symm)
    omega
  have hnothand : ∀ i, p.1 ∉ r.hand i := by
    intro i
    rw [← hcard]
    exact hplace.pile_not_hand hlt i
  refine ⟨⟨_, (hplace.shrink (Nat.le_of_lt hlt)).setOut hnotpile hnothand, ?_, ?_⟩,
    hdealt.seats, ?_, ?_, ?_, hfirst, htable, ?_, ?_, ?_, ?_, ?_, ?_⟩
  · exact Function.update_self _ _ _
  · intro q hq
    have : r.cardId = some q := hq
    rw [hframe] at this
    cases this
  · change r.playerNum = playerNum
    rw [hframe]; rfl
  · intro j
    change r.handNum j = _
    rw [hdealt.handNum j]
    simp
  · intro j
    change (r.hand j).card = _
    rw [hdealt.card j]
    simp
  · change r.turn = 0
    rw [hframe]; rfl
  · change r.haveUno = none
    rw [hframe]; rfl
  · intro j
    change r.isUno j = false
    rw [hframe]; rfl
  · intro j
    change r.timeStamp j = longMax
    rw [hframe]; rfl
  · change r.winner = none
    rw [hframe]; rfl
  · change r.pc = .scan 0
    rw [hframe]; rfl

/-! ### A deal in order -/

/-- The first nine seats are occupied. -/
def nineSeats (i : Seat) : Option ConnId := if i.val < 9 then some (seatAsConn i) else none

/-- The players are called `a`, `b`, `c` and so on. -/
def plainName (c : ConnId) : Text := [Char.ofNat (97 + c.val)]

/-- What a step reads when `rand() % (i + 1)` is `i` for every index `i`. -/
def inOrder : Env := ⟨plainName, fun _ i ↦ i, []⟩

/-- Nine seats dealt by a shuffled deck. -/
private def dealtNine (rand : Nat → Nat) : Game :=
  (List.finRange 10).foldl dealSeat (freshTable rand nineSeats 9)

/-- The opening card is on top of what nine hands leave of the deck. -/
private theorem gameStart_nine {rand : Nat → Nat} {t : CardId} (hnum : (dealtNine rand).cardNum = 45)
    (htop : (dealtNine rand).cardSeq 44 = t) (ht : t.val < 100) :
    ∃ g, gameStart plainName rand 0 nineSeats 9 = .ok g ∧ g.cardNum = 44 ∧ g.whoseRound = 0 ∧
      g.cardSeq = (dealtNine rand).cardSeq ∧ g.hand = (dealtNine rand).hand := by
  have hstart : gameStart plainName rand 0 nineSeats 9 =
      (turnUp (dealtNine rand).cardSeq (dealtNine rand).cardNum >>= fun p ↦
        firstPlayer nineSeats 9 0 >>= fun first ↦ startRound plainName (cards p.1)
          (((dealtNine rand).openTable p.1 p.2 first).announce plainName)) := rfl
  have hused : (dealtNine rand).used = nineSeats := by
    unfold dealtNine
    rw [dealSeat_frame]
    rfl
  have hfirst : firstPlayer nineSeats 9 0 = .ok 0 := by decide
  rw [hstart, hfirst]
  generalize dealtNine rand = r at hnum htop hused ⊢
  have hturn : turnUp r.cardSeq r.cardNum = .ok (t, 44) := by
    rw [hnum, turnUp, htop]
    exact if_pos ht
  have hconn : ((r.openTable t 44 0).announce plainName).conn 0 = .ok 0 := by
    change r.conn 0 = .ok 0
    unfold conn
    rw [hused]
    rfl
  rw [hturn, ok_bind, ok_bind]
  unfold startRound
  rw [show ((r.openTable t 44 0).announce plainName).whoseRound = 0 from rfl, hconn, ok_bind]
  exact ⟨_, rfl, rfl, rfl, rfl, rfl⟩

private theorem dealtNine_inOrder : (dealtNine (inOrder.rand 0)).cardNum = 45 ∧
    (∀ q : CardId, (dealtNine (inOrder.rand 0)).cardSeq q.val = q) ∧
    ∀ (i : Seat) (q : CardId), q ∈ (dealtNine (inOrder.rand 0)).hand i ↔
      i.val < 9 ∧ 101 - 7 * i.val ≤ q.val ∧ q.val ≤ 107 - 7 * i.val := by
  decide +kernel

/-- The first nine players are dealt the cards from 107 down, seven each, and 44 is turned up. -/
theorem gameStart_inOrder :
    ∃ g, gameStart plainName (inOrder.rand 0) 0 nineSeats 9 = .ok g ∧ g.cardNum = 44 ∧
      g.whoseRound = 0 ∧ (∀ q : CardId, g.cardSeq q.val = q) ∧
      ∀ (i : Seat) (q : CardId), q ∈ g.hand i ↔
        i.val < 9 ∧ 101 - 7 * i.val ≤ q.val ∧ q.val ≤ 107 - 7 * i.val := by
  obtain ⟨hnum, hseq, hhand⟩ := dealtNine_inOrder
  obtain ⟨g, hg, hcards, hwho, hcardSeq, hhands⟩ := gameStart_nine hnum (hseq 44) (by decide)
  refine ⟨g, hg, hcards, hwho, ?_, ?_⟩
  · rw [hcardSeq]
    exact hseq
  · rw [hhands]
    exact hhand

/-- The values of `rand ()` by which 0 and 44 change places. -/
def exchanged (i : Nat) : Nat := if i = 44 then 0 else i

private theorem dealtNine_exchanged : (dealtNine exchanged).cardNum = 45 ∧
    (∀ q : CardId, (dealtNine exchanged).cardSeq q.val = Equiv.swap 0 44 q) ∧
    ∀ (i : Seat) (q : CardId), q ∈ (dealtNine exchanged).hand i ↔
      i.val < 9 ∧ 101 - 7 * i.val ≤ q.val ∧ q.val ≤ 107 - 7 * i.val := by
  decide +kernel

/-- The same hands, with card 0 turned up. -/
theorem gameStart_exchanged :
    ∃ g, gameStart plainName exchanged 0 nineSeats 9 = .ok g ∧ g.cardNum = 44 ∧
      (∀ q : CardId, g.cardSeq q.val = Equiv.swap 0 44 q) ∧
      ∀ (i : Seat) (q : CardId), q ∈ g.hand i ↔
        i.val < 9 ∧ 101 - 7 * i.val ≤ q.val ∧ q.val ≤ 107 - 7 * i.val := by
  obtain ⟨hnum, hseq, hhand⟩ := dealtNine_exchanged
  have htop : (dealtNine exchanged).cardSeq 44 = 0 := by
    rw [show 44 = (44 : CardId).val from rfl, hseq 44, Equiv.swap_apply_right]
  obtain ⟨g, hg, hcards, -, hcardSeq, hhands⟩ := gameStart_nine hnum htop (by decide)
  refine ⟨g, hg, hcards, ?_, ?_⟩
  · rw [hcardSeq]
    exact hseq
  · rw [hhands]
    exact hhand

end Unpv13e.Uno
