import Mathlib
import Unpv13e.Uno.Departure

/-!
# Whose turn it is

Library `Uno`. The rule of the game for the turn, stated without the search that finds the
next player: the turn goes to the first seat still in the game that is met going round the
table in the current direction. `SwitchToNextPlayer` computes that seat, and the effects of
the cards and the departures in `GameStart` follow the rule.
-/

namespace Unpv13e.Uno
open Unpv13e.Base Game

/-! ### Round the table -/

/-- One seat on in the current direction. -/
def direction (turn : Fin 2) : Seat := if turn = 0 then 1 else 9

/-- The seat `k` places on from `w`. -/
def onward (turn : Fin 2) (k : Nat) (w : Seat) : Seat := (· + direction turn)^[k] w

/-- Seat `v` is the first of `seats` met after `w` in the current direction; it is `w` itself
when the way leads once round the table. -/
def IsNext (seats : Finset Seat) (turn : Fin 2) (w v : Seat) : Prop :=
  v ∈ seats ∧ ∃ k, 0 < k ∧ k ≤ 10 ∧ v = onward turn k w ∧
    ∀ l, 0 < l → l < k → onward turn l w ∉ seats

/-- The loop of `SwitchToNextPlayer` ends after `k` turns at seat `v`. -/
structure SearchEnds (handNum : Seat → Int) (turn : Fin 2) (w : Seat) (k : Nat) (v : Seat) :
    Prop where
  bounded : k < 10
  goesOn : ∀ l < k, onward turn (l + 1) w ≠ w ∧ handNum (onward turn (l + 1) w) = -1
  ends : onward turn (k + 1) w = w ∨ handNum (onward turn (k + 1) w) ≠ -1
  result : v = onward turn (k + 1) w

/-- The way leads round the table. -/
theorem onward_ten (turn : Fin 2) (w : Seat) : onward turn 10 w = w := by
  have table : ∀ (turn : Fin 2) (w : Seat), onward turn 10 w = w := by decide
  exact table turn w

/-- Every seat lies on the way. -/
theorem exists_onward (turn : Fin 2) (w v : Seat) : ∃ k < 10, onward turn (k + 1) w = v := by
  have table : ∀ (turn : Fin 2) (w v : Seat), ∃ k < 10, onward turn (k + 1) w = v := by decide
  exact table turn w v

private theorem switchFrom_ends {handNum : Seat → Int} {d w : Seat} (m n : Nat) (j : Seat)
    (hm : m < n) (hw : (· + d)^[m] j = w) :
    ∃ k ≤ m, (∀ l < k, (· + d)^[l] j ≠ w ∧ handNum ((· + d)^[l] j) = -1) ∧
      ((· + d)^[k] j = w ∨ handNum ((· + d)^[k] j) ≠ -1) ∧
      switchFrom handNum d w n j = (· + d)^[k] j := by
  induction n generalizing j m with
  | zero => exact absurd hm (Nat.not_lt_zero m)
  | succ n ih =>
    rw [switchFrom]
    by_cases hj : j = w
    · rw [if_pos hj]
      exact ⟨0, Nat.zero_le m, fun l hl ↦ absurd hl (Nat.not_lt_zero l), Or.inl hj, hj.symm⟩
    rw [if_neg hj]
    by_cases hn : handNum j = -1
    · rw [if_pos hn]
      cases m with
      | zero => exact absurd hw hj
      | succ m =>
        obtain ⟨k, hk, hgo, hend, hres⟩ := ih m (j + d) (by omega) hw
        refine ⟨k + 1, by omega, ?_, hend, hres⟩
        intro l hl
        cases l with
        | zero => exact ⟨hj, hn⟩
        | succ l => exact hgo l (by omega)
    · rw [if_neg hn]
      exact ⟨0, Nat.zero_le m, fun l hl ↦ absurd hl (Nat.not_lt_zero l), Or.inr hn, rfl⟩

/-- `SwitchToNextPlayer` always returns. -/
theorem searchEnds_switch (handNum : Seat → Int) (turn : Fin 2) (w : Seat) :
    ∃ k, SearchEnds handNum turn w k (switchToNextPlayer w handNum turn) := by
  have hswitch : switchToNextPlayer w handNum turn =
      switchFrom handNum (direction turn) w 10 (w + direction turn) := by
    unfold switchToNextPlayer direction
    split <;> rfl
  obtain ⟨k, hk, hgo, hend, hres⟩ := @switchFrom_ends handNum (direction turn) w 9 10
    (w + direction turn) (by decide) (onward_ten turn w)
  exact ⟨k, by omega, hgo, hend, hswitch.trans hres⟩

/-- The turn is passed on to the next seat in the game, if one is found. -/
theorem isNext_switch {seats : Finset Seat} {handNum : Seat → Int} (turn : Fin 2) (w : Seat)
    (hseats : ∀ i, handNum i ≠ -1 ↔ i ∈ seats)
    (hfound : handNum (switchToNextPlayer w handNum turn) ≠ -1) :
    IsNext seats turn w (switchToNextPlayer w handNum turn) := by
  obtain ⟨k, hk⟩ := searchEnds_switch handNum turn w
  refine ⟨(hseats _).mp hfound, k + 1, Nat.succ_pos k, hk.bounded, hk.result, ?_⟩
  intro l hl hlk hmem
  obtain ⟨l, rfl⟩ := Nat.exists_eq_add_of_lt hl
  rw [Nat.zero_add] at hmem
  exact (hseats _).mpr hmem (hk.goesOn l (by omega)).2

/-- The next seat is not the one the search starts from, if another is in the game. -/
theorem IsNext.ne {seats : Finset Seat} {turn : Fin 2} {w v i : Seat}
    (h : IsNext seats turn w v) (hi : i ∈ seats) (hne : i ≠ w) : v ≠ w := by
  obtain ⟨-, k, hpos, hk, rfl, hbefore⟩ := h
  obtain ⟨l, hl, rfl⟩ := exists_onward turn w i
  have hlk : ¬ l + 1 < k := fun hlk ↦ hbefore (l + 1) (Nat.succ_pos l) hlk hi
  have hl' : l + 1 ≠ 10 := by
    intro h10
    rw [h10, onward_ten] at hne
    exact hne rfl
  have table : ∀ (turn : Fin 2) (w : Seat), ∀ k < 10, 0 < k → onward turn k w ≠ w := by decide
  exact table turn w k (by omega) hpos

/-! ### Cards and the turn -/

/-- Seat `w` was given `n` cards; the other hands and counters are as they were. -/
def Drawn (w : Seat) (n : Nat) (g g' : Game) : Prop :=
  (∀ i, g'.handNum i = g.handNum i + if i = w then (n : Int) else 0) ∧
    ∃ qs : List CardId, qs.length = n ∧
      ∀ i q, q ∈ g'.hand i ↔ q ∈ g.hand i ∨ i = w ∧ q ∈ qs

/-- What card `q` on the table does to the turn of `g`, with `seats` in the game. The cards of
a `+2` or a wild `+4` are drawn after the card was put down, which left `laid`. -/
def TurnAfter (seats : Finset Seat) (q : CardId) (g laid g' : Game) : Prop :=
  if 76 ≤ q.val ∧ q.val < 84 then
    g'.turn = g.turn ∧
      ∃ v, IsNext seats g.turn g.whoseRound v ∧ IsNext seats g.turn v g'.whoseRound
  else if 84 ≤ q.val ∧ q.val < 92 then
    g'.turn = g.turn + 1 ∧
      (2 < seats.card → IsNext seats g'.turn g.whoseRound g'.whoseRound) ∧
      (seats.card = 2 → g'.whoseRound = g.whoseRound)
  else if 92 ≤ q.val ∧ q.val < 100 then
    g'.turn = g.turn ∧
      ∃ v, IsNext seats g.turn g.whoseRound v ∧ IsNext seats g.turn v g'.whoseRound ∧
        Drawn v 2 laid g'
  else if 104 ≤ q.val ∧ q.val < 108 then
    g'.turn = g.turn ∧
      ∃ v, IsNext seats g.turn g.whoseRound v ∧ IsNext seats g.turn v g'.whoseRound ∧
        Drawn v 4 laid g'
  else g'.turn = g.turn ∧ IsNext seats g.turn g.whoseRound g'.whoseRound

variable {conns : Seat → Option ConnId} {seats : Finset Seat} {g g' : Game}

private theorem drawn_top (w : Seat) (c : ConnId) (g : Game) : Drawn w 1 g (g.takeTop w c) := by
  refine ⟨?_, [g.cardSeq (g.cardNum - 1)], rfl, ?_⟩
  · intro i
    by_cases hi : i = w
    · subst hi
      rw [handNum_takeTop, if_pos rfl]
      rfl
    · rw [handNum_takeTop_of_ne hi, if_neg hi, add_zero]
  · intro i q
    by_cases hi : i = w
    · subst hi
      rw [hand_takeTop, Finset.mem_insert, List.mem_singleton]
      simp [or_comm]
    · rw [hand_takeTop_of_ne hi]
      simp [hi]

private theorem Drawn.trans {w : Seat} {m n : Nat} {r : Game} (h : Drawn w m g r)
    (h' : Drawn w n r g') : Drawn w (n + m) g g' := by
  obtain ⟨hnum, ps, hps, hp⟩ := h
  obtain ⟨hnum', qs, hqs, hq⟩ := h'
  refine ⟨?_, qs ++ ps, by rw [List.length_append, hqs, hps], ?_⟩
  · intro i
    rw [hnum' i, hnum i]
    split <;> push_cast <;> omega
  · intro i q
    rw [hq, hp, List.mem_append]
    tauto

private theorem giveFrom_drawn {rand : Nat → Nat → Nat} {w : Seat} (k n : Nat)
    (adopted : Finset CardId) (h : giveFrom rand w k n adopted g = .ok g') :
    Drawn w n g g' ∧ g'.whoseRound = g.whoseRound ∧ g'.turn = g.turn ∧
      g'.tableCard = g.tableCard := by
  have hrule := giveFrom_rule (I := fun m r ↦ Drawn w m g r ∧ r.whoseRound = g.whoseRound ∧
    r.turn = g.turn ∧ r.tableCard = g.tableCard) (m := 0) ?_ ?_ h ?_
  · rwa [Nat.zero_add] at hrule
  · -- filling the pile again changes neither hands nor counters
    intro _ rand adopted r _ hr
    exact hr
  · intro m c r _ _ _ hr
    refine ⟨?_, hr.2⟩
    rw [Nat.add_comm]
    exact hr.1.trans (drawn_top w c r)
  · refine ⟨⟨?_, [], rfl, by simp⟩, rfl, rfl, rfl⟩
    intro i
    split <;> simp

private theorem isNext_nextTurn (h : Seated conns seats g) (hturn : g.whoseRound ∈ seats) :
    IsNext seats g.turn g.whoseRound g.nextTurn.whoseRound :=
  isNext_switch g.turn g.whoseRound h.handNum
    (seated_switch g.turn ((h.handNum _).mpr hturn))

private theorem seated_nextTurn (h : Seated conns seats g) : Seated conns seats g.nextTurn :=
  ⟨h.used, h.handNum, h.bounded, h.playerNum, h.winner⟩

private theorem drawAndSkip_turn {rand : Nat → Nat → Nat} {n : Nat} (h : Seated conns seats g)
    (hturn : g.whoseRound ∈ seats) (hd : drawAndSkip rand n g = .ok g') :
    g'.turn = g.turn ∧ ∃ v, IsNext seats g.turn g.whoseRound v ∧
      IsNext seats g.turn v g'.whoseRound ∧ Drawn v n g g' := by
  obtain ⟨r, hr, hd⟩ := exists_of_bind_ok hd
  cases hd
  have hnext := isNext_nextTurn h hturn
  obtain ⟨hdrawn, hwho, hsame, -⟩ := giveFrom_drawn 0 n ∅ hr
  have hseats (i : Seat) : r.handNum i ≠ -1 ↔ i ∈ seats := by
    rw [← h.handNum i, hdrawn.1 i]
    change g.handNum i + _ ≠ -1 ↔ _
    split
    · next hi =>
      have hpos := h.bounded i (hi ▸ hnext.1)
      have := Int.natCast_nonneg (g.hand i).card
      omega
    · rw [add_zero]
  refine ⟨hsame, _, hnext, ?_, hdrawn⟩
  have hskip : IsNext seats r.turn r.whoseRound r.nextTurn.whoseRound :=
    isNext_switch r.turn r.whoseRound hseats
      (seated_switch r.turn ((hseats _).mpr (hwho ▸ hnext.1)))
  rw [hsame, hwho] at hskip
  exact hskip

private theorem cardEffect_turn {rand : Nat → Nat → Nat} (h : Seated conns seats g)
    (hturn : g.whoseRound ∈ seats) (he : cardEffect rand g = .ok g') :
    TurnAfter seats g.tableCard g g g' := by
  have hnext := isNext_nextTurn h hturn
  unfold cardEffect at he
  unfold TurnAfter
  dsimp only at he
  split at he
  · next hskip =>
    cases he
    rw [if_pos hskip]
    exact ⟨rfl, _, hnext, isNext_nextTurn (seated_nextTurn h) hnext.1⟩
  next hskip =>
  rw [if_neg hskip]
  split at he
  · next hrev =>
    rw [if_pos hrev]
    rw [h.playerNum] at he
    have hflip : Seated conns seats g.flipTurn :=
      ⟨h.used, h.handNum, h.bounded, h.playerNum, h.winner⟩
    cases he
    refine ⟨by split <;> rfl, fun hmany ↦ ?_, fun htwo ↦ ?_⟩
    · rw [if_pos hmany]
      exact isNext_nextTurn hflip hturn
    · rw [if_neg (by omega)]
      rfl
  next hrev =>
  rw [if_neg hrev]
  split at he
  · next htwo =>
    rw [if_pos htwo]
    exact drawAndSkip_turn h hturn he
  next htwo =>
  rw [if_neg htwo]
  split at he
  · next hfour =>
    rw [if_pos hfour]
    exact drawAndSkip_turn h hturn he
  · next hfour =>
    cases he
    rw [if_neg hfour]
    exact ⟨rfl, hnext⟩

private theorem cardEffect_table {rand : Nat → Nat → Nat} (he : cardEffect rand g = .ok g') :
    g'.tableCard = g.tableCard := by
  have drawn {n : Nat} (hd : drawAndSkip rand n g = .ok g') : g'.tableCard = g.tableCard := by
    obtain ⟨r, hr, hd⟩ := exists_of_bind_ok hd
    cases hd
    exact (giveFrom_drawn 0 n ∅ hr).2.2.2
  unfold cardEffect at he
  dsimp only at he
  split at he
  · cases he
    rfl
  split at he
  · cases he
    split <;> rfl
  split at he
  · exact drawn he
  split at he
  · exact drawn he
  · cases he
    rfl

private theorem exists_advance (i : Seat) (g : Game) : ∃ pc, g.advance i = { g with pc := pc } := by
  unfold advance
  split
  · exact ⟨g.pc, rfl⟩
  · exact ⟨_, rfl⟩

/-- A play that does not end the game passes the turn on as the card on the table says; the
card is the one named, if the player has it. -/
theorem play_turn {env : Env} {l : Text} {i : Seat} (h : Playing conns seats g)
    (hs : GameStep g (.recv env (.line l)) g') (hpc : g.pc = .scan i) (h9 : charAt l 0 = '9')
    (hgo : g'.pc ≠ .ended) :
    ∃ cardName, arg1 (chop l) = .ok cardName ∧
      TurnAfter seats g'.tableCard g (g.putDown env.residue cardName i) g' ∧
      ∀ q, findCard (g.hand i) (lookupName env.residue cardName) = some q → g'.tableCard = q := by
  obtain ⟨j, r, hpc', hi, -, hr, rfl⟩ := recv_step hs
  cases hpc.symm.trans hpc'
  rw [recv_play h9] at hr
  obtain ⟨cardName, hname, hr⟩ := exists_of_bind_ok hr
  refine ⟨cardName, hname, ?_⟩
  have hi' := (h.seated.handNum i).mp hi
  obtain ⟨hlaid, hwho⟩ := putDown_seated env.residue cardName hi' h.seated
  have hturn : (g.putDown env.residue cardName i).turn = g.turn := by
    unfold putDown
    split <;> rfl
  have hcard (q : CardId) (hq : findCard (g.hand i) (lookupName env.residue cardName) = some q) :
      (g.putDown env.residue cardName i).cardId = some q := by
    unfold putDown
    rw [hq]
    rfl
  dsimp only at hr
  generalize g.putDown env.residue cardName i = laid at *
  cases hid : laid.cardId with
  | none => rw [hid] at hr; cases hr
  | some q =>
    rw [hid] at hr
    dsimp only at hr
    split at hr
    · obtain ⟨c, -, hr⟩ := exists_of_bind_ok hr
      split at hr
      · cases hr
      cases hr
      exact absurd rfl hgo
    obtain ⟨r', hr', hr⟩ := exists_of_bind_ok hr
    obtain ⟨c, -, rfl⟩ := startRound_emits hr
    have hshown : Seated conns seats (laid.showCard q (charAt cardName 1)) :=
      ⟨hlaid.used, hlaid.handNum, hlaid.bounded, hlaid.playerNum, hlaid.winner⟩
    have hin : (laid.showCard q (charAt cardName 1)).whoseRound ∈ seats := by
      change laid.whoseRound ∈ seats
      rw [hwho]
      exact h.turn (by rw [hpc]; exact nofun)
    have htable := cardEffect_table hr'
    have hafter := cardEffect_turn hshown hin hr'
    have hadv (t : Game) : (t.advance i).tableCard = t.tableCard := (books_advance i).tableCard
    constructor
    · rw [hadv]
      change TurnAfter seats r'.tableCard g laid _
      rw [htable]
      unfold TurnAfter at hafter ⊢
      rw [show (laid.showCard q (charAt cardName 1)).turn = g.turn from hturn,
        show (laid.showCard q (charAt cardName 1)).whoseRound = g.whoseRound from hwho] at hafter
      obtain ⟨pc, hpc⟩ := exists_advance i
        (r'.emit (r'.active.map fun p ↦ .send p.2 (r'.roundLine cardName (env.name c) p.1)))
      rw [hpc]
      exact hafter
    · intro q' hq'
      rw [hadv]
      change r'.tableCard = q'
      rw [htable]
      cases hid.symm.trans (hcard q' hq')
      rfl

/-- A departure that does not end the game moves the turn only when it was the turn of the
player who leaves; then the next seat in the game gets it. -/
theorem depart_turn {env : Env} {event : Event} {i : Seat} (h : Playing conns seats g)
    (hs : GameStep g (.recv env event) g') (hpc : g.pc = .scan i) (hd : Departure event)
    (hgo : g'.pc ≠ .ended) :
    g'.turn = g.turn ∧ (i = g.whoseRound → IsNext (seats.erase i) g.turn i g'.whoseRound) ∧
      (i ≠ g.whoseRound → g'.whoseRound = g.whoseRound) := by
  have hl : (g.plan (.recv env event)).leaver = some i := by
    rw [plan_recv hpc]
    exact if_pos hd
  obtain ⟨c, state, hi, -, hleft, -, hplay⟩ := gameStep_leaving hs hl h
  obtain ⟨env', state', r, hpc', -, -, hr, rfl⟩ := leaver_step hs hl
  obtain ⟨pc, hadv⟩ := exists_advance i r
  have hgo' : r.pc ≠ .ended := fun he ↦ hgo ((books_advance i).ended.mpr he)
  have hwho : r.whoseRound = if i = g.whoseRound then
      switchToNextPlayer g.whoseRound (g.leaveSeat i).handNum g.turn else g.whoseRound := by
    obtain ⟨-, -, -, hend⟩ := depart_moves g.cardNum hr
    rcases hend with hend | ⟨-, hend⟩
    · exact absurd hend hgo'
    · exact hend
  have hturn : r.turn = g.turn := by
    obtain ⟨c', -, hr⟩ := exists_of_bind_ok hr
    dsimp only at hr
    split at hr
    · unfold winByDeparture at hr
      split at hr
      · cases hr
      cases hr
      rfl
    split at hr
    · obtain ⟨c'', -, rfl⟩ := startRound_emits hr
      rfl
    · cases hr
      rfl
  have hin := hplay.turn hgo
  rw [hadv] at hin ⊢
  refine ⟨hturn, ?_, ?_⟩
  · intro he
    change r.whoseRound ∈ _ at hin
    change IsNext _ _ _ r.whoseRound
    rw [hwho, if_pos he] at hin ⊢
    rw [← he] at hin ⊢
    exact isNext_switch g.turn i hleft.handNum ((hleft.handNum _).mpr hin)
  · intro hne
    change r.whoseRound = _
    rw [hwho, if_neg hne]

/-! ### The order of turns in a game -/

/-- The seats still in the game: `used[i] != -1 && hand_num[i] != -1`. -/
def Game.inGame (g : Game) : Finset Seat :=
  Finset.univ.filter fun i ↦ (g.used i).isSome ∧ g.handNum i ≠ -1

/-- The state of a running game: two seats at least are in it. -/
structure Turning (conns : Seat → Option ConnId) (seats : Finset Seat) (g : Game) : Prop where
  playing : Playing conns seats g
  occupied : ∀ i ∈ seats, (conns i).isSome
  two : g.pc ≠ .ended → 2 ≤ seats.card

/-- The seats of a running game are those in use whose counter is not `-1`. -/
theorem Turning.inGame (h : Turning conns seats g) : g.inGame = seats := by
  ext i
  unfold Game.inGame
  rw [Finset.mem_filter, h.playing.seated.used, h.playing.seated.handNum]
  exact ⟨fun hi ↦ hi.2.2, fun hi ↦ ⟨Finset.mem_univ i, h.occupied i hi, hi⟩⟩

/-- A step of a running game leaves two seats in it, or ends it. -/
theorem gameStep_turning {a : GameAct} (hs : GameStep g a g') (hok : SettlesPresent g a)
    (h : Turning conns seats g) : ∃ seats', Turning conns seats' g' := by
  cases hl : (g.plan a).leaver with
  | none =>
    exact ⟨seats, gameStep_playing hs hok hl h.playing, h.occupied,
      fun _ ↦ h.two (going_of_gameStep hs)⟩
  | some i =>
    obtain ⟨_, _, hi, -, -, -, hplay⟩ := gameStep_leaving hs hl h.playing
    refine ⟨_, hplay, fun j hj ↦ h.occupied j (Finset.mem_of_mem_erase hj), fun hgo ↦ ?_⟩
    obtain ⟨env, state, r, -, -, -, hr, rfl⟩ := leaver_step hs hl
    obtain ⟨-, -, -, hend⟩ := depart_moves g.cardNum hr
    rcases hend with hend | ⟨hmany, -⟩
    · exact absurd ((books_advance i).ended.mpr hend) hgo
    · rw [Finset.card_erase_of_mem hi, ← h.playing.seated.playerNum]
      exact hmany

/-- A departure ends the game when less than two players are counted then. -/
theorem depart_ended {env : Env} {state : ConnState} {i : Seat} (hgo : g.pc ≠ .ended)
    (h : depart env state i g = .ok g') : g'.pc = .ended ↔ g.playerNum - 1 < 2 := by
  obtain ⟨c, -, h⟩ := exists_of_bind_ok h
  dsimp only at h
  split at h
  · next hfew =>
    have hfew' : g.playerNum - 1 < 2 := hfew
    unfold winByDeparture at h
    split at h
    · cases h
    · cases h
      exact iff_of_true rfl hfew'
  next hmany =>
  have hmany' : ¬ g.playerNum - 1 < 2 := hmany
  split at h
  · obtain ⟨c', -, rfl⟩ := startRound_emits h
    exact iff_of_false hgo hmany'
  · cases h
    exact iff_of_false hgo hmany'

/-- A departure from a running game ends it when one seat is left. -/
theorem Turning.last_player {env : Env} {event : Event} {i : Seat} (h : Turning conns seats g)
    (hs : GameStep g (.recv env event) g') (hpc : g.pc = .scan i) (hd : Departure event) :
    g'.pc = .ended ↔ (g.inGame.erase i).card = 1 := by
  have hl : (g.plan (.recv env event)).leaver = some i := by
    rw [plan_recv hpc]
    exact if_pos hd
  obtain ⟨_, _, hi, -, -, -, -⟩ := gameStep_leaving hs hl h.playing
  obtain ⟨env', state', r, -, -, -, hr, rfl⟩ := leaver_step hs hl
  have hgo := going_of_gameStep hs
  have htwo := h.two hgo
  rw [h.inGame, Finset.card_erase_of_mem hi, (books_advance i).ended, depart_ended hgo hr,
    h.playing.seated.playerNum]
  omega

/-- Between two steps of a game at least two seats are in it. -/
theorem run_turning {name : ConnId → Text} {rand : Nat → Nat} {draw playerNum : Nat} {g₀ : Game}
    (hstart : gameStart name rand draw conns playerNum = .ok g₀)
    (hcount : playerNum = (Finset.univ.filter fun i ↦ (conns i).isSome).card)
    (htwo : 2 ≤ playerNum) (hr : RunWith GameStep SettlesPresent g₀ g) :
    ∃ seats, Turning conns seats g := by
  refine RunWith.preserves (I := fun r ↦ ∃ seats, Turning conns seats r) ?_ hr
    ⟨_, gameStart_playing hstart hcount, fun i hi ↦ (Finset.mem_filter.mp hi).2,
      fun _ ↦ hcount ▸ htwo⟩
  rintro r a r' ⟨seats, h⟩ hok hs
  exact gameStep_turning hs hok h

/-- The law of the turn in a state of the loop: the turn is with a seat in the game, the
counter of the players counts them, and every play and every departure that does not end the
game passes the turn on by the rule. -/
structure TurnLaw (g : Game) : Prop where
  turn : g.whoseRound ∈ g.inGame
  players : g.playerNum = g.inGame.card
  two : 2 ≤ g.inGame.card
  plays : ∀ env l i g', GameStep g (.recv env (.line l)) g' → g.pc = .scan i →
    charAt l 0 = '9' → g'.pc ≠ .ended → ∃ cardName, arg1 (chop l) = .ok cardName ∧
      TurnAfter g.inGame g'.tableCard g (g.putDown env.residue cardName i) g' ∧
      ∀ q, findCard (g.hand i) (lookupName env.residue cardName) = some q → g'.tableCard = q
  departs : ∀ env event i g', GameStep g (.recv env event) g' → g.pc = .scan i →
    Departure event → g'.pc ≠ .ended → g'.turn = g.turn ∧
      (i = g.whoseRound → IsNext (g.inGame.erase i) g.turn i g'.whoseRound) ∧
      (i ≠ g.whoseRound → g'.whoseRound = g.whoseRound)

/-- In every game that is started with the number of the occupied seats, two at least, and in
which no UNO call or catch is settled against a seat that has left, the turn follows the law
in every state of the loop, and every search for the next player ends. -/
theorem turn_order {name : ConnId → Text} {rand : Nat → Nat} {draw playerNum : Nat} {g₀ : Game}
    (hstart : gameStart name rand draw conns playerNum = .ok g₀)
    (hcount : playerNum = (Finset.univ.filter fun i ↦ (conns i).isSome).card)
    (htwo : 2 ≤ playerNum) (hr : RunWith GameStep SettlesPresent g₀ g) :
    (g.pc ≠ .ended → TurnLaw g) ∧ ∀ (w : Seat) (turn : Fin 2),
      ∃ k, SearchEnds g.handNum turn w k (switchToNextPlayer w g.handNum turn) := by
  obtain ⟨seats, h⟩ := run_turning hstart hcount htwo hr
  refine ⟨fun hgo ↦ ?_, fun w turn ↦ searchEnds_switch g.handNum turn w⟩
  have hin := h.inGame
  refine ⟨?_, ?_, ?_, ?_, ?_⟩
  · rw [hin]
    exact h.playing.turn hgo
  · rw [hin]
    exact h.playing.seated.playerNum
  · rw [hin]
    exact h.two hgo
  · intro env l i g' hs hpc h9 hgo'
    rw [hin]
    exact play_turn h.playing hs hpc h9 hgo'
  · intro env event i g' hs hpc hd hgo'
    rw [hin]
    exact depart_turn h.playing hs hpc hd hgo'

/-- The first player of the deal in order has the turn, and the law holds. -/
theorem turn_order_inOrder :
    ∃ g, gameStart plainName (inOrder.rand 0) 0 nineSeats 9 = .ok g ∧ TurnLaw g := by
  obtain ⟨g, hg, -⟩ := gameStart_inOrder
  refine ⟨g, hg, (turn_order hg (by decide) (by decide) RunWith.refl).1 ?_⟩
  rw [(gameStart_opened hg).pc]
  exact nofun

/-! ### Three players and a counter of two -/

/-- The counters after seat 8 has come back and `gone` have left. -/
private def counters (gone : List Seat) (i : Seat) : Int :=
  if i ∈ gone then -1 else if i = 8 then 1 else if i.val < 9 then 7 else -1

private theorem update_counters (gone : List Seat) (i : Seat) :
    Function.update (counters gone) i (-1) = counters (i :: gone) := by
  funext j
  unfold counters
  by_cases hj : j = i
  · subst hj
    rw [Function.update_self, if_pos List.mem_cons_self]
  · rw [Function.update_of_ne hj]
    simp [hj]

/-- A game on nine seats that is dealt in order, with nothing to settle. -/
private structure Dwindling (pc : Pc) (who : Seat) (gone : List Seat) (n : Nat) (g : Game) :
    Prop where
  used : g.used = nineSeats
  pc : g.pc = pc
  haveUno : g.haveUno = none
  playerNum : g.playerNum = n
  handNum : g.handNum = counters gone
  whoseRound : g.whoseRound = who
  turn : g.turn = 0
  other : ∀ q : CardId, q ∈ g.hand 2 ↔ 87 ≤ q.val ∧ q.val ≤ 93

variable {who i : Seat} {gone : List Seat} {n : Nat}

/-- Who is in turn after seat `i` has left. -/
private def turnAfterLeave (who : Seat) (gone : List Seat) (i : Seat) : Seat :=
  if i = who then switchToNextPlayer who (counters (i :: gone)) 0 else who

private theorem dwindling_eof (i' who' : Seat) (h : Dwindling (.scan i) who gone n g)
    (hi : i.val + 1 = i'.val) (hi' : i'.val < 9) (hn : counters gone i ≠ -1) (hmany : 3 ≤ n)
    (hwho : turnAfterLeave who gone i = who') (hin : who'.val < 9) :
    ∃ g', g.step (.recv inOrder .eof) = .ok g' ∧
      Dwindling (.scan i') who' (i :: gone) (n - 1) g' := by
  have hconn (r : Game) (hr : r.used = nineSeats) (j : Seat) (hj : j.val < 9) :
      r.conn j = .ok (seatAsConn j) := by
    unfold conn
    rw [hr, nineSeats, if_pos hj]
  let left := ((g.leaveSeat i).emit [.setState (seatAsConn i) .empty]).sendToEveryoneInGame (some i)
    (line1 ['7'] (plainName (seatAsConn i)))
  have hfew : ¬ left.playerNum < 2 := by
    change ¬ g.playerNum - 1 < 2
    rw [h.playerNum]
    omega
  have hnum : (g.leaveSeat i).handNum = counters (i :: gone) := by
    unfold leaveSeat
    rw [h.handNum]
    exact update_counters gone i
  have hsteps (r : Game) (hr : recv inOrder i .eof g = .ok r) (hpc : r.pc = .scan i) :
      g.step (.recv inOrder .eof) = .ok { r with pc := .scan i' } := by
    have hadv : r.advance i = { r with pc := .scan i' } := by
      unfold advance
      rw [hpc]
      dsimp only
      rw [dif_pos (by omega), show (⟨i.val + 1, by omega⟩ : Seat) = i' from Fin.ext hi]
    rw [← hadv]
    refine step_recv h.pc ?_ (by rw [h.handNum]; exact hn) hr
    rw [h.used, nineSeats, if_pos (by omega)]
    rfl
  by_cases hturn : i = who
  · have hround : left.nextTurn.whoseRound = who' := by
      change switchToNextPlayer g.whoseRound (g.leaveSeat i).handNum g.turn = _
      rw [h.whoseRound, hnum, h.turn, ← hwho, turnAfterLeave, if_pos hturn]
    let told := left.nextTurn.emit (left.nextTurn.active.map fun p ↦
      .send p.2 (left.nextTurn.roundLine (recolour g.tableCard g.colour)
        (plainName (seatAsConn left.nextTurn.whoseRound)) p.1))
    have hrecv : recv inOrder i .eof g = .ok told := by
      unfold recv depart
      dsimp only
      rw [hconn g h.used i (by omega), ok_bind]
      refine (if_neg hfew).trans ((if_pos (by exact hturn.trans h.whoseRound.symm)).trans ?_)
      unfold startRound
      have hc : left.nextTurn.conn left.nextTurn.whoseRound =
          .ok (seatAsConn left.nextTurn.whoseRound) :=
        hconn left.nextTurn h.used _ (by rw [hround]; exact hin)
      change (left.nextTurn.conn left.nextTurn.whoseRound >>= _) = _
      rw [hc]
      rfl
    refine ⟨_, hsteps told hrecv h.pc, h.used, rfl, h.haveUno, ?_, hnum, hround, h.turn, h.other⟩
    exact congrArg (· - 1) h.playerNum
  · have hrecv : recv inOrder i .eof g = .ok left := by
      unfold recv depart
      dsimp only
      rw [hconn g h.used i (by omega), ok_bind]
      exact (if_neg hfew).trans (if_neg (by exact fun he ↦ hturn (he.trans h.whoseRound)))
    refine ⟨_, hsteps left hrecv h.pc, h.used, rfl, h.haveUno, ?_, hnum, ?_, h.turn, h.other⟩
    · exact congrArg (· - 1) h.playerNum
    · rw [← hwho, turnAfterLeave, if_neg hturn]
      exact h.whoseRound

private theorem dwindling_pass (k : Nat) (i' : Seat) (h : Dwindling (.scan i) who gone n g)
    (hi : i.val + k = i'.val) :
    ∃ g', runActs Game.step g (List.replicate k .pass) = .ok g' ∧
      Dwindling (.scan i') who gone n g' := by
  have hpass := runActs_pass k (by rw [hi]; exact i'.isLt) h.pc
  rw [show (⟨i.val + k, by rw [hi]; exact i'.isLt⟩ : Seat) = i' from Fin.ext hi] at hpass
  exact ⟨_, hpass, h.used, rfl, h.haveUno, h.playerNum, h.handNum, h.whoseRound, h.turn, h.other⟩

private theorem runActs_round (hpc : g.pc = .scan 9) (hu : g.haveUno = none) :
    runActs Game.step g [.pass, .settle inOrder] = .ok g.newRound := by
  obtain ⟨used, playerNum, hand, handNum, cardSeq, cardNum, whoseRound, turn, tableCard, colour,
    cardId, isUno, haveUno, timeStamp, winner, pc, out⟩ := g
  cases hpc
  cases hu
  rfl

/-- Seat 8 comes back, then all but the seats 2, 3 and 8 leave, and the loop comes to seat 2. -/
def dwindleActs : List GameAct :=
  let eof : GameAct := .recv inOrder .eof
  caughtActs ++ ([eof] ++ ([.pass, .settle inOrder] ++ ([eof] ++ ([eof] ++
    (List.replicate 2 .pass ++ ([eof] ++ ([eof] ++ ([eof] ++ ([eof] ++
      (List.replicate 1 .pass ++ ([.pass, .settle inOrder] ++ List.replicate 2 .pass)))))))))))

private theorem dwindled :
    ∃ g₀ g, gameStart plainName (inOrder.rand 0) 0 nineSeats 9 = .ok g₀ ∧
      runActs Game.step g₀ dwindleActs = .ok g ∧ Dwindling (.scan 2) 8 [7, 6, 5, 4, 1, 0] 2 g := by
  obtain ⟨g₀, g, g₁, g₂, hg₀, hg, -, hleave, -, hback, hr, -⟩ := caught_returns
  have start : Dwindling (.scan 0) 6 [] 8 g₂ :=
    ⟨hr.used, hr.pc, hr.haveUno, hr.playerNum, hr.handNum, hr.whoseRound, hr.turn, hr.other⟩
  have one {r r' : Game} {a : GameAct} (h : r.step a = .ok r') :
      runActs Game.step r [a] = .ok r' := by
    rw [runActs, h]
    rfl
  obtain ⟨r0, h0, d0⟩ := dwindling_eof 1 6 start rfl (by decide) (by decide) (by decide) rfl
    (by decide)
  obtain ⟨r1, h1, d1⟩ := dwindling_eof 2 6 d0 rfl (by decide) (by decide) (by decide) rfl
    (by decide)
  obtain ⟨r2, h2, d2⟩ := dwindling_pass 2 4 d1 rfl
  obtain ⟨r4, h4, d4⟩ := dwindling_eof 5 6 d2 rfl (by decide) (by decide) (by decide) rfl
    (by decide)
  obtain ⟨r5, h5, d5⟩ := dwindling_eof 6 6 d4 rfl (by decide) (by decide) (by decide) rfl
    (by decide)
  obtain ⟨r6, h6, d6⟩ := dwindling_eof 7 7 d5 rfl (by decide) (by decide) (by decide) rfl
    (by decide)
  obtain ⟨r7, h7, d7⟩ := dwindling_eof 8 8 d6 rfl (by decide) (by decide) (by decide) rfl
    (by decide)
  obtain ⟨r8, h8, d8⟩ := dwindling_pass 1 9 d7 rfl
  have hround := runActs_round d8.pc d8.haveUno
  have d9 : Dwindling (.scan 0) 8 [7, 6, 5, 4, 1, 0] 2 r8.newRound :=
    ⟨d8.used, rfl, rfl, d8.playerNum, d8.handNum, d8.whoseRound, d8.turn, d8.other⟩
  obtain ⟨r10, h10, d10⟩ := dwindling_pass 2 2 d9 rfl
  refine ⟨g₀, r10, hg₀, ?_, ?_⟩
  · unfold dwindleActs
    dsimp only
    rw [runActs_append, hg, ok_bind, runActs_append, one hleave, ok_bind, runActs_append, hback,
      ok_bind, runActs_append, one h0, ok_bind, runActs_append, one h1, ok_bind, runActs_append, h2,
      ok_bind, runActs_append, one h4, ok_bind, runActs_append, one h5, ok_bind, runActs_append,
      one h6, ok_bind, runActs_append, one h7, ok_bind, runActs_append, h8, ok_bind, runActs_append,
      hround, ok_bind]
    exact h10
  · exact d10

/-- The line by which seat 2 plays a reverse. -/
def reverseLine : Text := ['9', ' ', 'b', 'b', '\n']

/-- With three seats in the game one of which has come back, the server counts two players: a
reverse leaves the turn where it is, although the next seat is another one. -/
theorem reverse_among_three :
    ∃ g₀ g g', gameStart plainName (inOrder.rand 0) 0 nineSeats 9 = .ok g₀ ∧
      runActs Game.step g₀ dwindleActs = .ok g ∧ g.inGame.card = 3 ∧ g.playerNum = 2 ∧
      g.step (.recv inOrder (.line reverseLine)) = .ok g' ∧ g'.pc ≠ .ended ∧
      g'.tableCard = 90 ∧ g'.whoseRound = g.whoseRound ∧
      ¬ IsNext g.inGame g'.turn g.whoseRound g'.whoseRound := by
  obtain ⟨g₀, g, hg₀, hg, h⟩ := dwindled
  have hin : g.inGame = {2, 3, 8} := by
    unfold Game.inGame
    rw [h.used, h.handNum]
    decide
  have hhand : g.hand 2 = Finset.univ.filter fun q : CardId ↦ 87 ≤ q.val ∧ q.val ≤ 93 := by
    ext q
    rw [h.other q, Finset.mem_filter, and_iff_right (Finset.mem_univ q)]
  have hfind : findCard (g.hand 2) (lookupName inOrder.residue ['b', 'b']) = some 90 := by
    rw [hhand]
    decide +kernel
  let laid := (g.dropCard 2 90).showCard 90 'b'
  have hone : ¬ laid.handNum 2 ≤ 0 := by
    change ¬ (g.dropCard 2 90).handNum 2 ≤ 0
    rw [handNum_dropCard, h.handNum]
    decide
  have heffect : cardEffect inOrder.rand laid = .ok laid.flipTurn := by
    have hfew : ¬ laid.playerNum > 2 := by
      change ¬ g.playerNum > 2
      rw [h.playerNum]
      decide
    have hlow : ¬ (76 ≤ (90 : CardId).val ∧ (90 : CardId).val < 84) := by decide
    have hhigh : 84 ≤ (90 : CardId).val ∧ (90 : CardId).val < 92 := by decide
    unfold cardEffect
    exact (if_neg hlow).trans ((if_pos hhigh).trans (congrArg Except.ok (if_neg hfew)))
  have hconn : laid.flipTurn.conn laid.flipTurn.whoseRound = .ok 8 := by
    unfold conn
    rw [show laid.flipTurn.used = nineSeats from h.used,
      show laid.flipTurn.whoseRound = 8 from h.whoseRound]
    rfl
  let told := laid.flipTurn.emit (laid.flipTurn.active.map fun p ↦
    .send p.2 (laid.flipTurn.roundLine ['b', 'b'] (inOrder.name 8) p.1))
  have hplay : recv inOrder 2 (.line reverseLine) g = .ok told := by
    rw [recv_play rfl, play_eq (w := ['b', 'b']) rfl hfind]
    refine (if_neg hone).trans ?_
    change (cardEffect inOrder.rand laid >>= startRound inOrder.name ['b', 'b']) = _
    rw [heffect, ok_bind]
    unfold startRound
    rw [hconn]
    rfl
  have hstep : g.step (.recv inOrder (.line reverseLine)) = .ok (told.advance 2) :=
    step_recv h.pc (by rw [h.used]; rfl) (by rw [h.handNum]; decide) hplay
  have hadv : told.advance 2 = { told with pc := .scan 3 } := by
    unfold advance
    rw [show told.pc = .scan 2 from h.pc]
    rfl
  rw [hadv] at hstep
  refine ⟨g₀, g, _, hg₀, hg, by rw [hin]; rfl, h.playerNum, hstep, Pc.noConfusion, rfl, rfl, ?_⟩
  intro hnext
  refine hnext.ne (i := 2) ?_ ?_ rfl
  · rw [hin]
    decide
  · rw [h.whoseRound]
    decide

end Unpv13e.Uno
