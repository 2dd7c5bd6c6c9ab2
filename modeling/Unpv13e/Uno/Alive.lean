import Unpv13e.Uno.Turns

/-!
# Games that go on

Library `Uno`. What holds between two steps of a running game: two seats at least are in it, each of
them with a connection and a card, and the pile is short of a whole deck.
-/

namespace Unpv13e.Uno
open Unpv13e.Base Game

variable {g g' r : Game}

/-- The seats in the game, when each of them has a connection. -/
theorem mem_inGame (hconns : ∀ i, g.handNum i ≠ -1 → (g.used i).isSome) (i : Seat) :
    i ∈ g.inGame ↔ g.handNum i ≠ -1 := by
  unfold inGame
  rw [Finset.mem_filter]
  exact ⟨fun h ↦ h.2.2, fun h ↦ ⟨Finset.mem_univ i, hconns i h, h⟩⟩

/-! ### Drawing cards -/

/-- What drawing `n` cards for seat `w` leaves as it was. -/
structure CardsGiven (w : Seat) (n : Nat) (g g' : Game) : Prop where
  seated : 0 < n → (g.used w).isSome
  used : g'.used = g.used
  playerNum : g'.playerNum = g.playerNum
  handNum : g'.handNum = Function.update g.handNum w (g.handNum w + n)
  whoseRound : g'.whoseRound = g.whoseRound
  turn : g'.turn = g.turn
  tableCard : g'.tableCard = g.tableCard
  colour : g'.colour = g.colour
  pc : g'.pc = g.pc
  pile : g.cardNum < 108 → g'.cardNum < 108

theorem cardsGiven_giveFrom {rand : Nat → Nat → Nat} {w : Seat} (k n : Nat) (adopted : Finset CardId)
    (h : giveFrom rand w k n adopted g = .ok g') : CardsGiven w n g g' := by
  induction n generalizing k adopted g with
  | zero =>
    cases h
    refine ⟨fun h ↦ absurd h (Nat.lt_irrefl 0), rfl, rfl, ?_, rfl, rfl, rfl, rfl, rfl, id⟩
    rw [Nat.cast_zero, add_zero, Function.update_eq_self]
  | succ n ih =>
    obtain ⟨s, hs, h⟩ := exists_of_bind_ok h
    obtain ⟨c, hc, hs⟩ := exists_of_bind_ok hs
    split at hs
    · cases hs
    next hn =>
    cases hs
    have hrest := ih _ _ h
    obtain ⟨seq, num, out, hsup⟩ : ∃ seq num out, (g.supply (rand k) adopted).2 =
        { g with cardSeq := seq, cardNum := num, out := out } := by
      unfold supply
      split
      · exact ⟨_, _, _, rfl⟩
      · exact ⟨_, _, _, rfl⟩
    rw [hsup] at hc hn hrest
    refine ⟨fun _ ↦ ?_, hrest.used, hrest.playerNum, ?_, hrest.whoseRound, hrest.turn,
      hrest.tableCard, hrest.colour, hrest.pc, fun _ ↦ hrest.pile ?_⟩
    · have hused : g.used w = some c := used_of_conn hc
      rw [hused]
      rfl
    · have htop : (Game.takeTop w c { g with cardSeq := seq, cardNum := num, out := out }).handNum =
          Function.update g.handNum w (g.handNum w + 1) := rfl
      rw [hrest.handNum, htop, Function.update_self, Function.update_idem]
      congr 1
      push_cast
      ring
    · change num - 1 < 108
      dsimp only at hn
      omega

/-! ### Seats with cards -/

/-- Between two steps of a game: at least two seats are in it, each with a connection and a card, one of
them has the turn, and a card is missing from the pile. -/
structure Alive (g : Game) : Prop where
  conns : ∀ i, g.handNum i ≠ -1 → (g.used i).isSome
  cards : ∀ i, g.handNum i ≠ -1 → 1 ≤ g.handNum i
  turn : g.handNum g.whoseRound ≠ -1
  many : g.playerNum ≤ g.inGame.card
  two : 2 ≤ g.playerNum
  pile : g.cardNum < 108

/-- What the invariant depends on. -/
theorem Alive.congr (h : Alive g) (hu : g'.used = g.used) (hn : g'.handNum = g.handNum)
    (hw : g'.whoseRound = g.whoseRound) (hp : g'.playerNum = g.playerNum)
    (hc : g'.cardNum = g.cardNum) : Alive g' := by
  refine ⟨?_, ?_, ?_, ?_, ?_, ?_⟩
  · rw [hu, hn]
    exact h.conns
  · rw [hn]
    exact h.cards
  · rw [hn, hw]
    exact h.turn
  · unfold inGame
    rw [hu, hn, hp]
    exact h.many
  · rw [hp]
    exact h.two
  · rw [hc]
    exact h.pile

/-- The turn goes to a seat in the game. -/
theorem Alive.nextTurn (h : Alive g) : Alive g.nextTurn :=
  ⟨h.conns, h.cards, seated_switch g.turn h.turn, h.many, h.two, h.pile⟩

/-- Cards are drawn for a seat in the game, or two of them for one that has left. -/
private theorem Alive.drawn {w : Seat} {n : Nat} (h : Alive g) (hd : CardsGiven w n g g')
    (hn : g.handNum w ≠ -1 ∨ n = 2) : Alive g' := by
  have hsame (i : Seat) (hi : i ≠ w) : g'.handNum i = g.handNum i := by
    rw [hd.handNum, Function.update_of_ne hi]
  have hself : g'.handNum w = g.handNum w + n := by
    rw [hd.handNum, Function.update_self]
  have hcard := h.cards w
  have hstays (i : Seat) (hi : g.handNum i ≠ -1) : g'.handNum i ≠ -1 := by
    by_cases hiw : i = w
    · subst hiw
      have := hcard hi
      omega
    · rw [hsame i hiw]
      exact hi
  have hconns (i : Seat) (hi : g'.handNum i ≠ -1) : (g'.used i).isSome := by
    rw [hd.used]
    by_cases hiw : i = w
    · subst hiw
      rcases hn with hn | rfl
      · exact h.conns i hn
      · exact hd.seated (by decide)
    · rw [hsame i hiw] at hi
      exact h.conns i hi
  refine ⟨hconns, fun i hi ↦ ?_, ?_, ?_, ?_, ?_⟩
  · by_cases hiw : i = w
    · subst hiw
      rcases hn with hn | rfl
      · have := hcard hn
        omega
      · by_cases hold : g.handNum i = -1
        · omega
        · have := hcard hold
          omega
    · rw [hsame i hiw] at hi ⊢
      exact h.cards i hi
  · rw [hd.whoseRound]
    exact hstays _ h.turn
  · rw [hd.playerNum]
    refine le_trans h.many (Finset.card_le_card fun i hi ↦ ?_)
    exact (mem_inGame hconns i).mpr (hstays i ((mem_inGame h.conns i).mp hi))
  · rw [hd.playerNum]
    exact h.two
  · exact hd.pile h.pile

private theorem Alive.startRound {name : ConnId → Text} {tableCard : Text} (h : Alive g)
    (hs : startRound name tableCard g = .ok g') : Alive g' := by
  obtain ⟨c, -, rfl⟩ := startRound_emits hs
  exact h.congr rfl rfl rfl rfl rfl

private theorem Alive.cardEffect {rand : Nat → Nat → Nat} (h : Alive g)
    (hs : cardEffect rand g = .ok g') : Alive g' := by
  have drawn {n : Nat} (hs : drawAndSkip rand n g = .ok g') : Alive g' := by
    obtain ⟨r, hr, hs⟩ := exists_of_bind_ok hs
    cases hs
    exact (h.nextTurn.drawn (cardsGiven_giveFrom 0 n ∅ hr) (.inl h.nextTurn.turn)).nextTurn
  unfold Game.cardEffect at hs
  dsimp only at hs
  split at hs
  · cases hs
    exact h.nextTurn.nextTurn
  split at hs
  · cases hs
    have hflip : Alive g.flipTurn := h.congr rfl rfl rfl rfl rfl
    split
    · exact hflip.nextTurn
    · exact hflip
  split at hs
  · exact drawn hs
  split at hs
  · exact drawn hs
  · cases hs
    exact h.nextTurn

private theorem Alive.depart {env : Env} {state : ConnState} {i : Seat} (h : Alive g)
    (hi : g.handNum i ≠ -1) (hs : depart env state i g = .ok g') : g'.pc = .ended ∨ Alive g' := by
  obtain ⟨c, -, hs⟩ := exists_of_bind_ok hs
  dsimp only at hs
  split at hs
  · unfold winByDeparture at hs
    split at hs
    · cases hs
    cases hs
    exact .inl rfl
  next hmany =>
  have hmany' : 2 ≤ g.playerNum - 1 := Nat.le_of_not_lt hmany
  let sent := ((g.leaveSeat i).emit [.setState c state]).sendToEveryoneInGame (some i)
    (line1 ['7'] (env.name c))
  have hsent : sent.handNum = Function.update g.handNum i (-1) := rfl
  have hother (j : Seat) (hj : sent.handNum j ≠ -1) : j ≠ i ∧ sent.handNum j = g.handNum j := by
    have hji : j ≠ i := by
      rintro rfl
      rw [hsent, Function.update_self] at hj
      exact hj rfl
    exact ⟨hji, by rw [hsent, Function.update_of_ne hji]⟩
  have hconns (j : Seat) (hj : sent.handNum j ≠ -1) : (sent.used j).isSome := by
    obtain ⟨-, he⟩ := hother j hj
    rw [he] at hj
    exact h.conns j hj
  have hgame : sent.inGame = g.inGame.erase i := by
    ext j
    rw [Finset.mem_erase, mem_inGame hconns, mem_inGame h.conns, hsent]
    by_cases hj : j = i
    · subst hj
      simp
    · simp [hj]
  have hcount : sent.playerNum ≤ sent.inGame.card := by
    rw [hgame, Finset.card_erase_of_mem ((mem_inGame h.conns i).mpr hi)]
    exact Nat.sub_le_sub_right h.many 1
  have hcards (j : Seat) (hj : sent.handNum j ≠ -1) : 1 ≤ sent.handNum j := by
    obtain ⟨-, he⟩ := hother j hj
    rw [he] at hj ⊢
    exact h.cards j hj
  split at hs
  · next hturn =>
    obtain ⟨j, hj⟩ : ∃ j, j ∈ sent.inGame := by
      have hpos : 0 < sent.inGame.card := lt_of_lt_of_le (by omega) (le_trans hmany' hcount)
      exact Finset.card_pos.mp hpos
    have hj' := (mem_inGame hconns j).mp hj
    have hne : j ≠ sent.whoseRound := fun he ↦ (hother j hj').1 (he.trans hturn.symm)
    have hnext : Alive sent.nextTurn :=
      ⟨hconns, hcards, seated_switch_of_other sent.turn hne hj', hcount, hmany', h.pile⟩
    exact .inr (hnext.startRound hs)
  · next hturn =>
    cases hs
    refine .inr ⟨hconns, hcards, ?_, hcount, hmany', h.pile⟩
    have hne : g.whoseRound ≠ i := fun he ↦ hturn he.symm
    change Function.update g.handNum i (-1) g.whoseRound ≠ -1
    rw [Function.update_of_ne hne]
    exact h.turn

/-- A card has been put down and the player has another. -/
theorem Alive.shown {residue cardName : Text} {i : Seat} {q : CardId} {c : Char} (h : Alive g)
    (hi : g.handNum i ≠ -1) (hpos : 0 < (g.putDown residue cardName i).handNum i) :
    Alive ((g.putDown residue cardName i).showCard q c) := by
  have hput : (∀ j, j ≠ i → (g.putDown residue cardName i).handNum j = g.handNum j) ∧
      (g.putDown residue cardName i).used = g.used ∧
      (g.putDown residue cardName i).whoseRound = g.whoseRound ∧
      (g.putDown residue cardName i).playerNum = g.playerNum ∧
      (g.putDown residue cardName i).cardNum = g.cardNum := by
    unfold putDown
    split
    · next q hq => exact ⟨fun j hj ↦ handNum_dropCard_of_ne hj q g, rfl, rfl, rfl, rfl⟩
    · exact ⟨fun j _ ↦ rfl, rfl, rfl, rfl, rfl⟩
  generalize g.putDown residue cardName i = r at hpos hput
  obtain ⟨hnum, hused, hwho, hplayers, hpile⟩ := hput
  have hgame (j : Seat) : r.handNum j ≠ -1 ↔ g.handNum j ≠ -1 := by
    by_cases hj : j = i
    · subst hj
      exact iff_of_true (by omega) hi
    · rw [hnum j hj]
  refine ⟨fun j hj ↦ ?_, fun j hj ↦ ?_, ?_, ?_, ?_, ?_⟩
  · change (r.used j).isSome
    rw [hused]
    exact h.conns j ((hgame j).mp hj)
  · change 1 ≤ r.handNum j
    by_cases hji : j = i
    · subst hji
      omega
    · rw [hnum j hji]
      exact h.cards j ((hgame j).mp hj)
  · change r.handNum r.whoseRound ≠ -1
    rw [hwho]
    exact (hgame _).mpr h.turn
  · have hsame : r.inGame = g.inGame := by
      unfold inGame
      rw [hused]
      exact Finset.filter_congr fun j _ ↦ and_congr_right fun _ ↦ hgame j
    change r.playerNum ≤ r.inGame.card
    rw [hplayers, hsame]
    exact h.many
  · change 2 ≤ r.playerNum
    rw [hplayers]
    exact h.two
  · change r.cardNum < 108
    rw [hpile]
    exact h.pile

private theorem Alive.play {env : Env} {i : Seat} {l : Text} (h : Alive g)
    (hi : g.handNum i ≠ -1) (hs : play env i l g = .ok g') : g'.pc = .ended ∨ Alive g' := by
  obtain ⟨cardName, -, hs⟩ := exists_of_bind_ok hs
  dsimp only at hs
  split at hs
  · cases hs
  next q hid =>
  split at hs
  · obtain ⟨c, -, hs⟩ := exists_of_bind_ok hs
    split at hs
    · cases hs
    cases hs
    exact .inl rfl
  · next hpos =>
    obtain ⟨t, ht, hs⟩ := exists_of_bind_ok hs
    have hshown : Alive ((g.putDown env.residue cardName i).showCard q (charAt cardName 1)) :=
      h.shown hi (Int.not_le.mp hpos)
    exact .inr ((hshown.cardEffect ht).startRound hs)

private theorem Alive.stamp {i : Seat} {w : Except Stop Text} (h : Alive g)
    (hs : stamp i w g = .ok g') : Alive g' := by
  unfold Game.stamp at hs
  split at hs
  · obtain ⟨t, -, hs⟩ := exists_of_bind_ok hs
    cases hs
    exact h.congr rfl rfl rfl rfl rfl
  · cases hs
    exact h

private theorem Alive.recv {env : Env} {i : Seat} {event : Event} (h : Alive g)
    (hi : g.handNum i ≠ -1) (hs : recv env i event g = .ok g') : g'.pc = .ended ∨ Alive g' := by
  cases event with
  | eof => exact h.depart hi hs
  | line recvline =>
    unfold Game.recv at hs
    dsimp only at hs
    split at hs
    · exact h.depart hi hs
    split at hs
    · cases hs
      exact .inr (h.congr rfl rfl rfl rfl rfl)
    split at hs
    · exact h.play hi hs
    split at hs
    · obtain ⟨r, hr, hs⟩ := exists_of_bind_ok hs
      have hdrawn := h.drawn (cardsGiven_giveFrom 0 1 ∅ hr) (.inl h.turn)
      exact .inr (hdrawn.nextTurn.startRound hs)
    split at hs
    · obtain ⟨valid, -, hs⟩ := exists_of_bind_ok hs
      split at hs
      · obtain ⟨r, hr, hs⟩ := exists_of_bind_ok hs
        obtain ⟨c, -, hs⟩ := exists_of_bind_ok hs
        cases hs
        exact .inr ((h.drawn (cardsGiven_giveFrom 0 2 ∅ hr) (.inr rfl)).congr rfl rfl rfl rfl rfl)
      split at hs
      · have hset : Alive (g.setUno (some i)) := h.congr rfl rfl rfl rfl rfl
        exact .inr (hset.stamp hs)
      · cases hs
        exact .inr h
    split at hs
    · obtain ⟨valid, -, hs⟩ := exists_of_bind_ok hs
      split at hs
      · obtain ⟨r, hr, hs⟩ := exists_of_bind_ok hs
        obtain ⟨c, -, hs⟩ := exists_of_bind_ok hs
        obtain ⟨w, -, hs⟩ := exists_of_bind_ok hs
        cases hs
        exact .inr ((h.drawn (cardsGiven_giveFrom 0 2 ∅ hr) (.inr rfl)).congr rfl rfl rfl rfl rfl)
      · obtain ⟨named, -, hs⟩ := exists_of_bind_ok hs
        cases named with
        | none => cases hs
        | some j =>
          dsimp only at hs
          split at hs
          · have hset : Alive (g.setUno (some j)) := h.congr rfl rfl rfl rfl rfl
            exact .inr (hset.stamp hs)
          · cases hs
            exact .inr (h.congr rfl rfl rfl rfl rfl)
    · cases hs
      exact .inr h

private theorem Alive.settle {env : Env} (h : Alive g) (hs : settle env g = .ok g') : Alive g' := by
  obtain ⟨r, hr, hs⟩ := exists_of_bind_ok hs
  cases hs
  have halive : Alive r := by
    cases hu : g.haveUno with
    | none =>
      rw [hu] at hr
      cases hr
      exact h
    | some u =>
      rw [hu] at hr
      obtain ⟨c, -, hr⟩ := exists_of_bind_ok hr
      split at hr
      · cases hr
        exact h.congr rfl rfl rfl rfl rfl
      · obtain ⟨c', -, hr⟩ := exists_of_bind_ok hr
        obtain ⟨t, ht, hr⟩ := exists_of_bind_ok hr
        cases hr
        exact (h.drawn (cardsGiven_giveFrom 0 2 ∅ ht) (.inr rfl)).congr rfl rfl rfl rfl rfl
  exact halive.congr rfl rfl rfl rfl rfl

private theorem Alive.advance (h : Alive g) (i : Seat) : Alive (g.advance i) := by
  have hbooks : Books g (g.advance i) := books_advance i
  exact h.congr hbooks.used hbooks.handNum hbooks.whoseRound hbooks.playerNum hbooks.cardNum

/-- Until the game ends two seats are in it, with a card each. -/
theorem Alive.step {a : GameAct} (h : Alive g) (hs : GameStep g a g') :
    g'.pc = .ended ∨ Alive g' := by
  cases a with
  | pass =>
    unfold GameStep Game.step at hs
    dsimp only at hs
    split at hs
    · cases hs
      exact .inr (h.advance _)
    · cases hs
  | recv env event =>
    obtain ⟨i, r, -, hi, -, hr, rfl⟩ := recv_step hs
    rcases h.recv hi hr with hend | hr
    · refine .inl ?_
      unfold Game.advance
      rw [hend]
      exact hend
    · exact .inr (hr.advance i)
  | settle env =>
    unfold GameStep Game.step at hs
    dsimp only at hs
    split at hs
    · exact .inr (h.settle hs)
    · cases hs

/-- The table card is missing from the first pile. -/
private theorem opened_pile {used : Seat → Option ConnId} {playerNum draw : Nat}
    (h : Opened used playerNum draw g) : g.cardNum < 108 := by
  obtain ⟨place, hplace, hout, -⟩ := h.accounted
  have hinj : Set.InjOn g.cardSeq (Finset.range g.cardNum) := by
    intro j hj k hk he
    exact hplace.inj j k (Finset.mem_range.mp hj) (Finset.mem_range.mp hk) he
  have hmissing : (Finset.range g.cardNum).image g.cardSeq ⊆ Finset.univ.erase g.tableCard := by
    intro q hq
    obtain ⟨k, hk, rfl⟩ := Finset.mem_image.mp hq
    refine Finset.mem_erase.mpr ⟨?_, Finset.mem_univ _⟩
    exact hplace.out_not_pile hout (Finset.mem_range.mp hk)
  have hle := Finset.card_le_card hmissing
  rw [Finset.card_image_of_injOn hinj, Finset.card_range,
    Finset.card_erase_of_mem (Finset.mem_univ _)] at hle
  exact Nat.lt_of_le_of_lt hle (by decide)

/-- At least two players begin the game. -/
theorem gameStart_alive {name : ConnId → Text} {rand : Nat → Nat} {draw playerNum : Nat}
    {used : Seat → Option ConnId} (hstart : gameStart name rand draw used playerNum = .ok g)
    (hcount : playerNum = (Finset.univ.filter fun i ↦ (used i).isSome).card)
    (htwo : 2 ≤ playerNum) : Alive g := by
  have hopen := gameStart_opened hstart
  have hp := (gameStart_playing hstart hcount)
  have hin (i : Seat) : g.handNum i ≠ -1 ↔ (used i).isSome := by
    rw [hopen.handNum i]
    split
    · next hu => exact iff_of_true (by decide) hu
    · next hu => exact iff_of_false (by decide) hu
  have hconns (i : Seat) (hi : g.handNum i ≠ -1) : (g.used i).isSome := by
    rw [hopen.seats]
    exact (hin i).mp hi
  refine ⟨hconns, fun i hi ↦ ?_, ?_, ?_, ?_, opened_pile hopen⟩
  · rw [hopen.handNum i, if_pos ((hin i).mp hi)]
    decide
  · have hturn := hp.turn (by rw [hopen.pc]; exact nofun)
    exact (hp.seated.handNum _).mpr hturn
  · rw [hopen.players, hcount]
    exact Finset.card_le_card fun i hi ↦ (mem_inGame hconns i).mpr ((hin i).mpr (Finset.mem_filter.mp hi).2)
  · rw [hopen.players]
    exact htwo

/-- Every game goes on like that until it is over. -/
theorem run_alive {name : ConnId → Text} {rand : Nat → Nat} {draw playerNum : Nat}
    {used : Seat → Option ConnId} {g₀ : Game}
    (hstart : gameStart name rand draw used playerNum = .ok g₀)
    (hcount : playerNum = (Finset.univ.filter fun i ↦ (used i).isSome).card)
    (htwo : 2 ≤ playerNum) (hr : Run GameStep g₀ g) : g.pc = .ended ∨ Alive g := by
  refine RunWith.preserves (I := fun g ↦ g.pc = .ended ∨ Alive g) ?_ hr
    (.inr (gameStart_alive hstart hcount htwo))
  rintro r a t (hend | h) - hs
  · unfold GameStep Game.step at hs
    rw [hend] at hs
    cases a <;> cases hs
  · exact h.step hs

end Unpv13e.Uno
