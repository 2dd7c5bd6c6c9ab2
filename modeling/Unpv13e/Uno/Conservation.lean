import Unpv13e.Uno.Moves
import Unpv13e.Uno.Opening

/-!
# Cards and counters of a running game

Library `Uno`. As long as `GiveCardToPlayer` does not run out of cards, every card is in one
place and the counters `hand_num[]` agree with the hands. The reshuffle of
`src/tcpcliserv/final_server.c:253–262` breaks both: it collects the cards nobody holds in
`card_seq` and has `shuffle` overwrite them with the ids from 0 on.
-/

namespace Unpv13e.Uno
open Unpv13e.Base Game

/-- No card is in two places, as far as seats still in the game are concerned. -/
structure Conserved (g : Game) : Prop where
  pile : ∀ j k, j < g.cardNum → k < g.cardNum → g.cardSeq j = g.cardSeq k → j = k
  hands : ∀ i j q, g.handNum i ≠ -1 → g.handNum j ≠ -1 → q ∈ g.hand i → q ∈ g.hand j → i = j
  apart : ∀ i k, g.handNum i ≠ -1 → k < g.cardNum → g.cardSeq k ∉ g.hand i
  tablePile : ∀ k, k < g.cardNum → g.cardSeq k ≠ g.tableCard
  tableHand : ∀ i, g.handNum i ≠ -1 → g.tableCard ∉ g.hand i

/-- The pile has as many cards as the step hands out. -/
def PileLasts (g : Game) (a : GameAct) : Prop := ∀ w n, g.handOut a = some (w, n) → n ≤ g.cardNum

/-- Cards are handed out to seats still in the game only. -/
def SeatedDraw (g : Game) (a : GameAct) : Prop :=
  ∀ w n, g.handOut a = some (w, n) → g.handNum w ≠ -1

/-- The counter of every seat still in the game is the number of its cards. -/
def CountersTrue (g : Game) : Prop := ∀ i, g.handNum i ≠ -1 → g.handNum i = (g.hand i).card

/-- The effects hold a line `15`. -/
def Declares (es : List Effect) : Prop := ∃ c line, .send c line ∈ es ∧ IsResult line

variable {p : Plan} {g g' : Game} {m : Move}

/-! ### Every card in one place -/

private theorem accounted_congr (hd : g'.dealt = g.dealt) (ht : g'.tableCard = g.tableCard)
    (hc : g'.cardId = g.cardId) (h : Accounted g) : Accounted g' := by
  obtain ⟨place, hp, htable, hcard⟩ := h
  refine ⟨place, hd ▸ hp, ht ▸ htable, ?_⟩
  rw [hc]
  exact hcard

private theorem accounted_top (w : Seat) (c : ConnId) (hpos : 0 < g.cardNum)
    (h : Accounted g) : Accounted (g.takeTop w c) := by
  obtain ⟨place, hp, htable, hcard⟩ := h
  have hne {q : CardId} (hq : place q = .out) : q ≠ g.cardSeq (g.cardNum - 1) := by
    have hlt : g.cardNum - 1 < g.dealt.size := Nat.sub_lt hpos Nat.one_pos
    exact (hp.out_not_pile hq hlt).symm
  refine ⟨_, hp.top hpos w, ?_, ?_⟩
  · exact (Function.update_of_ne (hne htable) _ _).trans htable
  · intro q hq
    exact (Function.update_of_ne (hne (hcard q hq)) _ _).trans (hcard q hq)

private theorem accounted_drop {i : Seat} {q : CardId} (hq : q ∈ g.hand i) (h : Accounted g) :
    Accounted (g.dropCard i q) := by
  obtain ⟨place, hp, htable, -⟩ := h
  refine ⟨_, hp.discard (i := i) hq, ?_, ?_⟩
  · by_cases he : g.tableCard = q
    · change Function.update place q .out g.tableCard = _
      rw [he, Function.update_self]
    · exact (Function.update_of_ne he _ _).trans htable
  · intro r hr
    cases hr
    exact Function.update_self _ _ _

/-- Every move but the reshuffle keeps every card in one place. -/
theorem moveStep_accounted (hm : MoveStep g m g') (hno : m ≠ .refill) (h : Accounted g) :
    Accounted g' := by
  cases m with
  | book =>
    refine accounted_congr ?_ hm.tableCard hm.cardId h
    unfold dealt
    rw [hm.cardSeq, hm.cardNum, hm.hand]
  | turn =>
    cases hm
    exact accounted_congr rfl rfl rfl h
  | say es =>
    cases hm
    exact accounted_congr rfl rfl rfl h
  | round name tableCard =>
    obtain ⟨c, -, rfl⟩ := startRound_emits hm
    exact accounted_congr rfl rfl rfl h
  | leave i state =>
    obtain ⟨c, -, rfl⟩ := hm
    exact accounted_congr rfl rfl rfl h
  | drop i q =>
    obtain ⟨-, hq, rfl⟩ := hm
    exact accounted_drop hq h
  | table =>
    obtain ⟨q, colour, hid, rfl⟩ := hm
    obtain ⟨place, hp, -, hcard⟩ := h
    exact ⟨place, hp, hcard q hid, hcard⟩
  | top w =>
    obtain ⟨c, -, hpos, rfl⟩ := hm
    exact accounted_top w c hpos h
  | refill => exact absurd rfl hno
  | finish es winner =>
    cases hm
    exact accounted_congr rfl rfl rfl h

private theorem not_refill {a : GameAct} {r : Game} (hlast : PileLasts g a)
    (hm : Allowed (g.plan a) r m) : m ≠ .refill := by
  rintro rfl
  obtain ⟨w, n, hdue, hlt⟩ := hm
  rw [plan_due] at hdue
  rw [plan_pile] at hlt
  exact absurd (hlast w n hdue) (Nat.not_le_of_lt hlt)

/-- A step for which the pile lasts keeps every card in one place. -/
theorem gameStep_accounted {a : GameAct} (hlast : PileLasts g a) (hs : GameStep g a g')
    (h : Accounted g) : Accounted g' := by
  refine RunWith.preserves (I := Accounted) ?_ (step_moves hs) h
  intro r m r' hr hok hm
  exact moveStep_accounted hm (not_refill hlast hok) hr

/-- One place for every card is more than `Conserved` asks for. -/
theorem Accounted.conserved (h : Accounted g) : Conserved g := by
  obtain ⟨place, hp, htable, -⟩ := h
  exact
    { pile := hp.inj
      hands := fun i j q _ _ hi hj ↦ hp.hand_unique hi hj
      apart := fun i k _ hk ↦ hp.pile_not_hand hk i
      tablePile := fun k hk ↦ hp.out_not_pile htable hk
      tableHand := fun i _ ↦ hp.out_not_hand htable i }

/-- In every game in which the pile never runs short, no card is in two places. -/
theorem conserved_of_pileLasts {name : ConnId → Text} {rand : Nat → Nat} {draw playerNum : Nat}
    {used : Seat → Option ConnId} (h : gameStart name rand draw used playerNum = .ok g)
    (hr : RunWith GameStep PileLasts g g') : Conserved g' := by
  have hopen := (gameStart_opened h).accounted
  refine Accounted.conserved (RunWith.preserves (I := Accounted) ?_ hr hopen)
  intro r a r' hacc hlast hs
  exact gameStep_accounted hlast hs hacc

/-! ### Counters and hands -/

/-- The state a step passes through before it hands out cards: what a seat is given is not
in its hand already, and the seat that is given cards is still in the game. -/
private structure Tallied (p : Plan) (g : Game) : Prop where
  accounted : Accounted g
  counters : CountersTrue g
  seated : ∀ w n, p.due = some (w, n) → g.handNum w ≠ -1

private theorem counters_top {w : Seat} {c : ConnId} (hpos : 0 < g.cardNum)
    (hw : g.handNum w ≠ -1) (hacc : Accounted g) (h : CountersTrue g) :
    CountersTrue (g.takeTop w c) := by
  intro i hi
  obtain ⟨place, hp, -, -⟩ := hacc
  by_cases he : i = w
  · subst he
    have hcard : ((g.takeTop i c).hand i).card = (g.hand i).card + 1 := hp.card_top hpos i
    rw [handNum_takeTop, hcard, h i hw]
    rfl
  · rw [handNum_takeTop_of_ne he] at hi ⊢
    rw [hand_takeTop_of_ne he, h i hi]

private theorem handNum_drop_ne {i : Seat} {q : CardId} (hq : q ∈ g.hand i)
    (hi : g.handNum i ≠ -1) (h : CountersTrue g) : (g.dropCard i q).handNum i ≠ -1 := by
  have hpos := Finset.card_pos.mpr ⟨q, hq⟩
  have := h i hi
  rw [handNum_dropCard]
  omega

private theorem counters_drop {i : Seat} {q : CardId} (hq : q ∈ g.hand i)
    (hi : g.handNum i ≠ -1) (h : CountersTrue g) : CountersTrue (g.dropCard i q) := by
  intro j hj
  by_cases he : j = i
  · subst he
    have hpos := Finset.card_pos.mpr ⟨q, hq⟩
    rw [handNum_dropCard, hand_dropCard, Finset.card_erase_of_mem hq, h j hi]
    omega
  · rw [handNum_dropCard_of_ne he] at hj ⊢
    rw [hand_dropCard_of_ne he, h j hj]

private theorem tallied_congr (hacc : Accounted g') (hh : g'.hand = g.hand)
    (hn : g'.handNum = g.handNum) (h : Tallied p g) : Tallied p g' where
  accounted := hacc
  counters := by
    intro i hi
    rw [hn] at hi ⊢
    rw [hh, h.counters i hi]
  seated := by
    rw [hn]
    exact h.seated

private theorem moveStep_tallied (hm : MoveStep g m g') (hno : m ≠ .refill)
    (hok : Allowed p g m) (h : Tallied p g) : Tallied p g' := by
  have hacc := moveStep_accounted hm hno h.accounted
  cases m with
  | book => exact tallied_congr (g := g) hacc hm.hand hm.handNum h
  | turn =>
    cases hm
    exact tallied_congr (g := g) hacc rfl rfl h
  | say es =>
    cases hm
    exact tallied_congr (g := g) hacc rfl rfl h
  | round name tableCard =>
    obtain ⟨c, -, rfl⟩ := startRound_emits hm
    exact tallied_congr (g := g) hacc rfl rfl h
  | leave i state =>
    obtain ⟨c, -, rfl⟩ := hm
    have hdue : p.due = none := hok.1
    refine ⟨hacc, ?_, ?_⟩
    · intro j hj
      change (g.leaveSeat i).handNum j ≠ -1 at hj
      change (g.leaveSeat i).handNum j = _
      by_cases he : j = i
      · subst he
        exact absurd (handNum_leaveSeat j g) hj
      · rw [handNum_leaveSeat_of_ne he] at hj ⊢
        exact h.counters j hj
    · intro w n hw
      rw [hdue] at hw
      cases hw
  | drop i q =>
    obtain ⟨hi, hq, rfl⟩ := hm
    refine ⟨hacc, counters_drop hq hi h.counters, ?_⟩
    intro w n hw
    by_cases he : w = i
    · subst he
      exact handNum_drop_ne hq hi h.counters
    · rw [handNum_dropCard_of_ne he]
      exact h.seated w n hw
  | table =>
    obtain ⟨q, colour, -, rfl⟩ := hm
    exact tallied_congr (g := g) hacc rfl rfl h
  | top w =>
    obtain ⟨c, -, hpos, rfl⟩ := hm
    obtain ⟨n, hdue⟩ := hok
    have hw := h.seated w n hdue
    have hcount := counters_top (c := c) hpos hw h.accounted h.counters
    refine ⟨hacc, hcount, ?_⟩
    intro v k hv
    by_cases he : v = w
    · subst he
      have := h.counters v hw
      rw [handNum_takeTop]
      omega
    · rw [handNum_takeTop_of_ne he]
      exact h.seated v k hv
  | refill => exact absurd rfl hno
  | finish es winner =>
    cases hm
    exact tallied_congr (g := g) hacc rfl rfl h

/-- A step that has enough cards, all for seats still in the game, keeps the counters true. -/
theorem gameStep_countersTrue {a : GameAct} (hlast : PileLasts g a) (hseat : SeatedDraw g a)
    (hs : GameStep g a g') (hacc : Accounted g) (h : CountersTrue g) : CountersTrue g' := by
  have ht : Tallied (g.plan a) g := ⟨hacc, h, fun w n hw ↦ hseat w n (plan_due g a ▸ hw)⟩
  refine (RunWith.preserves (I := Tallied (g.plan a)) ?_ (step_moves hs) ht).counters
  intro r m r' hr hok hm
  exact moveStep_tallied hm (not_refill hlast hok) hok hr

/-! ### The end of a game by play -/

/-- What drawing cards and lines to the players leave as it is, and what it adds. -/
structure Supplied (g g' : Game) : Prop where
  hand : ∀ i, g.hand i ⊆ g'.hand i
  out : ∃ es, g'.out = g.out ++ es ∧ ¬ Declares es

/-- Effects without a result, one after the other. -/
theorem not_declares_append {es es' : List Effect} (h : ¬ Declares es)
    (h' : ¬ Declares es') : ¬ Declares (es ++ es') := by
  rintro ⟨c, line, hm, hres⟩
  rcases List.mem_append.mp hm with hm | hm
  · exact h ⟨c, line, hm, hres⟩
  · exact h' ⟨c, line, hm, hres⟩

private theorem not_declares_map {α : Type} (ps : List α) (conn : α → ConnId) (line : α → Text)
    (hop : ∀ p, ¬ IsResult (line p)) : ¬ Declares (ps.map fun p ↦ .send (conn p) (line p)) := by
  rintro ⟨c, l, hm, hres⟩
  obtain ⟨p, -, he⟩ := List.mem_map.mp hm
  cases he
  exact hop p hres

/-- Where hands and effects are the same. -/
theorem supplied_same (hh : g'.hand = g.hand) (ho : g'.out = g.out) :
    Supplied g g' := by
  refine ⟨fun i ↦ by rw [hh], [], by simp [ho], ?_⟩
  rintro ⟨_, _, hm, _⟩
  cases hm

/-- One after the other. -/
theorem supplied_trans {r : Game} (h : Supplied g r) (h' : Supplied r g') :
    Supplied g g' := by
  obtain ⟨es, hes, hno⟩ := h.out
  obtain ⟨es', hes', hno'⟩ := h'.out
  refine ⟨fun i ↦ (h.hand i).trans (h'.hand i), es ++ es', ?_, not_declares_append hno hno'⟩
  rw [hes', hes, List.append_assoc]

private theorem supplied_emit {es : List Effect} (h : ¬ Declares es) : Supplied g (g.emit es) :=
  ⟨fun _ ↦ Finset.Subset.refl _, es, rfl, h⟩

private theorem supplied_takeTop (w : Seat) (c : ConnId) : Supplied g (g.takeTop w c) := by
  refine ⟨?_, _, rfl, not_declares_map [()] (fun _ ↦ c)
    (fun _ ↦ line1 ['1', '2'] (cards (g.cardSeq (g.cardNum - 1)))) fun _ ↦ ?_⟩
  · intro i
    by_cases he : i = w
    · subst he
      rw [hand_takeTop]
      exact Finset.subset_insert _ _
    · rw [hand_takeTop_of_ne he]
  · simp [IsResult, opOf, line1, charAt]

/-- A line other than the result is sent. -/
theorem supplied_send (who : Option Seat) {line : Text} (hline : ¬ IsResult line) :
    Supplied g (g.sendToEveryoneInGame who line) :=
  supplied_emit (not_declares_map _ _ _ fun _ ↦ hline)

/-- Cards are handed out. -/
theorem supplied_give {rand : Nat → Nat → Nat} {w : Seat} (k n : Nat)
    (adopted : Finset CardId) (h : giveFrom rand w k n adopted g = .ok g') : Supplied g g' := by
  refine giveFrom_rule (I := fun _ r ↦ Supplied g r) (m := 0) ?_ ?_ h (supplied_same rfl rfl)
  · intro _ rand adopted r _ hr
    refine supplied_trans hr ⟨fun _ ↦ Finset.Subset.refl _, _, rfl, not_declares_map _ _ _ fun _ ↦ ?_⟩
    simp [IsResult, opOf, charAt]
  · intro _ c r _ _ _ hr
    exact supplied_trans hr (supplied_takeTop w c)

/-- The round line is sent. -/
theorem supplied_startRound {name : ConnId → Text} {tableCard : Text}
    (h : startRound name tableCard g = .ok g') : Supplied g g' := by
  obtain ⟨c, -, rfl⟩ := startRound_emits h
  refine supplied_emit (not_declares_map _ _ _ fun p ↦ ?_)
  simp [IsResult, opOf, roundLine, roundHead, charAt]

/-- The effect of a card. -/
theorem supplied_cardEffect {rand : Nat → Nat → Nat} (h : cardEffect rand g = .ok g') :
    Supplied g g' := by
  have drawn {n : Nat} (h : drawAndSkip rand n g = .ok g') : Supplied g g' := by
    obtain ⟨r, hr, h⟩ := exists_of_bind_ok h
    cases h
    exact supplied_trans (show Supplied g g.nextTurn from supplied_same rfl rfl)
      (supplied_trans (supplied_give 0 n ∅ hr) (supplied_same rfl rfl))
  unfold cardEffect at h
  dsimp only at h
  split at h
  · cases h
    exact supplied_same rfl rfl
  split at h
  · cases h
    split
    · exact supplied_same rfl rfl
    · exact supplied_same rfl rfl
  split at h
  · exact drawn h
  split at h
  · exact drawn h
  · cases h
    exact supplied_same rfl rfl

private theorem putDown_counters (residue cardName : Text) {i : Seat} (hi : g.handNum i ≠ -1)
    (h : CountersTrue g) : CountersTrue (g.putDown residue cardName i) ∧
      (g.putDown residue cardName i).handNum i ≠ -1 ∧
      (g.putDown residue cardName i).out = g.out := by
  unfold putDown
  split
  · next q hq =>
    have hmem : q ∈ g.hand i := findCard_mem hq
    exact ⟨counters_drop hmem hi h, handNum_drop_ne hmem hi h, rfl⟩
  · exact ⟨h, hi, rfl⟩

/-- With true counters a play ends the game exactly when it empties the player's hand. -/
theorem play_declares {env : Env} {i : Seat} {l : Text} {es : List Effect}
    (hc : CountersTrue g) (hi : g.handNum i ≠ -1) (h : play env i l g = .ok g')
    (hout : g'.out = g.out ++ es) : Declares es ↔ g'.hand i = ∅ := by
  obtain ⟨cardName, -, h⟩ := exists_of_bind_ok h
  obtain ⟨hcount, hseat, hsame⟩ := putDown_counters env.residue cardName hi hc
  dsimp only at h
  generalize g.putDown env.residue cardName i = r at h hcount hseat hsame
  have hnum := hcount i hseat
  cases hid : r.cardId with
  | none => rw [hid] at h; cases h
  | some q =>
    rw [hid] at h
    dsimp only at h
    split at h
    · next hle =>
      have hempty : r.hand i = ∅ := by
        have hle' : r.handNum i ≤ 0 := hle
        exact Finset.card_eq_zero.mp (by omega)
      obtain ⟨c, hconn, h⟩ := exists_of_bind_ok h
      split at h
      · cases h
      cases h
      let shown := r.showCard q (charAt cardName 1)
      let sends : List Effect := (shown.active.filter fun p ↦ none ≠ some p.1).map fun p ↦
        .send p.2 (shown.winLine env.name c)
      let states : List Effect := shown.active.map fun p ↦ .setState p.2 .lobby
      have hes : es = sends ++ states := by
        have : g.out ++ es = r.out ++ sends ++ states := hout.symm
        rw [hsame, List.append_assoc] at this
        exact List.append_cancel_left this
      have hactive : (i, c) ∈ shown.active := (mem_active i c).mpr ⟨hseat, used_of_conn hconn⟩
      refine ⟨fun _ ↦ hempty, fun _ ↦ ⟨c, shown.winLine env.name c, ?_, rfl⟩⟩
      rw [hes]
      refine List.mem_append_left _ (List.mem_map.mpr ⟨(i, c), ?_, rfl⟩)
      exact List.mem_filter.mpr ⟨hactive, by simp⟩
    · next hpos =>
      have hpos' : ¬ r.handNum i ≤ 0 := hpos
      obtain ⟨r', hr', h⟩ := exists_of_bind_ok h
      have hsup := supplied_trans (supplied_cardEffect hr') (supplied_startRound h)
      obtain ⟨es', hes', hno⟩ := hsup.out
      have hsame' : es = es' := by
        have : g.out ++ es = r.out ++ es' := hout.symm.trans hes'
        rw [hsame] at this
        exact List.append_cancel_left this
      constructor
      · intro hd
        exact absurd (hsame' ▸ hd) hno
      · intro hempty
        have hsub : r.hand i ⊆ g'.hand i := hsup.hand i
        rw [hempty, Finset.subset_empty] at hsub
        rw [hsub] at hnum
        exact absurd (by simpa using hnum) (by omega)

/-- Cards enough, and for seats still in the game only. -/
def FairDraw (g : Game) (a : GameAct) : Prop := PileLasts g a ∧ SeatedDraw g a

/-- In every game in which cards are handed out to seats still in the game and the pile
never runs short, the counters are true, and a played card wins the game exactly when it
was the player's last. -/
theorem countersTrue_of_fairDraw {name : ConnId → Text} {rand : Nat → Nat}
    {draw playerNum : Nat} {used : Seat → Option ConnId}
    (h : gameStart name rand draw used playerNum = .ok g) (hr : RunWith GameStep FairDraw g g') :
    CountersTrue g' ∧ ∀ env i l r es, g'.pc = .scan i → charAt l 0 = '9' →
      GameStep g' (.recv env (.line l)) r → r.out = g'.out ++ es →
      (Declares es ↔ r.hand i = ∅) := by
  have hopen := gameStart_opened h
  have hstart : Accounted g ∧ CountersTrue g := by
    refine ⟨hopen.accounted, ?_⟩
    intro i hi
    rw [hopen.handNum i] at hi ⊢
    rw [hopen.card i]
    split at hi
    · next hu => simp [hu]
    · exact absurd rfl hi
  have hinv : Accounted g' ∧ CountersTrue g' := by
    refine RunWith.preserves (I := fun g ↦ Accounted g ∧ CountersTrue g) ?_ hr hstart
    rintro r a r' ⟨hacc, hcount⟩ ⟨hlast, hseat⟩ hs
    exact ⟨gameStep_accounted hlast hs hacc, gameStep_countersTrue hlast hseat hs hacc hcount⟩
  refine ⟨hinv.2, ?_⟩
  intro env i l r es hpc hl hs hout
  unfold GameStep step at hs
  rw [hpc] at hs
  dsimp only at hs
  split at hs
  · cases hs
  next hin =>
  obtain ⟨r', hr', hs⟩ := exists_of_bind_ok hs
  cases hs
  rw [recv_play hl] at hr'
  have hadv := books_advance (g := r') i
  rw [hadv.out] at hout
  rw [hadv.hand]
  exact play_declares hinv.2 (fun he ↦ hin (Or.inr he)) hr' hout

/-! ### A game that empties the pile -/

/-- The line by which a player calls UNO wrongly and draws two cards. -/
def wrongCall : GameAct := .recv inOrder (.line ['1', '1', ' ', '0', ' ', '1', '\n'])

/-- A turn of the loop in which seat 0 calls UNO wrongly and nobody else says anything. -/
def wrongTurn : List GameAct := wrongCall :: (List.replicate 9 .pass ++ [.settle inOrder])

/-- Seat 0 draws the pile empty, then seat 1 calls UNO wrongly. -/
def emptyingActs : List GameAct := (List.replicate 22 wrongTurn).flatten ++ [.pass, wrongCall]

/-- Before a turn of the loop with `n` cards in the pile: seat 0 has what was drawn. The deck is in
order but for the opening card `t`, which has changed places with 44. -/
structure Draining (t : CardId) (n : Nat) (g : Game) : Prop where
  small : n ≤ 44
  used : g.used = nineSeats
  pc : g.pc = .scan 0
  haveUno : g.haveUno = none
  cardNum : g.cardNum = n
  cardSeq : ∀ q : CardId, g.cardSeq q.val = Equiv.swap t 44 q
  handNum : ∀ i : Seat, g.handNum i ≠ -1 ↔ i.val < 9
  num : 0 ≤ g.handNum 0 ∧ g.handNum 1 = 7
  drawn : ∀ q : CardId, q ∈ g.hand 0 ↔
    101 ≤ q.val ∨ n ≤ (Equiv.swap t 44 q).val ∧ (Equiv.swap t 44 q).val < 44
  others : ∀ (i : Seat) (q : CardId), i ≠ 0 →
    (q ∈ g.hand i ↔ i.val < 9 ∧ 101 - 7 * i.val ≤ q.val ∧ q.val ≤ 107 - 7 * i.val)

/-- A game on nine seats that is dealt in order drains. -/
theorem draining_opened {t : CardId} {g : Game} (hopen : Opened nineSeats 9 0 g)
    (hnum : g.cardNum = 44) (hseq : ∀ q : CardId, g.cardSeq q.val = Equiv.swap t 44 q)
    (hhand : ∀ (i : Seat) (q : CardId), q ∈ g.hand i ↔
      i.val < 9 ∧ 101 - 7 * i.val ≤ q.val ∧ q.val ≤ 107 - 7 * i.val) : Draining t 44 g := by
  refine ⟨Nat.le_refl _, hopen.seats, hopen.pc, hopen.haveUno, hnum, hseq, ?_, ?_, ?_,
    fun i q _ ↦ hhand i q⟩
  · intro i
    rw [hopen.handNum i]
    by_cases hi : i.val < 9 <;> simp [nineSeats, hi]
  · rw [hopen.handNum 0, hopen.handNum 1]
    decide
  · intro q
    refine (hhand 0 q).trans ?_
    have := q.isLt
    change 0 < 9 ∧ 101 ≤ q.val ∧ q.val ≤ 107 ↔ _
    omega

/-- The deal in order is the start of such a game. -/
theorem draining_start :
    ∃ g, gameStart plainName (inOrder.rand 0) 0 nineSeats 9 = .ok g ∧ Draining 44 44 g := by
  obtain ⟨g, hg, hnum, -, hseq, hhand⟩ := gameStart_inOrder
  refine ⟨g, hg, draining_opened (gameStart_opened hg) hnum (fun q ↦ ?_) hhand⟩
  rw [Equiv.swap_self]
  exact hseq q

/-- A wrong call costs the caller two cards. -/
theorem handOut_wrongCall {i : Seat} {g : Game} (hpc : g.pc = .scan i) :
    g.handOut wrongCall = some (i, 2) := by
  unfold handOut wrongCall
  rw [hpc]
  rfl

/-- A wrong call for which there are cards. -/
theorem step_wrongCall {i : Seat} {c : ConnId} {g r : Game} (hpc : g.pc = .scan i)
    (hc : g.used i = some c) (hn : g.handNum i ≠ -1) (hr : r.used = g.used)
    (hgive : giveCardToPlayer inOrder.rand i 2 g = .ok r) :
    g.step wrongCall = .ok ((r.sendToEveryoneInGame none (line1 ['1', '1'] (plainName c))).advance i) := by
  have hconn : r.conn i = .ok c := by
    unfold conn
    rw [hr, hc]
  have hcall : recv inOrder i (.line ['1', '1', ' ', '0', ' ', '1', '\n']) g =
      .ok (r.sendToEveryoneInGame none (line1 ['1', '1'] (plainName c))) := by
    change (giveCardToPlayer inOrder.rand i 2 g >>= _) = _
    rw [hgive]
    change (r.conn i >>= _) = _
    rw [hconn]
    rfl
  exact step_recv hpc (by rw [hc]; rfl) hn hcall

private theorem runActs_quiet {r : Game} (hpc : r.pc = .scan 1) (hu : r.haveUno = none) :
    runActs Game.step r (List.replicate 9 .pass ++ [.settle inOrder]) = .ok r.newRound := by
  obtain ⟨used, playerNum, hand, handNum, cardSeq, cardNum, whoseRound, turn, tableCard, colour,
    cardId, isUno, haveUno, timeStamp, winner, pc, out⟩ := r
  cases hpc
  cases hu
  rfl

/-- A turn of that game. -/
theorem draining_turn {t : CardId} {n : Nat} {g : Game} (h : Draining t (n + 2) g) :
    ∃ g', runActs Game.step g wrongTurn = .ok g' ∧ Draining t n g' := by
  have hsmall := h.small
  have hc : g.used 0 = some 0 := by
    rw [h.used]
    rfl
  have hn0 : g.handNum 0 ≠ -1 := (h.handNum 0).mpr (by decide)
  have hgive := giveTwo inOrder.rand hc (by rw [h.cardNum]; omega) (by rw [h.cardNum]; omega)
  have hcall := step_wrongCall (r := (g.takeTop 0 0).takeTop 0 0) h.pc hc hn0 rfl hgive
  let drawn :=
    ((g.takeTop 0 0).takeTop 0 0).sendToEveryoneInGame none (line1 ['1', '1'] (plainName 0))
  have hdpc : (drawn.advance 0).pc = .scan 1 := by
    have : drawn.pc = .scan 0 := h.pc
    unfold advance
    rw [this]
    rfl
  have hbooks : Books drawn (drawn.advance 0) := books_advance 0
  have hquiet : runActs Game.step (drawn.advance 0) (List.replicate 9 .pass ++ [.settle inOrder]) =
      .ok (drawn.advance 0).newRound :=
    runActs_quiet hdpc (by unfold advance; split <;> exact h.haveUno)
  refine ⟨(drawn.advance 0).newRound, ?_, ?_⟩
  · change (g.step wrongCall >>= _) = _
    rw [hcall]
    exact hquiet
  have hnum (i : Seat) : (drawn.advance 0).newRound.handNum i =
      ((g.takeTop 0 0).takeTop 0 0).handNum i := congrFun hbooks.handNum i
  have hhand (i : Seat) : (drawn.advance 0).newRound.hand i =
      ((g.takeTop 0 0).takeTop 0 0).hand i := congrFun hbooks.hand i
  refine ⟨by omega, hbooks.used.trans h.used, rfl, rfl, ?_, ?_, ?_, ?_, ?_, ?_⟩
  · rw [show (drawn.advance 0).newRound.cardNum = _ from hbooks.cardNum]
    change g.cardNum - 1 - 1 = n
    rw [h.cardNum]
    rfl
  · intro q
    rw [show (drawn.advance 0).newRound.cardSeq = _ from hbooks.cardSeq]
    exact h.cardSeq q
  · intro i
    rw [hnum]
    by_cases hi : i = 0
    · subst hi
      rw [handNum_takeTop, handNum_takeTop]
      have := h.num.1
      exact ⟨fun _ ↦ by decide, fun _ ↦ by omega⟩
    · rw [handNum_takeTop_of_ne hi, handNum_takeTop_of_ne hi]
      exact h.handNum i
  · rw [hnum, hnum, handNum_takeTop, handNum_takeTop, handNum_takeTop_of_ne (by decide),
      handNum_takeTop_of_ne (by decide)]
    exact ⟨by have := h.num.1; omega, h.num.2⟩
  · intro q
    have h1 : g.cardSeq (g.cardNum - 1) = Equiv.swap t 44 ⟨n + 1, by omega⟩ := by
      rw [h.cardNum]
      exact h.cardSeq ⟨n + 1, by omega⟩
    have h0 : (g.takeTop 0 0).cardSeq ((g.takeTop 0 0).cardNum - 1) =
        Equiv.swap t 44 ⟨n, by omega⟩ := by
      change g.cardSeq (g.cardNum - 1 - 1) = _
      rw [h.cardNum]
      exact h.cardSeq ⟨n, by omega⟩
    have hswap (k : CardId) : q = Equiv.swap t 44 k ↔ (Equiv.swap t 44 q).val = k.val := by
      rw [← Fin.ext_iff, Equiv.swap_apply_eq_iff]
    rw [hhand, hand_takeTop, hand_takeTop, h0, h1, Finset.mem_insert, Finset.mem_insert,
      h.drawn q, hswap, hswap]
    dsimp only
    omega
  · intro i q hi
    rw [hhand, hand_takeTop_of_ne hi, hand_takeTop_of_ne hi]
    exact h.others i q hi

/-- The pile is drawn empty. -/
theorem draining_turns {t : CardId} (m : Nat) {g : Game} (h : Draining t (2 * m) g) :
    ∃ g', runActs Game.step g (List.replicate m wrongTurn).flatten = .ok g' ∧ Draining t 0 g' := by
  induction m generalizing g with
  | zero => exact ⟨g, rfl, h⟩
  | succ m ih =>
    obtain ⟨r, hr, hd⟩ := draining_turn h
    obtain ⟨g', hg', h0⟩ := ih hd
    refine ⟨g', ?_, h0⟩
    rw [List.replicate_succ, List.flatten_cons, runActs_append, hr]
    exact hg'

/-- With all cards but 44 held, the refilled pile is the one card 0. -/
private theorem giveOne_drained (rand : Nat → Nat) {w : Seat} {c : ConnId} {r : Game}
    {adopted : Finset CardId} (hc : r.used w = some c) (h0 : r.cardNum = 0)
    (hall : ∀ q : CardId, q ∈ r.adopt adopted ↔ q ≠ 44) :
    ∃ t : Game, giveOne rand w adopted r = .ok (r.adopt adopted, t.takeTop w c) ∧ t.used = r.used ∧
      t.pc = r.pc ∧ t.cardNum = 1 ∧ t.cardSeq 0 = 0 ∧ t.hand = r.hand ∧ t.handNum = r.handNum := by
  have hfree : (List.finRange 108).filter (· ∉ r.adopt adopted) = [44] := by
    have : (List.finRange 108).filter (fun q ↦ q ∉ r.adopt adopted) =
        (List.finRange 108).filter (fun q ↦ q = 44) := by
      refine List.filter_congr fun q _ ↦ ?_
      simp only [hall q, not_not]
    rw [this]
    decide
  let told := r.sendToEveryoneInGame none ['2', '0', '\n']
  have hsup : r.supply rand adopted = (r.adopt adopted, told.refill rand (r.adopt adopted)) :=
    if_pos h0
  have hnum : (told.refill rand (r.adopt adopted)).cardNum = 1 := by
    change ((List.finRange 108).filter (· ∉ r.adopt adopted)).length = 1
    rw [hfree]
    rfl
  refine ⟨told.refill rand (r.adopt adopted), ?_, rfl, rfl, hnum, ?_, rfl, rfl⟩
  · have hconn : (told.refill rand (r.adopt adopted)).conn w = .ok c := by
      have : (told.refill rand (r.adopt adopted)).used w = some c := hc
      unfold conn
      rw [this]
    unfold giveOne
    rw [hsup]
    dsimp only
    rw [hconn]
    exact if_neg (by rw [hnum]; decide)
  · change shuffle cardOfIndex rand _ ((List.finRange 108).filter (· ∉ r.adopt adopted)).length 0 = 0
    rw [hfree]
    rfl

/-- Once the pile is empty all cards but the opening card are held. -/
theorem held_drained {t : CardId} {g : Game} (ht : t.val ≤ 44) (h : Draining t 0 g) (q : CardId) :
    (∃ j, g.handNum j ≠ -1 ∧ q ∈ g.hand j) ↔ q ≠ t := by
  have hlt := q.isLt
  have hlow : (Equiv.swap t 44 q).val < 44 ↔ q ≠ t ∧ q.val ≤ 44 := by
    rcases eq_or_ne q t with rfl | hqt
    · rw [Equiv.swap_apply_left]
      exact iff_of_false (by decide) (fun h ↦ h.1 rfl)
    rcases eq_or_ne q 44 with rfl | hq44
    · have hne : t.val ≠ 44 := fun he ↦ hqt (Fin.ext he.symm)
      rw [Equiv.swap_apply_right]
      exact iff_of_true (by omega) ⟨hqt, le_refl _⟩
    · have hne : q.val ≠ 44 := fun he ↦ hq44 (Fin.ext he)
      rw [Equiv.swap_apply_of_ne_of_ne hqt hq44]
      exact ⟨fun hq ↦ ⟨hqt, hq.le⟩, fun hq ↦ by omega⟩
  constructor
  · rintro ⟨j, -, hq⟩ rfl
    by_cases hj : j = 0
    · subst hj
      rcases (h.drawn q).mp hq with hhigh | ⟨-, hlow'⟩
      · omega
      · exact (hlow.mp hlow').1 rfl
    · have := (h.others j q hj).mp hq
      omega
  · intro hne
    by_cases hj : q.val ≤ 44
    · refine ⟨0, (h.handNum 0).mpr (by decide), (h.drawn q).mpr (.inr ⟨Nat.zero_le _, ?_⟩)⟩
      exact hlow.mpr ⟨hne, hj⟩
    by_cases h0 : (107 - q.val) / 7 = 0
    · exact ⟨0, (h.handNum 0).mpr (by decide), (h.drawn q).mpr (.inl (by omega))⟩
    · let j : Seat := ⟨(107 - q.val) / 7, by omega⟩
      have hj9 : j.val < 9 := by
        change (107 - q.val) / 7 < 9
        omega
      refine ⟨j, (h.handNum j).mpr hj9, (h.others j q ?_).mpr ⟨hj9, ?_, ?_⟩⟩
      · intro he
        exact h0 (congrArg Fin.val he)
      · change 101 - 7 * ((107 - q.val) / 7) ≤ q.val
        omega
      · change q.val ≤ 107 - 7 * ((107 - q.val) / 7)
        omega

/-- Once the pile is empty, seat 1 is given card 0 twice. -/
theorem giveTwice_drained {g : Game} (h : Draining 44 0 g) :
    ∃ t : Game, giveCardToPlayer inOrder.rand 1 2 (g.advance 0) = .ok t ∧ t.used = g.used ∧
      t.pc = .scan 1 ∧ t.hand 0 = g.hand 0 ∧ t.handNum 0 = g.handNum 0 ∧
      t.hand 1 = insert 0 (g.hand 1) ∧ t.handNum 1 = 9 := by
  have hbooks : Books g (g.advance 0) := books_advance 0
  have hpc : (g.advance 0).pc = .scan 1 := by
    unfold advance
    rw [h.pc]
    rfl
  have hc : (g.advance 0).used 1 = some 1 := by
    rw [hbooks.used, h.used]
    rfl
  have hadopt (q : CardId) : q ∈ (g.advance 0).adopt ∅ ↔ q ≠ 44 := by
    simp only [adopt, Finset.empty_union, Finset.mem_filter, Finset.mem_univ, true_and,
      hbooks.handNum, hbooks.hand]
    exact held_drained (le_refl _) h q
  obtain ⟨r, hr, hru, hrpc, hrn, hrs, hrh, hrk⟩ :=
    giveOne_drained (inOrder.rand 0) hc (hbooks.cardNum.trans h.cardNum) hadopt
  have htop : r.cardSeq (r.cardNum - 1) = 0 := by
    rw [hrn]
    exact hrs
  have hadopt' (q : CardId) : q ∈ (r.takeTop 1 1).adopt ((g.advance 0).adopt ∅) ↔ q ≠ 44 := by
    rw [adopt, Finset.mem_union, hadopt]
    simp only [Finset.mem_filter, Finset.mem_univ, true_and]
    refine ⟨?_, Or.inl⟩
    rintro (hq | ⟨j, hj, hq⟩)
    · exact hq
    · by_cases he : j = 1
      · subst he
        rw [hand_takeTop, htop, Finset.mem_insert] at hq
        rcases hq with rfl | hq
        · decide
        · rw [hrh, hbooks.hand] at hq
          exact (held_drained (le_refl _) h q).mp ⟨1, (h.handNum 1).mpr (by decide), hq⟩
      · rw [hand_takeTop_of_ne he, hrh, hbooks.hand] at hq
        rw [handNum_takeTop_of_ne he, hrk, hbooks.handNum] at hj
        exact (held_drained (le_refl _) h q).mp ⟨j, hj, hq⟩
  obtain ⟨t, ht, htu, htpc, htn, hts, hth, htk⟩ :=
    @giveOne_drained (inOrder.rand 1) 1 1 (r.takeTop 1 1) _
      (by rw [← hc, ← hru]; rfl) (by change r.cardNum - 1 = 0; rw [hrn]) hadopt'
  have htop' : t.cardSeq (t.cardNum - 1) = 0 := by
    rw [htn]
    exact hts
  refine ⟨t.takeTop 1 1, ?_, ?_, ?_, ?_, ?_, ?_, ?_⟩
  · unfold giveCardToPlayer giveFrom giveFrom
    rw [hr]
    change (giveOne (inOrder.rand 1) 1 _ (r.takeTop 1 1) >>= _) = _
    rw [ht]
    rfl
  · exact (htu.trans hru).trans hbooks.used
  · exact (htpc.trans hrpc).trans hpc
  · rw [hand_takeTop_of_ne (by decide), hth, hand_takeTop_of_ne (by decide), hrh, hbooks.hand]
  · rw [handNum_takeTop_of_ne (by decide), htk, handNum_takeTop_of_ne (by decide), hrk,
      hbooks.handNum]
  · rw [hand_takeTop, htop', hth, hand_takeTop, htop, hrh, hbooks.hand, Finset.insert_idem]
  · rw [handNum_takeTop, htk, handNum_takeTop, hrk, hbooks.handNum, h.num.2]
    decide

/-- The game in which the pile is emptied reaches a state where the seats 0 and 1 hold card 0
and seat 1 has been given it twice. -/
private theorem emptied :
    ∃ g g', gameStart plainName (inOrder.rand 0) 0 nineSeats 9 = .ok g ∧
      runActs Game.step g emptyingActs = .ok g' ∧ g'.handNum 0 ≠ -1 ∧ 0 ∈ g'.hand 0 ∧
      g'.handNum 1 = 9 ∧ 0 ∈ g'.hand 1 ∧ (g'.hand 1).card ≤ 8 := by
  obtain ⟨g, hg, h⟩ := draining_start
  obtain ⟨r, hr, hd⟩ := draining_turns 22 h
  obtain ⟨t, ht, htu, htpc, hh0, hn0, hh1, hn1⟩ := giveTwice_drained hd
  have hpass : r.step .pass = .ok (r.advance 0) := by
    unfold step
    rw [hd.pc]
  have hpc : (r.advance 0).pc = .scan 1 := by
    unfold advance
    rw [hd.pc]
    rfl
  have hbooks : Books r (r.advance 0) := books_advance 0
  have hc : (r.advance 0).used 1 = some 1 := by
    rw [hbooks.used, hd.used]
    rfl
  have hn : (r.advance 0).handNum 1 ≠ -1 := by
    rw [hbooks.handNum]
    exact (hd.handNum 1).mpr (by decide)
  have hcall := step_wrongCall hpc hc hn (htu.trans hbooks.used.symm) ht
  let told := t.sendToEveryoneInGame none (line1 ['1', '1'] (plainName 1))
  have htold : Books told (told.advance 1) := books_advance 1
  refine ⟨g, told.advance 1, hg, ?_, ?_, ?_, ?_, ?_, ?_⟩
  · rw [emptyingActs, runActs_append, hr]
    change (r.step .pass >>= fun s ↦ runActs Game.step s [wrongCall]) = _
    rw [hpass]
    change (Game.step (r.advance 0) wrongCall >>= _) = _
    rw [hcall]
    rfl
  · rw [htold.handNum]
    change t.handNum 0 ≠ -1
    rw [hn0]
    exact (hd.handNum 0).mpr (by decide)
  · rw [htold.hand]
    change 0 ∈ t.hand 0
    rw [hh0]
    refine (hd.drawn 0).mpr (Or.inr ⟨Nat.zero_le _, ?_⟩)
    rw [Equiv.swap_self]
    decide
  · rw [htold.handNum]
    exact hn1
  · rw [htold.hand]
    change 0 ∈ t.hand 1
    rw [hh1]
    exact Finset.mem_insert_self _ _
  · rw [htold.hand]
    change (t.hand 1).card ≤ 8
    have hseven : r.hand 1 = Finset.univ.filter fun q : CardId ↦ 94 ≤ q.val ∧ q.val ≤ 100 := by
      ext q
      rw [hd.others 1 q (by decide), Finset.mem_filter]
      simp
    have hcard : (r.hand 1).card = 7 := by
      rw [hseven]
      decide +kernel
    have := Finset.card_insert_le (0 : CardId) (r.hand 1)
    rw [hh1]
    omega

private theorem wrongCall_fair {t : CardId} {n : Nat} (h : Draining t (n + 2) g) : FairDraw g wrongCall := by
  have hout := handOut_wrongCall h.pc
  constructor
  · intro w k hk
    cases hout.symm.trans hk
    rw [h.cardNum]
    omega
  · intro w k hk
    cases hout.symm.trans hk
    exact (h.handNum 0).mpr (by decide)

private theorem wrongCall_steps {t : CardId} {n : Nat} (h : Draining t (n + 2) g) :
    ∃ g', GameStep g wrongCall g' := by
  have hsmall := h.small
  have hc : g.used 0 = some 0 := by
    rw [h.used]
    rfl
  have hn : g.handNum 0 ≠ -1 := (h.handNum 0).mpr (by decide)
  have hgive := giveTwo inOrder.rand hc (by rw [h.cardNum]; omega) (by rw [h.cardNum]; omega)
  exact ⟨_, step_wrongCall (r := (g.takeTop 0 0).takeTop 0 0) h.pc hc hn rfl hgive⟩

/-- A game of nine players in which a card ends up in two hands. -/
theorem card_in_two_hands :
    ∃ g g', gameStart plainName (inOrder.rand 0) 0 nineSeats 9 = .ok g ∧
      runActs Game.step g emptyingActs = .ok g' ∧ ¬ Conserved g' := by
  obtain ⟨g, g', hg, hr, h0, hq0, h1, hq1, -⟩ := emptied
  refine ⟨g, g', hg, hr, fun h ↦ ?_⟩
  exact absurd (h.hands 0 1 0 h0 (by rw [h1]; decide) hq0 hq1) (by decide)

/-- The first wrong call of that game. -/
theorem conserved_after_call :
    ∃ g g', gameStart plainName (inOrder.rand 0) 0 nineSeats 9 = .ok g ∧
      GameStep g wrongCall g' ∧ Conserved g' := by
  obtain ⟨g, hg, h⟩ := draining_start
  obtain ⟨g', hs⟩ := wrongCall_steps h
  exact ⟨g, g', hg, hs, conserved_of_pileLasts hg (RunWith.snoc RunWith.refl
    (wrongCall_fair h).1 hs)⟩

/-- In the same game seat 1 is counted nine cards and holds eight. -/
theorem counter_above_hand :
    ∃ g g', gameStart plainName (inOrder.rand 0) 0 nineSeats 9 = .ok g ∧
      runActs Game.step g emptyingActs = .ok g' ∧ ¬ CountersTrue g' := by
  obtain ⟨g, g', hg, hr, -, -, h1, -, hcard⟩ := emptied
  refine ⟨g, g', hg, hr, fun h ↦ ?_⟩
  have := h 1 (by rw [h1]; decide)
  omega

/-- The counters after the first wrong call. -/
theorem countersTrue_after_call :
    ∃ g g', gameStart plainName (inOrder.rand 0) 0 nineSeats 9 = .ok g ∧
      GameStep g wrongCall g' ∧ CountersTrue g' := by
  obtain ⟨g, hg, h⟩ := draining_start
  obtain ⟨g', hs⟩ := wrongCall_steps h
  exact ⟨g, g', hg, hs, (countersTrue_of_fairDraw hg (RunWith.snoc RunWith.refl
    (wrongCall_fair h) hs)).1⟩

end Unpv13e.Uno
