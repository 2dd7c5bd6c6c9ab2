import Unpv13e.Uno.Alive

/-!
# Playing a card that is not held

Library `Uno`. The search for a played card (`src/tcpcliserv/final_server.c:471–480`) has no branch
for a card that is not found, so `card_id` keeps the value an earlier play of any player gave it and
is played again. When the table is the same afterwards.
-/

namespace Unpv13e.Uno
open Unpv13e.Base Game

variable {g g' r : Game}

/-! ### Passing the turn on -/

/-- Passing the turn on twice comes back to the same seat exactly when two seats are in the game. -/
private theorem isNext_isNext {seats : Finset Seat} {turn : Fin 2} {w v x : Seat}
    (h : IsNext seats turn w v) (h' : IsNext seats turn v x) (hw : w ∈ seats)
    (h2 : 2 ≤ seats.card) : x = w ↔ seats.card = 2 := by
  have hvw : v ≠ w := by
    obtain ⟨i, hi, hne⟩ := Finset.exists_mem_ne (by omega : 1 < seats.card) w
    exact h.ne hi hne
  constructor
  · rintro rfl
    by_contra hne
    -- a third seat comes before the turn is back
    have hthird : 0 < ((seats.erase x).erase v).card := by
      rw [Finset.card_erase_of_mem (Finset.mem_erase.mpr ⟨hvw, h.1⟩), Finset.card_erase_of_mem hw]
      omega
    obtain ⟨c, hc⟩ := Finset.card_pos.mp hthird
    obtain ⟨hcv, hc⟩ := Finset.mem_erase.mp hc
    obtain ⟨hcx, hc⟩ := Finset.mem_erase.mp hc
    obtain ⟨-, k, hk, -, hv, hbefore⟩ := h
    obtain ⟨-, k', hk', -, hx, hbefore'⟩ := h'
    obtain ⟨m, hm, hcm⟩ := exists_onward turn x c
    have table : ∀ (turn : Fin 2) (w : Seat), ∀ k < 10, 0 < k → onward turn k w ≠ w := by decide
    have hm10 : m + 1 < 10 := by
      refine lt_of_le_of_ne hm ?_
      intro h10
      rw [h10, onward_ten] at hcm
      exact hcx hcm.symm
    have hkm : k < m + 1 := by
      rcases Nat.lt_trichotomy k (m + 1) with hlt | heq | hgt
      · exact hlt
      · rw [heq, hcm] at hv
        exact absurd hv.symm hcv
      · exact absurd hc (hcm ▸ hbefore (m + 1) (Nat.succ_pos m) hgt)
    have hadd (l : Nat) : onward turn l v = onward turn (l + k) x := by
      rw [hv]
      exact (Function.iterate_add_apply _ l k x).symm
    have hk'm : k' ≤ m + 1 - k := by
      by_contra hlt
      refine hbefore' (m + 1 - k) (by omega) (by omega) ?_
      rw [hadd, Nat.sub_add_cancel hkm.le, hcm]
      exact hc
    rw [hadd] at hx
    exact table turn x (k' + k) (by omega) (by omega) hx.symm
  · intro hcard
    have hpair : seats = {w, v} := by
      refine (Finset.eq_of_subset_of_card_le ?_ ?_).symm
      · intro c hc
        rcases Finset.mem_insert.mp hc with rfl | hc
        · exact hw
        · rw [Finset.mem_singleton.mp hc]
          exact h.1
      · rw [hcard, Finset.card_pair hvw.symm]
    have hxv : x ≠ v := h'.ne hw hvw.symm
    have hx := h'.1
    rw [hpair, Finset.mem_insert, Finset.mem_singleton] at hx
    exact hx.resolve_right hxv

private theorem nextTurn_nextTurn (hconns : ∀ i, g.handNum i ≠ -1 → (g.used i).isSome)
    (hw : g.handNum g.whoseRound ≠ -1) (h2 : 2 ≤ g.inGame.card) :
    g.nextTurn.nextTurn.whoseRound = g.whoseRound ↔ g.inGame.card = 2 := by
  have hseats (i : Seat) : g.handNum i ≠ -1 ↔ i ∈ g.inGame := (mem_inGame hconns i).symm
  have hnext : g.handNum g.nextTurn.whoseRound ≠ -1 := seated_switch g.turn hw
  exact isNext_isNext (isNext_switch g.turn g.whoseRound hseats hnext)
    (isNext_switch g.turn g.nextTurn.whoseRound hseats (seated_switch g.turn hnext))
    ((hseats _).mp hw) h2

/-! ### A card that is not held -/

/-- Hands, counters, pile, table, colour, direction and turn are the same. -/
structure Untouched (g g' : Game) : Prop where
  hand : g'.hand = g.hand
  handNum : g'.handNum = g.handNum
  cardSeq : g'.cardSeq = g.cardSeq
  cardNum : g'.cardNum = g.cardNum
  tableCard : g'.tableCard = g.tableCard
  colour : g'.colour = g.colour
  turn : g'.turn = g.turn
  whoseRound : g'.whoseRound = g.whoseRound

private theorem Untouched.advance (h : Untouched g g') (i : Seat) : Untouched g (g'.advance i) := by
  unfold Game.advance
  split
  · exact h
  · exact ⟨h.hand, h.handNum, h.cardSeq, h.cardNum, h.tableCard, h.colour, h.turn, h.whoseRound⟩

private theorem untouched_of_advance {i : Seat} (h : Untouched g (r.advance i)) : Untouched g r := by
  unfold Game.advance at h
  split at h
  · exact h
  · exact ⟨h.hand, h.handNum, h.cardSeq, h.cardNum, h.tableCard, h.colour, h.turn, h.whoseRound⟩

/-- What the effect of a card leaves as it was. -/
private theorem cardEffect_touches {rand : Nat → Nat → Nat} (h : Alive g)
    (hs : cardEffect rand g = .ok r) : r.tableCard = g.tableCard ∧ r.colour = g.colour ∧
      (r.turn = g.turn → r.handNum = g.handNum → r.whoseRound = g.whoseRound →
        76 ≤ g.tableCard.val ∧ g.tableCard.val < 84 ∧ g.inGame.card = 2) := by
  have hmany : 2 ≤ g.inGame.card := le_trans h.two h.many
  have hmoves : g.nextTurn.whoseRound ≠ g.whoseRound := by
    rcases switchToNextPlayer_spec g.whoseRound g.handNum g.turn with ⟨-, hne⟩ | ⟨-, hnone⟩
    · exact hne
    · obtain ⟨i, hi, hne⟩ := Finset.exists_mem_ne (by omega : 1 < g.inGame.card) g.whoseRound
      exact absurd (hnone i hne) ((mem_inGame h.conns i).mp hi)
  have drawn {n : Nat} (hn : 0 < n) (hs : drawAndSkip rand n g = .ok r) :
      r.tableCard = g.tableCard ∧ r.colour = g.colour ∧ r.handNum ≠ g.handNum := by
    obtain ⟨t, ht, hs⟩ := exists_of_bind_ok hs
    cases hs
    have hd := cardsGiven_giveFrom 0 n ∅ ht
    refine ⟨hd.tableCard, hd.colour, fun he ↦ ?_⟩
    have hself := congrFun hd.handNum g.nextTurn.whoseRound
    rw [Function.update_self] at hself
    have hsame : t.handNum g.nextTurn.whoseRound = g.handNum g.nextTurn.whoseRound :=
      congrFun he _
    have hcast : g.nextTurn.handNum g.nextTurn.whoseRound = g.handNum g.nextTurn.whoseRound := rfl
    omega
  unfold Game.cardEffect at hs
  dsimp only at hs
  split at hs
  · next hskip =>
    cases hs
    exact ⟨rfl, rfl, fun _ _ hw ↦ ⟨hskip.1, hskip.2, (nextTurn_nextTurn h.conns h.turn hmany).mp hw⟩⟩
  split at hs
  · cases hs
    have hflip : g.flipTurn.turn ≠ g.turn := by
      change g.turn + 1 ≠ g.turn
      generalize g.turn = t
      revert t
      decide
    split
    · exact ⟨rfl, rfl, fun ht ↦ absurd ht hflip⟩
    · exact ⟨rfl, rfl, fun ht ↦ absurd ht hflip⟩
  split at hs
  · obtain ⟨htable, hcolour, hnum⟩ := drawn (by decide) hs
    exact ⟨htable, hcolour, fun _ hn ↦ absurd hn hnum⟩
  split at hs
  · obtain ⟨htable, hcolour, hnum⟩ := drawn (by decide) hs
    exact ⟨htable, hcolour, fun _ hn ↦ absurd hn hnum⟩
  · cases hs
    exact ⟨rfl, rfl, fun _ _ hw ↦ absurd hw hmoves⟩

/-- A card that is not held is played as the card of the last play. -/
private theorem play_not_held {env : Env} {i : Seat} {l w : Text} (hw : arg1 l = .ok w)
    (hnot : ∀ q ∈ g.hand i, cards q ≠ lookupName env.residue w) (hpos : ¬ g.handNum i ≤ 0) :
    play env i l g = match g.cardId with
      | none => .error .indeterminate
      | some q => cardEffect env.rand (g.showCard q (charAt w 1)) >>= startRound env.name w := by
  have hfind : findCard (g.hand i) (lookupName env.residue w) = none := by
    refine List.find?_eq_none.mpr fun q _ hq ↦ ?_
    simp only [decide_eq_true_eq] at hq
    exact hnot q hq.1 hq.2
  have hput : g.putDown env.residue w i = g := by
    unfold putDown
    rw [hfind]
  have hbind (f : Text → Except Stop Game) : ((Except.ok w : Except Stop Text) >>= f) = f w := rfl
  unfold play
  rw [hw, hbind]
  simp only [hput]
  cases g.cardId with
  | none => rfl
  | some q => exact if_neg hpos

/-- Seat 8 has played its red six and is about to be read again. -/
private theorem six_played :
    ∃ g₀ g, gameStart plainName (inOrder.rand 0) 0 nineSeats 9 = .ok g₀ ∧ Run GameStep g₀ g ∧
      g.pc = .scan 8 ∧ g.handNum 8 = 6 ∧ (∀ q ∈ g.hand 8, cards q ≠ ['6', 'r']) ∧
      (∀ i, g.handNum i = -1 ↔ 9 ≤ i.val) ∧ g.used = nineSeats ∧ g.turn = 0 ∧ g.whoseRound = 1 ∧
      ∃ q, g.cardId = some q ∧ q.val < 76 := by
  obtain ⟨g₀, hg₀, h₀⟩ := shed_start
  obtain ⟨r, hr, h⟩ := shed_turn (s := 8) (.inr rfl) (by decide) (fun _ ↦ by omega) h₀
  have hpass := runActs_pass 8 (i := 0) (by decide) h.pc
  have hrun : runActs Game.step g₀ (ownTurn 8 0 ++ List.replicate 8 .pass) =
      .ok { r with pc := .scan 8 } := by
    rw [runActs_append, hr]
    exact hpass
  refine ⟨g₀, { r with pc := .scan 8 }, hg₀, run_of_runActs Game.step _ _ _ hrun, rfl, ?_, ?_, ?_,
    h.used, h.turn, h.whoseRound, h.cardId 8 (by decide)⟩
  · exact (h.handNum 8).trans (by decide)
  · intro q hq
    have hheld := (h.hand 8 q).mp hq
    have table : ∀ q : CardId, 46 ≤ q.val → q.val ≤ 51 → cards q ≠ ['6', 'r'] := by decide
    exact table q hheld.2.1 hheld.2.2
  · intro i
    change r.handNum i = -1 ↔ _
    rw [h.handNum i]
    revert i
    decide

/-- The line by which a red six is played. -/
def sixLine : Text := ['9', ' ', '6', 'r', '\n']

end Unpv13e.Uno
