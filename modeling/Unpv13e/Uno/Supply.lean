import Unpv13e.Uno.Alive
import Unpv13e.Uno.Conservation

/-!
# Whether there are cards to give

Library `Uno`. `GiveCardToPlayer` reads `card_seq[*card_num - 1]` also when the pile that replaces an
empty one is empty itself, and its log line reads `card_seq[*card_num]`
(`src/tcpcliserv/final_server.c:231–279`). When a call stays inside the array, in terms of the pile and
the hands it starts from.
-/

namespace Unpv13e.Uno
open Unpv13e.Base Game

variable {rand : Nat → Nat → Nat} {w : Seat} {c : ConnId} {g g' : Game} {adopted : Finset CardId}

/-! ### Cards from the pile -/

/-- The top `m` cards have gone to seat `w`. -/
private def drawn (w : Seat) (c : ConnId) (m : Nat) (g : Game) : Game := (takeTop w c)^[m] g

/-- What is left after `m` cards from the pile. -/
private structure DrawnFrom (w : Seat) (m : Nat) (g r : Game) : Prop where
  used : r.used = g.used
  cardSeq : r.cardSeq = g.cardSeq
  cardNum : r.cardNum = g.cardNum - m
  num : r.handNum w = g.handNum w + m
  handNum : ∀ i, i ≠ w → r.handNum i = g.handNum i
  own : ∀ q, q ∈ r.hand w ↔ q ∈ g.hand w ∨ ∃ k, g.cardNum - m ≤ k ∧ k < g.cardNum ∧ g.cardSeq k = q
  hand : ∀ i, i ≠ w → r.hand i = g.hand i

private theorem drawn_frame (m : Nat) (hm : m ≤ g.cardNum) : DrawnFrom w m g (drawn w c m g) := by
  induction m with
  | zero =>
    refine ⟨rfl, rfl, rfl, ?_, fun _ _ ↦ rfl, fun q ↦ ?_, fun _ _ ↦ rfl⟩
    · exact (add_zero _).symm
    · refine ⟨.inl, fun h ↦ h.resolve_right ?_⟩
      rintro ⟨k, hlow, hhigh, -⟩
      omega
  | succ m ih =>
    have h := ih (by omega)
    have hstep : drawn w c (m + 1) g = (drawn w c m g).takeTop w c :=
      Function.iterate_succ_apply' _ _ _
    have htop : (drawn w c m g).cardSeq ((drawn w c m g).cardNum - 1) =
        g.cardSeq (g.cardNum - (m + 1)) := by
      rw [h.cardSeq, h.cardNum, Nat.sub_sub]
    rw [hstep]
    refine ⟨h.used, h.cardSeq, ?_, ?_, fun i hi ↦ ?_, fun q ↦ ?_, fun i hi ↦ ?_⟩
    · change (drawn w c m g).cardNum - 1 = _
      rw [h.cardNum, Nat.sub_sub]
    · rw [handNum_takeTop, h.num]
      push_cast
      ring
    · rw [handNum_takeTop_of_ne hi, h.handNum i hi]
    · rw [hand_takeTop, Finset.mem_insert, htop, h.own]
      constructor
      · rintro (rfl | hold | ⟨k, hlow, hhigh, hk⟩)
        · exact .inr ⟨g.cardNum - (m + 1), le_refl _, by omega, rfl⟩
        · exact .inl hold
        · exact .inr ⟨k, by omega, hhigh, hk⟩
      · rintro (hold | ⟨k, hlow, hhigh, hk⟩)
        · exact .inr (.inl hold)
        · rcases Nat.eq_or_lt_of_le hlow with rfl | hlt
          · exact .inl hk.symm
          · exact .inr (.inr ⟨k, by omega, hhigh, hk⟩)
    · rw [hand_takeTop_of_ne hi, h.hand i hi]

/-- The cards of a pile that lasts. -/
private theorem giveFrom_pile (hc : g.used w = some c) (hpile : g.cardNum < 108) (k m n : Nat)
    (hm : m ≤ g.cardNum) :
    giveFrom rand w k (m + n) adopted g = giveFrom rand w (k + m) n adopted (drawn w c m g) := by
  induction m generalizing k g with
  | zero => rw [Nat.zero_add]; rfl
  | succ m ih =>
    have hone := giveOne_top (rand k) adopted hc (by omega) hpile
    have hnext := ih (g := g.takeTop w c) hc (by change g.cardNum - 1 < 108; omega) (k + 1)
      (by change m ≤ g.cardNum - 1; omega)
    rw [show m + 1 + n = (m + n) + 1 by omega, giveFrom, hone]
    change giveFrom rand w (k + 1) (m + n) adopted (g.takeTop w c) = _
    rw [hnext, show k + 1 + m = k + (m + 1) by omega]
    rfl

/-! ### A new pile -/

/-- The cards that `shuffle` makes a pile of `n` cards of. -/
def firstCards (n : Nat) : Finset CardId := Finset.univ.filter fun q ↦ q.val < n

/-- The cards that are neither adopted nor in a hand of a seat still in the game. -/
private def free (adopted : Finset CardId) (g : Game) : Finset CardId := (g.adopt adopted)ᶜ

private theorem mem_free {q : CardId} :
    q ∈ free adopted g ↔ q ∉ adopted ∧ ∀ j, g.handNum j ≠ -1 → q ∉ g.hand j := by
  simp [free, adopt]

/-- The table after a refill. -/
private def refilled (rand : Nat → Nat) (adopted : Finset CardId) (g : Game) : Game :=
  (g.reshuffle rand adopted).2

private theorem length_free :
    ((List.finRange 108).filter (· ∉ g.adopt adopted)).length = (free adopted g).card := by
  rw [← List.toFinset_card_of_nodup (List.Nodup.filter _ (List.nodup_finRange 108))]
  congr 1
  ext q
  simp [free]

private theorem refilled_cardNum (rand : Nat → Nat) :
    (refilled rand adopted g).cardNum = (free adopted g).card := length_free

/-- The new pile is made of the first cards, whichever are free. -/
private theorem refilled_cards (rand : Nat → Nat) (q : CardId) :
    (∃ k < (free adopted g).card, (refilled rand adopted g).cardSeq k = q) ↔
      q ∈ firstCards (free adopted g).card := by
  have hle : (free adopted g).card ≤ 108 := card_finset_fin_le _
  obtain ⟨π, hlt, hval, -⟩ := shuffle_perm cardOfIndex rand
    (fun k ↦ ((List.finRange 108).filter (· ∉ g.adopt adopted)).getD k (g.cardSeq k))
    (free adopted g).card
  have hseq (k : Nat) (hk : k < (free adopted g).card) :
      (refilled rand adopted g).cardSeq k = cardOfIndex (π k) := by
    rw [← hval k hk, ← length_free]
    rfl
  have hof (k : Nat) (hk : k < (free adopted g).card) : (cardOfIndex (π k)).val = π k :=
    Nat.mod_eq_of_lt (Nat.lt_of_lt_of_le ((hlt k).mp hk) hle)
  unfold firstCards
  rw [Finset.mem_filter, and_iff_right (Finset.mem_univ q)]
  constructor
  · rintro ⟨k, hk, rfl⟩
    rw [hseq k hk, hof k hk]
    exact (hlt k).mp hk
  · intro hq
    have hπ : π (π.symm q.val) = q.val := π.apply_symm_apply _
    have hk : π.symm q.val < (free adopted g).card := (hlt _).mpr (by rw [hπ]; exact hq)
    refine ⟨π.symm q.val, hk, ?_⟩
    rw [hseq _ hk]
    refine Fin.ext ?_
    rw [hof _ hk, hπ]

/-- An empty pile is replaced. -/
private theorem giveFrom_empty (hc : g.used w = some c) (h0 : g.cardNum = 0) (k n : Nat) :
    giveFrom rand w k (n + 1) adopted g =
      if (free adopted g).card = 0 ∨ 108 ≤ (free adopted g).card then .error .outOfBounds
      else giveFrom rand w k (n + 1) (g.adopt adopted) (refilled (rand k) adopted g) := by
  have hsup : g.supply (rand k) adopted = (g.adopt adopted, refilled (rand k) adopted g) := if_pos h0
  have hused : (refilled (rand k) adopted g).used w = some c := hc
  have hconn : (refilled (rand k) adopted g).conn w = .ok c := by
    unfold conn
    rw [hused]
  rw [giveFrom, giveOne, hsup]
  dsimp only
  rw [hconn, ok_bind, refilled_cardNum]
  split
  · rfl
  · next hn =>
    have hone := giveOne_top (rand k) (g.adopt adopted) hused
      (by rw [refilled_cardNum]; omega) (by rw [refilled_cardNum]; omega)
    rw [giveFrom, hone]

/-- The cards of a new pile. -/
private theorem giveFrom_refilled (hc : g.used w = some c) (hsmall : (free adopted g).card < 108)
    (k m n : Nat) (hm : m ≤ (free adopted g).card) :
    giveFrom rand w k (m + n) (g.adopt adopted) (refilled (rand k) adopted g) =
      giveFrom rand w (k + m) n (g.adopt adopted) (drawn w c m (refilled (rand k) adopted g)) := by
  have hnum : (refilled (rand k) adopted g).cardNum = (free adopted g).card :=
    refilled_cardNum (rand k)
  have hused : (refilled (rand k) adopted g).used w = some c := hc
  exact giveFrom_pile hused (by omega) k m n (by omega)

variable (adopted) in
/-- What a new pile leaves when all of it is drawn. -/
private theorem refilled_drawn (rand : Nat → Nat) (hn : -1 ≤ g.handNum w)
    (hpos : 0 < (free adopted g).card) :
    ∃ r, drawn w c (free adopted g).card (refilled rand adopted g) = r ∧ r.used = g.used ∧
      r.cardNum = 0 ∧ 0 ≤ r.handNum w ∧
      (∀ q, q ∈ r.hand w ↔ q ∈ g.hand w ∨ q ∈ firstCards (free adopted g).card) ∧
      ∀ q, q ∈ free (g.adopt adopted) r ↔
        q ∈ free adopted g ∧ q ∉ g.hand w ∧ q ∉ firstCards (free adopted g).card := by
  have hnum : (refilled rand adopted g).cardNum = (free adopted g).card := refilled_cardNum rand
  have h := drawn_frame (w := w) (c := c) (g := refilled rand adopted g) _ hnum.ge
  have hown (q : CardId) : q ∈ (drawn w c (free adopted g).card (refilled rand adopted g)).hand w ↔
      q ∈ g.hand w ∨ q ∈ firstCards (free adopted g).card := by
    rw [h.own, ← refilled_cards rand q, hnum, Nat.sub_self]
    exact or_congr_right ⟨fun ⟨k, _, hk, hq⟩ ↦ ⟨k, hk, hq⟩,
      fun ⟨k, hk, hq⟩ ↦ ⟨k, Nat.zero_le _, hk, hq⟩⟩
  have hw : 0 ≤ (drawn w c (free adopted g).card (refilled rand adopted g)).handNum w := by
    rw [h.num]
    change 0 ≤ g.handNum w + _
    omega
  refine ⟨_, rfl, h.used, by rw [h.cardNum, hnum, Nat.sub_self], hw, hown, fun q ↦ ?_⟩
  rw [mem_free]
  constructor
  · rintro ⟨hfree, hhands⟩
    have hq := hhands w (by omega)
    rw [hown, not_or] at hq
    exact ⟨Finset.mem_compl.mpr hfree, hq⟩
  · rintro ⟨hfree, hqw, hqf⟩
    refine ⟨Finset.mem_compl.mp hfree, fun j hj ↦ ?_⟩
    by_cases hjw : j = w
    · rw [hjw, hown, not_or]
      exact ⟨hqw, hqf⟩
    · rw [h.hand j hjw]
      rw [h.handNum j hjw] at hj
      exact (mem_free.mp hfree).2 j hj

private theorem firstCards_mono {m n : Nat} (h : m ≤ n) : firstCards m ⊆ firstCards n := by
  intro q hq
  exact Finset.mem_filter.mpr
    ⟨Finset.mem_univ q, Nat.lt_of_lt_of_le (Finset.mem_filter.mp hq).2 h⟩

/-- A seat that has all the cards new piles are made of never runs out of them. -/
private theorem giveFrom_ever (hc : g.used w = some c) (h0 : g.cardNum = 0) (hw : 0 ≤ g.handNum w)
    (hne : (free adopted g).Nonempty) (hhas : firstCards (free adopted g).card ⊆ g.hand w)
    (k n : Nat) : ∃ g', giveFrom rand w k n adopted g = .ok g' := by
  induction n using Nat.strong_induction_on generalizing g adopted k with
  | _ n ih =>
    cases n with
    | zero => exact ⟨g, rfl⟩
    | succ n =>
      have hpos := Finset.card_pos.mpr hne
      have hsmall : (free adopted g).card < 108 := by
        -- the seat has the first card
        refine Nat.lt_of_not_le fun hge ↦ ?_
        have h0mem : (0 : CardId) ∈ g.hand w :=
          hhas (Finset.mem_filter.mpr ⟨Finset.mem_univ _, hpos⟩)
        have hall : free adopted g = Finset.univ :=
          Finset.eq_univ_of_card _ (Nat.le_antisymm (card_finset_fin_le _) hge)
        have hin : (0 : CardId) ∈ free adopted g := by
          rw [hall]
          exact Finset.mem_univ _
        exact (mem_free.mp hin).2 w (by omega) h0mem
      rw [giveFrom_empty hc h0, if_neg (by omega)]
      rcases Nat.lt_or_ge (free adopted g).card (n + 1) with hlt | hge
      · obtain ⟨m, hm⟩ := Nat.exists_eq_add_of_lt hlt
        obtain ⟨r, hr, hused, hzero, hrw, hown, hfree⟩ :=
          refilled_drawn (w := w) (c := c) (g := g) adopted (rand k) (by omega) hpos
        have hsame : free (g.adopt adopted) r = free adopted g := by
          ext q
          rw [hfree]
          refine ⟨fun h ↦ h.1, fun h ↦ ⟨h, ?_, fun hq ↦ ?_⟩⟩
          · exact (mem_free.mp h).2 w (by omega)
          · exact (mem_free.mp h).2 w (by omega) (hhas hq)
        rw [hm, Nat.add_assoc, giveFrom_refilled hc hsmall k _ _ (le_refl _), hr]
        refine ih (m + 1) (by omega) (hused ▸ hc) hzero hrw ?_ ?_ _
        · rw [hsame]
          exact hne
        · rw [hsame]
          exact fun q hq ↦ (hown q).mpr (.inr hq)
      · exact ⟨_, giveFrom_refilled hc hsmall k (n + 1) 0 hge⟩

/-- From an empty pile. -/
private theorem giveFrom_empty_iff (hc : g.used w = some c) (h0 : g.cardNum = 0)
    (hn : -1 ≤ g.handNum w) (k n : Nat) :
    (∃ g', giveFrom rand w k n adopted g = .ok g') ↔
      n = 0 ∨ (free adopted g).Nonempty ∧ (free adopted g).card < 108 ∧
        (n ≤ (free adopted g).card ∨
          ¬ free adopted g ⊆ g.hand w ∪ firstCards (free adopted g).card) := by
  cases n with
  | zero => exact iff_of_true ⟨g, rfl⟩ (.inl rfl)
  | succ n =>
    rw [giveFrom_empty hc h0, or_iff_right (Nat.succ_ne_zero n), ← Finset.card_pos]
    by_cases hbad : (free adopted g).card = 0 ∨ 108 ≤ (free adopted g).card
    · rw [if_pos hbad]
      refine iff_of_false ?_ (by omega)
      rintro ⟨g', hg'⟩
      cases hg'
    rw [if_neg hbad]
    have hpos : 0 < (free adopted g).card := by omega
    have hsmall : (free adopted g).card < 108 := by omega
    rw [and_iff_right hpos, and_iff_right hsmall]
    rcases Nat.lt_or_ge (free adopted g).card (n + 1) with hlt | hge
    · obtain ⟨m, hm⟩ := Nat.exists_eq_add_of_lt hlt
      obtain ⟨r, hr, hused, hzero, hrw, hown, hfree⟩ :=
        refilled_drawn (w := w) (c := c) (g := g) adopted (rand k) hn hpos
      rw [or_iff_right (by omega : ¬ n + 1 ≤ (free adopted g).card), hm, Nat.add_assoc,
        giveFrom_refilled hc hsmall k _ _ (le_refl _), hr]
      have hleft : (free (g.adopt adopted) r).Nonempty ↔
          ¬ free adopted g ⊆ g.hand w ∪ firstCards (free adopted g).card := by
        rw [Finset.not_subset]
        refine exists_congr fun q ↦ ?_
        rw [hfree, Finset.mem_union, not_or]
      rw [← hleft]
      constructor
      · rintro ⟨g', hg'⟩
        rw [giveFrom_empty (hused ▸ hc) hzero] at hg'
        split at hg'
        · cases hg'
        · next hok => exact Finset.card_pos.mp (by omega)
      · intro hne
        refine giveFrom_ever (hused ▸ hc) hzero hrw hne ?_ _ _
        have hle : (free (g.adopt adopted) r).card ≤ (free adopted g).card :=
          Finset.card_le_card fun q hq ↦ ((hfree q).mp hq).1
        exact fun q hq ↦ (hown q).mpr (.inr (firstCards_mono hle hq))
    · exact iff_of_true ⟨_, giveFrom_refilled hc hsmall k (n + 1) 0 hge⟩ (.inl hge)

/-! ### Calls of `GiveCardToPlayer` -/

namespace Game

/-- The cards nobody can be given once seat `w` has drawn the pile: those in hands of seats still in the
game, and when there is a pile the hand of `w` and the pile. -/
def held (g : Game) (w : Seat) : Finset CardId :=
  Finset.univ.filter fun q ↦ (∃ j, g.handNum j ≠ -1 ∧ q ∈ g.hand j) ∨
    0 < g.cardNum ∧ (q ∈ g.hand w ∨ ∃ k < g.cardNum, g.cardSeq k = q)

/-- There are `n` cards for seat `w`: in the pile, or in the pile and the one it is replaced with. That
one has as many cards as are not held, and it can be replaced again when it leaves out a card that is
not held. -/
def Supplies (g : Game) (w : Seat) (n : Nat) : Prop :=
  n ≤ g.cardNum ∨ (g.held w)ᶜ.Nonempty ∧ (g.held w)ᶜ.card < 108 ∧
    (n ≤ g.cardNum + (g.held w)ᶜ.card ∨
      ¬ (g.held w)ᶜ ⊆ g.hand w ∪ firstCards (g.held w)ᶜ.card)

end Game

private theorem free_drawn (hw : -1 ≤ g.handNum w) :
    free ∅ (drawn w c g.cardNum g) = (g.held w)ᶜ := by
  have h := drawn_frame (w := w) (c := c) (g := g) _ (le_refl _)
  ext q
  unfold held
  rw [mem_free, Finset.mem_compl, Finset.mem_filter, and_iff_right (Finset.mem_univ q),
    and_iff_right (Finset.notMem_empty q), ← not_exists.trans (forall_congr' fun j ↦ not_and)]
  refine not_congr ?_
  have hown (hq : q ∈ (drawn w c g.cardNum g).hand w) :
      q ∈ g.hand w ∨ ∃ k < g.cardNum, g.cardSeq k = q :=
    ((h.own q).mp hq).imp_right fun ⟨k, _, hk, he⟩ ↦ ⟨k, hk, he⟩
  constructor
  · rintro ⟨j, hj, hq⟩
    by_cases hjw : j = w
    · subst hjw
      rcases Nat.eq_zero_or_pos g.cardNum with h0 | hpos
      · refine .inl ⟨j, ?_, ?_⟩
        · rw [h.num, h0, Nat.cast_zero, add_zero] at hj
          exact hj
        · rcases hown hq with hq | ⟨k, hk, -⟩
          · exact hq
          · omega
      · exact .inr ⟨hpos, hown hq⟩
    · rw [h.handNum j hjw] at hj
      rw [h.hand j hjw] at hq
      exact .inl ⟨j, hj, hq⟩
  · rintro (⟨j, hj, hq⟩ | ⟨hpos, hq⟩)
    · by_cases hjw : j = w
      · subst hjw
        refine ⟨j, ?_, (h.own q).mpr (.inl hq)⟩
        rw [h.num]
        omega
      · refine ⟨j, ?_, ?_⟩
        · rw [h.handNum j hjw]
          exact hj
        · rw [h.hand j hjw]
          exact hq
    · refine ⟨w, ?_, (h.own q).mpr (hq.imp_right fun ⟨k, hk, he⟩ ↦ ⟨k, by omega, hk, he⟩)⟩
      rw [h.num]
      omega

/-- A call for an occupied seat stays inside the array exactly when there are cards. -/
theorem giveCardToPlayer_iff (hc : g.used w = some c) (hpile : g.cardNum < 108)
    (hw : -1 ≤ g.handNum w) (n : Nat) :
    (∃ g', giveCardToPlayer rand w n g = .ok g') ↔ g.Supplies w n := by
  unfold giveCardToPlayer Supplies
  rcases Nat.lt_or_ge g.cardNum n with hlt | hge
  · obtain ⟨m, rfl⟩ := Nat.exists_eq_add_of_lt hlt
    have h := drawn_frame (w := w) (c := c) (g := g) _ (le_refl _)
    have hzero : (drawn w c g.cardNum g).cardNum = 0 := by
      rw [h.cardNum, Nat.sub_self]
    have hown : (g.held w)ᶜ ⊆ (drawn w c g.cardNum g).hand w ∪ firstCards (g.held w)ᶜ.card ↔
        (g.held w)ᶜ ⊆ g.hand w ∪ firstCards (g.held w)ᶜ.card := by
      refine forall_congr' fun q ↦ imp_congr_right fun hq ↦ ?_
      rw [Finset.mem_union, Finset.mem_union, h.own]
      refine or_congr_left (or_iff_left ?_)
      -- a card of the pile is held
      rintro ⟨k, -, hk, he⟩
      refine Finset.mem_compl.mp hq (Finset.mem_filter.mpr ⟨Finset.mem_univ q, .inr ⟨?_, ?_⟩⟩)
      · omega
      · exact .inr ⟨k, hk, he⟩
    rw [Nat.add_assoc, or_iff_right (show ¬ g.cardNum + (m + 1) ≤ g.cardNum by omega),
      Nat.add_le_add_iff_left, giveFrom_pile hc hpile 0 _ _ (le_refl _),
      giveFrom_empty_iff (h.used ▸ hc) hzero (by rw [h.num]; omega), free_drawn hw, hown,
      or_iff_right (Nat.succ_ne_zero m)]
  · refine iff_of_true ?_ (.inl hge)
    obtain ⟨m, hm⟩ := Nat.exists_eq_add_of_le hge
    exact ⟨_, giveFrom_pile hc hpile 0 n 0 hge⟩

/-! ### The calls a step makes -/

namespace Game

/-- What `rand ()` yields in a step. -/
def drawRand : GameAct → Nat → Nat → Nat
  | .pass => fun _ _ ↦ 0
  | .recv env _ => env.rand
  | .settle env => env.rand

/-- The table of the call of `GiveCardToPlayer` a step makes: after a play the one the card is shown on,
with the turn moved on, and else the one the step starts from. -/
def drawTable (g : Game) : GameAct → Game
  | .recv env (.line recvline) =>
    match g.pc, arg1 (chop recvline) with
    | .scan i, .ok cardName =>
      if charAt (chop recvline) 0 = '9' then
        match (g.putDown env.residue cardName i).cardId with
        | some q => ((g.putDown env.residue cardName i).showCard q (charAt cardName 1)).nextTurn
        | none => g
      else g
    | _, _ => g
  | _ => g

/-- What comes before the call in a step goes well: the seat is readable, or the connections that
a settlement names exist. -/
def Reaches (g : Game) : GameAct → Prop
  | .pass => False
  | .recv _ _ => ∃ i, g.pc = .scan i ∧ (g.used i).isSome ∧ g.handNum i ≠ -1
  | .settle _ => g.pc = .settle ∧
      ∀ u, g.haveUno = some u → (g.used u).isSome ∧ (g.used (g.fastest u)).isSome

/-- Step `a` makes the call of `GiveCardToPlayer` for seat `w` and `n` cards. -/
def Calls (g : Game) (a : GameAct) (w : Seat) (n : Nat) : Prop :=
  g.handOut a = some (w, n) ∧ g.Reaches a

/-- Where the call made for a line comes from: it is made for the seat read from or the one that has the
turn, or after a play for the next one. -/
private structure LineCall (env : Env) (i : Seat) (l : Text) (g : Game) (w : Seat) (n : Nat) : Prop where
  body : ∃ rest, recv env i (.line l) g =
    giveCardToPlayer env.rand w n (g.drawTable (.recv env (.line l))) >>= rest
  table : g.drawTable (.recv env (.line l)) = g ∧ (w = i ∨ w = g.whoseRound) ∨
    ∃ cardName q c, 0 < (g.putDown env.residue cardName i).handNum i ∧
      g.drawTable (.recv env (.line l)) = ((g.putDown env.residue cardName i).showCard q c).nextTurn ∧
      w = (g.drawTable (.recv env (.line l))).whoseRound

private theorem play_call {env : Env} {i : Seat} {l : Text} {n : Nat} (hpc : g.pc = .scan i)
    (h9 : charAt (chop l) 0 = '9') (hrecv : recv env i (.line l) g = play env i (chop l) g)
    (hout : g.handOutPlay env i (chop l) = some (w, n)) : LineCall env i l g w n := by
  unfold handOutPlay at hout
  cases harg : arg1 (chop l) with
  | error e =>
    rw [harg] at hout
    cases hout
  | ok cardName =>
    rw [harg] at hout
    dsimp only at hout
    cases hid : (g.putDown env.residue cardName i).cardId with
    | none =>
      rw [hid] at hout
      cases hout
    | some q =>
      rw [hid] at hout
      dsimp only at hout
      let shown := (g.putDown env.residue cardName i).showCard q (charAt cardName 1)
      have htable : g.drawTable (.recv env (.line l)) = shown.nextTurn := by
        unfold drawTable
        dsimp only
        rw [hpc, harg]
        dsimp only
        rw [if_pos h9, hid]
      split at hout
      · cases hout
      next hpos =>
      have hplay : recv env i (.line l) g = cardEffect env.rand shown >>= startRound env.name cardName := by
        rw [hrecv]
        unfold play
        rw [harg, ok_bind]
        dsimp only
        rw [hid]
        exact if_neg hpos
      have hdraw (m : Nat) (heffect : cardEffect env.rand shown = drawAndSkip env.rand m shown)
          (hwn : some (shown.nextTurn.whoseRound, m) = some (w, n)) : LineCall env i l g w n := by
        cases hwn
        refine ⟨⟨fun r ↦ .ok r.nextTurn >>= startRound env.name cardName, ?_⟩,
          .inr ⟨cardName, q, charAt cardName 1, Int.not_le.mp hpos, htable, ?_⟩⟩
        · rw [hplay, heffect, htable]
          unfold drawAndSkip
          dsimp only
          rw [bind_assoc]
        · rw [htable]
      have hq : shown.tableCard = q := rfl
      split at hout
      · next h92 =>
        refine hdraw 2 ?_ hout
        unfold cardEffect
        rw [hq]
        dsimp only
        rw [if_neg (by omega), if_neg (by omega), if_pos h92]
      split at hout
      · next h104 =>
        refine hdraw 4 ?_ hout
        unfold cardEffect
        rw [hq]
        dsimp only
        rw [if_neg (by omega), if_neg (by omega), if_neg (by omega), if_pos h104]
      · cases hout

private theorem penalty_call {i : Seat} {l : Text} {n : Nat}
    (hout : handOutPenalty i l = some (w, n)) :
    w = i ∧ n = 2 ∧ ∃ valid, arg1 l = .ok valid ∧ charAt valid 0 = '0' := by
  unfold handOutPenalty at hout
  cases harg : arg1 l with
  | error e =>
    rw [harg] at hout
    cases hout
  | ok valid =>
    rw [harg] at hout
    dsimp only at hout
    split at hout
    · next h0 =>
      cases hout
      exact ⟨rfl, rfl, valid, rfl, h0⟩
    · cases hout

private theorem line_call {env : Env} {i : Seat} {l : Text} {n : Nat} (hpc : g.pc = .scan i)
    (hout : g.handOutLine env i l = some (w, n)) : LineCall env i l g w n := by
  unfold handOutLine at hout
  split at hout
  · cases hout
  next h8 =>
  split at hout
  · cases hout
  next h21 =>
  dsimp only at hout
  have htable (h9 : ¬ charAt (chop l) 0 = '9') : g.drawTable (.recv env (.line l)) = g := by
    unfold drawTable
    dsimp only
    split
    · rw [if_neg h9]
    · rfl
  split at hout
  · next h9 =>
    refine play_call hpc h9 ?_ hout
    unfold recv
    dsimp only
    rw [if_neg h8, if_neg h21, if_pos h9]
  next h9 =>
  split at hout
  · next h10 =>
    cases hout
    refine ⟨⟨fun r ↦ startRound env.name (recolour r.tableCard r.colour) r.nextTurn, ?_⟩,
      .inl ⟨htable h9, .inr rfl⟩⟩
    rw [htable h9]
    unfold recv Game.skip
    dsimp only
    rw [if_neg h8, if_neg h21, if_neg h9, if_pos h10]
  next h10 =>
  split at hout
  · next h11 =>
    obtain ⟨rfl, rfl, valid, harg, h0⟩ := penalty_call hout
    refine ⟨⟨fun r ↦ r.conn w >>= fun c ↦
      .ok (r.sendToEveryoneInGame none (line1 ['1', '1'] (env.name c))), ?_⟩,
      .inl ⟨htable h9, .inl rfl⟩⟩
    rw [htable h9]
    unfold recv callUno
    dsimp only
    rw [if_neg h8, if_neg h21, if_neg h9, if_neg h10, if_pos h11, harg, ok_bind, if_pos h0]
  next h11 =>
  split at hout
  · next h12 =>
    obtain ⟨rfl, rfl, valid, harg, h0⟩ := penalty_call hout
    refine ⟨⟨fun r ↦ r.conn w >>= fun c ↦ arg2 (chop l) >>= fun named ↦
      .ok (r.sendToEveryoneInGame none (line2 ['1', '9'] (env.name c) named)), ?_⟩,
      .inl ⟨htable h9, .inl rfl⟩⟩
    rw [htable h9]
    unfold recv catchUno
    dsimp only
    rw [if_neg h8, if_neg h21, if_neg h9, if_neg h10, if_neg h11, if_pos h12, harg, ok_bind, if_pos h0]
  · cases hout

private theorem settle_call {env : Env} {n : Nat} (hout : g.handOut (.settle env) = some (w, n))
    (hreach : g.Reaches (.settle env)) : g.haveUno = some w ∧ n = 2 ∧ g.step (.settle env) =
      (giveCardToPlayer env.rand w n g >>= fun g' ↦ .ok (g'.sendToEveryoneInGame none
        (line2 ['1', '3'] (env.name (seatAsConn w)) (env.name (seatAsConn (g.fastest w)))))) >>=
      fun g' ↦ .ok g'.newRound := by
  obtain ⟨hpc, hseats⟩ := hreach
  cases hu : g.haveUno with
  | none =>
    unfold handOut at hout
    dsimp only at hout
    rw [hu] at hout
    cases hout
  | some u =>
    unfold handOut at hout
    dsimp only at hout
    rw [hu] at hout
    dsimp only at hout
    split at hout
    · cases hout
    next hne =>
    cases hout
    obtain ⟨hcu, hcf⟩ := hseats w hu
    have hconn (i : Seat) (hi : (g.used i).isSome) : ∃ c, g.conn i = .ok c := by
      obtain ⟨c, hc⟩ := Option.isSome_iff_exists.mp hi
      refine ⟨c, ?_⟩
      unfold conn
      rw [hc]
    obtain ⟨c, hc⟩ := hconn w hcu
    obtain ⟨c', hc'⟩ := hconn (g.fastest w) hcf
    refine ⟨rfl, rfl, ?_⟩
    unfold step
    dsimp only
    rw [hpc]
    dsimp only
    unfold settle
    rw [hu]
    dsimp only
    unfold settleUno
    dsimp only
    rw [hc, ok_bind, if_neg hne, hc', ok_bind]

/-- A call that leaves the array ends the thread. -/
theorem step_of_call {a : GameAct} {n : Nat} {e : Stop} (h : g.Calls a w n)
    (hgive : giveCardToPlayer (drawRand a) w n (g.drawTable a) = .error e) : g.step a = .error e := by
  obtain ⟨hout, hreach⟩ := h
  cases a with
  | pass => exact hreach.elim
  | settle env =>
    obtain ⟨-, -, hstep⟩ := settle_call hout hreach
    rw [hstep, show giveCardToPlayer env.rand w n g = .error e from hgive]
    rfl
  | recv env event =>
    obtain ⟨i, hpc, hu, hn⟩ := hreach
    unfold handOut at hout
    rw [hpc] at hout
    cases event with
    | eof => cases hout
    | line l =>
      obtain ⟨rest, hrest⟩ := (line_call hpc hout).body
      rw [step_recv_eq hpc hu hn, hrest, show giveCardToPlayer env.rand w n _ = .error e from hgive]
      rfl

/-- In a running game a call is made for a seat with a connection. -/
private theorem Calls.seated {a : GameAct} {n : Nat} (h : g.Calls a w n) (hg : Alive g) :
    Alive (g.drawTable a) ∧ ((g.drawTable a).used w).isSome := by
  obtain ⟨hout, hreach⟩ := h
  cases a with
  | pass => exact hreach.elim
  | settle env =>
    have hseats := hreach.2
    obtain ⟨hu, -, -⟩ := settle_call hout hreach
    exact ⟨hg, (hseats w hu).1⟩
  | recv env event =>
    obtain ⟨i, hpc, hu, hn⟩ := hreach
    unfold handOut at hout
    rw [hpc] at hout
    cases event with
    | eof => cases hout
    | line l =>
      rcases (line_call hpc hout).table with ⟨ht, hw⟩ | ⟨cardName, q, c, hpos, ht, hw⟩
      · rw [ht]
        refine ⟨hg, ?_⟩
        rcases hw with rfl | rfl
        · exact hu
        · exact hg.conns _ hg.turn
      · have halive : Alive (g.drawTable (.recv env (.line l))) := by
          rw [ht]
          exact (hg.shown hn hpos).nextTurn
        refine ⟨halive, ?_⟩
        have hround := halive.conns _ halive.turn
        rw [← hw] at hround
        exact hround

end Game

/-- In every state a game reaches, a call of `GiveCardToPlayer` stays inside `card_seq` exactly when there
are cards for it. -/
theorem draws_in_pile {name : ConnId → Text} {rand : Nat → Nat} {draw playerNum n : Nat}
    {used : Seat → Option ConnId} {g₀ : Game} {a : GameAct}
    (hstart : gameStart name rand draw used playerNum = .ok g₀)
    (hcount : playerNum = (Finset.univ.filter fun i ↦ (used i).isSome).card)
    (htwo : 2 ≤ playerNum) (hr : Run GameStep g₀ g) (hcall : g.Calls a w n) :
    (∃ g', giveCardToPlayer (drawRand a) w n (g.drawTable a) = .ok g') ↔
      (g.drawTable a).Supplies w n := by
  have halive : Alive g := by
    refine (run_alive hstart hcount htwo hr).resolve_left fun hend ↦ ?_
    -- no step is made once the game is over
    cases a with
    | pass => exact hcall.2
    | recv env event =>
      obtain ⟨i, hpc, -⟩ := hcall.2
      rw [hend] at hpc
      cases hpc
    | settle env =>
      have hpc := hcall.2.1
      rw [hend] at hpc
      cases hpc
  obtain ⟨ht, hused⟩ := hcall.seated halive
  obtain ⟨c, hc⟩ := Option.isSome_iff_exists.mp hused
  refine giveCardToPlayer_iff hc ht.pile ?_ n
  by_cases hw : (g.drawTable a).handNum w = -1
  · omega
  · have := ht.cards w hw
    omega

private theorem calls_wrongCall {i : Seat} {c : ConnId} (hpc : g.pc = .scan i)
    (hc : g.used i = some c) (hn : g.handNum i ≠ -1) : g.Calls wrongCall i 2 := by
  refine ⟨handOut_wrongCall hpc, i, hpc, ?_, hn⟩
  rw [hc]
  rfl

/-- The first call of a game of nine players. -/
theorem draws_in_pile_wrongCall :
    ∃ g, gameStart plainName (inOrder.rand 0) 0 nineSeats 9 = .ok g ∧ g.Calls wrongCall 0 2 ∧
      ∃ g', giveCardToPlayer inOrder.rand 0 2 g = .ok g' := by
  obtain ⟨g, hg, h⟩ := draining_start
  have hc : g.used 0 = some 0 := by
    rw [h.used]
    rfl
  have hcall : g.Calls wrongCall 0 2 := calls_wrongCall h.pc hc ((h.handNum 0).mpr (by decide))
  have htable : g.drawTable wrongCall = g := by
    unfold drawTable wrongCall
    rw [h.pc]
    rfl
  have hgive := (draws_in_pile hg (by decide) (by decide) RunWith.refl hcall).mpr (.inl (by
    rw [htable, h.cardNum]
    decide))
  rw [htable] at hgive
  exact ⟨g, hg, hcall, hgive⟩

/-- Seat 0 has drawn the pile empty and the opening card is 0. -/
private theorem exchanged_drained :
    ∃ g₀ g, gameStart plainName exchanged 0 nineSeats 9 = .ok g₀ ∧ Run GameStep g₀ g ∧
      Draining 0 0 g := by
  obtain ⟨g₀, hg₀, hnum, hseq, hhand⟩ := gameStart_exchanged
  obtain ⟨g, hg, h⟩ :=
    draining_turns 22 (draining_opened (gameStart_opened hg₀) hnum hseq hhand)
  exact ⟨g₀, g, hg₀, run_of_runActs Game.step _ g₀ g hg, h⟩

/-- A player draws 44 cards, and the next is to draw two: the first is the opening card, which was the
only one left, and the second is read below the array. -/
theorem draw_below_pile :
    ∃ g₀ g, gameStart plainName exchanged 0 nineSeats 9 = .ok g₀ ∧ Run GameStep g₀ g ∧
      g.Calls wrongCall 1 2 ∧ (∃ e, g.step wrongCall = .error e) ∧
      ¬ ∃ g', giveCardToPlayer (drawRand wrongCall) 1 2 (g.drawTable wrongCall) = .ok g' := by
  obtain ⟨g₀, g, hg₀, hr, h⟩ := exchanged_drained
  have hpass : GameStep g .pass (g.advance 0) := by
    unfold GameStep step
    rw [h.pc]
  have hpc : (g.advance 0).pc = .scan 1 := by
    unfold advance
    rw [h.pc]
    rfl
  have hbooks : Books g (g.advance 0) := books_advance 0
  have hc : (g.advance 0).used 1 = some 1 := by
    rw [hbooks.used, h.used]
    rfl
  have hn : (g.advance 0).handNum 1 = 7 := by
    rw [hbooks.handNum]
    exact h.num.2
  have hnum : (g.advance 0).cardNum = 0 := by
    rw [hbooks.cardNum]
    exact h.cardNum
  have hcall : (g.advance 0).Calls wrongCall 1 2 := calls_wrongCall hpc hc (by rw [hn]; decide)
  have htable : (g.advance 0).drawTable wrongCall = g.advance 0 := by
    unfold drawTable wrongCall
    rw [hpc]
    rfl
  have hheld : ((g.advance 0).held 1)ᶜ = {0} := by
    ext q
    rw [Finset.mem_compl, Finset.mem_singleton, ← not_ne_iff (a := q), ← held_drained (by decide) h q]
    unfold held
    rw [Finset.mem_filter, and_iff_right (Finset.mem_univ q), hbooks.handNum, hbooks.hand, hnum,
      or_iff_left (fun he ↦ absurd he.1 (Nat.lt_irrefl 0))]
  have hfail : ¬ ∃ g', giveCardToPlayer (drawRand wrongCall) 1 2 (g.advance 0) = .ok g' := by
    rw [giveCardToPlayer_iff hc (by rw [hnum]; decide) (by rw [hn]; decide)]
    unfold Supplies
    rw [hnum, hheld]
    rintro (h2 | ⟨-, -, h2 | hsub⟩)
    · exact absurd h2 (by decide)
    · exact absurd h2 (by decide)
    · -- the card of the new pile is the one that is not held
      refine hsub fun q hq ↦ Finset.mem_union_right _ ?_
      rw [Finset.mem_singleton.mp hq]
      decide
  refine ⟨g₀, g.advance 0, hg₀, hr.snoc trivial hpass, hcall, ?_, ?_⟩
  · cases hgive : giveCardToPlayer (drawRand wrongCall) 1 2 (g.advance 0) with
    | error e => exact ⟨e, step_of_call hcall (by rw [htable]; exact hgive)⟩
    | ok g' => exact absurd ⟨g', hgive⟩ hfail
  · rw [htable]
    exact hfail

end Unpv13e.Uno
