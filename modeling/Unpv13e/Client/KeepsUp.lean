import Unpv13e.Client.Counters

/-!
# Keeping up with the server

Library `Client`. Every step of the loop of `GameStart` that meets `Mirrored` takes players whose counters are those
of the game to such players again (`src/tcpcliserv/final_server.c:387–654`).
-/

namespace Unpv13e.Client
open Unpv13e.Base Unpv13e.Uno Game

variable {name : ConnId → Text} {c d : ConnId} {g g' r : Game} {i w : Seat}

/-! ### What is left of a table -/

/-- Cards are given and nothing else happens to the hands, at most `n` to a seat. -/
structure Deals (n : Nat) (g g' : Game) : Prop where
  used : g'.used = g.used
  colour : g'.colour = g.colour
  hand : ∀ j, g.hand j ⊆ g'.hand j
  low : ∀ j, g.handNum j ≤ g'.handNum j
  high : ∀ j, g'.handNum j ≤ g.handNum j + n
  pile : g.cardNum ≤ 108 → g'.cardNum ≤ 108

private theorem deals_same (hu : g'.used = g.used) (hcol : g'.colour = g.colour) (hh : g'.hand = g.hand)
    (hn : g'.handNum = g.handNum) (hp : g'.cardNum = g.cardNum) : Deals 0 g g' := by
  refine ⟨hu, hcol, fun j ↦ by rw [hh], fun j ↦ by rw [hn], fun j ↦ ?_, fun h ↦ by rw [hp]; exact h⟩
  rw [hn, Nat.cast_zero, add_zero]

theorem Deals.trans {m n : Nat} (h : Deals m g r) (h' : Deals n r g') : Deals (m + n) g g' := by
  refine ⟨h'.used.trans h.used, h'.colour.trans h.colour, fun j ↦ (h.hand j).trans (h'.hand j),
    fun j ↦ (h.low j).trans (h'.low j), fun j ↦ ?_, fun hp ↦ h'.pile (h.pile hp)⟩
  have hm := h.high j
  have hn := h'.high j
  push_cast
  omega

private theorem Deals.weaken {m n : Nat} (h : Deals m g g') (hmn : m ≤ n) : Deals n g g' := by
  refine ⟨h.used, h.colour, h.hand, h.low, fun j ↦ ?_, h.pile⟩
  have := h.high j
  omega

private theorem deals_takeTop : Deals 1 g (g.takeTop w d) := by
  refine ⟨rfl, rfl, fun j ↦ ?_, fun j ↦ ?_, fun j ↦ ?_, fun h ↦ ?_⟩
  · by_cases hjw : j = w
    · subst hjw
      rw [hand_takeTop]
      exact Finset.subset_insert _ _
    · rw [hand_takeTop_of_ne hjw]
  · by_cases hjw : j = w
    · subst hjw
      rw [handNum_takeTop]
      omega
    · rw [handNum_takeTop_of_ne hjw]
  · by_cases hjw : j = w
    · subst hjw
      rw [handNum_takeTop, Nat.cast_one]
    · rw [handNum_takeTop_of_ne hjw]
      omega
  · change g.cardNum - 1 ≤ 108
    omega

theorem deals_giveFrom {rand : Nat → Nat → Nat} (t n : Nat) (adopted : Finset CardId)
    (h : giveFrom rand w t n adopted g = .ok g') : Deals n g g' := by
  have hrule := giveFrom_rule (I := fun m r ↦ Deals m g r) (m := 0) ?_ ?_ h (deals_same rfl rfl rfl rfl rfl)
  · rwa [Nat.zero_add] at hrule
  · intro m rand adopted r _ hr
    refine ⟨hr.used, hr.colour, hr.hand, hr.low, hr.high, fun _ ↦ ?_⟩
    change ((List.finRange 108).filter _).length ≤ 108
    exact (List.length_filter_le _ _).trans (by rw [List.length_finRange])
  · intro m c r _ _ _ hr
    exact hr.trans deals_takeTop

/-- The effect of the card on the table gives at most four cards. -/
private theorem deals_cardEffect {rand : Nat → Nat → Nat} (h : cardEffect rand g = .ok g') : Deals 4 g g' := by
  have hdrawn {n : Nat} (hn : n ≤ 4) (h : drawAndSkip rand n g = .ok g') : Deals 4 g g' := by
    obtain ⟨r, hr, h⟩ := exists_of_bind_ok h
    cases h
    have hnext : Deals 0 g g.nextTurn := deals_same rfl rfl rfl rfl rfl
    have hlast : Deals 0 r r.nextTurn := deals_same rfl rfl rfl rfl rfl
    exact ((hnext.trans (deals_giveFrom 0 n ∅ hr)).trans hlast).weaken (by omega)
  have hturned {g' : Game} (hsame : Deals 0 g g') : Deals 4 g g' := hsame.weaken (Nat.zero_le 4)
  unfold cardEffect at h
  dsimp only at h
  split at h
  · cases h
    exact hturned (deals_same rfl rfl rfl rfl rfl)
  split at h
  · cases h
    split
    · exact hturned (deals_same rfl rfl rfl rfl rfl)
    · exact hturned (deals_same rfl rfl rfl rfl rfl)
  split at h
  · exact hdrawn (by decide) h
  split at h
  · exact hdrawn (by decide) h
  · cases h
    exact hturned (deals_same rfl rfl rfl rfl rfl)

/-- Whatever the card does, the players stay the ones they are. -/
private theorem told_cardEffect {rand : Nat → Nat → Nat} (hc : Player name i c g)
    (h : cardEffect rand g = .ok g') :
    Told name c (fun v ↦ v.players = playersOf name g.used) g g' (fun v ↦ v.players = playersOf name g.used) := by
  have hdrawn {n : Nat} (h : drawAndSkip rand n g = .ok g') : Told name c
      (fun v ↦ v.players = playersOf name g.used) g g' (fun v ↦ v.players = playersOf name g.used) := by
    obtain ⟨r, hr, h⟩ := exists_of_bind_ok h
    cases h
    have hplayer : Player name i c g.nextTurn := hc.congr rfl (le_refl _)
    have hfirst : Told name c (fun v ↦ v.players = playersOf name g.used) g g.nextTurn
        (fun v ↦ v.players = playersOf name g.used) := told_same rfl fun v hv ↦ hv
    exact (hfirst.trans (told_given 0 n ∅ hplayer hr)).trans (told_same rfl fun v hv ↦ hv)
  unfold cardEffect at h
  dsimp only at h
  split at h
  · cases h
    exact told_same rfl fun v hv ↦ hv
  split at h
  · cases h
    split
    · exact told_same rfl fun v hv ↦ hv
    · exact told_same rfl fun v hv ↦ hv
  split at h
  · exact hdrawn h
  split at h
  · exact hdrawn h
  · cases h
    exact told_same rfl fun v hv ↦ hv
/-! ### Steps -/

/-- What the round lines of a table need: a card in every hand, a pile that can be told and a colour that can. -/
structure Ready (seats : Finset Seat) (g : Game) : Prop where
  colour : g.colour ≠ ' ' ∧ g.colour ≠ '\n'
  hands : ∀ j ∈ seats, (g.hand j).Nonempty
  pile : g.cardNum ≤ 108

/-- Every player in the game has kept up, and the table is ready for a round line. -/
def KeepsUp (name : ConnId → Text) (seats : Finset Seat) (g g' : Game) : Prop :=
  Ready seats g' ∧ ∀ i c, i ∈ seats → g.used i = some c → Told name c (Follows name g) g g' (Follows name g')

variable {conns : Seat → Option ConnId} {seats : Finset Seat} {env : Env}

theorem player_of_seated (hn : Named name conns) (hs : Seated conns seats g) (hi : i ∈ seats)
    (hc : g.used i = some c) : Player name i c g := by
  refine ⟨hs.used ▸ hn, hc, ?_⟩
  have := hs.bounded i hi
  omega

theorem low_of_seated (hs : Seated conns seats g) (j : Seat) : -1 ≤ g.handNum j := by
  by_cases hj : j ∈ seats
  · have := hs.bounded j hj
    omega
  · have hout : g.handNum j = -1 := by
      by_contra hne
      exact hj ((hs.handNum j).mp hne)
    omega

private theorem Ready.deals {n : Nat} (h : Ready seats g) (hd : Deals n g g') : Ready seats g' :=
  ⟨hd.colour ▸ h.colour, fun j hj ↦ (h.hands j hj).mono (hd.hand j), hd.pile h.pile⟩

/-- What the loop keeps for itself is not told. -/
private theorem KeepsUp.same (h : KeepsUp name seats g r) (hd : Deals 0 r g') (hout : g'.out = r.out)
    (hn : g'.handNum = r.handNum) (hc : g'.cardNum = r.cardNum) : KeepsUp name seats g g' := by
  refine ⟨h.1.deals hd, fun i c hi hu ↦ (h.2 i c hi hu).trans (told_same hout fun v hv ↦ ?_)⟩
  exact hv.congr hd.used hn hc

private theorem keepsUp_refl (h : Ready seats g) : KeepsUp name seats g g :=
  ⟨h, fun _ _ _ _ ↦ told_same rfl fun _ hv ↦ hv⟩

theorem KeepsUp.advance (h : KeepsUp name seats g r) (k : Seat) : KeepsUp name seats g (r.advance k) := by
  have hb := books_advance (g := r) k
  refine h.same (deals_same hb.used ?_ hb.hand hb.handNum hb.cardNum) hb.out hb.handNum hb.cardNum
  unfold Game.advance
  split
  · rfl
  · rfl

/-- A line that every player hears and that counts no card. -/
private theorem keepsUp_line {line : Text} (hn : Named name conns) (hs : Seated conns seats g) (hr : Ready seats g)
    (h : ∀ (myId : Text) (v : View), ∃ v', v.handle myId line = .ok v' ∧ v'.players = v.players ∧
      v'.playerRemain = v.playerRemain ∧ v'.cardRemain = v.cardRemain) :
    KeepsUp name seats g (g.sendToEveryoneInGame none line) := by
  refine ⟨hr.deals (deals_same rfl rfl rfl rfl rfl), fun i c hi hu ↦ ?_⟩
  have hc := player_of_seated hn hs hi hu
  refine told_everyone none hc.named hc.active (fun hno ↦ by cases hno) fun _ v hv ↦ ?_
  obtain ⟨v', hv', hp, hrem, hcard⟩ := h (name c) v
  refine ⟨v', hv', hp.trans hv.players, fun j d k hj hk ↦ ?_, hcard.trans hv.cardRemain⟩
  rw [hp] at hk
  rw [hrem]
  exact hv.playerRemain j d k hj hk

/-- A penalty: two cards for a seat, and a line that names it. -/
private theorem keepsUp_penalty {rand : Nat → Nat → Nat} {line : Text} (hn : Named name conns)
    (hs : Seated conns seats g) (hr : Ready seats g) (hw : g.used w = some d) (hpile : 2 ≤ g.cardNum)
    (hgive : giveCardToPlayer rand w 2 g = .ok r)
    (hline : ∀ (myId : Text) (v : View), v.handle myId line = .ok (v.punish myId (name d))) :
    KeepsUp name seats g (r.sendToEveryoneInGame none line) := by
  have hdeals := deals_giveFrom 0 2 ∅ hgive
  refine ⟨hr.deals (hdeals.trans (deals_same rfl rfl rfl rfl rfl)), fun i c hi hu ↦ ?_⟩
  have hc := player_of_seated hn hs hi hu
  obtain ⟨htold, hcr⟩ := told_giveFrom (k := 0) 0 2 ∅ hc hpile hgive
  have hfirst : Told name c (Follows name g) g g (Lags name w 0 g) := told_same rfl fun v hv ↦ (lags_zero w).mpr hv
  refine (hfirst.trans htold).trans ?_
  refine told_everyone none hcr.named hcr.active (fun hno ↦ by cases hno) fun _ v hv ↦ ⟨_, hline (name c) v, ?_⟩
  unfold View.punish
  by_cases hiw : i = w
  · -- the player has counted the cards by the lines `12`
    have hcd : name c = name d := by
      subst hiw
      rw [Option.some.inj (hu.symm.trans hw)]
    rw [if_pos hiw, add_zero] at hv
    rw [if_pos hcd]
    exact ((lags_zero w).mp hv).congr rfl rfl rfl
  · have hcd : name c ≠ name d := fun he ↦ hiw (hc.named.apart i w c d hu hw he)
    rw [if_neg hiw] at hv
    rw [if_neg hcd]
    have hadd : Lags name w (0 + 2 - 2) r (v.add (name d) 2) :=
      hv.add (m := 2) hcr.named (hdeals.used ▸ hw) rfl rfl rfl
    have hzero : Lags name w 0 r (v.add (name d) 2) := hadd
    exact ((lags_zero w).mp hzero).congr rfl rfl rfl

theorem isField_recolour (q : CardId) {colour : Char} (h : colour ≠ ' ' ∧ colour ≠ '\n') :
    IsField (recolour q colour) ∧ (recolour q colour).length ≤ 2 := by
  have hnul : Char.ofNat 0 ∉ cards q := by
    have table : ∀ w ∈ cardTable, Char.ofNat 0 ∉ w := by decide
    exact table _ (List.get_mem _ _)
  obtain ⟨a, b, hab⟩ := List.length_eq_two.mp (cards_word q).2
  have hfield := isField_cards q
  rw [hab] at hnul hfield
  have htake : (cards q).take 1 = [a] := by
    rw [hab]
    rfl
  have ha : a ≠ Char.ofNat 0 := fun he ↦ hnul (he ▸ List.mem_cons_self)
  have hmem {ch : Char} (hch : ch ∈ recolour q colour) : ch = a ∨ ch = colour := by
    have hin := (List.takeWhile_prefix _).sublist.subset hch
    rw [htake] at hin
    simpa using hin
  refine ⟨⟨⟨?_, fun hch ↦ ?_⟩, fun hch ↦ ?_⟩, ?_⟩
  · unfold recolour
    rw [htake, List.singleton_append, List.takeWhile_cons_of_pos (by simpa using ha)]
    exact List.cons_ne_nil _ _
  · rcases hmem hch with he | he
    · exact hfield.1.2 (he ▸ List.mem_cons_self)
    · exact h.1 he.symm
  · rcases hmem hch with he | he
    · exact hfield.2 (he ▸ List.mem_cons_self)
    · exact h.2 he.symm
  · have hlen := (List.takeWhile_prefix (l := (cards q).take 1 ++ [colour]) (· ≠ Char.ofNat 0)).length_le
    rw [htake] at hlen
    unfold recolour
    rw [htake]
    exact hlen

/-- A card is drawn: a round line follows. -/
private theorem keepsUp_skip (hn : Named name conns) (hs : Seated conns seats g) (hr : Ready seats g)
    (hcount : ∀ j, g.handNum j + 4 ≤ 2147483647)
    (hturn : ∀ d, g'.used g'.whoseRound = some d → env.name d = name d) (h : skip env g = .ok g') :
    KeepsUp name seats g g' := by
  obtain ⟨r, hgive, hround⟩ := exists_of_bind_ok h
  have hdeals := deals_giveFrom 0 1 ∅ hgive
  have hnext : Deals 0 r r.nextTurn := deals_same rfl rfl rfl rfl rfl
  have hall := hdeals.trans hnext
  have hready := hr.deals hall
  have hint : IsInt r.nextTurn.cardNum ∧ ∀ j, IsInt (r.nextTurn.handNum j) := by
    have hpile := hready.pile
    refine ⟨⟨by omega, by omega⟩, fun j ↦ ?_⟩
    have hlow := low_of_seated hs j
    have h1 := hall.low j
    have h2 := hall.high j
    have h3 := hcount j
    exact ⟨by omega, by omega⟩
  obtain ⟨e, he, hg'⟩ := startRound_emits hround
  have hround' : Deals 0 r.nextTurn g' := by
    rw [hg']
    exact deals_same rfl rfl rfl rfl rfl
  refine ⟨hready.deals hround', fun i c hi hu ↦ ?_⟩
  have hc := player_of_seated hn hs hi hu
  have hcr : Player name i c r.nextTurn := hc.congr hall.used (hall.low i)
  have hcard := isField_recolour r.tableCard hready.colour
  have hturn' : ∀ d, r.nextTurn.used r.nextTurn.whoseRound = some d → env.name d = name d := by
    rw [hg'] at hturn
    exact hturn
  have htold := told_startRound hcr hturn' hcard hint (hready.hands i hi) hround
  have hgiven := told_given 0 1 ∅ hc hgive
  have hfirst : Told name c (Follows name g) g g (fun v ↦ v.players = playersOf name g.used) :=
    told_same rfl fun v hv ↦ hv.players
  have hplayers : Told name c (fun v ↦ v.players = playersOf name g.used) r r.nextTurn
      (fun v ↦ v.players = playersOf name r.nextTurn.used) :=
    told_same rfl fun v hv ↦ by rw [hv, hall.used]
  exact ((hfirst.trans hgiven).trans hplayers).trans htold
/-- What putting a card down leaves of the table. -/
private theorem putDown_frame (residue cardName : Text) (k : Seat) (hs : Seated conns seats g) (hk : k ∈ seats)
    (hr : Ready seats g) (hlast : (g.hand k).card = 1 → g.handNum k = 1) :
    let r := g.putDown residue cardName k
    r.used = g.used ∧ r.out = g.out ∧ r.cardNum = g.cardNum ∧
      (∀ j, g.handNum j - 1 ≤ r.handNum j ∧ r.handNum j ≤ g.handNum j) ∧
      (∀ j, j ≠ k → r.handNum j = g.handNum j ∧ r.hand j = g.hand j) ∧
      (0 < r.handNum k → (r.hand k).Nonempty) := by
  dsimp only
  unfold putDown
  split
  · next q hq =>
    have hmem := findCard_mem hq
    have hbound := hs.bounded k hk
    have hpos : 0 < (g.hand k).card := Finset.card_pos.mpr ⟨q, hmem⟩
    refine ⟨rfl, rfl, rfl, fun j ↦ ?_, fun j hj ↦ ⟨handNum_dropCard_of_ne hj q g, hand_dropCard_of_ne hj q g⟩,
      fun hleft ↦ ?_⟩
    · by_cases hj : j = k
      · subst hj
        rw [handNum_dropCard]
        omega
      · rw [handNum_dropCard_of_ne hj]
        omega
    · rw [handNum_dropCard] at hleft
      rw [hand_dropCard, ← Finset.card_pos, Finset.card_erase_of_mem hmem]
      have hone : (g.hand k).card ≠ 1 := fun he ↦ by
        have := hlast he
        omega
      omega
  · refine ⟨rfl, rfl, rfl, fun j ↦ ⟨by omega, le_refl _⟩, fun _ _ ↦ ⟨rfl, rfl⟩, fun _ ↦ hr.hands k hk⟩

theorem charAt_mem {s : Text} {n : Nat} {ch : Char} (hs : ch ∉ s) (hch : ch ≠ Char.ofNat 0) :
    charAt s n ≠ ch := by
  intro he
  unfold charAt at he
  by_cases hn : n < s.length
  · rw [List.getD_eq_getElem _ _ hn] at he
    exact hs (he ▸ List.getElem_mem hn)
  · rw [List.getD_eq_default _ _ (by omega)] at he
    exact hch he.symm

/-- A card is played: a round line follows, or the game is over. -/
private theorem keepsUp_play {k : Seat} {l : Text} (hn : Named name conns) (hs : Seated conns seats g)
    (hk : k ∈ seats) (hr : Ready seats g) (hcount : ∀ j, g.handNum j + 4 ≤ 2147483647)
    (hcard : ∀ w, arg1 l = .ok w → IsField w ∧ w.length ≤ 2) (hlast : (g.hand k).card = 1 → g.handNum k = 1)
    (hturn : ∀ d, g'.used g'.whoseRound = some d → env.name d = name d) (hnot : g'.pc ≠ .ended)
    (h : play env k l g = .ok g') : KeepsUp name seats g g' := by
  obtain ⟨cardName, harg, h⟩ := exists_of_bind_ok h
  obtain ⟨hfield, hlen⟩ := hcard cardName harg
  obtain ⟨hused, hout, hnum, hbound, hother, hleft⟩ :=
    putDown_frame env.residue cardName k hs hk hr hlast
  dsimp only at h hused hout hnum hbound hother hleft
  generalize g.putDown env.residue cardName k = r at h hused hout hnum hbound hother hleft
  split at h
  · cases h
  next q hq =>
  by_cases hwin : (r.showCard q (charAt cardName 1)).handNum k ≤ 0
  · rw [if_pos hwin] at h
    obtain ⟨c, -, h⟩ := exists_of_bind_ok h
    split at h
    · cases h
    · cases h
      exact absurd rfl hnot
  rw [if_neg hwin] at h
  obtain ⟨t, heffect, hround⟩ := exists_of_bind_ok h
  have hpos : 0 < r.handNum k := not_le.mp hwin
  have hshown : Ready seats (r.showCard q (charAt cardName 1)) := by
    refine ⟨⟨charAt_mem hfield.1.2 (by decide), charAt_mem hfield.2 (by decide)⟩, fun j hj ↦ ?_, ?_⟩
    · by_cases hjk : j = k
      · subst hjk
        exact hleft hpos
      · have hsame : (r.showCard q (charAt cardName 1)).hand j = g.hand j := (hother j hjk).2
        rw [hsame]
        exact hr.hands j hj
    · exact hnum ▸ hr.pile
  have hplayer (i : Seat) (c : ConnId) (hi : i ∈ seats) (hu : g.used i = some c) :
      Player name i c (r.showCard q (charAt cardName 1)) := by
    have hc := player_of_seated hn hs hi hu
    refine ⟨hused ▸ hc.named, hused ▸ hu, ?_⟩
    change 0 ≤ r.handNum i
    by_cases hik : i = k
    · subst hik
      exact hpos.le
    · rw [(hother i hik).1]
      exact hc.low
  have hdeals := deals_cardEffect heffect
  have hready := hshown.deals hdeals
  have hint : IsInt t.cardNum ∧ ∀ j, IsInt (t.handNum j) := by
    have hpile := hready.pile
    refine ⟨⟨by omega, by omega⟩, fun j ↦ ?_⟩
    have hlow := low_of_seated hs j
    have h1 : r.handNum j ≤ t.handNum j := hdeals.low j
    have h2 : t.handNum j ≤ r.handNum j + 4 := hdeals.high j
    have h3 := hcount j
    have h4 := hbound j
    exact ⟨by omega, by omega⟩
  obtain ⟨e, he, hg'⟩ := startRound_emits hround
  have hround' : Deals 0 t g' := by
    rw [hg']
    exact deals_same rfl rfl rfl rfl rfl
  refine ⟨hready.deals hround', fun i c hi hu ↦ ?_⟩
  have hturn' : ∀ d, t.used t.whoseRound = some d → env.name d = name d := by
    rw [hg'] at hturn
    exact hturn
  have hcr := hplayer i c hi hu
  have htold := told_startRound (hcr.congr hdeals.used (hdeals.low i)) hturn' ⟨hfield, hlen⟩ hint
    (hready.hands i hi) hround
  have heff := told_cardEffect hcr heffect
  have hfirst : Told name c (Follows name g) g (r.showCard q (charAt cardName 1))
      (fun v ↦ v.players = playersOf name (r.showCard q (charAt cardName 1)).used) :=
    told_same hout fun v hv ↦ by rw [hv.players]; exact congrArg _ hused.symm
  refine ((hfirst.trans heff).mono fun v hv ↦ ?_).trans htold
  rw [hv, hdeals.used]

/-- The flags and the time stamps are not told. -/
private theorem keepsUp_stamp {k : Seat} {time : Except Stop Text} (h : KeepsUp name seats g r)
    (hs : stamp k time r = .ok g') : KeepsUp name seats g g' := by
  unfold stamp at hs
  split at hs
  · obtain ⟨t, -, hs⟩ := exists_of_bind_ok hs
    cases hs
    exact h.same (deals_same rfl rfl rfl rfl rfl) rfl rfl rfl
  · cases hs
    exact h

/-- The line `11`. -/
private theorem keepsUp_callUno {k : Seat} {l : Text} (hn : Named name conns) (hs : Seated conns seats g)
    (hk : k ∈ seats) (hr : Ready seats g) (hnames : KnowsNames name g env)
    (hpile : ∀ w n, handOutPenalty k l = some (w, n) → n ≤ g.cardNum) (h : callUno env k l g = .ok g') :
    KeepsUp name seats g g' := by
  obtain ⟨valid, harg, h⟩ := exists_of_bind_ok h
  split at h
  · next hzero =>
    obtain ⟨r, hgive, h⟩ := exists_of_bind_ok h
    obtain ⟨c, hc, h⟩ := exists_of_bind_ok h
    cases h
    have htwo : 2 ≤ g.cardNum := by
      apply hpile k 2
      unfold handOutPenalty
      rw [harg]
      exact if_pos hzero
    have hused : g.used k = some c := (deals_giveFrom 0 2 ∅ hgive).used ▸ used_of_conn hc
    have hknown : env.name c = name c := hnames k c (player_of_seated hn hs hk hused).active
    refine keepsUp_penalty hn hs hr hused htwo hgive fun myId v ↦ ?_
    rw [hknown]
    exact handle_wrongCall ((hs.used ▸ hn).isName k c hused).1 myId v
  split at h
  · have hset : KeepsUp name seats g (g.setUno (some k)) :=
      (keepsUp_refl hr).same (deals_same rfl rfl rfl rfl rfl) rfl rfl rfl
    exact keepsUp_stamp hset h
  · cases h
    exact keepsUp_refl hr

/-- The line `12`. -/
private theorem keepsUp_catchUno {k : Seat} {l : Text} (hn : Named name conns) (hs : Seated conns seats g)
    (hk : k ∈ seats) (hr : Ready seats g) (hnames : KnowsNames name g env)
    (hpile : ∀ w n, handOutPenalty k l = some (w, n) → n ≤ g.cardNum) (h : catchUno env k l g = .ok g') :
    KeepsUp name seats g g' := by
  obtain ⟨valid, harg, h⟩ := exists_of_bind_ok h
  split at h
  · next hzero =>
    obtain ⟨r, hgive, h⟩ := exists_of_bind_ok h
    obtain ⟨c, hc, h⟩ := exists_of_bind_ok h
    obtain ⟨w, -, h⟩ := exists_of_bind_ok h
    cases h
    have htwo : 2 ≤ g.cardNum := by
      apply hpile k 2
      unfold handOutPenalty
      rw [harg]
      exact if_pos hzero
    have hused : g.used k = some c := (deals_giveFrom 0 2 ∅ hgive).used ▸ used_of_conn hc
    have hknown : env.name c = name c := hnames k c (player_of_seated hn hs hk hused).active
    refine keepsUp_penalty hn hs hr hused htwo hgive fun myId v ↦ ?_
    rw [hknown]
    exact handle_wrongCatch ((hs.used ▸ hn).isName k c hused).1 w myId v
  · obtain ⟨named, -, h⟩ := exists_of_bind_ok h
    have hset (u : Option Seat) : KeepsUp name seats g (g.setUno u) :=
      (keepsUp_refl hr).same (deals_same rfl rfl rfl rfl rfl) rfl rfl rfl
    split at h
    · cases h
    split at h
    · exact keepsUp_stamp (hset _) h
    · cases h
      exact hset none

/-- The settlement at the end of a turn of the loop. -/
private theorem keepsUp_settle (hn : Named name conns) (hs : Seated conns seats g) (hr : Ready seats g)
    (hnames : KnowsNames name g env)
    (hsettled : ∀ u, g.haveUno = some u →
      u ∈ seats ∧ (g.fastest u ≠ u → ∀ c, g.used u = some c → env.name (seatAsConn u) = name c))
    (hpile : ∀ u, g.haveUno = some u → g.fastest u ≠ u → 2 ≤ g.cardNum) (h : settle env g = .ok g') :
    KeepsUp name seats g g' := by
  obtain ⟨r, hr', h⟩ := exists_of_bind_ok h
  cases h
  suffices hkeeps : KeepsUp name seats g r from
    hkeeps.same (deals_same rfl rfl rfl rfl rfl) rfl rfl rfl
  split at hr'
  · cases hr'
    exact keepsUp_refl hr
  next u hu =>
  obtain ⟨hin, hcaught⟩ := hsettled u hu
  obtain ⟨c, hc, hr'⟩ := exists_of_bind_ok hr'
  have hused := used_of_conn hc
  have hfield : IsField (name c) := ((hs.used ▸ hn).isName u c hused).1
  split at hr'
  · cases hr'
    have hknown : env.name c = name c := hnames u c (player_of_seated hn hs hin hused).active
    have hline : KeepsUp name seats g (g.sendToEveryoneInGame none (line1 ['1', '4'] (env.name c))) := by
      refine keepsUp_line hn hs hr fun myId v ↦ ⟨v.called (name c), ?_, rfl, rfl, rfl⟩
      rw [hknown]
      exact handle_called hfield myId v
    exact hline.same (deals_same rfl rfl rfl rfl rfl) rfl rfl rfl
  · next hfast =>
    obtain ⟨e, -, hr'⟩ := exists_of_bind_ok hr'
    obtain ⟨t, hgive, hr'⟩ := exists_of_bind_ok hr'
    cases hr'
    refine keepsUp_penalty hn hs hr hused (hpile u hu hfast) hgive fun myId v ↦ ?_
    rw [hcaught hfast c hused]
    exact handle_caught hfield _ myId v

/-- A player leaves: the line `7`, and a round line if it was that player's turn. -/
private theorem keepsUp_depart {k : Seat} {state : ConnState} (hn : Named name conns) (hs : Seated conns seats g)
    (hk : k ∈ seats) (hr : Ready seats g) (hover : g.pc ≠ .ended)
    (hknown : ∀ d, g.used k = some d → env.name d = name d)
    (hcount : ∀ j, g.handNum j + 4 ≤ 2147483647)
    (hturn : ∀ d, g'.used g'.whoseRound = some d → env.name d = name d) (hnot : g'.pc ≠ .ended)
    (h : depart env state k g = .ok g') : KeepsUp name (seats.erase k) g g' := by
  obtain ⟨d, hd, h⟩ := exists_of_bind_ok h
  have hused := used_of_conn hd
  have hleft := @seated_leave conns seats g k d state hk hover hs
  have hreadyLeft : Ready (seats.erase k) ((g.leaveSeat k).emit [.setState d state]) :=
    ⟨hr.colour, fun j hj ↦ hr.hands j (Finset.mem_of_mem_erase hj), hr.pile⟩
  have hline : KeepsUp name (seats.erase k) g (((g.leaveSeat k).emit [.setState d state]).sendToEveryoneInGame
      (some k) (line1 ['7'] (env.name d))) := by
    refine ⟨hreadyLeft.deals (deals_same rfl rfl rfl rfl rfl), fun i c hi hu ↦ ?_⟩
    have hik := Finset.ne_of_mem_erase hi
    have hc := player_of_seated hn hleft hi hu
    have hgone : Told name c (Follows name g) g ((g.leaveSeat k).emit [.setState d state]) (Follows name g) :=
      told_nothing (e := [.setState d state]) rfl rfl fun v hv ↦ hv
    refine hgone.trans (told_everyone (some k) hc.named hc.active
      (fun he ↦ absurd (Option.some.inj he).symm hik) fun _ v hv ↦ ?_)
    have hword : IsField (name d) := ((hs.used ▸ hn).isName k d hused).1
    refine ⟨v.leave (name d), by rw [hknown d hused]; exact handle_left hword _ v, hv.players, ?_, hv.cardRemain⟩
    intro j e n hj hk'
    have hold := hv.playerRemain j e n hj hk'
    change (if v.players[n]? = some (name d) then -1 else v.playerRemain n) = (g.leaveSeat k).handNum j
    have hat : v.players[n]? = some (name e) := hk'
    by_cases hjk : j = k
    · subst hjk
      have hed : e = d := Option.some.inj (hj.symm.trans hused)
      rw [if_pos (by rw [hat, hed]), handNum_leaveSeat]
    · have hne : name e ≠ name d := fun he ↦ hjk (hc.named.apart j k e d hj hused he)
      rw [if_neg (by rw [hat]; exact fun he ↦ hne (Option.some.inj he)), handNum_leaveSeat_of_ne hjk]
      exact hold
  have hseated : Seated conns (seats.erase k) (((g.leaveSeat k).emit [.setState d state]).sendToEveryoneInGame
      (some k) (line1 ['7'] (env.name d))) :=
    ⟨hleft.used, hleft.handNum, hleft.bounded, hleft.playerNum, hleft.winner⟩
  dsimp only at h
  have hhand (j : Seat) : ((g.leaveSeat k).emit [.setState d state]).handNum j ≤ max (-1) (g.handNum j) := by
    change (g.leaveSeat k).handNum j ≤ _
    by_cases hjk : j = k
    · subst hjk
      rw [handNum_leaveSeat]
      exact le_max_left _ _
    · rw [handNum_leaveSeat_of_ne hjk]
      exact le_max_right _ _
  generalize hr₂ : ((g.leaveSeat k).emit [.setState d state]).sendToEveryoneInGame
      (some k) (line1 ['7'] (env.name d)) = r at h hline hseated
  have hnum (j : Seat) : r.handNum j ≤ max (-1) (g.handNum j) := by
    subst hr₂
    exact hhand j
  split at h
  · -- the last departure ends the game
    unfold winByDeparture at h
    split at h
    · cases h
    · cases h
      exact absurd rfl hnot
  split at h
  · obtain ⟨e, he, hg'⟩ := startRound_emits h
    have hnext : Deals 0 r r.nextTurn := deals_same rfl rfl rfl rfl rfl
    have hready := hline.1.deals hnext
    have hint : IsInt r.nextTurn.cardNum ∧ ∀ j, IsInt (r.nextTurn.handNum j) := by
      have hpile := hready.pile
      refine ⟨⟨by omega, by omega⟩, fun j ↦ ?_⟩
      have hlow : -1 ≤ r.nextTurn.handNum j := low_of_seated hseated j
      have hhigh : r.nextTurn.handNum j ≤ max (-1) (g.handNum j) := hnum j
      have hbound := hcount j
      exact ⟨by omega, by omega⟩
    have hround : Deals 0 r.nextTurn g' := by
      rw [hg']
      exact deals_same rfl rfl rfl rfl rfl
    refine ⟨hready.deals hround, fun i c hi hu ↦ (hline.2 i c hi hu).trans ?_⟩
    have hur : r.used i = some c := by rw [hseated.used, ← hs.used, hu]
    have hc := player_of_seated hn hseated hi hur
    have hcard := isField_recolour r.tableCard hready.colour
    have hturn' : ∀ d, r.nextTurn.used r.nextTurn.whoseRound = some d → env.name d = name d := by
      rw [hg'] at hturn
      exact hturn
    have hcn : Player name i c r.nextTurn := hc.congr rfl (le_refl _)
    have htold := told_startRound hcn hturn' hcard hint (hready.hands i hi) h
    have hplayers : Told name c (Follows name r) r r.nextTurn (fun v ↦ v.players = playersOf name r.nextTurn.used) :=
      told_same rfl fun v hv ↦ hv.players
    exact hplayers.trans htold
  · cases h
    exact hline

theorem mem_of_arg1 {l w : Text} (h : arg1 l = .ok w) : w ∈ tokens l := by
  unfold arg1 at h
  split at h
  · next u hu =>
    cases h
    exact List.mem_of_getElem? hu
  · cases h

/-- What the loop does with a line or the end of a connection. -/
private theorem keepsUp_recv {k : Seat} {event : Event} (hn : Named name conns) (hs : Seated conns seats g)
    (hk : k ∈ seats) (hr : Ready seats g) (hpc : g.pc = .scan k)
    (hm : Mirrored name g (.recv env event))
    (hturn : ∀ d, g'.used g'.whoseRound = some d → env.name d = name d) (hnot : g'.pc ≠ .ended)
    (h : recv env k event g = .ok g') :
    KeepsUp name (if Departure event then seats.erase k else seats) g g' := by
  have hnames : KnowsNames name g env := hm.names env (.inr ⟨event, rfl⟩)
  have hover : g.pc ≠ .ended := by
    rw [hpc]
    exact nofun
  have hknown (d : ConnId) (hd : g.used k = some d) : env.name d = name d :=
    hnames k d (player_of_seated hn hs hk hd).active
  cases event with
  | eof =>
    have hdep : Departure .eof := True.intro
    rw [if_pos hdep]
    exact keepsUp_depart hn hs hk hr hover hknown (fun j ↦ hm.counters env _ j rfl True.intro) hturn hnot h
  | line l =>
    unfold recv at h
    dsimp only at h
    by_cases h8 : charAt l 0 = '8'
    · rw [if_pos h8] at h
      have hdep : Departure (.line l) := h8
      rw [if_pos hdep]
      exact keepsUp_depart hn hs hk hr hover hknown (fun j ↦ hm.counters env _ j rfl (.inl hdep)) hturn hnot h
    rw [if_neg h8] at h
    have hstay : ¬ Departure (.line l) := h8
    rw [if_neg hstay]
    by_cases h21 : charAt l 0 = '2' ∧ charAt l 1 = '1'
    · rw [if_pos h21] at h
      cases h
      refine keepsUp_line hn hs hr fun myId v ↦ ⟨v, ?_, rfl, rfl, rfl⟩
      have hop : opOf l = ('2', '1') := Prod.ext h21.1 h21.2
      unfold View.handle
      rw [hop]
      rfl
    rw [if_neg h21] at h
    by_cases h9 : charAt (chop l) 0 = '9'
    · rw [if_pos h9] at h
      refine keepsUp_play hn hs hk hr (fun j ↦ hm.counters env _ j rfl (.inr (.inl h9))) (fun w hw ↦ ?_)
        (hm.last env l k rfl h9 hpc) hturn hnot h
      exact ⟨isField_of_mem_tokens (mem_of_arg1 hw), hm.card env l w rfl h9 hw⟩
    rw [if_neg h9] at h
    by_cases h10 : charAt (chop l) 0 = '1' ∧ charAt (chop l) 1 = '0'
    · rw [if_pos h10] at h
      exact keepsUp_skip hn hs hr (fun j ↦ hm.counters env _ j rfl (.inr (.inr h10))) hturn h
    rw [if_neg h10] at h
    have hmove : ¬ IsMove l := not_or.mpr ⟨h9, h10⟩
    have hlasts : PileLasts g (.recv env (.line l)) := hm.pile fun env' l' he ↦ by
      cases he
      exact hmove
    have hout : g.handOut (.recv env (.line l)) =
        if charAt (chop l) 0 = '1' ∧ charAt (chop l) 1 = '1' then handOutPenalty k (chop l)
        else if charAt (chop l) 0 = '1' ∧ charAt (chop l) 1 = '2' then handOutPenalty k (chop l) else none := by
      unfold handOut handOutLine
      rw [hpc]
      dsimp only
      rw [if_neg h8, if_neg h21, if_neg h9, if_neg h10]
    by_cases h11 : charAt (chop l) 0 = '1' ∧ charAt (chop l) 1 = '1'
    · rw [if_pos h11] at h hout
      exact keepsUp_callUno hn hs hk hr hnames (fun w n hw ↦ hlasts w n (hout.trans hw)) h
    rw [if_neg h11] at h hout
    by_cases h12 : charAt (chop l) 0 = '1' ∧ charAt (chop l) 1 = '2'
    · rw [if_pos h12] at h hout
      exact keepsUp_catchUno hn hs hk hr hnames (fun w n hw ↦ hlasts w n (hout.trans hw)) h
    rw [if_neg h12] at h
    cases h
    exact keepsUp_refl hr

/-- A step of the loop: every player still in the game keeps up. -/
theorem keepsUp_step {a : GameAct} (hn : Named name conns) (hp : Playing conns seats g)
    (hr : Ready seats g) (hm : Mirrored name g a) (hstep : GameStep g a g') :
    ∃ seats', Playing conns seats' g' ∧ seats' ⊆ seats ∧ (g'.pc ≠ .ended → KeepsUp name seats' g g') := by
  have hs := hp.seated
  cases a with
  | pass =>
    have hplay := gameStep_playing hstep (fun _ _ he ↦ by cases he) rfl hp
    refine ⟨seats, hplay, Finset.Subset.refl _, fun _ ↦ ?_⟩
    unfold GameStep step at hstep
    dsimp only at hstep
    split at hstep
    · cases hstep
      exact (keepsUp_refl hr).advance _
    · cases hstep
  | settle env =>
    have hpresent : SettlesPresent g (.settle env) := fun env' u he hu _ ↦ (hm.settled env' u he hu).1
    have hplay := gameStep_playing hstep hpresent rfl hp
    refine ⟨seats, hplay, Finset.Subset.refl _, fun _ ↦ ?_⟩
    unfold GameStep step at hstep
    dsimp only at hstep
    split at hstep
    · refine keepsUp_settle hn hs hr (hm.names env (.inl rfl)) (fun u hu ↦ ?_) (fun u hu hfast ↦ ?_) hstep
      · obtain ⟨hin, hname⟩ := hm.settled env u rfl hu
        exact ⟨(hs.handNum u).mp hin, hname⟩
      · apply hm.pile (fun _ _ he ↦ by cases he) u 2
        unfold handOut
        dsimp only
        rw [hu]
        exact if_neg hfast
    · cases hstep
  | recv env event =>
    obtain ⟨k, r, hpc, hin, -, hr', rfl⟩ := recv_step hstep
    have hk := (hs.handNum k).mp hin
    have hbooks : Books r (r.advance k) := books_advance k
    have hplay := playing_recv hstep hpc hp
    have hsub : (if Departure event then seats.erase k else seats) ⊆ seats := by
      split
      · exact Finset.erase_subset _ _
      · exact Finset.Subset.refl _
    refine ⟨_, hplay, hsub, fun hnot ↦ ?_⟩
    have hnot' : r.pc ≠ .ended := fun he ↦ hnot (hbooks.ended.mpr he)
    have hturn (d : ConnId) (hd : r.used r.whoseRound = some d) : env.name d = name d := by
      have hwho := hsub (hplay.turn hnot)
      rw [hbooks.whoseRound] at hwho
      have hud : g.used r.whoseRound = some d := by
        rw [hs.used, ← hplay.seated.used, hbooks.used, hd]
      exact hm.names env (.inr ⟨event, rfl⟩) _ d (player_of_seated hn hs hwho hud).active
    exact (keepsUp_recv hn hs hk hr hpc hm hturn hnot' hr').advance k

end Unpv13e.Client
