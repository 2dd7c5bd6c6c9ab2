import Unpv13e.Base.Weights
import Unpv13e.Uno.Conservation
import Unpv13e.Uno.Departure

/-!
# The score of the winner

Library `Uno`. The line `15` names the winner and a score, which two loops add up
(`src/tcpcliserv/final_server.c:410–439` and `:484–511`), both over the hands of all occupied seats. When
that is the score of the cards the other seats hold.
-/

namespace Unpv13e.Uno
open Unpv13e.Base Game

variable {p : Plan} {g g' r : Game}

/-- The score of the cards that seats other than `j` hold, each card once. -/
def Game.othersScore (g : Game) (j : Seat) : Nat := ∑ q ∈ others g.hand j, score q

/-- Every card with a score is in one hand at most, and not in that of `j`. -/
def ScoresOnce (g : Game) (j : Seat) : Prop :=
  ∀ q, 0 < score q → q ∉ g.hand j ∧ ∀ k k', q ∈ g.hand k → q ∈ g.hand k' → k = k'

/-- Seats without a player have no cards. -/
def VacantBare (g : Game) : Prop := ∀ k, g.used k = none → g.hand k = ∅

/-- The sum over the hands, when there are cards at occupied seats only. -/
private theorem winnerScore_eq (h : VacantBare g) : g.winnerScore = ∑ k, ∑ q ∈ g.hand k, score q := by
  have hhand (s : Finset CardId) : ((handList s).map score).sum = ∑ q ∈ s, score q := by
    have hnodup : (handList s).Nodup := (List.nodup_finRange 108).filter _
    rw [← List.sum_toFinset score hnodup]
    congr 1
    ext q
    simp [handList]
  have hseat (k : Seat) : (if (g.used k).isSome then ((handList (g.hand k)).map score).sum else 0) =
      ∑ q ∈ g.hand k, score q := by
    split
    · exact hhand _
    · next hu =>
      rw [h k (by simpa using hu)]
      rfl
  unfold winnerScore
  rw [← List.sum_toFinset _ (List.nodup_finRange 10), List.toFinset_finRange]
  exact Finset.sum_congr rfl fun k _ ↦ hseat k

/-- The score is that of the cards of the others. -/
theorem winnerScore_eq_others (h : VacantBare g) (j : Seat) :
    g.winnerScore = g.othersScore j ↔ ScoresOnce g j := by
  rw [winnerScore_eq h]
  exact sum_family_eq_others g.hand score j

/-! ### Seats without a player -/

private theorem moveStep_vacantBare {m : Move} (hm : MoveStep g m g') (h : VacantBare g) :
    VacantBare g' := by
  cases m with
  | book =>
    intro k hk
    rw [hm.used] at hk
    rw [hm.hand]
    exact h k hk
  | turn => cases hm; exact h
  | say es => cases hm; exact h
  | round name tableCard =>
    obtain ⟨c, -, rfl⟩ := startRound_emits hm
    exact h
  | leave i state =>
    obtain ⟨c, -, rfl⟩ := hm
    exact h
  | drop i q =>
    obtain ⟨-, -, rfl⟩ := hm
    intro k hk
    have hbare := h k hk
    by_cases hki : k = i
    · subst hki
      rw [hand_dropCard, hbare, Finset.erase_empty]
    · rw [hand_dropCard_of_ne hki]
      exact hbare
  | table =>
    obtain ⟨q, colour, -, rfl⟩ := hm
    exact h
  | top w =>
    obtain ⟨c, hc, -, rfl⟩ := hm
    intro k hk
    have hkw : k ≠ w := by
      rintro rfl
      have hnone : g.used k = none := hk
      rw [hc] at hnone
      cases hnone
    rw [hand_takeTop_of_ne hkw]
    exact h k hk
  | refill =>
    obtain ⟨-, rand, adopted, rfl⟩ := hm
    exact h
  | finish es winner => cases hm; exact h

private theorem gameStep_vacantBare {a : GameAct} (hs : GameStep g a g') (h : VacantBare g) :
    VacantBare g' := by
  refine RunWith.preserves (I := VacantBare) ?_ (step_moves hs) h
  intro r m r' hr _ hm
  exact moveStep_vacantBare hm hr

/-! ### The steps that end a game -/

/-- The state in which the score is added up: a card that is played has been put down. -/
def Game.atResult (env : Env) (i : Seat) (event : Event) (g : Game) : Game :=
  match event with
  | .eof => g
  | .line l =>
    if charAt l 0 = '8' then g
    else
      match arg1 (chop l) with
      | .ok w => g.putDown env.residue w i
      | .error _ => g

/-- The result that is sent to `c` in the state `r`: it names seat `j`. -/
private def Awards (env : Env) (r : Game) (c : ConnId) (line : Text) : Prop :=
  ∃ j cj, r.used j = some cj ∧ (r.winner = some j ∨ (j, c) ∈ r.active) ∧ line = r.winLine env.name cj

private theorem stamp_supplied {i : Seat} {w : Except Stop Text} (h : stamp i w g = .ok r) :
    Supplied g r := by
  unfold stamp at h
  split at h
  · obtain ⟨t, -, h⟩ := exists_of_bind_ok h
    cases h
    exact supplied_same rfl rfl
  · cases h
    exact supplied_same rfl rfl

private theorem not_result {op v : Text} (hop : opOf op ≠ ('1', '5')) (h2 : op.length = 2) :
    ¬ IsResult (op ++ v) := by
  intro h
  obtain ⟨a, b, rfl⟩ := List.length_eq_two.mp h2
  exact hop h

private theorem callUno_supplied {env : Env} {i : Seat} {l : Text}
    (h : callUno env i l g = .ok r) : Supplied g r := by
  obtain ⟨valid, -, h⟩ := exists_of_bind_ok h
  split at h
  · obtain ⟨t, ht, h⟩ := exists_of_bind_ok h
    obtain ⟨c, -, h⟩ := exists_of_bind_ok h
    cases h
    exact supplied_trans (supplied_give 0 2 ∅ ht) (supplied_send none (not_result (by decide) rfl))
  split at h
  · exact supplied_trans (show Supplied g (g.setUno (some i)) from supplied_same rfl rfl)
      (stamp_supplied h)
  · cases h
    exact supplied_same rfl rfl

private theorem catchUno_supplied {env : Env} {i : Seat} {l : Text}
    (h : catchUno env i l g = .ok r) : Supplied g r := by
  obtain ⟨valid, -, h⟩ := exists_of_bind_ok h
  split at h
  · obtain ⟨t, ht, h⟩ := exists_of_bind_ok h
    obtain ⟨c, -, h⟩ := exists_of_bind_ok h
    obtain ⟨w, -, h⟩ := exists_of_bind_ok h
    cases h
    exact supplied_trans (supplied_give 0 2 ∅ ht) (supplied_send none (not_result (by decide) rfl))
  · obtain ⟨named, -, h⟩ := exists_of_bind_ok h
    cases named with
    | none => cases h
    | some j =>
      dsimp only at h
      split at h
      · exact supplied_trans (show Supplied g (g.setUno (some j)) from supplied_same rfl rfl)
          (stamp_supplied h)
      · cases h
        exact supplied_same rfl rfl

private theorem settle_supplied {env : Env} (h : settle env g = .ok g') : Supplied g g' := by
  obtain ⟨r, hr, h⟩ := exists_of_bind_ok h
  cases h
  refine supplied_trans ?_ (show Supplied r r.newRound from supplied_same rfl rfl)
  split at hr
  · cases hr
    exact supplied_same rfl rfl
  next u _ =>
  obtain ⟨c, -, hr⟩ := exists_of_bind_ok hr
  split at hr
  · cases hr
    exact supplied_trans (show Supplied g (g.markUno u) from supplied_same rfl rfl)
      (supplied_send none (not_result (by decide) rfl))
  · obtain ⟨c', -, hr⟩ := exists_of_bind_ok hr
    obtain ⟨t, ht, hr⟩ := exists_of_bind_ok hr
    cases hr
    exact supplied_trans (supplied_give 0 2 ∅ ht) (supplied_send none (not_result (by decide) rfl))

/-- A result that was not sent before a state was sent after it. -/
private theorem told_after {t : Game} {es es' : List Effect} {c : ConnId} {line : Text}
    (h : Supplied g t) (hout' : r.out = t.out ++ es') (hout : r.out = g.out ++ es)
    (hmem : .send c line ∈ es) (hline : IsResult line) : .send c line ∈ es' := by
  obtain ⟨sent, hsent, hno⟩ := h.out
  have hes : es = sent ++ es' := by
    have hall := hout.symm.trans hout'
    rw [hsent, List.append_assoc] at hall
    exact List.append_cancel_left hall
  rw [hes] at hmem
  rcases List.mem_append.mp hmem with hmem | hmem
  · exact absurd ⟨c, line, hmem, hline⟩ hno
  · exact hmem

private theorem winByPlay_awards {env : Env} {i : Seat} {t : Game} {es : List Effect}
    {c : ConnId} {line : Text} (ht : Supplied g t) (h : winByPlay env.name i t = .ok r)
    (hout : r.out = g.out ++ es) (hmem : .send c line ∈ es) (hline : IsResult line) :
    Awards env r c line ∧ r.hand = t.hand := by
  obtain ⟨ci, hci, h⟩ := exists_of_bind_ok h
  split at h
  · cases h
  cases h
  refine ⟨⟨i, ci, used_of_conn hci, .inl rfl, ?_⟩, rfl⟩
  have hafter := told_after ht (List.append_assoc _ _ _) hout hmem hline
  rcases List.mem_append.mp hafter with hsent | hsent
  · obtain ⟨q, -, he⟩ := List.mem_map.mp hsent
    cases he
    rfl
  · obtain ⟨q, -, he⟩ := List.mem_map.mp hsent
    cases he

private theorem winByDeparture_awards {env : Env} {t : Game} {es : List Effect}
    {c : ConnId} {line : Text} (ht : Supplied g t) (h : winByDeparture env.name t = .ok r)
    (hout : r.out = g.out ++ es) (hmem : .send c line ∈ es) (hline : IsResult line) :
    Awards env r c line ∧ r.hand = t.hand := by
  unfold winByDeparture at h
  split at h
  · cases h
  cases h
  refine ⟨?_, rfl⟩
  obtain ⟨⟨j, cj⟩, hj, he⟩ := List.mem_flatMap.mp (told_after ht rfl hout hmem hline)
  rcases List.mem_cons.mp he with he | he
  · cases he
    exact ⟨j, cj, ((mem_active j cj).mp hj).2, .inr hj, rfl⟩
  · cases List.mem_singleton.mp he

private theorem depart_awards {env : Env} {state : ConnState} {i : Seat} {es : List Effect}
    {c : ConnId} {line : Text} (h : depart env state i g = .ok r) (hout : r.out = g.out ++ es)
    (hmem : .send c line ∈ es) (hline : IsResult line) : Awards env r c line ∧ r.hand = g.hand := by
  obtain ⟨ci, -, h⟩ := exists_of_bind_ok h
  let sent := ((g.leaveSeat i).emit [.setState ci state]).sendToEveryoneInGame (some i)
    (line1 ['7'] (env.name ci))
  have hstate : ¬ Declares [.setState ci state] := by
    rintro ⟨_, _, hmem, -⟩
    cases List.mem_singleton.mp hmem
  have hsent : Supplied g sent := by
    refine supplied_trans (r := (g.leaveSeat i).emit [.setState ci state])
      ⟨fun _ ↦ Finset.Subset.refl _, _, rfl, hstate⟩ (supplied_send (some i) ?_)
    simp [IsResult, opOf, line1, charAt]
  have hnot (hsup : Supplied g r) : ¬ .send c line ∈ es := by
    intro hmem
    have := told_after hsup (List.append_nil _).symm hout hmem hline
    cases this
  dsimp only at h
  split at h
  · exact winByDeparture_awards (t := sent) hsent h hout hmem hline
  split at h
  · exact absurd hmem (hnot (supplied_trans (supplied_trans hsent
      (show Supplied sent sent.nextTurn from supplied_same rfl rfl)) (supplied_startRound h)))
  · cases h
    exact absurd hmem (hnot hsent)

private theorem play_awards {env : Env} {i : Seat} {l w : Text} {es : List Effect} {c : ConnId}
    {line : Text} (hw : arg1 l = .ok w) (h : play env i l g = .ok r) (hout : r.out = g.out ++ es)
    (hmem : .send c line ∈ es) (hline : IsResult line) :
    Awards env r c line ∧ r.hand = (g.putDown env.residue w i).hand := by
  obtain ⟨w', hw', h⟩ := exists_of_bind_ok h
  obtain rfl : w = w' := Except.ok.inj (hw.symm.trans hw')
  have hput : (g.putDown env.residue w i).out = g.out := by
    unfold putDown
    split <;> rfl
  dsimp only at h
  generalize g.putDown env.residue w i = t at h hput ⊢
  rw [← hput] at hout
  cases hid : t.cardId with
  | none => rw [hid] at h; cases h
  | some q =>
    rw [hid] at h
    dsimp only at h
    have hshow : Supplied t (t.showCard q (charAt w 1)) := supplied_same rfl rfl
    split at h
    · exact winByPlay_awards (t := t.showCard q (charAt w 1)) hshow h hout hmem hline
    · obtain ⟨u, hu, h⟩ := exists_of_bind_ok h
      have hsup := supplied_trans (supplied_trans hshow (supplied_cardEffect hu))
        (supplied_startRound h)
      cases told_after hsup (List.append_nil _).symm hout hmem hline

private theorem recv_awards {env : Env} {i : Seat} {event : Event} {es : List Effect} {c : ConnId}
    {line : Text} (h : recv env i event g = .ok r) (hout : r.out = g.out ++ es)
    (hmem : .send c line ∈ es) (hline : IsResult line) :
    Awards env r c line ∧ r.hand = (g.atResult env i event).hand := by
  have hnot (hsup : Supplied g r) : ¬ .send c line ∈ es := by
    intro hmem
    cases told_after hsup (List.append_nil _).symm hout hmem hline
  cases event with
  | eof => exact depart_awards h hout hmem hline
  | line l =>
    unfold recv at h
    dsimp only at h
    split at h
    · next h8 =>
      have hat : g.atResult env i (.line l) = g := if_pos h8
      rw [hat]
      exact depart_awards h hout hmem hline
    next h8 =>
    split at h
    · next h21 =>
      cases h
      refine absurd hmem (hnot (supplied_send none fun h15 ↦ ?_))
      have := congrArg Prod.fst (show opOf l = ('1', '5') from h15)
      rw [show (opOf l).1 = '2' from h21.1] at this
      exact absurd this (by decide)
    split at h
    · cases hw : arg1 (chop l) with
      | error e =>
        unfold play at h
        rw [hw] at h
        cases h
      | ok w =>
        have hat : g.atResult env i (.line l) = g.putDown env.residue w i := by
          unfold atResult
          dsimp only
          rw [if_neg h8, hw]
        rw [hat]
        exact play_awards hw h hout hmem hline
    split at h
    · obtain ⟨t, ht, h⟩ := exists_of_bind_ok h
      exact absurd hmem (hnot (supplied_trans (supplied_trans (supplied_give 0 1 ∅ ht)
        (show Supplied t t.nextTurn from supplied_same rfl rfl)) (supplied_startRound h)))
    split at h
    · exact absurd hmem (hnot (callUno_supplied h))
    split at h
    · exact absurd hmem (hnot (catchUno_supplied h))
    · cases h
      exact absurd hmem (hnot (supplied_same rfl rfl))

private theorem decimal_inj {m n : Nat} (h : decimal m = decimal n) : m = n := by
  have hdigits : Nat.toDigits 10 m = Nat.toDigits 10 n := h
  rw [← Nat.ofDigitChars_ten_toDigits (n := m), hdigits, Nat.ofDigitChars_ten_toDigits]

private theorem line2_inj {op v w w' : Text} (h : line2 op v w = line2 op v w') : w = w' := by
  have h1 := List.append_cancel_left h
  have h2 := List.append_cancel_left (List.cons.inj h1).2
  exact List.append_cancel_right (List.cons.inj h2).2

/-- Whenever a game sends a result, the winner is named with the score of the cards the other seats
hold exactly when, with the last card put down, no card with a score is in two hands or in the hand
of the winner. -/
theorem score_awarded {name : ConnId → Text} {rand : Nat → Nat} {draw playerNum : Nat}
    {used : Seat → Option ConnId} {g₀ : Game} {a : GameAct} {es : List Effect} {c : ConnId}
    {line : Text} (hstart : gameStart name rand draw used playerNum = .ok g₀)
    (hr : Run GameStep g₀ g) (hs : GameStep g a g') (hout : g'.out = g.out ++ es)
    (hmem : .send c line ∈ es) (hline : IsResult line) :
    ∃ env event i j cj, a = .recv env event ∧ g.pc = .scan i ∧ g'.used j = some cj ∧
      (g'.winner = some j ∨ (j, c) ∈ g'.active) ∧ (∃ s, line = line2 ['1', '5'] (env.name cj) s) ∧
      (line = line2 ['1', '5'] (env.name cj) (decimal (g'.othersScore j)) ↔
        ScoresOnce (g.atResult env i event) j) := by
  have hnot (hsup : Supplied g g') : ¬ .send c line ∈ es := by
    intro hmem
    cases told_after hsup (List.append_nil _).symm hout hmem hline
  have hopen := gameStart_opened hstart
  have hbare : VacantBare g' := by
    have hzero : VacantBare g₀ := by
      intro k hk
      have hcard := hopen.card k
      rw [hopen.seats] at hk
      rw [hk] at hcard
      exact Finset.card_eq_zero.mp hcard
    exact gameStep_vacantBare hs
      (RunWith.preserves (fun r b t hv _ hstep ↦ gameStep_vacantBare hstep hv) hr hzero)
  cases a with
  | pass =>
    unfold GameStep step at hs
    dsimp only at hs
    split at hs
    · next i _ =>
      cases hs
      have hbooks : Books g (g.advance i) := books_advance i
      exact absurd hmem (hnot (supplied_same hbooks.hand hbooks.out))
    · cases hs
  | settle env =>
    unfold GameStep step at hs
    dsimp only at hs
    split at hs
    · exact absurd hmem (hnot (settle_supplied hs))
    · cases hs
  | recv env event =>
    obtain ⟨i, r, hpc, -, -, hrecv, rfl⟩ := recv_step hs
    have hbooks : Books r (r.advance i) := books_advance i
    rw [hbooks.out] at hout
    obtain ⟨⟨j, cj, hused, hwon, rfl⟩, hhand⟩ := recv_awards hrecv hout hmem hline
    have hactive : (r.advance i).active = r.active := by
      unfold active
      rw [hbooks.handNum, hbooks.used]
    have hscore : (r.advance i).winnerScore = r.winnerScore := by
      unfold winnerScore
      rw [hbooks.hand, hbooks.used]
    refine ⟨env, event, i, j, cj, rfl, hpc, by rw [hbooks.used]; exact hused, ?_, ⟨_, rfl⟩, ?_⟩
    · rw [hbooks.winner, hactive]
      exact hwon
    · have honce : ScoresOnce (g.atResult env i event) j ↔ ScoresOnce (r.advance i) j := by
        unfold ScoresOnce
        rw [hbooks.hand, hhand]
      rw [honce, ← winnerScore_eq_others hbare j, hscore]
      unfold winLine
      constructor
      · intro h
        exact decimal_inj (line2_inj h)
      · intro h
        rw [h]

/-! ### A player is left alone -/

/-- The first two seats are occupied. -/
def twoSeats (i : Seat) : Option ConnId := if i.val < 2 then some (seatAsConn i) else none

private theorem gameStart_two : ∃ g, gameStart plainName (inOrder.rand 0) 0 twoSeats 2 = .ok g := by
  have hok : (gameStart plainName (inOrder.rand 0) 0 twoSeats 2).isOk = true := by
    decide +kernel
  cases h : gameStart plainName (inOrder.rand 0) 0 twoSeats 2 with
  | ok g => exact ⟨g, rfl⟩
  | error e =>
    rw [h] at hok
    cases hok

/-- Of seven cards one has a score. -/
private theorem exists_score {h : Finset CardId} (hcard : h.card = 7) : ∃ q ∈ h, 0 < score q := by
  by_contra hnone
  have hzero : h ⊆ Finset.univ.filter fun q : CardId ↦ score q = 0 := by
    intro q hq
    refine Finset.mem_filter.mpr ⟨Finset.mem_univ q, ?_⟩
    exact Nat.eq_zero_of_not_pos fun hpos ↦ hnone ⟨q, hq, hpos⟩
  have hfour : (Finset.univ.filter fun q : CardId ↦ score q = 0).card = 4 := by decide +kernel
  have hle := Finset.card_le_card hzero
  omega

/-- The first of two players leaves before any card is played. -/
private theorem forfeit :
    ∃ g₀ g' es, gameStart plainName (inOrder.rand 0) 0 twoSeats 2 = .ok g₀ ∧
      GameStep g₀ (.recv inOrder .eof) g' ∧ g'.out = g₀.out ++ es ∧ VacantBare g' ∧
      g'.winner = some 1 ∧ g'.active = [(1, 1)] ∧ g'.used = twoSeats ∧
      .send 1 (g'.winLine plainName 1) ∈ es ∧
      ¬ ScoresOnce g' 1 := by
  obtain ⟨g, hg⟩ := gameStart_two
  have hopen := gameStart_opened hg
  have hused : g.used = twoSeats := hopen.seats
  let left := ((g.leaveSeat 0).emit [.setState 0 .empty]).sendToEveryoneInGame (some 0)
    (line1 ['7'] (plainName 0))
  have hnum (j : Seat) : left.handNum j = if j = 1 then 7 else -1 := by
    by_cases h0 : j = 0
    · subst h0
      exact handNum_leaveSeat 0 g
    · have hj : left.handNum j = g.handNum j := handNum_leaveSeat_of_ne h0 g
      have table : ∀ j : Seat, j ≠ 0 →
          (if (twoSeats j).isSome then (7 : Int) else -1) = if j = 1 then 7 else -1 := by decide
      rw [hj, hopen.handNum j]
      exact table j h0
  have hleft : left.active = [(1, 1)] := by
    have hu : left.used = twoSeats := hused
    unfold active
    rw [show left.handNum = fun j ↦ if j = 1 then 7 else -1 from funext hnum, hu]
    decide
  have hghost : ¬ left.hasGhost := by
    rintro ⟨j, hj, hnone⟩
    have h1 : j = 1 := by
      by_contra hne
      rw [hnum j, if_neg hne] at hj
      exact hj rfl
    have hsome : left.used 1 = some 1 := congrFun hused 1
    rw [h1, hsome] at hnone
    cases hnone
  let es : List Effect := left.active.flatMap fun p ↦
    [.send p.2 (left.winLine plainName p.2), .setState p.2 .lobby]
  have hwin : winByDeparture plainName left =
      .ok ((left.emit es).endGame ((left.active.getLast?).map Prod.fst <|> left.winner)) :=
    if_neg hghost
  rw [hleft] at hwin
  let won := (left.emit es).endGame (some 1)
  have hconn : g.conn 0 = .ok 0 := by
    unfold conn
    rw [hused]
    rfl
  have hfew : left.playerNum < 2 := by
    change g.playerNum - 1 < 2
    rw [hopen.players]
    decide
  have hrecv : recv inOrder 0 .eof g = .ok won := by
    unfold recv depart
    dsimp only
    rw [hconn, ok_bind]
    exact (if_pos hfew).trans hwin
  have hstep : GameStep g (.recv inOrder .eof) (won.advance 0) :=
    step_recv hopen.pc (by rw [hused]; rfl) (by rw [hopen.handNum]; decide) hrecv
  have hadv : won.advance 0 = won := rfl
  rw [hadv] at hstep
  obtain ⟨news, hnews⟩ : ∃ news, left.out = g.out ++ news := ⟨_, List.append_assoc _ _ _⟩
  refine ⟨g, won, news ++ es, hg, hstep, ?_, ?_, rfl, hleft, hused, ?_, ?_⟩
  · change left.out ++ es = _
    rw [hnews, List.append_assoc]
  · intro k hk
    have hcard := hopen.card k
    have hk' : twoSeats k = none := (congrFun hused k).symm.trans hk
    rw [hk'] at hcard
    exact Finset.card_eq_zero.mp hcard
  · refine List.mem_append_right news (List.mem_flatMap.mpr ⟨(1, 1), ?_, ?_⟩)
    · rw [hleft]
      exact List.mem_cons_self
    · exact List.mem_cons_self
  · intro honce
    obtain ⟨q, hq, hpos⟩ := exists_score ((hopen.card 1).trans (by decide))
    exact (honce q hpos).1 hq

/-- The line names the player who is left. -/
theorem score_awarded_forfeit :
    ∃ g₀ g' line s, gameStart plainName (inOrder.rand 0) 0 twoSeats 2 = .ok g₀ ∧
      GameStep g₀ (.recv inOrder .eof) g' ∧ Effect.send 1 line ∈ g'.out ∧
      line = line2 ['1', '5'] ['b'] s := by
  obtain ⟨g₀, g', es, hg, hs, hout, -, hwon, hactive, hused, hmem, -⟩ := forfeit
  obtain ⟨env, event, i, j, cj, ha, -, huj, hj, ⟨s, hline⟩, -⟩ :=
    score_awarded hg RunWith.refl hs hout hmem rfl
  have hj1 : j = 1 := by
    rcases hj with hj | hj
    · exact Option.some.inj (hj.symm.trans hwon)
    · rw [hactive] at hj
      exact congrArg Prod.fst (List.mem_singleton.mp hj)
  cases ha
  rw [hj1, hused] at huj
  cases huj
  refine ⟨g₀, g', _, s, hg, hs, ?_, hline⟩
  rw [hout]
  exact List.mem_append_right _ hmem

/-- The player who is left is awarded the score of the own cards as well. -/
theorem forfeit_scores_own :
    ∃ g₀ g' es line, gameStart plainName (inOrder.rand 0) 0 twoSeats 2 = .ok g₀ ∧
      GameStep g₀ (.recv inOrder .eof) g' ∧ g'.out = g₀.out ++ es ∧ .send 1 line ∈ es ∧
      IsResult line ∧ g'.winner = some 1 ∧
      line ≠ line2 ['1', '5'] ['b'] (decimal (g'.othersScore 1)) := by
  obtain ⟨g₀, g', es, hg, hs, hout, hbare, hwon, -, -, hmem, hnot⟩ := forfeit
  refine ⟨g₀, g', es, _, hg, hs, hout, hmem, rfl, hwon, fun hline ↦ hnot ?_⟩
  exact (winnerScore_eq_others hbare 1).mp (decimal_inj (line2_inj hline))

end Unpv13e.Uno
