import Unpv13e.Client.KeepsUp

/-!
# The counters along a game

Library `Client`. The players follow the server through a whole game, and lose it where the pile is filled again in
the middle of a penalty: the branch for the line `20` of `game` (`src/tcpcliserv/final_cli.c:923–925`) leaves
`card_remain` as it is.
-/

namespace Unpv13e.Client
open Unpv13e.Base Unpv13e.Uno Game

variable {name : ConnId → Text} {c d : ConnId} {P : View → Prop} {g g' : Game} {i w : Seat}
  {conns : Seat → Option ConnId} {seats : Finset Seat}

/-! ### Runs -/

/-- Every player still in the game has the counters of the game. -/
private def InStep (name : ConnId → Text) (seats : Finset Seat) (g : Game) : Prop :=
  Ready seats g ∧ ∀ i c, i ∈ seats → g.used i = some c →
    ∃ v, View.watch (name c) (received c g.out) = .ok v ∧ Follows name g v

private theorem InStep.told {seats' : Finset Seat} (h : InStep name seats g) (hsub : seats' ⊆ seats)
    (hused : g'.used = g.used) (hk : KeepsUp name seats' g g') : InStep name seats' g' := by
  refine ⟨hk.1, fun i c hi hu ↦ ?_⟩
  rw [hused] at hu
  obtain ⟨v, hv, hfollows⟩ := h.2 i c (hsub hi) hu
  obtain ⟨es, hes, hall⟩ := hk.2 i c hi hu
  obtain ⟨v', hv', hfollows'⟩ := hall v hfollows
  refine ⟨v', ?_, hfollows'⟩
  rw [hes, received_append, watch_append hv]
  exact hv'

private theorem pile_le {place : CardId → Base.Place Seat} (h : Accounts place g.dealt) : g.cardNum ≤ 108 := by
  have hinj : Function.Injective fun k : Fin g.cardNum ↦ g.cardSeq k := by
    intro j k he
    exact Fin.ext (h.inj j k j.isLt k.isLt he)
  simpa using Fintype.card_le_of_injective _ hinj

/-- The lines `9` and `10` at the start of a game. -/
private theorem inStep_start {rand : Nat → Nat} {draw playerNum : Nat}
    (hstart : gameStart name rand draw conns playerNum = .ok g) (hn : Named name conns)
    (hcount : playerNum = (Finset.univ.filter fun i ↦ (conns i).isSome).card) :
    InStep name (Finset.univ.filter fun i ↦ (conns i).isSome) g := by
  have hopen := gameStart_opened hstart
  have hplay := gameStart_playing hstart hcount
  obtain ⟨place, hplace, -⟩ := hopen.accounted
  have hpile := pile_le hplace
  obtain ⟨p, -, hstart⟩ := exists_of_bind_ok hstart
  obtain ⟨first, -, hround⟩ := exists_of_bind_ok hstart
  have hframe := dealSeat_frame (List.finRange 10) (freshTable rand conns playerNum)
  generalize (List.finRange 10).foldl dealSeat (freshTable rand conns playerNum) = r at hround hframe
  have hused : r.used = conns := by
    rw [hframe]
    rfl
  have hout : r.out = [] := by
    rw [hframe]
    rfl
  obtain ⟨d, -, hg⟩ := startRound_emits hround
  have hcard : IsField (cards p.1) ∧ (cards p.1).length ≤ 2 := ⟨isField_cards p.1, (cards_word p.1).2.le⟩
  have hready : Ready (Finset.univ.filter fun i ↦ (conns i).isSome) g := by
    refine ⟨?_, fun j hj ↦ ?_, hpile⟩
    · have hcolour : g.colour = charAt (cards p.1) 1 := by
        rw [hg]
        rfl
      rw [hcolour]
      exact ⟨charAt_mem hcard.1.1.2 (by decide), charAt_mem hcard.1.2 (by decide)⟩
    · have hj := (Finset.mem_filter.mp hj).2
      rw [← Finset.card_pos, hopen.card j, if_pos hj]
      decide
  refine ⟨hready, fun i c hi hu ↦ ?_⟩
  have hc := player_of_seated hn hplay.seated hi hu
  obtain ⟨v₀, hv₀, hplayers⟩ := start_names (g := r) (hused ▸ hn.isName)
  let set := (r.openTable p.1 p.2 first).announce name
  have hplayer : Player name i c set := by
    have hsame : g.used = set.used ∧ g.handNum = set.handNum := by
      rw [hg]
      exact ⟨rfl, rfl⟩
    exact hc.congr hsame.1.symm (by rw [hsame.2])
  have hint : IsInt set.cardNum ∧ ∀ j, IsInt (set.handNum j) := by
    have hsame : set.cardNum = g.cardNum ∧ set.handNum = g.handNum := by
      rw [hg]
      exact ⟨rfl, rfl⟩
    rw [hsame.1, hsame.2]
    refine ⟨⟨by omega, by omega⟩, fun j ↦ ?_⟩
    rw [hopen.handNum j]
    split
    · exact ⟨by decide, by decide⟩
    · exact ⟨by decide, by decide⟩
  have hhand : (set.hand i).Nonempty := by
    have hsame : set.hand = g.hand := by
      rw [hg]
      rfl
    rw [hsame]
    exact hready.hands i hi
  have hturn (d : ConnId) (_ : set.used set.whoseRound = some d) : name d = name d := rfl
  obtain ⟨es, hes, hall⟩ := told_startRound hplayer hturn hcard hint hhand hround
  have hset : received c set.out = [['9'] ++ blankJoin (playersOf name r.used) ++ ['\n']] := by
    have hwritten : set.out = r.out ++ ((List.finRange 10).filterMap r.used).map fun d ↦
        .send d (['9'] ++ blankJoin (playersOf name r.used) ++ ['\n']) := rfl
    have honce : ((List.finRange 10).filterMap r.used).filter (fun d ↦ d = c) = [c] := by
      rw [hused]
      have hmem : c ∈ (List.finRange 10).filterMap conns := mem_members.mpr ⟨i, hplay.seated.used ▸ hu⟩
      have hcount := List.count_eq_one_of_mem (members_nodup hn) hmem
      rw [List.filter_eq, hcount]
      rfl
    have hreceived := received_map c id (fun _ ↦ ['9'] ++ blankJoin (playersOf name r.used) ++ ['\n'])
      ((List.finRange 10).filterMap r.used)
    rw [hwritten, hout, List.nil_append]
    exact hreceived.trans (congrArg (List.map _) honce)
  obtain ⟨v, hv, hfollows⟩ := hall v₀ hplayers
  refine ⟨v, ?_, hfollows⟩
  rw [hes, received_append, hset]
  change (View.start (['9'] ++ blankJoin (playersOf name r.used) ++ ['\n']) >>= fun v ↦
    View.handleAll (name c) (received c es) v) = _
  unfold playersOf
  rw [hv₀]
  exact hv

/-- What holds of the players all along a run. -/
private theorem inStep_run {rand : Nat → Nat} {draw playerNum : Nat} {g₀ : Game}
    (hstart : gameStart name rand draw conns playerNum = .ok g₀)
    (hcount : playerNum = (Finset.univ.filter fun i ↦ (conns i).isSome).card) (hn : Named name conns)
    (hrun : RunWith GameStep (Mirrored name) g₀ g) :
    ∃ seats, Playing conns seats g ∧ (g.pc ≠ .ended → InStep name seats g) := by
  refine RunWith.preserves (I := fun g ↦ ∃ seats, Playing conns seats g ∧
    (g.pc ≠ .ended → InStep name seats g)) ?_ hrun
    ⟨_, gameStart_playing hstart hcount, fun _ ↦ inStep_start hstart hn hcount⟩
  rintro r a r' ⟨seats, hplay, hin⟩ hm hstep
  have hpc : r.pc ≠ .ended := by
    intro hpc
    unfold GameStep step at hstep
    rw [hpc] at hstep
    cases a <;> cases hstep
  obtain ⟨seats', hplay', hsub, hkeeps⟩ := keepsUp_step hn hplay (hin hpc).1 hm hstep
  have hused : r'.used = r.used := hplay'.seated.used.trans hplay.seated.used.symm
  exact ⟨seats', hplay', fun hnot ↦ (hin hpc).told hsub hused (hkeeps hnot)⟩

private theorem named_plain : Named plainName nineSeats := by
  refine named_seats fun i c h ↦ ?_
  unfold nineSeats at h
  split at h
  · cases h
    rfl
  · cases h

/-- A wrong call for which there are cards. -/
private theorem mirrored_call (htwo : 2 ≤ g.cardNum) : Mirrored plainName g wrongCall := by
  refine ⟨?_, fun _ w n hw ↦ ?_, fun env u he ↦ ?_, ?_, ?_, ?_⟩
  · rintro env (he | ⟨event, he⟩)
    · cases he
    · cases he
      exact fun _ _ _ ↦ rfl
  · cases hpc : g.pc with
    | scan k =>
      rw [handOut_wrongCall hpc] at hw
      cases hw
      exact htwo
    | settle =>
      unfold handOut wrongCall at hw
      rw [hpc] at hw
      cases hw
    | ended =>
      unfold handOut wrongCall at hw
      rw [hpc] at hw
      cases hw
  · cases he
  · intro env event j he hround
    cases he
    exact absurd hround (by decide)
  · intro env l w he h9
    cases he
    exact absurd h9 (by decide)
  · intro env l k he h9
    cases he
    exact absurd h9 (by decide)

private theorem mirrored_pass : Mirrored name g .pass := by
  refine ⟨?_, fun _ w n hw ↦ ?_, nofun, nofun, nofun, nofun⟩
  · rintro env (he | ⟨event, he⟩)
    · cases he
    · cases he
  · cases hw

private theorem mirrored_settle (hu : g.haveUno = none) : Mirrored plainName g (.settle inOrder) := by
  refine ⟨?_, fun _ w n hw ↦ ?_, fun env u _ hsome ↦ ?_, nofun, nofun, nofun⟩
  · rintro env (he | ⟨event, he⟩)
    · cases he
      exact fun _ _ _ ↦ rfl
    · cases he
  · unfold handOut at hw
    rw [hu] at hw
    cases hw
  · rw [hu] at hsome
    cases hsome

/-- The rest of a turn in which nobody says anything. -/
private theorem quiet_mirrored (n : Nat) (hu : g.haveUno = none)
    (h : runActs Game.step g (List.replicate n .pass ++ [.settle inOrder]) = .ok g') :
    RunWith GameStep (Mirrored plainName) g g' := by
  induction n generalizing g with
  | zero =>
    obtain ⟨r, hr, h⟩ := exists_of_bind_ok h
    cases h
    exact RunWith.cons (mirrored_settle hu) hr RunWith.refl
  | succ n ih =>
    obtain ⟨r, hr, h⟩ := exists_of_bind_ok h
    refine RunWith.cons mirrored_pass hr (ih ?_ h)
    unfold step at hr
    dsimp only at hr
    split at hr
    · cases hr
      unfold Game.advance
      split
      · exact hu
      · exact hu
    · cases hr

/-- As long as there are cards for every wrong call, all players keep up. -/
private theorem turns_mirrored {t : CardId} (m : Nat) (h : Draining t (2 * m) g) :
    ∃ g', runActs Game.step g (List.replicate m wrongTurn).flatten = .ok g' ∧ Draining t 0 g' ∧
      RunWith GameStep (Mirrored plainName) g g' := by
  induction m generalizing g with
  | zero => exact ⟨g, rfl, h, RunWith.refl⟩
  | succ m ih =>
    obtain ⟨r, hturn, hd⟩ := draining_turn h
    obtain ⟨g', hg', h0, hrest⟩ := ih hd
    refine ⟨g', ?_, h0, RunWith.trans ?_ hrest⟩
    · rw [List.replicate_succ, List.flatten_cons, runActs_append, hturn]
      exact hg'
    obtain ⟨s, hcall, hquiet⟩ := exists_of_bind_ok hturn
    have htwo : 2 ≤ g.cardNum := by
      rw [h.cardNum]
      omega
    refine RunWith.cons (mirrored_call htwo) hcall (quiet_mirrored 9 ?_ hquiet)
    have hused : g.used 0 = some 0 := by
      rw [h.used]
      rfl
    have hsmall := h.small
    have hgive := giveTwo inOrder.rand hused htwo (by rw [h.cardNum]; omega)
    have hstep := step_wrongCall (r := (g.takeTop 0 0).takeTop 0 0) h.pc hused ((h.handNum 0).mpr (by decide)) rfl hgive
    cases hcall.symm.trans hstep
    unfold Game.advance
    split
    · exact h.haveUno
    · exact h.haveUno

/-- Cards for somebody else leave a player's counters as they are. -/
private theorem told_bystander {rand : Nat → Nat → Nat} (t n : Nat) (adopted : Finset CardId)
    (hc : Player name i c g) (hiw : i ≠ w) (h : giveFrom rand w t n adopted g = .ok g') : Told name c P g g' P := by
  have hrule := giveFrom_rule (I := fun _ r ↦ Player name i c r ∧ Told name c P g r P) (m := 0) ?_ ?_ h
    ⟨hc, told_same rfl fun v hv ↦ hv⟩
  · exact hrule.2
  · rintro _ rand adopted r _ ⟨hr, htold⟩
    exact ⟨hr.congr rfl (le_refl _), htold.trans (told_reshuffle hr)⟩
  · rintro _ d r hd _ _ ⟨hr, htold⟩
    have hcd : d ≠ c := by
      rintro rfl
      exact hiw (hr.named.seat_eq hd hr.used)
    have hnone : received c [.send d (line1 ['1', '2'] (cards (r.cardSeq (r.cardNum - 1))))] = [] := by
      simp [received, hcd]
    exact ⟨player_takeTop hr, htold.trans (told_nothing rfl hnone fun v hv ↦ hv)⟩

end Unpv13e.Client
