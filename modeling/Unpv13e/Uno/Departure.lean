import Unpv13e.Uno.Moves
import Unpv13e.Uno.Opening

/-!
# Seats that leave a running game

Library `Uno`. A seat that has left gets no line, no card and no turn any more, unless an
UNO call or catch of the same select round is settled against it: the settlement of
`src/tcpcliserv/final_server.c:620–653` gives two cards to seat `have_uno` without a test of
`hand_num`, and the seat is back with one card.
-/

namespace Unpv13e.Uno
open Unpv13e.Base Game

/-! ### Passing the turn on -/

/-- The seats from `j` on in steps of `d`. -/
private def walk (d : Seat) : Nat → Seat → List Seat
  | 0, _ => []
  | n + 1, j => j :: walk d n (j + d)

private theorem switchFrom_eq (handNum : Seat → Int) (d w : Seat) (n : Nat) (j : Seat) :
    switchFrom handNum d w n j =
      (((walk d n j).takeWhile (· ≠ w)).find? fun i ↦ handNum i ≠ -1).getD w := by
  induction n generalizing j with
  | zero => rfl
  | succ n ih =>
    rw [switchFrom, walk]
    split
    · next hj => simp [hj]
    next hj =>
    rw [List.takeWhile_cons_of_pos (by simpa using hj)]
    split
    · next hn => rw [List.find?_cons_of_neg (by simpa using hn), ih]
    · next hn => rw [List.find?_cons_of_pos (by simpa using hn)]; rfl

private theorem mem_walk (w i : Seat) (hi : i ≠ w) :
    i ∈ (walk 1 10 (w + 1)).takeWhile (· ≠ w) ∧ i ∈ (walk 9 10 (w + 9)).takeWhile (· ≠ w) := by
  have table : ∀ w i : Seat, i ≠ w → i ∈ (walk 1 10 (w + 1)).takeWhile (· ≠ w) ∧
      i ∈ (walk 9 10 (w + 9)).takeWhile (· ≠ w) := by decide
  exact table w i hi

/-- The turn goes to another seat still in the game, if there is one. -/
theorem switchToNextPlayer_spec (w : Seat) (handNum : Seat → Int) (turn : Fin 2) :
    (handNum (switchToNextPlayer w handNum turn) ≠ -1 ∧ switchToNextPlayer w handNum turn ≠ w) ∨
      (switchToNextPlayer w handNum turn = w ∧ ∀ i, i ≠ w → handNum i = -1) := by
  have search (d : Seat) (hd : ∀ i, i ≠ w → i ∈ (walk d 10 (w + d)).takeWhile (· ≠ w)) :
      (handNum (switchFrom handNum d w 10 (w + d)) ≠ -1 ∧ switchFrom handNum d w 10 (w + d) ≠ w) ∨
        (switchFrom handNum d w 10 (w + d) = w ∧ ∀ i, i ≠ w → handNum i = -1) := by
    rw [switchFrom_eq]
    cases hf : ((walk d 10 (w + d)).takeWhile (· ≠ w)).find? fun i ↦ handNum i ≠ -1 with
    | some j =>
      left
      have hj := List.find?_some hf
      have hw := List.mem_takeWhile_imp (List.mem_of_find?_eq_some hf)
      simp only [ne_eq, decide_not, Bool.not_eq_eq_eq_not, Bool.not_true, decide_eq_false_iff_not]
        at hj hw
      exact ⟨hj, hw⟩
    | none =>
      right
      refine ⟨rfl, fun i hi ↦ ?_⟩
      have := List.find?_eq_none.mp hf i (hd i hi)
      simpa using this
  unfold switchToNextPlayer
  split
  · exact search 1 fun i hi ↦ (mem_walk w i hi).1
  · exact search 9 fun i hi ↦ (mem_walk w i hi).2

/-- A turn passed on from a seat still in the game goes to a seat still in the game. -/
theorem seated_switch {w : Seat} {handNum : Seat → Int} (turn : Fin 2) (h : handNum w ≠ -1) :
    handNum (switchToNextPlayer w handNum turn) ≠ -1 := by
  rcases switchToNextPlayer_spec w handNum turn with ⟨hs, -⟩ | ⟨hs, -⟩
  · exact hs
  · rw [hs]
    exact h

/-- A turn passed on while another seat is in the game goes to a seat still in the game. -/
theorem seated_switch_of_other {w i : Seat} {handNum : Seat → Int} (turn : Fin 2) (hi : i ≠ w)
    (h : handNum i ≠ -1) : handNum (switchToNextPlayer w handNum turn) ≠ -1 := by
  rcases switchToNextPlayer_spec w handNum turn with ⟨hs, -⟩ | ⟨-, hs⟩
  · exact hs
  · exact absurd (hs i hi) h

/-! ### The seats still in the game -/

/-- `seats` are the seats still in the game, on the connections `conns`. -/
structure Seated (conns : Seat → Option ConnId) (seats : Finset Seat) (g : Game) : Prop where
  used : g.used = conns
  handNum : ∀ i, g.handNum i ≠ -1 ↔ i ∈ seats
  bounded : ∀ i ∈ seats, ((g.hand i).card : Int) ≤ g.handNum i
  playerNum : g.playerNum = seats.card
  winner : ∀ w, g.winner = some w → w ∈ seats ∧ g.pc = .ended

/-- The plan concerns seats of the set only. -/
structure Plan.Within (seats : Finset Seat) (p : Plan) : Prop where
  due : ∀ w n, p.due = some (w, n) → w ∈ seats
  actor : ∀ i, p.actor = some i → i ∈ seats

variable {conns : Seat → Option ConnId} {seats : Finset Seat} {p : Plan} {g g' : Game} {m : Move}

private theorem seated_top {w : Seat} {c : ConnId} (hw : w ∈ seats) (h : Seated conns seats g) :
    Seated conns seats (g.takeTop w c) := by
  have hnum := h.bounded w hw
  refine ⟨h.used, ?_, ?_, h.playerNum, h.winner⟩
  · intro i
    by_cases hi : i = w
    · subst hi
      rw [handNum_takeTop]
      exact ⟨fun _ ↦ hw, fun _ ↦ by omega⟩
    · rw [handNum_takeTop_of_ne hi]
      exact h.handNum i
  · intro i hs
    by_cases hi : i = w
    · subst hi
      have := Finset.card_insert_le (g.cardSeq (g.cardNum - 1)) (g.hand i)
      rw [handNum_takeTop, hand_takeTop]
      omega
    · rw [handNum_takeTop_of_ne hi, hand_takeTop_of_ne hi]
      exact h.bounded i hs

private theorem seated_drop {i : Seat} {q : CardId} (hi : i ∈ seats) (hq : q ∈ g.hand i)
    (h : Seated conns seats g) : Seated conns seats (g.dropCard i q) := by
  have hnum := h.bounded i hi
  have hpos := Finset.card_pos.mpr ⟨q, hq⟩
  refine ⟨h.used, ?_, ?_, h.playerNum, h.winner⟩
  · intro j
    by_cases hj : j = i
    · subst hj
      rw [handNum_dropCard]
      exact ⟨fun _ ↦ hi, fun _ ↦ by omega⟩
    · rw [handNum_dropCard_of_ne hj]
      exact h.handNum j
  · intro j hs
    by_cases hj : j = i
    · subst hj
      rw [handNum_dropCard, hand_dropCard, Finset.card_erase_of_mem hq]
      omega
    · rw [handNum_dropCard_of_ne hj, hand_dropCard_of_ne hj]
      exact h.bounded j hs

/-- Every move but a departure leaves the seats in the game as they are. -/
theorem moveStep_seated (hm : MoveStep g m g') (hok : Allowed p g m) (hl : p.leaver = none)
    (hp : p.Within seats) (h : Seated conns seats g) : Seated conns seats g' := by
  cases m with
  | book =>
    refine ⟨hm.used.trans h.used, ?_, ?_, hm.playerNum.trans h.playerNum, ?_⟩
    · rw [hm.handNum]
      exact h.handNum
    · rw [hm.handNum, hm.hand]
      exact h.bounded
    · rw [hm.winner, hm.ended]
      exact h.winner
  | turn =>
    cases hm
    exact ⟨h.used, h.handNum, h.bounded, h.playerNum, h.winner⟩
  | say es =>
    cases hm
    exact ⟨h.used, h.handNum, h.bounded, h.playerNum, h.winner⟩
  | round name tableCard =>
    obtain ⟨c, -, rfl⟩ := startRound_emits hm
    exact ⟨h.used, h.handNum, h.bounded, h.playerNum, h.winner⟩
  | leave i state =>
    have hl' : p.leaver = some i := hok.2
    rw [hl] at hl'
    cases hl'
  | drop i q =>
    obtain ⟨-, hq, rfl⟩ := hm
    exact seated_drop (hp.actor i hok) hq h
  | table =>
    obtain ⟨q, colour, -, rfl⟩ := hm
    exact ⟨h.used, h.handNum, h.bounded, h.playerNum, h.winner⟩
  | top w =>
    obtain ⟨c, -, -, rfl⟩ := hm
    obtain ⟨n, hdue⟩ := hok
    exact seated_top (hp.due w n hdue) h
  | refill =>
    obtain ⟨-, rand, adopted, rfl⟩ := hm
    exact ⟨h.used, h.handNum, h.bounded, h.playerNum, h.winner⟩
  | finish es winner =>
    cases hm
    refine ⟨h.used, h.handNum, h.bounded, h.playerNum, ?_⟩
    intro w hw
    have hw' : winner = some w := hw
    refine ⟨?_, rfl⟩
    rcases hok.2.2 w hw' with hold | hact | ⟨c, hc⟩
    · exact (h.winner w hold).1
    · exact hp.actor w hact
    · exact (h.handNum w).mp ((mem_active w c).mp hc).1

/-- Every move but a departure leaves the turn with a seat still in the game. -/
theorem moveStep_turn (hm : MoveStep g m g') (hok : Allowed p g m) (hl : p.leaver = none)
    (h : Seated conns seats g) (hturn : g.whoseRound ∈ seats) : g'.whoseRound ∈ seats := by
  cases m with
  | book =>
    rw [hm.whoseRound]
    exact hturn
  | turn =>
    cases hm
    exact (h.handNum _).mp (seated_switch g.turn ((h.handNum _).mpr hturn))
  | say es => cases hm; exact hturn
  | round name tableCard =>
    obtain ⟨c, -, rfl⟩ := startRound_emits hm
    exact hturn
  | leave i state =>
    have hl' : p.leaver = some i := hok.2
    rw [hl] at hl'
    cases hl'
  | drop i q => obtain ⟨-, -, rfl⟩ := hm; exact hturn
  | table => obtain ⟨q, colour, -, rfl⟩ := hm; exact hturn
  | top w => obtain ⟨c, -, -, rfl⟩ := hm; exact hturn
  | refill => obtain ⟨-, rand, adopted, rfl⟩ := hm; exact hturn
  | finish es winner => cases hm; exact hturn

/-- A seat that leaves is out of the game. -/
theorem seated_leave {i : Seat} {c : ConnId} {state : ConnState} (hi : i ∈ seats)
    (hpc : g.pc ≠ .ended) (h : Seated conns seats g) :
    Seated conns (seats.erase i) ((g.leaveSeat i).emit [.setState c state]) := by
  refine ⟨h.used, ?_, ?_, ?_, ?_⟩
  · intro j
    change (g.leaveSeat i).handNum j ≠ -1 ↔ _
    by_cases hj : j = i
    · subst hj
      simp [handNum_leaveSeat]
    · rw [handNum_leaveSeat_of_ne hj, h.handNum j, Finset.mem_erase, and_iff_right hj]
  · intro j hj
    obtain ⟨hne, hs⟩ := Finset.mem_erase.mp hj
    change ((g.hand j).card : Int) ≤ (g.leaveSeat i).handNum j
    rw [handNum_leaveSeat_of_ne hne]
    exact h.bounded j hs
  · change g.playerNum - 1 = _
    rw [Finset.card_erase_of_mem hi, h.playerNum]
  · intro w hw
    exact absurd (h.winner w hw).2 hpc

/-! ### Steps of the loop -/

/-- No UNO call or catch is settled against a seat that has left. -/
def SettlesPresent (g : Game) (a : GameAct) : Prop :=
  ∀ env u, a = .settle env → g.haveUno = some u → g.fastest u ≠ u → g.handNum u ≠ -1

/-- The state of the loop between two steps. -/
structure Playing (conns : Seat → Option ConnId) (seats : Finset Seat) (g : Game) : Prop where
  seated : Seated conns seats g
  turn : g.pc ≠ .ended → g.whoseRound ∈ seats

/-- Putting down a card leaves the seats in the game as they are. -/
theorem putDown_seated (residue cardName : Text) {i : Seat} (hi : i ∈ seats)
    (h : Seated conns seats g) : Seated conns seats (g.putDown residue cardName i) ∧
      (g.putDown residue cardName i).whoseRound = g.whoseRound := by
  unfold putDown
  split
  · next q hq => exact ⟨seated_drop hi (findCard_mem hq) h, rfl⟩
  · exact ⟨h, rfl⟩

private theorem handOutPenalty_eq {i w : Seat} {n : Nat} {l : Text}
    (h : handOutPenalty i l = some (w, n)) : w = i := by
  unfold handOutPenalty at h
  split at h
  · cases h
  split at h
  · cases h
    rfl
  · cases h

/-- Cards handed out for a line go to a seat in the game. -/
theorem handOutLine_seated {env : Env} {i w : Seat} {n : Nat} {l : Text} (hi : i ∈ seats)
    (hturn : g.whoseRound ∈ seats) (h : Seated conns seats g)
    (hout : g.handOutLine env i l = some (w, n)) : w ∈ seats := by
  unfold handOutLine at hout
  split at hout
  · cases hout
  split at hout
  · cases hout
  dsimp only at hout
  split at hout
  · unfold handOutPlay at hout
    split at hout
    · cases hout
    next cardName _ =>
    obtain ⟨hput, hwho⟩ := putDown_seated env.residue cardName hi h
    dsimp only at hout
    have hnext : (g.putDown env.residue cardName i).nextTurn.whoseRound ∈ seats := by
      refine (hput.handNum _).mp (seated_switch _ ((hput.handNum _).mpr ?_))
      rw [hwho]
      exact hturn
    split at hout
    · cases hout
    split at hout
    · cases hout
    split at hout
    · cases hout
      exact hnext
    split at hout
    · cases hout
      exact hnext
    · cases hout
  split at hout
  · cases hout
    exact hturn
  split at hout
  · rw [handOutPenalty_eq hout]
    exact hi
  split at hout
  · rw [handOutPenalty_eq hout]
    exact hi
  · cases hout

/-- The plan of a step concerns seats still in the game. -/
theorem plan_within {a : GameAct} (hs : GameStep g a g') (hok : SettlesPresent g a)
    (h : Playing conns seats g) : (g.plan a).Within seats := by
  cases a with
  | pass => exact ⟨nofun, nofun⟩
  | recv env event =>
    obtain ⟨i, r, hpc, hi, -, -, -⟩ := recv_step hs
    have hi' := (h.seated.handNum i).mp hi
    have hturn := h.turn (by rw [hpc]; exact nofun)
    rw [plan_recv hpc]
    refine ⟨?_, ?_⟩
    · intro w n hw
      unfold handOut at hw
      rw [hpc] at hw
      cases event with
      | eof => cases hw
      | line recvline => exact handOutLine_seated hi' hturn h.seated hw
    · rintro j hj
      cases hj
      exact hi'
  | settle env =>
    rw [plan_settle]
    refine ⟨?_, nofun⟩
    intro w n hw
    have hw' : g.handOut (.settle env) = some (w, n) := hw
    unfold handOut at hw'
    dsimp only at hw'
    split at hw'
    · next u hu =>
      split at hw'
      · cases hw'
      next hf =>
      cases hw'
      exact (h.seated.handNum w).mp (hok env w rfl hu hf)
    · cases hw'

/-- After a departure nobody is due anything. -/
theorem left_within (pile : Nat) : (Plan.left pile).Within seats :=
  ⟨nofun, nofun⟩

/-- Moves other than a departure leave the seats in the game as they are. -/
theorem moves_seated (hm : Moves p g g') (hl : p.leaver = none) (hp : p.Within seats)
    (h : Seated conns seats g) : Seated conns seats g' := by
  refine RunWith.preserves (I := Seated conns seats) ?_ hm h
  intro r m r' hr hok hs
  exact moveStep_seated hs hok hl hp hr

/-- Moves other than a departure leave the turn with a seat in the game. -/
theorem moves_turn (hm : Moves p g g') (hl : p.leaver = none) (hp : p.Within seats)
    (h : Seated conns seats g) (hturn : g.whoseRound ∈ seats) : g'.whoseRound ∈ seats := by
  refine (RunWith.preserves (I := fun r ↦ Seated conns seats r ∧ r.whoseRound ∈ seats) ?_ hm
    ⟨h, hturn⟩).2
  rintro r m r' ⟨hr, hrt⟩ hok hs
  exact ⟨moveStep_seated hs hok hl hp hr, moveStep_turn hs hok hl hr hrt⟩

/-- Steps are made while the game is going on. -/
theorem going_of_gameStep {a : GameAct} (hs : GameStep g a g') : g.pc ≠ .ended := by
  intro hpc
  unfold GameStep step at hs
  rw [hpc] at hs
  cases a <;> cases hs

/-- Every step but a departure leaves the seats in the game as they are. -/
theorem gameStep_playing {a : GameAct} (hs : GameStep g a g') (hok : SettlesPresent g a)
    (hl : (g.plan a).leaver = none) (h : Playing conns seats g) : Playing conns seats g' := by
  have hp := plan_within hs hok h
  have hpc : g.pc ≠ .ended := by
    intro hpc
    unfold GameStep step at hs
    rw [hpc] at hs
    cases a <;> cases hs
  have hm := step_moves hs
  exact ⟨moves_seated hm hl hp h.seated, fun _ ↦ moves_turn hm hl hp h.seated (h.turn hpc)⟩

/-- A step in which seat `i` leaves takes it out of the game. -/
theorem gameStep_leaving {a : GameAct} {i : Seat} (hs : GameStep g a g')
    (hl : (g.plan a).leaver = some i) (h : Playing conns seats g) :
    ∃ c state, i ∈ seats ∧ conns i = some c ∧
      Seated conns (seats.erase i) ((g.leaveSeat i).emit [.setState c state]) ∧
      Moves (.left g.cardNum) ((g.leaveSeat i).emit [.setState c state]) g' ∧
      Playing conns (seats.erase i) g' := by
  obtain ⟨env, state, r, hpc, hi, -, hr, rfl⟩ := leaver_step hs hl
  obtain ⟨c, hc, hm, hend⟩ := depart_moves g.cardNum hr
  have hover : g.pc ≠ .ended := by
    rw [hpc]
    exact nofun
  have hi' := (h.seated.handNum i).mp hi
  have hleft : Seated conns (seats.erase i) ((g.leaveSeat i).emit [.setState c state]) :=
    seated_leave hi' hover h.seated
  have hbooks : Books r (r.advance i) := books_advance i
  have hm' : Moves (.left g.cardNum) ((g.leaveSeat i).emit [.setState c state]) (r.advance i) :=
    RunWith.snoc (a := Move.book) hm True.intro hbooks
  have hseated := moves_seated hm' rfl (left_within _) hleft
  refine ⟨c, state, hi', h.seated.used ▸ hc, hleft, hm', hseated, ?_⟩
  intro hnot
  rw [hbooks.whoseRound]
  rcases hend with hend | ⟨hmany, hend⟩
  · exact absurd (hbooks.ended.mpr hend) hnot
  rw [hend]
  split
  · next hi =>
    -- two seats are left, so the search from the departed seat ends at one of them
    have hcard : 0 < (seats.erase i).card := by
      have := h.seated.playerNum
      rw [Finset.card_erase_of_mem hi']
      omega
    obtain ⟨j, hj⟩ := Finset.card_pos.mp hcard
    refine (hleft.handNum _).mp (seated_switch_of_other g.turn ?_ ((hleft.handNum j).mpr hj))
    rw [← hi]
    exact Finset.ne_of_mem_erase hj
  · next hne => exact Finset.mem_erase.mpr ⟨fun he ↦ hne he.symm, h.turn hover⟩

/-- Reading from a seat leaves the seats in the game as they are, unless its player leaves. -/
theorem playing_recv {env : Env} {event : Event} {i : Seat} (hs : GameStep g (.recv env event) g')
    (hpc : g.pc = .scan i) (h : Playing conns seats g) :
    Playing conns (if Departure event then seats.erase i else seats) g' := by
  have hleaver : (g.plan (.recv env event)).leaver = if Departure event then some i else none := by
    rw [plan_recv hpc]
  by_cases hdep : Departure event
  · rw [if_pos hdep] at hleaver ⊢
    obtain ⟨-, -, -, -, -, -, hplay⟩ := gameStep_leaving hs hleaver h
    exact hplay
  · rw [if_neg hdep] at hleaver ⊢
    exact gameStep_playing hs nofun hleaver h

/-- The state `GameStart` enters its loop in, on seats that all have their own connection. -/
theorem gameStart_playing {name : ConnId → Text} {rand : Nat → Nat} {draw playerNum : Nat}
    (hstart : gameStart name rand draw conns playerNum = .ok g)
    (hcount : playerNum = (Finset.univ.filter fun i ↦ (conns i).isSome).card) :
    Playing conns (Finset.univ.filter fun i ↦ (conns i).isSome) g := by
  have hopen := gameStart_opened hstart
  refine ⟨⟨hopen.seats, ?_, ?_, hopen.players.trans hcount, ?_⟩, fun _ ↦ ?_⟩
  · intro i
    rw [hopen.handNum i, Finset.mem_filter, and_iff_right (Finset.mem_univ i)]
    by_cases hi : (conns i).isSome <;> simp [hi]
  · intro i hi
    have hi' := (Finset.mem_filter.mp hi).2
    rw [hopen.handNum i, hopen.card i, if_pos hi', if_pos hi']
    rfl
  · intro w hw
    rw [hopen.winner] at hw
    cases hw
  · have hfirst := hopen.first
    have hlen : ((List.finRange 10).filter fun i ↦ (conns i).isSome).length = playerNum := by
      rw [hcount, ← List.toFinset_card_of_nodup (List.Nodup.filter _ (List.nodup_finRange 10))]
      congr 1
      ext i
      simp
    unfold firstPlayer at hfirst
    split at hfirst
    · cases hfirst
    next hpos =>
    have hlt := Nat.mod_lt draw (Nat.pos_of_ne_zero hpos)
    split at hfirst
    · next i hi =>
      cases hfirst
      have := (List.mem_filter.mp (List.mem_of_getElem? hi)).2
      exact Finset.mem_filter.mpr ⟨Finset.mem_univ _, this⟩
    · next hi =>
      have := List.getElem?_eq_none_iff.mp hi
      omega

/-- Seat `v`, whose connection was `c`, is gone: since the effects `sent` it was sent no line,
and its cards are those it left with. -/
structure Gone (v : Seat) (c : ConnId) (sent : List Effect) (held : Finset CardId) (g : Game) :
    Prop where
  handNum : g.handNum v = -1
  hand : g.hand v = held
  out : ∃ es, g.out = sent ++ es ∧ ∀ line, .send c line ∉ es

variable {v : Seat} {c : ConnId} {sent : List Effect} {held : Finset CardId}

private theorem gone_emit {es : List Effect} (hes : ∀ line, .send c line ∉ es)
    (h : Gone v c sent held g) : Gone v c sent held (g.emit es) := by
  obtain ⟨old, hold, hno⟩ := h.out
  refine ⟨h.handNum, h.hand, old ++ es, ?_, ?_⟩
  · change g.out ++ es = _
    rw [hold, List.append_assoc]
  · intro line hm
    rcases List.mem_append.mp hm with hm | hm
    · exact hno line hm
    · exact hes line hm

private theorem gone_not_active (hinj : ∀ i j c, conns i = some c → conns j = some c → i = j)
    (hc : conns v = some c) (hs : Seated conns seats g) (h : Gone v c sent held g) :
    ∀ i, (i, c) ∉ g.active := by
  intro i hi
  obtain ⟨hn, hu⟩ := (mem_active i c).mp hi
  rw [hs.used] at hu
  cases hinj i v c hu hc
  exact hn h.handNum

/-- Every move but its own departure leaves a departed seat alone. -/
theorem moveStep_gone (hinj : ∀ i j c, conns i = some c → conns j = some c → i = j)
    (hc : conns v = some c) (hm : MoveStep g m g') (hok : Allowed p g m) (hl : p.leaver = none)
    (hp : p.Within seats) (hs : Seated conns seats g) (h : Gone v c sent held g) :
    Gone v c sent held g' := by
  have hnot := gone_not_active hinj hc hs h
  have hv : v ∉ seats := fun hv ↦ (hs.handNum v).mpr hv h.handNum
  cases m with
  | book =>
    refine ⟨?_, ?_, ?_⟩
    · rw [hm.handNum]
      exact h.handNum
    · rw [hm.hand]
      exact h.hand
    · rw [hm.out]
      exact h.out
  | turn => cases hm; exact ⟨h.handNum, h.hand, h.out⟩
  | say es =>
    cases hm
    refine gone_emit (fun line hmem ↦ ?_) h
    obtain ⟨⟨i, hi⟩, -⟩ := hok _ hmem
    exact hnot i hi
  | round name tableCard =>
    obtain ⟨c', -, rfl⟩ := startRound_emits hm
    refine gone_emit (fun line hmem ↦ ?_) h
    obtain ⟨q, hq, he⟩ := List.mem_map.mp hmem
    cases he
    exact hnot q.1 hq
  | leave i state =>
    have hl' : p.leaver = some i := hok.2
    rw [hl] at hl'
    cases hl'
  | drop i q =>
    obtain ⟨-, -, rfl⟩ := hm
    have hne : v ≠ i := by
      rintro rfl
      exact hv (hp.actor v hok)
    exact ⟨(handNum_dropCard_of_ne hne q g).trans h.handNum,
      (hand_dropCard_of_ne hne q g).trans h.hand, h.out⟩
  | table => obtain ⟨q, colour, -, rfl⟩ := hm; exact ⟨h.handNum, h.hand, h.out⟩
  | top w =>
    obtain ⟨c', hc', -, rfl⟩ := hm
    obtain ⟨n, hdue⟩ := hok
    have hw := hp.due w n hdue
    have hne : v ≠ w := by
      rintro rfl
      exact hv hw
    have hmem : (w, c') ∈ g.active := (mem_active w c').mpr ⟨(hs.handNum w).mpr hw, hc'⟩
    have hsend : Gone v c sent held (g.emit [.send c' (line1 ['1', '2']
        (cards (g.cardSeq (g.cardNum - 1))))]) := by
      refine gone_emit (fun line hm ↦ ?_) h
      cases List.mem_singleton.mp hm
      exact hnot w hmem
    exact ⟨(handNum_takeTop_of_ne hne c' g).trans h.handNum,
      (hand_takeTop_of_ne hne c' g).trans h.hand, hsend.out⟩
  | refill => obtain ⟨-, rand, adopted, rfl⟩ := hm; exact ⟨h.handNum, h.hand, h.out⟩
  | finish es winner =>
    cases hm
    have hsend : Gone v c sent held (g.emit es) := by
      refine gone_emit (fun line hmem ↦ ?_) h
      obtain ⟨⟨i, hi⟩, -⟩ := hok.1 _ hmem
      exact hnot i hi
    exact ⟨hsend.handNum, hsend.hand, hsend.out⟩

private theorem moves_gone (hinj : ∀ i j c, conns i = some c → conns j = some c → i = j)
    (hc : conns v = some c) (hm : Moves p g g') (hl : p.leaver = none) (hp : p.Within seats)
    (hs : Seated conns seats g) (h : Gone v c sent held g) : Gone v c sent held g' := by
  refine (RunWith.preserves (I := fun r ↦ Seated conns seats r ∧ Gone v c sent held r) ?_ hm
    ⟨hs, h⟩).2
  rintro r m r' ⟨hr, hg⟩ hok hst
  exact ⟨moveStep_seated hst hok hl hp hr, moveStep_gone hinj hc hst hok hl hp hr hg⟩

private theorem gone_leave {i : Seat} {c' : ConnId} {state : ConnState} (hi : i ∈ seats)
    (hs : Seated conns seats g) (h : Gone v c sent held g) :
    Gone v c sent held ((g.leaveSeat i).emit [.setState c' state]) := by
  have hne : v ≠ i := by
    rintro rfl
    exact (hs.handNum v).mpr hi h.handNum
  have hleft : Gone v c sent held (g.leaveSeat i) :=
    ⟨(handNum_leaveSeat_of_ne hne g).trans h.handNum, h.hand, h.out⟩
  exact gone_emit (by simp) hleft

/-- A step leaves a departed seat alone. -/
theorem gameStep_gone {a : GameAct}
    (hinj : ∀ i j c, conns i = some c → conns j = some c → i = j) (hc : conns v = some c)
    (hs : GameStep g a g') (hok : SettlesPresent g a) (hp : Playing conns seats g)
    (h : Gone v c sent held g) :
    ∃ seats', Playing conns seats' g' ∧ Gone v c sent held g' := by
  cases hl : (g.plan a).leaver with
  | none =>
    exact ⟨seats, gameStep_playing hs hok hl hp,
      moves_gone hinj hc (step_moves hs) hl (plan_within hs hok hp) hp.seated h⟩
  | some i =>
    obtain ⟨c', state, hi, -, hleft, hm, hplay⟩ := gameStep_leaving hs hl hp
    exact ⟨_, hplay, moves_gone hinj hc hm rfl (left_within _) hleft (gone_leave hi hp.seated h)⟩

/-- Between two steps of a game some seats are in it. -/
theorem run_playing {name : ConnId → Text} {rand : Nat → Nat} {draw playerNum : Nat}
    (hstart : gameStart name rand draw conns playerNum = .ok g)
    (hcount : playerNum = (Finset.univ.filter fun i ↦ (conns i).isSome).card)
    (hr : RunWith GameStep SettlesPresent g g') : ∃ seats, Playing conns seats g' := by
  refine RunWith.preserves (I := fun r ↦ ∃ seats, Playing conns seats r) ?_ hr
    ⟨_, gameStart_playing hstart hcount⟩
  rintro r a r' ⟨seats, hp⟩ hok hs
  cases hl : (r.plan a).leaver with
  | none => exact ⟨seats, gameStep_playing hs hok hl hp⟩
  | some i =>
    obtain ⟨_, _, _, _, _, _, hplay⟩ := gameStep_leaving hs hl hp
    exact ⟨_, hplay⟩

private theorem leaves_of_gone {a : GameAct} (hs : GameStep g a g') (hok : SettlesPresent g a)
    (hp : Playing conns seats g) (hv : g.handNum v ≠ -1) (hgone : g'.handNum v = -1) :
    (g.plan a).leaver = some v := by
  have hv' := (hp.seated.handNum v).mp hv
  cases hl : (g.plan a).leaver with
  | none =>
    have := gameStep_playing hs hok hl hp
    exact absurd hgone ((this.seated.handNum v).mpr hv')
  | some i =>
    obtain ⟨_, _, _, _, _, _, hplay⟩ := gameStep_leaving hs hl hp
    by_cases hi : v = i
    · rw [hi]
    · exact absurd hgone ((hplay.seated.handNum v).mpr (Finset.mem_erase.mpr ⟨hi, hv'⟩))

/-- In every game in which no UNO call or catch is settled against a seat that has left, a
seat that leaves stays out: from its departure on its counter is `-1`, its connection gets no
line, and it is not given the turn, the victory or a card. -/
theorem departed_for_good {name : ConnId → Text} {rand : Nat → Nat} {draw playerNum : Nat}
    {g₀ g₁ g₂ : Game} {a : GameAct}
    (hstart : gameStart name rand draw conns playerNum = .ok g₀)
    (hcount : playerNum = (Finset.univ.filter fun i ↦ (conns i).isSome).card)
    (hinj : ∀ i j c, conns i = some c → conns j = some c → i = j)
    (hrun : RunWith GameStep SettlesPresent g₀ g) (hv : g.handNum v ≠ -1)
    (hc : conns v = some c) (hstep : GameStep g a g₁) (hok : SettlesPresent g a)
    (hgone : g₁.handNum v = -1) (hlater : RunWith GameStep SettlesPresent g₁ g₂) :
    g₂.handNum v = -1 ∧ (∃ es, g₂.out = g.out ++ es ∧ ∀ line, .send c line ∉ es) ∧
      (g₂.pc ≠ .ended → g₂.whoseRound ≠ v) ∧ g₂.winner ≠ some v ∧ g₂.hand v = g.hand v ∧
      ∀ b w n g₃, GameStep g₂ b g₃ → SettlesPresent g₂ b → g₂.handOut b = some (w, n) →
        w ≠ v := by
  obtain ⟨seats, hp⟩ := run_playing hstart hcount hrun
  have hl := leaves_of_gone hstep hok hp hv hgone
  obtain ⟨c', state, -, -, hleft, hm, hplay⟩ := gameStep_leaving hstep hl hp
  have hgone₁ : Gone v c g.out (g.hand v) g₁ := by
    refine moves_gone hinj hc hm rfl (left_within _) hleft (gone_emit (by simp) ?_)
    exact ⟨handNum_leaveSeat v g, rfl, [], by simp [leaveSeat], by simp⟩
  have hinv : ∃ seats, Playing conns seats g₂ ∧ Gone v c g.out (g.hand v) g₂ := by
    refine RunWith.preserves
      (I := fun r ↦ ∃ seats, Playing conns seats r ∧ Gone v c g.out (g.hand v) r) ?_ hlater
      ⟨_, hplay, hgone₁⟩
    rintro r b r' ⟨ss, hrp, hrg⟩ hrok hrs
    exact gameStep_gone hinj hc hrs hrok hrp hrg
  obtain ⟨ss, hp₂, hg₂⟩ := hinv
  have hout : v ∉ ss := fun hmem ↦ (hp₂.seated.handNum v).mpr hmem hg₂.handNum
  refine ⟨hg₂.handNum, hg₂.out, ?_, ?_, hg₂.hand, ?_⟩
  · rintro hpc rfl
    exact hout (hp₂.turn hpc)
  · intro hw
    exact hout (hp₂.seated.winner v hw).1
  · rintro b w n g₃ hs hb hdue rfl
    exact hout ((plan_within hs hb hp₂).due w n ((plan_due g₂ b).trans hdue))

/-- Seat 1 leaves first: it is out for good. -/
theorem departed_for_good_inOrder :
    ∃ g₀ g g₁, gameStart plainName (inOrder.rand 0) 0 nineSeats 9 = .ok g₀ ∧
      GameStep g₀ .pass g ∧ GameStep g (.recv inOrder .eof) g₁ ∧ g₁.handNum 1 = -1 ∧
      g₁.whoseRound ≠ 1 ∧ g₁.winner ≠ some 1 := by
  obtain ⟨g₀, hg₀, hcards, hwho, -, -⟩ := gameStart_inOrder
  have hopen := gameStart_opened hg₀
  let g : Game := { g₀ with pc := .scan 1 }
  have hpass : GameStep g₀ .pass g := by
    unfold GameStep step advance
    simp only [hopen.pc]
    rfl
  have hu : g.used 1 = some 1 := congrFun hopen.seats 1
  have hn : g.handNum 1 ≠ -1 := by
    rw [show g.handNum 1 = _ from hopen.handNum 1]
    decide
  let left := ((g.leaveSeat 1).emit [.setState 1 .empty]).sendToEveryoneInGame (some 1)
    (line1 ['7'] (plainName 1))
  have hrecv : recv inOrder 1 .eof g = .ok left := by
    have hconn : g.conn 1 = .ok 1 := by
      unfold conn
      rw [hu]
    have hmany : ¬ left.playerNum < 2 := by
      change ¬ g₀.playerNum - 1 < 2
      rw [hopen.players]
      decide
    have hturn : ¬ 1 = left.whoseRound := by
      change ¬ 1 = g₀.whoseRound
      rw [hwho]
      decide
    unfold recv depart
    dsimp only
    rw [hconn, ok_bind]
    exact (if_neg hmany).trans (if_neg hturn)
  have hstep : GameStep g (.recv inOrder .eof) (left.advance 1) :=
    step_recv rfl (by rw [hu]; rfl) hn hrecv
  have hgone : (left.advance 1).handNum 1 = -1 := by
    rw [(books_advance 1).handNum]
    exact handNum_leaveSeat 1 g
  have h := departed_for_good (v := 1) (c := 1) hg₀ (by decide) (by decide)
    (RunWith.snoc RunWith.refl (fun _ _ he ↦ by cases he) hpass) hn rfl hstep
    (fun _ _ he ↦ by cases he) hgone RunWith.refl
  refine ⟨g₀, g, left.advance 1, hg₀, hpass, hstep, h.1, h.2.2.1 ?_, h.2.2.2.1⟩
  have hpc : left.pc = .scan 1 := rfl
  unfold advance
  rw [hpc]
  exact nofun

/-! ### Games in which cards are put down -/

/-- The card that seat `s` plays when it has played `k`. -/
def ownCard (s : Seat) (k : Nat) : CardId := Fin.ofNat 108 (101 - 7 * s.val + k)

/-- The line by which seat `s` plays it. -/
def ownLine (s : Seat) (k : Nat) : Text := line1 ['9'] (cards (ownCard s k))

/-- A turn of the loop in which seat `s` plays it and nobody else says anything. -/
def ownTurn (s : Seat) (k : Nat) : List GameAct :=
  List.replicate s.val .pass ++ (.recv inOrder (.line (ownLine s k)) ::
    (List.replicate (9 - s.val) .pass ++ [.settle inOrder]))

/-- The seats 7 and 8 are dealt numbers from 6 to 8. -/
private theorem own_lines : ∀ s : Seat, s = 7 ∨ s = 8 → ∀ k < 6,
    (ownCard s k).val = 101 - 7 * s.val + k ∧ charAt (ownLine s k) 0 = '9' ∧
    tokens (chop (ownLine s k)) = [['9'], cards (ownCard s k)] ∧
    lookupName [] (cards (ownCard s k)) = cards (ownCard s k) ∧
    findCard (Finset.univ.filter fun q : CardId ↦ 101 - 7 * s.val + k ≤ q.val ∧
      q.val ≤ 107 - 7 * s.val) (cards (ownCard s k)) = some (ownCard s k) := by
  decide +kernel

/-- Between two turns of the loop: seat `i` has played the first `n i` of its cards. -/
structure Shed (n : Seat → Nat) (w : Seat) (g : Game) : Prop where
  used : g.used = nineSeats
  pc : g.pc = .scan 0
  haveUno : g.haveUno = none
  timeStamp : ∀ i, g.timeStamp i = longMax
  cardNum : g.cardNum = 44
  playerNum : g.playerNum = 9
  handNum : ∀ i : Seat, g.handNum i = if i.val < 9 then 7 - (n i : Int) else -1
  hand : ∀ (i : Seat) (q : CardId), q ∈ g.hand i ↔
    i.val < 9 ∧ 101 - 7 * i.val + n i ≤ q.val ∧ q.val ≤ 107 - 7 * i.val
  whoseRound : g.whoseRound = w
  seated : w.val < 9
  turn : g.turn = 0
  isUno : ∀ i, g.isUno i = false
  cardId : ∀ i, 0 < n i → ∃ q, g.cardId = some q ∧ q.val < 76

/-- Before the first turn nobody has played. -/
theorem shed_start : ∃ g, gameStart plainName (inOrder.rand 0) 0 nineSeats 9 = .ok g ∧
    Shed (fun _ ↦ 0) 0 g := by
  obtain ⟨g, hg, hnum, hwho, -, hhand⟩ := gameStart_inOrder
  have hopen := gameStart_opened hg
  refine ⟨g, hg, hopen.seats, hopen.pc, hopen.haveUno, hopen.timeStamp, hnum, hopen.players, ?_,
    hhand, hwho, by decide, hopen.turn, hopen.isUno, fun i hi ↦ absurd hi (Nat.lt_irrefl 0)⟩
  intro i
  rw [hopen.handNum i]
  have table : ∀ i : Seat, (if (nineSeats i).isSome then (7 : Int) else -1) =
      if i.val < 9 then 7 - ((0 : Nat) : Int) else -1 := by decide
  exact table i

/-- Seats passed over only move the loop on. -/
theorem runActs_pass (n : Nat) {i : Seat} (hi : i.val + n < 10) {r : Game}
    (hpc : r.pc = .scan i) : runActs Game.step r (List.replicate n .pass) =
      .ok { r with pc := .scan ⟨i.val + n, hi⟩ } := by
  induction n generalizing i r with
  | zero =>
    have hsame : r = { r with pc := .scan ⟨i.val + 0, hi⟩ } := by
      obtain ⟨⟩ := r
      cases hpc
      rfl
    exact congrArg Except.ok hsame
  | succ n ih =>
    have hadv : r.advance i = { r with pc := .scan ⟨i.val + 1, by omega⟩ } := by
      unfold advance
      simp only [hpc, dif_pos (show i.val + 1 < 10 by omega)]
    have hstep : r.step .pass = .ok (r.advance i) := by
      unfold step
      rw [hpc]
    rw [List.replicate_succ, runActs, hstep, ok_bind, hadv,
      ih (i := ⟨i.val + 1, by omega⟩) (by dsimp only; omega) rfl]
    simp only [Nat.add_assoc, Nat.add_comm 1 n]

/-- Nobody else says anything, and there is nothing to settle. -/
theorem runActs_rest (n : Nat) {i : Seat} (hi : i.val + n = 9) {r : Game} (hpc : r.pc = .scan i)
    (hu : r.haveUno = none) :
    runActs Game.step (r.advance i) (List.replicate n .pass ++ [.settle inOrder]) =
      .ok r.newRound := by
  have hsettle (t : Game) (ht : t.pc = .settle) (hu : t.haveUno = none) :
      runActs Game.step t [.settle inOrder] = .ok t.newRound := by
    obtain ⟨⟩ := t
    cases ht
    cases hu
    rfl
  cases n with
  | zero =>
    have hadv : r.advance i = { r with pc := .settle } := by
      unfold advance
      simp only [hpc, dif_neg (show ¬ i.val + 1 < 10 by omega)]
    rw [hadv]
    exact hsettle _ rfl hu
  | succ n =>
    have hadv : r.advance i = { r with pc := .scan ⟨i.val + 1, by omega⟩ } := by
      unfold advance
      simp only [hpc, dif_pos (show i.val + 1 < 10 by omega)]
    have hlast : ({ r with pc := .scan ⟨i.val + 1 + n, by omega⟩ } : Game).step .pass =
        .ok { r with pc := .settle } := by
      unfold step advance
      simp only [dif_neg (show ¬ i.val + 1 + n + 1 < 10 by omega)]
    rw [List.replicate_succ', List.append_assoc, runActs_append, hadv,
      runActs_pass n (i := ⟨i.val + 1, by omega⟩) (by dsimp only; omega) rfl, ok_bind]
    change (Game.step _ _ >>= _) = _
    rw [hlast]
    exact hsettle { r with pc := .settle } rfl hu

/-- A play of a card the player has. -/
theorem play_eq {env : Env} {i : Seat} {l w : Text} {q : CardId} {g : Game}
    (harg : arg1 l = .ok w) (hfind : findCard (g.hand i) (lookupName env.residue w) = some q) :
    play env i l g =
      if ((g.dropCard i q).showCard q (charAt w 1)).handNum i ≤ 0 then
        winByPlay env.name i ((g.dropCard i q).showCard q (charAt w 1))
      else cardEffect env.rand ((g.dropCard i q).showCard q (charAt w 1)) >>=
        startRound env.name w := by
  have hput : g.putDown env.residue w i = g.dropCard i q := by
    unfold putDown
    rw [hfind]
  have hbind (f : Text → Except Stop Game) : ((Except.ok w : Except Stop Text) >>= f) = f w := rfl
  unfold play
  rw [harg, hbind]
  simp only [hput]
  rfl

/-- The seat after `w`, where the first nine seats are in the game. -/
def after (w : Seat) : Seat := if w.val < 8 then w + 1 else 0

/-- The turn passes over the tenth seat. -/
theorem switch_after {w : Seat} (hw : w.val < 9) {handNum : Seat → Int}
    (hnum : ∀ i, handNum i = -1 ↔ 9 ≤ i.val) : switchToNextPlayer w handNum 0 = after w := by
  unfold switchToNextPlayer after
  rw [if_pos rfl]
  have hne : w + 1 ≠ w := by
    revert w
    decide
  rw [switchFrom, if_neg hne]
  by_cases h8 : w.val < 8
  · have hin : handNum (w + 1) ≠ -1 := by
      rw [Ne, hnum, Fin.val_add]
      change ¬ 9 ≤ (w.val + 1) % 10
      omega
    rw [if_neg hin, if_pos h8]
  · obtain rfl : w = 8 := Fin.ext (by change w.val = 8; omega)
    have hout : handNum (8 + 1) = -1 := (hnum _).mpr (by decide)
    have hin : handNum (8 + 1 + 1) ≠ -1 := fun he ↦ absurd ((hnum _).mp he) (by decide)
    rw [if_pos hout, if_neg h8, switchFrom, if_neg (by decide), if_neg hin]
    rfl

private theorem play_own {n : Seat → Nat} {w s : Seat} (hs : s = 7 ∨ s = 8) (hk : n s < 6)
    (hn : ∀ i, n i < 7) {g : Game} (h : Shed n w g) :
    ∃ r, play inOrder s (chop (ownLine s (n s))) { g with pc := .scan s } = .ok r ∧
      r.pc = .scan s ∧ r.haveUno = none ∧
      Shed (Function.update n s (n s + 1)) (after w) r.newRound := by
  obtain ⟨hval, -, htok, hname, hfind⟩ := own_lines s hs (n s) hk
  let gs : Game := { g with pc := .scan s }
  have hs9 : s.val < 9 := by
    rcases hs with rfl | rfl <;> decide
  have harg : arg1 (chop (ownLine s (n s))) = .ok (cards (ownCard s (n s))) := by
    unfold arg1
    rw [htok]
    rfl
  have hhand : gs.hand s = Finset.univ.filter fun q : CardId ↦ 101 - 7 * s.val + n s ≤ q.val ∧
      q.val ≤ 107 - 7 * s.val := by
    ext q
    rw [Finset.mem_filter]
    exact (h.hand s q).trans ⟨fun hq ↦ ⟨Finset.mem_univ _, hq.2⟩, fun hq ↦ ⟨hs9, hq.2⟩⟩
  let shown :=
    (gs.dropCard s (ownCard s (n s))).showCard (ownCard s (n s)) (charAt (cards (ownCard s (n s))) 1)
  have hnum (i : Seat) : shown.handNum i =
      if i.val < 9 then 7 - (Function.update n s (n s + 1) i : Int) else -1 := by
    by_cases hi : i = s
    · subst hi
      change (gs.dropCard i (ownCard i (n i))).handNum i = _
      rw [handNum_dropCard, show gs.handNum i = _ from h.handNum i, if_pos hs9, if_pos hs9,
        Function.update_self]
      omega
    · change (gs.dropCard s (ownCard s (n s))).handNum i = _
      rw [handNum_dropCard_of_ne hi, show gs.handNum i = _ from h.handNum i,
        Function.update_of_ne hi]
  have hlow : (ownCard s (n s)).val < 76 := by
    rw [hval]
    rcases hs with rfl | rfl
    · change 101 - 7 * 7 + n 7 < 76
      omega
    · change 101 - 7 * 8 + n 8 < 76
      omega
  have heffect : cardEffect inOrder.rand shown = .ok shown.nextTurn := by
    unfold cardEffect
    have ht : shown.tableCard.val < 76 := hlow
    dsimp only
    rw [if_neg (by omega), if_neg (by omega), if_neg (by omega), if_neg (by omega)]
  have hin (i : Seat) : shown.handNum i = -1 ↔ 9 ≤ i.val := by
    rw [hnum i]
    have := hn i
    by_cases hi : i.val < 9
    · rw [if_pos hi]
      refine iff_of_false ?_ (by omega)
      by_cases his : i = s
      · subst his
        rw [Function.update_self]
        omega
      · rw [Function.update_of_ne his]
        omega
    · rw [if_neg hi]
      exact iff_of_true rfl (by omega)
  have hafter : (after w).val < 9 := by
    unfold after
    split
    · next hw =>
      rw [Fin.val_add]
      change (w.val + 1) % 10 < 9
      omega
    · decide
  have hnext : shown.nextTurn.whoseRound = after w := by
    change switchToNextPlayer g.whoseRound shown.handNum g.turn = _
    rw [h.turn, h.whoseRound]
    exact switch_after h.seated hin
  obtain ⟨c, hc⟩ : ∃ c, shown.nextTurn.conn shown.nextTurn.whoseRound = .ok c := by
    have hu : shown.nextTurn.used = nineSeats := h.used
    unfold conn
    rw [hu, nineSeats, hnext, if_pos hafter]
    exact ⟨_, rfl⟩
  refine ⟨shown.nextTurn.emit (shown.nextTurn.active.map fun p ↦
    .send p.2 (shown.nextTurn.roundLine (cards (ownCard s (n s))) (inOrder.name c) p.1)), ?_, rfl,
    h.haveUno, ?_⟩
  · rw [play_eq harg (q := ownCard s (n s)) (by
      rw [hhand, show inOrder.residue = [] from rfl, hname]
      exact hfind)]
    rw [if_neg (by rw [hnum s, if_pos hs9, Function.update_self]; omega), heffect]
    change startRound inOrder.name (cards (ownCard s (n s))) shown.nextTurn = _
    unfold startRound
    rw [hc]
    rfl
  · refine ⟨h.used, rfl, rfl, fun _ ↦ rfl, h.cardNum, h.playerNum, hnum, fun i q ↦ ?_, hnext, hafter,
      h.turn, h.isUno, fun _ _ ↦ ⟨ownCard s (n s), rfl, hlow⟩⟩
    by_cases hi : i = s
    · subst hi
      change q ∈ (gs.dropCard i (ownCard i (n i))).hand i ↔ _
      rw [hand_dropCard, hhand, Function.update_self]
      simp only [Finset.mem_erase, Finset.mem_filter, Finset.mem_univ, true_and, ne_eq, Fin.ext_iff,
        hval]
      omega
    · change q ∈ (gs.dropCard s (ownCard s (n s))).hand i ↔ _
      rw [hand_dropCard_of_ne hi, Function.update_of_ne hi]
      exact h.hand i q

/-- One of the seats 7 and 8 plays a card. -/
theorem shed_turn {n : Seat → Nat} {w s : Seat} (hs : s = 7 ∨ s = 8) (hk : n s < 6)
    (hn : ∀ i, n i < 7) {g : Game} (h : Shed n w g) :
    ∃ g', runActs Game.step g (ownTurn s (n s)) = .ok g' ∧
      Shed (Function.update n s (n s + 1)) (after w) g' := by
  obtain ⟨r, hr, hpc, hu, hnext⟩ := play_own hs hk hn h
  refine ⟨r.newRound, ?_, hnext⟩
  have hs9 : s.val < 9 := by
    rcases hs with rfl | rfl <;> decide
  have hin : g.handNum s ≠ -1 := by
    rw [h.handNum s, if_pos hs9]
    omega
  have hmem : (g.used s).isSome := by
    rw [h.used, nineSeats, if_pos hs9]
    rfl
  have hrecv : Game.step { g with pc := .scan s } (.recv inOrder (.line (ownLine s (n s)))) =
      .ok (r.advance s) :=
    step_recv rfl hmem hin ((recv_play (own_lines s hs (n s) hk).2.1).trans hr)
  have hzero : (0 : Seat).val + s.val = s.val := Nat.zero_add _
  rw [ownTurn, runActs_append, runActs_pass s.val (i := 0) (by omega) h.pc, ok_bind]
  have hplace : (⟨(0 : Seat).val + s.val, by omega⟩ : Seat) = s := Fin.ext hzero
  rw [hplace, runActs, hrecv, ok_bind]
  exact runActs_rest (9 - s.val) (by omega) hpc hu

/-- A seat plays one card after the other. -/
theorem shed_turns {n : Seat → Nat} {w s : Seat} (hs : s = 7 ∨ s = 8) (hn : ∀ i, n i < 7)
    (h0 : n s = 0) (k : Nat) (hk : k ≤ 6) {g : Game} (h : Shed n w g) :
    ∃ g', runActs Game.step g ((List.range k).flatMap (ownTurn s)) = .ok g' ∧
      Shed (Function.update n s k) (after^[k] w) g' := by
  induction k with
  | zero =>
    have hsame : Function.update n s 0 = n := by
      rw [← h0, Function.update_eq_self]
    refine ⟨g, rfl, ?_⟩
    rw [hsame]
    exact h
  | succ k ih =>
    obtain ⟨r, hr, hd⟩ := ih (by omega)
    have hself : Function.update n s k s = k := Function.update_self _ _ _
    have hsmall (i : Seat) : Function.update n s k i < 7 := by
      by_cases hi : i = s
      · subst hi
        rw [hself]
        omega
      · rw [Function.update_of_ne hi]
        exact hn i
    obtain ⟨g', hg', hd'⟩ := shed_turn hs (by rw [hself]; omega) hsmall hd
    rw [hself, Function.update_idem] at hd'
    rw [hself] at hg'
    refine ⟨g', ?_, by rw [Function.iterate_succ_apply']; exact hd'⟩
    rw [List.range_succ, List.flatMap_append, runActs_append, hr, ok_bind, List.flatMap_singleton]
    exact hg'

/-! ### A seat that comes back -/

/-- The card that seat 8 plays in turn `k` of the loop. -/
def shedCard (k : Nat) : CardId := Fin.ofNat 108 (45 + k)

/-- The line by which seat 8 plays it. -/
def shedLine (k : Nat) : Text := line1 ['9'] (cards (shedCard k))

/-- A turn of the loop in which seat 8 plays a card and nobody else says anything. -/
def shedTurn (k : Nat) : List GameAct :=
  List.replicate 8 .pass ++ [.recv inOrder (.line (shedLine k)), .pass, .settle inOrder]

/-- The line by which a player catches the one called `i`. -/
def catchLine : Text := ['1', '2', ' ', '1', ' ', 'i', ' ', '5', '\n']

/-- Seat 8 is caught by seat 0 when it has one card left. -/
def caughtActs : List GameAct :=
  (List.range 6).flatMap shedTurn ++
    (.recv inOrder (.line catchLine) :: List.replicate 7 .pass)

/-- The state in which seat 8 is caught and has not been read yet. -/
private structure Caught (g : Game) : Prop where
  used : g.used = nineSeats
  pc : g.pc = .scan 8
  haveUno : g.haveUno = some 8
  timeStamp : g.timeStamp = Function.update (fun _ ↦ longMax) 0 5
  cardNum : g.cardNum = 44
  playerNum : g.playerNum = 9
  handNum : ∀ i : Seat, g.handNum i = if i = 8 then 1 else if i.val < 9 then 7 else -1
  whoseRound : g.whoseRound = 6
  turn : g.turn = 0
  other : ∀ q : CardId, q ∈ g.hand 2 ↔ 87 ≤ q.val ∧ q.val ≤ 93

private theorem caught_start : ∃ g₀ g, gameStart plainName (inOrder.rand 0) 0 nineSeats 9 = .ok g₀ ∧
    runActs Game.step g₀ caughtActs = .ok g ∧ Caught g := by
  obtain ⟨g₀, hg₀, h₀⟩ := shed_start
  obtain ⟨g, hg, h⟩ := shed_turns (.inr rfl) (fun _ ↦ by omega) rfl 6 (by omega) h₀
  have hg : runActs Game.step g₀ ((List.range 6).flatMap shedTurn) = .ok g := hg
  have hnum : g.handNum = fun i : Seat ↦ if i = 8 then 1 else if i.val < 9 then 7 else -1 := by
    funext i
    rw [h.handNum i]
    revert i
    decide
  let g1 : Game := { g.setUno (some 8) with timeStamp := Function.update g.timeStamp 0 5 }
  have hcatch : catchUno inOrder 0 (chop catchLine) g = .ok g1 := by
    have hfind : g.findNamed inOrder ['i'] = some 8 := by
      unfold findNamed
      rw [hnum]
      decide
    have h8 : (g.isUno 8 = false ∧ g.handNum 8 = 1) := ⟨h.isUno 8, by rw [hnum]; rfl⟩
    have h1 : arg1 (chop catchLine) = .ok ['1'] := rfl
    have h2 : arg2 (chop catchLine) = .ok ['i'] := rfl
    have h3 : arg3 (chop catchLine) = .ok ['5'] := rfl
    unfold catchUno stamp
    rw [h1, ok_bind, if_neg (by decide), h.haveUno]
    dsimp only
    rw [h2, ok_bind, ok_bind, hfind]
    dsimp only
    rw [if_pos h8, if_pos (show (g.setUno (some 8)).timeStamp 0 = longMax from h.timeStamp 0), h3]
    rfl
  have hstep : g.step (.recv inOrder (.line catchLine)) = .ok (g1.advance 0) :=
    step_recv h.pc (by rw [h.used]; rfl) (by rw [hnum]; decide) hcatch
  have hpc : (g1.advance 0).pc = .scan 1 := by
    have hpc : g1.pc = .scan 0 := h.pc
    unfold advance
    rw [hpc]
    rfl
  have hpass : runActs Game.step (g1.advance 0) (List.replicate 7 .pass) =
      .ok { g1.advance 0 with pc := .scan 8 } := runActs_pass 7 (by decide) hpc
  have hadv : { g1.advance 0 with pc := .scan 8 } = { g1 with pc := .scan 8 } := by
    unfold advance
    split <;> rfl
  refine ⟨g₀, { g1 with pc := .scan 8 }, hg₀, ?_, h.used, rfl, rfl, ?_, h.cardNum, h.playerNum, ?_,
    h.whoseRound, h.turn, fun q ↦ ?_⟩
  · rw [caughtActs, runActs_append]
    rw [hg]
    change (g.step (.recv inOrder (.line catchLine)) >>= fun t ↦ runActs Game.step t _) = _
    rw [hstep]
    exact hpass.trans (congrArg Except.ok hadv)
  · change Function.update g.timeStamp 0 5 = _
    rw [show g.timeStamp = fun _ ↦ longMax from funext h.timeStamp]
  · intro i
    change g.handNum i = _
    rw [hnum]
  · refine (h.hand 2 q).trans ?_
    change 2 < 9 ∧ 87 ≤ q.val ∧ q.val ≤ 93 ↔ _
    simp

/-- The state after seat 8 was caught, has left and was given two cards. -/
structure Returned (g : Game) : Prop where
  used : g.used = nineSeats
  pc : g.pc = .scan 0
  haveUno : g.haveUno = none
  playerNum : g.playerNum = 8
  handNum : g.handNum = fun i : Seat ↦ if i = 8 then 1 else if i.val < 9 then 7 else -1
  whoseRound : g.whoseRound = 6
  turn : g.turn = 0
  other : ∀ q : CardId, q ∈ g.hand 2 ↔ 87 ≤ q.val ∧ q.val ≤ 93

/-- Seat 8 is caught, leaves, and comes back when the catch is settled. -/
theorem caught_returns :
    ∃ g₀ g g₁ g₂, gameStart plainName (inOrder.rand 0) 0 nineSeats 9 = .ok g₀ ∧
      runActs Game.step g₀ caughtActs = .ok g ∧
      g.handNum 8 = 1 ∧ g.step (.recv inOrder .eof) = .ok g₁ ∧ g₁.handNum 8 = -1 ∧
      runActs Game.step g₁ [.pass, .settle inOrder] = .ok g₂ ∧ Returned g₂ ∧
      ∃ es line, g₂.out = g₁.out ++ es ∧ .send 8 line ∈ es := by
  obtain ⟨g₀, g, hg₀, hg, h⟩ := caught_start
  have hnum : g.handNum = fun i : Seat ↦ if i = 8 then 1 else if i.val < 9 then 7 else -1 :=
    funext h.handNum
  let left := ((g.leaveSeat 8).emit [.setState 8 .empty]).sendToEveryoneInGame (some 8)
    (line1 ['7'] (plainName 8))
  have hrecv : recv inOrder 8 .eof g = .ok left := by
    have hconn : g.conn 8 = .ok 8 := by
      unfold conn
      rw [h.used]
      rfl
    unfold recv depart
    dsimp only
    rw [hconn]
    have hmany : ¬ left.playerNum < 2 := by
      change ¬ g.playerNum - 1 < 2
      rw [h.playerNum]
      decide
    have hturn : ¬ 8 = left.whoseRound := by
      change ¬ 8 = g.whoseRound
      rw [h.whoseRound]
      decide
    rw [ok_bind]
    exact (if_neg hmany).trans (if_neg hturn)
  have hstep : g.step (.recv inOrder .eof) = .ok (left.advance 8) :=
    step_recv h.pc (by rw [h.used]; rfl) (by rw [hnum]; decide) hrecv
  have hadv : left.advance 8 = { left with pc := .scan 9 } := by
    have hpc : left.pc = .scan 8 := h.pc
    unfold advance
    rw [hpc]
    rfl
  let waiting : Game := { left with pc := .settle }
  have hleft : waiting.handNum 8 = -1 := handNum_leaveSeat 8 g
  have hfast : waiting.fastest 8 = 0 := by
    have hn : waiting.handNum = Function.update g.handNum 8 (-1) := rfl
    have ht : waiting.timeStamp = Function.update (fun _ ↦ longMax) 0 5 := h.timeStamp
    have hf : waiting.fasterOf 8 = fun fastest i ↦
        if Function.update (fun i : Seat ↦ if i = 8 then (1 : Int) else if i.val < 9 then 7 else -1)
          8 (-1) i = -1 then fastest
        else if Function.update (fun _ ↦ longMax) 0 5 i <
          Function.update (fun _ ↦ longMax) 0 5 fastest then i
        else if Function.update (fun _ ↦ longMax) 0 5 i =
          Function.update (fun _ ↦ longMax) 0 5 fastest ∧ i = 8 then i
        else fastest := by
      funext fastest i
      unfold fasterOf
      rw [hn, ht, hnum]
    unfold fastest
    rw [hf]
    decide
  have hc : waiting.used 8 = some 8 := by
    change g.used 8 = _
    rw [h.used]
    rfl
  have hgive := giveTwo inOrder.rand hc (by change 2 ≤ g.cardNum; rw [h.cardNum]; omega)
    (by change g.cardNum < 108; rw [h.cardNum]; omega)
  let drawn := (waiting.takeTop 8 8).takeTop 8 8
  let told := drawn.sendToEveryoneInGame none
    (line2 ['1', '3'] (plainName 8) (plainName 0))
  have hsettle : settle inOrder waiting = .ok told.newRound := by
    have hu : waiting.haveUno = some 8 := h.haveUno
    have hconn (i : Seat) (hi : i.val < 9) : waiting.conn i = .ok (seatAsConn i) := by
      have : waiting.used i = some (seatAsConn i) := by
        change g.used i = _
        rw [h.used]
        exact if_pos hi
      unfold conn
      rw [this]
    unfold settle
    rw [hu]
    dsimp only
    unfold settleUno
    rw [hfast, hconn 8 (by decide), ok_bind, if_neg (by decide), hconn 0 (by decide), ok_bind]
    rw [show inOrder.rand = inOrder.rand from rfl, hgive]
    rfl
  refine ⟨g₀, g, left.advance 8, told.newRound, hg₀, hg, by rw [hnum]; rfl, hstep, ?_, ?_, ?_, ?_⟩
  · rw [hadv]
    exact hleft
  · rw [hadv]
    exact congrArg (fun x : Except Stop Game ↦ x >>= Except.ok) hsettle
  · refine ⟨h.used, rfl, rfl, ?_, ?_, h.whoseRound, h.turn, ?_⟩
    · change g.playerNum - 1 = 8
      rw [h.playerNum]
    · funext i
      change ((waiting.takeTop 8 8).takeTop 8 8).handNum i = _
      by_cases hi : i = 8
      · subst hi
        rw [handNum_takeTop, handNum_takeTop, hleft]
        rfl
      · rw [handNum_takeTop_of_ne hi, handNum_takeTop_of_ne hi]
        change (g.leaveSeat 8).handNum i = _
        rw [handNum_leaveSeat_of_ne hi, hnum]
    · intro q
      change q ∈ ((waiting.takeTop 8 8).takeTop 8 8).hand 2 ↔ _
      rw [hand_takeTop_of_ne (by decide), hand_takeTop_of_ne (by decide)]
      exact h.other q
  · let first : Effect := .send 8 (line1 ['1', '2'] (cards (waiting.cardSeq (waiting.cardNum - 1))))
    obtain ⟨rest, hrest⟩ : ∃ rest, told.newRound.out = (waiting.out ++ [first]) ++ rest :=
      ⟨_, List.append_assoc _ _ _⟩
    refine ⟨first :: rest, _, ?_, List.mem_cons_self⟩
    rw [hadv, hrest, List.append_assoc]
    rfl

/-- A seat that is caught and leaves in the same turn of the loop comes back with one card, and
its connection is sent the cards. -/
theorem departed_seat_returns :
    ∃ g₀ g g₁ g₂, gameStart plainName (inOrder.rand 0) 0 nineSeats 9 = .ok g₀ ∧
      runActs Game.step g₀ caughtActs = .ok g ∧
      g.handNum 8 = 1 ∧ g.step (.recv inOrder .eof) = .ok g₁ ∧ g₁.handNum 8 = -1 ∧
      runActs Game.step g₁ [.pass, .settle inOrder] = .ok g₂ ∧ g₂.handNum 8 = 1 ∧
      ∃ es line, g₂.out = g₁.out ++ es ∧ .send 8 line ∈ es := by
  obtain ⟨g₀, g, g₁, g₂, hg₀, hg, hone, hstep, hleft, hrun, hback, hout⟩ := caught_returns
  exact ⟨g₀, g, g₁, g₂, hg₀, hg, hone, hstep, hleft, hrun, by rw [hback.handNum]; rfl, hout⟩

end Unpv13e.Uno
