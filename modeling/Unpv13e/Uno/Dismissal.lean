import Mathlib
import Unpv13e.Uno.Departure

/-!
# Players that go back to the lobby

Library `Uno`. `GameStart` changes the state of a connection when its player leaves and when the
game is over. As long as nothing is settled against a seat that has left, it does so once for
every player. How many players `RoomProcess` says there are does not matter for it.
-/

namespace Unpv13e.Uno
open Unpv13e.Base Game

/-- The connection whose state an effect changes. -/
def Effect.changed : Effect → Option ConnId
  | .send _ _ => none
  | .setState c _ => some c

/-- The connections whose states are changed, in order. -/
def changes (es : List Effect) : List ConnId := es.filterMap Effect.changed

@[simp] theorem changes_nil : changes [] = [] := rfl

@[simp] theorem changes_append (es fs : List Effect) :
    changes (es ++ fs) = changes es ++ changes fs := List.filterMap_append

@[simp] theorem changes_setState (c : ConnId) (state : ConnState) (es : List Effect) :
    changes (.setState c state :: es) = c :: changes es := rfl

@[simp] theorem changes_send (c : ConnId) (line : Text) (es : List Effect) :
    changes (.send c line :: es) = changes es := rfl

/-- Lines to players change no state. -/
theorem changes_sends {α : Type} (ps : List α) (conn : α → ConnId) (line : α → Text) :
    changes (ps.map fun p ↦ .send (conn p) (line p)) = [] := by
  induction ps with
  | nil => rfl
  | cons p ps ih => exact ih

/-- The players are all sent to the lobby. -/
theorem changes_states (ps : List (Seat × ConnId)) :
    changes (ps.map fun p ↦ .setState p.2 .lobby) = ps.map Prod.snd := by
  induction ps with
  | nil => rfl
  | cons p ps ih => exact congrArg (p.2 :: ·) ih

/-- A change of state is among the changes. -/
theorem mem_changes {es : List Effect} {c : ConnId} :
    c ∈ changes es ↔ ∃ state, .setState c state ∈ es := by
  unfold changes
  rw [List.mem_filterMap]
  constructor
  · rintro ⟨e, he, hc⟩
    cases e with
    | send => cases hc
    | setState c' state =>
      cases hc
      exact ⟨state, he⟩
  · rintro ⟨state, he⟩
    exact ⟨_, he, rfl⟩

variable {conns : Seat → Option ConnId} {seats : Finset Seat} {p : Plan} {g g' : Game}

/-! ### Without the counter of the players -/

/-- The game with another counter of the players. -/
def Game.recount (n : Nat) (g : Game) : Game := { g with playerNum := n }

/-- `seats` are the seats still in the game, whatever the counter of the players says. -/
structure Attended (conns : Seat → Option ConnId) (seats : Finset Seat) (g : Game) : Prop where
  seated : Seated conns seats (g.recount seats.card)
  turn : g.pc ≠ .ended → seats.Nonempty → g.whoseRound ∈ seats

private theorem moveStep_recount {m : Move} (n : Nat) (hm : MoveStep g m g') (hok : Allowed p g m)
    (hl : p.leaver = none) : MoveStep (g.recount n) m (g'.recount n) := by
  cases m with
  | book =>
    exact ⟨hm.used, rfl, hm.hand, hm.handNum, hm.cardSeq, hm.cardNum, hm.tableCard, hm.cardId,
      hm.whoseRound, hm.winner, hm.out, hm.ended⟩
  | turn => cases hm; rfl
  | say es => cases hm; rfl
  | round name tableCard =>
    obtain ⟨c, hc, rfl⟩ := startRound_emits hm
    have hconn : (g.recount n).conn (g.recount n).whoseRound = .ok c := by
      unfold conn
      rw [show (g.recount n).used (g.recount n).whoseRound = some c from hc]
    change startRound name tableCard (g.recount n) = _
    unfold startRound
    rw [hconn]
    rfl
  | leave i state =>
    have hl' : p.leaver = some i := hok.2
    rw [hl] at hl'
    cases hl'
  | drop i q =>
    obtain ⟨hi, hq, rfl⟩ := hm
    exact ⟨hi, hq, rfl⟩
  | table =>
    obtain ⟨q, colour, hid, rfl⟩ := hm
    exact ⟨q, colour, hid, rfl⟩
  | top w =>
    obtain ⟨c, hc, hpos, rfl⟩ := hm
    exact ⟨c, hc, hpos, rfl⟩
  | refill =>
    obtain ⟨hzero, rand, adopted, rfl⟩ := hm
    exact ⟨hzero, rand, adopted, rfl⟩
  | finish es winner => cases hm; rfl

private theorem moves_recount (n : Nat) (hl : p.leaver = none) (hm : Moves p g g') :
    Moves p (g.recount n) (g'.recount n) := by
  induction hm with
  | refl => exact RunWith.refl
  | @tail r r' _ hstep ih =>
    obtain ⟨m, hok, hm⟩ := hstep
    have hok' : Allowed p (r.recount n) m := by
      cases m with
      | _ => exact hok
    exact RunWith.snoc ih hok' (moveStep_recount n hm hok hl)

private theorem handOutPlay_recount (n : Nat) (env : Env) (i : Seat) (l : Text) :
    (g.recount n).handOutPlay env i l = g.handOutPlay env i l := by
  have hput (cardName : Text) : (g.recount n).putDown env.residue cardName i =
      (g.putDown env.residue cardName i).recount n := by
    have hhand : (g.recount n).hand i = g.hand i := rfl
    unfold putDown
    rw [hhand]
    split <;> rfl
  unfold handOutPlay
  split
  · rfl
  · next cardName _ =>
    dsimp only
    rw [hput]
    rfl

private theorem handOutLine_recount (n : Nat) (env : Env) (i : Seat) (l : Text) :
    (g.recount n).handOutLine env i l = g.handOutLine env i l := by
  unfold handOutLine
  dsimp only
  rw [handOutPlay_recount]
  rfl

/-- The plan of a step concerns seats still in the game. -/
private theorem plan_attended {a : GameAct} (hs : GameStep g a g') (hok : SettlesPresent g a)
    (h : Attended conns seats g) : (g.plan a).Within seats := by
  cases a with
  | pass => exact ⟨nofun, nofun⟩
  | recv env event =>
    obtain ⟨i, r, hpc, hi, -, -, -⟩ := recv_step hs
    have hi' : i ∈ seats := (h.seated.handNum i).mp hi
    have hturn := h.turn (by rw [hpc]; exact nofun) ⟨i, hi'⟩
    rw [plan_recv hpc]
    refine ⟨?_, ?_⟩
    · intro w n hw
      unfold handOut at hw
      rw [hpc] at hw
      cases event with
      | eof => cases hw
      | line recvline =>
        have hw' : (g.recount seats.card).handOutLine env i recvline = some (w, n) := by
          rw [handOutLine_recount]
          exact hw
        exact handOutLine_seated (g := g.recount seats.card) hi' hturn h.seated hw'
    · rintro j hj
      cases hj
      exact hi'
  | settle env =>
    rw [plan_settle]
    refine ⟨?_, nofun⟩
    intro w n hw
    have hw' : g.handOut (.settle env) = some (w, n) := hw
    unfold handOut at hw'
    dsimp only at hw'
    split at hw'
    · next u hu =>
      split at hw'
      · cases hw'
      next hf =>
      cases hw'
      exact (h.seated.handNum w).mp (hok env w rfl hu hf)
    · cases hw'

private theorem whoseRound_of_moves (hm : Moves p g g') (hl : p.leaver = none)
    (hp : p.Within seats) (h : Seated conns seats (g.recount seats.card))
    (hturn : g.whoseRound ∈ seats) : g'.whoseRound ∈ seats := by
  have hafter := moves_turn (moves_recount seats.card hl hm) hl hp h hturn
  exact hafter

/-- A step without a departure leaves the seats in the game as they are. -/
theorem gameStep_attended {a : GameAct} (hs : GameStep g a g') (hok : SettlesPresent g a)
    (hl : (g.plan a).leaver = none) (h : Attended conns seats g) : Attended conns seats g' := by
  have hp := plan_attended hs hok h
  have hm := step_moves hs
  refine ⟨moves_seated (moves_recount seats.card hl hm) hl hp h.seated, fun _ hne ↦ ?_⟩
  exact whoseRound_of_moves hm hl hp h.seated (h.turn (going_of_gameStep hs) hne)

/-- A step in which seat `i` leaves takes it out of the game. -/
theorem gameStep_attended_leaving {a : GameAct} {i : Seat} (hs : GameStep g a g')
    (hl : (g.plan a).leaver = some i) (h : Attended conns seats g) :
    i ∈ seats ∧ Attended conns (seats.erase i) g' := by
  obtain ⟨env, state, r, hpc, hi, -, hr, rfl⟩ := leaver_step hs hl
  obtain ⟨c, hc, hm, hend⟩ := depart_moves g.cardNum hr
  have hover : g.pc ≠ .ended := by
    rw [hpc]
    exact nofun
  have hi' : i ∈ seats := (h.seated.handNum i).mp hi
  have hbooks : Books r (r.advance i) := books_advance i
  have hm' : Moves (.left g.cardNum) ((g.leaveSeat i).emit [.setState c state]) (r.advance i) :=
    RunWith.snoc (a := Move.book) hm True.intro hbooks
  have hleft : Seated conns (seats.erase i)
      (((g.leaveSeat i).emit [.setState c state]).recount (seats.erase i).card) := by
    rw [Finset.card_erase_of_mem hi']
    exact seated_leave (g := g.recount seats.card) hi' hover h.seated
  have hseated := moves_seated (moves_recount (seats.erase i).card rfl hm') rfl (left_within _) hleft
  refine ⟨hi', hseated, fun hnot hne ↦ ?_⟩
  rw [hbooks.whoseRound]
  rcases hend with hend | ⟨-, hend⟩
  · exact absurd (hbooks.ended.mpr hend) hnot
  rw [hend]
  split
  · next hi =>
    -- somebody else is left, so the search from the departed seat ends there
    obtain ⟨j, hj⟩ := hne
    refine (hleft.handNum _).mp (seated_switch_of_other g.turn ?_ ((hleft.handNum j).mpr hj))
    rw [← hi]
    exact Finset.ne_of_mem_erase hj
  · next hne' => exact Finset.mem_erase.mpr ⟨fun he ↦ hne' he.symm, h.turn hover ⟨i, hi'⟩⟩

/-! ### The changes of a step -/

/-- No state is changed and the loop does not move on. -/
structure Quiet (g g' : Game) : Prop where
  pc : g'.pc = g.pc
  changes : changes g'.out = changes g.out

private theorem Quiet.refl (g : Game) : Quiet g g := ⟨rfl, rfl⟩

private theorem Quiet.trans {r : Game} (h : Quiet g r) (h' : Quiet r g') : Quiet g g' :=
  ⟨h'.pc.trans h.pc, h'.changes.trans h.changes⟩

private theorem quiet_sends {α : Type} (ps : List α) (conn : α → ConnId) (line : α → Text) :
    Quiet g (g.emit (ps.map fun p ↦ .send (conn p) (line p))) := by
  refine ⟨rfl, ?_⟩
  change changes (g.out ++ _) = _
  rw [changes_append, changes_sends, List.append_nil]

private theorem quiet_everyone (who : Option Seat) (line : Text) :
    Quiet g (g.sendToEveryoneInGame who line) :=
  quiet_sends _ _ _

private theorem quiet_startRound {name : ConnId → Text} {tableCard : Text}
    (h : startRound name tableCard g = .ok g') : Quiet g g' := by
  obtain ⟨c, -, rfl⟩ := startRound_emits h
  exact quiet_sends _ _ _

private theorem quiet_giveFrom {rand : Nat → Nat → Nat} {w : Seat} (k n : Nat)
    (adopted : Finset CardId) (h : giveFrom rand w k n adopted g = .ok g') : Quiet g g' := by
  refine giveFrom_rule (I := fun _ r ↦ Quiet g r) (m := 0) ?_ ?_ h (Quiet.refl g)
  · intro _ rand adopted r _ hr
    have hsent := quiet_everyone (g := r) none ['2', '0', '\n']
    exact hr.trans ⟨hsent.pc, hsent.changes⟩
  · intro _ c r _ _ _ hr
    refine hr.trans ⟨rfl, ?_⟩
    change changes (r.out ++ [_]) = _
    rw [changes_append, changes_send, changes_nil, List.append_nil]

private theorem quiet_drawAndSkip {rand : Nat → Nat → Nat} {n : Nat}
    (h : drawAndSkip rand n g = .ok g') : Quiet g g' := by
  obtain ⟨r, hr, h⟩ := exists_of_bind_ok h
  cases h
  have hgive : Quiet g.nextTurn r := quiet_giveFrom 0 n ∅ hr
  exact ⟨hgive.pc, hgive.changes⟩

private theorem quiet_cardEffect {rand : Nat → Nat → Nat} (h : cardEffect rand g = .ok g') :
    Quiet g g' := by
  unfold cardEffect at h
  dsimp only at h
  split at h
  · cases h
    exact ⟨rfl, rfl⟩
  split at h
  · cases h
    split
    · exact ⟨rfl, rfl⟩
    · exact ⟨rfl, rfl⟩
  split at h
  · exact quiet_drawAndSkip h
  split at h
  · exact quiet_drawAndSkip h
  · cases h
    exact ⟨rfl, rfl⟩

/-- The game is over, and all players still in it go to the lobby. -/
def Over (g g' : Game) : Prop :=
  g'.pc = .ended ∧ changes g'.out = changes g.out ++ g'.active.map Prod.snd

private theorem over_winByPlay {name : ConnId → Text} {i : Seat}
    (h : winByPlay name i g = .ok g') : Over g g' := by
  obtain ⟨c, -, h⟩ := exists_of_bind_ok h
  split at h
  · cases h
  cases h
  refine ⟨rfl, ?_⟩
  have hsent := quiet_everyone (g := g) none (g.winLine name c)
  change changes ((g.sendToEveryoneInGame none (g.winLine name c)).out ++
    g.active.map fun p ↦ .setState p.2 .lobby) = _
  rw [changes_append, hsent.changes, changes_states]
  rfl

private theorem over_winByDeparture {name : ConnId → Text} (h : winByDeparture name g = .ok g') :
    Over g g' := by
  unfold winByDeparture at h
  split at h
  · cases h
  cases h
  refine ⟨rfl, ?_⟩
  change changes (g.out ++ g.active.flatMap fun p ↦
    [.send p.2 (g.winLine name p.2), .setState p.2 .lobby]) = _
  rw [changes_append]
  have hall (ps : List (Seat × ConnId)) : changes (ps.flatMap fun p ↦
      [.send p.2 (g.winLine name p.2), .setState p.2 .lobby]) = ps.map Prod.snd := by
    induction ps with
    | nil => rfl
    | cons p ps ih => exact congrArg (p.2 :: ·) ih
  rw [hall]
  rfl

private theorem quiet_putDown (residue cardName : Text) (i : Seat) :
    Quiet g (g.putDown residue cardName i) := by
  unfold putDown
  split
  · exact ⟨rfl, rfl⟩
  · exact Quiet.refl g

private theorem play_changes {env : Env} {i : Seat} {l : Text} (h : play env i l g = .ok g') :
    Quiet g g' ∨ Over g g' := by
  obtain ⟨cardName, -, h⟩ := exists_of_bind_ok h
  have hput := quiet_putDown (g := g) env.residue cardName i
  dsimp only at h
  generalize g.putDown env.residue cardName i = r at h hput
  cases hid : r.cardId with
  | none => rw [hid] at h; cases h
  | some q =>
    rw [hid] at h
    dsimp only at h
    split at h
    · right
      obtain ⟨hpc, hall⟩ := over_winByPlay h
      exact ⟨hpc, hall.trans (congrArg (· ++ _) hput.changes)⟩
    · left
      obtain ⟨r', hr', h⟩ := exists_of_bind_ok h
      have heffect : Quiet r r' := ⟨(quiet_cardEffect hr').pc, (quiet_cardEffect hr').changes⟩
      exact (hput.trans heffect).trans (quiet_startRound h)

private theorem quiet_stamp {i : Seat} {w : Except Stop Text} (h : stamp i w g = .ok g') :
    Quiet g g' := by
  unfold stamp at h
  split at h
  · obtain ⟨t, -, h⟩ := exists_of_bind_ok h
    cases h
    exact ⟨rfl, rfl⟩
  · cases h
    exact Quiet.refl g

private theorem quiet_setUno {u : Option Seat} {i : Seat} {w : Except Stop Text}
    (h : stamp i w (g.setUno u) = .ok g') : Quiet g g' :=
  ⟨(quiet_stamp h).pc, (quiet_stamp h).changes⟩

private theorem quiet_callUno {env : Env} {i : Seat} {l : Text} (h : callUno env i l g = .ok g') :
    Quiet g g' := by
  obtain ⟨valid, -, h⟩ := exists_of_bind_ok h
  split at h
  · obtain ⟨r, hr, h⟩ := exists_of_bind_ok h
    obtain ⟨c, -, h⟩ := exists_of_bind_ok h
    cases h
    exact (quiet_giveFrom 0 2 ∅ hr).trans (quiet_everyone none _)
  split at h
  · exact quiet_setUno h
  · cases h
    exact Quiet.refl g

private theorem quiet_catchUno {env : Env} {i : Seat} {l : Text} (h : catchUno env i l g = .ok g') :
    Quiet g g' := by
  obtain ⟨valid, -, h⟩ := exists_of_bind_ok h
  split at h
  · obtain ⟨r, hr, h⟩ := exists_of_bind_ok h
    obtain ⟨c, -, h⟩ := exists_of_bind_ok h
    obtain ⟨w, -, h⟩ := exists_of_bind_ok h
    cases h
    exact (quiet_giveFrom 0 2 ∅ hr).trans (quiet_everyone none _)
  · obtain ⟨named, -, h⟩ := exists_of_bind_ok h
    cases named with
    | none => cases h
    | some j =>
      dsimp only at h
      split at h
      · exact quiet_setUno h
      · cases h
        exact ⟨rfl, rfl⟩

/-- A line of a player who stays changes no state, unless it ends the game. -/
theorem recv_changes {env : Env} {i : Seat} {l : Text} (h8 : charAt l 0 ≠ '8')
    (h : recv env i (.line l) g = .ok g') : Quiet g g' ∨ Over g g' := by
  unfold recv at h
  dsimp only at h
  rw [if_neg h8] at h
  split at h
  · cases h
    exact .inl (quiet_everyone none l)
  split at h
  · exact play_changes h
  split at h
  · obtain ⟨r, hr, h⟩ := exists_of_bind_ok h
    have hgive : Quiet g r.nextTurn :=
      ⟨(quiet_giveFrom 0 1 ∅ hr).pc, (quiet_giveFrom 0 1 ∅ hr).changes⟩
    exact .inl (hgive.trans (quiet_startRound h))
  split at h
  · exact .inl (quiet_callUno h)
  split at h
  · exact .inl (quiet_catchUno h)
  · cases h
    exact .inl (Quiet.refl g)

/-- A departure changes the state of the player who leaves, and of all others if it ends the
game. -/
theorem depart_changes {env : Env} {state : ConnState} {i : Seat}
    (h : depart env state i g = .ok g') : ∃ c r, g.used i = some c ∧ r.pc = g.pc ∧
      changes r.out = changes g.out ++ [c] ∧ (Quiet r g' ∨ Over r g') := by
  obtain ⟨c, hc, h⟩ := exists_of_bind_ok h
  let left := (g.leaveSeat i).emit [.setState c state]
  have hsent : Quiet left (left.sendToEveryoneInGame (some i) (line1 ['7'] (env.name c))) :=
    quiet_everyone (some i) _
  have hleft : changes left.out = changes g.out ++ [c] := by
    change changes (g.out ++ [.setState c state]) = _
    rw [changes_append]
    rfl
  refine ⟨c, _, used_of_conn hc, hsent.pc, hsent.changes.trans hleft, ?_⟩
  dsimp only at h
  split at h
  · exact .inr (over_winByDeparture h)
  split at h
  · have hround := quiet_startRound h
    exact .inl ⟨hround.pc, hround.changes⟩
  · cases h
    exact .inl (Quiet.refl _)

/-- What a step adds to the changes: nothing when the game goes on, all players still in it when
it is over. -/
def Adds (es : List ConnId) (g' : Game) : Prop :=
  g'.pc ≠ .ended ∧ changes g'.out = es ∨
    g'.pc = .ended ∧ changes g'.out = es ++ g'.active.map Prod.snd

private theorem adds_advance {r : Game} {i : Seat} (hpc : r.pc = .scan i)
    (h : Quiet r g' ∨ Over r g') : Adds (changes r.out) (g'.advance i) := by
  rcases h with ⟨hsame, hch⟩ | ⟨hend, hch⟩
  · left
    unfold advance
    rw [hsame, hpc]
    refine ⟨?_, hch⟩
    dsimp only
    split
    · exact nofun
    · exact nofun
  · right
    unfold advance
    rw [hend]
    exact ⟨hend, hch⟩

private theorem quiet_settleUno {env : Env} {u : Seat} (h : settleUno env u g = .ok g') :
    Quiet g g' := by
  obtain ⟨c, -, h⟩ := exists_of_bind_ok h
  split at h
  · cases h
    have hmark : Quiet g (g.markUno u) := ⟨rfl, rfl⟩
    exact hmark.trans (quiet_everyone none _)
  · obtain ⟨c', -, h⟩ := exists_of_bind_ok h
    obtain ⟨r, hr, h⟩ := exists_of_bind_ok h
    cases h
    exact (quiet_giveFrom 0 2 ∅ hr).trans (quiet_everyone none _)

/-- A step without a departure. -/
theorem gameStep_adds {a : GameAct} (hs : GameStep g a g') (hl : (g.plan a).leaver = none) :
    Adds (changes g.out) g' := by
  cases a with
  | pass =>
    unfold GameStep step at hs
    dsimp only at hs
    split at hs
    · next i hpc =>
      cases hs
      exact adds_advance hpc (.inl (Quiet.refl g))
    · cases hs
  | recv env event =>
    obtain ⟨i, r, hpc, -, -, hr, rfl⟩ := recv_step hs
    rw [plan_recv hpc] at hl
    have hstay : ¬ Departure event := by
      intro hd
      dsimp only at hl
      rw [if_pos hd] at hl
      cases hl
    cases event with
    | eof => exact absurd True.intro hstay
    | line l => exact adds_advance hpc (recv_changes hstay hr)
  | settle env =>
    unfold GameStep step at hs
    dsimp only at hs
    split at hs
    · obtain ⟨r, hr, hs⟩ := exists_of_bind_ok hs
      cases hs
      left
      refine ⟨Pc.noConfusion, ?_⟩
      change changes r.out = _
      split at hr
      · cases hr
        rfl
      · exact (quiet_settleUno hr).changes
    · cases hs

/-- A step with a departure. -/
theorem gameStep_adds_leaving {a : GameAct} {i : Seat} (hs : GameStep g a g')
    (hl : (g.plan a).leaver = some i) :
    ∃ c, g.used i = some c ∧ Adds (changes g.out ++ [c]) g' := by
  obtain ⟨env, state, r, hpc, -, -, hr, rfl⟩ := leaver_step hs hl
  obtain ⟨c, q, hc, hq, hch, hrest⟩ := depart_changes hr
  refine ⟨c, hc, ?_⟩
  rw [← hch]
  exact adds_advance (hq.trans hpc) hrest

/-- What is written in a step is added to what was written before. -/
theorem moves_out (hm : Moves p g g') : ∃ es, g'.out = g.out ++ es := by
  refine RunWith.preserves (I := fun r ↦ ∃ es, r.out = g.out ++ es) ?_ hm ⟨[], by simp⟩
  rintro r m r' ⟨es, hes⟩ - hs
  have more (fs : List Effect) (hfs : r'.out = r.out ++ fs) : ∃ es, r'.out = g.out ++ es :=
    ⟨es ++ fs, by rw [hfs, hes, List.append_assoc]⟩
  cases m with
  | book => exact ⟨es, hs.out.trans hes⟩
  | turn => cases hs; exact ⟨es, hes⟩
  | say fs => cases hs; exact more fs rfl
  | round name tableCard =>
    obtain ⟨c, -, rfl⟩ := startRound_emits hs
    exact more _ rfl
  | leave i state =>
    obtain ⟨c, -, rfl⟩ := hs
    exact more [.setState c state] rfl
  | drop i q => obtain ⟨-, -, rfl⟩ := hs; exact ⟨es, hes⟩
  | table => obtain ⟨q, colour, -, rfl⟩ := hs; exact ⟨es, hes⟩
  | top w => obtain ⟨c, -, -, rfl⟩ := hs; exact more _ rfl
  | refill => obtain ⟨-, rand, adopted, rfl⟩ := hs; exact ⟨es, hes⟩
  | finish fs winner => cases hs; exact more fs rfl

/-! ### Once for every player -/

/-- The state of a connection has been changed, once, if its player has left or the game is
over. -/
structure Dismissed (conns : Seat → Option ConnId) (seats : Finset Seat) (g : Game) : Prop where
  attended : Attended conns seats g
  once : (changes g.out).Nodup
  mem : ∀ c, c ∈ changes g.out ↔ ∃ i, conns i = some c ∧ (i ∉ seats ∨ g.pc = .ended)

private theorem mem_players (h : Attended conns seats g) (c : ConnId) :
    c ∈ g.active.map Prod.snd ↔ ∃ i ∈ seats, conns i = some c := by
  have hused : g.used = conns := h.seated.used
  have hseats (i : Seat) : g.handNum i ≠ -1 ↔ i ∈ seats := h.seated.handNum i
  rw [List.mem_map]
  constructor
  · rintro ⟨⟨i, c'⟩, hmem, rfl⟩
    obtain ⟨hi, hc⟩ := (mem_active i c').mp hmem
    exact ⟨i, (hseats i).mp hi, hused ▸ hc⟩
  · rintro ⟨i, hi, hc⟩
    exact ⟨(i, c), (mem_active i c).mpr ⟨(hseats i).mpr hi, hused ▸ hc⟩, rfl⟩

private theorem players_nodup (hinj : ∀ i j c, conns i = some c → conns j = some c → i = j)
    (h : Attended conns seats g) : (g.active.map Prod.snd).Nodup := by
  have hused : g.used = conns := h.seated.used
  apply List.Nodup.map_on _ active_nodup
  rintro ⟨i, c⟩ hi ⟨j, c'⟩ hj rfl
  have hi' := ((mem_active i c).mp hi).2
  have hj' := ((mem_active j c).mp hj).2
  rw [hused] at hi' hj'
  rw [hinj i j c hi' hj']

private theorem dismissed_of_adds {es : List ConnId}
    (hinj : ∀ i j c, conns i = some c → conns j = some c → i = j) (h : Attended conns seats g)
    (hnodup : es.Nodup) (hmem : ∀ c, c ∈ es ↔ ∃ i, conns i = some c ∧ i ∉ seats)
    (hadds : Adds es g) : Dismissed conns seats g := by
  rcases hadds with ⟨hgo, hch⟩ | ⟨hend, hch⟩
  · refine ⟨h, hch ▸ hnodup, fun c ↦ ?_⟩
    rw [hch, hmem c]
    simp [hgo]
  · refine ⟨h, ?_, fun c ↦ ?_⟩
    · rw [hch]
      apply hnodup.append (players_nodup hinj h)
      intro c hes hact
      obtain ⟨i, hc, hi⟩ := (hmem c).mp hes
      obtain ⟨j, hj, hc'⟩ := (mem_players h c).mp hact
      cases hinj i j c hc hc'
      exact hi hj
    · rw [hch, List.mem_append, hmem c, mem_players h c]
      constructor
      · rintro (⟨i, hc, hi⟩ | ⟨i, -, hc⟩)
        · exact ⟨i, hc, .inl hi⟩
        · exact ⟨i, hc, .inr hend⟩
      · rintro ⟨i, hc, -⟩
        by_cases hi : i ∈ seats
        · exact .inr ⟨i, hi, hc⟩
        · exact .inl ⟨i, hc, hi⟩

/-- A step of the loop dismisses nobody twice. -/
theorem gameStep_dismissed {a : GameAct}
    (hinj : ∀ i j c, conns i = some c → conns j = some c → i = j) (hs : GameStep g a g')
    (hok : SettlesPresent g a) (h : Dismissed conns seats g) :
    ∃ seats', Dismissed conns seats' g' := by
  have hgo := going_of_gameStep hs
  have hmem (c : ConnId) : c ∈ changes g.out ↔ ∃ i, conns i = some c ∧ i ∉ seats := by
    rw [h.mem c]
    simp [hgo]
  cases hl : (g.plan a).leaver with
  | none =>
    exact ⟨seats, dismissed_of_adds hinj (gameStep_attended hs hok hl h.attended) h.once hmem
      (gameStep_adds hs hl)⟩
  | some i =>
    obtain ⟨hi, hatt⟩ := gameStep_attended_leaving hs hl h.attended
    obtain ⟨c, hc, hadds⟩ := gameStep_adds_leaving hs hl
    have hused : g.used = conns := h.attended.seated.used
    rw [hused] at hc
    refine ⟨_, dismissed_of_adds hinj hatt ?_ ?_ hadds⟩
    · apply h.once.append (List.nodup_singleton c)
      intro c' hes hone
      cases List.mem_singleton.mp hone
      obtain ⟨j, hj, hout⟩ := (hmem c).mp hes
      cases hinj i j c hc hj
      exact hout hi
    · intro c'
      rw [List.mem_append, hmem c', List.mem_singleton]
      constructor
      · rintro (⟨j, hj, hout⟩ | rfl)
        · exact ⟨j, hj, fun hin ↦ hout (Finset.mem_of_mem_erase hin)⟩
        · exact ⟨i, hc, Finset.notMem_erase i seats⟩
      · rintro ⟨j, hj, hout⟩
        by_cases hij : j = i
        · subst hij
          exact .inr (Option.some.inj (hj.symm.trans hc))
        · exact .inl ⟨j, hj, fun hin ↦ hout (Finset.mem_erase.mpr ⟨hij, hin⟩)⟩

/-- `GameStart` enters its loop with nobody dismissed. -/
theorem gameStart_dismissed {name : ConnId → Text} {rand : Nat → Nat} {draw playerNum : Nat}
    (hstart : gameStart name rand draw conns playerNum = .ok g) :
    Dismissed conns (Finset.univ.filter fun i ↦ (conns i).isSome) g := by
  have hopen := gameStart_opened hstart
  obtain ⟨p, -, hstart⟩ := exists_of_bind_ok hstart
  obtain ⟨first, -, hstart⟩ := exists_of_bind_ok hstart
  have hframe := dealSeat_frame (List.finRange 10) (freshTable rand conns playerNum)
  generalize (List.finRange 10).foldl dealSeat (freshTable rand conns playerNum) = r at hframe hstart
  obtain ⟨c, hc, rfl⟩ := startRound_emits hstart
  have hused : r.used = conns := hopen.seats
  have hnone : changes r.out = [] := by
    rw [hframe]
    rfl
  -- only lines are written before the loop
  have hall : changes (((openTable p.1 p.2 first r).announce name).emit
      (((openTable p.1 p.2 first r).announce name).active.map fun q ↦ .send q.2
        (((openTable p.1 p.2 first r).announce name).roundLine (cards p.1) (name c) q.1))).out =
      [] := by
    rw [(quiet_sends _ _ _).changes]
    unfold announce
    dsimp only
    rw [(quiet_sends _ _ _).changes]
    exact hnone
  refine ⟨⟨⟨hused, ?_, ?_, rfl, ?_⟩, ?_⟩, ?_, ?_⟩
  · intro i
    have hnum := hopen.handNum i
    rw [Finset.mem_filter, and_iff_right (Finset.mem_univ i)]
    change r.handNum i = _ at hnum
    change r.handNum i ≠ -1 ↔ _
    rw [hnum]
    by_cases hi : (conns i).isSome <;> simp [hi]
  · intro i hi
    have hi' := (Finset.mem_filter.mp hi).2
    have hnum := hopen.handNum i
    have hcard := hopen.card i
    change (r.hand i).card = _ at hcard
    change r.handNum i = _ at hnum
    change ((r.hand i).card : Int) ≤ r.handNum i
    rw [hnum, hcard, if_pos hi', if_pos hi']
    rfl
  · intro w hw
    have : r.winner = some w := hw
    rw [hframe] at this
    cases this
  · intro _ _
    change r.used first = some c at hc
    change first ∈ _
    rw [hused] at hc
    exact Finset.mem_filter.mpr ⟨Finset.mem_univ first, by rw [hc]; rfl⟩
  · rw [hall]
    exact List.nodup_nil
  · intro c'
    rw [hall]
    have hpc : r.pc = .scan 0 := hopen.pc
    refine iff_of_false List.not_mem_nil ?_
    rintro ⟨i, hi, hout | hend⟩
    · exact hout (Finset.mem_filter.mpr ⟨Finset.mem_univ i, by rw [hi]; rfl⟩)
    · change r.pc = .ended at hend
      rw [hpc] at hend
      cases hend

private theorem room_of_moves {c : ConnId} (hm : Moves p g g') (hl : p.leaver = none)
    (h : Effect.setState c .room ∈ g'.out) : Effect.setState c .room ∈ g.out := by
  refine RunWith.preserves
    (I := fun r ↦ Effect.setState c .room ∈ r.out → Effect.setState c .room ∈ g.out) ?_ hm id h
  intro r m r' ih hok hs hmem
  have more (fs : List Effect) (hno : Effect.setState c .room ∉ fs) (hout : r'.out = r.out ++ fs) :
      Effect.setState c .room ∈ g.out := by
    rw [hout] at hmem
    rcases List.mem_append.mp hmem with hmem | hmem
    · exact ih hmem
    · exact absurd hmem hno
  cases m with
  | book => exact ih (hs.out ▸ hmem)
  | turn => cases hs; exact ih hmem
  | say fs =>
    cases hs
    exact more fs (fun he ↦ hok _ he) rfl
  | round name tableCard =>
    obtain ⟨c', -, rfl⟩ := startRound_emits hs
    refine more _ ?_ rfl
    intro he
    obtain ⟨q, -, he⟩ := List.mem_map.mp he
    cases he
  | leave i state => exact absurd (hl.symm.trans hok.2) nofun
  | drop i q => obtain ⟨-, -, rfl⟩ := hs; exact ih hmem
  | table => obtain ⟨q, colour, -, rfl⟩ := hs; exact ih hmem
  | top w =>
    obtain ⟨c', -, -, rfl⟩ := hs
    exact more [.send c' _] (by simp) rfl
  | refill => obtain ⟨-, rand, adopted, rfl⟩ := hs; exact ih hmem
  | finish fs winner =>
    cases hs
    exact more fs (fun he ↦ by cases (hok.1 _ he).2) rfl

/-- A step of a game brings nobody into a room. -/
theorem gameStep_room {a : GameAct} {c : ConnId} (hs : GameStep g a g')
    (h : Effect.setState c .room ∈ g'.out) : Effect.setState c .room ∈ g.out := by
  cases hl : (g.plan a).leaver with
  | none => exact room_of_moves (step_moves hs) hl h
  | some i =>
    obtain ⟨env, state, r, -, -, hstate, hr, rfl⟩ := leaver_step hs hl
    obtain ⟨c', -, hm, -⟩ := depart_moves 0 hr
    rw [(books_advance i).out] at h
    rcases List.mem_append.mp (room_of_moves hm rfl h) with hmem | hmem
    · exact hmem
    · cases List.mem_singleton.mp hmem
      exact absurd rfl hstate

/-- Every effect a step adds comes after those before. -/
theorem gameStep_out {a : GameAct} (hs : GameStep g a g') :
    ∃ es, g'.out = g.out ++ es := moves_out (step_moves hs)

end Unpv13e.Uno
