import Unpv13e.Client.KeepsUp

/-!
# When round lines are written

Library `Client`. `GameStart` writes round lines for a move, whoever made it, and for the departure of the player
in turn (`src/tcpcliserv/final_server.c:441–551`). They tell the turn as it is afterwards. All other lines of a
running game tell something else.
-/

namespace Unpv13e.Client
open Unpv13e.Base Unpv13e.Uno Game

/-- The colour of the table card can be sent. -/
def ShowsColour (g : Game) : Prop := g.colour ≠ ' ' ∧ g.colour ≠ '\n'

/-- Lines have been written between `g` and `g'`, but neither a round line nor a result. -/
structure Silent (g g' : Game) : Prop where
  used : g'.used = g.used
  colour : ShowsColour g → ShowsColour g'
  lines : ∃ es, g'.out = g.out ++ es ∧ ∀ c l, Effect.send c l ∈ es → Uno.IsNews l

variable {name : ConnId → Text} {g g' r : Game} {i w : Seat} {c d : ConnId} {env : Env}

theorem Silent.trans (h : Silent g r) (h' : Silent r g') : Silent g g' := by
  obtain ⟨es, hes, hnews⟩ := h.lines
  obtain ⟨fs, hfs, hnews'⟩ := h'.lines
  refine ⟨h'.used.trans h.used, fun hc ↦ h'.colour (h.colour hc), es ++ fs, ?_, fun c l hl ↦ ?_⟩
  · rw [hfs, hes, List.append_assoc]
  · rcases List.mem_append.mp hl with hl | hl
    · exact hnews c l hl
    · exact hnews' c l hl

/-- Nothing has been written. -/
theorem silent_same (hu : g'.used = g.used) (hc : g'.colour = g.colour) (hout : g'.out = g.out) : Silent g g' := by
  refine ⟨hu, fun h ↦ ?_, [], by rw [hout, List.append_nil], fun _ _ hl ↦ absurd hl List.not_mem_nil⟩
  unfold ShowsColour
  rw [hc]
  exact h

private theorem silent_line (who : Option Seat) (line : Text) (h : Uno.IsNews line) :
    Silent g (g.sendToEveryoneInGame who line) := by
  refine ⟨rfl, id, _, rfl, fun c l hl ↦ ?_⟩
  obtain ⟨p, -, hp⟩ := List.mem_map.mp hl
  cases hp
  exact h

private theorem silent_takeTop : Silent g (g.takeTop w c) := by
  refine ⟨rfl, id, _, rfl, fun d l hl ↦ ?_⟩
  cases List.mem_singleton.mp hl
  exact isNews_of_op '1' '2' rfl

/-- Giving cards does not pass the turn on. -/
theorem silent_giveFrom {rand : Nat → Nat → Nat} {k n : Nat} {adopted : Finset CardId}
    (h : giveFrom rand w k n adopted g = .ok g') : Silent g g' ∧ g'.whoseRound = g.whoseRound := by
  refine giveFrom_rule (I := fun _ r ↦ Silent g r ∧ r.whoseRound = g.whoseRound) (m := 0) ?_ ?_ h
    ⟨silent_same rfl rfl rfl, rfl⟩
  · rintro _ rand adopted r _ ⟨hr, hw⟩
    have hline : Silent r (r.sendToEveryoneInGame none ['2', '0', '\n']) := 
      silent_line none _ (isNews_of_op '2' '0' rfl)
    exact ⟨hr.trans (hline.trans (silent_same rfl rfl rfl)), hw⟩
  · rintro _ c r _ _ _ ⟨hr, hw⟩
    exact ⟨hr.trans silent_takeTop, hw⟩

private theorem silent_cardEffect {rand : Nat → Nat → Nat} (h : cardEffect rand g = .ok g') : Silent g g' := by
  have hdrawn {n : Nat} (h : drawAndSkip rand n g = .ok g') : Silent g g' := by
    obtain ⟨r, hr, h⟩ := exists_of_bind_ok h
    cases h
    have hfirst : Silent g g.nextTurn := silent_same rfl rfl rfl
    exact (hfirst.trans (silent_giveFrom hr).1).trans (silent_same rfl rfl rfl)
  unfold cardEffect at h
  dsimp only at h
  split at h
  · cases h
    exact silent_same rfl rfl rfl
  split at h
  · cases h
    split
    · exact silent_same rfl rfl rfl
    · exact silent_same rfl rfl rfl
  split at h
  · exact hdrawn h
  split at h
  · exact hdrawn h
  · cases h
    exact silent_same rfl rfl rfl

/-! ### What a line or the end of a connection makes of the turn -/

/-- Why round lines are written when `event` is read from seat `i`. -/
def Passes (g : Game) (i : Seat) (event : Event) : Prop :=
  (∃ l, event = .line l ∧ IsMove l ∧ ¬ Departure event) ∨ (Departure event ∧ i = g.whoseRound)

/-- What has become of the turn: the game is over, it is where it was, or round lines tell everybody where it is. -/
inductive TurnAfter (env : Env) (passes : Prop) (g g' : Game) : Prop
  | over (h : g'.pc = .ended)
  | still (h : Silent g g') (hw : g'.whoseRound = g.whoseRound)
  | told (r : Game) (tableCard : Text) (hr : Silent g r) (hcard : ShowsColour g → IsField tableCard)
      (h : startRound env.name tableCard r = .ok g') (hp : passes)

private theorem putDown_same (residue cardName : Text) :
    (g.putDown residue cardName i).used = g.used ∧ (g.putDown residue cardName i).out = g.out := by
  unfold putDown
  split
  · exact ⟨rfl, rfl⟩
  · exact ⟨rfl, rfl⟩

private theorem turnAfter_play {P : Prop} {l : Text} (hp : P) (h : play env i (chop l) g = .ok g') :
    TurnAfter env P g g' := by
  obtain ⟨cardName, harg, h⟩ := exists_of_bind_ok h
  have hfield : IsField cardName := isField_of_mem_tokens (mem_of_arg1 harg)
  obtain ⟨hused, hout⟩ := @putDown_same g i env.residue cardName
  dsimp only at h
  generalize g.putDown env.residue cardName i = r at h hused hout
  split at h
  · cases h
  next q _ =>
  split at h
  · obtain ⟨c, -, h⟩ := exists_of_bind_ok h
    split at h
    · cases h
    · cases h
      exact .over rfl
  obtain ⟨t, heffect, hround⟩ := exists_of_bind_ok h
  have hshown : Silent g (r.showCard q (charAt cardName 1)) := by
    refine ⟨hused, fun _ ↦ ⟨charAt_mem hfield.1.2 (by decide), charAt_mem hfield.2 (by decide)⟩, [], ?_,
      fun _ _ hl ↦ absurd hl List.not_mem_nil⟩
    rw [List.append_nil]
    exact hout
  exact .told t cardName (hshown.trans (silent_cardEffect heffect)) (fun _ ↦ hfield) hround hp

private theorem turnAfter_skip {P : Prop} (hp : P) (h : skip env g = .ok g') : TurnAfter env P g g' := by
  obtain ⟨r, hgive, hround⟩ := exists_of_bind_ok h
  have hsilent := (silent_giveFrom hgive).1
  have hnext : Silent r r.nextTurn := silent_same rfl rfl rfl
  exact .told _ _ (hsilent.trans hnext) (fun hc ↦ (isField_recolour _ (hsilent.colour hc)).1) hround hp

private theorem turnAfter_depart {event : Event} {state : ConnState} (hdep : Departure event)
    (h : depart env state i g = .ok g') : TurnAfter env (Passes g i event) g g' := by
  obtain ⟨d, -, h⟩ := exists_of_bind_ok h
  have hleft : Silent g ((g.leaveSeat i).emit [.setState d state]) := by
    refine ⟨rfl, id, _, rfl, fun c l hl ↦ ?_⟩
    cases List.mem_singleton.mp hl
  have hline := hleft.trans (silent_line (some i) (line1 ['7'] (env.name d)) (isNews_of_op '7' ' ' rfl))
  dsimp only at h
  generalize hr : ((g.leaveSeat i).emit [.setState d state]).sendToEveryoneInGame
      (some i) (line1 ['7'] (env.name d)) = r at h hline
  have hwho : r.whoseRound = g.whoseRound := by
    rw [← hr]
    rfl
  split at h
  · unfold winByDeparture at h
    split at h
    · cases h
    · cases h
      exact .over rfl
  split at h
  · next hturn =>
    have hnext : Silent r r.nextTurn := silent_same rfl rfl rfl
    exact .told _ _ (hline.trans hnext) (fun hc ↦ (isField_recolour _ (hline.colour hc)).1) h
      (.inr ⟨hdep, hturn.trans hwho⟩)
  · cases h
    exact .still hline hwho

private theorem turnAfter_stamp {P : Prop} {time : Except Stop Text} (h : stamp i time r = .ok g')
    (hr : Silent g r) (hw : r.whoseRound = g.whoseRound) : TurnAfter env P g g' := by
  unfold stamp at h
  split at h
  · obtain ⟨w, -, h⟩ := exists_of_bind_ok h
    cases h
    exact .still (hr.trans (silent_same rfl rfl rfl)) hw
  · cases h
    exact .still hr hw

private theorem turnAfter_callUno {P : Prop} {l : Text} (h : callUno env i l g = .ok g') : TurnAfter env P g g' := by
  obtain ⟨valid, -, h⟩ := exists_of_bind_ok h
  split at h
  · obtain ⟨r, hgive, h⟩ := exists_of_bind_ok h
    obtain ⟨d, -, h⟩ := exists_of_bind_ok h
    cases h
    obtain ⟨hr, hw⟩ := silent_giveFrom hgive
    exact .still (hr.trans (silent_line none _ (isNews_of_op '1' '1' rfl))) hw
  split at h
  · exact turnAfter_stamp h (silent_same rfl rfl rfl) rfl
  · cases h
    exact .still (silent_same rfl rfl rfl) rfl

private theorem turnAfter_catchUno {P : Prop} {l : Text} (h : catchUno env i l g = .ok g') :
    TurnAfter env P g g' := by
  obtain ⟨valid, -, h⟩ := exists_of_bind_ok h
  split at h
  · obtain ⟨r, hgive, h⟩ := exists_of_bind_ok h
    obtain ⟨d, -, h⟩ := exists_of_bind_ok h
    obtain ⟨w, -, h⟩ := exists_of_bind_ok h
    cases h
    obtain ⟨hr, hw⟩ := silent_giveFrom hgive
    exact .still (hr.trans (silent_line none _ (isNews_of_op '1' '9' rfl))) hw
  obtain ⟨named, -, h⟩ := exists_of_bind_ok h
  split at h
  · cases h
  split at h
  · exact turnAfter_stamp h (silent_same rfl rfl rfl) rfl
  · cases h
    exact .still (silent_same rfl rfl rfl) rfl

/-- Reading from seat `i`. -/
theorem turnAfter_recv {event : Event} (h : recv env i event g = .ok g') :
    TurnAfter env (Passes g i event) g g' := by
  cases event with
  | eof => exact turnAfter_depart True.intro h
  | line l =>
    unfold recv at h
    dsimp only at h
    by_cases h8 : charAt l 0 = '8'
    · rw [if_pos h8] at h
      exact turnAfter_depart h8 h
    rw [if_neg h8] at h
    by_cases h21 : charAt l 0 = '2' ∧ charAt l 1 = '1'
    · rw [if_pos h21] at h
      cases h
      exact .still (silent_line none _ (isNews_of_op '2' '1' (Prod.ext h21.1 h21.2))) rfl
    rw [if_neg h21] at h
    split at h
    · next h9 => exact turnAfter_play (.inl ⟨l, rfl, .inl h9, h8⟩) h
    split at h
    · next h10 => exact turnAfter_skip (.inl ⟨l, rfl, .inr h10, h8⟩) h
    split at h
    · exact turnAfter_callUno h
    split at h
    · exact turnAfter_catchUno h
    · cases h
      exact .still (silent_same rfl rfl rfl) rfl

/-- The settlement leaves the turn where it is. -/
theorem turn_settle (h : settle env g = .ok g') : Silent g g' ∧ g'.whoseRound = g.whoseRound := by
  obtain ⟨r, hr, h⟩ := exists_of_bind_ok h
  cases h
  have hlast : Silent r r.newRound := silent_same rfl rfl rfl
  split at hr
  · cases hr
    exact ⟨hlast, rfl⟩
  next u _ =>
  obtain ⟨c, -, hr⟩ := exists_of_bind_ok hr
  split at hr
  · cases hr
    have hmark : Silent g (g.markUno u) := silent_same rfl rfl rfl
    exact ⟨(hmark.trans (silent_line none _ (isNews_of_op '1' '4' rfl))).trans hlast, rfl⟩
  · obtain ⟨-, -, hr⟩ := exists_of_bind_ok hr
    obtain ⟨t, hgive, hr⟩ := exists_of_bind_ok hr
    cases hr
    obtain ⟨ht, hw⟩ := silent_giveFrom hgive
    exact ⟨(ht.trans (silent_line none _ (isNews_of_op '1' '3' rfl))).trans hlast, hw⟩

theorem silent_advance : Silent g (g.advance i) ∧ (g.advance i).whoseRound = g.whoseRound := by
  have hbooks := books_advance (g := g) i
  refine ⟨silent_same hbooks.used ?_ hbooks.out, hbooks.whoseRound⟩
  unfold advance
  split
  · rfl
  · rfl

end Unpv13e.Client
