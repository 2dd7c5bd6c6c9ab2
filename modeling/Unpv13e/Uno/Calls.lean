import Unpv13e.Uno.Departure

/-!
# Standing UNO calls

Library `Uno`. `is_uno[i]` is set when a call is settled at the end of a turn of the loop
(`src/tcpcliserv/final_server.c:621–654`) and cleared when a card is drawn (`:275`). The call itself is
made earlier in the turn, so cards may have been drawn in between.
-/

namespace Unpv13e.Uno
open Unpv13e.Base Game

variable {g g' r : Game}

/-- A flag that is up was up before, and the counter of that seat is the same. -/
def Lowers (g g' : Game) : Prop :=
  ∀ i, g'.isUno i = true → g.isUno i = true ∧ g'.handNum i = g.handNum i

private theorem lowers_same (hu : g'.isUno = g.isUno) (hn : g'.handNum = g.handNum) :
    Lowers g g' := by
  intro i hi
  rw [hu] at hi
  exact ⟨hi, congrFun hn i⟩

private theorem Lowers.trans (h : Lowers g r) (h' : Lowers r g') : Lowers g g' := by
  intro i hi
  obtain ⟨hr, hn'⟩ := h' i hi
  obtain ⟨hg, hn⟩ := h i hr
  exact ⟨hg, hn'.trans hn⟩

/-- A seat that draws loses its flag. -/
private theorem lowers_takeTop (w : Seat) (c : ConnId) : Lowers g (g.takeTop w c) := by
  intro i hi
  have hne : i ≠ w := by
    rintro rfl
    have hself : (g.takeTop i c).isUno i = false := Function.update_self _ _ _
    rw [hself] at hi
    cases hi
  have hsame : (g.takeTop w c).isUno i = g.isUno i := Function.update_of_ne hne _ _
  exact ⟨hsame ▸ hi, handNum_takeTop_of_ne hne c g⟩

private theorem lowers_give {rand : Nat → Nat → Nat} {w : Seat} (k n : Nat)
    (adopted : Finset CardId) (h : giveFrom rand w k n adopted g = .ok g') : Lowers g g' := by
  refine giveFrom_rule (I := fun _ r ↦ Lowers g r) (m := 0) ?_ ?_ h (lowers_same rfl rfl)
  · intro _ rand adopted r _ hr
    exact hr.trans (lowers_same rfl rfl)
  · intro _ c r _ _ _ hr
    exact hr.trans (lowers_takeTop w c)

private theorem lowers_startRound {name : ConnId → Text} {tableCard : Text}
    (h : startRound name tableCard g = .ok g') : Lowers g g' := by
  obtain ⟨c, -, rfl⟩ := startRound_emits h
  exact lowers_same rfl rfl

private theorem lowers_cardEffect {rand : Nat → Nat → Nat} (h : cardEffect rand g = .ok g') :
    Lowers g g' := by
  have drawn {n : Nat} (h : drawAndSkip rand n g = .ok g') : Lowers g g' := by
    obtain ⟨r, hr, h⟩ := exists_of_bind_ok h
    cases h
    exact (show Lowers g g.nextTurn from lowers_same rfl rfl).trans
      ((lowers_give 0 n ∅ hr).trans (lowers_same rfl rfl))
  unfold cardEffect at h
  dsimp only at h
  split at h
  · cases h
    exact lowers_same rfl rfl
  split at h
  · cases h
    split
    · exact lowers_same rfl rfl
    · exact lowers_same rfl rfl
  split at h
  · exact drawn h
  split at h
  · exact drawn h
  · cases h
    exact lowers_same rfl rfl

private theorem lowers_skip {env : Env} (h : skip env g = .ok g') : Lowers g g' := by
  obtain ⟨r, hr, h⟩ := exists_of_bind_ok h
  have hturn : Lowers r r.nextTurn := lowers_same rfl rfl
  exact ((lowers_give 0 1 ∅ hr).trans hturn).trans (lowers_startRound h)

private theorem lowers_stamp {i : Seat} {w : Except Stop Text} (h : stamp i w g = .ok g') :
    Lowers g g' := by
  unfold stamp at h
  split at h
  · obtain ⟨t, -, h⟩ := exists_of_bind_ok h
    cases h
    exact lowers_same rfl rfl
  · cases h
    exact lowers_same rfl rfl

private theorem lowers_callUno {env : Env} {i : Seat} {l : Text} (h : callUno env i l g = .ok g') :
    Lowers g g' := by
  obtain ⟨valid, -, h⟩ := exists_of_bind_ok h
  split at h
  · obtain ⟨r, hr, h⟩ := exists_of_bind_ok h
    obtain ⟨c, -, h⟩ := exists_of_bind_ok h
    cases h
    exact (lowers_give 0 2 ∅ hr).trans (lowers_same rfl rfl)
  split at h
  · exact (lowers_same rfl rfl : Lowers g (g.setUno (some i))).trans (lowers_stamp h)
  · cases h
    exact lowers_same rfl rfl

private theorem lowers_catchUno {env : Env} {i : Seat} {l : Text} (h : catchUno env i l g = .ok g') :
    Lowers g g' := by
  obtain ⟨valid, -, h⟩ := exists_of_bind_ok h
  split at h
  · obtain ⟨r, hr, h⟩ := exists_of_bind_ok h
    obtain ⟨c, -, h⟩ := exists_of_bind_ok h
    obtain ⟨w, -, h⟩ := exists_of_bind_ok h
    cases h
    exact (lowers_give 0 2 ∅ hr).trans (lowers_same rfl rfl)
  · obtain ⟨named, -, h⟩ := exists_of_bind_ok h
    cases named with
    | none => cases h
    | some j =>
      dsimp only at h
      split at h
      · exact (lowers_same rfl rfl : Lowers g (g.setUno (some j))).trans (lowers_stamp h)
      · cases h
        exact lowers_same rfl rfl

/-! ### What a step does to the flags -/

/-- A flag that is up belongs to a seat with one card, or to one that has left. -/
def Standing (g : Game) : Prop := ∀ i, g.handNum i ≠ -1 → g.isUno i = true → g.handNum i = 1

private theorem Standing.lowers (hs : Standing g) (h : Lowers g g') : Standing g' := by
  intro i hi hflag
  obtain ⟨hflag', hnum⟩ := h i hflag
  rw [hnum] at hi ⊢
  exact hs i hi hflag'

/-- A seat that leaves keeps its flag, which says nothing any more. -/
private theorem standing_leaveSeat {i : Seat} (hs : Standing g) : Standing (g.leaveSeat i) := by
  intro j hj hflag
  by_cases hji : j = i
  · subst hji
    exact absurd (handNum_leaveSeat j g) hj
  · rw [handNum_leaveSeat_of_ne hji] at hj ⊢
    exact hs j hj hflag

private theorem depart_flags {env : Env} {state : ConnState} {i : Seat}
    (h : depart env state i g = .ok g') : Lowers (g.leaveSeat i) g' := by
  obtain ⟨c, -, h⟩ := exists_of_bind_ok h
  dsimp only at h
  split at h
  · unfold winByDeparture at h
    split at h
    · cases h
    cases h
    exact lowers_same rfl rfl
  split at h
  · let sent := ((g.leaveSeat i).emit [.setState c state]).sendToEveryoneInGame (some i)
      (line1 ['7'] (env.name c))
    have hturn : Lowers (g.leaveSeat i) sent.nextTurn := lowers_same rfl rfl
    exact hturn.trans (lowers_startRound h)
  · cases h
    exact lowers_same rfl rfl

/-- A play raises no flag, and the seat that plays has no card left only when the game ends. -/
private theorem play_flags {env : Env} {i : Seat} {l : Text} (h : play env i l g = .ok g') :
    (∀ j, g'.isUno j = true → g.isUno j = true) ∧
      (g'.pc = .ended ∨ (Standing g → Standing g')) := by
  obtain ⟨cardName, -, h⟩ := exists_of_bind_ok h
  dsimp only at h
  have hput : (g.putDown env.residue cardName i).isUno = g.isUno ∧
      ∀ j, (g.putDown env.residue cardName i).handNum j = g.handNum j ∨
        j = i ∧ (g.putDown env.residue cardName i).handNum j = g.handNum j - 1 := by
    unfold putDown
    split
    · next q hq =>
      refine ⟨rfl, fun j ↦ ?_⟩
      by_cases hj : j = i
      · subst hj
        exact .inr ⟨rfl, handNum_dropCard j q g⟩
      · exact .inl (handNum_dropCard_of_ne hj q g)
    · exact ⟨rfl, fun j ↦ .inl rfl⟩
  generalize g.putDown env.residue cardName i = r at h hput
  obtain ⟨hflag, hnum⟩ := hput
  cases hid : r.cardId with
  | none => rw [hid] at h; cases h
  | some q =>
    rw [hid] at h
    dsimp only at h
    split at h
    · obtain ⟨c, -, h⟩ := exists_of_bind_ok h
      split at h
      · cases h
      cases h
      refine ⟨fun j hj ↦ ?_, .inl rfl⟩
      rw [← hflag]
      exact hj
    · next hpos =>
      have hpos' : ¬ r.handNum i ≤ 0 := hpos
      obtain ⟨t, ht, h⟩ := exists_of_bind_ok h
      have hlow : Lowers r g' :=
        (show Lowers r (r.showCard q (charAt cardName 1)) from lowers_same rfl rfl).trans
          ((lowers_cardEffect ht).trans (lowers_startRound h))
      have hup (j : Seat) (hj : g'.isUno j = true) : g.isUno j = true := by
        rw [← hflag]
        exact (hlow j hj).1
      refine ⟨hup, .inr fun hs j hj hflagj ↦ ?_⟩
      have hsame := (hlow j hflagj).2
      rcases hnum j with heq | ⟨rfl, heq⟩
      · rw [hsame, heq] at hj ⊢
        exact hs j hj (hup j hflagj)
      · -- a flagged seat had one card and has none now
        have hone : g.handNum j ≠ -1 → g.handNum j = 1 := fun hne ↦ hs j hne (hup j hflagj)
        omega

/-- A settlement that is not in favour of the seat raises no flag for it. -/
private theorem settle_flags {env : Env} (h : settle env g = .ok g') :
    Lowers g g' ∨ ∃ u, g.haveUno = some u ∧ g.fastest u = u ∧ Lowers (g.markUno u) g' := by
  obtain ⟨r, hr, h⟩ := exists_of_bind_ok h
  cases h
  cases hu : g.haveUno with
  | none =>
    rw [hu] at hr
    cases hr
    exact .inl (lowers_same rfl rfl)
  | some u =>
    rw [hu] at hr
    obtain ⟨c, -, hr⟩ := exists_of_bind_ok hr
    split at hr
    · next hf =>
      cases hr
      exact .inr ⟨u, rfl, hf, lowers_same rfl rfl⟩
    · obtain ⟨c', -, hr⟩ := exists_of_bind_ok hr
      obtain ⟨t, ht, hr⟩ := exists_of_bind_ok hr
      cases hr
      exact .inl ((lowers_give 0 2 ∅ ht).trans (lowers_same rfl rfl))

/-- A line that is no play and no departure raises no flag. -/
private theorem line_flags {env : Env} {i : Seat} {recvline : Text} (h8 : charAt recvline 0 ≠ '8')
    (h9 : charAt (chop recvline) 0 ≠ '9') (h : recv env i (.line recvline) g = .ok g') :
    Lowers g g' := by
  unfold recv at h
  dsimp only at h
  rw [if_neg h8] at h
  split at h
  · cases h
    exact lowers_same rfl rfl
  split at h
  · exact lowers_skip h
  split at h
  · exact lowers_callUno h
  split at h
  · exact lowers_catchUno h
  · cases h
    exact lowers_same rfl rfl

/-- A line `9` that is no chat line is a play, and a chat line begins with another character. -/
private theorem recv_play_chop {env : Env} {i : Seat} {recvline : Text}
    (h9 : charAt (chop recvline) 0 = '9') :
    recv env i (.line recvline) g = play env i (chop recvline) g := by
  cases recvline with
  | nil => exact absurd h9 (by decide)
  | cons c cs =>
    have hc : c = '9' := by
      by_contra hne
      by_cases hnl : c = '\n'
      · subst hnl
        have hnone : charAt (chop ('\n' :: cs)) 0 = Char.ofNat 0 := rfl
        exact absurd (hnone.symm.trans h9) (by decide)
      · have : charAt (chop (c :: cs)) 0 = c := by
          simp [chop, charAt, hnl]
        exact hne (this.symm.trans h9)
    subst hc
    exact recv_play rfl

/-- What a step does to the flags: only a settlement for the seat raises one, and when the seat has
one card or has left the flags stand. -/
private theorem step_flags {a : GameAct} (hs : GameStep g a g') :
    (∀ i, g'.isUno i = true → g.isUno i = true ∨
      g.haveUno = some i ∧ g.fastest i = i ∧ ∃ env, a = .settle env) ∧
    ((∀ env u, a = .settle env → g.haveUno = some u → g.fastest u = u → g.handNum u ≠ -1 →
      g.handNum u = 1) → Standing g → g'.pc = .ended ∨ Standing g') := by
  cases a with
  | pass =>
    unfold GameStep step at hs
    dsimp only at hs
    split at hs
    · next i hpc =>
      cases hs
      have hsame : Lowers g (g.advance i) := by
        unfold advance
        split <;> exact lowers_same rfl rfl
      exact ⟨fun j hj ↦ .inl (hsame j hj).1, fun _ hst ↦ .inr (hst.lowers hsame)⟩
    · cases hs
  | recv env event =>
    obtain ⟨i, r, hpc, hi, -, hr, rfl⟩ := recv_step hs
    have hadv : Lowers r (r.advance i) := by
      unfold advance
      split <;> exact lowers_same rfl rfl
    have hended (h : r.pc = .ended) : (r.advance i).pc = .ended := by
      unfold advance
      rw [h]
      exact h
    have hleft {state : ConnState} (h : depart env state i g = .ok r) :
        (∀ j, (r.advance i).isUno j = true → g.isUno j = true) ∧
          (Standing g → Standing (r.advance i)) := by
      have hlow := (depart_flags h).trans hadv
      exact ⟨fun j hj ↦ (hlow j hj).1, fun hst ↦ (standing_leaveSeat hst).lowers hlow⟩
    cases event with
    | eof =>
      have hl : depart env .empty i g = .ok r := hr
      exact ⟨fun j hj ↦ .inl ((hleft hl).1 j hj), fun _ hst ↦ .inr ((hleft hl).2 hst)⟩
    | line recvline =>
      by_cases h8 : charAt recvline 0 = '8'
      · have hl : depart env .lobby i g = .ok r := by
          unfold recv at hr
          dsimp only at hr
          rwa [if_pos h8] at hr
        exact ⟨fun j hj ↦ .inl ((hleft hl).1 j hj), fun _ hst ↦ .inr ((hleft hl).2 hst)⟩
      · by_cases h9 : charAt (chop recvline) 0 = '9'
        · rw [recv_play_chop h9] at hr
          obtain ⟨hup, hst⟩ := play_flags hr
          refine ⟨fun j hj ↦ .inl (hup j (hadv j hj).1), fun _ hold ↦ ?_⟩
          rcases hst with hend | hst
          · exact .inl (hended hend)
          · exact .inr ((hst hold).lowers hadv)
        · have hlow := (line_flags h8 h9 hr).trans hadv
          exact ⟨fun j hj ↦ .inl (hlow j hj).1, fun _ hst ↦ .inr (hst.lowers hlow)⟩
  | settle env =>
    unfold GameStep step at hs
    dsimp only at hs
    split at hs
    · rcases settle_flags hs with hlow | ⟨u, hu, hf, hlow⟩
      · exact ⟨fun j hj ↦ .inl (hlow j hj).1, fun _ hst ↦ .inr (hst.lowers hlow)⟩
      · refine ⟨fun j hj ↦ ?_, fun hone hst ↦ .inr ?_⟩
        · by_cases hju : j = u
          · subst hju
            exact .inr ⟨hu, hf, env, rfl⟩
          · have hsame : (g.markUno u).isUno j = g.isUno j := Function.update_of_ne hju _ _
            exact .inl (hsame ▸ (hlow j hj).1)
        · have hmarked : Standing (g.markUno u) := by
            intro j hj hflag
            by_cases hju : j = u
            · subst hju
              exact hone env j rfl hu hf hj
            · have hsame : (g.markUno u).isUno j = g.isUno j := Function.update_of_ne hju _ _
              exact hst j hj (hsame ▸ hflag)
          exact hmarked.lowers hlow
    · cases hs

/-- A call is settled in favour of a seat in the game when it has one card. -/
def SettlesOneCard (g : Game) (a : GameAct) : Prop :=
  ∀ env u, a = .settle env → g.haveUno = some u → g.fastest u = u → g.handNum u ≠ -1 →
    g.handNum u = 1

/-! ### Runs -/

/-- The line by which a player calls UNO at time 5. -/
def callLine : Text := ['1', '1', ' ', '1', ' ', '5', '\n']

/-- Seat 7 has one card left and calls UNO, then it is given a card in the same turn of the loop. -/
def callThenDraw : List GameAct :=
  (List.range 6).flatMap (ownTurn 7) ++ (ownTurn 8 0 ++ (List.replicate 7 .pass ++
    [.recv inOrder (.line callLine), .recv inOrder (.line ['1', '0', '\n']), .pass, .settle inOrder]))

end Unpv13e.Uno
