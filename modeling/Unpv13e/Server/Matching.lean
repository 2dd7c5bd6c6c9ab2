import Unpv13e.Server.Rooms

/-!
# Random matching

Library `Server`. The loop of `GetInRoom` for a random request
(`src/tcpcliserv/final_server.c:899–1021`) when no other party does anything. It stops at the first
room with `in_game == 0` and `random == 1`, and begins anew when that room cannot be joined.
-/

namespace Unpv13e.Server
open Unpv13e.Base Unpv13e.Uno

namespace Parties

variable {s t : Parties} {k : ConnId} {r : RoomId}

/-- The search stops at this room. -/
def Flagged (s : Parties) (r : RoomId) : Prop := (s.room r).inGame = false ∧ (s.room r).random = true

/-- The first room the search stops at. -/
def FirstFlagged (s : Parties) (r : RoomId) : Prop := s.Flagged r ∧ ∀ q < r, ¬ s.Flagged q

/-- A waiting random room with fewer than nine players. -/
def HasPlace (s : Parties) (r : RoomId) : Prop :=
  (s.room r).used = true ∧ (s.room r).random = true ∧ (s.room r).inGame = false ∧
    (s.room r).playerNum < 9

/-- Only the handler of `k` does anything. -/
def Alone (k : ConnId) : Parties → ServerAct → Prop := fun _ a ↦ a = .handler k

/-- The player of the handler of `k` has been put in a waiting random room, or in a new one when there
was none. -/
inductive Placed (s : Parties) (k : ConnId) : Parties → Prop
  | joined (r : RoomId) (d : RoomData) (hplace : s.HasPlace r)
      (hd : (s.room r).join (s.handler k).playerIndex = some d) :
      Placed s k { (s.setRoom r d).setHandler k .done with roomNum := s.roomNum + 1 }
  | created (r : RoomId) (hnone : ∀ q, ¬ s.HasPlace q) (hu : (s.room r).used = false) :
      Placed s k (s.createRoom k r true)

/-- The handler of `k` takes a step. -/
private theorem alone_step {u : Parties} {out : List Sent} (h : RunWith Step (Alone k) s t)
    (hn : t.handlerNext k = some (u, out)) : RunWith Step (Alone k) s u := by
  refine RunWith.snoc (a := .handler k) h rfl ?_
  change (t.handlerNext k).map Prod.fst = some u
  rw [hn]
  rfl

private theorem pc_setHandler (pc : HandlerPc) : ((s.setHandler k pc).handler k).pc = pc := by
  simp [setHandler]

private theorem setHandler_setHandler (pc pc' : HandlerPc) :
    (s.setHandler k pc).setHandler k pc' = s.setHandler k pc' := by
  simp [setHandler]

private theorem setHandler_self {pc : HandlerPc} (hpc : (s.handler k).pc = pc) :
    s.setHandler k pc = s := by
  have hsame : { s.handler k with pc := pc } = s.handler k := by
    rw [← hpc]
  unfold setHandler
  rw [hsame, Function.update_eq_self]

/-- The search passes over `n` rooms that do not stop it, and remembers an unused one. -/
private theorem scan_run (n : Nat) (hn : n ≤ 45) (hpc : (s.handler k).pc = .scanRandom 0 none)
    (hno : ∀ q : RoomId, q.val < n → ¬ s.Flagged q) :
    ∃ fittest, RunWith Step (Alone k) s (s.setHandler k (.scanRandom n fittest)) ∧
      (∀ q, fittest = some q → (s.room q).used = false) ∧
      (fittest = none → ∀ q : RoomId, q.val < n → (s.room q).used = true) := by
  induction n with
  | zero =>
    refine ⟨none, ?_, nofun, fun _ q hq ↦ absurd hq (Nat.not_lt_zero _)⟩
    rw [setHandler_self hpc]
    exact RunWith.refl
  | succ n ih =>
    obtain ⟨fittest, hrun, hsome, hnone⟩ :=
      ih (by omega) fun q hq ↦ hno q (Nat.lt_succ_of_lt hq)
    let q : RoomId := ⟨n, by omega⟩
    let u := s.setHandler k (.scanRandom n fittest)
    have hstop : ¬ ((u.room q).inGame = false ∧ (u.room q).random = true) :=
      hno q (Nat.lt_succ_self n)
    have hnext : u.handlerNext k = some (s.setHandler k (.scanRandom (n + 1)
        (if (s.room q).used = false ∧ fittest = none then some q else fittest)), []) := by
      unfold handlerNext
      rw [pc_setHandler]
      dsimp only
      rw [dif_pos (by omega), if_neg hstop, setHandler_setHandler, setHandler_setHandler]
      change (if (s.room q).used = false ∧ fittest = none then _ else _) = _
      split <;> rfl
    refine ⟨_, alone_step hrun hnext, ?_, ?_⟩
    · intro p hp
      split at hp
      · next hfree =>
        cases hp
        exact hfree.1
      · exact hsome p hp
    · intro hf p hp
      split at hf
      · cases hf
      next hfree =>
      rcases Nat.lt_succ_iff_lt_or_eq.mp hp with hlt | heq
      · exact hnone hf p hlt
      · have hpq : p = q := Fin.ext heq
        rw [hpq]
        by_contra hu
        exact hfree ⟨by simpa using hu, hf⟩

/-- The search stops at a room. -/
private theorem stops_at (fittest : Option RoomId) (hr : s.Flagged r) :
    (s.setHandler k (.scanRandom r.val fittest)).handlerNext k =
      some (s.setHandler k (.joinRandom r), []) := by
  unfold handlerNext
  rw [pc_setHandler]
  dsimp only
  rw [dif_pos r.isLt, setHandler_setHandler]
  exact if_pos hr

/-- A room with a free place can be joined. -/
private theorem exists_join {d : RoomData} (player : ConnId) (hfree : ∃ i, d.players i = none) :
    ∃ d', d.join player = some d' := by
  obtain ⟨i, hi⟩ := hfree
  unfold RoomData.join
  cases hfind : (List.finRange 10).find? fun i ↦ d.players i = none with
  | none => exact absurd (List.find?_eq_none.mp hfind i (List.mem_finRange i)) (by simpa using hi)
  | some j => exact ⟨_, rfl⟩

private theorem joins {d : RoomData} (hu : (s.room r).used = true) (hg : (s.room r).inGame = false)
    (hn : (s.room r).playerNum < 9) (hd : (s.room r).join (s.handler k).playerIndex = some d) :
    (s.setHandler k (.joinRandom r)).handlerNext k =
      some ({ (s.setRoom r d).setHandler k .done with roomNum := s.roomNum + 1 }, []) := by
  have hjoin : ¬ ((s.room r).used = false ∨ (s.room r).inGame = true ∨ 9 ≤ (s.room r).playerNum) := by
    rw [hu, hg]
    simpa using hn
  have hplayer : ((s.setHandler k (.joinRandom r)).handler k).playerIndex =
      (s.handler k).playerIndex := by
    simp [setHandler]
  unfold handlerNext
  rw [pc_setHandler]
  dsimp only
  refine (if_neg hjoin).trans ?_
  unfold joined
  rw [hplayer, show (s.setHandler k (.joinRandom r)).room = s.room from rfl, hd]
  simp [setHandler, setRoom]

/-- The search is over, and an unused room was found. -/
private theorem creates_at (r : RoomId) :
    (s.setHandler k (.scanRandom 45 (some r))).handlerNext k =
      some (s.setHandler k (.create r true), []) := by
  unfold handlerNext
  rw [pc_setHandler]
  dsimp only
  rw [dif_neg (by decide), setHandler_setHandler]

private theorem creates (hu : (s.room r).used = false) :
    (s.setHandler k (.create r true)).handlerNext k = some (s.createRoom k r true, []) := by
  have hno : ¬ (s.room r).used = true := by
    rw [hu]
    decide
  unfold handlerNext
  rw [pc_setHandler]
  dsimp only
  refine (if_neg hno).trans ?_
  simp [createRoom, setHandler, setRoom, setRoomWorking]

/-! ### The room it stops at -/

/-- The handler looks for the room `r`, which cannot be joined, over and over. -/
private structure Circles (s : Parties) (k : ConnId) (r : RoomId) (t : Parties) : Prop where
  room : t.room = s.room
  player : (t.handler k).playerIndex = (s.handler k).playerIndex
  pc : (∃ i fittest, i ≤ r.val ∧ (t.handler k).pc = .scanRandom i fittest) ∨
    (t.handler k).pc = .joinRandom r

private theorem Circles.setHandler {pc : HandlerPc} (h : Circles s k r t)
    (hpc : (∃ i fittest, i ≤ r.val ∧ pc = .scanRandom i fittest) ∨ pc = .joinRandom r) :
    Circles s k r (t.setHandler k pc) := by
  refine ⟨h.room, ?_, ?_⟩
  · rw [← h.player]
    simp [Parties.setHandler]
  · rw [pc_setHandler]
    exact hpc

private theorem circles_step {u : Parties} {out : List Sent} (hfirst : s.FirstFlagged r)
    (hbad : ¬ ((s.room r).used = true ∧ (s.room r).playerNum < 9 ∧ ∃ i, (s.room r).players i = none))
    (h : Circles s k r t) (hn : t.handlerNext k = some (u, out)) : Circles s k r u := by
  rcases h.pc with ⟨i, fittest, hi, hpc⟩ | hpc
  · unfold handlerNext at hn
    rw [hpc] at hn
    have hlt : i < 45 := Nat.lt_of_le_of_lt hi r.isLt
    dsimp only at hn
    rw [dif_pos hlt] at hn
    split at hn
    · next hstop =>
      cases hn
      rw [h.room] at hstop
      have hir : (⟨i, hlt⟩ : RoomId) = r := by
        refine Fin.ext (Nat.le_antisymm hi (Nat.le_of_not_lt fun hir ↦ ?_))
        exact hfirst.2 ⟨i, hlt⟩ hir hstop
      rw [hir]
      exact h.setHandler (.inr rfl)
    next hgo =>
    have hne : i ≠ r.val := by
      rintro rfl
      rw [h.room] at hgo
      exact hgo hfirst.1
    split at hn
    · cases hn
      exact h.setHandler (.inl ⟨i + 1, _, by omega, rfl⟩)
    · cases hn
      exact h.setHandler (.inl ⟨i + 1, _, by omega, rfl⟩)
  · unfold handlerNext at hn
    rw [hpc] at hn
    dsimp only at hn
    split at hn
    · cases hn
      exact h.setHandler (.inl ⟨0, none, Nat.zero_le _, rfl⟩)
    next hgood =>
    -- the room could be joined but for a free place
    rw [h.room, not_or, not_or] at hgood
    have hfull : (s.room r).join (t.handler k).playerIndex = none := by
      have hno : ∀ i, (s.room r).players i ≠ none := fun i hi ↦
        hbad ⟨by simpa using hgood.1, by omega, i, hi⟩
      unfold RoomData.join
      rw [List.find?_eq_none.mpr fun i _ ↦ by simpa using hno i]
    unfold joined at hn
    rw [h.room, hfull] at hn
    cases hn

/-- The handler never is done. -/
private theorem circles_run (hpc : (s.handler k).pc = .scanRandom 0 none) (hfirst : s.FirstFlagged r)
    (hbad : ¬ ((s.room r).used = true ∧ (s.room r).playerNum < 9 ∧ ∃ i, (s.room r).players i = none))
    (hrun : RunWith Step (Alone k) s t) : (t.handler k).pc ≠ .done := by
  intro hdone
  have hinv : Circles s k r t := by
    refine RunWith.preserves (I := Circles s k r) ?_ hrun
      ⟨rfl, rfl, .inl ⟨0, none, Nat.zero_le _, hpc⟩⟩
    rintro u a v hu rfl hs
    obtain ⟨out, hs⟩ := hs.exists_out
    exact circles_step hfirst hbad hu hs
  rcases hinv.pc with ⟨i, fittest, -, hscan⟩ | hjoin
  · rw [hdone] at hscan
    cases hscan
  · rw [hdone] at hjoin
    cases hjoin

/-- A random request is answered, with the player in a waiting random room if there is one and in a new
room otherwise, exactly when the first room the search stops at, if there is one, can be joined. -/
theorem random_matching (hpc : (s.handler k).pc = .scanRandom 0 none)
    (hroom : (∃ r, (s.room r).used = false) ∨ ∃ r, s.HasPlace r) :
    (∃ t, RunWith Step (Alone k) s t ∧ (t.handler k).pc = .done ∧ s.Placed k t) ↔
      ∀ r, s.FirstFlagged r → (s.room r).used = true ∧ (s.room r).playerNum < 9 ∧
        ∃ i, (s.room r).players i = none := by
  constructor
  · rintro ⟨t, hrun, hdone, -⟩ r hfirst
    by_contra hbad
    exact circles_run hpc hfirst hbad hrun hdone
  · intro hgood
    by_cases hflag : ∃ r, s.Flagged r
    · obtain ⟨r, hr, hmin⟩ : ∃ r, s.Flagged r ∧ ∀ q < r, ¬ s.Flagged q := by
        obtain ⟨r, hr, hmin⟩ := WellFounded.has_min (wellFounded_lt) {r | s.Flagged r} hflag
        exact ⟨r, hr, fun q hq hf ↦ hmin q hf hq⟩
      obtain ⟨hu, hnum, hfree⟩ := hgood r ⟨hr, hmin⟩
      obtain ⟨fittest, hrun, -, -⟩ := scan_run r.val (Nat.le_of_lt r.isLt) hpc hmin
      obtain ⟨d, hd⟩ := exists_join (s.handler k).playerIndex hfree
      refine ⟨_, alone_step (alone_step hrun (stops_at fittest hr)) (joins hu hr.1 hnum hd), ?_,
        .joined r d ⟨hu, hr.2, hr.1, hnum⟩ hd⟩
      exact pc_setHandler .done
    · have hno (q : RoomId) : ¬ s.Flagged q := fun hf ↦ hflag ⟨q, hf⟩
      have hnone (q : RoomId) : ¬ s.HasPlace q := fun hq ↦ hno q ⟨hq.2.2.1, hq.2.1⟩
      obtain ⟨fittest, hrun, hfree, hfull⟩ := scan_run 45 (le_refl _) hpc fun q _ ↦ hno q
      cases fittest with
      | none =>
        rcases hroom with ⟨q, hq⟩ | ⟨q, hq⟩
        · rw [hfull rfl q q.isLt] at hq
          cases hq
        · exact absurd hq (hnone q)
      | some q =>
        refine ⟨_, alone_step (alone_step hrun (creates_at q)) (creates (hfree q rfl)), ?_,
          .created q hnone (hfree q rfl)⟩
        simp [createRoom, setHandler]

/-! ### A full room in the way -/

/-- Before the first room is created the search for one succeeds. -/
theorem random_matching_start :
    ∃ t, RunWith Step (Alone 0) (start.setHandler 0 (.scanRandom 0 none)) t ∧
      (t.handler 0).pc = .done ∧ (start.setHandler 0 (.scanRandom 0 none)).Placed 0 t := by
  refine (random_matching rfl (.inl ⟨0, rfl⟩)).mpr ?_
  rintro r ⟨⟨-, hr⟩, -⟩
  cases hr

/-- Nine players wait in the first room, the others are unused, and one more player is waiting for a
random room. -/
def nineWaiting : Parties :=
  (start.setRoom 0 ⟨false, 9, fun i ↦ if i.val < 9 then some (seatAsConn i) else none, true, false,
    true⟩).setHandler 9 (.scanRandom 0 none)

/-- The search never ends, though there are unused rooms. -/
theorem matching_circles :
    (nineWaiting.room 1).used = false ∧ ∀ t, RunWith Step (Alone 9) nineWaiting t →
      (t.handler 9).pc ≠ .done := by
  refine ⟨rfl, fun t hrun ↦ circles_run (r := 0) rfl ?_ ?_ hrun⟩
  · exact ⟨⟨rfl, rfl⟩, fun q hq ↦ absurd hq (Nat.not_lt_zero _)⟩
  · exact fun hgood ↦ absurd hgood.2.1 (lt_irrefl 9)

end Parties
end Unpv13e.Server
