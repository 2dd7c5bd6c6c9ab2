import Unpv13e.Server.Custody

/-!
# The owner of a room

Library `Server`. The thread of a room keeps the owner's seat in a local variable. It names the
owner in the lines `5` and `8` (`src/tcpcliserv/final_server.c:701–747`, `:812–831`), and looks for
a new one among the players it has let in. When the owner is a player of the room.
-/

namespace Unpv13e.Server
open Unpv13e.Base Unpv13e.Uno

/-- Nobody has been let in yet; the first player is to be the owner. -/
structure Thread.Fresh (t : Thread) (players : Seat → Option ConnId) : Prop where
  used : ∀ i, t.used i = none
  owner : t.owner = 0
  first : (players 0).isSome

/-- The owner of a room in its loop: the first player once it is let in, or a player that has
been. -/
def Thread.Led (t : Thread) (players : Seat → Option ConnId) : Prop :=
  t.alreadyPlay = false ∧ (t.Fresh players ∨ (t.used t.owner).isSome)

/-- Being led does not depend on the place. -/
theorem Thread.Led.goesOn {t : Thread} {players : Seat → Option ConnId} (h : t.Led players)
    (pc : RoomPc) : Thread.Led { t with pc := pc } players := by
  obtain ⟨hplay, hf | hs⟩ := h
  · exact ⟨hplay, .inl ⟨hf.used, hf.owner, hf.first⟩⟩
  · exact ⟨hplay, .inr hs⟩

/-- What the thread knows of its owner at each place of its loop. -/
def Thread.Owns (t : Thread) (players : Seat → Option ConnId) (working : Bool) : Prop :=
  match t.pc with
  | .waiting => working = true → (players 0).isSome
  | .load => working = true → (players 0).isSome
  | .loopTest =>
    working = true → if t.alreadyPlay = true then (players 0).isSome else t.Led players
  | .letIn => t.Led players
  | .select => t.Led players
  | .scan _ _ => t.Led players
  | .leaveState _ _ _ => t.Led players
  | .leaveLock _ _ => t.Led players
  | .leaveTest _ i => t.alreadyPlay = false ∧ (working = true →
      if i = t.owner then ∃ j, j ≠ i ∧ (t.used j).isSome else (t.used t.owner).isSome)
  | .leaveOwner _ i => t.alreadyPlay = false ∧
      if i = t.owner then ∃ j, j ≠ i ∧ (t.used j).isSome else (t.used t.owner).isSome
  | .startTest _ _ => t.Led players
  | .finishRandom => working = true → (players 0).isSome
  | .finishNum => working = true → (players 0).isSome
  | _ => True

/-- More players change nothing for the owner. -/
theorem Thread.Owns.more {t : Thread} {players players' : Seat → Option ConnId} {working : Bool}
    (h : t.Owns players working) (hmore : (players 0).isSome → (players' 0).isSome) :
    t.Owns players' working := by
  have led (hled : t.Led players) : t.Led players' := by
    obtain ⟨ha, hf | hs⟩ := hled
    · exact ⟨ha, .inl ⟨hf.used, hf.owner, hmore hf.first⟩⟩
    · exact ⟨ha, .inr hs⟩
  unfold Owns at h ⊢
  cases hpc : t.pc with
  | waiting => rw [hpc] at h; exact fun hw ↦ hmore (h hw)
  | load => rw [hpc] at h; exact fun hw ↦ hmore (h hw)
  | loopTest =>
    rw [hpc] at h
    intro hw
    have := h hw
    split
    · next ha => rw [if_pos ha] at this; exact hmore this
    · next ha => rw [if_neg ha] at this; exact led this
  | letIn => rw [hpc] at h; exact led h
  | select => rw [hpc] at h; exact led h
  | scan => rw [hpc] at h; exact led h
  | leaveState => rw [hpc] at h; exact led h
  | leaveLock => rw [hpc] at h; exact led h
  | leaveTest => rw [hpc] at h; exact h
  | leaveOwner => rw [hpc] at h; exact h
  | startTest => rw [hpc] at h; exact led h
  | finishRandom => rw [hpc] at h; exact fun hw ↦ hmore (h hw)
  | finishNum => rw [hpc] at h; exact fun hw ↦ hmore (h hw)
  | _ => trivial

/-- The room is taken into use when the thread is past its inner loop. -/
theorem Thread.Owns.awaken {t : Thread} {players : Seat → Option ConnId} {working : Bool}
    (h : t.Owns players working) (hfirst : (players 0).isSome)
    (hpast : match t.pc with
      | .loopTest => t.alreadyPlay = true
      | .leaveTest _ _ => False
      | _ => True) : t.Owns players true := by
  unfold Owns at h ⊢
  cases hpc : t.pc with
  | waiting => exact fun _ ↦ hfirst
  | load => exact fun _ ↦ hfirst
  | loopTest =>
    rw [hpc] at hpast
    intro _
    rw [if_pos hpast]
    exact hfirst
  | leaveTest => rw [hpc] at hpast; exact hpast.elim
  | finishRandom => exact fun _ ↦ hfirst
  | finishNum => exact fun _ ↦ hfirst
  | _ => rw [hpc] at h; exact h

/-- The first other player let in, if there is one. -/
theorem nextOwner_spec {t : Thread} {i j : Seat} (hj : j ≠ i) (hu : (t.used j).isSome) :
    Parties.nextOwner t i ≠ i ∧ (t.used (Parties.nextOwner t i)).isSome := by
  unfold Parties.nextOwner
  cases hfind : (List.finRange 10).find? fun j ↦ j ≠ i ∧ (t.used j).isSome with
  | none =>
    have := List.find?_eq_none.mp hfind j (List.mem_finRange j)
    simp [hj, hu] at this
  | some o => simpa using List.find?_some hfind

namespace Parties

variable {s t : Parties} {k : ConnId} {r : RoomId} {input : Input} {out : List Sent}

/-- A player of a room that its thread has not given up is in state 2. -/
theorem Disciplined.state_room {i : Seat} (hs : s.Disciplined)
    (hp : (s.room r).players i = some k) (hrel : ¬ (s.thread r).Released i) : s.state k = .room :=
  hs.state k (.seat r i) ⟨hp, hrel⟩

/-- A room is created when its thread is past its inner loop. -/
def CreatesAfterLoop (s : Parties) : ServerAct → Prop
  | .handler k => ∀ r random, (s.handler k).pc = .create r random → (s.room r).used = false →
      match (s.thread r).pc with
      | .loopTest => (s.thread r).alreadyPlay = true
      | .leaveTest _ _ => False
      | _ => True
  | _ => True

/-- An owner that leaves a room with players in it leaves one who has been let in. -/
def LeavesAnOwner (s : Parties) : ServerAct → Prop
  | .thread r _ => ∀ ready, (s.thread r).pc = .leaveLock ready (s.thread r).owner →
      (s.room r).playerNum ≠ 1 → ∃ j, j ≠ (s.thread r).owner ∧ ((s.thread r).used j).isSome
  | _ => True

theorem CreatesAfterLoop.offLoop {a : ServerAct} (h : s.CreatesAfterLoop a) :
    s.CreatesOffLoop a := by
  cases a with
  | handler k =>
    intro r random hpc hu
    have := h r random hpc hu
    cases hp : (s.thread r).pc with
    | loopTest => rw [hp] at this; exact this
    | _ => trivial
  | _ => trivial

/-! ### Letting players in -/

/-- Nobody who has been let in is forgotten. -/
theorem letInSeat_used {owner : Seat} {acc acc' : (Seat → Option ConnId) × List Sent} {i j : Seat}
    (h : s.letInSeat r owner acc i = some acc') (hj : (acc.1 j).isSome) : (acc'.1 j).isSome := by
  unfold letInSeat at h
  split at h
  · cases h
    exact hj
  split at h
  · obtain ⟨line, -, h⟩ := Option.bind_eq_some_iff.mp h
    cases h
    by_cases hji : j = i
    · subst hji
      simp
    · simpa [hji] using hj
  · cases h
    exact hj

theorem letIn_used {owner : Seat} {is : List Seat} {acc acc' : (Seat → Option ConnId) × List Sent}
    {j : Seat} (h : is.foldlM (s.letInSeat r owner) acc = some acc') (hj : (acc.1 j).isSome) :
    (acc'.1 j).isSome := by
  induction is generalizing acc with
  | nil =>
    cases h
    exact hj
  | cons i is ih =>
    rw [List.foldlM_cons] at h
    obtain ⟨mid, hmid, h⟩ := Option.bind_eq_some_iff.mp h
    exact ih h (letInSeat_used hmid hj)

/-- A player in state 2 has been let in after its turn. -/
theorem letInSeat_self {owner : Seat} {acc acc' : (Seat → Option ConnId) × List Sent} {i : Seat}
    (h : s.letInSeat r owner acc i = some acc') (hp : (s.room r).players i = some k)
    (hstate : s.state k = .room) : (acc'.1 i).isSome := by
  unfold letInSeat at h
  rw [hp] at h
  dsimp only at h
  split at h
  · obtain ⟨line, -, h⟩ := Option.bind_eq_some_iff.mp h
    cases h
    simp
  · next hno =>
    cases h
    rw [not_and] at hno
    exact Option.isSome_iff_ne_none.mpr (hno hstate)

/-- Every player in state 2 has been let in after the loop. -/
theorem letIn_all {owner : Seat} {is : List Seat} {acc acc' : (Seat → Option ConnId) × List Sent}
    {i : Seat} (h : is.foldlM (s.letInSeat r owner) acc = some acc') (hi : i ∈ is)
    (hp : (s.room r).players i = some k) (hstate : s.state k = .room) : (acc'.1 i).isSome := by
  induction is generalizing acc with
  | nil => cases hi
  | cons j is ih =>
    rw [List.foldlM_cons] at h
    obtain ⟨mid, hmid, h⟩ := Option.bind_eq_some_iff.mp h
    have hrest : is.foldlM (s.letInSeat r owner) mid = some acc' := h
    rcases List.mem_cons.mp hi with rfl | hi
    · exact letIn_used hrest (letInSeat_self hmid hp hstate)
    · exact ih hrest hi

/-- At the place of letting players in, every player of the room is in state 2. -/
theorem Disciplined.state_letIn {i : Seat} (hs : s.Disciplined) (hpc : (s.thread r).pc = .letIn)
    (hp : (s.room r).players i = some k) : s.state k = .room :=
  hs.state_room hp (not_released (by rw [hpc]; trivial))

/-! ### Steps -/

/-- Every thread knows the owner of its room. -/
structure Headed (s : Parties) : Prop where
  disciplined : s.Disciplined
  first : ∀ r, (s.roomArg r).owner = 0
  owns : ∀ r, (s.thread r).Owns (s.room r).players (s.roomWorking r)

/-- A thread knows the owner of its room after its step. -/
private theorem thread_owns (hok : s.LeavesAnOwner (.thread r input))
    (h : ThreadDoes s r input t out) (hs : s.Headed) :
    (t.thread r).Owns (t.room r).players (t.roomWorking r) := by
  have howns := hs.owns r
  unfold Thread.Owns at howns
  cases h with
  | begin input hpc hw =>
    rw [hpc] at howns
    simpa [Thread.Owns, setThread] using howns
  | load input hpc =>
    rw [hpc] at howns
    simp only [Thread.Owns, setThread, Function.update_self]
    intro hw
    rw [if_neg Bool.false_ne_true]
    exact ⟨rfl, .inl ⟨fun _ ↦ rfl, hs.first r, howns hw⟩⟩
  | loop input hpc hw ha =>
    rw [hpc] at howns
    have hled := howns hw
    rw [ha, if_neg Bool.false_ne_true] at hled
    simp only [Thread.Owns, setThread, Function.update_self]
    exact hled.goesOn .letIn
  | leaveLoop input hpc hno =>
    rw [hpc] at howns
    simp only [Thread.Owns, setThread, Function.update_self]
    intro hw
    have hplay : (s.thread r).alreadyPlay = true := hno.resolve_left (by simp [hw])
    simpa [hplay] using howns hw
  | letIn input acc hpc hnew hacc =>
    rw [hpc] at howns
    simp only [Thread.Owns, setThread, setRoom, Function.update_self]
    refine ⟨howns.1, .inr ?_⟩
    dsimp only
    rcases howns.2 with hfresh | hled
    · -- the first player is let in, and it is the owner
      obtain ⟨c, hc⟩ := Option.isSome_iff_exists.mp hfresh.first
      rw [hfresh.owner] at hacc ⊢
      exact letIn_all hacc (List.mem_finRange 0) hc (hs.disciplined.state_letIn hpc hc)
    · exact letIn_used hacc hled
  | nobodyNew input hpc =>
    rw [hpc] at howns
    simp only [Thread.Owns, setThread, Function.update_self]
    exact Thread.Led.goesOn howns .select
  | select seats hpc =>
    rw [hpc] at howns
    simp only [Thread.Owns, setThread, Function.update_self]
    exact Thread.Led.goesOn howns (.scan seats 0)
  | pass ready i input hpc =>
    rw [hpc] at howns
    simp only [Thread.Owns, setThread, Function.update_self]
    exact Thread.Led.goesOn howns (.scan ready (i + 1))
  | scanned ready i input hpc =>
    rw [hpc] at howns
    have hled : (s.thread r).Led (s.room r).players := howns
    simp only [Thread.Owns, setThread, Function.update_self]
    intro _
    rw [if_neg (by simp [hled.1])]
    exact hled.goesOn .loopTest
  | read ready i k event hpc =>
    rw [hpc] at howns
    have hled : (s.thread r).Led (s.room r).players := howns
    simp only [Thread.Owns, setThread, Function.update_self]
    rcases RoomPc.afterRead_cases ready i event with ⟨state, -, he⟩ | ⟨l, -, -, he⟩ | he
    · rw [he]
      exact hled.goesOn (.leaveState ready i state)
    · rw [he]
      exact hled.goesOn (.startTest ready i)
    · rw [he]
      exact hled.goesOn (.scan ready (i.val + 1))
  | leaveState input ready i state k hpc =>
    rw [hpc] at howns
    simp only [Thread.Owns, setThread, Function.update_self]
    exact Thread.Led.goesOn howns (.leaveLock ready i)
  | takeOut input ready i hpc =>
    rw [hpc] at howns
    have hknows := (hs.disciplined.occupied r).knows
    unfold Thread.Knows at hknows
    rw [hpc] at hknows
    -- a player has been let in, so the owner has
    have hled : ((s.thread r).used (s.thread r).owner).isSome := by
      rcases howns.2 with hfresh | hled
      · have := hknows.2
        rw [hfresh.used i] at this
        cases this
      · exact hled
    have hleft (hn : (s.room r).playerNum - 1 ≠ 0) : if i = (s.thread r).owner then
        ∃ j, j ≠ i ∧ ((s.thread r).used j).isSome
        else ((s.thread r).used (s.thread r).owner).isSome := by
      split
      · next hi =>
        subst hi
        exact hok ready hpc (by omega)
      · exact hled
    unfold takeOut
    dsimp only
    split
    · simp only [Thread.Owns, setThread, setRoom, setRoomWorking, Function.update_self]
      exact ⟨howns.1, fun hw ↦ by cases hw⟩
    · next hn =>
      simp only [Thread.Owns, setThread, setRoom, Function.update_self]
      exact ⟨howns.1, fun _ ↦ hleft hn⟩
  | leaveTest input ready i hpc =>
    rw [hpc] at howns
    obtain ⟨hplay, hleft⟩ := howns
    by_cases hw : s.roomWorking r = true
    · simp only [Thread.Owns, setThread, Function.update_self, if_pos hw]
      exact ⟨hplay, hleft hw⟩
    · simp only [Thread.Owns, setThread, Function.update_self, if_neg hw]
      exact fun hw' ↦ absurd hw' hw
  | leaveOwner input ready i t out hpc h =>
    rw [hpc] at howns
    obtain ⟨hplay, hleft⟩ := howns
    rw [(leaveOwner_eq h).1]
    simp only [Thread.Owns, setThread, Function.update_self]
    refine ⟨hplay, .inr ?_⟩
    by_cases hi : i = (s.thread r).owner
    · rw [if_pos hi] at hleft
      obtain ⟨j, hj, hu⟩ := hleft
      obtain ⟨hne, hsome⟩ := nextOwner_spec hj hu
      dsimp only
      rw [if_pos hi, Function.update_of_ne hne]
      exact hsome
    · rw [if_neg hi] at hleft
      dsimp only
      rw [if_neg hi, Function.update_of_ne (Ne.symm hi)]
      exact hleft
  | tooFew input ready i hpc =>
    rw [hpc] at howns
    simp only [Thread.Owns, setThread, Function.update_self]
    exact Thread.Led.goesOn howns (.scan ready (i.val + 1))
  | finishRandom input hpc =>
    rw [hpc] at howns
    simpa [Thread.Owns, setThread, setRoom] using howns
  | finishNum input hpc =>
    rw [hpc] at howns
    simpa [Thread.Owns, setThread] using howns
  | perform input g done todo e hpc =>
    cases e with
    | send c line => simp [Thread.Owns, perform, setThread]
    | setState c state => simp [Thread.Owns, perform, setThread, setState]
  | reset => simp [Thread.Owns, reset, setThread, setRoomWorking]
  | _ => simp [Thread.Owns, setThread]

private theorem handler_owns (hok : s.CreatesAfterLoop (.handler k)) (h : HandlerDoes s k t out)
    (hs : s.Headed) (r : RoomId) : (t.thread r).Owns (t.room r).players (t.roomWorking r) := by
  cases h with
  | join q d hpc hu hg hn hd =>
    by_cases hq : r = q
    · subst hq
      obtain ⟨i, -, rfl⟩ := RoomData.exists_of_join hd
      have hmore : (s.thread r).Owns
          (Function.update (s.room r).players i (some (s.handler k).playerIndex))
          (s.roomWorking r) := (hs.owns r).more ?_
      · simpa [setRoom, setHandler] using hmore
      · intro h0
        by_cases hi : (0 : Seat) = i
        · subst hi
          simp
        · simpa [hi] using h0
    · simpa [setRoom, setHandler, hq] using hs.owns r
  | create q random hpc hu =>
    by_cases hq : r = q
    · subst hq
      have hmore : (s.thread r).Owns
          (Function.update (s.room r).players 0 (some (s.handler k).playerIndex))
          (s.roomWorking r) := (hs.owns r).more fun _ ↦ by simp
      have hawake := hmore.awaken (by simp) (hok r random hpc hu)
      simpa [createRoom, setRoom, setRoomWorking, setHandler] using hawake
    · simpa [createRoom, setRoom, setRoomWorking, setHandler, hq] using hs.owns r
  | _ => exact hs.owns r

/-- Every step leaves the threads knowing the owners. -/
theorem step_headed {a : ServerAct} (hcreate : s.CreatesAfterLoop a) (hsettle : s.SettlesInTime a)
    (hleave : s.LeavesAnOwner a) (h : s.Step a t) (hs : s.Headed) : t.Headed := by
  have hdis := step_disciplined hcreate.offLoop hsettle h hs.disciplined
  obtain ⟨out, h⟩ := h.exists_out
  have same (hroomArg : t.roomArg = s.roomArg) (hthread : t.thread = s.thread)
      (hroom : t.room = s.room) (hworking : t.roomWorking = s.roomWorking) : t.Headed := by
    refine ⟨hdis, ?_, ?_⟩
    · rw [hroomArg]
      exact hs.first
    · rw [hthread, hroom, hworking]
      exact hs.owns
  cases a with
  | accept k =>
    simp only [step] at h
    split at h
    · split at h
      · cases h; exact same rfl rfl rfl rfl
      · cases h
    · cases h
  | read k event =>
    simp only [step] at h
    split at h
    · split at h
      · split at h
        · cases h; exact same rfl rfl rfl rfl
        · obtain ⟨name, main, rfl, -⟩ := request_does h
          exact same rfl rfl rfl rfl
      · cases h
    · cases h
  | main =>
    simp only [step, mainNext] at h
    split at h
    · cases h
    · cases h; exact same rfl rfl rfl rfl
    · cases h; exact same rfl rfl rfl rfl
    · cases h; exact same rfl rfl rfl rfl
  | handler k =>
    have hd := handlerNext_does h
    refine ⟨hdis, ?_, handler_owns hcreate hd hs⟩
    cases hd with
    | create q random hpc hu =>
      intro r
      by_cases hq : r = q
      · subst hq
        simp [createRoom]
      · simpa [createRoom, setRoom, setRoomWorking, setHandler, hq] using hs.first r
    | _ => exact hs.first
  | thread q input =>
    have hd := threadNext_does h
    refine ⟨hdis, ?_, ?_⟩
    · obtain ⟨-, -, -, -, -, harg⟩ := thread_frame hd
      rw [harg]
      exact hs.first
    · intro r
      by_cases hq : r = q
      · subst hq
        exact thread_owns hleave hd hs
      · obtain ⟨hthread, hroom, -, hworking⟩ := thread_other hd hq
        rw [hthread, hroom, hworking]
        exact hs.owns r

/-- No party knows an owner before the first connection. -/
theorem start_headed : start.Headed :=
  ⟨start_disciplined, fun _ ↦ rfl, fun _ hw ↦ by cases hw⟩

/-! ### The lines that name the owner -/

/-- Whenever the thread of `r` names the owner in a line `5` or `8`, the owner is a player that it
has let in, or the one being let in, and after an owner's departure it is one that stays. -/
structure OwnerSeated (s : Parties) (r : RoomId) : Prop where
  entered : (s.thread r).pc = .letIn → (s.room r).newPlayer = true →
    ∀ pre i post acc k, List.finRange 10 = pre ++ i :: post →
      pre.foldlM (s.letInSeat r (s.thread r).owner) ((s.thread r).used, []) = some acc →
      (s.room r).players i = some k → s.state k = .room → acc.1 i = none →
      ((acc.1 (s.thread r).owner).isSome ∨ (s.thread r).owner = i) ∧
        ((s.room r).players (s.thread r).owner).isSome
  handed : ∀ ready input t out, (s.thread r).pc = .leaveOwner ready (s.thread r).owner →
    s.step (.thread r input) = some (t, out) →
      (t.thread r).owner ≠ (s.thread r).owner ∧ ∃ k,
        (t.thread r).used (t.thread r).owner = some k ∧
        (t.room r).players (t.thread r).owner = some k ∧
        out = sendToEveryone (some (s.thread r).owner) (line1 ['8'] (s.name k)) (s.thread r).used

/-- Whoever is let in, the owner has been let in before, or it is the owner and the first. The owner
is a player. -/
theorem Headed.entered (hs : s.Headed) (hpc : (s.thread r).pc = .letIn)
    {pre post : List Seat} {i : Seat} {acc : (Seat → Option ConnId) × List Sent}
    (hsplit : List.finRange 10 = pre ++ i :: post)
    (hacc : pre.foldlM (s.letInSeat r (s.thread r).owner) ((s.thread r).used, []) = some acc) :
    ((acc.1 (s.thread r).owner).isSome ∨ (s.thread r).owner = i ∧ ∀ j, acc.1 j = none) ∧
      ((s.room r).players (s.thread r).owner).isSome := by
  have hled := hs.owns r
  have hlisted := (hs.disciplined.occupied r).knows
  unfold Thread.Owns at hled
  unfold Thread.Knows at hlisted
  rw [hpc] at hled hlisted
  rcases hled.2 with hfresh | hsome
  · rw [hfresh.owner] at hacc ⊢
    refine ⟨?_, hfresh.first⟩
    rw [List.finRange_succ] at hsplit
    cases pre with
    | nil =>
      right
      rw [List.nil_append] at hsplit
      cases hacc
      exact ⟨(List.cons.inj hsplit).1, hfresh.used⟩
    | cons j pre =>
      -- the first player comes before, so it has been let in
      left
      obtain ⟨c, hc⟩ := Option.isSome_iff_exists.mp hfresh.first
      rw [List.cons_append] at hsplit
      rw [← (List.cons.inj hsplit).1] at hacc
      exact letIn_all hacc List.mem_cons_self hc (hs.disciplined.state_letIn hpc hc)
  · have hin := letIn_used hacc hsome
    refine ⟨.inl hin, ?_⟩
    obtain ⟨c, hc⟩ := Option.isSome_iff_exists.mp hin
    rw [letIn_listed hacc hlisted _ c not_false hc]
    rfl

/-- A line `8` names the new owner, a player that stays. -/
private theorem Headed.handed (hs : s.Headed) {ready : List Seat}
    (hpc : (s.thread r).pc = .leaveOwner ready (s.thread r).owner)
    (h : s.leaveOwner r (s.thread r) ready (s.thread r).owner = some (t, out)) :
    (t.thread r).owner ≠ (s.thread r).owner ∧ ∃ k,
      (t.thread r).used (t.thread r).owner = some k ∧
      (t.room r).players (t.thread r).owner = some k ∧
      out = sendToEveryone (some (s.thread r).owner) (line1 ['8'] (s.name k)) (s.thread r).used := by
  have hled := hs.owns r
  have hlisted := (hs.disciplined.occupied r).knows
  unfold Thread.Owns at hled
  unfold Thread.Knows at hlisted
  rw [hpc] at hled hlisted
  dsimp only at hled
  rw [if_pos rfl] at hled
  obtain ⟨-, j, hj, hu⟩ := hled
  obtain ⟨hne, hsome⟩ := nextOwner_spec hj hu
  obtain ⟨c, hc⟩ := Option.isSome_iff_exists.mp hsome
  simp only [leaveOwner, if_pos, hc, Option.some.injEq, Prod.mk.injEq] at h
  obtain ⟨rfl, rfl⟩ := h
  simp only [setThread, Function.update_self]
  refine ⟨hne, c, ?_, ?_, rfl⟩
  · rw [Function.update_of_ne hne]
    exact hc
  · exact hlisted _ c hne hc

/-- In every run in which rooms are created when their threads are past the inner loop, nothing
is settled against a seat that has left, and an owner that leaves a room with players in it leaves
one who has been let in, the lines that name the owner name a player of the room. -/
theorem owner_seated {s : Parties} (h : RunWith Step (fun s a ↦
    s.CreatesAfterLoop a ∧ s.SettlesInTime a ∧ s.LeavesAnOwner a) start s) (r : RoomId) :
    s.OwnerSeated r := by
  have hs : s.Headed :=
    h.preserves (fun s a t hi hok hs ↦ step_headed hok.1 hok.2.1 hok.2.2 hs hi) start_headed
  refine ⟨?_, ?_⟩
  · intro hpc _ pre i post acc k hsplit hacc _ _ _
    obtain ⟨hin, hplayer⟩ := hs.entered hpc hsplit hacc
    exact ⟨hin.imp_right And.left, hplayer⟩
  · intro ready input t out hpc hstep
    cases threadNext_does hstep with
    | leaveOwner input ready' i t out hpc' h =>
      rw [hpc] at hpc'
      cases hpc'
      exact hs.handed hpc h
    | takeOut _ _ _ hpc' => rw [hpc] at hpc'; cases hpc'
    | perform _ _ _ _ _ hpc' => rw [hpc] at hpc'; cases hpc'
    | _ => simp_all

/-- A step that creates a room only while its thread waits, plays no game, and takes players out
of a room only when another one has been let in. -/
private def leavesAnother (s : Parties) : ServerAct → Bool
  | .handler k => createsWaiting s (.handler k)
  | .thread _ (.game _) => false
  | .thread r _ =>
    match (s.thread r).pc with
    | .leaveLock _ i => decide (∃ j, j ≠ i ∧ ((s.thread r).used j).isSome)
    | _ => true
  | _ => true

private theorem ok_of_leavesAnother (s : Parties) (a : ServerAct) (h : leavesAnother s a = true) :
    s.CreatesAfterLoop a ∧ s.SettlesInTime a ∧ s.LeavesAnOwner a := by
  refine ⟨?_, ?_, ?_⟩
  · cases a with
    | handler k =>
      intro r random hpc _
      simp only [leavesAnother, createsWaiting, hpc] at h
      split at h
      · next hw => rw [hw]; trivial
      · cases h
    | _ => trivial
  · cases a with
    | thread r input =>
      cases input with
      | game act => cases h
      | _ => trivial
    | _ => trivial
  · cases a with
    | thread r input =>
      intro ready hpc _
      unfold leavesAnother at h
      split at h
      · next he => cases he
      · cases h
      · next he =>
        cases he
        rw [hpc] at h
        exact of_decide_eq_true h
      · next hno => exact absurd rfl (hno r input)
    | _ => trivial

/-- Client 0 opens room 0, client 1 joins, both are let in, and client 0 leaves. -/
private def ownerLeaves : List ServerAct :=
  .accept 0 :: asks 0 ['3', '\n'] ++ List.replicate 4 (.handler 0) ++
    (.accept 1 :: asks 1 ['4', ' ', '0', '\n']) ++ List.replicate 3 (.handler 1) ++
    List.replicate 4 (.thread 0 .nothing) ++
    [.thread 0 (.ready [0]), .thread 0 (.read (.line ['6', '\n']))] ++
    List.replicate 3 (.thread 0 .nothing)

/-- The second player becomes the owner. -/
theorem owner_follows :
    ∃ s t out, Run Step start s ∧ s.step (.thread 0 .nothing) = some (t, out) ∧
      (t.thread 0).owner = 1 ∧ ((t.thread 0).used 1).isSome := by
  have h : (playActs (guarded leavesAnother next) start ownerLeaves).bind (fun s ↦
      (s.step (.thread 0 .nothing)).map fun p ↦ ((match (s.thread 0).pc with
        | .leaveOwner ready i => some (ready, i)
        | _ => none), (s.thread 0).owner, (p.1.thread 0).owner)) = some (some ([0], 0), 0, 1) := by
    decide +kernel
  obtain ⟨s, hs, h⟩ := Option.bind_eq_some_iff.mp h
  obtain ⟨⟨t, out⟩, ht, he⟩ := Option.map_eq_some_iff.mp h
  simp only [Prod.mk.injEq] at he
  obtain ⟨hpc, howner, hnew⟩ := he
  have hrun : RunWith Step _ start s := runWith_of_playActs ok_of_leavesAnother hs
  have hpc' : (s.thread 0).pc = .leaveOwner [0] (s.thread 0).owner := by
    rw [howner]
    split at hpc
    · next ready i he =>
      cases hpc
      exact he
    · cases hpc
  obtain ⟨-, k, hu, -⟩ := (owner_seated hrun 0).handed _ _ t out hpc' ht
  rw [hnew] at hu
  exact ⟨s, t, out, hrun.mono fun _ _ _ ↦ True.intro, ht, hnew, by rw [hu]; rfl⟩

/-! ### An owner that leaves while a join is pending -/

/-- Client 0 opens room 0 and is let in. It leaves while client 1 is in the room and has not been
let in. -/
private def leavesPending : List ServerAct :=
  .accept 0 :: asks 0 ['3', '\n'] ++ List.replicate 4 (.handler 0) ++
    List.replicate 4 (.thread 0 .nothing) ++
    [.thread 0 (.ready [0]), .thread 0 (.read (.line ['6', '\n']))] ++
    (.accept 1 :: asks 1 ['4', ' ', '0', '\n']) ++ List.replicate 3 (.handler 1) ++
    List.replicate 15 (.thread 0 .nothing)

/-- Client 1 is let in next, by a line `5` that names the player on an empty seat. -/
theorem pending_join_without_owner :
    ∃ s, Run Step start s ∧ (s.room 0).playerNum = 1 ∧ (s.room 0).players 1 = some 1 ∧
      (s.room 0).players (s.thread 0).owner = none ∧ ¬ s.OwnerSeated 0 := by
  have h : (playActs next start leavesPending).bind (fun s ↦
      some ((match (s.thread 0).pc with
        | .letIn => (s.room 0).newPlayer && s.state 1 == .room
        | _ => false), (s.thread 0).owner,
        [(s.thread 0).used 1, (s.room 0).players 0, (s.room 0).players 1],
        (s.room 0).playerNum)) = some (true, 0, [none, none, some 1], 1) := by
    decide +kernel
  obtain ⟨s, hs, h⟩ := Option.bind_eq_some_iff.mp h
  simp only [Option.some.injEq, Prod.mk.injEq, List.cons.injEq, and_true] at h
  obtain ⟨hpc, howner, ⟨hused, hp0, hp1⟩, hnum⟩ := h
  refine ⟨s, run_of_playActs hs, hnum, hp1, by rw [howner]; exact hp0, fun hseated ↦ ?_⟩
  have hpc' : (s.thread 0).pc = .letIn ∧ (s.room 0).newPlayer = true ∧ s.state 1 = .room := by
    split at hpc
    · next he =>
      simp only [Bool.and_eq_true, beq_iff_eq] at hpc
      exact ⟨he, hpc⟩
    · cases hpc
  obtain ⟨hin, hnew, hstate⟩ := hpc'
  have hacc : [0].foldlM (s.letInSeat 0 (s.thread 0).owner) ((s.thread 0).used, []) =
      some ((s.thread 0).used, []) := by
    simp [letInSeat, hp0]
  have := (hseated.entered hin hnew [0] 1 ((List.finRange 10).drop 2) _ 1 (by decide) hacc hp1
    hstate hused).2
  rw [howner, hp0] at this
  cases this

end Parties
end Unpv13e.Server
