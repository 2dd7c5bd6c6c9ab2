import Unpv13e.Base.Count
import Unpv13e.Server.Recycle

/-!
# Who is in a room

Library `Server`. The counter `player_num`, the flag `used` and the table `players[]` of a room
are changed by hand in five sections (`src/tcpcliserv/final_server.c:794–860`, `:950–1018`,
`:1058–1155`). When they agree, and what the thread of the room knows of `players[]`.
-/

namespace Unpv13e.Server
open Unpv13e.Base Unpv13e.Uno

/-- The counter and the flag of a room say what its table says. -/
structure RoomData.Sound (d : RoomData) : Prop where
  counted : d.playerNum = count fun i ↦ (d.players i).isSome
  bounded : d.playerNum ≤ 9
  used : d.used = true ↔ 1 ≤ d.playerNum

namespace RoomData

variable {d d' : RoomData} {k : ConnId}

/-- Nobody is in a room that is not in use. -/
theorem Sound.empty (h : d.Sound) (hu : d.used = false) (i : Seat) : d.players i = none := by
  have hnum : ¬ 1 ≤ d.playerNum := fun hn ↦ by simp [h.used.mpr hn] at hu
  have hzero : count (fun i ↦ (d.players i).isSome) = 0 := by
    have := h.counted
    omega
  simpa using count_eq_zero.mp hzero i

/-- One place more is taken. -/
theorem count_take {players : Seat → Option ConnId} {i : Seat} (hi : players i = none) (k : ConnId) :
    count (fun j ↦ (Function.update players i (some k) j).isSome) =
      count (fun j ↦ (players j).isSome) + 1 := by
  apply count_gain i
  · simp [hi]
  · simp
  · intro j hj
    simp [hj]

/-- One place less is taken. -/
theorem count_clear {players : Seat → Option ConnId} {i : Seat} (hi : (players i).isSome) :
    count (fun j ↦ (players j).isSome) =
      count (fun j ↦ (Function.update players i none j).isSome) + 1 := by
  apply count_lose i
  · exact hi
  · simp
  · intro j hj
    simp [hj]

/-- A join puts the player on a free place. -/
theorem exists_of_join (h : d.join k = some d') :
    ∃ i, d.players i = none ∧ d' = { d with
      playerNum := d.playerNum + 1
      players := Function.update d.players i (some k)
      newPlayer := true } := by
  unfold join at h
  split at h
  · cases h
  · next i hi =>
    cases h
    have := List.find?_some hi
    exact ⟨i, by simpa using this, rfl⟩

/-- A room that is not full has a free place before the last, and a join takes it. -/
theorem Sound.exists_join (h : d.Sound) (hn : d.playerNum < 9) (k : ConnId) :
    ∃ i : Seat, i.val ≤ 8 ∧ d.players i = none ∧ d.join k = some { d with
      playerNum := d.playerNum + 1
      players := Function.update d.players i (some k)
      newPlayer := true } := by
  -- the first nine places are not all taken
  have hfree : ∃ i : Seat, i.val ≤ 8 ∧ d.players i = none := by
    by_contra hall
    push Not at hall
    have hnine : 9 ≤ count fun i ↦ (d.players i).isSome := by
      have h9 : count (fun i : Seat ↦ i.val ≤ 8) = 9 := by decide
      rw [← h9]
      apply count_le
      intro i hi
      exact Option.isSome_iff_ne_none.mpr (hall i hi)
    have := h.counted
    omega
  obtain ⟨j, hj, hnone⟩ := hfree
  cases hfind : (List.finRange 10).find? fun i ↦ d.players i = none with
  | none =>
    have := List.find?_eq_none.mp hfind j (List.mem_finRange j)
    simp [hnone] at this
  | some i =>
    refine ⟨i, ?_, by simpa using List.find?_some hfind, by unfold join; rw [hfind]⟩
    obtain ⟨-, n, hlt, hget, hbefore⟩ := List.find?_eq_some_iff_getElem.mp hfind
    rw [List.getElem_finRange] at hget
    -- the place found comes no later than the free one
    by_contra hlate
    have hin : n = i.val := by
      have := congrArg Fin.val hget
      simpa using this
    have := hbefore j.val (by omega)
    simp [hnone] at this

/-- A join leaves a room sound. -/
theorem Sound.join (h : d.Sound) (hu : d.used = true) (hn : d.playerNum < 9)
    (hd : d.join k = some d') : d'.Sound := by
  obtain ⟨i, hi, rfl⟩ := exists_of_join hd
  have hpos := h.used.mp hu
  refine ⟨?_, ?_, ?_⟩
  · dsimp only
    rw [count_take hi k, h.counted]
    push_cast
    rfl
  · dsimp only
    omega
  · refine iff_of_true hu ?_
    dsimp only
    omega

/-- A room created anew is sound. -/
theorem Sound.create (h : d.Sound) (hu : d.used = false) (k : ConnId) (random : Bool) :
    RoomData.Sound { d with
      used := true, playerNum := 1, random := random,
      players := Function.update d.players 0 (some k), inGame := false, newPlayer := true } := by
  have hzero : count (fun i ↦ (d.players i).isSome) = 0 := by
    rw [count_eq_zero]
    intro i
    simp [h.empty hu i]
  refine ⟨?_, (by decide : (1 : Int) ≤ 9), iff_of_true rfl (le_refl 1)⟩
  dsimp only
  rw [count_take (h.empty hu 0) k, hzero]
  rfl

/-- A room is sound after a player was taken out. -/
theorem Sound.takeOut {i : Seat} (h : d.Sound) (hi : (d.players i).isSome) :
    RoomData.Sound { d with
      players := Function.update d.players i none
      playerNum := d.playerNum - 1
      used := if d.playerNum - 1 = 0 then false else d.used } := by
  have hless := count_clear hi
  have hnum := h.counted
  have hbound := h.bounded
  have hused : d.used = true := h.used.mpr (by omega)
  refine ⟨?_, ?_, ?_⟩
  · dsimp only
    omega
  · dsimp only
    omega
  · dsimp only
    split
    · next hzero => exact iff_of_false Bool.false_ne_true (by omega)
    · next hpos => exact iff_of_true hused (by omega)

/-- An empty room is sound. -/
theorem sound_empty (newPlayer inGame random : Bool) :
    RoomData.Sound ⟨newPlayer, 0, fun _ ↦ none, false, inGame, random⟩ := by
  refine ⟨?_, (by decide : (0 : Int) ≤ 9),
    iff_of_false Bool.false_ne_true (by decide : ¬ (1 : Int) ≤ 0)⟩
  have hzero : count (fun i : Seat ↦ ((fun _ ↦ none : Seat → Option ConnId) i).isSome) = 0 := by
    rw [count_eq_zero]
    simp
  simp only [hzero]
  rfl

end RoomData

/-! ### What the thread knows of the room -/

/-- The thread's `used[]` is a part of `players[]`, except perhaps at the seats of `free`. -/
def Listed (used players : Seat → Option ConnId) (free : Seat → Prop) : Prop :=
  ∀ i k, ¬ free i → used i = some k → players i = some k

/-- What the thread knows of `players[]` at each place of its loop. A seat that is taken out may
have been given to somebody else before the thread forgets it. -/
def Thread.Knows (t : Thread) (players : Seat → Option ConnId) (working : Bool) : Prop :=
  match t.pc with
  | .loopTest => t.alreadyPlay = false → working = true → Listed t.used players fun _ ↦ False
  | .letIn => Listed t.used players fun _ ↦ False
  | .select => Listed t.used players fun _ ↦ False
  | .scan _ _ => Listed t.used players fun _ ↦ False
  | .leaveState _ i _ => Listed t.used players (fun _ ↦ False) ∧ (t.used i).isSome
  | .leaveLock _ i => Listed t.used players (fun _ ↦ False) ∧ (t.used i).isSome
  | .leaveTest _ i => Listed t.used players (· = i)
  | .leaveOwner _ i => Listed t.used players (· = i)
  | .startTest _ _ => Listed t.used players fun _ ↦ False
  | .gameLock => Listed t.used players fun _ ↦ False
  | .gameOpen => Listed t.used players fun _ ↦ False
  | .game _ _ _ => Listed t.used players fun _ ↦ False
  | .resetLock => Listed t.used players fun _ ↦ False
  | _ => True

/-- A place that is taken leaves the list correct. -/
theorem Listed.take {used players : Seat → Option ConnId} {free : Seat → Prop} {i : Seat}
    (h : Listed used players free) (hi : players i = none) (k : ConnId) :
    Listed used (Function.update players i (some k)) free := by
  intro j c hj hu
  have hne : j ≠ i := by
    rintro rfl
    cases hi.symm.trans (h j c hj hu)
  rw [Function.update_of_ne hne]
  exact h j c hj hu

/-- A place that is cleared leaves the list correct elsewhere. -/
theorem Listed.clear {used players : Seat → Option ConnId} {i : Seat}
    (h : Listed used players fun _ ↦ False) : Listed used (Function.update players i none) (· = i) := by
  intro j c hj hu
  rw [Function.update_of_ne hj]
  exact h j c not_false hu

/-- A seat that is forgotten needs no exception. -/
theorem Listed.forget {used players : Seat → Option ConnId} {i : Seat}
    (h : Listed used players (· = i)) :
    Listed (Function.update used i none) players fun _ ↦ False := by
  intro j c _ hu
  by_cases hj : j = i
  · subst hj
    simp at hu
  · rw [Function.update_of_ne hj] at hu
    exact h j c hj hu

/-- What the thread knows stays true when a free place is taken. -/
theorem Thread.Knows.take {t : Thread} {players : Seat → Option ConnId} {working : Bool} {i : Seat}
    (h : t.Knows players working) (hi : players i = none) (k : ConnId) :
    t.Knows (Function.update players i (some k)) working := by
  unfold Thread.Knows at h ⊢
  cases hpc : t.pc with
  | loopTest =>
    rw [hpc] at h
    exact fun ha hw ↦ (h ha hw).take hi k
  | letIn => rw [hpc] at h; exact h.take hi k
  | select => rw [hpc] at h; exact h.take hi k
  | scan => rw [hpc] at h; exact h.take hi k
  | leaveState => rw [hpc] at h; exact ⟨h.1.take hi k, h.2⟩
  | leaveLock => rw [hpc] at h; exact ⟨h.1.take hi k, h.2⟩
  | leaveTest => rw [hpc] at h; exact h.take hi k
  | leaveOwner => rw [hpc] at h; exact h.take hi k
  | startTest => rw [hpc] at h; exact h.take hi k
  | gameLock => rw [hpc] at h; exact h.take hi k
  | gameOpen => rw [hpc] at h; exact h.take hi k
  | game => rw [hpc] at h; exact h.take hi k
  | resetLock => rw [hpc] at h; exact h.take hi k
  | _ => trivial

/-- Off the test of its inner loop the thread does not depend on `room_working`. -/
theorem Thread.Knows.awaken {t : Thread} {players : Seat → Option ConnId} {working : Bool}
    (h : t.Knows players working)
    (hoff : match t.pc with
      | .loopTest => t.alreadyPlay = true
      | _ => True) : t.Knows players true := by
  unfold Thread.Knows at h ⊢
  cases hpc : t.pc with
  | loopTest =>
    rw [hpc] at hoff
    intro ha
    rw [hoff] at ha
    cases ha
  | _ =>
    rw [hpc] at h
    exact h

namespace Parties

/-- No room is created while its thread, having found it left by everybody, is at the test of
its inner loop. -/
def CreatesOffLoop (s : Parties) : ServerAct → Prop
  | .handler k => ∀ r random, (s.handler k).pc = .create r random → (s.room r).used = false →
      match (s.thread r).pc with
      | .loopTest => (s.thread r).alreadyPlay = true
      | _ => True
  | _ => True

/-- The room is sound, and its thread knows who is in it. -/
structure Occupied (s : Parties) (r : RoomId) : Prop where
  sound : (s.room r).Sound
  knows : (s.thread r).Knows (s.room r).players (s.roomWorking r)

/-- Whoever is let in is in the room. -/
theorem letInSeat_listed {s : Parties} {r : RoomId} {owner : Seat}
    {acc acc' : (Seat → Option ConnId) × List Sent} {i : Seat}
    (h : s.letInSeat r owner acc i = some acc')
    (hl : Listed acc.1 (s.room r).players fun _ ↦ False) :
    Listed acc'.1 (s.room r).players fun _ ↦ False := by
  unfold letInSeat at h
  split at h
  · cases h
    exact hl
  next k hk =>
  split at h
  · obtain ⟨line, -, h⟩ := Option.bind_eq_some_iff.mp h
    cases h
    intro j c hj hu
    dsimp only at hu
    by_cases hji : j = i
    · subst hji
      rw [Function.update_self] at hu
      cases hu
      exact hk
    · rw [Function.update_of_ne hji] at hu
      exact hl j c hj hu
  · cases h
    exact hl

/-- Whoever has been let in is in the room. -/
theorem letIn_listed {s : Parties} {r : RoomId} {owner : Seat} {is : List Seat}
    {acc acc' : (Seat → Option ConnId) × List Sent}
    (h : is.foldlM (s.letInSeat r owner) acc = some acc')
    (hl : Listed acc.1 (s.room r).players fun _ ↦ False) :
    Listed acc'.1 (s.room r).players fun _ ↦ False := by
  induction is generalizing acc with
  | nil =>
    cases h
    exact hl
  | cons i is ih =>
    rw [List.foldlM_cons] at h
    obtain ⟨mid, hmid, h⟩ := Option.bind_eq_some_iff.mp h
    exact ih h (letInSeat_listed hmid hl)

/-! ### Steps -/

/-- The step of a thread keeps its own room sound. -/
private theorem thread_occupied {s t : Parties} {r : RoomId} {input : Input} {out : List Sent}
    (h : ThreadDoes s r input t out) (hs : s.Occupied r) : t.Occupied r := by
  obtain ⟨hsound, hknows⟩ := hs
  unfold Thread.Knows at hknows
  cases h with
  | begin => exact ⟨hsound, by simp [Thread.Knows, setThread]⟩
  | load => exact ⟨hsound, by simp [Thread.Knows, setThread, Listed]⟩
  | loop input hpc hw ha =>
    rw [hpc] at hknows
    refine ⟨hsound, ?_⟩
    simpa [Thread.Knows, setThread] using hknows ha hw
  | leaveLoop => exact ⟨hsound, by simp [Thread.Knows, setThread]⟩
  | letIn input acc hpc hnew hacc =>
    rw [hpc] at hknows
    refine ⟨?_, ?_⟩
    · simpa [setThread, setRoom] using (⟨hsound.counted, hsound.bounded, hsound.used⟩ :
        RoomData.Sound { s.room r with newPlayer := false })
    · simpa [Thread.Knows, setThread, setRoom] using letIn_listed hacc hknows
  | nobodyNew input hpc =>
    rw [hpc] at hknows
    exact ⟨hsound, by simpa [Thread.Knows, setThread] using hknows⟩
  | select seats hpc =>
    rw [hpc] at hknows
    exact ⟨hsound, by simpa [Thread.Knows, setThread] using hknows⟩
  | pass ready i input hpc =>
    rw [hpc] at hknows
    exact ⟨hsound, by simpa [Thread.Knows, setThread] using hknows⟩
  | scanned ready i input hpc =>
    rw [hpc] at hknows
    refine ⟨hsound, ?_⟩
    simp only [Thread.Knows, setThread, Function.update_self]
    exact fun _ _ ↦ hknows
  | read ready i k event hpc hu hi =>
    rw [hpc] at hknows
    refine ⟨hsound, ?_⟩
    have hsome : ((s.thread r).used i).isSome := by simp [hu]
    simp only [Thread.Knows, setThread, Function.update_self]
    rcases RoomPc.afterRead_cases ready i event with ⟨state, -, he⟩ | ⟨l, -, -, he⟩ | he
    · rw [he]
      exact ⟨hknows, hsome⟩
    · rw [he]
      exact hknows
    · rw [he]
      exact hknows
  | leaveState input ready i state k hpc hu =>
    rw [hpc] at hknows
    exact ⟨hsound, by simpa [Thread.Knows, setThread, setState] using hknows⟩
  | takeOut input ready i hpc =>
    rw [hpc] at hknows
    obtain ⟨hlist, hused⟩ := hknows
    obtain ⟨k, hk⟩ := Option.isSome_iff_exists.mp hused
    have htaken : ((s.room r).players i).isSome := by simp [hlist i k not_false hk]
    have hout := hsound.takeOut htaken
    unfold takeOut
    dsimp only
    split
    · next hzero =>
      rw [if_pos hzero] at hout
      refine ⟨?_, ?_⟩
      · simpa [setThread, setRoom, setRoomWorking] using hout
      · simpa [Thread.Knows, setThread, setRoom, setRoomWorking] using hlist.clear
    · next hpos =>
      rw [if_neg hpos] at hout
      refine ⟨?_, ?_⟩
      · simpa [setThread, setRoom] using hout
      · simpa [Thread.Knows, setThread, setRoom] using hlist.clear
  | leaveTest input ready i hpc =>
    rw [hpc] at hknows
    refine ⟨hsound, ?_⟩
    by_cases hw : s.roomWorking r = true
    · simpa [Thread.Knows, setThread, hw] using hknows
    · simp [Thread.Knows, setThread, hw]
  | leaveOwner input ready i t out hpc h =>
    rw [hpc] at hknows
    rw [(leaveOwner_eq h).1]
    exact ⟨hsound, by simpa [Thread.Knows, setThread] using hknows.forget⟩
  | tooFew input ready i hpc =>
    rw [hpc] at hknows
    exact ⟨hsound, by simpa [Thread.Knows, setThread] using hknows⟩
  | start input ready i hpc =>
    rw [hpc] at hknows
    exact ⟨hsound, by simpa [Thread.Knows, setThread] using hknows⟩
  | gameLock input hpc =>
    rw [hpc] at hknows
    refine ⟨?_, by simpa [Thread.Knows, setThread, setRoom] using hknows⟩
    simpa [setThread, setRoom] using (⟨hsound.counted, hsound.bounded, hsound.used⟩ :
      RoomData.Sound { s.room r with inGame := true })
  | gameOpen rand draw g hpc =>
    rw [hpc] at hknows
    exact ⟨hsound, by simpa [Thread.Knows, setThread] using hknows⟩
  | perform input g done todo e hpc =>
    rw [hpc] at hknows
    cases e with
    | send c line => exact ⟨hsound, by simpa [perform, Thread.Knows, setThread] using hknows⟩
    | setState c state =>
      exact ⟨hsound, by simpa [perform, Thread.Knows, setThread, setState] using hknows⟩
  | ended input g done hpc =>
    rw [hpc] at hknows
    exact ⟨hsound, by simpa [Thread.Knows, setThread] using hknows⟩
  | act g g' done a hpc =>
    rw [hpc] at hknows
    exact ⟨hsound, by simpa [Thread.Knows, setThread] using hknows⟩
  | reset input hpc =>
    refine ⟨?_, ?_⟩
    · simpa [reset, setThread, setRoom, setRoomWorking] using
        RoomData.sound_empty (s.room r).newPlayer false false
    · simp [reset, Thread.Knows, setThread, setRoomWorking]
  | finishRandom =>
    refine ⟨?_, by simp [Thread.Knows, setThread]⟩
    simpa [setThread, setRoom] using (⟨hsound.counted, hsound.bounded, hsound.used⟩ :
      RoomData.Sound { s.room r with random := false })
  | finishNum => exact ⟨hsound, by simp [Thread.Knows, setThread]⟩

private theorem Occupied.of_eq {s t : Parties} {r : RoomId} (hs : s.Occupied r)
    (hroom : t.room r = s.room r) (hthread : t.thread r = s.thread r)
    (hworking : t.roomWorking r = s.roomWorking r) : t.Occupied r := by
  refine ⟨?_, ?_⟩
  · rw [hroom]
    exact hs.sound
  · rw [hroom, hthread, hworking]
    exact hs.knows

private theorem handler_occupied {s t : Parties} {k : ConnId} {r : RoomId} {out : List Sent}
    (hok : s.CreatesOffLoop (.handler k)) (h : HandlerDoes s k t out) (hs : s.Occupied r) :
    t.Occupied r := by
  cases h with
  | join q d hpc hu hg hn hd =>
    by_cases hq : r = q
    · subst hq
      have hd' := hs.sound.join hu hn hd
      obtain ⟨i, hi, rfl⟩ := RoomData.exists_of_join hd
      refine ⟨?_, ?_⟩
      · simpa [setRoom, setHandler] using hd'
      · simpa [setRoom, setHandler] using hs.knows.take hi _
    · exact hs.of_eq (by simp [setRoom, setHandler, hq]) rfl rfl
  | create q random hpc hu =>
    by_cases hq : r = q
    · subst hq
      have hknows := (hs.knows.take (hs.sound.empty hu 0) (s.handler k).playerIndex).awaken
        (hok r random hpc hu)
      refine ⟨?_, ?_⟩
      · simpa [createRoom, setRoom, setRoomWorking, setHandler] using
          hs.sound.create hu (s.handler k).playerIndex random
      · simpa [createRoom, setRoom, setRoomWorking, setHandler] using hknows
    · refine hs.of_eq ?_ rfl ?_
      · simp [createRoom, setRoom, setRoomWorking, setHandler, hq]
      · simp [createRoom, setRoom, setRoomWorking, setHandler, hq]
  | _ => exact hs.of_eq rfl rfl rfl

/-- A step keeps every room sound. -/
theorem step_occupied {s t : Parties} {a : ServerAct} (hok : s.CreatesOffLoop a)
    (h : s.Step a t) (hs : ∀ r, s.Occupied r) (r : RoomId) : t.Occupied r := by
  obtain ⟨out, h⟩ := h.exists_out
  cases a with
  | accept k =>
    simp only [step] at h
    split at h
    · split at h
      · cases h; exact (hs r).of_eq rfl rfl rfl
      · cases h
    · cases h
  | read k event =>
    simp only [step] at h
    split at h
    · split at h
      · split at h
        · cases h; exact (hs r).of_eq rfl rfl rfl
        · obtain ⟨name, main, rfl, -⟩ := request_does h
          exact (hs r).of_eq rfl rfl rfl
      · cases h
    · cases h
  | main =>
    simp only [step, mainNext] at h
    split at h
    · cases h
    · cases h; exact (hs r).of_eq rfl rfl rfl
    · cases h; exact (hs r).of_eq rfl rfl rfl
    · cases h; exact (hs r).of_eq rfl rfl rfl
  | handler k => exact handler_occupied hok (handlerNext_does h) (hs r)
  | thread q input =>
    by_cases hq : r = q
    · subst hq
      exact thread_occupied (threadNext_does h) (hs r)
    · obtain ⟨h1, h2, -, h4⟩ := thread_other (threadNext_does h) hq
      exact (hs r).of_eq h2 h1 h4

/-- Before the first connection every room is sound. -/
theorem start_occupied (r : RoomId) : start.Occupied r :=
  ⟨RoomData.sound_empty false false false, trivial⟩

/-- In every run in which no room is created while its thread is at the test of its inner loop,
the counter of every room is the number of its players and at most nine, a room is in use when
somebody is in it, and a join finds a free place, which is not the last. -/
theorem occupancy_of_createsOffLoop {s : Parties} (h : RunWith Step CreatesOffLoop start s)
    (r : RoomId) :
    (s.room r).playerNum = count (fun i ↦ (s.room r).players i ≠ none) ∧
      (s.room r).playerNum ≤ 9 ∧ ((s.room r).used = true ↔ 1 ≤ (s.room r).playerNum) ∧
      ((s.room r).playerNum < 9 → ∀ k, ∃ i : Seat, i.val ≤ 8 ∧ (s.room r).players i = none ∧
        (s.room r).join k = some { s.room r with
          playerNum := (s.room r).playerNum + 1
          players := Function.update (s.room r).players i (some k)
          newPlayer := true }) := by
  have hs : ∀ q, s.Occupied q :=
    h.preserves (fun s a t hi hok hs ↦ step_occupied hok hs hi) start_occupied
  obtain ⟨hsound, -⟩ := hs r
  refine ⟨?_, hsound.bounded, hsound.used, fun hn k ↦ hsound.exists_join hn k⟩
  rw [hsound.counted]
  congr 1
  apply count_congr
  intro i
  exact Option.isSome_iff_ne_none

/-- A step that creates no room, or one whose thread is elsewhere than at the loop test. -/
private def createsElsewhere : Parties → ServerAct → Bool
  | s, .handler k =>
    match (s.handler k).pc with
    | .create r _ =>
      match (s.thread r).pc with
      | .loopTest => false
      | _ => true
    | _ => true
  | _, _ => true

private theorem offLoop_of_createsElsewhere (s : Parties) (a : ServerAct)
    (h : createsElsewhere s a = true) : s.CreatesOffLoop a := by
  cases a with
  | handler k =>
    intro r random hpc _
    simp only [createsElsewhere, hpc] at h
    cases hp : (s.thread r).pc with
    | loopTest => simp [hp] at h
    | _ => trivial
  | _ => trivial

/-- A line that asks `main` for a room is read and handed over. -/
def asks (k : ConnId) (l : Text) : List ServerAct :=
  [.read k (.line l), .main, .main, .main]

/-- Client 0 opens room 0: one player is in it. -/
theorem occupancy_of_one :
    ∃ s, Run Step start s ∧ (s.room 0).used = true ∧
      (s.room 0).playerNum = count (fun i ↦ (s.room 0).players i ≠ none) := by
  have h : (playActs (guarded createsElsewhere next) start
      (.accept 0 :: asks 0 ['3', '\n'] ++ List.replicate 4 (.handler 0))).bind (fun s ↦
      some (s.room 0).used) = some true := by decide +kernel
  obtain ⟨s, hs, hu⟩ := Option.bind_eq_some_iff.mp h
  have hrun : RunWith Step CreatesOffLoop start s := runWith_of_playActs offLoop_of_createsElsewhere hs
  exact ⟨s, hrun.mono fun _ _ _ ↦ True.intro, by simpa using hu,
    (occupancy_of_createsOffLoop hrun 0).1⟩

/-! ### Two creations that come too late -/

/-- Client 2 opens room 0 and leaves it. Client 1 creates it anew before the thread is past the
test of its inner loop, so the thread goes on with client 2 in `used[0]`. -/
private def staleSeatZero : List ServerAct :=
  .accept 2 :: asks 2 ['3', '\n'] ++ List.replicate 5 (.handler 2) ++
    List.replicate 4 (.thread 0 .nothing) ++
    [.thread 0 (.ready [0]), .thread 0 (.read (.line ['6', '\n']))] ++
    List.replicate 3 (.thread 0 .nothing) ++
    (.accept 1 :: asks 1 ['3', '\n']) ++ List.replicate 5 (.handler 1) ++
    List.replicate 2 (.thread 0 .nothing)

/-- Clients 0 and 3 share room 1 and leave it. Client 2 creates it anew before the thread is past
the test, so the thread goes on with client 3 in `used[1]`. -/
private def staleSeatOne : List ServerAct :=
  .accept 0 :: asks 0 ['3', '\n'] ++ List.replicate 6 (.handler 0) ++
    (.accept 3 :: asks 3 ['4', ' ', '1', '\n']) ++ List.replicate 4 (.handler 3) ++
    List.replicate 4 (.thread 1 .nothing) ++
    [.thread 1 (.ready [0, 1]), .thread 1 (.read (.line ['6', '\n']))] ++
    List.replicate 4 (.thread 1 .nothing) ++ [.thread 1 (.read (.line ['6', '\n']))] ++
    List.replicate 3 (.thread 1 .nothing) ++
    asks 2 ['3', '\n'] ++ List.replicate 5 (.handler 2)

/-- The thread of room 0 reads a line `6` of client 2 and puts it back into the lobby. The thread
of room 1 does not let it in, and takes client 3 out a second time. -/
private def takesOutTwice : List ServerAct :=
  [.thread 0 (.ready [0]), .thread 0 (.read (.line ['6', '\n'])), .thread 0 .nothing,
    .thread 1 .nothing, .thread 1 .nothing, .thread 1 (.ready [1]), .thread 1 .nothing,
    .thread 1 (.read (.line ['6', '\n'])), .thread 1 .nothing, .thread 1 .nothing]

/-- Room 1 is not in use and counts nobody, but client 2 is in it. -/
theorem late_creations_miscount :
    ∃ s, Run Step start s ∧ (s.room 1).playerNum = 0 ∧ (s.room 1).used = false ∧
      (s.room 1).players 0 = some 2 ∧
      (s.room 1).playerNum ≠ count (fun i ↦ (s.room 1).players i ≠ none) := by
  have h : (playActs next start (staleSeatZero ++ (staleSeatOne ++ takesOutTwice))).bind (fun s ↦
      some ((s.room 1).playerNum, (s.room 1).used, (s.room 1).players 0)) =
        some (0, false, some 2) := by
    decide +kernel
  obtain ⟨s, hs, h⟩ := Option.bind_eq_some_iff.mp h
  simp only [Option.some.injEq, Prod.mk.injEq] at h
  obtain ⟨h1, h2, h3⟩ := h
  refine ⟨s, run_of_playActs hs, h1, h2, h3, ?_⟩
  have hpos : 0 < count fun i ↦ (s.room 1).players i ≠ none := by
    rw [count_pos]
    exact ⟨0, by simp [h3]⟩
  rw [h1]
  omega

end Parties
end Unpv13e.Server
