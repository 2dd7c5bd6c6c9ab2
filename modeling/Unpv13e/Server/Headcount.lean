import Unpv13e.Server.Owner
import Unpv13e.Uno.Turns

/-!
# The number of players of a game

Library `Server`. The thread of a room keeps the number of its players in a local variable, taken
from the shared counter when somebody is let in or taken out
(`src/tcpcliserv/final_server.c:739–742`, `:810–816`), and calls `GameStart` with it. When it is
the number of the players that have been let in.
-/

namespace Unpv13e.Server
open Unpv13e.Base Unpv13e.Uno

/-- Every player has been let in, or the mark for new players is set. -/
def Thread.Marked (t : Thread) (players : Seat → Option ConnId) (newPlayer : Bool) : Prop :=
  ∀ j, (players j).isSome → (t.used j).isSome ∨ newPlayer = true

/-- The thread's counter is the number of the players it has let in. -/
def Thread.Exact (t : Thread) : Prop := t.playerNum = count fun i ↦ (t.used i).isSome

/-- Nobody has been let in yet, or somebody waits to be. -/
def Thread.Renews (t : Thread) (players : Seat → Option ConnId) : Prop :=
  (∀ j, t.used j = none) ∨ ∃ j, (players j).isSome ∧ t.used j = none

/-- A turn of the inner loop, with the seats of `ready` from `m` on to come. The counter is exact,
or there is nobody to read from before it is renewed. -/
structure Thread.Rounds (t : Thread) (players : Seat → Option ConnId) (newPlayer : Bool)
    (ready : List Seat) (m : Nat) : Prop where
  live : t.alreadyPlay = false
  marked : t.Marked players newPlayer
  counted : t.Exact ∨ t.Renews players ∧ ∀ j ∈ ready, m ≤ j.val → t.used j = none

/-- A turn of the inner loop in which a line has been read. -/
structure Thread.Counted (t : Thread) (players : Seat → Option ConnId) (newPlayer : Bool) :
    Prop where
  live : t.alreadyPlay = false
  marked : t.Marked players newPlayer
  exact : t.Exact

/-- `used[i] = -1` -/
def Thread.forget (t : Thread) (i : Seat) : Thread :=
  { t with used := Function.update t.used i none }

/-- What the thread's counter says at each place of its loop. -/
def Thread.Counts (t : Thread) (players : Seat → Option ConnId) (newPlayer working : Bool) : Prop :=
  match t.pc with
  | .waiting => working = true → newPlayer = true
  | .load => working = true → newPlayer = true
  | .loopTest =>
    working = true → if t.alreadyPlay = true then newPlayer = true
      else t.Rounds players newPlayer [] 0
  | .letIn => t.Rounds players newPlayer [] 0
  | .select => t.Rounds players newPlayer (List.finRange 10) 0
  | .scan ready m => t.Rounds players newPlayer ready m
  | .leaveState _ _ _ => t.Counted players newPlayer
  | .leaveLock _ _ => t.Counted players newPlayer
  | .leaveTest ready i => (t.forget i).Rounds players newPlayer ready (i.val + 1)
  | .leaveOwner ready i => (t.forget i).Rounds players newPlayer ready (i.val + 1)
  | .startTest _ _ => t.Counted players newPlayer
  | .gameLock => t.Exact ∧ 2 ≤ t.playerNum
  | .gameOpen => t.Exact ∧ 2 ≤ t.playerNum
  | .game g _ _ => ∃ seats, Turning t.used seats g
  | .resetLock => True
  | .finishRandom => working = true → newPlayer = true
  | .finishNum => working = true → newPlayer = true

namespace Thread

variable {t : Thread} {players players' : Seat → Option ConnId} {newPlayer working : Bool}
  {ready ready' : List Seat} {m m' : Nat}

/-- Fewer seats to come. -/
theorem Rounds.narrow (h : t.Rounds players newPlayer ready m)
    (hless : ∀ j ∈ ready', m' ≤ j.val → j ∈ ready ∧ m ≤ j.val) :
    t.Rounds players newPlayer ready' m' := by
  refine ⟨h.live, h.marked, ?_⟩
  rcases h.counted with he | ⟨hnew, hnone⟩
  · exact .inl he
  · refine .inr ⟨hnew, fun j hj hm ↦ ?_⟩
    obtain ⟨hin, hle⟩ := hless j hj hm
    exact hnone j hin hle

/-- An exact counter needs no seats to come. -/
theorem Counted.rounds (h : t.Counted players newPlayer) (ready : List Seat) (m : Nat) :
    t.Rounds players newPlayer ready m := ⟨h.live, h.marked, .inl h.exact⟩

/-- When there is somebody to read from, the counter is exact. -/
theorem Rounds.exact (h : t.Rounds players newPlayer ready m) {i : Seat} (hi : i ∈ ready)
    (hm : m ≤ i.val) (hu : (t.used i).isSome) : t.Counted players newPlayer := by
  refine ⟨h.live, h.marked, ?_⟩
  rcases h.counted with he | ⟨-, hnone⟩
  · exact he
  · rw [hnone i hi hm] at hu
    cases hu

/-- When nobody waits to be let in, the counter is exact, or nobody is there. -/
theorem Rounds.settled (h : t.Rounds players newPlayer ready m)
    (hall : ∀ j, (players j).isSome → (t.used j).isSome) : t.Exact ∨ ∀ j, t.used j = none := by
  rcases h.counted with he | ⟨hnone | ⟨j, hj, hu⟩, -⟩
  · exact .inl he
  · exact .inr hnone
  · have := hall j hj
    rw [hu] at this
    cases this

/-- More players, with the mark set. -/
theorem Rounds.more (h : t.Rounds players newPlayer ready m)
    (hmore : ∀ j, (players j).isSome → (players' j).isSome) : t.Rounds players' true ready m := by
  refine ⟨h.live, fun _ _ ↦ .inr rfl, ?_⟩
  rcases h.counted with he | ⟨hnone | ⟨j, hj, hu⟩, hready⟩
  · exact .inl he
  · exact .inr ⟨.inl hnone, hready⟩
  · exact .inr ⟨.inr ⟨j, hmore j hj, hu⟩, hready⟩

theorem Counted.more (h : t.Counted players newPlayer) : t.Counted players' true :=
  ⟨h.live, fun _ _ ↦ .inr rfl, h.exact⟩

/-- A join changes nothing for the counter. -/
theorem Counts.more (h : t.Counts players newPlayer working)
    (hmore : ∀ j, (players j).isSome → (players' j).isSome) : t.Counts players' true working := by
  unfold Counts at h ⊢
  cases hpc : t.pc with
  | loopTest =>
    rw [hpc] at h
    intro hw
    have := h hw
    split
    · rfl
    · next ha => rw [if_neg ha] at this; exact this.more hmore
  | letIn => rw [hpc] at h; exact h.more hmore
  | select => rw [hpc] at h; exact h.more hmore
  | scan => rw [hpc] at h; exact h.more hmore
  | leaveState => rw [hpc] at h; exact h.more
  | leaveLock => rw [hpc] at h; exact h.more
  | leaveTest => rw [hpc] at h; exact h.more hmore
  | leaveOwner => rw [hpc] at h; exact h.more hmore
  | startTest => rw [hpc] at h; exact h.more
  | gameLock => rw [hpc] at h; exact h
  | gameOpen => rw [hpc] at h; exact h
  | game => rw [hpc] at h; exact h
  | resetLock => trivial
  | _ => exact fun _ ↦ rfl

/-- The room is taken into use when the thread is past the test of its inner loop. -/
theorem Counts.awaken (h : t.Counts players true working) (hpast : match t.pc with
      | .loopTest => t.alreadyPlay = true
      | _ => True) : t.Counts players true true := by
  unfold Counts at h ⊢
  cases hpc : t.pc with
  | loopTest =>
    rw [hpc] at hpast
    intro _
    rw [if_pos hpast]
  | waiting => exact fun _ ↦ rfl
  | load => exact fun _ ↦ rfl
  | finishRandom => exact fun _ ↦ rfl
  | finishNum => exact fun _ ↦ rfl
  | _ => rw [hpc] at h; exact h

end Thread
namespace Parties

variable {s t : Parties} {k : ConnId} {r : RoomId} {input : Input} {out : List Sent}

/-- When a player is taken out of a room, everybody in it has been let in, or no other seat is to
be read from in this turn of the loop. -/
def LeavesNobodyWaiting (s : Parties) : ServerAct → Prop
  | .thread r _ => ∀ ready i, (s.thread r).pc = .leaveLock ready i →
      (∀ j, ((s.room r).players j).isSome → ((s.thread r).used j).isSome) ∨
        ∀ j ∈ ready, i < j → (s.thread r).used j = none
  | _ => True

/-! ### Letting players in -/

/-- Whoever is let in is written to. -/
private theorem letInSeat_quiet {owner : Seat} {acc acc' : (Seat → Option ConnId) × List Sent}
    {i : Seat} (h : s.letInSeat r owner acc i = some acc') (hout : acc'.2 = []) : acc' = acc := by
  unfold letInSeat at h
  split at h
  · cases h
    rfl
  split at h
  · obtain ⟨line, -, h⟩ := Option.bind_eq_some_iff.mp h
    cases h
    simp at hout
  · cases h
    rfl

/-- Lines that are written stay. -/
private theorem letIn_written {owner : Seat} {is : List Seat}
    {acc acc' : (Seat → Option ConnId) × List Sent}
    (h : is.foldlM (s.letInSeat r owner) acc = some acc') (hout : acc'.2 = []) : acc' = acc := by
  induction is generalizing acc with
  | nil =>
    cases h
    rfl
  | cons i is ih =>
    rw [List.foldlM_cons] at h
    obtain ⟨mid, hmid, h⟩ := Option.bind_eq_some_iff.mp h
    obtain rfl := ih h
    exact letInSeat_quiet hmid hout

/-- After the section that lets players in, everybody in the room has been let in, and the
thread's counter is exact unless nobody was. -/
private theorem rounds_letIn (hs : s.Disciplined) (hpc : (s.thread r).pc = .letIn)
    {acc : (Seat → Option ConnId) × List Sent}
    (hacc : (List.finRange 10).foldlM (s.letInSeat r (s.thread r).owner)
      ((s.thread r).used, []) = some acc)
    (h : (s.thread r).Rounds (s.room r).players true [] 0) :
    Thread.Rounds { s.thread r with
      pc := .select, used := acc.1,
      playerNum := if acc.2 = [] then (s.thread r).playerNum else (s.room r).playerNum }
      (s.room r).players false (List.finRange 10) 0 := by
  have hknows := (hs.occupied r).knows
  unfold Thread.Knows at hknows
  rw [hpc] at hknows
  have hall (j : Seat) (hj : ((s.room r).players j).isSome) : (acc.1 j).isSome := by
    obtain ⟨c, hc⟩ := Option.isSome_iff_exists.mp hj
    exact letIn_all hacc (List.mem_finRange j) hc (hs.state_letIn hpc hc)
  refine ⟨h.live, fun j hj ↦ .inl (hall j hj), ?_⟩
  by_cases hout : acc.2 = []
  · -- nobody was let in, so nobody waited
    have hsame := letIn_written hacc hout
    rw [hsame] at hall ⊢
    rcases h.settled hall with he | hnone
    · exact .inl he
    · exact .inr ⟨.inl hnone, fun j _ _ ↦ hnone j⟩
  · left
    unfold Thread.Exact
    dsimp only
    rw [if_neg hout, (hs.occupied r).sound.counted]
    congr 1
    apply count_congr
    intro j
    refine ⟨hall j, fun hj ↦ ?_⟩
    obtain ⟨c, hc⟩ := Option.isSome_iff_exists.mp hj
    rw [letIn_listed hacc hknows j c not_false hc]
    rfl

/-- After a player was taken out, the thread's counter is exact unless somebody waits and there
is nobody else to read from. -/
private theorem rounds_takeOut (hs : s.Disciplined) {ready : List Seat} {i : Seat}
    (hpc : (s.thread r).pc = .leaveLock ready i)
    (hok : (∀ j, ((s.room r).players j).isSome → ((s.thread r).used j).isSome) ∨
      ∀ j ∈ ready, i < j → (s.thread r).used j = none)
    (h : (s.thread r).Counted (s.room r).players newPlayer) :
    Thread.Rounds { s.thread r with
      pc := .leaveTest ready i, used := Function.update (s.thread r).used i none,
      playerNum := (s.room r).playerNum - 1 }
      (Function.update (s.room r).players i none) newPlayer ready (i.val + 1) := by
  have hknows := (hs.occupied r).knows
  unfold Thread.Knows at hknows
  rw [hpc] at hknows
  obtain ⟨hlisted, hused⟩ := hknows
  refine ⟨h.live, ?_, ?_⟩
  · intro j hj
    dsimp only
    have hji : j ≠ i := by
      rintro rfl
      simp at hj
    rw [Function.update_of_ne hji] at hj ⊢
    exact h.marked j hj
  by_cases hall : ∀ j, ((s.room r).players j).isSome → ((s.thread r).used j).isSome
  · left
    have hcount : count (fun j ↦ ((s.room r).players j).isSome) =
        count fun j ↦ ((s.thread r).used j).isSome := by
      apply count_congr
      intro j
      refine ⟨hall j, fun hj ↦ ?_⟩
      obtain ⟨c, hc⟩ := Option.isSome_iff_exists.mp hj
      rw [hlisted j c not_false hc]
      rfl
    have hless := RoomData.count_clear hused
    have hnum := (hs.occupied r).sound.counted
    unfold Thread.Exact
    dsimp only
    omega
  · -- somebody waits, and nobody else is read from
    right
    have hlast := hok.resolve_left hall
    push Not at hall
    obtain ⟨j, hj, hu⟩ := hall
    have hu' : (s.thread r).used j = none := by simpa using hu
    have hji : j ≠ i := by
      rintro rfl
      rw [hu'] at hused
      cases hused
    refine ⟨.inr ⟨j, ?_, ?_⟩, ?_⟩
    · rw [Function.update_of_ne hji]
      exact hj
    · dsimp only
      rw [Function.update_of_ne hji]
      exact hu'
    · intro j' hj' hle
      have hlt : i < j' := Fin.lt_def.mpr (by omega)
      dsimp only
      rw [Function.update_of_ne (Fin.ne_of_gt hlt)]
      exact hlast j' hj' hlt

/-! ### Steps -/

/-- The thread's counter after its step. -/
private theorem thread_counts (hsettle : s.SettlesInTime (.thread r input))
    (hok : s.LeavesNobodyWaiting (.thread r input)) (h : ThreadDoes s r input t out)
    (hs : s.Disciplined)
    (hc : (s.thread r).Counts (s.room r).players (s.room r).newPlayer (s.roomWorking r)) :
    (t.thread r).Counts (t.room r).players (t.room r).newPlayer (t.roomWorking r) := by
  unfold Thread.Counts at hc
  cases h with
  | begin input hpc hw =>
    rw [hpc] at hc
    simpa [Thread.Counts, setThread] using hc
  | load input hpc =>
    rw [hpc] at hc
    simp only [Thread.Counts, setThread, Function.update_self]
    intro hw
    rw [if_neg Bool.false_ne_true]
    exact ⟨rfl, fun _ _ ↦ .inr (hc hw), .inr ⟨.inl fun _ ↦ rfl, fun _ _ _ ↦ rfl⟩⟩
  | loop input hpc hw ha =>
    rw [hpc] at hc
    have hr := hc hw
    rw [ha, if_neg Bool.false_ne_true] at hr
    simp only [Thread.Counts, setThread, Function.update_self]
    exact ⟨hr.live, hr.marked, hr.counted⟩
  | leaveLoop input hpc hno =>
    rw [hpc] at hc
    simp only [Thread.Counts, setThread, Function.update_self]
    intro hw
    have hplay : (s.thread r).alreadyPlay = true := hno.resolve_left (by simp [hw])
    simpa [hplay] using hc hw
  | letIn input acc hpc hnew hacc =>
    rw [hpc] at hc
    rw [hnew] at hc
    simp only [Thread.Counts, setThread, setRoom, Function.update_self]
    exact rounds_letIn hs hpc hacc hc
  | nobodyNew input hpc hnew =>
    rw [hpc] at hc
    have hr : (s.thread r).Rounds (s.room r).players (s.room r).newPlayer [] 0 := hc
    simp only [Thread.Counts, setThread, Function.update_self]
    refine ⟨hr.live, hr.marked, ?_⟩
    rcases hr.settled fun j hj ↦ (hr.marked j hj).resolve_right (by simp [hnew]) with he | hnone
    · exact .inl he
    · exact .inr ⟨.inl hnone, fun j _ _ ↦ hnone j⟩
  | select seats hpc =>
    rw [hpc] at hc
    simp only [Thread.Counts, setThread, Function.update_self]
    have hr : (s.thread r).Rounds (s.room r).players (s.room r).newPlayer seats 0 :=
      Thread.Rounds.narrow hc fun j _ _ ↦ ⟨List.mem_finRange j, Nat.zero_le _⟩
    exact ⟨hr.live, hr.marked, hr.counted⟩
  | pass ready i input hpc =>
    rw [hpc] at hc
    simp only [Thread.Counts, setThread, Function.update_self]
    have hr : (s.thread r).Rounds (s.room r).players (s.room r).newPlayer ready (i + 1) :=
      Thread.Rounds.narrow hc fun j hj hm ↦ ⟨hj, by omega⟩
    exact ⟨hr.live, hr.marked, hr.counted⟩
  | scanned ready i input hpc =>
    rw [hpc] at hc
    have hr : (s.thread r).Rounds (s.room r).players (s.room r).newPlayer [] 0 :=
      Thread.Rounds.narrow hc fun j hj _ ↦ by cases hj
    simp only [Thread.Counts, setThread, Function.update_self]
    intro _
    rw [if_neg (by simp [hr.live])]
    exact ⟨hr.live, hr.marked, hr.counted⟩
  | read ready i k event hpc hu hi =>
    rw [hpc] at hc
    have hexact := Thread.Rounds.exact hc hi (le_refl _) (by rw [hu]; rfl)
    simp only [Thread.Counts, setThread, Function.update_self]
    rcases RoomPc.afterRead_cases ready i event with ⟨state, -, he⟩ | ⟨l, -, -, he⟩ | he
    · rw [he]
      exact ⟨hexact.live, hexact.marked, hexact.exact⟩
    · rw [he]
      exact ⟨hexact.live, hexact.marked, hexact.exact⟩
    · rw [he]
      exact ⟨hexact.live, hexact.marked, .inl hexact.exact⟩
  | leaveState input ready i state k hpc =>
    rw [hpc] at hc
    simp only [Thread.Counts, setThread, setState, Function.update_self]
    exact ⟨hc.live, hc.marked, hc.exact⟩
  | takeOut input ready i hpc =>
    rw [hpc] at hc
    have hr := rounds_takeOut hs hpc (hok ready i hpc) hc
    unfold takeOut
    dsimp only
    split
    · simp only [Thread.Counts, setThread, setRoom, setRoomWorking, Function.update_self]
      exact ⟨hr.live, hr.marked, hr.counted⟩
    · simp only [Thread.Counts, setThread, setRoom, Function.update_self]
      exact ⟨hr.live, hr.marked, hr.counted⟩
  | leaveTest input ready i hpc =>
    rw [hpc] at hc
    have hr : ((s.thread r).forget i).Rounds (s.room r).players (s.room r).newPlayer ready
      (i.val + 1) := hc
    by_cases hw : s.roomWorking r = true
    · simp only [Thread.Counts, setThread, Function.update_self, if_pos hw]
      exact ⟨hr.live, hr.marked, hr.counted⟩
    · simp only [Thread.Counts, setThread, Function.update_self, if_neg hw]
      exact fun hw' ↦ absurd hw' hw
  | leaveOwner input ready i t out hpc h =>
    rw [hpc] at hc
    have hr : ((s.thread r).forget i).Rounds (s.room r).players (s.room r).newPlayer ready
      (i.val + 1) := hc
    rw [(leaveOwner_eq h).1]
    simp only [Thread.Counts, setThread, Function.update_self]
    exact ⟨hr.live, hr.marked, hr.counted⟩
  | tooFew input ready i hpc =>
    rw [hpc] at hc
    simp only [Thread.Counts, setThread, Function.update_self]
    exact ⟨hc.live, hc.marked, .inl hc.exact⟩
  | start input ready i hpc hn =>
    rw [hpc] at hc
    simp only [Thread.Counts, setThread, Function.update_self]
    exact ⟨hc.exact, not_lt.mp hn⟩
  | gameLock input hpc =>
    rw [hpc] at hc
    simp only [Thread.Counts, setThread, Function.update_self]
    exact hc
  | gameOpen rand draw g hpc hg =>
    rw [hpc] at hc
    obtain ⟨hexact, htwo⟩ := hc
    simp only [Thread.Counts, setThread, Function.update_self]
    unfold Thread.Exact count at hexact
    exact run_turning hg (by omega) (by omega) RunWith.refl
  | perform input g done todo e hpc =>
    rw [hpc] at hc
    cases e with
    | send c line => simpa only [Thread.Counts, perform, setThread, Function.update_self] using hc
    | setState c state =>
      simpa only [Thread.Counts, perform, setThread, setState, Function.update_self] using hc
  | ended input g done hpc => simp [Thread.Counts, setThread]
  | act g g' done a hpc hno hg =>
    rw [hpc] at hc
    obtain ⟨seats, hturning⟩ := hc
    simp only [Thread.Counts, setThread, Function.update_self]
    exact gameStep_turning hg (hsettle g done hpc) hturning
  | reset input hpc => simp [Thread.Counts, reset, setThread, setRoomWorking]
  | finishRandom input hpc =>
    rw [hpc] at hc
    simpa [Thread.Counts, setThread, setRoom] using hc
  | finishNum input hpc =>
    rw [hpc] at hc
    simpa [Thread.Counts, setThread] using hc

private theorem handler_counts (hok : s.CreatesOffLoop (.handler k)) (h : HandlerDoes s k t out)
    (hc : ∀ r, (s.thread r).Counts (s.room r).players (s.room r).newPlayer (s.roomWorking r))
    (r : RoomId) :
    (t.thread r).Counts (t.room r).players (t.room r).newPlayer (t.roomWorking r) := by
  -- the places taken stay taken
  have taken (i : Seat) (j : Seat) (hj : ((s.room r).players j).isSome) :
      (Function.update (s.room r).players i (some (s.handler k).playerIndex) j).isSome := by
    by_cases hji : j = i
    · subst hji
      simp
    · simpa [hji] using hj
  cases h with
  | join q d hpc hu hg hn hd =>
    by_cases hq : r = q
    · subst hq
      obtain ⟨i, -, rfl⟩ := RoomData.exists_of_join hd
      simpa [setRoom, setHandler] using (hc r).more (taken i)
    · simpa [setRoom, setHandler, hq] using hc r
  | create q random hpc hu =>
    by_cases hq : r = q
    · subst hq
      have hawake := ((hc r).more (taken 0)).awaken (hok r random hpc hu)
      simpa [createRoom, setRoom, setRoomWorking, setHandler] using hawake
    · simpa [createRoom, setRoom, setRoomWorking, setHandler, hq] using hc r
  | _ => exact hc r

/-- Every connection is kept where it belongs, and every thread counts its players. -/
structure Numbered (s : Parties) : Prop where
  disciplined : s.Disciplined
  counts : ∀ r, (s.thread r).Counts (s.room r).players (s.room r).newPlayer (s.roomWorking r)

/-- Every step leaves the threads counting their players. -/
theorem step_numbered {a : ServerAct} (hcreate : s.CreatesOffLoop a) (hsettle : s.SettlesInTime a)
    (hleave : s.LeavesNobodyWaiting a) (h : s.Step a t) (hs : s.Numbered) : t.Numbered := by
  have hdis := step_disciplined hcreate hsettle h hs.disciplined
  obtain ⟨out, h⟩ := h.exists_out
  have same (hthread : t.thread = s.thread) (hroom : t.room = s.room)
      (hworking : t.roomWorking = s.roomWorking) : t.Numbered := by
    refine ⟨hdis, ?_⟩
    rw [hthread, hroom, hworking]
    exact hs.counts
  cases a with
  | accept k =>
    simp only [step] at h
    split at h
    · split at h
      · cases h; exact same rfl rfl rfl
      · cases h
    · cases h
  | read k event =>
    simp only [step] at h
    split at h
    · split at h
      · split at h
        · cases h; exact same rfl rfl rfl
        · obtain ⟨name, main, rfl, -⟩ := request_does h
          exact same rfl rfl rfl
      · cases h
    · cases h
  | main =>
    simp only [step, mainNext] at h
    split at h
    · cases h
    · cases h; exact same rfl rfl rfl
    · cases h; exact same rfl rfl rfl
    · cases h; exact same rfl rfl rfl
  | handler k => exact ⟨hdis, handler_counts hcreate (handlerNext_does h) hs.counts⟩
  | thread q input =>
    have hd := threadNext_does h
    refine ⟨hdis, fun r ↦ ?_⟩
    by_cases hq : r = q
    · subst hq
      exact thread_counts hsettle hleave hd hs.disciplined (hs.counts r)
    · obtain ⟨hthread, hroom, -, hworking⟩ := thread_other hd hq
      rw [hthread, hroom, hworking]
      exact hs.counts r

theorem start_numbered : start.Numbered :=
  ⟨start_disciplined, fun _ hw ↦ by cases hw⟩

/-! ### The call of `GameStart` -/

/-- The game that the thread of `r` starts or plays has the right number of players: at the call
of `GameStart` it is the number of the players let in, two at least; the first player is one of
them; and a departure ends the game when one seat is left. -/
structure StartsRight (s : Parties) (r : RoomId) : Prop where
  number : (s.thread r).pc = .gameOpen →
    (s.thread r).playerNum = count (fun i ↦ (s.thread r).used i ≠ none) ∧
      2 ≤ (s.thread r).playerNum
  first : (s.thread r).pc = .gameOpen → ∀ rand draw g,
    Game.gameStart s.name rand draw (s.thread r).used (s.thread r).playerNum.toNat = .ok g →
      ((s.thread r).used g.whoseRound).isSome
  last : ∀ g done todo, (s.thread r).pc = .game g done todo → g.pc ≠ .ended →
    g.playerNum = g.inGame.card ∧ ∀ env event i g', GameStep g (.recv env event) g' →
      g.pc = .scan i → Game.Departure event → (g'.pc = .ended ↔ (g.inGame.erase i).card = 1)

private theorem Numbered.startsRight (hs : s.Numbered) (r : RoomId) : s.StartsRight r := by
  have hc := hs.counts r
  unfold Thread.Counts at hc
  have hused : count (fun i ↦ ((s.thread r).used i).isSome) =
      count fun i ↦ (s.thread r).used i ≠ none := by
    apply count_congr
    intro i
    exact Option.isSome_iff_ne_none
  refine ⟨?_, ?_, ?_⟩
  · intro hpc
    rw [hpc] at hc
    rw [← hused]
    exact hc
  · intro hpc rand draw g hg
    rw [hpc] at hc
    obtain ⟨hexact, htwo⟩ := hc
    unfold Thread.Exact count at hexact
    have hplaying := gameStart_playing hg (by omega)
    have hgo : g.pc ≠ .ended := by
      rw [(gameStart_opened hg).pc]
      exact nofun
    exact (Finset.mem_filter.mp (hplaying.turn hgo)).2
  · intro g done todo hpc hgo
    rw [hpc] at hc
    obtain ⟨seats, hturning⟩ := hc
    refine ⟨?_, fun env event i g' hstep hscan hd ↦ hturning.last_player hstep hscan hd⟩
    rw [hturning.inGame]
    exact hturning.playing.seated.playerNum

/-- In every run in which no room is created while its thread is at the test of its inner loop,
nothing is settled against a seat that has left, and nobody waits to be let in when a player is
taken out before another seat is read from, every game has the right number of players. -/
theorem starts_right {s : Parties} (h : RunWith Step (fun s a ↦
    s.CreatesOffLoop a ∧ s.SettlesInTime a ∧ s.LeavesNobodyWaiting a) start s) (r : RoomId) :
    s.StartsRight r := by
  have hs : s.Numbered :=
    h.preserves (fun s a t hi hok hs ↦ step_numbered hok.1 hok.2.1 hok.2.2 hs hi) start_numbered
  exact hs.startsRight r

/-- A step that creates a room only while its thread waits, plays no game, and takes nobody out. -/
private def nobodyLeaves (s : Parties) : ServerAct → Bool
  | .handler k => createsWaiting s (.handler k)
  | .thread _ (.game _) => false
  | .thread r _ =>
    match (s.thread r).pc with
    | .leaveLock _ _ => false
    | _ => true
  | _ => true

private theorem ok_of_nobodyLeaves (s : Parties) (a : ServerAct) (h : nobodyLeaves s a = true) :
    s.CreatesOffLoop a ∧ s.SettlesInTime a ∧ s.LeavesNobodyWaiting a := by
  refine ⟨?_, ?_, ?_⟩
  · cases a with
    | handler k =>
      intro r random hpc _
      simp only [nobodyLeaves, createsWaiting, hpc] at h
      split at h
      · next hw => rw [hw]; trivial
      · cases h
    | _ => trivial
  · cases a with
    | thread r input =>
      cases input with
      | game act => cases h
      | _ => trivial
    | _ => trivial
  · cases a with
    | thread r input =>
      intro ready i hpc
      unfold nobodyLeaves at h
      split at h
      · next he => cases he
      · cases h
      · next he =>
        cases he
        rw [hpc] at h
        cases h
      · next hno => exact absurd rfl (hno r input)
    | _ => trivial

/-- Client 0 opens room 0, client 1 joins, both are let in, and client 0 starts a game. -/
private def twoStart : List ServerAct :=
  .accept 0 :: asks 0 ['3', '\n'] ++ List.replicate 4 (.handler 0) ++
    (.accept 1 :: asks 1 ['4', ' ', '0', '\n']) ++ List.replicate 3 (.handler 1) ++
    List.replicate 4 (.thread 0 .nothing) ++
    [.thread 0 (.ready [0]), .thread 0 (.read (.line ['7', '\n']))] ++
    List.replicate 2 (.thread 0 .nothing)

/-- The game is started with two players. -/
theorem two_start :
    ∃ s, Run Step start s ∧ (s.thread 0).pc = .gameOpen ∧
      (s.thread 0).playerNum = count (fun i ↦ (s.thread 0).used i ≠ none) := by
  have h : (playActs (guarded nobodyLeaves next) start twoStart).bind (fun s ↦
      some (match (s.thread 0).pc with
        | .gameOpen => true
        | _ => false)) = some true := by
    decide +kernel
  obtain ⟨s, hs, h⟩ := Option.bind_eq_some_iff.mp h
  have hrun : RunWith Step _ start s := runWith_of_playActs ok_of_nobodyLeaves hs
  have hpc : (s.thread 0).pc = .gameOpen := by
    rw [Option.some.injEq] at h
    split at h
    · next he => exact he
    · cases h
  exact ⟨s, hrun.mono fun _ _ _ ↦ True.intro, hpc, ((starts_right hrun 0).number hpc).1⟩

/-! ### A game started while a join is pending -/

/-- Clients 0 and 1 share room 0. Client 0 leaves, client 1 owns the room then, and client 2 takes
the free place. -/
private def ownerMoves : List ServerAct :=
  .accept 0 :: asks 0 ['3', '\n'] ++ List.replicate 4 (.handler 0) ++
    (.accept 1 :: asks 1 ['4', ' ', '0', '\n']) ++ List.replicate 3 (.handler 1) ++
    List.replicate 4 (.thread 0 .nothing) ++
    [.thread 0 (.ready [0]), .thread 0 (.read (.line ['6', '\n']))] ++
    List.replicate 15 (.thread 0 .nothing) ++
    (.accept 2 :: asks 2 ['4', ' ', '0', '\n']) ++ List.replicate 3 (.handler 2) ++
    [.thread 0 .nothing]

/-- Client 3 has joined and is not let in yet when client 2 leaves and client 1, in the same turn
of the loop, starts a game. -/
private def startsPending : List ServerAct :=
  (.accept 3 :: asks 3 ['4', ' ', '0', '\n']) ++ List.replicate 3 (.handler 3) ++
    [.thread 0 (.ready [0, 1]), .thread 0 (.read (.line ['6', '\n']))] ++
    List.replicate 4 (.thread 0 .nothing) ++
    [.thread 0 (.read (.line ['7', '\n']))] ++ List.replicate 2 (.thread 0 .nothing)

/-- `GameStart` is called with two players, one of whom has not been let in. -/
theorem pending_join_counted :
    ∃ s, Run Step start s ∧ (s.thread 0).pc = .gameOpen ∧ (s.thread 0).playerNum = 2 ∧
      count (fun i ↦ (s.thread 0).used i ≠ none) = 1 ∧ ¬ s.StartsRight 0 := by
  have h : (playActs next start (ownerMoves ++ startsPending)).bind (fun s ↦
      some ((match (s.thread 0).pc with
        | .gameOpen => true
        | _ => false), (s.thread 0).playerNum, count fun i ↦ (s.thread 0).used i ≠ none)) =
      some (true, 2, 1) := by
    decide +kernel
  obtain ⟨s, hs, h⟩ := Option.bind_eq_some_iff.mp h
  simp only [Option.some.injEq, Prod.mk.injEq] at h
  obtain ⟨hpc, hnum, hcount⟩ := h
  have hpc' : (s.thread 0).pc = .gameOpen := by
    split at hpc
    · next he => exact he
    · cases hpc
  refine ⟨s, run_of_playActs hs, hpc', hnum, hcount, fun hright ↦ ?_⟩
  have := (hright.number hpc').1
  rw [hnum, hcount] at this
  cases this

end Parties
end Unpv13e.Server
