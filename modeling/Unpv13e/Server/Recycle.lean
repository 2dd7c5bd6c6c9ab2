import Unpv13e.Server.Steps

/-!
# Rooms that are used again

Library `Server`. The thread of a room frees it in a section and goes on to the top of its loop
outside of it (`src/tcpcliserv/final_server.c:810–870`). What its steps do to a room created
anew in between, and when they do nothing.
-/

namespace Unpv13e.Server
open Unpv13e.Base Unpv13e.Uno

namespace Parties

/-- The thread of `r` is on its way to the start of its loop, and takes no step before that
which a room, random or not, could notice. -/
def OnItsWay (s : Parties) (r : RoomId) (random : Bool) : Prop :=
  match (s.thread r).pc with
  | .waiting => True
  | .load => True
  | .loopTest => (s.thread r).alreadyPlay = true ∧ random = false
  | .finishRandom => random = false
  | .finishNum => True
  | _ => False

/-- A room is created when its thread is on its way to the start of its loop. -/
def CreatesInTime (s : Parties) : ServerAct → Prop
  | .handler k => ∀ r random, (s.handler k).pc = .create r random → (s.room r).used = false →
      s.OnItsWay r random
  | _ => True

/-- A room in use is served by a thread started for it, or will be. -/
private def Served (s : Parties) (r : RoomId) : Prop :=
  (s.room r).used = true → (s.thread r).serves = s.created r ∨ s.OnItsWay r (s.room r).random

/-! ### What the parties do to a room -/

private theorem join_frame {d d' : RoomData} {k : ConnId} (h : d.join k = some d') :
    d'.used = d.used ∧ d'.random = d.random := by
  unfold RoomData.join at h
  split at h
  · cases h
  · cases h
    exact ⟨rfl, rfl⟩

/-- A handler's step creates a room, or leaves alone what the thread of a room depends on. -/
private theorem handler_frame {s t : Parties} {k : ConnId} {out : List Sent}
    (h : HandlerDoes s k t out) :
    (∃ r random, (s.handler k).pc = .create r random ∧ (s.room r).used = false ∧
      t = s.createRoom k r random) ∨
    t.thread = s.thread ∧ t.created = s.created ∧
      ∀ q, (t.room q).used = (s.room q).used ∧ (t.room q).random = (s.room q).random := by
  cases h with
  | create r random hpc hu => exact .inl ⟨r, random, hpc, hu, rfl⟩
  | join r d hpc hu hg hn hd =>
    refine .inr ⟨rfl, rfl, fun q ↦ ?_⟩
    by_cases hq : q = r
    · subst hq
      simpa [setRoom, setHandler] using join_frame hd
    · simp [setRoom, setHandler, hq]
  | wake => exact .inr ⟨rfl, rfl, fun _ ↦ ⟨rfl, rfl⟩⟩
  | load => exact .inr ⟨rfl, rfl, fun _ ↦ ⟨rfl, rfl⟩⟩
  | search => exact .inr ⟨rfl, rfl, fun _ ↦ ⟨rfl, rfl⟩⟩
  | refuse => exact .inr ⟨rfl, rfl, fun _ ↦ ⟨rfl, rfl⟩⟩
  | full => exact .inr ⟨rfl, rfl, fun _ ↦ ⟨rfl, rfl⟩⟩
  | fullState => exact .inr ⟨rfl, rfl, fun _ ↦ ⟨rfl, rfl⟩⟩
  | refusedWorking => exact .inr ⟨rfl, rfl, fun _ ↦ ⟨rfl, rfl⟩⟩
  | refusedState => exact .inr ⟨rfl, rfl, fun _ ↦ ⟨rfl, rfl⟩⟩
  | done => exact .inr ⟨rfl, rfl, fun _ ↦ ⟨rfl, rfl⟩⟩

/-- A thread keeps the number of the creation it serves, unless it starts anew. It takes no
room into use. -/
private theorem thread_self {s t : Parties} {r : RoomId} {input : Input} {out : List Sent}
    (h : ThreadDoes s r input t out) :
    ((t.thread r).serves = (s.thread r).serves ∨ (s.thread r).pc = .load) ∧
      ((t.room r).used = true → (s.room r).used = true) ∧ t.created = s.created := by
  cases h with
  | load input hpc => exact ⟨.inr hpc, by simp [setThread], rfl⟩
  | letIn => simp [setThread, setRoom]
  | takeOut input ready i hpc =>
    unfold takeOut
    dsimp only
    split
    · simp [setThread, setRoom, setRoomWorking]
    · simp [setThread, setRoom]
  | leaveOwner input ready i t out hpc h =>
    rw [(leaveOwner_eq h).1]
    simp [setThread]
  | gameLock => simp [setThread, setRoom]
  | perform input g done todo e hpc =>
    cases e with
    | send c line => simp [perform, setThread]
    | setState c state => simp [perform, setThread, setState]
  | reset => simp [reset, setThread, setRoom, setRoomWorking]
  | finishRandom => simp [setThread, setRoom]
  | _ => simp [setThread, setState]

/-- On its way a thread changes nothing of the room. -/
private theorem onItsWay_step {s t : Parties} {r : RoomId} {input : Input} {out : List Sent}
    (h : ThreadDoes s r input t out) (hway : s.OnItsWay r (s.room r).random) :
    t.room r = s.room r ∧ t.roomWorking r = s.roomWorking r ∧
      ((t.thread r).serves = s.created r ∨ t.OnItsWay r (s.room r).random) := by
  unfold OnItsWay at hway
  cases h with
  | begin => exact ⟨rfl, rfl, .inr (by simp [OnItsWay, setThread])⟩
  | load => exact ⟨rfl, rfl, .inl (by simp [setThread])⟩
  | loop input hpc hw ha =>
    rw [hpc] at hway
    rw [hway.1] at ha
    cases ha
  | leaveLoop input hpc hno =>
    rw [hpc] at hway
    exact ⟨rfl, rfl, .inr (by simpa [OnItsWay, setThread] using hway.2)⟩
  | finishRandom input hpc =>
    rw [hpc] at hway
    have hrandom : (s.room r).random = false := hway
    refine ⟨?_, rfl, .inr (by simp [OnItsWay, setThread])⟩
    rw [← hrandom]
    simp [setThread, setRoom]
  | finishNum => exact ⟨rfl, rfl, .inr (by simp [OnItsWay, setThread])⟩
  | letIn _ _ hpc => rw [hpc] at hway; exact hway.elim
  | nobodyNew _ hpc => rw [hpc] at hway; exact hway.elim
  | select _ hpc => rw [hpc] at hway; exact hway.elim
  | pass _ _ _ hpc => rw [hpc] at hway; exact hway.elim
  | scanned _ _ _ hpc => rw [hpc] at hway; exact hway.elim
  | read _ _ _ _ hpc => rw [hpc] at hway; exact hway.elim
  | leaveState _ _ _ _ _ hpc => rw [hpc] at hway; exact hway.elim
  | takeOut _ _ _ hpc => rw [hpc] at hway; exact hway.elim
  | leaveTest _ _ _ hpc => rw [hpc] at hway; exact hway.elim
  | leaveOwner _ _ _ _ _ hpc => rw [hpc] at hway; exact hway.elim
  | tooFew _ _ _ hpc => rw [hpc] at hway; exact hway.elim
  | start _ _ _ hpc => rw [hpc] at hway; exact hway.elim
  | gameLock _ hpc => rw [hpc] at hway; exact hway.elim
  | gameOpen _ _ _ hpc => rw [hpc] at hway; exact hway.elim
  | perform _ _ _ _ _ hpc => rw [hpc] at hway; exact hway.elim
  | ended _ _ _ hpc => rw [hpc] at hway; exact hway.elim
  | act _ _ _ _ hpc => rw [hpc] at hway; exact hway.elim
  | reset _ hpc => rw [hpc] at hway; exact hway.elim

private theorem Served.of_eq {s t : Parties} {r : RoomId} (hs : s.Served r)
    (hthread : t.thread r = s.thread r) (hcreated : t.created r = s.created r)
    (hused : (t.room r).used = (s.room r).used) (hrandom : (t.room r).random = (s.room r).random) :
    t.Served r := by
  intro hu
  unfold OnItsWay
  rw [hthread, hcreated, hrandom]
  exact hs (hused ▸ hu)

private theorem step_served {s t : Parties} {a : ServerAct} (hok : s.CreatesInTime a)
    (h : s.Step a t) (hs : ∀ r, s.Served r) (r : RoomId) : t.Served r := by
  obtain ⟨out, h⟩ := h.exists_out
  cases a with
  | accept k =>
    simp only [step] at h
    split at h
    · split at h
      · cases h; exact (hs r).of_eq rfl rfl rfl rfl
      · cases h
    · cases h
  | read k event =>
    simp only [step] at h
    split at h
    · split at h
      · split at h
        · cases h; exact (hs r).of_eq rfl rfl rfl rfl
        · obtain ⟨name, main, rfl, -⟩ := request_does h
          exact (hs r).of_eq rfl rfl rfl rfl
      · cases h
    · cases h
  | main =>
    simp only [step, mainNext] at h
    split at h
    · cases h
    · cases h; exact (hs r).of_eq rfl rfl rfl rfl
    · cases h; exact (hs r).of_eq rfl rfl rfl rfl
    · cases h; exact (hs r).of_eq rfl rfl rfl rfl
  | handler k =>
    rcases handler_frame (handlerNext_does h) with ⟨q, random, hpc, hu, rfl⟩ | ⟨h1, h2, h3⟩
    · by_cases hq : r = q
      · subst hq
        intro _
        refine .inr ?_
        have := hok r random hpc hu
        simpa [OnItsWay, createRoom, setRoom, setRoomWorking, setHandler] using this
      · refine (hs r).of_eq rfl ?_ ?_ ?_
        · simp [createRoom, hq]
        · simp [createRoom, setRoom, setRoomWorking, setHandler, hq]
        · simp [createRoom, setRoom, setRoomWorking, setHandler, hq]
    · exact (hs r).of_eq (by rw [h1]) (by rw [h2]) (h3 r).1 (h3 r).2
  | thread q input =>
    have hd := threadNext_does h
    by_cases hq : r = q
    · subst hq
      obtain ⟨hserves, hused, hcreated⟩ := thread_self hd
      intro hu
      rcases hs r (hused hu) with hserved | hway
      · rcases hserves with he | hload
        · exact .inl (by rw [he, hserved, hcreated])
        · -- the thread starts for the room as it is now
          cases hd with
          | load => exact .inl (by simp [setThread])
          | _ => simp_all
      · obtain ⟨hroom, -, hnext⟩ := onItsWay_step hd hway
        rw [hroom, hcreated]
        exact hnext
    · obtain ⟨h1, h2, h3, -⟩ := thread_other hd hq
      exact (hs r).of_eq h1 (by rw [h3]) (by rw [h2]) (by rw [h2])

private theorem start_served (r : RoomId) : start.Served r := nofun

/-- In a run in which rooms are created in time, a room in use is left alone by its thread as long
as the thread serves an earlier use, the thread is then on its way to the start of its loop, and
it starts with nobody in `used[]` and the owner in `room_arg`. -/
theorem untouched_of_createsInTime {s : Parties} (h : RunWith Step CreatesInTime start s)
    (r : RoomId) :
    ((s.room r).used = true → (s.thread r).serves ≠ s.created r →
      s.OnItsWay r (s.room r).random) ∧
    ∀ input t out, s.step (.thread r input) = some (t, out) →
      ((s.room r).used = true → (s.thread r).serves ≠ s.created r →
        t.room r = s.room r ∧ t.roomWorking r = s.roomWorking r) ∧
      ((t.thread r).serves ≠ (s.thread r).serves →
        (∀ i, (t.thread r).used i = none) ∧ (t.thread r).owner = (s.roomArg r).owner) := by
  have hserved : ∀ q, s.Served q :=
    h.preserves (fun s a t hi hok hs ↦ step_served hok hs hi) start_served
  have hway (hu : (s.room r).used = true) (hne : (s.thread r).serves ≠ s.created r) :
      s.OnItsWay r (s.room r).random := (hserved r hu).resolve_left hne
  refine ⟨hway, fun input t out hs ↦ ?_⟩
  have hd : ThreadDoes s r input t out := threadNext_does hs
  constructor
  · intro hu hne
    obtain ⟨h1, h2, -⟩ := onItsWay_step hd (hway hu hne)
    exact ⟨h1, h2⟩
  · intro hne
    rcases (thread_self hd).1 with he | hload
    · exact absurd he hne
    · cases hd with
      | load => exact ⟨fun _ ↦ by simp [setThread], by simp [setThread]⟩
      | _ => simp_all

/-! ### A creation that comes too late -/

/-- Client 1 wants any room. Its handler finds room 0 unused and comes to create it. -/
private def wantsAny : List ServerAct :=
  [.accept 1, .read 1 (.line ['5', '\n']), .main, .main, .main] ++
    List.replicate 48 (.handler 1)

/-- Client 0 opens room 0 before, and leaves it. The room is free, its thread not yet at the
top. -/
private def opensAndLeaves : List ServerAct :=
  [.accept 0, .read 0 (.line ['3', '\n']), .main, .main, .main, .handler 0, .handler 0, .handler 0,
    .handler 0, .thread 0 .nothing, .thread 0 .nothing, .thread 0 .nothing, .thread 0 .nothing,
    .thread 0 (.ready [0]), .thread 0 (.read (.line ['6', '\n'])), .thread 0 .nothing,
    .thread 0 .nothing, .thread 0 .nothing, .thread 0 .nothing, .handler 1]

/-- The thread that still ends the use by client 0 takes the mark of a random room from the room
that client 1 has just created. -/
theorem late_creation_clobbered :
    ∃ s t out, Run Step start s ∧ s.step (.thread 0 .nothing) = some (t, out) ∧
      (s.room 0).used = true ∧ (s.thread 0).serves ≠ s.created 0 ∧ (s.room 0).random = true ∧
      (t.room 0).random = false := by
  have h : (playActs next start (wantsAny ++ opensAndLeaves)).bind (fun s ↦
      (s.step (.thread 0 .nothing)).map fun p ↦ ((s.room 0).used, (s.thread 0).serves, s.created 0,
        (s.room 0).random, (p.1.room 0).random)) = some (true, 1, 2, true, false) := by
    decide +kernel
  obtain ⟨s, hs, h⟩ := Option.bind_eq_some_iff.mp h
  obtain ⟨⟨t, out⟩, ht, he⟩ := Option.map_eq_some_iff.mp h
  simp only [Prod.mk.injEq] at he
  obtain ⟨h1, h2, h3, h4, h5⟩ := he
  exact ⟨s, t, out, run_of_playActs hs, ht, h1, by rw [h2, h3]; decide, h4, h5⟩

/-- A step that creates no room, or one whose thread waits. -/
def createsWaiting : Parties → ServerAct → Bool
  | s, .handler k =>
    match (s.handler k).pc with
    | .create r _ =>
      match (s.thread r).pc with
      | .waiting => true
      | _ => false
    | _ => true
  | _, _ => true

private theorem inTime_of_createsWaiting (s : Parties) (a : ServerAct)
    (h : createsWaiting s a = true) : s.CreatesInTime a := by
  cases a with
  | handler k =>
    intro r random hpc _
    simp only [createsWaiting, hpc] at h
    split at h
    · next hw => simp [OnItsWay, hw]
    · cases h
  | _ => trivial

/-- Client 0 opens room 0. Its thread starts after that and leaves the room as it was. -/
theorem creation_in_time :
    ∃ s t, Run Step start s ∧ (s.room 0).used = true ∧ (s.thread 0).serves ≠ s.created 0 ∧
      s.Step (.thread 0 .nothing) t ∧ t.room 0 = s.room 0 := by
  have h : (playActs (guarded createsWaiting next) start [.accept 0, .read 0 (.line ['3', '\n']),
      .main, .main, .main, .handler 0, .handler 0, .handler 0, .handler 0]).bind (fun s ↦
      (s.step (.thread 0 .nothing)).map fun _ ↦ ((s.room 0).used, (s.thread 0).serves, s.created 0)) =
      some (true, 0, 1) := by decide
  obtain ⟨s, hs, h⟩ := Option.bind_eq_some_iff.mp h
  obtain ⟨⟨t, out⟩, ht, he⟩ := Option.map_eq_some_iff.mp h
  simp only [Prod.mk.injEq] at he
  obtain ⟨hu, hserves, hcreated⟩ := he
  have hne : (s.thread 0).serves ≠ s.created 0 := by rw [hserves, hcreated]; decide
  have hrun : RunWith Step CreatesInTime start s := runWith_of_playActs inTime_of_createsWaiting hs
  obtain ⟨-, hstep⟩ := untouched_of_createsInTime hrun 0
  refine ⟨s, t, hrun.mono fun _ _ _ ↦ True.intro, hu, hne, ?_, ((hstep _ _ _ ht).1 hu hne).1⟩
  exact Option.map_eq_some_iff.mpr ⟨_, ht, rfl⟩

end Parties
end Unpv13e.Server
