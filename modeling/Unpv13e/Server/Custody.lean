import Unpv13e.Server.Occupancy
import Unpv13e.Uno.Dismissal

/-!
# Who keeps a connection

Library `Server`. A connection that is not in the lobby is with `main`, which is handing it over,
with its handler or on a seat of a room, and only the party that keeps it changes its state.
-/

namespace Unpv13e.Server
open Unpv13e.Base Unpv13e.Uno

/-- Where a connection can be kept. -/
inductive Place
  | main
  | handler
  | seat (r : RoomId) (i : Seat)
  deriving DecidableEq

/-- The thread has given up the player of seat `i`, whose state is changed already. -/
def Thread.Released (t : Thread) (i : Seat) : Prop :=
  match t.pc with
  | .leaveLock _ j => i = j
  | .game _ done _ => ∃ k, t.used i = some k ∧ k ∈ changes done
  | .resetLock => (t.used i).isSome
  | _ => False

/-- The handler has a request to serve. -/
def HandlerPc.Busy (pc : HandlerPc) (working : Bool) : Prop :=
  match pc with
  | .idle => working = true
  | .done => False
  | _ => True

/-- The thread is in the loop of a game. -/
def RoomPc.InGame : RoomPc → Prop
  | .game _ _ _ => True
  | _ => False

namespace Parties

/-- Connection `k` is kept at a place. -/
def Keeps (s : Parties) (k : ConnId) : Place → Prop
  | .main =>
    match s.main with
    | .idle => False
    | .arg k' _ => k' = k
    | .setRoom k' => k' = k
    | .setWorking k' => k' = k
  | .handler => (s.handler k).pc.Busy (s.handlerWorking k)
  | .seat r i => (s.room r).players i = some k ∧ ¬ (s.thread r).Released i

/-- The state of the connections kept at a place. -/
def stateAt (s : Parties) : Place → ConnState
  | .main =>
    match s.main with
    | .setWorking _ => .room
    | _ => .lobby
  | _ => .room

/-- A running game of the thread of `r` dismisses nobody twice. -/
def Playing (s : Parties) (r : RoomId) : Prop :=
  ∀ g done todo, (s.thread r).pc = .game g done todo →
    (∀ i j k, (s.thread r).used i = some k → (s.thread r).used j = some k → i = j) ∧
      (∃ seats, Dismissed (s.thread r).used seats g) ∧ done ++ todo = g.out

/-- What the handler of `k` and `main` have noted of a request. -/
structure Noted (s : Parties) (k : ConnId) : Prop where
  mainArg : ∀ a, s.main = .arg k a → a.owner = k
  arg : s.main = .setRoom k ∨ s.main = .setWorking k ∨
    (s.handler k).pc = .idle ∧ s.handlerWorking k = true ∨ (s.handler k).pc = .load →
      (s.handlerArg k).owner = k
  index : (s.handler k).pc ≠ .idle → (s.handler k).pc ≠ .load → (s.handler k).playerIndex = k
  refused : (s.handler k).pc = .refusedState → s.handlerWorking k = false

/-- Every connection is kept at one place at most, which says what its state is. -/
structure Disciplined (s : Parties) : Prop where
  occupied : ∀ r, s.Occupied r
  playing : ∀ r, s.Playing r
  noted : ∀ k, s.Noted k
  once : ∀ k p q, s.Keeps k p → s.Keeps k q → p = q
  state : ∀ k p, s.Keeps k p → s.state k = s.stateAt p

/-- Nothing is settled against a seat that has left, in no room. -/
def SettlesInTime (s : Parties) : ServerAct → Prop
  | .thread r (.game a) => ∀ g done, (s.thread r).pc = .game g done [] → SettlesPresent g a
  | _ => True

/-! ### Places that are given up -/

/-- Where a thread lets no player go. -/
def KeepsAll : RoomPc → Prop
  | .leaveLock _ _ => False
  | .game _ _ _ => False
  | .resetLock => False
  | _ => True

/-- A thread that does not let a player go keeps all. -/
theorem not_released {t : Thread} {i : Seat} (h : KeepsAll t.pc) : ¬ t.Released i := by
  unfold Thread.Released
  cases hpc : t.pc with
  | leaveLock => rw [hpc] at h; exact False.elim h
  | game => rw [hpc] at h; exact False.elim h
  | resetLock => rw [hpc] at h; exact False.elim h
  | _ => exact not_false

variable {s t : Parties} {k : ConnId} {r : RoomId} {input : Input} {out : List Sent}

/-- A seat kept after a step of its thread was kept before. -/
private theorem keeps_of_thread {i : Seat} (h : ThreadDoes s r input t out)
    (hk : t.Keeps k (.seat r i)) : s.Keeps k (.seat r i) := by
  obtain ⟨hplayers, hrel⟩ := hk
  have free (hpc : KeepsAll (s.thread r).pc) (hp : (s.room r).players i = some k) :
      s.Keeps k (.seat r i) :=
    ⟨hp, not_released hpc⟩
  cases h with
  | begin input hpc => exact free (by rw [hpc]; trivial) hplayers
  | load input hpc => exact free (by rw [hpc]; trivial) hplayers
  | loop input hpc => exact free (by rw [hpc]; trivial) hplayers
  | leaveLoop input hpc => exact free (by rw [hpc]; trivial) hplayers
  | letIn input acc hpc =>
    exact free (by rw [hpc]; trivial) (by simpa [setThread, setRoom] using hplayers)
  | nobodyNew input hpc => exact free (by rw [hpc]; trivial) hplayers
  | select seats hpc => exact free (by rw [hpc]; trivial) hplayers
  | pass ready j input hpc => exact free (by rw [hpc]; trivial) hplayers
  | scanned ready j input hpc => exact free (by rw [hpc]; trivial) hplayers
  | read ready j k event hpc => exact free (by rw [hpc]; trivial) hplayers
  | leaveState input ready j state k' hpc => exact free (by rw [hpc]; trivial) hplayers
  | takeOut input ready j hpc =>
    have hp : Function.update (s.room r).players j none i = some k := by
      unfold takeOut at hplayers
      dsimp only at hplayers
      split at hplayers
      · simpa [setThread, setRoom, setRoomWorking] using hplayers
      · simpa [setThread, setRoom] using hplayers
    have hij : i ≠ j := by
      rintro rfl
      simp at hp
    rw [Function.update_of_ne hij] at hp
    refine ⟨hp, ?_⟩
    unfold Thread.Released
    rw [hpc]
    exact hij
  | leaveTest input ready j hpc => exact free (by rw [hpc]; trivial) hplayers
  | leaveOwner input ready j t out hpc h =>
    rw [(leaveOwner_eq h).1] at hplayers
    exact free (by rw [hpc]; trivial) hplayers
  | tooFew input ready j hpc => exact free (by rw [hpc]; trivial) hplayers
  | start input ready j hpc => exact free (by rw [hpc]; trivial) hplayers
  | gameLock input hpc =>
    exact free (by rw [hpc]; trivial) (by simpa [setThread, setRoom] using hplayers)
  | gameOpen rand draw g hpc => exact free (by rw [hpc]; trivial) hplayers
  | perform input g done todo e hpc =>
    have hp : (s.room r).players i = some k := by
      cases e with
      | send c line => exact hplayers
      | setState c state => exact hplayers
    refine ⟨hp, fun hrel' ↦ hrel ?_⟩
    unfold Thread.Released at hrel' ⊢
    rw [hpc] at hrel'
    obtain ⟨k', hu, hmem⟩ := hrel'
    simp only [setThread, Function.update_self]
    exact ⟨k', hu, by rw [changes_append]; exact List.mem_append_left _ hmem⟩
  | ended input g done hpc =>
    refine ⟨hplayers, fun hrel' ↦ hrel ?_⟩
    unfold Thread.Released at hrel' ⊢
    rw [hpc] at hrel'
    obtain ⟨k', hu, -⟩ := hrel'
    simp only [setThread, Function.update_self]
    rw [hu]
    rfl
  | act g g' done a hpc =>
    refine ⟨hplayers, fun hrel' ↦ hrel ?_⟩
    unfold Thread.Released at hrel' ⊢
    rw [hpc] at hrel'
    simpa only [setThread, Function.update_self] using hrel'
  | reset input hpc => simp [reset, setThread, setRoom, setRoomWorking] at hplayers
  | finishRandom input hpc =>
    exact free (by rw [hpc]; trivial) (by simpa [setThread, setRoom] using hplayers)
  | finishNum input hpc => exact free (by rw [hpc]; trivial) hplayers

/-- Whatever is kept after a step of a thread was kept there before. -/
private theorem keeps_thread {p : Place} (h : ThreadDoes s r input t out) (hk : t.Keeps k p) :
    s.Keeps k p := by
  obtain ⟨hmain, hhandler, hworking, -⟩ := thread_frame h
  cases p with
  | main =>
    unfold Keeps at hk ⊢
    rw [hmain] at hk
    exact hk
  | handler =>
    unfold Keeps at hk ⊢
    rw [hhandler, hworking] at hk
    exact hk
  | seat q i =>
    by_cases hq : q = r
    · subst hq
      exact keeps_of_thread h hk
    · obtain ⟨hthread, hroom, -⟩ := thread_other h hq
      obtain ⟨hplayers, hrel⟩ := hk
      rw [hroom] at hplayers
      rw [hthread] at hrel
      exact ⟨hplayers, hrel⟩

/-- The connections of a room whose thread is reading from its players are kept there. -/
private theorem keeps_used {i : Seat}
    (hlist : Listed (s.thread r).used (s.room r).players fun _ ↦ False)
    (hu : (s.thread r).used i = some k) (hrel : ¬ (s.thread r).Released i) : s.Keeps k (.seat r i) :=
  ⟨hlist i k not_false hu, hrel⟩

/-- A thread changes the state of a connection only that it keeps, and gives it up. -/
private theorem state_thread (h : ThreadDoes s r input t out) (hs : s.Disciplined) :
    t.state = s.state ∨ ∃ i c state, t.state = Function.update s.state c state ∧
      s.Keeps c (.seat r i) ∧ ¬ t.Keeps c (.seat r i) := by
  have hknows := (hs.occupied r).knows
  unfold Thread.Knows at hknows
  cases h with
  | takeOut input ready i hpc =>
    left
    unfold takeOut
    dsimp only
    split
    · rfl
    · rfl
  | leaveOwner input ready i t out hpc h =>
    left
    rw [(leaveOwner_eq h).1]
    rfl
  | leaveState input ready i state c hpc hu =>
    right
    rw [hpc] at hknows
    refine ⟨i, c, state, rfl, keeps_used hknows.1 hu (not_released (by rw [hpc]; trivial)), ?_⟩
    rintro ⟨-, hrel⟩
    apply hrel
    simp only [Thread.Released, setThread, Function.update_self]
  | perform input g done todo e hpc =>
    cases e with
    | send c line => exact .inl rfl
    | setState c state =>
      right
      rw [hpc] at hknows
      obtain ⟨hinj, ⟨seats, hdis⟩, hout⟩ := hs.playing r g done _ hpc
      have hmem : c ∈ changes g.out := by
        rw [← hout, mem_changes]
        exact ⟨state, List.mem_append_right _ List.mem_cons_self⟩
      obtain ⟨i, hu, -⟩ := (hdis.mem c).mp hmem
      refine ⟨i, c, state, rfl, keeps_used hknows hu ?_, ?_⟩
      · -- it has not been dismissed before, since that happens once
        intro hrel
        unfold Thread.Released at hrel
        rw [hpc] at hrel
        obtain ⟨c', hu', hdone⟩ := hrel
        cases hu.symm.trans hu'
        have honce := hdis.once
        rw [← hout, changes_append, changes_setState] at honce
        exact (List.nodup_append.mp honce).2.2 c hdone c List.mem_cons_self rfl
      · rintro ⟨-, hrel⟩
        apply hrel
        simp only [Thread.Released, setThread, Function.update_self, changes_append]
        exact ⟨c, hu, List.mem_append_right _ List.mem_cons_self⟩
  | _ => exact .inl rfl

/-- A game of a room dismisses nobody twice, whatever its thread does. -/
private theorem playing_thread (hok : s.SettlesInTime (.thread r input))
    (h : ThreadDoes s r input t out) (hs : s.Disciplined) : t.Playing r := by
  have none (pc : RoomPc) (hpc : (t.thread r).pc = pc) (hno : ¬ pc.InGame) : t.Playing r := by
    intro g done todo he
    rw [hpc] at he
    rw [he] at hno
    exact absurd trivial hno
  have hknows := (hs.occupied r).knows
  unfold Thread.Knows at hknows
  cases h with
  | read ready i k event =>
    refine none (.afterRead ready i event) (by simp [setThread]) ?_
    rcases RoomPc.afterRead_cases ready i event with ⟨state, -, he⟩ | ⟨l, -, -, he⟩ | he
    · rw [he]; exact not_false
    · rw [he]; exact not_false
    · rw [he]; exact not_false
  | takeOut input ready i hpc =>
    refine none (.leaveTest ready i) ?_ not_false
    unfold takeOut
    dsimp only
    split
    · simp [setThread]
    · simp [setThread]
  | leaveTest input ready i hpc =>
    refine none _ rfl ?_
    simp only [setThread, Function.update_self]
    split
    · exact not_false
    · exact not_false
  | leaveOwner input ready i t out hpc h =>
    rw [(leaveOwner_eq h).1]
    refine fun g done todo he ↦ ?_
    simp [setThread] at he
  | gameOpen rand draw g hpc hg =>
    rw [hpc] at hknows
    intro g' done todo hpc'
    simp only [setThread, Function.update_self, RoomPc.game.injEq] at hpc'
    obtain ⟨rfl, rfl, rfl⟩ := hpc'
    simp only [setThread, Function.update_self]
    refine ⟨?_, ⟨_, gameStart_dismissed hg⟩, rfl⟩
    intro i j c hi hj
    have hrel (i : Seat) : ¬ (s.thread r).Released i := not_released (by rw [hpc]; trivial)
    have hsame := hs.once c _ _ (keeps_used hknows hi (hrel i)) (keeps_used hknows hj (hrel j))
    cases hsame
    rfl
  | perform input g done todo e hpc =>
    obtain ⟨hinj, hdis, hout⟩ := hs.playing r g done _ hpc
    intro g' done' todo' hpc'
    have hthread : ((s.perform e).1.setThread r
        { s.thread r with pc := .game g (done ++ [e]) todo }).thread r =
          { s.thread r with pc := .game g (done ++ [e]) todo } := by
      cases e with
      | send => simp [perform, setThread]
      | setState => simp [perform, setThread, setState]
    rw [hthread] at hpc' ⊢
    cases hpc'
    exact ⟨hinj, hdis, by rw [List.append_assoc]; exact hout⟩
  | act g g' done a hpc hno hg =>
    obtain ⟨hinj, ⟨seats, hdis⟩, hout⟩ := hs.playing r g done [] hpc
    intro g'' done' todo' hpc'
    simp only [setThread, Function.update_self, RoomPc.game.injEq] at hpc'
    obtain ⟨rfl, rfl, rfl⟩ := hpc'
    simp only [setThread, Function.update_self]
    refine ⟨hinj, gameStep_dismissed hinj hg (hok g done hpc) hdis, ?_⟩
    obtain ⟨es, hes⟩ := gameStep_out hg
    rw [List.append_nil] at hout
    rw [hout, hes, List.drop_left]
  | _ =>
    intro g done todo he
    simp [setThread, reset] at he

private theorem thread_disciplined (hok : s.SettlesInTime (.thread r input))
    (h : ThreadDoes s r input t out) (hocc : ∀ q, t.Occupied q) (hs : s.Disciplined) :
    t.Disciplined := by
  obtain ⟨hmain, hhandler, hworking, harg, -, -⟩ := thread_frame h
  have hstateAt (p : Place) : t.stateAt p = s.stateAt p := by
    cases p with
    | main => unfold stateAt; rw [hmain]
    | handler => rfl
    | seat => rfl
  refine ⟨hocc, ?_, ?_, ?_, ?_⟩
  · intro q
    by_cases hq : q = r
    · subst hq
      exact playing_thread hok h hs
    · obtain ⟨hthread, -⟩ := thread_other h hq
      have := hs.playing q
      unfold Playing at this ⊢
      rwa [hthread]
  · intro c
    have := hs.noted c
    refine ⟨?_, ?_, ?_, ?_⟩
    · rw [hmain]
      exact this.mainArg
    · rw [hmain, hhandler, hworking, harg]
      exact this.arg
    · rw [hhandler]
      exact this.index
    · rw [hhandler, hworking]
      exact this.refused
  · intro c p q hp hq
    exact hs.once c p q (keeps_thread h hp) (keeps_thread h hq)
  · intro c p hp
    have hp' := keeps_thread h hp
    rw [hstateAt, ← hs.state c p hp']
    rcases state_thread h hs with he | ⟨i, c', state, he, hkept, hgone⟩
    · rw [he]
    · rw [he, Function.update_of_ne]
      rintro rfl
      cases hs.once c p _ hp' hkept
      exact hgone hp

/-! ### Handlers -/

/-- The discipline is kept when at most `k₀` changes hands, to place `p₁`. -/
private theorem Disciplined.hand_over (k₀ : ConnId) (p₁ : Place) (hs : s.Disciplined)
    (hocc : ∀ q, t.Occupied q) (hthread : t.thread = s.thread) (hnoted : ∀ c, t.Noted c)
    (hkeeps : ∀ c p, t.Keeps c p →
      s.Keeps c p ∧ t.state c = s.state c ∧ t.stateAt p = s.stateAt p ∨
        c = k₀ ∧ p = p₁ ∧ t.state c = t.stateAt p ∧ ∀ q, t.Keeps k₀ q → q = p₁) :
    t.Disciplined := by
  refine ⟨hocc, ?_, hnoted, ?_, ?_⟩
  · intro q
    have := hs.playing q
    unfold Playing at this ⊢
    rwa [hthread]
  · intro c p q hp hq
    rcases hkeeps c p hp with ⟨hp', -⟩ | ⟨rfl, rfl, -, honly⟩
    · rcases hkeeps c q hq with ⟨hq', -⟩ | ⟨rfl, rfl, -, honly⟩
      · exact hs.once c p q hp' hq'
      · exact honly p hp
    · exact (honly q hq).symm
  · intro c p hp
    rcases hkeeps c p hp with ⟨hp', hstate, hplace⟩ | ⟨-, -, hstate, -⟩
    · rw [hstate, hplace, hs.state c p hp']
    · exact hstate

/-- What is kept depends on `main`, the handler, the rooms and the threads. -/
private theorem keeps_congr {p : Place} (hmain : t.main = s.main) (hroom : t.room = s.room)
    (hthread : t.thread = s.thread) (hhandler : t.handler k = s.handler k)
    (hworking : t.handlerWorking k = s.handlerWorking k) (hk : t.Keeps k p) : s.Keeps k p := by
  cases p with
  | main =>
    unfold Keeps at hk ⊢
    rw [hmain] at hk
    exact hk
  | handler =>
    unfold Keeps at hk ⊢
    rw [hhandler, hworking] at hk
    exact hk
  | seat q i =>
    obtain ⟨hplayers, hrel⟩ := hk
    rw [hroom] at hplayers
    rw [hthread] at hrel
    exact ⟨hplayers, hrel⟩

private theorem stateAt_congr (hmain : t.main = s.main) (p : Place) : t.stateAt p = s.stateAt p := by
  cases p with
  | main => unfold stateAt; rw [hmain]
  | handler => rfl
  | seat => rfl

/-- What a searching handler is not doing. -/
private theorem Searching.ne {pc : HandlerPc} (h : pc.Searching) :
    pc ≠ .idle ∧ pc ≠ .load ∧ pc ≠ .refusedState ∧ ∀ b, pc.Busy b := by
  cases pc with
  | idle => exact h.elim
  | load => exact h.elim
  | refusedWorking => exact h.elim
  | refusedState => exact h.elim
  | fullState => exact h.elim
  | done => exact h.elim
  | _ => exact ⟨nofun, nofun, nofun, fun _ ↦ trivial⟩

/-- A step of the handler of `k` that leaves the rooms alone. -/
private theorem handler_moves {h' : Handler} {b : Bool} {c : ConnState} (hs : s.Disciplined)
    (hocc : ∀ q, t.Occupied q) (hmain : t.main = s.main) (hroom : t.room = s.room)
    (hthread : t.thread = s.thread) (harg : t.handlerArg = s.handlerArg)
    (hhandler : t.handler = Function.update s.handler k h')
    (hworking : t.handlerWorking = Function.update s.handlerWorking k b)
    (hstate : t.state = Function.update s.state k c)
    (hbusy : h'.pc.Busy b → (s.handler k).pc.Busy (s.handlerWorking k) ∧ c = s.state k)
    (hsame : ¬ (s.handler k).pc.Busy (s.handlerWorking k) → c = s.state k)
    (hnote : h'.pc = .idle ∧ b = true ∨ h'.pc = .load → (s.handlerArg k).owner = k)
    (hindex : h'.pc ≠ .idle → h'.pc ≠ .load → h'.playerIndex = k)
    (hrefused : h'.pc = .refusedState → b = false) : t.Disciplined := by
  have hother (d : ConnId) (hd : d ≠ k) : t.handler d = s.handler d ∧
      t.handlerWorking d = s.handlerWorking d ∧ t.state d = s.state d := by
    rw [hhandler, hworking, hstate]
    simp [hd]
  have hself : t.handler k = h' ∧ t.handlerWorking k = b ∧ t.state k = c := by
    rw [hhandler, hworking, hstate]
    simp
  refine hs.hand_over k (.handler) hocc hthread ?_ ?_
  · intro d
    have hnoted := hs.noted d
    by_cases hd : d = k
    · subst hd
      refine ⟨?_, ?_, ?_, ?_⟩
      · rw [hmain]
        exact hnoted.mainArg
      · rw [hmain, harg, hself.1, hself.2.1]
        rintro (hm | hm | hm)
        · exact hnoted.arg (.inl hm)
        · exact hnoted.arg (.inr (.inl hm))
        · exact hnote hm
      · rw [hself.1]
        exact hindex
      · rw [hself.1, hself.2.1]
        exact hrefused
    · obtain ⟨h1, h2, -⟩ := hother d hd
      refine ⟨?_, ?_, ?_, ?_⟩
      · rw [hmain]
        exact hnoted.mainArg
      · rw [hmain, harg, h1, h2]
        exact hnoted.arg
      · rw [h1]
        exact hnoted.index
      · rw [h1, h2]
        exact hnoted.refused
  · intro d p hp
    left
    by_cases hd : d = k
    · subst hd
      by_cases hkeep : s.Keeps d p
      · refine ⟨hkeep, ?_, stateAt_congr hmain p⟩
        rw [hself.2.2]
        by_cases hb : (s.handler d).pc.Busy (s.handlerWorking d)
        · -- it is kept by its handler, which is busy still
          cases hs.once d p .handler hkeep hb
          have hbusy' : h'.pc.Busy b := by
            unfold Keeps at hp
            rw [hself.1, hself.2.1] at hp
            exact hp
          exact (hbusy hbusy').2
        · exact hsame hb
      · exfalso
        apply hkeep
        cases p with
        | main =>
          unfold Keeps at hp ⊢
          rw [hmain] at hp
          exact hp
        | handler =>
          unfold Keeps at hp
          rw [hself.1, hself.2.1] at hp
          exact (hbusy hp).1
        | seat q i =>
          obtain ⟨hplayers, hrel⟩ := hp
          rw [hroom] at hplayers
          rw [hthread] at hrel
          exact ⟨hplayers, hrel⟩
    · obtain ⟨h1, h2, h3⟩ := hother d hd
      exact ⟨keeps_congr hmain hroom hthread h1 h2 hp, h3, stateAt_congr hmain p⟩

/-- The handler of `k` puts its player on a free place of room `r` and is done. -/
private theorem handler_seats {d : RoomData} {i : Seat} (hs : s.Disciplined)
    (hocc : ∀ q, t.Occupied q) (hmain : t.main = s.main)
    (hroom : t.room = Function.update s.room r d) (hthread : t.thread = s.thread)
    (harg : t.handlerArg = s.handlerArg)
    (hhandler : t.handler = Function.update s.handler k { s.handler k with pc := .done })
    (hworking : t.handlerWorking = s.handlerWorking) (hstate : t.state = s.state)
    (hbusy : (s.handler k).pc.Searching) (hfree : (s.room r).players i = none)
    (hplayers : d.players = Function.update (s.room r).players i (some (s.handler k).playerIndex)) :
    t.Disciplined := by
  obtain ⟨hne1, hne2, -, hb⟩ := Searching.ne hbusy
  have hindex := (hs.noted k).index hne1 hne2
  have hkept : s.Keeps k .handler := hb _
  rw [hindex] at hplayers
  have hself : t.handler k = { s.handler k with pc := .done } := by rw [hhandler]; simp
  -- the place is not given up: the thread would know the player on it
  have hrel : ¬ (s.thread r).Released i := by
    intro hrel
    have hknows := (hs.occupied r).knows
    unfold Thread.Knows at hknows
    unfold Thread.Released at hrel
    cases hpc : (s.thread r).pc with
    | leaveLock ready j =>
      rw [hpc] at hknows hrel
      obtain ⟨c, hc⟩ := Option.isSome_iff_exists.mp hknows.2
      have := hknows.1 j c not_false hc
      rw [← (hrel : i = j), hfree] at this
      cases this
    | game g done todo =>
      rw [hpc] at hknows hrel
      obtain ⟨c, hc, -⟩ := hrel
      have := hknows i c not_false hc
      rw [hfree] at this
      cases this
    | resetLock =>
      rw [hpc] at hknows hrel
      obtain ⟨c, hc⟩ := Option.isSome_iff_exists.mp hrel
      have := hknows i c not_false hc
      rw [hfree] at this
      cases this
    | _ => rw [hpc] at hrel; exact hrel.elim
  have honly (p : Place) (hp : t.Keeps k p) : p = .seat r i := by
    have hcontra (hp' : s.Keeps k p) (hnot : p ≠ .handler) : p = .seat r i :=
      absurd (hs.once k p _ hp' hkept) hnot
    cases p with
    | main =>
      refine hcontra ?_ nofun
      unfold Keeps at hp ⊢
      rw [hmain] at hp
      exact hp
    | handler =>
      unfold Keeps at hp
      rw [hself] at hp
      exact hp.elim
    | seat q j =>
      by_cases hq : q = r
      · subst hq
        by_cases hj : j = i
        · rw [hj]
        · refine hcontra ⟨?_, ?_⟩ nofun
          · have := hp.1
            rw [hroom, Function.update_self, hplayers, Function.update_of_ne hj] at this
            exact this
          · rw [← hthread]
            exact hp.2
      · refine hcontra ⟨?_, ?_⟩ nofun
        · have := hp.1
          rw [hroom, Function.update_of_ne hq] at this
          exact this
        · rw [← hthread]
          exact hp.2
  refine hs.hand_over k (.seat r i) hocc hthread ?_ ?_
  · intro c
    have hnoted := hs.noted c
    by_cases hc : c = k
    · subst hc
      refine ⟨?_, ?_, ?_, ?_⟩
      · rw [hmain]
        exact hnoted.mainArg
      · rw [hmain, harg, hself, hworking]
        rintro (hm | hm | ⟨hm, -⟩ | hm)
        · exact hnoted.arg (.inl hm)
        · exact hnoted.arg (.inr (.inl hm))
        · cases hm
        · cases hm
      · rw [hself]
        exact fun _ _ ↦ hindex
      · rw [hself]
        exact nofun
    · have hsame : t.handler c = s.handler c := by rw [hhandler]; simp [hc]
      refine ⟨?_, ?_, ?_, ?_⟩
      · rw [hmain]
        exact hnoted.mainArg
      · rw [hmain, harg, hsame, hworking]
        exact hnoted.arg
      · rw [hsame]
        exact hnoted.index
      · rw [hsame, hworking]
        exact hnoted.refused
  · intro c p hp
    by_cases hc : c = k
    · subst hc
      cases honly p hp
      right
      refine ⟨rfl, rfl, ?_, honly⟩
      rw [hstate]
      exact hs.state c .handler hkept
    · left
      have hsame : t.handler c = s.handler c := by rw [hhandler]; simp [hc]
      refine ⟨?_, by rw [hstate], stateAt_congr hmain p⟩
      cases p with
      | main =>
        unfold Keeps at hp ⊢
        rw [hmain] at hp
        exact hp
      | handler =>
        unfold Keeps at hp ⊢
        rw [hsame, hworking] at hp
        exact hp
      | seat q j =>
        obtain ⟨hpl, hr⟩ := hp
        rw [hthread] at hr
        refine ⟨?_, hr⟩
        by_cases hq : q = r
        · subst hq
          rw [hroom, Function.update_self, hplayers] at hpl
          by_cases hj : j = i
          · subst hj
            rw [Function.update_self] at hpl
            exact absurd (Option.some.inj hpl).symm hc
          · rw [Function.update_of_ne hj] at hpl
            exact hpl
        · rw [hroom, Function.update_of_ne hq] at hpl
          exact hpl

private theorem handler_disciplined (h : HandlerDoes s k t out) (hocc : ∀ q, t.Occupied q)
    (hs : s.Disciplined) : t.Disciplined := by
  have hnoted := hs.noted k
  have hw : s.handlerWorking = Function.update s.handlerWorking k (s.handlerWorking k) :=
    (Function.update_eq_self k s.handlerWorking).symm
  have hst : s.state = Function.update s.state k (s.state k) :=
    (Function.update_eq_self k s.state).symm
  cases h with
  | wake hpc hwork =>
    refine handler_moves hs hocc rfl rfl rfl rfl rfl hw hst ?_ (fun _ ↦ rfl) ?_ ?_ nofun
    · exact fun _ ↦ ⟨by rw [hpc]; exact hwork, rfl⟩
    · exact fun _ ↦ hnoted.arg (.inr (.inr (.inl ⟨hpc, hwork⟩)))
    · exact fun _ hno ↦ absurd rfl hno
  | load pc hpc hsearch =>
    obtain ⟨hne1, hne2, hne3, -⟩ := Searching.ne hsearch
    refine handler_moves hs hocc rfl rfl rfl rfl rfl hw hst ?_ (fun _ ↦ rfl) ?_ ?_ ?_
    · exact fun _ ↦ ⟨by rw [hpc]; trivial, rfl⟩
    · rintro (⟨he, -⟩ | he)
      · exact absurd he hne1
      · exact absurd he hne2
    · exact fun _ _ ↦ hnoted.arg (.inr (.inr (.inr hpc)))
    · exact fun he ↦ absurd he hne3
  | search pc hpc hsearch =>
    obtain ⟨hne1, hne2, hne3, -⟩ := Searching.ne hsearch
    obtain ⟨hpc1, hpc2, -, hb⟩ := Searching.ne hpc
    refine handler_moves hs hocc rfl rfl rfl rfl rfl hw hst ?_ (fun _ ↦ rfl) ?_ ?_ ?_
    · exact fun _ ↦ ⟨hb _, rfl⟩
    · rintro (⟨he, -⟩ | he)
      · exact absurd he hne1
      · exact absurd he hne2
    · exact fun _ _ ↦ hnoted.index hpc1 hpc2
    · exact fun he ↦ absurd he hne3
  | join r d hpc hu hg hn hd =>
    obtain ⟨i, hi, rfl⟩ := RoomData.exists_of_join hd
    exact handler_seats hs hocc rfl rfl rfl rfl rfl rfl rfl hpc hi rfl
  | create r random hpc hu =>
    have hsearch : (s.handler k).pc.Searching := by rw [hpc]; trivial
    exact handler_seats (i := 0) hs hocc rfl rfl rfl rfl rfl rfl rfl hsearch
      ((hs.occupied r).sound.empty hu 0) rfl
  | refuse line hpc =>
    obtain ⟨hpc1, hpc2, -, hb⟩ := Searching.ne hpc
    refine handler_moves hs hocc rfl rfl rfl rfl rfl hw hst ?_ (fun _ ↦ rfl) ?_ ?_ nofun
    · exact fun _ ↦ ⟨hb _, rfl⟩
    · rintro (⟨he, -⟩ | he)
      · cases he
      · cases he
    · exact fun _ _ ↦ hnoted.index hpc1 hpc2
  | full hpc =>
    refine handler_moves hs hocc rfl rfl rfl rfl rfl hw hst ?_ (fun _ ↦ rfl) ?_ ?_ nofun
    · exact fun _ ↦ ⟨by rw [hpc]; trivial, rfl⟩
    · rintro (⟨he, -⟩ | he)
      · cases he
      · cases he
    · exact fun _ _ ↦ hnoted.index (by rw [hpc]; exact nofun) (by rw [hpc]; exact nofun)
  | fullState hpc =>
    have hindex := hnoted.index (by rw [hpc]; exact nofun) (by rw [hpc]; exact nofun)
    refine handler_moves (c := .lobby) hs hocc rfl rfl rfl rfl rfl hw
      (congrArg (fun j ↦ Function.update s.state j .lobby) hindex) (fun hb ↦ hb.elim) ?_ ?_ ?_ nofun
    · intro hno
      rw [hpc] at hno
      exact absurd trivial hno
    · rintro (⟨he, -⟩ | he)
      · cases he
      · cases he
    · exact fun _ _ ↦ hindex
  | refusedWorking hpc =>
    refine handler_moves hs hocc rfl rfl rfl rfl rfl rfl hst ?_ (fun _ ↦ rfl) ?_ ?_ (fun _ ↦ rfl)
    · exact fun _ ↦ ⟨by rw [hpc]; trivial, rfl⟩
    · rintro (⟨he, -⟩ | he)
      · cases he
      · cases he
    · exact fun _ _ ↦ hnoted.index (by rw [hpc]; exact nofun) (by rw [hpc]; exact nofun)
  | refusedState hpc =>
    have hindex := hnoted.index (by rw [hpc]; exact nofun) (by rw [hpc]; exact nofun)
    have hoff := hnoted.refused hpc
    refine handler_moves (c := .lobby) hs hocc rfl rfl rfl rfl rfl hw
      (congrArg (fun j ↦ Function.update s.state j .lobby) hindex) ?_ ?_ ?_
      (fun hno ↦ absurd rfl hno) nofun
    · intro hb
      have hb' : s.handlerWorking k = true := hb
      rw [hoff] at hb'
      cases hb'
    · intro hno
      rw [hpc] at hno
      exact absurd trivial hno
    · rintro (⟨-, he⟩ | he)
      · rw [hoff] at he
        cases he
      · cases he
  | done hpc =>
    refine handler_moves hs hocc rfl rfl rfl rfl rfl rfl hst ?_ (fun _ ↦ rfl) ?_
      (fun hno ↦ absurd rfl hno) nofun
    · intro hb
      have hb' : false = true := hb
      cases hb'
    · rintro (⟨-, he⟩ | he)
      · cases he
      · cases he

/-! ### `main` -/

/-- A step of `main` for connection `k`, which then has the state `c` and is kept at `p₁` at
most. -/
private theorem main_moves {c : ConnState} (p₁ : Place) (hs : s.Disciplined)
    (hocc : ∀ q, t.Occupied q) (hroom : t.room = s.room)
    (hthread : t.thread = s.thread) (hhandler : t.handler = s.handler)
    (hstate : t.state = Function.update s.state k c)
    (hworking : ∀ d, d ≠ k → t.handlerWorking d = s.handlerWorking d)
    (hnoted : ∀ d, t.Noted d) (hafter : ∀ d, d ≠ k → ¬ t.Keeps d .main)
    (hplace : ∀ p, t.Keeps k p → p = p₁ ∧ c = t.stateAt p₁) : t.Disciplined := by
  refine hs.hand_over k (p₁) hocc hthread hnoted ?_
  intro d p hp
  by_cases hd : d = k
  · subst hd
    obtain ⟨rfl, hc⟩ := hplace p hp
    right
    refine ⟨rfl, rfl, ?_, fun q hq ↦ (hplace q hq).1⟩
    rw [hstate, Function.update_self]
    exact hc
  · left
    have hst : t.state d = s.state d := by rw [hstate]; simp [hd]
    cases p with
    | main => exact absurd hp (hafter d hd)
    | handler =>
      refine ⟨?_, hst, rfl⟩
      unfold Keeps at hp ⊢
      rw [hhandler, hworking d hd] at hp
      exact hp
    | seat q i =>
      obtain ⟨hplayers, hrel⟩ := hp
      rw [hroom] at hplayers
      rw [hthread] at hrel
      exact ⟨⟨hplayers, hrel⟩, hst, rfl⟩

/-- A connection that `main` is not handing over is kept nowhere in the lobby. -/
private theorem not_kept {p : Place} (hs : s.Disciplined) (hmain : s.main = .idle)
    (hno : s.state k ≠ .room) : ¬ s.Keeps k p := by
  intro hp
  cases p with
  | main =>
    unfold Keeps at hp
    rw [hmain] at hp
    exact hp
  | handler => exact hno (hs.state k _ hp)
  | seat q i => exact hno (hs.state k _ hp)

private theorem request_disciplined {l : Text} (hmain : s.main = .idle) (hlobby : s.state k = .lobby)
    (h : s.request k l = some (t, out)) (hocc : ∀ q, t.Occupied q) (hs : s.Disciplined) :
    t.Disciplined := by
  have hst : s.state = Function.update s.state k (s.state k) :=
    (Function.update_eq_self k s.state).symm
  have hfree (p : Place) : ¬ s.Keeps k p := not_kept hs hmain (by rw [hlobby]; decide)
  obtain ⟨name, main, rfl, hm⟩ := request_does h
  rcases hm with rfl | ⟨a, ha, rfl⟩
  · refine main_moves .main hs hocc rfl rfl rfl hst (fun _ _ ↦ rfl) ?_ ?_ ?_
    · intro d
      exact ⟨(hs.noted d).mainArg, (hs.noted d).arg, (hs.noted d).index, (hs.noted d).refused⟩
    · intro d _ hd
      unfold Keeps at hd
      dsimp only at hd
      rw [hmain] at hd
      exact hd
    · intro p hp
      exact absurd (keeps_congr rfl rfl rfl rfl rfl hp) (hfree p)
  · refine main_moves .main hs hocc rfl rfl rfl hst (fun _ _ ↦ rfl) ?_ ?_ ?_
    · intro d
      refine ⟨?_, ?_, (hs.noted d).index, (hs.noted d).refused⟩
      · intro a' he
        cases he
        exact ha
      · rintro (hd | hd | hd)
        · cases hd
        · cases hd
        · exact (hs.noted d).arg (.inr (.inr hd))
    · intro d hd hk
      exact hd (hk : k = d).symm
    · intro p hp
      cases p with
      | main => exact ⟨rfl, hlobby⟩
      | handler => exact absurd hp (hfree .handler)
      | seat q i => exact absurd hp (hfree (.seat q i))

private theorem mainNext_disciplined (h : s.mainNext = some (t, out)) (hocc : ∀ q, t.Occupied q)
    (hs : s.Disciplined) : t.Disciplined := by
  have hst (k : ConnId) : s.state = Function.update s.state k (s.state k) :=
    (Function.update_eq_self k s.state).symm
  unfold mainNext at h
  split at h
  · cases h
  · next k a hpc =>
    cases h
    have hkept : s.Keeps k .main := by unfold Keeps; rw [hpc]
    have hlobby : s.state k = .lobby := by
      rw [hs.state k .main hkept]
      unfold stateAt
      rw [hpc]
    refine main_moves .main hs hocc rfl rfl rfl (hst k) (fun _ _ ↦ rfl) ?_ ?_ ?_
    · intro d
      refine ⟨nofun, ?_, (hs.noted d).index, (hs.noted d).refused⟩
      intro hd
      by_cases hdk : d = k
      · subst hdk
        dsimp only
        rw [Function.update_self]
        exact (hs.noted d).mainArg a hpc
      · dsimp only
        rw [Function.update_of_ne hdk]
        rcases hd with hd | hd | hd
        · cases hd
          exact absurd rfl hdk
        · cases hd
        · exact (hs.noted d).arg (.inr (.inr hd))
    · intro d hd hk
      exact hd (hk : k = d).symm
    · intro p hp
      cases p with
      | main => exact ⟨rfl, hlobby⟩
      | handler => exact absurd (hs.once k _ .handler hkept hp) nofun
      | seat q i => exact absurd (hs.once k _ (.seat q i) hkept hp) nofun
  · next k hpc =>
    cases h
    have hkept : s.Keeps k .main := by unfold Keeps; rw [hpc]
    refine main_moves (c := .room) .main hs hocc rfl rfl rfl rfl (fun _ _ ↦ rfl) ?_ ?_ ?_
    · intro d
      refine ⟨nofun, ?_, (hs.noted d).index, (hs.noted d).refused⟩
      rintro (hd | hd | hd)
      · cases hd
      · cases hd
        exact (hs.noted k).arg (.inl hpc)
      · exact (hs.noted d).arg (.inr (.inr hd))
    · intro d hd hk
      exact hd (hk : k = d).symm
    · intro p hp
      cases p with
      | main => exact ⟨rfl, rfl⟩
      | handler => exact absurd (hs.once k _ .handler hkept hp) nofun
      | seat q i => exact absurd (hs.once k _ (.seat q i) hkept hp) nofun
  · next k hpc =>
    cases h
    have hkept : s.Keeps k .main := by unfold Keeps; rw [hpc]
    have hroom : s.state k = .room := by
      rw [hs.state k .main hkept]
      unfold stateAt
      rw [hpc]
    refine main_moves .handler hs hocc rfl rfl rfl (hst k) ?_ ?_ ?_ ?_
    · intro d hd
      exact Function.update_of_ne hd _ _
    · intro d
      refine ⟨nofun, ?_, (hs.noted d).index, ?_⟩
      · by_cases hdk : d = k
        · subst hdk
          exact fun _ ↦ (hs.noted d).arg (.inr (.inl hpc))
        · rintro (hd | hd | ⟨hd, hw⟩ | hd)
          · cases hd
          · cases hd
          · refine (hs.noted d).arg (.inr (.inr (.inl ⟨hd, ?_⟩)))
            have hw' : Function.update s.handlerWorking k true d = true := hw
            rwa [Function.update_of_ne hdk] at hw'
          · exact (hs.noted d).arg (.inr (.inr (.inr hd)))
      · intro hd
        have hd' : (s.handler d).pc = .refusedState := hd
        by_cases hdk : d = k
        · subst hdk
          -- it is with `main`, so its handler is not refusing it
          have hbusy : s.Keeps d .handler := by
            unfold Keeps
            rw [hd']
            trivial
          exact absurd (hs.once d _ _ hkept hbusy) nofun
        · change Function.update s.handlerWorking k true d = false
          rw [Function.update_of_ne hdk]
          exact (hs.noted d).refused hd'
    · intro d _ hk
      exact (hk : False)
    · intro p hp
      cases p with
      | main => exact (hp : False).elim
      | handler => exact ⟨rfl, hroom⟩
      | seat q i => exact absurd (hs.once k _ (.seat q i) hkept hp) nofun

/-! ### Runs -/

/-- Every step keeps the discipline. -/
theorem step_disciplined {a : ServerAct} (hoff : s.CreatesOffLoop a) (hok : s.SettlesInTime a)
    (h : s.Step a t) (hs : s.Disciplined) : t.Disciplined := by
  have hocc : ∀ q, t.Occupied q := step_occupied hoff h hs.occupied
  obtain ⟨out, h⟩ := h.exists_out
  cases a with
  | accept k =>
    simp only [step] at h
    split at h
    · next hmain =>
      split at h
      · next hempty =>
        cases h
        have hfree (p : Place) : ¬ s.Keeps k p := not_kept hs hmain (by rw [hempty]; decide)
        refine main_moves (c := .lobby) .main hs hocc rfl rfl rfl rfl (fun _ _ ↦ rfl) ?_ ?_ ?_
        · intro d
          exact ⟨(hs.noted d).mainArg, (hs.noted d).arg, (hs.noted d).index, (hs.noted d).refused⟩
        · intro d _ hd
          unfold Keeps setState at hd
          dsimp only at hd
          rw [hmain] at hd
          exact hd
        · intro p hp
          exact absurd (keeps_congr rfl rfl rfl rfl rfl hp) (hfree p)
      · cases h
    · cases h
  | read k event =>
    simp only [step] at h
    split at h
    · next hmain =>
      split at h
      · next hlobby =>
        split at h
        · cases h
          have hfree (p : Place) : ¬ s.Keeps k p :=
            not_kept hs hmain (by rw [hlobby]; decide)
          refine main_moves (c := .empty) .main hs hocc rfl rfl rfl rfl (fun _ _ ↦ rfl) ?_ ?_ ?_
          · intro d
            exact ⟨(hs.noted d).mainArg, (hs.noted d).arg, (hs.noted d).index,
              (hs.noted d).refused⟩
          · intro d _ hd
            unfold Keeps setState at hd
            dsimp only at hd
            rw [hmain] at hd
            exact hd
          · intro p hp
            exact absurd (keeps_congr rfl rfl rfl rfl rfl hp) (hfree p)
        · exact request_disciplined hmain hlobby h hocc hs
      · cases h
    · cases h
  | main => exact mainNext_disciplined h hocc hs
  | handler k => exact handler_disciplined (handlerNext_does h) hocc hs
  | thread r input => exact thread_disciplined hok (threadNext_does h) hocc hs

/-- Before the first connection nothing is kept anywhere. -/
theorem start_disciplined : start.Disciplined := by
  have hnone (k : ConnId) (p : Place) : ¬ start.Keeps k p := by
    intro hp
    cases p with
    | main => exact hp
    | handler => cases (hp : false = true)
    | seat r i => cases hp.1
  refine ⟨start_occupied, nofun, ?_, ?_, ?_⟩
  · intro k
    refine ⟨nofun, ?_, fun hno ↦ absurd rfl hno, nofun⟩
    rintro (h | h | ⟨-, h⟩ | h)
    · cases h
    · cases h
    · cases h
    · cases h
  · exact fun k p _ hp ↦ absurd hp (hnone k p)
  · exact fun k p hp ↦ absurd hp (hnone k p)

end Parties
end Unpv13e.Server
