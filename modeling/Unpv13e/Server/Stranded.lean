import Unpv13e.Server.Custody

/-!
# Nobody is stranded

Library `Server`. `main` reads a connection no more once its state is 2, so somebody else has to
keep it: `main` while it hands it over, its handler, or a room with the connection in `players[]`
(`src/tcpcliserv/final_server.c:833–863`, `:880–1160`, `:1369–1405`).
-/

namespace Unpv13e.Server
open Unpv13e.Base Unpv13e.Uno

/-- The handler serves a request, from reading it to the end of its work for it. -/
def HandlerPc.Serving : HandlerPc → Prop
  | .idle => False
  | .refusedState => False
  | _ => True

/-- What a thread is about to do brings nobody into a room. -/
def RoomPc.SendsOut : RoomPc → Prop
  | .leaveState _ _ state => state ≠ .room
  | .game g _ _ => ∀ c, Effect.setState c .room ∉ g.out
  | _ => True

namespace Parties

/-- `main` gives a request to a handler that has cleared `handler_working` after the one before. -/
def HandsOverCleared (s : Parties) : ServerAct → Prop
  | .main => ∀ k, s.main = .setWorking k → (s.handler k).pc ≠ .done
  | _ => True

/-- A room is reset when everybody in it has been let in by its thread. -/
def ResetsLetIn (s : Parties) : ServerAct → Prop
  | .thread r _ => (s.thread r).pc = .resetLock →
      ∀ i, (s.room r).players i ≠ none → (s.thread r).used i ≠ none
  | _ => True

/-- A step without the four slips: a room is not created under a thread at its loop test, nothing
is settled against a seat that has left, no handler clears `handler_working` after the next
request, and no room is reset with a player nobody has let in. -/
structure Careful (s : Parties) (a : ServerAct) : Prop where
  offLoop : s.CreatesOffLoop a
  inTime : s.SettlesInTime a
  cleared : s.HandsOverCleared a
  letIn : s.ResetsLetIn a

/-- Every connection in state 2 is kept somewhere. -/
structure Attended (s : Parties) : Prop where
  disciplined : s.Disciplined
  kept : ∀ k, s.state k = .room → ∃ p, s.Keeps k p
  working : ∀ k, (s.handler k).pc.Serving → s.handlerWorking k = true
  sendsOut : ∀ r, (s.thread r).pc.SendsOut

variable {s t : Parties} {k : ConnId} {r : RoomId} {input : Input} {out : List Sent}

/-! ### Threads -/

/-- A thread brings nobody into a room. -/
private theorem sendsOut_thread (h : ThreadDoes s r input t out) (hs : s.Attended) :
    (t.thread r).pc.SendsOut := by
  have hnow := hs.sendsOut r
  cases h with
  | read ready i k event =>
    simp only [setThread, Function.update_self]
    rcases RoomPc.afterRead_cases ready i event with ⟨state, hne, he⟩ | ⟨l, -, -, he⟩ | he
    · rw [he]
      exact hne
    · rw [he]
      trivial
    · rw [he]
      trivial
  | takeOut input ready i hpc =>
    unfold takeOut
    dsimp only
    split
    · simp [setThread, RoomPc.SendsOut]
    · simp [setThread, RoomPc.SendsOut]
  | leaveTest input ready i hpc =>
    simp only [setThread, Function.update_self]
    split
    · trivial
    · trivial
  | leaveOwner input ready i t out hpc h =>
    rw [(leaveOwner_eq h).1]
    simp [setThread, RoomPc.SendsOut]
  | gameOpen rand draw g hpc hg =>
    simp only [setThread, Function.update_self]
    intro c hmem
    have hdis := gameStart_dismissed hg
    obtain ⟨i, hi, hout | hend⟩ := (hdis.mem c).mp (mem_changes.mpr ⟨_, hmem⟩)
    · exact hout (Finset.mem_filter.mpr ⟨Finset.mem_univ i, by rw [hi]; rfl⟩)
    · have hopen := gameStart_opened hg
      rw [hopen.pc] at hend
      cases hend
  | perform input g done todo e hpc =>
    rw [hpc] at hnow
    cases e with
    | send c line =>
      simp only [setThread, perform, Function.update_self]
      exact hnow
    | setState c state =>
      simp only [setThread, perform, setState, Function.update_self]
      exact hnow
  | act g g' done a hpc hno hg =>
    rw [hpc] at hnow
    simp only [setThread, Function.update_self]
    exact fun c hmem ↦ hnow c (gameStep_room hg hmem)
  | _ => simp [setThread, reset, RoomPc.SendsOut]

/-- Whoever is in a room after a step of a thread was in one before. -/
private theorem state_of_thread (h : ThreadDoes s r input t out) (hs : s.Attended)
    (hk : t.state k = .room) : s.state k = .room := by
  have hnow := hs.sendsOut r
  have back (c : ConnId) (state : ConnState) (hne : state ≠ .room)
      (he : Function.update s.state c state k = .room) : s.state k = .room := by
    by_cases hc : k = c
    · subst hc
      rw [Function.update_self] at he
      exact absurd he hne
    · rwa [Function.update_of_ne hc] at he
  cases h with
  | takeOut input ready i hpc =>
    unfold takeOut at hk
    dsimp only at hk
    split at hk
    · exact hk
    · exact hk
  | leaveOwner input ready i t out hpc h =>
    rw [(leaveOwner_eq h).1] at hk
    exact hk
  | leaveState input ready i state c hpc hu =>
    rw [hpc] at hnow
    exact back c state hnow hk
  | perform input g done todo e hpc =>
    cases e with
    | send c line => exact hk
    | setState c state =>
      rw [hpc] at hnow
      refine back c state ?_ hk
      rintro rfl
      obtain ⟨-, -, hout⟩ := hs.disciplined.playing r g done _ hpc
      exact hnow c (hout ▸ List.mem_append_right _ List.mem_cons_self)
  | _ => exact hk

/-- Whoever is still in a room keeps the seat there. -/
private theorem keeps_seat {i : Seat} (hlet : s.ResetsLetIn (.thread r input))
    (h : ThreadDoes s r input t out) (hs : s.Attended) (hk : t.state k = .room)
    (hseat : s.Keeps k (.seat r i)) : t.Keeps k (.seat r i) := by
  obtain ⟨hplayers, hrel⟩ := hseat
  have hnow := hs.sendsOut r
  have hknows := (hs.disciplined.occupied r).knows
  unfold Thread.Knows at hknows
  have stay (hp : (t.room r).players = (s.room r).players) (hpc : KeepsAll (t.thread r).pc) :
      t.Keeps k (.seat r i) := ⟨by rw [hp]; exact hplayers, not_released hpc⟩
  -- A seat the thread has in use is the one in `players[]`.
  have same {c : ConnId} (hlist : Listed (s.thread r).used (s.room r).players fun _ ↦ False)
      (hu : (s.thread r).used i = some c) : c = k :=
    Option.some.inj ((hlist i c not_false hu).symm.trans hplayers)
  cases h with
  | letIn => exact stay (by simp [setThread, setRoom]) (by simp [setThread, KeepsAll])
  | read ready j k' event =>
    refine stay rfl ?_
    simp only [setThread, Function.update_self]
    rcases RoomPc.afterRead_cases ready j event with ⟨state, -, he⟩ | ⟨l, -, -, he⟩ | he
    · rw [he]; trivial
    · rw [he]; trivial
    · rw [he]; trivial
  | leaveState input ready j state c hpc hu =>
    rw [hpc] at hknows hnow
    refine ⟨hplayers, ?_⟩
    simp only [Thread.Released, setThread, Function.update_self]
    rintro rfl
    cases same hknows.1 hu
    have hk' : Function.update s.state k state k = .room := hk
    rw [Function.update_self] at hk'
    exact hnow hk'
  | takeOut input ready j hpc =>
    have hij : i ≠ j := by
      intro he
      apply hrel
      unfold Thread.Released
      rw [hpc]
      exact he
    have hp : Function.update (s.room r).players j none i = some k := by
      rw [Function.update_of_ne hij]
      exact hplayers
    unfold takeOut
    dsimp only
    split
    · exact ⟨by simpa [setThread, setRoom, setRoomWorking] using hp,
        not_released (by simp [setThread, KeepsAll])⟩
    · exact ⟨by simpa [setThread, setRoom] using hp, not_released (by simp [setThread, KeepsAll])⟩
  | leaveTest input ready j hpc =>
    refine stay rfl ?_
    simp only [setThread, Function.update_self]
    split
    · trivial
    · trivial
  | leaveOwner input ready j t out hpc h =>
    rw [(leaveOwner_eq h).1]
    exact ⟨hplayers, not_released (by simp [setThread, KeepsAll])⟩
  | gameLock => exact stay (by simp [setThread, setRoom]) (by simp [setThread, KeepsAll])
  | gameOpen rand draw g hpc =>
    refine ⟨hplayers, ?_⟩
    simp [Thread.Released, setThread]
  | perform input g done todo e hpc =>
    rw [hpc] at hknows hnow
    have hdone (c : ConnId) (hu : (s.thread r).used i = some c) : c ∉ changes done := by
      intro hmem
      apply hrel
      unfold Thread.Released
      rw [hpc]
      exact ⟨c, hu, hmem⟩
    cases e with
    | send c line =>
      refine ⟨hplayers, ?_⟩
      simp only [Thread.Released, setThread, perform, Function.update_self, changes_append,
        changes_send, changes_nil, List.append_nil]
      rintro ⟨c', hu, hmem⟩
      exact hdone c' hu hmem
    | setState c state =>
      refine ⟨hplayers, ?_⟩
      simp only [Thread.Released, setThread, perform, setState, Function.update_self,
        changes_append, changes_setState, changes_nil]
      rintro ⟨c', hu, hmem⟩
      rcases List.mem_append.mp hmem with hmem | hmem
      · exact hdone c' hu hmem
      · cases List.mem_singleton.mp hmem
        cases same hknows hu
        have hk' : Function.update s.state k state k = .room := hk
        rw [Function.update_self] at hk'
        obtain ⟨-, -, hout⟩ := hs.disciplined.playing r g done _ hpc
        exact hnow k (hout ▸ hk' ▸ List.mem_append_right _ List.mem_cons_self)
  | ended input g done hpc hover =>
    rw [hpc] at hknows
    obtain ⟨-, ⟨seats, hdis⟩, hout⟩ := hs.disciplined.playing r g done _ hpc
    refine ⟨hplayers, ?_⟩
    simp only [Thread.Released, setThread, Function.update_self]
    -- At the end of the game all players in use have been sent to the lobby.
    intro hsome
    obtain ⟨c, hu⟩ := Option.isSome_iff_exists.mp hsome
    apply hrel
    unfold Thread.Released
    rw [hpc]
    refine ⟨c, hu, ?_⟩
    rw [List.append_nil] at hout
    rw [hout]
    exact (hdis.mem c).mpr ⟨i, hu, .inr hover⟩
  | act g g' done a hpc =>
    refine ⟨hplayers, ?_⟩
    unfold Thread.Released at hrel ⊢
    rw [hpc] at hrel
    simpa only [setThread, Function.update_self] using hrel
  | reset input hpc =>
    exfalso
    apply hrel
    unfold Thread.Released
    rw [hpc]
    apply Option.isSome_iff_ne_none.mpr
    exact hlet hpc i (by rw [hplayers]; exact Option.some_ne_none k)
  | finishRandom => exact stay (by simp [setThread, setRoom]) (by simp [setThread, KeepsAll])
  | _ => exact stay rfl (by simp [setThread, KeepsAll])

private theorem thread_attended (hok : s.Careful (.thread r input))
    (h : ThreadDoes s r input t out) (hdis : t.Disciplined) (hs : s.Attended) : t.Attended := by
  obtain ⟨hmain, hhandler, hworking, -⟩ := thread_frame h
  refine ⟨hdis, ?_, ?_, ?_⟩
  · intro c hc
    obtain ⟨p, hp⟩ := hs.kept c (state_of_thread h hs hc)
    refine ⟨p, ?_⟩
    cases p with
    | main =>
      unfold Keeps at hp ⊢
      rw [hmain]
      exact hp
    | handler =>
      unfold Keeps at hp ⊢
      rw [hhandler, hworking]
      exact hp
    | seat q i =>
      by_cases hq : q = r
      · subst hq
        exact keeps_seat hok.letIn h hs hc hp
      · obtain ⟨hthread, hroom, -⟩ := thread_other h hq
        obtain ⟨hplayers, hrel⟩ := hp
        refine ⟨?_, ?_⟩
        · rw [hroom]
          exact hplayers
        · rw [hthread]
          exact hrel
  · intro c
    rw [hhandler, hworking]
    exact hs.working c
  · intro q
    by_cases hq : q = r
    · subst hq
      exact sendsOut_thread h hs
    · rw [(thread_other h hq).1]
      exact hs.sendsOut q

/-! ### Handlers -/

/-- A thread gives up no seat that is free. -/
private theorem free_not_released {i : Seat} (hs : s.Occupied r)
    (hi : (s.room r).players i = none) : ¬ (s.thread r).Released i := by
  have hknows := hs.knows
  have absent {c : ConnId} (hlist : Listed (s.thread r).used (s.room r).players fun _ ↦ False)
      (hu : (s.thread r).used i = some c) : False := by
    cases hi.symm.trans (hlist i c not_false hu)
  unfold Thread.Knows at hknows
  unfold Thread.Released
  cases hpc : (s.thread r).pc with
  | leaveLock ready j =>
    rw [hpc] at hknows
    rintro rfl
    obtain ⟨c, hu⟩ := Option.isSome_iff_exists.mp hknows.2
    exact absent hknows.1 hu
  | game g done todo =>
    rw [hpc] at hknows
    rintro ⟨c, hu, -⟩
    exact absent hknows hu
  | resetLock =>
    rw [hpc] at hknows
    intro hsome
    obtain ⟨c, hu⟩ := Option.isSome_iff_exists.mp hsome
    exact absent hknows hu
  | _ => exact not_false

/-- A free place of a room goes to a player: the seats of all others stay. -/
private theorem keeps_place {d : RoomData} {i : Seat} (hthread : t.thread = s.thread)
    (hroom : t.room = Function.update s.room r d)
    (hplayers : d.players = Function.update (s.room r).players i (some k))
    (hi : (s.room r).players i = none) (c : ConnId) (q : RoomId) (j : Seat)
    (h : s.Keeps c (.seat q j)) : t.Keeps c (.seat q j) := by
  obtain ⟨hp, hrel⟩ := h
  rw [← hthread] at hrel
  refine ⟨?_, hrel⟩
  by_cases hq : q = r
  · subst hq
    have hj : j ≠ i := by
      rintro rfl
      cases hi.symm.trans hp
    rw [hroom, Function.update_self, hplayers, Function.update_of_ne hj]
    exact hp
  · rw [hroom, Function.update_of_ne hq]
    exact hp

/-- The seat the player has got. -/
private theorem keeps_new {d : RoomData} {i : Seat} (hs : s.Occupied r)
    (hthread : t.thread = s.thread) (hroom : t.room = Function.update s.room r d)
    (hplayers : d.players = Function.update (s.room r).players i (some k))
    (hi : (s.room r).players i = none) : t.Keeps k (.seat r i) := by
  refine ⟨?_, ?_⟩
  · rw [hroom, Function.update_self, hplayers, Function.update_self]
  · rw [hthread]
    exact free_not_released hs hi

/-- A step of the handler of `k`, after which `k` is kept if it is in a room. -/
private theorem handler_attends {h' : Handler} {b : Bool} {c : ConnState} (hs : s.Attended)
    (hdis : t.Disciplined) (hmain : t.main = s.main) (hthread : t.thread = s.thread)
    (hhandler : t.handler = Function.update s.handler k h')
    (hworking : t.handlerWorking = Function.update s.handlerWorking k b)
    (hstate : t.state = Function.update s.state k c)
    (hseat : ∀ d q i, s.Keeps d (.seat q i) → t.Keeps d (.seat q i))
    (hself : c = .room → ∃ p, t.Keeps k p) (hserving : h'.pc.Serving → b = true) :
    t.Attended := by
  have hother (d : ConnId) (hd : d ≠ k) : t.handler d = s.handler d ∧
      t.handlerWorking d = s.handlerWorking d ∧ t.state d = s.state d := by
    rw [hhandler, hworking, hstate]
    simp [hd]
  refine ⟨hdis, ?_, ?_, ?_⟩
  · intro d hd
    by_cases hdk : d = k
    · subst hdk
      rw [hstate, Function.update_self] at hd
      exact hself hd
    · obtain ⟨hh, hw, hst⟩ := hother d hdk
      rw [hst] at hd
      obtain ⟨p, hp⟩ := hs.kept d hd
      refine ⟨p, ?_⟩
      cases p with
      | main =>
        unfold Keeps at hp ⊢
        rw [hmain]
        exact hp
      | handler =>
        unfold Keeps at hp ⊢
        rw [hh, hw]
        exact hp
      | seat q i => exact hseat d q i hp
  · intro d hd
    by_cases hdk : d = k
    · subst hdk
      rw [hhandler, Function.update_self] at hd
      rw [hworking, Function.update_self]
      exact hserving hd
    · obtain ⟨hh, hw, -⟩ := hother d hdk
      rw [hh] at hd
      rw [hw]
      exact hs.working d hd
  · intro q
    rw [hthread]
    exact hs.sendsOut q

private theorem Searching.serving {pc : HandlerPc} (h : pc.Searching) :
    pc.Serving ∧ ∀ b, pc.Busy b := by
  cases pc with
  | scanRandom | joinRandom | scanCreate | create | join | fullSend =>
    exact ⟨trivial, fun _ ↦ trivial⟩
  | _ => exact h.elim

private theorem handler_attended (h : HandlerDoes s k t out) (hdis : t.Disciplined)
    (hs : s.Attended) : t.Attended := by
  have hnoted := hs.disciplined.noted k
  have hw : s.handlerWorking = Function.update s.handlerWorking k (s.handlerWorking k) :=
    (Function.update_eq_self k s.handlerWorking).symm
  have hst : s.state = Function.update s.state k (s.state k) :=
    (Function.update_eq_self k s.state).symm
  -- A handler that goes on with the request keeps the connection.
  have busy {u : Parties} {h' : Handler} {b : Bool}
      (hhandler : u.handler = Function.update s.handler k h')
      (hworking : u.handlerWorking = Function.update s.handlerWorking k b) (hb : h'.pc.Busy b) :
      ∃ p, u.Keeps k p := by
    refine ⟨.handler, ?_⟩
    unfold Keeps
    rw [hhandler, hworking, Function.update_self, Function.update_self]
    exact hb
  cases h with
  | wake hpc hwork =>
    exact handler_attends hs hdis rfl rfl rfl hw hst (fun _ _ _ h ↦ h)
      (fun _ ↦ busy rfl hw trivial) fun _ ↦ hwork
  | load pc hpc hsearch =>
    exact handler_attends hs hdis rfl rfl rfl hw hst (fun _ _ _ h ↦ h)
      (fun _ ↦ busy rfl hw ((Searching.serving hsearch).2 _))
      fun _ ↦ hs.working k (by rw [hpc]; trivial)
  | search pc hpc hsearch =>
    exact handler_attends hs hdis rfl rfl rfl hw hst (fun _ _ _ h ↦ h)
      (fun _ ↦ busy rfl hw ((Searching.serving hsearch).2 _))
      fun _ ↦ hs.working k (Searching.serving hpc).1
  | join r d hpc hu hg hn hd =>
    obtain ⟨i, hi, rfl⟩ := RoomData.exists_of_join hd
    have hserving := (Searching.serving hpc).1
    have hindex : (s.handler k).playerIndex = k := by
      apply hnoted.index
      · intro he
        rw [he] at hpc
        exact hpc
      · intro he
        rw [he] at hpc
        exact hpc
    rw [hindex] at hdis ⊢
    exact handler_attends hs hdis rfl rfl rfl hw hst (keeps_place rfl rfl rfl hi)
      (fun _ ↦ ⟨_, keeps_new (hs.disciplined.occupied r) rfl rfl rfl hi⟩)
      fun _ ↦ hs.working k hserving
  | create r random hpc hu =>
    have hi := (hs.disciplined.occupied r).sound.empty hu 0
    have hindex : (s.handler k).playerIndex = k :=
      hnoted.index (by rw [hpc]; exact nofun) (by rw [hpc]; exact nofun)
    unfold createRoom at hdis ⊢
    rw [hindex] at hdis ⊢
    exact handler_attends hs hdis rfl rfl rfl hw hst (keeps_place rfl rfl rfl hi)
      (fun _ ↦ ⟨_, keeps_new (hs.disciplined.occupied r) rfl rfl rfl hi⟩)
      fun _ ↦ hs.working k (by rw [hpc]; trivial)
  | refuse line hpc =>
    exact handler_attends hs hdis rfl rfl rfl hw hst (fun _ _ _ h ↦ h)
      (fun _ ↦ busy rfl hw trivial) fun _ ↦ hs.working k (Searching.serving hpc).1
  | full hpc =>
    exact handler_attends hs hdis rfl rfl rfl hw hst (fun _ _ _ h ↦ h)
      (fun _ ↦ busy rfl hw trivial) fun _ ↦ hs.working k (by rw [hpc]; trivial)
  | fullState hpc =>
    have hindex := hnoted.index (by rw [hpc]; exact nofun) (by rw [hpc]; exact nofun)
    exact handler_attends (c := .lobby) hs hdis rfl rfl rfl hw
      (congrArg (fun j ↦ Function.update s.state j .lobby) hindex) (fun _ _ _ h ↦ h) nofun
      fun _ ↦ hs.working k (by rw [hpc]; trivial)
  | refusedWorking hpc =>
    exact handler_attends hs hdis rfl rfl rfl rfl hst (fun _ _ _ h ↦ h)
      (fun _ ↦ busy rfl rfl trivial) fun hno ↦ hno.elim
  | refusedState hpc =>
    have hindex := hnoted.index (by rw [hpc]; exact nofun) (by rw [hpc]; exact nofun)
    exact handler_attends (c := .lobby) hs hdis rfl rfl rfl hw
      (congrArg (fun j ↦ Function.update s.state j .lobby) hindex) (fun _ _ _ h ↦ h) nofun
      fun hno ↦ hno.elim
  | done hpc =>
    refine handler_attends hs hdis rfl rfl rfl rfl hst (fun _ _ _ h ↦ h) ?_ fun hno ↦ hno.elim
    -- Its work for `k` was done, so `k` is with `main` or on a seat.
    intro hroom
    obtain ⟨p, hp⟩ := hs.kept k hroom
    cases p with
    | main => exact ⟨.main, hp⟩
    | handler =>
      unfold Keeps at hp
      rw [hpc] at hp
      exact hp.elim
    | seat q i => exact ⟨.seat q i, hp⟩

/-! ### `main` -/

private theorem mainNext_attended (hcleared : s.HandsOverCleared .main)
    (h : s.mainNext = some (t, out)) (hdis : t.Disciplined) (hs : s.Attended) : t.Attended := by
  -- Whoever is not with `main` stays where it is.
  have others {u : Parties} {c k : ConnId} (hroom : u.room = s.room) (hthread : u.thread = s.thread)
      (hhandler : u.handler = s.handler) (hworking : u.handlerWorking c = s.handlerWorking c)
      (hmain : ∀ d, s.Keeps d .main → d = k) (hc : c ≠ k) (hstate : s.state c = .room) :
      ∃ p, u.Keeps c p := by
    obtain ⟨p, hp⟩ := hs.kept c hstate
    cases p with
    | main => exact absurd (hmain c hp) hc
    | handler =>
      refine ⟨.handler, ?_⟩
      unfold Keeps at hp ⊢
      rw [hhandler, hworking]
      exact hp
    | seat q i =>
      refine ⟨.seat q i, ?_⟩
      obtain ⟨hplayers, hrel⟩ := hp
      rw [← hroom] at hplayers
      rw [← hthread] at hrel
      exact ⟨hplayers, hrel⟩
  unfold mainNext at h
  split at h
  · cases h
  · next k a hpc =>
    cases h
    have honly (d : ConnId) (hd : s.Keeps d .main) : d = k := by
      unfold Keeps at hd
      rw [hpc] at hd
      exact Eq.symm hd
    refine ⟨hdis, ?_, hs.working, hs.sendsOut⟩
    intro c hc
    by_cases hck : c = k
    · subst hck
      exact ⟨.main, rfl⟩
    · exact others rfl rfl rfl rfl honly hck hc
  · next k hpc =>
    cases h
    have honly (d : ConnId) (hd : s.Keeps d .main) : d = k := by
      unfold Keeps at hd
      rw [hpc] at hd
      exact Eq.symm hd
    refine ⟨hdis, ?_, hs.working, hs.sendsOut⟩
    intro c hc
    by_cases hck : c = k
    · subst hck
      exact ⟨.main, rfl⟩
    · have hc' : Function.update s.state k .room c = .room := hc
      rw [Function.update_of_ne hck] at hc'
      exact others rfl rfl rfl rfl honly hck hc'
  · next k hpc =>
    cases h
    have hkept : s.Keeps k .main := by
      unfold Keeps
      rw [hpc]
    have honly (d : ConnId) (hd : s.Keeps d .main) : d = k := by
      unfold Keeps at hd
      rw [hpc] at hd
      exact Eq.symm hd
    -- The handler has nothing else to do, and takes the request.
    have hidle : (s.handler k).pc = .idle := by
      have hbusy : ¬ s.Keeps k .handler := fun hb ↦
        absurd (hs.disciplined.once k _ _ hkept hb) nofun
      have hdone := hcleared k hpc
      unfold Keeps at hbusy
      cases hpc' : (s.handler k).pc with
      | idle => rfl
      | done => exact absurd hpc' hdone
      | _ =>
        rw [hpc'] at hbusy
        exact absurd trivial hbusy
    refine ⟨hdis, ?_, ?_, hs.sendsOut⟩
    · intro c hc
      by_cases hck : c = k
      · subst hck
        refine ⟨.handler, ?_⟩
        change (s.handler c).pc.Busy (Function.update s.handlerWorking c true c)
        rw [hidle, Function.update_self]
        rfl
      · exact others rfl rfl rfl (Function.update_of_ne hck _ _) honly hck hc
    · intro c hc
      change Function.update s.handlerWorking k true c = true
      by_cases hck : c = k
      · rw [hck, Function.update_self]
      · rw [Function.update_of_ne hck]
        exact hs.working c hc

/-- The lobby puts nobody into a room. -/
private theorem lobby_attended (name : ConnId → Text) (main : RequestPc) {c : ConnState}
    (hidle : s.main = .idle) (hc : c ≠ .room)
    (hdis : Parties.Disciplined
      { s with name := name, main := main, state := Function.update s.state k c })
    (hs : s.Attended) :
    Parties.Attended { s with name := name, main := main, state := Function.update s.state k c } := by
  refine ⟨hdis, ?_, hs.working, hs.sendsOut⟩
  intro d hd
  have hd' : Function.update s.state k c d = .room := hd
  have hdk : d ≠ k := by
    rintro rfl
    rw [Function.update_self] at hd'
    exact hc hd'
  rw [Function.update_of_ne hdk] at hd'
  obtain ⟨p, hp⟩ := hs.kept d hd'
  cases p with
  | main =>
    unfold Keeps at hp
    rw [hidle] at hp
    exact hp.elim
  | handler => exact ⟨.handler, hp⟩
  | seat q i => exact ⟨.seat q i, hp⟩

/-! ### Runs -/

/-- A careful step strands nobody. -/
theorem step_attended {a : ServerAct} (hok : s.Careful a) (h : s.Step a t) (hs : s.Attended) :
    t.Attended := by
  have hdis : t.Disciplined := step_disciplined hok.offLoop hok.inTime h hs.disciplined
  obtain ⟨out, h⟩ := h.exists_out
  cases a with
  | accept k =>
    simp only [step] at h
    split at h
    · next hmain =>
      split at h
      · cases h
        exact lobby_attended s.name s.main hmain (by decide) hdis hs
      · cases h
    · cases h
  | read k event =>
    simp only [step] at h
    split at h
    · next hmain =>
      split at h
      · next hlobby =>
        split at h
        · cases h
          exact lobby_attended s.name s.main hmain (by decide) hdis hs
        · obtain ⟨name, main, rfl, -⟩ := request_does h
          have hsame : s.state = Function.update s.state k .lobby := by
            rw [← hlobby, Function.update_eq_self]
          have := lobby_attended (s := s) (k := k) name main (c := .lobby) hmain
            (by decide)
          rw [← hsame] at this
          exact this hdis hs
      · cases h
    · cases h
  | main => exact mainNext_attended hok.cleared h hdis hs
  | handler k => exact handler_attended (handlerNext_does h) hdis hs
  | thread r input => exact thread_attended hok (threadNext_does h) hdis hs

/-- Before the first connection nobody is in a room. -/
theorem start_attended : start.Attended := by
  refine ⟨start_disciplined, ?_, ?_, ?_⟩
  · exact fun k hk ↦ by cases hk
  · exact fun k hk ↦ hk.elim
  · exact fun r ↦ trivial

/-- In every careful run a connection in state 2 is being handed over by `main`, is served by its
handler, is about to be sent back by it, or is in a room that is in use. -/
theorem nobody_stranded (h : RunWith Step Careful start s) (k : ConnId) (hk : s.state k = .room) :
    s.main = .setWorking k ∨ s.handlerWorking k = true ∨ (s.handler k).pc = .refusedState ∨
      ∃ r i, (s.room r).players i = some k ∧ (s.room r).used = true := by
  have hs : s.Attended := h.preserves (fun s a t hi hok hs ↦ step_attended hok hs hi) start_attended
  obtain ⟨p, hp⟩ := hs.kept k hk
  cases p with
  | main =>
    have hstate := hs.disciplined.state k _ hp
    left
    unfold Keeps at hp
    unfold stateAt at hstate
    cases hpc : s.main with
    | idle => rw [hpc] at hp; exact hp.elim
    | arg => rw [hpc, hk] at hstate; cases hstate
    | setRoom => rw [hpc, hk] at hstate; cases hstate
    | setWorking k' =>
      rw [hpc] at hp
      rw [(hp : k' = k)]
  | handler =>
    unfold Keeps at hp
    right
    cases hpc : (s.handler k).pc with
    | idle =>
      rw [hpc] at hp
      exact .inl hp
    | refusedState => exact .inr (.inl rfl)
    | _ => exact .inl (hs.working k (by rw [hpc]; trivial))
  | seat r i =>
    have hsound := (hs.disciplined.occupied r).sound
    refine .inr (.inr (.inr ⟨r, i, hp.1, ?_⟩))
    cases hu : (s.room r).used with
    | true => rfl
    | false => cases (hsound.empty hu i).symm.trans hp.1

/-- The steps of `main` and of handlers that are careful. -/
private def careful : Parties → ServerAct → Bool
  | _, .accept _ => true
  | _, .read _ _ => true
  | s, .main =>
    match s.main with
    | .setWorking k =>
      match (s.handler k).pc with
      | .done => false
      | _ => true
    | _ => true
  | s, .handler k =>
    match (s.handler k).pc with
    | .create r _ =>
      match (s.thread r).pc with
      | .loopTest => false
      | _ => true
    | _ => true
  | _, .thread _ _ => false

private theorem careful_of_careful (s : Parties) (a : ServerAct) (h : careful s a = true) :
    s.Careful a := by
  cases a with
  | accept k => exact ⟨trivial, trivial, trivial, trivial⟩
  | read k event => exact ⟨trivial, trivial, trivial, trivial⟩
  | main =>
    refine ⟨trivial, trivial, ?_, trivial⟩
    intro k hpc hdone
    simp [careful, hpc, hdone] at h
  | handler k =>
    refine ⟨?_, trivial, trivial, trivial⟩
    intro r random hpc _
    simp only [careful, hpc] at h
    cases hp : (s.thread r).pc with
    | loopTest => simp [hp] at h
    | _ => trivial
  | thread r input => cases h

/-- Client 0 asks for a room of its own, up to the second statement of `main`. -/
private def asksForRoom : List ServerAct := [.accept 0, .read 0 (.line ['3', '\n']), .main, .main]

/-- Client 0 opens room 0 and is in it. -/
theorem nobody_stranded_in_room :
    ∃ s, Run Step start s ∧ s.state 0 = .room ∧
      (s.main = .setWorking 0 ∨ s.handlerWorking 0 = true ∨ (s.handler 0).pc = .refusedState ∨
        ∃ r i, (s.room r).players i = some 0 ∧ (s.room r).used = true) := by
  have h : (playActs (guarded careful next) start
      (asksForRoom ++ .main :: List.replicate 5 (.handler 0))).map (·.state 0) = some .room := by
    decide +kernel
  obtain ⟨s, hs, hroom⟩ := Option.map_eq_some_iff.mp h
  have hrun : RunWith Step Careful start s := runWith_of_playActs careful_of_careful hs
  exact ⟨s, hrun.mono fun _ _ _ ↦ True.intro, hroom, nobody_stranded hrun 0 hroom⟩

/-- While `main` hands client 0 over, its state is 2, `handler_working` is not set yet, and it is
in no room. -/
theorem in_transit : ∃ s, Run Step start s ∧ ∃ k, s.state k = .room ∧
    ¬ (s.handlerWorking k = true ∨
      ∃ r i, (s.room r).players i = some k ∧ (s.room r).used = true) := by
  have h : (playActs next start asksForRoom).map
      (fun s ↦ (s.state 0, s.handlerWorking 0, decide (∀ r, (s.room r).used = false))) =
        some (.room, false, true) := by
    decide +kernel
  obtain ⟨s, hs, he⟩ := Option.map_eq_some_iff.mp h
  simp only [Prod.mk.injEq, decide_eq_true_eq] at he
  obtain ⟨hroom, hworking, hunused⟩ := he
  refine ⟨s, run_of_playActs hs, 0, hroom, ?_⟩
  rintro (hw | ⟨r, i, -, hu⟩)
  · rw [hworking] at hw
    cases hw
  · rw [hunused r] at hu
    cases hu

end Parties
end Unpv13e.Server
