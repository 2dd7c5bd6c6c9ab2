import Unpv13e.Server.Rooms

/-!
# What a step of a party does

Library `Server`. The steps of handlers and room threads one by one, each with what it needs and
what it leaves: the inversion of `handlerNext` and `threadNext` that the invariants of the rooms
are proved with.
-/

namespace Unpv13e.Server
open Unpv13e.Base Unpv13e.Uno

/-- The handler looks for a room, or has one to ask for. -/
def HandlerPc.Searching : HandlerPc → Prop
  | .scanRandom _ _ => True
  | .joinRandom _ => True
  | .scanCreate _ => True
  | .create _ _ => True
  | .join _ => True
  | .fullSend => True
  | _ => False

/-- After reading from a seat the thread takes the player out, thinks of starting a game, or goes
on to the next seat. -/
theorem RoomPc.afterRead_cases (ready : List Seat) (i : Seat) (event : Event) :
    (∃ state, state ≠ .room ∧ afterRead ready i event = .leaveState ready i state) ∨
      (∃ l, event = .line l ∧ charAt l 0 = '7' ∧ afterRead ready i event = .startTest ready i) ∨
      afterRead ready i event = .scan ready (i.val + 1) := by
  cases event with
  | eof => exact .inl ⟨.empty, nofun, rfl⟩
  | line l =>
    unfold afterRead
    dsimp only
    split
    · exact .inl ⟨.lobby, nofun, rfl⟩
    split
    · next h7 => exact .inr (.inl ⟨l, rfl, h7, rfl⟩)
    · exact .inr (.inr rfl)

namespace Parties

/-- The steps of the handler of `k`. -/
inductive HandlerDoes (s : Parties) (k : ConnId) : Parties → List Sent → Prop
  | wake (hpc : (s.handler k).pc = .idle) (hw : s.handlerWorking k = true) :
      HandlerDoes s k (s.setHandler k .load) []
  | load (pc : HandlerPc) (hpc : (s.handler k).pc = .load) (hs : pc.Searching) :
      HandlerDoes s k
        { s with handler := Function.update s.handler k ⟨pc, (s.handlerArg k).owner⟩ } []
  | search (pc : HandlerPc) (hpc : (s.handler k).pc.Searching) (hs : pc.Searching) :
      HandlerDoes s k (s.setHandler k pc) []
  | join (r : RoomId) (d : RoomData) (hpc : (s.handler k).pc.Searching)
      (hu : (s.room r).used = true) (hg : (s.room r).inGame = false)
      (hn : (s.room r).playerNum < 9) (hd : (s.room r).join (s.handler k).playerIndex = some d) :
      HandlerDoes s k { (s.setRoom r d).setHandler k .done with roomNum := s.roomNum + 1 } []
  | create (r : RoomId) (random : Bool) (hpc : (s.handler k).pc = .create r random)
      (hu : (s.room r).used = false) : HandlerDoes s k (s.createRoom k r random) []
  | refuse (line : Text) (hpc : (s.handler k).pc.Searching)
      (hl : line ∈ [['1', '6', '\n'], ['1', '7', '\n'], ['1', '8', '\n']]) :
      HandlerDoes s k (s.setHandler k .refusedWorking) [((s.handler k).playerIndex, line)]
  | full (hpc : (s.handler k).pc = .fullSend) :
      HandlerDoes s k (s.setHandler k .fullState)
        [((s.handler k).playerIndex, ['1', '7', '\n'])]
  | fullState (hpc : (s.handler k).pc = .fullState) :
      HandlerDoes s k ((s.setState (s.handler k).playerIndex .lobby).setHandler k .done) []
  | refusedWorking (hpc : (s.handler k).pc = .refusedWorking) :
      HandlerDoes s k ((s.setWorking k false).setHandler k .refusedState) []
  | refusedState (hpc : (s.handler k).pc = .refusedState) :
      HandlerDoes s k ((s.setState (s.handler k).playerIndex .lobby).setHandler k .idle) []
  | done (hpc : (s.handler k).pc = .done) :
      HandlerDoes s k ((s.setWorking k false).setHandler k .idle) []

private theorem joined_does {s t : Parties} {k : ConnId} {r : RoomId} {out : List Sent}
    (hpc : (s.handler k).pc.Searching) (hu : ¬ (s.room r).used = false)
    (hg : ¬ (s.room r).inGame = true) (hn : ¬ 9 ≤ (s.room r).playerNum)
    (h : s.joined k r = some (t, out)) : HandlerDoes s k t out := by
  unfold joined at h
  split at h
  · cases h
  · next d hd =>
    cases h
    exact .join r d hpc (by simpa using hu) (by simpa using hg) (by omega) hd

/-- The inversion of a handler's step. -/
theorem handlerNext_does {s t : Parties} {k : ConnId} {out : List Sent}
    (h : s.handlerNext k = some (t, out)) : HandlerDoes s k t out := by
  have hs (pc : HandlerPc) (hpc : (s.handler k).pc = pc) (hp : pc.Searching) :
      (s.handler k).pc.Searching := hpc ▸ hp
  cases hpc : (s.handler k).pc with
  | idle =>
    simp only [handlerNext, hpc, Option.ite_none_right_eq_some] at h
    obtain ⟨hw, h⟩ := h
    cases h
    exact .wake hpc hw
  | load =>
    simp only [handlerNext, hpc, Option.some.injEq, Prod.mk.injEq] at h
    obtain ⟨rfl, rfl⟩ := h
    refine .load _ hpc ?_
    split
    · trivial
    split
    · trivial
    · trivial
  | scanRandom index fittest =>
    simp only [handlerNext, hpc] at h
    split at h
    · split at h
      · cases h; exact .search _ (hs _ hpc trivial) trivial
      split at h
      · cases h; exact .search _ (hs _ hpc trivial) trivial
      · cases h; exact .search _ (hs _ hpc trivial) trivial
    · split at h
      · cases h; exact .search _ (hs _ hpc trivial) trivial
      · cases h; exact .search _ (hs _ hpc trivial) trivial
  | joinRandom r =>
    simp only [handlerNext, hpc] at h
    split at h
    · cases h; exact .search _ (hs _ hpc trivial) trivial
    · next hno =>
      rw [not_or, not_or] at hno
      exact joined_does (hs _ hpc trivial) hno.1 hno.2.1 hno.2.2 h
  | scanCreate index =>
    simp only [handlerNext, hpc] at h
    split at h
    · split at h
      · cases h; exact .search _ (hs _ hpc trivial) trivial
      · cases h; exact .search _ (hs _ hpc trivial) trivial
    · cases h; exact .search _ (hs _ hpc trivial) trivial
  | create r random =>
    simp only [handlerNext, hpc] at h
    split at h
    · cases h
      refine .search _ (hs _ hpc trivial) ?_
      split
      · trivial
      · trivial
    · next hu =>
      cases h
      exact .create r random hpc (by simpa using hu)
  | join roomNo =>
    simp only [handlerNext, hpc] at h
    split at h
    · split at h
      · cases h; exact .refuse _ (hs _ hpc trivial) (by decide)
      next hu =>
      split at h
      · cases h; exact .refuse _ (hs _ hpc trivial) (by decide)
      next hg =>
      split at h
      · cases h; exact .refuse _ (hs _ hpc trivial) (by decide)
      next hn =>
      exact joined_does (hs _ hpc trivial) (not_or.mp hu).1 hg hn h
    · cases h
  | fullSend =>
    simp only [handlerNext, hpc, Option.some.injEq, Prod.mk.injEq] at h
    obtain ⟨rfl, rfl⟩ := h
    exact .full hpc
  | fullState =>
    simp only [handlerNext, hpc, Option.some.injEq, Prod.mk.injEq] at h
    obtain ⟨rfl, rfl⟩ := h
    exact .fullState hpc
  | refusedWorking =>
    simp only [handlerNext, hpc, Option.some.injEq, Prod.mk.injEq] at h
    obtain ⟨rfl, rfl⟩ := h
    exact .refusedWorking hpc
  | refusedState =>
    simp only [handlerNext, hpc, Option.some.injEq, Prod.mk.injEq] at h
    obtain ⟨rfl, rfl⟩ := h
    exact .refusedState hpc
  | done =>
    simp only [handlerNext, hpc, Option.some.injEq, Prod.mk.injEq] at h
    obtain ⟨rfl, rfl⟩ := h
    exact .done hpc

/-- The steps of the thread of `r`. -/
inductive ThreadDoes (s : Parties) (r : RoomId) : Input → Parties → List Sent → Prop
  | begin (input : Input) (hpc : (s.thread r).pc = .waiting) (hw : s.roomWorking r = true) :
      ThreadDoes s r input (s.setThread r { s.thread r with pc := .load }) []
  | load (input : Input) (hpc : (s.thread r).pc = .load) :
      ThreadDoes s r input (s.setThread r { s.thread r with
        pc := .loopTest, used := fun _ ↦ none, owner := (s.roomArg r).owner, alreadyPlay := false,
        serves := s.created r }) []
  | loop (input : Input) (hpc : (s.thread r).pc = .loopTest) (hw : s.roomWorking r = true)
      (ha : (s.thread r).alreadyPlay = false) :
      ThreadDoes s r input (s.setThread r { s.thread r with pc := .letIn }) []
  | leaveLoop (input : Input) (hpc : (s.thread r).pc = .loopTest)
      (hno : s.roomWorking r = false ∨ (s.thread r).alreadyPlay = true) :
      ThreadDoes s r input (s.setThread r { s.thread r with pc := .finishRandom }) []
  | letIn (input : Input) (acc : (Seat → Option ConnId) × List Sent) (hpc : (s.thread r).pc = .letIn)
      (hnew : (s.room r).newPlayer = true)
      (hacc : (List.finRange 10).foldlM (s.letInSeat r (s.thread r).owner)
        ((s.thread r).used, []) = some acc) :
      ThreadDoes s r input ((s.setRoom r { s.room r with newPlayer := false }).setThread r
        { s.thread r with
          pc := .select
          used := acc.1
          playerNum := if acc.2 = [] then (s.thread r).playerNum else (s.room r).playerNum }) acc.2
  | nobodyNew (input : Input) (hpc : (s.thread r).pc = .letIn) (hnew : (s.room r).newPlayer = false) :
      ThreadDoes s r input (s.setThread r { s.thread r with pc := .select }) []
  | select (seats : List Seat) (hpc : (s.thread r).pc = .select)
      (hs : ∀ i ∈ seats, ((s.thread r).used i).isSome) :
      ThreadDoes s r (.ready seats) (s.setThread r { s.thread r with pc := .scan seats 0 }) []
  | pass (ready : List Seat) (i : Nat) (input : Input) (hpc : (s.thread r).pc = .scan ready i)
      (hi : i < 10) (hno : (s.thread r).used ⟨i, hi⟩ = none ∨ ⟨i, hi⟩ ∉ ready) :
      ThreadDoes s r input (s.setThread r { s.thread r with pc := .scan ready (i + 1) }) []
  | scanned (ready : List Seat) (i : Nat) (input : Input) (hpc : (s.thread r).pc = .scan ready i)
      (hi : ¬ i < 10) :
      ThreadDoes s r input (s.setThread r { s.thread r with pc := .loopTest }) []
  | read (ready : List Seat) (i : Seat) (k : ConnId) (event : Event)
      (hpc : (s.thread r).pc = .scan ready i.val) (hu : (s.thread r).used i = some k)
      (hi : i ∈ ready) :
      ThreadDoes s r (.read event)
        (s.setThread r { s.thread r with pc := .afterRead ready i event }) []
  | leaveState (input : Input) (ready : List Seat) (i : Seat) (state : ConnState) (k : ConnId)
      (hpc : (s.thread r).pc = .leaveState ready i state) (hu : (s.thread r).used i = some k) :
      ThreadDoes s r input
        ((s.setState k state).setThread r { s.thread r with pc := .leaveLock ready i }) []
  | takeOut (input : Input) (ready : List Seat) (i : Seat) (hpc : (s.thread r).pc = .leaveLock ready i) :
      ThreadDoes s r input (s.takeOut r (s.thread r) ready i) []
  | leaveTest (input : Input) (ready : List Seat) (i : Seat) (hpc : (s.thread r).pc = .leaveTest ready i) :
      ThreadDoes s r input (s.setThread r { s.thread r with
        pc := if s.roomWorking r then .leaveOwner ready i else .loopTest }) []
  | leaveOwner (input : Input) (ready : List Seat) (i : Seat) (t : Parties) (out : List Sent)
      (hpc : (s.thread r).pc = .leaveOwner ready i)
      (h : s.leaveOwner r (s.thread r) ready i = some (t, out)) : ThreadDoes s r input t out
  | tooFew (input : Input) (ready : List Seat) (i : Seat) (hpc : (s.thread r).pc = .startTest ready i)
      (hn : (s.thread r).playerNum < 2) :
      ThreadDoes s r input (s.setThread r { s.thread r with pc := .scan ready (i.val + 1) })
        (sendToEveryone none ['1', '9', '\n'] (s.thread r).used)
  | start (input : Input) (ready : List Seat) (i : Seat) (hpc : (s.thread r).pc = .startTest ready i)
      (hn : ¬ (s.thread r).playerNum < 2) :
      ThreadDoes s r input (s.setThread r { s.thread r with pc := .gameLock }) []
  | gameLock (input : Input) (hpc : (s.thread r).pc = .gameLock) :
      ThreadDoes s r input ((s.setRoom r { s.room r with inGame := true }).setThread r
        { s.thread r with pc := .gameOpen }) []
  | gameOpen (rand : Nat → Nat) (draw : Nat) (g : Game) (hpc : (s.thread r).pc = .gameOpen)
      (hg : Game.gameStart s.name rand draw (s.thread r).used (s.thread r).playerNum.toNat = .ok g) :
      ThreadDoes s r (.opening rand draw)
        (s.setThread r { s.thread r with pc := .game g [] g.out }) []
  | perform (input : Input) (g : Game) (done todo : List Effect) (e : Effect)
      (hpc : (s.thread r).pc = .game g done (e :: todo)) :
      ThreadDoes s r input ((s.perform e).1.setThread r
        { s.thread r with pc := .game g (done ++ [e]) todo }) (s.perform e).2
  | ended (input : Input) (g : Game) (done : List Effect) (hpc : (s.thread r).pc = .game g done [])
      (hover : g.pc = .ended) :
      ThreadDoes s r input
        (s.setThread r { s.thread r with pc := .resetLock, alreadyPlay := true }) []
  | act (g g' : Game) (done : List Effect) (a : GameAct) (hpc : (s.thread r).pc = .game g done [])
      (hno : g.pc ≠ .ended)
      (hg : g.step a = .ok g') :
      ThreadDoes s r (.game a) (s.setThread r { s.thread r with
        pc := .game g' done (g'.out.drop g.out.length) }) []
  | reset (input : Input) (hpc : (s.thread r).pc = .resetLock) :
      ThreadDoes s r input (s.reset r (s.thread r)) []
  | finishRandom (input : Input) (hpc : (s.thread r).pc = .finishRandom) :
      ThreadDoes s r input ((s.setRoom r { s.room r with random := false }).setThread r
        { s.thread r with pc := .finishNum }) []
  | finishNum (input : Input) (hpc : (s.thread r).pc = .finishNum) :
      ThreadDoes s r input { s.setThread r { s.thread r with pc := .waiting } with
        roomNum := s.roomNum - 1 } []

/-- The inversion of a thread's step. -/
theorem threadNext_does {s t : Parties} {r : RoomId} {input : Input} {out : List Sent}
    (h : s.threadNext r input = some (t, out)) : ThreadDoes s r input t out := by
  cases hpc : (s.thread r).pc with
  | waiting =>
    simp only [threadNext, hpc] at h
    split at h
    · next hw => cases h; exact .begin input hpc hw
    · cases h
  | load =>
    simp only [threadNext, hpc] at h
    cases h
    exact .load input hpc
  | loopTest =>
    simp only [threadNext, hpc] at h
    cases h
    split
    · next hw => exact .loop input hpc hw.1 hw.2
    · next hno =>
      refine .leaveLoop input hpc ?_
      rw [not_and_or] at hno
      rcases hno with hno | hno
      · exact .inl (by simpa using hno)
      · exact .inr (by simpa using hno)
  | letIn =>
    simp only [threadNext, hpc] at h
    unfold Parties.letIn at h
    dsimp only at h
    split at h
    · next hnew =>
      obtain ⟨acc, hacc, h⟩ := Option.bind_eq_some_iff.mp h
      cases h
      exact .letIn input acc hpc hnew hacc
    · next hnew =>
      cases h
      exact .nobodyNew input hpc (by simpa using hnew)
  | select =>
    simp only [threadNext, hpc] at h
    split at h
    · split at h
      · next hs => cases h; exact .select _ hpc hs
      · cases h
    · cases h
  | scan ready i =>
    simp only [threadNext, hpc] at h
    split at h
    · next hi =>
      split at h
      · next hno => cases h; exact .pass ready i input hpc hi hno
      · next hyes =>
        rw [not_or, not_not] at hyes
        obtain ⟨k, hk⟩ := Option.ne_none_iff_exists'.mp hyes.1
        split at h
        · cases h
          exact .read ready ⟨i, hi⟩ k _ hpc hk hyes.2
        · cases h
    · next hi => cases h; exact .scanned ready i input hpc hi
  | leaveState ready i state =>
    simp only [threadNext, hpc] at h
    split at h
    · cases h
    · next k hk => cases h; exact .leaveState input ready i state k hpc hk
  | leaveLock ready i =>
    simp only [threadNext, hpc] at h
    cases h
    exact .takeOut input ready i hpc
  | leaveTest ready i =>
    simp only [threadNext, hpc] at h
    cases h
    exact .leaveTest input ready i hpc
  | leaveOwner ready i =>
    simp only [threadNext, hpc] at h
    exact .leaveOwner input ready i t out hpc h
  | startTest ready i =>
    simp only [threadNext, hpc] at h
    split at h
    · next hn => cases h; exact .tooFew input ready i hpc hn
    · next hn => cases h; exact .start input ready i hpc hn
  | gameLock =>
    simp only [threadNext, hpc] at h
    cases h
    exact .gameLock input hpc
  | gameOpen =>
    simp only [threadNext, hpc] at h
    split at h
    · split at h
      · cases h
      · next g hg => cases h; exact .gameOpen _ _ g hpc hg
    · cases h
  | game g done todo =>
    cases todo with
    | nil =>
      simp only [threadNext, hpc] at h
      split at h
      · next hover => cases h; exact .ended input g done hpc hover
      next hno =>
      split at h
      · split at h
        · cases h
        · next g' hg => cases h; exact .act g g' done _ hpc hno hg
      · cases h
    | cons e todo =>
      simp only [threadNext, hpc] at h
      cases h
      exact .perform input g done todo e hpc
  | resetLock =>
    simp only [threadNext, hpc] at h
    cases h
    exact .reset input hpc
  | finishRandom =>
    simp only [threadNext, hpc] at h
    cases h
    exact .finishRandom input hpc
  | finishNum =>
    simp only [threadNext, hpc] at h
    cases h
    exact .finishNum input hpc

/-- A player that leaves changes nothing but the thread's variables. -/
theorem leaveOwner_eq {s t : Parties} {r : RoomId} {u : Thread} {ready : List Seat} {i : Seat}
    {out : List Sent} (h : s.leaveOwner r u ready i = some (t, out)) :
    t = s.setThread r { u with
      pc := .scan ready (i.val + 1)
      owner := if i = u.owner then nextOwner u i else u.owner
      used := Function.update u.used i none } ∧
    ∃ k, out = sendToEveryone (some i)
      (line1 (if i = u.owner then ['8'] else ['7']) (s.name k)) u.used := by
  unfold leaveOwner at h
  dsimp only at h
  split at h
  · cases h
  · next k _ => cases h; exact ⟨rfl, k, rfl⟩

/-- A thread leaves the other rooms alone. -/
theorem thread_other {s t : Parties} {r q : RoomId} {input : Input} {out : List Sent}
    (h : ThreadDoes s r input t out) (hq : q ≠ r) :
    t.thread q = s.thread q ∧ t.room q = s.room q ∧ t.created = s.created ∧
      t.roomWorking q = s.roomWorking q := by
  have hthread (u : Thread) : (s.setThread r u).thread q = s.thread q ∧
      (s.setThread r u).room q = s.room q ∧ (s.setThread r u).created = s.created ∧
      (s.setThread r u).roomWorking q = s.roomWorking q := by simp [setThread, hq]
  have hroom (u : Thread) (d : RoomData) : ((s.setRoom r d).setThread r u).thread q = s.thread q ∧
      ((s.setRoom r d).setThread r u).room q = s.room q ∧
      ((s.setRoom r d).setThread r u).created = s.created ∧
      ((s.setRoom r d).setThread r u).roomWorking q = s.roomWorking q := by
    simp [setThread, setRoom, hq]
  cases h with
  | letIn => exact hroom _ _
  | leaveState => exact hthread _
  | takeOut input ready i hpc =>
    unfold takeOut
    dsimp only
    split
    · simp [setThread, setRoom, setRoomWorking, hq]
    · exact hroom _ _
  | leaveOwner input ready i t out hpc h =>
    rw [(leaveOwner_eq h).1]
    exact hthread _
  | gameLock => exact hroom _ _
  | perform input g done todo e hpc =>
    cases e with
    | send c line => exact hthread _
    | setState c state => exact hthread _
  | reset => simp [reset, setThread, setRoom, setRoomWorking, hq]
  | finishRandom => exact hroom _ _
  | finishNum => exact hthread _
  | _ => exact hthread _

/-- A thread leaves `main`, the handlers, the names and `room_arg` alone. -/
theorem thread_frame {s t : Parties} {r : RoomId} {input : Input} {out : List Sent}
    (h : ThreadDoes s r input t out) :
    t.main = s.main ∧ t.handler = s.handler ∧ t.handlerWorking = s.handlerWorking ∧
      t.handlerArg = s.handlerArg ∧ t.name = s.name ∧ t.roomArg = s.roomArg := by
  cases h with
  | takeOut input ready i hpc =>
    unfold takeOut
    dsimp only
    split
    · exact ⟨rfl, rfl, rfl, rfl, rfl, rfl⟩
    · exact ⟨rfl, rfl, rfl, rfl, rfl, rfl⟩
  | leaveOwner input ready i t out hpc h =>
    rw [(leaveOwner_eq h).1]
    exact ⟨rfl, rfl, rfl, rfl, rfl, rfl⟩
  | perform input g done todo e hpc =>
    cases e with
    | send c line => exact ⟨rfl, rfl, rfl, rfl, rfl, rfl⟩
    | setState c state => exact ⟨rfl, rfl, rfl, rfl, rfl, rfl⟩
  | _ => exact ⟨rfl, rfl, rfl, rfl, rfl, rfl⟩

/-- What a line from the lobby is: a token that is written as the name, a login that is granted,
a line that changes nothing, or a request. -/
inductive RequestDoes (s : Parties) (k : ConnId) (l : Text) : Parties → List Sent → Prop
  | token (op opop name : Text) (rest : List Text) (out : List Sent)
      (hl : tokens (chop l) = op :: opop :: rest)
      (hop : charAt op 0 < '0' ∨ '9' < charAt op 0)
      (hname : sprintf op (some op.length) = some name) (hlen : name.length < 32)
      (hout : out = if opop = ['1'] then [(k, line1 ['4'] op)] else []) :
      RequestDoes s k l { s with name := Function.update s.name k name } out
  | login (id : Text) (rest : List Text) (hl : tokens (chop l) = ['2'] :: ['1'] :: id :: rest)
      (hid : s.handleLogin id k) (hlen : id.length < 32) :
      RequestDoes s k l { s with name := Function.update s.name k id }
        [(k, ['2', '\n']), (k, line1 ['4'] id)]
  | refuse (login : Text) (rest : List Text) (hl : tokens (chop l) = ['2'] :: login :: rest)
      (hno : ∀ id, rest.head? = some id → ¬ (login = ['1'] ∧ s.handleLogin id k)) :
      RequestDoes s k l s [(k, ['3', '\n'])]
  | request (a : HandlerArg) (ha : a.owner = k) :
      RequestDoes s k l { s with main := .arg k a } []
  | nothing (out : List Sent) (hout : out = [] ∨ out = [(k, ['1', '\n'])]) :
      RequestDoes s k l s out

/-- The inversion of `request`. -/
theorem request_cases {s t : Parties} {k : ConnId} {l : Text} {out : List Sent}
    (h : s.request k l = some (t, out)) : RequestDoes s k l t out := by
  unfold request at h
  split at h
  · cases h
  next op rest hl =>
  split at h
  · cases h; exact .nothing _ (.inr rfl)
  split at h
  · next hop =>
    obtain ⟨name, hname, h⟩ := Option.bind_eq_some_iff.mp h
    obtain ⟨u, hu, h⟩ := Option.bind_eq_some_iff.mp h
    obtain ⟨hlen, hu⟩ := Option.ite_none_right_eq_some.mp hu
    cases hu
    cases rest with
    | nil => cases h
    | cons opop rest =>
      dsimp only at h
      split at h
      · next h1 => cases h; exact .token op opop name rest _ hl hop hname hlen (by rw [if_pos h1])
      · next h1 => cases h; exact .token op opop name rest _ hl hop hname hlen (by rw [if_neg h1])
  split at h
  · next h2 =>
    subst h2
    split at h
    · next login id rest' =>
      split at h
      · next hid =>
        obtain ⟨u, hu, h⟩ := Option.bind_eq_some_iff.mp h
        obtain ⟨hlen, hu⟩ := Option.ite_none_right_eq_some.mp hu
        cases hu
        cases h
        obtain ⟨rfl, hid⟩ := hid
        exact .login id rest' hl hid hlen
      · next hno =>
        cases h
        refine .refuse login (id :: rest') hl fun id' he ↦ ?_
        cases he
        exact hno
    · split at h
      · cases h
      · cases h
        exact .refuse _ [] hl fun id' he ↦ by cases he
    · cases h
  split at h
  · cases h; exact .request _ rfl
  split at h
  · split at h
    · cases h; exact .request _ rfl
    · cases h
  split at h
  · cases h; exact .request _ rfl
  · cases h; exact .nothing _ (.inl rfl)

/-- A line from the lobby changes the name of its connection, or is a request. -/
theorem request_does {s t : Parties} {k : ConnId} {l : Text} {out : List Sent}
    (h : s.request k l = some (t, out)) :
    ∃ name main, t = { s with name := name, main := main } ∧
      (main = s.main ∨ ∃ a, a.owner = k ∧ main = .arg k a) := by
  cases request_cases h with
  | token => exact ⟨_, s.main, rfl, .inl rfl⟩
  | login => exact ⟨_, s.main, rfl, .inl rfl⟩
  | refuse => exact ⟨s.name, s.main, rfl, .inl rfl⟩
  | request a ha => exact ⟨s.name, _, rfl, .inr ⟨a, ha, rfl⟩⟩
  | nothing => exact ⟨s.name, s.main, rfl, .inl rfl⟩

/-- A step that is no line from the lobby writes no name. -/
theorem name_of_step {s t : Parties} {a : ServerAct} {out : List Sent} (h : s.step a = some (t, out))
    (hno : ∀ k l, a ≠ .read k (.line l)) : t.name = s.name := by
  cases a with
  | accept k =>
    simp only [step] at h
    split at h
    · split at h
      · cases h; rfl
      · cases h
    · cases h
  | read k event =>
    simp only [step] at h
    split at h
    · split at h
      · split at h
        · cases h; rfl
        · exact absurd rfl (hno k _)
      · cases h
    · cases h
  | main =>
    simp only [step, mainNext] at h
    split at h
    · cases h
    · cases h; rfl
    · cases h; rfl
    · cases h; rfl
  | handler k =>
    cases handlerNext_does h with
    | _ => rfl
  | thread r input =>
    obtain ⟨-, -, -, -, hname, -⟩ := thread_frame (threadNext_does h)
    exact hname

end Parties
end Unpv13e.Server
