import Unpv13e.Client.Reader
import Unpv13e.Client.Rounds
import Unpv13e.Uno.Score

/-!
# A game and its players

Library `Client`. `GameStart` with the programs of its players and the lines in flight between them: each
direction of a connection is a queue of complete lines. A player reads what it is told, one line at a time, and
sends moves while `whos_turn` is its own name (`src/tcpcliserv/final_cli.c:812–832`, `:1067–1075`, `:1113–1187`).
Of the variables of `game` only `whos_turn` matters here.
-/

namespace Unpv13e.Client
open Unpv13e.Base Unpv13e.Uno Game

/-- Where the program of a player is. -/
inductive Phase
  /-- `goto_room` -/
  | waiting
  /-- `send_request_and_back_to_lobby`, which `goto_room` has called -/
  | back
  /-- `game` -/
  | playing
  /-- anywhere after `game` -/
  | left
  /-- the program has ended -/
  | exited
  deriving DecidableEq, Repr

/-- The program of a player, as far as this game is concerned. -/
structure Station where
  phase : Phase
  /-- `whos_turn`, `none` until the first assignment -/
  whosTurn : Option Text
  /-- whether a move has been sent since the last round line; no variable of the program -/
  moved : Bool
  /-- how many lines of the game have been read -/
  heard : Nat
  /-- the lines sent that the server has not read -/
  outbox : List Text

/-- `strcpy(whos_turn, tt)`: the fifth word of a round line. -/
def turnOf (line : Text) : Option Text := (tokens (chop line))[4]?

/-- The lines `11`, `12` and `21`. -/
def callOps : List (Char × Char) := [('1', '1'), ('1', '2'), ('2', '1')]

/-- What `send_request` writes for a player that has logged in: `"%s 1\n"`. -/
def tokenLine (token : Text) : Text := token ++ [' ', '1', '\n']

namespace Station

/-- What the program does with a line, `src/tcpcliserv/final_cli.c:57–75`, `:310–378` and `:857–1005`. A round
line without a fifth word has `strcpy` read from a null pointer. -/
def hear (line : Text) (s : Station) : Option Station :=
  let s' := { s with heard := s.heard + 1 }
  match s.phase with
  | .waiting =>
    if opOf line = ('9', ' ') then some { s' with phase := .playing, whosTurn := none, moved := false }
    else if opOf line ∈ roomOps then some s'
    else some { s' with phase := .exited }
  | .back => some { s' with phase := if opOf line = ('4', ' ') then .left else .exited }
  | .playing =>
    if opOf line = ('1', '0') then
      (turnOf line).map fun w ↦ { s' with whosTurn := some w, moved := false }
    else if IsResult line then some { s' with phase := .left }
    else if opOf line ∈ gameOps then some s'
    else some { s' with phase := .exited }
  | .left => some s'
  | .exited => none

/-- A line has been sent. -/
def write (line : Text) (s : Station) : Station := { s with outbox := s.outbox ++ [line] }

/-- Whether `strcmp(my_id, whos_turn) == 0`; an array that has not been assigned may hold anything. -/
def MayMove (myId : Text) (s : Station) : Prop :=
  s.phase = .playing ∧ (s.whosTurn = none ∨ s.whosTurn = some myId)

instance (myId : Text) (s : Station) : Decidable (s.MayMove myId) := inferInstanceAs (Decidable (_ ∧ _))

/-- The lines `9` and `10`. -/
def move (myId line : Text) (s : Station) : Option Station :=
  if s.MayMove myId then some { s.write line with moved := true } else none

/-- The other lines a program sends. After `game` they are no lines of this game. -/
def MayWrite (line : Text) (s : Station) : Prop :=
  match s.phase with
  | .waiting => line = ['7', '\n']
  | .back => False
  | .playing => opOf line ∈ callOps
  | .left => True
  | .exited => False

instance (line : Text) (s : Station) : Decidable (s.MayWrite line) := by
  unfold MayWrite
  cases s.phase
  all_goals infer_instance

/-- `readline` on the connection: a line, or the end when the program has ended. -/
def readline (s : Station) : Option (Event × Station) :=
  match s.outbox with
  | l :: rest => some (.line l, { s with outbox := rest })
  | [] => if s.phase = .exited then some (.eof, s) else none

end Station

/-- The server in a game and the programs of all connections. -/
structure Match where
  game : Game
  station : ConnId → Station

/-- What happens next. -/
inductive MatchAct
  /-- the program on a connection reads a line -/
  | hear (c : ConnId)
  /-- `skip` is typed, or the time is over -/
  | skip (c : ConnId)
  /-- a card is chosen -/
  | play (c : ConnId) (card : Text)
  /-- another line is sent -/
  | write (c : ConnId) (line : Text)
  /-- `gg` is typed -/
  | surrender (c : ConnId)
  /-- `1` is typed in the room -/
  | leaveRoom (c : ConnId)
  | exit (c : ConnId)
  /-- `GameStart` reads from the seat its loop is at -/
  | serve (env : Env)
  /-- `GameStart` passes over that seat -/
  | pass
  | settle (env : Env)

namespace Match

/-- The lines of the game that a program has still to read. -/
def inbox (m : Match) (c : ConnId) : List Text := (received c m.game.out).drop (m.station c).heard

/-- The program on connection `c` is `s`. -/
def setStation (c : ConnId) (s : Station) (m : Match) : Match :=
  { m with station := Function.update m.station c s }

/-- One step. `name c` is `my_id` of the player on connection `c`. -/
def step (name : ConnId → Text) (m : Match) : MatchAct → Option Match
  | .hear c =>
    m.inbox c |>.head?.bind fun line ↦ ((m.station c).hear line).map fun s ↦ m.setStation c s
  | .skip c => ((m.station c).move (name c) ['1', '0', '\n']).map fun s ↦ m.setStation c s
  | .play c card => ((m.station c).move (name c) (line1 ['9'] card)).map fun s ↦ m.setStation c s
  | .write c line =>
    if (m.station c).MayWrite line then some (m.setStation c ((m.station c).write line)) else none
  | .surrender c =>
    if (m.station c).phase = .playing then
      some (m.setStation c { (m.station c).write ['8', '\n'] with phase := .left })
    else none
  | .leaveRoom c =>
    if (m.station c).phase = .waiting then
      let s := ((m.station c).write ['6', '\n']).write (tokenLine (name c))
      some (m.setStation c { s with phase := .back })
    else none
  | .exit c => some (m.setStation c { m.station c with phase := .exited })
  | .serve env =>
    match m.game.pc with
    | .scan i =>
      (m.game.used i).bind fun c ↦ (m.station c).readline.bind fun p ↦
        (m.game.step (.recv env p.1)).toOption.map fun g ↦ { m.setStation c p.2 with game := g }
    | _ => none
  | .pass => (m.game.step .pass).toOption.map fun g ↦ { m with game := g }
  | .settle env => (m.game.step (.settle env)).toOption.map fun g ↦ { m with game := g }

/-- The steps of a game and its players. -/
def Step (name : ConnId → Text) (m : Match) (a : MatchAct) (m' : Match) : Prop := m.step name a = some m'

/-- A line `9` or `10` that `GameStart` comes to read is from the player in turn. -/
def OnTurn (m : Match) : Prop :=
  ∀ i c l rest, m.game.pc = .scan i → m.game.used i = some c → m.game.handNum i ≠ -1 →
    (m.station c).outbox = l :: rest → IsMove l → i = m.game.whoseRound

end Match

variable {name : ConnId → Text} {g g' r : Game} {i : Seat} {c d : ConnId} {s s' : Station} {n : Nat}
  {conns : Seat → Option ConnId} {line l : Text} {m m' : Match}

/-- The program and what a player sees of the game have the same `whos_turn`. -/
theorem whosTurn_handle {v v' : View} {myId : Text} (h : v.handle myId line = .ok v') :
    (opOf line = ('1', '0') → turnOf line = some v'.whosTurn) ∧
      (opOf line ≠ ('1', '0') → v'.whosTurn = v.whosTurn) := by
  have hround (h : v.round line = .ok v') : turnOf line = some v'.whosTurn := by
    unfold View.round at h
    unfold turnOf
    split at h
    · next heq =>
      rw [heq]
      split at h
      · cases h
      split at h
      · cases h
      · cases h
        rfl
    · cases h
  have hpunish {w : Text} : (v.punish myId w).whosTurn = v.whosTurn := by
    unfold View.punish
    split
    · rfl
    · rfl
  have hnamed {f : Text → View} (hf : ∀ w, (f w).whosTurn = v.whosTurn)
      (h : (View.nameIn line >>= fun w ↦ .ok (f w)) = .ok v') : v'.whosTurn = v.whosTurn := by
    obtain ⟨w, -, h⟩ := exists_of_bind_ok h
    cases h
    exact hf w
  unfold View.handle at h
  split at h
  · next hop => exact ⟨fun _ ↦ hround h, fun hne ↦ absurd hop hne⟩
  · next hop =>
    exact ⟨fun he ↦ absurd (hop.symm.trans he) (by decide), fun _ ↦ hnamed (fun _ ↦ hpunish) h⟩
  · next hop =>
    cases h
    exact ⟨fun he ↦ absurd (hop.symm.trans he) (by decide), fun _ ↦ rfl⟩
  · next hop =>
    exact ⟨fun he ↦ absurd (hop.symm.trans he) (by decide), fun _ ↦ hnamed (fun _ ↦ hpunish) h⟩
  · next hop =>
    exact ⟨fun he ↦ absurd (hop.symm.trans he) (by decide), fun _ ↦ hnamed (fun _ ↦ hpunish) h⟩
  · next hop =>
    exact ⟨fun he ↦ absurd (hop.symm.trans he) (by decide), fun _ ↦ hnamed (f := v.called) (fun _ ↦ rfl) h⟩
  · next hop =>
    exact ⟨fun he ↦ absurd (hop.symm.trans he) (by decide), fun _ ↦ hnamed (f := v.leave) (fun _ ↦ rfl) h⟩
  · next hop _ _ _ _ _ _ =>
    cases h
    exact ⟨fun he ↦ (hop he).elim, fun _ ↦ rfl⟩

/-! ### Claims to the turn -/

/-- Whether a line tells that it is the turn of `w`. -/
def TellsTurn (w line : Text) : Prop := opOf line = ('1', '0') ∧ turnOf line = some w

instance (w line : Text) : Decidable (TellsTurn w line) := inferInstanceAs (Decidable (_ ∧ _))

/-- The moves among the lines the server reads of a player before the player leaves. -/
def movesIn (ls : List Text) : Nat := (ls.takeWhile fun l ↦ charAt l 0 ≠ '8').countP fun l ↦ IsMove l

/-- Whether the program reads lines of the game. -/
def Phase.listens : Phase → Bool
  | .waiting | .playing => true
  | .back | .left | .exited => false

/-- The moves of a player on their way, and the turns it knows of or will be told of. -/
def Station.claims (w : Text) (inbox : List Text) (s : Station) : Nat :=
  movesIn s.outbox +
    if s.phase.listens then
      (if s.whosTurn = some w ∧ s.moved = false then 1 else 0) + inbox.countP fun l ↦ TellsTurn w l
    else 0

private theorem claims_of_listens {inbox : List Text} {w : Text} (h : s.phase.listens = true) :
    s.claims w inbox = movesIn s.outbox +
      ((if s.whosTurn = some w ∧ s.moved = false then 1 else 0) + inbox.countP fun l ↦ TellsTurn w l) := by
  unfold Station.claims
  rw [if_pos h]

private theorem claims_of_deaf {inbox : List Text} {w : Text} (h : s.phase.listens = false) :
    s.claims w inbox = movesIn s.outbox := by
  unfold Station.claims
  rw [h, if_neg (by decide), Nat.add_zero]

private theorem movesIn_cons {rest : List Text} (h : charAt l 0 ≠ '8') :
    movesIn (l :: rest) = movesIn rest + if IsMove l then 1 else 0 := by
  unfold movesIn
  rw [List.takeWhile_cons_of_pos (by simpa using h), List.countP_cons]
  simp

private theorem movesIn_append (ls : List Text) (l : Text) :
    movesIn (ls ++ [l]) ≤ movesIn ls + if IsMove l then 1 else 0 := by
  induction ls with
  | nil =>
    by_cases h : charAt l 0 = '8'
    · simp [movesIn, h]
    · rw [List.nil_append, movesIn_cons h]
  | cons k ks ih =>
    by_cases h : charAt k 0 = '8'
    · simp [movesIn, h]
    · rw [List.cons_append, movesIn_cons h, movesIn_cons h]
      omega

/-- What is sent after the line `8` is not read as a line of the game. -/
private theorem movesIn_gone {ls : List Text} (h : ∃ k ∈ ls, charAt k 0 = '8') (l : Text) :
    movesIn (ls ++ [l]) = movesIn ls := by
  induction ls with
  | nil =>
    obtain ⟨k, hk, -⟩ := h
    cases hk
  | cons k ks ih =>
    by_cases hk : charAt k 0 = '8'
    · simp [movesIn, hk]
    · rw [List.cons_append, movesIn_cons hk, movesIn_cons hk, ih]
      obtain ⟨j, hj, hj8⟩ := h
      rcases List.mem_cons.mp hj with rfl | hj
      · exact absurd hj8 hk
      · exact ⟨j, hj, hj8⟩

/-- The player on connection `c` has at most `n` claims to the turn. -/
structure Held (name : ConnId → Text) (g : Game) (c : ConnId) (s : Station) (n : Nat) : Prop where
  heard : s.heard ≤ (received c g.out).length
  kinds : ∀ l ∈ received c g.out, ¬ IsResult l ∧ opOf l ≠ ('4', ' ')
  gone : s.phase = .left → ∃ l ∈ s.outbox, charAt l 0 = '8'
  once : s.claims (name c) ((received c g.out).drop s.heard) ≤ n

theorem Held.moves_le (h : Held name g c s n) : movesIn s.outbox ≤ n := (Nat.le_add_right _ _).trans h.once

/-! ### What the programs do -/

/-- A program that has ended makes no moves but those it has sent. -/
private theorem held_exited {w : Option Text} {moved : Bool} {heard : Nat} {outbox : List Text}
    (hheard : heard ≤ (received c g.out).length)
    (hkinds : ∀ l ∈ received c g.out, ¬ IsResult l ∧ opOf l ≠ ('4', ' ')) (hmoves : movesIn outbox ≤ n) :
    Held name g c ⟨.exited, w, moved, heard, outbox⟩ n := by
  refine ⟨hheard, hkinds, nofun, ?_⟩
  rw [claims_of_deaf rfl]
  exact hmoves

/-- A move is told by its first characters, also when the newline is still there. -/
private theorem op_of_isMove (h : IsMove l) : charAt l 0 = '9' ∨ opOf l = ('1', '0') := by
  have hchar {k : Nat} {ch : Char} (hk : charAt (chop l) k = ch) (hch : ch ≠ Char.ofNat 0) : charAt l k = ch := by
    unfold charAt at hk ⊢
    by_cases hlt : k < (chop l).length
    · obtain ⟨rest, hrest⟩ : chop l <+: l := List.takeWhile_prefix _
      rw [← hrest, List.getD_append _ _ _ _ hlt]
      exact hk
    · rw [List.getD_eq_default _ _ (by omega)] at hk
      exact absurd hk.symm hch
  rcases h with h9 | ⟨h1, h0⟩
  · exact .inl (hchar h9 (by decide))
  · exact .inr (Prod.ext (hchar h1 (by decide)) (hchar h0 (by decide)))

private theorem not_isMove_of_call (h : opOf l ∈ callOps) : ¬ IsMove l := by
  intro hm
  rcases op_of_isMove hm with h9 | h10
  · have hops : ∀ op ∈ callOps, op.1 ≠ '9' := by decide
    exact hops _ h h9
  · rw [h10] at h
    exact absurd h (by decide)

/-- The next line that reaches a client, and the lines after it. -/
private theorem received_split {rest : List Text} (hdrop : (received c g.out).drop s.heard = line :: rest) :
    s.heard < (received c g.out).length ∧ (received c g.out).drop (s.heard + 1) = rest := by
  constructor
  · by_contra hge
    rw [List.drop_eq_nil_of_le (by omega)] at hdrop
    cases hdrop
  · rw [← List.drop_drop, hdrop]
    rfl

/-- A line that is read and changes nothing gives no claim. -/
private theorem Held.pass {rest : List Text} (h : Held name g c s n)
    (hdrop : (received c g.out).drop s.heard = line :: rest) :
    Held name g c { s with heard := s.heard + 1 } n := by
  obtain ⟨hlt, hrest⟩ := received_split hdrop
  have honce := h.once
  rw [hdrop] at honce
  refine ⟨hlt, h.kinds, h.gone, ?_⟩
  dsimp only
  rw [hrest]
  by_cases hl : s.phase.listens = true
  · rw [claims_of_listens hl, List.countP_cons] at honce
    rw [claims_of_listens (by exact hl)]
    dsimp only
    omega
  · rw [claims_of_deaf (by simpa using hl)]
    exact h.moves_le

/-- A client that reads of its turn has the claim the line was. -/
private theorem Held.learn {rest : List Text} {w : Text} (h : Held name g c s n)
    (hdrop : (received c g.out).drop s.heard = line :: rest) (hphase : s.phase = .playing)
    (hop : opOf line = ('1', '0')) (hw : turnOf line = some w) :
    Held name g c { s with heard := s.heard + 1, whosTurn := some w, moved := false } n := by
  obtain ⟨hlt, hrest⟩ := received_split hdrop
  have hlistens : s.phase.listens = true := by
    rw [hphase]
    rfl
  have honce := h.once
  rw [hdrop, claims_of_listens hlistens, List.countP_cons] at honce
  refine ⟨hlt, h.kinds, fun hl ↦ absurd (hphase.symm.trans hl) (by decide), ?_⟩
  rw [claims_of_listens (by exact hlistens)]
  dsimp only
  rw [hrest]
  by_cases hwc : w = name c
  · have ht : TellsTurn (name c) line := ⟨hop, hw.trans (congrArg some hwc)⟩
    simp only [ht, decide_true, if_true] at honce
    rw [if_pos ⟨congrArg some hwc, rfl⟩]
    omega
  · rw [if_neg fun he ↦ hwc (Option.some.inj he.1)]
    omega

theorem Held.hear (h : Held name g c s n) (hin : ((received c g.out).drop s.heard).head? = some line)
    (hs : s.hear line = some s') : Held name g c s' n := by
  obtain ⟨rest, hdrop⟩ := List.head?_eq_some_iff.mp hin
  obtain ⟨hlt, hrest⟩ := received_split hdrop
  have hkind := h.kinds line (List.mem_of_mem_drop (hdrop ▸ List.mem_cons_self))
  have hmoves : movesIn s.outbox ≤ n := h.moves_le
  unfold Station.hear at hs
  dsimp only at hs
  split at hs
  · next hphase =>
    split at hs
    · cases hs
      -- the game begins, and nobody's turn is known yet
      have honce := h.once
      rw [hdrop, claims_of_listens (by rw [hphase]; rfl), List.countP_cons] at honce
      refine ⟨hlt, h.kinds, nofun, ?_⟩
      dsimp only
      rw [claims_of_listens rfl, hrest, if_neg (fun hw ↦ by cases hw.1)]
      dsimp only
      omega
    split at hs
    · cases hs
      exact h.pass hdrop
    · cases hs
      exact held_exited hlt h.kinds hmoves
  · cases hs
    rw [if_neg hkind.2]
    exact held_exited hlt h.kinds hmoves
  · next hphase =>
    split at hs
    · next hop =>
      obtain ⟨w, hw, rfl⟩ := Option.map_eq_some_iff.mp hs
      exact h.learn hdrop hphase hop hw
    split at hs
    · next hresult => exact absurd hresult hkind.1
    split at hs
    · cases hs
      exact h.pass hdrop
    · cases hs
      exact held_exited hlt h.kinds hmoves
  · cases hs
    exact h.pass hdrop
  · cases hs

theorem Held.move (h : Held name g c s n) (hfirst : s.moved = false ∧ s.whosTurn ≠ none)
    (hs : s.move (name c) line = some s') : Held name g c s' n := by
  obtain ⟨⟨hphase, hturn⟩, hs⟩ := Option.ite_none_right_eq_some.mp hs
  cases hs
  have hlistens : s.phase.listens = true := by
    rw [hphase]
    rfl
  have hown : s.whosTurn = some (name c) := hturn.resolve_left hfirst.2
  have honce := h.once
  rw [claims_of_listens hlistens, if_pos ⟨hown, hfirst.1⟩] at honce
  refine ⟨h.heard, h.kinds, fun hl ↦ absurd (hphase.symm.trans hl) (by decide), ?_⟩
  rw [claims_of_listens (by exact hlistens), if_neg (fun hm ↦ by cases hm.2)]
  have happend := movesIn_append s.outbox line
  have hone : (if IsMove line then 1 else 0) ≤ 1 := by
    split
    · exact le_refl _
    · exact Nat.zero_le _
  unfold Station.write
  dsimp only
  omega

/-- A line that is no move, or comes after the line `8`. -/
private theorem held_write (h : Held name g c s n) (hl : IsMove l → s.phase = .left) :
    Held name g c (s.write l) n := by
  have hmoves : movesIn (s.outbox ++ [l]) ≤ movesIn s.outbox := by
    by_cases hm : IsMove l
    · exact (movesIn_gone (h.gone (hl hm)) l).le
    · have happend := movesIn_append s.outbox l
      rwa [if_neg hm] at happend
  refine ⟨h.heard, h.kinds, fun hp ↦ ?_, ?_⟩
  · obtain ⟨k, hk, hk8⟩ := h.gone hp
    exact ⟨k, List.mem_append_left _ hk, hk8⟩
  · have honce := h.once
    unfold Station.claims at honce ⊢
    unfold Station.write
    dsimp only
    omega

theorem Held.write (h : Held name g c s n) (hl : s.MayWrite l) : Held name g c (s.write l) n := by
  refine held_write h fun hm ↦ ?_
  unfold Station.MayWrite at hl
  split at hl
  · rw [hl] at hm
    exact absurd hm (by decide)
  · exact hl.elim
  · exact absurd hm (not_isMove_of_call hl)
  · next hphase => exact hphase
  · exact hl.elim

theorem Held.surrender (h : Held name g c s n) :
    Held name g c { s.write ['8', '\n'] with phase := .left } n := by
  have hw := held_write (l := ['8', '\n']) h fun hm ↦ absurd hm (by decide)
  refine ⟨h.heard, h.kinds, fun _ ↦ ⟨_, List.mem_append_right _ (List.mem_singleton.mpr rfl), rfl⟩, ?_⟩
  rw [claims_of_deaf rfl]
  exact hw.moves_le

theorem Held.leaveRoom (h : Held name g c s n) (htoken : ¬ IsMove (tokenLine (name c))) :
    Held name g c { (s.write ['6', '\n']).write (tokenLine (name c)) with phase := .back } n := by
  have hw := held_write (l := ['6', '\n']) h fun hm ↦ absurd hm (by decide)
  have hw' := held_write hw fun hm ↦ absurd hm htoken
  refine ⟨h.heard, h.kinds, nofun, ?_⟩
  rw [claims_of_deaf rfl]
  exact hw'.moves_le

theorem Held.exit (h : Held name g c s n) : Held name g c { s with phase := .exited } n :=
  held_exited h.heard h.kinds h.moves_le

/-! ### What the server does -/

/-- Lines written that tell at most `k` turns of the player. -/
private theorem held_lines {k : Nat} {es : List Effect} (h : Held name g c s n) (hout : g'.out = g.out ++ es)
    (hes : ∀ l ∈ received c es, ¬ IsResult l ∧ opOf l ≠ ('4', ' '))
    (hk : (received c es).countP (fun l ↦ TellsTurn (name c) l) ≤ k) : Held name g' c s (n + k) := by
  have hall : received c g'.out = received c g.out ++ received c es := by
    rw [hout, received_append]
  have hdrop : (received c g'.out).drop s.heard = (received c g.out).drop s.heard ++ received c es := by
    rw [hall, List.drop_append_of_le_length h.heard]
  refine ⟨?_, fun l hl ↦ ?_, h.gone, ?_⟩
  · rw [hall, List.length_append]
    exact h.heard.trans (Nat.le_add_right _ _)
  · rw [hall] at hl
    rcases List.mem_append.mp hl with hl | hl
    · exact h.kinds l hl
    · exact hes l hl
  · have honce := h.once
    unfold Station.claims at honce ⊢
    rw [hdrop, List.countP_append]
    split
    · next hl =>
      rw [if_pos hl] at honce
      omega
    · next hl =>
      rw [if_neg hl] at honce
      omega

private theorem mem_received {es : List Effect} (h : l ∈ received c es) : Effect.send c l ∈ es := by
  obtain ⟨e, he, hl⟩ := List.mem_filterMap.mp h
  cases e with
  | send d line =>
    dsimp only at hl
    split at hl
    · next hd =>
      cases hl
      exact hd ▸ he
    · cases hl
  | setState d state => cases hl

theorem Held.silent (h : Held name g c s n) (hq : Silent g g') : Held name g' c s n := by
  obtain ⟨es, hout, hnews⟩ := hq.lines
  have table : ∀ op ∈ newsOps, op ≠ ('1', '5') ∧ op ≠ ('4', ' ') ∧ op ≠ ('1', '0') := by decide
  have hop (l : Text) (hl : l ∈ received c es) := table _ (hnews c l (mem_received hl))
  refine held_lines (k := 0) h hout (fun l hl ↦ ⟨(hop l hl).1, (hop l hl).2.1⟩) ?_
  rw [List.countP_eq_zero.mpr fun l hl ↦ ?_]
  simpa using fun ht : TellsTurn (name c) l ↦ (hop l hl).2.2 ht.1

/-- A round line tells one player of a turn. -/
theorem Held.told {told : ConnId → Text} {tableCard : Text} (h : Held name r c s 0) (hn : Named name r.used)
    (hi : (i, c) ∈ r.active) (hcard : IsField tableCard)
    (hname : ∀ d, r.used r.whoseRound = some d → told d = name d) (hround : startRound told tableCard r = .ok g') :
    Held name g' c s (if i = g'.whoseRound then 1 else 0) := by
  obtain ⟨d, hd, rfl⟩ := startRound_emits hround
  have hself := received_each hn hi (fun _ ↦ true) fun j ↦ r.roundLine tableCard (told d) j
  rw [List.filter_true, if_pos rfl] at hself
  have hop : opOf (r.roundLine tableCard (told d) i) = ('1', '0') := rfl
  have hturn : turnOf (r.roundLine tableCard (told d) i) = some (name d) := by
    have hfield : IsField (told d) := hname d hd ▸ (hn.isName _ d hd).1
    unfold turnOf
    rw [tokens_roundLine i hfield hcard, hname d hd]
    rfl
  let es := r.active.map fun p ↦ Effect.send p.2 (r.roundLine tableCard (told d) p.1)
  have hout : (r.emit es).out = r.out ++ es := rfl
  have hheld := held_lines (k := if i = r.whoseRound then 1 else 0) h hout ?_ ?_
  · rw [Nat.zero_add] at hheld
    exact hheld
  · intro l hl
    rw [hself] at hl
    rw [List.mem_singleton.mp hl]
    unfold IsResult
    rw [hop]
    decide
  · rw [hself, List.countP_singleton]
    by_cases hw : i = r.whoseRound
    · rw [if_pos hw]
      split
      · exact le_refl _
      · exact Nat.zero_le _
    · have hnot : ¬ TellsTurn (name c) (r.roundLine tableCard (told d) i) := by
        rintro ⟨-, ht⟩
        rw [hturn] at ht
        exact hw (hn.apart i r.whoseRound c d ((mem_active i c).mp hi).2 hd (Option.some.inj ht).symm)
      rw [if_neg hw, if_neg (by simpa using hnot)]

/-- A line that is not the line `8` has been read. -/
theorem Held.read {rest : List Text} (h : Held name g c s n) (hout : s.outbox = l :: rest) (h8 : charAt l 0 ≠ '8') :
    Held name g c { s with outbox := rest } (n - if IsMove l then 1 else 0) := by
  refine ⟨h.heard, h.kinds, fun hp ↦ ?_, ?_⟩
  · obtain ⟨k, hk, hk8⟩ := h.gone hp
    rw [hout] at hk
    rcases List.mem_cons.mp hk with rfl | hk
    · exact absurd hk8 h8
    · exact ⟨k, hk, hk8⟩
  · have honce := h.once
    unfold Station.claims at honce ⊢
    rw [hout, movesIn_cons h8] at honce
    dsimp only
    omega

theorem Held.mono {k : Nat} (h : Held name g c s n) (hk : n ≤ k) : Held name g c s k :=
  ⟨h.heard, h.kinds, h.gone, h.once.trans hk⟩

/-! ### Runs -/

/-- No player but the one in turn has a claim to it, and that one has one claim at most. -/
structure InTurn (name : ConnId → Text) (conns : Seat → Option ConnId) (seats : Finset Seat) (m : Match) : Prop where
  playing : Playing conns seats m.game
  colour : m.game.pc ≠ .ended → ShowsColour m.game
  held : m.game.pc ≠ .ended → ∀ i c, i ∈ seats → conns i = some c →
    Held name m.game c (m.station c) (if i = m.game.whoseRound then 1 else 0)

/-- What a step must meet for the moves to be in turn: a player sends one move for a round line it has read, names
are as the players know them, and no call is settled against a seat that has left. -/
structure OneMove (name : ConnId → Text) (m : Match) (a : MatchAct) : Prop where
  once : ∀ c, (a = .skip c ∨ ∃ card, a = .play c card) →
    (m.station c).moved = false ∧ (m.station c).whosTurn ≠ none
  names : ∀ env, a = .serve env → KnowsNames name m.game env
  present : ∀ env, a = .settle env → SettlesPresent m.game (.settle env)

variable {seats : Finset Seat}

private theorem going_of_scan (hpc : g.pc = .scan i) : g.pc ≠ .ended :=
  fun he ↦ Pc.noConfusion (hpc.symm.trans he)

/-- A claim is what a move on its way takes. -/
theorem InTurn.onTurn (h : InTurn name conns seats m) : m.OnTurn := by
  intro i c l rest hpc hu hn hout hm
  have hover := going_of_scan hpc
  have hseated := h.playing.seated
  have hle := (h.held hover i c ((hseated.handNum i).mp hn) (hseated.used ▸ hu)).moves_le
  have h8 : charAt l 0 ≠ '8' := by
    intro h8
    rcases op_of_isMove hm with h9 | h10
    · exact absurd (h8.symm.trans h9) (by decide)
    · exact absurd (h8.symm.trans (congrArg Prod.fst h10)) (by decide)
  rw [hout, movesIn_cons h8, if_pos hm] at hle
  by_contra hne
  rw [if_neg hne] at hle
  omega

/-- A step of a program. -/
private theorem InTurn.station (h : InTurn name conns seats m)
    (hs : ∀ i n, conns i = some c → Held name m.game c (m.station c) n → Held name m.game c s n) :
    InTurn name conns seats (m.setStation c s) := by
  refine ⟨h.playing, h.colour, fun hover i d hi hd ↦ ?_⟩
  have hheld := h.held hover i d hi hd
  change Held name m.game d (Function.update m.station c s d) _
  by_cases hdc : d = c
  · subst hdc
    rw [Function.update_self]
    exact hs i _ hd hheld
  · rw [Function.update_of_ne hdc]
    exact hheld

/-- A step of the server that passes nothing on. -/
private theorem InTurn.silent (h : InTurn name conns seats m) (hp : Playing conns seats g')
    (hpc : m.game.pc ≠ .ended) (hq : Silent m.game g') (hw : g'.whoseRound = m.game.whoseRound) :
    InTurn name conns seats { m with game := g' } := by
  refine ⟨hp, fun _ ↦ hq.colour (h.colour hpc), fun _ i c hi hc ↦ ?_⟩
  change Held name g' c (m.station c) (if i = g'.whoseRound then 1 else 0)
  rw [hw]
  exact (h.held hpc i c hi hc).silent hq

/-- What reading from a seat leaves of the claims of a seat that stays. -/
private theorem InTurn.read {event : Event} (h : InTurn name conns seats m) (hn : Named name conns)
    (hpc : m.game.pc = .scan i) (hc : conns i = some c) (hi : m.game.handNum i ≠ -1)
    (hread : (m.station c).readline = some (event, s)) {j : Seat} (hj : j ∈ seats) (hd : conns j = some d)
    (hstay : Departure event → j ≠ i) :
    Held name m.game d (Function.update m.station c s d) (if j = m.game.whoseRound then 1 else 0) ∧
      (Passes m.game i event → Held name m.game d (Function.update m.station c s d) 0) := by
  have hover := going_of_scan hpc
  have hheld := h.held hover j d hj hd
  have hmine (l : Text) (rest : List Text) (hout : (m.station c).outbox = l :: rest) (hm : IsMove l) :
      i = m.game.whoseRound :=
    h.onTurn i c l rest hpc (h.playing.seated.used ▸ hc) hi hout hm
  unfold Station.readline at hread
  by_cases hdc : d = c
  · -- the seat that is read from: a move takes its claim with it
    subst hdc
    have hji : j = i := hn.apart j i d d hd hc rfl
    rw [Function.update_self]
    split at hread
    · next l rest hout =>
      cases hread
      have h8 : charAt l 0 ≠ '8' := fun h8 ↦ hstay h8 hji
      have hafter := hheld.read hout h8
      refine ⟨hafter.mono (Nat.sub_le _ _), ?_⟩
      rintro (⟨l', he, hm, -⟩ | ⟨hdep, -⟩)
      · cases he
        refine hafter.mono ?_
        rw [if_pos hm]
        split
        · exact le_refl _
        · exact Nat.zero_le _
      · exact absurd hji (hstay hdep)
    · split at hread
      · cases hread
        exact absurd hji (hstay True.intro)
      · cases hread
  · -- another seat has no claim when the turn is passed on
    rw [Function.update_of_ne hdc]
    refine ⟨hheld, fun hpass ↦ ?_⟩
    have hji : j ≠ i := by
      rintro rfl
      rw [hd] at hc
      exact hdc (Option.some.inj hc)
    have hturn : i = m.game.whoseRound := by
      rcases hpass with ⟨l, rfl, hm, -⟩ | ⟨-, hturn⟩
      · split at hread
        · next l' rest hout =>
          cases hread
          exact hmine l rest hout hm
        · split at hread
          · cases hread
          · cases hread
      · exact hturn
    rwa [if_neg (hturn ▸ hji)] at hheld

/-- A step in which `GameStart` reads from a seat. -/
private theorem InTurn.serve {env : Env} {event : Event} (h : InTurn name conns seats m) (hn : Named name conns)
    (hknown : KnowsNames name m.game env) (hu : m.game.used i = some c) (hpc : m.game.pc = .scan i)
    (hread : (m.station c).readline = some (event, s)) (hstep : GameStep m.game (.recv env event) g') :
    ∃ seats', InTurn name conns seats' { m.setStation c s with game := g' } := by
  obtain ⟨i', r, hpc', hin, -, hr, rfl⟩ := recv_step hstep
  rw [hpc] at hpc'
  cases hpc'
  have hover := going_of_scan hpc
  have hseated := h.playing.seated
  have hplay := playing_recv hstep hpc h.playing
  have hbooks : Books r (r.advance i) := books_advance i
  obtain ⟨hmoved, hwho⟩ := silent_advance (g := r) (i := i)
  generalize hseats : (if Departure event then seats.erase i else seats) = seats' at hplay
  have hsub : seats' ⊆ seats := by
    rw [← hseats]
    split
    · exact Finset.erase_subset _ _
    · exact Finset.Subset.refl _
  have hstay (j : Seat) (hj : j ∈ seats') (hdep : Departure event) : j ≠ i := by
    rw [← hseats, if_pos hdep] at hj
    exact Finset.ne_of_mem_erase hj
  refine ⟨seats', hplay, ?_, ?_⟩
  · intro hnot
    rcases turnAfter_recv hr with hend | ⟨hq, -⟩ | ⟨t, tableCard, hq, -, hround, -⟩
    · exact absurd (hbooks.ended.mpr hend) hnot
    · exact hmoved.colour (hq.colour (h.colour hover))
    · obtain ⟨e, -, rfl⟩ := startRound_emits hround
      exact hmoved.colour (hq.colour (h.colour hover))
  intro hnot j d hj hd
  change Held name (r.advance i) d (Function.update m.station c s d) _
  obtain ⟨hheld, hpassed⟩ :=
    h.read hn hpc (hseated.used ▸ hu) hin hread (hsub hj) hd (hstay j hj)
  rcases turnAfter_recv hr with hend | ⟨hq, hw⟩ | ⟨t, tableCard, hq, hcard, hround, hpass⟩
  · exact absurd (hbooks.ended.mpr hend) hnot
  · change Held name (r.advance i) d _ (if j = (r.advance i).whoseRound then 1 else 0)
    rw [hwho, hw]
    exact (hheld.silent hq).silent hmoved
  · -- everybody is told of the turn, and nobody had a claim any more
    have hnum : (r.advance i).handNum = t.handNum := by
      obtain ⟨e, -, rfl⟩ := startRound_emits hround
      exact hbooks.handNum
    have hround' : r.whoseRound = t.whoseRound := by
      obtain ⟨e, -, rfl⟩ := startRound_emits hround
      rfl
    have hused : t.used = conns := hq.used.trans hseated.used
    have hactive : (j, d) ∈ t.active := by
      refine (mem_active j d).mpr ⟨?_, hused ▸ hd⟩
      rw [← hnum]
      exact (hplay.seated.handNum j).mpr hj
    have htold (e : ConnId) (he : t.used t.whoseRound = some e) : env.name e = name e := by
      have hin' := hsub (hplay.turn hnot)
      rw [hwho, hround'] at hin'
      refine hknown t.whoseRound e ((mem_active _ e).mpr ⟨(hseated.handNum _).mpr hin', ?_⟩)
      rw [← hq.used]
      exact he
    have hlast := ((hpassed hpass).silent hq).told (hused ▸ hn) hactive (hcard (h.colour hover)) htold hround
    change Held name (r.advance i) d _ (if j = (r.advance i).whoseRound then 1 else 0)
    rw [hwho]
    exact hlast.silent hmoved

/-- The lines a client sends while it is in a room or on its way out of it. -/
def roomLines (myId : Text) : List Text := [['6', '\n'], ['7', '\n'], tokenLine myId]

/-- Names have letters only, as `login` checks (`src/tcpcliserv/final_cli.c:88–110`). -/
def Letters (name : ConnId → Text) (conns : Seat → Option ConnId) : Prop :=
  ∀ i c, conns i = some c → ∀ ch ∈ name c, ch.isAlpha = true

private theorem not_isMove_room {myId : Text} (hne : myId ≠ []) (hletters : ∀ ch ∈ myId, ch.isAlpha = true)
    (hl : l ∈ roomLines myId) : ¬ IsMove l := by
  rcases List.mem_cons.mp hl with rfl | hl
  · decide
  rcases List.mem_cons.mp hl with rfl | hl
  · decide
  rw [List.mem_singleton.mp hl]
  intro hm
  cases myId with
  | nil => exact hne rfl
  | cons ch rest =>
    have hch := hletters ch List.mem_cons_self
    rcases op_of_isMove hm with h9 | h10
    · have he : ch = '9' := h9
      rw [he] at hch
      exact absurd hch (by decide)
    · have he : ch = '1' := congrArg Prod.fst h10
      rw [he] at hch
      exact absurd hch (by decide)

/-- One step. -/
theorem InTurn.step {a : MatchAct} (h : InTurn name conns seats m) (hn : Named name conns)
    (hletters : Letters name conns) (ha : OneMove name m a) (hs : Match.Step name m a m') :
    ∃ seats', InTurn name conns seats' m' := by
  unfold Match.Step Match.step at hs
  cases a with
  | hear c =>
    obtain ⟨line, hline, hs⟩ := Option.bind_eq_some_iff.mp hs
    obtain ⟨s, hs', rfl⟩ := Option.map_eq_some_iff.mp hs
    exact ⟨seats, h.station fun _ _ _ hheld ↦ hheld.hear hline hs'⟩
  | skip c =>
    obtain ⟨s, hs', rfl⟩ := Option.map_eq_some_iff.mp hs
    exact ⟨seats, h.station fun _ _ _ hheld ↦ hheld.move (ha.once c (.inl rfl)) hs'⟩
  | play c card =>
    obtain ⟨s, hs', rfl⟩ := Option.map_eq_some_iff.mp hs
    exact ⟨seats, h.station fun _ _ _ hheld ↦ hheld.move (ha.once c (.inr ⟨card, rfl⟩)) hs'⟩
  | write c line =>
    obtain ⟨hmay, hs⟩ := Option.ite_none_right_eq_some.mp hs
    cases hs
    exact ⟨seats, h.station fun _ _ _ hheld ↦ hheld.write hmay⟩
  | surrender c =>
    obtain ⟨-, hs⟩ := Option.ite_none_right_eq_some.mp hs
    cases hs
    exact ⟨seats, h.station fun _ _ _ hheld ↦ hheld.surrender⟩
  | leaveRoom c =>
    obtain ⟨-, hs⟩ := Option.ite_none_right_eq_some.mp hs
    cases hs
    refine ⟨seats, h.station fun i _ hc hheld ↦ hheld.leaveRoom ?_⟩
    exact not_isMove_room (hn.isName i c hc).1.1.1 (hletters i c hc)
      (List.mem_cons_of_mem _ (List.mem_cons_of_mem _ (List.mem_singleton.mpr rfl)))
  | exit c =>
    cases hs
    exact ⟨seats, h.station fun _ _ _ hheld ↦ hheld.exit⟩
  | serve env =>
    dsimp only at hs
    split at hs
    · next i hpc =>
      obtain ⟨c, hu, hs⟩ := Option.bind_eq_some_iff.mp hs
      obtain ⟨⟨event, s⟩, hread, hs⟩ := Option.bind_eq_some_iff.mp hs
      obtain ⟨g', hg, rfl⟩ := Option.map_eq_some_iff.mp hs
      have hstep : GameStep m.game (.recv env event) g' := ok_of_toOption hg
      exact h.serve hn (ha.names env rfl) hu hpc hread hstep
    · cases hs
  | pass =>
    obtain ⟨g', hg, rfl⟩ := Option.map_eq_some_iff.mp hs
    have hstep : GameStep m.game .pass g' := ok_of_toOption hg
    have hplay := gameStep_playing hstep nofun rfl h.playing
    have hgo := going_of_gameStep hstep
    unfold GameStep Game.step at hstep
    dsimp only at hstep
    split at hstep
    · next i _ =>
      cases hstep
      obtain ⟨hq, hw⟩ := silent_advance (g := m.game) (i := i)
      exact ⟨seats, h.silent hplay hgo hq hw⟩
    · cases hstep
  | settle env =>
    obtain ⟨g', hg, rfl⟩ := Option.map_eq_some_iff.mp hs
    have hstep : GameStep m.game (.settle env) g' := ok_of_toOption hg
    have hplay := gameStep_playing hstep (ha.present env rfl) rfl h.playing
    have hgo := going_of_gameStep hstep
    unfold GameStep Game.step at hstep
    dsimp only at hstep
    split at hstep
    · obtain ⟨hq, hw⟩ := turn_settle hstep
      exact ⟨seats, h.silent hplay hgo hq hw⟩
    · cases hstep

/-- A client when the game starts: in the room, or on its way out of it. -/
structure Station.InRoom (myId : Text) (s : Station) : Prop where
  phase : s.phase = .waiting ∨ s.phase = .back ∨ s.phase = .exited
  whosTurn : s.whosTurn = none
  heard : s.heard = 0
  outbox : ∀ l ∈ s.outbox, l ∈ roomLines myId

/-- A client in the room has no claim when all it has been told are the names of the players. -/
private theorem Station.InRoom.held {i : Seat} (h : s.InRoom (name c)) (hn : Named name conns)
    (hletters : Letters name conns) (hc : conns i = some c) (hnine : ∀ l ∈ received c g.out, charAt l 0 = '9') :
    Held name g c s 0 := by
  have hone (l : Text) (hl : l ∈ received c g.out) (b : Char) : opOf l ≠ ('1', b) := by
    intro he
    have h91 : '9' = '1' := (hnine l hl).symm.trans (congrArg Prod.fst he)
    exact absurd h91 (by decide)
  refine ⟨by rw [h.heard]; exact Nat.zero_le _, fun l hl ↦ ⟨hone l hl '5', ?_⟩, fun hleft ↦ ?_, ?_⟩
  · exact fun he ↦ absurd ((hnine l hl).symm.trans (congrArg Prod.fst he)) (by decide)
  · rcases h.phase with hp | hp | hp
    · exact absurd (hleft.symm.trans hp) (by decide)
    · exact absurd (hleft.symm.trans hp) (by decide)
    · exact absurd (hleft.symm.trans hp) (by decide)
  · have hmoves : movesIn s.outbox = 0 := by
      refine List.countP_eq_zero.mpr fun l hl ↦ ?_
      have hin := (List.takeWhile_prefix _).sublist.subset hl
      simpa using not_isMove_room (hn.isName i c hc).1.1.1 (hletters i c hc) (h.outbox l hin)
    have hcalls : ((received c g.out).drop s.heard).countP (fun l ↦ TellsTurn (name c) l) = 0 := by
      refine List.countP_eq_zero.mpr fun l hl ↦ ?_
      simpa using fun ht : TellsTurn (name c) l ↦ hone l (List.mem_of_mem_drop hl) '0' ht.1
    unfold Station.claims
    rw [hmoves, hcalls, if_neg (c := s.whosTurn = _ ∧ _) fun he ↦ ?_, ite_self]
    rw [h.whosTurn] at he
    cases he.1

/-- At the start the player in turn has the one claim, the round line it will read. -/
theorem inTurn_start {rand : Nat → Nat} {draw playerNum : Nat}
    (hstart : gameStart name rand draw conns playerNum = .ok m.game) (hn : Named name conns)
    (hletters : Letters name conns) (hcount : playerNum = (Finset.univ.filter fun i ↦ (conns i).isSome).card)
    (hroom : ∀ c, (m.station c).InRoom (name c)) :
    InTurn name conns (Finset.univ.filter fun i ↦ (conns i).isSome) m := by
  have hplay := gameStart_playing hstart hcount
  obtain ⟨p, -, hstart⟩ := exists_of_bind_ok hstart
  obtain ⟨first, -, hround⟩ := exists_of_bind_ok hstart
  have hframe := dealSeat_frame (List.finRange 10) (freshTable rand conns playerNum)
  generalize (List.finRange 10).foldl dealSeat (freshTable rand conns playerNum) = r at hround hframe
  have hused : r.used = conns := by
    rw [hframe]
    rfl
  have hout : r.out = [] := by
    rw [hframe]
    rfl
  obtain ⟨d, -, hg⟩ := startRound_emits hround
  have hcard := isField_cards p.1
  refine ⟨hplay, fun _ ↦ ?_, fun _ i c hi hc ↦ ?_⟩
  · have hcolour : m.game.colour = charAt (cards p.1) 1 := by
      rw [hg]
      rfl
    unfold ShowsColour
    rw [hcolour]
    exact ⟨charAt_mem hcard.1.2 (by decide), charAt_mem hcard.2 (by decide)⟩
  let set := (r.openTable p.1 p.2 first).announce name
  have hnine (l : Text) (hl : l ∈ received c set.out) : charAt l 0 = '9' := by
    have hwritten : set.out = r.out ++ ((List.finRange 10).filterMap r.used).map fun d ↦
        .send d (['9'] ++ blankJoin (((List.finRange 10).filterMap r.used).map name) ++ ['\n']) := rfl
    have hsent := mem_received hl
    rw [hwritten, hout, List.nil_append] at hsent
    obtain ⟨d, -, he⟩ := List.mem_map.mp hsent
    cases he
    rfl
  have hquiet : Held name set c (m.station c) 0 := (hroom c).held hn hletters hc hnine
  have hactive : (i, c) ∈ set.active := by
    have hsame : m.game.handNum = set.handNum := by
      rw [hg]
      rfl
    refine (mem_active i c).mpr ⟨?_, ?_⟩
    · rw [← hsame]
      exact (hplay.seated.handNum i).mpr hi
    · change r.used i = some c
      rw [hused]
      exact hc
  exact hquiet.told (hused ▸ hn) hactive hcard (fun _ _ ↦ rfl) hround

/-- Every line `9` and `10` that `GameStart` comes to read is from the player in turn, as long as no player sends
a second one before it has read a round line. -/
theorem moves_in_turn {rand : Nat → Nat} {draw playerNum : Nat} {m₀ : Match} (hn : Named name conns)
    (hletters : Letters name conns) (hcount : playerNum = (Finset.univ.filter fun i ↦ (conns i).isSome).card)
    (hstart : gameStart name rand draw conns playerNum = .ok m₀.game)
    (hroom : ∀ c, (m₀.station c).InRoom (name c)) (hrun : RunWith (Match.Step name) (OneMove name) m₀ m) :
    m.OnTurn := by
  have hinv := RunWith.preserves (I := fun m ↦ ∃ seats, InTurn name conns seats m) ?_ hrun
    ⟨_, inTurn_start hstart hn hletters hcount hroom⟩
  · obtain ⟨seats, h⟩ := hinv
    exact h.onTurn
  · rintro m a m' ⟨seats, h⟩ ha hs
    exact h.step hn hletters ha hs

/-! ### A game of two -/

/-- All clients wait in the room. -/
def openMatch (g : Game) : Match := ⟨g, fun _ ↦ ⟨.waiting, none, false, 0, []⟩⟩

private theorem inRoom_openMatch (g : Game) (c : ConnId) : ((openMatch g).station c).InRoom (plainName c) :=
  ⟨.inl rfl, rfl, rfl, fun _ hl ↦ absurd hl List.not_mem_nil⟩

/-- The start of a game of two, and what a list of actions makes of it. -/
private theorem exists_match (next : Match → MatchAct → Option Match) (acts : List MatchAct) (p : Match → Bool)
    (h : ((gameStart plainName (inOrder.rand 0) 0 Uno.twoSeats 2).toOption.bind fun g ↦
      playActs next (openMatch g) acts).map p = some true) :
    ∃ g m, gameStart plainName (inOrder.rand 0) 0 Uno.twoSeats 2 = .ok g ∧ playActs next (openMatch g) acts = some m ∧
      p m = true := by
  obtain ⟨m, hm, hp⟩ := Option.map_eq_some_iff.mp h
  obtain ⟨g, hg, hm⟩ := Option.bind_eq_some_iff.mp hm
  exact ⟨g, m, ok_of_toOption hg, hm, hp⟩

/-- A test for `OneMove` that passes no settlement. -/
private def Match.heeds (name : ConnId → Text) (m : Match) : MatchAct → Bool
  | .skip c => !(m.station c).moved && (m.station c).whosTurn.isSome
  | .play c _ => !(m.station c).moved && (m.station c).whosTurn.isSome
  | .serve env => m.game.active.all fun p ↦ env.name p.2 = name p.2
  | .settle _ => false
  | _ => true

private theorem oneMove_of_heeds {a : MatchAct} (h : m.heeds name a = true) : OneMove name m a := by
  refine ⟨fun c hc ↦ ?_, fun env he ↦ ?_, fun env he ↦ ?_⟩
  · have hboth : (!(m.station c).moved && (m.station c).whosTurn.isSome) = true := by
      rcases hc with rfl | ⟨card, rfl⟩
      · exact h
      · exact h
    rw [Bool.and_eq_true, Bool.not_eq_true', Option.isSome_iff_ne_none] at hboth
    exact hboth
  · subst he
    exact fun i c hin ↦ of_decide_eq_true (List.all_eq_true.mp h (i, c) hin)
  · subst he
    cases h

private theorem seat_of_two {c : ConnId} (h : Uno.twoSeats i = some c) : c = seatAsConn i := by
  unfold Uno.twoSeats at h
  split at h
  · cases h
    rfl
  · cases h

private theorem letters_two : Letters plainName Uno.twoSeats := by
  intro i c hc ch hch
  have table : ∀ i : Seat, (plainName (seatAsConn i)).all Char.isAlpha = true := by decide
  rw [seat_of_two hc] at hch
  exact List.all_eq_true.mp (table i) ch hch

/-- The first player passes, once. -/
theorem moves_in_turn_once :
    ∃ m : Match, m.OnTurn ∧ m.game.whoseRound = 1 ∧ (m.station 0).moved = true := by
  obtain ⟨g, m, hg, hm, hp⟩ := exists_match (guarded (Match.heeds plainName) (Match.step plainName))
    [.hear 0, .hear 0, .skip 0, .serve inOrder]
    (fun m ↦ decide (m.game.whoseRound = 1) && (m.station 0).moved) (by decide +kernel)
  rw [Bool.and_eq_true, decide_eq_true_eq] at hp
  have hrun : RunWith (Match.Step plainName) (OneMove plainName) (openMatch g) m :=
    runWith_of_playActs (fun _ _ ↦ oneMove_of_heeds) hm
  have hstart : gameStart plainName (inOrder.rand 0) 0 Uno.twoSeats 2 = .ok (openMatch g).game := hg
  have hturn := moves_in_turn (named_seats fun _ _ ↦ seat_of_two) letters_two (by decide) hstart
    (inRoom_openMatch g) hrun
  exact ⟨m, hturn, hp.1, hp.2⟩

/-- The first player's time is over, and in two turns of its loop the client sends a line `10`. The second of them
is read when it is the other player's turn. -/
theorem second_skip_out_of_turn :
    ∃ g m, gameStart plainName (inOrder.rand 0) 0 Uno.twoSeats 2 = .ok g ∧
      Run (Match.Step plainName) (openMatch g) m ∧ m.game.pc = .scan 0 ∧ (m.station 0).outbox = [['1', '0', '\n']] ∧
      m.game.whoseRound = 1 ∧ ¬ m.OnTurn := by
  obtain ⟨g, m, hg, hm, hp⟩ := exists_match (Match.step plainName)
    ([.hear 0, .hear 0, .skip 0, .skip 0, .serve inOrder] ++ List.replicate 9 .pass ++ [.settle inOrder])
    (fun m ↦ decide (m.game.pc = .scan 0 ∧ (m.station 0).outbox = [['1', '0', '\n']] ∧ m.game.whoseRound = 1 ∧
      m.game.used 0 = some 0 ∧ m.game.handNum 0 ≠ -1)) (by decide +kernel)
  obtain ⟨hpc, hout, hwho, hused, hnum⟩ := of_decide_eq_true hp
  refine ⟨g, m, hg, run_of_playActs hm, hpc, hout, hwho, fun hon ↦ ?_⟩
  have hturn := hon 0 0 _ _ hpc hused hnum hout (by decide)
  rw [hwho] at hturn
  cases hturn

end Unpv13e.Client
