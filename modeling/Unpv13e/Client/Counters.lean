import Unpv13e.Client.RoundLine
import Unpv13e.Uno.Conservation
import Unpv13e.Uno.Departure

/-!
# The counters of the players

Library `Client`. Between two round lines a player keeps `player_remain[]` and `card_remain` by what the lines `7`,
`11`, `12`, `13` and `19` tell (`src/tcpcliserv/final_cli.c:886–980`). They are compared here with `hand_num[]` and
`card_num` of the server (`src/tcpcliserv/final_server.c:231–279,552–654`).
-/

namespace Unpv13e.Client
open Unpv13e.Base Unpv13e.Uno Game

/-- The lines written to connection `c`, in order. -/
def received (c : ConnId) (es : List Effect) : List Text :=
  es.filterMap fun
    | .send d line => if d = c then some line else none
    | .setState _ _ => none

/-- What a player makes of the lines of a game, of which the first is the line `9`. -/
def View.watch (myId : Text) : List Text → Except Stop View
  | [] => .error .blocked
  | nine :: lines => View.start nine >>= View.handleAll myId lines

/-- The names of the players of a game, in the order of their seats. -/
def playersOf (name : ConnId → Text) (used : Seat → Option ConnId) : List Text :=
  ((List.finRange 10).filterMap used).map name

/-- The counters of a player are those of the game. -/
structure Follows (name : ConnId → Text) (g : Game) (v : View) : Prop where
  players : v.players = playersOf name g.used
  playerRemain : ∀ j c k, g.used j = some c → v.players[k]? = some (name c) →
    v.playerRemain k = g.handNum j
  cardRemain : v.cardRemain = g.cardNum

/-- The players of a game have names that can be sent and that tell them apart. -/
structure Named (name : ConnId → Text) (used : Seat → Option ConnId) : Prop where
  isName : ∀ i c, used i = some c → IsName (name c)
  apart : ∀ i j c d, used i = some c → used j = some d → name c = name d → i = j

/-- A line that is answered with a round line to every player in the game, unless the game is over. -/
def IsMove (l : Text) : Prop :=
  charAt (chop l) 0 = '9' ∨ charAt (chop l) 0 = '1' ∧ charAt (chop l) 1 = '0'

instance (l : Text) : Decidable (IsMove l) := inferInstanceAs (Decidable (_ ∨ _))

/-- What is read by `recv` may be answered with a round line. -/
def CallsRound : Event → Prop
  | .eof => True
  | .line l => Departure (.line l) ∨ IsMove l

instance (event : Event) : Decidable (CallsRound event) :=
  match event with
  | .eof => isTrue True.intro
  | .line l => inferInstanceAs (Decidable (Departure (.line l) ∨ IsMove l))

/-- What the server reads from memory shared with other threads is as the players know it: the names of those still
in the game. -/
def KnowsNames (name : ConnId → Text) (g : Game) (env : Env) : Prop :=
  ∀ i c, (i, c) ∈ g.active → env.name c = name c

/-- What a step must meet for the players to keep up with the server. -/
structure Mirrored (name : ConnId → Text) (g : Game) (a : GameAct) : Prop where
  names : ∀ env, (a = .settle env ∨ ∃ event, a = .recv env event) → KnowsNames name g env
  /-- Only a move may have the pile filled again. -/
  pile : (∀ env l, a = .recv env (.line l) → ¬ IsMove l) → PileLasts g a
  /-- A call is settled against a seat in the game, a catch if `conns[]` lists that seat under its own number. -/
  settled : ∀ env u, a = .settle env → g.haveUno = some u →
    g.handNum u ≠ -1 ∧ (g.fastest u ≠ u → ∀ c, g.used u = some c → env.name (seatAsConn u) = name c)
  /-- No counter in a round line comes to the end of `int`. -/
  counters : ∀ env event j, a = .recv env event → CallsRound event → g.handNum j + 4 ≤ 2147483647
  /-- A card's name has at most two characters. -/
  card : ∀ env l w, a = .recv env (.line l) → charAt (chop l) 0 = '9' → arg1 (chop l) = .ok w → w.length ≤ 2
  /-- Who plays the last card is counted one card. -/
  last : ∀ env l i, a = .recv env (.line l) → charAt (chop l) 0 = '9' → g.pc = .scan i →
    (g.hand i).card = 1 → g.handNum i = 1

/-! ### Lines and views -/

/-- The lines written between `g` and `g'` to connection `c` take every view with `P` to one with `Q`. -/
def Told (name : ConnId → Text) (c : ConnId) (P : View → Prop) (g g' : Game) (Q : View → Prop) : Prop :=
  ∃ es, g'.out = g.out ++ es ∧
    ∀ v, P v → ∃ v', View.handleAll (name c) (received c es) v = .ok v' ∧ Q v'

variable {name : ConnId → Text} {c d : ConnId} {P Q R : View → Prop} {g g' r : Game} {i w : Seat}

private theorem handleAll_append (myId : Text) (as bs : List Text) (v : View) :
    View.handleAll myId (as ++ bs) v =
      (View.handleAll myId as v >>= fun v ↦ View.handleAll myId bs v) := by
  induction as generalizing v with
  | nil => rfl
  | cons line as ih =>
    change (v.handle myId line >>= View.handleAll myId (as ++ bs)) =
      ((v.handle myId line >>= View.handleAll myId as) >>= _)
    cases v.handle myId line with
    | error e => rfl
    | ok v' => exact ih v'

/-- Watching on. -/
theorem watch_append {myId : Text} {as : List Text} {v : View} (h : View.watch myId as = .ok v)
    (bs : List Text) : View.watch myId (as ++ bs) = View.handleAll myId bs v := by
  cases as with
  | nil => cases h
  | cons nine lines =>
    obtain ⟨v₀, hstart, hv⟩ := exists_of_bind_ok h
    change (View.start nine >>= View.handleAll myId (lines ++ bs)) = _
    rw [hstart, ok_bind, handleAll_append, hv, ok_bind]

theorem received_append (c : ConnId) (es fs : List Effect) :
    received c (es ++ fs) = received c es ++ received c fs := List.filterMap_append

theorem Told.trans (h : Told name c P g r Q) (h' : Told name c Q r g' R) :
    Told name c P g g' R := by
  obtain ⟨es, hes, hv⟩ := h
  obtain ⟨fs, hfs, hw⟩ := h'
  refine ⟨es ++ fs, by rw [hfs, hes, List.append_assoc], fun v hP ↦ ?_⟩
  obtain ⟨v', hv', hQ⟩ := hv v hP
  obtain ⟨v'', hv'', hR⟩ := hw v' hQ
  refine ⟨v'', ?_, hR⟩
  rw [received_append, handleAll_append, hv']
  exact hv''

theorem Told.mono (h : Told name c P g g' Q) (hQ : ∀ v, Q v → R v) : Told name c P g g' R := by
  obtain ⟨es, hes, hv⟩ := h
  refine ⟨es, hes, fun v hP ↦ ?_⟩
  obtain ⟨v', hv', h'⟩ := hv v hP
  exact ⟨v', hv', hQ v' h'⟩

/-- Nothing is written to player `c`. -/
theorem told_nothing {e : List Effect} (hout : g'.out = g.out ++ e)
    (hc : received c e = []) (h : ∀ v, P v → Q v) : Told name c P g g' Q := by
  refine ⟨e, hout, fun v hP ↦ ⟨v, ?_, h v hP⟩⟩
  rw [hc]
  rfl

theorem told_same (hout : g'.out = g.out) (h : ∀ v, P v → Q v) : Told name c P g g' Q :=
  told_nothing (e := []) (by rw [hout, List.append_nil]) rfl h

/-- One line is written to player `c`. -/
private theorem told_line {es : List Effect} {line : Text} (hout : g'.out = g.out ++ es)
    (hc : received c es = [line])
    (h : ∀ v, P v → ∃ v', v.handle (name c) line = .ok v' ∧ Q v') : Told name c P g g' Q := by
  refine ⟨es, hout, fun v hP ↦ ?_⟩
  obtain ⟨v', hv', hQ⟩ := h v hP
  refine ⟨v', ?_, hQ⟩
  rw [hc]
  unfold View.handleAll
  rw [hv']
  rfl

theorem received_map {β : Type} (c : ConnId) (dst : β → ConnId) (line : β → Text) (ps : List β) :
    received c (ps.map fun p ↦ .send (dst p) (line p)) = (ps.filter fun p ↦ dst p = c).map line := by
  induction ps with
  | nil => rfl
  | cons p ps ih =>
    change received c ([.send (dst p) (line p)] ++ ps.map fun p ↦ .send (dst p) (line p)) = _
    rw [received_append, ih]
    by_cases hp : dst p = c
    · rw [List.filter_cons_of_pos (by simpa using hp)]
      simp [received, hp]
    · rw [List.filter_cons_of_neg (by simpa using hp)]
      simp [received, hp]

/-- Two seats have no connection in common. -/
theorem Named.seat_eq {used : Seat → Option ConnId} (hn : Named name used) (hi : used i = some c)
    (hw : used w = some c) : w = i := hn.apart w i c c hw hi rfl

/-- Names for the connections whose seats have their numbers. -/
theorem named_seats {used : Seat → Option ConnId} (h : ∀ i c, used i = some c → c = seatAsConn i) :
    Named plainName used := by
  constructor
  · intro i c hc
    have table : ∀ i : Seat, IsName (plainName (seatAsConn i)) := by decide
    rw [h i c hc]
    exact table i
  · intro i j c d hc hd he
    have table : ∀ i j : Seat, plainName (seatAsConn i) = plainName (seatAsConn j) → i = j := by decide
    rw [h i c hc, h j d hd] at he
    exact table i j he

private theorem filter_active (hn : Named name g.used) (hi : (i, c) ∈ g.active) :
    g.active.filter (fun p ↦ p.2 = c) = [(i, c)] := by
  have hone : g.active.filter (fun p ↦ p.2 = c) = g.active.filter (· == (i, c)) := by
    apply List.filter_congr
    rintro ⟨j, d⟩ hj
    have hu := ((mem_active i c).mp hi).2
    have hu' := ((mem_active j d).mp hj).2
    rw [Bool.eq_iff_iff]
    simp only [decide_eq_true_eq, beq_iff_eq, Prod.mk.injEq]
    constructor
    · rintro rfl
      exact ⟨hn.seat_eq hu hu', rfl⟩
    · exact fun h ↦ h.2
  rw [hone, List.filter_beq, List.count_eq_one_of_mem active_nodup hi]
  rfl

/-- Of lines written to players in the game, one is written to each. -/
theorem received_each (hn : Named name g.used) (hi : (i, c) ∈ g.active)
    (q : Seat × ConnId → Bool) (line : Seat → Text) :
    received c ((g.active.filter q).map fun p ↦ .send p.2 (line p.1)) =
      if q (i, c) then [line i] else [] := by
  rw [received_map c Prod.snd fun p ↦ line p.1, List.filter_comm, filter_active hn hi]
  by_cases hq : q (i, c)
  · simp [hq]
  · simp [hq]

/-- A line to all players in the game but perhaps one is written to player `c` or not. -/
theorem told_everyone {line : Text} (who : Option Seat) (hn : Named name g.used)
    (hi : (i, c) ∈ g.active) (hself : who = some i → ∀ v, P v → Q v)
    (h : who ≠ some i → ∀ v, P v → ∃ v', v.handle (name c) line = .ok v' ∧ Q v') :
    Told name c P g (g.sendToEveryoneInGame who line) Q := by
  have hreceived := received_each hn hi (fun p ↦ who ≠ some p.1) fun _ ↦ line
  by_cases hw : who = some i
  · rw [if_neg (by simpa using hw)] at hreceived
    exact told_nothing rfl hreceived (hself hw)
  · rw [if_pos (by simpa using hw)] at hreceived
    exact told_line rfl hreceived (h hw)

/-! ### What a player makes of a line -/

private theorem chop_append {s : Text} (h : '\n' ∉ s) (t : Text) : chop (s ++ t) = s ++ chop t := by
  unfold chop
  apply List.takeWhile_append_of_pos
  intro ch hch
  have hne : ch ≠ '\n' := fun he ↦ h (he ▸ hch)
  simpa using hne

/-- The second word of a line, whatever comes after it. -/
private theorem nameIn_eq {op word rest : Text} (hop : IsField op) (hw : IsField word)
    (hrest : rest = ['\n'] ∨ ∃ s, rest = ' ' :: s) :
    View.nameIn (op ++ ' ' :: (word ++ rest)) = .ok word := by
  have htokens : ∃ ws, tokens (chop (op ++ ' ' :: (word ++ rest))) = op :: word :: ws := by
    have hchop : chop (op ++ ' ' :: (word ++ rest)) = op ++ ' ' :: (word ++ chop rest) := by
      rw [chop_append hop.2, ← chop_append hw.2]
      rfl
    rw [hchop, tokens_word_blank _ _ hop.1]
    rcases hrest with rfl | ⟨s, rfl⟩
    · have hnil : chop ['\n'] = [] := rfl
      rw [hnil, List.append_nil, tokens_word _ hw.1]
      exact ⟨[], rfl⟩
    · have hblank : chop (' ' :: s) = ' ' :: chop s := rfl
      rw [hblank, tokens_word_blank _ _ hw.1]
      exact ⟨_, rfl⟩
  obtain ⟨ws, hws⟩ := htokens
  unfold View.nameIn
  rw [hws]

private theorem nameIn_line1 {op word : Text} (hop : IsField op) (hw : IsField word) :
    View.nameIn (line1 op word) = .ok word := nameIn_eq hop hw (.inl rfl)

private theorem nameIn_line2 {op word : Text} (hop : IsField op) (hw : IsField word) (s : Text) :
    View.nameIn (line2 op word s) = .ok word := nameIn_eq hop hw (.inr ⟨_, rfl⟩)

theorem handle_wrongCall {word : Text} (hw : IsField word) (myId : Text) (v : View) :
    v.handle myId (line1 ['1', '1'] word) = .ok (v.punish myId word) := by
  change (View.nameIn (line1 ['1', '1'] word) >>= fun name ↦ .ok (v.punish myId name)) = _
  rw [nameIn_line1 (by decide) hw, ok_bind]

theorem handle_wrongCatch {word : Text} (hw : IsField word) (s myId : Text) (v : View) :
    v.handle myId (line2 ['1', '9'] word s) = .ok (v.punish myId word) := by
  change (View.nameIn (line2 ['1', '9'] word s) >>= fun name ↦ .ok (v.punish myId name)) = _
  rw [nameIn_line2 (by decide) hw, ok_bind]

theorem handle_caught {word : Text} (hw : IsField word) (s myId : Text) (v : View) :
    v.handle myId (line2 ['1', '3'] word s) = .ok (v.punish myId word) := by
  change (View.nameIn (line2 ['1', '3'] word s) >>= fun name ↦ .ok (v.punish myId name)) = _
  rw [nameIn_line2 (by decide) hw, ok_bind]

theorem handle_called {word : Text} (hw : IsField word) (myId : Text) (v : View) :
    v.handle myId (line1 ['1', '4'] word) = .ok (v.called word) := by
  change (View.nameIn (line1 ['1', '4'] word) >>= fun name ↦ .ok (v.called name)) = _
  rw [nameIn_line1 (by decide) hw, ok_bind]

theorem handle_left {word : Text} (hw : IsField word) (myId : Text) (v : View) :
    v.handle myId (line1 ['7'] word) = .ok (v.leave word) := by
  change (View.nameIn (line1 ['7'] word) >>= fun name ↦ .ok (v.leave name)) = _
  rw [nameIn_line1 (by decide) hw, ok_bind]

/-- The line for a drawn card counts one card. -/
private theorem handle_drawn (q : CardId) (myId : Text) (v : View) :
    ∃ v', v.handle myId (line1 ['1', '2'] (cards q)) = .ok v' ∧ v'.players = v.players ∧
      v'.playerRemain = (v.add myId 1).playerRemain ∧ v'.cardRemain = (v.add myId 1).cardRemain := by
  have htokens : tokens (chop (line1 ['1', '2'] (cards q))) = [['1', '2'], cards q] := by
    have hline : line1 ['1', '2'] (cards q) = ['1', '2'] ++ blankJoin [cards q] ++ ['\n'] := by
      simp [line1, blankJoin]
    rw [hline]
    exact tokens_line (by decide) fun u hu ↦ List.mem_singleton.mp hu ▸ isField_cards q
  refine ⟨v.draw myId (line1 ['1', '2'] (cards q)), rfl, rfl, ?_, ?_⟩
  · unfold View.draw
    rw [htokens]
    rfl
  · unfold View.draw
    rw [htokens]
    rfl

/-! ### Counting cards -/

/-- A player of the game: its seat, with a connection, a name and no negative counter. -/
structure Player (name : ConnId → Text) (i : Seat) (c : ConnId) (g : Game) : Prop where
  named : Named name g.used
  used : g.used i = some c
  low : 0 ≤ g.handNum i

theorem Player.active (h : Player name i c g) : (i, c) ∈ g.active := by
  refine (mem_active i c).mpr ⟨fun hno ↦ ?_, h.used⟩
  have := h.low
  omega

theorem Player.congr (h : Player name i c g) (hu : g'.used = g.used) (hn : g.handNum i ≤ g'.handNum i) :
    Player name i c g' := ⟨hu ▸ h.named, hu ▸ h.used, h.low.trans hn⟩

/-- The counters of a player are those of the game but for `k` cards that seat `w` has been given. -/
structure Lags (name : ConnId → Text) (w : Seat) (k : Int) (g : Game) (v : View) : Prop where
  players : v.players = playersOf name g.used
  playerRemain : ∀ j c n, g.used j = some c → v.players[n]? = some (name c) →
    v.playerRemain n = g.handNum j - if j = w then k else 0
  cardRemain : v.cardRemain = g.cardNum + k

theorem lags_zero {v : View} (w : Seat) : Lags name w 0 g v ↔ Follows name g v := by
  constructor
  · rintro ⟨hp, hr, hc⟩
    refine ⟨hp, fun j c k hu hk ↦ ?_, by rw [hc, add_zero]⟩
    rw [hr j c k hu hk, ite_self, sub_zero]
  · rintro ⟨hp, hr, hc⟩
    refine ⟨hp, fun j c k hu hk ↦ ?_, by rw [hc, add_zero]⟩
    rw [hr j c k hu hk, ite_self, sub_zero]

theorem Follows.congr {v : View} (h : Follows name g v) (hu : g'.used = g.used)
    (hn : g'.handNum = g.handNum) (hc : g'.cardNum = g.cardNum) : Follows name g' v := by
  refine ⟨hu ▸ h.players, fun j c k hj hk ↦ ?_, by rw [hc]; exact h.cardRemain⟩
  rw [hn]
  exact h.playerRemain j c k (hu ▸ hj) hk

/-- No connection is on two seats. -/
theorem members_nodup {used : Seat → Option ConnId} (hn : Named name used) :
    ((List.finRange 10).filterMap used).Nodup := by
  refine List.Nodup.filterMap ?_ (List.nodup_finRange 10)
  intro i j e hi hj
  exact hn.seat_eq hj hi

theorem mem_members {used : Seat → Option ConnId} :
    d ∈ (List.finRange 10).filterMap used ↔ ∃ j, used j = some d := by
  rw [List.mem_filterMap]
  constructor
  · rintro ⟨j, -, hj⟩
    exact ⟨j, hj⟩
  · rintro ⟨j, hj⟩
    exact ⟨j, List.mem_finRange j, hj⟩

/-- Every player is listed once. -/
private theorem count_players {used : Seat → Option ConnId} (hn : Named name used) (hw : used w = some d) :
    (playersOf name used).count (name d) = 1 := by
  have hnodup : (playersOf name used).Nodup := by
    refine List.Nodup.map_on ?_ (members_nodup hn)
    intro a ha b hb heq
    obtain ⟨i, hi⟩ := mem_members.mp ha
    obtain ⟨j, hj⟩ := mem_members.mp hb
    have hij := hn.apart i j a b hi hj heq
    rw [hij, hj] at hi
    exact (Option.some.inj hi).symm
  exact List.count_eq_one_of_mem hnodup (List.mem_map_of_mem (mem_members.mpr ⟨w, hw⟩))

/-- Cards counted for seat `w` make up for cards it has been given. -/
theorem Lags.add {k m : Int} {v v' : View} (h : Lags name w k g v) (hn : Named name g.used)
    (hw : g.used w = some d) (hp : v'.players = v.players)
    (hr : v'.playerRemain = (v.add (name d) m).playerRemain) (hc : v'.cardRemain = (v.add (name d) m).cardRemain) :
    Lags name w (k - m) g v' := by
  refine ⟨hp.trans h.players, fun j e n hj hk ↦ ?_, ?_⟩
  · rw [hp] at hk
    have hold := h.playerRemain j e n hj hk
    have hsame : name e = name d ↔ j = w := by
      constructor
      · exact hn.apart j w e d hj hw
      · rintro rfl
        rw [hw] at hj
        cases hj
        rfl
    rw [hr]
    unfold View.add
    dsimp only
    rw [hk, hold]
    by_cases hjw : j = w
    · rw [if_pos (congrArg some (hsame.mpr hjw)), if_pos hjw, if_pos hjw]
      ring
    · rw [if_neg (fun he ↦ hjw (hsame.mp (Option.some.inj he))), if_neg hjw, if_neg hjw]
  · rw [hc]
    unfold View.add
    dsimp only
    rw [h.players, count_players hn hw, h.cardRemain]
    push_cast
    ring

/-- A card given that has not been counted. -/
theorem Lags.takeTop {k : Int} {v : View} (h : Lags name w k g v) (hpos : 0 < g.cardNum) (d : ConnId) :
    Lags name w (k + 1) (g.takeTop w d) v := by
  refine ⟨h.players, fun j c n hj hk ↦ ?_, ?_⟩
  · rw [h.playerRemain j c n hj hk]
    by_cases hjw : j = w
    · subst hjw
      rw [handNum_takeTop, if_pos rfl, if_pos rfl]
      ring
    · rw [handNum_takeTop_of_ne hjw, if_neg hjw, if_neg hjw]
  · have hnum : (g.takeTop w d).cardNum = g.cardNum - 1 := rfl
    rw [h.cardRemain, hnum]
    push_cast [Nat.cast_sub hpos]
    ring

/-- A card is counted at once by the player who draws it, and by nobody else. -/
private theorem told_takeTop {k : Int} (hc : Player name i c g) (hw : g.used w = some d) (hpos : 0 < g.cardNum) :
    Told name c (Lags name w k g) g (g.takeTop w d)
      (Lags name w (k + if i = w then 0 else 1) (g.takeTop w d)) := by
  by_cases hiw : i = w
  · subst hiw
    have hcd : d = c := Option.some.inj (hw.symm.trans hc.used)
    subst hcd
    have hself : received d [.send d (line1 ['1', '2'] (cards (g.cardSeq (g.cardNum - 1))))] =
        [line1 ['1', '2'] (cards (g.cardSeq (g.cardNum - 1)))] := by
      simp [received]
    refine told_line rfl hself fun v hv ↦ ?_
    obtain ⟨v', hv', hp, hr, hcr⟩ := handle_drawn (g.cardSeq (g.cardNum - 1)) (name d) v
    refine ⟨v', hv', ?_⟩
    have hadd := (hv.takeTop hpos d).add (g := g.takeTop i d) hc.named hw hp hr hcr
    rw [if_pos rfl, add_zero]
    rwa [add_sub_cancel_right] at hadd
  · have hcd : d ≠ c := by
      rintro rfl
      exact hiw (hc.named.seat_eq hw hc.used)
    have hnone : received c [.send d (line1 ['1', '2'] (cards (g.cardSeq (g.cardNum - 1))))] = [] := by
      simp [received, hcd]
    rw [if_neg hiw]
    exact told_nothing rfl hnone fun v hv ↦ hv.takeTop hpos d

/-- Filling the pile again changes nothing a player knows. -/
theorem told_reshuffle {rand : Nat → Nat} {adopted : Finset CardId} (hc : Player name i c g) :
    Told name c P g (g.reshuffle rand adopted).2 P := by
  have htold : Told name c P g (g.sendToEveryoneInGame none ['2', '0', '\n']) P :=
    told_everyone none hc.named hc.active (fun hno ↦ by cases hno) fun _ v hv ↦ ⟨v, rfl, hv⟩
  exact htold.trans (told_same rfl fun v hv ↦ hv)

theorem player_takeTop (hc : Player name i c g) : Player name i c (g.takeTop w d) := by
  refine hc.congr rfl ?_
  by_cases hiw : i = w
  · subst hiw
    rw [handNum_takeTop]
    omega
  · rw [handNum_takeTop_of_ne hiw]

/-- Cards from a pile that has them. -/
theorem told_giveFrom {rand : Nat → Nat → Nat} {k : Int} (t n : Nat) (adopted : Finset CardId)
    (hc : Player name i c g) (hpile : n ≤ g.cardNum) (h : giveFrom rand w t n adopted g = .ok g') :
    Told name c (Lags name w k g) g g' (Lags name w (k + if i = w then 0 else (n : Int)) g') ∧
      Player name i c g' := by
  induction n generalizing t adopted g k with
  | zero =>
    cases h
    rw [Nat.cast_zero, ite_self, add_zero]
    exact ⟨told_same rfl fun v hv ↦ hv, hc⟩
  | succ n ih =>
    obtain ⟨s, hs, h⟩ := exists_of_bind_ok h
    obtain ⟨d, hd, hs⟩ := exists_of_bind_ok hs
    have hsup : g.supply (rand t) adopted = (adopted, g) := if_neg (by omega)
    rw [hsup] at hd hs
    split at hs
    · cases hs
    cases hs
    have htop := told_takeTop (k := k) hc (used_of_conn hd) (by omega)
    obtain ⟨hrest, hplayer⟩ := ih (k := k + if i = w then 0 else 1) _ _ (player_takeTop hc)
      (by change n ≤ g.cardNum - 1; omega) h
    refine ⟨(htop.trans hrest).mono fun v hv ↦ ?_, hplayer⟩
    have hsum : (k + if i = w then 0 else 1) + (if i = w then 0 else (n : Int)) =
        k + if i = w then 0 else ((n + 1 : Nat) : Int) := by
      split
      · ring
      · push_cast
        ring
    rwa [hsum] at hv

/-- Whoever draws, the players stay the ones they are. -/
private theorem told_drawn :
    Told name c (fun v ↦ v.players = playersOf name g.used) g (g.takeTop w d)
      (fun v ↦ v.players = playersOf name g.used) := by
  by_cases hcd : d = c
  · subst hcd
    have hself : received d [.send d (line1 ['1', '2'] (cards (g.cardSeq (g.cardNum - 1))))] =
        [line1 ['1', '2'] (cards (g.cardSeq (g.cardNum - 1)))] := by
      simp [received]
    refine told_line rfl hself fun v hv ↦ ?_
    obtain ⟨v', hv', hp, -⟩ := handle_drawn (g.cardSeq (g.cardNum - 1)) (name d) v
    exact ⟨v', hv', hp.trans hv⟩
  · have hnone : received c [.send d (line1 ['1', '2'] (cards (g.cardSeq (g.cardNum - 1))))] = [] := by
      simp [received, hcd]
    exact told_nothing rfl hnone fun v hv ↦ hv

/-- Whatever cards are given, the players stay the ones they are. -/
theorem told_given {rand : Nat → Nat → Nat} (t n : Nat) (adopted : Finset CardId)
    (hc : Player name i c g) (h : giveFrom rand w t n adopted g = .ok g') :
    Told name c (fun v ↦ v.players = playersOf name g.used) g g' (fun v ↦ v.players = playersOf name g.used) := by
  have hrule := giveFrom_rule (I := fun _ r ↦ r.used = g.used ∧ Player name i c r ∧
    Told name c (fun v ↦ v.players = playersOf name g.used) g r (fun v ↦ v.players = playersOf name g.used))
    (m := 0) ?_ ?_ h ⟨rfl, hc, told_same rfl fun v hv ↦ hv⟩
  · exact hrule.2.2
  · rintro _ rand adopted r _ ⟨hu, hr, htold⟩
    exact ⟨hu, hr.congr rfl (le_refl _), htold.trans (told_reshuffle hr)⟩
  · rintro _ d r hd _ _ ⟨hu, hr, htold⟩
    have htop := @told_drawn name c d r w
    rw [hu] at htop
    exact ⟨hu, player_takeTop hr, htold.trans htop⟩

/-! ### Round lines -/

/-- The counters read from a round line. -/
private theorem follows_of_shows {tableCard turn : Text} {v : View} (hn : Named name g.used)
    (hp : v.players = playersOf name g.used) (h : ShowsRound name tableCard turn g i v) : Follows name g v := by
  refine ⟨hp, fun j d k hj hk ↦ ?_, h.cardRemain⟩
  have hlt : k < v.players.length := (List.getElem?_eq_some_iff.mp hk).1
  have hcounts := congrArg (·[k]?) h.counts
  rw [List.getElem?_map, List.getElem?_map, List.getElem?_range hlt] at hcounts
  obtain ⟨j', -, heq⟩ := Option.map_eq_some_iff.mp hcounts.symm
  obtain ⟨hname, hnum⟩ := Prod.mk.inj heq
  rw [hk] at hname
  obtain ⟨d', hd', hdd⟩ := Option.map_eq_some_iff.mp hname
  have hjj := hn.apart j' j d' d hd' hj hdd
  rw [← hnum, hjj]

/-- A round line brings every player up to date. -/
theorem told_startRound {told : ConnId → Text} {tableCard : Text} (hc : Player name i c g)
    (hturn : ∀ d, g.used g.whoseRound = some d → told d = name d)
    (hcard : IsField tableCard ∧ tableCard.length ≤ 2)
    (hint : IsInt g.cardNum ∧ ∀ j, IsInt (g.handNum j)) (hhand : (g.hand i).Nonempty)
    (h : startRound told tableCard g = .ok g') :
    Told name c (fun v ↦ v.players = playersOf name g.used) g g' (Follows name g') := by
  obtain ⟨d, hd, rfl⟩ := startRound_emits h
  have hself : received c (g.active.map fun p ↦ .send p.2 (g.roundLine tableCard (told d) p.1)) =
      [g.roundLine tableCard (told d) i] := by
    rw [received_map c Prod.snd fun p ↦ g.roundLine tableCard (told d) p.1, filter_active hc.named hc.active]
    rfl
  refine told_line rfl hself fun v hv ↦ ?_
  have hname : IsName (told d) := hturn d hd ▸ hc.named.isName _ _ hd
  obtain ⟨v', hround, hp, hshows⟩ := round_roundLine hv hcard hname hint hhand
  exact ⟨v', hround, (follows_of_shows hc.named (hp.trans hv) hshows).congr rfl rfl rfl⟩

end Unpv13e.Client
