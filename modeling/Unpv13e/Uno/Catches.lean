import Unpv13e.Uno.Supply

/-!
# Calls and catches in one round

Library `Uno`. In one turn of its loop `GameStart` reads at most one line from each seat, in the order
of the seats, and settles the UNO calls and catches among them at the end
(`src/tcpcliserv/final_server.c:362–385`, `:552–654`). Which seat is the one that is called or caught,
whose line was the fastest, and what that makes of the penalty.
-/

namespace Unpv13e.Uno
open Unpv13e.Base Game

/-- A valid UNO call or catch. -/
inductive UnoLine
  | callUno (time : Text)
  | catchUno (name time : Text)
  deriving DecidableEq, Repr

namespace UnoLine

/-- The line as it is sent. -/
def text : UnoLine → Text
  | callUno time => ['1', '1'] ++ blankJoin [['1'], time] ++ ['\n']
  | catchUno name time => ['1', '2'] ++ blankJoin [['1'], name, time] ++ ['\n']

/-- The words of the line are words. -/
def WellFormed : UnoLine → Prop
  | callUno time => IsField time
  | catchUno name time => IsField name ∧ IsField time

end UnoLine

/-- The lines of a round by seat. -/
abbrev UnoLines := Seat → Option UnoLine

/-- What the loop does at a seat. -/
def unoAct (env : Env) : Option UnoLine → GameAct
  | none => .pass
  | some l => .recv env (.line l.text)

/-- A turn of the loop. -/
def unoActs (env : Env) (lines : UnoLines) : List GameAct :=
  (List.finRange 10).map (fun i ↦ unoAct env (lines i)) ++ [.settle env]

/-- The state `GameStart` begins a turn of its loop in. -/
structure RoundStart (g : Game) : Prop where
  alive : Alive g
  pc : g.pc = .scan 0
  haveUno : g.haveUno = none
  timeStamp : g.timeStamp = fun _ ↦ longMax

/-- Every line comes from a seat in the game and is well formed. -/
structure Sendable (g : Game) (lines : UnoLines) : Prop where
  seated : ∀ i l, lines i = some l → g.handNum i ≠ -1
  fields : ∀ i l, lines i = some l → l.WellFormed

/-! ### What the lines say -/

/-- The name of the player on seat `i`. -/
def Game.playerName (g : Game) (env : Env) (i : Seat) : Text :=
  match g.used i with
  | some c => env.name c
  | none => []

/-- When seat `u` called. -/
def UnoLines.ownTime (lines : UnoLines) (u : Seat) : Int :=
  match lines u with
  | some (.callUno time) => strtol time
  | _ => longMax

/-- The first of the catches that name the player on seat `u` comes from seat `k`, and before the call of
`u`. -/
def Catches (g : Game) (env : Env) (lines : UnoLines) (k u : Seat) : Prop :=
  ∃ time, lines k = some (.catchUno (g.playerName env u) time) ∧ strtol time < lines.ownTime u ∧
    ∀ j other, lines j = some (.catchUno (g.playerName env u) other) → strtol time ≤ strtol other

/-- The line that tells of a catch. -/
def caughtLine (caught catcher : Text) : Text := line2 ['1', '3'] caught catcher

/-- Seat `u` is penalised rightly, with the effects `es`: it has one card and has not called, somebody has
caught it, and everybody is told so. -/
structure RightlyCaught (g : Game) (env : Env) (lines : UnoLines) (es : List Effect) (u k : Seat) :
    Prop where
  card : g.handNum u = 1
  quiet : g.isUno u = false
  caught : Catches g env lines k u
  told : ∀ i c, (i, c) ∈ g.active →
    .send c (caughtLine (g.playerName env u) (g.playerName env k)) ∈ es
  only : ∀ c line, .send c line ∈ es → opOf line = ('1', '3') →
    line = caughtLine (g.playerName env u) (g.playerName env k)

/-- The round goes through, and every seat that is given cards is penalised rightly. -/
def FairRound (g : Game) (env : Env) (lines : UnoLines) : Prop :=
  ∃ g' es, runActs Game.step g (unoActs env lines) = .ok g' ∧ g'.out = g.out ++ es ∧
    ∀ u, g'.handNum u ≠ g.handNum u → ∃ k, RightlyCaught g env lines es u k

/-! ### What the code makes of them -/

namespace Game

/-- The seat may be called or caught. -/
def Eligible (g : Game) (i : Seat) : Prop := g.isUno i = false ∧ g.handNum i = 1

instance (g : Game) (i : Seat) : Decidable (g.Eligible i) := inferInstanceAs (Decidable (_ ∧ _))

/-- The seat a line brings up on its own: the caller, or the seat whose number is the connection of the
given name. -/
def opens (g : Game) (env : Env) (lines : UnoLines) (k : Seat) : Option Seat :=
  match lines k with
  | none => none
  | some (.callUno _) => if g.Eligible k then some k else none
  | some (.catchUno name _) =>
    match g.findNamed env name with
    | none => none
    | some u => if g.Eligible u then some u else none

/-- Seat `i` calls with one card. -/
def Caller (g : Game) (lines : UnoLines) (i : Seat) : Prop :=
  g.Eligible i ∧ ∃ time, lines i = some (.callUno time)

/-- The seat the round is about: the last that calls, or when nobody calls the first that is brought up. -/
def Sought (g : Game) (env : Env) (lines : UnoLines) (u : Seat) : Prop :=
  (g.Caller lines u ∧ ∀ j, u < j → ¬ g.Caller lines j) ∨
    (∀ j, ¬ g.Caller lines j) ∧ ∃ k, g.opens env lines k = some u ∧
      ∀ j, j < k → g.opens env lines j = none

/-- The time a line counts with: a catch counts once a seat has been brought up. -/
def unoTime (g : Game) (env : Env) (lines : UnoLines) (i : Seat) : Int :=
  match lines i with
  | none => longMax
  | some (.callUno time) => if g.Eligible i then strtol time else longMax
  | some (.catchUno _ time) =>
    if ∃ k, k ≤ i ∧ (g.opens env lines k).isSome then strtol time else longMax

/-- Seat `f` is the first in the game with the earliest time, and `u` is later. -/
def Overtakes (g : Game) (env : Env) (lines : UnoLines) (f u : Seat) : Prop :=
  g.handNum f ≠ -1 ∧ g.unoTime env lines f < g.unoTime env lines u ∧
    ∀ j, g.handNum j ≠ -1 → g.unoTime env lines f ≤ g.unoTime env lines j ∧
      (j < f → g.unoTime env lines f < g.unoTime env lines j)

/-- A catch that comes before any seat has been brought up finds one. -/
def FindsSeat (g : Game) (env : Env) (lines : UnoLines) (i : Seat) : Prop :=
  ∀ name time, lines i = some (.catchUno name time) →
    (∃ k, k < i ∧ (g.opens env lines k).isSome) ∨ (g.findNamed env name).isSome

end Game

variable {g g' : Game} {env : Env} {lines : UnoLines} {i j k u v : Seat} {l : UnoLine}

/-! ### The seat a round is about -/

private theorem opens_of_caller (h : g.Caller lines i) : g.opens env lines i = some i := by
  obtain ⟨helig, time, hl⟩ := h
  unfold opens
  rw [hl]
  exact if_pos helig

private theorem eligible_of_opens (h : g.opens env lines k = some u) : g.Eligible u := by
  unfold opens at h
  split at h
  · cases h
  · split at h
    · next helig =>
      cases h
      exact helig
    · cases h
  · split at h
    · cases h
    · split at h
      · next helig =>
        cases h
        exact helig
      · cases h

/-- Only a seat with one card is sought. -/
theorem Game.Sought.eligible (h : g.Sought env lines u) : g.Eligible u := by
  rcases h with ⟨hcaller, -⟩ | ⟨-, k, hk, -⟩
  · exact hcaller.1
  · exact eligible_of_opens hk

/-- At most one seat is sought. -/
theorem Game.Sought.unique (hu : g.Sought env lines u) (hv : g.Sought env lines v) : u = v := by
  rcases hu with ⟨hu, hlast⟩ | ⟨hno, k, hk, hfirst⟩
  · rcases hv with ⟨hv, hlast'⟩ | ⟨hno, -⟩
    · rcases lt_trichotomy u v with hlt | he | hgt
      · exact absurd hv (hlast v hlt)
      · exact he
      · exact absurd hu (hlast' u hgt)
    · exact absurd hu (hno u)
  · rcases hv with ⟨hv, -⟩ | ⟨-, k', hk', hfirst'⟩
    · exact absurd hv (hno v)
    · rcases lt_trichotomy k k' with hlt | rfl | hgt
      · rw [hfirst' k hlt] at hk
        cases hk
      · exact Option.some.inj (hk.symm.trans hk')
      · rw [hfirst k' hgt] at hk'
        cases hk'

/-- When no seat is sought no line brings one up. -/
theorem opens_eq_none (h : ∀ u, ¬ g.Sought env lines u) (k : Seat) : g.opens env lines k = none := by
  classical
  by_contra hk
  have hcallers : ∀ j, ¬ g.Caller lines j := by
    by_contra hex
    push Not at hex
    let callers := Finset.univ.filter fun j ↦ g.Caller lines j
    have hne : callers.Nonempty := by
      obtain ⟨j, hj⟩ := hex
      exact ⟨j, Finset.mem_filter.mpr ⟨Finset.mem_univ j, hj⟩⟩
    have hmax := Finset.max'_mem callers hne
    refine h (callers.max' hne) (.inl ⟨(Finset.mem_filter.mp hmax).2, fun j hlt hj ↦ ?_⟩)
    have hle := Finset.le_max' callers j (Finset.mem_filter.mpr ⟨Finset.mem_univ j, hj⟩)
    exact absurd hlt (not_lt.mpr hle)
  let openers := Finset.univ.filter fun j ↦ g.opens env lines j ≠ none
  have hne : openers.Nonempty := ⟨k, Finset.mem_filter.mpr ⟨Finset.mem_univ k, hk⟩⟩
  have hmin := (Finset.mem_filter.mp (Finset.min'_mem openers hne)).2
  obtain ⟨u, hu⟩ := Option.ne_none_iff_exists'.mp hmin
  refine h u (.inr ⟨hcallers, openers.min' hne, hu, fun j hlt ↦ ?_⟩)
  by_contra hj
  have hle := Finset.min'_le openers j (Finset.mem_filter.mpr ⟨Finset.mem_univ j, hj⟩)
  exact absurd hlt (not_lt.mpr hle)

/-! ### One more line -/

/-- The lines read when seat `i` is reached. -/
private structure Before (i : Seat) (lines : UnoLines) : Prop where
  unread : ∀ j, i ≤ j → lines j = none

private theorem Before.opens (h : Before i lines) (hj : i ≤ j) : g.opens env lines j = none := by
  unfold Game.opens
  rw [h.unread j hj]

private theorem Before.caller (h : Before i lines) (hj : i ≤ j) : ¬ g.Caller lines j := by
  rintro ⟨-, time, hl⟩
  rw [h.unread j hj] at hl
  cases hl

/-- A further line from seat `i`. -/
private def heard (lines : UnoLines) (i : Seat) (l : UnoLine) : UnoLines :=
  Function.update lines i (some l)

private theorem heard_self : heard lines i l i = some l := Function.update_self _ _ _

private theorem heard_of_ne (hj : j ≠ i) : heard lines i l j = lines j := Function.update_of_ne hj _ _

private theorem opens_heard (hj : j ≠ i) : g.opens env (heard lines i l) j = g.opens env lines j := by
  unfold Game.opens
  rw [heard_of_ne hj]

private theorem caller_heard (hj : j ≠ i) : g.Caller (heard lines i l) j ↔ g.Caller lines j := by
  unfold Caller
  rw [heard_of_ne hj]

/-- A line that counts puts its time in, and changes no other. -/
private theorem unoTime_heard (hb : Before i lines) (hj : j ≠ i) :
    g.unoTime env (heard lines i l) j = g.unoTime env lines j := by
  unfold unoTime
  rw [heard_of_ne hj]
  cases hl : lines j with
  | none => rfl
  | some l' =>
    cases l' with
    | callUno time => rfl
    | catchUno name time =>
      have hlt : j < i := by
        refine lt_of_not_ge fun hle ↦ ?_
        rw [hb.unread j hle] at hl
        cases hl
      have hsame (k : Seat) (hk : k ≤ j) : g.opens env (heard lines i l) k = g.opens env lines k :=
        opens_heard (ne_of_lt (lt_of_le_of_lt hk hlt))
      dsimp only
      refine if_congr (exists_congr fun k ↦ and_congr_right fun hk ↦ ?_) rfl rfl
      rw [hsame k hk]

/-- A line that brings nobody up leaves the seat the round is about. -/
private theorem sought_heard_of_none (hb : Before i lines)
    (hopens : g.opens env (heard lines i l) i = none) :
    g.Sought env (heard lines i l) u ↔ g.Sought env lines u := by
  have hcallers (j : Seat) : g.Caller (heard lines i l) j ↔ g.Caller lines j := by
    by_cases hj : j = i
    · subst hj
      refine iff_of_false (fun hc ↦ ?_) (hb.caller (le_refl j))
      rw [opens_of_caller hc] at hopens
      cases hopens
    · exact caller_heard hj
  have hopen (j : Seat) : g.opens env (heard lines i l) j = g.opens env lines j := by
    by_cases hj : j = i
    · subst hj
      rw [hopens, hb.opens (le_refl j)]
    · exact opens_heard hj
  unfold Sought
  simp only [hcallers, hopen]

/-- A catch leaves it too, once there is one. -/
private theorem sought_heard_of_sought {name time : Text} (hb : Before i lines)
    (hs : g.Sought env lines v) :
    g.Sought env (heard lines i (.catchUno name time)) u ↔ g.Sought env lines u := by
  have hcallers (j : Seat) :
      g.Caller (heard lines i (.catchUno name time)) j ↔ g.Caller lines j := by
    by_cases hj : j = i
    · subst hj
      refine iff_of_false ?_ (hb.caller (le_refl j))
      rintro ⟨-, t, ht⟩
      rw [heard_self] at ht
      cases ht
    · exact caller_heard hj
  have hkeep : g.Sought env (heard lines i (.catchUno name time)) v := by
    rcases hs with ⟨hcaller, hlast⟩ | ⟨hno, k, hk, hfirst⟩
    · exact .inl ⟨(hcallers v).mpr hcaller, fun j hj ↦ fun hc ↦ hlast j hj ((hcallers j).mp hc)⟩
    · have hki : k < i := by
        refine lt_of_not_ge fun hle ↦ ?_
        rw [hb.opens hle] at hk
        cases hk
      refine .inr ⟨fun j hc ↦ hno j ((hcallers j).mp hc), k, ?_, fun j hj ↦ ?_⟩
      · rw [opens_heard (ne_of_lt hki)]
        exact hk
      · rw [opens_heard (ne_of_lt (lt_trans hj hki))]
        exact hfirst j hj
  constructor
  · intro hu
    rw [← hkeep.unique hu]
    exact hs
  · intro hu
    rw [← hs.unique hu]
    exact hkeep

/-- A call is what the round is about. -/
private theorem sought_heard_call {time : Text} (hb : Before i lines) (helig : g.Eligible i) :
    g.Sought env (heard lines i (.callUno time)) u ↔ i = u := by
  have hi : g.Sought env (heard lines i (.callUno time)) i := by
    refine .inl ⟨⟨helig, time, heard_self⟩, fun j hj hc ↦ ?_⟩
    exact hb.caller hj.le ((caller_heard (ne_of_gt hj)).mp hc)
  exact ⟨fun hu ↦ hi.unique hu, fun he ↦ he ▸ hi⟩

/-- The first catch that brings a seat up is what the round is about. -/
private theorem sought_heard_catch {name time : Text} (hb : Before i lines)
    (hno : ∀ v, ¬ g.Sought env lines v)
    (hopens : g.opens env (heard lines i (.catchUno name time)) i = some v) :
    g.Sought env (heard lines i (.catchUno name time)) u ↔ v = u := by
  have hnone := opens_eq_none hno
  have hv : g.Sought env (heard lines i (.catchUno name time)) v := by
    refine .inr ⟨fun j hc ↦ ?_, i, hopens, fun j hj ↦ ?_⟩
    · by_cases hj : j = i
      · subst hj
        obtain ⟨-, t, ht⟩ := hc
        rw [heard_self] at ht
        cases ht
      · have hopen : g.opens env lines j = some j := opens_of_caller ((caller_heard hj).mp hc)
        rw [hnone j] at hopen
        cases hopen
    · rw [opens_heard (ne_of_lt hj)]
      exact hnone j
  exact ⟨fun hu ↦ hv.unique hu, fun he ↦ he ▸ hv⟩

/-! ### Reading a line -/

/-- The table when the lines have been read and the settlement is not made. -/
private def midRound (g : Game) (env : Env) (lines : UnoLines) (h : Option Seat) (pc : Pc) : Game :=
  { g with pc := pc, haveUno := h, timeStamp := g.unoTime env lines }

private theorem recv_callText {time : Text} {h : Option Seat} {pc : Pc} (ht : IsField time) :
    recv env i (.line (UnoLine.callUno time).text) (midRound g env lines h pc) =
      if g.Eligible i then stamp i (.ok time) ((midRound g env lines h pc).setUno (some i))
      else .ok (midRound g env lines h pc) := by
  have htokens : tokens (chop (UnoLine.callUno time).text) = [['1', '1'], ['1'], time] := by
    refine tokens_line (by decide) fun v hv ↦ ?_
    rcases List.mem_cons.mp hv with rfl | hv
    · decide
    · exact List.mem_singleton.mp hv ▸ ht
  have hrecv (s : Game) : recv env i (.line (UnoLine.callUno time).text) s =
      callUno env i (chop (UnoLine.callUno time).text) s := rfl
  have h1 : arg1 (chop (UnoLine.callUno time).text) = .ok ['1'] := by
    unfold arg1
    rw [htokens]
    rfl
  have h2 : arg2 (chop (UnoLine.callUno time).text) = .ok time := by
    unfold arg2
    rw [htokens]
    rfl
  rw [hrecv]
  unfold callUno
  rw [h1, ok_bind, if_neg (by decide), h2]
  rfl

private theorem recv_catchText {name time : Text} {h : Option Seat} {pc : Pc} (hn : IsField name)
    (ht : IsField time) :
    recv env i (.line (UnoLine.catchUno name time).text) (midRound g env lines h pc) =
      (h <|> g.findNamed env name).elim (.error .outOfBounds) fun j ↦
        if g.Eligible j then stamp i (.ok time) ((midRound g env lines h pc).setUno (some j))
        else .ok ((midRound g env lines h pc).setUno none) := by
  have htokens : tokens (chop (UnoLine.catchUno name time).text) =
      [['1', '2'], ['1'], name, time] := by
    refine tokens_line (by decide) fun v hv ↦ ?_
    rcases List.mem_cons.mp hv with rfl | hv
    · decide
    rcases List.mem_cons.mp hv with rfl | hv
    · exact hn
    · exact List.mem_singleton.mp hv ▸ ht
  have hrecv (s : Game) : recv env i (.line (UnoLine.catchUno name time).text) s =
      catchUno env i (chop (UnoLine.catchUno name time).text) s := rfl
  have h1 : arg1 (chop (UnoLine.catchUno name time).text) = .ok ['1'] := by
    unfold arg1
    rw [htokens]
    rfl
  have h2 : arg2 (chop (UnoLine.catchUno name time).text) = .ok name := by
    unfold arg2
    rw [htokens]
    rfl
  have h3 : arg3 (chop (UnoLine.catchUno name time).text) = .ok time := by
    unfold arg3
    rw [htokens]
    rfl
  rw [hrecv]
  unfold catchUno
  rw [h1, ok_bind, if_neg (by decide), h2, h3]
  cases h with
  | some j => rfl
  | none =>
    have hfound : (midRound g env lines none pc).findNamed env name = g.findNamed env name := rfl
    change (Except.ok name >>= fun w ↦ .ok ((midRound g env lines none pc).findNamed env w)) >>= _ = _
    rw [ok_bind, ok_bind, hfound]
    cases g.findNamed env name with
    | none => rfl
    | some j => rfl

/-- `have_uno` is the seat the lines are about. -/
private def IsSought (g : Game) (env : Env) (lines : UnoLines) (h : Option Seat) : Prop :=
  ∀ u, h = some u ↔ g.Sought env lines u

/-- A line that counts is stamped. -/
private theorem stamp_midRound {h h' : Option Seat} {pc : Pc} {time : Text} (hb : Before i lines)
    (hcounts : g.unoTime env (heard lines i l) i = strtol time) :
    stamp i (.ok time) ((midRound g env lines h pc).setUno h') =
      .ok (midRound g env (heard lines i l) h' pc) := by
  have hold : g.unoTime env lines i = longMax := by
    unfold unoTime
    rw [hb.unread i (le_refl i)]
  have htimes : Function.update (g.unoTime env lines) i (strtol time) =
      g.unoTime env (heard lines i l) := by
    funext j
    by_cases hj : j = i
    · subst hj
      rw [Function.update_self, hcounts]
    · rw [Function.update_of_ne hj, unoTime_heard hb hj]
  unfold stamp midRound setUno
  dsimp only
  rw [if_pos hold, ok_bind, htimes]

/-- A line that does not count leaves the times. -/
private theorem midRound_heard {h : Option Seat} {pc : Pc} (hb : Before i lines)
    (hcounts : g.unoTime env (heard lines i l) i = longMax) :
    midRound g env lines h pc = midRound g env (heard lines i l) h pc := by
  have htimes : g.unoTime env lines = g.unoTime env (heard lines i l) := by
    funext j
    by_cases hj : j = i
    · subst hj
      rw [hcounts]
      unfold unoTime
      rw [hb.unread j (le_refl j)]
    · rw [unoTime_heard hb hj]
  unfold midRound
  rw [htimes]

private theorem recv_call {h : Option Seat} (pc : Pc) {time : Text} (hb : Before i lines)
    (ht : IsField time) (hh : IsSought g env lines h) :
    ∃ h', recv env i (.line (UnoLine.callUno time).text) (midRound g env lines h pc) =
        .ok (midRound g env (heard lines i (.callUno time)) h' pc) ∧
      IsSought g env (heard lines i (.callUno time)) h' := by
  rw [recv_callText ht]
  by_cases helig : g.Eligible i
  · refine ⟨some i, ?_, fun u ↦ ?_⟩
    · rw [if_pos helig]
      refine stamp_midRound hb ?_
      unfold unoTime
      rw [heard_self]
      exact if_pos helig
    · rw [sought_heard_call hb helig, Option.some_inj]
  · refine ⟨h, ?_, fun u ↦ ?_⟩
    · rw [if_neg helig, midRound_heard hb]
      unfold unoTime
      rw [heard_self]
      exact if_neg helig
    · rw [hh u, sought_heard_of_none hb]
      unfold opens
      rw [heard_self]
      exact if_neg helig

private theorem recv_catch {h : Option Seat} (pc : Pc) {name time : Text} (hb : Before i lines)
    (hn : IsField name) (ht : IsField time) (hh : IsSought g env lines h)
    (hfinds : g.FindsSeat env (heard lines i (.catchUno name time)) i) :
    ∃ h', recv env i (.line (UnoLine.catchUno name time).text) (midRound g env lines h pc) =
        .ok (midRound g env (heard lines i (.catchUno name time)) h' pc) ∧
      IsSought g env (heard lines i (.catchUno name time)) h' := by
  rw [recv_catchText hn ht]
  have hcounts (k : Seat) (hk : k ≤ i)
      (hopen : (g.opens env (heard lines i (.catchUno name time)) k).isSome) :
      g.unoTime env (heard lines i (.catchUno name time)) i = strtol time := by
    unfold unoTime
    rw [heard_self]
    exact if_pos ⟨k, hk, hopen⟩
  cases h with
  | some v =>
    have hv := (hh v).mp rfl
    rw [Option.orElse_eq_orElse, Option.orElse_some, Option.elim_some, if_pos hv.eligible]
    have hopener : ∃ k, k ≤ i ∧ (g.opens env (heard lines i (.catchUno name time)) k).isSome := by
      obtain ⟨k, hk⟩ : ∃ k, g.opens env lines k = some v := by
        rcases hv with ⟨hcaller, -⟩ | ⟨-, k, hk, -⟩
        · exact ⟨v, opens_of_caller hcaller⟩
        · exact ⟨k, hk⟩
      have hki : k < i := by
        refine lt_of_not_ge fun hle ↦ ?_
        rw [hb.opens hle] at hk
        cases hk
      refine ⟨k, hki.le, ?_⟩
      rw [opens_heard (ne_of_lt hki), hk]
      rfl
    obtain ⟨k, hk, hopen⟩ := hopener
    refine ⟨some v, ?_, fun u ↦ ?_⟩
    · exact stamp_midRound hb (hcounts k hk hopen)
    · rw [hh u, sought_heard_of_sought hb hv]
  | none =>
    have hno (v : Seat) : ¬ g.Sought env lines v := fun hv ↦ by cases (hh v).mpr hv
    have hnone := opens_eq_none hno
    have hfound : (g.findNamed env name).isSome := by
      refine (hfinds name time heard_self).resolve_left ?_
      rintro ⟨k, hk, hopen⟩
      rw [opens_heard (ne_of_lt hk), hnone k] at hopen
      cases hopen
    obtain ⟨v, hv⟩ := Option.isSome_iff_exists.mp hfound
    rw [Option.orElse_eq_orElse, Option.orElse_none, hv, Option.elim_some]
    have hopens : g.opens env (heard lines i (.catchUno name time)) i =
        if g.Eligible v then some v else none := by
      unfold opens
      rw [heard_self]
      dsimp only
      rw [hv]
    by_cases helig : g.Eligible v
    · rw [if_pos helig] at hopens
      refine ⟨some v, ?_, fun u ↦ ?_⟩
      · rw [if_pos helig]
        exact stamp_midRound hb (hcounts i (le_refl i) (by rw [hopens]; rfl))
      · rw [sought_heard_catch hb hno hopens, Option.some_inj]
    · rw [if_neg helig] at hopens
      refine ⟨none, ?_, fun u ↦ ?_⟩
      · rw [if_neg helig]
        refine congrArg Except.ok (midRound_heard (g := g) hb ?_)
        unfold unoTime
        rw [heard_self]
        refine if_neg ?_
        rintro ⟨k, hk, hopen⟩
        rcases lt_or_eq_of_le hk with hlt | rfl
        · rw [opens_heard (ne_of_lt hlt), hnone k] at hopen
          cases hopen
        · rw [hopens] at hopen
          cases hopen
      · rw [hh u, sought_heard_of_none hb hopens]

private theorem recv_catch_lost {h : Option Seat} {pc : Pc} {name time : Text} (hb : Before i lines)
    (hn : IsField name) (ht : IsField time) (hh : IsSought g env lines h)
    (hfinds : ¬ g.FindsSeat env (heard lines i (.catchUno name time)) i) :
    recv env i (.line (UnoLine.catchUno name time).text) (midRound g env lines h pc) =
      .error .outOfBounds := by
  rw [recv_catchText hn ht]
  have hlost : (∀ k, k < i → ¬ (g.opens env (heard lines i (.catchUno name time)) k).isSome) ∧
      g.findNamed env name = none := by
    unfold FindsSeat at hfinds
    push Not at hfinds
    obtain ⟨name', time', hl, hopen, hfound⟩ := hfinds
    rw [heard_self] at hl
    cases hl
    exact ⟨fun k hk ↦ by simpa using hopen k hk, by simpa using hfound⟩
  cases h with
  | none =>
    rw [Option.orElse_eq_orElse, Option.orElse_none, hlost.2, Option.elim_none]
  | some v =>
    refine absurd ((hh v).mp rfl) fun hv ↦ ?_
    obtain ⟨k, hk⟩ : ∃ k, g.opens env lines k = some v := by
      rcases hv with ⟨hcaller, -⟩ | ⟨-, k, hk, -⟩
      · exact ⟨v, opens_of_caller hcaller⟩
      · exact ⟨k, hk⟩
    have hki : k < i := by
      refine lt_of_not_ge fun hle ↦ ?_
      rw [hb.opens hle] at hk
      cases hk
    refine hlost.1 k hki ?_
    rw [opens_heard (ne_of_lt hki), hk]
    rfl

/-! ### Reading all lines -/

/-- The lines of the seats before `n`. -/
private def upTo (lines : UnoLines) (n : Nat) : UnoLines := fun i ↦ if i.val < n then lines i else none

private theorem before_upTo (i : Seat) : Before i (upTo lines i.val) :=
  ⟨fun _ hj ↦ if_neg (not_lt.mpr hj)⟩

private theorem upTo_succ (i : Seat) :
    upTo lines (i.val + 1) = Function.update (upTo lines i.val) i (lines i) := by
  funext j
  unfold upTo
  by_cases hj : j = i
  · subst hj
    rw [Function.update_self, if_pos (Nat.lt_succ_self _)]
  · rw [Function.update_of_ne hj]
    have hne : j.val ≠ i.val := fun he ↦ hj (Fin.ext he)
    refine if_congr ?_ rfl rfl
    omega

private theorem upTo_all : upTo lines 10 = lines := funext fun i ↦ if_pos i.isLt

/-- Whether a catch finds a seat depends on the lines so far. -/
private theorem findsSeat_upTo (i : Seat) :
    g.FindsSeat env (upTo lines (i.val + 1)) i ↔ g.FindsSeat env lines i := by
  have hself : upTo lines (i.val + 1) i = lines i := if_pos (Nat.lt_succ_self _)
  have hopens (k : Seat) (hk : k < i) :
      g.opens env (upTo lines (i.val + 1)) k = g.opens env lines k := by
    have hsame : upTo lines (i.val + 1) k = lines k := if_pos (Nat.lt_succ_of_lt hk)
    unfold opens
    rw [hsame]
  unfold FindsSeat
  rw [hself]
  refine forall_congr' fun name ↦ forall_congr' fun time ↦ imp_congr_right fun _ ↦ ?_
  refine or_congr_left (exists_congr fun k ↦ and_congr_right fun hk ↦ ?_)
  rw [hopens k hk]

/-- Where the loop is after `n` seats. -/
private def pcAt (n : Nat) : Pc := if h : n < 10 then .scan ⟨n, h⟩ else .settle

variable (env) in
/-- One seat is read, or passed over. -/
private theorem seat_read {h : Option Seat} (i : Seat) (hstart : RoundStart g)
    (hsend : Sendable g lines) (hh : IsSought g env (upTo lines i.val) h) :
    (g.FindsSeat env lines i → ∃ h',
      (midRound g env (upTo lines i.val) h (.scan i)).step (unoAct env (lines i)) =
          .ok (midRound g env (upTo lines (i.val + 1)) h' (pcAt (i.val + 1))) ∧
        IsSought g env (upTo lines (i.val + 1)) h') ∧
      (¬ g.FindsSeat env lines i → ∃ e,
        (midRound g env (upTo lines i.val) h (.scan i)).step (unoAct env (lines i)) = .error e) := by
  have hb : Before i (upTo lines i.val) := before_upTo i
  rw [← findsSeat_upTo, upTo_succ]
  cases hl : lines i with
  | none =>
    have hsame : Function.update (upTo lines i.val) i none = upTo lines i.val := by
      rw [← hb.unread i (le_refl i), Function.update_eq_self]
    rw [hsame]
    refine ⟨fun _ ↦ ⟨h, rfl, hh⟩, fun hno ↦ absurd ?_ hno⟩
    intro name time he
    rw [hb.unread i (le_refl i)] at he
    cases he
  | some l =>
    have hn := hsend.seated i l hl
    have hwf := hsend.fields i l hl
    have hstep : (midRound g env (upTo lines i.val) h (.scan i)).step (unoAct env (some l)) =
        recv env i (.line l.text) (midRound g env (upTo lines i.val) h (.scan i)) >>= fun r ↦
          .ok (r.advance i) :=
      step_recv_eq rfl (hstart.alive.conns i hn) hn
    rw [hstep]
    cases l with
    | callUno time =>
      refine ⟨fun _ ↦ ?_, fun hno ↦ absurd ?_ hno⟩
      · obtain ⟨h', hrecv, hh'⟩ := recv_call (.scan i) hb hwf hh
        refine ⟨h', ?_, hh'⟩
        rw [hrecv]
        rfl
      · intro name time' he
        rw [Function.update_self] at he
        cases he
    | catchUno name time =>
      refine ⟨fun hfinds ↦ ?_, fun hno ↦ ⟨.outOfBounds, ?_⟩⟩
      · obtain ⟨h', hrecv, hh'⟩ := recv_catch (.scan i) hb hwf.1 hwf.2 hh hfinds
        refine ⟨h', ?_, hh'⟩
        rw [hrecv]
        rfl
      · rw [recv_catch_lost hb hwf.1 hwf.2 hh hno]
        rfl

variable (env) in
/-- The seats before `n` have been read. -/
private theorem lines_read (hstart : RoundStart g) (hsend : Sendable g lines) (n : Nat) (hn : n ≤ 10) :
    ((∀ i : Seat, i.val < n → g.FindsSeat env lines i) → ∃ h,
      runActs Game.step g (((List.finRange 10).take n).map fun i ↦ unoAct env (lines i)) =
          .ok (midRound g env (upTo lines n) h (pcAt n)) ∧
        IsSought g env (upTo lines n) h) ∧
      ((¬ ∀ i : Seat, i.val < n → g.FindsSeat env lines i) → ∃ e,
        runActs Game.step g (((List.finRange 10).take n).map fun i ↦ unoAct env (lines i)) =
          .error e) := by
  induction n with
  | zero =>
    refine ⟨fun _ ↦ ⟨none, ?_, fun u ↦ ?_⟩, fun hno ↦ absurd (fun i hi ↦ absurd hi (by omega)) hno⟩
    · have htimes : g.timeStamp = g.unoTime env (upTo lines 0) := hstart.timeStamp
      have hsame : g = midRound g env (upTo lines 0) none (pcAt 0) := by
        unfold midRound
        rw [← htimes, ← hstart.haveUno, show pcAt 0 = g.pc from hstart.pc.symm]
      exact congrArg Except.ok hsame
    · refine iff_of_false (fun h ↦ by cases h) fun hu ↦ ?_
      rcases hu with ⟨⟨-, time, he⟩, -⟩ | ⟨-, k, hk, -⟩
      · cases he
      · cases hk
  | succ n ih =>
    obtain ⟨hok, hlost⟩ := ih (by omega)
    let i : Seat := ⟨n, by omega⟩
    have htake : (List.finRange 10).take (n + 1) = (List.finRange 10).take n ++ [i] := by
      rw [List.take_succ_eq_append_getElem (by rw [List.length_finRange]; omega)]
      congr 2
      exact List.getElem_finRange _
    have hsplit : (∀ j : Seat, j.val < n + 1 → g.FindsSeat env lines j) ↔
        (∀ j : Seat, j.val < n → g.FindsSeat env lines j) ∧ g.FindsSeat env lines i := by
      refine ⟨fun h ↦ ⟨fun j hj ↦ h j (by omega), h i (Nat.lt_succ_self n)⟩, fun h j hj ↦ ?_⟩
      rcases Nat.lt_succ_iff_lt_or_eq.mp hj with hlt | he
      · exact h.1 j hlt
      · rw [show j = i from Fin.ext he]
        exact h.2
    rw [hsplit, htake, List.map_append, runActs_append]
    by_cases hall : ∀ j : Seat, j.val < n → g.FindsSeat env lines j
    · obtain ⟨h, hrun, hh⟩ := hok hall
      have hpc : pcAt n = .scan i := dif_pos (by omega)
      rw [hpc] at hrun
      obtain ⟨hread, herr⟩ := seat_read env i hstart hsend hh
      rw [hrun, ok_bind]
      refine ⟨fun hfinds ↦ ?_, fun hno ↦ ?_⟩
      · obtain ⟨h', hs, hh'⟩ := hread hfinds.2
        refine ⟨h', ?_, hh'⟩
        change (Game.step _ (unoAct env (lines i)) >>= _) = _
        rw [hs]
        rfl
      · obtain ⟨e, he⟩ := herr fun hfinds ↦ hno ⟨hall, hfinds⟩
        refine ⟨e, ?_⟩
        change (Game.step _ (unoAct env (lines i)) >>= _) = _
        rw [he]
        rfl
    · obtain ⟨e, he⟩ := hlost hall
      refine ⟨fun hfinds ↦ absurd hfinds.1 hall, fun _ ↦ ⟨e, ?_⟩⟩
      rw [he]
      rfl

/-! ### The fastest line -/

/-- What the search for the smallest time stamp has found among the seats `l`, from seat `a` on. -/
private structure Quickest (g : Game) (u a : Seat) (l : List Seat) (r : Seat) : Prop where
  mem : r = a ∨ r ∈ l ∧ g.handNum r ≠ -1
  start : g.timeStamp r ≤ g.timeStamp a
  least : ∀ i ∈ l, g.handNum i ≠ -1 → g.timeStamp r ≤ g.timeStamp i
  first : r ≠ u → (r ≠ a → g.timeStamp r < g.timeStamp a) ∧
    ∀ i ∈ l, i < r → g.handNum i ≠ -1 → g.timeStamp r < g.timeStamp i
  ties : a = u ∨ u ∈ l ∧ g.handNum u ≠ -1 → r ≠ u → g.timeStamp r < g.timeStamp u

/-- The seats are gone through in order. -/
private theorem quickest_fold (l : List Seat) (a : Seat) (hs : (a :: l).Pairwise (· < ·)) :
    Quickest g u a l (l.foldl (g.fasterOf u) a) := by
  induction l generalizing a with
  | nil =>
    refine ⟨.inl rfl, le_refl _, nofun, fun _ ↦ ⟨fun hne ↦ absurd rfl hne, nofun⟩, ?_⟩
    rintro (rfl | ⟨hu, -⟩) hne
    · exact absurd rfl hne
    · cases hu
  | cons i l ih =>
    obtain ⟨hai, hil⟩ := List.pairwise_cons.mp hs
    have halt : a < i := hai i List.mem_cons_self
    have hal : (a :: l).Pairwise (· < ·) :=
      List.pairwise_cons.mpr ⟨fun j hj ↦ hai j (List.mem_cons_of_mem i hj), (List.pairwise_cons.mp hil).2⟩
    -- seat `i` is passed over or becomes the fastest
    have hcases : g.fasterOf u a i = a ∧ (g.handNum i ≠ -1 →
          g.timeStamp a ≤ g.timeStamp i ∧ (i = u → g.timeStamp a < g.timeStamp i)) ∨
        g.fasterOf u a i = i ∧ g.handNum i ≠ -1 ∧ g.timeStamp i ≤ g.timeStamp a ∧
          (i ≠ u → g.timeStamp i < g.timeStamp a) := by
      unfold fasterOf
      split
      · next hn => exact .inl ⟨rfl, fun hne ↦ absurd hn hne⟩
      split
      · next hn hlt => exact .inr ⟨rfl, hn, hlt.le, fun _ ↦ hlt⟩
      split
      · next hn hge he => exact .inr ⟨rfl, hn, he.1.le, fun hne ↦ absurd he.2 hne⟩
      · next hn hge hne =>
        have hle := not_lt.mp hge
        refine .inl ⟨rfl, fun _ ↦ ⟨hle, fun hu ↦ lt_of_le_of_ne hle fun he ↦ ?_⟩⟩
        exact hne ⟨he.symm, hu⟩
    rw [List.foldl_cons]
    rcases hcases with ⟨he, hi⟩ | ⟨he, hn, hle, hlt⟩
    · rw [he]
      have h := ih a hal
      generalize l.foldl (g.fasterOf u) a = r at h ⊢
      refine ⟨?_, h.start, fun j hj hjn ↦ ?_, fun hne ↦ ⟨(h.first hne).1, fun j hj hlt hjn ↦ ?_⟩,
        fun hu hne ↦ ?_⟩
      · exact h.mem.imp_right fun hm ↦ ⟨List.mem_cons_of_mem i hm.1, hm.2⟩
      · rcases List.mem_cons.mp hj with rfl | hj
        · exact le_trans h.start (hi hjn).1
        · exact h.least j hj hjn
      · rcases List.mem_cons.mp hj with rfl | hj
        · have hra : r ≠ a := fun hra ↦ absurd hlt (by rw [hra]; exact not_lt.mpr halt.le)
          exact lt_of_lt_of_le ((h.first hne).1 hra) (hi hjn).1
        · exact (h.first hne).2 j hj hlt hjn
      · rcases hu with hu | ⟨hu, hun⟩
        · exact h.ties (.inl hu) hne
        · rcases List.mem_cons.mp hu with rfl | hu
          · exact lt_of_le_of_lt h.start ((hi hun).2 rfl)
          · exact h.ties (.inr ⟨hu, hun⟩) hne
    · rw [he]
      have h := ih i hil
      generalize l.foldl (g.fasterOf u) i = r at h ⊢
      have hstart (hne : r ≠ u) : g.timeStamp r < g.timeStamp a := by
        by_cases hri : r = i
        · rw [hri] at hne ⊢
          exact hlt hne
        · exact lt_of_lt_of_le ((h.first hne).1 hri) hle
      refine ⟨?_, le_trans h.start hle, fun j hj hjn ↦ ?_,
        fun hne ↦ ⟨fun _ ↦ hstart hne, fun j hj hjr hjn ↦ ?_⟩, fun hu hne ↦ ?_⟩
      · rcases h.mem with rfl | hm
        · exact .inr ⟨List.mem_cons_self, hn⟩
        · exact .inr ⟨List.mem_cons_of_mem i hm.1, hm.2⟩
      · rcases List.mem_cons.mp hj with rfl | hj
        · exact h.start
        · exact h.least j hj hjn
      · rcases List.mem_cons.mp hj with rfl | hj
        · exact (h.first hne).1 (ne_of_gt hjr)
        · exact (h.first hne).2 j hj hjr hjn
      · rcases hu with rfl | ⟨hu, hun⟩
        · exact hstart hne
        · rcases List.mem_cons.mp hu with rfl | hu
          · exact h.ties (.inl rfl) hne
          · exact h.ties (.inr ⟨hu, hun⟩) hne

private theorem unoTime_le (i : Seat) : g.unoTime env lines i ≤ longMax := by
  unfold unoTime
  split
  · exact le_refl _
  · split
    · exact strtol_le_longMax _
    · exact le_refl _
  · split
    · exact strtol_le_longMax _
    · exact le_refl _

/-- At most one seat is the first with the earliest time. -/
private theorem overtakes_unique (hf : g.Overtakes env lines i u) (hf' : g.Overtakes env lines j u) :
    i = j := by
  rcases lt_trichotomy i j with hlt | he | hgt
  · exact absurd ((hf'.2.2 i hf.1).2 hlt) (not_lt.mpr (hf.2.2 j hf'.1).1)
  · exact he
  · exact absurd ((hf.2.2 j hf'.1).2 hgt) (not_lt.mpr (hf'.2.2 i hf.1).1)

/-- The fastest seat is another one when that overtakes. -/
private theorem fastest_midRound {h : Option Seat} (pc : Pc) (hsend : Sendable g lines)
    (hu : g.handNum u ≠ -1) (f : Seat) :
    (f ≠ u ∧ (midRound g env lines h pc).fastest u = f) ↔ g.Overtakes env lines f u := by
  have hq : Quickest (midRound g env lines h pc) u 0 (List.finRange 10).tail
      ((midRound g env lines h pc).fastest u) := quickest_fold _ 0 (by decide)
  generalize (midRound g env lines h pc).fastest u = r at hq ⊢
  have htail (i : Seat) : i = 0 ∨ i ∈ (List.finRange 10).tail := by
    revert i
    decide
  have hstamp (i : Seat) : (midRound g env lines h pc).timeStamp i = g.unoTime env lines i := rfl
  have hnum (i : Seat) : (midRound g env lines h pc).handNum i = g.handNum i := rfl
  have hover (hne : r ≠ u) : g.Overtakes env lines r u := by
    have hlt : g.unoTime env lines r < g.unoTime env lines u := by
      refine hq.ties ?_ hne
      rcases htail u with h0 | hm
      · exact .inl h0.symm
      · exact .inr ⟨hm, hu⟩
    refine ⟨?_, hlt, fun j hj ↦ ⟨?_, fun hjr ↦ ?_⟩⟩
    · intro hgone
      -- a seat that has left sends no line
      have hnone : lines r = none := by
        cases hl : lines r with
        | none => rfl
        | some l => exact absurd hgone (hsend.seated r l hl)
      have hmax : g.unoTime env lines r = longMax := by
        unfold unoTime
        rw [hnone]
      rw [hmax] at hlt
      exact absurd (unoTime_le u) (not_le.mpr hlt)
    · rcases htail j with rfl | hm
      · exact hq.start
      · exact hq.least j hm hj
    · rcases htail j with rfl | hm
      · exact (hq.first hne).1 (ne_of_gt hjr)
      · exact (hq.first hne).2 j hm hjr hj
  constructor
  · rintro ⟨hne, rfl⟩
    exact hover hne
  · intro hf
    have hfu : f ≠ u := by
      rintro rfl
      exact lt_irrefl _ hf.2.1
    refine ⟨hfu, ?_⟩
    by_cases hru : r = u
    · refine absurd hf.2.1 (not_lt.mpr ?_)
      rw [hru] at hq
      rcases htail f with rfl | hm
      · exact hq.start
      · exact hq.least f hm hf.1
    · exact overtakes_unique (hover hru) hf

/-! ### The settlement -/

/-- Drawing cards tells nobody of a catch. -/
private theorem told_give {rand : Nat → Nat → Nat} {w : Seat} (k n : Nat) (adopted : Finset CardId)
    (h : giveFrom rand w k n adopted g = .ok g') : ∃ es, g'.out = g.out ++ es ∧
      ∀ c line, Effect.send c line ∈ es → opOf line ≠ ('1', '3') := by
  refine giveFrom_rule (I := fun _ r ↦ ∃ es, r.out = g.out ++ es ∧
    ∀ c line, Effect.send c line ∈ es → opOf line ≠ ('1', '3')) (m := 0) ?_ ?_ h
    ⟨[], (List.append_nil _).symm, nofun⟩
  · rintro _ rand adopted r _ ⟨es, hes, hno⟩
    refine ⟨es ++ (r.active.filter fun p ↦ none ≠ some p.1).map fun p ↦ .send p.2 ['2', '0', '\n'], ?_,
      fun c line hm ↦ ?_⟩
    · rw [← List.append_assoc, ← hes]
      rfl
    · rcases List.mem_append.mp hm with hm | hm
      · exact hno c line hm
      · obtain ⟨p, -, he⟩ := List.mem_map.mp hm
        cases he
        decide
  · rintro _ c r _ _ _ ⟨es, hes, hno⟩
    refine ⟨es ++ [.send c (line1 ['1', '2'] (cards (r.cardSeq (r.cardNum - 1))))], ?_, fun d line hm ↦ ?_⟩
    · rw [← List.append_assoc, ← hes]
      rfl
    · rcases List.mem_append.mp hm with hm | hm
      · exact hno d line hm
      · cases List.mem_singleton.mp hm
        change ('1', '2') ≠ ('1', '3')
        decide

/-- The line the code makes of seat numbers. -/
private def seatLine (env : Env) (u f : Seat) : Text :=
  caughtLine (env.name (seatAsConn u)) (env.name (seatAsConn f))

/-- Nobody is overtaken, and nobody is given cards. -/
private theorem settle_free {h : Option Seat} (hstart : RoundStart g) (hsend : Sendable g lines)
    (hh : IsSought g env lines h)
    (hfree : ∀ u f, g.Sought env lines u → ¬ g.Overtakes env lines f u) :
    ∃ g' es, (midRound g env lines h .settle).step (.settle env) = .ok g' ∧ g'.out = g.out ++ es ∧
      g'.handNum = g.handNum := by
  cases h with
  | none => exact ⟨_, [], rfl, (List.append_nil _).symm, rfl⟩
  | some u =>
    have hu := (hh u).mp rfl
    have hone : g.handNum u = 1 := hu.eligible.2
    have hun : g.handNum u ≠ -1 := by
      rw [hone]
      decide
    obtain ⟨c, hc⟩ := Option.isSome_iff_exists.mp (hstart.alive.conns u hun)
    have hconn : (midRound g env lines (some u) .settle).conn u = .ok c := by
      change g.conn u = .ok c
      unfold conn
      rw [hc]
    have hfast : (midRound g env lines (some u) .settle).fastest u = u := by
      by_contra hne
      exact hfree u _ hu ((fastest_midRound .settle hsend hun _).mp ⟨hne, rfl⟩)
    refine ⟨(((midRound g env lines (some u) .settle).markUno u).sendToEveryoneInGame none
      (line1 ['1', '4'] (env.name c))).newRound, _, ?_, rfl, rfl⟩
    change (settleUno env u (midRound g env lines (some u) .settle) >>= fun t ↦ .ok t.newRound) = _
    unfold settleUno
    dsimp only
    rw [hconn, ok_bind, if_pos hfast]
    rfl

/-- The sought seat is overtaken: it draws two cards, and everybody is told, when there are cards. -/
private theorem settle_caught {h : Option Seat} {f : Seat} (hstart : RoundStart g)
    (hsend : Sendable g lines) (hh : IsSought g env lines h) (hu : g.Sought env lines u)
    (hf : g.Overtakes env lines f u) :
    (g.Supplies u 2 → ∃ g' es, (midRound g env lines h .settle).step (.settle env) = .ok g' ∧
        g'.out = g.out ++ es ∧ g'.handNum = Function.update g.handNum u 3 ∧
        (∀ i c, (i, c) ∈ g.active → .send c (seatLine env u f) ∈ es) ∧
        ∀ c line, .send c line ∈ es → opOf line = ('1', '3') → line = seatLine env u f) ∧
      (¬ g.Supplies u 2 → ∃ e, (midRound g env lines h .settle).step (.settle env) = .error e) := by
  obtain rfl : h = some u := (hh u).mpr hu
  have hone : g.handNum u = 1 := hu.eligible.2
  have hun : g.handNum u ≠ -1 := by
    rw [hone]
    decide
  have hconn (i : Seat) (hi : g.handNum i ≠ -1) :
      ∃ c, g.used i = some c ∧ (midRound g env lines (some u) .settle).conn i = .ok c := by
    obtain ⟨c, hc⟩ := Option.isSome_iff_exists.mp (hstart.alive.conns i hi)
    refine ⟨c, hc, ?_⟩
    change g.conn i = .ok c
    unfold conn
    rw [hc]
  obtain ⟨hfu, hfast⟩ := (fastest_midRound (h := some u) .settle hsend hun f).mpr hf
  obtain ⟨c, hc, hcu⟩ := hconn u hun
  obtain ⟨c', -, hcf⟩ := hconn f hf.1
  have hstep : (midRound g env lines (some u) .settle).step (.settle env) =
      (giveCardToPlayer env.rand u 2 (midRound g env lines (some u) .settle) >>= fun r ↦
        .ok (r.sendToEveryoneInGame none (seatLine env u f))) >>= fun r ↦ .ok r.newRound := by
    change (settleUno env u (midRound g env lines (some u) .settle) >>= fun t ↦ .ok t.newRound) = _
    unfold settleUno
    dsimp only
    rw [hcu, ok_bind, hfast, if_neg hfu, hcf, ok_bind]
    rfl
  have hsupplies : (∃ r, giveCardToPlayer env.rand u 2 (midRound g env lines (some u) .settle) = .ok r) ↔
      g.Supplies u 2 := by
    have hlow : -1 ≤ g.handNum u := by omega
    exact giveCardToPlayer_iff (g := midRound g env lines (some u) .settle) hc hstart.alive.pile hlow 2
  rw [hstep, ← hsupplies]
  refine ⟨?_, fun hno ↦ ?_⟩
  · rintro ⟨r, hr⟩
    have hgiven := cardsGiven_giveFrom 0 2 ∅ hr
    obtain ⟨es, hes, hno⟩ := told_give 0 2 ∅ hr
    have hnum : r.handNum = Function.update g.handNum u 3 := by
      rw [hgiven.handNum]
      change Function.update g.handNum u (g.handNum u + 2) = _
      rw [hone]
      rfl
    refine ⟨(r.sendToEveryoneInGame none (seatLine env u f)).newRound,
      es ++ (r.active.filter fun p ↦ none ≠ some p.1).map fun p ↦ .send p.2 (seatLine env u f),
      ?_, ?_, hnum, fun i d hi ↦ ?_, fun d line hm hop ↦ ?_⟩
    · rw [hr]
      rfl
    · change r.out ++ _ = _
      rw [hes, List.append_assoc]
      rfl
    · refine List.mem_append_right _ (List.mem_map.mpr ⟨(i, d), List.mem_filter.mpr ⟨?_, rfl⟩, rfl⟩)
      obtain ⟨hin, hd⟩ := (mem_active i d).mp hi
      refine (mem_active i d).mpr ⟨?_, ?_⟩
      · rw [hnum]
        by_cases hiu : i = u
        · rw [hiu, Function.update_self]
          decide
        · rw [Function.update_of_ne hiu]
          exact hin
      · rw [hgiven.used]
        exact hd
    · rcases List.mem_append.mp hm with hm | hm
      · exact absurd hop (hno d line hm)
      · obtain ⟨p, -, he⟩ := List.mem_map.mp hm
        cases he
        rfl
  · cases hgive : giveCardToPlayer env.rand u 2 (midRound g env lines (some u) .settle) with
    | error e => exact ⟨e, rfl⟩
    | ok r => exact absurd ⟨r, hgive⟩ hno

/-! ### Fair rounds -/

/-- Every early catch finds a seat; and when the sought seat is overtaken there are cards for it, it has
been caught, and the names of the connections numbered like the two seats make the line that the names of
the players make. -/
structure DecidedByCatch (g : Game) (env : Env) (lines : UnoLines) : Prop where
  found : ∀ i, g.FindsSeat env lines i
  decided : ∀ u f, g.Sought env lines u → g.Overtakes env lines f u → g.Supplies u 2 ∧
    ∃ k, Catches g env lines k u ∧ caughtLine (env.name (seatAsConn u)) (env.name (seatAsConn f)) =
      caughtLine (g.playerName env u) (g.playerName env k)

variable (env) in
private theorem runActs_unoActs (hstart : RoundStart g) (hsend : Sendable g lines) :
    ((∀ i, g.FindsSeat env lines i) → ∃ h, IsSought g env lines h ∧
      runActs Game.step g (unoActs env lines) =
        (midRound g env lines h .settle).step (.settle env)) ∧
      ((¬ ∀ i, g.FindsSeat env lines i) → ∃ e,
        runActs Game.step g (unoActs env lines) = .error e) := by
  obtain ⟨hok, hlost⟩ := lines_read env hstart hsend 10 (le_refl _)
  have hall : (∀ i : Seat, i.val < 10 → g.FindsSeat env lines i) ↔ ∀ i, g.FindsSeat env lines i :=
    ⟨fun h i ↦ h i i.isLt, fun h i _ ↦ h i⟩
  have htake : (List.finRange 10).take 10 = List.finRange 10 :=
    List.take_of_length_le (le_of_eq (List.length_finRange))
  rw [hall, htake] at hok hlost
  unfold unoActs
  rw [runActs_append]
  refine ⟨fun hfinds ↦ ?_, fun hno ↦ ?_⟩
  · obtain ⟨h, hrun, hh⟩ := hok hfinds
    rw [upTo_all] at hrun hh
    refine ⟨h, hh, ?_⟩
    rw [hrun, ok_bind]
    change (Game.step _ _ >>= fun t ↦ .ok t) = _
    exact bind_pure _
  · obtain ⟨e, he⟩ := hlost hno
    exact ⟨e, by rw [he]; rfl⟩

/-- A fair round is decided by catches. -/
private theorem FairRound.decided (hstart : RoundStart g) (hsend : Sendable g lines)
    (h : FairRound g env lines) : DecidedByCatch g env lines := by
  obtain ⟨hread, hlost⟩ := runActs_unoActs env hstart hsend
  obtain ⟨g', es, hrun, hout, hfair⟩ := h
  have hfound : ∀ i, g.FindsSeat env lines i := by
    by_contra hno
    obtain ⟨e, he⟩ := hlost hno
    rw [he] at hrun
    cases hrun
  obtain ⟨h, hh, heq⟩ := hread hfound
  refine ⟨hfound, fun u f hu hf ↦ ?_⟩
  obtain ⟨hgiven, hnone⟩ := settle_caught hstart hsend hh hu hf
  rw [heq] at hrun
  have hsup : g.Supplies u 2 := by
    by_contra hno
    obtain ⟨e, he⟩ := hnone hno
    rw [he] at hrun
    cases hrun
  refine ⟨hsup, ?_⟩
  obtain ⟨r, es', hr, hout', hnum, htold, -⟩ := hgiven hsup
  obtain rfl : r = g' := Except.ok.inj (hr.symm.trans hrun)
  obtain rfl : es' = es := List.append_cancel_left (hout'.symm.trans hout)
  obtain ⟨k, hk⟩ := hfair u (by
    rw [hnum, Function.update_self, hu.eligible.2]
    decide)
  refine ⟨k, hk.caught, ?_⟩
  -- the seat that overtakes is told
  obtain ⟨c, hc⟩ := Option.isSome_iff_exists.mp (hstart.alive.conns f hf.1)
  have hmem := htold f c ((mem_active f c).mpr ⟨hf.1, hc⟩)
  exact hk.only c _ hmem rfl

/-- A round decided by catches is fair. -/
private theorem DecidedByCatch.fair (hstart : RoundStart g) (hsend : Sendable g lines)
    (h : DecidedByCatch g env lines) : FairRound g env lines := by
  obtain ⟨hread, -⟩ := runActs_unoActs env hstart hsend
  obtain ⟨hfound, hdecided⟩ := h
  obtain ⟨h, hh, heq⟩ := hread hfound
  unfold FairRound
  rw [heq]
  by_cases hfree : ∀ u f, g.Sought env lines u → ¬ g.Overtakes env lines f u
  · obtain ⟨g', es, hs, hout, hnum⟩ := settle_free hstart hsend hh hfree
    exact ⟨g', es, hs, hout, fun u hu ↦ absurd (congrFun hnum u) hu⟩
  push Not at hfree
  obtain ⟨u, f, hu, hf⟩ := hfree
  obtain ⟨hsup, k, hk, hline⟩ := hdecided u f hu hf
  obtain ⟨g', es, hs, hout, hnum, htold, honly⟩ := (settle_caught hstart hsend hh hu hf).1 hsup
  refine ⟨g', es, hs, hout, fun v hv ↦ ?_⟩
  have hvu : v = u := by
    by_contra hne
    rw [hnum, Function.update_of_ne hne] at hv
    exact hv rfl
  subst hvu
  refine ⟨k, hu.eligible.2, hu.eligible.1, hk, fun i c hi ↦ ?_, fun c line hm hop ↦ ?_⟩
  · rw [← hline]
    exact htold i c hi
  · rw [← hline]
    exact honly c line hm hop

/-- In every round of calls and catches the penalty is a right one exactly when catches decide it. -/
theorem uno_catch (hstart : RoundStart g) (hsend : Sendable g lines) :
    FairRound g env lines ↔ DecidedByCatch g env lines :=
  ⟨FairRound.decided hstart hsend, DecidedByCatch.fair hstart hsend⟩

/-! ### Rounds of a game -/

private theorem pc_advance (i : Seat) (g : Game) : (g.advance i).pc ≠ .scan 0 := by
  unfold advance
  split
  · next hpc =>
    rw [hpc]
    exact nofun
  · dsimp only
    split
    · next hlt =>
      intro he
      have := congrArg Fin.val (Pc.scan.inj he)
      exact absurd this (Nat.succ_ne_zero i.val)
    · exact nofun

/-- Every turn of the loop starts with no call and no time. -/
theorem run_roundStart {name : ConnId → Text} {rand : Nat → Nat} {draw playerNum : Nat}
    {used : Seat → Option ConnId} {g₀ : Game}
    (hopen : gameStart name rand draw used playerNum = .ok g₀)
    (hcount : playerNum = (Finset.univ.filter fun i ↦ (used i).isSome).card)
    (htwo : 2 ≤ playerNum) (hr : Run GameStep g₀ g) (hpc : g.pc = .scan 0) : RoundStart g := by
  have hfresh : g.pc = .scan 0 → g.haveUno = none ∧ g.timeStamp = fun _ ↦ longMax := by
    refine RunWith.preserves (I := fun g ↦ g.pc = .scan 0 →
      g.haveUno = none ∧ g.timeStamp = fun _ ↦ longMax) ?_ hr ?_
    · rintro r a t - - hs hpc
      cases a with
      | pass =>
        unfold GameStep Game.step at hs
        dsimp only at hs
        split at hs
        · cases hs
          exact absurd hpc (pc_advance _ r)
        · cases hs
      | recv env event =>
        obtain ⟨i, r', -, -, -, -, rfl⟩ := recv_step hs
        exact absurd hpc (pc_advance i r')
      | settle env =>
        unfold GameStep Game.step at hs
        dsimp only at hs
        split at hs
        · obtain ⟨r', -, hs⟩ := exists_of_bind_ok hs
          cases hs
          exact ⟨rfl, rfl⟩
        · cases hs
    · intro _
      have hopened := gameStart_opened hopen
      exact ⟨hopened.haveUno, funext hopened.timeStamp⟩
  have halive : Alive g := by
    refine (run_alive hopen hcount htwo hr).resolve_left fun hend ↦ ?_
    rw [hend] at hpc
    cases hpc
  exact ⟨halive, hpc, (hfresh hpc).1, (hfresh hpc).2⟩

/-- How many cards the seats have played: the seats 7 and 8 all but one. -/
private def twoLeft : Seat → Nat := Function.update (Function.update (fun _ ↦ 0) 7 6) 8 6

/-- The seats 7 and 8 have one card each. -/
private theorem one_card_each :
    ∃ g₀ g w, gameStart plainName (inOrder.rand 0) 0 nineSeats 9 = .ok g₀ ∧ Run GameStep g₀ g ∧
      RoundStart g ∧ Shed twoLeft w g := by
  obtain ⟨g₀, hg₀, h₀⟩ := shed_start
  obtain ⟨g₁, hg₁, h₁⟩ := shed_turns (s := 7) (.inl rfl) (fun _ ↦ by omega) rfl 6 (by omega) h₀
  obtain ⟨g, hg, h⟩ := shed_turns (s := 8) (.inr rfl) (by decide) (by decide) 6 (by omega) h₁
  have hrun : Run GameStep g₀ g :=
    (run_of_runActs Game.step _ g₀ g₁ hg₁).trans (run_of_runActs Game.step _ g₁ g hg)
  exact ⟨g₀, g, _, hg₀, hrun, run_roundStart hg₀ (by decide) (by decide) hrun h.pc, h⟩

private theorem eligible_shed {w : Seat} (h : Shed twoLeft w g) (i : Seat) :
    g.Eligible i ↔ i = 7 ∨ i = 8 := by
  have hnum : g.handNum i = if i.val < 9 then 7 - (twoLeft i : Int) else -1 := h.handNum i
  have table : ∀ i : Seat, (if i.val < 9 then 7 - (twoLeft i : Int) else -1) = 1 ↔ i = 7 ∨ i = 8 := by
    decide
  unfold Eligible
  rw [h.isUno i, hnum, and_iff_right rfl, table i]

private theorem seated_shed {w : Seat} (h : Shed twoLeft w g) (i : Seat) (hi : i.val < 9) :
    g.handNum i ≠ -1 := by
  have table : ∀ i : Seat, i.val < 9 → (if i.val < 9 then 7 - (twoLeft i : Int) else -1) ≠ -1 := by
    decide
  rw [show g.handNum i = _ from h.handNum i]
  exact table i hi

/-- Seat 3 catches the player on seat 8, whose name is `i`, at time 4. -/
def catchOfEight : UnoLines :=
  fun i ↦ if i = 3 then some (.catchUno ['i'] ['4']) else none

/-- The catch hits seat 8. -/
theorem uno_catch_of_eight :
    ∃ g₀ g, gameStart plainName (inOrder.rand 0) 0 nineSeats 9 = .ok g₀ ∧ Run GameStep g₀ g ∧
      RoundStart g ∧ Sendable g catchOfEight ∧ FairRound g inOrder catchOfEight := by
  obtain ⟨g₀, g, w, hg₀, hrun, hstart, h⟩ := one_card_each
  have honly (i : Seat) (l : UnoLine) (hl : catchOfEight i = some l) :
      i = 3 ∧ l = .catchUno ['i'] ['4'] := by
    unfold catchOfEight at hl
    split at hl
    · next hi => exact ⟨hi, (Option.some.inj hl).symm⟩
    · cases hl
  have hsend : Sendable g catchOfEight := by
    refine ⟨fun i l hl ↦ ?_, fun i l hl ↦ ?_⟩
    · obtain ⟨rfl, -⟩ := honly i l hl
      exact seated_shed h 3 (by decide)
    · obtain ⟨-, rfl⟩ := honly i l hl
      exact ⟨by decide, by decide⟩
  have hfound : g.findNamed inOrder ['i'] = some 8 := by
    have table : ∀ j : Seat, plainName (seatAsConn j) = ['i'] ↔ j = 8 := by decide
    have hsame (j : Seat) : g.handNum j ≠ -1 ∧ inOrder.name (seatAsConn j) = ['i'] ↔ j = 8 := by
      refine ⟨fun hj ↦ (table j).mp hj.2, fun hj ↦ ⟨?_, (table j).mpr hj⟩⟩
      rw [hj]
      exact seated_shed h 8 (by decide)
    unfold findNamed
    simp only [hsame]
    decide
  have helig : g.Eligible 8 := (eligible_shed h 8).mpr (.inr rfl)
  have hopens (k : Seat) : g.opens inOrder catchOfEight k = if k = 3 then some 8 else none := by
    unfold opens catchOfEight
    by_cases hk : k = 3
    · rw [if_pos hk, if_pos hk]
      dsimp only
      rw [hfound]
      exact if_pos helig
    · rw [if_neg hk, if_neg hk]
  have hsought : g.Sought inOrder catchOfEight 8 := by
    refine .inr ⟨?_, 3, by rw [hopens, if_pos rfl], fun j hj ↦ ?_⟩
    · rintro j ⟨-, time, hl⟩
      obtain ⟨-, he⟩ := honly j _ hl
      cases he
    · rw [hopens, if_neg (ne_of_lt hj)]
  have htime (i : Seat) : g.unoTime inOrder catchOfEight i = if i = 3 then 4 else longMax := by
    by_cases hi : i = 3
    · subst hi
      have hex : ∃ k : Seat, k ≤ 3 ∧ (g.opens inOrder catchOfEight k).isSome :=
        ⟨3, le_refl _, by rw [hopens, if_pos rfl]; rfl⟩
      change (if ∃ k : Seat, k ≤ 3 ∧ (g.opens inOrder catchOfEight k).isSome then strtol ['4']
        else longMax) = _
      rw [if_pos hex, if_pos rfl]
      decide
    · unfold unoTime catchOfEight
      rw [if_neg hi, if_neg hi]
  have hover : g.Overtakes inOrder catchOfEight 3 8 := by
    refine ⟨seated_shed h 3 (by decide), ?_, fun j _ ↦ ?_⟩
    · rw [htime, htime]
      decide
    · rw [htime, htime]
      by_cases hj : j = 3
      · subst hj
        exact ⟨le_refl _, fun hlt ↦ absurd hlt (lt_irrefl _)⟩
      · rw [if_neg hj]
        exact ⟨by decide, fun _ ↦ by decide⟩
  have hname (i : Seat) (hi : i.val < 9) : g.playerName inOrder i = plainName (seatAsConn i) := by
    have hused : g.used i = some (seatAsConn i) := by
      rw [h.used]
      exact if_pos hi
    unfold playerName
    rw [hused]
    rfl
  refine ⟨g₀, g, hg₀, hrun, hstart, hsend, (uno_catch hstart hsend).mpr ⟨fun i name time hl ↦ ?_,
    fun u f hu hf ↦ ?_⟩⟩
  · obtain ⟨-, he⟩ := honly i _ hl
    cases he
    refine .inr ?_
    rw [hfound]
    rfl
  · obtain rfl : u = 8 := hu.unique hsought
    obtain rfl : f = 3 := overtakes_unique hf hover
    refine ⟨.inl (by rw [h.cardNum]; decide), 3, ⟨['4'], ?_, by decide, ?_⟩, ?_⟩
    · rw [hname 8 (by decide)]
      rfl
    · intro j other hl
      obtain ⟨-, he⟩ := honly j _ hl
      obtain ⟨-, rfl⟩ := UnoLine.catchUno.inj he
      exact le_refl _
    · rw [hname 8 (by decide), hname 3 (by decide)]
      rfl

/-- The seats 7 and 8 call UNO, at the times 5 and 9. -/
def twoCalls : UnoLines :=
  fun i ↦ if i = 7 then some (.callUno ['5']) else if i = 8 then some (.callUno ['9']) else none

/-- Nobody has named seat 8, and it draws two cards because seat 7 was quicker to call for itself. -/
theorem two_calls_penalise :
    ∃ g₀ g, gameStart plainName (inOrder.rand 0) 0 nineSeats 9 = .ok g₀ ∧ Run GameStep g₀ g ∧
      RoundStart g ∧ Sendable g twoCalls ∧ ¬ FairRound g inOrder twoCalls := by
  obtain ⟨g₀, g, w, hg₀, hrun, hstart, h⟩ := one_card_each
  have honly (i : Seat) (l : UnoLine) (hl : twoCalls i = some l) : (i = 7 ∨ i = 8) ∧
      ∃ time, l = .callUno time ∧ IsField time := by
    unfold twoCalls at hl
    split at hl
    · next hi => exact ⟨.inl hi, _, (Option.some.inj hl).symm, by decide⟩
    split at hl
    · next hi => exact ⟨.inr hi, _, (Option.some.inj hl).symm, by decide⟩
    · cases hl
  have hsend : Sendable g twoCalls := by
    refine ⟨fun i l hl ↦ ?_, fun i l hl ↦ ?_⟩
    · rcases (honly i l hl).1 with rfl | rfl
      · exact seated_shed h 7 (by decide)
      · exact seated_shed h 8 (by decide)
    · obtain ⟨-, time, rfl, htime⟩ := honly i l hl
      exact htime
  have hsought : g.Sought inOrder twoCalls 8 := by
    refine .inl ⟨⟨(eligible_shed h 8).mpr (.inr rfl), ['9'], rfl⟩, fun j hj hc ↦ ?_⟩
    rcases (eligible_shed h j).mp hc.1 with rfl | rfl
    · exact absurd hj (by decide)
    · exact absurd hj (lt_irrefl _)
  have htime (i : Seat) : g.unoTime inOrder twoCalls i =
      if i = 7 then 5 else if i = 8 then 9 else longMax := by
    by_cases h7 : i = 7
    · subst h7
      exact if_pos ((eligible_shed h 7).mpr (.inl rfl))
    by_cases h8 : i = 8
    · subst h8
      exact if_pos ((eligible_shed h 8).mpr (.inr rfl))
    · unfold unoTime twoCalls
      rw [if_neg h7, if_neg h8, if_neg h7, if_neg h8]
  have hover : g.Overtakes inOrder twoCalls 7 8 := by
    refine ⟨seated_shed h 7 (by decide), ?_, fun j hj ↦ ?_⟩
    · rw [htime, htime]
      decide
    · rw [htime, htime]
      clear hj
      revert j
      decide
  refine ⟨g₀, g, hg₀, hrun, hstart, hsend, fun hfair ↦ ?_⟩
  obtain ⟨-, k, ⟨time, hl, -⟩, -⟩ := (hfair.decided hstart hsend).decided 8 7 hsought hover
  obtain ⟨-, time', he, -⟩ := honly k _ hl
  cases he

end Unpv13e.Uno
