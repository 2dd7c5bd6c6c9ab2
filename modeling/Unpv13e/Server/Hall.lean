import Unpv13e.Server.RoomLines

/-!
# What the members of a room see

Library `Server`. Beside the parties stands the view of every client, to which the lines `5` to `8`
are given as they are written. The lines of a game are read by another function of the client. When
what a client prints is its room.
-/

namespace Unpv13e.Server
open Unpv13e.Base Unpv13e.Uno Unpv13e.Client

/-- The parties, and what every client sees of a room. -/
structure Hall where
  parties : Parties
  view : ConnId → Option RoomView

/-- The thread is taking out the player of seat `i`. -/
def Thread.Leaving (t : Thread) (i : Seat) : Prop :=
  match t.pc with
  | .leaveLock _ j => i = j
  | .leaveTest _ j => i = j
  | .leaveOwner _ j => i = j
  | _ => False

/-- The thread has players whom it tells about changes. -/
def Thread.Tells (t : Thread) (working : Bool) : Prop :=
  match t.pc with
  | .loopTest => t.alreadyPlay = false ∧ working = true
  | .letIn => True
  | .select => True
  | .scan _ _ => True
  | .leaveState _ _ _ => True
  | .leaveLock _ _ => True
  | .leaveTest _ _ => True
  | .leaveOwner _ _ => True
  | .startTest _ _ => True
  | _ => False

namespace Hall

/-- Before the first connection. -/
def start : Hall := ⟨.start, fun _ ↦ none⟩

/-- The lines `5` to `8` among the output of a step. -/
def roomLines (s : Parties) (a : ServerAct) (out : List Sent) : List Sent :=
  match a with
  | .thread r _ =>
    match (s.thread r).pc with
    | .letIn => out
    | .leaveOwner _ _ => out
    | _ => []
  | _ => []

/-- One step, with the lines that it writes read. -/
def next (u : Hall) (a : ServerAct) : Option Hall :=
  (u.parties.step a).map fun p ↦
    ⟨p.1, hearAll u.parties.name (roomLines u.parties a p.2) u.view⟩

/-- The step as a relation. -/
def Step (u : Hall) (a : ServerAct) (v : Hall) : Prop := u.next a = some v

/-- When a thread lets players in or tells that one has left, the names of the players of the room
are words and different. -/
def NamesDiffer (u : Hall) : ServerAct → Prop
  | .thread r _ =>
    match (u.parties.thread r).pc with
    | .letIn => Differ u.parties.name fun c ↦ ∃ j, (u.parties.room r).players j = some c
    | .leaveOwner _ _ => Differ u.parties.name fun c ↦ ∃ j, (u.parties.thread r).used j = some c
    | _ => True
  | _ => True

/-- A client that has left a room keeps its name until the room has been told. -/
def KeepsName (u : Hall) (a : ServerAct) : Prop :=
  ∀ r i k t out, (u.parties.thread r).Leaving i → (u.parties.thread r).used i = some k →
    u.parties.step a = some (t, out) → t.name k = u.parties.name k

/-- The player named in the line about a departure is the last in the list of every member. -/
def ClearsLast (u : Hall) : ServerAct → Prop
  | .thread r _ => ∀ ready i, (u.parties.thread r).pc = .leaveOwner ready i →
      ∀ j c v k, j ≠ i → (u.parties.thread r).used j = some c → u.view c = some v →
        (u.parties.thread r).used (if i = (u.parties.thread r).owner then
          Parties.nextOwner (u.parties.thread r) i else i) = some k →
        ∀ a b, v.player a = u.parties.name k → a < b → v.player b = []
  | _ => True

/-- The players of a room each have a seat and see the room. -/
structure Told (u : Hall) (strict : Prop) (r : RoomId) : Prop where
  single : (u.parties.thread r).Tells (u.parties.roomWorking r) → ∀ i j c,
    (u.parties.thread r).used i = some c → (u.parties.thread r).used j = some c → i = j
  shown : (u.parties.thread r).Tells (u.parties.roomWorking r) → ∀ i k,
    (u.parties.thread r).used i = some k → ¬ (u.parties.thread r).Leaving i →
      ∃ v, u.view k = some v ∧ Reflects strict u.parties.name (u.parties.thread r).used
        (u.parties.thread r).owner v

/-- All rooms are seen by their players. -/
structure Faithful (strict : Prop) (u : Hall) : Prop where
  headed : u.parties.Headed
  tenth : ∀ r, (u.parties.room r).players 9 = none
  told : ∀ r, u.Told strict r

variable {u v : Hall} {strict : Prop} {r : RoomId} {a : ServerAct}

/-! ### Players and their seats -/

/-- A player of a room that is not being taken out is kept there. -/
private theorem keeps_of_tells {s : Parties} {i : Seat} {k : ConnId} (hs : s.Disciplined)
    (ht : (s.thread r).Tells (s.roomWorking r)) (hu : (s.thread r).used i = some k)
    (hl : ¬ (s.thread r).Leaving i) : s.Keeps k (.seat r i) := by
  have hknows := (hs.occupied r).knows
  unfold Thread.Knows at hknows
  unfold Thread.Tells at ht
  unfold Thread.Leaving at hl
  have listed (h : Listed (s.thread r).used (s.room r).players fun _ ↦ False)
      (hpc : Parties.KeepsAll (s.thread r).pc) : s.Keeps k (.seat r i) :=
    ⟨h i k not_false hu, Parties.not_released hpc⟩
  cases hpc : (s.thread r).pc with
  | loopTest =>
    rw [hpc] at hknows ht
    exact listed (hknows ht.1 ht.2) (by rw [hpc]; trivial)
  | letIn => rw [hpc] at hknows; exact listed hknows (by rw [hpc]; trivial)
  | select => rw [hpc] at hknows; exact listed hknows (by rw [hpc]; trivial)
  | scan => rw [hpc] at hknows; exact listed hknows (by rw [hpc]; trivial)
  | leaveState => rw [hpc] at hknows; exact listed hknows.1 (by rw [hpc]; trivial)
  | leaveLock ready j =>
    rw [hpc] at hknows hl
    refine ⟨hknows.1 i k not_false hu, ?_⟩
    unfold Thread.Released
    rw [hpc]
    exact hl
  | leaveTest ready j =>
    rw [hpc] at hknows hl
    exact ⟨hknows i k hl hu, Parties.not_released (by rw [hpc]; trivial)⟩
  | leaveOwner ready j =>
    rw [hpc] at hknows hl
    exact ⟨hknows i k hl hu, Parties.not_released (by rw [hpc]; trivial)⟩
  | startTest => rw [hpc] at hknows; exact listed hknows (by rw [hpc]; trivial)
  | _ => rw [hpc] at ht; exact ht.elim

/-- What a view shows depends on the names of the seats in use. -/
private theorem reflects_congr {name name' : ConnId → Text} {used : Seat → Option ConnId}
    {owner : Seat} {w : RoomView} (h : Reflects strict name used owner w)
    (hname : ∀ i c, used i = some c → name' c = name c) : Reflects strict name' used owner w := by
  refine ⟨?_, h.player.congr fun x ↦ ?_, h.dense⟩
  · intro c hc
    rw [hname owner c hc]
    exact h.master c hc
  · constructor
    · rintro ⟨j, c, hj, hc, rfl⟩
      exact ⟨j, c, hj, hc, hname j c hc⟩
    · rintro ⟨j, c, hj, hc, rfl⟩
      exact ⟨j, c, hj, hc, (hname j c hc).symm⟩

/-- A room whose thread does nothing is seen as before. -/
private theorem Told.frame (h : u.Told strict r)
    (hthread : v.parties.thread r = u.parties.thread r)
    (htells : (u.parties.thread r).Tells (v.parties.roomWorking r) →
      (u.parties.thread r).Tells (u.parties.roomWorking r))
    (hname : (u.parties.thread r).Tells (u.parties.roomWorking r) → ∀ i k,
      (u.parties.thread r).used i = some k → v.parties.name k = u.parties.name k)
    (hview : (u.parties.thread r).Tells (u.parties.roomWorking r) → ∀ i k,
      (u.parties.thread r).used i = some k → ¬ (u.parties.thread r).Leaving i →
        v.view k = u.view k) : v.Told strict r := by
  refine ⟨?_, ?_⟩
  · rw [hthread]
    exact fun ht ↦ h.single (htells ht)
  · rw [hthread]
    intro ht i k hu hl
    obtain ⟨w, hw, hreflects⟩ := h.shown (htells ht) i k hu hl
    exact ⟨w, by rw [hview (htells ht) i k hu hl]; exact hw,
      reflects_congr hreflects (hname (htells ht))⟩

/-- A thread that goes on without a word to its players. -/
private theorem Told.carry (h : u.Told strict r)
    (hused : (v.parties.thread r).used = (u.parties.thread r).used)
    (howner : (v.parties.thread r).owner = (u.parties.thread r).owner)
    (hname : v.parties.name = u.parties.name) (hview : v.view = u.view)
    (htells : (v.parties.thread r).Tells (v.parties.roomWorking r) →
      (u.parties.thread r).Tells (u.parties.roomWorking r))
    (hleaving : ∀ i, (u.parties.thread r).Leaving i → (v.parties.thread r).Leaving i) :
    v.Told strict r := by
  refine ⟨?_, ?_⟩
  · rw [hused]
    exact fun ht ↦ h.single (htells ht)
  · rw [hused, howner, hname, hview]
    exact fun ht i k hu hl ↦ h.shown (htells ht) i k hu fun hl' ↦ hl (hleaving i hl')

/-- A thread that has no players to tell. -/
private theorem told_of_silent (h : ¬ (u.parties.thread r).Tells (u.parties.roomWorking r)) :
    u.Told strict r := ⟨fun ht ↦ absurd ht h, fun ht ↦ absurd ht h⟩

/-- What a room keeps to while players are let in. -/
private theorem orderly (hs : u.Faithful strict) {input : Input}
    (hok : u.NamesDiffer (.thread r input)) (hpc : (u.parties.thread r).pc = .letIn) :
    u.parties.Orderly r := by
  have hsound := (hs.headed.disciplined.occupied r).sound
  refine ⟨hs.tenth r, ?_, ?_, ?_⟩
  · have := hsound.counted
    have := hsound.bounded
    omega
  · intro i j c hi hj
    have hkeeps (i : Seat) (hi : (u.parties.room r).players i = some c) :
        u.parties.Keeps c (.seat r i) := ⟨hi, Parties.not_released (by rw [hpc]; trivial)⟩
    cases hs.headed.disciplined.once c _ _ (hkeeps i hi) (hkeeps j hj)
    rfl
  · unfold NamesDiffer at hok
    dsimp only at hok
    rw [hpc] at hok
    exact hok

/-- After players were let in. -/
private theorem told_letIn (hs : u.Faithful strict) {input : Input} {w : Hall}
    (hok : u.NamesDiffer (.thread r input)) (hpc : (u.parties.thread r).pc = .letIn)
    {acc : (Seat → Option ConnId) × List Sent}
    (hacc : (List.finRange 10).foldlM (u.parties.letInSeat r (u.parties.thread r).owner)
      ((u.parties.thread r).used, []) = some acc)
    (hused : (w.parties.thread r).used = acc.1)
    (howner : (w.parties.thread r).owner = (u.parties.thread r).owner)
    (hname : w.parties.name = u.parties.name)
    (hview : w.view = hearAll u.parties.name acc.2 u.view) : w.Told strict r ∧
      ∀ c, (∀ i, (u.parties.room r).players i ≠ some c) → w.view c = u.view c := by
  have hord := orderly hs hok hpc
  have htells : (u.parties.thread r).Tells (u.parties.roomWorking r) := by
    unfold Thread.Tells
    rw [hpc]
    trivial
  have hleaving (i : Seat) : ¬ (u.parties.thread r).Leaving i := by
    unfold Thread.Leaving
    rw [hpc]
    exact not_false
  have hlisted := (hs.headed.disciplined.occupied r).knows
  unfold Thread.Knows at hlisted
  rw [hpc] at hlisted
  have hstart : u.parties.Entered r strict u.view ((u.parties.thread r).used, []) :=
    ⟨hlisted, fun i k hu ↦ (hs.told r).shown htells i k hu (hleaving i), fun _ _ ↦ rfl⟩
  have hall : List.finRange 10 = [] ++ List.finRange 10 := rfl
  have hend := Parties.letIn_entered hs.headed hpc hord hall rfl hacc hstart
  refine ⟨⟨fun _ ↦ ?_, fun _ ↦ ?_⟩, ?_⟩
  · rw [hused]
    intro i j c hi hj
    exact hord.inj i j c (hend.listed i c not_false hi) (hend.listed j c not_false hj)
  · rw [hused, howner, hname, hview]
    exact fun i k hu _ ↦ hend.shown i k hu
  · rw [hview]
    exact hend.others

/-- The line about a departure is written to the players of the room that stay. -/
private theorem leaveOwner_line {s t : Parties} {ready : List Seat} {i : Seat} {out : List Sent}
    (h : s.leaveOwner r (s.thread r) ready i = some (t, out)) : ∃ k,
      (s.thread r).used (if i = (s.thread r).owner then Parties.nextOwner (s.thread r) i else i) =
        some k ∧
      out = sendToEveryone (some i)
        (line1 (if i = (s.thread r).owner then ['8'] else ['7']) (s.name k)) (s.thread r).used := by
  unfold Parties.leaveOwner at h
  dsimp only at h
  split at h
  · cases h
  · next k hk =>
    cases h
    refine ⟨k, ?_, rfl⟩
    split
    · next hi => rw [if_pos hi, if_pos hi] at hk; exact hk
    · next hi => rw [if_neg hi] at hk; exact hk

/-- After a departure was told. -/
private theorem told_leaveOwner (hs : u.Faithful strict) {input : Input} {w : Hall}
    {ready : List Seat} {i : Seat} {out : List Sent} (hok : u.NamesDiffer (.thread r input))
    (hlast : strict → u.ClearsLast (.thread r input))
    (hpc : (u.parties.thread r).pc = .leaveOwner ready i)
    (h : u.parties.leaveOwner r (u.parties.thread r) ready i = some (w.parties, out))
    (hview : w.view = hearAll u.parties.name out u.view) : w.Told strict r ∧
      ∀ c, (∀ j, j ≠ i → (u.parties.thread r).used j ≠ some c) → w.view c = u.view c := by
  have hdiffer : Differ u.parties.name fun c ↦ ∃ j, (u.parties.thread r).used j = some c := by
    unfold NamesDiffer at hok
    dsimp only at hok
    rw [hpc] at hok
    exact hok
  have htells : (u.parties.thread r).Tells (u.parties.roomWorking r) := by
    unfold Thread.Tells
    rw [hpc]
    trivial
  have hsingle := (hs.told r).single htells
  have hleaving (j : Seat) (hj : j ≠ i) : ¬ (u.parties.thread r).Leaving j := by
    unfold Thread.Leaving
    rw [hpc]
    exact hj
  obtain ⟨k, hk, hout⟩ := leaveOwner_line h
  have hthread : w.parties.thread r = { u.parties.thread r with
      pc := .scan ready (i.val + 1)
      owner := if i = (u.parties.thread r).owner then Parties.nextOwner (u.parties.thread r) i
        else (u.parties.thread r).owner
      used := Function.update (u.parties.thread r).used i none } := by
    rw [(Parties.leaveOwner_eq h).1]
    simp [Parties.setThread]
  have hname : w.parties.name = u.parties.name := by
    rw [(Parties.leaveOwner_eq h).1]
    rfl
  have hword := hdiffer.field k ⟨_, hk⟩
  -- only the seat named has the name
  have hnamed (j : Seat) (c : ConnId) (hc : (u.parties.thread r).used j = some c)
      (he : u.parties.name c = u.parties.name k) : j =
        if i = (u.parties.thread r).owner then Parties.nextOwner (u.parties.thread r) i else i := by
    cases hdiffer.inj c k ⟨j, hc⟩ ⟨_, hk⟩ he
    exact hsingle _ _ _ hc hk
  refine ⟨⟨fun _ ↦ ?_, fun _ ↦ ?_⟩, ?_⟩
  · rw [hthread]
    intro j j' c hj hj'
    have hold (m : Seat) (hm : Function.update (u.parties.thread r).used i none m = some c) :
        (u.parties.thread r).used m = some c := by
      by_cases hmi : m = i
      · rw [hmi, Function.update_self] at hm
        cases hm
      · rwa [Function.update_of_ne hmi] at hm
    exact hsingle j j' c (hold j hj) (hold j' hj')
  · rw [hthread, hname]
    intro j c hc _
    dsimp only at hc ⊢
    have hji : j ≠ i := by
      rintro rfl
      rw [Function.update_self] at hc
      cases hc
    rw [Function.update_of_ne hji] at hc
    obtain ⟨v, hv, hreflects⟩ := (hs.told r).shown htells j c hc (hleaving j hji)
    have hclear : strict → ∀ a b, v.player a = u.parties.name k → a < b → v.player b = [] :=
      fun hstrict ↦ hlast hstrict ready i hpc j c v k hji hc hv hk
    rw [hview, hout, hearAll_told (j := j) (by simp [Ne.symm hji]) hc
      (fun m _ hm ↦ hsingle m j c hm hc), hv]
    by_cases hi : i = (u.parties.thread r).owner
    · rw [if_pos hi] at hk hnamed ⊢
      rw [if_pos hi, hear_hand _ hword.2]
      refine ⟨_, rfl, ?_⟩
      rw [hi] at hnamed hk ⊢
      have hne : Parties.nextOwner (u.parties.thread r) (u.parties.thread r).owner ≠
          (u.parties.thread r).owner := by
        refine (nextOwner_spec (j := j) ?_ (by rw [hc]; rfl)).1
        rwa [← hi]
      exact hreflects.hand hk hne hnamed hclear
    · rw [if_neg hi] at hk hnamed ⊢
      rw [if_neg hi, hear_leave _ hword.2]
      exact ⟨_, rfl, hreflects.leave hk hi hword.1.1 hnamed hclear⟩
  · intro c hc
    rw [hview, hout]
    apply hearAll_untold
    intro j hj hu
    exact hc j (fun he ↦ hj (by rw [he])) hu

/-! ### Steps -/

/-- The last place of a room stays free. -/
private theorem step_tenth {s t : Parties} {out : List Sent} (hocc : ∀ q, s.Occupied q)
    (h : s.step a = some (t, out)) (hs : ∀ q, (s.room q).players 9 = none) (q : RoomId) :
    (t.room q).players 9 = none := by
  cases a with
  | accept k =>
    simp only [Parties.step] at h
    split at h
    · split at h
      · cases h; exact hs q
      · cases h
    · cases h
  | read k event =>
    simp only [Parties.step] at h
    split at h
    · split at h
      · split at h
        · cases h; exact hs q
        · obtain ⟨name, main, rfl, -⟩ := Parties.request_does h
          exact hs q
      · cases h
    · cases h
  | main =>
    simp only [Parties.step, Parties.mainNext] at h
    split at h
    · cases h
    · cases h; exact hs q
    · cases h; exact hs q
    · cases h; exact hs q
  | handler k =>
    cases Parties.handlerNext_does h with
    | join r d hpc hu hg hn hd =>
      by_cases hq : q = r
      · subst hq
        obtain ⟨i, hi, -, hjoin⟩ := (hocc q).sound.exists_join hn (s.handler k).playerIndex
        cases hd.symm.trans hjoin
        have hne : (9 : Seat) ≠ i := by
          rintro rfl
          exact absurd hi (by decide)
        simpa [Parties.setRoom, Parties.setHandler, hne] using hs q
      · simpa [Parties.setRoom, Parties.setHandler, hq] using hs q
    | create r random hpc hu =>
      by_cases hq : q = r
      · subst hq
        simpa [Parties.createRoom, Parties.setRoom, Parties.setRoomWorking, Parties.setHandler]
          using hs q
      · simpa [Parties.createRoom, Parties.setRoom, Parties.setRoomWorking, Parties.setHandler, hq]
          using hs q
    | _ => exact hs q
  | thread r input =>
    have hd := Parties.threadNext_does h
    by_cases hq : q = r
    · subst hq
      cases hd with
      | letIn => simpa [Parties.setThread, Parties.setRoom] using hs q
      | takeOut input ready i hpc =>
        have hclear : Function.update (s.room q).players i none 9 = none := by
          by_cases hi : (9 : Seat) = i
          · rw [← hi, Function.update_self]
          · rw [Function.update_of_ne hi]
            exact hs q
        unfold Parties.takeOut
        dsimp only
        split
        · simpa [Parties.setThread, Parties.setRoom, Parties.setRoomWorking] using hclear
        · simpa [Parties.setThread, Parties.setRoom] using hclear
      | leaveOwner input ready i t out hpc h =>
        rw [(Parties.leaveOwner_eq h).1]
        exact hs q
      | gameLock => simpa [Parties.setThread, Parties.setRoom] using hs q
      | perform input g done todo e hpc =>
        cases e with
        | send c line => exact hs q
        | setState c state => exact hs q
      | reset => simp [Parties.reset, Parties.setThread, Parties.setRoom, Parties.setRoomWorking]
      | finishRandom => simpa [Parties.setThread, Parties.setRoom] using hs q
      | _ => exact hs q
    · obtain ⟨-, hroom, -⟩ := Parties.thread_other hd hq
      rw [hroom]
      exact hs q

/-- The thread of a room tells its players what it does, and nobody else. -/
private theorem thread_told (hs : u.Faithful strict) {input : Input} {t : Parties} {out : List Sent}
    (hok : u.NamesDiffer (.thread r input)) (hlast : strict → u.ClearsLast (.thread r input))
    (h : Parties.ThreadDoes u.parties r input t out) :
    Told ⟨t, hearAll u.parties.name (roomLines u.parties (.thread r input) out) u.view⟩ strict r ∧
      ∀ c, (∀ i, ¬ u.parties.Keeps c (.seat r i)) →
        hearAll u.parties.name (roomLines u.parties (.thread r input) out) u.view c = u.view c := by
  obtain ⟨-, -, -, -, hname, -⟩ := Parties.thread_frame h
  -- a step that is not of the loop for the players, and leads to none
  have silent (hlines : roomLines u.parties (.thread r input) out = [])
      (hno : ¬ (t.thread r).Tells (t.roomWorking r)) :
      Told ⟨t, hearAll u.parties.name (roomLines u.parties (.thread r input) out) u.view⟩ strict r ∧
        ∀ c, (∀ i, ¬ u.parties.Keeps c (.seat r i)) →
          hearAll u.parties.name (roomLines u.parties (.thread r input) out) u.view c = u.view c := by
    rw [hlines]
    exact ⟨told_of_silent hno, fun _ _ ↦ rfl⟩
  have carry (hlines : roomLines u.parties (.thread r input) out = [])
      (hused : (t.thread r).used = (u.parties.thread r).used)
      (howner : (t.thread r).owner = (u.parties.thread r).owner)
      (htells : (t.thread r).Tells (t.roomWorking r) →
        (u.parties.thread r).Tells (u.parties.roomWorking r))
      (hleaving : ∀ i, (u.parties.thread r).Leaving i → (t.thread r).Leaving i) :
      Told ⟨t, hearAll u.parties.name (roomLines u.parties (.thread r input) out) u.view⟩ strict r ∧
        ∀ c, (∀ i, ¬ u.parties.Keeps c (.seat r i)) →
          hearAll u.parties.name (roomLines u.parties (.thread r input) out) u.view c = u.view c := by
    rw [hlines]
    exact ⟨(hs.told r).carry hused howner hname rfl htells hleaving, fun _ _ ↦ rfl⟩
  cases h with
  | begin input hpc hw =>
    exact silent (by simp [roomLines, hpc]) (by simp [Thread.Tells, Parties.setThread])
  | load input hpc =>
    rw [show roomLines u.parties (.thread r input) [] = [] by simp [roomLines, hpc]]
    refine ⟨⟨fun _ ↦ ?_, fun _ ↦ ?_⟩, fun _ _ ↦ rfl⟩
    · intro i j c hi
      simp [Parties.setThread] at hi
    · intro i k hi
      simp [Parties.setThread] at hi
  | loop input hpc hw ha =>
    refine carry (by simp [roomLines, hpc]) (by simp [Parties.setThread])
      (by simp [Parties.setThread]) (fun _ ↦ ?_) (by simp [Thread.Leaving, hpc])
    simp [Thread.Tells, hpc, ha, hw]
  | leaveLoop input hpc hno =>
    exact silent (by simp [roomLines, hpc]) (by simp [Thread.Tells, Parties.setThread])
  | letIn input acc hpc hnew hacc =>
    have hlines : roomLines u.parties (.thread r input) acc.2 = acc.2 := by simp [roomLines, hpc]
    rw [hlines]
    refine (told_letIn hs hok hpc hacc ?_ ?_ ?_ rfl).imp_right fun hother c hc ↦ ?_
    · simp [Parties.setThread]
    · simp [Parties.setThread]
    · rfl
    · refine hother c fun i hi ↦ hc i ⟨hi, Parties.not_released (by rw [hpc]; trivial)⟩
  | nobodyNew input hpc hnew =>
    exact carry (by simp [roomLines, hpc]) (by simp [Parties.setThread])
      (by simp [Parties.setThread]) (by simp [Thread.Tells, hpc]) (by simp [Thread.Leaving, hpc])
  | select seats hpc =>
    exact carry (by simp [roomLines, hpc]) (by simp [Parties.setThread])
      (by simp [Parties.setThread]) (by simp [Thread.Tells, hpc]) (by simp [Thread.Leaving, hpc])
  | pass ready i input hpc =>
    exact carry (by simp [roomLines, hpc]) (by simp [Parties.setThread])
      (by simp [Parties.setThread]) (by simp [Thread.Tells, hpc]) (by simp [Thread.Leaving, hpc])
  | scanned ready i input hpc =>
    exact carry (by simp [roomLines, hpc]) (by simp [Parties.setThread])
      (by simp [Parties.setThread]) (by simp [Thread.Tells, hpc]) (by simp [Thread.Leaving, hpc])
  | read ready i k event hpc =>
    exact carry (by simp [roomLines, hpc]) (by simp [Parties.setThread])
      (by simp [Parties.setThread]) (by simp [Thread.Tells, hpc]) (by simp [Thread.Leaving, hpc])
  | leaveState input ready i state k hpc =>
    exact carry (by simp [roomLines, hpc]) (by simp [Parties.setThread])
      (by simp [Parties.setThread]) (by simp [Thread.Tells, hpc]) (by simp [Thread.Leaving, hpc])
  | takeOut input ready i hpc =>
    refine carry (by simp [roomLines, hpc]) ?_ ?_ (by simp [Thread.Tells, hpc]) ?_
    · unfold Parties.takeOut
      dsimp only
      split
      · simp [Parties.setThread]
      · simp [Parties.setThread]
    · unfold Parties.takeOut
      dsimp only
      split
      · simp [Parties.setThread]
      · simp [Parties.setThread]
    · unfold Parties.takeOut
      dsimp only
      split
      · simp [Parties.setThread, Thread.Leaving, hpc]
      · simp [Parties.setThread, Thread.Leaving, hpc]
  | leaveTest input ready i hpc =>
    by_cases hw : u.parties.roomWorking r = true
    · exact carry (by simp [roomLines, hpc]) (by simp [Parties.setThread])
        (by simp [Parties.setThread]) (by simp [Thread.Tells, hpc])
        (by simp [Thread.Leaving, Parties.setThread, hpc, hw])
    · exact silent (by simp [roomLines, hpc]) (by simp [Thread.Tells, Parties.setThread, hw])
  | leaveOwner input ready i t out hpc h =>
    have hlines : roomLines u.parties (.thread r input) out = out := by simp [roomLines, hpc]
    rw [hlines]
    refine (told_leaveOwner (w := ⟨t, hearAll u.parties.name out u.view⟩) hs hok hlast hpc h
      rfl).imp_right fun hother c hc ↦ ?_
    refine hother c fun j hj hu ↦ hc j (keeps_of_tells hs.headed.disciplined ?_ hu ?_)
    · unfold Thread.Tells
      rw [hpc]
      trivial
    · unfold Thread.Leaving
      rw [hpc]
      exact hj
  | tooFew input ready i hpc =>
    exact carry (by simp [roomLines, hpc]) (by simp [Parties.setThread])
      (by simp [Parties.setThread]) (by simp [Thread.Tells, hpc]) (by simp [Thread.Leaving, hpc])
  | start input ready i hpc =>
    exact silent (by simp [roomLines, hpc]) (by simp [Thread.Tells, Parties.setThread])
  | gameLock input hpc =>
    exact silent (by simp [roomLines, hpc]) (by simp [Thread.Tells, Parties.setThread])
  | gameOpen rand draw g hpc =>
    exact silent (by simp [roomLines, hpc]) (by simp [Thread.Tells, Parties.setThread])
  | perform input g done todo e hpc =>
    refine silent (by simp [roomLines, hpc]) ?_
    cases e with
    | send => simp [Thread.Tells, Parties.perform, Parties.setThread]
    | setState => simp [Thread.Tells, Parties.perform, Parties.setThread, Parties.setState]
  | ended input g done hpc =>
    exact silent (by simp [roomLines, hpc]) (by simp [Thread.Tells, Parties.setThread])
  | act g g' done a hpc =>
    exact silent (by simp [roomLines, hpc]) (by simp [Thread.Tells, Parties.setThread])
  | reset input hpc =>
    refine silent (by simp [roomLines, hpc]) ?_
    simp [Thread.Tells, Parties.reset, Parties.setThread, Parties.setRoomWorking]
  | finishRandom input hpc =>
    exact silent (by simp [roomLines, hpc]) (by simp [Thread.Tells, Parties.setThread])
  | finishNum input hpc =>
    exact silent (by simp [roomLines, hpc]) (by simp [Thread.Tells, Parties.setThread])

/-- A line from the lobby changes the name of its own connection at most. -/
private theorem request_name {s t : Parties} {k c : ConnId} {l : Text} {out : List Sent}
    (h : s.request k l = some (t, out)) (hc : c ≠ k) : t.name c = s.name c := by
  cases Parties.request_cases h with
  | token => exact Function.update_of_ne hc _ _
  | login => exact Function.update_of_ne hc _ _
  | _ => rfl

/-- Every step leaves the rooms seen by their players. -/
theorem step_faithful (hcreate : u.parties.CreatesAfterLoop a) (hsettle : u.parties.SettlesInTime a)
    (hleave : u.parties.LeavesAnOwner a) (hnames : u.NamesDiffer a) (hkeep : u.KeepsName a)
    (hlast : strict → u.ClearsLast a) (hstep : u.Step a v) (hs : u.Faithful strict) :
    v.Faithful strict := by
  obtain ⟨⟨t, out⟩, h, rfl⟩ := Option.map_eq_some_iff.mp hstep
  have hdis := hs.headed.disciplined
  refine ⟨Parties.step_headed hcreate hsettle hleave (Option.map_eq_some_iff.mpr ⟨_, h, rfl⟩)
    hs.headed, step_tenth hdis.occupied h hs.tenth, fun q ↦ ?_⟩
  have same (hthread : t.thread = u.parties.thread) (hworking : t.roomWorking = u.parties.roomWorking)
      (hname : t.name = u.parties.name) (hlines : roomLines u.parties a out = []) :
      Told ⟨t, hearAll u.parties.name (roomLines u.parties a out) u.view⟩ strict q := by
    rw [hlines]
    refine (hs.told q).frame (by rw [hthread]) ?_ (fun _ _ _ _ ↦ by rw [hname])
      (fun _ _ _ _ _ ↦ rfl)
    dsimp only
    rw [hworking]
    exact id
  dsimp only
  cases a with
  | accept k =>
    simp only [Parties.step] at h
    split at h
    · split at h
      · cases h; exact same rfl rfl rfl rfl
      · cases h
    · cases h
  | read k event =>
    have hstep := h
    simp only [Parties.step] at h
    split at h
    · split at h
      · next hlobby =>
        split at h
        · cases h; exact same rfl rfl rfl rfl
        · have hthread : t.thread = u.parties.thread ∧ t.roomWorking = u.parties.roomWorking := by
            obtain ⟨name, main, rfl, -⟩ := Parties.request_does h
            exact ⟨rfl, rfl⟩
          refine (hs.told q).frame (by rw [hthread.1]) ?_ ?_ (fun _ _ _ _ _ ↦ rfl)
          · dsimp only
            rw [hthread.2]
            exact id
          · intro ht i c hu
            by_cases hl : (u.parties.thread q).Leaving i
            · exact hkeep q i c t out hl hu hstep
            · -- a player of the room is not in the lobby
              apply request_name h
              rintro rfl
              have hroom := hdis.state c _ (keeps_of_tells hdis ht hu hl)
              rw [hlobby] at hroom
              cases hroom
      · cases h
    · cases h
  | main =>
    simp only [Parties.step, Parties.mainNext] at h
    split at h
    · cases h
    · cases h; exact same rfl rfl rfl rfl
    · cases h; exact same rfl rfl rfl rfl
    · cases h; exact same rfl rfl rfl rfl
  | handler k =>
    cases Parties.handlerNext_does h with
    | create r random hpc hu =>
      refine (hs.told q).frame rfl ?_ (fun _ _ _ _ ↦ rfl) (fun _ _ _ _ _ ↦ rfl)
      by_cases hq : q = r
      · subst hq
        intro ht
        have hpast := hcreate q random hpc hu
        unfold Thread.Tells at ht ⊢
        cases hp : (u.parties.thread q).pc with
        | loopTest =>
          rw [hp] at hpast ht
          rw [ht.1] at hpast
          cases hpast
        | _ => rw [hp] at ht; exact ht
      · simp [Parties.createRoom, Parties.setRoom, Parties.setRoomWorking, Parties.setHandler, hq]
    | _ => exact same rfl rfl rfl rfl
  | thread r input =>
    have hd := Parties.threadNext_does h
    obtain ⟨htold, hother⟩ := thread_told hs hnames hlast hd
    by_cases hq : q = r
    · subst hq
      exact htold
    · obtain ⟨hthread, -, -, hworking⟩ := Parties.thread_other hd hq
      obtain ⟨-, -, -, -, hname, -⟩ := Parties.thread_frame hd
      refine (hs.told q).frame hthread ?_ (fun _ _ _ _ ↦ by rw [hname]) ?_
      · dsimp only
        rw [hworking]
        exact id
      · intro ht i k hu hl
        refine hother k fun j hk ↦ hq ?_
        cases hdis.once k _ _ (keeps_of_tells hdis ht hu hl) hk
        rfl

theorem start_faithful : start.Faithful strict :=
  ⟨Parties.start_headed, fun _ ↦ rfl, fun _ ↦ told_of_silent not_false⟩

/-! ### What is printed -/

/-- Rooms are created, settled and left as their lines suppose, and names last as long as they are
needed. -/
structure Proper (u : Hall) (a : ServerAct) : Prop where
  create : u.parties.CreatesAfterLoop a
  settle : u.parties.SettlesInTime a
  leave : u.parties.LeavesAnOwner a
  names : u.NamesDiffer a
  keep : u.KeepsName a

theorem run_faithful {ok : Hall → ServerAct → Prop} (h : RunWith Step ok start u)
    (hproper : ∀ u a, ok u a → u.Proper a) (hlast : strict → ∀ u a, ok u a → u.ClearsLast a) :
    u.Faithful strict := by
  apply h.preserves _ start_faithful
  intro u a v hs hok hstep
  have hp := hproper u a hok
  exact step_faithful hp.create hp.settle hp.leave hp.names hp.keep (fun hst ↦ hlast hst u a hok)
    hstep hs

/-- In every run in which the names of the players of a room are different words, what a player of
a room prints is the room if and only if no hole stands before a name on its list. There is none
when the names that the lines about departures take off the lists are the last ones there. -/
theorem views_show (h : RunWith Step Proper start u) :
    (∀ r i k, (u.parties.thread r).Tells (u.parties.roomWorking r) →
      (u.parties.thread r).used i = some k → ¬ (u.parties.thread r).Leaving i →
        ∃ v, u.view k = some v ∧
          (Shows u.parties.name (u.parties.thread r).used (u.parties.thread r).owner v ↔
            Slots.Dense [] v.player)) ∧
    (RunWith Step (fun u a ↦ u.Proper a ∧ u.ClearsLast a) start u → ∀ r i k,
      (u.parties.thread r).Tells (u.parties.roomWorking r) →
      (u.parties.thread r).used i = some k → ¬ (u.parties.thread r).Leaving i →
        ∃ v, u.view k = some v ∧
          Shows u.parties.name (u.parties.thread r).used (u.parties.thread r).owner v) := by
  constructor
  · intro r i k ht hu hl
    have hs : u.Faithful False := run_faithful h (fun _ _ hok ↦ hok) (fun hf ↦ hf.elim)
    obtain ⟨v, hv, hreflects⟩ := (hs.told r).shown ht i k hu hl
    exact ⟨v, hv, hreflects.shows_iff⟩
  · intro hrun r i k ht hu hl
    have hs : u.Faithful True :=
      run_faithful hrun (fun _ _ hok ↦ hok.1) (fun _ _ _ hok ↦ hok.2)
    obtain ⟨v, hv, hreflects⟩ := (hs.told r).shown ht i k hu hl
    exact ⟨v, hv, hreflects.shows_iff.mpr (hreflects.dense trivial)⟩

/-- The players of some seats have different words for names. -/
private def differing (name : ConnId → Text) (seats : Seat → Option ConnId) : Bool :=
  decide (∀ i, ∀ k ∈ seats i, IsField (name k) ∧ ∀ j, ∀ c ∈ seats j, name k = name c → k = c)

private theorem differ_of_differing {name : ConnId → Text} {seats : Seat → Option ConnId}
    (h : differing name seats = true) : Differ name fun c ↦ ∃ j, seats j = some c := by
  have hall := of_decide_eq_true h
  constructor
  · rintro k ⟨i, hi⟩
    exact (hall i k hi).1
  · rintro k c ⟨i, hi⟩ ⟨j, hj⟩ he
    exact (hall i k hi).2 j c hj he

/-- The thread is telling nobody about a departure. -/
private def notLeaving (t : Thread) : Bool :=
  match t.pc with
  | .leaveLock _ _ => false
  | .leaveTest _ _ => false
  | .leaveOwner _ _ => false
  | _ => true

private theorem not_leaving {t : Thread} (h : notLeaving t = true) (i : Seat) : ¬ t.Leaving i := by
  unfold notLeaving at h
  unfold Thread.Leaving
  split at h
  · cases h
  · cases h
  · cases h
  · next h1 h2 h3 =>
    cases hpc : t.pc with
    | leaveLock ready j => exact absurd hpc (h1 ready j)
    | leaveTest ready j => exact absurd hpc (h2 ready j)
    | leaveOwner ready j => exact absurd hpc (h3 ready j)
    | _ => exact not_false

/-- A step of a run without games in which names are words, different, and given while nobody
leaves. -/
private def orderlyStep (u : Hall) : ServerAct → Bool
  | .handler k => Parties.createsWaiting u.parties (.handler k)
  | .read _ (.line _) => decide (∀ r, notLeaving (u.parties.thread r) = true)
  | .thread _ (.game _) => false
  | .thread r _ =>
    match (u.parties.thread r).pc with
    | .letIn => differing u.parties.name (u.parties.room r).players
    | .leaveLock _ i => decide (∃ j, j ≠ i ∧ ((u.parties.thread r).used j).isSome)
    | .leaveOwner _ _ => differing u.parties.name (u.parties.thread r).used
    | _ => true
  | _ => true

private theorem proper_of_orderlyStep (u : Hall) (a : ServerAct) (h : orderlyStep u a = true) :
    u.Proper a := by
  refine ⟨?_, ?_, ?_, ?_, ?_⟩
  · cases a with
    | handler k =>
      intro r random hpc _
      simp only [orderlyStep, Parties.createsWaiting, hpc] at h
      split at h
      · next hw => rw [hw]; trivial
      · cases h
    | _ => trivial
  · cases a with
    | thread r input =>
      cases input with
      | game act => cases h
      | _ => trivial
    | _ => trivial
  · cases a with
    | thread r input =>
      intro ready hpc _
      cases input with
      | game act => cases h
      | _ =>
        simp only [orderlyStep, hpc] at h
        exact of_decide_eq_true h
    | _ => trivial
  · cases a with
    | thread r input =>
      unfold NamesDiffer
      dsimp only
      cases input with
      | game act => cases h
      | _ =>
        split
        · next hpc =>
          simp only [orderlyStep, hpc] at h
          exact differ_of_differing h
        · next hpc =>
          simp only [orderlyStep, hpc] at h
          exact differ_of_differing h
        · trivial
    | _ => trivial
  · intro r i k t out hl hu hstep
    cases a with
    | read k' event =>
      cases event with
      | line l => exact absurd hl (not_leaving (of_decide_eq_true h r) i)
      | eof => rw [Parties.name_of_step hstep (by intro k l he; cases he)]
    | _ => rw [Parties.name_of_step hstep (by intro k l he; cases he)]

/-- The name in a line about a departure is the last one on every list. -/
private def lastCleared (u : Hall) : ServerAct → Bool
  | .thread r _ =>
    match (u.parties.thread r).pc with
    | .leaveOwner _ i =>
      let t := u.parties.thread r
      decide (∀ j, ∀ c ∈ t.used j, ∀ v ∈ u.view c,
        ∀ k ∈ t.used (if i = t.owner then Parties.nextOwner t i else i), ∀ a b,
          v.player a = u.parties.name k → a < b → v.player b = [])
    | _ => true
  | _ => true

private theorem clearsLast_of_lastCleared (u : Hall) (a : ServerAct) (h : lastCleared u a = true) :
    u.ClearsLast a := by
  cases a with
  | thread r input =>
    intro ready i hpc j c v k _ hu hv hk
    simp only [lastCleared, hpc] at h
    exact of_decide_eq_true h j c hu v hv k hk
  | _ => trivial

/-- Three clients log in. Client 0 opens room 0, the others join, and all are let in. -/
private def threeMembers : List ServerAct :=
  [.accept 0, .read 0 (.line ['2', ' ', '1', ' ', 'a', '\n']), .accept 1,
    .read 1 (.line ['2', ' ', '1', ' ', 'b', '\n']), .accept 2,
    .read 2 (.line ['2', ' ', '1', ' ', 'c', '\n'])] ++
    Parties.asks 0 ['3', '\n'] ++ List.replicate 4 (.handler 0) ++
    Parties.asks 1 ['4', ' ', '0', '\n'] ++ List.replicate 3 (.handler 1) ++
    Parties.asks 2 ['4', ' ', '0', '\n'] ++ List.replicate 3 (.handler 2) ++
    List.replicate 4 (.thread 0 .nothing)

/-- The thread goes through the players of a room. -/
private def scanning (t : Thread) : Bool :=
  match t.pc with
  | .scan _ _ => true
  | _ => false

private theorem tells_of_scanning {t : Thread} {working : Bool} (h : scanning t = true) :
    t.Tells working ∧ ∀ i, ¬ t.Leaving i := by
  unfold scanning at h
  split at h
  · next hpc =>
    simp [Thread.Tells, Thread.Leaving, hpc]
  · cases h

/-- The last client leaves, and the first one sees the second. -/
theorem two_seen :
    ∃ u v, Run Step start u ∧ u.view 0 = some v ∧
      Shows u.parties.name (u.parties.thread 0).used (u.parties.thread 0).owner v ∧
      (u.parties.thread 0).used 1 = some 1 ∧ (u.parties.thread 0).used 2 = none := by
  have h : (playActs (guarded (fun u a ↦ orderlyStep u a && lastCleared u a) next) start
      (threeMembers ++ [.thread 0 (.ready [2])] ++ List.replicate 2 (.thread 0 .nothing) ++
        [.thread 0 (.read (.line ['6', '\n']))] ++ List.replicate 4 (.thread 0 .nothing))).bind
      (fun u ↦ some (decide (scanning (u.parties.thread 0) = true ∧
        (u.parties.thread 0).used 0 = some 0 ∧ (u.parties.thread 0).used 1 = some 1 ∧
        (u.parties.thread 0).used 2 = none))) = some true := by
    decide +kernel
  obtain ⟨u, hs, h⟩ := Option.bind_eq_some_iff.mp h
  rw [Option.some.injEq, decide_eq_true_eq] at h
  obtain ⟨hscan, h0, h1, h2⟩ := h
  have hrun : RunWith Step (fun u a ↦ u.Proper a ∧ u.ClearsLast a) start u := by
    refine runWith_of_playActs (fun u a hgood ↦ ?_) hs
    obtain ⟨hproper, hlast⟩ := Bool.and_eq_true_iff.mp hgood
    exact ⟨proper_of_orderlyStep u a hproper, clearsLast_of_lastCleared u a hlast⟩
  obtain ⟨ht, hl⟩ := tells_of_scanning hscan
  obtain ⟨v, hv, hshows⟩ := (views_show (hrun.mono fun _ _ hok ↦ hok.1)).2 hrun 0 0 0 ht h0 (hl 0)
  exact ⟨u, v, hrun.mono fun _ _ _ ↦ True.intro, hv, hshows, h1, h2⟩

/-! ### A hole before a name -/

/-- The second client leaves. The first one prints no name after that, though the third one is in
the room. -/
theorem third_member_hidden :
    ∃ u v, RunWith Step Proper start u ∧
      (u.parties.thread 0).Tells (u.parties.roomWorking 0) ∧
      (u.parties.thread 0).used 0 = some 0 ∧ (u.parties.thread 0).used 2 = some 2 ∧
      u.view 0 = some v ∧ v.printed = [] ∧
      ¬ Shows u.parties.name (u.parties.thread 0).used (u.parties.thread 0).owner v := by
  have h : (playActs (guarded orderlyStep next) start
      (threeMembers ++ [.thread 0 (.ready [1]), .thread 0 .nothing,
        .thread 0 (.read (.line ['6', '\n']))] ++ List.replicate 4 (.thread 0 .nothing))).bind
      (fun u ↦ (u.view 0).map fun v ↦ decide (scanning (u.parties.thread 0) = true ∧
        (u.parties.thread 0).owner = 0 ∧ (u.parties.thread 0).used 0 = some 0 ∧
        (u.parties.thread 0).used 2 = some 2 ∧ v.printed = [])) = some true := by
    decide +kernel
  obtain ⟨u, hs, h⟩ := Option.bind_eq_some_iff.mp h
  obtain ⟨v, hv, h⟩ := Option.map_eq_some_iff.mp h
  rw [decide_eq_true_eq] at h
  obtain ⟨hscan, howner, h0, h2, hnone⟩ := h
  refine ⟨u, v, runWith_of_playActs proper_of_orderlyStep hs, (tells_of_scanning hscan).1, h0, h2,
    hv, hnone, fun hshows ↦ ?_⟩
  have hmem := (hshows.others (u.parties.name 2)).mpr ⟨2, 2, by rw [howner]; decide, h2, rfl⟩
  rw [hnone] at hmem
  exact List.not_mem_nil hmem

end Hall
end Unpv13e.Server
