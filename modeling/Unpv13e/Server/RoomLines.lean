import Unpv13e.Client.RoomView
import Unpv13e.Server.Owner

/-!
# The lines of a room

Library `Server`. The thread of a room writes a line `5` to each player it lets in and lines `6`,
`7` and `8` about changes to the others (`src/tcpcliserv/final_server.c:709–741`, `:812–831`).
What each of them does to a view that is the room, and what the section that lets players in does
to all views.
-/

namespace Unpv13e.Server
open Unpv13e.Base Unpv13e.Uno Unpv13e.Client

/-! ### Views -/

/-- The name of a seat in use that is not the owner's. -/
def Other (name : ConnId → Text) (used : Seat → Option ConnId) (owner : Seat) (w : Text) : Prop :=
  ∃ j c, j ≠ owner ∧ used j = some c ∧ name c = w

/-- A view is the room: the name of the owner and those of the other seats in use; under `strict`
without holes between them. -/
structure Reflects (strict : Prop) (name : ConnId → Text) (used : Seat → Option ConnId)
    (owner : Seat) (v : RoomView) : Prop where
  master : ∀ c, used owner = some c → v.master = name c
  player : Slots.Lists [] v.player (Other name used owner)
  dense : strict → Slots.Dense [] v.player

/-- The names of some connections are words and different. -/
structure Differ (name : ConnId → Text) (member : ConnId → Prop) : Prop where
  field : ∀ k, member k → IsField (name k)
  inj : ∀ k c, member k → member c → name k = name c → k = c

/-- The seats in use besides the owner's and the one that is let in are seven at most. -/
private theorem card_others {players used : Seat → Option ConnId} {owner i : Seat}
    (hlisted : Listed used players fun _ ↦ False)
    (hbound : count (fun j ↦ (players j).isSome) ≤ 9) (howner : (players owner).isSome)
    (hi : (players i).isSome) (hu : used i = none) (hne : i ≠ owner) :
    (Finset.univ.filter fun j ↦ j ≠ owner ∧ (used j).isSome).card ≤ 7 := by
  have hsub : insert i (insert owner (Finset.univ.filter fun j ↦ j ≠ owner ∧ (used j).isSome)) ⊆
      Finset.univ.filter fun j ↦ (players j).isSome := by
    intro j hj
    rw [Finset.mem_filter, and_iff_right (Finset.mem_univ j)]
    rw [Finset.mem_insert, Finset.mem_insert, Finset.mem_filter] at hj
    rcases hj with rfl | rfl | ⟨-, -, hj⟩
    · exact hi
    · exact howner
    · obtain ⟨c, hc⟩ := Option.isSome_iff_exists.mp hj
      rw [hlisted j c not_false hc]
      rfl
  have hcard := Finset.card_le_card hsub
  rw [Finset.card_insert_of_notMem (by simp [hne, hu]), Finset.card_insert_of_notMem (by simp)]
    at hcard
  unfold count at hbound
  omega

/-- The names of the seats of a list that all are used. -/
private theorem mapM_names {players : Seat → Option ConnId} {js : List Seat} {cs : List ConnId}
    (h : js.mapM (fun j ↦ players j) = some cs) (c : ConnId) :
    c ∈ cs ↔ ∃ j ∈ js, players j = some c := by
  induction js generalizing cs with
  | nil =>
    cases h
    simp
  | cons j js ih =>
    rw [List.mapM_cons] at h
    obtain ⟨d, hd, h⟩ := Option.bind_eq_some_iff.mp h
    obtain ⟨ds, hds, h⟩ := Option.bind_eq_some_iff.mp h
    cases h
    simp only [List.mem_cons, ih hds, exists_eq_or_imp, hd, Option.some.injEq]
    rw [eq_comm]

private theorem mapM_nodup {players : Seat → Option ConnId} {js : List Seat} {cs : List ConnId}
    (hinj : ∀ i j c, players i = some c → players j = some c → i = j) (hjs : js.Nodup)
    (h : js.mapM (fun j ↦ players j) = some cs) : cs.Nodup := by
  induction js generalizing cs with
  | nil =>
    cases h
    exact List.nodup_nil
  | cons j js ih =>
    rw [List.mapM_cons] at h
    obtain ⟨d, hd, h⟩ := Option.bind_eq_some_iff.mp h
    obtain ⟨ds, hds, h⟩ := Option.bind_eq_some_iff.mp h
    cases h
    obtain ⟨hj, hjs⟩ := List.nodup_cons.mp hjs
    refine List.nodup_cons.mpr ⟨fun hmem ↦ ?_, ih hjs hds⟩
    obtain ⟨j', hj', hd'⟩ := (mapM_names hds d).mp hmem
    cases hinj j j' d hd hd'
    exact hj hj'

/-! ### Lines -/

variable {strict : Prop} {name : ConnId → Text} {used players : Seat → Option ConnId}
  {owner i : Seat} {k c : ConnId} {v : RoomView}

private theorem drop_line (op : Char) {w : Text} (hw : '\n' ∉ w) (hop : op ≠ '\n') :
    (chop (line1 [op] w)).drop 2 = w := by
  have hnl : '\n' ∉ op :: ' ' :: w := by
    simp only [List.mem_cons, not_or]
    exact ⟨Ne.symm hop, by decide, hw⟩
  have : chop (line1 [op] w) = op :: ' ' :: w := chop_line (s := op :: ' ' :: w) hnl
  rw [this]
  rfl

/-- The line `6`. -/
theorem hear_arrive (myId : Text) {w : Text} (hw : '\n' ∉ w) (v : RoomView) :
    RoomView.hear myId (line1 ['6'] w) (some v) = some (v.arrive w) := by
  change some (v.arrive ((chop (line1 ['6'] w)).drop 2)) = _
  rw [drop_line '6' hw (by decide)]

/-- The line `7`. -/
theorem hear_leave (myId : Text) {w : Text} (hw : '\n' ∉ w) (v : RoomView) :
    RoomView.hear myId (line1 ['7'] w) (some v) = some (v.leave w) := by
  change some (v.leave ((chop (line1 ['7'] w)).drop 2)) = _
  rw [drop_line '7' hw (by decide)]

/-- The line `8`. -/
theorem hear_hand (myId : Text) {w : Text} (hw : '\n' ∉ w) (v : RoomView) :
    RoomView.hear myId (line1 ['8'] w) (some v) = some (v.hand w) := by
  change some (v.hand ((chop (line1 ['8'] w)).drop 2)) = _
  rw [drop_line '8' hw (by decide)]

/-- One seat more is in use. -/
theorem other_update (hi : used i = none) (hne : i ≠ owner) (w : Text) :
    Other name (Function.update used i (some k)) owner w ↔ Other name used owner w ∨ w = name k := by
  constructor
  · rintro ⟨j, c, hj, hc, rfl⟩
    by_cases hji : j = i
    · rw [hji, Function.update_self] at hc
      cases hc
      exact .inr rfl
    · rw [Function.update_of_ne hji] at hc
      exact .inl ⟨j, c, hj, hc, rfl⟩
  · rintro (⟨j, c, hj, hc, rfl⟩ | rfl)
    · have hji : j ≠ i := by
        rintro rfl
        rw [hi] at hc
        cases hc
      exact ⟨j, c, hj, by rw [Function.update_of_ne hji]; exact hc, rfl⟩
    · exact ⟨i, k, hne, Function.update_self _ _ _, rfl⟩

/-- The other seats leave room for another name. -/
private theorem exists_hole {p : Fin 9 → Text} (h : Slots.Lists [] p (Other name used owner))
    (hcard : (Finset.univ.filter fun j ↦ j ≠ owner ∧ (used j).isSome).card ≤ 7) : ∃ a, p a = [] := by
  refine h.exists_hole _ (lt_of_le_of_lt hcard (by decide))
    (fun j w ↦ ∃ c, used j = some c ∧ name c = w) ?_ ?_
  · rintro w ⟨j, c, hj, hc, rfl⟩
    exact ⟨j, Finset.mem_filter.mpr ⟨Finset.mem_univ j, hj, by rw [hc]; rfl⟩, c, hc, rfl⟩
  · rintro j v w ⟨c, hc, rfl⟩ ⟨d, hd, rfl⟩
    cases hc.symm.trans hd
    rfl

/-- A new player in a room, seen by another member. -/
theorem Reflects.arrive (h : Reflects strict name used owner v) (hi : used i = none)
    (hne : i ≠ owner) (hnew : ¬ Other name used owner (name k)) (hk : name k ≠ [])
    (hcard : (Finset.univ.filter fun j ↦ j ≠ owner ∧ (used j).isSome).card ≤ 7) :
    Reflects strict name (Function.update used i (some k)) owner (v.arrive (name k)) := by
  have hhole := exists_hole h.player hcard
  refine ⟨?_, ?_, ?_⟩
  · intro c hc
    rw [Function.update_of_ne (Ne.symm hne)] at hc
    exact h.master c hc
  · exact (h.player.put hnew hk hhole).congr fun w ↦ (other_update hi hne w).symm
  · exact fun hs ↦ (h.dense hs).put hk hhole

/-- A player has left, seen by another member. -/
theorem Reflects.leave (h : Reflects strict name used owner v) (hi : used i = some k)
    (hne : i ≠ owner) (hk : name k ≠ [])
    (hinj : ∀ j c, used j = some c → name c = name k → j = i)
    (hlast : strict → ∀ a b, v.player a = name k → a < b → v.player b = []) :
    Reflects strict name (Function.update used i none) owner (v.leave (name k)) := by
  have hplayer : (v.leave (name k)).player = Slots.clearAll [] (name k) v.player :=
    h.player.clearFirst_eq hk
  refine ⟨?_, ?_, ?_⟩
  · intro c hc
    rw [Function.update_of_ne (Ne.symm hne)] at hc
    exact h.master c hc
  · rw [hplayer]
    refine (h.player.clearAll (name k)).congr fun w ↦ ?_
    constructor
    · rintro ⟨⟨j, c, hj, hc, rfl⟩, hw⟩
      have hji : j ≠ i := by
        rintro rfl
        cases hi.symm.trans hc
        exact hw rfl
      exact ⟨j, c, hj, by rw [Function.update_of_ne hji]; exact hc, rfl⟩
    · rintro ⟨j, c, hj, hc, rfl⟩
      have hji : j ≠ i := by
        rintro rfl
        simp at hc
      rw [Function.update_of_ne hji] at hc
      exact ⟨⟨j, c, hj, hc, rfl⟩, fun he ↦ hji (hinj j c hc he)⟩
  · rw [hplayer]
    exact fun hs ↦ (h.dense hs).clearAll (hlast hs)

/-- The owner has left, seen by a member. -/
theorem Reflects.hand (h : Reflects strict name used owner v) {next : Seat}
    (hnext : used next = some k) (hne : next ≠ owner)
    (hinj : ∀ j c, used j = some c → name c = name k → j = next)
    (hlast : strict → ∀ a b, v.player a = name k → a < b → v.player b = []) :
    Reflects strict name (Function.update used owner none) next (v.hand (name k)) := by
  refine ⟨?_, ?_, fun hs ↦ (h.dense hs).clearAll (hlast hs)⟩
  · intro c hc
    rw [Function.update_of_ne hne, hnext] at hc
    cases hc
    rfl
  · refine (h.player.clearAll (name k)).congr fun w ↦ ?_
    constructor
    · rintro ⟨⟨j, c, hj, hc, rfl⟩, hw⟩
      have hjn : j ≠ next := by
        rintro rfl
        cases hnext.symm.trans hc
        exact hw rfl
      exact ⟨j, c, hjn, by rw [Function.update_of_ne hj]; exact hc, rfl⟩
    · rintro ⟨j, c, hj, hc, rfl⟩
      have hjo : j ≠ owner := by
        rintro rfl
        simp at hc
      rw [Function.update_of_ne hjo] at hc
      exact ⟨⟨j, c, hjo, hc, rfl⟩, fun he ↦ hj (hinj j c hc he)⟩

/-- A view shows its room: the name of the owner, and those of the other seats in use, each once. -/
structure Shows (name : ConnId → Text) (used : Seat → Option ConnId) (owner : Seat)
    (v : RoomView) : Prop where
  master : ∀ c, used owner = some c → v.master = name c
  once : v.printed.Nodup
  others : ∀ w, w ∈ v.printed ↔ Other name used owner w

/-- A view that is the room shows it when no hole stands before a name. -/
theorem Reflects.shows_iff (h : Reflects strict name used owner v) :
    Shows name used owner v ↔ Slots.Dense [] v.player := by
  rw [← h.player.front_iff]
  exact ⟨fun hs ↦ hs.others, fun hall ↦ ⟨h.master, h.player.nodup_front, hall⟩⟩

private theorem mapM_length {players : Seat → Option ConnId} {js : List Seat} {cs : List ConnId}
    (h : js.mapM (fun j ↦ players j) = some cs) : cs.length = js.length := by
  induction js generalizing cs with
  | nil =>
    cases h
    rfl
  | cons j js ih =>
    rw [List.mapM_cons] at h
    obtain ⟨d, hd, h⟩ := Option.bind_eq_some_iff.mp h
    obtain ⟨ds, hds, h⟩ := Option.bind_eq_some_iff.mp h
    cases h
    rw [List.length_cons, List.length_cons, ih hds]

/-- What a line `5` needs of the room: the thread's `used[]` are players, nobody sits on the last
place or on two, the names are different, and the owner and the new player are in the room. -/
structure Entering (name : ConnId → Text) (used players : Seat → Option ConnId) (owner i : Seat)
    (o k : ConnId) : Prop where
  listed : Listed used players fun _ ↦ False
  tenth : players 9 = none
  bound : count (fun j ↦ (players j).isSome) ≤ 9
  inj : ∀ i j c, players i = some c → players j = some c → i = j
  differ : Differ name fun c ↦ ∃ j, players j = some c
  owner : players owner = some o
  new : players i = some k
  pending : used i = none

/-- The words of a line `5`. -/
private theorem Entering.tokens {s : Parties} {r : RoomId} {o : ConnId} {line : Text}
    (h : Entering s.name used (s.room r).players owner i o k)
    (hline : s.enterLine r owner used = some line) : ∃ others : List ConnId,
    tokens (chop line) = ['5'] :: decimal r.val :: s.name o :: others.map s.name ∧
      others.length ≤ 9 ∧ others.Nodup ∧ (∀ c ∈ others, ∃ j, (s.room r).players j = some c) ∧
      ∀ c, c ∈ others ↔ ∃ j, j ≠ owner ∧ used j = some c := by
  obtain ⟨o', ho, hline⟩ := Option.bind_eq_some_iff.mp hline
  obtain ⟨others, hothers, hline⟩ := Option.bind_eq_some_iff.mp hline
  cases h.owner.symm.trans ho
  cases hline
  have hmem (c : ConnId) (hc : c ∈ others) : ∃ j, (s.room r).players j = some c := by
    obtain ⟨j, -, hj⟩ := (mapM_names hothers c).mp hc
    exact ⟨j, hj⟩
  refine ⟨others, ?_, ?_, mapM_nodup h.inj ((List.nodup_finRange 10).filter _) hothers, hmem, ?_⟩
  · apply tokens_line (by decide : IsField ['5'])
    intro w hw
    rcases List.mem_cons.mp hw with rfl | hw
    · exact isField_decimal _
    rcases List.mem_cons.mp hw with rfl | hw
    · exact h.differ.field o ⟨owner, h.owner⟩
    · obtain ⟨c, hc, rfl⟩ := List.mem_map.mp hw
      exact h.differ.field c (hmem c hc)
  · rw [mapM_length hothers]
    have hnine : ((List.finRange 10).filter fun j : Seat ↦ decide (j.val < 9)).length = 9 := by decide
    rw [← hnine]
    apply List.Sublist.length_le
    apply List.monotone_filter_right
    intro j hj
    simp only [decide_eq_true_eq] at hj ⊢
    exact hj.1
  · intro c
    rw [mapM_names hothers c]
    constructor
    · rintro ⟨j, hj, hc⟩
      obtain ⟨-, hj⟩ := List.mem_filter.mp hj
      obtain ⟨-, hu, hne⟩ := of_decide_eq_true hj
      obtain ⟨d, hd⟩ := Option.isSome_iff_exists.mp hu
      cases hc.symm.trans (h.listed j d not_false hd)
      exact ⟨j, hne, hd⟩
    · rintro ⟨j, hne, hc⟩
      have hplayer := h.listed j c not_false hc
      have hlt : j.val < 9 := by
        have hnot : j ≠ 9 := by
          rintro rfl
          rw [h.tenth] at hplayer
          cases hplayer
        have : j.val ≠ 9 := fun he ↦ hnot (Fin.ext he)
        omega
      refine ⟨j, List.mem_filter.mpr ⟨List.mem_finRange j, decide_eq_true ⟨hlt, ?_, hne⟩⟩, hplayer⟩
      rw [hc]
      rfl

/-- A new player sees the room it is let into. -/
theorem Entering.reflects {s : Parties} {r : RoomId} {o : ConnId} {line : Text}
    (h : Entering s.name used (s.room r).players owner i o k)
    (hline : s.enterLine r owner used = some line) (strict : Prop) :
    ∃ v, RoomView.enter (s.name k) line = some v ∧
      Reflects strict s.name (Function.update used i (some k)) owner v := by
  obtain ⟨others, htokens, hlen, hnodup, hmem, hothers⟩ := h.tokens hline
  have hfree : [] ∉ others.map s.name := by
    intro hnil
    obtain ⟨c, hc, hn⟩ := List.mem_map.mp hnil
    exact (h.differ.field c (hmem c hc)).1.1 hn
  have hnames : (others.map s.name).Nodup := by
    apply List.Nodup.map_on _ hnodup
    intro c hc d hd he
    exact h.differ.inj c d (hmem c hc) (hmem d hd) he
  have hlists : Slots.Lists [] (Slots.ofList [] (others.map s.name) : Fin 9 → Text)
      (Other s.name used owner) := by
    refine (Slots.lists_ofList hnames hfree (by rw [List.length_map]; exact hlen)).congr fun w ↦ ?_
    rw [List.mem_map]
    constructor
    · rintro ⟨c, hc, rfl⟩
      obtain ⟨j, hne, hu⟩ := (hothers c).mp hc
      exact ⟨j, c, hne, hu, rfl⟩
    · rintro ⟨j, c, hne, hu, rfl⟩
      exact ⟨c, (hothers c).mpr ⟨j, hne, hu⟩, rfl⟩
  have hdense : Slots.Dense [] (Slots.ofList [] (others.map s.name) : Fin 9 → Text) :=
    Slots.dense_ofList hfree
  unfold RoomView.enter
  rw [htokens]
  dsimp only
  rw [if_pos (by rw [List.length_map]; exact hlen)]
  refine ⟨_, rfl, ?_⟩
  by_cases hio : i = owner
  · -- the owner itself
    subst hio
    cases h.owner.symm.trans h.new
    rw [if_pos rfl]
    refine ⟨?_, ?_, fun _ ↦ hdense⟩
    · intro c hc
      rw [Function.update_self] at hc
      cases hc
      rfl
    · refine hlists.congr fun w ↦ ?_
      constructor
      · rintro ⟨j, c, hj, hc, rfl⟩
        exact ⟨j, c, hj, by rw [Function.update_of_ne hj]; exact hc, rfl⟩
      · rintro ⟨j, c, hj, hc, rfl⟩
        rw [Function.update_of_ne hj] at hc
        exact ⟨j, c, hj, hc, rfl⟩
  · have hne : s.name k ≠ s.name o := by
      intro he
      cases h.differ.inj k o ⟨i, h.new⟩ ⟨owner, h.owner⟩ he
      exact hio (h.inj _ _ _ h.new h.owner)
    have hnew : ¬ Other s.name used owner (s.name k) := by
      rintro ⟨j, c, -, hc, he⟩
      have hj := h.listed j c not_false hc
      cases h.differ.inj c k ⟨j, hj⟩ ⟨i, h.new⟩ he
      cases h.inj _ _ _ hj h.new
      rw [h.pending] at hc
      cases hc
    have hword : s.name k ≠ [] := (h.differ.field k ⟨i, h.new⟩).1.1
    have hhole := exists_hole hlists (card_others h.listed h.bound (by rw [h.owner]; rfl)
      (by rw [h.new]; rfl) h.pending hio)
    rw [if_neg hne]
    refine ⟨?_, ?_, fun _ ↦ hdense.put hword hhole⟩
    · intro c hc
      rw [Function.update_of_ne (Ne.symm hio)] at hc
      cases h.owner.symm.trans (h.listed owner c not_false hc)
      rfl
    · exact (hlists.put hnew hword hhole).congr fun w ↦ (other_update h.pending hio w).symm

/-- A line `5` is read. -/
theorem hear_enterLine {s : Parties} {r : RoomId} {line : Text}
    (hline : s.enterLine r owner used = some line) (myId : Text) (v : Option RoomView) :
    RoomView.hear myId line v = RoomView.enter myId line := by
  obtain ⟨o', -, hline⟩ := Option.bind_eq_some_iff.mp hline
  obtain ⟨others, -, hline⟩ := Option.bind_eq_some_iff.mp hline
  cases hline
  rfl

/-! ### Lines to several -/

/-- The views after lines of rooms. -/
def hearAll (name : ConnId → Text) (lines : List Sent) (view : ConnId → Option RoomView) :
    ConnId → Option RoomView :=
  lines.foldl (fun view p ↦ Function.update view p.1 (RoomView.hear (name p.1) p.2 (view p.1))) view

theorem hearAll_append (name : ConnId → Text) (as bs : List Sent) (view : ConnId → Option RoomView) :
    hearAll name (as ++ bs) view = hearAll name bs (hearAll name as view) := List.foldl_append

variable {view : ConnId → Option RoomView} {who : Option Seat} {line : Text}

/-- Who is not written to sees nothing new. -/
theorem hearAll_of_notMem {lines : List Sent} (h : ∀ p ∈ lines, p.1 ≠ c) :
    hearAll name lines view c = view c := by
  induction lines generalizing view with
  | nil => rfl
  | cons p lines ih =>
    have hrest : hearAll name lines
        (Function.update view p.1 (RoomView.hear (name p.1) p.2 (view p.1))) c =
        Function.update view p.1 (RoomView.hear (name p.1) p.2 (view p.1)) c :=
      ih fun q hq ↦ h q (List.mem_cons_of_mem p hq)
    rw [Function.update_of_ne (h p List.mem_cons_self).symm] at hrest
    exact hrest

private theorem mem_sends {js : List Seat} {p : Sent}
    (hp : p ∈ js.filterMap fun i ↦
      if who = some i then none else (used i).map fun k ↦ (k, line)) :
    ∃ j ∈ js, who ≠ some j ∧ used j = some p.1 := by
  obtain ⟨j, hj, hp⟩ := List.mem_filterMap.mp hp
  split at hp
  · cases hp
  · next hwho =>
    obtain ⟨k, hk, rfl⟩ := Option.map_eq_some_iff.mp hp
    exact ⟨j, hj, hwho, hk⟩

/-- A line to everyone else does not reach those who are not in the room. -/
theorem hearAll_untold (h : ∀ j, who ≠ some j → used j ≠ some c) :
    hearAll name (sendToEveryone who line used) view c = view c := by
  apply hearAll_of_notMem
  rintro p hp rfl
  obtain ⟨j, -, hwho, hu⟩ := mem_sends hp
  exact h j hwho hu

/-- A line to everyone else is read once by each of them. -/
theorem hearAll_told {j : Seat} (hwho : who ≠ some j) (hj : used j = some c)
    (hone : ∀ i, who ≠ some i → used i = some c → i = j) :
    hearAll name (sendToEveryone who line used) view c = RoomView.hear (name c) line (view c) := by
  obtain ⟨pre, post, hsplit⟩ := List.append_of_mem (List.mem_finRange j)
  have hnodup := List.nodup_finRange 10
  rw [hsplit, List.nodup_append] at hnodup
  obtain ⟨-, hpost, hpre⟩ := hnodup
  unfold sendToEveryone
  rw [hsplit, List.filterMap_append, List.filterMap_cons]
  simp only [if_neg hwho, hj, Option.map_some]
  rw [hearAll_append]
  -- nobody else is this connection
  have hafter (view : ConnId → Option RoomView) : hearAll name (post.filterMap fun i ↦
      if who = some i then none else (used i).map fun k ↦ (k, line)) view c = view c := by
    apply hearAll_of_notMem
    rintro p hp rfl
    obtain ⟨i, hi, hw, hu⟩ := mem_sends hp
    exact (List.nodup_cons.mp hpost).1 (hone i hw hu ▸ hi)
  have hbefore : hearAll name (pre.filterMap fun i ↦
      if who = some i then none else (used i).map fun k ↦ (k, line)) view c = view c := by
    apply hearAll_of_notMem
    rintro p hp rfl
    obtain ⟨i, hi, hw, hu⟩ := mem_sends hp
    exact hpre i hi j List.mem_cons_self (hone i hw hu)
  change hearAll name (post.filterMap _) (Function.update _ c _) c = _
  rw [hafter, Function.update_self, hbefore]

/-! ### Letting players in -/

namespace Parties

/-- The views while players are let in: those who have been see the room. -/
structure Entered (s : Parties) (r : RoomId) (strict : Prop) (view : ConnId → Option RoomView)
    (acc : (Seat → Option ConnId) × List Sent) : Prop where
  listed : Listed acc.1 (s.room r).players fun _ ↦ False
  shown : ∀ i k, acc.1 i = some k → ∃ v, hearAll s.name acc.2 view k = some v ∧
    Reflects strict s.name acc.1 (s.thread r).owner v
  others : ∀ c, (∀ i, (s.room r).players i ≠ some c) → hearAll s.name acc.2 view c = view c

/-- What a room keeps to while players are let in. -/
structure Orderly (s : Parties) (r : RoomId) : Prop where
  tenth : (s.room r).players 9 = none
  bound : count (fun j ↦ ((s.room r).players j).isSome) ≤ 9
  inj : ∀ i j c, (s.room r).players i = some c → (s.room r).players j = some c → i = j
  differ : Differ s.name fun c ↦ ∃ j, (s.room r).players j = some c

variable {s : Parties} {r : RoomId}

/-- A player is let in. -/
private theorem letInSeat_entered {acc acc' : (Seat → Option ConnId) × List Sent} {i : Seat}
    (hs : s.Orderly r) (h : s.letInSeat r (s.thread r).owner acc i = some acc')
    (howner : (acc.1 (s.thread r).owner).isSome ∨ (s.thread r).owner = i ∧ ∀ j, acc.1 j = none)
    (hplayer : ((s.room r).players (s.thread r).owner).isSome)
    (hacc : s.Entered r strict view acc) : s.Entered r strict view acc' := by
  have hlisted := letInSeat_listed h hacc.listed
  unfold letInSeat at h
  split at h
  · cases h
    exact hacc
  next k hk =>
  split at h
  case isFalse =>
    cases h
    exact hacc
  case isTrue hnew =>
  obtain ⟨line, hline, h⟩ := Option.bind_eq_some_iff.mp h
  cases h
  obtain ⟨o, ho⟩ := Option.isSome_iff_exists.mp hplayer
  have hentering : Entering s.name acc.1 (s.room r).players (s.thread r).owner i o k :=
    ⟨hacc.listed, hs.tenth, hs.bound, hs.inj, hs.differ, ho, hk, hnew.2⟩
  obtain ⟨v, hv, hreflects⟩ := hentering.reflects hline strict
  have hword := hs.differ.field k ⟨i, hk⟩
  -- the new player is nowhere else
  have hother (j : Seat) (hj : j ≠ i) : acc.1 j ≠ some k := by
    intro hu
    exact hj (hs.inj _ _ _ (hacc.listed j k not_false hu) hk)
  have hviews (c : ConnId) : hearAll s.name (acc.2 ++ (k, line) ::
      sendToEveryone (some i) (line1 ['6'] (s.name k)) (Function.update acc.1 i (some k))) view c =
      hearAll s.name (sendToEveryone (some i) (line1 ['6'] (s.name k))
        (Function.update acc.1 i (some k))) (Function.update (hearAll s.name acc.2 view) k
          (RoomView.enter (s.name k) line)) c := by
    rw [hearAll_append]
    unfold hearAll
    rw [List.foldl_cons]
    dsimp only
    rw [hear_enterLine hline]
  refine ⟨hlisted, ?_, ?_⟩
  · intro j c hc
    dsimp only at hc ⊢
    rw [hviews c]
    by_cases hji : j = i
    · rw [hji, Function.update_self] at hc
      cases hc
      refine ⟨v, ?_, hreflects⟩
      rw [hearAll_untold, Function.update_self, hv]
      intro j' hj' hu
      have hne : j' ≠ i := fun he ↦ hj' (by rw [he])
      rw [Function.update_of_ne hne] at hu
      exact hother j' hne hu
    · rw [Function.update_of_ne hji] at hc
      have hck : c ≠ k := by
        rintro rfl
        exact hother j hji hc
      obtain ⟨w, hw, hold⟩ := hacc.shown j c hc
      have hne : i ≠ (s.thread r).owner := by
        rintro rfl
        rcases howner with hin | ⟨-, hnone⟩
        · rw [hnew.2] at hin
          cases hin
        · rw [hnone j] at hc
          cases hc
      refine ⟨w.arrive (s.name k), ?_, ?_⟩
      · rw [hearAll_told (j := j) (by simp [Ne.symm hji]) (by rw [Function.update_of_ne hji]; exact hc),
          Function.update_of_ne hck, hw, hear_arrive _ hword.2]
        intro j' hj' hu
        have hne' : j' ≠ i := fun he ↦ hj' (by rw [he])
        rw [Function.update_of_ne hne'] at hu
        exact hs.inj _ _ _ (hacc.listed j' c not_false hu) (hacc.listed j c not_false hc)
      · refine hold.arrive hnew.2 hne ?_ hword.1.1
          (card_others hacc.listed hs.bound hplayer (by rw [hk]; rfl) hnew.2 hne)
        rintro ⟨j', c', -, hc', he⟩
        have hp := hacc.listed j' c' not_false hc'
        cases hs.differ.inj c' k ⟨j', hp⟩ ⟨i, hk⟩ he
        cases hs.inj _ _ _ hp hk
        rw [hnew.2] at hc'
        cases hc'
  · intro c hc
    have hck : c ≠ k := by
      rintro rfl
      exact hc i hk
    dsimp only
    rw [hviews c, hearAll_untold, Function.update_of_ne hck, hacc.others c hc]
    intro j hj hu
    have hne : j ≠ i := fun he ↦ hj (by rw [he])
    rw [Function.update_of_ne hne] at hu
    exact hc j (hacc.listed j c not_false hu)

/-- Everybody who has been let in sees the room. -/
theorem letIn_entered {is pre : List Seat} {acc acc' : (Seat → Option ConnId) × List Sent}
    (hs : s.Headed) (hpc : (s.thread r).pc = .letIn) (hord : s.Orderly r)
    (hsplit : List.finRange 10 = pre ++ is)
    (hpre : pre.foldlM (s.letInSeat r (s.thread r).owner) ((s.thread r).used, []) = some acc)
    (h : is.foldlM (s.letInSeat r (s.thread r).owner) acc = some acc')
    (hacc : s.Entered r strict view acc) : s.Entered r strict view acc' := by
  induction is generalizing pre acc with
  | nil =>
    cases h
    exact hacc
  | cons i is ih =>
    rw [List.foldlM_cons] at h
    obtain ⟨mid, hmid, h⟩ := Option.bind_eq_some_iff.mp h
    obtain ⟨howner, hplayer⟩ := hs.entered hpc hsplit hpre
    have hsplit' : List.finRange 10 = (pre ++ [i]) ++ is := by
      rw [hsplit, List.append_assoc]
      rfl
    refine ih hsplit' ?_ h (letInSeat_entered hord hmid howner hplayer hacc)
    rw [List.foldlM_append, hpre]
    change [i].foldlM (s.letInSeat r (s.thread r).owner) acc = some mid
    rw [List.foldlM_cons, hmid]
    rfl

end Parties

end Unpv13e.Server
