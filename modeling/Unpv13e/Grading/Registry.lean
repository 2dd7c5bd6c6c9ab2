import Unpv13e.Base.Ledger
import Unpv13e.Base.Runs
import Unpv13e.Base.Sscanf
import Unpv13e.Base.Slots
import Unpv13e.Libgai.InetNtop

/-!
# The registry of the grading server

Library `Grading`. `src/tcpcliserv/hw4_teacher.c:7–57,140–258`: a student registers with a datagram of code 11 and is
told how many connections will be made, and a datagram of code 13 has them made. The action of a step is the datagram
with its sender, what `rand` gives and what `create_TCP_connections` returns; a call of it that does not return is
the last entry of the log. `student_id` and `recvline` are arrays of fixed size, and beyond their end the step is
undefined. What is printed to the log files is left out.
-/

namespace Unpv13e.Grading
open Unpv13e.Base Ledger Sscanf Slots
open Unpv13e.Libgai (InAddr dottedQuad length_dottedQuad inetAddrstrlen)

/-- `MAX_ID_LEN` -/
def maxIdLen : Nat := 12

/-- `MAX_CLIENT` -/
def maxClient : Nat := 200

/-- `MAXLINE` -/
def maxline : Nat := 4096

/-- `enum State` -/
inductive State
  | none
  | first
  | second
  deriving DecidableEq, Repr

/-- `struct client_db` -/
structure Client where
  id : Text
  TCP_servaddr : Text
  state : State
  nconnt : Int
  deriving DecidableEq

/-- What the server does that others can see, and the registrations it accepts. -/
inductive Event
  /-- a registration is stored, lines 188–190 -/
  | accepted (id TCP_servaddr : Text) (nconnt : Int)
  /-- `Sendto` -/
  | sent (cliaddr : InAddr) (buff : Text)
  /-- the call of `create_TCP_connections`; a port that `sscanf` has not stored is `none` -/
  | created (id TCP_servaddr : Text) (nconnt : Int) (TCP_servport : Option Int)
  deriving DecidableEq

/-- `clients`, `min_loc` of `find_first`, and what has been done so far. -/
structure Registry where
  clients : Fin maxClient → Client
  min_loc : Nat
  log : List Event

/-- A datagram and its sender, the next value of `rand` and the result of `create_TCP_connections`. -/
structure Request where
  datagram : Text
  cliaddr : InAddr
  rand : Nat
  result : Int

/-- The string in `recvline` after the terminator is stored. -/
def recvline (datagram : Text) : Text := datagram.takeWhile (· ≠ Char.ofNat 0)

/-- What `snprintf` writes for `"%d %s %s"`. -/
def answer (nconnt : Int) (id TCP_servaddr : Text) : Text :=
  decimal nconnt ++ ' ' :: id ++ ' ' :: TCP_servaddr

/-- The array is zero before the first request. -/
def start : Registry := ⟨fun _ ↦ ⟨[], [], .none, 0⟩, 0, []⟩

namespace Registry

/-- One more event. -/
def add (e : Event) (s : Registry) : Registry := { s with log := s.log ++ [e] }

/-- An entry of `clients` changes. -/
def set (index : Fin maxClient) (c : Client) (s : Registry) : Registry :=
  { s with clients := Function.update s.clients index c }

/-- `find_index`, lines 24–34; −1 is `none`. -/
def find_index (s : Registry) (id : Text) : Option (Fin maxClient) :=
  (List.finRange maxClient).find? fun i ↦ id = (s.clients i).id

/-- `find_first`, lines 36–57. -/
def find_first (s : Registry) (id : Text) : Registry × Option (Fin maxClient) :=
  match s.find_index id with
  | some loc => (s, some loc)
  | none =>
    if h : s.min_loc < maxClient then
      let loc : Fin maxClient := ⟨s.min_loc, h⟩
      ({ s.set loc { s.clients loc with id := id } with min_loc := s.min_loc + 1 }, some loc)
    else (s, none)

/-- Lines 188–190. -/
def accept (s : Registry) (index : Fin maxClient) (id TCP_servaddr : Text) (nconnt : Int) : Registry :=
  (s.set index { s.clients index with TCP_servaddr, state := .first, nconnt }).add (.accepted id TCP_servaddr nconnt)

/-- `get_udp_client` for code 11, lines 166–205. -/
def firstSegment (s : Registry) (r : Request) (student_id TCP_servIP_got : Text) : Registry :=
  let TCP_servaddr := dottedQuad r.cliaddr
  if TCP_servaddr ≠ TCP_servIP_got then s.add (.sent r.cliaddr (answer 99 student_id TCP_servaddr))
  else
    match s.find_first student_id with
    | (t, some index) =>
      let nconnt : Int := (r.rand % 10 : Nat) + 1
      (t.accept index student_id TCP_servaddr nconnt).add (.sent r.cliaddr (answer nconnt student_id TCP_servaddr))
    | (t, none) => t.add (.sent r.cliaddr (answer 98 student_id TCP_servaddr))

/-- `get_udp_client` for code 13, lines 206–256. -/
def secondSegment (s : Registry) (r : Request) (student_id TCP_servIP_got : Text) : Registry :=
  let TCP_servaddr := dottedQuad r.cliaddr
  let TCP_servport := (scanInt TCP_servIP_got).map (·.1)
  match s.find_index student_id with
  | none => s
  | some index =>
    if (s.clients index).state ≠ .first then s
    else if TCP_servaddr ≠ (s.clients index).TCP_servaddr then s
    else
      let nconnt := (s.clients index).nconnt
      ((s.set index { s.clients index with state := .second }).add
        (.created student_id TCP_servaddr nconnt TCP_servport)).add
          (.sent r.cliaddr (if r.result = -1 then "nak".toList else "ok".toList))

/-- `get_udp_client`, lines 140–258. A third field that is missing does not undo the stores of the first two. -/
def get_udp_client (s : Registry) (r : Request) : Except Stop Registry :=
  if min r.datagram.length maxline = maxline then .error .outOfBounds
  else
    match scanInt (recvline r.datagram) with
    | none => .ok s
    | some (code, rest) =>
      match scanWord rest with
      | none => .ok s
      | some (student_id, rest) =>
        if student_id.length ≥ maxIdLen then .error .outOfBounds
        else
          match scanWord rest with
          | none => .ok s
          | some (TCP_servIP_got, _) =>
            if code = 11 then .ok (s.firstSegment r student_id TCP_servIP_got)
            else if code = 13 then .ok (s.secondSegment r student_id TCP_servIP_got)
            else .ok s

end Registry

/-! ### What is asked of the registry -/

/-- The registrations and the calls of an id. -/
def Event.Of (id : Text) : Event → Prop
  | .accepted id' _ _ | .created id' _ _ _ => id' = id
  | .sent _ _ => False

/-- The last accepted registration of an id came from this address and was answered with this count, and no call has
been made for the id since. -/
def Current (id TCP_servaddr : Text) (nconnt : Int) (log : List Event) : Prop :=
  ∃ cliaddr, TCP_servaddr = dottedQuad cliaddr ∧
    Stands (Event.Of id) [.accepted id TCP_servaddr nconnt, .sent cliaddr (answer nconnt id TCP_servaddr)] log

/-- What a call of `create_TCP_connections` needs. -/
def Warrants (before : List Event) : Event → Prop
  | .created id TCP_servaddr nconnt _ => (1 ≤ nconnt ∧ nconnt ≤ 10) ∧ Current id TCP_servaddr nconnt before
  | _ => True

namespace Registry

/-- A registration with this id has been accepted. -/
def Accepted (s : Registry) (id : Text) : Prop :=
  ∃ TCP_servaddr nconnt, Event.accepted id TCP_servaddr nconnt ∈ s.log

/-- The ids in the table are those of the accepted registrations, each once and in full, in the first `min_loc`
entries; and every call of `create_TCP_connections` was warranted. -/
structure Sound (s : Registry) : Prop where
  ids : Lists [] (fun i ↦ (s.clients i).id) s.Accepted
  occupied : ∀ i, (s.clients i).id ≠ [] ↔ i.val < s.min_loc
  registered : ∀ i, (s.clients i).state ≠ .none ↔ i.val < s.min_loc
  bound : s.min_loc ≤ maxClient
  calls : Justified Warrants s.log

/-- An entry in the state `FIRST` is the registration of its id. -/
def Awaiting (s : Registry) : Prop :=
  ∀ i, (s.clients i).state = .first → (1 ≤ (s.clients i).nconnt ∧ (s.clients i).nconnt ≤ 10) ∧
    Current (s.clients i).id (s.clients i).TCP_servaddr (s.clients i).nconnt s.log

end Registry

/-- The id that `sscanf` stores, also when a field after it is missing. -/
def scannedId (line : Text) : Option Text :=
  (scanInt line).bind fun field ↦ (scanWord field.2).map (·.1)

/-- The datagram and its id have room for their terminators. -/
structure Request.Fits (r : Request) : Prop where
  datagram : r.datagram.length < maxline
  student_id : ∀ id, scannedId (recvline r.datagram) = some id → id.length < maxIdLen

namespace Registry

variable {s t : Registry} {r : Request} {id TCP_servaddr got : Text} {nconnt : Int} {i index : Fin maxClient}

/-! ### The table -/

/-- An entry that is found has the id. -/
theorem of_find_index (h : s.find_index id = some i) : (s.clients i).id = id := by
  have := List.find?_some h
  exact (of_decide_eq_true this).symm

/-- No entry is found when none has the id. -/
theorem find_index_eq_none : s.find_index id = none ↔ ∀ i, (s.clients i).id ≠ id := by
  unfold find_index
  rw [List.find?_eq_none]
  constructor
  · intro h i he
    exact h i (List.mem_finRange i) (decide_eq_true he.symm)
  · intro h i _ he
    exact h i (of_decide_eq_true he).symm

/-- Where a registration goes: to the entry of its id, or to the first one that is not occupied. -/
inductive Place (s : Registry) (id : Text) (index : Fin maxClient) (t : Registry) : Prop
  | old (hid : (s.clients index).id = id) (ht : t = s)
  | new (habsent : ∀ i, (s.clients i).id ≠ id) (hindex : index.val = s.min_loc)
      (ht : t = { s.set index { s.clients index with id := id } with min_loc := s.min_loc + 1 })

/-- What `find_first` returns when it finds a place. -/
theorem place_of_find_first (h : s.find_first id = (t, some index)) : Place s id index t := by
  unfold find_first at h
  cases hfind : s.find_index id with
  | some loc =>
    rw [hfind] at h
    cases h
    exact .old (of_find_index hfind) rfl
  | none =>
    rw [hfind] at h
    dsimp only at h
    split at h
    · cases h
      exact .new (find_index_eq_none.mp hfind) rfl rfl
    · cases h

/-- Nothing is stored when there is no place. -/
theorem eq_of_find_first (h : s.find_first id = (t, none)) : t = s := by
  unfold find_first at h
  cases hfind : s.find_index id with
  | some loc =>
    rw [hfind] at h
    cases h
  | none =>
    rw [hfind] at h
    dsimp only at h
    split at h
    · cases h
    · cases h
      rfl

/-- The occupied entries after one has been stored are those before and the one stored. -/
private theorem occupied_update {p : Client → Prop} {clients : Fin maxClient → Client} {c : Client} {m m' : Nat}
    (h : ∀ i, p (clients i) ↔ i.val < m) (hc : p c) (hm : ∀ i : Fin maxClient, i.val < m' ↔ i.val < m ∨ i = index)
    (i : Fin maxClient) : p (Function.update clients index c i) ↔ i.val < m' := by
  rw [hm i]
  by_cases hi : i = index
  · rw [hi, Function.update_self]
    exact iff_of_true hc (.inr rfl)
  · rw [Function.update_of_ne hi, h i]
    exact ⟨.inl, fun hor ↦ hor.resolve_right hi⟩

/-! ### What is accepted -/

/-- A reply accepts nothing. -/
theorem accepted_sent {cliaddr : InAddr} {buff : Text} : (s.add (.sent cliaddr buff)).Accepted = s.Accepted := by
  funext w
  simp [Accepted, add]

/-- A call accepts nothing. -/
theorem accepted_created {port : Option Int} :
    (s.add (.created id TCP_servaddr nconnt port)).Accepted = s.Accepted := by
  funext w
  simp [Accepted, add]

/-- A registration accepts its id. -/
theorem accepted_accept (w : Text) :
    (s.accept index id TCP_servaddr nconnt).Accepted w ↔ s.Accepted w ∨ w = id := by
  unfold Accepted accept add set
  constructor
  · rintro ⟨addr, n, hmem⟩
    rcases List.mem_append.mp hmem with hold | hnew
    · exact .inl ⟨addr, n, hold⟩
    · cases List.mem_singleton.mp hnew
      exact .inr rfl
  · rintro (⟨addr, n, hold⟩ | rfl)
    · exact ⟨addr, n, List.mem_append_left _ hold⟩
    · exact ⟨TCP_servaddr, nconnt, List.mem_append_right _ (List.mem_singleton.mpr rfl)⟩

/-! ### Code 11 -/

/-- A reply keeps the registry sound. -/
theorem Sound.sent (h : s.Sound) (cliaddr : InAddr) (buff : Text) : (s.add (.sent cliaddr buff)).Sound where
  ids := by
    rw [accepted_sent]
    exact h.ids
  occupied := h.occupied
  registered := h.registered
  bound := h.bound
  calls := h.calls.concat True.intro

/-- A reply revokes no registration. -/
theorem Awaiting.sent (h : s.Awaiting) (cliaddr : InAddr) (buff : Text) : (s.add (.sent cliaddr buff)).Awaiting := by
  intro i hi
  obtain ⟨hcount, sender, haddr, hstands⟩ := h i hi
  refine ⟨hcount, sender, haddr, hstands.append fun e he ↦ ?_⟩
  cases List.mem_singleton.mp he
  exact not_false

/-- An entry in the state `FIRST` has an id. -/
theorem Sound.id_ne_nil (h : s.Sound) (hi : (s.clients i).state ≠ .none) : (s.clients i).id ≠ [] :=
  (h.occupied i).mpr ((h.registered i).mp hi)

/-- The entry of a registration, and nothing else, changes. -/
private theorem Place.clients_accept (h : Place s id index t) :
    (t.accept index id TCP_servaddr nconnt).clients =
      Function.update s.clients index ⟨id, TCP_servaddr, .first, nconnt⟩ := by
  cases h with
  | old hid ht =>
    subst ht hid
    rfl
  | new habsent hindex ht =>
    subst ht
    unfold accept add set
    dsimp only
    rw [Function.update_self, Function.update_idem]

/-- The log of a registration. -/
private theorem Place.log_eq (h : Place s id index t) : t.log = s.log := by
  cases h with
  | old hid ht => rw [ht]
  | new habsent hindex ht => rw [ht]; rfl

/-- The entries up to the place of a registration. -/
private theorem Sound.lt_iff (h : s.Sound) (hne : id ≠ []) (hplace : Place s id index t) (i : Fin maxClient) :
    i.val < t.min_loc ↔ i.val < s.min_loc ∨ i = index := by
  cases hplace with
  | old hid ht =>
    subst ht
    refine ⟨.inl, ?_⟩
    rintro (hlt | rfl)
    · exact hlt
    · exact (h.occupied i).mp (hid ▸ hne)
  | new habsent hindex ht =>
    subst ht
    rw [Fin.ext_iff, hindex]
    exact Nat.lt_succ_iff_lt_or_eq

/-- The ids after a registration are those before and its own. -/
private theorem Sound.ids_accept (h : s.Sound) (hne : id ≠ []) (hplace : Place s id index t) :
    Lists [] (fun i ↦ ((t.accept index id TCP_servaddr nconnt).clients i).id)
      (t.accept index id TCP_servaddr nconnt).Accepted := by
  have hids : (fun i ↦ ((t.accept index id TCP_servaddr nconnt).clients i).id) =
      Function.update (fun i ↦ (s.clients i).id) index id := by
    rw [hplace.clients_accept]
    exact Function.comp_update Client.id s.clients index _
  have hlog : t.Accepted = s.Accepted := by
    unfold Accepted
    rw [hplace.log_eq]
  rw [hids]
  cases hplace with
  | old hid ht =>
    subst hid
    rw [Function.update_eq_self]
    refine h.ids.congr fun w ↦ ?_
    rw [accepted_accept, hlog]
    refine ⟨.inl, ?_⟩
    rintro (hw | rfl)
    · exact hw
    · exact h.ids.sound index hne
  | new habsent hindex ht =>
    have hhole : (s.clients index).id = [] := by
      by_contra hocc
      have := (h.occupied index).mp hocc
      omega
    have hnot : ¬s.Accepted id := by
      intro hacc
      obtain ⟨i, hi⟩ := h.ids.complete id hacc
      exact habsent i hi
    refine (h.ids.fill hnot hne hhole).congr fun w ↦ ?_
    rw [accepted_accept, hlog]

/-- A registration is stored in full, under its id or as a new entry. -/
theorem Sound.accept (h : s.Sound) (hne : id ≠ []) (hplace : Place s id index t) :
    (t.accept index id TCP_servaddr nconnt).Sound where
  ids := h.ids_accept hne hplace
  occupied := by
    have hlt := h.lt_iff hne hplace
    rw [hplace.clients_accept]
    exact occupied_update (p := fun c ↦ c.id ≠ []) h.occupied hne hlt
  registered := by
    have hlt := h.lt_iff hne hplace
    rw [hplace.clients_accept]
    exact occupied_update (p := fun c ↦ c.state ≠ .none) h.registered (nofun) hlt
  bound := by
    cases hplace with
    | old hid ht => rw [ht]; exact h.bound
    | new habsent hindex ht =>
      subst ht
      have := index.isLt
      change s.min_loc + 1 ≤ maxClient
      omega
  calls := by
    change Justified Warrants (t.log ++ [_])
    rw [hplace.log_eq]
    exact h.calls.concat True.intro

/-- A registration is the current one of its id once it is answered, and those of other ids stay. -/
theorem Awaiting.accept (h : s.Awaiting) (hs : s.Sound) (hplace : Place s id index t) {cliaddr : InAddr}
    (hcount : 1 ≤ nconnt ∧ nconnt ≤ 10) :
    ((t.accept index id (dottedQuad cliaddr) nconnt).add
      (.sent cliaddr (answer nconnt id (dottedQuad cliaddr)))).Awaiting := by
  have hlog : (t.log ++ [.accepted id (dottedQuad cliaddr) nconnt]) ++
      [.sent cliaddr (answer nconnt id (dottedQuad cliaddr))] = s.log ++
        [.accepted id (dottedQuad cliaddr) nconnt, .sent cliaddr (answer nconnt id (dottedQuad cliaddr))] := by
    rw [hplace.log_eq, List.append_assoc]
    rfl
  unfold Awaiting add
  dsimp only
  rw [hplace.clients_accept]
  change ∀ i, _ → _ ∧ Current _ _ _ ((t.log ++ [_]) ++ [_])
  rw [hlog]
  intro i hi
  by_cases hidx : i = index
  · rw [hidx, Function.update_self]
    exact ⟨hcount, cliaddr, rfl, stands_append _ _ _⟩
  · rw [Function.update_of_ne hidx] at hi ⊢
    have hother : (s.clients i).id ≠ id := by
      cases hplace with
      | old hid ht =>
        intro he
        refine hidx (hs.ids.once i index (hs.id_ne_nil ?_) (he.trans hid.symm))
        rw [hi]
        nofun
      | new habsent hindex ht => exact habsent i
    obtain ⟨hcount, sender, haddr, hstands⟩ := h i hi
    refine ⟨hcount, sender, haddr, hstands.append fun e he hof ↦ ?_⟩
    rcases List.mem_cons.mp he with rfl | he
    · exact hother hof.symm
    · cases List.mem_singleton.mp he
      exact hof

/-- A request of code 11 keeps the registry sound. -/
theorem Sound.firstSegment (h : s.Sound) (hawait : s.Awaiting) (hne : id ≠ []) :
    (s.firstSegment r id got).Sound ∧ (s.firstSegment r id got).Awaiting := by
  unfold Registry.firstSegment
  dsimp only
  split
  · exact ⟨h.sent _ _, hawait.sent _ _⟩
  · cases hfind : s.find_first id with
    | mk t index =>
      cases index with
      | none =>
        rw [eq_of_find_first hfind]
        exact ⟨h.sent _ _, hawait.sent _ _⟩
      | some index =>
        have hplace := place_of_find_first hfind
        have hmod := Nat.mod_lt r.rand (by decide : 0 < 10)
        exact ⟨(h.accept hne hplace).sent _ _, hawait.accept h hplace (by omega)⟩

/-! ### Code 13 -/

/-- The occupied entries with one that is occupied already. -/
private theorem Sound.lt_iff_of_registered (h : s.Sound) (hi : (s.clients i).state ≠ .none) (j : Fin maxClient) :
    j.val < s.min_loc ↔ j.val < s.min_loc ∨ j = i := by
  refine ⟨.inl, ?_⟩
  rintro (hlt | rfl)
  · exact hlt
  · exact (h.registered j).mp hi

/-- A call changes neither the ids nor who is registered. -/
theorem Sound.created (h : s.Sound) (hi : (s.clients i).state ≠ .none) {port : Option Int}
    (hcall : Warrants s.log (.created id TCP_servaddr nconnt port)) :
    ((s.set i { s.clients i with state := .second }).add (.created id TCP_servaddr nconnt port)).Sound where
  ids := by
    have hids : (fun j ↦ (Function.update s.clients i { s.clients i with state := .second } j).id) =
        fun j ↦ (s.clients j).id :=
      (Function.comp_update Client.id s.clients i _).trans (Function.update_eq_self i _)
    rw [accepted_created]
    change Lists [] (fun j ↦ (Function.update s.clients i { s.clients i with state := .second } j).id) s.Accepted
    rw [hids]
    exact h.ids
  occupied := occupied_update (p := fun c ↦ c.id ≠ []) h.occupied (h.id_ne_nil hi) (h.lt_iff_of_registered hi)
  registered := occupied_update (p := fun c ↦ c.state ≠ .none) h.registered (nofun) (h.lt_iff_of_registered hi)
  bound := h.bound
  calls := h.calls.concat hcall

/-- A call uses up the registration of its id, and those of other ids stay. -/
theorem Awaiting.created (h : s.Awaiting) (hs : s.Sound) {port : Option Int} :
    ((s.set i { s.clients i with state := .second }).add
      (.created (s.clients i).id TCP_servaddr nconnt port)).Awaiting := by
  intro j hj
  by_cases hji : j = i
  · subst hji
    change (Function.update s.clients j _ j).state = .first at hj
    rw [Function.update_self] at hj
    cases hj
  · have hsame : ((s.set i { s.clients i with state := .second }).add
        (.created (s.clients i).id TCP_servaddr nconnt port)).clients j = s.clients j := Function.update_of_ne hji _ _
    rw [hsame] at hj ⊢
    obtain ⟨hcount, sender, haddr, hstands⟩ := h j hj
    refine ⟨hcount, sender, haddr, hstands.append fun e he hof ↦ ?_⟩
    cases List.mem_singleton.mp he
    refine hji (hs.ids.once j i (hs.id_ne_nil ?_) hof.symm)
    rw [hj]
    nofun

/-- A request of code 13 keeps the registry sound: what it calls for is the current registration. -/
theorem Sound.secondSegment (h : s.Sound) (hawait : s.Awaiting) :
    (s.secondSegment r id got).Sound ∧ (s.secondSegment r id got).Awaiting := by
  unfold Registry.secondSegment
  cases hfind : s.find_index id with
  | none => exact ⟨h, hawait⟩
  | some index =>
    have hid := of_find_index hfind
    subst hid
    dsimp only
    split
    · exact ⟨h, hawait⟩
    · next hfirst =>
      rw [not_not] at hfirst
      split
      · exact ⟨h, hawait⟩
      · next haddr =>
        rw [not_not] at haddr
        rw [haddr]
        have hi : (s.clients index).state ≠ .none := by
          rw [hfirst]
          nofun
        exact ⟨(h.created hi (hawait index hfirst)).sent _ _, (hawait.created h).sent _ _⟩

/-! ### Requests -/

/-- What a request does: nothing, or what its code says, for an id that is not empty. -/
theorem of_get_udp_client (h : s.get_udp_client r = .ok t) :
    t = s ∨ ∃ id got, id ≠ [] ∧ (t = s.firstSegment r id got ∨ t = s.secondSegment r id got) := by
  unfold get_udp_client at h
  split at h
  · cases h
  · split at h
    · exact .inl (Except.ok.inj h).symm
    · split at h
      · exact .inl (Except.ok.inj h).symm
      · next hword =>
        split at h
        · cases h
        · split at h
          · exact .inl (Except.ok.inj h).symm
          · have hne := ne_nil_of_scanWord hword
            split at h
            · exact .inr ⟨_, _, hne, .inl (Except.ok.inj h).symm⟩
            · split at h
              · exact .inr ⟨_, _, hne, .inr (Except.ok.inj h).symm⟩
              · exact .inl (Except.ok.inj h).symm

/-- A request keeps the registry sound. -/
theorem Sound.get_udp_client (h : s.Sound) (hawait : s.Awaiting) (hstep : s.get_udp_client r = .ok t) :
    t.Sound ∧ t.Awaiting := by
  rcases of_get_udp_client hstep with rfl | ⟨id, got, hne, rfl | rfl⟩
  · exact ⟨h, hawait⟩
  · exact h.firstSegment hawait hne
  · exact h.secondSegment hawait

/-- A request is defined when its datagram and its id have room for their terminators. -/
theorem get_udp_client_ok_iff : (∃ t, s.get_udp_client r = .ok t) ↔ r.Fits := by
  unfold Registry.get_udp_client
  by_cases hlen : r.datagram.length < maxline
  · rw [if_neg (by omega)]
    cases hint : scanInt (recvline r.datagram) with
    | none => exact iff_of_true ⟨s, rfl⟩ ⟨hlen, by simp [scannedId, hint]⟩
    | some field =>
      cases hword : scanWord field.2 with
      | none =>
        dsimp only
        rw [hword]
        exact iff_of_true ⟨s, rfl⟩ ⟨hlen, by simp [scannedId, hint, hword]⟩
      | some word =>
        have hid : scannedId (recvline r.datagram) = some word.1 := by simp [scannedId, hint, hword]
        dsimp only
        rw [hword]
        dsimp only
        by_cases hlong : word.1.length ≥ maxIdLen
        · rw [if_pos hlong]
          refine iff_of_false (fun ⟨t, ht⟩ ↦ (nomatch ht)) fun hfits ↦ ?_
          have := hfits.student_id _ hid
          omega
        · rw [if_neg hlong]
          refine iff_of_true ?_ ⟨hlen, fun id he ↦ ?_⟩
          · split
            · exact ⟨_, rfl⟩
            · split
              · exact ⟨_, rfl⟩
              · split
                · exact ⟨_, rfl⟩
                · exact ⟨_, rfl⟩
          · rw [hid] at he
            cases he
            omega
  · rw [if_pos (by omega)]
    exact iff_of_false (fun ⟨t, ht⟩ ↦ (nomatch ht)) fun hfits ↦ hlen hfits.datagram

/-- `TCP_servIP_got` has room for its field. -/
theorem length_got {code : Int} {rest rest' rest'' : Text} (h : r.Fits)
    (hint : scanInt (recvline r.datagram) = some (code, rest)) (hid : scanWord rest = some (id, rest'))
    (hgot : scanWord rest' = some (got, rest'')) : got.length < maxline := by
  have hline := (List.takeWhile_prefix (fun c ↦ decide (c ≠ Char.ofNat 0)) (l := r.datagram)).length_le
  change (recvline r.datagram).length ≤ _ at hline
  have := length_le_of_scanInt hint
  have := length_le_of_scanWord hid
  have := length_le_of_scanWord hgot
  have := h.datagram
  omega

/-- `buff` has room for the answers. -/
theorem length_answer {cliaddr : InAddr} (hid : id.length < maxIdLen) {n : Nat} (hn : n ≤ 99) :
    (answer n id (dottedQuad cliaddr)).length < maxline := by
  have hcount : (decimal n).length ≤ 2 := (Nat.length_toDigits_le_iff (by decide) (by decide)).mpr (by omega)
  have haddr := length_dottedQuad cliaddr
  simp only [answer, List.length_append, List.length_cons, maxIdLen, inetAddrstrlen, maxline] at hid haddr ⊢
  omega

/-! ### Runs -/

/-- The empty registry is sound. -/
theorem sound_start : start.Sound where
  ids := by
    refine ⟨?_, fun i hi ↦ absurd rfl hi, ?_, fun i j hi _ ↦ absurd rfl hi⟩
    · rintro ⟨addr, n, hmem⟩
      exact absurd hmem List.not_mem_nil
    · rintro w ⟨addr, n, hmem⟩
      exact absurd hmem List.not_mem_nil
  occupied i := iff_of_false (fun h ↦ h rfl) (Nat.not_lt_zero _)
  registered i := iff_of_false (fun h ↦ h rfl) (Nat.not_lt_zero _)
  bound := Nat.zero_le _
  calls := justified_nil

/-- In every run of requests whose ids have room for their terminators the registry is sound, and the requests after
which it goes on are these. -/
theorem registry_sound (h : RunWith (fun s r t ↦ s.get_udp_client r = .ok t) (fun _ r ↦ r.Fits) start s) :
    s.Sound ∧ ∀ r, (∃ t, s.get_udp_client r = .ok t) ↔ r.Fits := by
  have hawait : start.Awaiting := fun i hi ↦ (nomatch hi)
  have hinv : s.Sound ∧ s.Awaiting := h.preserves (I := fun s ↦ s.Sound ∧ s.Awaiting)
    (fun s r t hs _ hstep ↦ hs.1.get_udp_client hs.2 hstep) ⟨sound_start, hawait⟩
  exact ⟨hinv.1, fun r ↦ get_udp_client_ok_iff⟩

/-- A student at 10.0.0.3. -/
def ask (datagram : String) : Request := ⟨datagram.toList, #v[10, 0, 0, 3], 3, 0⟩

/-- The registry when a first student has registered. -/
def withStudent : Registry := start.firstSegment (ask "11 u1 10.0.0.3") "u1".toList "10.0.0.3".toList

/-- A student registers and has the connections made. -/
theorem registry_sound_two : ∃ s : Registry, s.min_loc = 1 ∧
    s.log = [.accepted "u1".toList "10.0.0.3".toList 4, .sent #v[10, 0, 0, 3] "4 u1 10.0.0.3".toList,
      .created "u1".toList "10.0.0.3".toList 4 (some 8000), .sent #v[10, 0, 0, 3] "ok".toList] ∧ s.Sound := by
  have hfirst : start.get_udp_client (ask "11 u1 10.0.0.3") = .ok withStudent := rfl
  have hsecond : withStudent.get_udp_client (ask "13 u1 8000") =
      .ok (withStudent.secondSegment (ask "13 u1 8000") "u1".toList "8000".toList) := rfl
  have hone : RunWith (fun (s : Registry) r t ↦ s.get_udp_client r = .ok t) (fun _ r ↦ r.Fits) start withStudent :=
    RunWith.refl.snoc (get_udp_client_ok_iff.mp ⟨_, hfirst⟩) hfirst
  exact ⟨_, rfl, by decide,
    (registry_sound (hone.snoc (get_udp_client_ok_iff.mp ⟨_, hsecond⟩) hsecond)).1⟩

/-- An id of twelve characters is written beyond the end of `student_id`. -/
theorem long_id_overflows : start.get_udp_client (ask "11 abcdefghijkl 10.0.0.3") = .error .outOfBounds :=
  rfl

end Registry

end Unpv13e.Grading
