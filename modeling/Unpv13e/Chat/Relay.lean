import Unpv13e.Base.Runs
import Unpv13e.Base.Text

/-!
# The relay between two users

Library `Chat`. `src/tcpcliserv/hw4_tcpserv.c:105–195`: the loop of the child that serves a pair of users. The two
blocks of the loop differ in the user only. Calls on connections succeed; what `Select` reports and `Read` returns is
the action of a step.
-/

namespace Unpv13e.Chat
open Unpv13e.Base

/-- `MAXLINE`, the size of `sendline` -/
def maxline : Nat := 4096

/-- The two users, and with them `connfd1` and `connfd2`. -/
inductive User
  | one
  | two
  deriving DecidableEq, Repr

/-- The user at the other connection. -/
def User.other : User → User
  | .one => .two
  | .two => .one

/-- What the child does with a user's connection. -/
inductive Event
  /-- `Read` returns these bytes; none at the end -/
  | read (u : User) (chunk : Text)
  /-- `Writen` -/
  | wrote (u : User) (text : Text)
  /-- `Shutdown` with `SHUT_WR` -/
  | shutdown (u : User)
  /-- `Close` -/
  | close (u : User)
  deriving DecidableEq

/-- `user1_left` and `user2_left`, whether the loop has ended, and what has been done so far. -/
structure Child where
  left : User → Bool
  ended : Bool
  log : List Event

/-- What must not happen. -/
inductive Fault
  /-- `sprintf` writes beyond `sendline` -/
  | outOfBounds
  /-- a connection is written to that has been shut down for writing -/
  | brokenPipe
  deriving DecidableEq

/-- One more event. -/
def Child.add (e : Event) (s : Child) : Child := { s with log := s.log ++ [e] }

/-- `user1_left = 1` or `user2_left = 1` -/
def Child.leave (u : User) (s : Child) : Child := { s with left := Function.update s.left u true }

/-- `Close` of both connections, and the end of the loop. -/
def Child.finish (s : Child) : Child := { (s.add (.close .one)).add (.close .two) with ended := true }

/-- `sprintf` into `sendline`. -/
def intoSendline (text : Text) : Except Fault Text :=
  if text.length + 1 ≤ maxline then .ok text else .error .outOfBounds

/-- `Writen` of a text. -/
def writen (u : User) (text : Text) (s : Child) : Except Fault Child :=
  if Event.shutdown u ∈ s.log then .error .brokenPipe else .ok (s.add (.wrote u text))

/-- The notice to a user who is still there. -/
def leftFirst (name : Text) : Text := '(' :: name ++ " left the room. Press Ctrl+D to leave.)\n".toList

/-- The notice to a user who has left as well. -/
def leftLast (name : Text) : Text := '(' :: name ++ " left the room.)\n".toList

/-- What a user has said, as the other one is sent it. -/
def said (name chunk : Text) : Text := '(' :: name ++ ") ".toList ++ chunk

/-- What `%s` prints of the bytes in `recvline`. -/
def cString (chunk : Text) : Text := chunk.takeWhile (· ≠ Char.ofNat 0)

/-- The block for a user whose connection is ready, `src/tcpcliserv/hw4_tcpserv.c:121–153` and `159–191`. Its branch
for a user who has left before is never taken, as it comes after the one for `n == 0`. -/
def block (name : User → Text) (u : User) (chunk : Text) (s : Child) : Except Fault Child :=
  let s := s.add (.read u chunk)
  if chunk = [] then
    let s := s.leave u
    if s.left u.other = false then do
      let sendline ← intoSendline (leftFirst (name u))
      let s ← writen u.other sendline s
      return s.add (.shutdown u.other)
    else do
      let sendline ← intoSendline (leftLast (name u))
      let s ← writen u.other sendline s
      return s.finish
  else do
    let sendline ← intoSendline (said (name u) (cString chunk))
    writen u.other sendline s

/-- What `Select` reports: the connections that are ready, with what `Read` returns of them. -/
abbrev Ready := User → Option Text

/-- `if (FD_ISSET(connfd, &rset))` and the block. -/
def ifReady (name : User → Text) (r : Ready) (u : User) (s : Child) : Except Fault Child :=
  match r u with
  | none => .ok s
  | some chunk => block name u chunk s

/-- One turn of the loop. -/
def step (name : User → Text) (s : Child) (r : Ready) : Except Fault Child := do
  let s ← ifReady name r .one s
  if s.ended then return s else ifReady name r .two s

/-- The child when the loop begins. -/
def start : Child := ⟨fun _ ↦ false, false, []⟩

/-! ### What is claimed of the log -/

/-- What has been read from a user. -/
def readsOf (u : User) (log : List Event) : List Text :=
  log.filterMap fun e ↦
    match e with
    | .read v chunk => if v = u then some chunk else none
    | _ => none

/-- What has been written to a user. -/
def writesTo (u : User) (log : List Event) : List Text :=
  log.filterMap fun e ↦
    match e with
    | .wrote v text => if v = u then some text else none
    | _ => none

/-- What the other user is to be sent for what has been read: a notice at the end. -/
def Sends (name chunk text : Text) : Prop :=
  (chunk = [] ∧ (text = leftFirst name ∨ text = leftLast name)) ∨ (chunk ≠ [] ∧ text = said name chunk)

/-- Nothing is written to a connection after it has been shut down for writing or closed. -/
def Quiet (log : List Event) : Prop :=
  log.Pairwise fun e e' ↦ ∀ u text, e = .shutdown u ∨ e = .close u → e' ≠ .wrote u text

/-- All that has been read has been passed on, each user has left at most once, and the loop has ended if and only
if both have. -/
structure Relayed (name : User → Text) (s : Child) : Prop where
  sends : ∀ u, List.Forall₂ (Sends (name u)) (readsOf u s.log) (writesTo u.other s.log)
  leaves : ∀ u, (readsOf u s.log).count [] = if s.left u then 1 else 0
  quiet : Quiet s.log
  ended : s.ended = true ↔ ∀ u, s.left u = true

variable {name : User → Text} {u v : User} {chunk text : Text} {log more : List Event} {s t : Child} {r : Ready}

/-! ### The log -/

theorem readsOf_append : readsOf u (log ++ more) = readsOf u log ++ readsOf u more := List.filterMap_append

theorem writesTo_append : writesTo u (log ++ more) = writesTo u log ++ writesTo u more := List.filterMap_append

private theorem other_ne (u : User) : u.other ≠ u := by
  cases u <;> decide

private theorem eq_or_eq_other (u v : User) : v = u ∨ v = u.other := by
  cases u <;> cases v <;> decide

private theorem other_other (u : User) : u.other.other = u := by
  cases u <;> rfl

/-- Events that pass on what has been read from `u`, and do nothing else to the log but end connections. -/
structure Passes (name : Text) (u : User) (chunk : Text) (more : List Event) : Prop where
  reads : ∀ v, readsOf v more = if v = u then [chunk] else []
  writes : ∃ text, Sends name chunk text ∧ ∀ v, writesTo v more = if v = u.other then [text] else []
  quiet : Quiet more

/-- What is read is passed on. -/
theorem Passes.sends (h : Passes (name u) u chunk more)
    (hlog : ∀ v, List.Forall₂ (Sends (name v)) (readsOf v log) (writesTo v.other log)) (v : User) :
    List.Forall₂ (Sends (name v)) (readsOf v (log ++ more)) (writesTo v.other (log ++ more)) := by
  obtain ⟨text, hsends, hwrites⟩ := h.writes
  rw [readsOf_append, writesTo_append, h.reads, hwrites]
  rcases eq_or_eq_other u v with rfl | rfl
  · rw [if_pos rfl, if_pos rfl]
    exact List.rel_append (hlog v) (.cons hsends .nil)
  · rw [other_other, if_neg (other_ne u), if_neg (other_ne u).symm, List.append_nil, List.append_nil]
    have hother := hlog u.other
    rwa [other_other] at hother

/-- The log stays quiet when what is written goes to a connection that has been left open. -/
theorem Passes.quiet_append (h : Passes (name u) u chunk more) (hlog : Quiet log)
    (hopen : Event.shutdown u.other ∉ log) (hclosed : Event.close u.other ∉ log) : Quiet (log ++ more) := by
  refine List.pairwise_append.mpr ⟨hlog, h.quiet, ?_⟩
  rintro e he e' he' v text hends rfl
  obtain ⟨t, -, hwrites⟩ := h.writes
  have hmem : text ∈ writesTo v more := List.mem_filterMap.mpr ⟨_, he', if_pos rfl⟩
  rw [hwrites] at hmem
  split at hmem
  · next hv =>
    rw [hv] at hends
    rcases hends with rfl | rfl
    · exact hopen he
    · exact hclosed he
  · exact absurd hmem List.not_mem_nil

/-- Reading, writing, and then no more writing. -/
private theorem quiet_cons_cons (h : ∀ e ∈ more, ∀ v text, e ≠ .wrote v text) :
    Quiet (.read u chunk :: .wrote v text :: more) := by
  have hmore : Quiet more := by
    induction more with
    | nil => exact .nil
    | cons e more ih =>
      obtain ⟨-, hrest⟩ := List.forall_mem_cons.mp h
      exact .cons (fun e' he' w text _ ↦ hrest e' he' w text) (ih hrest)
  refine .cons (fun e' _ w text hends ↦ ?_) (.cons (fun e' _ w text hends ↦ ?_) hmore)
  · rcases hends with hends | hends <;> cases hends
  · rcases hends with hends | hends <;> cases hends

/-- A chunk that is passed on. -/
theorem passes_said (name : User → Text) (u : User) (hne : chunk ≠ []) :
    Passes (name u) u chunk [.read u chunk, .wrote u.other (said (name u) chunk)] where
  reads v := by
    cases u <;> cases v <;> rfl
  writes := ⟨_, .inr ⟨hne, rfl⟩, fun v ↦ by cases u <;> cases v <;> rfl⟩
  quiet := quiet_cons_cons fun e he ↦ absurd he List.not_mem_nil

/-- The end of the first user to leave. -/
theorem passes_first (name : User → Text) (u : User) :
    Passes (name u) u [] [.read u [], .wrote u.other (leftFirst (name u)), .shutdown u.other] where
  reads v := by
    cases u <;> cases v <;> rfl
  writes := ⟨_, .inl ⟨rfl, .inl rfl⟩, fun v ↦ by cases u <;> cases v <;> rfl⟩
  quiet := quiet_cons_cons <| by
    intro e he v text
    rw [List.mem_singleton.mp he]
    exact Event.noConfusion

/-- The end of the last user to leave. -/
theorem passes_last (name : User → Text) (u : User) :
    Passes (name u) u [] [.read u [], .wrote u.other (leftLast (name u)), .close .one, .close .two] where
  reads v := by
    cases u <;> cases v <;> rfl
  writes := ⟨_, .inl ⟨rfl, .inr rfl⟩, fun v ↦ by cases u <;> cases v <;> rfl⟩
  quiet := quiet_cons_cons <| by
    intro e he v text
    rcases List.mem_pair.mp he with rfl | rfl
    · exact Event.noConfusion
    · exact Event.noConfusion

/-! ### One block -/

/-- The chunk of a user fits into `sendline` behind the name. -/
def Fits (name chunk : Text) : Prop := chunk ≠ [] → name.length + chunk.length + 4 ≤ maxline

/-- The invariant of the loop. -/
structure Inv (name : User → Text) (s : Child) : Prop where
  relayed : Relayed name s
  shutdown : ∀ u, Event.shutdown u ∈ s.log → s.left u.other = true
  close : ∀ u, Event.close u ∈ s.log → s.ended = true

private theorem length_said (name chunk : Text) : (said name chunk).length = name.length + chunk.length + 3 := by
  rw [said, List.length_append, List.length_append, List.length_cons]
  change name.length + 1 + 2 + chunk.length = _
  omega

private theorem cString_eq (hnul : Char.ofNat 0 ∉ chunk) : cString chunk = chunk := by
  refine List.takeWhile_eq_self_iff.mpr fun c hc ↦ ?_
  exact decide_eq_true fun h ↦ hnul (h ▸ hc)

private theorem writen_read (chunk : Text) (hopen : Event.shutdown u.other ∉ s.log) (left : User → Bool)
    (text : Text) :
    writen u.other text { s with left := left, log := s.log ++ [.read u chunk] } =
      .ok { s with left := left, log := s.log ++ [.read u chunk, .wrote u.other text] } := by
  have hopen' : Event.shutdown u.other ∉ s.log ++ [.read u chunk] := by
    intro hmem
    rcases List.mem_append.mp hmem with hin | hin
    · exact hopen hin
    · exact Event.noConfusion (List.mem_singleton.mp hin)
  rw [writen, if_neg hopen']
  simp only [Child.add, List.append_assoc, List.cons_append, List.nil_append]

/-- What a block does with a chunk. -/
theorem block_said (hne : chunk ≠ []) (hnul : Char.ofNat 0 ∉ chunk) (hopen : Event.shutdown u.other ∉ s.log) :
    block name u chunk s =
      if (name u).length + chunk.length + 4 ≤ maxline then
        .ok { s with log := s.log ++ [.read u chunk, .wrote u.other (said (name u) chunk)] }
      else .error .outOfBounds := by
  unfold block
  dsimp only
  rw [if_neg hne, cString_eq hnul, intoSendline, length_said]
  split
  · rw [ok_bind]
    exact writen_read chunk hopen s.left _
  · rfl

/-- What a block does at the end of a user. -/
theorem block_end (hname : (name u).length < 32) (hopen : Event.shutdown u.other ∉ s.log) :
    block name u [] s = .ok
      (if s.left u.other = false then
        { s with left := Function.update s.left u true, log := s.log ++
          [.read u [], .wrote u.other (leftFirst (name u)), .shutdown u.other] }
      else
        { left := Function.update s.left u true, ended := true, log := s.log ++
          [.read u [], .wrote u.other (leftLast (name u)), .close .one, .close .two] }) := by
  have hfirst : (leftFirst (name u)).length + 1 ≤ maxline := by
    rw [leftFirst, List.length_append, List.length_cons]
    change (name u).length + 1 + 40 + 1 ≤ 4096
    omega
  have hlast : (leftLast (name u)).length + 1 ≤ maxline := by
    rw [leftLast, List.length_append, List.length_cons]
    change (name u).length + 1 + 17 + 1 ≤ 4096
    omega
  have hleft : Function.update s.left u true u.other = s.left u.other := Function.update_of_ne (other_ne u) _ _
  have hwrite := writen_read [] hopen (Function.update s.left u true)
  unfold block
  dsimp only [Child.leave, Child.add]
  rw [if_pos rfl]
  by_cases hother : s.left u.other = false
  · rw [if_pos (hleft.trans hother), if_pos hother, intoSendline, if_pos hfirst, ok_bind, hwrite, ok_bind]
    simp only [List.append_assoc, List.cons_append, List.nil_append]
    rfl
  · have hother' : ¬Function.update s.left u true u.other = false := by rwa [hleft]
    rw [if_neg hother', if_neg hother, intoSendline, if_pos hlast, ok_bind, hwrite, ok_bind]
    simp only [Child.finish, Child.add, List.append_assoc, List.cons_append, List.nil_append]
    rfl

/-- The user who is read from is still there, and so the other connection is open. -/
private theorem Inv.open (h : Inv name s) (hend : s.ended = false) (hhere : s.left u = false) :
    Event.shutdown u.other ∉ s.log ∧ Event.close u.other ∉ s.log := by
  refine ⟨fun hmem ↦ ?_, fun hmem ↦ ?_⟩
  · have hleft := h.shutdown u.other hmem
    rw [other_other, hhere] at hleft
    cases hleft
  · have hended := h.close u.other hmem
    rw [hend] at hended
    cases hended

/-- The invariant after events that pass something on. -/
private theorem Inv.pass {left : User → Bool} {ended : Bool} (h : Inv name s) (hend : s.ended = false)
    (hhere : s.left u = false) (hpass : Passes (name u) u chunk more)
    (hleft : ∀ v, left v = if v = u ∧ chunk = [] then true else s.left v)
    (hshut : ∀ v, Event.shutdown v ∈ more → left v.other = true) (hclose : ∀ v, Event.close v ∈ more → ended = true)
    (hended : ended = true ↔ ∀ v, left v = true) : Inv name ⟨left, ended, s.log ++ more⟩ := by
  obtain ⟨hopen, hclosed⟩ := h.open hend hhere
  refine ⟨⟨hpass.sends h.relayed.sends, fun v ↦ ?_, hpass.quiet_append h.relayed.quiet hopen hclosed, hended⟩,
    fun v hv ↦ ?_, fun v hv ↦ ?_⟩
  · change _ = if left v = true then 1 else 0
    rw [readsOf_append, List.count_append, h.relayed.leaves v, hpass.reads v, hleft v]
    by_cases hv : v = u
    · by_cases hchunk : chunk = []
      · simp [hv, hhere, hchunk]
      · simp [hv, hhere, hchunk]
    · simp [hv]
  · rcases List.mem_append.mp hv with hold | hnew
    · dsimp only
      rw [hleft, h.shutdown v hold, ite_self]
    · exact hshut v hnew
  · rcases List.mem_append.mp hv with hold | hnew
    · rw [h.close v hold] at hend
      cases hend
    · exact hclose v hnew

private theorem all_left_iff (left : User → Bool) (u : User) :
    (∀ v, left v = true) ↔ left u = true ∧ left u.other = true := by
  constructor
  · exact fun h ↦ ⟨h u, h u.other⟩
  · rintro ⟨h, h'⟩ v
    rcases eq_or_eq_other u v with rfl | rfl
    · exact h
    · exact h'

/-- A block keeps the invariant, and fails only when the chunk does not fit. -/
theorem block_inv (h : Inv name s) (hend : s.ended = false) (hhere : s.left u = false)
    (hname : (name u).length < 32) (hnul : Char.ofNat 0 ∉ chunk) :
    (Fits (name u) chunk → ∃ t, block name u chunk s = .ok t ∧ Inv name t ∧ t.left u.other = s.left u.other) ∧
      (¬Fits (name u) chunk → block name u chunk s = .error .outOfBounds) := by
  obtain ⟨hopen, -⟩ := h.open hend hhere
  by_cases hchunk : chunk = []
  · subst hchunk
    refine ⟨fun _ ↦ ⟨_, block_end hname hopen, ?_⟩, fun hn ↦ absurd (fun hne ↦ absurd rfl hne) hn⟩
    have hleft : Function.update s.left u true u.other = s.left u.other := Function.update_of_ne (other_ne u) _ _
    have hself : Function.update s.left u true u = true := Function.update_self _ _ _
    have hupdate (v : User) :
        Function.update s.left u true v = if v = u ∧ ([] : Text) = [] then true else s.left v := by
      rw [Function.update_apply]
      exact if_congr (and_iff_left rfl).symm rfl rfl
    split
    · -- the other user is still there
      next hother =>
      refine ⟨h.pass hend hhere (passes_first name u) hupdate ?_ ?_ ?_, hleft⟩
      · intro v hv
        have hv : v = u.other := by simpa using hv
        rw [hv, other_other, hself]
      · intro v hv
        simp at hv
      · rw [all_left_iff _ u, hself, hleft, hother, hend]
        simp
    · next hother =>
      refine ⟨h.pass hend hhere (passes_last name u) hupdate ?_ ?_ ?_, hleft⟩
      · intro v hv
        simp at hv
      · exact fun v _ ↦ rfl
      · rw [all_left_iff _ u, hself, hleft, (Bool.not_eq_false _).mp hother]
        exact iff_of_true rfl ⟨rfl, rfl⟩
  · refine ⟨fun hfits ↦
      ⟨{ s with log := s.log ++ [.read u chunk, .wrote u.other (said (name u) chunk)] }, ?_, ?_, rfl⟩, fun hn ↦ ?_⟩
    · rw [block_said hchunk hnul hopen, if_pos (hfits hchunk)]
    · refine h.pass hend hhere (passes_said name u hchunk) ?_ ?_ ?_ h.relayed.ended
      · exact fun v ↦ (if_neg fun h ↦ hchunk h.2).symm
      · intro v hv
        simp at hv
      · intro v hv
        simp at hv
    · rw [block_said hchunk hnul hopen, if_neg fun hfit ↦ hn fun _ ↦ hfit]

/-! ### Runs -/

/-- What `Select` and `Read` can answer while the loop runs: only users who have not left are looked at, and a call
of `Read` returns `MAXLINE` bytes at most. -/
structure Possible (s : Child) (r : Ready) : Prop where
  running : s.ended = false
  here : ∀ u chunk, r u = some chunk → s.left u = false
  le : ∀ u chunk, r u = some chunk → chunk.length ≤ maxline
  nul : ∀ u chunk, r u = some chunk → Char.ofNat 0 ∉ chunk

/-- All chunks fit behind the names. -/
def AllFit (name : User → Text) (r : Ready) : Prop := ∀ u chunk, r u = some chunk → Fits (name u) chunk

private theorem ifReady_inv (h : Inv name s) (hname : (name u).length < 32)
    (hready : ∀ chunk, r u = some chunk → s.ended = false ∧ s.left u = false ∧ Char.ofNat 0 ∉ chunk) :
    ((∀ chunk, r u = some chunk → Fits (name u) chunk) →
      ∃ t, ifReady name r u s = .ok t ∧ Inv name t ∧ t.left u.other = s.left u.other) ∧
    (¬(∀ chunk, r u = some chunk → Fits (name u) chunk) → ifReady name r u s = .error .outOfBounds) := by
  unfold ifReady
  cases hr : r u with
  | none => exact ⟨fun _ ↦ ⟨s, rfl, h, rfl⟩, fun hn ↦ absurd (fun chunk hc ↦ (nomatch hc)) hn⟩
  | some chunk =>
    obtain ⟨hend, hhere, hnul⟩ := hready chunk hr
    obtain ⟨hok, herror⟩ := block_inv h hend hhere hname hnul
    refine ⟨fun hfit ↦ hok (hfit chunk rfl), fun hn ↦ herror fun hfit ↦ hn fun c hc ↦ ?_⟩
    cases hc
    exact hfit

/-- A turn of the loop keeps the invariant, and fails only when a chunk does not fit. -/
theorem step_inv (h : Inv name s) (hname : ∀ u, (name u).length < 32) (hr : Possible s r) :
    (AllFit name r → ∃ t, step name s r = .ok t ∧ Inv name t) ∧
      (¬AllFit name r → step name s r = .error .outOfBounds) := by
  have hone (chunk : Text) (hc : r .one = some chunk) :
      s.ended = false ∧ s.left .one = false ∧ Char.ofNat 0 ∉ chunk :=
    ⟨hr.running, hr.here _ _ hc, hr.nul _ _ hc⟩
  obtain ⟨hok, herror⟩ := ifReady_inv (r := r) h (hname .one) hone
  have hall : AllFit name r ↔ (∀ chunk, r .one = some chunk → Fits (name .one) chunk) ∧
      ∀ chunk, r .two = some chunk → Fits (name .two) chunk := by
    refine ⟨fun hfit ↦ ⟨hfit .one, hfit .two⟩, fun hfit u ↦ ?_⟩
    cases u with
    | one => exact hfit.1
    | two => exact hfit.2
  rw [hall, step]
  by_cases hfit : ∀ chunk, r .one = some chunk → Fits (name .one) chunk
  · obtain ⟨t, ht, hinv, hleft⟩ := hok hfit
    have hleft : t.left .two = s.left .two := hleft
    rw [ht, ok_bind, and_iff_right hfit]
    cases hended : t.ended with
    | true =>
      -- both have left, and so the second one was not looked at
      have htwo : r .two = none := by
        cases hc : r .two with
        | none => rfl
        | some chunk =>
          have hgone := hinv.relayed.ended.mp hended .two
          rw [hleft, hr.here _ _ hc] at hgone
          cases hgone
      rw [htwo]
      exact ⟨fun _ ↦ ⟨t, rfl, hinv⟩, fun hn ↦ absurd (fun chunk hc ↦ (nomatch hc)) hn⟩
    | false =>
      have htwo (chunk : Text) (hc : r .two = some chunk) :
          t.ended = false ∧ t.left .two = false ∧ Char.ofNat 0 ∉ chunk :=
        ⟨hended, hleft.trans (hr.here _ _ hc), hr.nul _ _ hc⟩
      obtain ⟨hok', herror'⟩ := ifReady_inv (r := r) hinv (hname .two) htwo
      refine ⟨fun hfit' ↦ ?_, herror'⟩
      obtain ⟨u, hu, hinv', -⟩ := hok' hfit'
      exact ⟨u, hu, hinv'⟩
  · refine ⟨fun hboth ↦ absurd hboth.1 hfit, fun _ ↦ ?_⟩
    rw [herror hfit]
    rfl

/-- The child at the beginning. -/
theorem inv_start (name : User → Text) : Inv name start := by
  refine ⟨⟨fun u ↦ .nil, fun u ↦ rfl, .nil, ?_⟩, fun u hu ↦ absurd hu List.not_mem_nil,
    fun u hu ↦ absurd hu List.not_mem_nil⟩
  exact ⟨fun h ↦ Bool.noConfusion h, fun h ↦ Bool.noConfusion (h .one)⟩

/-- In every run in which all chunks fit into `sendline` behind the names, what is read from a user is passed on to
the other one, each user has left at most once, nothing is written to a connection that has been shut down for
writing or closed, and the loop has ended if and only if both users have left. The next turn fails, by a write
beyond `sendline`, if and only if a chunk does not fit. -/
theorem relay_forwards (hname : ∀ u, (name u).length < 32)
    (h : RunWith (fun s r t ↦ step name s r = .ok t) (fun s r ↦ Possible s r ∧ AllFit name r) start s) :
    Relayed name s ∧ ∀ r, Possible s r →
      ((∃ t, step name s r = .ok t) ↔ AllFit name r) ∧ (¬AllFit name r → step name s r = .error .outOfBounds) := by
  have hinv : Inv name s := by
    refine h.preserves (fun s r t hs hok hstep ↦ ?_) (inv_start name)
    obtain ⟨t', ht', hinv⟩ := (step_inv hs hname hok.1).1 hok.2
    rw [hstep] at ht'
    cases ht'
    exact hinv
  refine ⟨hinv.relayed, fun r hr ↦ ⟨⟨fun hstep ↦ ?_, fun hfit ↦ ?_⟩, (step_inv hinv hname hr).2⟩⟩
  · by_contra hfit
    obtain ⟨t, ht⟩ := hstep
    rw [(step_inv hinv hname hr).2 hfit] at ht
    cases ht
  · obtain ⟨t, ht, -⟩ := (step_inv hinv hname hr).1 hfit
    exact ⟨t, ht⟩

/-- The names of two users. -/
def annAndBob : User → Text
  | .one => "ann".toList
  | .two => "bob".toList

private theorem length_annAndBob (u : User) : (annAndBob u).length < 32 := by
  cases u
  · decide
  · decide

/-- Both users are ready with the same chunk. -/
private theorem possible_both (hend : s.ended = false) (hhere : ∀ u, s.left u = false)
    (hle : chunk.length ≤ maxline) (hnul : Char.ofNat 0 ∉ chunk) : Possible s fun _ ↦ some chunk := by
  refine ⟨hend, fun u _ _ ↦ hhere u, fun _ c h ↦ ?_, fun _ c h ↦ ?_⟩
  · rwa [← Option.some.inj h]
  · rwa [← Option.some.inj h]

/-- Both users say something, and then both leave at once. -/
theorem relay_forwards_hello :
    ∃ s, s.ended = true ∧ writesTo .two s.log = ["(ann) hi".toList, leftFirst "ann".toList] ∧
      writesTo .one s.log = ["(bob) hi".toList, leftLast "bob".toList] ∧ Relayed annAndBob s := by
  have hsay : AllFit annAndBob fun _ ↦ some "hi".toList := by
    intro u chunk h _
    rw [← Option.some.inj h]
    cases u
    · decide
    · decide
  have hleave : AllFit annAndBob fun _ ↦ some [] := fun _ chunk h hne ↦ absurd (Option.some.inj h).symm hne
  have hfirst : RunWith (fun s r t ↦ step annAndBob s r = .ok t) (fun s r ↦ Possible s r ∧ AllFit annAndBob r) start
      ⟨fun _ ↦ false, false, [.read .one "hi".toList, .wrote .two "(ann) hi".toList, .read .two "hi".toList,
        .wrote .one "(bob) hi".toList]⟩ :=
    RunWith.refl.snoc ⟨possible_both rfl (fun _ ↦ rfl) (by decide) (by decide), hsay⟩ rfl
  have hlast := (relay_forwards length_annAndBob (hfirst.snoc
    ⟨possible_both rfl (fun _ ↦ rfl) (Nat.zero_le _) List.not_mem_nil, hleave⟩ rfl)).1
  exact ⟨_, rfl, by decide, by decide, hlast⟩

/-- A chunk of `MAXLINE` bytes does not fit behind any name. -/
theorem sendline_overflows :
    ∃ r, Possible start r ∧ step annAndBob start r = .error .outOfBounds := by
  have hlen : (List.replicate maxline 'x').length = maxline := List.length_replicate
  have hposs : Possible start fun _ ↦ some (List.replicate maxline 'x') :=
    possible_both rfl (fun _ ↦ rfl) hlen.le fun hmem ↦ absurd (List.eq_of_mem_replicate hmem) (by decide)
  refine ⟨_, hposs, (step_inv (inv_start annAndBob) length_annAndBob hposs).2 fun hfit ↦ ?_⟩
  have hle := hfit .one (List.replicate maxline 'x') rfl fun hnil ↦ by
    rw [hnil] at hlen
    exact absurd hlen (by decide)
  rw [hlen] at hle
  exact absurd hle (by decide)

end Unpv13e.Chat
