import Unpv13e.Base.Runs

/-!
# A client of the echo server

Library `Echo`. A connection between a client and the server of `src/lib/str_echo.c`: standard input, the
bytes under way in both directions, the server and standard output. There is room for a number of bytes in
each direction, and a `write` waits for it. What every client that passes on its bytes in order can rely on.
-/

namespace Unpv13e.Echo
open Unpv13e.Base

/-- `MAXLINE` -/
def maxLine : Nat := 4096

/-- What a client does with its descriptors. -/
inductive Io
  /-- bytes are read from standard input -/
  | typed (bytes : List UInt8)
  | stdinEof
  /-- it is found out whether standard input and the socket can be read, and the socket written -/
  | ready (rstdin rsock wsock : Bool)
  /-- bytes are written to the socket -/
  | sent (bytes : List UInt8)
  /-- `Shutdown(sockfd, SHUT_WR)` -/
  | shutdown
  /-- bytes are read from the socket -/
  | received (bytes : List UInt8)
  | sockEof
  /-- bytes are written to standard output -/
  | shown (bytes : List UInt8)
  deriving DecidableEq

/-- Where `str_echo` is, `src/lib/str_echo.c:10–17`. -/
inductive Server
  /-- at `read` -/
  | reading
  /-- in `Writen`, with these bytes left -/
  | writing (rest : List UInt8)
  /-- has returned; the process ends, and its socket is closed -/
  | closed
  deriving DecidableEq

/-- The bytes the server has read and not written. -/
def Server.held : Server → List UInt8
  | .writing rest => rest
  | _ => []

/-- How many bytes there is room for, to the server and back. -/
structure Room where
  forth : Nat
  back : Nat

/-- What is outside the client. -/
structure World where
  /-- not read from standard input yet -/
  input : List UInt8
  forth : List UInt8
  /-- the client has shut down its half -/
  fin : Bool
  server : Server
  back : List UInt8
  output : List UInt8
  deriving DecidableEq

namespace World

/-- Before anything is typed. -/
def start (input : List UInt8) : World := ⟨input, [], false, .reading, [], []⟩

/-- A `read` of the socket would return. -/
def readable (w : World) : Bool := w.back ≠ [] || w.server = .closed

/-- What a call of the client does, where it returns. -/
def io (c : Room) (w : World) : Io → Option World
  | .typed bytes =>
    if bytes ≠ [] ∧ bytes <+: w.input then some { w with input := w.input.drop bytes.length } else none
  | .stdinEof => if w.input = [] then some w else none
  | .ready _ rsock wsock =>
    if rsock = w.readable ∧ wsock = decide (w.forth.length < c.forth) then some w else none
  | .sent bytes =>
    if bytes ≠ [] ∧ w.fin = false ∧ w.forth.length + bytes.length ≤ c.forth then
      some { w with forth := w.forth ++ bytes }
    else none
  | .shutdown => some { w with fin := true }
  | .received bytes =>
    if bytes ≠ [] ∧ bytes <+: w.back then some { w with back := w.back.drop bytes.length } else none
  | .sockEof => if w.back = [] ∧ w.server = .closed then some w else none
  | .shown bytes => some { w with output := w.output ++ bytes }

/-- Calls one after the other. -/
def ios (c : Room) : World → List Io → Option World
  | w, [] => some w
  | w, e :: es => (w.io c e).bind fun w ↦ w.ios c es

theorem ios_one (c : Room) (w : World) (e : Io) : w.ios c [e] = w.io c e := by
  cases h : w.io c e <;> simp [ios, h]

/-- What the server does next: it reads `k` bytes, or writes `k`. -/
def serve (c : Room) (w : World) (k : Nat) : Option World :=
  match w.server with
  | .reading =>
    if 0 < k ∧ k ≤ maxLine ∧ k ≤ w.forth.length then
      some { w with server := .writing (w.forth.take k), forth := w.forth.drop k }
    else if k = 0 ∧ w.forth = [] ∧ w.fin = true then some { w with server := .closed }
    else none
  | .writing rest =>
    if 0 < k ∧ k ≤ rest.length ∧ w.back.length + k ≤ c.back then
      some { w with
        server := if k = rest.length then .reading else .writing (rest.drop k)
        back := w.back ++ rest.take k }
    else none
  | .closed => none

end World

/-- What happens next. -/
inductive Act
  /-- the client, and what it does with its descriptors -/
  | client (events : List Io)
  /-- the server, with the number of bytes -/
  | server (k : Nat)

/-- The steps of a client and the world. -/
def Step {σ : Type} (client : σ → List Io → σ → Prop) (c : Room) (s : σ × World) (a : Act)
    (t : σ × World) : Prop :=
  match a with
  | .client events => client s.1 events t.1 ∧ s.2.ios c events = some t.2
  | .server k => t.1 = s.1 ∧ s.2.serve c k = some t.2

/-- The next step, with a function for the client. -/
def next {σ : Type} (client : σ → List Io → Option σ) (c : Room) (x : σ × World) (a : Act) :
    Option (σ × World) :=
  match a with
  | .client events => (client x.1 events).bind fun t ↦ (x.2.ios c events).map (t, ·)
  | .server k => (x.2.serve c k).map (x.1, ·)

theorem step_of_next {σ : Type} {f : σ → List Io → Option σ} {client : σ → List Io → σ → Prop} {c : Room}
    {x y : σ × World} {a : Act} (hf : ∀ s es t, f s es = some t → client s es t)
    (h : next f c x a = some y) : Step client c x a y := by
  cases a with
  | client es =>
    obtain ⟨t, ht, h⟩ := Option.bind_eq_some_iff.mp h
    obtain ⟨w, hw, rfl⟩ := Option.map_eq_some_iff.mp h
    exact ⟨hf _ _ _ ht, hw⟩
  | server k =>
    obtain ⟨w, hw, rfl⟩ := Option.map_eq_some_iff.mp h
    exact ⟨rfl, hw⟩

/-- Playing a list of actions is a run. -/
theorem run_of_next {σ : Type} {f : σ → List Io → Option σ} {client : σ → List Io → σ → Prop} {c : Room}
    {x y : σ × World} {acts : List Act} (hf : ∀ s es t, f s es = some t → client s es t)
    (h : playActs (next f c) x acts = some y) : Run (Step client c) x y := by
  induction acts generalizing x with
  | nil =>
    cases h
    exact RunWith.refl
  | cons a as ih =>
    obtain ⟨m, hm, h⟩ := Option.bind_eq_some_iff.mp h
    exact RunWith.cons True.intro (step_of_next hf hm) (ih h)

/-- A `Read` of the socket gives as much as is there. -/
def ReadsAll {σ : Type} (x : σ × World) (a : Act) : Prop :=
  ∀ bytes, a = .client [.received bytes] → bytes = x.2.back.take maxLine

/-- Neither the client nor the server can take a step. -/
def Stuck {σ : Type} (client : σ → List Io → σ → Prop) (c : Room) (x : σ × World) : Prop :=
  ∀ a y, ¬ Step client c x a y

theorem not_stuck_of_client {σ : Type} {client : σ → List Io → σ → Prop} {c : Room} {s t : σ}
    {w u : World} {es : List Io} (h : client s es t) (hw : w.ios c es = some u) :
    ¬ Stuck client c (s, w) := fun hstuck ↦ hstuck (.client es) (t, u) ⟨h, hw⟩

theorem not_stuck_of_server {σ : Type} {client : σ → List Io → σ → Prop} {c : Room} {s : σ}
    {w u : World} {k : Nat} (hw : w.serve c k = some u) : ¬ Stuck client c (s, w) :=
  fun hstuck ↦ hstuck (.server k) (s, u) ⟨rfl, hw⟩

/-! ### What a client is for -/

/-- A client as a relay: the bytes it has for the socket and for standard output, and which ends it has
seen. -/
structure Relay where
  toSock : List UInt8
  toShow : List UInt8
  stdinEof : Bool
  sockEof : Bool

namespace Relay

/-- Nothing has been read. -/
def start : Relay := ⟨[], [], false, false⟩

/-- The calls a relay makes: it writes what it has read, in order, and shuts down when there is nothing
left to send. -/
def io (r : Relay) : Io → Option Relay
  | .typed bytes => some { r with toSock := r.toSock ++ bytes }
  | .stdinEof => some { r with stdinEof := true }
  | .ready _ _ _ => some r
  | .sent bytes =>
    if bytes <+: r.toSock then some { r with toSock := r.toSock.drop bytes.length } else none
  | .shutdown => if r.stdinEof = true ∧ r.toSock = [] then some r else none
  | .received bytes => some { r with toShow := r.toShow ++ bytes }
  | .sockEof => some { r with sockEof := true }
  | .shown bytes =>
    if bytes <+: r.toShow then some { r with toShow := r.toShow.drop bytes.length } else none

/-- Calls one after the other. -/
def ios : Relay → List Io → Option Relay
  | r, [] => some r
  | r, e :: es => (r.io e).bind fun r ↦ r.ios es

end Relay

/-- What is read is made of bytes that satisfy `P`. -/
def Io.Of (P : UInt8 → Prop) : Io → Prop
  | .typed bytes => ∀ b ∈ bytes, P b
  | .received bytes => ∀ b ∈ bytes, P b
  | _ => True

/-- A client that reads bytes satisfying `P` is a relay: `held` says what it holds, in the states that
satisfy `Kept`. -/
structure Refines {σ : Type} (P : UInt8 → Prop) (client : σ → List Io → σ → Prop) (start : σ)
    (held : σ → Relay) (Kept : σ → Prop) : Prop where
  kept_start : Kept start
  held_start : held start = .start
  step : ∀ s es t, Kept s → (∀ e ∈ es, e.Of P) → client s es t →
    Kept t ∧ (held s).ios es = some (held t)

/-! ### What a relay and the server keep -/

/-- Every byte of the input is in one place, and in order; and what the ends that have been seen say. -/
structure Flows (input : List UInt8) (r : Relay) (w : World) : Prop where
  all : w.output ++ r.toShow ++ w.back ++ w.server.held ++ w.forth ++ r.toSock ++ w.input = input
  stdinEof : r.stdinEof = true → w.input = []
  fin : w.fin = true → r.stdinEof = true ∧ r.toSock = []
  closed : w.server = .closed → w.fin = true ∧ w.forth = []
  sockEof : r.sockEof = true → w.server = .closed ∧ w.back = []

variable {input : List UInt8} {r r' : Relay} {w w' : World} {c : Room} {e : Io} {k : Nat}

theorem flows_start : Flows input .start (.start input) where
  all := rfl
  stdinEof := fun h ↦ by cases h
  fin := fun h ↦ by cases h
  closed := fun h ↦ by cases h
  sockEof := fun h ↦ by cases h

/-- One call of the client. -/
theorem Flows.io (h : Flows input r w) (hr : r.io e = some r') (hw : w.io c e = some w') :
    Flows input r' w' := by
  cases e with
  | typed bytes =>
    obtain ⟨⟨hne, rest, hinput⟩, hw⟩ := Option.ite_none_right_eq_some.mp hw
    cases hr
    cases hw
    have hopen : r.stdinEof ≠ true := by
      intro heof
      rw [h.stdinEof heof] at hinput
      exact hne (List.append_eq_nil_iff.mp hinput).1
    refine ⟨?_, fun heof ↦ absurd heof hopen, fun hfin ↦ absurd (h.fin hfin).1 hopen, h.closed, h.sockEof⟩
    rw [← h.all, ← hinput]
    simp
  | stdinEof =>
    obtain ⟨hnil, hw⟩ := Option.ite_none_right_eq_some.mp hw
    cases hr
    cases hw
    exact ⟨h.all, fun _ ↦ hnil, fun hfin ↦ ⟨rfl, (h.fin hfin).2⟩, h.closed, h.sockEof⟩
  | ready rstdin rsock wsock =>
    obtain ⟨-, hw⟩ := Option.ite_none_right_eq_some.mp hw
    cases hr
    cases hw
    exact h
  | sent bytes =>
    obtain ⟨⟨-, hfin, -⟩, hw⟩ := Option.ite_none_right_eq_some.mp hw
    obtain ⟨⟨rest, hrest⟩, hr⟩ := Option.ite_none_right_eq_some.mp hr
    cases hr
    cases hw
    have hopen (hf : w.fin = true) : False := by
      rw [hfin] at hf
      cases hf
    refine ⟨?_, h.stdinEof, fun hf ↦ (hopen hf).elim, fun hclosed ↦ (hopen (h.closed hclosed).1).elim, h.sockEof⟩
    rw [← h.all, ← hrest]
    simp
  | shutdown =>
    obtain ⟨hended, hr⟩ := Option.ite_none_right_eq_some.mp hr
    cases hr
    cases hw
    exact ⟨h.all, h.stdinEof, fun _ ↦ hended, fun hclosed ↦ ⟨rfl, (h.closed hclosed).2⟩, h.sockEof⟩
  | received bytes =>
    obtain ⟨⟨hne, rest, hrest⟩, hw⟩ := Option.ite_none_right_eq_some.mp hw
    cases hr
    cases hw
    refine ⟨?_, h.stdinEof, h.fin, h.closed, fun heof ↦ ?_⟩
    · rw [← h.all, ← hrest]
      simp
    · rw [(h.sockEof heof).2] at hrest
      exact absurd (List.append_eq_nil_iff.mp hrest).1 hne
  | sockEof =>
    obtain ⟨⟨hback, hclosed⟩, hw⟩ := Option.ite_none_right_eq_some.mp hw
    cases hr
    cases hw
    exact ⟨h.all, h.stdinEof, h.fin, h.closed, fun _ ↦ ⟨hclosed, hback⟩⟩
  | shown bytes =>
    obtain ⟨⟨rest, hrest⟩, hr⟩ := Option.ite_none_right_eq_some.mp hr
    cases hr
    cases hw
    refine ⟨?_, h.stdinEof, h.fin, h.closed, h.sockEof⟩
    rw [← h.all, ← hrest]
    simp

/-- The calls of one step of the client. -/
theorem Flows.ios {es : List Io} (h : Flows input r w) (hr : r.ios es = some r')
    (hw : w.ios c es = some w') : Flows input r' w' := by
  induction es generalizing r w with
  | nil =>
    cases hr
    cases hw
    exact h
  | cons e es ih =>
    obtain ⟨r₁, hr₁, hr⟩ := Option.bind_eq_some_iff.mp hr
    obtain ⟨w₁, hw₁, hw⟩ := Option.bind_eq_some_iff.mp hw
    exact ih (h.io hr₁ hw₁) hr hw

/-- What a step of the server does: it reads, sees the end, or writes. -/
inductive Serves (c : Room) (w : World) : World → Prop
  | read (k : Nat) : w.server = .reading → 0 < k → k ≤ maxLine → k ≤ w.forth.length →
      Serves c w { w with server := .writing (w.forth.take k), forth := w.forth.drop k }
  | eof : w.server = .reading → w.forth = [] → w.fin = true → Serves c w { w with server := .closed }
  | write (rest : List UInt8) (k : Nat) : w.server = .writing rest → 0 < k → k ≤ rest.length →
      w.back.length + k ≤ c.back →
      Serves c w { w with
        server := if k = rest.length then .reading else .writing (rest.drop k)
        back := w.back ++ rest.take k }

theorem serves_of_serve (h : w.serve c k = some w') : Serves c w w' := by
  unfold World.serve at h
  cases hs : w.server with
  | reading =>
    simp only [hs] at h
    split at h
    · next hk =>
      cases h
      exact .read k hs hk.1 hk.2.1 hk.2.2
    · obtain ⟨⟨-, hforth, hfin⟩, h⟩ := Option.ite_none_right_eq_some.mp h
      cases h
      exact .eof hs hforth hfin
  | writing rest =>
    simp only [hs] at h
    obtain ⟨⟨hpos, hk, hroom⟩, h⟩ := Option.ite_none_right_eq_some.mp h
    cases h
    exact .write rest k hs hpos hk hroom
  | closed =>
    simp only [hs] at h
    cases h

/-- One step of the server. -/
theorem Flows.serves (h : Flows input r w) (hw : Serves c w w') : Flows input r w' := by
  have hopen (hs : w.server ≠ .closed) : r.sockEof ≠ true := fun heof ↦ hs (h.sockEof heof).1
  have hall := h.all
  cases hw with
  | read k hs hpos hline hlen =>
    refine ⟨?_, h.stdinEof, h.fin, fun hclosed ↦ (by cases hclosed), fun heof ↦ ?_⟩
    · rw [hs] at hall
      rw [← hall]
      simp [Server.held]
    · exact absurd heof (hopen (by rw [hs]; exact Server.noConfusion))
  | eof hs hforth hfin =>
    refine ⟨?_, h.stdinEof, h.fin, fun _ ↦ ⟨hfin, hforth⟩, fun heof ↦ ?_⟩
    · rw [hs] at hall
      exact hall
    · exact absurd heof (hopen (by rw [hs]; exact Server.noConfusion))
  | write rest k hs hpos hk hroom =>
    refine ⟨?_, h.stdinEof, h.fin, fun hclosed ↦ ?_, fun heof ↦ ?_⟩
    · rw [hs] at hall
      rw [← hall]
      by_cases hlast : k = rest.length
      · simp [Server.held, hlast]
      · simp [Server.held, hlast]
    · change (if k = rest.length then Server.reading else .writing (rest.drop k)) = .closed at hclosed
      split at hclosed <;> cases hclosed
    · exact absurd heof (hopen (by rw [hs]; exact Server.noConfusion))

/-- What the client reads in one step was there before the step. -/
theorem of_ios {P : UInt8 → Prop} {es : List Io} (hw : w.ios c es = some w')
    (hinput : ∀ b ∈ w.input, P b) (hback : ∀ b ∈ w.back, P b) : ∀ e ∈ es, e.Of P := by
  induction es generalizing w with
  | nil => exact fun e he ↦ by cases he
  | cons e es ih =>
    obtain ⟨u, hu, hw⟩ := Option.bind_eq_some_iff.mp hw
    have hrest : e.Of P ∧ (∀ b ∈ u.input, P b) ∧ ∀ b ∈ u.back, P b := by
      cases e with
      | typed bytes =>
        obtain ⟨⟨-, hpre⟩, hu⟩ := Option.ite_none_right_eq_some.mp hu
        cases hu
        exact ⟨fun b hb ↦ hinput b (hpre.subset hb), fun b hb ↦ hinput b (List.mem_of_mem_drop hb), hback⟩
      | received bytes =>
        obtain ⟨⟨-, hpre⟩, hu⟩ := Option.ite_none_right_eq_some.mp hu
        cases hu
        exact ⟨fun b hb ↦ hback b (hpre.subset hb), hinput, fun b hb ↦ hback b (List.mem_of_mem_drop hb)⟩
      | stdinEof =>
        obtain ⟨-, hu⟩ := Option.ite_none_right_eq_some.mp hu
        cases hu
        exact ⟨trivial, hinput, hback⟩
      | ready =>
        obtain ⟨-, hu⟩ := Option.ite_none_right_eq_some.mp hu
        cases hu
        exact ⟨trivial, hinput, hback⟩
      | sent bytes =>
        obtain ⟨-, hu⟩ := Option.ite_none_right_eq_some.mp hu
        cases hu
        exact ⟨trivial, hinput, hback⟩
      | shutdown =>
        cases hu
        exact ⟨trivial, hinput, hback⟩
      | sockEof =>
        obtain ⟨-, hu⟩ := Option.ite_none_right_eq_some.mp hu
        cases hu
        exact ⟨trivial, hinput, hback⟩
      | shown bytes =>
        cases hu
        exact ⟨trivial, hinput, hback⟩
    intro x hx
    rcases List.mem_cons.mp hx with rfl | hx
    · exact hrest.1
    · exact ih hw hrest.2.1 hrest.2.2 x hx

/-- A client that is a relay, and the server: every run. -/
theorem Refines.flows {σ : Type} {P : UInt8 → Prop} {client : σ → List Io → σ → Prop} {start : σ}
    {held : σ → Relay} {Kept : σ → Prop} (hclient : Refines P client start held Kept)
    (hinput : ∀ b ∈ input, P b) {s : σ} (h : Run (Step client c) (start, .start input) (s, w)) :
    Kept s ∧ Flows input (held s) w := by
  have hall : Kept (s, w).1 ∧ Flows input (held (s, w).1) (s, w).2 := by
    refine h.preserves (I := fun s ↦ Kept s.1 ∧ Flows input (held s.1) s.2) ?_ ?_
    · rintro ⟨s, w⟩ a ⟨t, u⟩ ⟨hkept, hflows⟩ - hstep
      cases a with
      | client es =>
        obtain ⟨hclient', hw⟩ := hstep
        have hthere (b : UInt8) (hb : b ∈ w.input ∨ b ∈ w.back) : b ∈ input := by
          rw [← hflows.all]
          rcases hb with hb | hb <;> simp [hb]
        have hof := of_ios (P := P) hw (fun b hb ↦ hinput b (hthere b (.inl hb)))
          fun b hb ↦ hinput b (hthere b (.inr hb))
        obtain ⟨hkept', hheld⟩ := hclient.step s es t hkept hof hclient'
        exact ⟨hkept', hflows.ios hheld hw⟩
      | server k =>
        obtain ⟨ht, hw⟩ := hstep
        change t = s at ht
        rw [ht]
        exact ⟨hkept, hflows.serves (serves_of_serve hw)⟩
    · refine ⟨hclient.kept_start, ?_⟩
      change Flows input (held start) (.start input)
      rw [hclient.held_start]
      exact flows_start
  exact hall

/-- What is shown is the beginning of the input. -/
theorem Flows.output_prefix (h : Flows input r w) : w.output <+: input := by
  rw [← h.all]
  simp only [List.append_assoc]
  exact List.prefix_append _ _

/-- When the end of the socket has been seen, everything has come back. -/
theorem Flows.complete (h : Flows input r w) (heof : r.sockEof = true) :
    r.stdinEof = true ∧ w.output ++ r.toShow = input := by
  obtain ⟨hclosed, hback⟩ := h.sockEof heof
  obtain ⟨hfin, hforth⟩ := h.closed hclosed
  obtain ⟨hstdin, hsock⟩ := h.fin hfin
  refine ⟨hstdin, ?_⟩
  rw [← h.all, hclosed, hback, hforth, hsock, h.stdinEof hstdin]
  simp [Server.held]

/-! ### Room -/

/-- The bytes between the two calls of the client. -/
def World.inFlight (w : World) : Nat := w.back.length + w.server.held.length + w.forth.length

/-- What the server holds fits its buffer, and what is under way to it the room there is. -/
structure Fitting (c : Room) (w : World) : Prop where
  forth : w.forth.length ≤ c.forth
  rest : ∀ rest, w.server = .writing rest → 0 < rest.length ∧ rest.length ≤ maxLine

theorem Serves.inFlight (h : Serves c w w') : w'.inFlight = w.inFlight := by
  unfold World.inFlight
  cases h with
  | read k hs hpos hline hlen =>
    simp only [hs, Server.held, List.length_take, List.length_drop, List.length_nil]
    omega
  | eof hs hforth hfin => simp [hs, Server.held]
  | write rest k hs hpos hk hroom =>
    by_cases hlast : k = rest.length
    · simp [hs, Server.held, hlast]
    · simp only [hs, if_neg hlast, Server.held, List.length_append, List.length_take, List.length_drop]
      omega

theorem Serves.fitting (h : Serves c w w') (hw : Fitting c w) : Fitting c w' := by
  cases h with
  | read k hs hpos hline hlen =>
    refine ⟨?_, fun rest hrest ↦ ?_⟩
    · change (w.forth.drop k).length ≤ c.forth
      rw [List.length_drop]
      have := hw.forth
      omega
    · cases hrest
      rw [List.length_take]
      omega
  | eof hs hforth hfin => exact ⟨hw.forth, fun rest hrest ↦ by cases hrest⟩
  | write rest k hs hpos hk hroom =>
    refine ⟨hw.forth, fun more hmore ↦ ?_⟩
    change (if k = rest.length then Server.reading else .writing (rest.drop k)) = .writing more at hmore
    split at hmore
    · cases hmore
    · cases hmore
      have := (hw.rest rest hs).2
      rw [List.length_drop]
      omega

theorem Fitting.io (h : Fitting c w) (hw : w.io c e = some w') : Fitting c w' := by
  cases e with
  | sent bytes =>
    obtain ⟨⟨-, -, hroom⟩, hw⟩ := Option.ite_none_right_eq_some.mp hw
    cases hw
    exact ⟨by rw [List.length_append]; exact hroom, h.rest⟩
  | shutdown =>
    cases hw
    exact ⟨h.forth, h.rest⟩
  | shown bytes =>
    cases hw
    exact ⟨h.forth, h.rest⟩
  | _ =>
    obtain ⟨-, hw⟩ := Option.ite_none_right_eq_some.mp hw
    cases hw
    exact ⟨h.forth, h.rest⟩

theorem Fitting.ios {es : List Io} (h : Fitting c w) (hw : w.ios c es = some w') : Fitting c w' := by
  induction es generalizing w with
  | nil =>
    cases hw
    exact h
  | cons e es ih =>
    obtain ⟨u, hu, hw⟩ := Option.bind_eq_some_iff.mp hw
    exact ih (h.io hu) hw

theorem fin_io (hw : w.io c e = some w') : w'.fin = true ↔ w.fin = true ∨ .shutdown = e := by
  cases e with
  | shutdown =>
    cases hw
    simp
  | shown bytes =>
    cases hw
    simp
  | _ =>
    obtain ⟨-, hw⟩ := Option.ite_none_right_eq_some.mp hw
    cases hw
    simp

/-- The client's half is shut down by `Shutdown`, and stays so. -/
theorem fin_ios {es : List Io} (hw : w.ios c es = some w') :
    w'.fin = true ↔ w.fin = true ∨ .shutdown ∈ es := by
  induction es generalizing w with
  | nil =>
    cases hw
    simp
  | cons e es ih =>
    obtain ⟨u, hu, hw⟩ := Option.bind_eq_some_iff.mp hw
    rw [ih hw, fin_io hu, List.mem_cons, or_assoc]

/-- What can be read from the socket stays. -/
theorem Serves.readable (h : Serves c w w') (hw : w.readable = true) : w'.readable = true := by
  cases h with
  | read k hs hpos hline hlen => simpa [World.readable, hs] using hw
  | eof hs hforth hfin => simp [World.readable]
  | write rest k hs hpos hk hroom =>
    have hne : rest ≠ [] := List.length_pos_iff.mp (Nat.lt_of_lt_of_le hpos hk)
    have hk0 : k ≠ 0 := hpos.ne'
    simp [World.readable, List.take_eq_nil_iff, hne, hk0]

theorem Serves.fin (h : Serves c w w') : w'.fin = w.fin := by cases h <;> rfl

theorem held_le (h : Fitting c w) : w.server.held.length ≤ maxLine := by
  cases hs : w.server with
  | writing rest => exact (h.rest rest hs).2
  | _ => exact Nat.zero_le _

/-- The server waits only for bytes to read, or for room to write. -/
theorem Fitting.serve_or (h : Fitting c w) :
    (∃ k w', w.serve c k = some w') ∨ w.server = .closed ∨
      (w.server = .reading ∧ w.forth = [] ∧ w.fin = false) ∨
      (∃ rest, w.server = .writing rest ∧ c.back ≤ w.back.length) := by
  cases hs : w.server with
  | reading =>
    by_cases hforth : w.forth = []
    · cases hfin : w.fin with
      | true => exact .inl ⟨0, { w with server := .closed }, by simp [World.serve, hs, hforth, hfin]⟩
      | false => exact .inr (.inr (.inl ⟨rfl, hforth, rfl⟩))
    · refine .inl ⟨1, { w with server := .writing (w.forth.take 1), forth := w.forth.drop 1 }, ?_⟩
      have hlen := List.length_pos_iff.mpr hforth
      have hline : 1 ≤ maxLine := by decide
      simp only [World.serve, hs]
      rw [if_pos ⟨Nat.one_pos, hline, hlen⟩]
  | writing rest =>
    have hrest := h.rest rest hs
    by_cases hroom : c.back ≤ w.back.length
    · exact .inr (.inr (.inr ⟨rest, rfl, hroom⟩))
    · refine .inl ⟨1, { w with
        server := if 1 = rest.length then .reading else .writing (rest.drop 1)
        back := w.back ++ rest.take 1 }, ?_⟩
      simp only [World.serve, hs]
      rw [if_pos ⟨Nat.one_pos, hrest.1, by omega⟩]
  | closed => exact .inr (.inl rfl)

end Unpv13e.Echo
