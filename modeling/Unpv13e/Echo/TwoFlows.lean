import Unpv13e.Echo.System

/-!
# The clients with two flows of control

Library `Echo`. `str_cli` of `src/nonblock/strclifork.c`, with a child that copies from the socket to standard
output, and of `src/threads/strclithread.c`, with a thread that copies from standard input to the socket: in
both one side reads lines with `Fgets` and writes them with `Writen`, the other reads them with `Readline` and
shows them with `Fputs`. Neither waits for the other, whatever room there is on the ways.
-/

namespace Unpv13e.Echo
open Unpv13e.Base

namespace TwoFlows

/-- `'\n'` -/
def newline : UInt8 := 10

/-- The bytes before the terminator. -/
def cString (line : List UInt8) : List UInt8 := line.takeWhile (· ≠ 0)

/-- The side that writes to the socket: the parent of `strclifork.c:18–21`, `copyto` of
`strclithread.c:31–34`. -/
inductive Sender
  /-- at `Fgets`, which has met the end of standard input or not -/
  | gets (eof : Bool)
  /-- in `Writen`, with these bytes left -/
  | send (buf : List UInt8) (eof : Bool)
  /-- behind `Shutdown` -/
  | done
  deriving DecidableEq

/-- The side that reads from the socket: the child of `strclifork.c:10–11`, the main thread of
`strclithread.c:21–22`. -/
inductive Receiver
  /-- in `Readline`, with the beginning of a line and what its buffer holds -/
  | reading (line buf : List UInt8)
  /-- in `Readline` again, after one that met the end of the socket behind the beginning of a line -/
  | last
  /-- `Readline` has returned 0 -/
  | done
  deriving DecidableEq

/-- The two sides. -/
structure StrCli where
  sender : Sender
  receiver : Receiver
  deriving DecidableEq

def start : StrCli := ⟨.gets false, .reading [] []⟩

/-- A line that fills the buffer of `Fgets`, or ends with a newline. -/
def Whole (line : List UInt8) : Prop :=
  newline ∉ line.dropLast ∧ line.length ≤ maxLine - 1 ∧
    (line.length = maxLine - 1 ∨ line.getLast? = some newline)

/-- The rest of the input without a newline. -/
def Part (line : List UInt8) : Prop := newline ∉ line ∧ line.length < maxLine - 1

instance (line : List UInt8) : Decidable (Whole line) := inferInstanceAs (Decidable (_ ∧ _))

instance (line : List UInt8) : Decidable (Part line) := inferInstanceAs (Decidable (_ ∧ _))

/-- `while (Fgets(sendline, MAXLINE, fp) != NULL) Writen(sockfd, sendline, strlen(sendline));` and
`Shutdown`. -/
def sendStep (s : Sender) (es : List Io) : Option Sender :=
  match s, es with
  | .gets false, [.typed line] => if Whole line then some (.send (cString line) false) else none
  | .gets false, [.typed line, .stdinEof] => if Part line then some (.send (cString line) true) else none
  | .gets _, [.stdinEof, .shutdown] => some .done
  | .send [] eof, [] => some (.gets eof)
  | .send buf eof, [.sent bytes] =>
    if bytes <+: buf then some (.send (buf.drop bytes.length) eof) else none
  | _, _ => none

/-- `while (Readline(sockfd, recvline, MAXLINE) > 0) Fputs(recvline, stdout);` -/
def recvStep (r : Receiver) (es : List Io) : Option Receiver :=
  match r, es with
  | .reading line [], [.received bytes] =>
    if bytes.length ≤ maxLine then some (.reading line bytes) else none
  | .reading [] [], [.sockEof] => some .done
  | .reading line [], [.sockEof, .shown text] =>
    if line ≠ [] ∧ text = cString line then some .last else none
  | .reading line (c :: rest), [] =>
    if c ≠ newline ∧ line.length + 1 < maxLine - 1 then some (.reading (line ++ [c]) rest) else none
  | .reading line (c :: rest), [.shown text] =>
    if (c = newline ∨ line.length + 1 = maxLine - 1) ∧ text = cString (line ++ [c]) then
      some (.reading [] rest)
    else none
  | .last, [.sockEof] => some .done
  | _, _ => none

/-- One of the two sides takes a step. -/
inductive Client (s : StrCli) (es : List Io) : StrCli → Prop
  | sender (t : Sender) : sendStep s.sender es = some t → Client s es { s with sender := t }
  | receiver (t : Receiver) : recvStep s.receiver es = some t → Client s es { s with receiver := t }

/-- The step of the side that can take one. -/
def step (s : StrCli) (es : List Io) : Option StrCli :=
  match sendStep s.sender es with
  | some t => some { s with sender := t }
  | none => (recvStep s.receiver es).map fun t ↦ { s with receiver := t }

theorem client_of_step {s t : StrCli} {es : List Io} (h : step s es = some t) : Client s es t := by
  unfold step at h
  split at h
  · next x hx =>
    cases h
    exact .sender x hx
  · obtain ⟨x, hx, rfl⟩ := Option.map_eq_some_iff.mp h
    exact .receiver x hx

/-- What the two sides hold. -/
def held (s : StrCli) : Relay where
  toSock := match s.sender with
    | .send buf _ => buf
    | _ => []
  toShow := match s.receiver with
    | .reading line buf => line ++ buf
    | _ => []
  stdinEof := match s.sender with
    | .gets eof => eof
    | .send _ eof => eof
    | .done => true
  sockEof := s.receiver = .last || s.receiver = .done

theorem cString_eq {line : List UInt8} (h : ∀ b ∈ line, b ≠ 0) : cString line = line :=
  List.takeWhile_eq_self_iff.mpr fun b hb ↦ by simpa using h b hb

/-- What is held back for a line that is not whole has no terminator. -/
def Kept (s : StrCli) : Prop :=
  match s.receiver with
  | .reading line buf => ∀ b ∈ line ++ buf, b ≠ 0
  | _ => True

theorem refines_sender {s : StrCli} {t : Sender} {es : List Io} (hof : ∀ e ∈ es, e.Of (· ≠ 0))
    (h : sendStep s.sender es = some t) : (held s).ios es = some (held { s with sender := t }) := by
  obtain ⟨sender, receiver⟩ := s
  dsimp only at h
  unfold sendStep at h
  split at h
  · next line =>
    obtain ⟨-, h⟩ := Option.ite_none_right_eq_some.mp h
    cases h
    have hline : cString line = line := cString_eq (hof _ List.mem_cons_self)
    simp [Relay.ios, Relay.io, held, hline]
  · next line =>
    obtain ⟨-, h⟩ := Option.ite_none_right_eq_some.mp h
    cases h
    have hline : cString line = line := cString_eq (hof _ List.mem_cons_self)
    simp [Relay.ios, Relay.io, held, hline]
  · cases h
    simp [Relay.ios, Relay.io, held]
  · cases h
    rfl
  · obtain ⟨hpre, h⟩ := Option.ite_none_right_eq_some.mp h
    cases h
    simp [Relay.ios, Relay.io, held, hpre]
  · cases h

theorem refines_receiver {s : StrCli} {t : Receiver} {es : List Io} (hkept : Kept s)
    (hof : ∀ e ∈ es, e.Of (· ≠ 0)) (h : recvStep s.receiver es = some t) :
    Kept { s with receiver := t } ∧ (held s).ios es = some (held { s with receiver := t }) := by
  obtain ⟨sender, receiver⟩ := s
  dsimp only at h
  unfold recvStep at h
  split at h
  · next line bytes =>
    obtain ⟨-, h⟩ := Option.ite_none_right_eq_some.mp h
    cases h
    have hbytes : ∀ b ∈ bytes, b ≠ 0 := hof _ List.mem_cons_self
    refine ⟨fun b hb ↦ ?_, ?_⟩
    · rcases List.mem_append.mp hb with hb | hb
      · exact hkept b (List.mem_append_left _ hb)
      · exact hbytes b hb
    · simp [Relay.ios, Relay.io, held]
  · cases h
    exact ⟨trivial, rfl⟩
  · next line text =>
    obtain ⟨⟨-, htext⟩, h⟩ := Option.ite_none_right_eq_some.mp h
    cases h
    have hline : cString line = line := cString_eq fun b hb ↦ hkept b (List.mem_append_left _ hb)
    rw [htext, hline]
    exact ⟨trivial, by simp [Relay.ios, Relay.io, held]⟩
  · next line c rest =>
    obtain ⟨-, h⟩ := Option.ite_none_right_eq_some.mp h
    cases h
    refine ⟨fun b hb ↦ hkept b ?_, ?_⟩
    · simpa using hb
    · simp [Relay.ios, held]
  · next line c rest text =>
    obtain ⟨⟨-, htext⟩, h⟩ := Option.ite_none_right_eq_some.mp h
    cases h
    have hline : cString (line ++ [c]) = line ++ [c] := by
      refine cString_eq fun b hb ↦ hkept b ?_
      rcases List.mem_append.mp hb with hb | hb
      · exact List.mem_append_left _ hb
      · rw [List.mem_singleton.mp hb]
        simp
    rw [htext, hline]
    refine ⟨fun b hb ↦ hkept b ?_, ?_⟩
    · have hmem : b ∈ rest := by simpa using hb
      simp [hmem]
    · have hsplit : line ++ [c] <+: line ++ c :: rest := ⟨rest, by simp⟩
      simp [Relay.ios, Relay.io, held, hsplit]
  · cases h
    exact ⟨trivial, rfl⟩
  · cases h

/-- On input without a terminator the two sides together are a relay. -/
theorem refines : Refines (· ≠ 0) Client start held Kept := by
  refine ⟨fun b hb ↦ (by cases hb), rfl, fun s es t hkept hof h ↦ ?_⟩
  cases h with
  | sender t h => exact ⟨hkept, refines_sender hof h⟩
  | receiver t h => exact refines_receiver hkept hof h

/-! ### Neither side waits for the other -/

/-- The half is shut down when the end of standard input has been read, what the server holds fits, and no
line is longer than the buffer of `Readline`. -/
structure Ready (c : Room) (s : StrCli) (w : World) : Prop where
  fitting : Fitting c w
  fin : w.fin = true ↔ s.sender = .done
  line : ∀ line buf, s.receiver = .reading line buf → line.length < maxLine - 1

theorem ready_start (c : Room) (input : List UInt8) : Ready c start (.start input) where
  fitting := ⟨Nat.zero_le _, fun rest h ↦ by cases h⟩
  fin := ⟨fun h ↦ (by cases h), fun h ↦ (by cases h)⟩
  line := fun line buf h ↦ by
    cases h
    decide

theorem done_of_sendStep {s t : Sender} {es : List Io} (h : sendStep s es = some t) :
    s ≠ .done ∧ (t = .done ↔ .shutdown ∈ es) := by
  unfold sendStep at h
  split at h
  · obtain ⟨-, h⟩ := Option.ite_none_right_eq_some.mp h
    cases h
    simp
  · obtain ⟨-, h⟩ := Option.ite_none_right_eq_some.mp h
    cases h
    simp
  · cases h
    simp
  · cases h
    simp
  · obtain ⟨-, h⟩ := Option.ite_none_right_eq_some.mp h
    cases h
    simp
  · cases h

theorem recvStep_keeps {r t : Receiver} {es : List Io} (h : recvStep r es = some t)
    (hline : ∀ line buf, r = .reading line buf → line.length < maxLine - 1) :
    .shutdown ∉ es ∧ ∀ line buf, t = .reading line buf → line.length < maxLine - 1 := by
  have hzero : 0 < maxLine - 1 := by decide
  unfold recvStep at h
  split at h
  · obtain ⟨-, h⟩ := Option.ite_none_right_eq_some.mp h
    cases h
    exact ⟨by simp, fun line buf ht ↦ by cases ht; exact hline _ _ rfl⟩
  · cases h
    exact ⟨by simp, fun line buf ht ↦ by cases ht⟩
  · obtain ⟨-, h⟩ := Option.ite_none_right_eq_some.mp h
    cases h
    exact ⟨by simp, fun line buf ht ↦ by cases ht⟩
  · obtain ⟨hlong, h⟩ := Option.ite_none_right_eq_some.mp h
    cases h
    refine ⟨by simp, fun line buf ht ↦ ?_⟩
    cases ht
    rw [List.length_append]
    exact hlong.2
  · obtain ⟨-, h⟩ := Option.ite_none_right_eq_some.mp h
    cases h
    exact ⟨by simp, fun line buf ht ↦ by cases ht; exact hzero⟩
  · cases h
    exact ⟨by simp, fun line buf ht ↦ by cases ht⟩
  · cases h

theorem ready_of_run {c : Room} {input : List UInt8} {s : StrCli} {w : World}
    (h : Run (Step Client c) (start, .start input) (s, w)) : Ready c s w := by
  refine h.preserves (I := fun x ↦ Ready c x.1 x.2) ?_ (ready_start c input)
  rintro ⟨s, w⟩ a ⟨t, u⟩ hr - hstep
  cases a with
  | client es =>
    obtain ⟨hclient, hw⟩ := hstep
    have hfin := fin_ios hw
    cases hclient with
    | sender t ht =>
      obtain ⟨hopen, hdone⟩ := done_of_sendStep ht
      refine ⟨hr.fitting.ios hw, ?_, hr.line⟩
      rw [hfin, hr.fin, hdone]
      exact or_iff_right hopen
    | receiver t ht =>
      obtain ⟨hshut, hline⟩ := recvStep_keeps ht hr.line
      refine ⟨hr.fitting.ios hw, ?_, hline⟩
      rw [hfin, hr.fin]
      exact or_iff_left hshut
  | server k =>
    obtain ⟨hs, hserve⟩ := hstep
    change t = s at hs
    have hw := serves_of_serve hserve
    rw [hs]
    exact ⟨hw.fitting hr.fitting, by rw [hw.fin]; exact hr.fin, hr.line⟩

/-- What `Fgets` with a buffer of `n + 1` takes from the input. -/
def fgets : Nat → List UInt8 → List UInt8
  | 0, _ => []
  | _, [] => []
  | n + 1, c :: cs => if c = newline then [c] else c :: fgets n cs

theorem fgets_prefix (n : Nat) (input : List UInt8) : fgets n input <+: input := by
  induction input generalizing n with
  | nil => cases n <;> exact List.nil_prefix
  | cons c cs ih =>
    cases n with
    | zero => exact List.nil_prefix
    | succ n =>
      rw [fgets]
      split
      · exact ⟨cs, rfl⟩
      · exact List.cons_prefix_cons.mpr ⟨rfl, ih n⟩

/-- It is whole, or all of the input. -/
theorem fgets_whole_or (n : Nat) (input : List UInt8) :
    (newline ∉ (fgets n input).dropLast ∧ (fgets n input).length ≤ n ∧
      ((fgets n input).length = n ∨ (fgets n input).getLast? = some newline)) ∨
      (newline ∉ fgets n input ∧ (fgets n input).length < n ∧ fgets n input = input) := by
  induction input generalizing n with
  | nil =>
    cases n with
    | zero => exact .inl ⟨by simp [fgets], Nat.le_refl _, .inl rfl⟩
    | succ n => exact .inr ⟨by simp [fgets], Nat.succ_pos n, rfl⟩
  | cons c cs ih =>
    cases n with
    | zero => exact .inl ⟨by simp [fgets], Nat.le_refl _, .inl rfl⟩
    | succ n =>
      rw [fgets]
      split
      · next hc => exact .inl ⟨by simp, by simp, .inr (by simp [hc])⟩
      · next hc =>
        rcases ih n with ⟨hno, hle, hend⟩ | ⟨hno, hlt, hall⟩
        · refine .inl ⟨?_, by simpa using hle, ?_⟩
          · cases hl : fgets n cs with
            | nil => simp
            | cons d ds =>
              rw [hl] at hno
              simp only [List.dropLast_cons_cons, List.mem_cons, not_or]
              exact ⟨Ne.symm hc, hno⟩
          · rcases hend with hend | hend
            · exact .inl (by simp [hend])
            · right
              cases hl : fgets n cs with
              | nil =>
                rw [hl] at hend
                cases hend
              | cons d ds =>
                rw [hl] at hend
                rw [List.getLast?_cons_cons]
                exact hend
        · refine .inr ⟨?_, by simpa using hlt, by rw [hall]⟩
          simp only [List.mem_cons, not_or]
          exact ⟨Ne.symm hc, hno⟩

/-- The side that writes can go on while there is nothing on the way to the server. -/
theorem not_stuck_sender {c : Room} {s : StrCli} {w : World} (hr : Ready c s w)
    (heof : (held s).stdinEof = true → w.input = []) (hforth : 0 < c.forth) (hempty : w.forth = [])
    (hopen : w.fin = false) : ¬ Stuck Client c (s, w) := by
  have hstep {t : Sender} {es : List Io} {u : World} (ht : sendStep s.sender es = some t)
      (hu : w.ios c es = some u) : ¬ Stuck Client c (s, w) :=
    not_stuck_of_client (Client.sender t ht) hu
  have hend (hnil : w.input = []) : w.ios c [.stdinEof, .shutdown] = some { w with fin := true } := by
    simp [World.ios, World.io, hnil]
  cases hs : s.sender with
  | done =>
    have := hr.fin.mpr hs
    rw [hopen] at this
    cases this
  | gets eof =>
    by_cases hnil : w.input = []
    · exact hstep (t := .done) (by rw [hs]; cases eof <;> rfl) (hend hnil)
    · cases eof with
      | true => exact absurd (heof (by simp [held, hs])) hnil
      | false =>
        have hpre := fgets_prefix (maxLine - 1) w.input
        have hne : fgets (maxLine - 1) w.input ≠ [] := by
          obtain ⟨b, bs, hb⟩ := List.exists_cons_of_ne_nil hnil
          rw [hb]
          change fgets (maxLine - 2 + 1) (b :: bs) ≠ []
          rw [fgets]
          split <;> simp
        have htyped : w.io c (.typed (fgets (maxLine - 1) w.input)) =
            some { w with input := w.input.drop (fgets (maxLine - 1) w.input).length } :=
          if_pos ⟨hne, hpre⟩
        rcases fgets_whole_or (maxLine - 1) w.input with hwhole | ⟨hno, hlt, hall⟩
        · refine hstep (t := .send (cString (fgets (maxLine - 1) w.input)) false) ?_
            ((World.ios_one c w _).trans htyped)
          rw [hs]
          exact if_pos hwhole
        · have ht : sendStep s.sender [.typed (fgets (maxLine - 1) w.input), .stdinEof] =
              some (.send (cString (fgets (maxLine - 1) w.input)) true) := by
            rw [hs]
            exact if_pos ⟨hno, hlt⟩
          have hnil' : w.input.drop (fgets (maxLine - 1) w.input).length = [] := by
            rw [hall, List.drop_length]
          refine hstep ht (u := { w with input := w.input.drop (fgets (maxLine - 1) w.input).length }) ?_
          simp only [World.ios, htyped, Option.bind_some]
          simp [World.io, hnil']
  | send buf eof =>
    cases buf with
    | nil =>
      have ht : sendStep s.sender [] = some (.gets eof) := by rw [hs]; rfl
      exact hstep ht rfl
    | cons b bs =>
      have ht : sendStep s.sender [.sent [b]] = some (.send bs eof) := by
        rw [hs]
        exact if_pos ⟨bs, rfl⟩
      refine hstep ht (u := { w with forth := [b] }) ?_
      rw [World.ios_one]
      refine (if_pos ⟨List.cons_ne_nil _ _, hopen, ?_⟩).trans (by rw [hempty]; rfl)
      rw [hempty]
      exact hforth

/-- The side that reads can go on with what it has, or with what can be read. -/
theorem not_stuck_receiver {c : Room} {s : StrCli} {w : World} (hr : Ready c s w)
    {line buf : List UInt8} (hs : s.receiver = .reading line buf)
    (hgo : buf ≠ [] ∨ w.readable = true) : ¬ Stuck Client c (s, w) := by
  have hstep {t : Receiver} {es : List Io} {u : World} (ht : recvStep s.receiver es = some t)
      (hu : w.ios c es = some u) : ¬ Stuck Client c (s, w) :=
    not_stuck_of_client (Client.receiver t ht) hu
  have hlen := hr.line line buf hs
  rw [hs] at hstep
  cases buf with
  | cons b rest =>
    by_cases hlong : b ≠ newline ∧ line.length + 1 < maxLine - 1
    · have ht : recvStep (.reading line (b :: rest)) [] = some (.reading (line ++ [b]) rest) :=
        if_pos hlong
      exact hstep ht rfl
    · have hend : b = newline ∨ line.length + 1 = maxLine - 1 := by
        by_cases hb : b = newline
        · exact .inl hb
        · exact .inr (by
            have : ¬ line.length + 1 < maxLine - 1 := fun hlt ↦ hlong ⟨hb, hlt⟩
            omega)
      have ht : recvStep (.reading line (b :: rest)) [.shown (cString (line ++ [b]))] =
          some (.reading [] rest) := if_pos ⟨hend, rfl⟩
      exact hstep ht (World.ios_one c w _)
  | nil =>
    have hread := hgo.resolve_left fun hne ↦ hne rfl
    by_cases hback : w.back = []
    · have hclosed : w.server = .closed := by simpa [World.readable, hback] using hread
      have heof : w.io c .sockEof = some w := if_pos ⟨hback, hclosed⟩
      cases line with
      | nil => exact hstep (t := .done) rfl ((World.ios_one c w _).trans heof)
      | cons b bs =>
        have ht : recvStep (.reading (b :: bs) []) [.sockEof, .shown (cString (b :: bs))] = some .last :=
          if_pos ⟨List.cons_ne_nil _ _, rfl⟩
        refine hstep ht (u := { w with output := w.output ++ cString (b :: bs) }) ?_
        simp only [World.ios, heof, Option.bind_some]
        rfl
    · have hpos := List.length_pos_iff.mpr hback
      have hline : 0 < maxLine := by decide
      have hne : w.back.take maxLine ≠ [] := List.length_pos_iff.mp (by
        rw [List.length_take]
        omega)
      have ht : recvStep (.reading line []) [.received (w.back.take maxLine)] =
          some (.reading line (w.back.take maxLine)) := if_pos (List.length_take_le _ _)
      refine hstep ht (u := { w with back := w.back.drop (w.back.take maxLine).length }) ?_
      rw [World.ios_one]
      exact if_pos ⟨hne, List.take_prefix _ _⟩

/-- What is shown is the beginning of the input; until the end of the socket has been read some step can be
taken, and then everything has been shown and the other side has finished. -/
theorem neither_waits {c : Room} (hforth : 0 < c.forth) (hback : 0 < c.back) {input : List UInt8}
    (hinput : ∀ b ∈ input, b ≠ 0) {s : StrCli} {w : World}
    (h : Run (Step Client c) (start, .start input) (s, w)) :
    w.output <+: input ∧ (s.receiver ≠ .done → ¬ Stuck Client c (s, w)) ∧
      (s.receiver = .done → s.sender = .done ∧ w.output = input) := by
  have hr := ready_of_run h
  obtain ⟨hkept, hflows⟩ := refines.flows hinput h
  refine ⟨hflows.output_prefix, fun hopen ↦ ?_, fun hdone ↦ ?_⟩
  · cases hs : s.receiver with
    | done => exact absurd hs hopen
    | last =>
      have heof : (held s).sockEof = true := by simp [held, hs]
      obtain ⟨hclosed, hnil⟩ := hflows.sockEof heof
      have ht : recvStep s.receiver [.sockEof] = some .done := by
        rw [hs]
        rfl
      have hw : w.ios c [.sockEof] = some w := (World.ios_one c w _).trans (if_pos ⟨hnil, hclosed⟩)
      exact not_stuck_of_client (Client.receiver _ ht) hw
    | reading line buf =>
      by_cases hgo : buf ≠ [] ∨ w.readable = true
      · exact not_stuck_receiver hr hs hgo
      · obtain ⟨-, hread⟩ := not_or.mp hgo
        simp only [World.readable, Bool.or_eq_true, decide_eq_true_eq, not_or, not_not] at hread
        rcases hr.fitting.serve_or with ⟨k, u, hu⟩ | hclosed | ⟨-, hempty, hfin⟩ | ⟨rest, -, hfull⟩
        · exact not_stuck_of_server hu
        · exact absurd hclosed hread.2
        · exact not_stuck_sender hr hflows.stdinEof hforth hempty hfin
        · rw [hread.1, List.length_nil] at hfull
          omega
  · have heof : (held s).sockEof = true := by simp [held, hdone]
    have hfin := (hflows.closed (hflows.sockEof heof).1).1
    have hall := (hflows.complete heof).2
    refine ⟨hr.fin.mp hfin, ?_⟩
    simpa [held, hdone] using hall

/-- A line and the beginning of another are typed, and come back. -/
theorem neither_waits_line : ∃ (s : StrCli) (w : World), s.receiver = .done ∧
    (w.output <+: [65, 10, 66] ∧ (s.receiver ≠ .done → ¬ Stuck Client ⟨2, 2⟩ (s, w)) ∧
      (s.receiver = .done → s.sender = .done ∧ w.output = [65, 10, 66])) := by
  let acts : List Act :=
    [.client [.typed [65, 10]], .client [.sent [65, 10]], .client [], .server 2,
      .client [.typed [66], .stdinEof], .server 2, .client [.sent [66]], .client [], .server 1,
      .client [.received [65, 10]], .client [], .client [.shown [65, 10]], .client [.stdinEof, .shutdown],
      .server 1, .server 0, .client [.received [66]], .client [], .client [.sockEof, .shown [66]],
      .client [.sockEof]]
  have hplay : playActs (next step ⟨2, 2⟩) (start, .start [65, 10, 66]) acts =
      some (⟨.done, .done⟩, ⟨[], [], true, .closed, [], [65, 10, 66]⟩) := by decide +kernel
  exact ⟨_, _, rfl, neither_waits (by decide) (by decide) (by simp)
    (run_of_next (fun _ _ _ h ↦ client_of_step h) hplay)⟩

end TwoFlows
end Unpv13e.Echo
