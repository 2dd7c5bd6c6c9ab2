import Unpv13e.Echo.System

/-!
# The client with `select` and `shutdown`

Library `Echo`. `str_cli` of `src/select/strcliselect02.c` against the echo server: everything that was
typed is shown before it returns, and it never takes the server for dead.
-/

namespace Unpv13e.Echo
open Unpv13e.Base

namespace Select02

/-- Where `str_cli` is. -/
inductive Pc
  | select
  /-- `if (FD_ISSET(sockfd, &rset))` -/
  | sock (rsock rstdin : Bool)
  /-- `Write(fileno(stdout), buf, n)` -/
  | show (buf : List UInt8) (rstdin : Bool)
  /-- `if (FD_ISSET(fileno(fp), &rset))` -/
  | stdin (rstdin : Bool)
  /-- `Writen`, with these bytes left -/
  | send (buf : List UInt8)
  /-- normal termination -/
  | returned
  /-- `err_quit` -/
  | quit
  deriving DecidableEq

/-- The local variables. -/
structure StrCli where
  stdineof : Bool
  pc : Pc
  deriving DecidableEq

def start : StrCli := ⟨false, .select⟩

/-- The bytes one `Read` can give. -/
def Fits (bytes : List UInt8) : Prop := bytes.length ≤ maxLine

instance (bytes : List UInt8) : Decidable (Fits bytes) := inferInstanceAs (Decidable (_ ≤ _))

/-- What is done next, `src/select/strcliselect02.c:11–42`; `Select` waits while nothing can be read. -/
def step (s : StrCli) (es : List Io) : Option StrCli :=
  match s.pc, es with
  | .select, [.ready rstdin rsock _] =>
    if (rstdin = true → s.stdineof = false) ∧ (rstdin || rsock) then
      some { s with pc := .sock rsock rstdin }
    else none
  | .sock false rstdin, [] => some { s with pc := .stdin rstdin }
  | .sock true _, [.sockEof] => some { s with pc := if s.stdineof then .returned else .quit }
  | .sock true rstdin, [.received buf] =>
    if Fits buf then some { s with pc := .show buf rstdin } else none
  | .show buf rstdin, [.shown bytes] => if bytes = buf then some { s with pc := .stdin rstdin } else none
  | .stdin false, [] => some { s with pc := .select }
  | .stdin true, [.stdinEof, .shutdown] => some ⟨true, .select⟩
  | .stdin true, [.typed buf] => if Fits buf then some { s with pc := .send buf } else none
  | .send buf, [.sent bytes] =>
    if bytes <+: buf then
      some { s with pc := if bytes = buf then .select else .send (buf.drop bytes.length) }
    else none
  | _, _ => none

/-- The step as a relation. -/
abbrev Client (s : StrCli) (es : List Io) (t : StrCli) : Prop := step s es = some t

/-- What a step does. -/
inductive Does (s : StrCli) : List Io → StrCli → Prop
  | select (rstdin rsock wsock : Bool) : s.pc = .select → (rstdin = true → s.stdineof = false) →
      (rstdin || rsock) = true → Does s [.ready rstdin rsock wsock] { s with pc := .sock rsock rstdin }
  | skipSock (rstdin : Bool) : s.pc = .sock false rstdin → Does s [] { s with pc := .stdin rstdin }
  | sockEof (rstdin : Bool) : s.pc = .sock true rstdin →
      Does s [.sockEof] { s with pc := if s.stdineof then .returned else .quit }
  | receive (rstdin : Bool) (buf : List UInt8) : s.pc = .sock true rstdin → Fits buf →
      Does s [.received buf] { s with pc := .show buf rstdin }
  | show (rstdin : Bool) (buf : List UInt8) : s.pc = .show buf rstdin →
      Does s [.shown buf] { s with pc := .stdin rstdin }
  | skipStdin : s.pc = .stdin false → Does s [] { s with pc := .select }
  | stdinEof : s.pc = .stdin true → Does s [.stdinEof, .shutdown] ⟨true, .select⟩
  | type (buf : List UInt8) : s.pc = .stdin true → Fits buf → Does s [.typed buf] { s with pc := .send buf }
  | send (buf bytes : List UInt8) : s.pc = .send buf → bytes <+: buf →
      Does s [.sent bytes] { s with pc := if bytes = buf then .select else .send (buf.drop bytes.length) }

theorem does_of_step {s t : StrCli} {es : List Io} (h : step s es = some t) : Does s es t := by
  unfold step at h
  split at h
  · next hpc =>
    obtain ⟨⟨hstdin, hone⟩, h⟩ := Option.ite_none_right_eq_some.mp h
    cases h
    exact .select _ _ _ hpc hstdin hone
  · next hpc => cases h; exact .skipSock _ hpc
  · next hpc => cases h; exact .sockEof _ hpc
  · next hpc =>
    obtain ⟨hfits, h⟩ := Option.ite_none_right_eq_some.mp h
    cases h
    exact .receive _ _ hpc hfits
  · next hpc =>
    obtain ⟨hall, h⟩ := Option.ite_none_right_eq_some.mp h
    cases h
    rw [hall]
    exact .show _ _ hpc
  · next hpc => cases h; exact .skipStdin hpc
  · next hpc => cases h; exact .stdinEof hpc
  · next hpc =>
    obtain ⟨hfits, h⟩ := Option.ite_none_right_eq_some.mp h
    cases h
    exact .type _ hpc hfits
  · next hpc =>
    obtain ⟨hpre, h⟩ := Option.ite_none_right_eq_some.mp h
    cases h
    exact .send _ _ hpc hpre
  · cases h

/-- What the client holds. -/
def held (s : StrCli) : Relay where
  toSock := match s.pc with
    | .send buf => buf
    | _ => []
  toShow := match s.pc with
    | .show buf _ => buf
    | _ => []
  stdinEof := s.stdineof
  sockEof := s.pc = .returned || s.pc = .quit

/-- While standard input is looked at, its end has not been read; nor has it before `err_quit`. -/
def Kept (s : StrCli) : Prop :=
  match s.pc with
  | .quit => s.stdineof = false
  | .sock _ true => s.stdineof = false
  | .show _ true => s.stdineof = false
  | .stdin true => s.stdineof = false
  | .send _ => s.stdineof = false
  | _ => True

/-- What it has read it passes on, and it shuts down with nothing left to send. -/
theorem refines : Refines (fun _ ↦ True) Client start held Kept := by
  refine ⟨trivial, rfl, fun s es t hkept _ h ↦ ?_⟩
  obtain ⟨stdineof, pc⟩ := s
  cases does_of_step h with
  | select rstdin rsock wsock hpc hstdin hone =>
    obtain rfl : pc = .select := hpc
    refine ⟨?_, rfl⟩
    cases rstdin
    · trivial
    · exact hstdin rfl
  | skipSock rstdin hpc =>
    obtain rfl : pc = .sock false rstdin := hpc
    refine ⟨?_, rfl⟩
    cases rstdin
    · trivial
    · exact hkept
  | sockEof rstdin hpc =>
    obtain rfl : pc = .sock true rstdin := hpc
    cases stdineof
    · exact ⟨rfl, rfl⟩
    · exact ⟨trivial, rfl⟩
  | receive rstdin buf hpc hfits =>
    obtain rfl : pc = .sock true rstdin := hpc
    refine ⟨?_, rfl⟩
    cases rstdin
    · trivial
    · exact hkept
  | «show» rstdin buf hpc =>
    obtain rfl : pc = .show buf rstdin := hpc
    refine ⟨?_, ?_⟩
    · cases rstdin
      · trivial
      · exact hkept
    · simp [Relay.ios, Relay.io, held]
  | skipStdin hpc =>
    obtain rfl : pc = .stdin false := hpc
    exact ⟨trivial, rfl⟩
  | stdinEof hpc =>
    obtain rfl : pc = .stdin true := hpc
    exact ⟨trivial, rfl⟩
  | type buf hpc hfits =>
    obtain rfl : pc = .stdin true := hpc
    exact ⟨hkept, rfl⟩
  | send buf bytes hpc hpre =>
    obtain rfl : pc = .send buf := hpc
    by_cases hall : bytes = buf
    · subst hall
      simp [Relay.ios, Relay.io, held, Kept]
    · simp only [if_neg hall]
      refine ⟨hkept, ?_⟩
      simp [Relay.ios, Relay.io, held, hpre]

/-- The end of the socket is never seen before that of standard input. -/
theorem not_quit {c : Room} {input : List UInt8} {s : StrCli} {w : World}
    (h : Run (Step Client c) (start, .start input) (s, w)) : s.pc ≠ .quit := by
  intro hquit
  obtain ⟨hkept, hflows⟩ := refines.flows (fun _ _ ↦ trivial) h
  have heof : (held s).sockEof = true := by simp [held, hquit]
  have hopen : s.stdineof = false := by simpa only [Kept, hquit] using hkept
  have hstdin : s.stdineof = true := (hflows.complete heof).1
  rw [hopen] at hstdin
  cases hstdin

/-- What is shown is the beginning of the input; the end of the socket is never seen before that of
standard input, and when the function returns everything has been shown. -/
theorem delivers {c : Room} {input : List UInt8} {s : StrCli} {w : World}
    (h : Run (Step Client c) (start, .start input) (s, w)) :
    w.output <+: input ∧ s.pc ≠ .quit ∧ (s.pc = .returned → w.output = input) := by
  obtain ⟨-, hflows⟩ := refines.flows (fun _ _ ↦ trivial) h
  refine ⟨hflows.output_prefix, not_quit h, fun hreturned ↦ ?_⟩
  have heof : (held s).sockEof = true := by simp [held, hreturned]
  have hall := (hflows.complete heof).2
  simpa [held, hreturned] using hall

/-- One byte is typed, sent, and comes back before the end of standard input. -/
theorem delivers_byte : ∃ (s : StrCli) (w : World), s.pc = .returned ∧
    (w.output <+: [7] ∧ s.pc ≠ .quit ∧ (s.pc = .returned → w.output = [7])) := by
  let acts : List Act :=
    [.client [.ready true false true], .client [], .client [.typed [7]], .client [.sent [7]], .server 1,
      .server 1, .client [.ready true true true], .client [.received [7]], .client [.shown [7]],
      .client [.stdinEof, .shutdown], .server 0, .client [.ready false true true], .client [.sockEof]]
  have hplay : playActs (next step ⟨1, 1⟩) (start, .start [7]) acts =
      some (⟨true, .returned⟩, ⟨[], [], true, .closed, [], [7]⟩) := by decide +kernel
  exact ⟨_, _, rfl, delivers (run_of_next (fun _ _ _ h ↦ h) hplay)⟩

end Select02
end Unpv13e.Echo
