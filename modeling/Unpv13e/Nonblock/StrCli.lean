import Unpv13e.Base.Buffer
import Unpv13e.Base.Runs
import Unpv13e.Base.Text

/-!
# The client with nonblocking I/O

Library `Nonblock`. `str_cli` of `src/nonblock/strclinonb.c`: one turn of its loop is a `select`, two
reads and two writes, each of them a step. The socket is another descriptor than standard input and
output. `err_quit` and failing calls end the program; it takes no step then.
-/

namespace Unpv13e.Nonblock
open Unpv13e.Base

/-- `MAXLINE` -/
def maxLine : Nat := 4096

/-- The steps of the loop. -/
inductive Pc
  | select
  /-- `if (FD_ISSET(STDIN_FILENO, &rset))` -/
  | stdin
  /-- `if (FD_ISSET(sockfd, &rset))` -/
  | sockIn
  /-- `if (FD_ISSET(STDOUT_FILENO, &wset) && ...)` -/
  | stdout
  /-- `if (FD_ISSET(sockfd, &wset) && ...)` -/
  | sockOut
  /-- normal termination -/
  | returned
  deriving DecidableEq

/-- The local variables, and what went through the descriptors. -/
structure StrCli where
  /-- `to`, `tooptr` and `toiptr` -/
  toBuf : Buffer UInt8
  /-- `fr`, `froptr` and `friptr` -/
  frBuf : Buffer UInt8
  stdineof : Bool
  rstdin : Bool
  rsock : Bool
  wstdout : Bool
  wsock : Bool
  pc : Pc
  /-- calls of `Shutdown` -/
  shutdowns : Nat
  /-- read from standard input -/
  typed : List UInt8
  /-- written to the socket -/
  sent : List UInt8
  /-- read from the socket -/
  received : List UInt8
  /-- written to standard output -/
  shown : List UInt8

/-- How a `read` ends. -/
inductive ReadResult
  | data (bytes : List UInt8)
  | eof
  | wouldblock

/-- How a `write` ends. -/
inductive WriteResult
  | wrote (k : Nat)
  | wouldblock

/-- What a step gets from outside. -/
inductive Act
  /-- what `Select` leaves in the sets -/
  | select (rstdin rsock wstdout wsock : Bool)
  | read (r : ReadResult)
  | write (r : WriteResult)
  /-- nothing is read or written -/
  | pass

namespace StrCli

/-- Before the first turn of the loop, `src/nonblock/strclinonb.c:22–24`. -/
def start : StrCli where
  toBuf := ⟨List.replicate maxLine 0, 0, 0⟩
  frBuf := ⟨List.replicate maxLine 0, 0, 0⟩
  stdineof := false
  rstdin := false
  rsock := false
  wstdout := false
  wsock := false
  pc := .select
  shutdowns := 0
  typed := []
  sent := []
  received := []
  shown := []

/-- What the sets may hold, `src/nonblock/strclinonb.c:28–37`. -/
def Asked (s : StrCli) (rstdin rsock wstdout wsock : Bool) : Prop :=
  (rstdin → s.stdineof = false ∧ s.toBuf.iptr < maxLine) ∧ (rsock → s.frBuf.iptr < maxLine) ∧
    (wsock → s.toBuf.optr ≠ s.toBuf.iptr) ∧ (wstdout → s.frBuf.optr ≠ s.frBuf.iptr)

instance (s : StrCli) (rstdin rsock wstdout wsock : Bool) :
    Decidable (s.Asked rstdin rsock wstdout wsock) := inferInstanceAs (Decidable (_ ∧ _))

/-- The bytes a `read` with this much space can give. -/
def Fits (bytes : List UInt8) (room : Nat) : Prop := bytes ≠ [] ∧ bytes.length ≤ room

instance (bytes : List UInt8) (room : Nat) : Decidable (Fits bytes room) :=
  inferInstanceAs (Decidable (_ ∧ _))

/-- `src/nonblock/strclinonb.c:43–62` -/
def readStdin (s : StrCli) : ReadResult → Except Stop StrCli
  | .wouldblock => .ok { s with pc := .sockIn }
  | .eof =>
    .ok { s with
      stdineof := true
      shutdowns := if s.toBuf.optr = s.toBuf.iptr then s.shutdowns + 1 else s.shutdowns
      pc := .sockIn }
  | .data bytes =>
    if Fits bytes s.toBuf.room then
      .ok { s with toBuf := s.toBuf.fill bytes, typed := s.typed ++ bytes, wsock := true, pc := .sockIn }
    else .error .blocked

/-- `src/nonblock/strclinonb.c:64–86` -/
def readSock (s : StrCli) : ReadResult → Except Stop StrCli
  | .wouldblock => .ok { s with pc := .stdout }
  | .eof => if s.stdineof then .ok { s with pc := .returned } else .error .blocked
  | .data bytes =>
    if Fits bytes s.frBuf.room then
      .ok { s with
        frBuf := s.frBuf.fill bytes, received := s.received ++ bytes, wstdout := true, pc := .stdout }
    else .error .blocked

/-- `src/nonblock/strclinonb.c:89–103` -/
def writeStdout (s : StrCli) : WriteResult → Except Stop StrCli
  | .wouldblock => .ok { s with pc := .sockOut }
  | .wrote k =>
    if k ≤ s.frBuf.iptr - s.frBuf.optr then
      .ok { s with frBuf := s.frBuf.drain k, shown := s.shown ++ s.frBuf.pending.take k, pc := .sockOut }
    else .error .blocked

/-- `src/nonblock/strclinonb.c:105–122` -/
def writeSock (s : StrCli) : WriteResult → Except Stop StrCli
  | .wouldblock => .ok { s with pc := .select }
  | .wrote k =>
    if k ≤ s.toBuf.iptr - s.toBuf.optr then
      .ok { s with
        toBuf := s.toBuf.drain k
        sent := s.sent ++ s.toBuf.pending.take k
        shutdowns :=
          if s.toBuf.optr + k = s.toBuf.iptr ∧ s.stdineof = true then s.shutdowns + 1 else s.shutdowns
        pc := .select }
    else .error .blocked

/-- The next step. -/
def step (s : StrCli) (a : Act) : Except Stop StrCli :=
  match s.pc with
  | .select =>
    match a with
    | .select rstdin rsock wstdout wsock =>
      if s.Asked rstdin rsock wstdout wsock then
        .ok { s with rstdin := rstdin, rsock := rsock, wstdout := wstdout, wsock := wsock, pc := .stdin }
      else .error .blocked
    | _ => .error .blocked
  | .stdin =>
    match s.rstdin, a with
    | true, .read r => s.readStdin r
    | false, .pass => .ok { s with pc := .sockIn }
    | _, _ => .error .blocked
  | .sockIn =>
    match s.rsock, a with
    | true, .read r => s.readSock r
    | false, .pass => .ok { s with pc := .stdout }
    | _, _ => .error .blocked
  | .stdout =>
    match decide (s.wstdout = true ∧ s.frBuf.optr < s.frBuf.iptr), a with
    | true, .write r => s.writeStdout r
    | false, .pass => .ok { s with pc := .sockOut }
    | _, _ => .error .blocked
  | .sockOut =>
    match decide (s.wsock = true ∧ s.toBuf.optr < s.toBuf.iptr), a with
    | true, .write r => s.writeSock r
    | false, .pass => .ok { s with pc := .select }
    | _, _ => .error .blocked
  | .returned => .error .blocked

/-- The step as a relation. -/
def Step (s : StrCli) (a : Act) (t : StrCli) : Prop := s.step a = .ok t

/-! ### What a step does -/

/-- The steps that are taken. -/
inductive Does (s : StrCli) (a : Act) : StrCli → Prop
  | select (rstdin rsock wstdout wsock : Bool) (hpc : s.pc = .select)
    (hasked : s.Asked rstdin rsock wstdout wsock) :
    Does s a { s with rstdin := rstdin, rsock := rsock, wstdout := wstdout, wsock := wsock, pc := .stdin }
  | skip (pc : Pc) (hpc : s.pc ≠ .select) (hnext : pc ≠ .stdin ∧ pc ≠ .returned) :
    Does s a { s with pc := pc }
  | stdin (bytes : List UInt8) (hpc : s.pc = .stdin) (hset : s.rstdin = true)
    (hfits : Fits bytes s.toBuf.room) :
    Does s a { s with toBuf := s.toBuf.fill bytes, typed := s.typed ++ bytes, wsock := true, pc := .sockIn }
  | stdinEof (hpc : s.pc = .stdin) (hset : s.rstdin = true) :
    Does s a { s with
      stdineof := true
      shutdowns := if s.toBuf.optr = s.toBuf.iptr then s.shutdowns + 1 else s.shutdowns
      pc := .sockIn }
  | sock (bytes : List UInt8) (hpc : s.pc = .sockIn) (hfits : Fits bytes s.frBuf.room) :
    Does s a { s with
      frBuf := s.frBuf.fill bytes, received := s.received ++ bytes, wstdout := true, pc := .stdout }
  | sockEof (ha : a = .read .eof) (hpc : s.pc = .sockIn) (heof : s.stdineof = true) :
    Does s a { s with pc := .returned }
  | stdout (k : Nat) (hpc : s.pc = .stdout) (hk : k ≤ s.frBuf.iptr - s.frBuf.optr) :
    Does s a { s with frBuf := s.frBuf.drain k, shown := s.shown ++ s.frBuf.pending.take k, pc := .sockOut }
  | sockOut (k : Nat) (hpc : s.pc = .sockOut) (hlt : s.toBuf.optr < s.toBuf.iptr)
    (hk : k ≤ s.toBuf.iptr - s.toBuf.optr) :
    Does s a { s with
      toBuf := s.toBuf.drain k
      sent := s.sent ++ s.toBuf.pending.take k
      shutdowns :=
        if s.toBuf.optr + k = s.toBuf.iptr ∧ s.stdineof = true then s.shutdowns + 1 else s.shutdowns
      pc := .select }

variable {s t : StrCli} {a : Act}

private theorem does_of_stdin {r : ReadResult} (hpc : s.pc = .stdin) (hset : s.rstdin = true)
    (h : s.readStdin r = .ok t) : Does s (.read r) t := by
  cases r with
  | wouldblock =>
    cases h
    exact .skip .sockIn (by rw [hpc]; decide) (by decide)
  | eof =>
    cases h
    exact .stdinEof hpc hset
  | data bytes =>
    unfold readStdin at h
    dsimp only at h
    split at h
    · next hfits =>
      cases h
      exact .stdin bytes hpc hset hfits
    · cases h

private theorem does_of_sock {r : ReadResult} (hpc : s.pc = .sockIn)
    (h : s.readSock r = .ok t) : Does s (.read r) t := by
  cases r with
  | wouldblock =>
    cases h
    exact .skip .stdout (by rw [hpc]; decide) (by decide)
  | eof =>
    unfold readSock at h
    dsimp only at h
    split at h
    · next heof =>
      cases h
      exact .sockEof rfl hpc heof
    · cases h
  | data bytes =>
    unfold readSock at h
    dsimp only at h
    split at h
    · next hfits =>
      cases h
      exact .sock bytes hpc hfits
    · cases h

private theorem does_of_stdout {r : WriteResult} (hpc : s.pc = .stdout)
    (h : s.writeStdout r = .ok t) : Does s (.write r) t := by
  cases r with
  | wouldblock =>
    cases h
    exact .skip .sockOut (by rw [hpc]; decide) (by decide)
  | wrote k =>
    unfold writeStdout at h
    dsimp only at h
    split at h
    · next hk =>
      cases h
      exact .stdout k hpc hk
    · cases h

private theorem does_of_sockOut {r : WriteResult} (hpc : s.pc = .sockOut)
    (hlt : s.toBuf.optr < s.toBuf.iptr) (h : s.writeSock r = .ok t) : Does s (.write r) t := by
  cases r with
  | wouldblock =>
    cases h
    exact .skip .select (by rw [hpc]; decide) (by decide)
  | wrote k =>
    unfold writeSock at h
    dsimp only at h
    split at h
    · next hk =>
      cases h
      exact .sockOut k hpc hlt hk
    · cases h

/-- Every step is one of these. -/
theorem does_of_step (h : Step s a t) : Does s a t := by
  unfold Step step at h
  cases hpc : s.pc with
  | select =>
    rw [hpc] at h
    cases a with
    | select rstdin rsock wstdout wsock =>
      dsimp only at h
      split at h
      · next hasked =>
        cases h
        exact .select _ _ _ _ hpc hasked
      · cases h
    | _ => cases h
  | stdin =>
    rw [hpc] at h
    dsimp only at h
    cases hset : s.rstdin with
    | true =>
      rw [hset] at h
      cases a with
      | read r => exact does_of_stdin hpc hset h
      | _ => cases h
    | false =>
      rw [hset] at h
      cases a with
      | pass =>
        dsimp only at h
        rw [← hset] at h
        cases h
        exact .skip .sockIn (by rw [hpc]; decide) (by decide)
      | _ => cases h
  | sockIn =>
    rw [hpc] at h
    dsimp only at h
    cases hset : s.rsock with
    | true =>
      rw [hset] at h
      cases a with
      | read r => exact does_of_sock hpc h
      | _ => cases h
    | false =>
      rw [hset] at h
      cases a with
      | pass =>
        dsimp only at h
        rw [← hset] at h
        cases h
        exact .skip .stdout (by rw [hpc]; decide) (by decide)
      | _ => cases h
  | stdout =>
    rw [hpc] at h
    dsimp only at h
    cases hset : decide (s.wstdout = true ∧ s.frBuf.optr < s.frBuf.iptr) with
    | true =>
      rw [hset] at h
      cases a with
      | write r => exact does_of_stdout hpc h
      | _ => cases h
    | false =>
      rw [hset] at h
      cases a with
      | pass =>
        cases h
        exact .skip .sockOut (by rw [hpc]; decide) (by decide)
      | _ => cases h
  | sockOut =>
    rw [hpc] at h
    dsimp only at h
    cases hset : decide (s.wsock = true ∧ s.toBuf.optr < s.toBuf.iptr) with
    | true =>
      rw [hset] at h
      cases a with
      | write r => exact does_of_sockOut hpc (of_decide_eq_true hset).2 h
      | _ => cases h
    | false =>
      rw [hset] at h
      cases a with
      | pass =>
        cases h
        exact .skip .select (by rw [hpc]; decide) (by decide)
      | _ => cases h
  | returned =>
    rw [hpc] at h
    cases h

end StrCli
end Unpv13e.Nonblock
