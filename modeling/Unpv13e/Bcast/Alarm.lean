import Unpv13e.Base.Progress

/-!
# Broadcast clients and their alarm

Library `Bcast`. The functions `dg_cli` of `src/bcast` send a line to a broadcast address and print the
replies until SIGALRM ends the wait. What they share: the socket's queue, the alarm, and the signal, which is
taken where it is not blocked, before the next statement or in a call that waits.
-/

namespace Unpv13e.Bcast
open Unpv13e.Base

/-- `MAXLINE` -/
def maxLine : Nat := 4096

/-- A datagram, and the host it is from. -/
structure Reply where
  host : List UInt8
  data : List UInt8
  deriving DecidableEq

/-- The bytes up to a NUL. -/
def cstring (s : List UInt8) : List UInt8 := s.takeWhile (· ≠ 0)

/-- What `printf` prints of a reply: the host, and `recvline`. -/
def Reply.text (r : Reply) : List UInt8 × List UInt8 := (r.host, cstring (r.data.take maxLine))

/-- What is outside the function. -/
structure World where
  /-- what `Fgets` has not returned yet -/
  lines : List (List UInt8)
  sent : List (List UInt8)
  /-- the replies that have come, of which those in `queue` have not been received -/
  arrived : List Reply
  queue : List Reply
  printed : List (List UInt8 × List UInt8)
  alarm : Bool
  /-- SIGALRM is pending, or blocked -/
  pending : Bool
  blocked : Bool
  deriving DecidableEq

/-- Before the first line. -/
def World.start (lines : List (List UInt8)) : World := ⟨lines, [], [], [], [], false, false, false⟩

/-- A signal is to be taken. -/
def World.due (w : World) : Bool := w.pending && !w.blocked

/-- A function `dg_cli` with its handler. -/
structure Program (σ : Type) where
  /-- the next statement, or the return of a call that has waited -/
  run : σ → World → Option (σ × World)
  /-- whether the function is in a call that waits -/
  waits : σ → Bool
  /-- SIGALRM is taken, and where the function goes on -/
  handle : σ → World → Option (σ × World)

/-- What happens next. -/
inductive Act
  | run
  /-- the alarm goes off -/
  | expire
  /-- the handler is called -/
  | deliver
  | reply (r : Reply)
  deriving DecidableEq

/-- The next step. -/
def Program.step {σ : Type} (p : Program σ) (x : σ × World) : Act → Option (σ × World)
  | .run => if p.waits x.1 || !x.2.due then p.run x.1 x.2 else none
  | .expire => if x.2.alarm then some (x.1, { x.2 with alarm := false, pending := true }) else none
  | .deliver => if x.2.pending then p.handle x.1 { x.2 with pending := false } else none
  | .reply r => some (x.1, { x.2 with arrived := x.2.arrived ++ [r], queue := x.2.queue ++ [r] })

/-- The step as a relation. -/
abbrev Program.Step {σ : Type} (p : Program σ) (x : σ × World) (a : Act) (y : σ × World) : Prop :=
  p.step x a = some y

/-- All but a reply. -/
def Act.Own (a : Act) : Prop := ∀ r, a ≠ .reply r

/-- Where the lines and the replies are: which lines are left to send, at a place, and which reply has been
received. -/
structure Accounted {σ : Type} (lines : List (List UInt8)) (left : σ → List (List UInt8) → List (List UInt8))
    (held : σ → List Reply) (x : σ × World) : Prop where
  sent : x.2.sent ++ (left x.1 x.2.lines).map cstring = lines.map cstring
  printed : x.2.printed ++ (held x.1 ++ x.2.queue).map Reply.text = x.2.arrived.map Reply.text

section steps
variable {σ : Type} {p : Program σ} {x y : σ × World} {a : Act}

/-- What a step is. -/
theorem Program.step_cases (h : p.Step x a y) :
    (a = .run ∧ (p.waits x.1 = true ∨ x.2.due = false) ∧ p.run x.1 x.2 = some y) ∨
      (a = .expire ∧ x.2.alarm = true ∧ y = (x.1, { x.2 with alarm := false, pending := true })) ∨
      (a = .deliver ∧ x.2.pending = true ∧ p.handle x.1 { x.2 with pending := false } = some y) ∨
      ∃ r, a = .reply r ∧
        y = (x.1, { x.2 with arrived := x.2.arrived ++ [r], queue := x.2.queue ++ [r] }) := by
  cases a with
  | run =>
    obtain ⟨hfree, h⟩ := Option.ite_none_right_eq_some.mp h
    simp only [Bool.or_eq_true, Bool.not_eq_true'] at hfree
    exact .inl ⟨rfl, hfree, h⟩
  | expire =>
    obtain ⟨halarm, h⟩ := Option.ite_none_right_eq_some.mp h
    exact .inr (.inl ⟨rfl, halarm, (Option.some.inj h).symm⟩)
  | deliver =>
    obtain ⟨hpending, h⟩ := Option.ite_none_right_eq_some.mp h
    exact .inr (.inr (.inl ⟨rfl, hpending, h⟩))
  | reply r => exact .inr (.inr (.inr ⟨r, rfl, (Option.some.inj h).symm⟩))

theorem Program.step_run (hfree : p.waits x.1 = true ∨ x.2.due = false) (h : p.run x.1 x.2 = some y) :
    p.Step x .run y := (if_pos (by simpa using hfree)).trans h

theorem Program.step_expire (h : x.2.alarm = true) :
    p.Step x .expire (x.1, { x.2 with alarm := false, pending := true }) := if_pos h

theorem Program.step_deliver (hpending : x.2.pending = true)
    (h : p.handle x.1 { x.2 with pending := false } = some y) : p.Step x .deliver y := (if_pos hpending).trans h

/-- A reply comes. -/
theorem Accounted.reply {lines : List (List UInt8)} {left : σ → List (List UInt8) → List (List UInt8)}
    {held : σ → List Reply} (h : Accounted lines left held x) (r : Reply) : Accounted lines left held
      (x.1, { x.2 with arrived := x.2.arrived ++ [r], queue := x.2.queue ++ [r] }) := by
  refine ⟨h.sent, ?_⟩
  simp only [← List.append_assoc, List.map_append, ← h.printed]

/-- What the statements and the handler account for the whole function does. -/
theorem Accounted.step {lines : List (List UInt8)} {left : σ → List (List UInt8) → List (List UInt8)}
    {held : σ → List Reply}
    (hrun : ∀ s w y, p.run s w = some y → Accounted lines left held (s, w) → Accounted lines left held y)
    (hhandle : ∀ s w y, p.handle s w = some y → Accounted lines left held (s, w) → Accounted lines left held y)
    (h : Accounted lines left held x) (hstep : p.Step x a y) : Accounted lines left held y := by
  rcases Program.step_cases hstep with ⟨-, -, hy⟩ | ⟨-, -, rfl⟩ | ⟨-, -, hy⟩ | ⟨r, -, rfl⟩
  · exact hrun _ _ _ hy h
  · exact ⟨h.sent, h.printed⟩
  · exact hhandle _ _ _ hy ⟨h.sent, h.printed⟩
  · exact h.reply r

end steps
end Unpv13e.Bcast
