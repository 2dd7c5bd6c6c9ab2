import Unpv13e.Nonblock.StrCli

/-!
# What the nonblocking client passes on

Library `Nonblock`. Each buffer relays what is read into it. The end of standard input is passed on to
the socket once, when everything typed has been sent. The end of the socket ends the function at once,
also when standard output has not accepted everything.
-/

namespace Unpv13e.Nonblock.StrCli
open Unpv13e.Base

variable {s t : StrCli} {a : Act}

/-- The buffers, and the end of the input passed on when it is due. -/
structure Kept (s : StrCli) : Prop where
  typed : s.toBuf.Relays s.typed s.sent
  received : s.frBuf.Relays s.received s.shown
  toSize : s.toBuf.mem.length = maxLine
  frSize : s.frBuf.mem.length = maxLine
  fin : s.shutdowns = if s.stdineof = true ∧ s.toBuf.optr = s.toBuf.iptr then 1 else 0
  open_ : s.pc = .stdin → s.rstdin = true → s.stdineof = false

theorem kept_start : Kept start where
  typed := Buffer.Relays.start _
  received := Buffer.Relays.start _
  toSize := List.length_replicate
  frSize := List.length_replicate
  fin := rfl
  open_ := fun h ↦ by cases h

/-- Filling the buffer for the socket. -/
private theorem kept_stdin (hk : Kept s) {bytes : List UInt8} (hpc : s.pc = .stdin)
    (hset : s.rstdin = true) (hfits : Fits bytes s.toBuf.room) :
    Kept { s with
      toBuf := s.toBuf.fill bytes, typed := s.typed ++ bytes, wsock := true, pc := .sockIn } := by
  have hopen := hk.open_ hpc hset
  have hfin := hk.fin
  rw [if_neg (by rw [hopen]; rintro ⟨he, -⟩; cases he)] at hfin
  refine ⟨hk.typed.fill hfits.2, hk.received, ?_, hk.frSize, ?_, fun he ↦ by cases he⟩
  · exact (Buffer.length_fill hk.typed.ordered hfits.2).trans hk.toSize
  · dsimp only
    rw [if_neg (by rw [hopen]; rintro ⟨he, -⟩; cases he), hfin]

/-- The end of standard input. -/
private theorem kept_stdinEof (hk : Kept s) (hpc : s.pc = .stdin) (hset : s.rstdin = true) :
    Kept { s with
      stdineof := true
      shutdowns := if s.toBuf.optr = s.toBuf.iptr then s.shutdowns + 1 else s.shutdowns
      pc := .sockIn } := by
  have hfin := hk.fin
  rw [if_neg (by rw [hk.open_ hpc hset]; rintro ⟨he, -⟩; cases he)] at hfin
  refine ⟨hk.typed, hk.received, hk.toSize, hk.frSize, ?_, fun he ↦ by cases he⟩
  dsimp only
  rw [hfin]
  by_cases hmet : s.toBuf.optr = s.toBuf.iptr
  · rw [if_pos hmet, if_pos ⟨rfl, hmet⟩]
  · rw [if_neg hmet, if_neg fun h ↦ hmet h.2]

/-- The pointers meet exactly when the last bytes are written. -/
private theorem met_drain_iff (b : Buffer UInt8) (k : Nat) :
    (b.drain k).optr = (b.drain k).iptr ↔ b.optr + k = b.iptr := by
  unfold Buffer.drain
  by_cases hmet : b.optr + k = b.iptr
  · rw [if_pos hmet]
    exact iff_of_true rfl hmet
  · rw [if_neg hmet]

/-- Emptying the buffer for the socket. -/
private theorem kept_sockOut (hk : Kept s) {k : Nat} (hlt : s.toBuf.optr < s.toBuf.iptr)
    (hle : k ≤ s.toBuf.iptr - s.toBuf.optr) :
    Kept { s with
      toBuf := s.toBuf.drain k
      sent := s.sent ++ s.toBuf.pending.take k
      shutdowns := if s.toBuf.optr + k = s.toBuf.iptr ∧ s.stdineof = true then s.shutdowns + 1
        else s.shutdowns
      pc := .select } := by
  have hfin := hk.fin
  rw [if_neg fun h ↦ (ne_of_lt hlt) h.2] at hfin
  refine ⟨hk.typed.drain hle, hk.received, ?_, hk.frSize, ?_, fun he ↦ by cases he⟩
  · exact (Buffer.length_drain _ k).trans hk.toSize
  · dsimp only
    rw [hfin]
    by_cases hdue : s.toBuf.optr + k = s.toBuf.iptr ∧ s.stdineof = true
    · rw [if_pos hdue, if_pos ⟨hdue.2, (met_drain_iff s.toBuf k).mpr hdue.1⟩]
    · rw [if_neg hdue, if_neg fun h ↦ hdue ⟨(met_drain_iff s.toBuf k).mp h.2, h.1⟩]

/-- One step. -/
theorem Kept.does (hk : Kept s) (hd : Does s a t) : Kept t := by
  cases hd with
  | select rstdin rsock wstdout wsock hpc hasked =>
    exact ⟨hk.typed, hk.received, hk.toSize, hk.frSize, hk.fin, fun _ hset ↦ (hasked.1 hset).1⟩
  | skip pc hpc hnext =>
    exact ⟨hk.typed, hk.received, hk.toSize, hk.frSize, hk.fin, fun he ↦ absurd he hnext.1⟩
  | stdin bytes hpc hset hfits => exact kept_stdin hk hpc hset hfits
  | stdinEof hpc hset => exact kept_stdinEof hk hpc hset
  | sock bytes hpc hfits =>
    refine ⟨hk.typed, hk.received.fill hfits.2, hk.toSize, ?_, hk.fin, fun he ↦ by cases he⟩
    exact (Buffer.length_fill hk.received.ordered hfits.2).trans hk.frSize
  | sockEof ha hpc heof =>
    exact ⟨hk.typed, hk.received, hk.toSize, hk.frSize, hk.fin, fun he ↦ by cases he⟩
  | stdout k hpc hle =>
    refine ⟨hk.typed, hk.received.drain hle, hk.toSize, ?_, hk.fin, fun he ↦ by cases he⟩
    exact (Buffer.length_drain _ k).trans hk.frSize
  | sockOut k hpc hlt hle => exact kept_sockOut hk hlt hle

/-- Every reachable state. -/
theorem kept_of_run (h : Run Step start s) : Kept s :=
  h.preserves (fun _ _ _ hk _ hs ↦ hk.does (does_of_step hs)) kept_start

/-! ### To the socket -/

/-- After the end of the input has been passed on nothing is read from standard input and nothing is
written to the socket. -/
theorem after_fin (hk : Kept s) (hfin : s.shutdowns = 1) (hd : Does s a t) :
    t.typed = s.typed ∧ t.sent = s.sent := by
  have hdue : s.stdineof = true ∧ s.toBuf.optr = s.toBuf.iptr := by
    by_contra hnot
    have := hk.fin
    rw [if_neg hnot] at this
    omega
  cases hd with
  | stdin bytes hpc hset hfits =>
    have := hk.open_ hpc hset
    rw [hdue.1] at this
    cases this
  | sockOut k hpc hlt hle => exact absurd hdue.2 (ne_of_lt hlt)
  | _ => exact ⟨rfl, rfl⟩

/-- All of the input is sent, and then one FIN. -/
theorem input_then_fin (h : Run Step start s) :
    s.sent <+: s.typed ∧
      (s.toBuf.optr ≤ s.toBuf.iptr ∧ s.toBuf.iptr ≤ maxLine ∧ s.toBuf.mem.length = maxLine) ∧
      s.shutdowns ≤ 1 ∧
      (s.shutdowns = 1 ↔ s.stdineof = true ∧ s.toBuf.optr = s.toBuf.iptr) ∧
      (s.shutdowns = 1 → s.sent = s.typed) ∧
      ∀ a t, s.shutdowns = 1 → Step s a t → t.typed = s.typed ∧ t.sent = s.sent := by
  have hk := kept_of_run h
  have hfin := hk.fin
  have hdue : s.shutdowns = 1 ↔ s.stdineof = true ∧ s.toBuf.optr = s.toBuf.iptr := by
    rw [hfin]
    split
    · next hdue => exact iff_of_true rfl hdue
    · next hnot => exact iff_of_false (by decide) hnot
  refine ⟨hk.typed.isPrefix, ⟨hk.typed.ordered.le, ?_, hk.toSize⟩, ?_, hdue, ?_, ?_⟩
  · rw [← hk.toSize]
    exact hk.typed.ordered.fits
  · rw [hfin]
    split <;> omega
  · intro hone
    exact hk.typed.complete_iff.mpr (hdue.mp hone).2
  · intro a t hone hs
    exact after_fin hk hone (does_of_step hs)

/-- Two bytes, the end of the input and two writes of one byte each. -/
theorem input_then_fin_once : ∃ s : StrCli, s.shutdowns = 1 ∧ s.sent = s.typed ∧ s.typed = [1, 2] := by
  let acts : List Act :=
    [.select true false false false, .read (.data [1, 2]), .pass, .pass, .write (.wrote 1),
      .select true false false true, .read .eof, .pass, .pass, .write (.wrote 1)]
  have hrun : (Except.ok start >>= fun s ↦ runActs step s acts).toOption.map
      (fun s ↦ decide (s.shutdowns = 1 ∧ s.typed = [1, 2])) = some true := by decide +kernel
  obtain ⟨s₀, s, hstart, hs, hend⟩ := exists_of_runActs hrun
  cases hstart
  obtain ⟨hone, htyped⟩ := of_decide_eq_true hend
  exact ⟨s, hone, (input_then_fin (run_of_runActs _ _ _ _ hs)).2.2.2.2.1 hone, htyped⟩

/-! ### From the socket -/

/-- The end of the socket is read when everything received has been written to standard output. -/
def Drained (s : StrCli) (a : Act) : Prop :=
  s.pc = .sockIn → a = .read .eof → s.frBuf.optr = s.frBuf.iptr

/-- The function returns when it reads the end of the socket after that of standard input. -/
theorem Does.returned (hd : Does s a t) (ht : t.pc = .returned) :
    s.pc = .sockIn ∧ a = .read .eof ∧ t = { s with pc := .returned } := by
  cases hd with
  | skip pc hpc hnext => exact absurd ht hnext.2
  | sockEof ha hpc heof => exact ⟨hpc, ha, rfl⟩
  | _ => cases ht

/-- What is written to standard output is the beginning of what was received, and at the return it is
everything exactly when nothing was waiting as the end of the socket was read. -/
theorem received_shown (h : Run Step start s) :
    s.shown <+: s.received ∧
      (∀ a t, Step s a t → t.pc = .returned →
        (t.shown = t.received ↔ s.frBuf.optr = s.frBuf.iptr)) ∧
      (RunWith Step Drained start s → s.pc = .returned → s.shown = s.received) := by
  have hk := kept_of_run h
  refine ⟨hk.received.isPrefix, ?_, ?_⟩
  · intro a t hs ht
    obtain ⟨-, -, rfl⟩ := (does_of_step hs).returned ht
    exact hk.received.complete_iff
  · intro hrun
    have hmet : s.pc = .returned → s.frBuf.optr = s.frBuf.iptr := by
      refine hrun.preserves (I := fun s ↦ s.pc = .returned → s.frBuf.optr = s.frBuf.iptr) ?_ ?_
      · intro u a t _ hdrained hs ht
        obtain ⟨hpc, ha, rfl⟩ := (does_of_step hs).returned ht
        exact hdrained hpc ha
      · intro he
        cases he
    exact fun hpc ↦ hk.received.complete_iff.mpr (hmet hpc)

/-- The end of standard input, two bytes from the socket and its end. Standard output has accepted the
first byte only. -/
theorem returns_early : ∃ s : StrCli, Run Step start s ∧ s.pc = .returned ∧ s.received = [1, 2] ∧
    s.shown = [1] := by
  let acts : List Act :=
    [.select true false false false, .read .eof, .pass, .pass, .pass,
      .select false true false false, .pass, .read (.data [1, 2]), .write (.wrote 1), .pass,
      .select false true false false, .pass, .read .eof]
  have hrun : (Except.ok start >>= fun s ↦ runActs step s acts).toOption.map
      (fun s ↦ decide (s.pc = .returned ∧ s.received = [1, 2] ∧ s.shown = [1])) = some true := by
    decide +kernel
  obtain ⟨s₀, s, hstart, hs, hend⟩ := exists_of_runActs hrun
  cases hstart
  exact ⟨s, run_of_runActs _ _ _ _ hs, of_decide_eq_true hend⟩

/-- A byte is received and written before the end of the socket is read. -/
theorem received_shown_once : ∃ s : StrCli, s.received = [7] ∧ s.shown <+: s.received := by
  let acts : List Act :=
    [.select true true false false, .read .eof, .read (.data [7]), .write (.wrote 1), .pass,
      .select false true false false, .pass, .read .eof]
  have hrun : (Except.ok start >>= fun s ↦ runActs step s acts).toOption.map
      (fun s ↦ decide (s.received = [7])) = some true := by decide +kernel
  obtain ⟨s₀, s, hstart, hs, hend⟩ := exists_of_runActs hrun
  cases hstart
  exact ⟨s, of_decide_eq_true hend, (received_shown (run_of_runActs _ _ _ _ hs)).1⟩

end Unpv13e.Nonblock.StrCli
