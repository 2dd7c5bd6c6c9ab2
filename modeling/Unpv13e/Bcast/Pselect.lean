import Unpv13e.Bcast.Alarm

/-!
# An alarm that interrupts `pselect`

Library `Bcast`. `dg_cli` of `src/bcast/dgclibcast4.c`, with the `pselect` of a kernel, which takes a pending
signal or finds a datagram in one step, and with that of `src/lib/pselect.c`, which sets the mask, calls
`select` and sets the mask back. With the one it never waits in vain; when it does with the other.
-/

namespace Unpv13e.Bcast.Pselect
open Unpv13e.Base

/-- Where `dg_cli` is. -/
inductive Pc
  /-- at `Fgets` -/
  | fgets
  | sendto (sendline : List UInt8)
  /-- at `Sigprocmask` with `SIG_BLOCK` -/
  | block
  | alarm
  /-- in the kernel's `pselect` -/
  | pselect
  /-- at the first `sigprocmask` of `src/lib/pselect.c` -/
  | setmask
  /-- behind it, before `select` -/
  | call (savemask : Bool)
  /-- in `select` -/
  | select (savemask : Bool)
  /-- at the second `sigprocmask`, after `select` has returned 1, or `EINTR` -/
  | restore (savemask ready : Bool)
  | recvfrom
  | printf (r : Reply)
  | returned
  deriving DecidableEq

/-- `for ( ; ; )` -/
def top (kernel : Bool) : Pc := if kernel then .pselect else .setmask

/-- `if (n < 0)` -/
def after (ready : Bool) : Pc := if ready then .recvfrom else .fgets

/-- The statements, `src/bcast/dgclibcast4.c:28–50` and `src/lib/pselect.c:25–27`. -/
def run (kernel : Bool) : Pc → World → Option (Pc × World)
  | .fgets, w =>
    match w.lines with
    | [] => some (.returned, w)
    | sendline :: lines => some (.sendto sendline, { w with lines })
  | .sendto sendline, w => some (.block, { w with sent := w.sent ++ [cstring sendline] })
  | .block, w => some (.alarm, { w with blocked := true })
  | .alarm, w => some (top kernel, { w with alarm := true })
  | .pselect, w => if w.queue = [] then none else some (after true, w)
  | .setmask, w => some (.call w.blocked, { w with blocked := false })
  | .call savemask, w => some (.select savemask, w)
  | .select savemask, w => if w.queue = [] then none else some (.restore savemask true, w)
  | .restore savemask ready, w => some (after ready, { w with blocked := savemask })
  | .recvfrom, w =>
    match w.queue with
    | [] => none
    | r :: queue => some (.printf r, { w with queue })
  | .printf r, w => some (top kernel, { w with printed := w.printed ++ [r.text] })
  | .returned, _ => none

/-- In a call that waits. -/
def waits : Pc → Bool
  | .pselect | .select _ | .recvfrom => true
  | _ => false

/-- `recvfrom_alarm` returns. The kernel's `pselect` lets it in, and fails; `select` fails if no descriptor is
ready. -/
def handle (pc : Pc) (w : World) : Option (Pc × World) :=
  match pc with
  | .pselect => some (after false, w)
  | .select savemask => if w.blocked = false ∧ w.queue = [] then some (.restore savemask false, w) else none
  | pc => if w.blocked then none else some (pc, w)

def program (kernel : Bool) : Program Pc := ⟨run kernel, waits, handle⟩

/-- The function is called. -/
def start (lines : List (List UInt8)) : Pc × World := (.fgets, .start lines)

/-- The lines that are left to send. -/
def left : Pc → List (List UInt8) → List (List UInt8)
  | .sendto sendline, lines => sendline :: lines
  | .returned, _ => []
  | _, lines => lines

/-- The reply that has been received and not been printed. -/
def held : Pc → List Reply
  | .printf r => [r]
  | _ => []

/-- In the inner loop, and not on the way out of it. -/
def Pc.Inside : Pc → Prop
  | .pselect | .setmask | .call _ | .select _ | .restore _ true | .recvfrom | .printf _ => True
  | _ => False

/-- Which `pselect` it is, and whether SIGALRM is blocked. -/
def Mask (kernel : Bool) : Pc → Bool → Prop
  | .pselect, blocked => kernel = true ∧ blocked = true
  | .setmask, blocked => kernel = false ∧ blocked = true
  | .call savemask, blocked => kernel = false ∧ savemask = true ∧ blocked = false
  | .select savemask, blocked => kernel = false ∧ savemask = true ∧ blocked = false
  | .restore savemask _, blocked => kernel = false ∧ savemask = true ∧ blocked = false
  | .alarm, blocked => blocked = true
  | .recvfrom, blocked => blocked = true
  | .printf _, blocked => blocked = true
  | _, _ => True

/-- A datagram has been found. -/
def Found : Pc → Prop
  | .restore _ true | .recvfrom => True
  | _ => False

/-- The alarm goes off once for each line, and with the kernel's `pselect` not before that. -/
structure Kept (kernel : Bool) (x : Pc × World) : Prop where
  once : x.2.alarm = true → x.2.pending = false
  outside : ¬ x.1.Inside → x.2.alarm = false ∧ x.2.pending = false
  inside : kernel = true → x.1.Inside → x.2.alarm = true ∨ x.2.pending = true
  mask : Mask kernel x.1 x.2.blocked
  found : Found x.1 → x.2.queue ≠ []

variable {kernel : Bool} {lines : List (List UInt8)} {pc : Pc} {w : World} {x y : Pc × World} {a : Act}

theorem inside_top (kernel : Bool) : (top kernel).Inside := by cases kernel <;> trivial

theorem mask_top (kernel : Bool) : Mask kernel (top kernel) true := by cases kernel <;> exact ⟨rfl, rfl⟩

theorem not_found_top (kernel : Bool) : ¬ Found (top kernel) := by cases kernel <;> exact id

theorem kept_start (lines : List (List UInt8)) : Kept kernel (start lines) :=
  ⟨fun h ↦ (by cases h), fun _ ↦ ⟨rfl, rfl⟩, fun _ h ↦ h.elim, trivial, fun h ↦ h.elim⟩

/-- A statement. -/
theorem Kept.run (h : Kept kernel (pc, w)) (hrun : run kernel pc w = some y) : Kept kernel y := by
  have hmask := h.mask
  cases pc with
  | fgets =>
    have hquiet := h.outside id
    simp only [Pselect.run] at hrun
    cases hl : w.lines <;> simp only [hl] at hrun <;> cases hrun <;>
      exact ⟨h.once, fun _ ↦ hquiet, fun _ hin ↦ hin.elim, trivial, fun hf ↦ hf.elim⟩
  | sendto sendline =>
    cases hrun
    exact ⟨h.once, fun _ ↦ h.outside id, fun _ hin ↦ hin.elim, trivial, fun hf ↦ hf.elim⟩
  | block =>
    cases hrun
    exact ⟨h.once, fun _ ↦ h.outside id, fun _ hin ↦ hin.elim, rfl, fun hf ↦ hf.elim⟩
  | alarm =>
    cases hrun
    refine ⟨fun _ ↦ (h.outside id).2, fun hout ↦ absurd (inside_top kernel) hout, fun _ _ ↦ .inl rfl, ?_,
      fun hf ↦ absurd hf (not_found_top kernel)⟩
    have hblocked : w.blocked = true := hmask
    rw [hblocked]
    exact mask_top kernel
  | pselect =>
    obtain ⟨hne, hrun⟩ := Option.ite_none_left_eq_some.mp hrun
    cases hrun
    exact ⟨h.once, fun hout ↦ absurd trivial hout, fun hk _ ↦ h.inside hk trivial, hmask.2, fun _ ↦ hne⟩
  | setmask =>
    cases hrun
    exact ⟨h.once, fun hout ↦ absurd trivial hout, fun hk _ ↦ h.inside hk trivial, ⟨hmask.1, hmask.2, rfl⟩,
      fun hf ↦ hf.elim⟩
  | call savemask =>
    cases hrun
    exact ⟨h.once, fun hout ↦ absurd trivial hout, fun hk _ ↦ h.inside hk trivial, hmask, fun hf ↦ hf.elim⟩
  | select savemask =>
    obtain ⟨hne, hrun⟩ := Option.ite_none_left_eq_some.mp hrun
    cases hrun
    exact ⟨h.once, fun hout ↦ absurd trivial hout, fun hk _ ↦ h.inside hk trivial, hmask, fun _ ↦ hne⟩
  | restore savemask ready =>
    cases hrun
    cases ready with
    | true =>
      exact ⟨h.once, fun hout ↦ absurd trivial hout, fun hk _ ↦ h.inside hk trivial, hmask.2.1,
        fun _ ↦ h.found trivial⟩
    | false => exact ⟨h.once, fun _ ↦ h.outside id, fun _ hin ↦ hin.elim, trivial, fun hf ↦ hf.elim⟩
  | recvfrom =>
    simp only [Pselect.run] at hrun
    cases hq : w.queue with
    | nil => exact absurd hq (h.found trivial)
    | cons r queue =>
      simp only [hq] at hrun
      cases hrun
      exact ⟨h.once, fun hout ↦ absurd trivial hout, fun hk _ ↦ h.inside hk trivial, hmask, fun hf ↦ hf.elim⟩
  | printf r =>
    cases hrun
    refine ⟨h.once, fun hout ↦ absurd (inside_top kernel) hout, fun hk _ ↦ h.inside hk trivial, ?_,
      fun hf ↦ absurd hf (not_found_top kernel)⟩
    have hblocked : w.blocked = true := hmask
    rw [hblocked]
    exact mask_top kernel
  | returned => cases hrun

/-- What the handler does: it ends the wait in `pselect` or in `select`, or nothing. -/
theorem handle_cases (h : handle pc w = some y) :
    (pc = .pselect ∧ y = (.fgets, w)) ∨
      (∃ savemask, pc = .select savemask ∧ w.queue = [] ∧ y = (.restore savemask false, w)) ∨
      (pc ≠ .pselect ∧ (∀ savemask, pc ≠ .select savemask) ∧ w.blocked = false ∧ y = (pc, w)) := by
  cases pc with
  | pselect =>
    cases h
    exact .inl ⟨rfl, rfl⟩
  | select savemask =>
    obtain ⟨⟨-, hnil⟩, h⟩ := Option.ite_none_right_eq_some.mp h
    cases h
    exact .inr (.inl ⟨savemask, rfl, hnil, rfl⟩)
  | _ =>
    obtain ⟨hopen, h⟩ := Option.ite_none_left_eq_some.mp h
    cases h
    exact .inr (.inr ⟨Pc.noConfusion, fun _ ↦ Pc.noConfusion, Bool.eq_false_iff.mpr hopen, rfl⟩)

theorem Kept.spent (h : Kept kernel x) (hpending : x.2.pending = true) : x.2.alarm = false := by
  cases ha : x.2.alarm with
  | false => rfl
  | true =>
    rw [h.once ha] at hpending
    cases hpending

theorem Kept.inside_of_pending (h : Kept kernel x) (hpending : x.2.pending = true) : x.1.Inside := by
  by_contra hout
  rw [(h.outside hout).2] at hpending
  cases hpending

/-- With the kernel's `pselect` SIGALRM is blocked in the loop. -/
theorem Kept.blocked (h : Kept true x) (hin : x.1.Inside) : x.2.blocked = true := by
  obtain ⟨pc, w⟩ := x
  have hmask := h.mask
  cases pc with
  | pselect => exact hmask.2
  | setmask => cases hmask.1
  | call savemask => cases hmask.1
  | select savemask => cases hmask.1
  | restore savemask ready => cases hmask.1
  | recvfrom => exact hmask
  | printf r => exact hmask
  | _ => exact hin.elim

theorem Kept.step (h : Kept kernel x) (hstep : (program kernel).Step x a y) : Kept kernel y := by
  obtain ⟨pc, w⟩ := x
  rcases Program.step_cases hstep with ⟨-, -, hy⟩ | ⟨-, halarm, rfl⟩ | ⟨-, hpending, hy⟩ | ⟨r, -, rfl⟩
  · exact h.run hy
  · refine ⟨fun hno ↦ (by cases hno), fun hout ↦ ?_, fun _ _ ↦ .inr rfl, h.mask, h.found⟩
    rw [(h.outside hout).1] at halarm
    cases halarm
  · have hin := h.inside_of_pending hpending
    have hspent := h.spent hpending
    have hmask := h.mask
    rcases handle_cases hy with ⟨rfl, rfl⟩ | ⟨savemask, rfl, -, rfl⟩ | ⟨-, -, hopen, rfl⟩
    · exact ⟨fun _ ↦ rfl, fun _ ↦ ⟨hspent, rfl⟩, fun _ hin ↦ hin.elim, trivial, fun hf ↦ hf.elim⟩
    · exact ⟨fun _ ↦ rfl, fun _ ↦ ⟨hspent, rfl⟩, fun _ hin ↦ hin.elim, hmask, fun hf ↦ hf.elim⟩
    · refine ⟨fun _ ↦ rfl, fun hout ↦ absurd hin hout, ?_, h.mask, h.found⟩
      rintro rfl -
      have hblocked := h.blocked hin
      change w.blocked = true at hblocked
      change w.blocked = false at hopen
      rw [hopen] at hblocked
      cases hblocked
  · exact ⟨h.once, h.outside, h.inside, h.mask,
      fun _ ↦ List.append_ne_nil_of_right_ne_nil _ (List.cons_ne_nil r [])⟩

theorem kept_of_run (h : Run (program kernel).Step (start lines) x) : Kept kernel x :=
  h.preserves (fun _ _ _ hk _ hstep ↦ hk.step hstep) (kept_start lines)

/-! ### The lines and the replies -/

theorem accounted_start (lines : List (List UInt8)) : Accounted lines left held (start lines) := ⟨rfl, rfl⟩

theorem accounted_run (hrun : run kernel pc w = some y) (h : Accounted lines left held (pc, w)) :
    Accounted lines left held y := by
  obtain ⟨hsent, hprinted⟩ := h
  cases pc with
  | fgets =>
    simp only [Pselect.run] at hrun
    cases hl : w.lines with
    | nil =>
      simp only [hl] at hrun
      cases hrun
      refine ⟨?_, hprinted⟩
      simpa [left, hl] using hsent
    | cons sendline rest =>
      simp only [hl] at hrun
      cases hrun
      refine ⟨?_, hprinted⟩
      simpa [left, hl] using hsent
  | sendto sendline =>
    cases hrun
    refine ⟨?_, hprinted⟩
    simpa [left] using hsent
  | alarm =>
    cases hrun
    cases kernel <;> exact ⟨hsent, hprinted⟩
  | pselect =>
    obtain ⟨-, hrun⟩ := Option.ite_none_left_eq_some.mp hrun
    cases hrun
    exact ⟨hsent, hprinted⟩
  | select savemask =>
    obtain ⟨-, hrun⟩ := Option.ite_none_left_eq_some.mp hrun
    cases hrun
    exact ⟨hsent, hprinted⟩
  | restore savemask ready =>
    cases hrun
    cases ready <;> exact ⟨hsent, hprinted⟩
  | recvfrom =>
    simp only [Pselect.run] at hrun
    cases hq : w.queue with
    | nil =>
      simp only [hq] at hrun
      cases hrun
    | cons r queue =>
      simp only [hq] at hrun
      cases hrun
      exact ⟨hsent, by simpa [held, hq] using hprinted⟩
  | printf r =>
    cases hrun
    cases kernel <;> exact ⟨hsent, by simpa [held, top] using hprinted⟩
  | returned => cases hrun
  | _ =>
    cases hrun
    exact ⟨hsent, hprinted⟩

theorem accounted_handle (hhandle : handle pc w = some y) (h : Accounted lines left held (pc, w)) :
    Accounted lines left held y := by
  rcases handle_cases hhandle with ⟨rfl, rfl⟩ | ⟨savemask, rfl, -, rfl⟩ | ⟨-, -, -, rfl⟩ <;>
    exact ⟨h.sent, h.printed⟩

theorem accounted_of_run (h : Run (program kernel).Step (start lines) x) : Accounted lines left held x :=
  h.preserves (fun _ _ _ hk _ hstep ↦ hk.step (p := program kernel) (fun _ _ _ ↦ accounted_run)
    (fun _ _ _ ↦ accounted_handle) hstep) (accounted_start lines)

/-! ### Waiting in vain -/

/-- The signal is taken next, or by the kernel's `pselect` later. -/
def Interrupted (kernel : Bool) (x : Pc × World) : Prop :=
  x.2.pending = true ∧ (kernel = true ∨ (∃ savemask, x.1 = .select savemask) ∧ x.2.queue = [])

/-- In the loop, with the alarm spent, and not on an interruption. -/
def Doomed (kernel : Bool) (x : Pc × World) : Prop := x.1.Inside ∧ x.2.alarm = false ∧ ¬ Interrupted kernel x

/-- What is left to do at a place. -/
def Pc.work : Pc → Nat
  | .fgets => 1
  | .sendto _ => 31
  | .block => 30
  | .alarm => 29
  | .pselect => 9
  | .setmask => 9
  | .call _ => 8
  | .select _ => 7
  | .restore _ true => 6
  | .restore _ false => 5
  | .recvfrom => 5
  | .printf _ => 14
  | .returned => 0

/-- What is left to do but for the replies that will come. -/
def work (x : Pc × World) : Nat :=
  40 * x.2.lines.length + 20 * x.2.queue.length + 2 * x.2.alarm.toNat + x.2.pending.toNat + x.1.work

theorem work_top (kernel : Bool) : (top kernel).work = 9 := by cases kernel <;> rfl

/-- A statement lowers what is left. -/
theorem work_run (h : Kept kernel (pc, w)) (hrun : run kernel pc w = some y) : work y < work (pc, w) := by
  cases pc with
  | fgets =>
    simp only [Pselect.run] at hrun
    cases hl : w.lines with
    | nil =>
      simp only [hl] at hrun
      cases hrun
      simp only [work, Pc.work]
      omega
    | cons sendline rest =>
      simp only [hl] at hrun
      cases hrun
      simp only [work, Pc.work, hl, List.length_cons]
      omega
  | alarm =>
    cases hrun
    simp only [work, work_top, Bool.toNat_true]
    simp only [Pc.work]
    omega
  | pselect =>
    obtain ⟨-, hrun⟩ := Option.ite_none_left_eq_some.mp hrun
    cases hrun
    simp only [work, after, if_true, Pc.work]
    omega
  | select savemask =>
    obtain ⟨-, hrun⟩ := Option.ite_none_left_eq_some.mp hrun
    cases hrun
    exact Nat.lt_succ_self _
  | restore savemask ready =>
    cases hrun
    cases ready <;> simp [work, after, Pc.work]
  | recvfrom =>
    simp only [Pselect.run] at hrun
    cases hq : w.queue with
    | nil => exact absurd hq (h.found trivial)
    | cons r queue =>
      simp only [hq] at hrun
      cases hrun
      simp only [work, hq, List.length_cons, Pc.work]
      omega
  | printf r =>
    cases hrun
    simp only [work, work_top]
    simp only [Pc.work]
    omega
  | sendto sendline =>
    cases hrun
    exact Nat.lt_succ_self _
  | block =>
    cases hrun
    exact Nat.lt_succ_self _
  | setmask =>
    cases hrun
    exact Nat.lt_succ_self _
  | call savemask =>
    cases hrun
    exact Nat.lt_succ_self _
  | returned => cases hrun

/-- All steps but the replies lower what is left. -/
theorem work_step (h : Kept kernel x) (hown : a.Own) (hstep : (program kernel).Step x a y) : work y < work x := by
  obtain ⟨pc, w⟩ := x
  rcases Program.step_cases hstep with ⟨-, -, hy⟩ | ⟨-, halarm, rfl⟩ | ⟨-, hpending, hy⟩ | ⟨r, rfl, -⟩
  · exact work_run h hy
  · have hnot := h.once halarm
    change w.alarm = true at halarm
    change w.pending = false at hnot
    simp [work, halarm, hnot]
  · change w.pending = true at hpending
    rcases handle_cases hy with ⟨rfl, rfl⟩ | ⟨savemask, rfl, -, rfl⟩ | ⟨-, -, -, rfl⟩
    · simp only [work, hpending, Bool.toNat_true, Bool.toNat_false, Pc.work]
      omega
    · simp only [work, hpending, Bool.toNat_true, Bool.toNat_false, Pc.work]
      omega
    · simp [work, hpending]
  · exact absurd rfl (hown r)

/-- Inside the loop a statement leaves it only by `EINTR`. -/
theorem inside_run (hrun : run kernel pc w = some y) (h : pc.Inside) : y.1.Inside ∧ y.2.alarm = w.alarm ∧
    y.2.pending = w.pending := by
  cases pc with
  | pselect =>
    obtain ⟨-, hrun⟩ := Option.ite_none_left_eq_some.mp hrun
    cases hrun
    exact ⟨trivial, rfl, rfl⟩
  | select savemask =>
    obtain ⟨-, hrun⟩ := Option.ite_none_left_eq_some.mp hrun
    cases hrun
    exact ⟨trivial, rfl, rfl⟩
  | restore savemask ready =>
    cases ready with
    | false => exact h.elim
    | true =>
      cases hrun
      exact ⟨trivial, rfl, rfl⟩
  | recvfrom =>
    simp only [Pselect.run] at hrun
    cases hq : w.queue with
    | nil =>
      simp only [hq] at hrun
      cases hrun
    | cons r queue =>
      simp only [hq] at hrun
      cases hrun
      exact ⟨trivial, rfl, rfl⟩
  | printf r =>
    cases hrun
    exact ⟨inside_top kernel, rfl, rfl⟩
  | setmask =>
    cases hrun
    exact ⟨trivial, rfl, rfl⟩
  | call savemask =>
    cases hrun
    exact ⟨trivial, rfl, rfl⟩
  | _ => exact h.elim

/-- Only with the alarm set does a statement enter the loop. -/
theorem outside_run (hrun : run kernel pc w = some y) (h : ¬ pc.Inside) (hin : y.1.Inside) : y.2.alarm = true := by
  cases pc with
  | fgets =>
    simp only [Pselect.run] at hrun
    cases hl : w.lines <;> simp only [hl] at hrun <;> cases hrun <;> exact hin.elim
  | sendto sendline =>
    cases hrun
    exact hin.elim
  | block =>
    cases hrun
    exact hin.elim
  | alarm =>
    cases hrun
    rfl
  | restore savemask ready =>
    cases ready with
    | false =>
      cases hrun
      exact hin.elim
    | true => exact absurd trivial h
  | returned => cases hrun
  | _ => exact absurd trivial h

/-- `select` is called with nothing pending. -/
theorem not_interrupted_run (h : Kept false (pc, w)) (hfree : waits pc = true ∨ w.due = false)
    (hrun : run false pc w = some y) : ¬ Interrupted false y := by
  rintro ⟨hpending, hno | ⟨⟨m, hselect⟩, -⟩⟩
  · cases hno
  · cases pc with
    | call savemask =>
      cases hrun
      rcases hfree with hwaits | hdue
      · cases hwaits
      · have hopen : w.blocked = false := h.mask.2.2
        change w.pending = true at hpending
        simp [World.due, hpending, hopen] at hdue
    | fgets =>
      simp only [Pselect.run] at hrun
      cases hl : w.lines <;> simp only [hl] at hrun <;> cases hrun <;> cases hselect
    | pselect =>
      obtain ⟨-, hrun⟩ := Option.ite_none_left_eq_some.mp hrun
      cases hrun
      cases hselect
    | select savemask =>
      obtain ⟨-, hrun⟩ := Option.ite_none_left_eq_some.mp hrun
      cases hrun
      cases hselect
    | restore savemask ready =>
      cases hrun
      cases ready <;> cases hselect
    | recvfrom =>
      simp only [Pselect.run] at hrun
      cases hq : w.queue <;> simp only [hq] at hrun <;> cases hrun
      cases hselect
    | returned => cases hrun
    | _ =>
      cases hrun
      cases hselect

/-- There is no way back. -/
theorem Doomed.step (hd : Doomed kernel x) (h : Kept kernel x) (hstep : (program kernel).Step x a y) :
    Doomed kernel y := by
  obtain ⟨pc, w⟩ := x
  obtain ⟨hinside, hspent, hnot⟩ := hd
  cases kernel with
  | true =>
    rcases h.inside rfl hinside with halarm | hpending
    · rw [hspent] at halarm
      cases halarm
    · exact absurd ⟨hpending, .inl rfl⟩ hnot
  | false =>
    rcases Program.step_cases hstep with ⟨-, hfree, hy⟩ | ⟨-, halarm, -⟩ | ⟨-, hpending, hy⟩ | ⟨r, -, rfl⟩
    · obtain ⟨hin, hsame, -⟩ := inside_run hy hinside
      exact ⟨hin, hsame.trans hspent, not_interrupted_run h hfree hy⟩
    · rw [hspent] at halarm
      cases halarm
    · rcases handle_cases hy with ⟨rfl, -⟩ | ⟨savemask, rfl, hnil, -⟩ | ⟨-, hselect, -, rfl⟩
      · cases h.mask.1
      · exact absurd ⟨hpending, .inr ⟨⟨savemask, rfl⟩, hnil⟩⟩ hnot
      · exact ⟨hinside, hspent, fun hi ↦ by cases hi.1⟩
    · refine ⟨hinside, hspent, ?_⟩
      rintro ⟨-, hno | ⟨-, hnil⟩⟩
      · cases hno
      · exact List.append_ne_nil_of_right_ne_nil _ (List.cons_ne_nil r []) hnil

theorem doomed_of_run (hd : Doomed kernel x) (h : Kept kernel x) (hrun : Run (program kernel).Step x y) :
    Doomed kernel y :=
  (hrun.preserves (I := fun x ↦ Doomed kernel x ∧ Kept kernel x)
    (fun _ _ _ hi _ hstep ↦ ⟨hi.1.step hi.2 hstep, hi.2.step hstep⟩) ⟨hd, h⟩).1

/-- In the loop of a function that does not wait in vain the alarm is still to go off, or interrupts. -/
theorem alarm_or_interrupted (hin : x.1.Inside) (hd : ¬ Doomed kernel x) :
    x.2.alarm = true ∨ Interrupted kernel x := by
  cases ha : x.2.alarm with
  | true => exact .inl rfl
  | false =>
    right
    by_contra hi
    exact hd ⟨hin, ha, hi⟩

/-- Unless it waits in vain the function can go on, not to wait in vain. -/
theorem goes_on (h : Kept kernel x) (hd : ¬ Doomed kernel x) (hreturned : x.1 ≠ .returned) :
    ∃ a y, a.Own ∧ (program kernel).Step x a y ∧ ¬ Doomed kernel y := by
  obtain ⟨pc, w⟩ := x
  -- A statement behind which the alarm still is to go off, or to be taken by the kernel's `pselect`.
  have hrun {y : Pc × World} (hy : run kernel pc w = some y) (hfree : waits pc = true ∨ w.due = false)
      (hafter : y.1.Inside → y.2.alarm = true ∨ kernel = true ∧ y.2.pending = true) :
      ∃ a y, a.Own ∧ (program kernel).Step (pc, w) a y ∧ ¬ Doomed kernel y := by
    refine ⟨.run, y, fun _ ↦ Act.noConfusion, Program.step_run hfree hy, fun hdoomed ↦ ?_⟩
    rcases hafter hdoomed.1 with ha | ⟨hk, hpending⟩
    · rw [hdoomed.2.1] at ha
      cases ha
    · exact hdoomed.2.2 ⟨hpending, .inl hk⟩
  have hout (hout : ¬ pc.Inside) : w.due = false := by
    rw [World.due, (h.outside hout).2, Bool.false_and]
  -- In the loop, but in `select`.
  have hloop (hin : pc.Inside) (hselect : ∀ savemask, pc ≠ .select savemask) :
      (w.alarm = true ∨ kernel = true ∧ w.pending = true) ∧ w.due = false := by
    rcases alarm_or_interrupted hin hd with ha | ⟨hpending, hk | ⟨⟨m, hm⟩, -⟩⟩
    · exact ⟨.inl ha, by rw [World.due, h.once ha, Bool.false_and]⟩
    · refine ⟨.inr ⟨hk, hpending⟩, ?_⟩
      subst hk
      rw [World.due, h.blocked hin, Bool.not_true, Bool.and_false]
    · exact absurd hm (hselect m)
  cases pc with
  | fgets =>
    cases hl : w.lines with
    | nil => exact hrun (y := (.returned, w)) (by simp only [run, hl]) (.inr (hout id)) False.elim
    | cons sendline rest =>
      exact hrun (y := (.sendto sendline, { w with lines := rest })) (by simp only [run, hl]) (.inr (hout id))
        False.elim
  | sendto sendline => exact hrun rfl (.inr (hout id)) False.elim
  | block => exact hrun rfl (.inr (hout id)) False.elim
  | alarm => exact hrun rfl (.inr (hout id)) fun _ ↦ .inl rfl
  | pselect =>
    obtain ⟨hsafe, -⟩ := hloop trivial fun _ ↦ Pc.noConfusion
    rcases hsafe with ha | ⟨hk, hpending⟩
    · by_cases hnil : w.queue = []
      · refine ⟨.expire, _, fun _ ↦ Act.noConfusion, Program.step_expire ha, fun hdoomed ↦ ?_⟩
        exact hdoomed.2.2 ⟨rfl, .inl h.mask.1⟩
      · exact hrun (y := (.recvfrom, w)) (if_neg hnil) (.inl rfl) fun _ ↦ .inl ha
    · exact ⟨.deliver, _, fun _ ↦ Act.noConfusion, Program.step_deliver hpending rfl, fun hdoomed ↦ hdoomed.1⟩
  | setmask =>
    obtain ⟨hsafe, hdue⟩ := hloop trivial fun _ ↦ Pc.noConfusion
    exact hrun rfl (.inr hdue) fun _ ↦ hsafe
  | call savemask =>
    obtain ⟨hsafe, hdue⟩ := hloop trivial fun _ ↦ Pc.noConfusion
    exact hrun rfl (.inr hdue) fun _ ↦ hsafe
  | select savemask =>
    have hopen : w.blocked = false := h.mask.2.2
    rcases alarm_or_interrupted (x := (.select savemask, w)) trivial hd with ha | ⟨hpending, hi⟩
    · by_cases hnil : w.queue = []
      · refine ⟨.expire, _, fun _ ↦ Act.noConfusion, Program.step_expire ha, fun hdoomed ↦ ?_⟩
        exact hdoomed.2.2 ⟨rfl, .inr ⟨⟨savemask, rfl⟩, hnil⟩⟩
      · exact hrun (y := (.restore savemask true, w)) (if_neg hnil) (.inl rfl) fun _ ↦ .inl ha
    · have hnil : w.queue = [] := by
        rcases hi with hk | ⟨-, hnil⟩
        · have hno := h.mask.1
          rw [hk] at hno
          cases hno
        · exact hnil
      exact ⟨.deliver, _, fun _ ↦ Act.noConfusion, Program.step_deliver hpending (if_pos ⟨hopen, hnil⟩),
        fun hdoomed ↦ hdoomed.1⟩
  | restore savemask ready =>
    cases ready with
    | false => exact hrun rfl (.inr (hout id)) False.elim
    | true =>
      obtain ⟨hsafe, hdue⟩ := hloop trivial fun _ ↦ Pc.noConfusion
      exact hrun rfl (.inr hdue) fun _ ↦ hsafe
  | recvfrom =>
    obtain ⟨hsafe, hdue⟩ := hloop trivial fun _ ↦ Pc.noConfusion
    cases hq : w.queue with
    | nil => exact absurd hq (h.found trivial)
    | cons r queue =>
      exact hrun (y := (.printf r, { w with queue })) (by simp only [run, hq]) (.inr hdue) fun _ ↦ hsafe
  | printf r =>
    obtain ⟨hsafe, hdue⟩ := hloop trivial fun _ ↦ Pc.noConfusion
    exact hrun rfl (.inr hdue) fun _ ↦ hsafe
  | returned => exact absurd rfl hreturned

theorem can_return (h : Kept kernel x) (hd : ¬ Doomed kernel x) :
    ∃ y, Run (program kernel).Step x y ∧ y.1 = .returned := by
  have hgoal : ∀ x, Kept kernel x ∧ ¬ Doomed kernel x → x.1 = .returned ∨
      ∃ y, Run (program kernel).Step x y ∧ (Kept kernel y ∧ ¬ Doomed kernel y) ∧ work y < work x := by
    rintro x ⟨hk, hd⟩
    by_cases hreturned : x.1 = .returned
    · exact .inl hreturned
    · obtain ⟨a, y, hown, hstep, hy⟩ := goes_on hk hd hreturned
      exact .inr ⟨y, RunWith.snoc RunWith.refl True.intro hstep, ⟨hk.step hstep, hy⟩, work_step hk hown hstep⟩
  obtain ⟨y, hrun, -, hreturned⟩ := reaches_of_rank (program kernel).Step work _ hgoal ⟨h, hd⟩
  exact ⟨y, hrun, hreturned⟩

/-- With the kernel's `pselect` it never waits in vain. -/
theorem Kept.not_doomed (h : Kept true x) : ¬ Doomed true x := by
  rintro ⟨hin, hspent, hnot⟩
  rcases h.inside rfl hin with halarm | hpending
  · rw [hspent] at halarm
    cases halarm
  · exact hnot ⟨hpending, .inl rfl⟩

/-- `dg_cli` of `src/bcast/dgclibcast4.c` with the `pselect` of a kernel. Without replies no run goes on forever,
and where there is no step left the function has returned. No reply is lost or printed twice. -/
theorem dg_cli_never_hangs (h : Run (program true).Step (start lines) x) :
    (∀ a y, a.Own → (program true).Step x a y → work y < work x) ∧
      ((∀ a y, a.Own → ¬ (program true).Step x a y) → x.1 = .returned ∧ x.2.sent = lines.map cstring) ∧
      Accounted lines left held x := by
  have hk := kept_of_run h
  have haccounted := accounted_of_run h
  refine ⟨fun a y hown hstep ↦ work_step hk hown hstep, fun hstuck ↦ ?_, haccounted⟩
  have hreturned : x.1 = .returned := by
    by_contra hreturned
    obtain ⟨a, y, hown, hstep, -⟩ := goes_on hk hk.not_doomed hreturned
    exact hstuck a y hown hstep
  refine ⟨hreturned, ?_⟩
  simpa [hreturned, left] using haccounted.sent

/-- A line is sent, and the alarm goes off with no reply. -/
theorem dg_cli_never_hangs_quiet : ∃ x : Pc × World, x.1 = .returned ∧ x.2.sent = [[65, 10]].map cstring := by
  let acts : List Act := [.run, .run, .run, .run, .expire, .deliver, .run]
  have hplay : playActs (program true).step (start [[65, 10]]) acts =
      some (.returned, ⟨[], [[65, 10]], [], [], [], false, false, true⟩) := by decide
  refine ⟨_, (dg_cli_never_hangs (run_of_playActs hplay)).2.1 fun a y hown hstep ↦ ?_⟩
  cases a with
  | reply r => exact hown r rfl
  | _ => cases hstep

/-- With `src/lib/pselect.c` the alarm is lost when it goes off elsewhere than in `select` with no descriptor
ready, or when a reply comes between the signal and its handler. -/
theorem doomed_step_iff (h : Kept false x) (hd : ¬ Doomed false x) (hstep : (program false).Step x a y) :
    Doomed false y ↔ a = .expire ∧ ¬ ((∃ savemask, x.1 = .select savemask) ∧ x.2.queue = []) ∨
      (∃ r, a = .reply r) ∧ Interrupted false x := by
  obtain ⟨pc, w⟩ := x
  rcases Program.step_cases hstep with ⟨rfl, -, hy⟩ | ⟨rfl, halarm, rfl⟩ | ⟨rfl, hpending, hy⟩ | ⟨r, rfl, rfl⟩
  · refine ⟨fun hdoomed ↦ ?_, fun h ↦ by rcases h with ⟨ha, -⟩ | ⟨⟨r, ha⟩, -⟩ <;> cases ha⟩
    by_cases hin : pc.Inside
    · rcases alarm_or_interrupted (x := (pc, w)) hin hd with ha | ⟨-, hno | ⟨⟨m, hm⟩, hnil⟩⟩
      · have hspent : w.alarm = false := (inside_run hy hin).2.1.symm.trans hdoomed.2.1
        rw [hspent] at ha
        cases ha
      · cases hno
      · change pc = .select m at hm
        subst hm
        exact absurd hnil (Option.ite_none_left_eq_some.mp hy).1
    · have := outside_run hy hin hdoomed.1
      rw [hdoomed.2.1] at this
      cases this
  · have hin : pc.Inside := by
      by_contra hout
      rw [(h.outside hout).1] at halarm
      cases halarm
    constructor
    · exact fun hdoomed ↦ .inl ⟨rfl, fun hselect ↦ hdoomed.2.2 ⟨rfl, .inr hselect⟩⟩
    · rintro (⟨-, hnot⟩ | ⟨⟨r, ha⟩, -⟩)
      · refine ⟨hin, rfl, ?_⟩
        rintro ⟨-, hno | hselect⟩
        · cases hno
        · exact hnot hselect
      · cases ha
  · refine ⟨fun hdoomed ↦ ?_, fun h ↦ by rcases h with ⟨ha, -⟩ | ⟨⟨r, ha⟩, -⟩ <;> cases ha⟩
    rcases handle_cases hy with ⟨-, rfl⟩ | ⟨m, -, -, rfl⟩ | ⟨-, hselect, -, rfl⟩
    · exact hdoomed.1.elim
    · exact hdoomed.1.elim
    · rcases alarm_or_interrupted (x := (pc, w)) hdoomed.1 hd with ha | ⟨-, hno | ⟨⟨m, hm⟩, -⟩⟩
      · rw [h.once ha] at hpending
        cases hpending
      · cases hno
      · exact absurd hm (hselect m)
  · constructor
    · refine fun hdoomed ↦ .inr ⟨⟨r, rfl⟩, ?_⟩
      by_contra hi
      exact hd ⟨hdoomed.1, hdoomed.2.1, hi⟩
    · rintro (⟨ha, -⟩ | ⟨-, hpending, hno | ⟨⟨m, hm⟩, hnil⟩⟩)
      · cases ha
      · cases hno
      · refine ⟨h.inside_of_pending hpending, h.spent hpending, ?_⟩
        rintro ⟨-, hno | ⟨-, hmore⟩⟩
        · cases hno
        · exact List.append_ne_nil_of_right_ne_nil _ (List.cons_ne_nil r []) hmore

/-- `dg_cli` of `src/bcast/dgclibcast4.c` with the `pselect` of `src/lib/pselect.c`. It can still return exactly
when it does not wait in vain, which begins when the alarm goes off elsewhere than in `select` with no
descriptor ready, or a reply comes before the handler has run. No reply is lost or printed twice. -/
theorem lib_pselect_returns_iff (h : Run (program false).Step (start lines) x) :
    ((∃ y, Run (program false).Step x y ∧ y.1 = .returned) ↔ ¬ Doomed false x) ∧
      (∀ a y, (program false).Step x a y → (a.Own → work y < work x) ∧
        (¬ Doomed false x → (Doomed false y ↔
          a = .expire ∧ ¬ ((∃ savemask, x.1 = .select savemask) ∧ x.2.queue = []) ∨
            (∃ r, a = .reply r) ∧ Interrupted false x))) ∧
      Accounted lines left held x := by
  have hk := kept_of_run h
  refine ⟨⟨?_, can_return hk⟩, fun a y hstep ↦ ⟨fun hown ↦ work_step hk hown hstep,
    fun hd ↦ doomed_step_iff hk hd hstep⟩, accounted_of_run h⟩
  rintro ⟨⟨pc, w⟩, hrun, hreturned⟩ hd
  obtain rfl : pc = .returned := hreturned
  exact (doomed_of_run hd hk hrun).1

/-- The alarm goes off while `select` is about to be called. -/
theorem lib_pselect_returns_iff_call : ∃ x : Pc × World, x.1 = .call true ∧
    ¬ ∃ y, Run (program false).Step x y ∧ y.1 = .returned := by
  let acts : List Act := [.run, .run, .run, .run, .run, .expire]
  have hplay : playActs (program false).step (start [[65, 10]]) acts = some _ := rfl
  have hiff := (lib_pselect_returns_iff (run_of_playActs hplay)).1
  refine ⟨_, rfl, fun hy ↦ hiff.mp hy ⟨trivial, rfl, ?_⟩⟩
  rintro ⟨-, hno | ⟨⟨m, hm⟩, -⟩⟩
  · cases hno
  · cases hm

end Unpv13e.Bcast.Pselect
