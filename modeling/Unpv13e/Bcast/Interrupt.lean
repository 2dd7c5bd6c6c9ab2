import Unpv13e.Bcast.Alarm

/-!
# An alarm that interrupts `recvfrom`

Library `Bcast`. `dg_cli` of `src/bcast/dgclibcast1.c` and `src/bcast/dgclibcast2.c`, and of
`src/bcast/dgclibcast3.c`, which blocks SIGALRM but in `recvfrom`. The handler returns, and the wait ends only
when it has interrupted `recvfrom`. From which states the function can still return.
-/

namespace Unpv13e.Bcast.Interrupt
open Unpv13e.Base

/-- Where `dg_cli` is. -/
inductive Pc
  /-- at `Fgets` -/
  | fgets
  | sendto (sendline : List UInt8)
  | alarm
  /-- at `Sigprocmask` with `SIG_UNBLOCK` -/
  | unblock
  /-- behind it, before `recvfrom` -/
  | call
  /-- in `recvfrom` -/
  | recvfrom
  /-- at `Sigprocmask` with `SIG_BLOCK`, with what `recvfrom` has returned, or `EINTR` -/
  | block (got : Option Reply)
  | printf (r : Reply)
  | returned
  deriving DecidableEq

/-- `for ( ; ; )` -/
def top (masked : Bool) : Pc := if masked then .unblock else .call

/-- `if (n < 0)` -/
def after : Option Reply → Pc
  | none => .fgets
  | some r => .printf r

/-- What follows `recvfrom`. -/
def behind (masked : Bool) (got : Option Reply) : Pc := if masked then .block got else after got

/-- The statements, `src/bcast/dgclibcast3.c:24–45`, and without the calls of `Sigprocmask`
`src/bcast/dgclibcast1.c:20–39` and `src/bcast/dgclibcast2.c:20–40`. -/
def run (masked : Bool) : Pc → World → Option (Pc × World)
  | .fgets, w =>
    match w.lines with
    | [] => some (.returned, w)
    | sendline :: lines => some (.sendto sendline, { w with lines })
  | .sendto sendline, w => some (.alarm, { w with sent := w.sent ++ [cstring sendline] })
  | .alarm, w => some (top masked, { w with alarm := true })
  | .unblock, w => some (.call, { w with blocked := false })
  | .call, w => some (.recvfrom, w)
  | .recvfrom, w =>
    match w.queue with
    | [] => none
    | r :: queue => some (behind masked (some r), { w with queue })
  | .block got, w => some (after got, { w with blocked := true })
  | .printf r, w => some (top masked, { w with printed := w.printed ++ [r.text] })
  | .returned, _ => none

/-- `recvfrom_alarm` returns. It has interrupted `recvfrom`, if that has nothing to return. -/
def handle (masked : Bool) (pc : Pc) (w : World) : Option (Pc × World) :=
  if w.blocked then none
  else
    match pc with
    | .recvfrom => if w.queue = [] then some (behind masked none, w) else none
    | pc => some (pc, w)

def program (masked : Bool) : Program Pc := ⟨run masked, (· = .recvfrom), handle masked⟩

/-- The function is called. -/
def start (lines : List (List UInt8)) : Pc × World := (.fgets, .start lines)

/-- The lines that are left to send. -/
def left : Pc → List (List UInt8) → List (List UInt8)
  | .sendto sendline, lines => sendline :: lines
  | .returned, _ => []
  | _, lines => lines

/-- The reply that has been received and not been printed. -/
def held : Pc → List Reply
  | .block (some r) => [r]
  | .printf r => [r]
  | _ => []

/-- In the inner loop, and not on the way out of it. -/
def Pc.Inside : Pc → Prop
  | .unblock | .call | .recvfrom | .block (some _) | .printf _ => True
  | _ => False

/-- Whether SIGALRM is blocked. -/
def Mask (masked : Bool) (pc : Pc) (blocked : Bool) : Prop :=
  match masked, pc with
  | false, pc => blocked = false ∧ pc ≠ .unblock ∧ ∀ got, pc ≠ .block got
  | true, .call | true, .recvfrom | true, .block _ => blocked = false
  | true, .printf _ => blocked = true
  | true, _ => True

/-- The alarm goes off once for each line. -/
structure Kept (masked : Bool) (x : Pc × World) : Prop where
  once : x.2.alarm = true → x.2.pending = false
  outside : ¬ x.1.Inside → x.2.alarm = false ∧ x.2.pending = false
  mask : Mask masked x.1 x.2.blocked

variable {masked : Bool} {lines : List (List UInt8)} {pc : Pc} {w : World} {x y : Pc × World} {a : Act}

theorem inside_top (masked : Bool) : (top masked).Inside := by cases masked <;> trivial

theorem mask_top {blocked : Bool} (h : masked = false → blocked = false) : Mask masked (top masked) blocked := by
  cases masked with
  | false => exact ⟨h rfl, Pc.noConfusion, fun _ ↦ Pc.noConfusion⟩
  | true => trivial

/-- Where the mask is not looked at. -/
theorem Mask.next {blocked : Bool} {pc' : Pc} (h : Mask masked pc blocked) (htrue : Mask true pc' blocked)
    (hunblock : pc' ≠ .unblock) (hblock : ∀ got, pc' ≠ .block got) : Mask masked pc' blocked := by
  cases masked with
  | false => exact ⟨h.1, hunblock, hblock⟩
  | true => exact htrue

theorem kept_start (lines : List (List UInt8)) : Kept masked (start lines) where
  once := fun h ↦ by cases h
  outside := fun _ ↦ ⟨rfl, rfl⟩
  mask := by
    cases masked with
    | false => exact ⟨rfl, Pc.noConfusion, fun _ ↦ Pc.noConfusion⟩
    | true => trivial

/-- A statement. -/
theorem Kept.run (h : Kept masked (pc, w)) (hrun : run masked pc w = some y) : Kept masked y := by
  have hmask := h.mask
  cases pc with
  | fgets =>
    have hquiet := h.outside id
    simp only [Interrupt.run] at hrun
    cases hl : w.lines with
    | nil =>
      simp only [hl] at hrun
      cases hrun
      exact ⟨h.once, fun _ ↦ hquiet, hmask.next trivial Pc.noConfusion fun _ ↦ Pc.noConfusion⟩
    | cons sendline rest =>
      simp only [hl] at hrun
      cases hrun
      exact ⟨h.once, fun _ ↦ hquiet, hmask.next trivial Pc.noConfusion fun _ ↦ Pc.noConfusion⟩
  | sendto sendline =>
    cases hrun
    exact ⟨h.once, fun _ ↦ h.outside id, hmask.next trivial Pc.noConfusion fun _ ↦ Pc.noConfusion⟩
  | alarm =>
    cases hrun
    refine ⟨fun _ ↦ (h.outside id).2, fun hout ↦ absurd (inside_top masked) hout, mask_top ?_⟩
    rintro rfl
    exact hmask.1
  | unblock =>
    cases hrun
    refine ⟨h.once, fun hout ↦ absurd trivial hout, ?_⟩
    cases masked with
    | false => exact absurd rfl hmask.2.1
    | true => rfl
  | call =>
    cases hrun
    refine ⟨h.once, fun hout ↦ absurd trivial hout, ?_⟩
    cases masked with
    | false => exact ⟨hmask.1, Pc.noConfusion, fun _ ↦ Pc.noConfusion⟩
    | true => exact hmask
  | recvfrom =>
    simp only [Interrupt.run] at hrun
    cases hq : w.queue with
    | nil =>
      simp only [hq] at hrun
      cases hrun
    | cons r queue =>
      simp only [hq] at hrun
      cases hrun
      cases masked with
      | false => exact ⟨h.once, fun hout ↦ absurd trivial hout, hmask.1, Pc.noConfusion, fun _ ↦ Pc.noConfusion⟩
      | true => exact ⟨h.once, fun hout ↦ absurd trivial hout, hmask⟩
  | block got =>
    cases hrun
    cases masked with
    | false => exact absurd rfl (hmask.2.2 got)
    | true =>
      cases got with
      | none => exact ⟨h.once, fun _ ↦ h.outside id, trivial⟩
      | some r => exact ⟨h.once, fun hout ↦ absurd trivial hout, rfl⟩
  | printf r =>
    cases hrun
    refine ⟨h.once, fun hout ↦ absurd (inside_top masked) hout, mask_top ?_⟩
    rintro rfl
    exact hmask.1
  | returned => cases hrun

/-- What the handler does: it ends the wait in `recvfrom`, or nothing. -/
theorem handle_cases (h : handle masked pc w = some y) :
    w.blocked = false ∧ (pc = .recvfrom ∧ w.queue = [] ∧ y = (behind masked none, w) ∨
      pc ≠ .recvfrom ∧ y = (pc, w)) := by
  unfold handle at h
  cases hb : w.blocked with
  | true => simp [hb] at h
  | false =>
    refine ⟨rfl, ?_⟩
    rw [hb] at h
    cases pc with
    | recvfrom =>
      obtain ⟨hnil, h⟩ := Option.ite_none_right_eq_some.mp h
      cases h
      exact .inl ⟨rfl, hnil, rfl⟩
    | _ =>
      cases h
      exact .inr ⟨Pc.noConfusion, rfl⟩

theorem Kept.step (h : Kept masked x) (hstep : (program masked).Step x a y) : Kept masked y := by
  obtain ⟨pc, w⟩ := x
  rcases Program.step_cases hstep with ⟨-, -, hy⟩ | ⟨-, halarm, rfl⟩ | ⟨-, hpending, hy⟩ | ⟨r, -, rfl⟩
  · exact h.run hy
  · refine ⟨fun hno ↦ (by cases hno), fun hout ↦ ?_, h.mask⟩
    rw [(h.outside hout).1] at halarm
    cases halarm
  · have hinside : pc.Inside := by
      by_contra hout
      rw [(h.outside hout).2] at hpending
      cases hpending
    have hspent : w.alarm = false := by
      cases ha : w.alarm with
      | false => rfl
      | true =>
        rw [h.once ha] at hpending
        cases hpending
    obtain ⟨-, ⟨rfl, -, rfl⟩ | ⟨-, rfl⟩⟩ := handle_cases hy
    · refine ⟨fun _ ↦ rfl, fun _ ↦ ⟨hspent, rfl⟩, ?_⟩
      have hmask := h.mask
      cases masked with
      | false => exact ⟨hmask.1, Pc.noConfusion, fun _ ↦ Pc.noConfusion⟩
      | true => exact hmask
    · exact ⟨fun _ ↦ rfl, fun hout ↦ absurd hinside hout, h.mask⟩
  · exact ⟨h.once, h.outside, h.mask⟩

theorem kept_of_run (h : Run (program masked).Step (start lines) x) : Kept masked x :=
  h.preserves (fun _ _ _ hk _ hstep ↦ hk.step hstep) (kept_start lines)

/-! ### The lines and the replies -/

theorem accounted_start (lines : List (List UInt8)) : Accounted lines left held (start lines) := ⟨rfl, rfl⟩

theorem accounted_run (hrun : run masked pc w = some y) (h : Accounted lines left held (pc, w)) :
    Accounted lines left held y := by
  obtain ⟨hsent, hprinted⟩ := h
  cases pc with
  | fgets =>
    simp only [Interrupt.run] at hrun
    cases hl : w.lines with
    | nil =>
      simp only [hl] at hrun
      cases hrun
      refine ⟨?_, hprinted⟩
      simpa [left, hl] using hsent
    | cons sendline rest =>
      simp only [hl] at hrun
      cases hrun
      refine ⟨?_, hprinted⟩
      simpa [left, hl] using hsent
  | sendto sendline =>
    cases hrun
    refine ⟨?_, hprinted⟩
    simpa [left] using hsent
  | recvfrom =>
    simp only [Interrupt.run] at hrun
    cases hq : w.queue with
    | nil =>
      simp only [hq] at hrun
      cases hrun
    | cons r queue =>
      simp only [hq] at hrun
      cases hrun
      cases masked <;> exact ⟨hsent, by simpa [held, behind, after, hq] using hprinted⟩
  | block got =>
    cases hrun
    cases got <;> exact ⟨hsent, hprinted⟩
  | printf r =>
    cases hrun
    cases masked <;> exact ⟨hsent, by simpa [held, top] using hprinted⟩
  | alarm =>
    cases hrun
    cases masked <;> exact ⟨hsent, hprinted⟩
  | unblock =>
    cases hrun
    exact ⟨hsent, hprinted⟩
  | call =>
    cases hrun
    exact ⟨hsent, hprinted⟩
  | returned => cases hrun

theorem accounted_handle (hhandle : handle masked pc w = some y) (h : Accounted lines left held (pc, w)) :
    Accounted lines left held y := by
  obtain ⟨-, ⟨rfl, -, rfl⟩ | ⟨-, rfl⟩⟩ := handle_cases hhandle
  · cases masked <;> exact ⟨h.sent, h.printed⟩
  · exact h

theorem accounted_of_run (h : Run (program masked).Step (start lines) x) : Accounted lines left held x :=
  h.preserves (fun _ _ _ hk _ hstep ↦ hk.step (p := program masked) (fun _ _ _ ↦ accounted_run)
    (fun _ _ _ ↦ accounted_handle) hstep) (accounted_start lines)

/-! ### Waiting in vain -/

/-- In `recvfrom` with nothing to return, and the signal is taken next. -/
def Interrupted (x : Pc × World) : Prop := x.1 = .recvfrom ∧ x.2.queue = [] ∧ x.2.pending = true

/-- In the loop, with the alarm spent, and not on `recvfrom`. -/
def Doomed (x : Pc × World) : Prop := x.1.Inside ∧ x.2.alarm = false ∧ ¬ Interrupted x

/-- What is left to do at a place. -/
def Pc.work : Pc → Nat
  | .fgets => 1
  | .sendto _ => 30
  | .alarm => 29
  | .unblock => 9
  | .call => 8
  | .recvfrom => 7
  | .block none => 5
  | .block (some _) => 15
  | .printf _ => 14
  | .returned => 0

/-- What is left to do but for the replies that will come. -/
def work (x : Pc × World) : Nat :=
  40 * x.2.lines.length + 20 * x.2.queue.length + 2 * x.2.alarm.toNat + x.2.pending.toNat + x.1.work

theorem work_top (masked : Bool) : (top masked).work ≤ 9 := by cases masked <;> decide

theorem work_behind (masked : Bool) (got : Option Reply) : (behind masked got).work ≤ 15 := by
  cases masked <;> cases got <;> simp [behind, after, Pc.work]

theorem work_ended (masked : Bool) : (behind masked none).work ≤ 5 := by cases masked <;> decide

/-- A statement lowers what is left. -/
theorem work_run (h : Kept masked (pc, w)) (hrun : run masked pc w = some y) : work y < work (pc, w) := by
  cases pc with
  | fgets =>
    simp only [Interrupt.run] at hrun
    cases hl : w.lines with
    | nil =>
      simp only [hl] at hrun
      cases hrun
      simp only [work, Pc.work]
      omega
    | cons sendline rest =>
      simp only [hl] at hrun
      cases hrun
      simp only [work, Pc.work, hl, List.length_cons]
      omega
  | alarm =>
    cases hrun
    have htop := work_top masked
    simp only [work, Bool.toNat_true, Pc.work] at htop ⊢
    omega
  | recvfrom =>
    simp only [Interrupt.run] at hrun
    cases hq : w.queue with
    | nil =>
      simp only [hq] at hrun
      cases hrun
    | cons r queue =>
      simp only [hq] at hrun
      cases hrun
      have hbehind := work_behind masked (some r)
      simp only [work, hq, List.length_cons, Pc.work] at hbehind ⊢
      omega
  | block got =>
    cases hrun
    cases got <;> simp [work, after, Pc.work]
  | printf r =>
    cases hrun
    have htop := work_top masked
    simp only [work, Pc.work] at htop ⊢
    omega
  | sendto sendline =>
    cases hrun
    exact Nat.lt_succ_self _
  | unblock =>
    cases hrun
    exact Nat.lt_succ_self _
  | call =>
    cases hrun
    exact Nat.lt_succ_self _
  | returned => cases hrun

/-- All steps but the replies lower what is left. -/
theorem work_step (h : Kept masked x) (hown : a.Own) (hstep : (program masked).Step x a y) : work y < work x := by
  obtain ⟨pc, w⟩ := x
  rcases Program.step_cases hstep with ⟨-, -, hy⟩ | ⟨-, halarm, rfl⟩ | ⟨-, hpending, hy⟩ | ⟨r, rfl, -⟩
  · exact work_run h hy
  · have hnot := h.once halarm
    change w.alarm = true at halarm
    change w.pending = false at hnot
    simp [work, halarm, hnot]
  · change w.pending = true at hpending
    obtain ⟨-, ⟨rfl, -, rfl⟩ | ⟨-, rfl⟩⟩ := handle_cases hy
    · have hended := work_ended masked
      simp only [work, hpending, Bool.toNat_true, Bool.toNat_false, Pc.work] at hended ⊢
      omega
    · simp [work, hpending]
  · exact absurd rfl (hown r)

/-- Inside the loop a statement leaves it only by `EINTR`. -/
theorem inside_run (hrun : run masked pc w = some y) (h : pc.Inside) : y.1.Inside ∧ y.2.alarm = w.alarm ∧
    y.2.pending = w.pending := by
  cases pc with
  | unblock =>
    cases hrun
    exact ⟨trivial, rfl, rfl⟩
  | call =>
    cases hrun
    exact ⟨trivial, rfl, rfl⟩
  | recvfrom =>
    simp only [Interrupt.run] at hrun
    cases hq : w.queue with
    | nil =>
      simp only [hq] at hrun
      cases hrun
    | cons r queue =>
      simp only [hq] at hrun
      cases hrun
      cases masked <;> exact ⟨trivial, rfl, rfl⟩
  | block got =>
    cases got with
    | none => exact h.elim
    | some r =>
      cases hrun
      exact ⟨trivial, rfl, rfl⟩
  | printf r =>
    cases hrun
    exact ⟨inside_top masked, rfl, rfl⟩
  | _ => exact h.elim

/-- Nothing can be pending when `recvfrom` is called. -/
theorem not_interrupted_run (h : Kept masked (pc, w)) (hfree : (program masked).waits pc = true ∨ w.due = false)
    (hrun : run masked pc w = some y) : ¬ Interrupted y := by
  rintro ⟨hrecv, hqueue, hpending⟩
  cases pc with
  | call =>
    cases hrun
    have hopen : w.blocked = false := by
      have hmask := h.mask
      cases masked with
      | false => exact hmask.1
      | true => exact hmask
    rcases hfree with hwaits | hdue
    · cases hwaits
    · change w.pending = true at hpending
      simp [World.due, hpending, hopen] at hdue
  | fgets =>
    simp only [Interrupt.run] at hrun
    cases hl : w.lines <;> simp only [hl] at hrun <;> cases hrun <;> cases hrecv
  | recvfrom =>
    simp only [Interrupt.run] at hrun
    cases hq : w.queue with
    | nil =>
      simp only [hq] at hrun
      cases hrun
    | cons r queue =>
      simp only [hq] at hrun
      cases hrun
      cases masked <;> cases hrecv
  | block got =>
    cases hrun
    cases got <;> cases hrecv
  | alarm =>
    cases hrun
    cases masked <;> cases hrecv
  | printf r =>
    cases hrun
    cases masked <;> cases hrecv
  | sendto sendline =>
    cases hrun
    cases hrecv
  | unblock =>
    cases hrun
    cases hrecv
  | returned => cases hrun

/-- There is no way back. -/
theorem Doomed.step (hd : Doomed x) (h : Kept masked x) (hstep : (program masked).Step x a y) : Doomed y := by
  obtain ⟨pc, w⟩ := x
  obtain ⟨hinside, hspent, hnot⟩ := hd
  rcases Program.step_cases hstep with ⟨-, hfree, hy⟩ | ⟨-, halarm, -⟩ | ⟨-, hpending, hy⟩ | ⟨r, -, rfl⟩
  · obtain ⟨hin, hsame, -⟩ := inside_run hy hinside
    exact ⟨hin, hsame.trans hspent, not_interrupted_run h hfree hy⟩
  · rw [hspent] at halarm
    cases halarm
  · obtain ⟨-, ⟨hrecv, hnil, -⟩ | ⟨hrecv, rfl⟩⟩ := handle_cases hy
    · exact absurd ⟨hrecv, hnil, hpending⟩ hnot
    · exact ⟨hinside, hspent, fun hi ↦ hrecv hi.1⟩
  · refine ⟨hinside, hspent, ?_⟩
    rintro ⟨-, hnil, -⟩
    exact List.append_ne_nil_of_right_ne_nil _ (List.cons_ne_nil r []) hnil

theorem doomed_of_run (hd : Doomed x) (h : Kept masked x) (hrun : Run (program masked).Step x y) : Doomed y :=
  (hrun.preserves (I := fun x ↦ Doomed x ∧ Kept masked x)
    (fun _ _ _ hi _ hstep ↦ ⟨hi.1.step hi.2 hstep, hi.2.step hstep⟩) ⟨hd, h⟩).1

/-- Unless it waits in vain the function can go on, not to wait in vain. -/
theorem goes_on (h : Kept masked x) (hd : ¬ Doomed x) (hreturned : x.1 ≠ .returned) :
    ∃ a y, a.Own ∧ (program masked).Step x a y ∧ ¬ Doomed y := by
  obtain ⟨pc, w⟩ := x
  -- A statement after which the alarm still is to go off, or the loop has been left.
  have hrun {y : Pc × World} (hy : run masked pc w = some y) (hquiet : w.pending = false)
      (hafter : y.1.Inside → y.2.alarm = true) : ∃ a y, a.Own ∧ (program masked).Step (pc, w) a y ∧ ¬ Doomed y := by
    have hdue : w.due = false := by rw [World.due, hquiet, Bool.false_and]
    refine ⟨.run, y, fun _ ↦ Act.noConfusion, Program.step_run (.inr hdue) hy, fun hdoomed ↦ ?_⟩
    have := hafter hdoomed.1
    rw [hdoomed.2.1] at this
    cases this
  have hquiet (hin : pc.Inside) (hrecv : pc ≠ .recvfrom) : w.alarm = true ∧ w.pending = false := by
    cases ha : w.alarm with
    | true => exact ⟨rfl, h.once ha⟩
    | false => exact absurd ⟨hin, ha, fun hi ↦ hrecv hi.1⟩ hd
  cases pc with
  | fgets =>
    cases hl : w.lines with
    | nil => exact hrun (y := (.returned, w)) (by simp only [run, hl]) (h.outside id).2 False.elim
    | cons sendline rest =>
      exact hrun (y := (.sendto sendline, { w with lines := rest })) (by simp only [run, hl]) (h.outside id).2
        False.elim
  | sendto sendline => exact hrun rfl (h.outside id).2 False.elim
  | alarm => exact hrun rfl (h.outside id).2 fun _ ↦ rfl
  | unblock =>
    obtain ⟨ha, hq⟩ := hquiet trivial Pc.noConfusion
    exact hrun rfl hq fun _ ↦ ha
  | call =>
    obtain ⟨ha, hq⟩ := hquiet trivial Pc.noConfusion
    exact hrun rfl hq fun _ ↦ ha
  | recvfrom =>
    cases ha : w.alarm with
    | true =>
      cases hq : w.queue with
      | nil =>
        refine ⟨.expire, _, fun _ ↦ Act.noConfusion, Program.step_expire ha, fun hdoomed ↦ ?_⟩
        exact hdoomed.2.2 ⟨rfl, hq, rfl⟩
      | cons r queue =>
        exact hrun (y := (behind masked (some r), { w with queue })) (by simp only [run, hq]) (h.once ha)
          fun _ ↦ ha
    | false =>
      have hi : Interrupted (.recvfrom, w) := by
        by_contra hi
        exact hd ⟨trivial, ha, hi⟩
      obtain ⟨-, hnil, hpending⟩ := hi
      change w.queue = [] at hnil
      have hopen : w.blocked = false := by
        have hmask := h.mask
        cases masked with
        | false => exact hmask.1
        | true => exact hmask
      have hhandle : handle masked .recvfrom { w with pending := false } =
          some (behind masked none, { w with pending := false }) := by
        simp [handle, hopen, hnil]
      refine ⟨.deliver, _, fun _ ↦ Act.noConfusion, Program.step_deliver hpending hhandle, fun hdoomed ↦ ?_⟩
      cases masked <;> exact hdoomed.1
  | block got =>
    cases got with
    | none => exact hrun rfl (h.outside id).2 False.elim
    | some r =>
      obtain ⟨ha, hq⟩ := hquiet trivial Pc.noConfusion
      exact hrun rfl hq fun _ ↦ ha
  | printf r =>
    obtain ⟨ha, hq⟩ := hquiet trivial Pc.noConfusion
    exact hrun rfl hq fun _ ↦ ha
  | returned => exact absurd rfl hreturned

/-- Only with the alarm set does a statement enter the loop. -/
theorem outside_run (hrun : run masked pc w = some y) (h : ¬ pc.Inside) (hin : y.1.Inside) : y.2.alarm = true := by
  cases pc with
  | fgets =>
    simp only [Interrupt.run] at hrun
    cases hl : w.lines <;> simp only [hl] at hrun <;> cases hrun <;> exact hin.elim
  | sendto sendline =>
    cases hrun
    exact hin.elim
  | alarm =>
    cases hrun
    rfl
  | block got =>
    cases got with
    | none =>
      cases hrun
      exact hin.elim
    | some r => exact absurd trivial h
  | returned => cases hrun
  | _ => exact absurd trivial h

/-- The alarm is lost when it goes off elsewhere than in `recvfrom` with nothing to return, or when a reply
comes between the signal and its handler. -/
theorem doomed_step_iff (h : Kept masked x) (hd : ¬ Doomed x) (hstep : (program masked).Step x a y) :
    Doomed y ↔ a = .expire ∧ ¬ (x.1 = .recvfrom ∧ x.2.queue = []) ∨ (∃ r, a = .reply r) ∧ Interrupted x := by
  obtain ⟨pc, w⟩ := x
  rcases Program.step_cases hstep with ⟨rfl, -, hy⟩ | ⟨rfl, halarm, rfl⟩ | ⟨rfl, hpending, hy⟩ | ⟨r, rfl, rfl⟩
  · refine ⟨fun hdoomed ↦ ?_, fun h ↦ by rcases h with ⟨ha, -⟩ | ⟨⟨r, ha⟩, -⟩ <;> cases ha⟩
    by_cases hin : pc.Inside
    · have hspent : w.alarm = false := (inside_run hy hin).2.1.symm.trans hdoomed.2.1
      have hi : Interrupted (pc, w) := by
        by_contra hi
        exact hd ⟨hin, hspent, hi⟩
      obtain ⟨hrecv, hnil, -⟩ := hi
      change pc = .recvfrom at hrecv
      change w.queue = [] at hnil
      change run masked pc w = some y at hy
      simp only [hrecv, run, hnil] at hy
      cases hy
    · have := outside_run hy hin hdoomed.1
      rw [hdoomed.2.1] at this
      cases this
  · have hin : pc.Inside := by
      by_contra hout
      rw [(h.outside hout).1] at halarm
      cases halarm
    constructor
    · exact fun hdoomed ↦ .inl ⟨rfl, fun hrecv ↦ hdoomed.2.2 ⟨hrecv.1, hrecv.2, rfl⟩⟩
    · rintro (⟨-, hnot⟩ | ⟨⟨r, ha⟩, -⟩)
      · exact ⟨hin, rfl, fun hi ↦ hnot ⟨hi.1, hi.2.1⟩⟩
      · cases ha
  · refine ⟨fun hdoomed ↦ ?_, fun h ↦ by rcases h with ⟨ha, -⟩ | ⟨⟨r, ha⟩, -⟩ <;> cases ha⟩
    obtain ⟨-, ⟨-, -, rfl⟩ | ⟨hrecv, rfl⟩⟩ := handle_cases hy
    · cases masked <;> exact hdoomed.1.elim
    · exact absurd ⟨hdoomed.1, hdoomed.2.1, fun hi ↦ hrecv hi.1⟩ hd
  · constructor
    · refine fun hdoomed ↦ .inr ⟨⟨r, rfl⟩, ?_⟩
      by_contra hi
      exact hd ⟨hdoomed.1, hdoomed.2.1, hi⟩
    · rintro (⟨ha, -⟩ | ⟨-, hrecv, hnil, hpending⟩)
      · cases ha
      · have hspent : w.alarm = false := by
          cases ha : w.alarm with
          | false => rfl
          | true => exact absurd (h.once ha) (by rw [hpending]; exact Bool.noConfusion)
        change pc = .recvfrom at hrecv
        rw [hrecv]
        exact ⟨trivial, hspent, fun hi ↦ List.append_ne_nil_of_right_ne_nil _ (List.cons_ne_nil r []) hi.2.1⟩

/-- `dg_cli` of `src/bcast/dgclibcast1.c`, `src/bcast/dgclibcast2.c` and `src/bcast/dgclibcast3.c`. It can still
return exactly when it does not wait in vain, which begins when the alarm goes off elsewhere than in `recvfrom`
with nothing to return, or a reply comes before the handler has run. No reply is lost or printed twice. -/
theorem dg_cli_returns_iff (h : Run (program masked).Step (start lines) x) :
    ((∃ y, Run (program masked).Step x y ∧ y.1 = .returned) ↔ ¬ Doomed x) ∧
      (∀ a y, (program masked).Step x a y → (a.Own → work y < work x) ∧
        (¬ Doomed x → (Doomed y ↔ a = .expire ∧ ¬ (x.1 = .recvfrom ∧ x.2.queue = []) ∨
          (∃ r, a = .reply r) ∧ Interrupted x))) ∧
      Accounted lines left held x := by
  have hk := kept_of_run h
  refine ⟨⟨?_, fun hd ↦ ?_⟩, fun a y hstep ↦ ⟨fun hown ↦ work_step hk hown hstep,
    fun hd ↦ doomed_step_iff hk hd hstep⟩, accounted_of_run h⟩
  · rintro ⟨⟨pc, w⟩, hrun, hreturned⟩ hd
    obtain rfl : pc = .returned := hreturned
    exact (doomed_of_run hd hk hrun).1
  · have hgoal : ∀ x, Kept masked x ∧ ¬ Doomed x → x.1 = .returned ∨
        ∃ y, Run (program masked).Step x y ∧ (Kept masked y ∧ ¬ Doomed y) ∧ work y < work x := by
      rintro x ⟨hk, hd⟩
      by_cases hreturned : x.1 = .returned
      · exact .inl hreturned
      · obtain ⟨a, y, hown, hstep, hy⟩ := goes_on hk hd hreturned
        exact .inr ⟨y, RunWith.snoc RunWith.refl True.intro hstep, ⟨hk.step hstep, hy⟩, work_step hk hown hstep⟩
    obtain ⟨y, hrun, -, hreturned⟩ := reaches_of_rank (program masked).Step work _ hgoal ⟨hk, hd⟩
    exact ⟨y, hrun, hreturned⟩

/-- The alarm goes off while a reply is printed, with SIGALRM blocked. -/
theorem dg_cli_returns_iff_printf : ∃ x : Pc × World, x.1 = .printf ⟨[], []⟩ ∧
    ¬ ∃ y, Run (program true).Step x y ∧ y.1 = .returned := by
  let acts : List Act := [.run, .run, .run, .run, .run, .reply ⟨[], []⟩, .run, .run, .expire]
  have hplay : playActs (program true).step (start [[65, 10]]) acts = some _ := rfl
  have hiff := (dg_cli_returns_iff (run_of_playActs hplay)).1
  exact ⟨_, rfl, fun hy ↦ hiff.mp hy ⟨trivial, rfl, fun hi ↦ by cases hi.1⟩⟩

end Unpv13e.Bcast.Interrupt
