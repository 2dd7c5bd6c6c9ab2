import Unpv13e.Bcast.Alarm

/-!
# An alarm that jumps

Library `Bcast`. `dg_cli` of `src/bcast/dgclibcast5.c`. The handler jumps out of the loop with `siglongjmp`. It
never waits in vain, but the first alarm can go off before `sigsetjmp` has been called, and each can cost the
reply at hand.
-/

namespace Unpv13e.Bcast.Jump
open Unpv13e.Base

/-- Where `dg_cli` is. -/
inductive Pc
  /-- at `Fgets` -/
  | fgets
  | sendto (sendline : List UInt8)
  | alarm
  /-- at `sigsetjmp` -/
  | setjmp
  /-- at `Recvfrom`, or in it -/
  | recvfrom
  | printf (r : Reply)
  | returned
  /-- `siglongjmp` with a `jmpbuf` that has not been set -/
  | undefined
  deriving DecidableEq

/-- Where it is, and whether `jmpbuf` has been set. -/
structure DgCli where
  pc : Pc
  jmpbuf : Bool
  deriving DecidableEq

/-- The statements, `src/bcast/dgclibcast5.c:22–36`. -/
def run (s : DgCli) (w : World) : Option (DgCli × World) :=
  match s.pc with
  | .fgets =>
    match w.lines with
    | [] => some ({ s with pc := .returned }, w)
    | sendline :: lines => some ({ s with pc := .sendto sendline }, { w with lines })
  | .sendto sendline => some ({ s with pc := .alarm }, { w with sent := w.sent ++ [cstring sendline] })
  | .alarm => some ({ s with pc := .setjmp }, { w with alarm := true })
  | .setjmp => some (⟨.recvfrom, true⟩, w)
  | .recvfrom =>
    match w.queue with
    | [] => none
    | r :: queue => some ({ s with pc := .printf r }, { w with queue })
  | .printf r => some ({ s with pc := .setjmp }, { w with printed := w.printed ++ [r.text] })
  | .returned => none
  | .undefined => none

/-- `recvfrom_alarm`: `sigsetjmp` returns once more, and the loop is left. -/
def handle (s : DgCli) (w : World) : Option (DgCli × World) :=
  if w.blocked then none else some ({ s with pc := if s.jmpbuf then .fgets else .undefined }, w)

def program : Program DgCli := ⟨run, (·.pc = .recvfrom), handle⟩

/-- The function is called. -/
def start (lines : List (List UInt8)) : DgCli × World := (⟨.fgets, false⟩, .start lines)

/-- The lines that are left to send. -/
def left (s : DgCli) (lines : List (List UInt8)) : List (List UInt8) :=
  match s.pc with
  | .sendto sendline => sendline :: lines
  | .returned => []
  | _ => lines

/-- The reply that has been received and not been printed. -/
def held (s : DgCli) : List Reply :=
  match s.pc with
  | .printf r => [r]
  | _ => []

/-- In the inner loop. -/
def Pc.Inside : Pc → Prop
  | .setjmp | .recvfrom | .printf _ => True
  | _ => False

/-- What has been printed, and what is at hand. -/
def shown (x : DgCli × World) : List (List UInt8 × List UInt8) :=
  x.2.printed ++ (held x.1 ++ x.2.queue).map Reply.text

/-- For how many of the lines that have been sent the alarm has been handled. -/
def alarms : Pc → Nat → Nat
  | .alarm, sent | .setjmp, sent | .recvfrom, sent | .printf _, sent => sent - 1
  | _, sent => sent

/-- Before `jmpbuf` has been set the first line is on its way. -/
def First (x : DgCli × World) : Prop :=
  x.2.printed = [] ∧ x.2.queue = x.2.arrived ∧
    match x.1.pc with
    | .fgets | .sendto _ | .returned => x.2.sent = []
    | .alarm | .setjmp | .undefined => x.2.sent.length = 1
    | .recvfrom | .printf _ => False

/-- The alarm goes off once for each line, and `jmpbuf` is set before `recvfrom` is called. -/
structure Kept (x : DgCli × World) : Prop where
  once : x.2.alarm = true → x.2.pending = false
  outside : ¬ x.1.pc.Inside → x.2.alarm = false ∧ x.2.pending = false
  inside : x.1.pc.Inside → x.2.alarm = true ∨ x.2.pending = true
  opened : x.2.blocked = false
  begun : x.1.pc.Inside ∨ x.1.pc = .alarm → 0 < x.2.sent.length
  unset : x.1.pc = .undefined → x.1.jmpbuf = false
  first : x.1.jmpbuf = false → First x

/-- Where the lines and the replies are. -/
structure Counted (lines : List (List UInt8)) (x : DgCli × World) : Prop where
  sent : x.2.sent ++ (left x.1 x.2.lines).map cstring = lines.map cstring
  order : (shown x).Sublist (x.2.arrived.map Reply.text)
  lost : x.2.arrived.length ≤ (shown x).length + alarms x.1.pc x.2.sent.length

variable {lines : List (List UInt8)} {s : DgCli} {w : World} {x y : DgCli × World} {a : Act}

theorem kept_start (lines : List (List UInt8)) : Kept (start lines) :=
  ⟨fun h ↦ (by cases h), fun _ ↦ ⟨rfl, rfl⟩, fun h ↦ h.elim, rfl, fun h ↦ (by rcases h with h | h <;> cases h),
    fun h ↦ (by cases h), fun _ ↦ ⟨rfl, rfl, rfl⟩⟩

/-- A statement. -/
theorem Kept.run (h : Kept (s, w)) (hrun : run s w = some y) : Kept y := by
  obtain ⟨pc, jmpbuf⟩ := s
  obtain ⟨honce, hout, hin, hopen, hbegun, -, hfirst⟩ := h
  unfold Jump.run at hrun
  cases pc with
  | fgets =>
    cases hl : w.lines <;> simp only [hl] at hrun <;> cases hrun <;>
      exact ⟨honce, fun _ ↦ hout id, fun h ↦ h.elim, hopen, fun h ↦ (by rcases h with h | h <;> cases h),
        fun h ↦ (by cases h), hfirst⟩
  | sendto sendline =>
    cases hrun
    refine ⟨honce, fun _ ↦ hout id, fun h ↦ h.elim, hopen, fun _ ↦ ?_, fun h ↦ (by cases h), fun hj ↦ ?_⟩
    · simp
    · obtain ⟨hprinted, hqueue, hsent⟩ := hfirst hj
      refine ⟨hprinted, hqueue, ?_⟩
      change w.sent = [] at hsent
      simp [hsent]
  | alarm =>
    cases hrun
    exact ⟨fun _ ↦ (hout id).2, fun h ↦ absurd trivial h, fun _ ↦ .inl rfl, hopen, fun _ ↦ hbegun (.inr rfl),
      fun h ↦ (by cases h), hfirst⟩
  | setjmp =>
    cases hrun
    exact ⟨honce, fun h ↦ absurd trivial h, fun _ ↦ hin trivial, hopen, fun _ ↦ hbegun (.inl trivial),
      fun h ↦ (by cases h), fun h ↦ (by cases h)⟩
  | recvfrom =>
    cases hq : w.queue with
    | nil =>
      simp only [hq] at hrun
      cases hrun
    | cons r queue =>
      simp only [hq] at hrun
      cases hrun
      exact ⟨honce, fun h ↦ absurd trivial h, fun _ ↦ hin trivial, hopen, fun _ ↦ hbegun (.inl trivial),
        fun h ↦ (by cases h), fun hj ↦ (hfirst hj).2.2.elim⟩
  | printf r =>
    cases hrun
    exact ⟨honce, fun h ↦ absurd trivial h, fun _ ↦ hin trivial, hopen, fun _ ↦ hbegun (.inl trivial),
      fun h ↦ (by cases h), fun hj ↦ (hfirst hj).2.2.elim⟩
  | returned => cases hrun
  | undefined => cases hrun

theorem counted_start (lines : List (List UInt8)) : Counted lines (start lines) :=
  ⟨rfl, List.nil_sublist _, Nat.le_refl 0⟩

/-- A statement. -/
theorem Counted.run (h : Counted lines (s, w)) (hrun : run s w = some y) : Counted lines y := by
  obtain ⟨pc, jmpbuf⟩ := s
  obtain ⟨hsent, horder, hlost⟩ := h
  unfold Jump.run at hrun
  cases pc with
  | fgets =>
    cases hl : w.lines <;> simp only [hl] at hrun <;> cases hrun <;>
      exact ⟨by simpa [left, hl] using hsent, horder, hlost⟩
  | sendto sendline =>
    cases hrun
    refine ⟨by simpa [left] using hsent, horder, ?_⟩
    simpa [shown, held, alarms] using hlost
  | alarm =>
    cases hrun
    exact ⟨hsent, horder, hlost⟩
  | setjmp =>
    cases hrun
    exact ⟨hsent, horder, hlost⟩
  | recvfrom =>
    cases hq : w.queue with
    | nil =>
      simp only [hq] at hrun
      cases hrun
    | cons r queue =>
      simp only [hq] at hrun
      cases hrun
      refine ⟨hsent, ?_, ?_⟩
      · simpa [shown, held, hq] using horder
      · simpa [shown, held, alarms, hq] using hlost
  | printf r =>
    cases hrun
    refine ⟨hsent, ?_, ?_⟩
    · simpa [shown, held] using horder
    · simpa [shown, held, alarms, Nat.add_assoc] using hlost
  | returned => cases hrun
  | undefined => cases hrun

/-- What the handler does. -/
theorem handle_cases (h : handle s w = some y) :
    y = (⟨if s.jmpbuf then .fgets else .undefined, s.jmpbuf⟩, w) := by
  obtain ⟨-, h⟩ := Option.ite_none_left_eq_some.mp h
  exact (Option.some.inj h).symm

/-- The handler costs the reply at hand. -/
theorem Counted.handle (h : Counted lines (s, w)) (hin : s.pc.Inside) (hbegun : 0 < w.sent.length)
    (hhandle : handle s w = some y) : Counted lines y := by
  rw [handle_cases hhandle]
  obtain ⟨pc, jmpbuf⟩ := s
  obtain ⟨hsent, horder, hlost⟩ := h
  have hplace (j : Bool) : left ⟨if j then .fgets else .undefined, jmpbuf⟩ w.lines = w.lines ∧
      shown (⟨if j then .fgets else .undefined, jmpbuf⟩, w) = w.printed ++ w.queue.map Reply.text ∧
      alarms (if j then .fgets else .undefined) w.sent.length = w.sent.length := by
    cases j <;> exact ⟨rfl, rfl, rfl⟩
  obtain ⟨hl, hs, ha⟩ := hplace jmpbuf
  have hheld : (held ⟨pc, jmpbuf⟩).length ≤ 1 ∧ left ⟨pc, jmpbuf⟩ w.lines = w.lines ∧
      alarms pc w.sent.length = w.sent.length - 1 := by
    cases pc with
    | printf r => exact ⟨Nat.le_refl 1, rfl, rfl⟩
    | setjmp => exact ⟨Nat.zero_le 1, rfl, rfl⟩
    | recvfrom => exact ⟨Nat.zero_le 1, rfl, rfl⟩
    | _ => exact hin.elim
  obtain ⟨hone, hleft, hspent⟩ := hheld
  refine ⟨?_, ?_, ?_⟩
  · rw [hl]
    rwa [hleft] at hsent
  · rw [hs]
    refine List.Sublist.trans ?_ horder
    simp only [shown, List.map_append]
    exact (List.sublist_append_right _ _).append_left _
  · rw [hs, ha]
    simp only [shown, hspent, List.length_append, List.length_map] at hlost ⊢
    omega

theorem Kept.handle (h : Kept (s, w)) (hpending : w.pending = true)
    (hhandle : handle s { w with pending := false } = some y) : Kept y := by
  have hin : s.pc.Inside := by
    by_contra hno
    rw [(h.outside hno).2] at hpending
    cases hpending
  have hspent : w.alarm = false := by
    cases ha : w.alarm with
    | false => rfl
    | true =>
      rw [h.once ha] at hpending
      cases hpending
  rw [handle_cases hhandle]
  obtain ⟨pc, jmpbuf⟩ := s
  cases jmpbuf with
  | true =>
    exact ⟨fun _ ↦ rfl, fun _ ↦ ⟨hspent, rfl⟩, fun h ↦ h.elim, h.opened,
      fun h ↦ (by rcases h with h | h <;> cases h), fun h ↦ (by cases h), fun h ↦ (by cases h)⟩
  | false =>
    refine ⟨fun _ ↦ rfl, fun _ ↦ ⟨hspent, rfl⟩, fun h ↦ h.elim, h.opened,
      fun h ↦ (by rcases h with h | h <;> cases h), fun _ ↦ rfl, fun _ ↦ ?_⟩
    obtain ⟨hprinted, hqueue, hplace⟩ := h.first rfl
    refine ⟨hprinted, hqueue, ?_⟩
    cases pc with
    | setjmp => exact hplace
    | recvfrom => exact hplace.elim
    | printf r => exact hplace.elim
    | _ => exact hin.elim

theorem Kept.step (h : Kept x) (hstep : program.Step x a y) : Kept y := by
  obtain ⟨s, w⟩ := x
  rcases Program.step_cases hstep with ⟨-, -, hy⟩ | ⟨-, halarm, rfl⟩ | ⟨-, hpending, hy⟩ | ⟨r, -, rfl⟩
  · exact h.run hy
  · refine ⟨fun hno ↦ (by cases hno), fun hout ↦ ?_, fun _ ↦ .inr rfl, h.opened, h.begun, h.unset, h.first⟩
    rw [(h.outside hout).1] at halarm
    cases halarm
  · exact h.handle hpending hy
  · refine ⟨h.once, h.outside, h.inside, h.opened, h.begun, h.unset, fun hj ↦ ?_⟩
    obtain ⟨hprinted, hqueue, hplace⟩ := h.first hj
    exact ⟨hprinted, congrArg (· ++ [r]) hqueue, hplace⟩

theorem kept_of_run (h : Run program.Step (start lines) x) : Kept x :=
  h.preserves (fun _ _ _ hk _ hstep ↦ hk.step hstep) (kept_start lines)

theorem Counted.step (h : Counted lines x) (hk : Kept x) (hstep : program.Step x a y) : Counted lines y := by
  obtain ⟨s, w⟩ := x
  rcases Program.step_cases hstep with ⟨-, -, hy⟩ | ⟨-, -, rfl⟩ | ⟨-, hpending, hy⟩ | ⟨r, -, rfl⟩
  · exact h.run hy
  · exact ⟨h.sent, h.order, h.lost⟩
  · have hin : s.pc.Inside := by
      by_contra hno
      rw [(hk.outside hno).2] at hpending
      cases hpending
    exact Counted.handle (w := { w with pending := false }) ⟨h.sent, h.order, h.lost⟩ hin
      (hk.begun (.inl hin)) hy
  · refine ⟨h.sent, ?_, ?_⟩
    · have := h.order.append_right ([r].map Reply.text)
      simpa [shown, Nat.add_assoc] using this
    · have := h.lost
      simp only [shown, List.length_append, List.length_map, List.length_singleton, List.map_append] at this ⊢
      change _ ≤ _ + alarms s.pc w.sent.length
      change _ ≤ _ + alarms s.pc w.sent.length at this
      omega

theorem counted_of_run (h : Run program.Step (start lines) x) : Counted lines x :=
  (h.preserves (I := fun x ↦ Kept x ∧ Counted lines x)
    (fun _ _ _ hi _ hstep ↦ ⟨hi.1.step hstep, hi.2.step hi.1 hstep⟩) ⟨kept_start lines, counted_start lines⟩).2

/-! ### How it ends -/

/-- What is left to do at a place. -/
def Pc.work : Pc → Nat
  | .fgets => 1
  | .sendto _ => 30
  | .alarm => 29
  | .setjmp => 9
  | .recvfrom => 8
  | .printf _ => 15
  | .returned => 0
  | .undefined => 0

/-- What is left to do but for the replies that will come. -/
def work (x : DgCli × World) : Nat :=
  40 * x.2.lines.length + 20 * x.2.queue.length + 2 * x.2.alarm.toNat + x.2.pending.toNat + x.1.pc.work

theorem work_run (hrun : run s w = some y) : work y < work (s, w) := by
  obtain ⟨pc, jmpbuf⟩ := s
  unfold Jump.run at hrun
  cases pc with
  | fgets =>
    cases hl : w.lines with
    | nil =>
      simp only [hl] at hrun
      cases hrun
      exact Nat.lt_succ_self _
    | cons sendline rest =>
      simp only [hl] at hrun
      cases hrun
      simp only [work, Pc.work, hl, List.length_cons]
      omega
  | alarm =>
    cases hrun
    simp only [work, Pc.work, Bool.toNat_true]
    omega
  | recvfrom =>
    cases hq : w.queue with
    | nil =>
      simp only [hq] at hrun
      cases hrun
    | cons r queue =>
      simp only [hq] at hrun
      cases hrun
      simp only [work, Pc.work, hq, List.length_cons]
      omega
  | printf r =>
    cases hrun
    simp only [work, Pc.work]
    omega
  | sendto sendline =>
    cases hrun
    exact Nat.lt_succ_self _
  | setjmp =>
    cases hrun
    exact Nat.lt_succ_self _
  | returned => cases hrun
  | undefined => cases hrun

/-- All steps but the replies lower what is left. -/
theorem work_step (h : Kept x) (hown : a.Own) (hstep : program.Step x a y) : work y < work x := by
  obtain ⟨⟨pc, jmpbuf⟩, w⟩ := x
  rcases Program.step_cases hstep with ⟨-, -, hy⟩ | ⟨-, halarm, rfl⟩ | ⟨-, hpending, hy⟩ | ⟨r, rfl, -⟩
  · exact work_run hy
  · have hnot := h.once halarm
    change w.alarm = true at halarm
    change w.pending = false at hnot
    simp [work, halarm, hnot]
  · have hin : pc.Inside := by
      by_contra hno
      rw [(h.outside hno).2] at hpending
      cases hpending
    change w.pending = true at hpending
    have hlt : 1 < pc.work := by
      cases pc with
      | setjmp => exact show 1 < 9 by decide
      | recvfrom => exact show 1 < 8 by decide
      | printf r => exact show 1 < 15 by decide
      | _ => exact hin.elim
    have hle : (if jmpbuf then Pc.fgets else .undefined).work ≤ 1 := by cases jmpbuf <;> decide
    rw [handle_cases hy]
    simp only [work, hpending, Bool.toNat_true, Bool.toNat_false]
    omega
  · exact absurd rfl (hown r)

/-- Before the function ends it can go on. -/
theorem goes_on (h : Kept x) (hreturned : x.1.pc ≠ .returned) (hundefined : x.1.pc ≠ .undefined) :
    ∃ a y, a.Own ∧ program.Step x a y := by
  obtain ⟨⟨pc, jmpbuf⟩, w⟩ := x
  have hdeliver (hpending : w.pending = true) : ∃ a y, a.Own ∧ program.Step (⟨pc, jmpbuf⟩, w) a y := by
    have hopen : w.blocked = false := h.opened
    have hhandle : handle ⟨pc, jmpbuf⟩ { w with pending := false } =
        some (⟨if jmpbuf then .fgets else .undefined, jmpbuf⟩, { w with pending := false }) :=
      if_neg (by simpa using hopen)
    exact ⟨.deliver, _, fun _ ↦ Act.noConfusion, Program.step_deliver hpending hhandle⟩
  have hstep {y : DgCli × World} (hy : run ⟨pc, jmpbuf⟩ w = some y) :
      ∃ a y, a.Own ∧ program.Step (⟨pc, jmpbuf⟩, w) a y := by
    cases hp : w.pending with
    | true => exact hdeliver hp
    | false =>
      refine ⟨.run, y, fun _ ↦ Act.noConfusion, Program.step_run (.inr ?_) hy⟩
      rw [World.due, hp, Bool.false_and]
  cases pc with
  | fgets =>
    cases hl : w.lines with
    | nil => exact hstep (y := (⟨.returned, jmpbuf⟩, w)) (by simp only [run, hl])
    | cons sendline rest =>
      exact hstep (y := (⟨.sendto sendline, jmpbuf⟩, { w with lines := rest })) (by simp only [run, hl])
  | recvfrom =>
    rcases h.inside trivial with halarm | hpending
    · exact ⟨.expire, _, fun _ ↦ Act.noConfusion, Program.step_expire halarm⟩
    · exact hdeliver hpending
  | sendto sendline => exact hstep rfl
  | alarm => exact hstep rfl
  | setjmp => exact hstep rfl
  | printf r => exact hstep rfl
  | returned => exact absurd rfl hreturned
  | undefined => exact absurd rfl hundefined

/-- Only the handler reads `jmpbuf`, and before the first `sigsetjmp` it has not been set. -/
theorem undefined_step_iff (h : Kept x) (hundefined : x.1.pc ≠ .undefined) (hstep : program.Step x a y) :
    y.1.pc = .undefined ↔ a = .deliver ∧ x.1 = ⟨.setjmp, false⟩ := by
  obtain ⟨⟨pc, jmpbuf⟩, w⟩ := x
  rcases Program.step_cases hstep with ⟨rfl, -, hy⟩ | ⟨rfl, -, rfl⟩ | ⟨rfl, hpending, hy⟩ | ⟨r, rfl, rfl⟩
  · refine ⟨fun hu ↦ ?_, fun hd ↦ by cases hd.1⟩
    change run ⟨pc, jmpbuf⟩ w = some y at hy
    unfold run at hy
    cases pc with
    | fgets => cases hl : w.lines <;> simp only [hl] at hy <;> cases hy <;> cases hu
    | recvfrom =>
      cases hq : w.queue <;> simp only [hq] at hy <;> cases hy
      cases hu
    | undefined => exact absurd rfl hundefined
    | returned => cases hy
    | _ =>
      cases hy
      cases hu
  · exact ⟨fun hu ↦ absurd hu hundefined, fun hd ↦ by cases hd.1⟩
  · rw [handle_cases hy]
    cases jmpbuf with
    | true => exact ⟨fun hu ↦ (by cases hu), fun hd ↦ by cases hd.2⟩
    | false =>
      refine ⟨fun _ ↦ ⟨rfl, ?_⟩, fun _ ↦ rfl⟩
      obtain ⟨-, -, hplace⟩ := h.first rfl
      cases pc with
      | setjmp => rfl
      | recvfrom => exact hplace.elim
      | printf r => exact hplace.elim
      | _ =>
        rw [(h.outside id).2] at hpending
        cases hpending
  · exact ⟨fun hu ↦ absurd hu hundefined, fun hd ↦ by cases hd.1⟩

end Unpv13e.Bcast.Jump
