import Unpv13e.Bcast.Alarm

/-!
# An alarm that writes to a pipe

Library `Bcast`. `dg_cli` of `src/bcast/dgclibcast6.c`. The handler writes a byte to a pipe, and `select` waits
for the socket and for the pipe. It never waits in vain.
-/

namespace Unpv13e.Bcast.Pipe
open Unpv13e.Base

/-- Where `dg_cli` is. -/
inductive Pc
  /-- at `Fgets` -/
  | fgets
  | sendto (sendline : List UInt8)
  | alarm
  /-- in `select` -/
  | select
  /-- `if (FD_ISSET(sockfd, &rset))`, with what `select` has found ready -/
  | testSock (rsock rpipe : Bool)
  | recvfrom (rpipe : Bool)
  | printf (r : Reply) (rpipe : Bool)
  /-- `if (FD_ISSET(pipefd[0], &rset))` -/
  | testPipe (rpipe : Bool)
  /-- at `Read` -/
  | read
  | returned
  deriving DecidableEq

/-- Where it is, and how many bytes are in the pipe. -/
structure DgCli where
  pc : Pc
  pipe : Nat
  deriving DecidableEq

/-- The statements, `src/bcast/dgclibcast6.c:27–54`. -/
def run (s : DgCli) (w : World) : Option (DgCli × World) :=
  match s.pc with
  | .fgets =>
    match w.lines with
    | [] => some ({ s with pc := .returned }, w)
    | sendline :: lines => some ({ s with pc := .sendto sendline }, { w with lines })
  | .sendto sendline => some ({ s with pc := .alarm }, { w with sent := w.sent ++ [cstring sendline] })
  | .alarm => some ({ s with pc := .select }, { w with alarm := true })
  | .select =>
    if w.queue = [] ∧ s.pipe = 0 then none
    else some ({ s with pc := .testSock (w.queue ≠ []) (s.pipe ≠ 0) }, w)
  | .testSock true rpipe => some ({ s with pc := .recvfrom rpipe }, w)
  | .testSock false rpipe => some ({ s with pc := .testPipe rpipe }, w)
  | .recvfrom rpipe =>
    match w.queue with
    | [] => none
    | r :: queue => some ({ s with pc := .printf r rpipe }, { w with queue })
  | .printf r rpipe => some ({ s with pc := .testPipe rpipe }, { w with printed := w.printed ++ [r.text] })
  | .testPipe true => some ({ s with pc := .read }, w)
  | .testPipe false => some ({ s with pc := .select }, w)
  | .read => if s.pipe = 0 then none else some (⟨.fgets, s.pipe - 1⟩, w)
  | .returned => none

/-- In a call that waits. -/
def waits (s : DgCli) : Bool :=
  match s.pc with
  | .select | .recvfrom _ | .read => true
  | _ => false

/-- `recvfrom_alarm` writes a byte; `select` is called again. -/
def handle (s : DgCli) (w : World) : Option (DgCli × World) :=
  if w.blocked then none else some ({ s with pipe := s.pipe + 1 }, w)

def program : Program DgCli := ⟨run, waits, handle⟩

/-- The function is called. -/
def start (lines : List (List UInt8)) : DgCli × World := (⟨.fgets, 0⟩, .start lines)

/-- The lines that are left to send. -/
def left (s : DgCli) (lines : List (List UInt8)) : List (List UInt8) :=
  match s.pc with
  | .sendto sendline => sendline :: lines
  | .returned => []
  | _ => lines

/-- The reply that has been received and not been printed. -/
def held (s : DgCli) : List Reply :=
  match s.pc with
  | .printf r _ => [r]
  | _ => []

/-- How often the alarm is set, on its way, or in the pipe. -/
def ticks (x : DgCli × World) : Nat := x.2.alarm.toNat + x.2.pending.toNat + x.1.pipe

/-- What is known at a place: the alarm goes off once while the function waits, and `select` has told the
truth. -/
def Due (x : DgCli × World) : Prop :=
  match x.1.pc with
  | .fgets | .sendto _ | .alarm | .returned => ticks x = 0
  | .select => ticks x = 1
  | .testSock rsock rpipe =>
    ticks x = 1 ∧ (rsock = true → x.2.queue ≠ []) ∧ (rpipe = true → x.1.pipe = 1) ∧
      (rsock = true ∨ rpipe = true)
  | .recvfrom rpipe => ticks x = 1 ∧ x.2.queue ≠ [] ∧ (rpipe = true → x.1.pipe = 1)
  | .printf _ rpipe | .testPipe rpipe => ticks x = 1 ∧ (rpipe = true → x.1.pipe = 1)
  | .read => ticks x = 1 ∧ x.1.pipe = 1

/-- What holds in every state. -/
structure Kept (lines : List (List UInt8)) (x : DgCli × World) : Prop where
  due : Due x
  opened : x.2.blocked = false
  accounted : Accounted lines left held x

variable {lines : List (List UInt8)} {s : DgCli} {w : World} {x y : DgCli × World} {a : Act}

theorem kept_start (lines : List (List UInt8)) : Kept lines (start lines) := ⟨rfl, rfl, rfl, rfl⟩

/-- What is left to do at a place. -/
def Pc.work : Pc → Nat
  | .fgets => 1
  | .sendto _ => 30
  | .alarm => 29
  | .select => 10
  | .testSock _ _ => 9
  | .recvfrom _ => 8
  | .printf _ _ => 27
  | .testPipe false => 26
  | .testPipe true => 7
  | .read => 6
  | .returned => 0

/-- What is left to do but for the replies that will come. -/
def work (x : DgCli × World) : Nat :=
  40 * x.2.lines.length + 20 * x.2.queue.length + 2 * x.2.alarm.toNat + x.2.pending.toNat + x.1.pc.work

/-- A statement. -/
theorem Kept.run (h : Kept lines (s, w)) (hrun : run s w = some y) : Kept lines y ∧ work y < work (s, w) := by
  obtain ⟨pc, pipe⟩ := s
  obtain ⟨hdue, hopen, hsent, hprinted⟩ := h
  unfold Pipe.run at hrun
  cases pc with
  | fgets =>
    cases hl : w.lines with
    | nil =>
      simp only [hl] at hrun
      cases hrun
      refine ⟨⟨hdue, hopen, by simpa [left, hl] using hsent, hprinted⟩, Nat.lt_succ_self _⟩
    | cons sendline rest =>
      simp only [hl] at hrun
      cases hrun
      refine ⟨⟨hdue, hopen, by simpa [left, hl] using hsent, hprinted⟩, ?_⟩
      simp only [work, Pc.work, hl, List.length_cons]
      omega
  | sendto sendline =>
    cases hrun
    exact ⟨⟨hdue, hopen, by simpa [left] using hsent, hprinted⟩, Nat.lt_succ_self _⟩
  | alarm =>
    cases hrun
    have hquiet : w.alarm.toNat + w.pending.toNat + pipe = 0 := hdue
    refine ⟨⟨?_, hopen, hsent, hprinted⟩, ?_⟩
    · change 1 + w.pending.toNat + pipe = 1
      omega
    · simp only [work, Pc.work, Bool.toNat_true]
      omega
  | select =>
    obtain ⟨hready, hrun⟩ := Option.ite_none_left_eq_some.mp hrun
    cases hrun
    have hone : w.alarm.toNat + w.pending.toNat + pipe = 1 := hdue
    refine ⟨⟨⟨hone, fun hq ↦ of_decide_eq_true hq, fun hp ↦ ?_, ?_⟩, hopen, hsent, hprinted⟩,
      Nat.lt_succ_self _⟩
    · have hne : pipe ≠ 0 := of_decide_eq_true hp
      change pipe = 1
      omega
    · simp only [decide_eq_true_eq]
      by_cases hq : w.queue = []
      · exact .inr fun hp ↦ hready ⟨hq, hp⟩
      · exact .inl hq
  | testSock rsock rpipe =>
    obtain ⟨hone, hq, hp, hor⟩ := hdue
    cases rsock with
    | true =>
      cases hrun
      exact ⟨⟨⟨hone, hq rfl, hp⟩, hopen, hsent, hprinted⟩, Nat.lt_succ_self _⟩
    | false =>
      cases hrun
      obtain rfl : rpipe = true := hor.resolve_left Bool.noConfusion
      refine ⟨⟨⟨hone, hp⟩, hopen, hsent, hprinted⟩, ?_⟩
      simp only [work, Pc.work]
      omega
  | recvfrom rpipe =>
    obtain ⟨hone, hne, hp⟩ := hdue
    cases hq : w.queue with
    | nil => exact absurd hq hne
    | cons r queue =>
      simp only [hq] at hrun
      cases hrun
      refine ⟨⟨⟨hone, hp⟩, hopen, hsent, by simpa [held, hq] using hprinted⟩, ?_⟩
      simp only [work, Pc.work, hq, List.length_cons]
      omega
  | printf r rpipe =>
    cases hrun
    refine ⟨⟨hdue, hopen, hsent, by simpa [held] using hprinted⟩, ?_⟩
    cases rpipe <;> simp [work, Pc.work]
  | testPipe rpipe =>
    obtain ⟨hone, hp⟩ := hdue
    cases rpipe with
    | true =>
      cases hrun
      exact ⟨⟨⟨hone, hp rfl⟩, hopen, hsent, hprinted⟩, Nat.lt_succ_self _⟩
    | false =>
      cases hrun
      refine ⟨⟨hone, hopen, hsent, hprinted⟩, ?_⟩
      simp only [work, Pc.work]
      omega
  | read =>
    obtain ⟨-, hrun⟩ := Option.ite_none_left_eq_some.mp hrun
    cases hrun
    obtain ⟨hone, hp⟩ := hdue
    change w.alarm.toNat + w.pending.toNat + pipe = 1 at hone
    change pipe = 1 at hp
    refine ⟨⟨?_, hopen, hsent, hprinted⟩, ?_⟩
    · change w.alarm.toNat + w.pending.toNat + (pipe - 1) = 0
      omega
    · simp only [work, Pc.work]
      omega
  | returned => cases hrun

/-- What is known at a place stays while the function stays there. -/
theorem Due.stays {pipe : Nat} {u : World} (h : Due (s, w)) (hticks : ticks (⟨s.pc, pipe⟩, u) = ticks (s, w))
    (hpipe : s.pipe = 1 → pipe = 1) (hqueue : w.queue ≠ [] → u.queue ≠ []) : Due (⟨s.pc, pipe⟩, u) := by
  obtain ⟨pc, n⟩ := s
  cases pc with
  | testSock rsock rpipe =>
    obtain ⟨hone, hq, hp, hor⟩ := h
    exact ⟨hticks.trans hone, fun hr ↦ hqueue (hq hr), fun hr ↦ hpipe (hp hr), hor⟩
  | recvfrom rpipe =>
    obtain ⟨hone, hq, hp⟩ := h
    exact ⟨hticks.trans hone, hqueue hq, fun hr ↦ hpipe (hp hr)⟩
  | printf r rpipe => exact ⟨hticks.trans h.1, fun hr ↦ hpipe (h.2 hr)⟩
  | testPipe rpipe => exact ⟨hticks.trans h.1, fun hr ↦ hpipe (h.2 hr)⟩
  | read => exact ⟨hticks.trans h.1, hpipe h.2⟩
  | _ => exact hticks.trans h

theorem Due.ticks_le (h : Due x) : ticks x ≤ 1 := by
  obtain ⟨⟨pc, n⟩, w⟩ := x
  cases pc with
  | select => exact (show ticks _ = 1 from h).le
  | testSock rsock rpipe => exact h.1.le
  | recvfrom rpipe => exact h.1.le
  | printf r rpipe => exact h.1.le
  | testPipe rpipe => exact h.1.le
  | read => exact h.1.le
  | _ => exact (show ticks _ = 0 from h).le.trans (Nat.zero_le 1)

theorem Kept.step (h : Kept lines x) (hstep : program.Step x a y) :
    Kept lines y ∧ (a.Own → work y < work x) := by
  obtain ⟨⟨pc, pipe⟩, w⟩ := x
  obtain ⟨hdue, hopen, haccounted⟩ := h
  have hle := hdue.ticks_le
  rcases Program.step_cases hstep with ⟨-, -, hy⟩ | ⟨-, halarm, rfl⟩ | ⟨-, hpending, hy⟩ | ⟨r, rfl, rfl⟩
  · obtain ⟨hk, hlt⟩ := Kept.run ⟨hdue, hopen, haccounted⟩ hy
    exact ⟨hk, fun _ ↦ hlt⟩
  · change w.alarm = true at halarm
    simp only [ticks, halarm, Bool.toNat_true] at hle
    have hpending : w.pending = false := by
      cases hp : w.pending with
      | false => rfl
      | true =>
        simp only [hp, Bool.toNat_true] at hle
        omega
    refine ⟨⟨hdue.stays ?_ id id, hopen, haccounted.sent, haccounted.printed⟩, fun _ ↦ ?_⟩
    · simp [ticks, halarm, hpending]
    · simp [work, halarm, hpending]
  · obtain ⟨-, hy⟩ := Option.ite_none_left_eq_some.mp hy
    cases hy
    change w.pending = true at hpending
    simp only [ticks, hpending, Bool.toNat_true] at hle
    refine ⟨⟨hdue.stays ?_ (fun hone ↦ ?_) id, hopen, haccounted.sent, haccounted.printed⟩, fun _ ↦ ?_⟩
    · simp only [ticks, hpending, Bool.toNat_true, Bool.toNat_false]
      omega
    · change pipe = 1 at hone
      omega
    · simp [work, hpending]
  · refine ⟨⟨hdue.stays rfl id fun _ ↦ ?_, hopen, haccounted.reply r⟩, fun hown ↦ absurd rfl (hown r)⟩
    exact List.append_ne_nil_of_right_ne_nil _ (List.cons_ne_nil r [])

theorem kept_of_run (h : Run program.Step (start lines) x) : Kept lines x :=
  h.preserves (fun _ _ _ hk _ hstep ↦ (hk.step hstep).1) (kept_start lines)

/-- Before it returns the function can go on. -/
theorem goes_on (h : Kept lines x) (hreturned : x.1.pc ≠ .returned) :
    ∃ a y, a.Own ∧ program.Step x a y := by
  obtain ⟨⟨pc, pipe⟩, w⟩ := x
  obtain ⟨hdue, hopen, -⟩ := h
  -- A signal that is pending is taken.
  have hdeliver (hpending : w.pending = true) : ∃ a y, a.Own ∧ program.Step (⟨pc, pipe⟩, w) a y := by
    have hhandle : handle ⟨pc, pipe⟩ { w with pending := false } =
        some (⟨pc, pipe + 1⟩, { w with pending := false }) := if_neg (by simpa using hopen)
    exact ⟨.deliver, _, fun _ ↦ Act.noConfusion, Program.step_deliver hpending hhandle⟩
  have hstep {y : DgCli × World} (hy : run ⟨pc, pipe⟩ w = some y) :
      ∃ a y, a.Own ∧ program.Step (⟨pc, pipe⟩, w) a y := by
    cases hp : w.pending with
    | true => exact hdeliver hp
    | false =>
      refine ⟨.run, y, fun _ ↦ Act.noConfusion, Program.step_run (.inr ?_) hy⟩
      rw [World.due, hp, Bool.false_and]
  cases pc with
  | fgets =>
    cases hl : w.lines with
    | nil => exact hstep (y := (⟨.returned, pipe⟩, w)) (by simp only [run, hl])
    | cons sendline rest =>
      exact hstep (y := (⟨.sendto sendline, pipe⟩, { w with lines := rest })) (by simp only [run, hl])
  | sendto sendline => exact hstep rfl
  | alarm => exact hstep rfl
  | select =>
    cases ha : w.alarm with
    | true => exact ⟨.expire, _, fun _ ↦ Act.noConfusion, Program.step_expire ha⟩
    | false =>
      cases hp : w.pending with
      | true => exact hdeliver hp
      | false =>
        have hone : w.alarm.toNat + w.pending.toNat + pipe = 1 := hdue
        rw [ha, hp] at hone
        refine hstep (if_neg ?_)
        rintro ⟨-, hzero⟩
        change pipe = 0 at hzero
        rw [hzero] at hone
        cases hone
  | testSock rsock rpipe => cases rsock <;> exact hstep rfl
  | recvfrom rpipe =>
    cases hq : w.queue with
    | nil => exact absurd hq hdue.2.1
    | cons r queue =>
      exact hstep (y := (⟨.printf r rpipe, pipe⟩, { w with queue })) (by simp only [run, hq])
  | printf r rpipe => exact hstep rfl
  | testPipe rpipe => cases rpipe <;> exact hstep rfl
  | read =>
    have hone : pipe = 1 := hdue.2
    refine hstep (if_neg ?_)
    change pipe ≠ 0
    omega
  | returned => exact absurd rfl hreturned

/-- `dg_cli` of `src/bcast/dgclibcast6.c`. Without replies no run goes on forever, and where there is no step left
the function has returned. Between two lines the pipe is empty and no alarm is on its way; no reply is lost or
printed twice. -/
theorem dg_cli_ends (h : Run program.Step (start lines) x) :
    (∀ a y, a.Own → program.Step x a y → work y < work x) ∧
      ((∀ a y, a.Own → ¬ program.Step x a y) → x.1.pc = .returned ∧ x.2.sent = lines.map cstring) ∧
      (x.1.pc = .fgets → x.1.pipe = 0 ∧ x.2.alarm = false ∧ x.2.pending = false) ∧
      Accounted lines left held x := by
  have hk := kept_of_run h
  refine ⟨fun a y hown hstep ↦ (hk.step hstep).2 hown, fun hstuck ↦ ?_, fun hfgets ↦ ?_, hk.accounted⟩
  · have hreturned : x.1.pc = .returned := by
      by_contra hreturned
      obtain ⟨a, y, hown, hstep⟩ := goes_on hk hreturned
      exact hstuck a y hown hstep
    refine ⟨hreturned, ?_⟩
    simpa [left, hreturned] using hk.accounted.sent
  · have hdue := hk.due
    simp only [Due, hfgets, ticks] at hdue
    have halarm : x.2.alarm.toNat = 0 := by omega
    have hpending : x.2.pending.toNat = 0 := by omega
    exact ⟨by omega, Bool.toNat_eq_zero.mp halarm, Bool.toNat_eq_zero.mp hpending⟩

/-- A line is sent, and the alarm goes off with no reply. -/
theorem dg_cli_ends_quiet : ∃ x : DgCli × World, x.1.pc = .returned ∧ x.2.sent = [[65, 10]].map cstring := by
  let acts : List Act := [.run, .run, .run, .expire, .deliver, .run, .run, .run, .run, .run]
  have hplay : playActs program.step (start [[65, 10]]) acts =
      some (⟨.returned, 0⟩, ⟨[], [[65, 10]], [], [], [], false, false, false⟩) := by decide
  refine ⟨_, (dg_cli_ends (run_of_playActs hplay)).2.1 fun a y hown hstep ↦ ?_⟩
  cases a with
  | reply r => exact hown r rfl
  | _ => cases hstep

end Unpv13e.Bcast.Pipe
