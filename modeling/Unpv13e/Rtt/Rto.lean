import Unpv13e.Rtt.DgSendRecv

/-!
# The retransmission timeout

Library `Rtt`. The estimators of `src/lib/rtt.c` over exact fractions, beside the steps of `dg_send_recv` that
use them. `rtt_minmax` keeps a computed timeout in the limits; `rtt_timeout` doubles it without.
-/

namespace Unpv13e.Rtt
open Unpv13e.Base

/-- `RTT_RXTMIN`, `src/lib/unprtt.h:15` -/
def rttRxtMin : ℚ := 2

/-- `RTT_RXTMAX`, `src/lib/unprtt.h:16` -/
def rttRxtMax : ℚ := 60

/-- `RTT_RTOCALC`, `src/lib/rtt.c:10` -/
def rtoCalc (srtt rttvar : ℚ) : ℚ := srtt + 4 * rttvar

/-- `src/lib/rtt.c:12–20` -/
def rtt_minmax (rto : ℚ) : ℚ :=
  if rto < rttRxtMin then rttRxtMin else if rttRxtMax < rto then rttRxtMax else rto

/-- The conversion of a `float` to `int`, toward zero. -/
def toInt (x : ℚ) : Int := x.num.tdiv x.den

/-- `struct rtt_info` without `rtt_nrexmt` and `rtt_base`, which the connection has. -/
structure RttInfo where
  rtt_rtt : ℚ
  rtt_srtt : ℚ
  rtt_rttvar : ℚ
  rtt_rto : ℚ
  deriving DecidableEq, Repr

namespace RttInfo

/-- What `rtt_init` sets, `src/lib/rtt.c:30–33`. -/
def rtt_init : RttInfo := ⟨0, 0, 3 / 4, rtt_minmax (rtoCalc 0 (3 / 4))⟩

/-- `src/lib/rtt.c:62–67` -/
def rtt_start (ptr : RttInfo) : Int := toInt (ptr.rtt_rto + 1 / 2)

/-- `src/lib/rtt.c:80–102` -/
def rtt_stop (ptr : RttInfo) (ms : UInt32) : RttInfo :=
  let rtt : ℚ := ms.toNat / 1000
  let delta := rtt - ptr.rtt_srtt
  let srtt := ptr.rtt_srtt + delta / 8
  let delta := if delta < 0 then -delta else delta
  let rttvar := ptr.rtt_rttvar + (delta - ptr.rtt_rttvar) / 4
  ⟨rtt, srtt, rttvar, rtt_minmax (rtoCalc srtt rttvar)⟩

/-- `src/lib/rtt.c:114` -/
def rtt_timeout (ptr : RttInfo) : RttInfo := { ptr with rtt_rto := ptr.rtt_rto * 2 }

/-- The limits: of the timeout, of the argument of `alarm`, and of the estimators. -/
structure InLimits (ptr : RttInfo) : Prop where
  min : rttRxtMin ≤ ptr.rtt_rto
  max : ptr.rtt_rto ≤ rttRxtMax
  alarm : 0 < ptr.rtt_start ∧ (ptr.rtt_start : ℚ) ≤ rttRxtMax
  srtt : 0 ≤ ptr.rtt_srtt
  rttvar : 0 ≤ ptr.rtt_rttvar

/-! ### One call of each function -/

private theorem minmax_limits (rto : ℚ) : rttRxtMin ≤ rtt_minmax rto ∧ rtt_minmax rto ≤ rttRxtMax := by
  have hlim : rttRxtMin ≤ rttRxtMax := by
    unfold rttRxtMin rttRxtMax
    norm_num
  unfold rtt_minmax
  split
  · exact ⟨le_refl _, hlim⟩
  · next hmin =>
    split
    · exact ⟨hlim, le_refl _⟩
    · next hmax => exact ⟨not_lt.mp hmin, not_lt.mp hmax⟩

private theorem toInt_eq_floor {x : ℚ} (hx : 0 ≤ x) : toInt x = ⌊x⌋ := by
  unfold toInt
  rw [Int.tdiv_eq_ediv_of_nonneg (Rat.num_nonneg.mpr hx)]
  exact Rat.floor_def'.symm

/-- The argument of `alarm` is in the limits with the timeout. -/
private theorem start_limits {ptr : RttInfo} (hmin : rttRxtMin ≤ ptr.rtt_rto) (hmax : ptr.rtt_rto ≤ rttRxtMax) :
    0 < ptr.rtt_start ∧ (ptr.rtt_start : ℚ) ≤ rttRxtMax := by
  unfold rttRxtMin at hmin
  unfold rttRxtMax at hmax ⊢
  have hstart : ptr.rtt_start = ⌊ptr.rtt_rto + 1 / 2⌋ := toInt_eq_floor (by linarith)
  rw [hstart]
  constructor
  · apply Int.floor_pos.mpr
    linarith
  · have hlt : ⌊ptr.rtt_rto + 1 / 2⌋ < 61 := Int.floor_lt.mpr (by push_cast; linarith)
    exact_mod_cast Int.lt_add_one_iff.mp hlt

private theorem inLimits {ptr : RttInfo} (hmin : rttRxtMin ≤ ptr.rtt_rto) (hmax : ptr.rtt_rto ≤ rttRxtMax)
    (hsrtt : 0 ≤ ptr.rtt_srtt) (hrttvar : 0 ≤ ptr.rtt_rttvar) : ptr.InLimits :=
  ⟨hmin, hmax, start_limits hmin hmax, hsrtt, hrttvar⟩

theorem inLimits_init : rtt_init.InLimits := by
  obtain ⟨hmin, hmax⟩ := minmax_limits (rtoCalc 0 (3 / 4))
  refine inLimits hmin hmax (le_refl _) ?_
  change (0 : ℚ) ≤ 3 / 4
  norm_num

/-- A sample keeps the estimators from being negative, and the timeout computed from them is clamped. -/
theorem inLimits_stop {ptr : RttInfo} (ms : UInt32) (hsrtt : 0 ≤ ptr.rtt_srtt) (hrttvar : 0 ≤ ptr.rtt_rttvar) :
    (ptr.rtt_stop ms).InLimits := by
  have hrtt : (0 : ℚ) ≤ ms.toNat / 1000 := by positivity
  obtain ⟨hmin, hmax⟩ := minmax_limits (rtoCalc (ptr.rtt_stop ms).rtt_srtt (ptr.rtt_stop ms).rtt_rttvar)
  refine inLimits hmin hmax ?_ ?_
  · change 0 ≤ ptr.rtt_srtt + ((ms.toNat : ℚ) / 1000 - ptr.rtt_srtt) / 8
    linarith
  · change 0 ≤ ptr.rtt_rttvar + ((if (ms.toNat : ℚ) / 1000 - ptr.rtt_srtt < 0
      then -((ms.toNat : ℚ) / 1000 - ptr.rtt_srtt) else (ms.toNat : ℚ) / 1000 - ptr.rtt_srtt) -
        ptr.rtt_rttvar) / 4
    split
    · next hneg => linarith
    · next hpos => linarith

/-- A doubled timeout is in the limits when it was at most half of the upper one. -/
theorem inLimits_timeout {ptr : RttInfo} (h : ptr.InLimits) :
    ptr.rtt_timeout.InLimits ↔ ptr.rtt_rto ≤ rttRxtMax / 2 := by
  constructor
  · intro ht
    have hmax : ptr.rtt_rto * 2 ≤ rttRxtMax := ht.max
    linarith
  · intro hle
    have hmin := h.min
    have hpos : (0 : ℚ) ≤ rttRxtMin := by
      unfold rttRxtMin
      norm_num
    refine inLimits ?_ ?_ h.srtt h.rttvar
    · change rttRxtMin ≤ ptr.rtt_rto * 2
      linarith
    · change ptr.rtt_rto * 2 ≤ rttRxtMax
      linarith

end RttInfo

/-! ### Calls of `dg_send_recv` -/

/-- A connection with the estimators in `rttinfo`. -/
structure Timed where
  conn : Conn
  rttinfo : RttInfo

namespace Timed
open Conn (Act)

/-- Before the first call; `rttinfo` is zero. -/
def start : Timed := ⟨Conn.start, ⟨0, 0, 0, 0⟩⟩

/-- What a step does to `rttinfo`: lines 26, 69 and 93 of `src/rtt/dg_send_recv.c`. -/
def estimate (s : Timed) : Act → RttInfo
  | .call _ _ _ => if s.conn.rttinit then s.rttinfo else RttInfo.rtt_init
  | .alarm => s.rttinfo.rtt_timeout
  | .finish now => s.rttinfo.rtt_stop (rtt_ts s.conn.rtt_base now - s.conn.recvhdr.ts)
  | _ => s.rttinfo

/-- The next step. -/
def step (s : Timed) (a : Act) : Except Stop Timed :=
  (s.conn.step a).map fun conn ↦ ⟨conn, s.estimate a⟩

/-- The step as a relation. -/
def Step (s : Timed) (a : Act) (t : Timed) : Prop := s.step a = .ok t

variable {s t : Timed} {a : Act} {acts : List Act}

/-- A step is a step of the connection. -/
theorem step_cases (h : s.step a = .ok t) : s.conn.step a = .ok t.conn ∧ t.rttinfo = s.estimate a := by
  unfold step at h
  cases hc : s.conn.step a with
  | error e =>
    rw [hc] at h
    cases h
  | ok conn =>
    rw [hc] at h
    cases h
    exact ⟨rfl, rfl⟩

/-- A run is a run of the connection. -/
theorem run_conn (h : Run Step s t) : Run Conn.Step s.conn t.conn := by
  induction h with
  | refl => exact RunWith.refl
  | tail _ hab ih =>
    obtain ⟨a, ha, hs⟩ := hab
    exact ih.snoc ha (step_cases hs).1

/-! ### The limits along a run -/

/-- SIGALRM comes during a call. -/
private theorem alarm_of_step {s t : Conn} (h : s.step .alarm = .ok t) : s.pc ≠ .idle ∧ t = s.timeout := by
  have hjump : (if s.jmpbuf then .ok s.timeout else .error .indeterminate : Except Stop Conn) = .ok t →
      t = s.timeout := by
    intro hj
    split at hj
    · exact (Except.ok.inj hj).symm
    · cases hj
  unfold Conn.step at h
  dsimp only at h
  split at h
  · next hpc => exact ⟨by rw [hpc]; decide, hjump h⟩
  · next hpc => exact ⟨by rw [hpc]; decide, hjump h⟩
  · next hpc => exact ⟨by rw [hpc]; exact nofun, hjump h⟩
  · cases h

private theorem timeout_calls (s : Conn) : s.timeout.calls = s.calls ∧
    (s.timeout.rttinit = true → s.rttinit = true) := by
  unfold Conn.timeout
  split
  · exact ⟨rfl, fun h ↦ absurd h Bool.false_ne_true⟩
  · exact ⟨rfl, id⟩

/-- Only a call is counted, and sets `rttinit`. -/
private theorem calls_of_step {s t : Conn} (h : s.step a = .ok t) :
    (0 < t.calls ∧ ∃ outbuff inbytes now, a = .call outbuff inbytes now) ∨
      ((∀ outbuff inbytes now, a ≠ .call outbuff inbytes now) ∧ t.calls = s.calls ∧
        (t.rttinit = true → s.rttinit = true)) := by
  cases a with
  | call outbuff inbytes now =>
    unfold Conn.step at h
    dsimp only at h
    split at h
    · cases h
      exact .inl ⟨Nat.succ_pos s.calls, outbuff, inbytes, now, rfl⟩
    · cases h
  | alarm =>
    obtain ⟨-, rfl⟩ := alarm_of_step h
    exact .inr ⟨nofun, timeout_calls s⟩
  | _ =>
    -- the others leave the two variables as they are
    unfold Conn.step at h
    dsimp only at h
    split at h
    · cases h
      exact .inr ⟨nofun, rfl, id⟩
    · cases h

private theorem called_step {s t : Conn} (hc : s.rttinit = true → 0 < s.calls) (h : s.step a = .ok t)
    (hset : t.rttinit = true) : 0 < t.calls := by
  rcases calls_of_step h with ⟨hcalls, -⟩ | ⟨-, hcalls, hinit⟩
  · exact hcalls
  · rw [hcalls]
    exact hc (hinit hset)

/-- `rttinit` is set by a call. -/
private theorem called_of_run (h : Run Step start s) : s.conn.rttinit = true → 0 < s.conn.calls := by
  have hstart : start.conn.rttinit = true → 0 < start.conn.calls := fun h ↦ absurd h Bool.false_ne_true
  have hstep : ∀ (s : Timed) a t, (s.conn.rttinit = true → 0 < s.conn.calls) → True → Step s a t →
      t.conn.rttinit = true → 0 < t.conn.calls := fun s a t hc _ hs ↦ called_step hc (step_cases hs).1
  exact RunWith.preserves hstep h hstart

/-- A timeout that finds at most half of the upper limit keeps the limits, and so does every other step. -/
private theorem limits_step (hset : s.conn.rttinit = true → 0 < s.conn.calls)
    (hlim : 0 < s.conn.calls → s.rttinfo.InLimits) (h : s.step a = .ok t)
    (hle : a = .alarm → s.rttinfo.rtt_rto ≤ rttRxtMax / 2) (hcalls : 0 < t.conn.calls) :
    t.rttinfo.InLimits := by
  obtain ⟨hconn, hinfo⟩ := step_cases h
  rw [hinfo]
  rcases calls_of_step hconn with ⟨-, outbuff, inbytes, now, rfl⟩ | ⟨hcall, heq, -⟩
  · change (if s.conn.rttinit then s.rttinfo else RttInfo.rtt_init).InLimits
    split
    · next hs => exact hlim (hset hs)
    · exact RttInfo.inLimits_init
  · rw [heq] at hcalls
    have hbefore := hlim hcalls
    cases a with
    | call outbuff inbytes now => exact absurd rfl (hcall outbuff inbytes now)
    | alarm => exact (RttInfo.inLimits_timeout hbefore).mpr (hle rfl)
    | finish now => exact RttInfo.inLimits_stop _ hbefore.srtt hbefore.rttvar
    | _ => exact hbefore

/-- Along a run the timeout stays in its limits exactly when no timeout is taken with more than half of the
upper one. -/
theorem rto_limits :
    (∀ acts' s, acts' <+: acts → runActs step start acts' = .ok s → 0 < s.conn.calls → s.rttinfo.InLimits) ↔
      ∀ acts' s t, acts' ++ [.alarm] <+: acts → runActs step start acts' = .ok s → s.step .alarm = .ok t →
        s.rttinfo.rtt_rto ≤ rttRxtMax / 2 := by
  constructor
  · intro hlim acts' s t hpre hs ht
    obtain ⟨hconn, hinfo⟩ := step_cases ht
    -- the alarm comes during a call, so there has been one
    have hpc := (alarm_of_step hconn).1
    have hrun : Run Step start s := run_of_runActs _ _ _ _ hs
    have hcalls := called_of_run hrun ((Conn.kept_of_run (run_conn hrun)).current hpc).1
    have hbefore := hlim acts' s ((List.prefix_append _ _).trans hpre) hs hcalls
    have hafter : t.rttinfo.InLimits := by
      refine hlim _ t hpre (runActs_concat hs ht) ?_
      rw [(alarm_of_step hconn).2, (timeout_calls s.conn).1]
      exact hcalls
    rw [hinfo] at hafter
    exact (RttInfo.inLimits_timeout hbefore).mp hafter
  · intro hle acts'
    induction acts' using List.reverseRecOn with
    | nil =>
      intro s _ hs hcalls
      cases hs
      exact absurd hcalls (Nat.lt_irrefl 0)
    | append_singleton acts' a ih =>
      intro s hpre hs hcalls
      obtain ⟨m, hm, hlast⟩ := exists_of_runActs_concat hs
      have hset := called_of_run (run_of_runActs _ _ _ _ hm)
      refine limits_step hset (ih m ((List.prefix_append _ _).trans hpre) hm) hlast ?_ hcalls
      rintro rfl
      exact hle acts' m s hpre hm hlast

/-- The reply to the first transmission of a request comes after eight seconds, during the third. The next
request is not answered. -/
private def lateReply : List Act :=
  [.call [1] 1 ⟨100, 0⟩, .send ⟨100, 0⟩, .setjmp, .serve ⟨1, ⟨100, 0⟩, ⟨1, 0⟩, [1]⟩ [7],
    .alarm, .send ⟨103, 0⟩, .setjmp, .recv ⟨⟨1, ⟨100, 0⟩, ⟨1, 0⟩, [1]⟩, [7]⟩, .stop, .finish ⟨108, 0⟩,
    .call [2] 1 ⟨108, 0⟩, .send ⟨108, 0⟩, .setjmp, .alarm, .send ⟨119, 0⟩, .setjmp, .alarm, .send ⟨142, 0⟩,
    .setjmp, .alarm]

/-- Its third transmission has a timeout of 90 seconds. -/
theorem rto_above_maximum : ∃ s, runActs step start lateReply = .ok s ∧ s.conn.pc = .send ∧
    s.rttinfo.rtt_rto = 90 ∧ s.rttinfo.rtt_start = 90 ∧ ¬ s.rttinfo.InLimits := by
  have hend : (Except.ok start >>= fun s ↦ runActs step s lateReply).toOption.map (fun s ↦ decide
      (s.conn.pc = .send ∧ s.rttinfo.rtt_rto = 90 ∧ s.rttinfo.rtt_start = 90)) = some true := by decide +kernel
  obtain ⟨s₀, s, hstart, hs, htest⟩ := exists_of_runActs hend
  cases hstart
  obtain ⟨hpc, hrto, halarm⟩ := of_decide_eq_true htest
  refine ⟨s, hs, hpc, hrto, halarm, fun h ↦ ?_⟩
  have hmax := h.max
  rw [hrto] at hmax
  exact absurd hmax (by decide +kernel)

end Timed
end Unpv13e.Rtt
