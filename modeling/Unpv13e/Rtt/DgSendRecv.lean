import Unpv13e.Base.Runs
import Unpv13e.Base.Text

/-!
# Requests with retransmission

Library `Rtt`. `dg_send_recv` of `src/rtt/dg_send_recv.c` with what it uses of `src/lib/rtt.c`, a
server that echoes the header of a request, and a network between them. The network keeps every
datagram it was given and may deliver any of them at any time, any number of times or never. The timer
may expire whenever it runs; the estimators that set it are added in `Rtt.Rto`. Failing calls end the
program; it takes no step then.
-/

namespace Unpv13e.Rtt
open Unpv13e.Base

/-- `struct timeval` -/
structure Timeval where
  tv_sec : Nat
  tv_usec : Nat
  deriving DecidableEq

/-- `struct hdr` -/
structure Hdr where
  seq : UInt32
  ts : UInt32
  deriving DecidableEq

/-- `sizeof(struct hdr)` -/
def sizeofHdr : Nat := 8

/-- `RTT_MAXNREXMT` -/
def rttMaxNRexmt : Nat := 3

/-- `rtt_base` as `rtt_init` sets it, `src/lib/rtt.c:22–35` -/
def rtt_init (tv : Timeval) : UInt32 := UInt32.ofNat tv.tv_sec

/-- `src/lib/rtt.c:45–54` -/
def rtt_ts (rtt_base : UInt32) (tv : Timeval) : UInt32 :=
  UInt32.ofInt (((tv.tv_sec : Int) - rtt_base.toNat) * 1000 + tv.tv_usec / 1000)

/-- A transmission of a request: the number of the call, its time, and the datagram. -/
structure Request where
  call : Nat
  sent : Timeval
  hdr : Hdr
  data : List UInt8
  deriving DecidableEq

/-- A reply to a transmission: the datagram is its header and these data. -/
structure Reply where
  request : Request
  data : List UInt8
  deriving DecidableEq

/-- What a call returns, with the argument of `rtt_stop`; and when, and with which base. -/
structure Return where
  call : Nat
  inbytes : Nat
  n : Nat
  inbuff : List UInt8
  ms : UInt32
  now : Timeval
  rtt_base : UInt32

/-- Where the program is. -/
inductive Pc
  /-- not in `dg_send_recv` -/
  | idle
  /-- `sendagain` -/
  | send
  /-- the timer runs, `sigsetjmp` comes next -/
  | setjmp
  /-- `Recvmsg` -/
  | recv
  /-- the loop has ended with this length -/
  | received (n : Nat)
  /-- the timer has been stopped -/
  | stopped (n : Nat)
  deriving DecidableEq

/-- The static variables, the call's arguments, the server and the network. -/
structure Conn where
  rttinit : Bool
  rtt_base : UInt32
  rtt_nrexmt : Nat
  sendhdr : Hdr
  recvhdr : Hdr
  outbuff : List UInt8
  inbytes : Nat
  inbuff : List UInt8
  pc : Pc
  /-- `jmpbuf` has been filled by this call -/
  jmpbuf : Bool
  /-- transmissions given to the network -/
  requests : List Request
  /-- replies given to the network -/
  replies : List Reply
  /-- calls so far, not a variable of the code -/
  calls : Nat
  /-- the calls that returned data, not a variable of the code -/
  returned : List Return

namespace Conn

/-- What happens next. -/
inductive Act
  /-- `dg_send_recv` is called at this time -/
  | call (outbuff : List UInt8) (inbytes : Nat) (now : Timeval)
  | send (now : Timeval)
  | setjmp
  /-- SIGALRM -/
  | alarm
  /-- the network delivers a reply -/
  | recv (r : Reply)
  /-- `alarm(0)` -/
  | stop
  | finish (now : Timeval)
  /-- the server answers a request -/
  | serve (q : Request) (data : List UInt8)

/-- Before the first call. -/
def start : Conn where
  rttinit := false
  rtt_base := 0
  rtt_nrexmt := 0
  sendhdr := ⟨0, 0⟩
  recvhdr := ⟨0, 0⟩
  outbuff := []
  inbytes := 0
  inbuff := []
  pc := .idle
  jmpbuf := false
  requests := []
  replies := []
  calls := 0
  returned := []

/-- `src/rtt/dg_send_recv.c:22–54` -/
def call (s : Conn) (outbuff : List UInt8) (inbytes : Nat) (now : Timeval) : Conn :=
  { s with
    rtt_base := if s.rttinit then s.rtt_base else rtt_init now
    rttinit := true
    sendhdr := { s.sendhdr with seq := s.sendhdr.seq + 1 }
    outbuff := outbuff
    inbytes := inbytes
    rtt_nrexmt := 0
    pc := .send
    jmpbuf := false
    calls := s.calls + 1 }

/-- `src/rtt/dg_send_recv.c:56–63` -/
def send (s : Conn) (now : Timeval) : Conn :=
  let hdr : Hdr := { s.sendhdr with ts := rtt_ts s.rtt_base now }
  { s with
    sendhdr := hdr
    requests := s.requests ++ [⟨s.calls, now, hdr, s.outbuff⟩]
    pc := .setjmp }

/-- After a jump, `src/rtt/dg_send_recv.c:69–80`, with `rtt_timeout`. -/
def timeout (s : Conn) : Conn :=
  if s.rtt_nrexmt + 1 > rttMaxNRexmt then
    { s with rtt_nrexmt := s.rtt_nrexmt + 1, rttinit := false, pc := .idle }
  else { s with rtt_nrexmt := s.rtt_nrexmt + 1, pc := .send }

/-- `Recvmsg` into the header and the buffer, `src/rtt/dg_send_recv.c:82–87`. -/
def recv (s : Conn) (r : Reply) : Conn :=
  let n := min (sizeofHdr + r.data.length) (sizeofHdr + s.inbytes)
  { s with
    recvhdr := r.request.hdr
    inbuff := r.data.take s.inbytes
    pc := if n < sizeofHdr ∨ r.request.hdr.seq ≠ s.sendhdr.seq then .recv else .received n }

/-- `src/rtt/dg_send_recv.c:91–93` -/
def finish (s : Conn) (n : Nat) (now : Timeval) : Conn :=
  { s with
    returned := s.returned ++ [⟨s.calls, s.inbytes, n - sizeofHdr, s.inbuff,
      rtt_ts s.rtt_base now - s.recvhdr.ts, now, s.rtt_base⟩]
    pc := .idle }

/-- The next step. SIGALRM before this call has filled `jmpbuf` is undefined. -/
def step (s : Conn) : Act → Except Stop Conn
  | .call outbuff inbytes now =>
    if s.pc = .idle then .ok (s.call outbuff inbytes now) else .error .blocked
  | .send now => if s.pc = .send then .ok (s.send now) else .error .blocked
  | .setjmp => if s.pc = .setjmp then .ok { s with jmpbuf := true, pc := .recv } else .error .blocked
  | .alarm =>
    match s.pc with
    | .setjmp | .recv | .received _ => if s.jmpbuf then .ok s.timeout else .error .indeterminate
    | _ => .error .blocked
  | .recv r => if s.pc = .recv ∧ r ∈ s.replies then .ok (s.recv r) else .error .blocked
  | .stop =>
    match s.pc with
    | .received n => .ok { s with pc := .stopped n }
    | _ => .error .blocked
  | .finish now =>
    match s.pc with
    | .stopped n => .ok (s.finish n now)
    | _ => .error .blocked
  | .serve q data =>
    if q ∈ s.requests then .ok { s with replies := s.replies ++ [⟨q, data⟩] } else .error .blocked

/-- The step as a relation. -/
def Step (s : Conn) (a : Act) (t : Conn) : Prop := s.step a = .ok t

end Conn

/-- Milliseconds. -/
def millis (tv : Timeval) : Int := tv.tv_sec * 1000 + tv.tv_usec / 1000

private theorem ofInt_sub (x y : Int) : UInt32.ofInt x - UInt32.ofInt y = UInt32.ofInt (x - y) := by
  rw [sub_eq_add_neg x y, UInt32.ofInt_add, UInt32.ofInt_neg, UInt32.sub_eq_add_neg]

/-- The base cancels in the difference of two timestamps. -/
theorem rtt_ts_sub (rtt_base : UInt32) (tv tv' : Timeval) :
    rtt_ts rtt_base tv - rtt_ts rtt_base tv' = UInt32.ofInt (millis tv - millis tv') := by
  unfold rtt_ts millis
  rw [ofInt_sub]
  congr 1
  ring

/-- Fewer than 2^32 calls have different sequence numbers. -/
theorem call_of_seq {m n : Nat} (hm : m < 2 ^ 32) (hn : n < 2 ^ 32)
    (h : UInt32.ofNat m = UInt32.ofNat n) : m = n := by
  have := congrArg UInt32.toNat h
  rwa [UInt32.toNat_ofNat', UInt32.toNat_ofNat', Nat.mod_eq_of_lt hm, Nat.mod_eq_of_lt hn] at this

namespace Conn

/-! ### Requests and replies -/

/-- A reply in the buffers: with its header, its length and its data as far as there was room. -/
structure Holds (s : Conn) (n : Nat) (r : Reply) : Prop where
  reply : r ∈ s.replies
  seq : r.request.hdr.seq = s.sendhdr.seq
  ts : s.recvhdr.ts = r.request.hdr.ts
  length : n = min (sizeofHdr + r.data.length) (sizeofHdr + s.inbytes)
  data : s.inbuff = r.data.take s.inbytes

/-- What a call returned belongs to a reply to a transmission of this call, and the argument of
`rtt_stop` is the time since this transmission. -/
def Matches (ret : Return) (r : Reply) : Prop :=
  r.request.call = ret.call ∧ ret.n = min r.data.length ret.inbytes ∧
    ret.inbuff = r.data.take ret.inbytes ∧
    r.request.hdr.ts = rtt_ts ret.rtt_base r.request.sent ∧
    ret.ms = rtt_ts ret.rtt_base ret.now - rtt_ts ret.rtt_base r.request.sent

/-- What holds in every reachable state with fewer than 2^32 calls. -/
structure Kept (s : Conn) : Prop where
  seq : s.sendhdr.seq = UInt32.ofNat s.calls
  request : ∀ q ∈ s.requests, q.hdr.seq = UInt32.ofNat q.call ∧ q.call ≤ s.calls
  current : s.pc ≠ .idle → s.rttinit = true ∧
    ∀ q ∈ s.requests, q.call = s.calls → q.hdr.ts = rtt_ts s.rtt_base q.sent
  reply : ∀ r ∈ s.replies, r.request ∈ s.requests
  received : ∀ n, s.pc = .received n ∨ s.pc = .stopped n → ∃ r, Holds s n r
  returned : s.calls < 2 ^ 32 → ∀ ret ∈ s.returned, ∃ r ∈ s.replies, Matches ret r

theorem kept_start : Kept start where
  seq := rfl
  request := fun q hq ↦ absurd hq List.not_mem_nil
  current := fun h ↦ absurd rfl h
  reply := fun r hr ↦ absurd hr List.not_mem_nil
  received := fun n h ↦ by rcases h with h | h <;> cases h
  returned := fun _ ret hret ↦ absurd hret List.not_mem_nil

variable {s t : Conn}

/-- A new call has a sequence number of its own and has sent nothing yet. -/
theorem Kept.call (hk : Kept s) (outbuff : List UInt8) (inbytes : Nat) (now : Timeval) :
    Kept (s.call outbuff inbytes now) where
  seq := by
    change s.sendhdr.seq + 1 = UInt32.ofNat (s.calls + 1)
    rw [hk.seq, UInt32.ofNat_add]
    rfl
  request := fun q hq ↦ ⟨(hk.request q hq).1, (hk.request q hq).2.trans (Nat.le_succ _)⟩
  current := fun _ ↦ by
    refine ⟨rfl, fun q hq hcall ↦ ?_⟩
    have hle := (hk.request q hq).2
    change q.call = s.calls + 1 at hcall
    omega
  reply := hk.reply
  received := fun n h ↦ by rcases h with h | h <;> cases h
  returned := fun hlt ↦ hk.returned ((Nat.lt_succ_self _).trans hlt)

/-- A transmission gets the present time. -/
theorem Kept.send (hk : Kept s) (hpc : s.pc = .send) (now : Timeval) : Kept (s.send now) where
  seq := hk.seq
  request := fun q hq ↦ by
    rcases List.mem_append.mp hq with hq | hq
    · exact hk.request q hq
    · rw [List.mem_singleton.mp hq]
      exact ⟨hk.seq, le_refl _⟩
  current := fun _ ↦ by
    have hcur := hk.current (by rw [hpc]; decide)
    refine ⟨hcur.1, fun q hq hcall ↦ ?_⟩
    rcases List.mem_append.mp hq with hq | hq
    · exact hcur.2 q hq hcall
    · rw [List.mem_singleton.mp hq]
      rfl
  reply := fun r hr ↦ List.mem_append_left _ (hk.reply r hr)
  received := fun n h ↦ by rcases h with h | h <;> cases h
  returned := hk.returned

/-- Nothing is held and the call goes on or has ended. -/
private theorem kept_of_pc (hk : Kept s) (hpc : s.pc ≠ .idle) {pc : Pc} (nrexmt : Nat)
    (rttinit jmpbuf : Bool) (hinit : pc ≠ .idle → rttinit = s.rttinit)
    (hnone : ∀ n, pc ≠ .received n ∧ pc ≠ .stopped n) :
    Kept { s with rtt_nrexmt := nrexmt, rttinit := rttinit, jmpbuf := jmpbuf, pc := pc } where
  seq := hk.seq
  request := hk.request
  current := fun h ↦ ⟨(hinit h).trans (hk.current hpc).1, (hk.current hpc).2⟩
  reply := hk.reply
  received := fun n h ↦ by
    rcases h with h | h
    · exact absurd h (hnone n).1
    · exact absurd h (hnone n).2
  returned := hk.returned

/-- A timeout ends the call or has the request sent again. -/
theorem Kept.timeout (hk : Kept s) (hpc : s.pc ≠ .idle) : Kept s.timeout := by
  unfold Conn.timeout
  split
  · exact kept_of_pc hk hpc _ false s.jmpbuf (fun h ↦ absurd rfl h) fun n ↦ by simp
  · exact kept_of_pc hk hpc _ s.rttinit s.jmpbuf (fun _ ↦ rfl) fun n ↦ by simp

/-- A reply is received. -/
theorem Kept.recv (hk : Kept s) (hpc : s.pc = .recv) {r : Reply} (hr : r ∈ s.replies) :
    Kept (s.recv r) := by
  have hcur := hk.current (by rw [hpc]; decide)
  refine ⟨hk.seq, hk.request, fun _ ↦ hcur, hk.reply, ?_, hk.returned⟩
  intro n h
  unfold Conn.recv at h ⊢
  dsimp only at h
  split at h
  · rcases h with h | h <;> cases h
  · next hdone =>
    rw [not_or, not_not] at hdone
    rcases h with h | h
    · cases h
      exact ⟨r, hr, hdone.2, rfl, rfl, rfl⟩
    · cases h

/-- The call returns: sequence numbers tell its own request, whose timestamp is from the same base. -/
theorem Kept.finish (hk : Kept s) {n : Nat} (hpc : s.pc = .stopped n) (now : Timeval) :
    Kept (s.finish n now) := by
  refine ⟨hk.seq, hk.request, fun h ↦ absurd rfl h, hk.reply, ?_, ?_⟩
  · intro m h
    rcases h with h | h <;> cases h
  · intro hlt ret hret
    rcases List.mem_append.mp hret with hret | hret
    · exact hk.returned hlt ret hret
    · obtain ⟨r, hr⟩ := hk.received n (.inr hpc)
      have hmem := hk.reply r hr.reply
      obtain ⟨hseq, hle⟩ := hk.request r.request hmem
      have hcall : r.request.call = s.calls := by
        refine call_of_seq (lt_of_le_of_lt hle hlt) hlt ?_
        rw [← hseq, hr.seq, hk.seq]
      have hts := (hk.current (by rw [hpc]; intro he; cases he)).2 r.request hmem hcall
      rw [List.mem_singleton.mp hret]
      refine ⟨r, hr.reply, hcall, ?_, hr.data, hts, ?_⟩
      · have := hr.length
        unfold sizeofHdr at this ⊢
        dsimp only
        omega
      · dsimp only
        rw [hr.ts, hts]

/-- One step. -/
theorem Kept.step (hk : Kept s) {a : Act} (hs : Step s a t) : Kept t := by
  unfold Step Conn.step at hs
  cases a with
  | call outbuff inbytes now =>
    dsimp only at hs
    split at hs
    · cases hs
      exact hk.call outbuff inbytes now
    · cases hs
  | send now =>
    dsimp only at hs
    split at hs
    · next hpc =>
      cases hs
      exact hk.send hpc now
    · cases hs
  | setjmp =>
    dsimp only at hs
    split at hs
    · next hpc =>
      cases hs
      exact kept_of_pc hk (by rw [hpc]; decide) s.rtt_nrexmt s.rttinit true (fun _ ↦ rfl) fun n ↦ by simp
    · cases hs
  | alarm =>
    have hrun : s.pc ≠ .idle → (if s.jmpbuf then .ok s.timeout else .error .indeterminate :
        Except Stop Conn) = .ok t → Kept t := by
      intro hpc h
      split at h
      · cases h
        exact hk.timeout hpc
      · cases h
    dsimp only at hs
    split at hs
    · next hpc => exact hrun (by rw [hpc]; decide) hs
    · next hpc => exact hrun (by rw [hpc]; decide) hs
    · next hpc => exact hrun (by rw [hpc]; intro he; cases he) hs
    · cases hs
  | recv r =>
    dsimp only at hs
    split at hs
    · next h =>
      cases hs
      exact hk.recv h.1 h.2
    · cases hs
  | stop =>
    dsimp only at hs
    split at hs
    · next n hpc =>
      cases hs
      have hcur := hk.current (by rw [hpc]; intro he; cases he)
      refine ⟨hk.seq, hk.request, fun _ ↦ hcur, hk.reply, ?_, hk.returned⟩
      intro m h
      rcases h with h | h
      · cases h
      · cases h
        obtain ⟨r, hr⟩ := hk.received n (.inl hpc)
        exact ⟨r, hr.reply, hr.seq, hr.ts, hr.length, hr.data⟩
    · cases hs
  | finish now =>
    dsimp only at hs
    split at hs
    · next n hpc =>
      cases hs
      exact hk.finish hpc now
    · cases hs
  | serve q data =>
    dsimp only at hs
    split at hs
    · next hq =>
      cases hs
      refine ⟨hk.seq, hk.request, hk.current, ?_, ?_, ?_⟩
      · intro r hr
        rcases List.mem_append.mp hr with hr | hr
        · exact hk.reply r hr
        · rw [List.mem_singleton.mp hr]
          exact hq
      · intro n h
        obtain ⟨r, hr⟩ := hk.received n h
        exact ⟨r, List.mem_append_left _ hr.reply, hr.seq, hr.ts, hr.length, hr.data⟩
      · intro hlt ret hret
        obtain ⟨r, hr, hm⟩ := hk.returned hlt ret hret
        exact ⟨r, List.mem_append_left _ hr, hm⟩
    · cases hs

/-- Every reachable state. -/
theorem kept_of_run (h : Run Step start s) : Kept s :=
  h.preserves (fun _ _ _ hk _ hs ↦ hk.step hs) kept_start

/-- With fewer than 2^32 calls, what a call returns is a reply to one of its own transmissions, cut to
the size of the buffer, and the argument of `rtt_stop` is the time since this transmission, in
milliseconds, both times taken from the same base. -/
theorem replies_match (h : Run Step start s) (hlt : s.calls < 2 ^ 32) :
    ∀ ret ∈ s.returned, ∃ r ∈ s.replies, Matches ret r ∧
      ret.ms = UInt32.ofInt (millis ret.now - millis r.request.sent) := by
  intro ret hret
  obtain ⟨r, hr, hm⟩ := (kept_of_run h).returned hlt ret hret
  refine ⟨r, hr, hm, ?_⟩
  rw [hm.2.2.2.2, rtt_ts_sub]

/-- The first transmission is lost, the second is answered and the reply comes 20 milliseconds later. -/
private def twoSends : List Act :=
  [.call [1] 1 ⟨100, 0⟩, .send ⟨100, 0⟩, .setjmp, .alarm, .send ⟨103, 0⟩, .setjmp,
    .serve ⟨1, ⟨103, 0⟩, ⟨1, 3000⟩, [1]⟩ [7, 8], .recv ⟨⟨1, ⟨103, 0⟩, ⟨1, 3000⟩, [1]⟩, [7, 8]⟩, .stop,
    .finish ⟨103, 20000⟩]

private theorem run_twoSends : ∃ s : Conn, Run Step start s ∧ s.calls = 1 ∧
    s.returned.map (fun ret ↦ (ret.call, ret.n, ret.ms)) = [(1, 1, 20)] ∧
    s.replies = [⟨⟨1, ⟨103, 0⟩, ⟨1, 3000⟩, [1]⟩, [7, 8]⟩] := by
  have hrun : (Except.ok start >>= fun s ↦ runActs step s twoSends).toOption.map
      (fun s ↦ decide (s.calls = 1 ∧
        s.returned.map (fun ret ↦ (ret.call, ret.n, ret.ms)) = [(1, 1, 20)] ∧
        s.replies = [⟨⟨1, ⟨103, 0⟩, ⟨1, 3000⟩, [1]⟩, [7, 8]⟩])) = some true := by decide +kernel
  obtain ⟨s₀, s, hstart, hs, hend⟩ := exists_of_runActs hrun
  cases hstart
  exact ⟨s, run_of_runActs _ _ _ _ hs, of_decide_eq_true hend⟩

theorem replies_match_twice : ∃ s : Conn, s.returned ≠ [] ∧ ∀ ret ∈ s.returned, ∃ r ∈ s.replies,
    Matches ret r ∧ ret.ms = UInt32.ofInt (millis ret.now - millis r.request.sent) := by
  obtain ⟨s, hs, hcalls, hret, -⟩ := run_twoSends
  refine ⟨s, ?_, replies_match hs (by rw [hcalls]; decide)⟩
  intro he
  rw [he] at hret
  cases hret

/-- With room for one byte a call returns 1, although the reply has two after the header. -/
theorem returns_less : ∃ s : Conn, Run Step start s ∧ ∃ ret ∈ s.returned,
    ∀ r ∈ s.replies, ret.n ≠ r.data.length := by
  obtain ⟨s, hs, -, hret, hreplies⟩ := run_twoSends
  cases hlist : s.returned with
  | nil =>
    rw [hlist] at hret
    cases hret
  | cons ret rest =>
    rw [hlist, List.map_cons] at hret
    have hn := (Prod.mk.inj (Prod.mk.inj (List.cons.inj hret).1).2).1
    refine ⟨s, hs, ret, by rw [hlist]; exact List.mem_cons_self, ?_⟩
    intro r hr
    rw [hreplies, List.mem_singleton] at hr
    rw [hn, hr]
    decide

end Conn
end Unpv13e.Rtt
