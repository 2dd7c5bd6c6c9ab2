import Unpv13e.Base.Progress
import Unpv13e.Echo.System
import Unpv13e.Nonblock.Streams

/-!
# The nonblocking client and the echo server

Library `Echo`. `str_cli` of `src/nonblock/strclinonb.c` with its descriptors connected: `Select` never waits
forever, whatever room there is on the ways, and at its return everything has come back, shown or still in its
buffer.
-/

namespace Unpv13e.Echo.Nonb
open Unpv13e.Base
open Unpv13e.Nonblock (StrCli)

/-- The call of `Shutdown` in a step that has made one. -/
def shutdowns (s t : StrCli) : List Io := if t.shutdowns = s.shutdowns then [] else [.shutdown]

/-- What is done next, where the descriptors do this; `wstdout` says whether standard output can be written.
What `Select` leaves in the sets is what is asked for and ready. -/
def step (wstdout : Bool) (s : StrCli) (es : List Io) : Option StrCli :=
  match s.pc, es with
  | .select, [.ready rstdin rsock wsock] =>
    let rstdin := rstdin && !s.stdineof && s.toBuf.iptr < Nonblock.maxLine
    let rsock := rsock && s.frBuf.iptr < Nonblock.maxLine
    let wstdout := wstdout && s.frBuf.optr ≠ s.frBuf.iptr
    let wsock := wsock && s.toBuf.optr ≠ s.toBuf.iptr
    -- It waits while nothing is.
    if rstdin || rsock || wstdout || wsock then (s.step (.select rstdin rsock wstdout wsock)).toOption else none
  | .stdin, [.typed bytes] => (s.step (.read (.data bytes))).toOption
  | .stdin, .stdinEof :: more =>
    (s.step (.read .eof)).toOption.bind fun t ↦ if more = shutdowns s t then some t else none
  | .sockIn, [.received bytes] => (s.step (.read (.data bytes))).toOption
  | .sockIn, [.sockEof] => (s.step (.read .eof)).toOption
  | .sockIn, [.ready _ false _] => (s.step (.read .wouldblock)).toOption
  | .stdout, [.shown bytes] =>
    if bytes ≠ [] ∧ bytes <+: s.frBuf.pending then (s.step (.write (.wrote bytes.length))).toOption else none
  | .stdout, [.ready _ _ _] => (s.step (.write .wouldblock)).toOption
  | .sockOut, .sent bytes :: more =>
    if bytes ≠ [] ∧ bytes <+: s.toBuf.pending then
      (s.step (.write (.wrote bytes.length))).toOption.bind fun t ↦
        if more = shutdowns s t then some t else none
    else none
  | .sockOut, [.ready _ _ false] => (s.step (.write .wouldblock)).toOption
  | _, [] => (s.step .pass).toOption
  | _, _ => none

/-- The steps of the client; standard output may be writable or not. -/
def Client (s : StrCli) (es : List Io) (t : StrCli) : Prop := ∃ wstdout, step wstdout s es = some t

/-- What the client holds. -/
def held (s : StrCli) : Relay where
  toSock := s.toBuf.pending
  toShow := s.frBuf.pending
  stdinEof := s.stdineof
  sockEof := s.pc = .returned

variable {s t : StrCli} {a : Nonblock.Act}

/-! ### What a step does -/

theorem stdin_step {r : Nonblock.ReadResult} (hpc : s.pc = .stdin) (h : s.step (.read r) = .ok t) :
    s.rstdin = true ∧ s.readStdin r = .ok t := by
  unfold StrCli.step at h
  cases hset : s.rstdin with
  | true =>
    rw [hpc, hset] at h
    exact ⟨rfl, h⟩
  | false =>
    rw [hpc, hset] at h
    cases h

theorem sockIn_step {r : Nonblock.ReadResult} (hpc : s.pc = .sockIn) (h : s.step (.read r) = .ok t) :
    s.rsock = true ∧ s.readSock r = .ok t := by
  unfold StrCli.step at h
  cases hset : s.rsock with
  | true =>
    rw [hpc, hset] at h
    exact ⟨rfl, h⟩
  | false =>
    rw [hpc, hset] at h
    cases h

theorem stdout_step {r : Nonblock.WriteResult} (hpc : s.pc = .stdout) (h : s.step (.write r) = .ok t) :
    s.writeStdout r = .ok t := by
  unfold StrCli.step at h
  cases hset : decide (s.wstdout = true ∧ s.frBuf.optr < s.frBuf.iptr) with
  | true =>
    rw [hpc, hset] at h
    exact h
  | false =>
    rw [hpc, hset] at h
    cases h

theorem sockOut_step {r : Nonblock.WriteResult} (hpc : s.pc = .sockOut) (h : s.step (.write r) = .ok t) :
    s.writeSock r = .ok t := by
  unfold StrCli.step at h
  cases hset : decide (s.wsock = true ∧ s.toBuf.optr < s.toBuf.iptr) with
  | true =>
    rw [hpc, hset] at h
    exact h
  | false =>
    rw [hpc, hset] at h
    cases h

theorem pass_step (h : s.step .pass = .ok t) :
    ∃ pc, s.pc ≠ .returned ∧ pc ≠ .returned ∧ t = { s with pc := pc } := by
  unfold StrCli.step at h
  cases hpc : s.pc with
  | select =>
    rw [hpc] at h
    cases h
  | stdin =>
    cases hset : s.rstdin <;> rw [hpc, hset] at h <;> cases h
    exact ⟨.sockIn, by decide, by decide, by rw [← hset]⟩
  | sockIn =>
    cases hset : s.rsock <;> rw [hpc, hset] at h <;> cases h
    exact ⟨.stdout, by decide, by decide, by rw [← hset]⟩
  | stdout =>
    cases hset : decide (s.wstdout = true ∧ s.frBuf.optr < s.frBuf.iptr) <;> rw [hpc, hset] at h <;> cases h
    exact ⟨.sockOut, by decide, by decide, rfl⟩
  | sockOut =>
    cases hset : decide (s.wsock = true ∧ s.toBuf.optr < s.toBuf.iptr) <;> rw [hpc, hset] at h <;> cases h
    exact ⟨.select, by decide, by decide, rfl⟩
  | returned =>
    rw [hpc] at h
    cases h

/-- What a step does with the descriptors and the buffers. -/
inductive Does (s : StrCli) : List Io → StrCli → Prop
  | look (events : List Io) (rstdin rsock wstdout wsock : Bool) (pc : Nonblock.Pc) :
      (events = [] ∨ ∃ a b c, events = [.ready a b c]) → s.pc ≠ .returned → pc ≠ .returned →
      Does s events
        { s with rstdin := rstdin, rsock := rsock, wstdout := wstdout, wsock := wsock, pc := pc }
  | typed (bytes : List UInt8) : s.pc = .stdin → s.rstdin = true →
      Does s [.typed bytes]
        { s with toBuf := s.toBuf.fill bytes, typed := s.typed ++ bytes, wsock := true, pc := .sockIn }
  | stdinEof (n : Nat) (more : List Io) : s.pc = .stdin →
      n = (if s.toBuf.optr = s.toBuf.iptr then s.shutdowns + 1 else s.shutdowns) →
      more = (if n = s.shutdowns then [] else [.shutdown]) →
      Does s (.stdinEof :: more) { s with stdineof := true, shutdowns := n, pc := .sockIn }
  | received (bytes : List UInt8) : s.pc = .sockIn →
      Does s [.received bytes]
        { s with frBuf := s.frBuf.fill bytes, received := s.received ++ bytes, wstdout := true, pc := .stdout }
  | sockEof : s.pc = .sockIn → s.stdineof = true → Does s [.sockEof] { s with pc := .returned }
  | shown (bytes : List UInt8) : s.pc = .stdout → bytes <+: s.frBuf.pending →
      Does s [.shown bytes]
        { s with
          frBuf := s.frBuf.drain bytes.length
          shown := s.shown ++ s.frBuf.pending.take bytes.length
          pc := .sockOut }
  | sent (bytes : List UInt8) (n : Nat) (more : List Io) : s.pc = .sockOut → bytes <+: s.toBuf.pending →
      n = (if s.toBuf.optr + bytes.length = s.toBuf.iptr ∧ s.stdineof = true then s.shutdowns + 1
        else s.shutdowns) →
      more = (if n = s.shutdowns then [] else [.shutdown]) →
      Does s (.sent bytes :: more)
        { s with
          toBuf := s.toBuf.drain bytes.length
          sent := s.sent ++ s.toBuf.pending.take bytes.length
          shutdowns := n
          pc := .select }

/-- Every step is one of these, and a step of the function. -/
theorem does_of_client {es : List Io} (h : Client s es t) : (∃ a, s.Step a t) ∧ Does s es t := by
  obtain ⟨wstdout, h⟩ := h
  unfold step at h
  split at h
  · next rstdin rsock wsock hpc =>
    obtain ⟨-, h⟩ := Option.ite_none_right_eq_some.mp h
    have hs := ok_of_toOption h
    refine ⟨⟨_, hs⟩, ?_⟩
    unfold StrCli.step at hs
    rw [hpc] at hs
    dsimp only at hs
    split at hs
    · cases hs
      exact .look _ _ _ _ _ .stdin (.inr ⟨_, _, _, rfl⟩) (by rw [hpc]; decide) (by decide)
    · cases hs
  · next bytes hpc =>
    have hs := ok_of_toOption h
    obtain ⟨hset, hr⟩ := stdin_step hpc hs
    refine ⟨⟨_, hs⟩, ?_⟩
    unfold StrCli.readStdin at hr
    dsimp only at hr
    split at hr
    · cases hr
      exact .typed bytes hpc hset
    · cases hr
  · next more hpc =>
    obtain ⟨u, hu, h⟩ := Option.bind_eq_some_iff.mp h
    obtain ⟨hmore, h⟩ := Option.ite_none_right_eq_some.mp h
    cases h
    have hs := ok_of_toOption hu
    obtain ⟨-, hr⟩ := stdin_step hpc hs
    cases hr
    exact ⟨⟨_, hs⟩, .stdinEof _ more hpc rfl hmore⟩
  · next bytes hpc =>
    have hs := ok_of_toOption h
    obtain ⟨-, hr⟩ := sockIn_step hpc hs
    refine ⟨⟨_, hs⟩, ?_⟩
    unfold StrCli.readSock at hr
    dsimp only at hr
    split at hr
    · cases hr
      exact .received bytes hpc
    · cases hr
  · next hpc =>
    have hs := ok_of_toOption h
    obtain ⟨-, hr⟩ := sockIn_step hpc hs
    refine ⟨⟨_, hs⟩, ?_⟩
    unfold StrCli.readSock at hr
    dsimp only at hr
    split at hr
    · next heof =>
      cases hr
      exact .sockEof hpc heof
    · cases hr
  · next hpc =>
    have hs := ok_of_toOption h
    obtain ⟨-, hr⟩ := sockIn_step hpc hs
    cases hr
    exact ⟨⟨_, hs⟩, .look _ _ _ _ _ .stdout (.inr ⟨_, _, _, rfl⟩) (by rw [hpc]; decide) (by decide)⟩
  · next bytes hpc =>
    obtain ⟨⟨-, hpre⟩, h⟩ := Option.ite_none_right_eq_some.mp h
    have hs := ok_of_toOption h
    have hr := stdout_step hpc hs
    refine ⟨⟨_, hs⟩, ?_⟩
    unfold StrCli.writeStdout at hr
    dsimp only at hr
    split at hr
    · cases hr
      exact .shown bytes hpc hpre
    · cases hr
  · next hpc =>
    have hs := ok_of_toOption h
    have hr := stdout_step hpc hs
    cases hr
    exact ⟨⟨_, hs⟩, .look _ _ _ _ _ .sockOut (.inr ⟨_, _, _, rfl⟩) (by rw [hpc]; decide) (by decide)⟩
  · next bytes more hpc =>
    obtain ⟨⟨-, hpre⟩, h⟩ := Option.ite_none_right_eq_some.mp h
    obtain ⟨u, hu, h⟩ := Option.bind_eq_some_iff.mp h
    obtain ⟨hmore, h⟩ := Option.ite_none_right_eq_some.mp h
    cases h
    have hs := ok_of_toOption hu
    have hr := sockOut_step hpc hs
    refine ⟨⟨_, hs⟩, ?_⟩
    unfold StrCli.writeSock at hr
    dsimp only at hr
    split at hr
    · cases hr
      exact .sent bytes _ more hpc hpre rfl hmore
    · cases hr
  · next hpc =>
    have hs := ok_of_toOption h
    have hr := sockOut_step hpc hs
    cases hr
    exact ⟨⟨_, hs⟩, .look _ _ _ _ _ .select (.inr ⟨_, _, _, rfl⟩) (by rw [hpc]; decide) (by decide)⟩
  · have hs := ok_of_toOption h
    obtain ⟨pc, hopen, hpc, rfl⟩ := pass_step hs
    exact ⟨⟨_, hs⟩, .look _ _ _ _ _ pc (.inl rfl) hopen hpc⟩
  · cases h

/-- The pointers of a buffer that is empty are at its beginning. -/
def Reset {α : Type} (b : Buffer α) : Prop := b.optr = b.iptr → b.iptr = 0

theorem reset_fill {α : Type} {b : Buffer α} {xs : List α} (h : b.Ordered) (hne : xs ≠ []) :
    Reset (b.fill xs) := by
  intro hmet
  have hpos := List.length_pos_iff.mpr hne
  have hle := h.le
  change b.optr = b.iptr + xs.length at hmet
  omega

theorem reset_drain {α : Type} {b : Buffer α} {k : Nat} : Reset (b.drain k) := by
  unfold Buffer.drain
  split
  · exact fun _ ↦ rfl
  · next hne => exact fun hmet ↦ absurd hmet hne

/-- The invariant of the buffers, and what the sets say in the middle of a turn. -/
structure Kept (s : StrCli) : Prop where
  buffers : s.Kept
  toReset : Reset s.toBuf
  frReset : Reset s.frBuf
  asked : s.pc = .stdin ∨ s.pc = .sockIn → s.rsock = true → s.frBuf.iptr < Nonblock.maxLine
  askedStdin : s.pc = .stdin → s.rstdin = true → s.toBuf.iptr < Nonblock.maxLine

theorem kept_start : Kept StrCli.start where
  buffers := StrCli.kept_start
  toReset := fun _ ↦ rfl
  frReset := fun _ ↦ rfl
  asked := fun _ h ↦ by cases h
  askedStdin := fun _ h ↦ by cases h

/-- The socket is looked at after standard input. -/
theorem stdin_of_sockIn (hs : s.Step a t) (ht : t.pc = .sockIn) : s.pc = .stdin := by
  unfold StrCli.Step StrCli.step at hs
  cases hpc : s.pc with
  | stdin => rfl
  | select =>
    simp only [hpc] at hs
    split at hs
    · split at hs
      · cases hs
        cases ht
      · cases hs
    · cases hs
  | sockIn =>
    simp only [hpc] at hs
    split at hs
    · next r _ =>
      unfold StrCli.readSock at hs
      cases r <;> dsimp only at hs
      · split at hs <;> cases hs
        cases ht
      · split at hs <;> cases hs
        cases ht
      · cases hs
        cases ht
    · cases hs
      cases ht
    · cases hs
  | stdout =>
    simp only [hpc] at hs
    split at hs
    · next r _ =>
      unfold StrCli.writeStdout at hs
      cases r <;> dsimp only at hs
      · split at hs <;> cases hs
        cases ht
      · cases hs
        cases ht
    · cases hs
      cases ht
    · cases hs
  | sockOut =>
    simp only [hpc] at hs
    split at hs
    · next r _ =>
      unfold StrCli.writeSock at hs
      cases r <;> dsimp only at hs
      · split at hs <;> cases hs
        cases ht
      · cases hs
        cases ht
    · cases hs
      cases ht
    · cases hs
  | returned =>
    simp only [hpc] at hs
    cases hs

/-- Every step keeps it. -/
theorem Kept.step (h : Kept s) (hs : s.Step a t) : Kept t := by
  have hd := StrCli.does_of_step hs
  have hto := h.buffers.typed.ordered
  have hfr := h.buffers.received.ordered
  have hfirst := stdin_of_sockIn hs
  refine ⟨h.buffers.does hd, ?_, ?_, ?_, ?_⟩
  · cases hd with
    | stdin bytes hpc hset hfits => exact reset_fill hto hfits.1
    | sockOut k hpc hlt hle => exact reset_drain
    | _ => exact h.toReset
  · cases hd with
    | sock bytes hpc hfits => exact reset_fill hfr hfits.1
    | stdout k hpc hle => exact reset_drain
    | _ => exact h.frReset
  · intro ht hset
    cases hd with
    | select rstdin rsock wstdout wsock hpc hasked => exact hasked.2.1 hset
    | skip pc hpc hnext => exact h.asked (.inl (hfirst (ht.resolve_left hnext.1))) hset
    | stdin bytes hpc hin hfits => exact h.asked (.inl hpc) hset
    | stdinEof hpc hin => exact h.asked (.inl hpc) hset
    | _ => rcases ht with ht | ht <;> cases ht
  · intro ht hset
    cases hd with
    | select rstdin rsock wstdout wsock hpc hasked => exact (hasked.1 hset).2
    | skip pc hpc hnext => exact absurd ht hnext.1
    | _ => cases ht

/-! ### Against the server -/

/-- What it has read it passes on, and it shuts down with nothing left to send. -/
theorem refines : Refines (fun _ ↦ True) Client .start held Kept := by
  refine ⟨kept_start, rfl, fun s es t hkept _ h ↦ ?_⟩
  obtain ⟨⟨a, hs⟩, hd⟩ := does_of_client h
  refine ⟨hkept.step hs, ?_⟩
  have hto := hkept.buffers.typed.ordered
  have hfr := hkept.buffers.received.ordered
  cases hd with
  | look events rstdin rsock wstdout wsock pc hes hopen hpc =>
    rcases hes with rfl | ⟨_, _, _, rfl⟩ <;> simp [Relay.ios, Relay.io, held, hopen, hpc]
  | typed bytes hpc hset => simp [Relay.ios, Relay.io, held, hpc, Buffer.pending_fill hto]
  | stdinEof n more hpc hn hmore =>
    by_cases hmet : s.toBuf.optr = s.toBuf.iptr
    · rw [if_pos hmet] at hn
      rw [if_neg (by omega)] at hmore
      have hnil := (Buffer.pending_eq_nil_iff hto).mpr hmet
      simp [Relay.ios, Relay.io, held, hpc, hmore, hnil]
    · rw [if_neg hmet] at hn
      rw [if_pos hn] at hmore
      simp [Relay.ios, Relay.io, held, hpc, hmore]
  | received bytes hpc => simp [Relay.ios, Relay.io, held, hpc, Buffer.pending_fill hfr]
  | sockEof hpc heof => simp [Relay.ios, Relay.io, held, heof]
  | shown bytes hpc hpre => simp [Relay.ios, Relay.io, held, hpc, hpre, Buffer.pending_drain hfr]
  | sent bytes n more hpc hpre hn hmore =>
    have hlen := Buffer.length_pending hto
    have hle := hpre.length_le
    by_cases hlast : s.toBuf.optr + bytes.length = s.toBuf.iptr ∧ s.stdineof = true
    · rw [if_pos hlast] at hn
      rw [if_neg (by omega)] at hmore
      have hnil : s.toBuf.pending.drop bytes.length = [] := List.drop_eq_nil_of_le (by omega)
      simp [Relay.ios, Relay.io, held, hpc, hmore, hpre, Buffer.pending_drain hto, hnil, hlast.2]
    · rw [if_neg hlast] at hn
      rw [if_pos hn] at hmore
      simp [Relay.ios, Relay.io, held, hpc, hmore, hpre, Buffer.pending_drain hto]

/-- `Shutdown` has been called when it is counted. -/
theorem Does.shutdown_mem {es : List Io} (h : Does s es t) :
    s.shutdowns ≤ t.shutdowns ∧ (.shutdown ∈ es ↔ t.shutdowns ≠ s.shutdowns) := by
  cases h with
  | look events rstdin rsock wstdout wsock pc hes hopen hpc =>
    rcases hes with rfl | ⟨_, _, _, rfl⟩ <;> simp
  | stdinEof n more hpc hn hmore =>
    rw [hmore]
    dsimp only
    split at hn <;> simp [hn]
  | sent bytes n more hpc hpre hn hmore =>
    rw [hmore]
    dsimp only
    split at hn <;> simp [hn]
  | _ => simp

/-- What holds of the client and of what is outside it, in every run. -/
structure Joint (c : Room) (input : List UInt8) (x : StrCli × World) : Prop where
  kept : Kept x.1
  flows : Flows input (held x.1) x.2
  fin : x.2.fin = true ↔ x.1.shutdowns = 1
  fitting : Fitting c x.2

theorem joint_start {c : Room} {input : List UInt8} : Joint c input (.start, .start input) where
  kept := kept_start
  flows := flows_start
  fin := by simp [World.start, StrCli.start]
  fitting := ⟨Nat.zero_le _, fun _ h ↦ by cases h⟩

theorem shutdowns_le (h : s.Kept) : s.shutdowns ≤ 1 := by
  rw [h.fin]
  split <;> decide

/-- Every step keeps it. -/
theorem Joint.step {c : Room} {input : List UInt8} {x y : StrCli × World} {act : Act} (h : Joint c input x)
    (hs : Step Client c x act y) : Joint c input y := by
  obtain ⟨s, w⟩ := x
  obtain ⟨t, u⟩ := y
  cases act with
  | client es =>
    obtain ⟨hclient, hw⟩ := hs
    obtain ⟨hkept, hheld⟩ := refines.step s es t h.kept
      (of_ios (P := fun _ ↦ True) hw (fun _ _ ↦ trivial) fun _ _ ↦ trivial) hclient
    refine ⟨hkept, h.flows.ios hheld hw, ?_, h.fitting.ios hw⟩
    obtain ⟨hle, hmem⟩ := (does_of_client hclient).2.shutdown_mem
    have hmost := shutdowns_le hkept.buffers
    have hfin : w.fin = true ↔ s.shutdowns = 1 := h.fin
    change s.shutdowns ≤ t.shutdowns at hle
    change u.fin = true ↔ t.shutdowns = 1
    rw [fin_ios hw, hfin, hmem]
    change s.shutdowns = 1 ∨ t.shutdowns ≠ s.shutdowns ↔ t.shutdowns = 1
    omega
  | server k =>
    obtain ⟨ht, hw⟩ := hs
    have hserves := serves_of_serve hw
    change t = s at ht
    subst ht
    exact ⟨h.kept, h.flows.serves hserves, by rw [hserves.fin]; exact h.fin, hserves.fitting h.fitting⟩

theorem joint_of_run {c : Room} {input : List UInt8} {x y : StrCli × World} (hx : Joint c input x)
    (h : Run (Step Client c) x y) : Joint c input y :=
  h.preserves (fun _ _ _ hj _ hs ↦ hj.step hs) hx

/-! ### Taking a step -/

theorem read_stdin (r : Nonblock.ReadResult) (hpc : s.pc = .stdin) (hset : s.rstdin = true) :
    s.step (.read r) = s.readStdin r := by
  unfold StrCli.step
  rw [hpc, hset]

theorem read_sock (r : Nonblock.ReadResult) (hpc : s.pc = .sockIn) (hset : s.rsock = true) :
    s.step (.read r) = s.readSock r := by
  unfold StrCli.step
  rw [hpc, hset]

theorem write_stdout (r : Nonblock.WriteResult) (hpc : s.pc = .stdout)
    (hset : s.wstdout = true ∧ s.frBuf.optr < s.frBuf.iptr) : s.step (.write r) = s.writeStdout r := by
  unfold StrCli.step
  rw [hpc, decide_eq_true hset]

theorem write_sock (r : Nonblock.WriteResult) (hpc : s.pc = .sockOut)
    (hset : s.wsock = true ∧ s.toBuf.optr < s.toBuf.iptr) : s.step (.write r) = s.writeSock r := by
  unfold StrCli.step
  rw [hpc, decide_eq_true hset]

theorem client_typed {bytes : List UInt8} (hpc : s.pc = .stdin) (hset : s.rstdin = true)
    (hfits : StrCli.Fits bytes s.toBuf.room) :
    Client s [.typed bytes]
      { s with toBuf := s.toBuf.fill bytes, typed := s.typed ++ bytes, wsock := true, pc := .sockIn } := by
  refine ⟨true, ?_⟩
  unfold step
  rw [hpc]
  exact congrArg Except.toOption ((read_stdin (.data bytes) hpc hset).trans (if_pos hfits))

theorem client_stdinEof (hpc : s.pc = .stdin) (hset : s.rstdin = true) :
    Client s (.stdinEof :: if s.toBuf.optr = s.toBuf.iptr then [.shutdown] else [])
      { s with
        stdineof := true
        shutdowns := if s.toBuf.optr = s.toBuf.iptr then s.shutdowns + 1 else s.shutdowns
        pc := .sockIn } := by
  refine ⟨true, ?_⟩
  unfold step
  rw [hpc]
  dsimp only
  rw [read_stdin _ hpc hset]
  refine if_pos ?_
  by_cases hmet : s.toBuf.optr = s.toBuf.iptr <;> simp [shutdowns, hmet]

theorem client_received {bytes : List UInt8} (hpc : s.pc = .sockIn) (hset : s.rsock = true)
    (hfits : StrCli.Fits bytes s.frBuf.room) :
    Client s [.received bytes]
      { s with frBuf := s.frBuf.fill bytes, received := s.received ++ bytes, wstdout := true, pc := .stdout } := by
  refine ⟨true, ?_⟩
  unfold step
  rw [hpc]
  exact congrArg Except.toOption ((read_sock (.data bytes) hpc hset).trans (if_pos hfits))

theorem client_sockEof (hpc : s.pc = .sockIn) (hset : s.rsock = true) (heof : s.stdineof = true) :
    Client s [.sockEof] { s with pc := .returned } := by
  refine ⟨true, ?_⟩
  unfold step
  rw [hpc]
  exact congrArg Except.toOption ((read_sock .eof hpc hset).trans (if_pos heof))

theorem client_sockWouldblock (rstdin wsock : Bool) (hpc : s.pc = .sockIn) (hset : s.rsock = true) :
    Client s [.ready rstdin false wsock] { s with pc := .stdout } := by
  refine ⟨true, ?_⟩
  unfold step
  rw [hpc]
  exact congrArg Except.toOption (read_sock _ hpc hset)

theorem client_shown {bytes : List UInt8} (hpc : s.pc = .stdout)
    (hset : s.wstdout = true ∧ s.frBuf.optr < s.frBuf.iptr) (hne : bytes ≠ [])
    (hpre : bytes <+: s.frBuf.pending) (hle : bytes.length ≤ s.frBuf.iptr - s.frBuf.optr) :
    Client s [.shown bytes]
      { s with
        frBuf := s.frBuf.drain bytes.length
        shown := s.shown ++ s.frBuf.pending.take bytes.length
        pc := .sockOut } := by
  refine ⟨true, ?_⟩
  unfold step
  rw [hpc]
  have hwrite := (write_stdout (.wrote bytes.length) hpc hset).trans (if_pos hle)
  exact (if_pos ⟨hne, hpre⟩).trans (congrArg Except.toOption hwrite)

theorem client_sent {bytes : List UInt8} (hpc : s.pc = .sockOut)
    (hset : s.wsock = true ∧ s.toBuf.optr < s.toBuf.iptr) (hne : bytes ≠ [])
    (hpre : bytes <+: s.toBuf.pending) (hle : bytes.length ≤ s.toBuf.iptr - s.toBuf.optr) :
    Client s
      (.sent bytes :: if s.toBuf.optr + bytes.length = s.toBuf.iptr ∧ s.stdineof = true then [.shutdown] else [])
      { s with
        toBuf := s.toBuf.drain bytes.length
        sent := s.sent ++ s.toBuf.pending.take bytes.length
        shutdowns :=
          if s.toBuf.optr + bytes.length = s.toBuf.iptr ∧ s.stdineof = true then s.shutdowns + 1
          else s.shutdowns
        pc := .select } := by
  refine ⟨true, ?_⟩
  unfold step
  rw [hpc]
  refine (if_pos ⟨hne, hpre⟩).trans ?_
  rw [write_sock _ hpc hset, StrCli.writeSock, if_pos hle]
  refine if_pos ?_
  by_cases hlast : s.toBuf.optr + bytes.length = s.toBuf.iptr ∧ s.stdineof = true
  · rw [if_pos hlast]
    simp [shutdowns, hlast]
  · rw [if_neg hlast]
    simp [shutdowns, hlast]

theorem client_sentWouldblock (rstdin rsock : Bool) (hpc : s.pc = .sockOut)
    (hset : s.wsock = true ∧ s.toBuf.optr < s.toBuf.iptr) :
    Client s [.ready rstdin rsock false] { s with pc := .select } := by
  refine ⟨true, ?_⟩
  unfold step
  rw [hpc]
  exact congrArg Except.toOption (write_sock _ hpc hset)

/-- Where nothing is to be done the next step is that of the next descriptor. -/
theorem client_pass {pc : Nonblock.Pc} (h : s.step .pass = .ok { s with pc := pc }) :
    Client s [] { s with pc := pc } := by
  refine ⟨true, ?_⟩
  have hstep : step true s [] = (s.step .pass).toOption := by
    unfold step
    cases s.pc <;> rfl
  rw [hstep, h]
  rfl

theorem pass_stdin (hpc : s.pc = .stdin) (hset : s.rstdin = false) : Client s [] { s with pc := .sockIn } := by
  refine client_pass ?_
  unfold StrCli.step
  rw [hpc, hset]

theorem pass_sockIn (hpc : s.pc = .sockIn) (hset : s.rsock = false) : Client s [] { s with pc := .stdout } := by
  refine client_pass ?_
  unfold StrCli.step
  rw [hpc, hset]

theorem pass_stdout (hpc : s.pc = .stdout) (hset : ¬ (s.wstdout = true ∧ s.frBuf.optr < s.frBuf.iptr)) :
    Client s [] { s with pc := .sockOut } := by
  refine client_pass ?_
  unfold StrCli.step
  rw [hpc, decide_eq_false hset]

theorem pass_sockOut (hpc : s.pc = .sockOut) (hset : ¬ (s.wsock = true ∧ s.toBuf.optr < s.toBuf.iptr)) :
    Client s [] { s with pc := .select } := by
  refine client_pass ?_
  unfold StrCli.step
  rw [hpc, decide_eq_false hset]

/-! ### Coming to the end -/

/-- What is left to do: a byte has six stops, and each end is seen once. -/
def work (x : StrCli × World) : Nat :=
  6 * x.2.input.length + 5 * x.1.toBuf.pending.length + 4 * x.2.forth.length + 3 * x.2.server.held.length +
    2 * x.2.back.length + x.1.frBuf.pending.length + (if x.1.stdineof then 0 else 1) +
    if x.2.server = .closed then 0 else 1

/-- A run from here leaves less to do, or returns. -/
def Closer (c : Room) (x : StrCli × World) : Prop :=
  ∃ y, Run (Step Client c) x y ∧ (y.1.pc = .returned ∨ work y < work x)

variable {c : Room} {input : List UInt8} {w u : World} {es : List Io}

theorem closer_of_client (es : List Io) (h : Client s es t) (hw : w.ios c es = some u)
    (hend : t.pc = .returned ∨ work (t, u) < work (s, w)) : Closer c (s, w) :=
  ⟨(t, u), RunWith.cons (a := .client es) True.intro ⟨h, hw⟩ RunWith.refl, hend⟩

theorem Closer.after (hy : Closer c (t, w)) (h : Client s es t) (hw : w.ios c es = some w)
    (hwork : work (t, w) = work (s, w)) : Closer c (s, w) := by
  obtain ⟨y, hrun, hend⟩ := hy
  rw [hwork] at hend
  exact ⟨y, RunWith.cons (a := .client es) True.intro ⟨h, hw⟩ hrun, hend⟩

/-- What can be read from standard input is read. -/
theorem closer_stdin (hj : Joint c input (s, w)) (hpc : s.pc = .stdin) (hset : s.rstdin = true) :
    Closer c (s, w) := by
  have hopen : s.stdineof = false := hj.kept.buffers.open_ hpc hset
  have hto := hj.kept.buffers.typed.ordered
  cases hin : w.input with
  | nil =>
    have hstep := client_stdinEof hpc hset
    by_cases hmet : s.toBuf.optr = s.toBuf.iptr
    · refine closer_of_client (u := { w with fin := true }) _ hstep ?_ (.inr ?_)
      · simp [World.ios, World.io, hin, hmet]
      · simp [work, hopen]
    · refine closer_of_client (u := w) _ hstep ?_ (.inr ?_)
      · simp [World.ios, World.io, hin, hmet]
      · simp [work, hopen]
  | cons b rest =>
    have hroom : StrCli.Fits [b] s.toBuf.room := by
      have hsize := hj.kept.buffers.toSize
      have hless := hj.kept.askedStdin hpc hset
      refine ⟨List.cons_ne_nil _ _, ?_⟩
      change 1 ≤ s.toBuf.mem.length - s.toBuf.iptr
      change s.toBuf.mem.length = _ at hsize
      change s.toBuf.iptr < _ at hless
      omega
    refine closer_of_client (u := { w with input := rest }) _ (client_typed hpc hset hroom) ?_ (.inr ?_)
    · simp [World.ios, World.io, hin]
    · simp only [work, hin, Buffer.pending_fill hto, List.length_append, List.length_cons, List.length_nil]
      omega

/-- What can be read from the socket is read. -/
theorem closer_sockIn (hj : Joint c input (s, w)) (hpc : s.pc = .sockIn) (hset : s.rsock = true)
    (hreadable : w.readable = true) : Closer c (s, w) := by
  have hfr := hj.kept.buffers.received.ordered
  cases hback : w.back with
  | nil =>
    have hclosed : w.server = .closed := by simpa [World.readable, hback] using hreadable
    have heof : s.stdineof = true := (hj.flows.fin (hj.flows.closed hclosed).1).1
    refine closer_of_client (u := w) _ (client_sockEof hpc hset heof) ?_ (.inl rfl)
    simp [World.ios, World.io, hback, hclosed]
  | cons b rest =>
    have hroom : StrCli.Fits [b] s.frBuf.room := by
      have hsize := hj.kept.buffers.frSize
      have hless := hj.kept.asked (.inr hpc) hset
      refine ⟨List.cons_ne_nil _ _, ?_⟩
      change 1 ≤ s.frBuf.mem.length - s.frBuf.iptr
      change s.frBuf.mem.length = _ at hsize
      change s.frBuf.iptr < _ at hless
      omega
    refine closer_of_client (u := { w with back := rest }) _ (client_received hpc hset hroom) ?_ (.inr ?_)
    · simp [World.ios, World.io, hback]
    · simp only [work, hback, Buffer.pending_fill hfr, List.length_append, List.length_cons, List.length_nil]
      omega

/-- What standard output takes is written. -/
theorem closer_stdout (hj : Joint c input (s, w)) (hpc : s.pc = .stdout) (hset : s.wstdout = true)
    (hlt : s.frBuf.optr < s.frBuf.iptr) : Closer c (s, w) := by
  have hfr : s.frBuf.Ordered := hj.kept.buffers.received.ordered
  have hlen := Buffer.length_pending hfr
  cases hpending : s.frBuf.pending with
  | nil =>
    rw [hpending, List.length_nil] at hlen
    omega
  | cons b rest =>
    have hpre : [b] <+: s.frBuf.pending := by simp [hpending]
    have hsome : 1 ≤ s.frBuf.iptr - s.frBuf.optr := by omega
    refine closer_of_client (u := { w with output := w.output ++ [b] }) _
      (client_shown hpc ⟨hset, hlt⟩ (List.cons_ne_nil b []) hpre hsome) ?_ (.inr ?_)
    · simp [World.ios, World.io]
    · simp only [work, Buffer.pending_drain hfr, List.length_drop, List.length_cons, List.length_nil]
      omega

/-- What there is room for is sent. -/
theorem closer_sockOut (hj : Joint c input (s, w)) (hpc : s.pc = .sockOut) (hset : s.wsock = true)
    (hlt : s.toBuf.optr < s.toBuf.iptr) (hroom : w.forth.length < c.forth) : Closer c (s, w) := by
  have hto : s.toBuf.Ordered := hj.kept.buffers.typed.ordered
  have hlen := Buffer.length_pending hto
  have hnot : ¬ (s.stdineof = true ∧ s.toBuf.optr = s.toBuf.iptr) := fun hdue ↦ hlt.ne hdue.2
  have hzero : s.shutdowns = 0 := by
    have hfin : s.shutdowns = _ := hj.kept.buffers.fin
    rwa [if_neg hnot] at hfin
  have hfin : w.fin = false := by
    rw [Bool.eq_false_iff]
    intro hfin
    have hone : s.shutdowns = 1 := hj.fin.mp hfin
    omega
  cases hpending : s.toBuf.pending with
  | nil =>
    rw [hpending, List.length_nil] at hlen
    omega
  | cons b rest =>
    have hpre : [b] <+: s.toBuf.pending := by simp [hpending]
    have hsome : 1 ≤ s.toBuf.iptr - s.toBuf.optr := by omega
    have hstep := client_sent hpc ⟨hset, hlt⟩ (List.cons_ne_nil b []) hpre hsome
    by_cases hlast : s.toBuf.optr + [b].length = s.toBuf.iptr ∧ s.stdineof = true
    · rw [if_pos hlast] at hstep
      refine closer_of_client (u := { w with forth := w.forth ++ [b], fin := true }) _ hstep ?_ (.inr ?_)
      · simp [World.ios, World.io, hfin, hroom]
      · simp only [work, Buffer.pending_drain hto, List.length_drop, List.length_append, List.length_cons,
          List.length_nil]
        omega
    · rw [if_neg hlast] at hstep
      refine closer_of_client (u := { w with forth := w.forth ++ [b] }) _ hstep ?_ (.inr ?_)
      · simp [World.ios, World.io, hfin, hroom]
      · simp only [work, Buffer.pending_drain hto, List.length_drop, List.length_append, List.length_cons,
          List.length_nil]
        omega

/-- What the server can do it does. -/
theorem closer_server {k : Nat} (hw : w.serve c k = some u) : Closer c (s, w) := by
  refine ⟨(s, u), RunWith.cons (a := .server k) (t := (s, u)) True.intro ⟨rfl, hw⟩ RunWith.refl, .inr ?_⟩
  cases serves_of_serve hw with
  | read k hs hpos hline hlen =>
    simp only [work, hs, Server.held, List.length_take, List.length_drop, List.length_nil]
    simp
    omega
  | eof hs hforth hfin => simp [work, hs, Server.held]
  | write rest k hs hpos hk hroom =>
    by_cases hlast : k = rest.length
    · simp [work, hs, Server.held, hlast]
      omega
    · simp [work, hs, Server.held, if_neg hlast]
      omega

/-- A turn of the loop that comes to `sockOut` sends something if it can. -/
theorem turn_sockOut (hj : Joint c input (s, w)) (hpc : s.pc = .sockOut) :
    Closer c (s, w) ∨ Run (Step Client c) (s, w) ({ s with pc := .select }, w) ∧
      ¬ (s.wsock = true ∧ s.toBuf.optr < s.toBuf.iptr ∧ w.forth.length < c.forth) := by
  by_cases hset : s.wsock = true ∧ s.toBuf.optr < s.toBuf.iptr
  · by_cases hroom : w.forth.length < c.forth
    · exact .inl (closer_sockOut hj hpc hset.1 hset.2 hroom)
    · have hstep := client_sentWouldblock true w.readable hpc hset
      have hw : w.ios c [.ready true w.readable false] = some w := by simp [World.ios, World.io, hroom]
      have hnext : Step Client c (s, w) (.client [.ready true w.readable false])
        ({ s with pc := .select }, w) := ⟨hstep, hw⟩
      exact .inr ⟨RunWith.cons True.intro hnext RunWith.refl, fun h ↦ hroom h.2.2⟩
  · have hstep := pass_sockOut hpc hset
    have hnext : Step Client c (s, w) (.client []) ({ s with pc := .select }, w) := ⟨hstep, rfl⟩
    exact .inr ⟨RunWith.cons True.intro hnext RunWith.refl, fun h ↦ hset ⟨h.1, h.2.1⟩⟩

/-- One that comes to `stdout` shows something or goes on. -/
theorem turn_stdout (hj : Joint c input (s, w)) (hpc : s.pc = .stdout) :
    Closer c (s, w) ∨ Run (Step Client c) (s, w) ({ s with pc := .select }, w) ∧
      ¬ (s.wsock = true ∧ s.toBuf.optr < s.toBuf.iptr ∧ w.forth.length < c.forth) ∧
      ¬ (s.wstdout = true ∧ s.frBuf.optr < s.frBuf.iptr) := by
  by_cases hset : s.wstdout = true ∧ s.frBuf.optr < s.frBuf.iptr
  · exact .inl (closer_stdout hj hpc hset.1 hset.2)
  · have hstep := pass_stdout hpc hset
    have hnext : Step Client c (s, w) (.client []) ({ s with pc := .sockOut }, w) := ⟨hstep, rfl⟩
    rcases turn_sockOut (hj.step hnext) rfl with hcloser | ⟨hrun, hfull⟩
    · exact .inl (hcloser.after hstep rfl rfl)
    · exact .inr ⟨RunWith.cons True.intro hnext hrun, hfull, hset⟩

/-- One that comes to `sockIn` reads from the socket or goes on. -/
theorem turn_sockIn (hj : Joint c input (s, w)) (hpc : s.pc = .sockIn) :
    Closer c (s, w) ∨ Run (Step Client c) (s, w) ({ s with pc := .select }, w) ∧
      ¬ (s.wsock = true ∧ s.toBuf.optr < s.toBuf.iptr ∧ w.forth.length < c.forth) ∧
      ¬ (s.wstdout = true ∧ s.frBuf.optr < s.frBuf.iptr) ∧ ¬ (s.rsock = true ∧ w.readable = true) := by
  by_cases hready : s.rsock = true ∧ w.readable = true
  · exact .inl (closer_sockIn hj hpc hready.1 hready.2)
  · obtain ⟨es, hstep, hw⟩ : ∃ es, Client s es { s with pc := .stdout } ∧ w.ios c es = some w := by
      by_cases hset : s.rsock = true
      · have hnot : w.readable = false := by simpa [hset] using hready
        refine ⟨_, client_sockWouldblock true (decide (w.forth.length < c.forth)) hpc hset, ?_⟩
        simp [World.ios, World.io, hnot]
      · exact ⟨[], pass_sockIn hpc (Bool.eq_false_iff.mpr hset), rfl⟩
    have hnext : Step Client c (s, w) (.client es) ({ s with pc := .stdout }, w) := ⟨hstep, hw⟩
    rcases turn_stdout (hj.step hnext) rfl with hcloser | ⟨hrun, hfull, hshown⟩
    · exact .inl (hcloser.after hstep hw rfl)
    · exact .inr ⟨RunWith.cons True.intro hnext hrun, hfull, hshown, hready⟩

/-- One that comes to `stdin` reads from standard input or goes on. -/
theorem turn_stdin (hj : Joint c input (s, w)) (hpc : s.pc = .stdin) :
    Closer c (s, w) ∨ Run (Step Client c) (s, w) ({ s with pc := .select }, w) ∧
      ¬ (s.wsock = true ∧ s.toBuf.optr < s.toBuf.iptr ∧ w.forth.length < c.forth) ∧
      ¬ (s.wstdout = true ∧ s.frBuf.optr < s.frBuf.iptr) ∧ ¬ (s.rsock = true ∧ w.readable = true) ∧
      s.rstdin ≠ true := by
  by_cases hset : s.rstdin = true
  · exact .inl (closer_stdin hj hpc hset)
  · have hstep := pass_stdin hpc (Bool.eq_false_iff.mpr hset)
    have hnext : Step Client c (s, w) (.client []) ({ s with pc := .sockIn }, w) := ⟨hstep, rfl⟩
    rcases turn_sockIn (hj.step hnext) rfl with hcloser | ⟨hrun, hfull, hshown, hready⟩
    · exact .inl (hcloser.after hstep rfl rfl)
    · exact .inr ⟨RunWith.cons True.intro hnext hrun, hfull, hshown, hready, hset⟩

/-- From `Select` something is done: by the client when it finds anything ready, else by the server. -/
theorem closer_select (hj : Joint c input (s, w)) (hpc : s.pc = .select) (hforth : 0 < c.forth)
    (hback : 0 < c.back) : Closer c (s, w) := by
  have hto : s.toBuf.Ordered := hj.kept.buffers.typed.ordered
  have hfr : s.frBuf.Ordered := hj.kept.buffers.received.ordered
  let room := decide (w.forth.length < c.forth)
  let rstdin := !s.stdineof && decide (s.toBuf.iptr < Nonblock.maxLine)
  let rsock := w.readable && decide (s.frBuf.iptr < Nonblock.maxLine)
  let wstdout := decide (s.frBuf.optr ≠ s.frBuf.iptr)
  let wsock := room && decide (s.toBuf.optr ≠ s.toBuf.iptr)
  by_cases hany : (rstdin || rsock || wstdout || wsock) = true
  · have hasked : s.Asked rstdin rsock wstdout wsock := by
      simp [StrCli.Asked, rstdin, rsock, wstdout, wsock]
    have hstep : Client s [.ready true w.readable room]
        { s with rstdin := rstdin, rsock := rsock, wstdout := wstdout, wsock := wsock, pc := .stdin } := by
      refine ⟨true, ?_⟩
      unfold step
      rw [hpc]
      refine (if_pos hany).trans ?_
      unfold StrCli.step
      rw [hpc]
      exact congrArg Except.toOption (if_pos hasked)
    have hw : w.ios c [.ready true w.readable room] = some w := by simp [World.ios, World.io, room]
    have hnext : Step Client c (s, w) (.client [.ready true w.readable room])
      ({ s with rstdin := rstdin, rsock := rsock, wstdout := wstdout, wsock := wsock, pc := .stdin }, w) :=
      ⟨hstep, hw⟩
    rcases turn_stdin (hj.step hnext) rfl with hcloser | ⟨-, hfull, hshown, hready, hstdin⟩
    · exact hcloser.after hstep hw rfl
    · -- What has been found ready has been used.
      simp only [Bool.or_eq_true] at hany
      rcases hany with ((hany | hany) | hany) | hany
      · exact absurd hany hstdin
      · exact absurd ⟨hany, ((Bool.and_eq_true _ _).mp hany).1⟩ hready
      · exact absurd ⟨hany, lt_of_le_of_ne hfr.le (of_decide_eq_true hany)⟩ hshown
      · obtain ⟨hroom, hne⟩ := (Bool.and_eq_true _ _).mp hany
        exact absurd ⟨hany, lt_of_le_of_ne hto.le (of_decide_eq_true hne), of_decide_eq_true hroom⟩ hfull
  · -- Standard input has ended or there is no space for more, nothing is there to read, nothing to show, and
    -- nothing can be sent.
    simp only [Bool.or_eq_true, not_or, Bool.not_eq_true] at hany
    obtain ⟨⟨⟨hstdin, hsock⟩, hshown⟩, hsent⟩ := hany
    have hline : 0 < Nonblock.maxLine := by decide
    have hreset : s.frBuf.iptr = 0 := hj.kept.frReset (by simpa [wstdout] using hshown)
    have hquiet : w.readable = false := by simpa [rsock, hreset, hline] using hsock
    rcases hj.fitting.serve_or with ⟨k, u, hserve⟩ | hclosed | ⟨hreading, hforthNil, hfin⟩ |
      ⟨rest, hwriting, hfull⟩
    · exact closer_server hserve
    · change w.server = .closed at hclosed
      simp [World.readable, hclosed] at hquiet
    · change w.forth = [] at hforthNil
      have hmet : s.toBuf.optr = s.toBuf.iptr := by simpa [wsock, room, hforthNil, hforth] using hsent
      have hempty : s.toBuf.iptr = 0 := hj.kept.toReset hmet
      have heof : s.stdineof = true := by simpa [rstdin, hempty, hline] using hstdin
      have hone : s.shutdowns = _ := hj.kept.buffers.fin
      rw [if_pos ⟨heof, hmet⟩] at hone
      rw [hj.fin.mpr hone] at hfin
      cases hfin
    · have hnil : w.back = [] := by
        simp only [World.readable, Bool.or_eq_false_iff] at hquiet
        simpa using hquiet.1
      change c.back ≤ w.back.length at hfull
      rw [hnil, List.length_nil] at hfull
      omega

/-- Wherever the function is. -/
theorem closer (hj : Joint c input (s, w)) (hforth : 0 < c.forth) (hback : 0 < c.back)
    (hopen : s.pc ≠ .returned) : Closer c (s, w) := by
  have hnext (hrun : Run (Step Client c) (s, w) ({ s with pc := .select }, w)) : Closer c (s, w) := by
    obtain ⟨y, hy, hend⟩ := closer_select (joint_of_run hj hrun) rfl hforth hback
    exact ⟨y, RunWith.trans hrun hy, hend⟩
  cases hpc : s.pc with
  | select => exact closer_select hj hpc hforth hback
  | stdin => exact (turn_stdin hj hpc).elim id fun h ↦ hnext h.1
  | sockIn => exact (turn_sockIn hj hpc).elim id fun h ↦ hnext h.1
  | stdout => exact (turn_stdout hj hpc).elim id fun h ↦ hnext h.1
  | sockOut => exact (turn_sockOut hj hpc).elim id fun h ↦ hnext h.1
  | returned => exact absurd hpc hopen

/-- Every run can be continued to the return. -/
theorem returns {x : StrCli × World} (hj : Joint c input x) (hforth : 0 < c.forth) (hback : 0 < c.back) :
    ∃ y, Run (Step Client c) x y ∧ y.1.pc = .returned := by
  -- Whoever comes closer returns or lowers `work`.
  have hgoal : ∀ x, Joint c input x → (x.1.pc = .returned ∨ ∃ y, Run (Step Client c) x y ∧ y.1.pc = .returned) ∨
      ∃ y, Run (Step Client c) x y ∧ Joint c input y ∧ work y < work x := by
    rintro ⟨s, w⟩ hj
    by_cases hpc : s.pc = .returned
    · exact .inl (.inl hpc)
    · obtain ⟨y, hrun, hend | hless⟩ := closer hj hforth hback hpc
      · exact .inl (.inr ⟨y, hrun, hend⟩)
      · exact .inr ⟨y, hrun, joint_of_run hj hrun, hless⟩
  obtain ⟨y, hrun, -, hpc | ⟨z, hz, hend⟩⟩ := reaches_of_rank (Step Client c) work _ hgoal hj
  · exact ⟨y, hrun, hpc⟩
  · exact ⟨z, RunWith.trans hrun hz, hend⟩

/-- Whatever room there is on the ways, no run comes to a place from which the function cannot return. What is
shown is the beginning of the input, the end of the socket is never read before that of standard input, and at
the return everything has come back: it is shown, or is left in `fr`. -/
theorem can_always_return (hforth : 0 < c.forth) (hback : 0 < c.back)
    (h : Run (Step Client c) (.start, .start input) (s, w)) :
    w.output <+: input ∧ (w.server = .closed → s.stdineof = true) ∧
      (s.pc = .returned → w.output ++ s.frBuf.pending = input) ∧
      ∃ y, Run (Step Client c) (s, w) y ∧ y.1.pc = .returned := by
  have hj : Joint c input (s, w) := joint_of_run joint_start h
  refine ⟨hj.flows.output_prefix, fun hclosed ↦ (hj.flows.fin (hj.flows.closed hclosed).1).1, fun hpc ↦ ?_,
    returns hj hforth hback⟩
  exact (hj.flows.complete (by simpa [held] using hpc)).2

/-- Two bytes, with room for one. -/
theorem can_always_return_two : ∃ (s : StrCli) (w : World), s.pc = .returned ∧ w.output = [7] ∧
    w.output ++ s.frBuf.pending = [7, 8] := by
  let acts : List Act :=
    [.client [.ready true false true], .client [.typed [7, 8]], .client [], .client [], .client [.sent [7]],
      .server 1, .client [.ready true false true], .client [.stdinEof], .client [], .client [],
      .client [.sent [8], .shutdown], .server 1, .client [.ready true true false], .client [],
      .client [.received [7]], .client [.shown [7]], .client [], .server 1, .server 1, .server 0,
      .client [.ready true true true], .client [], .client [.received [8]], .client [.ready true true true],
      .client [], .client [.ready true true true], .client [], .client [.sockEof]]
  have hplay : (playActs (next (step true) ⟨1, 1⟩) (StrCli.start, .start [7, 8]) acts).map
      (fun x ↦ decide (x.1.pc = .returned ∧ x.2.output = [7])) = some true := by decide +kernel
  obtain ⟨⟨s, w⟩, hs, hend⟩ := Option.map_eq_some_iff.mp hplay
  have hend := of_decide_eq_true hend
  have hrun : Run (Step Client ⟨1, 1⟩) (.start, .start [7, 8]) (s, w) :=
    run_of_next (f := step true) (fun _ _ _ h ↦ ⟨true, h⟩) hs
  exact ⟨s, w, hend.1, hend.2, (can_always_return Nat.one_pos Nat.one_pos hrun).2.2.1 hend.1⟩

end Unpv13e.Echo.Nonb
