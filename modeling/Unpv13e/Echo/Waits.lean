import Unpv13e.Echo.Select

/-!
# Waiting for each other

Library `Echo`. `Writen` of the client of `src/select/strcliselect02.c` and of the echo server wait for room.
How much room there must be for the way back so that the two never wait for each other.
-/

namespace Unpv13e.Echo.Select02
open Unpv13e.Base

/-! ### With enough room -/

/-- What is known of the bytes under way, place by place. -/
def Due (c : Room) (w : World) : Pc → Prop
  | .select => w.inFlight ≤ c.forth + 2 * maxLine
  | .sock true _ => w.readable = true ∧ w.inFlight ≤ c.forth + 2 * maxLine
  | .sock false _ => w.inFlight ≤ c.forth + maxLine
  | .show _ _ => w.inFlight ≤ c.forth + maxLine
  | .stdin _ => w.inFlight ≤ c.forth + maxLine
  | .send buf => buf ≠ [] ∧ w.inFlight + buf.length ≤ c.forth + 2 * maxLine
  | _ => True

/-- The room is kept to, and the half is shut down when the end of standard input has been read. -/
structure Bounded (c : Room) (s : StrCli) (w : World) : Prop where
  fitting : Fitting c w
  fin : w.fin = s.stdineof
  due : Due c w s.pc

theorem bounded_start (c : Room) (input : List UInt8) : Bounded c start (.start input) where
  fitting := ⟨Nat.zero_le _, fun rest h ↦ by cases h⟩
  fin := rfl
  due := Nat.zero_le _

theorem Due.serves {c : Room} {w w' : World} {pc : Pc} (h : Due c w pc) (hw : Serves c w w') :
    Due c w' pc := by
  have hsame := hw.inFlight
  cases pc with
  | select => exact hsame.trans_le h
  | sock rsock rstdin =>
    cases rsock with
    | true => exact ⟨hw.readable h.1, hsame.trans_le h.2⟩
    | false => exact hsame.trans_le h
  | «show» buf rstdin => exact hsame.trans_le h
  | stdin rstdin => exact hsame.trans_le h
  | send buf => exact ⟨h.1, by rw [hsame]; exact h.2⟩
  | returned => trivial
  | quit => trivial

/-- After a `Read` of the socket no more is under way than the server holds and its way has room for, or
a whole buffer less than before. -/
theorem inFlight_received {c : Room} {w : World} {bytes : List UInt8} (hfit : Fitting c w)
    (hle : w.inFlight ≤ c.forth + 2 * maxLine) (hall : bytes = w.back.take maxLine) :
    World.inFlight { w with back := w.back.drop bytes.length } ≤ c.forth + maxLine := by
  have hheld := held_le hfit
  have hforth := hfit.forth
  unfold World.inFlight at hle ⊢
  rw [hall]
  simp only [List.length_drop, List.length_take]
  omega

/-- A step of the client. -/
theorem Bounded.does {c : Room} {s t : StrCli} {w u : World} {es : List Io} (h : Bounded c s w)
    (hd : Does s es t) (hw : w.ios c es = some u)
    (hall : ∀ bytes, es = [.received bytes] → bytes = w.back.take maxLine) : Bounded c t u := by
  have hfit := h.fitting
  have hdue := h.due
  obtain ⟨stdineof, pc⟩ := s
  cases hd with
  | select rstdin rsock wsock hpc hstdin hone =>
    obtain rfl : pc = .select := hpc
    rw [World.ios_one] at hw
    obtain ⟨⟨hread, -⟩, hw⟩ := Option.ite_none_right_eq_some.mp hw
    cases hw
    refine ⟨hfit, h.fin, ?_⟩
    cases rsock with
    | true => exact ⟨hread.symm, hdue⟩
    | false =>
      have hback : w.back = [] := by
        have := hread.symm
        simp only [World.readable, Bool.or_eq_false_iff, decide_eq_false_iff_not, not_not] at this
        exact this.1
      have hheld := held_le hfit
      have hforth := hfit.forth
      change w.inFlight ≤ _
      simp only [World.inFlight, hback, List.length_nil]
      omega
  | skipSock rstdin hpc =>
    obtain rfl : pc = .sock false rstdin := hpc
    cases hw
    exact ⟨hfit, h.fin, hdue⟩
  | sockEof rstdin hpc =>
    rw [World.ios_one] at hw
    obtain ⟨-, hw⟩ := Option.ite_none_right_eq_some.mp hw
    cases hw
    refine ⟨hfit, h.fin, ?_⟩
    cases stdineof <;> trivial
  | receive rstdin buf hpc hfits =>
    obtain rfl : pc = .sock true rstdin := hpc
    rw [World.ios_one] at hw
    obtain ⟨-, hw⟩ := Option.ite_none_right_eq_some.mp hw
    cases hw
    exact ⟨⟨hfit.forth, hfit.rest⟩, h.fin, inFlight_received hfit hdue.2 (hall buf rfl)⟩
  | «show» rstdin buf hpc =>
    obtain rfl : pc = .show buf rstdin := hpc
    rw [World.ios_one] at hw
    cases hw
    exact ⟨⟨hfit.forth, hfit.rest⟩, h.fin, hdue⟩
  | skipStdin hpc =>
    obtain rfl : pc = .stdin false := hpc
    cases hw
    refine ⟨hfit, h.fin, ?_⟩
    change w.inFlight ≤ c.forth + maxLine at hdue
    change w.inFlight ≤ c.forth + 2 * maxLine
    omega
  | stdinEof hpc =>
    obtain rfl : pc = .stdin true := hpc
    obtain ⟨v, hv, hw⟩ := Option.bind_eq_some_iff.mp hw
    obtain ⟨-, hv⟩ := Option.ite_none_right_eq_some.mp hv
    cases hv
    cases hw
    refine ⟨⟨hfit.forth, hfit.rest⟩, rfl, ?_⟩
    change w.inFlight ≤ c.forth + maxLine at hdue
    change w.inFlight ≤ c.forth + 2 * maxLine
    omega
  | type buf hpc hfits =>
    obtain rfl : pc = .stdin true := hpc
    rw [World.ios_one] at hw
    obtain ⟨⟨hne, -⟩, hw⟩ := Option.ite_none_right_eq_some.mp hw
    cases hw
    refine ⟨⟨hfit.forth, hfit.rest⟩, h.fin, hne, ?_⟩
    change w.inFlight ≤ c.forth + maxLine at hdue
    change buf.length ≤ maxLine at hfits
    change w.inFlight + buf.length ≤ c.forth + 2 * maxLine
    omega
  | send buf bytes hpc hpre =>
    obtain rfl : pc = .send buf := hpc
    rw [World.ios_one] at hw
    obtain ⟨⟨-, -, hroom⟩, hw⟩ := Option.ite_none_right_eq_some.mp hw
    cases hw
    obtain ⟨-, hle⟩ := hdue
    have hlen := hpre.length_le
    have hsum : World.inFlight { w with forth := w.forth ++ bytes } = w.inFlight + bytes.length := by
      simp only [World.inFlight, List.length_append]
      omega
    refine ⟨⟨by rw [List.length_append]; exact hroom, hfit.rest⟩, h.fin, ?_⟩
    by_cases hbytes : bytes = buf
    · rw [if_pos hbytes]
      change World.inFlight _ ≤ c.forth + 2 * maxLine
      omega
    · rw [if_neg hbytes]
      refine ⟨fun hnil ↦ hbytes (hpre.eq_of_length_le (List.drop_eq_nil_iff.mp hnil)), ?_⟩
      rw [List.length_drop]
      omega

theorem bounded_of_run {c : Room} {input : List UInt8} {s : StrCli} {w : World}
    (h : RunWith (Step Client c) ReadsAll (start, .start input) (s, w)) : Bounded c s w := by
  refine h.preserves (I := fun x ↦ Bounded c x.1 x.2) ?_ (bounded_start c input)
  rintro ⟨s, w⟩ a ⟨t, u⟩ hb hall hstep
  cases a with
  | client es =>
    exact hb.does (does_of_step hstep.1) hstep.2 fun bytes hes ↦ hall bytes (by rw [hes])
  | server k =>
    obtain ⟨hs, hserve⟩ := hstep
    change t = s at hs
    have hw := serves_of_serve hserve
    rw [hs]
    exact ⟨hw.fitting hb.fitting, hw.fin.trans hb.fin, hb.due.serves hw⟩

/-- Waiting in `Select`. -/
theorem not_stuck_select {c : Room} {w : World} {stdineof : Bool}
    (hb : Bounded c ⟨stdineof, .select⟩ w) (hback : 0 < c.back) :
    ¬ Stuck Client c (⟨stdineof, .select⟩, w) := by
  have hselect (rstdin : Bool) : w.ios c [.ready rstdin w.readable (decide (w.forth.length < c.forth))] =
      some w := by
    rw [World.ios_one]
    exact if_pos ⟨rfl, rfl⟩
  cases stdineof with
  | false => exact not_stuck_of_client (t := ⟨false, .sock w.readable true⟩) rfl (hselect true)
  | true =>
    cases hread : w.readable with
    | true =>
      rw [hread] at hselect
      exact not_stuck_of_client (t := ⟨true, .sock true false⟩) rfl (hselect false)
    | false =>
      simp only [World.readable, Bool.or_eq_false_iff, decide_eq_false_iff_not, not_not] at hread
      rcases hb.fitting.serve_or with ⟨k, u, hu⟩ | hclosed | ⟨-, -, hfin⟩ | ⟨rest, -, hfull⟩
      · exact not_stuck_of_server hu
      · exact absurd hclosed hread.2
      · have := hb.fin
        rw [hfin] at this
        cases this
      · rw [hread.1, List.length_nil] at hfull
        omega

/-- Waiting in `Writen`. -/
theorem not_stuck_send {c : Room} {w : World} {buf : List UInt8}
    (hb : Bounded c ⟨false, .send buf⟩ w) (hclosed : w.server ≠ .closed) (hforth : 0 < c.forth)
    (hback : 2 * maxLine ≤ c.back + 1) : ¬ Stuck Client c (⟨false, .send buf⟩, w) := by
  obtain ⟨hne, hle⟩ := hb.due
  have hpos := List.length_pos_iff.mpr hne
  by_cases hroom : w.forth.length < c.forth
  · have hlen : (buf.take 1).length = 1 := by
      rw [List.length_take]
      omega
    have hbytes : buf.take 1 ≠ [] := List.length_pos_iff.mp (by omega)
    have hpre : buf.take 1 <+: buf := List.take_prefix 1 buf
    have hstep : step ⟨false, .send buf⟩ [.sent (buf.take 1)] =
        some ⟨false, if buf.take 1 = buf then .select else .send (buf.drop (buf.take 1).length)⟩ :=
      if_pos hpre
    refine not_stuck_of_client hstep (u := { w with forth := w.forth ++ buf.take 1 }) ?_
    rw [World.ios_one]
    exact if_pos ⟨hbytes, hb.fin, by rw [hlen]; exact hroom⟩
  · rcases hb.fitting.serve_or with ⟨k, u, hu⟩ | hc | ⟨-, hnil, -⟩ | ⟨rest, hrest, hfull⟩
    · exact not_stuck_of_server hu
    · exact absurd hc hclosed
    · rw [hnil, List.length_nil] at hroom
      omega
    · have hheld : w.server.held.length = rest.length := by rw [hrest]; rfl
      have hrestpos := (hb.fitting.rest rest hrest).1
      unfold World.inFlight at hle
      omega

/-- Everywhere else a call returns. -/
theorem not_stuck {c : Room} {input : List UInt8} {s : StrCli} {w : World} (hb : Bounded c s w)
    (hkept : Kept s) (hflows : Flows input (held s) w) (hforth : 0 < c.forth)
    (hback : 2 * maxLine ≤ c.back + 1) (hreturned : s.pc ≠ .returned) (hquit : s.pc ≠ .quit) :
    ¬ Stuck Client c (s, w) := by
  obtain ⟨stdineof, pc⟩ := s
  have hline : 0 < maxLine := by decide
  cases pc with
  | select => exact not_stuck_select hb (by omega)
  | sock rsock rstdin =>
    cases rsock with
    | false =>
      have hstep : step ⟨stdineof, .sock false rstdin⟩ [] = some ⟨stdineof, .stdin rstdin⟩ := rfl
      exact not_stuck_of_client hstep rfl
    | true =>
      by_cases hnil : w.back = []
      · have hclosed : w.server = .closed := by
          have := hb.due.1
          simpa [World.readable, hnil] using this
        have hstep : step ⟨stdineof, .sock true rstdin⟩ [.sockEof] =
            some ⟨stdineof, if stdineof then .returned else .quit⟩ := rfl
        refine not_stuck_of_client hstep (u := w) ?_
        rw [World.ios_one]
        exact if_pos ⟨hnil, hclosed⟩
      · have hpos := List.length_pos_iff.mpr hnil
        have hbytes : w.back.take maxLine ≠ [] := List.length_pos_iff.mp (by
          rw [List.length_take]
          omega)
        have hfits : Fits (w.back.take maxLine) := List.length_take_le _ _
        have hstep : step ⟨stdineof, .sock true rstdin⟩ [.received (w.back.take maxLine)] =
            some ⟨stdineof, .show (w.back.take maxLine) rstdin⟩ := if_pos hfits
        refine not_stuck_of_client hstep (u := { w with back := w.back.drop (w.back.take maxLine).length }) ?_
        rw [World.ios_one]
        exact if_pos ⟨hbytes, List.take_prefix _ _⟩
  | «show» buf rstdin =>
    have hstep : step ⟨stdineof, .show buf rstdin⟩ [.shown buf] = some ⟨stdineof, .stdin rstdin⟩ :=
      if_pos rfl
    exact not_stuck_of_client hstep (World.ios_one c w _)
  | stdin rstdin =>
    cases rstdin with
    | false =>
      have hstep : step ⟨stdineof, .stdin false⟩ [] = some ⟨stdineof, .select⟩ := rfl
      exact not_stuck_of_client hstep rfl
    | true =>
      by_cases hnil : w.input = []
      · have hstep : step ⟨stdineof, .stdin true⟩ [.stdinEof, .shutdown] = some ⟨true, .select⟩ := rfl
        refine not_stuck_of_client hstep (u := { w with fin := true }) ?_
        simp [World.ios, World.io, hnil]
      · have hpos := List.length_pos_iff.mpr hnil
        have hbytes : w.input.take 1 ≠ [] := List.length_pos_iff.mp (by
          rw [List.length_take]
          omega)
        have hfits : Fits (w.input.take 1) := (List.length_take_le _ _).trans hline
        have hstep : step ⟨stdineof, .stdin true⟩ [.typed (w.input.take 1)] =
            some ⟨stdineof, .send (w.input.take 1)⟩ := if_pos hfits
        refine not_stuck_of_client hstep (u := { w with input := w.input.drop (w.input.take 1).length }) ?_
        rw [World.ios_one]
        exact if_pos ⟨hbytes, List.take_prefix _ _⟩
  | send buf =>
    obtain rfl : stdineof = false := hkept
    refine not_stuck_send hb (fun hclosed ↦ ?_) hforth hback
    have hfin := (hflows.closed hclosed).1
    rw [hb.fin] at hfin
    cases hfin
  | returned => exact absurd rfl hreturned
  | quit => exact absurd rfl hquit

/-! ### With less room -/

/-- The runs in which every `Read` of the socket gives as much as is there. -/
abbrev Gets (c : Room) : StrCli × World → StrCli × World → Prop := RunWith (Step Client c) ReadsAll

section gets
variable {c : Room} {s t : StrCli} {w u : World}

theorem gets_client {e : Io} (h : step s [e] = some t) (hw : w.io c e = some u)
    (he : ∀ bytes, e ≠ .received bytes) : Gets c (s, w) (t, u) := by
  refine RunWith.snoc RunWith.refl (fun bytes hes ↦ ?_) (a := .client [e]) ⟨h, (World.ios_one c w e).trans hw⟩
  cases hes
  exact absurd rfl (he bytes)

theorem gets_skip (h : step s [] = some t) : Gets c (s, w) (t, w) :=
  RunWith.snoc RunWith.refl (fun _ hes ↦ by cases hes) (a := .client []) ⟨h, rfl⟩

theorem gets_server {k : Nat} (hw : w.serve c k = some u) : Gets c (s, w) (s, u) :=
  RunWith.snoc RunWith.refl (fun _ hes ↦ by cases hes) (a := .server k) ⟨rfl, hw⟩

end gets

/-- So many zeros in each place, and nothing shown yet. -/
def zeros (input forth : Nat) (server : Server) (back : Nat) : World :=
  ⟨List.replicate input 0, List.replicate forth 0, false, server, List.replicate back 0, []⟩

section zeros
variable {c : Room} {i f b k m n r : Nat} {v : Server}

theorem io_typed (hn : 0 < n) :
    (zeros (i + n) f v b).io c (.typed (List.replicate n 0)) = some (zeros i f v b) := by
  have hsplit : List.replicate n (0 : UInt8) ++ List.replicate i 0 = List.replicate (i + n) 0 := by
    rw [← List.replicate_add, Nat.add_comm]
  have hne : List.replicate n (0 : UInt8) ≠ [] := by simp [hn.ne']
  refine (if_pos ⟨hne, ⟨_, hsplit⟩⟩).trans ?_
  simp [zeros]

theorem io_sent (hn : 0 < n) (hroom : f + n ≤ c.forth) :
    (zeros i f v b).io c (.sent (List.replicate n 0)) = some (zeros i (f + n) v b) := by
  have hne : List.replicate n (0 : UInt8) ≠ [] := by simp [hn.ne']
  refine (if_pos ⟨hne, rfl, by simpa [zeros] using hroom⟩).trans ?_
  simp [zeros]

theorem serve_read (hk : 0 < k) (hline : k ≤ maxLine) (hf : k ≤ f) :
    (zeros i f .reading b).serve c k =
      some (zeros i (f - k) (.writing (List.replicate k 0)) b) := by
  refine (if_pos ⟨hk, hline, by simpa [zeros] using hf⟩).trans ?_
  simp [zeros, Nat.min_eq_left hf]

theorem serve_write (hk : 0 < k) (hr : k ≤ r) (hroom : b + k ≤ c.back) :
    (zeros i f (.writing (List.replicate r 0)) b).serve c k =
      some (zeros i f (if k = r then .reading else .writing (List.replicate (r - k) 0)) (b + k)) := by
  refine (if_pos ⟨hk, by simpa using hr, by simpa [zeros] using hroom⟩).trans ?_
  simp [zeros, Nat.min_eq_left hr]

/-- Bytes are typed and `Writen` begins, with nothing to read from the socket. -/
theorem gets_typed (hs : v ≠ .closed) (hn : 0 < n) (hline : n ≤ maxLine) :
    Gets c (start, zeros (i + n) f v 0) (⟨false, .send (List.replicate n 0)⟩, zeros i f v 0) := by
  have hselect : step start [.ready true false (decide (f < c.forth))] = some ⟨false, .sock false true⟩ := rfl
  have hskip : step ⟨false, .sock false true⟩ [] = some ⟨false, .stdin true⟩ := rfl
  have hfits : Fits (List.replicate n (0 : UInt8)) := by
    change (List.replicate n (0 : UInt8)).length ≤ maxLine
    rwa [List.length_replicate]
  have htype : step ⟨false, .stdin true⟩ [.typed (List.replicate n 0)] =
      some ⟨false, .send (List.replicate n 0)⟩ := if_pos hfits
  have hio : (zeros (i + n) f v 0).io c (.ready true false (decide (f < c.forth))) =
      some (zeros (i + n) f v 0) := by
    refine if_pos ⟨?_, ?_⟩
    · simp [World.readable, zeros, hs]
    · rw [zeros, List.length_replicate]
  have hwoken : Gets c (start, zeros (i + n) f v 0) (⟨false, .sock false true⟩, zeros (i + n) f v 0) :=
    gets_client hselect hio fun _ ↦ Io.noConfusion
  exact RunWith.trans hwoken (RunWith.trans (gets_skip hskip)
    (gets_client htype (io_typed hn) fun _ ↦ Io.noConfusion))

/-- `Writen` sends some of its bytes. -/
theorem gets_sent (hn : 0 < n) (hm : n < m) (hroom : f + n ≤ c.forth) :
    Gets c (⟨false, .send (List.replicate m 0)⟩, zeros i f v b)
      (⟨false, .send (List.replicate (m - n) 0)⟩, zeros i (f + n) v b) := by
  have hsplit : List.replicate n (0 : UInt8) ++ List.replicate (m - n) 0 = List.replicate m 0 := by
    rw [← List.replicate_add, Nat.add_sub_cancel' hm.le]
  have hne : List.replicate n (0 : UInt8) ≠ List.replicate m 0 := fun he ↦ by
    have := congrArg List.length he
    rw [List.length_replicate, List.length_replicate] at this
    omega
  have hsend : step ⟨false, .send (List.replicate m 0)⟩ [.sent (List.replicate n 0)] =
      some ⟨false, .send (List.replicate (m - n) 0)⟩ := by
    refine (if_pos ⟨_, hsplit⟩).trans ?_
    simp [hne]
  exact gets_client hsend (io_sent hn hroom) fun _ ↦ Io.noConfusion

/-- `Writen` sends all its bytes. -/
theorem gets_sent_all (hn : 0 < n) (hroom : f + n ≤ c.forth) :
    Gets c (⟨false, .send (List.replicate n 0)⟩, zeros i f v b)
      (start, zeros i (f + n) v b) := by
  have hsend : step ⟨false, .send (List.replicate n 0)⟩ [.sent (List.replicate n 0)] = some start := by
    refine (if_pos (List.prefix_refl _)).trans ?_
    simp [start]
  exact gets_client hsend (io_sent hn hroom) fun _ ↦ Io.noConfusion

/-- The way to the server is filled byte by byte while nothing comes back. -/
theorem gets_fill (hs : v ≠ .closed) (hroom : f + n ≤ c.forth) :
    Gets c (start, zeros (i + n) f v 0) (start, zeros i (f + n) v 0) := by
  induction n generalizing f with
  | zero => exact RunWith.refl
  | succ n ih =>
    have htyped : Gets c (start, zeros (i + n + 1) f v 0) _ := gets_typed hs Nat.one_pos (by decide)
    have hsent := gets_sent_all (c := c) (i := i + n) (b := 0) (v := v) Nat.one_pos
      (show f + 1 ≤ c.forth by omega)
    have hrest := ih (f := f + 1) (by omega)
    rw [show f + 1 + n = f + (n + 1) by omega] at hrest
    exact RunWith.trans htyped (RunWith.trans hsent hrest)

/-- With both ways full and bytes left on both sides nothing can happen. -/
theorem stuck_full (hf : c.forth ≤ f) (hb : c.back ≤ b) :
    Stuck Client c (⟨false, .send (List.replicate m 0)⟩,
      zeros i f (.writing (List.replicate r 0)) b) := by
  rintro a ⟨t, u⟩ hstep
  cases a with
  | client es =>
    obtain ⟨hclient, hw⟩ := hstep
    cases does_of_step hclient with
    | send buf bytes hpc hpre =>
      rw [World.ios_one] at hw
      obtain ⟨⟨hne, -, hroom⟩, -⟩ := Option.ite_none_right_eq_some.mp hw
      have hpos := List.length_pos_iff.mpr hne
      change (List.replicate f (0 : UInt8)).length + bytes.length ≤ c.forth at hroom
      rw [List.length_replicate] at hroom
      omega
    | select _ _ _ hpc => cases hpc
    | skipSock _ hpc => cases hpc
    | sockEof _ hpc => cases hpc
    | receive _ _ hpc => cases hpc
    | «show» _ _ hpc => cases hpc
    | skipStdin hpc => cases hpc
    | stdinEof hpc => cases hpc
    | type _ hpc => cases hpc
  | server k =>
    obtain ⟨-, hserve⟩ := hstep
    cases serves_of_serve hserve with
    | read _ hs => cases hs
    | eof hs => cases hs
    | write rest k hs hpos hk hroom =>
      change (List.replicate b (0 : UInt8)).length + k ≤ c.back at hroom
      rw [List.length_replicate] at hroom
      omega

/-- The server holds a buffer full, the way to it is full, and `Writen` begins with a buffer full. -/
theorem gets_brim (hforth : maxLine ≤ c.forth) :
    Gets c (start, .start (List.replicate (c.forth + maxLine + maxLine) 0))
      (⟨false, .send (List.replicate maxLine 0)⟩,
        zeros 0 c.forth (.writing (List.replicate maxLine 0)) 0) := by
  have hline : 0 < maxLine := by decide
  have hfirst : Gets c (start, zeros (c.forth + maxLine + maxLine) 0 .reading 0)
      (start, zeros (c.forth + maxLine) maxLine .reading 0) := by
    have h := gets_fill (c := c) (i := c.forth + maxLine) (f := 0) (n := maxLine) (v := .reading)
      Server.noConfusion (by omega)
    rwa [Nat.zero_add] at h
  have hread : Gets c (start, zeros (c.forth + maxLine) maxLine .reading 0)
      (start, zeros (c.forth + maxLine) 0 (.writing (List.replicate maxLine 0)) 0) := by
    have h := serve_read (c := c) (i := c.forth + maxLine) (f := maxLine) (b := 0) hline
      (Nat.le_refl _) (Nat.le_refl _)
    rw [Nat.sub_self] at h
    exact gets_server h
  have hsecond : Gets c (start, zeros (c.forth + maxLine) 0 (.writing (List.replicate maxLine 0)) 0)
      (start, zeros maxLine c.forth (.writing (List.replicate maxLine 0)) 0) := by
    have h := gets_fill (c := c) (i := maxLine) (f := 0) (n := c.forth)
      (v := .writing (List.replicate maxLine 0)) Server.noConfusion (by omega)
    rwa [Nat.zero_add, Nat.add_comm maxLine] at h
  have hlast : Gets c (start, zeros maxLine c.forth (.writing (List.replicate maxLine 0)) 0)
      (⟨false, .send (List.replicate maxLine 0)⟩,
        zeros 0 c.forth (.writing (List.replicate maxLine 0)) 0) := by
    have h := gets_typed (c := c) (i := 0) (f := c.forth) (n := maxLine)
      (v := .writing (List.replicate maxLine 0)) Server.noConfusion hline (Nat.le_refl _)
    rwa [Nat.zero_add] at h
  exact RunWith.trans hfirst (RunWith.trans hread (RunWith.trans hsecond hlast))

/-- With less room than that for two buffers the client and the server can wait for each other. -/
theorem gets_stuck (hforth : maxLine ≤ c.forth) (hback : c.back + 1 < 2 * maxLine) :
    ∃ input x, Gets c (start, .start input) x ∧ x.1.pc ≠ .returned ∧ Stuck Client c x := by
  have hbrim := gets_brim hforth
  by_cases hsmall : c.back < maxLine
  · -- The server cannot write all it has.
    have hmid : Gets c (⟨false, .send (List.replicate maxLine 0)⟩,
          zeros 0 c.forth (.writing (List.replicate maxLine 0)) 0)
        (⟨false, .send (List.replicate maxLine 0)⟩,
          zeros 0 c.forth (.writing (List.replicate (maxLine - c.back) 0)) c.back) := by
      by_cases hzero : c.back = 0
      · rw [hzero, Nat.sub_zero]
        exact RunWith.refl
      · have h := serve_write (c := c) (i := 0) (f := c.forth) (b := 0) (Nat.pos_of_ne_zero hzero)
          hsmall.le (by omega)
        rw [if_neg hsmall.ne, Nat.zero_add] at h
        exact gets_server h
    exact ⟨_, _, RunWith.trans hbrim hmid, Pc.noConfusion, stuck_full (Nat.le_refl _) (Nat.le_refl _)⟩
  · -- It writes all it has, and of the next bytes all but one.
    obtain ⟨k, hk⟩ : ∃ k, c.back = maxLine + k := ⟨c.back - maxLine, by omega⟩
    have hline : 0 < maxLine := by decide
    have hwrite : Gets c (⟨false, .send (List.replicate maxLine 0)⟩,
          zeros 0 c.forth (.writing (List.replicate maxLine 0)) 0)
        (⟨false, .send (List.replicate maxLine 0)⟩, zeros 0 c.forth .reading maxLine) := by
      have h := serve_write (c := c) (i := 0) (f := c.forth) (b := 0) hline (Nat.le_refl _) (by omega)
      rw [if_pos rfl, Nat.zero_add] at h
      exact gets_server h
    have hmore : Gets c (⟨false, .send (List.replicate maxLine 0)⟩, zeros 0 c.forth .reading maxLine)
        (⟨false, .send (List.replicate maxLine 0)⟩, zeros 0 (c.forth - k) .reading (maxLine + k)) := by
      by_cases hzero : k = 0
      · rw [hzero]
        exact RunWith.refl
      · have hread := serve_read (c := c) (i := 0) (b := maxLine) (f := c.forth) (k := k)
          (Nat.pos_of_ne_zero hzero) (by omega) (by omega)
        have hwrite := serve_write (c := c) (i := 0) (f := c.forth - k) (b := maxLine)
          (Nat.pos_of_ne_zero hzero) (Nat.le_refl k) (by omega)
        rw [if_pos rfl] at hwrite
        exact RunWith.trans (gets_server hread) (gets_server hwrite)
    have hone : Gets c (⟨false, .send (List.replicate maxLine 0)⟩, zeros 0 (c.forth - k) .reading (maxLine + k))
        (⟨false, .send (List.replicate maxLine 0)⟩,
          zeros 0 (c.forth - k - 1) (.writing (List.replicate 1 0)) (maxLine + k)) :=
      gets_server (serve_read Nat.one_pos (by decide) (by omega))
    have hsend : Gets c (⟨false, .send (List.replicate maxLine 0)⟩,
          zeros 0 (c.forth - k - 1) (.writing (List.replicate 1 0)) (maxLine + k))
        (⟨false, .send (List.replicate (maxLine - (k + 1)) 0)⟩,
          zeros 0 (c.forth - k - 1 + (k + 1)) (.writing (List.replicate 1 0)) (maxLine + k)) :=
      gets_sent (Nat.succ_pos k) (by omega) (by omega)
    exact ⟨_, _, RunWith.trans hbrim (RunWith.trans hwrite (RunWith.trans hmore (RunWith.trans hone hsend))),
      Pc.noConfusion, stuck_full (by omega) (by omega)⟩

end zeros

end Unpv13e.Echo.Select02
