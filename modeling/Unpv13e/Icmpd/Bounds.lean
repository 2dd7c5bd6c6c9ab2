import Unpv13e.Base.Fields
import Unpv13e.Base.Memory
import Unpv13e.Icmpd.Delivery

/-!
# What the daemon reads of a message

Library `Icmpd`. The fields that `readable_v4` and `readable_v6` read of the array `Recvfrom` filled, in the
order of `src/icmpd/readable_v4.c:28–68` and `src/icmpd/readable_v6.c:34–71`, those they print included. After
the bytes received the array holds what was there before.
-/

namespace Unpv13e.Icmpd
open Unpv13e.Base

/-- The array: the bytes received, and what is after them. -/
def memory (buf : List UInt8) (stale : Nat → UInt8) : Nat → UInt8 := overwrite stale 0 buf

namespace Daemon

/-- Some client is told of an error for the UDP header at this offset. -/
def Told (s : Daemon) (family : Nat) (m : Nat → UInt8) (udp : Nat) : Prop :=
  s.addressees family (port (m udp) (m (udp + 1))) ≠ []

instance (s : Daemon) (family : Nat) (m : Nat → UInt8) (udp : Nat) : Decidable (s.Told family m udp) :=
  inferInstanceAs (Decidable (_ ≠ []))

/-- `uh_sport`, and for a client `uh_dport`. -/
def ports (s : Daemon) (family : Nat) (m : Nat → UInt8) (udp : Nat) : List Field :=
  ⟨udp, 2⟩ :: if s.Told family m udp then [⟨udp + 2, 2⟩] else []

/-- Where `readable_v4` finds the UDP header. -/
def udp4 (m : Nat → UInt8) : Nat := headerLen (m 0) + (8 + headerLen (m (headerLen (m 0) + 8)))

/-- The fields `readable_v4` reads of a message of `n` bytes, `src/icmpd/readable_v4.c:28–68`. -/
def fields4 (s : Daemon) (m : Nat → UInt8) (n : Nat) : List Field :=
  ⟨0, 1⟩ ::
    if n < headerLen (m 0) + 8 then []
    else
      ⟨headerLen (m 0), 1⟩ :: ⟨headerLen (m 0) + 1, 1⟩ ::
        if m (headerLen (m 0)) ∈ types4 then
          if n < headerLen (m 0) + (8 + 20 + 8) then []
          else
            ⟨headerLen (m 0) + 8, 1⟩ :: ⟨headerLen (m 0) + (8 + 12), 4⟩ :: ⟨headerLen (m 0) + (8 + 16), 4⟩ ::
              ⟨headerLen (m 0) + (8 + 9), 1⟩ ::
                if m (headerLen (m 0) + (8 + 9)) = 17 then s.ports afInet m (udp4 m) else []
        else []

/-- The fields `readable_v6` reads of a message of `n` bytes, `src/icmpd/readable_v6.c:34–71`. -/
def fields6 (s : Daemon) (m : Nat → UInt8) (n : Nat) : List Field :=
  if n < 8 then []
  else
    ⟨0, 1⟩ :: ⟨1, 1⟩ ::
      if m 0 ∈ types6 then
        if n < 8 + 8 then []
        else
          ⟨8 + 8, 16⟩ :: ⟨8 + 24, 16⟩ :: ⟨8 + 6, 1⟩ ::
            if m (8 + 6) = 17 then s.ports afInet6 m (8 + 40) else []
      else []

/-- The message has passed the checks of `readable_v4` for one that quotes a UDP datagram. -/
def Quotes4 (m : Nat → UInt8) (n : Nat) : Prop :=
  headerLen (m 0) + (8 + 20 + 8) ≤ n ∧ m (headerLen (m 0)) ∈ types4 ∧ m (headerLen (m 0) + (8 + 9)) = 17

/-- The message has passed the length check of `readable_v6` for an error. -/
def Long6 (m : Nat → UInt8) (n : Nat) : Prop := 8 + 8 ≤ n ∧ m 0 ∈ types6

/-- It has passed those for one that quotes a UDP datagram. -/
def Quotes6 (m : Nat → UInt8) (n : Nat) : Prop := Long6 m n ∧ m (8 + 6) = 17

/-- It is forwarded to some client. -/
def Forwards4 (s : Daemon) (m : Nat → UInt8) (n : Nat) : Prop := Quotes4 m n ∧ s.Told afInet m (udp4 m)

/-- It is forwarded to some client. -/
def Forwards6 (s : Daemon) (m : Nat → UInt8) (n : Nat) : Prop := Quotes6 m n ∧ s.Told afInet6 m (8 + 40)

/-- The source port has been received, and for a client the destination port. -/
def PortsReceived (s : Daemon) (family : Nat) (m : Nat → UInt8) (udp n : Nat) : Prop :=
  udp + 2 ≤ n ∧ (s.Told family m udp → udp + 4 ≤ n)

variable {s : Daemon} {family udp n : Nat} {m : Nat → UInt8}

/-! ### The fields and the received bytes -/

private theorem within_ports : Within (s.ports family m udp) n ↔ PortsReceived s family m udp n := by
  unfold ports PortsReceived
  rw [within_cons]
  apply and_congr Iff.rfl
  split
  · next htold =>
    rw [within_cons]
    exact ⟨fun h _ ↦ h.1, fun h ↦ ⟨h htold, within_nil⟩⟩
  · next htold => exact ⟨fun _ h ↦ absurd h htold, fun _ ↦ within_nil⟩

/-- All fields have been received exactly when there is a first byte, and the ports of a quoted UDP datagram
have been received. -/
theorem within_fields4 : Within (s.fields4 m n) n ↔
    0 < n ∧ (Quotes4 m n → PortsReceived s afInet m (udp4 m) n) := by
  unfold fields4 Quotes4
  rw [within_cons]
  apply and_congr Iff.rfl
  split
  · next hshort => exact ⟨fun _ h ↦ by omega, fun _ ↦ within_nil⟩
  · next hlong =>
    rw [within_cons, within_cons]
    split
    · next htype =>
      split
      · next hshort =>
        refine ⟨fun _ h ↦ by omega, fun _ ↦ ⟨?_, ?_, within_nil⟩⟩ <;> omega
      · next hquote =>
        rw [within_cons, within_cons, within_cons, within_cons]
        split
        · next hudp =>
          rw [within_ports]
          constructor
          · rintro ⟨-, -, -, -, -, -, hports⟩ -
            exact hports
          · intro h
            refine ⟨?_, ?_, ?_, ?_, ?_, ?_, h ⟨by omega, htype, hudp⟩⟩ <;> omega
        · next hudp =>
          refine ⟨fun _ h ↦ absurd h.2.2 hudp, fun _ ↦ ⟨?_, ?_, ?_, ?_, ?_, ?_, within_nil⟩⟩ <;>
            omega
    · next htype =>
      refine ⟨fun _ h ↦ absurd h.2.1 htype, fun _ ↦ ⟨?_, ?_, within_nil⟩⟩ <;> omega

/-- All fields have been received exactly when the quoted IPv6 header of an error has been, and the ports of a
quoted UDP datagram. -/
theorem within_fields6 : Within (s.fields6 m n) n ↔
    (Long6 m n → 8 + 40 ≤ n) ∧ (Quotes6 m n → PortsReceived s afInet6 m (8 + 40) n) := by
  unfold fields6 Quotes6 Long6
  split
  · next hshort => exact ⟨fun _ ↦ ⟨fun h ↦ by omega, fun h ↦ by omega⟩, fun _ ↦ within_nil⟩
  · next hlong =>
    rw [within_cons, within_cons]
    split
    · next htype =>
      split
      · next hshort =>
        refine ⟨fun _ ↦ ⟨fun h ↦ by omega, fun h ↦ by omega⟩, fun _ ↦ ⟨?_, ?_, within_nil⟩⟩ <;>
          omega
      · next hquote =>
        rw [within_cons, within_cons, within_cons]
        split
        · next hudp =>
          rw [within_ports]
          constructor
          · rintro ⟨-, -, -, hdst, -, hports⟩
            exact ⟨fun _ ↦ hdst, fun _ ↦ hports⟩
          · rintro ⟨hip, hports⟩
            have hlen := hip ⟨by omega, htype⟩
            refine ⟨?_, ?_, ?_, ?_, ?_, hports ⟨⟨by omega, htype⟩, hudp⟩⟩ <;> omega
        · next hudp =>
          constructor
          · rintro ⟨-, -, -, hdst, -⟩
            exact ⟨fun _ ↦ hdst, fun h ↦ absurd h.2 hudp⟩
          · rintro ⟨hip, -⟩
            have hlen := hip ⟨by omega, htype⟩
            refine ⟨?_, ?_, ?_, ?_, ?_, within_nil⟩ <;> omega
    · next htype =>
      refine ⟨fun _ ↦ ⟨fun h ↦ absurd h.2 htype, fun h ↦ absurd h.1.2 htype⟩,
        fun _ ↦ ⟨?_, ?_, within_nil⟩⟩ <;> omega

/-! ### The daemon -/

variable {buf : List UInt8} (stale : Nat → UInt8)

private theorem byteAt_memory {k : Nat} (h : k < buf.length) : byteAt buf k = .ok (memory buf stale k) := by
  have hcell : memory buf stale (0 + k) = buf[k] := overwrite_add h
  rw [Nat.zero_add] at hcell
  unfold byteAt
  rw [List.getElem?_eq_getElem h, hcell]

private theorem portAt_memory {k : Nat} (h : k + 2 ≤ buf.length) :
    portAt buf k = .ok (port (memory buf stale k) (memory buf stale (k + 1))) := by
  unfold portAt
  rw [byteAt_memory stale (by omega), ok_bind, byteAt_memory stale (by omega), ok_bind]

private theorem bytesAt_ok {k len : Nat} (h : k + len ≤ buf.length) :
    bytesAt buf k len = .ok ((buf.drop k).take len) := by
  unfold bytesAt
  exact if_pos h

/-- What the clients are told of a quoted datagram whose ports have been received. -/
private theorem tell_quote {q : Quote} {err : Quote → Except Stop IcmpdErr}
    (hports : PortsReceived s family (memory buf stale) q.udp buf.length)
    (herr : s.Told family (memory buf stale) q.udp → ∃ e, err q = .ok e) :
    ∃ ws, s.tell family buf err (some q) = .ok ws ∧ (ws ≠ [] ↔ s.Told family (memory buf stale) q.udp) := by
  unfold tell Told at *
  dsimp only
  rw [portAt_memory stale hports.1, ok_bind]
  by_cases hnone : s.addressees family (port (memory buf stale q.udp) (memory buf stale (q.udp + 1))) = []
  · rw [hnone]
    exact ⟨[], rfl, fun h ↦ absurd rfl h, fun h ↦ absurd rfl h⟩
  · obtain ⟨e, he⟩ := herr hnone
    rw [he, writeAll_ok]
    refine ⟨_, rfl, ?_⟩
    rw [Ne, List.map_eq_nil_iff]

/-- What `readable_v4` finds in a message with a first byte. -/
private theorem parse4_memory (hpos : 0 < buf.length) : parse4 buf = .error .blocked ∨
    (parse4 buf = .ok none ∧ ¬ Quotes4 (memory buf stale) buf.length) ∨
    ∃ q, parse4 buf = .ok (some q) ∧ q.hip = headerLen (memory buf stale 0) + 8 ∧
      q.udp = udp4 (memory buf stale) ∧ Quotes4 (memory buf stale) buf.length := by
  unfold parse4 Quotes4
  rw [byteAt_memory stale hpos, ok_bind]
  by_cases hshort : buf.length < headerLen (memory buf stale 0) + 8
  · exact .inl (if_pos hshort)
  rw [if_neg hshort, byteAt_memory stale (by omega), ok_bind,
    byteAt_memory stale (by omega), ok_bind]
  by_cases htype : memory buf stale (headerLen (memory buf stale 0)) ∈ types4
  · rw [if_pos htype]
    by_cases hquote : buf.length < headerLen (memory buf stale 0) + (8 + 20 + 8)
    · exact .inl (if_pos hquote)
    rw [if_neg hquote, byteAt_memory stale (by omega), ok_bind,
      byteAt_memory stale (by omega), ok_bind]
    by_cases hudp : memory buf stale (headerLen (memory buf stale 0) + (8 + 9)) = 17
    · rw [if_pos hudp]
      exact .inr (.inr ⟨_, rfl, rfl, rfl, Nat.le_of_not_lt hquote, htype, hudp⟩)
    · rw [if_neg hudp]
      exact .inr (.inl ⟨rfl, fun h ↦ hudp h.2.2⟩)
  · rw [if_neg htype]
    exact .inr (.inl ⟨rfl, fun h ↦ htype h.2.1⟩)

/-- What `readable_v6` finds. -/
private theorem parse6_memory (buf : List UInt8) (stale : Nat → UInt8) : parse6 buf = .error .blocked ∨
    (parse6 buf = .ok none ∧ ¬ Quotes6 (memory buf stale) buf.length) ∨
    ∃ q, parse6 buf = .ok (some q) ∧ q.hip = 8 ∧ q.udp = 8 + 40 ∧
      Quotes6 (memory buf stale) buf.length := by
  unfold parse6 Quotes6 Long6
  by_cases hshort : buf.length < 8
  · exact .inl (if_pos hshort)
  rw [if_neg hshort, byteAt_memory stale (by omega), ok_bind,
    byteAt_memory stale (by omega), ok_bind]
  by_cases htype : memory buf stale 0 ∈ types6
  · rw [if_pos htype]
    by_cases hquote : buf.length < 8 + 8
    · exact .inl (if_pos hquote)
    rw [if_neg hquote, byteAt_memory stale (by omega), ok_bind]
    by_cases hudp : memory buf stale (8 + 6) = 17
    · rw [if_pos hudp]
      exact .inr (.inr ⟨_, rfl, rfl, rfl, ⟨Nat.le_of_not_lt hquote, htype⟩, hudp⟩)
    · rw [if_neg hudp]
      exact .inr (.inl ⟨rfl, fun h ↦ hudp h.2⟩)
  · rw [if_neg htype]
    exact .inr (.inl ⟨rfl, fun h ↦ htype h.1.2⟩)

/-- When all fields have been received `readable_v4` gives up or tells the clients of a quoted datagram. -/
theorem readable_v4_of_within (h : Within (s.fields4 (memory buf stale) buf.length) buf.length) :
    s.readable_v4 buf = .error .blocked ∨ ∃ t ws, s.readable_v4 buf = .ok (t, ws) ∧
      (ws ≠ [] ↔ s.Forwards4 (memory buf stale) buf.length) := by
  obtain ⟨hpos, hports⟩ := within_fields4.mp h
  unfold readable_v4
  rcases parse4_memory stale hpos with hp | ⟨hp, hno⟩ | ⟨q, hp, hhip, hudp, hquotes⟩
  · rw [hp]
    exact .inl rfl
  · rw [hp]
    exact .inr ⟨_, [], rfl, fun h ↦ absurd rfl h, fun h ↦ absurd h.1 hno⟩
  · have hreceived := hports hquotes
    rw [← hudp] at hreceived
    have herr : s.Told afInet (memory buf stale) q.udp → ∃ e, icmpdErr4 buf q = .ok e := by
      intro htold
      have hlen := hquotes.1
      have hdport := hreceived.2 htold
      unfold icmpdErr4
      rw [bytesAt_ok (by rw [hhip]; omega), ok_bind, portAt_memory stale (by omega), ok_bind]
      exact ⟨_, rfl⟩
    obtain ⟨ws, hws, htold⟩ := tell_quote stale hreceived herr
    rw [hp, ok_bind, hws, ok_bind]
    refine .inr ⟨_, ws, rfl, ?_⟩
    rw [htold, hudp]
    exact ⟨fun ht ↦ ⟨hquotes, ht⟩, fun ht ↦ ht.2⟩

/-- When all fields have been received `readable_v6` gives up or tells the clients of a quoted datagram. -/
theorem readable_v6_of_within (h : Within (s.fields6 (memory buf stale) buf.length) buf.length) :
    s.readable_v6 buf = .error .blocked ∨ ∃ t ws, s.readable_v6 buf = .ok (t, ws) ∧
      (ws ≠ [] ↔ s.Forwards6 (memory buf stale) buf.length) := by
  obtain ⟨hip, hports⟩ := within_fields6.mp h
  unfold readable_v6
  rcases parse6_memory buf stale with hp | ⟨hp, hno⟩ | ⟨q, hp, hhip, hudp, hquotes⟩
  · rw [hp]
    exact .inl rfl
  · rw [hp]
    exact .inr ⟨_, [], rfl, fun h ↦ absurd rfl h, fun h ↦ absurd h.1 hno⟩
  · have hreceived := hports hquotes
    rw [← hudp] at hreceived
    have herr : s.Told afInet6 (memory buf stale) q.udp → ∃ e, icmpdErr6 buf q = .ok e := by
      intro htold
      have hlen := hip hquotes.1
      have hdport := hreceived.2 htold
      unfold icmpdErr6
      rw [bytesAt_ok (by rw [hhip]; omega), ok_bind, portAt_memory stale (by omega), ok_bind]
      exact ⟨_, rfl⟩
    obtain ⟨ws, hws, htold⟩ := tell_quote stale hreceived herr
    rw [hp, ok_bind, hws, ok_bind]
    refine .inr ⟨_, ws, rfl, ?_⟩
    rw [htold, hudp]
    exact ⟨fun ht ↦ ⟨hquotes, ht⟩, fun ht ↦ ht.2⟩

/-- What the two functions read has been received, and what they forward has been received whole, exactly when
the headers and the ports lie in the bytes received that no length check asks for. -/
theorem reads_received (s : Daemon) (buf : List UInt8) (stale : Nat → UInt8) :
    (Within (s.fields4 (memory buf stale) buf.length) buf.length ↔ 0 < buf.length ∧
      (Quotes4 (memory buf stale) buf.length →
        PortsReceived s afInet (memory buf stale) (udp4 (memory buf stale)) buf.length)) ∧
    ((s.Forwards4 (memory buf stale) buf.length →
        Within (s.fields4 (memory buf stale) buf.length) buf.length) ↔
      (s.Forwards4 (memory buf stale) buf.length → udp4 (memory buf stale) + 4 ≤ buf.length)) ∧
    (Within (s.fields6 (memory buf stale) buf.length) buf.length ↔
      (Long6 (memory buf stale) buf.length → 8 + 40 ≤ buf.length) ∧
      (Quotes6 (memory buf stale) buf.length →
        PortsReceived s afInet6 (memory buf stale) (8 + 40) buf.length)) ∧
    ((s.Forwards6 (memory buf stale) buf.length →
        Within (s.fields6 (memory buf stale) buf.length) buf.length) ↔
      (s.Forwards6 (memory buf stale) buf.length → 8 + 40 + 4 ≤ buf.length)) := by
  refine ⟨within_fields4, forall_congr' fun h ↦ ?_, within_fields6, forall_congr' fun h ↦ ?_⟩
  · obtain ⟨hquotes, htold⟩ := h
    have hlen := hquotes.1
    rw [within_fields4]
    constructor
    · rintro ⟨-, hports⟩
      exact (hports hquotes).2 htold
    · intro hudp
      exact ⟨by omega, fun _ ↦ ⟨by omega, fun _ ↦ hudp⟩⟩
  · obtain ⟨hquotes, htold⟩ := h
    rw [within_fields6]
    constructor
    · rintro ⟨-, hports⟩
      exact (hports hquotes).2 htold
    · intro hudp
      exact ⟨fun _ ↦ by omega, fun _ ↦ ⟨by omega, fun _ ↦ hudp⟩⟩

/-- A destination unreachable message of 56 bytes: it quotes the first 28 bytes of an IP header of 60. -/
private def longHeader : List UInt8 :=
  (0x45 :: List.replicate 19 0) ++ [3, 3, 0, 0, 0, 0, 0, 0] ++ (0x4f :: List.replicate 8 0) ++
    (17 :: List.replicate 18 0)

/-- What an earlier message has left in the array: port 1000 where the UDP header would be. -/
private def earlier (k : Nat) : UInt8 := if k = 88 then 3 else if k = 89 then 232 else 0

/-- A client has registered for port 1000. The message is forwarded to it, for a port that it does not
contain. -/
theorem forwards_stale_port : ∃ s₀ s, start 3 4 5 = .ok s₀ ∧ Run Step s₀ s ∧
    s.Forwards4 (memory longHeader earlier) longHeader.length ∧
    ¬ Within (s.fields4 (memory longHeader earlier) longHeader.length) longHeader.length := by
  let acts : List Act := [.select {5}, .accept 6, .select {6}, .pass, .pass, .pass,
    .request (.socket afInet 1000 none)]
  have hrun : (start 3 4 5 >>= fun s ↦ runActs step s acts).toOption.map
      (fun s ↦ decide (s.conn 0 = some 6 ∧ (s.client 0).family = afInet ∧
        (s.client 0).lport = 1000)) = some true := by decide +kernel
  obtain ⟨s₀, s, hstart, hs, hend⟩ := exists_of_runActs hrun
  obtain ⟨hconn, hfam, hport⟩ := of_decide_eq_true hend
  have hrun := run_of_runActs step acts s₀ s hs
  have hmem : 6 ∈ s.addressees afInet 1000 :=
    (mem_addressees (kept_of_run hstart hrun)).mpr ⟨0, hconn, hfam, hport⟩
  have hforwards : s.Forwards4 (memory longHeader earlier) longHeader.length := by
    refine ⟨⟨by decide, by decide, by decide⟩, ?_⟩
    unfold Told
    have hsport : port (memory longHeader earlier (udp4 (memory longHeader earlier)))
        (memory longHeader earlier (udp4 (memory longHeader earlier) + 1)) = 1000 := by decide
    rw [hsport]
    exact List.ne_nil_of_mem hmem
  refine ⟨s₀, s, hstart, hrun, hforwards, fun hwithin ↦ ?_⟩
  have hports := (within_fields4.mp hwithin).2 hforwards.1
  exact absurd hports.1 (by decide)

end Daemon
end Unpv13e.Icmpd
