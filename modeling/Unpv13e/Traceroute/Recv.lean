import Unpv13e.Base.Fields
import Unpv13e.Base.Memory
import Unpv13e.Icmpd.Message

/-!
# Waiting for the reply to a probe

Library `Traceroute`. `recv_v4` and `recv_v6`, `src/traceroute/recv_v4.c:12–91` and
`src/traceroute/recv_v6.c:12–82`: messages are received until one answers the probe or the alarm expires. The
array `recvbuf` keeps what earlier messages left in it. Numbers are as read in network byte order.
-/

namespace Unpv13e.Traceroute
open Unpv13e.Base
open Unpv13e.Icmpd (port headerLen)

/-- The ports of a probe, and the argument `seq`. -/
structure Probe where
  sport : UInt16
  dport : UInt16
  seq : Int

/-- The port the probe was sent to, `htons(dport + seq)`. -/
def Probe.target (p : Probe) : Nat := ((p.dport.toNat + p.seq) % 65536).toNat

/-- What `recvfrom` returns. `alarm` says that SIGALRM comes before `gotalarm` is looked at. -/
inductive Event
  | datagram (buf : List UInt8) (alarm : Bool)
  /-- `-1` with `errno == EINTR` -/
  | interrupted (alarm : Bool)

/-- What becomes of a message of `n` bytes: nothing, or `ret` and the end of the loop. -/
abbrev Judge := (Nat → UInt8) → Nat → Option (Except Stop Int)

/-- The loop, `gotalarm` being looked at first: `src/traceroute/recv_v4.c:24–90`. `none` when it waits. -/
def recv (judge : Judge) : Bool → (Nat → UInt8) → List Event → Option (Except Stop Int)
  | true, _, _ => some (.ok (-3))
  | false, _, [] => none
  | false, m, .interrupted alarm :: es => recv judge alarm m es
  | false, m, .datagram buf alarm :: es =>
    match judge (overwrite m 0 buf) buf.length with
    | some ret => some ret
    | none => recv judge alarm (overwrite m 0 buf) es

/-! ### The two functions -/

/-- Where the quoted UDP header begins, `src/traceroute/recv_v4.c:53`. -/
def udp4 (m : Nat → UInt8) : Nat := headerLen (m 0) + (8 + headerLen (m (headerLen (m 0) + 8)))

/-- `src/traceroute/recv_v4.c:54–56`, and again 71–73. -/
def own4 (p : Probe) (m : Nat → UInt8) : Prop :=
  m (headerLen (m 0) + (8 + 9)) = 17 ∧ port (m (udp4 m)) (m (udp4 m + 1)) = p.sport.toNat ∧
    port (m (udp4 m + 2)) (m (udp4 m + 3)) = p.target

/-- `src/traceroute/recv_v6.c:49–51`, and again 62–64. -/
def own6 (p : Probe) (m : Nat → UInt8) : Prop :=
  m (8 + 6) = 17 ∧ port (m (8 + 40)) (m (8 + 40 + 1)) = p.sport.toNat ∧
    port (m (8 + 40 + 2)) (m (8 + 40 + 3)) = p.target

instance (p : Probe) (m : Nat → UInt8) : Decidable (own4 p m) := inferInstanceAs (Decidable (_ ∧ _ ∧ _))

instance (p : Probe) (m : Nat → UInt8) : Decidable (own6 p m) := inferInstanceAs (Decidable (_ ∧ _ ∧ _))

/-- `src/traceroute/recv_v4.c:36–80` -/
def judge4 (p : Probe) : Judge := fun m n ↦
  if n < headerLen (m 0) + 8 then none
  else if m (headerLen (m 0)) = 11 ∧ m (headerLen (m 0) + 1) = 0 then
    if n < headerLen (m 0) + (8 + 20) then none
    else if n < udp4 m + 4 then none
    else if own4 p m then some (.ok (-2)) else none
  else if m (headerLen (m 0)) = 3 then
    if n < headerLen (m 0) + (8 + 20) then none
    else if n < udp4 m + 4 then none
    else if own4 p m then
      some (.ok (if m (headerLen (m 0) + 1) = 3 then -1 else (m (headerLen (m 0) + 1)).toNat))
    else none
  else none

/-- `src/traceroute/recv_v6.c:37–75`. The first `break` is not under the `if` before it. -/
def judge6 (p : Probe) : Judge := fun m n ↦
  if n < 8 then none
  else if m 0 = 3 ∧ m 1 = 0 then
    if n < 8 + 40 + 4 then none
    else some (if own6 p m then .ok (-2) else .error .indeterminate)
  else if m 0 = 1 then
    if n < 8 + 40 + 4 then none
    else if own6 p m then some (.ok (if m 1 = 4 then -1 else (m 1).toNat)) else none
  else none

/-- The fields `recv_v4` looks at. -/
def fields4 (m : Nat → UInt8) (n : Nat) : List Field :=
  ⟨0, 1⟩ ::
    if n < headerLen (m 0) + 8 then []
    else
      ⟨headerLen (m 0), 1⟩ :: ⟨headerLen (m 0) + 1, 1⟩ ::
        if (m (headerLen (m 0)) = 11 ∧ m (headerLen (m 0) + 1) = 0) ∨ m (headerLen (m 0)) = 3 then
          if n < headerLen (m 0) + (8 + 20) then []
          else
            ⟨headerLen (m 0) + 8, 1⟩ ::
              if n < udp4 m + 4 then []
              else [⟨headerLen (m 0) + (8 + 9), 1⟩, ⟨udp4 m, 2⟩, ⟨udp4 m + 2, 2⟩]
        else []

/-- The fields `recv_v6` looks at. -/
def fields6 (m : Nat → UInt8) (n : Nat) : List Field :=
  if n < 8 then []
  else
    ⟨0, 1⟩ :: ⟨1, 1⟩ ::
      if (m 0 = 3 ∧ m 1 = 0) ∨ m 0 = 1 then
        if n < 8 + 40 + 4 then [] else [⟨8 + 6, 1⟩, ⟨8 + 40, 2⟩, ⟨8 + 40 + 2, 2⟩]
      else []

/-! ### Replies -/

/-- The bytes at `k` in what was received are a port. -/
def PortAt (buf : List UInt8) (k x : Nat) : Prop :=
  ∃ a b, buf[k]? = some a ∧ buf[k + 1]? = some b ∧ port a b = x

/-- An ICMPv4 message of this type and code, received with its IP header, that quotes a UDP datagram with these
ports. The quoted IP header has 20 bytes at least and is as long as it says. -/
def Quotes4 (buf : List UInt8) (type code : UInt8) (sport dport : Nat) : Prop :=
  ∃ ip hip, buf[0]? = some ip ∧ buf[headerLen ip]? = some type ∧ buf[headerLen ip + 1]? = some code ∧
    headerLen ip + (8 + 20) ≤ buf.length ∧ buf[headerLen ip + 8]? = some hip ∧
    buf[headerLen ip + (8 + 9)]? = some 17 ∧
    PortAt buf (headerLen ip + (8 + headerLen hip)) sport ∧
    PortAt buf (headerLen ip + (8 + headerLen hip) + 2) dport

/-- An ICMPv6 message of this type and code that quotes a UDP datagram with these ports. -/
def Quotes6 (buf : List UInt8) (type code : UInt8) (sport dport : Nat) : Prop :=
  buf[0]? = some type ∧ buf[1]? = some code ∧ buf[8 + 6]? = some 17 ∧
    PortAt buf (8 + 40) sport ∧ PortAt buf (8 + 40 + 2) dport

/-- The messages that answer a probe, with the value they have: `exceeded` in transit, the port unreachable, or
unreachable for another reason. -/
inductive Answer (quotes : UInt8 → UInt8 → Prop) (exceeded unreach noport : UInt8) : Int → Prop
  | transit (h : quotes exceeded 0) : Answer quotes exceeded unreach noport (-2)
  | reached (h : quotes unreach noport) : Answer quotes exceeded unreach noport (-1)
  | unreachable (code : UInt8) (hcode : code ≠ noport) (h : quotes unreach code) :
    Answer quotes exceeded unreach noport code.toNat

/-- What a received ICMPv4 message answers. -/
def Answers4 (p : Probe) (buf : List UInt8) : Int → Prop :=
  Answer (fun type code ↦ Quotes4 buf type code p.sport.toNat p.target) 11 3 3

/-- What a received ICMPv6 message answers. -/
def Answers6 (p : Probe) (buf : List UInt8) : Int → Prop :=
  Answer (fun type code ↦ Quotes6 buf type code p.sport.toNat p.target) 3 1 4

/-- What a call is to return: the value of the first message that answers the probe, unless the alarm has come
before; other messages are ignored. -/
inductive Outcome (answers : List UInt8 → Int → Prop) : Bool → List Event → Option Int → Prop
  | timeout (es : List Event) : Outcome answers true es (some (-3))
  | waiting : Outcome answers false [] none
  | interrupted {alarm : Bool} {es : List Event} {r : Option Int} (h : Outcome answers alarm es r) :
    Outcome answers false (.interrupted alarm :: es) r
  | ignored {buf : List UInt8} {alarm : Bool} {es : List Event} {r : Option Int}
    (hno : ∀ v, ¬ answers buf v) (h : Outcome answers alarm es r) :
    Outcome answers false (.datagram buf alarm :: es) r
  | answered {buf : List UInt8} {alarm : Bool} {es : List Event} {v : Int} (hv : answers buf v) :
    Outcome answers false (.datagram buf alarm :: es) (some v)

/-- All messages up to the one that answers the probe, or to the alarm, are of a kind. -/
inductive Each (answers : List UInt8 → Int → Prop) (kind : List UInt8 → Prop) : Bool → List Event → Prop
  | timeout (es : List Event) : Each answers kind true es
  | waiting : Each answers kind false []
  | interrupted {alarm : Bool} {es : List Event} (h : Each answers kind alarm es) :
    Each answers kind false (.interrupted alarm :: es)
  | ignored {buf : List UInt8} {alarm : Bool} {es : List Event} (hk : kind buf)
    (hno : ∀ v, ¬ answers buf v) (h : Each answers kind alarm es) :
    Each answers kind false (.datagram buf alarm :: es)
  | answered {buf : List UInt8} {alarm : Bool} {es : List Event} {v : Int} (hk : kind buf)
    (hv : answers buf v) : Each answers kind false (.datagram buf alarm :: es)

/-- Only replies to the probe are accepted, with their value, and only received bytes are looked at. -/
def OnlyReplies (answers : List UInt8 → Int → Prop) (judge : Judge)
    (fields : (Nat → UInt8) → Nat → List Field) (gotalarm : Bool) (m : Nat → UInt8) (es : List Event) : Prop :=
  (∃ r, recv judge gotalarm m es = r.map Except.ok ∧ Outcome answers gotalarm es r) ∧
    Each answers (fun buf ↦ ∀ stale, Within (fields (overwrite stale 0 buf) buf.length) buf.length) gotalarm es

/-! ### The loop -/

section Loop

variable {answers : List UInt8 → Int → Prop} {judge : Judge} {fields : (Nat → UInt8) → Nat → List Field}
  {kind : List UInt8 → Prop}

/-- A message of this kind is accepted for what it answers, and read within its bytes. -/
structure Judged (answers : List UInt8 → Int → Prop) (judge : Judge)
    (fields : (Nat → UInt8) → Nat → List Field) (buf : List UInt8) : Prop where
  defined : ∀ stale, ∃ r : Option Int, judge (overwrite stale 0 buf) buf.length = r.map Except.ok
  value : ∀ stale v, judge (overwrite stale 0 buf) buf.length = some (.ok v) ↔ answers buf v
  within : ∀ stale, Within (fields (overwrite stale 0 buf) buf.length) buf.length

/-- After the alarm nothing is received. -/
theorem recv_alarm (m : Nat → UInt8) (es : List Event) : recv judge true m es = some (.ok (-3)) := by
  cases es with
  | nil => rfl
  | cons e es => rfl

/-- The loop accepts only replies when every message it receives is judged so. -/
theorem onlyReplies_of_each (hkind : ∀ buf, kind buf → Judged answers judge fields buf) {gotalarm : Bool}
    {es : List Event} (h : Each answers kind gotalarm es) (m : Nat → UInt8) :
    OnlyReplies answers judge fields gotalarm m es := by
  induction h generalizing m with
  | timeout es => exact ⟨⟨some (-3), recv_alarm m es, .timeout es⟩, .timeout es⟩
  | waiting => exact ⟨⟨none, rfl, .waiting⟩, .waiting⟩
  | interrupted _ ih =>
    obtain ⟨⟨r, hr, hout⟩, heach⟩ := ih m
    exact ⟨⟨r, hr, .interrupted hout⟩, .interrupted heach⟩
  | @ignored buf alarm es hk hno _ ih =>
    have hjudged := hkind buf hk
    obtain ⟨⟨r, hr, hout⟩, heach⟩ := ih (overwrite m 0 buf)
    refine ⟨⟨r, ?_, .ignored hno hout⟩, .ignored hjudged.within hno heach⟩
    obtain ⟨v, hv⟩ := hjudged.defined m
    cases v with
    | none =>
      rw [recv, hv]
      exact hr
    | some v => exact absurd ((hjudged.value m v).mp hv) (hno v)
  | @answered buf alarm es v hk hv =>
    have hjudged := hkind buf hk
    refine ⟨⟨some v, ?_, .answered hv⟩, .answered hjudged.within hv⟩
    rw [recv, (hjudged.value m v).mpr hv]
    rfl

/-- A loop that accepts only replies receives no message that is read beyond its bytes or for which nothing is
returned. -/
theorem each_of_onlyReplies (hkind : ∀ buf, kind buf → Judged answers judge fields buf)
    (hother : ∀ buf, ¬ kind buf → (∃ stale, ¬ Within (fields (overwrite stale 0 buf) buf.length) buf.length) ∨
      ∀ stale, judge (overwrite stale 0 buf) buf.length = some (.error .indeterminate)) {gotalarm : Bool}
    {m : Nat → UInt8} {es : List Event} (h : OnlyReplies answers judge fields gotalarm m es) :
    Each answers kind gotalarm es := by
  induction es generalizing gotalarm m with
  | nil =>
    cases gotalarm with
    | true => exact .timeout []
    | false => exact .waiting
  | cons e es ih =>
    obtain ⟨⟨r, hr, hout⟩, heach⟩ := h
    cases gotalarm with
    | true => exact .timeout (e :: es)
    | false =>
      cases e with
      | interrupted alarm =>
        cases hout with
        | interrupted hout =>
          cases heach with
          | interrupted heach => exact .interrupted (ih ⟨⟨r, hr, hout⟩, heach⟩)
      | datagram buf alarm =>
        have hwithin : ∀ stale, Within (fields (overwrite stale 0 buf) buf.length) buf.length := by
          cases heach with
          | ignored hk _ _ => exact hk
          | answered hk _ => exact hk
        have hk : kind buf := by
          by_contra hno
          rcases hother buf hno with ⟨stale, hout⟩ | hret
          · exact hout (hwithin stale)
          · rw [recv, hret m] at hr
            cases r with
            | none => cases hr
            | some v => cases hr
        cases hout with
        | answered hv => exact .answered hk hv
        | ignored hno hout =>
          cases heach with
          | answered _ hv => exact absurd hv (hno _)
          | ignored _ _ heach =>
            refine .ignored hk hno (ih (m := overwrite m 0 buf) ⟨⟨r, ?_, hout⟩, heach⟩)
            obtain ⟨v, hv⟩ := (hkind buf hk).defined m
            cases v with
            | none =>
              rw [recv, hv] at hr
              exact hr
            | some v => exact absurd (((hkind buf hk).value m v).mp hv) (hno v)

end Loop

/-! ### The bytes received -/

section Bytes

variable {buf : List UInt8} {m : Nat → UInt8} {x y : Nat} {type code : UInt8} {p : Probe} {v : Int}

/-- The array holds the message. -/
def Holds (m : Nat → UInt8) (buf : List UInt8) : Prop := ∀ k, k < buf.length → buf[k]? = some (m k)

/-- A message that has been received is in the array. -/
theorem holds_overwrite (stale : Nat → UInt8) (buf : List UInt8) : Holds (overwrite stale 0 buf) buf := by
  intro k hk
  have hcell : overwrite stale 0 buf (0 + k) = buf[k] := overwrite_add hk
  rw [Nat.zero_add] at hcell
  rw [List.getElem?_eq_getElem hk, hcell]

private theorem Holds.cell (hm : Holds m buf) {k : Nat} {b : UInt8} (h : buf[k]? = some b) : m k = b := by
  obtain ⟨hk, -⟩ := List.getElem?_eq_some_iff.mp h
  rw [hm k hk] at h
  exact Option.some.inj h

private theorem Holds.portAt (hm : Holds m buf) {k : Nat} : PortAt buf k x ↔
    k + 2 ≤ buf.length ∧ port (m k) (m (k + 1)) = x := by
  constructor
  · rintro ⟨a, b, ha, hb, rfl⟩
    obtain ⟨hk, -⟩ := List.getElem?_eq_some_iff.mp hb
    rw [hm.cell ha, hm.cell hb]
    exact ⟨by omega, rfl⟩
  · rintro ⟨hk, hx⟩
    exact ⟨_, _, hm k (by omega), hm (k + 1) (by omega), hx⟩

/-- The value of an answer, by the type and the code of the message. -/
private theorem answer_iff {quotes : UInt8 → UInt8 → Prop} {q : Prop} {exceeded unreach noport : UInt8}
    (hq : ∀ t c, quotes t c ↔ q ∧ type = t ∧ code = c) : Answer quotes exceeded unreach noport v ↔
      q ∧ ((type = exceeded ∧ code = 0 ∧ v = -2) ∨
        (type = unreach ∧ v = if code = noport then -1 else (code.toNat : Int))) := by
  constructor
  · rintro (h | h | ⟨c, hc, h⟩)
    · obtain ⟨hown, ht, hc⟩ := (hq _ _).mp h
      exact ⟨hown, .inl ⟨ht, hc, rfl⟩⟩
    · obtain ⟨hown, ht, hc⟩ := (hq _ _).mp h
      exact ⟨hown, .inr ⟨ht, (if_pos hc).symm⟩⟩
    · obtain ⟨hown, ht, rfl⟩ := (hq _ _).mp h
      exact ⟨hown, .inr ⟨ht, (if_neg hc).symm⟩⟩
  · rintro ⟨hown, ⟨ht, hc, rfl⟩ | ⟨ht, rfl⟩⟩
    · exact .transit ((hq _ _).mpr ⟨hown, ht, hc⟩)
    · split
      · next hc => exact .reached ((hq _ _).mpr ⟨hown, ht, hc⟩)
      · next hc => exact .unreachable code hc ((hq _ _).mpr ⟨hown, ht, rfl⟩)

/-- What is returned for the message, by its type and its code. -/
def ret (exceeded unreach noport type code : UInt8) : Option Int :=
  if type = exceeded ∧ code = 0 then some (-2)
  else if type = unreach then some (if code = noport then -1 else code.toNat)
  else none

private theorem ret_eq_some {exceeded unreach noport : UInt8} (hne : exceeded ≠ unreach) :
    ret exceeded unreach noport type code = some v ↔ (type = exceeded ∧ code = 0 ∧ v = -2) ∨
      (type = unreach ∧ v = if code = noport then -1 else (code.toNat : Int)) := by
  unfold ret
  constructor
  · intro h
    split at h
    · next ht => exact .inl ⟨ht.1, ht.2, (Option.some.inj h).symm⟩
    · split at h
      · next ht => exact .inr ⟨ht, (Option.some.inj h).symm⟩
      · cases h
  · rintro (⟨rfl, rfl, rfl⟩ | ⟨rfl, rfl⟩)
    · exact if_pos ⟨rfl, rfl⟩
    · rw [if_neg (fun h ↦ hne h.1.symm), if_pos rfl]

/-- A message whose verdict is `ret`, if it quotes the probe. -/
private theorem verdict_iff {quotes : UInt8 → UInt8 → Prop} {q : Prop} [Decidable q]
    {exceeded unreach noport : UInt8} (hne : exceeded ≠ unreach)
    (hq : ∀ t c, quotes t c ↔ q ∧ type = t ∧ code = c) {verdict : Option (Except Stop Int)}
    (h : verdict = (if q then ret exceeded unreach noport type code else none).map Except.ok) :
    verdict = some (.ok v) ↔ Answer quotes exceeded unreach noport v := by
  rw [answer_iff hq, ← ret_eq_some hne, h]
  by_cases hown : q
  · rw [if_pos hown]
    cases ret exceeded unreach noport type code with
    | none => exact ⟨nofun, nofun⟩
    | some w =>
      constructor
      · intro he
        cases he
        exact ⟨hown, rfl⟩
      · rintro ⟨-, he⟩
        cases he
        rfl
  · rw [if_neg hown]
    exact ⟨nofun, fun he ↦ absurd he.1 hown⟩

/-! ### ICMPv4 -/

/-- The message has passed the length checks of `recv_v4` and its comparisons. -/
def Passes4 (p : Probe) (m : Nat → UInt8) (n : Nat) : Prop :=
  headerLen (m 0) + (8 + 20) ≤ n ∧ udp4 m + 4 ≤ n ∧ own4 p m

instance (p : Probe) (m : Nat → UInt8) (n : Nat) : Decidable (Passes4 p m n) :=
  inferInstanceAs (Decidable (_ ∧ _ ∧ _))

private theorem Holds.quotes4 (hm : Holds m buf) (type code : UInt8) :
    Quotes4 buf type code p.sport.toNat p.target ↔
      Passes4 p m buf.length ∧ m (headerLen (m 0)) = type ∧ m (headerLen (m 0) + 1) = code := by
  unfold Quotes4 Passes4 own4 udp4
  constructor
  · rintro ⟨ip, hip, h0, htype, hcode, hlen, hhip, hproto, hsport, hdport⟩
    cases hm.cell h0
    cases hm.cell hhip
    obtain ⟨-, hx⟩ := hm.portAt.mp hsport
    obtain ⟨hudp, hy⟩ := hm.portAt.mp hdport
    exact ⟨⟨hlen, hudp, hm.cell hproto, hx, hy⟩, hm.cell htype, hm.cell hcode⟩
  · rintro ⟨⟨hlen, hudp, hproto, hx, hy⟩, htype, hcode⟩
    refine ⟨_, _, hm 0 (by omega), ?_, ?_, hlen, hm _ (by omega), ?_, ?_, ?_⟩
    · rw [hm _ (by omega), htype]
    · rw [hm _ (by omega), hcode]
    · rw [hm _ (by omega), hproto]
    · exact hm.portAt.mpr ⟨by omega, hx⟩
    · exact hm.portAt.mpr ⟨by omega, hy⟩

/-- `recv_v4` returns `ret` for the messages that pass. -/
private theorem judge4_eq (p : Probe) (m : Nat → UInt8) (n : Nat) :
    judge4 p m n = (if Passes4 p m n then ret 11 3 3 (m (headerLen (m 0))) (m (headerLen (m 0) + 1))
      else none).map Except.ok := by
  unfold judge4 ret
  by_cases hpass : Passes4 p m n
  · have h28 : ¬ n < headerLen (m 0) + (8 + 20) := Nat.not_lt_of_le hpass.1
    have hudp : ¬ n < udp4 m + 4 := Nat.not_lt_of_le hpass.2.1
    rw [if_pos hpass, if_neg (show ¬ n < headerLen (m 0) + 8 by omega)]
    simp only [if_neg h28, if_neg hudp, if_pos hpass.2.2]
    split
    · rfl
    · split
      · rfl
      · rfl
  · rw [if_neg hpass]
    by_cases h28 : n < headerLen (m 0) + (8 + 20)
    · simp only [if_pos h28, ite_self]
      rfl
    by_cases hudp : n < udp4 m + 4
    · simp only [if_neg h28, if_pos hudp, ite_self]
      rfl
    have hown : ¬ own4 p m := fun h ↦ hpass ⟨Nat.le_of_not_lt h28, Nat.le_of_not_lt hudp, h⟩
    simp only [if_neg h28, if_neg hudp, if_neg hown, ite_self]
    rfl

/-- The fields `recv_v4` looks at have been received if there is a first byte. -/
private theorem within_fields4 {n : Nat} : Within (fields4 m n) n ↔ 0 < n := by
  unfold fields4
  rw [within_cons]
  refine and_iff_left_of_imp fun h0 ↦ ?_
  split
  · exact within_nil
  · rw [within_cons, within_cons]
    refine ⟨by omega, by omega, ?_⟩
    split
    · split
      · exact within_nil
      · rw [within_cons]
        refine ⟨by omega, ?_⟩
        split
        · exact within_nil
        · rw [within_cons, within_cons, within_cons]
          exact ⟨by omega, by omega, by omega, within_nil⟩
    · exact within_nil

private theorem judged4 (p : Probe) (h : 0 < buf.length) : Judged (Answers4 p) (judge4 p) fields4 buf where
  defined stale := ⟨_, judge4_eq p _ _⟩
  value stale v := verdict_iff (by decide) (holds_overwrite stale buf).quotes4 (judge4_eq p _ _)
  within stale := within_fields4.mpr h

/-! ### ICMPv6 -/

/-- The message has passed the length check of `recv_v6` and its comparisons. -/
def Passes6 (p : Probe) (m : Nat → UInt8) (n : Nat) : Prop := 8 + 40 + 4 ≤ n ∧ own6 p m

instance (p : Probe) (m : Nat → UInt8) (n : Nat) : Decidable (Passes6 p m n) :=
  inferInstanceAs (Decidable (_ ∧ _))

private theorem Holds.quotes6 (hm : Holds m buf) (type code : UInt8) :
    Quotes6 buf type code p.sport.toNat p.target ↔ Passes6 p m buf.length ∧ m 0 = type ∧ m 1 = code := by
  unfold Quotes6 Passes6 own6
  constructor
  · rintro ⟨htype, hcode, hproto, hsport, hdport⟩
    obtain ⟨-, hx⟩ := hm.portAt.mp hsport
    obtain ⟨hudp, hy⟩ := hm.portAt.mp hdport
    exact ⟨⟨hudp, hm.cell hproto, hx, hy⟩, hm.cell htype, hm.cell hcode⟩
  · rintro ⟨⟨hudp, hproto, hx, hy⟩, htype, hcode⟩
    refine ⟨?_, ?_, ?_, ?_, ?_⟩
    · rw [hm 0 (by omega), htype]
    · rw [hm 1 (by omega), hcode]
    · rw [hm _ (by omega), hproto]
    · exact hm.portAt.mpr ⟨by omega, hx⟩
    · exact hm.portAt.mpr ⟨hudp, hy⟩

/-- A time exceeded in transit that is long enough to quote the probe, and does not. -/
def ForeignExceeded (p : Probe) (buf : List UInt8) : Prop :=
  8 + 40 + 4 ≤ buf.length ∧ buf[0]? = some 3 ∧ buf[1]? = some 0 ∧
    ¬ Quotes6 buf 3 0 p.sport.toNat p.target

/-- For others `recv_v6` returns `ret` when they pass. -/
private theorem judge6_eq (hm : Holds m buf) (hno : ¬ ForeignExceeded p buf) :
    judge6 p m buf.length =
      (if Passes6 p m buf.length then ret 3 1 4 (m 0) (m 1) else none).map Except.ok := by
  unfold judge6 ret
  by_cases hpass : Passes6 p m buf.length
  · have h52 : ¬ buf.length < 8 + 40 + 4 := Nat.not_lt_of_le hpass.1
    rw [if_pos hpass, if_neg (show ¬ buf.length < 8 by omega)]
    simp only [if_neg h52, if_pos hpass.2]
    split
    · rfl
    · split
      · rfl
      · rfl
  · rw [if_neg hpass]
    by_cases h52 : buf.length < 8 + 40 + 4
    · simp only [if_pos h52, ite_self]
      rfl
    have hown : ¬ own6 p m := fun h ↦ hpass ⟨Nat.le_of_not_lt h52, h⟩
    have htype : ¬ (m 0 = 3 ∧ m 1 = 0) := by
      rintro ⟨ht, hc⟩
      refine hno ⟨Nat.le_of_not_lt h52, ?_, ?_, fun hq ↦ hown ((hm.quotes6 _ _).mp hq).1.2⟩
      · rw [hm 0 (by omega), ht]
      · rw [hm 1 (by omega), hc]
    rw [if_neg htype]
    simp only [if_neg h52, if_neg hown, ite_self]
    rfl

/-- For such a message `ret` has no value. -/
private theorem judge6_foreign (hm : Holds m buf) (h : ForeignExceeded p buf) :
    judge6 p m buf.length = some (.error .indeterminate) := by
  obtain ⟨hlen, htype, hcode, hno⟩ := h
  have hown : ¬ own6 p m := fun hown ↦ hno ((hm.quotes6 _ _).mpr ⟨⟨hlen, hown⟩, hm.cell htype, hm.cell hcode⟩)
  unfold judge6
  rw [if_neg (by omega), if_pos ⟨hm.cell htype, hm.cell hcode⟩, if_neg (by omega), if_neg hown]

/-- The fields `recv_v6` looks at have been received. -/
private theorem within_fields6 {n : Nat} : Within (fields6 m n) n := by
  unfold fields6
  split
  · exact within_nil
  · rw [within_cons, within_cons]
    refine ⟨by omega, by omega, ?_⟩
    split
    · split
      · exact within_nil
      · rw [within_cons, within_cons, within_cons]
        exact ⟨by omega, by omega, by omega, within_nil⟩
    · exact within_nil

private theorem judged6 (p : Probe) (h : ¬ ForeignExceeded p buf) :
    Judged (Answers6 p) (judge6 p) fields6 buf where
  defined stale := ⟨_, judge6_eq (holds_overwrite stale buf) h⟩
  value stale v :=
    verdict_iff (by decide) (holds_overwrite stale buf).quotes6 (judge6_eq (holds_overwrite stale buf) h)
  within stale := within_fields6

end Bytes

/-- The calls accept only replies to the probe exactly when no datagram without bytes is received before the
return (`recv_v4`), and no foreign time exceeded in transit is (`recv_v6`). -/
theorem recv_only_replies (p : Probe) (gotalarm : Bool) (m : Nat → UInt8) (es : List Event) :
    (OnlyReplies (Answers4 p) (judge4 p) fields4 gotalarm m es ↔
      Each (Answers4 p) (fun buf ↦ 0 < buf.length) gotalarm es) ∧
    (OnlyReplies (Answers6 p) (judge6 p) fields6 gotalarm m es ↔
      Each (Answers6 p) (fun buf ↦ ¬ ForeignExceeded p buf) gotalarm es) := by
  refine ⟨⟨?_, fun h ↦ onlyReplies_of_each (fun _ ↦ judged4 p) h m⟩,
    ⟨?_, fun h ↦ onlyReplies_of_each (fun _ ↦ judged6 p) h m⟩⟩
  · refine each_of_onlyReplies (fun _ ↦ judged4 p) fun buf hno ↦ .inl ⟨fun _ ↦ 0, fun hw ↦ ?_⟩
    exact hno (within_fields4.mp hw)
  · refine each_of_onlyReplies (fun _ ↦ judged6 p) fun buf hno ↦ .inr fun stale ↦ ?_
    exact judge6_foreign (holds_overwrite stale buf) (not_not.mp hno)

/-- A time exceeded that quotes 44 bytes which are zero. -/
private def foreign : List UInt8 := 3 :: 0 :: List.replicate 50 0

/-- `recv_v6` returns an indeterminate value for it. -/
theorem recv_v6_foreign : recv (judge6 ⟨32769, 32768, 1⟩) false (fun _ ↦ 0) [.datagram foreign false] =
      some (.error .indeterminate) ∧
    ¬ OnlyReplies (Answers6 ⟨32769, 32768, 1⟩) (judge6 ⟨32769, 32768, 1⟩) fields6 false (fun _ ↦ 0)
      [.datagram foreign false] := by
  have hrecv : recv (judge6 ⟨32769, 32768, 1⟩) false (fun _ ↦ 0) [.datagram foreign false] =
      some (.error .indeterminate) := by decide +kernel
  refine ⟨hrecv, ?_⟩
  rintro ⟨⟨r, hr, -⟩, -⟩
  rw [hrecv] at hr
  cases r with
  | none => cases hr
  | some v => cases hr

end Unpv13e.Traceroute
