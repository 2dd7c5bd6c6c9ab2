import Unpv13e.Libfree.RoundTrip

/-!
# The older scanner of addresses

Library `Libfree`. `inet_aton` of `src/libfree/inet_aton.c`, and `inet_pton` of
`src/libfree/inet_pton_ipv4.c` over it. It takes fewer than four numbers, numbers without a digit, and numbers
that have gone round `u_long`; where the scanner of `src/libfree/inet_pton.c` takes a text, it is the same
address.
-/

namespace Unpv13e.Libfree
open Unpv13e.Base Unpv13e.Libgai

/-- `ULONG_MAX + 1` -/
def ulongSize : Nat := 2 ^ 64

/-- The loop, `src/libfree/inet_aton.c:29–62`: `dots` and `addr` at its end. -/
def atonLoop : Text → Nat → Nat → Nat → Option (Nat × Nat)
  | [], dots, acc, addr => if acc > 255 then none else some (dots, addr <<< 8 % ulongSize ||| acc)
  | cc :: cp, dots, acc, addr =>
    match strchr digits cc with
    | some d => atonLoop cp dots ((acc * 10 + d) % ulongSize) addr
    | none =>
      if cc = '.' then
        if dots + 1 > 3 then none
        else if acc > 255 then none
        else atonLoop cp (dots + 1) 0 (addr <<< 8 % ulongSize ||| acc)
      else none

/-- `htonl` -/
def htonl (addr : Nat) : InAddr := Vector.ofFn fun i ↦ UInt8.ofNat (addr >>> (8 * (3 - i.val)))

/-- `inet_aton`, `src/libfree/inet_aton.c:23–75`; the address that is stored, when it returns 1. -/
def inetAton (cp : Text) : Option InAddr :=
  match atonLoop cp 0 0 0 with
  | some (dots, addr) =>
    some (htonl (if dots < 3 then addr <<< (8 * (3 - dots)) % ulongSize else addr))
  | none => none

/-- `inet_pton`, `src/libfree/inet_pton_ipv4.c:13–28`: what it returns, and what it stores. -/
def inetPtonIpv4 (family : Family) (strptr : Text) : Int × Option InAddr :=
  match family with
  | .afInet =>
    match inetAton strptr with
    | some a => (1, some a)
    | none => (0, none)
  | _ => (-1, none)

/-! ### The grammar -/

/-- Decimal digits, possibly none, whose value in a `u_long` is an octet. -/
def Part (g : Text) (b : UInt8) : Prop :=
  ∃ v, numeral (strchr digits) 10 0 g = some v ∧ v % ulongSize = b.toNat

/-- Parts with a dot between one and the next. -/
inductive Parts : Text → List UInt8 → Prop
  | last {g : Text} {b : UInt8} : Part g b → Parts g [b]
  | more {g s : Text} {b : UInt8} {bs : List UInt8} : Part g b → Parts s bs → Parts (g ++ '.' :: s) (b :: bs)

/-- What the loop makes of a text behind digits worth `acc`. -/
inductive AtonRest : Nat → Text → List UInt8 → Prop
  | done (b : UInt8) : AtonRest b.toNat [] [b]
  | digit {acc d : Nat} {c : Char} {s : Text} {bs : List UInt8} : strchr digits c = some d →
      AtonRest ((acc * 10 + d) % ulongSize) s bs → AtonRest acc (c :: s) bs
  | dot (b : UInt8) {s : Text} {bs : List UInt8} : AtonRest 0 s bs → AtonRest b.toNat ('.' :: s) (b :: bs)

/-- A numeral behind digits that are worth the same in a `u_long` is worth the same. -/
theorem numeral_modEq {dig : Char → Option Nat} {b m acc acc' v : Nat} {g : Text} (hacc : acc ≡ acc' [MOD m])
    (h : numeral dig b acc g = some v) : ∃ v', numeral dig b acc' g = some v' ∧ v ≡ v' [MOD m] := by
  induction g generalizing acc acc' with
  | nil =>
    cases h
    exact ⟨acc', rfl, hacc⟩
  | cons c g ih =>
    cases hc : dig c with
    | none =>
      rw [numeral, hc] at h
      cases h
    | some d =>
      rw [numeral_cons hc] at h ⊢
      exact ih ((hacc.mul_right b).add_right d) h

theorem dot_not_digit : strchr digits '.' = none := by decide

theorem octet_lt (b : UInt8) : b.toNat % ulongSize = b.toNat :=
  Nat.mod_eq_of_lt (Nat.lt_of_lt_of_le b.toNat_lt (by decide))

/-- The digits of a part behind others. -/
theorem AtonRest.of_numeral {g : Text} {acc v : Nat} {b : UInt8} {s : Text} {bs : List UInt8}
    (hacc : acc < ulongSize) (hv : numeral (strchr digits) 10 acc g = some v)
    (hb : v % ulongSize = b.toNat) (hrest : AtonRest b.toNat s bs) : AtonRest acc (g ++ s) bs := by
  induction g generalizing acc v with
  | nil =>
    cases hv
    rw [Nat.mod_eq_of_lt hacc] at hb
    rw [hb]
    exact hrest
  | cons c g ih =>
    cases hc : strchr digits c with
    | none =>
      rw [numeral, hc] at hv
      cases hv
    | some d =>
      rw [numeral_cons hc] at hv
      obtain ⟨w, hw, hmod⟩ := numeral_modEq (Nat.mod_modEq (acc * 10 + d) ulongSize).symm hv
      exact .digit hc (ih (Nat.mod_lt _ (by decide)) hw (Eq.trans (Nat.ModEq.symm hmod) hb))

theorem atonRest_digit_iff {acc d : Nat} {c : Char} {s : Text} {bs : List UInt8} (hc : strchr digits c = some d) :
    AtonRest acc (c :: s) bs ↔ AtonRest ((acc * 10 + d) % ulongSize) s bs := by
  constructor
  · intro h
    cases h with
    | digit hd hrest =>
      rw [hc] at hd
      cases hd
      exact hrest
    | dot b hrest =>
      rw [dot_not_digit] at hc
      cases hc
  · exact .digit hc

theorem atonRest_other_iff {acc : Nat} {c : Char} {s : Text} {bs : List UInt8} (hc : strchr digits c = none) :
    AtonRest acc (c :: s) bs ↔
      c = '.' ∧ ∃ b bs', acc = UInt8.toNat b ∧ bs = b :: bs' ∧ AtonRest 0 s bs' := by
  constructor
  · intro h
    cases h with
    | digit hd hrest =>
      rw [hc] at hd
      cases hd
    | dot b hrest => exact ⟨rfl, b, _, rfl, rfl, hrest⟩
  · rintro ⟨rfl, b, bs', rfl, rfl, hrest⟩
    exact .dot b hrest

/-- A text that is read to its end is a part, or a part, a dot and such a text. -/
theorem AtonRest.split {acc : Nat} {s : Text} {bs : List UInt8} (h : AtonRest acc s bs) :
    ∃ g v b, numeral (strchr digits) 10 acc g = some v ∧ v % ulongSize = UInt8.toNat b ∧
      (s = g ∧ bs = [b] ∨ ∃ s' bs', s = g ++ '.' :: s' ∧ bs = b :: bs' ∧ AtonRest 0 s' bs') := by
  induction h with
  | done b => exact ⟨[], _, b, rfl, octet_lt b, .inl ⟨rfl, rfl⟩⟩
  | @digit acc d c s bs hc hrest ih =>
    obtain ⟨g, v, b, hv, hb, hsplit⟩ := ih
    obtain ⟨w, hw, hmod⟩ := numeral_modEq (Nat.mod_modEq (acc * 10 + d) ulongSize) hv
    refine ⟨c :: g, w, b, by rw [numeral_cons hc, hw], Eq.trans (Nat.ModEq.symm hmod) hb, ?_⟩
    rcases hsplit with ⟨rfl, rfl⟩ | ⟨s', bs', rfl, rfl, hs'⟩
    · exact .inl ⟨rfl, rfl⟩
    · exact .inr ⟨s', bs', rfl, rfl, hs'⟩
  | @dot b s bs hrest ih => exact ⟨[], _, b, rfl, octet_lt b, .inr ⟨s, bs, rfl, rfl, hrest⟩⟩

theorem AtonRest.ne_nil {acc : Nat} {s : Text} {bs : List UInt8} (h : AtonRest acc s bs) : bs ≠ [] := by
  induction h with
  | done b => exact List.cons_ne_nil _ _
  | digit _ _ ih => exact ih
  | dot b _ _ => exact List.cons_ne_nil _ _

theorem parts_of_rest {bs : List UInt8} : ∀ {s : Text}, AtonRest 0 s bs → Parts s bs := by
  induction bs with
  | nil =>
    intro s h
    obtain ⟨g, v, b, -, -, ⟨-, hbs⟩ | ⟨s', bs', -, hbs, -⟩⟩ := h.split <;> cases hbs
  | cons x bs ih =>
    intro s h
    obtain ⟨g, v, b, hv, hb, ⟨rfl, hbs⟩ | ⟨s', bs', rfl, hbs, hs'⟩⟩ := h.split
    · cases hbs
      exact .last ⟨v, hv, hb⟩
    · cases hbs
      exact .more ⟨v, hv, hb⟩ (ih hs')

theorem rest_of_parts {s : Text} {bs : List UInt8} (h : Parts s bs) : AtonRest 0 s bs := by
  induction h with
  | @last g b hg =>
    obtain ⟨v, hv, hb⟩ := hg
    have hrest := AtonRest.of_numeral (by decide) hv hb (.done b)
    rwa [List.append_nil] at hrest
  | @more g s b bs hg hs ih =>
    obtain ⟨v, hv, hb⟩ := hg
    exact AtonRest.of_numeral (by decide) hv hb (.dot b ih)

/-! ### The address -/

/-- Bytes as a number, the first in front. -/
def bigEndian (bs : List UInt8) : Nat := bs.foldl (fun n b ↦ n * 256 + b.toNat) 0

theorem bigEndian_concat (bs : List UInt8) (b : UInt8) : bigEndian (bs ++ [b]) = bigEndian bs * 256 + b.toNat := by
  rw [bigEndian, List.foldl_append]
  rfl

theorem bigEndian_lt (bs : List UInt8) : bigEndian bs < 256 ^ bs.length := by
  induction bs using List.reverseRecOn with
  | nil => exact Nat.one_pos
  | append_singleton bs b ih =>
    have := b.toNat_lt
    rw [bigEndian_concat, List.length_append, List.length_singleton, Nat.pow_succ]
    omega

/-- One more byte in `addr`. -/
theorem shift_or {done : List UInt8} (hlen : done.length ≤ 3) (b : UInt8) :
    bigEndian done <<< 8 % ulongSize ||| b.toNat = bigEndian (done ++ [b]) := by
  have hlt : bigEndian done < 256 ^ 3 :=
    Nat.lt_of_lt_of_le (bigEndian_lt done) (Nat.pow_le_pow_right (by decide) hlen)
  have hsize : 256 ^ 3 * 256 ≤ ulongSize := by decide
  have hsmall : bigEndian done <<< 8 < ulongSize := by
    rw [Nat.shiftLeft_eq]
    omega
  rw [Nat.mod_eq_of_lt hsmall, ← Nat.shiftLeft_add_eq_or_of_lt b.toNat_lt, Nat.shiftLeft_eq, bigEndian_concat]

/-- The bytes that are missing are zero. -/
theorem bigEndian_zeros (bs : List UInt8) (k : Nat) :
    bigEndian (bs ++ List.replicate k 0) = bigEndian bs * 256 ^ k := by
  induction k with
  | zero => simp
  | succ k ih =>
    rw [List.replicate_succ', ← List.append_assoc, bigEndian_concat, ih, Nat.pow_succ, Nat.mul_assoc]
    rfl

theorem htonl_bigEndian {bs : List UInt8} (hlen : bs.length = 4) : (htonl (bigEndian bs)).toList = bs := by
  rcases bs with _ | ⟨a, _ | ⟨b, _ | ⟨c, _ | ⟨d, _ | ⟨e, bs⟩⟩⟩⟩⟩ <;>
    simp only [List.length_cons, List.length_nil] at hlen
  · omega
  · omega
  · omega
  · omega
  · have ha := a.toNat_lt
    have hb := b.toNat_lt
    have hc := c.toNat_lt
    have hd := d.toNat_lt
    have hvalue : bigEndian [a, b, c, d] = ((a.toNat * 256 + b.toNat) * 256 + c.toNat) * 256 + d.toNat := by
      simp [bigEndian]
    have hbyte {x : UInt8} {k : Nat} (h : bigEndian [a, b, c, d] / 2 ^ k % 256 = x.toNat) :
        UInt8.ofNat (bigEndian [a, b, c, d] >>> k) = x := by
      rw [← UInt8.toNat_inj, UInt8.toNat_ofNat', Nat.shiftRight_eq_div_pow]
      exact h
    have hlist : (htonl (bigEndian [a, b, c, d])).toList =
        [UInt8.ofNat (bigEndian [a, b, c, d] >>> 24), UInt8.ofNat (bigEndian [a, b, c, d] >>> 16),
          UInt8.ofNat (bigEndian [a, b, c, d] >>> 8), UInt8.ofNat (bigEndian [a, b, c, d] >>> 0)] := by
      rw [htonl, Vector.toList_ofFn]
      simp [List.ofFn_succ]
    rw [hlist, hbyte (x := a) (by omega), hbyte (x := b) (by omega), hbyte (x := c) (by omega),
      hbyte (x := d) (by omega)]
  · omega

/-- The loop behind the parts in `done`. -/
theorem atonLoop_iff (s : Text) (acc dots addr : Nat) (done : List UInt8) (hlen : done.length ≤ 3) :
    atonLoop s done.length acc (bigEndian done) = some (dots, addr) ↔
      ∃ bs, AtonRest acc s bs ∧ done.length + bs.length ≤ 4 ∧ dots = done.length + bs.length - 1 ∧
        addr = bigEndian (done ++ bs) := by
  induction s generalizing acc done with
  | nil =>
    constructor
    · intro h
      by_cases hbig : acc > 255
      · simp [atonLoop, hbig] at h
      · obtain ⟨b, rfl⟩ : ∃ b : UInt8, acc = b.toNat := ⟨UInt8.ofNat acc, by simp; omega⟩
        simp only [atonLoop, if_neg hbig, shift_or hlen] at h
        cases h
        exact ⟨[b], .done b, by simp; omega, by simp, rfl⟩
    · rintro ⟨bs, hrest, hle, rfl, rfl⟩
      cases hrest with
      | done b =>
        have hb : ¬ b.toNat > 255 := by have := b.toNat_lt; omega
        simp [atonLoop, hb, shift_or hlen]
  | cons c s ih =>
    cases hc : strchr digits c with
    | some d =>
      simp only [atonLoop, hc, ih _ _ hlen, atonRest_digit_iff hc]
    | none =>
      simp only [atonLoop, hc, atonRest_other_iff hc]
      by_cases hdot : c = '.'
      · by_cases hthree : done.length + 1 > 3
        · rw [if_pos hdot, if_pos hthree]
          refine ⟨fun h ↦ (by cases h), ?_⟩
          rintro ⟨_, ⟨-, b, bs', -, rfl, hrest⟩, hle, -, -⟩
          have hne := List.length_pos_iff.mpr hrest.ne_nil
          simp only [List.length_cons] at hle
          omega
        · rw [if_pos hdot, if_neg hthree]
          by_cases hbig : acc > 255
          · rw [if_pos hbig]
            refine ⟨fun h ↦ (by cases h), ?_⟩
            rintro ⟨_, ⟨-, b, -, rfl, -⟩, -⟩
            have := b.toNat_lt
            omega
          · obtain ⟨b, rfl⟩ : ∃ b : UInt8, acc = b.toNat := ⟨UInt8.ofNat acc, by simp; omega⟩
            have hnext := ih 0 (done ++ [b]) (by simp; omega)
            rw [List.length_append, List.length_singleton] at hnext
            rw [if_neg hbig, shift_or hlen, hnext]
            constructor
            · rintro ⟨bs, hrest, hle, rfl, rfl⟩
              exact ⟨b :: bs, ⟨hdot, b, bs, rfl, rfl, hrest⟩, by simp; omega, by simp, by simp⟩
            · rintro ⟨_, ⟨-, b', bs, hb, rfl, hrest⟩, hle, rfl, rfl⟩
              obtain rfl := UInt8.toNat_inj.mp hb
              simp only [List.length_cons] at hle
              exact ⟨bs, hrest, by omega, by simp, by simp⟩
      · rw [if_neg hdot]
        exact ⟨fun h ↦ (by cases h), fun ⟨_, h, _⟩ ↦ absurd h.1 hdot⟩

/-- The address that parts stand for: those that are missing are zeros at its end. -/
def Stands (bs : List UInt8) (a : InAddr) : Prop :=
  bs.length ≤ 4 ∧ a.toList = bs ++ List.replicate (4 - bs.length) 0

/-- Lines 64–67: the parts are moved to the front. -/
theorem normalize {bs : List UInt8} (hne : bs ≠ []) (hle : bs.length ≤ 4) :
    (if bs.length - 1 < 3 then bigEndian bs <<< (8 * (3 - (bs.length - 1))) % ulongSize else bigEndian bs) =
      bigEndian (bs ++ List.replicate (4 - bs.length) 0) := by
  have hpos := List.length_pos_iff.mpr hne
  have hlen : (bs ++ List.replicate (4 - bs.length) 0).length = 4 := by simp; omega
  have hlt := bigEndian_lt (bs ++ List.replicate (4 - bs.length) 0)
  rw [hlen, bigEndian_zeros] at hlt
  have hsize : 256 ^ 4 ≤ ulongSize := by decide
  rw [bigEndian_zeros]
  by_cases hshort : bs.length - 1 < 3
  · have hshift : bigEndian bs <<< (8 * (3 - (bs.length - 1))) = bigEndian bs * 256 ^ (4 - bs.length) := by
      have hpow : (2 : Nat) ^ (8 * (3 - (bs.length - 1))) = 256 ^ (4 - bs.length) := by
        rw [Nat.pow_mul]
        congr 1
        omega
      rw [Nat.shiftLeft_eq, hpow]
    rw [if_pos hshort, hshift, Nat.mod_eq_of_lt (by omega)]
  · have hzero : 4 - bs.length = 0 := by omega
    rw [if_neg hshort, hzero, Nat.pow_zero, Nat.mul_one]

theorem inetAton_eq_some {cp : Text} {a : InAddr} :
    inetAton cp = some a ↔ ∃ bs, Parts cp bs ∧ Stands bs a := by
  have hloop (dots addr : Nat) : atonLoop cp 0 0 0 = some (dots, addr) ↔
      ∃ bs, AtonRest 0 cp bs ∧ bs.length ≤ 4 ∧ dots = bs.length - 1 ∧ addr = bigEndian bs := by
    have h := atonLoop_iff cp 0 dots addr [] (Nat.zero_le 3)
    have hzero : bigEndian [] = 0 := rfl
    simpa only [hzero, List.length_nil, Nat.zero_add, List.nil_append] using h
  have hvalue {bs : List UInt8} (hle : bs.length ≤ 4) :
      (htonl (bigEndian (bs ++ List.replicate (4 - bs.length) 0))).toList =
        bs ++ List.replicate (4 - bs.length) 0 := htonl_bigEndian (by simp; omega)
  unfold inetAton
  constructor
  · intro h
    cases hl : atonLoop cp 0 0 0 with
    | none =>
      rw [hl] at h
      cases h
    | some r =>
      obtain ⟨bs, hrest, hle, hdots, haddr⟩ := (hloop r.1 r.2).mp hl
      rw [hl] at h
      dsimp only at h
      rw [hdots, haddr, normalize hrest.ne_nil hle] at h
      refine ⟨bs, parts_of_rest hrest, hle, ?_⟩
      rw [← Option.some.inj h, hvalue hle]
  · rintro ⟨bs, hparts, hle, ha⟩
    have hrest := rest_of_parts hparts
    rw [(hloop _ _).mpr ⟨bs, hrest, hle, rfl, rfl⟩]
    dsimp only
    rw [normalize hrest.ne_nil hle, Option.some.injEq, ← Vector.toList_inj, hvalue hle, ha]

/-- A dotted quad is four parts. -/
theorem parts_of_quad {s : Text} {bs : List UInt8} (h : Quad s bs) : Parts s bs := by
  induction h with
  | @last g b hg => exact .last ⟨b.toNat, hg.2, octet_lt b⟩
  | @more g s b bs hg hs ih => exact .more ⟨b.toNat, hg.2, octet_lt b⟩ ih

/-- `inet_aton` takes one to four parts, as the first bytes of the address. What `inet_pton` takes it takes as
the same address. -/
theorem inetAton_iff (cp : Text) (a : InAddr) :
    (inetAton cp = some a ↔ ∃ bs, Parts cp bs ∧ Stands bs a) ∧
      (inetPton .afInet cp = .ok (1, some (.inet a)) → inetPtonIpv4 .afInet cp = (1, some a)) := by
  refine ⟨inetAton_eq_some, fun h ↦ ?_⟩
  have hquad : Quad cp a.toList := by
    obtain ⟨r, hr, hiff⟩ := decides_inetPton4 cp
    refine (hiff a).mp ?_
    cases r with
    | none => simp [inetPton, hr, Except.map] at h
    | some b => simpa [inetPton, hr, Except.map] using h
  have ha : inetAton cp = some a := inetAton_eq_some.mpr ⟨_, parts_of_quad hquad, by simp [Stands]⟩
  rw [inetPtonIpv4, ha]

-- The shorthand fills the address from the front, not from the back.
example : inetAton "127.1".toList = some (htonl 0x7f010000) := by decide

end Unpv13e.Libfree
