import Unpv13e.Base.Numeral
import Unpv13e.Libgai.RoundTrip

/-!
# Text as addresses

Library `Libfree`. `inet_pton` of `src/libfree/inet_pton.c`: the texts it takes and the addresses it
makes of them. A `u_char` array that is not initialised is the list of the bytes written to it.
-/

namespace Unpv13e.Libfree
open Unpv13e.Base Unpv13e.Libgai

/-- `digits` -/
def digits : Text := "0123456789".toList

/-- `xdigits_l` -/
def xdigitsL : Text := "0123456789abcdef".toList

/-- `xdigits_u` -/
def xdigitsU : Text := "0123456789ABCDEF".toList

/-- `pch - xdigits`, where one of the two searches of lines 153–154 finds the character. -/
def xdigit (ch : Char) : Option Nat :=
  match strchr xdigitsL ch with
  | some d => some d
  | none => strchr xdigitsU ch

/-! ### `inet_pton4` -/

/-- The locals of `inet_pton4`: `tmp` ends before the octet `tp` points to, which is `cur`. -/
structure Pton4 where
  saw_digit : Bool
  octets : Nat
  tmp : List UInt8
  cur : UInt8

/-- Lines 94–96. -/
def Pton4.start : Pton4 := ⟨false, 0, [], 0⟩

/-- `*++tp = 0` -/
def Pton4.next (st : Pton4) : Except Stop Pton4 :=
  if st.tmp.length + 1 < 4 then .ok { st with tmp := st.tmp ++ [st.cur], cur := 0 }
  else .error .outOfBounds

/-- One iteration, lines 98–116. -/
def pton4Char (ch : Char) (st : Pton4) : Except Stop (Option Pton4) :=
  match strchr digits ch with
  | some d =>
    let new := st.cur.toNat * 10 + d
    if new > 255 then .ok none
    else if st.saw_digit then .ok (some { st with cur := UInt8.ofNat new })
    else if st.octets + 1 > 4 then .ok none
    else .ok (some { st with cur := UInt8.ofNat new, octets := st.octets + 1, saw_digit := true })
  | none =>
    if ch = '.' && st.saw_digit then
      if st.octets = 4 then .ok none
      else st.next.map fun st ↦ some { st with saw_digit := false }
    else .ok none

/-- The loop, lines 97–117; a value where it ends at the terminator. -/
def pton4Loop : Text → Pton4 → Except Stop (Option Pton4)
  | [], st => .ok (some st)
  | ch :: src, st =>
    match pton4Char ch st with
    | .ok (some st) => pton4Loop src st
    | .ok none => .ok none
    | .error e => .error e

/-- Lines 118–122. -/
def Pton4.copy (st : Pton4) : Except Stop (Option InAddr) :=
  if st.octets < 4 then .ok none
  else if h : (st.tmp ++ [st.cur]).length = 4 then .ok (some ⟨(st.tmp ++ [st.cur]).toArray, h⟩)
  else .error .indeterminate

/-- The rest of the function from a state of its loop on. -/
def pton4From (src : Text) (st : Pton4) : Except Stop (Option InAddr) :=
  match pton4Loop src st with
  | .ok (some st) => st.copy
  | .ok none => .ok none
  | .error e => .error e

/-- `inet_pton4`, `src/libfree/inet_pton.c:86–123` -/
def inetPton4 (src : Text) : Except Stop (Option InAddr) := pton4From src .start

/-- A number of decimal digits, with any number of leading zeros, that is an octet. -/
def Octet (g : Text) (b : UInt8) : Prop := g ≠ [] ∧ numeral (strchr digits) 10 0 g = some b.toNat

/-- Octets with a dot between one and the next. -/
inductive Quad : Text → List UInt8 → Prop
  | last {g : Text} {b : UInt8} : Octet g b → Quad g [b]
  | more {g s : Text} {b : UInt8} {bs : List UInt8} : Octet g b → Quad s bs →
      Quad (g ++ '.' :: s) (b :: bs)

/-- What the loop makes of a text behind digits worth `cur`. -/
private inductive Rest : UInt8 → Bool → Text → List UInt8 → Prop
  | done {cur : UInt8} : Rest cur true [] [cur]
  | digit {cur new : UInt8} {saw : Bool} {ch : Char} {d : Nat} {s : Text} {bs : List UInt8} :
      strchr digits ch = some d → cur.toNat * 10 + d = new.toNat → Rest new true s bs →
        Rest cur saw (ch :: s) bs
  | dot {cur : UInt8} {s : Text} {bs : List UInt8} : Rest 0 false s bs →
      Rest cur true ('.' :: s) (cur :: bs)

private theorem strchr_dot : strchr digits '.' = none := by decide

private theorem Rest.ne_nil {cur : UInt8} {saw : Bool} {s : Text} {bs : List UInt8}
    (h : Rest cur saw s bs) : bs ≠ [] := by
  induction h with
  | done => exact List.cons_ne_nil _ _
  | digit _ _ _ ih => exact ih
  | dot _ _ => exact List.cons_ne_nil _ _

private theorem rest_nil_iff {cur : UInt8} {saw : Bool} {bs : List UInt8} :
    Rest cur saw [] bs ↔ saw = true ∧ bs = [cur] := by
  constructor
  · intro h
    cases h
    exact ⟨rfl, rfl⟩
  · rintro ⟨rfl, rfl⟩
    exact .done

private theorem rest_digit_iff {cur : UInt8} {saw : Bool} {c : Char} {d : Nat} {s : Text}
    {bs : List UInt8} (hc : strchr digits c = some d) :
    Rest cur saw (c :: s) bs ↔
      ∃ new : UInt8, cur.toNat * 10 + d = new.toNat ∧ Rest new true s bs := by
  constructor
  · intro h
    cases h with
    | digit hd hnew hrest =>
      rw [hc] at hd
      cases hd
      exact ⟨_, hnew, hrest⟩
    | dot _ =>
      rw [strchr_dot] at hc
      cases hc
  · rintro ⟨new, hnew, hrest⟩
    exact .digit hc hnew hrest

private theorem rest_other_iff {cur : UInt8} {saw : Bool} {c : Char} {s : Text} {bs : List UInt8}
    (hc : strchr digits c = none) :
    Rest cur saw (c :: s) bs ↔
      c = '.' ∧ saw = true ∧ ∃ bs', bs = cur :: bs' ∧ Rest 0 false s bs' := by
  constructor
  · intro h
    cases h with
    | digit hd _ _ =>
      rw [hc] at hd
      cases hd
    | dot hrest => exact ⟨rfl, rfl, _, rfl, hrest⟩
  · rintro ⟨rfl, rfl, bs', rfl, hrest⟩
    exact .dot hrest

/-- `octets` counts the octets that have a digit. -/
private structure Pton4.Counts (st : Pton4) : Prop where
  octets : st.octets = st.tmp.length + st.saw_digit.toNat
  room : st.tmp.length < 4

private theorem Pton4.Counts.decides_copy {st : Pton4} (h : st.Counts) :
    Decides st.copy fun a ↦ ∃ bs, Rest st.cur st.saw_digit [] bs ∧ a.toList = st.tmp ++ bs := by
  have hoct := h.octets
  have hroom := h.room
  unfold Pton4.copy
  cases hsaw : st.saw_digit with
  | false =>
    rw [hsaw] at hoct
    have hlt : st.octets < 4 := by simpa [hoct] using hroom
    rw [if_pos hlt]
    refine decides_none fun a ha ↦ ?_
    obtain ⟨bs, hrest, -⟩ := ha
    cases (rest_nil_iff.mp hrest).1
  | true =>
    rw [hsaw, Bool.toNat_true] at hoct
    have hbytes (a : InAddr) : (∃ bs, Rest st.cur true [] bs ∧ a.toList = st.tmp ++ bs) ↔
        a.toList = st.tmp ++ [st.cur] := by
      constructor
      · rintro ⟨bs, hrest, ha⟩
        rw [(rest_nil_iff.mp hrest).2] at ha
        exact ha
      · exact fun ha ↦ ⟨_, .done, ha⟩
    split
    · next hlt =>
      refine decides_none fun a ha ↦ ?_
      have hlen := congrArg List.length ((hbytes a).mp ha)
      rw [Vector.length_toList, List.length_append, List.length_singleton] at hlen
      omega
    · next hge =>
      have hlen : (st.tmp ++ [st.cur]).length = 4 := by
        rw [List.length_append, List.length_singleton]
        omega
      rw [dif_pos hlen]
      refine decides_some fun a ↦ (hbytes a).trans ?_
      rw [← Vector.toList_inj]
      rfl

/-- A digit either makes the octet too large or is its last so far. -/
private theorem Pton4.Counts.pton4Char_digit {st : Pton4} (h : st.Counts) {c : Char} {d : Nat}
    (hc : strchr digits c = some d) :
    pton4Char c st = .ok (if st.cur.toNat * 10 + d > 255 then none else
      some ⟨true, st.tmp.length + 1, st.tmp, UInt8.ofNat (st.cur.toNat * 10 + d)⟩) := by
  have hoct := h.octets
  have hroom := h.room
  simp only [pton4Char, hc]
  by_cases hbig : st.cur.toNat * 10 + d > 255
  · rw [if_pos hbig, if_pos hbig]
  · rw [if_neg hbig, if_neg hbig]
    cases hsaw : st.saw_digit with
    | true =>
      rw [hsaw, Bool.toNat_true] at hoct
      rw [if_pos rfl, hoct]
    | false =>
      rw [hsaw, Bool.toNat_false, Nat.add_zero] at hoct
      have hfour : ¬ st.octets + 1 > 4 := by omega
      rw [if_neg Bool.false_ne_true, if_neg hfour, hoct]

/-- Any other character ends the call, unless it is a dot behind a digit with an octet to come. -/
private theorem Pton4.Counts.pton4Char_other {st : Pton4} (h : st.Counts) {c : Char}
    (hc : strchr digits c = none) :
    pton4Char c st = .ok (if c = '.' ∧ st.saw_digit = true ∧ st.tmp.length < 3 then
      some ⟨false, st.tmp.length + 1, st.tmp ++ [st.cur], 0⟩ else none) := by
  have hoct := h.octets
  have hroom := h.room
  simp only [pton4Char, hc]
  by_cases hdot : c = '.' ∧ st.saw_digit = true
  · obtain ⟨rfl, hsaw⟩ := hdot
    rw [hsaw, Bool.toNat_true] at hoct
    rw [if_pos (by simp [hsaw])]
    by_cases hlen : st.tmp.length < 3
    · have hfour : ¬ st.octets = 4 := by omega
      have hnext : st.tmp.length + 1 < 4 := by omega
      rw [if_neg hfour, if_pos ⟨rfl, hsaw, hlen⟩, Pton4.next, if_pos hnext, ← hoct]
      rfl
    · have hfour : st.octets = 4 := by omega
      rw [if_pos hfour, if_neg fun hall ↦ hlen hall.2.2]
  · have hcond : ¬ (decide (c = '.') && st.saw_digit) = true := by simpa using hdot
    rw [if_neg hcond, if_neg fun hall ↦ hdot ⟨hall.1, hall.2.1⟩]

private theorem pton4From_cons {c : Char} {s : Text} {st : Pton4} {r : Option Pton4}
    (h : pton4Char c st = .ok r) :
    pton4From (c :: s) st = r.elim (.ok none) (pton4From s) := by
  cases r <;> simp only [pton4From, pton4Loop, h, Option.elim]

/-- The loop never leaves its array, and ends with an address exactly where the rest of the text
has the octets that are missing. -/
private theorem decides_pton4From (s : Text) (st : Pton4) (hst : st.Counts) :
    Decides (pton4From s st) fun a ↦
      ∃ bs, Rest st.cur st.saw_digit s bs ∧ a.toList = st.tmp ++ bs := by
  induction s generalizing st with
  | nil => exact hst.decides_copy
  | cons c s ih =>
    have hroom := hst.room
    cases hc : strchr digits c with
    | some d =>
      simp only [pton4From_cons (hst.pton4Char_digit hc), rest_digit_iff hc]
      by_cases hbig : st.cur.toNat * 10 + d > 255
      · rw [if_pos hbig]
        refine decides_none fun a ha ↦ ?_
        obtain ⟨bs, ⟨new, hnew, -⟩, -⟩ := ha
        have := new.toNat_lt_size
        simp only [UInt8.size] at this
        omega
      · have hnew : (UInt8.ofNat (st.cur.toNat * 10 + d)).toNat = st.cur.toNat * 10 + d := by
          rw [UInt8.toNat_ofNat']
          omega
        have hcounts : Pton4.Counts
            ⟨true, st.tmp.length + 1, st.tmp, UInt8.ofNat (st.cur.toNat * 10 + d)⟩ := ⟨rfl, hroom⟩
        rw [if_neg hbig]
        refine (ih _ hcounts).congr fun a ↦ exists_congr fun bs ↦ and_congr_left fun _ ↦ ?_
        constructor
        · exact fun h ↦ ⟨_, hnew.symm, h⟩
        · rintro ⟨new, h, hrest⟩
          rw [← UInt8.toNat_inj.mp (hnew.trans h)] at hrest
          exact hrest
    | none =>
      simp only [pton4From_cons (hst.pton4Char_other hc), rest_other_iff hc]
      by_cases hdot : c = '.' ∧ st.saw_digit = true ∧ st.tmp.length < 3
      · rw [if_pos hdot]
        have hcounts : Pton4.Counts ⟨false, st.tmp.length + 1, st.tmp ++ [st.cur], 0⟩ := by
          constructor
          · simp
          · rw [List.length_append, List.length_singleton]
            omega
        refine (ih _ hcounts).congr fun a ↦ ?_
        constructor
        · rintro ⟨bs, hrest, ha⟩
          refine ⟨st.cur :: bs, ⟨hdot.1, hdot.2.1, bs, rfl, hrest⟩, ?_⟩
          rw [ha, List.append_assoc, List.singleton_append]
        · rintro ⟨_, ⟨-, -, bs, rfl, hrest⟩, ha⟩
          refine ⟨bs, hrest, ?_⟩
          rw [ha, List.append_assoc, List.singleton_append]
      · rw [if_neg hdot]
        refine decides_none fun a ha ↦ hdot ?_
        obtain ⟨_, ⟨hc, hsaw, bs, rfl, hrest⟩, ha⟩ := ha
        have hlen := congrArg List.length ha
        have hpos := List.length_pos_iff.mpr hrest.ne_nil
        rw [Vector.length_toList, List.length_append, List.length_cons] at hlen
        exact ⟨hc, hsaw, by omega⟩

/-! ### The texts of IPv4 addresses -/

private theorem octet_of_rest {cur b : UInt8} {g : Text}
    (h : numeral (strchr digits) 10 cur.toNat g = some b.toNat) {saw : Bool}
    (hsaw : saw = true ∨ g ≠ []) :
    Rest cur saw g [b] ∧ ∀ {s : Text} {bs : List UInt8}, Rest 0 false s bs →
      Rest cur saw (g ++ '.' :: s) (b :: bs) := by
  induction g generalizing cur saw with
  | nil =>
    obtain rfl := UInt8.toNat_inj.mp (Option.some.inj h)
    obtain rfl : saw = true := hsaw.resolve_right fun hne ↦ hne rfl
    exact ⟨.done, fun hrest ↦ .dot hrest⟩
  | cons c g ih =>
    cases hc : strchr digits c with
    | none =>
      rw [numeral, hc] at h
      cases h
    | some d =>
      rw [numeral_cons hc] at h
      have hle := le_of_numeral (by decide) h
      have hb := b.toNat_lt_size
      simp only [UInt8.size] at hb
      have hnew : cur.toNat * 10 + d = (UInt8.ofNat (cur.toNat * 10 + d)).toNat := by
        rw [UInt8.toNat_ofNat']
        omega
      rw [hnew] at h
      obtain ⟨hlast, hmore⟩ := ih h (.inl rfl)
      exact ⟨.digit hc hnew hlast, fun hrest ↦ .digit hc hnew (hmore hrest)⟩

private theorem Quad.rest {s : Text} {bs : List UInt8} (h : Quad s bs) : Rest 0 false s bs := by
  have hoct {g : Text} {b : UInt8} (hg : Octet g b) : numeral (strchr digits) 10 (0 : UInt8).toNat g =
      some b.toNat := hg.2
  induction h with
  | last hg => exact (octet_of_rest (hoct hg) (.inr hg.1)).1
  | more hg _ ih => exact (octet_of_rest (hoct hg) (.inr hg.1)).2 ih

/-- The digits at the beginning of what the loop took, and the octets behind them. -/
private theorem Rest.quad {cur : UInt8} {saw : Bool} {s : Text} {bs : List UInt8}
    (h : Rest cur saw s bs) :
    ∃ (g : Text) (b : UInt8), numeral (strchr digits) 10 cur.toNat g = some b.toNat ∧
      (saw = true ∨ g ≠ []) ∧ (s = g ∧ bs = [b] ∨
        ∃ s' bs', s = g ++ '.' :: s' ∧ bs = b :: bs' ∧ Quad s' bs') := by
  induction h with
  | @done cur => exact ⟨[], cur, rfl, .inl rfl, .inl ⟨rfl, rfl⟩⟩
  | @digit cur new saw ch d s bs hd hnew _ ih =>
    obtain ⟨g, b, hval, -, hsplit⟩ := ih
    refine ⟨ch :: g, b, ?_, .inr (List.cons_ne_nil _ _), ?_⟩
    · rw [numeral_cons hd, hnew, hval]
    · rcases hsplit with ⟨rfl, rfl⟩ | ⟨s', bs', rfl, rfl, hquad⟩
      · exact .inl ⟨rfl, rfl⟩
      · exact .inr ⟨s', bs', rfl, rfl, hquad⟩
  | @dot cur s bs _ ih =>
    obtain ⟨g, b, hval, hne, hsplit⟩ := ih
    have hoct : Octet g b := ⟨hne.resolve_left Bool.false_ne_true, hval⟩
    refine ⟨[], cur, rfl, .inl rfl, .inr ⟨s, bs, rfl, rfl, ?_⟩⟩
    rcases hsplit with ⟨rfl, rfl⟩ | ⟨s', bs', rfl, rfl, hquad⟩
    · exact .last hoct
    · exact .more hoct hquad

private theorem rest_iff_quad {s : Text} {bs : List UInt8} : Rest 0 false s bs ↔ Quad s bs := by
  constructor
  · intro h
    obtain ⟨g, b, hval, hne, hsplit⟩ := h.quad
    have hoct : Octet g b := ⟨hne.resolve_left Bool.false_ne_true, hval⟩
    rcases hsplit with ⟨rfl, rfl⟩ | ⟨s', bs', rfl, rfl, hquad⟩
    · exact .last hoct
    · exact .more hoct hquad
  · exact Quad.rest

/-- `inet_pton4` takes exactly the dotted quads. -/
theorem decides_inetPton4 (src : Text) : Decides (inetPton4 src) fun a ↦ Quad src a.toList := by
  refine (decides_pton4From src .start ⟨rfl, by decide⟩).congr fun a ↦ ?_
  constructor
  · rintro ⟨bs, hrest, ha⟩
    rw [ha]
    exact rest_iff_quad.mp hrest
  · exact fun h ↦ ⟨_, rest_iff_quad.mpr h, rfl⟩

theorem Octet.mem {g : Text} {b : UInt8} (h : Octet g b) {c : Char} (hc : c ∈ g) :
    (strchr digits c).isSome = true := mem_of_numeral h.2 hc

/-- A dotted quad is written with digits and dots. -/
theorem Quad.mem {s : Text} {bs : List UInt8} (h : Quad s bs) {c : Char} (hc : c ∈ s) :
    (strchr digits c).isSome = true ∨ c = '.' := by
  induction h with
  | last hg => exact .inl (hg.mem hc)
  | more hg _ ih =>
    rcases List.mem_append.mp hc with hc | hc
    · exact .inl (hg.mem hc)
    · rcases List.mem_cons.mp hc with rfl | hc
      · exact .inr rfl
      · exact ih hc

theorem octet_decimal (b : UInt8) : Octet (decimal b.toNat) b := by
  have hdig : ∀ d < 10, strchr digits d.digitChar = some d := by decide
  exact ⟨Nat.toDigits_ne_nil, numeral_toDigits (by decide) hdig b.toNat⟩

/-- What `inet_ntop4` writes is a dotted quad of the same address. -/
theorem quad_dottedQuad (a : InAddr) : Quad (dottedQuad a) a.toList := by
  have hlist : a.toList = [a[0], a[1], a[2], a[3]] := by
    apply List.ext_getElem
    · simp
    · intro i hi _
      have hfour : i < 4 := by simpa using hi
      interval_cases i <;> rfl
  rw [hlist]
  have hquad : Quad (decimal a[0].toNat ++ '.' :: (decimal a[1].toNat ++ '.' ::
      (decimal a[2].toNat ++ '.' :: decimal a[3].toNat))) [a[0], a[1], a[2], a[3]] :=
    .more (octet_decimal _) (.more (octet_decimal _) (.more (octet_decimal _) (.last (octet_decimal _))))
  simpa only [dottedQuad, List.append_assoc, List.cons_append] using hquad

end Unpv13e.Libfree
