import Unpv13e.Libfree.InetPton

/-!
# Text as IPv6 addresses

Library `Libfree`. `inet_pton6` and `inet_pton` of `src/libfree/inet_pton.c`: the loop stays within
its sixteen bytes on every text, and takes exactly the texts of a grammar of words, an embedded dotted
quad and one gap. A gap in a text that is full without it clears what stands behind it.
-/

namespace Unpv13e.Libfree
open Unpv13e.Base Unpv13e.Libgai

/-- The locals of `inet_pton6`; `tp` and `colonp` as distances from the beginning of `tmp`, `curtok`
as what is left of the text from there on. -/
structure Pton6 where
  tmp : List UInt8
  tp : Nat
  colonp : Option Nat
  curtok : Text
  saw_xdigit : Bool
  val : Nat

/-- Lines 138–148 for what is left of the text behind the leading colon. -/
def Pton6.start (src : Text) : Pton6 := ⟨List.replicate 16 0, 0, none, src, false, 0⟩

/-- `if (tp + INT16SZ > endp) return (0)`, and the word is stored. -/
def Pton6.store (st : Pton6) : Except Stop (Option Pton6) :=
  if st.tp + 2 > 16 then .ok none
  else do
    let tmp ← saveAll st.tmp st.tp [UInt8.ofNat (st.val >>> 8), UInt8.ofNat st.val]
    return some { st with tmp := tmp, tp := st.tp + 2 }

/-- The loop, lines 149–185; a value where it ends at the terminator or with a dotted quad. -/
@[simp] def pton6Loop : Text → Pton6 → Except Stop (Option Pton6)
  | [], st => .ok (some st)
  | ch :: src, st =>
    match xdigit ch with
    | some d =>
      let val := st.val <<< 4 ||| d
      if val > 0xffff then .ok none
      else pton6Loop src { st with val := val, saw_xdigit := true }
    | none =>
      if ch = ':' then
        if !st.saw_xdigit then
          if st.colonp.isSome then .ok none
          else pton6Loop src { st with curtok := src, colonp := some st.tp }
        else
          match st.store with
          | .ok (some st) => pton6Loop src { st with curtok := src, saw_xdigit := false, val := 0 }
          | .ok none => .ok none
          | .error e => .error e
      else if ch = '.' && st.tp + 4 ≤ 16 then
        match inetPton4 st.curtok with
        | .ok (some quad) => do
          let tmp ← saveAll st.tmp st.tp quad.toList
          return some { st with tmp := tmp, tp := st.tp + 4, saw_xdigit := false }
        | .ok none => .ok none
        | .error e => .error e
      else .ok none

/-- Lines 191–204: what stands behind the gap is moved to the end. -/
def Pton6.shift (st : Pton6) : Except Stop Pton6 :=
  match st.colonp with
  | some colonp => do
    let n := st.tp - colonp
    let tmp ← openGap 0 colonp 16 n n st.tmp
    return { st with tmp := tmp, tp := 16 }
  | none => .ok st

/-- Lines 205–209. -/
def Pton6.copy (st : Pton6) : Except Stop (Option In6Addr) :=
  if st.tp ≠ 16 then .ok none
  else if h : st.tmp.length = 16 then .ok (some ⟨st.tmp.toArray, h⟩)
  else .error .outOfBounds

/-- What is done behind the loop, lines 186–209. -/
def Pton6.finish (st : Pton6) : Except Stop (Option In6Addr) :=
  match if st.saw_xdigit then st.store else .ok (some st) with
  | .ok (some st) => do (← st.shift).copy
  | .ok none => .ok none
  | .error e => .error e

/-- The rest of the function from a state of its loop on. -/
def pton6From (src : Text) (st : Pton6) : Except Stop (Option In6Addr) :=
  match pton6Loop src st with
  | .ok (some st) => st.finish
  | .ok none => .ok none
  | .error e => .error e

/-- What is left to the loop of a text that may begin with two colons, lines 142–145. -/
def leading : Text → Option Text
  | ':' :: src => if charAt src 0 = ':' then some src else none
  | src => some src

/-- `inet_pton6`, `src/libfree/inet_pton.c:140–210` -/
def inetPton6 (src : Text) : Except Stop (Option In6Addr) :=
  match leading src with
  | some src => pton6From src (.start src)
  | none => .ok none

/-! ### The grammar -/

/-- What a text is made of. -/
inductive Item
  | gap
  | word (v : Nat)
  | quad (a : InAddr)
  deriving DecidableEq

/-- The bytes of an item, as they are stored. -/
def Item.bytes : Item → List UInt8
  | .gap => []
  | .word v => [UInt8.ofNat (v >>> 8), UInt8.ofNat v]
  | .quad a => a.toList

/-- The bytes of the items one after the other. -/
def laid (items : List Item) : List UInt8 := items.flatMap Item.bytes

/-- A number of hexadecimal digits, with any number of leading zeros, that is a word. -/
structure Group (g : Text) (v : Nat) : Prop where
  ne_nil : g ≠ []
  value : numeral xdigit 16 0 g = some v
  le : v ≤ 0xffff

/-- Words with a colon between one and the next; a colon with no word before it is a gap, and a dotted
quad ends the text. -/
inductive Spells : Text → List Item → Prop
  | done : Spells [] []
  | gap {s : Text} {items : List Item} : Spells s items → Spells (':' :: s) (.gap :: items)
  | last {g : Text} {v : Nat} : Group g v → Spells g [.word v]
  | word {g s : Text} {v : Nat} {items : List Item} : Group g v → Spells s items →
      Spells (g ++ ':' :: s) (.word v :: items)
  | quad {s : Text} {a : InAddr} : Quad s a.toList → Spells s [.quad a]

/-- The sixteen bytes that items stand for. -/
inductive Lays : List Item → List UInt8 → Prop
  | full {items : List Item} : .gap ∉ items → (laid items).length = 16 → Lays items (laid items)
  /-- A gap is as many zeros as are missing. -/
  | gap {before after : List Item} {n : Nat} : .gap ∉ before → .gap ∉ after → 0 < n →
      (laid before).length + n + (laid after).length = 16 →
      Lays (before ++ .gap :: after) (laid before ++ List.replicate n 0 ++ laid after)
  /-- A gap where none is missing clears what stands behind it. -/
  | cleared {before after : List Item} : .gap ∉ before → .gap ∉ after →
      (laid before).length + (laid after).length = 16 →
      Lays (before ++ .gap :: after) (laid before ++ List.replicate (laid after).length 0)

/-- The text is one of an IPv6 address. -/
def Denotes (src : Text) (a : In6Addr) : Prop :=
  ∃ s items, leading src = some s ∧ Spells s items ∧ Lays items a.toList

/-! ### Digits -/

theorem xdigit_of_digit {c : Char} {d : Nat} (h : strchr digits c = some d) : xdigit c = some d := by
  have hL : strchr xdigitsL c = some d := strchr_append h "abcdef".toList
  rw [xdigit, hL]

theorem xdigit_lt {c : Char} {d : Nat} (h : xdigit c = some d) : d < 16 := by
  unfold xdigit at h
  split at h
  · next heq =>
    rw [← Option.some.inj h]
    exact strchr_lt heq
  · exact strchr_lt h

theorem xdigit_colon : xdigit ':' = none := by decide

theorem xdigit_dot : xdigit '.' = none := by decide

/-- The shift and the `|` put a digit at the end. -/
theorem shiftLeft_or {v d : Nat} (hd : d < 16) : v <<< 4 ||| d = v * 16 + d := by
  rw [← Nat.shiftLeft_add_eq_or_of_lt (by simpa using hd), Nat.shiftLeft_eq]

/-- One text of decimal digits in the two bases, digit by digit. -/
private theorem numeral_two_bases {g : Text} {a b w v : Nat} (hzero : a = 0 → b = 0)
    (hone : a ≤ 9 → b ≤ 9) (htwo : a ≤ 99 → b ≤ 153) (hthree : a ≤ 255 → b ≤ 2457)
    (h : numeral (strchr digits) 10 a g = some w) (hw : w ≤ 255)
    (hv : numeral xdigit 16 b g = some v) : v ≤ 2457 := by
  induction g generalizing a b with
  | nil =>
    obtain rfl := Option.some.inj h
    obtain rfl := Option.some.inj hv
    exact hthree hw
  | cons c g ih =>
    cases hc : strchr digits c with
    | none =>
      rw [numeral, hc] at h
      cases h
    | some d =>
      have hd : d < 10 := strchr_lt hc
      rw [numeral_cons hc] at h
      rw [numeral_cons (xdigit_of_digit hc)] at hv
      exact ih (by omega) (by omega) (by omega) (by omega) h hv

/-- What is an octet in base ten fits a word in base sixteen. -/
theorem small_of_octet {g : Text} {w v : Nat} (h : numeral (strchr digits) 10 0 g = some w)
    (hw : w ≤ 255) (hv : numeral xdigit 16 0 g = some v) : v ≤ 0xffff := by
  have := numeral_two_bases (fun _ ↦ rfl) (by omega) (by omega) (by omega) h hw hv
  omega

/-! ### The first item of a text -/

/-- A prefix of digits does not reach beyond the first character that is none. -/
private theorem prefix_of_append {g g' r s : Text} {c : Char} (hc : xdigit c = none)
    (hg' : ∀ x ∈ g', (xdigit x).isSome = true) (h : g' ++ r = g ++ c :: s) : ∃ t, g = g' ++ t := by
  rcases List.append_eq_append_iff.mp h with ⟨t, rfl, -⟩ | ⟨t, hgt, hcs⟩
  · exact ⟨t, rfl⟩
  · cases t with
    | nil => exact ⟨[], by simpa using hgt.symm⟩
    | cons x t =>
      obtain ⟨rfl, -⟩ := List.cons.inj hcs
      have := hg' c (by rw [hgt]; simp)
      rw [hc] at this
      cases this

theorem isSome_xdigit {g : Text} {v : Nat} (h : numeral xdigit 16 0 g = some v) :
    ∀ x ∈ g, (xdigit x).isSome = true := fun _ hx ↦ mem_of_numeral h hx

theorem Octet.isSome_xdigit {g : Text} {b : UInt8} (h : Octet g b) :
    ∀ x ∈ g, (xdigit x).isSome = true := by
  intro x hx
  obtain ⟨d, hd⟩ := Option.isSome_iff_exists.mp (h.mem hx)
  rw [xdigit_of_digit hd]
  rfl

private theorem not_isSome {c : Char} (hc : xdigit c = none) : ¬ (xdigit c).isSome = true := by
  rw [hc]
  exact Bool.false_ne_true

/-- A dotted quad of more than one octet is an octet, a dot and more. -/
theorem Quad.split {s : Text} {bs : List UInt8} (h : Quad s bs) (hlen : bs.length ≠ 1) :
    ∃ g b t, s = g ++ '.' :: t ∧ Octet g b := by
  cases h with
  | last _ => exact absurd rfl hlen
  | more hg _ => exact ⟨_, _, _, rfl, hg⟩

theorem quad_split {s : Text} {a : InAddr} (h : Quad s a.toList) :
    ∃ g b t, s = g ++ '.' :: t ∧ Octet g b := by
  refine h.split ?_
  rw [Vector.length_toList]
  decide

/-- The digits a text begins with are no more than a word. -/
theorem Spells.small {g t : Text} {v : Nat} {items : List Item} (h : Spells (g ++ t) items)
    (hv : numeral xdigit 16 0 g = some v) : v ≤ 0xffff := by
  have hdig := isSome_xdigit hv
  have hpre {g' r : Text} {w : Nat} (hg' : numeral xdigit 16 0 g' = some w) (hw : w ≤ 0xffff)
      (hsplit : g' = g ++ r) : v ≤ 0xffff := by
    rw [hsplit, numeral_append, hv] at hg'
    exact (le_of_numeral (by decide) hg').trans hw
  generalize heq : g ++ t = s at h
  cases h with
  | done =>
    obtain rfl := (List.append_eq_nil_iff.mp heq).1
    rw [← Option.some.inj hv]
    exact Nat.zero_le _
  | gap _ =>
    obtain ⟨r, hr⟩ := prefix_of_append xdigit_colon hdig (heq.trans (List.nil_append _).symm)
    obtain rfl := (List.append_eq_nil_iff.mp hr.symm).1
    rw [← Option.some.inj hv]
    exact Nat.zero_le _
  | last hg => exact hpre hg.value hg.le heq.symm
  | word hg _ =>
    obtain ⟨r, hr⟩ := prefix_of_append xdigit_colon hdig heq
    exact hpre hg.value hg.le hr
  | quad hq =>
    obtain ⟨o, b, u, rfl, ho⟩ := quad_split hq
    obtain ⟨r, rfl⟩ := prefix_of_append xdigit_dot hdig heq
    have hoct := ho.2
    have hb := b.toNat_lt_size
    simp only [UInt8.size] at hb
    rw [numeral_append] at hoct
    obtain ⟨w, hw, hrest⟩ := Option.bind_eq_some_iff.mp hoct
    have hle := le_of_numeral (by decide) hrest
    exact small_of_octet hw (by omega) hv

/-- A text that is all digits is one word, or empty. -/
theorem spells_digits {g : Text} {v : Nat} {items : List Item} (hv : numeral xdigit 16 0 g = some v)
    (hsmall : v ≤ 0xffff) :
    Spells g items ↔ g = [] ∧ items = [] ∨ g ≠ [] ∧ items = [.word v] := by
  have hdig := isSome_xdigit hv
  have hnot {c : Char} (hc : xdigit c = none) : c ∉ g := fun hmem ↦ not_isSome hc (hdig c hmem)
  constructor
  · intro h
    cases h with
    | done => exact .inl ⟨rfl, rfl⟩
    | gap _ => exact absurd List.mem_cons_self (hnot xdigit_colon)
    | last hg =>
      rw [Option.some.inj (hg.value.symm.trans hv)]
      exact .inr ⟨hg.ne_nil, rfl⟩
    | word _ _ => exact absurd (by simp) (hnot xdigit_colon)
    | quad hq =>
      obtain ⟨o, b, u, rfl, -⟩ := quad_split hq
      exact absurd (by simp) (hnot xdigit_dot)
  · rintro (⟨rfl, rfl⟩ | ⟨hne, rfl⟩)
    · exact .done
    · exact .last ⟨hne, hv, hsmall⟩

/-- Digits and a colon: a word where there are digits, else a gap. -/
theorem spells_colon {g s : Text} {v : Nat} {items : List Item}
    (hv : numeral xdigit 16 0 g = some v) (hsmall : v ≤ 0xffff) :
    Spells (g ++ ':' :: s) items ↔
      ∃ later, items = (if g = [] then .gap else .word v) :: later ∧ Spells s later := by
  have hdig := isSome_xdigit hv
  constructor
  · intro h
    generalize heq : g ++ ':' :: s = t at h
    cases h with
    | done => simp at heq
    | @gap u _ hs =>
      have hnil : g ++ ':' :: s = [] ++ ':' :: u := heq
      obtain ⟨rfl, -, rfl⟩ := append_cons_inj hdig (by simp) (not_isSome xdigit_colon)
        (not_isSome xdigit_colon) hnil
      exact ⟨_, by rw [if_pos rfl], hs⟩
    | last hg =>
      have hmem : ':' ∈ t := by simp [← heq]
      exact absurd (isSome_xdigit hg.value _ hmem) (not_isSome xdigit_colon)
    | word hg hs =>
      obtain ⟨rfl, -, rfl⟩ := append_cons_inj hdig (isSome_xdigit hg.value)
        (not_isSome xdigit_colon) (not_isSome xdigit_colon) heq
      rw [Option.some.inj (hv.symm.trans hg.value)]
      exact ⟨_, by rw [if_neg hg.ne_nil], hs⟩
    | quad hq =>
      have hmem : ':' ∈ t := by simp [← heq]
      have hnot : ¬ ((strchr digits ':').isSome = true ∨ ':' = '.') := by decide
      exact absurd (hq.mem hmem) hnot
  · rintro ⟨later, rfl, hs⟩
    split
    · next hg =>
      rw [hg]
      exact .gap hs
    · next hg => exact .word ⟨hg, hv, hsmall⟩ hs

/-- Digits and another character that is no digit: a dotted quad. -/
theorem spells_other {g s : Text} {c : Char} {v : Nat} {items : List Item}
    (hv : numeral xdigit 16 0 g = some v) (hc : xdigit c = none) (hcolon : c ≠ ':') :
    Spells (g ++ c :: s) items ↔
      c = '.' ∧ ∃ a : InAddr, items = [.quad a] ∧ Quad (g ++ c :: s) a.toList := by
  have hdig := isSome_xdigit hv
  constructor
  · intro h
    generalize heq : g ++ c :: s = t at h ⊢
    cases h with
    | done => simp at heq
    | @gap u _ hs =>
      have hnil : g ++ c :: s = [] ++ ':' :: u := heq
      obtain ⟨-, hcc, -⟩ := append_cons_inj hdig (by simp) (not_isSome hc)
        (not_isSome xdigit_colon) hnil
      exact absurd hcc hcolon
    | last hg =>
      have hmem : c ∈ t := by simp [← heq]
      exact absurd (isSome_xdigit hg.value _ hmem) (not_isSome hc)
    | word hg hs =>
      obtain ⟨-, hcc, -⟩ := append_cons_inj hdig (isSome_xdigit hg.value)
        (not_isSome hc) (not_isSome xdigit_colon) heq
      exact absurd hcc hcolon
    | quad hq =>
      obtain ⟨o, b, u, rfl, ho⟩ := quad_split hq
      obtain ⟨-, hcc, -⟩ := append_cons_inj hdig ho.isSome_xdigit (not_isSome hc)
        (not_isSome xdigit_dot) heq
      exact ⟨hcc, _, rfl, hq⟩
  · rintro ⟨-, a, rfl, hq⟩
    exact .quad hq

/-! ### The bytes of items -/

theorem laid_append (xs ys : List Item) : laid (xs ++ ys) = laid xs ++ laid ys := List.flatMap_append

theorem laid_cons (x : Item) (xs : List Item) : laid (x :: xs) = x.bytes ++ laid xs := rfl

theorem laid_gap (xs ys : List Item) : laid (xs ++ .gap :: ys) = laid xs ++ laid ys := by
  rw [laid_append, laid_cons]
  rfl

/-- Items that stand for an address have one gap at most, and no more than sixteen bytes. -/
theorem Lays.bounds {items : List Item} {bs : List UInt8} (h : Lays items bs) :
    items.count .gap ≤ 1 ∧ (laid items).length ≤ 16 := by
  cases h with
  | full hgap hlen => exact ⟨by rw [List.count_eq_zero_of_not_mem hgap]; decide, hlen.le⟩
  | gap hb ha _ hlen =>
    rw [laid_gap, List.length_append, List.count_append, List.count_cons_self,
      List.count_eq_zero_of_not_mem hb, List.count_eq_zero_of_not_mem ha]
    omega
  | cleared hb ha hlen =>
    rw [laid_gap, List.length_append, List.count_append, List.count_cons_self,
      List.count_eq_zero_of_not_mem hb, List.count_eq_zero_of_not_mem ha]
    omega

theorem lays_full {items : List Item} {bs : List UInt8} (h : .gap ∉ items) :
    Lays items bs ↔ bs = laid items ∧ (laid items).length = 16 := by
  constructor
  · intro hl
    cases hl with
    | full _ hlen => exact ⟨rfl, hlen⟩
    | gap _ _ _ _ => exact absurd (by simp) h
    | cleared _ _ _ => exact absurd (by simp) h
  · rintro ⟨rfl, hlen⟩
    exact .full h hlen

theorem lays_gap {before after : List Item} {bs : List UInt8} (hb : .gap ∉ before)
    (ha : .gap ∉ after) :
    Lays (before ++ .gap :: after) bs ↔ ∃ n, (laid before).length + n + (laid after).length = 16 ∧
      bs = if n = 0 then laid before ++ List.replicate (laid after).length 0
        else laid before ++ List.replicate n 0 ++ laid after := by
  constructor
  · intro h
    generalize heq : before ++ .gap :: after = items at h
    cases h with
    | full hgap _ => exact absurd (by simp [← heq]) hgap
    | @gap b a n hb' ha' hn hlen =>
      obtain ⟨rfl, -, rfl⟩ := (List.append_cons_inj_of_notMem hb' ha').mp heq.symm
      exact ⟨n, hlen, by rw [if_neg (by omega)]⟩
    | @cleared b a hb' ha' hlen =>
      obtain ⟨rfl, -, rfl⟩ := (List.append_cons_inj_of_notMem hb' ha').mp heq.symm
      exact ⟨0, by omega, by rw [if_pos rfl]⟩
  · rintro ⟨n, hlen, rfl⟩
    split
    · next hn => exact .cleared hb ha (by omega)
    · next hn => exact .gap hb ha (Nat.pos_of_ne_zero hn) hlen

/-! ### The loop -/

/-- Where the gap of the items is. -/
inductive GapAt : List Item → Option Nat → Prop
  | none {items : List Item} : .gap ∉ items → GapAt items none
  | some {before after : List Item} : .gap ∉ before → .gap ∉ after →
      GapAt (before ++ .gap :: after) (some (laid before).length)

/-- The array begins with the bytes of the items read so far, and is zero behind them. -/
structure Pton6.Holds (st : Pton6) (items : List Item) : Prop where
  tp : st.tp = (laid items).length
  le : st.tp ≤ 16
  tmp : st.tmp = laid items ++ List.replicate (16 - st.tp) 0
  gap : GapAt items st.colonp

theorem GapAt.append {items : List Item} {colonp : Option Nat} (h : GapAt items colonp) {x : Item}
    (hx : x ≠ .gap) : GapAt (items ++ [x]) colonp := by
  cases h with
  | none h => exact .none (by simpa [hx.symm] using h)
  | some hb ha =>
    rw [List.append_assoc, List.cons_append]
    exact .some hb (by simpa [hx.symm] using ha)

theorem GapAt.isSome_iff {items : List Item} {colonp : Option Nat} (h : GapAt items colonp) :
    colonp.isSome = true ↔ .gap ∈ items := by
  cases h with
  | none h => simpa using h
  | some _ _ => simp

/-- Bytes are stored behind those of the items where there is room. -/
theorem Pton6.Holds.saveAll {st : Pton6} {items : List Item} (h : st.Holds items)
    {bs : List UInt8} (hroom : st.tp + bs.length ≤ 16) :
    Base.saveAll st.tmp st.tp bs =
      .ok (laid items ++ bs ++ List.replicate (16 - (st.tp + bs.length)) 0) := by
  have hsplit : 16 - st.tp = bs.length + (16 - (st.tp + bs.length)) := by omega
  rw [h.tmp, hsplit, List.replicate_add, ← List.append_assoc, h.tp]
  exact saveAll_append _ _ _ _ List.length_replicate

/-- An item has been stored. -/
theorem Pton6.Holds.item {st : Pton6} {items : List Item} (h : st.Holds items) {x : Item}
    (hx : x ≠ .gap) (hroom : st.tp + x.bytes.length ≤ 16) {st' : Pton6}
    (htp : st'.tp = st.tp + x.bytes.length) (hcolonp : st'.colonp = st.colonp)
    (htmp : st'.tmp = laid items ++ x.bytes ++
      List.replicate (16 - (st.tp + x.bytes.length)) 0) : st'.Holds (items ++ [x]) := by
  have hlaid : laid (items ++ [x]) = laid items ++ x.bytes := by
    rw [laid_append, laid_cons]
    exact congrArg _ (List.append_nil _)
  constructor
  · rw [hlaid, List.length_append, htp, h.tp]
  · omega
  · rw [htmp, hlaid, htp]
  · rw [hcolonp]
    exact h.gap.append hx

/-- A word is stored, or there is no room for it. -/
theorem Pton6.Holds.store {st : Pton6} {items : List Item} (h : st.Holds items) :
    (16 < (laid items).length + 2 ∧ st.store = .ok none) ∨
      ∃ tmp, st.store = .ok (some { st with tmp := tmp, tp := st.tp + 2 }) ∧
        Pton6.Holds { st with tmp := tmp, tp := st.tp + 2 } (items ++ [.word st.val]) := by
  unfold Pton6.store
  split
  · next hfull => exact .inl ⟨by rw [← h.tp]; omega, rfl⟩
  · next hroom =>
    have hfits : st.tp + (Item.bytes (.word st.val)).length ≤ 16 := by
      change st.tp + 2 ≤ 16
      omega
    have hsave := h.saveAll hfits
    refine .inr ⟨_, ?_, h.item Item.noConfusion hfits rfl rfl rfl⟩
    rw [show Base.saveAll st.tmp st.tp [UInt8.ofNat (st.val >>> 8), UInt8.ofNat st.val] = _ from hsave]
    rfl

/-- With the array full the bytes are copied. -/
theorem Pton6.copy_full {st : Pton6} (htp : st.tp = 16) (hlen : st.tmp.length = 16) :
    Decides st.copy fun a ↦ a.toList = st.tmp := by
  rw [Pton6.copy, if_neg (by omega), dif_pos hlen]
  refine decides_some fun a ↦ ?_
  rw [← Vector.toList_inj]
  rfl

/-- What the array becomes is what the items stand for. -/
theorem Pton6.Holds.decides_copy {st : Pton6} {items : List Item} (h : st.Holds items) :
    Decides (st.shift >>= Pton6.copy) fun a ↦ Lays items a.toList := by
  have htp := h.tp
  have hle := h.le
  have htmp := h.tmp
  have hgap := h.gap
  generalize hcolonp : st.colonp = colonp at hgap
  cases hgap with
  | none hgap =>
    have hshift : st.shift = .ok st := by rw [Pton6.shift, hcolonp]
    rw [hshift]
    change Decides st.copy _
    by_cases hfull : st.tp = 16
    · have hlaid : st.tmp = laid items := by
        rw [htmp, hfull]
        exact List.append_nil _
      refine (copy_full hfull (by rw [hlaid, ← htp, hfull])).congr fun a ↦ ?_
      rw [lays_full hgap, hlaid, ← htp]
      exact (and_iff_left hfull).symm
    · rw [Pton6.copy, if_pos hfull]
      refine decides_none fun a ha ↦ hfull ?_
      rw [htp]
      exact ((lays_full hgap).mp ha).2
  | @some before after hb ha =>
    rw [laid_gap] at htmp
    rw [laid_gap, List.length_append] at htp
    have hn : st.tp - (laid before).length = (laid after).length := by omega
    have hopen : openGap 0 (laid before).length 16 (laid after).length (laid after).length st.tmp =
        .ok (if 16 - st.tp = 0 then laid before ++ List.replicate (laid after).length 0
          else laid before ++ List.replicate (16 - st.tp) 0 ++ laid after) := by
      rw [htmp]
      by_cases hfull : 16 - st.tp = 0
      · rw [if_pos hfull, hfull]
        have hclear : openGap 0 (laid before).length 16 (laid after).length (laid after).length
            (laid before ++ laid after ++ []) =
              .ok (laid before ++ List.replicate (laid after).length 0 ++ []) :=
          openGap_full rfl rfl (by omega)
        simpa using hclear
      · have hmove : openGap 0 (laid before).length 16 (laid after).length (laid after).length
            (laid before ++ laid after ++ List.replicate (16 - st.tp) 0 ++ []) =
              .ok (laid before ++ List.replicate (16 - st.tp) 0 ++ laid after ++ []) :=
          openGap_free (Nat.pos_of_ne_zero hfull) rfl rfl (by omega)
        rw [if_neg hfull]
        simpa using hmove
    obtain ⟨st', hshift, hend, hbytes⟩ : ∃ st', st.shift = .ok st' ∧ st'.tp = 16 ∧
        st'.tmp = if 16 - st.tp = 0 then laid before ++ List.replicate (laid after).length 0
          else laid before ++ List.replicate (16 - st.tp) 0 ++ laid after := by
      refine ⟨{ st with tmp := _, tp := 16 }, ?_, rfl, rfl⟩
      simp only [Pton6.shift, hcolonp, hn, hopen]
      rfl
    have hlen : st'.tmp.length = 16 := by
      rw [hbytes]
      split
      · rw [List.length_append, List.length_replicate]
        omega
      · rw [List.length_append, List.length_append, List.length_replicate]
        omega
    rw [hshift]
    refine (copy_full hend hlen).congr fun a ↦ ?_
    rw [lays_gap hb ha, hbytes]
    constructor
    · exact fun ha ↦ ⟨16 - st.tp, by omega, ha⟩
    · rintro ⟨n, hlen, ha⟩
      obtain rfl : n = 16 - st.tp := by omega
      exact ha

/-- What is known between two characters: the items whose text has been read, and the digits read
behind them. -/
structure Pton6.Reads (st : Pton6) (items : List Item) (g s : Text) : Prop where
  holds : st.Holds items
  curtok : st.curtok = g ++ s
  value : numeral xdigit 16 0 g = some st.val
  small : st.val ≤ 0xffff
  saw : st.saw_xdigit = true ↔ g ≠ []

/-- The items of digits alone. -/
theorem spells_digits_exists {g : Text} {v : Nat} {P : List Item → Prop}
    (hv : numeral xdigit 16 0 g = some v) (hsmall : v ≤ 0xffff) :
    (∃ later, Spells g later ∧ P later) ↔ P (if g = [] then [] else [.word v]) := by
  constructor
  · rintro ⟨later, hs, hP⟩
    rcases (spells_digits hv hsmall).mp hs with ⟨hg, rfl⟩ | ⟨hg, rfl⟩
    · rwa [if_pos hg]
    · rwa [if_neg hg]
  · intro hP
    split at hP
    · next hg => exact ⟨_, (spells_digits hv hsmall).mpr (.inl ⟨hg, rfl⟩), hP⟩
    · next hg => exact ⟨_, (spells_digits hv hsmall).mpr (.inr ⟨hg, rfl⟩), hP⟩

/-- Items behind which there is no room for two bytes more. -/
theorem not_lays_of_full {items later : List Item} {x : Item} {bs : List UInt8}
    (hfull : 16 < (laid items).length + x.bytes.length) : ¬ Lays (items ++ x :: later) bs := by
  intro h
  have hlen := h.bounds.2
  rw [laid_append, laid_cons, List.length_append, List.length_append] at hlen
  omega

/-- With no digits waiting. -/
theorem Pton6.Holds.decides_finish {st : Pton6} {items : List Item} (h : st.Holds items)
    (hsaw : ¬ st.saw_xdigit = true) : Decides st.finish fun a ↦ Lays items a.toList := by
  rw [Pton6.finish, if_neg hsaw]
  exact h.decides_copy

/-- At the terminator. -/
theorem Pton6.Reads.decides_finish {st : Pton6} {items : List Item} {g : Text}
    (h : st.Reads items g []) :
    Decides st.finish fun a ↦ ∃ later, Spells g later ∧ Lays (items ++ later) a.toList := by
  simp only [spells_digits_exists h.value h.small]
  by_cases hg : g = []
  · rw [if_pos hg, List.append_nil]
    exact h.holds.decides_finish fun hsaw ↦ h.saw.mp hsaw hg
  · rw [Pton6.finish, if_pos (h.saw.mpr hg), if_neg hg]
    rcases h.holds.store with ⟨hfull, hstore⟩ | ⟨tmp, hstore, hholds⟩
    · rw [hstore]
      exact decides_none fun a ↦ not_lays_of_full hfull
    · rw [hstore]
      exact hholds.decides_copy

/-! ### One character -/

theorem pton6From_digit {c : Char} {d : Nat} (hc : xdigit c = some d) (s : Text) (st : Pton6) :
    pton6From (c :: s) st = if st.val <<< 4 ||| d > 0xffff then .ok none
      else pton6From s { st with val := st.val <<< 4 ||| d, saw_xdigit := true } := by
  by_cases hbig : st.val <<< 4 ||| d > 0xffff
  · simp only [pton6From, pton6Loop, hc, if_pos hbig]
  · simp only [pton6From, pton6Loop, hc, if_neg hbig]

/-- A colon behind digits. -/
theorem pton6From_word {s : Text} {st : Pton6} {r : Option Pton6} (hsaw : st.saw_xdigit = true)
    (hstore : st.store = .ok r) :
    pton6From (':' :: s) st = r.elim (.ok none) fun st ↦
      pton6From s { st with curtok := s, saw_xdigit := false, val := 0 } := by
  cases r <;> simp [pton6From, xdigit_colon, hsaw, hstore]

/-- A colon with no digits before it. -/
theorem pton6From_gap {s : Text} {st : Pton6} (hsaw : st.saw_xdigit = false) :
    pton6From (':' :: s) st = if st.colonp.isSome then .ok none
      else pton6From s { st with curtok := s, colonp := some st.tp } := by
  cases hcolonp : st.colonp.isSome <;>
    simp [pton6From, xdigit_colon, hsaw, hcolonp]

/-- Any other character. -/
theorem pton6From_other {c : Char} (hc : xdigit c = none) (hcolon : c ≠ ':') (s : Text)
    (st : Pton6) (h : ¬ (c = '.' ∧ st.tp + 4 ≤ 16)) : pton6From (c :: s) st = .ok none := by
  have hcond : ¬ (decide (c = '.') && decide (st.tp + 4 ≤ 16)) = true := by simpa using h
  simp only [pton6From, pton6Loop, hc, if_neg hcolon, if_neg hcond]

/-- A dot with room for an address. -/
theorem pton6From_dot {s : Text} {st : Pton6} {quad : InAddr} (hroom : st.tp + 4 ≤ 16)
    (hquad : inetPton4 st.curtok = .ok (some quad)) {tmp : List UInt8}
    (hsave : saveAll st.tmp st.tp quad.toList = .ok tmp) :
    pton6From ('.' :: s) st =
      { st with tmp := tmp, tp := st.tp + 4, saw_xdigit := false : Pton6 }.finish := by
  simp [pton6From, xdigit_dot, hroom, hquad, hsave, bind, Except.bind, pure, Except.pure]

theorem pton6From_dot_none {s : Text} {st : Pton6} (hroom : st.tp + 4 ≤ 16)
    (hquad : inetPton4 st.curtok = .ok none) : pton6From ('.' :: s) st = .ok none := by
  simp [pton6From, xdigit_dot, hroom, hquad]

theorem Pton6.Reads.digit {st : Pton6} {items : List Item} {g s : Text} {c : Char} {d : Nat}
    (h : st.Reads items g (c :: s)) (hc : xdigit c = some d) (hsmall : st.val * 16 + d ≤ 0xffff) :
    Pton6.Reads { st with val := st.val * 16 + d, saw_xdigit := true } items (g ++ [c]) s := by
  refine ⟨⟨h.holds.tp, h.holds.le, h.holds.tmp, h.holds.gap⟩, ?_, ?_, hsmall, ?_⟩
  · rw [List.append_assoc]
    exact h.curtok
  · exact numeral_concat h.value hc
  · simp

/-- No item is waiting for digits. -/
theorem Pton6.Holds.reads {st : Pton6} {items : List Item} (h : st.Holds items) {s : Text}
    (hcurtok : st.curtok = s) (hsaw : st.saw_xdigit = false) (hval : st.val = 0) :
    st.Reads items [] s := by
  refine ⟨h, hcurtok, by rw [hval]; rfl, by omega, ?_⟩
  simp [hsaw]

/-- The first item of what is left joins those read so far. -/
private theorem lays_cons {items : List Item} {x : Item} {P : List Item → Prop} {bs : List UInt8} :
    (∃ later, (∃ rest, later = x :: rest ∧ P rest) ∧ Lays (items ++ later) bs) ↔
      ∃ rest, P rest ∧ Lays ((items ++ [x]) ++ rest) bs := by
  constructor
  · rintro ⟨_, ⟨rest, rfl, hP⟩, hl⟩
    rw [List.append_cons] at hl
    exact ⟨rest, hP, hl⟩
  · rintro ⟨rest, hP, hl⟩
    rw [← List.append_cons] at hl
    exact ⟨_, ⟨rest, rfl, hP⟩, hl⟩

/-- What the rest of the text decides about an address. -/
def Continues (items : List Item) (t : Text) (a : In6Addr) : Prop :=
  ∃ later, Spells t later ∧ Lays (items ++ later) a.toList

/-- A colon behind no digits. -/
theorem Pton6.Reads.decides_gap {st : Pton6} {items : List Item} {s : Text}
    (h : st.Reads items [] (':' :: s))
    (ih : ∀ (st : Pton6) (items : List Item), st.Reads items [] s →
      Decides (pton6From s st) (Continues items s)) :
    Decides (pton6From (':' :: s) st) (Continues items (':' :: s)) := by
  have hsaw : st.saw_xdigit = false := by
    rw [← Bool.not_eq_true, h.saw]
    exact fun hne ↦ hne rfl
  have hitems (a : In6Addr) :
      Continues items (':' :: s) a ↔ Continues (items ++ [.gap]) s a := by
    unfold Continues
    rw [← lays_cons]
    exact exists_congr fun later ↦ and_congr_left fun _ ↦ spells_colon h.value h.small
  rw [pton6From_gap hsaw]
  by_cases hsome : st.colonp.isSome = true
  · rw [if_pos hsome]
    refine decides_none fun a ha ↦ ?_
    obtain ⟨rest, -, hl⟩ := (hitems a).mp ha
    have hmem := List.count_pos_iff.mpr (h.holds.gap.isSome_iff.mp hsome)
    have hcount := hl.bounds.1
    simp only [List.count_append, List.count_singleton_self] at hcount
    omega
  · have hlaid : laid (items ++ [.gap]) = laid items := (laid_gap items []).trans (List.append_nil _)
    have hholds : Pton6.Holds { st with curtok := s, colonp := some st.tp } (items ++ [.gap]) := by
      refine ⟨?_, h.holds.le, ?_, ?_⟩
      · rw [hlaid]
        exact h.holds.tp
      · rw [hlaid]
        exact h.holds.tmp
      · rw [h.holds.tp]
        exact .some (fun hmem ↦ hsome (h.holds.gap.isSome_iff.mpr hmem)) List.not_mem_nil
    rw [if_neg hsome]
    exact (ih _ _ (hholds.reads rfl hsaw (Option.some.inj h.value).symm)).congr
      fun a ↦ (hitems a).symm

/-- A colon behind digits. -/
theorem Pton6.Reads.decides_word {st : Pton6} {items : List Item} {g s : Text}
    (h : st.Reads items g (':' :: s)) (hg : g ≠ [])
    (ih : ∀ (st : Pton6) (items : List Item), st.Reads items [] s →
      Decides (pton6From s st) (Continues items s)) :
    Decides (pton6From (':' :: s) st) (Continues items (g ++ ':' :: s)) := by
  have hitems (a : In6Addr) :
      Continues items (g ++ ':' :: s) a ↔ Continues (items ++ [.word st.val]) s a := by
    unfold Continues
    rw [← lays_cons]
    refine exists_congr fun later ↦ and_congr_left fun _ ↦ ?_
    rw [spells_colon h.value h.small, if_neg hg]
  rcases h.holds.store with ⟨hfull, hstore⟩ | ⟨tmp, hstore, hholds⟩
  · rw [pton6From_word (h.saw.mpr hg) hstore]
    refine decides_none fun a ha ↦ ?_
    obtain ⟨rest, -, hl⟩ := (hitems a).mp ha
    rw [← List.append_cons] at hl
    exact not_lays_of_full hfull hl
  · rw [pton6From_word (h.saw.mpr hg) hstore]
    have hnext : Pton6.Holds { st with
        tmp := tmp, tp := st.tp + 2, curtok := s, saw_xdigit := false, val := 0 }
        (items ++ [.word st.val]) := ⟨hholds.tp, hholds.le, hholds.tmp, hholds.gap⟩
    exact (ih _ _ (hnext.reads rfl rfl rfl)).congr fun a ↦ (hitems a).symm

/-- A dot ends the loop. -/
theorem Pton6.Reads.decides_dot {st : Pton6} {items : List Item} {g s : Text}
    (h : st.Reads items g ('.' :: s)) :
    Decides (pton6From ('.' :: s) st) (Continues items (g ++ '.' :: s)) := by
  have hitems (a : In6Addr) : Continues items (g ++ '.' :: s) a ↔
      ∃ quad : InAddr, Quad (g ++ '.' :: s) quad.toList ∧ Lays (items ++ [.quad quad]) a.toList := by
    constructor
    · rintro ⟨later, hs, hl⟩
      obtain ⟨-, quad, rfl, hq⟩ := (spells_other h.value xdigit_dot (by decide)).mp hs
      exact ⟨quad, hq, hl⟩
    · rintro ⟨quad, hq, hl⟩
      exact ⟨_, .quad hq, hl⟩
  by_cases hroom : st.tp + 4 ≤ 16
  · have hdec := decides_inetPton4 (g ++ '.' :: s)
    cases hr : inetPton4 st.curtok with
    | error e =>
      rw [h.curtok] at hr
      obtain ⟨r, hok, -⟩ := hdec
      rw [hr] at hok
      cases hok
    | ok r =>
      cases r with
      | none =>
        rw [pton6From_dot_none hroom hr]
        rw [h.curtok] at hr
        refine decides_none fun a ha ↦ ?_
        obtain ⟨quad, hq, -⟩ := (hitems a).mp ha
        exact hdec.eq_none_iff.mp hr quad hq
      | some quad =>
        have hfour : (Item.quad quad).bytes.length = 4 := Vector.length_toList
        have hfits : st.tp + (Item.quad quad).bytes.length ≤ 16 := by omega
        have hholds : Pton6.Holds { st with
            tmp := laid items ++ (Item.quad quad).bytes ++
              List.replicate (16 - (st.tp + (Item.quad quad).bytes.length)) 0
            tp := st.tp + 4, saw_xdigit := false } (items ++ [.quad quad]) :=
          h.holds.item Item.noConfusion hfits (by rw [hfour]) rfl rfl
        rw [pton6From_dot hroom hr (h.holds.saveAll hfits)]
        rw [h.curtok] at hr
        refine (hholds.decides_finish Bool.false_ne_true).congr fun a ↦ ?_
        rw [hitems]
        constructor
        · exact fun hl ↦ ⟨quad, hdec.eq_some_iff.mp hr, hl⟩
        · rintro ⟨quad', hq, hl⟩
          have hsame := hr.symm.trans (hdec.eq_some_iff.mpr hq)
          simp only [Except.ok.injEq, Option.some.injEq] at hsame
          rwa [hsame]
  · have hcolon : '.' ≠ ':' := by decide
    rw [pton6From_other xdigit_dot hcolon s st fun hall ↦ hroom hall.2]
    refine decides_none fun a ha ↦ ?_
    obtain ⟨quad, -, hl⟩ := (hitems a).mp ha
    have hfour : (Item.quad quad).bytes.length = 4 := Vector.length_toList
    have htp := h.holds.tp
    exact not_lays_of_full (by omega) hl

/-- The loop never leaves its array, and ends with an address exactly where the items of the rest of
the text stand for it behind those read so far. -/
theorem decides_pton6From (s : Text) (st : Pton6) (items : List Item) (g : Text)
    (h : st.Reads items g s) : Decides (pton6From s st) (Continues items (g ++ s)) := by
  induction s generalizing st items g with
  | nil =>
    rw [List.append_nil]
    exact h.decides_finish
  | cons c s ih =>
    cases hc : xdigit c with
    | some d =>
      rw [pton6From_digit hc, shiftLeft_or (xdigit_lt hc), List.append_cons]
      by_cases hbig : st.val * 16 + d > 0xffff
      · rw [if_pos hbig]
        refine decides_none fun a ha ↦ ?_
        obtain ⟨later, hs, -⟩ := ha
        have := hs.small (numeral_concat h.value hc)
        omega
      · rw [if_neg hbig]
        exact ih _ items (g ++ [c]) (h.digit hc (by omega))
    | none =>
      by_cases hcolon : c = ':'
      · subst hcolon
        by_cases hg : g = []
        · subst hg
          exact h.decides_gap fun st items hst ↦ ih st items [] hst
        · exact h.decides_word hg fun st items hst ↦ ih st items [] hst
      · by_cases hdot : c = '.'
        · subst hdot
          exact h.decides_dot
        · rw [pton6From_other hc hcolon s st fun hall ↦ hdot hall.1]
          refine decides_none fun a ha ↦ hdot ?_
          obtain ⟨later, hs, -⟩ := ha
          exact ((spells_other h.value hc hcolon).mp hs).1

/-- `inet_pton6` takes exactly the texts of the grammar, and never leaves its array. -/
theorem decides_inetPton6 (src : Text) : Decides (inetPton6 src) (Denotes src) := by
  unfold inetPton6 Denotes
  cases hlead : leading src with
  | none =>
    refine decides_none fun a ha ↦ ?_
    obtain ⟨s, items, h, -⟩ := ha
    cases h
  | some s =>
    have hholds : (Pton6.start s).Holds [] := by
      refine ⟨rfl, Nat.zero_le _, rfl, .none List.not_mem_nil⟩
    refine (decides_pton6From s (.start s) [] [] (hholds.reads rfl rfl rfl)).congr fun a ↦ ?_
    constructor
    · rintro ⟨items, hs, hl⟩
      exact ⟨s, items, rfl, hs, hl⟩
    · rintro ⟨_, items, h, hs, hl⟩
      cases h
      exact ⟨items, hs, hl⟩

-- The eighth word is lost, where the comment on the function has the gap ignored.
example : inetPton6 "1:2:3:4:5:6:7::8".toList =
    .ok (some #v[0, 1, 0, 2, 0, 3, 0, 4, 0, 5, 0, 6, 0, 7, 0, 0]) := by decide +kernel

end Unpv13e.Libfree
