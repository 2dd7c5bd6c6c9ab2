import Unpv13e.Base.Text

/-!
# Addresses as text

Library `Libgai`. `inet_ntop` of `src/libfree/inet_ntop.c`, which the build always puts into the
library. The temporary array of `inet_ntop6` is its text so far; `inetNtop6_fits` is the bound
that keeps it inside the array.
-/

namespace Unpv13e.Libgai
open Unpv13e.Base

/-- `struct in_addr` -/
abbrev InAddr := Vector UInt8 4

/-- `struct in6_addr` -/
abbrev In6Addr := Vector UInt8 16

/-- `sizeof "255.255.255.255"` -/
def inetAddrstrlen : Nat := 16

/-- `sizeof "ffff:ffff:ffff:ffff:ffff:ffff:255.255.255.255"` -/
def inet6Addrstrlen : Nat := 46

/-- `sprintf`'s `%x` -/
def hex (n : Nat) : Text := Nat.toDigits 16 n

/-- `isxdigit` -/
def isxdigit (c : Char) : Bool := c.isDigit || ('a' ≤ c && c ≤ 'f') || ('A' ≤ c && c ≤ 'F')

/-- What `sprintf` writes for `"%u.%u.%u.%u"`. -/
def dottedQuad (src : InAddr) : Text :=
  decimal src[0].toNat ++ '.' :: decimal src[1].toNat ++ '.' :: decimal src[2].toNat ++
    '.' :: decimal src[3].toNat

/-- `inet_ntop4`, `src/libfree/inet_ntop.c:83–100`. The test leaves no room for the terminator. -/
def inetNtop4 (src : InAddr) (size : Nat) : Except Stop (Option Text) :=
  let tmp := dottedQuad src
  if tmp.length > size then .ok none
  else if tmp.length + 1 > size then .error .outOfBounds
  else .ok (some tmp)

/-- `struct { int base, len; }`; a base of −1 is the absence of a run. -/
structure ZeroRun where
  base : Nat
  len : Nat
  deriving DecidableEq

/-- `words[i]` after the bytes are copied into it, lines 132–134. -/
def wordAt (src : In6Addr) (i : Fin 8) : Nat :=
  (src.get ⟨2 * i, by omega⟩).toNat * 256 + (src.get ⟨2 * i + 1, by omega⟩).toNat

/-- `if (best.base == -1 || cur.len > best.len) best = cur;` when there is a current run. -/
def longer (best : Option ZeroRun) : Option ZeroRun → Option ZeroRun
  | none => best
  | some cur =>
    match best with
    | none => some cur
    | some b => if cur.len > b.len then some cur else some b

/-- One word more of a run of zeros, or its first. -/
def extend (i : Nat) : Option ZeroRun → ZeroRun
  | none => ⟨i, 1⟩
  | some cur => { cur with len := cur.len + 1 }

/-- The loop over the words from index `i` on, lines 137–153. -/
def scanRuns : Nat → List Nat → Option ZeroRun → Option ZeroRun → Option ZeroRun
  | _, [], best, cur => longer best cur
  | i, w :: ws, best, cur =>
    if w = 0 then scanRuns (i + 1) ws best (some (extend i cur))
    else scanRuns (i + 1) ws (longer best cur) none

/-- The longest run of at least two zero words. -/
def bestRun (src : In6Addr) : Option ZeroRun :=
  (scanRuns 0 ((List.finRange 8).map (wordAt src)) none none).filter fun r ↦ 2 ≤ r.len

/-- `best.base != -1 && i >= best.base && i < best.base + best.len` -/
def inRun (best : Option ZeroRun) (i : Fin 8) : Bool :=
  best.any fun r ↦ r.base ≤ i.val && i.val < r.base + r.len

/-- The six words before an embedded dotted quad. -/
def encapsulated (src : In6Addr) (best : Option ZeroRun) : Bool :=
  best.any fun r ↦ r.base = 0 && (r.len = 6 || (r.len = 5 && wordAt src 5 = 0xffff))

/-- `src + 12` -/
def lastQuad (src : In6Addr) : InAddr := #v[src[12], src[13], src[14], src[15]]

/-- The loop that formats the words of the given indices, lines 161–183. -/
def formatWords (src : In6Addr) (best : Option ZeroRun) :
    List (Fin 8) → Text → Except Stop (Option Text)
  | [], tp => .ok (some tp)
  | i :: is, tp =>
    if inRun best i then
      formatWords src best is (if best.any (·.base = i.val) then tp ++ [':'] else tp)
    else
      let tp := if i ≠ 0 then tp ++ [':'] else tp
      if i = 6 && encapsulated src best then
        (inetNtop4 (lastQuad src) (inet6Addrstrlen - tp.length)).map (·.map (tp ++ ·))
      else formatWords src best is (tp ++ hex (wordAt src i))

/-- `inet_ntop6`, `src/libfree/inet_ntop.c:109–198` -/
def inetNtop6 (src : In6Addr) (size : Nat) : Except Stop (Option Text) := do
  let best := bestRun src
  let some tp ← formatWords src best (List.finRange 8) [] | return none
  let tmp := if best.any (fun r ↦ r.base + r.len = 8) then tp ++ [':'] else tp
  return if tmp.length + 1 > size then none else some tmp

/-! ### The text of an IPv4 address -/

theorem length_decimal_byte (b : UInt8) : (decimal b.toNat).length ≤ 3 := by
  apply (Nat.length_toDigits_le_iff (by decide) (by decide)).mpr
  have := b.toNat_lt_size
  simp only [UInt8.size] at this
  omega

theorem length_dottedQuad (src : InAddr) : (dottedQuad src).length < inetAddrstrlen := by
  have h0 := length_decimal_byte src[0]
  have h1 := length_decimal_byte src[1]
  have h2 := length_decimal_byte src[2]
  have h3 := length_decimal_byte src[3]
  simp only [dottedQuad, List.length_append, List.length_cons, inetAddrstrlen]
  omega

/-- A buffer with room for the terminator gets the dotted quad. -/
theorem inetNtop4_of_lt {src : InAddr} {size : Nat} (h : (dottedQuad src).length < size) :
    inetNtop4 src size = .ok (some (dottedQuad src)) := by
  have hroom : ¬ (dottedQuad src).length > size := by omega
  have hend : ¬ (dottedQuad src).length + 1 > size := by omega
  simp only [inetNtop4, if_neg hroom, if_neg hend]

theorem isDigit_charAt_dottedQuad (src : InAddr) : (charAt (dottedQuad src) 0).isDigit = true := by
  obtain ⟨c, cs, hcs⟩ := List.exists_cons_of_ne_nil
    (Nat.toDigits_ne_nil (b := 10) (n := src[0].toNat))
  have hc : c.isDigit = true :=
    Nat.isDigit_of_mem_toDigits (by decide) (by decide) (hcs ▸ List.mem_cons_self)
  have hfirst : charAt (dottedQuad src) 0 = c := by
    change charAt (((Nat.toDigits 10 src[0].toNat ++ _) ++ _) ++ _) 0 = c
    rw [hcs]
    rfl
  rw [hfirst, hc]

/-! ### The text of an IPv6 address -/

theorem isxdigit_digitChar {n : Nat} (h : n < 16) : isxdigit n.digitChar = true := by
  interval_cases n <;> decide

theorem isxdigit_of_mem_hex {n : Nat} {c : Char} (h : c ∈ hex n) : isxdigit c = true := by
  induction n using Nat.strongRecOn with
  | ind n ih =>
    unfold hex at h ih
    rw [Nat.toDigits_eq_if (by decide)] at h
    split at h
    · next hlt =>
      rw [List.mem_singleton.mp h]
      exact isxdigit_digitChar hlt
    · next hge =>
      rcases List.mem_append.mp h with h | h
      · exact ih (n / 16) (by omega) h
      · rw [List.mem_singleton.mp h]
        exact isxdigit_digitChar (Nat.mod_lt _ (by decide))

theorem wordAt_lt (src : In6Addr) (i : Fin 8) : wordAt src i < 65536 := by
  have hhi := (src.get ⟨2 * i, by omega⟩).toNat_lt_size
  have hlo := (src.get ⟨2 * i + 1, by omega⟩).toNat_lt_size
  simp only [UInt8.size] at hhi hlo
  unfold wordAt
  omega

theorem length_hex_wordAt (src : In6Addr) (i : Fin 8) : (hex (wordAt src i)).length ≤ 4 :=
  (Nat.length_toDigits_le_iff (by decide) (by decide)).mpr (wordAt_lt src i)

private theorem drop_finRange {k : Nat} (hk : k < 8) :
    (List.finRange 8).drop k = ⟨k, hk⟩ :: (List.finRange 8).drop (k + 1) := by
  have h := List.drop_eq_getElem_cons (l := List.finRange 8) (i := k) (by simpa using hk)
  simpa using h

/-- From word `k` on the loop only appends, and its text fits the temporary array. -/
theorem formatWords_drop (src : In6Addr) (best : Option ZeroRun) (k : Nat) (hk : k ≤ 8)
    (tp : Text) (htp : tp.length ≤ 5 * k - 1) :
    ∃ rest, formatWords src best ((List.finRange 8).drop k) tp = .ok (some (tp ++ rest)) ∧
      (tp ++ rest).length < inet6Addrstrlen ∧
      (encapsulated src best = false → (tp ++ rest).length ≤ 39) := by
  induction hk using Nat.decreasingInduction generalizing tp with
  | self =>
    refine ⟨[], ?_, ?_, ?_⟩
    · simp [formatWords, show (List.finRange 8).drop 8 = [] from rfl]
    · simp only [List.append_nil, inet6Addrstrlen]
      omega
    · intro _
      simpa using htp
  | of_succ k hk ih =>
    -- What one word appends keeps the bound.
    have step (more : Text) (hmore : (tp ++ more).length ≤ 5 * (k + 1) - 1) :
        ∃ rest, formatWords src best ((List.finRange 8).drop (k + 1)) (tp ++ more) =
            .ok (some (tp ++ rest)) ∧ (tp ++ rest).length < inet6Addrstrlen ∧
          (encapsulated src best = false → (tp ++ rest).length ≤ 39) := by
      obtain ⟨rest, hrun, hlen, hshort⟩ := ih (tp ++ more) hmore
      rw [List.append_assoc] at hrun hlen hshort
      exact ⟨more ++ rest, hrun, hlen, hshort⟩
    rw [drop_finRange hk, formatWords]
    split
    · split
      · apply step
        simp only [List.length_append, List.length_singleton]
        omega
      · have := step [] (by simp only [List.append_nil]; omega)
        simpa only [List.append_nil] using this
    · have hcolon : ∃ colon : Text, (if (⟨k, hk⟩ : Fin 8) ≠ 0 then tp ++ [':'] else tp) = tp ++ colon ∧
          (tp ++ colon).length ≤ 5 * k := by
        split
        · next hne =>
          have hpos : k ≠ 0 := fun h ↦ hne (Fin.ext h)
          refine ⟨[':'], rfl, ?_⟩
          simp only [List.length_append, List.length_singleton]
          omega
        · refine ⟨[], (List.append_nil tp).symm, ?_⟩
          simp only [List.append_nil]
          omega
      obtain ⟨colon, hcolon, hlen⟩ := hcolon
      simp only [hcolon]
      split
      · next hquad =>
        have hsix : k = 6 := by
          have := (Bool.and_eq_true_iff.mp hquad).1
          exact congrArg Fin.val (of_decide_eq_true this)
        have henc := (Bool.and_eq_true_iff.mp hquad).2
        have hfour := length_dottedQuad (lastQuad src)
        have hroom : (dottedQuad (lastQuad src)).length < inet6Addrstrlen - (tp ++ colon).length := by
          simp only [inetAddrstrlen, inet6Addrstrlen] at hfour ⊢
          omega
        rw [inetNtop4_of_lt hroom]
        refine ⟨colon ++ dottedQuad (lastQuad src), ?_, ?_, ?_⟩
        · simp [Except.map]
        · rw [← List.append_assoc, List.length_append]
          omega
        · intro hnone
          rw [hnone] at henc
          cases henc
      · rw [List.append_assoc]
        apply step
        have := length_hex_wordAt src ⟨k, hk⟩
        rw [← List.append_assoc, List.length_append]
        omega

/-- What the search of `getaddrinfo` looks for before it tries a text as an IPv6 address. -/
def IsHexString (s : Text) : Prop := (isxdigit (charAt s 0) ∨ charAt s 0 = ':') ∧ ':' ∈ s

instance (s : Text) : Decidable (IsHexString s) := inferInstanceAs (Decidable (_ ∧ _))

theorem IsHexString.append {s : Text} (h : IsHexString s) (t : Text) : IsHexString (s ++ t) := by
  cases s with
  | nil => cases h.2
  | cons c cs => exact ⟨h.1, List.mem_append_left t h.2⟩

theorem isHexString_colon (s : Text) : IsHexString (':' :: s) := ⟨.inr rfl, List.mem_cons_self⟩

theorem isHexString_hex_colon (n : Nat) (s : Text) : IsHexString (hex n ++ ':' :: s) := by
  obtain ⟨c, cs, hcs⟩ := List.exists_cons_of_ne_nil (Nat.toDigits_ne_nil (b := 16) (n := n))
  have hc : isxdigit c = true := isxdigit_of_mem_hex (n := n) (by
    unfold hex
    rw [hcs]
    exact List.mem_cons_self)
  constructor
  · left
    have hfirst : charAt (hex n ++ ':' :: s) 0 = c := by
      unfold hex
      rw [hcs]
      rfl
    rw [hfirst, hc]
  · simp

theorem inRun_iff {best : Option ZeroRun} {i : Fin 8} :
    inRun best i = true ↔ ∃ r, best = some r ∧ r.base ≤ i.val ∧ i.val < r.base + r.len := by
  cases best <;> simp [inRun]

theorem formatWords_run {src : In6Addr} {best : Option ZeroRun} {i : Fin 8}
    (h : inRun best i = true) (is : List (Fin 8)) (tp : Text) :
    formatWords src best (i :: is) tp =
      formatWords src best is (if best.any (·.base = i.val) then tp ++ [':'] else tp) := by
  rw [formatWords, if_pos h]

theorem formatWords_word {src : In6Addr} {best : Option ZeroRun} {i : Fin 8}
    (h : ¬ inRun best i = true) (hsix : i ≠ 6) (is : List (Fin 8)) (tp : Text) :
    formatWords src best (i :: is) tp = formatWords src best is
      ((if i ≠ 0 then tp ++ [':'] else tp) ++ hex (wordAt src i)) := by
  have hquad : ¬ (decide (i = 6) && encapsulated src best) = true := by simp [hsix]
  rw [formatWords, if_neg h]
  exact if_neg hquad

/-- The first two words write a colon, and before it nothing but hexadecimal digits. -/
theorem formatWords_two (src : In6Addr) (best : Option ZeroRun) :
    ∃ tp : Text, IsHexString tp ∧ tp.length ≤ 9 ∧
      formatWords src best (List.finRange 8) [] =
        formatWords src best ((List.finRange 8).drop 2) tp := by
  have hw0 := length_hex_wordAt src 0
  have hw1 := length_hex_wordAt src 1
  have hsplit : List.finRange 8 = 0 :: 1 :: (List.finRange 8).drop 2 := rfl
  rw [hsplit, List.drop_succ_cons, List.drop_succ_cons, List.drop_zero]
  by_cases h0 : inRun best 0 = true
  · -- The address begins with the run that is left out.
    rw [formatWords_run h0]
    obtain ⟨r, rfl, hbase, hlen⟩ := inRun_iff.mp h0
    have hzero : r.base = 0 := Nat.le_zero.mp hbase
    by_cases h1 : inRun (some r) 1 = true
    · rw [formatWords_run h1]
      refine ⟨[':'], isHexString_colon [], by simp, ?_⟩
      simp [hzero]
    · rw [formatWords_word h1 (by decide)]
      refine ⟨':' :: ':' :: hex (wordAt src 1), isHexString_colon _, ?_, ?_⟩
      · simp only [List.length_cons]
        omega
      · simp [hzero]
  · rw [formatWords_word h0 (by decide)]
    by_cases h1 : inRun best 1 = true
    · rw [formatWords_run h1]
      obtain ⟨r, rfl, hbase, hlen⟩ := inRun_iff.mp h1
      have hone : r.base = 1 := by
        by_contra hne
        have hzero : r.base = 0 := by
          have : r.base ≤ 1 := hbase
          omega
        have : 1 < r.base + r.len := hlen
        exact h0 (inRun_iff.mpr ⟨r, rfl, hzero.le, by omega⟩)
      refine ⟨hex (wordAt src 0) ++ [':'], isHexString_hex_colon _ _, ?_, ?_⟩
      · simp only [List.length_append, List.length_singleton]
        omega
      · simp [hone]
    · rw [formatWords_word h1 (by decide)]
      refine ⟨hex (wordAt src 0) ++ ':' :: hex (wordAt src 1), isHexString_hex_colon _ _, ?_, ?_⟩
      · simp only [List.length_append, List.length_cons]
        omega
      · simp

theorem not_encapsulated_of_trailing {src : In6Addr} {best : Option ZeroRun}
    (h : best.any (fun r ↦ decide (r.base + r.len = 8)) = true) :
    encapsulated src best = false := by
  cases best with
  | none => rfl
  | some r =>
    have hend : r.base + r.len = 8 := by simpa using h
    have hnot : ¬ (r.base = 0 ∧ (r.len = 6 ∨ r.len = 5 ∧ wordAt src 5 = 0xffff)) := by
      rintro ⟨hbase, hlen⟩
      omega
    simpa [encapsulated] using hnot

/-- An IPv6 address has one text. It looks like a hexadecimal string and fits the buffer the
standard size is for; every buffer with room for it gets it. -/
theorem exists_inetNtop6 (src : In6Addr) :
    ∃ s : Text, IsHexString s ∧ s.length < inet6Addrstrlen ∧
      ∀ size, s.length < size → inetNtop6 src size = .ok (some s) := by
  obtain ⟨two, hhex, hlen, htwo⟩ := formatWords_two src (bestRun src)
  obtain ⟨rest, hrun, hfits, hshort⟩ :=
    formatWords_drop src (bestRun src) 2 (by decide) two hlen
  rw [← htwo] at hrun
  set trailing := (bestRun src).any (fun r ↦ decide (r.base + r.len = 8)) with htrailing
  refine ⟨two ++ rest ++ (if trailing then [':'] else []), (hhex.append rest).append _, ?_, ?_⟩
  · rw [List.length_append]
    split
    · next h =>
      have := hshort (not_encapsulated_of_trailing h)
      simp only [List.length_singleton, inet6Addrstrlen]
      omega
    · simpa using hfits
  · intro size hsize
    have htext : (if trailing then two ++ rest ++ [':'] else two ++ rest) =
        two ++ rest ++ (if trailing then [':'] else []) := by
      split <;> simp
    simp only [inetNtop6, hrun, ← htrailing, htext, Except.bind, bind, pure, Except.pure]
    rw [if_neg (by omega)]

end Unpv13e.Libgai
