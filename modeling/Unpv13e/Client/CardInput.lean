import Unpv13e.Base.Text

/-!
# The number typed for a card

Library `Client`. On the player's turn `is_valid_card_input` reads a number and, for a wild card, the colour
after it (`src/tcpcliserv/final_cli.c:721–761`). Sign and digits are copied to an array of 256 bytes however many
they are.
-/

namespace Unpv13e.Client
open Unpv13e.Base

/-- `'\0'` -/
def nul : Char := Char.ofNat 0

/-- `while (isdigit(str[i])) i++`: how far it goes in what is left of the string. -/
def digitsIn : Text → Nat
  | [] => 0
  | c :: cs => if c.isDigit then digitsIn cs + 1 else 0

/-- The letters a wild card's colour is chosen by. -/
def IsColour (c : Char) : Prop := c = 'r' ∨ c = 'y' ∨ c = 'g' ∨ c = 'b'

instance (c : Char) : Decidable (IsColour c) := inferInstanceAs (Decidable (_ ∨ _))

/-- `sizeof(number_part)` -/
def numberPartSize : Nat := 256

/-- `strncpy` to `number_part`, which is zero before, and `strtol` of it. A byte is written for each character,
and the array is a string as long as one byte is left. -/
def numberOf (part : Text) : Except Stop Int :=
  if part.length < numberPartSize then
    let value := strtol part
    .ok (if 108 ≤ value ∨ value ≤ 0 then 0 else value)
  else .error .outOfBounds

/-- The suffix at `str[i]` and the index after it, `none` if it is another character. -/
def suffixAt (str : Text) (i : Nat) : Option (Char × Nat) :=
  let c := charAt str i
  if c = nul then some (nul, i) else if IsColour c then some (c, i + 1) else none

/-- `src/tcpcliserv/final_cli.c:721–761`: what is returned, and `*suffix` if it is assigned. -/
def isValidCardInput (str : Text) : Except Stop (Int × Option Char) :=
  if str.length = 0 then .ok (0, none)
  else
    let i := if charAt str 0 = '-' ∨ charAt str 0 = '+' then 1 else 0
    if (charAt str i).isDigit = false then .ok (0, none)
    else
      match suffixAt str (i + digitsIn (str.drop i)) with
      | none => .ok (0, some nul)
      | some (suffix, i) =>
        if charAt str i ≠ nul then .ok (0, some suffix)
        else (numberOf (str.take (i - if suffix = nul then 0 else 1))).map fun v ↦ (v, some suffix)

/-- An optional sign, one or more digits and at most one letter for a colour. -/
structure CardInput where
  sign : Text
  digits : Text
  letter : Text
  sign_mem : sign ∈ [[], ['-'], ['+']]
  digits_ne : digits ≠ []
  digits_all : ∀ c ∈ digits, c.isDigit = true
  letter_mem : letter ∈ [[], ['r'], ['y'], ['g'], ['b']]

namespace CardInput

/-- The part that is copied. -/
def number (p : CardInput) : Text := p.sign ++ p.digits

def text (p : CardInput) : Text := p.number ++ p.letter

/-- The number with its sign. -/
def value (p : CardInput) : Int :=
  if p.sign = ['-'] then -(Nat.ofDigitChars 10 p.digits 0 : Int) else Nat.ofDigitChars 10 p.digits 0

/-- The letter, or NUL. -/
def suffix (p : CardInput) : Char := charAt p.letter 0

/-- From the first card to the last but one of the deck. -/
def InRange (p : CardInput) : Prop := 1 ≤ p.value ∧ p.value ≤ 107

instance (p : CardInput) : Decidable p.InRange := inferInstanceAs (Decidable (_ ∧ _))

end CardInput

/-- What the two loops of the function find: a sign, digits, and what comes after them. -/
structure Scanned (str sign ds rest : Text) : Prop where
  eq : str = sign ++ ds ++ rest
  sign_mem : sign ∈ [[], ['-'], ['+']]
  sign_length : sign.length = if charAt str 0 = '-' ∨ charAt str 0 = '+' then 1 else 0
  digits : ∀ c ∈ ds, c.isDigit = true
  stop : (charAt rest 0).isDigit = false

variable {str sign ds rest : Text} {p : CardInput}

private theorem charAt_append_length (s t : Text) (k : Nat) : charAt (s ++ t) (s.length + k) = charAt t k := by
  unfold charAt
  rw [List.getD_append_right _ _ _ _ (Nat.le_add_right _ _), Nat.add_sub_cancel_left]

private theorem isDigit_charAt (hne : ds ≠ []) (hds : ∀ c ∈ ds, c.isDigit = true) :
    (charAt (ds ++ rest) 0).isDigit = true := by
  obtain ⟨c, cs, rfl⟩ := List.exists_cons_of_ne_nil hne
  exact hds c List.mem_cons_self

private theorem digitsIn_append (hds : ∀ c ∈ ds, c.isDigit = true) (hstop : (charAt rest 0).isDigit = false) :
    digitsIn (ds ++ rest) = ds.length := by
  induction ds with
  | nil =>
    cases rest with
    | nil => rfl
    | cons c cs =>
      have hc : ¬ c.isDigit = true := by
        rw [show c.isDigit = false from hstop]
        exact Bool.false_ne_true
      exact if_neg hc
  | cons c cs ih =>
    rw [List.cons_append, digitsIn, if_pos (hds c List.mem_cons_self),
      ih fun d hd ↦ hds d (List.mem_cons_of_mem c hd)]
    rfl

/-- The function sees a sign, digits and a rest in every string. -/
private theorem exists_scanned (str : Text) : ∃ sign ds rest, Scanned str sign ds rest := by
  have hstop (s : Text) : (charAt (s.dropWhile Char.isDigit) 0).isDigit = false := by
    induction s with
    | nil => rfl
    | cons c cs ih =>
      by_cases hc : c.isDigit = true
      · rw [List.dropWhile_cons_of_pos hc]
        exact ih
      · rw [List.dropWhile_cons_of_neg hc]
        exact Bool.eq_false_iff.mpr hc
  have hdigits (s : Text) (c : Char) (hc : c ∈ s.takeWhile Char.isDigit) : c.isDigit = true :=
    List.mem_takeWhile_imp hc
  by_cases hsign : charAt str 0 = '-' ∨ charAt str 0 = '+'
  · cases str with
    | nil => exact absurd hsign (by decide)
    | cons c cs =>
      refine ⟨[c], cs.takeWhile Char.isDigit, cs.dropWhile Char.isDigit, ?_, ?_, ?_, hdigits cs, hstop cs⟩
      · rw [List.append_assoc, List.takeWhile_append_dropWhile]
        rfl
      · rcases hsign with rfl | rfl
        · decide
        · decide
      · exact (if_pos hsign).symm
  · refine ⟨[], str.takeWhile Char.isDigit, str.dropWhile Char.isDigit, ?_, by decide, ?_, hdigits str, hstop str⟩
    · exact List.takeWhile_append_dropWhile.symm
    · exact (if_neg hsign).symm

/-- It sees the parts of a card's number. -/
private theorem CardInput.scanned (p : CardInput) : Scanned p.text p.sign p.digits p.letter := by
  refine ⟨rfl, p.sign_mem, ?_, p.digits_all, ?_⟩
  · have hmem := p.sign_mem
    simp only [List.mem_cons, List.not_mem_nil, or_false] at hmem
    have hfirst : p.sign = [] → ¬ (charAt p.text 0 = '-' ∨ charAt p.text 0 = '+') := by
      intro hs h
      have hdigit : (charAt p.text 0).isDigit = true := by
        unfold text number
        rw [hs, List.nil_append]
        exact isDigit_charAt p.digits_ne p.digits_all
      rcases h with h | h
      · rw [h] at hdigit
        exact absurd hdigit (by decide)
      · rw [h] at hdigit
        exact absurd hdigit (by decide)
    rcases hmem with hs | hs | hs
    · rw [if_neg (hfirst hs), hs]
      rfl
    · have hminus : charAt p.text 0 = '-' := by
        unfold text number
        rw [hs]
        rfl
      rw [if_pos (.inl hminus), hs]
      rfl
    · have hplus : charAt p.text 0 = '+' := by
        unfold text number
        rw [hs]
        rfl
      rw [if_pos (.inr hplus), hs]
      rfl
  · have hmem := p.letter_mem
    simp only [List.mem_cons, List.not_mem_nil, or_false] at hmem
    rcases hmem with h | h | h | h | h <;> rw [h] <;> decide

/-- Without a digit nothing is read. -/
private theorem Scanned.refused (h : Scanned str sign [] rest) : isValidCardInput str = .ok (0, none) := by
  have hcharAt : charAt str sign.length = charAt rest 0 := by
    have := charAt_append_length (sign ++ []) rest 0
    rw [← h.eq, List.append_nil] at this
    exact this
  unfold isValidCardInput
  split
  · rfl
  · dsimp only
    rw [← h.sign_length, hcharAt, h.stop]
    rfl

/-- With a digit, the rest decides. -/
private theorem Scanned.decided (h : Scanned str sign ds rest) (hne : ds ≠ []) : isValidCardInput str =
    if charAt rest 0 = nul then (numberOf (sign ++ ds)).map fun v ↦ (v, some nul)
    else if IsColour (charAt rest 0) then
      if charAt rest 1 = nul then (numberOf (sign ++ ds)).map fun v ↦ (v, some (charAt rest 0))
      else .ok (0, some (charAt rest 0))
    else .ok (0, some nul) := by
  have hlength : str.length ≠ 0 := by
    have := List.length_pos_of_ne_nil hne
    rw [h.eq, List.length_append, List.length_append]
    omega
  have hdrop : str.drop sign.length = ds ++ rest := by
    rw [h.eq, List.append_assoc, List.drop_left]
  have hfirst : (charAt str sign.length).isDigit = true := by
    have := charAt_append_length sign (ds ++ rest) 0
    rw [← List.append_assoc, ← h.eq] at this
    exact this ▸ isDigit_charAt hne h.digits
  have hrest (k : Nat) : charAt str (sign.length + ds.length + k) = charAt rest k := by
    have := charAt_append_length (sign ++ ds) rest k
    rwa [← h.eq, List.length_append] at this
  have htake : str.take (sign.length + ds.length) = sign ++ ds := by
    rw [h.eq, ← List.length_append, List.take_left]
  have hnext : charAt str (sign.length + ds.length) = charAt rest 0 := hrest 0
  unfold isValidCardInput
  rw [if_neg hlength]
  dsimp only
  rw [← h.sign_length, hfirst, if_neg (by decide), hdrop, digitsIn_append h.digits h.stop]
  unfold suffixAt
  dsimp only
  rw [hnext]
  by_cases hnul : charAt rest 0 = nul
  · rw [if_pos hnul, if_pos hnul]
    dsimp only
    rw [hnext, if_neg (not_not.mpr hnul), if_pos rfl, Nat.sub_zero, htake]
  · rw [if_neg hnul, if_neg hnul]
    by_cases hcolour : IsColour (charAt rest 0)
    · rw [if_pos hcolour, if_pos hcolour]
      dsimp only
      rw [hrest 1]
      by_cases hend : charAt rest 1 = nul
      · rw [if_neg (not_not.mpr hend), if_pos hend, if_neg hnul, Nat.add_sub_cancel, htake]
      · rw [if_pos hend, if_neg hend]
    · rw [if_neg hcolour, if_neg hcolour]

/-- A card's number is copied, whatever comes of it. -/
theorem CardInput.isValidCardInput_text (p : CardInput) :
    isValidCardInput p.text = (numberOf p.number).map fun v ↦ (v, some p.suffix) := by
  have hmem := p.letter_mem
  rw [p.scanned.decided p.digits_ne]
  simp only [List.mem_cons, List.not_mem_nil, or_false] at hmem
  rcases hmem with h | h | h | h | h <;> unfold suffix <;> rw [h] <;> rfl

/-- Every other string is refused. -/
theorem isValidCardInput_refused (hnul : nul ∉ str) (h : ∀ p : CardInput, p.text ≠ str) :
    ∃ suffix, isValidCardInput str = .ok (0, suffix) := by
  obtain ⟨sign, ds, rest, hscan⟩ := exists_scanned str
  by_cases hne : ds = []
  · subst hne
    exact ⟨none, hscan.refused⟩
  have hrest : nul ∉ rest := fun hin ↦ hnul (hscan.eq ▸ List.mem_append_right _ hin)
  have hletter : rest ∉ [[], ['r'], ['y'], ['g'], ['b']] :=
    fun hin ↦ h ⟨sign, ds, rest, hscan.sign_mem, hne, hscan.digits, hin⟩ hscan.eq.symm
  rw [hscan.decided hne]
  cases rest with
  | nil => exact absurd List.mem_cons_self hletter
  | cons c cs =>
    have hc : charAt (c :: cs) 0 = c := rfl
    have hcnul : c ≠ nul := fun he ↦ hrest (he ▸ List.mem_cons_self)
    rw [hc, if_neg hcnul]
    by_cases hcolour : IsColour c
    · cases cs with
      | nil =>
        refine absurd ?_ hletter
        rcases hcolour with rfl | rfl | rfl | rfl <;> decide
      | cons d cs =>
        have hd : charAt (c :: d :: cs) 1 = d := rfl
        have hdnul : d ≠ nul := fun he ↦ hrest (he ▸ List.mem_cons_of_mem c List.mem_cons_self)
        rw [if_pos hcolour, hd, if_neg hdnul]
        exact ⟨_, rfl⟩
    · rw [if_neg hcolour]
      exact ⟨_, rfl⟩

/-- Clipping to a `long` takes no value in the range and none out of it. -/
private theorem clipped {n v : Int} (h : v = min longMax n ∨ v = max longMin n) :
    (if 108 ≤ v ∨ v ≤ 0 then 0 else v) = if 1 ≤ n ∧ n ≤ 107 then n else 0 := by
  have hmax : 107 < longMax := by decide
  have hmin : longMin < 0 := by decide
  split
  · rw [if_neg (by omega)]
  · rw [if_pos (by omega)]
    omega

/-- A number that fits has its value, if that is in the range. -/
theorem CardInput.numberOf_number (h : p.number.length < numberPartSize) :
    numberOf p.number = .ok (if p.InRange then p.value else 0) := by
  have hvalue : strtol p.number = min longMax p.value ∨ strtol p.number = max longMin p.value := by
    obtain ⟨hdigits, hplus⟩ := strtol_digits p.digits_ne p.digits_all
    have hmem := p.sign_mem
    simp only [List.mem_cons, List.not_mem_nil, or_false] at hmem
    unfold number value
    rcases hmem with hs | hs | hs
    · rw [hs]
      exact .inl hdigits
    · rw [hs]
      exact .inr (strtol_minus p.digits_all)
    · rw [hs]
      exact .inl hplus
  unfold numberOf
  rw [if_pos h]
  exact congrArg Except.ok (clipped hvalue)

/-- What is returned is positive for a card's number in the range and for no other string, it is that number, and
the suffix is its letter. The copy stays within its array. -/
def Exact (str : Text) : Prop :=
  ∃ v suffix, isValidCardInput str = .ok (v, suffix) ∧
    (0 < v ↔ ∃ p : CardInput, p.text = str ∧ p.InRange) ∧
    ∀ p : CardInput, p.text = str → p.InRange → v = p.value ∧ suffix = some p.suffix

/-- A C string is read as it should be exactly when, if it is a card's number, its sign and digits leave a byte
of the array. -/
theorem isValidCardInput_exact (hnul : nul ∉ str) :
    Exact str ↔ ∀ p : CardInput, p.text = str → p.number.length < numberPartSize := by
  have hread {p : CardInput} (h : p.number.length < numberPartSize) :
      isValidCardInput p.text = .ok (if p.InRange then p.value else 0, some p.suffix) := by
    rw [p.isValidCardInput_text, CardInput.numberOf_number h]
    rfl
  constructor
  · rintro ⟨v, suffix, hv, -⟩ p rfl
    by_contra hlong
    rw [p.isValidCardInput_text, numberOf, if_neg hlong] at hv
    cases hv
  · intro hfits
    by_cases hp : ∃ p : CardInput, p.text = str
    · obtain ⟨p, rfl⟩ := hp
      refine ⟨_, _, hread (hfits p rfl), ⟨fun hpos ↦ ⟨p, rfl, ?_⟩, ?_⟩, ?_⟩
      · by_contra hout
        rw [if_neg hout] at hpos
        exact lt_irrefl 0 hpos
      · rintro ⟨q, hq, hin⟩
        have heq := hread (hfits q hq)
        rw [hq, hread (hfits p rfl), if_pos hin] at heq
        rw [(Prod.mk.inj (Except.ok.inj heq)).1]
        exact hin.1
      · intro q hq hin
        have heq := hread (hfits q hq)
        rw [hq, hread (hfits p rfl), if_pos hin] at heq
        exact Prod.mk.inj (Except.ok.inj heq)
    · rw [not_exists] at hp
      obtain ⟨suffix, hzero⟩ := isValidCardInput_refused hnul hp
      refine ⟨0, suffix, hzero, ⟨fun hpos ↦ absurd hpos (lt_irrefl 0), ?_⟩, ?_⟩
      · rintro ⟨q, hq, -⟩
        exact absurd hq (hp q)
      · intro q hq
        exact absurd hq (hp q)

/-- The twelfth card, in red if it is a wild one. -/
theorem isValidCardInput_exact_twelve : Exact ['1', '2', 'r'] := by
  refine (isValidCardInput_exact (by decide)).mpr fun p hp ↦ ?_
  have hle : p.number.length ≤ p.text.length := by
    unfold CardInput.text
    rw [List.length_append]
    exact Nat.le_add_right _ _
  rw [hp] at hle
  exact lt_of_le_of_lt hle (by decide)

/-- Card 5, with three hundred zeros before the digit. -/
def paddedFive : CardInput where
  sign := []
  digits := List.replicate 300 '0' ++ ['5']
  letter := []
  sign_mem := by decide
  digits_ne := by decide
  digits_all c hc := by
    rcases List.mem_append.mp hc with h | h
    · rw [List.eq_of_mem_replicate h]
      decide
    · rw [List.mem_singleton.mp h]
      decide
  letter_mem := by decide

/-- It is in the range, and more than the array holds is written to it. -/
theorem paddedFive_overruns : paddedFive.InRange ∧ nul ∉ paddedFive.text ∧ paddedFive.text.length < 4096 ∧
    isValidCardInput paddedFive.text = .error .outOfBounds ∧ ¬ Exact paddedFive.text := by
  have hlong : ¬ paddedFive.number.length < numberPartSize := by decide +kernel
  refine ⟨by decide +kernel, by decide +kernel, by decide +kernel, ?_, ?_⟩
  · rw [paddedFive.isValidCardInput_text, numberOf, if_neg hlong]
    rfl
  · rintro ⟨v, suffix, hv, -⟩
    rw [paddedFive.isValidCardInput_text, numberOf, if_neg hlong] at hv
    cases hv

end Unpv13e.Client
