import Mathlib

/-!
# C strings

Library `Base`. A C string is the list of its characters without the terminating NUL.
The functions are the parts of the C library the modelled programs call on such strings:
indexing up to the terminator, `strcspn` on a newline, `strtok` on a blank, `strtol` in
base ten and `printf`'s `%d`.
-/

namespace Unpv13e.Base

/-- Why the modelled code takes no step. All but `blocked` are undefined behaviour. -/
inductive Stop
  | blocked
  | outOfBounds
  | nullToken
  | indeterminate
  | divByZero
  deriving DecidableEq, Repr

-- The index types of the models; named, so that their numerals and the tests for membership
-- mention no auxiliary proof.
instance neZero_two : NeZero 2 := ⟨by decide⟩

instance neZero_ten : NeZero 10 := ⟨by decide⟩

instance lawfulBEq_ten : LawfulBEq (Fin 10) := inferInstance

instance lawfulBEq_charPair : LawfulBEq (Char × Char) := inferInstance

instance neZero_fortyFive : NeZero 45 := ⟨by decide⟩

instance neZero_hundredEight : NeZero 108 := ⟨by decide⟩

/-- A C string, its terminating NUL left out. -/
abbrev Text := List Char

/-- `s[k]` for an index up to the terminator, which reads as NUL. -/
def charAt (s : Text) (k : Nat) : Char := s.getD k (Char.ofNat 0)

/-- The first two characters of a line, which tell its kind. -/
def opOf (line : Text) : Char × Char := (charAt line 0, charAt line 1)

/-- `s[strcspn(s, "\n")] = '\0'`: the text before the first newline. -/
def chop (s : Text) : Text := s.takeWhile (· ≠ '\n')

/-- The first maximal run of non-blank characters, and what is left after it. -/
def tokensFrom : Text → Text → List Text
  | cur, [] => if cur = [] then [] else [cur]
  | cur, c :: cs =>
    if c = ' ' then
      if cur = [] then tokensFrom [] cs else cur :: tokensFrom [] cs
    else tokensFrom (cur ++ [c]) cs

/-- The successive results of `strtok(s, " ")`, `strtok(NULL, " ")`, and so on. -/
def tokens (s : Text) : List Text := tokensFrom [] s

/-- A text `strtok` returns unchanged: not empty and without a blank. -/
def IsWord (w : Text) : Prop := w ≠ [] ∧ ' ' ∉ w

instance (w : Text) : Decidable (IsWord w) := inferInstanceAs (Decidable (_ ∧ _))

private theorem tokensFrom_append (w : Text) (hw : ' ' ∉ w) (cur rest : Text) :
    tokensFrom cur (w ++ rest) = tokensFrom (cur ++ w) rest := by
  induction w generalizing cur with
  | nil => simp
  | cons c cs ih =>
    have hc : c ≠ ' ' := fun h ↦ hw (by simp [h])
    have hcs : ' ' ∉ cs := fun h ↦ hw (by simp [h])
    rw [List.cons_append, tokensFrom, if_neg hc, ih hcs]
    simp

/-- A word followed by a blank is the first token. -/
theorem tokens_word_blank (w rest : Text) (hw : IsWord w) :
    tokens (w ++ ' ' :: rest) = w :: tokens rest := by
  rw [tokens, tokensFrom_append w hw.2, List.nil_append, tokensFrom, if_pos rfl, if_neg hw.1]
  rfl

/-- A word alone is the only token. -/
theorem tokens_word (w : Text) (hw : IsWord w) : tokens w = [w] := by
  have h := tokensFrom_append w hw.2 [] []
  rw [List.append_nil, List.nil_append] at h
  rw [tokens, h, tokensFrom, if_neg hw.1]

private theorem mem_tokensFrom {cur s w : Text} (hcur : ' ' ∉ cur) (h : w ∈ tokensFrom cur s) :
    IsWord w ∧ ∀ c ∈ w, c ∈ cur ++ s := by
  induction s generalizing cur with
  | nil =>
    rw [tokensFrom] at h
    split at h
    · cases h
    · next hne =>
      cases List.mem_singleton.mp h
      exact ⟨⟨hne, hcur⟩, by simp⟩
  | cons c cs ih =>
    rw [tokensFrom] at h
    split at h
    · split at h
      · obtain ⟨hw, hin⟩ := ih List.not_mem_nil h
        exact ⟨hw, fun d hd ↦ by simp [show d ∈ cs by simpa using hin d hd]⟩
      · next hne =>
        rcases List.mem_cons.mp h with rfl | h
        · exact ⟨⟨hne, hcur⟩, fun d hd ↦ by simp [hd]⟩
        · obtain ⟨hw, hin⟩ := ih List.not_mem_nil h
          exact ⟨hw, fun d hd ↦ by simp [show d ∈ cs by simpa using hin d hd]⟩
    · next hc =>
      have hcur' : ' ' ∉ cur ++ [c] := by simp [hcur, Ne.symm hc]
      simpa using ih hcur' h

/-- What `strtok` returns is a word of characters of the text. -/
theorem mem_tokens {s w : Text} (h : w ∈ tokens s) : IsWord w ∧ ∀ c ∈ w, c ∈ s := by
  simpa using mem_tokensFrom List.not_mem_nil h

/-- Words written one after another, a blank before each. -/
def blankJoin (ws : List Text) : Text := ws.flatMap fun w ↦ ' ' :: w

/-- `strtok` gives back the words a line was put together from. -/
theorem tokens_blankJoin (w : Text) (ws : List Text) (hw : IsWord w)
    (hws : ∀ v ∈ ws, IsWord v) : tokens (w ++ blankJoin ws) = w :: ws := by
  induction ws generalizing w with
  | nil => simpa [blankJoin] using tokens_word w hw
  | cons v vs ih =>
    have hv := hws v (by simp)
    have hvs : ∀ u ∈ vs, IsWord u := fun u hu ↦ hws u (by simp [hu])
    have hsplit : w ++ blankJoin (v :: vs) = w ++ ' ' :: (v ++ blankJoin vs) := by
      simp [blankJoin]
    rw [hsplit, tokens_word_blank w _ hw, ih v hv hvs]

private def isBlankChar (c : Char) : Bool :=
  c = ' ' || ('\t' ≤ c && c ≤ '\r')

private def digitsValue (s : Text) : Nat :=
  Nat.ofDigitChars 10 (s.takeWhile Char.isDigit) 0

/-- The largest value of a 64-bit `long`. -/
def longMax : Int := 2 ^ 63 - 1

/-- The smallest value of a 64-bit `long`. -/
def longMin : Int := -2 ^ 63

/-- `strtol(s, &end, 10)`: blanks, an optional sign, digits; clipped to the range of `long`. -/
def strtol (s : Text) : Int :=
  match s.dropWhile isBlankChar with
  | '-' :: ds => max longMin (-(digitsValue ds : Int))
  | '+' :: ds => min longMax (digitsValue ds)
  | ds => min longMax (digitsValue ds)

/-- `printf`'s `%d`. -/
def decimal : Int → Text
  | .ofNat n => Nat.toDigits 10 n
  | .negSucc n => '-' :: Nat.toDigits 10 (n + 1)

/-- A printed number has digits and perhaps a sign. -/
theorem mem_decimal {n : Int} {c : Char} (h : c ∈ decimal n) : c = '-' ∨ c.isDigit = true := by
  have digits {k : Nat} (hk : c ∈ Nat.toDigits 10 k) : c.isDigit = true :=
    Nat.isDigit_of_mem_toDigits (by decide) (by decide) hk
  cases n with
  | ofNat k => exact .inr (digits h)
  | negSucc k =>
    rcases List.mem_cons.mp h with he | ht
    · exact .inl he
    · exact .inr (digits ht)

/-- A printed number is a word. -/
theorem isWord_decimal (n : Int) : IsWord (decimal n) := by
  constructor
  · cases n with
    | ofNat k => exact Nat.toDigits_ne_nil
    | negSucc k => simp [decimal]
  · intro h
    rcases mem_decimal h with he | hd
    · exact absurd he (by decide)
    · exact absurd hd (by decide)

private theorem digitsValue_toDigits (k : Nat) : digitsValue (Nat.toDigits 10 k) = k := by
  have hall : (Nat.toDigits 10 k).takeWhile Char.isDigit = Nat.toDigits 10 k := by
    apply List.takeWhile_eq_self_iff.mpr
    exact fun c hc ↦ Nat.isDigit_of_mem_toDigits (by decide) (by decide) hc
  unfold digitsValue
  rw [hall]
  exact Nat.ofDigitChars_ten_toDigits

private theorem not_blank_of_isDigit {c : Char} (h : c.isDigit = true) :
    isBlankChar c = false ∧ c ≠ '-' ∧ c ≠ '+' := by
  have h0 : 48 ≤ c.val ∧ c.val ≤ 57 := by simpa [Char.isDigit] using h
  have hlow : 48 ≤ c.toNat := UInt32.le_iff_toNat_le.mp h0.1
  refine ⟨?_, ?_, ?_⟩
  · have h1 : c ≠ ' ' := by
      rintro rfl
      exact absurd hlow (by decide)
    have h2 : ¬ c ≤ '\r' := by
      intro hle
      have : c.toNat ≤ 13 := hle
      omega
    simp [isBlankChar, h1, h2]
  · rintro rfl
    exact absurd hlow (by decide)
  · rintro rfl
    exact absurd hlow (by decide)

/-- The values of a 32-bit `int`. -/
def IsInt (n : Int) : Prop := -2147483648 ≤ n ∧ n ≤ 2147483647

instance (n : Int) : Decidable (IsInt n) := inferInstanceAs (Decidable (_ ∧ _))

/-- The value is a `long`. -/
theorem strtol_le_longMax (s : Text) : strtol s ≤ longMax := by
  have hlow : longMin ≤ longMax := by decide
  have hzero : 0 ≤ longMax := by decide
  unfold strtol
  split
  · exact max_le hlow (by omega)
  · exact min_le_left _ _
  · exact min_le_left _ _

/-- `strtol` gives back a printed `long`. -/
theorem strtol_decimal {n : Int} (hlow : longMin ≤ n) (hhigh : n ≤ longMax) :
    strtol (decimal n) = n := by
  cases n with
  | negSucc k =>
    have hblank : isBlankChar '-' = false := by decide
    have hdrop : (decimal (.negSucc k)).dropWhile isBlankChar = '-' :: Nat.toDigits 10 (k + 1) := by
      simp [decimal, hblank]
    unfold strtol
    rw [hdrop]
    change max longMin (-(digitsValue (Nat.toDigits 10 (k + 1)) : Int)) = _
    rw [digitsValue_toDigits]
    omega
  | ofNat k =>
    obtain ⟨c, cs, hcs⟩ := List.exists_cons_of_ne_nil (Nat.toDigits_ne_nil (b := 10) (n := k))
    have hc : c.isDigit = true :=
      Nat.isDigit_of_mem_toDigits (by decide) (by decide) (hcs ▸ List.mem_cons_self)
    obtain ⟨hblank, hminus, hplus⟩ := not_blank_of_isDigit hc
    have hdrop : (decimal (.ofNat k)).dropWhile isBlankChar = Nat.toDigits 10 k := by
      change (Nat.toDigits 10 k).dropWhile isBlankChar = _
      rw [hcs]
      simp [hblank]
    have hvalue := digitsValue_toDigits k
    unfold strtol
    rw [hdrop]
    rw [hcs] at hvalue ⊢
    split
    · next h => exact absurd (List.cons.inj h).1 hminus
    · next h => exact absurd (List.cons.inj h).1 hplus
    · rw [hvalue]
      exact min_eq_right hhigh

/-- `strtol` of digits alone, or after a plus sign. -/
theorem strtol_digits {ds : Text} (hne : ds ≠ []) (h : ∀ c ∈ ds, c.isDigit = true) :
    strtol ds = min longMax (Nat.ofDigitChars 10 ds 0) ∧
      strtol ('+' :: ds) = min longMax (Nat.ofDigitChars 10 ds 0) := by
  have hvalue : digitsValue ds = Nat.ofDigitChars 10 ds 0 := by
    unfold digitsValue
    rw [List.takeWhile_eq_self_iff.mpr h]
  refine ⟨?_, ?_⟩
  · obtain ⟨c, cs, rfl⟩ := List.exists_cons_of_ne_nil hne
    obtain ⟨hblank, hminus, hplus⟩ := not_blank_of_isDigit (h c List.mem_cons_self)
    have hdrop : (c :: cs).dropWhile isBlankChar = c :: cs := List.dropWhile_cons_of_neg (by simp [hblank])
    unfold strtol
    rw [hdrop]
    split
    · next he => exact absurd (List.cons.inj he).1 hminus
    · next he => exact absurd (List.cons.inj he).1 hplus
    · rw [hvalue]
  · change min longMax (digitsValue ds : Int) = _
    rw [hvalue]

/-- `strtol` of a minus sign and digits. -/
theorem strtol_minus {ds : Text} (h : ∀ c ∈ ds, c.isDigit = true) :
    strtol ('-' :: ds) = max longMin (-(Nat.ofDigitChars 10 ds 0 : Int)) := by
  have hvalue : digitsValue ds = Nat.ofDigitChars 10 ds 0 := by
    unfold digitsValue
    rw [List.takeWhile_eq_self_iff.mpr h]
  change max longMin (-(digitsValue ds : Int)) = _
  rw [hvalue]

/-- `strtol` gives back a printed `int`. -/
theorem IsInt.strtol_decimal {n : Int} (h : IsInt n) : strtol (decimal n) = n := by
  have hlow : longMin ≤ -2147483648 := by decide
  have hhigh : 2147483647 ≤ longMax := by decide
  exact Base.strtol_decimal (hlow.trans h.1) (h.2.trans hhigh)

/-- `sprintf(s, fmt, n)` with one `size_t` argument: what is printed, `none` where that is
undefined. Of the conversions `%%` and `%zu` are followed. -/
def sprintf : Text → Option Nat → Option Text
  | [], _ => some []
  | '%' :: '%' :: fmt, n => (sprintf fmt n).map ('%' :: ·)
  | '%' :: 'z' :: 'u' :: fmt, some n => (sprintf fmt none).map (decimal n ++ ·)
  | '%' :: _, _ => none
  | c :: fmt, n => (sprintf fmt n).map (c :: ·)

/-- A format without conversions is printed as it is. -/
theorem sprintf_plain {fmt : Text} (h : '%' ∉ fmt) (n : Option Nat) : sprintf fmt n = some fmt := by
  induction fmt with
  | nil => rfl
  | cons c fmt ih =>
    have hc : c ≠ '%' := fun he ↦ h (he ▸ List.mem_cons_self)
    have hrest := ih fun hmem ↦ h (List.mem_cons_of_mem c hmem)
    have hone : sprintf (c :: fmt) n = (sprintf fmt n).map (c :: ·) := by
      rw [sprintf]
      · exact fun _ he _ ↦ hc he
      · exact hc
      · exact fun _ _ _ he _ ↦ hc he
    rw [hone, hrest]
    rfl

private theorem head_isDigit (n : Nat) : ∃ c cs, decimal n = c :: cs ∧ c ≠ '%' := by
  obtain ⟨c, cs, hcs⟩ := List.exists_cons_of_ne_nil (isWord_decimal n).1
  refine ⟨c, cs, hcs, ?_⟩
  have hmem : c ∈ decimal n := hcs ▸ List.mem_cons_self
  rintro rfl
  rcases mem_decimal hmem with h | h
  · exact absurd h (by decide)
  · exact absurd h (by decide)

/-- What is printed for a format never is the format after one more `%`. -/
private theorem sprintf_ne (fmt : Text) (n : Option Nat) (k : Nat) :
    sprintf fmt n ≠ some (List.replicate (k + 1) '%' ++ fmt) := by
  fun_induction sprintf fmt n generalizing k with
  | case1 n => simp
  | case2 fmt n ih =>
    intro h
    obtain ⟨out, hout, he⟩ := Option.map_eq_some_iff.mp h
    refine ih (k + 1) ?_
    rw [hout]
    have htail := (List.cons.inj he).2
    rw [htail, List.replicate_succ' (n := k + 1), List.append_assoc]
    simp [List.replicate_succ']
  | case3 fmt n ih =>
    intro h
    obtain ⟨out, hout, he⟩ := Option.map_eq_some_iff.mp h
    obtain ⟨c, cs, hcs, hne⟩ := head_isDigit n
    rw [hcs] at he
    exact hne (List.cons.inj he).1
  | case4 => nofun
  | case5 c fmt n h1 h2 h3 ih =>
    intro h
    obtain ⟨out, hout, he⟩ := Option.map_eq_some_iff.mp h
    exact h3 (List.cons.inj he).1

/-- A format is printed as it is exactly when it has no conversion. -/
theorem sprintf_eq_self (fmt : Text) (n : Option Nat) : sprintf fmt n = some fmt ↔ '%' ∉ fmt := by
  refine ⟨fun h ↦ ?_, fun h ↦ sprintf_plain h n⟩
  fun_induction sprintf fmt n with
  | case1 n => exact List.not_mem_nil
  | case2 fmt n ih => 
    obtain ⟨out, hout, he⟩ := Option.map_eq_some_iff.mp h
    rw [(List.cons.inj he).2] at hout
    exact absurd hout (sprintf_ne fmt _ 0)
  | case3 fmt n ih =>
    obtain ⟨out, hout, he⟩ := Option.map_eq_some_iff.mp h
    obtain ⟨c, cs, hcs, hne⟩ := head_isDigit n
    rw [hcs] at he
    exact absurd (List.cons.inj he).1 hne
  | case4 => cases h
  | case5 c fmt n h1 h2 h3 ih =>
    obtain ⟨out, hout, he⟩ := Option.map_eq_some_iff.mp h
    rw [(List.cons.inj he).2] at hout
    intro hmem
    rcases List.mem_cons.mp hmem with rfl | hmem
    · exact h3 rfl
    · exact ih hout hmem
/-- What is printed for a C string has no NUL. -/
theorem nul_sprintf {fmt out : Text} {n : Option Nat} (hnul : Char.ofNat 0 ∉ fmt)
    (h : sprintf fmt n = some out) : Char.ofNat 0 ∉ out := by
  fun_induction sprintf fmt n generalizing out with
  | case1 n =>
    cases h
    exact List.not_mem_nil
  | case2 fmt n ih =>
    obtain ⟨rest, hrest, rfl⟩ := Option.map_eq_some_iff.mp h
    intro hmem
    rcases List.mem_cons.mp hmem with he | hmem
    · exact absurd he (by decide)
    · exact ih (fun hin ↦ hnul (by simp [hin])) hrest hmem
  | case3 fmt n ih =>
    obtain ⟨rest, hrest, rfl⟩ := Option.map_eq_some_iff.mp h
    intro hmem
    rcases List.mem_append.mp hmem with hmem | hmem
    · rcases mem_decimal hmem with he | he
      · exact absurd he (by decide)
      · exact absurd he (by decide)
    · exact ih (fun hin ↦ hnul (by simp [hin])) hrest hmem
  | case4 => cases h
  | case5 c fmt n h1 h2 h3 ih =>
    obtain ⟨rest, hrest, rfl⟩ := Option.map_eq_some_iff.mp h
    intro hmem
    rcases List.mem_cons.mp hmem with rfl | hmem
    · exact hnul List.mem_cons_self
    · exact ih (fun hin ↦ hnul (List.mem_cons_of_mem c hin)) hrest hmem

/-! ### Lines put together from words -/

/-- A word that a line of the protocol can hold. -/
def IsField (w : Text) : Prop := IsWord w ∧ '\n' ∉ w

instance (w : Text) : Decidable (IsField w) := inferInstanceAs (Decidable (_ ∧ _))

/-- A printed number is a field. -/
theorem isField_decimal (n : Int) : IsField (decimal n) := by
  refine ⟨isWord_decimal n, fun h ↦ ?_⟩
  rcases mem_decimal h with he | hd
  · exact absurd he (by decide)
  · exact absurd hd (by decide)

/-- A text without a newline is left as it is. -/
theorem chop_of_notMem {s : Text} (h : '\n' ∉ s) : chop s = s := by
  apply List.takeWhile_eq_self_iff.mpr
  intro c hc
  have : c ≠ '\n' := fun he ↦ h (he ▸ hc)
  simpa using this

/-- What `strtok` returns of a line cut off at its newline is a field. -/
theorem isField_of_mem_tokens {s w : Text} (h : w ∈ tokens (chop s)) : IsField w := by
  obtain ⟨hw, hin⟩ := mem_tokens h
  refine ⟨hw, fun hnl ↦ ?_⟩
  have := List.mem_takeWhile_imp (hin _ hnl)
  simp at this

/-- The newline of a line is taken off. -/
theorem chop_line {s : Text} (h : '\n' ∉ s) : chop (s ++ ['\n']) = s := by
  have := chop_of_notMem h
  unfold chop at this ⊢
  rw [List.takeWhile_append, this]
  simp

/-- The words of a line put together from fields. -/
theorem tokens_line {w : Text} {ws : List Text} (hw : IsField w) (hws : ∀ v ∈ ws, IsField v) :
    tokens (chop (w ++ blankJoin ws ++ ['\n'])) = w :: ws := by
  have hnl : '\n' ∉ w ++ blankJoin ws := by
    intro h
    rcases List.mem_append.mp h with h | h
    · exact hw.2 h
    · obtain ⟨v, hv, h⟩ := List.mem_flatMap.mp h
      rcases List.mem_cons.mp h with h | h
      · exact absurd h (by decide)
      · exact (hws v hv).2 h
  rw [chop_line hnl]
  exact tokens_blankJoin w ws hw.1 fun v hv ↦ (hws v hv).1

end Unpv13e.Base
