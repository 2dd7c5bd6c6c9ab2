import Unpv13e.Base.Text

/-!
# Numerals and arrays of bytes

Library `Base`. The value of a text in a base, digit by digit as a scanner finds it; what it is for a
scanner to decide a predicate; stores into an array that check their index; and the loop that opens a
gap in such an array by moving what lies behind it to the end, one cell at a time.
-/

namespace Unpv13e.Base

/-! ### Numerals -/

/-- The place of a character in a text. -/
def strchr (s : Text) (c : Char) : Option Nat := s.idxOf? c

theorem strchr_lt {s : Text} {c : Char} {d : Nat} (h : strchr s c = some d) : d < s.length := by
  rw [strchr, List.idxOf?, List.findIdx?_eq_some_iff_getElem] at h
  exact h.1

/-- A longer text has the same characters at the same places. -/
theorem strchr_append {s : Text} {c : Char} {d : Nat} (h : strchr s c = some d) (t : Text) :
    strchr (s ++ t) c = some d := by
  unfold strchr List.idxOf? at h ⊢
  rw [List.findIdx?_append, h]
  rfl

/-- The value of a text in base `b` behind digits worth `acc`, when every character is a digit. -/
def numeral (dig : Char → Option Nat) (b : Nat) : Nat → Text → Option Nat
  | acc, [] => some acc
  | acc, c :: cs =>
    match dig c with
    | some d => numeral dig b (acc * b + d) cs
    | none => none

variable {dig : Char → Option Nat} {b acc v : Nat}

theorem numeral_cons {c : Char} {d : Nat} (hc : dig c = some d) (cs : Text) :
    numeral dig b acc (c :: cs) = numeral dig b (acc * b + d) cs := by rw [numeral, hc]

theorem numeral_append (s t : Text) :
    numeral dig b acc (s ++ t) = (numeral dig b acc s).bind (numeral dig b · t) := by
  induction s generalizing acc with
  | nil => rfl
  | cons c cs ih =>
    cases hd : dig c with
    | none => simp [numeral, hd]
    | some d => simp [numeral, hd, ih]

/-- One more digit at the end. -/
theorem numeral_concat {s : Text} {c : Char} {d : Nat} (hs : numeral dig b acc s = some v)
    (hc : dig c = some d) : numeral dig b acc (s ++ [c]) = some (v * b + d) := by
  rw [numeral_append, hs]
  simp [numeral, hc]

/-- More digits never make less. -/
theorem le_of_numeral (hb : 0 < b) {s : Text} (h : numeral dig b acc s = some v) : acc ≤ v := by
  induction s generalizing acc with
  | nil => exact (Option.some.inj h).le
  | cons c cs ih =>
    cases hd : dig c with
    | none =>
      rw [numeral, hd] at h
      cases h
    | some d =>
      rw [numeral, hd] at h
      have hmul : acc * 1 ≤ acc * b := Nat.mul_le_mul_left acc hb
      have := ih h
      omega

theorem mem_of_numeral {s : Text} (h : numeral dig b acc s = some v) {c : Char} (hc : c ∈ s) :
    (dig c).isSome = true := by
  induction s generalizing acc with
  | nil => cases hc
  | cons x xs ih =>
    cases hd : dig x with
    | none =>
      rw [numeral, hd] at h
      cases h
    | some d =>
      rw [numeral, hd] at h
      rcases List.mem_cons.mp hc with rfl | hc
      · rw [hd]
        rfl
      · exact ih h hc

theorem exists_numeral {s : Text} (h : ∀ c ∈ s, (dig c).isSome = true) :
    ∃ v, numeral dig b acc s = some v := by
  induction s generalizing acc with
  | nil => exact ⟨acc, rfl⟩
  | cons c cs ih =>
    obtain ⟨d, hd⟩ := Option.isSome_iff_exists.mp (h c List.mem_cons_self)
    rw [numeral_cons hd]
    exact ih fun x hx ↦ h x (List.mem_cons_of_mem c hx)

/-- The digits that are written for a number read as that number. -/
theorem numeral_toDigits (hb : 1 < b) (hdig : ∀ d < b, dig d.digitChar = some d) (n : Nat) :
    numeral dig b 0 (Nat.toDigits b n) = some n := by
  induction n using Nat.strongRecOn with
  | ind n ih =>
    rw [Nat.toDigits_eq_if hb]
    split
    · next hlt => simp [numeral, hdig n hlt]
    · next hge =>
      have hpos : 0 < n := by omega
      have hlast := hdig (n % b) (Nat.mod_lt n (by omega))
      rw [numeral_concat (ih (n / b) (Nat.div_lt_self hpos hb)) hlast, Nat.div_add_mod']

/-- The first character that is no digit ends the same prefix however the text is divided. -/
theorem append_cons_inj {p : Char → Prop} {s s' t t' : Text} {c c' : Char} (hs : ∀ x ∈ s, p x)
    (hs' : ∀ x ∈ s', p x) (hc : ¬ p c) (hc' : ¬ p c') (h : s ++ c :: t = s' ++ c' :: t') :
    s = s' ∧ c = c' ∧ t = t' := by
  induction s generalizing s' with
  | nil =>
    cases s' with
    | nil => exact ⟨rfl, List.cons.inj h⟩
    | cons x s' => exact absurd (hs' c (by rw [(List.cons.inj h).1]; exact List.mem_cons_self)) hc
  | cons y s ih =>
    cases s' with
    | nil => exact absurd (hs c' (by rw [← (List.cons.inj h).1]; exact List.mem_cons_self)) hc'
    | cons x s' =>
      obtain ⟨rfl, htail⟩ := List.cons.inj h
      obtain ⟨rfl, hrest⟩ := ih (fun x hx ↦ hs x (List.mem_cons_of_mem _ hx))
        (fun x hx ↦ hs' x (List.mem_cons_of_mem _ hx)) htail
      exact ⟨rfl, hrest⟩

/-! ### Scanners that decide -/

variable {α β : Type} {P Q : α → Prop} {x : Except Stop (Option α)}

/-- The scanner stops without an error, with a value that satisfies `P` where there is one. -/
def Decides (x : Except Stop (Option α)) (P : α → Prop) : Prop :=
  ∃ r, x = .ok r ∧ ∀ a, r = some a ↔ P a

theorem Decides.eq_some_iff (h : Decides x P) {a : α} : x = .ok (some a) ↔ P a := by
  obtain ⟨r, rfl, hr⟩ := h
  rw [← hr, Except.ok.injEq]

theorem Decides.eq_none_iff (h : Decides x P) : x = .ok none ↔ ∀ a, ¬ P a := by
  obtain ⟨r, rfl, hr⟩ := h
  rw [Except.ok.injEq]
  simp only [← hr]
  exact Option.eq_none_iff_forall_ne_some

theorem Decides.congr (h : Decides x P) (hPQ : ∀ a, P a ↔ Q a) : Decides x Q := by
  obtain ⟨r, hx, hr⟩ := h
  exact ⟨r, hx, fun a ↦ (hr a).trans (hPQ a)⟩

theorem decides_none (h : ∀ a, ¬ P a) : Decides (.ok none) P :=
  ⟨none, rfl, fun a ↦ ⟨fun ha ↦ (by cases ha), fun ha ↦ absurd ha (h a)⟩⟩

theorem decides_some {b : α} (h : ∀ a, P a ↔ a = b) : Decides (.ok (some b)) P :=
  ⟨some b, rfl, fun a ↦ by rw [h, Option.some.injEq, eq_comm]⟩

/-! ### Arrays -/

variable {z : α}

/-- `m[i]` -/
def fetch (m : List α) (i : Nat) : Except Stop α :=
  match m[i]? with
  | some x => .ok x
  | none => .error .outOfBounds

/-- `m[i] = x` -/
def save (m : List α) (i : Nat) (x : α) : Except Stop (List α) :=
  if i < m.length then .ok (m.set i x) else .error .outOfBounds

/-- `memcpy(m + i, xs, …)` -/
def saveAll (m : List α) (i : Nat) : List α → Except Stop (List α)
  | [] => .ok m
  | x :: xs => do
    let m ← save m i x
    saveAll m (i + 1) xs

theorem fetch_append (xs ys : List α) (x : α) : fetch (xs ++ x :: ys) xs.length = .ok x := by
  simp [fetch]

theorem save_append (xs ys : List α) (x y : α) :
    save (xs ++ x :: ys) xs.length y = .ok (xs ++ y :: ys) := by
  simp [save]

/-- As many cells as there are values behind the place are overwritten. -/
theorem saveAll_append (xs old ys zs : List α) (h : old.length = ys.length) :
    saveAll (xs ++ old ++ zs) xs.length ys = .ok (xs ++ ys ++ zs) := by
  induction ys generalizing xs old with
  | nil =>
    rw [List.eq_nil_of_length_eq_zero h]
    rfl
  | cons y ys ih =>
    obtain ⟨o, old, rfl⟩ := List.exists_cons_of_length_eq_add_one h
    rw [saveAll, List.append_assoc, List.cons_append, save_append]
    have hrest := ih (xs ++ [y]) old (Nat.succ.inj h)
    simpa [bind, Except.bind] using hrest

/-! ### The gap -/

/-- `for (i = 1; i <= n; i++) { endp[-i] = base[n - i]; base[n - i] = z; }` with `n - i` iterations
left: what lies from `base` on is moved to the end. -/
def openGap (z : α) (base endp n : Nat) : Nat → List α → Except Stop (List α)
  | 0, m => .ok m
  | k + 1, m => do
    let x ← fetch m (base + k)
    let m ← save m (endp - (n - k)) x
    let m ← save m (base + k) z
    openGap z base endp n k m

variable {pre xs ys : List α} {x : α} {base endp n g : Nat}

/-- One iteration with a free cell left moves one cell behind the free ones. -/
theorem openGap_succ_free (hbase : base = pre.length) (hn : n = xs.length + 1 + ys.length)
    (hend : endp = pre.length + n + g + 1) :
    openGap z base endp n (xs.length + 1) (pre ++ (xs ++ [x]) ++ List.replicate (g + 1) z ++ ys) =
      openGap z base endp n xs.length (pre ++ xs ++ List.replicate (g + 1) z ++ x :: ys) := by
  have hfrom : pre ++ (xs ++ [x]) ++ List.replicate (g + 1) z ++ ys =
      (pre ++ xs) ++ x :: (List.replicate g z ++ z :: ys) := by
    simp [List.replicate_succ']
  have hmoved : (pre ++ xs) ++ x :: (List.replicate g z ++ z :: ys) =
      (pre ++ xs ++ x :: List.replicate g z) ++ z :: ys := by simp
  have hclear : (pre ++ xs ++ x :: List.replicate g z) ++ x :: ys =
      (pre ++ xs) ++ x :: (List.replicate g z ++ x :: ys) := by simp
  have hfree : (pre ++ xs) ++ z :: (List.replicate g z ++ x :: ys) =
      pre ++ xs ++ List.replicate (g + 1) z ++ x :: ys := by simp [List.replicate_succ]
  have hload : base + xs.length = (pre ++ xs).length := by rw [hbase, List.length_append]
  have hplace : endp - (n - xs.length) = (pre ++ xs ++ x :: List.replicate g z).length := by
    simp only [List.length_append, List.length_cons, List.length_replicate]
    omega
  rw [hfrom, openGap, hload, fetch_append]
  simp only [bind, Except.bind]
  rw [hplace, hmoved, save_append]
  simp only [hclear, save_append, hfree]

/-- With free cells at the end the part `xs` moves behind them. -/
theorem openGap_free (hg : 0 < g) (hbase : base = pre.length) (hn : n = xs.length + ys.length)
    (hend : endp = pre.length + n + g) :
    openGap z base endp n xs.length (pre ++ xs ++ List.replicate g z ++ ys) =
      .ok (pre ++ List.replicate g z ++ xs ++ ys) := by
  obtain ⟨g, rfl⟩ : ∃ k, g = k + 1 := ⟨g - 1, by omega⟩
  induction xs using List.reverseRecOn generalizing ys with
  | nil => simp [openGap]
  | append_singleton xs x ih =>
    rw [List.length_append, List.length_singleton] at hn ⊢
    rw [openGap_succ_free hbase hn (by omega), ih (by rw [hn, List.length_cons]; omega)]
    simp

/-- One iteration with no free cell left moves a cell onto itself, and clears it. -/
theorem openGap_succ_full (hbase : base = pre.length) (hn : n = xs.length + 1 + ys.length)
    (hend : endp = pre.length + n) :
    openGap z base endp n (xs.length + 1) (pre ++ (xs ++ [x]) ++ ys) =
      openGap z base endp n xs.length (pre ++ xs ++ z :: ys) := by
  have hfrom : pre ++ (xs ++ [x]) ++ ys = (pre ++ xs) ++ x :: ys := by simp
  have hload : base + xs.length = (pre ++ xs).length := by rw [hbase, List.length_append]
  have hplace : endp - (n - xs.length) = (pre ++ xs).length := by
    rw [List.length_append]
    omega
  rw [hfrom, openGap, hload, fetch_append]
  simp only [bind, Except.bind]
  rw [hplace, save_append]
  simp only [save_append]

/-- With no free cell at the end the part `xs` is cleared. -/
theorem openGap_full (hbase : base = pre.length) (hn : n = xs.length + ys.length)
    (hend : endp = pre.length + n) :
    openGap z base endp n xs.length (pre ++ xs ++ ys) =
      .ok (pre ++ List.replicate xs.length z ++ ys) := by
  induction xs using List.reverseRecOn generalizing ys with
  | nil => simp [openGap]
  | append_singleton xs x ih =>
    rw [List.length_append, List.length_singleton] at hn ⊢
    rw [openGap_succ_full hbase hn hend, ih (by rw [hn, List.length_cons]; omega)]
    simp [List.replicate_succ']

end Unpv13e.Base
