import Unpv13e.Libfree.InetPton6

/-!
# Addresses there and back

Library `Libfree`. `inet_pton` of `src/libfree/inet_pton.c` takes what `inet_ntop` of
`src/libfree/inet_ntop.c` writes for an address, of either family, back to that address.
-/

namespace Unpv13e.Libfree
open Unpv13e.Base Unpv13e.Libgai

/-- `inet_pton`, `src/libfree/inet_pton.c:60–76`: what it returns, and what it stores. -/
def inetPton (af : Family) (src : Text) : Except Stop (Int × Option Address) :=
  match af with
  | .afInet => (inetPton4 src).map fun
    | some a => (1, some (.inet a))
    | none => (0, none)
  | .afInet6 => (inetPton6 src).map fun
    | some a => (1, some (.inet6 a))
    | none => (0, none)
  | _ => .ok (-1, none)

/-- For `AF_INET` it takes exactly the dotted quads. It ends, inside its arrays, and stores nothing else. -/
theorem inetPton_afInet (src : Text) :
    ∃ r, inetPton .afInet src = .ok r ∧ (r = (0, none) ∨ ∃ a, r = (1, some (.inet a))) ∧
      ∀ a, r = (1, some (.inet a)) ↔ Quad src a.toList := by
  obtain ⟨r, hr, hiff⟩ := decides_inetPton4 src
  cases r with
  | none => exact ⟨(0, none), by simp [inetPton, hr, Except.map], .inl rfl, fun a ↦ by simp [← hiff]⟩
  | some b =>
    refine ⟨(1, some (.inet b)), ?_, .inr ⟨b, rfl⟩, fun a ↦ by simp [← hiff]⟩
    simp [inetPton, hr, Except.map]

/-- For `AF_INET6`, exactly the texts of the grammar, as what they denote. -/
theorem inetPton_afInet6 (src : Text) :
    ∃ r, inetPton .afInet6 src = .ok r ∧ (r = (0, none) ∨ ∃ a, r = (1, some (.inet6 a))) ∧
      ∀ a, r = (1, some (.inet6 a)) ↔ Denotes src a := by
  obtain ⟨r, hr, hiff⟩ := decides_inetPton6 src
  cases r with
  | none => exact ⟨(0, none), by simp [inetPton, hr, Except.map], .inl rfl, fun a ↦ by simp [← hiff]⟩
  | some b =>
    refine ⟨(1, some (.inet6 b)), ?_, .inr ⟨b, rfl⟩, fun a ↦ by simp [← hiff]⟩
    simp [inetPton, hr, Except.map]

/-! ### The run of zeros -/

/-- The words of the run are there, and zero. -/
structure IsZeroRun (r : ZeroRun) (ws : List Nat) : Prop where
  le : r.base + r.len ≤ ws.length
  zero : ∀ j, r.base ≤ j → j < r.base + r.len → ws[j]? = some 0

theorem longer_isZeroRun {ws : List Nat} {best cur : Option ZeroRun} {r : ZeroRun}
    (hbest : ∀ r, best = some r → IsZeroRun r ws)
    (hcur : ∀ r, cur = some r → IsZeroRun r ws) (h : longer best cur = some r) :
    IsZeroRun r ws := by
  cases cur with
  | none => exact hbest r h
  | some c =>
    cases best with
    | none => exact hcur r h
    | some b =>
      rw [longer] at h
      split at h
      · exact hcur r h
      · exact hbest r h

/-- The loop over the words finds runs of zeros only. -/
theorem scanRuns_isZeroRun {all : List Nat} {best cur : Option ZeroRun} {r : ZeroRun} (i : Nat)
    (ws : List Nat) (hi : all.drop i = ws) (hbest : ∀ r, best = some r → IsZeroRun r all)
    (hcur : ∀ r, cur = some r → IsZeroRun r all ∧ r.base + r.len = i)
    (h : scanRuns i ws best cur = some r) : IsZeroRun r all := by
  induction ws generalizing i best cur with
  | nil => exact longer_isZeroRun hbest (fun r hr ↦ (hcur r hr).1) h
  | cons w ws ih =>
    have hw : all[i]? = some w := by
      have := congrArg (·[0]?) hi
      simpa [List.getElem?_drop] using this
    have hlt : i < all.length := (List.getElem?_eq_some_iff.mp hw).1
    have hnext : all.drop (i + 1) = ws := by
      rw [← List.drop_drop, hi]
      rfl
    rw [scanRuns] at h
    split at h
    · next hzero =>
      refine ih (i + 1) hnext hbest ?_ h
      intro r' hr'
      obtain rfl := Option.some.inj hr'
      cases cur with
      | none =>
        refine ⟨⟨hlt, fun j hlo hhi ↦ ?_⟩, rfl⟩
        obtain rfl : j = i := by
          change i ≤ j at hlo
          change j < i + 1 at hhi
          omega
        rw [hw, hzero]
      | some c =>
        obtain ⟨hcov, hend⟩ := hcur c rfl
        refine ⟨⟨?_, fun j hlo hhi ↦ ?_⟩, ?_⟩
        · change c.base + (c.len + 1) ≤ all.length
          omega
        · change c.base ≤ j at hlo
          change j < c.base + (c.len + 1) at hhi
          by_cases hj : j < c.base + c.len
          · exact hcov.zero j hlo hj
          · obtain rfl : j = i := by omega
            rw [hw, hzero]
        · change c.base + (c.len + 1) = i + 1
          omega
    · refine ih (i + 1) hnext (fun r hr ↦ ?_) (fun r hr ↦ by cases hr) h
      exact longer_isZeroRun hbest (fun r hr ↦ (hcur r hr).1) hr

/-- The run that is left out has two words or more, all zero. -/
theorem bestRun_isZeroRun {src : In6Addr} {r : ZeroRun} (h : bestRun src = some r) :
    2 ≤ r.len ∧ IsZeroRun r ((List.finRange 8).map (wordAt src)) := by
  obtain ⟨hscan, hlen⟩ := Option.filter_eq_some_iff.mp h
  refine ⟨of_decide_eq_true hlen, scanRuns_isZeroRun 0 _ rfl ?_ ?_ hscan⟩
  · exact fun r hr ↦ by cases hr
  · exact fun r hr ↦ by cases hr

/-! ### The words of an address -/

/-- The bytes from word `k` on. -/
def bytesFrom (src : In6Addr) (k : Nat) : List UInt8 := src.toList.drop (2 * k)

theorem group_hex (src : In6Addr) (i : Fin 8) : Group (hex (wordAt src i)) (wordAt src i) := by
  have hdig : ∀ d < 16, xdigit d.digitChar = some d := by decide
  refine ⟨Nat.toDigits_ne_nil, numeral_toDigits (by decide) hdig _, ?_⟩
  have := wordAt_lt src i
  omega

/-- A word is stored as the two bytes it was read from. -/
theorem bytes_of_word (src : In6Addr) (i : Fin 8) (h : 2 * i.val < 16) (h' : 2 * i.val + 1 < 16) :
    (Item.word (wordAt src i)).bytes = [src.get ⟨2 * i, h⟩, src.get ⟨2 * i + 1, h'⟩] := by
  have hlo := (src.get ⟨2 * i + 1, h'⟩).toNat_lt_size
  have hhi := (src.get ⟨2 * i, h⟩).toNat_lt_size
  simp only [UInt8.size] at hlo hhi
  have hshift : wordAt src i >>> 8 = (src.get ⟨2 * i, h⟩).toNat := by
    rw [Nat.shiftRight_eq_div_pow]
    unfold wordAt
    omega
  change [UInt8.ofNat (wordAt src i >>> 8), UInt8.ofNat (wordAt src i)] = _
  congr 1
  · rw [hshift, UInt8.ofNat_toNat]
  · congr 1
    apply UInt8.toNat_inj.mp
    rw [UInt8.toNat_ofNat']
    unfold wordAt
    omega

theorem drop_two {l : List UInt8} {k : Nat} (h : 2 * k + 1 < l.length) :
    l.drop (2 * k) = l[2 * k] :: l[2 * k + 1] :: l.drop (2 * (k + 1)) := by
  rw [List.drop_eq_getElem_cons (by omega), List.drop_eq_getElem_cons (by omega)]
  rfl

theorem bytesFrom_succ (src : In6Addr) (i : Fin 8) :
    bytesFrom src i = (Item.word (wordAt src i)).bytes ++ bytesFrom src (i + 1) := by
  have hlen : src.toList.length = 16 := Vector.length_toList
  rw [bytes_of_word src i (by omega) (by omega), bytesFrom, drop_two (by omega)]
  rfl

theorem bytes_lastQuad (src : In6Addr) : (Item.quad (lastQuad src)).bytes = bytesFrom src 6 := by
  have hlen : src.toList.length = 16 := Vector.length_toList
  have hend : src.toList.drop 16 = [] := List.drop_of_length_le (by omega)
  rw [bytesFrom, drop_two (by omega), drop_two (by omega), hend]
  rfl

/-- The bytes of a word that is zero. -/
theorem bytes_zero : (Item.word 0).bytes = [0, 0] := rfl

/-- Words that are zero are zeros. -/
theorem bytesFrom_zero {src : In6Addr} {k n : Nat} (hk : k + n ≤ 8)
    (h : ∀ i : Fin 8, k ≤ i.val → i.val < k + n → wordAt src i = 0) :
    bytesFrom src k = List.replicate (2 * n) 0 ++ bytesFrom src (k + n) := by
  induction n generalizing k with
  | zero => rfl
  | succ n ih =>
    have hrest := ih (k := k + 1) (by omega) fun i hlo hhi ↦ h i (by omega) (by omega)
    have hzero := h ⟨k, by omega⟩ (Nat.le_refl k) (by change k < k + (n + 1); omega)
    have hfirst := bytesFrom_succ src ⟨k, by omega⟩
    rw [hzero, bytes_zero] at hfirst
    calc bytesFrom src k = [0, 0] ++ bytesFrom src (k + 1) := hfirst
      _ = [0, 0] ++ (List.replicate (2 * n) 0 ++ bytesFrom src (k + 1 + n)) := by rw [hrest]
      _ = List.replicate (2 * (n + 1)) 0 ++ bytesFrom src (k + (n + 1)) := by
        rw [Nat.mul_succ, Nat.add_comm (2 * n), List.replicate_add, Nat.add_assoc, Nat.add_comm 1]
        rfl

/-! ### The text of an address -/

/-- What stands behind a word. -/
def Follows (t : Text) (items : List Item) : Prop :=
  t = [] ∧ items = [] ∨ ∃ u, t = ':' :: u ∧ Spells u items

/-- A word with what follows it. -/
theorem Follows.word {src : In6Addr} {i : Fin 8} {t : Text} {items : List Item}
    (h : Follows t items) :
    Spells (hex (wordAt src i) ++ t) (.word (wordAt src i) :: items) := by
  rcases h with ⟨rfl, rfl⟩ | ⟨u, rfl, hu⟩
  · rw [List.append_nil]
    exact .last (group_hex src i)
  · exact .word (group_hex src i) hu

theorem drop_finRange {k : Nat} (hk : k < 8) :
    (List.finRange 8).drop k = ⟨k, hk⟩ :: (List.finRange 8).drop (k + 1) := by
  have h := List.drop_eq_getElem_cons (l := List.finRange 8) (i := k) (by simpa using hk)
  simpa using h

/-- What is written for a word behind the first, where it is not in the run and no dotted quad. -/
theorem formatWords_next {src : In6Addr} {best : Option ZeroRun} {i : Fin 8}
    (hrun : ¬ inRun best i = true) (hzero : i ≠ 0)
    (hquad : ¬ (decide (i = 6) && encapsulated src best) = true) (is : List (Fin 8)) (tp : Text) :
    formatWords src best (i :: is) tp =
      formatWords src best is (tp ++ ':' :: hex (wordAt src i)) := by
  rw [formatWords, if_neg hrun]
  simp only [if_neg hquad, if_pos hzero, List.append_assoc, List.singleton_append]

theorem inetNtop4_eq_some {src : InAddr} {size : Nat} {t : Text}
    (h : inetNtop4 src size = .ok (some t)) : t = dottedQuad src := by
  simp only [inetNtop4] at h
  split at h
  · cases h
  · split at h
    · cases h
    · exact (Option.some.inj (Except.ok.inj h)).symm

/-- The dotted quad ends what is written. -/
theorem formatWords_quad {src : In6Addr} {best : Option ZeroRun} (hrun : ¬ inRun best 6 = true)
    (henc : encapsulated src best = true) {is : List (Fin 8)} {tp out : Text}
    (h : formatWords src best (6 :: is) tp = .ok (some out)) :
    out = tp ++ ':' :: dottedQuad (lastQuad src) := by
  have hsix : (6 : Fin 8) ≠ 0 := by decide
  rw [formatWords, if_neg hrun] at h
  simp only [henc, decide_true, Bool.and_self, if_true, if_pos hsix] at h
  cases hn : inetNtop4 (lastQuad src) (inet6Addrstrlen - (tp ++ [':']).length) with
  | error e =>
    rw [hn] at h
    cases h
  | ok t =>
    cases t with
    | none =>
      rw [hn] at h
      cases h
    | some t =>
      rw [hn, inetNtop4_eq_some hn] at h
      have hout : tp ++ [':'] ++ dottedQuad (lastQuad src) = out := Option.some.inj (Except.ok.inj h)
      rw [← hout, List.append_assoc, List.singleton_append]

/-- The words behind the run, or all but the first where there is none: what is written for them stands
for their bytes. -/
theorem formatWords_after {src : In6Addr} {best : Option ZeroRun} {k : Nat} (hk : k ≤ 8)
    (hpos : 0 < k) (hout : ∀ i : Fin 8, k ≤ i.val → inRun best i = false) (tp out : Text)
    (h : formatWords src best ((List.finRange 8).drop k) tp = .ok (some out)) :
    ∃ t items, out = tp ++ t ∧ Follows t items ∧ .gap ∉ items ∧ laid items = bytesFrom src k ∧
      (t = [] ↔ k = 8) := by
  induction hk using Nat.decreasingInduction generalizing tp with
  | self =>
    have hend : formatWords src best ((List.finRange 8).drop 8) tp = .ok (some tp) := rfl
    have hlen : src.toList.length = 16 := Vector.length_toList
    rw [hend] at h
    cases h
    refine ⟨[], [], (List.append_nil _).symm, .inl ⟨rfl, rfl⟩, List.not_mem_nil, ?_, by simp⟩
    exact (List.drop_of_length_le (by omega)).symm
  | of_succ k hk ih =>
    have hrun : ¬ inRun best ⟨k, hk⟩ = true := by
      rw [hout ⟨k, hk⟩ (Nat.le_refl k)]
      exact Bool.false_ne_true
    have hne : (⟨k, hk⟩ : Fin 8) ≠ 0 := fun he ↦ hpos.ne' (congrArg Fin.val he)
    rw [drop_finRange hk] at h
    by_cases hquad : (decide (⟨k, hk⟩ = (6 : Fin 8)) && encapsulated src best) = true
    · obtain ⟨hsix, henc⟩ := Bool.and_eq_true_iff.mp hquad
      obtain rfl : k = 6 := congrArg Fin.val (of_decide_eq_true hsix)
      refine ⟨_, [.quad (lastQuad src)], formatWords_quad hrun henc h, ?_, by simp, ?_, by simp⟩
      · exact .inr ⟨_, rfl, .quad (quad_dottedQuad _)⟩
      · rw [laid_cons, bytes_lastQuad]
        exact List.append_nil _
    · rw [formatWords_next hrun hne hquad] at h
      obtain ⟨t, items, rfl, hfollows, hgap, hlaid, -⟩ :=
        ih (Nat.succ_pos k) (fun i hi ↦ hout i (Nat.le_of_succ_le hi)) _ h
      refine ⟨':' :: (hex (wordAt src ⟨k, hk⟩) ++ t), .word (wordAt src ⟨k, hk⟩) :: items, ?_,
        .inr ⟨_, rfl, hfollows.word⟩, by simpa using hgap, ?_, by simp [hk.ne]⟩
      · rw [List.append_assoc, List.cons_append]
      · rw [laid_cons, hlaid]
        exact (bytesFrom_succ src ⟨k, hk⟩).symm

/-- The words of the run write nothing behind the first. -/
theorem formatWords_skip {src : In6Addr} {r : ZeroRun} {k : Nat} (hk : k ≤ r.base + r.len)
    (hbase : r.base < k) (hend : r.base + r.len ≤ 8) (tp : Text) :
    formatWords src (some r) ((List.finRange 8).drop k) tp =
      formatWords src (some r) ((List.finRange 8).drop (r.base + r.len)) tp := by
  induction hk using Nat.decreasingInduction with
  | self => rfl
  | of_succ k hk ih =>
    have hlt : k < 8 := by omega
    have hrun : inRun (some r) ⟨k, hlt⟩ = true := inRun_iff.mpr ⟨r, rfl, hbase.le, hk⟩
    have hfirst : ¬ (some r).any (fun r ↦ decide (r.base = k)) = true := by
      simpa using hbase.ne
    rw [drop_finRange hlt, formatWords_run hrun, if_neg hfirst]
    exact ih (by omega)

/-- The colon behind a run that ends the address. -/
def trail (best : Option ZeroRun) : Text := if best.any (fun r ↦ r.base + r.len = 8) then [':'] else []

/-- From the run on: two colons, and what stands for the bytes behind it. -/
theorem formatWords_gap {src : In6Addr} {r : ZeroRun} (hlen : 2 ≤ r.len) (hend : r.base + r.len ≤ 8)
    {tp out : Text}
    (h : formatWords src (some r) ((List.finRange 8).drop r.base) tp = .ok (some out)) :
    ∃ u after, out ++ trail (some r) = tp ++ ':' :: ':' :: u ∧ Spells u after ∧ .gap ∉ after ∧
      laid after = bytesFrom src (r.base + r.len) := by
  have hlt : r.base < 8 := by omega
  have hrun : inRun (some r) ⟨r.base, hlt⟩ = true :=
    inRun_iff.mpr ⟨r, rfl, Nat.le_refl _, by change r.base < r.base + r.len; omega⟩
  have hfirst : (some r).any (fun q ↦ decide (q.base = r.base)) = true := by simp
  rw [drop_finRange hlt, formatWords_run hrun, if_pos hfirst,
    formatWords_skip (by omega) (Nat.lt_succ_self _) hend] at h
  have hout (i : Fin 8) (hi : r.base + r.len ≤ i.val) : inRun (some r) i = false := by
    rw [← Bool.not_eq_true, inRun_iff]
    rintro ⟨q, hq, -, hq'⟩
    cases hq
    omega
  obtain ⟨t, after, rfl, hfollows, hgap, hlaid, hne⟩ := formatWords_after hend (by omega) hout _ _ h
  by_cases height : r.base + r.len = 8
  · have htrail : trail (some r) = [':'] := by simp [trail, height]
    obtain rfl := hne.mpr height
    obtain rfl : after = [] := by
      rcases hfollows with ⟨-, hnil⟩ | ⟨u, hu, -⟩
      · exact hnil
      · cases hu
    refine ⟨[], [], ?_, .done, List.not_mem_nil, hlaid⟩
    rw [htrail]
    simp
  · have htrail : trail (some r) = [] := by simp [trail, height]
    rcases hfollows with ⟨ht, -⟩ | ⟨u, rfl, hu⟩
    · exact absurd (hne.mp ht) height
    · refine ⟨u, after, ?_, hu, hgap, hlaid⟩
      rw [htrail]
      simp

/-- The words before the run, all but the first: what is written for them and the run. -/
theorem formatWords_before {src : In6Addr} {r : ZeroRun} (hlen : 2 ≤ r.len)
    (hend : r.base + r.len ≤ 8) {k : Nat} (hk : k ≤ r.base) (hpos : 0 < k) (tp out : Text)
    (h : formatWords src (some r) ((List.finRange 8).drop k) tp = .ok (some out)) :
    ∃ u before after, out ++ trail (some r) = tp ++ ':' :: u ∧ Spells u (before ++ .gap :: after) ∧
      .gap ∉ before ∧ .gap ∉ after ∧ laid before ++ bytesFrom src r.base = bytesFrom src k ∧
      laid after = bytesFrom src (r.base + r.len) := by
  induction hk using Nat.decreasingInduction generalizing tp with
  | self =>
    obtain ⟨u, after, hout, hu, hgap, hlaid⟩ := formatWords_gap hlen hend h
    exact ⟨':' :: u, [], after, hout, .gap hu, List.not_mem_nil, hgap, rfl, hlaid⟩
  | of_succ k hk ih =>
    have hlt : k < 8 := by omega
    have hrun : ¬ inRun (some r) ⟨k, hlt⟩ = true := by
      rw [inRun_iff]
      rintro ⟨q, hq, hle, -⟩
      cases hq
      exact absurd hle (Nat.not_le.mpr hk)
    have hne : (⟨k, hlt⟩ : Fin 8) ≠ 0 := fun he ↦ hpos.ne' (congrArg Fin.val he)
    have hquad : ¬ (decide (⟨k, hlt⟩ = (6 : Fin 8)) && encapsulated src (some r)) = true := by
      have hzero : r.base ≠ 0 := by omega
      simp [encapsulated, hzero]
    rw [drop_finRange hlt, formatWords_next hrun hne hquad] at h
    obtain ⟨u, before, after, hout, hu, hb, ha, hbefore, hafter⟩ := ih (Nat.succ_pos k) _ h
    refine ⟨hex (wordAt src ⟨k, hlt⟩) ++ ':' :: u, .word (wordAt src ⟨k, hlt⟩) :: before, after, ?_,
      .word (group_hex src _) hu, by simpa using hb, ha, ?_, hafter⟩
    · rw [hout, List.append_assoc, List.cons_append]
    · rw [laid_cons, List.append_assoc, hbefore]
      exact (bytesFrom_succ src ⟨k, hlt⟩).symm

theorem leading_of_ne {c : Char} (hc : c ≠ ':') (s : Text) : leading (c :: s) = some (c :: s) := by
  unfold leading
  split
  · next heq => exact absurd (List.cons.inj heq).1 hc
  · rfl

/-- A text that begins with a word has no leading colon. -/
theorem leading_hex (src : In6Addr) (i : Fin 8) (t : Text) :
    leading (hex (wordAt src i) ++ t) = some (hex (wordAt src i) ++ t) := by
  have hgroup := group_hex src i
  obtain ⟨c, cs, hcs⟩ := List.exists_cons_of_ne_nil hgroup.ne_nil
  have hc : c ≠ ':' := by
    rintro rfl
    have := isSome_xdigit hgroup.value ':' (by rw [hcs]; exact List.mem_cons_self)
    rw [xdigit_colon] at this
    cases this
  rw [hcs]
  exact leading_of_ne hc _

/-- The items on both sides of the run stand for the address. -/
theorem lays_run {src : In6Addr} {r : ZeroRun} (hlen : 2 ≤ r.len)
    (hrun : IsZeroRun r ((List.finRange 8).map (wordAt src))) {before after : List Item}
    (hb : .gap ∉ before) (ha : .gap ∉ after)
    (hbefore : laid before ++ bytesFrom src r.base = src.toList)
    (hafter : laid after = bytesFrom src (r.base + r.len)) :
    Lays (before ++ .gap :: after) src.toList := by
  have hle : r.base + r.len ≤ 8 := by simpa using hrun.le
  have hzero (i : Fin 8) (hlo : r.base ≤ i.val) (hhi : i.val < r.base + r.len) : wordAt src i = 0 := by
    have := hrun.zero i.val hlo hhi
    simpa using this
  have hsplit : src.toList = laid before ++ List.replicate (2 * r.len) 0 ++ laid after := by
    rw [List.append_assoc, hafter, ← bytesFrom_zero hle hzero, hbefore]
  have hsum : (laid before).length + 2 * r.len + (laid after).length = 16 := by
    have := congrArg List.length hsplit
    rw [Vector.length_toList, List.length_append, List.length_append, List.length_replicate] at this
    exact this.symm
  rw [hsplit]
  exact .gap hb ha (by omega) hsum

/-- The words and the colon behind them are what is written. -/
theorem formatWords_of_inetNtop6 {src : In6Addr} {size : Nat} {out : Text}
    (h : inetNtop6 src size = .ok (some out)) :
    ∃ tp, formatWords src (bestRun src) (List.finRange 8) [] = .ok (some tp) ∧
      out = tp ++ trail (bestRun src) := by
  cases hf : formatWords src (bestRun src) (List.finRange 8) [] with
  | error e =>
    simp only [inetNtop6, hf, bind, Except.bind] at h
    cases h
  | ok r =>
    cases r with
    | none =>
      simp only [inetNtop6, hf, bind, Except.bind, pure, Except.pure] at h
      cases h
    | some tp =>
      refine ⟨tp, rfl, ?_⟩
      simp only [inetNtop6, hf, bind, Except.bind, pure, Except.pure, Except.ok.injEq] at h
      rw [← Option.some.inj (Option.ite_none_left_eq_some.mp h).2, trail]
      split <;> simp

/-- What `inet_ntop6` writes is a text of the same address. -/
theorem denotes_inetNtop6 {src : In6Addr} {size : Nat} {out : Text}
    (h : inetNtop6 src size = .ok (some out)) : Denotes out src := by
  obtain ⟨tp, htp, rfl⟩ := formatWords_of_inetNtop6 h
  have hsplit : List.finRange 8 = 0 :: (List.finRange 8).drop 1 := rfl
  have hsix : (0 : Fin 8) ≠ 6 := by decide
  cases hbest : bestRun src with
  | none =>
    have hfirst : ¬ inRun none 0 = true := Bool.false_ne_true
    rw [hbest, hsplit, formatWords_word hfirst hsix] at htp
    obtain ⟨t, items, rfl, hfollows, hgap, hlaid, -⟩ :=
      formatWords_after (by decide) (by decide) (fun i _ ↦ rfl) _ _ htp
    have htext : (if (0 : Fin 8) ≠ 0 then ([] : Text) ++ [':'] else []) ++ hex (wordAt src 0) ++ t ++
        trail none = hex (wordAt src 0) ++ t := by simp [trail]
    rw [htext]
    refine ⟨_, .word (wordAt src 0) :: items, leading_hex src 0 t, hfollows.word, ?_⟩
    have hall : laid (.word (wordAt src 0) :: items) = src.toList := by
      rw [laid_cons, hlaid]
      exact (bytesFrom_succ src 0).symm
    rw [← hall]
    exact .full (by simpa using hgap) (by rw [hall, Vector.length_toList])
  | some r =>
    obtain ⟨hlen, hrun⟩ := bestRun_isZeroRun hbest
    have hend : r.base + r.len ≤ 8 := by simpa using hrun.le
    rw [hbest] at htp
    by_cases hbase : r.base = 0
    · have hdrop : List.finRange 8 = (List.finRange 8).drop r.base := by rw [hbase]; rfl
      rw [hdrop] at htp
      obtain ⟨u, after, hout, hu, hgap, hlaid⟩ := formatWords_gap hlen hend htp
      rw [hout]
      refine ⟨':' :: u, [] ++ .gap :: after, rfl, .gap hu, lays_run hlen hrun List.not_mem_nil hgap ?_ hlaid⟩
      rw [hbase]
      rfl
    · have hfirst : ¬ inRun (some r) 0 = true := by
        rw [inRun_iff]
        rintro ⟨q, hq, hle, -⟩
        cases hq
        exact hbase (Nat.le_zero.mp hle)
      rw [hsplit, formatWords_word hfirst hsix] at htp
      obtain ⟨u, before, after, hout, hu, hb, ha, hbefore, hafter⟩ :=
        formatWords_before hlen hend (by omega) (by decide) _ _ htp
      rw [hout]
      have htext : (if (0 : Fin 8) ≠ 0 then ([] : Text) ++ [':'] else []) ++ hex (wordAt src 0) ++ ':' :: u =
          hex (wordAt src 0) ++ ':' :: u := by simp
      rw [htext]
      refine ⟨_, .word (wordAt src 0) :: before ++ .gap :: after, leading_hex src 0 _, .word (group_hex src 0) hu,
        lays_run hlen hrun (by simpa using hb) ha ?_ hafter⟩
      rw [laid_cons, List.append_assoc, hbefore]
      exact (bytesFrom_succ src 0).symm

/-! ### There and back -/

/-- A dotted quad is no IPv6 address: it has four bytes. -/
theorem not_denotes_dottedQuad (a : InAddr) (b : In6Addr) : ¬ Denotes (dottedQuad a) b := by
  rintro ⟨s, items, hlead, hs, hl⟩
  obtain ⟨g, o, t, hsplit, ho⟩ := quad_split (quad_dottedQuad a)
  obtain ⟨c, cs, hcs⟩ := List.exists_cons_of_ne_nil ho.1
  have hdigit := ho.isSome_xdigit c (by rw [hcs]; exact List.mem_cons_self)
  have hc : c ≠ ':' := by
    rintro rfl
    rw [xdigit_colon] at hdigit
    cases hdigit
  rw [hsplit, hcs, List.cons_append, leading_of_ne hc, ← List.cons_append, ← hcs, ← hsplit] at hlead
  cases hlead
  obtain ⟨v, hv⟩ : ∃ v, numeral xdigit 16 0 g = some v := exists_numeral ho.isSome_xdigit
  rw [hsplit] at hs
  obtain ⟨-, q, rfl, -⟩ := (spells_other hv xdigit_dot (by decide)).mp hs
  have hgap : Item.gap ∉ [Item.quad q] := by simp
  have hlen := ((lays_full hgap).mp hl).2
  have hfour : (laid [Item.quad q]).length = 4 := by
    rw [laid_cons, List.length_append]
    have hbytes : (Item.quad q).bytes.length = 4 := Vector.length_toList
    rw [hbytes]
    rfl
  omega

/-- What `inet_ntop6` writes has a colon, and is no dotted quad. -/
theorem not_quad_inetNtop6 {src : In6Addr} {size : Nat} {s : Text}
    (h : inetNtop6 src size = .ok (some s)) (bs : List UInt8) : ¬ Quad s bs := by
  intro hquad
  obtain ⟨t, hhex, hshort, hntop⟩ := exists_inetNtop6 src
  obtain ⟨tp, htp, rfl⟩ := formatWords_of_inetNtop6 h
  obtain ⟨tp', htp', rfl⟩ := formatWords_of_inetNtop6 (hntop _ hshort)
  obtain rfl := Option.some.inj (Except.ok.inj (htp.symm.trans htp'))
  have hnot : ¬ ((strchr digits ':').isSome = true ∨ ':' = '.') := by decide
  exact hnot (hquad.mem hhex.2)

/-- The family an address is of. -/
def familyOf : Address → Family
  | .inet _ => .afInet
  | .inet6 _ => .afInet6
  | .path _ => .afLocal

/-- Every text that `inet_ntop` writes is taken back to the address it was written for, and to no
address of the other family. -/
theorem inetPton_inetNtop {addr : Address} {size : Nat} {s : Text}
    (h : inetNtop addr size = .ok (some s)) (af : Family) :
    inetPton af s = .ok (if af = familyOf addr then (1, some addr)
      else if af = .afInet ∨ af = .afInet6 then (0, none) else (-1, none)) := by
  cases addr with
  | inet a =>
    obtain rfl := inetNtop4_eq_some h
    have hfour := (decides_inetPton4 _).eq_some_iff.mpr (quad_dottedQuad a)
    have hsix := (decides_inetPton6 _).eq_none_iff.mpr (not_denotes_dottedQuad a)
    cases af <;> simp [inetPton, familyOf, hfour, hsix, Except.map]
  | inet6 a =>
    have hsix := (decides_inetPton6 s).eq_some_iff.mpr (denotes_inetNtop6 h)
    have hfour := (decides_inetPton4 s).eq_none_iff.mpr fun b ↦ not_quad_inetNtop6 h b.toList
    cases af <;> simp [inetPton, familyOf, hfour, hsix, Except.map]
  | path p => cases h

/-- `2001:db8::1`. -/
theorem inetPton_inetNtop_documentation :
    inetPton .afInet6 documentationText = .ok (1, some (.inet6 documentation.sin6_addr)) := by
  have htext : inetNtop (.inet6 documentation.sin6_addr) inet6Addrstrlen = .ok (some documentationText) := by
    decide +kernel
  exact (inetPton_inetNtop htext .afInet6).trans (congrArg Except.ok (if_pos rfl))

/-- The `inet_pton` of this library in place of the system's. -/
def withPton (sys : Libgai.System) : Libgai.System := { sys with
  inet_pton4 := fun s ↦ (inetPton4 s).toOption.getD none
  inet_pton6 := fun s ↦ (inetPton6 s).toOption.getD none }

/-- It inverts `inet_ntop` as `getaddrinfo` relies on. -/
theorem inverts_withPton (sys : Libgai.System) (sa : Sockaddr) : Inverts (withPton sys) sa := by
  cases sa with
  | inet sin =>
    intro s hs
    obtain rfl := inetNtop4_eq_some hs
    constructor
    · simp [withPton, (decides_inetPton4 _).eq_some_iff.mpr (quad_dottedQuad sin.sin_addr), Except.toOption]
    · simp [withPton, (decides_inetPton6 _).eq_none_iff.mpr (not_denotes_dottedQuad sin.sin_addr),
        Except.toOption]
  | inet6 sin6 =>
    intro s hs
    constructor
    · simp [withPton, (decides_inetPton6 _).eq_some_iff.mpr (denotes_inetNtop6 hs), Except.toOption]
    · simp [withPton, (decides_inetPton4 _).eq_none_iff.mpr fun b ↦ not_quad_inetNtop6 hs b.toList,
        Except.toOption]
  | unix un => trivial
  | other family => trivial

end Unpv13e.Libfree
