import Mathlib

/-!
# Tables with holes

Library `Base`. A program keeps a set of values in an array of fixed size, some entries of which
are free. It puts a value into the first hole, takes values off and shows the entries up to the
first hole. Which sets such a table stands for, and when what is shown is the whole set.
-/

namespace Unpv13e.Base.Slots

variable {α : Type} {n : Nat} {e w : α} {p : Fin n → α} {S T : α → Prop} {ws : List α}

/-- The table stands for the set `S`: each of its elements is the entry of one slot. `e` is the
entry of a hole. -/
structure Lists (e : α) (p : Fin n → α) (S : α → Prop) : Prop where
  free : ¬ S e
  sound : ∀ i, p i ≠ e → S (p i)
  complete : ∀ w, S w → ∃ i, p i = w
  once : ∀ i j, p i ≠ e → p i = p j → i = j

/-- No hole stands before an entry. -/
def Dense (e : α) (p : Fin n → α) : Prop := ∀ i j, i ≤ j → p j ≠ e → p i ≠ e

/-- The set is determined by its elements. -/
theorem Lists.congr (h : Lists e p S) (hS : ∀ w, S w ↔ T w) : Lists e p T :=
  ⟨fun he ↦ h.free ((hS e).mpr he), fun i hi ↦ (hS _).mp (h.sound i hi),
    fun w hw ↦ h.complete w ((hS w).mpr hw), h.once⟩

/-- An element is not the entry of a hole. -/
theorem Lists.ne (h : Lists e p S) (hw : S w) : w ≠ e := fun he ↦ h.free (he ▸ hw)

/-! ### Starting from a list -/

/-- The entries of a list one after another. -/
def ofList (e : α) (ws : List α) : Fin n → α := fun i ↦ ws.getD i.val e

/-- A list without repetitions that fits the table. -/
theorem lists_ofList (hnodup : ws.Nodup) (hfree : e ∉ ws) (hfit : ws.length ≤ n) :
    Lists e (ofList e ws : Fin n → α) (· ∈ ws) := by
  have hin (i : Fin n) (hi : (ofList e ws : Fin n → α) i ≠ e) :
      ∃ h : i.val < ws.length, ofList e ws i = ws[i.val] := by
    unfold ofList at hi ⊢
    by_cases hlt : i.val < ws.length
    · exact ⟨hlt, by simp [hlt]⟩
    · simp [hlt] at hi
  refine ⟨hfree, ?_, ?_, ?_⟩
  · intro i hi
    obtain ⟨hlt, heq⟩ := hin i hi
    rw [heq]
    exact List.getElem_mem hlt
  · intro w hw
    obtain ⟨k, hk, rfl⟩ := List.getElem_of_mem hw
    exact ⟨⟨k, by omega⟩, by simp [ofList, hk]⟩
  · intro i j hi he
    obtain ⟨hlt, heq⟩ := hin i hi
    obtain ⟨hlt', heq'⟩ := hin j (he ▸ hi)
    rw [heq, heq'] at he
    exact Fin.ext ((List.Nodup.getElem_inj_iff hnodup).mp he)

/-- A list is put in without holes before entries. -/
theorem dense_ofList (hfree : e ∉ ws) : Dense e (ofList e ws : Fin n → α) := by
  intro i j hij hj
  unfold ofList at hj ⊢
  have hlt : j.val < ws.length := by
    by_contra hge
    simp [hge] at hj
  have hlt' : i.val < ws.length := lt_of_le_of_lt hij hlt
  simp only [List.getD_eq_getElem?_getD, List.getElem?_eq_getElem hlt', Option.getD_some]
  intro he
  exact hfree (he ▸ List.getElem_mem hlt')

variable [DecidableEq α]

/-! ### Operations -/

/-- The first hole. -/
def firstHole (e : α) (p : Fin n → α) : Option (Fin n) := (List.finRange n).find? fun i ↦ p i = e

/-- A value is put into the first hole, if there is one. -/
def put (e w : α) (p : Fin n → α) : Fin n → α :=
  match firstHole e p with
  | some i => Function.update p i w
  | none => p

/-- The first entry with a value is taken off. -/
def clearFirst (e w : α) (p : Fin n → α) : Fin n → α :=
  match (List.finRange n).find? fun i ↦ p i = w with
  | some i => Function.update p i e
  | none => p

/-- All entries with a value are taken off. -/
def clearAll (e w : α) (p : Fin n → α) : Fin n → α := fun i ↦ if p i = w then e else p i

/-- The entries before the first hole. -/
def front (e : α) (p : Fin n → α) : List α := ((List.finRange n).map p).takeWhile (· ≠ e)

/-! ### Putting in -/

/-- The first hole is one, and all slots before it are taken. -/
theorem of_firstHole {i : Fin n} (h : firstHole e p = some i) : p i = e ∧ ∀ j, j < i → p j ≠ e := by
  unfold firstHole at h
  refine ⟨by simpa using List.find?_some h, ?_⟩
  obtain ⟨-, m, hlt, hget, hbefore⟩ := List.find?_eq_some_iff_getElem.mp h
  rw [List.getElem_finRange] at hget
  have him : m = i.val := by
    have := congrArg Fin.val hget
    simpa using this
  intro k hk
  have := hbefore k.val (by rw [him]; exact hk)
  simpa using this

/-- A table with a hole has a first one. -/
theorem exists_firstHole (hhole : ∃ i, p i = e) : ∃ i, firstHole e p = some i := by
  obtain ⟨j, hj⟩ := hhole
  cases hfind : firstHole e p with
  | none =>
    have := List.find?_eq_none.mp hfind j (List.mem_finRange j)
    simp [hj] at this
  | some i => exact ⟨i, rfl⟩

/-- A value is put where all slots before are taken. -/
theorem put_eq (w : α) (hhole : ∃ i, p i = e) :
    ∃ i, p i = e ∧ (∀ j, j < i → p j ≠ e) ∧ put e w p = Function.update p i w := by
  obtain ⟨i, hi⟩ := exists_firstHole hhole
  obtain ⟨hfree, hbefore⟩ := of_firstHole hi
  refine ⟨i, hfree, hbefore, ?_⟩
  unfold put
  rw [hi]

omit [DecidableEq α] in
/-- A value is added to the set by filling a hole. -/
theorem Lists.fill (h : Lists e p S) (hw : ¬ S w) (hne : w ≠ e) {i : Fin n} (hi : p i = e) :
    Lists e (Function.update p i w) fun x ↦ S x ∨ x = w := by
  have hold (j : Fin n) (hj : j ≠ i) : Function.update p i w j = p j := Function.update_of_ne hj _ _
  refine ⟨?_, ?_, ?_, ?_⟩
  · rintro (he | he)
    · exact h.free he
    · exact hne he.symm
  · intro j hj
    by_cases hji : j = i
    · rw [hji, Function.update_self]
      exact .inr rfl
    · rw [hold j hji] at hj ⊢
      exact .inl (h.sound j hj)
  · rintro x (hx | rfl)
    · obtain ⟨j, hj⟩ := h.complete x hx
      have hji : j ≠ i := by
        rintro rfl
        exact h.ne hx (hj.symm.trans hi)
      exact ⟨j, by rw [hold j hji]; exact hj⟩
    · exact ⟨i, Function.update_self _ _ _⟩
  · intro j k hj he
    by_cases hji : j = i
    · by_cases hki : k = i
      · rw [hji, hki]
      · rw [hji, Function.update_self, hold k hki] at he
        subst he
        exact absurd (h.sound k hne) hw
    · rw [hold j hji] at hj he
      by_cases hki : k = i
      · rw [hki, Function.update_self] at he
        subst he
        exact absurd (h.sound j hj) hw
      · rw [hold k hki] at he
        exact h.once j k hj he

/-- A value is added to the set. -/
theorem Lists.put (h : Lists e p S) (hw : ¬ S w) (hne : w ≠ e) (hhole : ∃ i, p i = e) :
    Lists e (put e w p) fun x ↦ S x ∨ x = w := by
  obtain ⟨i, hi, -, heq⟩ := put_eq w hhole
  rw [heq]
  exact h.fill hw hne hi

/-- A value put in leaves no new hole before an entry. -/
theorem Dense.put (h : Dense e p) (hne : w ≠ e) (hhole : ∃ i, p i = e) : Dense e (put e w p) := by
  obtain ⟨i, hi, hbefore, heq⟩ := put_eq w hhole
  rw [heq]
  intro j k hjk hk
  by_cases hji : j = i
  · rw [hji, Function.update_self]
    exact hne
  · rw [Function.update_of_ne hji]
    by_cases hki : k = i
    · rw [hki] at hjk
      exact hbefore j (lt_of_le_of_ne hjk hji)
    · rw [Function.update_of_ne hki] at hk
      exact h j k hjk hk

/-- A set of fewer elements than slots, each held by a member of its own, leaves a hole. -/
theorem Lists.exists_hole {ι : Type} (h : Lists e p S) (members : Finset ι)
    (hless : members.card < n) (holds : ι → α → Prop) (hholder : ∀ w, S w → ∃ i ∈ members, holds i w)
    (hone : ∀ i v w, holds i v → holds i w → v = w) : ∃ i, p i = e := by
  by_contra hfull
  push Not at hfull
  choose holder hmem hholds using fun i ↦ hholder (p i) (h.sound i (hfull i))
  have hcard : (Finset.univ : Finset (Fin n)).card ≤ members.card := by
    apply Finset.card_le_card_of_injOn holder
    · intro i _
      exact hmem i
    · intro i _ j _ he
      exact h.once i j (hfull i) (hone _ _ _ (hholds i) (he ▸ hholds j))
  rw [Finset.card_univ, Fintype.card_fin] at hcard
  omega

/-! ### Taking off -/

/-- All entries with a value are one at most. -/
theorem Lists.clearFirst_eq (h : Lists e p S) (hne : w ≠ e) : clearFirst e w p = clearAll e w p := by
  unfold clearFirst clearAll
  cases hfind : (List.finRange n).find? fun i ↦ p i = w with
  | none =>
    funext i
    have := List.find?_eq_none.mp hfind i (List.mem_finRange i)
    rw [if_neg (by simpa using this)]
  | some i =>
    have hi : p i = w := by simpa using List.find?_some hfind
    funext j
    dsimp only
    by_cases hji : j = i
    · rw [hji, Function.update_self, if_pos hi]
    · rw [Function.update_of_ne hji, if_neg]
      intro hj
      exact hji (h.once j i (hj.trans_ne hne) (hj.trans hi.symm))

/-- A value is taken from the set. -/
theorem Lists.clearAll (h : Lists e p S) (w : α) : Lists e (clearAll e w p) fun x ↦ S x ∧ x ≠ w := by
  have hold (i : Fin n) (hi : Slots.clearAll e w p i ≠ e) :
      p i ≠ w ∧ p i ≠ e ∧ Slots.clearAll e w p i = p i := by
    unfold Slots.clearAll at hi ⊢
    split at hi
    · exact absurd rfl hi
    · next hne => exact ⟨hne, hi, if_neg hne⟩
  refine ⟨fun he ↦ h.free he.1, ?_, ?_, ?_⟩
  · intro i hi
    obtain ⟨hw, hne, heq⟩ := hold i hi
    rw [heq]
    exact ⟨h.sound i hne, hw⟩
  · rintro x ⟨hx, hxw⟩
    obtain ⟨i, hi⟩ := h.complete x hx
    refine ⟨i, ?_⟩
    unfold Slots.clearAll
    rw [hi, if_neg hxw]
  · intro i j hi he
    obtain ⟨-, hne, heq⟩ := hold i hi
    obtain ⟨-, -, heq'⟩ := hold j (he ▸ hi)
    rw [heq, heq'] at he
    exact h.once i j hne he

/-- The value of one slot is taken from the set. -/
theorem Lists.vacate (h : Lists e p S) {i : Fin n} (hi : p i ≠ e) :
    Lists e (Function.update p i e) fun x ↦ S x ∧ x ≠ p i := by
  have heq : Function.update p i e = Slots.clearAll e (p i) p := by
    funext j
    unfold Slots.clearAll
    by_cases hji : j = i
    · rw [hji, Function.update_self, if_pos rfl]
    · rw [Function.update_of_ne hji, if_neg]
      intro he
      exact hji (h.once j i (he ▸ hi) he)
  rw [heq]
  exact h.clearAll (p i)

/-- Taking off the last entry leaves no hole before another. -/
theorem Dense.clearAll (h : Dense e p) (hlast : ∀ i j, p i = w → i < j → p j = e) :
    Dense e (clearAll e w p) := by
  intro i j hij hj
  have hj' : p j ≠ w ∧ p j ≠ e := by
    unfold Slots.clearAll at hj
    split at hj
    · exact absurd rfl hj
    · next hne => exact ⟨hne, hj⟩
  unfold Slots.clearAll
  split
  · next hi =>
    rcases lt_or_eq_of_le hij with hlt | heq
    · exact absurd (hlast i j hi hlt) hj'.2
    · exact absurd (heq ▸ hi) hj'.1
  · exact h i j hij hj'.2

/-! ### What is shown -/

private theorem mem_takeWhile_map {is : List (Fin n)} (his : is.Pairwise (· < ·)) :
    w ∈ (is.map p).takeWhile (· ≠ e) ↔ ∃ j ∈ is, p j = w ∧ ∀ i ∈ is, i ≤ j → p i ≠ e := by
  induction is with
  | nil => simp
  | cons k is ih =>
    obtain ⟨hlt, his⟩ := List.pairwise_cons.mp his
    rw [List.map_cons, List.takeWhile_cons]
    by_cases hk : p k = e
    · rw [if_neg (by simpa using hk)]
      refine iff_of_false List.not_mem_nil ?_
      rintro ⟨j, hj, -, hall⟩
      refine hall k List.mem_cons_self ?_ hk
      rcases List.mem_cons.mp hj with rfl | hj
      · exact le_refl _
      · exact le_of_lt (hlt j hj)
    · rw [if_pos (by simpa using hk), List.mem_cons, ih his]
      constructor
      · rintro (rfl | ⟨j, hj, hw, hall⟩)
        · refine ⟨k, List.mem_cons_self, rfl, fun i hi hik ↦ ?_⟩
          rcases List.mem_cons.mp hi with rfl | hi
          · exact hk
          · exact absurd (hlt i hi) (not_lt.mpr hik)
        · refine ⟨j, List.mem_cons_of_mem _ hj, hw, fun i hi hij ↦ ?_⟩
          rcases List.mem_cons.mp hi with rfl | hi
          · exact hk
          · exact hall i hi hij
      · rintro ⟨j, hj, hw, hall⟩
        rcases List.mem_cons.mp hj with rfl | hj
        · exact .inl hw.symm
        · exact .inr ⟨j, hj, hw, fun i hi hij ↦ hall i (List.mem_cons_of_mem _ hi) hij⟩

/-- What is shown are the entries with no hole before. -/
theorem mem_front : w ∈ front e p ↔ ∃ j, p j = w ∧ ∀ i, i ≤ j → p i ≠ e := by
  unfold front
  rw [mem_takeWhile_map (List.pairwise_lt_finRange n)]
  simp

/-- Nothing is shown twice. -/
theorem Lists.nodup_front (h : Lists e p S) : (front e p).Nodup := by
  unfold front
  rw [List.takeWhile_map]
  apply List.Nodup.map_on
  · intro i hi j _ he
    have hne : p i ≠ e := by simpa using List.mem_takeWhile_imp hi
    exact h.once i j hne he
  · exact (List.takeWhile_sublist _).nodup (List.nodup_finRange n)

/-- What is shown is the whole set when no hole stands before an entry. -/
theorem Lists.front_iff (h : Lists e p S) : (∀ w, w ∈ front e p ↔ S w) ↔ Dense e p := by
  constructor
  · intro hall i j hij hj
    obtain ⟨k, hk, hbefore⟩ := mem_front.mp ((hall (p j)).mpr (h.sound j hj))
    have hkj : k = j := h.once k j (hk ▸ hj) hk
    exact hbefore i (hkj ▸ hij)
  · intro hdense w
    rw [mem_front]
    constructor
    · rintro ⟨j, rfl, hbefore⟩
      exact h.sound j (hbefore j (le_refl j))
    · intro hw
      obtain ⟨j, rfl⟩ := h.complete w hw
      exact ⟨j, rfl, fun i hij ↦ hdense i j hij (h.ne hw)⟩

end Unpv13e.Base.Slots
