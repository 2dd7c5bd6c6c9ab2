import Mathlib

/-!
# Cards dealt from a pile

Library `Base`. A pile from whose top cards are dealt to hands and from whose hands cards
are discarded. `Accounts` assigns every card one place; whatever keeps it keeps the pile
free of repetitions and pile and hands apart. Players and cards are arbitrary types.
-/

namespace Unpv13e.Base

universe u v

/-- Where a card is. -/
inductive Place (ι : Type u)
  | pile
  | hand (i : ι)
  | out

/-- The first `size` cards of `pile`, the last of them on top, and the hands. -/
structure Dealt (ι : Type u) (κ : Type v) where
  pile : Nat → κ
  size : Nat
  hand : ι → Finset κ

/-- A place for every card that agrees with the pile and the hands. -/
structure Accounts {ι : Type u} {κ : Type v} (place : κ → Place ι) (d : Dealt ι κ) : Prop where
  inj : ∀ j k, j < d.size → k < d.size → d.pile j = d.pile k → j = k
  pile : ∀ k, k < d.size → place (d.pile k) = .pile
  hand : ∀ i, ∀ q ∈ d.hand i, place q = .hand i

namespace Dealt

variable {ι : Type u} {κ : Type v}

/-- The pile is cut down to its lowest `n` cards. -/
def shrink (d : Dealt ι κ) (n : Nat) : Dealt ι κ where
  pile := d.pile
  size := n
  hand := d.hand

variable [DecidableEq ι] [DecidableEq κ]

/-- The card on top of the pile goes to hand `i`. -/
def top (d : Dealt ι κ) (i : ι) : Dealt ι κ where
  pile := d.pile
  size := d.size - 1
  hand := Function.update d.hand i (insert (d.pile (d.size - 1)) (d.hand i))

/-- Hand `i` gives up the card `q`. -/
def discard (d : Dealt ι κ) (i : ι) (q : κ) : Dealt ι κ where
  pile := d.pile
  size := d.size
  hand := Function.update d.hand i ((d.hand i).erase q)

end Dealt

namespace Accounts

variable {ι : Type u} {κ : Type v} {place : κ → Place ι} {d : Dealt ι κ}

/-- A card is in one hand at most. -/
theorem hand_unique (h : Accounts place d) {i j : ι} {q : κ} (hi : q ∈ d.hand i)
    (hj : q ∈ d.hand j) : i = j := by
  have he := (h.hand i q hi).symm.trans (h.hand j q hj)
  exact Place.hand.inj he

/-- A card of the pile is in no hand. -/
theorem pile_not_hand (h : Accounts place d) {k : Nat} (hk : k < d.size) (i : ι) :
    d.pile k ∉ d.hand i := by
  intro hq
  have he := (h.pile k hk).symm.trans (h.hand i _ hq)
  cases he

/-- A card put out is not in the pile. -/
theorem out_not_pile (h : Accounts place d) {q : κ} (hq : place q = .out) {k : Nat}
    (hk : k < d.size) : d.pile k ≠ q := by
  rintro rfl
  rw [h.pile k hk] at hq
  cases hq

/-- A card put out is in no hand. -/
theorem out_not_hand (h : Accounts place d) {q : κ} (hq : place q = .out) (i : ι) :
    q ∉ d.hand i := by
  intro hm
  rw [h.hand i q hm] at hq
  cases hq

/-- Cutting the pile down keeps every place. -/
theorem shrink (h : Accounts place d) {n : Nat} (hn : n ≤ d.size) :
    Accounts place (d.shrink n) where
  inj := fun j k hj hk ↦ h.inj j k (Nat.lt_of_lt_of_le hj hn) (Nat.lt_of_lt_of_le hk hn)
  pile := fun k hk ↦ h.pile k (Nat.lt_of_lt_of_le hk hn)
  hand := h.hand

variable [DecidableEq κ]

/-- A card that is neither in the pile nor in a hand may be given the place out. -/
theorem setOut (h : Accounts place d) {q : κ} (hp : ∀ k, k < d.size → d.pile k ≠ q)
    (hh : ∀ i, q ∉ d.hand i) : Accounts (Function.update place q .out) d where
  inj := h.inj
  pile := by
    intro k hk
    rw [Function.update_of_ne (hp k hk)]
    exact h.pile k hk
  hand := by
    intro i r hr
    have hne : r ≠ q := by
      rintro rfl
      exact hh i hr
    rw [Function.update_of_ne hne]
    exact h.hand i r hr

variable [DecidableEq ι]

/-- Dealing the top card moves that card alone. -/
theorem top (h : Accounts place d) (hd : 0 < d.size) (i : ι) :
    Accounts (Function.update place (d.pile (d.size - 1)) (.hand i)) (d.top i) where
  inj := fun j k hj hk he ↦ h.inj j k
    (Nat.lt_of_lt_of_le hj (Nat.sub_le _ _)) (Nat.lt_of_lt_of_le hk (Nat.sub_le _ _)) he
  pile := by
    intro k hk
    have hk' : k < d.size - 1 := hk
    have hne : d.pile k ≠ d.pile (d.size - 1) := by
      intro he
      have := h.inj k (d.size - 1) (by omega) (by omega) he
      omega
    change Function.update place _ _ (d.pile k) = _
    rw [Function.update_of_ne hne]
    exact h.pile k (by omega)
  hand := by
    intro j q hq
    change q ∈ Function.update d.hand i _ j at hq
    by_cases hj : j = i
    · subst hj
      rw [Function.update_self, Finset.mem_insert] at hq
      rcases hq with rfl | hq
      · exact Function.update_self _ _ _
      · have hne : q ≠ d.pile (d.size - 1) := by
          rintro rfl
          exact h.pile_not_hand (by omega) j hq
        rw [Function.update_of_ne hne]
        exact h.hand j q hq
    · rw [Function.update_of_ne hj] at hq
      have hne : q ≠ d.pile (d.size - 1) := by
        rintro rfl
        exact h.pile_not_hand (by omega) j hq
      rw [Function.update_of_ne hne]
      exact h.hand j q hq

/-- Dealing the top card makes the hand larger by one. -/
theorem card_top (h : Accounts place d) (hd : 0 < d.size) (i : ι) :
    ((d.top i).hand i).card = (d.hand i).card + 1 := by
  change (Function.update d.hand i _ i).card = _
  rw [Function.update_self, Finset.card_insert_of_notMem (h.pile_not_hand (by omega) i)]

/-- Discarding a card of a hand puts it out. -/
theorem discard (h : Accounts place d) {i : ι} {q : κ} (hq : q ∈ d.hand i) :
    Accounts (Function.update place q .out) (d.discard i q) where
  inj := h.inj
  pile := by
    intro k hk
    have hne : d.pile k ≠ q := by
      rintro rfl
      exact h.pile_not_hand hk i hq
    change Function.update place q _ (d.pile k) = _
    rw [Function.update_of_ne hne]
    exact h.pile k hk
  hand := by
    intro j r hr
    change r ∈ Function.update d.hand i _ j at hr
    by_cases hj : j = i
    · subst hj
      rw [Function.update_self] at hr
      rw [Function.update_of_ne (Finset.ne_of_mem_erase hr)]
      exact h.hand j r (Finset.mem_of_mem_erase hr)
    · rw [Function.update_of_ne hj] at hr
      have hne : r ≠ q := by
        rintro rfl
        exact hj (h.hand_unique hr hq)
      rw [Function.update_of_ne hne]
      exact h.hand j r hr

end Accounts

/-- A pile without repetitions and no card dealt: every card is in the pile or out. -/
theorem accounts_undealt {ι : Type u} {κ : Type v} (d : Dealt ι κ)
    (hinj : ∀ j k, j < d.size → k < d.size → d.pile j = d.pile k → j = k)
    (hnone : ∀ i, d.hand i = ∅) : Accounts (fun _ ↦ .pile) d where
  inj := hinj
  pile := fun _ _ ↦ rfl
  hand := by
    intro i q hq
    rw [hnone] at hq
    exact absurd hq (Finset.notMem_empty q)

end Unpv13e.Base
