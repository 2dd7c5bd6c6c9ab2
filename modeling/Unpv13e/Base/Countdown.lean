import Mathlib

/-!
# Loops that count down

Library `Base`. A program is told how many of a set of things wait for it, goes through the places
where they can be and stops early when it has served that many. What it has served and what it has
still to serve. The things are of an arbitrary type, and the places are the entries of a table.
-/

namespace Unpv13e.Base

variable {α : Type}

/-- Of the things reported those in `served` have been served, and `left` are to be served. -/
structure Countdown (reported : Finset α) (served : List α) (left : Int) : Prop where
  nodup : served.Nodup
  sound : ∀ x ∈ served, x ∈ reported
  count : left + served.length = reported.card

namespace Countdown

variable {reported : Finset α} {served : List α} {left : Int} {x : α}

/-- Nothing has been served. -/
theorem start (reported : Finset α) : Countdown reported [] reported.card := by
  refine ⟨List.nodup_nil, ?_, by simp⟩
  intro x hx
  cases hx

/-- Nothing is reported. -/
theorem none : Countdown (∅ : Finset α) [] 0 := start ∅

/-- One more is served. -/
theorem serve (h : Countdown reported served left) (hx : x ∈ reported) (hnew : x ∉ served) :
    Countdown reported (served ++ [x]) (left - 1) := by
  refine ⟨?_, ?_, ?_⟩
  · rw [List.nodup_append]
    refine ⟨h.nodup, List.nodup_singleton x, ?_⟩
    intro a ha b hb
    rw [List.mem_singleton.mp hb]
    exact fun he ↦ hnew (he ▸ ha)
  · intro a ha
    rcases List.mem_append.mp ha with ha | ha
    · exact h.sound a ha
    · rwa [List.mem_singleton.mp ha]
  · have := h.count
    rw [List.length_append, List.length_singleton]
    push_cast
    omega

variable [DecidableEq α]

/-- No more have been served than were reported. -/
theorem left_nonneg (h : Countdown reported served left) : 0 ≤ left := by
  have hsub : served.toFinset ⊆ reported := fun a ha ↦ h.sound a (List.mem_toFinset.mp ha)
  have hcard := Finset.card_le_card hsub
  rw [List.toFinset_card_of_nodup h.nodup] at hcard
  have := h.count
  omega

/-- When none is left, everything reported has been served. -/
theorem complete (h : Countdown reported served left) (h0 : left ≤ 0) (x : α) :
    x ∈ served ↔ x ∈ reported := by
  have hsub : served.toFinset ⊆ reported := fun a ha ↦ h.sound a (List.mem_toFinset.mp ha)
  have heq : served.toFinset = reported := by
    apply Finset.eq_of_subset_of_card_le hsub
    rw [List.toFinset_card_of_nodup h.nodup]
    have := h.count
    omega
  rw [← heq, List.mem_toFinset]

end Countdown

/-- The places before `k` have been gone through. -/
structure Scan {n : Nat} (reported : Finset α) (served : List α) (left : Int)
    (conn : Fin n → Option α) (k : Nat) : Prop extends Countdown reported served left where
  ahead : ∀ x ∈ reported, x ∉ served → ∃ i, k ≤ i.val ∧ conn i = some x
  fresh : ∀ i x, k ≤ i.val → conn i = some x → x ∉ served

namespace Scan

variable {n : Nat} {reported : Finset α} {served : List α} {left : Int}
  {conn conn' : Fin n → Option α} {k : Nat} {x : α}

/-- Only the places ahead count. -/
theorem congr (h : Scan reported served left conn k) (hc : ∀ i, k ≤ i.val → conn' i = conn i) :
    Scan reported served left conn' k := by
  refine ⟨h.toCountdown, ?_, ?_⟩
  · intro x hx hs
    obtain ⟨i, hk, hi⟩ := h.ahead x hx hs
    exact ⟨i, hk, (hc i hk).trans hi⟩
  · intro i x hk hi
    exact h.fresh i x hk ((hc i hk).symm.trans hi)

/-- Nothing reported waits at a place. -/
theorem skip (h : Scan reported served left conn k)
    (hk : ∀ i x, i.val = k → conn i = some x → x ∉ reported) :
    Scan reported served left conn (k + 1) := by
  refine ⟨h.toCountdown, ?_, ?_⟩
  · intro x hx hs
    obtain ⟨i, hle, hi⟩ := h.ahead x hx hs
    have hne : i.val ≠ k := fun he ↦ hk i x he hi hx
    exact ⟨i, by omega, hi⟩
  · intro i x hle hi
    exact h.fresh i x (by omega) hi

/-- What waits at a place, and nowhere else, is served. -/
theorem hit {i : Fin n} (h : Scan reported served left conn i.val) (hi : conn i = some x)
    (hx : x ∈ reported) (honce : ∀ j, conn j = some x → j = i) :
    Scan reported (served ++ [x]) (left - 1) conn (i.val + 1) := by
  refine ⟨h.serve hx (h.fresh i x (le_refl _) hi), ?_, ?_⟩
  · intro y hy hs
    rw [List.mem_append, List.mem_singleton, not_or] at hs
    obtain ⟨j, hle, hj⟩ := h.ahead y hy hs.1
    have hne : j ≠ i := by
      rintro rfl
      rw [hi, Option.some_inj] at hj
      exact hs.2 hj.symm
    have := Fin.val_ne_of_ne hne
    exact ⟨j, by omega, hj⟩
  · intro j y hle hj hs
    rcases List.mem_append.mp hs with hs | hs
    · exact h.fresh j y (by omega) hj hs
    · rw [List.mem_singleton.mp hs] at hj
      have := honce j hj
      rw [this] at hle
      omega

/-- With nothing ahead, everything reported has been served. -/
theorem finish (h : Scan reported served left conn k) (hend : ∀ i, k ≤ i.val → conn i = none) (x : α) :
    x ∈ served ↔ x ∈ reported := by
  refine ⟨h.sound x, fun hx ↦ ?_⟩
  by_contra hs
  obtain ⟨i, hk, hi⟩ := h.ahead x hx hs
  rw [hend i hk] at hi
  cases hi

end Scan
end Unpv13e.Base
