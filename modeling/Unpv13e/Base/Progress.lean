import Unpv13e.Base.Runs

/-!
# Ranks

Library `Base`. A rank that falls along the steps of a transition relation, and where its runs can be carried.
-/

namespace Unpv13e.Base

universe u v
variable {σ : Type u} {α : Type v} (step : σ → α → σ → Prop) (rank : σ → Nat) {I : σ → Prop} {s : σ}

/-- When a run can lower the rank wherever the goal is not met, the goal can be reached. -/
theorem reaches_of_rank (goal : σ → Prop) (h : ∀ s, I s → goal s ∨ ∃ t, Run step s t ∧ I t ∧ rank t < rank s)
    (hs : I s) : ∃ t, Run step s t ∧ I t ∧ goal t := by
  induction hn : rank s using Nat.strong_induction_on generalizing s with
  | _ n ih =>
    rcases h s hs with hgoal | ⟨t, hrun, ht, hlt⟩
    · exact ⟨s, RunWith.refl, hs, hgoal⟩
    · obtain ⟨u, hrest, hu, hgoal⟩ := ih (rank t) (hn ▸ hlt) ht rfl
      exact ⟨u, RunWith.trans hrun hrest, hu, hgoal⟩

/-- When every step lowers the rank, a run can be carried on to where there is no step. -/
theorem ends_of_rank (h : ∀ s a t, I s → step s a t → I t ∧ rank t < rank s) (hs : I s) :
    ∃ t, Run step s t ∧ I t ∧ ∀ a u, ¬ step t a u := by
  refine reaches_of_rank step rank _ (fun s hs ↦ ?_) hs
  by_cases hend : ∀ a u, ¬ step s a u
  · exact .inl hend
  · push Not at hend
    obtain ⟨a, t, hstep⟩ := hend
    obtain ⟨ht, hlt⟩ := h s a t hs hstep
    exact .inr ⟨t, RunWith.snoc RunWith.refl True.intro hstep, ht, hlt⟩

end Unpv13e.Base
