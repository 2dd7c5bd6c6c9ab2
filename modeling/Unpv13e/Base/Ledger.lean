import Mathlib

/-!
# What a ledger says last

Library `Base`. A ledger is a list of entries to which new ones are only added at the end. A passage stands when no
later entry revokes it, and a ledger is justified when each entry is warranted by the entries before it.
-/

namespace Unpv13e.Base.Ledger

universe u
variable {α : Type u} {revokes : α → Prop} {passage log : List α} {e : α}

/-- A passage of the ledger after which no entry revokes it. -/
def Stands (revokes : α → Prop) (passage log : List α) : Prop :=
  ∃ before after, log = before ++ passage ++ after ∧ ∀ e ∈ after, ¬revokes e

/-- A passage stands when it has just been entered. -/
theorem stands_append (revokes : α → Prop) (log passage : List α) : Stands revokes passage (log ++ passage) :=
  ⟨log, [], by rw [List.append_nil], fun _ h ↦ absurd h List.not_mem_nil⟩

/-- A passage still stands after entries that do not revoke it. -/
theorem Stands.append (h : Stands revokes passage log) {entries : List α} (he : ∀ e ∈ entries, ¬revokes e) :
    Stands revokes passage (log ++ entries) := by
  obtain ⟨before, after, rfl, hafter⟩ := h
  refine ⟨before, after ++ entries, List.append_assoc _ _ _, fun e hmem ↦ ?_⟩
  rcases List.mem_append.mp hmem with hmem | hmem
  · exact hafter e hmem
  · exact he e hmem

/-- Each entry is warranted by the entries before it. -/
def Justified (warrants : List α → α → Prop) (log : List α) : Prop :=
  ∀ before e after, log = before ++ e :: after → warrants before e

variable {warrants : List α → α → Prop}

/-- The ledger without entries. -/
theorem justified_nil : Justified warrants [] := by
  intro before e after h
  exact absurd h.symm (List.append_ne_nil_of_right_ne_nil _ (List.cons_ne_nil _ _))

/-- A warranted entry is added. -/
theorem Justified.concat (h : Justified warrants log) (he : warrants log e) : Justified warrants (log ++ [e]) := by
  intro before x after heq
  rcases List.eq_nil_or_concat after with rfl | ⟨init, last, rfl⟩
  · obtain ⟨rfl, hx⟩ := List.append_inj' heq rfl
    cases hx
    exact he
  · rw [List.concat_eq_append, ← List.cons_append, ← List.append_assoc] at heq
    exact h before x init (List.append_inj' heq rfl).1

end Unpv13e.Base.Ledger
