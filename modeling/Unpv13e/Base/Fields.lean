import Mathlib

/-!
# Fields of a message

Library `Base`. A message of `n` bytes stands at the beginning of a longer array. A field is in the message
when it ends in its first `n` bytes.
-/

namespace Unpv13e.Base

/-- A field of an array: its offset and its length. -/
structure Field where
  off : Nat
  len : Nat
  deriving DecidableEq

/-- All fields lie in the first `n` bytes. -/
def Within (fields : List Field) (n : Nat) : Prop := ∀ f ∈ fields, f.off + f.len ≤ n

instance (fields : List Field) (n : Nat) : Decidable (Within fields n) :=
  inferInstanceAs (Decidable (∀ f ∈ fields, f.off + f.len ≤ n))

variable {n : Nat}

theorem within_nil : Within [] n := fun _ hf ↦ absurd hf List.not_mem_nil

theorem within_cons {off len : Nat} {fields : List Field} :
    Within (⟨off, len⟩ :: fields) n ↔ off + len ≤ n ∧ Within fields n := List.forall_mem_cons

theorem within_append {fields fields' : List Field} :
    Within (fields ++ fields') n ↔ Within fields n ∧ Within fields' n := List.forall_mem_append

theorem within_singleton {off len : Nat} : Within [⟨off, len⟩] n ↔ off + len ≤ n := List.forall_mem_singleton

end Unpv13e.Base
