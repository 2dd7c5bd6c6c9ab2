import Mathlib

/-!
# Records of a stream

Library `Base`. A stream of symbols in which one symbol ends a record: the complete records
of a stream, their separators included, and how they behave under concatenation. The symbols
are an arbitrary type; a line is a record that a newline ends.
-/

namespace Unpv13e.Base

universe u
variable {α : Type u}

/-- A record: symbols other than the separator, then the separator. -/
def IsRecord (sep : α) (r : List α) : Prop := ∃ body, r = body ++ [sep] ∧ sep ∉ body

/-- A record is not empty. -/
theorem IsRecord.ne_nil {sep : α} {r : List α} (h : IsRecord sep r) : r ≠ [] := by
  obtain ⟨body, rfl, -⟩ := h
  exact List.append_ne_nil_of_right_ne_nil _ (List.cons_ne_nil _ _)

/-- A record has its separator in it. -/
theorem IsRecord.mem {sep : α} {r : List α} (h : IsRecord sep r) : sep ∈ r := by
  obtain ⟨body, rfl, -⟩ := h
  exact List.mem_append_right _ (List.mem_singleton.mpr rfl)

/-- A record is what ends with the only separator in it. -/
theorem isRecord_iff {sep : α} {r : List α} :
    IsRecord sep r ↔ r.getLast? = some sep ∧ sep ∉ r.dropLast := by
  constructor
  · rintro ⟨body, rfl, hb⟩
    simpa using hb
  · rintro ⟨hlast, hdrop⟩
    exact ⟨r.dropLast, (List.dropLast_append_getLast? sep hlast).symm, hdrop⟩

variable [DecidableEq α]

instance (sep : α) (r : List α) : Decidable (IsRecord sep r) :=
  decidable_of_iff _ isRecord_iff.symm

/-- The complete records of a stream, the symbols `cur` before it belonging to the first. -/
def completeFrom (sep : α) : List α → List α → List (List α)
  | _, [] => []
  | cur, c :: cs =>
    if c = sep then (cur ++ [c]) :: completeFrom sep [] cs
    else completeFrom sep (cur ++ [c]) cs

/-- The complete records of a stream. What follows the last separator is left out. -/
def complete (sep : α) (s : List α) : List (List α) := completeFrom sep [] s

private theorem completeFrom_append {sep : α} (body cur s : List α) (hb : sep ∉ body) :
    completeFrom sep cur (body ++ s) = completeFrom sep (cur ++ body) s := by
  induction body generalizing cur with
  | nil => simp
  | cons c body ih =>
    have hc : c ≠ sep := fun he ↦ hb (he ▸ List.mem_cons_self)
    rw [List.cons_append, completeFrom, if_neg hc,
      ih (cur ++ [c]) fun hm ↦ hb (List.mem_cons_of_mem _ hm)]
    simp

/-- A stream without a separator has no complete record. -/
theorem complete_of_notMem {sep : α} {s : List α} (h : sep ∉ s) : complete sep s = [] := by
  have := completeFrom_append s [] [] h
  rw [List.append_nil] at this
  exact this

/-- A stream that begins with a record has it as its first. -/
theorem complete_record_append {sep : α} {r : List α} (hr : IsRecord sep r) (s : List α) :
    complete sep (r ++ s) = r :: complete sep s := by
  obtain ⟨body, rfl, hb⟩ := hr
  rw [complete, List.append_assoc, completeFrom_append body [] _ hb]
  exact if_pos rfl

/-- The records a stream begins with are the first of its complete records. -/
theorem complete_flatten_append {sep : α} {rs : List (List α)} (hrs : ∀ r ∈ rs, IsRecord sep r)
    (s : List α) : complete sep (rs.flatten ++ s) = rs ++ complete sep s := by
  induction rs with
  | nil => rfl
  | cons r rs ih =>
    rw [List.flatten_cons, List.append_assoc, complete_record_append (hrs r List.mem_cons_self),
      ih fun r' hr' ↦ hrs r' (List.mem_cons_of_mem _ hr')]
    rfl

/-- A stream of whole records is the sequence of them. -/
theorem complete_flatten {sep : α} {rs : List (List α)} (hrs : ∀ r ∈ rs, IsRecord sep r) :
    complete sep rs.flatten = rs := by
  have h := complete_flatten_append hrs []
  rw [List.append_nil, complete_of_notMem List.not_mem_nil, List.append_nil] at h
  exact h

/-- The first record of a stream is unique, and so is what follows it. -/
theorem IsRecord.append_inj {sep : α} {r r' s s' : List α} (hr : IsRecord sep r)
    (hr' : IsRecord sep r') (h : r ++ s = r' ++ s') : r = r' ∧ s = s' := by
  have hc := congrArg (complete sep) h
  rw [complete_record_append hr, complete_record_append hr'] at hc
  obtain ⟨rfl, -⟩ := List.cons.inj hc
  exact ⟨rfl, List.append_cancel_left h⟩

/-- A stream is its complete records and a rest without a separator. -/
theorem exists_rest (sep : α) (s : List α) : ∃ (rs : List (List α)) (rest : List α),
    s = rs.flatten ++ rest ∧ (∀ r ∈ rs, IsRecord sep r) ∧ sep ∉ rest := by
  induction s with
  | nil => exact ⟨[], [], rfl, nofun, List.not_mem_nil⟩
  | cons x s ih =>
    obtain ⟨rs, rest, rfl, hrs, hrest⟩ := ih
    by_cases hx : x = sep
    · refine ⟨[x] :: rs, rest, rfl, ?_, hrest⟩
      intro r hr
      rcases List.mem_cons.mp hr with rfl | hr
      · exact ⟨[], by rw [hx]; rfl, List.not_mem_nil⟩
      · exact hrs r hr
    have hxs : sep ≠ x := fun he ↦ hx he.symm
    cases rs with
    | nil =>
      refine ⟨[], x :: rest, rfl, nofun, ?_⟩
      exact List.not_mem_cons_of_ne_of_not_mem hxs hrest
    | cons r rs =>
      refine ⟨(x :: r) :: rs, rest, rfl, ?_, hrest⟩
      intro q hq
      rcases List.mem_cons.mp hq with rfl | hq
      · obtain ⟨body, rfl, hb⟩ := hrs r List.mem_cons_self
        exact ⟨x :: body, rfl, List.not_mem_cons_of_ne_of_not_mem hxs hb⟩
      · exact hrs q (List.mem_cons_of_mem _ hq)

/-- A part at the front of a stream of whole records is some of the records and the beginning of
what follows them. -/
theorem exists_segment {sep : α} {s later : List α} {rs : List (List α)}
    (hrs : ∀ r ∈ rs, IsRecord sep r) (h : s ++ later = rs.flatten) :
    ∃ rest rs', s = (complete sep s).flatten ++ rest ∧ rs = complete sep s ++ rs' ∧
      rest ++ later = rs'.flatten ∧ sep ∉ rest := by
  obtain ⟨front, rest, hs, hfront, hrest⟩ := exists_rest sep s
  have hc : complete sep s = front := by
    rw [hs, complete_flatten_append hfront, complete_of_notMem hrest, List.append_nil]
  have hall : rs = front ++ complete sep (rest ++ later) := by
    rw [← complete_flatten_append hfront, ← List.append_assoc, ← hs, h, complete_flatten hrs]
  refine ⟨rest, complete sep (rest ++ later), by rw [hc]; exact hs, by rw [hc]; exact hall, ?_,
    hrest⟩
  rw [hs, hall, List.flatten_append, List.append_assoc] at h
  exact List.append_cancel_left h

end Unpv13e.Base
