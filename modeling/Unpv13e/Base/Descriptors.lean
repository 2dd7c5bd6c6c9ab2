import Unpv13e.Base.Runs
import Unpv13e.Base.Slots
import Unpv13e.Base.Text

/-!
# Descriptor sets

Library `Base`. `fd_set` and the macros `FD_SET`, `FD_CLR` and `FD_ISSET`, which index an array of
`FD_SETSIZE` bits with the descriptor and do not check it. A server that serves many clients keeps
their descriptors in a table and, with some others, in a set for `select`.
-/

namespace Unpv13e.Base

/-- A descriptor. -/
abbrev Fd := Nat

/-- `FD_SETSIZE` -/
def fdSetSize : Nat := 1024

-- Named, so that numerals of the index type mention no auxiliary proof.
instance neZero_fdSetSize : NeZero fdSetSize := ⟨by decide⟩

/-- `fd_set` -/
abbrev FdSet := Finset Fd

namespace FdSet

/-- `FD_SET(fd, &s)` -/
def set (fd : Fd) (s : FdSet) : Except Stop FdSet :=
  if fd < fdSetSize then .ok (insert fd s) else .error .outOfBounds

/-- `FD_CLR(fd, &s)` -/
def clr (fd : Fd) (s : FdSet) : Except Stop FdSet :=
  if fd < fdSetSize then .ok (s.erase fd) else .error .outOfBounds

/-- `FD_ISSET(fd, &s)` -/
def isset (fd : Fd) (s : FdSet) : Except Stop Bool :=
  if fd < fdSetSize then .ok (decide (fd ∈ s)) else .error .outOfBounds

theorem clr_eq {fd : Fd} (h : fd < fdSetSize) (s : FdSet) : s.clr fd = .ok (s.erase fd) := if_pos h

theorem isset_eq {fd : Fd} (h : fd < fdSetSize) (s : FdSet) :
    s.isset fd = .ok (decide (fd ∈ s)) := if_pos h

/-- A descriptor that was put into a set is an index of it. -/
theorem set_ok {fd : Fd} {s t : FdSet} (h : s.set fd = .ok t) :
    fd < fdSetSize ∧ t = insert fd s := by
  unfold set at h
  split at h
  · next hlt =>
    cases h
    exact ⟨hlt, rfl⟩
  · cases h

theorem clr_ok {fd : Fd} {s t : FdSet} (h : s.clr fd = .ok t) : fd < fdSetSize ∧ t = s.erase fd := by
  unfold clr at h
  split at h
  · next hlt =>
    cases h
    exact ⟨hlt, rfl⟩
  · cases h

theorem isset_ok {fd : Fd} {s : FdSet} {b : Bool} (h : s.isset fd = .ok b) :
    fd < fdSetSize ∧ b = decide (fd ∈ s) := by
  unfold isset at h
  split at h
  · next hlt =>
    cases h
    exact ⟨hlt, rfl⟩
  · cases h

end FdSet

/-! ### Computations that do not leave a set -/

/-- No descriptor out of range is used. -/
def InRange {β : Type} (x : Except Stop β) : Prop := x ≠ .error .outOfBounds

instance {β : Type} (x : Except Stop β) : Decidable (InRange x) :=
  match x with
  | .ok _ => isTrue fun h ↦ by cases h
  | .error e => decidable_of_iff (e ≠ .outOfBounds) ⟨fun h h' ↦ h (by cases h'; rfl), fun h h' ↦ h (by rw [h'])⟩

namespace InRange

variable {β γ : Type} {x : Except Stop β} {f : β → Except Stop γ} {fd : Fd} {s : FdSet}

theorem ok (b : β) : InRange (.ok b) := by
  intro h
  cases h

theorem blocked : InRange (.error .blocked : Except Stop β) := by
  intro h
  cases h

theorem indeterminate : InRange (.error .indeterminate : Except Stop β) := by
  intro h
  cases h

/-- Both parts of a computation. -/
theorem bind (hx : InRange x) (hf : ∀ b, InRange (f b)) : InRange (x >>= f) := by
  cases x with
  | error e =>
    intro h
    cases h
    exact hx rfl
  | ok b => exact hf b

/-- A computation that begins with a descriptor of a set. -/
theorem isset_bind {f : Bool → Except Stop γ} (hlt : fd < fdSetSize)
    (hf : InRange (f (decide (fd ∈ s)))) : InRange (s.isset fd >>= f) := by
  rwa [FdSet.isset_eq hlt, ok_bind]

theorem clr_bind {f : FdSet → Except Stop γ} (hlt : fd < fdSetSize) (hf : InRange (f (s.erase fd))) :
    InRange (s.clr fd >>= f) := by
  rwa [FdSet.clr_eq hlt, ok_bind]

/-- A descriptor that is added to a set is an index of it. -/
theorem set_bind_iff {f : FdSet → Except Stop γ} :
    InRange (s.set fd >>= f) ↔ fd < fdSetSize ∧ InRange (f (insert fd s)) := by
  unfold FdSet.set
  split
  · next hlt => exact (and_iff_right hlt).symm
  · next hge =>
    refine iff_of_false ?_ fun h ↦ hge h.1
    intro h
    exact h rfl

end InRange

/-! ### A set of marked entries -/

/-- The set has the descriptors of the entries with a property. -/
def Marks {ι : Type} (fd : ι → Fd) (p : ι → Prop) (s : FdSet) : Prop := ∀ x, x ∈ s ↔ ∃ i, p i ∧ fd i = x

namespace Marks

variable {ι : Type} {fd : ι → Fd} {p q : ι → Prop} {s : FdSet} {j : ι}

theorem empty (h : ∀ i, ¬ p i) : Marks fd p ∅ := by
  intro x
  refine iff_of_false (Finset.notMem_empty x) ?_
  rintro ⟨i, hi, -⟩
  exact h i hi

/-- The set depends on which entries have the property only. -/
theorem congr (h : Marks fd p s) (hpq : ∀ i, p i ↔ q i) : Marks fd q s := by
  intro x
  simpa only [hpq] using h x

/-- One entry more. -/
theorem gain (h : Marks fd p s) (hq : ∀ i, q i ↔ p i ∨ i = j) : Marks fd q (insert (fd j) s) := by
  intro x
  rw [Finset.mem_insert, h x]
  constructor
  · rintro (rfl | ⟨i, hi, rfl⟩)
    · exact ⟨j, (hq j).mpr (.inr rfl), rfl⟩
    · exact ⟨i, (hq i).mpr (.inl hi), rfl⟩
  · rintro ⟨i, hi, rfl⟩
    rcases (hq i).mp hi with hp | rfl
    · exact .inr ⟨i, hp, rfl⟩
    · exact .inl rfl

/-- One entry less, which has its descriptor for itself. -/
theorem lose (h : Marks fd p s) (hone : ∀ i, p i → fd i = fd j → i = j)
    (hq : ∀ i, q i ↔ p i ∧ i ≠ j) : Marks fd q (s.erase (fd j)) := by
  intro x
  rw [Finset.mem_erase, h x]
  constructor
  · rintro ⟨hne, i, hi, rfl⟩
    exact ⟨i, (hq i).mpr ⟨hi, fun he ↦ hne (he ▸ rfl)⟩, rfl⟩
  · rintro ⟨i, hi, rfl⟩
    obtain ⟨hp, hne⟩ := (hq i).mp hi
    exact ⟨fun he ↦ hne (hone i hp he), i, hp, rfl⟩

/-- An entry without the property gets another descriptor. -/
theorem assign [DecidableEq ι] (h : Marks fd p s) (hj : ¬ p j) (x : Fd) :
    Marks (Function.update fd j x) p s := by
  intro y
  have hother (i : ι) (hi : p i) : Function.update fd j x i = fd i :=
    Function.update_of_ne (fun he : i = j ↦ hj (he ▸ hi)) _ _
  rw [h y]
  constructor
  · rintro ⟨i, hi, rfl⟩
    exact ⟨i, hi, hother i hi⟩
  · rintro ⟨i, hi, rfl⟩
    exact ⟨i, hi, (hother i hi).symm⟩

end Marks

/-! ### A table of clients beside a set -/

/-- Next to the descriptors `others`, the set has those of the table, each once. -/
structure Tracks (others allset : FdSet) (conn : Fin fdSetSize → Option Fd) : Prop where
  base : others ⊆ allset
  small : ∀ fd ∈ allset, fd < fdSetSize
  table : Slots.Lists none conn fun w ↦ ∃ fd, w = some fd ∧ fd ∈ allset ∧ fd ∉ others

namespace Tracks

variable {others allset : FdSet} {conn : Fin fdSetSize → Option Fd} {i j : Fin fdSetSize} {fd : Fd}

/-- No clients yet. -/
theorem empty (h : ∀ fd ∈ others, fd < fdSetSize) : Tracks others others fun _ ↦ none := by
  refine ⟨subset_rfl, h, ?_, ?_, ?_, fun i j hi ↦ absurd rfl hi⟩
  · rintro ⟨fd, he, -⟩
    cases he
  · intro i hi
    exact absurd rfl hi
  · rintro w ⟨fd, -, hmem, hnot⟩
    exact absurd hmem hnot

/-- A client's descriptor is in the set and not one of the others. -/
theorem mem (h : Tracks others allset conn) (hi : conn i = some fd) : fd ∈ allset ∧ fd ∉ others := by
  obtain ⟨fd', he, hmem⟩ := h.table.sound i (by rw [hi]; simp)
  rw [hi, Option.some_inj] at he
  rwa [he]

theorem once (h : Tracks others allset conn) (hi : conn i = some fd) (hj : conn j = some fd) :
    i = j := h.table.once i j (by rw [hi]; simp) (hi.trans hj.symm)

/-- The set has the others and the clients. -/
theorem mem_iff (h : Tracks others allset conn) (fd : Fd) :
    fd ∈ allset ↔ fd ∈ others ∨ ∃ i, conn i = some fd := by
  constructor
  · intro hmem
    by_cases ho : fd ∈ others
    · exact .inl ho
    · exact .inr (h.table.complete _ ⟨fd, rfl, hmem, ho⟩)
  · rintro (ho | ⟨i, hi⟩)
    · exact h.base ho
    · exact (h.mem hi).1

/-- A new client gets a free entry. -/
theorem add (h : Tracks others allset conn) (hi : conn i = none) (hlt : fd < fdSetSize)
    (hnew : fd ∉ allset) :
    Tracks others (insert fd allset) (Function.update conn i (some fd)) := by
  refine ⟨h.base.trans (Finset.subset_insert fd allset), ?_, ?_⟩
  · intro x hx
    rcases Finset.mem_insert.mp hx with rfl | hx
    · exact hlt
    · exact h.small x hx
  · have hfresh : ¬ ∃ x, some fd = some x ∧ x ∈ allset ∧ x ∉ others := by
      rintro ⟨x, he, hmem, -⟩
      exact hnew (Option.some_inj.mp he ▸ hmem)
    refine (h.table.fill hfresh (Option.some_ne_none fd) hi).congr fun w ↦ ?_
    constructor
    · rintro (⟨x, rfl, hmem, ho⟩ | rfl)
      · exact ⟨x, rfl, Finset.mem_insert_of_mem hmem, ho⟩
      · exact ⟨fd, rfl, Finset.mem_insert_self fd allset, fun ho ↦ hnew (h.base ho)⟩
    · rintro ⟨x, rfl, hmem, ho⟩
      rcases Finset.mem_insert.mp hmem with rfl | hmem
      · exact .inr rfl
      · exact .inl ⟨x, rfl, hmem, ho⟩

/-- A client's entry is freed. -/
theorem drop (h : Tracks others allset conn) (hi : conn i = some fd) :
    Tracks others (allset.erase fd) (Function.update conn i none) := by
  have hfd := (h.mem hi).2
  refine ⟨?_, fun x hx ↦ h.small x (Finset.mem_of_mem_erase hx), ?_⟩
  · intro x hx
    exact Finset.mem_erase.mpr ⟨fun he ↦ hfd (he ▸ hx), h.base hx⟩
  · refine (h.table.vacate (by rw [hi]; simp)).congr fun w ↦ ?_
    rw [hi]
    constructor
    · rintro ⟨⟨x, rfl, hmem, ho⟩, hne⟩
      exact ⟨x, rfl, Finset.mem_erase.mpr ⟨fun he ↦ hne (he ▸ rfl), hmem⟩, ho⟩
    · rintro ⟨x, rfl, hmem, ho⟩
      obtain ⟨hne, hmem⟩ := Finset.mem_erase.mp hmem
      exact ⟨⟨x, rfl, hmem, ho⟩, fun he ↦ hne (Option.some_inj.mp he)⟩

/-- The others leave too few descriptors for a full table. -/
theorem hole (h : Tracks others allset conn) (hne : others.Nonempty) : ∃ i, conn i = none := by
  obtain ⟨fd, hfd⟩ := hne
  have hsub : allset ⊆ Finset.range fdSetSize := fun x hx ↦ Finset.mem_range.mpr (h.small x hx)
  have hless : (allset \ others).card < fdSetSize := by
    apply lt_of_lt_of_eq (Finset.card_lt_card _) (Finset.card_range fdSetSize)
    apply Finset.ssubset_iff_subset_ne.mpr
    refine ⟨Finset.sdiff_subset.trans hsub, ?_⟩
    intro he
    have := he ▸ Finset.mem_range.mpr (h.small fd (h.base hfd))
    exact (Finset.mem_sdiff.mp this).2 hfd
  refine h.table.exists_hole (allset \ others) hless (fun x w ↦ w = some x) ?_ ?_
  · rintro w ⟨x, rfl, hmem, ho⟩
    exact ⟨x, Finset.mem_sdiff.mpr ⟨hmem, ho⟩, rfl⟩
  · rintro x v w rfl rfl
    rfl

end Tracks
end Unpv13e.Base
