import Mathlib

/-!
# Doubly linked rings

Library `Base`. Nodes in a heap, linked forwards and backwards from a head to itself: what the
ring is after a node is linked in before the head or taken out. Addresses and the values the
nodes carry are arbitrary types.
-/

namespace Unpv13e.Base

universe u v
variable {A : Type u} {ι : Type v}

/-- A node of a doubly linked list. -/
structure Node (A : Type u) (ι : Type v) where
  index : ι
  pre : A
  next : A

/-- The node at every address. -/
abbrev Heap (A : Type u) (ι : Type v) := A → Node A ι

/-- From `a` the links lead over `xs` to `z` and back. -/
def Linked (h : Heap A ι) : A → List A → A → Prop
  | a, [], z => (h a).next = z ∧ (h z).pre = a
  | a, b :: bs, z => (h a).next = b ∧ (h b).pre = a ∧ Linked h b bs z

/-- The nodes `xs` form a ring with the head. -/
def IsRing (h : Heap A ι) (head : A) (xs : List A) : Prop :=
  Linked h head xs head ∧ (head :: xs).Nodup

/-- The links over two lists one after the other. -/
theorem linked_append {h : Heap A ι} {xs ys : List A} {a t z : A} :
    Linked h a (xs ++ t :: ys) z ↔ Linked h a xs t ∧ Linked h t ys z := by
  induction xs generalizing a with
  | nil => simp only [List.nil_append, Linked, and_assoc]
  | cons b xs ih => simp only [List.cons_append, Linked, ih, and_assoc]

/-- The links depend on the nodes they go through only. -/
theorem Linked.congr {h h' : Heap A ι} {xs : List A} {a z : A} (hl : Linked h a xs z)
    (hnext : ∀ x ∈ a :: xs, (h' x).next = (h x).next)
    (hpre : ∀ x ∈ xs ++ [z], (h' x).pre = (h x).pre) : Linked h' a xs z := by
  induction xs generalizing a with
  | nil =>
    refine ⟨?_, ?_⟩
    · rw [hnext a List.mem_cons_self, hl.1]
    · rw [hpre z List.mem_cons_self, hl.2]
  | cons b xs ih =>
    obtain ⟨h1, h2, h3⟩ := hl
    refine ⟨?_, ?_, ?_⟩
    · rw [hnext a List.mem_cons_self, h1]
    · rw [hpre b List.mem_cons_self, h2]
    · exact ih h3 (fun x hx ↦ hnext x (List.mem_cons_of_mem _ hx))
        (fun x hx ↦ hpre x (List.mem_cons_of_mem _ hx))

/-- The node before the end is one of those the links lead over. -/
theorem Linked.pre_mem {h : Heap A ι} {xs : List A} {a z : A} (hl : Linked h a xs z) :
    (h z).pre ∈ a :: xs := by
  induction xs generalizing a with
  | nil => rw [hl.2]; exact List.mem_cons_self
  | cons b xs ih => exact List.mem_cons_of_mem _ (ih hl.2.2)

/-- The node after the beginning. -/
theorem Linked.next_eq {h : Heap A ι} {xs : List A} {a z : A} (hl : Linked h a xs z) :
    (h a).next = xs.headD z := by
  cases xs with
  | nil => exact hl.1
  | cons b xs => exact hl.1

/-- The node after one of the ring. -/
theorem IsRing.next_eq {h : Heap A ι} {head t : A} {xs ys : List A}
    (hr : IsRing h head (xs ++ t :: ys)) : (h t).next = ys.headD head :=
  (linked_append.mp hr.1).2.next_eq

/-- A place in the ring that is not the head has a node. -/
theorem IsRing.cursor {h : Heap A ι} {head : A} {xs ys : List A} (hr : IsRing h head (xs ++ ys))
    (hne : ys.headD head ≠ head) : ∃ t rest, ys = t :: rest := by
  cases ys with
  | nil => exact absurd rfl hne
  | cons t rest => exact ⟨t, rest, rfl⟩

namespace Heap

variable [DecidableEq A]

/-- The assignment to the field `pre` of a node. -/
def setPre (h : Heap A ι) (a p : A) : Heap A ι := Function.update h a { h a with pre := p }

/-- The assignment to the field `next` of a node. -/
def setNext (h : Heap A ι) (a n : A) : Heap A ι := Function.update h a { h a with next := n }

@[simp] theorem setPre_index (h : Heap A ι) (a p x : A) :
    (h.setPre a p x).index = (h x).index := by
  by_cases hx : x = a
  · subst hx; simp [setPre]
  · simp [setPre, hx]

@[simp] theorem setPre_next (h : Heap A ι) (a p x : A) :
    (h.setPre a p x).next = (h x).next := by
  by_cases hx : x = a
  · subst hx; simp [setPre]
  · simp [setPre, hx]

@[simp] theorem setPre_pre (h : Heap A ι) (a p x : A) :
    (h.setPre a p x).pre = if x = a then p else (h x).pre := by
  by_cases hx : x = a
  · subst hx; simp [setPre]
  · simp [setPre, hx]

@[simp] theorem setNext_index (h : Heap A ι) (a n x : A) :
    (h.setNext a n x).index = (h x).index := by
  by_cases hx : x = a
  · subst hx; simp [setNext]
  · simp [setNext, hx]

@[simp] theorem setNext_pre (h : Heap A ι) (a n x : A) :
    (h.setNext a n x).pre = (h x).pre := by
  by_cases hx : x = a
  · subst hx; simp [setNext]
  · simp [setNext, hx]

@[simp] theorem setNext_next (h : Heap A ι) (a n x : A) :
    (h.setNext a n x).next = if x = a then n else (h x).next := by
  by_cases hx : x = a
  · subst hx; simp [setNext]
  · simp [setNext, hx]

/-- A node is taken out: first the node after it, then the node before it is linked anew. -/
def unlink (h : Heap A ι) (t : A) : Heap A ι :=
  let h := h.setPre (h t).next (h t).pre
  h.setNext (h t).pre (h t).next

/-- A new node is linked in before the head. -/
def pushBack (h : Heap A ι) (head t : A) (i : ι) : Heap A ι :=
  let h : Heap A ι := Function.update h t { h t with index := i }
  let h := h.setNext (h head).pre t
  let h := h.setPre t (h head).pre
  let h := h.setNext t head
  h.setPre head t

@[simp] theorem unlink_next (h : Heap A ι) (t x : A) :
    (h.unlink t x).next = if x = (h t).pre then (h t).next else (h x).next := by
  simp [unlink]

@[simp] theorem unlink_pre (h : Heap A ι) (t x : A) :
    (h.unlink t x).pre = if x = (h t).next then (h t).pre else (h x).pre := by
  simp [unlink]

/-- Taking a node out changes no value. -/
@[simp] theorem unlink_index (h : Heap A ι) (t x : A) : (h.unlink t x).index = (h x).index := by
  simp [unlink]

private theorem update_index (h : Heap A ι) (t x : A) (i : ι) :
    (Function.update h t { h t with index := i } x).pre = (h x).pre ∧
      (Function.update h t { h t with index := i } x).next = (h x).next := by
  by_cases hx : x = t
  · subst hx; simp
  · simp [hx]

@[simp] theorem pushBack_next (h : Heap A ι) (head t x : A) (i : ι) :
    (h.pushBack head t i x).next =
      if x = t then head else if x = (h head).pre then t else (h x).next := by
  simp [pushBack, update_index]

@[simp] theorem pushBack_pre (h : Heap A ι) (head t x : A) (i : ι) :
    (h.pushBack head t i x).pre =
      if x = head then t else if x = t then (h head).pre else (h x).pre := by
  simp [pushBack, update_index]

/-- Linking a node in sets its value and changes no other. -/
theorem pushBack_index (h : Heap A ι) (head t x : A) (i : ι) :
    (h.pushBack head t i x).index = if x = t then i else (h x).index := by
  by_cases hx : x = t
  · subst hx; simp [pushBack]
  · simp [pushBack, hx]

end Heap

variable [DecidableEq A]

private theorem linked_unlink {h : Heap A ι} {xs ys : List A} {a t z : A}
    (hxs : Linked h a xs t) (hys : Linked h t ys z) (hnd : (a :: (xs ++ t :: ys)).Nodup)
    (hz : z ∉ xs ++ t :: ys) : Linked (h.unlink t) a (xs ++ ys) z := by
  have hpre := hxs.pre_mem
  have hnext := hys.next_eq
  induction xs generalizing a with
  | nil =>
    have ha : (h t).pre = a := hxs.2
    cases ys with
    | nil =>
      have hz' : (h t).next = z := hnext
      exact ⟨by simp [ha, hz'], by simp [ha, hz']⟩
    | cons b ys =>
      have hb : (h t).next = b := hnext
      obtain ⟨-, -, hys⟩ := hys
      simp only [List.nil_append, List.nodup_cons, List.mem_cons, not_or] at hnd hz
      refine ⟨by simp [ha, hb], by simp [ha, hb], hys.congr ?_ ?_⟩
      · -- the node before is not met again
        intro x hx
        have hxa : x ≠ a := by
          rintro rfl
          rcases List.mem_cons.mp hx with rfl | hx
          · exact hnd.1.2.1 rfl
          · exact hnd.1.2.2 hx
        simp [ha, hxa]
      · intro x hx
        have hxb : x ≠ b := by
          rintro rfl
          rcases List.mem_append.mp hx with hx | hx
          · exact hnd.2.2.1 hx
          · exact hz.2.1 (List.mem_singleton.mp hx).symm
        simp [hb, hxb]
  | cons c xs ih =>
    obtain ⟨h1, h2, h3⟩ := hxs
    obtain ⟨hac, hnd⟩ := List.nodup_cons.mp hnd
    have hap : a ≠ (h t).pre := by
      intro he
      refine hac (he ▸ ?_)
      exact List.mem_append_left (t :: ys) h3.pre_mem
    have hcn : c ≠ (h t).next := by
      rw [hnext]
      intro he
      cases ys with
      | nil => exact hz (by simp [← show c = z from he])
      | cons b ys => exact (List.nodup_cons.mp hnd).1 (by simp [show c = b from he])
    refine ⟨by simp [hap, h1], by simp [hcn, h2], ?_⟩
    exact ih h3 hnd (fun hm ↦ hz (List.mem_cons_of_mem _ hm)) h3.pre_mem

/-- Taking a node out of a ring leaves the ring of the others. -/
theorem IsRing.unlink {h : Heap A ι} {head t : A} {xs ys : List A}
    (hr : IsRing h head (xs ++ t :: ys)) : IsRing (h.unlink t) head (xs ++ ys) := by
  obtain ⟨hl, hnd⟩ := hr
  obtain ⟨hxs, hys⟩ := linked_append.mp hl
  refine ⟨linked_unlink hxs hys hnd (List.nodup_cons.mp hnd).1, hnd.sublist ?_⟩
  exact List.Sublist.cons_cons _ (List.Sublist.append_left (List.sublist_cons_self _ _) _)

private theorem linked_pushBack {h : Heap A ι} {xs : List A} {a t z : A} {i : ι}
    (hl : Linked h a xs z) (hnd : (a :: xs).Nodup) (hz : z ∉ xs) (ht : t ∉ a :: xs)
    (htz : t ≠ z) : Linked (h.pushBack z t i) a (xs ++ [t]) z := by
  have hpre := hl.pre_mem
  induction xs generalizing a with
  | nil =>
    have ha : (h z).pre = a := hl.2
    have hta : a ≠ t := fun he ↦ ht (he ▸ List.mem_cons_self)
    exact ⟨by simp [ha, hta], by simp [ha, htz], by simp, by simp⟩
  | cons c xs ih =>
    obtain ⟨h1, h2, h3⟩ := hl
    obtain ⟨hac, hnd⟩ := List.nodup_cons.mp hnd
    have hat : a ≠ t := fun he ↦ ht (he ▸ List.mem_cons_self)
    have hct : c ≠ t := fun he ↦ ht (he ▸ List.mem_cons_of_mem _ List.mem_cons_self)
    have hcz : c ≠ z := fun he ↦ hz (he ▸ List.mem_cons_self)
    have hap : a ≠ (h z).pre := fun he ↦ hac (he ▸ h3.pre_mem)
    refine ⟨by simp [hat, hap, h1], by simp [hct, hcz, h2], ?_⟩
    exact ih h3 hnd (fun hm ↦ hz (List.mem_cons_of_mem _ hm))
      (fun hm ↦ ht (List.mem_cons_of_mem _ hm)) h3.pre_mem

/-- Linking a new node in before the head makes it the last of the ring. -/
theorem IsRing.pushBack {h : Heap A ι} {head t : A} {xs : List A} (hr : IsRing h head xs)
    (ht : t ∉ head :: xs) (i : ι) : IsRing (h.pushBack head t i) head (xs ++ [t]) := by
  obtain ⟨hl, hnd⟩ := hr
  have htz : t ≠ head := fun he ↦ ht (he ▸ List.mem_cons_self)
  refine ⟨linked_pushBack hl hnd (List.nodup_cons.mp hnd).1 ht htz, ?_⟩
  rw [← List.cons_append, List.nodup_append]
  refine ⟨hnd, List.nodup_singleton t, ?_⟩
  rintro x hx y hy rfl
  exact ht (List.mem_singleton.mp hy ▸ hx)

end Unpv13e.Base
