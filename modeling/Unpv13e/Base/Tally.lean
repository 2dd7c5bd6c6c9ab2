import Mathlib

/-!
# Counting by kind

Library `Base`. Things are counted by kind, and then the kinds are gone through in order, each as many times as it
was counted. What is gone through so is the things again, in the order of their kinds; and a walk that stops the
loop over one kind where a number has been reached finds the thing with that number.
-/

namespace Unpv13e.Base.Tally

variable {κ ω σ : Type}

/-- How many there are of each kind. -/
def count [DecidableEq κ] (kind : ω → Option κ) (ws : List ω) : κ → Nat :=
  ws.foldl (fun n w ↦ (kind w).elim n fun k ↦ Function.update n k (n k + 1)) fun _ ↦ 0

/-- How many there are of any kind. -/
def total (kind : ω → Option κ) (ws : List ω) : Nat :=
  ws.foldl (fun n w ↦ if (kind w).isSome then n + 1 else n) 0

/-- The kinds in order, each as often as it counts. -/
def inOrder (keys : List κ) (n : κ → Nat) : List κ := keys.flatMap fun k ↦ List.replicate (n k) k

/-- `for each kind, while it counts`: the body is done. -/
def walk (body : κ → σ → σ) (keys : List κ) (n : κ → Nat) (s : σ) : σ :=
  keys.foldl (fun s k ↦ (body k)^[n k] s) s

/-- The loop over one kind that is left where the number `num` is reached, with the number reached so far and what
has been found. -/
def seekIn (num : Nat) (k : κ) : Nat → Nat × Option κ → Nat × Option κ
  | 0, s => s
  | m + 1, s => if s.1 + 1 = num then (s.1 + 1, some k) else seekIn num k m (s.1 + 1, s.2)

/-- The kind of the thing with the number `num`; the loop over the kinds is not left. -/
def seek (num : Nat) (keys : List κ) (n : κ → Nat) : Option κ :=
  (keys.foldl (fun s k ↦ seekIn num k (n k) s) (0, none)).2

section Counts
variable [DecidableEq κ] {kind : ω → Option κ} {keys : List κ} {ws : List ω}

private theorem foldl_count (n : κ → Nat) (k : κ) :
    ws.foldl (fun n w ↦ (kind w).elim n fun k ↦ Function.update n k (n k + 1)) n k =
      n k + (ws.filterMap kind).count k := by
  induction ws generalizing n with
  | nil => rfl
  | cons w ws ih =>
    rw [List.foldl_cons, ih]
    cases hw : kind w with
    | none =>
      rw [List.filterMap_cons_none hw]
      rfl
    | some j =>
      rw [List.filterMap_cons_some hw, Option.elim_some, List.count_cons]
      by_cases hj : k = j
      · subst hj
        rw [Function.update_self, if_pos (beq_self_eq_true k)]
        omega
      · rw [Function.update_of_ne hj, if_neg (by simpa using Ne.symm hj)]
        rfl

/-- The counts are those of the kinds that are found. -/
theorem count_eq (k : κ) : count kind ws k = (ws.filterMap kind).count k := by
  unfold count
  rw [foldl_count, Nat.zero_add]

omit [DecidableEq κ] in
private theorem foldl_total (n : Nat) : ws.foldl (fun n w ↦ if (kind w).isSome then n + 1 else n) n =
    n + (ws.filterMap kind).length := by
  induction ws generalizing n with
  | nil => rfl
  | cons w ws ih =>
    rw [List.foldl_cons, ih]
    cases hw : kind w with
    | none =>
      rw [List.filterMap_cons_none hw]
      rfl
    | some j =>
      rw [List.filterMap_cons_some hw, List.length_cons, Option.isSome_some, if_pos rfl]
      omega

omit [DecidableEq κ] in
theorem total_eq : total kind ws = (ws.filterMap kind).length := by
  unfold total
  rw [foldl_total, Nat.zero_add]

private theorem count_inOrder (hkeys : keys.Nodup) (n : κ → Nat) (k : κ) :
    (inOrder keys n).count k = if k ∈ keys then n k else 0 := by
  induction keys with
  | nil => rfl
  | cons j keys ih =>
    obtain ⟨hj, hkeys⟩ := List.nodup_cons.mp hkeys
    have hcons : inOrder (j :: keys) n = List.replicate (n j) j ++ inOrder keys n := List.flatMap_cons
    rw [hcons, List.count_append, ih hkeys, List.count_replicate]
    by_cases hk : k = j
    · subst hk
      rw [if_pos (beq_self_eq_true k), if_neg hj, if_pos List.mem_cons_self]
      rfl
    · rw [if_neg (by simpa using Ne.symm hk), Nat.zero_add]
      simp only [List.mem_cons, hk, false_or]

/-- What is gone through is what was counted, in another order. -/
theorem inOrder_perm (hkeys : keys.Nodup) (hall : ∀ k, k ∈ keys) :
    (inOrder keys (count kind ws)).Perm (ws.filterMap kind) := by
  apply List.perm_iff_count.mpr
  intro k
  rw [count_inOrder hkeys, if_pos (hall k), count_eq]

end Counts

section Walks
variable {keys : List κ} {n : κ → Nat}

/-- A walk does its body for the things in order. -/
theorem walk_eq_foldl (body : κ → σ → σ) (s : σ) :
    walk body keys n s = (inOrder keys n).foldl (fun s k ↦ body k s) s := by
  have hreplicate (k : κ) (m : Nat) (s : σ) :
      (List.replicate m k).foldl (fun s k ↦ body k s) s = (body k)^[m] s := by
    induction m generalizing s with
    | zero => rfl
    | succ m ih => exact ih (body k s)
  unfold walk
  induction keys generalizing s with
  | nil => rfl
  | cons k keys ih =>
    have hcons : inOrder (k :: keys) n = List.replicate (n k) k ++ inOrder keys n := List.flatMap_cons
    rw [hcons, List.foldl_cons, List.foldl_append, hreplicate, ih]

/-- One kind's loop either passes its things or is left at one of them. -/
private theorem seekIn_eq (num : Nat) (k : κ) (m c : Nat) (found : Option κ) :
    seekIn num k m (c, found) = if c < num ∧ num ≤ c + m then (num, some k) else (c + m, found) := by
  induction m generalizing c with
  | zero => exact (if_neg (by omega)).symm
  | succ m ih =>
    rw [seekIn]
    dsimp only
    by_cases hnum : c + 1 = num
    · rw [if_pos hnum, if_pos (by omega), hnum]
    · rw [if_neg hnum, ih]
      by_cases hin : c < num ∧ num ≤ c + (m + 1)
      · rw [if_pos hin, if_pos (by omega)]
      · rw [if_neg hin, if_neg (by omega), Nat.add_assoc, Nat.add_comm 1 m]

private theorem seekIn_foldl (num c : Nat) (found : Option κ) :
    (keys.foldl (fun s k ↦ seekIn num k (n k) s) (c, found)).2 =
      if c < num then ((inOrder keys n)[num - c - 1]?).or found else found := by
  induction keys generalizing c found with
  | nil => exact (ite_self found).symm
  | cons k keys ih =>
    have hcons : inOrder (k :: keys) n = List.replicate (n k) k ++ inOrder keys n := List.flatMap_cons
    rw [List.foldl_cons, seekIn_eq, hcons]
    by_cases hin : c < num ∧ num ≤ c + n k
    · -- found: the number is reached, and the kinds after this one are passed from it on
      have hlen : num - c - 1 < (List.replicate (n k) k).length := by
        rw [List.length_replicate]
        omega
      rw [if_pos hin, ih, if_neg (lt_irrefl num), if_pos hin.1, List.getElem?_append_left hlen,
        List.getElem?_eq_getElem hlen, List.getElem_replicate]
      rfl
    · rw [if_neg hin, ih]
      by_cases hlt : c + n k < num
      · have hlen : (List.replicate (n k) k).length ≤ num - c - 1 := by
          rw [List.length_replicate]
          omega
        rw [if_pos hlt, if_pos (by omega), List.getElem?_append_right hlen, List.length_replicate]
        congr 2
        omega
      · rw [if_neg hlt, if_neg (by omega)]

/-- The thing found is the one that has the number in the order gone through, counted from one. -/
theorem seek_eq {num : Nat} (h : 0 < num) : seek num keys n = (inOrder keys n)[num - 1]? := by
  unfold seek
  rw [seekIn_foldl, if_pos h, Nat.sub_zero, Option.or_none]

end Walks

end Unpv13e.Base.Tally
