import Unpv13e.Base.Count
import Unpv13e.Pool.Prefork

/-!
# Only idle children get connections

Library `Pool`. A child's status says how many connections it owes: passed to it, served or reported,
but not yet collected by the parent. The parent takes a connection only while the number of idle
children is positive, and its countdown covers what `select` reported.
-/

namespace Unpv13e.Pool.Prefork
open Unpv13e.Base

variable {n : Nat} {s t : Prefork n}

/-- The connections that were passed to a child and have not been collected. -/
def owed (s : Prefork n) (i : Fin n) : Nat :=
  (s.inbox i).length + (if (s.working i).isSome then 1 else 0) + s.reports i

/-- How many connections were passed to a child. -/
def share (s : Prefork n) (i : Fin n) : Nat := s.passed.countP fun c ↦ c.2 = i

/-- The descriptors are different indices of a set. -/
structure Wired (s : Prefork n) : Prop where
  inj : Function.Injective s.child_pipefd
  apart : ∀ i, s.child_pipefd i ≠ s.listenfd
  master : ∀ fd, fd ∈ s.masterset → fd = s.listenfd ∨ ∃ i, s.child_pipefd i = fd

/-- The counters against the children. -/
structure Tallied (s : Prefork n) : Prop where
  busy : ∀ i, s.owed i = s.child_status i ∧ s.child_status i ≤ 1
  avail : s.navail = count fun i ↦ s.child_status i = 0
  counted : ∀ i, s.child_count i = s.share i
  reported : ∀ i, s.share i = s.collected i + s.owed i
  inOrder : s.passed.map Prod.fst = List.range s.passed.length
  taken : s.accepted = s.passed.length + if s.pc = .dispatch then 1 else 0

/-- Where the children's pipes are in the scan. -/
def pipes (s : Prefork n) (i : Fin n) : Option Fd := some (s.child_pipefd i)

/-- What has been served since the last `select`, against what it reported. -/
def Round (s : Prefork n) : Prop :=
  match s.pc with
  | .select => s.served.Nodup ∧ ∀ fd, fd ∈ s.served ↔ fd ∈ s.rset
  | .listen => s.served = [] ∧ s.rset ⊆ s.masterset ∧ Countdown s.rset s.served s.nsel ∧
      (s.listenfd ∈ s.rset → 0 < s.navail)
  | .dispatch => s.served = [] ∧ s.rset ⊆ s.masterset ∧ Countdown s.rset s.served s.nsel ∧
      s.listenfd ∈ s.rset ∧ 0 < s.navail
  | .scan k => Scan s.rset s.served s.nsel s.pipes k

/-- What holds in every reachable state. -/
structure Kept (s : Prefork n) : Prop where
  wired : Wired s
  tallied : Tallied s
  round : Round s

/-! ### Counters -/

/-- Idle children owe nothing. -/
theorem Tallied.idle (h : Tallied s) {i : Fin n} (hi : s.child_status i = 0) : s.owed i = 0 :=
  (h.busy i).1.trans hi

/-- The first child with status 0. -/
theorem status_of_available {i : Fin n} (h : s.available = some i) : s.child_status i = 0 :=
  (Slots.of_firstHole h).1

/-- A positive number of idle children means that one is found. -/
theorem Tallied.exists_available (h : Tallied s) (hpos : 0 < s.navail) : ∃ i, s.available = some i := by
  have hcount : 0 < count fun i ↦ s.child_status i = 0 := by
    have := h.avail
    omega
  exact Slots.exists_firstHole (count_pos.mp hcount)

/-- A connection is passed to an idle child. -/
theorem tallied_dispatch (h : Tallied s) (hpc : s.pc = .dispatch) (hs : s.dispatch = .ok t) :
    Tallied t := by
  unfold Prefork.dispatch at hs
  split at hs
  · cases hs
  · next i hi =>
    have hidle := status_of_available hi
    have howed := h.idle hidle
    have htaken := h.taken
    rw [if_pos hpc] at htaken
    have hpc' : onwards (s.nsel - 1) 0 ≠ .dispatch := by
      unfold onwards
      split <;> intro he <;> cases he
    cases hs
    refine ⟨?_, ?_, ?_, ?_, ?_, ?_⟩
    · intro j
      unfold owed at howed ⊢
      by_cases hji : j = i
      · rw [hji]
        simp only [Function.update_self, List.length_append, List.length_singleton]
        omega
      · have := h.busy j
        unfold owed at this
        simpa only [Function.update_of_ne hji] using this
    · have hlose := count_lose (p := fun j ↦ s.child_status j = 0)
        (q := fun j ↦ Function.update s.child_status i 1 j = 0) i hidle (by simp)
        fun j hj ↦ by rw [Function.update_of_ne hj]
      have := h.avail
      dsimp only
      omega
    · intro j
      unfold share
      rw [List.countP_append, List.countP_singleton]
      have := h.counted j
      unfold share at this
      by_cases hji : j = i
      · subst hji
        simp [this]
      · simp [Function.update_of_ne hji, this, Ne.symm hji]
    · intro j
      have := h.reported j
      unfold share owed at *
      rw [List.countP_append, List.countP_singleton]
      by_cases hji : j = i
      · subst hji
        simp only [Function.update_self, List.length_append, List.length_singleton]
        simp only [decide_true, if_true]
        omega
      · simpa [Function.update_of_ne hji, Ne.symm hji] using this
    · dsimp only
      rw [List.map_append, h.inOrder, List.length_append, List.length_singleton, List.range_succ]
      simp only [List.map_cons, List.map_nil]
      rw [htaken, Nat.add_sub_cancel]
    · dsimp only
      rw [if_neg hpc', List.length_append, List.length_singleton, htaken]

/-- A step that changes neither the parent's counters nor what a child owes. -/
theorem tallied_of_owed (h : Tallied s) (hstatus : t.child_status = s.child_status)
    (hcount : t.child_count = s.child_count) (havail : t.navail = s.navail) (howed : t.owed = s.owed)
    (hpassed : t.passed = s.passed) (hcollected : t.collected = s.collected)
    (htaken : t.accepted = t.passed.length + if t.pc = .dispatch then 1 else 0) : Tallied t := by
  have hshare : t.share = s.share := by
    funext i
    unfold share
    rw [hpassed]
  refine ⟨?_, ?_, ?_, ?_, ?_, htaken⟩
  · rw [howed, hstatus]
    exact h.busy
  · rw [havail, hstatus]
    exact h.avail
  · rw [hcount, hshare]
    exact h.counted
  · rw [hshare, hcollected, howed]
    exact h.reported
  · rw [hpassed]
    exact h.inOrder

theorem owed_receive {i : Fin n} (hs : s.receive i = .ok t) : t.owed = s.owed := by
  unfold Prefork.receive at hs
  split at hs
  · next c cs hinbox hworking =>
    cases hs
    funext j
    unfold owed
    by_cases hji : j = i
    · subst hji
      simp [hinbox, hworking]
    · simp [Function.update_of_ne hji]
  · cases hs

theorem owed_finish {i : Fin n} (hs : s.finish i = .ok t) : t.owed = s.owed := by
  unfold Prefork.finish at hs
  split at hs
  · next c hworking =>
    cases hs
    funext j
    unfold owed
    by_cases hji : j = i
    · subst hji
      simp only [hworking, Function.update_self, Option.isSome_some, Option.isSome_none, if_true,
        Bool.false_eq_true, if_false]
      omega
    · simp [Function.update_of_ne hji]
  · cases hs

/-- A report is collected. -/
theorem tallied_collect (h : Tallied s) {i : Fin n} {k : Nat} (hpc : s.pc = .scan k)
    (hs : s.collect i = .ok t) : Tallied t := by
  unfold Prefork.collect at hs
  split at hs
  · cases hs
  · next hreports =>
    have hbusy : s.owed i = 1 ∧ s.child_status i = 1 := by
      have := h.busy i
      have hle : s.reports i ≤ s.owed i := Nat.le_add_left _ _
      omega
    have hpc' : onwards (s.nsel - 1) (i + 1) ≠ .dispatch := by
      unfold onwards
      split <;> intro he <;> cases he
    have howed (j : Fin n) : t.owed j = if j = i then 0 else s.owed j := by
      cases hs
      unfold owed at hbusy ⊢
      dsimp only
      by_cases hji : j = i
      · rw [hji, if_pos rfl, Function.update_self]
        omega
      · rw [if_neg hji, Function.update_of_ne hji]
    refine ⟨?_, ?_, ?_, ?_, ?_, ?_⟩
    · intro j
      rw [howed]
      cases hs
      dsimp only
      by_cases hji : j = i
      · rw [if_pos hji, hji, Function.update_self]
        exact ⟨rfl, Nat.zero_le 1⟩
      · rw [if_neg hji, Function.update_of_ne hji]
        exact h.busy j
    · cases hs
      have hgain := count_gain (p := fun j ↦ s.child_status j = 0)
        (q := fun j ↦ Function.update s.child_status i 0 j = 0) i (by omega) (by simp)
        fun j hj ↦ by rw [Function.update_of_ne hj]
      have := h.avail
      dsimp only
      omega
    · cases hs
      exact h.counted
    · intro j
      rw [howed]
      cases hs
      refine (h.reported j).trans ?_
      dsimp only
      by_cases hji : j = i
      · rw [if_pos hji, hji, Function.update_self, hbusy.1]
      · rw [if_neg hji, Function.update_of_ne hji]
    · cases hs
      exact h.inOrder
    · have htaken := h.taken
      rw [if_neg (by rw [hpc]; intro he; cases he)] at htaken
      cases hs
      dsimp only
      rw [if_neg hpc', htaken]

/-! ### Rounds -/

/-- When none is left the round is over. -/
theorem round_onwards {k : Nat} (hpc : s.pc = onwards s.nsel k)
    (h : Scan s.rset s.served s.nsel s.pipes k) : s.Round := by
  have hpos := h.left_nonneg
  unfold Round
  rw [hpc]
  unfold onwards
  by_cases h0 : s.nsel = 0
  · rw [if_pos h0]
    exact ⟨h.nodup, h.complete (by omega)⟩
  · rw [if_neg h0]
    exact h

/-- What is reported and is not the listening socket is a child's pipe. -/
theorem Wired.pipe_of_reported (h : Wired s) (hsub : s.rset ⊆ s.masterset) {fd : Fd}
    (hfd : fd ∈ s.rset) (hne : fd ≠ s.listenfd) : ∃ i, s.pipes i = some fd := by
  rcases h.master fd (hsub hfd) with hl | ⟨i, hi⟩
  · exact absurd hl hne
  · exact ⟨i, congrArg some hi⟩

theorem kept_select {ready : FdSet} (hk : Kept s) (hpc : s.pc = .select)
    (hs : s.select ready = .ok t) : Kept t := by
  have htaken := hk.tallied.taken
  rw [if_neg (by rw [hpc]; decide)] at htaken
  obtain ⟨rset, hrset, hs⟩ := exists_of_bind_ok hs
  split at hs
  · next hready =>
    cases hs
    have hsub : ready ⊆ rset := hready.1.trans (Finset.filter_subset _ _)
    refine ⟨⟨hk.wired.inj, hk.wired.apart, hk.wired.master⟩, ?_, rfl, ?_, .start ready, ?_⟩
    · exact tallied_of_owed hk.tallied rfl rfl rfl rfl rfl rfl htaken
    · split at hrset
      · obtain ⟨-, rfl⟩ := FdSet.clr_ok hrset
        exact hsub.trans (Finset.erase_subset _ _)
      · cases hrset
        exact hsub
    · intro hl
      by_contra hnot
      rw [if_pos (not_lt.mp hnot)] at hrset
      obtain ⟨-, rfl⟩ := FdSet.clr_ok hrset
      exact Finset.notMem_erase _ _ (hsub hl)
  · cases hs

theorem kept_listen (hk : Kept s) (hpc : s.pc = .listen) (hs : s.listen = .ok t) : Kept t := by
  have htaken := hk.tallied.taken
  rw [if_neg (by rw [hpc]; decide)] at htaken
  have hround := hk.round
  unfold Round at hround
  rw [hpc] at hround
  obtain ⟨hserved, hsub, hcount, hopen⟩ := hround
  obtain ⟨isset, hisset, hs⟩ := exists_of_bind_ok hs
  obtain ⟨-, rfl⟩ := FdSet.isset_ok hisset
  split at hs
  · next hready =>
    have hready := of_decide_eq_true hready
    cases hs
    refine ⟨⟨hk.wired.inj, hk.wired.apart, hk.wired.master⟩, ?_, hserved, hsub, hcount, hready,
      hopen hready⟩
    exact tallied_of_owed hk.tallied rfl rfl rfl rfl rfl rfl (congrArg (· + 1) htaken)
  · next hready =>
    have hready : s.listenfd ∉ s.rset := fun h ↦ hready (decide_eq_true h)
    cases hs
    refine ⟨⟨hk.wired.inj, hk.wired.apart, hk.wired.master⟩, ?_, hcount, ?_, ?_⟩
    · exact tallied_of_owed hk.tallied rfl rfl rfl rfl rfl rfl htaken
    · intro fd hfd _
      obtain ⟨i, hi⟩ := hk.wired.pipe_of_reported hsub hfd fun he ↦ hready (he ▸ hfd)
      exact ⟨i, Nat.zero_le _, hi⟩
    · intro i fd _ _ hfd
      dsimp only at hfd
      rw [hserved] at hfd
      cases hfd

theorem kept_dispatch (hk : Kept s) (hpc : s.pc = .dispatch) (hs : s.dispatch = .ok t) : Kept t := by
  have hround := hk.round
  unfold Round at hround
  rw [hpc] at hround
  obtain ⟨hserved, hsub, hcount, hready, -⟩ := hround
  have htallied := tallied_dispatch hk.tallied hpc hs
  unfold Prefork.dispatch at hs
  split at hs
  · cases hs
  · cases hs
    refine ⟨⟨hk.wired.inj, hk.wired.apart, hk.wired.master⟩, htallied, round_onwards rfl ?_⟩
    refine ⟨hcount.serve hready (by rw [hserved]; exact List.not_mem_nil), ?_, ?_⟩
    · intro fd hfd hs
      dsimp only at hs
      rw [hserved, List.nil_append, List.mem_singleton] at hs
      obtain ⟨j, hj⟩ := hk.wired.pipe_of_reported hsub hfd hs
      exact ⟨j, Nat.zero_le _, hj⟩
    · intro j fd _ hj hs
      dsimp only at hs
      rw [hserved, List.nil_append, List.mem_singleton] at hs
      rw [hs] at hj
      exact hk.wired.apart j (Option.some_inj.mp hj)

theorem kept_scan {k : Nat} (hk : Kept s) (hpc : s.pc = .scan k) (hs : s.scan k = .ok t) : Kept t := by
  have htaken := hk.tallied.taken
  rw [if_neg (by rw [hpc]; intro he; cases he)] at htaken
  have hround := hk.round
  unfold Round at hround
  rw [hpc] at hround
  unfold Prefork.scan at hs
  split at hs
  · next hlt =>
    obtain ⟨isset, hisset, hs⟩ := exists_of_bind_ok hs
    obtain ⟨-, rfl⟩ := FdSet.isset_ok hisset
    split at hs
    · next hready =>
      have hready := of_decide_eq_true hready
      have htallied := tallied_collect hk.tallied hpc hs
      have hhit := hround.hit (i := ⟨k, hlt⟩) rfl hready
        fun j hj ↦ hk.wired.inj (Option.some_inj.mp hj)
      unfold Prefork.collect at hs
      split at hs
      · cases hs
      · cases hs
        exact ⟨⟨hk.wired.inj, hk.wired.apart, hk.wired.master⟩, htallied, round_onwards rfl hhit⟩
    · next hready =>
      have hready : s.child_pipefd ⟨k, hlt⟩ ∉ s.rset := fun h ↦ hready (decide_eq_true h)
      cases hs
      refine ⟨⟨hk.wired.inj, hk.wired.apart, hk.wired.master⟩, ?_, hround.skip ?_⟩
      · exact tallied_of_owed hk.tallied rfl rfl rfl rfl rfl rfl htaken
      · rintro i fd rfl hi
        exact Option.some_inj.mp hi ▸ hready
  · next hge =>
    cases hs
    refine ⟨⟨hk.wired.inj, hk.wired.apart, hk.wired.master⟩, ?_, hround.nodup, hround.finish ?_⟩
    · exact tallied_of_owed hk.tallied rfl rfl rfl rfl rfl rfl htaken
    · intro i hi
      have := i.isLt
      omega

/-- A child's step is seen by the parent in the pipe only. -/
theorem kept_child {i : Fin n} (hk : Kept s) (hs : s.receive i = .ok t ∨ s.finish i = .ok t) :
    Kept t := by
  have howed : t.owed = s.owed := hs.elim owed_receive owed_finish
  rcases hs with hs | hs
  · unfold Prefork.receive at hs
    split at hs
    · cases hs
      exact ⟨⟨hk.wired.inj, hk.wired.apart, hk.wired.master⟩,
        tallied_of_owed hk.tallied rfl rfl rfl howed rfl rfl hk.tallied.taken, hk.round⟩
    · cases hs
  · unfold Prefork.finish at hs
    split at hs
    · cases hs
      exact ⟨⟨hk.wired.inj, hk.wired.apart, hk.wired.master⟩,
        tallied_of_owed hk.tallied rfl rfl rfl howed rfl rfl hk.tallied.taken, hk.round⟩
    · cases hs

/-- One step keeps the counters and serves nothing twice. -/
theorem Kept.step {a : Act n} (hk : Kept s) (hs : Step s a t) : Kept t := by
  unfold Step Prefork.step at hs
  cases a with
  | receive i => exact kept_child hk (.inl hs)
  | finish i => exact kept_child hk (.inr hs)
  | select ready =>
    dsimp only at hs
    split at hs
    · next hpc => exact kept_select hk hpc hs
    · cases hs
  | go =>
    dsimp only at hs
    split at hs
    · cases hs
    · next hpc => exact kept_listen hk hpc hs
    · next hpc => exact kept_dispatch hk hpc hs
    · next k hpc => exact kept_scan hk hpc hs

/-! ### Runs -/

private theorem mem_of_setAll {fds : List Fd} {a b : FdSet} (h : setAll fds a = .ok b) (fd : Fd)
    (hfd : fd ∈ b) : fd ∈ a ∨ fd ∈ fds := by
  induction fds generalizing a with
  | nil =>
    cases h
    exact .inl hfd
  | cons x fds ih =>
    obtain ⟨c, hc, h⟩ := exists_of_bind_ok h
    obtain ⟨-, rfl⟩ := FdSet.set_ok hc
    rcases ih h with hmem | hmem
    · rcases Finset.mem_insert.mp hmem with rfl | hmem
      · exact .inr List.mem_cons_self
      · exact .inl hmem
    · exact .inr (List.mem_cons_of_mem x hmem)

/-- Before the first turn. -/
theorem kept_start {listenfd : Fd} {pipefd : Fin n → Fd} (h : start listenfd pipefd = .ok s) :
    Kept s := by
  unfold start at h
  split at h
  · next hnodup =>
    obtain ⟨hapart, hinj⟩ := List.nodup_cons.mp hnodup
    obtain ⟨a, ha, h⟩ := exists_of_bind_ok h
    obtain ⟨-, rfl⟩ := FdSet.set_ok ha
    obtain ⟨b, hb, h⟩ := exists_of_bind_ok h
    cases h
    refine ⟨⟨?_, ?_, ?_⟩, ⟨fun i ↦ ⟨rfl, Nat.zero_le 1⟩, ?_, fun _ ↦ rfl, fun _ ↦ rfl, rfl, rfl⟩,
      List.nodup_nil, ?_⟩
    · intro i j hij
      exact List.inj_on_of_nodup_map hinj (List.mem_finRange i) (List.mem_finRange j) hij
    · intro i he
      exact hapart (List.mem_map.mpr ⟨i, List.mem_finRange i, he⟩)
    · intro fd hfd
      rcases mem_of_setAll hb fd hfd with hmem | hmem
      · rcases Finset.mem_insert.mp hmem with hl | hmem
        · exact .inl hl
        · exact absurd hmem (Finset.notMem_empty fd)
      · obtain ⟨i, -, hi⟩ := List.mem_map.mp hmem
        exact .inr ⟨i, hi⟩
    · simp [count]
    · intro fd
      exact iff_of_false List.not_mem_nil (Finset.notMem_empty fd)
  · cases h

/-- Every reachable state is kept. -/
theorem kept_of_run {listenfd : Fd} {pipefd : Fin n → Fd} {s₀ : Prefork n}
    (hstart : start listenfd pipefd = .ok s₀) (h : Run Step s₀ s) : Kept s :=
  h.preserves (fun _ _ _ hk _ hs ↦ hk.step hs) (kept_start hstart)

/-- The number of idle children is right; the child that gets the next connection has reported all it
got before and owes nothing; an accepted connection finds a child; the connections are passed once each,
in order; and at the top of the loop the last iteration has served what `select` had reported, each
once. -/
theorem dispatches_to_idle {listenfd : Fd} {pipefd : Fin n → Fd} {s₀ : Prefork n}
    (hstart : start listenfd pipefd = .ok s₀) (h : Run Step s₀ s) :
    (s.navail = count fun i ↦ s.child_status i = 0) ∧
      (∀ i, s.available = some i → s.collected i = s.share i ∧ s.owed i = 0) ∧
      (s.pc = .dispatch → ∃ i, s.available = some i) ∧
      (s.passed.map Prod.fst = List.range s.passed.length ∧
        s.accepted = s.passed.length + if s.pc = .dispatch then 1 else 0) ∧
      (s.pc = .select → s.served.Nodup ∧ ∀ fd, fd ∈ s.served ↔ fd ∈ s.rset) := by
  have hk := kept_of_run hstart h
  have hround := hk.round
  unfold Round at hround
  refine ⟨hk.tallied.avail, ?_, ?_, ⟨hk.tallied.inOrder, hk.tallied.taken⟩, ?_⟩
  · intro i hi
    have howed := hk.tallied.idle (status_of_available hi)
    have := hk.tallied.reported i
    exact ⟨by omega, howed⟩
  · intro hpc
    rw [hpc] at hround
    exact hk.tallied.exists_available hround.2.2.2.2
  · intro hpc
    rw [hpc] at hround
    exact hround

/-- One child serves one connection and reports. -/
theorem dispatches_to_idle_once : ∃ s : Prefork 1, s.passed = [(0, 0)] ∧ s.pc = .select ∧
    s.navail = (count fun i ↦ s.child_status i = 0) ∧ s.served.Nodup := by
  let acts : List (Act 1) :=
    [.select {3}, .go, .go, .receive 0, .finish 0, .select {4}, .go, .go]
  have hrun : (start 3 (fun _ : Fin 1 ↦ 4) >>= fun s ↦ runActs step s acts).toOption.map
      (fun s ↦ decide (s.passed = [(0, 0)] ∧ s.pc = .select)) = some true := by decide +kernel
  obtain ⟨s₀, s, hstart, hs, hend⟩ := exists_of_runActs hrun
  obtain ⟨hpassed, hpc⟩ := of_decide_eq_true hend
  have h := dispatches_to_idle hstart (run_of_runActs step acts s₀ s hs)
  exact ⟨s, hpassed, hpc, h.1, (h.2.2.2.2 hpc).1⟩

end Unpv13e.Pool.Prefork
