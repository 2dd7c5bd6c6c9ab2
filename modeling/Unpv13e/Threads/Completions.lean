import Unpv13e.Threads.Web02

/-!
# Completions in the polling web client

Library `Threads`. `main` of `src/threads/web02.c` sets `F_CONNECTING` after the thread has been
created, so it may write over the `F_DONE` of a fast thread. What becomes of the flags when it does
not, and what `main` then does with the threads that have terminated.
-/

namespace Unpv13e.Threads
open Unpv13e.Base

variable {n : Nat}

/-- `main` holds the mutex. -/
def PollPc.Holds : PollPc n → Prop
  | .doneTest => True
  | .scan _ => True
  | .join _ => True
  | .setJoined _ => True
  | .decDone _ => True
  | .decConn _ => True
  | .decToRead _ => True
  | .unlock => True
  | _ => False

/-- A thread there holds the mutex. -/
def GetPc.Holds : GetPc → Prop
  | .count => True
  | .unlock => True
  | _ => False

/-- A thread there has counted itself in `ndone`. -/
def GetPc.Counted : GetPc → Bool
  | .unlock => true
  | .finished => true
  | _ => false

/-- Where a thread can be when its file has this flag. -/
def Flag.Allows : Flag → GetPc → Prop
  | .fresh, pc => pc = .absent ∨ pc = .connect
  | .connecting, pc => pc = .connect ∨ pc = .read ∨ pc = .setDone
  | .reading, pc => pc = .read ∨ pc = .setDone
  | .done, pc => pc.HasSetDone
  | .joined, pc => pc = .finished

/-- The flag of a file whose thread has set `F_DONE`. -/
theorem Flag.Allows.of_done {f : Flag} {pc : GetPc} (h : f.Allows pc) (hpc : pc.HasSetDone) :
    f = .done ∨ f = .joined := by
  cases f with
  | done => exact .inl rfl
  | joined => exact .inr rfl
  | fresh => rcases h with rfl | rfl <;> simp [GetPc.HasSetDone] at hpc
  | connecting => rcases h with rfl | rfl | rfl <;> simp [GetPc.HasSetDone] at hpc
  | reading => rcases h with rfl | rfl <;> simp [GetPc.HasSetDone] at hpc

/-- What is still to come off `nlefttoconn`. -/
def PollPc.toConn : PollPc n → Int
  | .setTid _ => 1
  | .connecting _ => 1
  | .incConn _ => 1
  | .decToConn _ => 1
  | _ => 0

/-- What is still to come off `nlefttoread`. -/
def PollPc.toRead : PollPc n → Int
  | .decDone _ => 1
  | .decConn _ => 1
  | .decToRead _ => 1
  | _ => 0

/-- What is still to come off `ndone`. -/
def PollPc.done : PollPc n → Int
  | .decDone _ => 1
  | _ => 0

namespace Web02

/-- What holds wherever `main` is. -/
structure Core (s : Web02 n) : Prop where
  allows : ∀ i, (s.flags i).Allows (s.thread i)
  fresh : ∀ i, s.flags i = .fresh → s.thread i ≠ .absent → s.Marking i
  tids : ∀ i, s.thread i ≠ .absent → s.main ≠ .setTid i → s.tid i = some i
  toConn : s.nlefttoconn = count (fun i ↦ s.thread i = .absent) + s.main.toConn
  toRead : s.nlefttoread = count (fun i ↦ s.flags i ≠ .joined) + s.main.toRead
  done : s.ndone = count (fun i ↦ (s.thread i).Counted = true ∧ s.flags i ≠ .joined) + s.main.done
  main : s.mutex = some .main ↔ s.main.Holds
  thread : ∀ i, s.mutex = some (.thread i) ↔ (s.thread i).Holds

/-- What holds in addition where `main` is. -/
def At (s : Web02 n) : Prop :=
  match s.main with
  | .find j => 0 < s.nlefttoconn ∧ ∀ i : Fin n, i.val < j → s.flags i ≠ .fresh
  | .create i => s.thread i = .absent
  | .setTid i => s.thread i ≠ .absent
  | .connecting i => s.thread i ≠ .absent
  | .join i => s.flags i = .done
  | .setJoined i => s.flags i = .done ∧ s.thread i = .finished
  | .exit => s.nlefttoread ≤ 0
  | .quit => False
  | _ => True

private theorem core_start : (start n).Core where
  allows _ := .inl rfl
  fresh _ _ h := absurd rfl h
  tids _ h := absurd rfl h
  toConn := by simp [start, count, PollPc.toConn]
  toRead := by simp [start, count, PollPc.toRead]
  done := by simp [start, count, PollPc.done, GetPc.Counted]
  main := by simp [start, PollPc.Holds]
  thread _ := by simp [start, GetPc.Holds]

/-! ### Steps of a thread -/

/-- The thread of `i` goes on, with the flag `f`: what `Core` asks of the step. -/
private theorem core_advances {s t : Web02 n} (hc : s.Core) {i : Fin n} {f : Flag} {pc : GetPc}
    (ht : t = { s with
      flags := Function.update s.flags i f, thread := Function.update s.thread i pc
      ndone := t.ndone, mutex := t.mutex })
    (hfit : f.Allows pc) (hfresh : f = .fresh → s.Marking i) (hpc : s.thread i ≠ .absent)
    (hpc' : pc ≠ .absent) (hold : s.flags i ≠ .joined) (hnew : f ≠ .joined)
    (hdone : t.ndone = s.ndone ∧ (s.thread i).Counted = pc.Counted ∨
      t.ndone = s.ndone + 1 ∧ (s.thread i).Counted = false ∧ pc.Counted = true)
    (hmain : t.mutex = some .main ↔ s.mutex = some .main)
    (hthread : ∀ j, t.mutex = some (.thread j) ↔ (Function.update s.thread i pc j).Holds) :
    t.Core := by
  have hflag (j : Fin n) : s.flags j ≠ .joined ↔ Function.update s.flags i f j ≠ .joined := by
    by_cases hj : j = i
    · subst hj
      simp [hold, hnew]
    · simp [hj]
  have habsent (j : Fin n) : s.thread j = .absent ↔ Function.update s.thread i pc j = .absent := by
    by_cases hj : j = i
    · subst hj
      simp [hpc, hpc']
    · simp [hj]
  rw [ht]
  constructor
  · intro j
    dsimp only
    by_cases hji : j = i
    · subst hji
      simpa using hfit
    · simpa [hji] using hc.allows j
  · intro j hj hne
    dsimp only at hj hne
    by_cases hji : j = i
    · subst hji
      exact hfresh (by simpa using hj)
    · exact hc.fresh j (by simpa [hji] using hj) (by simpa [hji] using hne)
  · intro j hj
    exact hc.tids j fun he ↦ hj ((habsent j).mp he)
  · dsimp only
    rw [hc.toConn, count_congr habsent]
  · dsimp only
    rw [hc.toRead, count_congr hflag]
  · dsimp only
    have hother (j : Fin n) (hj : j ≠ i) : ((s.thread j).Counted = true ∧ s.flags j ≠ .joined ↔
        (Function.update s.thread i pc j).Counted = true ∧
          Function.update s.flags i f j ≠ .joined) := by simp [hj]
    rcases hdone with ⟨he, hsame⟩ | ⟨he, hno, hyes⟩
    · rw [he, hc.done]
      congr 2
      apply count_congr
      intro j
      by_cases hj : j = i
      · subst hj
        simp [hsame, hold, hnew]
      · exact hother j hj
    · rw [he, hc.done, count_gain i (by simp [hno]) (by simp [hyes, hnew]) hother]
      omega
  · exact hmain.trans hc.main
  · exact hthread

/-- The thread of `i` goes on, with the flag `f`: what `At` asks of the step. -/
private theorem at_advances {s t : Web02 n} (hat : s.At) {i : Fin n} {f : Flag} {pc : GetPc}
    (ht : t = { s with
      flags := Function.update s.flags i f, thread := Function.update s.thread i pc
      ndone := t.ndone, mutex := t.mutex })
    (hfresh : f = .fresh → s.flags i = .fresh) (hpc : s.thread i ≠ .absent)
    (hpc' : pc ≠ .absent) (hdone : s.flags i = .done → f = .done)
    (hfin : s.thread i ≠ .finished) : t.At := by
  rw [ht]
  unfold At at hat ⊢
  dsimp only
  cases hm : s.main with
  | find k =>
    rw [hm] at hat
    refine ⟨hat.1, fun j hj ↦ ?_⟩
    by_cases hji : j = i
    · subst hji
      have := hat.2 j hj
      simpa using fun hf ↦ this (hfresh hf)
    · simpa [hji] using hat.2 j hj
  | create j =>
    rw [hm] at hat
    have hji : j ≠ i := fun h ↦ hpc (h ▸ hat)
    simpa [hji] using hat
  | setTid j =>
    rw [hm] at hat
    by_cases hji : j = i
    · subst hji
      simpa using hpc'
    · simpa [hji] using hat
  | connecting j =>
    rw [hm] at hat
    by_cases hji : j = i
    · subst hji
      simpa using hpc'
    · simpa [hji] using hat
  | join j =>
    rw [hm] at hat
    by_cases hji : j = i
    · subst hji
      simpa using hdone hat
    · simpa [hji] using hat
  | setJoined j =>
    rw [hm] at hat
    have hji : j ≠ i := fun h ↦ hfin (h ▸ hat.2)
    simpa [hji] using hat
  | _ =>
    rw [hm] at hat
    exact hat

/-- Who holds the mutex, when one thread goes on. -/
private theorem held_advances {s : Web02 n} {i : Fin n} {m : Option (Holder n)} {pc : GetPc}
    (hm : ∀ j, j ≠ i → (m = some (.thread j) ↔ (s.thread j).Holds))
    (hi : m = some (.thread i) ↔ pc.Holds) (j : Fin n) :
    m = some (.thread j) ↔ (Function.update s.thread i pc j).Holds := by
  by_cases hj : j = i
  · subst hj
    simpa using hi
  · simpa [hj] using hm j hj

/-- A step of a thread keeps the invariant. -/
private theorem threadNext_keeps {s t : Web02 n} {i : Fin n} {eof : Bool} (hc : s.Core)
    (hat : s.At) (h : s.threadNext i eof = some t) : t.Core ∧ t.At := by
  have habsent : s.thread i ≠ .absent := by
    intro hp
    simp [threadNext, hp] at h
  have hfin : s.thread i ≠ .finished := by
    intro hp
    simp [threadNext, hp] at h
  have hfit := hc.allows i
  have hjoined : s.flags i ≠ .joined := by
    intro hf
    rw [hf] at hfit
    exact hfin hfit
  have hself := Function.update_eq_self i s.flags
  have hmut := hc.thread i
  have hadvance (f : Flag) (pc : GetPc)
      (ht : t = { s with
        flags := Function.update s.flags i f, thread := Function.update s.thread i pc
        ndone := t.ndone, mutex := t.mutex })
      (hfit : f.Allows pc) (hfresh : f = .fresh → s.flags i = .fresh) (hpc' : pc ≠ .absent)
      (hnew : f ≠ .joined) (hdone : s.flags i = .done → f = .done) (hcount) (hmain) (hthread) :
      t.Core ∧ t.At :=
    ⟨core_advances hc ht hfit (fun hf ↦ hc.fresh i (hfresh hf) habsent) habsent hpc' hjoined hnew
      hcount hmain hthread, at_advances hat ht hfresh habsent hpc' hdone hfin⟩
  have hrest : (∀ j, j ≠ i → (s.mutex = some (.thread j) ↔ (s.thread j).Holds)) :=
    fun j _ ↦ hc.thread j
  cases hp : s.thread i with
  | absent => exact absurd hp habsent
  | finished => exact absurd hp hfin
  | connect =>
    simp only [threadNext, hp, Option.some.injEq] at h
    subst h
    refine hadvance .reading .read rfl (.inl rfl) (by simp) (by simp) (by simp) ?_ (.inl ⟨rfl, ?_⟩)
      Iff.rfl (held_advances hrest (hmut.trans (by simp [hp, GetPc.Holds])))
    · intro hf
      rw [hf, hp] at hfit
      simp [Flag.Allows, GetPc.HasSetDone] at hfit
    · rw [hp]
      rfl
  | read =>
    simp only [threadNext, hp, Option.some.injEq] at h
    split at h
    · subst h
      rw [hp] at hfit
      refine hadvance (s.flags i) .setDone (by rw [hself]; rfl) ?_ id (by simp) hjoined id
        (.inl ⟨rfl, by rw [hp]; rfl⟩) Iff.rfl
        (held_advances hrest (hmut.trans (by simp [hp, GetPc.Holds])))
      cases hf : s.flags i <;> simp [hf, Flag.Allows, GetPc.HasSetDone] at hfit ⊢
    · subst h
      exact ⟨hc, hat⟩
  | setDone =>
    simp only [threadNext, hp, Option.some.injEq] at h
    subst h
    exact hadvance .done .lock rfl (.inl rfl) (by simp) (by simp) (by simp) (fun _ ↦ rfl)
      (.inl ⟨rfl, by rw [hp]; rfl⟩) Iff.rfl
      (held_advances hrest (hmut.trans (by simp [hp, GetPc.Holds])))
  | lock =>
    have hdone : s.flags i = .done :=
      (hfit.of_done (by simp [hp, GetPc.HasSetDone])).resolve_right hjoined
    simp only [threadNext, hp, Option.ite_none_right_eq_some, Option.some.injEq] at h
    obtain ⟨hfree, h⟩ := h
    subst h
    refine hadvance (s.flags i) .count (by rw [hself]; rfl) ?_ id (by simp) hjoined id
      (.inl ⟨rfl, by rw [hp]; rfl⟩) (by simp [hfree])
      (held_advances (fun j hj ↦ ?_) (by simp [GetPc.Holds]))
    · rw [hdone]
      exact .inr (.inl rfl)
    · rw [← hc.thread j, hfree]
      simp [hj.symm]
  | count =>
    have hdone : s.flags i = .done :=
      (hfit.of_done (by simp [hp, GetPc.HasSetDone])).resolve_right hjoined
    simp only [threadNext, hp, Option.some.injEq] at h
    subst h
    refine hadvance (s.flags i) .unlock (by rw [hself]; rfl) ?_ id (by simp) hjoined id
      (.inr ⟨rfl, by rw [hp]; rfl, rfl⟩) Iff.rfl
      (held_advances hrest (hmut.trans (by simp [hp, GetPc.Holds])))
    rw [hdone]
    exact .inr (.inr (.inl rfl))
  | unlock =>
    have hdone : s.flags i = .done :=
      (hfit.of_done (by simp [hp, GetPc.HasSetDone])).resolve_right hjoined
    have hheld : s.mutex = some (.thread i) := hmut.mpr (by simp [hp, GetPc.Holds])
    simp only [threadNext, hp, Option.some.injEq] at h
    subst h
    refine hadvance (s.flags i) .finished (by rw [hself]; rfl) ?_ id (by simp) hjoined id
      (.inl ⟨rfl, by rw [hp]; rfl⟩) (by simp [hheld])
      (held_advances (fun j hj ↦ ?_) (by simp [GetPc.Holds]))
    · rw [hdone]
      exact .inr (.inr (.inr rfl))
    · rw [← hc.thread j, hheld]
      simp [hj.symm]

/-! ### Steps of `main` -/

attribute [local simp] PollPc.toConn PollPc.toRead PollPc.done PollPc.Holds

/-- `main` goes on at `m` and counts: what `Core` asks of the step. -/
private theorem core_moves {s t : Web02 n} (hc : s.Core) {m : PollPc n}
    (ht : t = { s with
      main := m, nconn := t.nconn, nlefttoconn := t.nlefttoconn, nlefttoread := t.nlefttoread
      ndone := t.ndone, mutex := t.mutex })
    (hmain : t.mutex = some .main ↔ m.Holds)
    (hthread : ∀ i, t.mutex = some (.thread i) ↔ s.mutex = some (.thread i) := by simp [*])
    (hold : ∀ i, ¬ s.Marking i := by simp [Marking, *])
    (htoConn : t.nlefttoconn - m.toConn = s.nlefttoconn - s.main.toConn := by simp [*])
    (htoRead : t.nlefttoread - m.toRead = s.nlefttoread - s.main.toRead := by simp [*])
    (hdone : t.ndone - m.done = s.ndone - s.main.done := by simp [*]) : t.Core := by
  rw [ht]
  have h1 := hc.toConn
  have h2 := hc.toRead
  have h3 := hc.done
  constructor
  · exact hc.allows
  · exact fun i hf ha ↦ absurd (hc.fresh i hf ha) (hold i)
  · exact fun i hi _ ↦ hc.tids i hi fun h ↦ hold i (.inl h)
  · dsimp only
    omega
  · dsimp only
    omega
  · dsimp only
    omega
  · exact hmain
  · exact fun i ↦ (hthread i).trans (hc.thread i)

/-- The thread of a file is created. -/
private theorem create_keeps {s : Web02 n} {i : Fin n} (hc : s.Core) (hat : s.At)
    (hm : s.main = .create i) : Core { s.setThread i .connect with main := .setTid i } := by
  unfold At at hat
  rw [hm] at hat
  have hfresh : s.flags i = .fresh := by
    have hfit := hc.allows i
    rw [hat] at hfit
    cases hf : s.flags i <;> simp [hf, Flag.Allows, GetPc.HasSetDone] at hfit ⊢
  have hcounted (j : Fin n) : ((s.thread j).Counted = true ∧ s.flags j ≠ .joined) ↔
      (Function.update s.thread i .connect j).Counted = true ∧ s.flags j ≠ .joined := by
    by_cases hj : j = i
    · subst hj
      simp [hat, GetPc.Counted]
    · simp [hj]
  have hlose : count (fun j ↦ s.thread j = .absent) =
      count (fun j ↦ Function.update s.thread i .connect j = .absent) + 1 :=
    count_lose i hat (by simp) fun j hj ↦ by simp [hj]
  have h1 := hc.toConn
  have h2 := hc.toRead
  have h3 := hc.done
  rw [hm] at h1 h2 h3
  constructor
  · intro j
    by_cases hj : j = i
    · subst hj
      simp [setThread, hfresh, Flag.Allows]
    · simpa [setThread, hj] using hc.allows j
  · intro j hf ha
    by_cases hj : j = i
    · subst hj
      exact .inl rfl
    · have := hc.fresh j hf (by simpa [setThread, hj] using ha)
      simp [Marking, hm] at this
  · intro j ha hne
    by_cases hj : j = i
    · subst hj
      exact absurd rfl hne
    · exact hc.tids j (by simpa [setThread, hj] using ha) (by simp [hm])
  · simp only [PollPc.toConn] at h1 ⊢
    change s.nlefttoconn = count (fun j ↦ Function.update s.thread i .connect j = .absent) + 1
    omega
  · exact h2
  · rw [count_congr hcounted] at h3
    exact h3
  · have := hc.main
    rw [hm] at this
    exact this
  · refine held_advances (fun j _ ↦ hc.thread j) ?_
    have := hc.thread i
    rw [hat] at this
    exact this

/-- `F_CONNECTING` is set in time. -/
private theorem connecting_keeps {s : Web02 n} {i : Fin n} (hc : s.Core) (hat : s.At)
    (hm : s.main = .connecting i) (hok : ¬ (s.thread i).HasSetDone) :
    Core { s.setFlag i .connecting with main := .incConn i } := by
  unfold At at hat
  rw [hm] at hat
  have hfin : s.thread i ≠ .finished := fun he ↦ hok (.inr (.inr (.inr he)))
  have hflag (j : Fin n) :
      s.flags j ≠ .joined ↔ Function.update s.flags i .connecting j ≠ .joined := by
    by_cases hj : j = i
    · subst hj
      have hold : s.flags j ≠ .joined := by
        intro hf
        have hfit := hc.allows j
        rw [hf] at hfit
        exact hfin hfit
      simp [hold]
    · simp [hj]
  have h1 := hc.toConn
  have h2 := hc.toRead
  have h3 := hc.done
  rw [hm] at h1 h2 h3
  constructor
  · intro j
    by_cases hj : j = i
    · subst hj
      have hpc : Flag.connecting.Allows (s.thread j) := by
        have hne := hat
        cases hp : s.thread j <;> simp [hp, Flag.Allows, GetPc.HasSetDone] at hok hne ⊢
      simpa [setFlag] using hpc
    · simpa [setFlag, hj] using hc.allows j
  · intro j hf ha
    by_cases hj : j = i
    · subst hj
      simp [setFlag] at hf
    · have := hc.fresh j (by simpa [setFlag, hj] using hf) ha
      simp [Marking, hm, Ne.symm hj] at this
  · intro j ha _
    exact hc.tids j ha (by simp [hm])
  · exact h1
  · rw [count_congr hflag] at h2
    exact h2
  · rw [count_congr fun j ↦ and_congr_right fun _ ↦ hflag j] at h3
    exact h3
  · have := hc.main
    rw [hm] at this
    exact this
  · exact hc.thread

/-- `F_JOINED` is set. -/
private theorem setJoined_keeps {s : Web02 n} {i : Fin n} (hc : s.Core) (hat : s.At)
    (hm : s.main = .setJoined i) : Core { s.setFlag i .joined with main := .decDone i } := by
  unfold At at hat
  rw [hm] at hat
  obtain ⟨hflag, hfin⟩ := hat
  have hread : count (fun j ↦ s.flags j ≠ .joined) =
      count (fun j ↦ Function.update s.flags i .joined j ≠ .joined) + 1 :=
    count_lose i (by simp [hflag]) (by simp) fun j hj ↦ by simp [hj]
  have hdone : count (fun j ↦ (s.thread j).Counted = true ∧ s.flags j ≠ .joined) =
      count (fun j ↦ (s.thread j).Counted = true ∧
        Function.update s.flags i .joined j ≠ .joined) + 1 :=
    count_lose i (by simp [hfin, hflag, GetPc.Counted]) (by simp) fun j hj ↦ by simp [hj]
  have h1 := hc.toConn
  have h2 := hc.toRead
  have h3 := hc.done
  rw [hm] at h1 h2 h3
  constructor
  · intro j
    by_cases hj : j = i
    · subst hj
      simpa [setFlag, Flag.Allows] using hfin
    · simpa [setFlag, hj] using hc.allows j
  · intro j hf ha
    by_cases hj : j = i
    · subst hj
      simp [setFlag] at hf
    · have := hc.fresh j (by simpa [setFlag, hj] using hf) ha
      simp [Marking, hm] at this
  · intro j ha _
    exact hc.tids j ha (by simp [hm])
  · exact h1
  · simp only [PollPc.toRead] at h2 ⊢
    change s.nlefttoread = count (fun j ↦ Function.update s.flags i .joined j ≠ .joined) + 1
    omega
  · simp only [PollPc.done] at h3 ⊢
    change s.ndone = count (fun j ↦ (s.thread j).Counted = true ∧
      Function.update s.flags i .joined j ≠ .joined) + 1
    omega
  · have := hc.main
    rw [hm] at this
    exact this
  · exact hc.thread

/-- A step of `main` keeps the invariant, when it sets no `F_CONNECTING` too late. -/
private theorem mainNext_keeps {s t : Web02 n} {maxnconn : Int} (hc : s.Core) (hat : s.At)
    (hok : s.MarksInTime .main) (h : s.mainNext maxnconn = some t) : t.Core ∧ t.At := by
  have hat' := hat
  have hheld := hc.main
  unfold At at hat
  cases hm : s.main with
  | loop =>
    rw [hm] at hheld
    simp only [mainNext, hm, Option.some.injEq] at h
    subst h
    split
    · exact ⟨core_moves hc rfl hheld, trivial⟩
    · next hleft => exact ⟨core_moves hc rfl hheld, not_lt.mp hleft⟩
  | connTest =>
    rw [hm] at hheld
    simp only [mainNext, hm, Option.some.injEq] at h
    subst h
    split
    · next hmore => exact ⟨core_moves hc rfl hheld, hmore.2, by simp⟩
    · exact ⟨core_moves hc rfl hheld, trivial⟩
  | find j =>
    rw [hm] at hheld hat
    obtain ⟨hleft, hbefore⟩ := hat
    simp only [mainNext, hm] at h
    split at h
    · next hj =>
      cases h
      split
      · next hfresh =>
        refine ⟨core_moves hc rfl hheld, ?_⟩
        have hnot : ¬ s.Marking ⟨j, hj⟩ := by simp [Marking, hm]
        exact not_not.mp fun ha ↦ hnot (hc.fresh _ hfresh ha)
      · next hfresh =>
        refine ⟨core_moves hc rfl hheld, hleft, fun i hi ↦ ?_⟩
        rcases Nat.lt_succ_iff_lt_or_eq.mp hi with hlt | rfl
        · exact hbefore i hlt
        · exact hfresh
    · next hj =>
      -- a file without a thread was left to be found
      have := hc.toConn
      simp only [hm, PollPc.toConn, Int.add_zero] at this
      obtain ⟨i, hi⟩ := count_pos.mp (show 0 < count fun i ↦ s.thread i = .absent by omega)
      have hfit := hc.allows i
      have hnot := hbefore i (by omega)
      rw [hi] at hfit
      cases hf : s.flags i <;> simp [hf, Flag.Allows, GetPc.HasSetDone] at hfit hnot
  | create i =>
    simp only [mainNext, hm, Option.some.injEq] at h
    subst h
    exact ⟨create_keeps hc hat' hm, by simp [At, setThread]⟩
  | setTid i =>
    rw [hm] at hheld hat
    simp only [mainNext, hm, Option.some.injEq] at h
    subst h
    refine ⟨⟨hc.allows, fun j hf ha ↦ ?_, fun j hj _ ↦ ?_, ?_, ?_, ?_, hheld, hc.thread⟩, hat⟩
    · have := hc.fresh j hf ha
      simp only [Marking, hm, PollPc.setTid.injEq, reduceCtorEq, or_false] at this
      exact .inr (by rw [this])
    · by_cases hji : j = i
      · subst hji
        simp
      · simpa [hji] using hc.tids j hj (by simpa [hm] using Ne.symm hji)
    · simpa [hm] using hc.toConn
    · simpa [hm] using hc.toRead
    · simpa [hm] using hc.done
  | connecting i =>
    simp only [mainNext, hm, Option.some.injEq] at h
    subst h
    exact ⟨connecting_keeps hc hat' hm (hok i hm), trivial⟩
  | incConn i =>
    rw [hm] at hheld
    simp only [mainNext, hm, Option.some.injEq] at h
    subst h
    exact ⟨core_moves hc rfl hheld, trivial⟩
  | decToConn i =>
    rw [hm] at hheld
    simp only [mainNext, hm, Option.some.injEq] at h
    subst h
    exact ⟨core_moves hc rfl hheld, trivial⟩
  | lock =>
    simp only [mainNext, hm, Option.ite_none_right_eq_some, Option.some.injEq] at h
    obtain ⟨hfree, h⟩ := h
    subst h
    exact ⟨core_moves hc rfl (by simp), trivial⟩
  | doneTest =>
    rw [hm] at hheld
    simp only [mainNext, hm, Option.some.injEq] at h
    subst h
    split
    · exact ⟨core_moves hc rfl hheld, trivial⟩
    · exact ⟨core_moves hc rfl hheld, trivial⟩
  | scan j =>
    rw [hm] at hheld
    simp only [mainNext, hm] at h
    split at h
    · next hj =>
      cases h
      split
      · next hdone => exact ⟨core_moves hc rfl hheld, hdone⟩
      · exact ⟨core_moves hc rfl hheld, trivial⟩
    · cases h
      exact ⟨core_moves hc rfl hheld, trivial⟩
  | join i =>
    rw [hm] at hheld hat
    have hset : (s.thread i).HasSetDone := by
      have hfit := hc.allows i
      rw [hat] at hfit
      exact hfit
    have htid : s.tid i = some i := by
      refine hc.tids i (fun ha ↦ ?_) (by simp [hm])
      rw [ha] at hset
      revert hset
      decide
    simp only [mainNext, hm, htid, Option.ite_none_right_eq_some, if_true, Option.some.injEq] at h
    obtain ⟨hfin, h⟩ := h
    subst h
    exact ⟨core_moves hc rfl hheld, hat, hfin⟩
  | setJoined i =>
    simp only [mainNext, hm, Option.some.injEq] at h
    subst h
    exact ⟨setJoined_keeps hc hat' hm, trivial⟩
  | decDone i =>
    rw [hm] at hheld
    simp only [mainNext, hm, Option.some.injEq] at h
    subst h
    exact ⟨core_moves hc rfl hheld, trivial⟩
  | decConn i =>
    rw [hm] at hheld
    simp only [mainNext, hm, Option.some.injEq] at h
    subst h
    exact ⟨core_moves hc rfl hheld, trivial⟩
  | decToRead i =>
    rw [hm] at hheld
    simp only [mainNext, hm, Option.some.injEq] at h
    subst h
    exact ⟨core_moves hc rfl hheld, trivial⟩
  | unlock =>
    rw [hm] at hheld
    have hmine : s.mutex = some .main := hheld.mpr trivial
    simp only [mainNext, hm, Option.some.injEq] at h
    subst h
    exact ⟨core_moves hc rfl (by simp), trivial⟩
  | exit => simp [mainNext, hm] at h
  | quit => simp [mainNext, hm] at h

/-- Every step keeps the invariant. -/
private theorem step_keeps {maxnconn : Int} {s t : Web02 n} {a : Web02Act n}
    (hi : s.Core ∧ s.At) (hok : s.MarksInTime a) (h : s.Step maxnconn a t) : t.Core ∧ t.At := by
  obtain ⟨hc, hat⟩ := hi
  cases a with
  | main => exact mainNext_keeps hc hat hok h
  | thread i eof => exact threadNext_keeps hc hat h

/-! ### `main` alone -/

/-- Every thread that has set `F_DONE` has terminated, and `main` is about to write over no flag. -/
structure Quiet (s : Web02 n) : Prop where
  core : s.Core
  at_ : s.At
  ended : ∀ i, (s.thread i).HasSetDone → s.thread i = .finished
  inTime : ∀ i, s.Marking i → ¬ (s.thread i).HasSetDone

variable {maxnconn : Int} {s t : Web02 n}

/-- The flag of a thread that has terminated. -/
private theorem Quiet.flag (h : s.Quiet) {i : Fin n} (hi : s.thread i = .finished) :
    s.flags i = .done ∨ s.flags i = .joined :=
  (h.core.allows i).of_done (.inr (.inr (.inr hi)))

/-- A file with `F_DONE` has a thread that has terminated. -/
private theorem Quiet.finished (h : s.Quiet) {i : Fin n} (hi : s.flags i = .done) :
    s.thread i = .finished := by
  have hfit := h.core.allows i
  rw [hi] at hfit
  exact h.ended i hfit

/-- A step of `main` creates a thread, notes its number, or leaves the threads and marks no file. -/
private theorem mainNext_cases (h : s.mainNext maxnconn = some t) :
    (∃ i, s.main = .create i ∧ t = { s.setThread i .connect with main := .setTid i }) ∨
      (∃ i, s.main = .setTid i ∧ t.main = .connecting i ∧ t.thread = s.thread) ∨
      t.thread = s.thread ∧ ∀ i, ¬ t.Marking i := by
  have hstays {m : PollPc n} (hthread : t.thread = s.thread) (hmain : t.main = m)
      (hno : ∀ i, m ≠ .setTid i ∧ m ≠ .connecting i) : t.thread = s.thread ∧ ∀ i, ¬ t.Marking i := by
    refine ⟨hthread, fun i hi ↦ ?_⟩
    unfold Marking at hi
    rw [hmain] at hi
    exact hi.elim (hno i).1 (hno i).2
  cases hm : s.main with
  | create i =>
    simp only [mainNext, hm, Option.some.injEq] at h
    exact .inl ⟨i, rfl, h.symm⟩
  | setTid i =>
    simp only [mainNext, hm, Option.some.injEq] at h
    subst h
    exact .inr (.inl ⟨i, rfl, rfl, rfl⟩)
  | join i =>
    simp only [mainNext, hm] at h
    split at h
    · cases h
    · obtain ⟨-, h⟩ := Option.ite_none_right_eq_some.mp h
      cases h
      refine .inr (.inr (hstays rfl rfl fun j ↦ ?_))
      split <;> simp
  | lock =>
    obtain ⟨-, h⟩ := Option.ite_none_right_eq_some.mp (by simpa only [mainNext, hm] using h)
    cases h
    exact .inr (.inr (hstays rfl rfl fun j ↦ by simp))
  | find i =>
    simp only [mainNext, hm] at h
    split at h <;> cases h
    · refine .inr (.inr (hstays rfl rfl fun j ↦ ?_))
      split <;> simp
    · exact .inr (.inr (hstays rfl rfl fun j ↦ by simp))
  | scan i =>
    simp only [mainNext, hm] at h
    split at h <;> cases h
    · refine .inr (.inr (hstays rfl rfl fun j ↦ ?_))
      split <;> simp
    · exact .inr (.inr (hstays rfl rfl fun j ↦ by simp))
  | exit => simp [mainNext, hm] at h
  | quit => simp [mainNext, hm] at h
  | _ =>
    simp only [mainNext, hm, Option.some.injEq] at h
    subst h
    refine .inr (.inr (hstays rfl rfl fun j ↦ ?_))
    first
      | split <;> simp
      | simp

/-- A thread that is created has not been there. -/
private theorem Quiet.absent (hq : s.Quiet) {i : Fin n} (hm : s.main = .create i) :
    s.thread i = .absent := by
  have hat := hq.at_
  unfold At at hat
  rw [hm] at hat
  exact hat

/-- A terminated thread is not created again. -/
private theorem Quiet.finished_stays (hq : s.Quiet) (h : s.mainNext maxnconn = some t) (i : Fin n)
    (hi : s.thread i = .finished) : t.thread i = .finished := by
  rcases mainNext_cases h with ⟨j, hm, rfl⟩ | ⟨j, -, -, ht⟩ | ⟨ht, -⟩
  · have hij : i ≠ j := by
      rintro rfl
      rw [hq.absent hm] at hi
      cases hi
    exact (Function.update_of_ne hij _ _).trans hi
  · rw [ht]
    exact hi
  · rw [ht]
    exact hi

/-- A step of `main` keeps the threads quiet. -/
private theorem Quiet.step (hq : s.Quiet) (h : s.mainNext maxnconn = some t) : t.Quiet := by
  obtain ⟨hcore, hat⟩ := mainNext_keeps hq.core hq.at_ (fun i hm ↦ hq.inTime i (.inr hm)) h
  have hnew : ¬ GetPc.connect.HasSetDone := by decide
  rcases mainNext_cases h with ⟨j, hm, rfl⟩ | ⟨j, hm, ht', ht⟩ | ⟨ht, hmark⟩
  · refine ⟨hcore, hat, fun i hi ↦ ?_, fun i hi ↦ ?_⟩
    · by_cases hij : i = j
      · subst hij
        have hself : Function.update s.thread i .connect i = .connect := Function.update_self _ _ _
        exact absurd (hself ▸ hi) hnew
      · have hsame := Function.update_of_ne hij GetPc.connect s.thread
        exact hsame.trans (hq.ended i (hsame ▸ hi))
    · obtain rfl : j = i := by simpa [Marking] using hi
      have hself : Function.update s.thread j .connect j = .connect := Function.update_self _ _ _
      intro hset
      exact hnew (hself ▸ hset)
  · refine ⟨hcore, hat, fun i hi ↦ ?_, fun i hi ↦ ?_⟩
    · rw [ht] at hi ⊢
      exact hq.ended i hi
    · obtain rfl : j = i := by simpa [Marking, ht'] using hi
      rw [ht]
      exact hq.inTime j (.inl hm)
  · refine ⟨hcore, hat, fun i hi ↦ ?_, fun i hi ↦ absurd hi (hmark i)⟩
    rw [ht] at hi ⊢
    exact hq.ended i hi

variable (maxnconn) in
/-- `main` goes on when no thread is in its way. -/
private theorem Quiet.goes_on (hq : s.Quiet) (hpc : s.main ≠ .exit) :
    ∃ t, s.mainNext maxnconn = some t := by
  have hat := hq.at_
  unfold At at hat
  cases hm : s.main with
  | exit => exact absurd hm hpc
  | quit =>
    rw [hm] at hat
    exact hat.elim
  | lock =>
    have hfree : s.mutex = none := by
      cases hmutex : s.mutex with
      | none => rfl
      | some holder =>
        cases holder with
        | main =>
          have := hq.core.main.mp hmutex
          rw [hm] at this
          exact this.elim
        | thread i =>
          have hholds := (hq.core.thread i).mp hmutex
          have hended := hq.ended i
          cases hp : s.thread i <;> simp [hp, GetPc.Holds, GetPc.HasSetDone] at hholds hended
    exact ⟨_, by simp only [mainNext, hm, if_pos hfree]; rfl⟩
  | join i =>
    rw [hm] at hat
    have hfin := hq.finished hat
    have htid : s.tid i = some i := hq.core.tids i (by simp [hfin]) (by simp [hm])
    exact ⟨_, by simp only [mainNext, hm, htid, if_pos hfin]; rfl⟩
  | find i =>
    by_cases hi : i < n
    · exact ⟨_, by simp only [mainNext, hm, dif_pos hi]; rfl⟩
    · exact ⟨_, by simp only [mainNext, hm, dif_neg hi]; rfl⟩
  | scan i =>
    by_cases hi : i < n
    · exact ⟨_, by simp only [mainNext, hm, dif_pos hi]; rfl⟩
    · exact ⟨_, by simp only [mainNext, hm, dif_neg hi]; rfl⟩
  | _ => exact ⟨_, by simp only [mainNext, hm]; rfl⟩

/-- How far `main` is from the end of its turn, when it creates no thread. -/
private def weight : PollPc n → Nat
  | .connTest => 7 * n + 10
  | .find i => 6 * n + 9 + (n - i)
  | .create _ => 6 * n + 8
  | .setTid _ => 6 * n + 7
  | .connecting _ => 6 * n + 6
  | .incConn _ => 6 * n + 5
  | .decToConn _ => 6 * n + 4
  | .lock => 6 * n + 3
  | .doneTest => 6 * n + 2
  | .scan i => 6 * (n - i) + 1
  | .join i => 6 * (n - i)
  | .setJoined i => 6 * (n - i) - 1
  | .decDone i => 6 * (n - i) - 2
  | .decConn i => 6 * (n - i) - 3
  | .decToRead i => 6 * (n - i) - 4
  | _ => 0

/-- How far `main` is from the end of its turn. -/
private def rank (s : Web02 n) : Nat ×ₗ Nat := toLex (s.nlefttoconn.toNat, weight s.main)

/-- A step of a turn brings its end nearer. -/
private theorem Quiet.rank_step (hq : s.Quiet) (h : s.mainNext maxnconn = some t)
    (hpc : s.main ≠ .loop ∧ s.main ≠ .unlock) :
    t.rank < s.rank ∧ t.main ≠ .loop ∧ t.main ≠ .exit := by
  have hnearer {m : PollPc n} (hmain : t.main = m) (hconn : t.nlefttoconn = s.nlefttoconn)
      (hm : weight m < weight s.main) (hne : m ≠ .loop ∧ m ≠ .exit) :
      t.rank < s.rank ∧ t.main ≠ .loop ∧ t.main ≠ .exit := by
    subst hmain
    refine ⟨?_, hne⟩
    rw [rank, rank, hconn]
    exact Prod.Lex.toLex_lt_toLex.mpr (.inr ⟨rfl, hm⟩)
  cases hm : s.main with
  | loop => exact absurd hm hpc.1
  | unlock => exact absurd hm hpc.2
  | exit => simp [mainNext, hm] at h
  | quit => simp [mainNext, hm] at h
  | connTest =>
    simp only [mainNext, hm, Option.some.injEq] at h
    subst h
    by_cases hc : s.nconn < maxnconn ∧ 0 < s.nlefttoconn
    · exact hnearer (if_pos hc) rfl (by rw [hm]; simp only [weight]; omega) (by simp)
    · exact hnearer (if_neg hc) rfl (by rw [hm]; simp only [weight]; omega) (by simp)
  | find i =>
    simp only [mainNext, hm] at h
    split at h
    · next hi =>
      cases h
      by_cases hc : s.flags ⟨i, hi⟩ = .fresh
      · exact hnearer (if_pos hc) rfl (by rw [hm]; simp only [weight]; omega) (by simp)
      · exact hnearer (if_neg hc) rfl (by rw [hm]; simp only [weight]; omega) (by simp)
    · cases h
      exact hnearer rfl rfl (by rw [hm]; simp only [weight]; omega) (by simp)
  | decToConn i =>
    have hconn := hq.core.toConn
    simp only [hm, PollPc.toConn] at hconn
    simp only [mainNext, hm, Option.some.injEq] at h
    subst h
    refine ⟨Prod.Lex.toLex_lt_toLex.mpr (.inl ?_), by simp, by simp⟩
    dsimp only
    omega
  | lock =>
    obtain ⟨-, h⟩ := Option.ite_none_right_eq_some.mp (by simpa only [mainNext, hm] using h)
    cases h
    exact hnearer rfl rfl (by rw [hm]; simp only [weight]; omega) (by simp)
  | doneTest =>
    simp only [mainNext, hm, Option.some.injEq] at h
    subst h
    by_cases hc : 0 < s.ndone
    · exact hnearer (if_pos hc) rfl (by rw [hm]; simp only [weight]; omega) (by simp)
    · exact hnearer (if_neg hc) rfl (by rw [hm]; simp only [weight]; omega) (by simp)
  | scan i =>
    simp only [mainNext, hm] at h
    split at h
    · next hi =>
      cases h
      by_cases hc : s.flags ⟨i, hi⟩ = .done
      · exact hnearer (if_pos hc) rfl (by rw [hm]; simp only [weight]; omega) (by simp)
      · exact hnearer (if_neg hc) rfl (by rw [hm]; simp only [weight]; omega) (by simp)
    · cases h
      exact hnearer rfl rfl (by rw [hm]; simp only [weight]; omega) (by simp)
  | join i =>
    have hi := i.isLt
    simp only [mainNext, hm] at h
    split at h
    · cases h
    · next j _ =>
      obtain ⟨-, h⟩ := Option.ite_none_right_eq_some.mp h
      cases h
      by_cases heq : i = j
      · subst heq
        exact hnearer (if_pos rfl) rfl (by rw [hm]; simp only [weight]; omega) (by simp)
      · exact hnearer (if_neg heq) rfl (by rw [hm]; simp only [weight]; omega) (by simp)
  | create i =>
    simp only [mainNext, hm, Option.some.injEq] at h
    subst h
    exact hnearer rfl rfl (by rw [hm]; simp only [weight]; omega) (by simp)
  | setTid i =>
    simp only [mainNext, hm, Option.some.injEq] at h
    subst h
    exact hnearer rfl rfl (by rw [hm]; simp only [weight]; omega) (by simp)
  | connecting i =>
    simp only [mainNext, hm, Option.some.injEq] at h
    subst h
    exact hnearer rfl rfl (by rw [hm]; simp only [weight]; omega) (by simp)
  | incConn i =>
    simp only [mainNext, hm, Option.some.injEq] at h
    subst h
    exact hnearer rfl rfl (by rw [hm]; simp only [weight]; omega) (by simp)
  | _ i =>
    have hi := i.isLt
    simp only [mainNext, hm, Option.some.injEq] at h
    subst h
    exact hnearer rfl rfl (by rw [hm]; simp only [weight]; omega) (by simp)

/-- Steps of `main` with no step of a thread between them. -/
def Alone (maxnconn : Int) : Web02 n → Web02 n → Prop :=
  RunWith (Step maxnconn) fun _ a ↦ a = .main

variable (maxnconn) in
/-- `main` comes to the end of its turn, with whatever its steps preserve. -/
private theorem Quiet.comes_to_unlock {I : Web02 n → Prop}
    (hI : ∀ s t, s.Quiet → I s → s.mainNext maxnconn = some t → I t) (hq : s.Quiet) (hs : I s)
    (hpc : s.main ≠ .loop ∧ s.main ≠ .exit) :
    ∃ t, Alone maxnconn s t ∧ t.Quiet ∧ I t ∧ t.main = .unlock := by
  induction hr : s.rank using WellFoundedLT.induction generalizing s with
  | ind r ih =>
    by_cases hend : s.main = .unlock
    · exact ⟨s, RunWith.refl, hq, hs, hend⟩
    · obtain ⟨u, hu⟩ := hq.goes_on maxnconn hpc.2
      obtain ⟨hlt, hu'⟩ := hq.rank_step hu ⟨hpc.1, hend⟩
      obtain ⟨t, hrun, ht⟩ := ih _ (hr ▸ hlt) (hq.step hu) (hI s u hq hs hu) hu' rfl
      exact ⟨t, RunWith.cons (a := .main) rfl hu hrun, ht⟩

/-- The terminated threads of files before `k` have been joined. -/
def SweptTo (s : Web02 n) (k : Nat) : Prop :=
  ∀ i : Fin n, i.val < k → s.thread i = .finished → s.flags i = .joined

/-- The loop over the files has left no terminated thread behind. -/
def Swept (s : Web02 n) : Prop :=
  match s.main with
  | .scan k => s.SweptTo k
  | .join i => s.SweptTo i
  | .setJoined i => s.SweptTo i
  | .decDone i => s.SweptTo (i + 1)
  | .decConn i => s.SweptTo (i + 1)
  | .decToRead i => s.SweptTo (i + 1)
  | .unlock => s.SweptTo n
  | _ => True

/-- `main` leaves no terminated thread behind. -/
private theorem Quiet.swept (hq : s.Quiet) (hs : s.Swept) (h : s.mainNext maxnconn = some t) :
    t.Swept := by
  unfold Swept at hs
  cases hm : s.main with
  | doneTest =>
    simp only [mainNext, hm, Option.some.injEq] at h
    subst h
    split
    · exact fun i hi ↦ absurd hi (Nat.not_lt_zero _)
    · next hzero =>
      -- with `ndone` zero every terminated thread has been joined
      have hdone := hq.core.done
      simp only [hm, PollPc.done] at hdone
      have hnone := count_eq_zero.mp (show count (fun i ↦ (s.thread i).Counted = true ∧
        s.flags i ≠ .joined) = 0 by omega)
      intro i _ hi
      have hcounted : (s.thread i).Counted = true := by
        rw [hi]
        rfl
      exact not_not.mp fun hne ↦ hnone i ⟨hcounted, hne⟩
  | scan k =>
    rw [hm] at hs
    simp only [mainNext, hm] at h
    split at h
    · next hk =>
      cases h
      split
      · exact hs
      · next hnot =>
        intro i hi hfin
        rcases Nat.lt_succ_iff_lt_or_eq.mp hi with hlt | heq
        · exact hs i hlt hfin
        · obtain rfl : i = ⟨k, hk⟩ := Fin.ext heq
          exact (hq.flag hfin).resolve_left hnot
    · cases h
      exact fun i _ hfin ↦ hs i (by omega) hfin
  | join i =>
    rw [hm] at hs
    simp only [mainNext, hm] at h
    split at h
    · cases h
    · obtain ⟨-, h⟩ := Option.ite_none_right_eq_some.mp h
      cases h
      split
      · next heq =>
        subst heq
        exact hs
      · trivial
  | setJoined i =>
    rw [hm] at hs
    simp only [mainNext, hm, Option.some.injEq] at h
    subst h
    intro j hj hfin
    by_cases hji : j = i
    · subst hji
      exact Function.update_self _ _ _
    · have hlt : j.val < i.val := by
        have := Fin.val_ne_of_ne hji
        omega
      exact (Function.update_of_ne hji _ _).trans (hs j hlt hfin)
  | decDone i =>
    rw [hm] at hs
    simp only [mainNext, hm, Option.some.injEq] at h
    subst h
    exact hs
  | decConn i =>
    rw [hm] at hs
    simp only [mainNext, hm, Option.some.injEq] at h
    subst h
    exact hs
  | decToRead i =>
    rw [hm] at hs
    simp only [mainNext, hm, Option.some.injEq] at h
    subst h
    exact hs
  | find i =>
    simp only [mainNext, hm] at h
    split at h <;> cases h
    · split <;> trivial
    · trivial
  | lock =>
    obtain ⟨-, h⟩ := Option.ite_none_right_eq_some.mp (by simpa only [mainNext, hm] using h)
    cases h
    trivial
  | exit => simp [mainNext, hm] at h
  | quit => simp [mainNext, hm] at h
  | _ =>
    simp only [mainNext, hm, Option.some.injEq] at h
    subst h
    first
      | trivial
      | split <;> trivial

/-- From `u` on `main` alone joins the threads that have terminated in `s`, and comes to its end if
those are all. -/
private def Collects (maxnconn : Int) (s u : Web02 n) : Prop :=
  ∃ t, Alone maxnconn u t ∧ t.ndone = 0 ∧ (∀ i, s.thread i = .finished → t.flags i = .joined) ∧
    ((∀ i, s.thread i = .finished) → t.main = .exit)

/-- A step of `main` first. -/
private theorem Collects.after {u v : Web02 n} (h : Collects maxnconn s v)
    (hstep : u.mainNext maxnconn = some v) : Collects maxnconn s u := by
  obtain ⟨t, hrun, ht⟩ := h
  exact ⟨t, RunWith.cons (a := .main) rfl hstep hrun, ht⟩

/-- With every thread that is counted joined, nothing is left in `ndone`. -/
private theorem Quiet.ndone_zero (hq : s.Quiet) (hm : s.main.done = 0)
    (hs : ∀ i, s.thread i = .finished → s.flags i = .joined) : s.ndone = 0 := by
  have hcount : count (fun i ↦ (s.thread i).Counted = true ∧ s.flags i ≠ .joined) = 0 := by
    refine count_eq_zero.mpr ?_
    rintro i ⟨hcounted, hne⟩
    have hset : (s.thread i).HasSetDone := by
      cases hp : s.thread i <;> simp [hp, GetPc.Counted, GetPc.HasSetDone] at hcounted ⊢
    exact hne (hs i (hq.ended i hset))
  have := hq.core.done
  rw [hm, hcount] at this
  exact this

/-- At its end `main` has joined all threads. -/
private theorem Quiet.collects_exit (hq : s.Quiet) (hm : s.main = .exit) :
    ∀ i, s.flags i = .joined := by
  have hat := hq.at_
  have hread := hq.core.toRead
  unfold At at hat
  rw [hm] at hat
  simp only [hm, PollPc.toRead, Int.add_zero] at hread
  have hleft : s.nlefttoread ≤ 0 := hat
  have hcount := count_eq_zero.mp (show count (fun i ↦ s.flags i ≠ .joined) = 0 by omega)
  exact fun i ↦ not_not.mp (hcount i)

variable (maxnconn) in
/-- At the end of a turn that has left nothing behind. -/
private theorem Quiet.collects_unlock (hq : s.Quiet) (hs : s.SweptTo n) (hm : s.main = .unlock) :
    Collects maxnconn s s := by
  have hjoined (i : Fin n) (hi : s.thread i = .finished) : s.flags i = .joined := hs i i.isLt hi
  have hdone : s.ndone = 0 := hq.ndone_zero (by rw [hm]; rfl) hjoined
  by_cases hall : ∀ i, s.thread i = .finished
  · have hread : s.nlefttoread = 0 := by
      have hcount : count (fun i ↦ s.flags i ≠ .joined) = 0 :=
        count_eq_zero.mpr fun i hne ↦ hne (hjoined i (hall i))
      have := hq.core.toRead
      simp only [hm, PollPc.toRead, hcount] at this
      exact this
    have hunlock : s.mainNext maxnconn = some { s with mutex := none, main := .loop } := by
      simp only [mainNext, hm]
    have hloop : mainNext maxnconn { s with mutex := none, main := .loop } =
        some { s with mutex := none, main := .exit } := by
      simp [mainNext, hread]
    have hexit : Collects maxnconn s { s with mutex := none, main := .exit } :=
      ⟨_, RunWith.refl, hdone, hjoined, fun _ ↦ rfl⟩
    exact (hexit.after hloop).after hunlock
  · exact ⟨s, RunWith.refl, hdone, hjoined, fun h ↦ absurd h hall⟩

/-- What `u` collects of its own it collects of an earlier state. -/
private theorem Collects.of_earlier {u : Web02 n} (h : Collects maxnconn u u)
    (hfin : ∀ i, s.thread i = .finished → u.thread i = .finished) : Collects maxnconn s u := by
  obtain ⟨t, hrun, hdone, hjoined, hexit⟩ := h
  exact ⟨t, hrun, hdone, fun i hi ↦ hjoined i (hfin i hi), fun hall ↦ hexit fun i ↦ hfin i (hall i)⟩

/-- In a turn that has left nothing behind so far. -/
private theorem Quiet.collects_turn (hq : s.Quiet) (hpc : s.main ≠ .loop ∧ s.main ≠ .exit)
    (hs : s.Swept) : Collects maxnconn s s := by
  obtain ⟨u, hrun, hqu, ⟨hswept, hfin⟩, hm⟩ := hq.comes_to_unlock maxnconn
    (I := fun u ↦ u.Swept ∧ ∀ i, s.thread i = .finished → u.thread i = .finished)
    (fun u v hqu hu hv ↦ ⟨hqu.swept hu.1 hv, fun i hi ↦ hqu.finished_stays hv i (hu.2 i hi)⟩)
    ⟨hs, fun i hi ↦ hi⟩ hpc
  have hswept' : u.SweptTo n := by
    unfold Swept at hswept
    rw [hm] at hswept
    exact hswept
  obtain ⟨t, hrun', ht⟩ := (hqu.collects_unlock maxnconn hswept' hm).of_earlier hfin
  exact ⟨t, hrun.trans hrun', ht⟩

variable (maxnconn) in
/-- From the head of the loop. -/
private theorem Quiet.collects_loop (hq : s.Quiet) (hm : s.main = .loop) :
    Collects maxnconn s s := by
  by_cases hleft : 0 < s.nlefttoread
  · have hstep : s.mainNext maxnconn = some { s with main := .connTest } := by
      simp only [mainNext, hm, if_pos hleft]
    exact Collects.after ((hq.step hstep).collects_turn ⟨by simp, by simp⟩ trivial) hstep
  · have hstep : s.mainNext maxnconn = some { s with main := .exit } := by
      simp only [mainNext, hm, if_neg hleft]
    have hq' := hq.step hstep
    have hjoined := hq'.collects_exit rfl
    have hexit : Collects maxnconn s { s with main := .exit } :=
      ⟨_, RunWith.refl, hq'.ndone_zero rfl fun i _ ↦ hjoined i, fun i _ ↦ hjoined i, fun _ ↦ rfl⟩
    exact hexit.after hstep

/-- Quiet threads are collected, whatever the loop over the files has passed. -/
private theorem Quiet.collects (hq : s.Quiet) : Collects maxnconn s s := by
  by_cases hexit : s.main = .exit
  · have hjoined := hq.collects_exit hexit
    exact ⟨s, RunWith.refl, hq.ndone_zero (by rw [hexit]; rfl) fun i _ ↦ hjoined i,
      fun i _ ↦ hjoined i, fun _ ↦ hexit⟩
  · by_cases hloop : s.main = .loop
    · exact hq.collects_loop maxnconn hloop
    · -- this turn may have passed a file too early, the next one does not
      obtain ⟨u, hrun, hqu, hfin, hm⟩ := hq.comes_to_unlock maxnconn
        (I := fun u ↦ ∀ i, s.thread i = .finished → u.thread i = .finished)
        (fun u v hqu hu hv i hi ↦ hqu.finished_stays hv i (hu i hi)) (fun i hi ↦ hi) ⟨hloop, hexit⟩
      have hunlock : u.mainNext maxnconn = some { u with mutex := none, main := .loop } := by
        simp only [mainNext, hm]
      have hnext := ((hqu.step hunlock).collects_loop maxnconn rfl).of_earlier (s := s)
        fun i hi ↦ hqu.finished_stays hunlock i (hfin i hi)
      obtain ⟨t, hrun', ht⟩ := hnext.after hunlock
      exact ⟨t, hrun.trans hrun', ht⟩

/-- In every run in which `main` sets no `F_CONNECTING` for a file whose thread has set `F_DONE`, such
a file keeps `F_DONE` until `main` has joined the thread. When every thread that has set it has
terminated, and `main` is not about to write over it, `main` alone joins them all, `ndone` is then
zero, and the loop ends if there is a thread for every file. -/
theorem no_completion_lost (hr : RunWith (Step maxnconn) MarksInTime (start n) s) :
    (∀ i, (s.thread i).HasSetDone →
      s.flags i = .done ∨ s.flags i = .joined ∧ s.thread i = .finished) ∧
    ((∀ i, (s.thread i).HasSetDone → s.thread i = .finished) →
      (∀ i, s.Marking i → s.thread i ≠ .finished) →
      ∃ t, Alone maxnconn s t ∧ t.ndone = 0 ∧
        (∀ i, s.thread i = .finished → t.flags i = .joined) ∧
        ((∀ i, s.thread i = .finished) → t.main = .exit)) := by
  have hinv : s.Core ∧ s.At := by
    refine RunWith.preserves (I := fun s ↦ s.Core ∧ s.At) ?_ hr ⟨core_start, trivial⟩
    exact fun u a t hu ha hs ↦ step_keeps hu ha hs
  obtain ⟨hcore, hat⟩ := hinv
  refine ⟨fun i hi ↦ ?_, fun hended hmark ↦ ?_⟩
  · have hfit := hcore.allows i
    rcases hfit.of_done hi with hf | hf
    · exact .inl hf
    · rw [hf] at hfit
      exact .inr ⟨hf, hfit⟩
  · have hq : s.Quiet := ⟨hcore, hat, hended, fun i hi hset ↦ hmark i hi (hended i hset)⟩
    exact hq.collects

private def marksInTime (s : Web02 n) : Web02Act n → Bool
  | .main =>
    match s.main with
    | .connecting i => !decide (s.thread i).HasSetDone
    | _ => true
  | .thread _ _ => true

private theorem marksInTime_spec (s : Web02 n) (a : Web02Act n) (h : marksInTime s a = true) :
    s.MarksInTime a := by
  cases a with
  | main =>
    intro i hm
    simpa [marksInTime, hm] using h
  | thread i eof => trivial

/-- The only file. -/
private def onlyFile : Fin 1 := ⟨0, Nat.one_pos⟩

/-- All that its thread does. -/
private def reads : List (Web02Act 1) :=
  [.thread onlyFile false, .thread onlyFile true, .thread onlyFile false, .thread onlyFile false,
    .thread onlyFile false, .thread onlyFile false]

/-- `main` collects one file. -/
theorem one_file_collected :
    ∃ s t, Run (Step 1) (start 1) s ∧ Alone 1 s t ∧ t.ndone = 0 ∧ t.flags 0 = .joined ∧
      t.main = .exit := by
  have h : (playActs (guarded marksInTime (step 1)) (start 1)
      (List.replicate 8 .main ++ reads)).map
      (fun s ↦ decide (s.thread 0 = .finished ∧ s.main = .connTest)) = some true := by decide
  obtain ⟨s, hs, hfin⟩ := Option.map_eq_some_iff.mp h
  have hrun : RunWith (Step 1) MarksInTime (start 1) s := runWith_of_playActs marksInTime_spec hs
  obtain ⟨hfin, hm⟩ := of_decide_eq_true hfin
  have hall : ∀ i, s.thread i = .finished := fun i ↦ Subsingleton.elim 0 i ▸ hfin
  have hmark (i : Fin 1) : ¬ s.Marking i := by simp [Marking, hm]
  obtain ⟨t, ht, hdone, hjoined, hexit⟩ :=
    (no_completion_lost hrun).2 (fun i _ ↦ hall i) fun i hi ↦ absurd hi (hmark i)
  exact ⟨s, t, hrun.mono fun _ _ _ ↦ trivial, ht, hdone, hjoined 0 hfin, hexit hall⟩

/-- The turn of `main` when the only file is marked as connecting for good. -/
private def Forlorn (s : Web02 1) : Prop :=
  s.flags onlyFile = .connecting ∧ s.nlefttoread = 1 ∧ s.nlefttoconn = 0 ∧
    (s.main = .loop ∨ s.main = .connTest ∨ s.main = .lock ∨ s.main = .doneTest ∨
      (∃ k, s.main = .scan k) ∨ s.main = .unlock)

/-- The turn is followed by another one. -/
private theorem Forlorn.step {s t : Web02 1} (hs : s.Forlorn) (h : s.mainNext 1 = some t) :
    t.Forlorn := by
  obtain ⟨hflag, hread, hconn, hm | hm | hm | hm | ⟨k, hm⟩ | hm⟩ := hs
  · simp only [mainNext, hm, hread, Option.some.injEq] at h
    subst h
    exact ⟨hflag, rfl, hconn, .inr (.inl rfl)⟩
  · simp only [mainNext, hm, hconn, Option.some.injEq] at h
    subst h
    exact ⟨hflag, hread, rfl, .inr (.inr (.inl (by simp)))⟩
  · obtain ⟨-, h⟩ := Option.ite_none_right_eq_some.mp (by simpa only [mainNext, hm] using h)
    cases h
    exact ⟨hflag, hread, hconn, .inr (.inr (.inr (.inl rfl)))⟩
  · simp only [mainNext, hm, Option.some.injEq] at h
    subst h
    refine ⟨hflag, hread, hconn, ?_⟩
    split
    · exact .inr (.inr (.inr (.inr (.inl ⟨0, rfl⟩))))
    · exact .inr (.inr (.inr (.inr (.inr rfl))))
  · simp only [mainNext, hm] at h
    split at h
    · next hk =>
      cases h
      have hnot : s.flags ⟨k, hk⟩ ≠ .done := by
        rw [show (⟨k, hk⟩ : Fin 1) = onlyFile from Subsingleton.elim _ _, hflag]
        decide
      exact ⟨hflag, hread, hconn, .inr (.inr (.inr (.inr (.inl ⟨k + 1, if_neg hnot⟩))))⟩
    · cases h
      exact ⟨hflag, hread, hconn, .inr (.inr (.inr (.inr (.inr rfl))))⟩
  · simp only [mainNext, hm, Option.some.injEq] at h
    subst h
    exact ⟨hflag, hread, hconn, .inl rfl⟩

/-- The thread of the only file terminates before `main` sets `F_CONNECTING`. The flag `F_DONE` is
gone, and `main` alone never joins the thread nor comes to its end. -/
theorem completion_lost :
    ∃ s, Run (Step 1) (start 1) s ∧ s.thread 0 = .finished ∧ s.flags 0 = .connecting ∧ s.ndone = 1 ∧
      ∀ t, Alone 1 s t → t.flags 0 ≠ .joined ∧ t.main ≠ .exit := by
  have h : (playActs (step 1) (start 1)
      (List.replicate 5 .main ++ reads ++ List.replicate 3 .main)).map
      (fun s ↦ decide (s.thread 0 = .finished ∧ s.flags 0 = .connecting ∧ s.ndone = 1 ∧
        s.nlefttoread = 1 ∧ s.nlefttoconn = 0 ∧ s.main = .connTest)) = some true := by decide
  obtain ⟨s, hs, hat⟩ := Option.map_eq_some_iff.mp h
  obtain ⟨hfin, hflag, hdone, hread, hconn, hm⟩ := of_decide_eq_true hat
  refine ⟨s, run_of_playActs hs, hfin, hflag, hdone, fun t ht ↦ ?_⟩
  have hforlorn : t.Forlorn := by
    refine RunWith.preserves (I := Forlorn) ?_ ht ⟨hflag, hread, hconn, .inr (.inl hm)⟩
    rintro u a v hu rfl hv
    exact hu.step hv
  obtain ⟨hlost, -, -, hm'⟩ := hforlorn
  have hflag' : t.flags 0 = .connecting := hlost
  refine ⟨by simp [hflag'], ?_⟩
  rcases hm' with hm' | hm' | hm' | hm' | ⟨k, hm'⟩ | hm' <;> simp [hm']

end Web02
end Unpv13e.Threads
