import Unpv13e.Base.Text
import Unpv13e.Threads.Web

/-!
# When the web client comes to its end

Library `Threads`. `main` joins threads with `ndone_mutex` held, and a thread sets `F_DONE` before
it takes the mutex (`src/threads/web03.c:72–89`, `:121–126`). What holds in every state of the
client, and when somebody can always go on.
-/

namespace Unpv13e.Threads
open Unpv13e.Base

variable {n : Nat}

/-- `main` holds the mutex. -/
def MainPc.Holds : MainPc n → Prop
  | .waitTest => True
  | .scan _ => True
  | .join _ => True
  | .setJoined _ => True
  | .decDone _ => True
  | .decConn _ => True
  | .decToRead _ => True
  | .unlock => True
  | _ => False

/-- A thread there holds the mutex. -/
def ThreadPc.Holds : ThreadPc → Prop
  | .count => True
  | .signal => True
  | .unlock => True
  | _ => False

/-- A thread there has counted itself in `ndone`. -/
def ThreadPc.Counted : ThreadPc → Bool
  | .signal => true
  | .unlock => true
  | .finished => true
  | _ => false

/-- Where a thread can be when its file has this flag. -/
def Flag.Fits : Flag → ThreadPc → Prop
  | .fresh, pc => pc = .absent
  | .connecting, pc => pc = .connect
  | .reading, pc => pc = .read ∨ pc = .setDone
  | .done, pc => pc ≠ .absent ∧ pc ≠ .connect ∧ pc ≠ .read ∧ pc ≠ .setDone
  | .joined, pc => pc = .finished

/-- The flag of a file whose thread waits for the mutex or holds it. -/
theorem Flag.Fits.eq_done {f : Flag} {pc : ThreadPc} (h : f.Fits pc)
    (hpc : pc = .lock ∨ pc.Holds) : f = .done := by
  cases f with
  | done => rfl
  | fresh => subst h; simp [ThreadPc.Holds] at hpc
  | connecting => subst h; simp [ThreadPc.Holds] at hpc
  | reading => rcases h with rfl | rfl <;> simp [ThreadPc.Holds] at hpc
  | joined => subst h; simp [ThreadPc.Holds] at hpc

/-- What is still to come off `nlefttoconn`. -/
def MainPc.toConn : MainPc n → Int
  | .create _ => 1
  | .setTid _ => 1
  | .incConn _ => 1
  | .decToConn _ => 1
  | _ => 0

/-- What `nconn` has too much. -/
def MainPc.conn : MainPc n → Int
  | .create _ => -1
  | .setTid _ => -1
  | .incConn _ => -1
  | .decDone _ => 1
  | .decConn _ => 1
  | _ => 0

/-- What is still to come off `nlefttoread`. -/
def MainPc.toRead : MainPc n → Int
  | .decDone _ => 1
  | .decConn _ => 1
  | .decToRead _ => 1
  | _ => 0

/-- What is still to come off `ndone`. -/
def MainPc.done : MainPc n → Int
  | .decDone _ => 1
  | _ => 0

theorem MainPc.done_nonneg (pc : MainPc n) : 0 ≤ pc.done := by
  unfold MainPc.done
  split
  · decide
  · rfl

namespace Web

/-- What holds wherever `main` is. -/
structure Core (s : Web n) : Prop where
  fits : ∀ i, s.main ≠ .create i → (s.flags i).Fits (s.thread i)
  tids : ∀ i, s.thread i ≠ .absent → s.main ≠ .setTid i → s.tid i = some i
  joins : ∀ i, s.joins i = if s.flags i = .joined ∨ s.main = .setJoined i then 1 else 0
  toConn : s.nlefttoconn = count (fun i ↦ s.flags i = .fresh) + s.main.toConn
  conn : s.nconn = count (fun i ↦ s.flags i ≠ .fresh ∧ s.flags i ≠ .joined) + s.main.conn
  toRead : s.nlefttoread = count (fun i ↦ s.flags i ≠ .joined) + s.main.toRead
  done : s.ndone = count (fun i ↦ s.flags i = .done ∧ (s.thread i).Counted = true) + s.main.done
  main : s.mutex = some .main ↔ s.main.Holds
  thread : ∀ i, s.mutex = some (.thread i) ↔ (s.thread i).Holds

/-- What holds in addition where `main` is. -/
def At (s : Web n) : Prop :=
  match s.main with
  | .connTest => 0 < s.nlefttoread
  | .find j => 0 < s.nlefttoread ∧ 0 < s.nlefttoconn ∧ ∀ i : Fin n, i.val < j → s.flags i ≠ .fresh
  | .connecting i => 0 < s.nlefttoread ∧ s.flags i = .fresh
  | .create i => 0 < s.nlefttoread ∧ s.flags i = .connecting ∧ s.thread i = .absent
  | .setTid _ => 0 < s.nlefttoread
  | .incConn _ => 0 < s.nlefttoread
  | .decToConn _ => 0 < s.nlefttoread
  | .lock => 0 < s.nconn
  | .waitTest => 0 < s.nconn
  | .waiting => 0 < s.nconn ∧ (s.woken = false → s.ndone = 0 ∨ ∃ i, s.thread i = .signal)
  | .join i => s.flags i = .done ∧ s.thread i = .finished
  | .setJoined i => s.flags i = .done ∧ s.thread i = .finished
  | .exit => s.nlefttoread ≤ 0
  | .quit => False
  | _ => True

private theorem start_core : (start n).Core where
  fits _ _ := rfl
  tids _ h := absurd rfl h
  joins _ := by simp [start]
  toConn := by simp [start, count, MainPc.toConn]
  conn := by simp [start, count, MainPc.conn]
  toRead := by simp [start, count, MainPc.toRead]
  done := by simp [start, count, MainPc.done]
  main := by simp [start, MainPc.Holds]
  thread _ := by simp [start, ThreadPc.Holds]

/-! ### Steps of a thread -/

/-- A thread that takes a step is not yet joined, nor about to be created or joined. -/
private theorem mainPc_of_running {s : Web n} (hc : s.Core) (hat : s.At) {i : Fin n}
    (habsent : s.thread i ≠ .absent) (hfin : s.thread i ≠ .finished) :
    s.main ≠ .create i ∧ s.main ≠ .join i ∧ s.main ≠ .setJoined i ∧ s.flags i ≠ .joined := by
  unfold At at hat
  have hcreate : s.main ≠ .create i := by
    intro h
    rw [h] at hat
    exact habsent hat.2.2
  refine ⟨hcreate, ?_, ?_, ?_⟩
  · intro h
    rw [h] at hat
    exact hfin hat.2
  · intro h
    rw [h] at hat
    exact hfin hat.2
  · intro h
    have := hc.fits i hcreate
    rw [h] at this
    exact hfin this

/-- The thread of `i` goes on, with the flag `f`: what `Core` asks of the step. -/
private theorem core_advance {s t : Web n} (hc : s.Core) {i : Fin n} {f : Flag} {pc : ThreadPc}
    (ht : t = { s with
      flags := Function.update s.flags i f, thread := Function.update s.thread i pc
      ndone := t.ndone, mutex := t.mutex, woken := t.woken })
    (hcreate : s.main ≠ .create i) (hold : s.flags i ≠ .fresh ∧ s.flags i ≠ .joined)
    (hnew : f ≠ .fresh ∧ f ≠ .joined) (hfit : f.Fits pc) (hpc : s.thread i ≠ .absent)
    (hdone : t.ndone = s.ndone ∧
        (f = .done ∧ pc.Counted = true ↔ s.flags i = .done ∧ (s.thread i).Counted = true) ∨
      t.ndone = s.ndone + 1 ∧ ¬ (s.flags i = .done ∧ (s.thread i).Counted = true) ∧
        f = .done ∧ pc.Counted = true)
    (hmain : t.mutex = some .main ↔ s.mutex = some .main)
    (hthread : ∀ j, t.mutex = some (.thread j) ↔ (Function.update s.thread i pc j).Holds) :
    t.Core := by
  have hflag (g : Flag) (hg : g = .fresh ∨ g = .joined) (j : Fin n) :
      Function.update s.flags i f j = g ↔ s.flags j = g := by
    by_cases hj : j = i
    · subst hj
      rcases hg with rfl | rfl
      · simp [hold.1, hnew.1]
      · simp [hold.2, hnew.2]
    · simp [hj]
  rw [ht]
  constructor
  · intro j hj
    dsimp only
    by_cases hji : j = i
    · subst hji
      simpa using hfit
    · simpa [hji] using hc.fits j hj
  · intro j hj
    by_cases hji : j = i
    · subst hji
      exact hc.tids j hpc
    · exact hc.tids j (by simpa [hji] using hj)
  · intro j
    dsimp only
    rw [hc.joins j]
    simp only [hflag .joined (.inr rfl) j]
  · dsimp only
    rw [hc.toConn]
    simp only [hflag .fresh (.inl rfl)]
  · dsimp only
    rw [hc.conn]
    simp only [ne_eq, hflag .fresh (.inl rfl), hflag .joined (.inr rfl)]
  · dsimp only
    rw [hc.toRead]
    simp only [ne_eq, hflag .joined (.inr rfl)]
  · dsimp only
    have hother (j : Fin n) (hj : j ≠ i) : (s.flags j = .done ∧ (s.thread j).Counted = true ↔
        Function.update s.flags i f j = .done ∧
          (Function.update s.thread i pc j).Counted = true) := by simp [hj]
    rcases hdone with ⟨he, hsame⟩ | ⟨he, hno, hyes⟩
    · rw [he, hc.done]
      congr 2
      apply count_congr
      intro j
      by_cases hj : j = i
      · subst hj
        simpa using hsame.symm
      · exact hother j hj
    · rw [he, hc.done, count_gain i hno (by simpa using hyes) hother]
      omega
  · exact hmain.trans hc.main
  · exact hthread

/-- The thread of `i` goes on, with the flag `f`: what `At` asks of the step. -/
private theorem at_advance {s t : Web n} (hat : s.At) {i : Fin n} {f : Flag} {pc : ThreadPc}
    (ht : t = { s with
      flags := Function.update s.flags i f, thread := Function.update s.thread i pc
      ndone := t.ndone, mutex := t.mutex, woken := t.woken })
    (hold : s.flags i ≠ .fresh) (hnew : f ≠ .fresh)
    (hat' : s.main ≠ .create i ∧ s.main ≠ .join i ∧ s.main ≠ .setJoined i)
    (hwait : s.main = .waiting → t.woken = false →
      t.ndone = 0 ∨ ∃ j, Function.update s.thread i pc j = .signal) : t.At := by
  rw [ht]
  unfold At at hat ⊢
  dsimp only
  cases hm : s.main with
  | find k =>
    rw [hm] at hat
    refine ⟨hat.1, hat.2.1, fun j hj ↦ ?_⟩
    by_cases hji : j = i
    · subst hji
      simpa using hnew
    · simpa [hji] using hat.2.2 j hj
  | connecting j =>
    rw [hm] at hat
    have hji : j ≠ i := fun h ↦ hold (h ▸ hat.2)
    simpa [hji] using hat
  | create j =>
    rw [hm] at hat hat'
    have hji : j ≠ i := fun h ↦ hat'.1 (by rw [h])
    simpa [hji] using hat
  | waiting =>
    rw [hm] at hat
    exact ⟨hat.1, hwait hm⟩
  | join j =>
    rw [hm] at hat hat'
    have hji : j ≠ i := fun h ↦ hat'.2.1 (by rw [h])
    simpa [hji] using hat
  | setJoined j =>
    rw [hm] at hat hat'
    have hji : j ≠ i := fun h ↦ hat'.2.2 (by rw [h])
    simpa [hji] using hat
  | _ =>
    rw [hm] at hat
    exact hat

/-- Who holds the mutex, when one thread goes on. -/
private theorem holds_advance {s : Web n} {i : Fin n} {m : Option (Holder n)} {pc : ThreadPc}
    (hm : ∀ j, j ≠ i → (m = some (.thread j) ↔ (s.thread j).Holds))
    (hi : m = some (.thread i) ↔ pc.Holds) (j : Fin n) :
    m = some (.thread j) ↔ (Function.update s.thread i pc j).Holds := by
  by_cases hj : j = i
  · subst hj
    simpa using hi
  · simpa [hj] using hm j hj

/-- A step of a thread keeps the invariant. -/
private theorem threadNext_inv {s t : Web n} {i : Fin n} {eof : Bool} (hc : s.Core) (hat : s.At)
    (h : s.threadNext i eof = some t) : t.Core ∧ t.At := by
  have habsent : s.thread i ≠ .absent := by
    intro hp
    simp [threadNext, hp] at h
  have hfin : s.thread i ≠ .finished := by
    intro hp
    simp [threadNext, hp] at h
  obtain ⟨hcreate, hjoin, hset, hjoined⟩ := mainPc_of_running hc hat habsent hfin
  have hfit := hc.fits i hcreate
  have hfresh : s.flags i ≠ .fresh := by
    intro hf
    rw [hf] at hfit
    exact habsent hfit
  have hself := Function.update_eq_self i s.flags
  have hmut := hc.thread i
  have hsleep : s.main = .waiting → s.woken = false →
      s.ndone = 0 ∨ ∃ j, s.thread j = .signal := by
    intro hm
    unfold At at hat
    rw [hm] at hat
    exact hat.2
  -- another thread that is to signal is still to do so
  have hother (pc : ThreadPc) (hno : s.thread i ≠ .signal) (hm : s.main = .waiting)
      (hw : s.woken = false) : s.ndone = 0 ∨ ∃ j, Function.update s.thread i pc j = .signal := by
    rcases hsleep hm hw with h0 | ⟨j, hj⟩
    · exact .inl h0
    · have hji : j ≠ i := fun he ↦ hno (he ▸ hj)
      exact .inr ⟨j, by simpa [hji] using hj⟩
  have hadvance (f : Flag) (pc : ThreadPc)
      (ht : t = { s with
        flags := Function.update s.flags i f, thread := Function.update s.thread i pc
        ndone := t.ndone, mutex := t.mutex, woken := t.woken })
      (hnew : f ≠ .fresh ∧ f ≠ .joined) (hfit : f.Fits pc) (hdone) (hmain) (hthread) (hwait) :
      t.Core ∧ t.At :=
    ⟨core_advance hc ht hcreate ⟨hfresh, hjoined⟩ hnew hfit habsent hdone hmain hthread,
      at_advance hat ht hfresh hnew.1 ⟨hcreate, hjoin, hset⟩ hwait⟩
  cases hp : s.thread i with
  | absent => exact absurd hp habsent
  | finished => exact absurd hp hfin
  | connect =>
    simp only [threadNext, hp, Option.some.injEq] at h
    subst h
    refine hadvance .reading .read rfl (by decide) (.inl rfl) (.inl ⟨rfl, ?_⟩) Iff.rfl ?_ ?_
    · simp [hp, ThreadPc.Counted]
    · exact holds_advance (fun j _ ↦ hc.thread j) (hmut.trans (by simp [hp, ThreadPc.Holds]))
    · exact hother _ (by simp [hp])
  | read =>
    simp only [threadNext, hp, Option.some.injEq] at h
    split at h
    · subst h
      rw [hp] at hfit
      have hread : s.flags i = .reading := by
        cases hf : s.flags i <;> simp [hf, Flag.Fits] at hfit ⊢
      refine hadvance (s.flags i) .setDone (by rw [hself]; rfl) ⟨hfresh, hjoined⟩ ?_
        (.inl ⟨rfl, ?_⟩) Iff.rfl ?_ ?_
      · rw [hread]
        exact .inr rfl
      · simp [hp, ThreadPc.Counted]
      · exact holds_advance (fun j _ ↦ hc.thread j) (hmut.trans (by simp [hp, ThreadPc.Holds]))
      · exact hother _ (by simp [hp])
    · subst h
      exact ⟨hc, hat⟩
  | setDone =>
    simp only [threadNext, hp, Option.some.injEq] at h
    subst h
    refine hadvance .done .lock rfl (by decide) (by simp [Flag.Fits]) (.inl ⟨rfl, ?_⟩) Iff.rfl ?_ ?_
    · simp [hp, ThreadPc.Counted]
    · exact holds_advance (fun j _ ↦ hc.thread j) (hmut.trans (by simp [hp, ThreadPc.Holds]))
    · exact hother _ (by simp [hp])
  | lock =>
    have hdone : s.flags i = .done := hfit.eq_done (by simp [hp, ThreadPc.Holds])
    simp only [threadNext, hp, Option.ite_none_right_eq_some, Option.some.injEq] at h
    obtain ⟨hfree, h⟩ := h
    subst h
    refine hadvance (s.flags i) .count (by rw [hself]; rfl) ⟨hfresh, hjoined⟩
      (by simp [hdone, Flag.Fits]) (.inl ⟨rfl, ?_⟩) ?_ ?_ ?_
    · simp [hp, ThreadPc.Counted]
    · simp [hfree]
    · refine holds_advance (fun j hj ↦ ?_) (by simp [ThreadPc.Holds])
      rw [← hc.thread j, hfree]
      simp [hj.symm]
    · exact hother _ (by simp [hp])
  | count =>
    have hdone : s.flags i = .done := hfit.eq_done (by simp [hp, ThreadPc.Holds])
    simp only [threadNext, hp, Option.some.injEq] at h
    subst h
    refine hadvance (s.flags i) .signal (by rw [hself]; rfl) ⟨hfresh, hjoined⟩
      (by simp [hdone, Flag.Fits]) (.inr ⟨rfl, ?_, hdone, rfl⟩) Iff.rfl ?_ ?_
    · simp [hp, ThreadPc.Counted]
    · exact holds_advance (fun j _ ↦ hc.thread j) (hmut.trans (by simp [hp, ThreadPc.Holds]))
    · exact fun _ _ ↦ .inr ⟨i, by simp⟩
  | signal =>
    have hdone : s.flags i = .done := hfit.eq_done (by simp [hp, ThreadPc.Holds])
    simp only [threadNext, hp, Option.some.injEq] at h
    subst h
    refine hadvance (s.flags i) .unlock (by rw [hself]; rfl) ⟨hfresh, hjoined⟩
      (by simp [hdone, Flag.Fits]) (.inl ⟨rfl, ?_⟩) Iff.rfl ?_ ?_
    · simp [hp, ThreadPc.Counted]
    · exact holds_advance (fun j _ ↦ hc.thread j) (hmut.trans (by simp [hp, ThreadPc.Holds]))
    · intro hm hw
      simp [hm] at hw
  | unlock =>
    have hdone : s.flags i = .done := hfit.eq_done (by simp [hp, ThreadPc.Holds])
    have hheld : s.mutex = some (.thread i) := hmut.mpr (by simp [hp, ThreadPc.Holds])
    simp only [threadNext, hp, Option.some.injEq] at h
    subst h
    refine hadvance (s.flags i) .finished (by rw [hself]; rfl) ⟨hfresh, hjoined⟩
      (by simp [hdone, Flag.Fits]) (.inl ⟨rfl, ?_⟩) ?_ ?_ ?_
    · simp [hp, ThreadPc.Counted]
    · simp [hheld]
    · refine holds_advance (fun j hj ↦ ?_) (by simp [ThreadPc.Holds])
      rw [← hc.thread j, hheld]
      simp [hj.symm]
    · exact hother _ (by simp [hp])

/-! ### Steps of `main` -/

attribute [local simp] MainPc.toConn MainPc.conn MainPc.toRead MainPc.done MainPc.Holds

/-- `main` goes on at `m` and counts: what `Core` asks of the step. -/
private theorem core_goto {s t : Web n} (hc : s.Core) {m : MainPc n}
    (ht : t = { s with
      main := m, nconn := t.nconn, nlefttoconn := t.nlefttoconn, nlefttoread := t.nlefttoread
      ndone := t.ndone, mutex := t.mutex, woken := t.woken })
    (hmain : t.mutex = some .main ↔ m.Holds)
    (hthread : ∀ i, t.mutex = some (.thread i) ↔ s.mutex = some (.thread i) := by simp [*])
    (hold : ∀ i, s.main ≠ .create i ∧ s.main ≠ .setTid i ∧ s.main ≠ .setJoined i := by simp [*])
    (hnew : ∀ i, m ≠ .setJoined i := by simp)
    (htoConn : t.nlefttoconn - m.toConn = s.nlefttoconn - s.main.toConn := by simp [*])
    (hconn : t.nconn - m.conn = s.nconn - s.main.conn := by simp [*])
    (htoRead : t.nlefttoread - m.toRead = s.nlefttoread - s.main.toRead := by simp [*])
    (hdone : t.ndone - m.done = s.ndone - s.main.done := by simp [*]) : t.Core := by
  rw [ht]
  constructor
  · exact fun i _ ↦ hc.fits i (hold i).1
  · exact fun i hi _ ↦ hc.tids i hi (hold i).2.1
  · intro i
    dsimp only
    rw [hc.joins i]
    simp [(hold i).2.2, hnew i]
  · have := hc.toConn
    dsimp only
    omega
  · have := hc.conn
    dsimp only
    omega
  · have := hc.toRead
    dsimp only
    omega
  · have := hc.done
    dsimp only
    omega
  · exact hmain
  · exact fun i ↦ (hthread i).trans (hc.thread i)

/-- `main` marks a file that is not yet read. -/
private theorem connecting_inv {s : Web n} {i : Fin n} (hc : s.Core) (hat : s.At)
    (hm : s.main = .connecting i) :
    ({ s.setFlag i .connecting with main := .create i } : Web n).Core ∧
      ({ s.setFlag i .connecting with main := .create i } : Web n).At := by
  unfold At at hat
  rw [hm] at hat
  obtain ⟨hleft, hfresh⟩ := hat
  have habsent : s.thread i = .absent := by
    have := hc.fits i (by simp [hm])
    rw [hfresh] at this
    exact this
  have hflag (j : Fin n) (hj : j ≠ i) : Function.update s.flags i .connecting j = s.flags j := by
    simp [hj]
  refine ⟨⟨?_, ?_, ?_, ?_, ?_, ?_, ?_, ?_, hc.thread⟩, ?_⟩
  · intro j hj
    have hji : j ≠ i := fun h ↦ hj (by rw [h])
    simpa [setFlag, hji] using hc.fits j (by simp [hm])
  · exact fun j hj _ ↦ hc.tids j hj (by simp [hm])
  · intro j
    have := hc.joins j
    by_cases hji : j = i
    · subst hji
      simpa [setFlag, hm, hfresh] using this
    · simpa [setFlag, hm, hji] using this
  · have hlose := count_lose (p := fun j ↦ s.flags j = .fresh)
      (q := fun j ↦ Function.update s.flags i .connecting j = .fresh) i hfresh (by simp)
      fun j hj ↦ by rw [hflag j hj]
    have := hc.toConn
    simp only [hm, MainPc.toConn, setFlag] at this ⊢
    omega
  · have hgain := count_gain (p := fun j ↦ s.flags j ≠ .fresh ∧ s.flags j ≠ .joined)
      (q := fun j ↦ Function.update s.flags i .connecting j ≠ .fresh ∧
        Function.update s.flags i .connecting j ≠ .joined) i (by simp [hfresh]) (by simp)
      fun j hj ↦ by rw [hflag j hj]
    have := hc.conn
    simp only [hm, MainPc.conn, setFlag] at this ⊢
    omega
  · have hsame := count_congr (p := fun j ↦ s.flags j ≠ .joined)
      (q := fun j ↦ Function.update s.flags i .connecting j ≠ .joined) fun j ↦ by
        by_cases hji : j = i
        · subst hji
          simp [hfresh]
        · rw [hflag j hji]
    have := hc.toRead
    simp only [hm, MainPc.toRead, setFlag] at this ⊢
    omega
  · have hsame := count_congr (p := fun j ↦ s.flags j = .done ∧ (s.thread j).Counted = true)
      (q := fun j ↦ Function.update s.flags i .connecting j = .done ∧
        (s.thread j).Counted = true) fun j ↦ by
        by_cases hji : j = i
        · subst hji
          simp [hfresh]
        · rw [hflag j hji]
    have := hc.done
    simp only [hm, MainPc.done, setFlag] at this ⊢
    omega
  · simpa [setFlag, hm, MainPc.Holds] using hc.main
  · exact ⟨hleft, by simp [setFlag], habsent⟩

/-- `main` creates the thread of a file. -/
private theorem create_inv {s : Web n} {i : Fin n} (hc : s.Core) (hat : s.At)
    (hm : s.main = .create i) :
    ({ s.setThread i .connect with main := .setTid i } : Web n).Core ∧
      ({ s.setThread i .connect with main := .setTid i } : Web n).At := by
  unfold At at hat
  rw [hm] at hat
  obtain ⟨hleft, hflag, habsent⟩ := hat
  refine ⟨⟨?_, ?_, ?_, ?_, ?_, ?_, ?_, ?_, ?_⟩, hleft⟩
  · intro j _
    by_cases hji : j = i
    · subst hji
      simp [setThread, hflag, Flag.Fits]
    · have hcreate : s.main ≠ .create j := by
        rw [hm]
        exact fun h ↦ hji (MainPc.create.inj h).symm
      simpa [setThread, hji] using hc.fits j hcreate
  · intro j hj hset
    have hji : j ≠ i := fun h ↦ hset (by rw [h])
    exact hc.tids j (by simpa [setThread, hji] using hj) (by simp [hm])
  · simpa [setThread, hm] using hc.joins
  · simpa [setThread, hm, MainPc.toConn] using hc.toConn
  · simpa [setThread, hm, MainPc.conn] using hc.conn
  · simpa [setThread, hm, MainPc.toRead] using hc.toRead
  · have hsame := count_congr (p := fun j ↦ s.flags j = .done ∧ (s.thread j).Counted = true)
      (q := fun j ↦ s.flags j = .done ∧
        (Function.update s.thread i .connect j).Counted = true) fun j ↦ by
        by_cases hji : j = i
        · subst hji
          simp [hflag]
        · simp [hji]
    have := hc.done
    simp only [hm, MainPc.done, setThread] at this ⊢
    omega
  · simpa [setThread, hm, MainPc.Holds] using hc.main
  · exact holds_advance (fun j _ ↦ hc.thread j) ((hc.thread i).trans
      (by simp [habsent, ThreadPc.Holds]))

/-- `main` marks a file as joined. -/
private theorem setJoined_inv {s : Web n} {i : Fin n} (hc : s.Core) (hat : s.At)
    (hm : s.main = .setJoined i) :
    ({ s.setFlag i .joined with main := .decDone i } : Web n).Core := by
  unfold At at hat
  rw [hm] at hat
  obtain ⟨hdone, hfin⟩ := hat
  have hflag (j : Fin n) (hj : j ≠ i) : Function.update s.flags i .joined j = s.flags j := by
    simp [hj]
  refine ⟨?_, ?_, ?_, ?_, ?_, ?_, ?_, ?_, hc.thread⟩
  · intro j _
    by_cases hji : j = i
    · subst hji
      simpa [setFlag, Flag.Fits] using hfin
    · simpa [setFlag, hji] using hc.fits j (by simp [hm])
  · exact fun j hj _ ↦ hc.tids j hj (by simp [hm])
  · intro j
    have := hc.joins j
    by_cases hji : j = i
    · subst hji
      simpa [setFlag, hm] using this
    · simpa [setFlag, hm, hji, Ne.symm hji] using this
  · have hsame := count_congr (p := fun j ↦ s.flags j = .fresh)
      (q := fun j ↦ Function.update s.flags i .joined j = .fresh) fun j ↦ by
        by_cases hji : j = i
        · subst hji
          simp [hdone]
        · rw [hflag j hji]
    have := hc.toConn
    simp only [hm, MainPc.toConn, setFlag] at this ⊢
    omega
  · have hlose := count_lose (p := fun j ↦ s.flags j ≠ .fresh ∧ s.flags j ≠ .joined)
      (q := fun j ↦ Function.update s.flags i .joined j ≠ .fresh ∧
        Function.update s.flags i .joined j ≠ .joined) i (by simp [hdone]) (by simp)
      fun j hj ↦ by rw [hflag j hj]
    have := hc.conn
    simp only [hm, MainPc.conn, setFlag] at this ⊢
    omega
  · have hlose := count_lose (p := fun j ↦ s.flags j ≠ .joined)
      (q := fun j ↦ Function.update s.flags i .joined j ≠ .joined) i (by simp [hdone]) (by simp)
      fun j hj ↦ by rw [hflag j hj]
    have := hc.toRead
    simp only [hm, MainPc.toRead, setFlag] at this ⊢
    omega
  · have hlose := count_lose (p := fun j ↦ s.flags j = .done ∧ (s.thread j).Counted = true)
      (q := fun j ↦ Function.update s.flags i .joined j = .done ∧ (s.thread j).Counted = true) i
      (by simp [hdone, hfin, ThreadPc.Counted]) (by simp) fun j hj ↦ by rw [hflag j hj]
    have := hc.done
    simp only [hm, MainPc.done, setFlag] at this ⊢
    omega
  · simpa [setFlag, hm, MainPc.Holds] using hc.main

/-- A file that is opened and not joined, when no more connections are made. -/
private theorem nconn_pos {s : Web n} {maxnconn : Int} (hmax : 1 ≤ maxnconn) (hc : s.Core)
    (hm : s.main = .connTest) (hleft : 0 < s.nlefttoread)
    (hno : ¬ (s.nconn < maxnconn ∧ 0 < s.nlefttoconn)) : 0 < s.nconn := by
  by_contra hpos
  have hto : s.nlefttoconn ≤ 0 := by
    by_contra hto
    exact hno ⟨by omega, by omega⟩
  have h1 := hc.toConn
  have h2 := hc.conn
  have h3 := hc.toRead
  simp only [hm, MainPc.toConn, MainPc.conn, MainPc.toRead, Int.add_zero] at h1 h2 h3
  obtain ⟨i, hi⟩ := count_pos.mp (show 0 < count fun i ↦ s.flags i ≠ .joined by omega)
  have hnone := count_eq_zero.mp (show count (fun i ↦ s.flags i = .fresh) = 0 by omega)
  have : 0 < count fun i ↦ s.flags i ≠ .fresh ∧ s.flags i ≠ .joined :=
    count_pos.mpr ⟨i, hnone i, hi⟩
  omega

/-- A step of `main` keeps the invariant, when it comes to no flag too early. -/
private theorem mainNext_inv {s t : Web n} {maxnconn : Int} (hmax : 1 ≤ maxnconn) (hc : s.Core)
    (hat : s.At) (hok : s.JoinsCounted .main) (h : s.mainNext maxnconn = some t) :
    t.Core ∧ t.At := by
  have hat' := hat
  have hheld := hc.main
  unfold At at hat
  cases hm : s.main with
  | loop =>
    rw [hm] at hheld
    simp only [mainNext, hm, Option.some.injEq] at h
    subst h
    split
    · next hleft => exact ⟨core_goto hc rfl hheld, hleft⟩
    · next hleft => exact ⟨core_goto hc rfl hheld, by simpa [At] using hleft⟩
  | connTest =>
    rw [hm] at hheld hat
    simp only [mainNext, hm, Option.some.injEq] at h
    subst h
    split
    · next hmore => exact ⟨core_goto hc rfl hheld, hat, hmore.2, by simp⟩
    · next hno =>
      have hpos : 0 < s.nconn := nconn_pos hmax hc hm hat hno
      exact ⟨core_goto hc rfl hheld, hpos⟩
  | find j =>
    rw [hm] at hheld hat
    obtain ⟨hleft, hto, hbefore⟩ := hat
    simp only [mainNext, hm] at h
    split at h
    · next hj =>
      cases h
      split
      · next hfresh => exact ⟨core_goto hc rfl hheld, hleft, hfresh⟩
      · next hfresh =>
        refine ⟨core_goto hc rfl hheld, hleft, hto, fun i hi ↦ ?_⟩
        rcases Nat.lt_succ_iff_lt_or_eq.mp hi with hlt | rfl
        · exact hbefore i hlt
        · exact hfresh
    · next hj =>
      -- a file without a flag was left to be found
      have := hc.toConn
      simp only [hm, MainPc.toConn, Int.add_zero] at this
      obtain ⟨i, hi⟩ := count_pos.mp (show 0 < count fun i ↦ s.flags i = .fresh by omega)
      exact absurd hi (hbefore i (by omega))
  | connecting i =>
    simp only [mainNext, hm, Option.some.injEq] at h
    subst h
    exact connecting_inv hc hat' hm
  | create i =>
    simp only [mainNext, hm, Option.some.injEq] at h
    subst h
    exact create_inv hc hat' hm
  | setTid i =>
    rw [hm] at hheld hat
    simp only [mainNext, hm, Option.some.injEq] at h
    subst h
    refine ⟨⟨fun j _ ↦ hc.fits j (by simp [hm]), fun j hj _ ↦ ?_, ?_, ?_, ?_, ?_, ?_, hheld,
      hc.thread⟩, hat⟩
    · by_cases hji : j = i
      · subst hji
        simp
      · simpa [hji] using hc.tids j hj (by simpa [hm] using Ne.symm hji)
    · simpa [hm] using hc.joins
    · simpa [hm] using hc.toConn
    · simpa [hm] using hc.conn
    · simpa [hm] using hc.toRead
    · simpa [hm] using hc.done
  | incConn i =>
    rw [hm] at hheld hat
    simp only [mainNext, hm, Option.some.injEq] at h
    subst h
    exact ⟨core_goto hc rfl hheld, hat⟩
  | decToConn i =>
    rw [hm] at hheld hat
    simp only [mainNext, hm, Option.some.injEq] at h
    subst h
    exact ⟨core_goto hc rfl hheld, hat⟩
  | lock =>
    rw [hm] at hat
    simp only [mainNext, hm, Option.ite_none_right_eq_some, Option.some.injEq] at h
    obtain ⟨hfree, h⟩ := h
    subst h
    exact ⟨core_goto hc rfl (by simp), hat⟩
  | waitTest =>
    rw [hm] at hheld hat
    have hmine : s.mutex = some .main := hheld.mpr trivial
    simp only [mainNext, hm] at h
    split at h
    · next h0 =>
      cases h
      exact ⟨core_goto hc rfl (by simp), hat, fun _ ↦ .inl h0⟩
    · cases h
      exact ⟨core_goto hc rfl hheld, trivial⟩
  | waiting =>
    rw [hm] at hat
    simp only [mainNext, hm, Option.ite_none_right_eq_some, Option.some.injEq] at h
    obtain ⟨⟨-, hfree⟩, h⟩ := h
    subst h
    exact ⟨core_goto hc rfl (by simp), hat.1⟩
  | scan j =>
    rw [hm] at hheld
    have hmine : s.mutex = some .main := hheld.mpr trivial
    simp only [mainNext, hm] at h
    split at h
    · next hj =>
      cases h
      split
      · next hdone =>
        refine ⟨core_goto hc rfl hheld, hdone, ?_⟩
        -- the thread has set its flag, is not before the lock and cannot hold it
        have hfit := hc.fits ⟨j, hj⟩ (by simp [hm])
        have hlock : s.thread ⟨j, hj⟩ ≠ .lock := hok ⟨j, hj⟩ hm
        have hhold : ¬ (s.thread ⟨j, hj⟩).Holds := by
          rw [← hc.thread, hmine]
          simp
        rw [hdone] at hfit
        dsimp only
        cases hp : s.thread ⟨j, hj⟩ <;> simp [hp, Flag.Fits, ThreadPc.Holds] at hfit hlock hhold ⊢
      · exact ⟨core_goto hc rfl hheld, trivial⟩
    · cases h
      exact ⟨core_goto hc rfl hheld, trivial⟩
  | join i =>
    rw [hm] at hheld hat
    obtain ⟨hdone, hfin⟩ := hat
    have htid : s.tid i = some i := hc.tids i (by simp [hfin]) (by simp [hm])
    simp only [mainNext, hm, htid, hfin, if_true, Option.some.injEq] at h
    subst h
    refine ⟨⟨fun j _ ↦ hc.fits j (by simp [hm]), fun j hj _ ↦ hc.tids j hj (by simp [hm]), ?_,
      ?_, ?_, ?_, ?_, hheld, hc.thread⟩, hdone, hfin⟩
    · intro j
      have := hc.joins j
      by_cases hji : j = i
      · subst hji
        simpa [hm, hdone] using this
      · simpa [hm, hji, Ne.symm hji] using this
    · simpa [hm] using hc.toConn
    · simpa [hm] using hc.conn
    · simpa [hm] using hc.toRead
    · simpa [hm] using hc.done
  | setJoined i =>
    simp only [mainNext, hm, Option.some.injEq] at h
    subst h
    exact ⟨setJoined_inv hc hat' hm, trivial⟩
  | decDone i =>
    rw [hm] at hheld
    simp only [mainNext, hm, Option.some.injEq] at h
    subst h
    exact ⟨core_goto hc rfl hheld, trivial⟩
  | decConn i =>
    rw [hm] at hheld
    simp only [mainNext, hm, Option.some.injEq] at h
    subst h
    exact ⟨core_goto hc rfl hheld, trivial⟩
  | decToRead i =>
    rw [hm] at hheld
    simp only [mainNext, hm, Option.some.injEq] at h
    subst h
    exact ⟨core_goto hc rfl hheld, trivial⟩
  | unlock =>
    rw [hm] at hheld
    have hmine : s.mutex = some .main := hheld.mpr trivial
    simp only [mainNext, hm, Option.some.injEq] at h
    subst h
    exact ⟨core_goto hc rfl (by simp), trivial⟩
  | exit => simp [mainNext, hm] at h
  | quit => simp [mainNext, hm] at h

/-- Every step keeps the invariant. -/
private theorem step_inv {maxnconn : Int} (hmax : 1 ≤ maxnconn) {s t : Web n} {a : WebAct n}
    (hi : s.Core ∧ s.At) (hok : s.JoinsCounted a) (h : s.Step maxnconn a t) : t.Core ∧ t.At := by
  obtain ⟨hc, hat⟩ := hi
  cases a with
  | main => exact mainNext_inv hmax hc hat hok h
  | thread i eof => exact threadNext_inv hc hat h
  | wakeup =>
    obtain ⟨hm, h⟩ := Option.ite_none_right_eq_some.mp h
    cases h
    refine ⟨⟨hc.fits, hc.tids, hc.joins, hc.toConn, hc.conn, hc.toRead, hc.done, hc.main,
      hc.thread⟩, ?_⟩
    unfold At at hat ⊢
    dsimp only
    rw [hm] at hat ⊢
    exact ⟨hat.1, nofun⟩

/-! ### Progress -/

/-- A thread goes on unless it waits for the mutex. -/
private theorem thread_goes_on {s : Web n} {maxnconn : Int} (i : Fin n)
    (habsent : s.thread i ≠ .absent) (hfin : s.thread i ≠ .finished)
    (hlock : s.thread i = .lock → s.mutex = none) : ¬ s.Stuck maxnconn := by
  intro hstuck
  have h : s.threadNext i true = none := hstuck (.thread i true) nofun
  cases hp : s.thread i with
  | absent => exact habsent hp
  | finished => exact hfin hp
  | lock => simp [threadNext, hp, hlock hp] at h
  | _ => simp [threadNext, hp] at h

/-- A thread that holds the mutex goes on. -/
private theorem holder_goes_on {s : Web n} {maxnconn : Int} (i : Fin n)
    (h : (s.thread i).Holds) : ¬ s.Stuck maxnconn := by
  apply thread_goes_on i
  · intro hp
    simp [hp, ThreadPc.Holds] at h
  · intro hp
    simp [hp, ThreadPc.Holds] at h
  · intro hp
    simp [hp, ThreadPc.Holds] at h

/-- When `main` is not in the loop that joins, the mutex is free or its holder goes on. -/
private theorem mutex_free {s : Web n} {maxnconn : Int} (hc : s.Core) (hm : ¬ s.main.Holds)
    (hstuck : s.Stuck maxnconn) : s.mutex = none := by
  cases hx : s.mutex with
  | none => rfl
  | some x =>
    cases x with
    | main => exact absurd (hc.main.mp hx) hm
    | thread i => exact absurd hstuck (holder_goes_on i ((hc.thread i).mp hx))

/-- While `main` waits for a thread to come to its end, that thread or another goes on. -/
private theorem waiting_goes_on {s : Web n} {maxnconn : Int} (hc : s.Core) (hat : s.At)
    (hm : s.main = .waiting) : ¬ s.Stuck maxnconn := by
  intro hstuck
  have hfree : s.mutex = none := mutex_free hc (by simp [hm]) hstuck
  have hnext : s.mainNext maxnconn = none := hstuck .main nofun
  unfold At at hat
  rw [hm] at hat
  obtain ⟨hconn, hsleep⟩ := hat
  by_cases hw : s.woken = true
  · simp [mainNext, hm, hw, hfree] at hnext
  rcases hsleep (by simpa using hw) with h0 | ⟨i, hi⟩
  · -- an open connection, of which the thread is not counted
    have hopen := hc.conn
    have hdone := hc.done
    simp only [hm, MainPc.conn, MainPc.done, Int.add_zero] at hopen hdone
    obtain ⟨i, hi⟩ := count_pos.mp
      (show 0 < count fun i ↦ s.flags i ≠ .fresh ∧ s.flags i ≠ .joined by omega)
    have hnone := count_eq_zero.mp
      (show count (fun i ↦ s.flags i = .done ∧ (s.thread i).Counted = true) = 0 by omega) i
    have hfit := hc.fits i (by simp [hm])
    refine thread_goes_on i ?_ ?_ (fun _ ↦ hfree) hstuck
    · intro hp
      cases hf : s.flags i <;> simp [hf, hp, Flag.Fits] at hi hfit
    · intro hp
      cases hf : s.flags i <;> simp [hf, hp, Flag.Fits, ThreadPc.Counted] at hi hfit hnone
  · exact holder_goes_on i (by simp [hi, ThreadPc.Holds]) hstuck

/-- Somebody goes on until `main` has left its loop. -/
private theorem goes_on {s : Web n} {maxnconn : Int} (hc : s.Core) (hat : s.At)
    (hm : s.main ≠ .exit) : ¬ s.Stuck maxnconn := by
  intro hstuck
  have hnext : s.mainNext maxnconn = none := hstuck .main nofun
  have hat' := hat
  unfold At at hat
  cases hp : s.main with
  | waiting => exact waiting_goes_on hc hat' hp hstuck
  | exit => exact hm hp
  | quit =>
    rw [hp] at hat
    exact hat
  | lock =>
    have hfree : s.mutex = none := mutex_free hc (by simp [hp]) hstuck
    simp [mainNext, hp, hfree] at hnext
  | join i =>
    rw [hp] at hat
    have htid : s.tid i = some i := hc.tids i (by simp [hat.2]) (by simp [hp])
    simp [mainNext, hp, htid, hat.2] at hnext
  | find j => by_cases hj : j < n <;> simp [mainNext, hp, hj] at hnext
  | scan j => by_cases hj : j < n <;> simp [mainNext, hp, hj] at hnext
  | waitTest => by_cases h0 : s.ndone = 0 <;> simp [mainNext, hp, h0] at hnext
  | _ => simp [mainNext, hp] at hnext

/-- With at least one connection allowed, in a run in which `main` comes to no flag of a thread
that still has to count itself, somebody goes on until `main` has left its loop, no thread is
joined twice, `ndone` is not negative, and in the end every file is joined, once. -/
theorem comes_to_end {maxnconn : Int} (hmax : 1 ≤ maxnconn) {s : Web n}
    (h : RunWith (Step maxnconn) JoinsCounted (start n) s) :
    (s.main ≠ .exit → ¬ s.Stuck maxnconn) ∧ (∀ i, s.joins i ≤ 1) ∧ 0 ≤ s.ndone ∧
      (s.main = .exit → ∀ i, s.flags i = .joined ∧ s.thread i = .finished ∧ s.joins i = 1) := by
  have hinv : s.Core ∧ s.At := by
    refine RunWith.preserves (I := fun s : Web n ↦ s.Core ∧ s.At) ?_ h ⟨start_core, trivial⟩
    exact fun _ _ _ hi hok hs ↦ step_inv hmax hi hok hs
  obtain ⟨hc, hat⟩ := hinv
  refine ⟨goes_on hc hat, fun i ↦ ?_, ?_, fun hm i ↦ ?_⟩
  · rw [hc.joins i]
    split <;> omega
  · have := s.main.done_nonneg
    rw [hc.done]
    omega
  · unfold At at hat
    rw [hm] at hat
    have hleft := hc.toRead
    simp only [hm, MainPc.toRead, Int.add_zero] at hleft
    have hall := count_eq_zero.mp (show count (fun i ↦ s.flags i ≠ .joined) = 0 by
      change s.nlefttoread ≤ 0 at hat
      omega) i
    have hjoined : s.flags i = .joined := by simpa using hall
    have hfit := hc.fits i (by simp [hm])
    rw [hjoined] at hfit
    exact ⟨hjoined, hfit, by rw [hc.joins i, if_pos (.inl hjoined)]⟩

/-! ### A thread that is joined too early -/

/-- Two threads are created and the first one comes to its end. `main` joins it, and the second
thread sets `F_DONE` before `main` comes to its flag. -/
private def joinsTooEarly : List (WebAct 2) :=
  List.replicate 17 .main ++ List.replicate 7 (.thread 0 true) ++ List.replicate 8 .main ++
    List.replicate 3 (.thread 1 true) ++ [.main]

/-- `main` holds the mutex and waits for the second thread, which waits for the mutex. -/
theorem deadlock : ∃ s, Run (Step 2) (start 2) s ∧ s.main ≠ .exit ∧ s.Stuck 2 := by
  have h : (playActs (step 2) (start 2) joinsTooEarly).map (fun s ↦
      (s.main, s.thread 0, s.thread 1, s.tid 1, s.mutex)) =
      some (.join 1, .finished, .lock, some 1, some .main) := by decide
  obtain ⟨s, hs, he⟩ := Option.map_eq_some_iff.mp h
  simp only [Prod.mk.injEq] at he
  obtain ⟨hm, h0, h1, htid, hmutex⟩ := he
  refine ⟨s, run_of_playActs hs, by simp [hm], fun a ha ↦ ?_⟩
  cases a with
  | main => simp [step, mainNext, hm, htid, h1]
  | wakeup => exact absurd rfl ha
  | thread i eof =>
    match i with
    | 0 => simp [step, threadNext, h0]
    | 1 => simp [step, threadNext, h1, hmutex]

/-- The test of a step of `main` in a list of steps. -/
private def joinsCounted (s : Web n) : WebAct n → Bool
  | .main =>
    match s.main with
    | .scan i => if h : i < n then s.thread ⟨i, h⟩ ≠ .lock else true
    | _ => true
  | _ => true

private theorem joinsCounted_spec (s : Web n) (a : WebAct n) (h : joinsCounted s a = true) :
    s.JoinsCounted a := by
  cases a with
  | main =>
    intro i hm
    simpa [joinsCounted, hm] using h
  | _ => trivial

/-- One file is read, and `main` leaves its loop. -/
theorem one_file_read : ∃ s, Run (Step 1) (start 1) s ∧ s.main = .exit ∧ 0 ≤ s.ndone ∧
    ∀ i, s.flags i = .joined ∧ s.thread i = .finished ∧ s.joins i = 1 := by
  have h : (playActs (guarded joinsCounted (step 1)) (start 1)
      (List.replicate 9 .main ++ List.replicate 7 (.thread 0 true) ++ List.replicate 11 .main)).map
      Web.main = some .exit := by decide
  obtain ⟨s, hs, hm⟩ := Option.map_eq_some_iff.mp h
  have hrun : RunWith (Step 1) JoinsCounted (start 1) s :=
    runWith_of_playActs joinsCounted_spec hs
  obtain ⟨-, -, hdone, hend⟩ := comes_to_end (by decide) hrun
  exact ⟨s, hrun.mono fun _ _ _ ↦ True.intro, hm, hdone, hend hm⟩

end Web
end Unpv13e.Threads
