import Unpv13e.Base.Runs

/-!
# Children that end

Library `Tcpcliserv`. The parent of `src/tcpcliserv/tcpserv02.c`, `tcpserv03.c` and `tcpserv04.c`, which forks a
child for each connection, and the handlers of `src/tcpcliserv/sigchldwait.c` and `sigchldwaitpid.c`. SIGCHLD is
blocked in its handler, and pending once however many children have ended. Which children are reaped, and what
becomes of the `accept` that is interrupted.
-/

namespace Unpv13e.Tcpcliserv
open Unpv13e.Base

/-- The versions of the server. -/
structure Version where
  /-- the handler calls `waitpid` in a loop, and not `wait` once -/
  loop : Bool
  /-- `EINTR` from `accept` goes back to `for ( ; ; )`, and not to `err_sys` -/
  retry : Bool
  /-- `SA_RESTART` is defined, `src/lib/signal.c:15–17` -/
  restart : Bool

def tcpserv02 (restart : Bool) : Version := ⟨false, false, restart⟩

def tcpserv03 (restart : Bool) : Version := ⟨false, true, restart⟩

def tcpserv04 (restart : Bool) : Version := ⟨true, true, restart⟩

/-- Where the parent is. -/
inductive Pc
  /-- before `accept` -/
  | call
  /-- in `accept` -/
  | accept
  /-- at `Fork` -/
  | fork
  /-- at `Close(connfd)` -/
  | close
  /-- `err_sys` -/
  | exited
  deriving DecidableEq

/-- Where the handler is; `none` stands for -1. -/
inductive Handler
  | idle
  /-- at `wait` or `waitpid` -/
  | wait
  /-- at `printf` -/
  | print (pid : Option Nat)
  deriving DecidableEq

/-- The parent and its children. -/
structure State where
  pc : Pc
  handler : Handler
  /-- the handler has interrupted `accept` -/
  eintr : Bool
  pending : Bool
  forked : List Nat
  live : List Nat
  zombies : List Nat
  printed : List (Option Nat)
  deriving DecidableEq

def start : State := ⟨.call, .idle, false, false, [], [], [], []⟩

/-- A signal is taken, or its handler runs. -/
def State.busy (s : State) : Bool := s.pending || s.handler ≠ .idle

/-- The handler returns. -/
def State.resume (v : Version) (s : State) : State :=
  { s with
    handler := .idle
    eintr := false
    pc := if s.eintr then if v.restart then .accept else if v.retry then .call else .exited else s.pc }

/-- What happens next. -/
inductive Act
  /-- the parent's next statement -/
  | run
  /-- `accept` returns a connection -/
  | connect
  /-- `Fork` returns a process id in the parent -/
  | fork (pid : Nat)
  /-- a child ends -/
  | exit (pid : Nat)
  /-- the handler is called -/
  | deliver
  /-- the handler's next statement; `wait` and `waitpid` take this child -/
  | handle (pid : Nat)
  deriving DecidableEq

/-- The next step. -/
def step (v : Version) (s : State) : Act → Option State
  | .run =>
    if s.busy then none
    else
      match s.pc with
      | .call => some { s with pc := .accept }
      | .close => some { s with pc := .call }
      | _ => none
  | .connect => if s.pc = .accept ∧ s.handler = .idle then some { s with pc := .fork } else none
  | .fork pid =>
    if s.pc = .fork ∧ s.busy = false ∧ 0 < pid ∧ pid ∉ s.live ∧ pid ∉ s.zombies then
      some { s with pc := .close, forked := s.forked ++ [pid], live := s.live ++ [pid] }
    else none
  | .exit pid =>
    if s.pc ≠ .exited ∧ pid ∈ s.live then
      some { s with live := s.live.erase pid, zombies := s.zombies ++ [pid], pending := true }
    else none
  | .deliver =>
    if s.pending = true ∧ s.handler = .idle ∧ s.pc ≠ .exited then
      some { s with pending := false, handler := .wait, eintr := s.pc = .accept }
    else none
  | .handle pid =>
    match s.handler with
    | .idle => none
    | .wait =>
      if s.zombies = [] then
        -- `waitpid` returns 0 or -1; `wait` waits, or returns -1.
        if v.loop then some (s.resume v)
        else if s.live = [] then some { s with handler := .print none }
        else none
      else if pid ∈ s.zombies then
        some { s with zombies := s.zombies.erase pid, handler := .print (some pid) }
      else none
    | .print got =>
      let t := { s with printed := s.printed ++ [got] }
      some (if v.loop then { t with handler := .wait } else t.resume v)

/-- The step as a relation. -/
abbrev Step (v : Version) (s : State) (a : Act) (t : State) : Prop := step v s a = some t

/-- What a step does. -/
inductive Does (v : Version) (s : State) : Act → State → Prop
  | call : s.busy = false → s.pc = .call → Does v s .run { s with pc := .accept }
  | close : s.busy = false → s.pc = .close → Does v s .run { s with pc := .call }
  | connect : s.pc = .accept → s.handler = .idle → Does v s .connect { s with pc := .fork }
  | fork (pid : Nat) : s.pc = .fork → s.busy = false →
      Does v s (.fork pid) { s with pc := .close, forked := s.forked ++ [pid], live := s.live ++ [pid] }
  | exit (pid : Nat) : s.pc ≠ .exited → pid ∈ s.live →
      Does v s (.exit pid) { s with live := s.live.erase pid, zombies := s.zombies ++ [pid], pending := true }
  | deliver : s.pending = true → s.handler = .idle → s.pc ≠ .exited →
      Does v s .deliver { s with pending := false, handler := .wait, eintr := s.pc = .accept }
  | empty (pid : Nat) : s.handler = .wait → s.zombies = [] → v.loop = true → Does v s (.handle pid) (s.resume v)
  | error (pid : Nat) : s.handler = .wait → s.zombies = [] → v.loop = false → s.live = [] →
      Does v s (.handle pid) { s with handler := .print none }
  | reap (pid : Nat) : s.handler = .wait → pid ∈ s.zombies →
      Does v s (.handle pid) { s with zombies := s.zombies.erase pid, handler := .print (some pid) }
  | printAgain (pid : Nat) (got : Option Nat) : s.handler = .print got → v.loop = true →
      Does v s (.handle pid) { s with printed := s.printed ++ [got], handler := .wait }
  | print (pid : Nat) (got : Option Nat) : s.handler = .print got → v.loop = false →
      Does v s (.handle pid) (State.resume v { s with printed := s.printed ++ [got] })

theorem does_of_step {v : Version} {s t : State} {a : Act} (h : Step v s a t) : Does v s a t := by
  unfold Step step at h
  cases a with
  | run =>
    obtain ⟨hbusy, h⟩ := Option.ite_none_left_eq_some.mp h
    have hfree : s.busy = false := Bool.eq_false_iff.mpr hbusy
    split at h
    · next hpc => cases h; exact .call hfree hpc
    · next hpc => cases h; exact .close hfree hpc
    · cases h
  | connect =>
    obtain ⟨⟨hpc, hidle⟩, h⟩ := Option.ite_none_right_eq_some.mp h
    cases h
    exact .connect hpc hidle
  | fork pid =>
    obtain ⟨⟨hpc, hfree, -⟩, h⟩ := Option.ite_none_right_eq_some.mp h
    cases h
    exact .fork pid hpc hfree
  | exit pid =>
    obtain ⟨⟨hpc, hlive⟩, h⟩ := Option.ite_none_right_eq_some.mp h
    cases h
    exact .exit pid hpc hlive
  | deliver =>
    obtain ⟨⟨hpending, hidle, hpc⟩, h⟩ := Option.ite_none_right_eq_some.mp h
    cases h
    exact .deliver hpending hidle hpc
  | handle pid =>
    simp only at h
    split at h
    · cases h
    · next hwait =>
      split at h
      · next hnil =>
        split at h
        · next hloop => cases h; exact .empty pid hwait hnil hloop
        · next hloop =>
          obtain ⟨hlive, h⟩ := Option.ite_none_right_eq_some.mp h
          cases h
          exact .error pid hwait hnil (Bool.eq_false_iff.mpr hloop) hlive
      · obtain ⟨hmem, h⟩ := Option.ite_none_right_eq_some.mp h
        cases h
        exact .reap pid hwait hmem
    · next got hprint =>
      cases hloop : v.loop with
      | true =>
        rw [hloop] at h
        cases h
        exact .printAgain pid got hprint hloop
      | false =>
        rw [hloop] at h
        cases h
        exact .print pid got hprint hloop

/-! ### What every version keeps -/

/-- The child that has been reaped and not been printed. -/
def Handler.pids : Handler → List Nat
  | .print (some pid) => [pid]
  | _ => []

/-- Which children are where: each is live, a zombie, at hand or printed. -/
def State.accounted (s : State) : List Nat := s.printed.filterMap id ++ s.handler.pids ++ s.zombies ++ s.live

/-- What holds in every state. -/
structure Kept (v : Version) (s : State) : Prop where
  perm : s.accounted.Perm s.forked
  printed : none ∉ s.printed
  handler : s.handler ≠ .print none
  /-- a signal stands for a zombie -/
  due : v.loop = false → s.pending.toNat + (decide (s.handler = .wait)).toNat ≤ s.zombies.length
  /-- a zombie stands for a signal -/
  left : v.loop = true → s.zombies ≠ [] → s.pending = true ∨ s.handler ≠ .idle
  first : s.live.length < s.forked.length → s.busy = true ∨ s.printed ≠ []
  exited : s.pc = .exited → v.retry = false ∧ v.restart = false

variable {v : Version} {s t : State} {a : Act}

theorem kept_start : Kept v start where
  perm := List.Perm.refl _
  printed := List.not_mem_nil
  handler := Handler.noConfusion
  due := fun _ ↦ Nat.le_refl 0
  left := fun _ h ↦ absurd rfl h
  first := fun h ↦ absurd h (Nat.lt_irrefl 0)
  exited := fun h ↦ by cases h

theorem exited_resume (hexited : s.pc = .exited → v.retry = false ∧ v.restart = false)
    (h : (s.resume v).pc = .exited) : v.retry = false ∧ v.restart = false := by
  unfold State.resume at h
  cases heintr : s.eintr with
  | false =>
    rw [heintr] at h
    exact hexited h
  | true =>
    rw [heintr] at h
    cases hrestart : v.restart with
    | true =>
      rw [hrestart] at h
      cases h
    | false =>
      rw [hrestart] at h
      cases hretry : v.retry with
      | true =>
        rw [hretry] at h
        cases h
      | false => exact ⟨rfl, rfl⟩

/-- What has been printed and reaped makes up for the children that are gone. -/
theorem Kept.printed_ne_nil (h : Kept v s) (hzombies : s.zombies = []) (hpids : s.handler.pids = [])
    (hgone : s.live.length < s.forked.length) : s.printed ≠ [] := by
  intro hnil
  have hlen := h.perm.length_eq
  simp only [State.accounted, hzombies, hpids, hnil, List.filterMap_nil, List.nil_append] at hlen
  omega

theorem Kept.does (h : Kept v s) (hd : Does v s a t) : Kept v t := by
  have hperm := h.perm
  unfold State.accounted at hperm
  cases hd with
  | call hbusy hpc => exact ⟨h.perm, h.printed, h.handler, h.due, h.left, h.first, fun he ↦ by cases he⟩
  | close hbusy hpc => exact ⟨h.perm, h.printed, h.handler, h.due, h.left, h.first, fun he ↦ by cases he⟩
  | connect hpc hidle => exact ⟨h.perm, h.printed, h.handler, h.due, h.left, h.first, fun he ↦ by cases he⟩
  | fork pid hpc hbusy =>
    refine ⟨?_, h.printed, h.handler, h.due, h.left, fun hgone ↦ h.first ?_, fun he ↦ by cases he⟩
    · simp only [State.accounted, ← List.append_assoc]
      exact hperm.append_right [pid]
    · simpa using hgone
  | exit pid hpc hlive =>
    refine ⟨?_, h.printed, h.handler, fun hloop ↦ ?_, fun _ _ ↦ .inl rfl, fun _ ↦ .inl rfl, h.exited⟩
    · simp only [State.accounted, List.append_assoc, List.singleton_append] at hperm ⊢
      refine List.Perm.trans ?_ hperm
      exact (((List.perm_cons_erase hlive).symm.append_left _).append_left _).append_left _
    · have := h.due hloop
      simp only [Bool.toNat_true, List.length_append, List.length_singleton]
      omega
  | deliver hpending hidle hpc =>
    refine ⟨?_, h.printed, Handler.noConfusion, fun hloop ↦ ?_, fun _ _ ↦ .inr Handler.noConfusion,
      fun _ ↦ .inl rfl, h.exited⟩
    · rw [hidle] at hperm
      exact hperm
    · have := h.due hloop
      simpa [hpending, hidle] using this
  | empty pid hwait hnil hloop =>
    have hpids : s.handler.pids = [] := by rw [hwait]; rfl
    refine ⟨?_, h.printed, Handler.noConfusion, fun hno ↦ ?_, fun _ hne ↦ absurd hnil hne, fun hgone ↦ ?_,
      exited_resume h.exited⟩
    · rw [hwait] at hperm
      exact hperm
    · rw [hloop] at hno
      cases hno
    · exact .inr (h.printed_ne_nil hnil hpids hgone)
  | error pid hwait hnil hloop hlive =>
    have := h.due hloop
    rw [hwait, hnil] at this
    simp at this
  | reap pid hwait hmem =>
    refine ⟨?_, h.printed, fun hp ↦ (by cases hp), fun hloop ↦ ?_, fun _ _ ↦ .inr Handler.noConfusion, fun _ ↦ ?_,
      h.exited⟩
    · rw [hwait] at hperm
      simp only [State.accounted, Handler.pids, List.append_nil, List.append_assoc, List.singleton_append]
        at hperm ⊢
      refine List.Perm.trans (List.Perm.append_left _ ?_) hperm
      exact (List.perm_cons_erase hmem).symm.append_right s.live
    · have := h.due hloop
      rw [List.length_erase_of_mem hmem]
      simp only [hwait, decide_true, Bool.toNat_true] at this
      simp only [reduceCtorEq, decide_false, Bool.toNat_false]
      omega
    · left
      simp [State.busy]
  | printAgain pid got hprint hloop =>
    obtain ⟨p, rfl⟩ : ∃ p, got = some p := Option.ne_none_iff_exists'.mp fun hnone ↦ h.handler (hnone ▸ hprint)
    refine ⟨?_, ?_, Handler.noConfusion, fun hno ↦ ?_, fun _ _ ↦ .inr Handler.noConfusion, fun _ ↦ .inl ?_,
      h.exited⟩
    · rw [hprint] at hperm
      simpa [State.accounted, Handler.pids] using hperm
    · simpa using h.printed
    · rw [hloop] at hno
      cases hno
    · simp [State.busy]
  | print pid got hprint hloop =>
    obtain ⟨p, rfl⟩ : ∃ p, got = some p := Option.ne_none_iff_exists'.mp fun hnone ↦ h.handler (hnone ▸ hprint)
    refine ⟨?_, ?_, Handler.noConfusion, fun _ ↦ ?_, fun hno ↦ ?_, fun _ ↦ .inr ?_,
      exited_resume (s := { s with printed := s.printed ++ [some p] }) h.exited⟩
    · rw [hprint] at hperm
      simpa [State.accounted, State.resume, Handler.pids] using hperm
    · simpa [State.resume] using h.printed
    · have := h.due hloop
      simpa [State.resume, hprint] using this
    · rw [hloop] at hno
      cases hno
    · simp [State.resume]

theorem kept_of_run (h : Run (Step v) start s) : Kept v s :=
  h.preserves (fun _ _ _ hk _ hstep ↦ hk.does (does_of_step hstep)) kept_start

theorem map_some_filterMap {l : List (Option Nat)} (h : none ∉ l) : (l.filterMap id).map some = l := by
  induction l with
  | nil => rfl
  | cons got l ih =>
    have htail : none ∉ l := fun hmem ↦ h (List.mem_cons_of_mem _ hmem)
    cases got with
    | none => exact absurd List.mem_cons_self h
    | some pid => exact congrArg (some pid :: ·) (ih htail)

/-! ### `waitpid` -/

/-- With `waitpid` in a loop the handler never waits, and leaves no zombie when no signal is pending; each child is
printed when it has ended, and not twice. -/
theorem waitpid_leaves_none (hloop : v.loop = true) (h : Run (Step v) start s) :
    (s.handler ≠ .idle → ∃ pid t, Step v s (.handle pid) t) ∧
      (s.busy = false → s.zombies = [] ∧ ∃ pids, s.printed = pids.map some ∧ (pids ++ s.live).Perm s.forked) := by
  have hk := kept_of_run h
  constructor
  · intro hbusy
    cases hh : s.handler with
    | idle => exact absurd hh hbusy
    | wait =>
      cases hz : s.zombies with
      | nil => exact ⟨0, s.resume v, by simp [Step, step, hh, hz, hloop]⟩
      | cons pid rest =>
        exact ⟨pid, { s with zombies := s.zombies.erase pid, handler := .print (some pid) },
          by simp [Step, step, hh, hz]⟩
    | print got =>
      exact ⟨0, { s with printed := s.printed ++ [got], handler := .wait }, by simp [Step, step, hh, hloop]⟩
  · intro hfree
    obtain ⟨hpending, hidle⟩ : s.pending = false ∧ s.handler = .idle := by simpa [State.busy] using hfree
    have hzombies : s.zombies = [] := by
      by_contra hne
      rcases hk.left hloop hne with hp | hh
      · rw [hpending] at hp
        cases hp
      · exact hh hidle
    refine ⟨hzombies, s.printed.filterMap id, ?_, ?_⟩
    · exact (map_some_filterMap hk.printed).symm
    · have hperm := hk.perm
      simpa [State.accounted, hidle, hzombies, Handler.pids] using hperm

/-- Two children end before the handler is called. -/
theorem waitpid_leaves_none_two : ∃ s : State, s.forked = [1, 2] ∧ s.live = [] ∧ s.zombies = [] ∧
    ∃ pids, s.printed = pids.map some ∧ (pids ++ s.live).Perm s.forked := by
  let acts : List Act := [.run, .connect, .fork 1, .run, .run, .connect, .fork 2, .exit 2, .exit 1, .deliver,
    .handle 1, .handle 1, .handle 2, .handle 2, .handle 1]
  have hplay : playActs (step (tcpserv04 true)) start acts =
      some ⟨.close, .idle, false, false, [1, 2], [], [], [some 1, some 2]⟩ := by decide
  exact ⟨_, rfl, rfl, (waitpid_leaves_none rfl (run_of_playActs hplay)).2 rfl⟩

/-! ### `wait` -/

/-- Between two calls of `accept`, with no signal. -/
def calm (forked live zombies : List Nat) (printed : List (Option Nat)) : State :=
  ⟨.call, .idle, false, false, forked, live, zombies, printed⟩

/-- With a signal pending. -/
def gone (forked live zombies : List Nat) (printed : List (Option Nat)) : State :=
  ⟨.call, .idle, false, true, forked, live, zombies, printed⟩

section runs
variable {forked live zombies ps : List Nat} {printed : List (Option Nat)} {p : Nat}

theorem run_acts (acts : List Act) (h : playActs (step v) s acts = some t) : Run (Step v) s t := run_of_playActs h

/-- A connection is accepted, and a child forked. -/
theorem run_fork (hpos : 0 < p) (hlive : p ∉ live) :
    Run (Step v) (calm forked live [] printed) (calm (forked ++ [p]) (live ++ [p]) [] printed) := by
  refine run_acts [.run, .connect, .fork p, .run] ?_
  simp [playActs, step, calm, State.busy, hpos, hlive]

theorem run_forks (n : Nat) : Run (Step v) start (calm (List.range' 1 n) (List.range' 1 n) [] []) := by
  induction n with
  | zero => exact RunWith.refl
  | succ n ih =>
    rw [List.range'_1_concat]
    refine RunWith.trans ih (run_fork (by omega) fun hmem ↦ ?_)
    have := List.mem_range'_1.mp hmem
    omega

/-- A child ends. -/
theorem run_exit : Run (Step v) (calm forked (p :: live) [] printed) (gone forked live [p] printed) := by
  refine run_acts [.exit p] ?_
  simp [playActs, step, calm, gone]

/-- More children end before the signal is taken. -/
theorem run_exits : Run (Step v) (gone forked ps zombies printed) (gone forked [] (zombies ++ ps) printed) := by
  induction ps generalizing zombies with
  | nil =>
    rw [List.append_nil]
    exact RunWith.refl
  | cons p ps ih =>
    have hexit : Run (Step v) (gone forked (p :: ps) zombies printed) (gone forked ps (zombies ++ [p]) printed) := by
      refine run_acts [.exit p] ?_
      simp [playActs, step, gone]
    have hrest : Run (Step v) (gone forked ps (zombies ++ [p]) printed)
        (gone forked [] (zombies ++ [p] ++ ps) printed) := ih
    rw [List.append_assoc] at hrest
    exact RunWith.trans hexit hrest

/-- The signal is taken, and one child reaped. -/
theorem run_reap (hloop : v.loop = false) : Run (Step v) (gone forked live (p :: zombies) printed)
    (calm forked live zombies (printed ++ [some p])) := by
  refine run_acts [.deliver, .handle p, .handle p] ?_
  simp [playActs, step, calm, gone, State.resume, hloop]

/-- Children that end one after the other are all reaped. -/
theorem run_reaps (hloop : v.loop = false) : Run (Step v) (calm forked (ps ++ live) [] printed)
    (calm forked live [] (printed ++ ps.map some)) := by
  induction ps generalizing printed with
  | nil =>
    rw [List.map_nil, List.append_nil]
    exact RunWith.refl
  | cons p ps ih =>
    have hrest : Run (Step v) (calm forked (ps ++ live) [] (printed ++ [some p]))
        (calm forked live [] (printed ++ [some p] ++ ps.map some)) := ih
    rw [List.append_assoc] at hrest
    exact RunWith.trans run_exit (RunWith.trans (run_reap hloop) hrest)

/-- Of children that end together one is reaped. -/
theorem run_together (hloop : v.loop = false) : Run (Step v) (calm forked (p :: ps) [] printed)
    (calm forked [] ps (printed ++ [some p])) := by
  have hexits : Run (Step v) (gone forked ps [p] printed) (gone forked [] ([p] ++ ps) printed) := run_exits
  exact RunWith.trans run_exit (RunWith.trans hexits (run_reap hloop))

end runs

/-- The handler is called for one child at least. -/
theorem Kept.zombies_lt (h : Kept v s) (hfree : s.busy = false) (hlive : s.live = []) (hforked : s.forked ≠ []) :
    s.zombies.length < s.forked.length := by
  have hpos := List.length_pos_iff.mpr hforked
  have hlen := h.perm.length_eq
  have hone := congrArg List.length (map_some_filterMap h.printed)
  rcases h.first (by rw [hlive]; exact hpos) with hbusy | hprinted
  · rw [hfree] at hbusy
    cases hbusy
  · have hprintedpos := List.length_pos_iff.mpr hprinted
    simp only [State.accounted, List.length_append, hlive, List.length_nil, List.length_map] at hlen hone
    omega

/-- With `wait` once the handler never waits and never gets an error. Of `n` children that have ended it can leave
any number as zombies but all. The parent can be ended by a child exactly when neither it calls `accept` again
nor the system does. -/
theorem wait_leaves (hloop : v.loop = false) :
    (∀ s, Run (Step v) start s → s.handler = .wait → s.zombies ≠ []) ∧
      (∀ n k, (∃ s, Run (Step v) start s ∧ s.busy = false ∧ s.live = [] ∧ s.forked.length = n ∧
        s.zombies.length = k) ↔ k < n ∨ n = 0 ∧ k = 0) ∧
      ((∃ s, Run (Step v) start s ∧ s.pc = .exited) ↔ v.retry = false ∧ v.restart = false) := by
  refine ⟨fun s hrun hwait hnil ↦ ?_, fun n k ↦ ⟨?_, ?_⟩, ?_, ?_⟩
  · have := (kept_of_run hrun).due hloop
    rw [hwait, hnil] at this
    simp at this
  · rintro ⟨s, hrun, hfree, hlive, rfl, rfl⟩
    have hk := kept_of_run hrun
    by_cases hforked : s.forked = []
    · right
      have hlen := hk.perm.length_eq
      simp only [State.accounted, List.length_append, hforked, List.length_nil] at hlen
      refine ⟨by rw [hforked]; rfl, by omega⟩
    · exact .inl (hk.zombies_lt hfree hlive hforked)
  · rintro (hlt | ⟨rfl, rfl⟩)
    · obtain ⟨m, rfl⟩ : ∃ m, n = m + (k + 1) := ⟨n - (k + 1), by omega⟩
      have hsplit : List.range' 1 (m + (k + 1)) = List.range' 1 m ++ (1 + m) :: List.range' (1 + m + 1) k := by
        rw [← List.range'_append_1, List.range'_succ]
      have hforks := run_forks (v := v) (m + (k + 1))
      have hreaps : Run (Step v)
          (calm (List.range' 1 (m + (k + 1))) (List.range' 1 m ++ (1 + m) :: List.range' (1 + m + 1) k) [] [])
          (calm (List.range' 1 (m + (k + 1))) ((1 + m) :: List.range' (1 + m + 1) k) []
            ([] ++ (List.range' 1 m).map some)) := run_reaps hloop
      rw [← hsplit] at hreaps
      refine ⟨_, RunWith.trans hforks (RunWith.trans hreaps (run_together hloop)), rfl, rfl, ?_, ?_⟩
      · exact List.length_range'
      · exact List.length_range'
    · exact ⟨start, RunWith.refl, rfl, rfl, rfl, rfl⟩
  · rintro ⟨s, hrun, hexited⟩
    exact (kept_of_run hrun).exited hexited
  · rintro ⟨hretry, hrestart⟩
    obtain rfl : v = tcpserv02 false := by
      obtain ⟨loop, retry, restart⟩ := v
      obtain rfl : loop = false := hloop
      obtain rfl : retry = false := hretry
      obtain rfl : restart = false := hrestart
      rfl
    have hplay : playActs (step (tcpserv02 false)) start
        [.run, .connect, .fork 1, .run, .run, .exit 1, .deliver, .handle 1, .handle 1] =
        some ⟨.exited, .idle, false, false, [1], [], [], [some 1]⟩ := by decide
    exact ⟨_, run_acts _ hplay, rfl⟩

/-- Of five children it can leave four. -/
theorem wait_leaves_four : ∃ s, Run (Step (tcpserv03 true)) start s ∧ s.busy = false ∧ s.live = [] ∧
    s.forked.length = 5 ∧ s.zombies.length = 4 :=
  ((wait_leaves (v := tcpserv03 true) rfl).2.1 5 4).mpr (.inl (by decide))

end Unpv13e.Tcpcliserv
