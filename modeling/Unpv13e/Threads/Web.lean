import Unpv13e.Base.Count
import Unpv13e.Base.Runs

/-!
# The threaded web client

Library `Threads`. `main` and the threads `do_get_read` of `src/threads/web03.c:31–142`, for any
number of files. Every lock, unlock, wait, signal, join and every change of a flag or a counter
is one step. What a thread does with its own socket before it sets `F_READING` is part of that
step; the thread of a file is named by the file.
-/

namespace Unpv13e.Threads
open Unpv13e.Base

/-- `f_flags`, `src/threads/web03.c:14–17`. `fresh` is the value 0. -/
inductive Flag
  | fresh
  | connecting
  | reading
  | done
  | joined
  deriving DecidableEq

/-- Where `main` is, `src/threads/web03.c:55–92`. -/
inductive MainPc (n : Nat)
  /-- `while (nlefttoread > 0)` -/
  | loop
  /-- `while (nconn < maxnconn && nlefttoconn > 0)` -/
  | connTest
  /-- the search for a file to read, at index `i` -/
  | find (i : Nat)
  /-- `file[i].f_flags = F_CONNECTING` -/
  | connecting (i : Fin n)
  /-- `Pthread_create` -/
  | create (i : Fin n)
  /-- `file[i].f_tid = tid` -/
  | setTid (i : Fin n)
  /-- `nconn++` -/
  | incConn (i : Fin n)
  /-- `nlefttoconn--` -/
  | decToConn (i : Fin n)
  /-- `Pthread_mutex_lock` -/
  | lock
  /-- `while (ndone == 0)` -/
  | waitTest
  /-- inside `Pthread_cond_wait`, the mutex released -/
  | waiting
  /-- the `for` loop after it, at index `i` -/
  | scan (i : Nat)
  /-- `Pthread_join(file[i].f_tid, &fptr)` and the test of `fptr` -/
  | join (i : Fin n)
  /-- `fptr->f_flags = F_JOINED` -/
  | setJoined (i : Fin n)
  /-- `ndone--` -/
  | decDone (i : Fin n)
  /-- `nconn--` -/
  | decConn (i : Fin n)
  /-- `nlefttoread--` -/
  | decToRead (i : Fin n)
  /-- `Pthread_mutex_unlock` -/
  | unlock
  /-- `exit(0)` -/
  | exit
  /-- `err_quit` -/
  | quit
  deriving DecidableEq

/-- Where a thread `do_get_read` is, `src/threads/web03.c:96–129`. -/
inductive ThreadPc
  /-- not created -/
  | absent
  /-- up to `fptr->f_flags = F_READING` in `write_get_cmd` -/
  | connect
  /-- the loop that reads the reply -/
  | read
  /-- `fptr->f_flags = F_DONE` -/
  | setDone
  /-- `Pthread_mutex_lock` -/
  | lock
  /-- `ndone++` -/
  | count
  /-- `Pthread_cond_signal` -/
  | signal
  /-- `Pthread_mutex_unlock` -/
  | unlock
  /-- it has returned `fptr` -/
  | finished
  deriving DecidableEq

/-- Who holds `ndone_mutex`. -/
inductive Holder (n : Nat)
  | main
  | thread (i : Fin n)
  deriving DecidableEq

/-- The client with `n` files. -/
structure Web (n : Nat) where
  main : MainPc n
  flags : Fin n → Flag
  tid : Fin n → Option (Fin n)
  thread : Fin n → ThreadPc
  nconn : Int
  nlefttoconn : Int
  nlefttoread : Int
  ndone : Int
  mutex : Option (Holder n)
  /-- the wait of `main` on `ndone_cond` is over -/
  woken : Bool
  /-- how often the thread was joined, not a variable of the code -/
  joins : Fin n → Nat

/-- A step of the client. -/
inductive WebAct (n : Nat)
  | main
  /-- `Pthread_cond_wait` returns without a signal -/
  | wakeup
  /-- a step of a thread; in its loop, `Read` returns data or the end of the file -/
  | thread (i : Fin n) (eof : Bool)
  deriving DecidableEq

namespace Web
variable {n : Nat}

/-- Before the loop of `main`, `src/threads/web03.c:42–53`. -/
def start (n : Nat) : Web n where
  main := .loop
  flags _ := .fresh
  tid _ := none
  thread _ := .absent
  nconn := 0
  nlefttoconn := n
  nlefttoread := n
  ndone := 0
  mutex := none
  woken := false
  joins _ := 0

/-- `file[i].f_flags = flag` -/
def setFlag (i : Fin n) (flag : Flag) (s : Web n) : Web n :=
  { s with flags := Function.update s.flags i flag }

/-- The thread of file `i` goes on at `pc`. -/
def setThread (i : Fin n) (pc : ThreadPc) (s : Web n) : Web n :=
  { s with thread := Function.update s.thread i pc }

/-- The next step of `main`. -/
def mainNext (maxnconn : Int) (s : Web n) : Option (Web n) :=
  match s.main with
  | .loop => some { s with main := if 0 < s.nlefttoread then .connTest else .exit }
  | .connTest =>
    some { s with main := if s.nconn < maxnconn ∧ 0 < s.nlefttoconn then .find 0 else .lock }
  | .find i =>
    if h : i < n then
      some { s with main := if s.flags ⟨i, h⟩ = .fresh then .connecting ⟨i, h⟩ else .find (i + 1) }
    else some { s with main := .quit }
  | .connecting i => some { s.setFlag i .connecting with main := .create i }
  | .create i => some { s.setThread i .connect with main := .setTid i }
  | .setTid i => some { s with tid := Function.update s.tid i (some i), main := .incConn i }
  | .incConn i => some { s with nconn := s.nconn + 1, main := .decToConn i }
  | .decToConn _ => some { s with nlefttoconn := s.nlefttoconn - 1, main := .connTest }
  | .lock =>
    if s.mutex = none then some { s with mutex := some .main, main := .waitTest } else none
  | .waitTest =>
    if s.ndone = 0 then some { s with mutex := none, woken := false, main := .waiting }
    else some { s with main := .scan 0 }
  | .waiting =>
    if s.woken = true ∧ s.mutex = none then some { s with mutex := some .main, main := .waitTest }
    else none
  | .scan i =>
    if h : i < n then
      some { s with main := if s.flags ⟨i, h⟩ = .done then .join ⟨i, h⟩ else .scan (i + 1) }
    else some { s with main := .unlock }
  | .join i =>
    match s.tid i with
    | none => none
    | some j =>
      if s.thread j = .finished then
        some { s with
          joins := Function.update s.joins j (s.joins j + 1)
          main := if i = j then .setJoined j else .quit }
      else none
  | .setJoined i => some { s.setFlag i .joined with main := .decDone i }
  | .decDone i => some { s with ndone := s.ndone - 1, main := .decConn i }
  | .decConn i => some { s with nconn := s.nconn - 1, main := .decToRead i }
  | .decToRead i => some { s with nlefttoread := s.nlefttoread - 1, main := .scan (i.val + 1) }
  | .unlock => some { s with mutex := none, main := .loop }
  | .exit => none
  | .quit => none

/-- The next step of the thread of file `i`. -/
def threadNext (i : Fin n) (eof : Bool) (s : Web n) : Option (Web n) :=
  match s.thread i with
  | .absent => none
  | .connect => some ((s.setFlag i .reading).setThread i .read)
  | .read => some (if eof then s.setThread i .setDone else s)
  | .setDone => some ((s.setFlag i .done).setThread i .lock)
  | .lock =>
    if s.mutex = none then some { s.setThread i .count with mutex := some (.thread i) } else none
  | .count => some { s.setThread i .signal with ndone := s.ndone + 1 }
  | .signal => some { s.setThread i .unlock with woken := s.woken || (s.main = .waiting) }
  | .unlock => some { s.setThread i .finished with mutex := none }
  | .finished => none

/-- One step. -/
def step (maxnconn : Int) (s : Web n) : WebAct n → Option (Web n)
  | .main => s.mainNext maxnconn
  | .wakeup => if s.main = .waiting then some { s with woken := true } else none
  | .thread i eof => s.threadNext i eof

/-- The step as a relation. -/
def Step (maxnconn : Int) (s : Web n) (a : WebAct n) (t : Web n) : Prop := s.step maxnconn a = some t

/-- Nobody can go on, unless a wait is broken off for no reason. -/
def Stuck (maxnconn : Int) (s : Web n) : Prop := ∀ a, a ≠ .wakeup → s.step maxnconn a = none

/-- `main` does not come to the flag of a file whose thread has set `F_DONE` and has not yet taken
the mutex. -/
def JoinsCounted (s : Web n) : WebAct n → Prop
  | .main => ∀ i, s.main = .scan i.val → s.thread i ≠ .lock
  | _ => True

end Web
end Unpv13e.Threads
