import Unpv13e.Threads.Web

/-!
# The threaded web client that polls

Library `Threads`. `main` and the threads `do_get_read` of `src/threads/web02.c:32–155`, for any
number of files. It differs from `web03.c` in two places: `main` sets `F_CONNECTING` after it has
created the thread, and it looks at `ndone` in every turn of its loop instead of waiting for a
signal.
-/

namespace Unpv13e.Threads
open Unpv13e.Base

/-- Where `main` is, `src/threads/web02.c:54–98`. -/
inductive PollPc (n : Nat)
  /-- `while (nlefttoread > 0)` -/
  | loop
  /-- `while (nconn < maxnconn && nlefttoconn > 0)` -/
  | connTest
  /-- the search for a file to read, at index `i` -/
  | find (i : Nat)
  /-- `pthread_create` -/
  | create (i : Fin n)
  /-- `file[i].f_tid = tid` -/
  | setTid (i : Fin n)
  /-- `file[i].f_flags = F_CONNECTING` -/
  | connecting (i : Fin n)
  /-- `nconn++` -/
  | incConn (i : Fin n)
  /-- `nlefttoconn--` -/
  | decToConn (i : Fin n)
  /-- `pthread_mutex_lock` -/
  | lock
  /-- `if (ndone > 0)` -/
  | doneTest
  /-- the `for` loop under it, at index `i` -/
  | scan (i : Nat)
  /-- `pthread_join(file[i].f_tid, &fptr)` and the test of `fptr` -/
  | join (i : Fin n)
  /-- `fptr->f_flags = F_JOINED` -/
  | setJoined (i : Fin n)
  /-- `ndone--` -/
  | decDone (i : Fin n)
  /-- `nconn--` -/
  | decConn (i : Fin n)
  /-- `nlefttoread--` -/
  | decToRead (i : Fin n)
  /-- `pthread_mutex_unlock` -/
  | unlock
  /-- `exit(0)` -/
  | exit
  /-- `err_quit` -/
  | quit
  deriving DecidableEq

/-- Where a thread `do_get_read` is, `src/threads/web02.c:101–135`. -/
inductive GetPc
  /-- not created -/
  | absent
  /-- up to `fptr->f_flags = F_READING` in `write_get_cmd` -/
  | connect
  /-- the loop that reads the reply -/
  | read
  /-- `fptr->f_flags = F_DONE` -/
  | setDone
  /-- `pthread_mutex_lock` -/
  | lock
  /-- `ndone++` -/
  | count
  /-- `pthread_mutex_unlock` -/
  | unlock
  /-- it has returned `fptr` -/
  | finished
  deriving DecidableEq

/-- A thread there has set `F_DONE`. -/
def GetPc.HasSetDone (pc : GetPc) : Prop :=
  pc = .lock ∨ pc = .count ∨ pc = .unlock ∨ pc = .finished

instance (pc : GetPc) : Decidable pc.HasSetDone := inferInstanceAs (Decidable (_ ∨ _))

/-- The client with `n` files. -/
structure Web02 (n : Nat) where
  main : PollPc n
  flags : Fin n → Flag
  tid : Fin n → Option (Fin n)
  thread : Fin n → GetPc
  nconn : Int
  nlefttoconn : Int
  nlefttoread : Int
  ndone : Int
  mutex : Option (Holder n)

/-- A step of the client. -/
inductive Web02Act (n : Nat)
  | main
  /-- a step of a thread; in its loop, `read` returns data or the end of the file -/
  | thread (i : Fin n) (eof : Bool)
  deriving DecidableEq

namespace Web02
variable {n : Nat}

/-- Before the loop of `main`, `src/threads/web02.c:42–53`. -/
def start (n : Nat) : Web02 n where
  main := .loop
  flags _ := .fresh
  tid _ := none
  thread _ := .absent
  nconn := 0
  nlefttoconn := n
  nlefttoread := n
  ndone := 0
  mutex := none

/-- `file[i].f_flags = flag` -/
def setFlag (i : Fin n) (flag : Flag) (s : Web02 n) : Web02 n :=
  { s with flags := Function.update s.flags i flag }

/-- The thread of file `i` goes on at `pc`. -/
def setThread (i : Fin n) (pc : GetPc) (s : Web02 n) : Web02 n :=
  { s with thread := Function.update s.thread i pc }

/-- The next step of `main`. -/
def mainNext (maxnconn : Int) (s : Web02 n) : Option (Web02 n) :=
  match s.main with
  | .loop => some { s with main := if 0 < s.nlefttoread then .connTest else .exit }
  | .connTest =>
    some { s with main := if s.nconn < maxnconn ∧ 0 < s.nlefttoconn then .find 0 else .lock }
  | .find i =>
    if h : i < n then
      some { s with main := if s.flags ⟨i, h⟩ = .fresh then .create ⟨i, h⟩ else .find (i + 1) }
    else some { s with main := .quit }
  | .create i => some { s.setThread i .connect with main := .setTid i }
  | .setTid i => some { s with tid := Function.update s.tid i (some i), main := .connecting i }
  | .connecting i => some { s.setFlag i .connecting with main := .incConn i }
  | .incConn i => some { s with nconn := s.nconn + 1, main := .decToConn i }
  | .decToConn _ => some { s with nlefttoconn := s.nlefttoconn - 1, main := .connTest }
  | .lock =>
    if s.mutex = none then some { s with mutex := some .main, main := .doneTest } else none
  | .doneTest => some { s with main := if 0 < s.ndone then .scan 0 else .unlock }
  | .scan i =>
    if h : i < n then
      some { s with main := if s.flags ⟨i, h⟩ = .done then .join ⟨i, h⟩ else .scan (i + 1) }
    else some { s with main := .unlock }
  | .join i =>
    match s.tid i with
    | none => none
    | some j =>
      if s.thread j = .finished then some { s with main := if i = j then .setJoined j else .quit }
      else none
  | .setJoined i => some { s.setFlag i .joined with main := .decDone i }
  | .decDone i => some { s with ndone := s.ndone - 1, main := .decConn i }
  | .decConn i => some { s with nconn := s.nconn - 1, main := .decToRead i }
  | .decToRead i => some { s with nlefttoread := s.nlefttoread - 1, main := .scan (i.val + 1) }
  | .unlock => some { s with mutex := none, main := .loop }
  | .exit => none
  | .quit => none

/-- The next step of the thread of file `i`. -/
def threadNext (i : Fin n) (eof : Bool) (s : Web02 n) : Option (Web02 n) :=
  match s.thread i with
  | .absent => none
  | .connect => some ((s.setFlag i .reading).setThread i .read)
  | .read => some (if eof then s.setThread i .setDone else s)
  | .setDone => some ((s.setFlag i .done).setThread i .lock)
  | .lock =>
    if s.mutex = none then some { s.setThread i .count with mutex := some (.thread i) } else none
  | .count => some { s.setThread i .unlock with ndone := s.ndone + 1 }
  | .unlock => some { s.setThread i .finished with mutex := none }
  | .finished => none

/-- One step. -/
def step (maxnconn : Int) (s : Web02 n) : Web02Act n → Option (Web02 n)
  | .main => s.mainNext maxnconn
  | .thread i eof => s.threadNext i eof

/-- The step as a relation. -/
def Step (maxnconn : Int) (s : Web02 n) (a : Web02Act n) (t : Web02 n) : Prop :=
  s.step maxnconn a = some t

/-- `main` is between the creation of the thread of `i` and the end of `f_flags = F_CONNECTING`. -/
def Marking (s : Web02 n) (i : Fin n) : Prop := s.main = .setTid i ∨ s.main = .connecting i

/-- `main` does not set `F_CONNECTING` for a file whose thread has set `F_DONE`. -/
def MarksInTime (s : Web02 n) : Web02Act n → Prop
  | .main => ∀ i, s.main = .connecting i → ¬ (s.thread i).HasSetDone
  | _ => True

end Web02
end Unpv13e.Threads
