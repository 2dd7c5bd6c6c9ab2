import Unpv13e.Base.Countdown
import Unpv13e.Base.Descriptors

/-!
# Passing connections to idle children

Library `Pool`. The parent of `src/server/serv05.c:30–81` and its children, `child_main` of
`src/server/child05.c:30–51`, each with a stream pipe to the parent. A step is one `if` of the
parent's loop or one turn of a child. `err_quit` and failing calls end the program; it takes no step
then.
-/

namespace Unpv13e.Pool
open Unpv13e.Base

namespace Prefork

/-- Where the parent is. -/
inductive Pc
  | select
  /-- `if (FD_ISSET(listenfd, &rset))` -/
  | listen
  /-- `Accept` has returned -/
  | dispatch
  /-- the loop over the children, at index `i` -/
  | scan (i : Nat)
  deriving DecidableEq

end Prefork

/-- The parent's variables, the pipes and the children. Connections are numbered as accepted. -/
structure Prefork (n : Nat) where
  listenfd : Fd
  child_pipefd : Fin n → Fd
  child_status : Fin n → Nat
  child_count : Fin n → Nat
  navail : Int
  maxfd : Fd
  masterset : FdSet
  rset : FdSet
  nsel : Int
  pc : Prefork.Pc
  /-- descriptors passed and not yet read by the child -/
  inbox : Fin n → List Nat
  /-- the connection in `web_child` -/
  working : Fin n → Option Nat
  /-- bytes written by the child and not yet read by the parent -/
  reports : Fin n → Nat
  /-- connections accepted, not a variable of the code -/
  accepted : Nat
  /-- which connection went to which child, not a variable of the code -/
  passed : List (Nat × Fin n)
  /-- how many reports of each child the parent has read, not a variable of the code -/
  collected : Fin n → Nat
  /-- what has been accepted on or read from since the last `select`, not a variable of the code -/
  served : List Fd

namespace Prefork

/-- What happens next. -/
inductive Act (n : Nat)
  /-- `Select` leaves these descriptors in `rset` -/
  | select (ready : FdSet)
  /-- the parent goes on -/
  | go
  /-- `Read_fd` in a child -/
  | receive (i : Fin n)
  /-- `web_child`, `Close` and `Write` in a child -/
  | finish (i : Fin n)

variable {n : Nat}

/-- Descriptors are put into a set one after another. -/
def setAll : List Fd → FdSet → Except Stop FdSet
  | [], s => .ok s
  | fd :: fds, s => s.set fd >>= fun s ↦ setAll fds s

/-- Before the first turn of the loop, `src/server/serv05.c:24–41`. `Socketpair` returns descriptors
that are not in use. -/
def start (listenfd : Fd) (pipefd : Fin n → Fd) : Except Stop (Prefork n) :=
  if (listenfd :: (List.finRange n).map pipefd).Nodup then
    FdSet.set listenfd ∅ >>= fun masterset ↦
      setAll ((List.finRange n).map pipefd) masterset >>= fun masterset ↦
        .ok {
          listenfd := listenfd
          child_pipefd := pipefd
          child_status := fun _ ↦ 0
          child_count := fun _ ↦ 0
          navail := n
          maxfd := ((List.finRange n).map pipefd).foldl max listenfd
          masterset := masterset
          rset := ∅
          nsel := 0
          pc := .select
          inbox := fun _ ↦ []
          working := fun _ ↦ none
          reports := fun _ ↦ 0
          accepted := 0
          passed := []
          collected := fun _ ↦ 0
          served := [] }
  else .error .blocked

/-- After `--nsel`. -/
def onwards (left : Int) (k : Nat) : Pc := if left = 0 then .select else .scan k

/-- `Select` can report the listening socket, unless it is turned off, and pipes with something to
read, `src/server/serv05.c:46–49`. -/
def select (s : Prefork n) (ready : FdSet) : Except Stop (Prefork n) :=
  (if s.navail ≤ 0 then s.masterset.clr s.listenfd else .ok s.masterset) >>= fun rset ↦
    if ready ⊆ rset.filter (· ≤ s.maxfd) ∧ ∀ i, s.child_pipefd i ∈ ready → 0 < s.reports i then
      .ok { s with rset := ready, nsel := ready.card, pc := .listen, served := [] }
    else .error .blocked

/-- `src/server/serv05.c:52–54` -/
def listen (s : Prefork n) : Except Stop (Prefork n) :=
  s.rset.isset s.listenfd >>= fun isset ↦
    if isset then .ok { s with pc := .dispatch, accepted := s.accepted + 1 }
    else .ok { s with pc := .scan 0 }

/-- The first child with status 0, `src/server/serv05.c:56–58`. -/
def available (s : Prefork n) : Option (Fin n) := Slots.firstHole 0 s.child_status

/-- `src/server/serv05.c:56–69` -/
def dispatch (s : Prefork n) : Except Stop (Prefork n) :=
  match s.available with
  | none => .error .blocked
  | some i =>
    .ok { s with
      child_status := Function.update s.child_status i 1
      child_count := Function.update s.child_count i (s.child_count i + 1)
      navail := s.navail - 1
      inbox := Function.update s.inbox i (s.inbox i ++ [s.accepted - 1])
      passed := s.passed ++ [(s.accepted - 1, i)]
      nsel := s.nsel - 1
      pc := onwards (s.nsel - 1) 0
      served := s.served ++ [s.listenfd] }

/-- A child has reported, `src/server/serv05.c:74–79`. -/
def collect (s : Prefork n) (i : Fin n) : Except Stop (Prefork n) :=
  if s.reports i = 0 then .error .blocked
  else
    .ok { s with
      child_status := Function.update s.child_status i 0
      navail := s.navail + 1
      reports := Function.update s.reports i (s.reports i - 1)
      collected := Function.update s.collected i (s.collected i + 1)
      nsel := s.nsel - 1
      pc := onwards (s.nsel - 1) (i + 1)
      served := s.served ++ [s.child_pipefd i] }

/-- `src/server/serv05.c:72–80` -/
def scan (s : Prefork n) (k : Nat) : Except Stop (Prefork n) :=
  if h : k < n then
    s.rset.isset (s.child_pipefd ⟨k, h⟩) >>= fun isset ↦
      if isset then s.collect ⟨k, h⟩ else .ok { s with pc := .scan (k + 1) }
  else .ok { s with pc := .select }

/-- `src/server/child05.c:39–42` -/
def receive (s : Prefork n) (i : Fin n) : Except Stop (Prefork n) :=
  match s.inbox i, s.working i with
  | c :: cs, none =>
    .ok { s with inbox := Function.update s.inbox i cs, working := Function.update s.working i (some c) }
  | _, _ => .error .blocked

/-- `src/server/child05.c:44–47` -/
def finish (s : Prefork n) (i : Fin n) : Except Stop (Prefork n) :=
  match s.working i with
  | some _ =>
    .ok { s with
      working := Function.update s.working i none
      reports := Function.update s.reports i (s.reports i + 1) }
  | none => .error .blocked

/-- The next step. -/
def step (s : Prefork n) : Act n → Except Stop (Prefork n)
  | .receive i => s.receive i
  | .finish i => s.finish i
  | .select ready => if s.pc = .select then s.select ready else .error .blocked
  | .go =>
    match s.pc with
    | .select => .error .blocked
    | .listen => s.listen
    | .dispatch => s.dispatch
    | .scan k => s.scan k

/-- The step as a relation. -/
def Step (s : Prefork n) (a : Act n) (t : Prefork n) : Prop := s.step a = .ok t

end Prefork
end Unpv13e.Pool
