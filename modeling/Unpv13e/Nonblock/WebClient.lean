import Unpv13e.Base.Count
import Unpv13e.Base.Descriptors
import Unpv13e.Base.Runs

/-!
# The nonblocking web client

Library `Nonblock`. `main` of `src/nonblock/web.c:5–83` after the home page has been read, with
`start_connect` (`src/nonblock/start_connect.c:3–31`) and `write_get_cmd`
(`src/nonblock/write_get_cmd.c:3–18`), for any number of files. A step is one test of a loop, one
connection that is started or one file of the last loop. Failing calls end the program; it takes no
step then.
-/

namespace Unpv13e.Nonblock
open Unpv13e.Base

/-- `f_flags`, `src/nonblock/web.h:13–15`. `fresh` is the value 0. -/
inductive FileFlag
  | fresh
  | connecting
  | reading
  | done
  deriving DecidableEq

/-- `F_CONNECTING` or `F_READING` is set. -/
def FileFlag.Live (f : FileFlag) : Prop := f = .connecting ∨ f = .reading

instance (f : FileFlag) : Decidable f.Live := inferInstanceAs (Decidable (_ ∨ _))

/-- Where `main` is. -/
inductive WebPc (n : Nat)
  /-- `while (nlefttoread > 0)` -/
  | loop
  /-- `while (nconn < maxnconn && nlefttoconn > 0)` -/
  | connTest
  /-- the search for a file to read, at index `i` -/
  | find (i : Nat)
  /-- `start_connect(&file[i]); nconn++; nlefttoconn--` -/
  | start (i : Fin n)
  /-- `rs = rset; ws = wset` and `Select` -/
  | select
  /-- the loop over the files, at index `i` -/
  | scan (i : Nat)
  /-- `exit(0)` -/
  | exit
  /-- `err_quit` -/
  | quit
  deriving DecidableEq

/-- The variables of the client with `n` files. -/
structure WebClient (n : Nat) where
  flags : Fin n → FileFlag
  fd : Fin n → Fd
  nconn : Int
  nlefttoconn : Int
  nlefttoread : Int
  maxfd : Int
  rset : FdSet
  wset : FdSet
  rs : FdSet
  ws : FdSet
  pc : WebPc n

/-- What a step gets from outside. -/
inductive WebAct
  /-- nothing -/
  | none
  /-- `Socket` returns this descriptor, and `connect` returns at once or fails with `EINPROGRESS` -/
  | connect (fd : Fd) (immediate : Bool)
  /-- `Select` leaves these descriptors -/
  | select (rs ws : FdSet)
  /-- `Read` returns data or the end of the file -/
  | read (eof : Bool)

namespace WebClient
variable {n : Nat}

/-- Before the loop, `src/nonblock/web.c:13–32`. -/
def start (n : Nat) : WebClient n where
  flags _ := .fresh
  fd _ := 0
  nconn := 0
  nlefttoconn := n
  nlefttoread := n
  maxfd := -1
  rset := ∅
  wset := ∅
  rs := ∅
  ws := ∅
  pc := .loop

/-- `file[i].f_flags = flag` -/
def setFlag (i : Fin n) (flag : FileFlag) (s : WebClient n) : WebClient n :=
  { s with flags := Function.update s.flags i flag }

/-- `if (fd > maxfd) maxfd = fd` -/
def raiseMaxfd (fd : Fd) (s : WebClient n) : WebClient n :=
  { s with maxfd := if (fd : Int) > s.maxfd then fd else s.maxfd }

/-- `write_get_cmd`. -/
def writeGetCmd (i : Fin n) (s : WebClient n) : Except Stop (WebClient n) :=
  FdSet.set (s.fd i) s.rset >>= fun rset ↦
    .ok (raiseMaxfd (s.fd i) { s.setFlag i .reading with rset := rset })

/-- `start_connect`, where `Socket` returns `fd`. -/
def startConnect (i : Fin n) (fd : Fd) (immediate : Bool) (s : WebClient n) :
    Except Stop (WebClient n) :=
  let s := { s with fd := Function.update s.fd i fd }
  if immediate then s.writeGetCmd i
  else
    let s := s.setFlag i .connecting
    FdSet.set fd s.rset >>= fun rset ↦
    FdSet.set fd s.wset >>= fun wset ↦
      .ok (raiseMaxfd fd { s with rset := rset, wset := wset })

/-- The end of a file, `src/nonblock/web.c:70–76`. -/
def finish (i : Fin n) (s : WebClient n) : Except Stop (WebClient n) :=
  let s := s.setFlag i .done
  FdSet.clr (s.fd i) s.rset >>= fun rset ↦
    .ok { s with rset := rset, nconn := s.nconn - 1, nlefttoread := s.nlefttoread - 1 }

/-- One file of the loop after `Select`, `src/nonblock/web.c:50–81`. -/
def file (i : Fin n) (a : WebAct) (s : WebClient n) : Except Stop (WebClient n) :=
  match s.flags i with
  | .fresh => .ok s
  | .done => .ok s
  | .connecting =>
    FdSet.isset (s.fd i) s.rs >>= fun readable ↦
    FdSet.isset (s.fd i) s.ws >>= fun writable ↦
      if readable || writable then
        FdSet.clr (s.fd i) s.wset >>= fun wset ↦ writeGetCmd i { s with wset := wset }
      else .ok s
  | .reading =>
    FdSet.isset (s.fd i) s.rs >>= fun readable ↦
      if readable then
        match a with
        | .read eof => if eof then s.finish i else .ok s
        | _ => .error .blocked
      else .ok s

/-- The next step. A descriptor that `Socket` returns is not in use, and what `Select` leaves in a
set was in it. -/
def step (maxnconn : Int) (s : WebClient n) (a : WebAct) : Except Stop (WebClient n) :=
  match s.pc with
  | .loop => .ok { s with pc := if 0 < s.nlefttoread then .connTest else .exit }
  | .connTest =>
    .ok { s with pc := if s.nconn < maxnconn ∧ 0 < s.nlefttoconn then .find 0 else .select }
  | .find i =>
    if h : i < n then
      .ok { s with pc := if s.flags ⟨i, h⟩ = .fresh then .start ⟨i, h⟩ else .find (i + 1) }
    else .ok { s with pc := .quit }
  | .start i =>
    match a with
    | .connect fd immediate =>
      if ∀ j, (s.flags j).Live → s.fd j ≠ fd then
        s.startConnect i fd immediate >>= fun s ↦
          .ok { s with nconn := s.nconn + 1, nlefttoconn := s.nlefttoconn - 1, pc := .connTest }
      else .error .blocked
    | _ => .error .blocked
  | .select =>
    match a with
    | .select rs ws =>
      if rs ⊆ s.rset ∧ ws ⊆ s.wset then .ok { s with rs := rs, ws := ws, pc := .scan 0 }
      else .error .blocked
    | _ => .error .blocked
  | .scan i =>
    if h : i < n then s.file ⟨i, h⟩ a >>= fun s ↦ .ok { s with pc := .scan (i + 1) }
    else .ok { s with pc := .loop }
  | .exit => .error .blocked
  | .quit => .error .blocked

/-- The step as a relation. -/
def Step (maxnconn : Int) (s : WebClient n) (a : WebAct) (t : WebClient n) : Prop :=
  s.step maxnconn a = .ok t

/-! ### Counters and sets -/

/-- The counters and the sets against the flags of the files. -/
structure Accounts (maxnconn : Int) (s : WebClient n) : Prop where
  nconn : s.nconn = count fun i ↦ (s.flags i).Live
  nlefttoconn : s.nlefttoconn = count fun i ↦ s.flags i = .fresh
  nlefttoread : s.nlefttoread = count fun i ↦ s.flags i ≠ .done
  limit : s.nconn ≤ maxnconn
  rset : Marks s.fd (fun i ↦ (s.flags i).Live) s.rset
  wset : Marks s.fd (fun i ↦ s.flags i = .connecting) s.wset
  once : ∀ i j, (s.flags i).Live → (s.flags j).Live → s.fd i = s.fd j → i = j

/-- What the place of `main` says. -/
def Placed (maxnconn : Int) (s : WebClient n) : Prop :=
  match s.pc with
  | .find k => s.nconn < maxnconn ∧ 0 < s.nlefttoconn ∧ ∀ i : Fin n, i.val < k → s.flags i ≠ .fresh
  | .start i => s.nconn < maxnconn ∧ s.flags i = .fresh
  | .exit => s.nlefttoread ≤ 0
  | .quit => False
  | _ => True

variable {maxnconn : Int} {s t : WebClient n} {i : Fin n}

/-- Before the loop. -/
theorem accounts_start (h : 1 ≤ maxnconn) : Accounts maxnconn (start n) := by
  have hlive : ∀ i : Fin n, ¬ ((start n).flags i).Live := by
    rintro i (h | h) <;> cases h
  have hall (p : Fin n → Prop) [DecidablePred p] (hp : ∀ i, p i) : count p = n := by
    unfold count
    rw [Finset.filter_true_of_mem fun i _ ↦ hp i, Finset.card_univ, Fintype.card_fin]
  refine ⟨?_, ?_, ?_, ?_, Marks.empty hlive, Marks.empty (fun i h ↦ hlive i (.inl h)),
    fun i j hi ↦ absurd hi (hlive i)⟩
  · change (0 : Int) = _
    rw [count_eq_zero.mpr hlive]
    rfl
  · change (n : Int) = _
    rw [hall (fun i ↦ (start n).flags i = .fresh) fun i ↦ rfl]
  · change (n : Int) = _
    rw [hall (fun i ↦ (start n).flags i ≠ .done) fun i h ↦ by cases h]
  · change (0 : Int) ≤ maxnconn
    omega

/-- What `write_get_cmd` changes. -/
theorem writeGetCmd_ok (h : s.writeGetCmd i = .ok t) : ∃ maxfd, t = { s with
    flags := Function.update s.flags i .reading
    rset := insert (s.fd i) s.rset
    maxfd := maxfd } := by
  obtain ⟨rset, hset, h⟩ := exists_of_bind_ok h
  obtain ⟨-, rfl⟩ := FdSet.set_ok hset
  cases h
  exact ⟨_, rfl⟩

/-- What `start_connect` changes. -/
theorem startConnect_ok {fd : Fd} {immediate : Bool} (h : s.startConnect i fd immediate = .ok t) :
    ∃ maxfd, t = { s with
      flags := Function.update s.flags i (if immediate then .reading else .connecting)
      fd := Function.update s.fd i fd
      rset := insert fd s.rset
      wset := if immediate then s.wset else insert fd s.wset
      maxfd := maxfd } := by
  unfold startConnect at h
  cases immediate with
  | true =>
    obtain ⟨maxfd, rfl⟩ := writeGetCmd_ok h
    refine ⟨maxfd, ?_⟩
    simp only [if_true, Function.update_self]
  | false =>
    obtain ⟨rset, hrset, h⟩ := exists_of_bind_ok h
    obtain ⟨wset, hwset, h⟩ := exists_of_bind_ok h
    obtain ⟨-, rfl⟩ := FdSet.set_ok hrset
    obtain ⟨-, rfl⟩ := FdSet.set_ok hwset
    cases h
    exact ⟨_, rfl⟩

/-- What becomes of a file in the loop after `Select`: nothing, its connection is established, or its
end is read. -/
theorem file_ok {a : WebAct} (h : s.file i a = .ok t) : t = s ∨
    (s.flags i = .connecting ∧ ∃ maxfd, t = { s with
      flags := Function.update s.flags i .reading
      rset := insert (s.fd i) s.rset
      wset := s.wset.erase (s.fd i)
      maxfd := maxfd }) ∨
    s.flags i = .reading ∧ t = { s with
      flags := Function.update s.flags i .done
      rset := s.rset.erase (s.fd i)
      nconn := s.nconn - 1
      nlefttoread := s.nlefttoread - 1 } := by
  unfold file at h
  split at h
  · cases h
    exact .inl rfl
  · cases h
    exact .inl rfl
  · next hflag =>
    obtain ⟨readable, -, h⟩ := exists_of_bind_ok h
    obtain ⟨writable, -, h⟩ := exists_of_bind_ok h
    split at h
    · obtain ⟨wset, hclr, h⟩ := exists_of_bind_ok h
      obtain ⟨-, rfl⟩ := FdSet.clr_ok hclr
      obtain ⟨maxfd, rfl⟩ := writeGetCmd_ok h
      exact .inr (.inl ⟨hflag, maxfd, rfl⟩)
    · cases h
      exact .inl rfl
  · next hflag =>
    obtain ⟨readable, -, h⟩ := exists_of_bind_ok h
    split at h
    · split at h
      · next eof =>
        split at h
        · obtain ⟨rset, hclr, h⟩ := exists_of_bind_ok h
          obtain ⟨-, rfl⟩ := FdSet.clr_ok hclr
          cases h
          exact .inr (.inr ⟨hflag, rfl⟩)
        · cases h
          exact .inl rfl
      · cases h
    · cases h
      exact .inl rfl

private theorem flag_of_ne {f : FileFlag} {j : Fin n} (hj : j ≠ i) :
    Function.update s.flags i f j = s.flags j := Function.update_of_ne hj _ _

private theorem flag_self {f : FileFlag} : Function.update s.flags i f i = f :=
  Function.update_self _ _ _

/-- A new flag that has a property as the old one has it. -/
private theorem flag_iff {f f' : FileFlag} (h : s.flags i = f) (p : FileFlag → Prop)
    (hp : p f ↔ p f') (j : Fin n) : p (s.flags j) ↔ p (Function.update s.flags i f' j) := by
  by_cases hj : j = i
  · subst hj
    rw [flag_self, h]
    exact hp
  · rw [flag_of_ne hj]

/-- A connection is started on a descriptor that is not in use. -/
theorem Accounts.started {fd : Fd} (immediate : Bool) (maxfd : Int) (h : Accounts maxnconn s)
    (hfresh : s.flags i = .fresh) (hlimit : s.nconn < maxnconn)
    (hnew : ∀ j, (s.flags j).Live → s.fd j ≠ fd) :
    Accounts maxnconn { s with
      flags := Function.update s.flags i (if immediate then .reading else .connecting)
      fd := Function.update s.fd i fd
      rset := insert fd s.rset
      wset := if immediate then s.wset else insert fd s.wset
      maxfd := maxfd
      nconn := s.nconn + 1
      nlefttoconn := s.nlefttoconn - 1 } := by
  let f : FileFlag := if immediate then .reading else .connecting
  have hf : f.Live ∧ f ≠ .fresh ∧ f ≠ .done := by
    cases immediate <;> decide
  have hnot : ¬ (s.flags i).Live := by
    rw [hfresh]
    decide
  have hlive (j : Fin n) : (Function.update s.flags i f j).Live ↔ (s.flags j).Live ∨ j = i := by
    by_cases hj : j = i
    · subst hj
      rw [flag_self]
      exact iff_of_true hf.1 (.inr rfl)
    · rw [flag_of_ne hj]
      simp [hj]
  refine ⟨?_, ?_, ?_, ?_, ?_, ?_, ?_⟩
  · have hgain : count (fun j ↦ (Function.update s.flags i f j).Live) =
        count (fun j ↦ (s.flags j).Live) + 1 := by
      refine count_gain i hnot ((hlive i).mpr (.inr rfl)) fun j hj ↦ ?_
      rw [flag_of_ne hj]
    have := h.nconn
    change s.nconn + 1 = (count (fun j ↦ (Function.update s.flags i f j).Live) : Int)
    omega
  · have hlose : count (fun j ↦ s.flags j = .fresh) =
        count (fun j ↦ Function.update s.flags i f j = .fresh) + 1 := by
      refine count_lose i hfresh ?_ fun j hj ↦ ?_
      · rw [flag_self]
        exact hf.2.1
      · rw [flag_of_ne hj]
    have := h.nlefttoconn
    change s.nlefttoconn - 1 = (count (fun j ↦ Function.update s.flags i f j = .fresh) : Int)
    omega
  · rw [h.nlefttoread]
    exact congrArg Nat.cast (count_congr (flag_iff hfresh (· ≠ .done) (iff_of_true (by decide) hf.2.2)))
  · change s.nconn + 1 ≤ maxnconn
    omega
  · have hset := (h.rset.assign hnot fd).gain (j := i) hlive
    rwa [Function.update_self] at hset
  · have hconn : ¬ s.flags i = .connecting := by
      rw [hfresh]
      decide
    have hset := h.wset.assign hconn fd
    cases immediate with
    | true => exact hset.congr (flag_iff hfresh (· = .connecting) (by decide))
    | false =>
      have hset := hset.gain (j := i) (q := fun j ↦ Function.update s.flags i .connecting j = .connecting)
        fun j ↦ by
          by_cases hj : j = i
          · subst hj
            exact iff_of_true flag_self (.inr rfl)
          · rw [flag_of_ne hj]
            simp [hj]
      rwa [Function.update_self] at hset
  · intro j k hj hk he
    have hold (l : Fin n) (hl : l ≠ i) (hlive' : (Function.update s.flags i f l).Live) :
        (s.flags l).Live ∧ Function.update s.fd i fd l = s.fd l :=
      ⟨((hlive l).mp hlive').resolve_right hl, Function.update_of_ne hl _ _⟩
    by_cases hji : j = i
    · by_cases hki : k = i
      · rw [hji, hki]
      · obtain ⟨hl, heq⟩ := hold k hki hk
        subst hji
        refine absurd ?_ (hnew k hl)
        rw [← heq]
        exact (he.symm.trans (Function.update_self _ _ _))
    · obtain ⟨hl, heq⟩ := hold j hji hj
      by_cases hki : k = i
      · subst hki
        refine absurd ?_ (hnew j hl)
        rw [← heq]
        exact he.trans (Function.update_self _ _ _)
      · obtain ⟨hl', heq'⟩ := hold k hki hk
        exact h.once j k hl hl' (heq ▸ heq' ▸ he)

/-- A connection is established. -/
theorem Accounts.established {maxfd : Int} (h : Accounts maxnconn s)
    (hconn : s.flags i = .connecting) :
    Accounts maxnconn { s with
      flags := Function.update s.flags i .reading
      rset := insert (s.fd i) s.rset
      wset := s.wset.erase (s.fd i)
      maxfd := maxfd } := by
  have hlive (j : Fin n) : (Function.update s.flags i .reading j).Live ↔ (s.flags j).Live :=
    (flag_iff hconn FileFlag.Live (by decide) j).symm
  refine ⟨?_, ?_, ?_, h.limit, ?_, ?_, ?_⟩
  · rw [h.nconn]
    exact congrArg Nat.cast (count_congr fun j ↦ (hlive j).symm)
  · rw [h.nlefttoconn]
    exact congrArg Nat.cast (count_congr (flag_iff hconn (· = .fresh) (by decide)))
  · rw [h.nlefttoread]
    exact congrArg Nat.cast (count_congr (flag_iff hconn (· ≠ .done) (by decide)))
  · refine h.rset.gain (j := i) fun j ↦ ?_
    rw [hlive]
    refine ⟨.inl, ?_⟩
    rintro (hj | rfl)
    · exact hj
    · rw [hconn]
      decide
  · refine h.wset.lose (j := i) (fun j hj he ↦ h.once j i ?_ ?_ he) fun j ↦ ?_
    · exact .inl hj
    · exact .inl hconn
    · by_cases hj : j = i
      · subst hj
        have hself : Function.update s.flags j .reading j ≠ .connecting := by
          rw [flag_self]
          decide
        exact iff_of_false hself fun hj ↦ hj.2 rfl
      · change Function.update s.flags i .reading j = .connecting ↔ _
        rw [flag_of_ne hj]
        exact (and_iff_left hj).symm
  · intro j k hj hk
    exact h.once j k ((hlive j).mp hj) ((hlive k).mp hk)

/-- The end of a file has been read. -/
theorem Accounts.finished (h : Accounts maxnconn s) (hread : s.flags i = .reading) :
    Accounts maxnconn { s with
      flags := Function.update s.flags i .done
      rset := s.rset.erase (s.fd i)
      nconn := s.nconn - 1
      nlefttoread := s.nlefttoread - 1 } := by
  have hlive (j : Fin n) : (Function.update s.flags i .done j).Live ↔ (s.flags j).Live ∧ j ≠ i := by
    by_cases hj : j = i
    · subst hj
      exact iff_of_false (by rw [flag_self]; decide) fun hj ↦ hj.2 rfl
    · rw [flag_of_ne hj]
      exact (and_iff_left hj).symm
  have hi : (s.flags i).Live := .inr hread
  refine ⟨?_, ?_, ?_, ?_, ?_, ?_, ?_⟩
  · have hlose : count (fun j ↦ (s.flags j).Live) =
        count (fun j ↦ (Function.update s.flags i .done j).Live) + 1 := by
      refine count_lose i hi (fun hl ↦ ((hlive i).mp hl).2 rfl) fun j hj ↦ ?_
      rw [flag_of_ne hj]
    have := h.nconn
    change s.nconn - 1 = (count (fun j ↦ (Function.update s.flags i .done j).Live) : Int)
    omega
  · change s.nlefttoconn = (count (fun j ↦ Function.update s.flags i .done j = .fresh) : Int)
    rw [h.nlefttoconn]
    exact congrArg Nat.cast (count_congr (flag_iff hread (· = .fresh) (by decide)))
  · have hlose : count (fun j ↦ s.flags j ≠ .done) =
        count (fun j ↦ Function.update s.flags i .done j ≠ .done) + 1 := by
      refine count_lose i (by rw [hread]; decide) (fun hne ↦ hne flag_self) fun j hj ↦ ?_
      rw [flag_of_ne hj]
    have := h.nlefttoread
    change s.nlefttoread - 1 = (count (fun j ↦ Function.update s.flags i .done j ≠ .done) : Int)
    omega
  · have := h.limit
    change s.nconn - 1 ≤ maxnconn
    omega
  · exact h.rset.lose (j := i) (fun j hj he ↦ h.once j i hj hi he) hlive
  · exact h.wset.congr (flag_iff hread (· = .connecting) (by decide))
  · intro j k hj hk
    exact h.once j k ((hlive j).mp hj).1 ((hlive k).mp hk).1

/-- One step keeps counters and sets. -/
theorem step_accounts {a : WebAct} (hs : Step maxnconn s a t) (h : Accounts maxnconn s)
    (hp : Placed maxnconn s) : Accounts maxnconn t ∧ Placed maxnconn t := by
  unfold Step step at hs
  unfold Placed at hp
  split at hs
  · cases hs
    refine ⟨⟨h.nconn, h.nlefttoconn, h.nlefttoread, h.limit, h.rset, h.wset, h.once⟩, ?_⟩
    by_cases hleft : 0 < s.nlefttoread
    · rw [if_pos hleft]
      exact True.intro
    · rw [if_neg hleft]
      exact not_lt.mp hleft
  · cases hs
    refine ⟨⟨h.nconn, h.nlefttoconn, h.nlefttoread, h.limit, h.rset, h.wset, h.once⟩, ?_⟩
    by_cases hmore : s.nconn < maxnconn ∧ 0 < s.nlefttoconn
    · rw [if_pos hmore]
      exact ⟨hmore.1, hmore.2, fun i hi ↦ absurd hi (Nat.not_lt_zero _)⟩
    · rw [if_neg hmore]
      exact True.intro
  · next k hpc =>
    rw [hpc] at hp
    obtain ⟨hconn, hleft, hnone⟩ := hp
    split at hs
    · next hk =>
      cases hs
      refine ⟨⟨h.nconn, h.nlefttoconn, h.nlefttoread, h.limit, h.rset, h.wset, h.once⟩, ?_⟩
      by_cases hfresh : s.flags ⟨k, hk⟩ = .fresh
      · rw [if_pos hfresh]
        exact ⟨hconn, hfresh⟩
      · rw [if_neg hfresh]
        refine ⟨hconn, hleft, fun i hi ↦ ?_⟩
        by_cases hik : i.val = k
        · subst hik
          exact hfresh
        · exact hnone i (by omega)
    · next hk =>
      -- the counter says that some file is left
      have hpos := h.nlefttoconn ▸ hleft
      obtain ⟨i, hi⟩ := count_pos.mp (Int.natCast_pos.mp hpos)
      exact absurd hi (hnone i (by omega))
  · next i hpc =>
    rw [hpc] at hp
    obtain ⟨hconn, hfresh⟩ := hp
    split at hs
    · next fd immediate =>
      split at hs
      · next hnew =>
        obtain ⟨u, hu, hs⟩ := exists_of_bind_ok hs
        cases hs
        obtain ⟨maxfd, rfl⟩ := startConnect_ok hu
        have hacc := h.started immediate maxfd hfresh hconn hnew
        exact ⟨⟨hacc.nconn, hacc.nlefttoconn, hacc.nlefttoread, hacc.limit, hacc.rset, hacc.wset,
          hacc.once⟩, True.intro⟩
      · cases hs
    · cases hs
  · split at hs
    · split at hs
      · cases hs
        exact ⟨⟨h.nconn, h.nlefttoconn, h.nlefttoread, h.limit, h.rset, h.wset, h.once⟩, True.intro⟩
      · cases hs
    · cases hs
  · next k hpc =>
    split at hs
    · next hk =>
      obtain ⟨u, hu, hs⟩ := exists_of_bind_ok hs
      cases hs
      have hacc : Accounts maxnconn u := by
        rcases file_ok hu with rfl | ⟨hc, maxfd, rfl⟩ | ⟨hr, rfl⟩
        · exact h
        · exact h.established hc
        · exact h.finished hr
      exact ⟨⟨hacc.nconn, hacc.nlefttoconn, hacc.nlefttoread, hacc.limit, hacc.rset, hacc.wset,
        hacc.once⟩, True.intro⟩
    · cases hs
      exact ⟨⟨h.nconn, h.nlefttoconn, h.nlefttoread, h.limit, h.rset, h.wset, h.once⟩, True.intro⟩
  · cases hs
  · cases hs

/-- In every state the client can come to, `nconn` is the number of files with a connection and is
within the limit, the other counters are the numbers of files without one yet and of files not
read to the end, the search for a file to read does not fail, the sets have the descriptors of the
files that are connecting or reading and of those that are connecting, and the loop ends when all
files have been read. -/
theorem accounting (h : 1 ≤ maxnconn) (hr : Run (Step maxnconn) (start n) s) :
    s.nconn = count (fun i ↦ s.flags i = .connecting ∨ s.flags i = .reading) ∧ s.nconn ≤ maxnconn ∧
      s.nlefttoconn = count (fun i ↦ s.flags i = .fresh) ∧
      s.nlefttoread = count (fun i ↦ s.flags i ≠ .done) ∧ s.pc ≠ .quit ∧
      (∀ i, (s.flags i = .connecting ∨ s.flags i = .reading) → s.fd i ∈ s.rset) ∧
      (∀ x ∈ s.rset, ∃ i, (s.flags i = .connecting ∨ s.flags i = .reading) ∧ s.fd i = x) ∧
      (∀ i, s.flags i = .connecting → s.fd i ∈ s.wset) ∧
      (∀ x ∈ s.wset, ∃ i, s.flags i = .connecting ∧ s.fd i = x) ∧
      (∀ i j, (s.flags i).Live → (s.flags j).Live → s.fd i = s.fd j → i = j) ∧
      (s.pc = .exit → ∀ i, s.flags i = .done) := by
  have hinv : Accounts maxnconn s ∧ Placed maxnconn s := by
    refine RunWith.preserves (I := fun s ↦ Accounts maxnconn s ∧ Placed maxnconn s) ?_ hr
      ⟨accounts_start h, True.intro⟩
    rintro s a t ⟨hacc, hp⟩ - hs
    exact step_accounts hs hacc hp
  obtain ⟨hacc, hp⟩ := hinv
  unfold Placed at hp
  refine ⟨hacc.nconn, hacc.limit, hacc.nlefttoconn, hacc.nlefttoread, ?_, ?_, ?_, ?_, ?_, hacc.once, ?_⟩
  · intro hpc
    rw [hpc] at hp
    exact hp
  · exact fun i hi ↦ (hacc.rset _).mpr ⟨i, hi, rfl⟩
  · exact fun x hx ↦ (hacc.rset x).mp hx
  · exact fun i hi ↦ (hacc.wset _).mpr ⟨i, hi, rfl⟩
  · exact fun x hx ↦ (hacc.wset x).mp hx
  · intro hpc i
    rw [hpc] at hp
    have hp' : s.nlefttoread ≤ 0 := hp
    have hzero : count (fun i ↦ s.flags i ≠ .done) = 0 := by
      have := hacc.nlefttoread
      omega
    exact not_not.mp (count_eq_zero.mp hzero i)

/-- One file, whose connection takes a while, is read to its end. -/
private def oneFile : List WebAct :=
  [.none, .none, .none, .connect 3 false, .none, .select {3} ∅, .none, .none, .none, .none,
    .select {3} ∅, .read true, .none, .none]

/-- The client reads one file. -/
theorem accounting_one : ∃ s, Run (Step 1) (start 1) s ∧ s.pc = .exit ∧ s.flags 0 = .done := by
  have h : ((.ok (start 1) : Except Stop (WebClient 1)) >>= fun s ↦
      runActs (step 1) s oneFile).toOption.map (fun s ↦ decide (s.pc = .exit)) = some true := by
    decide
  obtain ⟨s₀, s, hstart, hs, hpc⟩ := exists_of_runActs h
  cases hstart
  have hrun : Run (Step 1) (start 1) s := run_of_runActs (step 1) oneFile _ _ hs
  have hpc' : s.pc = .exit := of_decide_eq_true hpc
  have hacc := accounting (by decide) hrun
  exact ⟨s, hrun, hpc', hacc.2.2.2.2.2.2.2.2.2.2 hpc' 0⟩

end WebClient
end Unpv13e.Nonblock
