import Unpv13e.Base.Progress
import Unpv13e.Echo.System

/-!
# The client that waits for every line

Library `Echo`. `str_cli` of `src/lib/str_cli.c` against the echo server. It sends what `Fgets` gives it and
reads a line from the socket before it calls `Fgets` again. For which inputs it returns with everything
shown, and for which it and the server can wait for each other.
-/

namespace Unpv13e.Echo.LockStep
open Unpv13e.Base

/-- `'\n'` -/
def newline : UInt8 := 10

/-- `MAXLINE - 1`, the bytes that are stored before the NUL. -/
def most : Nat := maxLine - 1

/-- What `fgets` stores of these bytes when it stores `n` at most. -/
def fgets : Nat → List UInt8 → List UInt8
  | 0, _ => []
  | _ + 1, [] => []
  | n + 1, c :: s => if c = newline then [c] else c :: fgets n s

/-- `fgets` or `readline` looks for no byte behind these. -/
def Ended (line : List UInt8) : Prop := line.getLast? = some newline ∨ line.length = most

instance (line : List UInt8) : Decidable (Ended line) := inferInstanceAs (Decidable (_ ∨ _))

/-- What `strlen` and `Fputs` see of a buffer. -/
def cstring (s : List UInt8) : List UInt8 := s.takeWhile (· ≠ 0)

/-- Where `str_cli` is. -/
inductive Pc
  /-- at `Fgets` -/
  | get
  /-- in `Writen`, with these bytes left -/
  | send (rest : List UInt8)
  /-- in `Readline`, with these bytes stored -/
  | line (stored : List UInt8)
  /-- at `Fputs` -/
  | show (recvline : List UInt8)
  | returned
  /-- `err_quit` -/
  | quit
  deriving DecidableEq

/-- Where it is, and what `my_read` has in `read_buf` from `read_ptr` on. -/
structure StrCli where
  pc : Pc
  read_buf : List UInt8
  deriving DecidableEq

def start : StrCli := ⟨.get, []⟩

/-- `Writen` returns when no bytes are left. -/
def writen (rest : List UInt8) : Pc := if rest = [] then .line [] else .send rest

/-- What is done next, `src/lib/str_cli.c:8–16` and `src/lib/readline.c:8–51`. -/
def step (s : StrCli) (es : List Io) : Option StrCli :=
  match s.pc, es with
  | .get, [.stdinEof] => some { s with pc := .returned }
  | .get, [.typed bytes] =>
    if fgets most bytes = bytes ∧ Ended bytes then some { s with pc := writen (cstring bytes) } else none
  | .get, [.typed bytes, .stdinEof] =>
    if fgets most bytes = bytes ∧ ¬ Ended bytes then some { s with pc := writen (cstring bytes) } else none
  | .send rest, [.sent bytes] =>
    if bytes <+: rest then some { s with pc := writen (rest.drop bytes.length) } else none
  | .line stored, [] =>
    match s.read_buf with
    | [] => none
    | c :: buf =>
      some ⟨if c = newline ∨ stored.length + 1 = most then .show (stored ++ [c]) else .line (stored ++ [c]), buf⟩
  | .line _, [.received bytes] =>
    if s.read_buf = [] ∧ bytes.length ≤ maxLine then some { s with read_buf := bytes } else none
  | .line stored, [.sockEof] =>
    if s.read_buf = [] then some { s with pc := if stored = [] then .quit else .show stored } else none
  | .show recvline, [.shown bytes] =>
    if bytes = cstring recvline then some { s with pc := .get } else none
  | _, _ => none

/-- The step as a relation. -/
abbrev Client (s : StrCli) (es : List Io) (t : StrCli) : Prop := step s es = some t

/-- What a step does. -/
inductive Does (s : StrCli) : List Io → StrCli → Prop
  | finish : s.pc = .get → Does s [.stdinEof] { s with pc := .returned }
  | take (bytes : List UInt8) : s.pc = .get → fgets most bytes = bytes → Ended bytes →
      Does s [.typed bytes] { s with pc := writen (cstring bytes) }
  | takeLast (bytes : List UInt8) : s.pc = .get → fgets most bytes = bytes → ¬ Ended bytes →
      Does s [.typed bytes, .stdinEof] { s with pc := writen (cstring bytes) }
  | send (rest bytes : List UInt8) : s.pc = .send rest → bytes <+: rest →
      Does s [.sent bytes] { s with pc := writen (rest.drop bytes.length) }
  | store (stored buf : List UInt8) (c : UInt8) : s.pc = .line stored → s.read_buf = c :: buf →
      Does s [] ⟨if c = newline ∨ stored.length + 1 = most then .show (stored ++ [c])
        else .line (stored ++ [c]), buf⟩
  | receive (stored bytes : List UInt8) : s.pc = .line stored → s.read_buf = [] → bytes.length ≤ maxLine →
      Does s [.received bytes] { s with read_buf := bytes }
  | sockEof (stored : List UInt8) : s.pc = .line stored → s.read_buf = [] →
      Does s [.sockEof] { s with pc := if stored = [] then .quit else .show stored }
  | show (recvline : List UInt8) : s.pc = .show recvline →
      Does s [.shown (cstring recvline)] { s with pc := .get }

theorem does_of_step {s t : StrCli} {es : List Io} (h : step s es = some t) : Does s es t := by
  unfold step at h
  split at h
  · next hpc => cases h; exact .finish hpc
  · next hpc =>
    obtain ⟨⟨hf, hend⟩, h⟩ := Option.ite_none_right_eq_some.mp h
    cases h
    exact .take _ hpc hf hend
  · next hpc =>
    obtain ⟨⟨hf, hend⟩, h⟩ := Option.ite_none_right_eq_some.mp h
    cases h
    exact .takeLast _ hpc hf hend
  · next hpc =>
    obtain ⟨hpre, h⟩ := Option.ite_none_right_eq_some.mp h
    cases h
    exact .send _ _ hpc hpre
  · next hpc =>
    split at h
    · cases h
    · next hbuf => cases h; exact .store _ _ _ hpc hbuf
  · next hpc =>
    obtain ⟨⟨hbuf, hfits⟩, h⟩ := Option.ite_none_right_eq_some.mp h
    cases h
    exact .receive _ _ hpc hbuf hfits
  · next hpc =>
    obtain ⟨hbuf, h⟩ := Option.ite_none_right_eq_some.mp h
    cases h
    exact .sockEof _ hpc hbuf
  · next hpc =>
    obtain ⟨hall, h⟩ := Option.ite_none_right_eq_some.mp h
    cases h
    rw [hall]
    exact .show _ hpc
  · cases h

/-! ### What `Fgets` makes of the input -/

theorem fgets_ne_nil {n : Nat} {s : List UInt8} (hn : 0 < n) (hs : s ≠ []) : fgets n s ≠ [] := by
  cases s with
  | nil => exact absurd rfl hs
  | cons c s =>
    cases n with
    | zero => omega
    | succ n =>
      rw [fgets]
      split <;> exact List.cons_ne_nil _ _

/-- What `fgets` gives, call after call. -/
def lines : List UInt8 → List (List UInt8)
  | [] => []
  | c :: s => fgets most (c :: s) :: lines ((c :: s).drop (fgets most (c :: s)).length)
termination_by s => s.length
decreasing_by
  have hline := List.length_pos_iff.mpr (fgets_ne_nil (show 0 < most by decide) (List.cons_ne_nil c s))
  rw [List.length_drop, List.length_cons]
  omega

theorem lines_nil : lines [] = [] := by rw [lines]

theorem lines_of_ne {s : List UInt8} (h : s ≠ []) :
    lines s = fgets most s :: lines (s.drop (fgets most s).length) := by
  cases s with
  | nil => exact absurd rfl h
  | cons c s => rw [lines]

theorem prefix_fgets (n : Nat) (s : List UInt8) : fgets n s <+: s := by
  induction s generalizing n with
  | nil => cases n <;> exact List.nil_prefix
  | cons c s ih =>
    cases n with
    | zero => exact List.nil_prefix
    | succ n =>
      rw [fgets]
      split
      · exact ⟨s, rfl⟩
      · exact (List.prefix_cons_inj c).mpr (ih n)

/-- The calls take all of the input. -/
theorem lines_flatten (s : List UInt8) : (lines s).flatten = s := by
  induction hn : s.length using Nat.strong_induction_on generalizing s with
  | _ n ih =>
    by_cases h : s = []
    · rw [h, lines_nil]
      rfl
    · have hs := List.length_pos_iff.mpr h
      have hline := List.length_pos_iff.mpr (fgets_ne_nil (show 0 < most by decide) h)
      rw [lines_of_ne h, List.flatten_cons, ih _ (by rw [List.length_drop]; omega) _ rfl]
      exact List.prefix_iff_eq_append.mp (prefix_fgets most s)

/-- Bytes that `fgets` would give if there were no others are what it gives, when it looks for none behind
them, or there are none. -/
theorem fgets_of_prefix {n : Nat} {bytes s : List UInt8} (hpre : bytes <+: s) (hf : fgets n bytes = bytes)
    (hend : bytes.getLast? = some newline ∨ bytes.length = n ∨ bytes = s) : fgets n s = bytes := by
  induction bytes generalizing n s with
  | nil =>
    rcases hend with hend | hend | rfl
    · cases hend
    · obtain rfl : n = 0 := hend.symm
      rfl
    · exact hf
  | cons c bytes ih =>
    obtain ⟨rest, rfl⟩ := hpre
    cases n with
    | zero => cases hf
    | succ n =>
      rw [fgets] at hf
      rw [List.cons_append, fgets]
      by_cases hc : c = newline
      · rw [if_pos hc] at hf ⊢
        exact hf
      · rw [if_neg hc] at hf ⊢
        have htail : fgets n bytes = bytes := (List.cons.inj hf).2
        refine congrArg (c :: ·) (ih (List.prefix_append _ _) htail ?_)
        rcases hend with hend | hend | hend
        · cases bytes with
          | nil => exact absurd (Option.some.inj hend) hc
          | cons d bytes => exact .inl hend
        · exact .inr (.inl (Nat.succ.inj hend))
        · exact .inr (.inr (List.cons.inj hend).2)

/-- The beginning of a line that has an end is the line. -/
theorem eq_of_ended {n : Nat} {line x : List UInt8} (hf : fgets n line = line) (hpre : x <+: line)
    (hend : x.getLast? = some newline ∨ x.length = n) : x = line := by
  induction x generalizing n line with
  | nil =>
    rcases hend with hend | hend
    · cases hend
    · obtain rfl : n = 0 := hend.symm
      exact hf
  | cons c x ih =>
    obtain ⟨rest, rfl⟩ := hpre
    cases n with
    | zero => cases hf
    | succ n =>
      rw [List.cons_append, fgets] at hf
      by_cases hc : c = newline
      · rw [if_pos hc] at hf
        have hnil : x ++ rest = [] := (List.cons.inj hf).2.symm
        rw [List.cons_append, hnil, (List.append_eq_nil_iff.mp hnil).1]
      · rw [if_neg hc] at hf
        have htail : fgets n (x ++ rest) = x ++ rest := (List.cons.inj hf).2
        refine congrArg (c :: ·) (ih htail (List.prefix_append _ _) ?_)
        rcases hend with hend | hend
        · cases x with
          | nil => exact absurd (Option.some.inj hend) hc
          | cons d x => exact .inl hend
        · exact .inr (Nat.succ.inj hend)

theorem fgets_fgets (n : Nat) (s : List UInt8) : fgets n (fgets n s) = fgets n s := by
  induction s generalizing n with
  | nil => cases n <;> rfl
  | cons c s ih =>
    cases n with
    | zero => rfl
    | succ n =>
      rw [fgets]
      by_cases hc : c = newline
      · rw [if_pos hc, fgets, if_pos hc]
      · rw [if_neg hc, fgets, if_neg hc, ih]

/-- Only at the end of the input does a line have no end. -/
theorem fgets_eq_self {n : Nat} {s : List UInt8}
    (hend : ¬ ((fgets n s).getLast? = some newline ∨ (fgets n s).length = n)) : fgets n s = s := by
  induction s generalizing n with
  | nil => cases n <;> rfl
  | cons c s ih =>
    cases n with
    | zero => exact absurd (.inr rfl) hend
    | succ n =>
      rw [fgets] at hend ⊢
      by_cases hc : c = newline
      · rw [if_pos hc] at hend
        exact absurd (.inl (congrArg some hc)) hend
      · rw [if_neg hc] at hend ⊢
        refine congrArg (c :: ·) (ih fun h ↦ hend (h.imp (fun hlast ↦ ?_) fun hlen ↦ congrArg (· + 1) hlen))
        rw [List.getLast?_cons, hlast]
        rfl

/-- The call that takes these bytes. -/
theorem lines_cons {bytes s : List UInt8} (hne : bytes ≠ []) (hpre : bytes <+: s)
    (hf : fgets most bytes = bytes) (hend : Ended bytes ∨ bytes = s) :
    lines s = bytes :: lines (s.drop bytes.length) := by
  have hs : s ≠ [] := fun hs ↦ hne (List.prefix_nil.mp (hs ▸ hpre))
  have hline : fgets most s = bytes :=
    fgets_of_prefix hpre hf (hend.elim (fun h ↦ h.elim .inl fun h ↦ .inr (.inl h)) fun h ↦ .inr (.inr h))
  rw [lines_of_ne hs, hline]

/-- The server's answer to the line ends where the line ends. -/
def Whole (line : List UInt8) : Prop := Ended line ∧ 0 ∉ line

instance (line : List UInt8) : Decidable (Whole line) := inferInstanceAs (Decidable (_ ∧ _))

theorem prefix_cstring (s : List UInt8) : cstring s <+: s := List.takeWhile_prefix _

theorem cstring_eq {s : List UInt8} (h : 0 ∉ s) : cstring s = s := by
  refine List.takeWhile_eq_self_iff.mpr fun b hb ↦ decide_eq_true fun hzero ↦ h ?_
  rwa [hzero] at hb

theorem zero_notMem_cstring (s : List UInt8) : 0 ∉ cstring s := by
  intro h
  have := List.mem_takeWhile_imp h
  simp at this

/-- When an end has been read from the socket, that is the line and nothing else is under way. -/
theorem whole_of_ended {line x y : List UInt8} (hf : fgets most line = line) (hline : cstring line = x ++ y)
    (hend : Ended x) : x = line ∧ y = [] ∧ Whole line := by
  have hpre : x <+: line := ((List.prefix_append x y).trans (hline ▸ List.prefix_refl _)).trans (prefix_cstring line)
  have hx : x = line := eq_of_ended hf hpre hend
  have hlen := (prefix_cstring line).length_le
  rw [hline, List.length_append, hx] at hlen
  have hy : y = [] := List.eq_nil_of_length_eq_zero (by omega)
  refine ⟨hx, hy, hx ▸ hend, fun hzero ↦ zero_notMem_cstring line ?_⟩
  rwa [hline, hy, List.append_nil, hx]

/-! ### One line at a time -/

/-- The bytes between the two calls of the client, in order. -/
def way (w : World) : List UInt8 := w.back ++ w.server.held ++ w.forth

theorem Serves.way {c : Room} {w w' : World} (h : Serves c w w') : way w' = way w := by
  unfold LockStep.way
  cases h with
  | read k hs hpos hline hlen =>
    rw [hs]
    simp [Server.held]
  | eof hs hforth hfin =>
    rw [hs]
    rfl
  | write rest k hs hpos hk hroom =>
    rw [hs]
    by_cases hlast : k = rest.length
    · simp [hlast, Server.held]
    · simp [if_neg hlast, Server.held]

/-- Where the bytes of a line are that has been taken and not been shown. -/
def Spread (line : List UInt8) (s : StrCli) (w : World) : Prop :=
  match s.pc with
  | .send rest => rest ≠ [] ∧ s.read_buf = [] ∧ cstring line = way w ++ rest
  | .line stored =>
    newline ∉ stored ∧ stored.length < most ∧ cstring line = stored ++ (s.read_buf ++ way w)
  | .show recvline => recvline = line ∧ Whole line ∧ s.read_buf = [] ∧ way w = []
  | _ => False

/-- Which lines have been shown, and where the one is that has not. -/
inductive Place (input : List UInt8) (s : StrCli) (w : World) : Prop
  | between (shown : List (List UInt8)) : s.pc = .get ∨ s.pc = .returned ∧ w.input = [] → s.read_buf = [] →
      way w = [] → (∀ line ∈ shown, Whole line) → w.output = shown.flatten →
      lines input = shown ++ lines w.input → Place input s w
  | within (shown : List (List UInt8)) (line : List UInt8) : fgets most line = line → Spread line s w →
      (∀ line ∈ shown, Whole line) → w.output = shown.flatten →
      lines input = shown ++ line :: lines w.input → Place input s w

/-- What holds in every state. -/
structure Kept (c : Room) (input : List UInt8) (s : StrCli) (w : World) : Prop where
  fitting : Fitting c w
  fin : w.fin = false
  opened : w.server ≠ .closed
  place : Place input s w

variable {c : Room} {input : List UInt8} {s t : StrCli} {w u : World}

theorem kept_start (c : Room) (input : List UInt8) : Kept c input start (.start input) where
  fitting := ⟨Nat.zero_le _, fun rest h ↦ by cases h⟩
  fin := rfl
  opened := Server.noConfusion
  place := .between [] (.inl rfl) rfl rfl (fun _ h ↦ by cases h) rfl rfl

/-- A step of the server. -/
theorem Kept.serves (h : Kept c input s w) (hw : Serves c w u) : Kept c input s u := by
  have hway := Serves.way hw
  have hsame : u.input = w.input ∧ u.output = w.output := by cases hw <;> exact ⟨rfl, rfl⟩
  refine ⟨hw.fitting h.fitting, hw.fin.trans h.fin, ?_, ?_⟩
  · cases hw with
    | read k hs => exact Server.noConfusion
    | eof hs hforth hfin =>
      rw [h.fin] at hfin
      cases hfin
    | write rest k hs =>
      change (if k = rest.length then Server.reading else .writing (rest.drop k)) ≠ .closed
      split <;> exact Server.noConfusion
  · cases h.place with
    | between shown hpc hbuf hnil hwhole hout hlines =>
      rw [← hsame.1] at hpc hlines
      rw [← hsame.2] at hout
      exact .between shown hpc hbuf (hway.trans hnil) hwhole hout hlines
    | within shown line hline hspread hwhole hout hlines =>
      rw [← hsame.1] at hlines
      rw [← hsame.2] at hout
      refine .within shown line hline ?_ hwhole hout hlines
      unfold Spread at hspread ⊢
      rwa [hway]

/-- `Writen` begins, or has nothing to send. -/
theorem spread_writen {line rest : List UInt8} (hbuf : s.read_buf = []) (h : cstring line = way w ++ rest) :
    Spread line { s with pc := writen rest } w := by
  unfold writen
  by_cases hnil : rest = []
  · rw [if_pos hnil]
    rw [hnil, List.append_nil] at h
    refine ⟨List.not_mem_nil, by decide, ?_⟩
    rw [h, hbuf]
    rfl
  · rw [if_neg hnil]
    exact ⟨hnil, hbuf, h⟩

/-- A line is taken. -/
theorem Place.take {bytes : List UInt8} (h : Place input s w) (hpc : s.pc = .get) (hne : bytes ≠ [])
    (hpre : bytes <+: w.input) (hf : fgets most bytes = bytes) (hend : Ended bytes ∨ bytes = w.input) :
    Place input { s with pc := writen (cstring bytes) } { w with input := w.input.drop bytes.length } := by
  cases h with
  | between shown _ hbuf hway hwhole hout hlines =>
    rw [lines_cons hne hpre hf hend] at hlines
    refine .within shown bytes hf (spread_writen hbuf ?_) hwhole hout hlines
    change cstring bytes = way w ++ cstring bytes
    rw [hway]
    rfl
  | within shown line hline hspread hwhole hout hlines =>
    simp only [Spread, hpc] at hspread

/-- A byte is stored. -/
theorem Spread.store {line stored buf : List UInt8} {b : UInt8} (hf : fgets most line = line)
    (h : Spread line s w) (hpc : s.pc = .line stored) (hbuf : s.read_buf = b :: buf) :
    Spread line ⟨if b = newline ∨ stored.length + 1 = most then .show (stored ++ [b])
      else .line (stored ++ [b]), buf⟩ w := by
  simp only [Spread, hpc] at h
  obtain ⟨hnew, hlen, hline⟩ := h
  have hcons : cstring line = (stored ++ [b]) ++ (buf ++ way w) := by
    rw [hline, hbuf]
    simp
  by_cases hend : b = newline ∨ stored.length + 1 = most
  · have hended : Ended (stored ++ [b]) := by
      refine hend.imp (fun hb ↦ ?_) fun hn ↦ ?_
      · rw [hb, List.getLast?_concat]
      · rwa [List.length_append, List.length_singleton]
    obtain ⟨hx, hy, hwhole⟩ := whole_of_ended hf hcons hended
    rw [if_pos hend]
    exact ⟨hx, hwhole, List.append_eq_nil_iff.mp hy⟩
  · rw [if_neg hend]
    push Not at hend
    refine ⟨fun hmem ↦ ?_, ?_, hcons⟩
    · rcases List.mem_append.mp hmem with hmem | hmem
      · exact hnew hmem
      · exact hend.1 (List.mem_singleton.mp hmem).symm
    · rw [List.length_append, List.length_singleton]
      have := hend.2
      omega

/-- A step of the client. -/
theorem Kept.does {es : List Io} (h : Kept c input s w) (hd : Does s es t) (hw : w.ios c es = some u) :
    Kept c input t u := by
  have hfit := h.fitting.ios hw
  have hplace := h.place
  cases hd with
  | finish hpc =>
    rw [World.ios_one] at hw
    obtain ⟨hnil, hw⟩ := Option.ite_none_right_eq_some.mp hw
    cases hw
    refine ⟨hfit, h.fin, h.opened, ?_⟩
    cases hplace with
    | between shown _ hbuf hway hwhole hout hlines =>
      exact .between shown (.inr ⟨rfl, hnil⟩) hbuf hway hwhole hout hlines
    | within shown line hline hspread => simp only [Spread, hpc] at hspread
  | take bytes hpc hf hend =>
    rw [World.ios_one] at hw
    obtain ⟨⟨hne, hpre⟩, hw⟩ := Option.ite_none_right_eq_some.mp hw
    cases hw
    exact ⟨hfit, h.fin, h.opened, hplace.take hpc hne hpre hf (.inl hend)⟩
  | takeLast bytes hpc hf hend =>
    obtain ⟨v, hv, hw⟩ := Option.bind_eq_some_iff.mp hw
    obtain ⟨⟨hne, hpre⟩, hv⟩ := Option.ite_none_right_eq_some.mp hv
    cases hv
    rw [World.ios_one] at hw
    obtain ⟨hnil, hw⟩ := Option.ite_none_right_eq_some.mp hw
    cases hw
    have hall : bytes = w.input := by
      refine hpre.eq_of_length_le ?_
      exact List.drop_eq_nil_iff.mp hnil
    exact ⟨hfit, h.fin, h.opened, hplace.take hpc hne hpre hf (.inr hall)⟩
  | send rest bytes hpc hpre =>
    rw [World.ios_one] at hw
    obtain ⟨-, hw⟩ := Option.ite_none_right_eq_some.mp hw
    cases hw
    refine ⟨hfit, h.fin, h.opened, ?_⟩
    cases hplace with
    | between shown hpc' => simp [hpc] at hpc'
    | within shown line hline hspread hwhole hout hlines =>
      simp only [Spread, hpc] at hspread
      obtain ⟨-, hbuf, hcstring⟩ := hspread
      refine .within shown line hline (spread_writen hbuf ?_) hwhole hout hlines
      rw [hcstring]
      obtain ⟨more, rfl⟩ := hpre
      simp [way]
  | store stored buf b hpc hbuf =>
    cases hw
    refine ⟨hfit, h.fin, h.opened, ?_⟩
    cases hplace with
    | between shown hpc' => simp [hpc] at hpc'
    | within shown line hline hspread hwhole hout hlines =>
      exact .within shown line hline (hspread.store hline hpc hbuf) hwhole hout hlines
  | receive stored bytes hpc hbuf hfits =>
    rw [World.ios_one] at hw
    obtain ⟨⟨-, hpre⟩, hw⟩ := Option.ite_none_right_eq_some.mp hw
    cases hw
    refine ⟨hfit, h.fin, h.opened, ?_⟩
    cases hplace with
    | between shown hpc' => simp [hpc] at hpc'
    | within shown line hline hspread hwhole hout hlines =>
      simp only [Spread, hpc] at hspread
      obtain ⟨hnew, hlen, hcstring⟩ := hspread
      refine .within shown line hline ?_ hwhole hout hlines
      simp only [Spread, hpc]
      refine ⟨hnew, hlen, ?_⟩
      rw [hcstring, hbuf]
      obtain ⟨more, hmore⟩ := hpre
      simp [way, ← hmore]
  | sockEof stored hpc hbuf =>
    rw [World.ios_one] at hw
    obtain ⟨⟨-, hclosed⟩, -⟩ := Option.ite_none_right_eq_some.mp hw
    exact absurd hclosed h.opened
  | «show» recvline hpc =>
    rw [World.ios_one] at hw
    cases hw
    refine ⟨hfit, h.fin, h.opened, ?_⟩
    cases hplace with
    | between shown hpc' => simp [hpc] at hpc'
    | within shown line hline hspread hwhole hout hlines =>
      simp only [Spread, hpc] at hspread
      obtain ⟨rfl, hthis, hbuf, hway⟩ := hspread
      refine .between (shown ++ [recvline]) (.inl rfl) hbuf hway ?_ ?_ ?_
      · intro line hmem
        rcases List.mem_append.mp hmem with hmem | hmem
        · exact hwhole line hmem
        · rwa [List.mem_singleton.mp hmem]
      · rw [hout, cstring_eq hthis.2]
        simp
      · rw [hlines, List.append_assoc]
        rfl

theorem Kept.step {x y : StrCli × World} {a : Act} (h : Kept c input x.1 x.2) (hstep : Step Client c x a y) :
    Kept c input y.1 y.2 := by
  cases a with
  | client es => exact h.does (does_of_step hstep.1) hstep.2
  | server k =>
    obtain ⟨hs, hserve⟩ := hstep
    rw [hs]
    exact h.serves (serves_of_serve hserve)

theorem kept_of_run {x : StrCli × World} (h : Run (Step Client c) (start, .start input) x) :
    Kept c input x.1 x.2 :=
  h.preserves (I := fun x ↦ Kept c input x.1 x.2) (fun _ _ _ hk _ hstep ↦ hk.step hstep) (kept_start c input)

/-! ### How long it takes -/

/-- What is left to do at a place. -/
def Pc.work : Pc → Nat
  | .get => 1
  | .send rest => 6 * rest.length + 3
  | .line _ => 3
  | .show _ => 2
  | _ => 0

/-- What is left to do, byte by byte. -/
def work (x : StrCli × World) : Nat :=
  10 * x.2.input.length + x.1.pc.work + 5 * x.2.forth.length + 4 * x.2.server.held.length +
    3 * x.2.back.length + 2 * x.1.read_buf.length

theorem work_writen (rest : List UInt8) : (writen rest).work = 6 * rest.length + 3 := by
  unfold writen
  by_cases hnil : rest = []
  · rw [if_pos hnil, hnil]
    rfl
  · rw [if_neg hnil]
    rfl

theorem work_take {bytes : List UInt8} (hpc : s.pc = .get) (hne : bytes ≠ []) (hpre : bytes <+: w.input) :
    work ({ s with pc := writen (cstring bytes) }, { w with input := w.input.drop bytes.length }) <
      work (s, w) := by
  have hpos := List.length_pos_iff.mpr hne
  have hlen := hpre.length_le
  have hcstring := (prefix_cstring bytes).length_le
  simp only [work, work_writen, hpc, List.length_drop]
  simp only [Pc.work]
  omega

theorem work_does {es : List Io} (h : Kept c input s w) (hd : Does s es t) (hw : w.ios c es = some u) :
    work (t, u) < work (s, w) := by
  cases hd with
  | finish hpc =>
    rw [World.ios_one] at hw
    obtain ⟨-, hw⟩ := Option.ite_none_right_eq_some.mp hw
    cases hw
    simp only [work, hpc, Pc.work]
    omega
  | take bytes hpc hf hend =>
    rw [World.ios_one] at hw
    obtain ⟨⟨hne, hpre⟩, hw⟩ := Option.ite_none_right_eq_some.mp hw
    cases hw
    exact work_take hpc hne hpre
  | takeLast bytes hpc hf hend =>
    obtain ⟨v, hv, hw⟩ := Option.bind_eq_some_iff.mp hw
    obtain ⟨⟨hne, hpre⟩, hv⟩ := Option.ite_none_right_eq_some.mp hv
    cases hv
    rw [World.ios_one] at hw
    obtain ⟨-, hw⟩ := Option.ite_none_right_eq_some.mp hw
    cases hw
    exact work_take hpc hne hpre
  | send rest bytes hpc hpre =>
    rw [World.ios_one] at hw
    obtain ⟨⟨hne, -, -⟩, hw⟩ := Option.ite_none_right_eq_some.mp hw
    cases hw
    have hpos := List.length_pos_iff.mpr hne
    have hlen := hpre.length_le
    simp only [work, work_writen, hpc, List.length_drop, List.length_append]
    simp only [Pc.work]
    omega
  | store stored buf b hpc hbuf =>
    cases hw
    have hle : (if b = newline ∨ stored.length + 1 = most then Pc.show (stored ++ [b])
        else .line (stored ++ [b])).work ≤ 3 := by
      split
      · exact Nat.le_succ 2
      · exact Nat.le_refl 3
    simp only [work, hpc, hbuf, Pc.work, List.length_cons] at hle ⊢
    omega
  | receive stored bytes hpc hbuf hfits =>
    rw [World.ios_one] at hw
    obtain ⟨⟨hne, hpre⟩, hw⟩ := Option.ite_none_right_eq_some.mp hw
    cases hw
    have hpos := List.length_pos_iff.mpr hne
    have hlen := hpre.length_le
    simp only [work, hpc, hbuf, Pc.work, List.length_drop, List.length_nil]
    omega
  | sockEof stored hpc hbuf =>
    rw [World.ios_one] at hw
    obtain ⟨⟨-, hclosed⟩, -⟩ := Option.ite_none_right_eq_some.mp hw
    exact absurd hclosed h.opened
  | «show» recvline hpc =>
    rw [World.ios_one] at hw
    cases hw
    simp only [work, hpc, Pc.work]
    omega

theorem work_serves (h : Kept c input s w) (hw : Serves c w u) : work (s, u) < work (s, w) := by
  cases hw with
  | read k hs hpos hline hlen =>
    simp only [work, hs, Server.held, List.length_take, List.length_drop, List.length_nil]
    omega
  | eof hs hforth hfin =>
    rw [h.fin] at hfin
    cases hfin
  | write rest k hs hpos hk hroom =>
    by_cases hlast : k = rest.length
    · simp only [work, hs, if_pos hlast, Server.held, List.length_append, List.length_take, List.length_nil]
      omega
    · simp only [work, hs, if_neg hlast, Server.held, List.length_append, List.length_take, List.length_drop]
      omega

/-- Every step lowers what is left to do. -/
theorem Kept.work_lt {x y : StrCli × World} {a : Act} (h : Kept c input x.1 x.2)
    (hstep : Step Client c x a y) : work y < work x := by
  obtain ⟨s, w⟩ := x
  obtain ⟨t, u⟩ := y
  cases a with
  | client es => exact work_does h (does_of_step hstep.1) hstep.2
  | server k =>
    obtain ⟨hs, hserve⟩ := hstep
    obtain rfl : t = s := hs
    exact work_serves h (serves_of_serve hserve)

/-! ### Where they wait -/

/-- The client and the server can wait for each other over this line. -/
def Sticks (c : Room) (line : List UInt8) : Prop := ¬ Whole line ∨ c.forth + c.back + 2 ≤ line.length

theorem ios_two {v : World} {e e' : Io} (he : w.io c e = some v) (he' : v.io c e' = some u) :
    w.ios c [e, e'] = some u := by
  rw [World.ios, he, Option.bind_some, World.ios_one, he']

/-- `Fgets` returns a line, or finds the end. -/
theorem not_stuck_get {buf : List UInt8} : ¬ Stuck Client c (⟨.get, buf⟩, w) := by
  by_cases hnil : w.input = []
  · have hstep : step ⟨.get, buf⟩ [.stdinEof] = some ⟨.returned, buf⟩ := rfl
    refine not_stuck_of_client hstep (u := w) ?_
    rw [World.ios_one]
    exact if_pos hnil
  · have hpre := prefix_fgets most w.input
    have hne := fgets_ne_nil (by decide : 0 < most) hnil
    have hf : fgets most (fgets most w.input) = fgets most w.input := fgets_fgets most w.input
    have htyped : w.io c (.typed (fgets most w.input)) =
        some { w with input := w.input.drop (fgets most w.input).length } := if_pos ⟨hne, hpre⟩
    by_cases hend : Ended (fgets most w.input)
    · have hstep : step ⟨.get, buf⟩ [.typed (fgets most w.input)] =
          some ⟨writen (cstring (fgets most w.input)), buf⟩ := if_pos ⟨hf, hend⟩
      exact not_stuck_of_client hstep ((World.ios_one c w _).trans htyped)
    · have hstep : step ⟨.get, buf⟩ [.typed (fgets most w.input), .stdinEof] =
          some ⟨writen (cstring (fgets most w.input)), buf⟩ := if_pos ⟨hf, hend⟩
      have hall : w.input.drop (fgets most w.input).length = [] := by
        rw [fgets_eq_self hend, List.drop_length]
      have heof : World.io c { w with input := w.input.drop (fgets most w.input).length } .stdinEof =
          some { w with input := w.input.drop (fgets most w.input).length } := if_pos hall
      exact not_stuck_of_client hstep (ios_two htyped heof)

/-- While a line is sent, the two wait for each other only where it fills both ways. -/
theorem length_of_stuck_send {line rest buf : List UInt8} (h : Kept c input ⟨.send rest, buf⟩ w)
    (hspread : Spread line ⟨.send rest, buf⟩ w) (hforth : 0 < c.forth)
    (hstuck : Stuck Client c (⟨.send rest, buf⟩, w)) : c.forth + c.back + 2 ≤ line.length := by
  obtain ⟨hne, -, hcstring⟩ := hspread
  have hpos := List.length_pos_iff.mpr hne
  by_cases hroom : w.forth.length < c.forth
  · have hlen : (rest.take 1).length = 1 := by
      rw [List.length_take]
      omega
    have hbytes : rest.take 1 ≠ [] := List.length_pos_iff.mp (by omega)
    have hstep : step ⟨.send rest, buf⟩ [.sent (rest.take 1)] =
        some ⟨writen (rest.drop (rest.take 1).length), buf⟩ := if_pos (List.take_prefix 1 rest)
    refine absurd hstuck (not_stuck_of_client hstep (u := { w with forth := w.forth ++ rest.take 1 }) ?_)
    rw [World.ios_one]
    exact if_pos ⟨hbytes, h.fin, by rw [hlen]; exact hroom⟩
  · rcases h.fitting.serve_or with ⟨k, u, hu⟩ | hclosed | ⟨-, hnil, -⟩ | ⟨more, hmore, hfull⟩
    · exact absurd hstuck (not_stuck_of_server hu)
    · exact absurd hclosed h.opened
    · rw [hnil, List.length_nil] at hroom
      omega
    · have hmorepos := (h.fitting.rest more hmore).1
      have hlen := (prefix_cstring line).length_le
      rw [hcstring] at hlen
      simp only [way, hmore, Server.held, List.length_append] at hlen
      omega

/-- While the answer to a line is read, only where it has come back and has no end. -/
theorem not_whole_of_stuck_line {line stored buf : List UInt8} (h : Kept c input ⟨.line stored, buf⟩ w)
    (hspread : Spread line ⟨.line stored, buf⟩ w) (hback : 0 < c.back)
    (hstuck : Stuck Client c (⟨.line stored, buf⟩, w)) : ¬ Whole line := by
  obtain ⟨hnew, hlen, hcstring⟩ := hspread
  cases buf with
  | cons b buf =>
    have hstep : step ⟨.line stored, b :: buf⟩ [] = some ⟨if b = newline ∨ stored.length + 1 = most
      then .show (stored ++ [b]) else .line (stored ++ [b]), buf⟩ := rfl
    exact absurd hstuck (not_stuck_of_client hstep rfl)
  | nil =>
    by_cases hnil : w.back = []
    · rcases h.fitting.serve_or with ⟨k, u, hu⟩ | hclosed | ⟨hreading, hforth, -⟩ | ⟨more, -, hfull⟩
      · exact absurd hstuck (not_stuck_of_server hu)
      · exact absurd hclosed h.opened
      · rintro ⟨hended, hzero⟩
        rw [cstring_eq hzero] at hcstring
        have hall : line = stored := by
          rw [hcstring]
          simp [way, hnil, hreading, Server.held, hforth]
        rw [hall] at hended
        rcases hended with hlast | hmost
        · exact hnew (List.mem_of_getLast? hlast)
        · omega
      · rw [hnil, List.length_nil] at hfull
        omega
    · have hpos := List.length_pos_iff.mpr hnil
      have hbytes : w.back.take 1 ≠ [] := List.length_pos_iff.mp (by
        rw [List.length_take]
        omega)
      have hfits : (w.back.take 1).length ≤ maxLine := (List.length_take_le 1 _).trans (by decide)
      have hstep : step ⟨.line stored, []⟩ [.received (w.back.take 1)] =
          some ⟨.line stored, w.back.take 1⟩ := if_pos ⟨rfl, hfits⟩
      refine absurd hstuck (not_stuck_of_client hstep
        (u := { w with back := w.back.drop (w.back.take 1).length }) ?_)
      rw [World.ios_one]
      exact if_pos ⟨hbytes, List.take_prefix _ _⟩

/-- Before the function returns, a line is being sent or waited for, or there is a step. -/
theorem stuck_cases (h : Kept c input s w) (hforth : 0 < c.forth) (hback : 0 < c.back)
    (hreturned : s.pc ≠ .returned) (hstuck : Stuck Client c (s, w)) :
    ∃ line ∈ lines input, Sticks c line := by
  obtain ⟨pc, buf⟩ := s
  cases h.place with
  | between shown hpc hbuf hway hwhole hout hlines =>
    rcases hpc with hpc | ⟨hpc, -⟩
    · obtain rfl : pc = .get := hpc
      exact absurd hstuck not_stuck_get
    · exact absurd hpc hreturned
  | within shown line hline hspread hwhole hout hlines =>
    refine ⟨line, by rw [hlines]; simp, ?_⟩
    cases pc with
    | send rest => exact .inr (length_of_stuck_send h hspread hforth hstuck)
    | line stored => exact .inl (not_whole_of_stuck_line h hspread hback hstuck)
    | «show» recvline =>
      have hstep : step ⟨.show recvline, buf⟩ [.shown (cstring recvline)] = some ⟨.get, buf⟩ := if_pos rfl
      exact absurd hstuck (not_stuck_of_client hstep (World.ios_one c w _))
    | get => exact hspread.elim
    | returned => exact hspread.elim
    | quit => exact hspread.elim

/-- When the function has returned, every line has been shown. -/
theorem Kept.of_returned (h : Kept c input s w) (hreturned : s.pc = .returned) :
    w.output = input ∧ ∀ line ∈ lines input, Whole line := by
  cases h.place with
  | between shown hpc hbuf hway hwhole hout hlines =>
    rcases hpc with hpc | ⟨-, hnil⟩
    · rw [hreturned] at hpc
      cases hpc
    · rw [hnil, lines_nil, List.append_nil] at hlines
      rw [hout, hlines]
      refine ⟨?_, hwhole⟩
      rw [← hlines, lines_flatten]
  | within shown line hline hspread => simp only [Spread, hreturned] at hspread

theorem Kept.output_prefix (h : Kept c input s w) : w.output <+: input := by
  rw [← lines_flatten input]
  cases h.place with
  | between shown hpc hbuf hway hwhole hout hlines =>
    rw [hlines, hout, List.flatten_append]
    exact List.prefix_append _ _
  | within shown line hline hspread hwhole hout hlines =>
    rw [hlines, hout, List.flatten_append]
    exact List.prefix_append _ _

theorem Kept.not_quit (h : Kept c input s w) : s.pc ≠ .quit := by
  intro hquit
  cases h.place with
  | between shown hpc => simp [hquit] at hpc
  | within shown line hline hspread => simp only [Spread, hquit] at hspread

/-- A step takes a line from the input, or none. -/
theorem input_does {es : List Io} (hd : Does s es t) (hw : w.ios c es = some u) :
    u.input = w.input ∨ s.pc = .get ∧ ∃ line, lines w.input = line :: lines u.input := by
  cases hd with
  | take bytes hpc hf hend =>
    rw [World.ios_one] at hw
    obtain ⟨⟨hne, hpre⟩, hw⟩ := Option.ite_none_right_eq_some.mp hw
    cases hw
    exact .inr ⟨hpc, bytes, lines_cons hne hpre hf (.inl hend)⟩
  | takeLast bytes hpc hf hend =>
    obtain ⟨v, hv, hw⟩ := Option.bind_eq_some_iff.mp hw
    obtain ⟨⟨hne, hpre⟩, hv⟩ := Option.ite_none_right_eq_some.mp hv
    cases hv
    rw [World.ios_one] at hw
    obtain ⟨hnil, hw⟩ := Option.ite_none_right_eq_some.mp hw
    cases hw
    have hall : bytes = w.input := hpre.eq_of_length_le (List.drop_eq_nil_iff.mp hnil)
    exact .inr ⟨hpc, bytes, lines_cons hne hpre hf (.inr hall)⟩
  | store stored buf b hpc hbuf =>
    cases hw
    exact .inl rfl
  | «show» recvline hpc =>
    rw [World.ios_one] at hw
    cases hw
    exact .inl rfl
  | _ =>
    rw [World.ios_one] at hw
    obtain ⟨-, hw⟩ := Option.ite_none_right_eq_some.mp hw
    cases hw
    exact .inl rfl

theorem input_serves (hw : Serves c w u) : u.input = w.input := by cases hw <;> rfl

theorem input_step {x y : StrCli × World} {a : Act} (hstep : Step Client c x a y) :
    y.2.input = x.2.input ∨ x.1.pc = .get ∧ ∃ line, lines x.2.input = line :: lines y.2.input := by
  cases a with
  | client es => exact input_does (does_of_step hstep.1) hstep.2
  | server k => exact .inl (input_serves (serves_of_serve hstep.2))

/-- Unless they wait for each other before, each line comes to be the next. -/
theorem reaches_line (hnot : ∀ x, Run (Step Client c) (start, .start input) x → x.1.pc ≠ .returned →
      ¬ Stuck Client c x) {shown rest : List (List UInt8)} {line : List UInt8}
    (hlines : lines input = shown ++ line :: rest) :
    ∃ x, Run (Step Client c) (start, .start input) x ∧ x.1.pc = .get ∧ lines x.2.input = line :: rest := by
  have hgoal := reaches_of_rank (Step Client c) work (s := (start, .start input))
    (I := fun x ↦ Run (Step Client c) (start, .start input) x ∧ (line :: rest).length ≤ (lines x.2.input).length)
    (fun x ↦ x.1.pc = .get ∧ (lines x.2.input).length = (line :: rest).length) ?_ ?_
  · obtain ⟨x, -, ⟨hrun, -⟩, hget, hlen⟩ := hgoal
    refine ⟨x, hrun, hget, ?_⟩
    cases (kept_of_run hrun).place with
    | between past hpc hbuf hway hwhole hout hpast =>
      rw [hlines] at hpast
      exact (List.append_inj_right' hpast hlen.symm).symm
    | within past line hline hspread => simp only [Spread, hget] at hspread
  · rintro x ⟨hrun, hle⟩
    have hk := kept_of_run hrun
    by_cases hgoal : x.1.pc = .get ∧ (lines x.2.input).length = (line :: rest).length
    · exact .inl hgoal
    · have hreturned : x.1.pc ≠ .returned := by
        intro hreturned
        obtain ⟨-, hwhole⟩ := hk.of_returned hreturned
        cases hk.place with
        | between past hpc =>
          rcases hpc with hpc | ⟨-, hnil⟩
          · rw [hreturned] at hpc
            cases hpc
          · rw [hnil, lines_nil] at hle
            cases hle
        | within past line hline hspread => simp only [Spread, hreturned] at hspread
      have hmove := hnot x hrun hreturned
      unfold Stuck at hmove
      push Not at hmove
      obtain ⟨a, y, hstep⟩ := hmove
      have hnext : Run (Step Client c) (start, .start input) y := RunWith.snoc hrun True.intro hstep
      refine .inr ⟨y, RunWith.snoc RunWith.refl True.intro hstep, ⟨hnext, ?_⟩, hk.work_lt hstep⟩
      rcases input_step hstep with hsame | ⟨hget, next, hnext⟩
      · rwa [hsame]
      · have hne : (lines x.2.input).length ≠ (line :: rest).length := fun hlen ↦ hgoal ⟨hget, hlen⟩
        simp only [hnext, List.length_cons] at hle hne ⊢
        omega
  · refine ⟨RunWith.refl, ?_⟩
    change _ ≤ (lines input).length
    rw [hlines, List.length_append]
    exact Nat.le_add_left _ _

section brim
variable {i b x y out : List UInt8}

theorem run_client {v : World} {e : Io} (h : step s [e] = some t) (hw : w.io c e = some v) :
    Run (Step Client c) (s, w) (t, v) :=
  RunWith.snoc RunWith.refl True.intro (a := .client [e]) ⟨h, (World.ios_one c w e).trans hw⟩

theorem run_server {v : World} {k : Nat} (hw : w.serve c k = some v) : Run (Step Client c) (s, w) (s, v) :=
  RunWith.snoc RunWith.refl True.intro (a := .server k) ⟨rfl, hw⟩

/-- `Writen` sends some of its bytes. -/
theorem run_sent {f : List UInt8} {v : Server} (hx : x ≠ []) (hy : y ≠ []) (hroom : f.length + x.length ≤ c.forth) :
    Run (Step Client c) (⟨.send (x ++ y), []⟩, ⟨i, f, false, v, b, out⟩)
      (⟨.send y, []⟩, ⟨i, f ++ x, false, v, b, out⟩) := by
  have hstep : step ⟨.send (x ++ y), []⟩ [.sent x] = some ⟨.send y, []⟩ := by
    refine (if_pos (List.prefix_append x y)).trans ?_
    rw [List.drop_left, writen, if_neg hy]
  exact run_client hstep (if_pos ⟨hx, rfl, hroom⟩)

/-- The server takes the one byte there is. -/
theorem run_read {d : UInt8} : Run (Step Client c) (s, ⟨i, [d], false, .reading, b, out⟩)
    (s, ⟨i, [], false, .writing [d], b, out⟩) :=
  run_server (k := 1) rfl

/-- Byte after byte comes back while the client sends. -/
theorem run_echo (hforth : 0 < c.forth) (hy : y ≠ []) (hroom : b.length + x.length ≤ c.back) :
    Run (Step Client c) (⟨.send (x ++ y), []⟩, ⟨i, [], false, .reading, b, out⟩)
      (⟨.send y, []⟩, ⟨i, [], false, .reading, b ++ x, out⟩) := by
  induction x generalizing b with
  | nil =>
    rw [List.append_nil]
    exact RunWith.refl
  | cons d x ih =>
    rw [List.length_cons] at hroom
    have hsent : Run (Step Client c) (⟨.send ([d] ++ (x ++ y)), []⟩, ⟨i, [], false, .reading, b, out⟩) _ :=
      run_sent (List.cons_ne_nil d []) (List.append_ne_nil_of_right_ne_nil x hy) hforth
    have hwrite : Run (Step Client c) (⟨.send (x ++ y), []⟩, ⟨i, [], false, .writing [d], b, out⟩)
        (⟨.send (x ++ y), []⟩, ⟨i, [], false, .reading, b ++ [d], out⟩) :=
      run_server (k := 1) (if_pos ⟨Nat.one_pos, Nat.le_refl 1, by change b.length + 1 ≤ _; omega⟩)
    have hrest := ih (b := b ++ [d]) (by rw [List.length_append, List.length_singleton]; omega)
    rw [List.append_assoc] at hrest
    exact RunWith.trans hsent (RunWith.trans run_read (RunWith.trans hwrite hrest))

/-- With both ways full and bytes left on both sides nothing can happen. -/
theorem stuck_full {f r : List UInt8} (hf : c.forth ≤ f.length) (hb : c.back ≤ b.length) :
    Stuck Client c (⟨.send y, []⟩, ⟨i, f, false, .writing r, b, out⟩) := by
  rintro a ⟨t, u⟩ hstep
  cases a with
  | client es =>
    obtain ⟨hclient, hw⟩ := hstep
    cases does_of_step hclient with
    | send rest bytes hpc hpre =>
      rw [World.ios_one] at hw
      obtain ⟨⟨hne, -, hroom⟩, -⟩ := Option.ite_none_right_eq_some.mp hw
      have hpos := List.length_pos_iff.mpr hne
      change f.length + bytes.length ≤ c.forth at hroom
      omega
    | finish hpc => cases hpc
    | take _ hpc => cases hpc
    | takeLast _ hpc => cases hpc
    | store _ _ _ hpc => cases hpc
    | receive _ _ hpc => cases hpc
    | sockEof _ hpc => cases hpc
    | «show» _ hpc => cases hpc
  | server k =>
    obtain ⟨-, hserve⟩ := hstep
    cases serves_of_serve hserve with
    | read _ hs => cases hs
    | eof hs => cases hs
    | write rest k hs hpos hk hroom =>
      change b.length + k ≤ c.back at hroom
      omega

/-- A line that does not fit the two ways, and one byte in the server, is not sent to its end. -/
theorem run_brim {line : List UInt8} (hforth : 0 < c.forth) (hlong : c.forth + c.back + 2 ≤ line.length) :
    ∃ z, Run (Step Client c) (⟨.send line, []⟩, ⟨i, [], false, .reading, [], out⟩) z ∧
      z.1.pc ≠ .returned ∧ Stuck Client c z := by
  obtain ⟨x, y, rfl, hx⟩ : ∃ x y, line = x ++ y ∧ x.length = c.back :=
    ⟨line.take c.back, line.drop c.back, (List.take_append_drop _ _).symm, by rw [List.length_take]; omega⟩
  rw [List.length_append] at hlong
  cases y with
  | nil =>
    rw [List.length_nil] at hlong
    omega
  | cons d y =>
    obtain ⟨f, y, rfl, hf⟩ : ∃ f z, y = f ++ z ∧ f.length = c.forth := by
      refine ⟨y.take c.forth, y.drop c.forth, (List.take_append_drop _ _).symm, ?_⟩
      rw [List.length_take]
      rw [List.length_cons] at hlong
      omega
    rw [List.length_cons, List.length_append] at hlong
    have hy : y ≠ [] := List.length_pos_iff.mp (by omega)
    have hfne : f ≠ [] := List.length_pos_iff.mp (by omega)
    have hback : Run (Step Client c) (⟨.send (x ++ d :: (f ++ y)), []⟩, ⟨i, [], false, .reading, [], out⟩)
        (⟨.send (d :: (f ++ y)), []⟩, ⟨i, [], false, .reading, x, out⟩) :=
      run_echo hforth (List.cons_ne_nil _ _) (by rw [List.length_nil, hx]; omega)
    have hone : Run (Step Client c) (⟨.send ([d] ++ (f ++ y)), []⟩, ⟨i, [], false, .reading, x, out⟩)
        (⟨.send (f ++ y), []⟩, ⟨i, [d], false, .reading, x, out⟩) :=
      run_sent (List.cons_ne_nil d []) (List.append_ne_nil_of_right_ne_nil f hy) hforth
    have hfull : Run (Step Client c) (⟨.send (f ++ y), []⟩, ⟨i, [], false, .writing [d], x, out⟩)
        (⟨.send y, []⟩, ⟨i, f, false, .writing [d], x, out⟩) :=
      run_sent hfne hy (by rw [List.length_nil, hf]; omega)
    exact ⟨_, RunWith.trans hback (RunWith.trans hone (RunWith.trans run_read hfull)), Pc.noConfusion,
      stuck_full hf.ge hx.ge⟩

end brim

/-- They can wait for each other over any line of the input over which they can. -/
theorem exists_stuck (hforth : 0 < c.forth) {line : List UInt8} (hmem : line ∈ lines input)
    (hsticks : Sticks c line) :
    ∃ x, Run (Step Client c) (start, .start input) x ∧ x.1.pc ≠ .returned ∧ Stuck Client c x := by
  by_cases hwhole : Whole line
  · by_contra hnot
    push Not at hnot
    obtain ⟨shown, rest, hlines⟩ := List.append_of_mem hmem
    obtain ⟨⟨⟨pc, buf⟩, w⟩, hrun, hget, hnext⟩ := reaches_line hnot hlines
    obtain rfl : pc = .get := hget
    have hk := kept_of_run hrun
    -- Nothing is under way, and the server waits.
    obtain ⟨i, forth, fin, server, back, out⟩ := w
    obtain ⟨hbuf, hway⟩ : buf = [] ∧ way ⟨i, forth, fin, server, back, out⟩ = [] := by
      cases hk.place with
      | between past hpc hbuf hway => exact ⟨hbuf, hway⟩
      | within past line hline hspread => exact hspread.elim
    obtain ⟨hbackheld, rfl⟩ := List.append_eq_nil_iff.mp hway
    obtain ⟨rfl, hheld⟩ := List.append_eq_nil_iff.mp hbackheld
    obtain rfl : server = .reading := by
      cases server with
      | reading => rfl
      | writing more =>
        have := (hk.fitting.rest more rfl).1
        rw [show more = [] from hheld] at this
        cases this
      | closed => exact absurd rfl hk.opened
    obtain rfl : fin = false := hk.fin
    -- `Fgets` returns the line.
    have hne : i ≠ [] := fun hnil ↦ by
      rw [hnil, lines_nil] at hnext
      cases hnext
    have hline : fgets most i = line := by
      rw [lines_of_ne hne] at hnext
      exact (List.cons.inj hnext).1
    have hf : fgets most line = line := by rw [← hline, fgets_fgets]
    have hlinene : line ≠ [] := hline ▸ fgets_ne_nil (by decide) hne
    have hstep : step ⟨.get, buf⟩ [.typed line] = some ⟨.send line, []⟩ := by
      refine (if_pos ⟨hf, hwhole.1⟩).trans ?_
      rw [cstring_eq hwhole.2, writen, if_neg hlinene, hbuf]
    have htake : Run (Step Client c) (⟨.get, buf⟩, ⟨i, [], false, .reading, [], out⟩)
        (⟨.send line, []⟩, ⟨i.drop line.length, [], false, .reading, [], out⟩) :=
      run_client hstep (if_pos ⟨hlinene, hline ▸ prefix_fgets most i⟩)
    have hlong : c.forth + c.back + 2 ≤ line.length := hsticks.resolve_left fun h ↦ h hwhole
    obtain ⟨z, hbrim, hreturned, hstuck⟩ := run_brim hforth hlong
    exact hnot z (RunWith.trans hrun (RunWith.trans htake hbrim)) hreturned hstuck
  · obtain ⟨x, hrun, hk, hstuck⟩ := ends_of_rank (Step Client c) work
      (I := fun x ↦ Kept c input x.1 x.2) (s := (start, .start input))
      (fun _ _ _ hk hstep ↦ ⟨hk.step hstep, hk.work_lt hstep⟩) (kept_start c input)
    exact ⟨x, hrun, fun hreturned ↦ hwhole ((hk.of_returned hreturned).2 line hmem), hstuck⟩

/-- `str_cli` of `src/lib/str_cli.c` and the echo server. No run goes on forever; what has been shown is the
beginning of the input, and all of it when the function has returned. The two can wait for each other exactly
over a line that the end of the input cuts off, one with a NUL, or one that is too long for the two ways. -/
theorem returns_or_sticks (hforth : 0 < c.forth) (hback : 0 < c.back) (input : List UInt8) :
    (∀ s w, Run (Step Client c) (start, .start input) (s, w) →
      w.output <+: input ∧ s.pc ≠ .quit ∧
        (s.pc = .returned → w.output = input ∧ ∀ line ∈ lines input, Whole line) ∧
        ∀ a y, Step Client c (s, w) a y → work y < work (s, w)) ∧
      ((∃ x, Run (Step Client c) (start, .start input) x ∧ x.1.pc ≠ .returned ∧ Stuck Client c x) ↔
        ∃ line ∈ lines input, Sticks c line) := by
  refine ⟨fun s w hrun ↦ ?_, ?_, ?_⟩
  · have hk := kept_of_run hrun
    exact ⟨hk.output_prefix, hk.not_quit, hk.of_returned, fun a y hstep ↦ hk.work_lt hstep⟩
  · rintro ⟨⟨s, w⟩, hrun, hreturned, hstuck⟩
    exact stuck_cases (kept_of_run hrun) hforth hback hreturned hstuck
  · rintro ⟨line, hmem, hline⟩
    exact exists_stuck hforth hmem hline

/-- A line without its newline is never shown. -/
theorem returns_or_sticks_unended : ∃ x, Run (Step Client ⟨1, 1⟩) (start, .start [104, 105]) x ∧
    x.1.pc ≠ .returned ∧ Stuck Client ⟨1, 1⟩ x := by
  have hline : lines [104, 105] = [[104, 105]] := by
    rw [lines_of_ne (List.cons_ne_nil _ _)]
    exact congrArg ([104, 105] :: ·) lines_nil
  refine (returns_or_sticks Nat.one_pos Nat.one_pos [104, 105]).2.mpr ⟨[104, 105], ?_, .inl ?_⟩
  · rw [hline]
    exact List.mem_singleton_self _
  · decide

end Unpv13e.Echo.LockStep
