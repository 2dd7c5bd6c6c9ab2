import Mathlib

/-!
# `writen` and `readn`

Library `Lib`. `src/lib/writen.c:4–25` and `src/lib/readn.c:4–26`: the loops that call `write` and `read` again
until all bytes have been transferred. How many bytes a call is willing to transfer, or how it fails, is a
parameter; a call that no such answer is left for waits.
-/

namespace Unpv13e.Lib

/-- How a call of `write` or `read` ends. -/
inductive Answer
  /-- it transfers `k` bytes at most -/
  | upTo (k : Nat)
  /-- `-1` with `errno == EINTR` -/
  | interrupted
  /-- `-1` with any other `errno` -/
  | failed
  deriving DecidableEq, Repr

/-- `errno`, as far as it is looked at. -/
inductive Errno
  | eintr
  | other
  deriving DecidableEq, Repr

/-- `errno` after a call. A call that does not fail leaves it as it is. -/
def Answer.errno (errno : Errno) : Answer → Errno
  | .upTo _ => errno
  | .interrupted => .eintr
  | .failed => .other

/-- What a call of `write` returns when it is given `nleft` bytes. -/
def Answer.written (nleft : Nat) : Answer → Int
  | .upTo k => min k nleft
  | .interrupted => -1
  | .failed => -1

/-- What a call of `read` returns when it is asked for `nleft` bytes of `stream`. It returns 0 at the end only. -/
def Answer.read (nleft : Nat) (stream : List UInt8) : Answer → Int
  | .upTo k => min (max 1 k) (min nleft stream.length)
  | .interrupted => -1
  | .failed => -1

/-- What `writen` returns, what has been written, and the answers left. -/
structure Wrote where
  value : Int
  sent : List UInt8
  rest : List Answer
  deriving DecidableEq, Repr

/-- The loop of `writen`, with the bytes written so far and those from `ptr` on. -/
def writenFrom (n : Nat) (sent left : List UInt8) (errno : Errno) : List Answer → Option Wrote
  | [] => if left.length = 0 then some ⟨n, sent, []⟩ else none
  | a :: answers =>
    if left.length = 0 then some ⟨n, sent, a :: answers⟩
    else
      let nwritten := a.written left.length
      let errno := a.errno errno
      if nwritten ≤ 0 then
        if nwritten < 0 ∧ errno = .eintr then writenFrom n sent left errno answers
        else some ⟨-1, sent, answers⟩
      else writenFrom n (sent ++ left.take nwritten.toNat) (left.drop nwritten.toNat) errno answers

/-- `writen(fd, vptr, n)`, `src/lib/writen.c:4–25`, for the bytes at `vptr`. -/
def writen (vptr : List UInt8) (errno : Errno) (answers : List Answer) : Option Wrote :=
  writenFrom vptr.length [] vptr errno answers

/-- What `readn` returns, the bytes it has stored, and what is left of the stream and the answers. -/
structure Read where
  value : Int
  got : List UInt8
  stream : List UInt8
  rest : List Answer
  deriving DecidableEq, Repr

/-- The loop of `readn`, with the bytes still to be read and those stored so far. -/
def readnFrom (n nleft : Nat) (got stream : List UInt8) (errno : Errno) : List Answer → Option Read
  | [] => if nleft = 0 then some ⟨n - nleft, got, stream, []⟩ else none
  | a :: answers =>
    if nleft = 0 then some ⟨n - nleft, got, stream, a :: answers⟩
    else
      let nread := a.read nleft stream
      let errno := a.errno errno
      if nread < 0 then
        if errno = .eintr then readnFrom n nleft got stream errno answers
        else some ⟨-1, got, stream, answers⟩
      else if nread = 0 then some ⟨n - nleft, got, stream, answers⟩
      else
        readnFrom n (nleft - nread.toNat) (got ++ stream.take nread.toNat) (stream.drop nread.toNat) errno answers

/-- `readn(fd, vptr, n)`, `src/lib/readn.c:4–26`, on a connection with `stream` before its end. -/
def readn (n : Nat) (stream : List UInt8) (errno : Errno) (answers : List Answer) : Option Read :=
  readnFrom n n [] stream errno answers

/-- The answers other than an interruption. -/
def effective (answers : List Answer) : Nat := answers.countP (· ≠ .interrupted)

variable {n nleft : Nat} {sent left got stream : List UInt8} {errno : Errno} {answers : List Answer}
  {w : Wrote} {r : Read}

private theorem effective_cons (a : Answer) (answers : List Answer) :
    effective (a :: answers) ≤ effective answers + 1 := by
  unfold effective
  rw [List.countP_cons]
  split
  · exact le_refl _
  · exact Nat.le_succ _

/-! ### `writen` -/

/-- What has been written and what is left are the buffer in every turn of the loop. -/
theorem writenFrom_spec (h : writenFrom n sent left errno answers = some w) :
    (w.value = n ∧ w.sent = sent ++ left) ∨ (w.value = -1 ∧ w.sent <+: sent ++ left) := by
  induction answers generalizing sent left errno with
  | nil =>
    obtain ⟨hleft, h⟩ := Option.ite_none_right_eq_some.mp h
    cases h
    rw [List.length_eq_zero_iff.mp hleft, List.append_nil]
    exact .inl ⟨rfl, rfl⟩
  | cons a answers ih =>
    unfold writenFrom at h
    split at h
    · next hleft =>
      cases h
      rw [List.length_eq_zero_iff.mp hleft, List.append_nil]
      exact .inl ⟨rfl, rfl⟩
    dsimp only at h
    split at h
    · split at h
      · exact ih h
      · cases h
        exact .inr ⟨rfl, List.prefix_append sent left⟩
    · have hrest := ih h
      rwa [List.append_assoc, List.take_append_drop] at hrest

/-- Every answer but an interruption ends the loop or takes a byte from what is left. -/
theorem writenFrom_returns (h : left.length ≤ effective answers) :
    (writenFrom n sent left errno answers).isSome := by
  induction answers generalizing sent left errno with
  | nil =>
    have hleft : left.length = 0 := Nat.le_zero.mp h
    rw [writenFrom, if_pos hleft]
    rfl
  | cons a answers ih =>
    unfold writenFrom
    split
    · rfl
    next hpos =>
    dsimp only
    split
    · next hle =>
      split
      · next hintr =>
        refine ih ?_
        cases a with
        | upTo k =>
          have hneg : min (k : Int) left.length < 0 := hintr.1
          omega
        | interrupted => exact h
        | failed => cases hintr.2
      · rfl
    · next hgt =>
      refine ih ?_
      have hcount := effective_cons a answers
      rw [List.length_drop]
      omega

/-! ### `readn` -/

/-- What the loop returns in the end: the bytes of the stream it was to read, as far as there are any. -/
structure Read.Completes (nleft : Nat) (got stream : List UInt8) (r : Read) : Prop where
  value : r.value = got.length + min nleft stream.length
  got : r.got = got ++ stream.take nleft
  stream : r.stream = stream.drop nleft

private theorem completes_none (rest : List Answer) (hn : got.length + nleft = n) (h : nleft = 0 ∨ stream = []) :
    Read.Completes nleft got stream ⟨n - nleft, got, stream, rest⟩ := by
  have hmin : min nleft stream.length = 0 := by
    rcases h with h | h
    · rw [h, Nat.zero_min]
    · rw [h, List.length_nil, Nat.min_zero]
  refine ⟨?_, ?_, ?_⟩
  · have hcast : ((min nleft stream.length : Nat) : Int) = 0 := by rw [hmin]; rfl
    push_cast at hcast
    dsimp only
    omega
  · rcases h with h | h
    · rw [h, List.take_zero, List.append_nil]
    · rw [h, List.take_nil, List.append_nil]
  · rcases h with h | h
    · rw [h, List.drop_zero]
    · rw [h, List.drop_nil]

/-- A call that stores `m` bytes and the rest of the loop. -/
private theorem completes_step {m : Nat} (hm : m ≤ nleft) (hlen : m ≤ stream.length)
    (h : Read.Completes (nleft - m) (got ++ stream.take m) (stream.drop m) r) : Read.Completes nleft got stream r := by
  have hsplit : m + (nleft - m) = nleft := by omega
  refine ⟨?_, ?_, ?_⟩
  · rw [h.value, List.length_append, List.length_take, List.length_drop]
    omega
  · rw [h.got, List.append_assoc, ← List.take_add, hsplit]
  · rw [h.stream, List.drop_drop, hsplit]

/-- A loop whose calls fail by interruptions only. -/
theorem readnFrom_spec (hfail : Answer.failed ∉ answers) (hn : got.length + nleft = n)
    (h : readnFrom n nleft got stream errno answers = some r) : r.Completes nleft got stream := by
  induction answers generalizing nleft got stream errno with
  | nil =>
    obtain ⟨hzero, h⟩ := Option.ite_none_right_eq_some.mp h
    cases h
    exact completes_none [] hn (.inl hzero)
  | cons a answers ih =>
    have hfail' : Answer.failed ∉ answers := fun hin ↦ hfail (List.mem_cons_of_mem a hin)
    unfold readnFrom at h
    split at h
    · next hzero =>
      cases h
      exact completes_none _ hn (.inl hzero)
    next hpos =>
    dsimp only at h
    cases a with
    | upTo k =>
      have hread : Answer.read nleft stream (.upTo k) = (min (max 1 k) (min nleft stream.length) : Nat) := by
        unfold Answer.read
        push_cast
        rfl
      generalize hm : min (max 1 k) (min nleft stream.length) = m at hread
      rw [hread, Int.toNat_natCast, if_neg (by omega)] at h
      split at h
      · next hzero =>
        -- nothing read: the stream has come to its end
        cases h
        exact completes_none _ hn (.inr (List.length_eq_zero_iff.mp (by omega)))
      · refine completes_step (by omega) (by omega) (ih hfail' ?_ h)
        rw [List.length_append, List.length_take]
        omega
    | interrupted => exact ih hfail' hn h
    | failed => exact absurd List.mem_cons_self hfail

private theorem read_le (nleft : Nat) (stream : List UInt8) (a : Answer) : a.read nleft stream ≤ stream.length := by
  have hneg : (-1 : Int) ≤ stream.length := by omega
  cases a with
  | upTo k => exact (min_le_right _ _).trans (min_le_right _ _)
  | interrupted => exact hneg
  | failed => exact hneg

/-- Every answer but an interruption ends the loop or takes a byte of the stream, and the end takes one more. -/
theorem readnFrom_returns (h : min nleft (stream.length + 1) ≤ effective answers) :
    (readnFrom n nleft got stream errno answers).isSome := by
  induction answers generalizing nleft got stream errno with
  | nil =>
    have hzero : nleft = 0 := by
      have hle : min nleft (stream.length + 1) ≤ 0 := h
      omega
    rw [readnFrom, if_pos hzero]
    rfl
  | cons a answers ih =>
    unfold readnFrom
    split
    · rfl
    next hpos =>
    dsimp only
    split
    · split
      · next hneg hintr =>
        refine ih ?_
        cases a with
        | upTo k =>
          have hneg' : min (max 1 (k : Int)) (min (nleft : Int) stream.length) < 0 := hneg
          omega
        | interrupted => exact h
        | failed => cases hintr
      · rfl
    split
    · rfl
    · next hneg hzero =>
      refine ih ?_
      have hcount := effective_cons a answers
      have hle := read_le nleft stream a
      rw [List.length_drop]
      omega

/-- What `writen` returns: `n` after all bytes have been written in order, or -1 after some of them have. It does
return when there are as many answers as bytes, interruptions not counted. `readn` returns as many bytes as there
are up to `n`, in order, and leaves the rest of the stream; and so a record written by `writen` is read by
`readn`, however the transfers are cut. -/
theorem writen_readn_exact :
    (∀ vptr errno answers,
      (∀ w, writen vptr errno answers = some w →
        (w.value = vptr.length ∧ w.sent = vptr) ∨ (w.value = -1 ∧ w.sent <+: vptr)) ∧
      (vptr.length ≤ effective answers → (writen vptr errno answers).isSome)) ∧
    (∀ n stream errno answers, Answer.failed ∉ answers →
      (∀ r, readn n stream errno answers = some r →
        r.value = (min n stream.length : Nat) ∧ r.got = stream.take n ∧ r.stream = stream.drop n) ∧
      (min n (stream.length + 1) ≤ effective answers → (readn n stream errno answers).isSome)) ∧
    ∀ record more errno errno' answers answers' w r, Answer.failed ∉ answers' →
      writen record errno answers = some w → w.value = record.length →
      readn record.length (w.sent ++ more) errno' answers' = some r →
        r.value = record.length ∧ r.got = record ∧ r.stream = more := by
  have hwrite (vptr : List UInt8) (errno : Errno) (answers : List Answer) (w : Wrote)
      (h : writen vptr errno answers = some w) :
      (w.value = vptr.length ∧ w.sent = vptr) ∨ (w.value = -1 ∧ w.sent <+: vptr) := writenFrom_spec h
  have hread (n : Nat) (stream : List UInt8) (errno : Errno) (answers : List Answer) (r : Read)
      (hfail : Answer.failed ∉ answers) (h : readn n stream errno answers = some r) :
      r.value = (min n stream.length : Nat) ∧ r.got = stream.take n ∧ r.stream = stream.drop n := by
    obtain ⟨hv, hg, hs⟩ := readnFrom_spec hfail (Nat.zero_add n) h
    refine ⟨?_, hg, hs⟩
    rw [hv, List.length_nil, Nat.cast_zero, zero_add]
  refine ⟨fun vptr errno answers ↦ ⟨hwrite vptr errno answers, writenFrom_returns⟩,
    fun n stream errno answers hfail ↦ ⟨fun r ↦ hread n stream errno answers r hfail, readnFrom_returns⟩, ?_⟩
  intro record more errno errno' answers answers' w r hfail hw hvalue hr
  have hsent : w.sent = record := by
    rcases hwrite record errno answers w hw with ⟨-, hs⟩ | ⟨hv, -⟩
    · exact hs
    · omega
  rw [hsent] at hr
  obtain ⟨hv, hg, hs⟩ := hread _ _ _ _ r hfail hr
  rw [List.take_left] at hg
  rw [List.drop_left] at hs
  refine ⟨?_, hg, hs⟩
  rw [hv, List.length_append, Nat.min_eq_left (Nat.le_add_right _ _)]

/-- Three bytes in two short writes, read in two short reads. -/
theorem writen_readn_exact_short :
    writen [1, 2, 3] .other [.upTo 1, .interrupted, .upTo 5] = some ⟨3, [1, 2, 3], []⟩ ∧
      (∃ r, readn 3 [1, 2, 3, 9] .other [.upTo 2, .interrupted, .upTo 4] = some r ∧
        r.value = 3 ∧ r.got = [1, 2, 3] ∧ r.stream = [9]) :=
  ⟨by decide, _, rfl, writen_readn_exact.2.2 [1, 2, 3] [9] .other .other [.upTo 1, .interrupted, .upTo 5]
    [.upTo 2, .interrupted, .upTo 4] ⟨3, [1, 2, 3], []⟩ _ (by decide) (by decide) rfl rfl⟩

end Unpv13e.Lib
