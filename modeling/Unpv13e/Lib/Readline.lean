import Unpv13e.Base.Lines
import Unpv13e.Base.Text

/-!
# `readline`

Library `Lib`. `src/lib/readline.c:4–41`: `my_read` hands out the bytes of a static buffer
and fills it with one `read` when it is empty, `readline` collects them up to a newline. The
static variables `read_buf`, `read_ptr` and `read_cnt` are one list: the bytes from
`read_ptr` on that are left, none after a `read` that failed. The results of the successive
calls of `read` are a parameter.
-/

namespace Unpv13e.Lib
open Unpv13e.Base

/-- `MAXLINE`, `src/lib/unp.h:196`. -/
def maxLine : Nat := 4096

/-- What a call of `read` returns. -/
inductive ReadResult
  /-- one byte or more -/
  | data (first : Char) (more : Text)
  | eof
  /-- `-1` with `errno == EINTR` -/
  | interrupted
  /-- `-1` with any other `errno` -/
  | error
  deriving DecidableEq, Repr

/-- The bytes a call of `read` stores. -/
def ReadResult.bytes : ReadResult → Text
  | .data first more => first :: more
  | _ => []

/-- The bytes a sequence of calls of `read` stores. -/
def bytesOf (results : List ReadResult) : Text := results.flatMap ReadResult.bytes

/-- What `my_read` returns: `1` and the byte, `0` or `-1`. -/
inductive MyRead
  | byte (c : Char)
  | eof
  | error
  deriving DecidableEq, Repr

/-- `my_read`, `src/lib/readline.c:8–26`: what it returns, the buffer and the results of
`read` it leaves. `none` when it waits for a further result. -/
def myRead : Text → List ReadResult → Option (MyRead × Text × List ReadResult)
  | c :: readBuf, results => some (.byte c, readBuf, results)
  | [], .interrupted :: results => myRead [] results
  | [], .error :: results => some (.error, [], results)
  | [], .eof :: results => some (.eof, [], results)
  | [], .data first more :: results => some (.byte first, more, results)
  | [], [] => none

/-- What `readline` returns, the characters it stored and whether a `0` follows them. -/
structure Returned where
  value : Int
  text : Text
  terminated : Bool
  deriving DecidableEq, Repr

/-- The loop of `readline`, with the turns left and the characters stored so far. -/
def readlineFrom : Nat → Text → Text → List ReadResult →
    Option (Returned × Text × List ReadResult)
  | 0, text, readBuf, results => some (⟨text.length + 1, text, true⟩, readBuf, results)
  | turns + 1, text, readBuf, results =>
    match myRead readBuf results with
    | none => none
    | some (.byte c, readBuf, results) =>
      if c = '\n' then some (⟨text.length + 1, text ++ [c], true⟩, readBuf, results)
      else readlineFrom turns (text ++ [c]) readBuf results
    | some (.eof, readBuf, results) => some (⟨text.length, text, true⟩, readBuf, results)
    | some (.error, readBuf, results) => some (⟨-1, text, false⟩, readBuf, results)

/-- `readline(fd, vptr, maxlen)`, `src/lib/readline.c:28–49`. -/
def readline (maxlen : Nat) (readBuf : Text) (results : List ReadResult) :
    Option (Returned × Text × List ReadResult) :=
  readlineFrom (maxlen - 1) [] readBuf results

/-! ### What a call takes from the stream -/

/-- The bytes of results one after another. -/
theorem bytesOf_append (rs rs' : List ReadResult) :
    bytesOf (rs ++ rs') = bytesOf rs ++ bytesOf rs' := List.flatMap_append

/-- What a call of `my_read` took from the buffer and the results `used`. -/
private def Took (readBuf : Text) (used : List ReadResult) (readBuf' : Text) : MyRead → Prop
  | .byte c => readBuf ++ bytesOf used = c :: readBuf' ∧
      ∀ init x, used = init ++ [x] → readBuf ++ bytesOf init = []
  | .eof => readBuf ++ bytesOf used = [] ∧ readBuf' = [] ∧ .eof ∈ used
  | .error => readBuf ++ bytesOf used = [] ∧ readBuf' = [] ∧ .error ∈ used

private theorem myRead_spec {readBuf readBuf' : Text} {results results' : List ReadResult}
    {r : MyRead} (h : myRead readBuf results = some (r, readBuf', results')) :
    ∃ used, results = used ++ results' ∧ Took readBuf used readBuf' r := by
  cases readBuf with
  | cons c readBuf =>
    simp only [myRead, Option.some.injEq, Prod.mk.injEq] at h
    obtain ⟨rfl, rfl, rfl⟩ := h
    exact ⟨[], rfl, by simp [bytesOf], fun init x he ↦ absurd he.symm (by simp)⟩
  | nil =>
    induction results with
    | nil => simp [myRead] at h
    | cons x results ih =>
      cases x with
      | data first more =>
        simp only [myRead, Option.some.injEq, Prod.mk.injEq] at h
        obtain ⟨rfl, rfl, rfl⟩ := h
        refine ⟨[.data first more], rfl, by simp [bytesOf, ReadResult.bytes], ?_⟩
        intro init x he
        obtain ⟨rfl, -⟩ := List.append_inj' (show [] ++ [.data first more] = init ++ [x] from he) rfl
        rfl
      | eof =>
        simp only [myRead, Option.some.injEq, Prod.mk.injEq] at h
        obtain ⟨rfl, rfl, rfl⟩ := h
        exact ⟨[.eof], rfl, by simp [Took, bytesOf, ReadResult.bytes]⟩
      | error =>
        simp only [myRead, Option.some.injEq, Prod.mk.injEq] at h
        obtain ⟨rfl, rfl, rfl⟩ := h
        exact ⟨[.error], rfl, by simp [Took, bytesOf, ReadResult.bytes]⟩
      | interrupted =>
        rw [myRead] at h
        obtain ⟨used, rfl, hu⟩ := ih h
        refine ⟨.interrupted :: used, rfl, ?_⟩
        have hb (rs : List ReadResult) : bytesOf (.interrupted :: rs) = bytesOf rs := rfl
        cases r with
        | byte c =>
          obtain ⟨h1, h3⟩ := hu
          refine ⟨h1, ?_⟩
          intro init x he
          cases init with
          | nil => rfl
          | cons y init =>
            obtain ⟨rfl, rfl⟩ := List.cons.inj he
            exact h3 init x rfl
        | eof =>
          simp only [Took, hb, List.mem_cons, reduceCtorEq, false_or]
          exact hu
        | error =>
          simp only [Took, hb, List.mem_cons, reduceCtorEq, false_or]
          exact hu

/-- How a call of `readline` ended. -/
inductive Ending (maxlen : Nat) (used : List ReadResult) (readBuf : Text) (r : Returned) : Prop
  /-- with a newline -/
  | line (hline : IsRecord '\n' r.text) (hshort : r.text.length < maxlen)
      (hvalue : r.value = r.text.length) (hterm : r.terminated = true)
  /-- with a full line buffer -/
  | full (hfull : r.text.length = maxlen - 1) (hno : '\n' ∉ r.text)
  /-- with the end of the file -/
  | eof (heof : .eof ∈ used) (hempty : readBuf = []) (hvalue : r.value = r.text.length)
      (hterm : r.terminated = true)
  /-- with an error -/
  | error (herror : .error ∈ used)

private theorem readlineFrom_spec {maxlen turns : Nat} {text readBuf readBuf' : Text}
    {results results' : List ReadResult} {r : Returned} (hturns : text.length + turns = maxlen - 1)
    (htext : '\n' ∉ text)
    (h : readlineFrom turns text readBuf results = some (r, readBuf', results')) :
    ∃ used, results = used ++ results' ∧
      text ++ (readBuf ++ bytesOf used) = r.text ++ readBuf' ∧
      Ending maxlen used readBuf' r ∧ text.length ≤ r.text.length ∧
      ('\n' ∈ r.text → ∀ init x, used = init ++ [x] →
        text.length + (readBuf ++ bytesOf init).length < r.text.length) := by
  induction turns generalizing text readBuf results with
  | zero =>
    cases h
    exact ⟨[], rfl, by simp [bytesOf], .full (by simpa using hturns) htext, Nat.le_refl _,
      fun hm ↦ absurd hm htext⟩
  | succ turns ih =>
    rw [readlineFrom] at h
    cases hm : myRead readBuf results with
    | none => rw [hm] at h; cases h
    | some m =>
      obtain ⟨m, buf, rs⟩ := m
      rw [hm] at h
      obtain ⟨used, rfl, hu⟩ := myRead_spec hm
      cases m with
      | byte c =>
        obtain ⟨hb, hlast⟩ := hu
        dsimp only at h
        split at h
        · next hc =>
          cases h
          refine ⟨used, rfl, by rw [hb]; simp,
            .line ⟨text, by rw [hc], htext⟩ ?_ ?_ rfl, ?_, ?_⟩
          · simp only [List.length_append, List.length_singleton]
            omega
          · simp
          · simp
          · intro _ init x he
            rw [hlast init x he]
            simp
        · next hc =>
          have htext' : '\n' ∉ text ++ [c] := by
            simp only [List.mem_append, List.mem_singleton, not_or]
            exact ⟨htext, fun he ↦ hc he.symm⟩
          obtain ⟨used', rfl, hcat, hend, hlong, hneed⟩ := ih (by
            simp only [List.length_append, List.length_singleton]
            omega) htext' h
          simp only [List.length_append, List.length_singleton] at hlong hneed
          refine ⟨used ++ used', (List.append_assoc _ _ _).symm, ?_, ?_, by omega, ?_⟩
          · rw [bytesOf_append, ← List.append_assoc readBuf, hb, ← hcat]
            simp
          · cases hend with
            | line h1 h2 h3 h4 => exact .line h1 h2 h3 h4
            | full h1 h2 => exact .full h1 h2
            | eof h1 h2 h3 h4 => exact .eof (List.mem_append_right _ h1) h2 h3 h4
            | error h1 => exact .error (List.mem_append_right _ h1)
          · intro hnl init x he
            rcases List.eq_nil_or_concat used' with rfl | ⟨init', y, rfl⟩
            · rw [List.append_nil] at he
              rw [hlast init x he]
              simp only [List.length_nil]
              omega
            · rw [List.concat_eq_append, ← List.append_assoc] at he
              obtain ⟨rfl, -⟩ := List.append_inj' he rfl
              have := hneed hnl init' y (List.concat_eq_append ..)
              have hb' := congrArg List.length hb
              rw [bytesOf_append]
              simp only [List.length_append, List.length_cons] at this hb' ⊢
              omega
      | eof =>
        obtain ⟨hb, hbuf, heof⟩ := hu
        cases h
        exact ⟨used, rfl, by rw [hb, hbuf], .eof heof hbuf rfl rfl, Nat.le_refl _,
          fun hm ↦ absurd hm htext⟩
      | error =>
        obtain ⟨hb, hbuf, herr⟩ := hu
        cases h
        exact ⟨used, rfl, by rw [hb, hbuf], .error herr, Nat.le_refl _,
          fun hm ↦ absurd hm htext⟩

/-- A call of `readline` stores what comes next in the stream, buffer first, and leaves the
rest in the buffer. The last result is read only for a line that is not complete before. -/
theorem readline_spec {maxlen : Nat} {readBuf readBuf' : Text}
    {results results' : List ReadResult} {r : Returned}
    (h : readline maxlen readBuf results = some (r, readBuf', results')) :
    ∃ used, results = used ++ results' ∧
      readBuf ++ bytesOf used = r.text ++ readBuf' ∧
      Ending maxlen used readBuf' r ∧
      ('\n' ∈ r.text → ∀ init x, used = init ++ [x] →
        (readBuf ++ bytesOf init).length < r.text.length) := by
  obtain ⟨used, hused, hcat, hend, -, hneed⟩ :=
    @readlineFrom_spec maxlen _ [] _ _ _ _ _ (by simp) List.not_mem_nil h
  exact ⟨used, hused, hcat, hend, by simpa using hneed⟩

/-- Results that are data only. -/
def DataOnly (results : List ReadResult) : Prop := ∀ x ∈ results, ∃ first more, x = .data first more

private theorem DataOnly.not_mem {results used rest : List ReadResult} (h : DataOnly results)
    (he : results = used ++ rest) {x : ReadResult} (hx : ∀ first more, x ≠ .data first more) :
    x ∉ used := by
  intro hm
  obtain ⟨first, more, hd⟩ := h x (he ▸ List.mem_append_left _ hm)
  exact hx first more hd

/-- Part of results that are data only. -/
theorem DataOnly.of_append {used cuts results : List ReadResult} (h : DataOnly results)
    (he : results = used ++ cuts) : DataOnly cuts :=
  fun x hx ↦ h x (he ▸ List.mem_append_right _ hx)

/-- Data without bytes is no data. -/
theorem DataOnly.eq_nil {results : List ReadResult} (h : DataOnly results)
    (he : bytesOf results = []) : results = [] := by
  cases results with
  | nil => rfl
  | cons x results =>
    obtain ⟨first, more, rfl⟩ := h x List.mem_cons_self
    cases he

/-- `my_read` waits only when buffer and results are used up. -/
private theorem myRead_none {readBuf : Text} {results : List ReadResult}
    (h : myRead readBuf results = none) : readBuf = [] ∧ bytesOf results = [] := by
  cases readBuf with
  | cons c readBuf => simp [myRead] at h
  | nil =>
    refine ⟨rfl, ?_⟩
    induction results with
    | nil => rfl
    | cons x results ih =>
      cases x with
      | data first more => simp [myRead] at h
      | eof => simp [myRead] at h
      | error => simp [myRead] at h
      | interrupted =>
        rw [myRead] at h
        exact ih h

private theorem readlineFrom_none {turns : Nat} {text readBuf : Text} {results : List ReadResult}
    (h : readlineFrom turns text readBuf results = none) :
    '\n' ∉ readBuf ++ bytesOf results := by
  induction turns generalizing text readBuf results with
  | zero => cases h
  | succ turns ih =>
    rw [readlineFrom] at h
    cases hm : myRead readBuf results with
    | none =>
      obtain ⟨hb, hr⟩ := myRead_none hm
      rw [hb, hr]
      exact List.not_mem_nil
    | some m =>
      obtain ⟨m, buf, rs⟩ := m
      rw [hm] at h
      obtain ⟨used, rfl, hu⟩ := myRead_spec hm
      cases m with
      | byte c =>
        dsimp only at h
        split at h
        · cases h
        · next hc =>
          have hb : readBuf ++ bytesOf used = c :: buf := hu.1
          rw [bytesOf_append, ← List.append_assoc, hb, List.cons_append, List.mem_cons, not_or]
          exact ⟨fun he ↦ hc he.symm, ih h⟩
      | eof => cases h
      | error => cases h

/-- When the stream goes on with a line that fits, `readline` returns it. -/
theorem readline_record {maxlen : Nat} {r rest readBuf : Text} {results : List ReadResult}
    (hr : IsRecord '\n' r) (hlen : r.length < maxlen) (hdata : DataOnly results)
    (hs : readBuf ++ bytesOf results = r ++ rest) :
    ∃ used readBuf' results',
      readline maxlen readBuf results = some (⟨r.length, r, true⟩, readBuf', results') ∧
      results = used ++ results' ∧ readBuf ++ bytesOf used = r ++ readBuf' ∧
      ∀ init x, used = init ++ [x] → (readBuf ++ bytesOf init).length < r.length := by
  cases h : readline maxlen readBuf results with
  | none =>
    refine absurd ?_ (readlineFrom_none h)
    rw [hs]
    exact List.mem_append_left _ hr.mem
  | some m =>
    obtain ⟨⟨value, text, terminated⟩, readBuf', results'⟩ := m
    obtain ⟨used, hused, hcat, hend, hneed⟩ := readline_spec h
    have hstream : text ++ (readBuf' ++ bytesOf results') = r ++ rest := by
      rw [hused, bytesOf_append, ← List.append_assoc, hcat, List.append_assoc] at hs
      exact hs
    cases hend with
    | line hrec hshort hvalue hterm =>
      obtain ⟨rfl, -⟩ := hrec.append_inj hr hstream
      have hv : value = text.length := hvalue
      have ht : terminated = true := hterm
      exact ⟨used, readBuf', results', by rw [hv, ht], hused, hcat, hneed hr.mem⟩
    | full hfull hno =>
      refine absurd ?_ hno
      have hpre : r <+: text := by
        refine List.prefix_of_prefix_length_le ⟨rest, rfl⟩ (hstream ▸ List.prefix_append _ _) ?_
        have : text.length = maxlen - 1 := hfull
        omega
      exact hpre.subset hr.mem
    | eof he _ _ _ => exact absurd he (hdata.not_mem hused nofun)
    | error he => exact absurd he (hdata.not_mem hused nofun)

/-! ### The caller's line buffer -/

/-- What `readline` leaves in the array it was given. -/
def Returned.store (r : Returned) (array : Nat → Char) (k : Nat) : Char :=
  if h : k < r.text.length then r.text[k]
  else if k = r.text.length ∧ r.terminated then Char.ofNat 0
  else array k

/-- The C string in an array of `MAXLINE` characters. -/
def cString (array : Nat → Char) : Text :=
  ((List.range maxLine).map array).takeWhile (· ≠ Char.ofNat 0)

/-- A terminated text without a NUL is the string the caller finds. -/
theorem cString_store {r : Returned} {array : Nat → Char} (hterm : r.terminated = true)
    (hlen : r.text.length < maxLine) (hnul : Char.ofNat 0 ∉ r.text) :
    cString (r.store array) = r.text := by
  have hsplit : (List.range maxLine).map (r.store array) = r.text ++ Char.ofNat 0 ::
      ((List.range maxLine).map (r.store array)).drop (r.text.length + 1) := by
    apply List.ext_getElem
    · simp only [List.length_map, List.length_range, List.length_append, List.length_cons,
        List.length_drop]
      omega
    · intro k h1 h2
      rw [List.getElem_map, List.getElem_range]
      by_cases hk : k < r.text.length
      · rw [List.getElem_append_left hk, Returned.store, dif_pos hk]
      · rw [List.getElem_append_right (by omega)]
        by_cases he : k = r.text.length
        · subst he
          simp [Returned.store, hterm]
        · obtain ⟨j, rfl⟩ : ∃ j, k = r.text.length + 1 + j := ⟨k - r.text.length - 1, by omega⟩
          simp [show r.text.length + 1 + j - r.text.length = j + 1 by omega]
  rw [cString, hsplit, List.takeWhile_append_of_pos]
  · simp
  · intro c hc
    simp only [ne_eq, decide_not, Bool.not_eq_eq_eq_not, Bool.not_true, decide_eq_false_iff_not]
    rintro rfl
    exact hnul hc

end Unpv13e.Lib
