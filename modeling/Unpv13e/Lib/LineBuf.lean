import Unpv13e.Base.LineLoop
import Unpv13e.Base.Memory
import Unpv13e.Lib.Readline

/-!
# The buffer of `readline`

Library `Lib`. `src/lib/readline.c:4–57` with the counter, the pointer and the array of its buffer as they
are, and the same members of an `Rline` (`src/server/readline_r.c:5–26`, `src/test/readline3.c:5–26`). The
model of `readline` that keeps the unread bytes only is a view of this one.
-/

namespace Unpv13e.Lib
open Unpv13e.Base

/-- `read_cnt`, `read_ptr` as an index into `read_buf`, and `read_buf`; with the results of the calls of
`read` to come. -/
structure LineBuf where
  readCnt : Int
  readPtr : Nat
  readBuf : Nat → Char
  results : List ReadResult

/-- How a line ends for the caller: what `readline` returns of a line that has been read. -/
def returned : LineEnd → Text → Returned
  | .separator, text => ⟨text.length, text, true⟩
  | .full, text => ⟨text.length + 1, text, true⟩
  | .eof, text => ⟨text.length, text, true⟩
  | .error, text => ⟨-1, text, false⟩

namespace LineBuf

/-- The static variables before the first call. -/
def start (results : List ReadResult) : LineBuf := ⟨0, 0, fun _ ↦ Char.ofNat 0, results⟩

/-- `read_cnt--; *ptr = *read_ptr++` -/
def take (s : LineBuf) : Got Char × LineBuf :=
  (.symbol (s.readBuf s.readPtr), { s with readCnt := s.readCnt - 1, readPtr := s.readPtr + 1 })

/-- What `my_read` does when there is nothing in the buffer. -/
def fill (s : LineBuf) : List ReadResult → Option (Got Char × LineBuf)
  | [] => none
  | .interrupted :: results => fill s results
  | .error :: results => some (.error, { s with readCnt := -1, results := results })
  | .eof :: results => some (.eof, { s with readCnt := 0, results := results })
  | .data first more :: results =>
    some (take ⟨more.length + 1, 0, overwrite s.readBuf 0 (first :: more), results⟩)

/-- `my_read`, `src/lib/readline.c:8–26`. -/
def my_read (s : LineBuf) : Option (Got Char × LineBuf) :=
  if s.readCnt ≤ 0 then s.fill s.results else some s.take

/-- `readline(fd, vptr, maxlen)`, `src/lib/readline.c:28–49`. -/
def readline (maxlen : Nat) (s : LineBuf) : Option (Returned × LineBuf) :=
  (readLine my_read '\n' (maxlen - 1) [] s).map fun p ↦ (returned p.1 p.2.1, p.2.2)

/-- `readlinebuf`, `src/lib/readline.c:51–57`: what it returns, and the pointer if it sets one. -/
def readlinebuf (s : LineBuf) : Int × Option Nat :=
  (s.readCnt, if s.readCnt ≠ 0 then some s.readPtr else none)

/-! ### What is in the buffer -/

/-- The cells from `a` on, as many as `n`. -/
def cells (m : Nat → Char) (a n : Nat) : Text := (List.range n).map fun k ↦ m (a + k)

/-- The bytes that have been read from the descriptor and not been handed out. -/
def unread (s : LineBuf) : Text := cells s.readBuf s.readPtr s.readCnt.toNat

/-- The bytes that come before the next end of file or error. -/
def untilEvent : List ReadResult → Text
  | .data first more :: results => first :: more ++ untilEvent results
  | .interrupted :: results => untilEvent results
  | _ => []

/-- The bytes the next calls can return before an end of file or an error. -/
def ahead (s : LineBuf) : Text := s.unread ++ untilEvent s.results

/-- What comes after these, if anything does. -/
def nextEvent : List ReadResult → Option LineEnd
  | .data _ _ :: results => nextEvent results
  | .interrupted :: results => nextEvent results
  | .eof :: _ => some .eof
  | .error :: _ => some .error
  | [] => none

/-- The end of file or the error that comes next. -/
def stop (s : LineBuf) : Option LineEnd := nextEvent s.results

/-- A call meets the end of file, or an error, before a newline and before its array is full. -/
def Meets (e : LineEnd) (maxlen : Nat) (s : LineBuf) : Prop :=
  s.stop = some e ∧ s.ahead.length < maxlen - 1 ∧ '\n' ∉ s.ahead

/-- All bytes to come. -/
def stream (s : LineBuf) : Text := s.unread ++ bytesOf s.results

private theorem cells_succ (m : Nat → Char) (a n : Nat) :
    cells m a (n + 1) = m a :: cells m (a + 1) n := by
  unfold cells
  rw [List.range_succ_eq_map, List.map_cons, List.map_map]
  refine congrArg (m a :: ·) (List.map_congr_left fun k _ ↦ ?_)
  change m (a + (k + 1)) = m (a + 1 + k)
  congr 1
  omega

private theorem cells_overwrite (m : Nat → Char) (bs : Text) :
    cells (overwrite m 0 bs) 0 bs.length = bs := by
  unfold cells
  apply List.ext_getElem
  · rw [List.length_map, List.length_range]
  · intro k hk hk'
    rw [List.getElem_map, List.getElem_range]
    exact overwrite_add hk'

/-- The buffer holds as many bytes as the counter says. -/
theorem length_unread (s : LineBuf) : s.unread.length = s.readCnt.toNat := by
  unfold unread cells
  rw [List.length_map, List.length_range]

/-- Nothing is in the buffer. -/
theorem unread_nil {s : LineBuf} (h : s.readCnt ≤ 0) : s.unread = [] := by
  unfold unread
  rw [Int.toNat_of_nonpos h]
  rfl

/-- A byte is handed out. -/
private theorem take_eq {s : LineBuf} (h : 0 < s.readCnt) :
    ∃ c t, s.take = (.symbol c, t) ∧ s.unread = c :: t.unread ∧ t.results = s.results ∧
      t.readCnt = s.readCnt - 1 := by
  refine ⟨_, _, rfl, ?_, rfl, rfl⟩
  obtain ⟨n, hn⟩ := Int.eq_succ_of_zero_lt h
  unfold unread
  dsimp only
  rw [hn, Int.add_sub_cancel, Int.toNat_natCast]
  exact cells_succ s.readBuf s.readPtr n

/-- What `my_read` answers when the buffer is empty: of the results it has used, the last is not an
interruption. -/
inductive Filled (s t : LineBuf) (results : List ReadResult) : Got Char → Prop
  | data (first : Char) (more : Text) (hr : results = .data first more :: t.results)
      (hunread : t.unread = more) (hcnt : t.readCnt = more.length) : Filled s t results (.symbol first)
  | eof (hr : results = .eof :: t.results) (hcnt : t.readCnt = 0) : Filled s t results .eof
  | error (hr : results = .error :: t.results) (hcnt : t.readCnt = -1) : Filled s t results .error

private theorem fill_data (s : LineBuf) (first : Char) (more : Text) (results : List ReadResult) :
    ∃ t, s.fill (.data first more :: results) = some (.symbol first, t) ∧ t.unread = more ∧
      t.results = results ∧ t.readCnt = more.length := by
  let full : LineBuf := ⟨more.length + 1, 0, overwrite s.readBuf 0 (first :: more), results⟩
  have hpos : 0 < full.readCnt := Int.natCast_succ_pos more.length
  obtain ⟨c, r, htake, hunread, hrest, hcnt⟩ := take_eq hpos
  have hfull : full.unread = first :: more := cells_overwrite s.readBuf (first :: more)
  rw [hfull] at hunread
  obtain ⟨rfl, hmore⟩ := List.cons.inj hunread
  refine ⟨r, congrArg some htake, hmore.symm, hrest, ?_⟩
  rw [hcnt]
  exact Int.add_sub_cancel _ _

private theorem fill_filled {s t : LineBuf} {results : List ReadResult} {got : Got Char}
    (h : s.fill results = some (got, t)) :
    ∃ n rest, results = List.replicate n .interrupted ++ rest ∧ Filled s t rest got := by
  induction results with
  | nil => cases h
  | cons x results ih =>
    cases x with
    | interrupted =>
      obtain ⟨n, rest, rfl, hf⟩ := ih h
      exact ⟨n + 1, rest, rfl, hf⟩
    | error =>
      cases h
      exact ⟨0, _, rfl, .error rfl rfl⟩
    | eof =>
      cases h
      exact ⟨0, _, rfl, .eof rfl rfl⟩
    | data first more =>
      obtain ⟨r, hr, hmore, hrest, hcnt⟩ := fill_data s first more results
      rw [hr] at h
      cases h
      exact ⟨0, _, rfl, .data first more (by rw [hrest]) hmore hcnt⟩

private theorem fill_none {s : LineBuf} {results : List ReadResult} (h : s.fill results = none) :
    untilEvent results = [] ∧ nextEvent results = none := by
  induction results with
  | nil => exact ⟨rfl, rfl⟩
  | cons x results ih =>
    cases x with
    | interrupted => exact ih h
    | error => cases h
    | eof => cases h
    | data first more => cases h

/-- What `my_read` answers: a byte of the buffer, or what a `read` has yielded. -/
theorem my_read_cases {s t : LineBuf} {got : Got Char} (h : s.my_read = some (got, t)) :
    (0 < s.readCnt ∧ ∃ c, got = .symbol c ∧ s.unread = c :: t.unread ∧ t.results = s.results ∧
      t.readCnt = s.readCnt - 1) ∨
    (s.readCnt ≤ 0 ∧ ∃ n rest, s.results = List.replicate n .interrupted ++ rest ∧
      Filled s t rest got) := by
  unfold my_read at h
  split at h
  · next hle => exact .inr ⟨hle, fill_filled h⟩
  · next hgt =>
    have hpos : 0 < s.readCnt := Int.not_le.mp hgt
    obtain ⟨c, r, htake, hunread, hrest, hcnt⟩ := take_eq hpos
    rw [htake] at h
    cases h
    exact .inl ⟨hpos, c, rfl, hunread, hrest, hcnt⟩

private theorem untilEvent_interrupted (n : Nat) (results : List ReadResult) :
    untilEvent (List.replicate n .interrupted ++ results) = untilEvent results := by
  induction n with
  | zero => rfl
  | succ n ih => exact ih

private theorem nextEvent_interrupted (n : Nat) (results : List ReadResult) :
    nextEvent (List.replicate n .interrupted ++ results) = nextEvent results := by
  induction n with
  | zero => rfl
  | succ n ih => exact ih

private theorem bytesOf_interrupted (n : Nat) (results : List ReadResult) :
    bytesOf (List.replicate n .interrupted ++ results) = bytesOf results := by
  induction n with
  | zero => rfl
  | succ n ih => exact ih

/-- The bytes ahead are what `my_read` hands out. -/
theorem ahead_my_read : Ahead my_read ahead stop := by
  refine ⟨fun s c t h ↦ ?_, fun s t h ↦ ?_, fun s t h ↦ ?_, fun s h ↦ ?_⟩
  · unfold ahead stop
    rcases my_read_cases h with ⟨-, d, hd, hunread, hrest, -⟩ | ⟨hle, n, rest, hresults, hf⟩
    · cases hd
      rw [hunread, hrest]
      exact ⟨rfl, rfl⟩
    · cases hf with
      | data first more hr hmore hcnt =>
        rw [unread_nil hle, hresults, untilEvent_interrupted, nextEvent_interrupted, hr, hmore]
        exact ⟨rfl, rfl⟩
  · rcases my_read_cases h with ⟨-, d, hd, -⟩ | ⟨hle, n, rest, hresults, hf⟩
    · cases hd
    · cases hf with
      | eof hr hcnt =>
        unfold ahead stop
        rw [unread_nil hle, hresults, untilEvent_interrupted, nextEvent_interrupted, hr]
        exact ⟨rfl, rfl⟩
  · rcases my_read_cases h with ⟨-, d, hd, -⟩ | ⟨hle, n, rest, hresults, hf⟩
    · cases hd
    · cases hf with
      | error hr hcnt =>
        unfold ahead stop
        rw [unread_nil hle, hresults, untilEvent_interrupted, nextEvent_interrupted, hr]
        exact ⟨rfl, rfl⟩
  · unfold my_read at h
    split at h
    · next hle =>
      obtain ⟨hnil, hnone⟩ := fill_none h
      unfold ahead stop
      rw [unread_nil hle, hnil]
      exact ⟨rfl, hnone⟩
    · cases h

/-- A byte that is handed out comes next in the stream. -/
theorem stream_symbol (s : LineBuf) (c : Char) (t : LineBuf) (h : s.my_read = some (.symbol c, t)) :
    s.stream = c :: t.stream := by
  unfold stream
  rcases my_read_cases h with ⟨-, d, hd, hunread, hrest, -⟩ | ⟨hle, n, rest, hresults, hf⟩
  · cases hd
    rw [hunread, hrest]
    rfl
  · cases hf with
    | data first more hr hmore hcnt =>
      rw [unread_nil hle, hresults, bytesOf_interrupted, hr, hmore]
      rfl

/-- An end of file or an error takes no byte. -/
theorem stream_event (s : LineBuf) (got : Got Char) (t : LineBuf) (hgot : ∀ c, got ≠ .symbol c)
    (h : s.my_read = some (got, t)) : s.stream = t.stream := by
  unfold stream
  rcases my_read_cases h with ⟨-, d, hd, -⟩ | ⟨hle, n, rest, hresults, hf⟩
  · exact absurd hd (hgot d)
  · cases hf with
    | data first more hr hmore hcnt => exact absurd rfl (hgot first)
    | eof hr hcnt =>
      rw [unread_nil hle, hresults, bytesOf_interrupted, hr, unread_nil hcnt.le]
      rfl
    | error hr hcnt =>
      have hneg : t.readCnt ≤ 0 := by
        rw [hcnt]
        decide
      rw [unread_nil hle, hresults, bytesOf_interrupted, hr, unread_nil hneg]
      rfl

/-! ### The unread bytes alone -/

/-- What `my_read` returns, as the answer of a source. -/
def got : MyRead → Got Char
  | .byte c => .symbol c
  | .eof => .eof
  | .error => .error

/-- `my_read` on the unread bytes as a source. -/
def listed : Source (Text × List ReadResult) Char := fun p ↦
  (myRead p.1 p.2).map fun q ↦ (got q.1, q.2)

private theorem readlineFrom_eq (turns : Nat) (text readBuf : Text) (results : List ReadResult) :
    readlineFrom turns text readBuf results =
      (readLine listed '\n' turns text (readBuf, results)).map fun p ↦ (returned p.1 p.2.1, p.2.2) := by
  induction turns generalizing text readBuf results with
  | zero => rfl
  | succ turns ih =>
    rw [readlineFrom, readLine, listed]
    cases myRead readBuf results with
    | none => rfl
    | some q =>
      obtain ⟨answer, readBuf', results'⟩ := q
      cases answer with
      | byte c =>
        change (if c = '\n' then _ else _) = Option.map _ (if c = '\n' then _ else _)
        split
        · next hc =>
          apply congrArg some
          apply congrArg (·, readBuf', results')
          change (⟨(text.length : Int) + 1, _, true⟩ : Returned) = ⟨((text ++ [c]).length : Int), _, true⟩
          rw [List.length_append]
          rfl
        · exact ih (text ++ [c]) readBuf' results'
      | eof => rfl
      | error => rfl

/-- The state as the unread bytes. -/
def view (s : LineBuf) : Text × List ReadResult := (s.unread, s.results)

private theorem listed_view (s : LineBuf) :
    listed s.view = s.my_read.map fun p ↦ (p.1, p.2.view) := by
  unfold my_read
  split
  · next hle =>
    unfold listed view
    rw [unread_nil hle]
    dsimp only
    generalize s.results = results
    induction results with
    | nil => rfl
    | cons x results ih =>
      cases x with
      | interrupted => exact ih
      | eof =>
        change some (Got.eof, [], results) = some (Got.eof, unread { s with readCnt := 0 }, results)
        rw [unread_nil (Int.le_refl 0)]
      | error =>
        change some (Got.error, [], results) = some (Got.error, unread { s with readCnt := -1 }, results)
        rw [unread_nil (show (-1 : Int) ≤ 0 by decide)]
      | data first more =>
        obtain ⟨r, hr, hmore, hrest, -⟩ := fill_data s first more results
        rw [hr]
        change some (Got.symbol first, more, results) = some (Got.symbol first, r.unread, r.results)
        rw [hmore, hrest]
  · next hgt =>
    obtain ⟨c, r, htake, hunread, hrest, -⟩ := take_eq (Int.not_le.mp hgt)
    unfold listed view
    rw [htake, hunread, myRead]
    change some (Got.symbol c, r.unread, s.results) = some (Got.symbol c, r.unread, r.results)
    rw [hrest]

/-- `readline` on the unread bytes is `readline` on the buffer. -/
theorem readline_view (maxlen : Nat) (s : LineBuf) :
    Lib.readline maxlen s.unread s.results = (s.readline maxlen).map fun p ↦ (p.1, p.2.view) := by
  unfold Lib.readline readline
  rw [readlineFrom_eq]
  change Option.map _ (readLine listed '\n' (maxlen - 1) [] s.view) = _
  rw [readLine_map listed_view, Option.map_map, Option.map_map]
  rfl

/-! ### The bytes a call stores -/

variable {maxlen : Nat} {s t : LineBuf} {r : Returned}

/-- A call reads a line. -/
theorem readline_line (h : s.readline maxlen = some (r, t)) : ∃ e text,
    r = returned e text ∧ readLine my_read '\n' (maxlen - 1) [] s = some (e, text, t) ∧
      Taken '\n' (maxlen - 1) s.ahead text t.ahead s.stop e := by
  obtain ⟨⟨e, text, t'⟩, hline, he⟩ := Option.map_eq_some_iff.mp h
  cases he
  obtain ⟨taken, htext, htaken⟩ := readLine_taken ahead_my_read hline
  rw [List.nil_append] at htext
  cases htext
  exact ⟨e, _, rfl, hline, htaken⟩

/-- The stream loses what the call stores. -/
theorem readline_stream (h : s.readline maxlen = some (r, t)) : s.stream = r.text ++ t.stream := by
  obtain ⟨e, text, rfl, hline, -⟩ := readline_line h
  have hcat : [] ++ s.stream = text ++ t.stream :=
    readLine_stream stream_symbol stream_event hline
  have htext : (returned e text).text = text := by
    cases e <;> rfl
  rw [htext]
  exact hcat

/-- The line is what is ahead. -/
theorem readLine_meets {e : LineEnd} (h : Meets e maxlen s) :
    ∃ t, readLine my_read '\n' (maxlen - 1) [] s = some (e, s.ahead, t) := by
  obtain ⟨hstop, hlen, hnl⟩ := h
  exact readLine_stop ahead_my_read hlen hnl hstop

/-- A line that ends so has met it. -/
theorem meets_of_taken {e : LineEnd} {text : Text} (he : e = .eof ∨ e = .error)
    (h : Taken '\n' (maxlen - 1) s.ahead text t.ahead s.stop e) : s.ahead = text ∧ Meets e maxlen s := by
  obtain ⟨hlen, hnl, hahead, hstop⟩ := h.stopped he
  refine ⟨hahead, hstop, ?_, ?_⟩
  · rw [hahead]
    exact hlen
  · rw [hahead]
    exact hnl

/-- A prefix of the bytes ahead that a line can be: it fits, and a newline is its last byte or none. -/
def FitsLine (maxlen : Nat) (s : LineBuf) (p : Text) : Prop :=
  p <+: s.ahead ∧ p.length ≤ maxlen - 1 ∧ '\n' ∉ p.dropLast

/-- The next event on the descriptor is the end of the file. -/
def AtEof (s : LineBuf) : Prop :=
  s.unread = [] ∧ ∃ n rest, s.results = List.replicate n .interrupted ++ .eof :: rest

/-- What a call that does not fail is to return, and to leave. -/
structure CountsBytes (maxlen : Nat) (s : LineBuf) (r : Returned) (t : LineBuf) : Prop where
  stored : FitsLine maxlen s r.text
  longest : ∀ p, FitsLine maxlen s p → p.length ≤ r.text.length
  terminated : r.terminated = true ∧ r.text.length < maxlen
  rest : s.stream = r.text ++ t.stream
  value : r.value = r.text.length
  zero : r.value = 0 → s.AtEof ∨ maxlen = 1

/-- A newline or the end comes before the array is full. -/
def LineFits (maxlen : Nat) (s : LineBuf) : Prop :=
  s.ahead.length < maxlen - 1 ∨ '\n' ∈ s.ahead.take (maxlen - 1)

private theorem atEof_of_read (h : s.my_read = some (.eof, t)) : s.AtEof := by
  rcases my_read_cases h with ⟨-, d, hd, -⟩ | ⟨hle, n, rest, hresults, hf⟩
  · cases hd
  · cases hf with
    | eof hr hcnt => exact ⟨unread_nil hle, n, t.results, by rw [hresults, hr]⟩

/-- An end of file without a byte is the next event. -/
private theorem atEof_of_line {n : Nat}
    (h : readLine my_read '\n' n [] s = some (.eof, [], t)) : s.AtEof := by
  cases n with
  | zero => cases h
  | succ n =>
    rw [readLine] at h
    split at h
    · cases h
    · next c u hu =>
      split at h
      · cases h
      · obtain ⟨taken, ht, -⟩ := readLine_taken ahead_my_read h
        cases ht
    · next u hu =>
      cases h
      exact atEof_of_read hu
    · cases h

private theorem counts_of_line {e : LineEnd} {text : Text} (hmax : 1 ≤ maxlen)
    (hline : readLine my_read '\n' (maxlen - 1) [] s = some (e, text, t))
    (htaken : Taken '\n' (maxlen - 1) s.ahead text t.ahead s.stop e) (he : e = .separator ∨ e = .eof)
    (hrest : s.stream = text ++ t.stream) : CountsBytes maxlen s ⟨text.length, text, true⟩ t := by
  have hlen : text.length < maxlen := by
    have := htaken.fits
    omega
  rcases he with rfl | rfl
  · obtain ⟨⟨body, rfl, hbody⟩, hcat⟩ := htaken.separator rfl
    have hdrop : (body ++ ['\n']).dropLast = body := List.dropLast_concat
    refine ⟨⟨⟨t.ahead, hcat.symm⟩, htaken.fits, ?_⟩, fun p hp ↦ ?_, ⟨rfl, hlen⟩, hrest, rfl, fun h0 ↦ ?_⟩
    · rw [hdrop]
      exact hbody
    · -- a longer prefix has the newline inside
      by_contra hlong
      have hpre : body ++ ['\n'] <+: p :=
        List.prefix_of_prefix_length_le ⟨t.ahead, hcat.symm⟩ hp.1 (Nat.le_of_not_le hlong)
      obtain ⟨q, rfl⟩ := hpre
      have hq : q ≠ [] := by
        rintro rfl
        rw [List.append_nil] at hlong
        exact hlong (Nat.le_refl _)
      refine hp.2.2 ?_
      rw [List.dropLast_append_of_ne_nil hq]
      exact List.mem_append_left _ (List.mem_append_right _ (List.mem_singleton.mpr rfl))
    · change ((body ++ ['\n']).length : Int) = 0 at h0
      rw [List.length_append] at h0
      exact absurd (Int.ofNat_eq_zero.mp h0) (Nat.succ_ne_zero body.length)
  · obtain ⟨hshort, hno, hall, -⟩ := htaken.stopped (.inl rfl)
    refine ⟨⟨⟨[], by rw [List.append_nil, hall]⟩, htaken.fits, ?_⟩, fun p hp ↦ ?_, ⟨rfl, hlen⟩, hrest,
      rfl, fun h0 ↦ ?_⟩
    · exact fun hm ↦ hno (List.dropLast_subset _ hm)
    · rw [← hall]
      exact hp.1.length_le
    · have hnil : text = [] := List.eq_nil_of_length_eq_zero (Int.ofNat_eq_zero.mp h0)
      rw [hnil] at hline
      exact .inl (atEof_of_line hline)

/-- A call that does not fail counts the bytes it stores exactly when the line fits. -/
theorem readline_counts (hmax : 1 ≤ maxlen) :
    (∀ r t, s.readline maxlen = some (r, t) → r.value ≠ -1 → CountsBytes maxlen s r t) ↔
      LineFits maxlen s := by
  constructor
  · intro hcounts
    by_contra hfull
    unfold LineFits at hfull
    rw [not_or, Nat.not_lt] at hfull
    obtain ⟨t, ht⟩ := @readLine_full _ _ _ _ _ _ _ ahead_my_read _ [] s hfull.1 hfull.2
    have hread : s.readline maxlen =
        some (returned .full ([] ++ s.ahead.take (maxlen - 1)), t) := by
      unfold readline
      rw [ht]
      rfl
    have hne : (returned .full ([] ++ s.ahead.take (maxlen - 1))).value ≠ -1 := by
      change ((([] ++ s.ahead.take (maxlen - 1)).length : Int) + 1) ≠ -1
      omega
    have hvalue := (hcounts _ t hread hne).value
    change ((([] ++ s.ahead.take (maxlen - 1)).length : Int) + 1) =
      ([] ++ s.ahead.take (maxlen - 1)).length at hvalue
    omega
  · intro hfits r t h hne
    obtain ⟨e, text, rfl, hline, htaken⟩ := readline_line h
    have hrest := readline_stream h
    cases e with
    | separator => exact counts_of_line hmax hline htaken (.inl rfl) hrest
    | eof => exact counts_of_line hmax hline htaken (.inr rfl) hrest
    | error => exact absurd rfl hne
    | full =>
      obtain ⟨hlen, hno, hcat⟩ := htaken.full rfl
      rcases hfits with hshort | hnl
      · have := congrArg List.length hcat
        rw [List.length_append] at this
        omega
      · rw [hcat, List.take_left' hlen] at hnl
        exact absurd hnl hno

/-- The line `a` in an array of three bytes. -/
theorem readline_counts_short : ∃ r t, (start [.data 'a' ['\n']]).readline 3 = some (r, t) ∧ r.value = 2 ∧
    CountsBytes 3 (start [.data 'a' ['\n']]) r t :=
  ⟨_, _, rfl, rfl, (readline_counts (by decide)).mpr (.inr (by decide)) _ _ rfl (by decide)⟩

/-- In an array of two bytes one byte of it is stored, and two are counted. -/
theorem readline_counts_ahead : ∃ r t, (start [.data 'a' ['\n']]).readline 2 = some (r, t) ∧
    r.value = 2 ∧ r.text = ['a'] ∧ ¬ CountsBytes 2 (start [.data 'a' ['\n']]) r t := by
  refine ⟨⟨2, ['a'], true⟩, _, rfl, rfl, rfl, fun h ↦ ?_⟩
  exact absurd h.value (by decide)

end LineBuf
end Unpv13e.Lib
