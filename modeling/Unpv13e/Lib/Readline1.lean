import Unpv13e.Lib.LineBuf

/-!
# The slow `readline`

Library `Lib`. `src/test/readline1.c:4–31` reads one byte at a time from the same descriptor and returns
what the buffered version returns, whatever the calls. Between the calls `readlinebuf`
(`src/lib/readline.c:51–57`) shows the buffer.
-/

namespace Unpv13e.Lib
open Unpv13e.Base

/-- What a `read` of one byte returns. -/
inductive Event
  | byte (c : Char)
  | eof
  /-- `-1` with `errno == EINTR` -/
  | interrupted
  /-- `-1` with any other `errno` -/
  | error
  deriving DecidableEq, Repr

/-- The results of `read` as bytes and events. -/
def eventsOf : List ReadResult → List Event
  | [] => []
  | .data first more :: results => .byte first :: (more.map .byte ++ eventsOf results)
  | .eof :: results => .eof :: eventsOf results
  | .interrupted :: results => .interrupted :: eventsOf results
  | .error :: results => .error :: eventsOf results

/-- `read(fd, &c, 1)` with the way back to `again`, `src/test/readline1.c:13–25`. -/
def read1 : Source (List Event) Char
  | [] => none
  | .byte c :: events => some (.symbol c, events)
  | .eof :: events => some (.eof, events)
  | .interrupted :: events => read1 events
  | .error :: events => some (.error, events)

/-- `readline(fd, vptr, maxlen)`, `src/test/readline1.c:5–30`. -/
def readline1 (maxlen : Nat) (events : List Event) : Option (Returned × List Event) :=
  (readLine read1 '\n' (maxlen - 1) [] events).map fun p ↦ (returned p.1 p.2.1, p.2.2)

namespace LineBuf

/-! ### One call -/

/-- What is to come, the bytes of the buffer first. -/
def events (s : LineBuf) : List Event := s.unread.map .byte ++ eventsOf s.results

private theorem read1_interrupted (n : Nat) (es : List Event) :
    read1 (List.replicate n .interrupted ++ es) = read1 es := by
  induction n with
  | zero => rfl
  | succ n ih => exact ih

private theorem eventsOf_interrupted (n : Nat) (results : List ReadResult) :
    eventsOf (List.replicate n .interrupted ++ results) =
      List.replicate n .interrupted ++ eventsOf results := by
  induction n with
  | zero => rfl
  | succ n ih => exact congrArg (.interrupted :: ·) ih

private theorem read1_eventsOf {s : LineBuf} {results : List ReadResult} (h : s.fill results = none) :
    read1 (eventsOf results) = none := by
  induction results with
  | nil => rfl
  | cons x results ih =>
    cases x with
    | interrupted => exact ih h
    | error => cases h
    | eof => cases h
    | data first more => cases h

/-- A `read` of one byte answers like `my_read`. -/
theorem read1_events (s : LineBuf) : read1 s.events = s.my_read.map fun p ↦ (p.1, p.2.events) := by
  cases h : s.my_read with
  | none =>
    unfold my_read at h
    split at h
    · next hle =>
      unfold events
      rw [unread_nil hle]
      exact read1_eventsOf h
    · cases h
  | some p =>
    obtain ⟨got, t⟩ := p
    change read1 s.events = some (got, t.events)
    rcases my_read_cases h with ⟨hpos, c, rfl, hunread, hrest, -⟩ | ⟨hle, n, rest, hresults, hf⟩
    · unfold events
      rw [hunread, hrest]
      rfl
    · have hev : s.events = List.replicate n .interrupted ++ eventsOf rest := by
        unfold events
        rw [unread_nil hle, hresults, eventsOf_interrupted]
        rfl
      rw [hev, read1_interrupted]
      unfold events
      cases hf with
      | data first more hr hmore hcnt =>
        rw [hr, hmore]
        rfl
      | eof hr hcnt =>
        rw [hr, unread_nil hcnt.le]
        rfl
      | error hr hcnt =>
        rw [hr, unread_nil (hcnt.le.trans (by decide))]
        rfl

/-- The slow version returns what `readline` returns. -/
theorem readline1_events (maxlen : Nat) (s : LineBuf) :
    readline1 maxlen s.events = (s.readline maxlen).map fun p ↦ (p.1, p.2.events) := by
  unfold readline1 readline
  rw [readLine_map read1_events, Option.map_map, Option.map_map]
  rfl

/-! ### All calls -/

variable {results : List ReadResult} {ms : List Nat} {m : Nat} {s t : LineBuf} {r : Returned}

/-- The bytes that have been fetched from the descriptor and not been returned, when the calls have returned
`rs`: `readlinebuf` counts them, and the pointer it sets is where they are. -/
def Reports (results : List ReadResult) (rs : List Returned) (s : LineBuf) : Prop :=
  ∃ used pending, results = used ++ s.results ∧ bytesOf used = rs.flatMap Returned.text ++ pending ∧
    s.readlinebuf.1 = pending.length ∧
      (pending ≠ [] → ∃ p, s.readlinebuf.2 = some p ∧ cells s.readBuf p pending.length = pending)

/-- The calls with the arguments `ms` return what they return of the slow version, and `readlinebuf` is right
after them. -/
def Agrees (results : List ReadResult) (ms : List Nat) : Prop :=
  (calls readline ms (start results)).1 = (calls readline1 ms (eventsOf results)).1 ∧
    ∀ s, (calls readline ms (start results)).2 = some s →
      Reports results (calls readline ms (start results)).1 s

/-- What the calls leave: the bytes of the buffer are the ones fetched and not returned. -/
structure Fetched (results : List ReadResult) (rs : List Returned) (s : LineBuf) : Prop where
  used : s.results <:+ results
  stream : bytesOf results = rs.flatMap Returned.text ++ s.stream

private theorem my_read_used {got : Got Char} (h : s.my_read = some (got, t)) : t.results <:+ s.results := by
  rcases my_read_cases h with ⟨-, c, -, -, hrest, -⟩ | ⟨-, n, rest, hresults, hf⟩
  · rw [hrest]
  · rw [hresults]
    have hrest : t.results <:+ rest := by
      cases hf with
      | data first more hr hmore hcnt => exact ⟨[.data first more], hr.symm⟩
      | eof hr hcnt => exact ⟨[.eof], hr.symm⟩
      | error hr hcnt => exact ⟨[.error], hr.symm⟩
    exact hrest.trans (List.suffix_append _ _)

private theorem readline_used (h : s.readline m = some (r, t)) (hs : s.results <:+ results) :
    t.results <:+ results := by
  obtain ⟨e, text, -, hline, -⟩ := readline_line h
  have hI : ∀ (a : LineBuf) got b, a.results <:+ results → got ≠ .error → a.my_read = some (got, b) →
      b.results <:+ results := fun a got b ha _ hab ↦ (my_read_used hab).trans ha
  rcases readLine_keeps hI hline hs with ⟨-, ht⟩ | ⟨-, u, hu, hut⟩
  · exact ht
  · exact (my_read_used hut).trans hu

private theorem fetched_of_calls (h : (calls readline ms (start results)).2 = some s) :
    Fetched results (calls readline ms (start results)).1 s := by
  induction ms using List.reverseRecOn generalizing s with
  | nil =>
    cases h
    exact ⟨List.suffix_refl _, rfl⟩
  | append_singleton ms m ih =>
    obtain ⟨r, t, ht, hr⟩ := calls_before h
    have hfetched := ih ht
    refine ⟨readline_used hr hfetched.used, ?_⟩
    rw [hfetched.stream, readline_stream hr, calls_concat ht, hr]
    simp only [List.flatMap_append, List.append_assoc, Option.map_some, Option.toList_some,
      List.flatMap_singleton]

/-- `readlinebuf` is right when the counter is not negative. -/
private theorem reports_iff {rs : List Returned} (h : Fetched results rs s) :
    Reports results rs s ↔ 0 ≤ s.readCnt := by
  constructor
  · rintro ⟨used, pending, -, -, hcnt, -⟩
    change s.readCnt = pending.length at hcnt
    omega
  · intro hnn
    obtain ⟨used, hused⟩ := h.used
    have hlen : (s.unread.length : Int) = s.readCnt := by
      rw [length_unread, Int.toNat_of_nonneg hnn]
    have hbytes : bytesOf used = rs.flatMap Returned.text ++ s.unread := by
      have hcat := h.stream
      unfold stream at hcat
      rw [← hused, bytesOf_append, ← List.append_assoc] at hcat
      exact List.append_cancel_right hcat
    refine ⟨used, s.unread, hused.symm, hbytes, hlen.symm, fun hne ↦ ⟨s.readPtr, ?_, ?_⟩⟩
    · have hpos : s.readCnt ≠ 0 := fun h0 ↦ hne (unread_nil h0.le)
      exact if_pos hpos
    · rw [length_unread]
      rfl

private theorem my_read_readCnt {got : Got Char} (h : s.my_read = some (got, t)) :
    (got ≠ .error → 0 ≤ t.readCnt) ∧ (got = .error → t.readCnt = -1) := by
  rcases my_read_cases h with ⟨hpos, c, rfl, -, -, hcnt⟩ | ⟨-, n, rest, -, hf⟩
  · exact ⟨fun _ ↦ by omega, nofun⟩
  · cases hf with
    | data first more hr hmore hcnt => exact ⟨fun _ ↦ by omega, nofun⟩
    | eof hr hcnt => exact ⟨fun _ ↦ hcnt.ge, nofun⟩
    | error hr hcnt => exact ⟨fun hne ↦ absurd rfl hne, fun _ ↦ hcnt⟩

/-- A call that meets no error keeps the counter from being negative. -/
private theorem readline_readCnt (h : s.readline m = some (r, t)) (hno : ¬ Meets .error m s)
    (hs : 0 ≤ s.readCnt) : 0 ≤ t.readCnt := by
  obtain ⟨e, text, -, hline, htaken⟩ := readline_line h
  have hI : ∀ (a : LineBuf) got b, 0 ≤ a.readCnt → got ≠ .error → a.my_read = some (got, b) →
      0 ≤ b.readCnt := fun a got b _ hne hab ↦ (my_read_readCnt hab).1 hne
  rcases readLine_keeps hI hline hs with ⟨-, ht⟩ | ⟨rfl, -⟩
  · exact ht
  · exact absurd (meets_of_taken (.inr rfl) htaken).2 hno

/-- A call that meets an error leaves `-1` in it. -/
private theorem readline_error (h : Meets .error m s) : ∃ r t, s.readline m = some (r, t) ∧ t.readCnt = -1 := by
  obtain ⟨t, ht⟩ := readLine_meets h
  refine ⟨returned .error s.ahead, t, ?_, ?_⟩
  · unfold readline
    rw [ht]
    rfl
  · rcases readLine_keeps (fun _ _ _ _ _ _ ↦ trivial) ht trivial with ⟨hne, -⟩ | ⟨-, u, -, hu⟩
    · exact absurd rfl hne
    · exact (my_read_readCnt hu).2 rfl

private theorem returns_eq (results : List ReadResult) (ms : List Nat) :
    (calls readline1 ms (eventsOf results)).1 = (calls readline ms (start results)).1 := by
  have hstart : (start results).events = eventsOf results := rfl
  rw [← hstart, calls_map readline1_events]

/-- The calls agree with the slow version, and `readlinebuf` is right after each of them, exactly when none of
them meets an error. -/
theorem calls_agree : (∀ ms', ms' <+: ms → Agrees results ms') ↔
    ∀ ms' m s, ms' ++ [m] <+: ms → (calls readline ms' (start results)).2 = some s → ¬ Meets .error m s := by
  constructor
  · intro hagree ms' m s hpre hs hmeets
    obtain ⟨r, t, hr, ht⟩ := readline_error hmeets
    have hafter : (calls readline (ms' ++ [m]) (start results)).2 = some t := by
      rw [calls_concat hs, hr]
      rfl
    have hreports := (hagree (ms' ++ [m]) hpre).2 t hafter
    have hnn := (reports_iff (fetched_of_calls hafter)).mp hreports
    omega
  · intro hno
    -- the counter is not negative after any of the calls
    have hcnt : ∀ ms', ms' <+: ms → ∀ s, (calls readline ms' (start results)).2 = some s → 0 ≤ s.readCnt := by
      intro ms'
      induction ms' using List.reverseRecOn with
      | nil =>
        intro _ s hs
        cases hs
        exact Int.le_refl 0
      | append_singleton ms' m ih =>
        intro hpre s hs
        obtain ⟨r, t, ht, hr⟩ := calls_before hs
        have hpre' : ms' <+: ms := (List.prefix_append ms' [m]).trans hpre
        exact readline_readCnt hr (hno ms' m t hpre ht) (ih hpre' t ht)
    intro ms' hpre
    refine ⟨(returns_eq results ms').symm, fun s hs ↦ ?_⟩
    exact (reports_iff (fetched_of_calls hs)).mpr (hcnt ms' hpre s hs)

/-- The first `read` fails: the call returns `-1`, and so does `readlinebuf`, with a pointer. -/
theorem readlinebuf_after_error : (∃ s, calls readline [2] (start [.error]) = ([⟨-1, [], false⟩], some s) ∧
    s.readlinebuf = (-1, some 0)) ∧ ¬ Agrees [.error] [2] := by
  refine ⟨⟨_, rfl, rfl⟩, fun h ↦ ?_⟩
  have hreports := h.2 _ rfl
  have hnn := (reports_iff (@fetched_of_calls [.error] [2] _ rfl)).mp hreports
  exact absurd hnn (by decide)

end LineBuf
end Unpv13e.Lib
