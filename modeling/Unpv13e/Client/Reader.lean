import Unpv13e.Base.Runs
import Unpv13e.Lib.Readline

/-!
# How the client cuts the stream into lines

Library `Client`. In a room the client takes lines with `Readline`
(`src/tcpcliserv/final_cli.c:310–321`); after the line `9` the function `game` takes what one
`read` gives and splits it itself (`src/tcpcliserv/final_cli.c:841–856`). Of what the
dispatchers do with a line only its kind and the chat record matter here.
-/

namespace Unpv13e.Client
open Unpv13e.Base Unpv13e.Lib

/-- The kinds of line `goto_room` knows, apart from the `9` that starts the game. -/
def roomOps : List (Char × Char) := [('6', ' '), ('7', ' '), ('8', ' ')]

/-- The kinds of line `game` knows. -/
def gameOps : List (Char × Char) :=
  [('1', '0'), ('1', '1'), ('1', '2'), ('2', '0'), ('1', '3'), ('1', '9'), ('1', '4'), ('7', ' '),
    ('1', '5'), ('2', '1')]

/-- A line of the chat. -/
def IsChat (l : Text) : Prop := opOf l = ('2', '1')

/-- The line that ends the game. -/
def IsResult (l : Text) : Prop := opOf l = ('1', '5')

instance (l : Text) : Decidable (IsChat l) := inferInstanceAs (Decidable (_ = _))

instance (l : Text) : Decidable (IsResult l) := inferInstanceAs (Decidable (_ = _))

/-- Where the client is. -/
inductive Place
  | room
  | game
  /-- `game` has returned after the line `15` -/
  | lobby
  /-- `exit(0)` after a line of an unknown kind -/
  | exited
  deriving DecidableEq, Repr

/-- A client that reads. -/
structure Reader where
  place : Place
  /-- the bytes left in the buffer of `Readline` -/
  readBuf : Text
  /-- the results of the calls of `read` to come -/
  cuts : List ReadResult
  /-- the lines dispatched so far -/
  dispatched : List Text
  /-- the texts copied to `record[record_index % message_num]`, in order -/
  record : List Text

namespace Reader

/-- What `goto_room` does with what `Readline` returned. -/
def gotoRoom (r : Returned) (s : Reader) : Reader :=
  if r.value < 0 then { s with place := .exited }
  else if opOf r.text = ('9', ' ') then
    { s with place := .game, dispatched := s.dispatched ++ [r.text] }
  else if opOf r.text ∈ roomOps then { s with dispatched := s.dispatched ++ [r.text] }
  else { s with place := .exited }

/-- What `game` does with a line cut from `recvline`. The chat record has rows of 150
characters and is copied from `&recvline[3]`, `src/tcpcliserv/final_cli.c:998–1001`. -/
def gameLine (recvline line : Text) (s : Reader) : Except Stop Reader :=
  if IsResult line then
    .ok { s with place := .lobby, dispatched := s.dispatched ++ [line] }
  else if IsChat line then
    let text := (recvline.drop 3).takeWhile (· ≠ Char.ofNat 0)
    if text.length < 150 then
      .ok { s with dispatched := s.dispatched ++ [line], record := s.record ++ [text] }
    else .error .outOfBounds
  else if opOf line ∈ gameOps then .ok { s with dispatched := s.dispatched ++ [line] }
  else .ok { s with place := .exited }

/-- The loop over `recvline`, with the part of a line copied so far and what follows it. At the
end of what was read the outer loop stops and the inner one runs on past it. -/
def splitLines (recvline : Text) : Text → Text → Reader → Except Stop Reader
  | [], [], s => .ok s
  | _ :: _, [], _ => .error .outOfBounds
  | line, c :: rest, s =>
    if s.place ≠ .game then .ok s
    else if line = [] ∧ c = Char.ofNat 0 then .ok s
    else if c = '\n' then gameLine recvline (line ++ [c]) s >>= splitLines recvline [] rest
    else splitLines recvline (line ++ [c]) rest s

/-- `read_num = read(sockfd, recvline, MAXLINE); recvline[read_num] = '\0'` and the loop. -/
def readGame (s : Reader) : ReadResult → Except Stop Reader
  | .data first more =>
    if (first :: more).length < maxLine then splitLines (first :: more) [] (first :: more) s
    else .error .outOfBounds
  | .eof => .ok s
  | .interrupted => .error .outOfBounds
  | .error => .error .outOfBounds

/-- One call of `Readline` or `read` and what is done with its result. `none` when the client
waits for bytes or reads no more. -/
def step (s : Reader) : Option (Except Stop Reader) :=
  match s.place with
  | .room =>
    match readline maxLine s.readBuf s.cuts with
    | none => none
    | some (r, readBuf, cuts) => some (.ok (gotoRoom r { s with readBuf := readBuf, cuts := cuts }))
  | .game =>
    match s.cuts with
    | [] => none
    | x :: cuts => some (readGame { s with cuts := cuts } x)
  | .lobby => none
  | .exited => none

/-- The bytes and results there are to take. -/
def size (s : Reader) : Nat := s.readBuf.length + (bytesOf s.cuts).length + s.cuts.length

private theorem gotoRoom_same (r : Returned) (s : Reader) :
    (gotoRoom r s).readBuf = s.readBuf ∧ (gotoRoom r s).cuts = s.cuts := by
  unfold gotoRoom
  split
  · exact ⟨rfl, rfl⟩
  split
  · exact ⟨rfl, rfl⟩
  split
  · exact ⟨rfl, rfl⟩
  · exact ⟨rfl, rfl⟩

/-- What the game did with bytes: it left the buffers alone, did not go back to the room and
dispatched no more than `n` bytes. -/
private structure Grew (n : Nat) (s s' : Reader) : Prop where
  readBuf : s'.readBuf = s.readBuf
  cuts : s'.cuts = s.cuts
  place : s.place ≠ .room → s'.place ≠ .room
  adds : ∃ D R, s'.dispatched = s.dispatched ++ D ∧ s'.record = s.record ++ R ∧
    D.flatten.length ≤ n

private theorem Grew.refl {n : Nat} (s : Reader) : Grew n s s :=
  ⟨rfl, rfl, id, [], [], by simp, by simp, Nat.zero_le _⟩

private theorem Grew.trans {n n' : Nat} {s s' s'' : Reader} (h : Grew n s s')
    (h' : Grew n' s' s'') : Grew (n + n') s s'' := by
  obtain ⟨D, R, hD, hR, hlen⟩ := h.adds
  obtain ⟨D', R', hD', hR', hlen'⟩ := h'.adds
  refine ⟨h'.readBuf.trans h.readBuf, h'.cuts.trans h.cuts, fun hp ↦ h'.place (h.place hp),
    D ++ D', R ++ R', by rw [hD', hD, List.append_assoc], by rw [hR', hR, List.append_assoc], ?_⟩
  rw [List.flatten_append, List.length_append]
  exact Nat.add_le_add hlen hlen'

private theorem gameLine_grew {recvline line : Text} {s s' : Reader}
    (h : gameLine recvline line s = .ok s') : Grew line.length s s' := by
  have hone : [line].flatten.length ≤ line.length := by simp
  unfold gameLine at h
  split at h
  · cases h
    exact ⟨rfl, rfl, fun _ ↦ nofun, [line], [], rfl, (List.append_nil _).symm, hone⟩
  split at h
  · dsimp only at h
    split at h
    · cases h
      exact ⟨rfl, rfl, id, [line], _, rfl, rfl, hone⟩
    · cases h
  split at h
  · cases h
    exact ⟨rfl, rfl, id, [line], [], rfl, (List.append_nil _).symm, hone⟩
  · cases h
    exact ⟨rfl, rfl, fun _ ↦ nofun, [], [], (List.append_nil _).symm, (List.append_nil _).symm,
      Nat.zero_le _⟩

private theorem splitLines_grew {recvline line rest : Text} {s s' : Reader}
    (h : splitLines recvline line rest s = .ok s') : Grew (line.length + rest.length) s s' := by
  induction rest generalizing line s with
  | nil =>
    cases line with
    | nil => cases h; exact .refl _
    | cons => cases h
  | cons c rest ih =>
    rw [splitLines] at h
    split at h
    · cases h; exact .refl _
    split at h
    · cases h; exact .refl _
    split at h
    · obtain ⟨t, ht, h⟩ := exists_of_bind_ok h
      have := (gameLine_grew ht).trans (ih h)
      simpa [Nat.add_assoc, Nat.add_comm, Nat.add_left_comm] using this
    · have := ih h
      simpa [Nat.add_assoc, Nat.add_comm, Nat.add_left_comm] using this

private theorem readGame_grew {s s' : Reader} {x : ReadResult} (h : readGame s x = .ok s') :
    Grew x.bytes.length s s' := by
  cases x with
  | data first more =>
    unfold readGame at h
    dsimp only at h
    split at h
    · simpa [ReadResult.bytes] using splitLines_grew h
    · cases h
  | eof => cases h; exact .refl _
  | interrupted => cases h
  | error => cases h

/-- Every step takes something. -/
theorem size_step {s s' : Reader} (h : s.step = some (.ok s')) : s'.size < s.size := by
  unfold step at h
  split at h
  · split at h
    · cases h
    next r readBuf cuts hr =>
    cases h
    obtain ⟨hb, hc⟩ := gotoRoom_same r { s with readBuf := readBuf, cuts := cuts }
    obtain ⟨used, hused, hcat, hend, -⟩ := readline_spec hr
    unfold size
    rw [hb, hc, hused, bytesOf_append, List.length_append, List.length_append]
    dsimp only
    have hlen := congrArg List.length hcat
    simp only [List.length_append] at hlen
    rcases used with _ | ⟨x, used⟩
    · -- nothing was read, so a byte was taken from the buffer
      have hpos : 0 < r.text.length := by
        cases hend with
        | line hrec => exact List.length_pos_iff.mpr hrec.ne_nil
        | full hfull => rw [hfull]; decide
        | eof heof => cases heof
        | error herr => cases herr
      simp only [bytesOf, List.flatMap_nil, List.length_nil] at hlen ⊢
      omega
    · simp only [List.length_cons]
      omega
  · split at h
    · cases h
    next x cuts hx =>
    have h' := Option.some.inj h
    have hgrew := readGame_grew h'
    unfold size
    rw [hgrew.readBuf, hgrew.cuts, hx]
    simp only [bytesOf, List.flatMap_cons, List.length_append, List.length_cons]
    omega
  · cases h
  · cases h

/-- The client reads until it waits for bytes or reads no more. -/
def run (s : Reader) : Except Stop Reader :=
  match _h : s.step with
  | none => .ok s
  | some (.error e) => .error e
  | some (.ok s') => s'.run
termination_by s.size
decreasing_by exact size_step _h

theorem run_none {s : Reader} (h : s.step = none) : s.run = .ok s := by
  rw [run]
  split
  · rfl
  · next he => rw [h] at he; cases he
  · next he => rw [h] at he; cases he

theorem run_some {s : Reader} {x : Except Stop Reader} (h : s.step = some x) :
    s.run = (x >>= run) := by
  rw [run]
  split
  · next he => rw [h] at he; cases he
  · next he => rw [h] at he; cases he; rfl
  · next he => rw [h] at he; cases he; rfl

/-- What a step preserves holds when the client has read. -/
theorem run_preserves {P : Reader → Prop} (hstep : ∀ s s', P s → s.step = some (.ok s') → P s')
    {s s' : Reader} (hs : P s) (h : s.run = .ok s') : P s' := by
  induction s using run.induct with
  | case1 s hnone =>
    rw [run_none hnone] at h
    cases h
    exact hs
  | case2 s e he =>
    rw [run_some he] at h
    cases h
  | case3 s t ht ih =>
    rw [run_some ht, ok_bind] at h
    exact ih (hstep s t hs ht) h

/-! ### In the room -/

/-- A line of the room or the line `9` is dispatched with what `Readline` leaves. -/
private theorem run_record {s : Reader} {l rest : Text} (hroom : s.place = .room)
    (hl : IsRecord '\n' l) (hlen : l.length < maxLine) (hdata : DataOnly s.cuts)
    (hs : s.readBuf ++ bytesOf s.cuts = l ++ rest) :
    ∃ used readBuf cuts, s.run =
        (gotoRoom ⟨l.length, l, true⟩ { s with readBuf := readBuf, cuts := cuts }).run ∧
      s.cuts = used ++ cuts ∧ s.readBuf ++ bytesOf used = l ++ readBuf ∧
      ∀ init x, used = init ++ [x] → (s.readBuf ++ bytesOf init).length < l.length := by
  obtain ⟨used, readBuf, cuts, hr, hused, hcat, hneed⟩ := readline_record hl hlen hdata hs
  refine ⟨used, readBuf, cuts, ?_, hused, hcat, hneed⟩
  have hstep : s.step = some (.ok (gotoRoom ⟨l.length, l, true⟩
      { s with readBuf := readBuf, cuts := cuts })) := by
    unfold step
    rw [hroom]
    dsimp only
    rw [hr]
  rw [run_some hstep]
  rfl

/-- In the room every line is dispatched, however the stream is cut, and no result of `read` is
taken that is not needed. -/
theorem run_room {room : List Text} {start rest readBuf : Text} {cuts : List ReadResult}
    {dispatched record : List Text}
    (hrec : ∀ l ∈ room ++ [start], IsRecord '\n' l ∧ l.length < maxLine)
    (hroom : ∀ l ∈ room, opOf l ∈ roomOps) (hstart : opOf start = ('9', ' '))
    (hdata : DataOnly cuts) (hs : readBuf ++ bytesOf cuts = (room ++ [start]).flatten ++ rest) :
    ∃ used readBuf' cuts', (Reader.mk .room readBuf cuts dispatched record).run =
        (Reader.mk .game readBuf' cuts' (dispatched ++ (room ++ [start])) record).run ∧
      cuts = used ++ cuts' ∧ readBuf ++ bytesOf used = (room ++ [start]).flatten ++ readBuf' ∧
      ∀ init x, used = init ++ [x] →
        (readBuf ++ bytesOf init).length < (room ++ [start]).flatten.length := by
  induction room generalizing readBuf cuts dispatched with
  | nil =>
    obtain ⟨hr, hlen⟩ := hrec start (by simp)
    have hs' : readBuf ++ bytesOf cuts = start ++ rest := by simpa using hs
    obtain ⟨used, readBuf', cuts', hrun, hused, hcat, hneed⟩ :=
      run_record (s := ⟨.room, readBuf, cuts, dispatched, record⟩) rfl hr hlen hdata hs'
    refine ⟨used, readBuf', cuts', ?_, hused, by simpa using hcat, by simpa using hneed⟩
    rw [hrun]
    congr 1
    unfold gotoRoom
    rw [if_neg (by simp), if_pos hstart]
    rfl
  | cons l room ih =>
    obtain ⟨hr, hlen⟩ := hrec l (by simp)
    have hs' : readBuf ++ bytesOf cuts = l ++ ((room ++ [start]).flatten ++ rest) := by
      simpa using hs
    obtain ⟨used, readBuf₁, cuts₁, hrun, hused, hcat, hneed⟩ :=
      run_record (s := ⟨.room, readBuf, cuts, dispatched, record⟩) rfl hr hlen hdata hs'
    have hlop : opOf l ∈ roomOps := hroom l List.mem_cons_self
    have hne : opOf l ≠ ('9', ' ') := by
      intro he
      rw [he] at hlop
      exact absurd hlop (by decide)
    have hs₁ : readBuf₁ ++ bytesOf cuts₁ = (room ++ [start]).flatten ++ rest := by
      have hused' : cuts = used ++ cuts₁ := hused
      have hcat' : readBuf ++ bytesOf used = l ++ readBuf₁ := hcat
      rw [hused', bytesOf_append, ← List.append_assoc, hcat', List.append_assoc] at hs'
      exact List.append_cancel_left hs'
    obtain ⟨used', readBuf', cuts', hrun', hused', hcat', hneed'⟩ :=
      @ih _ _ (dispatched ++ [l]) (fun q hq ↦ hrec q (List.mem_cons_of_mem _ hq))
        (fun q hq ↦ hroom q (List.mem_cons_of_mem _ hq)) (hdata.of_append hused) hs₁
    refine ⟨used ++ used', readBuf', cuts', ?_, ?_, ?_, ?_⟩
    · rw [hrun]
      unfold gotoRoom
      rw [if_neg (by simp), if_neg hne, if_pos hlop]
      simpa using hrun'
    · rw [List.append_assoc, ← hused']
      exact hused
    · have hcat₀ : readBuf ++ bytesOf used = l ++ readBuf₁ := hcat
      rw [bytesOf_append, ← List.append_assoc, hcat₀, List.append_assoc, hcat']
      simp
    · intro init x he
      have hcat₀ := congrArg List.length (show readBuf ++ bytesOf used = l ++ readBuf₁ from hcat)
      rcases List.eq_nil_or_concat used' with rfl | ⟨init', y, rfl⟩
      · rw [List.append_nil] at he
        have := hneed init x he
        simp only [List.cons_append, List.flatten_cons, List.length_append] at this ⊢
        omega
      · rw [List.concat_eq_append, ← List.append_assoc] at he
        obtain ⟨rfl, -⟩ := List.append_inj' he rfl
        have := hneed' init' y (List.concat_eq_append ..)
        rw [bytesOf_append]
        simp only [List.cons_append, List.flatten_cons, List.length_append] at this hcat₀ ⊢
        omega

/-! ### In the game -/

/-- The lines `L` are dispatched from the segment `recvline`. -/
def after (recvline : Text) (L : List Text) (s : Reader) : Reader :=
  { s with
    place := if ∃ l ∈ L, IsResult l then .lobby else .game
    dispatched := s.dispatched ++ L
    record := s.record ++ (L.filter fun l ↦ IsChat l).map fun _ ↦ recvline.drop 3 }

private theorem after_nil {recvline : Text} {s : Reader} (hs : s.place = .game) :
    s.after recvline [] = s := by
  obtain ⟨place, readBuf, cuts, dispatched, record⟩ := s
  cases hs
  simp [after]

private theorem after_cons {recvline l : Text} {L : List Text} {s : Reader} (hr : ¬ IsResult l) :
    s.after recvline (l :: L) = after recvline L { s with
      dispatched := s.dispatched ++ [l]
      record := if IsChat l then s.record ++ [recvline.drop 3] else s.record } := by
  by_cases hc : IsChat l
  · simp [after, hr, hc]
  · simp [after, hr, hc]

private theorem splitLines_body {recvline line body rest : Text} {s : Reader}
    (hs : s.place = .game) (hnl : '\n' ∉ body) (hnul : Char.ofNat 0 ∉ body) :
    splitLines recvline line (body ++ rest) s = splitLines recvline (line ++ body) rest s := by
  induction body generalizing line with
  | nil => simp
  | cons c body ih =>
    have hc : c ≠ '\n' := fun he ↦ hnl (he ▸ List.mem_cons_self)
    have hz : c ≠ Char.ofNat 0 := fun he ↦ hnul (he ▸ List.mem_cons_self)
    rw [List.cons_append, splitLines, if_neg (not_not.mpr hs), if_neg (fun h ↦ hz h.2), if_neg hc,
      ih (fun h ↦ hnl (List.mem_cons_of_mem _ h)) (fun h ↦ hnul (List.mem_cons_of_mem _ h))]
    simp

private theorem splitLines_record {recvline l rest : Text} {s : Reader} (hs : s.place = .game)
    (hl : IsRecord '\n' l) (hnul : Char.ofNat 0 ∉ l) :
    splitLines recvline [] (l ++ rest) s =
      (gameLine recvline l s >>= splitLines recvline [] rest) := by
  obtain ⟨body, rfl, hb⟩ := hl
  rw [List.append_assoc, splitLines_body hs hb fun h ↦ hnul (List.mem_append_left _ h),
    List.nil_append, List.singleton_append, splitLines, if_neg (not_not.mpr hs),
    if_neg (fun h ↦ absurd h.2 (by decide)), if_pos rfl]

private theorem takeWhile_nul {t : Text} (h : Char.ofNat 0 ∉ t) :
    t.takeWhile (· ≠ Char.ofNat 0) = t := by
  rw [List.takeWhile_eq_self_iff]
  intro c hc
  simp only [ne_eq, decide_not, Bool.not_eq_eq_eq_not, Bool.not_true, decide_eq_false_iff_not]
  rintro rfl
  exact h hc

/-- What a segment of whole lines and a rest does: a rest or a chat text too long for its row
runs past an array. -/
theorem splitLines_lines {recvline tail : Text} {L : List Text} {s : Reader}
    (hs : s.place = .game) (hw : Char.ofNat 0 ∉ recvline)
    (hL : ∀ l ∈ L, IsRecord '\n' l ∧ Char.ofNat 0 ∉ l ∧ opOf l ∈ gameOps)
    (htail : '\n' ∉ tail ∧ Char.ofNat 0 ∉ tail) (hres : ∀ l ∈ L.dropLast, ¬ IsResult l)
    (hopen : tail ≠ [] → ∀ l ∈ L, ¬ IsResult l) :
    splitLines recvline [] (L.flatten ++ tail) s =
      if tail = [] ∧ ∀ l ∈ L, IsChat l → (recvline.drop 3).length < 150 then
        .ok (s.after recvline L)
      else .error .outOfBounds := by
  induction L generalizing s with
  | nil =>
    rw [after_nil hs]
    cases tail with
    | nil => simp [splitLines]
    | cons c tail =>
      have h := @splitLines_body recvline [] (c :: tail) [] s hs htail.1 htail.2
      rw [List.append_nil] at h
      rw [List.flatten_nil, List.nil_append, h]
      simp [splitLines]
  | cons l L ih =>
    obtain ⟨hrec, hnul, hop⟩ := hL l List.mem_cons_self
    have hL' : ∀ q ∈ L, IsRecord '\n' q ∧ Char.ofNat 0 ∉ q ∧ opOf q ∈ gameOps :=
      fun q hq ↦ hL q (List.mem_cons_of_mem _ hq)
    have hres' : ∀ q ∈ L.dropLast, ¬ IsResult q := by
      intro q hq
      cases L with
      | nil => cases hq
      | cons q' L => exact hres q (List.mem_cons_of_mem _ hq)
    have hopen' : tail ≠ [] → ∀ q ∈ L, ¬ IsResult q :=
      fun ht q hq ↦ hopen ht q (List.mem_cons_of_mem _ hq)
    rw [List.flatten_cons, List.append_assoc, splitLines_record hs hrec hnul]
    unfold gameLine
    have htext : ((recvline.drop 3).takeWhile (· ≠ Char.ofNat 0)) = recvline.drop 3 :=
      takeWhile_nul fun h ↦ hw (List.mem_of_mem_drop h)
    by_cases hr : IsResult l
    · -- the game is over, so nothing follows the line
      have hLnil : L = [] := by
        cases L with
        | nil => rfl
        | cons q L => exact absurd hr (hres l List.mem_cons_self)
      have htnil : tail = [] := by
        by_contra ht
        exact hopen ht l List.mem_cons_self hr
      have hnc : ¬ IsChat l := by
        intro hc
        have he : (('1', '5') : Char × Char) = ('2', '1') := hr.symm.trans hc
        exact absurd he (by decide)
      subst hLnil htnil
      rw [if_pos hr, ok_bind]
      simp [splitLines, after, hr, hnc]
    · rw [if_neg hr]
      by_cases hc : IsChat l
      · rw [if_pos hc]
        dsimp only
        rw [htext]
        by_cases hlen : (recvline.drop 3).length < 150
        · rw [if_pos hlen, ok_bind, ih (s := { s with
            dispatched := s.dispatched ++ [l], record := s.record ++ [recvline.drop 3] })
            hs hL' hres' hopen']
          have hiff : (∀ q ∈ l :: L, IsChat q → (recvline.drop 3).length < 150) ↔
              ∀ q ∈ L, IsChat q → (recvline.drop 3).length < 150 :=
            ⟨fun h q hq ↦ h q (List.mem_cons_of_mem _ hq), fun _ _ _ _ ↦ hlen⟩
          simp only [hiff, after_cons hr, if_pos hc]
        · rw [if_neg hlen, if_neg fun h ↦ hlen (h.2 l List.mem_cons_self hc)]
          rfl
      · rw [if_neg hc, if_pos hop, ok_bind, ih (s := { s with
          dispatched := s.dispatched ++ [l] }) hs hL' hres' hopen']
        simp [after, hr, hc]

theorem run_of_ended {s : Reader} (h : s.place = .lobby ∨ s.place = .exited) :
    s.run = .ok s := by
  apply run_none
  unfold step
  rcases h with h | h <;> rw [h]

theorem run_game {s : Reader} {x : ReadResult} {cuts : List ReadResult}
    (hs : s.place = .game) (hc : s.cuts = x :: cuts) :
    s.run = (readGame { s with cuts := cuts } x >>= run) := by
  apply run_some
  unfold step
  rw [hs]
  dsimp only
  rw [hc]

/-- What is dispatched in the game is no longer than what is read there. -/
theorem run_adds {cuts : List ReadResult} {s s' : Reader} (hc : s.cuts = cuts)
    (hs : s.place ≠ .room) (h : s.run = .ok s') :
    ∃ D R, s'.dispatched = s.dispatched ++ D ∧ s'.record = s.record ++ R ∧
      D.flatten.length ≤ (bytesOf cuts).length := by
  have hstay {n : Nat} (hrun : s.run = .ok s) : Grew n s s' := by
    rw [hrun] at h
    cases h
    exact .refl _
  induction cuts generalizing s with
  | nil =>
    refine (hstay (run_none ?_)).adds
    unfold step
    cases hp : s.place with
    | room => exact absurd hp hs
    | game => dsimp only; rw [hc]
    | lobby => rfl
    | exited => rfl
  | cons x cuts ih =>
    cases hp : s.place with
    | room => exact absurd hp hs
    | lobby => exact (hstay (run_of_ended (.inl hp))).adds
    | exited => exact (hstay (run_of_ended (.inr hp))).adds
    | game =>
      rw [run_game hp hc] at h
      obtain ⟨t, ht, h⟩ := exists_of_bind_ok h
      have hg := readGame_grew ht
      obtain ⟨D, R, hD, hR, hlen⟩ := hg.adds
      obtain ⟨D', R', hD', hR', hlen'⟩ := ih hg.cuts (hg.place hs) h fun hrun ↦ by
        rw [hrun] at h
        cases h
        exact .refl _
      refine ⟨D ++ D', R ++ R', by rw [hD', hD, List.append_assoc],
        by rw [hR', hR, List.append_assoc], ?_⟩
      simp only [bytesOf, List.flatMap_cons, List.flatten_append, List.length_append]
        at hlen' ⊢
      omega

end Reader

end Unpv13e.Client
