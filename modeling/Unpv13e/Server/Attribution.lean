import Mathlib
import Unpv13e.Base.Runs
import Unpv13e.Lib.Readline

/-!
# Whose lines the server processes

Library `Server`. `main`, the `RoomProcess` threads and `GameStart` call `readline` on the
descriptors of the connections (`src/tcpcliserv/final_server.c:386`, `790`, `1302`), each
with a line buffer of its own and all with the one buffer of `my_read`. A call is one step;
the bytes the clients send and the cuts of the results of `read` are arbitrary. Connections
and callers are arbitrary types.
-/

namespace Unpv13e.Server
open Unpv13e.Base Unpv13e.Lib

universe u v

/-- The server's reading side and what the clients have sent. -/
structure Reading (κ : Type u) (τ : Type v) where
  /-- the bytes left in `read_buf` -/
  readBuf : Text
  /-- the connection `read` was last called for -/
  filledBy : Option κ
  /-- the array `recvline` of each caller -/
  recvline : τ → Nat → Char
  /-- the bytes the kernel holds for `read` -/
  unread : κ → Text
  /-- the peer has closed its side -/
  shut : κ → Bool
  sent : κ → Text
  /-- the lines processed on behalf of each connection -/
  processed : κ → List Text

/-- The steps of clients and callers. -/
inductive ReadAct (κ : Type u) (τ : Type v)
  | send (c : κ) (bytes : Text)
  | close (c : κ)
  /-- caller `t` calls `readline` for `c`, whose calls of `read` have these results -/
  | call (t : τ) (c : κ) (results : List ReadResult)

namespace Reading

variable {κ : Type u} {τ : Type v}

/-- Nothing has been sent or read. The arrays of the callers hold anything. -/
def start (recvline : τ → Nat → Char) : Reading κ τ where
  readBuf := []
  filledBy := none
  recvline := recvline
  unread := fun _ ↦ []
  shut := fun _ ↦ false
  sent := fun _ ↦ []
  processed := fun _ ↦ []

section
variable [DecidableEq κ]

/-- Client `c` sends bytes. -/
def arrive (c : κ) (bytes : Text) (w : Reading κ τ) : Reading κ τ :=
  { w with
    unread := Function.update w.unread c (w.unread c ++ bytes)
    sent := Function.update w.sent c (w.sent c ++ bytes) }

variable [DecidableEq τ]

/-- A call of `readline` has returned `r`, left `readBuf` in its buffer and `more` in the
kernel. The callers treat `0` as a departure and what is in `recvline` as a line otherwise. -/
def returned (t : τ) (c : κ) (results : List ReadResult) (more : Text) (r : Returned)
    (readBuf : Text) (w : Reading κ τ) : Reading κ τ :=
  { w with
    readBuf := readBuf
    filledBy := if results = [] then w.filledBy else some c
    recvline := Function.update w.recvline t (r.store (w.recvline t))
    unread := Function.update w.unread c more
    processed :=
      if r.value = 0 then w.processed
      else Function.update w.processed c
        (w.processed c ++ [cString (r.store (w.recvline t))]) }

/-- The transition relation. The results of `read` are the bytes the kernel holds, in order,
at most `MAXLINE` at a time, and the end of the file comes after the last of them. -/
def Step (w : Reading κ τ) (a : ReadAct κ τ) (w' : Reading κ τ) : Prop :=
  match a with
  | .send c bytes => w.shut c = false ∧ w' = w.arrive c bytes
  | .close c => w' = { w with shut := Function.update w.shut c true }
  | .call t c results => ∃ more r readBuf,
      w.unread c = bytesOf results ++ more ∧
      (.eof ∈ results → w.shut c = true ∧ more = []) ∧
      (∀ x ∈ results, x.bytes.length ≤ maxLine) ∧
      readline maxLine w.readBuf results = some (r, readBuf, []) ∧
      w' = w.returned t c results more r readBuf

end

/-- The steps that reach none of the ways in which a line is lost or given away: the buffer
is empty or holds bytes of the connection the call is for; `read` does not fail; the end of
the file comes after a whole line; the line fits; and a call that takes the last bytes of the
kernel leaves no second line behind. -/
def Attributable (w : Reading κ τ) : ReadAct κ τ → Prop
  | .send _ bytes => Char.ofNat 0 ∉ bytes
  | .close _ => True
  | .call _ c results =>
    (w.readBuf = [] ∨ w.filledBy = some c) ∧
    .error ∉ results ∧
    (.eof ∈ results → w.readBuf ++ bytesOf results = []) ∧
    (.eof ∉ results → '\n' ∈ (w.readBuf ++ bytesOf results).take (maxLine - 1)) ∧
    (w.unread c = bytesOf results → (w.readBuf ++ bytesOf results).count '\n' ≤ 1)

/-- A call under the condition returns the next line, or `0` at the end of the file. -/
theorem call_returns {w : Reading κ τ} {c : κ} {t : τ} {results : List ReadResult} {r : Returned} {readBuf : Text}
    (hok : w.Attributable (.call t c results))
    (h : readline maxLine w.readBuf results = some (r, readBuf, [])) :
    w.readBuf ++ bytesOf results = r.text ++ readBuf ∧
      ((r.value = 0 ∧ r.text = [] ∧ readBuf = []) ∨
        (r.value ≠ 0 ∧ IsRecord '\n' r.text ∧ r.text.length < maxLine ∧ r.terminated = true)) := by
  obtain ⟨-, herr, heof, hline, -⟩ := hok
  obtain ⟨used, hused, hcat, hend, -⟩ := readline_spec h
  rw [List.append_nil] at hused
  subst hused
  refine ⟨hcat, ?_⟩
  cases hend with
  | line hrec hshort hvalue hterm =>
    have := List.length_pos_iff.mpr hrec.ne_nil
    exact Or.inr ⟨by omega, hrec, hshort, hterm⟩
  | full hfull hno =>
    by_cases he : ReadResult.eof ∈ results
    · have hnil := heof he
      rw [hcat] at hnil
      rw [(List.append_eq_nil_iff.mp hnil).1] at hfull
      cases hfull
    · have hmem := hline he
      rw [hcat, ← hfull, List.take_left] at hmem
      exact absurd hmem hno
  | eof he hempty hvalue hterm =>
    have hnil := heof he
    rw [hcat] at hnil
    have htext := (List.append_eq_nil_iff.mp hnil).1
    exact Or.inl ⟨by rw [hvalue, htext]; rfl, htext, hempty⟩
  | error he => exact absurd he herr

variable [DecidableEq κ]

/-- The bytes of `c` that are in the buffer. -/
def buffered (w : Reading κ τ) (c : κ) : Text := if w.filledBy = some c then w.readBuf else []

/-- Every byte sent is in a processed line, in the buffer or in the kernel, in this order. -/
structure Attributed (w : Reading κ τ) : Prop where
  bytes : ∀ c, w.sent c = (w.processed c).flatten ++ (w.buffered c ++ w.unread c)
  lines : ∀ c, ∀ l ∈ w.processed c, IsRecord '\n' l
  nul : ∀ c, Char.ofNat 0 ∉ w.sent c
  drained : ∀ c, w.unread c = [] → '\n' ∉ w.buffered c

variable {w : Reading κ τ}

private theorem buffered_eq {c : κ} (h : w.readBuf = [] ∨ w.filledBy = some c) :
    w.buffered c = w.readBuf := by
  unfold buffered
  split
  · rfl
  · next hne =>
    rcases h with h | h
    · exact h.symm
    · exact absurd h hne

private theorem buffered_other {c d : κ} (hd : d ≠ c)
    (h : w.readBuf = [] ∨ w.filledBy = some c) : w.buffered d = [] := by
  unfold buffered
  split
  · next he =>
    rcases h with h | h
    · exact h
    · exact absurd (Option.some.inj (he.symm.trans h)) hd
  · rfl

private theorem attributed_arrive {c : κ} {bytes : Text} (hnul : Char.ofNat 0 ∉ bytes)
    (h : Attributed w) : Attributed (w.arrive c bytes) := by
  have hsent (d : κ) : (w.arrive c bytes).sent d =
      (w.processed d).flatten ++ (w.buffered d ++ (w.arrive c bytes).unread d) := by
    by_cases hd : d = c
    · subst hd
      simp only [arrive, Function.update_self, h.bytes d, List.append_assoc]
    · simp only [arrive, Function.update_of_ne hd, h.bytes d]
  refine ⟨hsent, h.lines, ?_, ?_⟩
  · intro d
    by_cases hd : d = c
    · subst hd
      simp only [arrive, Function.update_self, List.mem_append, not_or]
      exact ⟨h.nul d, hnul⟩
    · simp only [arrive, Function.update_of_ne hd]
      exact h.nul d
  · intro d hd
    refine h.drained d ?_
    by_cases he : d = c
    · subst he
      simp only [arrive, Function.update_self] at hd
      exact (List.append_eq_nil_iff.mp hd).1
    · simpa only [arrive, Function.update_of_ne he] using hd

private theorem not_mem_of_count {text rest s : Text} (hcat : s = text ++ rest)
    (hrec : IsRecord '\n' text) (hcount : s.count '\n' ≤ 1) : '\n' ∉ rest := by
  intro hm
  have h1 := List.count_pos_iff.mpr hrec.mem
  have h2 := List.count_pos_iff.mpr hm
  rw [hcat, List.count_append] at hcount
  omega

private theorem attributed_start (recvline : τ → Nat → Char) :
    Attributed (start recvline : Reading κ τ) := by
  refine ⟨fun c ↦ ?_, nofun, fun _ ↦ List.not_mem_nil, fun c _ ↦ ?_⟩
  · simp [start, buffered]
  · simp [start, buffered]

variable [DecidableEq τ]

private theorem attributed_call {t : τ} {c : κ} {results : List ReadResult} {more : Text}
    {r : Returned} {readBuf : Text} (hok : w.Attributable (.call t c results))
    (hmore : w.unread c = bytesOf results ++ more)
    (hr : readline maxLine w.readBuf results = some (r, readBuf, [])) (h : Attributed w) :
    Attributed (w.returned t c results more r readBuf) := by
  obtain ⟨hcat, hret⟩ := call_returns hok hr
  obtain ⟨hfrom, -, -, -, hcount⟩ := hok
  -- the buffer after the call belongs to `c`, or it is empty
  have hmine : (w.returned t c results more r readBuf).buffered c = readBuf := by
    by_cases hres : results = []
    · subst hres
      rcases hfrom with hnil | hfill
      · rw [hnil] at hr
        cases hr
      · exact if_pos hfill
    · exact if_pos (by simp only [returned, if_neg hres])
  have hothers (d : κ) (hd : d ≠ c) : (w.returned t c results more r readBuf).buffered d = [] := by
    by_cases hres : results = []
    · subst hres
      rcases hfrom with hnil | hfill
      · rw [hnil] at hr
        cases hr
      · exact if_neg fun he ↦ hd (Option.some.inj ((show w.filledBy = some d from he).symm.trans hfill))
    · refine if_neg fun he ↦ hd ?_
      simp only [returned, if_neg hres] at he
      exact (Option.some.inj he).symm
  have hbytes : w.sent c = (w.processed c).flatten ++ (r.text ++ (readBuf ++ more)) := by
    rw [h.bytes c, buffered_eq hfrom, hmore, ← List.append_assoc w.readBuf, hcat,
      List.append_assoc]
  have hunread : (w.returned t c results more r readBuf).unread c = more :=
    Function.update_self _ _ _
  have hline : r.value ≠ 0 → IsRecord '\n' r.text ∧
      cString (r.store (w.recvline t)) = r.text := by
    intro hv
    rcases hret with ⟨h0, -⟩ | ⟨-, hrec, hlen, hterm⟩
    · exact absurd h0 hv
    · refine ⟨hrec, cString_store hterm hlen fun hm ↦ h.nul c ?_⟩
      rw [hbytes]
      exact List.mem_append_right _ (List.mem_append_left _ hm)
  have htext : r.value = 0 → r.text = [] := by
    intro hv
    rcases hret with ⟨-, ht, -⟩ | ⟨hne, -⟩
    · exact ht
    · exact absurd hv hne
  refine ⟨?_, ?_, h.nul, ?_⟩
  · intro d
    by_cases hd : d = c
    · subst hd
      rw [hmine, hunread]
      change w.sent d = ((if r.value = 0 then w.processed else _) d).flatten ++ _
      rw [hbytes]
      split
      · next hv => rw [htext hv, List.nil_append]
      · next hv =>
        rw [Function.update_self, (hline hv).2, List.flatten_append, List.append_assoc]
        simp
    · rw [hothers d hd]
      change w.sent d = ((if r.value = 0 then w.processed else _) d).flatten ++
        ([] ++ Function.update w.unread c more d)
      rw [Function.update_of_ne hd, h.bytes d, buffered_other hd hfrom]
      split
      · rfl
      · rw [Function.update_of_ne hd]
  · intro d l hl
    change l ∈ (if r.value = 0 then w.processed else _) d at hl
    split at hl
    · exact h.lines d l hl
    · next hv =>
      by_cases hd : d = c
      · subst hd
        rw [Function.update_self, (hline hv).2] at hl
        rcases List.mem_append.mp hl with hl | hl
        · exact h.lines d l hl
        · rw [List.mem_singleton.mp hl]
          exact (hline hv).1
      · rw [Function.update_of_ne hd] at hl
        exact h.lines d l hl
  · intro d hd
    by_cases he : d = c
    · subst he
      rw [hmine]
      rw [hunread] at hd
      rcases hret with ⟨-, -, hnil⟩ | ⟨-, hrec, -, -⟩
      · rw [hnil]
        exact List.not_mem_nil
      · refine not_mem_of_count hcat hrec (hcount ?_)
        rw [hmore, hd, List.append_nil]
    · rw [hothers d he]
      exact List.not_mem_nil

/-- One step under the condition keeps every byte in its place. -/
theorem step_attributed {a : ReadAct κ τ} {w' : Reading κ τ} (hs : Step w a w')
    (hok : w.Attributable a) (h : Attributed w) : Attributed w' := by
  cases a with
  | send c bytes =>
    obtain ⟨-, rfl⟩ := hs
    exact attributed_arrive hok h
  | close c =>
    cases hs
    exact ⟨h.bytes, h.lines, h.nul, h.drained⟩
  | call t c results =>
    obtain ⟨more, r, readBuf, hmore, -, -, hr, rfl⟩ := hs
    exact attributed_call hok hmore hr h

/-- In every run whose steps meet the condition, the lines processed on behalf of a connection
are the first of the complete lines it has sent, and all of them once the kernel holds no more
bytes of it. -/
theorem processed_of_attributable {recvline : τ → Nat → Char}
    (hr : RunWith Step Attributable (start recvline) w) (c : κ) :
    w.processed c <+: complete '\n' (w.sent c) ∧
      (w.unread c = [] → w.processed c = complete '\n' (w.sent c)) := by
  have h : Attributed w := by
    refine RunWith.preserves (I := Attributed) ?_ hr (attributed_start recvline)
    intro r a r' hw hok hs
    exact step_attributed hs hok hw
  have hsent := complete_flatten_append (h.lines c) (w.buffered c ++ w.unread c)
  rw [← h.bytes c] at hsent
  refine ⟨⟨_, hsent.symm⟩, fun hnone ↦ ?_⟩
  rw [hsent, hnone, List.append_nil, complete_of_notMem (h.drained c hnone), List.append_nil]

end Reading

/-! ### Two lines in one segment -/

/-- Two connections and one caller. -/
private abbrev Pair := Reading (Fin 2) (Fin 1)

private def pairStart : Pair := .start fun _ _ ↦ Char.ofNat 0

private def twoSent : Pair := pairStart.arrive 0 ['3', '\n', '5', '\n']

private def oneRead : Pair := twoSent.returned 0 0 [.data '3' ['\n', '5', '\n']] []
  ⟨2, ['3', '\n'], true⟩ ['5', '\n']

private def otherSent : Pair := oneRead.arrive 1 ['1', '\n']

private def crossed : Pair := otherSent.returned 0 1 [] ['1', '\n'] ⟨2, ['5', '\n'], true⟩ []

private theorem pair_run : Run Reading.Step pairStart oneRead ∧
    Run Reading.Step pairStart crossed := by
  have h1 : Run Reading.Step pairStart twoSent :=
    RunWith.snoc (a := .send 0 ['3', '\n', '5', '\n']) RunWith.refl True.intro ⟨rfl, rfl⟩
  have h2 : Run Reading.Step pairStart oneRead := by
    refine RunWith.snoc (a := .call 0 0 [.data '3' ['\n', '5', '\n']]) h1 True.intro ?_
    exact ⟨[], _, _, rfl, by simp, by simp [ReadResult.bytes, maxLine], rfl, rfl⟩
  have h3 : Run Reading.Step pairStart otherSent :=
    RunWith.snoc (a := .send 1 ['1', '\n']) h2 True.intro ⟨rfl, rfl⟩
  refine ⟨h2, RunWith.snoc (a := .call 0 1 []) h3 True.intro ?_⟩
  exact ⟨['1', '\n'], _, _, rfl, by simp, by simp, rfl, rfl⟩

/-- Client 0 sends two lines in one segment. The second is not processed when the kernel has
nothing left, and is then processed as a line of client 1. -/
theorem line_of_another :
    (∃ w : Pair, Run Reading.Step pairStart w ∧ w.unread 0 = [] ∧ w.shut 0 = false ∧
      w.processed 0 ≠ complete '\n' (w.sent 0)) ∧
    ∃ w : Pair, Run Reading.Step pairStart w ∧ ¬ w.processed 1 <+: complete '\n' (w.sent 1) := by
  have hstore (text : Text) (n : Int) (array : Nat → Char) (hlen : text.length < maxLine)
      (hnul : Char.ofNat 0 ∉ text) : cString ((⟨n, text, true⟩ : Returned).store array) = text :=
    cString_store rfl hlen hnul
  refine ⟨⟨oneRead, pair_run.1, rfl, rfl, ?_⟩, crossed, pair_run.2, ?_⟩
  · change [cString _] ≠ _
    rw [hstore _ _ _ (by decide) (by decide)]
    decide
  · change ¬ [cString _] <+: _
    rw [hstore _ _ _ (by decide) (by decide)]
    decide

/-- A client whose one line is read is served in full. -/
theorem processed_one_line :
    ∃ w : Pair, Run Reading.Step pairStart w ∧ w.sent 0 = ['3', '\n'] ∧
      w.processed 0 = complete '\n' (w.sent 0) := by
  let sent : Pair := pairStart.arrive 0 ['3', '\n']
  let read : Pair := sent.returned 0 0 [.data '3' ['\n']] [] ⟨2, ['3', '\n'], true⟩ []
  have hsend : RunWith Reading.Step Reading.Attributable pairStart sent :=
    RunWith.snoc (a := .send 0 ['3', '\n']) RunWith.refl
      (show Char.ofNat 0 ∉ (['3', '\n'] : Text) by decide) ⟨rfl, rfl⟩
  have hok : sent.Attributable (.call 0 0 [.data '3' ['\n']]) :=
    ⟨Or.inl rfl, by decide, by decide, by decide, fun _ ↦ by decide⟩
  have hread : RunWith Reading.Step Reading.Attributable pairStart read := by
    refine RunWith.snoc (a := .call 0 0 [.data '3' ['\n']]) hsend hok ?_
    exact ⟨[], _, _, rfl, by simp, by simp [ReadResult.bytes, maxLine], rfl, rfl⟩
  refine ⟨read, RunWith.mono (fun _ _ _ ↦ True.intro) hread, rfl, ?_⟩
  exact (Reading.processed_of_attributable hread 0).2 rfl

end Unpv13e.Server
