import Unpv13e.Lib.LineBuf

/-!
# `readline_r`

Library `Lib`. An `Rline` holds the buffer of one descriptor and the array of the caller. The two copies,
`src/server/readline_r.c:5–62` and `src/test/readline3.c:5–60`, fill the buffer alike: `my_read_r` and
`my_read` are the same function of it, the one of `readline` on static variables (the mask `& 255` leaves a
`char` what it is). They differ in what they do at the end of the file.
-/

namespace Unpv13e.Lib.LineBuf
open Unpv13e.Base

/-- What `readline_r` returns of a line, `src/server/readline_r.c:45–60`. The loop has counted one more than it
has stored when the file ends, and is left as with a full array, unless nothing has been stored. -/
def returned_r : LineEnd → Text → Returned
  | .eof, [] => ⟨0, [], false⟩
  | .eof, c :: text => ⟨(c :: text).length + 1, c :: text, true⟩
  | e, text => returned e text

/-- `readline_r(rptr)` of `src/server/readline_r.c`, `maxlen` being `read_maxlen`. -/
def readline_r (maxlen : Nat) (s : LineBuf) : Option (Returned × LineBuf) :=
  (readLine my_read '\n' (maxlen - 1) [] s).map fun p ↦ (returned_r p.1 p.2.1, p.2.2)

/-- `readline_r(rptr)` of `src/test/readline3.c`. -/
def readline3 (maxlen : Nat) (s : LineBuf) : Option (Returned × LineBuf) :=
  (readLine my_read '\n' (maxlen - 1) [] s).map fun p ↦ (returned p.1 p.2.1, p.2.2)

variable {results : List ReadResult} {ms : List Nat} {m : Nat} {s t : LineBuf} {r : Returned}

/-- The value and the bytes stored. -/
def stored (r : Returned) : Int × Text := (r.value, r.text)

/-- The calls on one `Rline` return and store the same in the two copies, and each call that meets the end of
the file returns how many bytes it stores. -/
def CopiesAgree (results : List ReadResult) (ms : List Nat) : Prop :=
  (calls readline_r ms (start results)).1.map stored = (calls readline3 ms (start results)).1.map stored ∧
    ∀ ms' m s r t, ms' ++ [m] <+: ms → (calls readline3 ms' (start results)).2 = some s → Meets .eof m s →
      readline_r m s = some (r, t) ∨ readline3 m s = some (r, t) → r.value = r.text.length

private theorem readline_r_state (m : Nat) (s : LineBuf) :
    (readline_r m s).map Prod.snd = (readline3 m s).map Prod.snd := by
  unfold readline_r readline3
  rw [Option.map_map, Option.map_map]
  rfl

private theorem calls_state (ms : List Nat) (s : LineBuf) :
    (calls readline_r ms s).2 = (calls readline3 ms s).2 := by
  induction ms using List.reverseRecOn with
  | nil => rfl
  | append_singleton ms m ih =>
    cases h : (calls readline3 ms s).2 with
    | none =>
      rw [calls_wait h, calls_wait (ih.trans h), ih]
    | some t =>
      rw [calls_concat h, calls_concat (ih.trans h)]
      exact readline_r_state m t

/-- Without bytes before the end of the file the copies store and return the same. -/
private theorem readline_r_stored (h : ¬ (Meets .eof m s ∧ s.ahead ≠ [])) :
    (readline_r m s).map (stored ∘ Prod.fst) = (readline3 m s).map (stored ∘ Prod.fst) := by
  unfold readline_r readline3
  cases hline : readLine my_read '\n' (m - 1) [] s with
  | none => rfl
  | some p =>
    obtain ⟨e, text, t⟩ := p
    cases e with
    | separator => rfl
    | full => rfl
    | error => rfl
    | eof =>
      obtain ⟨taken, htext, htaken⟩ := readLine_taken ahead_my_read hline
      rw [List.nil_append] at htext
      cases htext
      obtain ⟨hahead, hmeets⟩ := meets_of_taken (.inl rfl) htaken
      have hnil : text = [] := by
        by_contra hne
        exact h ⟨hmeets, hahead ▸ hne⟩
      cases hnil
      rfl

private theorem readline_eof (h : Meets .eof m s) :
    ∃ t, readline_r m s = some (returned_r .eof s.ahead, t) ∧ readline3 m s = some (returned .eof s.ahead, t) := by
  obtain ⟨t, ht⟩ := readLine_meets h
  refine ⟨t, ?_, ?_⟩
  · unfold readline_r
    rw [ht]
    rfl
  · unfold readline3
    rw [ht]
    rfl

/-- The two copies agree exactly when no call meets the end of the file in the middle of a line. -/
theorem copies_agree : CopiesAgree results ms ↔
    ∀ ms' m s, ms' ++ [m] <+: ms → (calls readline3 ms' (start results)).2 = some s →
      ¬ (Meets .eof m s ∧ s.ahead ≠ []) := by
  constructor
  · rintro ⟨-, hcount⟩ ms' m s hpre hs ⟨hmeets, hne⟩
    obtain ⟨t, hr, -⟩ := readline_eof hmeets
    have hvalue := hcount ms' m s _ t hpre hs hmeets (.inl hr)
    cases hahead : s.ahead with
    | nil => exact hne hahead
    | cons c text =>
      rw [hahead] at hvalue
      change ((c :: text).length : Int) + 1 = (c :: text).length at hvalue
      omega
  · intro hno
    refine ⟨?_, ?_⟩
    · -- call by call, for each beginning of the calls
      suffices h : ∀ ms', ms' <+: ms → (calls readline_r ms' (start results)).1.map stored =
          (calls readline3 ms' (start results)).1.map stored from h ms (List.prefix_refl ms)
      intro ms'
      induction ms' using List.reverseRecOn with
      | nil =>
        intro _
        rfl
      | append_singleton ms' m ih =>
        intro hpre
        have hpre' := ih ((List.prefix_append ms' [m]).trans hpre)
        cases h : (calls readline3 ms' (start results)).2 with
        | none => rw [calls_wait h, calls_wait ((calls_state ms' _).trans h), hpre']
        | some t =>
          have hlast := readline_r_stored (hno ms' m t hpre h)
          rw [calls_concat h, calls_concat ((calls_state ms' _).trans h), List.map_append, List.map_append,
            hpre']
          congr 1
          rw [← Option.toList_map, ← Option.toList_map, Option.map_map, Option.map_map, hlast]
    · intro ms' m s r t hpre hs hmeets hr
      obtain ⟨u, hu, hu3⟩ := readline_eof hmeets
      have hnil : s.ahead = [] := by
        by_contra hne
        exact hno ms' m s hpre hs ⟨hmeets, hne⟩
      rw [hnil] at hu hu3
      rcases hr with hr | hr
      · cases hu.symm.trans hr
        rfl
      · cases hu3.symm.trans hr
        rfl

/-- The byte `a` and the end of the file: the one copy returns 2, the other 1, and both store one byte. -/
theorem copies_differ : (∃ s, calls readline_r [3] (start [.data 'a' [], .eof]) = ([⟨2, ['a'], true⟩], some s)) ∧
    (∃ s, calls readline3 [3] (start [.data 'a' [], .eof]) = ([⟨1, ['a'], true⟩], some s)) ∧
    ¬ CopiesAgree [.data 'a' [], .eof] [3] := by
  refine ⟨⟨_, rfl⟩, ⟨_, rfl⟩, fun h ↦ ?_⟩
  have hstored : ([((2 : Int), ['a'])] : List (Int × Text)) = [((1 : Int), ['a'])] := h.1
  exact absurd hstored (by decide)

end Unpv13e.Lib.LineBuf
