import Unpv13e.Base.Lines

/-!
# Reading a line symbol by symbol

Library `Base`. A source hands out one symbol at a time, or says that there are no more for now, or
fails. A line is read from it up to a separator or to a bound. What a line read is, in terms of the
symbols the source has ahead; and that a view of a source is read like the source.
-/

namespace Unpv13e.Base

universe u v w
variable {α : Type u} {σ : Type v} {τ : Type w}

/-- What a source answers. -/
inductive Got (α : Type u)
  | symbol (a : α)
  | eof
  | error
  deriving DecidableEq, Repr

/-- How the reading of a line ends. -/
inductive LineEnd
  /-- with the separator -/
  | separator
  /-- with as many symbols as fit -/
  | full
  | eof
  | error
  deriving DecidableEq, Repr

/-- A source: what it answers in a state, and the state after. `none` when it waits. -/
abbrev Source (σ : Type v) (α : Type u) := σ → Option (Got α × σ)

variable [DecidableEq α]

/-- A line of at most `n` further symbols, `text` being read already. -/
def readLine (next : Source σ α) (sep : α) : Nat → List α → σ → Option (LineEnd × List α × σ)
  | 0, text, s => some (.full, text, s)
  | n + 1, text, s =>
    match next s with
    | none => none
    | some (.symbol a, s) =>
      if a = sep then some (.separator, text ++ [a], s) else readLine next sep n (text ++ [a]) s
    | some (.eof, s) => some (.eof, text, s)
    | some (.error, s) => some (.error, text, s)

/-! ### What is ahead -/

/-- The symbols a source has ahead in each state, up to where it ends, fails or waits, and which of these. -/
structure Ahead (next : Source σ α) (ahead : σ → List α) (stop : σ → Option LineEnd) : Prop where
  symbol : ∀ s a t, next s = some (.symbol a, t) → ahead s = a :: ahead t ∧ stop s = stop t
  eof : ∀ s t, next s = some (.eof, t) → ahead s = [] ∧ stop s = some .eof
  error : ∀ s t, next s = some (.error, t) → ahead s = [] ∧ stop s = some .error
  wait : ∀ s, next s = none → ahead s = [] ∧ stop s = none

/-- What the reading of a line has taken of the symbols ahead. -/
structure Taken (sep : α) (n : Nat) (ahead taken rest : List α) (stop : Option LineEnd) (e : LineEnd) :
    Prop where
  fits : taken.length ≤ n
  separator : e = .separator → IsRecord sep taken ∧ ahead = taken ++ rest
  full : e = .full → taken.length = n ∧ sep ∉ taken ∧ ahead = taken ++ rest
  stopped : e = .eof ∨ e = .error → taken.length < n ∧ sep ∉ taken ∧ ahead = taken ∧ stop = some e

variable {next : Source σ α} {ahead : σ → List α} {stop : σ → Option LineEnd} {sep : α}

/-- The line is taken from what is ahead. -/
theorem readLine_taken (ha : Ahead next ahead stop) {n : Nat} {text text' : List α} {s t : σ} {e : LineEnd}
    (h : readLine next sep n text s = some (e, text', t)) :
    ∃ taken, text' = text ++ taken ∧ Taken sep n (ahead s) taken (ahead t) (stop s) e := by
  induction n generalizing text s with
  | zero =>
    cases h
    refine ⟨[], (List.append_nil _).symm, Nat.le_refl _, nofun, fun _ ↦ ?_, ?_⟩
    · exact ⟨rfl, List.not_mem_nil, rfl⟩
    · rintro (he | he)
      · cases he
      · cases he
  | succ n ih =>
    rw [readLine] at h
    split at h
    · cases h
    · next a r hr =>
      obtain ⟨hs, hstop⟩ := ha.symbol s a r hr
      split at h
      · next hsep =>
        cases h
        refine ⟨[a], rfl, Nat.succ_le_succ (Nat.zero_le n), fun _ ↦ ⟨?_, hs⟩, nofun, ?_⟩
        · exact ⟨[], by rw [hsep]; rfl, List.not_mem_nil⟩
        · rintro (he | he)
          · cases he
          · cases he
      · next hsep =>
        obtain ⟨taken, rfl, ht⟩ := ih h
        have hnot (hno : sep ∉ taken) : sep ∉ a :: taken := by
          rw [List.mem_cons, not_or]
          exact ⟨fun he ↦ hsep he.symm, hno⟩
        refine ⟨a :: taken, List.append_assoc text [a] taken, ?_, fun he ↦ ?_, fun he ↦ ?_, fun he ↦ ?_⟩
        · exact Nat.succ_le_succ ht.fits
        · obtain ⟨⟨body, rfl, hbody⟩, hcat⟩ := ht.separator he
          refine ⟨⟨a :: body, rfl, ?_⟩, by rw [hs, hcat, List.cons_append]⟩
          rw [List.mem_cons, not_or]
          exact ⟨fun he ↦ hsep he.symm, hbody⟩
        · obtain ⟨hlen, hno, hcat⟩ := ht.full he
          exact ⟨by rw [List.length_cons, hlen], hnot hno, by rw [hs, hcat, List.cons_append]⟩
        · obtain ⟨hlen, hno, hcat, he'⟩ := ht.stopped he
          exact ⟨Nat.succ_lt_succ hlen, hnot hno, by rw [hs, hcat], by rw [hstop, he']⟩
    · next r hr =>
      cases h
      refine ⟨[], (List.append_nil _).symm, Nat.zero_le _, nofun, nofun, fun _ ↦ ?_⟩
      exact ⟨Nat.succ_pos n, List.not_mem_nil, ha.eof s _ hr⟩
    · next r hr =>
      cases h
      refine ⟨[], (List.append_nil _).symm, Nat.zero_le _, nofun, nofun, fun _ ↦ ?_⟩
      exact ⟨Nat.succ_pos n, List.not_mem_nil, ha.error s _ hr⟩

/-- When neither a separator nor an end comes among the next `n` symbols the line is full. -/
theorem readLine_full (ha : Ahead next ahead stop) {n : Nat} {text : List α} {s : σ}
    (hlen : n ≤ (ahead s).length) (hno : sep ∉ (ahead s).take n) :
    ∃ t, readLine next sep n text s = some (.full, text ++ (ahead s).take n, t) := by
  induction n generalizing text s with
  | zero =>
    refine ⟨s, ?_⟩
    rw [List.take_zero, List.append_nil]
    rfl
  | succ n ih =>
    cases hs : next s with
    | none =>
      rw [(ha.wait s hs).1] at hlen
      exact absurd hlen (Nat.not_succ_le_zero n)
    | some got =>
      obtain ⟨got, r⟩ := got
      cases got with
      | eof =>
        rw [(ha.eof s r hs).1] at hlen
        exact absurd hlen (Nat.not_succ_le_zero n)
      | error =>
        rw [(ha.error s r hs).1] at hlen
        exact absurd hlen (Nat.not_succ_le_zero n)
      | symbol a =>
        have hahead := (ha.symbol s a r hs).1
        rw [hahead, List.take_succ_cons, List.mem_cons, not_or] at hno
        rw [hahead, List.length_cons] at hlen
        obtain ⟨t, ht⟩ := @ih (text ++ [a]) _ (Nat.le_of_succ_le_succ hlen) hno.2
        refine ⟨t, ?_⟩
        rw [readLine, hs]
        dsimp only
        rw [if_neg (fun he ↦ hno.1 he.symm), ht, hahead, List.take_succ_cons, List.append_assoc]
        rfl

/-- When the source stops among the next `n` symbols, before a separator, the line ends so. -/
theorem readLine_stop (ha : Ahead next ahead stop) {n : Nat} {text : List α} {s : σ} {e : LineEnd}
    (hlen : (ahead s).length < n) (hno : sep ∉ ahead s) (he : stop s = some e) :
    ∃ t, readLine next sep n text s = some (e, text ++ ahead s, t) := by
  induction n generalizing text s with
  | zero => exact absurd hlen (Nat.not_lt_zero _)
  | succ n ih =>
    rw [readLine]
    cases hs : next s with
    | none =>
      rw [(ha.wait s hs).2] at he
      cases he
    | some p =>
      obtain ⟨got, r⟩ := p
      cases got with
      | eof =>
        obtain ⟨hnil, hstop⟩ := ha.eof s r hs
        rw [hstop] at he
        cases he
        exact ⟨r, by rw [hnil, List.append_nil]⟩
      | error =>
        obtain ⟨hnil, hstop⟩ := ha.error s r hs
        rw [hstop] at he
        cases he
        exact ⟨r, by rw [hnil, List.append_nil]⟩
      | symbol a =>
        obtain ⟨hahead, hstop⟩ := ha.symbol s a r hs
        rw [hahead, List.mem_cons, not_or] at hno
        rw [hahead, List.length_cons] at hlen
        obtain ⟨t, ht⟩ := @ih (text ++ [a]) r (Nat.lt_of_succ_lt_succ hlen) hno.2 (hstop ▸ he)
        refine ⟨t, ?_⟩
        dsimp only
        rw [if_neg (fun he ↦ hno.1 he.symm), ht, hahead, List.append_assoc]
        rfl

/-- A line read from a view of the source. -/
theorem readLine_map {next' : Source τ α} {f : σ → τ}
    (h : ∀ s, next' (f s) = (next s).map fun p ↦ (p.1, f p.2)) (n : Nat) (text : List α) (s : σ) :
    readLine next' sep n text (f s) = (readLine next sep n text s).map fun p ↦ (p.1, p.2.1, f p.2.2) := by
  induction n generalizing text s with
  | zero => rfl
  | succ n ih =>
    rw [readLine, readLine, h]
    cases next s with
    | none => rfl
    | some p =>
      obtain ⟨got, t⟩ := p
      cases got with
      | symbol a =>
        change (if a = sep then _ else _) = Option.map _ (if a = sep then _ else _)
        split
        · rfl
        · exact ih (text ++ [a]) t
      | eof => rfl
      | error => rfl

/-! ### Along a line -/

/-- What the answers other than an error keep, a line keeps, up to the error it ends with. -/
theorem readLine_keeps {I : σ → Prop}
    (hI : ∀ s got t, I s → got ≠ .error → next s = some (got, t) → I t) {n : Nat} {text text' : List α}
    {s t : σ} {e : LineEnd} (h : readLine next sep n text s = some (e, text', t)) (hs : I s) :
    (e ≠ .error ∧ I t) ∨ (e = .error ∧ ∃ r, I r ∧ next r = some (.error, t)) := by
  induction n generalizing text s with
  | zero =>
    cases h
    exact .inl ⟨nofun, hs⟩
  | succ n ih =>
    rw [readLine] at h
    split at h
    · cases h
    · next a r hr =>
      have hIr := hI s (.symbol a) r hs nofun hr
      split at h
      · cases h
        exact .inl ⟨nofun, hIr⟩
      · exact ih h hIr
    · next r hr =>
      cases h
      exact .inl ⟨nofun, hI s .eof _ hs nofun hr⟩
    · next r hr =>
      cases h
      exact .inr ⟨rfl, s, hs, hr⟩

/-- A stream that loses the symbols that are handed out loses the symbols of the line. -/
theorem readLine_stream {stream : σ → List α}
    (hsym : ∀ s a t, next s = some (.symbol a, t) → stream s = a :: stream t)
    (hend : ∀ s got t, (∀ a, got ≠ .symbol a) → next s = some (got, t) → stream s = stream t) {n : Nat}
    {text text' : List α} {s t : σ} {e : LineEnd}
    (h : readLine next sep n text s = some (e, text', t)) :
    text ++ stream s = text' ++ stream t := by
  induction n generalizing text s with
  | zero =>
    cases h
    rfl
  | succ n ih =>
    rw [readLine] at h
    split at h
    · cases h
    · next a r hr =>
      have hs := hsym s a r hr
      split at h
      · cases h
        rw [hs, List.append_assoc]
        rfl
      · rw [hs, ← ih h, List.append_assoc]
        rfl
    · next r hr =>
      cases h
      rw [hend s .eof _ (fun a ha ↦ nomatch ha) hr]
    · next r hr =>
      cases h
      rw [hend s .error _ (fun a ha ↦ nomatch ha) hr]

/-! ### Calls one after another -/

variable {μ ρ : Type*}

/-- Calls with the arguments `ms`: what they return, up to one that waits, and the state after them all. -/
def calls (read : μ → σ → Option (ρ × σ)) : List μ → σ → List ρ × Option σ
  | [], s => ([], some s)
  | m :: ms, s =>
    match read m s with
    | none => ([], none)
    | some (r, s) => (r :: (calls read ms s).1, (calls read ms s).2)

variable {read : μ → σ → Option (ρ × σ)}

/-- One call more. -/
theorem calls_concat {ms : List μ} {m : μ} {s t : σ} (h : (calls read ms s).2 = some t) :
    calls read (ms ++ [m]) s =
      ((calls read ms s).1 ++ ((read m t).map Prod.fst).toList, (read m t).map Prod.snd) := by
  induction ms generalizing s with
  | nil =>
    cases h
    cases hm : read m t with
    | none =>
      simp only [List.nil_append, calls, hm]
      rfl
    | some p =>
      simp only [List.nil_append, calls, hm]
      rfl
  | cons k ms ih =>
    rw [calls] at h
    rw [List.cons_append, calls, calls]
    cases hk : read k s with
    | none =>
      rw [hk] at h
      cases h
    | some p =>
      rw [hk] at h
      dsimp only
      rw [ih h]
      rfl

/-- No call is made after one that waits. -/
theorem calls_wait {ms : List μ} {m : μ} {s : σ} (h : (calls read ms s).2 = none) :
    calls read (ms ++ [m]) s = calls read ms s := by
  induction ms generalizing s with
  | nil => cases h
  | cons k ms ih =>
    rw [calls] at h
    rw [List.cons_append, calls, calls]
    cases hk : read k s with
    | none => rfl
    | some p =>
      rw [hk] at h
      dsimp only
      rw [ih h]

/-- The calls before one that is made return. -/
theorem calls_before {ms : List μ} {m : μ} {s u : σ} (h : (calls read (ms ++ [m]) s).2 = some u) :
    ∃ r t, (calls read ms s).2 = some t ∧ read m t = some (r, u) := by
  induction ms generalizing s with
  | nil =>
    rw [List.nil_append, calls] at h
    cases hm : read m s with
    | none =>
      rw [hm] at h
      cases h
    | some p =>
      rw [hm] at h
      cases h
      exact ⟨p.1, s, rfl, hm⟩
  | cons k ms ih =>
    rw [List.cons_append, calls] at h
    rw [calls]
    cases hk : read k s with
    | none =>
      rw [hk] at h
      cases h
    | some p =>
      rw [hk] at h
      exact ih h

/-- Calls on a view of the state. -/
theorem calls_map {read' : μ → τ → Option (ρ × τ)} {f : σ → τ}
    (h : ∀ m s, read' m (f s) = (read m s).map fun p ↦ (p.1, f p.2)) (ms : List μ) (s : σ) :
    calls read' ms (f s) = ((calls read ms s).1, (calls read ms s).2.map f) := by
  induction ms generalizing s with
  | nil => rfl
  | cons m ms ih =>
    rw [calls, calls, h]
    cases read m s with
    | none => rfl
    | some p =>
      change (p.1 :: (calls read' ms (f p.2)).1, (calls read' ms (f p.2)).2) = _
      rw [ih]

end Unpv13e.Base
