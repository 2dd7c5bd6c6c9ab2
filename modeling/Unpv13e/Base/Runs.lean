import Mathlib

/-!
# Runs of a guarded transition relation

Library `Base`. A transition relation labelled by actions, a condition that a step
must meet in the state before it, and the finite runs all of whose steps meet it.
`RunWith.preserves` is the induction every invariant of the development goes through.
-/

namespace Unpv13e.Base

universe u v
variable {σ : Type u} {α : Type v}

/-- One step whose action meets `ok` in the state it starts from. -/
def StepWith (step : σ → α → σ → Prop) (ok : σ → α → Prop) (s t : σ) : Prop :=
  ∃ a, ok s a ∧ step s a t

/-- Finite runs all of whose steps meet `ok`. -/
def RunWith (step : σ → α → σ → Prop) (ok : σ → α → Prop) : σ → σ → Prop :=
  Relation.ReflTransGen (StepWith step ok)

/-- Finite runs with no condition on the steps. -/
def Run (step : σ → α → σ → Prop) : σ → σ → Prop := RunWith step fun _ _ ↦ True

namespace RunWith

variable {step : σ → α → σ → Prop} {ok ok' : σ → α → Prop} {s t u : σ}

/-- The run without steps. -/
theorem refl : RunWith step ok s s := Relation.ReflTransGen.refl

/-- A run extended by one more step. -/
theorem snoc {a : α} (h : RunWith step ok s t) (ha : ok t a) (hs : step t a u) :
    RunWith step ok s u := Relation.ReflTransGen.tail h ⟨a, ha, hs⟩

/-- A run that begins with one step. -/
theorem cons {a : α} (ha : ok s a) (hs : step s a t) (h : RunWith step ok t u) :
    RunWith step ok s u := Relation.ReflTransGen.head ⟨a, ha, hs⟩ h

/-- Runs compose. -/
theorem trans (h : RunWith step ok s t) (h' : RunWith step ok t u) : RunWith step ok s u :=
  Relation.ReflTransGen.trans h h'

/-- The invariant rule: what one step meeting `ok` preserves, a whole run preserves. -/
theorem preserves {I : σ → Prop} (hstep : ∀ s a t, I s → ok s a → step s a t → I t)
    (h : RunWith step ok s t) (hs : I s) : I t := by
  induction h with
  | refl => exact hs
  | tail _ hab ih =>
    obtain ⟨a, ha, hs'⟩ := hab
    exact hstep _ a _ ih ha hs'

/-- A run under a condition is a run under every weaker condition. -/
theorem mono (hok : ∀ s a, ok s a → ok' s a) (h : RunWith step ok s t) :
    RunWith step ok' s t := by
  refine Relation.ReflTransGen.mono ?_ _ _ h
  rintro a b ⟨act, ha, hs⟩
  exact ⟨act, hok _ _ ha, hs⟩

end RunWith

/-- The second part of a computation is run on the result of the first. -/
theorem ok_bind {ε β γ : Type v} (b : β) (f : β → Except ε γ) :
    ((Except.ok b : Except ε β) >>= f) = f b := rfl

/-- A fallible computation in two parts succeeds when both parts do. -/
theorem exists_of_bind_ok {ε β γ : Type v} {x : Except ε β} {f : β → Except ε γ} {c : γ}
    (h : (x >>= f) = .ok c) : ∃ b, x = .ok b ∧ f b = .ok c := by
  cases x with
  | error e => cases h
  | ok b => exact ⟨b, rfl, h⟩

/-- A fallible computation whose result is there has succeeded. -/
theorem ok_of_toOption {ε β : Type v} {x : Except ε β} {b : β} (h : x.toOption = some b) : x = .ok b := by
  cases x with
  | error e => cases h
  | ok c =>
    cases h
    rfl

/-- The state a list of actions of a fallible step function leads to. -/
def runActs {ε σ : Type v} (step : σ → α → Except ε σ) : σ → List α → Except ε σ
  | s, [] => .ok s
  | s, a :: as => step s a >>= fun t ↦ runActs step t as

/-- A list of actions is executed in two parts. -/
theorem runActs_append {ε σ : Type v} (step : σ → α → Except ε σ) (as bs : List α)
    (s : σ) : runActs step s (as ++ bs) = (runActs step s as >>= fun t ↦ runActs step t bs) := by
  induction as generalizing s with
  | nil => rfl
  | cons a as ih =>
    change (step s a >>= fun t ↦ runActs step t (as ++ bs)) =
      ((step s a >>= fun t ↦ runActs step t as) >>= fun t ↦ runActs step t bs)
    generalize step s a = x
    cases x with
    | error e => rfl
    | ok t => exact ih t

/-- One action more. -/
theorem runActs_concat {ε σ : Type v} {step : σ → α → Except ε σ} {as : List α} {a : α} {s t u : σ}
    (h : runActs step s as = .ok t) (ha : step t a = .ok u) : runActs step s (as ++ [a]) = .ok u := by
  rw [runActs_append, h, ok_bind, runActs, ha, ok_bind]
  rfl

/-- The last of a list of actions. -/
theorem exists_of_runActs_concat {ε σ : Type v} {step : σ → α → Except ε σ} {as : List α} {a : α} {s u : σ}
    (h : runActs step s (as ++ [a]) = .ok u) : ∃ t, runActs step s as = .ok t ∧ step t a = .ok u := by
  rw [runActs_append] at h
  obtain ⟨t, ht, hlast⟩ := exists_of_bind_ok h
  obtain ⟨r, hr, hru⟩ := exists_of_bind_ok hlast
  cases hru
  exact ⟨t, ht, hr⟩

/-- Executing a list of actions that all meet a condition is a run that meets it. -/
theorem runWith_of_runActs {ε σ : Type v} {step : σ → α → Except ε σ} {ok : σ → α → Prop}
    {acts : List α} {s t : σ} (hok : ∀ a ∈ acts, ∀ s, ok s a) (h : runActs step s acts = .ok t) :
    RunWith (fun s a t ↦ step s a = .ok t) ok s t := by
  induction acts generalizing s with
  | nil =>
    cases h
    exact RunWith.refl
  | cons a as ih =>
    obtain ⟨m, hs, hm⟩ := exists_of_bind_ok h
    have hrest := ih (fun b hb ↦ hok b (List.mem_cons_of_mem a hb)) hm
    exact RunWith.cons (hok a List.mem_cons_self s) hs hrest

/-- Executing a list of actions is a run. -/
theorem run_of_runActs {ε σ : Type v} (step : σ → α → Except ε σ) (acts : List α) (s t : σ)
    (h : runActs step s acts = .ok t) : Run (fun s a t ↦ step s a = .ok t) s t :=
  runWith_of_runActs (fun _ _ _ ↦ True.intro) h

/-- A test evaluated at the end of a list of actions has been met there. -/
theorem exists_of_runActs {ε σ : Type v} {start : Except ε σ} {step : σ → α → Except ε σ}
    {acts : List α} {p : σ → Bool}
    (h : (start >>= fun s ↦ runActs step s acts).toOption.map p = some true) :
    ∃ s₀ s, start = .ok s₀ ∧ runActs step s₀ acts = .ok s ∧ p s = true := by
  cases start with
  | error e => cases h
  | ok s₀ =>
    rw [ok_bind] at h
    cases hs : runActs step s₀ acts with
    | error e =>
      rw [hs] at h
      cases h
    | ok s =>
      rw [hs] at h
      exact ⟨s₀, s, rfl, hs, Option.some_inj.mp h⟩

/-- The state a list of actions of a partial step function leads to. -/
def playActs {σ : Type v} (step : σ → α → Option σ) : σ → List α → Option σ
  | s, [] => some s
  | s, a :: as => (step s a).bind fun t ↦ playActs step t as

/-- A partial step function held to a test. -/
def guarded {σ : Type v} (good : σ → α → Bool) (step : σ → α → Option σ) (s : σ) (a : α) :
    Option σ := if good s a then step s a else none

/-- Playing a list of actions held to a test is a run that meets what the test says. -/
theorem runWith_of_playActs {σ : Type v} {ok : σ → α → Prop} {good : σ → α → Bool}
    {step : σ → α → Option σ} (hgood : ∀ s a, good s a = true → ok s a) {acts : List α} {s t : σ}
    (h : playActs (guarded good step) s acts = some t) :
    RunWith (fun s a t ↦ step s a = some t) ok s t := by
  induction acts generalizing s with
  | nil => cases h; exact RunWith.refl
  | cons a as ih =>
    obtain ⟨m, hs, hm⟩ := Option.bind_eq_some_iff.mp h
    obtain ⟨hg, hs⟩ := Option.ite_none_right_eq_some.mp hs
    exact RunWith.cons (hgood s a hg) hs (ih hm)

/-- Playing a list of actions is a run. -/
theorem run_of_playActs {σ : Type v} {step : σ → α → Option σ} {acts : List α} {s t : σ}
    (h : playActs step s acts = some t) : Run (fun s a t ↦ step s a = some t) s t := by
  induction acts generalizing s with
  | nil => cases h; exact RunWith.refl
  | cons a as ih =>
    obtain ⟨m, hs, hm⟩ := Option.bind_eq_some_iff.mp h
    exact RunWith.cons True.intro hs (ih hm)

end Unpv13e.Base
