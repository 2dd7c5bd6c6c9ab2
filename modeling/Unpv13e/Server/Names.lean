import Unpv13e.Server.Steps

/-!
# Player names

Library `Server`. `main` grants a login when no other live connection has the name
(`src/tcpcliserv/final_server.c:100–109`, `:1339–1367`), and writes the token that a client
returns to the lobby with as its name (`:1327–1337`). A slot that is taken over keeps the name of
its last occupant until a name is written. Beside the parties stands the token each connection was
given last since it became live.
-/

namespace Unpv13e.Server
open Unpv13e.Base Unpv13e.Uno

/-- The parties, and the token of every connection that has been granted a login. -/
structure Sessions where
  parties : Parties
  token : ConnId → Option Text

/-- The token in a line `4`. -/
def tokenOf : Sent → Option Text
  | (_, '4' :: ' ' :: w) => some w.dropLast
  | _ => none

/-- The token that connection `k` is given in a step with output `out`. -/
def given (a : ServerAct) (out : List Sent) (k : ConnId) : Option Text :=
  match a with
  | .read c _ => if c = k then out.findSome? tokenOf else none
  | _ => none

/-- The token of a line `4` is what was put into it. -/
theorem tokenOf_line1 (k : ConnId) (w : Text) : tokenOf (k, line1 ['4'] w) = some w := by
  change some (w ++ ['\n']).dropLast = some w
  rw [List.dropLast_concat]

namespace Sessions

/-- Before the first connection. -/
def start : Sessions := ⟨.start, fun _ ↦ none⟩

/-- One step. A connection that is no longer live has no token. -/
def next (u : Sessions) (a : ServerAct) : Option Sessions :=
  (u.parties.step a).map fun p ↦
    ⟨p.1, fun k ↦ if p.1.state k = .empty then none else (given a p.2 k).or (u.token k)⟩

/-- The step as a relation. -/
def Step (u : Sessions) (a : ServerAct) (v : Sessions) : Prop := u.next a = some v

/-- A client that sends a token sends the one it was given. -/
def SendsOwnToken (u : Sessions) : ServerAct → Prop
  | .read k (.line l) => ∀ op, (tokens (chop l)).head? = some op →
      charAt op 0 < '0' ∨ '9' < charAt op 0 → u.token k = some op
  | _ => True

/-- A token that is sent has no conversion in it. -/
def SendsPlain (_ : Sessions) : ServerAct → Prop
  | .read _ (.line l) => ∀ op, (tokens (chop l)).head? = some op →
      charAt op 0 < '0' ∨ '9' < charAt op 0 → '%' ∉ op
  | _ => True

/-- A login does not ask for the name that was left over in a live slot on which nobody has been
granted a login. -/
def AsksNoLeftOver (u : Sessions) : ServerAct → Prop
  | .read k (.line l) => ∀ id rest, tokens (chop l) = ['2'] :: ['1'] :: id :: rest →
      ∀ i, i ≠ k → u.parties.state i ≠ .empty → u.parties.name i = id → (u.token i).isSome
  | _ => True

/-- Every token is the name of its connection, which is live, and no two are the same. -/
structure Named (u : Sessions) : Prop where
  live : ∀ k w, u.token k = some w → u.parties.state k ≠ .empty
  written : ∀ k w, u.token k = some w → u.parties.name k = w
  distinct : ∀ i j v w, i ≠ j → u.token i = some v → u.token j = some w → v ≠ w

variable {u v : Sessions} {t : Parties} {a : ServerAct} {out : List Sent}

/-- A step in which no other token is given than the one the connection has. -/
private theorem Named.keep (hu : u.Named) (hname : ∀ k w, u.token k = some w → t.name k = w)
    (hgiven : ∀ k w, given a out k = some w → u.token k = some w) :
    Named ⟨t, fun k ↦ if t.state k = .empty then none else (given a out k).or (u.token k)⟩ := by
  have hold (k : ConnId) (w : Text) (h : (if t.state k = .empty then none
      else (given a out k).or (u.token k)) = some w) :
      t.state k ≠ .empty ∧ u.token k = some w := by
    split at h
    · cases h
    · next hlive =>
      refine ⟨hlive, ?_⟩
      cases hg : given a out k with
      | none => rwa [hg] at h
      | some w' =>
        rw [hg] at h
        cases h
        exact hgiven k w hg
  refine ⟨?_, ?_, ?_⟩
  · intro k w hk
    exact (hold k w hk).1
  · intro k w hk
    exact hname k w (hold k w hk).2
  · intro i j v w hij hi hj
    exact hu.distinct i j v w hij (hold i v hi).2 (hold j w hj).2

/-- A granted login adds a name that no live connection has. -/
private theorem Named.grant (hu : u.Named) {k : ConnId} {id l : Text}
    (hid : u.parties.handleLogin id k) :
    Named ⟨{ u.parties with name := Function.update u.parties.name k id }, fun c ↦
      if u.parties.state c = .empty then none
      else (given (.read k (.line l)) [(k, ['2', '\n']), (k, line1 ['4'] id)] c).or (u.token c)⟩ := by
  have hself : given (.read k (.line l)) [(k, ['2', '\n']), (k, line1 ['4'] id)] k = some id := by
    unfold given
    dsimp only
    rw [if_pos rfl, List.findSome?_cons_of_isNone rfl, List.findSome?_cons, tokenOf_line1]
  have hother (c : ConnId) (hc : c ≠ k) :
      given (.read k (.line l)) [(k, ['2', '\n']), (k, line1 ['4'] id)] c = none :=
    if_neg (Ne.symm hc)
  have hnew (c : ConnId) (w : Text) (h : (if u.parties.state c = .empty then none
      else (given (.read k (.line l)) [(k, ['2', '\n']), (k, line1 ['4'] id)] c).or (u.token c)) =
        some w) : u.parties.state c ≠ .empty ∧ (c = k ∧ w = id ∨ c ≠ k ∧ u.token c = some w) := by
    split at h
    · cases h
    · next hlive =>
      refine ⟨hlive, ?_⟩
      by_cases hc : c = k
      · subst hc
        rw [hself] at h
        cases h
        exact .inl ⟨rfl, rfl⟩
      · rw [hother c hc] at h
        exact .inr ⟨hc, h⟩
  -- whoever has a name already has another
  have hfresh (c : ConnId) (w : Text) (hc : c ≠ k) (hw : u.token c = some w) : w ≠ id := by
    rw [← hu.written c w hw]
    exact hid c (hu.live c w hw) hc
  refine ⟨?_, ?_, ?_⟩
  · intro c w hc
    exact (hnew c w hc).1
  · intro c w hc
    dsimp only
    rcases (hnew c w hc).2 with ⟨rfl, rfl⟩ | ⟨hne, hw⟩
    · rw [Function.update_self]
    · rw [Function.update_of_ne hne]
      exact hu.written c w hw
  · intro i j v w hij hi hj
    rcases (hnew i v hi).2 with ⟨rfl, rfl⟩ | ⟨hik, hv⟩
    · rcases (hnew j w hj).2 with ⟨rfl, rfl⟩ | ⟨hjk, hw⟩
      · exact absurd rfl hij
      · exact (hfresh j w hjk hw).symm
    · rcases (hnew j w hj).2 with ⟨rfl, rfl⟩ | ⟨hjk, hw⟩
      · exact hfresh i v hik hv
      · exact hu.distinct i j v w hij hv hw

private theorem request_named {k : ConnId} {l : Text} (hown : u.SendsOwnToken (.read k (.line l)))
    (hplain : u.SendsPlain (.read k (.line l))) (h : u.parties.request k l = some (t, out))
    (hu : u.Named) : Named ⟨t, fun c ↦ if t.state c = .empty then none
      else (given (.read k (.line l)) out c).or (u.token c)⟩ := by
  cases Parties.request_cases h with
  | token op opop name rest out hl hop hname hlen hout =>
    have hhead : (tokens (chop l)).head? = some op := by rw [hl]; rfl
    have htoken := hown op hhead hop
    rw [sprintf_plain (hplain op hhead hop)] at hname
    cases hname
    refine hu.keep ?_ ?_
    · intro c w hc
      dsimp only
      by_cases hck : c = k
      · subst hck
        rw [Function.update_self]
        exact Option.some.inj (htoken.symm.trans hc)
      · rw [Function.update_of_ne hck]
        exact hu.written c w hc
    · intro c w hc
      unfold given at hc
      dsimp only at hc
      split at hc
      · next hck =>
        subst hck
        rw [hout] at hc
        split at hc
        · rw [List.findSome?_cons, tokenOf_line1] at hc
          cases hc
          exact htoken
        · cases hc
      · cases hc
  | login id rest hl hid hlen => exact hu.grant hid
  | refuse login rest hl hno =>
    refine hu.keep hu.written fun c w hc ↦ ?_
    unfold given at hc
    dsimp only at hc
    split at hc
    · cases hc
    · cases hc
  | request a ha =>
    refine hu.keep hu.written fun c w hc ↦ ?_
    unfold given at hc
    dsimp only at hc
    split at hc
    · cases hc
    · cases hc
  | nothing out hout =>
    refine hu.keep hu.written fun c w hc ↦ ?_
    unfold given at hc
    dsimp only at hc
    split at hc
    · rcases hout with rfl | rfl
      · cases hc
      · cases hc
    · cases hc

theorem step_named (hown : u.SendsOwnToken a) (hplain : u.SendsPlain a) (hstep : u.Step a v)
    (hu : u.Named) : v.Named := by
  obtain ⟨⟨t, out⟩, h, rfl⟩ := Option.map_eq_some_iff.mp hstep
  dsimp only
  have other (hno : ∀ k l, a ≠ .read k (.line l)) (hgiven : ∀ k, given a out k = none) :
      Named ⟨t, fun k ↦ if t.state k = .empty then none else (given a out k).or (u.token k)⟩ := by
    refine hu.keep ?_ fun k w hk ↦ ?_
    · rw [Parties.name_of_step h hno]
      exact hu.written
    · rw [hgiven k] at hk
      cases hk
  cases a with
  | read k event =>
    cases event with
    | eof =>
      refine other (fun _ _ he ↦ by cases he) fun c ↦ ?_
      have hout : out = [] := by
        simp only [Parties.step] at h
        split at h
        · split at h
          · cases h; rfl
          · cases h
        · cases h
      subst hout
      unfold given
      dsimp only
      split
      · rfl
      · rfl
    | line l =>
      simp only [Parties.step] at h
      split at h
      · split at h
        · exact request_named hown hplain h hu
        · cases h
      · cases h
  | accept k => exact other (fun _ _ he ↦ by cases he) fun _ ↦ rfl
  | main => exact other (fun _ _ he ↦ by cases he) fun _ ↦ rfl
  | handler k => exact other (fun _ _ he ↦ by cases he) fun _ ↦ rfl
  | thread r input => exact other (fun _ _ he ↦ by cases he) fun _ ↦ rfl

theorem start_named : start.Named := by
  refine ⟨?_, ?_, ?_⟩
  · intro k w h
    cases h
  · intro k w h
    cases h
  · intro i j v w _ h
    cases h

/-- A step that is no line with a token. -/
private def sendsNoToken : Sessions → ServerAct → Bool
  | _, .read _ (.line l) =>
    match tokens (chop l) with
    | op :: _ => decide (¬ (charAt op 0 < '0' ∨ '9' < charAt op 0))
    | [] => true
  | _, _ => true

private theorem ok_of_sendsNoToken (u : Sessions) (a : ServerAct) (h : sendsNoToken u a = true) :
    u.SendsOwnToken a ∧ u.SendsPlain a := by
  cases a with
  | read k event =>
    cases event with
    | eof => exact ⟨trivial, trivial⟩
    | line l =>
      have hno (op : Text) (hop : (tokens (chop l)).head? = some op) :
          ¬ (charAt op 0 < '0' ∨ '9' < charAt op 0) := by
        cases ht : tokens (chop l) with
        | nil =>
          rw [ht] at hop
          cases hop
        | cons w ws =>
          rw [ht] at hop
          cases hop
          simp only [sendsNoToken, ht, decide_eq_true_eq] at h
          exact h
      exact ⟨fun op hop hnum ↦ absurd hnum (hno op hop), fun op hop hnum ↦ absurd hnum (hno op hop)⟩
  | _ => exact ⟨trivial, trivial⟩

/-- The line with which a client logs in. -/
def loginLine (id : Text) : Text := ['2', ' ', '1', ' '] ++ id ++ ['\n']

/-- A client named `a%%` returns with its token, which is printed as `a%`, the name of another
client. -/
theorem token_as_format :
    ∃ u, RunWith Step (fun u a ↦ u.SendsOwnToken a) start u ∧ u.token 0 = some ['a', '%', '%'] ∧
      u.token 1 = some ['a', '%'] ∧ u.parties.name 0 = u.parties.name 1 := by
  have h : (playActs (guarded sendsNoToken next) start [.accept 0,
      .read 0 (.line (loginLine ['a', '%', '%'])), .accept 1,
      .read 1 (.line (loginLine ['a', '%']))]).bind (fun u ↦
      (u.next (.read 0 (.line ['a', '%', '%', ' ', '1', '\n']))).map fun v ↦
        (u.token 0, v.token 0, v.token 1, v.parties.name 0, v.parties.name 1)) =
      some (some ['a', '%', '%'], some ['a', '%', '%'], some ['a', '%'], ['a', '%'],
        ['a', '%']) := by
    decide +kernel
  obtain ⟨u, hs, h⟩ := Option.bind_eq_some_iff.mp h
  obtain ⟨v, hstep, he⟩ := Option.map_eq_some_iff.mp h
  simp only [Prod.mk.injEq] at he
  obtain ⟨htoken, h0, h1, hn0, hn1⟩ := he
  have hrun : RunWith Step _ start u := runWith_of_playActs ok_of_sendsNoToken hs
  have hown : u.SendsOwnToken (.read 0 (.line ['a', '%', '%', ' ', '1', '\n'])) := by
    intro op hop _
    have hhead : (tokens (chop ['a', '%', '%', ' ', '1', '\n'])).head? = some ['a', '%', '%'] := by
      decide
    rw [hhead] at hop
    cases hop
    exact htoken
  exact ⟨v, RunWith.snoc (hrun.mono fun _ _ hok ↦ hok.1) hown hstep, h0, h1, by rw [hn0, hn1]⟩

end Sessions
end Unpv13e.Server
