import Unpv13e.Base.Memory
import Unpv13e.Lib.Readline
import Unpv13e.Server.Rooms

/-!
# The field `name`

Library `Server`. `conns[]` byte by byte: 45 times an `int connfd`, an `int state` and 32 characters
`name` (`src/tcpcliserv/final_server.c:64–67`). The name is written by `sprintf` without a look at
its length (`:1329`, `:1358`).
-/

namespace Unpv13e.Server
open Unpv13e.Base Unpv13e.Lib Unpv13e.Uno

/-- The bytes of `conns[]` by their distance from `&conns[0]`. -/
abbrev Conns := Nat → Char

/-- `sizeof(conns)` -/
def connsSize : Nat := 1800

/-- `&conns[k]` -/
def connAt (k : ConnId) : Nat := 40 * k.val

/-- `conns[k].name` -/
def nameAt (k : ConnId) : Nat := connAt k + 8

/-- The four bytes of an `int`. -/
def intAt (m : Conns) (a : Nat) : Nat :=
  (m a).toNat + 256 * (m (a + 1)).toNat + 65536 * (m (a + 2)).toNat + 16777216 * (m (a + 3)).toNat

namespace Conns

/-- `conns[k].connfd` -/
def connfd (m : Conns) (k : ConnId) : Nat := intAt m (connAt k)

/-- `conns[k].state` -/
def state (m : Conns) (k : ConnId) : Nat := intAt m (connAt k + 4)

/-- `conns[k].name` as `strcmp` reads it. -/
def name (m : Conns) (k : ConnId) : Text :=
  stringAt (Char.ofNat 0) m (connsSize - nameAt k) (nameAt k)

/-- `sprintf(conns[k].name, "%s", w)`; `none` is a write past the end of `conns[]`. -/
def setName (k : ConnId) (w : Text) (m : Conns) : Option Conns :=
  if nameAt k + w.length < connsSize then some (overwrite m (nameAt k) (w ++ [Char.ofNat 0]))
  else none

/-- `HandleLogin`, `src/tcpcliserv/final_server.c:100–109`. -/
def handleLogin (m : Conns) (id : Text) (thisId : ConnId) : Prop :=
  ∀ i, m.state i ≠ 0 → i ≠ thisId → m.name i ≠ id

instance (m : Conns) (id : Text) (thisId : ConnId) : Decidable (m.handleLogin id thisId) :=
  inferInstanceAs (Decidable (∀ _, _))

/-- What `main` does to `conns[]` with a line from the lobby,
`src/tcpcliserv/final_server.c:1313–1367`. The requests `3`, `4` and `5` write no byte of it yet. -/
def request (m : Conns) (k : ConnId) (recvline : Nat → Char) : Option Conns :=
  match tokens (chop (cString recvline)) with
  | [] => none
  | op :: rest =>
    if op = ['1'] then some m
    else if charAt op 0 < '0' ∨ '9' < charAt op 0 then do
      let name ← sprintf op (some op.length)
      let m ← m.setName k name
      match rest with
      | [] => none
      | _ :: _ => some m
    else if op = ['2'] then
      match rest with
      | login :: id :: _ => if login = ['1'] ∧ m.handleLogin id k then m.setName k id else some m
      | [login] => if login = ['1'] then none else some m
      | [] => none
    else some m

/-- The line asks that connection `k` be called `w`, and `main` takes it: a login that is granted, or a
token with a `1` after it. -/
inductive Takes (m : Conns) (k : ConnId) (recvline : Nat → Char) : Text → Prop
  | login (id : Text) (rest : List Text)
      (ht : tokens (chop (cString recvline)) = ['2'] :: ['1'] :: id :: rest)
      (hfree : m.handleLogin id k) : Takes m k recvline id
  | token (op : Text) (rest : List Text)
      (ht : tokens (chop (cString recvline)) = op :: ['1'] :: rest)
      (hop : charAt op 0 < '0' ∨ '9' < charAt op 0) : Takes m k recvline op

/-- `conns[k].name` is `w`, and nothing but that field has changed. -/
structure OnlyName (k : ConnId) (w : Text) (m m' : Conns) : Prop where
  name : m'.name k = w
  rest : ∀ x < connsSize, x < nameAt k ∨ nameAt k + 32 ≤ x → m' x = m x

/-- The name fits, or what does not fit is there already. -/
def Fits (m : Conns) (k : ConnId) (w : Text) : Prop :=
  w.length < 32 ∨ nameAt k + w.length < connsSize ∧
    ∀ (i : Nat) (hi : i < (w ++ [Char.ofNat 0]).length), 32 ≤ i →
      m (nameAt k + i) = (w ++ [Char.ofNat 0])[i]

variable {m m' : Conns} {k i : ConnId} {w : Text}

/-- The field is inside the array. -/
theorem nameAt_bounds (k : ConnId) : nameAt k + 32 ≤ connsSize := by
  have := k.isLt
  unfold nameAt connAt connsSize
  omega

/-! ### The other fields -/

theorem intAt_congr {a : Nat} (h : ∀ i < 4, m' (a + i) = m (a + i)) : intAt m' a = intAt m a := by
  have h0 : m' a = m a := h 0 (by omega)
  unfold intAt
  rw [h0, h 1 (by omega), h 2 (by omega), h 3 (by omega)]

/-- The other fields lie outside the name. -/
private theorem outside {a : Nat} (k i : ConnId) (ha : a < 40) (hout : i ≠ k ∨ a < 8) :
    connAt i + a < nameAt k ∨ nameAt k + 32 ≤ connAt i + a := by
  have hne : i ≠ k → i.val ≠ k.val := fun h he ↦ h (Fin.ext he)
  unfold nameAt connAt
  rcases hout with h | h
  · have := hne h
    omega
  · omega

private theorem inside {a : Nat} (i : ConnId) (ha : a < 40) : connAt i + a < connsSize := by
  have := i.isLt
  unfold connAt connsSize
  omega

/-- A login leaves every descriptor as it is. -/
theorem OnlyName.connfd (h : OnlyName k w m m') (i : ConnId) : m'.connfd i = m.connfd i :=
  intAt_congr fun a ha ↦ h.rest _ (inside i (by omega)) (outside k i (by omega) (.inr (by omega)))

/-- A login leaves every state as it is. -/
theorem OnlyName.state (h : OnlyName k w m m') (i : ConnId) : m'.state i = m.state i := by
  refine intAt_congr fun a ha ↦ ?_
  rw [Nat.add_assoc]
  exact h.rest _ (inside i (by omega)) (outside k i (by omega) (.inr (by omega)))

/-- A login leaves the other names as they are. -/
theorem OnlyName.name_of_ne (h : OnlyName k w m m') (hi : i ≠ k) (hlen : (m.name i).length < 32) :
    m'.name i = m.name i := by
  refine stringAt_congr _ fun a ha ↦ ?_
  have ha' : a < 32 := Nat.lt_of_le_of_lt ha hlen
  unfold nameAt
  rw [Nat.add_assoc]
  exact h.rest _ (inside i (by omega)) (outside k i (by omega) (.inl hi))

/-! ### Writing the name -/

/-- A name that is written inside the array is the name. -/
theorem name_setName (hnul : Char.ofNat 0 ∉ w) (h : m.setName k w = some m') : m'.name k = w := by
  unfold setName at h
  split at h
  · cases h
    exact stringAt_overwrite _ hnul (by omega)
  · cases h

/-- A name that is written is the name, and nothing else changes, exactly when it fits. -/
theorem setName_onlyName (hnul : Char.ofNat 0 ∉ w) :
    (∃ m', m.setName k w = some m' ∧ OnlyName k w m m') ↔ Fits m k w := by
  have hbound := nameAt_bounds k
  have hlen : (w ++ [Char.ofNat 0]).length = w.length + 1 := List.length_append
  constructor
  · rintro ⟨m', hm, h⟩
    unfold setName at hm
    split at hm
    · next hin =>
      cases hm
      rcases Nat.lt_or_ge w.length 32 with hlt | hge
      · exact .inl hlt
      · refine .inr ⟨hin, fun i hi h32 ↦ ?_⟩
        rw [← h.rest (nameAt k + i) (by omega) (.inr (by omega)), overwrite_add hi]
    · cases hm
  · intro hfits
    have hin : nameAt k + w.length < connsSize := by
      rcases hfits with hlt | ⟨hin, -⟩
      · omega
      · exact hin
    refine ⟨_, if_pos hin, name_setName hnul (if_pos hin), fun x hx hout ↦ ?_⟩
    · rcases hout with hbefore | hafter
      · exact overwrite_before hbefore
      rcases Nat.lt_or_ge x (nameAt k + (w ++ [Char.ofNat 0]).length) with hlt | hge
      · obtain ⟨i, rfl⟩ := Nat.exists_eq_add_of_le (show nameAt k ≤ x by omega)
        have hi : i < (w ++ [Char.ofNat 0]).length := by omega
        rw [overwrite_add hi]
        rcases hfits with hshort | ⟨-, hsame⟩
        · omega
        · exact (hsame i hi (by omega)).symm
      · exact overwrite_after hge

/-- The words of a line are C strings. -/
theorem nul_token {recvline : Nat → Char} {v : Text} (hv : v ∈ tokens (chop (cString recvline))) :
    Char.ofNat 0 ∉ v := by
  intro hmem
  have hin : Char.ofNat 0 ∈ chop (cString recvline) := (mem_tokens hv).2 _ hmem
  have hstring := (List.takeWhile_prefix _).subset hin
  exact absurd (List.mem_takeWhile_imp hstring) (by decide)

/-- A login that is granted writes the name. -/
private theorem request_login {recvline : Nat → Char} {rest : List Text}
    (ht : tokens (chop (cString recvline)) = ['2'] :: ['1'] :: w :: rest)
    (hfree : m.handleLogin w k) : m.request k recvline = m.setName k w := by
  have hlogin : ['1'] = ['1'] ∧ m.handleLogin w k := ⟨rfl, hfree⟩
  unfold request
  rw [ht]
  exact if_pos hlogin

/-- A line by which `main` takes a name writes it, and only it, exactly when a token has no conversion
and the name fits. -/
theorem login_only_name {recvline : Nat → Char} (htakes : m.Takes k recvline w) :
    (∃ m', m.request k recvline = some m' ∧ OnlyName k w m m') ↔
      ((tokens (chop (cString recvline))).head? = some w → '%' ∉ w) ∧ Fits m k w := by
  cases htakes with
  | login rest ht hfree =>
    have hhead : (tokens (chop (cString recvline))).head? = some w → '%' ∉ w := by
      rw [ht]
      intro he
      cases he
      decide
    have hw : w ∈ tokens (chop (cString recvline)) := by
      rw [ht]
      simp
    rw [request_login ht hfree, setName_onlyName (nul_token hw), and_iff_right hhead]
  | token rest ht hop =>
    have hw : w ∈ tokens (chop (cString recvline)) := by
      rw [ht]
      exact List.mem_cons_self
    have hone : w ≠ ['1'] := by
      rintro rfl
      exact absurd hop (by decide)
    have hreq : m.request k recvline = (sprintf w (some w.length)).bind fun v ↦ m.setName k v := by
      unfold request
      rw [ht]
      dsimp only
      rw [if_neg hone, if_pos hop]
      cases sprintf w (some w.length) with
      | none => rfl
      | some v => cases hv : m.setName k v <;> simp [hv]
    rw [hreq, ht, List.head?_cons, forall_prop_of_true rfl]
    constructor
    · rintro ⟨m', hm, hname⟩
      obtain ⟨v, hv, hm⟩ := Option.bind_eq_some_iff.mp hm
      have hsame : v = w := (name_setName (nul_sprintf (nul_token hw) hv) hm).symm.trans hname.name
      rw [hsame] at hv hm
      exact ⟨(sprintf_eq_self w _).mp hv, (setName_onlyName (nul_token hw)).mp ⟨m', hm, hname⟩⟩
    · rintro ⟨hplain, hfits⟩
      rw [sprintf_plain hplain]
      exact (setName_onlyName (nul_token hw)).mpr hfits

/-! ### The names of the lobby -/

/-- The bytes stand for the states and names of the parties. -/
structure Represents (m : Conns) (s : Parties) : Prop where
  state : ∀ i, m.state i = 0 ↔ s.state i = .empty
  name : ∀ i, m.name i = s.name i
  short : ∀ i, (s.name i).length < 32

variable {s t : Parties}

private theorem Represents.setName (h : Represents m s) (hnul : Char.ofNat 0 ∉ w) {s' : Parties}
    (hs : s.setName k w = some s') : ∃ m', m.setName k w = some m' ∧ Represents m' s' := by
  unfold Parties.setName at hs
  split at hs
  · next hlen =>
    cases hs
    obtain ⟨m', hm, honly⟩ := (setName_onlyName hnul).mpr (.inl hlen)
    refine ⟨m', hm, fun i ↦ ?_, fun i ↦ ?_, fun i ↦ ?_⟩
    · rw [honly.state]
      exact h.state i
    · dsimp only
      by_cases hi : i = k
      · subst hi
        rw [honly.name, Function.update_self]
      · rw [honly.name_of_ne hi (by rw [h.name]; exact h.short i), h.name,
          Function.update_of_ne hi]
    · dsimp only
      by_cases hi : i = k
      · subst hi
        rw [Function.update_self]
        exact hlen
      · rw [Function.update_of_ne hi]
        exact h.short i
  · cases hs

private theorem Represents.handleLogin (h : Represents m s) (id : Text) :
    m.handleLogin id k ↔ s.handleLogin id k := by
  unfold Conns.handleLogin Parties.handleLogin
  refine forall_congr' fun i ↦ ?_
  rw [Ne, h.state, h.name]

/-- What `main` does with a line in the model of the parties is done to the bytes. -/
theorem request_represents {recvline : Nat → Char} {out : List Sent} (h : Represents m s)
    (hr : s.request k (cString recvline) = some (t, out)) :
    ∃ m', m.request k recvline = some m' ∧ Represents m' t := by
  unfold Parties.request at hr
  unfold Conns.request
  cases ht : tokens (chop (cString recvline)) with
  | nil => rw [ht] at hr; cases hr
  | cons op rest =>
    have hnul {v : Text} (hv : v ∈ op :: rest) : Char.ofNat 0 ∉ v := nul_token (ht ▸ hv)
    rw [ht] at hr
    dsimp only at hr ⊢
    split at hr
    · next hone =>
      cases hr
      exact ⟨m, if_pos hone, h⟩
    next hone =>
    rw [if_neg hone]
    split at hr
    · next hop =>
      obtain ⟨name, hname, hr⟩ := Option.bind_eq_some_iff.mp hr
      obtain ⟨s', hs', hr⟩ := Option.bind_eq_some_iff.mp hr
      obtain ⟨m', hm, hrep⟩ := h.setName (nul_sprintf (hnul List.mem_cons_self) hname) hs'
      rw [if_pos hop, hname]
      cases rest with
      | nil => cases hr
      | cons opop more =>
        have ht' : t = s' := by
          dsimp only at hr
          split at hr
          · cases hr; rfl
          · cases hr; rfl
        rw [ht']
        exact ⟨m', Option.bind_eq_some_iff.mpr ⟨name, rfl, Option.bind_eq_some_iff.mpr
          ⟨m', hm, rfl⟩⟩, hrep⟩
    next hop =>
    rw [if_neg hop]
    split at hr
    · next htwo =>
      rw [if_pos htwo]
      cases rest with
      | nil => cases hr
      | cons login more =>
        cases more with
        | nil =>
          dsimp only at hr ⊢
          split at hr
          · cases hr
          · next hlogin =>
            cases hr
            exact ⟨m, if_neg hlogin, h⟩
        | cons id more =>
          dsimp only at hr ⊢
          have hsame : login = ['1'] ∧ m.handleLogin id k ↔ login = ['1'] ∧ s.handleLogin id k :=
            and_congr_right fun _ ↦ h.handleLogin id
          split at hr
          · next hlogin =>
            obtain ⟨s', hs', hr⟩ := Option.bind_eq_some_iff.mp hr
            cases hr
            rw [if_pos (hsame.mpr hlogin)]
            exact h.setName (hnul (by simp)) hs'
          · next hlogin =>
            cases hr
            exact ⟨m, if_neg fun hl ↦ hlogin (hsame.mp hl), h⟩
    next htwo =>
    refine ⟨m, if_neg htwo, ?_⟩
    split at hr
    · cases hr; exact ⟨h.state, h.name, h.short⟩
    split at hr
    · split at hr
      · cases hr; exact ⟨h.state, h.name, h.short⟩
      · cases hr
    split at hr
    · cases hr; exact ⟨h.state, h.name, h.short⟩
    · cases hr; exact h

/-! ### A name of 32 letters -/

/-- Two connections in the lobby; the second has descriptor 5. -/
def twoConns : Conns := fun x ↦
  if x = 4 ∨ x = 44 then Char.ofNat 1 else if x = 40 then Char.ofNat 5 else Char.ofNat 0

/-- A received line, with zeros after it. -/
def received (line : Text) : Nat → Char := charAt line

/-- The line by which the name `ab` is asked for. -/
def shortLogin : Text := ['2', ' ', '1', ' ', 'a', 'b', '\n']

/-- The line by which a name of 32 letters is asked for. -/
def longLogin : Text := ['2', ' ', '1', ' '] ++ List.replicate 32 'a' ++ ['\n']

/-- A name of two letters is written, and nothing else changes. -/
theorem login_only_name_short :
    ∃ m', twoConns.request 0 (received shortLogin) = some m' ∧ OnlyName 0 ['a', 'b'] twoConns m' := by
  have ht : tokens (chop (cString (received shortLogin))) = [['2'], ['1'], ['a', 'b']] := by
    decide +kernel
  refine (login_only_name (.login ['a', 'b'] [] ht (by decide +kernel))).mpr ⟨?_, .inl (by decide)⟩
  intro _
  decide

/-- A name of 32 letters is written with its terminator in the descriptor of the next connection. -/
theorem login_changes_descriptor :
    ∃ m', twoConns.request 0 (received longLogin) = some m' ∧
      m'.name 0 = List.replicate 32 'a' ∧ twoConns.connfd 1 = 5 ∧ m'.connfd 1 = 0 := by
  have ht : tokens (chop (cString (received longLogin))) =
      [['2'], ['1'], List.replicate 32 'a'] := by
    decide +kernel
  have hset : twoConns.setName 0 (List.replicate 32 'a') =
      some (overwrite twoConns 8 (List.replicate 32 'a' ++ [Char.ofNat 0])) := if_pos (by decide)
  exact ⟨_, (request_login ht (by decide +kernel)).trans hset, by decide +kernel, by decide,
    by decide +kernel⟩

end Conns
end Unpv13e.Server
