import Unpv13e.Libgai.Getaddrinfo

/-!
# How a look up ends

Library `Libgai`. A call of `getaddrinfo` returns a list or a code, unless the check of its arguments lets a family
pass that the search has no host for.
-/

namespace Unpv13e.Libgai
open Unpv13e.Base

variable {α β : Type} {P : α → Prop} {Q : β → Prop}

/-- A call returns a code, or what it is for; it does not end the program. -/
def Returns (P : α → Prop) : Except Failure α → Prop
  | .ok a => P a
  | .error (.eai _) => True
  | .error .quit => False

theorem Returns.imp {P' : α → Prop} {x : Except Failure α} (h : Returns P x) (himp : ∀ a, P a → P' a) :
    Returns P' x := by
  match x, h with
  | .ok a, h => exact himp a h
  | .error (.eai _), _ => trivial

theorem Returns.bind {x : Except Failure α} {f : α → Except Failure β} (h : Returns P x)
    (hf : ∀ a, P a → Returns Q (f a)) : Returns Q (x >>= f) := by
  match x, h with
  | .ok a, h => exact hf a h
  | .error (.eai _), _ => trivial

theorem Returns.foldlM {f : α → β → Except Failure α} (hf : ∀ a b, P a → Returns P (f a b)) {a : α} (ha : P a)
    (l : List β) : Returns P (l.foldlM f a) := by
  induction l generalizing a with
  | nil => exact ha
  | cons b l ih => exact (hf a b ha).bind fun a' ha' ↦ ih ha'

/-! ### The calls before the search -/

variable {sys : System} {hostname servname : Option Text} {hints : Hints} {addr : Address} {path : Text}

private theorem gaEcheck_returns (hostname servname : Option Text) (hints : Hints) :
    Returns (fun _ ↦ True) (gaEcheck hostname servname hints) := by
  unfold gaEcheck
  split
  · trivial
  split
  · trivial
  split
  · trivial
  split
  · trivial
  · split <;> trivial

/-- A family that is accepted. -/
private theorem family_of_gaEcheck (h : gaEcheck hostname servname hints = .ok ()) :
    hints.ai_family = .afUnspec ∨ hints.ai_family = .afInet ∨ hints.ai_family = .afInet6 ∨
      hints.ai_family = .afLocal := by
  unfold gaEcheck at h
  cases hfamily : hints.ai_family with
  | afUnspec => exact .inl rfl
  | afInet => exact .inr (.inl rfl)
  | afInet6 => exact .inr (.inr (.inl rfl))
  | afLocal => exact .inr (.inr (.inr rfl))
  | other family =>
    rw [hfamily] at h
    split at h
    · cases h
    split at h
    · cases h
    · cases h

private theorem gaAistruct_returns (hints : Hints) (addr : Address) :
    Returns (fun _ ↦ True) (gaAistruct hints addr) := by
  unfold gaAistruct
  cases addr with
  | inet a => trivial
  | inet6 a => trivial
  | path p =>
    dsimp only
    split <;> trivial

private theorem gaUnix_returns (sys : System) (path : Text) (hints : Hints) :
    Returns (· ≠ []) (gaUnix sys path hints) := by
  unfold gaUnix
  by_cases hfamily : hints.ai_family ≠ .afUnspec ∧ hints.ai_family ≠ .afLocal
  · rw [if_pos hfamily]
    trivial
  rw [if_neg hfamily]
  by_cases hzero : hints.ai_socktype = .zero
  · rw [if_pos hzero]
    refine (gaAistruct_returns _ _).bind fun first _ ↦ (gaAistruct_returns _ _).bind fun second _ ↦ ?_
    change Returns (· ≠ []) (if _ then _ else _)
    split
    · split
      · trivial
      · exact List.cons_ne_nil _ _
    · exact List.cons_ne_nil _ _
  · rw [if_neg hzero]
    refine (gaAistruct_returns _ _).bind fun only _ ↦ ?_
    change Returns (· ≠ []) (if _ then _ else _)
    split
    · split
      · trivial
      · exact List.cons_ne_nil _ _
    · exact List.cons_ne_nil _ _

/-! ### The search -/

private theorem length_searchFor (family : Family) (host4 host6 : Text) :
    ((searchFor family host4 host6).length < 1 ∨ (searchFor family host4 host6).length > 2) ↔
      ¬ (family = .afUnspec ∨ family = .afInet ∨ family = .afInet6) := by
  cases family <;> simp [searchFor]

/-- The search ends the program exactly for a family without a host. -/
private theorem gaNsearch_returns_iff (hostname : Option Text) (hints : Hints) :
    Returns (fun _ ↦ True) (gaNsearch hostname hints) ↔
      hints.ai_family = .afUnspec ∨ hints.ai_family = .afInet ∨ hints.ai_family = .afInet6 := by
  have hlength (host4 host6 : Text) : Returns (fun _ ↦ True)
      (if (searchFor hints.ai_family host4 host6).length < 1 ∨ (searchFor hints.ai_family host4 host6).length > 2
        then .error .quit else .ok (searchFor hints.ai_family host4 host6)) ↔
      hints.ai_family = .afUnspec ∨ hints.ai_family = .afInet ∨ hints.ai_family = .afInet6 := by
    have hiff := length_searchFor hints.ai_family host4 host6
    split
    · next h => exact iff_of_false id (hiff.mp h)
    · next h => exact iff_of_true trivial (not_not.mp (hiff.not.mp h))
  unfold gaNsearch
  dsimp only
  split
  · split
    · exact hlength _ _
    · exact hlength _ _
  · exact hlength _ _

private theorem append_returns (hints : Hints) (found : Found) (addr : Address) :
    Returns (fun _ ↦ True) (append hints found addr) :=
  (gaAistruct_returns hints addr).bind fun _ _ ↦ trivial

private theorem addHost_returns (hostname : Option Text) (hints : Hints) (found : Found) (h : Hostent) :
    Returns (fun _ ↦ True) (addHost hostname hints found h) := by
  unfold addHost
  by_cases hfamily : hints.ai_family ≠ .afUnspec ∧ hints.ai_family ≠ h.h_addrtype
  · rw [if_pos hfamily]
    trivial
  · rw [if_neg hfamily]
    exact Returns.foldlM (fun found addr _ ↦ append_returns hints found addr) trivial _

private theorem addAddress_returns (hints : Hints) (found : Found) (sptr : Search) (family : Family)
    (addr : Address) : Returns (fun _ ↦ True) (addAddress hints found sptr family addr) := by
  unfold addAddress
  split
  · trivial
  split
  · trivial
  · exact append_returns hints found addr

private theorem lookUp_returns (sys : System) (hostname : Option Text) (hints : Hints) (nsearch : Nat)
    (found : Found) (sptr : Search) :
    Returns (fun _ ↦ True) (lookUp sys hostname hints nsearch found sptr) := by
  unfold lookUp
  split
  · split
    · trivial
    · exact addHost_returns hostname hints found _
  · split
    · trivial
    · exact addHost_returns hostname hints found _

private theorem searchOne_returns (sys : System) (hostname : Option Text) (hints : Hints) (nsearch : Nat)
    (found : Found) (sptr : Search) :
    Returns (fun _ ↦ True) (searchOne sys hostname hints nsearch found sptr) := by
  unfold searchOne
  split
  · exact addAddress_returns hints found sptr _ _
  split
  · exact addAddress_returns hints found sptr _ _
  · exact lookUp_returns sys hostname hints nsearch found sptr

/-! ### The service -/

private theorem gaPort_ne_nil {aihead : List Addrinfo} (h : aihead ≠ []) (port : UInt16) (socktype : Socktype) :
    (gaPort port socktype aihead).1 ≠ [] := by
  cases aihead with
  | nil => exact absurd rfl h
  | cons ai rest =>
    unfold gaPort
    dsimp only
    split
    · split <;> exact List.cons_ne_nil _ _
    · split <;> exact List.cons_ne_nil _ _

private theorem gaPorts_ne_nil (services : List (UInt16 × Socktype)) {aihead : List Addrinfo} (h : aihead ≠ []) :
    (gaPorts services aihead).1 ≠ [] := by
  induction services generalizing aihead with
  | nil => exact h
  | cons c services ih => exact ih (gaPort_ne_nil h c.1 c.2)

private theorem gaServ_returns (sys : System) (hints : Hints) (serv : Text) {aihead : List Addrinfo}
    (h : aihead ≠ []) : Returns (· ≠ []) (gaServ sys hints serv aihead) := by
  unfold gaServ
  dsimp only
  split
  · split <;> trivial
  · exact gaPorts_ne_nil _ h

/-! ### The whole call -/

/-- Arguments that are accepted, name no path, and are of the Unix domain. -/
def Unsearched (hostname servname : Option Text) (hints : Hints) : Prop :=
  gaEcheck hostname servname hints = .ok () ∧ unixPath hostname servname = none ∧ hints.ai_family = .afLocal

/-- What is done with the list that was found. -/
def finish (sys : System) (hostname servname : Option Text) (hints : Hints) (search : List Search)
    (found : Found) : Except Failure (List Addrinfo) := do
  if found.aihead = [] then .error (.eai .noname)
  let aihead := if wantsCanon hostname hints then
      let name := found.canon.getD ((search.head?.map (·.host)).getD [])
      found.aihead.modifyHead fun ai ↦ { ai with ai_canonname := some name }
    else found.aihead
  if isEmpty servname then .ok aihead else gaServ sys hints (servname.getD []) aihead

private theorem getaddrinfo_search {hintsp : Option Hints}
    (hcheck : gaEcheck hostname servname (hintsp.getD .zero) = .ok ()) (hpath : unixPath hostname servname = none) :
    getaddrinfo sys hostname servname hintsp = (gaNsearch hostname (hintsp.getD .zero) >>= fun search ↦
      search.foldlM (searchOne sys hostname (hintsp.getD .zero) search.length) ⟨[], none⟩ >>=
        finish sys hostname servname (hintsp.getD .zero) search) := by
  unfold getaddrinfo
  dsimp only
  rw [hcheck, hpath]
  rfl

private theorem finish_returns (sys : System) (hostname servname : Option Text) (hints : Hints)
    (search : List Search) (found : Found) :
    Returns (· ≠ []) (finish sys hostname servname hints search found) := by
  unfold finish
  by_cases hfound : found.aihead = []
  · rw [if_pos hfound]
    trivial
  rw [if_neg hfound]
  have hne (aihead : List Addrinfo) (h : aihead ≠ []) :
      Returns (· ≠ []) (if isEmpty servname then .ok aihead else gaServ sys hints (servname.getD []) aihead) := by
    split
    · exact h
    · exact gaServ_returns sys hints _ h
  apply hne
  split
  · cases hhead : found.aihead with
    | nil => exact absurd hhead hfound
    | cons ai rest => exact List.cons_ne_nil _ rest
  · exact hfound

theorem returns_iff {x : Except Failure α} :
    Returns P x ↔ (∃ a, P a ∧ x = .ok a) ∨ ∃ code, x = .error (.eai code) := by
  constructor
  · intro h
    match x, h with
    | .ok a, h => exact .inl ⟨a, h, rfl⟩
    | .error (.eai code), _ => exact .inr ⟨code, rfl⟩
  · rintro (⟨a, ha, rfl⟩ | ⟨code, rfl⟩)
    · exact ha
    · trivial

/-- What ends the program ends it whatever follows. -/
private theorem not_returns_bind {x : Except Failure α} (h : ¬ Returns (fun _ ↦ True) x)
    (f : α → Except Failure β) : ¬ Returns Q (x >>= f) := by
  match x, h with
  | .ok a, h => exact absurd trivial h
  | .error (.eai _), h => exact absurd trivial h
  | .error .quit, _ => exact id

/-- A call returns a list that is not empty or a code, if and only if its arguments can be searched for. -/
theorem getaddrinfo_returns_iff (sys : System) (hostname servname : Option Text) (hintsp : Option Hints) :
    ((∃ l, l ≠ [] ∧ getaddrinfo sys hostname servname hintsp = .ok l) ∨
      ∃ code, getaddrinfo sys hostname servname hintsp = .error (.eai code)) ↔
    ¬ Unsearched hostname servname (hintsp.getD .zero) := by
  rw [← returns_iff]
  cases hcheck : gaEcheck hostname servname (hintsp.getD .zero) with
  | error e =>
    have hreturns := gaEcheck_returns hostname servname (hintsp.getD .zero)
    have heq : getaddrinfo sys hostname servname hintsp = .error e := by
      unfold getaddrinfo
      dsimp only
      rw [hcheck]
      rfl
    rw [hcheck] at hreturns
    rw [heq]
    refine iff_of_true ?_ fun h ↦ ?_
    · cases e with
      | eai code => trivial
      | quit => exact hreturns.elim
    · cases hcheck.symm.trans h.1
  | ok u =>
    cases hpath : unixPath hostname servname with
    | some path =>
      have heq : getaddrinfo sys hostname servname hintsp = gaUnix sys path (hintsp.getD .zero) := by
        unfold getaddrinfo
        dsimp only
        rw [hcheck, hpath]
        rfl
      rw [heq]
      refine iff_of_true (gaUnix_returns sys path _) fun h ↦ ?_
      cases hpath.symm.trans h.2.1
    | none =>
      rw [getaddrinfo_search hcheck hpath]
      by_cases hfamily : (hintsp.getD .zero).ai_family = .afUnspec ∨ (hintsp.getD .zero).ai_family = .afInet ∨
          (hintsp.getD .zero).ai_family = .afInet6
      · refine iff_of_true ?_ fun h ↦ ?_
        · refine ((gaNsearch_returns_iff hostname _).mpr hfamily).bind fun search _ ↦ ?_
          have hfound : Returns (fun _ ↦ True)
              (search.foldlM (searchOne sys hostname (hintsp.getD .zero) search.length) ⟨[], none⟩) :=
            Returns.foldlM (fun found sptr _ ↦ searchOne_returns sys hostname _ search.length found sptr) trivial search
          exact hfound.bind fun found _ ↦ finish_returns sys hostname servname _ search found
        · rw [h.2.2] at hfamily
          simp at hfamily
      · refine iff_of_false ?_ (not_not_intro ⟨hcheck, hpath, ?_⟩)
        · exact not_returns_bind (fun h ↦ hfamily ((gaNsearch_returns_iff hostname _).mp h)) _
        · have hcases := family_of_gaEcheck hcheck
          tauto

/-- A look up of a host in the Unix domain ends the program, whatever the resolver knows. -/
theorem getaddrinfo_quits : ∃ sys : System,
    gaEcheck (some ['x']) none ⟨0, .afLocal, .zero, 0⟩ = .ok () ∧
    getaddrinfo sys (some ['x']) none (some ⟨0, .afLocal, .zero, 0⟩) = .error .quit ∧
    ¬ ((∃ l, l ≠ [] ∧ getaddrinfo sys (some ['x']) none (some ⟨0, .afLocal, .zero, 0⟩) = .ok l) ∨
      ∃ code, getaddrinfo sys (some ['x']) none (some ⟨0, .afLocal, .zero, 0⟩) = .error (.eai code)) := by
  let sys : System := ⟨fun _ ↦ none, fun _ ↦ none, fun _ _ ↦ .error .hostNotFound, fun _ _ ↦ none, fun _ ↦ none,
    fun _ _ ↦ none, fun _ _ ↦ none, none⟩
  have hquit : getaddrinfo sys (some ['x']) none (some ⟨0, .afLocal, .zero, 0⟩) = .error .quit := rfl
  refine ⟨sys, rfl, hquit, ?_⟩
  rw [hquit]
  simp

end Unpv13e.Libgai
