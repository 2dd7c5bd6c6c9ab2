import Unpv13e.Libgai.Getaddrinfo

/-!
# Addresses and services

Library `Libgai`. `ga_port` over a list of addresses made for no socket type: the first call fills the entries in,
and every later call inserts a clone behind each of them. After any number of calls each address has an entry for
each call.
-/

namespace Unpv13e.Libgai
open Unpv13e.Base

/-- A port and the socket type that it is for, one call of `ga_port`. -/
abbrev Service := UInt16 × Socktype

/-! ### What the list is to be -/

def Address.IsIp : Address → Prop
  | .path _ => False
  | _ => True

instance : DecidablePred Address.IsIp
  | .inet _ => isTrue trivial
  | .inet6 _ => isTrue trivial
  | .path _ => isFalse id

def Address.family : Address → Family
  | .inet _ => .afInet
  | .inet6 _ => .afInet6
  | .path _ => .afLocal

/-- An address as a socket address. -/
def Address.sockaddr : Address → UInt16 → Sockaddr
  | .inet a, port => .inet ⟨a, port⟩
  | .inet6 a, port => .inet6 ⟨a, port, 0, 0⟩
  | .path p, _ => .unix ⟨p⟩

/-- An entry offers a service of an address. -/
structure Offers (addr : Address) (service : Service) (ai : Addrinfo) : Prop where
  family : ai.ai_family = addr.family
  sockaddr : ai.ai_addr = addr.sockaddr service.1
  socktype : ai.ai_socktype = service.2

/-- What the entries of an address are for: before the first call there is one without port and socket type. -/
def servicesOf : List Service → List Service
  | [] => [(0, .zero)]
  | services => services

/-- The entries of an address, one for each call. -/
def OneEach (calls : List Service) (addr : Address) (block : List Addrinfo) : Prop :=
  ∃ services, List.Perm services (servicesOf calls) ∧ List.Forall₂ (Offers addr) services block

/-! ### One entry and its clones -/

section Entry
variable {port port' : UInt16} {socktype socktype' : Socktype} {ai : Addrinfo} {pre calls : List Service}
  {c : Service}

/-- An entry as `ga_aistruct` makes it for no socket type. -/
structure Original (ai : Addrinfo) : Prop where
  clone : hasFlag ai.ai_flags aiClone = true
  untyped : ai.ai_socktype = .zero
  ip : (∃ sin, ai.ai_addr = .inet sin) ∨ ∃ sin6, ai.ai_addr = .inet6 sin6

/-- The entries that come of an original one: it has the first call, and the clones stand behind it, the last
one first. -/
def block (ai : Addrinfo) : List Service → List Addrinfo
  | [] => [ai]
  | c :: calls => (setPort c.1 c.2 ai).1 :: calls.reverse.map fun c ↦ (setPort c.1 c.2 (gaClone ai)).1

@[simp] theorem setPort_flags (port : UInt16) (socktype : Socktype) (ai : Addrinfo) :
    (setPort port socktype ai).1.ai_flags = ai.ai_flags := by
  unfold setPort
  dsimp only
  split <;> rfl

@[simp] theorem setPort_socktype (port : UInt16) (socktype : Socktype) (ai : Addrinfo) :
    (setPort port socktype ai).1.ai_socktype = socktype := by
  unfold setPort
  dsimp only
  split <;> rfl

@[simp] theorem setPort_canonname (port : UInt16) (socktype : Socktype) (ai : Addrinfo) :
    (setPort port socktype ai).1.ai_canonname = ai.ai_canonname := by
  unfold setPort
  dsimp only
  split <;> rfl

theorem Original.setPort_snd (h : Original ai) : (setPort port socktype ai).2 = 1 := by
  unfold setPort
  obtain ⟨sin, hip⟩ | ⟨sin6, hip⟩ := h.ip <;> rw [hip]

/-- A clone of the filled in entry is filled in like one of the original. -/
theorem Original.setPort_clone (h : Original ai) :
    setPort port socktype (gaClone (setPort port' socktype' ai).1) = ((setPort port socktype (gaClone ai)).1, 1) := by
  cases ai with
  | mk flags family socktype₀ protocol addrlen canonname addr =>
    obtain ⟨sin, hip⟩ | ⟨sin6, hip⟩ := h.ip
    · cases hip
      rfl
    · cases hip
      rfl

/-! ### One call -/

/-- The calls see one part of the list after the other. -/
theorem gaPort_append (l l' : List Addrinfo) : gaPort port socktype (l ++ l') =
    ((gaPort port socktype l).1 ++ (gaPort port socktype l').1,
      (gaPort port socktype l).2 + (gaPort port socktype l').2) := by
  induction l with
  | nil => simp [gaPort]
  | cons ai l ih =>
    simp only [List.cons_append, gaPort, ih]
    split
    · split <;> simp [Nat.add_assoc]
    · split <;> simp [Nat.add_assoc]

/-- The clones of other socket types are passed over. -/
private theorem gaPort_clones (hne : ∀ c ∈ calls, c.2 ≠ socktype) :
    gaPort port socktype (calls.map fun c ↦ (setPort c.1 c.2 (gaClone ai)).1) =
      (calls.map fun c ↦ (setPort c.1 c.2 (gaClone ai)).1, 0) := by
  induction calls with
  | nil => rfl
  | cons c calls ih =>
    have hclone : hasFlag (setPort c.1 c.2 (gaClone ai)).1.ai_flags aiClone = false := by
      rw [setPort_flags]
      exact (by decide : hasFlag 0 aiClone = false)
    simp only [List.map_cons, gaPort, ih fun c hc ↦ hne c (List.mem_cons_of_mem _ hc), hclone, setPort_socktype]
    rw [if_neg Bool.false_ne_true, if_pos (hne c List.mem_cons_self)]

/-- One call adds one entry to those of an address. -/
theorem Original.gaPort_block (h : Original ai) (hzero : ∀ c' ∈ calls, c'.2 ≠ .zero)
    (hne : ∀ c' ∈ calls, c'.2 ≠ c.2) : gaPort c.1 c.2 (block ai calls) = (block ai (calls ++ [c]), 1) := by
  cases calls with
  | nil =>
    simp only [block, gaPort, h.clone, h.untyped, List.nil_append, List.reverse_nil, List.map_nil]
    rw [if_pos trivial, if_neg (not_not_intro rfl), h.setPort_snd]
  | cons c₀ calls =>
    have hrest : ∀ c' ∈ calls.reverse, c'.2 ≠ c.2 := fun c' hc' ↦
      hne c' (List.mem_cons_of_mem _ (List.mem_reverse.mp hc'))
    simp only [block, gaPort, gaPort_clones hrest, setPort_flags, setPort_socktype, h.clone, h.setPort_clone,
      List.cons_append, List.reverse_append, List.reverse_singleton, List.map_cons]
    rw [if_pos trivial, if_pos (hzero c₀ List.mem_cons_self)]
    rfl

end Entry

/-! ### All calls -/

section Run
variable {hints : Hints} {addrs : List Address} {canon : Option Text} {calls pre : List Service} {c : Service}
  {origs built : List Addrinfo} {ai : Addrinfo} {addr : Address}

/-- One call over the entries of all addresses. -/
theorem gaPort_blocks (h : ∀ ai ∈ origs, Original ai) (hzero : ∀ c' ∈ pre, c'.2 ≠ .zero)
    (hne : ∀ c' ∈ pre, c'.2 ≠ c.2) :
    gaPort c.1 c.2 (origs.flatMap (block · pre)) = (origs.flatMap (block · (pre ++ [c])), origs.length) := by
  induction origs with
  | nil => rfl
  | cons ai origs ih =>
    rw [List.flatMap_cons, gaPort_append, (h ai List.mem_cons_self).gaPort_block hzero hne,
      ih fun ai hai ↦ h ai (List.mem_cons_of_mem _ hai), List.flatMap_cons, List.length_cons]
    exact Prod.ext rfl (Nat.add_comm _ _)

/-- The calls one after the other. -/
theorem gaPorts_blocks (h : ∀ ai ∈ origs, Original ai) (hzero : ∀ c ∈ pre ++ calls, c.2 ≠ .zero)
    (hnodup : ((pre ++ calls).map Prod.snd).Nodup) :
    (gaPorts calls (origs.flatMap (block · pre))).1 = origs.flatMap (block · (pre ++ calls)) := by
  induction calls generalizing pre with
  | nil => rw [List.append_nil, gaPorts]
  | cons c calls ih =>
    have hsplit : pre ++ c :: calls = pre ++ [c] ++ calls := List.append_cons pre c calls
    have hpre : ∀ c' ∈ pre, c'.2 ≠ c.2 := by
      intro c' hc' he
      rw [List.map_append, List.map_cons] at hnodup
      exact (List.nodup_append.mp hnodup).2.2 c'.2 (List.mem_map_of_mem hc') c.2 List.mem_cons_self he
    have hcall := gaPort_blocks h (fun c' hc' ↦ hzero c' (List.mem_append_left _ hc')) hpre
    rw [gaPorts, hcall, hsplit]
    exact ih (hsplit ▸ hzero) (hsplit ▸ hnodup)

/-! ### What `ga_aistruct` makes -/

/-- An entry offers no service yet. -/
theorem gaAistruct_original (huntyped : hints.ai_socktype = .zero) (hip : addr.IsIp)
    (h : gaAistruct hints addr = .ok ai) :
    Original ai ∧ Offers addr (0, .zero) ai ∧ ai.ai_canonname = none := by
  have hflag : hasFlag aiClone aiClone = true := by decide
  cases addr with
  | inet a =>
    cases h
    rw [huntyped]
    exact ⟨⟨hflag, rfl, .inl ⟨_, rfl⟩⟩, ⟨rfl, rfl, rfl⟩, rfl⟩
  | inet6 a =>
    cases h
    rw [huntyped]
    exact ⟨⟨hflag, rfl, .inr ⟨_, rfl⟩⟩, ⟨rfl, rfl, rfl⟩, rfl⟩
  | path p => exact hip.elim

/-- A call that fills in an entry makes it offer the service. -/
theorem Offers.setPort {service : Service} (h : Offers addr service ai) (hip : addr.IsIp) (port : UInt16)
    (socktype : Socktype) : Offers addr (port, socktype) (setPort port socktype ai).1 := by
  cases ai with
  | mk flags family socktype₀ protocol addrlen canonname sa =>
    obtain ⟨hfamily, hsa, -⟩ := h
    cases hfamily
    cases hsa
    cases addr with
    | inet a => exact ⟨rfl, rfl, rfl⟩
    | inet6 a => exact ⟨rfl, rfl, rfl⟩
    | path p => exact hip.elim

theorem Offers.oneEach (h : Offers addr (0, .zero) ai) (hip : addr.IsIp)
    (calls : List Service) : OneEach calls addr (block ai calls) := by
  have hclone : Offers addr (0, .zero) (gaClone ai) := ⟨h.family, h.sockaddr, h.socktype⟩
  cases calls with
  | nil => exact ⟨_, .rfl, .cons h .nil⟩
  | cons c calls =>
    refine ⟨c :: calls.reverse, (List.reverse_perm calls).cons c, .cons (h.setPort hip c.1 c.2) ?_⟩
    rw [List.forall₂_map_right_iff]
    exact List.forall₂_same.mpr fun c _ ↦ hclone.setPort hip c.1 c.2

/-- The list with the canonical name in its first entry, as `getaddrinfo` puts it there. -/
def named (canon : Option Text) (aihead : List Addrinfo) : List Addrinfo :=
  aihead.modifyHead fun ai ↦ { ai with ai_canonname := canon }

/-- An entry made of an address, before any call. -/
structure Made (addr : Address) (ai : Addrinfo) : Prop where
  ip : addr.IsIp
  original : Original ai
  offers : Offers addr (0, .zero) ai

private theorem named_made (canon : Option Text) (huntyped : hints.ai_socktype = .zero)
    (hip : ∀ addr ∈ addrs, addr.IsIp)
    (hbuilt : List.Forall₂ (fun addr ai ↦ gaAistruct hints addr = .ok ai) addrs built) :
    List.Forall₂ Made addrs (named canon built) := by
  have hmade : List.Forall₂ Made addrs built := by
    refine ((List.forall₂_and_left addrs built).mpr ⟨hip, hbuilt⟩).imp ?_
    rintro addr ai ⟨haddr, hai⟩
    obtain ⟨horig, hoffers, -⟩ := gaAistruct_original huntyped haddr hai
    exact ⟨haddr, horig, hoffers⟩
  cases hmade with
  | nil => exact .nil
  | cons hhead htail => exact .cons ⟨hhead.ip, { hhead.original with }, { hhead.offers with }⟩ htail

private theorem forall₂_flatMap (hmade : List.Forall₂ Made addrs origs) (calls : List Service) :
    ∃ blocks, origs.flatMap (block · calls) = blocks.flatten ∧ List.Forall₂ (OneEach calls) addrs blocks := by
  refine ⟨origs.map (block · calls), rfl, ?_⟩
  rw [List.forall₂_map_right_iff]
  exact hmade.imp fun addr ai h ↦ h.offers.oneEach h.ip calls

private theorem original_of_mem (hmade : List.Forall₂ Made addrs origs) : ∀ ai ∈ origs, Original ai := by
  induction hmade with
  | nil => exact fun _ hai ↦ absurd hai List.not_mem_nil
  | cons hhead _ ih => exact List.forall_mem_cons.mpr ⟨hhead.original, ih⟩

/-- The clones have no canonical name. -/
private theorem canonname_block (ai : Addrinfo) (calls : List Service) :
    ∃ first rest, block ai calls = first :: rest ∧ first.ai_canonname = ai.ai_canonname ∧
      ∀ ai' ∈ rest, ai'.ai_canonname = none := by
  cases calls with
  | nil => exact ⟨_, _, rfl, rfl, fun _ hai ↦ absurd hai List.not_mem_nil⟩
  | cons c calls =>
    refine ⟨_, _, rfl, setPort_canonname _ _ _, ?_⟩
    intro ai' hai
    obtain ⟨c', -, rfl⟩ := List.mem_map.mp hai
    rw [setPort_canonname]
    rfl

/-- Only the first entry of the list has the canonical name. -/
def NameFirst (canon : Option Text) (aihead : List Addrinfo) : Prop :=
  ∀ first rest, aihead = first :: rest → first.ai_canonname = canon ∧ ∀ ai ∈ rest, ai.ai_canonname = none

private theorem canonname_built (huntyped : hints.ai_socktype = .zero) (hip : ∀ addr ∈ addrs, addr.IsIp)
    (hbuilt : List.Forall₂ (fun addr ai ↦ gaAistruct hints addr = .ok ai) addrs built) :
    ∀ ai ∈ built, ai.ai_canonname = none := by
  induction hbuilt with
  | nil => exact fun _ hai ↦ absurd hai List.not_mem_nil
  | cons hhead _ ih =>
    obtain ⟨haddr, haddrs⟩ := List.forall_mem_cons.mp hip
    exact List.forall_mem_cons.mpr ⟨(gaAistruct_original huntyped haddr hhead).2.2, ih haddrs⟩

private theorem nameFirst_flatMap (huntyped : hints.ai_socktype = .zero) (hip : ∀ addr ∈ addrs, addr.IsIp)
    (hbuilt : List.Forall₂ (fun addr ai ↦ gaAistruct hints addr = .ok ai) addrs built) :
    NameFirst canon ((named canon built).flatMap (block · calls)) := by
  have hnone := canonname_built huntyped hip hbuilt
  cases built with
  | nil => exact nofun
  | cons ai built =>
    obtain ⟨first, rest, hblock, hfirst, hrest⟩ := canonname_block { ai with ai_canonname := canon } calls
    have hflat : (named canon (ai :: built)).flatMap (block · calls) =
        first :: (rest ++ built.flatMap (block · calls)) := congrArg (· ++ _) hblock
    rw [hflat]
    rintro _ _ ⟨⟩
    refine ⟨hfirst, fun ai' hai ↦ ?_⟩
    obtain hmem | hmem := List.mem_append.mp hai
    · exact hrest ai' hmem
    · obtain ⟨orig, horig, hmem⟩ := List.mem_flatMap.mp hmem
      obtain ⟨first', rest', hblock', hfirst', hrest'⟩ := canonname_block orig calls
      rw [hblock'] at hmem
      obtain rfl | hmem := List.mem_cons.mp hmem
      · exact hfirst'.trans (hnone orig (List.mem_cons_of_mem ai horig))
      · exact hrest' ai' hmem

/-- `ga_port` builds the product of addresses and services. -/
theorem gaPorts_product (huntyped : hints.ai_socktype = .zero) (hip : ∀ addr ∈ addrs, addr.IsIp)
    (hbuilt : List.Forall₂ (fun addr ai ↦ gaAistruct hints addr = .ok ai) addrs built)
    (hzero : ∀ c ∈ calls, c.2 ≠ .zero) (hnodup : (calls.map Prod.snd).Nodup) :
    (∃ blocks, (gaPorts calls (named canon built)).1 = blocks.flatten ∧
      List.Forall₂ (OneEach calls) addrs blocks) ∧
    NameFirst canon (gaPorts calls (named canon built)).1 ∧
    ∀ pre c post, calls = pre ++ c :: post →
      (gaPort c.1 c.2 (gaPorts pre (named canon built)).1).2 = addrs.length := by
  have hmade := named_made canon huntyped hip hbuilt
  have horig := original_of_mem hmade
  have hstart : (named canon built).flatMap (block · []) = named canon built := List.flatMap_singleton' _
  have hrun : (gaPorts calls (named canon built)).1 = (named canon built).flatMap (block · calls) := by
    have hblocks : (gaPorts calls ((named canon built).flatMap (block · []))).1 =
      (named canon built).flatMap (block · ([] ++ calls)) := gaPorts_blocks horig hzero hnodup
    rwa [hstart] at hblocks
  refine ⟨?_, ?_, ?_⟩
  · rw [hrun]
    exact forall₂_flatMap hmade calls
  · rw [hrun]
    exact nameFirst_flatMap huntyped hip hbuilt
  · rintro pre c post rfl
    have hpre : (gaPorts pre (named canon built)).1 = (named canon built).flatMap (block · pre) := by
      have hblocks : (gaPorts pre ((named canon built).flatMap (block · []))).1 =
        (named canon built).flatMap (block · ([] ++ pre)) :=
        gaPorts_blocks horig (fun c' hc' ↦ hzero c' (List.mem_append_left _ hc'))
          ((hnodup.sublist ((List.sublist_append_left pre _).map Prod.snd)))
      rwa [hstart] at hblocks
    have hne : ∀ c' ∈ pre, c'.2 ≠ c.2 := by
      intro c' hc' he
      rw [List.map_append, List.map_cons] at hnodup
      exact (List.nodup_append.mp hnodup).2.2 c'.2 (List.mem_map_of_mem hc') c.2 List.mem_cons_self he
    rw [hpre, gaPort_blocks horig (fun c' hc' ↦ hzero c' (List.mem_append_left _ hc')) hne]
    exact hmade.length_eq.symm

end Run

/-- Two addresses with three services. -/
theorem gaPorts_product_two :
    (∃ blocks, (gaPorts [(7, .sockStream), (7, .sockDgram), (9, .sockRaw)] (named (some ['h'])
        [⟨aiClone, .afInet, .zero, 0, 16, none, .inet ⟨#v[10, 0, 0, 1], 0⟩⟩,
          ⟨aiClone, .afInet, .zero, 0, 16, none, .inet ⟨#v[10, 0, 0, 2], 0⟩⟩])).1 = blocks.flatten ∧
      List.Forall₂ (OneEach [(7, .sockStream), (7, .sockDgram), (9, .sockRaw)])
        [.inet #v[10, 0, 0, 1], .inet #v[10, 0, 0, 2]] blocks) :=
  And.left (gaPorts_product (show Hints.zero.ai_socktype = .zero from rfl) (by decide)
    (.cons rfl (.cons rfl .nil)) (by decide) (by decide))

end Unpv13e.Libgai
