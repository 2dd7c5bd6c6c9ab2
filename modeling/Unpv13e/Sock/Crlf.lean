import Unpv13e.Base.Runs

/-!
# Returns and newlines

Library `Sock`. `src/sock/crlf.c:14–50`: the conversions between lines that end in a newline and lines that end in
a return and a newline, and the two places of `src/sock/looptcp.c:52–86` that send and print what they give.
`lenout` never exceeds `dstsize`, and so no `int` overflows.
-/

namespace Unpv13e.Sock

/-- `'\r'` -/
def ret : UInt8 := 13

/-- `'\n'` -/
def newline : UInt8 := 10

/-- What has been stored at `dst`, and the value returned. -/
structure Converted where
  dst : List UInt8
  lenout : Int
  deriving DecidableEq, Repr

/-- The loop of both conversions. A byte is stored as `emit` says; one that is `counted` first adds to `lenout`, and
then `err_quit(msg)` is called when `lenout` has come to `dstsize`. -/
def convertFrom (counted : UInt8 → Bool) (emit : UInt8 → List UInt8) (msg : String) (dstsize : Int) :
    Int → List UInt8 → List UInt8 → Except String Converted
  | lenout, dst, [] => .ok ⟨dst, lenout⟩
  | lenout, dst, c :: src =>
    if counted c then
      if lenout + 1 ≥ dstsize then .error msg
      else convertFrom counted emit msg dstsize (lenout + 1) (dst ++ emit c) src
    else convertFrom counted emit msg dstsize lenout (dst ++ emit c) src

/-- `crlf_add`, `src/sock/crlf.c:14–32` -/
def crlfAdd (dstsize : Int) (src : List UInt8) : Except String Converted :=
  if (src.length : Int) > dstsize then .error "crlf_add: destination not big enough"
  else
    convertFrom (· == newline) (fun c ↦ if c = newline then [ret, c] else [c])
      "crlf_add: destination not big enough" dstsize src.length [] src

/-- `crlf_strip`, `src/sock/crlf.c:34–50` -/
def crlfStrip (dstsize : Int) (src : List UInt8) : Except String Converted :=
  convertFrom (· != ret) (fun c ↦ if c = ret then [] else [c])
    "crlf_strip: destination not big enough" dstsize 0 [] src

/-- The blocks of one direction of `loop_tcp`: each is converted and as many bytes as the conversion returns are
passed on, `src/sock/looptcp.c:52–54, 74–78`. -/
def relay (convert : List UInt8 → Except String Converted) : List (List UInt8) → Except String (List UInt8)
  | [] => .ok []
  | block :: blocks => do
    let r ← convert block
    let rest ← relay convert blocks
    return r.dst.take r.lenout.toNat ++ rest

/-! ### What the conversions are for -/

/-- The text with a return before every newline. -/
def withReturns (src : List UInt8) : List UInt8 := src.flatMap fun c ↦ if c = newline then [ret, c] else [c]

/-- The text without its returns. -/
def withoutReturns (src : List UInt8) : List UInt8 := src.filter (· ≠ ret)

/-- `crlf_add` converts the text exactly if the result fits into `dstsize` bytes. -/
def AddsExactly (dstsize : Int) (src : List UInt8) : Prop :=
  ((∃ r, crlfAdd dstsize src = .ok r) ↔ (src.length + src.count newline : Int) ≤ dstsize) ∧
    ∀ r, crlfAdd dstsize src = .ok r → r.dst = withReturns src ∧ r.lenout = (withReturns src).length

/-- `crlf_strip` converts the text exactly if the result fits into `dstsize` bytes. -/
def StripsExactly (dstsize : Int) (src : List UInt8) : Prop :=
  ((∃ r, crlfStrip dstsize src = .ok r) ↔ ((withoutReturns src).length : Int) ≤ dstsize) ∧
    ∀ r, crlfStrip dstsize src = .ok r → r.dst = withoutReturns src ∧ r.lenout = (withoutReturns src).length

variable {counted : UInt8 → Bool} {emit : UInt8 → List UInt8} {msg : String} {dstsize lenout : Int}
  {dst src text : List UInt8}

/-! ### The loop -/

/-- The counter only grows, and so the last counted byte decides. -/
theorem convertFrom_eq :
    convertFrom counted emit msg dstsize lenout dst src =
      if 0 < src.countP counted ∧ dstsize ≤ lenout + src.countP counted then .error msg
      else .ok ⟨dst ++ src.flatMap emit, lenout + src.countP counted⟩ := by
  induction src generalizing lenout dst with
  | nil =>
    rw [convertFrom, List.countP_nil, if_neg (fun h ↦ Nat.lt_irrefl 0 h.1), List.flatMap_nil, List.append_nil]
    rw [Nat.cast_zero, add_zero]
  | cons c src ih =>
    rw [convertFrom, List.flatMap_cons]
    by_cases hc : counted c
    · rw [if_pos hc, List.countP_cons_of_pos hc]
      by_cases hfull : lenout + 1 ≥ dstsize
      · rw [if_pos hfull, if_pos (by omega)]
      · rw [if_neg hfull, ih, List.append_assoc]
        have hshift : lenout + 1 + (src.countP counted : Nat) = lenout + (src.countP counted + 1 : Nat) := by omega
        rw [hshift]
        refine if_congr ?_ rfl rfl
        omega
    · rw [if_neg hc, List.countP_cons_of_neg hc, ih, List.append_assoc]

private theorem filter_eq_flatMap (src : List UInt8) :
    (src.flatMap fun c ↦ if c = ret then [] else [c]) = withoutReturns src := by
  induction src with
  | nil => rfl
  | cons c src ih =>
    rw [List.flatMap_cons, ih]
    by_cases hc : c = ret
    · rw [if_pos hc, withoutReturns, withoutReturns, List.filter_cons_of_neg (by simpa using hc), List.nil_append]
    · rw [if_neg hc, withoutReturns, withoutReturns, List.filter_cons_of_pos (by simpa using hc)]
      rfl

private theorem countP_ne (src : List UInt8) : src.countP (· != ret) = (withoutReturns src).length := by
  rw [withoutReturns, ← List.countP_eq_length_filter]
  congr 1
  funext c
  by_cases hc : c = ret
  · rw [hc]
    rfl
  · simp [hc]

private theorem length_withReturns (src : List UInt8) :
    (withReturns src).length = src.length + src.count newline := by
  induction src with
  | nil => rfl
  | cons c src ih =>
    rw [withReturns, List.flatMap_cons, List.length_append, ← withReturns, ih, List.length_cons]
    by_cases hc : c = newline
    · rw [if_pos hc, hc, List.count_cons_self]
      change 2 + _ = _
      omega
    · rw [if_neg hc, List.count_cons_of_ne (fun h ↦ hc h)]
      change 1 + _ = _
      omega

/-- What `crlf_add` does. -/
theorem crlfAdd_eq :
    crlfAdd dstsize src =
      if dstsize < src.length ∨ (0 < src.count newline ∧ dstsize ≤ src.length + src.count newline) then
        .error "crlf_add: destination not big enough"
      else .ok ⟨withReturns src, src.length + src.count newline⟩ := by
  unfold crlfAdd
  by_cases hlen : (src.length : Int) > dstsize
  · rw [if_pos hlen, if_pos (.inl hlen)]
  · rw [if_neg hlen, convertFrom_eq, List.nil_append]
    refine if_congr ?_ rfl rfl
    exact (or_iff_right hlen).symm

/-- What `crlf_strip` does. -/
theorem crlfStrip_eq :
    crlfStrip dstsize src =
      if 0 < (withoutReturns src).length ∧ dstsize ≤ (withoutReturns src).length then
        .error "crlf_strip: destination not big enough"
      else .ok ⟨withoutReturns src, (withoutReturns src).length⟩ := by
  unfold crlfStrip
  rw [convertFrom_eq, filter_eq_flatMap, countP_ne, zero_add]
  rfl

/-! ### One conversion -/

private theorem exists_ok_ite {α β : Type} {p : Prop} [Decidable p] {e : α} {v : β} :
    (∃ r, (if p then .error e else .ok v : Except α β) = .ok r) ↔ ¬p := by
  split
  · next hp => exact ⟨fun ⟨r, hr⟩ ↦ (nomatch hr), fun hn ↦ absurd hp hn⟩
  · next hp => exact ⟨fun _ ↦ hp, fun _ ↦ ⟨v, rfl⟩⟩

private theorem eq_of_ite_ok {α β : Type} {p : Prop} [Decidable p] {e : α} {v r : β}
    (h : (if p then .error e else .ok v : Except α β) = .ok r) : r = v := by
  split at h
  · cases h
  · cases h
    rfl

/-- What `crlf_add` stores when it succeeds. -/
theorem eq_of_crlfAdd {r : Converted} (h : crlfAdd dstsize src = .ok r) :
    r = ⟨withReturns src, (withReturns src).length⟩ := by
  rw [crlfAdd_eq] at h
  rw [eq_of_ite_ok h, length_withReturns]
  rfl

/-- What `crlf_strip` stores when it succeeds. -/
theorem eq_of_crlfStrip {r : Converted} (h : crlfStrip dstsize src = .ok r) :
    r = ⟨withoutReturns src, (withoutReturns src).length⟩ := by
  rw [crlfStrip_eq] at h
  exact eq_of_ite_ok h

/-- `crlf_add` gives up when the text with its returns fits exactly. -/
theorem addsExactly_iff :
    AddsExactly dstsize src ↔ ¬(0 < src.count newline ∧ (src.length + src.count newline : Int) = dstsize) := by
  have hvalue : ∀ r, crlfAdd dstsize src = .ok r → r.dst = withReturns src ∧ r.lenout = (withReturns src).length := by
    intro r hr
    rw [eq_of_crlfAdd hr]
    exact ⟨rfl, rfl⟩
  rw [AddsExactly, and_iff_left hvalue, crlfAdd_eq, exists_ok_ite]
  omega

/-- `crlf_strip` gives up when the text without its returns fits exactly and is not empty. -/
theorem stripsExactly_iff :
    StripsExactly dstsize src ↔
      ¬(0 < (withoutReturns src).length ∧ ((withoutReturns src).length : Int) = dstsize) ∧
        ¬((withoutReturns src).length = 0 ∧ dstsize < 0) := by
  have hvalue : ∀ r, crlfStrip dstsize src = .ok r →
      r.dst = withoutReturns src ∧ r.lenout = (withoutReturns src).length := by
    intro r hr
    rw [eq_of_crlfStrip hr]
    exact ⟨rfl, rfl⟩
  rw [StripsExactly, and_iff_left hvalue, crlfStrip_eq, exists_ok_ite]
  omega

/-! ### Block after block -/

/-- The blocks are converted one by one. -/
theorem relay_eq_ok_iff {convert : List UInt8 → Except String Converted} {g : List UInt8 → List UInt8}
    (hconvert : ∀ b r, convert b = .ok r → r.dst.take r.lenout.toNat = g b) {blocks : List (List UInt8)}
    {out : List UInt8} :
    relay convert blocks = .ok out ↔ (∀ b ∈ blocks, ∃ r, convert b = .ok r) ∧ out = blocks.flatMap g := by
  induction blocks generalizing out with
  | nil =>
    rw [relay, List.flatMap_nil]
    constructor
    · intro h
      cases h
      exact ⟨fun b hb ↦ absurd hb List.not_mem_nil, rfl⟩
    · rintro ⟨-, rfl⟩
      rfl
  | cons block blocks ih =>
    rw [relay, List.flatMap_cons, List.forall_mem_cons]
    cases hblock : convert block with
    | error e => exact ⟨fun h ↦ (nomatch h), fun ⟨⟨⟨r, hr⟩, _⟩, _⟩ ↦ (nomatch hr)⟩
    | ok r =>
      rw [Base.ok_bind, hconvert block r hblock]
      constructor
      · intro h
        obtain ⟨rest, hrest, h⟩ := Base.exists_of_bind_ok h
        cases h
        obtain ⟨hall, rfl⟩ := ih.mp hrest
        exact ⟨⟨⟨r, rfl⟩, hall⟩, rfl⟩
      · rintro ⟨⟨-, hall⟩, rfl⟩
        rw [ih.mpr ⟨hall, rfl⟩]
        rfl

private theorem flatMap_withReturns (texts : List (List UInt8)) :
    texts.flatMap withReturns = withReturns texts.flatten := by
  rw [withReturns, List.flatten_eq_flatMap, List.flatMap_assoc]
  rfl

private theorem flatMap_withoutReturns (blocks : List (List UInt8)) :
    blocks.flatMap withoutReturns = withoutReturns blocks.flatten := by
  rw [withoutReturns, List.filter_flatten]
  rfl

/-- The returns that were added are the only ones. -/
theorem withoutReturns_withReturns (h : ret ∉ text) : withoutReturns (withReturns text) = text := by
  induction text with
  | nil => rfl
  | cons c text ih =>
    obtain ⟨hc, htext⟩ := not_or.mp (mt List.mem_cons.mpr h)
    have hrest : (withReturns text).filter (· ≠ ret) = text := ih htext
    rw [withReturns, List.flatMap_cons, ← withReturns, withoutReturns, List.filter_append, hrest]
    by_cases hnl : c = newline
    · rw [if_pos hnl, hnl]
      rfl
    · rw [if_neg hnl, List.filter_cons_of_pos (by simpa using Ne.symm hc)]
      rfl

/-- What the other side prints of a text that was sent: the text, unless a block fills the buffer. -/
theorem relay_strip_iff {size : Int} {texts blocks : List (List UInt8)} {wire : List UInt8}
    (htext : ∀ t ∈ texts, ret ∉ t) (hwire : relay (crlfAdd size) texts = .ok wire) (hcut : blocks.flatten = wire)
    (hlen : ∀ b ∈ blocks, (b.length : Int) ≤ dstsize) :
    relay (crlfStrip dstsize) blocks = .ok texts.flatten ↔
      ∀ b ∈ blocks, ¬(0 < (withoutReturns b).length ∧ ((withoutReturns b).length : Int) = dstsize) := by
  have hadd : ∀ b r, crlfAdd size b = .ok r → r.dst.take r.lenout.toNat = withReturns b := by
    intro b r hr
    rw [eq_of_crlfAdd hr, Int.toNat_natCast, List.take_length]
  have hstrip : ∀ b r, crlfStrip dstsize b = .ok r → r.dst.take r.lenout.toNat = withoutReturns b := by
    intro b r hr
    rw [eq_of_crlfStrip hr, Int.toNat_natCast, List.take_length]
  have htexts : ret ∉ texts.flatten := by
    intro hin
    obtain ⟨t, ht, hr⟩ := List.mem_flatten.mp hin
    exact htext t ht hr
  obtain ⟨-, rfl⟩ := (relay_eq_ok_iff hadd).mp hwire
  have hback : texts.flatten = blocks.flatMap withoutReturns := by
    rw [flatMap_withoutReturns, hcut, flatMap_withReturns, withoutReturns_withReturns htexts]
  rw [relay_eq_ok_iff hstrip, and_iff_left hback]
  refine forall₂_congr fun b hb ↦ ?_
  rw [crlfStrip_eq, exists_ok_ite]
  have hle : (withoutReturns b).length ≤ b.length := List.length_filter_le _ b
  have hb' := hlen b hb
  omega

/-- Each conversion does what it is for on every input but those whose result fills `dstsize` bytes exactly, where
`lenout >= dstsize` is tested after the byte has been counted, and, for `crlf_strip`, those of nothing but returns
with a negative size, which is not looked at. Text that is sent and printed comes back, however the blocks are cut,
if and only if no block fills the buffer. -/
theorem crlf_lossless_iff (dstsize : Int) (src : List UInt8) :
    (AddsExactly dstsize src ↔ ¬(0 < src.count newline ∧ (src.length + src.count newline : Int) = dstsize)) ∧
    (StripsExactly dstsize src ↔
      ¬(0 < (withoutReturns src).length ∧ ((withoutReturns src).length : Int) = dstsize) ∧
        ¬((withoutReturns src).length = 0 ∧ dstsize < 0)) ∧
    ∀ size texts blocks wire, (∀ t ∈ texts, ret ∉ t) → relay (crlfAdd size) texts = .ok wire →
      blocks.flatten = wire → (∀ b ∈ blocks, (b.length : Int) ≤ dstsize) →
        (relay (crlfStrip dstsize) blocks = .ok texts.flatten ↔
          ∀ b ∈ blocks, ¬(0 < (withoutReturns b).length ∧ ((withoutReturns b).length : Int) = dstsize)) :=
  ⟨addsExactly_iff, stripsExactly_iff,
    fun _ _ _ _ htext hwire hcut hlen ↦ relay_strip_iff htext hwire hcut hlen⟩

/-- Two lines that are read at once, and come back from blocks of two and three bytes through a buffer of four. -/
theorem crlf_lossless_iff_lines :
    relay (crlfAdd 8) [[97, newline, 98, newline]] = .ok [97, ret, newline, 98, ret, newline] ∧
      relay (crlfStrip 4) [[97, ret], [newline, 98, ret], [newline]] = .ok [97, newline, 98, newline] :=
  ⟨by decide, ((crlf_lossless_iff 4 []).2.2 8 [[97, newline, 98, newline]] [[97, ret], [newline, 98, ret], [newline]]
    [97, ret, newline, 98, ret, newline] (by decide) (by decide) (by decide) (by decide)).mpr (by decide)⟩

/-- A newline does not go into a buffer of two bytes, and a letter not into one of a single byte. -/
theorem crlf_quits_when_full :
    ¬AddsExactly 2 [newline] ∧ ¬StripsExactly 1 [97] ∧ relay (crlfAdd 3) [[97]] = .ok [97] ∧
      relay (crlfStrip 1) [[97]] = .error "crlf_strip: destination not big enough" :=
  ⟨fun h ↦ addsExactly_iff.mp h (by decide), fun h ↦ (stripsExactly_iff.mp h).1 (by decide), by decide, by decide⟩

end Unpv13e.Sock
