import Unpv13e.Base.Runs

/-!
# Messages in pieces

Library `Sctp`. `src/sctp/sctp_pdapircv.c:3–45`: `pdapi_recvmsg`, which collects the fragments of a message in a
buffer that is kept from call to call and that grows by `SCTP_PDAPI_INCR_SZ`. The fragments, what `realloc` grants
and what newly allocated memory holds are parameters.
-/

namespace Unpv13e.Sctp
open Unpv13e.Base

/-- `SCTP_PDAPI_INCR_SZ` -/
def incrSz : Nat := 65535

/-- `SCTP_PDAPI_NEED_MORE_THRESHOLD` -/
def needMoreThreshold : Nat := 1024

/-- The largest `int`. -/
def intMax : Nat := 2147483647

/-- `sctp_pdapi_readbuf`, as the memory it points to, and `sctp_pdapi_rdbuf_sz`. -/
structure Statics where
  readbuf : Option (List UInt8)
  rdbuf_sz : Nat

/-- The static variables when the program starts. -/
def start : Statics := ⟨none, 0⟩

/-- Room that is offered to the socket: where it begins, its length, and the size of the allocated memory. -/
structure Offer where
  off : Nat
  len : Int
  size : Nat

/-- Why a call does not return. -/
inductive Why
  /-- `err_quit` or `err_sys` -/
  | quit (msg : String)
  /-- an `int` has overflown -/
  | overflow
  /-- the socket has delivered more than it was offered -/
  | tooLong
  deriving DecidableEq

/-- What a call returns, the static variables then, and the value of `*rdlen`. -/
structure Returned where
  statics : Statics
  value : Option (List UInt8)
  rdlen : Nat

/-- The fragments of a message in the order of their delivery. The last one is flagged `MSG_EOR`. -/
structure Message where
  first : List UInt8
  others : List (List UInt8)

/-- The bytes of a message. -/
def Message.bytes (m : Message) : List UInt8 := m.first ++ m.others.flatten

/-- What `malloc` and `realloc` do: whether they grant a size, and what the memory they add holds. -/
structure Heap where
  grants : Nat → Bool
  fresh : Nat → List UInt8 → UInt8

/-- Memory made longer by `n` bytes. -/
def Heap.extend (heap : Heap) (buf : List UInt8) (n : Nat) : List UInt8 :=
  buf ++ (List.range n).map fun i ↦ heap.fresh i buf

/-- `bs` is stored at `off`. -/
def put (buf : List UInt8) (off : Nat) (bs : List UInt8) : List UInt8 :=
  buf.take off ++ bs ++ buf.drop (off + bs.length)

/-- More memory when less than `SCTP_PDAPI_NEED_MORE_THRESHOLD` bytes are left,
`src/sctp/sctp_pdapircv.c:31–38`. -/
def grow (heap : Heap) (buf : List UInt8) (rdbuf_sz at_in_buf : Nat) : Except Why (List UInt8 × Nat) :=
  if (rdbuf_sz : Int) - at_in_buf < needMoreThreshold then
    if rdbuf_sz + incrSz > intMax then .error .overflow
    else if heap.grants (rdbuf_sz + incrSz) then .ok (heap.extend buf incrSz, rdbuf_sz + incrSz)
    else .error (.quit "sctp_pdapi ran out of memory")
  else .ok (buf, rdbuf_sz)

/-- The loop of `pdapi_recvmsg`, `src/sctp/sctp_pdapircv.c:29–42`, with the room it offers. -/
def collect (heap : Heap) (buf : List UInt8) (rdbuf_sz at_in_buf : Nat) :
    List (List UInt8) → List Offer × Except Why Returned
  | [] => ([], .ok ⟨⟨some buf, rdbuf_sz⟩, some buf, at_in_buf⟩)
  | fragment :: others =>
    match grow heap buf rdbuf_sz at_in_buf with
    | .error why => ([], .error why)
    | .ok (buf, rdbuf_sz) =>
      let offer : Offer := ⟨at_in_buf, rdbuf_sz - at_in_buf, buf.length⟩
      if (fragment.length : Int) > offer.len then ([offer], .error .tooLong)
      else
        let r := collect heap (put buf at_in_buf fragment) rdbuf_sz (at_in_buf + fragment.length) others
        (offer :: r.1, r.2)

/-- `pdapi_recvmsg` after the buffer has been allocated, `src/sctp/sctp_pdapircv.c:22–44`. -/
def receive (heap : Heap) (buf : List UInt8) (rdbuf_sz : Nat) (m : Message) : List Offer × Except Why Returned :=
  let offer : Offer := ⟨0, rdbuf_sz, buf.length⟩
  if (m.first.length : Int) > offer.len then ([offer], .error .tooLong)
  else if m.first.length < 1 then ([offer], .ok ⟨⟨some buf, rdbuf_sz⟩, none, 0⟩)
  else
    let r := collect heap (put buf 0 m.first) rdbuf_sz m.first.length m.others
    (offer :: r.1, r.2)

/-- `pdapi_recvmsg`, `src/sctp/sctp_pdapircv.c:7–45`, with the room it offers. -/
def pdapi_recvmsg (heap : Heap) (s : Statics) (m : Message) : List Offer × Except Why Returned :=
  match s.readbuf with
  | some buf => receive heap buf s.rdbuf_sz m
  | none =>
    if heap.grants incrSz then receive heap (heap.extend [] incrSz) incrSz m
    else ([], .error (.quit "malloc error"))

/-- The static variables after a call that returns. -/
def afterCall (heap : Heap) (s : Statics) (m : Message) : Except Why Statics :=
  (pdapi_recvmsg heap s m).2.map (·.statics)

/-! ### Memory -/

/-- The room lies in the allocated memory. -/
def Offer.Inside (o : Offer) : Prop := 0 ≤ o.len ∧ o.off + o.len ≤ o.size

variable {heap : Heap} {buf acc bs : List UInt8} {n off rdbuf_sz : Nat} {others : List (List UInt8)}

private theorem length_extend (heap : Heap) (buf : List UInt8) (n : Nat) :
    (heap.extend buf n).length = buf.length + n := by
  rw [Heap.extend, List.length_append, List.length_map, List.length_range]

private theorem length_put (h : off + bs.length ≤ buf.length) : (put buf off bs).length = buf.length := by
  rw [put, List.length_append, List.length_append, List.length_take, List.length_drop]
  omega

private theorem take_put (h : off + bs.length ≤ buf.length) :
    (put buf off bs).take (off + bs.length) = buf.take off ++ bs := by
  have hlen : off + bs.length = (buf.take off ++ bs).length := by
    rw [List.length_append, List.length_take]
    omega
  rw [put, hlen, List.take_left]

/-! ### The invariant -/

/-- The allocated memory and its size: a positive number of increments, as far as an `int` can say. -/
structure Allocated (buf : List UInt8) (rdbuf_sz : Nat) : Prop where
  length : buf.length = rdbuf_sz
  units : ∃ k, 0 < k ∧ rdbuf_sz = incrSz * k
  le : rdbuf_sz ≤ intMax

/-- What has been received so far stands at the beginning of the memory. -/
structure Collected (buf : List UInt8) (rdbuf_sz : Nat) (acc : List UInt8) : Prop where
  allocated : Allocated buf rdbuf_sz
  fits : acc.length ≤ rdbuf_sz
  taken : buf.take acc.length = acc

/-- The static variables between two calls. -/
structure Statics.WF (s : Statics) : Prop where
  none : s.readbuf = none → s.rdbuf_sz = 0
  some : ∀ buf, s.readbuf = some buf → Allocated buf s.rdbuf_sz

private theorem wf_some (h : Allocated buf rdbuf_sz) : Statics.WF ⟨some buf, rdbuf_sz⟩ :=
  ⟨fun hnone ↦ (nomatch hnone), fun _ hb ↦ Option.some.inj hb ▸ h⟩

/-- A fragment more. -/
theorem Collected.put (h : Collected buf rdbuf_sz acc) (hroom : acc.length + bs.length ≤ rdbuf_sz) :
    Collected (put buf acc.length bs) rdbuf_sz (acc ++ bs) := by
  have hlen : acc.length + bs.length ≤ buf.length := by rwa [h.allocated.length]
  refine ⟨⟨(length_put hlen).trans h.allocated.length, h.allocated.units, h.allocated.le⟩, ?_, ?_⟩
  · rwa [List.length_append]
  · rw [List.length_append, take_put hlen, h.taken]

/-- The first fragment. -/
theorem collected_first (h : Allocated buf rdbuf_sz) (hroom : bs.length ≤ rdbuf_sz) :
    Collected (Sctp.put buf 0 bs) rdbuf_sz bs := by
  have hempty : Collected buf rdbuf_sz [] := ⟨h, Nat.zero_le _, List.take_zero⟩
  exact hempty.put (by rw [List.length_nil]; omega)

/-- After `grow` there is room, and what has been received is still there. -/
theorem Collected.grow {p : List UInt8 × Nat} (h : Collected buf rdbuf_sz acc)
    (hgrow : grow heap buf rdbuf_sz acc.length = .ok p) :
    Collected p.1 p.2 acc ∧ acc.length + needMoreThreshold ≤ p.2 ∧ rdbuf_sz ≤ p.2 := by
  have hfits := h.fits
  unfold Sctp.grow at hgrow
  split at hgrow
  · split at hgrow
    · cases hgrow
    next hmax =>
    split at hgrow
    · cases hgrow
      obtain ⟨k, hk, hunits⟩ := h.allocated.units
      refine ⟨⟨⟨?_, ⟨k + 1, Nat.succ_pos k, ?_⟩, Nat.le_of_not_lt hmax⟩, ?_, ?_⟩, ?_, Nat.le_add_right _ _⟩
      · rw [length_extend, h.allocated.length]
      · rw [Nat.mul_succ, hunits]
      · exact Nat.le_add_right_of_le hfits
      · rw [Heap.extend, List.take_append_of_le_length (by rw [h.allocated.length]; exact hfits), h.taken]
      · dsimp only
        unfold incrSz needMoreThreshold
        omega
    · cases hgrow
  · next hroom =>
    cases hgrow
    refine ⟨h, ?_, le_rfl⟩
    dsimp only
    omega

/-- The most bytes of a message for which the size of the buffer stays an `int`, however it is cut. -/
def maxBytes : Nat := incrSz * 32768 - needMoreThreshold + 1

/-- Why `grow` fails. -/
theorem Collected.grow_error {why : Why} (h : Collected buf rdbuf_sz acc)
    (hgrow : Sctp.grow heap buf rdbuf_sz acc.length = .error why) :
    (why = .overflow ∧ maxBytes ≤ acc.length) ∨ ∃ msg n, why = .quit msg ∧ heap.grants n = false := by
  unfold Sctp.grow at hgrow
  split at hgrow
  · next hleft =>
    split at hgrow
    · next hmax =>
      cases hgrow
      obtain ⟨k, hk, hunits⟩ := h.allocated.units
      have hle := h.allocated.le
      unfold incrSz at hunits hmax
      unfold intMax at hle hmax
      unfold needMoreThreshold at hleft
      refine .inl ⟨rfl, ?_⟩
      unfold maxBytes incrSz needMoreThreshold
      omega
    split at hgrow
    · cases hgrow
    · next hgrant =>
      cases hgrow
      exact .inr ⟨_, _, rfl, Bool.eq_false_iff.mpr hgrant⟩
  · cases hgrow

/-! ### The loop -/

/-- What the loop returns: the message in the buffer, which has not become smaller. -/
structure Returned.Complete (rdbuf_sz : Nat) (bytes : List UInt8) (r : Returned) : Prop where
  value : ∃ buf, r.value = some buf ∧ r.statics.readbuf = some buf ∧ buf.take r.rdlen = bytes
  rdlen : r.rdlen = bytes.length
  wf : r.statics.WF
  grows : rdbuf_sz ≤ r.statics.rdbuf_sz

/-- How a call ends: it returns the message, or it ends in the only ways it can fail. Its size overflows with a
message of more than `maxBytes` bytes only, unless some of the other fragments are empty. -/
def Ends (heap : Heap) (rdbuf_sz : Nat) (others : List (List UInt8)) (bytes : List UInt8) :
    Except Why Returned → Prop
  | .ok r => r.Complete rdbuf_sz bytes
  | .error why =>
    why = .tooLong ∨ (why = .overflow ∧ ((∀ f ∈ others, f ≠ []) → maxBytes < bytes.length)) ∨
      ∃ msg n, why = .quit msg ∧ heap.grants n = false

/-- The room that is offered in the loop. -/
theorem collect_offers (h : Collected buf rdbuf_sz acc) :
    ∀ o ∈ (collect heap buf rdbuf_sz acc.length others).1, o.Inside ∧ (needMoreThreshold : Int) ≤ o.len := by
  induction others generalizing buf rdbuf_sz acc with
  | nil => exact fun o ho ↦ absurd ho List.not_mem_nil
  | cons fragment others ih =>
    rw [collect]
    cases hgrow : grow heap buf rdbuf_sz acc.length with
    | error why => exact fun o ho ↦ absurd ho List.not_mem_nil
    | ok p =>
      obtain ⟨hcollected, hroom, -⟩ := h.grow hgrow
      have hsize := hcollected.allocated.length
      have hoffer : Offer.Inside ⟨acc.length, p.2 - acc.length, p.1.length⟩ ∧
          (needMoreThreshold : Int) ≤ p.2 - acc.length := by
        unfold Offer.Inside
        dsimp only
        omega
      dsimp only
      split
      · intro o ho
        rw [List.mem_singleton.mp ho]
        exact hoffer
      · next hfits =>
        intro o ho
        rcases List.mem_cons.mp ho with rfl | hrest
        · exact hoffer
        · have hnext : Collected (put p.1 acc.length fragment) p.2 (acc ++ fragment) := hcollected.put (by omega)
          rw [← List.length_append] at hrest
          exact ih hnext o hrest

/-- How the loop ends. -/
theorem collect_ends (h : Collected buf rdbuf_sz acc) :
    Ends heap rdbuf_sz others (acc ++ others.flatten) (collect heap buf rdbuf_sz acc.length others).2 := by
  induction others generalizing buf rdbuf_sz acc with
  | nil =>
    rw [List.flatten_nil, List.append_nil]
    exact ⟨⟨buf, rfl, rfl, h.taken⟩, rfl, wf_some h.allocated, le_rfl⟩
  | cons fragment others ih =>
    rw [collect]
    cases hgrow : grow heap buf rdbuf_sz acc.length with
    | error why =>
      rcases h.grow_error hgrow with ⟨hwhy, hmax⟩ | hquit
      · refine .inr (.inl ⟨hwhy, fun hne ↦ ?_⟩)
        have hpos := List.length_pos_iff.mpr (hne fragment List.mem_cons_self)
        rw [List.length_append, List.flatten_cons, List.length_append]
        omega
      · exact .inr (.inr hquit)
    | ok p =>
      obtain ⟨hcollected, -, hsize⟩ := h.grow hgrow
      dsimp only
      split
      · exact .inl rfl
      · next hfits =>
        have hnext : Collected (put p.1 acc.length fragment) p.2 (acc ++ fragment) := hcollected.put (by omega)
        have hends := ih hnext
        rw [List.length_append, List.append_assoc, ← List.flatten_cons] at hends
        cases hresult : (collect heap (put p.1 acc.length fragment) p.2 (acc.length + fragment.length) others).2 with
        | error why =>
          rw [hresult] at hends
          rcases hends with htoo | ⟨hwhy, hmax⟩ | hquit
          · exact .inl htoo
          · exact .inr (.inl ⟨hwhy, fun hne ↦ hmax fun f hf ↦ hne f (List.mem_cons_of_mem _ hf)⟩)
          · exact .inr (.inr hquit)
        | ok r =>
          rw [hresult] at hends
          exact ⟨hends.value, hends.rdlen, hends.wf, hsize.trans hends.grows⟩

/-! ### The calls -/

/-- A call with memory allocated. -/
theorem receive_spec (heap : Heap) {m : Message} (h : Allocated buf rdbuf_sz) (hfirst : m.first ≠ []) :
    (∀ o ∈ (receive heap buf rdbuf_sz m).1, o.Inside) ∧
      (∀ o ∈ (receive heap buf rdbuf_sz m).1.tail, (needMoreThreshold : Int) ≤ o.len) ∧
      Ends heap rdbuf_sz m.others m.bytes (receive heap buf rdbuf_sz m).2 := by
  have hoffer : Offer.Inside ⟨0, rdbuf_sz, buf.length⟩ := by
    have hlen := h.length
    unfold Offer.Inside
    dsimp only
    omega
  have hpos := List.length_pos_iff.mpr hfirst
  unfold receive
  dsimp only
  split
  · exact ⟨fun o ho ↦ List.mem_singleton.mp ho ▸ hoffer, fun o ho ↦ absurd ho List.not_mem_nil, .inl rfl⟩
  next hfits =>
  rw [if_neg (by omega)]
  have hcollected : Collected (put buf 0 m.first) rdbuf_sz m.first := collected_first h (by omega)
  refine ⟨fun o ho ↦ ?_, fun o ho ↦ (collect_offers hcollected o ho).2, collect_ends hcollected⟩
  rcases List.mem_cons.mp ho with rfl | hrest
  · exact hoffer
  · exact (collect_offers hcollected o hrest).1

private theorem allocated_first (heap : Heap) : Allocated (heap.extend [] incrSz) incrSz :=
  ⟨(length_extend heap [] incrSz).trans (Nat.zero_add _), ⟨1, Nat.one_pos, rfl⟩, by decide⟩

private theorem wf_receive {m : Message} {r : Returned} (h : Allocated buf rdbuf_sz)
    (hr : (receive heap buf rdbuf_sz m).2 = .ok r) : r.statics.WF := by
  by_cases hfirst : m.first = []
  · have hempty : receive heap buf rdbuf_sz m = ([⟨0, rdbuf_sz, buf.length⟩], .ok ⟨⟨some buf, rdbuf_sz⟩, none, 0⟩) := by
      simp [receive, hfirst]
    rw [hempty] at hr
    cases hr
    exact wf_some h
  · have hends := (receive_spec heap h hfirst).2.2
    rw [hr] at hends
    exact hends.wf

/-- The buffer is there when the first fragment is asked for, unless memory has run out. -/
theorem pdapi_recvmsg_cases {s : Statics} {m : Message} (hs : s.WF) :
    (∃ buf rdbuf_sz, pdapi_recvmsg heap s m = receive heap buf rdbuf_sz m ∧ Allocated buf rdbuf_sz ∧
      s.rdbuf_sz ≤ rdbuf_sz) ∨
    (pdapi_recvmsg heap s m = ([], .error (.quit "malloc error")) ∧ heap.grants incrSz = false) := by
  unfold pdapi_recvmsg
  cases hbuf : s.readbuf with
  | some buf => exact .inl ⟨buf, s.rdbuf_sz, rfl, hs.some buf hbuf, le_rfl⟩
  | none =>
    dsimp only
    split
    · refine .inl ⟨_, _, rfl, allocated_first heap, ?_⟩
      rw [hs.none hbuf]
      exact Nat.zero_le _
    · next hgrant => exact .inr ⟨rfl, Bool.eq_false_iff.mpr hgrant⟩

/-- A call that returns keeps the static variables in order, whatever it has been given. -/
theorem wf_afterCall {s t : Statics} {m : Message} (hs : s.WF) (h : afterCall heap s m = .ok t) : t.WF := by
  unfold afterCall at h
  rcases pdapi_recvmsg_cases hs with ⟨buf, rdbuf_sz, hcall, hbuf, -⟩ | ⟨hcall, -⟩
  · rw [hcall] at h
    cases hr : (receive heap buf rdbuf_sz m).2 with
    | error why =>
      rw [hr] at h
      cases h
    | ok r =>
      rw [hr] at h
      cases h
      exact wf_receive hbuf hr
  · rw [hcall] at h
    cases h

/-- The static variables after any calls. -/
theorem wf_afterCalls {s t : Statics} {earlier : List Message} (hs : s.WF)
    (h : runActs (afterCall heap) s earlier = .ok t) : t.WF := by
  induction earlier generalizing s with
  | nil =>
    cases h
    exact hs
  | cons m earlier ih =>
    obtain ⟨u, hu, hrest⟩ := exists_of_bind_ok h
    exact ih (wf_afterCall hs hu) hrest

/-- A heap that grants everything. -/
def ample : Heap := ⟨fun _ ↦ true, fun _ _ ↦ 0⟩

/-- Fragments that fill the room each time, until the buffer cannot become larger, and one more. -/
theorem collect_overflows {k j : Nat} (b : UInt8) (last : List UInt8) (hsum : k + j = 32768)
    (h : buf.length = incrSz * k) :
    (collect ample buf (incrSz * k) (incrSz * k) (List.replicate j (List.replicate incrSz b) ++ [last])).2 =
      .error .overflow := by
  have hleft (n : Nat) : (n : Int) - n < needMoreThreshold := by
    rw [sub_self]
    decide
  induction j generalizing k buf with
  | zero =>
    rw [Nat.add_zero] at hsum
    rw [hsum, List.replicate_zero, List.nil_append, collect, grow, if_pos (hleft _), if_pos (by decide)]
  | succ j ih =>
    rw [List.replicate_succ, List.cons_append, collect, grow, if_pos (hleft _)]
    have hmax : ¬incrSz * k + incrSz > intMax := by
      unfold incrSz intMax
      omega
    have hgrant : ample.grants (incrSz * k + incrSz) = true := rfl
    rw [if_neg hmax, if_pos hgrant]
    dsimp only
    rw [List.length_replicate, if_neg (by omega), ← Nat.mul_succ]
    refine ih (by omega) ?_
    rw [length_put, length_extend, h, Nat.mul_succ]
    rw [length_extend, List.length_replicate, h]

private theorem receive_collects {m : Message} (hfits : m.first.length ≤ rdbuf_sz) (hfirst : 1 ≤ m.first.length) :
    (receive heap buf rdbuf_sz m).2 = (collect heap (put buf 0 m.first) rdbuf_sz m.first.length m.others).2 := by
  have hint : ¬(m.first.length : Int) > rdbuf_sz := by omega
  unfold receive
  dsimp only
  rw [if_neg hint, if_neg (Nat.not_lt.mpr hfirst)]

private theorem pdapi_recvmsg_start (m : Message) :
    pdapi_recvmsg ample start m = receive ample (ample.extend [] incrSz) incrSz m := rfl

private theorem length_full (j : Nat) (b : UInt8) (last : List UInt8) :
    (List.replicate j (List.replicate incrSz b) ++ [last]).flatten.length = j * incrSz + last.length := by
  rw [List.flatten_append, List.length_append, List.flatten_singleton, List.length_flatten, List.map_replicate,
    List.sum_replicate, List.length_replicate]
  rfl

end Unpv13e.Sctp
