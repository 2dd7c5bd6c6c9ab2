import Unpv13e.Sigio.DgEcho

/-!
# When the signal handler gives up

Library `Sigio`. `sig_io` looks at `nqueue` before it reads (`src/sigio/dgecho01.c:85–92`), so that it quits
after the datagram that fills the queue, whether another one waits or not; and `nqueue` counts a datagram that
has been sent until the main loop has come to `nqueue--`.
-/

namespace Unpv13e.Sigio.DgEcho
open Unpv13e.Base

/-- A datagram waits, and as many as there are entries have been read and not been sent. -/
def Overflow (s : DgEcho) : Prop := s.socket ≠ [] ∧ s.received.length = s.echoed.length + qSize

/-- The entries are full and no datagram waits; or one of them has been sent, and `nqueue` not been
decremented. -/
def Full (s : DgEcho) : Prop :=
  (s.received.length = s.echoed.length + qSize ∧ s.socket = []) ∨
    (s.received.length + 1 = s.echoed.length + qSize ∧ s.lag = 1)

variable {s t : DgEcho} {q : List Datagram} {a : Act} {clilen nread : Nat} {acts : List Act}

/-- `nqueue` in terms of what has been read and sent. -/
private theorem nqueue_eq (h : Queued s q) : s.nqueue = s.received.length - s.echoed.length + s.lag := by
  have hlen := congrArg List.length h.order
  have hcounted := h.counted
  rw [List.length_map, List.length_append] at hlen
  omega

private theorem lag_le (s : DgEcho) : s.lag ≤ 1 := by
  unfold lag
  split
  · exact Nat.le_refl 1
  · exact Nat.zero_le 1

/-- The handler quits in a turn of its loop that begins with a full queue. -/
private theorem quit_cases (h : s.step a = .ok t) (hs : s.handler ≠ .quit) (ht : t.handler = .quit) :
    a = .read ∧ (∃ nread, s.handler = .reading nread) ∧ (qSize : Int) ≤ s.nqueue := by
  cases a with
  | arrive d =>
    unfold step at h
    dsimp only at h
    split at h
    · cases h
      exact absurd ht hs
    · cases h
  | signal =>
    unfold step at h
    dsimp only at h
    split at h
    · cases h
      cases ht
    · cases h
  | go =>
    unfold step at h
    dsimp only at h
    split at h
    · cases h
      rw [handler_go] at ht
      exact absurd ht hs
    · cases h
  | read =>
    unfold step at h
    dsimp only at h
    split at h
    · next nread hread =>
      refine ⟨rfl, ⟨nread, hread⟩, ?_⟩
      unfold DgEcho.read at h
      split at h
      · next hge => exact hge
      · split at h
        · cases h
          cases ht
        · split at h
          · cases h
          · split at h
            · cases h
              cases ht
            · cases h
    · cases h

/-- And does in every such turn. -/
private theorem quit_of_full (hread : s.handler = .reading nread) (hge : (qSize : Int) ≤ s.nqueue) :
    s.step .read = .ok { s with handler := .quit } := by
  unfold step
  dsimp only
  rw [hread]
  dsimp only
  unfold DgEcho.read
  exact if_pos hge

/-- Along a run the handler quits only on an overflow exactly when no turn of its loop begins with full entries
and an empty socket, nor between `Sendto` and `nqueue--` with one entry less. -/
theorem quits_on_overflow :
    (∀ acts' a s t, acts' ++ [a] <+: acts → runActs step (start clilen) acts' = .ok s → s.step a = .ok t →
      s.handler ≠ .quit → t.handler = .quit → s.Overflow) ↔
    ∀ acts' s nread, acts' ++ [Act.read] <+: acts → runActs step (start clilen) acts' = .ok s →
      s.handler = .reading nread → ¬ s.Full := by
  constructor
  · intro hquits acts' s nread hpre hs hread hfull
    obtain ⟨q, hq⟩ := queued_of_run (run_of_runActs _ _ _ _ hs)
    have hnqueue := nqueue_eq hq
    have hlag := lag_le s
    have hge : (qSize : Int) ≤ s.nqueue := by
      rcases hfull with ⟨hlen, -⟩ | ⟨hlen, hone⟩
      · omega
      · omega
    have hnot : s.handler ≠ .quit := by
      rw [hread]
      exact nofun
    obtain ⟨hwaits, hlen⟩ := hquits acts' .read s _ hpre hs (quit_of_full hread hge) hnot rfl
    rcases hfull with ⟨-, hempty⟩ | ⟨hone, -⟩
    · exact hwaits hempty
    · omega
  · intro hfull acts' a s t hpre hs ht hnot hquit
    obtain ⟨q, hq⟩ := queued_of_run (run_of_runActs _ _ _ _ hs)
    have hnqueue := nqueue_eq hq
    have hbounded := hq.bounded
    have hlag := lag_le s
    obtain ⟨rfl, ⟨nread, hread⟩, hge⟩ := quit_cases ht hnot hquit
    have hno := hfull acts' s nread hpre hs hread
    unfold Full at hno
    rw [not_or, not_and, not_and] at hno
    have hzero : s.lag = 0 := by
      by_contra hne
      exact hno.2 (by omega) (by omega)
    have hlen : s.received.length = s.echoed.length + qSize := by omega
    exact ⟨hno.1 hlen, hlen⟩

/-- The process starts, eight datagrams arrive, and one signal has all of them read. -/
def burst : List Act :=
  [Act.go, Act.go] ++ List.replicate 8 (Act.arrive ⟨[1, 2], [3]⟩) ++ [Act.go, Act.signal] ++
    List.replicate 8 Act.read

/-- Nothing else arrives, and the handler quits. -/
theorem quits_without_overflow : ∃ s t, runActs step (start 1) burst = .ok s ∧ s.step .read = .ok t ∧
    s.handler ≠ .quit ∧ t.handler = .quit ∧ s.socket = [] := by
  have hrun : (Except.ok (start 1) >>= fun s ↦ runActs step s burst).toOption.map
      (fun s ↦ decide (s.handler = .reading 8 ∧ s.nqueue = 8 ∧ s.socket = [])) = some true := by
    decide +kernel
  obtain ⟨s₀, s, hstart, hs, hend⟩ := exists_of_runActs hrun
  cases hstart
  obtain ⟨hread, hnqueue, hempty⟩ := of_decide_eq_true hend
  have hge : (qSize : Int) ≤ s.nqueue := by
    rw [hnqueue]
    decide
  have hnot : s.handler ≠ .quit := by
    rw [hread]
    exact nofun
  exact ⟨s, { s with handler := .quit }, hs, quit_of_full hread hge, hnot, rfl, hempty⟩

end Unpv13e.Sigio.DgEcho
