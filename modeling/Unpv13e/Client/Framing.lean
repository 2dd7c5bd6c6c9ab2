import Unpv13e.Client.Reader

/-!
# Cuts of the stream a client reads

Library `Client`. Which ways of cutting the stream into the results of `read` leave the lines of
a session as they were sent: the cut after the line `9` must fall between two results, for the
bytes after it stay in the buffer of `Readline`, and in the game every result must hold whole
lines.
-/

namespace Unpv13e.Client
open Unpv13e.Base Unpv13e.Lib

/-- The result of a `read` holds whole lines and fits the buffer, and a line of the chat comes
alone and fits its row. -/
def WholeLines (x : ReadResult) : Prop :=
  x.bytes.length < maxLine ∧ (complete '\n' x.bytes).flatten = x.bytes ∧
    ∀ l ∈ complete '\n' x.bytes, IsChat l → complete '\n' x.bytes = [l] ∧ l.length < 153

instance (x : ReadResult) : Decidable (WholeLines x) := inferInstanceAs (Decidable (_ ∧ _))

/-- The lines of a game: no NUL, kinds the client knows, and the result only at the end. -/
private structure GameLines (game : List Text) : Prop where
  isRecord : ∀ l ∈ game, IsRecord '\n' l
  noNul : ∀ l ∈ game, Char.ofNat 0 ∉ l
  known : ∀ l ∈ game, opOf l ∈ gameOps
  result : ∀ l ∈ game.dropLast, ¬ IsResult l

private theorem mem_dropLast_append {L game : List Text} {l : Text} (hl : l ∈ L.dropLast) :
    l ∈ (L ++ game).dropLast := by
  cases game with
  | nil => simpa using hl
  | cons q game =>
    rw [List.dropLast_append_of_ne_nil (List.cons_ne_nil q game)]
    exact List.mem_append_left _ (List.dropLast_subset _ hl)

private theorem GameLines.of_append {L game : List Text} (h : GameLines (L ++ game)) :
    GameLines game where
  isRecord l hl := h.isRecord l (List.mem_append_right _ hl)
  noNul l hl := h.noNul l (List.mem_append_right _ hl)
  known l hl := h.known l (List.mem_append_right _ hl)
  result l hl := by
    refine h.result l ?_
    have hne : game ≠ [] := by rintro rfl; cases hl
    rw [List.dropLast_append_of_ne_nil hne]
    exact List.mem_append_right _ hl

/-- A line of the chat has its text after three characters. -/
private theorem three_le_of_isChat {l : Text} (hl : IsRecord '\n' l) (hc : IsChat l) :
    3 ≤ l.length := by
  obtain ⟨body, rfl, hb⟩ := hl
  match body, hc with
  | [], hc => exact absurd hc (by decide)
  | [a], hc => 
    have : (a, '\n') = ('2', '1') := hc
    exact absurd (Prod.mk.inj this).2 (by decide)
  | a :: b :: body, _ => simp

/-- What the chat record keeps of a segment of whole lines is right when a chat line is alone. -/
private theorem copies_right {bytes : Text} {L : List Text} (hL : ∀ l ∈ L, IsRecord '\n' l)
    (hb : bytes = L.flatten) :
    ((∀ l ∈ L, IsChat l → (bytes.drop 3).length < 150) ∧
      (L.filter fun l ↦ IsChat l).map (fun _ ↦ bytes.drop 3) =
        (L.filter fun l ↦ IsChat l).map (List.drop 3)) ↔
    ∀ l ∈ L, IsChat l → L = [l] ∧ l.length < 153 := by
  constructor
  · rintro ⟨hshort, hcopy⟩ l hl hc
    have hdrop : bytes.drop 3 = l.drop 3 :=
      List.map_inj_left.mp hcopy l (List.mem_filter.mpr ⟨hl, by simpa using hc⟩)
    have hlen := congrArg List.length hdrop
    have h3 := three_le_of_isChat (hL l hl) hc
    have hlt := hshort l hl hc
    obtain ⟨pre, post, rfl⟩ := List.append_of_mem hl
    have hsum := congrArg List.length hb
    simp only [List.flatten_append, List.flatten_cons, List.length_append, List.length_drop]
      at hlen hsum hlt
    have hpre : pre = [] := by
      cases pre with
      | nil => rfl
      | cons q pre =>
        have := List.length_pos_iff.mpr (hL q List.mem_cons_self).ne_nil
        simp only [List.flatten_cons, List.length_append] at hsum
        omega
    have hpost : post = [] := by
      cases post with
      | nil => rfl
      | cons q post =>
        have := List.length_pos_iff.mpr (hL q (by simp)).ne_nil
        simp only [List.flatten_cons, List.length_append] at hsum
        omega
    subst hpre hpost
    exact ⟨rfl, by omega⟩
  · intro h
    constructor
    · intro l hl hc
      obtain ⟨rfl, hlen⟩ := h l hl hc
      have h3 := three_le_of_isChat (hL l hl) hc
      rw [hb]
      simp
      omega
    · apply List.map_inj_left.mpr
      intro l hl
      obtain ⟨hl, hc⟩ := List.mem_filter.mp hl
      obtain ⟨rfl, -⟩ := h l hl (by simpa using hc)
      rw [hb]
      simp

namespace Reader

/-- In the game exactly the results of whole lines are dispatched and recorded as they were
sent. -/
private theorem run_game_iff {game : List Text} {cuts : List ReadResult} {s : Reader}
    (hs : s.place = .game) (hcuts : s.cuts = cuts) (hg : GameLines game) (hdata : DataOnly cuts)
    (hbytes : bytesOf cuts = game.flatten) :
    (∃ s', s.run = .ok s' ∧ s'.dispatched = s.dispatched ++ game ∧
      s'.record = s.record ++ (game.filter fun l ↦ IsChat l).map (List.drop 3)) ↔
    ∀ x ∈ cuts, WholeLines x := by
  induction cuts generalizing game s with
  | nil =>
    have hgame : game = [] := by
      cases game with
      | nil => rfl
      | cons l game =>
        have := (hg.isRecord l List.mem_cons_self).ne_nil
        simp [bytesOf] at hbytes
        exact absurd hbytes.1.symm (fun h ↦ this h.symm)
    subst hgame
    refine ⟨fun _ x hx ↦ absurd hx List.not_mem_nil, fun _ ↦ ⟨s, run_none ?_, by simp, by simp⟩⟩
    unfold step
    rw [hs]
    dsimp only
    rw [hcuts]
  | cons x cuts ih =>
    rw [run_game hs hcuts, List.forall_mem_cons]
    obtain ⟨first, more, hx⟩ := hdata x List.mem_cons_self
    have hdata' : DataOnly cuts := fun y hy ↦ hdata y (List.mem_cons_of_mem _ hy)
    have hsplit : x.bytes ++ bytesOf cuts = game.flatten := by
      rw [← hbytes]
      rfl
    obtain ⟨tail, game', hfront, hgame, hlater, htail⟩ := exists_segment hg.isRecord hsplit
    have hread : readGame { s with cuts := cuts } x =
        if x.bytes.length < maxLine then
          splitLines x.bytes [] x.bytes { s with cuts := cuts }
        else .error .outOfBounds := by
      rw [hx]
      rfl
    unfold WholeLines
    rw [hread]
    generalize hL : complete '\n' x.bytes = L at hfront hgame ⊢
    by_cases hlen : x.bytes.length < maxLine
    swap
    · -- the byte after the buffer is overwritten
      rw [if_neg hlen]
      exact ⟨fun h ↦ by simp [bind, Except.bind] at h, fun h ↦ absurd h.1.1 hlen⟩
    rw [if_pos hlen]
    have hrec : ∀ l ∈ L, IsRecord '\n' l := fun l hl ↦
      hg.isRecord l (hgame ▸ List.mem_append_left _ hl)
    have hnul : Char.ofNat 0 ∉ x.bytes := by
      intro hm
      have : Char.ofNat 0 ∈ game.flatten := hsplit ▸ List.mem_append_left _ hm
      obtain ⟨l, hl, hm⟩ := List.mem_flatten.mp this
      exact hg.noNul l hl hm
    have hdrop : L.dropLast ⊆ game.dropLast := by
      rw [hgame]
      exact fun l hl ↦ mem_dropLast_append hl
    have hover (hne : game' ≠ []) : ∀ l ∈ L, ¬ IsResult l := by
      intro l hl
      refine hg.result l ?_
      rw [hgame, List.dropLast_append_of_ne_nil hne]
      exact List.mem_append_left _ hl
    have hlines := splitLines_lines (s := { s with cuts := cuts }) (L := L) hs hnul
      (fun l hl ↦ ⟨hrec l hl, hg.noNul l (hgame ▸ List.mem_append_left _ hl),
        hg.known l (hgame ▸ List.mem_append_left _ hl)⟩)
      ⟨htail, fun h ↦ hnul (hfront ▸ List.mem_append_right _ h)⟩
      (fun l hl ↦ hg.result l (hdrop hl))
      (fun ht ↦ hover (by rintro rfl; exact ht (List.append_eq_nil_iff.mp hlater).1))
    rw [← hfront] at hlines
    rw [hlines]
    have hwhole : L.flatten = x.bytes ↔ tail = [] := by
      rw [hfront]
      simp
    rw [hwhole]
    by_cases htail' : tail = []
    swap
    · -- the loop runs past what was read
      rw [if_neg fun h ↦ htail' h.1]
      exact ⟨fun h ↦ by simp [bind, Except.bind] at h, fun h ↦ absurd h.1.2.1 htail'⟩
    subst htail'
    rw [List.append_nil] at hfront
    by_cases hshort : ∀ l ∈ L, IsChat l → (x.bytes.drop 3).length < 150
    swap
    · -- a row of the chat record is overrun
      rw [if_neg fun h ↦ hshort h.2]
      exact ⟨fun h ↦ by simp [bind, Except.bind] at h, fun h ↦ absurd ((copies_right hrec hfront).mpr h.1.2.2).1 hshort⟩
    rw [if_pos ⟨rfl, hshort⟩, ok_bind]
    obtain ⟨t, ht⟩ : ∃ t, after x.bytes L { s with cuts := cuts } = t := ⟨_, rfl⟩
    rw [ht]
    have htcuts : t.cuts = cuts := by rw [← ht]; rfl
    have htplace : t.place = if ∃ l ∈ L, IsResult l then .lobby else .game := by rw [← ht]; rfl
    have htdisp : t.dispatched = s.dispatched ++ L := by rw [← ht]; rfl
    have htrec : t.record = s.record ++
        (L.filter fun l ↦ IsChat l).map (fun _ ↦ x.bytes.drop 3) := by rw [← ht]; rfl
    have hroom : t.place ≠ .room := by
      rw [htplace]
      split
      · exact Place.noConfusion
      · exact Place.noConfusion
    have hrest : (∃ s', t.run = .ok s' ∧ s'.dispatched = t.dispatched ++ game' ∧
        s'.record = t.record ++ (game'.filter fun l ↦ IsChat l).map (List.drop 3)) ↔
        ∀ x ∈ cuts, WholeLines x := by
      by_cases hres : ∃ l ∈ L, IsResult l
      · have hgame' : game' = [] := by
          by_contra hne
          obtain ⟨l, hl, hr⟩ := hres
          exact hover hne l hl hr
        have hcuts' : cuts = [] := by
          refine hdata'.eq_nil ?_
          rw [← List.nil_append (bytesOf cuts), hlater, hgame']
          rfl
        subst hgame' hcuts'
        refine ⟨fun _ x hx ↦ absurd hx List.not_mem_nil,
          fun _ ↦ ⟨t, run_of_ended (.inl ?_), by simp, by simp⟩⟩
        rw [htplace, if_pos hres]
      · refine ih ?_ htcuts (hgame ▸ hg).of_append hdata' (by simpa using hlater)
        rw [htplace, if_neg hres]
    have hchat : (game.filter fun l ↦ IsChat l).map (List.drop 3) =
        (L.filter fun l ↦ IsChat l).map (List.drop 3) ++
          (game'.filter fun l ↦ IsChat l).map (List.drop 3) := by
      rw [hgame, List.filter_append, List.map_append]
    constructor
    · rintro ⟨s', hrun, hdisp, hrecd⟩
      obtain ⟨D, R, hD, hR, -⟩ := run_adds htcuts hroom hrun
      rw [hR, htrec, hchat, List.append_assoc, List.append_cancel_left_eq] at hrecd
      obtain ⟨hcopy, hR'⟩ := List.append_inj hrecd (by simp)
      refine ⟨⟨hlen, rfl, (copies_right hrec hfront).mp ⟨hshort, hcopy⟩⟩, hrest.mp ⟨s', hrun, ?_, ?_⟩⟩
      · rw [hdisp, htdisp, hgame, List.append_assoc]
      · rw [hR, hR']
    · rintro ⟨⟨-, -, hchats⟩, hcuts'⟩
      obtain ⟨s', hrun, hdisp, hrecd⟩ := hrest.mpr hcuts'
      refine ⟨s', hrun, ?_, ?_⟩
      · rw [hdisp, htdisp, hgame, List.append_assoc]
      · rw [hrecd, htrec, ((copies_right hrec hfront).mpr hchats).2, hchat, List.append_assoc]

/-! ### What kinds of line are dispatched -/

/-- Lines of the room, then perhaps the line `9` and lines of the game. -/
private def Kinds (s : Reader) : Prop :=
  s.place ≠ .game ∧ (∀ l ∈ s.dispatched, opOf l ∈ roomOps) ∨
  s.place ≠ .room ∧ ∃ room start game, s.dispatched = room ++ start :: game ∧
    (∀ l ∈ room, opOf l ∈ roomOps) ∧ opOf start = ('9', ' ') ∧ ∀ l ∈ game, opOf l ∈ gameOps

private theorem gotoRoom_kinds {r : Returned} {s : Reader} (hp : s.place = .room)
    (hs : s.Kinds) : (gotoRoom r s).Kinds := by
  obtain ⟨-, hd⟩ | ⟨hne, -⟩ := hs
  swap
  · exact absurd hp hne
  unfold gotoRoom
  split
  · exact .inl ⟨nofun, hd⟩
  split
  · next hop => exact .inr ⟨nofun, s.dispatched, r.text, [], rfl, hd, hop, nofun⟩
  split
  · next hop =>
    refine .inl ⟨by rw [hp]; nofun, ?_⟩
    intro l hl
    rcases List.mem_append.mp hl with hl | hl
    · exact hd l hl
    · rw [List.mem_singleton.mp hl]
      exact hop
  · exact .inl ⟨nofun, hd⟩

private theorem Kinds.extend {s s' : Reader} {line : Text} (hs : s.Kinds) (hp : s.place = .game)
    (hp' : s'.place ≠ .room) (hop : opOf line ∈ gameOps)
    (hd : s'.dispatched = s.dispatched ++ [line]) : s'.Kinds := by
  obtain ⟨hne, -⟩ | ⟨-, room, start, game, he, hr, hst, hg⟩ := hs
  · exact absurd hp hne
  refine .inr ⟨hp', room, start, game ++ [line], by rw [hd, he]; simp, hr, hst, ?_⟩
  intro l hl
  rcases List.mem_append.mp hl with hl | hl
  · exact hg l hl
  · rw [List.mem_singleton.mp hl]
    exact hop

private theorem gameLine_kinds {recvline line : Text} {s s' : Reader} (hp : s.place = .game)
    (hs : s.Kinds) (h : gameLine recvline line s = .ok s') : s'.Kinds := by
  have hroom : s.place ≠ .room := by rw [hp]; nofun
  unfold gameLine at h
  split at h
  · next hr =>
    cases h
    refine hs.extend hp nofun ?_ rfl
    rw [show opOf line = ('1', '5') from hr]
    decide
  split at h
  · next hc =>
    dsimp only at h
    split at h
    · cases h
      refine hs.extend hp hroom ?_ rfl
      rw [show opOf line = ('2', '1') from hc]
      decide
    · cases h
  split at h
  · next hop =>
    cases h
    exact hs.extend hp hroom hop rfl
  · cases h
    obtain ⟨hne, -⟩ | ⟨-, hk⟩ := hs
    · exact absurd hp hne
    · exact .inr ⟨nofun, hk⟩

private theorem splitLines_kinds {recvline line rest : Text} {s s' : Reader} (hs : s.Kinds)
    (h : splitLines recvline line rest s = .ok s') : s'.Kinds := by
  induction rest generalizing line s with
  | nil =>
    cases line with
    | nil => cases h; exact hs
    | cons => cases h
  | cons c rest ih =>
    rw [splitLines] at h
    split at h
    · cases h; exact hs
    next hp =>
    split at h
    · cases h; exact hs
    split at h
    · obtain ⟨t, ht, h⟩ := exists_of_bind_ok h
      exact ih (gameLine_kinds (not_not.mp hp) hs ht) h
    · exact ih hs h

private theorem step_kinds {s s' : Reader} (hs : s.Kinds) (h : s.step = some (.ok s')) :
    s'.Kinds := by
  unfold step at h
  split at h
  · next hp =>
    split at h
    · cases h
    · cases h
      exact gotoRoom_kinds hp hs
  · split at h
    · cases h
    next x cuts _ =>
    have h' := Option.some.inj h
    cases x with
    | data first more =>
      unfold readGame at h'
      dsimp only at h'
      split at h'
      · exact splitLines_kinds (s := { s with cuts := cuts }) hs h'
      · cases h'
    | eof => cases h'; exact hs
    | interrupted => cases h'
    | error => cases h'
  · cases h
  · cases h

end Reader

/-! ### The whole session -/

/-- What the server writes to a client from its time in a room to the end of the game: lines,
the first `9` starting the game and a `15` ending it. -/
structure Session (room : List Text) (start : Text) (game : List Text) : Prop where
  isLine : ∀ l ∈ room ++ start :: game,
    IsRecord '\n' l ∧ l.length < maxLine ∧ Char.ofNat 0 ∉ l
  room : ∀ l ∈ room, opOf l ≠ ('9', ' ')
  start : opOf start = ('9', ' ')
  result : ∀ l ∈ game.dropLast, ¬ IsResult l

/-- Every line is of a kind known where it is dispatched. -/
def Known (room game : List Text) : Prop :=
  (∀ l ∈ room, opOf l ∈ roomOps) ∧ ∀ l ∈ game, opOf l ∈ gameOps

instance (room game : List Text) : Decidable (Known room game) := inferInstanceAs (Decidable (_ ∧ _))

/-- The stream is cut after the line `9`, and after it only between lines. -/
def CutWell (readBuf : Text) (cuts : List ReadResult) (room : List Text) (start : Text) : Prop :=
  ∃ before after, cuts = before ++ after ∧
    readBuf ++ bytesOf before = (room ++ [start]).flatten ∧ ∀ x ∈ after, WholeLines x

/-- A client that comes into a room. -/
def Reader.inRoom (readBuf : Text) (cuts : List ReadResult) : Reader := ⟨.room, readBuf, cuts, [], []⟩

/-- Lines up to the first `9` are unique. -/
private theorem start_unique {room room' game game' : List Text} {start start' : Text}
    (hroom : ∀ l ∈ room, opOf l ≠ ('9', ' ')) (hroom' : ∀ l ∈ room', opOf l ≠ ('9', ' '))
    (hstart : opOf start = ('9', ' ')) (hstart' : opOf start' = ('9', ' '))
    (h : room ++ start :: game = room' ++ start' :: game') : room = room' ∧ game = game' := by
  induction room generalizing room' with
  | nil =>
    cases room' with
    | nil => exact ⟨rfl, (List.cons.inj h).2⟩
    | cons l room' =>
      obtain ⟨rfl, -⟩ := List.cons.inj h
      exact absurd hstart (hroom' start List.mem_cons_self)
  | cons l room ih =>
    cases room' with
    | nil =>
      obtain ⟨rfl, -⟩ := List.cons.inj h
      exact absurd hstart' (hroom l List.mem_cons_self)
    | cons l' room' =>
      obtain ⟨rfl, htail⟩ := List.cons.inj h
      obtain ⟨rfl, hg⟩ := ih (fun q hq ↦ hroom q (List.mem_cons_of_mem _ hq))
        (fun q hq ↦ hroom' q (List.mem_cons_of_mem _ hq)) htail
      exact ⟨rfl, hg⟩

/-- What is all dispatched is all known. -/
private theorem Session.known {room game : List Text} {start readBuf : Text}
    {cuts : List ReadResult} {s : Reader} (h : Session room start game)
    (hrun : (Reader.inRoom readBuf cuts).run = .ok s)
    (hd : s.dispatched = room ++ start :: game) : Known room game := by
  have hk : s.Kinds := by
    refine Reader.run_preserves (P := Reader.Kinds) (fun _ _ ↦ Reader.step_kinds) ?_ hrun
    exact .inl ⟨nofun, nofun⟩
  obtain ⟨-, hr⟩ | ⟨-, room', start', game', he, hr, hst, hg⟩ := hk
  · have := hr start (by rw [hd]; simp)
    rw [h.start] at this
    exact absurd this (by decide)
  · have hroom' : ∀ l ∈ room', opOf l ≠ ('9', ' ') := by
      intro l hl ho
      have := hr l hl
      rw [ho] at this
      exact absurd this (by decide)
    obtain ⟨rfl, rfl⟩ := start_unique h.room hroom' h.start hst (hd ▸ he)
    exact ⟨hr, hg⟩

/-- The client dispatches exactly the lines sent, and records the chat as it was sent, exactly
when all kinds are known where they arrive and the stream is cut well. -/
theorem framing_iff_cutWell {room game : List Text} {start readBuf : Text}
    {cuts : List ReadResult} (h : Session room start game) (hdata : DataOnly cuts)
    (hs : readBuf ++ bytesOf cuts = (room ++ start :: game).flatten) :
    (∃ s, (Reader.inRoom readBuf cuts).run = .ok s ∧ s.dispatched = room ++ start :: game ∧
      s.record = (game.filter fun l ↦ IsChat l).map (List.drop 3)) ↔
    Known room game ∧ CutWell readBuf cuts room start := by
  by_cases hknown : Known room game
  swap
  · refine ⟨?_, fun h ↦ absurd h.1 hknown⟩
    rintro ⟨s, hrun, hd, -⟩
    exact absurd (h.known hrun hd) hknown
  rw [and_iff_right hknown]
  have hcons : room ++ start :: game = (room ++ [start]) ++ game := by simp
  have hline : ∀ l ∈ room ++ [start], IsRecord '\n' l ∧ l.length < maxLine := by
    intro l hl
    have := h.isLine l (hcons ▸ List.mem_append_left _ hl)
    exact ⟨this.1, this.2.1⟩
  have hgame : GameLines game := by
    have hmem (l : Text) (hl : l ∈ game) : l ∈ room ++ start :: game := by simp [hl]
    exact ⟨fun l hl ↦ (h.isLine l (hmem l hl)).1, fun l hl ↦ (h.isLine l (hmem l hl)).2.2,
      hknown.2, h.result⟩
  rw [hcons, List.flatten_append] at hs
  obtain ⟨used, buf, cuts', hrun, hused, hcat, hneed⟩ :=
    Reader.run_room hline hknown.1 h.start hdata hs
  have hrest : buf ++ bytesOf cuts' = game.flatten := by
    rw [hused, bytesOf_append, ← List.append_assoc, hcat, List.append_assoc] at hs
    exact List.append_cancel_left hs
  unfold Reader.inRoom
  rw [hrun, hcons, List.nil_append]
  constructor
  · rintro ⟨s, hs', hd, hr⟩
    -- all of the game was dispatched, so nothing of it was left in the buffer
    obtain ⟨D, R, hD, -, hlen⟩ := @Reader.run_adds cuts' _ _ rfl (fun hp ↦ by cases hp) hs'
    have hDg : D = game := List.append_cancel_left (hD.symm.trans hd)
    have hbuf : buf = [] := by
      have := congrArg List.length hrest
      rw [← hDg, List.length_append] at this
      exact List.length_eq_zero_iff.mp (by omega)
    subst hbuf
    refine ⟨used, cuts', hused, by simpa using hcat, ?_⟩
    exact (Reader.run_game_iff (s := ⟨.game, [], cuts', room ++ [start], []⟩) rfl rfl hgame
      (hdata.of_append hused) hrest).mp
      ⟨s, hs', hd, by simpa using hr⟩
  · rintro ⟨before, after, hba, hbefore, hafter⟩
    obtain ⟨rfl, rfl⟩ : used = before ∧ cuts' = after := by
      rcases List.append_eq_append_iff.mp (hused.symm.trans hba) with
        ⟨more, rfl, rfl⟩ | ⟨more, rfl, rfl⟩
      · -- what is read before the line `9` is complete is needed for it
        rw [bytesOf_append, ← List.append_assoc, hcat, List.append_assoc,
          List.append_right_eq_self] at hbefore
        have hmore : more = [] := by
          refine DataOnly.eq_nil (fun x hx ↦ hdata x ?_) (List.append_eq_nil_iff.mp hbefore).2
          rw [hused]
          exact List.mem_append_right _ (List.mem_append_left _ hx)
        subst hmore
        exact ⟨(List.append_nil _).symm, rfl⟩
      · rcases List.eq_nil_or_concat more with rfl | ⟨init, x, rfl⟩
        · exact ⟨List.append_nil _, rfl⟩
        · have := hneed (before ++ init) x (by rw [List.concat_eq_append, List.append_assoc])
          rw [bytesOf_append, ← List.append_assoc, hbefore, List.length_append] at this
          omega
    have hbuf : buf = [] := by simpa [hbefore] using hcat
    subst hbuf
    obtain ⟨s, hs', hd, hr⟩ :=
      (Reader.run_game_iff (s := ⟨.game, [], cuts', room ++ [start], []⟩) rfl rfl hgame
        (hdata.of_append hused) hrest).mpr hafter
    exact ⟨s, hs', hd, by simpa using hr⟩

/-! ### Two lines in one segment -/

/-- `9 a b` -/
private def startLine : Text := ['9', ' ', 'a', ' ', 'b', '\n']

/-- `10 r1 5 1 a 1 1 r2` -/
private def roundLine : Text :=
  ['1', '0', ' ', 'r', '1', ' ', '5', ' ', '1', ' ', 'a', ' ', '1', ' ', '1', ' ', 'r', '2', '\n']

/-- `21 a:hi` -/
private def chatLine : Text := ['2', '1', ' ', 'a', ':', 'h', 'i', '\n']

private def segment (l : Text) : ReadResult := .data (l.headD '\n') l.tail

/-- The line `9` and the first round arrive in one segment: the round is never dispatched. -/
theorem round_left_in_buffer :
    ∃ cuts, Session [] startLine [roundLine] ∧ Known [] [roundLine] ∧ DataOnly cuts ∧
      bytesOf cuts = (startLine :: [roundLine]).flatten ∧
      ¬ ∃ s, (Reader.inRoom [] cuts).run = .ok s ∧ s.dispatched = startLine :: [roundLine] := by
  have hrun : (Reader.inRoom [] [segment (startLine ++ roundLine)]).run =
      .ok ⟨.game, roundLine, [], [startLine], []⟩ := by
    rw [Reader.run_some (x := .ok ⟨.game, roundLine, [], [startLine], []⟩) (by rfl), ok_bind]
    exact Reader.run_none rfl
  refine ⟨[segment (startLine ++ roundLine)], ⟨by decide, by decide, by decide, by decide⟩,
    by decide, ?_, by decide, ?_⟩
  · intro x hx
    exact ⟨_, _, List.mem_singleton.mp hx⟩
  · rintro ⟨s, hs, hd⟩
    rw [hrun] at hs
    cases hs
    exact absurd hd (by decide)

/-- With a segment for each line everything arrives. -/
theorem session_in_segments :
    ∃ s, (Reader.inRoom [] [segment startLine, segment roundLine, segment chatLine]).run = .ok s ∧
      s.dispatched = [startLine, roundLine, chatLine] ∧
      s.record = [['a', ':', 'h', 'i', '\n']] := by
  have hdata : DataOnly [segment startLine, segment roundLine, segment chatLine] := by
    intro x hx
    simp only [List.mem_cons, List.not_mem_nil, or_false] at hx
    rcases hx with rfl | rfl | rfl <;> exact ⟨_, _, rfl⟩
  have h : Session [] startLine [roundLine, chatLine] :=
    ⟨by decide, by decide, by decide, by decide⟩
  exact (framing_iff_cutWell h hdata rfl).mpr
    ⟨by decide, [segment startLine], [segment roundLine, segment chatLine], rfl, by decide,
      by decide⟩

end Unpv13e.Client
