import Unpv13e.Base.Tally
import Unpv13e.Client.CardInput
import Unpv13e.Client.View

/-!
# The hand drawn and the card chosen from it

Library `Client`. `draw_my_card` draws the player's hand with a number for each card, one beside another or, where
they are too many, as a list of names (`src/tcpcliserv/final_cli.c:523–594`); on the player's turn `game` goes
through the hand once more for the card with the number typed and sends it (`final_cli.c:1113–1183`).
-/

namespace Unpv13e.Client
open Unpv13e.Base

/-! ### Cards and their pictures -/

/-- `book`, as `draw_my_card` and `game` declare it. -/
def bookEntries : List Text :=
  (['r', 'y', 'g', 'b'].flatMap fun c ↦
    ['0', '1', '2', '3', '4', '5', '6', '7', '8', '9', 'a', 'b', 'c'].map fun v ↦ [v, c]) ++
  [['d', 'x'], ['e', 'x']]

/-- `book[i]` -/
def book (i : Fin 54) : Text := bookEntries.getD i []

/-- `name`, as `draw_my_card` declares it. -/
def nameEntries : List Text :=
  (['紅', '黃', '綠', '藍'].flatMap fun c ↦
    (['0', '1', '2', '3', '4', '5', '6', '7', '8', '9', '禁', '迴'].map fun v ↦ [c, v]) ++ [[c, '+', '2']]) ++
  [['萬', '用'], ['+', '4']]

/-- `name[i]` -/
def cardName (i : Fin 54) : Text := nameEntries.getD i []

/-- The entry a word is counted under: the first with its first two characters. -/
def inBook (tt : Text) : Option (Fin 54) :=
  (List.finRange 54).find? fun j ↦ charAt tt 0 = charAt (book j) 0 ∧ charAt tt 1 = charAt (book j) 1

/-- What a `printf` prints: where the cursor is, or with the cursor moved to a row and a column before. -/
inductive Printed
  | here (t : Text)
  | placed (row col : Nat) (t : Text)
  deriving DecidableEq

/-- `"\033[%dm"` -/
def colourCode (n : Nat) : Text := [Char.ofNat 27, '['] ++ decimal n ++ ['m']

/-- The three rows of a card. -/
structure Picture where
  top : Text
  middle : Text
  bottom : Text
  deriving DecidableEq

/-- What stands on a card of the first character `c`. -/
def face (c : Char) : Option Text :=
  if c.isDigit then some [' ', c]
  else if c = 'a' then some ['⊘', ' ']
  else if c = 'b' then some ['↗', '↙']
  else if c = 'c' then some ['+', '2']
  else if c = 'd' then some ['⊕', ' ']
  else if c = 'e' then some ['+', '4']
  else none

/-- A wild card of four colours. -/
def wildPicture (on : Text) : Picture where
  top := colourCode 33 ++ ['┌', '─'] ++ colourCode 32 ++ ['─', '┐'] ++ colourCode 0 ++ ['\n']
  middle := colourCode 33 ++ ['│'] ++ colourCode 0 ++ on ++ colourCode 31 ++ ['│'] ++ colourCode 0 ++ ['\n']
  bottom := colourCode 34 ++ ['└', '─'] ++ colourCode 31 ++ ['─', '┘'] ++ colourCode 0 ++ ['\n']

/-- `color` in `draw_card` -/
def colourOf (c : Char) : Nat :=
  if c = 'r' then 31 else if c = 'y' then 33 else if c = 'g' then 32 else if c = 'b' then 34 else 0

/-- The rows `draw_card` prints, `none` where it prints none. -/
def picture (card : Text) : Option Picture :=
  let value := charAt card 0
  if charAt card 1 = 'x' then
    if value = 'x' then some ⟨['┌', '─', '─', '┐', '\n'], ['│', ' ', ' ', '│', '\n'], ['└', '─', '─', '┘', '\n']⟩
    else if value = 'd' then some (wildPicture ['⊕', ' '])
    else if value = 'e' then some (wildPicture ['+', '4'])
    else none
  else
    let color := colourOf (charAt card 1)
    some {
      top := colourCode color ++ ['┌', '─', '─', '┐', ' ', '\n']
      middle := (face value).elim [] fun f ↦ ['│'] ++ colourCode 0 ++ f ++ colourCode color ++ ['│', '\n']
      bottom := ['└', '─', '─', '┘'] ++ colourCode 0 ++ [' ', ' ', '\n'] }

/-- The right edge of one more card under the first, `offset` columns from its left. -/
def edge (row col offset : Nat) : List Printed :=
  [.placed row (col + offset) ['┐'], .placed (row + 1) (col + offset) ['│'], .placed (row + 2) (col + offset) ['┘']]

/-- `src/tcpcliserv/final_cli.c:425–495` -/
def drawCard (row col : Nat) (card : Text) (num : Nat) : List Printed :=
  ((picture card).elim [] fun p ↦
    [.placed row col p.top, .placed (row + 1) col p.middle, .placed (row + 2) col p.bottom]) ++
  (if 2 ≤ num then edge row col 4 else []) ++ (if 3 ≤ num then edge row col 5 else [])

/-! ### The hand -/

/-- What `draw_my_card` keeps in its loops: `count`, `new_card_count` and what has been printed. -/
structure Drawing where
  count : Nat
  fresh : Fin 54 → Nat
  out : List Printed

/-- One turn of the inner loop, in which a card is printed with the count before it and whether it is new. -/
def drawNext (item : Nat → Fin 54 → Bool → List Printed) (i : Fin 54) (s : Drawing) : Drawing where
  count := s.count + 1
  fresh := if 0 < s.fresh i then Function.update s.fresh i (s.fresh i - 1) else s.fresh
  out := s.out ++ item s.count i (0 < s.fresh i)

/-- A card in the list of names, `src/tcpcliserv/final_cli.c:568–578`. -/
def listed (allNumber count : Nat) (i : Fin 54) (isNew : Bool) : List Printed :=
  [.here (decimal (count + 1 : Nat) ++ ':' :: (cardName i ++
    ((if isNew then ['(', 'n', 'e', 'w', ')'] else []) ++
      if count + 1 < allNumber then [' ', '/', ' '] else [])))]

/-- A card beside the others, `src/tcpcliserv/final_cli.c:583–592`. -/
def beside (count : Nat) (i : Fin 54) (isNew : Bool) : List Printed :=
  (if isNew then [.placed 25 (1 + 4 * count) [' ', 'n', 'e', 'w']] else []) ++
  drawCard 26 (1 + 4 * count) (book i) 1 ++
  [.placed 29 (1 + 4 * count) ((if 8 < count then [' '] else [' ', ' ']) ++ decimal (count + 1 : Nat))]

/-- `src/tcpcliserv/final_cli.c:523–596` -/
def drawMyCard (allCard newCard : Text) : List Printed :=
  let counts := Tally.count inBook (tokens allCard)
  let allNumber := Tally.total inBook (tokens allCard)
  let fresh := Tally.count inBook (tokens newCard)
  (if 33 < allNumber then
    Tally.walk (drawNext (listed allNumber)) (List.finRange 54) counts
      ⟨0, fresh, [.placed 25 1 ['您', '的', '牌', '多', '到', '放', '不', '下', '.', '.', '.', '\n']]⟩
  else Tally.walk (drawNext beside) (List.finRange 54) counts ⟨0, fresh, []⟩).out ++ [.here ['\n']]

/-- `aim_card`, `src/tcpcliserv/final_cli.c:1132–1160`. -/
def aimCard (myCard : Text) (num : Nat) : Text :=
  let words := tokens myCard
  if num ≤ Tally.total inBook words then
    (Tally.seek num (List.finRange 54) (Tally.count inBook words)).elim [] book
  else []

/-- The line sent for the card chosen, `none` where it cannot be played (`src/tcpcliserv/final_cli.c:1165–1181`). -/
def playCard (aim tableCard : Text) (color : Char) : Option Text :=
  if charAt aim 0 = 'd' ∨ charAt aim 0 = 'e' then
    if color ≠ nul then some (['9', ' '] ++ [charAt aim 0, color] ++ ['\n']) else none
  else if charAt aim 0 = charAt tableCard 0 ∨ charAt aim 1 = charAt tableCard 1 then
    some (['9', ' '] ++ aim ++ ['\n'])
  else none

/-- A line typed on the player's turn that is none of the commands, `src/tcpcliserv/final_cli.c:1113–1183`. -/
def playTyped (myCard tableCard recvline : Text) : Except Stop (Option Text) :=
  isValidCardInput (chop recvline) >>= fun r ↦
    if r.1 = 0 then .ok none
    else r.2.elim (.error .indeterminate) fun color ↦ .ok (playCard (aimCard myCard r.1.toNat) tableCard color)

/-! ### What is seen -/

/-- The number `k` is seen with the card `i`: before its name, or under its picture. -/
def ShownUnder (out : List Printed) (k : Nat) (i : Fin 54) : Prop :=
  (∃ rest, Printed.here (decimal k ++ ':' :: (cardName i ++ rest)) ∈ out) ∨
  ∃ col pad, (∀ c ∈ pad, c = ' ') ∧ Printed.placed 29 col (pad ++ decimal k) ∈ out ∧
    ∀ o ∈ drawCard 26 col (book i) 1, o ∈ out

/-- The cards of a hand in the order in which they are drawn. -/
def drawnHand (hand : List Text) : List (Fin 54) :=
  Tally.inOrder (List.finRange 54) (Tally.count inBook hand)

variable {hand : List Text} {newCard : Text} {out : List Printed} {item : Nat → Fin 54 → Bool → List Printed}
  {cards : List (Fin 54)} {i j : Fin 54} {k : Nat}

private theorem inBook_book (i : Fin 54) : inBook (book i) = some i := by
  revert i
  decide +kernel

private theorem picture_book (i : Fin 54) : ∃ p, picture (book i) = some p := by
  have hall : ∀ i : Fin 54, (picture (book i)).isSome = true := by decide +kernel
  exact Option.isSome_iff_exists.mp (hall i)

private theorem picture_inj (h : picture (book i) = picture (book j)) : i = j := by
  have hnodup : ((List.finRange 54).map fun i ↦ (picture (book i)).map Picture.middle).Nodup := by decide +kernel
  exact List.inj_on_of_nodup_map hnodup (List.mem_finRange i) (List.mem_finRange j)
    (congrArg (Option.map Picture.middle) h)

private theorem cardName_inj (h : cardName i <+: cardName j) : i = j := by
  revert i j
  decide +kernel

/-! ### Digits read back from what is printed -/

private theorem isDigit_of_mem {c : Char} (h : c ∈ decimal (k : Int)) : c.isDigit = true :=
  Nat.isDigit_of_mem_toDigits (by decide) (by decide) (show c ∈ Nat.toDigits 10 k from h)

private theorem decimal_inj {m : Nat} (h : decimal (k : Int) = decimal (m : Int)) : k = m := by
  have hvalue (n : Nat) : Nat.ofDigitChars 10 (decimal (n : Int)) 0 = n := Nat.ofDigitChars_ten_toDigits
  rw [← hvalue k, h, hvalue]

/-- A number is read up to the colon after it. -/
private theorem decimal_colon {m : Nat} {x y : Text}
    (h : decimal (k : Int) ++ ':' :: x = decimal (m : Int) ++ ':' :: y) : k = m ∧ x = y := by
  have hdigits (n : Nat) (z : Text) :
      (decimal (n : Int) ++ ':' :: z).takeWhile Char.isDigit = decimal (n : Int) := by
    rw [List.takeWhile_append_of_pos fun c hc ↦ isDigit_of_mem hc, List.takeWhile_cons_of_neg (by decide),
      List.append_nil]
  have hdec : decimal (k : Int) = decimal (m : Int) := by
    rw [← hdigits k x, h, hdigits]
  rw [hdec] at h
  exact ⟨decimal_inj hdec, (List.cons.inj (List.append_cancel_left h)).2⟩

/-- A number is read after blanks. -/
private theorem decimal_pad {m : Nat} {pad pad' : Text} (hpad : ∀ c ∈ pad, c = ' ')
    (hpad' : ∀ c ∈ pad', c = ' ') (h : pad ++ decimal (k : Int) = pad' ++ decimal (m : Int)) : k = m := by
  have hdigits {p : Text} (n : Nat) (hp : ∀ c ∈ p, c = ' ') :
      (p ++ decimal (n : Int)).filter Char.isDigit = decimal (n : Int) := by
    have hblank : p.filter Char.isDigit = [] := by
      apply List.filter_eq_nil_iff.mpr
      intro c hc
      rw [hp c hc]
      decide
    rw [List.filter_append, hblank, List.nil_append]
    exact List.filter_eq_self.mpr fun c hc ↦ isDigit_of_mem hc
  apply decimal_inj
  rw [← hdigits k hpad, h, hdigits m hpad']

/-! ### What the drawing shows -/

/-- Printed with every hand. -/
private def IsFrame (o : Printed) : Prop := o = .here ['\n'] ∨ ∃ t, o = .placed 25 1 t

/-- Nothing is printed but the items of the cards in order. -/
private structure Draws (item : Nat → Fin 54 → Bool → List Printed) (cards : List (Fin 54)) (isNew : Nat → Bool)
    (out : List Printed) : Prop where
  only : ∀ o ∈ out, IsFrame o ∨ ∃ m i, cards[m]? = some i ∧ o ∈ item m i (isNew m)
  all : ∀ m i, cards[m]? = some i → ∀ o ∈ item m i (isNew m), o ∈ out

private theorem mem_foldl (item : Nat → Fin 54 → Bool → List Printed) (cards : List (Fin 54)) (s : Drawing) :
    ∃ isNew : Nat → Bool, ∀ o, o ∈ (cards.foldl (fun s i ↦ drawNext item i s) s).out ↔
      o ∈ s.out ∨ ∃ m i, cards[m]? = some i ∧ o ∈ item (s.count + m) i (isNew m) := by
  induction cards generalizing s with
  | nil =>
    refine ⟨fun _ ↦ false, fun o ↦ ⟨.inl, ?_⟩⟩
    rintro (h | ⟨m, i, h, -⟩)
    · exact h
    · cases h
  | cons j cards ih =>
    obtain ⟨isNew, hmem⟩ := ih (drawNext item j s)
    refine ⟨fun m ↦ if m = 0 then 0 < s.fresh j else isNew (m - 1), fun o ↦ (hmem o).trans ⟨?_, ?_⟩⟩
    · rintro (h | ⟨m, i, hi, h⟩)
      · rcases List.mem_append.mp h with h | h
        · exact .inl h
        · exact .inr ⟨0, j, rfl, h⟩
      · have hcount : s.count + (m + 1) = s.count + 1 + m := by omega
        refine .inr ⟨m + 1, i, hi, ?_⟩
        rw [hcount]
        exact h
    · rintro (h | ⟨m, i, hi, h⟩)
      · exact .inl (List.mem_append_left _ h)
      · cases m with
        | zero =>
          cases hi
          exact .inl (List.mem_append_right _ h)
        | succ m =>
          have hcount : s.count + (m + 1) = s.count + 1 + m := by omega
          rw [hcount] at h
          exact .inr ⟨m, i, hi, h⟩

private theorem draws_walk (item : Nat → Fin 54 → Bool → List Printed) (n fresh : Fin 54 → Nat)
    (hout : ∀ o ∈ out, IsFrame o) :
    ∃ isNew, Draws item (Tally.inOrder (List.finRange 54) n) isNew
      ((Tally.walk (drawNext item) (List.finRange 54) n ⟨0, fresh, out⟩).out ++ [.here ['\n']]) := by
  rw [Tally.walk_eq_foldl]
  obtain ⟨isNew, hmem⟩ := mem_foldl item (Tally.inOrder (List.finRange 54) n) ⟨0, fresh, out⟩
  refine ⟨isNew, ⟨fun o ho ↦ ?_, fun m i hi o ho ↦ ?_⟩⟩
  · rcases List.mem_append.mp ho with h | h
    · rcases (hmem o).mp h with h | ⟨m, i, hi, h⟩
      · exact .inl (hout o h)
      · rw [Nat.zero_add] at h
        exact .inr ⟨m, i, hi, h⟩
    · exact .inl (.inl (List.mem_singleton.mp h))
  · refine List.mem_append_left _ ((hmem o).mpr (.inr ⟨m, i, hi, ?_⟩))
    rw [Nat.zero_add]
    exact ho

/-- In the list a number stands before the name of its card. -/
private theorem Draws.shown_listed {isNew : Nat → Bool} {n : Nat} (h : Draws (listed n) cards isNew out)
    (hk : 1 ≤ k) : ShownUnder out k j ↔ cards[k - 1]? = some j := by
  constructor
  · rintro (⟨rest, hin⟩ | ⟨col, pad, -, hin, -⟩)
    · rcases h.only _ hin with (he | ⟨t, he⟩) | ⟨m, i, hi, ho⟩
      · -- the last newline has no colon
        have htext := Printed.here.inj he
        have hcolon : ':' ∈ ['\n'] := htext ▸ List.mem_append_right _ List.mem_cons_self
        exact absurd hcolon (by decide)
      · cases he
      · obtain ⟨rfl, hname⟩ := decimal_colon (Printed.here.inj (List.mem_singleton.mp ho))
        have hprefix : cardName i <+: cardName j ++ rest := by
          rw [hname]
          exact List.prefix_append _ _
        have hji : j = i := by
          rcases List.prefix_or_prefix_of_prefix (List.prefix_append _ rest) hprefix with hp | hp
          · exact cardName_inj hp
          · exact (cardName_inj hp).symm
        rw [hji]
        exact hi
    · rcases h.only _ hin with (he | ⟨t, he⟩) | ⟨m, i, hi, ho⟩
      · cases he
      · cases he
      · cases List.mem_singleton.mp ho
  · intro hj
    have hmem := h.all _ _ hj _ (List.mem_singleton_self _)
    rw [Nat.sub_add_cancel hk] at hmem
    exact .inl ⟨_, hmem⟩

private theorem mem_drawCard {row col : Nat} {card : Text} {p : Picture} (hp : picture card = some p) {o : Printed} :
    o ∈ drawCard row col card 1 ↔
      o = .placed row col p.top ∨ o = .placed (row + 1) col p.middle ∨ o = .placed (row + 2) col p.bottom := by
  unfold drawCard
  rw [hp, if_neg (by decide), if_neg (by decide), List.append_nil, List.append_nil, Option.elim_some]
  simp only [List.mem_cons, List.not_mem_nil, or_false]

/-- What one card of the row adds: a mark above it, its picture, its number. -/
private theorem mem_beside {m : Nat} {b : Bool} {o : Printed} (h : o ∈ beside m i b) :
    (∃ t, o = .placed 25 (1 + 4 * m) t) ∨ o ∈ drawCard 26 (1 + 4 * m) (book i) 1 ∨
      ∃ pad, (∀ c ∈ pad, c = ' ') ∧ o = .placed 29 (1 + 4 * m) (pad ++ decimal (m + 1 : Nat)) := by
  rcases List.mem_append.mp h with h | h
  · rcases List.mem_append.mp h with h | h
    · cases b with
      | false => cases h
      | true => exact .inl ⟨_, List.mem_singleton.mp h⟩
    · exact .inr (.inl h)
  · refine .inr (.inr ⟨_, ?_, List.mem_singleton.mp h⟩)
    split
    · simp
    · simp

/-- The picture above a number is that of its card. -/
private theorem Draws.picture_eq {isNew : Nat → Bool} (h : Draws beside cards isNew out) {m : Nat}
    (hi : cards[m]? = some i) (hall : ∀ o ∈ drawCard 26 (1 + 4 * m) (book j) 1, o ∈ out) : j = i := by
  obtain ⟨p, hp⟩ := picture_book j
  obtain ⟨q, hq⟩ := picture_book i
  have hin {r : Nat} {t : Text} (hr : r < 3) (ho : Printed.placed (26 + r) (1 + 4 * m) t ∈ out) :
      Printed.placed (26 + r) (1 + 4 * m) t ∈ drawCard 26 (1 + 4 * m) (book i) 1 := by
    rcases h.only _ ho with (he | ⟨t, he⟩) | ⟨m', i', hi', ho⟩
    · cases he
    · have := (Printed.placed.inj he).1
      omega
    · rcases mem_beside ho with ⟨t, he⟩ | hin | ⟨pad, -, he⟩
      · have := (Printed.placed.inj he).1
        omega
      · obtain ⟨p', hp'⟩ := picture_book i'
        have hcol : 1 + 4 * m = 1 + 4 * m' := by
          rcases (mem_drawCard hp').mp hin with he | he | he
          · exact (Printed.placed.inj he).2.1
          · exact (Printed.placed.inj he).2.1
          · exact (Printed.placed.inj he).2.1
        obtain rfl : m = m' := by omega
        rw [hi] at hi'
        cases hi'
        exact hin
      · have := (Printed.placed.inj he).1
        omega
  apply picture_inj
  rw [hp, hq]
  have hrow {r : Nat} {t : Text} (hr : r < 3) (ho : Printed.placed (26 + r) (1 + 4 * m) t ∈ out) :=
    (mem_drawCard hq).mp (hin hr ho)
  have htop : p.top = q.top := by
    rcases hrow (r := 0) (by omega) (hall _ ((mem_drawCard hp).mpr (.inl rfl))) with he | he | he
    · exact (Printed.placed.inj he).2.2
    · cases he
    · cases he
  have hmiddle : p.middle = q.middle := by
    rcases hrow (r := 1) (by omega) (hall _ ((mem_drawCard hp).mpr (.inr (.inl rfl)))) with he | he | he
    · cases he
    · exact (Printed.placed.inj he).2.2
    · cases he
  have hbottom : p.bottom = q.bottom := by
    rcases hrow (r := 2) (by omega) (hall _ ((mem_drawCard hp).mpr (.inr (.inr rfl)))) with he | he | he
    · cases he
    · cases he
    · exact (Printed.placed.inj he).2.2
  cases p
  cases q
  cases htop
  cases hmiddle
  cases hbottom
  rfl

/-- Of the cards side by side, a number stands under the picture of its card. -/
private theorem Draws.shown_beside {isNew : Nat → Bool} (h : Draws beside cards isNew out) (hk : 1 ≤ k) :
    ShownUnder out k j ↔ cards[k - 1]? = some j := by
  constructor
  · rintro (⟨rest, hin⟩ | ⟨col, pad, hpad, hin, hall⟩)
    · rcases h.only _ hin with (he | ⟨t, he⟩) | ⟨m, i, hi, ho⟩
      · have htext := Printed.here.inj he
        have hcolon : ':' ∈ ['\n'] := htext ▸ List.mem_append_right _ List.mem_cons_self
        exact absurd hcolon (by decide)
      · cases he
      · obtain ⟨p, hp⟩ := picture_book i
        rcases mem_beside ho with ⟨t, he⟩ | hin | ⟨pad, -, he⟩
        · cases he
        · rcases (mem_drawCard hp).mp hin with he | he | he
          · cases he
          · cases he
          · cases he
        · cases he
    · rcases h.only _ hin with (he | ⟨t, he⟩) | ⟨m, i, hi, ho⟩
      · cases he
      · cases he
      · obtain ⟨p, hp⟩ := picture_book i
        rcases mem_beside ho with ⟨t, he⟩ | hin | ⟨pad', hpad', he⟩
        · cases he
        · rcases (mem_drawCard hp).mp hin with he | he | he
          · cases he
          · cases he
          · cases he
        · obtain ⟨-, rfl, htext⟩ := Printed.placed.inj he
          obtain rfl := decimal_pad hpad hpad' htext
          rw [h.picture_eq hi hall]
          exact hi
  · intro hj
    refine .inr ⟨1 + 4 * (k - 1), if 8 < k - 1 then [' '] else [' ', ' '], ?_, h.all _ _ hj _ ?_, fun o ho ↦ ?_⟩
    · split
      · simp
      · simp
    · rw [beside, Nat.sub_add_cancel hk]
      exact List.mem_append_right _ (List.mem_singleton_self _)
    · exact h.all _ _ hj _ (List.mem_append_left _ (List.mem_append_right _ ho))

/-! ### The card chosen -/

private theorem isField_book {w : Text} (h : w ∈ bookEntries) : IsField w := by
  have hall : ∀ w ∈ bookEntries, IsField w := by decide
  exact hall w h

private theorem exists_book {w : Text} (h : w ∈ bookEntries) : ∃ i, book i = w := by
  obtain ⟨n, hn, rfl⟩ := List.mem_iff_getElem.mp h
  refine ⟨⟨n, hn⟩, ?_⟩
  unfold book
  rw [List.getD_eq_getElem _ _ hn]

private theorem tokens_hand (hhand : ∀ w ∈ hand, w ∈ bookEntries) : tokens (View.joinCards hand) = hand := by
  cases hand with
  | nil => rfl
  | cons w ws => exact View.tokens_joinCards (List.cons_ne_nil w ws) fun v hv ↦ isField_book (hhand v hv)

private theorem map_filterMap (hhand : ∀ w ∈ hand, w ∈ bookEntries) :
    (hand.filterMap inBook).map book = hand := by
  induction hand with
  | nil => rfl
  | cons w ws ih =>
    obtain ⟨i, rfl⟩ := exists_book (hhand w List.mem_cons_self)
    rw [List.filterMap_cons_some (inBook_book i), List.map_cons, ih fun v hv ↦ hhand v (List.mem_cons_of_mem _ hv)]

/-- The hand is drawn whole. -/
theorem drawnHand_perm (hhand : ∀ w ∈ hand, w ∈ bookEntries) : ((drawnHand hand).map book).Perm hand := by
  have hperm : (drawnHand hand).Perm (hand.filterMap inBook) :=
    Tally.inOrder_perm (List.nodup_finRange 54) List.mem_finRange
  have hmap := hperm.map book
  rwa [map_filterMap hhand] at hmap

private theorem total_hand (hhand : ∀ w ∈ hand, w ∈ bookEntries) : Tally.total inBook hand = hand.length := by
  rw [Tally.total_eq, ← List.length_map book, map_filterMap hhand]

/-- Both layouts show the cards in order. -/
theorem shownUnder_iff (hhand : ∀ w ∈ hand, w ∈ bookEntries) (hk : 1 ≤ k) :
    ShownUnder (drawMyCard (View.joinCards hand) newCard) k j ↔ (drawnHand hand)[k - 1]? = some j := by
  unfold drawMyCard
  rw [tokens_hand hhand]
  dsimp only
  split
  · obtain ⟨isNew, hdraws⟩ := draws_walk (listed (Tally.total inBook hand)) (Tally.count inBook hand)
      (Tally.count inBook (tokens newCard)) fun o ho ↦ .inr ⟨_, List.mem_singleton.mp ho⟩
    exact hdraws.shown_listed hk
  · obtain ⟨isNew, hdraws⟩ := draws_walk beside (Tally.count inBook hand) (Tally.count inBook (tokens newCard))
      fun o ho ↦ absurd ho List.not_mem_nil
    exact hdraws.shown_beside hk

/-- The loop that is not left when the card is found finds the card in order. -/
theorem aimCard_eq (hhand : ∀ w ∈ hand, w ∈ bookEntries) (hk : 1 ≤ k) (hi : (drawnHand hand)[k - 1]? = some i) :
    aimCard (View.joinCards hand) k = book i := by
  have hlt : k - 1 < (drawnHand hand).length := (List.getElem?_eq_some_iff.mp hi).1
  have hlen := (drawnHand_perm hhand).length_eq
  rw [List.length_map] at hlen
  unfold aimCard
  rw [tokens_hand hhand]
  dsimp only
  rw [total_hand hhand, if_pos (by omega), Tally.seek_eq hk]
  exact congrArg (Option.elim · [] book) hi

/-- A card that takes the colour typed. -/
def IsWild (i : Fin 54) : Prop := charAt (book i) 0 = 'd' ∨ charAt (book i) 0 = 'e'

instance (i : Fin 54) : Decidable (IsWild i) := inferInstanceAs (Decidable (_ ∨ _))

/-- How a line names a card. -/
def namedCard (i : Fin 54) (color : Char) : Text := if IsWild i then [charAt (book i) 0, color] else book i

/-- A wild card is played with a colour, another one on a card like it. -/
def Playable (i : Fin 54) (color : Char) (tableCard : Text) : Prop :=
  IsWild i ∧ color ≠ nul ∨
    ¬ IsWild i ∧ (charAt (book i) 0 = charAt tableCard 0 ∨ charAt (book i) 1 = charAt tableCard 1)

instance (i : Fin 54) (color : Char) (tableCard : Text) : Decidable (Playable i color tableCard) :=
  inferInstanceAs (Decidable (_ ∨ _))

private theorem playCard_book (color : Char) (tableCard : Text) : playCard (book i) tableCard color =
    if Playable i color tableCard then some (['9', ' '] ++ namedCard i color ++ ['\n']) else none := by
  unfold playCard namedCard
  by_cases hwild : IsWild i
  · have hplayable : Playable i color tableCard ↔ color ≠ nul := by
      simp only [Playable, hwild, true_and, not_true_eq_false, false_and, or_false]
    have hfirst : charAt (book i) 0 = 'd' ∨ charAt (book i) 0 = 'e' := hwild
    rw [if_pos hfirst, if_pos hwild]
    exact (if_congr hplayable rfl rfl).symm
  · have hplayable : Playable i color tableCard ↔
        charAt (book i) 0 = charAt tableCard 0 ∨ charAt (book i) 1 = charAt tableCard 1 := by
      simp only [Playable, hwild, false_and, not_false_eq_true, true_and, false_or]
    have hfirst : ¬ (charAt (book i) 0 = 'd' ∨ charAt (book i) 0 = 'e') := hwild
    rw [if_neg hfirst, if_neg hwild]
    exact (if_congr hplayable rfl rfl).symm

/-- Of a hand of any cards of the book, each number up to its size is seen with one card, which is the card chosen
with that number; what is sent for it, if it can be played, names that card once. -/
theorem shown_is_played (hhand : ∀ w ∈ hand, w ∈ bookEntries) (hk : 1 ≤ k) (hsize : k ≤ hand.length) :
    ∃ i, aimCard (View.joinCards hand) k = book i ∧ book i ∈ hand ∧
      (∀ j, ShownUnder (drawMyCard (View.joinCards hand) newCard) k j ↔ j = i) ∧
      ∀ tableCard recvline color, isValidCardInput (chop recvline) = .ok (k, some color) →
        playTyped (View.joinCards hand) tableCard recvline =
          .ok (if Playable i color tableCard then some (['9', ' '] ++ namedCard i color ++ ['\n']) else none) := by
  have hperm := drawnHand_perm hhand
  have hlen := hperm.length_eq
  rw [List.length_map] at hlen
  have hlt : k - 1 < (drawnHand hand).length := by omega
  obtain ⟨i, hi⟩ : ∃ i, (drawnHand hand)[k - 1]? = some i := ⟨_, List.getElem?_eq_getElem hlt⟩
  have haim := aimCard_eq hhand hk hi
  refine ⟨i, haim, hperm.mem_iff.mp (List.mem_map_of_mem (List.mem_of_getElem? hi)), fun j ↦ ?_, ?_⟩
  · rw [shownUnder_iff hhand hk, hi]
    exact ⟨fun h ↦ (Option.some.inj h).symm, fun h ↦ congrArg some h.symm⟩
  · intro tableCard recvline color hvalid
    unfold playTyped
    rw [hvalid, ok_bind]
    dsimp only
    rw [if_neg (by omega), Int.toNat_natCast, haim, Option.elim_some, playCard_book]

/-- Two wild cards and a red three between them. -/
private def wildHand : List Text := [['d', 'x'], ['3', 'r'], ['d', 'x']]

/-- The second card is the other wild one. -/
theorem shown_is_played_second : ∃ i, aimCard (View.joinCards wildHand) 2 = book i ∧
    ∀ j, ShownUnder (drawMyCard (View.joinCards wildHand) []) 2 j ↔ j = i := by
  obtain ⟨i, haim, -, hshown, -⟩ := @shown_is_played wildHand [] 2 (by decide) (by decide) (by decide)
  exact ⟨i, haim, hshown⟩

end Unpv13e.Client
