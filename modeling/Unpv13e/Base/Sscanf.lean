import Unpv13e.Base.Text

/-!
# Reading fields of a line

Library `Base`. The conversions `%d` and `%s` of `sscanf`, one after another: each takes what it needs from the front
of the text and leaves the rest to the next one, or it fails and nothing after it is stored.
-/

namespace Unpv13e.Base.Sscanf

/-- `isspace` -/
def isspace (c : Char) : Bool := c = ' ' || ('\t' ≤ c && c ≤ '\r')

/-- A text without its sign. -/
def unsigned : Text → Text
  | '-' :: ds => ds
  | '+' :: ds => ds
  | ds => ds

/-- `%d`: blanks, an optional sign and at least one digit. The value is that of `strtol`, which the assignment to an
`int` cuts down to 32 bits. -/
def scanInt (s : Text) : Option (Int × Text) :=
  let ds := unsigned (s.dropWhile isspace)
  if ds.takeWhile Char.isDigit = [] then none
  else some ((strtol s).bmod (2 ^ 32), ds.dropWhile Char.isDigit)

/-- `%s`: blanks, then all up to the next one. -/
def scanWord (s : Text) : Option (Text × Text) :=
  let rest := s.dropWhile isspace
  if rest = [] then none
  else some (rest.takeWhile (!isspace ·), rest.dropWhile (!isspace ·))

variable {s word rest : Text}

/-- A word is not empty. -/
theorem ne_nil_of_scanWord (h : scanWord s = some (word, rest)) : word ≠ [] := by
  unfold scanWord at h
  dsimp only at h
  split at h
  · cases h
  · next hne =>
    cases h
    -- the text begins with a character that is no blank
    obtain ⟨c, cs, hcs⟩ := List.exists_cons_of_ne_nil hne
    have hc : isspace c = false := by
      have hhead := List.head_dropWhile_not isspace hne
      simpa only [hcs, List.head_cons] using hhead
    rw [hcs, List.takeWhile_cons_of_pos (by rw [hc]; rfl)]
    exact List.cons_ne_nil _ _

/-- A number takes characters away. -/
theorem length_le_of_scanInt {n : Int} (h : scanInt s = some (n, rest)) : rest.length ≤ s.length := by
  unfold scanInt at h
  dsimp only at h
  split at h
  · cases h
  · cases h
    have hsign (ds : Text) : (unsigned ds).length ≤ ds.length := by
      fun_cases unsigned ds
      · exact Nat.le_succ _
      · exact Nat.le_succ _
      · exact le_refl _
    exact (List.dropWhile_suffix Char.isDigit).length_le.trans
      ((hsign _).trans (List.dropWhile_suffix isspace).length_le)

/-- A word is no longer than the text it is read from. -/
theorem length_le_of_scanWord (h : scanWord s = some (word, rest)) : word.length + rest.length ≤ s.length := by
  unfold scanWord at h
  dsimp only at h
  split at h
  · cases h
  · cases h
    have hsplit : ((s.dropWhile isspace).takeWhile (!isspace ·) ++
        (s.dropWhile isspace).dropWhile (!isspace ·)).length = (s.dropWhile isspace).length :=
      congrArg List.length List.takeWhile_append_dropWhile
    rw [List.length_append] at hsplit
    have hdrop := (List.dropWhile_suffix isspace (l := s)).length_le
    omega

end Unpv13e.Base.Sscanf
