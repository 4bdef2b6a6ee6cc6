/-!
  Unicode blanks and splitting a text into words.

  `isBlank` is the Unicode White_Space property: the characters a flag string is split at.
  `words` cuts a text at every run of blanks and drops the empty pieces, so no word is empty
  and no word holds a blank.
-/

namespace OffloadAlgebra.Text

/-- The Unicode White_Space property: tab to carriage return, space, next line, no-break
    space, ogham space mark, the spaces U+2000 to U+200A, line and paragraph separators,
    narrow no-break space, medium mathematical space and ideographic space. -/
def isBlank (c : Char) : Bool :=
  let n := c.toNat
  (0x09 ≤ n && n ≤ 0x0D) || n == 0x20 || n == 0x85 || n == 0xA0 || n == 0x1680 ||
    (0x2000 ≤ n && n ≤ 0x200A) || n == 0x2028 || n == 0x2029 || n == 0x202F ||
    n == 0x205F || n == 0x3000

/-- Words of a character list, with `cur` the reversed word being read. -/
def wordsAux : List Char → List Char → List String
  | [], cur => if cur.isEmpty then [] else [String.ofList cur.reverse]
  | c :: cs, cur =>
    if isBlank c then
      if cur.isEmpty then wordsAux cs [] else String.ofList cur.reverse :: wordsAux cs []
    else wordsAux cs (c :: cur)

/-- The words of a text: the maximal runs of characters that are not blanks, in order. -/
def words (s : String) : List String := wordsAux s.toList []

theorem isBlank_of_isWhitespace (c : Char) (h : c.isWhitespace = true) : isBlank c = true := by
  simp only [Char.isWhitespace, Bool.or_eq_true, decide_eq_true_eq] at h
  unfold isBlank
  rcases h with ((h | h) | h) | h <;> subst h <;> decide

end OffloadAlgebra.Text
