/-!
  Macro names and the ASCII character classes of kernel text.

  A macro name is a non-empty run of ASCII letters, digits and underscores that does not start
  with a digit.  The same rule judges configured base options and the names in `-D` flags.
-/

namespace OffloadAlgebra.Text

/-- A character that may start a macro name: an ASCII letter or an underscore. -/
def isNameStart (c : Char) : Bool := c.isAlpha || c == '_'

/-- A character that may continue a macro name: an ASCII letter, digit or underscore. -/
def isNameChar (c : Char) : Bool := c.isAlphanum || c == '_'

/-- Whether a list of characters spells a macro name. -/
def isMacroNameChars : List Char → Bool
  | [] => false
  | c :: cs => isNameStart c && cs.all isNameChar

/-- Whether a text is a macro name: `[A-Za-z_][A-Za-z0-9_]*` over ASCII. -/
def isMacroName (s : String) : Bool := isMacroNameChars s.toList

/-- The characters the kernel scanner steps over without making a token: space, tab, line
    feed, form feed and carriage return.  The vertical tab is not among them. -/
def isAsciiBlank (c : Char) : Bool :=
  c == ' ' || c == '\t' || c == '\n' || c == '\x0c' || c == '\r'

@[simp] theorem isMacroNameChars_nil : isMacroNameChars [] = false := rfl

theorem isMacroName_iff (s : String) :
    isMacroName s = true ↔
      ∃ c cs, s.toList = c :: cs ∧ isNameStart c = true ∧ ∀ d ∈ cs, isNameChar d = true := by
  unfold isMacroName
  cases h : s.toList with
  | nil => simp [isMacroNameChars]
  | cons c cs =>
    simp only [isMacroNameChars, Bool.and_eq_true, List.all_eq_true, List.cons.injEq]
    constructor
    · rintro ⟨h1, h2⟩
      exact ⟨c, cs, ⟨rfl, rfl⟩, h1, h2⟩
    · rintro ⟨c', cs', ⟨rfl, rfl⟩, h1, h2⟩
      exact ⟨h1, h2⟩

end OffloadAlgebra.Text
