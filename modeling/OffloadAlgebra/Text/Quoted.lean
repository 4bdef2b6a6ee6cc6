import OffloadAlgebra.Text.Printable
/-!
  Quoted texts, as diagnostic descriptions show names and messages.

  A quoted text stands between double quotes.  Inside, a double quote, a backslash and the
  characters NUL, tab, line feed and carriage return are written with a backslash escape
  (`\"`, `\\`, `\0`, `\t`, `\n`, `\r`); any other character that does not print, and any
  character that extends the grapheme cluster before it, is written as `\u` followed by its code
  point in lower-case hexadecimal between braces; everything else stands for itself.
-/

namespace OffloadAlgebra.Text

/-- Lower-case hexadecimal digits of a number, most significant first. -/
def hexDigits (n : Nat) : String :=
  String.ofList (Nat.toDigits 16 n)

/-- How one character is written inside a quoted text. -/
def escapeChar (c : Char) : String :=
  if c == '"' then "\\\""
  else if c == '\\' then "\\\\"
  else if c == '\x00' then "\\0"
  else if c == '\t' then "\\t"
  else if c == '\n' then "\\n"
  else if c == '\r' then "\\r"
  else if isGraphemeExtend c || !isPrintable c then "\\u\x7b" ++ hexDigits c.toNat ++ "\x7d"
  else c.toString

/-- A text between double quotes, escaped as the module header describes. -/
def quoted (s : String) : String :=
  "\"" ++ String.join (s.toList.map escapeChar) ++ "\""

end OffloadAlgebra.Text
