import OffloadAlgebra.Source.Token
/-!
  The kernel text scanner: tokens, comments, literals and delimiter balance.

  The scanner reads the UTF-8 bytes of kernel text once, front to back.  It skips `//` line
  comments and `/* */` block comments (which do not nest), skips string and character literals
  (a backslash escapes the next byte, whatever it is), and checks that `(`, `[` and `{` close in
  order.  Lines and columns start at 1; a column counts one per character in code and one per
  byte inside comments and literals, and a newline skipped by an escape is not counted.

  Complaints are collected in scan order; the delimiters still open at the end follow, from
  outermost to innermost.
-/

namespace OffloadAlgebra.Source

/-- Bytes of kernel text. -/
abbrev Bytes := List UInt8

/-- A place in kernel text. -/
structure Cursor where
  line : Nat
  col : Nat
  deriving DecidableEq, Repr, Inhabited

/-- An opening delimiter and where it stands. -/
structure Opener where
  ch : Char
  pos : Cursor
  deriving DecidableEq, Repr, Inhabited

/-- The closing delimiter that matches an opening one. -/
def closerFor : Char → Char
  | '(' => ')'
  | '[' => ']'
  | _ => '}'

/-- A fault the scanner finds in kernel text. -/
inductive Complaint where
  | unterminatedComment (pos : Cursor)
  | unterminatedLiteral (quote : Char) (pos : Cursor)
  | mismatched (pos : Cursor) (opener : Opener) (found : Char)
  | unmatched (pos : Cursor) (found : Char)
  | neverClosed (opener : Opener)
  deriving DecidableEq, Repr, Inhabited

namespace Complaint

/-- Where the complaint points. -/
def place : Complaint → Cursor
  | unterminatedComment c | unterminatedLiteral _ c | mismatched c _ _ | unmatched c _ => c
  | neverClosed o => o.pos

/-- What the complaint says. -/
def text : Complaint → String
  | unterminatedComment _ => "unterminated /* comment"
  | unterminatedLiteral q _ =>
    "missing terminating " ++ (if q = '"' then "string" else "character") ++ " quote"
  | mismatched _ o found =>
    "expected `" ++ (closerFor o.ch).toString ++ "` to match `" ++ o.ch.toString ++ "` at " ++
      toString o.pos.line ++ ":" ++ toString o.pos.col ++ ", found `" ++ found.toString ++ "`"
  | unmatched _ found => "unmatched `" ++ found.toString ++ "`"
  | neverClosed o => "`" ++ o.ch.toString ++ "` is never closed"

/-- The complaint as a line of the build log. -/
def logLine (c : Complaint) : String :=
  "<kernel>:" ++ toString c.place.line ++ ":" ++ toString c.place.col ++ ": error: " ++ c.text ++ "\n"

end Complaint

/-- The byte of an ASCII character. -/
def byteOf (c : Char) : UInt8 := c.toNat.toUInt8

/-- The character a byte stands for on its own (Latin-1 reading). -/
def charOf (b : UInt8) : Char := Char.ofNat b.toNat

/-- Bytes of ASCII letters and underscores, which start an identifier. -/
def isIdentStart (b : UInt8) : Bool := (charOf b).isAlpha || b == byteOf '_'

/-- Bytes of ASCII letters, digits and underscores, which continue an identifier. -/
def isIdentByte (b : UInt8) : Bool := (charOf b).isAlphanum || b == byteOf '_'

/-- Bytes the scanner steps over in code: space, tab, line feed, form feed, carriage return. -/
def isBlankByte (b : UInt8) : Bool :=
  b == 32 || b == 9 || b == 10 || b == 12 || b == 13

/-- Number of bytes of the character whose first byte is `b`. -/
def utf8Width (b : UInt8) : Nat :=
  if b < 0xC0 then 1 else if b < 0xE0 then 2 else if b < 0xF0 then 3 else 4

/-- The rest of a block comment after its opening: whether it closed, what follows it, and
    the cursor after it. -/
def blockComment : Bytes → Cursor → Bool × Bytes × Cursor
  | 42 :: 47 :: rest, c => (true, rest, ⟨c.line, c.col + 2⟩)
  | 10 :: rest, c => blockComment rest ⟨c.line + 1, 1⟩
  | _ :: rest, c => blockComment rest ⟨c.line, c.col + 1⟩
  | [], c => (false, [], c)

/-- The rest of a literal after its opening quote `q`: whether it closed, what follows it,
    and the column after it.  It ends unclosed at a line feed, which stays unread. -/
def literal (q : UInt8) : Bytes → Nat → Bool × Bytes × Nat
  | [], col => (false, [], col)
  | 10 :: rest, col => (false, 10 :: rest, col)
  | 92 :: _ :: rest, col => literal q rest (col + 2)
  | [92], col => (false, [], col + 2)
  | b :: rest, col => if b = q then (true, rest, col + 1) else literal q rest (col + 1)

theorem blockComment_length_le (bs : Bytes) (c : Cursor) :
    (blockComment bs c).2.1.length ≤ bs.length := by
  fun_induction blockComment bs c <;> simp_all <;> omega

theorem literal_length_le (q : UInt8) (bs : Bytes) (col : Nat) :
    (literal q bs col).2.1.length ≤ bs.length := by
  fun_induction literal q bs col <;> simp_all <;> omega

theorem dropWhile_length_le (p : UInt8 → Bool) (bs : Bytes) : (bs.dropWhile p).length ≤ bs.length :=
  (List.dropWhile_suffix p).length_le

/-- What the scanner has gathered so far. -/
structure ScanState where
  cursor : Cursor := ⟨1, 1⟩
  /-- Open delimiters, innermost first. -/
  opened : List Opener := []
  /-- Tokens, last first. -/
  tokens : List Token := []
  /-- Complaints, last first. -/
  complaints : List Complaint := []
  deriving Inhabited

namespace ScanState

def complain (st : ScanState) (c : Complaint) : ScanState := { st with complaints := c :: st.complaints }

def push (st : ScanState) (t : Token) : ScanState := { st with tokens := t :: st.tokens }

def advance (st : ScanState) (n : Nat) : ScanState := { st with cursor := ⟨st.cursor.line, st.cursor.col + n⟩ }

/-- Meeting a delimiter character `c` in code: an opener is pushed, a closer pops its opener
    and complains if it is the wrong one or if none is open. -/
def delimiter (st : ScanState) (c : Char) : ScanState :=
  if c = '(' ∨ c = '[' ∨ c = '{' then { st with opened := ⟨c, st.cursor⟩ :: st.opened }
  else if c = ')' ∨ c = ']' ∨ c = '}' then
    match st.opened with
    | o :: rest =>
      let st := { st with opened := rest }
      if closerFor o.ch = c then st else st.complain (.mismatched st.cursor o c)
    | [] => st.complain (.unmatched st.cursor c)
  else st

end ScanState

/-- Scan the bytes that remain, from a state. -/
def scanFrom (bs : Bytes) (st : ScanState) : ScanState :=
  match bs with
  | [] => st
  | 10 :: rest => scanFrom rest { st with cursor := ⟨st.cursor.line + 1, 1⟩ }
  | 47 :: 47 :: rest =>
    have : (rest.dropWhile (· ≠ 10)).length ≤ rest.length := dropWhile_length_le _ _
    scanFrom (rest.dropWhile (· ≠ 10)) st
  | 47 :: 42 :: rest =>
    let r := blockComment rest ⟨st.cursor.line, st.cursor.col + 2⟩
    have : (blockComment rest ⟨st.cursor.line, st.cursor.col + 2⟩).2.1.length ≤ rest.length :=
      blockComment_length_le _ _
    let st' := if r.1 then st else st.complain (.unterminatedComment st.cursor)
    scanFrom r.2.1 { st' with cursor := r.2.2 }
  | b :: rest =>
    if b = 34 ∨ b = 39 then
      let r := literal b rest (st.cursor.col + 1)
      have : (literal b rest (st.cursor.col + 1)).2.1.length ≤ rest.length :=
        literal_length_le _ _ _
      let st' := if r.1 then st else st.complain (.unterminatedLiteral (charOf b) st.cursor)
      scanFrom r.2.1 { st' with cursor := ⟨st.cursor.line, r.2.2⟩ }
    else if isIdentStart b then
      let more := rest.takeWhile isIdentByte
      let name := String.ofList ((b :: more).map charOf)
      have : (rest.dropWhile isIdentByte).length ≤ rest.length := dropWhile_length_le _ _
      scanFrom (rest.dropWhile isIdentByte) ((st.push (.ident name)).advance (more.length + 1))
    else
      let c := charOf b
      let st := st.delimiter c
      let st := if isBlankByte b then st else st.push (.punct c)
      have : (rest.drop (utf8Width b - 1)).length ≤ rest.length := by simp
      scanFrom (rest.drop (utf8Width b - 1)) (st.advance 1)
termination_by bs.length
decreasing_by all_goals (simp only [List.length_cons]; omega)

/-- The outcome of scanning kernel text: its tokens and its complaints, in order. -/
structure Scanned where
  tokens : List Token
  complaints : List Complaint
  deriving Inhabited

/-- Scan kernel text. -/
def scan (source : String) : Scanned :=
  let st := scanFrom source.toUTF8.toList {}
  ⟨st.tokens.reverse, st.complaints.reverse ++ st.opened.reverse.map .neverClosed⟩

end OffloadAlgebra.Source
