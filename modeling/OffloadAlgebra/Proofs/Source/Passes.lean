import Mathlib
import OffloadAlgebra.Proofs.Source.Scanner
/-!
  The scanner's passes, and the character boundaries they start on.

  The scanner reads kernel text as bytes, one pass of its loop at a time.  A pass takes a line
  feed, a line comment, a block comment, a literal, a name or one character of code from the
  front of the bytes that remain, and the scanner goes on with what follows (`pass`,
  `scanFrom_eq_pass`).  Every pass takes at least one byte (`length_pass_lt`), so the passes
  run to the end of the text (`passes_to_end`).

  On the bytes of a list of characters a pass is a pass over characters (`passAgrees`):
  `charPass` takes the same stretch of characters and makes the same token.  A literal may step
  into the middle of a character, since an escape takes the byte after a backslash whatever it
  is, but the continuation bytes that follow are passed one at a time and a literal stops only at
  an ASCII byte or at the end (`literal_encode_skip`); a block comment likewise
  (`blockComment_encode_rest`).  So a pass from a character boundary ends on one, and every pass
  of a scan starts on a boundary of the text (`scan_passes_on_boundaries`): the byte index is a
  valid position of the text, the bytes that remain are the text's bytes from there, and the
  index grows with each pass.
-/

namespace OffloadAlgebra.Source

/-! ## One pass of the scanner -/

/-- The four fronts a pass tells apart before anything else: a line feed, two slashes, a slash
    and a star, or none of these. -/
theorem front_cases {α : Type} (x nl slash star : α) (rest : List α) :
    x = nl ∨ (x = slash ∧ ∃ r, rest = slash :: r) ∨ (x = slash ∧ ∃ r, rest = star :: r) ∨
      (¬ x = nl ∧ (∀ r, x = slash → rest = slash :: r → False) ∧
        (∀ r, x = slash → rest = star :: r → False)) := by
  by_cases h1 : x = nl
  · exact .inl h1
  by_cases h2 : x = slash ∧ ∃ r, rest = slash :: r
  · exact .inr (.inl h2)
  by_cases h3 : x = slash ∧ ∃ r, rest = star :: r
  · exact .inr (.inr (.inl h3))
  exact .inr (.inr (.inr ⟨h1, fun r h h' => h2 ⟨h, r, h'⟩, fun r h h' => h3 ⟨h, r, h'⟩⟩))

/-- One pass of the scanner's loop over the bytes that remain: the bytes it goes on with and
    the state after the pass. -/
def pass (bs : Bytes) (st : ScanState) : Bytes × ScanState :=
  match bs with
  | [] => ([], st)
  | 10 :: rest => (rest, { st with cursor := ⟨st.cursor.line + 1, 1⟩ })
  | 47 :: 47 :: rest => (rest.dropWhile (· ≠ 10), st)
  | 47 :: 42 :: rest =>
    let r := blockComment rest ⟨st.cursor.line, st.cursor.col + 2⟩
    let st' := if r.1 then st else st.complain (.unterminatedComment st.cursor)
    (r.2.1, { st' with cursor := r.2.2 })
  | b :: rest =>
    if b = 34 ∨ b = 39 then
      let r := literal b rest (st.cursor.col + 1)
      let st' := if r.1 then st else st.complain (.unterminatedLiteral (charOf b) st.cursor)
      (r.2.1, { st' with cursor := ⟨st.cursor.line, r.2.2⟩ })
    else if isIdentStart b then
      let more := rest.takeWhile isIdentByte
      (rest.dropWhile isIdentByte,
        (st.push (.ident (String.ofList ((b :: more).map charOf)))).advance (more.length + 1))
    else
      let c := charOf b
      let st := st.delimiter c
      let st := if isBlankByte b then st else st.push (.punct c)
      (rest.drop (utf8Width b - 1), st.advance 1)

/-- The scanner is the loop of its passes. -/
theorem scanFrom_eq_pass (b : UInt8) (rest : Bytes) (st : ScanState) :
    scanFrom (b :: rest) st = scanFrom (pass (b :: rest) st).1 (pass (b :: rest) st).2 := by
  rcases front_cases b 10 47 42 rest with rfl | ⟨rfl, r, rfl⟩ | ⟨rfl, r, rfl⟩ | ⟨h10, h1, h2⟩
  · rw [scanFrom.eq_2, pass.eq_2]
  · rw [scanFrom.eq_3, pass.eq_3]
  · rw [scanFrom.eq_4, pass.eq_4]
  · rw [scanFrom.eq_5 st b rest h10 h1 h2, pass.eq_5 st b rest h10 h1 h2]
    split_ifs <;> rfl

/-- Every pass takes at least one byte. -/
theorem length_pass_lt (b : UInt8) (rest : Bytes) (st : ScanState) :
    (pass (b :: rest) st).1.length < (b :: rest).length := by
  rw [List.length_cons, Nat.lt_succ_iff]
  rcases front_cases b 10 47 42 rest with rfl | ⟨rfl, r, rfl⟩ | ⟨rfl, r, rfl⟩ | ⟨h10, h1, h2⟩
  · rw [pass.eq_2]
  · rw [pass.eq_3]
    exact (dropWhile_length_le _ r).trans (Nat.le_succ _)
  · rw [pass.eq_4]
    exact (blockComment_length_le r _).trans (Nat.le_succ _)
  · rw [pass.eq_5 st b rest h10 h1 h2]
    split_ifs
    · exact literal_length_le _ _ _
    · exact dropWhile_length_le _ _
    all_goals simp

/-! ## One pass over characters -/

/-- The character a character of code stands for as punctuation: the character its first
    byte stands for on its own, which is the character itself for ASCII. -/
def leadChar (c : Char) : Char := charOf ((String.utf8EncodeChar c).headD 0)

/-- One pass over characters: what it leaves of the text, and the token it makes. -/
def charPass : List Char → List Char × Option Token
  | [] => ([], none)
  | '\n' :: t => (t, none)
  | '/' :: '/' :: t => (t.dropWhile (· ≠ '\n'), none)
  | '/' :: '*' :: t => ((afterCommentEnd t).getD [], none)
  | c :: t =>
    if isQuote c then (skipLiteral c t, none)
    else if Text.isNameStart c then
      (t.dropWhile Text.isNameChar, some (.ident (String.ofList (c :: t.takeWhile Text.isNameChar))))
    else if Text.isAsciiBlank c then (t, none)
    else (t, some (.punct (leadChar c)))

theorem afterCommentEnd_suffix (t : List Char) : (afterCommentEnd t).getD [] <:+ t := by
  cases h : afterCommentEnd t with
  | none => exact List.nil_suffix
  | some r =>
    obtain ⟨body, rfl, -⟩ := afterCommentEnd_eq_some_iff.mp h
    exact ⟨body ++ ['*', '/'], by simp⟩

/-- A pass over characters leaves a part of what follows the first character. -/
theorem charPass_suffix (c : Char) (t : List Char) : (charPass (c :: t)).1 <:+ t := by
  rcases front_cases c '\n' '/' '*' t with rfl | ⟨rfl, r, rfl⟩ | ⟨rfl, r, rfl⟩ | ⟨hn, h1, h2⟩
  · rw [charPass.eq_2]
  · rw [charPass.eq_3]
    exact (List.dropWhile_suffix _).trans (List.suffix_cons _ _)
  · rw [charPass.eq_4]
    exact (afterCommentEnd_suffix r).trans (List.suffix_cons _ _)
  · rw [charPass.eq_5 c t hn h1 h2]
    split_ifs
    · exact skipLiteral_suffix c t
    · exact List.dropWhile_suffix _
    all_goals exact List.suffix_refl t

/-! ## The bytes of characters under a pass -/

namespace ScanState

variable (st : ScanState)

@[simp] theorem push_tokens (t : Token) : (st.push t).tokens = t :: st.tokens := rfl
@[simp] theorem advance_tokens (n : Nat) : (st.advance n).tokens = st.tokens := rfl

@[simp] theorem delimiter_tokens (c : Char) : (st.delimiter c).tokens = st.tokens := by
  unfold ScanState.delimiter
  split_ifs
  · rfl
  · split
    · split_ifs <;> rfl
    · rfl
  · rfl

end ScanState

theorem blockComment_rest_of_open {bs : Bytes} {cur : Cursor} (h : (blockComment bs cur).1 = false) :
    (blockComment bs cur).2.1 = [] := by
  fun_induction blockComment bs cur with
  | case1 => cases h
  | case2 _ _ ih => exact ih h
  | case3 _ _ _ _ _ ih => exact ih h
  | case4 => rfl

/-- Closed or not, a block comment's bytes leave the bytes of what its characters leave. -/
theorem blockComment_encode_rest (t : List Char) (cur : Cursor) :
    (blockComment (encode t) cur).2.1 = encode ((afterCommentEnd t).getD []) := by
  obtain ⟨hclosed, hrest⟩ := blockComment_encode t cur
  cases h : afterCommentEnd t with
  | none =>
    rw [h, Option.isSome_none] at hclosed
    exact blockComment_rest_of_open hclosed
  | some r => exact hrest r h

/-- A name's bytes are the bytes of its characters. -/
theorem takeWhile_isIdentByte_encode (t : List Char) :
    (encode t).takeWhile isIdentByte = encode (t.takeWhile Text.isNameChar) := by
  induction t with
  | nil => rfl
  | cons c t ih =>
    by_cases hc : Text.isNameChar c = true
    · have hascii := toNat_lt_of_isNameChar hc
      have hb : isIdentByte (byteOf c) = true := by rw [isIdentByte_eq, charOf_byteOf hascii, hc]
      rw [encode_cons, utf8EncodeChar_ascii hascii, List.singleton_append, List.takeWhile_cons_of_pos hb, ih,
        List.takeWhile_cons_of_pos hc, encode_cons, utf8EncodeChar_ascii hascii, List.singleton_append]
    · -- the first byte is no identifier byte, so both stop here
      obtain ⟨b, bs, he, hb⟩ := class_head_utf8EncodeChar (fun _ => toNat_lt_of_isNameChar) c
      rw [encode_cons, he, List.cons_append, List.takeWhile_cons_of_neg (by rw [isIdentByte_eq, hb]; exact hc),
        List.takeWhile_cons_of_neg hc, encode_nil]

/-- ASCII characters read back from their bytes. -/
theorem map_charOf_encode {u : List Char} (hu : ∀ c ∈ u, c.toNat < 128) : (encode u).map charOf = u := by
  induction u with
  | nil => rfl
  | cons c u ih =>
    have hc := hu c List.mem_cons_self
    rw [encode_cons, utf8EncodeChar_ascii hc, List.singleton_append, List.map_cons, charOf_byteOf hc,
      ih fun d hd => hu d (List.mem_cons_of_mem c hd)]

theorem byteOf_beq {c d : Char} (hc : c.toNat < 128) (hd : d.toNat < 128) : (byteOf c == byteOf d) = (c == d) := by
  rw [Bool.eq_iff_iff, beq_iff_eq, beq_iff_eq]
  exact ⟨fun h => by rw [← charOf_byteOf hc, h, charOf_byteOf hd], fun h => h ▸ rfl⟩

/-- On ASCII the scanner's blank bytes are the blank characters. -/
theorem isBlankByte_byteOf {c : Char} (hc : c.toNat < 128) : isBlankByte (byteOf c) = Text.isAsciiBlank c := by
  have h : isBlankByte (byteOf c) = (byteOf c == byteOf ' ' || byteOf c == byteOf '\t' ||
      byteOf c == byteOf '\n' || byteOf c == byteOf '\x0c' || byteOf c == byteOf '\r') := rfl
  rw [h, byteOf_beq hc (by decide), byteOf_beq hc (by decide), byteOf_beq hc (by decide),
    byteOf_beq hc (by decide), byteOf_beq hc (by decide)]
  rfl

theorem not_quote_byte {c : Char} (hca : c.toNat < 128) (hq : isQuote c = false) :
    ¬ (byteOf c = 34 ∨ byteOf c = 39) := by
  rintro (h | h)
  · exact byteOf_ne hca (d := '"') (by decide) (fun e => by simp [e, isQuote] at hq) h
  · exact byteOf_ne hca (d := '\'') (by decide) (fun e => by simp [e, isQuote] at hq) h

/-- A character that is not `d₁` followed by `d₂` is no such pair of bytes either. -/
theorem not_byte_pair {c d₁ d₂ : Char} {t : List Char} (hca : c.toNat < 128) (h₁ : d₁.toNat < 128)
    (h₂ : d₂.toNat < 128) (h : ∀ r, c = d₁ → t = d₂ :: r → False) :
    ∀ rest, byteOf c = byteOf d₁ → encode t = byteOf d₂ :: rest → False := by
  intro rest hc ht
  obtain ⟨u, rfl, -⟩ := encode_eq_cons_ascii ht (by rw [toNat_byteOf h₂]; exact h₂)
  exact h u (by rw [← charOf_byteOf hca, hc, charOf_byteOf h₁]) (by rw [charOf_byteOf h₂])

/-- A pass over the bytes of a text agrees with the pass over its characters: it leaves the
    bytes of what the character pass leaves, and makes the same token. -/
def PassAgrees (t : List Char) : Prop :=
  ∀ st, (pass (encode t) st).1 = encode (charPass t).1 ∧
    (pass (encode t) st).2.tokens = (charPass t).2.toList ++ st.tokens

theorem PassAgrees.newline (t : List Char) : PassAgrees ('\n' :: t) := fun st => by
  have he : encode ('\n' :: t) = 10 :: encode t := rfl
  rw [he, pass.eq_2, charPass.eq_2]
  exact ⟨rfl, rfl⟩

theorem PassAgrees.lineComment (t : List Char) : PassAgrees ('/' :: '/' :: t) := fun st => by
  have he : encode ('/' :: '/' :: t) = 47 :: 47 :: encode t := rfl
  rw [he, pass.eq_3, charPass.eq_3, dropWhile_encode]
  exact ⟨rfl, rfl⟩

theorem PassAgrees.blockComment (t : List Char) : PassAgrees ('/' :: '*' :: t) := fun st => by
  have he : encode ('/' :: '*' :: t) = 47 :: 42 :: encode t := rfl
  rw [he, pass.eq_4, charPass.eq_4]
  refine ⟨blockComment_encode_rest t _, ?_⟩
  dsimp only
  split <;> rfl

theorem PassAgrees.literal {q : Char} (hq : isQuote q = true) (t : List Char) : PassAgrees (q :: t) := fun st => by
  have hqa := toNat_lt_of_isQuote hq
  have hb : byteOf q = 34 ∨ byteOf q = 39 := by
    simp only [isQuote, Bool.or_eq_true, beq_iff_eq] at hq
    rcases hq with rfl | rfl <;> decide
  have h47 : byteOf q ≠ 47 := by rcases hb with hb | hb <;> rw [hb] <;> decide
  have h10 : byteOf q ≠ 10 := by rcases hb with hb | hb <;> rw [hb] <;> decide
  have hs : q ≠ '/' := fun h => h47 (by rw [h]; decide)
  rw [encode_cons, utf8EncodeChar_ascii hqa, List.singleton_append,
    pass.eq_5 st (byteOf q) (encode t) h10 (fun _ h _ => h47 h) (fun _ h _ => h47 h), if_pos hb,
    charPass.eq_5 q t (ne_newline_of_isQuote hq) (fun _ h _ => hs h) (fun _ h _ => hs h), if_pos hq]
  refine ⟨(literal_encode_skip hq t _).2, ?_⟩
  dsimp only
  split <;> rfl

theorem PassAgrees.name {c : Char} (hc : Text.isNameStart c = true) (t : List Char) : PassAgrees (c :: t) := fun st => by
  have hname := isNameChar_of_isNameStart hc
  have hca := toNat_lt_of_isNameChar hname
  obtain ⟨hq, hs, hn, -⟩ := plain_of_isNameChar hname
  have h10 : byteOf c ≠ 10 := byteOf_ne hca (d := '\n') (by decide) hn
  have h47 : byteOf c ≠ 47 := byteOf_ne hca (d := '/') (by decide) hs
  have hident : isIdentStart (byteOf c) = true := by rw [isIdentStart_eq, charOf_byteOf hca, hc]
  rw [encode_cons, utf8EncodeChar_ascii hca, List.singleton_append,
    pass.eq_5 st (byteOf c) (encode t) h10 (fun _ h _ => h47 h) (fun _ h _ => h47 h),
    if_neg (not_quote_byte hca hq), if_pos hident,
    charPass.eq_5 c t hn (fun _ h _ => hs h) (fun _ h _ => hs h), if_neg (by simp [hq]), if_pos hc]
  refine ⟨dropWhile_isIdentByte_encode t, ?_⟩
  -- the name read back from its bytes is its characters
  have hu : ∀ d ∈ t.takeWhile Text.isNameChar, d.toNat < 128 :=
    fun d hd => toNat_lt_of_isNameChar (List.mem_takeWhile_imp hd)
  simp only [takeWhile_isIdentByte_encode, List.map_cons, charOf_byteOf hca, map_charOf_encode hu]
  rfl

theorem PassAgrees.ascii {c : Char} (t : List Char) (hca : c.toNat < 128) (hn : c ≠ '\n')
    (hq : isQuote c = false) (hname : Text.isNameStart c = false)
    (h₁ : ∀ r, c = '/' → t = '/' :: r → False) (h₂ : ∀ r, c = '/' → t = '*' :: r → False) :
    PassAgrees (c :: t) := fun st => by
  have h10 : byteOf c ≠ 10 := byteOf_ne hca (d := '\n') (by decide) hn
  have hident : ¬ isIdentStart (byteOf c) = true := by rw [isIdentStart_eq, charOf_byteOf hca, hname]; simp
  have hwidth : utf8Width (byteOf c) - 1 = 0 := by
    rw [utf8Width_eq, if_pos (by rw [toNat_byteOf hca]; omega)]
  rw [encode_cons, utf8EncodeChar_ascii hca, List.singleton_append,
    pass.eq_5 st (byteOf c) (encode t) h10 (not_byte_pair hca (by decide) (by decide) h₁)
      (not_byte_pair hca (by decide) (by decide) h₂),
    if_neg (not_quote_byte hca hq), if_neg hident, hwidth, List.drop_zero, charOf_byteOf hca,
    charPass.eq_5 c t hn h₁ h₂, if_neg (by simp [hq]), if_neg (by simp [hname]), isBlankByte_byteOf hca]
  have hlead : leadChar c = c := by rw [leadChar, utf8EncodeChar_ascii hca]; exact charOf_byteOf hca
  dsimp only
  split_ifs <;> simp [hlead]

/-- A character beyond ASCII is plain code: no line feed, slash, quote, name start or blank. -/
theorem plain_of_wide {c : Char} (hc : 128 ≤ c.toNat) :
    c ≠ '\n' ∧ c ≠ '/' ∧ isQuote c = false ∧ Text.isNameStart c = false ∧ Text.isAsciiBlank c = false := by
  have hascii : ∀ d : Char, d.toNat < 128 → c ≠ d := fun d hd h => by subst h; omega
  refine ⟨hascii _ (by decide), hascii _ (by decide), ?_, ?_, ?_⟩
  · cases hq : isQuote c
    · rfl
    · have := toNat_lt_of_isQuote hq
      omega
  · cases hname : Text.isNameStart c
    · rfl
    · have := toNat_lt_of_isNameChar (isNameChar_of_isNameStart hname)
      omega
  · simp only [Text.isAsciiBlank, Bool.or_eq_false_iff, beq_eq_false_iff_ne]
    exact ⟨⟨⟨⟨hascii _ (by decide), hascii _ (by decide)⟩, hascii _ (by decide)⟩, hascii _ (by decide)⟩,
      hascii _ (by decide)⟩

theorem PassAgrees.wide {c : Char} (hc : 128 ≤ c.toNat) (t : List Char) : PassAgrees (c :: t) := fun st => by
  obtain ⟨lead, conts, he, hlead, hwidth, -⟩ := utf8EncodeChar_wide hc
  -- the lead byte is no byte the scanner looks for
  have hsmall : ∀ n : UInt8, n.toNat < 128 → lead ≠ n := fun n hn h => by subst h; omega
  have hident : ¬ isIdentStart lead = true := by
    rw [isIdentStart_eq]
    intro hs
    have := toNat_lt_of_isNameChar (isNameChar_of_isNameStart hs)
    rw [toNat_charOf] at this
    omega
  have hblank : isBlankByte lead = false := by
    simp only [isBlankByte, Bool.or_eq_false_iff, beq_eq_false_iff_ne]
    exact ⟨⟨⟨⟨hsmall 32 (by decide), hsmall 9 (by decide)⟩, hsmall 10 (by decide)⟩, hsmall 12 (by decide)⟩,
      hsmall 13 (by decide)⟩
  rw [encode_cons, he, List.cons_append,
    pass.eq_5 st lead (conts ++ encode t) (hsmall 10 (by decide)) (fun _ h _ => hsmall 47 (by decide) h)
      (fun _ h _ => hsmall 47 (by decide) h),
    if_neg (by rintro (h | h) <;> exact hsmall _ (by decide) h), if_neg hident, hwidth, Nat.add_sub_cancel,
    List.drop_left]
  -- the character is plain code of one punctuation token
  obtain ⟨hn, hs, hq, hname, hasciiBlank⟩ := plain_of_wide hc
  rw [charPass.eq_5 c t hn (fun _ h _ => hs h) (fun _ h _ => hs h), if_neg (by simp [hq]),
    if_neg (by simp [hname]), if_neg (by simp [hasciiBlank])]
  refine ⟨rfl, ?_⟩
  simp [hblank, leadChar, he]

/-- A pass over the bytes of characters is the pass over the characters. -/
theorem passAgrees (c : Char) (t : List Char) : PassAgrees (c :: t) := by
  by_cases hn : c = '\n'
  · subst hn
    exact .newline t
  by_cases hq : isQuote c = true
  · exact .literal hq t
  rcases front_cases c '\n' '/' '*' t with h | ⟨rfl, r, rfl⟩ | ⟨rfl, r, rfl⟩ | ⟨-, h₁, h₂⟩
  · exact absurd h hn
  · exact .lineComment r
  · exact .blockComment r
  rcases Nat.lt_or_ge c.toNat 128 with hca | hca
  · by_cases hname : Text.isNameStart c = true
    · exact .name hname t
    · exact .ascii t hca hn (by simpa using hq) (by simpa using hname) h₁ h₂
  · exact .wide hca t

/-! ## Every pass of a scan starts on a character boundary -/

/-- The bytes that remain start on a character boundary of the text: they are the bytes of the
    characters that follow a first part of it. -/
def OnBoundary (source : String) (bs : Bytes) : Prop :=
  ∃ p t, source.toList = p ++ t ∧ bs = encode t

theorem onBoundary_start (source : String) : OnBoundary source source.toUTF8.toList :=
  ⟨[], source.toList, rfl, toUTF8_toList source⟩

/-- A pass from a character boundary ends on one. -/
theorem OnBoundary.pass {source : String} {bs : Bytes} (h : OnBoundary source bs) (st : ScanState) :
    OnBoundary source (pass bs st).1 := by
  obtain ⟨p, t, hs, rfl⟩ := h
  cases t with
  | nil => exact ⟨p, [], hs, rfl⟩
  | cons c t =>
    obtain ⟨u, hu⟩ := charPass_suffix c t
    refine ⟨p ++ c :: u, (charPass (c :: t)).1, ?_, ((passAgrees c t) st).1⟩
    rw [hs, List.append_assoc, List.cons_append, hu]

theorem length_encode (t : List Char) : (encode t).length = String.utf8Len t := by
  induction t with
  | nil => rfl
  | cons c t ih => rw [encode_cons, List.length_append, ih, String.length_utf8EncodeChar, String.utf8Len_cons,
      Nat.add_comm]

/-- On a character boundary the byte index is a valid position of the text, and the bytes that
    remain are the text's bytes from that index on. -/
theorem OnBoundary.isValid {source : String} {bs : Bytes} (h : OnBoundary source bs) :
    String.Pos.Raw.IsValid source ⟨source.utf8ByteSize - bs.length⟩ ∧
      bs = source.toUTF8.toList.drop (source.utf8ByteSize - bs.length) := by
  obtain ⟨p, t, hs, rfl⟩ := h
  have hsplit : source = String.ofList p ++ String.ofList t := by
    rw [← String.ofList_append, ← hs, String.ofList_toList]
  have hsize : source.utf8ByteSize - (encode t).length = (encode p).length := by
    rw [hsplit, String.utf8ByteSize_append, String.utf8ByteSize_ofList, String.utf8ByteSize_ofList,
      length_encode, length_encode, Nat.add_sub_cancel]
  rw [hsize]
  refine ⟨String.Pos.Raw.isValid_iff_exists_append.mpr ⟨String.ofList p, String.ofList t, hsplit, ?_⟩, ?_⟩
  · rw [String.rawEndPos, String.utf8ByteSize_ofList, length_encode]
  · rw [toUTF8_toList, hs, encode_append, List.drop_left]

/-- One pass of the scanner's loop: some bytes remain, and the pass is taken. -/
def PassStep (a b : Bytes × ScanState) : Prop := a.1 ≠ [] ∧ b = pass a.1 a.2

/-- The states the scanner's loop goes through from a state: zero or more passes. -/
def Passes : Bytes × ScanState → Bytes × ScanState → Prop := Relation.ReflTransGen PassStep

/-- Passing on does not change where the scan ends. -/
theorem Passes.scanFrom_eq {a b : Bytes × ScanState} (h : Passes a b) : scanFrom a.1 a.2 = scanFrom b.1 b.2 := by
  induction h with
  | refl => rfl
  | @tail c _ _ hstep ih =>
    obtain ⟨hne, rfl⟩ := hstep
    obtain ⟨bs, st⟩ := c
    cases bs with
    | nil => exact absurd rfl hne
    | cons b rest => exact ih.trans (scanFrom_eq_pass b rest st)

theorem Passes.onBoundary {source : String} {a b : Bytes × ScanState} (h : Passes a b)
    (ha : OnBoundary source a.1) : OnBoundary source b.1 := by
  induction h with
  | refl => exact ha
  | tail _ hstep ih =>
    obtain ⟨-, rfl⟩ := hstep
    exact ih.pass _

/-- The passes run to the end of the bytes: the loop ends. -/
theorem passes_to_end (a : Bytes × ScanState) : ∃ st, Passes a ([], st) := by
  obtain ⟨bs, st⟩ := a
  induction hlen : bs.length using Nat.strong_induction_on generalizing bs st with
  | _ n ih =>
    cases bs with
    | nil => exact ⟨st, Relation.ReflTransGen.refl⟩
    | cons b rest =>
      -- one pass, then the passes from the shorter rest
      obtain ⟨st', h⟩ :=
        ih _ (hlen ▸ length_pass_lt b rest st) (pass (b :: rest) st).1 (pass (b :: rest) st).2 rfl
      exact ⟨st', Relation.ReflTransGen.head ⟨List.cons_ne_nil b rest, rfl⟩ h⟩

/-- Every pass of a scan starts on a character boundary of the text.  At the start of each pass
    the byte index `i` (the text's size less the bytes that remain) is a valid position of the
    text, so slicing the text at `i`, or between the starts of two passes, is always valid; the
    bytes that remain are the text's bytes from `i` on; a pass with bytes left moves `i` forward;
    and from every pass the loop reaches the end of the text, where the scanner's answer is
    read off. -/
theorem scan_passes_on_boundaries (source : String) {bs : Bytes} {st : ScanState}
    (h : Passes (source.toUTF8.toList, {}) (bs, st)) :
    String.Pos.Raw.IsValid source ⟨source.utf8ByteSize - bs.length⟩ ∧
    bs = source.toUTF8.toList.drop (source.utf8ByteSize - bs.length) ∧
    (bs ≠ [] → (pass bs st).1.length < bs.length) ∧
    ∃ st', Passes (bs, st) ([], st') ∧
      scan source = ⟨st'.tokens.reverse, st'.complaints.reverse ++ st'.opened.reverse.map .neverClosed⟩ := by
  obtain ⟨hvalid, hdrop⟩ := (h.onBoundary (onBoundary_start source)).isValid
  refine ⟨hvalid, hdrop, ?_, ?_⟩
  · intro hne
    obtain ⟨b, rest, rfl⟩ := List.exists_cons_of_ne_nil hne
    exact length_pass_lt b rest st
  · obtain ⟨st', hend⟩ := passes_to_end (bs, st)
    refine ⟨st', hend, ?_⟩
    -- the scan from the start ends where the scan from this pass does
    have hscan : scanFrom source.toUTF8.toList {} = st' :=
      (h.scanFrom_eq.trans hend.scanFrom_eq).trans (scanFrom.eq_1 st')
    rw [scan, hscan]

/-- A literal whose escape takes the first byte of `é`: its pass ends after the closing quote,
    before the final `x`, on a character boundary. -/
theorem escaped_literal_pass_on_boundary :
    Passes ("\"\\é\"x".toUTF8.toList, {}) (pass "\"\\é\"x".toUTF8.toList {}) ∧
      (pass "\"\\é\"x".toUTF8.toList {}).1 = [120] ∧
      String.Pos.Raw.IsValid "\"\\é\"x" ⟨"\"\\é\"x".utf8ByteSize - 1⟩ := by
  have hne : "\"\\é\"x".toUTF8.toList ≠ [] := by
    rw [toUTF8_toList]
    decide
  have hrest : (pass "\"\\é\"x".toUTF8.toList {}).1 = [120] := by
    rw [toUTF8_toList]
    decide
  have h : Passes ("\"\\é\"x".toUTF8.toList, {}) (pass "\"\\é\"x".toUTF8.toList {}) :=
    Relation.ReflTransGen.single ⟨hne, rfl⟩
  have hvalid : String.Pos.Raw.IsValid "\"\\é\"x"
      ⟨"\"\\é\"x".utf8ByteSize - (pass "\"\\é\"x".toUTF8.toList {}).1.length⟩ :=
    (scan_passes_on_boundaries _ h).1
  rw [hrest] at hvalid
  exact ⟨h, hrest, hvalid⟩

end OffloadAlgebra.Source
