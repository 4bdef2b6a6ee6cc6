import Mathlib
import OffloadAlgebra.Proofs.Source.Lexing
import OffloadAlgebra.Text.Identifier
/-!
  UTF-8 under the scanner.

  The scanner reads bytes, and kernel text is characters.  An ASCII character is one byte, its
  own code.  Any other character is a lead byte of at least 0xC0, which tells how many bytes
  follow, and that many continuation bytes in [0x80, 0xC0).  Every byte the scanner looks for
  (line feed, slash, star, quotes, backslash, delimiters, identifier bytes) is ASCII, and an
  ASCII byte in a character's bytes is the whole character (`eq_of_mem_utf8EncodeChar`).  So a
  wider character is one piece of plain code: its lead byte is no byte of any class, and its
  continuation bytes are skipped by the width in code and passed one at a time in comments and
  literals.

  Each skip of the scanner over bytes is then the skip over characters that `Lexing` states:
  `dropWhile_encode` for line comments, `blockComment_encode` and `literal_encode` for comments
  and literals, `dropWhile_isIdentByte_encode` for identifiers.
-/

namespace OffloadAlgebra.Source

/-- The UTF-8 bytes of a list of characters. -/
def encode (t : List Char) : Bytes := t.flatMap String.utf8EncodeChar

@[simp] theorem encode_nil : encode [] = [] := rfl

@[simp] theorem encode_cons (c : Char) (t : List Char) :
    encode (c :: t) = String.utf8EncodeChar c ++ encode t := List.flatMap_cons

@[simp] theorem encode_append (t u : List Char) : encode (t ++ u) = encode t ++ encode u :=
  List.flatMap_append

theorem byteArray_toList_loop (bs : ByteArray) : ∀ k i r, bs.size - i = k →
    ByteArray.toList.loop bs i r = r.reverse ++ bs.data.toList.drop i := by
  have hlen : bs.data.toList.length = bs.size := by rw [Array.length_toList]; rfl
  intro k
  induction k with
  | zero =>
    intro i r hk
    rw [ByteArray.toList.loop.eq_1, if_neg (by omega), List.drop_eq_nil_of_le (by omega), List.append_nil]
  | succ k ih =>
    intro i r hk
    have hi : i < bs.data.toList.length := by omega
    rw [ByteArray.toList.loop.eq_1, if_pos (by omega), ih (i + 1) _ (by omega)]
    conv_rhs => rw [List.drop_eq_getElem_cons hi]
    have hget : bs.get! i = bs.data.toList[i] := by
      simp only [ByteArray.get!, Array.getElem_toList]
      exact getElem!_pos bs.data i (by simpa using hi)
    simp [hget]

theorem byteArray_toList (bs : ByteArray) : bs.toList = bs.data.toList := by
  show ByteArray.toList.loop bs 0 [] = _
  simpa using byteArray_toList_loop bs _ 0 [] rfl

/-- The bytes the scanner reads are the UTF-8 bytes of the text's characters. -/
theorem toUTF8_toList (s : String) : s.toUTF8.toList = encode s.toList := by
  rw [byteArray_toList, String.toUTF8_eq_toByteArray, ← String.ofList_toList (s := s),
    String.toByteArray_ofList, String.toList_ofList, List.utf8Encode, List.toList_data_toByteArray]
  rfl

/-! ## Bytes of one character -/

theorem char_toNat_lt (c : Char) : c.toNat < 0x110000 := by
  have h := c.valid
  simp only [UInt32.isValidChar, Nat.isValidChar] at h
  simp only [← Char.toNat_val]
  omega

theorem toNat_byteOf {c : Char} (h : c.toNat < 128) : (byteOf c).toNat = c.toNat := by
  simp only [byteOf, Nat.toUInt8_eq, UInt8.toNat_ofNat']
  omega

theorem toNat_charOf (b : UInt8) : (charOf b).toNat = b.toNat := by
  have hv : b.toNat.isValidChar := Or.inl (by have := b.toNat_lt; omega)
  simp [charOf, Char.ofNat, hv, Char.ofNatAux, Char.toNat]

theorem charOf_byteOf {c : Char} (h : c.toNat < 128) : charOf (byteOf c) = c :=
  Char.toNat_inj.mp (by rw [toNat_charOf, toNat_byteOf h])

theorem utf8EncodeChar_ascii {c : Char} (h : c.toNat < 128) : String.utf8EncodeChar c = [byteOf c] := by
  have h1 : c.toNat ≤ 127 := by omega
  simp [String.utf8EncodeChar, h1, byteOf, Nat.toUInt8_eq]

theorem utf8Width_eq (b : UInt8) :
    utf8Width b = if b.toNat < 0xC0 then 1 else if b.toNat < 0xE0 then 2 else if b.toNat < 0xF0 then 3 else 4 := by
  simp [utf8Width, UInt8.lt_iff_toNat_lt]

/-- A character beyond ASCII is a lead byte of at least 0xC0 that announces the continuation
    bytes after it. -/
theorem utf8EncodeChar_wide {c : Char} (h : 128 ≤ c.toNat) :
    ∃ lead conts, String.utf8EncodeChar c = lead :: conts ∧ 0xC0 ≤ lead.toNat ∧
      utf8Width lead = conts.length + 1 ∧ ∀ b ∈ conts, 0x80 ≤ b.toNat ∧ b.toNat < 0xC0 := by
  have hv := char_toNat_lt c
  simp only [String.utf8EncodeChar, Char.toNat_val]
  -- the three widths of the encoding, each checked on the byte values
  split
  · omega
  split
  · refine ⟨_, _, rfl, ?_, ?_, ?_⟩
    · simp only [UInt8.toNat_ofNat']; omega
    · rw [utf8Width_eq, if_neg (by simp only [UInt8.toNat_ofNat']; omega),
        if_pos (by simp only [UInt8.toNat_ofNat']; omega)]
      rfl
    · simp only [List.mem_singleton, forall_eq, UInt8.toNat_ofNat']; omega
  split
  · refine ⟨_, _, rfl, ?_, ?_, ?_⟩
    · simp only [UInt8.toNat_ofNat']; omega
    · rw [utf8Width_eq, if_neg (by simp only [UInt8.toNat_ofNat']; omega),
        if_neg (by simp only [UInt8.toNat_ofNat']; omega), if_pos (by simp only [UInt8.toNat_ofNat']; omega)]
      rfl
    · intro b hb
      simp only [List.mem_cons, List.not_mem_nil, or_false] at hb
      rcases hb with rfl | rfl <;> simp only [UInt8.toNat_ofNat'] <;> omega
  · refine ⟨_, _, rfl, ?_, ?_, ?_⟩
    · simp only [UInt8.toNat_ofNat']; omega
    · rw [utf8Width_eq, if_neg (by simp only [UInt8.toNat_ofNat']; omega),
        if_neg (by simp only [UInt8.toNat_ofNat']; omega), if_neg (by simp only [UInt8.toNat_ofNat']; omega)]
      rfl
    · intro b hb
      simp only [List.mem_cons, List.not_mem_nil, or_false] at hb
      rcases hb with rfl | rfl | rfl <;> simp only [UInt8.toNat_ofNat'] <;> omega

/-- Every character is a first byte and continuation bytes, none of them ASCII. -/
theorem utf8EncodeChar_eq_cons (c : Char) :
    ∃ b bs, String.utf8EncodeChar c = b :: bs ∧ ∀ x ∈ bs, 0x80 ≤ x.toNat := by
  rcases Nat.lt_or_ge c.toNat 128 with h | h
  · exact ⟨_, [], utf8EncodeChar_ascii h, by simp⟩
  · obtain ⟨lead, conts, he, -, -, hc⟩ := utf8EncodeChar_wide h
    exact ⟨lead, conts, he, fun x hx => (hc x hx).1⟩

/-- An ASCII byte among a character's bytes is the whole character. -/
theorem eq_of_mem_utf8EncodeChar {c : Char} {b : UInt8} (hb : b ∈ String.utf8EncodeChar c)
    (h : b.toNat < 128) : c.toNat = b.toNat ∧ String.utf8EncodeChar c = [b] := by
  rcases Nat.lt_or_ge c.toNat 128 with hc | hc
  · rw [utf8EncodeChar_ascii hc, List.mem_singleton] at hb
    subst hb
    exact ⟨(toNat_byteOf hc).symm, utf8EncodeChar_ascii hc⟩
  · obtain ⟨lead, conts, he, hlead, -, hconts⟩ := utf8EncodeChar_wide hc
    rw [he, List.mem_cons] at hb
    rcases hb with rfl | hb
    · omega
    · have := (hconts b hb).1
      omega

/-- A character other than `d` has no byte of the ASCII character `d` among its bytes. -/
theorem ne_byteOf_of_mem {c d : Char} {b : UInt8} (hb : b ∈ String.utf8EncodeChar c) (hd : d.toNat < 128)
    (hcd : c ≠ d) : b ≠ byteOf d := by
  rintro rfl
  have hc := (eq_of_mem_utf8EncodeChar hb (by rw [toNat_byteOf hd]; exact hd)).1
  exact hcd (Char.toNat_inj.mp (hc.trans (toNat_byteOf hd)))

/-- Bytes that start with an ASCII byte start with that character. -/
theorem encode_eq_cons_ascii {t : List Char} {b : UInt8} {rest : Bytes} (h : encode t = b :: rest)
    (hb : b.toNat < 128) : ∃ u, t = charOf b :: u ∧ rest = encode u := by
  cases t with
  | nil => cases h
  | cons c u =>
    obtain ⟨b', bs, he, -⟩ := utf8EncodeChar_eq_cons c
    rw [encode_cons, he, List.cons_append] at h
    obtain ⟨rfl, rfl⟩ := List.cons.inj h
    obtain ⟨hcb, hone⟩ := eq_of_mem_utf8EncodeChar (he ▸ List.mem_cons_self) hb
    rw [he] at hone
    obtain ⟨-, rfl⟩ := List.cons.inj hone
    exact ⟨u, by rw [Char.toNat_inj.mp (hcb.trans (toNat_charOf b').symm)], rfl⟩

/-! ## Character classes are ASCII -/

theorem toNat_lt_of_isDelimiter {c : Char} (h : isDelimiter c = true) : c.toNat < 128 := by
  simp only [isDelimiter, isOpener, isCloser, Bool.or_eq_true, beq_iff_eq] at h
  rcases h with ((rfl | rfl) | rfl) | ((rfl | rfl) | rfl) <;> decide

theorem toNat_lt_of_isNameChar {c : Char} (h : Text.isNameChar c = true) : c.toNat < 128 := by
  simp only [Text.isNameChar, Char.isAlphanum, Char.isAlpha, Char.isUpper, Char.isLower, Char.isDigit,
    Bool.or_eq_true, Bool.and_eq_true, decide_eq_true_eq, beq_iff_eq, UInt32.le_iff_toNat_le,
    Char.toNat_val] at h
  -- each class is bounded by its last character
  have hZ : 'Z'.toNat = 90 := rfl
  have hz : 'z'.toNat = 122 := rfl
  have h9 : '9'.toNat = 57 := rfl
  rcases h with ((h | h) | h) | rfl
  · omega
  · omega
  · omega
  · decide

theorem isNameChar_of_isNameStart {c : Char} (h : Text.isNameStart c = true) : Text.isNameChar c = true := by
  simp only [Text.isNameStart, Text.isNameChar, Char.isAlphanum, Bool.or_eq_true] at h ⊢
  tauto

/-- Identifier bytes are the bytes of name characters. -/
theorem isIdentByte_eq (b : UInt8) : isIdentByte b = Text.isNameChar (charOf b) := by
  have hu : (b == byteOf '_') = (charOf b == '_') := by
    rw [Bool.eq_iff_iff, beq_iff_eq, beq_iff_eq, ← UInt8.toNat_inj, ← Char.toNat_inj, toNat_charOf,
      toNat_byteOf (by decide)]
  simp only [isIdentByte, Text.isNameChar, hu]

theorem isIdentStart_eq (b : UInt8) : isIdentStart b = Text.isNameStart (charOf b) := by
  have hu : (b == byteOf '_') = (charOf b == '_') := by
    rw [Bool.eq_iff_iff, beq_iff_eq, beq_iff_eq, ← UInt8.toNat_inj, ← Char.toNat_inj, toNat_charOf,
      toNat_byteOf (by decide)]
  simp only [isIdentStart, Text.isNameStart, hu]

/-- The first byte of a character belongs to an ASCII class exactly when the character does. -/
theorem class_head_utf8EncodeChar {P : Char → Bool} (hP : ∀ d, P d = true → d.toNat < 128) (c : Char) :
    ∃ b bs, String.utf8EncodeChar c = b :: bs ∧ P (charOf b) = P c := by
  rcases Nat.lt_or_ge c.toNat 128 with hc | hc
  · exact ⟨_, [], utf8EncodeChar_ascii hc, by rw [charOf_byteOf hc]⟩
  · obtain ⟨lead, conts, he, hlead, -⟩ := utf8EncodeChar_wide hc
    refine ⟨lead, conts, he, ?_⟩
    have h1 : P (charOf lead) = false := by
      cases hp : P (charOf lead)
      · rfl
      · have := hP _ hp
        rw [toNat_charOf] at this
        omega
    have h2 : P c = false := by
      cases hp : P c
      · rfl
      · have := hP _ hp
        omega
    rw [h1, h2]

/-! ## The scanner's skips, over the bytes of characters -/

/-- A line comment's bytes end where its characters do, at the first line feed. -/
theorem dropWhile_encode (t : List Char) :
    (encode t).dropWhile (· ≠ 10) = encode (t.dropWhile (· ≠ '\n')) := by
  induction t with
  | nil => rfl
  | cons c t ih =>
    by_cases hc : c = '\n'
    · subst hc
      rfl
    · have hbytes : ∀ b ∈ String.utf8EncodeChar c, decide (b ≠ 10) = true := fun b hb => by
        simpa [show byteOf '\n' = 10 by decide] using ne_byteOf_of_mem hb (d := '\n') (by decide) hc
      rw [encode_cons, List.dropWhile_append_of_pos hbytes, ih, List.dropWhile_cons_of_pos (by simpa using hc)]

/-- An identifier's bytes end where its name characters do. -/
theorem dropWhile_isIdentByte_encode (t : List Char) :
    (encode t).dropWhile isIdentByte = encode (t.dropWhile Text.isNameChar) := by
  induction t with
  | nil => rfl
  | cons c t ih =>
    by_cases hc : Text.isNameChar c = true
    · have hascii := toNat_lt_of_isNameChar hc
      have hb : isIdentByte (byteOf c) = true := by rw [isIdentByte_eq, charOf_byteOf hascii, hc]
      rw [encode_cons, utf8EncodeChar_ascii hascii, List.singleton_append, List.dropWhile_cons_of_pos hb, ih,
        List.dropWhile_cons_of_pos hc]
    · -- the first byte is no identifier byte, so both stop here
      obtain ⟨b, bs, he, hb⟩ := class_head_utf8EncodeChar (fun _ => toNat_lt_of_isNameChar) c
      rw [encode_cons, he, List.cons_append, List.dropWhile_cons_of_neg (by rw [isIdentByte_eq, hb]; exact hc),
        List.dropWhile_cons_of_neg hc, encode_cons, he, List.cons_append]

theorem blockComment_cons {b : UInt8} {rest : Bytes} (h : ¬ (b = 42 ∧ rest.head? = some 47)) (cur : Cursor) :
    ∃ cur', blockComment (b :: rest) cur = blockComment rest cur' := by
  by_cases h10 : b = 10
  · subst h10
    exact ⟨_, blockComment.eq_2 _ _⟩
  · refine ⟨_, blockComment.eq_3 _ _ _ ?_ h10⟩
    rintro rest' rfl rfl
    exact h ⟨rfl, rfl⟩

theorem blockComment_append {bs : Bytes} (h : ∀ b ∈ bs, b ≠ 42) (rest : Bytes) (cur : Cursor) :
    ∃ cur', blockComment (bs ++ rest) cur = blockComment rest cur' := by
  induction bs generalizing cur with
  | nil => exact ⟨cur, rfl⟩
  | cons b bs ih =>
    obtain ⟨cur₁, h₁⟩ := @blockComment_cons b (bs ++ rest) (fun hb => h b List.mem_cons_self hb.1) cur
    obtain ⟨cur₂, h₂⟩ := ih (fun x hx => h x (List.mem_cons_of_mem b hx)) cur₁
    exact ⟨cur₂, h₁.trans h₂⟩

/-- A block comment's bytes close where its characters do, after the first `*/`. -/
theorem blockComment_encode (t : List Char) (cur : Cursor) :
    (blockComment (encode t) cur).1 = (afterCommentEnd t).isSome ∧
      ∀ r, afterCommentEnd t = some r → (blockComment (encode t) cur).2.1 = encode r := by
  fun_induction afterCommentEnd t generalizing cur with
  | case1 rest =>
    have he : encode ('*' :: '/' :: rest) = 42 :: 47 :: encode rest := rfl
    rw [he, blockComment.eq_1]
    simp
  | case2 c rest hne ih =>
    -- the bytes of `c` are passed over, and the comment goes on after them
    obtain ⟨cur', hskip⟩ : ∃ cur', blockComment (encode (c :: rest)) cur = blockComment (encode rest) cur' := by
      by_cases hc : c = '*'
      · subst hc
        rw [encode_cons, show String.utf8EncodeChar '*' = [42] from rfl, List.singleton_append]
        refine blockComment_cons (fun hstar => ?_) cur
        have hh := hstar.2
        cases hr : encode rest with
        | nil => rw [hr] at hh; cases hh
        | cons x xs =>
          rw [hr] at hh
          cases hh
          obtain ⟨u, rfl, -⟩ := encode_eq_cons_ascii hr (by decide)
          exact hne u rfl rfl
      · rw [encode_cons]
        refine blockComment_append (fun b hb => ?_) _ cur
        simpa [show byteOf '*' = 42 by decide] using ne_byteOf_of_mem hb (d := '*') (by decide) hc
    rw [hskip]
    exact ih cur'
  | case3 =>
    rw [encode_nil, blockComment.eq_4]
    simp

theorem literal_plain {q b : UInt8} {rest : Bytes} (h10 : b ≠ 10) (h92 : b ≠ 92) (hq : b ≠ q) (col : Nat) :
    literal q (b :: rest) col = literal q rest (col + 1) := by
  rw [literal.eq_5 _ _ _ _ h10 (fun _ _ h => absurd h h92) (fun h => absurd h h92), if_neg hq]

theorem literal_append {q : UInt8} {bs : Bytes} (h : ∀ b ∈ bs, b ≠ 10 ∧ b ≠ 92 ∧ b ≠ q) (rest : Bytes)
    (col : Nat) : ∃ col', literal q (bs ++ rest) col = literal q rest col' := by
  induction bs generalizing col with
  | nil => exact ⟨col, rfl⟩
  | cons b bs ih =>
    obtain ⟨h10, h92, hq⟩ := h b List.mem_cons_self
    obtain ⟨col', h'⟩ := ih (fun x hx => h x (List.mem_cons_of_mem b hx)) (col + 1)
    exact ⟨col', (literal_plain h10 h92 hq col).trans h'⟩

theorem toNat_lt_of_isQuote {q : Char} (hq : isQuote q = true) : q.toNat < 128 := by
  simp only [isQuote, Bool.or_eq_true, beq_iff_eq] at hq
  rcases hq with rfl | rfl <;> decide

/-- A literal's bytes close where its characters do, at the first quote of its kind that no
    backslash escapes, and not past a line feed; closed or not, the bytes it leaves are the bytes
    of the characters `skipLiteral` leaves. -/
theorem literal_encode_skip {q : Char} (hq : isQuote q = true) (t : List Char) (col : Nat) :
    (literal (byteOf q) (encode t) col).1 = (afterLiteral q t).isSome ∧
      (literal (byteOf q) (encode t) col).2.1 = encode (skipLiteral q t) := by
  have hqa := toNat_lt_of_isQuote hq
  have hq10 : byteOf q ≠ 10 := fun h => ne_newline_of_isQuote hq
    (Char.toNat_inj.mp (by rw [← toNat_byteOf hqa, h]; rfl))
  have hq92 : byteOf q ≠ 92 := fun h => ne_backslash_of_isQuote hq
    (Char.toNat_inj.mp (by rw [← toNat_byteOf hqa, h]; rfl))
  -- bytes of characters other than a line feed, a backslash and the quote are passed one by one
  have hplain : ∀ c, c ≠ '\n' → c ≠ '\\' → c ≠ q →
      ∀ b ∈ String.utf8EncodeChar c, b ≠ 10 ∧ b ≠ 92 ∧ b ≠ byteOf q := fun c hn hb hcq b hmem =>
    ⟨by simpa [show byteOf '\n' = 10 by decide] using ne_byteOf_of_mem hmem (d := '\n') (by decide) hn,
      by simpa [show byteOf '\\' = 92 by decide] using ne_byteOf_of_mem hmem (d := '\\') (by decide) hb,
      ne_byteOf_of_mem hmem hqa hcq⟩
  fun_induction afterLiteral q t generalizing col with
  | case1 =>
    rw [encode_nil, literal.eq_1]
    simp [skipLiteral]
  | case2 tail =>
    rw [encode_cons, show String.utf8EncodeChar '\n' = [10] from rfl, List.singleton_append, literal.eq_2,
      skipLiteral.eq_2]
    exact ⟨rfl, rfl⟩
  | case3 c rest ih =>
    -- the backslash and the first byte of `c` go together; the rest of `c` is continuation bytes
    obtain ⟨b, bs, he, hbs⟩ := utf8EncodeChar_eq_cons c
    have hcont : ∀ x ∈ bs, x ≠ 10 ∧ x ≠ 92 ∧ x ≠ byteOf q := fun x hx => by
      have := hbs x hx
      refine ⟨fun h => ?_, fun h => ?_, fun h => ?_⟩ <;> subst h
      · simp at this
      · simp at this
      · rw [toNat_byteOf hqa] at this
        omega
    obtain ⟨col', hskip⟩ := literal_append hcont (encode rest) (col + 2)
    rw [encode_cons, encode_cons, show String.utf8EncodeChar '\\' = [92] from rfl, he, List.singleton_append,
      List.cons_append, literal.eq_3, hskip, skipLiteral.eq_3]
    exact ih col'
  | case4 =>
    rw [encode_cons, encode_nil, show String.utf8EncodeChar '\\' = [92] from rfl, List.append_nil, literal.eq_4]
    simp [skipLiteral]
  | case5 rest hn hesc hlast =>
    rw [encode_cons, utf8EncodeChar_ascii hqa, List.singleton_append, literal.eq_5 _ _ _ _ hq10
      (fun _ _ h => absurd h hq92) (fun h => absurd h hq92), if_pos rfl, skipLiteral.eq_5 _ _ _ hn hesc hlast,
      if_pos rfl]
    simp
  | case6 c rest hn hesc hlast hcq ih =>
    have hb : c ≠ '\\' := fun h => by
      cases rest with
      | nil => exact hlast h rfl
      | cons d rest => exact hesc d rest h rfl
    obtain ⟨col', hskip⟩ := literal_append (hplain c hn hb hcq) (encode rest) col
    rw [encode_cons, hskip, skipLiteral.eq_5 _ _ _ hn hesc hlast, if_neg hcq]
    exact ih col'

/-- A literal's bytes close where its characters do, at the first quote of its kind that no
    backslash escapes, and not past a line feed. -/
theorem literal_encode {q : Char} (hq : isQuote q = true) (t : List Char) (col : Nat) :
    (literal (byteOf q) (encode t) col).1 = (afterLiteral q t).isSome ∧
      ∀ r, afterLiteral q t = some r → (literal (byteOf q) (encode t) col).2.1 = encode r := by
  obtain ⟨hclosed, hrest⟩ := literal_encode_skip hq t col
  exact ⟨hclosed, fun r hr => by rw [hrest, skipLiteral_of_afterLiteral hr]⟩

end OffloadAlgebra.Source
