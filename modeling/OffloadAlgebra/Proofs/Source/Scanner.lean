import OffloadAlgebra.Proofs.Source.Encoding
/-!
  The scanner finds nothing wrong exactly in well-formed text.

  `ScansClean bs st` says that scanning the bytes `bs` from `st` adds no complaint and leaves
  no delimiter open; `Clean t stk` says that the text `t` lexes and the word of its delimiters
  closes the open delimiters `stk`.  `ScanAgrees t` says the two agree on `t` from every state.

  Each branch of the scanner is one step lemma: from agreement on what the scanner goes on with,
  agreement on the text it started from (`ScanAgrees.newline`, `.lineComment`, `.blockComment`,
  `.literal`, `.name`, `.ascii`, `.wide`).  On the byte side a step lemma runs one branch of
  `scanFrom` and uses the skip lemmas of `Encoding`; on the character side it takes the one case
  of `Lexes` that applies.  Strong induction on the length of the text puts them together
  (`scanAgrees`), and `scan_complaints_eq_nil_iff` reads the result off for a whole text.
-/

namespace OffloadAlgebra.Source

namespace ScanState

variable (st : ScanState)

@[simp] theorem complain_complaints (c : Complaint) : (st.complain c).complaints = c :: st.complaints := rfl
@[simp] theorem complain_opened (c : Complaint) : (st.complain c).opened = st.opened := rfl
@[simp] theorem complain_cursor (c : Complaint) : (st.complain c).cursor = st.cursor := rfl
@[simp] theorem push_complaints (t : Token) : (st.push t).complaints = st.complaints := rfl
@[simp] theorem push_opened (t : Token) : (st.push t).opened = st.opened := rfl
@[simp] theorem push_cursor (t : Token) : (st.push t).cursor = st.cursor := rfl
@[simp] theorem advance_complaints (n : Nat) : (st.advance n).complaints = st.complaints := rfl
@[simp] theorem advance_opened (n : Nat) : (st.advance n).opened = st.opened := rfl
@[simp] theorem advance_cursor (n : Nat) : (st.advance n).cursor = ⟨st.cursor.line, st.cursor.col + n⟩ := rfl

theorem isOpener_iff {c : Char} : isOpener c = true ↔ c = '(' ∨ c = '[' ∨ c = '{' := by
  simp [isOpener, or_assoc]

theorem isCloser_iff {c : Char} : isCloser c = true ↔ c = ')' ∨ c = ']' ∨ c = '}' := by
  simp [isCloser, or_assoc]

/-- Meeting a character that is no delimiter changes nothing. -/
theorem delimiter_of_not_isDelimiter {c : Char} (h : isDelimiter c = false) : st.delimiter c = st := by
  simp only [isDelimiter, Bool.or_eq_false_iff] at h
  have ho : ¬ (c = '(' ∨ c = '[' ∨ c = '{') := fun h' => by simp [isOpener_iff.mpr h'] at h
  have hc : ¬ (c = ')' ∨ c = ']' ∨ c = '}') := fun h' => by simp [isCloser_iff.mpr h'] at h
  simp only [delimiter, if_neg ho, if_neg hc]

/-- Where the balance check goes on, the scanner's stack is the check's stack and nothing is
    added to the complaints. -/
theorem delimiter_of_matchStep {c : Char} {stk : List Char} (h : matchStep (st.opened.map (·.ch)) c = some stk) :
    (st.delimiter c).complaints = st.complaints ∧ (st.delimiter c).opened.map (·.ch) = stk := by
  unfold matchStep at h
  by_cases ho : isOpener c = true
  · rw [if_pos ho] at h
    cases h
    simp [delimiter, if_pos (isOpener_iff.mp ho)]
  · rw [if_neg ho] at h
    by_cases hc : isCloser c = true
    · rw [if_pos hc] at h
      cases hop : st.opened with
      | nil => simp [hop] at h
      | cons o rest =>
        simp only [hop, List.map_cons, Option.ite_none_right_eq_some, Option.some.injEq] at h
        obtain ⟨hm, rfl⟩ := h
        simp [delimiter, if_neg (mt isOpener_iff.mpr ho), if_pos (isCloser_iff.mp hc), hop, hm]
    · rw [if_neg hc] at h
      cases h
      have hd : isDelimiter c = false := by simp [isDelimiter, ho, hc]
      simp [st.delimiter_of_not_isDelimiter hd]

/-- Where the balance check fails, the scanner complains once. -/
theorem delimiter_of_matchStep_none {c : Char} (h : matchStep (st.opened.map (·.ch)) c = none) :
    (st.delimiter c).complaints.length = st.complaints.length + 1 := by
  unfold matchStep at h
  have ho : isOpener c = false := by
    cases ho : isOpener c
    · rfl
    · simp [ho] at h
  have hc : isCloser c = true := by
    cases hc : isCloser c
    · simp [ho, hc] at h
    · rfl
  have hno : ¬ (c = '(' ∨ c = '[' ∨ c = '{') := fun h' => by simp [isOpener_iff.mpr h'] at ho
  cases hop : st.opened with
  | nil => simp [delimiter, if_neg hno, if_pos (isCloser_iff.mp hc), hop]
  | cons o rest =>
    have hm : closerFor o.ch ≠ c := by
      intro hm
      simp [ho, hc, hop, hm] at h
    simp [delimiter, if_neg hno, if_pos (isCloser_iff.mp hc), hop, hm]

theorem complaints_delimiter_suffix (c : Char) : st.complaints <:+ (st.delimiter c).complaints := by
  unfold delimiter
  split
  · exact List.suffix_refl _
  · split
    · split
      · split
        · exact List.suffix_refl _
        · exact List.suffix_cons _ _
      · exact List.suffix_cons _ _
    · exact List.suffix_refl _

end ScanState

/-- Complaints once made stay, at the end of the list. -/
theorem complaints_scanFrom_suffix (bs : Bytes) (st : ScanState) :
    st.complaints <:+ (scanFrom bs st).complaints := by
  fun_induction scanFrom bs st with
  | case1 => exact List.suffix_refl _
  | case2 | case3 | case6 =>
    rename_i ih
    exact ih
  | case4 st =>
    rename_i ih
    refine List.IsSuffix.trans ?_ ih
    dsimp +zetaDelta only
    split
    · exact List.suffix_refl _
    · exact List.suffix_cons _ _
  | case5 st =>
    rename_i ih
    refine List.IsSuffix.trans ?_ ih
    dsimp +zetaDelta only
    split
    · exact List.suffix_refl _
    · exact List.suffix_cons _ _
  | case7 st =>
    rename_i ih
    refine List.IsSuffix.trans ?_ ih
    dsimp +zetaDelta only
    split
    · exact st.complaints_delimiter_suffix _
    · exact st.complaints_delimiter_suffix _

/-! ## Clean scans and clean text -/

/-- Scanning the bytes `bs` from `st` adds no complaint and leaves no delimiter open. -/
def ScansClean (bs : Bytes) (st : ScanState) : Prop :=
  (scanFrom bs st).complaints = st.complaints ∧ (scanFrom bs st).opened = []

/-- The text `t` lexes, and the word of its delimiters closes the open delimiters `stk`. -/
def Clean (t stk : List Char) : Prop := ∃ w, Lexes t w ∧ matchDelimiters stk w = some []

/-- From every state, the scanner finds `t` clean exactly when `t` is clean for the state's
    open delimiters. -/
def ScanAgrees (t : List Char) : Prop :=
  ∀ st : ScanState, ScansClean (encode t) st ↔ Clean t (st.opened.map (·.ch))

theorem scansClean_congr {bs bs' : Bytes} {st st' : ScanState} (h : scanFrom bs st = scanFrom bs' st')
    (hc : st'.complaints = st.complaints) : ScansClean bs st ↔ ScansClean bs' st' := by
  unfold ScansClean
  rw [h, hc]

/-- A scan that reaches a state with a new complaint is not clean. -/
theorem not_scansClean_of_complaint {bs bs' : Bytes} {st st' : ScanState} (h : scanFrom bs st = scanFrom bs' st')
    (hc : st.complaints.length < st'.complaints.length) : ¬ ScansClean bs st := by
  rintro ⟨hsame, -⟩
  have hle := (complaints_scanFrom_suffix bs' st').length_le
  rw [← h, hsame] at hle
  omega

theorem clean_nil_iff {stk : List Char} : Clean [] stk ↔ stk = [] := by
  simp [Clean, lexes_nil_iff]

theorem clean_lineComment_iff {t stk : List Char} :
    Clean ('/' :: '/' :: t) stk ↔ Clean (t.dropWhile (· ≠ '\n')) stk := by
  simp only [Clean, lexes_lineComment_iff]

theorem clean_blockComment_iff {t stk : List Char} :
    Clean ('/' :: '*' :: t) stk ↔ ∃ r, afterCommentEnd t = some r ∧ Clean r stk := by
  simp only [Clean, lexes_blockComment_iff]
  constructor
  · rintro ⟨w, ⟨r, hr, h⟩, hm⟩
    exact ⟨r, hr, w, h, hm⟩
  · rintro ⟨r, hr, w, h, hm⟩
    exact ⟨w, ⟨r, hr, h⟩, hm⟩

theorem clean_literal_iff {q : Char} (hq : isQuote q = true) {t stk : List Char} :
    Clean (q :: t) stk ↔ ∃ r, afterLiteral q t = some r ∧ Clean r stk := by
  simp only [Clean, lexes_literal_iff hq]
  constructor
  · rintro ⟨w, ⟨r, hr, h⟩, hm⟩
    exact ⟨r, hr, w, h, hm⟩
  · rintro ⟨r, hr, w, h, hm⟩
    exact ⟨w, ⟨r, hr, h⟩, hm⟩

/-- A code character takes one step of the balance check. -/
theorem clean_code_iff {c : Char} {t stk : List Char} (hq : isQuote c = false)
    (hs : c = '/' → ∀ d ∈ t.head?, d ≠ '/' ∧ d ≠ '*') :
    Clean (c :: t) stk ↔ ∃ stk', matchStep stk c = some stk' ∧ Clean t stk' := by
  have hword : ∀ w', matchDelimiters stk (if isDelimiter c then c :: w' else w') =
      (matchStep stk c).bind fun s => matchDelimiters s w' := by
    intro w'
    cases hd : isDelimiter c
    · simp [matchStep_of_not_isDelimiter hd]
    · simp [matchDelimiters_cons]
  simp only [Clean, lexes_code_iff hq hs]
  constructor
  · rintro ⟨w, ⟨w', h, rfl⟩, hm⟩
    rw [hword, Option.bind_eq_some_iff] at hm
    obtain ⟨s, hs, hm⟩ := hm
    exact ⟨s, hs, w', h, hm⟩
  · rintro ⟨s, hs, w', h, hm⟩
    exact ⟨_, ⟨w', h, rfl⟩, by rw [hword, hs, Option.bind_some]; exact hm⟩

/-- Name characters are plain code. -/
theorem plain_of_isNameChar {c : Char} (h : Text.isNameChar c = true) :
    isQuote c = false ∧ c ≠ '/' ∧ c ≠ '\n' ∧ isDelimiter c = false := by
  refine ⟨?_, ?_, ?_, ?_⟩
  · cases hq : isQuote c
    · rfl
    · simp only [isQuote, Bool.or_eq_true, beq_iff_eq] at hq
      rcases hq with rfl | rfl <;> exact absurd h (by decide)
  · rintro rfl
    exact absurd h (by decide)
  · rintro rfl
    exact absurd h (by decide)
  · cases hd : isDelimiter c
    · rfl
    · simp only [isDelimiter, isOpener, isCloser, Bool.or_eq_true, beq_iff_eq] at hd
      rcases hd with ((rfl | rfl) | rfl) | ((rfl | rfl) | rfl) <;> exact absurd h (by decide)

/-- A run of name characters changes nothing for the balance check. -/
theorem clean_names_iff {u : List Char} (hu : ∀ c ∈ u, Text.isNameChar c = true) (t stk : List Char) :
    Clean (u ++ t) stk ↔ Clean t stk := by
  induction u with
  | nil => rfl
  | cons c u ih =>
    obtain ⟨hq, hs, -, hd⟩ := plain_of_isNameChar (hu c List.mem_cons_self)
    rw [List.cons_append, clean_code_iff hq (fun h => absurd h hs), matchStep_of_not_isDelimiter hd]
    simp [ih (fun d hd => hu d (List.mem_cons_of_mem c hd))]

theorem byteOf_ne {c d : Char} (hc : c.toNat < 128) (hd : d.toNat < 128) (h : c ≠ d) : byteOf c ≠ byteOf d :=
  fun he => h (by rw [← charOf_byteOf hc, he, charOf_byteOf hd])

/-! ## One branch of the scanner at a time -/

theorem ScanAgrees.nil : ScanAgrees [] := by
  intro st
  simp [ScansClean, scanFrom.eq_1, clean_nil_iff]

theorem ScanAgrees.newline {t : List Char} (h : ScanAgrees t) : ScanAgrees ('\n' :: t) := by
  intro st
  have he : encode ('\n' :: t) = 10 :: encode t := rfl
  rw [he, scansClean_congr (scanFrom.eq_2 st (encode t)) rfl, h,
    clean_code_iff (by decide) (fun h => absurd h (by decide)), matchStep_of_not_isDelimiter (by decide)]
  simp

theorem ScanAgrees.lineComment {t : List Char} (h : ScanAgrees (t.dropWhile (· ≠ '\n'))) :
    ScanAgrees ('/' :: '/' :: t) := by
  intro st
  have he : encode ('/' :: '/' :: t) = 47 :: 47 :: encode t := rfl
  rw [he, scansClean_congr (scanFrom.eq_3 st (encode t)) rfl, dropWhile_encode, h, clean_lineComment_iff]

theorem ScanAgrees.blockComment {t : List Char} (h : ∀ r, afterCommentEnd t = some r → ScanAgrees r) :
    ScanAgrees ('/' :: '*' :: t) := by
  intro st
  have he : encode ('/' :: '*' :: t) = 47 :: 42 :: encode t := rfl
  obtain ⟨hclosed, hrest⟩ := blockComment_encode t ⟨st.cursor.line, st.cursor.col + 2⟩
  rw [he, clean_blockComment_iff]
  cases hend : afterCommentEnd t with
  | none =>
    -- the comment never closes, and the scanner complains
    rw [hend, Option.isSome_none] at hclosed
    refine iff_of_false (not_scansClean_of_complaint (scanFrom.eq_4 st (encode t)) ?_) (by simp)
    simp [hclosed]
  | some r =>
    rw [hend, Option.isSome_some] at hclosed
    rw [scansClean_congr (scanFrom.eq_4 st (encode t)) (by simp [hclosed]), hrest r hend, h r hend]
    simp [hclosed]

theorem ScanAgrees.literal {q : Char} (hq : isQuote q = true) {t : List Char}
    (h : ∀ r, afterLiteral q t = some r → ScanAgrees r) : ScanAgrees (q :: t) := by
  intro st
  have hqa := toNat_lt_of_isQuote hq
  have hb : byteOf q = 34 ∨ byteOf q = 39 := by
    simp only [isQuote, Bool.or_eq_true, beq_iff_eq] at hq
    rcases hq with rfl | rfl <;> decide
  have h47 : byteOf q ≠ 47 := by rcases hb with hb | hb <;> rw [hb] <;> decide
  have hscan := scanFrom.eq_5 st (byteOf q) (encode t) (by rcases hb with hb | hb <;> rw [hb] <;> decide)
    (fun _ h _ => h47 h) (fun _ h _ => h47 h)
  rw [if_pos hb] at hscan
  dsimp only at hscan
  obtain ⟨hclosed, hrest⟩ := literal_encode hq t (st.cursor.col + 1)
  rw [encode_cons, utf8EncodeChar_ascii hqa, List.singleton_append, clean_literal_iff hq]
  cases hend : afterLiteral q t with
  | none =>
    -- the literal is not closed on its line, and the scanner complains
    rw [hend, Option.isSome_none] at hclosed
    refine iff_of_false (not_scansClean_of_complaint hscan ?_) (by simp)
    simp [hclosed]
  | some r =>
    rw [hend, Option.isSome_some] at hclosed
    rw [scansClean_congr hscan (by simp [hclosed]), hrest r hend, h r hend]
    simp [hclosed]

theorem ScanAgrees.name {c : Char} (hc : Text.isNameStart c = true) {t : List Char}
    (h : ScanAgrees (t.dropWhile Text.isNameChar)) : ScanAgrees (c :: t) := by
  intro st
  have hname := isNameChar_of_isNameStart hc
  have hca := toNat_lt_of_isNameChar hname
  obtain ⟨hq, hs, hn, -⟩ := plain_of_isNameChar hname
  have h10 : byteOf c ≠ 10 := byteOf_ne hca (d := '\n') (by decide) hn
  have h47 : byteOf c ≠ 47 := byteOf_ne hca (d := '/') (by decide) hs
  have hquote : ¬ (byteOf c = 34 ∨ byteOf c = 39) := by
    rintro (h | h)
    · exact byteOf_ne hca (d := '"') (by decide) (fun e => by simp [e, isQuote] at hq) h
    · exact byteOf_ne hca (d := '\'') (by decide) (fun e => by simp [e, isQuote] at hq) h
  have hident : isIdentStart (byteOf c) = true := by rw [isIdentStart_eq, charOf_byteOf hca, hc]
  have hscan := scanFrom.eq_5 st (byteOf c) (encode t) h10 (fun _ h _ => h47 h) (fun _ h _ => h47 h)
  rw [if_neg hquote, if_pos hident] at hscan
  dsimp only at hscan
  rw [encode_cons, utf8EncodeChar_ascii hca, List.singleton_append, scansClean_congr hscan (by simp),
    dropWhile_isIdentByte_encode, h]
  -- the scanner took the whole name at once; the characters after the first are name characters
  have hu : ∀ d ∈ c :: t.takeWhile Text.isNameChar, Text.isNameChar d = true := by
    intro d hd
    rcases List.mem_cons.mp hd with rfl | hd
    · exact hname
    · exact List.mem_takeWhile_imp hd
  conv_rhs => rw [← List.takeWhile_append_dropWhile (p := Text.isNameChar) (l := t), ← List.cons_append]
  rw [clean_names_iff hu]
  simp

theorem ScanAgrees.ascii {c : Char} {t : List Char} (hca : c.toNat < 128) (hn : c ≠ '\n')
    (hq : isQuote c = false) (hname : Text.isNameStart c = false)
    (hs : c = '/' → ∀ d ∈ t.head?, d ≠ '/' ∧ d ≠ '*') (h : ScanAgrees t) : ScanAgrees (c :: t) := by
  intro st
  have h10 : byteOf c ≠ 10 := byteOf_ne hca (d := '\n') (by decide) hn
  have hquote : ¬ (byteOf c = 34 ∨ byteOf c = 39) := by
    rintro (h | h)
    · exact byteOf_ne hca (d := '"') (by decide) (fun e => by simp [e, isQuote] at hq) h
    · exact byteOf_ne hca (d := '\'') (by decide) (fun e => by simp [e, isQuote] at hq) h
  have hident : ¬ isIdentStart (byteOf c) = true := by rw [isIdentStart_eq, charOf_byteOf hca, hname]; simp
  -- a slash here starts no comment: what follows is no slash and no star
  have hslash : ∀ (n : UInt8) (d : Char), n = byteOf d → d.toNat < 128 → (d = '/' ∨ d = '*') →
      ∀ rest, byteOf c = 47 → encode t = n :: rest → False := by
    intro n d hnd hd hd' rest hc47 ht
    have hc : c = '/' := by rw [← charOf_byteOf hca, hc47]; rfl
    obtain ⟨u, rfl, -⟩ := encode_eq_cons_ascii ht (by rw [hnd, toNat_byteOf hd]; exact hd)
    have hdu := hs hc _ rfl
    rw [hnd, charOf_byteOf hd] at hdu
    rcases hd' with rfl | rfl
    · exact hdu.1 rfl
    · exact hdu.2 rfl
  have hscan := scanFrom.eq_5 st (byteOf c) (encode t) h10
    (fun rest h47 ht => hslash 47 '/' rfl (by decide) (.inl rfl) rest h47 ht)
    (fun rest h47 ht => hslash 42 '*' rfl (by decide) (.inr rfl) rest h47 ht)
  rw [if_neg hquote, if_neg hident] at hscan
  dsimp only at hscan
  have hwidth : utf8Width (byteOf c) - 1 = 0 := by
    rw [utf8Width_eq, if_pos (by rw [toNat_byteOf hca]; omega)]
  rw [hwidth, List.drop_zero, charOf_byteOf hca] at hscan
  rw [encode_cons, utf8EncodeChar_ascii hca, List.singleton_append, clean_code_iff hq hs]
  cases hm : matchStep (st.opened.map (·.ch)) c with
  | none =>
    -- a closer that closes nothing open: the scanner complains
    have hmore := st.delimiter_of_matchStep_none hm
    refine iff_of_false (not_scansClean_of_complaint hscan ?_) (by simp)
    split <;> simp [hmore]
  | some stk =>
    obtain ⟨hcomp, hopen⟩ := st.delimiter_of_matchStep hm
    rw [scansClean_congr hscan (by split <;> simp [hcomp]), h]
    split <;> simp [hopen]

theorem ScanAgrees.wide {c : Char} {t : List Char} (hc : 128 ≤ c.toNat) (h : ScanAgrees t) :
    ScanAgrees (c :: t) := by
  intro st
  obtain ⟨lead, conts, he, hlead, hwidth, -⟩ := utf8EncodeChar_wide hc
  -- the lead byte is no byte the scanner looks for
  have hsmall : ∀ n : UInt8, n.toNat < 128 → lead ≠ n := fun n hn h => by subst h; omega
  have hident : ¬ isIdentStart lead = true := by
    rw [isIdentStart_eq]
    intro hs
    have := toNat_lt_of_isNameChar (isNameChar_of_isNameStart hs)
    rw [toNat_charOf] at this
    omega
  have hdel : isDelimiter (charOf lead) = false := by
    cases hd : isDelimiter (charOf lead)
    · rfl
    · have := toNat_lt_of_isDelimiter hd
      rw [toNat_charOf] at this
      omega
  have hscan := scanFrom.eq_5 st lead (conts ++ encode t) (hsmall 10 (by decide))
    (fun _ h _ => hsmall 47 (by decide) h) (fun _ h _ => hsmall 47 (by decide) h)
  rw [if_neg (by rintro (h | h) <;> exact hsmall _ (by decide) h), if_neg hident] at hscan
  dsimp only at hscan
  rw [hwidth, Nat.add_sub_cancel, List.drop_left, st.delimiter_of_not_isDelimiter hdel] at hscan
  rw [encode_cons, he, List.cons_append, scansClean_congr hscan (by split <;> simp), h]
  -- the character is plain code
  have hq : isQuote c = false := by
    cases hq : isQuote c
    · rfl
    · have := toNat_lt_of_isQuote hq
      omega
  have hd : isDelimiter c = false := by
    cases hd : isDelimiter c
    · rfl
    · have := toNat_lt_of_isDelimiter hd
      omega
  have hs : c ≠ '/' := by
    rintro rfl
    exact absurd hc (by decide)
  rw [clean_code_iff hq (fun h => absurd h hs), matchStep_of_not_isDelimiter hd]
  split <;> simp

/-! ## The whole scan -/

/-- The scanner agrees with the lexing of every text, from every state.  Induction on the length
    of the text: each branch goes on with a shorter text. -/
theorem scanAgrees (t : List Char) : ScanAgrees t := by
  induction hlen : t.length using Nat.strong_induction_on generalizing t with
  | _ n ih =>
  have next : ∀ u : List Char, u.length < t.length → ScanAgrees u := fun u hu => ih u.length (hlen ▸ hu) u rfl
  cases t with
  | nil => exact .nil
  | cons c t =>
    have hshort : t.length < (c :: t).length := Nat.lt_succ_self _
    by_cases hn : c = '\n'
    · subst hn
      exact (next t hshort).newline
    by_cases hq : isQuote c = true
    · exact .literal hq fun r hr => next r ((length_lt_of_afterLiteral hq hr).trans hshort)
    by_cases hslash : c = '/'
    · subst hslash
      cases t with
      | nil => exact (next [] hshort).ascii (by decide) (by decide) (by decide) (by decide) (fun _ _ hd => by cases hd)
      | cons d t =>
        have hshort₂ : t.length < ('/' :: d :: t).length := by simp only [List.length_cons]; omega
        by_cases hd₁ : d = '/'
        · subst hd₁
          exact .lineComment (next _ (Nat.lt_of_le_of_lt (List.dropWhile_suffix _).length_le hshort₂))
        by_cases hd₂ : d = '*'
        · subst hd₂
          exact .blockComment fun r hr => next r ((length_lt_of_afterCommentEnd hr).trans hshort₂)
        exact (next _ hshort).ascii (by decide) (by decide) (by decide) (by decide)
          (fun _ e he => by cases he; exact ⟨hd₁, hd₂⟩)
    rcases Nat.lt_or_ge c.toNat 128 with hca | hca
    · by_cases hname : Text.isNameStart c = true
      · exact .name hname (next _ (Nat.lt_of_le_of_lt (List.dropWhile_suffix _).length_le hshort))
      · exact (next t hshort).ascii hca hn (by simpa using hq) (by simpa using hname) (fun h => absurd h hslash)
    · exact (next t hshort).wide hca

/-- Scanning kernel text finds nothing to complain about, and leaves nothing open, exactly when
    the text is well-formed. -/
theorem scan_complaints_eq_nil_iff (source : String) : (scan source).complaints = [] ↔ WellFormed source := by
  have h := scanAgrees source.toList {}
  simp only [ScansClean, Clean, List.map_nil] at h
  simp only [scan, toUTF8_toList, List.append_eq_nil_iff, List.reverse_eq_nil_iff, List.map_eq_nil_iff]
  rw [h]
  constructor
  · rintro ⟨w, hl, hm⟩
    exact ⟨w, hl, (balanced_iff_matchDelimiters hl.isDelimiter).mpr hm⟩
  · rintro ⟨w, hl, hb⟩
    exact ⟨w, hl, (balanced_iff_matchDelimiters hl.isDelimiter).mp hb⟩

end OffloadAlgebra.Source
