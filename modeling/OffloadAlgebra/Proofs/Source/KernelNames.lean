import Mathlib
import OffloadAlgebra.Proofs.Source.Passes
import OffloadAlgebra.Proofs.Source.FrontEnd
import OffloadAlgebra.Kernel.Program
/-!
  The kernels a text defines, and the order in which a build reports its faults.

  Outside comments and literals, kernel text is a stream of tokens (`Tokenizes`): a name is the
  longest run of name characters from a name start, blanks make no token, and every other
  character of code is one punctuation token, the character its first byte stands for.  Each
  rule of the grammar is one pass of the scanner (`charPass_lineComment` and the lemmas after
  it), so the scanner finds the stream of every text that has one (`scan_tokens_of_tokenizes`);
  and every text that lexes has one (`exists_tokenizes`).  Kernel text in a comment or a literal
  therefore makes no token.

  A kernel keyword defines the name `n` when the tokens after it hold no `;`, `{` or `void` up to
  a `void`, and `n` and `(` follow that `void` (`NamesKernel`, `nameAfterKeyword_eq_some_iff`).
  The kernel names of a stream are the names its keywords define, in the order of the keywords.

  A build reports the front end's log first, then a kernel its text does not define, then a
  missing host implementation (`build_fault_precedence`).
-/

namespace OffloadAlgebra.Source

/-! ## Tokens of kernel text -/

/-- The text `t`, outside its comments and literals, is the stream of tokens `ts`. -/
inductive Tokenizes : List Char → List Token → Prop
  | nil : Tokenizes [] []
  | lineComment {body rest : List Char} {ts : List Token} (hb : '\n' ∉ body)
      (hr : ∀ c ∈ rest.head?, c = '\n') (h : Tokenizes rest ts) :
      Tokenizes ('/' :: '/' :: (body ++ rest)) ts
  | blockComment {body rest : List Char} {ts : List Token} (hb : ¬ ['*', '/'] <:+: body)
      (h : Tokenizes rest ts) : Tokenizes ('/' :: '*' :: (body ++ '*' :: '/' :: rest)) ts
  | literal {q : Char} {body rest : List Char} {ts : List Token} (hq : isQuote q = true)
      (hb : LiteralBody q body) (h : Tokenizes rest ts) : Tokenizes (q :: (body ++ q :: rest)) ts
  | name {c : Char} {more rest : List Char} {ts : List Token} (hc : Text.isNameStart c = true)
      (hm : ∀ d ∈ more, Text.isNameChar d = true) (hr : ∀ d ∈ rest.head?, Text.isNameChar d = false)
      (h : Tokenizes rest ts) :
      Tokenizes (c :: (more ++ rest)) (.ident (String.ofList (c :: more)) :: ts)
  | blank {c : Char} {rest : List Char} {ts : List Token} (hc : Text.isAsciiBlank c = true)
      (h : Tokenizes rest ts) : Tokenizes (c :: rest) ts
  | punct {c : Char} {rest : List Char} {ts : List Token} (hq : isQuote c = false)
      (hn : Text.isNameStart c = false) (hb : Text.isAsciiBlank c = false)
      (hs : c = '/' → ∀ d ∈ rest.head?, d ≠ '/' ∧ d ≠ '*') (h : Tokenizes rest ts) :
      Tokenizes (c :: rest) (.punct (leadChar c) :: ts)

theorem ne_slash_of_isQuote {q : Char} (hq : isQuote q = true) : q ≠ '/' := by
  simp only [isQuote, Bool.or_eq_true, beq_iff_eq] at hq
  rcases hq with rfl | rfl <;> decide

/-- A blank is no quote, no name start and no slash. -/
theorem plain_of_isAsciiBlank {c : Char} (h : Text.isAsciiBlank c = true) :
    isQuote c = false ∧ Text.isNameStart c = false ∧ c ≠ '/' := by
  simp only [Text.isAsciiBlank, Bool.or_eq_true, beq_iff_eq] at h
  rcases h with (((rfl | rfl) | rfl) | rfl) | rfl <;> decide

/-! ## Each rule of the grammar is one pass of the scanner -/

/-- A character of code that opens no comment is passed by the last case of `charPass`. -/
theorem charPass_code {c : Char} {t : List Char} (hn : c ≠ '\n')
    (hs : c = '/' → ∀ d ∈ t.head?, d ≠ '/' ∧ d ≠ '*') :
    charPass (c :: t) =
      if isQuote c then (skipLiteral c t, none)
      else if Text.isNameStart c then
        (t.dropWhile Text.isNameChar, some (.ident (String.ofList (c :: t.takeWhile Text.isNameChar))))
      else if Text.isAsciiBlank c then (t, none)
      else (t, some (.punct (leadChar c))) :=
  charPass.eq_5 c t hn (fun _ hc ht => (hs hc '/' (by simp [ht])).1 rfl)
    (fun _ hc ht => (hs hc '*' (by simp [ht])).2 rfl)

theorem charPass_lineComment {body rest : List Char} (hb : '\n' ∉ body)
    (hr : ∀ c ∈ rest.head?, c = '\n') : charPass ('/' :: '/' :: (body ++ rest)) = (rest, none) := by
  rw [charPass.eq_3, dropWhile_lineEnd hb hr]

theorem charPass_blockComment {body rest : List Char} (hb : ¬ ['*', '/'] <:+: body) :
    charPass ('/' :: '*' :: (body ++ '*' :: '/' :: rest)) = (rest, none) := by
  rw [charPass.eq_4, afterCommentEnd_eq_some_iff.mpr ⟨body, rfl, hb⟩]
  rfl

theorem charPass_literal {q : Char} {body rest : List Char} (hq : isQuote q = true)
    (hb : LiteralBody q body) : charPass (q :: (body ++ q :: rest)) = (rest, none) := by
  rw [charPass_code (ne_newline_of_isQuote hq) (fun h => absurd h (ne_slash_of_isQuote hq)), if_pos hq,
    skipLiteral_of_afterLiteral ((afterLiteral_eq_some_iff hq).mpr ⟨body, rfl, hb⟩)]

/-- A name is read up to the first character that cannot continue it. -/
theorem charPass_name {c : Char} {more rest : List Char} (hc : Text.isNameStart c = true)
    (hm : ∀ d ∈ more, Text.isNameChar d = true) (hr : ∀ d ∈ rest.head?, Text.isNameChar d = false) :
    charPass (c :: (more ++ rest)) = (rest, some (.ident (String.ofList (c :: more)))) := by
  obtain ⟨hq, hs, hn, -⟩ := plain_of_isNameChar (isNameChar_of_isNameStart hc)
  rw [charPass_code hn (fun h => absurd h hs), if_neg (by simp [hq]), if_pos hc,
    List.takeWhile_append_of_pos hm, List.dropWhile_append_of_pos hm]
  -- the run stops where `rest` starts
  cases rest with
  | nil => simp
  | cons d rest => simp [hr d rfl]

theorem charPass_blank {c : Char} {rest : List Char} (hc : Text.isAsciiBlank c = true) :
    charPass (c :: rest) = (rest, none) := by
  by_cases hn : c = '\n'
  · subst hn
    exact charPass.eq_2 rest
  obtain ⟨hq, hname, hs⟩ := plain_of_isAsciiBlank hc
  rw [charPass_code hn (fun h => absurd h hs), if_neg (by simp [hq]), if_neg (by simp [hname]), if_pos hc]

theorem charPass_punct {c : Char} {rest : List Char} (hq : isQuote c = false)
    (hn : Text.isNameStart c = false) (hb : Text.isAsciiBlank c = false)
    (hs : c = '/' → ∀ d ∈ rest.head?, d ≠ '/' ∧ d ≠ '*') :
    charPass (c :: rest) = (rest, some (.punct (leadChar c))) := by
  have hnl : c ≠ '\n' := by
    rintro rfl
    exact absurd hb (by decide)
  rw [charPass_code hnl hs, if_neg (by simp [hq]), if_neg (by simp [hn]), if_neg (by simp [hb])]

/-- The scanner goes on from the bytes of what a character pass leaves, with the pass's token
    made. -/
theorem scanFrom_encode_cons (c : Char) (t : List Char) (st : ScanState) :
    ∃ st', scanFrom (encode (c :: t)) st = scanFrom (encode (charPass (c :: t)).1) st' ∧
      st'.tokens = (charPass (c :: t)).2.toList ++ st.tokens := by
  obtain ⟨b, bs, he, -⟩ := utf8EncodeChar_eq_cons c
  obtain ⟨hrest, htokens⟩ := passAgrees c t st
  refine ⟨(pass (encode (c :: t)) st).2, ?_, htokens⟩
  rw [← hrest, encode_cons, he, List.cons_append]
  exact scanFrom_eq_pass b _ st

/-- A rule of the grammar that makes the token `tok` in front of the stream of what it leaves. -/
theorem scanFrom_tokens_step {c : Char} {t rest : List Char} {tok : Option Token} {ts : List Token}
    (hpass : charPass (c :: t) = (rest, tok))
    (ih : ∀ st, (scanFrom (encode rest) st).tokens = ts.reverse ++ st.tokens) (st : ScanState) :
    (scanFrom (encode (c :: t)) st).tokens = (tok.toList ++ ts).reverse ++ st.tokens := by
  obtain ⟨st', hscan, htokens⟩ := scanFrom_encode_cons c t st
  rw [hpass] at hscan htokens
  rw [hscan, ih, htokens, List.reverse_append, List.append_assoc]
  cases tok <;> rfl

/-- The scanner finds the token stream of a text, from every state.  Induction on the grammar:
    each rule is one pass. -/
theorem Tokenizes.scanFrom_tokens {t : List Char} {ts : List Token} (h : Tokenizes t ts)
    (st : ScanState) : (scanFrom (encode t) st).tokens = ts.reverse ++ st.tokens := by
  induction h generalizing st with
  | nil => rw [encode_nil, scanFrom.eq_1, List.reverse_nil, List.nil_append]
  | lineComment hb hr _ ih => exact scanFrom_tokens_step (charPass_lineComment hb hr) ih st
  | blockComment hb _ ih => exact scanFrom_tokens_step (charPass_blockComment hb) ih st
  | literal hq hb _ ih => exact scanFrom_tokens_step (charPass_literal hq hb) ih st
  | name hc hm hr _ ih => exact scanFrom_tokens_step (charPass_name hc hm hr) ih st
  | blank hc _ ih => exact scanFrom_tokens_step (charPass_blank hc) ih st
  | punct hq hn hb hs _ ih => exact scanFrom_tokens_step (charPass_punct hq hn hb hs) ih st

theorem scan_tokens_of_tokenizes {source : String} {ts : List Token} (h : Tokenizes source.toList ts) :
    (scan source).tokens = ts := by
  have hscan := h.scanFrom_tokens {}
  rw [← toUTF8_toList] at hscan
  show (scanFrom source.toUTF8.toList {}).tokens.reverse = ts
  rw [hscan]
  simp

/-- A text has at most one token stream. -/
theorem Tokenizes.unique {t : List Char} {ts ts' : List Token} (h : Tokenizes t ts)
    (h' : Tokenizes t ts') : ts = ts' := by
  have hscan := h.scanFrom_tokens {}
  rw [h'.scanFrom_tokens {}] at hscan
  simpa using hscan.symm

/-! ## Every text that lexes has a token stream -/

/-- A run of name characters is code without delimiters: the text after it lexes. -/
theorem lexes_of_names_append {u t w : List Char} (hu : ∀ c ∈ u, Text.isNameChar c = true)
    (h : Lexes (u ++ t) w) : ∃ w', Lexes t w' := by
  induction u generalizing w with
  | nil => exact ⟨w, h⟩
  | cons c u ih =>
    obtain ⟨hq, hs, -, -⟩ := plain_of_isNameChar (hu c List.mem_cons_self)
    obtain ⟨w', h', -⟩ := (lexes_code_iff hq (fun h => absurd h hs)).mp h
    exact ih (fun d hd => hu d (List.mem_cons_of_mem c hd)) h'

/-- Every text that lexes is a stream of tokens.  Strong induction on the length: a name's token
    is read past the whole run of its characters, further than one step of `Lexes`. -/
theorem exists_tokenizes {t w : List Char} (h : Lexes t w) : ∃ ts, Tokenizes t ts := by
  induction hn : t.length using Nat.strong_induction_on generalizing t w with
  | _ n ih =>
    subst hn
    cases h with
    | nil => exact ⟨[], .nil⟩
    | lineComment hb hr hrest =>
      obtain ⟨ts, hts⟩ := ih _ (by simp; omega) hrest rfl
      exact ⟨ts, .lineComment hb hr hts⟩
    | blockComment hb hrest =>
      obtain ⟨ts, hts⟩ := ih _ (by simp; omega) hrest rfl
      exact ⟨ts, .blockComment hb hts⟩
    | literal hq hb hrest =>
      obtain ⟨ts, hts⟩ := ih _ (by simp; omega) hrest rfl
      exact ⟨ts, .literal hq hb hts⟩
    | @code c rest _ hq hs hrest =>
      by_cases hname : Text.isNameStart c = true
      · -- the name runs over every name character that follows it
        have hsplit := List.takeWhile_append_dropWhile (p := Text.isNameChar) (l := rest)
        have hmore : ∀ d ∈ rest.takeWhile Text.isNameChar, Text.isNameChar d = true :=
          fun d hd => List.mem_takeWhile_imp hd
        obtain ⟨_, hafter⟩ := lexes_of_names_append hmore (hsplit.symm ▸ hrest)
        have hlen : (rest.dropWhile Text.isNameChar).length < (c :: rest).length :=
          Nat.lt_succ_of_le (List.dropWhile_suffix _).length_le
        obtain ⟨ts, hts⟩ := ih _ hlen hafter rfl
        have hstop : ∀ d ∈ (rest.dropWhile Text.isNameChar).head?, Text.isNameChar d = false := by
          intro d hd
          have hnot := List.head?_dropWhile_not Text.isNameChar rest
          rw [Option.mem_def.mp hd] at hnot
          exact hnot
        have htok := Tokenizes.name hname hmore hstop hts
        rw [hsplit] at htok
        exact ⟨_, htok⟩
      · obtain ⟨ts, hts⟩ := ih _ (Nat.lt_succ_self _) hrest rfl
        by_cases hblank : Text.isAsciiBlank c = true
        · exact ⟨ts, .blank hblank hts⟩
        · exact ⟨_, .punct hq (by simpa using hname) (by simpa using hblank) hs hts⟩

/-! ## The names kernel keywords define -/

/-- After a kernel keyword, the tokens `rest` name the kernel `n`: they hold no `;`, `{` or
    `void` up to a `void`, and `n` and `(` follow that `void`. -/
def NamesKernel (rest : List Token) (n : String) : Prop :=
  ∃ mid post, rest = mid ++ .ident "void" :: .ident n :: .punct '(' :: post ∧
    ∀ t ∈ mid, t.endsQualifiers = false ∧ t ≠ .ident "void"

/-- A `;` or a `{` ends the search for `void`. -/
theorem nameAfterKeyword_of_endsQualifiers {t : Token} (h : t.endsQualifiers = true) (rest : List Token) :
    nameAfterKeyword (t :: rest) = none := by
  simp [nameAfterKeyword, h]

/-- The first `void` is followed by the name and `(`, or there is no name. -/
theorem nameAfterKeyword_void {rest : List Token} {n : String} :
    nameAfterKeyword (.ident "void" :: rest) = some n ↔ ∃ post, rest = .ident n :: .punct '(' :: post := by
  unfold nameAfterKeyword
  rw [List.takeWhile_cons, if_pos (by decide), List.findIdx?_cons, if_pos (by decide)]
  rcases rest with _ | ⟨a, _ | ⟨b, post⟩⟩
  · simp
  · simp
  · simp only [Nat.zero_add, List.getElem?_cons_succ, List.getElem?_cons_zero, List.cons.injEq,
      exists_and_left, exists_eq', and_true]
    split
    · simp_all [eq_comm]
    · rename_i hne
      simp only [reduceCtorEq, false_iff, not_and]
      rintro rfl rfl
      exact hne n rfl rfl

/-- Any other token is passed over. -/
theorem nameAfterKeyword_of_other {t : Token} (h₁ : t.endsQualifiers = false) (h₂ : t ≠ .ident "void")
    (rest : List Token) : nameAfterKeyword (t :: rest) = nameAfterKeyword rest := by
  unfold nameAfterKeyword
  rw [List.takeWhile_cons, if_pos (by simp [h₁]), List.findIdx?_cons, if_neg (by simpa using h₂)]
  cases (rest.takeWhile fun t => !t.endsQualifiers).findIdx? (· == .ident "void") <;> rfl

/-- A stream names a kernel at its first `void`, or past a first token that is no `void` and
    does not end the search. -/
theorem namesKernel_cons {t : Token} {rest : List Token} {n : String} :
    NamesKernel (t :: rest) n ↔
      (t = .ident "void" ∧ ∃ post, rest = .ident n :: .punct '(' :: post) ∨
      (t.endsQualifiers = false ∧ t ≠ .ident "void" ∧ NamesKernel rest n) := by
  constructor
  · rintro ⟨mid, post, heq, hmid⟩
    cases mid with
    | nil =>
      obtain ⟨rfl, rfl⟩ := List.cons.inj heq
      exact .inl ⟨rfl, post, rfl⟩
    | cons u mid =>
      obtain ⟨rfl, rfl⟩ := List.cons.inj heq
      obtain ⟨he, hv⟩ := hmid _ List.mem_cons_self
      exact .inr ⟨he, hv, mid, post, rfl, fun u hu => hmid u (List.mem_cons_of_mem _ hu)⟩
  · rintro (⟨rfl, post, rfl⟩ | ⟨he, hv, mid, post, rfl, hmid⟩)
    · exact ⟨[], post, rfl, by simp⟩
    · refine ⟨t :: mid, post, rfl, fun u hu => ?_⟩
      rcases List.mem_cons.mp hu with rfl | hu
      · exact ⟨he, hv⟩
      · exact hmid u hu

/-- The search `nameAfterKeyword` makes finds exactly the name the tokens give the kernel.
    Induction on the tokens: the search and `NamesKernel` take the same step at each token. -/
theorem nameAfterKeyword_eq_some_iff {rest : List Token} {n : String} :
    nameAfterKeyword rest = some n ↔ NamesKernel rest n := by
  induction rest with
  | nil => simp [nameAfterKeyword, NamesKernel]
  | cons t rest ih =>
    rw [namesKernel_cons]
    by_cases hv : t = .ident "void"
    · subst hv
      rw [nameAfterKeyword_void]
      simp
    · cases he : t.endsQualifiers
      · rw [nameAfterKeyword_of_other he hv, ih]
        simp [hv]
      · rw [nameAfterKeyword_of_endsQualifiers he]
        simp [hv]

theorem kernelNames_cons_of_namesKernel {kw : Token} {rest : List Token} {n : String}
    (hk : kw.isKernelKeyword = true) (h : NamesKernel rest n) :
    kernelNames (kw :: rest) = n :: kernelNames rest := by
  rw [kernelNames, if_pos hk, nameAfterKeyword_eq_some_iff.mpr h]
  rfl

theorem kernelNames_cons_of_not_namesKernel {kw : Token} {rest : List Token}
    (h : kw.isKernelKeyword = false ∨ ∀ n, ¬ NamesKernel rest n) :
    kernelNames (kw :: rest) = kernelNames rest := by
  rw [kernelNames]
  rcases h with hk | hn
  · rw [if_neg (by simp [hk])]
    rfl
  · cases hname : nameAfterKeyword rest with
    | none => split <;> rfl
    | some n => exact absurd (nameAfterKeyword_eq_some_iff.mp hname) (hn n)

/-- The kernel names of a stream are exactly the names its keywords define. -/
theorem mem_kernelNames_iff {ts : List Token} {n : String} :
    n ∈ kernelNames ts ↔
      ∃ pre kw rest, ts = pre ++ kw :: rest ∧ kw.isKernelKeyword = true ∧ NamesKernel rest n := by
  induction ts with
  | nil => simp [kernelNames]
  | cons t rest ih =>
    -- a name is defined by the first keyword or by one further on
    have hfirst : n ∈ (if t.isKernelKeyword then (nameAfterKeyword rest).toList else []) ↔
        t.isKernelKeyword = true ∧ NamesKernel rest n := by
      rw [← nameAfterKeyword_eq_some_iff]
      split <;> simp_all
    rw [kernelNames, List.mem_append, hfirst, ih]
    constructor
    · rintro (⟨hk, hn⟩ | ⟨pre, kw, r, rfl, hk, hn⟩)
      · exact ⟨[], t, rest, rfl, hk, hn⟩
      · exact ⟨t :: pre, kw, r, rfl, hk, hn⟩
    · rintro ⟨pre, kw, r, heq, hk, hn⟩
      cases pre with
      | nil =>
        obtain ⟨rfl, rfl⟩ := List.cons.inj heq
        exact .inl ⟨hk, hn⟩
      | cons p pre =>
        obtain ⟨rfl, rfl⟩ := List.cons.inj heq
        exact .inr ⟨pre, kw, r, rfl, hk, hn⟩

/-! ## What a build reports -/

/-- The names the front end gives are the kernel names of the text's tokens, and the text is
    well-formed. -/
theorem frontEnd_eq_ok {source flags : String} {names : List String} (h : frontEnd source flags = .ok names) :
    names = kernelNames (scan source).tokens ∧ WellFormed source := by
  have hwf := ((frontEnd_verdict source flags).1.mp ⟨names, h⟩).2
  unfold frontEnd at h
  dsimp only at h
  split at h
  · cases h
    exact ⟨rfl, hwf⟩
  · cases h

theorem buildProgram_of_error {kernel source flags log : String} (host : Option HostFn)
    (h : frontEnd source flags = .error log) :
    buildProgram kernel source flags host = .error (.kernelBuild kernel log) := by
  rw [buildProgram, h]

theorem buildProgram_of_ok (kernel : String) {source flags : String} {names : List String} (host : Option HostFn)
    (h : frontEnd source flags = .ok names) :
    buildProgram kernel source flags host =
      if kernel ∉ names then .error (.kernelNotFound kernel)
      else host.elim
        (.error (.kernelBuild kernel
          ("<link>: error: no host implementation bound for kernel `" ++ kernel ++ "`\n")))
        (fun f => .ok ⟨names, f.addr⟩) := by
  rw [buildProgram, h]
  cases host <;> by_cases hk : kernel ∈ names <;> simp [hk]

/-- A build reports, in this order: the front end's log if it has one; else a kernel that the
    text does not define; else a missing host implementation; else it succeeds.  The names the
    text defines are those of its token stream, which exists and which comments and literals do
    not reach; they are the names the stream's kernel keywords define, in the keywords' order:
    a keyword followed by tokens with no `;`, `{` or `void` up to a `void`, then the name and
    `(`. -/
theorem build_fault_precedence (kernel source flags : String) (host : Option HostFn) :
    (∀ log, frontEnd source flags = .error log →
      buildProgram kernel source flags host = .error (.kernelBuild kernel log)) ∧
    (∀ names, frontEnd source flags = .ok names →
      (∃ ts, Tokenizes source.toList ts) ∧
      (∀ ts, Tokenizes source.toList ts → names = kernelNames ts) ∧
      (kernel ∉ names → buildProgram kernel source flags host = .error (.kernelNotFound kernel)) ∧
      (kernel ∈ names → host = none → buildProgram kernel source flags host =
        .error (.kernelBuild kernel
          ("<link>: error: no host implementation bound for kernel `" ++ kernel ++ "`\n"))) ∧
      (∀ f, kernel ∈ names → host = some f → buildProgram kernel source flags host = .ok ⟨names, f.addr⟩)) ∧
    (∀ kw rest n, kw.isKernelKeyword = true → NamesKernel rest n →
      kernelNames (kw :: rest) = n :: kernelNames rest) ∧
    (∀ kw rest, (kw.isKernelKeyword = false ∨ ∀ n, ¬ NamesKernel rest n) →
      kernelNames (kw :: rest) = kernelNames rest) ∧
    (∀ ts n, n ∈ kernelNames ts ↔
      ∃ pre kw rest, ts = pre ++ kw :: rest ∧ kw.isKernelKeyword = true ∧ NamesKernel rest n) := by
  refine ⟨fun log h => buildProgram_of_error host h, fun names h => ?_,
    fun _ _ _ hk hn => kernelNames_cons_of_namesKernel hk hn,
    fun _ _ h => kernelNames_cons_of_not_namesKernel h, fun _ _ => mem_kernelNames_iff⟩
  obtain ⟨hnames, w, hlex, -⟩ := frontEnd_eq_ok h
  have hbuild := buildProgram_of_ok kernel host h
  refine ⟨exists_tokenizes hlex, fun ts hts => by rw [hnames, scan_tokens_of_tokenizes hts],
    fun hk => by rw [hbuild, if_pos hk], fun hk hh => ?_, fun f hk hh => ?_⟩
  · rw [hbuild, if_neg (not_not.mpr hk), hh, Option.elim_none]
  · rw [hbuild, if_neg (not_not.mpr hk), hh, Option.elim_some]

/-- Kernel text in a comment and in a literal defines nothing: the build of a text that defines
    `k` there and in code finds no kernel `a`, and with no host implementation it stops at `k`'s
    link. -/
theorem commented_kernel_not_found :
    frontEnd "/* kernel void a( */ __kernel void k(); char *s = \"kernel void b(\";" "" = .ok ["k"] ∧
    buildProgram "a" "/* kernel void a( */ __kernel void k(); char *s = \"kernel void b(\";" "" none =
      .error (.kernelNotFound "a") ∧
    buildProgram "k" "/* kernel void a( */ __kernel void k(); char *s = \"kernel void b(\";" "" none =
      .error (.kernelBuild "k" "<link>: error: no host implementation bound for kernel `k`\n") := by
  have hfront : frontEnd "/* kernel void a( */ __kernel void k(); char *s = \"kernel void b(\";" "" =
      .ok ["k"] := by decide +kernel
  obtain ⟨-, hokA, -⟩ := build_fault_precedence "a" _ "" none
  obtain ⟨-, hokK, -⟩ := build_fault_precedence "k" _ "" none
  obtain ⟨-, -, hmissing, -⟩ := hokA ["k"] hfront
  obtain ⟨-, -, -, hlink, -⟩ := hokK ["k"] hfront
  exact ⟨hfront, hmissing (by decide), hlink (by decide) rfl⟩

end OffloadAlgebra.Source
