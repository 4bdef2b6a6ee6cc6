import Mathlib.Data.List.Infix
import Mathlib.Data.List.TakeWhile
import OffloadAlgebra.Proofs.Source.Delimiters
/-!
  How kernel text divides into code, comments and literals.

  `Lexes t w` reads the text `t` front to back.  A `//` comment runs to the end of its line; a
  `/*` comment runs to the first `*/` after it, so comments do not nest; a string or character
  literal runs to the next quote of its kind before the end of its line, a backslash escaping
  the character after it; every other character is code.  `w` is the word of the delimiters met
  in code, in order.  Text that lexes closes every comment and literal it opens; it is
  well-formed when the word of its delimiters is balanced too.

  There is one way to read a text: a comment or a literal ends at the first closing of its kind
  (`afterCommentEnd_eq_some_iff`, `afterLiteral_eq_some_iff`), and at each first character one
  case of `Lexes` applies (`lexes_lineComment_iff` and the lemmas after it).  The scanner is
  compared with these one case at a time.
-/

namespace OffloadAlgebra.Source

/-- The two quotes that open a literal. -/
def isQuote (c : Char) : Bool := c == '"' || c == '\''

/-- The body of a literal closed by the quote `q`: characters other than the quote, a backslash
    and a line feed, and a backslash with any character after it. -/
inductive LiteralBody (q : Char) : List Char → Prop
  | nil : LiteralBody q []
  | plain {c : Char} {body : List Char} (hq : c ≠ q) (hb : c ≠ '\\') (hn : c ≠ '\n')
      (h : LiteralBody q body) : LiteralBody q (c :: body)
  | escape {c : Char} {body : List Char} (h : LiteralBody q body) : LiteralBody q ('\\' :: c :: body)

/-- The text `t` lexes, and `w` is the word of the delimiters in its code. -/
inductive Lexes : List Char → List Char → Prop
  | nil : Lexes [] []
  | lineComment {body rest w : List Char} (hb : '\n' ∉ body) (hr : ∀ c ∈ rest.head?, c = '\n')
      (h : Lexes rest w) : Lexes ('/' :: '/' :: (body ++ rest)) w
  | blockComment {body rest w : List Char} (hb : ¬ ['*', '/'] <:+: body) (h : Lexes rest w) :
      Lexes ('/' :: '*' :: (body ++ '*' :: '/' :: rest)) w
  | literal {q : Char} {body rest w : List Char} (hq : isQuote q = true) (hb : LiteralBody q body)
      (h : Lexes rest w) : Lexes (q :: (body ++ q :: rest)) w
  | code {c : Char} {rest w : List Char} (hq : isQuote c = false)
      (hs : c = '/' → ∀ d ∈ rest.head?, d ≠ '/' ∧ d ≠ '*') (h : Lexes rest w) :
      Lexes (c :: rest) (if isDelimiter c then c :: w else w)

/-- The word of a text's code holds only delimiters. -/
theorem Lexes.isDelimiter {t w : List Char} (h : Lexes t w) : ∀ c ∈ w, isDelimiter c = true := by
  induction h with
  | nil => simp
  | lineComment _ _ _ ih | blockComment _ _ ih | literal _ _ _ ih => exact ih
  | @code c _ _ _ _ _ ih =>
    intro d hd
    by_cases hc : Source.isDelimiter c = true
    · rw [if_pos hc, List.mem_cons] at hd
      rcases hd with rfl | hd
      · exact hc
      · exact ih d hd
    · rw [if_neg hc] at hd
      exact ih d hd

/-- Well-formed kernel text: every comment and literal it opens is closed, and the delimiters of
    its code form a balanced word. -/
def WellFormed (source : String) : Prop := ∃ w, Lexes source.toList w ∧ Balanced w

/-! ## Where comments and literals end -/

/-- What follows the first `*/` of a text, if it has one. -/
def afterCommentEnd : List Char → Option (List Char)
  | '*' :: '/' :: rest => some rest
  | _ :: rest => afterCommentEnd rest
  | [] => none

/-- What follows the quote `q` that closes a literal body at the front of a text; `none` when
    a line feed or the end of the text comes first. -/
def afterLiteral (q : Char) : List Char → Option (List Char)
  | [] => none
  | '\n' :: _ => none
  | '\\' :: _ :: rest => afterLiteral q rest
  | ['\\'] => none
  | c :: rest => if c = q then some rest else afterLiteral q rest

/-- What follows a literal after its opening quote `q`: the text after the closing quote, the
    line feed that ends an unclosed literal and what follows it, or nothing when the text ends
    first. -/
def skipLiteral (q : Char) : List Char → List Char
  | [] => []
  | '\n' :: t => '\n' :: t
  | '\\' :: _ :: t => skipLiteral q t
  | ['\\'] => []
  | c :: t => if c = q then t else skipLiteral q t

theorem not_commentEnd_infix_cons {c : Char} {body : List Char} (h : ¬ ['*', '/'] <:+: c :: body) :
    ¬ ['*', '/'] <:+: body :=
  fun h' => h (List.infix_cons_iff.mpr (Or.inr h'))

/-- A comment ends at its first `*/`. -/
theorem afterCommentEnd_eq_some_iff {t r : List Char} :
    afterCommentEnd t = some r ↔ ∃ body, t = body ++ '*' :: '/' :: r ∧ ¬ ['*', '/'] <:+: body := by
  constructor
  · intro h
    fun_induction afterCommentEnd t with
    | case1 rest =>
      cases h
      exact ⟨[], rfl, by simp [List.infix_nil]⟩
    | case2 c rest hne ih =>
      obtain ⟨body, rfl, hb⟩ := ih h
      refine ⟨c :: body, rfl, fun hin => ?_⟩
      -- a `*/` at the front would have ended the comment one step earlier
      rcases List.infix_cons_iff.mp hin with hp | hp
      · obtain ⟨rfl, hslash⟩ := List.cons_prefix_cons.mp hp
        obtain ⟨u, rfl⟩ := hslash
        exact hne (u ++ '*' :: '/' :: r) rfl (by simp)
      · exact hb hp
    | case3 => cases h
  · rintro ⟨body, rfl, hb⟩
    induction body with
    | nil => rfl
    | cons c body ih =>
      rw [List.cons_append, afterCommentEnd.eq_2 _ _ ?_]
      · exact ih (not_commentEnd_infix_cons hb)
      · rintro rest rfl hrest
        cases body with
        | nil => cases hrest
        | cons d body =>
          obtain ⟨rfl, -⟩ := List.cons.inj hrest
          exact hb (List.infix_cons_iff.mpr (Or.inl (by simp)))

theorem length_lt_of_afterCommentEnd {t r : List Char} (h : afterCommentEnd t = some r) :
    r.length < t.length := by
  obtain ⟨body, rfl, -⟩ := afterCommentEnd_eq_some_iff.mp h
  simp only [List.length_append, List.length_cons]
  omega

theorem ne_backslash_of_isQuote {q : Char} (hq : isQuote q = true) : q ≠ '\\' := by
  rintro rfl
  cases hq

theorem ne_newline_of_isQuote {q : Char} (hq : isQuote q = true) : q ≠ '\n' := by
  rintro rfl
  cases hq

/-- A literal ends at the first quote of its kind that no backslash escapes. -/
theorem afterLiteral_eq_some_iff {q : Char} (hq : isQuote q = true) {t r : List Char} :
    afterLiteral q t = some r ↔ ∃ body, t = body ++ q :: r ∧ LiteralBody q body := by
  constructor
  · intro h
    fun_induction afterLiteral q t with
    | case1 | case2 | case4 => cases h
    | case3 c rest ih =>
      obtain ⟨body, rfl, hb⟩ := ih h
      exact ⟨'\\' :: c :: body, rfl, .escape hb⟩
    | case5 rest =>
      cases h
      exact ⟨[], rfl, .nil⟩
    | case6 c rest hn hesc hlast hcq ih =>
      obtain ⟨body, rfl, hb⟩ := ih h
      -- the character is plain: not a line feed, not a backslash, not the quote
      have hb' : c ≠ '\\' := fun hc => by
        subst hc
        cases body with
        | nil => exact hesc q r rfl rfl
        | cons d body => exact hesc d _ rfl rfl
      exact ⟨c :: body, rfl, .plain hcq hb' hn hb⟩
  · rintro ⟨body, rfl, hb⟩
    induction hb with
    | nil =>
      rw [List.nil_append, afterLiteral.eq_5 _ _ _ (ne_newline_of_isQuote hq)
        (fun _ _ h => absurd h (ne_backslash_of_isQuote hq)) (fun h => absurd h (ne_backslash_of_isQuote hq))]
      simp
    | @plain c body hcq hcb hcn _ ih =>
      rw [List.cons_append, afterLiteral.eq_5 _ _ _ hcn (fun _ _ h => absurd h hcb) (fun h => absurd h hcb),
        if_neg hcq]
      exact ih
    | escape _ ih =>
      rw [List.cons_append, List.cons_append]
      exact ih

theorem length_lt_of_afterLiteral {q : Char} (hq : isQuote q = true) {t r : List Char}
    (h : afterLiteral q t = some r) : r.length < t.length := by
  obtain ⟨body, rfl, -⟩ := (afterLiteral_eq_some_iff hq).mp h
  simp only [List.length_append, List.length_cons]
  omega

theorem skipLiteral_suffix (q : Char) (t : List Char) : skipLiteral q t <:+ t := by
  fun_induction skipLiteral q t with
  | case1 | case2 => exact List.suffix_refl _
  | case3 c t ih => exact ih.trans ((List.suffix_cons c t).trans (List.suffix_cons '\\' _))
  | case4 => exact List.nil_suffix
  | case5 t => exact List.suffix_cons q t
  | case6 c t _ _ _ _ ih => exact ih.trans (List.suffix_cons c t)

/-- A closed literal leaves what follows its closing quote. -/
theorem skipLiteral_of_afterLiteral {q : Char} {t r : List Char} (h : afterLiteral q t = some r) :
    skipLiteral q t = r := by
  fun_induction afterLiteral q t with
  | case1 | case2 | case4 => cases h
  | case3 c rest ih => exact ih h
  | case5 rest =>
    cases h
    rw [skipLiteral.eq_5 _ _ _ (by assumption) (by assumption) (by assumption), if_pos rfl]
  | case6 c rest hn hesc hlast hcq ih =>
    rw [skipLiteral.eq_5 _ _ _ hn hesc hlast, if_neg hcq]
    exact ih h

/-- A line comment ends before the first line feed. -/
theorem dropWhile_lineEnd {body rest : List Char} (hb : '\n' ∉ body) (hr : ∀ c ∈ rest.head?, c = '\n') :
    (body ++ rest).dropWhile (· ≠ '\n') = rest := by
  rw [List.dropWhile_append_of_pos (fun c hc => by simpa using ne_of_mem_of_not_mem hc hb)]
  cases rest with
  | nil => rfl
  | cons c rest =>
    obtain rfl : c = '\n' := hr c rfl
    simp

/-! ## One reading at each first character -/

theorem lexes_nil_iff {w : List Char} : Lexes [] w ↔ w = [] := by
  constructor
  · intro h
    generalize hx : ([] : List Char) = x at h
    cases h <;> simp_all
  · rintro rfl
    exact .nil

/-- After `//` the text is read again from the end of the line. -/
theorem lexes_lineComment_iff {t w : List Char} :
    Lexes ('/' :: '/' :: t) w ↔ Lexes (t.dropWhile (· ≠ '\n')) w := by
  constructor
  · intro h
    generalize hx : '/' :: '/' :: t = x at h
    cases h with
    | nil => cases hx
    | lineComment hb hr h =>
      obtain rfl := (List.cons.inj (List.cons.inj hx).2).2
      rwa [dropWhile_lineEnd hb hr]
    | blockComment => simp at hx
    | literal hq =>
      obtain ⟨rfl, -⟩ := List.cons.inj hx
      cases hq
    | code _ hs =>
      obtain ⟨rfl, rfl⟩ := List.cons.inj hx
      exact absurd rfl (hs rfl '/' rfl).1
  · intro h
    have hl := @Lexes.lineComment (t.takeWhile (· ≠ '\n')) (t.dropWhile (· ≠ '\n')) _
      (fun hn => by simpa using List.mem_takeWhile_imp hn) ?_ h
    · rwa [List.takeWhile_append_dropWhile] at hl
    · intro c hc
      have := List.head?_dropWhile_not (· ≠ '\n') t
      rw [hc] at this
      simpa using this

/-- After `/*` the text is read again after the first `*/`, which must come. -/
theorem lexes_blockComment_iff {t w : List Char} :
    Lexes ('/' :: '*' :: t) w ↔ ∃ r, afterCommentEnd t = some r ∧ Lexes r w := by
  constructor
  · intro h
    generalize hx : '/' :: '*' :: t = x at h
    cases h with
    | nil => cases hx
    | lineComment => simp at hx
    | @blockComment body rest _ hb h =>
      obtain rfl := (List.cons.inj (List.cons.inj hx).2).2
      exact ⟨rest, afterCommentEnd_eq_some_iff.mpr ⟨body, rfl, hb⟩, h⟩
    | literal hq =>
      obtain ⟨rfl, -⟩ := List.cons.inj hx
      cases hq
    | code _ hs =>
      obtain ⟨rfl, rfl⟩ := List.cons.inj hx
      exact absurd rfl (hs rfl '*' rfl).2
  · rintro ⟨r, hr, h⟩
    obtain ⟨body, rfl, hb⟩ := afterCommentEnd_eq_some_iff.mp hr
    exact .blockComment hb h

/-- After an opening quote the text is read again after the quote that closes the literal,
    which must come before the end of its line. -/
theorem lexes_literal_iff {q : Char} (hq : isQuote q = true) {t w : List Char} :
    Lexes (q :: t) w ↔ ∃ r, afterLiteral q t = some r ∧ Lexes r w := by
  constructor
  · intro h
    generalize hx : q :: t = x at h
    cases h with
    | nil => cases hx
    | lineComment =>
      obtain ⟨rfl, -⟩ := List.cons.inj hx
      cases hq
    | blockComment =>
      obtain ⟨rfl, -⟩ := List.cons.inj hx
      cases hq
    | @literal q' body rest _ _ hb h =>
      obtain ⟨rfl, rfl⟩ := List.cons.inj hx
      exact ⟨rest, (afterLiteral_eq_some_iff hq).mpr ⟨body, rfl, hb⟩, h⟩
    | code hq' =>
      obtain ⟨rfl, -⟩ := List.cons.inj hx
      rw [hq] at hq'
      cases hq'
  · rintro ⟨r, hr, h⟩
    obtain ⟨body, rfl, hb⟩ := (afterLiteral_eq_some_iff hq).mp hr
    exact .literal hq hb h

/-- Any other character is code, and adds itself to the word when it is a delimiter. -/
theorem lexes_code_iff {c : Char} {t w : List Char} (hq : isQuote c = false)
    (hs : c = '/' → ∀ d ∈ t.head?, d ≠ '/' ∧ d ≠ '*') :
    Lexes (c :: t) w ↔ ∃ w', Lexes t w' ∧ w = if isDelimiter c then c :: w' else w' := by
  constructor
  · intro h
    generalize hx : c :: t = x at h
    cases h with
    | nil => cases hx
    | lineComment =>
      obtain ⟨rfl, rfl⟩ := List.cons.inj hx
      exact absurd rfl (hs rfl '/' rfl).1
    | blockComment =>
      obtain ⟨rfl, rfl⟩ := List.cons.inj hx
      exact absurd rfl (hs rfl '*' rfl).2
    | literal hq' =>
      obtain ⟨rfl, -⟩ := List.cons.inj hx
      rw [hq] at hq'
      cases hq'
    | @code _ _ w' _ _ h =>
      obtain ⟨rfl, rfl⟩ := List.cons.inj hx
      exact ⟨w', h, rfl⟩
  · rintro ⟨w', h, rfl⟩
    exact .code hq hs h

end OffloadAlgebra.Source
