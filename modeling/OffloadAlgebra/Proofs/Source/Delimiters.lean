import OffloadAlgebra.Source.Scan
/-!
  Balanced delimiter words, and the stack check that recognises them.

  A word over the three bracket kinds is balanced when it is empty, or an opener, a balanced
  word, the opener's closer and another balanced word.  The scanner checks balance with a stack
  of the delimiters still open, innermost first: an opener is pushed, a closer must match the
  top of the stack and pops it.  `matchDelimiters` is that check on a word of its own.

  `Closes stk w` says that `w` closes what `stk` left open: balanced stretches, each followed by
  the closer of the next open delimiter, and a balanced tail.  The check run from `stk` empties
  the stack exactly on such words (`Closes.matchDelimiters`, `closes_of_matchDelimiters`), so
  run from an empty stack it accepts exactly the balanced words (`balanced_iff_matchDelimiters`).
-/

namespace OffloadAlgebra.Source

/-- The three opening delimiters. -/
def isOpener (c : Char) : Bool := c == '(' || c == '[' || c == '{'

/-- The three closing delimiters. -/
def isCloser (c : Char) : Bool := c == ')' || c == ']' || c == '}'

/-- The characters whose balance the scanner checks. -/
def isDelimiter (c : Char) : Bool := isOpener c || isCloser c

theorem isCloser_closerFor (o : Char) : isCloser (closerFor o) = true := by
  unfold closerFor
  split <;> decide

theorem isOpener_closerFor (o : Char) : isOpener (closerFor o) = false := by
  unfold closerFor
  split <;> decide

theorem isDelimiter_closerFor (o : Char) : isDelimiter (closerFor o) = true := by
  simp [isDelimiter, isCloser_closerFor]

/-- One character of the balance check: an opener is pushed, a closer pops the opener it
    closes, any other character leaves the stack; `none` at a closer that closes nothing open. -/
def matchStep (stk : List Char) (c : Char) : Option (List Char) :=
  if isOpener c then some (c :: stk)
  else if isCloser c then
    match stk with
    | o :: rest => if closerFor o = c then some rest else none
    | [] => none
  else some stk

/-- The balance check over a word, from a stack of open delimiters: the stack left at the end,
    or `none` at the first closer that closes nothing open. -/
def matchDelimiters (stk : List Char) : List Char → Option (List Char)
  | [] => some stk
  | c :: w => (matchStep stk c).bind fun stk' => matchDelimiters stk' w

@[simp] theorem matchDelimiters_nil (stk : List Char) : matchDelimiters stk [] = some stk := rfl

theorem matchDelimiters_cons (stk : List Char) (c : Char) (w : List Char) :
    matchDelimiters stk (c :: w) = (matchStep stk c).bind fun stk' => matchDelimiters stk' w := rfl

theorem matchStep_opener {c : Char} (hc : isOpener c = true) (stk : List Char) :
    matchStep stk c = some (c :: stk) := by
  simp [matchStep, hc]

theorem matchStep_of_not_isDelimiter {c : Char} (hc : isDelimiter c = false) (stk : List Char) :
    matchStep stk c = some stk := by
  simp only [isDelimiter, Bool.or_eq_false_iff] at hc
  simp [matchStep, hc.1, hc.2]

@[simp] theorem matchStep_closerFor (o : Char) (stk : List Char) :
    matchStep (o :: stk) (closerFor o) = some stk := by
  simp [matchStep, isOpener_closerFor, isCloser_closerFor]

/-- Balanced words over the three bracket kinds. -/
inductive Balanced : List Char → Prop
  | nil : Balanced []
  | wrap {o : Char} {u v : List Char} (ho : isOpener o = true) (hu : Balanced u) (hv : Balanced v) :
      Balanced (o :: u ++ closerFor o :: v)

/-- `w` closes the delimiters open on `stk`, innermost first: a balanced stretch and the closer
    of each open delimiter in turn, then a balanced tail. -/
inductive Closes : List Char → List Char → Prop
  | done {w : List Char} (hw : Balanced w) : Closes [] w
  | close {o : Char} {stk u v : List Char} (hu : Balanced u) (hv : Closes stk v) :
      Closes (o :: stk) (u ++ closerFor o :: v)

/-- Only delimiters stand in a balanced word. -/
theorem Balanced.isDelimiter {w : List Char} (h : Balanced w) : ∀ c ∈ w, isDelimiter c = true := by
  induction h with
  | nil => simp
  | @wrap o u v ho _ _ ihu ihv =>
    intro c hc
    simp only [List.cons_append, List.mem_cons, List.mem_append] at hc
    rcases hc with rfl | hc | rfl | hc
    · simp [Source.isDelimiter, ho]
    · exact ihu c hc
    · exact isDelimiter_closerFor o
    · exact ihv c hc

/-- A balanced stretch leaves the stack as it found it. -/
theorem Balanced.matchDelimiters_append {w : List Char} (h : Balanced w) :
    ∀ stk rest, matchDelimiters stk (w ++ rest) = matchDelimiters stk rest := by
  induction h with
  | nil => intro stk rest; rfl
  | @wrap o u v ho _ _ ihu ihv =>
    intro stk rest
    -- the opener is pushed, the stretch inside keeps it on top, and its closer pops it
    calc matchDelimiters stk (o :: u ++ closerFor o :: v ++ rest)
        = matchDelimiters (o :: stk) (u ++ (closerFor o :: (v ++ rest))) := by
          simp [matchDelimiters_cons, matchStep_opener ho]
      _ = matchDelimiters (o :: stk) (closerFor o :: (v ++ rest)) := ihu _ _
      _ = matchDelimiters stk (v ++ rest) := by simp [matchDelimiters_cons]
      _ = matchDelimiters stk rest := ihv _ _

/-- A word that closes the open delimiters empties the stack. -/
theorem Closes.matchDelimiters {stk w : List Char} (h : Closes stk w) :
    matchDelimiters stk w = some [] := by
  induction h with
  | done hw => simpa using hw.matchDelimiters_append [] []
  | @close o stk u v hu _ ih =>
    rw [hu.matchDelimiters_append, matchDelimiters_cons, matchStep_closerFor]
    exact ih

/-- Opening a delimiter and closing it again in front of a word that closes `stk`. -/
theorem Closes.wrap {c : Char} {stk u v : List Char} (hc : isOpener c = true) (hu : Balanced u)
    (hv : Closes stk v) : Closes stk (c :: u ++ closerFor c :: v) := by
  cases hv with
  | done hw => exact .done (.wrap hc hu hw)
  | @close o stk u' v' hu' hv' =>
    -- the new pair joins the balanced stretch before the next closer
    have heq : c :: u ++ closerFor c :: (u' ++ closerFor o :: v') =
        (c :: u ++ closerFor c :: u') ++ closerFor o :: v' := by simp
    rw [heq]
    exact .close (.wrap hc hu hu') hv'

/-- A word of delimiters on which the check empties the stack closes the stack. -/
theorem closes_of_matchDelimiters {w : List Char} (hw : ∀ c ∈ w, isDelimiter c = true) :
    ∀ {stk}, matchDelimiters stk w = some [] → Closes stk w := by
  induction w with
  | nil =>
    intro stk h
    cases h
    exact .done .nil
  | cons c w ih =>
    intro stk h
    have hw' : ∀ d ∈ w, isDelimiter d = true := fun d hd => hw d (List.mem_cons_of_mem c hd)
    rw [matchDelimiters_cons] at h
    by_cases ho : isOpener c = true
    · -- the opener's closer ends the stretch that `ih` finds
      rw [matchStep_opener ho, Option.bind_some] at h
      cases ih hw' h with
      | close hu hv => exact hv.wrap ho hu
    · have hcl : isCloser c = true := by
        simpa [Source.isDelimiter, ho] using hw c List.mem_cons_self
      cases stk with
      | nil => simp [matchStep, ho, hcl] at h
      | cons o stk =>
        by_cases hmatch : closerFor o = c
        · subst hmatch
          rw [matchStep_closerFor, Option.bind_some] at h
          exact .close (u := []) .nil (ih hw' h)
        · simp [matchStep, ho, hcl, hmatch] at h

/-- The balance check, run from an empty stack, accepts exactly the balanced words. -/
theorem balanced_iff_matchDelimiters {w : List Char} (hw : ∀ c ∈ w, isDelimiter c = true) :
    Balanced w ↔ matchDelimiters [] w = some [] := by
  constructor
  · intro h
    exact (Closes.done h).matchDelimiters
  · intro h
    cases closes_of_matchDelimiters hw h with
    | done hb => exact hb

example : matchDelimiters [] "([]{})".toList = some [] := by decide
example : matchDelimiters [] "(]".toList = none := by decide

end OffloadAlgebra.Source
