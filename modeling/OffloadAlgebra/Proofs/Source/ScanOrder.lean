import OffloadAlgebra.Proofs.Source.Scanner
/-!
  The order of the scanner's complaints.

  The scanner's cursor never moves back, and after every complaint and every opener it moves on
  at least one place before anything else is recorded.  So the complaints it makes come in the
  order of their places in the text, all of them before the cursor, and the open delimiters
  on its stack stand innermost first, the latest opened being the furthest on (`Ordered`, kept
  by every branch: `ordered_scanFrom`).

  Reading a scan's complaint list off that: the complaints found while scanning come first, in
  the order of their places, and the delimiters left open come last, from the outermost to the
  innermost (`scan_complaints_ordered`).
-/

namespace OffloadAlgebra.Source

/-- `a` stands before `b` in the text: on an earlier line, or earlier on the same line. -/
def Cursor.Before (a b : Cursor) : Prop := a.line < b.line ∨ (a.line = b.line ∧ a.col < b.col)

/-- `a` stands at `b` or before it. -/
def Cursor.AtMost (a b : Cursor) : Prop := a.line < b.line ∨ (a.line = b.line ∧ a.col ≤ b.col)

namespace Cursor

theorem AtMost.refl (a : Cursor) : a.AtMost a := .inr ⟨rfl, Nat.le_refl _⟩

theorem Before.atMost {a b : Cursor} (h : a.Before b) : a.AtMost b := by
  rcases h with h | ⟨h₁, h₂⟩
  · exact .inl h
  · exact .inr ⟨h₁, Nat.le_of_lt h₂⟩

theorem AtMost.trans {a b c : Cursor} (h₁ : a.AtMost b) (h₂ : b.AtMost c) : a.AtMost c := by
  unfold AtMost at *
  omega

theorem Before.trans_atMost {a b c : Cursor} (h₁ : a.Before b) (h₂ : b.AtMost c) : a.Before c := by
  unfold Before AtMost at *
  omega

theorem before_advance (a : Cursor) {n : Nat} (hn : 0 < n) : a.Before ⟨a.line, a.col + n⟩ :=
  .inr ⟨rfl, show a.col < a.col + n by omega⟩

end Cursor

/-- A block comment does not move the cursor back. -/
theorem atMost_blockComment (bs : Bytes) (cur : Cursor) : cur.AtMost (blockComment bs cur).2.2 := by
  fun_induction blockComment bs cur with
  | case1 rest c => exact (Cursor.before_advance c (by decide)).atMost
  | case2 rest c ih => exact Cursor.AtMost.trans (.inl (Nat.lt_succ_self _)) ih
  | case3 _ rest c _ _ ih => exact ((Cursor.before_advance c (by decide)).atMost).trans ih
  | case4 c => exact .refl c

/-- A literal does not move the column back. -/
theorem le_literal (q : UInt8) (bs : Bytes) (col : Nat) : col ≤ (literal q bs col).2.2 := by
  fun_induction literal q bs col with
  | case1 col | case2 _ col => exact Nat.le_refl col
  | case3 _ _ col ih | case6 _ _ col _ _ _ _ ih => exact Nat.le_of_add_right_le ih
  | case4 col => exact Nat.le_add_right col 2
  | case5 _ col => exact Nat.le_add_right col 1

/-- What the scanner keeps in order: complaints by place and before the cursor, none of them
    about a delimiter left open, and open delimiters innermost and furthest on first. -/
structure Ordered (st : ScanState) : Prop where
  complaints_sorted : st.complaints.Pairwise fun a b => b.place.Before a.place
  complaints_before : ∀ c ∈ st.complaints, c.place.Before st.cursor
  complaints_inScan : ∀ c ∈ st.complaints, ∀ o, c ≠ .neverClosed o
  opened_sorted : st.opened.Pairwise fun a b => b.pos.Before a.pos
  opened_before : ∀ o ∈ st.opened, o.pos.Before st.cursor

theorem ordered_start : Ordered {} where
  complaints_sorted := .nil
  complaints_before := by simp
  complaints_inScan := by simp
  opened_sorted := .nil
  opened_before := by simp

namespace Ordered

variable {st st' : ScanState}

/-- Moving on, and maybe closing delimiters, keeps the order. -/
theorem move (h : Ordered st) (hcur : st.cursor.AtMost st'.cursor) (hopen : st'.opened.Sublist st.opened)
    (hcomp : st'.complaints = st.complaints) : Ordered st' where
  complaints_sorted := hcomp ▸ h.complaints_sorted
  complaints_before c hc := (h.complaints_before c (hcomp ▸ hc)).trans_atMost hcur
  complaints_inScan c hc := h.complaints_inScan c (hcomp ▸ hc)
  opened_sorted := h.opened_sorted.sublist hopen
  opened_before o ho := (h.opened_before o (hopen.subset ho)).trans_atMost hcur

/-- A complaint at the cursor, followed by a move past it, keeps the order. -/
theorem complain (h : Ordered st) {x : Complaint} (hx : x.place = st.cursor) (hnc : ∀ o, x ≠ .neverClosed o)
    (hcur : st.cursor.Before st'.cursor) (hopen : st'.opened.Sublist st.opened)
    (hcomp : st'.complaints = x :: st.complaints) : Ordered st' where
  complaints_sorted := by
    rw [hcomp]
    exact .cons (fun c hc => hx ▸ h.complaints_before c hc) h.complaints_sorted
  complaints_before c hc := by
    rw [hcomp, List.mem_cons] at hc
    rcases hc with rfl | hc
    · exact hx ▸ hcur
    · exact (h.complaints_before c hc).trans_atMost hcur.atMost
  complaints_inScan c hc := by
    rw [hcomp, List.mem_cons] at hc
    rcases hc with rfl | hc
    · exact hnc
    · exact h.complaints_inScan c hc
  opened_sorted := h.opened_sorted.sublist hopen
  opened_before o ho := (h.opened_before o (hopen.subset ho)).trans_atMost hcur.atMost

/-- An opener at the cursor, followed by a move past it, keeps the order. -/
theorem «open» (h : Ordered st) {o : Opener} (ho : o.pos = st.cursor) (hcur : st.cursor.Before st'.cursor)
    (hopen : st'.opened = o :: st.opened) (hcomp : st'.complaints = st.complaints) : Ordered st' where
  complaints_sorted := hcomp ▸ h.complaints_sorted
  complaints_before c hc := (h.complaints_before c (hcomp ▸ hc)).trans_atMost hcur.atMost
  complaints_inScan c hc := h.complaints_inScan c (hcomp ▸ hc)
  opened_sorted := by
    rw [hopen]
    exact .cons (fun p hp => ho ▸ h.opened_before p hp) h.opened_sorted
  opened_before p hp := by
    rw [hopen, List.mem_cons] at hp
    rcases hp with rfl | hp
    · exact ho ▸ hcur
    · exact (h.opened_before p hp).trans_atMost hcur.atMost

/-- Meeting a character in code and moving one column on keeps the order. -/
theorem delimiter (h : Ordered st) (c : Char) : Ordered ((st.delimiter c).advance 1) := by
  have hcur := Cursor.before_advance st.cursor (n := 1) (by decide)
  unfold ScanState.delimiter
  split
  · exact h.open rfl hcur rfl rfl
  · split
    · split
      · rename_i rest hop
        -- a closer pops the innermost opener, and complains if it is the wrong one
        have hsub : rest.Sublist st.opened := hop ▸ List.sublist_cons_self _ _
        split
        · exact h.move hcur.atMost hsub rfl
        · exact h.complain rfl (fun _ => by simp) hcur hsub rfl
      · exact h.complain rfl (fun _ => by simp) hcur (by simp) rfl
    · exact h.move hcur.atMost (List.Sublist.refl _) rfl

end Ordered

/-- Every branch of the scanner keeps the order, so the whole scan does. -/
theorem ordered_scanFrom (bs : Bytes) {st : ScanState} (h : Ordered st) : Ordered (scanFrom bs st) := by
  fun_induction scanFrom bs st with
  | case1 => exact h
  | case2 st =>
    rename_i ih
    exact ih (h.move (.inl (Nat.lt_succ_self _)) (List.Sublist.refl _) rfl)
  | case3 =>
    rename_i ih
    exact ih h
  | case4 st rest =>
    rename_i ih
    -- an unclosed comment is reported where it opened; the cursor moves past its end
    have hcur : st.cursor.Before (blockComment rest ⟨st.cursor.line, st.cursor.col + 2⟩).2.2 :=
      (Cursor.before_advance st.cursor (by decide)).trans_atMost (atMost_blockComment _ _)
    apply ih
    dsimp +zetaDelta only
    split
    · exact h.move hcur.atMost (List.Sublist.refl _) rfl
    · exact h.complain rfl (fun _ => by simp) hcur (List.Sublist.refl _) rfl
  | case5 st b rest =>
    rename_i ih
    have hcur : st.cursor.Before ⟨st.cursor.line, (literal b rest (st.cursor.col + 1)).2.2⟩ :=
      .inr ⟨rfl, Nat.lt_of_lt_of_le (Nat.lt_succ_self _) (le_literal _ _ _)⟩
    apply ih
    dsimp +zetaDelta only
    split
    · exact h.move hcur.atMost (List.Sublist.refl _) rfl
    · exact h.complain rfl (fun _ => by simp) hcur (List.Sublist.refl _) rfl
  | case6 st =>
    rename_i ih
    exact ih (h.move (Cursor.before_advance _ (by omega)).atMost (List.Sublist.refl _) rfl)
  | case7 st b =>
    rename_i ih
    apply ih
    dsimp +zetaDelta only
    have hd := h.delimiter (charOf b)
    split
    · exact hd
    · exact hd.move (.refl _) (List.Sublist.refl _) rfl

/-- A scan's complaints: those found in the text, in the order of their places, then the
    delimiters left open, from the outermost to the innermost. -/
theorem scan_complaints_ordered (source : String) :
    ∃ (found : List Complaint) (unclosed : List Opener), (scan source).complaints = found ++ unclosed.map .neverClosed ∧
      (∀ c ∈ found, ∀ o, c ≠ .neverClosed o) ∧
      found.Pairwise (fun a b => a.place.Before b.place) ∧
      unclosed.Pairwise (fun a b => a.pos.Before b.pos) := by
  have h := ordered_scanFrom source.toUTF8.toList ordered_start
  refine ⟨_, _, rfl, fun c hc => h.complaints_inScan c (List.mem_reverse.mp hc),
    List.pairwise_reverse.mpr h.complaints_sorted, List.pairwise_reverse.mpr h.opened_sorted⟩

end OffloadAlgebra.Source
