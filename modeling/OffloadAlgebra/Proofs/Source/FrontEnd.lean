import OffloadAlgebra.Proofs.Source.ScanOrder
import OffloadAlgebra.Source.Build
/-!
  The front end's verdict.

  A build flag is accepted when it defines a macro, `-DNAME` or `-DNAME=VALUE` with a macro name
  and a signed 64-bit value, or when it starts with `-cl-` or `-I` (`FlagOk`).  The flag log is
  empty exactly when every word of the flags is accepted (`flagLog_eq_nil_iff`).

  The front end answers with the kernel names exactly when the flags are accepted and the text is
  well-formed.  Otherwise it answers with a log that is not empty: the flag faults, then the faults
  found in the text in the order of their places, then the delimiters left open from the
  outermost in (`frontEnd_verdict`).
-/

namespace OffloadAlgebra.Source

/-- A build flag the front end accepts: `-DNAME` or `-DNAME=VALUE`, with a macro name and a
    value that reads as a signed 64-bit integer, or a flag that starts with `-cl-` or `-I`. -/
def FlagOk (word : String) : Prop :=
  (∃ name, Text.isMacroNameChars name = true ∧
    (word.toList = '-' :: 'D' :: name ∨
      ∃ value, (Text.readInt64? (String.ofList value)).isSome ∧ word.toList = '-' :: 'D' :: (name ++ '=' :: value))) ∨
  "-cl-".toList <+: word.toList ∨ "-I".toList <+: word.toList

/-- A macro name has no `=` in it. -/
theorem eq_sign_not_mem {name : List Char} (h : Text.isMacroNameChars name = true) : '=' ∉ name := by
  cases name with
  | nil => cases h
  | cons c cs =>
    simp only [Text.isMacroNameChars, Bool.and_eq_true, List.all_eq_true] at h
    intro hm
    rcases List.mem_cons.mp hm with rfl | hm
    · exact absurd h.1 (by decide)
    · exact absurd (h.2 _ hm) (by decide)

theorem splitDefine_name {name : List Char} (h : '=' ∉ name) : splitDefine name = (name, none) := by
  have hall : ∀ c ∈ name, decide (c ≠ '=') = true := fun c hc => by simpa using ne_of_mem_of_not_mem hc h
  unfold splitDefine
  rw [List.takeWhile_eq_self_iff.mpr hall, List.dropWhile_eq_nil_iff.mpr hall]

theorem splitDefine_value {name : List Char} (h : '=' ∉ name) (value : List Char) :
    splitDefine (name ++ '=' :: value) = (name, some value) := by
  have hall : ∀ c ∈ name, decide (c ≠ '=') = true := fun c hc => by simpa using ne_of_mem_of_not_mem hc h
  unfold splitDefine
  rw [List.takeWhile_append_of_pos hall, List.dropWhile_append_of_pos hall,
    List.takeWhile_cons_of_neg (by simp), List.dropWhile_cons_of_neg (by simp), List.append_nil]

/-- The body of a `-D` flag is its name, or its name, an `=` and its value, split at the first `=`. -/
theorem splitDefine_cases (body : List Char) :
    (splitDefine body = (body, none) ∧ '=' ∉ body) ∨
      ∃ value, splitDefine body = (body.takeWhile (· ≠ '='), some value) ∧
        body = body.takeWhile (· ≠ '=') ++ '=' :: value := by
  have hsplit := List.takeWhile_append_dropWhile (p := (· ≠ '=')) (l := body)
  cases hd : body.dropWhile (· ≠ '=') with
  | nil =>
    rw [hd, List.append_nil] at hsplit
    left
    refine ⟨by unfold splitDefine; rw [hd, hsplit], fun hm => ?_⟩
    rw [← hsplit] at hm
    simpa using List.mem_takeWhile_imp hm
  | cons e value =>
    -- the first character the split stops at is an `=`
    have he : e = '=' := by
      have := List.head?_dropWhile_not (· ≠ '=') body
      rw [hd] at this
      simpa using this
    subst he
    right
    exact ⟨value, by unfold splitDefine; rw [hd], by rw [hd] at hsplit; exact hsplit.symm⟩

/-- A flag word draws no fault exactly when the front end accepts it. -/
theorem flagFaults_eq_nil_iff (word : String) : flagFaults word = [] ↔ FlagOk word := by
  unfold flagFaults FlagOk
  split
  · rename_i body hw
    rw [hw]
    -- a `-D` flag starts with neither `-cl-` nor `-I`
    have hcl : ¬ "-cl-".toList <+: '-' :: 'D' :: body := by
      rw [show "-cl-".toList = ['-', 'c', 'l', '-'] from rfl]
      simp
    have hI : ¬ "-I".toList <+: '-' :: 'D' :: body := by
      rw [show "-I".toList = ['-', 'I'] from rfl]
      simp
    simp only [hcl, hI, or_false, List.cons.injEq, true_and]
    constructor
    · intro h
      rcases splitDefine_cases body with ⟨hs, -⟩ | ⟨value, hs, hbody⟩
      · rw [hs] at h
        simp only [List.append_nil, ite_eq_left_iff, List.cons_ne_nil, imp_false, Bool.not_eq_true,
          Bool.not_eq_false] at h
        exact ⟨body, h, .inl rfl⟩
      · rw [hs] at h
        simp only [List.append_eq_nil_iff, ite_eq_left_iff, List.cons_ne_nil, imp_false, Bool.not_eq_true,
          Bool.not_eq_false] at h
        exact ⟨_, h.1, .inr ⟨value, h.2, hbody⟩⟩
    · rintro ⟨name, hname, rfl | ⟨value, hv, rfl⟩⟩
      · rw [splitDefine_name (eq_sign_not_mem hname)]
        simp [hname]
      · rw [splitDefine_value (eq_sign_not_mem hname)]
        simp [hname, hv]
  · rename_i cs hne
    -- not a `-D` flag: it must start with `-cl-` or `-I`
    have hD : ¬ ∃ name, Text.isMacroNameChars name = true ∧ (word.toList = '-' :: 'D' :: name ∨
        ∃ value, (Text.readInt64? (String.ofList value)).isSome ∧ word.toList = '-' :: 'D' :: (name ++ '=' :: value)) := by
      rintro ⟨name, -, h | ⟨value, -, h⟩⟩
      · exact hne name h
      · exact hne _ h
    simp only [hD, false_or, ← List.isPrefixOf_iff_prefix, ← Bool.or_eq_true]
    split <;> simp_all

/-- The flag log is empty exactly when every word of the flags is accepted. -/
theorem flagLog_eq_nil_iff (flags : String) : flagLog flags = [] ↔ ∀ w ∈ Text.words flags, FlagOk w := by
  simp only [flagLog, List.flatMap_eq_nil_iff, List.map_eq_nil_iff, flagFaults_eq_nil_iff]

theorem join_eq_empty_iff {l : List String} (h : ∀ s ∈ l, s ≠ "") : String.join l = "" ↔ l = [] := by
  rw [← String.toList_eq_nil_iff, String.toList_join, List.flatMap_eq_nil_iff]
  constructor
  · intro hall
    cases l with
    | nil => rfl
    | cons s l => exact absurd (String.toList_eq_nil_iff.mp (hall s List.mem_cons_self)) (h s List.mem_cons_self)
  · rintro rfl
    simp

theorem logLine_ne_empty (c : Complaint) : c.logLine ≠ "" := by
  intro h
  simp only [Complaint.logLine, String.append_eq_empty_iff] at h
  exact absurd h.2 (by decide)

theorem flagLine_ne_empty {flags line : String} (h : line ∈ flagLog flags) : line ≠ "" := by
  simp only [flagLog, List.mem_flatMap, List.mem_map] at h
  obtain ⟨_, _, m, _, rfl⟩ := h
  intro h
  simp only [String.append_eq_empty_iff] at h
  exact absurd h.2 (by decide)

/-- The log is empty exactly when the flags draw no fault and the scan no complaint. -/
theorem frontEnd_log_eq_empty_iff (source flags : String) :
    String.join (flagLog flags) ++ String.join ((scan source).complaints.map Complaint.logLine) = "" ↔
      flagLog flags = [] ∧ (scan source).complaints = [] := by
  rw [String.append_eq_empty_iff, join_eq_empty_iff (fun _ => flagLine_ne_empty),
    join_eq_empty_iff (by simpa using fun c _ => logLine_ne_empty c), List.map_eq_nil_iff]

/-- The front end gives the kernel names exactly when every flag is accepted and the text is
    well-formed.  Otherwise its log is not empty, and it lists the flag faults, then the faults
    found in the text in the order of their places, then one line for each delimiter left open,
    from the outermost to the innermost. -/
theorem frontEnd_verdict (source flags : String) :
    ((∃ names, frontEnd source flags = .ok names) ↔ (∀ w ∈ Text.words flags, FlagOk w) ∧ WellFormed source) ∧
    ∀ log, frontEnd source flags = .error log → log ≠ "" ∧
      ∃ (found : List Complaint) (unclosed : List Opener),
        log = String.join (flagLog flags) ++ String.join (found.map Complaint.logLine) ++
          String.join (unclosed.map fun o => (Complaint.neverClosed o).logLine) ∧
        (∀ c ∈ found, ∀ o, c ≠ .neverClosed o) ∧
        found.Pairwise (fun a b => a.place.Before b.place) ∧
        unclosed.Pairwise (fun a b => a.pos.Before b.pos) := by
  have hempty := frontEnd_log_eq_empty_iff source flags
  rw [flagLog_eq_nil_iff, scan_complaints_eq_nil_iff] at hempty
  refine ⟨?_, ?_⟩
  · rw [← hempty]
    unfold frontEnd
    dsimp only
    split
    · rename_i h
      exact ⟨fun _ => String.isEmpty_iff.mp h, fun _ => ⟨_, rfl⟩⟩
    · rename_i h
      refine ⟨fun hok => ?_, fun he => absurd (String.isEmpty_iff.mpr he) h⟩
      obtain ⟨_, hok⟩ := hok
      cases hok
  · intro log hlog
    unfold frontEnd at hlog
    dsimp only at hlog
    split at hlog
    · cases hlog
    · rename_i h
      cases hlog
      refine ⟨fun he => h (String.isEmpty_iff.mpr he), ?_⟩
      obtain ⟨found, unclosed, hc, hin, hfound, hopen⟩ := scan_complaints_ordered source
      refine ⟨found, unclosed, ?_, hin, hfound, hopen⟩
      rw [hc, List.map_append, String.join_append, String.append_assoc, List.map_map]
      rfl

end OffloadAlgebra.Source
