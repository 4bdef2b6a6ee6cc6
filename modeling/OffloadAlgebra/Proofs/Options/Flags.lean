import OffloadAlgebra.Proofs.Options.Build
import OffloadAlgebra.Proofs.Source.FrontEnd
/-!
  Which options a kernel build refuses.

  The options a kernel is built with reach the front end as one flag string, ` -DNAME=VALUE`
  for each entry (`OptionMap.render`), which the front end splits into words at Unicode blanks
  before it judges each word.  Each entry's flag starts with a blank, so the words of the string
  are the words of the entries' flags, one entry after another (`words_render`), and the flag
  log is empty exactly when every entry's flag is accepted word by word
  (`flagLog_render_eq_nil_iff`).

  A value is written in decimal and reads back as itself (`readInt64?_toString`).  So the flag of
  an entry whose name holds no blank is one word, accepted exactly when the name is a macro name
  (`entryAccepted_iff_isMacroName`).  A name with a blank in it is cut into several words, each
  judged on its own: `A -cl-x` passes as `-DA` and `-cl-x=1` (`blank_name_builds`).

  A build of a well-formed text that defines the kernel, with a host implementation bound, fails
  with a `<command line>` log exactly when some entry of the merged options is refused; when no
  merged name holds a blank, exactly when some merged name is not a macro name
  (`build_refuses_options_iff`).
-/

namespace OffloadAlgebra.Text

/-! ## Words of joined texts -/

/-- Reading on past a blank: the words before it, then the words after it. -/
theorem wordsAux_append_blank {b : Char} (hb : isBlank b = true) (l₁ l₂ cur : List Char) :
    wordsAux (l₁ ++ b :: l₂) cur = wordsAux l₁ cur ++ wordsAux l₂ [] := by
  induction l₁ generalizing cur with
  | nil => cases cur <;> simp [wordsAux, hb]
  | cons c l₁ ih =>
    by_cases hc : isBlank c = true
    · cases cur <;> simp [wordsAux, hc, ih]
    · simp [wordsAux, hc, ih]

/-- A text that is empty or starts with a blank splits off from the text before it. -/
theorem wordsAux_append_of_head (l₁ l₂ : List Char) (h : ∀ b ∈ l₂.head?, isBlank b = true) :
    wordsAux (l₁ ++ l₂) [] = wordsAux l₁ [] ++ wordsAux l₂ [] := by
  cases l₂ with
  | nil => simp [wordsAux]
  | cons b l₂ =>
    have hb : isBlank b = true := h b rfl
    rw [wordsAux_append_blank hb]
    simp [wordsAux, hb]

/-- A run with no blank, read on from a word already begun, ends that word. -/
theorem wordsAux_of_not_blank (c : Char) (cur l : List Char) (h : ∀ d ∈ l, isBlank d = false) :
    wordsAux l (c :: cur) = [String.ofList ((c :: cur).reverse ++ l)] := by
  induction l generalizing c cur with
  | nil => simp [wordsAux]
  | cons d l ih =>
    rw [wordsAux, if_neg (by simp [h d List.mem_cons_self]),
      ih d (c :: cur) (fun e he => h e (List.mem_cons_of_mem d he))]
    simp

/-! ## Reading back a written integer -/

theorem digitsValue?_of_ne_nil {cs : List Char} (h : cs ≠ []) :
    digitsValue? cs =
      if cs.all Char.isDigit then some (cs.foldl (fun acc c => acc * 10 + (c.toNat - '0'.toNat)) 0) else none := by
  cases cs with
  | nil => exact absurd rfl h
  | cons c cs => rfl

/-- The decimal digits of a number read back as the number. -/
theorem digitsValue?_toDigits (n : Nat) : digitsValue? (Nat.toDigits 10 n) = some n := by
  have hall : (Nat.toDigits 10 n).all Char.isDigit = true :=
    List.all_eq_true.mpr fun _ hc => Nat.isDigit_of_mem_toDigits (by decide) (by decide) hc
  -- the reading folds the digits as `Nat.ofDigitChars` does, with the product the other way round
  have hfold : (Nat.toDigits 10 n).foldl (fun acc c => acc * 10 + (c.toNat - '0'.toNat)) 0 =
      Nat.ofDigitChars 10 (Nat.toDigits 10 n) 0 := by
    unfold Nat.ofDigitChars
    congr 1
    funext acc c
    rw [Nat.mul_comm]
  rw [digitsValue?_of_ne_nil Nat.toDigits_ne_nil, if_pos hall, hfold, Nat.ofDigitChars_ten_toDigits]

/-- A list with a character that is neither a digit nor a sign reads as no integer. -/
theorem digitsValue?_of_mem {cs : List Char} {c : Char} (hc : c ∈ cs) (hd : c.isDigit = false) :
    digitsValue? cs = none := by
  have hall : cs.all Char.isDigit = false := by
    rw [List.all_eq_false]
    exact ⟨c, hc, by rw [hd]; decide⟩
  rw [digitsValue?_of_ne_nil (List.ne_nil_of_mem hc), if_neg (by rw [hall]; decide)]

/-- A text holding a character that is neither a digit nor a sign reads as no integer. -/
theorem readInt64?_of_mem {s : String} {c : Char} (hc : c ∈ s.toList) (hd : c.isDigit = false)
    (hminus : c ≠ '-') (hplus : c ≠ '+') : readInt64? s = none := by
  unfold readInt64?
  split
  · rename_i ds h
    rw [h] at hc
    rw [digitsValue?_of_mem ((List.mem_cons.mp hc).resolve_left hminus) hd]
    rfl
  · rename_i ds h
    rw [h] at hc
    rw [digitsValue?_of_mem ((List.mem_cons.mp hc).resolve_left hplus) hd]
    rfl
  · rw [digitsValue?_of_mem hc hd]
    rfl

/-- A decimal digit is no blank. -/
theorem isBlank_of_isDigit {c : Char} (h : c.isDigit = true) : isBlank c = false := by
  simp only [Char.isDigit, Bool.and_eq_true, decide_eq_true_eq, UInt32.le_iff_toNat_le, Char.toNat_val] at h
  have h0 : '0'.toNat = 48 := rfl
  have h9 : '9'.toNat = 57 := rfl
  unfold isBlank
  simp only [Bool.or_eq_false_iff, Bool.and_eq_false_iff, decide_eq_false_iff_not, beq_eq_false_iff_ne]
  omega

/-- The decimal text of an integer: digits, after a `-` when it is negative. -/
theorem toString_int_toList (v : Int) :
    (toString v).toList = if v < 0 then '-' :: Nat.toDigits 10 v.natAbs else Nat.toDigits 10 v.natAbs := by
  rw [Int.toString_eq_repr]
  cases v with
  | ofNat n => simp [Int.repr, Nat.toList_repr]
  | negSucc n =>
    simp only [Int.repr, String.toList_append, Nat.toList_repr]
    simp [Int.negSucc_lt_zero]

/-- The decimal text of an integer holds no blank. -/
theorem not_blank_toString (v : Int) : ∀ c ∈ (toString v).toList, isBlank c = false := by
  intro c hc
  rw [toString_int_toList] at hc
  have hdigit : c ∈ Nat.toDigits 10 v.natAbs → isBlank c = false :=
    fun h => isBlank_of_isDigit (Nat.isDigit_of_mem_toDigits (by decide) (by decide) h)
  split at hc
  · rcases List.mem_cons.mp hc with rfl | h
    · decide
    · exact hdigit h
  · exact hdigit hc

/-- A macro name holds no blank: its characters are ASCII letters, digits and underscores. -/
theorem not_blank_of_isMacroName {k : String} (h : isMacroName k = true) : ∀ c ∈ k.toList, isBlank c = false := by
  obtain ⟨c, cs, hk, hstart, hrest⟩ := (isMacroName_iff k).mp h
  have hname : ∀ d ∈ k.toList, isNameChar d = true := by
    rw [hk]
    intro d hd
    rcases List.mem_cons.mp hd with rfl | hd
    · exact Source.isNameChar_of_isNameStart hstart
    · exact hrest d hd
  intro d hd
  have hd' := hname d hd
  simp only [isNameChar, Char.isAlphanum, Char.isAlpha, Char.isUpper, Char.isLower, Char.isDigit,
    Bool.or_eq_true, Bool.and_eq_true, decide_eq_true_eq, beq_iff_eq, UInt32.le_iff_toNat_le,
    Char.toNat_val] at hd'
  -- each class of name characters lies away from every blank
  have hA : 'A'.toNat = 65 := rfl
  have hZ : 'Z'.toNat = 90 := rfl
  have ha : 'a'.toNat = 97 := rfl
  have hz : 'z'.toNat = 122 := rfl
  have h0 : '0'.toNat = 48 := rfl
  have h9 : '9'.toNat = 57 := rfl
  unfold isBlank
  simp only [Bool.or_eq_false_iff, Bool.and_eq_false_iff, decide_eq_false_iff_not, beq_eq_false_iff_ne]
  rcases hd' with ((h | h) | h) | rfl
  · omega
  · omega
  · omega
  · decide

/-- An integer in the signed 64-bit range, written in decimal, reads back as itself. -/
theorem readInt64?_toString {v : Int} (hlo : -Int.pow 2 63 ≤ v) (hhi : v < Int.pow 2 63) :
    readInt64? (toString v) = some v := by
  unfold readInt64?
  rw [toString_int_toList]
  by_cases hneg : v < 0
  · rw [if_pos hneg]
    simp only [digitsValue?_toDigits, Option.bind_some]
    rw [if_pos (by omega)]
    congr 1
    omega
  · rw [if_neg hneg]
    -- the digits start with a digit, which is neither sign
    obtain ⟨d, ds, hd⟩ := List.exists_cons_of_ne_nil (Nat.toDigits_ne_nil : Nat.toDigits 10 v.natAbs ≠ [])
    have hdigit : d.isDigit = true := Nat.isDigit_of_mem_toDigits (by decide) (by decide) (hd ▸ List.mem_cons_self)
    rw [hd]
    split
    · rename_i h
      cases h
      exact absurd hdigit (by decide)
    · rename_i h
      cases h
      exact absurd hdigit (by decide)
    · rw [← hd, digitsValue?_toDigits, Option.bind_some]
      dsimp only
      rw [if_pos (by omega)]
      congr 1
      omega

end OffloadAlgebra.Text

namespace OffloadAlgebra.OptionMap

/-! ## The flags of the entries -/

/-- The flag an entry renders to: ` -DNAME=VALUE`. -/
def entryFlag (kv : String × Int) : String := " -D" ++ kv.1 ++ "=" ++ toString kv.2

/-- An entry whose flag the front end accepts word by word. -/
def EntryAccepted (kv : String × Int) : Prop := ∀ w ∈ Text.words (entryFlag kv), Source.FlagOk w

theorem render_eq (m : OptionMap) : m.render = String.join (m.entries.map entryFlag) := rfl

theorem entryFlag_toList (kv : String × Int) :
    (entryFlag kv).toList = ' ' :: '-' :: 'D' :: (kv.1.toList ++ '=' :: (toString kv.2).toList) := by
  rw [entryFlag, String.toList_append, String.toList_append, String.toList_append,
    show " -D".toList = [' ', '-', 'D'] from rfl, show "=".toList = ['='] from rfl]
  simp

/-- The words of the rendered options are the words of each entry's flag, in order. -/
theorem words_render (m : OptionMap) :
    Text.words m.render = m.entries.flatMap fun kv => Text.words (entryFlag kv) := by
  rw [render_eq]
  unfold Text.words
  rw [String.toList_join]
  induction m.entries with
  | nil => simp [Text.wordsAux]
  | cons kv es ih =>
    -- the flags after the first start with a blank, so the first flag's words end before them
    have hhead : ∀ b ∈ ((es.map entryFlag).flatMap String.toList).head?, Text.isBlank b = true := by
      cases es with
      | nil => simp
      | cons kv' es => simp [entryFlag_toList, Text.isBlank]
    rw [List.map_cons, List.flatMap_cons, Text.wordsAux_append_of_head _ _ hhead, ih, List.flatMap_cons]

/-- The options draw no flag fault exactly when every entry's flag is accepted. -/
theorem flagLog_render_eq_nil_iff (m : OptionMap) :
    Source.flagLog m.render = [] ↔ ∀ kv ∈ m.entries, EntryAccepted kv := by
  rw [Source.flagLog_eq_nil_iff, words_render]
  simp only [List.mem_flatMap, EntryAccepted]
  constructor
  · intro h kv hkv w hw
    exact h w ⟨kv, hkv, hw⟩
  · rintro h w ⟨kv, hkv, hw⟩
    exact h kv hkv w hw

/-- The flag of an entry whose name holds no blank is one word. -/
theorem words_entryFlag {kv : String × Int} (hblank : ∀ c ∈ kv.1.toList, Text.isBlank c = false) :
    Text.words (entryFlag kv) = [String.ofList ('-' :: 'D' :: (kv.1.toList ++ '=' :: (toString kv.2).toList))] := by
  have hrest : ∀ d ∈ 'D' :: (kv.1.toList ++ '=' :: (toString kv.2).toList), Text.isBlank d = false := by
    intro d hd
    simp only [List.mem_cons, List.mem_append] at hd
    rcases hd with rfl | hd | rfl | hd
    · decide
    · exact hblank d hd
    · decide
    · exact Text.not_blank_toString kv.2 d hd
  unfold Text.words
  rw [entryFlag_toList, Text.wordsAux, if_pos (by decide), if_pos List.isEmpty_nil, Text.wordsAux, if_neg (by decide),
    Text.wordsAux_of_not_blank _ _ _ hrest]
  rfl

/-- A `-D` body that writes a name, `=` and a value with no `=` in either splits at that `=`. -/
theorem eq_of_define_append {k s name value : List Char} (hname : '=' ∉ name) (hvalue : '=' ∉ value)
    (h : k ++ '=' :: s = name ++ '=' :: value) : k = name := by
  rcases List.append_eq_append_iff.mp h with ⟨a, rfl, ha⟩ | ⟨c, rfl, hc⟩
  · cases a with
    | nil => simp
    | cons d a =>
      -- the `=` after `k` would sit inside `name`
      obtain ⟨rfl, -⟩ := List.cons.inj ha
      exact absurd (List.mem_append_right k List.mem_cons_self) hname
  · cases c with
    | nil => simp
    | cons d c =>
      -- the `=` after the key would sit inside `value`
      obtain ⟨rfl, rfl⟩ := List.cons.inj hc
      exact absurd (List.mem_append_right c List.mem_cons_self) hvalue

/-- An entry whose name holds no blank, with a signed 64-bit value, is accepted exactly when its
    name is a macro name. -/
theorem entryAccepted_iff_isMacroName {kv : String × Int} (hblank : ∀ c ∈ kv.1.toList, Text.isBlank c = false)
    (hlo : -Int.pow 2 63 ≤ kv.2) (hhi : kv.2 < Int.pow 2 63) :
    EntryAccepted kv ↔ Text.isMacroName kv.1 = true := by
  unfold EntryAccepted Source.FlagOk
  rw [words_entryFlag hblank, List.forall_mem_singleton, String.toList_ofList]
  have hcl : ¬ "-cl-".toList <+: '-' :: 'D' :: (kv.1.toList ++ '=' :: (toString kv.2).toList) := by
    rw [show "-cl-".toList = ['-', 'c', 'l', '-'] from rfl]
    simp
  have hI : ¬ "-I".toList <+: '-' :: 'D' :: (kv.1.toList ++ '=' :: (toString kv.2).toList) := by
    rw [show "-I".toList = ['-', 'I'] from rfl]
    simp
  simp only [hcl, hI, or_false, List.cons.injEq, true_and]
  constructor
  · rintro ⟨name, hname, h | ⟨value, hv, h⟩⟩
    · -- the whole body would be the name, `=` and all
      exact absurd (h ▸ List.mem_append_right _ List.mem_cons_self) (Source.eq_sign_not_mem hname)
    · -- a value read as an integer holds no `=`
      have hvalue : '=' ∉ value := by
        intro hm
        have hm' : '=' ∈ (String.ofList value).toList := by rwa [String.toList_ofList]
        rw [Text.readInt64?_of_mem hm' (by decide) (by decide) (by decide)] at hv
        cases hv
      rw [Text.isMacroName, eq_of_define_append (Source.eq_sign_not_mem hname) hvalue h]
      exact hname
  · intro h
    refine ⟨kv.1.toList, h, .inr ⟨(toString kv.2).toList, ?_, rfl⟩⟩
    rw [String.ofList_toList, Text.readInt64?_toString hlo hhi]
    rfl

/-! ## Options every build accepts -/

/-- Options whose flags the front end accepts whatever the kernel: every name a macro name and
    every value a signed 64-bit integer. -/
def Sound (m : OptionMap) : Prop :=
  ∀ kv ∈ m.entries, Text.isMacroName kv.1 = true ∧ -Int.pow 2 63 ≤ kv.2 ∧ kv.2 < Int.pow 2 63

theorem flagLog_render_of_sound {m : OptionMap} (h : m.Sound) : Source.flagLog m.render = [] := by
  rw [flagLog_render_eq_nil_iff]
  intro kv hkv
  obtain ⟨hname, hlo, hhi⟩ := h kv hkv
  exact (entryAccepted_iff_isMacroName (Text.not_blank_of_isMacroName hname) hlo hhi).mpr hname

/-- A merge of sound options is sound: each merged value is a value of one of them. -/
theorem Sound.merge {base requested : OptionMap} (hb : base.Sound) (hr : requested.Sound) :
    (base.merge requested).Sound := by
  refine merge_entries (fun k v w hv hw => ⟨hv.1, ?_, ?_⟩) hb hr
  · exact Int.le_min.mpr ⟨hv.2.1, hw.2.1⟩
  · exact Int.lt_of_le_of_lt (Int.min_le_left v w) hv.2.2

end OffloadAlgebra.OptionMap

namespace OffloadAlgebra

/-! ## The build's verdict on the options -/

/-- The flag log opens with a `<command line>` error when it is not empty. -/
theorem Source.prefix_join_flagLog {flags : String} (h : Source.flagLog flags ≠ []) :
    "<command line>: error: ".toList <+: (String.join (Source.flagLog flags)).toList := by
  obtain ⟨line, rest, hl⟩ := List.exists_cons_of_ne_nil h
  have hline : line ∈ Source.flagLog flags := hl ▸ List.mem_cons_self
  simp only [Source.flagLog, List.mem_flatMap, List.mem_map] at hline
  obtain ⟨_, _, msg, _, hmsg⟩ := hline
  rw [hl, String.join_cons, ← hmsg, String.append_assoc, String.append_assoc, String.toList_append]
  exact List.prefix_append _ _

/-- A well-formed text that defines the kernel, built with a host implementation: the build
    succeeds exactly when the flags draw no fault, and otherwise its log is the flag log. -/
theorem buildProgram_of_wellFormed {kernel source flags : String} {f : HostFn}
    (hclean : (Source.scan source).complaints = [])
    (hname : kernel ∈ Source.kernelNames (Source.scan source).tokens) :
    buildProgram kernel source flags (some f) =
      if Source.flagLog flags = [] then .ok ⟨Source.kernelNames (Source.scan source).tokens, f.addr⟩
      else .error (.kernelBuild kernel (String.join (Source.flagLog flags))) := by
  have hjoin : String.join (Source.flagLog flags) = "" ↔ Source.flagLog flags = [] :=
    Source.join_eq_empty_iff fun _ => Source.flagLine_ne_empty
  unfold buildProgram Source.frontEnd
  simp only [hclean, List.map_nil, String.join_nil, String.append_empty]
  by_cases hf : Source.flagLog flags = []
  · simp [hf, hname]
  · have hne : (String.join (Source.flagLog flags)).isEmpty = false := by
      rw [Bool.eq_false_iff]
      exact fun he => hf (hjoin.mp (String.isEmpty_iff.mp he))
    simp [hne, hf]

/-- Building `spec` on `ctx` fails with a log that opens with a `<command line>` error. -/
def Context.RefusesFlags (ctx : Context) (spec : KernelSpec) : Prop :=
  ∃ log ctx', (Context.compile spec).run.run ctx = .ok (.error (.kernelBuild spec.name log), ctx') ∧
    "<command line>: error: ".toList <+: log.toList

/-- A build of a well-formed text that defines the kernel, with a host implementation bound, on any
    context: it fails with a `<command line>` log exactly when some entry of the merged options has
    a flag the front end refuses.  When every merged name is free of blanks and every merged value
    is a signed 64-bit integer, that is exactly when some merged name is not a macro name. -/
theorem build_refuses_options_iff (ctx : Context) (spec : KernelSpec)
    (hclean : (Source.scan spec.text).complaints = [])
    (hname : spec.name ∈ Source.kernelNames (Source.scan spec.text).tokens) (hhost : spec.host.isSome) :
    (ctx.RefusesFlags spec ↔ ∃ kv ∈ (ctx.baseOptions.merge spec.requested).entries, ¬ OptionMap.EntryAccepted kv) ∧
    ((∀ kv ∈ (ctx.baseOptions.merge spec.requested).entries,
        (∀ c ∈ kv.1.toList, Text.isBlank c = false) ∧ -Int.pow 2 63 ≤ kv.2 ∧ kv.2 < Int.pow 2 63) →
      (ctx.RefusesFlags spec ↔ ∃ kv ∈ (ctx.baseOptions.merge spec.requested).entries, Text.isMacroName kv.1 = false)) := by
  obtain ⟨f, hf⟩ := Option.isSome_iff_exists.mp hhost
  have hrun := compile_run spec ctx
  rw [hf, buildProgram_of_wellFormed hclean hname] at hrun
  -- the build fails, and then with the flag log, exactly when the flag log is not empty
  have hfails : ctx.RefusesFlags spec ↔ Source.flagLog (ctx.baseOptions.merge spec.requested).render ≠ [] := by
    constructor
    · rintro ⟨log, ctx', hc, -⟩ hnil
      rw [hrun, if_pos hnil] at hc
      cases hc
    · intro hne
      rw [if_neg hne] at hrun
      exact ⟨_, ctx, hrun, Source.prefix_join_flagLog hne⟩
  have hentries : ctx.RefusesFlags spec ↔
      ∃ kv ∈ (ctx.baseOptions.merge spec.requested).entries, ¬ OptionMap.EntryAccepted kv := by
    rw [hfails, ne_eq, OptionMap.flagLog_render_eq_nil_iff]
    simp only [not_forall, exists_prop]
  refine ⟨hentries, fun hkeys => hentries.trans (exists_congr fun kv => and_congr_right fun hkv => ?_)⟩
  obtain ⟨hblank, hlo, hhi⟩ := hkeys kv hkv
  rw [OptionMap.entryAccepted_iff_isMacroName hblank hlo hhi, Bool.not_eq_true]

/-- The kernel `k` of an empty body, run by the increment host function, is well-formed text that
    defines `k`: on the default context its build fails with a `<command line>` log exactly when an
    entry of its merged options is refused. -/
theorem empty_kernel_refusal :
    let spec : KernelSpec := ⟨"k", ["__kernel void k() \x7b\x7d"], [("A -cl-x", 1)], [], some .increment⟩
    (Source.scan spec.text).complaints = [] ∧ spec.name ∈ Source.kernelNames (Source.scan spec.text).tokens ∧
      spec.host.isSome ∧
      ((default : Context).RefusesFlags spec ↔
        ∃ kv ∈ ((default : Context).baseOptions.merge spec.requested).entries, ¬ OptionMap.EntryAccepted kv) := by
  intro spec
  have hclean : (Source.scan spec.text).complaints = [] := by decide +kernel
  have hname : spec.name ∈ Source.kernelNames (Source.scan spec.text).tokens := by decide +kernel
  exact ⟨hclean, hname, rfl, (build_refuses_options_iff default spec hclean hname rfl).1⟩

/-- A name with a blank in it is no macro name, yet its flag may pass word by word: on a context
    made from the default configuration, a kernel requesting `A -cl-x` builds, with `A -cl-x` among
    its options. -/
theorem blank_name_builds :
    ∃ ctx k ctx', Context.create {} 2 = .ok (.ok ctx) ∧
      (Context.compile ⟨"k", ["__kernel void k() \x7b\x7d"], [("A -cl-x", 1)], [], some .increment⟩).run.run ctx =
        .ok (.ok k, ctx') ∧
      k.options.get? "A -cl-x" = some 1 ∧ Text.isMacroName "A -cl-x" = false := by
  have h : (match Context.create {} 2 with
      | .ok (.ok ctx) =>
        match (Context.compile ⟨"k", ["__kernel void k() \x7b\x7d"], [("A -cl-x", 1)], [],
            some .increment⟩).run.run ctx with
        | .ok (.ok k, _) => decide (k.options.get? "A -cl-x" = some 1)
        | _ => false
      | _ => false) = true := by decide +kernel
  split at h
  · rename_i ctx hc
    split at h
    · rename_i k ctx' hk
      exact ⟨ctx, k, ctx', hc, hk, of_decide_eq_true h, by decide⟩
    · cases h
  · cases h

end OffloadAlgebra
