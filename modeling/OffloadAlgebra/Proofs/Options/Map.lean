import OffloadAlgebra.Config
/-!
  Option maps through their values.

  An option map is read through `get?`.  Binding a name changes the value of that name and of
  no other, whatever the order of the entries (`get?_insert`).  Merging requested options into
  base options keeps every base name bound and never raises its value (`get?_merge_le`): the
  requested options can lower a default but not raise it.  Every entry of a merged map is an
  entry of one of the two maps, or a name of both with the smaller of two values
  (`merge_entries`).

  Fitting the thread block to a side changes two names at most: when `THREAD_BLOCK_SIZE` is
  bound above the side, it becomes the side and `WORK_PER_THREAD` becomes 1
  (`get?_fitThreadBlockTo_of_lt`).
-/

namespace OffloadAlgebra.OptionMap

/-! ## Binding one name -/

theorem lookup_cons_of_ne {k k₁ : String} (h : k ≠ k₁) (v : Int) (l : List (String × Int)) :
    ((k₁, v) :: l).lookup k = l.lookup k := by
  simp [List.lookup_cons, beq_eq_false_iff_ne.mpr h]

theorem lookup_insertEntry (k : String) (v : Int) (l : List (String × Int)) (k' : String) :
    (insertEntry k v l).lookup k' = if k' = k then some v else l.lookup k' := by
  induction l with
  | nil => by_cases hk : k' = k <;> simp [insertEntry, hk, List.lookup_cons_self, lookup_cons_of_ne]
  | cons e rest ih =>
    obtain ⟨k₁, v₁⟩ := e
    unfold insertEntry
    split
    · by_cases hk : k' = k <;> simp [hk, List.lookup_cons_self, lookup_cons_of_ne]
    · split
      · -- the entry of `k` is replaced
        rename_i heq
        subst heq
        by_cases hk : k' = k <;> simp [hk, List.lookup_cons_self, lookup_cons_of_ne]
      · rename_i hne
        by_cases hk : k' = k₁
        · subst hk
          simp [List.lookup_cons_self, Ne.symm hne]
        · simp [hk, ih, lookup_cons_of_ne]

theorem get?_insert (m : OptionMap) (k : String) (v : Int) (k' : String) :
    (m.insert k v).get? k' = if k' = k then some v else m.get? k' :=
  lookup_insertEntry k v m.entries k'

/-! ## Merging requested options into base options -/

/-- The value a merge gives a name on top of a map that already binds it to `b`. -/
theorem merged_value_of_some {m : OptionMap} {k : String} {b : Int} (h : m.get? k = some b) (v : Int) :
    (match m.get? k with
      | some b' => min v b'
      | none => v) = min v b := by
  rw [h]

/-- A merge keeps a base name bound and never raises its value. -/
theorem get?_merge_le {base : OptionMap} {k : String} {b : Int} (requested : OptionMap)
    (hb : base.get? k = some b) : ∃ t, (base.merge requested).get? k = some t ∧ t ≤ b := by
  unfold merge
  generalize requested.entries = es
  -- each requested entry for `k` takes the minimum with the value so far
  induction es generalizing base b with
  | nil => exact ⟨b, hb, Int.le_refl b⟩
  | cons kv rest ih =>
    rw [List.foldl_cons]
    by_cases hk : k = kv.1
    · have hnew : (base.insert kv.1 (match base.get? kv.1 with
          | some b' => min kv.2 b'
          | none => kv.2)).get? k = some (min kv.2 b) := by
        rw [get?_insert, if_pos hk, ← hk, merged_value_of_some hb]
      obtain ⟨t, ht, hle⟩ := ih hnew
      exact ⟨t, ht, Int.le_trans hle (Int.min_le_right _ _)⟩
    · exact ih (by rw [get?_insert, if_neg hk, hb])

/-- A property of entries that the smaller of two values keeps holds of every entry of a merge
    when it holds of the entries of both maps. -/
theorem merge_entries {P : String × Int → Prop} {base requested : OptionMap}
    (hmin : ∀ k v w, P (k, v) → P (k, w) → P (k, min v w))
    (hbase : ∀ kv ∈ base.entries, P kv) (hreq : ∀ kv ∈ requested.entries, P kv) :
    ∀ kv ∈ (base.merge requested).entries, P kv := by
  unfold merge
  generalize requested.entries = es at hreq
  induction es generalizing base with
  | nil => exact hbase
  | cons kv rest ih =>
    rw [List.foldl_cons]
    refine ih ?_ (fun e he => hreq e (List.mem_cons_of_mem _ he))
    intro e he
    rcases mem_insertEntry he with rfl | he
    · have hkv := hreq kv List.mem_cons_self
      cases hg : base.get? kv.1 with
      | none => exact hkv
      | some b =>
        -- the base value of the name comes from a base entry
        obtain ⟨l₁, l₂, hsplit, -⟩ := List.lookup_eq_some_iff.mp hg
        exact hmin _ _ _ hkv (hbase _ (by rw [hsplit]; simp))
    · exact hbase e he

/-! ## Entries of a valid configuration -/

/-- The entries of a map with no invalid entry all have macro names and values of at least 0. -/
theorem entries_of_firstInvalid?_eq_none {m : OptionMap} (h : m.firstInvalid? = none) :
    ∀ kv ∈ m.entries, Text.isMacroName kv.1 = true ∧ 0 ≤ kv.2 := by
  intro kv hkv
  have hkv' := List.findSome?_eq_none_iff.mp h kv hkv
  by_cases hname : Text.isMacroName kv.1 = true
  · by_cases hneg : kv.2 < 0
    · simp [hname, hneg] at hkv'
    · exact ⟨hname, Int.not_lt.mp hneg⟩
  · simp [hname] at hkv'

end OffloadAlgebra.OptionMap

namespace OffloadAlgebra

/-! ## Fitting the thread block -/

/-- A thread block bound above the side is cut to the side, `WORK_PER_THREAD` becomes 1, and no
    other name changes. -/
theorem get?_fitThreadBlockTo_of_lt {opts : OptionMap} {side : Nat} {t : Int}
    (ht : opts.get? "THREAD_BLOCK_SIZE" = some t) (hlt : (side : Int) < t) (k : String) :
    (fitThreadBlockTo opts side).get? k =
      if k = "WORK_PER_THREAD" then some 1
      else if k = "THREAD_BLOCK_SIZE" then some (side : Int) else opts.get? k := by
  simp [fitThreadBlockTo, OptionMap.get?_insert, ht, hlt]

/-- A thread block bound within the side, or not bound at all, leaves the options as they are. -/
theorem fitThreadBlockTo_of_le {opts : OptionMap} {side : Nat}
    (h : ∀ t, opts.get? "THREAD_BLOCK_SIZE" = some t → t ≤ side) : fitThreadBlockTo opts side = opts := by
  unfold fitThreadBlockTo
  split
  · rename_i t ht
    rw [if_neg (Int.not_lt.mpr (h t ht))]
  · rfl

/-- After fitting, a bound thread block is at most the side. -/
theorem get?_fitThreadBlockTo_le {opts : OptionMap} {side : Nat} {t : Int}
    (ht : (fitThreadBlockTo opts side).get? "THREAD_BLOCK_SIZE" = some t) : t ≤ side := by
  unfold fitThreadBlockTo at ht
  split at ht
  · rename_i t₀ h₀
    split at ht
    · simp [OptionMap.get?_insert] at ht
      omega
    · rw [h₀] at ht
      cases ht
      omega
  · rename_i hnone
    rw [hnone] at ht
    cases ht

/-- Fitting binds the thread block exactly when the options did. -/
theorem isSome_get?_fitThreadBlockTo (opts : OptionMap) (side : Nat) :
    ((fitThreadBlockTo opts side).get? "THREAD_BLOCK_SIZE").isSome = (opts.get? "THREAD_BLOCK_SIZE").isSome := by
  unfold fitThreadBlockTo
  split
  · rename_i t ht
    split <;> simp [OptionMap.get?_insert, ht]
  · rfl

end OffloadAlgebra
