import Mathlib.Data.List.Sort
import Mathlib.Data.String.Basic
import OffloadAlgebra.Proofs.Options.Map
/-!
  Merging option maps is their pointwise minimum.

  An option map is sorted by name with each name once, and carries the proof
  (`OptionMap.sorted`), so two maps with the same values are the same map (`eq_of_get?_eq`): the
  entries of a sorted map are read off its values.

  A merge binds every name of either map, to the smaller value where both bind it and to the one
  value where only one does (`get?_merge`).  Through `eq_of_get?_eq` the laws of that pointwise
  minimum become laws of `merge` itself: it is commutative, associative and idempotent, and it
  never raises a base value (`merge_meet_laws`).
-/

namespace OffloadAlgebra.OptionMap

/-- One entry's name is below another's: the order of a map's entries. -/
def KeyLt (a b : String × Int) : Prop := a.1 < b.1

instance : Std.Irrefl KeyLt := ⟨fun a => lt_irrefl a.1⟩

instance : Std.Antisymm KeyLt := ⟨fun _ _ h₁ h₂ => absurd (lt_trans h₁ h₂) (lt_irrefl _)⟩

/-! ## Sorted entry lists -/

/-- In a sorted list the value a name looks up is the value of its entry. -/
theorem lookup_eq_some_iff_mem {l : List (String × Int)} (h : l.Pairwise KeyLt) {k : String} {v : Int} :
    l.lookup k = some v ↔ (k, v) ∈ l := by
  induction l with
  | nil => simp
  | cons e rest ih =>
    obtain ⟨hhead, hrest⟩ := List.pairwise_cons.mp h
    obtain ⟨k₁, v₁⟩ := e
    by_cases hk : k = k₁
    · subst hk
      -- the name has no entry further on
      have hnot : (k, v) ∉ rest := fun hm => lt_irrefl k (hhead _ hm)
      simp [List.lookup_cons_self, hnot, eq_comm]
    · rw [lookup_cons_of_ne hk, ih hrest, List.mem_cons]
      simp [hk]

/-- A name smaller than every name of a list has no entry in it. -/
theorem lookup_eq_none_of_lt {l : List (String × Int)} {k : String} (h : ∀ e ∈ l, k < e.1) :
    l.lookup k = none :=
  List.lookup_eq_none_iff.mpr fun e he => bne_iff_ne.mpr (ne_of_lt (h e he))

/-- Two option maps with the same values are equal. -/
theorem eq_of_get?_eq {m₁ m₂ : OptionMap} (h : ∀ k, m₁.get? k = m₂.get? k) : m₁ = m₂ := by
  have h₁ : m₁.entries.Pairwise KeyLt := m₁.sorted
  have h₂ : m₂.entries.Pairwise KeyLt := m₂.sorted
  refine eq_of_entries_eq (List.Pairwise.eq_of_mem_iff h₁ h₂ fun kv => ?_)
  rw [← lookup_eq_some_iff_mem h₁, ← lookup_eq_some_iff_mem h₂]
  exact Eq.congr_left (h kv.1)

/-! ## Merging pointwise -/

/-- A merge binds each name to the smaller of the two values where both maps bind it, and to the
    one value where only one map does. -/
theorem get?_merge (base requested : OptionMap) (k : String) :
    (base.merge requested).get? k = Option.merge min (base.get? k) (requested.get? k) := by
  have hr : requested.entries.Pairwise KeyLt := requested.sorted
  unfold OptionMap.merge
  unfold get? at ⊢
  generalize requested.entries = es at hr ⊢
  -- one requested entry at a time, from any base
  induction es generalizing base with
  | nil =>
    rw [List.foldl_nil, List.lookup_nil]
    cases base.entries.lookup k <;> rfl
  | cons kv rest ih =>
    obtain ⟨hhead, hrest⟩ := List.pairwise_cons.mp hr
    rw [List.foldl_cons, ih _ hrest]
    change Option.merge min ((base.insert kv.1 _).get? k) _ = _
    rw [get?_insert]
    by_cases hk : k = kv.1
    · subst hk
      rw [if_pos rfl, lookup_eq_none_of_lt hhead, List.lookup_cons_self]
      cases base.entries.lookup kv.1 <;> simp [min_comm]
    · rw [if_neg hk, lookup_cons_of_ne hk]
      rfl

/-- Merging option maps is their pointwise minimum: the merge binds every name of either map, to
    the smaller value where both bind it and to the one value otherwise; hence it is commutative,
    associative and idempotent, and a merged value is never above the base value of its name. -/
theorem merge_meet_laws (a b c : OptionMap) :
    (∀ k, (a.merge b).get? k = Option.merge min (a.get? k) (b.get? k)) ∧
    a.merge b = b.merge a ∧
    (a.merge b).merge c = a.merge (b.merge c) ∧
    a.merge a = a ∧
    (∀ k v, a.get? k = some v → ∃ t, (a.merge b).get? k = some t ∧ t ≤ v) := by
  refine ⟨get?_merge a b, ?_, ?_, ?_, fun k v hv => get?_merge_le b hv⟩
  · refine eq_of_get?_eq fun k => ?_
    rw [get?_merge a b, get?_merge b a]
    exact Std.Commutative.comm _ _
  · refine eq_of_get?_eq fun k => ?_
    rw [get?_merge _ c, get?_merge a b, get?_merge a (b.merge c), get?_merge b c]
    exact Std.Associative.assoc _ _ _
  · refine eq_of_get?_eq fun k => ?_
    rw [get?_merge a a]
    exact Std.IdempotentOp.idempotent _

example :
    (defaults.merge (ofList [("THREAD_BLOCK_SIZE", 64), ("CUSTOM", 99)])).get? "THREAD_BLOCK_SIZE" = some 32 := by
  decide

end OffloadAlgebra.OptionMap
