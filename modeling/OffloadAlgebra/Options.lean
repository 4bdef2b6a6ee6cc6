import OffloadAlgebra.Text.Identifier
/-!
  Compile options: macro names bound to 32-bit integers.

  An `OptionMap` keeps its entries in increasing order of their names (byte order, which is
  code-point order), one entry per name, and carries the proof (`OptionMap.sorted`).  `merge`
  lets requested options only lower the value of a name the base already binds, and adds names
  it does not bind; `render` writes the `-D` flags a kernel build receives.
-/

namespace OffloadAlgebra

/-- Macro names with their values, sorted by name with no name twice. -/
structure OptionMap where
  entries : List (String × Int)
  /-- The names strictly increase along the entries. -/
  sorted : entries.Pairwise fun a b => a.1 < b.1
  deriving DecidableEq, Repr

namespace OptionMap

/-- The map with no names. -/
def empty : OptionMap := ⟨[], .nil⟩

instance : Inhabited OptionMap := ⟨empty⟩

/-- A map is its entries. -/
theorem eq_of_entries_eq {m m' : OptionMap} (h : m.entries = m'.entries) : m = m' := by
  cases m
  cases m'
  cases h
  rfl

/-- Insert into a sorted entry list, replacing the value of an equal name. -/
def insertEntry (k : String) (v : Int) : List (String × Int) → List (String × Int)
  | [] => [(k, v)]
  | (k', v') :: rest =>
    if k < k' then (k, v) :: (k', v') :: rest
    else if k = k' then (k, v) :: rest
    else (k', v') :: insertEntry k v rest

theorem mem_insertEntry {k : String} {v : Int} {l : List (String × Int)} {kv : String × Int}
    (h : kv ∈ insertEntry k v l) : kv = (k, v) ∨ kv ∈ l := by
  induction l with
  | nil => simpa [insertEntry] using h
  | cons e rest ih =>
    unfold insertEntry at h
    split at h
    · simpa using h
    · split at h
      · rcases List.mem_cons.mp h with h | h
        · exact .inl h
        · exact .inr (List.mem_cons_of_mem _ h)
      · rcases List.mem_cons.mp h with h | h
        · exact .inr (h ▸ List.mem_cons_self)
        · rcases ih h with h | h
          · exact .inl h
          · exact .inr (List.mem_cons_of_mem _ h)

/-- Inserting keeps the names strictly increasing. -/
theorem pairwise_insertEntry (k : String) (v : Int) {l : List (String × Int)}
    (h : l.Pairwise fun a b => a.1 < b.1) : (insertEntry k v l).Pairwise fun a b => a.1 < b.1 := by
  induction l with
  | nil => simp [insertEntry]
  | cons e rest ih =>
    obtain ⟨hhead, hrest⟩ := List.pairwise_cons.mp h
    unfold insertEntry
    split
    · -- the new entry goes in front of a larger name
      rename_i hlt
      refine List.Pairwise.cons (fun x hx => ?_) h
      rcases List.mem_cons.mp hx with rfl | hx
      · exact hlt
      · exact String.lt_trans hlt (hhead x hx)
    · split
      · -- the entry of `k` is replaced
        rename_i heq
        subst heq
        exact List.Pairwise.cons hhead hrest
      · -- `k` is neither below nor equal to the name here, so it is above it
        rename_i hnlt hne
        have hlt : e.1 < k := Classical.byContradiction fun hge =>
          hne (String.le_antisymm (String.not_lt.mp hge) (String.not_lt.mp hnlt))
        refine List.Pairwise.cons (fun x hx => ?_) (ih hrest)
        rcases mem_insertEntry hx with rfl | hx
        · exact hlt
        · exact hhead x hx

/-- Bind `k` to `v`, replacing an earlier value. -/
def insert (m : OptionMap) (k : String) (v : Int) : OptionMap :=
  ⟨insertEntry k v m.entries, pairwise_insertEntry k v m.sorted⟩

/-- The value bound to a name. -/
def get? (m : OptionMap) (k : String) : Option Int := m.entries.lookup k

/-- The map binding each name of the list to its value; a later pair wins over an earlier one
    with the same name. -/
def ofList (kvs : List (String × Int)) : OptionMap :=
  kvs.foldl (fun m kv => m.insert kv.1 kv.2) empty

/-- The entries in increasing order of names. -/
def toList (m : OptionMap) : List (String × Int) := m.entries

/-- Number of names bound. -/
def size (m : OptionMap) : Nat := m.entries.length

/-- Merge requested options into base options: a name bound by both gets the smaller value,
    a name bound by one of them keeps that value. -/
def merge (base requested : OptionMap) : OptionMap :=
  requested.entries.foldl
    (fun m kv => m.insert kv.1 (match m.get? kv.1 with
      | some b => min kv.2 b
      | none => kv.2))
    base

/-- The build flags: ` -DNAME=VALUE` for each entry in name order, the empty text for the
    empty map. -/
def render (m : OptionMap) : String :=
  String.join (m.entries.map fun kv => " -D" ++ kv.1 ++ "=" ++ toString kv.2)

/-- The base options a configuration starts from. -/
def defaults : OptionMap := ofList
  [("LOWER", 0), ("UPPER", 1), ("ENTIRE", 2), ("UPPER_TO_LOWER", 0), ("LOWER_TO_UPPER", 1),
   ("THREAD_BLOCK_SIZE", 32), ("WORK_PER_THREAD", 8), ("REDUCTION_STEP_SIZE", 4),
   ("LOCAL_SIZE_", 64)]

/-- The first entry whose name is not a macro name or whose value is negative, with the
    reason: a bad name is reported before a negative value of the same entry. -/
def firstInvalid? (m : OptionMap) : Option (String × Option Int) :=
  m.entries.findSome? fun kv =>
    if !Text.isMacroName kv.1 then some (kv.1, none)
    else if kv.2 < 0 then some (kv.1, some kv.2)
    else none

@[simp] theorem get?_empty (k : String) : empty.get? k = none := rfl

theorem render_empty : empty.render = "" := rfl

end OptionMap

end OffloadAlgebra
