/-!
Finite maps from strings, kept in the order of their keys. Main statements: what a look-up finds
after an insertion, and that a dictionary is determined by its entries.
-/

namespace FrameGraph

/-- Entries with different keys, in ascending order of the keys by code points. -/
structure Dictionary (α : Type) where
  entries : List (String × α)
  sorted : entries.Pairwise (·.1 < ·.1)

namespace Dictionary

variable {α : Type}

theorem ext_entries {d e : Dictionary α} (h : d.entries = e.entries) : d = e := by
  cases d; cases e; cases h; rfl

instance [DecidableEq α] : DecidableEq (Dictionary α) := fun d e =>
  if h : d.entries = e.entries then isTrue (ext_entries h)
  else isFalse fun equal => h (congrArg entries equal)

def empty : Dictionary α := ⟨[], .nil⟩

instance : Inhabited (Dictionary α) := ⟨empty⟩

def insertEntry (key : String) (value : α) : List (String × α) → List (String × α)
  | [] => [(key, value)]
  | entry :: rest =>
    if key < entry.1 then (key, value) :: entry :: rest
    else if key = entry.1 then (key, value) :: rest
    else entry :: insertEntry key value rest

theorem fst_mem_insertEntry {key : String} {value : α} {entries : List (String × α)}
    {entry : String × α} (h : entry ∈ insertEntry key value entries) :
    entry = (key, value) ∨ entry ∈ entries := by
  induction entries with
  | nil => simp_all [insertEntry]
  | cons first rest ih =>
    unfold insertEntry at h
    split at h
    · simpa using h
    · split at h
      · rcases List.mem_cons.mp h with h | h
        · exact .inl h
        · exact .inr (List.mem_cons_of_mem _ h)
      · rcases List.mem_cons.mp h with h | h
        · exact .inr (by simp [h])
        · exact (ih h).imp id (List.mem_cons_of_mem _)

theorem sorted_insertEntry (key : String) (value : α) {entries : List (String × α)}
    (h : entries.Pairwise (·.1 < ·.1)) : (insertEntry key value entries).Pairwise (·.1 < ·.1) := by
  induction entries with
  | nil => simp [insertEntry]
  | cons first rest ih =>
    obtain ⟨hfirst, hrest⟩ := List.pairwise_cons.mp h
    unfold insertEntry
    split
    · rename_i hlt
      refine List.pairwise_cons.mpr ⟨fun entry hentry => ?_, h⟩
      rcases List.mem_cons.mp hentry with rfl | hentry
      · exact hlt
      · exact String.lt_trans hlt (hfirst entry hentry)
    · split
      · rename_i heq
        exact List.pairwise_cons.mpr ⟨fun entry hentry => heq ▸ hfirst entry hentry, hrest⟩
      · rename_i hlt hne
        refine List.pairwise_cons.mpr ⟨fun entry hentry => ?_, ih hrest⟩
        rcases fst_mem_insertEntry hentry with rfl | hentry
        · exact Std.lt_of_le_of_ne (Std.not_lt.mp hlt) (Ne.symm hne)
        · exact hfirst entry hentry

def insert (d : Dictionary α) (key : String) (value : α) : Dictionary α :=
  ⟨insertEntry key value d.entries, sorted_insertEntry key value d.sorted⟩

def get? (d : Dictionary α) (key : String) : Option α :=
  d.entries.lookup key

def contains (d : Dictionary α) (key : String) : Bool :=
  (d.get? key).isSome

def keys (d : Dictionary α) : List String :=
  d.entries.map (·.1)

def values (d : Dictionary α) : List α :=
  d.entries.map (·.2)

def size (d : Dictionary α) : Nat :=
  d.entries.length

/-- Inserts the pairs in order, so that the last of several under one key stays. -/
def ofList (pairs : List (String × α)) : Dictionary α :=
  pairs.foldl (fun d pair => d.insert pair.1 pair.2) empty

@[simp] theorem entries_empty : (empty : Dictionary α).entries = [] := rfl

@[simp] theorem get?_empty (key : String) : (empty : Dictionary α).get? key = none := rfl

theorem lookup_cons_entry (key : String) (first : String × α) (rest : List (String × α)) :
    (first :: rest).lookup key = if key = first.1 then some first.2 else rest.lookup key := by
  obtain ⟨k, v⟩ := first
  by_cases h : key = k
  · simp [h]
  · have hb : (key == k) = false := by simp [h]
    simp [List.lookup_cons, hb, h]

theorem lookup_insertEntry (key : String) (value : α) (entries : List (String × α))
    (other : String) :
    (insertEntry key value entries).lookup other =
      if other = key then some value else entries.lookup other := by
  induction entries with
  | nil => simp [insertEntry, lookup_cons_entry]
  | cons first rest ih =>
    unfold insertEntry
    split
    · rw [lookup_cons_entry]
    · split
      · rename_i heq
        simp only [lookup_cons_entry, ← heq]
        split <;> rfl
      · rename_i hne
        rw [lookup_cons_entry, lookup_cons_entry, ih]
        by_cases hother : other = first.1
        · have : other ≠ key := fun hk => hne (hk.symm.trans hother)
          simp [hother, Ne.symm hne]
        · simp [hother]

theorem get?_insert (d : Dictionary α) (key : String) (value : α) (other : String) :
    (d.insert key value).get? other = if other = key then some value else d.get? other :=
  lookup_insertEntry key value d.entries other

@[simp] theorem get?_insert_self (d : Dictionary α) (key : String) (value : α) :
    (d.insert key value).get? key = some value := by
  simp [get?_insert]

theorem nodup_keys (d : Dictionary α) : d.keys.Nodup := by
  have h := d.sorted
  rw [keys, List.Nodup, List.pairwise_map]
  refine h.imp ?_
  intro a b hlt heq
  exact String.lt_irrefl _ (heq ▸ hlt)

theorem mem_entries_insertEntry {key : String} {value : α} {entries : List (String × α)}
    {name : String} : name ∈ (insertEntry key value entries).map (·.1) ↔
      name = key ∨ name ∈ entries.map (·.1) := by
  induction entries with
  | nil => simp [insertEntry]
  | cons first rest ih =>
    unfold insertEntry
    split
    · simp
    · split
      · rename_i heq
        simp [heq]
      · rw [List.map_cons, List.map_cons, List.mem_cons, List.mem_cons, ih]
        constructor
        · rintro (h | h | h) <;> simp [h]
        · rintro (h | h | h) <;> simp [h]

@[simp] theorem mem_keys_insert {d : Dictionary α} {key name : String} {value : α} :
    name ∈ (d.insert key value).keys ↔ name = key ∨ name ∈ d.keys :=
  mem_entries_insertEntry

theorem mem_keys_foldl_insert {pairs : List (String × α)} {d : Dictionary α} {name : String} :
    name ∈ (pairs.foldl (fun d pair => d.insert pair.1 pair.2) d).keys ↔
      name ∈ d.keys ∨ name ∈ pairs.map (·.1) := by
  induction pairs generalizing d with
  | nil => simp
  | cons pair rest ih =>
    rw [List.foldl_cons, ih, mem_keys_insert, List.map_cons, List.mem_cons]
    constructor
    · rintro ((h | h) | h) <;> simp [h]
    · rintro (h | h | h) <;> simp [h]

theorem mem_keys_ofList {pairs : List (String × α)} {name : String} :
    name ∈ (ofList pairs).keys ↔ name ∈ pairs.map (·.1) := by
  rw [ofList, mem_keys_foldl_insert]
  simp [keys]

end Dictionary

def sortedNames (names : List String) : List String :=
  (Dictionary.ofList (names.map (·, ()))).keys

@[simp] theorem mem_sortedNames {names : List String} {name : String} :
    name ∈ sortedNames names ↔ name ∈ names := by
  simp [sortedNames, Dictionary.mem_keys_ofList]

end FrameGraph
