/-!
# Ordered tables

A table associates distinct names with values and remembers the order in which the names first
came.  Inserting under a name that is already there keeps its place and replaces its value:
`keys_insert` and `get?_insert` say so.  Elements, parameters, enumeration members, the
definitions of a scope and the files of a run are all tables.
-/

namespace SchemaTypings

universe u

/-- Values under distinct names, in the order in which the names were first inserted. -/
structure Table (α : Type u) where
  entries : List (String × α)
  distinct : (entries.map Prod.fst).Nodup := by simp

namespace Table

variable {α : Type u}

/-! ### Views -/

/-- The value of the first entry of that name. -/
def find (key : String) : List (String × α) → Option α
  | [] => none
  | entry :: rest => if entry.1 = key then some entry.2 else find key rest

@[simp] theorem find_nil (key : String) : find key ([] : List (String × α)) = none := rfl

theorem find_cons (key : String) (entry : String × α) (rest : List (String × α)) :
    find key (entry :: rest) = if entry.1 = key then some entry.2 else find key rest := rfl

/-- The table without entries. -/
def empty : Table α := ⟨[], by simp⟩

instance : EmptyCollection (Table α) := ⟨empty⟩
instance : Inhabited (Table α) := ⟨empty⟩

/-- The names of a table, in order. -/
def keys (t : Table α) : List String := t.entries.map Prod.fst

/-- The number of entries. -/
def size (t : Table α) : Nat := t.entries.length

/-- Whether the table has no entry. -/
def isEmpty (t : Table α) : Bool := t.entries.isEmpty

/-- The value under a name. -/
def get? (t : Table α) (key : String) : Option α := find key t.entries

/-- Whether the table has an entry of that name. -/
def contains (t : Table α) (key : String) : Bool := (t.get? key).isSome

@[simp] theorem entries_empty : (∅ : Table α).entries = [] := rfl
@[simp] theorem keys_empty : (∅ : Table α).keys = [] := rfl

/-- The names of a table are distinct. -/
theorem nodup_keys (t : Table α) : t.keys.Nodup := t.distinct

theorem find_isSome_iff (key : String) (entries : List (String × α)) :
    (find key entries).isSome = true ↔ key ∈ entries.map Prod.fst := by
  induction entries with
  | nil => simp
  | cons entry rest ih =>
    rw [find_cons, List.map_cons, List.mem_cons]
    by_cases h : entry.1 = key
    · simp [h]
    · have h' : key ≠ entry.1 := fun e => h e.symm
      simp [h, h', ih]

/-- A table contains exactly its names. -/
theorem contains_iff (t : Table α) (key : String) : t.contains key = true ↔ key ∈ t.keys :=
  find_isSome_iff key t.entries

theorem find_of_mem {entries : List (String × α)} (hd : (entries.map Prod.fst).Nodup)
    {entry : String × α} (h : entry ∈ entries) : find entry.1 entries = some entry.2 := by
  induction entries with
  | nil => exact absurd h List.not_mem_nil
  | cons first rest ih =>
    rw [List.map_cons, List.nodup_cons] at hd
    rw [find_cons]
    rcases List.mem_cons.1 h with rfl | hr
    · exact if_pos rfl
    · have hne : first.1 ≠ entry.1 := fun e => hd.1 (e ▸ List.mem_map_of_mem hr)
      rw [if_neg hne]
      exact ih hd.2 hr

/-- The value under the name of an entry is that of the entry. -/
theorem get?_of_mem (t : Table α) {entry : String × α} (h : entry ∈ t.entries) :
    t.get? entry.1 = some entry.2 :=
  find_of_mem t.distinct h

/-! ### Insertion -/

/-- Replaces the value of the first entry of that name, or adds an entry at the end. -/
def put (key : String) (value : α) : List (String × α) → List (String × α)
  | [] => [(key, value)]
  | entry :: rest => if entry.1 = key then (key, value) :: rest else entry :: put key value rest

theorem map_fst_put (key : String) (value : α) (entries : List (String × α)) :
    (put key value entries).map Prod.fst =
      if key ∈ entries.map Prod.fst then entries.map Prod.fst
      else entries.map Prod.fst ++ [key] := by
  induction entries with
  | nil => simp [put]
  | cons entry rest ih =>
    by_cases h : entry.1 = key
    · simp [put, h]
    · have h' : key ≠ entry.1 := fun e => h e.symm
      simp only [put, if_neg h, List.map_cons, ih, List.mem_cons, h', false_or]
      split <;> simp

theorem find_put (key other : String) (value : α) (entries : List (String × α)) :
    find other (put key value entries) =
      if key = other then some value else find other entries := by
  induction entries with
  | nil => rfl
  | cons entry rest ih =>
    by_cases h : entry.1 = key
    · by_cases h2 : key = other <;> simp [put, find, h, h2]
    · by_cases h2 : key = other
      · subst h2; simp [put, find, h, ih]
      · simp [put, find, h, h2, ih]

/-- Puts a value under a name: an old name keeps its place, a new one comes last. -/
def insert (t : Table α) (key : String) (value : α) : Table α where
  entries := put key value t.entries
  distinct := by
    rw [map_fst_put]
    split
    · exact t.distinct
    · next h =>
      refine List.nodup_append.2 ⟨t.distinct, by simp, ?_⟩
      intro a ha b hb
      rw [List.mem_singleton] at hb
      rintro rfl
      exact h (hb ▸ ha)

/-- Insertion adds at most its own name, and that at the end. -/
theorem keys_insert (t : Table α) (key : String) (value : α) :
    (t.insert key value).keys = if key ∈ t.keys then t.keys else t.keys ++ [key] :=
  map_fst_put key value t.entries

/-- After an insertion the name has the new value, and every other name what it had. -/
theorem get?_insert (t : Table α) (key other : String) (value : α) :
    (t.insert key value).get? other = if key = other then some value else t.get? other :=
  find_put key other value t.entries

/-- The table that a list of entries builds: a repeated name keeps its first place and takes its
last value. -/
def ofEntries (entries : List (String × α)) : Table α :=
  entries.foldl (fun t entry => t.insert entry.1 entry.2) ∅

/-! ### Building with failures -/

/-- Turns the entries of a list, in order, into entries of a table; an entry may be left out, and
the first failure ends the work. -/
def collectFrom {β ε : Type} (f : String → β → Except ε (Option α)) (t : Table α) :
    List (String × β) → Except ε (Table α)
  | [] => .ok t
  | (key, raw) :: rest =>
    match f key raw with
    | .error e => .error e
    | .ok none => collectFrom f t rest
    | .ok (some value) => collectFrom f (t.insert key value) rest

/-- The table of the values that `f` makes of the entries of a list. -/
def collect {β ε : Type} (f : String → β → Except ε (Option α)) (entries : List (String × β)) :
    Except ε (Table α) :=
  collectFrom f ∅ entries

@[simp] theorem collectFrom_nil {β ε : Type} (f : String → β → Except ε (Option α))
    (t : Table α) : collectFrom f t [] = .ok t := rfl

end Table

end SchemaTypings
