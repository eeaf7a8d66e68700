import Mathlib.Data.List.Induction
import Mathlib.Data.List.Nodup
import Mathlib.Data.List.Perm.Subperm
import SchemaTypings.Table

/-!
# Building and comparing tables

What a table holds after it was built from a list, and what of it depends on the order of that
list.  From entries of distinct names a table is built without loss (`entries_ofEntries`,
`entries_collect`), and a look-up does not see their order (`find_of_perm`).
-/

namespace SchemaTypings.Table

universe u

variable {α : Type u} {β ε : Type}

/-! ### Look-up -/

/-- Among items of distinct keys an item is found by its own. -/
theorem find?_key_of_mem {κ : Type} [DecidableEq κ] {items : List α} {keyOf : α → κ}
    (hd : (items.map keyOf).Nodup) {item : α} (h : item ∈ items) :
    items.find? (fun other => keyOf other = keyOf item) = some item := by
  cases hf : items.find? fun other => keyOf other = keyOf item with
  | none => simpa using List.find?_eq_none.1 hf item h
  | some found =>
    have hkey : keyOf found = keyOf item := by simpa using List.find?_some hf
    rw [List.inj_on_of_nodup_map hd (List.mem_of_find?_eq_some hf) h hkey]

/-- The value under a name is that of its only entry. -/
theorem find_eq_some_iff {entries : List (String × α)} (hd : (entries.map Prod.fst).Nodup)
    (key : String) (value : α) : find key entries = some value ↔ (key, value) ∈ entries := by
  constructor
  · intro h
    have hkey : key ∈ entries.map Prod.fst := (find_isSome_iff key entries).1 (by simp [h])
    obtain ⟨entry, he, rfl⟩ := List.mem_map.1 hkey
    have hvalue : entry.2 = value := Option.some.inj ((find_of_mem hd he).symm.trans h)
    exact hvalue ▸ he
  · intro h
    exact find_of_mem hd h

theorem find_eq_none_iff (key : String) (entries : List (String × α)) :
    find key entries = none ↔ key ∉ entries.map Prod.fst := by
  rw [← find_isSome_iff, Option.not_isSome_iff_eq_none]

/-- Entries of distinct names may be looked up in any order. -/
theorem find_of_perm {entries others : List (String × α)} (h : entries.Perm others)
    (hd : (entries.map Prod.fst).Nodup) (key : String) : find key entries = find key others := by
  have hd' : (others.map Prod.fst).Nodup := (h.map Prod.fst).nodup hd
  refine Option.ext fun value => ?_
  rw [find_eq_some_iff hd, find_eq_some_iff hd', h.mem_iff]

/-- Tables that answer every look-up alike hold the same entries. -/
theorem perm_of_get? {t t' : Table α} (h : ∀ key, t.get? key = t'.get? key) :
    t.entries.Perm t'.entries := by
  refine (List.perm_ext_iff_of_nodup (List.Nodup.of_map _ t.distinct)
    (List.Nodup.of_map _ t'.distinct)).2 ?_
  rintro ⟨key, value⟩
  rw [← find_eq_some_iff t.distinct, ← find_eq_some_iff t'.distinct]
  exact Eq.to_iff (congrArg (· = some value) (h key))

/-! ### Insertion of new names -/

theorem put_of_not_mem {key : String} {entries : List (String × α)} (value : α)
    (h : key ∉ entries.map Prod.fst) : put key value entries = entries ++ [(key, value)] := by
  induction entries with
  | nil => rfl
  | cons entry rest ih =>
    rw [List.map_cons, List.mem_cons, not_or] at h
    rw [put, if_neg (Ne.symm h.1), ih h.2, List.cons_append]

theorem entries_insert_of_not_mem {t : Table α} {key : String} (h : key ∉ t.keys) (value : α) :
    (t.insert key value).entries = t.entries ++ [(key, value)] :=
  put_of_not_mem value h

theorem entries_foldl_insert {t : Table α} {entries : List (String × α)}
    (h : ((t.entries ++ entries).map Prod.fst).Nodup) :
    (entries.foldl (fun t entry => t.insert entry.1 entry.2) t).entries = t.entries ++ entries := by
  induction entries generalizing t with
  | nil => simp
  | cons entry rest ih =>
    have hnew : entry.1 ∉ t.keys := by
      rw [List.map_append, List.nodup_append] at h
      exact fun hm => h.2.2 _ hm _ (by simp) rfl
    have hstep := entries_insert_of_not_mem hnew entry.2
    rw [List.foldl_cons, ih (by rw [hstep]; simpa using h), hstep]
    simp

/-- A list of entries with distinct names is the entries of the table built from it. -/
theorem entries_ofEntries {entries : List (String × α)} (h : (entries.map Prod.fst).Nodup) :
    (ofEntries entries).entries = entries := by
  rw [ofEntries, entries_foldl_insert (by simpa using h), entries_empty, List.nil_append]

/-! ### Repeated names -/

theorem mem_of_find {key : String} {value : α} {entries : List (String × α)}
    (h : find key entries = some value) : (key, value) ∈ entries := by
  induction entries with
  | nil => cases h
  | cons entry rest ih =>
    rw [find_cons] at h
    split at h
    · next hkey =>
      cases h
      rw [← hkey]
      exact List.mem_cons_self
    · exact List.mem_cons_of_mem _ (ih h)

theorem find_append (key : String) (entries others : List (String × α)) :
    find key (entries ++ others) = (find key entries).or (find key others) := by
  induction entries with
  | nil => rfl
  | cons entry rest ih =>
    rw [List.cons_append, find_cons, find_cons, ih]
    split <;> rfl

theorem ofEntries_concat (entries : List (String × α)) (entry : String × α) :
    ofEntries (entries ++ [entry]) = (ofEntries entries).insert entry.1 entry.2 := by
  rw [ofEntries, List.foldl_append]
  rfl

/-- The table that a list of entries builds has the last value of each name. -/
theorem get?_ofEntries (entries : List (String × α)) (key : String) :
    (ofEntries entries).get? key = find key entries.reverse := by
  induction entries using List.reverseRecOn with
  | nil => rfl
  | append_singleton init last ih =>
    rw [ofEntries_concat, get?_insert, ih, List.reverse_concat, find_cons]

/-- Every entry of the table that a list builds is one of the list. -/
theorem mem_of_mem_ofEntries {entries : List (String × α)} {entry : String × α}
    (h : entry ∈ (ofEntries entries).entries) : entry ∈ entries := by
  have hfind := (get?_ofEntries entries entry.1).symm.trans (get?_of_mem _ h)
  exact List.mem_reverse.1 (mem_of_find hfind)

/-- An entry of a list is in the table that the list builds if no later one has its name. -/
theorem mem_ofEntries_of_last {before after : List (String × α)} {entry : String × α}
    (h : entry.1 ∉ after.map Prod.fst) : entry ∈ (ofEntries (before ++ entry :: after)).entries := by
  have hlater : find entry.1 after.reverse = none := by
    rw [find_eq_none_iff, List.map_reverse, List.mem_reverse]
    exact h
  have hfound : (ofEntries (before ++ entry :: after)).get? entry.1 = some entry.2 := by
    rw [get?_ofEntries, List.reverse_append, List.reverse_cons, List.append_assoc, find_append,
      hlater]
    exact if_pos rfl
  exact mem_of_find hfound

/-- An entry that comes through although a later one has its name comes again later. -/
theorem mem_of_mem_ofEntries_of_mem {before after : List (String × α)} {entry : String × α}
    (h : entry ∈ (ofEntries (before ++ entry :: after)).entries)
    (hlater : entry.1 ∈ after.map Prod.fst) : entry ∈ after := by
  have hfound := (get?_ofEntries _ _).symm.trans (get?_of_mem _ h)
  rw [List.reverse_append, List.reverse_cons, List.append_assoc, find_append] at hfound
  obtain ⟨value, hvalue⟩ := Option.isSome_iff_exists.1
    ((find_isSome_iff entry.1 after.reverse).2 (by simpa using hlater))
  rw [hvalue, Option.some_or] at hfound
  rw [hfound] at hvalue
  exact List.mem_reverse.1 (mem_of_find hvalue)

/-- A list is turned into a table without loss exactly if its names are distinct. -/
theorem length_ofEntries_iff (entries : List (String × α)) :
    (ofEntries entries).entries.length = entries.length ↔ (entries.map Prod.fst).Nodup := by
  constructor
  · intro h
    have hsub : (ofEntries entries).keys ⊆ entries.map Prod.fst :=
      List.map_subset _ fun _ => mem_of_mem_ofEntries
    have hlength : (entries.map Prod.fst).length ≤ (ofEntries entries).keys.length := by
      simp [keys, h]
    have hperm := ((nodup_keys _).subperm hsub).perm_of_length_le hlength
    exact hperm.nodup_iff.1 (nodup_keys _)
  · intro h
    rw [entries_ofEntries h]

/-! ### Collecting -/

/-- The entry that `f` makes of an entry, if it makes one. -/
def keptEntry (f : String → β → Except ε (Option α)) (entry : String × β) : Option (String × α) :=
  match f entry.1 entry.2 with
  | .ok (some value) => some (entry.1, value)
  | _ => none

/-- Only names of entries are kept. -/
theorem names_keptEntry_subset (f : String → β → Except ε (Option α))
    (entries : List (String × β)) :
    (entries.filterMap (keptEntry f)).map Prod.fst ⊆ entries.map Prod.fst := by
  intro name hname
  obtain ⟨kept, hkept, rfl⟩ := List.mem_map.1 hname
  obtain ⟨entry, hentry, hf⟩ := List.mem_filterMap.1 hkept
  rw [keptEntry] at hf
  split at hf
  · cases hf
    exact List.mem_map_of_mem hentry
  · cases hf

/-- Collecting ends well when `f` fails on no entry. -/
theorem exists_collectFrom_iff (f : String → β → Except ε (Option α)) (t : Table α)
    (entries : List (String × β)) :
    (∃ result, collectFrom f t entries = .ok result) ↔
      ∀ entry ∈ entries, ∃ value, f entry.1 entry.2 = .ok value := by
  induction entries generalizing t with
  | nil => simp
  | cons entry rest ih =>
    obtain ⟨key, raw⟩ := entry
    rw [List.forall_mem_cons]
    cases hf : f key raw with
    | error e => simp [collectFrom, hf]
    | ok made =>
      cases made with
      | none => simpa [collectFrom, hf] using ih t
      | some value => simpa [collectFrom, hf] using ih (t.insert key value)

/-- More entries are collected into what was collected before. -/
theorem collectFrom_append (f : String → β → Except ε (Option α)) (t : Table α)
    (entries more : List (String × β)) :
    collectFrom f t (entries ++ more) =
      (collectFrom f t entries).bind fun result => collectFrom f result more := by
  induction entries generalizing t with
  | nil => rfl
  | cons entry rest ih =>
    obtain ⟨key, raw⟩ := entry
    rw [List.cons_append, collectFrom, collectFrom]
    cases f key raw with
    | error e => rfl
    | ok made =>
      cases made with
      | none => exact ih t
      | some value => exact ih (t.insert key value)

/-- What is collected from entries with new, distinct names comes after what was there. -/
theorem entries_collectFrom {f : String → β → Except ε (Option α)} {t result : Table α}
    {entries : List (String × β)} (h : collectFrom f t entries = .ok result)
    (hd : (t.keys ++ entries.map Prod.fst).Nodup) :
    result.entries = t.entries ++ entries.filterMap (keptEntry f) := by
  induction entries generalizing t with
  | nil =>
    cases h
    simp
  | cons entry rest ih =>
    obtain ⟨key, raw⟩ := entry
    have hrest : (t.keys ++ rest.map Prod.fst).Nodup :=
      hd.sublist ((List.sublist_cons_self key _).append_left t.keys)
    cases hf : f key raw with
    | error e => simp [collectFrom, hf] at h
    | ok made =>
      cases made with
      | none =>
        rw [collectFrom, hf] at h
        rw [ih h hrest, List.filterMap_cons_none (by simp [keptEntry, hf])]
      | some value =>
        rw [collectFrom, hf] at h
        have hnew : key ∉ t.keys := by
          rw [List.nodup_append] at hd
          exact fun hm => hd.2.2 _ hm _ (by simp) rfl
        have hstep := entries_insert_of_not_mem hnew value
        have hkeys : ((t.insert key value).keys ++ rest.map Prod.fst).Nodup := by
          rw [keys_insert, if_neg hnew]
          simpa using hd
        have hkept : keptEntry f (key, raw) = some (key, value) := by simp [keptEntry, hf]
        rw [ih h hkeys, hstep, List.filterMap_cons_some hkept]
        simp

/-- What is in a collected table was there before or is made of an entry. -/
theorem mem_collectFrom {f : String → β → Except ε (Option α)} {t result : Table α}
    {entries : List (String × β)} (h : collectFrom f t entries = .ok result)
    {made : String × α} (hm : made ∈ result.entries) :
    made ∈ t.entries ∨ ∃ raw, (made.1, raw) ∈ entries ∧ f made.1 raw = .ok (some made.2) := by
  induction entries generalizing t with
  | nil =>
    cases h
    exact Or.inl hm
  | cons entry rest ih =>
    obtain ⟨key, raw⟩ := entry
    rw [collectFrom] at h
    cases hf : f key raw with
    | error e => simp [hf] at h
    | ok value? =>
      rw [hf] at h
      cases value? with
      | none =>
        exact (ih h).imp id fun ⟨raw, hraw, hmade⟩ => ⟨raw, List.mem_cons_of_mem _ hraw, hmade⟩
      | some value =>
        rcases ih h with hbefore | ⟨raw, hraw, hmade⟩
        · have hget := (get?_insert t key made.1 value).symm.trans (get?_of_mem _ hbefore)
          split at hget
          · next hkey =>
            refine Or.inr ⟨raw, ?_, ?_⟩
            · exact hkey ▸ List.mem_cons_self
            · rw [← hkey, hf, Option.some.inj hget]
          · exact Or.inl (mem_of_find hget)
        · exact Or.inr ⟨raw, List.mem_cons_of_mem _ hraw, hmade⟩

/-- Every entry of a collected table is made of one that was given. -/
theorem exists_of_mem_collect {f : String → β → Except ε (Option α)} {result : Table α}
    {entries : List (String × β)} (h : collect f entries = .ok result) {made : String × α}
    (hm : made ∈ result.entries) :
    ∃ raw, (made.1, raw) ∈ entries ∧ f made.1 raw = .ok (some made.2) :=
  (mem_collectFrom h hm).resolve_left List.not_mem_nil

/-- From entries with distinct names everything that `f` makes is collected, in their order. -/
theorem entries_collect {f : String → β → Except ε (Option α)} {result : Table α}
    {entries : List (String × β)} (h : collect f entries = .ok result)
    (hd : (entries.map Prod.fst).Nodup) : result.entries = entries.filterMap (keptEntry f) := by
  rw [entries_collectFrom h (by simpa using hd), entries_empty, List.nil_append]

/-- The names that are kept are those of the entries of which something is made. -/
theorem map_fst_keptEntry {f : String → β → Except ε (Option α)} {kept : String × β → Bool}
    {entries : List (String × β)}
    (h : ∀ entry ∈ entries, ∃ made, f entry.1 entry.2 = .ok made ∧ made.isSome = kept entry) :
    (entries.filterMap (keptEntry f)).map Prod.fst = (entries.filter kept).map Prod.fst := by
  induction entries with
  | nil => rfl
  | cons entry rest ih =>
    obtain ⟨⟨made, hf, hkept⟩, hrest⟩ := List.forall_mem_cons.1 h
    cases made with
    | none =>
      rw [List.filterMap_cons_none (by simp [keptEntry, hf]),
        List.filter_cons_of_neg (by simp [← hkept]), ih hrest]
    | some value =>
      rw [List.filterMap_cons_some (b := (entry.1, value)) (by simp [keptEntry, hf]),
        List.filter_cons_of_pos (by simp [← hkept]), List.map_cons, List.map_cons, ih hrest]

/-! ### Mapping -/

section Mapping

universe v

variable {γ : Type v} (f : α → γ)

/-- The table with every value mapped. -/
def map (t : Table α) : Table γ where
  entries := t.entries.map fun entry => (entry.1, f entry.2)
  distinct := by
    rw [List.map_map]
    exact t.distinct

@[simp] theorem entries_map (t : Table α) :
    (t.map f).entries = t.entries.map fun entry => (entry.1, f entry.2) := rfl

@[simp] theorem keys_map (t : Table α) : (t.map f).keys = t.keys := by
  rw [keys, keys, entries_map, List.map_map]
  rfl

@[simp] theorem size_map (t : Table α) : (t.map f).size = t.size := List.length_map _

@[simp] theorem isEmpty_map (t : Table α) : (t.map f).isEmpty = t.isEmpty := List.isEmpty_map

theorem find_map (key : String) (entries : List (String × α)) :
    find key (entries.map fun entry => (entry.1, f entry.2)) = (find key entries).map f := by
  induction entries with
  | nil => rfl
  | cons entry rest ih =>
    rw [List.map_cons, find_cons, find_cons, ih]
    split <;> rfl

@[simp] theorem get?_map (t : Table α) (key : String) : (t.map f).get? key = (t.get? key).map f :=
  find_map f key t.entries

theorem put_map (key : String) (value : α) (entries : List (String × α)) :
    put key (f value) (entries.map fun entry => (entry.1, f entry.2)) =
      (put key value entries).map fun entry => (entry.1, f entry.2) := by
  induction entries with
  | nil => rfl
  | cons entry rest ih =>
    rw [List.map_cons, put, put, ih]
    split <;> rfl

theorem ext_entries {t t' : Table α} (h : t.entries = t'.entries) : t = t' := by
  cases t
  cases t'
  cases h
  rfl

@[simp] theorem map_insert (t : Table α) (key : String) (value : α) :
    (t.insert key value).map f = (t.map f).insert key (f value) :=
  ext_entries (put_map f key value t.entries).symm

@[simp] theorem map_empty : (∅ : Table α).map f = ∅ := rfl

theorem map_ofEntries (entries : List (String × α)) :
    (ofEntries entries).map f = ofEntries (entries.map fun entry => (entry.1, f entry.2)) := by
  rw [ofEntries, ofEntries, List.foldl_map, ← map_empty f]
  generalize (∅ : Table α) = t
  induction entries generalizing t with
  | nil => rfl
  | cons entry rest ih =>
    rw [List.foldl_cons, List.foldl_cons, ih, map_insert]

/-- The names of the table that a list builds depend on the names in the list only. -/
theorem keys_ofEntries_congr {entries others : List (String × α)}
    (h : entries.map Prod.fst = others.map Prod.fst) :
    (ofEntries entries).keys = (ofEntries others).keys := by
  have hnames (list : List (String × α)) : (ofEntries list).keys =
      (ofEntries ((list.map Prod.fst).map fun name => (name, ()))).keys := by
    rw [← keys_map (fun _ => ()), map_ofEntries, List.map_map]
    rfl
  rw [hnames, hnames others, h]

/-- Entries may be changed before they are collected if that changes what is made of each of them
in the same way, and left out if nothing is made of them. -/
theorem collectFrom_map {δ : Type} {make : String → β → Except ε (Option α)}
    {make' : String → δ → Except ε (Option γ)} {kept : String × β → Bool} {change : β → δ}
    {entries : List (String × β)}
    (hkept : ∀ entry ∈ entries, kept entry = true →
      make' entry.1 (change entry.2) = (make entry.1 entry.2).map (Option.map f))
    (hdropped : ∀ entry ∈ entries, kept entry = false → make entry.1 entry.2 = .ok none)
    (t : Table α) :
    collectFrom make' (t.map f)
        ((entries.filter kept).map fun entry => (entry.1, change entry.2)) =
      (collectFrom make t entries).map (Table.map f) := by
  induction entries generalizing t with
  | nil => rfl
  | cons entry rest ih =>
    obtain ⟨key, raw⟩ := entry
    obtain ⟨hfirst, hothers⟩ := List.forall_mem_cons.1 hkept
    obtain ⟨hfirst', hothers'⟩ := List.forall_mem_cons.1 hdropped
    cases hk : kept (key, raw) with
    | false =>
      rw [List.filter_cons_of_neg (by simp [hk]), ih hothers hothers', collectFrom, hfirst' hk]
    | true =>
      rw [List.filter_cons_of_pos hk, List.map_cons, collectFrom, collectFrom, hfirst hk]
      cases make key raw with
      | error e => rfl
      | ok made =>
        cases made with
        | none => exact ih hothers hothers' t
        | some value =>
          show collectFrom make' ((t.map f).insert key (f value)) _ = _
          rw [← map_insert]
          exact ih hothers hothers' (t.insert key value)

theorem collect_map {δ : Type} {make : String → β → Except ε (Option α)}
    {make' : String → δ → Except ε (Option γ)} {kept : String × β → Bool} {change : β → δ}
    {entries : List (String × β)}
    (hkept : ∀ entry ∈ entries, kept entry = true →
      make' entry.1 (change entry.2) = (make entry.1 entry.2).map (Option.map f))
    (hdropped : ∀ entry ∈ entries, kept entry = false → make entry.1 entry.2 = .ok none) :
    collect make' ((entries.filter kept).map fun entry => (entry.1, change entry.2)) =
      (collect make entries).map (Table.map f) :=
  collectFrom_map f hkept hdropped ∅

/-- What is made of changed entries need be the same only up to `f` to be collected the same up to
`f`. -/
theorem map_collect_congr {δ : Type} {make : String → β → Except ε (Option α)}
    {make' : String → δ → Except ε (Option α)} {kept : String × β → Bool} {change : β → δ}
    {entries : List (String × β)}
    (hkept : ∀ entry ∈ entries, kept entry = true →
      (make' entry.1 (change entry.2)).map (Option.map f) =
        (make entry.1 entry.2).map (Option.map f))
    (hdropped : ∀ entry ∈ entries, kept entry = false → make entry.1 entry.2 = .ok none) :
    (collect make' ((entries.filter kept).map fun entry => (entry.1, change entry.2))).map
        (Table.map f) =
      (collect make entries).map (Table.map f) := by
  have hmapped (others : List (String × δ)) :
      collect (fun key raw => (make' key raw).map (Option.map f)) others =
        (collect make' others).map (Table.map f) := by
    have h : collect (fun key raw => (make' key raw).map (Option.map f))
        ((others.filter fun _ => true).map fun entry => (entry.1, id entry.2)) =
          (collect make' others).map (Table.map f) :=
      collect_map f (fun _ _ _ => rfl) fun _ _ hdropped => by cases hdropped
    simpa using h
  rw [← hmapped, collect_map f hkept hdropped]

/-- Entries may be changed before they are collected if the same is made of each of them. -/
theorem collect_change {δ : Type} {make : String → β → Except ε (Option α)}
    {make' : String → δ → Except ε (Option α)} {kept : String × β → Bool} {change : β → δ}
    {entries : List (String × β)}
    (hkept : ∀ entry ∈ entries, kept entry = true →
      make' entry.1 (change entry.2) = make entry.1 entry.2)
    (hdropped : ∀ entry ∈ entries, kept entry = false → make entry.1 entry.2 = .ok none) :
    collect make' ((entries.filter kept).map fun entry => (entry.1, change entry.2)) =
      collect make entries := by
  have hid (t : Table α) : t.map id = t := ext_entries (List.map_id _)
  have h := map_collect_congr id (fun entry hm hk => congrArg _ (hkept entry hm hk)) hdropped
  have hmap (result : Except ε (Table α)) : result.map (Table.map id) = result := by
    cases result with
    | error e => rfl
    | ok t => exact congrArg Except.ok (hid t)
  rwa [hmap, hmap] at h

end Mapping

end SchemaTypings.Table
