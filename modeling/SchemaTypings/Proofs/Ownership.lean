import Mathlib.Data.List.Nodup
import SchemaTypings.Proofs.Tables
import SchemaTypings.Schema.Placement

/-!
# Ownership

Which scope owns a definition.  `BelongsTo` states the rule from the names of the services and of
the namespaces made so far: the longest enclosing service, else the longest enclosing namespace,
else a namespace named like the part before the last dot, else the global scope.  `Placed` is what
holds of a scope table after some definitions were placed, and `Placed.place` is its step.
-/

namespace SchemaTypings.Schema

open SchemaTypings.Json SchemaTypings.Name

/-! ### Enclosing names -/

theorem encloses_iff (scope name : String) :
    encloses scope name = true ↔ scope ≠ "" ∧ scope.toList ++ ['.'] <+: name.toList := by
  simp [encloses, List.isPrefixOf_iff_prefix]

theorem beforeLastDot_isPrefix {cs before : List Char} (h : beforeLastDot cs = some before) :
    before ++ ['.'] <+: cs := by
  induction cs generalizing before with
  | nil => cases h
  | cons c rest ih =>
    rw [beforeLastDot] at h
    split at h
    · next shorter hs =>
      cases h
      exact (List.prefix_cons_inj c).2 (ih hs)
    · split at h
      · next hc =>
        cases h
        exact ⟨rest, by rw [hc]; rfl⟩
      · cases h

/-- The part before the last dot encloses the name. -/
theorem encloses_of_parent? {name parent : String} (h : parent? name = some parent) :
    encloses parent name = true := by
  rw [parent?] at h
  split at h
  · cases h
  · cases h
  · next c before hb =>
    cases h
    rw [encloses_iff]
    refine ⟨fun he => ?_, ?_⟩
    · simpa using congrArg String.toList he
    · rw [String.toList_ofList]
      exact beforeLastDot_isPrefix hb

/-- No name in `names` encloses `name`. -/
def NoneEncloses (names : String → Prop) (name : String) : Prop :=
  ∀ other, names other → ¬ encloses other name = true

/-- `longest` is the longest of the names in `names` that enclose `name`. -/
def IsLongestEnclosing (names : String → Prop) (name longest : String) : Prop :=
  names longest ∧ encloses longest name = true ∧
    ∀ other, names other → encloses other name = true → other.length ≤ longest.length

/-- Of the names that enclose a given one at most one is the longest. -/
theorem IsLongestEnclosing.unique {names : String → Prop} {name a b : String}
    (ha : IsLongestEnclosing names name a) (hb : IsLongestEnclosing names name b) : a = b := by
  obtain ⟨hna, hea, hla⟩ := ha
  obtain ⟨hnb, heb, hlb⟩ := hb
  have hlength : a.length = b.length := Nat.le_antisymm (hlb a hna hea) (hla b hnb heb)
  have hpa : a.toList <+: name.toList :=
    (List.prefix_append a.toList ['.']).trans ((encloses_iff a name).1 hea).2
  have hpb : b.toList <+: name.toList :=
    (List.prefix_append b.toList ['.']).trans ((encloses_iff b name).1 heb).2
  have hab : a.toList <+: b.toList :=
    List.prefix_of_prefix_length_le hpa hpb (by simp [String.length_toList, hlength])
  exact String.toList_inj.1 (hab.eq_of_length (by simp [String.length_toList, hlength]))

namespace ScopeTable

/-- Of a choice and a name the longer one is chosen. -/
theorem longer_spec (first : Option String) (name : String) :
    ∃ chosen, longer first name = some chosen ∧ (chosen ∈ first ∨ chosen = name) ∧
      name.length ≤ chosen.length ∧ ∀ other ∈ first, other.length ≤ chosen.length := by
  cases first with
  | none => exact ⟨name, rfl, Or.inr rfl, Nat.le_refl _, by simp⟩
  | some held =>
    by_cases hl : name.length < held.length
    · exact ⟨held, if_pos hl, Or.inl rfl, by omega, by simp⟩
    · exact ⟨name, if_neg hl, Or.inr rfl, Nat.le_refl _, by simpa using hl⟩

/-- From a first choice on, a longest name is chosen. -/
theorem foldl_longer_spec (names : List String) (held : String) :
    ∃ longest, names.foldl longer (some held) = some longest ∧
      (longest = held ∨ longest ∈ names) ∧ held.length ≤ longest.length ∧
      ∀ other ∈ names, other.length ≤ longest.length := by
  induction names generalizing held with
  | nil => exact ⟨held, rfl, Or.inl rfl, Nat.le_refl _, by simp⟩
  | cons name rest ih =>
    obtain ⟨chosen, hc, hmem, hname, hheld⟩ := longer_spec (some held) name
    obtain ⟨longest, hl, hmem', hchosen, hrest⟩ := ih chosen
    have hfirst : held.length ≤ chosen.length := hheld held rfl
    refine ⟨longest, by rw [List.foldl_cons, hc, hl], ?_, by omega, ?_⟩
    · rcases hmem' with rfl | hr
      · rcases hmem with hm | rfl
        · exact Or.inl (Option.some.inj hm).symm
        · exact Or.inr List.mem_cons_self
      · exact Or.inr (List.mem_cons_of_mem name hr)
    · intro other ho
      rcases List.mem_cons.1 ho with rfl | hr
      · omega
      · exact hrest other hr

/-- A longest enclosing name is found exactly if there is an enclosing one. -/
theorem longestEnclosing_spec (name : String) (names : List String) :
    (longestEnclosing name names = none ∧ NoneEncloses (· ∈ names) name) ∨
      ∃ longest, longestEnclosing name names = some longest ∧
        IsLongestEnclosing (· ∈ names) name longest := by
  have hmem (other : String) : (other ∈ names.filter fun scope => encloses scope name) ↔
      other ∈ names ∧ encloses other name = true := List.mem_filter
  rw [longestEnclosing]
  generalize (names.filter fun scope => encloses scope name) = enclosing at hmem ⊢
  cases enclosing with
  | nil =>
    refine Or.inl ⟨rfl, fun other ho he => ?_⟩
    exact absurd ((hmem other).2 ⟨ho, he⟩) List.not_mem_nil
  | cons first rest =>
    obtain ⟨longest, hl, hin, hfirst, hrest⟩ := foldl_longer_spec rest first
    have hlongest : longest ∈ names ∧ encloses longest name = true :=
      (hmem longest).1 (List.mem_cons.2 hin)
    refine Or.inr ⟨longest, hl, hlongest.1, hlongest.2, fun other ho he => ?_⟩
    rcases List.mem_cons.1 ((hmem other).2 ⟨ho, he⟩) with rfl | hr
    · exact hfirst
    · exact hrest other hr

/-! ### The owner of a name -/

theorem mem_names_ofKind (t : ScopeTable) (kind : ScopeKind) (name : String) :
    (name ∈ (t.ofKind kind).map fun scope => scope.key.name) ↔ ⟨kind, name⟩ ∈ t.keys := by
  constructor
  · intro h
    obtain ⟨scope, hs, rfl⟩ := List.mem_map.1 h
    obtain ⟨hs, hk⟩ := List.mem_filter.1 hs
    have hkey : scope.key = ⟨kind, scope.key.name⟩ := by rw [← of_decide_eq_true hk]
    exact hkey ▸ List.mem_map_of_mem hs
  · intro h
    obtain ⟨scope, hs, hk⟩ := List.mem_map.1 h
    refine List.mem_map.2 ⟨scope, List.mem_filter.2 ⟨hs, ?_⟩, by rw [hk]⟩
    rw [hk]
    exact decide_eq_true rfl

/-- The scope of a kind that encloses a name is found if there is one. -/
theorem enclosing?_spec (t : ScopeTable) (kind : ScopeKind) (name : String) :
    (t.enclosing? kind name = none ∧ NoneEncloses (fun m => ⟨kind, m⟩ ∈ t.keys) name) ∨
      ∃ longest, t.enclosing? kind name = some ⟨kind, longest⟩ ∧
        IsLongestEnclosing (fun m => ⟨kind, m⟩ ∈ t.keys) name longest := by
  have hnames : (· ∈ (t.ofKind kind).map fun scope => scope.key.name) =
      fun m => (⟨kind, m⟩ : ScopeKey) ∈ t.keys :=
    funext fun m => propext (t.mem_names_ofKind kind m)
  rw [enclosing?, ← hnames]
  rcases longestEnclosing_spec name ((t.ofKind kind).map fun scope => scope.key.name) with
    ⟨hn, hnone⟩ | ⟨longest, hl, hlongest⟩
  · exact Or.inl ⟨by rw [hn]; rfl, hnone⟩
  · exact Or.inr ⟨longest, by rw [hl]; rfl, hlongest⟩

end ScopeTable

/-- Where a definition belongs when there are the given services and namespaces. -/
inductive BelongsTo (services namespaces : String → Prop) (name : String) : ScopeKey → Prop where
  /-- To the longest enclosing service, if one encloses it. -/
  | service {owner : String} (longest : IsLongestEnclosing services name owner) :
      BelongsTo services namespaces name ⟨.service, owner⟩
  /-- Otherwise to the longest enclosing namespace, if one encloses it. -/
  | nameSpace {owner : String} (noService : NoneEncloses services name)
      (longest : IsLongestEnclosing namespaces name owner) :
      BelongsTo services namespaces name ⟨.nameSpace, owner⟩
  /-- Otherwise to a namespace named like the part before the last dot, if it has one. -/
  | parent {owner : String} (noService : NoneEncloses services name)
      (noNamespace : NoneEncloses namespaces name) (parent : parent? name = some owner) :
      BelongsTo services namespaces name ⟨.nameSpace, owner⟩
  /-- Otherwise to the global scope. -/
  | global (noService : NoneEncloses services name) (noNamespace : NoneEncloses namespaces name)
      (noParent : parent? name = none) : BelongsTo services namespaces name .global

/-- A definition belongs to one scope only. -/
theorem BelongsTo.unique {services namespaces : String → Prop} {name : String} {a b : ScopeKey}
    (ha : BelongsTo services namespaces name a) (hb : BelongsTo services namespaces name b) :
    a = b := by
  cases ha with
  | service la =>
    cases hb with
    | service lb => rw [la.unique lb]
    | nameSpace no _ => exact absurd la.2.1 (no _ la.1)
    | parent no _ _ => exact absurd la.2.1 (no _ la.1)
    | global no _ _ => exact absurd la.2.1 (no _ la.1)
  | nameSpace na la =>
    cases hb with
    | service lb => exact absurd lb.2.1 (na _ lb.1)
    | nameSpace _ lb => rw [la.unique lb]
    | parent _ no _ => exact absurd la.2.1 (no _ la.1)
    | global _ no _ => exact absurd la.2.1 (no _ la.1)
  | parent na ma pa =>
    cases hb with
    | service lb => exact absurd lb.2.1 (na _ lb.1)
    | nameSpace _ lb => exact absurd lb.2.1 (ma _ lb.1)
    | parent _ _ pb => rw [Option.some.inj (pa.symm.trans pb)]
    | global _ _ pb => exact absurd (pa.symm.trans pb) (by simp)
  | global na ma pa =>
    cases hb with
    | service lb => exact absurd lb.2.1 (na _ lb.1)
    | nameSpace _ lb => exact absurd lb.2.1 (ma _ lb.1)
    | parent _ _ pb => exact absurd (pa.symm.trans pb) (by simp)
    | global _ _ _ => rfl

namespace ScopeTable

/-- The owner of a name is where it belongs among the scopes of the table. -/
theorem belongsTo_ownerOf (t : ScopeTable) (name : String) :
    BelongsTo (fun s => ⟨.service, s⟩ ∈ t.keys) (fun m => ⟨.nameSpace, m⟩ ∈ t.keys) name
      (t.ownerOf name) := by
  rw [ownerOf]
  rcases t.enclosing?_spec .service name with ⟨hs, noService⟩ | ⟨owner, hs, longest⟩
  · rcases t.enclosing?_spec .nameSpace name with ⟨hn, noNamespace⟩ | ⟨owner, hn, longest⟩
    · rw [hs, hn]
      cases hp : parent? name with
      | none => exact .global noService noNamespace hp
      | some parent => exact .parent noService noNamespace hp
    · rw [hs, hn]
      exact .nameSpace noService longest
  · rw [hs]
    exact .service longest

end ScopeTable

end SchemaTypings.Schema
