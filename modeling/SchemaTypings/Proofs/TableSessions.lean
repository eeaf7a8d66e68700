import SchemaTypings.Proofs.Enclosing
import SchemaTypings.Proofs.Placement

/-!
# Sessions with a scope table

A scope table serves declarations, questions for owners, insertions and look-ups in any order, and
tells scopes apart by ids, which are their positions.  `Session` is what can happen to a table that
is given back only ids it has handed out; `Session.sound` says what holds of the table after every
session.  The invariant is `Consistent`: it is kept by one operation and so by a session.
-/

namespace SchemaTypings.Schema

open SchemaTypings.Name

/-! ### Operations and replies -/

/-- What a scope table can be asked to do. -/
inductive Operation where
  /-- Declares a scope. -/
  | declare (key : ScopeKey)
  /-- Asks for the global scope. -/
  | globalScope
  /-- Asks for the owner of a name, which is declared if need be. -/
  | ownerFor (name : String)
  /-- Puts a definition into the scope of an id. -/
  | insert (id : Nat) (name : String) (definition : Definition)
  /-- Asks for the longest scope of a kind that encloses a name. -/
  | enclosing (kind : ScopeKind) (name : String)
  /-- Asks who owns a name and what it is defined as. -/
  | lookUp (name : String)

/-- What a scope table replies. -/
inductive Reply where
  | scope (id : Option Nat)
  | inserted
  | found (owner : Option Scope) (definition : Option Definition)

/-- What happened to a table, the latest first. -/
abbrev History := List (Operation × Reply)

namespace ScopeTable

/-- The id of a scope: its position. -/
def idOf (t : ScopeTable) (key : ScopeKey) : Nat := t.keys.idxOf key

/-- The table after an operation and its reply; there is none for an insertion into a scope that
does not exist. -/
def perform (t : ScopeTable) : Operation → Option (ScopeTable × Reply)
  | .declare key => some (t.declare key, .scope (some ((t.declare key).idOf key)))
  | .globalScope => some (t, .scope (some 0))
  | .ownerFor name =>
    let t' := t.declare (t.ownerOf name)
    some (t', .scope (some (t'.idOf (t.ownerOf name))))
  | .insert id name definition =>
    t.keys[id]?.map fun key => (t.insert key name definition, .inserted)
  | .enclosing kind name => some (t, .scope ((t.enclosing? kind name).map t.idOf))
  | .lookUp name => some (t, .found (t.scopeOf? name) (t.definition? name))

end ScopeTable

/-- The ids that were handed out. -/
def issued (history : History) : List Nat :=
  history.filterMap fun event => match event.2 with
    | .scope id => id
    | _ => none

/-- The id and the definition of the last insertion of a name. -/
def lastInsert (name : String) : History → Option (Nat × Definition)
  | [] => none
  | (.insert id other definition, _) :: rest =>
    if other = name then some (id, definition) else lastInsert name rest
  | _ :: rest => lastInsert name rest

/-- Definitions are inserted only into scopes whose ids were handed out. -/
def Operation.Permitted (history : History) : Operation → Prop
  | insert id _ _ => id ∈ issued history
  | _ => True

instance (history : History) (operation : Operation) : Decidable (operation.Permitted history) :=
  match operation with
  | .insert id _ _ => inferInstanceAs (Decidable (id ∈ issued history))
  | .declare _ | .globalScope | .ownerFor _ | .enclosing _ _ | .lookUp _ => isTrue trivial

/-- The history leads to the table. -/
inductive Session : History → ScopeTable → Prop where
  | start : Session [] .initial
  | step {history : History} {t t' : ScopeTable} {operation : Operation} {reply : Reply}
      (before : Session history t) (permitted : operation.Permitted history)
      (performed : t.perform operation = some (t', reply)) :
      Session ((operation, reply) :: history) t'

/-! ### Scopes and their positions -/

namespace ScopeTable

variable {t : ScopeTable}

theorem getElem?_keys (t : ScopeTable) (id : Nat) : t.keys[id]? = t.scopes[id]?.map Scope.key :=
  List.getElem?_map

/-- Declaring only adds scopes, at the end. -/
theorem scopes_declare_prefix (t : ScopeTable) (key : ScopeKey) :
    t.scopes <+: (t.declare key).scopes := by
  unfold declare
  split
  · exact List.prefix_rfl
  · exact List.prefix_append _ _

/-- The id of a scope leads to its key. -/
theorem getElem?_idOf {key : ScopeKey} (h : key ∈ t.keys) : t.keys[t.idOf key]? = some key := by
  rw [idOf, List.getElem?_eq_getElem (List.idxOf_lt_length_iff.2 h), List.getElem_idxOf]

/-- A key leads to one id only. -/
theorem eq_idOf (hd : t.keys.Nodup) {id : Nat} {key : ScopeKey} (h : t.keys[id]? = some key) :
    id = t.idOf key := by
  obtain ⟨hlt, rfl⟩ := List.getElem?_eq_some_iff.1 h
  exact (hd.idxOf_getElem id hlt).symm

/-- An operation adds scopes at the end and changes no key. -/
theorem keys_perform {t' : ScopeTable} {operation : Operation} {reply : Reply}
    (h : t.perform operation = some (t', reply)) : t.keys <+: t'.keys := by
  have hdeclare (key : ScopeKey) : t.keys <+: (t.declare key).keys :=
    (t.scopes_declare_prefix key).map Scope.key
  cases operation with
  | declare key => cases h; exact hdeclare key
  | globalScope => cases h; exact List.prefix_rfl
  | ownerFor name => cases h; exact hdeclare _
  | insert id name definition =>
    obtain ⟨key, -, hk⟩ := Option.map_eq_some_iff.1 h
    cases hk
    exact t.keys_insert _ _ _ ▸ List.prefix_rfl
  | enclosing kind name => cases h; exact List.prefix_rfl
  | lookUp name => cases h; exact List.prefix_rfl

/-- Every id that is handed out is that of a scope. -/
theorem lt_of_scope_reply (hg : .global ∈ t.keys) {t' : ScopeTable} {operation : Operation}
    {id : Nat} (h : t.perform operation = some (t', .scope (some id))) : id < t'.keys.length := by
  have hid {t : ScopeTable} {key : ScopeKey} (hk : key ∈ t.keys) : t.idOf key < t.keys.length :=
    List.idxOf_lt_length_iff.2 hk
  cases operation with
  | declare key =>
    cases h
    exact hid (t.mem_keys_declare key)
  | globalScope =>
    cases h
    exact List.length_pos_of_mem hg
  | ownerFor name =>
    cases h
    exact hid (t.mem_keys_declare _)
  | insert id name definition =>
    obtain ⟨key, -, hk⟩ := Option.map_eq_some_iff.1 h
    cases hk
  | enclosing kind name =>
    simp only [perform, Option.some.injEq, Prod.mk.injEq, Reply.scope.injEq] at h
    obtain ⟨rfl, hfound⟩ := h
    obtain ⟨key, hk, rfl⟩ := Option.map_eq_some_iff.1 hfound
    rcases t.enclosing?_spec kind name with ⟨hnone, -⟩ | ⟨longest, hsome, hlongest⟩
    · rw [hnone] at hk
      cases hk
    · rw [hsome] at hk
      cases hk
      exact hid hlongest.1
  | lookUp name => cases h

end ScopeTable

/-! ### The invariant -/

/-- The scope of the id holds the definition under the name, and owns the name; without an insertion
nobody owns the name. -/
def Holds (t : ScopeTable) (name : String) : Option (Nat × Definition) → Prop
  | none => t.owners.get? name = none
  | some (id, definition) => ∃ scope, t.scopes[id]? = some scope ∧
      t.owners.get? name = some scope.key ∧ scope.definitions.get? name = some definition

/-- What holds of a table with a history. -/
structure Consistent (history : History) (t : ScopeTable) : Prop where
  first : t.keys.head? = some .global
  distinct : t.keys.Nodup
  valid : ∀ id ∈ issued history, id < t.keys.length
  holds : ∀ name, Holds t name (lastInsert name history)

namespace Holds

open ScopeTable

variable {t : ScopeTable} {name : String}

/-- New scopes at the end hold nothing. -/
theorem declare {last : Option (Nat × Definition)} (h : Holds t name last) (key : ScopeKey) :
    Holds (t.declare key) name last := by
  cases last with
  | none => rwa [Holds, owners_declare]
  | some last =>
    obtain ⟨scope, hs, ho, hd⟩ := h
    obtain ⟨more, hmore⟩ := t.scopes_declare_prefix key
    refine ⟨scope, ?_, by rw [owners_declare, ho], hd⟩
    rw [← hmore, List.getElem?_append_left (List.getElem?_eq_some_iff.1 hs).1, hs]

/-- What is inserted is held by the scope into which it is inserted. -/
theorem insert_self {id : Nat} {key : ScopeKey} (hk : t.keys[id]? = some key) (name : String)
    (definition : Definition) :
    Holds (t.insert key name definition) name (some (id, definition)) := by
  rw [getElem?_keys] at hk
  obtain ⟨scope, hs, rfl⟩ := Option.map_eq_some_iff.1 hk
  refine ⟨{ scope with definitions := scope.definitions.insert name definition }, ?_, ?_, ?_⟩
  · simp [ScopeTable.insert, hs]
  · simp [ScopeTable.insert, Table.get?_insert]
  · simp [Table.get?_insert]

/-- An insertion concerns no other name. -/
theorem insert_of_ne {last : Option (Nat × Definition)} (h : Holds t name last) (key : ScopeKey)
    {other : String} (hne : other ≠ name) (definition : Definition) :
    Holds (t.insert key other definition) name last := by
  cases last with
  | none =>
    rw [Holds, ScopeTable.insert, Table.get?_insert, if_neg hne]
    exact h
  | some last =>
    obtain ⟨scope, hs, ho, hd⟩ := h
    refine ⟨if scope.key = key
      then { scope with definitions := scope.definitions.insert other definition } else scope,
      ?_, ?_, ?_⟩
    · simp [ScopeTable.insert, hs]
    · rw [ScopeTable.insert, Table.get?_insert, if_neg hne, ho]
      split <;> rfl
    · split
      · rw [Table.get?_insert, if_neg hne, hd]
      · exact hd

end Holds

namespace Consistent

open ScopeTable

variable {history : History} {t : ScopeTable}

theorem initial : Consistent [] .initial where
  first := rfl
  distinct := List.nodup_singleton _
  valid _ h := absurd h List.not_mem_nil
  holds _ := rfl

theorem global_mem (h : Consistent history t) : .global ∈ t.keys := List.mem_of_head? h.first

/-- One operation keeps the invariant. -/
theorem step (h : Consistent history t) {t' : ScopeTable} {operation : Operation} {reply : Reply}
    (hp : t.perform operation = some (t', reply)) :
    Consistent ((operation, reply) :: history) t' := by
  obtain ⟨more, hkeys⟩ := keys_perform hp
  have hne : t.keys ≠ [] := List.ne_nil_of_mem h.global_mem
  constructor
  case first => rw [← hkeys, List.head?_append_of_ne_nil _ hne, h.first]
  case distinct =>
    cases operation with
    | declare key => cases hp; exact nodup_keys_declare h.distinct key
    | globalScope => cases hp; exact h.distinct
    | ownerFor name => cases hp; exact nodup_keys_declare h.distinct _
    | insert id name definition =>
      obtain ⟨key, -, hk⟩ := Option.map_eq_some_iff.1 hp
      cases hk
      rw [keys_insert]
      exact h.distinct
    | enclosing kind name => cases hp; exact h.distinct
    | lookUp name => cases hp; exact h.distinct
  case valid =>
    -- a new id is that of a scope, and an old one still is
    have hlength : t.keys.length ≤ t'.keys.length := by rw [← hkeys, List.length_append]; omega
    have hold : ∀ id ∈ issued history, id < t'.keys.length := fun id hid =>
      Nat.lt_of_lt_of_le (h.valid id hid) hlength
    intro id hid
    rw [issued, List.filterMap_cons] at hid
    cases reply with
    | scope handed =>
      cases handed with
      | none => exact hold id hid
      | some first =>
        rcases List.mem_cons.1 hid with rfl | hid
        · exact lt_of_scope_reply h.global_mem hp
        · exact hold id hid
    | inserted => exact hold id hid
    | found owner definition => exact hold id hid
  case holds =>
    intro name
    cases operation with
    | declare key => cases hp; exact (h.holds name).declare key
    | globalScope => cases hp; exact h.holds name
    | ownerFor owned => cases hp; exact (h.holds name).declare _
    | insert id inserted definition =>
      obtain ⟨key, hk, hpair⟩ := Option.map_eq_some_iff.1 hp
      cases hpair
      rw [lastInsert]
      split
      · next heq =>
        subst heq
        exact Holds.insert_self hk inserted definition
      · next hne => exact (h.holds name).insert_of_ne key hne definition
    | enclosing kind other => cases hp; exact h.holds name
    | lookUp other => cases hp; exact h.holds name

end Consistent

/-! ### Sessions -/

namespace Session

open ScopeTable

variable {history : History} {t : ScopeTable}

/-- A session keeps the invariant. -/
theorem consistent (h : Session history t) : Consistent history t := by
  induction h with
  | start => exact .initial
  | step _ _ performed ih => exact ih.step performed

/-- A history leads to one table. -/
theorem unique {t' : ScopeTable} (h : Session history t) (h' : Session history t') : t = t' := by
  induction h generalizing t' with
  | start =>
    cases h'
    rfl
  | step before _ performed ih =>
    cases h' with
    | step before' _ performed' =>
      obtain rfl := ih before'
      rw [performed] at performed'
      exact (Prod.mk.inj (Option.some.inj performed')).1

/-- Whatever happens later, the scopes stay where they are. -/
theorem keys_later (h : Session history t) {later : History} {t' : ScopeTable}
    (h' : Session (later ++ history) t') : t.keys <+: t'.keys := by
  induction later generalizing t' with
  | nil => exact h.unique h' ▸ List.prefix_rfl
  | cons event rest ih =>
    cases h' with
    | step before _ performed => exact (ih before).trans (keys_perform performed)

end Session

/-! ### What a session keeps -/

/-- The id is that of the scope of a kind that encloses a name and has the longest name of all that
do. -/
def IsLongestScope (t : ScopeTable) (kind : ScopeKind) (name : String) (id : Nat) : Prop :=
  ∃ scope, t.keys[id]? = some ⟨kind, scope⟩ ∧ encloses scope name = true ∧
    ∀ other id', t.keys[id']? = some ⟨kind, other⟩ → encloses other name = true →
      id' = id ∨ other.length < scope.length

/-- The id is that of the scope to which a name belongs: a service that encloses it; if there is
none, a namespace that does, or the global scope for a name without a parent. -/
def IsOwner (t : ScopeTable) (name : String) (id : Nat) : Prop :=
  IsLongestScope t .service name id ∨
    NoneEncloses (fun s => ⟨.service, s⟩ ∈ t.keys) name ∧
      if (parent? name).isSome then IsLongestScope t .nameSpace name id
      else id = 0 ∧ t.keys[id]? = some .global

/-- What holds of a table after a session. -/
structure Sound (history : History) (t : ScopeTable) : Prop where
  /-- The first scope is the global one, which has no name. -/
  first : t.keys.head? = some ⟨.global, ""⟩
  /-- No two scopes have the same kind and name. -/
  distinct : t.keys.Nodup
  /-- Whatever is permitted can be performed. -/
  progress : ∀ operation : Operation, operation.Permitted history →
    (t.perform operation).isSome = true
  /-- An id that was handed out denotes a scope, and whatever happens later the same one. -/
  stable : ∀ id ∈ issued history, ∃ key, t.keys[id]? = some key ∧
    ∀ later t', Session (later ++ history) t' → t'.keys[id]? = some key
  /-- A declaration hands out the id of what was declared. -/
  declared : ∀ key, ∃ t' id, t.perform (.declare key) = some (t', .scope (some id)) ∧
    t'.keys[id]? = some key
  /-- The longest enclosing scope of a kind is found if any encloses the name. -/
  enclosing : ∀ kind name, ∃ found, t.perform (.enclosing kind name) = some (t, .scope found) ∧
    (found = none → NoneEncloses (fun m => ⟨kind, m⟩ ∈ t.keys) name) ∧
    ∀ id, found = some id → IsLongestScope t kind name id
  /-- The owner of a name is the scope to which it belongs; asked again at once, the table replies
  the same and does not change. -/
  owner : ∀ name, ∃ t' id, t.perform (.ownerFor name) = some (t', .scope (some id)) ∧
    IsOwner t' name id ∧ t'.perform (.ownerFor name) = some (t', .scope (some id))
  /-- A name that was never inserted is not found. -/
  missing : ∀ name, lastInsert name history = none →
    t.perform (.lookUp name) = some (t, .found none none)
  /-- Any other is found in the scope into which it was last inserted, as it was inserted. -/
  found : ∀ name id definition, lastInsert name history = some (id, definition) →
    ∃ scope, t.scopes[id]? = some scope ∧
      t.perform (.lookUp name) = some (t, .found (some scope) (some definition))

/-! ### The longest scope and the owner -/

/-- A name is longer than what encloses it. -/
theorem length_lt_of_encloses {a b : String} (h : encloses a b = true) : a.length < b.length := by
  have hlength := ((encloses_iff a b).1 h).2.length_le
  rw [List.length_append, List.length_singleton, String.length_toList,
    String.length_toList] at hlength
  exact hlength

/-- The part before the last dot is the longest of the names that enclose a name. -/
theorem isLongestEnclosing_parent? {names : String → Prop} {name parent : String}
    (hp : parent? name = some parent) (hn : names parent) :
    IsLongestEnclosing names name parent := by
  refine ⟨hn, encloses_of_parent? hp, fun other _ ho => ?_⟩
  rcases eq_or_encloses_parent? hp ho with rfl | ho
  · exact Nat.le_refl _
  · exact Nat.le_of_lt (length_lt_of_encloses ho)

namespace ScopeTable

variable {t : ScopeTable}

/-- The longest of the enclosing names is that of one scope, and the others are shorter. -/
theorem isLongestScope_idOf (hd : t.keys.Nodup) {kind : ScopeKind} {name longest : String}
    (h : IsLongestEnclosing (fun m => ⟨kind, m⟩ ∈ t.keys) name longest) :
    IsLongestScope t kind name (t.idOf ⟨kind, longest⟩) := by
  obtain ⟨hmem, hencloses, hlongest⟩ := h
  refine ⟨longest, getElem?_idOf hmem, hencloses, fun other id hid ho => ?_⟩
  rcases encloses_chain ho hencloses with rfl | hshorter | hlonger
  · exact Or.inl (eq_idOf hd hid)
  · exact Or.inr (length_lt_of_encloses hshorter)
  · have hle := hlongest other (List.mem_of_getElem? hid) ho
    exact absurd (length_lt_of_encloses hlonger) (Nat.not_lt.2 hle)

/-- A name belongs to the scope that was declared for it. -/
theorem ownerOf_declare_ownerOf (hg : .global ∈ t.keys) (name : String) :
    (t.declare (t.ownerOf name)).ownerOf name = t.ownerOf name := by
  generalize hkey : t.ownerOf name = key
  have hbelongs := hkey ▸ t.belongsTo_ownerOf name
  cases hbelongs with
  | service longest => rw [declare_of_mem longest.1, hkey]
  | nameSpace _ longest => rw [declare_of_mem longest.1, hkey]
  | global => rw [declare_of_mem hg, hkey]
  | @parent parent noService _ hp =>
    -- the new namespace is the longest that can enclose the name, and no service is new
    refine (belongsTo_ownerOf _ name).unique (.nameSpace (fun s hs => noService s ?_) ?_)
    · simpa [mem_keys_declare_iff] using hs
    · exact isLongestEnclosing_parent? hp (mem_keys_declare _ _)

/-- The owner of a name, once it is declared, is the scope to which the name belongs. -/
theorem isOwner_idOf (hd : t.keys.Nodup) (hf : t.keys.head? = some .global)
    (name : String) (hmem : t.ownerOf name ∈ t.keys) :
    IsOwner t name (t.idOf (t.ownerOf name)) := by
  generalize hkey : t.ownerOf name = key at hmem
  have hbelongs := hkey ▸ t.belongsTo_ownerOf name
  cases hbelongs with
  | service longest => exact Or.inl (isLongestScope_idOf hd longest)
  | nameSpace noService longest =>
    have hparent : (parent? name).isSome = true := by
      cases hp : parent? name with
      | none => exact absurd longest.2.1 (not_encloses_of_parent?_eq_none hp _)
      | some parent => rfl
    refine Or.inr ⟨noService, ?_⟩
    rw [if_pos hparent]
    exact isLongestScope_idOf hd longest
  | parent _ noNamespace hp => exact absurd (encloses_of_parent? hp) (noNamespace _ hmem)
  | global noService _ hp =>
    have hzero : t.keys[0]? = some .global := by rw [← List.head?_eq_getElem?, hf]
    refine Or.inr ⟨noService, ?_⟩
    rw [hp]
    exact ⟨(eq_idOf hd hzero).symm, eq_idOf hd hzero ▸ hzero⟩

end ScopeTable

/-! ### Every session -/

namespace Consistent

open ScopeTable

variable {history : History} {t : ScopeTable}

/-- Ids that were handed out are good for an insertion. -/
theorem isSome_perform (h : Consistent history t) {operation : Operation}
    (hp : operation.Permitted history) : (t.perform operation).isSome = true := by
  cases operation with
  | insert id name definition => simp [perform, List.getElem?_eq_getElem (h.valid id hp)]
  | declare key => rfl
  | globalScope => rfl
  | ownerFor name => rfl
  | enclosing kind name => rfl
  | lookUp name => rfl

/-- What is found as the enclosing scope is the longest, if there is any. -/
theorem enclosing (h : Consistent history t) (kind : ScopeKind) (name : String) :
    ((t.enclosing? kind name).map t.idOf = none →
        NoneEncloses (fun m => ⟨kind, m⟩ ∈ t.keys) name) ∧
      ∀ id, (t.enclosing? kind name).map t.idOf = some id → IsLongestScope t kind name id := by
  rcases t.enclosing?_spec kind name with ⟨hnone, hno⟩ | ⟨longest, hsome, hlongest⟩
  · rw [hnone]
    exact ⟨fun _ => hno, fun id hid => by cases hid⟩
  · rw [hsome]
    refine ⟨fun hid => (by cases hid), fun id hid => ?_⟩
    obtain rfl := Option.some.inj hid
    exact isLongestScope_idOf h.distinct hlongest

/-- A name belongs to the owner that is handed out for it. -/
theorem isOwner (h : Consistent history t) (name : String) :
    IsOwner (t.declare (t.ownerOf name)) name
      ((t.declare (t.ownerOf name)).idOf (t.ownerOf name)) := by
  have hdeclared : Consistent ((.ownerFor name, _) :: history) (t.declare (t.ownerOf name)) :=
    h.step rfl
  have howner := isOwner_idOf hdeclared.distinct hdeclared.first name
  rw [ownerOf_declare_ownerOf h.global_mem name] at howner
  exact howner (t.mem_keys_declare (t.ownerOf name))

/-- A name is looked up in the scope into which it was last inserted. -/
theorem scopeOf?_eq (h : Consistent history t) {name : String} {id : Nat} {definition : Definition}
    (hlast : lastInsert name history = some (id, definition)) :
    ∃ scope, t.scopes[id]? = some scope ∧ t.scopeOf? name = some scope ∧
      t.definition? name = some definition := by
  obtain ⟨scope, hs, howner, hdefinition⟩ : Holds t name (some (id, definition)) :=
    hlast ▸ h.holds name
  have hscope : t.scopeOf? name = some scope := by
    rw [scopeOf?, howner]
    exact scope?_of_mem h.distinct (List.mem_of_getElem? hs)
  exact ⟨scope, hs, hscope, by rw [definition?, hscope, Option.bind_some, hdefinition]⟩

end Consistent

namespace Session

open ScopeTable

variable {history : History} {t : ScopeTable}

/-- **Every session keeps the table sound**: its scopes are distinct and stay where they are, an
enclosing scope and an owner are the longest, and a name is found as it was last inserted. -/
theorem sound (h : Session history t) : Sound history t := by
  have hc := h.consistent
  constructor
  case first => exact hc.first
  case distinct => exact hc.distinct
  case progress => exact fun operation hpermitted => hc.isSome_perform hpermitted
  case stable =>
    intro id hid
    have hlt := hc.valid id hid
    refine ⟨t.keys[id], List.getElem?_eq_getElem hlt, fun later t' h' => ?_⟩
    obtain ⟨more, hmore⟩ := h.keys_later h'
    rw [← hmore, List.getElem?_append_left hlt, List.getElem?_eq_getElem hlt]
  case declared => exact fun key => ⟨_, _, rfl, getElem?_idOf (t.mem_keys_declare key)⟩
  case enclosing => exact fun kind name => ⟨_, rfl, hc.enclosing kind name⟩
  case owner =>
    intro name
    refine ⟨_, _, rfl, hc.isOwner name, ?_⟩
    -- the owner is there now, so that it is neither another one nor declared again
    rw [perform, ownerOf_declare_ownerOf hc.global_mem name,
      declare_of_mem (t.mem_keys_declare (t.ownerOf name))]
  case missing =>
    intro name hlast
    have howner : t.owners.get? name = none := by
      have hholds := hc.holds name
      rwa [hlast] at hholds
    simp [perform, definition?, scopeOf?, howner]
  case found =>
    intro name id definition hlast
    obtain ⟨scope, hs, hscope, hdefinition⟩ := hc.scopeOf?_eq hlast
    exact ⟨scope, hs, by rw [perform, hscope, hdefinition]⟩

/-- What happens when a definition is inserted, and inserted again for a service that is declared
only then. -/
def movedHistory : History :=
  let named (name : String) : Definition := .typeAlias ⟨.type (some name), false⟩
  [(.lookUp "a.b.X", .found (some ⟨⟨.service, "a"⟩, Table.empty.insert "a.b.X" (named "cds.Date")⟩)
      (some (named "cds.Date"))),
    (.insert 2 "a.b.X" (named "cds.Date"), .inserted),
    (.enclosing .nameSpace "a.b.X", .scope (some 1)),
    (.ownerFor "a.b.X", .scope (some 2)),
    (.declare ⟨.service, "a"⟩, .scope (some 2)),
    (.insert 1 "a.b.X" (named "cds.Time"), .inserted),
    (.ownerFor "a.b.X", .scope (some 1))]

/-- The table with that history is sound. -/
theorem sound_moved : ∃ t, Session movedHistory t ∧ Sound movedHistory t := by
  obtain ⟨t, h⟩ : ∃ t, Session movedHistory t :=
    ⟨_, .step (.step (.step (.step (.step (.step (.step .start trivial rfl) (by decide) rfl)
      trivial rfl) trivial rfl) trivial rfl) (by decide) rfl) trivial rfl⟩
  exact ⟨t, h, sound h⟩

end Session

end SchemaTypings.Schema
