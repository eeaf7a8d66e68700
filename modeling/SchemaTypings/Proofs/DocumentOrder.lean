import SchemaTypings.Proofs.Enclosing
import SchemaTypings.Proofs.Lookup

/-!
# Owners and the order of the document

Which definitions keep their owner when the entries of a schema are rearranged.  Services and the
global scope own the same definitions in every order.  A namespace is made for the first definition
that needs one, so the order decides which namespaces there are: two orders may give a definition
two namespaces, of which one encloses the other (`scopeOf?_perm`, `exists_owner_by_order`).  No
rearrangement changes an owner exactly if, among the definitions that no service takes, no parent
encloses a parent (`ownersFixed_iff`).
-/

namespace SchemaTypings.Schema

open SchemaTypings.Json SchemaTypings.Name ScopeTable

/-! ### Where namespaces come from -/

namespace Placed

variable {services : List String} {placed : List (String × Definition)} {t : ScopeTable}

/-- A namespace is named like the parent of a definition that no service takes. -/
theorem exists_founder (h : Placed services placed t) {m : String}
    {before after : List (String × Definition)} {d : String × Definition}
    (hp : placed = before ++ d :: after) (ho : t.owners.get? d.1 = some ⟨.nameSpace, m⟩) :
    ∃ e ∈ placed, NoneEncloses (· ∈ services) e.1 ∧ parent? e.1 = some m := by
  -- by induction on what was placed before: the owner was made for the first that it owns
  induction hn : before.length using Nat.strongRecOn generalizing before d after with
  | _ n ih =>
    obtain ⟨key, ho', hbelongs⟩ := h.belongs before d after hp
    obtain rfl : key = ⟨.nameSpace, m⟩ := Option.some.inj (ho'.symm.trans ho)
    cases hbelongs with
    | parent noService _ hparent => exact ⟨d, hp ▸ by simp, noService, hparent⟩
    | nameSpace _ longest =>
      obtain ⟨e, he, hoe⟩ := longest.1
      obtain ⟨first, rest, rfl⟩ := List.append_of_mem he
      have hlength : first.length < n := by
        rw [← hn, List.length_append, List.length_cons]
        omega
      have hearlier : placed = first ++ e :: (rest ++ d :: after) := by
        rw [hp, List.append_assoc, List.cons_append]
      exact ih first.length hlength hearlier hoe rfl

/-- What no service takes is owned by its parent, by a namespace that encloses the parent, or, if
it has no parent, by the global scope. -/
theorem owner_cases (h : Placed services placed t) {d : String × Definition} (hd : d ∈ placed)
    (hno : NoneEncloses (· ∈ services) d.1) :
    (parent? d.1 = none ∧ t.owners.get? d.1 = some .global) ∨
      ∃ p m, parent? d.1 = some p ∧ t.owners.get? d.1 = some ⟨.nameSpace, m⟩ ∧
        encloses m d.1 = true ∧ (m = p ∨ encloses m p = true) := by
  obtain ⟨before, after, hp⟩ := List.append_of_mem hd
  obtain ⟨key, ho, hbelongs⟩ := h.belongs before d after hp
  cases hbelongs with
  | service longest => exact absurd longest.2.1 (hno _ longest.1)
  | global _ _ hparent => exact Or.inl ⟨hparent, ho⟩
  | parent _ _ hparent =>
    exact Or.inr ⟨_, _, hparent, ho, encloses_of_parent? hparent, Or.inl rfl⟩
  | @nameSpace m _ longest =>
    have hm : encloses m d.1 = true := longest.2.1
    cases hparent : parent? d.1 with
    | none => exact absurd hm (not_encloses_of_parent?_eq_none hparent m)
    | some p => exact Or.inr ⟨p, m, rfl, ho, hm, eq_or_encloses_parent? hparent hm⟩

/-- What a service takes is owned by the longest that encloses it. -/
theorem owner_of_service (h : Placed services placed t) {d : String × Definition} (hd : d ∈ placed)
    (hserved : ¬ NoneEncloses (· ∈ services) d.1) :
    ∃ s, t.owners.get? d.1 = some ⟨.service, s⟩ ∧ IsLongestEnclosing (· ∈ services) d.1 s := by
  obtain ⟨before, after, hp⟩ := List.append_of_mem hd
  obtain ⟨key, ho, hbelongs⟩ := h.belongs before d after hp
  cases hbelongs with
  | service longest => exact ⟨_, ho, longest⟩
  | nameSpace noService _ => exact absurd noService hserved
  | parent noService _ _ => exact absurd noService hserved
  | global noService _ _ => exact absurd noService hserved

/-- The first definition is owned by its parent. -/
theorem owner_head (h : Placed services placed t) {d : String × Definition}
    {rest : List (String × Definition)} (hplaced : placed = d :: rest)
    (hno : NoneEncloses (· ∈ services) d.1) {p : String} (hparent : parent? d.1 = some p) :
    t.owners.get? d.1 = some ⟨.nameSpace, p⟩ := by
  obtain ⟨key, ho, hbelongs⟩ := h.belongs [] d rest hplaced
  have hparentless : BelongsTo (· ∈ services)
      (fun m => ∃ e ∈ ([] : List (String × Definition)), t.owners.get? e.1 = some ⟨.nameSpace, m⟩)
      d.1 ⟨.nameSpace, p⟩ :=
    .parent hno (fun m hm => by simp at hm) hparent
  rw [ho, hbelongs.unique hparentless]

/-- The second definition is owned by the parent of the first if that encloses it. -/
theorem owner_second (h : Placed services placed t) {d e : String × Definition}
    {rest : List (String × Definition)} (hplaced : placed = d :: e :: rest)
    (hd : NoneEncloses (· ∈ services) d.1) (he : NoneEncloses (· ∈ services) e.1) {p : String}
    (hparent : parent? d.1 = some p) (hpe : encloses p e.1 = true) :
    t.owners.get? e.1 = some ⟨.nameSpace, p⟩ := by
  have hfirst := h.owner_head hplaced hd hparent
  obtain ⟨key, ho, hbelongs⟩ := h.belongs [d] e rest hplaced
  -- the only namespace made so far is that of the first definition
  have honly (m : String) : (∃ f ∈ [d], t.owners.get? f.1 = some ⟨.nameSpace, m⟩) ↔ m = p := by
    simp [hfirst, eq_comm]
  have hlongest : IsLongestEnclosing
      (fun m => ∃ f ∈ [d], t.owners.get? f.1 = some ⟨.nameSpace, m⟩) e.1 p := by
    refine ⟨(honly p).2 rfl, hpe, fun other hother _ => ?_⟩
    exact Nat.le_of_eq (congrArg String.length ((honly other).1 hother))
  rw [ho, hbelongs.unique (.nameSpace he hlongest)]

end Placed

/-! ### Definitions that no service takes -/

/-- The name is that of a definition of the schema, and no service encloses it. -/
def IsUnserved (entries : Members) (name : String) : Prop :=
  (∃ raw, (name, raw) ∈ entries ∧ isRetained (name, raw) = true) ∧
    NoneEncloses (· ∈ serviceNames entries) name

/-- Among the definitions that no service takes no parent encloses a parent. -/
def ParentsApart (entries : Members) : Prop :=
  ∀ a b p q, IsUnserved entries a → IsUnserved entries b → parent? a = some p →
    parent? b = some q → ¬ encloses p q = true

/-- The same services are there in every order. -/
theorem isService_perm {entries entries' : Members} (h : entries.Perm entries') :
    (· ∈ serviceNames entries) = (· ∈ serviceNames entries') :=
  funext fun _ => propext (serviceNames_perm h).mem_iff

theorem isUnserved_perm {entries entries' : Members} (h : entries.Perm entries') (name : String) :
    IsUnserved entries name ↔ IsUnserved entries' name := by
  rw [IsUnserved, IsUnserved, isService_perm h]
  simp only [h.mem_iff]

theorem ParentsApart.perm {entries entries' : Members} (happart : ParentsApart entries)
    (h : entries.Perm entries') : ParentsApart entries' := by
  intro a b p q ha hb
  exact happart a b p q ((isUnserved_perm h a).2 ha) ((isUnserved_perm h b).2 hb)

/-- The scope table gives a definition the same owner as every table of a schema with the same
entries in another order. -/
def OwnersFixed (definitions : Table Value) (t : ScopeTable) : Prop :=
  ∀ schema' (definitions' : Table Value) t', rawDefinitions schema' = .ok definitions'.entries →
    definitions.entries.Perm definitions'.entries → ofSchema schema' = .ok t' →
      ∀ name, (t.scopeOf? name).map Scope.key = (t'.scopeOf? name).map Scope.key

/-- Owners that two orders may give to one definition: equal ones, or namespaces of which one
encloses the other. -/
inductive OwnersAgree : Option ScopeKey → Option ScopeKey → Prop where
  | same (owner : Option ScopeKey) : OwnersAgree owner owner
  | nested {m m' : String} (encloses_eq : encloses m m' = true ∨ encloses m' m = true) :
      OwnersAgree (some ⟨.nameSpace, m⟩) (some ⟨.nameSpace, m'⟩)

theorem OwnersAgree.eq_of_not_nameSpace {owner owner' : Option ScopeKey}
    (h : OwnersAgree owner owner') (hne : ∀ m, owner ≠ some ⟨.nameSpace, m⟩) : owner = owner' := by
  cases h with
  | same => rfl
  | @nested m _ _ => exact absurd rfl (hne m)

/-! ### Owners in two orders -/

/-- The names that are kept of a schema are those of its retained entries. -/
theorem mem_kept_iff {entries : Members}
    (hmade : ∀ entry ∈ entries, ∃ made, readDefinition entry.1 entry.2 = .ok made)
    (name : String) :
    (∃ definition, (name, definition) ∈
        entries.filterMap (Table.keptEntry readDefinition)) ↔
      ∃ raw, (name, raw) ∈ entries ∧ isRetained (name, raw) = true := by
  simp only [List.mem_filterMap]
  constructor
  · rintro ⟨definition, ⟨n, raw⟩, hm, hk⟩
    rw [Table.keptEntry] at hk
    split at hk
    · next value hread =>
      cases hk
      exact ⟨raw, hm, by rw [← isSome_readDefinition hread]; rfl⟩
    · cases hk
  · rintro ⟨raw, hm, hr⟩
    obtain ⟨made, hread⟩ := hmade _ hm
    rw [← isSome_readDefinition hread] at hr
    obtain ⟨definition, rfl⟩ := Option.isSome_iff_exists.1 hr
    exact ⟨definition, (name, raw), hm, by simp [Table.keptEntry, hread]⟩

section Accepted

variable {schema schema' : Value} {definitions definitions' : Table Value} {t t' : ScopeTable}

/-- In every order a definition has the same owner, or a namespace that encloses the other or is
enclosed by it. -/
theorem scopeOf?_perm (hraw : rawDefinitions schema = .ok definitions.entries)
    (hraw' : rawDefinitions schema' = .ok definitions'.entries)
    (hperm : definitions.entries.Perm definitions'.entries) (ht : ofSchema schema = .ok t)
    (ht' : ofSchema schema' = .ok t') (name : String) :
    OwnersAgree ((t.scopeOf? name).map Scope.key) ((t'.scopeOf? name).map Scope.key) := by
  have h := placed_keptEntry hraw ht
  have h' := placed_keptEntry hraw' ht'
  have hkept := hperm.filterMap (Table.keptEntry readDefinition)
  have hservices := isService_perm hperm
  rw [h.key_scopeOf?, h'.key_scopeOf?]
  cases ho : t.owners.get? name with
  | none =>
    have hname : name ∉ t'.owners.keys := by
      rw [h'.owners_keys, ← (hkept.map Prod.fst).mem_iff, ← h.owners_keys]
      exact (Table.find_eq_none_iff name _).1 ho
    have ho' : t'.owners.get? name = none := (Table.find_eq_none_iff name _).2 hname
    rw [ho']
    exact .same none
  | some key =>
    obtain ⟨definition, hd⟩ := h.exists_of_owner ho
    have hd' := hkept.mem_iff.1 hd
    by_cases hserved : NoneEncloses (· ∈ serviceNames definitions.entries) name
    · -- both owners are the global scope, or both are namespaces that enclose the name
      rcases h.owner_cases hd hserved with ⟨hp, hg⟩ | ⟨p, m, hp, hm, henc, -⟩
      · rcases h'.owner_cases hd' (hservices ▸ hserved) with ⟨-, hg'⟩ | ⟨p', m', hp', -, -, -⟩
        · rw [← ho, hg, hg']
          exact .same _
        · cases hp.symm.trans hp'
      · rcases h'.owner_cases hd' (hservices ▸ hserved) with ⟨hp', -⟩ | ⟨p', m', -, hm', henc', -⟩
        · cases hp.symm.trans hp'
        · rw [← ho, hm, hm']
          rcases encloses_chain henc henc' with rfl | hchain
          · exact .same _
          · exact .nested hchain
    · obtain ⟨s, hs, hlongest⟩ := h.owner_of_service hd hserved
      obtain ⟨s', hs', hlongest'⟩ := h'.owner_of_service hd' (hservices ▸ hserved)
      rw [hservices] at hlongest
      rw [← ho, hs, hs', hlongest.unique hlongest']
      exact .same _

/-- With parents apart, what no service takes is owned by its parent. -/
theorem owner_of_parentsApart (hraw : rawDefinitions schema = .ok definitions.entries)
    (ht : ofSchema schema = .ok t) (happart : ParentsApart definitions.entries) {name p : String}
    (hname : IsUnserved definitions.entries name) (hp : parent? name = some p) :
    t.owners.get? name = some ⟨.nameSpace, p⟩ := by
  have h := placed_keptEntry hraw ht
  have hmade := (exists_ofSchema_iff hraw).1 ⟨t, ht⟩
  obtain ⟨definition, hd⟩ := (mem_kept_iff hmade name).2 hname.1
  rcases h.owner_cases hd hname.2 with ⟨hp', -⟩ | ⟨p', m, hp', hm, -, hmp⟩
  · cases hp.symm.trans hp'
  · obtain rfl : p = p' := Option.some.inj (hp.symm.trans hp')
    rcases hmp with rfl | hmp
    · exact hm
    · -- the namespace was made for a definition whose parent would enclose this one
      exfalso
      obtain ⟨before, after, hplaced⟩ := List.append_of_mem hd
      obtain ⟨e, he, hno, hparent⟩ := h.exists_founder hplaced hm
      have hunserved : IsUnserved definitions.entries e.1 :=
        ⟨(mem_kept_iff hmade e.1).1 ⟨e.2, he⟩, hno⟩
      exact happart e.1 name m p hunserved hname hparent hp hmp

/-! ### Two definitions in either order -/

/-- Two items of a list can be brought to its front. -/
theorem exists_perm_cons_cons {α : Type} {items : List α} {x y : α} (hx : x ∈ items)
    (hy : y ∈ items) (hne : x ≠ y) : ∃ rest, items.Perm (x :: y :: rest) := by
  obtain ⟨before, after, rfl⟩ := List.append_of_mem hx
  have hy' : y ∈ before ++ after := by
    rcases List.mem_append.1 hy with hb | ha
    · exact List.mem_append_left _ hb
    · exact List.mem_append_right _ ((List.mem_cons.1 ha).resolve_left (Ne.symm hne))
  obtain ⟨first, last, hrest⟩ := List.append_of_mem hy'
  refine ⟨first ++ last, List.perm_middle.trans (List.Perm.cons x ?_)⟩
  rw [hrest]
  exact List.perm_middle

/-- With two retained entries in front the schema is accepted, and their definitions are placed
first; owners that no order changes are the same as before. -/
theorem exists_placed_first (hraw : rawDefinitions schema = .ok definitions.entries)
    (ht : ofSchema schema = .ok t) (hfixed : OwnersFixed definitions t) {x y : String × Value}
    {rest : Members} (hperm : definitions.entries.Perm (x :: y :: rest))
    (hx : isRetained x = true) (hy : isRetained y = true) :
    ∃ t' d e more, Placed (serviceNames (x :: y :: rest)) ((x.1, d) :: (y.1, e) :: more) t' ∧
      ∀ name, t.owners.get? name = t'.owners.get? name := by
  obtain ⟨front, hfront⟩ : ∃ front : Table Value, front.entries = x :: y :: rest :=
    ⟨⟨x :: y :: rest, (hperm.map Prod.fst).nodup definitions.distinct⟩, rfl⟩
  have hmade : ∀ entry ∈ front.entries, ∃ made, readDefinition entry.1 entry.2 = .ok made := by
    intro entry he
    rw [hfront, ← hperm.mem_iff] at he
    exact (exists_ofSchema_iff hraw).1 ⟨t, ht⟩ entry he
  obtain ⟨t', ht'⟩ := (exists_ofSchema_iff (rawDefinitions_schemaOf front)).2 hmade
  have hplaced := placed_keptEntry (rawDefinitions_schemaOf front) ht'
  have hreads := forall₂_keptEntry hmade
  rw [hfront] at hplaced hreads
  rw [List.filter_cons_of_pos hx, List.filter_cons_of_pos hy] at hreads
  generalize (x :: y :: rest).filterMap (Table.keptEntry readDefinition) = kept at hplaced hreads
  cases hreads with
  | @cons _ d _ _ hd hrest =>
    cases hrest with
    | @cons _ e _ more he _ =>
      obtain ⟨name, definition⟩ := d
      obtain ⟨name', definition'⟩ := e
      obtain rfl : name = x.1 := hd.1
      obtain rfl : name' = y.1 := he.1
      refine ⟨t', definition, definition', more, hplaced, fun n => ?_⟩
      have howner := hfixed _ front t' (rawDefinitions_schemaOf front) (hfront ▸ hperm) ht' n
      rwa [(placed_keptEntry hraw ht).key_scopeOf?, hplaced.key_scopeOf?] at howner

/-- If no order changes an owner, parents are apart: of two definitions the first would keep its
parent as its owner and hand it on to the second. -/
theorem parentsApart_of_ownersFixed (hraw : rawDefinitions schema = .ok definitions.entries)
    (ht : ofSchema schema = .ok t) (hfixed : OwnersFixed definitions t) :
    ParentsApart definitions.entries := by
  intro a b p q ha hb hp hq hpq
  obtain ⟨rawA, hmA, hrA⟩ := ha.1
  obtain ⟨rawB, hmB, hrB⟩ := hb.1
  have hne : p ≠ q := by
    rintro rfl
    exact not_encloses_self p hpq
  have hentries : ((a, rawA) : String × Value) ≠ (b, rawB) := by
    rintro ⟨⟩
    exact hne (Option.some.inj (hp.symm.trans hq))
  have hpb : encloses p b = true := encloses_trans hpq (encloses_of_parent? hq)
  obtain ⟨rest, hperm⟩ := exists_perm_cons_cons hmA hmB hentries
  have hperm' := hperm.trans (List.Perm.swap _ _ _)
  -- the namespace of the outer parent takes both definitions if it is made first
  obtain ⟨t₁, d₁, e₁, more₁, hplaced₁, howners₁⟩ :=
    exists_placed_first hraw ht hfixed hperm hrA hrB
  have houter := hplaced₁.owner_second rfl ((isUnserved_perm hperm a).1 ha).2
    ((isUnserved_perm hperm b).1 hb).2 hp hpb
  -- otherwise the inner one keeps its own
  obtain ⟨t₂, d₂, e₂, more₂, hplaced₂, howners₂⟩ :=
    exists_placed_first hraw ht hfixed hperm' hrB hrA
  have hinner := hplaced₂.owner_head rfl ((isUnserved_perm hperm' b).1 hb).2 hq
  rw [← howners₁] at houter
  rw [← howners₂, houter] at hinner
  cases hinner
  exact hne rfl

/-! ### When no order changes an owner -/

/-- What a namespace owns is taken by no service, and it has a parent. -/
theorem isUnserved_of_owner (hraw : rawDefinitions schema = .ok definitions.entries)
    (ht : ofSchema schema = .ok t) {name m : String}
    (ho : t.owners.get? name = some ⟨.nameSpace, m⟩) :
    IsUnserved definitions.entries name ∧ ∃ p, parent? name = some p := by
  have h := placed_keptEntry hraw ht
  have hmade := (exists_ofSchema_iff hraw).1 ⟨t, ht⟩
  obtain ⟨definition, hd⟩ := h.exists_of_owner ho
  by_cases hserved : NoneEncloses (· ∈ serviceNames definitions.entries) name
  · refine ⟨⟨(mem_kept_iff hmade name).1 ⟨definition, hd⟩, hserved⟩, ?_⟩
    rcases h.owner_cases hd hserved with ⟨-, hg⟩ | ⟨p, -, hp, -, -, -⟩
    · cases ho.symm.trans hg
    · exact ⟨p, hp⟩
  · obtain ⟨s, hs, -⟩ := h.owner_of_service hd hserved
    cases ho.symm.trans hs

/-- **Owners and the order of the document.**  Whatever the order, a definition has the same owner
or one of two namespaces nested in one another; and no rearrangement of the entries changes an
owner exactly if, among the definitions that no service takes, no parent encloses a parent. -/
theorem ownersFixed_iff (hraw : rawDefinitions schema = .ok definitions.entries)
    (ht : ofSchema schema = .ok t) :
    (∀ schema' (definitions' : Table Value) t', rawDefinitions schema' = .ok definitions'.entries →
      definitions.entries.Perm definitions'.entries → ofSchema schema' = .ok t' → ∀ name,
        OwnersAgree ((t.scopeOf? name).map Scope.key) ((t'.scopeOf? name).map Scope.key)) ∧
    (OwnersFixed definitions t ↔ ParentsApart definitions.entries) := by
  refine ⟨fun schema' definitions' t' hraw' hperm ht' => scopeOf?_perm hraw hraw' hperm ht ht',
    parentsApart_of_ownersFixed hraw ht, ?_⟩
  intro happart schema' definitions' t' hraw' hperm ht' name
  have hagree := scopeOf?_perm hraw hraw' hperm ht ht' name
  rw [(placed_keptEntry hraw ht).key_scopeOf?, (placed_keptEntry hraw' ht').key_scopeOf?]
    at hagree ⊢
  by_cases ho : ∃ m, t.owners.get? name = some ⟨.nameSpace, m⟩
  · obtain ⟨m, ho⟩ := ho
    obtain ⟨hunserved, p, hp⟩ := isUnserved_of_owner hraw ht ho
    rw [owner_of_parentsApart hraw ht happart hunserved hp,
      owner_of_parentsApart hraw' ht' (happart.perm hperm)
        ((isUnserved_perm hperm name).1 hunserved) hp]
  · exact hagree.eq_of_not_nameSpace fun m hm => ho ⟨m, hm⟩

end Accepted

/-- An alias of texts. -/
def textAlias : Value := .object [("kind", .string "type"), ("type", .string "cds.String")]

/-- Definitions of two namespaces and a member of a service, which is declared last. -/
def sideBySide : Table Value where
  entries := [("a.X", textAlias), ("b.c.Y", textAlias), ("a.S.Z", textAlias),
    ("a.S", .object [("kind", .string "service")])]
  distinct := by decide

/-- No order of the definitions side by side changes an owner: the parent of `a.S.Z` would be
enclosed by that of `a.X`, but a service takes it. -/
theorem ownersFixed_sideBySide :
    ∃ t, ofSchema (schemaOf sideBySide) = .ok t ∧ OwnersFixed sideBySide t := by
  have howners : (ofSchema (schemaOf sideBySide)).toOption.map (fun t => t.owners.entries) =
      some [("a.X", ⟨.nameSpace, "a"⟩), ("b.c.Y", ⟨.nameSpace, "b.c"⟩),
        ("a.S.Z", ⟨.service, "a.S"⟩)] := by decide
  obtain ⟨t, ht, -⟩ := exists_ok_of_map howners
  refine ⟨t, ht, (ownersFixed_iff (rawDefinitions_schemaOf sideBySide) ht).2.2 ?_⟩
  have hservices : serviceNames sideBySide.entries = ["a.S"] := by decide
  have hunserved (name : String) (h : IsUnserved sideBySide.entries name) :
      name = "a.X" ∨ name = "b.c.Y" := by
    obtain ⟨⟨raw, hm, hr⟩, hno⟩ := h
    rw [hservices] at hno
    simp only [sideBySide, List.mem_cons, Prod.mk.injEq, List.not_mem_nil, or_false] at hm
    rcases hm with ⟨rfl, -⟩ | ⟨rfl, -⟩ | ⟨rfl, -⟩ | ⟨rfl, rfl⟩
    · exact Or.inl rfl
    · exact Or.inr rfl
    · exact absurd (by decide) (hno "a.S" List.mem_cons_self)
    · exact absurd hr (by decide)
  intro a b p q ha hb hp hq
  rcases hunserved a ha with rfl | rfl <;> rcases hunserved b hb with rfl | rfl <;> cases hp <;>
    cases hq <;> decide

/-- Definitions of an outer and an inner namespace, the outer one first. -/
def outerFirst : Table Value where
  entries := [("a.X", textAlias), ("a.b.Y", textAlias)]
  distinct := by decide

/-- The same definitions, the inner one first. -/
def innerFirst : Table Value where
  entries := outerFirst.entries.reverse
  distinct := by decide

/-- The order decides: `a.b.Y` is owned by the namespace `a` if `a.X` comes before it and by a
namespace of its own if it comes first. -/
theorem exists_owner_by_order : outerFirst.entries.Perm innerFirst.entries ∧
    ∃ t t', ofSchema (schemaOf outerFirst) = .ok t ∧ ofSchema (schemaOf innerFirst) = .ok t' ∧
      (t.scopeOf? "a.b.Y").map Scope.key = some ⟨.nameSpace, "a"⟩ ∧
      (t'.scopeOf? "a.b.Y").map Scope.key = some ⟨.nameSpace, "a.b"⟩ := by
  have houter : (ofSchema (schemaOf outerFirst)).toOption.map
      (fun t => (t.scopeOf? "a.b.Y").map Scope.key) = some (some ⟨.nameSpace, "a"⟩) := by decide
  have hinner : (ofSchema (schemaOf innerFirst)).toOption.map
      (fun t => (t.scopeOf? "a.b.Y").map Scope.key) = some (some ⟨.nameSpace, "a.b"⟩) := by decide
  obtain ⟨t, ht, ho⟩ := exists_ok_of_map houter
  obtain ⟨t', ht', ho'⟩ := exists_ok_of_map hinner
  exact ⟨(List.reverse_perm _).symm, t, t', ht, ht', ho, ho'⟩

end SchemaTypings.Schema
