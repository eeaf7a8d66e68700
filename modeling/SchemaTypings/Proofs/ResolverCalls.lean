import SchemaTypings.Proofs.ImportNames

/-!
# Sequences of calls

A resolver serves one call after another and keeps what it has collected.  `Orderly` is what holds
of the imports after every sequence of calls; a call only adds to what was collected, and repeated
after whatever other calls it gives the same answer and imports nothing: `serve_orderly`.  How far a
chain of element references is followed does not matter here.
-/

namespace SchemaTypings.Generation

open SchemaTypings.Name SchemaTypings.Schema SchemaTypings.Typing

/-! ### Calls and answers -/

/-- What a resolver can be asked for. -/
inductive Call where
  | typeName (name : String)
  | typeRef (type : Option TypeRef)
  | element (owner field : String) (element : Element)
  | target (name : String) (many : Bool)
  | inclusion (name : String)
  | foreignKeys (field : String) (element : Element) (separator : String)

/-- What a resolver can answer. -/
inductive Answer where
  | type (type : TypeExpr)
  | inclusion (found : Option (String × Entity))
  | properties (made : List Property)

/-- Whether an answer has nothing in it. -/
def Answer.isNothing : Answer → Bool
  | type _ => false
  | inclusion found => found.isNone
  | properties made => made.isEmpty

namespace Resolver

/-- Serves a call. -/
def serve (r : Resolver) : Call → Resolving Answer
  | .typeName name => do return .type (← r.typeName name)
  | .typeRef type => do return .type (← r.typeRef type)
  | .element owner field element => do return .type (← r.element owner field element)
  | .target name many => do return .type (← r.target name many)
  | .inclusion name => do return .inclusion (← r.resolveInclude name)
  | .foreignKeys field element separator => do
    return .properties (← r.foreignKeys field element separator)

/-- Serves calls in order. -/
def serveAll (r : Resolver) : List Call → Resolving (List Answer)
  | [] => return []
  | call :: rest => do
    let answer ← r.serve call
    let more ← r.serveAll rest
    return answer :: more

/-- What is collected after calls. -/
def afterCalls (r : Resolver) (c : Collected) (calls : List Call) : Collected :=
  ((r.serveAll calls).run c).2

end Resolver

/-! ### Orderly imports -/

/-- The imports of a resolver are in order. -/
structure Orderly (r : Resolver) (c : Collected) : Prop where
  /-- An identifier of a namespace is imported once. -/
  once : (c.imports.map fun i => (i.namespaceName, i.identifier)).Nodup
  /-- Nothing is imported from the namespace of the file itself. -/
  foreign : ∀ i ∈ c.imports, i.namespaceName ≠ r.namespaceName
  /-- The names taken are the local names of the imports. -/
  taken : ∀ name, name ∈ c.taken ↔ ∃ i ∈ c.imports, i.localName = name
  /-- An import goes by its identifier, or by its longer name if that was in use. -/
  chosen : Chosen r.localNames c.imports

/-- The second has collected what the first has, and then more. -/
structure Collected.Extends (c' c : Collected) : Prop where
  imports : c.imports <+: c'.imports
  warnings : c.warnings <+: c'.warnings
  /-- What is imported keeps its local name. -/
  names : ∀ namespaceName identifier localName,
    c.localName? namespaceName identifier = some localName →
      c'.localName? namespaceName identifier = some localName

namespace Resolver

variable {r : Resolver} {c : Collected}

theorem orderly_none (r : Resolver) : Orderly r .none where
  once := List.nodup_nil
  foreign _ h := absurd h List.not_mem_nil
  taken name := by simp [Collected.none]
  chosen before i after h := by simp [Collected.none] at h

/-- A step keeps imports in order. -/
theorem orderly_record (h : Orderly r c) (event : Event) : Orderly r (r.record c event) where
  once := by
    cases event with
    | warning w => exact h.once
    | mention m =>
      rw [record]
      split
      · exact h.once
      · next hl =>
        -- an import with this address would have been found
        have hnew : (r.locate m) ∉ c.imports.map fun i => (i.namespaceName, i.identifier) := by
          intro hm
          obtain ⟨i, hi, haddress⟩ := List.mem_map.1 hm
          have hnone := (not_linked_iff.1 hl).2
          rw [Collected.localName?, Option.map_eq_none_iff, List.find?_eq_none] at hnone
          exact hnone i hi (by simp [← haddress])
        rw [Collected.addImport, List.map_append, List.nodup_append]
        refine ⟨h.once, List.nodup_singleton _, fun a ha b hb hab => ?_⟩
        rw [hab, List.mem_singleton.1 hb] at ha
        exact hnew ha
  foreign := by
    cases event with
    | warning w => exact h.foreign
    | mention m =>
      rw [record]
      split
      · exact h.foreign
      · next hl =>
        intro i hi
        rcases List.mem_append.1 hi with hi | hi
        · exact h.foreign i hi
        · rw [List.mem_singleton.1 hi]
          exact (not_linked_iff.1 hl).1
  taken name := by rw [Collected.taken_eq, List.mem_map]
  chosen := chosen_record h.chosen event

/-- A run keeps imports in order. -/
theorem orderly_after (h : Orderly r c) (events : List Event) : Orderly r (r.after c events) := by
  induction events generalizing c with
  | nil => exact h
  | cons event rest ih => exact ih (orderly_record h event)

theorem extends_after (c : Collected) (events : List Event) : (r.after c events).Extends c := by
  obtain ⟨imports, warnings, hi, hw, -⟩ := exists_added_after (r := r) c events
  exact ⟨⟨imports, hi.symm⟩, ⟨warnings, hw.symm⟩, fun _ _ _ hname => localName?_after hname events⟩

/-- Where all that is mentioned is linked already, nothing is imported. -/
theorem imports_after_of_linked {events : List Event}
    (h : ∀ m, .mention m ∈ events → r.Linked c m) : (r.after c events).imports = c.imports := by
  induction events generalizing c with
  | nil => rfl
  | cons event rest ih =>
    have hone : (r.record c event).imports = c.imports := by
      cases event with
      | warning w => rfl
      | mention m => rw [record, if_pos (h m List.mem_cons_self)]
    have hrest : ∀ m, .mention m ∈ rest → r.Linked (r.record c event) m := fun m hm =>
      (h m (List.mem_cons_of_mem _ hm)).after [event]
    rw [after_cons, ih hrest, hone]

/-! ### Calls follow events -/

theorem mention_not_mem_of_namedProperties_eq_nil {nameOf : Mention → String}
    {properties : List PropertySketch} (h : namedProperties nameOf properties = []) (m : Mention) :
    .mention m ∉ propertyEvents properties := by
  induction properties with
  | nil => exact List.not_mem_nil
  | cons property rest ih =>
    cases property with
    | property name optional type => cases h
    | missing cause => simpa [propertyEvents, PropertySketch.events] using ih h

/-- A call follows events, and mentions nothing if its answer has nothing in it. -/
theorem exists_follows_serve (r : Resolver) (call : Call) : ∃ events value,
    r.Follows (r.serve call) events value ∧
      ∀ nameOf, (value nameOf).isNothing = true → ∀ m, .mention m ∉ events := by
  cases call with
  | typeName name => exact ⟨_, _, (r.draftsType_typeName name).map Answer.type,
      fun _ h => absurd h Bool.false_ne_true⟩
  | typeRef type => exact ⟨_, _, (r.draftsType_typeRef type).map Answer.type,
      fun _ h => absurd h Bool.false_ne_true⟩
  | element owner field element =>
    exact ⟨_, _, (r.draftsType_element owner field element).map Answer.type,
      fun _ h => absurd h Bool.false_ne_true⟩
  | target name many =>
    exact ⟨_, _, ((r.draftsType_referenceOr name _).arrayIf many).map Answer.type,
      fun _ h => absurd h Bool.false_ne_true⟩
  | inclusion name =>
    refine ⟨_, _, (r.follows_resolveInclude name).map Answer.inclusion, fun nameOf hnothing m => ?_⟩
    have hnone : r.index.catalogue.entity? name = none := by
      simpa [Answer.isNothing] using hnothing
    simp [Catalogue.includes, hnone]
  | foreignKeys field element separator =>
    refine ⟨_, _, (r.draftsProperties_foreignKeys field element separator).map Answer.properties,
      fun nameOf hnothing => ?_⟩
    exact mention_not_mem_of_namedProperties_eq_nil (List.isEmpty_iff.1 hnothing)

/-- What is collected after calls is what is collected after events. -/
theorem exists_follows_serveAll (r : Resolver) (calls : List Call) :
    ∃ events value, r.Follows (r.serveAll calls) events value := by
  induction calls with
  | nil => exact ⟨_, _, follows_pure []⟩
  | cons call rest ih =>
    obtain ⟨events, value, hcall, -⟩ := exists_follows_serve r call
    obtain ⟨more, values, hrest⟩ := ih
    exact ⟨_, _, hcall.map₂ List.cons hrest⟩

theorem exists_afterCalls_eq (r : Resolver) (calls : List Call) :
    ∃ events, ∀ c, r.afterCalls c calls = r.after c events := by
  obtain ⟨events, value, h⟩ := exists_follows_serveAll r calls
  exact ⟨events, fun c => by rw [afterCalls, h.run c]⟩

/-- **What a step returns it returns again after any further events, and imports nothing.** -/
theorem Follows.run_again {α : Type} {step : Resolving α} {events : List Event}
    {value : (Mention → String) → α} (h : r.Follows step events value) (c : Collected)
    (further : List Event) :
    (step.run (r.after (r.after c events) further)).1 = (step.run c).1 ∧
      (step.run (r.after (r.after c events) further)).2.imports =
        (r.after (r.after c events) further).imports := by
  have hlinked : ∀ m, .mention m ∈ events → r.Linked (r.after (r.after c events) further) m :=
    fun m hm => (linked_after c hm).after further
  rw [h.run_of_linked hlinked, h.run, h.run]
  exact ⟨h.value_after c further, imports_after_of_linked hlinked⟩

/-- **Between any calls the imports are in order, and every call keeps what was collected.**  After
any calls the imports are in order; one more call extends what was collected, and imports nothing if
its answer has nothing in it; and after any later calls the same call is answered in the same way
and leaves the imports as they are. -/
theorem serve_orderly (r : Resolver) (calls : List Call) (call : Call) (later : List Call) :
    let c := r.afterCalls .none calls
    let answered := (r.serve call).run c
    let c' := r.afterCalls answered.2 later
    let again := (r.serve call).run c'
    Orderly r c ∧ answered.2.Extends c ∧
      (answered.1.isNothing = true → answered.2.imports = c.imports) ∧
      again.1 = answered.1 ∧ again.2.imports = c'.imports := by
  obtain ⟨before, hbefore⟩ := exists_afterCalls_eq r calls
  obtain ⟨further, hfurther⟩ := exists_afterCalls_eq r later
  obtain ⟨events, value, hcall, hnothing⟩ := exists_follows_serve r call
  intro c answered c' again
  have hc : Orderly r c := by
    rw [show c = r.after .none before from hbefore .none]
    exact orderly_after (orderly_none r) before
  have hafter : answered.2 = r.after c events := congrArg Prod.snd (hcall.run c)
  have hc' : c' = r.after (r.after c events) further := (hfurther _).trans (by rw [hafter])
  refine ⟨hc, ?_, fun hempty => ?_, ?_, ?_⟩
  · rw [hafter]
    exact extends_after c events
  · rw [hafter]
    have hvalue : answered.1 = value (r.nameIn (r.after c events)) :=
      congrArg Prod.fst (hcall.run c)
    exact imports_after_of_linked fun m hm => absurd hm (hnothing _ (hvalue ▸ hempty) m)
  · show ((r.serve call).run c').1 = _
    rw [hc']
    exact (hcall.run_again c further).1
  · show ((r.serve call).run c').2.imports = c'.imports
    rw [hc']
    exact (hcall.run_again c further).2

end Resolver

/-- Types called `X` in three scopes, and types called `T` in two. -/
def sameNames : Json.Value :=
  let texts : Json.Value := .object [("kind", .string "type"), ("type", .string "cds.String")]
  .object [("definitions", .object
    [("a.X", texts), ("b.X", texts), ("X", texts), ("b.T", texts), ("c.T", texts)])]

/-- The resolver of the file of `c`, which declares `T`. -/
def resolverInC (t : ScopeTable) : Resolver := ⟨indexOf {} t, "c", ["T"]⟩

/-- In the file of `c`, `a.X` is imported under its identifier, `b.T` under a longer name because
`T` is declared, and then `b.X` and the global `X` under theirs because `X` is taken; an inclusion
of what has no elements imports nothing, and `b.X` goes by the same name later on. -/
theorem Resolver.serve_orderly_renamed : ∃ t, ScopeTable.ofSchema sameNames = .ok t ∧
    let r := resolverInC t
    let calls : List Call := [.typeName "a.X", .typeName "c.T", .typeName "b.T"]
    let c := r.afterCalls .none calls
    let answered := (r.serve (.typeName "b.X")).run c
    let included := (r.serve (.inclusion "b.X")).run c
    let c' := r.afterCalls answered.2 [.typeName "X", .typeName "b.Z"]
    let again := (r.serve (.typeName "b.X")).run c'
    c.imports = [⟨"a", "X", "X"⟩, ⟨"b", "T", "BT"⟩] ∧
    c'.imports = [⟨"a", "X", "X"⟩, ⟨"b", "T", "BT"⟩, ⟨"b", "X", "BX"⟩, ⟨"", "X", "GlobalX"⟩] ∧
    c'.warnings = [.unresolvedType "b.Z"] ∧
    Orderly r c ∧ answered.2.Extends c ∧ included.2.imports = c.imports ∧
      again.1 = answered.1 ∧ again.2.imports = c'.imports := by
  have hlists : (ScopeTable.ofSchema sameNames).toOption.map (fun t =>
      let r := resolverInC t
      let calls : List Call := [.typeName "a.X", .typeName "c.T", .typeName "b.T"]
      let c := r.afterCalls .none calls
      let c' := r.afterCalls ((r.serve (.typeName "b.X")).run c).2 [.typeName "X", .typeName "b.Z"]
      (c.imports, c'.imports, c'.warnings, ((r.serve (.inclusion "b.X")).run c).1.isNothing)) =
      some ([⟨"a", "X", "X"⟩, ⟨"b", "T", "BT"⟩],
        [⟨"a", "X", "X"⟩, ⟨"b", "T", "BT"⟩, ⟨"b", "X", "BX"⟩, ⟨"", "X", "GlobalX"⟩],
        [.unresolvedType "b.Z"], true) := by decide +kernel
  obtain ⟨t, ht, hlisted⟩ := exists_ok_of_map hlists
  simp only [Prod.mk.injEq] at hlisted
  obtain ⟨hfirst, hlast, hwarnings, hnothing⟩ := hlisted
  refine ⟨t, ht, ?_⟩
  intro r calls c answered included c' again
  obtain ⟨horderly, hextends, -, hanswer, himports⟩ :=
    serve_orderly r calls (.typeName "b.X") [.typeName "X", .typeName "b.Z"]
  have hincluded : included.2.imports = c.imports :=
    (serve_orderly r calls (.inclusion "b.X") []).2.2.1 hnothing
  exact ⟨hfirst, hlast, hwarnings, horderly, hextends, hincluded, hanswer, himports⟩

end SchemaTypings.Generation
