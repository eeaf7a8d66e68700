import SchemaTypings.Proofs.Sketch

/-!
# Linking of mentions

The imports that resolution collects are a fold over what it comes upon, and the local name of a
mention can be read off them at the end as well as when the mention is met: no later import changes
it.  `Resolver.Follows` says that a resolution step comes upon given events and returns a given
function of the local names; it is closed under sequencing.
-/

namespace SchemaTypings.Generation

open SchemaTypings.Name SchemaTypings.Schema SchemaTypings.Typing

namespace Resolver

variable {r : Resolver}

/-! ### The local name of a mention -/

/-- The namespace in whose file a mention is declared, and its identifier there. -/
def locate (r : Resolver) : Mention → String × String
  | .definition name =>
    match r.index.get? name with
    | some entry => (entry.namespaceName, entry.identifier)
    | none => (r.namespaceName, name)
  | .inlineEnum owner field =>
    ((r.index.namespaceOf? owner).getD r.namespaceName, inlineEnumIdentifier owner field)

theorem locate_definition {name : String} {entry : Entry} (h : r.index.get? name = some entry) :
    r.locate (.definition name) = (entry.namespaceName, entry.identifier) := by
  rw [locate, h]

theorem locate_inlineEnum {owner : String} {entry : Entry} (h : r.index.get? owner = some entry)
    (field : String) : r.locate (.inlineEnum owner field) =
      (entry.namespaceName, inlineEnumIdentifier owner field) := by
  rw [locate, Index.namespaceOf?, h]
  rfl

/-- The namespace and the identifier of an entry. -/
def address (entry : Entry) : String × String := (entry.namespaceName, entry.identifier)

/-- A mention is found in the same place if the definition to which it belongs is. -/
theorem locate_congr {r r' : Resolver} (hnamespace : r'.namespaceName = r.namespaceName)
    {m : Mention}
    (haddress : (r'.index.get? m.owner).map address = (r.index.get? m.owner).map address) :
    r'.locate m = r.locate m := by
  cases m with
  | definition name =>
    have hlocate (r : Resolver) : r.locate (.definition name) =
        ((r.index.get? name).map address).getD (r.namespaceName, name) := by
      rw [locate]
      cases r.index.get? name <;> rfl
    rw [hlocate, hlocate, hnamespace]
    exact congrArg (Option.getD · (r.namespaceName, name)) haddress
  | inlineEnum owner field =>
    have hlocate (r : Resolver) : r.locate (.inlineEnum owner field) =
        ((((r.index.get? owner).map address).map Prod.fst).getD r.namespaceName,
          inlineEnumIdentifier owner field) := by
      rw [locate, Index.namespaceOf?, Option.map_map]
      rfl
    rw [hlocate, hlocate, hnamespace]
    exact congrArg (fun found => ((found.map Prod.fst).getD r.namespaceName,
      inlineEnumIdentifier owner field)) haddress

/-- The local name of a mention, given the imports. -/
def nameIn (r : Resolver) (c : Collected) (m : Mention) : String :=
  if (r.locate m).1 = r.namespaceName then (r.locate m).2
  else (c.localName? (r.locate m).1 (r.locate m).2).getD (r.locate m).2

/-- Whether a mention needs no further import. -/
def Linked (r : Resolver) (c : Collected) (m : Mention) : Prop :=
  (r.locate m).1 = r.namespaceName ∨ (c.localName? (r.locate m).1 (r.locate m).2).isSome

theorem not_linked_iff {c : Collected} {m : Mention} : ¬ r.Linked c m ↔
    (r.locate m).1 ≠ r.namespaceName ∧ c.localName? (r.locate m).1 (r.locate m).2 = none := by
  rw [Linked, not_or, Bool.not_eq_true, Option.isSome_eq_false_iff, Option.isNone_iff_eq_none]

/-- The import that a mention adds, if it needs one. -/
def newImport (r : Resolver) (c : Collected) (m : Mention) : Import :=
  ⟨(r.locate m).1, (r.locate m).2, r.chooseLocalName c (r.locate m).1 (r.locate m).2⟩

instance (r : Resolver) (c : Collected) (m : Mention) : Decidable (r.Linked c m) :=
  inferInstanceAs (Decidable (_ ∨ _))

/-- Collects what an event asks for. -/
def record (r : Resolver) (c : Collected) : Event → Collected
  | .mention m => if r.Linked c m then c else c.addImport (r.newImport c m)
  | .warning w => c.addWarning w

/-- What is collected after events. -/
def after (r : Resolver) (c : Collected) (events : List Event) : Collected :=
  events.foldl r.record c

@[simp] theorem after_nil (c : Collected) : r.after c [] = c := rfl

@[simp] theorem after_cons (c : Collected) (event : Event) (rest : List Event) :
    r.after c (event :: rest) = r.after (r.record c event) rest := rfl

theorem after_append (c : Collected) (events more : List Event) :
    r.after c (events ++ more) = r.after (r.after c events) more := List.foldl_append

/-- The warnings are those of the events, whatever is imported on the way. -/
theorem warnings_after (c : Collected) (events : List Event) :
    (r.after c events).warnings = c.warnings ++ warningsOf events := by
  induction events generalizing c with
  | nil => simp [warningsOf]
  | cons event rest ih =>
    rw [after_cons, ih]
    cases event with
    | mention m =>
      have hw : (r.record c (.mention m)).warnings = c.warnings := by
        rw [record]
        split <;> rfl
      rw [hw]
      rfl
    | warning w => exact List.append_assoc c.warnings [w] (warningsOf rest)

/-- An event adds at most one import or one warning, at the end. -/
theorem exists_added_record (c : Collected) (event : Event) : ∃ imports warnings,
    (r.record c event).imports = c.imports ++ imports ∧
      (r.record c event).warnings = c.warnings ++ warnings ∧
      imports.length + warnings.length ≤ 1 := by
  cases event with
  | mention m =>
    rw [record]
    split
    · exact ⟨[], [], (List.append_nil _).symm, (List.append_nil _).symm, Nat.zero_le 1⟩
    · exact ⟨[r.newImport c m], [], rfl, (List.append_nil _).symm, Nat.le_refl 1⟩
  | warning w => exact ⟨[], [w], (List.append_nil _).symm, rfl, Nat.le_refl 1⟩

/-- **Collecting only adds, and no more than there are events.** -/
theorem exists_added_after (c : Collected) (events : List Event) : ∃ imports warnings,
    (r.after c events).imports = c.imports ++ imports ∧
      (r.after c events).warnings = c.warnings ++ warnings ∧
      imports.length + warnings.length ≤ events.length := by
  induction events generalizing c with
  | nil => exact ⟨[], [], (List.append_nil _).symm, (List.append_nil _).symm, Nat.zero_le 0⟩
  | cons event rest ih =>
    obtain ⟨imports, warnings, hi, hw, hone⟩ := exists_added_record (r := r) c event
    obtain ⟨more, others, hi', hw', hmore⟩ := ih (r.record c event)
    refine ⟨imports ++ more, warnings ++ others, ?_, ?_, ?_⟩
    · rw [after_cons, hi', hi, List.append_assoc]
    · rw [after_cons, hw', hw, List.append_assoc]
    · simp only [List.length_append, List.length_cons]
      omega

/-! ### Later imports change no local name -/

theorem localName?_addImport_self {c : Collected} (i : Import)
    (h : c.localName? i.namespaceName i.identifier = none) :
    (c.addImport i).localName? i.namespaceName i.identifier = some i.localName := by
  rw [Collected.localName?, Option.map_eq_none_iff] at h
  rw [Collected.localName?, Collected.addImport, List.find?_append, h]
  simp

theorem localName?_record {c : Collected} {namespaceName identifier localName : String}
    (h : c.localName? namespaceName identifier = some localName) (event : Event) :
    (r.record c event).localName? namespaceName identifier = some localName := by
  cases event with
  | mention m =>
    rw [record]
    split
    · exact h
    · exact Collected.localName?_addImport h _
  | warning w => exact h

theorem localName?_after {c : Collected} {namespaceName identifier localName : String}
    (h : c.localName? namespaceName identifier = some localName) (events : List Event) :
    (r.after c events).localName? namespaceName identifier = some localName := by
  induction events generalizing c with
  | nil => exact h
  | cons event rest ih => exact ih (localName?_record h event)

theorem Linked.after {c : Collected} {m : Mention} (h : r.Linked c m) (events : List Event) :
    r.Linked (r.after c events) m := by
  rcases h with h | h
  · exact Or.inl h
  · obtain ⟨localName, hl⟩ := Option.isSome_iff_exists.1 h
    exact Or.inr (by rw [localName?_after hl]; rfl)

theorem nameIn_after {c : Collected} {m : Mention} (h : r.Linked c m) (events : List Event) :
    r.nameIn (r.after c events) m = r.nameIn c m := by
  rcases h with h | h
  · rw [nameIn, nameIn, if_pos h, if_pos h]
  · obtain ⟨localName, hl⟩ := Option.isSome_iff_exists.1 h
    rw [nameIn, nameIn, localName?_after hl, hl]

theorem linked_record (c : Collected) (m : Mention) :
    r.Linked (r.record c (.mention m)) m := by
  rw [record]
  split
  case isTrue h => exact h
  case isFalse h =>
    have hl := localName?_addImport_self (r.newImport c m) (not_linked_iff.1 h).2
    exact Or.inr (Option.isSome_of_eq_some hl)

/-- After events, everything they mention is linked. -/
theorem linked_after (c : Collected) {events : List Event} {m : Mention}
    (h : .mention m ∈ events) : r.Linked (r.after c events) m := by
  induction events generalizing c with
  | nil => cases h
  | cons event rest ih =>
    rcases List.mem_cons.1 h with rfl | h
    · -- linked when it is met, the mention stays linked
      exact (linked_record c m).after rest
    · exact ih _ h

/-- A mention that needs an import goes by the local name of that import. -/
theorem nameIn_record {c : Collected} {m : Mention} (h : ¬ r.Linked c m) :
    r.nameIn (r.record c (.mention m)) m = (r.newImport c m).localName := by
  obtain ⟨hn, hl⟩ := not_linked_iff.1 h
  have hi := localName?_addImport_self (r.newImport c m) hl
  rw [record, if_neg h, nameIn, if_neg hn]
  exact congrArg (fun found => found.getD (r.locate m).2) hi

/-! ### Steps that follow events -/

/-- The step comes upon the events and returns the value for the local names at the end.  The value
depends only on the names of what the events mention. -/
structure Follows (r : Resolver) {α : Type} (step : Resolving α) (events : List Event)
    (value : (Mention → String) → α) : Prop where
  congr : ∀ {nameOf nameOf' : Mention → String},
    (∀ m, .mention m ∈ events → nameOf m = nameOf' m) → value nameOf = value nameOf'
  run : ∀ c, step.run c = (value (r.nameIn (r.after c events)), r.after c events)

variable {α β : Type} {events more : List Event} {value : (Mention → String) → α}

/-- Names read off later than at the end of a step are the same to it. -/
theorem Follows.value_after {step : Resolving α} (h : r.Follows step events value)
    (c : Collected) (more : List Event) :
    value (r.nameIn (r.after (r.after c events) more)) = value (r.nameIn (r.after c events)) :=
  h.congr fun _ hm => nameIn_after (linked_after c hm) more

/-- Where all that is mentioned is linked already, a step reads its value off the names there. -/
theorem Follows.run_of_linked {step : Resolving α} (h : r.Follows step events value)
    {c : Collected} (hl : ∀ m, .mention m ∈ events → r.Linked c m) :
    (step.run c).1 = value (r.nameIn c) := by
  rw [h.run]
  exact h.congr fun m hm => nameIn_after (hl m hm) events

theorem follows_pure (a : α) : r.Follows (pure a) [] fun _ => a where
  congr _ := rfl
  run _ := rfl

/-- **Steps one after another follow their events one after another.** -/
theorem Follows.bind {step : Resolving α} {next : α → Resolving β}
    (value' : α → (Mention → String) → β) (hs : r.Follows step events value)
    (hn : ∀ nameOf, r.Follows (next (value nameOf)) more (value' (value nameOf))) :
    r.Follows (step >>= next) (events ++ more) fun nameOf => value' (value nameOf) nameOf where
  congr {nameOf nameOf'} h := by
    have hv : value nameOf = value nameOf' :=
      hs.congr fun m hm => h m (List.mem_append_left _ hm)
    rw [hv]
    exact (hn nameOf').congr fun m hm => h m (List.mem_append_right _ hm)
  run c := by
    -- the first value is read off before the later imports, and reads the same after them
    have hv := hs.value_after c more
    rw [StateT.run_bind, hs.run c]
    show (next (value _)).run (r.after c events) = _
    rw [(hn _).run, after_append, hv]

theorem Follows.map {step : Resolving α} (f : α → β) (hs : r.Follows step events value) :
    r.Follows (do return f (← step)) events fun nameOf => f (value nameOf) := by
  have h : r.Follows (step >>= fun a => pure (f a)) (events ++ []) fun nameOf => f (value nameOf) :=
    hs.bind (fun a _ => f a) fun nameOf => follows_pure (f (value nameOf))
  rwa [List.append_nil] at h

/-- Two steps whose events do not depend on each other's results. -/
theorem Follows.map₂ {first : Resolving α} {second : Resolving β} {γ : Type}
    {value' : (Mention → String) → β} (f : α → β → γ) (h₁ : r.Follows first events value)
    (h₂ : r.Follows second more value') :
    r.Follows (do let a ← first; let b ← second; return f a b) (events ++ more)
      fun nameOf => f (value nameOf) (value' nameOf) :=
  h₁.bind (fun a nameOf => f a (value' nameOf)) fun nameOf => h₂.map (f (value nameOf))

/-- Three steps whose events do not depend on each other's results. -/
theorem Follows.map₃ {γ δ : Type} {first : Resolving α} {second : Resolving β}
    {third : Resolving γ} {rest : List Event} {value' : (Mention → String) → β}
    {value'' : (Mention → String) → γ} (f : α → β → γ → δ) (h₁ : r.Follows first events value)
    (h₂ : r.Follows second more value') (h₃ : r.Follows third rest value'') :
    r.Follows (do let a ← first; let b ← second; let c ← third; return f a b c)
      (events ++ (more ++ rest))
      fun nameOf => f (value nameOf) (value' nameOf) (value'' nameOf) :=
  h₁.bind (fun a nameOf => f a (value' nameOf) (value'' nameOf)) fun nameOf =>
    h₂.map₂ (f (value nameOf)) h₃

theorem follows_warn (w : Warning) : r.Follows (warn w) [.warning w] fun _ => () where
  congr _ := rfl
  run _ := rfl

/-- A step that only warns. -/
theorem follows_warned (w : Warning) (a : α) :
    r.Follows (do warn w; return a) [.warning w] fun _ => a :=
  (follows_warn w).map fun _ => a

end Resolver

end SchemaTypings.Generation
