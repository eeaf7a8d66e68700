import Mathlib.Data.List.Basic
import SchemaTypings.Proofs.SourceReader

/-!
# Generated files can be read back

From the text of a well-formed file the reader recovers its imports and its declarations, so two
well-formed files of one text have the same imports and declarations.  Names are identifiers in a
well-formed file; the names of properties and members, the texts that members are set to and the
module specifiers are arbitrary, because they are quoted where they have to be.
-/

namespace SchemaTypings.Typing

open Reading

/-! ### Well-formed files -/

/-- A name made of letters, digits, underscores and dollar signs that does not start with a
digit. -/
structure IsIdentifier (name : String) : Prop where
  nonempty : name ≠ ""
  parts : ∀ c ∈ name.toList, c = '_' ∨ c = '$' ∨ c.isAlphanum = true
  start : ∀ c ∈ name.toList.head?, c.isDigit = false

theorem isIdentifier_iff (name : String) : IsIdentifier name ↔ name ≠ "" ∧
    (name.toList.all fun c => c == '_' || c == '$' || c.isAlphanum) = true ∧
    (name.toList.head?.all fun c => !c.isDigit) = true := by
  have hparts : (name.toList.all fun c => c == '_' || c == '$' || c.isAlphanum) = true ↔
      ∀ c ∈ name.toList, c = '_' ∨ c = '$' ∨ c.isAlphanum = true := by
    simp [List.all_eq_true, or_assoc]
  have hstart : (name.toList.head?.all fun c => !c.isDigit) = true ↔
      ∀ c ∈ name.toList.head?, c.isDigit = false := by
    simp [Option.all_eq_true]
  rw [hparts, hstart]
  exact ⟨fun h => ⟨h.nonempty, h.parts, h.start⟩, fun h => ⟨h.1, h.2.1, h.2.2⟩⟩

-- by computation on the text, for there are many characters to try
instance (name : String) : Decidable (IsIdentifier name) :=
  decidable_of_iff' _ (isIdentifier_iff name)

/-- Identifiers joined by dots. -/
def IsDotted (name : String) : Prop :=
  ∃ parts ≠ [], (∀ part ∈ parts, IsIdentifier part) ∧ name = ".".intercalate parts

/-- References are to identifiers that no other type is written as; the names of properties do not
matter. -/
inductive TypeExpr.WellFormed : TypeExpr → Prop
  | unknown : TypeExpr.WellFormed .unknown
  | primitive (primitive : Primitive) : TypeExpr.WellFormed (.primitive primitive)
  | reference {name : String} : IsIdentifier name → name ≠ "unknown" →
      (∀ primitive : Primitive, name ≠ primitive.word) → TypeExpr.WellFormed (.reference name)
  | object {properties : List Property} :
      (∀ property ∈ properties, TypeExpr.WellFormed property.type) →
      TypeExpr.WellFormed (.object properties)
  | array {item : TypeExpr} : TypeExpr.WellFormed item → TypeExpr.WellFormed (.array item)

/-- A literal is one line and not a quoted text. -/
def Initializer.WellFormed : Initializer → Prop
  | .text _ => True
  | .literal value => '\n' ∉ value.toList ∧ ¬ ['"'] <+: value.toList

instance : (initializer : Initializer) → Decidable initializer.WellFormed
  | .text _ => .isTrue trivial
  | .literal value => inferInstanceAs (Decidable ('\n' ∉ value.toList ∧ ¬ ['"'] <+: value.toList))

/-- A member that is numbered or whose initializer is well formed. -/
def EnumMember.WellFormed (member : EnumMember) : Prop :=
  ∀ initializer ∈ member.initializer, initializer.WellFormed

instance (member : EnumMember) : Decidable member.WellFormed :=
  inferInstanceAs (Decidable (∀ initializer ∈ member.initializer, initializer.WellFormed))

/-- What is declared or extended is an identifier, and for a group identifiers joined by dots. -/
inductive Declaration.WellFormed : Declaration → Prop
  | interface {name : String} {bases : List String} {properties : List Property} :
      IsIdentifier name → (∀ base ∈ bases, IsIdentifier base) →
      (∀ property ∈ properties, property.type.WellFormed) →
      Declaration.WellFormed (.interface name bases properties)
  | enumeration {name : String} {members : List EnumMember} :
      IsIdentifier name → (∀ member ∈ members, member.WellFormed) →
      Declaration.WellFormed (.enumeration name members)
  | typeAlias {name : String} {type : TypeExpr} :
      IsIdentifier name → type.WellFormed → Declaration.WellFormed (.typeAlias name type)
  | group {name : String} {declarations : List Declaration} :
      IsDotted name → (∀ declaration ∈ declarations, Declaration.WellFormed declaration) →
      Declaration.WellFormed (.group name declarations)

/-- Both names of an imported identifier are identifiers. -/
def ImportedName.WellFormed (imported : ImportedName) : Prop :=
  IsIdentifier imported.name ∧ ∀ name ∈ imported.localAlias, IsIdentifier name

instance (imported : ImportedName) : Decidable imported.WellFormed :=
  inferInstanceAs (Decidable (IsIdentifier imported.name ∧ ∀ name ∈ imported.localAlias,
    IsIdentifier name))

/-- A file in which every import and every declaration is well formed. -/
structure SourceFile.WellFormed (file : SourceFile) : Prop where
  imports : ∀ clause ∈ file.imports, ∀ imported ∈ clause.names, imported.WellFormed
  declarations : ∀ declaration ∈ file.declarations, declaration.WellFormed

/-! ### Names -/

section Names

variable {name : String}

theorem IsIdentifier.isIdentifierPart (h : IsIdentifier name) :
    ∀ c ∈ name.toList, isIdentifierPart c = true := by
  intro c hc
  rcases h.parts c hc with rfl | rfl | hc
  · rfl
  · rfl
  · simp [Typing.isIdentifierPart, hc]

/-- Nothing that is not a part of an identifier comes first in one. -/
theorem IsIdentifier.not_start (h : IsIdentifier name) {c : Char} (cs : List Char)
    (hc : Typing.isIdentifierPart c = false) (rest : List Char) :
    ¬ c :: cs <+: name.toList ++ rest := by
  have hparts := h.isIdentifierPart
  cases htext : name.toList with
  | nil => exact absurd (String.toList_inj.1 htext) h.nonempty
  | cons d ds =>
    intro hstart
    obtain ⟨rfl, -⟩ := List.cons_prefix_cons.1 hstart
    rw [htext] at hparts
    rw [hparts c List.mem_cons_self] at hc
    exact absurd hc (by decide)

theorem IsDotted.parts (h : IsDotted name) :
    ∀ c ∈ name.toList, (isIdentifierPart c || c == '.') = true := by
  obtain ⟨parts, -, hparts, rfl⟩ := h
  induction parts with
  | nil => simp
  | cons part parts ih =>
    obtain ⟨hpart, hothers⟩ := List.forall_mem_cons.1 hparts
    have hfirst : ∀ c ∈ part.toList, (isIdentifierPart c || c == '.') = true := by
      intro c hc
      rw [hpart.isIdentifierPart c hc, Bool.true_or]
    rcases eq_or_ne parts [] with rfl | hne
    · simpa using hfirst
    · rw [String.intercalate_cons_of_ne_nil hne]
      intro c hc
      simp only [String.toList_append, List.mem_append] at hc
      rcases hc with (hc | hc) | hc
      · exact hfirst c hc
      · obtain rfl : c = '.' := by simpa using hc
        rfl
      · exact ih hothers c hc

theorem reads_word (h : IsIdentifier name) : Reads word name name (Ends isIdentifierPart) :=
  reads_span h.isIdentifierPart

theorem isPlainName_parts (h : isPlainName name = true) :
    ∃ c cs, name.toList = c :: cs ∧ isIdentifierPart c = true ∧ cs.all isIdentifierPart = true := by
  unfold isPlainName at h
  split at h
  · cases h
  · next c cs htext =>
    obtain ⟨hc, hcs⟩ := Bool.and_eq_true_iff.1 h
    refine ⟨c, cs, htext, ?_, hcs⟩
    simp only [isIdentifierStart, isIdentifierPart, Char.isAlphanum, Bool.or_eq_true] at hc ⊢
    tauto

theorem reads_memberName (name : String) :
    Reads memberName (nameText name) name (Ends isIdentifierPart) := by
  unfold nameText
  split
  · next hplain =>
    obtain ⟨c, cs, htext, hc, hcs⟩ := isPlainName_parts hplain
    refine reads_ifNext_missing (reads_span fun d hd => ?_) fun rest _ => ?_
    · rw [htext, List.mem_cons] at hd
      rcases hd with rfl | hd
      · exact hc
      · exact List.all_eq_true.1 hcs d hd
    · rw [htext]
      intro hstart
      obtain ⟨rfl, -⟩ := List.cons_prefix_cons.1 hstart
      exact absurd hc (by decide)
  · rw [quoted, String.append_assoc]
    exact reads_ifNext_found (reads_quotedRest name)

end Names

/-! ### Types -/

/-- What comes after a type: no more of a name and no bracket. -/
def AfterType (rest : List Char) : Prop := Ends (fun c => isIdentifierPart c || c == '[') rest

theorem AfterType.ends {rest : List Char} (h : AfterType rest) : Ends isIdentifierPart rest :=
  fun c hc => (Bool.or_eq_false_iff.1 (h c hc)).1

theorem arrays_eq {rest : List Char} (h : AfterType rest) (type : TypeExpr) :
    arrays type rest = (type, rest) := by
  unfold arrays
  split
  · exact absurd (h '[' rfl) (by decide)
  · rfl

theorem typeOfWord_word (primitive : Primitive) :
    typeOfWord primitive.word = .primitive primitive := by
  cases primitive <;> rfl

theorem typeOfWord_reference {name : String} (hu : name ≠ "unknown")
    (hp : ∀ primitive : Primitive, name ≠ primitive.word) : typeOfWord name = .reference name := by
  unfold typeOfWord
  have hnone : [Primitive.string, .number, .boolean, .date, .buffer].find?
      (fun p => p.word = name) = none := by
    rw [List.find?_eq_none]
    intro p _ h
    exact hp p (of_decide_eq_true h).symm
  rw [hnone]
  exact if_neg hu

theorem textAfter_eq (properties : List Property) :
    textAfter properties =
      String.join (properties.map fun property => "; " ++ property.text) ++ " \x7d" := by
  induction properties with
  | nil => rfl
  | cons property properties ih =>
    rw [textAfter, ih, List.map_cons, String.join_cons, String.append_assoc, String.append_assoc,
      String.append_assoc]

/-- Each of the texts is no longer than all of them after their marks. -/
theorem length_le_join {α : Type} {a : α} {as : List α} (h : a ∈ as) (mark : String)
    (textOf : α → String) :
    (textOf a).length ≤ (String.join (as.map fun a => mark ++ textOf a)).length := by
  induction as with
  | nil => cases h
  | cons b as ih =>
    rw [List.map_cons, String.join_cons, String.length_append, String.length_append]
    rcases List.mem_cons.1 h with rfl | h
    · omega
    · have := ih h
      omega

theorem isIdentifier_word (primitive : Primitive) : IsIdentifier primitive.word := by
  cases primitive <;> decide

theorem isIdentifier_unknown : IsIdentifier "unknown" := by decide

theorem reads_property {reader : Reading TypeExpr} {property : Property}
    (h : Reads reader property.type.text property.type AfterType) :
    Reads (Reading.property reader) property.text property AfterType := by
  obtain ⟨name, optional, type⟩ := property
  have hmark : Reads (ifNext "?" (return true) (return false)) (if optional then "?" else "")
      optional (fun rest => ": ".toList <+: rest) := by
    cases optional with
    | true => exact reads_ifNext_found (Reads.pure true)
    | false =>
      refine reads_ifNext_missing (Reads.pure false) ?_
      rintro _ ⟨rest, rfl⟩
      simp
  rw [Property.text, String.append_assoc, String.append_assoc]
  refine (reads_memberName name).bind (hmark.bind ((reads_expect ": ").andThen
    (h.map fun found => Property.mk name optional found)) fun rest _ => ?_) fun rest _ => ?_
  · simp
  · cases optional <;> simp [isIdentifierPart]

/-- An object type after its first brace. -/
def objectRestText : List Property → String
  | [] => "\x7d"
  | property :: rest => " " ++ property.text ++ textAfter rest

theorem TypeExpr.text_object (properties : List Property) :
    (TypeExpr.object properties).text = "\x7b" ++ objectRestText properties := by
  cases properties with
  | nil => rfl
  | cons property rest =>
    rw [TypeExpr.text, objectRestText, ← String.append_assoc, ← String.append_assoc]
    rfl

theorem reads_objectRest {item : Reading Property} {properties : List Property}
    {follow : List Char → Prop}
    (h : ∀ property ∈ properties, Reads item property.text property AfterType) :
    Reads (objectRest item) (objectRestText properties) properties follow := by
  cases properties with
  | nil => exact reads_ifNext_mark "\x7d" []
  | cons property rest =>
    have hitems : Reads (separated "; " item)
        (property.text ++ String.join (rest.map fun property => "; " ++ property.text))
        (property :: rest) (fun more => " \x7d".toList <+: more) :=
      reads_separated (by decide) h (fun _ => ends_cons.2 rfl)
        (by rintro _ ⟨more, rfl⟩; exact ends_cons.2 rfl) (by rintro _ ⟨more, rfl⟩; simp)
    rw [objectRestText, textAfter_eq, String.append_assoc, ← @String.append_assoc property.text]
    refine reads_ifNext_missing ((reads_expect " ").andThen (hitems.bind
      ((reads_expect " \x7d").map fun _ => property :: rest) fun more _ => ?_)) fun more _ => ?_
    · exact List.prefix_append _ _
    · simp

/-- The type of each property is shorter than the object type. -/
theorem length_lt_object {property : Property} {properties : List Property}
    (h : property ∈ properties) :
    property.type.text.length < (TypeExpr.object properties).text.length := by
  have hproperty : property.type.text.length ≤ property.text.length := by
    obtain ⟨name, optional, type⟩ := property
    rw [Property.text, String.length_append]
    exact Nat.le_add_left _ _
  rw [TypeExpr.text_object, String.length_append]
  have hbrace : "\x7b".length = 1 := by decide
  cases properties with
  | nil => cases h
  | cons first rest =>
    rw [objectRestText, textAfter_eq, String.length_append, String.length_append,
      String.length_append]
    rcases List.mem_cons.1 h with rfl | h
    · omega
    · have hrest := length_le_join h "; " Property.text
      omega

/-- A type written as one word is taken with the brackets after it. -/
theorem run_typeWithin_word {name : String} (h : IsIdentifier name) (fuel : Nat)
    {rest : List Char} (hr : Ends isIdentifierPart rest) :
    (typeWithin (fuel + 1)).run (name.toList ++ rest) = some (arrays (typeOfWord name) rest) := by
  have hbrace : strip? "\x7b" (name.toList ++ rest) = none :=
    strip?_eq_none (h.not_start [] rfl rest)
  show ifNext _ _ _ _ = _
  rw [ifNext, hbrace]
  show (word >>= _).run _ = _
  rw [StateT.run_bind, reads_word h rest hr]
  rfl

/-- A type is taken with the brackets after it, which make array types of it. -/
theorem TypeExpr.WellFormed.run_typeWithin {type : TypeExpr} (h : type.WellFormed) {fuel : Nat}
    (hfuel : type.text.length < fuel) {rest : List Char} (hr : Ends isIdentifierPart rest) :
    (typeWithin fuel).run (type.text.toList ++ rest) = some (arrays type rest) := by
  induction h generalizing fuel rest with
  | unknown =>
    obtain ⟨fuel, rfl⟩ := Nat.exists_eq_add_of_lt hfuel
    exact run_typeWithin_word isIdentifier_unknown _ hr
  | primitive p =>
    obtain ⟨fuel, rfl⟩ := Nat.exists_eq_add_of_lt hfuel
    have hword := run_typeWithin_word (isIdentifier_word p) (p.word.length + fuel) hr
    rwa [typeOfWord_word] at hword
  | @reference name hname hu hp =>
    obtain ⟨fuel, rfl⟩ := Nat.exists_eq_add_of_lt hfuel
    have hword := run_typeWithin_word hname (name.length + fuel) hr
    rwa [typeOfWord_reference hu hp] at hword
  | @object properties _ ih =>
    obtain ⟨fuel, rfl⟩ : ∃ m, fuel = m + 1 := ⟨fuel - 1, by omega⟩
    have hitem : ∀ property ∈ properties,
        Reads (Reading.property (typeWithin fuel)) property.text property AfterType := by
      intro property hmem
      have hshort := length_lt_object hmem
      refine reads_property fun more hmore => ?_
      rw [ih property hmem (by omega) hmore.ends, arrays_eq hmore]
    show ifNext _ _ _ _ = _
    rw [TypeExpr.text_object, String.toList_append, List.append_assoc, ifNext, strip?_append]
    show (objectRest _ >>= _).run _ = _
    have hread : Reads (objectRest _) (objectRestText properties) properties fun _ => True :=
      reads_objectRest hitem
    rw [StateT.run_bind, hread rest trivial]
    rfl
  | @array item _ ih =>
    rw [TypeExpr.text, String.length_append] at hfuel
    have hbrackets : Ends isIdentifierPart ('[' :: ']' :: rest) := ends_cons.2 rfl
    rw [TypeExpr.text, String.toList_append, List.append_assoc]
    exact ih (Nat.lt_of_le_of_lt (Nat.le_add_right _ _) hfuel) hbrackets

theorem TypeExpr.WellFormed.reads {type : TypeExpr} (h : type.WellFormed) :
    Reads Reading.type type.text type AfterType :=
  reads_fueled fun fuel hfuel rest hr => by
    rw [h.run_typeWithin hfuel hr.ends, arrays_eq hr]

/-! ### Lines -/

/-- What closes a block at a depth comes next. -/
def Closes (depth : Nat) (rest : List Char) : Prop :=
  (indentation depth ++ "\x7d\n").toList <+: rest

/-- The brace that closes a block stands to the left of its lines. -/
theorem Closes.not_indentation {depth : Nat} {rest : List Char} (h : Closes depth rest) :
    ¬ (indentation (depth + 1)).toList <+: rest := by
  have hdeeper : (indentation (depth + 1)).toList =
      (indentation depth).toList ++ ' ' :: List.replicate 3 ' ' := by
    simp only [indentation, String.toList_ofList]
    rw [show 4 * (depth + 1) = 4 * depth + 4 by omega, List.replicate_add]
    rfl
  rintro ⟨more, rfl⟩
  obtain ⟨after, hafter⟩ := h
  rw [hdeeper, String.toList_append, List.append_assoc, List.append_assoc] at hafter
  have hbrace := (List.cons.inj (List.append_cancel_left hafter)).1
  exact absurd hbrace (by decide)

/-- A block is taken if each of its lines is, whatever comes after the line. -/
theorem reads_lines {α : Type} {line : Reading α} {as : List α} {lineOf : α → String} (depth : Nat)
    {follow : List Char → Prop}
    (h : ∀ a ∈ as, Reads line (lineOf a ++ "\n") a fun _ => True) :
    Reads (lines depth line) (block depth (as.map lineOf)) as follow := by
  cases as with
  | nil => exact reads_ifNext_mark " \x7b\x7d\n" []
  | cons a as =>
    have hjoin : (((a :: as).map lineOf).map fun line => indentation (depth + 1) ++ line ++ "\n") =
        (a :: as).map fun a => indentation (depth + 1) ++ (lineOf a ++ "\n") := by
      rw [List.map_map]
      exact List.map_congr_left fun a _ => String.append_assoc
    have hindent : indentation (depth + 1) ≠ "" := by
      intro h
      have hlength := congrArg (fun s => s.toList.length) h
      simp [indentation] at hlength
    have hitems : Reads (many (indentation (depth + 1)) line)
        (String.join ((a :: as).map fun a => indentation (depth + 1) ++ (lineOf a ++ "\n")))
        (a :: as) (Closes depth) :=
      reads_many hindent h (fun _ => trivial) (fun _ _ => trivial) fun _ hr => hr.not_indentation
    rw [block, if_neg (by simp), hjoin, String.append_assoc, String.append_assoc]
    refine reads_ifNext_missing ((reads_expect " \x7b\n").andThen (hitems.bind
      ((reads_expect _).map fun _ => a :: as) fun rest _ => ?_)) fun rest _ => ?_
    · exact List.prefix_append _ _
    · simp

theorem reads_propertyLine {property : Property} (h : property.type.WellFormed) :
    Reads propertyLine (property.text ++ ";" ++ "\n") property fun _ => True := by
  rw [String.append_assoc]
  refine (reads_property h.reads).bind ((reads_expect ";\n").map fun _ => property) fun rest _ => ?_
  exact ends_cons.2 rfl

theorem reads_literalLine {value : String} (h : '\n' ∉ value.toList) :
    Reads literalLine (value ++ "," ++ "\n") (.literal value) fun _ => True := by
  have hspan : Reads (span (· != '\n')) (value ++ ",") (value ++ ",") (Ends (· != '\n')) := by
    refine reads_span fun c hc => ?_
    rw [String.toList_append, List.mem_append] at hc
    rw [bne_iff_ne]
    rintro rfl
    rcases hc with hc | hc
    · exact h hc
    · exact absurd hc (by decide)
  have hvalue : Initializer.literal value =
      .literal (String.ofList (value ++ ",").toList.dropLast) := by
    simp
  rw [hvalue]
  exact hspan.bind ((reads_expect "\n").map fun _ => _) fun rest _ => ends_cons.2 rfl

theorem reads_initializer_text (value : String) :
    Reads initializer (quoted value ++ "," ++ "\n") (.text value) fun _ => True := by
  simp only [quoted, String.append_assoc]
  rw [← @String.append_assoc _ "\""]
  exact reads_ifNext_found ((reads_quotedRest value).andThen
    ((reads_expect ",\n").map fun _ => Initializer.text value))

theorem reads_initializer_literal {value : String}
    (h : (Initializer.literal value).WellFormed) :
    Reads initializer (value ++ "," ++ "\n") (.literal value) fun _ => True := by
  obtain ⟨hline, hquote⟩ := h
  -- a literal that started with a quote would be read as a text
  refine reads_ifNext_missing (reads_literalLine hline) fun rest _ hstart => ?_
  rw [String.append_assoc, String.toList_append, List.append_assoc] at hstart
  cases hvalue : value.toList with
  | nil =>
    rw [hvalue] at hstart
    exact absurd (List.cons_prefix_cons.1 hstart).1 (by decide)
  | cons c cs =>
    rw [hvalue] at hquote hstart
    obtain ⟨rfl, -⟩ := List.cons_prefix_cons.1 hstart
    exact hquote (List.prefix_append ['"'] cs)

theorem reads_memberLine {member : EnumMember} (h : member.WellFormed) :
    Reads memberLine (member.line ++ "\n") member fun _ => True := by
  obtain ⟨name, value⟩ := member
  -- After the name comes the end of the line or an equals sign and what the member is set to.
  have hset : ∀ {value : Initializer} {text : String},
      Reads initializer text value (fun _ => True) →
      Reads memberLine (nameText name ++ (" = " ++ text)) ⟨name, some value⟩ fun _ => True := by
    intro value text hvalue
    refine (reads_memberName name).bind (Reads.map (reads_ifNext_missing
      ((reads_expect " = ").andThen (hvalue.map some)) fun rest _ => ?_) (EnumMember.mk name))
      fun rest _ => ?_
    · simp
    · simp [isIdentifierPart]
  cases value with
  | none =>
    rw [EnumMember.line, String.append_assoc]
    refine (reads_memberName name).bind ((reads_ifNext_mark ",\n" none).map (EnumMember.mk name))
      fun rest _ => ?_
    exact ends_cons.2 rfl
  | some value =>
    cases value with
    | text value =>
      have hread := hset (reads_initializer_text value)
      simpa only [EnumMember.line, String.append_assoc] using hread
    | literal value =>
      have hread := hset (reads_initializer_literal (h _ rfl))
      simpa only [EnumMember.line, String.append_assoc] using hread

/-! ### Declarations -/

theorem intercalate_map {α : Type} (mark : String) (textOf : α → String) (a : α) (as : List α) :
    mark.intercalate ((a :: as).map textOf) =
      textOf a ++ String.join (as.map fun b => mark ++ textOf b) := by
  induction as generalizing a with
  | nil => simp
  | cons b as ih =>
    rw [List.map_cons, String.intercalate_cons_of_ne_nil (by simp), ih, List.map_cons,
      String.join_cons]
    simp only [String.append_assoc]

theorem block_start (depth : Nat) (lines : List String) (rest : List Char) :
    " \x7b".toList <+: (block depth lines).toList ++ rest := by
  have hmore : ∃ more, block depth lines = " \x7b" ++ more := by
    unfold block
    split
    · exact ⟨"\x7d\n", rfl⟩
    · simp only [String.append_assoc]
      exact ⟨"\n" ++ _, rfl⟩
  obtain ⟨more, hmore⟩ := hmore
  rw [hmore, String.toList_append, List.append_assoc]
  exact List.prefix_append _ _

theorem ends_of_start {p : Char → Bool} {c : Char} {cs rest : List Char} (h : c :: cs <+: rest)
    (hc : p c = false) : Ends p rest := by
  obtain ⟨more, rfl⟩ := h
  exact ends_cons.2 hc

theorem basesText_start (bases : List String) {rest : List Char} (h : [' '] <+: rest) :
    [' '] <+: (basesText bases).toList ++ rest := by
  unfold basesText
  split
  · exact h
  · simp

theorem reads_bases {bases : List String} (h : ∀ base ∈ bases, IsIdentifier base) :
    Reads Reading.bases (basesText bases) bases fun rest => " \x7b".toList <+: rest := by
  cases bases with
  | nil =>
    refine reads_ifNext_missing (Reads.pure []) ?_
    rintro _ ⟨rest, rfl⟩
    simp [basesText]
  | cons base bases =>
    have hnames : Reads (separated ", " word)
        (id base ++ String.join (bases.map fun base => ", " ++ id base)) (base :: bases)
        (fun rest => " \x7b".toList <+: rest) :=
      reads_separated (by decide) (fun name hname => reads_word (h name hname))
        (fun _ => ends_cons.2 rfl) (by rintro _ ⟨rest, rfl⟩; exact ends_cons.2 rfl)
        (by rintro _ ⟨rest, rfl⟩; simp)
    have htext := intercalate_map ", " id base bases
    rw [List.map_id] at htext
    rw [basesText, if_neg (by simp), htext]
    exact reads_ifNext_found hnames

/-- A declaration is taken if what comes after its keyword is. -/
theorem reads_export (keyword : String) {depth fuel : Nat} {start text : String}
    {declaration : Declaration} {follow : List Char → Prop}
    (hstart : start = "export " ++ (keyword ++ " "))
    (hkeyword : IsIdentifier keyword)
    (h : Reads (declarationOf depth (declarationWithin fuel (depth + 1)) keyword) text declaration
      follow) :
    Reads (declarationWithin (fuel + 1) depth) (indentation depth ++ start ++ text) declaration
      follow := by
  have htext : indentation depth ++ start ++ text =
      (indentation depth ++ "export ") ++ (keyword ++ (" " ++ text)) := by
    simp only [hstart, String.append_assoc]
  rw [htext]
  refine (reads_expect _).andThen ((reads_word hkeyword).bind ((reads_expect " ").andThen h)
    fun rest _ => ?_)
  simp [isIdentifierPart]

theorem reads_interface {name : String} {bases : List String} {properties : List Property}
    (hname : IsIdentifier name) (hbases : ∀ base ∈ bases, IsIdentifier base)
    (hproperties : ∀ property ∈ properties, property.type.WellFormed) (depth fuel : Nat) :
    Reads (declarationWithin (fuel + 1) depth)
      ((Declaration.interface name bases properties).text depth)
      (.interface name bases properties) fun _ => True := by
  have hlines : Reads (lines depth propertyLine)
      (block depth (properties.map fun property => property.text ++ ";")) properties
      fun _ => True :=
    reads_lines depth fun property hmem => reads_propertyLine (hproperties property hmem)
  have hblock := block_start depth (properties.map fun property => property.text ++ ";")
  rw [Declaration.text, String.append_assoc, String.append_assoc]
  refine reads_export "interface" rfl (by decide)
    ((reads_word hname).bind ((reads_bases hbases).bind
      (hlines.map (Declaration.interface name bases)) fun rest _ => hblock rest) fun rest _ => ?_)
  rw [String.toList_append, List.append_assoc]
  exact ends_of_start (basesText_start bases ((List.prefix_append [' '] ['{']).trans (hblock rest)))
    rfl

theorem reads_enumeration {name : String} {members : List EnumMember} (hname : IsIdentifier name)
    (hmembers : ∀ member ∈ members, member.WellFormed) (depth fuel : Nat) :
    Reads (declarationWithin (fuel + 1) depth) ((Declaration.enumeration name members).text depth)
      (.enumeration name members) fun _ => True := by
  have hlines : Reads (lines depth memberLine) (block depth (members.map EnumMember.line)) members
      fun _ => True :=
    reads_lines depth fun member hmem => reads_memberLine (hmembers member hmem)
  rw [Declaration.text, String.append_assoc]
  exact reads_export "enum" rfl (by decide)
    ((reads_word hname).bind (hlines.map (Declaration.enumeration name)) fun rest _ =>
      ends_of_start (block_start depth _ rest) rfl)

theorem reads_typeAlias {name : String} {type : TypeExpr} (hname : IsIdentifier name)
    (htype : type.WellFormed) (depth fuel : Nat) :
    Reads (declarationWithin (fuel + 1) depth) ((Declaration.typeAlias name type).text depth)
      (.typeAlias name type) fun _ => True := by
  simp only [Declaration.text, String.append_assoc]
  rw [← @String.append_assoc (indentation depth)]
  refine reads_export "type" rfl (by decide) ((reads_word hname).bind
    ((reads_expect " = ").andThen (htype.reads.bind
      ((reads_expect ";\n").map fun _ => Declaration.typeAlias name type) fun rest _ => ?_))
    fun rest _ => ?_)
  · exact ends_cons.2 rfl
  · simp [isIdentifierPart]

/-- The declarations of a group and its closing brace. -/
def bodyText (depth : Nat) : List Declaration → String
  | [] => indentation depth ++ "\x7d\n"
  | declaration :: rest =>
    declaration.text (depth + 1) ++ separatedText (depth + 1) rest ++
      (indentation depth ++ "\x7d\n")

theorem Declaration.text_group (depth : Nat) (name : String) (declarations : List Declaration) :
    (Declaration.group name declarations).text depth =
      indentation depth ++ "export namespace " ++
        (name ++ (" \x7b\n" ++ bodyText depth declarations)) := by
  cases declarations <;> simp only [Declaration.text, bodyText, String.append_assoc]

theorem separatedText_eq (depth : Nat) (declarations : List Declaration) :
    separatedText depth declarations =
      String.join (declarations.map fun declaration => "\n" ++ declaration.text depth) := by
  induction declarations with
  | nil => rfl
  | cons declaration declarations ih =>
    rw [separatedText, ih, List.map_cons, String.join_cons]

theorem Declaration.text_start (depth : Nat) (declaration : Declaration) :
    ∃ more, declaration.text depth = indentation depth ++ ("export " ++ more) := by
  cases declaration with
  | group name declarations =>
    rw [Declaration.text_group, String.append_assoc]
    exact ⟨"namespace " ++ _, rfl⟩
  | _ =>
    simp only [Declaration.text, String.append_assoc]
    first
      | exact ⟨"interface " ++ _, rfl⟩
      | exact ⟨"enum " ++ _, rfl⟩
      | exact ⟨"type " ++ _, rfl⟩

theorem Closes.not_line {depth : Nat} {rest : List Char} (h : Closes depth rest) :
    ¬ "\n".toList <+: rest := by
  obtain ⟨more, rfl⟩ := h
  rw [String.toList_append, List.append_assoc, indentation, String.toList_ofList]
  cases 4 * depth <;> simp [List.replicate_succ]

theorem reads_body {item : Reading Declaration} {declarations : List Declaration} (depth : Nat)
    {follow : List Char → Prop} (h : ∀ declaration ∈ declarations,
      Reads item (declaration.text (depth + 1)) declaration fun _ => True) :
    Reads (body depth item) (bodyText depth declarations) declarations follow := by
  cases declarations with
  | nil => exact reads_ifNext_mark _ []
  | cons first others =>
    have hitems : Reads (separated "\n" item) (first.text (depth + 1) ++
        String.join (others.map fun declaration => "\n" ++ declaration.text (depth + 1)))
        (first :: others) (Closes depth) :=
      reads_separated (by decide) h (fun _ => trivial) (fun _ _ => trivial) fun _ hr => hr.not_line
    rw [bodyText, separatedText_eq]
    refine reads_ifNext_missing (hitems.bind ((reads_expect _).map fun _ => first :: others)
      fun rest _ => List.prefix_append _ _) fun rest _ hclosed => ?_
    obtain ⟨more, hmore⟩ := first.text_start (depth + 1)
    refine Closes.not_indentation hclosed ?_
    simp only [hmore, String.toList_append, List.append_assoc]
    exact List.prefix_append _ _

/-- Each declaration in a group is shorter than the group. -/
theorem length_lt_group {declaration : Declaration} {declarations : List Declaration}
    (h : declaration ∈ declarations) (depth : Nat) (name : String) :
    (declaration.text (depth + 1)).length <
      ((Declaration.group name declarations).text depth).length := by
  have hbrace : " \x7b\n".length = 3 := by decide
  rw [Declaration.text_group]
  simp only [String.length_append]
  cases declarations with
  | nil => cases h
  | cons first rest =>
    rw [bodyText, separatedText_eq]
    simp only [String.length_append]
    rcases List.mem_cons.1 h with rfl | h
    · omega
    · have hrest := length_le_join h "\n" (Declaration.text (depth + 1))
      omega

/-- A declaration is taken, whatever comes after it. -/
theorem Declaration.WellFormed.reads {declaration : Declaration} (h : declaration.WellFormed)
    {fuel depth : Nat} (hfuel : (declaration.text depth).length < fuel) :
    Reads (declarationWithin fuel depth) (declaration.text depth) declaration fun _ => True := by
  induction h generalizing fuel depth with
  | interface hname hbases hproperties =>
    obtain ⟨fuel, rfl⟩ := Nat.exists_eq_add_of_lt hfuel
    exact reads_interface hname hbases hproperties depth _
  | enumeration hname hmembers =>
    obtain ⟨fuel, rfl⟩ := Nat.exists_eq_add_of_lt hfuel
    exact reads_enumeration hname hmembers depth _
  | typeAlias hname htype =>
    obtain ⟨fuel, rfl⟩ := Nat.exists_eq_add_of_lt hfuel
    exact reads_typeAlias hname htype depth _
  | @group name declarations hname _ ih =>
    obtain ⟨fuel, rfl⟩ : ∃ m, fuel = m + 1 := ⟨fuel - 1, by omega⟩
    have hitems : ∀ declaration ∈ declarations, Reads (declarationWithin fuel (depth + 1))
        (declaration.text (depth + 1)) declaration fun _ => True := by
      intro declaration hmem
      have hshort := length_lt_group hmem depth name
      exact ih declaration hmem (by omega)
    rw [Declaration.text_group]
    refine reads_export "namespace" rfl (by decide)
      ((reads_span hname.parts).bind ((reads_expect " \x7b\n").andThen
        ((reads_body depth hitems).map (Declaration.group name))) fun rest _ => ?_)
    simp [isIdentifierPart]

/-! ### Files -/

/-- What comes after an imported name: another one or the end of the names. -/
def AfterImported (rest : List Char) : Prop :=
  ", ".toList <+: rest ∨ " \x7d from \"".toList <+: rest

theorem AfterImported.ends {rest : List Char} (h : AfterImported rest) :
    Ends isIdentifierPart rest := by
  rcases h with h | h
  · exact ends_of_start h rfl
  · exact ends_of_start h rfl

/-- The local name of an imported name. -/
def aliasText : Option String → String
  | none => ""
  | some name => " as " ++ name

theorem ImportedName.text_eq (imported : ImportedName) :
    imported.text = imported.name ++ aliasText imported.localAlias := by
  obtain ⟨name, localAlias⟩ := imported
  cases localAlias with
  | none => exact String.append_empty.symm
  | some localAlias => exact String.append_assoc

theorem reads_alias {localAlias : Option String} (h : ∀ name ∈ localAlias, IsIdentifier name) :
    Reads (ifNext " as " (do return some (← word)) (return none)) (aliasText localAlias) localAlias
      AfterImported := by
  cases localAlias with
  | none =>
    refine reads_ifNext_missing (Reads.pure none) ?_
    rintro _ (⟨rest, rfl⟩ | ⟨rest, rfl⟩)
    · simp [aliasText]
    · simp [aliasText]
  | some name =>
    exact reads_ifNext_found (((reads_word (h name rfl)).map some).mono fun rest hr => hr.ends)

theorem reads_importedName {imported : ImportedName} (h : imported.WellFormed) :
    Reads importedName imported.text imported AfterImported := by
  rw [imported.text_eq]
  refine (reads_word h.1).bind ((reads_alias h.2).map (ImportedName.mk imported.name))
    fun rest hr => ?_
  cases imported.localAlias with
  | none => exact hr.ends
  | some name => simp [aliasText, isIdentifierPart]

/-- An import clause after its first brace, and the end of its line. -/
def importText (clause : ImportClause) : String :=
  ", ".intercalate (clause.names.map ImportedName.text) ++ " \x7d from \"" ++
    (String.ofList (clause.moduleSpecifier.toList.flatMap escapeChar) ++ "\"" ++ ";\n")

theorem ImportClause.line_eq (clause : ImportClause) :
    clause.line ++ "\n" = "import \x7b " ++ importText clause := by
  simp only [ImportClause.line, quoted, importText, String.append_assoc]
  rw [← @String.append_assoc " \x7d from "]
  rfl

theorem reads_importLine {clause : ImportClause}
    (h : ∀ imported ∈ clause.names, imported.WellFormed) :
    Reads importLine (importText clause) clause fun _ => True := by
  obtain ⟨moduleSpecifier, names⟩ := clause
  have hnames : Reads (ifNext " \x7d from \"" (return []) do
      let names ← separated ", " importedName
      expect " \x7d from \""
      return names) (", ".intercalate (names.map ImportedName.text) ++ " \x7d from \"") names
      fun _ => True := by
    cases names with
    | nil => exact reads_ifNext_mark " \x7d from \"" []
    | cons first others =>
      have hitems : Reads (separated ", " importedName)
          (first.text ++ String.join (others.map fun imported => ", " ++ imported.text))
          (first :: others) (fun rest => " \x7d from \"".toList <+: rest) :=
        reads_separated (by decide) (fun imported hmem => reads_importedName (h imported hmem))
          (fun _ => .inl (List.prefix_append _ _)) (fun _ => .inr)
          (by rintro _ ⟨rest, rfl⟩; simp)
      rw [intercalate_map]
      refine reads_ifNext_missing (hitems.bind ((reads_expect _).map fun _ => first :: others)
        fun rest _ => List.prefix_append _ _) fun rest _ => ?_
      simp only [first.text_eq, String.append_assoc]
      rw [String.toList_append, List.append_assoc]
      exact (h first List.mem_cons_self).1.not_start _ rfl _
  exact hnames.andThen ((reads_quotedRest moduleSpecifier).andThen
    ((reads_expect ";\n").map fun _ => ImportClause.mk moduleSpecifier names))

/-- The imports of a file and what comes after them: nothing, or a line and a declaration. -/
theorem reads_imports {clauses : List ImportClause}
    (h : ∀ clause ∈ clauses, ∀ imported ∈ clause.names, imported.WellFormed) :
    Reads imports (importsText clauses) clauses fun rest => rest = [] ∨ "\ne".toList <+: rest := by
  cases clauses with
  | nil =>
    refine reads_ifNext_missing (Reads.pure []) ?_
    rintro _ (rfl | ⟨rest, rfl⟩)
    · simp [importsText]
    · simp [importsText]
  | cons clause clauses =>
    have hlines : Reads (separated "import \x7b " importLine) (importText clause ++
        String.join (clauses.map fun clause => "import \x7b " ++ importText clause))
        (clause :: clauses) fun rest => rest = [] ∨ "\ne".toList <+: rest := by
      refine reads_separated (by decide) (fun clause hmem => reads_importLine (h clause hmem))
        (fun _ => trivial) (fun _ _ => trivial) ?_
      rintro _ (rfl | ⟨rest, rfl⟩)
      · simp
      · simp
    have htext : importsText (clause :: clauses) = "\nimport \x7b " ++ (importText clause ++
        String.join (clauses.map fun clause => "import \x7b " ++ importText clause)) := by
      rw [importsText, if_neg (by simp), List.map_cons, String.join_cons, clause.line_eq]
      simp only [ImportClause.line_eq, ← String.append_assoc]
      rfl
    rw [htext]
    exact reads_ifNext_found hlines

/-- The reader recovers the imports and the declarations of a well-formed file. -/
theorem SourceFile.WellFormed.readSource? {file : SourceFile} (h : file.WellFormed) :
    readSource? file.text = some (file.imports, file.declarations) := by
  have hdeclarations : Reads (many "\n" declaration) (separatedText 0 file.declarations)
      file.declarations (· = []) := by
    rw [separatedText_eq]
    refine reads_many (by decide) (fun found hmem => reads_fueled fun fuel hfuel =>
      (h.declarations found hmem).reads hfuel) (fun _ => trivial) (fun _ _ => trivial) ?_
    rintro _ rfl
    simp
  have hsource : Reads source file.text (file.imports, file.declarations) (· = []) := by
    rw [SourceFile.text, String.append_assoc]
    refine (reads_expect header).andThen ((reads_imports h.imports).bind
      (hdeclarations.map fun declarations => (file.imports, declarations)) ?_)
    rintro _ rfl
    cases file.declarations with
    | nil => exact .inl rfl
    | cons first others =>
      obtain ⟨more, hmore⟩ := first.text_start 0
      refine .inr ?_
      simp only [separatedText, hmore, indentation]
      simp
  have hrun := hsource [] rfl
  rw [List.append_nil] at hrun
  rw [Typing.readSource?, hrun]

/-- **A well-formed file is determined by its text up to its name**: a reader recovers its imports
and declarations, so no other well-formed file with the same text has different ones. -/
theorem SourceFile.readBack {file : SourceFile} (h : file.WellFormed) :
    Typing.readSource? file.text = some (file.imports, file.declarations) ∧
      ∀ other : SourceFile, other.WellFormed → other.text = file.text →
        other.imports = file.imports ∧ other.declarations = file.declarations := by
  refine ⟨h.readSource?, fun other hother htext => ?_⟩
  have hread := hother.readSource?
  rw [htext, h.readSource?] at hread
  exact Prod.mk.inj (Option.some.inj hread).symm

/-- A file with nested groups, names in quotes, escapes and empty bodies. -/
def nestedFile : SourceFile where
  fileName := "Nested.ts"
  namespaceName := "nested"
  imports := [⟨"./a\\b\"c", [⟨"IBook", none⟩, ⟨"Genre", some "Genre_1"⟩]⟩, ⟨"./empty", []⟩]
  declarations := [
    .interface "IOrder" ["IBook", "Genre_1"] [
      ⟨"id", false, .primitive .string⟩,
      ⟨"line items", true, .array (.object [⟨"a\n?", false, .unknown⟩, ⟨"b", true, .object []⟩])⟩],
    .group "Order.actions" [
      .group "inner" [],
      .enumeration "Status" [⟨"open", some (.text "\"o\"")⟩, ⟨"1st", some (.literal "1,")⟩,
        ⟨"", none⟩],
      .typeAlias "Result" (.array (.array (.reference "IBook")))],
    .interface "Empty" [] []]

/-- The nested file is well formed, so its text can be read back. -/
theorem readBack_nestedFile : nestedFile.WellFormed ∧
    Typing.readSource? nestedFile.text = some (nestedFile.imports, nestedFile.declarations) := by
  have hitems : ∀ property ∈ [Property.mk "a\n?" false .unknown, ⟨"b", true, .object []⟩],
      property.type.WellFormed :=
    List.forall_mem_cons.2 ⟨.unknown, List.forall_mem_singleton.2 (.object (List.forall_mem_nil _))⟩
  have hparts : ∀ declaration ∈ [Declaration.group "inner" [],
      .enumeration "Status" [⟨"open", some (.text "\"o\"")⟩, ⟨"1st", some (.literal "1,")⟩,
        ⟨"", none⟩],
      .typeAlias "Result" (.array (.array (.reference "IBook")))], declaration.WellFormed := by
    refine List.forall_mem_cons.2 ⟨?_, List.forall_mem_cons.2 ⟨?_, List.forall_mem_singleton.2 ?_⟩⟩
    · exact .group ⟨["inner"], by decide, by decide, by decide⟩ (List.forall_mem_nil _)
    · exact .enumeration (by decide) (by decide)
    · refine .typeAlias (by decide) (.array (.array (.reference (by decide) (by decide) ?_)))
      intro p
      cases p <;> decide
  have hwell : nestedFile.WellFormed := by
    refine ⟨by decide, List.forall_mem_cons.2 ⟨?_, List.forall_mem_cons.2
      ⟨?_, List.forall_mem_singleton.2 ?_⟩⟩⟩
    · exact .interface (by decide) (by decide) (List.forall_mem_cons.2
        ⟨.primitive .string, List.forall_mem_singleton.2 (.array (.object hitems))⟩)
    · exact .group ⟨["Order", "actions"], by decide, by decide, by decide⟩ hparts
    · exact .interface (by decide) (List.forall_mem_nil _) (List.forall_mem_nil _)
  exact ⟨hwell, (SourceFile.readBack hwell).1⟩

end SchemaTypings.Typing
