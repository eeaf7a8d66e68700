import SchemaTypings.Proofs.PrintedTokens
import SchemaTypings.Proofs.Tables
import SchemaTypings.Proofs.Writing

/-!
# Reading dumps

A schema that is dumped is read again as it was, with every member in its place.  The way there
goes through the tokens of a value: the indented text is read as these tokens, and from these
tokens the reader builds the value.
-/

namespace SchemaTypings.Json

namespace Value

/-- A value of at most so many levels that a text can give back: no key is repeated, and every
number is an integer that fits 64 bits. -/
inductive Plain : Nat → Value → Prop where
  | null {levels : Nat} : Plain levels .null
  | bool {levels : Nat} (b : Bool) : Plain levels (.bool b)
  | integer {levels : Nat} {i : Int} (low : -2 ^ 63 ≤ i) (high : i < 2 ^ 64) :
      Plain levels (.number (.integer i))
  | string {levels : Nat} (s : String) : Plain levels (.string s)
  | array {levels : Nat} {items : List Value} (items_plain : ∀ item ∈ items, Plain levels item) :
      Plain (levels + 1) (.array items)
  | object {levels : Nat} {members : Members} (distinct : (members.map Prod.fst).Nodup)
      (members_plain : ∀ member ∈ members, Plain levels member.2) :
      Plain (levels + 1) (.object members)

/-! ### Tokens of values -/

mutual

/-- The tokens of a value. -/
def tokens : Value → List Token
  | null => [.null]
  | bool b => [.bool b]
  | number n => [.number n]
  | string s => [.text s]
  | array [] => [.openArray, .closeArray]
  | array (item :: rest) => .openArray :: (tokens item ++ itemTokens rest)
  | object [] => [.openObject, .closeObject]
  | object ((key, value) :: rest) =>
    .openObject :: .text key :: .colon :: (tokens value ++ memberTokens rest)

/-- The tokens of the items of an array after the first. -/
def itemTokens : List Value → List Token
  | [] => [.closeArray]
  | item :: rest => .comma :: (tokens item ++ itemTokens rest)

/-- The tokens of the members of an object after the first. -/
def memberTokens : Members → List Token
  | [] => [.closeObject]
  | (key, value) :: rest => .comma :: .text key :: .colon :: (tokens value ++ memberTokens rest)

end

/-! ### Lexing indented values -/

/-- At every depth a value is read as its tokens. -/
def IsLexed (v : Value) : Prop := ∀ depth cs tokens, FollowsWord cs → Lexes cs tokens →
  Lexes (v.indentedChars depth ++ cs) (v.tokens ++ tokens)

theorem lexes_newline {cs : List Char} {tokens : List Token} (depth : Nat)
    (h : Lexes cs tokens) : Lexes (newline depth ++ cs) tokens := by
  refine .spaces (fun c hc => ?_) h
  rcases List.mem_cons.1 hc with rfl | hblank
  · rfl
  · rw [(List.mem_replicate.1 hblank).2]
    rfl

theorem followsWord_items (depth : Nat) (items : List Value) (cs : List Char) :
    FollowsWord (indentedItems depth items ++ cs) := by
  intro c hc
  cases items <;> cases hc <;> rfl

theorem followsWord_members (depth : Nat) (members : Members) (cs : List Char) :
    FollowsWord (indentedMembers depth members ++ cs) := by
  intro c hc
  rcases members with _ | ⟨⟨key, value⟩, rest⟩ <;> cases hc <;> rfl

/-- The items after the first are read one after another. -/
theorem lexes_items {items : List Value} (hitems : ∀ item ∈ items, item.IsLexed) (depth : Nat)
    {cs : List Char} {tokens : List Token} (h : Lexes cs tokens) :
    Lexes (indentedItems depth items ++ cs) (itemTokens items ++ tokens) := by
  induction items with
  | nil =>
    rw [indentedItems, itemTokens, List.append_assoc]
    exact lexes_newline depth (.mark rfl rfl h)
  | cons item rest ih =>
    rw [List.forall_mem_cons] at hitems
    simp only [indentedItems, itemTokens, List.cons_append, List.append_assoc]
    exact .mark rfl rfl (lexes_newline (depth + 1)
      (hitems.1 _ _ _ (followsWord_items depth rest cs) (ih hitems.2)))

/-- A member is read as its key, a colon and its value. -/
theorem lexes_member {value : Value} (hvalue : value.IsLexed) (depth : Nat) (key : String)
    {cs : List Char} {tokens : List Token} (hcs : FollowsWord cs) (h : Lexes cs tokens) :
    Lexes (newline depth ++ (quote key ++ ':' :: ' ' :: (value.indentedChars depth ++ cs)))
      (.text key :: .colon :: (value.tokens ++ tokens)) :=
  lexes_newline depth (.quote key (.mark rfl rfl (.space rfl (hvalue _ _ _ hcs h))))

/-- The members after the first are read one after another. -/
theorem lexes_members {members : Members} (hmembers : ∀ member ∈ members, member.2.IsLexed)
    (depth : Nat) {cs : List Char} {tokens : List Token} (h : Lexes cs tokens) :
    Lexes (indentedMembers depth members ++ cs) (memberTokens members ++ tokens) := by
  induction members with
  | nil =>
    rw [indentedMembers, memberTokens, List.append_assoc]
    exact lexes_newline depth (.mark rfl rfl h)
  | cons member rest ih =>
    rw [List.forall_mem_cons] at hmembers
    simp only [indentedMembers, memberTokens, List.cons_append, List.append_assoc]
    exact .mark rfl rfl (lexes_member hmembers.1 (depth + 1) member.1
      (followsWord_members depth rest cs) (ih hmembers.2))

/-- The indented text of a plain value is read as its tokens. -/
theorem Plain.isLexed {levels : Nat} {v : Value} (h : Plain levels v) : v.IsLexed := by
  induction h with
  | null => exact fun _ _ _ hcs hlexes => .null hcs hlexes
  | bool b => exact fun _ _ _ hcs hlexes => .bool b hcs hlexes
  | integer low high => exact fun _ _ _ hcs hlexes => .integer low high hcs hlexes
  | string s => exact fun _ _ _ _ hlexes => .quote s hlexes
  | @array _ items _ ih =>
    intro depth cs tokens _ hlexes
    cases items with
    | nil => exact .mark rfl rfl (.mark rfl rfl hlexes)
    | cons item rest =>
      rw [List.forall_mem_cons] at ih
      simp only [indentedChars, Value.tokens, List.cons_append, List.append_assoc]
      exact .mark rfl rfl (lexes_newline (depth + 1) (ih.1 _ _ _
        (followsWord_items depth rest cs) (lexes_items ih.2 depth hlexes)))
  | @object _ members _ _ ih =>
    intro depth cs tokens _ hlexes
    cases members with
    | nil => exact .mark rfl rfl (.mark rfl rfl hlexes)
    | cons member rest =>
      rw [List.forall_mem_cons] at ih
      simp only [indentedChars, Value.tokens, List.cons_append, List.append_assoc]
      exact .mark rfl rfl (lexes_member ih.1 (depth + 1) member.1
        (followsWord_members depth rest cs) (lexes_members ih.2 depth hlexes))

/-! ### Reading tokens of values -/

/-- Below any frames that leave room for the levels of a value, the reader finishes the value
after its tokens. -/
def IsRead (limit levels : Nat) (v : Value) : Prop := ∀ frames first tokens,
  frames.length + levels ≤ limit →
    Reader.run limit (.awaitValue frames first) (v.tokens ++ tokens) =
      Reader.run limit (.finished v frames) tokens

section Reading

variable {limit levels : Nat}

/-- After one item the others are read, and the array is finished. -/
theorem run_itemTokens {items : List Value} (hitems : ∀ item ∈ items, IsRead limit levels item)
    {frames : List Frame} (hlimit : frames.length + (levels + 1) ≤ limit) (done : List Value)
    (item : Value) (tokens : List Token) :
    Reader.run limit (.finished item (.items done :: frames)) (itemTokens items ++ tokens) =
      Reader.run limit (.finished (.array (done.reverse ++ item :: items)) frames) tokens := by
  -- the items that are read wait in the frame, last first, while those to come get fewer
  induction items generalizing done item with
  | nil =>
    show Reader.run limit (.finished (.array (item :: done).reverse) frames) tokens = _
    rw [List.reverse_cons]
  | cons next rest ih =>
    rw [List.forall_mem_cons] at hitems
    have hnext := hitems.1 (.items (item :: done) :: frames) false (itemTokens rest ++ tokens)
      (by rw [List.length_cons]; omega)
    simp only [itemTokens, List.cons_append, List.append_assoc]
    show Reader.run limit (.awaitValue (.items (item :: done) :: frames) false) _ = _
    rw [hnext, ih hitems.2, List.reverse_cons, List.append_assoc]
    rfl

/-- After one member the others are read, and the object is finished. -/
theorem run_memberTokens {members : Members}
    (hmembers : ∀ member ∈ members, IsRead limit levels member.2) {frames : List Frame}
    (hlimit : frames.length + (levels + 1) ≤ limit) (done : Members) (key : String) (value : Value)
    (tokens : List Token) :
    Reader.run limit (.finished value (.member done key :: frames))
        (memberTokens members ++ tokens) =
      Reader.run limit (.finished (.object (done.reverse ++ (key, value) :: members)) frames)
        tokens := by
  induction members generalizing done key value with
  | nil =>
    show Reader.run limit (.finished (.object ((key, value) :: done).reverse) frames) tokens = _
    rw [List.reverse_cons]
  | cons next rest ih =>
    rw [List.forall_mem_cons] at hmembers
    have hnext := hmembers.1 (.member ((key, value) :: done) next.1 :: frames) false
      (memberTokens rest ++ tokens) (by rw [List.length_cons]; omega)
    simp only [memberTokens, List.cons_append, List.append_assoc]
    show Reader.run limit
      (.awaitValue (.member ((key, value) :: done) next.1 :: frames) false) _ = _
    rw [hnext, ih hmembers.2, List.reverse_cons, List.append_assoc]
    rfl

/-- The tokens of a value with few enough levels are read as the value. -/
theorem Plain.isRead {v : Value} (h : Plain levels v) : IsRead limit levels v := by
  induction h with
  | null => exact fun _ _ _ _ => rfl
  | bool b => exact fun _ _ _ _ => rfl
  | integer low high => exact fun _ _ _ _ => rfl
  | string s => exact fun _ _ _ _ => rfl
  | @array levels items _ ih =>
    intro frames first tokens hlimit
    have hopen : Reader.step limit (.awaitValue frames first) .openArray =
        some (.awaitValue (.items [] :: frames) true) := if_pos (by omega)
    cases items with
    | nil =>
      rw [Value.tokens, List.cons_append, Reader.run_cons, hopen]
      rfl
    | cons item rest =>
      rw [List.forall_mem_cons] at ih
      rw [Value.tokens, List.cons_append, Reader.run_cons, hopen, Option.bind_some,
        List.append_assoc, ih.1 _ _ _ (by rw [List.length_cons]; omega),
        run_itemTokens ih.2 hlimit]
      rfl
  | @object levels members _ _ ih =>
    intro frames first tokens hlimit
    have hopen : Reader.step limit (.awaitValue frames first) .openObject =
        some (.awaitKey [] frames true) := if_pos (by omega)
    cases members with
    | nil =>
      rw [Value.tokens, List.cons_append, Reader.run_cons, hopen]
      rfl
    | cons member rest =>
      rw [List.forall_mem_cons] at ih
      have hvalue := ih.1 (.member [] member.1 :: frames) false (memberTokens rest ++ tokens)
        (by rw [List.length_cons]; omega)
      simp only [Value.tokens, List.cons_append, List.append_assoc, Reader.run_cons, hopen,
        Option.bind_some]
      show Reader.run limit (.awaitValue (.member [] member.1 :: frames) false) _ = _
      rw [hvalue, run_memberTokens ih.2 hlimit]
      rfl

end Reading

/-! ### Keys -/

theorem mergedItems_eq_map (items : List Value) : mergedItems items = items.map merged := by
  induction items with
  | nil => rfl
  | cons item rest ih => rw [mergedItems, ih, List.map_cons]

theorem mergedMembers_eq_map (members : Members) :
    mergedMembers members = members.map fun member => (member.1, member.2.merged) := by
  induction members with
  | nil => rfl
  | cons member rest ih => rw [mergedMembers, ih, List.map_cons]

/-- Where no key is repeated, nothing is merged. -/
theorem Plain.merged {levels : Nat} {v : Value} (h : Plain levels v) : v.merged = v := by
  induction h with
  | null => rfl
  | bool b => rfl
  | integer low high => rfl
  | string s => rfl
  | array _ ih =>
    rw [Value.merged, mergedItems_eq_map, List.map_congr_left ih, List.map_id']
  | object distinct _ ih =>
    have hmembers := List.map_congr_left fun member hmember =>
      congrArg (Prod.mk member.1) (ih member hmember)
    rw [List.map_id'] at hmembers
    rw [Value.merged, mergedMembers_eq_map, hmembers, Table.entries_ofEntries distinct]

/-- **A plain value is loaded from its indented text.** -/
theorem Plain.load?_indented {v : Value} (h : Plain nestingLimit v) :
    load? v.indented = some v := by
  have htokens := (h.isLexed 0 [] [] (fun _ hc => by cases hc) .nil).tokens?
  have hread : IsRead nestingLimit nestingLimit v := h.isRead
  rw [List.append_nil, List.append_nil] at htokens
  have hrun := hread [] false [] (Nat.zero_add _).le
  rw [List.append_nil] at hrun
  rw [load?, read?, indented, htokens, Option.bind_some, ofTokens?, hrun]
  exact congrArg some h.merged

end Value

end SchemaTypings.Json

namespace SchemaTypings.Run

open SchemaTypings.Generation SchemaTypings.Json

/-- A dump holds the indented text of the schema. -/
theorem read?_dumpSchema {directory : String} {schema : Value} {fs after : FileSystem}
    (h : (dumpSchema directory schema).on fs = (.ok (), after)) :
    after.read? (dumpPath directory) = some schema.indented := by
  rw [dumpSchema, on_writeFile] at h
  cases hwrite : fs.write? (dumpPath directory) schema.indented with
  | none => rw [hwrite] at h; cases h
  | some written =>
    rw [hwrite] at h
    cases h
    rw [FileSystem.read?, FileSystem.read_write? (isExtended_dumpPath directory) hwrite]
    rfl

/-- **A dump is the schema.**  A plain schema with an object of definitions is compiled from its
dump as it was, with all keys in their order; so whatever the options are, the same is generated
from the dump as from the schema. -/
theorem compile_dump {directory : String} {schema : Value} {definitions : Members}
    {fs after : FileSystem} (hplain : schema.Plain nestingLimit)
    (hdefinitions : (schema.member? "definitions").bind Value.members? = some definitions)
    (hdump : (dumpSchema directory schema).on fs = (.ok (), after)) (tools : Toolbox) :
    (Compiler.precompiled.compile tools (dumpPath directory)).on after = (.ok schema, after) ∧
    ∀ options : Options,
      (((Compiler.precompiled.compile tools (dumpPath directory)).on after).1.bind fun loaded =>
        (typings options loaded).mapError Failure.schema) =
      (typings options schema).mapError Failure.schema := by
  have hload : Compiler.loadFile after (dumpPath directory) = .ok schema := by
    rw [Compiler.loadFile, read?_dumpSchema hdump]
    simp only [hplain.load?_indented]
  have hensure : Compiler.ensureDefinitions schema = .ok schema := by
    rw [Compiler.ensureDefinitions, hdefinitions]
  have hcompile : (Compiler.precompiled.compile tools (dumpPath directory)).on after =
      (.ok schema, after) := by
    rw [Compiler.compile_precompiled_on, hload, Except.bind, hensure]
  refine ⟨hcompile, fun options => ?_⟩
  rw [hcompile]
  rfl

/-- A schema with the least and the greatest integer, empty containers, escaped texts and others. -/
def escapedSchema : Value :=
  .object
    [("definitions", .object [("a.\x22\\\n\x01ü", .object [("kind", .string "type"),
        ("type", .string "cds.String"), ("doc", .string "\t𝒳")])]),
      ("$bounds", .array [.number (.integer (-2 ^ 63)), .number (.integer (2 ^ 64 - 1)), .null]),
      ("", .array [.array [], .object [], .bool true])]

theorem plain_escapedSchema : escapedSchema.Plain nestingLimit := by
  have hdefinition : ∀ member ∈ ([("kind", .string "type"), ("type", .string "cds.String"),
      ("doc", .string "\t𝒳")] : Members), Value.Plain 124 member.2 := by
    simp only [List.forall_mem_cons]
    exact ⟨.string _, .string _, .string _, fun _ h => absurd h List.not_mem_nil⟩
  refine .object (by decide) ?_
  simp only [List.forall_mem_cons]
  refine ⟨.object (by decide) ?_, .array ?_, .array ?_, fun _ h => absurd h List.not_mem_nil⟩
  · simp only [List.forall_mem_cons]
    exact ⟨.object (by decide) hdefinition, fun _ h => absurd h List.not_mem_nil⟩
  · simp only [List.forall_mem_cons]
    exact ⟨.integer (by decide) (by decide), .integer (by decide) (by decide), .null,
      fun _ h => absurd h List.not_mem_nil⟩
  · simp only [List.forall_mem_cons]
    exact ⟨.array (by simp), .object (by simp) (by simp), .bool true,
      fun _ h => absurd h List.not_mem_nil⟩

/-- The schema with escaped texts is compiled from its dump. -/
theorem compile_dump_escaped : ∃ after,
    (dumpSchema "out" escapedSchema).on .empty = (.ok (), after) ∧
    (Compiler.precompiled.compile (fun _ _ _ _ => none) "out.json").on after =
      (.ok escapedSchema, after) := by
  have hplace : (FileSystem.empty.filePlace (dumpPath "out")).toOption =
      some ⟨false, ["out.json"]⟩ := by decide +kernel
  obtain ⟨after, hwrite⟩ : ∃ after,
      FileSystem.empty.write? (dumpPath "out") escapedSchema.indented = some after := by
    rw [FileSystem.write?, hplace]
    exact ⟨_, rfl⟩
  have hdump : (dumpSchema "out" escapedSchema).on .empty = (.ok (), after) := by
    rw [dumpSchema, on_writeFile, hwrite]
  exact ⟨after, hdump, (compile_dump plain_escapedSchema rfl hdump _).1⟩

end SchemaTypings.Run
