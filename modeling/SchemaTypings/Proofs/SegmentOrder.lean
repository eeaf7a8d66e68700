import SchemaTypings.Proofs.Enclosing

/-!
# The order of segments

Enclosing compares texts, but what it decides is an order of segments: a name encloses another
exactly if its segments are a proper initial part of the other's (`encloses_iff_segments`).  The
same can be read off the bytes of the two names in UTF-8 (`enclosesBytes_eq`).  The main result
`encloses_isSegmentOrder` joins both to the laws of the order.
-/

namespace SchemaTypings.Name

open SchemaTypings.Text SchemaTypings.Schema

/-! ### Segments -/

theorem segments_ne_nil (name : String) : segments name ≠ [] := fun h =>
  split_ne_nil '.' name.toList (List.map_eq_nil_iff.1 h)

theorem segments_append_dot (a b : String) :
    segments (a ++ "." ++ b) = segments a ++ segments b := by
  have hlist : (a ++ "." ++ b).toList = a.toList ++ '.' :: b.toList := by simp
  rw [segments, hlist, split_append_mark, List.map_append]
  rfl

theorem segments_of_not_mem {name : String} (h : '.' ∉ name.toList) : segments name = [name] := by
  rw [segments, split_of_not_mem h, List.map_singleton, String.ofList_toList]

/-- A segment has no dot, so it is its only segment. -/
theorem segments_of_mem_segments {name segment : String} (h : segment ∈ segments name) :
    segments segment = [segment] := by
  obtain ⟨piece, hp, rfl⟩ := List.mem_map.1 h
  apply segments_of_not_mem
  rw [String.toList_ofList]
  exact not_mem_of_mem_split hp

/-- Names with the same segments are the same. -/
theorem segments_inj {a b : String} : segments a = segments b ↔ a = b := by
  constructor
  · intro h
    have hsplit : split '.' a.toList = split '.' b.toList :=
      List.map_injective_iff.2 (fun _ _ => String.ofList_injective) h
    rw [← String.toList_inj, ← joinWith_split '.' a.toList, hsplit, joinWith_split]
  · intro h
    rw [h]

/-- A name whose segments form two groups falls apart at the dot between them. -/
theorem exists_append_of_segments {name : String} {front back : List String}
    (h : segments name = front ++ back) (hf : front ≠ []) (hb : back ≠ []) :
    ∃ before after, name = before ++ "." ++ after ∧ segments before = front ∧
      segments after = back := by
  obtain ⟨front, back, hsplit, rfl, rfl⟩ := List.map_eq_append_iff.1 h
  obtain ⟨before, after, hname, hbefore, hafter⟩ := exists_append_of_split hsplit
    (fun e => hf (by rw [e]; rfl)) fun e => hb (by rw [e]; rfl)
  refine ⟨String.ofList before, String.ofList after, ?_, ?_, ?_⟩
  · rw [← String.toList_inj, hname]
    simp
  · rw [segments, String.toList_ofList, hbefore]
  · rw [segments, String.toList_ofList, hafter]

/-! ### Proper prefixes -/

/-- What a scope encloses continues it after a dot. -/
theorem encloses_iff_exists {scope name : String} :
    encloses scope name = true ↔ scope ≠ "" ∧ ∃ rest, name = scope ++ "." ++ rest := by
  rw [encloses_iff]
  refine and_congr_right fun _ => ⟨?_, ?_⟩
  · rintro ⟨rest, hrest⟩
    refine ⟨String.ofList rest, ?_⟩
    rw [← String.toList_inj, ← hrest]
    simp
  · rintro ⟨rest, rfl⟩
    exact ⟨rest.toList, by simp⟩

/-- A scope encloses the names whose segments begin with its own and go on. -/
theorem encloses_iff_segments {scope name : String} :
    encloses scope name = true ↔
      scope ≠ "" ∧ segments scope <+: segments name ∧ segments scope ≠ segments name := by
  rw [encloses_iff_exists]
  refine and_congr_right fun _ => ⟨?_, ?_⟩
  · rintro ⟨rest, rfl⟩
    rw [segments_append_dot]
    exact ⟨List.prefix_append _ _, fun h => segments_ne_nil rest (List.self_eq_append_right.1 h)⟩
  · rintro ⟨⟨more, hmore⟩, hne⟩
    have hrest : more ≠ [] := fun h => hne (by rw [← hmore, h, List.append_nil])
    obtain ⟨before, after, rfl, hbefore, -⟩ :=
      exists_append_of_segments hmore.symm (segments_ne_nil scope) hrest
    exact ⟨after, by rw [segments_inj.1 hbefore]⟩

/-! ### Bytes -/

/-- Enclosing read off the bytes: the name is longer than the scope and starts with it, and the
byte behind it is a dot. -/
def enclosesBytes (scope name : String) : Bool :=
  if h : scope.utf8ByteSize < name.utf8ByteSize then
    scope != "" && name.startsWith scope &&
      name.getUTF8Byte ⟨scope.utf8ByteSize⟩ h == '.'.toUInt8
  else false

/-- Of all characters only the dot begins with the byte of the dot. -/
theorem head?_utf8EncodeChar_iff (c : Char) :
    (String.utf8EncodeChar c).head? = some '.'.toUInt8 ↔ c = '.' := by
  have hbyte : '.'.toUInt8 = UInt8.ofNat 46 := rfl
  have hcode : c = '.' ↔ c.val.toNat = 46 := by
    rw [← Char.toNat_inj]
    rfl
  rw [hbyte, hcode]
  -- one case for each length of the encoding; the longer ones begin above 127
  fun_cases String.utf8EncodeChar c <;>
    simp only [List.head?_cons, Option.some.injEq, ← UInt8.toNat_inj, UInt8.toNat_ofNat'] <;>
    omega

/-- The byte behind a text is the first of the character that follows. -/
theorem getUTF8Byte_append_cons {scope : String} {c : Char} {cs : List Char}
    (h : (⟨scope.utf8ByteSize⟩ : String.Pos.Raw) < (scope ++ String.ofList (c :: cs)).rawEndPos) :
    (scope ++ String.ofList (c :: cs)).getUTF8Byte ⟨scope.utf8ByteSize⟩ h =
      (String.utf8EncodeChar c).head String.utf8EncodeChar_ne_nil := by
  have hpos : 0 < (String.utf8EncodeChar c).toByteArray.size := by
    simpa using c.utf8Size_pos
  simp only [String.getUTF8Byte, String.toByteArray_append, String.toByteArray_ofList]
  rw [ByteArray.getElem_append_right (by simp)]
  simp only [List.utf8Encode, List.flatMap_cons, List.toByteArray_append,
    String.size_toByteArray, Nat.sub_self]
  rw [ByteArray.getElem_append_left hpos, List.getElem_toByteArray, List.head_eq_getElem]

/-- The byte behind a text is that of a dot exactly if a dot follows. -/
theorem getUTF8Byte_eq_dot_iff {scope rest : String}
    (h : (⟨scope.utf8ByteSize⟩ : String.Pos.Raw) < (scope ++ rest).rawEndPos) :
    (scope ++ rest).getUTF8Byte ⟨scope.utf8ByteSize⟩ h = '.'.toUInt8 ↔
      ∃ more, rest = "." ++ more := by
  obtain ⟨cs, rfl⟩ := rest.exists_eq_ofList
  cases cs with
  | nil => simp [String.Pos.Raw.lt_iff] at h
  | cons c cs =>
    rw [getUTF8Byte_append_cons, ← Option.some_inj, ← List.head?_eq_some_head,
      head?_utf8EncodeChar_iff]
    constructor
    · rintro rfl
      exact ⟨String.ofList cs, by rw [← String.toList_inj]; simp⟩
    · rintro ⟨more, hmore⟩
      simpa using congrArg (fun s => s.toList.head?) hmore

theorem utf8ByteSize_append_dot (scope rest : String) :
    (scope ++ "." ++ rest).utf8ByteSize = scope.utf8ByteSize + 1 + rest.utf8ByteSize := by
  rw [String.utf8ByteSize_append, String.utf8ByteSize_append]
  rfl

theorem enclosesBytes_eq (scope name : String) :
    enclosesBytes scope name = encloses scope name := by
  rw [Bool.eq_iff_iff, encloses_iff_exists, enclosesBytes]
  constructor
  · intro h
    split at h
    · next hlt =>
      rw [Bool.and_eq_true, Bool.and_eq_true, String.startsWith_string_iff] at h
      obtain ⟨⟨hne, rest, hrest⟩, hdot⟩ := h
      obtain rfl : name = scope ++ String.ofList rest := by
        rw [← String.toList_inj, ← hrest]
        simp
      obtain ⟨more, hmore⟩ := (getUTF8Byte_eq_dot_iff hlt).1 (by simpa using hdot)
      exact ⟨by simpa using hne, more, by rw [hmore, String.append_assoc]⟩
    · cases h
  · rintro ⟨hne, rest, rfl⟩
    have hlt : scope.utf8ByteSize < (scope ++ "." ++ rest).utf8ByteSize := by
      have := utf8ByteSize_append_dot scope rest
      omega
    rw [String.append_assoc] at hlt ⊢
    rw [dif_pos hlt, (getUTF8Byte_eq_dot_iff hlt).2 ⟨rest, rfl⟩]
    simp [hne, String.startsWith_string_iff]

/-! ### The order -/

/-- A name has more bytes than what encloses it. -/
theorem utf8ByteSize_lt_of_encloses {a b : String} (h : encloses a b = true) :
    a.utf8ByteSize < b.utf8ByteSize := by
  obtain ⟨-, rest, rfl⟩ := encloses_iff_exists.1 h
  have := utf8ByteSize_append_dot a rest
  omega

/-- Of two names that enclose the same one the shorter encloses the longer. -/
theorem encloses_iff_utf8ByteSize_lt {a b name : String} (ha : encloses a name = true)
    (hb : encloses b name = true) :
    encloses a b = true ↔ a.utf8ByteSize < b.utf8ByteSize := by
  constructor
  · exact utf8ByteSize_lt_of_encloses
  · intro hlt
    rcases encloses_chain ha hb with rfl | hab | hba
    · omega
    · exact hab
    · have := utf8ByteSize_lt_of_encloses hba
      omega

/-- A relation between names that is the order of proper prefixes on their segments, and a function
that gives the greatest of the names below one. -/
structure IsSegmentOrder (below : String → String → Bool) (greatest? : String → Option String) :
    Prop where
  /-- Below a name are the non-empty names whose segments are a proper prefix of its segments. -/
  iff_segments : ∀ a b, below a b = true ↔
    a ≠ "" ∧ segments a <+: segments b ∧ segments a ≠ segments b
  /-- No name is below itself. -/
  irrefl : ∀ a, ¬ below a a = true
  /-- What is below a name below another is below that one. -/
  trans : ∀ a b c, below a b = true → below b c = true → below a c = true
  /-- The names below one form a chain. -/
  chain : ∀ a b name, below a name = true → below b name = true →
    a = b ∨ below a b = true ∨ below b a = true
  /-- In that chain the names ascend with their number of bytes. -/
  iff_bytes : ∀ a b name, below a name = true → below b name = true →
    (below a b = true ↔ a.utf8ByteSize < b.utf8ByteSize)
  /-- The greatest name below one is below it and above all others that are. -/
  greatest : ∀ name top, greatest? name = some top →
    below top name = true ∧ ∀ other, below other name = true → other ≠ top → below other top = true
  /-- There is no greatest one exactly if there is none at all. -/
  none_iff : ∀ name, greatest? name = none ↔ ∀ other, ¬ below other name = true

/-- **Enclosing is the order of proper prefixes on segments.**  The parent of a name is the
greatest of the names that enclose it, and the bytes of two names decide the same as their
characters. -/
theorem encloses_isSegmentOrder :
    IsSegmentOrder encloses parent? ∧
      ∀ scope name, enclosesBytes scope name = encloses scope name := by
  refine ⟨⟨fun _ _ => encloses_iff_segments, not_encloses_self, fun _ _ _ => encloses_trans,
    fun _ _ _ => encloses_chain, fun _ _ _ => encloses_iff_utf8ByteSize_lt, ?_, ?_⟩,
    enclosesBytes_eq⟩
  · intro name top htop
    refine ⟨encloses_of_parent? htop, fun other hother hne => ?_⟩
    exact (eq_or_encloses_parent? htop hother).resolve_left hne
  · intro name
    constructor
    · exact not_encloses_of_parent?_eq_none
    · intro hnone
      cases hparent : parent? name with
      | none => rfl
      | some top => exact absurd (encloses_of_parent? hparent) (hnone top)

-- an empty segment counts, but the empty name encloses nothing
example : encloses "." "..é" = true ∧ parent? "..é" = some "." ∧ encloses "" ".é" = false ∧
    parent? ".é" = none := by decide

end SchemaTypings.Name
