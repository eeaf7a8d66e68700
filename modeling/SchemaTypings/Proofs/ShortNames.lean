import SchemaTypings.Proofs.SegmentOrder

/-!
# Short names

The short name of a name is its last segment, or its last two if the last one is `texts`.  It can
also be taken from the name as it is stored: `shortSlice?` cuts off three pieces at most from the
end, computes from their sizes where the short name begins, and slices.  `short_isShortName` says
that no step of this fails, and what the result is.
-/

namespace SchemaTypings.Name

open SchemaTypings.Text SchemaTypings.Schema

/-! ### Slicing the bytes -/

/-- The segments of a text, last first, at most `count` of them; the last of that many is all that
remains of the text. -/
def segmentsFromEnd : Nat → List Char → List (List Char)
  | 0, _ => []
  | 1, cs => [cs]
  | count + 2, cs =>
    match beforeLastDot cs with
    | none => [cs]
    | some before => cs.drop (before.length + 1) :: segmentsFromEnd (count + 1) before

/-- A difference of sizes, unless it is negative. -/
def minus? (a b : Nat) : Option Nat := if b ≤ a then some (a - b) else none

/-- The part of a text from a byte on, unless that byte is beyond the text or inside a character. -/
def sliceFrom? (text : String) (start : Nat) : Option String :=
  if h : String.Pos.Raw.IsValid text ⟨start⟩ then some (text.sliceFrom ⟨⟨start⟩, h⟩).copy else none

/-- The short name, sliced off where the sizes of the last segments say that it begins. -/
def shortSlice? (name : String) : Option String :=
  let pieces := (segmentsFromEnd 3 name.toList).map String.ofList
  let last := pieces[0]?.getD name
  if last = "texts" then
    match pieces[1]? with
    | some owner => do
      let start ← minus? name.utf8ByteSize last.utf8ByteSize
      let start ← minus? start owner.utf8ByteSize
      let start ← minus? start 1
      sliceFrom? name start
    | none => some last
  else some last

theorem beforeLastDot_append {after : List Char} (h : '.' ∉ after) (before : List Char) :
    beforeLastDot (before ++ '.' :: after) = some before := by
  induction before with
  | nil =>
    rcases beforeLastDot_spec after with ⟨hnone, -⟩ | ⟨b, a, -, hafter, -⟩
    · simp [beforeLastDot, hnone]
    · exact absurd (by simp [hafter]) h
  | cons c rest ih => simp [beforeLastDot, ih]

theorem segmentsFromEnd_append {after : List Char} (h : '.' ∉ after) (count : Nat)
    (before : List Char) :
    segmentsFromEnd (count + 2) (before ++ '.' :: after) =
      after :: segmentsFromEnd (count + 1) before := by
  have hdrop : (before ++ '.' :: after).drop (before.length + 1) = after := by
    simp [List.drop_append]
  rw [segmentsFromEnd, beforeLastDot_append h]
  simp only [hdrop]

/-- All but the last of the pieces are segments. -/
theorem getElem?_segmentsFromEnd {count i : Nat} (hi : i < count) (cs : List Char) :
    (segmentsFromEnd (count + 1) cs)[i]? = (split '.' cs).reverse[i]? := by
  induction count generalizing i cs with
  | zero => omega
  | succ count ih =>
    rcases beforeLastDot_spec cs with ⟨hnone, hdot⟩ | ⟨before, after, -, rfl, hdot⟩
    · rw [segmentsFromEnd, hnone, split_of_not_mem hdot, List.reverse_singleton]
    · rw [segmentsFromEnd_append hdot, split_append_mark, split_of_not_mem hdot,
        List.reverse_append, List.reverse_singleton, List.singleton_append]
      cases i with
      | zero => rfl
      | succ i => exact ih (by omega) before

@[simp] theorem minus?_add (a b : Nat) : minus? (a + b) b = some a := by
  rw [minus?, if_pos (Nat.le_add_left b a), Nat.add_sub_cancel]

/-- Behind a text begins what is appended to it. -/
theorem sliceFrom?_append (before after : String) :
    sliceFrom? (before ++ after) before.utf8ByteSize = some after := by
  have hvalid : String.Pos.Raw.IsValid (before ++ after) ⟨before.utf8ByteSize⟩ :=
    String.Pos.Raw.isValid_iff_exists_append.2 ⟨before, after, rfl, rfl⟩
  have hsplits : (⟨⟨before.utf8ByteSize⟩, hvalid⟩ : (before ++ after).Pos).Splits before after :=
    ⟨rfl, rfl⟩
  rw [sliceFrom?, dif_pos hvalid, (String.Pos.splits _).eq_right hsplits]

/-! ### Short names from segments -/

/-- The short name of a name that has the given segments. -/
inductive ShortOf (names : List String) (result : String) : Prop where
  /-- The last segment, if it is not `texts` or the only one. -/
  | last (front : List String) (names_eq : names = front ++ [result])
      (alone : result ≠ "texts" ∨ front = [])
  /-- The last two segments, if the last is `texts`. -/
  | texts (front : List String) (owner : String) (names_eq : names = front ++ [owner, "texts"])
      (result_eq : result = owner ++ "." ++ "texts")

/-- Segments have a short name. -/
theorem exists_shortOf {names : List String} (h : names ≠ []) : ∃ result, ShortOf names result := by
  obtain rfl | ⟨front, last, rfl⟩ := List.eq_nil_or_concat' names
  · exact absurd rfl h
  · by_cases hlast : last = "texts"
    · obtain rfl | ⟨outer, owner, rfl⟩ := List.eq_nil_or_concat' front
      · exact ⟨last, .last [] rfl (Or.inr rfl)⟩
      · refine ⟨_, .texts outer owner ?_ rfl⟩
        rw [hlast, List.append_assoc, List.singleton_append]
    · exact ⟨last, .last front rfl (Or.inl hlast)⟩

/-- The pieces of a name, last first, when its last segment is known. -/
theorem reverse_split_of_segments {name last : String} {front : List String}
    (h : segments name = front ++ [last]) :
    (split '.' name.toList).reverse = last.toList :: front.reverse.map String.toList := by
  have hsplit : split '.' name.toList = (segments name).map String.toList := by
    simp [segments, Function.comp_def]
  rw [hsplit, h]
  simp

theorem short_of_shortOf {name result : String} (h : ShortOf (segments name) result) :
    short name = result := by
  cases h with
  | last front names_eq alone =>
    rw [short, reverse_split_of_segments names_eq]
    cases hfront : front.reverse with
    | nil => simp [shortOfReversed]
    | cons owner more =>
      have hne : result ≠ "texts" := alone.resolve_right fun e => by simp [e] at hfront
      have hlast : result.toList ≠ textsSegment := fun e => hne (String.toList_inj.1 e)
      simp [shortOfReversed, hlast]
  | texts front owner names_eq result_eq =>
    have hnames : segments name = (front ++ [owner]) ++ ["texts"] := by simp [names_eq]
    have htexts : "texts".toList = textsSegment := rfl
    rw [short, reverse_split_of_segments hnames, htexts, List.reverse_append, result_eq,
      ← String.toList_inj]
    simp [shortOfReversed, htexts]

theorem shortOf_iff {name result : String} :
    ShortOf (segments name) result ↔ result = short name := by
  constructor
  · intro h
    exact (short_of_shortOf h).symm
  · rintro rfl
    obtain ⟨result, h⟩ := exists_shortOf (segments_ne_nil name)
    rwa [short_of_shortOf h]

/-- The segments of a short name end those of the name, and it is its own short name. -/
theorem ShortOf.exists_segments {name result : String} (h : ShortOf (segments name) result) :
    (∃ front, segments name = front ++ segments result) ∧ ShortOf (segments result) result := by
  cases h with
  | last front names_eq alone =>
    have hmem : result ∈ segments name := by simp [names_eq]
    have hself : segments result = [result] := segments_of_mem_segments hmem
    rw [hself]
    exact ⟨⟨front, names_eq⟩, .last [] rfl (Or.inr rfl)⟩
  | texts front owner names_eq result_eq =>
    have hmem : owner ∈ segments name := by simp [names_eq]
    have howner : segments owner = [owner] := segments_of_mem_segments hmem
    have hself : segments result = [owner, "texts"] := by
      rw [result_eq, segments_append_dot, howner, segments_of_not_mem (by decide)]
      rfl
    rw [hself]
    exact ⟨⟨front, names_eq⟩, .texts [] owner rfl result_eq⟩

/-- A text whose segments end those of a name ends the name, which begins there or has a dot
before it. -/
theorem eq_or_exists_append_of_segments {name result : String} {front : List String}
    (h : segments name = front ++ segments result) :
    name = result ∨ ∃ before, name = before ++ "." ++ result := by
  by_cases hfront : front = []
  · rw [hfront, List.nil_append] at h
    exact Or.inl (segments_inj.1 h)
  · obtain ⟨before, after, hname, -, hafter⟩ :=
      exists_append_of_segments h hfront (segments_ne_nil result)
    rw [segments_inj.1 hafter] at hname
    exact Or.inr ⟨before, hname⟩

/-! ### The slice -/

theorem shortSlice?_of_shortOf {name result : String} (h : ShortOf (segments name) result) :
    shortSlice? name = some result := by
  obtain ⟨before, hbefore⟩ : ∃ before, name = before ++ result := by
    obtain ⟨front, hfront⟩ := h.exists_segments.1
    rcases eq_or_exists_append_of_segments hfront with heq | ⟨before, heq⟩
    · exact ⟨"", by rw [String.empty_append, heq]⟩
    · exact ⟨_, heq⟩
  have hpieces (i : Nat) (hi : i < 2) :
      ((segmentsFromEnd 3 name.toList).map String.ofList)[i]? = (segments name).reverse[i]? := by
    rw [List.getElem?_map, getElem?_segmentsFromEnd hi, ← List.getElem?_map, List.map_reverse]
    rfl
  simp only [shortSlice?, hpieces 0 (by decide), hpieces 1 (by decide)]
  cases h with
  | last front names_eq alone =>
    rw [names_eq, List.reverse_append, List.reverse_singleton, List.singleton_append]
    rcases alone with hne | rfl
    · simp [hne]
    · simp
  | texts front owner names_eq result_eq =>
    have hsize : name.utf8ByteSize =
        before.utf8ByteSize + 1 + owner.utf8ByteSize + "texts".utf8ByteSize := by
      rw [hbefore, result_eq, String.utf8ByteSize_append, utf8ByteSize_append_dot]
      omega
    have hslice : sliceFrom? name before.utf8ByteSize = some result := by
      rw [hbefore, sliceFrom?_append]
    rw [names_eq, List.reverse_append, hsize]
    simp [minus?_add, hslice]

/-! ### The result -/

/-- The text is the short name of a name. -/
structure IsShortName (name result : String) : Prop where
  /-- It is what is sliced off the name: the start is computed without a negative difference, and a
  character begins there. -/
  slice : shortSlice? name = some result
  /-- It is the last segment or the last two, as `ShortOf` says. -/
  shortOf : ∀ other, ShortOf (segments name) other ↔ other = result
  /-- It ends the name, and is all of it or has a dot before it. -/
  ends : name = result ∨ ∃ before, name = before ++ "." ++ result
  /-- It is its own short name. -/
  again : short result = result

/-- **The short name of every name is sliced off safely.**  It is the last segment, or the last two
if the last is `texts`, always an end of the name after a dot, and stays what it is. -/
theorem short_isShortName (name : String) : IsShortName name (short name) := by
  have h : ShortOf (segments name) (short name) := shortOf_iff.2 rfl
  obtain ⟨⟨front, hfront⟩, hself⟩ := h.exists_segments
  exact ⟨shortSlice?_of_shortOf h, fun other => shortOf_iff,
    eq_or_exists_append_of_segments hfront, short_of_shortOf hself⟩

-- an owner may be empty or take several bytes a character, and `texts` alone has none
example : short "shop.é.texts" = "é.texts" ∧ short ".texts" = ".texts" ∧ short "texts" = "texts" ∧
    short "shop.ß" = "ß" ∧ short "shop." = "" := by decide

end SchemaTypings.Name
