/-!
# Splitting at a mark

A text cut at every occurrence of a mark, and pieces joined by it again.
-/

namespace SchemaTypings.Text

/-- The pieces of a text between the occurrences of a mark; there is always at least one. -/
def split (mark : Char) : List Char → List (List Char)
  | [] => [[]]
  | c :: rest =>
    if c = mark then [] :: split mark rest
    else match split mark rest with
      | [] => [[c]]
      | piece :: more => (c :: piece) :: more

/-- Pieces joined by a mark. -/
def joinWith (mark : Char) : List (List Char) → List Char
  | [] => []
  | [piece] => piece
  | piece :: more => piece ++ mark :: joinWith mark more

theorem split_ne_nil (mark : Char) (cs : List Char) : split mark cs ≠ [] := by
  cases cs with
  | nil => simp [split]
  | cons c rest =>
    simp only [split]
    split
    · simp
    · split <;> simp

/-- Joining the pieces of a text gives the text back. -/
theorem joinWith_split (mark : Char) (cs : List Char) : joinWith mark (split mark cs) = cs := by
  induction cs with
  | nil => rfl
  | cons c rest ih =>
    cases hs : split mark rest with
    | nil => exact absurd hs (split_ne_nil mark rest)
    | cons piece more =>
      rw [hs] at ih
      by_cases h : c = mark
      · simp [split, h, hs, joinWith, ih]
      · cases more with
        | nil => simpa [split, h, hs, joinWith] using ih
        | cons next more => simpa [split, h, hs, joinWith] using ih

/-- No piece contains the mark. -/
theorem not_mem_of_mem_split {mark : Char} {cs piece : List Char} (h : piece ∈ split mark cs) :
    mark ∉ piece := by
  induction cs generalizing piece with
  | nil =>
    rw [split, List.mem_singleton] at h
    simp [h]
  | cons c rest ih =>
    rw [split] at h
    split at h
    · rcases List.mem_cons.1 h with rfl | hr
      · exact List.not_mem_nil
      · exact ih hr
    · next hc =>
      have hm : mark ≠ c := fun e => hc e.symm
      split at h
      · rw [List.mem_singleton] at h
        simp [h, hm]
      · next first more hs =>
        rcases List.mem_cons.1 h with rfl | hr
        · have := ih (hs ▸ List.mem_cons_self)
          simp [hm, this]
        · exact ih (hs ▸ List.mem_cons_of_mem _ hr)

/-- Cutting at a mark that stands between two texts cuts each of them. -/
theorem split_append_mark (mark : Char) (cs ds : List Char) :
    split mark (cs ++ mark :: ds) = split mark cs ++ split mark ds := by
  induction cs with
  | nil => simp [split]
  | cons c rest ih =>
    rw [List.cons_append, split, split]
    split
    · rw [ih, List.cons_append]
    · rw [ih]
      obtain ⟨piece, more, hs⟩ := List.exists_cons_of_ne_nil (split_ne_nil mark rest)
      simp [hs]

/-- A text without the mark is one piece. -/
theorem split_of_not_mem {mark : Char} {cs : List Char} (h : mark ∉ cs) : split mark cs = [cs] := by
  induction cs with
  | nil => rfl
  | cons c rest ih =>
    rw [List.mem_cons, not_or] at h
    rw [split, if_neg (Ne.symm h.1), ih h.2]

/-- Pieces joined in two groups have the mark between the groups. -/
theorem joinWith_append {mark : Char} {front back : List (List Char)} (hf : front ≠ [])
    (hb : back ≠ []) :
    joinWith mark (front ++ back) = joinWith mark front ++ mark :: joinWith mark back := by
  induction front with
  | nil => exact absurd rfl hf
  | cons piece more ih =>
    cases more with
    | nil =>
      obtain ⟨next, rest, rfl⟩ := List.exists_cons_of_ne_nil hb
      rfl
    | cons next rest =>
      calc joinWith mark (piece :: next :: rest ++ back)
          = piece ++ mark :: joinWith mark (next :: rest ++ back) := rfl
        _ = piece ++ mark :: (joinWith mark (next :: rest) ++ mark :: joinWith mark back) := by
            rw [ih (List.cons_ne_nil next rest)]
        _ = joinWith mark (piece :: next :: rest) ++ mark :: joinWith mark back := by
            simp [joinWith]

/-- Cutting joined pieces gives them back if the mark is in none of them. -/
theorem split_joinWith {mark : Char} {pieces : List (List Char)} (hne : pieces ≠ [])
    (h : ∀ piece ∈ pieces, mark ∉ piece) : split mark (joinWith mark pieces) = pieces := by
  induction pieces with
  | nil => exact absurd rfl hne
  | cons piece more ih =>
    have hpiece : split mark piece = [piece] := split_of_not_mem (h piece List.mem_cons_self)
    cases more with
    | nil => exact hpiece
    | cons next rest =>
      have hmore : split mark (joinWith mark (next :: rest)) = next :: rest :=
        ih (List.cons_ne_nil next rest) fun p hp => h p (List.mem_cons_of_mem piece hp)
      show split mark (piece ++ mark :: joinWith mark (next :: rest)) = piece :: next :: rest
      rw [split_append_mark, hpiece, hmore, List.singleton_append]

/-- A text whose pieces form two groups falls apart at the mark between them. -/
theorem exists_append_of_split {mark : Char} {cs : List Char} {front back : List (List Char)}
    (h : split mark cs = front ++ back) (hf : front ≠ []) (hb : back ≠ []) :
    ∃ before after, cs = before ++ mark :: after ∧ split mark before = front ∧
      split mark after = back := by
  have hmark : ∀ piece ∈ front ++ back, mark ∉ piece := fun piece hp =>
    not_mem_of_mem_split (h ▸ hp)
  refine ⟨joinWith mark front, joinWith mark back, ?_, ?_, ?_⟩
  · rw [← joinWith_append hf hb, ← h, joinWith_split]
  · exact split_joinWith hf fun piece hp => hmark piece (List.mem_append_left back hp)
  · exact split_joinWith hb fun piece hp => hmark piece (List.mem_append_right front hp)

end SchemaTypings.Text
