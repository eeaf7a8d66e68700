import SchemaTypings.Name.Identifier
import SchemaTypings.Proofs.ReadBack

/-!
# Identifiers made from names

A name with a dot loses everything but its letters and digits, a name without one keeps all its
characters and only its first letter changes case.  So the characters of a dotted name always fit an
identifier and those of another name fit if they did before; in both cases the identifier begins as
the name does.
-/

namespace SchemaTypings.Name

open SchemaTypings.Text SchemaTypings.Typing

/-! ### Texts that fit an identifier -/

/-- Every character may stand in an identifier. -/
def AllParts (cs : List Char) : Prop := ∀ c ∈ cs, isIdentifierPart c = true

instance (cs : List Char) : Decidable (AllParts cs) :=
  decidable_of_iff (cs.all isIdentifierPart = true) List.all_eq_true

/-- There is a first character, and it is no digit. -/
def Leads (cs : List Char) : Prop := ∃ c ∈ cs.head?, c.isDigit = false

@[simp] theorem allParts_nil : AllParts [] := fun _ h => absurd h List.not_mem_nil

@[simp] theorem allParts_append (a b : List Char) :
    AllParts (a ++ b) ↔ AllParts a ∧ AllParts b := List.forall_mem_append

@[simp] theorem not_leads_nil : ¬ Leads [] := by simp [Leads]

@[simp] theorem leads_cons (c : Char) (cs : List Char) : Leads (c :: cs) ↔ c.isDigit = false := by
  simp [Leads]

instance : (cs : List Char) → Decidable (Leads cs)
  | [] => .isFalse not_leads_nil
  | c :: cs => decidable_of_iff (c.isDigit = false) (leads_cons c cs).symm

theorem leads_append (a b : List Char) : Leads (a ++ b) ↔ Leads a ∨ a = [] ∧ Leads b := by
  cases a <;> simp

/-- An identifier is a text of parts that does not begin with a digit. -/
theorem isIdentifier_iff_leads (name : String) :
    IsIdentifier name ↔ AllParts name.toList ∧ Leads name.toList := by
  constructor
  · intro h
    refine ⟨h.isIdentifierPart, ?_⟩
    cases hs : name.toList with
    | nil => exact absurd (String.toList_inj.1 hs) h.nonempty
    | cons c cs => exact (leads_cons c cs).2 (h.start c (by rw [hs]; rfl))
  · rintro ⟨hparts, c, hc, hdigit⟩
    refine ⟨?_, fun d hd => ?_, fun d hd => ?_⟩
    · rintro rfl
      cases hc
    · simpa [isIdentifierPart, or_assoc] using hparts d hd
    · rw [Option.mem_unique hd hc, hdigit]

/-- Two texts together are an identifier if both are made of parts, and the first of them that is
not empty does not begin with a digit. -/
theorem isIdentifier_append_iff (a b : String) : IsIdentifier (a ++ b) ↔
    AllParts a.toList ∧ AllParts b.toList ∧ (Leads a.toList ∨ a = "" ∧ Leads b.toList) := by
  have hempty : a.toList = [] ↔ a = "" := by rw [← String.toList_inj, String.toList_empty]
  rw [isIdentifier_iff_leads, String.toList_append, allParts_append, leads_append, and_assoc,
    hempty]

/-! ### Upper case -/

/-- What holds of each of the first 128 characters holds of a character below 128. -/
theorem forall_ascii {P : Char → Prop} (h : ∀ n < 128, P (Char.ofNat n)) {c : Char}
    (hc : c.toNat < 128) : P c := by
  have hn := h c.toNat hc
  rwa [Char.ofNat_toNat] at hn

/-- Below 128 upper case makes no digit and takes none away. -/
theorem isDigit_toUpper {c : Char} (h : c.toNat < 128) : c.toUpper.isDigit = c.isDigit :=
  forall_ascii (P := fun c => c.toUpper.isDigit = c.isDigit) (by decide) h

theorem isDigit_iff (c : Char) : c.isDigit = true ↔ 48 ≤ c.toNat ∧ c.toNat ≤ 57 := by
  rw [Char.isDigit, Bool.and_eq_true, decide_eq_true_iff, decide_eq_true_iff]
  exact Iff.rfl

theorem isDigit_eq_false_of_lt {c : Char} (h : 57 < c.toNat) : c.isDigit = false := by
  rw [Bool.eq_false_iff, ne_eq, isDigit_iff]
  omega

theorem isDigit_ofNat_eq_false {n : Nat} (h : 57 < n) : (Char.ofNat n).isDigit = false := by
  by_cases hvalid : n.isValidChar
  · rw [Char.ofNat, dif_pos hvalid]
    exact isDigit_eq_false_of_lt h
  · rw [Char.ofNat, dif_neg hvalid]
    rfl

/-- The four ways in which the upper case of a character is found: by the mapping of ASCII, among
the sequences, by a run of letters, or not at all. -/
theorem upper_cases (c : Char) : (c.toNat < 128 ∧ upper c = [c.toUpper]) ∨
    (∃ entry ∈ upperSequences, upper c = entry.2.map Char.ofNat ∧ 128 ≤ c.toNat) ∨
    (∃ run ∈ upperRuns, run.covers c.toNat = true ∧
      upper c = [Char.ofNat (c.toNat + run.offset).toNat] ∧ 128 ≤ c.toNat) ∨
    (upper c = [c] ∧ 128 ≤ c.toNat) := by
  by_cases h : c.toNat < 128
  · exact Or.inl ⟨h, upper_of_ascii h⟩
  · refine Or.inr ?_
    rw [upper, if_neg h, upperBeyondAscii]
    split
    · next entry hentry =>
      exact Or.inl ⟨entry, List.mem_of_find?_eq_some hentry, rfl, by omega⟩
    · split
      · next run hrun =>
        have hcovers := List.find?_some hrun
        exact Or.inr (Or.inl ⟨run, List.mem_of_find?_eq_some hrun, hcovers, rfl, by omega⟩)
      · exact Or.inr (Or.inr ⟨rfl, by omega⟩)

/-- The upper case of a run of letters lies beyond the digits. -/
theorem upperRuns_above : ∀ run ∈ upperRuns, 57 < run.first + run.offset := by decide +kernel

theorem le_of_covers {run : CaseRun} {code : Nat} (h : run.covers code = true) :
    run.first ≤ code ∧ code ≤ run.last := by
  simp only [CaseRun.covers, Bool.and_eq_true, decide_eq_true_iff] at h
  exact h.1

/-- In upper case a character is at least one character, and the first is a digit only if it was. -/
theorem exists_head?_upper (c : Char) :
    ∃ d ∈ (upper c).head?, d.isDigit = c.isDigit := by
  rcases upper_cases c with ⟨h, hupper⟩ | ⟨entry, hentry, hupper, h⟩ |
    ⟨run, hrun, hcovers, hupper, h⟩ | ⟨hupper, -⟩
  · rw [hupper]
    exact ⟨c.toUpper, rfl, isDigit_toUpper h⟩
  · have hsequences : ∀ entry ∈ upperSequences, ∃ code ∈ entry.2.head?, 57 < code := by decide
    obtain ⟨code, hcode, hlt⟩ := hsequences entry hentry
    rw [hupper, List.head?_map, isDigit_eq_false_of_lt (c := c) (by omega)]
    exact ⟨Char.ofNat code, Option.mem_map_of_mem _ hcode, isDigit_ofNat_eq_false hlt⟩
  · have hlt := upperRuns_above run hrun
    have hfirst := (le_of_covers hcovers).1
    rw [hupper, isDigit_eq_false_of_lt (c := c) (by omega)]
    exact ⟨_, rfl, isDigit_ofNat_eq_false (by omega)⟩
  · rw [hupper]
    exact ⟨c, rfl, rfl⟩

theorem leads_capitalize_iff (cs : List Char) : Leads (capitalize cs) ↔ Leads cs := by
  cases cs with
  | nil => rfl
  | cons c rest =>
    obtain ⟨d, hd, hdigit⟩ := exists_head?_upper c
    have hhead : (upper c ++ rest).head? = some d := by
      rw [List.head?_append, hd]
      rfl
    rw [capitalize_cons, leads_cons, ← hdigit, Leads, hhead]
    simp

theorem capitalize_eq_nil_iff (cs : List Char) : capitalize cs = [] ↔ cs = [] := by
  cases cs with
  | nil => simp
  | cons c rest =>
    obtain ⟨d, hd, -⟩ := exists_head?_upper c
    have hupper : upper c ≠ [] := fun hnil => by simp [hnil] at hd
    simp [hupper]

/-! ### The words of a dotted name -/

/-- The runs of a text hold its letters and digits. -/
theorem flatten_runs (cs : List Char) : (runs cs).flatten = cs.filter Char.isAlphanum := by
  induction cs with
  | nil => rfl
  | cons c rest ih =>
    rw [runs]
    by_cases hc : c.isAlphanum = true
    · rw [if_pos hc, List.filter_cons_of_pos hc, ← ih]
      cases runs rest <;> rfl
    · rw [if_neg hc, List.filter_cons_of_neg hc, ← ih]
      rfl

theorem flatten_words (cs : List Char) :
    ((runs cs).flatMap splitWords).flatten = cs.filter Char.isAlphanum := by
  have hruns : (runs cs).map (List.flatten ∘ splitWords) = runs cs :=
    List.map_id'' flatten_splitWords _
  rw [← flatten_runs, List.flatMap_def, List.flatten_flatten, List.map_map, hruns]

theorem toNat_lt_of_isAlphanum {c : Char} (h : c.isAlphanum = true) : c.toNat < 128 := by
  rcases Bool.or_eq_true_iff.1 (show (c.isAlpha || c.isDigit) = true from h) with hletter | hdigit
  · rcases Bool.or_eq_true_iff.1 (show (c.isUpper || c.isLower) = true from hletter) with hc | hc
    · have hle : c.val ≤ 'Z'.val := (of_decide_eq_true hc).2
      exact Nat.lt_of_le_of_lt (UInt32.le_iff_toNat_le.1 hle) (by decide)
    · have hle : c.val ≤ 'z'.val := of_decide_eq_true (Bool.and_eq_true_iff.1 hc).2
      exact Nat.lt_of_le_of_lt (UInt32.le_iff_toNat_le.1 hle) (by decide)
  · have hle := ((isDigit_iff c).1 hdigit).2
    omega

/-- A letter or digit is one in upper case. -/
theorem isAlphanum_toUpper {c : Char} (h : c.isAlphanum = true) : c.toUpper.isAlphanum = true := by
  have hall : c.isAlphanum = true → c.toUpper.isAlphanum = true :=
    forall_ascii (P := fun c => c.isAlphanum = true → c.toUpper.isAlphanum = true) (by decide)
      (toNat_lt_of_isAlphanum h)
  exact hall h

theorem allParts_of_isAlphanum {cs : List Char} (h : ∀ c ∈ cs, c.isAlphanum = true) :
    AllParts cs := fun c hc => by simp [isIdentifierPart, h c hc]

/-- A word of letters and digits is one when it is capitalized. -/
theorem allParts_capitalize {cs : List Char} (h : ∀ c ∈ cs, c.isAlphanum = true) :
    AllParts (capitalize cs) := by
  cases cs with
  | nil => exact allParts_nil
  | cons c rest =>
    obtain ⟨hc, hrest⟩ := List.forall_mem_cons.1 h
    rw [capitalize_cons, upper_of_ascii (toNat_lt_of_isAlphanum hc)]
    exact allParts_of_isAlphanum (List.forall_mem_cons.2 ⟨isAlphanum_toUpper hc, hrest⟩)

/-- Words begin as they do when each is capitalized. -/
theorem leads_flatMap_capitalize_iff (words : List (List Char)) :
    Leads (words.flatMap capitalize) ↔ Leads words.flatten := by
  induction words with
  | nil => rfl
  | cons word rest ih =>
    rw [List.flatMap_cons, List.flatten_cons, leads_append, leads_append, leads_capitalize_iff, ih,
      capitalize_eq_nil_iff]

/-! ### Sanitized names -/

/-- The characters of a name as far as they decide how its identifier begins. -/
def kept (cs : List Char) : List Char :=
  if '.' ∈ cs then cs.filter Char.isAlphanum else cs

/-- The characters of a name fit an identifier once it is sanitized: it has a dot, or they do when
its first letter is in upper case. -/
def Fits (cs : List Char) : Prop := '.' ∈ cs ∨ AllParts (capitalize cs)

/-- A dotted name has only letters and digits left, any other name all that it has. -/
theorem allParts_sanitizeChars_iff (cs : List Char) : AllParts (sanitizeChars cs) ↔ Fits cs := by
  rw [sanitizeChars, Fits]
  by_cases hdot : '.' ∈ cs
  · have hwords : AllParts (((runs cs).flatMap splitWords).flatMap capitalize) := by
      intro c hc
      obtain ⟨word, hword, hc⟩ := List.mem_flatMap.1 hc
      refine allParts_capitalize (fun d hd => ?_) c hc
      have hmem : d ∈ ((runs cs).flatMap splitWords).flatten := List.mem_flatten.2 ⟨word, hword, hd⟩
      rw [flatten_words] at hmem
      exact (List.mem_filter.1 hmem).2
    rw [if_pos (List.contains_iff_mem.2 hdot)]
    exact ⟨fun _ => Or.inl hdot, fun _ => hwords⟩
  · rw [if_neg (by rwa [List.contains_iff_mem])]
    simp [hdot]

/-- A sanitized name begins as what is kept of the name. -/
theorem leads_sanitizeChars_iff (cs : List Char) : Leads (sanitizeChars cs) ↔ Leads (kept cs) := by
  rw [sanitizeChars, kept]
  by_cases hdot : '.' ∈ cs
  · rw [if_pos (List.contains_iff_mem.2 hdot), if_pos hdot, leads_flatMap_capitalize_iff,
      flatten_words]
  · rw [if_neg (by rwa [List.contains_iff_mem]), if_neg hdot, leads_capitalize_iff]

/-- Nothing is left of a name only if nothing is kept. -/
theorem sanitizeChars_eq_nil_iff (cs : List Char) : sanitizeChars cs = [] ↔ kept cs = [] := by
  rw [sanitizeChars, kept]
  by_cases hdot : '.' ∈ cs
  · rw [if_pos (List.contains_iff_mem.2 hdot), if_pos hdot, ← flatten_words,
      List.flatMap_eq_nil_iff, List.flatten_eq_nil_iff]
    simp only [capitalize_eq_nil_iff]
  · rw [if_neg (by rwa [List.contains_iff_mem]), if_neg hdot, capitalize_eq_nil_iff]

theorem allParts_sanitize_iff (name : String) :
    AllParts (sanitize name).toList ↔ Fits name.toList := by
  rw [sanitize, String.toList_ofList, allParts_sanitizeChars_iff]

theorem leads_sanitize_iff (name : String) :
    Leads (sanitize name).toList ↔ Leads (kept name.toList) := by
  rw [sanitize, String.toList_ofList, leads_sanitizeChars_iff]

theorem sanitize_eq_empty_iff (name : String) : sanitize name = "" ↔ kept name.toList = [] := by
  rw [← sanitizeChars_eq_nil_iff, ← String.toList_inj, String.toList_empty, sanitize,
    String.toList_ofList]

/-- **When a name becomes an identifier**: its characters fit, and something is kept of it that does
not begin with a digit. -/
theorem isIdentifier_sanitize_iff (name : String) :
    IsIdentifier (sanitize name) ↔ Fits name.toList ∧ Leads (kept name.toList) := by
  rw [isIdentifier_iff_leads, allParts_sanitize_iff, leads_sanitize_iff]

/-- Only a dot makes the other characters go away. -/
example : sanitize "my books.texts" = "MyBooksTexts" ∧ sanitize "my books" = "My books" := by
  decide

end SchemaTypings.Name
