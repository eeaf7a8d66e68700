import SchemaTypings.Proofs.Sanitizing

/-!
# Sanitizing in one pass

A dotted name is cut into runs and words only to be joined again, so that all of it comes down to
one pass over its characters: a letter or digit stays, and it is put in upper case unless a letter
stands right before it.  Of the places where a new word starts only those between a digit and a
letter matter for that.  A sanitized name is sanitized already.
-/

namespace SchemaTypings.Name

open SchemaTypings.Text

/-! ### The pass -/

/-- What becomes of a character after another one: letters and digits stay, a letter in upper case
unless it follows a letter. -/
def pass (previous : Option Char) (c : Char) : Option Char :=
  if c.isAlphanum = false then none
  else if c.isAlpha = true ∧ previous.any Char.isAlpha = false then some c.toUpper
  else some c

/-- What becomes of the characters of a text that follows a character. -/
def onePass (previous : Option Char) : List Char → List Char
  | [] => []
  | c :: rest => (pass previous c).toList ++ onePass (some c) rest

theorem onePass_cons (previous : Option Char) (c : Char) (rest : List Char) :
    onePass previous (c :: rest) = (pass previous c).toList ++ onePass (some c) rest := rfl

theorem pass_of_not_alphanum {c : Char} (h : c.isAlphanum = false) (previous : Option Char) :
    pass previous c = none := if_pos h

theorem isAlpha_eq (c : Char) : c.isAlpha = (c.isUpper || c.isLower) := rfl

theorem isAlphanum_eq (c : Char) : c.isAlphanum = (c.isAlpha || c.isDigit) := rfl

theorem isLower_of_isUpper {c : Char} (h : c.isUpper = true) : c.isLower = false :=
  forall_ascii (P := fun c => c.isUpper = true → c.isLower = false) (by decide)
    (toNat_lt_of_isAlphanum (by simp [isAlphanum_eq, isAlpha_eq, h])) h

theorem isAlpha_of_isDigit {c : Char} (h : c.isDigit = true) : c.isAlpha = false :=
  forall_ascii (P := fun c => c.isDigit = true → c.isAlpha = false) (by decide)
    (toNat_lt_of_isAlphanum (by simp [isAlphanum_eq, h])) h

theorem isLower_of_isAlpha {c : Char} (h : c.isAlpha = false) : c.isLower = false := by
  rw [isAlpha_eq, Bool.or_eq_false_iff] at h
  exact h.2

theorem isLower_iff (c : Char) : c.isLower = true ↔ 97 ≤ c.toNat ∧ c.toNat ≤ 122 := by
  show (decide ('a'.val ≤ c.val) && decide (c.val ≤ 'z'.val)) = true ↔ _
  rw [Bool.and_eq_true, decide_eq_true_iff, decide_eq_true_iff]
  exact Iff.rfl

/-- Only small letters change in upper case. -/
theorem toUpper_of_not_lower {c : Char} (h : c.isLower = false) : c.toUpper = c := by
  refine dif_neg fun hrange => ?_
  have hlower : c.isLower = true := (isLower_iff c).2 hrange
  rw [h] at hlower
  cases hlower

/-- A letter or digit that does not follow a letter comes in upper case, which digits are in. -/
theorem pass_of_not_after_letter {c : Char} (hc : c.isAlphanum = true) {previous : Option Char}
    (hp : previous.any Char.isAlpha = false) : pass previous c = some c.toUpper := by
  rw [pass, if_neg (by simp [hc])]
  by_cases hletter : c.isAlpha = true
  · rw [if_pos ⟨hletter, hp⟩]
  · have hlower : c.isLower = false := isLower_of_isAlpha (by simpa using hletter)
    rw [if_neg fun h => hletter h.1, toUpper_of_not_lower hlower]

/-- After a letter nothing changes, and neither does a digit anywhere. -/
theorem pass_of_not_changed {c : Char} (hc : c.isAlphanum = true) {previous : Option Char}
    (h : c.isAlpha = false ∨ previous.any Char.isAlpha = true) : pass previous c = some c := by
  rw [pass, if_neg (by simp [hc]), if_neg]
  rintro ⟨hletter, hnone⟩
  rcases h with h | h
  · simp [h] at hletter
  · simp [h] at hnone

/-- What is no letter has the effect of nothing. -/
theorem onePass_of_not_letter {p : Char} (hp : p.isAlpha = false) (cs : List Char) :
    onePass (some p) cs = onePass none cs := by
  cases cs with
  | nil => rfl
  | cons c rest =>
    have hpass : pass (some p) c = pass none c := by simp [pass, hp]
    rw [onePass_cons, onePass_cons, hpass]

/-! ### Boundaries -/

/-- The words of a run when new words start where the boundaries say. -/
def wordsBy (boundary : Char → Char → Option Char → Bool) : List Char → List (List Char)
  | [] => []
  | [c] => [[c]]
  | c :: d :: rest =>
    if boundary c d rest.head? then [c] :: wordsBy boundary (d :: rest)
    else match wordsBy boundary (d :: rest) with
      | [] => [[c]]
      | word :: more => (c :: word) :: more

/-- The characters of a dotted name after its words are capitalized and joined. -/
def joined (boundary : Char → Char → Option Char → Bool) (cs : List Char) : List Char :=
  ((runs cs).flatMap (wordsBy boundary)).flatMap capitalize

theorem wordsBy_startsWord (cs : List Char) : wordsBy startsWord cs = splitWords cs := by
  fun_induction splitWords cs with
  | case1 => rfl
  | case2 => rfl
  | case3 c d rest h ih => rw [wordsBy, if_pos h, ih]
  | case4 c d rest h hs ih => rw [wordsBy, if_neg h, ih, hs]
  | case5 c d rest h word more hs ih => rw [wordsBy, if_neg h, ih, hs]

/-- Boundaries where some of the places are left out at which a new word starts, but none between a
digit and a letter. -/
structure Boundaries where
  boundary : Char → Char → Option Char → Bool
  startsWord : ∀ p c next, boundary p c next = true → startsWord p c next = true
  digitLetter : ∀ p c next, p.isDigit = true → c.isAlpha = true → boundary p c next = true

/-- All the places where a new word starts. -/
def Boundaries.all : Boundaries where
  boundary := Name.startsWord
  startsWord := fun _ _ _ h => h
  digitLetter := fun p c next hp hc => by simp [Name.startsWord, hp, hc]

section Joining

variable (b : Boundaries)

/-- Before a word that starts after a letter nothing is to be put in upper case. -/
theorem Boundaries.isLower_of_boundary {p c : Char} {next : Option Char}
    (h : b.boundary p c next = true) (hp : p.isAlpha = true) : c.isLower = false := by
  have hstarts := b.startsWord p c next h
  simp only [Name.startsWord, Bool.or_eq_true, Bool.and_eq_true] at hstarts
  rcases hstarts with ((⟨-, hupper⟩ | ⟨-, hdigit⟩) | ⟨hdigit, -⟩) | ⟨⟨-, hupper⟩, -⟩
  · exact isLower_of_isUpper hupper
  · exact isLower_of_isAlpha (isAlpha_of_isDigit hdigit)
  · simp [isAlpha_of_isDigit hdigit] at hp
  · exact isLower_of_isUpper hupper

/-- The first word of a run begins as the run does, and the rest of the words, each capitalized, is
what the pass makes of the rest of the run. -/
theorem exists_wordsBy_cons {c : Char} {tail : List Char}
    (h : ∀ d ∈ c :: tail, d.isAlphanum = true) :
    ∃ word more, wordsBy b.boundary (c :: tail) = (c :: word) :: more ∧
      word ++ more.flatMap capitalize = onePass (some c) tail := by
  induction tail generalizing c with
  | nil => exact ⟨[], [], rfl, rfl⟩
  | cons d rest ih =>
    obtain ⟨hc, htail⟩ := List.forall_mem_cons.1 h
    obtain ⟨word, more, hwords, hjoined⟩ := ih htail
    have hd : d.isAlphanum = true := htail d List.mem_cons_self
    rw [wordsBy, hwords, onePass_cons, ← hjoined]
    by_cases hb : b.boundary c d rest.head? = true
    · -- a word starts: its first character is a digit or capital, or comes after a digit
      have hpass : pass (some c) d = some d.toUpper := by
        by_cases hletter : c.isAlpha = true
        · rw [toUpper_of_not_lower (b.isLower_of_boundary hb hletter)]
          exact pass_of_not_changed hd (Or.inr hletter)
        · exact pass_of_not_after_letter hd (by simpa using hletter)
      rw [if_pos hb, hpass]
      refine ⟨[], (d :: word) :: more, rfl, ?_⟩
      rw [List.flatMap_cons, capitalize_cons, upper_of_ascii (toNat_lt_of_isAlphanum hd)]
      simp
    · -- no word starts: the character is no letter or does not come after a digit
      have hpass : pass (some c) d = some d := by
        refine pass_of_not_changed hd ?_
        by_cases hletter : c.isAlpha = true
        · exact Or.inr hletter
        · have hdigit : c.isDigit = true := by simp_all [isAlphanum_eq]
          exact Or.inl (by simpa using fun hd => hb (b.digitLetter c d _ hdigit hd))
      rw [if_neg hb, hpass]
      exact ⟨d :: word, more, rfl, rfl⟩

theorem flatMap_capitalize_wordsBy {run : List Char} (h : ∀ d ∈ run, d.isAlphanum = true) :
    (wordsBy b.boundary run).flatMap capitalize = onePass none run := by
  cases run with
  | nil => rfl
  | cons c tail =>
    obtain ⟨word, more, hwords, hjoined⟩ := exists_wordsBy_cons b h
    have hc : c.isAlphanum = true := h c List.mem_cons_self
    rw [hwords, List.flatMap_cons, capitalize_cons, upper_of_ascii (toNat_lt_of_isAlphanum hc),
      onePass_cons, pass_of_not_after_letter hc rfl, List.append_assoc, hjoined]
    rfl

/-- The pass goes through the runs one after another, from the second on as if nothing stood
before them. -/
theorem exists_runs (previous : Option Char) (cs : List Char) :
    ∃ first others, runs cs = first :: others ∧
      onePass previous cs = onePass previous first ++ others.flatMap (onePass none) := by
  induction cs generalizing previous with
  | nil => exact ⟨[], [], rfl, rfl⟩
  | cons c rest ih =>
    obtain ⟨first, others, hruns, hpass⟩ := ih (some c)
    rw [runs, hruns, onePass_cons, hpass]
    by_cases hc : c.isAlphanum = true
    · rw [if_pos hc]
      exact ⟨c :: first, others, rfl, by rw [onePass_cons, List.append_assoc]⟩
    · have hletter : c.isAlpha = false := by simp_all [isAlphanum_eq]
      rw [if_neg hc, pass_of_not_alphanum (by simpa using hc), onePass_of_not_letter hletter]
      exact ⟨[], first :: others, rfl, by simp [onePass]⟩

/-- Whichever boundaries are left out, the joined words are what the pass makes of the name. -/
theorem joined_eq_onePass (cs : List Char) : joined b.boundary cs = onePass none cs := by
  have halnum : ∀ run ∈ runs cs, ∀ d ∈ run, d.isAlphanum = true := by
    intro run hrun d hd
    have hmem : d ∈ (runs cs).flatten := List.mem_flatten.2 ⟨run, hrun, hd⟩
    rw [flatten_runs] at hmem
    exact (List.mem_filter.1 hmem).2
  have hwords : joined b.boundary cs = (runs cs).flatMap (onePass none) := by
    rw [joined, List.flatMap_assoc]
    exact List.flatMap_congr fun run hrun => flatMap_capitalize_wordsBy b (halnum run hrun)
  obtain ⟨first, others, hruns, hpass⟩ := exists_runs none cs
  rw [hwords, hruns, hpass, List.flatMap_cons]

end Joining

theorem sanitizeChars_of_dot {cs : List Char} (h : '.' ∈ cs) :
    sanitizeChars cs = onePass none cs := by
  have hsplit : splitWords = wordsBy startsWord := funext fun cs => (wordsBy_startsWord cs).symm
  rw [sanitizeChars, if_pos (List.contains_iff_mem.2 h), hsplit]
  exact joined_eq_onePass .all cs

theorem sanitizeChars_of_no_dot {cs : List Char} (h : '.' ∉ cs) :
    sanitizeChars cs = capitalize cs :=
  if_neg (by rwa [List.contains_iff_mem])

/-! ### Words -/

theorem nil_notMem_splitWords (cs : List Char) : [] ∉ splitWords cs := by
  fun_induction splitWords cs with
  | case1 => exact List.not_mem_nil
  | case2 => simp
  | case3 c d rest _ ih => simpa using ih
  | case4 => simp
  | case5 c d rest _ word more hs ih =>
    rw [hs] at ih
    simp only [List.mem_cons, not_or] at ih ⊢
    exact ⟨by simp, ih.2⟩

/-- Words end where a character of the run ends. -/
theorem isValid_splitWords (run : String) (count : Nat) :
    String.Pos.Raw.IsValid run
      (String.ofList ((splitWords run.toList).take count).flatten).rawEndPos := by
  refine String.Pos.Raw.isValid_iff_exists_append.2
    ⟨_, String.ofList ((splitWords run.toList).drop count).flatten, ?_, rfl⟩
  rw [← String.ofList_append, ← List.flatten_append, List.take_append_drop, flatten_splitWords,
    String.ofList_toList]

/-! ### Upper case again -/

/-- Whether the upper case of the letters of a run lies outside of another one: below it, above it,
or between its letters. -/
def outside (run other : CaseRun) : Bool :=
  bif (run.last + run.offset).toNat.blt other.first then true
  else bif other.last.blt (run.first + run.offset).toNat then true
  else other.step == 2 && (run.step == 2 || run.first == run.last) &&
    ((run.first + run.offset).toNat + other.first) % 2 == 1

theorem covers_eq_false_of_outside {run other : CaseRun} (h : outside run other = true)
    (habove : 57 < run.first + run.offset) {code : Nat} (hc : run.covers code = true) :
    other.covers (code + run.offset).toNat = false := by
  obtain ⟨hfirst, hlast⟩ := le_of_covers hc
  rw [Bool.eq_false_iff]
  intro hcovers
  obtain ⟨hfirst', hlast'⟩ := le_of_covers hcovers
  simp only [outside, Bool.cond_eq_ite, Nat.blt_eq] at h
  split at h
  · omega
  · split at h
    · omega
    · simp only [Bool.and_eq_true, Bool.or_eq_true, beq_iff_eq] at h
      obtain ⟨⟨hstep', hstep⟩, hodd⟩ := h
      simp only [CaseRun.covers, Bool.and_eq_true, beq_iff_eq, hstep'] at hc hcovers
      have heven : (code - run.first) % 2 = 0 := by
        rcases hstep with hstep | hsingle
        · simpa [hstep] using hc.2
        · omega
      omega

/-- No upper case of a run is a letter that has another upper case. -/
theorem upperRuns_outside : (upperRuns.all fun run => upperRuns.all (outside run)) = true ∧
    (upperRuns.all fun run =>
      upperSequences.all fun entry => outside run ⟨entry.1, entry.1, 1, 0⟩) = true := by
  decide +kernel

/-- A character that belongs to no run and has no sequence is in upper case. -/
theorem upper_eq_self {c : Char} (hruns : ∀ run ∈ upperRuns, run.covers c.toNat = false)
    (hsequences : ∀ entry ∈ upperSequences, entry.1 ≠ c.toNat) : upper c = [c] := by
  by_cases hc : c.toNat < 128
  · have hlower : c.isLower = false := by
      have hletters := hruns ⟨0x61, 0x7a, 1, -32⟩ List.mem_cons_self
      rw [Bool.eq_false_iff] at hletters ⊢
      refine fun hlower => hletters ?_
      simpa [CaseRun.covers, Nat.mod_one] using (isLower_iff c).1 hlower
    rw [upper_of_ascii hc, toUpper_of_not_lower hlower]
  · have hnone : upperSequences.find? (fun entry => entry.1 == c.toNat) = none :=
      List.find?_eq_none.2 fun entry hentry => by simpa using hsequences entry hentry
    have hnone' : upperRuns.find? (fun run => run.covers c.toNat) = none :=
      List.find?_eq_none.2 fun run hrun => by simp [hruns run hrun]
    rw [upper, if_neg hc, upperBeyondAscii, hnone, hnone']

/-- A code that is not that of a character is taken for zero. -/
theorem ofNat_cases (code : Nat) :
    (Char.ofNat code).toNat = code ∨ Char.ofNat code = Char.ofNat 0 := by
  by_cases hvalid : code.isValidChar
  · left
    rw [Char.ofNat, dif_pos hvalid]
    rfl
  · right
    rw [Char.ofNat, dif_neg hvalid]
    rfl

theorem upper_ofNat_eq_self {code : Nat} (hruns : ∀ run ∈ upperRuns, run.covers code = false)
    (hsequences : ∀ entry ∈ upperSequences, entry.1 ≠ code) :
    upper (Char.ofNat code) = [Char.ofNat code] := by
  rcases ofNat_cases code with hcode | hzero
  · exact upper_eq_self (by rwa [hcode]) (by rwa [hcode])
  · rw [hzero]
    rfl

/-- The upper case of a character begins with a character that is in upper case. -/
theorem exists_upper (c : Char) : ∃ d rest, upper c = d :: rest ∧ upper d = [d] := by
  rcases upper_cases c with ⟨h, hupper⟩ | ⟨entry, hentry, hupper, -⟩ |
    ⟨run, hrun, hcovers, hupper, -⟩ | ⟨hupper, -⟩
  · exact ⟨_, [], hupper, forall_ascii (P := fun c => upper c.toUpper = [c.toUpper]) (by decide) h⟩
  · have hheads : ∀ entry ∈ upperSequences, ∃ code ∈ entry.2.head?,
        upper (Char.ofNat code) = [Char.ofNat code] := by decide +kernel
    obtain ⟨code, hcode, hself⟩ := hheads entry hentry
    obtain ⟨rest, hrest⟩ := List.head?_eq_some_iff.1 hcode
    exact ⟨Char.ofNat code, rest.map Char.ofNat, by rw [hupper, hrest, List.map_cons], hself⟩
  · have hrunsOutside := List.all_eq_true.1 (List.all_eq_true.1 upperRuns_outside.1 run hrun)
    have hsequencesOutside := List.all_eq_true.1 (List.all_eq_true.1 upperRuns_outside.2 run hrun)
    have habove := upperRuns_above run hrun
    refine ⟨_, [], hupper, upper_ofNat_eq_self (fun other hother => ?_) fun other hother => ?_⟩
    · exact covers_eq_false_of_outside (hrunsOutside other hother) habove hcovers
    · rintro hcode
      have hfalse := covers_eq_false_of_outside (hsequencesOutside other hother) habove hcovers
      simp [CaseRun.covers, hcode] at hfalse
  · exact ⟨c, [], hupper, hupper⟩

/-- No dot comes into a text by upper case. -/
theorem dot_mem_upper_iff (c : Char) : '.' ∈ upper c ↔ c = '.' := by
  refine ⟨fun hdot => ?_, by rintro rfl; decide⟩
  rcases upper_cases c with ⟨h, hupper⟩ | ⟨entry, hentry, hupper, -⟩ |
    ⟨run, hrun, hcovers, hupper, -⟩ | ⟨hupper, -⟩
  · rw [hupper] at hdot
    exact forall_ascii (P := fun c => '.' ∈ [c.toUpper] → c = '.') (by decide) h hdot
  · have hnone : ∀ entry ∈ upperSequences, '.' ∉ entry.2.map Char.ofNat := by decide +kernel
    exact absurd (hupper ▸ hdot) (hnone entry hentry)
  · have habove := upperRuns_above run hrun
    have hfirst := (le_of_covers hcovers).1
    rw [hupper, List.mem_singleton] at hdot
    rcases ofNat_cases (c.toNat + run.offset).toNat with hcode | hzero
    · rw [← hdot] at hcode
      have hdotCode : '.'.toNat = 46 := rfl
      omega
    · exact absurd (hdot.trans hzero) (by decide)
  · rw [hupper, List.mem_singleton] at hdot
    exact hdot.symm

theorem dot_mem_capitalize_iff (cs : List Char) : '.' ∈ capitalize cs ↔ '.' ∈ cs := by
  cases cs with
  | nil => rfl
  | cons c rest =>
    rw [capitalize_cons, List.mem_append, dot_mem_upper_iff, List.mem_cons, eq_comm]

/-- A capitalized text is capitalized already. -/
theorem capitalize_capitalize (cs : List Char) : capitalize (capitalize cs) = capitalize cs := by
  cases cs with
  | nil => rfl
  | cons c rest =>
    obtain ⟨d, more, hupper, hself⟩ := exists_upper c
    rw [capitalize_cons, hupper, List.cons_append, capitalize_cons, hself, List.singleton_append]

/-! ### Sanitizing again -/

theorem isAlphanum_of_mem_onePass {previous : Option Char} {cs : List Char} {d : Char}
    (hd : d ∈ onePass previous cs) : d.isAlphanum = true := by
  induction cs generalizing previous with
  | nil => cases hd
  | cons c rest ih =>
    rw [onePass_cons, List.mem_append] at hd
    rcases hd with hd | hd
    · rw [pass] at hd
      split at hd
      · cases hd
      · next hc =>
        rw [Bool.not_eq_false] at hc
        split at hd
        · rw [Option.toList_some, List.mem_singleton] at hd
          exact hd ▸ isAlphanum_toUpper hc
        · rw [Option.toList_some, List.mem_singleton] at hd
          exact hd ▸ hc
    · exact ih hd

/-- What the pass makes of a text begins in upper case if no letter stands before the text. -/
theorem capitalize_onePass {previous : Option Char} (hp : previous.any Char.isAlpha = false)
    (cs : List Char) : capitalize (onePass previous cs) = onePass previous cs := by
  induction cs generalizing previous with
  | nil => rfl
  | cons c rest ih =>
    rw [onePass_cons]
    by_cases hc : c.isAlphanum = true
    · have hself : upper c.toUpper = [c.toUpper] :=
        forall_ascii (P := fun c => upper c.toUpper = [c.toUpper]) (by decide)
          (toNat_lt_of_isAlphanum hc)
      rw [pass_of_not_after_letter hc hp, Option.toList_some, List.singleton_append,
        capitalize_cons, hself, List.singleton_append]
    · have hletter : (some c).any Char.isAlpha = false := by simp_all [isAlphanum_eq]
      rw [pass_of_not_alphanum (by simpa using hc), Option.toList_none, List.nil_append]
      exact ih hletter

theorem sanitizeChars_sanitizeChars (cs : List Char) :
    sanitizeChars (sanitizeChars cs) = sanitizeChars cs := by
  by_cases hdot : '.' ∈ cs
  · have hnone : '.' ∉ onePass none cs := fun h => by
      simpa using isAlphanum_of_mem_onePass h
    rw [sanitizeChars_of_dot hdot, sanitizeChars_of_no_dot hnone, capitalize_onePass rfl]
  · have hnone : '.' ∉ capitalize cs := by rwa [dot_mem_capitalize_iff]
    rw [sanitizeChars_of_no_dot hdot, sanitizeChars_of_no_dot hnone, capitalize_capitalize]

/-- **Sanitizing a dotted name is one pass over it.**  The words into which its runs are cut are not
empty and cover them; of the places where they are cut only those between a digit and a letter have
an effect; and sanitizing a second time changes nothing, whatever the name is. -/
theorem sanitize_onePass :
    (∀ name : String, '.' ∈ name.toList → (sanitize name).toList = onePass none name.toList) ∧
    (∀ run : String, [] ∉ splitWords run.toList ∧ (splitWords run.toList).flatten = run.toList ∧
      ∀ count, String.Pos.Raw.IsValid run
        (String.ofList ((splitWords run.toList).take count).flatten).rawEndPos) ∧
    (∀ (b : Boundaries) (name : String), '.' ∈ name.toList →
      (sanitize name).toList = joined b.boundary name.toList) ∧
    (∃ name : String, '.' ∈ name.toList ∧ (sanitize name).toList ≠
      joined (fun p c next => startsWord p c next && !(p.isDigit && c.isAlpha)) name.toList) ∧
    ∀ name : String, sanitize (sanitize name) = sanitize name := by
  have hchars (name : String) (h : '.' ∈ name.toList) :
      (sanitize name).toList = onePass none name.toList := by
    rw [sanitize, String.toList_ofList, sanitizeChars_of_dot h]
  refine ⟨hchars, fun run => ?_, fun b name h => ?_, ⟨"a.b2b", by decide, by decide⟩,
    fun name => ?_⟩
  · exact ⟨nil_notMem_splitWords _, flatten_splitWords _, isValid_splitWords run⟩
  · rw [hchars name h, joined_eq_onePass]
  · rw [sanitize, sanitize, String.toList_ofList, sanitizeChars_sanitizeChars]

/-- The fewest boundaries: those between a digit and a letter. -/
def Boundaries.digitLetterOnly : Boundaries where
  boundary := fun p c _ => p.isDigit && c.isAlpha
  startsWord := fun p c next h => by
    rw [Bool.and_eq_true] at h
    exact Boundaries.all.digitLetter p c next h.1 h.2
  digitLetter := fun p c next hp hc => by rw [hp, hc]; rfl

/-- That `SHOPs` is cut into two words, and `b2b` before its digit, has no effect. -/
theorem sanitize_onePass_shop : '.' ∈ "my.b2bSHOPs-x".toList ∧
    sanitize "my.b2bSHOPs-x" = "MyB2BSHOPsX" ∧
    (sanitize "my.b2bSHOPs-x").toList = onePass none "my.b2bSHOPs-x".toList ∧
    (sanitize "my.b2bSHOPs-x").toList =
      joined Boundaries.digitLetterOnly.boundary "my.b2bSHOPs-x".toList :=
  ⟨by decide, by decide, sanitize_onePass.1 _ (by decide),
    sanitize_onePass.2.2.1 .digitLetterOnly _ (by decide)⟩

end SchemaTypings.Name
