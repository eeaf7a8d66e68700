import SchemaTypings.Proofs.Ownership

/-!
# The order of enclosing names

Enclosing is a strict order in which the names that enclose a given one form a chain.  The part
before the last dot is the greatest of them: it encloses the name, and whatever else encloses the
name encloses it, too (`eq_or_encloses_parent?`).
-/

namespace SchemaTypings.Schema

open SchemaTypings.Name

/-! ### A strict order -/

theorem encloses_trans {a b c : String} (hab : encloses a b = true) (hbc : encloses b c = true) :
    encloses a c = true := by
  obtain ⟨hne, hab⟩ := (encloses_iff a b).1 hab
  obtain ⟨-, hbc⟩ := (encloses_iff b c).1 hbc
  exact (encloses_iff a c).2 ⟨hne, (hab.trans (List.prefix_append _ _)).trans hbc⟩

theorem not_encloses_self (a : String) : ¬ encloses a a = true := by
  intro h
  have hlength := ((encloses_iff a a).1 h).2.length_le
  rw [List.length_append, List.length_singleton] at hlength
  omega

/-- Names that enclose the same name are equal, or one encloses the other. -/
theorem encloses_chain {a b name : String} (ha : encloses a name = true)
    (hb : encloses b name = true) : a = b ∨ encloses a b = true ∨ encloses b a = true := by
  obtain ⟨hane, ha⟩ := (encloses_iff a name).1 ha
  obtain ⟨hbne, hb⟩ := (encloses_iff b name).1 hb
  have ha' : a.toList <+: name.toList := (List.prefix_append _ _).trans ha
  have hb' : b.toList <+: name.toList := (List.prefix_append _ _).trans hb
  rcases Nat.lt_trichotomy a.toList.length b.toList.length with hlt | heq | hgt
  · have hab : a.toList ++ ['.'] <+: b.toList :=
      List.prefix_of_prefix_length_le ha hb' (by simp; omega)
    exact Or.inr (Or.inl ((encloses_iff a b).2 ⟨hane, hab⟩))
  · have hab : a.toList <+: b.toList := List.prefix_of_prefix_length_le ha' hb' (by omega)
    exact Or.inl (String.toList_inj.1 (hab.eq_of_length heq))
  · have hba : b.toList ++ ['.'] <+: a.toList :=
      List.prefix_of_prefix_length_le hb ha' (by simp; omega)
    exact Or.inr (Or.inr ((encloses_iff b a).2 ⟨hbne, hba⟩))

/-! ### The last dot -/

/-- A text with a dot falls apart at its last one. -/
theorem beforeLastDot_spec (cs : List Char) :
    (beforeLastDot cs = none ∧ '.' ∉ cs) ∨
      ∃ before after, beforeLastDot cs = some before ∧ cs = before ++ '.' :: after ∧
        '.' ∉ after := by
  induction cs with
  | nil => exact Or.inl ⟨rfl, List.not_mem_nil⟩
  | cons c rest ih =>
    rcases ih with ⟨hnone, hdot⟩ | ⟨before, after, hsome, hrest, hdot⟩
    · by_cases hc : c = '.'
      · refine Or.inr ⟨[], rest, ?_, by rw [hc]; rfl, hdot⟩
        simp [beforeLastDot, hnone, hc]
      · refine Or.inl ⟨by simp [beforeLastDot, hnone, hc], ?_⟩
        exact List.not_mem_cons_of_ne_of_not_mem (Ne.symm hc) hdot
    · refine Or.inr ⟨c :: before, after, ?_, by rw [hrest]; rfl, hdot⟩
      simp [beforeLastDot, hsome]

/-- The name falls apart at its last dot, and the part before that is its parent. -/
theorem parent?_spec {name parent : String} (h : parent? name = some parent) :
    ∃ after, name.toList = parent.toList ++ '.' :: after ∧ '.' ∉ after := by
  rw [parent?] at h
  rcases beforeLastDot_spec name.toList with ⟨hnone, -⟩ | ⟨before, after, hsome, hname, hdot⟩
  · simp [hnone] at h
  · refine ⟨after, ?_, hdot⟩
    cases before with
    | nil => simp [hsome] at h
    | cons c before =>
      simp only [hsome, Option.some.injEq] at h
      rw [hname, ← h, String.toList_ofList]

/-- Whatever encloses a name is its parent or encloses its parent. -/
theorem eq_or_encloses_parent? {name parent other : String} (hp : parent? name = some parent)
    (ho : encloses other name = true) : other = parent ∨ encloses other parent = true := by
  rcases encloses_chain ho (encloses_of_parent? hp) with heq | hop | hpo
  · exact Or.inl heq
  · exact Or.inr hop
  · -- a longer name would have a dot after that of the parent
    exfalso
    obtain ⟨after, hname, hdot⟩ := parent?_spec hp
    obtain ⟨more, hmore⟩ := ((encloses_iff parent other).1 hpo).2
    have hstart := ((encloses_iff other name).1 ho).2
    rw [hname, ← hmore, List.append_assoc, List.append_assoc, List.singleton_append,
      List.prefix_append_right_inj, List.prefix_cons_inj] at hstart
    exact hdot (hstart.subset (by simp))

/-- A name without a parent is enclosed by none. -/
theorem not_encloses_of_parent?_eq_none {name : String} (hp : parent? name = none)
    (other : String) : ¬ encloses other name = true := by
  intro ho
  obtain ⟨hne, hstart⟩ := (encloses_iff other name).1 ho
  rw [parent?] at hp
  rcases beforeLastDot_spec name.toList with ⟨-, hdot⟩ | ⟨before, after, hsome, hname, hdot⟩
  · exact hdot (hstart.subset (by simp))
  · cases before with
    | cons c before => simp [hsome] at hp
    | nil =>
      -- the only dot comes first, where the enclosing name has its own first character
      rw [hname, List.nil_append] at hstart
      cases hcs : other.toList with
      | nil => exact hne (String.toList_inj.1 hcs)
      | cons c rest =>
        rw [hcs, List.cons_append, List.cons_prefix_cons] at hstart
        exact hdot (hstart.2.subset (by simp))

end SchemaTypings.Schema
