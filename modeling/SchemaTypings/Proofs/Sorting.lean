import Mathlib.Data.List.Nodup
import Mathlib.Data.List.Perm.Basic
import SchemaTypings.Generation.Outline

/-!
# Sorted lists

Sorting keeps what a list holds and, if the names in it are distinct, forgets in which order the
list held it.  Taking a list apart by keys keeps what it holds, too.
-/

namespace SchemaTypings.Generation

open SchemaTypings.Schema

/-! ### Sorting by name -/

theorem pairwise_mergeSort_name {α : Type} (nameOf : α → String) (entries : List α) :
    (entries.mergeSort fun a b => decide (nameOf a ≤ nameOf b)).Pairwise
      fun a b => nameOf a ≤ nameOf b := by
  have htrans : ∀ a b c : α, decide (nameOf a ≤ nameOf b) = true →
      decide (nameOf b ≤ nameOf c) = true → decide (nameOf a ≤ nameOf c) = true := by
    intro a b c hab hbc
    exact decide_eq_true (String.le_trans (of_decide_eq_true hab) (of_decide_eq_true hbc))
  have htotal : ∀ a b : α,
      (decide (nameOf a ≤ nameOf b) || decide (nameOf b ≤ nameOf a)) = true := by
    intro a b
    simpa using String.le_total (nameOf a) (nameOf b)
  exact (List.pairwise_mergeSort htrans htotal entries).imp of_decide_eq_true

/-- Sorting by distinct names forgets the order. -/
theorem mergeSort_eq_of_perm {α : Type} {nameOf : α → String} {entries others : List α}
    (h : entries.Perm others) (hd : (entries.map nameOf).Nodup) :
    (entries.mergeSort fun a b => decide (nameOf a ≤ nameOf b)) =
      others.mergeSort fun a b => decide (nameOf a ≤ nameOf b) := by
  have hperm : (entries.mergeSort fun a b => decide (nameOf a ≤ nameOf b)).Perm
      (others.mergeSort fun a b => decide (nameOf a ≤ nameOf b)) :=
    (List.mergeSort_perm _ _).trans (h.trans (List.mergeSort_perm _ _).symm)
  -- of two sorted arrangements of one list only equal names could stand in different places
  refine List.Perm.eq_of_pairwise (fun a b ha hb hab hba => ?_)
    (pairwise_mergeSort_name nameOf entries) (pairwise_mergeSort_name nameOf others) hperm
  have ha' : a ∈ entries := List.mem_mergeSort.1 ha
  have hb' : b ∈ entries := h.mem_iff.2 (List.mem_mergeSort.1 hb)
  exact List.inj_on_of_nodup_map hd ha' hb' (String.le_antisymm hab hba)

/-- Among distinct names it is the same to select before sorting and after. -/
theorem filter_mergeSort_name {α : Type} {nameOf : α → String} (p : α → Bool) {entries : List α}
    (hd : (entries.map nameOf).Nodup) :
    (entries.mergeSort fun a b => decide (nameOf a ≤ nameOf b)).filter p =
      (entries.filter p).mergeSort fun a b => decide (nameOf a ≤ nameOf b) := by
  have hsorted : ((entries.mergeSort fun a b => decide (nameOf a ≤ nameOf b)).filter p).Pairwise
      fun a b => decide (nameOf a ≤ nameOf b) = true :=
    ((pairwise_mergeSort_name nameOf entries).imp decide_eq_true).filter p
  have hperm : ((entries.mergeSort fun a b => decide (nameOf a ≤ nameOf b)).filter p).Perm
      (entries.filter p) := (List.mergeSort_perm _ _).filter p
  have hnames : ((entries.filter p).map nameOf).Nodup :=
    hd.sublist (List.filter_sublist.map nameOf)
  rw [← List.mergeSort_of_pairwise hsorted]
  exact mergeSort_eq_of_perm hperm ((hperm.map nameOf).nodup_iff.2 hnames)

theorem inOrder_eq_of_perm {α : Type} {entries others : List (String × α)}
    (h : entries.Perm others) (hd : (entries.map Prod.fst).Nodup) :
    inOrder true entries = inOrder true others :=
  mergeSort_eq_of_perm h hd

theorem mem_inOrder {α : Type} (sorted : Bool) (entries : List (String × α))
    (entry : String × α) : entry ∈ inOrder sorted entries ↔ entry ∈ entries := by
  cases sorted with
  | false => rfl
  | true => exact List.mem_mergeSort

theorem mem_scopesInOrder (sorted : Bool) (scopes : List Scope) (scope : Scope) :
    scope ∈ scopesInOrder sorted scopes ↔ scope ∈ scopes := by
  cases sorted with
  | false => rfl
  | true => exact List.mem_mergeSort

/-! ### Parts of equal keys -/

/-- A list falls apart into its parts of equal keys. -/
theorem flatMap_filter_perm {α κ : Type} [DecidableEq κ] (keyOf : α → κ) {keys : List κ}
    (hd : keys.Nodup) {entries : List α} (h : ∀ a ∈ entries, keyOf a ∈ keys) :
    (keys.flatMap fun key => entries.filter fun a => keyOf a = key).Perm entries := by
  induction keys generalizing entries with
  | nil => rw [List.eq_nil_iff_forall_not_mem.2 fun a ha => List.not_mem_nil (h a ha)]; rfl
  | cons key rest ih =>
    obtain ⟨hkey, hrest⟩ := List.nodup_cons.1 hd
    have hothers : (rest.flatMap fun k => entries.filter fun a => keyOf a = k) =
        rest.flatMap fun k =>
          (entries.filter fun a => !decide (keyOf a = key)).filter fun a => keyOf a = k := by
      refine List.flatMap_congr fun k hk => ?_
      rw [List.filter_filter]
      refine List.filter_congr fun a _ => ?_
      have hne : k ≠ key := fun e => hkey (e ▸ hk)
      by_cases hak : keyOf a = k <;> simp [hak, hne]
    have hkeys : ∀ a ∈ entries.filter fun a => !decide (keyOf a = key), keyOf a ∈ rest := by
      intro a ha
      obtain ⟨ha, hne⟩ := List.mem_filter.1 ha
      rcases List.mem_cons.1 (h a ha) with hk | hk
      · simp [hk] at hne
      · exact hk
    rw [List.flatMap_cons, hothers]
    exact ((ih hrest hkeys).append_left _).trans (List.filter_append_perm _ entries)

/-- Items of one key are selected by it and by no other. -/
theorem filter_of_forall_key {α κ : Type} [DecidableEq κ] (keyOf : α → κ) {key : κ}
    {items : List α} (h : ∀ a ∈ items, keyOf a = key) (other : κ) :
    (items.filter fun a => keyOf a = other) = if key = other then items else [] := by
  split
  · next he => exact List.filter_eq_self.2 fun a ha => decide_eq_true ((h a ha).trans he)
  · next hne => exact List.filter_eq_nil_iff.2 fun a ha => by simpa [h a ha] using hne

/-! ### Ascending texts -/

theorem eraseReps_loop (a : String) (texts held : List String) :
    List.eraseRepsBy.loop (· == ·) a texts held =
      held.reverse ++ List.eraseRepsBy.loop (· == ·) a texts [] := by
  induction texts generalizing a held with
  | nil => simp [List.eraseRepsBy.loop]
  | cons b rest ih =>
    rw [List.eraseRepsBy.loop, List.eraseRepsBy.loop]
    cases a == b with
    | true => exact ih a held
    | false =>
      show List.eraseRepsBy.loop (· == ·) b rest (a :: held) =
        held.reverse ++ List.eraseRepsBy.loop (· == ·) b rest [a]
      rw [ih b (a :: held), ih b [a]]
      simp

/-- Of two texts that follow one another the first is dropped if it is equal to the second. -/
theorem eraseReps_cons_cons (a b : String) (rest : List String) :
    (a :: b :: rest).eraseReps =
      if a = b then (b :: rest).eraseReps else a :: (b :: rest).eraseReps := by
  show List.eraseRepsBy.loop (· == ·) a (b :: rest) [] = _
  rw [List.eraseRepsBy.loop]
  by_cases h : a = b
  · rw [if_pos h, h, beq_self_eq_true]
    rfl
  · rw [if_neg h, beq_false_of_ne h]
    exact eraseReps_loop b rest [a]

theorem mem_eraseReps (text : String) (texts : List String) :
    text ∈ texts.eraseReps ↔ text ∈ texts := by
  induction texts with
  | nil => rfl
  | cons a rest ih =>
    cases rest with
    | nil => rfl
    | cons b rest =>
      rw [eraseReps_cons_cons]
      split
      · next h => rw [ih, h]; simp
      · rw [List.mem_cons, ih, List.mem_cons (l := b :: rest)]

theorem nodup_eraseReps {texts : List String} (h : texts.Pairwise (· ≤ ·)) :
    texts.eraseReps.Nodup := by
  induction texts with
  | nil => exact List.nodup_nil
  | cons a rest ih =>
    cases rest with
    | nil => exact List.pairwise_singleton _ a
    | cons b rest =>
      obtain ⟨ha, hrest⟩ := List.pairwise_cons.1 h
      rw [eraseReps_cons_cons]
      split
      · exact ih hrest
      · next hne =>
        refine List.nodup_cons.2 ⟨fun hm => hne ?_, ih hrest⟩
        -- a later text equal to the first would be both above and below the second
        have hab : a ≤ b := ha b List.mem_cons_self
        rcases List.mem_cons.1 ((mem_eraseReps _ _).1 hm) with rfl | hm
        · rfl
        · exact String.le_antisymm hab ((List.pairwise_cons.1 hrest).1 a hm)

theorem mem_ascending (text : String) (texts : List String) :
    text ∈ ascending texts ↔ text ∈ texts := by
  rw [ascending, mem_eraseReps, List.mem_mergeSort]

theorem nodup_ascending (texts : List String) : (ascending texts).Nodup :=
  nodup_eraseReps (pairwise_mergeSort_name id texts)

end SchemaTypings.Generation
