import FileShell.Text.Order
import Mathlib.Data.Char
import Mathlib.Data.List.Lex

/-! # Sorting by texts

Texts are compared letter by letter, as lists are (`Text.le_iff`). Sorting puts values in the order
of their texts and keeps each of them (`Text.pairwise_sortBy`, `Text.sortBy_perm`). So values with
texts of their own are sorted into one list, in whatever order they come
(`Text.sortBy_eq_of_perm`). -/

namespace FileShell.Text

/-- **The order of texts** is that of lists. -/
theorem le_iff {s t : Text} : le s t = true ↔ s ≤ t := by
  induction s generalizing t with
  | nil =>
    have hle : ([] : Text) ≤ t := not_lt.1 (List.not_lt_nil t)
    simp [le, hle]
  | cons a s ih =>
    cases t with
    | nil =>
      have hlt : [] < a :: s := List.nil_lt_cons a s
      simp [le, not_le.2 hlt]
    | cons b t =>
      rw [← not_lt, List.cons_lt_cons_iff, le, Bool.or_eq_true, Bool.and_eq_true,
        decide_eq_true_iff, decide_eq_true_iff, ih]
      rcases lt_trichotomy a b with hlt | rfl | hlt
      · simp [hlt, hlt.not_gt, hlt.ne']
      · simp
      · simp [hlt, hlt.not_gt, hlt.ne']

section

variable {α : Type} {key : α → Text} {a : α} {values sorted : List α}

/-- Putting a value in keeps all of them. -/
theorem insertBy_perm (key : α → Text) (a : α) (values : List α) :
    (insertBy key a values).Perm (a :: values) := by
  induction values with
  | nil => exact .refl _
  | cons b rest ih =>
    rw [insertBy]
    split
    · exact .refl _
    · exact (ih.cons b).trans (.swap a b rest)

/-- **Sorting keeps every value**, as often as it is there. -/
theorem sortBy_perm (key : α → Text) (values : List α) : (sortBy key values).Perm values := by
  induction values with
  | nil => exact .refl _
  | cons a rest ih => exact (insertBy_perm key a _).trans (ih.cons a)

/-- A value is put where its text belongs. -/
theorem pairwise_insertBy (h : values.Pairwise fun b c => key b ≤ key c) :
    (insertBy key a values).Pairwise fun b c => key b ≤ key c := by
  induction values with
  | nil => simp [insertBy]
  | cons b rest ih =>
    obtain ⟨hfirst, hrest⟩ := List.pairwise_cons.1 h
    rw [insertBy]
    split
    · next hle =>
      have hle : key a ≤ key b := le_iff.1 hle
      refine List.pairwise_cons.2 ⟨fun c hc => ?_, h⟩
      rcases List.mem_cons.1 hc with rfl | hc
      · exact hle
      · exact hle.trans (hfirst c hc)
    · next hle =>
      have hle : key b ≤ key a :=
        (le_total (key b) (key a)).resolve_right fun hge => hle (le_iff.2 hge)
      refine List.pairwise_cons.2 ⟨fun c hc => ?_, ih hrest⟩
      rcases mem_insertBy.1 hc with rfl | hc
      · exact hle
      · exact hfirst c hc

/-- **Sorted values are in the order of their texts.** -/
theorem pairwise_sortBy (key : α → Text) (values : List α) :
    (sortBy key values).Pairwise fun b c => key b ≤ key c := by
  induction values with
  | nil => exact .nil
  | cons a rest ih => exact pairwise_insertBy ih

/-- **Values with texts of their own are sorted into one list**, in whatever order they come. -/
theorem sortBy_eq_of_perm (injective : Function.Injective key) (h : values.Perm sorted)
    (hsorted : sorted.Pairwise fun b c => key b ≤ key c) : sortBy key values = sorted :=
  ((sortBy_perm key values).trans h).eq_of_pairwise
    (fun _ _ _ _ hle hge => injective (hle.antisymm hge)) (pairwise_sortBy key values)
    hsorted

end

end FileShell.Text
