import FileShell.Text.Basic

/-! # The order of texts

Names are listed in the order of their characters' codes, which is also the order of their bytes. -/

namespace FileShell.Text

/-- **Whether one text does not come after another**, by the codes of their characters. -/
def le : Text → Text → Bool
  | [], _ => true
  | _ :: _, [] => false
  | a :: s, b :: t => a < b || (a = b && le s t)

/-- A value put before the first one whose text does not come before its own. -/
def insertBy {α : Type} (key : α → Text) (a : α) : List α → List α
  | [] => [a]
  | b :: rest => if le (key a) (key b) then a :: b :: rest else b :: insertBy key a rest

/-- **Values in the order of their texts.** -/
def sortBy {α : Type} (key : α → Text) (values : List α) : List α :=
  values.foldr (insertBy key) []

@[simp] theorem sortBy_nil {α : Type} (key : α → Text) : sortBy key [] = [] := rfl

@[simp] theorem sortBy_cons {α : Type} (key : α → Text) (a : α) (values : List α) :
    sortBy key (a :: values) = insertBy key a (sortBy key values) := rfl

/-- Putting a value in keeps the others and adds it. -/
theorem mem_insertBy {α : Type} {key : α → Text} {a b : α} {values : List α} :
    b ∈ insertBy key a values ↔ b = a ∨ b ∈ values := by
  induction values with
  | nil => simp [insertBy]
  | cons c rest ih =>
    rw [insertBy]
    split
    · simp
    · simp only [List.mem_cons, ih]
      constructor
      · rintro (h | h | h) <;> simp [h]
      · rintro (h | h | h) <;> simp [h]

/-- Sorting loses no value and adds none. -/
theorem mem_sortBy {α : Type} {key : α → Text} {b : α} {values : List α} :
    b ∈ sortBy key values ↔ b ∈ values := by
  induction values with
  | nil => simp
  | cons c rest ih => simp [mem_insertBy, ih]

end FileShell.Text
