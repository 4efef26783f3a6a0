import LanguageKit.Text.Decimal
import LanguageKit.Text.Quoted

/-!
# Full forms of values

The full form of a value shows its whole structure in one line: texts quoted,
lists in brackets, records with the names of their fields. It is what a reader
inspects when the short form of a value hides too much.
-/

namespace LanguageKit.Text

/-- Values with a full form. -/
class FullForm (α : Type) where
  /-- The text that shows the whole structure of a value. -/
  fullForm : α → String

export FullForm (fullForm)

/-- The full form of a number is its decimal form. -/
instance : FullForm Nat := ⟨natText⟩

/-- The full form of a word is its decimal form. -/
instance : FullForm Int32 := ⟨wordText⟩

/-- The full form of an integer is its decimal form. -/
instance : FullForm Int := ⟨intText⟩

/-- The full form of a text is the quoted text. -/
instance : FullForm String := ⟨quote⟩

/-- The full form of a truth value is its name. -/
instance : FullForm Bool := ⟨fun b => if b then "true" else "false"⟩

/-- A value that may be absent is shown as `Some(…)` or `None`. -/
instance {α : Type} [FullForm α] : FullForm (Option α) :=
  ⟨fun
    | some value => "Some(" ++ fullForm value ++ ")"
    | none => "None"⟩

/-- A list is shown in brackets, its members separated by a comma and a blank. -/
instance {α : Type} [FullForm α] : FullForm (List α) :=
  ⟨fun values => "[" ++ ", ".intercalate (values.map fullForm) ++ "]"⟩

/-- An array is shown as the list of its members. -/
instance {α : Type} [FullForm α] : FullForm (Array α) :=
  ⟨fun values => fullForm values.toList⟩

/-- A pair is shown in parentheses. -/
instance {α β : Type} [FullForm α] [FullForm β] : FullForm (α × β) :=
  ⟨fun pair => "(" ++ fullForm pair.1 ++ ", " ++ fullForm pair.2 ++ ")"⟩

/-- The full form of a record: its name, then its fields in braces, each with
its name and the full form of its value. -/
def recordForm (name : String) (fields : List (String × String)) : String :=
  let shown := fields.map fun field => field.1 ++ ": " ++ field.2
  name ++ " \x7b " ++ ", ".intercalate shown ++ " \x7d"

/-- The full form of a value wrapped under a name. -/
def wrappedForm (name : String) (inner : String) : String := name ++ "(" ++ inner ++ ")"

end LanguageKit.Text
