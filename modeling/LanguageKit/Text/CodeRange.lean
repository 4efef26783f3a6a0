/-!
# Sets of code points given by ranges

A property of code points is stored as a table of inclusive ranges, in
ascending order. Membership is a search through the table; the two property
tables of this library are stated in this form.
-/

namespace LanguageKit.Text

/-- An inclusive range of code points. -/
structure CodeRange where
  /-- The first code point of the range. -/
  first : Nat
  /-- The last code point of the range. -/
  last : Nat
  deriving DecidableEq

/-- A code point belongs to a range when it lies between its two ends. -/
def CodeRange.holds (range : CodeRange) (code : Nat) : Bool :=
  range.first ≤ code && code ≤ range.last

/-- A character belongs to a table when one of its ranges holds the code point. -/
def inRanges (table : Array CodeRange) (c : Char) : Bool :=
  table.any fun range => range.holds c.toNat

end LanguageKit.Text
