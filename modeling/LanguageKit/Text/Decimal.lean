/-!
# Decimal numbers

Words and counts are written in plain decimal, and addresses of instructions
with at least four digits.
-/

namespace LanguageKit.Text

/-- The decimal digits of a natural number. -/
def natText (n : Nat) : String := String.ofList (Nat.toDigits 10 n)

/-- The decimal form of an integer: a minus sign in front of negative ones. -/
def intText (i : Int) : String :=
  if i < 0 then "-" ++ natText i.natAbs else natText i.natAbs

/-- The decimal form of a signed 32-bit word. -/
def wordText (w : Int32) : String := intText w.toInt

/-- An address in decimal, padded with zeros to four digits. -/
def addressText (n : Nat) : String :=
  let digits := Nat.toDigits 10 n
  String.ofList (List.replicate (4 - digits.length) '0' ++ digits)

end LanguageKit.Text
