/-!
# Operand literals and label names

An operand is written as a word or as the name of a label. A word is a decimal
or hexadecimal number with at most one minus sign in front; it may be given in
the signed or in the unsigned range of thirty-two bits. A name is made of ASCII
letters, digits and underscores and does not begin with a digit, so that no text
is both.
-/

namespace LanguageKit.Program

/-- The value of a digit in a radix of at most sixteen, in upper or lower case. -/
def digitValue? (radix : Nat) (c : Char) : Option Nat :=
  let value :=
    if c.isDigit then some (c.toNat - '0'.toNat)
    else if 'a' ≤ c && c ≤ 'f' then some (c.toNat - 'a'.toNat + 10)
    else if 'A' ≤ c && c ≤ 'F' then some (c.toNat - 'A'.toNat + 10)
    else none
  value.filter (· < radix)

/-- The value of a nonempty sequence of digits. -/
def magnitude? (radix : Nat) (digits : List Char) : Option Nat :=
  if digits.isEmpty then none
  else digits.foldlM (fun value c => (digitValue? radix c).map (value * radix + ·)) 0

/-- The value of an unsigned number: hexadecimal behind a zero and an `x`, and
decimal otherwise. -/
def unsigned? : List Char → Option Nat
  | '0' :: 'x' :: digits => magnitude? 16 digits
  | '0' :: 'X' :: digits => magnitude? 16 digits
  | digits => magnitude? 10 digits

/-- The value of a number with at most one minus sign in front. -/
def signed? : List Char → Option Int
  | '-' :: rest => (unsigned? rest).map fun magnitude => -(magnitude : Int)
  | text => (unsigned? text).map fun magnitude => (magnitude : Int)

/-- The word with a value in the signed or the unsigned range. -/
def wordOfValue? (value : Int) : Option Int32 :=
  if -0x80000000 ≤ value ∧ value ≤ 0xffffffff then some (Int32.ofInt value) else none

/-- Reads an operand word. -/
def readWord? (text : List Char) : Option Int32 := (signed? text).bind wordOfValue?

/-- Whether a character may begin a label name. -/
def beginsName (c : Char) : Bool := c.isAlpha || c == '_'

/-- Whether a character may stand in a label name. -/
def continuesName (c : Char) : Bool := c.isAlphanum || c == '_'

/-- Whether a text is a label name. -/
def isLabelName : List Char → Bool
  | [] => false
  | c :: rest => beginsName c && rest.all continuesName

/-- Whether a text is the address in front of a line of a listing: a nonempty
sequence of decimal digits. -/
def isAddressColumn (text : List Char) : Bool := !text.isEmpty && text.all Char.isDigit

end LanguageKit.Program
