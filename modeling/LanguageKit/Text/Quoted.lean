import LanguageKit.Text.GraphemeExtend
import LanguageKit.Text.Printable

/-!
# Quoted text

Messages show a text between double quotes, in one line and without anything
invisible. A quote and a backslash are escaped by a backslash, the four common
controls have a letter, and every other character that cannot be shown on its
own, or that would attach to the character before it, is written by its code
point in hexadecimal.
-/

namespace LanguageKit.Text

/-- The lower-case hexadecimal digits of a code point, without padding. -/
def hexadecimal (code : Nat) : List Char := Nat.toDigits 16 code

/-- The characters that stand for one character between the quotes. -/
def escape (c : Char) : List Char :=
  if c = '"' then ['\\', '"']
  else if c = '\\' then ['\\', '\\']
  else if c = '\n' then ['\\', 'n']
  else if c = '\r' then ['\\', 'r']
  else if c = '\t' then ['\\', 't']
  else if c = '\x00' then ['\\', '0']
  else if extendsGrapheme c || !isPrintable c then
    ['\\', 'u', '\x7b'] ++ hexadecimal c.toNat ++ ['\x7d']
  else [c]

/-- A text between double quotes, each character escaped where it must be. -/
def quote (text : String) : String :=
  String.ofList ('"' :: text.toList.flatMap escape ++ ['"'])

end LanguageKit.Text
