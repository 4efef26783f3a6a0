import LanguageKit.Span
import LanguageKit.Token

/-!
# Items

An item is a token together with the text it was scanned from and the place of
that text. The item of a scanning failure carries the message in place of the
text. Items are shown in a short form that keeps messages in one line.
-/

namespace LanguageKit

open Text

/-- A scanned token. -/
structure Item where
  /-- The lexical category. -/
  token : Token
  /-- The scanned text, or the message of a failure. -/
  lexeme : String
  /-- Where the text stands in the source. -/
  span : Span
  deriving DecidableEq, Inhabited

namespace Item

/-- The item of a token that comes without a source: its lexeme is the text of
the token, at the empty span at zero. -/
def bare (token : Token) : Item := ⟨token, token.text, ⟨0, 0⟩⟩

/-- The item that reports a scanning failure. -/
def failed (message : String) (span : Span) : Item := ⟨.failure, message, span⟩

/-- Whether the item reports a scanning failure. -/
def isFailure (item : Item) : Bool := item.token = .failure

/-- Whether the item marks the end of the input. -/
def isEnd (item : Item) : Bool := item.token = .endOfInput

/-- The number of code points a shown lexeme keeps. -/
def shownLength : Nat := 10

/-- The short form: the message of a failure, the name of the end, and otherwise
the quoted lexeme, cut after ten code points with three dots behind it. -/
def text (item : Item) : String :=
  if item.token = .failure then item.lexeme
  else if item.token = .endOfInput then "EOF"
  else if shownLength < item.lexeme.length then
    quote (String.ofList (item.lexeme.toList.take shownLength)) ++ "..."
  else quote item.lexeme

/-- The full form names all three parts. -/
instance : FullForm Item :=
  ⟨fun item => recordForm "Item"
    [("token", fullForm item.token), ("lexeme", fullForm item.lexeme),
      ("span", fullForm item.span)]⟩

end Item

end LanguageKit
