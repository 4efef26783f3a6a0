import LanguageKit.Text.FullForm

/-!
# Tokens

A token names a lexical category by its text. Two tokens are the same exactly
when their texts are. Two of them end a sequence of items: one marks the end of
the input, the other a scanning failure.
-/

namespace LanguageKit

open Text

/-- The name of a lexical category. -/
structure Token where
  /-- The text by which tokens are compared, ordered and shown. -/
  text : String
  deriving DecidableEq, Inhabited

namespace Token

/-- Marks the end of the input. -/
def endOfInput : Token := ⟨"EOF"⟩

/-- Marks a scanning failure, whose item carries the message. -/
def failure : Token := ⟨"err"⟩

/-- Whether a token ends an item sequence. -/
def isTerminal (token : Token) : Bool := token = endOfInput || token = failure

/-- Tokens are ordered by their texts, code point by code point. -/
instance : Ord Token := ⟨fun a b => compareOfLessAndEq a.text b.text⟩

/-- The full form wraps the quoted text. -/
instance : FullForm Token := ⟨fun token => wrappedForm "Token" (fullForm token.text)⟩

/-- Only the two terminal tokens end a sequence. -/
theorem isTerminal_iff (token : Token) :
    token.isTerminal = true ↔ token = endOfInput ∨ token = failure := by
  simp [isTerminal]

end Token

end LanguageKit
