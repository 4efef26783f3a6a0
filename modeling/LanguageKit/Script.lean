import LanguageKit.Diagnostic

/-!
# Scripts of parselets

A parselet says what a parser does once the token that calls for it has been
consumed. Its script is a tree of the parser's operations: every operation comes
with the script that goes on from its answer, and the script ends with an
expression or a diagnostic. A script sees the diagnostics of its operations and
may pass them on or not; the short forms at the end of this module pass them on.
-/

namespace LanguageKit

/-- What a parselet does, as data. -/
inductive Script (ε : Type) : Type where
  /-- Ends with an expression or a diagnostic. -/
  | done (result : Except Diagnostic ε)
  /-- Parses an expression with a minimum binding power. -/
  | expression (minimum : Int32) (resume : Except Diagnostic ε → Script ε)
  /-- Parses expressions with a token between each two of them. -/
  | separated (minimum : Int32) (separator : Token)
      (resume : Except Diagnostic (List ε) → Script ε)
  /-- Consumes the next token if it is the expected one. -/
  | matchToken (expected : Token) (resume : Except Diagnostic Bool → Script ε)
  /-- Consumes the next token, which must be the expected one. -/
  | consume (expected : Token) (resume : Except Diagnostic Item → Script ε)
  /-- Asks for the binding power of the next token. -/
  | precedence (resume : Int32 → Script ε)
  /-- Looks at an item ahead. -/
  | lookAhead (distance : Nat) (resume : Item → Script ε)
  /-- Asks for the binding power a token is registered with. -/
  | infixPower (token : Token) (resume : Option Int32 → Script ε)
  /-- Registers how an expression can begin. -/
  | registerPrefix (token : Token) (parselet : Item → Script ε) (rest : Script ε)
  /-- Registers how an expression can go on. -/
  | registerInfix (token : Token) (power : Int32) (parselet : ε → Item → Script ε)
      (rest : Script ε)

namespace Script

variable {ε : Type}

/-- Ends with an expression. -/
def accept (result : ε) : Script ε := done (.ok result)

/-- Ends with a diagnostic. -/
def reject (report : Diagnostic) : Script ε := done (.error report)

/-- Goes on with an answer, and ends with the diagnostic if there is none. -/
def passOn {α : Type} (resume : α → Script ε) : Except Diagnostic α → Script ε
  | .ok answer => resume answer
  | .error report => reject report

/-- Parses an expression; a diagnostic ends the script. -/
def thenExpression (minimum : Int32) (resume : ε → Script ε) : Script ε :=
  expression minimum (passOn resume)

/-- Parses expressions with separators; a diagnostic ends the script. -/
def thenSeparated (minimum : Int32) (separator : Token) (resume : List ε → Script ε) :
    Script ε :=
  separated minimum separator (passOn resume)

/-- Consumes an expected token if it comes next; a diagnostic ends the script. -/
def thenMatch (expected : Token) (resume : Bool → Script ε) : Script ε :=
  matchToken expected (passOn resume)

/-- Consumes an expected token; a diagnostic ends the script. -/
def thenConsume (expected : Token) (resume : Item → Script ε) : Script ε :=
  consume expected (passOn resume)

/-- Parses what stands between an opening token, which has been consumed, and a
closing one: nothing, or expressions with separators. -/
def thenEnclosed (close separator : Token) (resume : List ε → Script ε) : Script ε :=
  thenMatch close fun isEmpty =>
    if isEmpty then resume []
    else
      thenSeparated 0 separator fun members => thenConsume close fun _ => resume members

end Script

end LanguageKit
