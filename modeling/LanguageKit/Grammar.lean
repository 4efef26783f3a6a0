import LanguageKit.Parser

/-!
# Grammars given by tables

The entries of a grammar describe rules for a parser by data. Expressions are
texts: an entry says how the text of an expression is put together from the
token, its lexeme and place, and the texts of the parts.
-/

namespace LanguageKit

open Text

/-- A part of a template. -/
inductive Template.Part where
  /-- A text that is taken as it is. -/
  | literal (text : String)
  /-- A piece of the expression, by its number. -/
  | piece (index : Nat)
  deriving DecidableEq

/-- How the text of an expression is put together. The pieces are the text of the
token, the lexeme, the start of the span, and then the parts. -/
abbrev Template : Type := List Template.Part

/-- The text of one part, given all pieces. -/
def Template.Part.fill (pieces : List String) : Template.Part → String
  | literal text => text
  | piece index => pieces.getD index ""

/-- The text of an expression from its pieces. -/
def Template.fill (template : Template) (item : Item) (parts : List String) : String :=
  let pieces := item.token.text :: item.lexeme :: natText item.span.start :: parts
  String.join (template.map fun part => part.fill pieces)

/-- The text of a compound expression without a template: the token and the parts,
in parentheses. -/
def compoundText (item : Item) (parts : List String) : String :=
  "(" ++ item.token.text ++ " " ++ " ".intercalate parts ++ ")"

/-- The text of an expression, by a template if there is one. -/
def expressionText (template : Option Template) (item : Item) (parts : List String) : String :=
  match template with
  | some template => template.fill item parts
  | none => compoundText item parts

/-- The diagnostic of an entry that rejects its token. -/
def rejectionReport (message : String) (item : Item) : Diagnostic :=
  { stage := .parser
    message
    span := some item.span
    notes := ["rejected " ++ item.text] }

/-- How an expression goes on behind its left side. -/
inductive InfixForm where
  /-- With nothing more. -/
  | trailing
  /-- With a right side. -/
  | binary (minimum : Int32)
  /-- With a middle part, a separator and a right side. -/
  | ternary (separator : Token) (minimum : Int32)
  /-- With enclosed members. -/
  | enclosed (close separator : Token)
  /-- With the binding power of what follows, in decimal. -/
  | power
  /-- Not at all. -/
  | reject (message : String)
  deriving DecidableEq

/-- An entry for a token that goes on with an expression. -/
structure InfixEntry where
  /-- The token. -/
  token : Token
  /-- How tightly it binds. -/
  power : Int32
  /-- How the expression goes on. -/
  form : InfixForm
  /-- How its text is put together. -/
  template : Option Template
  deriving DecidableEq

/-- The script of an entry. -/
def InfixEntry.parselet (entry : InfixEntry) (left : String) (item : Item) : Script String :=
  let finish (parts : List String) : Script String :=
    .accept (expressionText entry.template item (left :: parts))
  match entry.form with
  | .trailing => finish []
  | .binary minimum => .thenExpression minimum fun right => finish [right]
  | .ternary separator minimum =>
    .thenExpression 0 fun middle =>
      .thenConsume separator fun _ =>
        .thenExpression minimum fun right => finish [middle, right]
  | .enclosed close separator => .thenEnclosed close separator finish
  | .power => .precedence fun power => finish [wordText power]
  | .reject message => .reject (rejectionReport message item)

/-- How an expression begins without changing the grammar. -/
inductive PrefixForm where
  /-- It is the lexeme alone. -/
  | leaf
  /-- With an operand. -/
  | unary (minimum : Int32)
  /-- With an expression and a closing token. -/
  | group (close : Token)
  /-- With enclosed members. -/
  | enclosed (close separator : Token)
  /-- With the short form of an item ahead. -/
  | ahead (distance : Nat)
  /-- Not at all. -/
  | reject (message : String)
  deriving DecidableEq

/-- The script of a form. -/
def PrefixForm.script (template : Option Template) (item : Item) (form : PrefixForm) :
    Script String :=
  let finish (parts : List String) : Script String :=
    .accept (expressionText template item parts)
  match form with
  | .leaf =>
    match template with
    | some template => .accept (template.fill item [])
    | none => .accept item.lexeme
  | .unary minimum => .thenExpression minimum fun operand => finish [operand]
  | .group close => .thenExpression 0 fun inner => .thenConsume close fun _ => finish [inner]
  | .enclosed close separator => .thenEnclosed close separator finish
  | .ahead distance => .lookAhead distance fun seen => finish [seen.text]
  | .reject message => .reject (rejectionReport message item)

/-- An entry for a token that begins an expression. -/
inductive PrefixEntry where
  /-- The token begins an expression of some form. -/
  | form (token : Token) (template : Option Template) (shape : PrefixForm)
  /-- The token brings entries of its own into the grammar and then takes an
  operand. -/
  | install (token : Token) (template : Option Template) (minimum : Int32)
      (prefixes : List PrefixEntry) (infixes : List InfixEntry)

/-- An arbitrary entry. -/
instance : Inhabited PrefixEntry := ⟨.form default none .leaf⟩

/-- The token of an entry. -/
def PrefixEntry.token : PrefixEntry → Token
  | form token _ _ | install token _ _ _ _ => token

/-- Registers entries and goes on. -/
def InfixEntry.registering (rest : Script String) : List InfixEntry → Script String
  | [] => rest
  | entry :: entries =>
    .registerInfix entry.token entry.power entry.parselet (registering rest entries)

mutual

/-- The script of an entry. -/
def PrefixEntry.parselet : PrefixEntry → Item → Script String
  | .form _ template shape, item => shape.script template item
  | .install _ template minimum prefixes infixes, item =>
    PrefixEntry.registering
      (InfixEntry.registering
        (.thenExpression minimum fun operand =>
          .accept (expressionText template item [operand]))
        infixes)
      prefixes

/-- Registers entries and goes on. -/
def PrefixEntry.registering (rest : Script String) : List PrefixEntry → Script String
  | [] => rest
  | entry :: entries =>
    .registerPrefix entry.token (fun item => entry.parselet item)
      (PrefixEntry.registering rest entries)

end

/-- The entries of a grammar. -/
structure Grammar where
  /-- The entries for tokens that begin an expression, in the order of registration. -/
  prefixes : List PrefixEntry
  /-- The entries for tokens that go on with an expression, in the order of
  registration. -/
  infixes : List InfixEntry

/-- Registers all entries of a grammar in a parser. -/
def Grammar.register {σ : Type} (grammar : Grammar) (parser : Parser σ String) :
    Parser σ String :=
  let begun := grammar.prefixes.foldl
    (fun parser entry => parser.registerPrefix entry.token entry.parselet) parser
  grammar.infixes.foldl
    (fun parser entry => parser.registerInfix entry.token entry.power entry.parselet) begun

end LanguageKit
