import LanguageKit.ItemSource
import LanguageKit.Registry
import LanguageKit.Script

/-!
# Extensible expression parsers

A parser knows no grammar. For every token that can begin an expression a
parselet is registered, and for every token that can go on with one a parselet
with a binding power. Parsing with a minimum reads the beginning of an expression
and folds in what follows for as long as it binds more tightly than the minimum.

Items are read from a source and can be looked at in advance. A source that is
exhausted reads as an endless run of end items, placed at the largest end that
any item had. A failure item is reported when it is consumed, and not before.

Budgets bound how deep expressions nest and how often they go on; they never
change an answer, they only may withhold it.
-/

namespace LanguageKit

open Text

/-- How an expression goes on behind its left side. -/
structure InfixRule (ε : Type) where
  /-- How tightly the token binds. -/
  power : Int32
  /-- What is done once the token has been consumed. -/
  parselet : ε → Item → Script ε

/-- A parser. -/
structure Parser (σ ε : Type) where
  /-- Where items come from. -/
  source : σ
  /-- The items that have been read and not been consumed, oldest first. -/
  buffer : List Item
  /-- The largest end of all items read. -/
  lastEnd : Nat
  /-- How expressions can begin. -/
  prefixes : Registry (Item → Script ε)
  /-- How expressions can go on. -/
  infixes : Registry (InfixRule ε)
  /-- What has been recorded, oldest first. -/
  log : Array Event

/-- Why an operation of a parser brings no answer. -/
inductive Interruption where
  /-- The input is rejected. -/
  | rejected (report : Diagnostic)
  /-- The source crashed. -/
  | crashed (cut : CutError)
  /-- A budget did not suffice. -/
  | exhausted

/-- An operation of a parser. The parser keeps what happened before an
interruption. -/
abbrev Parsing (σ ε α : Type) : Type := ExceptT Interruption (StateM (Parser σ ε)) α

namespace Parser

variable {σ ε : Type}

/-- A parser without rules. -/
def ofSource (source : σ) : Parser σ ε := ⟨source, [], 0, [], [], #[]⟩

/-- A parser of bare tokens. -/
def ofTokens (tokens : List Token) : Parser (List Item) ε := ofSource (tokens.map Item.bare)

/-- Registers how an expression can begin. -/
def registerPrefix (parser : Parser σ ε) (token : Token) (parselet : Item → Script ε) :
    Parser σ ε :=
  { parser with prefixes := parser.prefixes.put token parselet }

/-- Registers how an expression can go on. -/
def registerInfix (parser : Parser σ ε) (token : Token) (power : Int32)
    (parselet : ε → Item → Script ε) : Parser σ ε :=
  { parser with infixes := parser.infixes.put token ⟨power, parselet⟩ }

/-- The binding power a token is registered with. -/
def infixPower? (parser : Parser σ ε) (token : Token) : Option Int32 :=
  (parser.infixes.find? token).map InfixRule.power

/-- The item that an exhausted source reads as. -/
def endItem (parser : Parser σ ε) : Item :=
  ⟨.endOfInput, "", ⟨parser.lastEnd, parser.lastEnd⟩⟩

/-- Records an event. -/
def record (parser : Parser σ ε) (event : Event) : Parser σ ε :=
  { parser with log := parser.log.push event }

/-- The full form shows the items read in advance and the registered tokens, those
of the second kind with their binding powers. -/
instance : FullForm (Parser σ ε) :=
  ⟨fun parser => recordForm "Parser"
    [("buffered", fullForm parser.buffer), ("prefix", fullForm parser.prefixes.tokens),
      ("infix", fullForm (parser.infixes.map fun entry => (entry.1, entry.2.power)))]⟩

/-- Ends an operation with a diagnostic. -/
def reject {α : Type} (report : Diagnostic) : Parsing σ ε α := throw (.rejected report)

/-- The diagnostic of an operation that is rejected as an answer; other
interruptions go through. -/
def attempt {α : Type} (operation : Parsing σ ε α) : Parsing σ ε (Except Diagnostic α) :=
  ExceptT.mk do
    match ← operation.run with
    | .ok answer => return .ok (.ok answer)
    | .error (.rejected report) => return .ok (.error report)
    | .error interruption => return .error interruption

section Reading

variable [ItemSource σ]

/-- Reads one item from the source, and records what the source recorded. -/
def pull : Parsing σ ε Item := do
  let parser ← get
  let (pulled, read) := ItemSource.read parser.source
  let (events, source) := ItemSource.takeEvents read
  let parser := { parser with source, log := parser.log ++ events.toArray }
  match pulled with
  | .item item =>
    set { parser with lastEnd := max parser.lastEnd item.span.stop }
    return item
  | .ended =>
    set parser
    return parser.endItem
  | .crashed cut =>
    set parser
    throw (.crashed cut)
  | .exhausted =>
    set parser
    throw .exhausted

/-- Reads a number of items in advance. -/
def fill : Nat → Parsing σ ε Unit
  | 0 => return ()
  | count + 1 => do
    let item ← pull
    modify fun parser => { parser with buffer := parser.buffer ++ [item] }
    fill count

/-- The item at a distance ahead. Nothing is consumed. -/
def lookAhead (distance : Nat) : Parsing σ ε Item := do
  fill (distance + 1 - (← get).buffer.length)
  let parser ← get
  return parser.buffer.getD distance parser.endItem

/-- Takes the next item, read in advance or not. -/
def takeItem : Parsing σ ε Item := do
  let parser ← get
  match parser.buffer with
  | item :: rest =>
    set { parser with buffer := rest }
    return item
  | [] => pull

/-- Consumes the next item. A failure item is consumed and then reported. -/
def advance : Parsing σ ε Item := do
  let item ← takeItem
  modify fun parser => parser.record (.consumed item)
  if item.isFailure then reject (.ofFailure item)
  return item

/-- Consumes the next token only if it is the expected one. -/
def matchToken (expected : Token) : Parsing σ ε Bool := do
  let ahead ← lookAhead 0
  if ahead.token = expected then
    let _ ← advance
    return true
  return false

/-- The diagnostic for a token in the place of another. -/
def expectedReport (expected : Token) (found : Item) : Diagnostic :=
  { stage := .parser
    message := "expected token " ++ quote expected.text ++ " but found " ++ found.text
    span := some found.span }

/-- The diagnostic for a token that no rule is registered for. -/
def unexpectedReport (found : Item) : Diagnostic :=
  { stage := .parser
    message := "could not parse " ++ found.text
    span := some found.span
    notes := ["token: " ++ found.token.text] }

/-- Consumes the next token, which must be the expected one. A failure item is
consumed in any case, so that the failure is what is reported. -/
def consume (expected : Token) : Parsing σ ε Item := do
  let ahead ← lookAhead 0
  if ahead.token = expected ∨ ahead.isFailure = true then advance
  else reject (expectedReport expected ahead)

/-- The binding power of the next token, zero when it is not registered. -/
def precedence : Parsing σ ε Int32 := do
  let ahead ← lookAhead 0
  return ((← get).infixPower? ahead.token).getD 0

/-- Parses expressions for as long as a separator follows, and adds them to those
before. -/
def separated (expression : Int32 → Parsing σ ε ε) (minimum : Int32) (separator : Token) :
    Nat → Array ε → Parsing σ ε (List ε)
  | 0, _ => throw .exhausted
  | budget + 1, members => do
    let member ← expression minimum
    if ← matchToken separator then
      separated expression minimum separator budget (members.push member)
    else return (members.push member).toList

/-- Carries out a script. How expressions are parsed is left to the caller. -/
def play (expression : Int32 → Parsing σ ε ε) (budget : Nat) : Script ε → Parsing σ ε ε
  | .done (.ok result) => return result
  | .done (.error report) => reject report
  | .expression minimum resume => do
    let answer ← attempt (expression minimum)
    play expression budget (resume answer)
  | .separated minimum separator resume => do
    let answer ← attempt (separated expression minimum separator budget #[])
    play expression budget (resume answer)
  | .matchToken expected resume => do
    let answer ← attempt (matchToken expected)
    play expression budget (resume answer)
  | .consume expected resume => do
    let answer ← attempt (consume expected)
    play expression budget (resume answer)
  | .precedence resume => do
    let answer ← precedence
    play expression budget (resume answer)
  | .lookAhead distance resume => do
    let answer ← lookAhead distance
    play expression budget (resume answer)
  | .infixPower token resume => do
    let parser ← get
    play expression budget (resume (parser.infixPower? token))
  | .registerPrefix token parselet rest => do
    modify fun parser => parser.registerPrefix token parselet
    play expression budget rest
  | .registerInfix token power parselet rest => do
    modify fun parser => parser.registerInfix token power parselet
    play expression budget rest

/-- Reads the beginning of an expression. -/
def begin (expression : Int32 → Parsing σ ε ε) (budget : Nat) : Parsing σ ε ε := do
  let item ← advance
  match (← get).prefixes.find? item.token with
  | none => reject (unexpectedReport item)
  | some parselet => play expression budget (parselet item)

/-- Goes on with an expression whose left side has been read, once. -/
def extend (expression : Int32 → Parsing σ ε ε) (budget : Nat) (left : ε) :
    Parsing σ ε ε := do
  let item ← advance
  match (← get).infixes.find? item.token with
  | none => reject (unexpectedReport item)
  | some rule => play expression budget (rule.parselet left item)

/-- Goes on with an expression for as long as the next token binds more tightly
than a minimum. -/
def climb (expression : Int32 → Parsing σ ε ε) (playBudget : Nat) (minimum : Int32) :
    Nat → ε → Parsing σ ε ε
  | 0, _ => throw .exhausted
  | budget + 1, left => do
    if minimum < (← precedence) then
      let extended ← extend expression playBudget left
      climb expression playBudget minimum budget extended
    else return left

/-- Parses an expression, folding in what binds more tightly than a minimum. -/
def parseExpression : Nat → Int32 → Parsing σ ε ε
  | 0, _ => throw .exhausted
  | budget + 1, minimum => do
    let left ← begin (parseExpression budget) budget
    climb (parseExpression budget) budget minimum (budget + 1) left

/-- Parses one expression that reaches to the end of the input. -/
def parse (budget : Nat) : Parsing σ ε ε := do
  let expression ← parseExpression budget 0
  let _ ← consume .endOfInput
  return expression

end Reading

end Parser

end LanguageKit
