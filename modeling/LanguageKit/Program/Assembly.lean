import LanguageKit.Program.Builder
import LanguageKit.Program.Literal
import LanguageKit.Text.Blank
import LanguageKit.Text.Bytes

/-!
# Assembling programs

The text of a program has one instruction per line: a mnemonic and its operands
with commas between them. A name with a colon behind it defines a label, a
semicolon begins a comment, and the address column of a listing is skipped.

Each line is read on its own into a statement; the first line that cannot be
read is reported with its place. The statements are then handed to a builder,
and what the builder or the table of names finds wrong has no place.
-/

namespace LanguageKit.Program

open Text

/-- The name of a label in the text of a program. -/
abbrev Name : Type := List Char

/-- An operand as it is written. -/
inductive Argument where
  /-- A word. -/
  | word (word : Int32)
  /-- The name of a label. -/
  | name (name : Name)
  deriving DecidableEq

/-- What one line says: the labels it defines, and an instruction if it has one. -/
structure Statement where
  /-- The labels defined in front of the instruction, in order. -/
  labels : List Name
  /-- The opcode and its operands. -/
  instruction : Option (Opcode × List Argument)
  deriving DecidableEq

/-- Why a line cannot be read. -/
inductive LineError where
  /-- The text in front of a colon is no name and no address. -/
  | invalidLabel (text : List Char)
  /-- The mnemonic names no opcode. -/
  | unknownMnemonic (text : List Char)
  /-- An operand is neither a word nor a name. -/
  | invalidOperand (text : List Char)
  /-- The number of operands is not what the opcode asks for. -/
  | operandCount (opcode : Opcode) (given : Nat)
  deriving DecidableEq

/-- The wording of what is wrong with a line. -/
def LineError.message : LineError → String
  | invalidLabel text => "invalid label `" ++ String.ofList text ++ "`"
  | unknownMnemonic text => Opcode.unknownMnemonic (String.ofList text)
  | invalidOperand text => "invalid operand `" ++ String.ofList text ++ "`"
  | operandCount opcode given => operandCountMessage opcode given

/-- Reads the text in front of a colon: an address is skipped, a name defines a
label. -/
def readLabel (head : List Char) : Except LineError (List Name) :=
  let text := trim head
  if isAddressColumn text then .ok []
  else if isLabelName text then .ok [text]
  else .error (.invalidLabel text)

/-- Reads an operand. -/
def readArgument (text : List Char) : Except LineError Argument :=
  match readWord? text with
  | some word => .ok (.word word)
  | none => if isLabelName text then .ok (.name text) else .error (.invalidOperand text)

/-- The texts of the operands: what stands between the commas, blanks and empty
texts left out. -/
def argumentTexts (text : List Char) : List (List Char) :=
  ((parts ',' text).map trim).filter fun part => !part.isEmpty

/-- Reads an instruction from a text without blanks around it. The mnemonic goes
up to the first blank; the operands are read before they are counted. -/
def readInstruction (text : List Char) : Except LineError (Option (Opcode × List Argument)) :=
  if text.isEmpty then .ok none
  else
    let mnemonic := text.takeWhile fun c => !isBlank c
    match Opcode.ofMnemonic? mnemonic with
    | none => .error (.unknownMnemonic mnemonic)
    | some opcode => do
      let arguments ← (argumentTexts (text.drop (mnemonic.length + 1))).mapM readArgument
      if arguments.length = opcode.operandCount then return some (opcode, arguments)
      else .error (.operandCount opcode arguments.length)

/-- Reads a line. Everything from the first semicolon on is a comment; of what
remains, every part with a colon behind it is a label, and the last part is the
instruction. -/
def readLine (line : List Char) : Except LineError Statement := do
  let code := line.takeWhile (· ≠ ';')
  let pieces := parts ':' code
  let labels ← pieces.dropLast.mapM readLabel
  let instruction ← readInstruction (trim (pieces.getLastD []))
  return ⟨labels.flatten, instruction⟩

/-- Cuts a text behind every end of a line. -/
def splitLines : List Char → List (List Char)
  | [] => []
  | c :: rest =>
    if c = '\n' then [c] :: splitLines rest
    else
      match splitLines rest with
      | [] => [[c]]
      | line :: lines => (c :: line) :: lines

/-- The lines of a text, joined, are the text. -/
theorem flatten_splitLines (text : List Char) : (splitLines text).flatten = text := by
  induction text with
  | nil => rfl
  | cons c rest ih =>
    unfold splitLines
    split
    · rw [List.flatten_cons, ih, List.singleton_append]
    · split
      · rename_i hnil
        rw [hnil] at ih
        rw [← ih]
        rfl
      · rename_i line lines hcons
        rw [hcons, List.flatten_cons] at ih
        rw [List.flatten_cons, List.cons_append, ih]

/-- A line of a text with its place. -/
structure SourceLine where
  /-- The line with its end. -/
  text : List Char
  /-- The number of the line, counted from one. -/
  number : Nat
  /-- The bytes of the line. -/
  span : Span
  deriving DecidableEq

/-- Gives lines their places, from a number and an offset on. -/
def locateLines (number offset : Nat) : List (List Char) → List SourceLine
  | [] => []
  | line :: lines =>
    let stop := offset + byteSize line
    ⟨line, number, ⟨offset, stop⟩⟩ :: locateLines (number + 1) stop lines

/-- The lines of a text with their places. -/
def sourceLines (source : List Char) : List SourceLine := locateLines 1 0 (splitLines source)

/-- Why a text cannot be assembled. -/
inductive AssemblyError where
  /-- A line cannot be read. -/
  | line (number : Nat) (span : Span) (cause : LineError)
  /-- A name is used and never defined. -/
  | undefinedLabel (name : Name)
  /-- The builder reports a mistake. -/
  | build (cause : BuildError)
  deriving DecidableEq

/-- The diagnostic of a failed assembly. Only a line that cannot be read has a
place, and its number as a note. -/
def AssemblyError.diagnostic : AssemblyError → Diagnostic
  | line number span cause =>
    { stage := .assembler
      message := cause.message
      span := some span
      notes := ["line " ++ natText number] }
  | undefinedLabel name =>
    { stage := .assembler
      message := "label `" ++ String.ofList name ++ "` is never defined" }
  | build cause => cause.diagnostic

/-- Reads a line at its place. -/
def SourceLine.read (line : SourceLine) : Except AssemblyError Statement :=
  (readLine line.text).mapError (.line line.number line.span)

/-- A program that is being assembled: the builder, and the names in the order in
which they were first met, so that the name at a place belongs to the label with
that number. -/
structure Draft where
  /-- The builder of the program. -/
  builder : Builder := {}
  /-- The names met so far. -/
  names : Array Name := #[]

namespace Draft

/-- The label of a name, which is made when the name is met for the first time. -/
def labelOf (draft : Draft) (name : Name) : Label × Draft :=
  match draft.names.toList.idxOf? name with
  | some number => (⟨number⟩, draft)
  | none =>
    let (label, builder) := draft.builder.newLabel
    (label, { builder, names := draft.names.push name })

/-- Defines a label at the current address. -/
def define (draft : Draft) (name : Name) : Draft :=
  let (label, named) := draft.labelOf name
  { named with builder := named.builder.bind label }

/-- The operand an argument stands for. -/
def operandOf (draft : Draft) : Argument → Operand × Draft
  | .word word => (.word word, draft)
  | .name name =>
    let (label, named) := draft.labelOf name
    (.label label, named)

/-- The operands a list of arguments stands for. -/
def operandsOf (draft : Draft) : List Argument → List Operand × Draft
  | [] => ([], draft)
  | argument :: arguments =>
    let (operand, named) := draft.operandOf argument
    let (operands, last) := named.operandsOf arguments
    (operand :: operands, last)

/-- Adds a statement: its labels, then its instruction. -/
def addStatement (draft : Draft) (statement : Statement) : Draft :=
  let defined := statement.labels.foldl define draft
  match statement.instruction with
  | none => defined
  | some (opcode, arguments) =>
    let (operands, named) := defined.operandsOf arguments
    { named with builder := named.builder.instruction opcode operands }

/-- The first name, in the order in which they were met, that is not defined. -/
def undefinedName? (draft : Draft) : Option Name :=
  (draft.names.toList.zipIdx.find? fun entry => !draft.builder.isBound ⟨entry.2⟩).map Prod.fst

/-- The assembled program. Names without a definition are reported before the
mistakes of the builder. -/
def finish (draft : Draft) : Except AssemblyError (Array Int32) :=
  match draft.undefinedName? with
  | some name => .error (.undefinedLabel name)
  | none => draft.builder.finish.mapError .build

end Draft

/-- The statements of a text, or the first line that cannot be read. -/
def readSource (source : List Char) : Except AssemblyError (List Statement) :=
  (sourceLines source).mapM SourceLine.read

/-- The program that a list of statements describes. -/
def ofStatements (statements : List Statement) : Except AssemblyError (Array Int32) :=
  (statements.foldl Draft.addStatement {}).finish

end LanguageKit.Program

namespace LanguageKit

/-- Assembles the text of a program. -/
def assemble (source : String) : Except Program.AssemblyError (Array Int32) := do
  Program.ofStatements (← Program.readSource source.toList)

end LanguageKit
