import LanguageKit.Diagnostic
import LanguageKit.Opcode

/-!
# Building programs

A builder collects the words of a program instruction by instruction. Operands
may be labels, whose addresses are filled in when the program is finished, so a
label can be used before it is bound. The first mistake is remembered and
reported at the end; a call that makes a mistake changes nothing else.
-/

namespace LanguageKit

open Text

/-- A jump target, known by the number its builder gave to it. -/
structure Label where
  /-- How many labels the builder had made before. -/
  number : Nat
  deriving DecidableEq, Inhabited

/-- The full form wraps the number. -/
instance : FullForm Label := ⟨fun label => wrappedForm "Label" (fullForm label.number)⟩

/-- An operand of an instruction that is being built. -/
inductive Operand where
  /-- A word that is known. -/
  | word (word : Int32)
  /-- The address of a label. -/
  | label (label : Label)
  deriving DecidableEq

/-- A place in the code that waits for the address of a label. -/
structure Patch where
  /-- The place in the code. -/
  place : Nat
  /-- The label whose address belongs there. -/
  label : Label
  deriving DecidableEq

/-- The full form is that of a pair. -/
instance : FullForm Patch := ⟨fun patch => fullForm (patch.place, patch.label)⟩

/-- Says that an instruction has the wrong number of operands. -/
def operandCountMessage (opcode : Opcode) (given : Nat) : String :=
  "`" ++ opcode.name ++ "` takes " ++ natText opcode.operandCount ++
    " operand(s) but was given " ++ natText given

/-- The mistakes a builder reports. -/
inductive BuildError where
  /-- An instruction was given the wrong number of operands. -/
  | operandCount (opcode : Opcode) (given address : Nat)
  /-- A label was bound for the second time. -/
  | boundTwice (label : Label)
  /-- A label was bound that the builder has not made. -/
  | foreign (label : Label)
  /-- A label was used and never bound. -/
  | neverBound (label : Label)
  /-- An address does not fit into a word. -/
  | tooLong
  deriving DecidableEq

namespace BuildError

/-- The wording of a mistake. -/
def message : BuildError → String
  | operandCount opcode given _ => operandCountMessage opcode given
  | boundTwice label => "label " ++ natText label.number ++ " is bound twice"
  | foreign label => "label " ++ natText label.number ++ " belongs to another builder"
  | neverBound label => "label " ++ natText label.number ++ " is never bound"
  | tooLong => "program exceeds the addressable range"

/-- The diagnostic of a mistake. A wrong number of operands is noted with the
address the instruction would have had. -/
def diagnostic (error : BuildError) : Diagnostic :=
  { stage := .assembler
    message := error.message
    notes := match error with
      | operandCount _ _ place => ["at address " ++ addressText place]
      | _ => [] }

end BuildError

/-- A program under construction. -/
structure Builder where
  /-- The words so far, zero where an address is still missing. -/
  code : Array Int32 := #[]
  /-- The address of every label that has been made, once it is bound. -/
  labels : Array (Option Nat) := #[]
  /-- The places that wait for an address, in the order they were built. -/
  patches : Array Patch := #[]
  /-- The first mistake. -/
  error : Option BuildError := none

namespace Builder

/-- The address of the next instruction. -/
def address (builder : Builder) : Nat := builder.code.size

/-- Remembers a mistake, unless there has been one before. -/
def record (builder : Builder) (mistake : BuildError) : Builder :=
  { builder with error := builder.error.or (some mistake) }

/-- Adds a word. -/
def addWord (builder : Builder) (word : Int32) : Builder :=
  { builder with code := builder.code.push word }

/-- Adds an operand: a word as it is, and zero with a patch for a label. -/
def addOperand (builder : Builder) : Operand → Builder
  | .word word => builder.addWord word
  | .label label =>
    { builder with
      code := builder.code.push 0
      patches := builder.patches.push ⟨builder.address, label⟩ }

/-- Adds an instruction. The number of operands must be what the opcode asks for. -/
def instruction (builder : Builder) (opcode : Opcode) (operands : List Operand) : Builder :=
  if operands.length = opcode.operandCount then
    operands.foldl addOperand (builder.addWord opcode.word)
  else
    builder.record (.operandCount opcode operands.length builder.address)

/-- Adds an instruction whose operands are all words. -/
def emit (builder : Builder) (opcode : Opcode) (operands : List Int32) : Builder :=
  builder.instruction opcode (operands.map .word)

/-- Adds an instruction without operands. -/
def op (builder : Builder) (opcode : Opcode) : Builder := builder.instruction opcode []

/-- Adds an instruction that pushes a word. -/
def push (builder : Builder) (word : Int32) : Builder := builder.emit .push [word]

/-- Adds a jump to a label. -/
def jump (builder : Builder) (label : Label) : Builder := builder.instruction .j [.label label]

/-- Adds a jump to a label that is taken when the top of the stack is a word. -/
def jumpIfEqual (builder : Builder) (word : Int32) (label : Label) : Builder :=
  builder.instruction .jeq [.word word, .label label]

/-- Adds a jump to a label that is taken when the top of the stack is not a word. -/
def jumpIfNotEqual (builder : Builder) (word : Int32) (label : Label) : Builder :=
  builder.instruction .jne [.word word, .label label]

/-- Makes a new label. -/
def newLabel (builder : Builder) : Label × Builder :=
  (⟨builder.labels.size⟩, { builder with labels := builder.labels.push none })

/-- Binds a label to the current address. A label is known by its number alone,
and can be bound once. -/
def bind (builder : Builder) (label : Label) : Builder :=
  match builder.labels[label.number]? with
  | some none =>
    { builder with labels := builder.labels.setIfInBounds label.number (some builder.address) }
  | some (some _) => builder.record (.boundTwice label)
  | none => builder.record (.foreign label)

/-- The address a label is bound to, if it is bound. -/
def target? (builder : Builder) (label : Label) : Option Nat :=
  builder.labels[label.number]?.join

/-- Whether a label is bound. -/
def isBound (builder : Builder) (label : Label) : Bool := (builder.target? label).isSome

/-- The largest address a word can hold. -/
def maxAddress : Nat := 0x7fffffff

/-- The word that stands for a label: the address it is bound to. -/
def resolve (builder : Builder) (label : Label) : Except BuildError Int32 :=
  match builder.target? label with
  | none => .error (.neverBound label)
  | some target => if target ≤ maxAddress then .ok (Int32.ofNat target) else .error .tooLong

/-- Fills one place of the code. -/
def applyPatch (builder : Builder) (code : Array Int32) (patch : Patch) :
    Except BuildError (Array Int32) :=
  (builder.resolve patch.label).map fun word => code.setIfInBounds patch.place word

/-- The finished program: the code with every address filled in, or the first
mistake, or the first label in the code that has no address. -/
def finish (builder : Builder) : Except BuildError (Array Int32) :=
  match builder.error with
  | some mistake => .error mistake
  | none => builder.patches.toList.foldlM builder.applyPatch builder.code

/-- The full form names all parts; a mistake is shown as its diagnostic. -/
instance : FullForm Builder :=
  ⟨fun builder => recordForm "ProgramBuilder"
    [("code", fullForm builder.code), ("labels", fullForm builder.labels),
      ("patches", fullForm builder.patches),
      ("error", fullForm (builder.error.map BuildError.diagnostic))]⟩

end Builder

end LanguageKit
