import LanguageKit.Fault
import LanguageKit.Stack

/-!
# The stack machine

The machine runs a flat program of words on a value stack and thirty-two
registers, of which two receive the results of wide multiplication and of
division. One step executes one instruction. A step that faults keeps what it
did before the fault. With tracing on, each step first writes a line that shows
the instruction and the live stack.
-/

namespace LanguageKit

open Text

/-- A running machine, whose output goes to places of some type. -/
structure Machine (ω : Type := Sink) where
  /-- The registers. -/
  registers : Vector Int32 32
  /-- The program. -/
  code : Array Int32
  /-- The address of the next instruction. -/
  pc : Nat
  /-- The value stack. -/
  stack : Stack
  /-- Whether every step writes a line before it executes. -/
  tracing : Bool
  /-- Where output goes. -/
  sink : ω
  /-- Whether the machine has halted. -/
  halted : Bool
  /-- The number of instructions executed, the halting one included. -/
  steps : Nat
  /-- One event for every run that ended by halting. -/
  halts : Array Event

/-- What a step says about the machine. -/
inductive Progress where
  /-- The machine can go on. -/
  | running
  /-- The machine has halted. -/
  | halted
  deriving DecidableEq

namespace Machine

variable {ω : Type}

/-- The register for the low word of a product, or for a quotient. -/
def lowIndex : Fin 32 := 1

/-- The register for the high word of a product, or for a remainder. -/
def highIndex : Fin 32 := 2

/-- A machine at the start of a program. -/
def start (code : Array Int32) (tracing : Bool) (sink : ω) : Machine ω :=
  { registers := Vector.replicate 32 0
    code
    pc := 0
    stack := Stack.empty
    tracing
    sink
    halted := false
    steps := 0
    halts := #[] }

/-- A machine at the start of a program that writes to a sink. -/
def load (code : Array Int32) (tracing : Bool) (sink : Sink) : Machine :=
  start code tracing sink

/-- The register at an index, if there is one. -/
def register? (machine : Machine ω) (index : Nat) : Option Int32 := machine.registers[index]?

/-- The low result register. -/
def low (machine : Machine ω) : Int32 := machine.registers[lowIndex]

/-- The high result register. -/
def high (machine : Machine ω) : Int32 := machine.registers[highIndex]

/-- What was recorded: the changes of the stack, and then the halts, since a
machine that has halted leaves its stack alone. -/
def events (machine : Machine ω) : List Event := machine.stack.events ++ machine.halts.toList

/-- A part of a step: it changes the machine and may fault, and keeps the
changes it made before the fault. -/
abbrev Exec (ω α : Type) : Type := ExceptT Fault (StateM (Machine ω)) α

/-- Reads the next operand of the instruction at an address. -/
def operand (pc : Nat) (opcode : Opcode) : Exec ω Int32 := do
  let machine ← get
  match machine.code[machine.pc]? with
  | none => throw (.missingOperand pc opcode)
  | some word =>
    set { machine with pc := machine.pc + 1 }
    return word

/-- Takes the topmost word off the stack. -/
def pop (pc : Nat) (opcode : Opcode) : Exec ω Int32 := do
  let machine ← get
  match machine.stack.pop with
  | (none, _) => throw (.stackUnderflow pc opcode)
  | (some word, stack) =>
    set { machine with stack }
    return word

/-- Takes two words off the stack and returns the one that was pushed first in
front. -/
def popPair (pc : Nat) (opcode : Opcode) : Exec ω (Int32 × Int32) := do
  let second ← pop pc opcode
  let first ← pop pc opcode
  return (first, second)

/-- Takes a dividend and a divisor off the stack; the divisor must not be zero. -/
def popDivision (pc : Nat) (opcode : Opcode) : Exec ω (Int32 × Int32) := do
  let (dividend, divisor) ← popPair pc opcode
  if divisor = 0 then throw (.divideByZero pc opcode)
  return (dividend, divisor)

/-- Puts a word on the stack. -/
def push (word : Int32) : Exec ω Unit :=
  modify fun machine => { machine with stack := machine.stack.push word }

/-- Fills the two result registers. -/
def setResults (low high : Int32) : Exec ω Unit :=
  modify fun machine =>
    { machine with registers := (machine.registers.set lowIndex low).set highIndex high }

/-- Goes on at an address, which must not be negative. -/
def jump (target : Int32) : Exec ω Unit := do
  let machine ← get
  if target < 0 then throw (.outside target.toInt machine.code.size)
  set { machine with pc := target.toInt.toNat }

/-- The low word of a double-width product. -/
def productLow (a b : Int32) : Int32 := Int32.ofInt (a.toInt * b.toInt)

/-- The high word of a double-width product. -/
def productHigh (a b : Int32) : Int32 := Int32.ofInt ((a.toInt * b.toInt) >>> (32 : Nat))

/-- A left shift of the bits of a word. The amount is read without sign; one
that is not below the width gives zero. -/
def shiftLeft (a b : Int32) : Int32 :=
  if b.toUInt32.toNat < 32 then (a.toUInt32 <<< b.toUInt32).toInt32 else 0

/-- A right shift of the bits of a word that fills with zeros, with amounts as
for the left shift. -/
def shiftRight (a b : Int32) : Int32 :=
  if b.toUInt32.toNat < 32 then (a.toUInt32 >>> b.toUInt32).toInt32 else 0

/-- The line that tracing writes for an instruction: address, name, the operand
words the program has for it, and the live stack. -/
def traceLine (machine : Machine ω) (pc : Nat) (name : String) (operandCount : Nat) : String :=
  let operands := (machine.code.toList.drop (pc + 1)).take operandCount
  addressText pc ++ ": " ++ name ++ " " ++ fullForm operands ++ " \t" ++
    fullForm machine.stack.toList ++ "\n"

/-- Carries out a conditional jump: both operands are read before the stack is
looked at. -/
def branch (pc : Nat) (opcode : Opcode) (onEqual : Bool) : Exec ω Unit := do
  let word ← operand pc opcode
  let target ← operand pc opcode
  match (← get).stack.top? with
  | none => throw (.stackUnderflow pc opcode)
  | some top => if (top == word) == onEqual then jump target

/-- Remembers that a run came to its end. -/
def recordHalt (machine : Machine ω) : Machine ω :=
  { machine with
    halts := machine.halts.push (.halted machine.pc machine.steps machine.stack.live) }

section Running

variable [Output ω]

/-- Writes a text to the output on behalf of the instruction at an address. -/
def write (pc : Nat) (text : String) : Exec ω Unit := do
  let machine ← get
  let (outcome, sink) := Output.write machine.sink text
  set { machine with sink }
  match outcome with
  | .ok () => return ()
  | .error refusal => throw (.refusedOutput pc refusal)

/-- Writes the line of an instruction when tracing is on. -/
def trace (pc : Nat) (name : String) (operandCount : Nat) : Exec ω Unit := do
  let machine ← get
  if machine.tracing then write pc (machine.traceLine pc name operandCount)

/-- Carries out an instruction whose opcode has been fetched from an address. -/
def execute (pc : Nat) (opcode : Opcode) : Exec ω Progress := do
  match opcode with
  | .halt =>
    modify fun machine => { machine with halted := true }
    return .halted
  | .nop => return .running
  | .push =>
    push (← operand pc opcode)
    return .running
  | .pop =>
    let _ ← pop pc opcode
    return .running
  | .add =>
    let (a, b) ← popPair pc opcode
    push (a + b)
    return .running
  | .mul =>
    let (a, b) ← popPair pc opcode
    setResults (productLow a b) (productHigh a b)
    return .running
  | .div =>
    let (a, b) ← popDivision pc opcode
    setResults (a / b) (a % b)
    return .running
  | .mod =>
    let (a, b) ← popDivision pc opcode
    push (a % b)
    return .running
  | .print =>
    let printed ← pop pc opcode
    write pc (wordText printed ++ "\n")
    return .running
  | .jeq =>
    branch pc opcode true
    return .running
  | .jne =>
    branch pc opcode false
    return .running
  | .j =>
    jump (← operand pc opcode)
    return .running
  | .slt =>
    let compared ← pop pc opcode
    let bound ← operand pc opcode
    push (if compared < bound then 1 else 0)
    return .running
  | .sll =>
    let (a, b) ← popPair pc opcode
    push (shiftLeft a b)
    return .running
  | .srl =>
    let (a, b) ← popPair pc opcode
    push (shiftRight a b)
    return .running

/-- One step: fetch, trace, count, execute. A machine that has halted stays as it
is. Nothing is counted before the opcode is known and its line is written. -/
def stepping : Exec ω Progress := do
  let machine ← get
  if machine.halted then return .halted
  match machine.code[machine.pc]? with
  | none => throw (.outside machine.pc machine.code.size)
  | some fetched =>
    match Opcode.ofWord? fetched with
    | none =>
      trace machine.pc (".word " ++ wordText fetched) 0
      throw (.unknownOpcode machine.pc fetched)
    | some opcode =>
      trace machine.pc opcode.name opcode.operandCount
      modify fun traced => { traced with pc := traced.pc + 1, steps := traced.steps + 1 }
      execute machine.pc opcode

/-- Executes one instruction. -/
def step (machine : Machine ω) : Except Fault Progress × Machine ω := stepping.run.run machine

/-- Executes instructions one by one: at most the given number, and none behind
the first that halts or faults. -/
def stepUpTo : Nat → Machine ω → Except Fault Progress × Machine ω
  | 0, machine => (.ok .running, machine)
  | count + 1, machine =>
    match machine.step with
    | (.ok .running, next) => if count = 0 then (.ok .running, next) else stepUpTo count next
    | stopped => stopped

/-- Runs until the machine halts or faults, for at most a given number of steps;
the outcome is absent when these do not suffice. -/
def run : Nat → Machine ω → Option (Except Fault Unit) × Machine ω
  | 0, machine => (none, machine)
  | budget + 1, machine =>
    match machine.step with
    | (.ok .running, next) => run budget next
    | (.ok .halted, next) => (some (.ok ()), next.recordHalt)
    | (.error fault, next) => (some (.error fault), next)

end Running

end Machine

end LanguageKit
