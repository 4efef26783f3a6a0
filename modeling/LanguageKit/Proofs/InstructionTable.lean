import LanguageKit.Machine
import Mathlib.Algebra.Order.Group.Unbundled.Int
import Mathlib.Algebra.Order.Ring.Abs
import Mathlib.Algebra.Order.Ring.Int
import Mathlib.Data.Int.ModEq
import Mathlib.Logic.Function.Basic
import Mathlib.Tactic.NormNum
import Mathlib.Tactic.Ring

/-!
# The instruction table over the integers

The instruction set has a meaning that does not speak of words and slots: the stack is
a list of integers, arithmetic is that of the integers, and where a result has to fit
into a word it is brought into the range of words. Here is a machine that follows this
meaning, and what its arithmetic amounts to: the two words of a product determine the
product, quotient and remainder are those of division towards zero, and shifts multiply
and divide by powers of two.
-/

namespace LanguageKit

/-- The integers that a word holds. -/
def InWord (n : Int) : Prop := -2 ^ 31 ≤ n ∧ n < 2 ^ 31

/-- A machine that computes with integers. -/
structure IntegerMachine where
  /-- The address of the next instruction. -/
  pc : Nat
  /-- The stack, topmost first. -/
  stack : List Int
  /-- The registers. -/
  registers : Fin 32 → Int
  /-- Whether the machine has halted. -/
  halted : Bool
  /-- The number of instructions executed, the halting one included. -/
  steps : Nat
  /-- The integers that were printed, oldest first. -/
  printed : List Int

namespace IntegerMachine

/-- The integer of a word that is congruent to an integer. -/
def signed (n : Int) : Int := n.bmod (2 ^ 32)

/-- An integer read as a word without sign. -/
def unsigned (n : Int) : Int := n % 2 ^ 32

/-- The low word of a product. -/
def productLow (a b : Int) : Int := signed (a * b)

/-- The high word of a product. -/
def productHigh (a b : Int) : Int := a * b / 2 ^ 32

/-- The quotient of division towards zero. The one quotient that no word holds, that of
the least integer of a word by minus one, is replaced by that least integer. -/
def quotient (a b : Int) : Int := if a = -2 ^ 31 ∧ b = -1 then -2 ^ 31 else a.tdiv b

/-- The remainder of division towards zero. -/
def remainder (a b : Int) : Int := a.tmod b

/-- The first integer, without sign, times the power of two that the second names. -/
def shiftLeft (a b : Int) : Int := signed (unsigned a * 2 ^ (unsigned b).toNat)

/-- The first integer, without sign, divided by the power of two that the second names. -/
def shiftRight (a b : Int) : Int := signed (unsigned a / 2 ^ (unsigned b).toNat)

/-- What a step brings, and the machine after it. -/
abbrev Outcome : Type := Except Fault Progress × IntegerMachine

/-- The machine before the first step. -/
def start : IntegerMachine := ⟨0, [], fun _ => 0, false, 0, []⟩

/-- A step after which the machine can go on. -/
def goOn (machine : IntegerMachine) : Outcome := (.ok .running, machine)

/-- Puts an integer on the stack. -/
def push (machine : IntegerMachine) (n : Int) : IntegerMachine :=
  { machine with stack := n :: machine.stack }

/-- Fills the two result registers. -/
def setResults (machine : IntegerMachine) (low high : Int) : IntegerMachine :=
  { machine with
    registers := Function.update (Function.update machine.registers Machine.lowIndex low)
      Machine.highIndex high }

section Instructions

variable (code : Array Int32) (pc : Nat) (opcode : Opcode)

/-- Goes on with the next operand of the instruction at an address. -/
def withOperand (machine : IntegerMachine) (next : Int → IntegerMachine → Outcome) : Outcome :=
  match code[machine.pc]? with
  | some word => next word.toInt { machine with pc := machine.pc + 1 }
  | none => (.error (.missingOperand pc opcode), machine)

/-- Goes on with the top of the stack, which is taken off. -/
def withTop (machine : IntegerMachine) (next : Int → IntegerMachine → Outcome) : Outcome :=
  match machine.stack with
  | top :: rest => next top { machine with stack := rest }
  | [] => (.error (.stackUnderflow pc opcode), machine)

/-- Goes on with the two topmost integers, which are taken off, the one that was pushed
first in front. If there is only one it is lost. -/
def withPair (machine : IntegerMachine) (next : Int → Int → IntegerMachine → Outcome) : Outcome :=
  match machine.stack with
  | second :: first :: rest => next first second { machine with stack := rest }
  | _ => (.error (.stackUnderflow pc opcode), { machine with stack := [] })

/-- Goes on with a dividend and a divisor. They are lost if the divisor is zero. -/
def withDivision (machine : IntegerMachine) (next : Int → Int → IntegerMachine → Outcome) :
    Outcome :=
  machine.withPair pc opcode fun dividend divisor rest =>
    if divisor = 0 then (.error (.divideByZero pc opcode), rest) else next dividend divisor rest

/-- Goes on at an address. -/
def jump (target : Int) (machine : IntegerMachine) : Outcome :=
  if target < 0 then (.error (.outside target code.size), machine)
  else goOn { machine with pc := target.toNat }

/-- Goes on at an address, or behind the operands, depending on whether the top of the
stack equals the first operand. -/
def branch (onEqual : Bool) (machine : IntegerMachine) : Outcome :=
  machine.withOperand code pc opcode fun compared machine =>
    machine.withOperand code pc opcode fun target machine =>
      match machine.stack with
      | [] => (.error (.stackUnderflow pc opcode), machine)
      | top :: _ =>
        if decide (top = compared) = onEqual then machine.jump code target else goOn machine

/-- Carries out the instruction of an opcode that was fetched from an address. -/
def execute (machine : IntegerMachine) : Outcome :=
  match opcode with
  | .halt => (.ok .halted, { machine with halted := true })
  | .nop => goOn machine
  | .push => machine.withOperand code pc opcode fun n machine => goOn (machine.push n)
  | .pop => machine.withTop pc opcode fun _ machine => goOn machine
  | .add => machine.withPair pc opcode fun a b machine => goOn (machine.push (signed (a + b)))
  | .mul =>
    machine.withPair pc opcode fun a b machine =>
      goOn (machine.setResults (productLow a b) (productHigh a b))
  | .div =>
    machine.withDivision pc opcode fun a b machine =>
      goOn (machine.setResults (quotient a b) (remainder a b))
  | .mod => machine.withDivision pc opcode fun a b machine => goOn (machine.push (remainder a b))
  | .print =>
    machine.withTop pc opcode fun n machine =>
      goOn { machine with printed := machine.printed ++ [n] }
  | .jeq => machine.branch code pc opcode true
  | .jne => machine.branch code pc opcode false
  | .j => machine.withOperand code pc opcode fun target machine => machine.jump code target
  | .slt =>
    machine.withTop pc opcode fun a machine =>
      machine.withOperand code pc opcode fun bound machine =>
        goOn (machine.push (if a < bound then 1 else 0))
  | .sll => machine.withPair pc opcode fun a b machine => goOn (machine.push (shiftLeft a b))
  | .srl => machine.withPair pc opcode fun a b machine => goOn (machine.push (shiftRight a b))

end Instructions

/-- One step of a program. -/
def step (code : Array Int32) (machine : IntegerMachine) : Outcome :=
  if machine.halted then (.ok .halted, machine)
  else
    match code[machine.pc]? with
    | none => (.error (.outside machine.pc code.size), machine)
    | some word =>
      match Opcode.ofWord? word with
      | none => (.error (.unknownOpcode machine.pc word), machine)
      | some opcode =>
        execute code machine.pc opcode
          { machine with pc := machine.pc + 1, steps := machine.steps + 1 }

/-- The machine after a number of calls of a step of a program. -/
def afterCalls (code : Array Int32) : Nat → IntegerMachine
  | 0 => start
  | count + 1 => ((afterCalls code count).step code).2

/-- Two words are those of a product if they put it together. -/
structure IsProduct (a b low high : Int) : Prop where
  /-- The low part is a word. -/
  low_inWord : InWord low
  /-- The high part is a word. -/
  high_inWord : InWord high
  /-- The low part, read without sign, stands behind the high part. -/
  value : high * 2 ^ 32 + low % 2 ^ 32 = a * b

/-- The quotient and the remainder of division towards zero. -/
structure IsDivision (a b quotient remainder : Int) : Prop where
  /-- The remainder is what the quotient leaves. -/
  value : a = quotient * b + remainder
  /-- The remainder is smaller than the divisor. -/
  small : |remainder| < |b|
  /-- The remainder goes in the direction of the dividend. -/
  direction : remainder = 0 ∨ remainder.sign = a.sign

/-- An integer is brought into the range of words, without a change of its residue. -/
theorem signed_spec (n : Int) : InWord (signed n) ∧ signed n % 2 ^ 32 = n % 2 ^ 32 := by
  have hbmod : signed n = if n % 2 ^ 32 < 2 ^ 31 then n % 2 ^ 32 else n % 2 ^ 32 - 2 ^ 32 := by
    rw [signed, Int.bmod_def]
    rfl
  rw [InWord, hbmod]
  split <;> omega

/-- An integer in the range of words is determined by its residue. -/
theorem eq_signed {n word : Int} (hword : InWord word) (h : word % 2 ^ 32 = n % 2 ^ 32) :
    word = signed n := by
  obtain ⟨hsigned, hresidue⟩ := signed_spec n
  unfold InWord at hword hsigned
  omega

/-- A word is its own signed reading. -/
theorem signed_of_inWord {word : Int} (h : InWord word) : signed word = word :=
  (eq_signed h rfl).symm

/-- A product of words is far from what two words can hold. -/
theorem mul_bounds {a b : Int} (ha : InWord a) (hb : InWord b) :
    -2 ^ 62 ≤ a * b ∧ a * b ≤ 2 ^ 62 := by
  have habs : |a * b| ≤ 2 ^ 31 * 2 ^ 31 := by
    rw [abs_mul]
    have ha' : |a| ≤ 2 ^ 31 := abs_le.mpr ⟨ha.1, ha.2.le⟩
    have hb' : |b| ≤ 2 ^ 31 := abs_le.mpr ⟨hb.1, hb.2.le⟩
    exact mul_le_mul ha' hb' (abs_nonneg b) (by norm_num)
  obtain ⟨hlow, hhigh⟩ := abs_le.mp habs
  exact ⟨by omega, by omega⟩

/-- The two words of a product are those that put it together. -/
theorem isProduct_iff {a b : Int} (ha : InWord a) (hb : InWord b) (low high : Int) :
    IsProduct a b low high ↔ low = productLow a b ∧ high = productHigh a b := by
  obtain ⟨hlow, hhigh⟩ := mul_bounds ha hb
  obtain ⟨hsigned, hresidue⟩ := signed_spec (a * b)
  constructor
  · intro h
    have hvalue := h.value
    refine ⟨eq_signed h.low_inWord (by omega), ?_⟩
    rw [productHigh]
    omega
  · rintro ⟨rfl, rfl⟩
    refine ⟨hsigned, ?_, ?_⟩
    · unfold InWord productHigh
      omega
    · rw [productLow, hresidue, productHigh]
      omega

/-- Quotient and remainder towards zero are determined by what is asked of them. -/
theorem isDivision_iff {a b : Int} (hb : b ≠ 0) (q r : Int) :
    IsDivision a b q r ↔ q = a.tdiv b ∧ r = a.tmod b := by
  have hdivisor : |b| = (b.natAbs : Int) := Int.abs_eq_natAbs b
  constructor
  · intro h
    have hvalue : r + b * q = a := by
      rw [h.value]
      ring
    obtain ⟨hlow, hhigh⟩ := abs_lt.mp h.small
    obtain hneg | hpos := le_total a 0
    · have hr : r ≤ 0 := by
        obtain hzero | hsign := h.direction
        · exact hzero.le
        · rw [← Int.sign_nonpos_iff, hsign, Int.sign_nonpos_iff]
          exact hneg
      have hdivision := (Int.tdiv_tmod_unique' hneg hb).mpr ⟨hvalue, by omega, hr⟩
      exact ⟨hdivision.1.symm, hdivision.2.symm⟩
    · have hr : 0 ≤ r := by
        obtain hzero | hsign := h.direction
        · exact hzero.ge
        · rw [← Int.sign_nonneg_iff, hsign, Int.sign_nonneg_iff]
          exact hpos
      have hdivision := (Int.tdiv_tmod_unique hpos hb).mpr ⟨hvalue, hr, by omega⟩
      exact ⟨hdivision.1.symm, hdivision.2.symm⟩
  · rintro ⟨rfl, rfl⟩
    refine ⟨?_, ?_, ?_⟩
    · rw [mul_comm]
      exact (Int.mul_tdiv_add_tmod a b).symm
    · rw [hdivisor, Int.abs_eq_natAbs, Int.natAbs_tmod]
      exact_mod_cast Nat.mod_lt a.natAbs (Int.natAbs_pos.mpr hb)
    · by_cases hdvd : b ∣ a
      · exact Or.inl (Int.tmod_eq_zero_of_dvd hdvd)
      · right
        rw [Int.sign_tmod, if_neg hdvd]

/-- The integers of words are in their range. -/
theorem inWord_toInt (word : Int32) : InWord word.toInt := ⟨word.le_toInt, word.toInt_lt⟩

/-- A word is congruent to an integer exactly if it is the word of that integer. -/
theorem toInt_modEq_iff {word : Int32} {n : Int} :
    word.toInt ≡ n [ZMOD 2 ^ 32] ↔ word = Int32.ofInt n := by
  have hvalue : (Int32.ofInt n).toInt = signed n := Int32.toInt_ofInt
  constructor
  · intro h
    rw [← Int32.toInt_inj, hvalue]
    exact eq_signed (inWord_toInt word) h
  · rintro rfl
    rw [hvalue]
    exact (signed_spec n).2

/-- A sum of words is the sum of their integers, brought into range. -/
theorem toInt_add (a b : Int32) : (a + b).toInt = signed (a.toInt + b.toInt) :=
  Int32.toInt_add a b

/-- The low word of a product. -/
theorem toInt_productLow (a b : Int32) :
    (Machine.productLow a b).toInt = productLow a.toInt b.toInt :=
  Int32.toInt_ofInt

/-- The high word of a product. -/
theorem toInt_productHigh (a b : Int32) :
    (Machine.productHigh a b).toInt = productHigh a.toInt b.toInt := by
  obtain ⟨hlow, hhigh⟩ := mul_bounds (inWord_toInt a) (inWord_toInt b)
  have hvalue : (Machine.productHigh a b).toInt = signed (a.toInt * b.toInt / 2 ^ 32) := by
    rw [Machine.productHigh, Int.shiftRight_eq_div_pow]
    exact Int32.toInt_ofInt
  have hrange : InWord (a.toInt * b.toInt / 2 ^ 32) := by
    unfold InWord
    omega
  rw [hvalue, signed_of_inWord hrange, productHigh]

/-- A quotient of words. -/
theorem toInt_div (a b : Int32) : (a / b).toInt = quotient a.toInt b.toInt := by
  unfold quotient
  split
  · rename_i hextreme
    rw [Int32.toInt_div, hextreme.1, hextreme.2]
    decide
  · rename_i hextreme
    by_cases ha : a = Int32.minValue
    · have hb : b ≠ -1 := by
        rintro rfl
        exact hextreme ⟨by rw [ha]; decide, by decide⟩
      exact Int32.toInt_div_of_ne_right a b hb
    · exact Int32.toInt_div_of_ne_left a b ha

/-- A remainder of words. -/
theorem toInt_mod (a b : Int32) : (a % b).toInt = remainder a.toInt b.toInt :=
  Int32.toInt_mod a b

/-- A word that is put together from bits. -/
theorem toInt_toInt32 (bits : UInt32) : bits.toInt32.toInt = signed (bits.toNat : Int) :=
  BitVec.toInt_eq_toNat_bmod _

/-- The reading of a word without sign. -/
theorem unsigned_toInt (word : Int32) : unsigned word.toInt = (word.toUInt32.toNat : Int) := by
  have hbits : word.toInt = signed (word.toUInt32.toNat : Int) := toInt_toInt32 word.toUInt32
  have hsize : word.toUInt32.toNat < 2 ^ 32 := word.toUInt32.toNat_lt
  rw [unsigned, hbits, (signed_spec _).2]
  omega

/-- A left shift of words. -/
theorem toInt_shiftLeft (a b : Int32) :
    (Machine.shiftLeft a b).toInt = shiftLeft a.toInt b.toInt := by
  rw [shiftLeft, unsigned_toInt, unsigned_toInt, Int.toNat_natCast, Machine.shiftLeft]
  split
  · rename_i hsmall
    rw [toInt_toInt32, UInt32.toNat_shiftLeft, Nat.mod_eq_of_lt hsmall, Nat.shiftLeft_eq]
    refine eq_signed (signed_spec _).1 ?_
    rw [(signed_spec _).2]
    push_cast
    exact Int.emod_emod_of_dvd _ (dvd_refl _)
  · rename_i hlarge
    have hdvd : (2 : Int) ^ 32 ∣ 2 ^ b.toUInt32.toNat := pow_dvd_pow 2 (by omega)
    refine eq_signed (inWord_toInt 0) ?_
    rw [Int.emod_eq_zero_of_dvd (Dvd.dvd.mul_left hdvd _)]
    rfl

/-- A right shift of words. -/
theorem toInt_shiftRight (a b : Int32) :
    (Machine.shiftRight a b).toInt = shiftRight a.toInt b.toInt := by
  rw [shiftRight, unsigned_toInt, unsigned_toInt, Int.toNat_natCast, Machine.shiftRight]
  split
  · rename_i hsmall
    rw [toInt_toInt32, UInt32.toNat_shiftRight, Nat.mod_eq_of_lt hsmall, Nat.shiftRight_eq_div_pow]
    norm_cast
  · rename_i hlarge
    have hsize : a.toUInt32.toNat < 2 ^ 32 := a.toUInt32.toNat_lt
    have hpower : 2 ^ 32 ≤ 2 ^ b.toUInt32.toNat := Nat.pow_le_pow_right (by decide) (by omega)
    have hzero : (a.toUInt32.toNat : Int) / 2 ^ b.toUInt32.toNat = 0 := by
      exact_mod_cast Nat.div_eq_of_lt (hsize.trans_le hpower)
    rw [hzero]
    rfl

end IntegerMachine

end LanguageKit
