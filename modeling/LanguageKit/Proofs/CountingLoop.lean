import LanguageKit.Proofs.InstructionTable
import LanguageKit.Proofs.SteadyRuns

/-!
# A loop that counts up to a word

A program pushes a word, adds another one to it again and again, and halts when the sum is a
third one. The sums wrap around, so that they reach the third word exactly if it is congruent
to the first one after some number of rounds. The program halts after the least number of
rounds, three steps each, with this word alone on the stack; and if there is no such number
it goes on forever, with at most two live words.
-/

namespace LanguageKit

/-- The words of a program that adds a step to a first word until the last one is reached. -/
def countingLoop (first increment last : Int32) : Array Int32 :=
  #[Opcode.push.word, first, Opcode.push.word, increment, Opcode.add.word, Opcode.jne.word, last, 2,
    Opcode.halt.word]

/-- The integers meet after a number of rounds, at least one, if they are congruent then. -/
def MeetsAfter (first increment last : Int32) (rounds : Nat) : Prop :=
  1 ≤ rounds ∧ first.toInt + rounds * increment.toInt ≡ last.toInt [ZMOD 2 ^ 32]

/-- A number of steps closes the round after which the integers meet. -/
def Closes (first increment last : Int32) (count : Nat) : Prop :=
  ∃ rounds, count = 3 * rounds ∧ MeetsAfter first increment last rounds

/-- The word that has been reached after a number of rounds. -/
def reached (first increment : Int32) : Nat → Int32
  | 0 => first
  | rounds + 1 => reached first increment rounds + increment

variable {first increment last : Int32}

/-- Each round adds the step to the integer of the word that has been reached. -/
theorem toInt_reached (first increment : Int32) (rounds : Nat) :
    (reached first increment rounds).toInt ≡
      first.toInt + rounds * increment.toInt [ZMOD 2 ^ 32] := by
  induction rounds with
  | zero =>
    rw [reached, Nat.cast_zero, zero_mul, add_zero]
  | succ rounds ih =>
    have hsum : (reached first increment rounds + increment).toInt ≡
        (reached first increment rounds).toInt + increment.toInt [ZMOD 2 ^ 32] := by
      rw [IntegerMachine.toInt_add]
      exact (IntegerMachine.signed_spec _).2
    calc (reached first increment (rounds + 1)).toInt
        ≡ (reached first increment rounds).toInt + increment.toInt [ZMOD 2 ^ 32] := hsum
      _ ≡ first.toInt + rounds * increment.toInt + increment.toInt [ZMOD 2 ^ 32] := ih.add_right _
      _ = first.toInt + (rounds + 1 : Nat) * increment.toInt := by push_cast; ring

/-- The last word is reached when the integers meet. -/
theorem meetsAfter_iff {rounds : Nat} :
    MeetsAfter first increment last rounds ↔
      1 ≤ rounds ∧ reached first increment rounds = last := by
  have hreached := toInt_reached first increment rounds
  have hequal : reached first increment rounds = last ↔
      (reached first increment rounds).toInt ≡ last.toInt [ZMOD 2 ^ 32] := by
    rw [IntegerMachine.toInt_modEq_iff, Int32.ofInt_toInt]
  rw [MeetsAfter, hequal]
  exact and_congr_right fun _ => ⟨hreached.trans, hreached.symm.trans⟩

namespace Machine

variable {ω : Type} [Output ω] {machine : Machine ω} {count : Nat}

/-- Where a machine is after a number of steps of the loop: at its beginning, or in some round,
in front of the push, the sum or the jump. -/
inductive Looping (first increment last : Int32) (machine : Machine ω) : Nat → Prop where
  /-- At the beginning. -/
  | entering (poised : Poised (countingLoop first increment last) 0 0 [] machine) :
      Looping first increment last machine 0
  /-- In front of the push. -/
  | pushing {rounds : Nat}
      (poised : Poised (countingLoop first increment last) 2 (3 * rounds + 1)
        [reached first increment rounds] machine) :
      Looping first increment last machine (3 * rounds + 1)
  /-- In front of the sum. -/
  | adding {rounds : Nat}
      (poised : Poised (countingLoop first increment last) 4 (3 * rounds + 2)
        [reached first increment rounds, increment] machine) :
      Looping first increment last machine (3 * rounds + 2)
  /-- In front of the jump. -/
  | testing {rounds : Nat}
      (poised : Poised (countingLoop first increment last) 5 (3 * rounds + 3)
        [reached first increment (rounds + 1)] machine) :
      Looping first increment last machine (3 * rounds + 3)

/-- In the loop, the machine has not halted. -/
theorem Looping.running (h : Looping first increment last machine count) :
    machine.halted = false := by
  cases h with
  | entering poised => exact poised.running
  | pushing poised => exact poised.running
  | adding poised => exact poised.running
  | testing poised => exact poised.running

/-- In the loop, at most two words are live. -/
theorem Looping.length_le (h : Looping first increment last machine count) :
    machine.stack.toList.length ≤ 2 := by
  cases h with
  | entering poised => simp [poised.stack]
  | pushing poised => simp [poised.stack]
  | adding poised => simp [poised.stack]
  | testing poised => simp [poised.stack]

/-- A step leaves the machine running: behind the loop if the last word has been reached, and in
the loop otherwise. -/
theorem Looping.step (h : Looping first increment last machine count) :
    machine.step.1 = .ok .running ∧
      (Closes first increment last count →
        Poised (countingLoop first increment last) 8 (count + 1) [last] machine.step.2) ∧
      (¬ Closes first increment last count →
        Looping first increment last machine.step.2 (count + 1)) := by
  cases h with
  | entering poised =>
    have hcode : InstructionAt (countingLoop first increment last) 0 .push [first] := ⟨_, rfl⟩
    obtain ⟨hrunning, hnext⟩ := poised.push hcode
    have hround : Looping first increment last machine.step.2 (3 * 0 + 1) := .pushing hnext
    refine ⟨hrunning, ?_, fun _ => hround⟩
    rintro ⟨rounds, hcount, hpositive, -⟩
    omega
  | pushing poised =>
    have hcode : InstructionAt (countingLoop first increment last) 2 .push [increment] :=
      ⟨_, rfl⟩
    obtain ⟨hrunning, hnext⟩ := poised.push hcode
    refine ⟨hrunning, ?_, fun _ => .adding hnext⟩
    rintro ⟨rounds, hcount, -⟩
    omega
  | @adding rounds poised =>
    have hcode : InstructionAt (countingLoop first increment last) 4 .add [] := ⟨_, rfl⟩
    have hpair : Poised (countingLoop first increment last) 4 (3 * rounds + 2)
        ([] ++ [reached first increment rounds, increment]) machine := poised
    obtain ⟨hrunning, hnext⟩ := hpair.add hcode
    refine ⟨hrunning, ?_, fun _ => .testing hnext⟩
    rintro ⟨others, hcount, -⟩
    omega
  | @testing rounds poised =>
    have hcode : InstructionAt (countingLoop first increment last) 5 .jne [last, 2] := ⟨_, rfl⟩
    have htop : Poised (countingLoop first increment last) 5 (3 * rounds + 3)
        ([] ++ [reached first increment (rounds + 1)]) machine := poised
    obtain ⟨hrunning, hnext⟩ := htop.jne hcode (by decide)
    refine ⟨hrunning, ?_, fun hopen => ?_⟩
    · rintro ⟨others, hcount, hmeets⟩
      obtain rfl : others = rounds + 1 := by omega
      obtain ⟨-, hequal⟩ := meetsAfter_iff.mp hmeets
      rw [hequal, if_pos rfl] at hnext
      exact hnext
    · have hother : reached first increment (rounds + 1) ≠ last := by
        intro hequal
        exact hopen ⟨rounds + 1, rfl, meetsAfter_iff.mpr ⟨by omega, hequal⟩⟩
      have hround : Looping first increment last machine.step.2 (3 * (rounds + 1) + 1) := by
        rw [if_neg hother] at hnext
        exact .pushing hnext
      exact hround

/-- As long as the last word has not been reached, calls of a step leave the machine running in
the loop. -/
theorem Looping.afterCalls (h : Looping first increment last machine 0)
    (hopen : ∀ earlier < count, ¬ Closes first increment last earlier) :
    machine.Lasts count ∧ Looping first increment last (machine.afterCalls count) count := by
  induction count with
  | zero => exact ⟨fun _ hnone => absurd hnone (Nat.not_lt_zero _), h⟩
  | succ count ih =>
    obtain ⟨hlasts, hlooping⟩ := ih fun earlier hearlier => hopen earlier (by omega)
    obtain ⟨hrunning, -, hnext⟩ := hlooping.step
    exact ⟨hlasts.succ hrunning, hnext (hopen count (Nat.lt_succ_self count))⟩

/-- When the last word has been reached for the first time, the machine leaves the loop and stands
at the instruction that halts. -/
theorem Looping.leave (h : Looping first increment last machine 0) {rounds : Nat}
    (hmeets : MeetsAfter first increment last rounds)
    (hleast : ∀ fewer < rounds, ¬ MeetsAfter first increment last fewer) :
    machine.Lasts (3 * rounds + 1) ∧
      Poised (countingLoop first increment last) 8 (3 * rounds + 1) [last]
        (machine.afterCalls (3 * rounds + 1)) := by
  have hopen : ∀ earlier < 3 * rounds, ¬ Closes first increment last earlier := by
    rintro earlier hearlier ⟨fewer, rfl, hfewer⟩
    exact hleast fewer (by omega) hfewer
  obtain ⟨hlasts, hlooping⟩ := h.afterCalls hopen
  obtain ⟨hrunning, hbehind, -⟩ := hlooping.step
  exact ⟨hlasts.succ hrunning, hbehind ⟨rounds, rfl, hmeets⟩⟩

/-- Where the integers never meet, calls of a step leave the machine running in the loop, however
many they are. -/
theorem Looping.stay (h : Looping first increment last machine 0)
    (hnever : ∀ rounds, ¬ MeetsAfter first increment last rounds) (count : Nat) :
    machine.Lasts count ∧ Looping first increment last (machine.afterCalls count) count := by
  refine h.afterCalls ?_
  rintro earlier - ⟨rounds, -, hmeets⟩
  exact hnever rounds hmeets

/-- The program counts up to a word. It halts exactly if the integers meet after some number of
rounds. For the least such number, a run that has three steps for each round and two more ends
without a fault, behind the last instruction, with the last word alone on the stack and with just
these steps counted; with fewer steps, a run does not end. If the integers never meet, no number
of calls of a step halts or faults, and there are never more than two live words. -/
theorem counting_ends_when_met (first increment last : Int32) {tracing : Bool} {sink : ω}
    (h : tracing = false ∨ Output.Accepting sink) :
    let machine := start (countingLoop first increment last) tracing sink
    ((∃ count, (machine.afterCalls count).halted = true) ↔
      ∃ rounds, MeetsAfter first increment last rounds) ∧
    (∀ rounds, MeetsAfter first increment last rounds →
      (∀ fewer < rounds, ¬ MeetsAfter first increment last fewer) →
      (∀ budget < 3 * rounds + 2, (machine.run budget).1 = none) ∧
      ∀ budget, 3 * rounds + 2 ≤ budget →
        (machine.run budget).1 = some (.ok ()) ∧ (machine.run budget).2.halted = true ∧
        (machine.run budget).2.stack.toList = [last] ∧ (machine.run budget).2.pc = 9 ∧
        (machine.run budget).2.steps = 3 * rounds + 2) ∧
    ((¬ ∃ rounds, MeetsAfter first increment last rounds) →
      ∀ count, (machine.afterCalls count).halted = false ∧
        (machine.afterCalls count).step.1 = .ok .running ∧
        (machine.afterCalls count).stack.toList.length ≤ 2) := by
  intro machine
  have hentering : Looping first increment last machine 0 := .entering (Poised.start _ h)
  have hstay : (¬ ∃ rounds, MeetsAfter first increment last rounds) → ∀ count,
      Looping first increment last (machine.afterCalls count) count :=
    fun hnever count => (hentering.stay (not_exists.mp hnever) count).2
  refine ⟨⟨?_, ?_⟩, ?_, ?_⟩
  · rintro ⟨count, hhalted⟩
    by_contra hnever
    have hrunning := (hstay hnever count).running
    rw [hhalted] at hrunning
    contradiction
  · intro hsome
    classical
    obtain ⟨-, hbehind⟩ := hentering.leave (Nat.find_spec hsome) fun fewer hfewer =>
      Nat.find_min hsome hfewer
    obtain ⟨-, hhalted, -⟩ := hbehind.halt ⟨_, rfl⟩
    exact ⟨3 * Nat.find hsome + 1 + 1, hhalted⟩
  · intro rounds hmeets hleast
    obtain ⟨hlasts, hbehind⟩ := hentering.leave hmeets hleast
    obtain ⟨hstep, hhalted, hpc, hsteps, hstack⟩ := hbehind.halt ⟨_, rfl⟩
    refine ⟨fun budget hbudget => ?_, fun budget hbudget => ?_⟩
    · have hshort : machine.Lasts budget := fun earlier hearlier => hlasts earlier (by omega)
      rw [hshort.run_eq]
    · rw [hlasts.run_of_halts hstep (by omega)]
      exact ⟨rfl, hhalted, hstack, hpc, hsteps⟩
  · intro hnever count
    have hlooping := hstay hnever count
    exact ⟨hlooping.running, hlooping.step.1, hlooping.length_le⟩

/-- Counting by three from two reaches seventeen in five rounds, and so in seventeen steps, even if
the output refuses every text; counting by two from zero never reaches one. -/
theorem counting_ends_when_met_threes :
    (false = false ∨ Output.Accepting ({ room := some 0 } : Sink)) ∧
      (((start (countingLoop 2 3 17) false ({ room := some 0 } : Sink)).run 17).1 =
        some (.ok ()) ∧
      ((start (countingLoop 2 3 17) false ({ room := some 0 } : Sink)).run 17).2.stack.toList =
        [17] ∧
      ((start (countingLoop 2 3 17) false ({ room := some 0 } : Sink)).run 16).1 = none) ∧
      ∀ count, ((start (countingLoop 0 2 1) false ({ room := some 0 } : Sink)).afterCalls
        count).step.1 = .ok .running := by
  have hquiet : false = false ∨ Output.Accepting ({ room := some 0 } : Sink) := .inl rfl
  have hfive : MeetsAfter 2 3 17 5 := ⟨by decide, by decide⟩
  have hleast : ∀ fewer < 5, ¬ MeetsAfter 2 3 17 fewer := by
    rintro fewer hfewer ⟨-, hmeets⟩
    have hinteger : (2 + fewer * 3 : Int) % 2 ^ 32 = 17 % 2 ^ 32 := hmeets
    omega
  have hnever : ¬ ∃ rounds, MeetsAfter 0 2 1 rounds := by
    rintro ⟨rounds, -, hmeets⟩
    have hinteger : (0 + rounds * 2 : Int) % 2 ^ 32 = 1 % 2 ^ 32 := hmeets
    omega
  obtain ⟨-, hends, -⟩ := counting_ends_when_met 2 3 17 hquiet
  obtain ⟨hshort, hlong⟩ := hends 5 hfive hleast
  obtain ⟨hok, -, hstack, -⟩ := hlong 17 (by decide)
  obtain ⟨-, -, hforever⟩ := counting_ends_when_met 0 2 1 hquiet
  exact ⟨hquiet, ⟨hok, hstack, hshort 16 (by decide)⟩, fun count => (hforever hnever count).2.1⟩

end Machine

end LanguageKit
