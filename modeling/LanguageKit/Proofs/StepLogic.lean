import LanguageKit.Machine

/-!
# What parts of a step ensure

A part of a step is described by what it ensures: from machines with one property
it leads to answers and machines with another, or to a fault that comes with a
property of its own. The rules follow the ways in which parts are put together,
so that a step is described by the descriptions of its parts.
-/

namespace LanguageKit.Machine

variable {ω α β : Type}

/-- Two parts in a row: the second goes on where the first has answered, and does
not happen when the first has faulted. -/
theorem run_bind (part : Exec ω α) (rest : α → Exec ω β) (machine : Machine ω) :
    (part >>= rest).run.run machine =
      match part.run.run machine with
      | (.ok answer, next) => (rest answer).run.run next
      | (.error fault, next) => (.error fault, next) := by
  rw [ExceptT.run_bind, StateT.run_bind]
  obtain ⟨fault | answer, next⟩ := part.run.run machine <;> rfl

/-- A part that looks at the machine goes on with the machine it sees. -/
theorem run_get_bind (rest : Machine ω → Exec ω α) (machine : Machine ω) :
    (get >>= rest).run.run machine = (rest machine).run.run machine :=
  rfl

/-- An operand is the word the machine stands at, and the machine goes on behind it. -/
theorem run_operand (machine : Machine ω) (pc : Nat) (opcode : Opcode) :
    (operand pc opcode).run.run machine =
      match machine.code[machine.pc]? with
      | none => (.error (.missingOperand pc opcode), machine)
      | some word => (.ok word, { machine with pc := machine.pc + 1 }) := by
  unfold operand
  rw [run_get_bind]
  cases machine.code[machine.pc]? <;> rfl

/-- Taking a word off the stack fails where the stack has none. -/
theorem run_pop (machine : Machine ω) (pc : Nat) (opcode : Opcode) :
    (pop pc opcode).run.run machine =
      match machine.stack.pop with
      | (none, _) => (.error (.stackUnderflow pc opcode), machine)
      | (some word, stack) => (.ok word, { machine with stack }) := by
  unfold pop
  rw [run_get_bind]
  obtain ⟨_ | word, stack⟩ := machine.stack.pop <;> rfl

/-- A jump goes to every address that is not negative. -/
theorem run_jump (machine : Machine ω) (target : Int32) :
    (jump target).run.run machine =
      if target < 0 then (.error (.outside target.toInt machine.code.size), machine)
      else (.ok (), { machine with pc := target.toInt.toNat }) := by
  unfold jump
  rw [run_get_bind]
  by_cases htarget : target < 0
  · rw [if_pos htarget, if_pos htarget]
    rfl
  · rw [if_neg htarget, if_neg htarget]
    rfl

/-- From every machine with the first property, a part of a step either answers
with the second or faults with the third. -/
def Ensures (before : Machine ω → Prop) (part : Exec ω α) (after : α → Machine ω → Prop)
    (faulting : Fault → Machine ω → Prop) : Prop :=
  ∀ machine, before machine →
    match part.run.run machine with
    | (.ok answer, next) => after answer next
    | (.error fault, next) => faulting fault next

variable {before : Machine ω → Prop} {after : α → Machine ω → Prop}
  {faulting : Fault → Machine ω → Prop}

/-- Two parts in a row hand over what lies between them. -/
theorem Ensures.bind {part : Exec ω α} {rest : α → Exec ω β} {last : β → Machine ω → Prop}
    (hpart : Ensures before part after faulting)
    (hrest : ∀ answer, Ensures (after answer) (rest answer) last faulting) :
    Ensures before (part >>= rest) last faulting := by
  intro machine hmachine
  have hfirst := hpart machine hmachine
  rw [run_bind]
  split at hfirst
  · exact hrest _ _ hfirst
  · exact hfirst

/-- An answer that is given at once leaves the machine alone. -/
theorem Ensures.pure {answer : α} (h : ∀ machine, before machine → after answer machine) :
    Ensures before (Pure.pure answer) after faulting :=
  h

/-- A fault leaves the machine alone. -/
theorem Ensures.throw {fault : Fault} (h : ∀ machine, before machine → faulting fault machine) :
    Ensures before (throw fault : Exec ω α) after faulting :=
  h

/-- A change of the machine. -/
theorem Ensures.modify {change : Machine ω → Machine ω} {after : Unit → Machine ω → Prop}
    (h : ∀ machine, before machine → after () (change machine)) :
    Ensures before (modify change : Exec ω Unit) after faulting :=
  h

/-- A part that looks at the machine goes on with the machine it sees. -/
theorem Ensures.get {rest : Machine ω → Exec ω β} {last : β → Machine ω → Prop}
    (h : ∀ machine, before machine →
      Ensures (fun seen => seen = machine) (rest machine) last faulting) :
    Ensures before (MonadState.get >>= rest) last faulting :=
  fun machine hmachine => h machine hmachine machine rfl

/-- More can be asked before. -/
theorem Ensures.strengthen {before' : Machine ω → Prop} {part : Exec ω α}
    (h : Ensures before part after faulting)
    (hbefore : ∀ machine, before' machine → before machine) :
    Ensures before' part after faulting :=
  fun machine hmachine => h machine (hbefore machine hmachine)

/-- Less can be said after. -/
theorem Ensures.weaken {part : Exec ω α} {after' : α → Machine ω → Prop}
    (h : Ensures before part after faulting)
    (hafter : ∀ answer machine, after answer machine → after' answer machine) :
    Ensures before part after' faulting := by
  intro machine hmachine
  have hrun := h machine hmachine
  split at hrun
  · exact hafter _ _ hrun
  · exact hrun

/-- What a part ensures holds of the way it comes out. -/
theorem Ensures.outcome {part : Exec ω α} (h : Ensures before part after faulting)
    {machine : Machine ω} (hmachine : before machine) :
    (∀ answer, (part.run.run machine).1 = .ok answer →
      after answer (part.run.run machine).2) ∧
      ∀ fault, (part.run.run machine).1 = .error fault →
        faulting fault (part.run.run machine).2 := by
  have hrun := h machine hmachine
  split at hrun
  · rename_i answer next heq
    rw [heq]
    exact ⟨fun _ hanswer => by cases hanswer; exact hrun, fun _ hfault => by cases hfault⟩
  · rename_i fault next heq
    rw [heq]
    exact ⟨fun _ hanswer => (by cases hanswer), fun _ hfault => by cases hfault; exact hrun⟩

end LanguageKit.Machine
