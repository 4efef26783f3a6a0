import LanguageKit.Event

/-!
# The value stack

Words are kept in an array of slots of which the lowest ones are live. The
array doubles once more than half of it is live and halves once less than a
quarter is, down to sixteen slots. A popped word stays in its slot until the
slot is overwritten or cut off; new slots hold zero. The stack counts what
happened to it and remembers every change of capacity.
-/

namespace LanguageKit

open Text

/-- Counters over the lifetime of a stack. -/
structure Stack.Counts where
  /-- Words pushed. -/
  pushes : Nat := 0
  /-- Words popped. -/
  pops : Nat := 0
  /-- Times the capacity doubled. -/
  grows : Nat := 0
  /-- Times the capacity halved. -/
  shrinks : Nat := 0
  deriving DecidableEq, Inhabited

/-- One change of capacity. -/
structure Stack.Resize where
  /-- The capacity before. -/
  before : Nat
  /-- The capacity after. -/
  after : Nat
  /-- The number of live words at that moment. -/
  live : Nat
  deriving DecidableEq

/-- A stack of signed 32-bit words. -/
structure Stack where
  /-- All slots, live or not. -/
  slots : Array Int32
  /-- The number of live slots, which are the lowest ones. -/
  live : Nat
  /-- What happened so far. -/
  counts : Stack.Counts
  /-- Every change of capacity, oldest first. -/
  resizes : Array Stack.Resize

namespace Stack

/-- The capacity of a new stack, below which no stack shrinks. -/
def minCapacity : Nat := 16

/-- The new stack: no live word, all slots zero. -/
def empty : Stack := ⟨Array.replicate minCapacity 0, 0, {}, #[]⟩

/-- The number of slots. -/
def capacity (stack : Stack) : Nat := stack.slots.size

/-- The live words, bottom first. -/
def toList (stack : Stack) : List Int32 := stack.slots.toList.take stack.live

/-- The topmost live word. -/
def top? (stack : Stack) : Option Int32 :=
  if stack.live = 0 then none else stack.slots[stack.live - 1]?

/-- The index of the topmost live word, minus one when there is none. -/
def pointer (stack : Stack) : Int := (stack.live : Int) - 1

/-- Whether no word is live. -/
def isEmpty (stack : Stack) : Bool := stack.live = 0

/-- Cuts slots off or adds zeros until the capacity is as demanded, and
remembers the change. -/
def resize (stack : Stack) (capacity : Nat) : Stack :=
  { stack with
    slots := stack.slots.take capacity ++ Array.replicate (capacity - stack.slots.size) 0
    resizes := stack.resizes.push ⟨stack.capacity, capacity, stack.live⟩ }

/-- Doubles the capacity. -/
def grow (stack : Stack) : Stack :=
  let resized := stack.resize (stack.capacity * 2)
  { resized with counts.grows := resized.counts.grows + 1 }

/-- Halves the capacity. -/
def shrink (stack : Stack) : Stack :=
  let resized := stack.resize (stack.capacity / 2)
  { resized with counts.shrinks := resized.counts.shrinks + 1 }

/-- Whether more than half of the slots are live. -/
def crowded (stack : Stack) : Bool := stack.capacity / 2 < stack.live

/-- Whether less than a quarter of the slots are live and half of them are
still enough for a new stack. -/
def sparse (stack : Stack) : Bool :=
  stack.live < stack.capacity / 4 && minCapacity ≤ stack.capacity / 2

/-- Resizing gives exactly the capacity that was demanded. -/
theorem capacity_resize (stack : Stack) (capacity : Nat) :
    (stack.resize capacity).capacity = capacity := by
  simp only [resize, Stack.capacity, Array.size_append, Array.size_replicate, Array.take,
    Array.size_extract]
  omega

/-- Growing doubles the capacity. -/
theorem capacity_grow (stack : Stack) : stack.grow.capacity = stack.capacity * 2 :=
  stack.capacity_resize (stack.capacity * 2)

/-- Shrinking halves the capacity. -/
theorem capacity_shrink (stack : Stack) : stack.shrink.capacity = stack.capacity / 2 :=
  stack.capacity_resize (stack.capacity / 2)

/-- Growing keeps the number of live words. -/
theorem live_grow (stack : Stack) : stack.grow.live = stack.live := rfl

/-- Shrinking keeps the number of live words. -/
theorem live_shrink (stack : Stack) : stack.shrink.live = stack.live := rfl

/-- Grows for as long as the stack is crowded. A stack without slots, which no
operation produces, is left alone. -/
def relieve (stack : Stack) : Stack :=
  if _h : stack.crowded = true ∧ 0 < stack.capacity then relieve stack.grow else stack
termination_by 2 * stack.live - stack.capacity
decreasing_by
  rw [capacity_grow, live_grow]
  simp only [crowded, decide_eq_true_eq] at _h
  omega

/-- Shrinks for as long as the stack is sparse. -/
def condense (stack : Stack) : Stack :=
  if _h : stack.sparse = true then condense stack.shrink else stack
termination_by stack.capacity
decreasing_by
  rw [capacity_shrink]
  simp only [sparse, minCapacity, Bool.and_eq_true, decide_eq_true_eq] at _h
  omega

/-- Brings the capacity back into proportion with the live words. -/
def rebalance (stack : Stack) : Stack := stack.relieve.condense

/-- Puts a word on top. A stack that is full to its capacity grows first. -/
def push (stack : Stack) (word : Int32) : Stack :=
  let ready := if stack.live = stack.capacity then stack.grow else stack
  rebalance
    { ready with
      slots := ready.slots.setIfInBounds ready.live word
      live := ready.live + 1
      counts.pushes := ready.counts.pushes + 1 }

/-- Takes the topmost word off, if there is one; an empty stack is left alone. -/
def pop (stack : Stack) : Option Int32 × Stack :=
  match stack.top? with
  | none => (none, stack)
  | some word =>
    (some word,
      rebalance
        { stack with live := stack.live - 1, counts.pops := stack.counts.pops + 1 })

/-- The changes of capacity as events. -/
def events (stack : Stack) : List Event :=
  stack.resizes.toList.map fun resize => .resized resize.before resize.after resize.live

/-- The full form of the counters names all four. -/
instance : FullForm Counts :=
  ⟨fun counts => recordForm "StackStats"
    [("pushes", fullForm counts.pushes), ("pops", fullForm counts.pops),
      ("grows", fullForm counts.grows), ("shrinks", fullForm counts.shrinks)]⟩

/-- The full form shows every slot, live or not. -/
instance : FullForm Stack :=
  ⟨fun stack => recordForm "Stack"
    [("slots", fullForm stack.slots), ("sp", fullForm stack.pointer),
      ("stats", fullForm stack.counts)]⟩

end Stack

end LanguageKit
