import Mathlib.Algebra.Group.Nat.Defs
import LanguageKit.Proofs.LiveStack

/-!
# The proportion of live slots

A stack that began as a new one has sixteen slots, doubled a number of times. At most
half of them are live, and at least a quarter, unless there are just sixteen. A push or a
pop moves the live words by one, which one change of capacity at most brings back into
this proportion. So every slot that is used exists, the loops that look after the capacity
come to their end, and what the stack shows is a plain list.
-/

namespace LanguageKit.Stack

variable {stack : Stack}

/-- What can be asked of a stack. -/
inductive Operation where
  /-- Put a word on top. -/
  | push (word : Int32)
  /-- Take the topmost word off. -/
  | pop
  deriving DecidableEq

/-- The answer of a stack to an operation, and the stack behind it. A push has no
answer. -/
def serve (stack : Stack) : Operation → Option Int32 × Stack
  | .push word => (none, stack.push word)
  | .pop => stack.pop

/-- The stack behind operations, one after the other. -/
def serveAll (stack : Stack) (operations : List Operation) : Stack :=
  operations.foldl (fun stack operation => (stack.serve operation).2) stack

/-- The answer of a plain list to an operation, and the list behind it: words are put to
its end and taken from there. -/
def Operation.onList (words : List Int32) : Operation → Option Int32 × List Int32
  | .push word => (none, words ++ [word])
  | .pop => (words.getLast?, words.dropLast)

/-- The list behind operations, one after the other. -/
def listBehind (words : List Int32) (operations : List Operation) : List Int32 :=
  operations.foldl (fun words operation => (operation.onList words).2) words

/-- A stack with one word more that has not looked after its capacity yet. -/
def fill (stack : Stack) (word : Int32) : Stack :=
  { stack with
    slots := stack.slots.setIfInBounds stack.live word
    live := stack.live + 1
    counts.pushes := stack.counts.pushes + 1 }

/-- A stack with one word less that has not looked after its capacity yet. -/
def drain (stack : Stack) : Stack :=
  { stack with live := stack.live - 1, counts.pops := stack.counts.pops + 1 }

/-- Filling a slot keeps the number of slots. -/
theorem capacity_fill (stack : Stack) (word : Int32) :
    (stack.fill word).capacity = stack.capacity :=
  Array.size_setIfInBounds

/-- A stack whose capacity is in proportion with its live words. -/
structure Proportionate (stack : Stack) : Prop where
  /-- The capacity is that of a new stack, doubled a number of times. -/
  capacity_eq : ∃ doublings, stack.capacity = minCapacity * 2 ^ doublings
  /-- At most half of the slots are live. -/
  live_le : 2 * stack.live ≤ stack.capacity
  /-- At least a quarter of the slots are live, unless there are as few as can be. -/
  capacity_le : stack.capacity ≤ max minCapacity (4 * stack.live)

/-- A new stack is in proportion. -/
theorem proportionate_empty : Proportionate empty :=
  ⟨⟨0, rfl⟩, Nat.zero_le _, Nat.le_max_left _ _⟩

/-- The capacity of a stack in proportion is a multiple of sixteen. -/
theorem Proportionate.exists_factor (h : stack.Proportionate) :
    ∃ factor, 0 < factor ∧ stack.capacity = 16 * factor := by
  obtain ⟨doublings, hcapacity⟩ := h.capacity_eq
  exact ⟨2 ^ doublings, Nat.two_pow_pos doublings, hcapacity⟩

/-- A stack in proportion has a slot for each live word. -/
theorem Proportionate.sound (h : stack.Proportionate) : stack.Sound := by
  have hlive := h.live_le
  obtain ⟨factor, hpos, hcapacity⟩ := h.exists_factor
  exact ⟨by omega, by omega⟩

/-- More than half of the slots are live. -/
theorem crowded_iff : stack.crowded = true ↔ stack.capacity / 2 < stack.live :=
  decide_eq_true_iff

/-- Less than a quarter of the slots are live, and half of them are enough for a new
stack. -/
theorem sparse_iff :
    stack.sparse = true ↔ stack.live < stack.capacity / 4 ∧ 16 ≤ stack.capacity / 2 := by
  rw [sparse, Bool.and_eq_true, decide_eq_true_iff, decide_eq_true_iff, minCapacity]

/-- A stack that is not crowded does not grow. -/
theorem relieve_of_not_crowded (h : ¬ stack.crowded = true) : stack.relieve = stack := by
  rw [relieve, dif_neg fun hcrowded => h hcrowded.1]

/-- A crowded stack that is not crowded any more with twice the slots grows once. -/
theorem relieve_of_crowded (h : stack.crowded = true) (hpos : 0 < stack.capacity)
    (hgrown : ¬ stack.grow.crowded = true) : stack.relieve = stack.grow := by
  rw [relieve, dif_pos ⟨h, hpos⟩, relieve_of_not_crowded hgrown]

/-- A stack that is not sparse does not shrink. -/
theorem condense_of_not_sparse (h : ¬ stack.sparse = true) : stack.condense = stack := by
  rw [condense, dif_neg h]

/-- A sparse stack that is not sparse any more with half of the slots shrinks once. -/
theorem condense_of_sparse (h : stack.sparse = true) (hshrunk : ¬ stack.shrink.sparse = true) :
    stack.condense = stack.shrink := by
  rw [condense, dif_pos h, condense_of_not_sparse hshrunk]

/-- A push finds a free slot. If half of the slots have been live, the capacity doubles
behind it, and otherwise it stays. -/
theorem Proportionate.push_eq (h : stack.Proportionate) (word : Int32) :
    stack.push word =
      if 2 * stack.live = stack.capacity then (stack.fill word).grow else stack.fill word := by
  have hlive := h.live_le
  have hquarter := h.capacity_le
  simp only [minCapacity] at hquarter
  obtain ⟨factor, hpos, hcapacity⟩ := h.exists_factor
  have hfilled : (stack.fill word).live = stack.live + 1 := rfl
  have hslots := stack.capacity_fill word
  have hready : stack.push word = (stack.fill word).rebalance := by
    rw [push, if_neg (by omega)]
    rfl
  rw [hready, rebalance]
  by_cases hhalf : 2 * stack.live = stack.capacity
  · have hcrowded : (stack.fill word).crowded = true := by
      rw [crowded_iff, hfilled, hslots]
      omega
    have hgrown : ¬ (stack.fill word).grow.crowded = true := by
      rw [crowded_iff, live_grow, capacity_grow, hfilled, hslots]
      omega
    have hdense : ¬ (stack.fill word).grow.sparse = true := by
      rw [sparse_iff, live_grow, capacity_grow, hfilled, hslots]
      omega
    rw [if_pos hhalf, relieve_of_crowded hcrowded (by omega) hgrown, condense_of_not_sparse hdense]
  · have hroomy : ¬ (stack.fill word).crowded = true := by
      rw [crowded_iff, hfilled, hslots]
      omega
    have hdense : ¬ (stack.fill word).sparse = true := by
      rw [sparse_iff, hfilled, hslots]
      omega
    rw [if_neg hhalf, relieve_of_not_crowded hroomy, condense_of_not_sparse hdense]

/-- If a word is live, a pop answers with the topmost one. If a quarter of the slots have
been live and there are more than in a new stack, the capacity halves behind it, and
otherwise it stays. -/
theorem Proportionate.pop_eq (h : stack.Proportionate) {word : Int32}
    (htop : stack.top? = some word) :
    stack.pop = (some word,
      if 4 * stack.live = stack.capacity ∧ 16 < stack.capacity then stack.drain.shrink
      else stack.drain) := by
  have hlive := h.live_le
  have hquarter := h.capacity_le
  simp only [minCapacity] at hquarter
  obtain ⟨factor, hpos, hcapacity⟩ := h.exists_factor
  have hsome : stack.live ≠ 0 := by
    intro hzero
    rw [top?, if_pos hzero] at htop
    cases htop
  have hdrained : stack.drain.live = stack.live - 1 := rfl
  have hslots : stack.drain.capacity = stack.capacity := rfl
  have hready : stack.pop = (some word, stack.drain.rebalance) := by
    rw [pop, htop]
    rfl
  have hroomy : ¬ stack.drain.crowded = true := by
    rw [crowded_iff, hdrained, hslots]
    omega
  rw [hready, rebalance, relieve_of_not_crowded hroomy]
  by_cases hfew : 4 * stack.live = stack.capacity ∧ 16 < stack.capacity
  · have hsparse : stack.drain.sparse = true := by
      rw [sparse_iff, hdrained, hslots]
      omega
    have hshrunk : ¬ stack.drain.shrink.sparse = true := by
      rw [sparse_iff, live_shrink, capacity_shrink, hdrained, hslots]
      omega
    rw [if_pos hfew, condense_of_sparse hsparse hshrunk]
  · have hdense : ¬ stack.drain.sparse = true := by
      rw [sparse_iff, hdrained, hslots]
      omega
    rw [if_neg hfew, condense_of_not_sparse hdense]

/-- Nothing is popped from a stack without live words, which stays as it is. -/
theorem pop_of_live_eq_zero (h : stack.live = 0) : stack.pop = (none, stack) := by
  rw [pop, top?, if_pos h]

/-- A stack in proportion with a live word has one on top. -/
theorem Proportionate.exists_top (h : stack.Proportionate) (hlive : stack.live ≠ 0) :
    ∃ word, stack.top? = some word := by
  have hfit := h.sound.live_le
  have hslot : stack.live - 1 < stack.slots.size := by
    change stack.live ≤ stack.slots.size at hfit
    omega
  exact ⟨stack.slots[stack.live - 1], by rw [top?, if_neg hlive, Array.getElem?_eq_getElem hslot]⟩

/-- A push keeps a stack in proportion. -/
theorem Proportionate.push (h : stack.Proportionate) (word : Int32) :
    (stack.push word).Proportionate := by
  have hlive := h.live_le
  have hquarter := h.capacity_le
  simp only [minCapacity] at hquarter
  obtain ⟨doublings, hdoublings⟩ := h.capacity_eq
  obtain ⟨factor, hpos, hcapacity⟩ := h.exists_factor
  have hfilled : (stack.fill word).live = stack.live + 1 := rfl
  have hslots := stack.capacity_fill word
  rw [h.push_eq word]
  split
  · refine ⟨⟨doublings + 1, ?_⟩, ?_, ?_⟩
    · rw [capacity_grow, hslots, hdoublings, Nat.mul_assoc, Nat.pow_succ]
    · rw [capacity_grow, live_grow, hslots, hfilled]
      omega
    · rw [capacity_grow, live_grow, hslots, hfilled, minCapacity]
      omega
  · refine ⟨⟨doublings, hslots.trans hdoublings⟩, ?_, ?_⟩
    · rw [hslots, hfilled]
      omega
    · rw [hslots, hfilled, minCapacity]
      omega

/-- A pop keeps a stack in proportion. -/
theorem Proportionate.pop (h : stack.Proportionate) : stack.pop.2.Proportionate := by
  by_cases hnone : stack.live = 0
  · rw [pop_of_live_eq_zero hnone]
    exact h
  have hlive := h.live_le
  have hquarter := h.capacity_le
  simp only [minCapacity] at hquarter
  obtain ⟨doublings, hdoublings⟩ := h.capacity_eq
  obtain ⟨factor, hpos, hcapacity⟩ := h.exists_factor
  obtain ⟨word, htop⟩ := h.exists_top hnone
  have hdrained : stack.drain.live = stack.live - 1 := rfl
  have hslots : stack.drain.capacity = stack.capacity := rfl
  rw [h.pop_eq htop]
  dsimp only
  split
  -- A capacity that halves is not that of a new stack, so there is a doubling to take back.
  · obtain _ | doublings := doublings
    · simp only [minCapacity, Nat.pow_zero] at hdoublings
      omega
    have hhalf : stack.capacity / 2 = minCapacity * 2 ^ doublings := by
      rw [hdoublings, Nat.pow_succ, ← Nat.mul_assoc, Nat.mul_div_cancel _ Nat.two_pos]
    refine ⟨⟨doublings, ?_⟩, ?_, ?_⟩
    · rw [capacity_shrink, hslots, hhalf]
    · rw [capacity_shrink, live_shrink, hslots, hdrained]
      omega
    · rw [capacity_shrink, live_shrink, hslots, hdrained, minCapacity]
      omega
  · refine ⟨⟨doublings, hslots.trans hdoublings⟩, ?_, ?_⟩
    · rw [hslots, hdrained]
      omega
    · rw [hslots, hdrained, minCapacity]
      omega

/-- An operation keeps a stack in proportion. -/
theorem Proportionate.serve (h : stack.Proportionate) (operation : Operation) :
    (stack.serve operation).2.Proportionate := by
  cases operation with
  | push word => exact h.push word
  | pop => exact h.pop

/-- Operations keep a stack in proportion. -/
theorem Proportionate.serveAll (h : stack.Proportionate) (operations : List Operation) :
    (stack.serveAll operations).Proportionate := by
  induction operations generalizing stack with
  | nil => exact h
  | cons operation operations ih => exact ih (h.serve operation)

/-- A stack that shows a list answers an operation as the list does, and shows the list
behind it. -/
theorem Sound.serve (h : stack.Sound) {words : List Int32} (hwords : stack.toList = words)
    (operation : Operation) :
    (stack.serve operation).1 = (operation.onList words).1 ∧
      (stack.serve operation).2.toList = (operation.onList words).2 := by
  cases operation with
  | push word =>
    have hpushed := (h.push word).2
    exact ⟨rfl, by rw [Stack.serve, Operation.onList, hpushed, hwords]⟩
  | pop =>
    rw [Stack.serve, Operation.onList]
    rcases List.eq_nil_or_concat words with rfl | ⟨rest, word, rfl⟩
    · rw [h.pop_of_nil hwords]
      exact ⟨rfl, hwords⟩
    · rw [List.concat_eq_append] at hwords ⊢
      obtain ⟨popped, hpop, -, hlist⟩ := h.pop_of_snoc hwords
      rw [hpop, List.getLast?_concat, List.dropLast_concat]
      exact ⟨rfl, hlist⟩

/-- A stack in proportion that shows a list shows the list behind the operations. -/
theorem Proportionate.toList_serveAll (h : stack.Proportionate) {words : List Int32}
    (hwords : stack.toList = words) (operations : List Operation) :
    (stack.serveAll operations).toList = listBehind words operations := by
  induction operations generalizing stack words with
  | nil => exact hwords
  | cons operation operations ih =>
    exact ih (h.serve operation) (h.sound.serve hwords operation).2

/-- A loop that goes round for as long as a condition holds, and comes to its end. -/
inductive Loop (again : Stack → Bool) (round : Stack → Stack) : Stack → Stack → Prop
  /-- The condition does not hold any more. -/
  | done {stack : Stack} (h : again stack = false) : Loop again round stack stack
  /-- The condition holds, and the loop goes round. -/
  | next {stack last : Stack} (h : again stack = true)
    (rest : Loop again round (round stack) last) : Loop again round stack last

/-- An operation as it is carried out slot by slot. Every slot that is filled or read
exists, the slots of all live words exist where these are looked at, and both loops that
look after the capacity come to their end. -/
inductive Carries : Stack → Operation → Option Int32 → Stack → Prop
  /-- A push grows a full stack first, and fills the lowest slot that is not live. -/
  | push {stack ready relieved condensed : Stack} {word : Int32}
    (hready : ready = if stack.live = stack.capacity then stack.grow else stack)
    (hslot : ready.live < ready.slots.size)
    (hrelieved : Loop crowded grow
      { ready with
        slots := ready.slots.set ready.live word hslot
        live := ready.live + 1
        counts.pushes := ready.counts.pushes + 1 } relieved)
    (hcondensed : Loop sparse shrink relieved condensed) :
    Carries stack (.push word) none condensed
  /-- A pop reads the highest slot that is live. -/
  | pop {stack relieved condensed : Stack} {word : Int32}
    (hslots : stack.live ≤ stack.slots.size) (hlive : 0 < stack.live)
    (hword : stack.slots[stack.live - 1]? = some word)
    (hrelieved : Loop crowded grow
      { stack with live := stack.live - 1, counts.pops := stack.counts.pops + 1 } relieved)
    (hcondensed : Loop sparse shrink relieved condensed) :
    Carries stack .pop (some word) condensed
  /-- A pop of a stack without live words does nothing. -/
  | nothing {stack : Stack} (hlive : stack.live = 0) : Carries stack .pop none stack

/-- The loop that grows a crowded stack comes to its end, if there are slots at all. -/
theorem loop_relieve (hpos : 0 < stack.capacity) : Loop crowded grow stack stack.relieve := by
  fun_induction relieve stack with
  | case1 stack hcrowded ih =>
    have hgrown : 0 < stack.grow.capacity := by
      rw [capacity_grow]
      omega
    exact .next hcrowded.1 (ih hgrown)
  | case2 stack hcrowded =>
    exact .done (eq_false_of_ne_true fun h => hcrowded ⟨h, hpos⟩)

/-- The loop that shrinks a sparse stack comes to its end. -/
theorem loop_condense (stack : Stack) : Loop sparse shrink stack stack.condense := by
  fun_induction condense stack with
  | case1 stack hsparse ih => exact .next hsparse ih
  | case2 stack hsparse => exact .done (eq_false_of_ne_true hsparse)

/-- An operation of a stack in proportion is carried out slot by slot. -/
theorem Proportionate.carries (h : stack.Proportionate) (operation : Operation) :
    Carries stack operation (stack.serve operation).1 (stack.serve operation).2 := by
  have hlive := h.live_le
  have hpos := h.sound.capacity_pos
  have hsize : stack.capacity = stack.slots.size := rfl
  cases operation with
  | push word =>
    have hslot : stack.live < stack.slots.size := by omega
    have hroomy : stack.live ≠ stack.capacity := by omega
    have hset : stack.slots.setIfInBounds stack.live word =
        stack.slots.set stack.live word hslot := by
      rw [Array.setIfInBounds, dif_pos hslot]
    have hpush : stack.push word = (stack.fill word).rebalance := by
      rw [Stack.push, if_neg hroomy]
      rfl
    have hfilled : 0 < (stack.fill word).capacity := by
      rw [capacity_fill]
      exact hpos
    have hrelieved := loop_relieve hfilled
    rw [Stack.serve, hpush]
    refine .push (if_neg hroomy).symm hslot ?_ (loop_condense _)
    rw [← hset]
    exact hrelieved
  | pop =>
    by_cases hnone : stack.live = 0
    · rw [Stack.serve, pop_of_live_eq_zero hnone]
      exact .nothing hnone
    obtain ⟨word, htop⟩ := h.exists_top hnone
    have hword : stack.slots[stack.live - 1]? = some word := by
      rwa [top?, if_neg hnone] at htop
    have hpop : stack.pop = (some word, stack.drain.rebalance) := by
      rw [Stack.pop, htop]
      rfl
    have hrelieved : Loop crowded grow stack.drain stack.drain.relieve := loop_relieve hpos
    rw [Stack.serve, hpop]
    exact .pop (by omega) (by omega) hword hrelieved (loop_condense _)

/-- After any pushes and pops a new stack is in proportion with what it holds, and works
like a plain list: the capacity is sixteen, doubled a number of times, at least twice the
number of live words, and at most four times that number or sixteen; the pointer and the
live words are those of the list; and the next operation has the answer of the list, uses
only slots that exist, and comes to its end. -/
theorem works_like_list (operations : List Operation) :
    let stack := empty.serveAll operations
    let words := listBehind [] operations
    (∃ doublings, stack.capacity = 16 * 2 ^ doublings) ∧
      2 * stack.live ≤ stack.capacity ∧
      stack.capacity ≤ max 16 (4 * stack.live) ∧
      stack.live = words.length ∧
      stack.pointer = (words.length : Int) - 1 ∧
      stack.toList = words ∧
      stack.top? = words.getLast? ∧
      ∀ operation, (stack.serve operation).1 = (operation.onList words).1 ∧
        Carries stack operation (stack.serve operation).1 (stack.serve operation).2 := by
  intro stack words
  have hproportionate : stack.Proportionate := proportionate_empty.serveAll operations
  have hwords : stack.toList = words := proportionate_empty.toList_serveAll rfl operations
  have hlength : stack.live = words.length := by
    rw [← hwords, hproportionate.sound.length_toList]
  refine ⟨hproportionate.capacity_eq, hproportionate.live_le, hproportionate.capacity_le, hlength,
    ?_, hwords, ?_, fun operation => ⟨?_, hproportionate.carries operation⟩⟩
  · rw [pointer, hlength]
  · rw [hproportionate.sound.top?_eq, hwords]
  · exact (hproportionate.sound.serve hwords operation).1

end LanguageKit.Stack
