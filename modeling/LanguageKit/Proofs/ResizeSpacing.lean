import LanguageKit.Proofs.StackProportion

/-!
# Changes of capacity are far apart

A stack changes its capacity only from one of two edges: half of its slots are live and
one word more comes, or a quarter is live and one word less stays. A change leads away
from both edges by more than one word. So two operations in a row never both change the
capacity, and the operations counted so far outnumber the changes twice.
-/

namespace LanguageKit.Stack

variable {stack : Stack}

/-- A stack whose capacity the next operation may change: half of the slots are live, or a
quarter of more slots than a new stack has. -/
def OnEdge (stack : Stack) : Prop :=
  2 * stack.live = stack.capacity ∨ 4 * stack.live = stack.capacity ∧ 16 < stack.capacity

/-- What an operation did, if it found something to do: it counted itself, and it left the
capacity alone or changed it once, from one of the edges to neither of them. -/
inductive Effect (stack next : Stack) : Prop
  /-- A word was pushed. -/
  | pushed (hlive : next.live = stack.live + 1) (hcapacity : next.capacity = stack.capacity)
    (hcounts : next.counts = { stack.counts with pushes := stack.counts.pushes + 1 })
    (hresizes : next.resizes.size = stack.resizes.size)
  /-- A word was pushed, and the capacity doubled. -/
  | grown (hlive : next.live = stack.live + 1) (hcapacity : next.capacity = stack.capacity * 2)
    (hcounts : next.counts =
      { stack.counts with pushes := stack.counts.pushes + 1, grows := stack.counts.grows + 1 })
    (hresizes : next.resizes.size = stack.resizes.size + 1)
    (hedge : 2 * stack.live = stack.capacity)
  /-- A word was popped. -/
  | popped (hlive : next.live + 1 = stack.live) (hcapacity : next.capacity = stack.capacity)
    (hcounts : next.counts = { stack.counts with pops := stack.counts.pops + 1 })
    (hresizes : next.resizes.size = stack.resizes.size)
  /-- A word was popped, and the capacity halved. -/
  | shrunk (hlive : next.live + 1 = stack.live) (hcapacity : next.capacity = stack.capacity / 2)
    (hcounts : next.counts =
      { stack.counts with pops := stack.counts.pops + 1, shrinks := stack.counts.shrinks + 1 })
    (hresizes : next.resizes.size = stack.resizes.size + 1)
    (hedge : 4 * stack.live = stack.capacity ∧ 16 < stack.capacity)

/-- One change of capacity is remembered. -/
theorem size_resizes_resize (stack : Stack) (capacity : Nat) :
    (stack.resize capacity).resizes.size = stack.resizes.size + 1 :=
  Array.size_push _

/-- A push has one of two effects. -/
theorem Proportionate.effect_push (h : stack.Proportionate) (word : Int32) :
    Effect stack (stack.push word) := by
  have hslots := stack.capacity_fill word
  rw [h.push_eq word]
  split
  · rename_i hedge
    refine .grown rfl ?_ rfl (size_resizes_resize _ _) hedge
    rw [capacity_grow, hslots]
  · exact .pushed rfl hslots rfl rfl

/-- A pop of a live word has one of two effects. -/
theorem Proportionate.effect_pop (h : stack.Proportionate) (hlive : stack.live ≠ 0) :
    Effect stack stack.pop.2 := by
  obtain ⟨word, htop⟩ := h.exists_top hlive
  have hdrained : stack.drain.live + 1 = stack.live := by
    change stack.live - 1 + 1 = stack.live
    omega
  rw [h.pop_eq htop]
  dsimp only
  split
  · rename_i hedge
    exact .shrunk hdrained (capacity_shrink _) rfl (size_resizes_resize _ _) hedge
  · exact .popped hdrained rfl rfl rfl

/-- An operation has an effect, or it is a pop that finds no live word and leaves the
stack as it is. -/
theorem Proportionate.effect (h : stack.Proportionate) (operation : Operation) :
    Effect stack (stack.serve operation).2 ∨
      stack.live = 0 ∧ (stack.serve operation).2 = stack := by
  cases operation with
  | push word => exact .inl (h.effect_push word)
  | pop =>
    by_cases hlive : stack.live = 0
    · have hnothing : (stack.serve .pop).2 = stack := by
        rw [Stack.serve, pop_of_live_eq_zero hlive]
      exact .inr ⟨hlive, hnothing⟩
    · exact .inl (h.effect_pop hlive)

/-- A stack that has kept account of what happened to it since it was new. -/
structure Accounted (stack : Stack) : Prop where
  /-- The words that were pushed and not popped are live. -/
  live_eq : stack.counts.pushes = stack.counts.pops + stack.live
  /-- The capacity has not halved more often than it has doubled. -/
  shrinks_le : stack.counts.shrinks ≤ stack.counts.grows
  /-- The capacity has doubled, on balance, as often as counted. -/
  capacity_eq : stack.capacity = 16 * 2 ^ (stack.counts.grows - stack.counts.shrinks)
  /-- Every change of capacity is remembered. -/
  resizes_eq : stack.resizes.size = stack.counts.grows + stack.counts.shrinks
  /-- The operations outnumber the changes of capacity twice, and by seven. -/
  spaced : stack.resizes.size ≠ 0 →
    2 * stack.resizes.size + 7 ≤ stack.counts.pushes + stack.counts.pops
  /-- On an edge, they do so by eight. -/
  spaced_edge : stack.OnEdge →
    2 * stack.resizes.size + 8 ≤ stack.counts.pushes + stack.counts.pops

/-- A new stack has kept account. -/
theorem accounted_empty : Accounted empty where
  live_eq := rfl
  shrinks_le := Nat.le_refl 0
  capacity_eq := rfl
  resizes_eq := rfl
  spaced := fun h => absurd rfl h
  spaced_edge := by
    have hlive : empty.live = 0 := rfl
    have hcapacity : empty.capacity = 16 := rfl
    intro hedge
    rw [OnEdge, hlive, hcapacity] at hedge
    omega

/-- A change of capacity leads to a stack that is not on an edge. -/
theorem Proportionate.not_onEdge_of_resized (h : stack.Proportionate) {next : Stack}
    (heffect : Effect stack next) (hresized : next.resizes.size ≠ stack.resizes.size) :
    stack.OnEdge ∧ ¬ next.OnEdge ∧ next.live ≠ 0 := by
  obtain ⟨factor, hpos, hfactor⟩ := h.exists_factor
  unfold OnEdge
  cases heffect with
  | pushed hlive hcapacity hcounts hresizes => exact absurd hresizes hresized
  | grown hlive hcapacity hcounts hresizes hedge =>
    rw [hlive, hcapacity]
    omega
  | popped hlive hcapacity hcounts hresizes => exact absurd hresizes hresized
  | shrunk hlive hcapacity hcounts hresizes hedge =>
    rw [hcapacity]
    omega

/-- A stack that is not on an edge keeps its capacity. -/
theorem Effect.resizes_of_not_onEdge {next : Stack} (h : Effect stack next)
    (hedge : ¬ stack.OnEdge) : next.resizes.size = stack.resizes.size := by
  cases h with
  | pushed hlive hcapacity hcounts hresizes => exact hresizes
  | grown hlive hcapacity hcounts hresizes hhalf => exact absurd (.inl hhalf) hedge
  | popped hlive hcapacity hcounts hresizes => exact hresizes
  | shrunk hlive hcapacity hcounts hresizes hquarter => exact absurd (.inr hquarter) hedge

/-- An operation counts itself, and changes the capacity once at most. -/
theorem Effect.counted {next : Stack} (h : Effect stack next) :
    next.counts.pushes + next.counts.pops = stack.counts.pushes + stack.counts.pops + 1 ∧
      stack.resizes.size ≤ next.resizes.size ∧ next.resizes.size ≤ stack.resizes.size + 1 := by
  cases h with
  | pushed hlive hcapacity hcounts hresizes | grown hlive hcapacity hcounts hresizes hedge
  | popped hlive hcapacity hcounts hresizes | shrunk hlive hcapacity hcounts hresizes hedge =>
    rw [hcounts, hresizes]
    dsimp only
    omega

/-- Doubling as often as counted, and once more. -/
theorem Accounted.capacity_grown (h : stack.Accounted) :
    stack.capacity * 2 = 16 * 2 ^ (stack.counts.grows + 1 - stack.counts.shrinks) := by
  have hshrinks := h.shrinks_le
  have hnext : stack.counts.grows + 1 - stack.counts.shrinks =
      stack.counts.grows - stack.counts.shrinks + 1 := by omega
  rw [hnext, Nat.pow_succ, ← Nat.mul_assoc, ← h.capacity_eq]

/-- A capacity above that of a new stack has doubled more often than it has halved, and
can take one half back. -/
theorem Accounted.capacity_shrunk (h : stack.Accounted) (hlarge : 16 < stack.capacity) :
    stack.counts.shrinks < stack.counts.grows ∧
      stack.capacity / 2 = 16 * 2 ^ (stack.counts.grows - (stack.counts.shrinks + 1)) := by
  have hcapacity := h.capacity_eq
  have hshrinks : stack.counts.shrinks < stack.counts.grows := by
    refine Nat.lt_of_not_le fun hbalanced => ?_
    have hnone : stack.counts.grows - stack.counts.shrinks = 0 := by omega
    rw [hnone, Nat.pow_zero] at hcapacity
    omega
  have hnext : stack.counts.grows - stack.counts.shrinks =
      stack.counts.grows - (stack.counts.shrinks + 1) + 1 := by omega
  rw [hnext, Nat.pow_succ, ← Nat.mul_assoc] at hcapacity
  exact ⟨hshrinks, by omega⟩

/-- What an operation does to the counts agrees with what it does to the live words and
the capacity. -/
theorem Accounted.balanced (h : stack.Accounted) {next : Stack} (heffect : Effect stack next) :
    next.counts.pushes = next.counts.pops + next.live ∧
      next.counts.shrinks ≤ next.counts.grows ∧
      next.capacity = 16 * 2 ^ (next.counts.grows - next.counts.shrinks) ∧
      next.resizes.size = next.counts.grows + next.counts.shrinks := by
  have hlives := h.live_eq
  have hshrinks := h.shrinks_le
  have hresized := h.resizes_eq
  cases heffect with
  | pushed hlive hcapacity hcounts hresizes =>
    rw [hcounts, hcapacity, hlive, hresizes]
    exact ⟨by dsimp only; omega, hshrinks, h.capacity_eq, hresized⟩
  | grown hlive hcapacity hcounts hresizes hedge =>
    rw [hcounts, hcapacity, hlive, hresizes]
    exact ⟨by dsimp only; omega, by dsimp only; omega, h.capacity_grown, by dsimp only; omega⟩
  | popped hlive hcapacity hcounts hresizes =>
    rw [hcounts, hcapacity, hresizes]
    exact ⟨by dsimp only; omega, hshrinks, h.capacity_eq, hresized⟩
  | shrunk hlive hcapacity hcounts hresizes hedge =>
    obtain ⟨hless, hhalf⟩ := h.capacity_shrunk hedge.2
    rw [hcounts, hcapacity, hresizes]
    exact ⟨by dsimp only; omega, hless, hhalf, by dsimp only; omega⟩

/-- A stack that has never changed its capacity is on an edge only with half of the slots
of a new stack live. -/
theorem OnEdge.live_eq_of_unresized (h : stack.OnEdge) (hunresized : stack.resizes.size = 0)
    (hresizes : stack.resizes.size = stack.counts.grows + stack.counts.shrinks)
    (hcapacity : stack.capacity = 16 * 2 ^ (stack.counts.grows - stack.counts.shrinks)) :
    stack.live = 8 := by
  have hnone : stack.counts.grows - stack.counts.shrinks = 0 := by omega
  rw [hnone, Nat.pow_zero] at hcapacity
  rw [OnEdge] at h
  omega

/-- An effect keeps account. The operation that changes the capacity starts from an edge,
where the operations have outnumbered the changes by one more; and it takes another
operation to come to an edge again. -/
theorem Accounted.effect (h : stack.Accounted) (hproportionate : stack.Proportionate)
    {next : Stack} (heffect : Effect stack next) : next.Accounted := by
  obtain ⟨hlives, hshrinks, hcapacity, hresized⟩ := h.balanced heffect
  obtain ⟨hcounted, hkept, hone⟩ := heffect.counted
  have hspaced := h.spaced
  by_cases hsame : next.resizes.size = stack.resizes.size
  · refine ⟨hlives, hshrinks, hcapacity, hresized, fun hsome => ?_, fun hedge => ?_⟩
    · have hearlier := hspaced (by omega)
      omega
    · by_cases hunresized : next.resizes.size = 0
      · have hhalf := hedge.live_eq_of_unresized hunresized hresized hcapacity
        omega
      · have hearlier := hspaced (by omega)
        omega
  · obtain ⟨hstart, hend, -⟩ := hproportionate.not_onEdge_of_resized heffect hsame
    have hearlier := h.spaced_edge hstart
    refine ⟨hlives, hshrinks, hcapacity, hresized, fun _ => ?_, fun hedge => ?_⟩
    · omega
    · exact absurd hedge hend

/-- An operation on a stack in proportion keeps account. -/
theorem Accounted.serve (h : stack.Accounted) (hproportionate : stack.Proportionate)
    (operation : Operation) : (stack.serve operation).2.Accounted := by
  rcases hproportionate.effect operation with heffect | ⟨-, hnothing⟩
  · exact h.effect hproportionate heffect
  · rw [hnothing]
    exact h

/-- Operations on a stack in proportion keep account. -/
theorem Accounted.serveAll (h : stack.Accounted) (hproportionate : stack.Proportionate)
    (operations : List Operation) : (stack.serveAll operations).Accounted := by
  induction operations generalizing stack with
  | nil => exact h
  | cons operation operations ih =>
    exact ih (h.serve hproportionate operation) (hproportionate.serve operation)

/-- Behind an operation that changed the capacity, every operation has an effect and
leaves the capacity alone. -/
theorem Proportionate.resizes_behind (h : stack.Proportionate) {operation : Operation}
    (hresized : (stack.serve operation).2.resizes.size ≠ stack.resizes.size)
    (later : Operation) :
    (stack.serve operation).2.live ≠ 0 ∧
      ((stack.serve operation).2.serve later).2.resizes.size =
        (stack.serve operation).2.resizes.size := by
  have hnext := h.serve operation
  rcases h.effect operation with heffect | ⟨-, hnothing⟩
  · obtain ⟨-, hedge, hlive⟩ := h.not_onEdge_of_resized heffect hresized
    refine ⟨hlive, ?_⟩
    rcases hnext.effect later with hlater | ⟨hzero, -⟩
    · exact hlater.resizes_of_not_onEdge hedge
    · exact absurd hzero hlive
  · rw [hnothing] at hresized
    exact absurd rfl hresized

/-- After any pushes and pops a new stack has kept account: the words pushed and not
popped are live, and the capacity has doubled, on balance, as often as counted. A push
never finds the stack full. An operation changes the capacity once at most, and right
behind one that does, every operation finds something to do and leaves the capacity alone.
Once the capacity has changed, the operations outnumber the changes twice, and by seven. -/
theorem resizes_are_spaced (operations : List Operation) :
    let stack := empty.serveAll operations
    let counts := stack.counts
    (counts.pops ≤ counts.pushes ∧ stack.live = counts.pushes - counts.pops) ∧
      (counts.shrinks ≤ counts.grows ∧
        stack.capacity = 16 * 2 ^ (counts.grows - counts.shrinks)) ∧
      stack.resizes.size = counts.grows + counts.shrinks ∧
      stack.live ≠ stack.capacity ∧
      (∀ operation,
        let next := (stack.serve operation).2
        stack.resizes.size ≤ next.resizes.size ∧
          next.resizes.size ≤ stack.resizes.size + 1 ∧
          (next.resizes.size ≠ stack.resizes.size → ∀ later,
            next.live ≠ 0 ∧ (next.serve later).2.resizes.size = next.resizes.size)) ∧
      (1 ≤ counts.grows + counts.shrinks →
        2 * (counts.grows + counts.shrinks) + 7 ≤ counts.pushes + counts.pops) := by
  intro stack counts
  have hproportionate : stack.Proportionate := proportionate_empty.serveAll operations
  have haccounted : stack.Accounted := accounted_empty.serveAll proportionate_empty operations
  have hlives : counts.pushes = counts.pops + stack.live := haccounted.live_eq
  have hresizes : stack.resizes.size = counts.grows + counts.shrinks := haccounted.resizes_eq
  have hhalf := hproportionate.live_le
  have hpos := hproportionate.sound.capacity_pos
  refine ⟨⟨by omega, by omega⟩, ⟨haccounted.shrinks_le, haccounted.capacity_eq⟩, hresizes,
    by omega, fun operation => ?_, fun hsome => ?_⟩
  · intro next
    have hone : stack.resizes.size ≤ next.resizes.size ∧
        next.resizes.size ≤ stack.resizes.size + 1 := by
      rcases hproportionate.effect operation with heffect | ⟨-, hnothing⟩
      · exact heffect.counted.2
      · have hsame : next = stack := hnothing
        rw [hsame]
        omega
    exact ⟨hone.1, hone.2, fun hresized later => hproportionate.resizes_behind hresized later⟩
  · have hspaced := haccounted.spaced (by omega)
    rwa [hresizes] at hspaced

/-- The ninth push is the first change of capacity: the bound is reached. -/
example : (empty.serveAll (List.replicate 9 (.push 0))).counts = ⟨9, 0, 1, 0⟩ := by
  decide +kernel

end LanguageKit.Stack
