import LanguageKit.Stack

/-!
# The live words of a stack

Changes of capacity leave the live words alone, as long as there are slots for
them. So a stack shows a plain list: pushing puts a word behind its end, and
popping takes the word at its end away.
-/

namespace LanguageKit.Stack

variable {stack : Stack}

/-- A stack with a slot for each live word, and with slots at all. -/
structure Sound (stack : Stack) : Prop where
  /-- Every live word has its slot. -/
  live_le : stack.live ≤ stack.capacity
  /-- There are slots. -/
  capacity_pos : 0 < stack.capacity

/-- The new stack is sound. -/
theorem sound_empty : Sound empty := ⟨Nat.zero_le _, by decide⟩

/-- The live words are as many as the stack counts. -/
theorem Sound.length_toList (h : stack.Sound) : stack.toList.length = stack.live := by
  have hlive : stack.live ≤ stack.slots.size := h.live_le
  rw [toList, List.length_take, Array.length_toList, Nat.min_eq_left hlive]

/-- A change of capacity that keeps the slots of the live words keeps these words. -/
theorem Sound.toList_resize (h : stack.Sound) {capacity : Nat} (hfit : stack.live ≤ capacity) :
    (stack.resize capacity).toList = stack.toList := by
  have hlive : stack.live ≤ stack.slots.size := h.live_le
  have hlength : stack.live ≤ (stack.slots.toList.take capacity).length := by
    rw [List.length_take, Array.length_toList]
    omega
  simp only [toList, Stack.resize, Array.take, Array.toList_append, Array.toList_extract,
    List.extract_eq_take_drop, List.drop_zero, Nat.sub_zero]
  rw [List.take_append_of_le_length hlength, List.take_take, Nat.min_eq_left hfit]

/-- Growing keeps a stack sound. -/
theorem Sound.grow (h : stack.Sound) : stack.grow.Sound := by
  have hlive := h.live_le
  have hpos := h.capacity_pos
  exact ⟨by rw [live_grow, capacity_grow]; omega, by rw [capacity_grow]; omega⟩

/-- Growing keeps the live words. -/
theorem Sound.toList_grow (h : stack.Sound) : stack.grow.toList = stack.toList := by
  have hlive := h.live_le
  exact h.toList_resize (by omega)

/-- Shrinking a sparse stack keeps it sound. -/
theorem Sound.shrink (hsparse : stack.sparse = true) : stack.shrink.Sound := by
  simp only [sparse, minCapacity, Bool.and_eq_true, decide_eq_true_eq] at hsparse
  exact ⟨by rw [live_shrink, capacity_shrink]; omega, by rw [capacity_shrink]; omega⟩

/-- Shrinking a sparse stack keeps the live words. -/
theorem Sound.toList_shrink (h : stack.Sound) (hsparse : stack.sparse = true) :
    stack.shrink.toList = stack.toList := by
  simp only [sparse, minCapacity, Bool.and_eq_true, decide_eq_true_eq] at hsparse
  exact h.toList_resize (by omega)

/-- Growing for as long as it is crowded keeps a stack sound and its live words. -/
theorem Sound.relieve (h : stack.Sound) :
    stack.relieve.Sound ∧ stack.relieve.toList = stack.toList := by
  fun_induction Stack.relieve stack with
  | case1 stack hcrowded ih =>
    obtain ⟨hsound, hlist⟩ := ih h.grow
    exact ⟨hsound, hlist.trans h.toList_grow⟩
  | case2 stack hcrowded => exact ⟨h, rfl⟩

/-- Shrinking for as long as it is sparse keeps a stack sound and its live words. -/
theorem Sound.condense (h : stack.Sound) :
    stack.condense.Sound ∧ stack.condense.toList = stack.toList := by
  fun_induction Stack.condense stack with
  | case1 stack hsparse ih =>
    obtain ⟨hsound, hlist⟩ := ih (Sound.shrink hsparse)
    exact ⟨hsound, hlist.trans (h.toList_shrink hsparse)⟩
  | case2 stack hsparse => exact ⟨h, rfl⟩

/-- Bringing the capacity back into proportion keeps a stack sound and its live
words. -/
theorem Sound.rebalance (h : stack.Sound) :
    stack.rebalance.Sound ∧ stack.rebalance.toList = stack.toList := by
  obtain ⟨hrelieved, hlist⟩ := h.relieve
  obtain ⟨hsound, hcondensed⟩ := hrelieved.condense
  exact ⟨hsound, hcondensed.trans hlist⟩

/-- A stack with a free slot shows one more word when the slot is filled and counted
as live. -/
theorem sound_fill (hfree : stack.live < stack.capacity) (word : Int32)
    (counts : Counts) :
    let filled : Stack :=
      { stack with slots := stack.slots.setIfInBounds stack.live word, live := stack.live + 1, counts }
    filled.Sound ∧ filled.toList = stack.toList ++ [word] := by
  have hsize : stack.live < stack.slots.size := hfree
  refine ⟨⟨?_, ?_⟩, ?_⟩
  · simp only [capacity, Array.size_setIfInBounds]
    omega
  · simp only [capacity, Array.size_setIfInBounds]
    omega
  · simp only [toList, Array.toList_setIfInBounds]
    rw [List.take_add_one, List.take_set_of_le (Nat.le_refl _),
      List.getElem?_set_self (by rwa [Array.length_toList])]
    rfl

/-- A pushed word stands behind the words that were live. -/
theorem Sound.push (h : stack.Sound) (word : Int32) :
    (stack.push word).Sound ∧ (stack.push word).toList = stack.toList ++ [word] := by
  have hlive := h.live_le
  have hpos := h.capacity_pos
  unfold Stack.push
  by_cases hfull : stack.live = stack.capacity
  · have hfree : stack.grow.live < stack.grow.capacity := by
      rw [live_grow, capacity_grow]
      omega
    obtain ⟨hfilled, hlist⟩ := sound_fill hfree word
      { stack.grow.counts with pushes := stack.grow.counts.pushes + 1 }
    obtain ⟨hsound, hbalanced⟩ := hfilled.rebalance
    rw [if_pos hfull]
    exact ⟨hsound, hbalanced.trans (hlist.trans (by rw [h.toList_grow]))⟩
  · have hfree : stack.live < stack.capacity := by omega
    obtain ⟨hfilled, hlist⟩ := sound_fill hfree word
      { stack.counts with pushes := stack.counts.pushes + 1 }
    obtain ⟨hsound, hbalanced⟩ := hfilled.rebalance
    rw [if_neg hfull]
    exact ⟨hsound, hbalanced.trans hlist⟩

/-- The topmost word is the last of the live words. -/
theorem Sound.top?_eq (h : stack.Sound) : stack.top? = stack.toList.getLast? := by
  have hlive : stack.live ≤ stack.slots.size := h.live_le
  unfold top?
  split
  · rename_i hnone
    rw [toList, hnone, List.take_zero, List.getLast?_nil]
  · rw [List.getLast?_eq_getElem?, h.length_toList, toList, List.getElem?_take_of_lt (by omega),
      Array.getElem?_toList]

/-- Nothing is popped where no word is live. -/
theorem Sound.pop_of_nil (h : stack.Sound) (hnil : stack.toList = []) :
    stack.pop = (none, stack) := by
  have htop : stack.top? = none := by rw [h.top?_eq, hnil, List.getLast?_nil]
  rw [pop, htop]

/-- A popped word is the last of the live words, and the others stay. -/
theorem Sound.pop_of_snoc (h : stack.Sound) {words : List Int32} {word : Int32}
    (hsnoc : stack.toList = words ++ [word]) :
    ∃ popped, stack.pop = (some word, popped) ∧ popped.Sound ∧ popped.toList = words := by
  have htop : stack.top? = some word := by rw [h.top?_eq, hsnoc, List.getLast?_concat]
  have hlength := h.length_toList
  rw [hsnoc, List.length_append, List.length_singleton] at hlength
  have hlive := h.live_le
  let lowered : Stack :=
    { stack with live := stack.live - 1, counts.pops := stack.counts.pops + 1 }
  have hlowered : lowered.Sound := ⟨Nat.le_trans (Nat.sub_le _ _) h.live_le, h.capacity_pos⟩
  have hlist : lowered.toList = words := by
    have htake : lowered.toList = stack.toList.take (stack.live - 1) := by
      rw [toList, toList, List.take_take, Nat.min_eq_left (Nat.sub_le _ _)]
    rw [htake, hsnoc, ← hlength, Nat.add_sub_cancel, List.take_left]
  obtain ⟨hsound, hbalanced⟩ := hlowered.rebalance
  refine ⟨lowered.rebalance, ?_, hsound, hbalanced.trans hlist⟩
  rw [pop, htop]

end LanguageKit.Stack
