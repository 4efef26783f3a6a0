import LanguageKit.Scan
import LanguageKit.Proofs.CursorOrder

/-!
# Reading a scan

A reader pulls items from a scan until it has as many as it wants or there are no
more. Every pull is made of the smallest parts of a scan: items that are taken
from the queue, and steps that make requests to the lexer. This module relates
the pulls to these parts and keeps the requests of every step, so that what holds
of requests can be carried over to a whole scan. Pulling fewer times brings the front
of the sequence that pulling to its end brings.
-/

namespace LanguageKit

variable {σ : Type}

/-- The requests an action makes in view of the answers of a lexer, the one that
goes wrong included. -/
def Action.requests : Action σ → Lexer → List Lexer.Request
  | stop _, _ => []
  | ask request resume, lexer =>
    request ::
      match lexer.perform request with
      | .ok (reply, moved) => (resume reply).requests moved
      | .error _ => []

/-- An action does to the lexer what its requests do. -/
theorem Action.run_lexer (action : Action σ) (lexer : Lexer) :
    (action.run lexer).2 = lexer.serveAll (action.requests lexer) := by
  induction action generalizing lexer with
  | stop next => rfl
  | ask request resume ih =>
    rw [run, requests, Lexer.serveAll, List.foldl_cons, Lexer.serve]
    cases lexer.perform request with
    | ok answer => exact ih answer.1 answer.2
    | error cut => rfl

namespace Scan

/-- The requests of the next step: those of the state, or the one that closes the
sequence. -/
def requests (scanner : Scanner σ) (scan : Scan σ) : List Lexer.Request :=
  match scan.state with
  | none => [.emit .endOfInput]
  | some state =>
    if scan.lexer.finished then [.emit .endOfInput] else (scanner state).requests scan.lexer

/-- Closing the sequence is one more request. -/
theorem lexer_close (scan : Scan σ) :
    scan.close.2.lexer = scan.lexer.serveAll [.emit .endOfInput] := by
  change _ = scan.lexer.serve (.emit .endOfInput)
  cases hemit : scan.lexer.emit .endOfInput with
  | error cut => simp only [close, Lexer.serve, Lexer.perform, hemit, Except.map]
  | ok published => simp only [close, Lexer.serve, Lexer.perform, hemit, Except.map]

/-- A step does to the lexer what its requests do. -/
theorem lexer_step (scanner : Scanner σ) (scan : Scan σ) :
    (scan.step scanner).2.lexer = scan.lexer.serveAll (scan.requests scanner) := by
  unfold step requests
  cases scan.state with
  | none => exact scan.lexer_close
  | some state =>
    dsimp only
    split
    · exact scan.lexer_close
    · rw [← (scanner state).run_lexer scan.lexer]
      split <;> rename_i heq <;> rw [heq]

/-- Whether the sequence is over: the final item has been published, and all items
have been taken. -/
def Over (scan : Scan σ) : Prop := scan.lexer.queue = [] ∧ scan.lexer.finished = true

/-- An item is taken from the front of the queue, and nothing else happens. -/
theorem advance_item {scanner : Scanner σ} {scan next : Scan σ} {item : Item}
    (h : scan.advance scanner = (.item item, next)) :
    ∃ rest, scan.lexer.queue = item :: rest ∧
      next = { scan with lexer := { scan.lexer with queue := rest } } := by
  unfold advance at h
  split at h
  · rename_i first rest hqueue
    cases h
    exact ⟨rest, hqueue, rfl⟩
  · split at h
    · cases h
    · split at h <;> cases h

/-- A step is made while the queue is empty and the final item is missing. -/
theorem advance_worked {scanner : Scanner σ} {scan next : Scan σ}
    (h : scan.advance scanner = (.worked, next)) :
    scan.lexer.queue = [] ∧ scan.lexer.finished = false ∧
      next.lexer = scan.lexer.serveAll (scan.requests scanner) ∧
      scan.ran.toList <+: next.ran.toList := by
  unfold advance at h
  split at h
  · cases h
  · rename_i hqueue
    split at h
    · cases h
    · rename_i hfinished
      have hlexer := scan.lexer_step scanner
      split at h
      · rename_i stepped heq
        cases h
        rw [heq] at hlexer
        refine ⟨hqueue, by simpa using hfinished, hlexer, ?_⟩
        unfold step close at heq
        split at heq
        · split at heq <;> cases heq
          exact List.prefix_rfl
        · rw [if_neg hfinished] at heq
          split at heq <;> cases heq
          rw [Array.toList_push]
          exact List.prefix_append _ _
      · cases h

/-- The sequence ends where it is over, and nothing changes any more. -/
theorem advance_ended_iff {scanner : Scanner σ} {scan last : Scan σ} :
    scan.advance scanner = (.ended, last) ↔ last = scan ∧ scan.Over := by
  unfold advance Over
  constructor
  · intro h
    split at h
    · cases h
    · rename_i hqueue
      split at h
      · rename_i hfinished
        cases h
        exact ⟨rfl, hqueue, hfinished⟩
      · split at h <;> cases h
  · rintro ⟨rfl, hqueue, hfinished⟩
    rw [hqueue]
    dsimp only
    rw [if_pos hfinished]

/-- Pulling a number of times, or until there are no more items: the items that
are brought, and the scan behind them. Every pull comes to an answer. -/
inductive Pulls (scanner : Scanner σ) : Nat → Scan σ → List Item → Scan σ → Prop where
  /-- No pull is left. -/
  | enough (scan : Scan σ) : Pulls scanner 0 scan [] scan
  /-- A pull finds the sequence over. -/
  | ended {count budget : Nat} {scan last : Scan σ}
      (pulled : scan.pull scanner budget = (.ended, last)) :
      Pulls scanner (count + 1) scan [] last
  /-- A pull brings an item. -/
  | item {count budget : Nat} {scan next last : Scan σ} {item : Item} {items : List Item}
      (pulled : scan.pull scanner budget = (.item item, next))
      (rest : Pulls scanner count next items last) :
      Pulls scanner (count + 1) scan (item :: items) last

/-- The same in the smallest parts of a scan, with the requests of every step. -/
inductive Reads (scanner : Scanner σ) :
    Nat → Scan σ → List (List Lexer.Request) → List Item → Scan σ → Prop where
  /-- No item is left to be read. -/
  | enough (scan : Scan σ) : Reads scanner 0 scan [] [] scan
  /-- The sequence is over. -/
  | ended {count : Nat} {scan last : Scan σ} (moved : scan.advance scanner = (.ended, last)) :
      Reads scanner (count + 1) scan [] [] last
  /-- An item is taken from the queue. -/
  | item {count : Nat} {scan next last : Scan σ} {work : List (List Lexer.Request)} {item : Item}
      {items : List Item} (moved : scan.advance scanner = (.item item, next))
      (rest : Reads scanner count next work items last) :
      Reads scanner (count + 1) scan work (item :: items) last
  /-- A step is made. -/
  | worked {count : Nat} {scan next last : Scan σ} {work : List (List Lexer.Request)}
      {items : List Item} (moved : scan.advance scanner = (.worked, next))
      (rest : Reads scanner (count + 1) next work items last) :
      Reads scanner (count + 1) scan (scan.requests scanner :: work) items last

variable {scanner : Scanner σ} {scan last : Scan σ} {count : Nat}
  {work : List (List Lexer.Request)} {items : List Item}

/-- A pull takes one item in the end. -/
theorem reads_of_pull_item {budget : Nat} {next : Scan σ} {item : Item}
    (h : scan.pull scanner budget = (.item item, next))
    (rest : Reads scanner count next work items last) :
    ∃ more, Reads scanner (count + 1) scan more (item :: items) last := by
  induction budget generalizing scan with
  | zero => cases h
  | succ budget ih =>
    unfold pull at h
    split at h
    · rename_i heq
      cases h
      exact ⟨work, .item heq rest⟩
    · cases h
    · cases h
    · rename_i heq
      obtain ⟨more, hmore⟩ := ih h
      exact ⟨_, .worked heq hmore⟩

/-- A pull that finds the sequence over may have made steps before. -/
theorem reads_of_pull_ended {budget : Nat} (h : scan.pull scanner budget = (.ended, last)) :
    ∃ work, Reads scanner (count + 1) scan work [] last := by
  induction budget generalizing scan with
  | zero => cases h
  | succ budget ih =>
    unfold pull at h
    split at h
    · cases h
    · rename_i heq
      cases h
      exact ⟨[], .ended heq⟩
    · cases h
    · rename_i heq
      obtain ⟨work, hwork⟩ := ih h
      exact ⟨_, .worked heq hwork⟩

/-- Pulls are made of the smallest parts. -/
theorem Pulls.reads (h : Pulls scanner count scan items last) :
    ∃ work, Reads scanner count scan work items last := by
  induction h with
  | enough scan => exact ⟨[], .enough scan⟩
  | ended pulled => exact reads_of_pull_ended pulled
  | item pulled rest ih =>
    obtain ⟨work, hwork⟩ := ih
    exact reads_of_pull_item pulled hwork

/-- The smallest parts make pulls, each with a budget that suffices. -/
theorem Reads.pulls (h : Reads scanner count scan work items last) :
    Pulls scanner count scan items last := by
  induction h with
  | enough scan => exact .enough scan
  | @ended _ scan last moved =>
    have hpull : scan.pull scanner 1 = (.ended, last) := by rw [pull, moved]
    exact .ended hpull
  | @item _ scan next _ _ item _ moved rest ih =>
    have hpull : scan.pull scanner 1 = (.item item, next) := by rw [pull, moved]
    exact .item hpull ih
  | @worked count scan next last work items moved rest ih =>
    cases ih with
    | @ended _ budget _ _ pulled =>
      have hpull : scan.pull scanner (budget + 1) = (.ended, last) := by
        rw [pull, moved]
        exact pulled
      exact .ended hpull
    | @item _ budget _ after _ item _ pulled rest =>
      have hpull : scan.pull scanner (budget + 1) = (.item item, after) := by
        rw [pull, moved]
        exact pulled
      exact .item hpull rest

/-- Where fewer items are read than are asked for, the sequence is over. -/
theorem Reads.over (h : Reads scanner count scan work items last) (hshort : items.length < count) :
    last.Over := by
  induction h with
  | enough => exact absurd hshort (Nat.lt_irrefl 0)
  | ended moved =>
    obtain ⟨rfl, hover⟩ := advance_ended_iff.mp moved
    exact hover
  | item moved rest ih => exact ih (Nat.lt_of_succ_lt_succ hshort)
  | worked moved rest ih => exact ih hshort

/-- Where the sequence is over, asking for one more item changes nothing. -/
theorem Reads.succ (h : Reads scanner count scan work items last) (hover : last.Over) :
    Reads scanner (count + 1) scan work items last := by
  induction h with
  | enough scan => exact .ended (advance_ended_iff.mpr ⟨rfl, hover⟩)
  | ended moved => exact .ended moved
  | item moved rest ih => exact .item moved (ih hover)
  | worked moved rest ih => exact .worked moved (ih hover)

/-- Reading fewer items brings the front of what reading more brings. -/
theorem Reads.eq_take {work other : List (List Lexer.Request)} {whole : List Item}
    {final : Scan σ} {total : Nat} (h : Reads scanner count scan work items last)
    (hwhole : Reads scanner total scan other whole final) (hle : count ≤ total) :
    items = whole.take count := by
  induction h generalizing total other whole with
  | enough scan => rfl
  | ended moved =>
    cases hwhole with
    | enough => omega
    | ended => rfl
    | item found => simp [moved] at found
    | worked worked => simp [moved] at worked
  | item moved rest ih =>
    cases hwhole with
    | enough => omega
    | ended ended => simp [moved] at ended
    | worked worked => simp [moved] at worked
    | item found more =>
      rw [moved] at found
      cases found
      rw [List.take_succ_cons, ← ih more (Nat.le_of_succ_le_succ hle)]
  | worked moved rest ih =>
    cases hwhole with
    | enough => omega
    | ended ended => simp [moved] at ended
    | item found => simp [moved] at found
    | worked worked more =>
      rw [moved] at worked
      cases worked
      exact ih more hle

/-- Where fewer items are read than are asked for, asking for one behind the last of
them suffices. -/
theorem Reads.shrink {work : List (List Lexer.Request)}
    (h : Reads scanner count scan work items last) (hshort : items.length < count) :
    Reads scanner (items.length + 1) scan work items last := by
  induction h with
  | enough => exact absurd hshort (Nat.lt_irrefl 0)
  | ended moved => exact .ended moved
  | item moved rest ih => exact .item moved (ih (Nat.lt_of_succ_lt_succ hshort))
  | worked moved rest ih => exact .worked moved (ih hshort)

/-- The whole sequence of a scan: one pull more than there are items finds it over. -/
def Yields (scanner : Scanner σ) (scan : Scan σ) (items : List Item) (last : Scan σ) : Prop :=
  Pulls scanner (items.length + 1) scan items last

/-- Pulling brings the front of the whole sequence. -/
theorem Pulls.eq_take {whole : List Item} {final : Scan σ}
    (h : Pulls scanner count scan items last) (hwhole : Yields scanner scan whole final) :
    items = whole.take count := by
  obtain ⟨work, hreads⟩ := h.reads
  obtain ⟨other, hall⟩ := hwhole.reads
  have hover := hall.over (Nat.lt_succ_self _)
  -- at the end of the sequence one may ask for as many more items as one likes
  have hmore : ∀ more, Reads scanner (whole.length + 1 + more) scan other whole final := by
    intro more
    induction more with
    | zero => exact hall
    | succ more ih => exact ih.succ hover
  exact hreads.eq_take (hmore count) (Nat.le_add_left count _)

/-- Pulling that brings fewer items than it may brings the whole sequence. -/
theorem Pulls.yields (h : Pulls scanner count scan items last) (hshort : items.length < count) :
    Yields scanner scan items last := by
  obtain ⟨work, hreads⟩ := h.reads
  exact (hreads.shrink hshort).pulls

/-- States are only ever added to those that have been run. -/
theorem Reads.ran_prefix (h : Reads scanner count scan work items last) :
    scan.ran.toList <+: last.ran.toList := by
  induction h with
  | enough scan => exact List.prefix_rfl
  | ended moved =>
    obtain ⟨rfl, -⟩ := advance_ended_iff.mp moved
    exact List.prefix_rfl
  | item moved rest ih =>
    obtain ⟨rest, -, rfl⟩ := advance_item moved
    exact ih
  | worked moved rest ih => exact (advance_worked moved).2.2.2.trans ih

/-- Pulling where the sequence is over brings nothing and runs no state. -/
theorem Over.pull (h : scan.Over) (budget : Nat) :
    scan.pull scanner (budget + 1) = (.ended, scan) := by
  rw [Scan.pull, advance_ended_iff.mpr ⟨rfl, h⟩]

/-- Publishes letters, and drops the spaces between them. -/
def spaced : Scanner Unit := fun _ =>
  .ask .next fun first =>
    match first with
    | none => .ask (.emit .endOfInput) fun _ => .stop none
    | some ' ' => .ask .ignore fun _ => .stop (some ())
    | some _ => .ask .next fun _ => .ask .backup fun _ =>
      .ask (.emit ⟨"letter"⟩) fun _ => .stop (some ())

end Scan

end LanguageKit
