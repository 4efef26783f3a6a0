import LanguageKit.Handover
import LanguageKit.Proofs.ScanReading

/-!
# Every order of moves of a handover

A consumer wants a number of items: it takes what is offered until it has them or
the producer has stopped, and then it leaves. The producer works, offers, and is
refused once the consumer has left. The moves of the two sides may come in any
order, but whatever the order is, the pair makes the same number of moves and ends
in the same state: the consumer has the items that pulling brings, the producer
has run the states for at most one more, and both have stopped.
-/

namespace LanguageKit

open Scan

variable {σ : Type}

namespace Consumer

/-- How many moves the consumer has still to make when it takes nothing more. -/
def movesLeft : Consumer → Nat
  | reading => 2
  | leaving => 1
  | joined => 0

/-- Whether the consumer may be in this state while the producer has not stopped and
a number of items is still wanted: it leaves only when it wants no more. -/
def MayWant (room : Nat) : Consumer → Prop
  | reading => True
  | leaving => room = 0
  | joined => False

end Consumer

namespace Handover

/-- A move of a pair whose consumer wants a number of items. -/
inductive Move (scanner : Scanner σ) (count : Nat) (pair next : Handover σ) : Prop where
  /-- The producer works. -/
  | work (moved : pair.work? scanner = some next)
  /-- The consumer takes an item, because it does not have all it wants. -/
  | take (wanted : pair.received.size < count) {item : Item}
      (moved : pair.take? = some (item, next))
  /-- The producer finds that the consumer has left. -/
  | refuse (moved : pair.refuse? = some next)
  /-- The consumer leaves, because it has all it wants or nothing more will come. -/
  | leave (satisfied : pair.received.size = count ∨ pair.producer.isGone = true)
      (moved : pair.leave? = some next)
  /-- The consumer sees that the producer has stopped. -/
  | join (moved : pair.join? = some next)

/-- A number of moves, one after the other, in any order that is possible. -/
inductive Moves (scanner : Scanner σ) (count : Nat) (first : Handover σ) :
    Nat → Handover σ → Prop where
  /-- No move. -/
  | none : Moves scanner count first 0 first
  /-- Moves and one more. -/
  | snoc {steps : Nat} {pair next : Handover σ} (before : Moves scanner count first steps pair)
      (move : Move scanner count pair next) : Moves scanner count first (steps + 1) next

/-- What the producer says at its end. -/
def verdict (count : Nat) (ahead : List Item) : Event :=
  if ahead.length ≤ count then .producerFinished else .producerRefused

/-- The state in which a pair has stopped whose consumer wanted a number of items. -/
def settled (count : Nat) (ahead : List Item) (last : Scan σ) : Handover σ :=
  ⟨last, .stopped, .joined, (ahead.take count).toArray,
    #[.producerStarted, verdict count ahead, .producerJoined]⟩

/-- What is ahead of a pair, and how many moves it will make: the items taken and
those still to be read are those that pulling brings, and a consumer that has left
wants no more. -/
inductive Outlook (scanner : Scanner σ) (count : Nat) (ahead : List Item) (last : Scan σ)
    (left : Nat) : Handover σ → Prop where
  /-- The producer works. -/
  | working {room : Nat} {scan : Scan σ} {work : List (List Lexer.Request)} {rest : List Item}
      {consumer : Consumer} {received : Array Item}
      (reads : Reads scanner (room + 1) scan work rest last)
      (wanted : received.size + room = count) (side : consumer.MayWant room)
      (items : ahead = received.toList ++ rest)
      (moves : left = work.length + rest.length + min room rest.length + 1 + consumer.movesLeft) :
      Outlook scanner count ahead last left
        ⟨scan, .working, consumer, received, #[.producerStarted]⟩
  /-- An item is offered. -/
  | offering {room : Nat} {scan : Scan σ} {work : List (List Lexer.Request)} {item : Item}
      {rest : List Item} {consumer : Consumer} {received : Array Item}
      (reads : Reads scanner room scan work rest last)
      (wanted : received.size + room = count) (side : consumer.MayWant room)
      (items : ahead = received.toList ++ item :: rest)
      (moves : left =
        work.length + rest.length + min room (rest.length + 1) + 1 + consumer.movesLeft) :
      Outlook scanner count ahead last left
        ⟨scan, .offering item, consumer, received, #[.producerStarted]⟩
  /-- The producer has stopped. -/
  | stopped {consumer : Consumer} {received : Array Item} (side : consumer ≠ .joined)
      (items : received.toList = ahead.take count) (moves : left = consumer.movesLeft) :
      Outlook scanner count ahead last left
        ⟨last, .stopped, consumer, received, #[.producerStarted, verdict count ahead]⟩
  /-- Both sides have stopped. -/
  | joined (moves : left = 0) : Outlook scanner count ahead last left (settled count ahead last)

variable {scanner : Scanner σ} {count left : Nat} {ahead : List Item} {last : Scan σ}
  {pair next : Handover σ}

/-- A pair that begins has all items ahead. -/
theorem outlook_start {scan : Scan σ} {work : List (List Lexer.Request)}
    (h : Reads scanner (count + 1) scan work ahead last) :
    Outlook scanner count ahead last (work.length + ahead.length + min count ahead.length + 3)
      (start scan) :=
  .working h (Nat.zero_add count) trivial rfl rfl

/-- When the producer works, one of the moves ahead is made. -/
theorem Outlook.work (h : Outlook scanner count ahead last left pair)
    (moved : pair.work? scanner = some next) :
    ∃ fewer, left = fewer + 1 ∧ Outlook scanner count ahead last fewer next := by
  cases h with
  | offering | stopped | joined => cases moved
  | @working room scan work rest consumer received reads wanted side items moves =>
    unfold work? at moved
    cases reads with
    | ended ended =>
      obtain ⟨rfl, -⟩ := advance_ended_iff.mp ended
      rw [ended] at moved
      obtain rfl := Option.some.inj moved
      rw [List.append_nil] at items
      have hsize : ahead.length ≤ count := by
        rw [items, Array.length_toList]
        omega
      have hside : consumer ≠ .joined := by
        rintro rfl
        exact side
      have hverdict : verdict count ahead = .producerFinished := if_pos hsize
      refine ⟨consumer.movesLeft, ?_, ?_⟩
      · rw [moves]
        simp only [List.length_nil]
        omega
      · rw [← hverdict]
        exact .stopped hside (by rw [List.take_of_length_le hsize, items]) rfl
    | item found rest =>
      rw [found] at moved
      obtain rfl := Option.some.inj moved
      refine ⟨_, ?_, .offering rest wanted side items rfl⟩
      rw [moves]
      simp only [List.length_cons]
      omega
    | worked worked rest =>
      rw [worked] at moved
      obtain rfl := Option.some.inj moved
      refine ⟨_, ?_, .working rest wanted side items rfl⟩
      rw [moves]
      simp only [List.length_cons]
      omega

/-- When the consumer takes an item it wants, one of the moves ahead is made. -/
theorem Outlook.take (h : Outlook scanner count ahead last left pair)
    (hwanted : pair.received.size < count) {item : Item} (moved : pair.take? = some (item, next)) :
    ∃ fewer, left = fewer + 1 ∧ Outlook scanner count ahead last fewer next := by
  cases h with
  | working | stopped | joined => cases moved
  | @offering room scan work offered rest consumer received reads wanted side items moves =>
    cases consumer with
    | leaving | joined => cases moved
    | reading =>
      cases moved
      obtain ⟨room, rfl⟩ : ∃ fewer, room = fewer + 1 := ⟨room - 1, by dsimp only at hwanted; omega⟩
      have hsize : (received.push item).size + room = count := by
        rw [Array.size_push]
        omega
      refine ⟨_, ?_, .working reads hsize trivial (by simpa using items) rfl⟩
      rw [moves]
      simp only [Consumer.movesLeft]
      omega

/-- When the producer finds that the consumer has left, one of the moves ahead is
made. -/
theorem Outlook.refuse (h : Outlook scanner count ahead last left pair)
    (moved : pair.refuse? = some next) :
    ∃ fewer, left = fewer + 1 ∧ Outlook scanner count ahead last fewer next := by
  cases h with
  | working | stopped | joined => cases moved
  | @offering room scan work offered rest consumer received reads wanted side items moves =>
    cases consumer with
    | reading | joined => cases moved
    | leaving =>
      obtain rfl := Option.some.inj moved
      obtain rfl : room = 0 := side
      cases reads
      have htaken : received.toList = ahead.take count := by
        rw [items, ← wanted, Nat.add_zero, ← Array.length_toList, List.take_left]
      have hlength : ¬ ahead.length ≤ count := by
        rw [items, List.length_append, Array.length_toList, List.length_singleton]
        omega
      have hverdict : verdict count ahead = .producerRefused := if_neg hlength
      refine ⟨1, moves, ?_⟩
      rw [← hverdict]
      exact .stopped nofun htaken rfl

/-- When a consumer leaves that has what it wants, one of the moves ahead is made. -/
theorem Outlook.leave (h : Outlook scanner count ahead last left pair)
    (satisfied : pair.received.size = count ∨ pair.producer.isGone = true)
    (moved : pair.leave? = some next) :
    ∃ fewer, left = fewer + 1 ∧ Outlook scanner count ahead last fewer next := by
  cases h with
  | joined => cases moved
  | @working room scan work rest consumer received reads wanted side items moves =>
    cases consumer with
    | leaving | joined => cases moved
    | reading =>
      obtain rfl := Option.some.inj moved
      have hsize : received.size = count := by simpa [Producer.isGone] using satisfied
      have hroom : room = 0 := by omega
      exact ⟨_, moves, .working reads wanted hroom items rfl⟩
  | @offering room scan work offered rest consumer received reads wanted side items moves =>
    cases consumer with
    | leaving | joined => cases moved
    | reading =>
      obtain rfl := Option.some.inj moved
      have hsize : received.size = count := by simpa [Producer.isGone] using satisfied
      have hroom : room = 0 := by omega
      exact ⟨_, moves, .offering reads wanted hroom items rfl⟩
  | @stopped consumer received side items moves =>
    cases consumer with
    | leaving | joined => cases moved
    | reading =>
      obtain rfl := Option.some.inj moved
      exact ⟨1, moves, .stopped nofun items rfl⟩

/-- When the consumer sees that the producer has stopped, the last of the moves ahead
is made. -/
theorem Outlook.join (h : Outlook scanner count ahead last left pair)
    (moved : pair.join? = some next) :
    ∃ fewer, left = fewer + 1 ∧ Outlook scanner count ahead last fewer next := by
  cases h with
  | working | offering | joined => cases moved
  | @stopped consumer received side items moves =>
    cases consumer with
    | reading | joined => cases moved
    | leaving =>
      obtain rfl := Option.some.inj moved
      have hreceived : received = (ahead.take count).toArray := by
        rw [← items, Array.toArray_toList]
      subst hreceived
      exact ⟨0, moves, .joined rfl⟩

/-- Whatever move is made, it is one of those ahead. -/
theorem Outlook.move (h : Outlook scanner count ahead last left pair)
    (move : Move scanner count pair next) :
    ∃ fewer, left = fewer + 1 ∧ Outlook scanner count ahead last fewer next := by
  cases move with
  | work moved => exact h.work moved
  | take wanted moved => exact h.take wanted moved
  | refuse moved => exact h.refuse moved
  | leave satisfied moved => exact h.leave satisfied moved
  | join moved => exact h.join moved

/-- A producer that works can go on. -/
theorem Outlook.not_working (h : Outlook scanner count ahead last left pair)
    (hidle : pair.work? scanner = none) : pair.producer ≠ .working := by
  cases h with
  | offering | stopped | joined => nofun
  | working reads =>
    unfold work? at hidle
    cases reads with
    | ended moved | item moved | worked moved =>
      rw [moved] at hidle
      cases hidle

/-- Until both sides have stopped there is a move. -/
theorem Outlook.exists_move (h : Outlook scanner count ahead last left pair) :
    (∃ next, Move scanner count pair next) ∨ left = 0 ∧ pair = settled count ahead last := by
  cases hwork : pair.work? scanner with
  | some next => exact Or.inl ⟨next, .work hwork⟩
  | none =>
    have hidle := h.not_working hwork
    cases h with
    | working => exact absurd rfl hidle
    | joined moves => exact Or.inr ⟨moves, rfl⟩
    | @offering room scan work offered rest consumer received reads wanted side items moves =>
      left
      cases consumer with
      | joined => exact side.elim
      | leaving => exact ⟨_, .refuse rfl⟩
      | reading =>
        by_cases hsize : received.size < count
        · exact ⟨_, .take hsize rfl⟩
        · have hall : received.size = count := by omega
          exact ⟨_, .leave (Or.inl hall) rfl⟩
    | @stopped consumer received side items moves =>
      left
      cases consumer with
      | joined => exact absurd rfl side
      | reading => exact ⟨_, .leave (Or.inr rfl) rfl⟩
      | leaving => exact ⟨_, .join rfl⟩

/-- Moves one after the other are among those ahead. -/
theorem Outlook.moves {first : Handover σ} (h : Outlook scanner count ahead last left first)
    {steps : Nat} (moves : Moves scanner count first steps pair) :
    ∃ fewer, left = fewer + steps ∧ Outlook scanner count ahead last fewer pair := by
  induction moves with
  | none => exact ⟨left, rfl, h⟩
  | snoc before move ih =>
    obtain ⟨more, hmore, houtlook⟩ := ih
    obtain ⟨fewer, hfewer, hnext⟩ := houtlook.move move
    exact ⟨fewer, by omega, hnext⟩

/-- The items taken are the first of those that are wanted, in their order. -/
theorem Outlook.received_prefix (h : Outlook scanner count ahead last left pair) :
    pair.received.toList <+: ahead.take count := by
  cases h with
  | stopped side items => exact items ▸ List.prefix_rfl
  | joined => exact List.prefix_rfl
  | @working room _ _ rest _ received _ wanted _ items =>
    rw [items, ← wanted, ← Array.length_toList, List.take_length_add_append]
    exact List.prefix_append _ _
  | @offering room _ _ _ rest _ received _ wanted _ items =>
    rw [items, ← wanted, ← Array.length_toList, List.take_length_add_append]
    exact List.prefix_append _ _

/-- The producer runs no state beyond those that pulling runs. -/
theorem Outlook.ran_prefix (h : Outlook scanner count ahead last left pair) :
    pair.scan.ran.toList <+: last.ran.toList := by
  cases h with
  | stopped | joined => exact List.prefix_rfl
  | working reads => exact reads.ran_prefix
  | offering reads => exact reads.ran_prefix

/-- The work of the producer is no concern of the consumer. -/
theorem consumer_of_work (moved : pair.work? scanner = some next) :
    next.consumer = pair.consumer ∧ next.received = pair.received := by
  unfold work? at moved
  split at moved
  · split at moved <;> obtain rfl := Option.some.inj moved <;> exact ⟨rfl, rfl⟩
  · cases moved

/-- With a budget for all moves ahead, the producer works until it offers an item or
has stopped. -/
theorem Outlook.settle (h : Outlook scanner count ahead last left pair) {budget : Nat}
    (hbudget : left ≤ budget) :
    ∃ fewer, fewer ≤ left ∧ Outlook scanner count ahead last fewer (pair.settle scanner budget) ∧
      (pair.settle scanner budget).producer ≠ .working ∧
      (pair.settle scanner budget).consumer = pair.consumer ∧
      (pair.settle scanner budget).received = pair.received := by
  induction budget generalizing pair left with
  | zero =>
    have hidle : pair.producer ≠ .working := by
      cases h with
      | working _ _ _ _ moves => omega
      | offering | stopped | joined => nofun
    exact ⟨left, Nat.le_refl _, h, hidle, rfl, rfl⟩
  | succ budget ih =>
    rw [Handover.settle]
    cases hwork : pair.work? scanner with
    | none => exact ⟨left, Nat.le_refl _, h, h.not_working hwork, rfl, rfl⟩
    | some next =>
      obtain ⟨fewer, rfl, hnext⟩ := h.work hwork
      obtain ⟨hconsumer, hreceived⟩ := consumer_of_work hwork
      obtain ⟨least, hleast, houtlook, hidle, hside, hitems⟩ :=
        ih hnext (Nat.le_of_succ_le_succ hbudget)
      exact ⟨least, by omega, houtlook, hidle, hside.trans hconsumer, hitems.trans hreceived⟩

/-- With a budget for all moves ahead, a consumer that reads on gets all it wants or
sees that the producer has stopped. -/
theorem Outlook.receiveUpTo (h : Outlook scanner count ahead last left pair) {budget : Nat}
    (hbudget : left ≤ budget) (hreading : pair.consumer = .reading) {room : Nat}
    (hroom : pair.received.size + room = count) :
    ∃ fewer, fewer ≤ left ∧
      Outlook scanner count ahead last fewer (pair.receiveUpTo scanner budget room) ∧
      (pair.receiveUpTo scanner budget room).consumer = .reading ∧
      ((pair.receiveUpTo scanner budget room).received.size = count ∨
        (pair.receiveUpTo scanner budget room).producer.isGone = true) := by
  induction room generalizing pair left with
  | zero => exact ⟨left, Nat.le_refl _, h, hreading, Or.inl hroom⟩
  | succ room ih =>
    obtain ⟨fewer, hfewer, hready, hidle, hside, hitems⟩ := h.settle hbudget
    rw [Handover.receiveUpTo, receive]
    rw [← hside] at hreading
    rw [← hitems] at hroom
    generalize pair.settle scanner budget = ready at hready hidle hreading hroom
    cases htake : ready.take? with
    | none =>
      refine ⟨fewer, hfewer, hready, hreading, ?_⟩
      cases hready with
      | working => exact absurd rfl hidle
      | offering =>
        obtain rfl := hreading
        cases htake
      | stopped | joined => exact Or.inr rfl
    | some taken =>
      obtain ⟨item, next⟩ := taken
      obtain ⟨least, rfl, hnext⟩ := hready.take (by omega) htake
      have hwanted : next.consumer = .reading ∧ next.received.size + room = count := by
        unfold take? at htake
        split at htake
        · cases htake
          exact ⟨hreading, by rw [Array.size_push]; omega⟩
        · cases htake
      obtain ⟨final, hfinal, hlast⟩ := ih hnext (by omega) hwanted.1 hwanted.2
      exact ⟨final, by omega, hlast⟩

/-- A consumer that has seen the producer stop belongs to a settled pair. -/
theorem Outlook.eq_settled (h : Outlook scanner count ahead last left pair)
    (hjoined : pair.consumer = .joined) : pair = settled count ahead last := by
  cases h with
  | joined => rfl
  | working _ _ side | offering _ _ side =>
    obtain rfl := hjoined
    exact side.elim
  | stopped side => exact absurd hjoined side

/-- When the producer of a consumer that has left works no more, it is refused if it
still offers an item, and then the pair is settled. -/
theorem Outlook.settled_of_leaving (h : Outlook scanner count ahead last left pair)
    (hidle : pair.producer ≠ .working) (hleaving : pair.consumer = .leaving) :
    (pair.refuse?.getD pair).join?.getD (pair.refuse?.getD pair) = settled count ahead last := by
  cases h with
  | working => exact absurd rfl hidle
  | joined => cases hleaving
  | stopped side items =>
    obtain rfl := hleaving
    rw [settled, ← items, Array.toArray_toList]
    rfl
  | offering reads wanted side items moves =>
    obtain rfl := hleaving
    obtain ⟨_, _, hrefused⟩ := (Outlook.offering reads wanted side items moves).refuse rfl
    obtain ⟨_, _, hend⟩ := hrefused.join rfl
    exact hend.eq_settled rfl

/-- With a budget for all moves ahead, a consumer that closes settles the pair. -/
theorem Outlook.close (h : Outlook scanner count ahead last left pair) {budget : Nat}
    (hbudget : left ≤ budget) (hreading : pair.consumer = .reading)
    (satisfied : pair.received.size = count ∨ pair.producer.isGone = true) :
    pair.close scanner budget = settled count ahead last := by
  have hleave : pair.leave? = some { pair with consumer := .leaving } := by
    unfold leave?
    rw [hreading]
  obtain ⟨fewer, rfl, hleft⟩ := h.leave satisfied hleave
  obtain ⟨least, -, hready, hidle, hside, -⟩ := hleft.settle (Nat.le_of_succ_le hbudget)
  unfold Handover.close
  rw [hleave]
  exact hready.settled_of_leaving hidle hside

/-- Reading what is wanted and then closing is one of the orders: with a budget that
suffices it settles the pair. -/
theorem exists_close_receiveUpTo {scan : Scan σ}
    (hpulls : Pulls scanner (count + 1) scan ahead last) :
    ∃ enough, ∀ budget, enough ≤ budget →
      ((start scan).receiveUpTo scanner budget count).close scanner budget =
        settled count ahead last := by
  obtain ⟨work, hreads⟩ := hpulls.reads
  refine ⟨work.length + ahead.length + min count ahead.length + 3, fun budget hbudget => ?_⟩
  obtain ⟨fewer, hfewer, houtlook, hreading, satisfied⟩ :=
    (outlook_start hreads).receiveUpTo hbudget rfl (Nat.zero_add count)
  exact houtlook.close (Nat.le_trans hfewer hbudget) hreading satisfied

/-- A consumer wants a number of items, and pulling that number of times and once more
brings items. Then every order of moves has the same length, takes a front of the
wanted items at every moment, runs no state beyond those that pulling runs, and goes
on until the pair is settled: both sides have stopped, the consumer has the wanted
items, the states are those that pulling has run, and the producer has been refused
exactly when there are more items than are wanted. -/
theorem every_order_settles {text : String} {state : σ}
    (hpulls : Pulls scanner (count + 1) (ofText text state) ahead last) :
    (∀ whole final, Yields scanner (ofText text state) whole final →
      ahead = whole.take (count + 1)) ∧
      (ahead.length ≤ count → Yields scanner (ofText text state) ahead last) ∧
      ∃ length, ∀ steps pair, Moves scanner count (start (ofText text state)) steps pair →
        steps ≤ length ∧
          pair.received.toList <+: ahead.take count ∧
          pair.scan.ran.toList <+: last.ran.toList ∧
          ((∃ next, Move scanner count pair next) ∨
            steps = length ∧ pair = settled count ahead last) := by
  obtain ⟨work, hreads⟩ := hpulls.reads
  refine ⟨fun whole final hwhole => hpulls.eq_take hwhole,
    fun hshort => hpulls.yields (Nat.lt_succ_of_le hshort),
    work.length + ahead.length + min count ahead.length + 3, fun steps pair moves => ?_⟩
  obtain ⟨fewer, hlength, houtlook⟩ := (outlook_start hreads).moves moves
  refine ⟨by omega, houtlook.received_prefix, houtlook.ran_prefix, ?_⟩
  rcases houtlook.exists_move with hmove | ⟨hdone, hsettled⟩
  · exact Or.inl hmove
  · exact Or.inr ⟨by omega, hsettled⟩

/-- A consumer that wants one item of three gets it in every order of moves, and the
producer is refused in the end. -/
theorem every_order_settles_spaced :
    ∃ length, ∀ steps pair, Moves spaced 1 (start (ofText "ab" ())) steps pair →
      steps ≤ length ∧
        ((∃ next, Move spaced 1 pair next) ∨
          pair.received = #[⟨⟨"letter"⟩, "a", ⟨0, 1⟩⟩] ∧
            pair.log = #[.producerStarted, .producerRefused, .producerJoined]) := by
  have hpulls : Pulls spaced 2 (ofText "ab" ())
      [⟨⟨"letter"⟩, "a", ⟨0, 1⟩⟩, ⟨⟨"letter"⟩, "b", ⟨1, 2⟩⟩] _ :=
    .item (rfl : pull spaced 2 _ = _) (.item (rfl : pull spaced 2 _ = _) (.enough _))
  obtain ⟨-, -, length, hruns⟩ := every_order_settles hpulls
  refine ⟨length, fun steps pair moves => ?_⟩
  obtain ⟨hsteps, -, -, hmove | ⟨-, rfl⟩⟩ := hruns steps pair moves
  · exact ⟨hsteps, Or.inl hmove⟩
  · exact ⟨hsteps, Or.inr ⟨rfl, rfl⟩⟩

end Handover

end LanguageKit
