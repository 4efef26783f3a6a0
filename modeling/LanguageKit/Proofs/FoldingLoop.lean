import LanguageKit.Proofs.RemainingItems

/-!
# What the folding loop consumes

Before each round, the loop that goes on with an expression looks at the next item. It is to
take the item only if the item is an operator that binds more tightly than the minimum, and to
stop in front of it otherwise. The loop asks for a binding power, which is zero where there is
no rule, so that below zero it takes items without a rule for operators, too.

The items may come from any source.
-/

namespace LanguageKit.Parser

variable {σ ε : Type}

/-- The parser after its first item that was read in advance has been consumed. -/
def withoutFirst (parser : Parser σ ε) (item : Item) : Parser σ ε :=
  { parser with buffer := parser.buffer.tail }.record (.consumed item)

/-- The item is an operator that binds more tightly than a minimum. -/
def Binds (parser : Parser σ ε) (minimum : Int32) (item : Item) : Prop :=
  ∃ rule, parser.infixes.find? item.token = some rule ∧ minimum < rule.power

variable {parser looked : Parser σ ε} {item : Item}

/-- A minimum lies below the power of an item exactly if the item binds more tightly, or if it
has no rule and the minimum lies below zero. -/
theorem lt_power_iff {minimum : Int32} :
    minimum < (looked.infixPower? item.token).getD 0 ↔
      looked.Binds minimum item ∨
        looked.infixes.find? item.token = none ∧ minimum < 0 := by
  unfold infixPower? Binds
  cases looked.infixes.find? item.token <;> simp

variable [ItemSource σ]

section Shown

/-- Reading an item touches neither the items read in advance nor the rules. -/
theorem pull_keeps (parser : Parser σ ε) :
    (pull.run.run parser).2.buffer = parser.buffer ∧
      (pull.run.run parser).2.prefixes = parser.prefixes ∧
      (pull.run.run parser).2.infixes = parser.infixes := by
  unfold pull
  rw [(get_answers parser).run_bind]
  dsimp only
  cases (ItemSource.read parser.source).1 <;> exact ⟨rfl, rfl, rfl⟩

/-- An item that was read in advance is shown, and nothing else happens. -/
theorem lookAhead_of_cons {rest : List Item} (h : parser.buffer = item :: rest) :
    Answers (lookAhead 0) parser item parser := by
  have hnone : 0 + 1 - parser.buffer.length = 0 := by
    rw [h, List.length_cons]
    omega
  refine (get_answers parser).bind ?_
  rw [hnone]
  have hfill : Answers (fill 0) parser () parser := rfl
  refine hfill.bind ((get_answers parser).bind ?_)
  rw [h]
  rfl

/-- Where nothing was read in advance, one item is read and shown. -/
theorem lookAhead_of_nil (h : parser.buffer = []) :
    (lookAhead 0).run.run parser =
      match pull.run.run parser with
      | (.ok item, after) => (.ok item, { after with buffer := [item] })
      | (.error interruption, after) => (.error interruption, after) := by
  have hone : 0 + 1 - parser.buffer.length = 1 := by
    rw [h]
    rfl
  have hbuffer := (pull_keeps parser).1
  unfold lookAhead
  rw [(get_answers parser).run_bind, hone, fill, Parser.run_bind, Parser.run_bind]
  rw [h] at hbuffer
  generalize (pull : Parsing σ ε Item).run.run parser = ran at hbuffer
  obtain ⟨interruption | item, after⟩ := ran
  · rfl
  · dsimp only at hbuffer ⊢
    rw [(modify_answers _ after).run_bind, hbuffer]
    rfl

/-- The item that is shown is the first of those read in advance, and the rules are as they
were. -/
theorem shown (h : Answers (lookAhead 0) parser item looked) :
    (∃ rest, looked.buffer = item :: rest) ∧ looked.infixes = parser.infixes := by
  unfold Answers at h
  cases hbuffer : parser.buffer with
  | cons first rest =>
    have hfirst : (lookAhead 0).run.run parser = (.ok first, parser) := lookAhead_of_cons hbuffer
    rw [hfirst] at h
    cases h
    exact ⟨⟨rest, hbuffer⟩, rfl⟩
  | nil =>
    have hinfixes := (pull_keeps parser).2.2
    rw [lookAhead_of_nil hbuffer] at h
    generalize (pull : Parsing σ ε Item).run.run parser = ran at h hinfixes
    obtain ⟨interruption | first, after⟩ := ran
    · cases h
    · cases h
      exact ⟨⟨[], rfl⟩, hinfixes⟩

/-- An item that has been shown is shown again. -/
theorem lookAhead_again (h : Answers (lookAhead 0) parser item looked) :
    Answers (lookAhead 0) looked item looked := by
  obtain ⟨rest, hrest⟩ := (shown h).1
  exact lookAhead_of_cons hrest

/-- The binding power asked for is that of the item that is shown. -/
theorem precedence_shown (h : Answers (lookAhead 0) parser item looked) :
    Answers precedence parser ((looked.infixPower? item.token).getD 0) looked :=
  h.bind ((get_answers looked).bind rfl)

/-- A binding power that is answered is that of an item that is shown. -/
theorem exists_shown_of_precedence {power : Int32} (h : Answers precedence parser power looked) :
    ∃ item, Answers (lookAhead 0) parser item looked ∧
      power = (looked.infixPower? item.token).getD 0 := by
  obtain ⟨item, same, hlook, -⟩ := h.of_bind
  have hsame := (precedence_shown hlook).symm.trans h
  cases hsame
  exact ⟨item, hlook, rfl⟩

/-- An item that has been shown is consumed, and reported if it is a failure. -/
theorem run_advance (h : Answers (lookAhead 0) parser item looked) :
    advance.run.run looked =
      (if item.isFailure = true then .error (.rejected (.ofFailure item)) else .ok item,
        looked.withoutFirst item) := by
  obtain ⟨rest, hrest⟩ := (shown h).1
  have htake : Answers takeItem looked item { looked with buffer := rest } := by
    refine (get_answers looked).bind ?_
    rw [hrest]
    rfl
  unfold advance withoutFirst
  rw [htake.run_bind, (modify_answers _ _).run_bind, hrest]
  cases item.isFailure <;> rfl

end Shown

section Rounds

variable {expression : Int32 → Parsing σ ε ε} {playBudget : Nat} {minimum : Int32} {left : ε}

/-- Where an item is shown, the loop goes on with it or stops. -/
theorem run_climb (h : Answers (lookAhead 0) parser item looked) (budget : Nat) :
    (climb expression playBudget minimum (budget + 1) left).run.run parser =
      if minimum < (looked.infixPower? item.token).getD 0 then
        (extend expression playBudget left >>=
          climb expression playBudget minimum budget).run.run looked
      else (.ok left, looked) := by
  rw [climb, (precedence_shown h).run_bind]
  split <;> rfl

/-- An item that has been shown is consumed, and its rule does the rest. -/
theorem run_extend (h : Answers (lookAhead 0) parser item looked) :
    (extend expression playBudget left).run.run looked =
      if item.isFailure = true then
        (.error (.rejected (.ofFailure item)), looked.withoutFirst item)
      else
        match looked.infixes.find? item.token with
        | none => (.error (.rejected (unexpectedReport item)), looked.withoutFirst item)
        | some rule =>
          (play expression playBudget (rule.parselet left item)).run.run
            (looked.withoutFirst item) := by
  have hadvance := run_advance h
  have hinfixes : (looked.withoutFirst item).infixes = looked.infixes := rfl
  unfold extend
  rw [Parser.run_bind, hadvance]
  cases item.isFailure with
  | true => rfl
  | false =>
    simp only [Bool.false_eq_true, if_false]
    rw [(get_answers _).run_bind, hinfixes]
    cases looked.infixes.find? item.token <;> rfl

/-- Started with one left side, the loop comes to its test with another one. -/
inductive Reaches (expression : Int32 → Parsing σ ε ε) (playBudget : Nat) (minimum : Int32) :
    Parser σ ε → ε → Parser σ ε → ε → Prop where
  /-- It starts with its test. -/
  | start (parser : Parser σ ε) (left : ε) :
      Reaches expression playBudget minimum parser left parser left
  /-- The test is passed, and the expression has gone on once. -/
  | round {parser looked next tested : Parser σ ε} {left extended last : ε} {power : Int32}
      (htest : Answers precedence parser power looked) (hpasses : minimum < power)
      (hextend : Answers (extend expression playBudget left) looked extended next)
      (hrest : Reaches expression playBudget minimum next extended tested last) :
      Reaches expression playBudget minimum parser left tested last

/-- What the loop does from one test to the next: an operator that binds more tightly than the
minimum is consumed, and its parselet is carried out, unless it is a failure, which is reported.
In front of every other item the loop stops. -/
structure Disciplined (expression : Int32 → Parsing σ ε ε) (playBudget : Nat) (minimum : Int32)
    (parser : Parser σ ε) (left : ε) : Prop where
  /-- An operator is consumed, and its parselet is carried out. -/
  operator : ∀ item looked rule, Answers (lookAhead 0) parser item looked →
    looked.infixes.find? item.token = some rule → minimum < rule.power → ∀ budget,
      (climb expression playBudget minimum (budget + 1) left).run.run parser =
        if item.isFailure = true then
          (.error (.rejected (.ofFailure item)), looked.withoutFirst item)
        else
          (play expression playBudget (rule.parselet left item) >>=
            climb expression playBudget minimum budget).run.run (looked.withoutFirst item)
  /-- Everything else is left where it is. -/
  other : ∀ item looked, Answers (lookAhead 0) parser item looked →
    ¬ looked.Binds minimum item →
      (∀ budget, Answers (climb expression playBudget minimum (budget + 1) left) parser left
        looked) ∧ Answers (lookAhead 0) looked item looked
  /-- If the source brings no item, nothing is consumed. -/
  interrupted : ∀ interruption after,
    (lookAhead 0).run.run parser = (.error interruption, after) → ∀ budget,
      (climb expression playBudget minimum (budget + 1) left).run.run parser =
        (.error interruption, after)

/-- An operator that binds more tightly than the minimum is consumed. -/
theorem run_climb_of_operator (h : Answers (lookAhead 0) parser item looked) {rule : InfixRule ε}
    (hrule : looked.infixes.find? item.token = some rule) (hbinds : minimum < rule.power)
    (budget : Nat) :
    (climb expression playBudget minimum (budget + 1) left).run.run parser =
      if item.isFailure = true then
        (.error (.rejected (.ofFailure item)), looked.withoutFirst item)
      else
        (play expression playBudget (rule.parselet left item) >>=
          climb expression playBudget minimum budget).run.run (looked.withoutFirst item) := by
  rw [run_climb h, if_pos (lt_power_iff.mpr (.inl ⟨rule, hrule, hbinds⟩)), Parser.run_bind,
    run_extend h, hrule]
  by_cases hfailure : item.isFailure = true
  · rw [if_pos hfailure, if_pos hfailure]
  · rw [if_neg hfailure, if_neg hfailure, Parser.run_bind]

/-- The loop stops in front of an item that is not taken for an operator. -/
theorem climb_of_not_lt (h : Answers (lookAhead 0) parser item looked)
    (hstop : ¬ minimum < (looked.infixPower? item.token).getD 0) (budget : Nat) :
    Answers (climb expression playBudget minimum (budget + 1) left) parser left looked := by
  unfold Answers
  rw [run_climb h, if_neg hstop]

/-- Below zero an item without a rule is taken for an operator, and is reported once it has
been consumed. -/
theorem run_climb_of_none (h : Answers (lookAhead 0) parser item looked)
    (hnone : looked.infixes.find? item.token = none) (hbelow : minimum < 0) (budget : Nat) :
    (climb expression playBudget minimum (budget + 1) left).run.run parser =
      (.error (.rejected (if item.isFailure = true then .ofFailure item
        else unexpectedReport item)), looked.withoutFirst item) := by
  rw [run_climb h, if_pos (lt_power_iff.mpr (.inr ⟨hnone, hbelow⟩)), Parser.run_bind,
    run_extend h, hnone]
  cases item.isFailure <;> rfl

/-- The loop does not go on where its source brings no item. -/
theorem run_climb_of_interrupted {interruption : Interruption} {after : Parser σ ε}
    (h : (lookAhead 0).run.run parser = (.error interruption, after)) (budget : Nat) :
    (climb expression playBudget minimum (budget + 1) left).run.run parser =
      (.error interruption, after) := by
  rw [climb, Parser.run_bind, precedence, Parser.run_bind, h]

/-- The loop is disciplined at a test if it does not find an item without a rule there, with a
minimum below zero. -/
theorem disciplined_iff :
    Disciplined expression playBudget minimum parser left ↔
      (minimum < 0 → ∀ item looked, Answers (lookAhead 0) parser item looked →
        looked.infixes.find? item.token ≠ none) := by
  constructor
  · intro hdisciplined hbelow item looked hlook hnone
    have hother : ¬ looked.Binds minimum item := by
      rintro ⟨rule, hrule, -⟩
      rw [hnone] at hrule
      cases hrule
    have hstops := (hdisciplined.other item looked hlook hother).1 0
    unfold Answers at hstops
    rw [run_climb_of_none hlook hnone hbelow] at hstops
    cases hstops
  · intro h
    refine ⟨?_, fun item looked hlook hother => ⟨?_, lookAhead_again hlook⟩, ?_⟩
    · exact fun item looked rule hlook hrule hbinds budget =>
        run_climb_of_operator hlook hrule hbinds budget
    · refine climb_of_not_lt hlook fun hpower => ?_
      rcases lt_power_iff.mp hpower with hbinds | ⟨hnone, hbelow⟩
      · exact hother hbinds
      · exact h hbelow item looked hlook hnone
    · exact fun interruption after hcut budget => run_climb_of_interrupted hcut budget

/-- Where the loop answers, it has come to a test and stopped in front of an item that does not
bind more tightly. -/
theorem exists_reaches_of_climb {budget : Nat} {answer : ε} {after : Parser σ ε}
    (h : Answers (climb expression playBudget minimum budget left) parser answer after) :
    ∃ tested item, Reaches expression playBudget minimum parser left tested answer ∧
      Answers (lookAhead 0) tested item after ∧ ¬ after.Binds minimum item := by
  induction budget generalizing parser left with
  | zero => cases h
  | succ budget ih =>
    obtain ⟨power, looked, hpower, hrest⟩ := h.of_bind
    obtain ⟨item, hlook, rfl⟩ := exists_shown_of_precedence hpower
    by_cases hpasses : minimum < (looked.infixPower? item.token).getD 0
    · rw [if_pos hpasses] at hrest
      obtain ⟨extended, next, hextend, hclimb⟩ := hrest.of_bind
      obtain ⟨tested, item, hreaches, hstop⟩ := ih hclimb
      exact ⟨tested, item, .round hpower hpasses hextend hreaches, hstop⟩
    · rw [if_neg hpasses] at hrest
      cases hrest
      refine ⟨parser, item, .start _ _, hlook, fun hbinds => ?_⟩
      exact hpasses (lt_power_iff.mpr (.inl hbinds))

end Rounds

/-- The loop that goes on with an expression. Between any two of its tests it consumes an
operator that binds more tightly than the minimum and carries out its parselet, and it stops in
front of all else, exactly if the minimum is not below zero or every item it finds at a test
has a rule. Where it answers, it has stopped in front of an item that does not bind more
tightly. Where the minimum is below zero, an item without a rule is consumed and reported. -/
theorem disciplined_iff_nonneg_or_ruled (expression : Int32 → Parsing σ ε ε) (playBudget : Nat)
    (minimum : Int32) (parser : Parser σ ε) (left : ε) :
    ((∀ tested last, Reaches expression playBudget minimum parser left tested last →
        Disciplined expression playBudget minimum tested last) ↔
      0 ≤ minimum ∨ ∀ tested last item looked,
        Reaches expression playBudget minimum parser left tested last →
        Answers (lookAhead 0) tested item looked →
        looked.infixes.find? item.token ≠ none) ∧
    (∀ budget answer after,
      Answers (climb expression playBudget minimum budget left) parser answer after →
        ∃ tested item, Reaches expression playBudget minimum parser left tested answer ∧
          Answers (lookAhead 0) tested item after ∧ ¬ after.Binds minimum item ∧
          Answers (lookAhead 0) after item after) ∧
    (minimum < 0 → ∀ tested last item looked,
      Reaches expression playBudget minimum parser left tested last →
      Answers (lookAhead 0) tested item looked →
      looked.infixes.find? item.token = none → ∀ budget,
        (climb expression playBudget minimum (budget + 1) last).run.run tested =
          (.error (.rejected (if item.isFailure = true then .ofFailure item
            else unexpectedReport item)), looked.withoutFirst item)) := by
  refine ⟨⟨fun h => ?_, fun h tested last hreaches => ?_⟩, ?_, ?_⟩
  · by_cases hsign : 0 ≤ minimum
    · exact .inl hsign
    · exact .inr fun tested last item looked hreaches =>
        disciplined_iff.mp (h tested last hreaches) (Int32.not_le.mp hsign) item looked
  · refine disciplined_iff.mpr fun hbelow item looked hlook => ?_
    exact h.resolve_left (Int32.not_le.mpr hbelow) tested last item looked hreaches hlook
  · intro budget answer after hanswer
    obtain ⟨tested, item, hreaches, hlook, hstop⟩ := exists_reaches_of_climb hanswer
    exact ⟨tested, item, hreaches, hlook, hstop, lookAhead_again hlook⟩
  · exact fun hbelow tested last item looked _ hlook hnone budget =>
      run_climb_of_none hlook hnone hbelow budget

/-- A parser of two tokens, of which the first is an expression. -/
def twoTokens : Parser (List Item) Nat :=
  (ofTokens [⟨"a"⟩, ⟨"b"⟩]).registerPrefix ⟨"a"⟩ fun _ => .accept 0

/-- With a minimum below zero, the second token is consumed behind the expression, although it
has no rule, and is reported. -/
theorem not_disciplined_twoTokens :
    ((parseExpression 2 (-1)).run.run twoTokens).1 =
        .error (.rejected (unexpectedReport (.bare ⟨"b"⟩))) ∧
      ((parseExpression 2 (-1)).run.run twoTokens).2.upcoming = [] ∧
      ∃ behind, Answers (begin (parseExpression 1) 1) twoTokens 0 behind ∧
        ¬ ∀ tested last, Reaches (parseExpression 1) 1 (-1) behind 0 tested last →
          Disciplined (parseExpression 1) 1 (-1) tested last := by
  refine ⟨rfl, rfl, _, rfl, fun h => ?_⟩
  exact disciplined_iff.mp (h _ _ (.start _ _)) (by decide) (.bare ⟨"b"⟩) _ rfl rfl

end LanguageKit.Parser
