import LanguageKit.Proofs.Budgets
import LanguageKit.Proofs.FoldingLoop

/-!
# Climbing in two parts

An expression with a minimum is an expression with a larger minimum that then goes on with the
smaller one. The two loops test the same tokens: the first stops where the second takes over,
and a token that has been looked at is looked at again.
-/

namespace LanguageKit.Parser

variable {σ ε α : Type} [ItemSource σ]

section Loops

variable {expression : Int32 → Parsing σ ε ε} {playBudget : Nat} {small large : Int32}

/-- The test of the loop is the same at a token that has been looked at. -/
theorem run_climb_again {parser looked : Parser σ ε} {item : Item}
    (h : Answers (lookAhead 0) parser item looked) (budget : Nat) (left : ε) :
    (climb expression playBudget small (budget + 1) left).run.run parser =
      (climb expression playBudget small (budget + 1) left).run.run looked := by
  rw [run_climb h, run_climb (lookAhead_again h)]

/-- A loop that goes on with an operator does so in front of what follows. -/
theorem run_climb_bind {parser looked : Parser σ ε} {item : Item}
    (h : Answers (lookAhead 0) parser item looked)
    (hpasses : large < (looked.infixPower? item.token).getD 0) (budget : Nat) (left : ε)
    (next : ε → Parsing σ ε α) :
    (climb expression playBudget large (budget + 1) left >>= next).run.run parser =
      (extend expression playBudget left >>= fun extended =>
        climb expression playBudget large budget extended >>= next).run.run looked := by
  rw [run_bind, run_climb h, if_pos hpasses, ← bind_assoc, Parser.run_bind _ next]

/-- A loop brings the same with more rounds. -/
theorem agrees_climb_rounds {rounds more : Nat} (h : rounds ≤ more) (minimum : Int32) (left : ε) :
    Agrees Eq (climb (σ := σ) expression playBudget minimum rounds left)
      (climb expression playBudget minimum more left) :=
  corresponds_eq.agrees_climb (fun _ => agrees_refl _) (Nat.le_refl _) minimum h left

/-- A loop is one with a larger minimum, and then itself. -/
theorem agrees_climb_parts (h : small ≤ large) (rounds : Nat) (left : ε) :
    Agrees Eq (climb expression playBudget small rounds left)
      (climb expression playBudget large rounds left >>=
        climb expression playBudget small rounds) := by
  induction rounds generalizing left with
  | zero => exact agrees_exhausted _
  | succ rounds ih =>
    rintro parser _ rfl
    cases hlook : (lookAhead 0).run.run parser with
    | mk result looked =>
      cases result with
      | error interruption =>
        rw [run_bind, run_climb_of_interrupted hlook, run_climb_of_interrupted hlook]
        exact .inr ⟨rfl, rfl⟩
      | ok item =>
        by_cases hpasses : large < (looked.infixPower? item.token).getD 0
        · -- both loops go on with the same operator
          have hround : Agrees Eq
              (extend expression playBudget left >>= climb expression playBudget small rounds)
              (extend expression playBudget left >>= fun extended =>
                climb expression playBudget large rounds extended >>=
                  climb expression playBudget small (rounds + 1)) :=
            (agrees_refl _).bind fun extended => (ih extended).trans
              ((agrees_refl _).bind fun _ => agrees_climb_rounds (Nat.le_succ rounds) small _)
          rw [run_climb_bind hlook hpasses, run_climb hlook,
            if_pos (Int32.lt_of_le_of_lt h hpasses)]
          exact hround rfl
        · -- the first loop stops, and the second one makes its test again
          rw [(climb_of_not_lt hlook hpasses rounds).run_bind, run_climb_again hlook]
          exact .inr ⟨rfl, rfl⟩

/-- A loop with a larger minimum and then one with a smaller one are the latter. -/
theorem agrees_climb_whole (h : small ≤ large) (rounds more : Nat) (left : ε) :
    Agrees Eq
      (climb expression playBudget large rounds left >>= climb expression playBudget small more)
      (climb expression playBudget small (rounds + more) left) := by
  induction rounds generalizing left with
  | zero => exact fun _ _ _ => .inl rfl
  | succ rounds ih =>
    rintro parser _ rfl
    rw [Nat.succ_add]
    cases hlook : (lookAhead 0).run.run parser with
    | mk result looked =>
      cases result with
      | error interruption =>
        rw [run_bind, run_climb_of_interrupted hlook, run_climb_of_interrupted hlook]
        exact .inr ⟨rfl, rfl⟩
      | ok item =>
        by_cases hpasses : large < (looked.infixPower? item.token).getD 0
        · rw [run_climb_bind hlook hpasses, run_climb hlook,
            if_pos (Int32.lt_of_le_of_lt h hpasses)]
          exact (agrees_refl (extend expression playBudget left)).bind ih rfl
        · rw [(climb_of_not_lt hlook hpasses rounds).run_bind, run_climb_again hlook]
          exact agrees_climb_rounds (by omega) small left rfl

end Loops

/-- Goes on with an expression whose left side has been read, with one budget for all. -/
def goOn (minimum : Int32) (budget : Nat) (left : ε) : Parsing σ ε ε :=
  climb (parseExpression budget) budget minimum budget left

section Parts

variable {small large : Int32}

/-- An expression with a small minimum is one with a large minimum that goes on. -/
theorem agrees_parts (h : small ≤ large) (budget : Nat) :
    Agrees Eq (parseExpression (σ := σ) (ε := ε) budget small)
      (parseExpression budget large >>= goOn small budget) := by
  cases budget with
  | zero => exact agrees_exhausted _
  | succ budget =>
    have hmore := Nat.le_succ budget
    rw [parseExpression, parseExpression, bind_assoc]
    refine (agrees_refl _).bind fun left => (agrees_climb_parts h (budget + 1) left).trans ?_
    refine (agrees_refl _).bind fun extended => ?_
    exact corresponds_eq.agrees_climb (corresponds_eq.agrees_parseExpression hmore) hmore small
      (Nat.le_refl _) extended

/-- An expression with a large minimum that goes on is one with a small minimum. -/
theorem agrees_whole (h : small ≤ large) (budget : Nat) :
    Agrees Eq (parseExpression (σ := σ) (ε := ε) budget large >>= goOn small budget)
      (parseExpression (budget + budget) small) := by
  cases budget with
  | zero => exact fun _ _ _ => .inl rfl
  | succ budget =>
    have hmore : budget ≤ budget + 1 + budget := by omega
    have hnext : budget + 1 ≤ budget + 1 + budget := Nat.le_add_right ..
    have hall := corresponds_eq.agrees_parseExpression (σ := σ) (ε := ε) hmore
    rw [parseExpression, ← Nat.add_assoc, parseExpression, bind_assoc]
    refine (corresponds_eq.agrees_begin hall hmore).bind fun left => ?_
    refine Agrees.trans ?_ (agrees_climb_whole h (budget + 1) (budget + 1) left)
    have hlarge := corresponds_eq.agrees_climb hall hmore large (Nat.le_refl (budget + 1)) left
    refine hlarge.bind fun extended => ?_
    exact corresponds_eq.agrees_climb (corresponds_eq.agrees_parseExpression hnext) hnext small
      (Nat.le_refl _) extended

end Parts

section Recording

/-- The items a parser has recorded to be consumed, oldest first. -/
def consumed (parser : Parser σ ε) : List Item :=
  parser.log.toList.filterMap fun
    | .consumed item => some item
    | _ => none

/-- A parser is related to itself while it keeps what was recorded at the start. -/
def Keeps (start : List Event) (parser twin : Parser σ ε) : Prop :=
  twin = parser ∧ start <+: parser.log.toList

/-- Reading an item records behind what has been recorded. -/
theorem log_pull (parser : Parser σ ε) :
    parser.log.toList <+: (pull.run.run parser).2.log.toList := by
  unfold pull
  rw [(get_answers parser).run_bind]
  dsimp only
  have hlog : parser.log.toList <+: (parser.log ++
      (ItemSource.takeEvents (ItemSource.read parser.source).2).1.toArray).toList := by
    rw [Array.toList_append]
    exact List.prefix_append _ _
  cases (ItemSource.read parser.source).1 <;> exact hlog

/-- What has been recorded is kept, whatever a parser reads, consumes and registers. -/
theorem corresponds_keeps (start : List Event) :
    Corresponds (Keeps start : Parser σ ε → Parser σ ε → Prop) where
  buffer hpair := hpair.1 ▸ rfl
  lastEnd hpair := hpair.1 ▸ rfl
  prefixes hpair := hpair.1 ▸ rfl
  infixes hpair := hpair.1 ▸ rfl
  reads := by
    rintro parser _ ⟨rfl, hstart⟩
    exact ⟨rfl, rfl, hstart.trans (log_pull _)⟩
  keep _ hpair := ⟨hpair.1 ▸ rfl, hpair.2⟩
  record event hpair := by
    refine ⟨hpair.1 ▸ rfl, hpair.2.trans ?_⟩
    rw [record, Array.toList_push]
    exact List.prefix_append _ _
  registerPrefix _ _ hpair := ⟨hpair.1 ▸ rfl, hpair.2⟩
  registerInfix _ _ _ hpair := ⟨hpair.1 ▸ rfl, hpair.2⟩

omit [ItemSource σ] in
/-- An operation that keeps all that has been recorded consumes behind it. -/
theorem exists_consumed_eq {operation : Parsing σ ε ε} {parser after : Parser σ ε} {answer : ε}
    (h : ∀ start, Agrees (Keeps start) operation operation)
    (hanswer : Answers operation parser answer after) :
    ∃ taken, after.consumed = parser.consumed ++ taken := by
  obtain ⟨_, -, rfl, recorded, hlog⟩ :=
    (h parser.log.toList).exists_run ⟨rfl, List.prefix_rfl⟩ hanswer nofun
  unfold consumed
  rw [← hlog, List.filterMap_append]
  exact ⟨_, rfl⟩

end Recording

/-- Parsing an expression is parsing it with a larger minimum and going on from there with the
smaller one: both bring the same result and leave the same parser, whatever the parselets do.
So where the expression is parsed, it is parsed with the larger minimum, too, and the items
consumed then are the front of those consumed in all. There is one result of each call. -/
theorem climbing_composes {small large : Int32} (h : small ≤ large) (parser : Parser σ ε) :
    (∀ result after, Ends (fun budget => parseExpression budget small) parser result after ↔
      Ends (fun budget => parseExpression budget large >>= goOn small budget) parser result
        after) ∧
    (∀ expression after,
      Ends (fun budget => parseExpression budget small) parser (.ok expression) after →
        ∃ left middle front rest,
          Ends (fun budget => parseExpression budget large) parser (.ok left) middle ∧
          Ends (fun budget => goOn small budget left) middle (.ok expression) after ∧
          middle.consumed = parser.consumed ++ front ∧
          after.consumed = parser.consumed ++ (front ++ rest)) ∧
    ∀ minimum result other after last,
      Ends (fun budget => parseExpression budget minimum) parser result after →
        Ends (fun budget => parseExpression budget minimum) parser other last →
          result = other ∧ after = last := by
  have hparts {result : Except Interruption ε} {after : Parser σ ε}
      (hends : Ends (fun budget => parseExpression budget small) parser result after) :
      Ends (fun budget => parseExpression budget large >>= goOn small budget) parser result
        after := by
    obtain ⟨hresult, budget, hrun⟩ := hends
    exact ⟨hresult, budget, (agrees_parts h budget).run_eq hrun hresult⟩
  refine ⟨fun result after => ⟨hparts, ?_⟩, fun expression after hends => ?_, ?_⟩
  · rintro ⟨hresult, budget, hrun⟩
    exact ⟨hresult, budget + budget, (agrees_whole h budget).run_eq hrun hresult⟩
  · obtain ⟨-, budget, hrun⟩ := hparts hends
    obtain ⟨left, middle, hleft, hrest⟩ := Answers.of_bind hrun
    have hexpression (start : List Event) (minimum : Int32) :=
      (corresponds_keeps (σ := σ) (ε := ε) start).agrees_parseExpression (Nat.le_refl budget)
        minimum
    obtain ⟨front, hfront⟩ := exists_consumed_eq (hexpression · large) hleft
    obtain ⟨rest, hall⟩ := exists_consumed_eq (fun start => (corresponds_keeps start).agrees_climb
      (hexpression start) (Nat.le_refl budget) small (Nat.le_refl budget) left) hrest
    refine ⟨left, middle, front, rest, ⟨nofun, budget, hleft⟩, ⟨nofun, budget, hrest⟩, hfront, ?_⟩
    rw [hall, hfront, List.append_assoc]
  · exact fun minimum result other after last hends hother =>
      hends.unique (steady_parseExpression minimum) hother

/-- A letter that registers the mark behind it. -/
def installing : Parser (List Item) Nat :=
  (ofTokens [⟨"x"⟩, ⟨"!"⟩]).registerPrefix ⟨"x"⟩ fun _ =>
    .registerInfix ⟨"!"⟩ 3 (fun left _ => .accept (left + 1)) (.accept 1)

/-- With the larger minimum only the letter is parsed, and going on from there adds the mark. -/
theorem climbing_composes_installing :
    (0 : Int32) ≤ 5 ∧ ∃ after left middle,
      Ends (fun budget => parseExpression budget 5 >>= goOn 0 budget) installing (.ok 2) after ∧
      Ends (fun budget => parseExpression budget 5) installing (.ok left) middle ∧
      Ends (fun budget => goOn 0 budget left) middle (.ok 2) after ∧
      left = 1 ∧ middle.upcoming.map Item.token = [⟨"!"⟩] := by
  have hmarked : ((parseExpression 2 0).run.run installing).1 = .ok 2 := rfl
  have hletter : ((parseExpression 1 5).run.run installing).1 = .ok 1 := rfl
  have hends := ends_of_run (fun budget => parseExpression budget 0) hmarked nofun
  have hfirst := ends_of_run (fun budget => parseExpression budget 5) hletter nofun
  have horder : (0 : Int32) ≤ 5 := by decide
  obtain ⟨hsame, hparts, hunique⟩ := climbing_composes horder installing
  obtain ⟨left, middle, -, -, hleft, hrest, -, -⟩ := hparts _ _ hends
  obtain ⟨hvalue, rfl⟩ := hunique 5 _ _ _ _ hleft hfirst
  cases hvalue
  exact ⟨horder, _, 1, _, (hsame _ _).mp hends, hfirst, hrest, rfl, by decide +kernel⟩

end LanguageKit.Parser
