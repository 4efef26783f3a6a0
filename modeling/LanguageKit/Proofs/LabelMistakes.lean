import Mathlib.Data.List.Find
import Mathlib.Data.List.Induction
import LanguageKit.Proofs.TwoPass

/-!
# Which mistake with labels is reported

While the statements of a program are added, names are numbered in the order in which they
are met, and only the first mistake of the builder is kept. So of all mistakes with labels
one is reported: the first name that is used and never defined, then the first name that is
defined again, and at last an address that does not fit into a word.
-/

namespace LanguageKit.Program

/-- One more name adds itself to the names without repetitions, if it has not occurred
before. -/
theorem eraseDups_snoc (names : List Name) (name : Name) :
    (names ++ [name]).eraseDups =
      if name ∈ names then names.eraseDups else names.eraseDups ++ [name] := by
  have hsingle : [name].eraseDups = [name] := by simp [List.eraseDups_cons]
  rw [List.eraseDups_append]
  by_cases hmem : name ∈ names <;> simp [List.removeAll, hmem, hsingle]

/-- Repetitions do not change which name is the first with a property. -/
theorem find?_eraseDups (p : Name → Bool) (names : List Name) :
    names.eraseDups.find? p = names.find? p := by
  induction names using List.reverseRecOn with
  | nil => rfl
  | append_singleton names name ih =>
    rw [eraseDups_snoc, List.find?_append]
    by_cases hmem : name ∈ names
    · rw [if_pos hmem, ih]
      cases hfound : names.find? p with
      | some found => rfl
      | none =>
        have hname : ¬ p name = true := List.find?_eq_none.mp hfound name hmem
        simp [hname]
    · rw [if_neg hmem, List.find?_append, ih]

/-- Binding a label of the builder records a mistake when the label is bound already. -/
theorem error_bind {builder : Builder} {label : Label}
    (h : label.number < builder.labels.size) :
    (builder.bind label).error =
      builder.error.or (if builder.isBound label then some (.boundTwice label) else none) := by
  unfold Builder.bind Builder.isBound Builder.target?
  rw [Array.getElem?_eq_getElem h]
  cases builder.labels[label.number] <;> simp [Builder.record]

namespace Draft

/-- What a draft remembers of the order in which names have been met and defined. -/
structure Remembers (draft : Draft) (known : List Name) (table : List (Name × Nat)) : Prop where
  /-- The names stand in the order in which they were met for the first time. -/
  names : draft.names.toList = known.eraseDups
  /-- The mistake is that of the first name that was defined again. -/
  mistake : ∀ mistake, draft.builder.error = some mistake →
    ∃ before name after, table.map Prod.fst = before ++ name :: after ∧ before.Nodup ∧
      name ∈ before ∧ mistake = .boundTwice ⟨draft.names.toList.idxOf name⟩

variable {draft : Draft} {known : List Name} {table : List (Name × Nat)} {written : List Argument}

/-- A draft that begins remembers nothing. -/
theorem remembers_empty : Remembers {} [] [] := ⟨rfl, nofun⟩

/-- Names that are met behind the mistake do not change the label of the mistake. -/
theorem Remembers.later (h : draft.Remembers known table) {next : Draft} {more : List Name}
    (hfollows : draft.Follows known table written)
    (hlonger : draft.names.toList <+: next.names.toList)
    (hnames : next.names.toList = more.eraseDups)
    (herror : next.builder.error = draft.builder.error) : next.Remembers more table := by
  refine ⟨hnames, fun mistake hmistake => ?_⟩
  rw [herror] at hmistake
  obtain ⟨before, name, after, hsplit, hnodup, hname, heq⟩ := h.mistake mistake hmistake
  have hdefined : name ∈ table.map Prod.fst := by
    rw [hsplit]
    exact List.mem_append_left _ hname
  obtain ⟨entry, hentry, rfl⟩ := List.mem_map.mp hdefined
  have hmet : entry.1 ∈ draft.names.toList :=
    (hfollows.names entry.1).mpr (hfollows.defined entry hentry)
  obtain ⟨rest, hrest⟩ := hlonger
  refine ⟨before, entry.1, after, hsplit, hnodup, hname, ?_⟩
  rw [heq, ← hrest, List.idxOf_append_of_mem hmet]

/-- A name that is met comes behind the names that have been met before. -/
theorem Remembers.labelOf (h : draft.Remembers known table)
    (hfollows : draft.Follows known table written) (name : Name) :
    (draft.labelOf name).2.Remembers (known ++ [name]) table := by
  obtain ⟨-, hlonger, -⟩ := hfollows.labelOf name
  refine h.later hfollows hlonger ?_ ?_
  · rw [eraseDups_snoc, ← h.names]
    unfold Draft.labelOf
    cases hplace : draft.names.toList.idxOf? name with
    | some number =>
      have hmem : name ∈ draft.names.toList := by
        by_contra hnot
        rw [List.idxOf?_eq_none_iff.mpr hnot] at hplace
        contradiction
      rw [if_pos ((hfollows.names name).mp hmem)]
    | none =>
      have hnew : name ∉ draft.names.toList := List.idxOf?_eq_none_iff.mp hplace
      rw [if_neg fun hknown => hnew ((hfollows.names name).mpr hknown)]
      exact Array.toList_push
  · unfold Draft.labelOf
    cases draft.names.toList.idxOf? name <;> rfl

/-- Defining a name that has been defined before is a mistake, of which the first is
kept. -/
theorem Remembers.define (h : draft.Remembers known table)
    (hfollows : draft.Follows known table written) (name : Name) (address : Nat) :
    (draft.define name).Remembers (known ++ [name]) (table ++ [(name, address)]) := by
  obtain ⟨hmet, -, hlabel⟩ := hfollows.labelOf name
  have hnext := h.labelOf hfollows name
  have hname : name ∈ known ++ [name] := by simp
  have hplace : (draft.labelOf name).1.number < (draft.labelOf name).2.builder.labels.size := by
    rw [hlabel]
    exact hmet.idxOf_lt hname
  have hdefine : (draft.define name).builder =
      (draft.labelOf name).2.builder.bind (draft.labelOf name).1 := rfl
  have hbound : (draft.labelOf name).2.builder.target? (draft.labelOf name).1 =
      table.lookup name := by rw [hlabel, hmet.target name hname]
  refine ⟨hnext.names, fun mistake hmistake => ?_⟩
  rw [hdefine, error_bind hplace] at hmistake
  rw [List.map_append, List.map_singleton]
  cases hearlier : (draft.labelOf name).2.builder.error with
  | some earlier =>
    rw [hearlier, Option.some_or, Option.some.injEq] at hmistake
    obtain ⟨before, other, after, hsplit, hnodup, hother, heq⟩ := hnext.mistake earlier hearlier
    refine ⟨before, other, after ++ [name], ?_, hnodup, hother, hmistake ▸ heq⟩
    rw [hsplit, List.append_assoc, List.cons_append]
  | none =>
    rw [hearlier, Option.none_or, Builder.isBound, hbound] at hmistake
    have hnodup : (table.map Prod.fst).Nodup := hmet.error.mp hearlier
    cases hfound : table.lookup name with
    | none =>
      rw [hfound] at hmistake
      contradiction
    | some target =>
      rw [hfound, Option.isSome_some, if_pos rfl, Option.some.injEq] at hmistake
      have hdefined : name ∈ table.map Prod.fst := by
        by_contra hnot
        rw [lookup_eq_none_iff_not_mem.mpr hnot] at hfound
        contradiction
      exact ⟨_, name, [], rfl, hnodup, hdefined, by rw [← hmistake, hlabel]; rfl⟩

/-- Definitions come one after the other. -/
theorem Remembers.defineAll (h : draft.Remembers known table)
    (hfollows : draft.Follows known table written) (names : List Name) :
    (names.foldl Draft.define draft).Remembers (known ++ names)
      (table ++ names.map (·, written.length)) := by
  induction names generalizing draft known table with
  | nil => simpa using h
  | cons name names ih =>
    have hrest := ih (h.define hfollows name written.length) (hfollows.define name)
    rwa [List.append_assoc, List.append_assoc] at hrest

/-- The names of arguments are met one after the other. -/
theorem Remembers.operandsOf (h : draft.Remembers known table)
    (hfollows : draft.Follows known table written) (arguments : List Argument) :
    (draft.operandsOf arguments).2.Remembers (known ++ arguments.filterMap Argument.name?)
      table := by
  induction arguments generalizing draft known with
  | nil =>
    rw [List.filterMap_nil, List.append_nil]
    exact h
  | cons argument arguments ih =>
    cases argument with
    | word word => exact ih h hfollows
    | name name =>
      have hrest := ih (h.labelOf hfollows name) (hfollows.labelOf name).1
      rw [List.append_assoc] at hrest
      exact hrest

/-- A statement defines its labels and then uses its names. -/
theorem Remembers.addStatement (h : draft.Remembers known table)
    (hfollows : draft.Follows known table written) {statement : Statement}
    (hcount : ∀ opcode arguments, statement.instruction = some (opcode, arguments) →
      arguments.length = opcode.operandCount) :
    (draft.addStatement statement).Remembers (known ++ statement.mentions)
      (table ++ statement.labels.map (·, written.length)) := by
  have hdefined := h.defineAll hfollows statement.labels
  have hlabels := hfollows.defineAll statement.labels
  unfold Draft.addStatement Statement.mentions Statement.words
  cases hinstruction : statement.instruction with
  | none => simpa using hdefined
  | some pair =>
    obtain ⟨opcode, arguments⟩ := pair
    obtain ⟨hmet, -, hoperands⟩ := hlabels.operandsOf arguments
    have hused := hdefined.operandsOf hlabels arguments
    dsimp only
    generalize (statement.labels.foldl Draft.define draft).operandsOf arguments = found
      at hmet hoperands hused ⊢
    obtain ⟨operands, named⟩ := found
    dsimp only at hmet hoperands hused ⊢
    have hlength : operands.length = opcode.operandCount := by
      rw [hoperands, List.length_map, hcount opcode arguments hinstruction]
    have hsame : (named.builder.instruction opcode operands).error = named.builder.error :=
      (hmet.holds.instruction hlength).2.2
    have hadded :
        Remembers { named with builder := named.builder.instruction opcode operands } _ _ :=
      hused.later hmet List.prefix_rfl hused.names hsame
    rw [List.append_assoc] at hadded
    exact hadded

/-- Statements are added one after the other. -/
theorem Remembers.addStatements (h : draft.Remembers known table)
    (hfollows : draft.Follows known table written) {statements : List Statement}
    (hcounts : Counted statements) :
    (statements.foldl Draft.addStatement draft).Remembers
      (known ++ statements.flatMap Statement.mentions)
      (table ++ definitions written.length statements) := by
  induction statements generalizing draft known table written with
  | nil => simpa [definitions] using h
  | cons statement statements ih =>
    have hcount := hcounts statement List.mem_cons_self
    have hrest := ih (h.addStatement hfollows hcount) (hfollows.addStatement hcount)
      fun other hother => hcounts other (List.mem_cons_of_mem statement hother)
    rw [List.append_assoc, List.append_assoc, List.length_append] at hrest
    exact hrest

/-- The name that is reported is the first of the names, in the order in which they were
met, that is not defined. -/
theorem Follows.undefinedName?_eq (h : draft.Follows known table written)
    (hremembers : draft.Remembers known table) :
    draft.undefinedName? = known.find? fun name => decide (name ∉ table.map Prod.fst) := by
  have hentry : ∀ entry ∈ draft.names.toList.zipIdx,
      (!draft.builder.isBound ⟨entry.2⟩) =
        ((fun name => decide (name ∉ table.map Prod.fst)) ∘ Prod.fst) entry := by
    intro entry hentry
    have hbound := h.isBound_iff (List.mem_zipIdx_iff_getElem?.mp hentry)
    rw [Function.comp_apply, Bool.eq_iff_iff, Bool.not_eq_true', Bool.eq_false_iff, ne_eq, hbound,
      decide_eq_true_eq]
  unfold undefinedName?
  rw [List.find?_congr hentry, ← List.find?_map, List.zipIdx_map_fst, hremembers.names,
    find?_eraseDups]

end Draft

variable {statements : List Statement}

/-- The draft of a whole program remembers its names and its definitions. -/
theorem remembers_statements (hcounts : Counted statements) :
    (statements.foldl Draft.addStatement {}).Remembers (statements.flatMap Statement.mentions)
      (definitions 0 statements) :=
  Draft.remembers_empty.addStatements Draft.follows_empty hcounts

/-- A name that is not defined is met as an operand. -/
theorem find?_mentions {p : Name → Bool}
    (h : ∀ name ∈ statements.flatMap Statement.labels, p name = false) :
    (statements.flatMap Statement.mentions).find? p = (references statements).find? p := by
  induction statements with
  | nil => rfl
  | cons statement statements ih =>
    rw [List.flatMap_cons] at h
    have hlabels : statement.labels.find? p = none := by
      rw [List.find?_eq_none]
      intro name hname
      rw [h name (List.mem_append_left _ hname)]
      exact Bool.false_ne_true
    have hrest := ih fun name hname => h name (List.mem_append_right _ hname)
    have hreferences : references (statement :: statements) =
        statement.words.filterMap Argument.name? ++ references statements := by
      rw [references, List.flatMap_cons, List.filterMap_append, references]
    rw [List.flatMap_cons, Statement.mentions, List.find?_append, List.find?_append, hlabels,
      Option.none_or, hrest, hreferences, List.find?_append]

/-- A definition is found by its name, if no name is defined twice. -/
theorem lookup_of_mem {table : List (Name × Nat)} (hunique : (table.map Prod.fst).Nodup)
    {entry : Name × Nat} (h : entry ∈ table) : table.lookup entry.1 = some entry.2 := by
  obtain ⟨before, after, rfl⟩ := List.append_of_mem h
  refine List.lookup_eq_some_iff.mpr ⟨before, after, rfl, fun other hother => ?_⟩
  rw [List.map_append, List.map_cons] at hunique
  have hdisjoint := (List.nodup_append.mp hunique).2.2 other.1 (List.mem_map_of_mem hother)
    entry.1 List.mem_cons_self
  simpa using Ne.symm hdisjoint

/-- The first name that is used and never defined is reported before all other mistakes. -/
theorem ofStatements_of_undefined (hcounts : Counted statements) {name : Name}
    (h : (references statements).find?
      (fun name => decide (name ∉ (definitions 0 statements).map Prod.fst)) = some name) :
    ofStatements statements = .error (.undefinedLabel name) := by
  have hlabels : ∀ name ∈ statements.flatMap Statement.labels,
      decide (name ∉ (definitions 0 statements).map Prod.fst) = false := by
    intro name hname
    rw [map_fst_definitions, decide_eq_false_iff_not, not_not]
    exact hname
  unfold ofStatements Draft.finish
  rw [(follows_statements hcounts).undefinedName?_eq (remembers_statements hcounts),
    find?_mentions hlabels, h]

/-- Every name that has been met is defined when every name that is used is. -/
theorem defined_of_mentioned
    (h : ∀ name ∈ references statements, name ∈ (definitions 0 statements).map Prod.fst) :
    ∀ name ∈ statements.flatMap Statement.mentions,
      name ∈ (definitions 0 statements).map Prod.fst := by
  intro name hname
  rcases mem_flatMap_mentions.mp hname with hdefined | hused
  · exact hdefined
  · exact h name hused

/-- When every name that is used is defined, but some name is defined twice, the first name
that is defined again is reported. -/
theorem ofStatements_of_twice (hcounts : Counted statements)
    (hdefined : ∀ name ∈ references statements, name ∈ (definitions 0 statements).map Prod.fst)
    (htwice : ¬ ((definitions 0 statements).map Prod.fst).Nodup) :
    ∃ before name after, (definitions 0 statements).map Prod.fst = before ++ name :: after ∧
      before.Nodup ∧ name ∈ before ∧
      ofStatements statements = .error (.build (.boundTwice
        ⟨(statements.flatMap Statement.mentions).eraseDups.idxOf name⟩)) := by
  have hfollows := follows_statements hcounts
  have hremembers := remembers_statements hcounts
  unfold ofStatements Draft.finish Builder.finish
  rw [hfollows.undefinedName?_eq_none_iff.mpr (defined_of_mentioned hdefined)]
  cases herror : (statements.foldl Draft.addStatement {}).builder.error with
  | none => exact absurd (hfollows.error.mp herror) htwice
  | some mistake =>
    obtain ⟨before, name, after, hsplit, hnodup, hname, rfl⟩ := hremembers.mistake mistake herror
    rw [hremembers.names]
    exact ⟨before, name, after, hsplit, hnodup, hname, rfl⟩

/-- When every name that is used is defined, and none twice, but the address of a name that
is used does not fit into a word, that is reported. -/
theorem ofStatements_of_far (hcounts : Counted statements)
    (hdefined : ∀ name ∈ references statements, name ∈ (definitions 0 statements).map Prod.fst)
    (hunique : ((definitions 0 statements).map Prod.fst).Nodup)
    (hfar : ∃ entry ∈ definitions 0 statements, entry.1 ∈ references statements ∧
      Builder.maxAddress < entry.2) :
    ofStatements statements = .error (.build .tooLong) := by
  obtain ⟨entry, hentry, hused, hlarge⟩ := hfar
  obtain ⟨argument, hargument, hname⟩ := List.mem_filterMap.mp hused
  have hwritten : .name entry.1 ∈ statements.flatMap Statement.words := by
    cases argument with
    | word word => cases hname
    | name name =>
      obtain rfl : name = entry.1 := Option.some.inj hname
      exact hargument
  exact (follows_statements hcounts).finish_of_far (defined_of_mentioned hdefined) hunique
    ⟨entry.1, hwritten, entry.2, lookup_of_mem hunique hentry, hlarge⟩

end LanguageKit.Program
