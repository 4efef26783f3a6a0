import Mathlib.Data.List.Nodup
import LanguageKit.Proofs.LabelPatching
import LanguageKit.Program.Assembly

/-!
# The meaning of a program in two passes

A program that is read line by line is assembled in one pass: names are numbered as
they are met, whether they are defined or used, and the words that stand for them are
filled in at the end. What comes out is easier said in two passes. The first gives
every definition the number of words in front of it, the second writes the words down
and takes the address of every name from the first.
-/

namespace LanguageKit.Program

/-- The words a statement adds, as they are written: that of its opcode and its
arguments. -/
def Statement.words (statement : Statement) : List Argument :=
  match statement.instruction with
  | none => []
  | some (opcode, arguments) => .word opcode.word :: arguments

/-- The name an argument uses. -/
def Argument.name? : Argument → Option Name
  | .word _ => none
  | .name used => some used

/-- The first pass: every definition with the number of words in front of it, from an
address on. -/
def definitions : Nat → List Statement → List (Name × Nat)
  | _, [] => []
  | address, statement :: rest =>
    statement.labels.map (·, address) ++ definitions (address + statement.words.length) rest

/-- The names that are used. -/
def references (statements : List Statement) : List Name :=
  (statements.flatMap Statement.words).filterMap Argument.name?

/-- The word an argument becomes: a word stays as it is, and a name becomes the
address of its definition. -/
def Argument.value (table : List (Name × Nat)) : Argument → Int32
  | .word known => known
  | .name used => Int32.ofNat ((table.lookup used).getD 0)

/-- The second pass: the words of all statements, with the addresses of the first. -/
def code (statements : List Statement) : List Int32 :=
  (statements.flatMap Statement.words).map (Argument.value (definitions 0 statements))

/-- The names a statement mentions, in the order in which they are met. -/
def Statement.mentions (statement : Statement) : List Name :=
  statement.labels ++ statement.words.filterMap Argument.name?

/-- Every statement has the arguments its opcode asks for. -/
def Counted (statements : List Statement) : Prop :=
  ∀ statement ∈ statements, ∀ opcode arguments,
    statement.instruction = some (opcode, arguments) → arguments.length = opcode.operandCount

/-- The operand an argument stands for, when every name belongs to the label with the
number of its place. -/
def slotOf (names : List Name) : Argument → Operand
  | .word word => .word word
  | .name name => .label ⟨names.idxOf name⟩

/-- Names that come later do not change the operand of an argument whose name is
there. -/
theorem slotOf_later {names more : List Name} (h : names <+: more) {argument : Argument}
    (hname : ∀ name, argument = .name name → name ∈ names) :
    slotOf more argument = slotOf names argument := by
  cases argument with
  | word word => rfl
  | name name =>
    obtain ⟨rest, rfl⟩ := h
    rw [slotOf, slotOf, List.idxOf_append_of_mem (hname name rfl)]

/-- Nor do they change the operands of several arguments. -/
theorem map_slotOf_later {names more : List Name} (h : names <+: more)
    {written : List Argument} (hname : ∀ name, .name name ∈ written → name ∈ names) :
    written.map (slotOf more) = written.map (slotOf names) := by
  apply List.map_congr_left
  intro argument hargument
  apply slotOf_later h
  rintro name rfl
  exact hname name hargument

/-- One more definition is found when its name has not been defined before. -/
theorem lookup_snoc (table : List (Name × Nat)) (name other : Name) (address : Nat) :
    (table ++ [(name, address)]).lookup other =
      (table.lookup other).or (if other = name then some address else none) := by
  rw [List.lookup_append, List.lookup_cons]
  by_cases heq : other = name
  · subst heq
    simp
  · have hne : (other == name) = false := by simpa using heq
    rw [hne, if_neg heq]
    rfl

/-- A name is among those that are defined exactly when its definition is found. -/
theorem lookup_eq_none_iff_not_mem {table : List (Name × Nat)} {name : Name} :
    table.lookup name = none ↔ name ∉ table.map Prod.fst := by
  rw [List.lookup_eq_none_iff]
  simp only [List.mem_map, bne_iff_ne, ne_eq, not_exists, not_and]
  exact ⟨fun h entry hentry heq => h entry hentry heq.symm,
    fun h entry hentry heq => h entry hentry heq.symm⟩

namespace Draft

/-- A draft that has met names, with a table of the definitions so far and the words
that have been written. -/
structure Follows (draft : Draft) (known : List Name) (table : List (Name × Nat))
    (written : List Argument) : Prop where
  /-- A name is met for the first time only once. -/
  nodup : draft.names.toList.Nodup
  /-- Every name has a label. -/
  labels : draft.builder.labels.size = draft.names.size
  /-- The names are those that have been met. -/
  names : ∀ name, name ∈ draft.names.toList ↔ name ∈ known
  /-- A name that is used has been met. -/
  used : ∀ name, .name name ∈ written → name ∈ known
  /-- A name that is defined has been met. -/
  defined : ∀ entry ∈ table, entry.1 ∈ known
  /-- The builder holds the words. -/
  holds : draft.builder.Holds (written.map (slotOf draft.names.toList))
  /-- The label of a name is bound to the address of the first definition. -/
  target : ∀ name ∈ known,
    draft.builder.target? ⟨draft.names.toList.idxOf name⟩ = table.lookup name
  /-- A mistake has been recorded when a name is defined twice. -/
  error : draft.builder.error = none ↔ (table.map Prod.fst).Nodup

variable {draft : Draft} {known : List Name} {table : List (Name × Nat)} {written : List Argument}

/-- A draft that begins has met nothing. -/
theorem follows_empty : Follows {} [] [] [] :=
  { nodup := List.nodup_nil
    labels := rfl
    names := by simp
    used := by simp
    defined := by simp
    holds := ⟨rfl, rfl⟩
    target := by simp
    error := by simp }

/-- A name that has been met may be met again. -/
theorem Follows.meet_again (h : draft.Follows known table written) {name : Name}
    (hname : name ∈ known) : draft.Follows (known ++ [name]) table written := by
  have hknown : ∀ other, other ∈ known ++ [name] ↔ other ∈ known := by
    intro other
    simp only [List.mem_append, List.mem_singleton, or_iff_left_iff_imp]
    rintro rfl
    exact hname
  exact
    { nodup := h.nodup
      labels := h.labels
      names := fun other => (h.names other).trans (hknown other).symm
      used := fun other hother => List.mem_append_left _ (h.used other hother)
      defined := fun entry hentry => List.mem_append_left _ (h.defined entry hentry)
      holds := h.holds
      target := fun other hother => h.target other ((hknown other).mp hother)
      error := h.error }

/-- A name that is met for the first time comes behind the names before it. -/
theorem idxOf_push {name : Name} (hnew : name ∉ draft.names.toList) :
    (draft.names.push name).toList.idxOf name = draft.names.size := by
  rw [Array.toList_push, List.idxOf_append, if_neg hnew]
  simp

/-- A name that is met for the first time gets a new label, which is not bound. -/
theorem Follows.meet_new (h : draft.Follows known table written) {name : Name}
    (hnew : name ∉ draft.names.toList) :
    Follows { builder := draft.builder.newLabel.2, names := draft.names.push name }
      (known ++ [name]) table written := by
  have hlist : (draft.names.push name).toList = draft.names.toList ++ [name] :=
    Array.toList_push
  have hprefix : draft.names.toList <+: (draft.names.push name).toList := by
    rw [hlist]
    exact List.prefix_append _ _
  refine
    { nodup := ?_
      labels := by simp [Builder.newLabel, h.labels]
      names := fun other => by rw [hlist, List.mem_append, List.mem_append, h.names]
      used := fun other hother => List.mem_append_left _ (h.used other hother)
      defined := fun entry hentry => List.mem_append_left _ (h.defined entry hentry)
      holds := ?_
      target := ?_
      error := h.error }
  · rw [hlist, ← List.concat_eq_append, List.nodup_concat]
    exact ⟨hnew, h.nodup⟩
  · dsimp only
    rw [map_slotOf_later hprefix fun other hother => (h.names other).mpr (h.used other hother)]
    exact ⟨h.holds.code, h.holds.patches⟩
  · intro other hother
    rcases List.mem_append.mp hother with hother | hother
    · have hmem : other ∈ draft.names.toList := (h.names other).mpr hother
      have hplace : draft.names.toList.idxOf other < draft.builder.labels.size := by
        rw [h.labels, ← Array.length_toList]
        exact List.idxOf_lt_length_iff.mpr hmem
      rw [← h.target other hother, hlist, List.idxOf_append_of_mem hmem]
      simp [Builder.target?, Builder.newLabel, Array.getElem?_push, Nat.ne_of_lt hplace]
    · obtain rfl := List.mem_singleton.mp hother
      have hfree : table.lookup other = none := by
        rw [lookup_eq_none_iff_not_mem, List.mem_map]
        rintro ⟨entry, hentry, rfl⟩
        exact hnew ((h.names _).mpr (h.defined entry hentry))
      rw [idxOf_push hnew, hfree]
      simp [Builder.target?, Builder.newLabel, ← h.labels]

/-- The label of a name has the number of the place of the name, whether the name has
been met before or not. -/
theorem Follows.labelOf (h : draft.Follows known table written) (name : Name) :
    (draft.labelOf name).2.Follows (known ++ [name]) table written ∧
      draft.names.toList <+: (draft.labelOf name).2.names.toList ∧
      (draft.labelOf name).1 = ⟨(draft.labelOf name).2.names.toList.idxOf name⟩ := by
  unfold Draft.labelOf
  cases hplace : draft.names.toList.idxOf? name with
  | some number =>
    have hmem : name ∈ draft.names.toList := by
      by_contra hnot
      rw [List.idxOf?_eq_none_iff.mpr hnot] at hplace
      contradiction
    have hnumber : draft.names.toList.idxOf name = number := by
      rw [List.idxOf_eq_getD_idxOf?, hplace]
      rfl
    exact ⟨h.meet_again ((h.names name).mp hmem), List.prefix_rfl, congrArg Label.mk hnumber.symm⟩
  | none =>
    have hnew : name ∉ draft.names.toList := List.idxOf?_eq_none_iff.mp hplace
    have hlater : draft.names.toList <+: (draft.names.push name).toList := by
      rw [Array.toList_push]
      exact List.prefix_append _ _
    have hlast : draft.builder.labels.size = (draft.names.push name).toList.idxOf name := by
      rw [idxOf_push hnew, h.labels]
    exact ⟨h.meet_new hnew, hlater, congrArg Label.mk hlast⟩

/-- The label of a name that has been met exists. -/
theorem Follows.idxOf_lt (h : draft.Follows known table written) {name : Name}
    (hname : name ∈ known) : draft.names.toList.idxOf name < draft.builder.labels.size := by
  rw [h.labels, ← Array.length_toList]
  exact List.idxOf_lt_length_iff.mpr ((h.names name).mpr hname)

/-- One more definition of a name that has been met. -/
theorem Follows.defined_snoc (h : draft.Follows known table written) {name : Name}
    (hname : name ∈ known) (address : Nat) :
    ∀ entry ∈ table ++ [(name, address)], entry.1 ∈ known := by
  intro entry hentry
  rcases List.mem_append.mp hentry with hentry | hentry
  · exact h.defined entry hentry
  · rw [List.mem_singleton.mp hentry]
    exact hname

/-- A name is defined twice when it is defined once more. -/
theorem nodup_map_fst_snoc {name : Name} {address : Nat} :
    ((table ++ [(name, address)]).map Prod.fst).Nodup ↔
      table.lookup name = none ∧ (table.map Prod.fst).Nodup := by
  have hnames : (table ++ [(name, address)]).map Prod.fst = (table.map Prod.fst).concat name := by
    simp
  rw [hnames, List.nodup_concat, lookup_eq_none_iff_not_mem]

/-- The label of a name that has not been defined is bound to the address of the next
word. -/
theorem Follows.bind_free (h : draft.Follows known table written) {name : Name}
    (hname : name ∈ known) (hfree : table.lookup name = none) :
    Follows
      { draft with
        builder :=
          { draft.builder with
            labels := draft.builder.labels.setIfInBounds (draft.names.toList.idxOf name)
              (some draft.builder.address) } }
      known (table ++ [(name, written.length)]) written := by
  have hplace := h.idxOf_lt hname
  have haddress : draft.builder.address = written.length := by
    rw [h.holds.address_eq, List.length_map]
  refine
    { nodup := h.nodup
      labels := by simp [h.labels]
      names := h.names
      used := h.used
      defined := h.defined_snoc hname _
      holds := ⟨h.holds.code, h.holds.patches⟩
      target := ?_
      error := ?_ }
  · intro other hother
    have hinj : draft.names.toList.idxOf name = draft.names.toList.idxOf other ↔ name = other :=
      List.idxOf_inj ((h.names name).mpr hname)
    rw [lookup_snoc]
    by_cases heq : other = name
    · subst heq
      simp [Builder.target?, hplace, hfree, haddress]
    · have hne : draft.names.toList.idxOf name ≠ draft.names.toList.idxOf other := fun hsame =>
        heq (hinj.mp hsame).symm
      rw [← h.target other hother]
      simp [Builder.target?, hne, heq]
  · rw [nodup_map_fst_snoc]
    exact h.error.trans ⟨fun hnodup => ⟨hfree, hnodup⟩, And.right⟩

/-- When a name has been defined before, that stays, and the mistake is recorded. -/
theorem Follows.bind_again (h : draft.Follows known table written) {name : Name}
    (hname : name ∈ known) {target : Nat} (hfound : table.lookup name = some target)
    (mistake : BuildError) :
    Follows { draft with builder := draft.builder.record mistake } known
      (table ++ [(name, written.length)]) written := by
  refine
    { nodup := h.nodup
      labels := h.labels
      names := h.names
      used := h.used
      defined := h.defined_snoc hname _
      holds := ⟨h.holds.code, h.holds.patches⟩
      target := ?_
      error := ?_ }
  · intro other hother
    have hkept : draft.builder.target? ⟨draft.names.toList.idxOf other⟩ = table.lookup other :=
      h.target other hother
    rw [lookup_snoc]
    by_cases heq : other = name
    · subst heq
      rw [hfound, Option.some_or]
      exact hkept.trans hfound
    · rw [if_neg heq, Option.or_none]
      exact hkept
  · have hrecorded : (draft.builder.record mistake).error ≠ none := by
      cases herror : draft.builder.error <;> simp [Builder.record, herror]
    rw [nodup_map_fst_snoc, hfound]
    exact ⟨fun hnone => absurd hnone hrecorded, fun hnodup =>
      absurd hnodup.1 (Option.some_ne_none target)⟩

/-- A name that has been met is defined where the next word comes. -/
theorem Follows.bind (h : draft.Follows known table written) {name : Name}
    (hname : name ∈ known) :
    Follows { draft with builder := draft.builder.bind ⟨draft.names.toList.idxOf name⟩ } known
      (table ++ [(name, written.length)]) written := by
  have hplace := h.idxOf_lt hname
  have htarget := h.target name hname
  rw [Builder.target?, Array.getElem?_eq_getElem hplace, Option.join_some] at htarget
  unfold Builder.bind
  rw [Array.getElem?_eq_getElem hplace]
  cases hbound : draft.builder.labels[draft.names.toList.idxOf name] with
  | none => exact h.bind_free hname (htarget.symm.trans hbound)
  | some target => exact h.bind_again hname (htarget.symm.trans hbound) _

/-- Defining a name adds a definition where the next word comes. -/
theorem Follows.define (h : draft.Follows known table written) (name : Name) :
    (draft.define name).Follows (known ++ [name]) (table ++ [(name, written.length)]) written := by
  obtain ⟨hfollows, -, hlabel⟩ := h.labelOf name
  have hname : name ∈ known ++ [name] := by simp
  have hbind := hfollows.bind hname
  unfold Draft.define
  rw [← hlabel] at hbind
  exact hbind

/-- Defining names adds their definitions, one after the other. -/
theorem Follows.defineAll (h : draft.Follows known table written) (names : List Name) :
    (names.foldl Draft.define draft).Follows (known ++ names)
      (table ++ names.map (·, written.length)) written := by
  induction names generalizing draft known table with
  | nil => simpa using h
  | cons name names ih =>
    have hrest := ih (h.define name)
    rwa [List.append_assoc, List.append_assoc] at hrest

/-- The arguments of an instruction stand for the operands that their names have in
the end. -/
theorem Follows.operandsOf (h : draft.Follows known table written) (arguments : List Argument) :
    (draft.operandsOf arguments).2.Follows (known ++ arguments.filterMap Argument.name?) table
        written ∧
      draft.names.toList <+: (draft.operandsOf arguments).2.names.toList ∧
      (draft.operandsOf arguments).1 =
        arguments.map (slotOf (draft.operandsOf arguments).2.names.toList) := by
  induction arguments generalizing draft known with
  | nil =>
    refine ⟨?_, List.prefix_rfl, rfl⟩
    rwa [List.filterMap_nil, List.append_nil]
  | cons argument arguments ih =>
    cases argument with
    | word word =>
      obtain ⟨hfollows, hprefix, hoperands⟩ := ih h
      exact ⟨hfollows, hprefix, congrArg (Operand.word word :: ·) hoperands⟩
    | name name =>
      obtain ⟨hfirst, hearlier, hlabel⟩ := h.labelOf name
      obtain ⟨hfollows, hlater, hoperands⟩ := ih hfirst
      have hmem : name ∈ (draft.labelOf name).2.names.toList := by
        rw [hfirst.names]
        simp
      refine ⟨?_, hearlier.trans hlater, ?_⟩
      · rw [List.append_assoc] at hfollows
        exact hfollows
      · have hslot :
            slotOf ((draft.labelOf name).2.operandsOf arguments).2.names.toList (.name name) =
              .label (draft.labelOf name).1 := by
          rw [slotOf_later hlater, slotOf, hlabel]
          rintro other ⟨⟩
          exact hmem
        rw [List.map_cons]
        change Operand.label (draft.labelOf name).1 ::
          ((draft.labelOf name).2.operandsOf arguments).1 = slotOf _ _ :: _
        rw [hoperands, ← hslot]
        rfl

/-- An instruction with the right number of operands writes its words. -/
theorem Follows.instruction (h : draft.Follows known table written) {opcode : Opcode}
    {arguments : List Argument} (hcount : arguments.length = opcode.operandCount)
    (hused : ∀ name, .name name ∈ arguments → name ∈ known) :
    Follows
      { draft with
        builder := draft.builder.instruction opcode
          (arguments.map (slotOf draft.names.toList)) } known table
      (written ++ .word opcode.word :: arguments) := by
  have hlength : (arguments.map (slotOf draft.names.toList)).length = opcode.operandCount := by
    rw [List.length_map, hcount]
  obtain ⟨hholds, hlabels, herror⟩ := h.holds.instruction hlength
  exact
    { nodup := h.nodup
      labels := (congrArg Array.size hlabels).trans h.labels
      names := h.names
      used := by
        intro name hname
        rcases List.mem_append.mp hname with hname | hname
        · exact h.used name hname
        · rcases List.mem_cons.mp hname with hname | hname
          · cases hname
          · exact hused name hname
      defined := h.defined
      holds := by simpa [Builder.slots, slotOf] using hholds
      target := by
        intro name hname
        rw [← h.target name hname, Builder.target?, Builder.target?, hlabels]
      error := by
        dsimp only
        rw [herror]
        exact h.error }

/-- A statement adds its definitions where the next word comes, and then its words. -/
theorem Follows.addStatement (h : draft.Follows known table written) {statement : Statement}
    (hcount : ∀ opcode arguments, statement.instruction = some (opcode, arguments) →
      arguments.length = opcode.operandCount) :
    (draft.addStatement statement).Follows (known ++ statement.mentions)
      (table ++ statement.labels.map (·, written.length)) (written ++ statement.words) := by
  have hlabels := h.defineAll statement.labels
  unfold Draft.addStatement Statement.mentions Statement.words
  cases hinstruction : statement.instruction with
  | none => simpa using hlabels
  | some pair =>
    obtain ⟨opcode, arguments⟩ := pair
    obtain ⟨hfollows, -, hoperands⟩ := hlabels.operandsOf arguments
    have hused : ∀ name, .name name ∈ arguments →
        name ∈ known ++ statement.labels ++ arguments.filterMap Argument.name? := by
      intro name hname
      exact List.mem_append_right _ (List.mem_filterMap.mpr ⟨.name name, hname, rfl⟩)
    have hadded := hfollows.instruction (hcount opcode arguments hinstruction) hused
    rw [← hoperands, List.append_assoc] at hadded
    exact hadded

/-- Statements add their definitions and their words, one after the other. -/
theorem Follows.addStatements (h : draft.Follows known table written) {statements : List Statement}
    (hcounts : Counted statements) :
    (statements.foldl Draft.addStatement draft).Follows
      (known ++ statements.flatMap Statement.mentions)
      (table ++ definitions written.length statements)
      (written ++ statements.flatMap Statement.words) := by
  induction statements generalizing draft known table written with
  | nil => simpa [definitions] using h
  | cons statement statements ih =>
    have hfirst := h.addStatement (hcounts statement List.mem_cons_self)
    have hrest := ih hfirst fun other hother => hcounts other (List.mem_cons_of_mem _ hother)
    rw [List.append_assoc, List.append_assoc, List.append_assoc, List.length_append] at hrest
    exact hrest

/-- The label of a name is bound exactly when the name is defined. -/
theorem Follows.isBound_iff (h : draft.Follows known table written) {name : Name} {number : Nat}
    (hnumber : draft.names.toList[number]? = some name) :
    draft.builder.isBound ⟨number⟩ = true ↔ name ∈ table.map Prod.fst := by
  obtain ⟨hlt, hget⟩ := List.getElem?_eq_some_iff.mp hnumber
  have hname : name ∈ known := (h.names name).mp (List.mem_of_getElem? hnumber)
  have hplace : draft.names.toList.idxOf name = number := by
    rw [← hget]
    exact h.nodup.idxOf_getElem number hlt
  rw [Builder.isBound, ← hplace, h.target name hname, ← Option.ne_none_iff_isSome, ne_eq,
    lookup_eq_none_iff_not_mem, not_not]

/-- A name is reported exactly when some name that has been met is not defined. -/
theorem Follows.undefinedName?_eq_none_iff (h : draft.Follows known table written) :
    draft.undefinedName? = none ↔ ∀ name ∈ known, name ∈ table.map Prod.fst := by
  unfold undefinedName?
  rw [Option.map_eq_none_iff, List.find?_eq_none]
  constructor
  · intro hall name hname
    obtain ⟨number, hlt, hget⟩ := List.getElem_of_mem ((h.names name).mpr hname)
    have hnumber : draft.names.toList[number]? = some name := by
      rw [List.getElem?_eq_getElem hlt, hget]
    have hentry := hall (name, number) (List.mem_zipIdx_iff_getElem?.mpr hnumber)
    exact (h.isBound_iff hnumber).mp (by simpa using hentry)
  · intro hall entry hentry
    have hnumber := List.mem_zipIdx_iff_getElem?.mp hentry
    have hname : entry.1 ∈ known := (h.names entry.1).mp (List.mem_of_getElem? hnumber)
    have htrue := (h.isBound_iff hnumber).mpr (hall entry.1 hname)
    simp [htrue]

/-- A name that is defined is resolved when its address fits into a word. -/
theorem Follows.resolveSlot_eq (h : draft.Follows known table written) {name : Name}
    (hname : name ∈ known) {address : Nat} (hlookup : table.lookup name = some address) :
    draft.builder.resolveSlot (slotOf draft.names.toList (.name name)) =
      if address ≤ Builder.maxAddress then .ok (Int32.ofNat address) else .error .tooLong := by
  have htarget := h.target name hname
  rw [hlookup] at htarget
  rw [slotOf, Builder.resolveSlot, Builder.resolve, htarget]

/-- A draft without a mistake, with every name defined, is finished by resolving the words
that have been written. -/
theorem Follows.finish_eq (h : draft.Follows known table written)
    (hdefined : ∀ name ∈ known, name ∈ table.map Prod.fst)
    (hunique : (table.map Prod.fst).Nodup) :
    draft.finish =
      (((written.mapM fun argument =>
        draft.builder.resolveSlot (slotOf draft.names.toList argument)).map
          List.toArray).mapError .build) := by
  unfold Draft.finish
  rw [h.undefinedName?_eq_none_iff.mpr hdefined]
  dsimp only
  rw [h.holds.finish_eq (h.error.mpr hunique), List.mapM_map]
  rfl

/-- When every name that has been met is defined, none twice, and the addresses fit
into words, the draft is finished with the words that have been written. -/
theorem Follows.finish_of_defined (h : draft.Follows known table written)
    (hdefined : ∀ name ∈ known, name ∈ table.map Prod.fst) (hunique : (table.map Prod.fst).Nodup)
    (hfits : ∀ name, .name name ∈ written → ∀ address, table.lookup name = some address →
      address ≤ Builder.maxAddress) :
    draft.finish = .ok (written.map (Argument.value table)).toArray := by
  have hslot : ∀ argument ∈ written,
      draft.builder.resolveSlot (slotOf draft.names.toList argument) =
        .ok (argument.value table) := by
    intro argument hargument
    cases argument with
    | word word => rfl
    | name name =>
      have hname := h.used name hargument
      cases hlookup : table.lookup name with
      | none => exact absurd (hdefined name hname) (lookup_eq_none_iff_not_mem.mp hlookup)
      | some address =>
        rw [h.resolveSlot_eq hname hlookup, if_pos (hfits name hargument address hlookup),
          Argument.value, hlookup, Option.getD_some]
  rw [h.finish_eq hdefined hunique, mapM_eq_ok_map hslot]
  rfl

/-- When every name that has been met is defined and none twice, but the address of a name
that is used does not fit into a word, that is reported. -/
theorem Follows.finish_of_far (h : draft.Follows known table written)
    (hdefined : ∀ name ∈ known, name ∈ table.map Prod.fst) (hunique : (table.map Prod.fst).Nodup)
    (hfar : ∃ name, .name name ∈ written ∧ ∃ address, table.lookup name = some address ∧
      Builder.maxAddress < address) :
    draft.finish = .error (.build .tooLong) := by
  have hexists : ∃ argument ∈ written, ¬ ∃ word,
      draft.builder.resolveSlot (slotOf draft.names.toList argument) = .ok word := by
    obtain ⟨name, hwritten, address, hlookup, hlarge⟩ := hfar
    refine ⟨.name name, hwritten, ?_⟩
    rw [h.resolveSlot_eq (h.used name hwritten) hlookup, if_neg (Nat.not_le_of_lt hlarge)]
    rintro ⟨word, hword⟩
    cases hword
  obtain ⟨before, argument, after, hsplit, hbefore, hnot⟩ := exists_first hexists
  have hargument : argument ∈ written := by rw [hsplit]; simp
  have herror : draft.builder.resolveSlot (slotOf draft.names.toList argument) =
      .error .tooLong := by
    cases argument with
    | word word => exact absurd ⟨word, rfl⟩ hnot
    | name name =>
      have hname := h.used name hargument
      cases hlookup : table.lookup name with
      | none => exact absurd (hdefined name hname) (lookup_eq_none_iff_not_mem.mp hlookup)
      | some address =>
        have hresolved := h.resolveSlot_eq hname hlookup
        split at hresolved
        · exact absurd ⟨_, hresolved⟩ hnot
        · exact hresolved
  rw [h.finish_eq hdefined hunique, hsplit, mapM_eq_error hbefore herror]
  rfl

/-- When some name that has been met is not defined, or one is defined twice, the
draft cannot be finished. -/
theorem Follows.finish_of_undefined (h : draft.Follows known table written)
    (hwrong : (∃ name ∈ known, name ∉ table.map Prod.fst) ∨ ¬ (table.map Prod.fst).Nodup) :
    ∃ error, draft.finish = .error error := by
  unfold Draft.finish
  cases hname : draft.undefinedName? with
  | some name => exact ⟨_, rfl⟩
  | none =>
    have hdefined := h.undefinedName?_eq_none_iff.mp hname
    have htwice : ¬ (table.map Prod.fst).Nodup := by
      rcases hwrong with ⟨name, hname, hnot⟩ | htwice
      · exact absurd (hdefined name hname) hnot
      · exact htwice
    cases herror : draft.builder.error with
    | none => exact absurd (h.error.mp herror) htwice
    | some mistake =>
      refine ⟨.build mistake, ?_⟩
      dsimp only
      rw [Builder.finish, herror]
      rfl

end Draft

/-- The labels of a program are in order: every name that is used is defined, no name
is defined twice, and the addresses of the names that are used fit into words. -/
structure WellLabelled (statements : List Statement) : Prop where
  /-- Every name that is used is defined. -/
  defined : ∀ name ∈ references statements, name ∈ (definitions 0 statements).map Prod.fst
  /-- No name is defined twice. -/
  unique : ((definitions 0 statements).map Prod.fst).Nodup
  /-- The addresses of the names that are used fit into words. -/
  fits : ∀ entry ∈ definitions 0 statements, entry.1 ∈ references statements →
    entry.2 ≤ Builder.maxAddress

variable {statements : List Statement}

/-- The names that are defined are those of the labels. -/
theorem map_fst_definitions (address : Nat) (statements : List Statement) :
    (definitions address statements).map Prod.fst = statements.flatMap Statement.labels := by
  induction statements generalizing address with
  | nil => rfl
  | cons statement statements ih =>
    rw [definitions, List.map_append, ih, List.flatMap_cons, List.map_map]
    congr 1
    exact List.map_id _

/-- A name is mentioned where it is defined or used. -/
theorem mem_flatMap_mentions {name : Name} :
    name ∈ statements.flatMap Statement.mentions ↔
      name ∈ (definitions 0 statements).map Prod.fst ∨ name ∈ references statements := by
  rw [map_fst_definitions, references, List.filterMap_flatMap]
  simp only [List.mem_flatMap, Statement.mentions, List.mem_append]
  constructor
  · rintro ⟨statement, hstatement, hlabel | huse⟩
    · exact Or.inl ⟨statement, hstatement, hlabel⟩
    · exact Or.inr ⟨statement, hstatement, huse⟩
  · rintro (⟨statement, hstatement, hlabel⟩ | ⟨statement, hstatement, huse⟩)
    · exact ⟨statement, hstatement, Or.inl hlabel⟩
    · exact ⟨statement, hstatement, Or.inr huse⟩

/-- The draft of a whole program has met its names, and holds its definitions and its
words. -/
theorem follows_statements (hcounts : Counted statements) :
    (statements.foldl Draft.addStatement {}).Follows (statements.flatMap Statement.mentions)
      (definitions 0 statements) (statements.flatMap Statement.words) := by
  have hfollows := Draft.follows_empty.addStatements hcounts
  exact hfollows

/-- A program whose labels are in order is assembled into its meaning. -/
theorem ofStatements_of_wellLabelled (hcounts : Counted statements)
    (h : WellLabelled statements) : ofStatements statements = .ok (code statements).toArray := by
  apply (follows_statements hcounts).finish_of_defined _ h.unique
  · intro name hname address hlookup
    have hentry : (name, address) ∈ definitions 0 statements := by
      obtain ⟨before, after, hsplit, -⟩ := List.lookup_eq_some_iff.mp hlookup
      simp [hsplit]
    exact h.fits _ hentry (List.mem_filterMap.mpr ⟨.name name, hname, rfl⟩)
  · intro name hname
    rcases mem_flatMap_mentions.mp hname with hdefined | hused
    · exact hdefined
    · exact h.defined name hused

/-- A program that uses a name without defining it, or defines one twice, is
reported. -/
theorem ofStatements_of_mislabelled (hcounts : Counted statements)
    (h : (∃ name ∈ references statements, name ∉ (definitions 0 statements).map Prod.fst) ∨
      ¬ ((definitions 0 statements).map Prod.fst).Nodup) :
    ∃ error, ofStatements statements = .error error := by
  apply (follows_statements hcounts).finish_of_undefined
  apply h.imp_left
  rintro ⟨name, hused, hnot⟩
  exact ⟨name, mem_flatMap_mentions.mpr (Or.inr hused), hnot⟩

end LanguageKit.Program
