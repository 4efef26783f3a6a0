import LanguageKit.Proofs.CursorMoves

/-!
# Lexers over byte offsets

A lexer can also be kept as a text with three numbers: the offset of the pending text, the
offset of the cursor, and how many bytes can be given back. Then every request cuts the text
at an offset or takes a width from one, and both can go wrong. An offset may lie inside a
code point or behind the end of the text, and a width may be larger than the offset. Such a
lexer has no answer when that happens, and none when a loop of it takes too many rounds.

A lexer with a cursor, shown in this way, always has an answer, and it is the answer of the
cursor. The one exception is the pending text of a lexer whose start lies behind its
position.
-/

namespace LanguageKit

namespace Text

/-- What is left of a text behind a number of bytes, unless they end inside a code point or
there are fewer. -/
def dropBytes? (count : Nat) : List Char → Option (List Char)
  | [] => if count = 0 then some [] else none
  | c :: rest =>
    if count = 0 then some (c :: rest)
    else if c.utf8Size ≤ count then dropBytes? (count - c.utf8Size) rest else none

/-- The part of a text between two offsets, unless they are reversed or one of them lies
inside a code point or behind the end. -/
def slice? (start stop : Nat) (text : List Char) : Option (List Char) :=
  if start ≤ stop then do
    let front ← dropBytes? start text
    let back ← dropBytes? stop text
    some (front.take (front.length - back.length))
  else none

/-- No bytes can always be left out. -/
theorem dropBytes?_zero (text : List Char) : dropBytes? 0 text = some text := by
  cases text <;> rfl

/-- The bytes of a beginning can be left out. -/
theorem dropBytes?_append (before after : List Char) :
    dropBytes? (byteSize before) (before ++ after) = some after := by
  induction before with
  | nil => exact dropBytes?_zero after
  | cons c rest ih =>
    have hpos := c.utf8Size_pos
    have hsome : byteSize (c :: rest) ≠ 0 := by rw [byteSize]; omega
    have hfits : c.utf8Size ≤ byteSize (c :: rest) := Nat.le_add_right _ _
    have hrest : byteSize (c :: rest) - c.utf8Size = byteSize rest := Nat.add_sub_cancel_left _ _
    rw [List.cons_append, dropBytes?, if_neg hsome, if_pos hfits, hrest, ih]

/-- Only the bytes of a beginning can be left out. -/
theorem exists_append_of_dropBytes? {count : Nat} {text after : List Char}
    (h : dropBytes? count text = some after) :
    ∃ before, text = before ++ after ∧ byteSize before = count := by
  induction text generalizing count with
  | nil =>
    rw [dropBytes?] at h
    split at h
    · rename_i hzero
      exact ⟨[], Option.some.inj h, hzero.symm⟩
    · contradiction
  | cons c rest ih =>
    rw [dropBytes?] at h
    split at h
    · rename_i hzero
      exact ⟨[], Option.some.inj h, hzero.symm⟩
    · split at h
      · rename_i hfits
        obtain ⟨before, hrest, hsize⟩ := ih h
        exact ⟨c :: before, by rw [hrest]; rfl, by rw [byteSize]; omega⟩
      · contradiction

/-- A text can be cut at an offset exactly when no code point lies across it. -/
theorem isSome_dropBytes?_iff (text : String) (offset : Nat) :
    (dropBytes? offset text.toList).isSome = true ↔ String.Pos.Raw.IsValid text ⟨offset⟩ := by
  rw [String.Pos.Raw.isValid_iff_exists_append, Option.isSome_iff_exists]
  constructor
  · rintro ⟨after, h⟩
    obtain ⟨before, htext, hsize⟩ := exists_append_of_dropBytes? h
    refine ⟨String.ofList before, String.ofList after, ?_, ?_⟩
    · rw [← String.ofList_append, ← htext, String.ofList_toList]
    · rw [String.Pos.Raw.ext_iff, String.rawEndPos, utf8ByteSize_ofList, hsize]
  · rintro ⟨before, after, rfl, hoffset⟩
    refine ⟨after.toList, ?_⟩
    have hsize : offset = byteSize before.toList := by
      rw [byteSize_toList]
      exact String.Pos.Raw.ext_iff.mp hoffset
    rw [hsize, String.toList_append, dropBytes?_append]

/-- A part of a text can be cut out. -/
theorem slice?_append (before part after : List Char) :
    slice? (byteSize before) (byteSize (before ++ part)) (before ++ part ++ after) =
      some part := by
  have hle : byteSize before ≤ byteSize (before ++ part) := by
    rw [byteSize_append]
    exact Nat.le_add_right _ _
  have hfront : dropBytes? (byteSize before) (before ++ part ++ after) = some (part ++ after) := by
    rw [List.append_assoc, dropBytes?_append]
  have hlength : (part ++ after).length - after.length = part.length := by
    rw [List.length_append, Nat.add_sub_cancel]
  rw [slice?, if_pos hle, hfront, dropBytes?_append]
  change some ((part ++ after).take ((part ++ after).length - after.length)) = some part
  rw [hlength, List.take_left]

end Text

open Text Lexer

/-- A lexer that keeps byte offsets into its text. -/
structure ByteLexer where
  /-- The text. -/
  text : List Char
  /-- The offset at which the pending text starts. -/
  start : Nat
  /-- The offset of the first byte that has not been consumed. -/
  position : Nat
  /-- The number of bytes that can be given back. -/
  width : Nat
  /-- The items that have been published and not been taken, oldest first. -/
  queue : List Item
  /-- Whether an item that ends the sequence has been published. -/
  finished : Bool
  /-- What has been recorded, oldest first. -/
  log : Array Event

namespace ByteLexer

variable {σ : Type}

/-- The lexer in front of a text. -/
def ofText (text : String) : ByteLexer := ⟨text.toList, 0, 0, 0, [], false, #[]⟩

/-- The span of the pending text. -/
def span (lexer : ByteLexer) : Span := ⟨lexer.start, lexer.position⟩

/-- The text that has not been consumed. -/
def ahead? (lexer : ByteLexer) : Option (List Char) := dropBytes? lexer.position lexer.text

/-- The pending text. -/
def pending? (lexer : ByteLexer) : Option String :=
  (slice? lexer.start lexer.position lexer.text).map String.ofList

/-- Consumes one code point, and remembers its width. -/
def next? (lexer : ByteLexer) : Option (Option Char × ByteLexer) := do
  match ← lexer.ahead? with
  | [] => some (none, { lexer with width := 0 })
  | c :: _ =>
    some (some c, { lexer with position := lexer.position + c.utf8Size, width := c.utf8Size })

/-- Takes the width back from the position. -/
def backup? (lexer : ByteLexer) : Option ByteLexer :=
  if lexer.width ≤ lexer.position then
    some { lexer with position := lexer.position - lexer.width, width := 0 }
  else none

/-- Consumes one code point and gives it back. -/
def peek? (lexer : ByteLexer) : Option (Option Char × ByteLexer) := do
  let (seen, moved) ← lexer.next?
  let back ← moved.backup?
  some (seen, back)

/-- Consumes the next code point and gives it back unless a judge approves of it. -/
def acceptIf? (lexer : ByteLexer) (judge : Judge σ) (state : σ) :
    Option (Bool × σ × ByteLexer) := do
  match ← lexer.next? with
  | (some c, moved) =>
    let (answer, state) := judge.ask state c
    if answer then some (true, state, moved)
    else
      let back ← moved.backup?
      some (false, state, back)
  | (none, moved) =>
    let back ← moved.backup?
    some (false, state, back)

/-- Consumes code points for as long as a judge approves of them. There is no answer when the
number of rounds does not suffice. -/
def acceptWhile? (judge : Judge σ) : Nat → ByteLexer → σ → Option (Nat × σ × ByteLexer)
  | 0, _, _ => none
  | rounds + 1, lexer, state => do
    let (accepted, state, moved) ← lexer.acceptIf? judge state
    if accepted then
      let (count, state, last) ← acceptWhile? judge rounds moved state
      some (count + 1, state, last)
    else some (0, state, moved)

/-- The number of rounds a loop is given: one for each code point of the text, and one more. -/
def rounds (lexer : ByteLexer) : Nat := lexer.text.length + 1

/-- Adds the size of a nonempty literal to the position if the literal comes next. -/
def acceptPrefix? (lexer : ByteLexer) (literal : List Char) : Option (Bool × ByteLexer) :=
  if literal.isEmpty then some (false, lexer)
  else do
    let ahead ← lexer.ahead?
    if literal.isPrefixOf ahead then
      some (true, { lexer with position := lexer.position + byteSize literal, width := 0 })
    else some (false, lexer)

/-- Starts a new pending text at the position. -/
def restart (lexer : ByteLexer) : ByteLexer := { lexer with start := lexer.position }

/-- Adds an item to the queue. -/
def enqueue (lexer : ByteLexer) (item : Item) (event : Event) : ByteLexer :=
  { lexer with
    queue := lexer.queue ++ [item]
    finished := item.token.isTerminal
    log := lexer.log.push event }

/-- Publishes the pending text under a token and starts a new one, unless the lexer is
finished. -/
def emit? (lexer : ByteLexer) (token : Token) : Option ByteLexer :=
  if lexer.finished then some { lexer with log := lexer.log.push (.dropped token) }
  else do
    let lexeme ← lexer.pending?
    let item : Item := ⟨token, lexeme, lexer.span⟩
    some (lexer.enqueue item (.published item)).restart

/-- Publishes a failure with the span of the pending text, unless the lexer is finished. -/
def fail (lexer : ByteLexer) (message : String) : ByteLexer :=
  if lexer.finished then lexer
  else
    let item := Item.failed message lexer.span
    lexer.enqueue item (.failed item)

/-- The full form shows the offsets, the length of the queue and the end mark. -/
instance : FullForm ByteLexer :=
  ⟨fun lexer => recordForm "Lexer"
    [("start", fullForm lexer.start), ("position", fullForm lexer.position),
      ("width", fullForm lexer.width), ("pending", fullForm lexer.queue.length),
      ("finished", fullForm lexer.finished)]⟩

/-- Carries out a request. There is no answer when an offset or a width goes wrong. -/
def perform? (lexer : ByteLexer) : (request : Request) → Option (request.Reply × ByteLexer)
  | .next => lexer.next?
  | .backup => lexer.backup?.map fun moved => ((), moved)
  | .peek => lexer.peek?
  | .accept valid =>
    (lexer.acceptIf? (Judge.ofTest valid.toList.contains) ()).map fun (answer, _, moved) =>
      (answer, moved)
  | .acceptRun valid =>
    (acceptWhile? (Judge.ofTest valid.toList.contains) lexer.rounds lexer ()).map
      fun (count, _, moved) => (count, moved)
  | .acceptIf test =>
    (lexer.acceptIf? (Judge.ofTest test) ()).map fun (answer, _, moved) => (answer, moved)
  | .acceptWhile test =>
    (acceptWhile? (Judge.remembering test) lexer.rounds lexer []).map
      fun (count, _, moved) => (count, moved)
  | .acceptPrefix literal => lexer.acceptPrefix? literal.toList
  | .emit token => (lexer.emit? token).map fun published => ((), published)
  | .ignore => some ((), lexer.restart)
  | .fail message => some ((), lexer.fail message)
  | .remainingInput => lexer.ahead?.map fun ahead => (String.ofList ahead, lexer)
  | .input => some (String.ofList lexer.text, lexer)
  | .start => some (lexer.start, lexer)
  | .position => some (lexer.position, lexer)
  | .pending => lexer.pending?.map fun text => (text, lexer)
  | .inspect => some (fullForm lexer, lexer)

/-- The lexer after a request. A request without an answer leaves it as it was. -/
def serve (lexer : ByteLexer) (request : Request) : ByteLexer :=
  match lexer.perform? request with
  | some (_, moved) => moved
  | none => lexer

/-- The lexer after requests, one after the other. -/
def serveAll (lexer : ByteLexer) (requests : List Request) : ByteLexer :=
  requests.foldl serve lexer

end ByteLexer

namespace Lexer

/-- A lexer with a cursor, shown as one with offsets. -/
def bytes (lexer : Lexer) : ByteLexer :=
  ⟨lexer.cursor.text, lexer.cursor.start, lexer.cursor.position, lexer.cursor.width,
    lexer.queue, lexer.finished, lexer.log⟩

/-- The same lexer at another place. -/
def goTo (lexer : Lexer) (cursor : Cursor) : Lexer := { lexer with cursor }

variable {σ : Type}

/-- A move that keeps the text and the start changes the position and the width only. -/
theorem bytes_goTo {lexer : Lexer} {cursor : Cursor} (htext : cursor.text = lexer.cursor.text)
    (hstart : cursor.start = lexer.cursor.start) :
    (lexer.goTo cursor).bytes =
      { lexer.bytes with position := cursor.position, width := cursor.width } := by
  simp only [bytes, goTo, htext, hstart]

/-- Skipping code points adds their size to the position. -/
theorem bytes_skip (lexer : Lexer) (count : Nat) :
    (lexer.goTo (lexer.cursor.skip count)).bytes =
      { lexer.bytes with
        position := lexer.cursor.position + byteSize (lexer.cursor.ahead.take count)
        width := 0 } := by
  rw [bytes_goTo (lexer.cursor.text_skip count) rfl, Cursor.position_skip]
  rfl

/-- The text ahead of a cursor can be cut off at its position. -/
theorem ahead?_bytes (lexer : Lexer) : lexer.bytes.ahead? = some lexer.cursor.ahead := by
  have hposition : lexer.bytes.position = byteSize lexer.cursor.consumed.reverse :=
    lexer.cursor.byteSize_reverse_consumed.symm
  rw [ByteLexer.ahead?, hposition]
  exact dropBytes?_append _ _

/-- The next code point can be decoded at the position. -/
theorem next?_bytes (lexer : Lexer) :
    lexer.bytes.next? = some (lexer.cursor.next.1, (lexer.goTo lexer.cursor.next.2).bytes) := by
  obtain ⟨hforward, hposition⟩ := lexer.cursor.forward_next
  rw [bytes_goTo lexer.cursor.text_next hforward.start, hposition, ByteLexer.next?, ahead?_bytes]
  cases hahead : lexer.cursor.ahead with
  | nil =>
    rw [Cursor.next_of_nil hahead]
    rfl
  | cons c rest =>
    rw [Cursor.next_of_cons hahead]
    rfl

/-- The width can be taken back from the position. -/
theorem backup?_bytes (lexer : Lexer) :
    lexer.bytes.backup? = some (lexer.goTo lexer.cursor.backup).bytes := by
  have hback := lexer.cursor.position_backup
  have hle : lexer.cursor.width ≤ lexer.cursor.position := by omega
  have hposition : lexer.cursor.position - lexer.cursor.width = lexer.cursor.backup.position := by
    omega
  rw [bytes_goTo lexer.cursor.text_backup lexer.cursor.start_backup, ByteLexer.backup?,
    ← hposition, lexer.cursor.width_backup]
  exact if_pos hle

/-- What has been consumed can be given back. -/
theorem backup?_next (lexer : Lexer) :
    (lexer.goTo lexer.cursor.next.2).bytes.backup? =
      some (lexer.goTo (lexer.cursor.skip 0)).bytes := by
  rw [← Cursor.backup_next]
  exact backup?_bytes (lexer.goTo lexer.cursor.next.2)

/-- Looking at the next code point always has an answer. -/
theorem peek?_bytes (lexer : Lexer) :
    lexer.bytes.peek? = some (lexer.cursor.peek.1, (lexer.goTo lexer.cursor.peek.2).bytes) := by
  rw [Cursor.peek_eq, ByteLexer.peek?, next?_bytes]
  change (lexer.goTo lexer.cursor.next.2).bytes.backup?.bind
    (fun back => some (lexer.cursor.next.1, back)) = _
  rw [backup?_next]
  rfl

/-- At the end of the text nothing is accepted, and a judge is not asked. -/
theorem acceptIf?_of_nil {lexer : Lexer} (h : lexer.cursor.ahead = []) (judge : Judge σ)
    (state : σ) :
    lexer.bytes.acceptIf? judge state =
      some (false, state, (lexer.goTo (lexer.cursor.skip 0)).bytes) := by
  have hnext : lexer.cursor.next.1 = none := by rw [Cursor.next_of_nil h]
  simp only [ByteLexer.acceptIf?, next?_bytes, hnext, backup?_next, Option.bind_eq_bind,
    Option.bind_some]

/-- A code point that a judge approves of stays consumed. -/
theorem acceptIf?_of_yes {lexer : Lexer} {c : Char} {rest : List Char}
    (h : lexer.cursor.ahead = c :: rest) {judge : Judge σ} {state : σ}
    (hyes : (judge.ask state c).1 = true) :
    lexer.bytes.acceptIf? judge state =
      some (true, (judge.ask state c).2, (lexer.goTo lexer.cursor.next.2).bytes) := by
  have hnext : lexer.cursor.next.1 = some c := by rw [Cursor.next_of_cons h]
  simp only [ByteLexer.acceptIf?, next?_bytes, hnext, hyes, if_true, Option.bind_eq_bind,
    Option.bind_some]

/-- A code point that a judge does not approve of is given back. -/
theorem acceptIf?_of_no {lexer : Lexer} {c : Char} {rest : List Char}
    (h : lexer.cursor.ahead = c :: rest) {judge : Judge σ} {state : σ}
    (hno : (judge.ask state c).1 = false) :
    lexer.bytes.acceptIf? judge state =
      some (false, (judge.ask state c).2, (lexer.goTo (lexer.cursor.skip 0)).bytes) := by
  have hnext : lexer.cursor.next.1 = some c := by rw [Cursor.next_of_cons h]
  simp only [ByteLexer.acceptIf?, next?_bytes, hnext, hno, Bool.false_eq_true, if_false,
    backup?_next, Option.bind_eq_bind, Option.bind_some]

/-- Accepting a code point always has an answer. -/
theorem acceptIf?_bytes (lexer : Lexer) (test : Char → Bool) :
    lexer.bytes.acceptIf? (Judge.ofTest test) () =
      some ((lexer.cursor.acceptIf test).1, (),
        (lexer.goTo (lexer.cursor.acceptIf test).2).bytes) := by
  cases h : lexer.cursor.ahead with
  | nil => rw [acceptIf?_of_nil h, Cursor.acceptIf_of_nil h]
  | cons c rest =>
    cases hc : test c with
    | true =>
      have hyes : ((Judge.ofTest test).ask () c).1 = true := hc
      rw [acceptIf?_of_yes h hyes, Cursor.acceptIf_of_pass h hc]
    | false =>
      have hno : ((Judge.ofTest test).ask () c).1 = false := hc
      rw [acceptIf?_of_no h hno, Cursor.acceptIf_of_fail h hc]

/-- A loop ends behind the longest beginning of the text ahead that a judge approves of, if it
is given a round for each code point of it and one more. The judge has been asked about this
beginning and about the code point behind it. -/
theorem acceptWhile?_bytes (judge : Judge σ) {state : σ} {text : List Char} {lexer : Lexer}
    (hahead : lexer.cursor.ahead = text) {rounds : Nat}
    (hrounds : (judge.longest state text).length < rounds) :
    ByteLexer.acceptWhile? judge rounds lexer.bytes state =
      some ((judge.longest state text).length,
        judge.after state (text.take ((judge.longest state text).length + 1)),
        (lexer.goTo (lexer.cursor.skip (judge.longest state text).length)).bytes) := by
  -- along the text ahead, since behind an accepted code point the rest is ahead
  induction text generalizing lexer state rounds with
  | nil =>
    obtain ⟨rounds, rfl⟩ := Nat.exists_eq_succ_of_ne_zero (Nat.ne_zero_of_lt hrounds)
    simp only [ByteLexer.acceptWhile?, acceptIf?_of_nil hahead, Option.bind_eq_bind,
      Option.bind_some, Bool.false_eq_true, if_false]
    rfl
  | cons c rest ih =>
    obtain ⟨rounds, rfl⟩ := Nat.exists_eq_succ_of_ne_zero (Nat.ne_zero_of_lt hrounds)
    cases hanswer : (judge.ask state c).1 with
    | true =>
      rw [Judge.longest_of_yes hanswer, List.length_cons] at hrounds ⊢
      have hrest : (lexer.goTo lexer.cursor.next.2).cursor.ahead = rest := by
        rw [Cursor.next_of_cons hahead]
        rfl
      have hloop := ih hrest (Nat.lt_of_succ_lt_succ hrounds)
      rw [← Cursor.skip_next hahead]
      simp only [ByteLexer.acceptWhile?, acceptIf?_of_yes hahead hanswer, hloop, if_true,
        Option.bind_eq_bind, Option.bind_some]
      rfl
    | false =>
      rw [Judge.longest_of_no hanswer]
      simp only [ByteLexer.acceptWhile?, acceptIf?_of_no hahead hanswer, Option.bind_eq_bind,
        Option.bind_some, Bool.false_eq_true, if_false]
      rfl

/-- The rounds of a loop suffice. -/
theorem length_longest_lt (lexer : Lexer) (judge : Judge σ) (state : σ) :
    (judge.longest state lexer.cursor.ahead).length < lexer.bytes.rounds := by
  have hle := (judge.longest_prefix state lexer.cursor.ahead).length_le
  have hrounds : lexer.bytes.rounds =
      lexer.cursor.consumed.reverse.length + lexer.cursor.ahead.length + 1 :=
    congrArg (· + 1) List.length_append
  omega

/-- Accepting a literal always has an answer. -/
theorem acceptPrefix?_bytes (lexer : Lexer) (literal : List Char) :
    lexer.bytes.acceptPrefix? literal =
      some ((lexer.cursor.acceptPrefix literal).1,
        (lexer.goTo (lexer.cursor.acceptPrefix literal).2).bytes) := by
  by_cases hsome : literal = []
  · have hother : ¬ (literal ≠ [] ∧ literal <+: lexer.cursor.ahead) := fun h => h.1 hsome
    rw [Cursor.acceptPrefix_of_other hother, ByteLexer.acceptPrefix?, hsome]
    rfl
  have hnonempty : ¬ literal.isEmpty = true := by simpa using hsome
  rw [ByteLexer.acceptPrefix?, if_neg hnonempty, ahead?_bytes, Option.bind_eq_bind,
    Option.bind_some]
  by_cases hcomes : literal <+: lexer.cursor.ahead
  · obtain ⟨rest, hrest⟩ := hcomes
    rw [if_pos (List.isPrefixOf_iff_prefix.mpr ⟨rest, hrest⟩),
      Cursor.acceptPrefix_of_comes hsome ⟨rest, hrest⟩, bytes_skip, ← hrest, List.take_left]
    rfl
  · have hother : ¬ (literal ≠ [] ∧ literal <+: lexer.cursor.ahead) := fun h => hcomes h.2
    rw [if_neg (mt List.isPrefixOf_iff_prefix.mp hcomes), Cursor.acceptPrefix_of_other hother]
    rfl

/-- The pending text can be cut out between the offsets, unless the start lies behind the
position. -/
theorem pending?_bytes {lexer : Lexer} (h : lexer.cursor.Anchored) :
    lexer.bytes.pending? = lexer.pending.toOption := by
  cases h with
  | inside before pending hconsumed hstart =>
    have hsplit : lexer.cursor.consumed = pending.reverse ++ before.reverse := by
      rw [← List.reverse_append, ← hconsumed, List.reverse_reverse]
    have hposition : lexer.cursor.position = byteSize (before ++ pending) := by
      rw [← hconsumed, Cursor.byteSize_reverse_consumed]
    have hle : lexer.cursor.start ≤ lexer.cursor.position := by
      rw [hstart, hposition, byteSize_append]
      exact Nat.le_add_right _ _
    have hsize : lexer.cursor.position - lexer.cursor.start = byteSize pending.reverse := by
      rw [hstart, hposition, byteSize_append, Nat.add_sub_cancel_left, byteSize_reverse]
    have hslice : slice? lexer.cursor.start lexer.cursor.position lexer.cursor.text =
        some pending := by
      rw [hstart, hposition, Cursor.text, hconsumed]
      exact slice?_append before pending lexer.cursor.ahead
    have hcut : lexer.cursor.pending? = some pending := by
      rw [Cursor.pending?, if_pos hle, hsize, hsplit, takeBytes_append, takeBytes_zero,
        List.append_nil, List.reverse_reverse]
    change (slice? lexer.cursor.start lexer.cursor.position lexer.cursor.text).map
      String.ofList = _
    rw [hslice, Lexer.pending, hcut]
    rfl
  | behind c rest hheld hahead hstart =>
    -- a code point takes a byte at least, so both cuts are reversed
    have hreversed : ¬ lexer.cursor.start ≤ lexer.cursor.position := by
      have hpos := c.utf8Size_pos
      omega
    have hcut : lexer.cursor.pending? = none := by rw [Cursor.pending?, if_neg hreversed]
    have hslice : slice? lexer.cursor.start lexer.cursor.position lexer.cursor.text = none := by
      rw [slice?, if_neg hreversed]
    change (slice? lexer.cursor.start lexer.cursor.position lexer.cursor.text).map
      String.ofList = _
    rw [hslice, Lexer.pending, hcut]
    rfl

/-- Publishing shows the pending text or has no answer. -/
theorem emit?_bytes {lexer : Lexer} (h : lexer.cursor.Anchored) (token : Token) :
    lexer.bytes.emit? token = (lexer.emit token).toOption.map bytes := by
  have hpending := pending?_bytes h
  have hshown : lexer.bytes.finished = lexer.finished := rfl
  rw [ByteLexer.emit?, Lexer.emit, hshown]
  split
  · rfl
  · rw [hpending]
    cases lexer.pending with
    | error cut => rfl
    | ok lexeme => rfl

/-- Publishing a failure always has an answer. -/
theorem fail_bytes (lexer : Lexer) (message : String) :
    lexer.bytes.fail message = (lexer.fail message).bytes := by
  have hshown : lexer.bytes.finished = lexer.finished := rfl
  rw [ByteLexer.fail, Lexer.fail, hshown]
  split <;> rfl

/-- With its start in one of its two places a lexer answers a request from its offsets as it
does with its cursor, and has no answer only where the pending text cannot be cut out. -/
theorem perform?_bytes {lexer : Lexer} (h : lexer.cursor.Anchored) (request : Request) :
    lexer.bytes.perform? request =
      (lexer.perform request).toOption.map fun (reply, moved) => (reply, moved.bytes) := by
  cases request with
  | next => exact lexer.next?_bytes
  | backup =>
    rw [ByteLexer.perform?, backup?_bytes]
    rfl
  | peek => exact lexer.peek?_bytes
  | accept valid =>
    rw [ByteLexer.perform?, acceptIf?_bytes]
    rfl
  | acceptRun valid =>
    have hrounds := lexer.length_longest_lt (Judge.ofTest valid.toList.contains) ()
    have hrun : lexer.cursor.acceptRun valid.toList = _ :=
      Cursor.acceptWhile_test (Judge.ofTest valid.toList.contains) () lexer.cursor
    rw [ByteLexer.perform?, acceptWhile?_bytes _ rfl hrounds, perform, hrun]
    rfl
  | acceptIf test =>
    rw [ByteLexer.perform?, acceptIf?_bytes]
    rfl
  | acceptWhile test =>
    have hrounds := lexer.length_longest_lt (Judge.remembering test) []
    have hrun : lexer.cursor.acceptWhile test = _ :=
      Cursor.acceptWhileFrom_eq test [] lexer.cursor
    rw [ByteLexer.perform?, acceptWhile?_bytes _ rfl hrounds, perform, hrun]
    rfl
  | acceptPrefix literal => exact lexer.acceptPrefix?_bytes literal.toList
  | emit token =>
    rw [ByteLexer.perform?, emit?_bytes h, perform]
    cases lexer.emit token <;> rfl
  | ignore => rfl
  | fail message =>
    rw [ByteLexer.perform?, fail_bytes]
    rfl
  | remainingInput =>
    rw [ByteLexer.perform?, ahead?_bytes]
    rfl
  | input => rfl
  | start => rfl
  | position => rfl
  | pending =>
    rw [ByteLexer.perform?, pending?_bytes h, perform]
    cases lexer.pending <;> rfl
  | inspect => rfl

end Lexer

end LanguageKit
