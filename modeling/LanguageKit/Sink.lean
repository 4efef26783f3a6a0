import LanguageKit.Text.Bytes

/-!
# Places for program output

Program output goes to a place that may refuse it; what it took before stays
written. A sink is such a place that keeps the text written to it. It may have
room for a limited number of bytes; a text that does not fit is written as far as
it fits and then refused.
-/

namespace LanguageKit

open Text

/-- Why a text is refused. -/
structure Refusal where
  /-- The wording of the refusal. -/
  text : String
  deriving DecidableEq

/-- No room is left. -/
def Refusal.closed : Refusal := ⟨"closed"⟩

/-- Places that program output can be written to. -/
class Output (ω : Type) where
  /-- Writes a text, or as much of it as is taken before it is refused. -/
  write : ω → String → Except Refusal Unit × ω

/-- A place that keeps the output. -/
structure Sink where
  /-- Everything accepted so far. -/
  text : String := ""
  /-- The number of bytes that are still accepted, when there is a limit. -/
  room : Option Nat := none

namespace Sink

/-- The number of bytes accepted so far. -/
def size (sink : Sink) : Nat := sink.text.utf8ByteSize

/-- Writes a text: all of it when it fits, and otherwise only the beginning that
fits. -/
def write (sink : Sink) (text : String) : Except Refusal Unit × Sink :=
  match sink.room with
  | none => (.ok (), { sink with text := sink.text ++ text })
  | some room =>
    let accepted := String.ofList (takeBytes room text.toList)
    let rest := room - accepted.utf8ByteSize
    (if text.utf8ByteSize ≤ room then .ok () else .error .closed,
      { text := sink.text ++ accepted, room := some rest })

/-- Output can be written to a sink. -/
instance : Output Sink := ⟨write⟩

end Sink

end LanguageKit
