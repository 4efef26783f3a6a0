import LanguageKit.Text.FullForm

/-!
# Byte spans

A span names a stretch of the source by its two byte offsets. Nothing forces
the end to lie behind the start; the length of a reversed span is not defined.
-/

namespace LanguageKit

open Text

/-- A stretch of the source, in bytes. -/
structure Span where
  /-- The offset of the first byte. -/
  start : Nat
  /-- The offset behind the last byte. -/
  stop : Nat
  deriving DecidableEq, Inhabited

namespace Span

/-- The number of bytes, unless the span is reversed. -/
def length? (span : Span) : Option Nat :=
  if span.start ≤ span.stop then some (span.stop - span.start) else none

/-- Whether both ends coincide. -/
def isEmpty (span : Span) : Bool := span.start = span.stop

/-- The short form: both offsets, separated by two dots. -/
def text (span : Span) : String := natText span.start ++ ".." ++ natText span.stop

/-- The full form names both offsets. -/
instance : FullForm Span :=
  ⟨fun span => recordForm "SourceSpan"
    [("start", fullForm span.start), ("end", fullForm span.stop)]⟩

/-- A length is defined exactly for spans that are not reversed. -/
theorem length?_isSome_iff (span : Span) :
    span.length?.isSome = true ↔ span.start ≤ span.stop := by
  unfold length?
  split <;> simp_all

end Span

end LanguageKit
