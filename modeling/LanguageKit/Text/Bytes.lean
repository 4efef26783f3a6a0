/-!
# Sizes in bytes

Positions in a text count the bytes of its UTF-8 form, from one to four for
each character. Texts are lists of characters here.
-/

namespace LanguageKit.Text

/-- The number of bytes of a text. -/
def byteSize : List Char → Nat
  | [] => 0
  | c :: rest => c.utf8Size + byteSize rest

/-- The longest beginning of a text that fits into a number of bytes. -/
def takeBytes (room : Nat) : List Char → List Char
  | [] => []
  | c :: rest =>
    if c.utf8Size ≤ room then c :: takeBytes (room - c.utf8Size) rest else []

/-- The size of a joined text is the sum of the sizes. -/
theorem byteSize_append (a b : List Char) : byteSize (a ++ b) = byteSize a + byteSize b := by
  induction a with
  | nil => simp [byteSize]
  | cons c rest ih => simp [byteSize, ih, Nat.add_assoc]

/-- Reversal keeps the size. -/
theorem byteSize_reverse (text : List Char) : byteSize text.reverse = byteSize text := by
  induction text with
  | nil => rfl
  | cons c rest ih => simp [byteSize, byteSize_append, ih, Nat.add_comm]

/-- The size of a text does not depend on whether it is given as a list. -/
theorem utf8ByteSize_ofList (text : List Char) :
    (String.ofList text).utf8ByteSize = byteSize text := by
  induction text with
  | nil => rfl
  | cons c rest ih =>
    rw [String.ofList_cons, String.utf8ByteSize_append, String.utf8ByteSize_singleton,
      byteSize, ih]

/-- The size of a text does not depend on whether it is taken as a list. -/
theorem byteSize_toList (text : String) : byteSize text.toList = text.utf8ByteSize := by
  rw [← utf8ByteSize_ofList, String.ofList_toList]

/-- What is taken fits. -/
theorem byteSize_takeBytes_le (room : Nat) (text : List Char) :
    byteSize (takeBytes room text) ≤ room := by
  induction text generalizing room with
  | nil => simp [takeBytes, byteSize]
  | cons c rest ih =>
    unfold takeBytes
    split
    · have := ih (room - c.utf8Size)
      simp only [byteSize]
      omega
    · simp [byteSize]

/-- A text that fits is taken whole, with a text behind it or not. -/
theorem takeBytes_append (a b : List Char) :
    takeBytes (byteSize a) (a ++ b) = a ++ takeBytes 0 b := by
  induction a with
  | nil => rfl
  | cons c rest ih =>
    have h : c.utf8Size ≤ c.utf8Size + byteSize rest := Nat.le_add_right _ _
    simp [takeBytes, byteSize, h, ih]

/-- Nothing fits into no room. -/
theorem takeBytes_zero (text : List Char) : takeBytes 0 text = [] := by
  cases text with
  | nil => rfl
  | cons c rest =>
    have h : ¬ c.utf8Size ≤ 0 := by have := c.utf8Size_pos; omega
    simp [takeBytes, h]

end LanguageKit.Text
