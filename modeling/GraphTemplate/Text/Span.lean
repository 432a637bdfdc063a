/-!
# Byte spans

Positions in a text are counted in bytes of its UTF-8 encoding.  A span is the half-open range of
positions between a start and a stop; `Span.slice` reads the characters it covers.
-/

namespace GraphTemplate

namespace Text

/-- The number of bytes of a text in UTF-8. -/
def byteLength : List Char → Nat
  | [] => 0
  | c :: rest => c.utf8Size + byteLength rest

/-- The longest beginning of a text that fits into a number of bytes. -/
def takeBytes : Nat → List Char → List Char
  | _, [] => []
  | bytes, c :: rest =>
      if c.utf8Size ≤ bytes then c :: takeBytes (bytes - c.utf8Size) rest else []

/-- What `takeBytes` leaves over. -/
def dropBytes : Nat → List Char → List Char
  | _, [] => []
  | bytes, c :: rest =>
      if c.utf8Size ≤ bytes then dropBytes (bytes - c.utf8Size) rest else c :: rest

@[simp]
theorem byteLength_nil : byteLength [] = 0 :=
  rfl

@[simp]
theorem byteLength_cons (c : Char) (rest : List Char) :
    byteLength (c :: rest) = c.utf8Size + byteLength rest :=
  rfl

@[simp]
theorem byteLength_append (left right : List Char) :
    byteLength (left ++ right) = byteLength left + byteLength right := by
  induction left with
  | nil => simp
  | cons c rest ih => simp [ih, Nat.add_assoc]

theorem byteLength_pos {text : List Char} (nonempty : text ≠ []) : 0 < byteLength text := by
  cases text with
  | nil => exact absurd rfl nonempty
  | cons c rest =>
      have := Char.utf8Size_pos c
      simp only [byteLength_cons]
      omega

theorem takeBytes_append_dropBytes (bytes : Nat) (text : List Char) :
    takeBytes bytes text ++ dropBytes bytes text = text := by
  induction text generalizing bytes with
  | nil => rfl
  | cons c rest ih =>
      by_cases fits : c.utf8Size ≤ bytes <;> simp [takeBytes, dropBytes, fits, ih]

/-- On a character boundary the beginning is read back whole. -/
@[simp]
theorem takeBytes_byteLength_append (left right : List Char) :
    takeBytes (byteLength left) (left ++ right) = left := by
  induction left with
  | nil =>
      cases right with
      | nil => rfl
      | cons c rest =>
          have := Char.utf8Size_pos c
          simp only [byteLength_nil, List.nil_append, takeBytes]
          rw [if_neg (by omega)]
  | cons c rest ih => simp [takeBytes, ih]

/-- On a character boundary the end is left over whole. -/
@[simp]
theorem dropBytes_byteLength_append (left right : List Char) :
    dropBytes (byteLength left) (left ++ right) = right := by
  have split := takeBytes_append_dropBytes (byteLength left) (left ++ right)
  rw [takeBytes_byteLength_append] at split
  exact List.append_cancel_left split

end Text

/-- The bytes from `start` up to, and not including, `stop`. -/
structure Span where
  start : Nat
  stop : Nat
deriving DecidableEq, Repr

namespace Span

/-- The span of a text that begins at a position. -/
def ofText (start : Nat) (text : List Char) : Span :=
  ⟨start, start + Text.byteLength text⟩

/-- The characters of a source that a span covers. -/
def slice (span : Span) (source : List Char) : List Char :=
  Text.takeBytes (span.stop - span.start) (Text.dropBytes span.start source)

/-- A text found in a source is what its span covers there. -/
theorem slice_ofText (before text after : List Char) :
    (ofText (Text.byteLength before) text).slice (before ++ text ++ after) = text := by
  simp [slice, ofText, List.append_assoc]

end Span

end GraphTemplate
