/-!
# `RouteDoc.Text.Bytes`: texts as bytes, and bytes as texts

A text is encoded in UTF-8. Names and paths of a file system are bytes
that need not be the encoding of a text. To be shown, such bytes are
read as far as they make sense: a part that begins a character and
breaks off, or that cannot begin one, stands as one replacement
character.

What may follow the first byte of a character depends on that byte,
since some bytes would encode a character in a longer way than
necessary, a surrogate, or nothing at all.

* `bytes_append`: texts are encoded piece by piece.
-/

set_option autoImplicit false

namespace RouteDoc.Text

/-- The bytes of a text in UTF-8. -/
def bytes (s : String) : List UInt8 := s.toUTF8.data.toList

/-- The bytes of one text come before those of the other. -/
theorem bytes_append (s t : String) : bytes (s ++ t) = bytes s ++ bytes t := by
  simp [bytes]

/-! ### Showing bytes -/

/-- Stands for bytes that encode no character. -/
def replacement : Char := '\uFFFD'

/-- A character whose first bytes have been read. -/
structure Begun where
  /-- The number that those bytes stand for. -/
  value : Nat
  /-- How many bytes are to come after the next one. -/
  more : Nat
  /-- The least next byte. -/
  least : UInt8
  /-- The greatest next byte. -/
  greatest : UInt8
  deriving DecidableEq, Repr

/-- The character that a byte begins, if it begins one of several
bytes. -/
def begin? (b : UInt8) : Option Begun :=
  if b < 0xC2 then none
  else if b < 0xE0 then some { value := b.toNat - 0xC0, more := 0, least := 0x80, greatest := 0xBF }
  else if b < 0xF0 then
    some { value := b.toNat - 0xE0
           more := 1
           least := if b = 0xE0 then 0xA0 else 0x80
           greatest := if b = 0xED then 0x9F else 0xBF }
  else if b < 0xF5 then
    some { value := b.toNat - 0xF0
           more := 2
           least := if b = 0xF0 then 0x90 else 0x80
           greatest := if b = 0xF4 then 0x8F else 0xBF }
  else none

/-- The characters that are complete with a first byte, and what it
begins. -/
def readFirst (b : UInt8) : List Char × Option Begun :=
  if b < 0x80 then ([Char.ofNat b.toNat], none)
  else match begin? b with
    | some begun => ([], some begun)
    | none => ([replacement], none)

/-- The characters that are complete with one more byte, and what is
begun after it. -/
def readNext (begun : Begun) (b : UInt8) : List Char × Option Begun :=
  if begun.least ≤ b ∧ b ≤ begun.greatest then
    let value := begun.value * 64 + (b.toNat - 0x80)
    match begun.more with
    | 0 => ([Char.ofNat value], none)
    | more + 1 => ([], some { value, more, least := 0x80, greatest := 0xBF })
  else
    -- The byte does not belong to the character that breaks off before it.
    let (read, next) := readFirst b
    (replacement :: read, next)

/-- The characters that bytes are shown as, after a beginning. -/
def readFrom : Option Begun → List UInt8 → List Char
  | none, [] => []
  | some _, [] => [replacement]
  | none, b :: bs =>
    let (read, begun) := readFirst b
    read ++ readFrom begun bs
  | some begun, b :: bs =>
    let (read, begun) := readNext begun b
    read ++ readFrom begun bs

/-- The text that bytes are shown as. -/
def shown (bs : List UInt8) : String := String.ofList (readFrom none bs)

end RouteDoc.Text
