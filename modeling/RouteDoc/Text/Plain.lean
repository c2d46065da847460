/-!
# `RouteDoc.Text.Plain`: texts without what is for a terminal

A text may hold control characters. Some of them lay the text out: tab,
line feed, form feed and carriage return. The others show nothing; a
terminal obeys them. An escape character begins a sequence, in which
even printable characters are for the terminal. A text is made plain by
leaving all of that out.

An escape sequence is over after one character, which intermediate
characters may precede. Some of these characters begin a longer
sequence: a control sequence with parameters, or a string. Strings take
in whatever comes until they are terminated. In other sequences a
layout control keeps its meaning; it interrupts the sequence, and the
text shows until the next control, at which the sequence goes on. The
controls that cancel a sequence end it, and a new escape character
takes its place.

* `plain_eq_self`: a text of plain characters is left as it is.
* `isPlain_of_mem_plain`: only plain characters are left of a text.
-/

set_option autoImplicit false

namespace RouteDoc.Text

/-- Whether a control character lays a text out. -/
def isLayout (c : Char) : Bool := c = '\t' || c = '\n' || c = '\x0c' || c = '\r'

/-- Whether a character shows in a text. Outside ASCII every character
counts as one that does. -/
def isPlain (c : Char) : Bool := isLayout c || (' ' ≤ c && c != '\x7f')

/-- What a terminal has read of a sequence. -/
inductive Sequence where
  /-- The escape character. -/
  | escape
  /-- The escape character and intermediate characters. -/
  | intermediate
  /-- The start of a control sequence. -/
  | control
  /-- The introducer of a device string. -/
  | device
  /-- A device string as far as its parameters. -/
  | deviceParameters
  /-- A device string as far as its intermediate characters. -/
  | deviceIntermediate
  /-- A string that lasts until the string terminator. -/
  | string
  /-- A command to the system, which lasts until a bell. -/
  | command
  deriving DecidableEq, Repr

/-- Where in a text a terminal is. -/
inductive Reading where
  /-- In the text proper. -/
  | text
  /-- In a sequence. -/
  | within (s : Sequence)
  /-- In text that interrupts a sequence. -/
  | interrupted (s : Sequence)
  deriving DecidableEq, Repr

namespace Sequence

/-- Whether a layout control interrupts the sequence. -/
def isInterruptible : Sequence → Bool
  | escape | intermediate | control => true
  | _ => false

/-- Whether a character is an intermediate one. -/
def isIntermediate (c : Char) : Bool := ' ' ≤ c && c ≤ '/'

/-- Whether a character terminates a string. A terminal reads bytes, and
the string terminator is the byte `9C`, which may be a part of a
character. -/
def terminates (c : Char) : Bool := (String.utf8EncodeChar c).contains 0x9C

/-- The sequence after one more character that belongs to it, or none
if it is over. -/
def extended (s : Sequence) (c : Char) : Option Sequence :=
  match s with
  | escape =>
    if c = '[' then some control
    else if c = ']' then some command
    else if c = 'P' then some device
    else if c = 'X' || c = '^' || c = '_' then some string
    else if isIntermediate c then some intermediate
    else if '0' ≤ c && c ≤ '~' then none
    else some escape
  | intermediate => if '0' ≤ c && c ≤ '~' then none else some intermediate
  | control => if '@' ≤ c && c ≤ '~' then none else some control
  | device =>
    if isIntermediate c then some deviceIntermediate
    else if '0' ≤ c && c ≤ '?' then some deviceParameters
    else if '@' ≤ c && c ≤ '~' then some string
    else some device
  | deviceParameters =>
    if isIntermediate c then some deviceIntermediate
    else if '<' ≤ c && c ≤ '~' then some string
    else some deviceParameters
  | deviceIntermediate => if '0' ≤ c && c ≤ '~' then some string else some deviceIntermediate
  | string => if terminates c then none else some string
  | command => if c = '\x07' then none else some command

/-- Where a terminal is after one more character in a sequence. -/
def after (s : Sequence) (c : Char) : Reading :=
  if c = '\x1b' then .within escape
  else if c = '\x18' || c = '\x1a' then .text
  else match s.extended c with
    | some s => .within s
    | none => .text

end Sequence

namespace Reading

/-- Whether the next character shows. -/
def shows : Reading → Char → Bool
  | text, c | interrupted _, c => isPlain c
  | within s, c => s.isInterruptible && isLayout c

/-- Where a terminal is after one more character. Text that interrupts a
sequence supersedes it with the first character outside ASCII. -/
def after : Reading → Char → Reading
  | text, c => if c = '\x1b' then within .escape else text
  | within s, c => if s.isInterruptible && isLayout c then interrupted s else s.after c
  | interrupted s, c =>
    if !isPlain c then s.after c
    else if c ≤ '\x7f' then interrupted s
    else text

/-- What shows is plain. -/
theorem isPlain_of_shows {r : Reading} {c : Char} (h : r.shows c = true) : isPlain c = true := by
  cases r with
  | text => exact h
  | interrupted s => exact h
  | within s =>
    rw [shows, Bool.and_eq_true] at h
    rw [isPlain, h.2, Bool.true_or]

/-- Plain characters lead nowhere else from the text proper. -/
theorem after_text {c : Char} (h : isPlain c = true) : text.after c = text := by
  rw [after, if_neg]
  rintro rfl
  exact absurd h (by decide)

end Reading

/-- What shows of the rest of a text. -/
def plainFrom (r : Reading) : List Char → List Char
  | [] => []
  | c :: s => if r.shows c then c :: plainFrom (r.after c) s else plainFrom (r.after c) s

/-- What shows of a text. -/
def plain (s : List Char) : List Char := plainFrom .text s

/-- Only plain characters are left of a text. -/
theorem isPlain_of_mem_plainFrom {r : Reading} {s : List Char} {c : Char}
    (h : c ∈ plainFrom r s) : isPlain c = true := by
  induction s generalizing r with
  | nil => cases h
  | cons d s ih =>
    rw [plainFrom] at h
    split at h
    · rename_i hd
      rcases List.mem_cons.1 h with rfl | h
      · exact Reading.isPlain_of_shows hd
      · exact ih h
    · exact ih h

/-- Only plain characters are left of a text. -/
theorem isPlain_of_mem_plain {s : List Char} {c : Char} (h : c ∈ plain s) : isPlain c = true :=
  isPlain_of_mem_plainFrom h

/-- A text of plain characters is left as it is. -/
theorem plain_eq_self {s : List Char} (h : ∀ c ∈ s, isPlain c = true) : plain s = s := by
  induction s with
  | nil => rfl
  | cons c s ih =>
    have hc := h c List.mem_cons_self
    have hs := ih fun d hd => h d (List.mem_cons_of_mem c hd)
    rw [plain] at hs ⊢
    rw [plainFrom, Reading.shows, if_pos hc, Reading.after_text hc, hs]

end RouteDoc.Text
