/-!
# `RouteDoc.Text.Blank`: white space and trimming

Texts are worked on as lists of characters. A character is blank when
it has the Unicode property `White_Space`, which is wider than the
ASCII blanks (`U+0085`, `U+00A0` and `U+3000` are blank) and leaves
out the zero-width characters `U+200B` and `U+FEFF`.

* `isBlank_of_isWhitespace`: what core calls white space is blank.
* `trim_eq_self`: trimming changes nothing in a text that neither
  starts nor ends with a blank.
-/

set_option autoImplicit false

namespace RouteDoc.Text

/-- Whether `c` has the Unicode property `White_Space`. The property
has 25 members: the five controls from tab to carriage return, the
space, and nineteen characters outside ASCII. -/
def isBlank (c : Char) : Bool :=
  let n := c.toNat
  (0x09 ≤ n && n ≤ 0x0D) || n = 0x20 || n = 0x85 || n = 0xA0 || n = 0x1680
    || (0x2000 ≤ n && n ≤ 0x200A) || n = 0x2028 || n = 0x2029 || n = 0x202F
    || n = 0x205F || n = 0x3000

/-- The characters that core counts as white space are blank. -/
theorem isBlank_of_isWhitespace {c : Char} (h : c.isWhitespace = true) :
    isBlank c = true := by
  simp only [Char.isWhitespace, Bool.or_eq_true, decide_eq_true_eq] at h
  rcases h with ((rfl | rfl) | rfl) | rfl <;> decide

/-- `s` without the run of characters at its end that satisfy `p`. -/
def dropEndWhile (p : Char → Bool) (s : List Char) : List Char :=
  (s.reverse.dropWhile p).reverse

/-- `s` without the blanks at its start. -/
def trimStart (s : List Char) : List Char := s.dropWhile isBlank

/-- `s` without the blanks at its end. -/
def trimEnd (s : List Char) : List Char := dropEndWhile isBlank s

/-- `s` without the blanks at its two ends. -/
def trim (s : List Char) : List Char := trimEnd (trimStart s)

/-- A text that neither starts nor ends with a blank is its own
trimmed form. -/
theorem trim_eq_self {s : List Char}
    (hstart : ∀ c ∈ s.head?, isBlank c = false)
    (hend : ∀ c ∈ s.getLast?, isBlank c = false) : trim s = s := by
  have drop : ∀ {t : List Char}, (∀ c ∈ t.head?, isBlank c = false) →
      t.dropWhile isBlank = t := by
    intro t ht
    cases t with
    | nil => rfl
    | cons c t => simp [List.dropWhile, ht c (by simp)]
  have hrev : ∀ c ∈ s.reverse.head?, isBlank c = false := by
    simpa [List.head?_reverse] using hend
  simp [trim, trimStart, trimEnd, dropEndWhile, drop hstart, drop hrev]

end RouteDoc.Text
