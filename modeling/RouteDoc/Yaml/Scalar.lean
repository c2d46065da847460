import RouteDoc.Yaml.Ambiguity

/-!
# `RouteDoc.Yaml.Scalar`: how a text is written

A text is written plain, in single quotes, in double quotes, or as a
literal on lines of its own. The first of these that the text asks for
and allows is taken: a text with line feeds asks for a literal, one
that would read as something else for single quotes, and every other
one for nothing. Double quotes allow everything.

* `style_of_special`: a text with a character that cannot be printed is
  in double quotes.
-/

set_option autoImplicit false

namespace RouteDoc.Yaml

/-! ### Characters -/

/-- Whether `c` ends a line. -/
def isBreak (c : Char) : Bool :=
  c = '\n' || c = '\r' || c = '\u0085' || c = '\u2028' || c = '\u2029'

/-- Whether `c` separates indicators from text. -/
def isSeparator (c : Char) : Bool := c = ' ' || c = '\t' || c = '\x00' || isBreak c

/-- Whether `c` can be printed. -/
def isPrintable (c : Char) : Bool :=
  let n := c.toNat
  n = 0x0A || (0x20 ≤ n && n ≤ 0x7E) || (0xA0 ≤ n && n ≤ 0xD7FF)
    || (0xE000 ≤ n && n ≤ 0xFFFD && n != 0xFEFF) || 0x10000 ≤ n

/-- The characters that mean something else at the start of a plain
text. -/
def startIndicators : List Char :=
  ['#', ',', '[', ']', '\x7b', '\x7d', '&', '*', '!', '|', '>', '\'', '"', '%', '@', '\x60']

/-! ### What a text allows -/

/-- Whether a text ends here or goes on with a separator. -/
def endsOrSeparates : List Char → Bool
  | [] => true
  | c :: _ => isSeparator c

/-- Whether the start of a text means something else. -/
def startsLikeIndicator : List Char → Bool
  | [] => false
  | '-' :: '-' :: '-' :: _ => true
  | '.' :: '.' :: '.' :: _ => true
  | c :: s =>
    startIndicators.contains c || ((c = '?' || c = ':' || c = '-') && endsOrSeparates s)

/-- Whether a colon or a number sign within a text means something
else. The first argument tells whether a separator stands before the
text. -/
def holdsIndicator : Bool → List Char → Bool
  | _, [] => false
  | separated, c :: s =>
    (c = ':' && endsOrSeparates s) || (c = '#' && separated) || holdsIndicator (isSeparator c) s

/-- Whether two characters that satisfy `p` and `q` stand side by
side. -/
def hasPair (p q : Char → Bool) : List Char → Bool
  | [] => false
  | c :: s => (p c && s.head?.any q) || hasPair p q s

/-- Whether a character cannot be printed, or a space stands before a
line break. -/
def isSpecial (s : List Char) : Bool := !s.all isPrintable || hasPair (· = ' ') isBreak s

/-- Whether a text can be written in single quotes. -/
def allowsSingle (s : List Char) : Bool := !isSpecial s && !hasPair isBreak (· = ' ') s

/-- Whether a text can be written plain. -/
def allowsPlain (s : List Char) : Bool :=
  allowsSingle s && !s.any isBreak && !startsLikeIndicator s && !holdsIndicator true s
    && s.head? != some ' ' && s.getLast? != some ' '

/-- Whether a text can be written as a literal. -/
def allowsLiteral (s : List Char) : Bool := !isSpecial s && s.getLast? != some ' '

/-- How a text is written. -/
inductive Style where
  | plain
  | single
  | double
  | literal
  deriving DecidableEq, Repr

/-- The style of a text. -/
def style (s : List Char) : Style :=
  if s.contains '\n' then
    if allowsLiteral s then .literal else .double
  else if !isAmbiguous s && allowsPlain s then .plain
  else if allowsSingle s then .single
  else .double

/-- A text with a character that cannot be printed is in double
quotes. -/
theorem style_of_special {s : List Char} (h : isSpecial s = true) : style s = .double := by
  simp [style, allowsLiteral, allowsPlain, allowsSingle, h]

/-! ### Writing -/

/-- A run of spaces. -/
def spaces (n : Nat) : List Char := List.replicate n ' '

/-- A number in hexadecimal, with the given number of digits at
least. -/
def hex (width n : Nat) : List Char :=
  let ds := (Nat.toDigits 16 n).map Char.toUpper
  List.replicate (width - ds.length) '0' ++ ds

/-- A character as it is written in double quotes. -/
def escapeChar (c : Char) : List Char :=
  if c = '"' then ['\\', '"']
  else if c = '\\' then ['\\', '\\']
  else if isPrintable c && !isBreak c then [c]
  else match c.toNat with
    | 0x00 => ['\\', '0']
    | 0x07 => ['\\', 'a']
    | 0x08 => ['\\', 'b']
    | 0x09 => ['\\', 't']
    | 0x0A => ['\\', 'n']
    | 0x0B => ['\\', 'v']
    | 0x0C => ['\\', 'f']
    | 0x0D => ['\\', 'r']
    | 0x1B => ['\\', 'e']
    | 0x85 => ['\\', 'N']
    | 0x2028 => ['\\', 'L']
    | 0x2029 => ['\\', 'P']
    | n => if n < 0x100 then '\\' :: 'x' :: hex 2 n
      else if n < 0x10000 then '\\' :: 'u' :: hex 4 n
      else '\\' :: 'U' :: hex 8 n

/-- The lines of a text, each but the first indented by `indent` unless
it is empty; the first argument tells whether a line starts here. -/
def indentLines (indent : Nat) : Bool → List Char → List Char
  | _, [] => []
  | atStart, c :: s =>
    if isBreak c then c :: indentLines indent true s
    else (if atStart then spaces indent else []) ++ c :: indentLines indent false s

/-- A text in single quotes. A single quote in it is doubled; behind a
line break comes the indentation. -/
def singleQuoted (indent : Nat) (s : List Char) : List Char :=
  let doubled := s.flatMap fun c => if c = '\'' then ['\'', '\''] else [c]
  let close := if s.getLast?.any isBreak then spaces indent else []
  '\'' :: indentLines indent false doubled ++ close ++ ['\'']

/-- A text in double quotes. -/
def doubleQuoted (s : List Char) : List Char := '"' :: s.flatMap escapeChar ++ ['"']

/-- What follows the bar of a literal: a digit if the indentation
cannot be told from the first line, and a sign if the text does not end
with exactly one line break. -/
def literalHints (s : List Char) : List Char :=
  let indentation := match s with
    | c :: _ => if c = ' ' || isBreak c then ['2'] else []
    | [] => []
  let ending := match s.reverse with
    | [] => ['-']
    | [c] => if isBreak c then ['+'] else ['-']
    | c :: d :: _ => if !isBreak c then ['-'] else if isBreak d then ['+'] else []
  indentation ++ ending

/-- A text as a literal. -/
def literal (indent : Nat) (s : List Char) : List Char :=
  '|' :: literalHints s ++ '\n' :: indentLines indent true s

/-- A text in its style; lines of its own are indented by `indent`. -/
def scalar (indent : Nat) (s : List Char) : List Char :=
  match style s with
  | .plain => s
  | .single => singleQuoted indent s
  | .double => doubleQuoted s
  | .literal => literal indent s

end RouteDoc.Yaml
