import RouteDoc.Text.Blank
import RouteDoc.Text.Search

/-!
# `RouteDoc.Docblock.Sighting`: the markers of a text

A marker is `@Route`, optional blanks and an opening parenthesis. Its
arguments reach to the parenthesis that closes it. On the way there,
double quotes switch quoting on and off, and only what stands outside
quotes counts: parentheses nest, and the start of another `@Route`
means that this one was never closed.

The search goes from left to right and resumes behind the closing
parenthesis, or behind the opening one if there is none to close it.

* `eq_of_enclosed?`: a closed marker is its arguments, a closing
  parenthesis and the rest of the text.
* `length_opening?`: an opening marker takes up some of the text, so
  that the search comes to an end.
-/

set_option autoImplicit false

namespace RouteDoc.Docblock

open RouteDoc.Text

/-- The word that opens a marker. -/
def marker : List Char := ['@', 'R', 'o', 'u', 't', 'e']

/-- The text inside the parenthesis when a marker stands at the front. -/
def opening? (text : List Char) : Option (List Char) :=
  match after? marker text with
  | none => none
  | some rest =>
    match rest.dropWhile isBlank with
    | [] => none
    | c :: inside => if c = '(' then some inside else none

/-- Splits what follows an opening parenthesis into the text up to the
parenthesis that closes it and the text behind that. `depth` counts the
parentheses opened since then, `quoted` tells whether a double quote is
open. -/
def enclosed? (depth : Nat) (quoted : Bool) : List Char → Option (List Char × List Char)
  | [] => none
  | c :: text =>
    if c = '"' then keep c (enclosed? depth (!quoted) text)
    else if quoted then keep c (enclosed? depth quoted text)
    else if c = '(' then keep c (enclosed? (depth + 1) quoted text)
    else if c = ')' then
      match depth with
      | 0 => some ([], text)
      | depth + 1 => keep c (enclosed? depth quoted text)
    else if startsWith marker (c :: text) then none
    else keep c (enclosed? depth quoted text)

/-- A marker that was seen in a text, with the byte at which it
starts. -/
inductive Sighting where
  /-- A marker with its arguments. -/
  | closed (offset : Nat) (arguments : List Char)
  /-- A marker that is not closed. -/
  | unterminated (offset : Nat)
  deriving DecidableEq, Repr

/-- An opening marker takes up some of the text. -/
theorem length_opening? {text inside : List Char} (h : opening? text = some inside) :
    inside.length < text.length := by
  unfold opening? at h
  split at h
  · simp at h
  next rest hrest =>
    rw [after?_eq_some_iff] at hrest
    split at h
    · simp at h
    next c tail htail =>
      split at h
      · simp only [Option.some.injEq] at h
        subst h
        have hle : (rest.dropWhile isBlank).length ≤ rest.length :=
          (List.dropWhile_suffix isBlank).length_le
        rw [htail, List.length_cons] at hle
        rw [hrest, List.length_append]
        simp only [marker, List.length_cons, List.length_nil]
        omega
      · simp at h

/-- A closed marker is its arguments, a closing parenthesis and the
rest. -/
theorem eq_of_enclosed? {depth : Nat} {quoted : Bool} {text arguments rest : List Char}
    (h : enclosed? depth quoted text = some (arguments, rest)) :
    text = arguments ++ ')' :: rest := by
  fun_induction enclosed? depth quoted text generalizing arguments rest
  case case1 => simp at h
  case case5 => simp_all
  case case7 => simp at h
  all_goals
    obtain ⟨a, ha, rfl⟩ := keep_eq_some_iff.1 h
    simp_all

/-- What stands behind a closed marker is shorter than what stood
behind its opening parenthesis. -/
theorem length_enclosed? {depth : Nat} {quoted : Bool} {text arguments rest : List Char}
    (h : enclosed? depth quoted text = some (arguments, rest)) :
    rest.length < text.length := by
  rw [eq_of_enclosed? h]
  simp only [List.length_append, List.length_cons]
  omega

/-- The markers of a text that starts at the byte `offset`, in order. -/
def sightingsFrom (offset : Nat) (text : List Char) : List Sighting :=
  match text with
  | [] => []
  | c :: tail =>
    match _ : opening? (c :: tail) with
    | none => sightingsFrom (offset + c.utf8Size) tail
    | some inside =>
      let insideOffset := offset + (utf8Size (c :: tail) - utf8Size inside)
      match _ : enclosed? 0 false inside with
      | none => .unterminated offset :: sightingsFrom insideOffset inside
      | some (arguments, rest) =>
        .closed offset arguments
          :: sightingsFrom (insideOffset + (utf8Size inside - utf8Size rest)) rest
termination_by text.length
decreasing_by
  · simp
  · exact length_opening? ‹_›
  · exact Nat.lt_trans (length_enclosed? ‹_›) (length_opening? ‹_›)

/-- The markers of a text, in order. -/
def sightings (text : List Char) : List Sighting := sightingsFrom 0 text

/-- The arguments of the closed markers, in order. -/
def closedArguments (found : List Sighting) : List (List Char) :=
  found.filterMap fun
    | .closed _ arguments => some arguments
    | .unterminated _ => none

/-- The places of the markers that are not closed, in order. -/
def unterminatedOffsets (found : List Sighting) : List Nat :=
  found.filterMap fun
    | .closed .. => none
    | .unterminated offset => some offset

end RouteDoc.Docblock
