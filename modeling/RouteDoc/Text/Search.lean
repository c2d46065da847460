/-!
# `RouteDoc.Text.Search`: looking for a text within a text

Everything here goes through a text once, from left to right.

* `after?_eq_some_iff`: the text after a pattern is what is left when
  the pattern is taken off the front.
* `splitOnce_eq_some`: the two halves and the separator give the text
  back, and the first half holds no separator.
* `utf8Size_append`: sizes add up.
-/

set_option autoImplicit false

namespace RouteDoc.Text

/-- What follows `pattern` when the text starts with it. -/
def after? : (pattern : List Char) → List Char → Option (List Char)
  | [], s => some s
  | _ :: _, [] => none
  | p :: ps, c :: s => if p = c then after? ps s else none

/-- A text starts with `pattern` and goes on with `rest` exactly when
it is `pattern ++ rest`. -/
theorem after?_eq_some_iff {pattern s rest : List Char} :
    after? pattern s = some rest ↔ s = pattern ++ rest := by
  induction pattern generalizing s with
  | nil => simp [after?]
  | cons p ps ih =>
    cases s with
    | nil => simp [after?]
    | cons c s =>
      by_cases h : p = c
      · simp [after?, h, ih]
      · simp [after?, h, Ne.symm h]

/-- Whether the text starts with `pattern`. -/
def startsWith (pattern s : List Char) : Bool := (after? pattern s).isSome

/-- Whether `pattern` stands anywhere in the text. -/
def occursIn (pattern : List Char) : List Char → Bool
  | [] => startsWith pattern []
  | c :: s => startsWith pattern (c :: s) || occursIn pattern s

/-- Puts `c` in front of the text that was found. -/
def keep (c : Char) : Option (List Char × List Char) → Option (List Char × List Char)
  | none => none
  | some (found, rest) => some (c :: found, rest)

/-- What is found with `c` in front was found without it. -/
theorem keep_eq_some_iff {c : Char} {o : Option (List Char × List Char)}
    {found rest : List Char} :
    keep c o = some (found, rest) ↔ ∃ f, o = some (f, rest) ∧ found = c :: f := by
  cases o with
  | none => simp [keep]
  | some p =>
    obtain ⟨f, r⟩ := p
    simp only [keep, Option.some.injEq, Prod.mk.injEq]
    exact ⟨fun ⟨hf, hr⟩ => ⟨f, ⟨rfl, hr⟩, hf.symm⟩, fun ⟨g, ⟨hg, hr⟩, hf⟩ => ⟨hg ▸ hf.symm, hr⟩⟩

/-- The texts before and after the first `sep`. -/
def splitOnce (sep : Char) : List Char → Option (List Char × List Char)
  | [] => none
  | c :: s => if c = sep then some ([], s) else keep c (splitOnce sep s)

/-- The first half holds no separator, and the halves around one
separator are the text. -/
theorem splitOnce_eq_some {sep : Char} {s before rest : List Char}
    (h : splitOnce sep s = some (before, rest)) :
    sep ∉ before ∧ s = before ++ sep :: rest := by
  induction s generalizing before with
  | nil => simp [splitOnce] at h
  | cons c s ih =>
    by_cases hc : c = sep
    · simp [splitOnce, hc] at h
      obtain ⟨rfl, rfl⟩ := h
      simp [hc]
    · simp only [splitOnce, hc, if_false, keep_eq_some_iff] at h
      obtain ⟨b, hbr, rfl⟩ := h
      obtain ⟨hb, hs⟩ := ih hbr
      exact ⟨by simp [Ne.symm hc, hb], by rw [hs]; rfl⟩

/-- The length of `s` in bytes when it is written in UTF-8. -/
def utf8Size (s : List Char) : Nat := s.foldl (fun size c => size + c.utf8Size) 0

/-- The size of a text behind `n` bytes. -/
private theorem foldl_utf8Size (n : Nat) (s : List Char) :
    s.foldl (fun size c => size + c.utf8Size) n = n + utf8Size s := by
  unfold utf8Size
  induction s generalizing n with
  | nil => rfl
  | cons c s ih => rw [List.foldl_cons, List.foldl_cons, ih, ih (0 + c.utf8Size)]; omega

/-- The sizes of two texts add up. -/
theorem utf8Size_append (s t : List Char) : utf8Size (s ++ t) = utf8Size s + utf8Size t := by
  rw [utf8Size, List.foldl_append, foldl_utf8Size]
  rfl

/-- `s` in lower case as far as the ASCII letters go. -/
def asciiLower (s : List Char) : List Char := s.map Char.toLower

/-- `f` on the characters of a string. -/
def onChars (f : List Char → List Char) (s : String) : String :=
  String.ofList (f s.toList)

end RouteDoc.Text
