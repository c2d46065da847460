/-!
# `RouteDoc.Placeholder`: the placeholders of a URL

A placeholder is a name between braces, `{name}`. The name has at least
one character and holds no brace and no slash. Placeholders are found
in one pass from left to right: an opening brace always starts a new
name, so that of two opening braces in a row only the second can start
a placeholder. Whether there is one at all is asked of one place after
the other, up to the first that has one.

* `namesFrom_open`: reading `{name}` yields the name and goes on behind
  the closing brace.
-/

set_option autoImplicit false

namespace RouteDoc.Placeholder

/-- Whether `c` may stand in the name of a placeholder. -/
def isNameChar (c : Char) : Bool := c != '{' && c != '}' && c != '/'

/-- The names of the placeholders of a text. The first argument is the
name that is being read, if an opening brace has been seen and nothing
since then has ended it; its characters stand last first. -/
def namesFrom : Option (List Char) → List Char → List (List Char)
  | _, [] => []
  | reading, c :: s =>
    if c = '{' then namesFrom (some []) s
    else if c = '/' then namesFrom none s
    else match reading with
      | none => namesFrom none s
      | some name =>
        if c = '}' then
          if name.isEmpty then namesFrom none s else name.reverse :: namesFrom none s
        else namesFrom (some (c :: name)) s

/-- The names of the placeholders of `url`, in order of appearance. A
name that comes twice is listed twice. -/
def names (url : String) : List String := (namesFrom none url.toList).map String.ofList

/-- Whether a placeholder stands at the front of a text: behind an
opening brace there are characters of a name, at least one, and then a
closing brace. -/
def standsFirst : List Char → Bool
  | '{' :: s =>
    !(s.takeWhile isNameChar).isEmpty && (s.dropWhile isNameChar).head? = some '}'
  | _ => false

/-- Whether a placeholder stands anywhere in a text. -/
def standsIn : List Char → Bool
  | [] => false
  | c :: s => standsFirst (c :: s) || standsIn s

/-- Whether `url` has a placeholder. -/
def hasAny (url : String) : Bool := standsIn url.toList

/-- The placeholder with the given name. -/
def text (name : String) : String := "\x7b" ++ name ++ "\x7d"

/-- Characters of a name are added to the name being read. -/
private theorem namesFrom_nameChars (read name s : List Char)
    (h : ∀ c ∈ name, isNameChar c = true) :
    namesFrom (some read) (name ++ s) = namesFrom (some (name.reverse ++ read)) s := by
  induction name generalizing read with
  | nil => rfl
  | cons c name ih =>
    have hc : isNameChar c = true := h c (by simp)
    simp only [isNameChar, Bool.and_eq_true, bne_iff_ne] at hc
    obtain ⟨⟨h1, h2⟩, h3⟩ := hc
    simp only [List.cons_append, namesFrom, h1, h2, h3, if_false]
    rw [ih _ fun c hc => h c (by simp [hc])]
    simp

/-- Reading a placeholder yields its name, whatever stood before it,
and goes on behind it. -/
theorem namesFrom_open (reading : Option (List Char)) {name : List Char} (s : List Char)
    (hne : name ≠ []) (h : ∀ c ∈ name, isNameChar c = true) :
    namesFrom reading ('{' :: name ++ '}' :: s) = name :: namesFrom none s := by
  have : namesFrom reading ('{' :: name ++ '}' :: s) = namesFrom (some []) (name ++ '}' :: s) := by
    simp [namesFrom]
  rw [this, namesFrom_nameChars _ _ _ h]
  simp [namesFrom, hne]

end RouteDoc.Placeholder
