import RouteDoc.Text.Blank
import RouteDoc.Text.Search

/-!
# `RouteDoc.Docblock.Url`: the URL of a route from its two parts

The first marker of a file gives the base URL, every other one a URL
relative to it. A relative URL that repeats the base is taken as it
is.

* `collapseSlashes_cons_cons`: runs of slashes become single ones.
* `collapseSlashes_eq_self`: nothing else changes.
-/

set_option autoImplicit false

namespace RouteDoc.Docblock

open RouteDoc.Text

/-- The text with every run of slashes made a single slash. -/
def collapseSlashes : List Char → List Char
  | [] => []
  | c :: text =>
    if c = '/' ∧ text.head? = some '/' then collapseSlashes text
    else c :: collapseSlashes text

/-- Whether two slashes stand side by side. -/
def hasDoubleSlash : List Char → Bool
  | '/' :: '/' :: _ => true
  | _ :: text => hasDoubleSlash text
  | [] => false

/-- The relative URL behind the base URL. Where a slash meets a slash,
one is left; a relative URL that starts with the base and a slash is a
whole URL already. -/
def composeUrl (base relative : List Char) : List Char :=
  let stem := dropEndWhile (· = '/') base
  collapseSlashes <|
    if !stem.isEmpty && startsWith (stem ++ ['/']) relative then relative
    else if base.getLast? = some '/' && relative.head? = some '/' then base ++ relative.tail
    else base ++ relative

/-- Two slashes in a row count as one. -/
theorem collapseSlashes_cons_cons (text : List Char) :
    collapseSlashes ('/' :: '/' :: text) = collapseSlashes ('/' :: text) := by
  simp [collapseSlashes]

/-- A text without two slashes side by side stays as it is. -/
theorem collapseSlashes_eq_self {text : List Char} (h : hasDoubleSlash text = false) :
    collapseSlashes text = text := by
  fun_induction hasDoubleSlash text with
  | case1 => simp at h
  | case2 c text hc ih =>
    have : ¬(c = '/' ∧ text.head? = some '/') := by
      rintro ⟨rfl, ht⟩
      obtain ⟨rest, rfl⟩ := List.head?_eq_some_iff.1 ht
      exact hc _ rfl rfl
    simp [collapseSlashes, this, ih h]
  | case3 => rfl

end RouteDoc.Docblock
