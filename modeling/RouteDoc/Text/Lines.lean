/-!
# `RouteDoc.Text.Lines`: texts of several lines

A text that stands in a column of its own is indented from its second
line on.

* `indentTail_eq_self`: a text in one line is left as it is.
-/

set_option autoImplicit false

namespace RouteDoc.Text

/-- A text with an indentation in front of every line but the first. -/
def indentTail (indent : String) (text : String) : String :=
  String.intercalate ("\n" ++ indent) ((text.toList.splitOn '\n').map String.ofList)

/-- A text in one line is left as it is. -/
theorem indentTail_eq_self {indent text : String} (h : '\n' ∉ text.toList) :
    indentTail indent text = text := by
  rw [indentTail, List.splitOn_eq_singleton h]
  simp

end RouteDoc.Text
