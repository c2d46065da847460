import RouteDoc.Notice
import RouteDoc.Text.Lines
import RouteDoc.Text.Plain

/-!
# `RouteDoc.Log`: notices as lines

A notice is logged as the label of its level and its text. What the text
has for a terminal is left out, after its second and further lines have
been indented.

* `logText_of_isPlain`: a plain text in one line is logged as it is.
-/

set_option autoImplicit false

namespace RouteDoc.Notice

/-- The indentation of the second and further lines of a notice. -/
def logIndent : String := "    "

/-- The line that a notice makes in the log, or the lines, with their
ends. -/
def logText (n : Notice) : String :=
  let shown := Text.plain (Text.indentTail logIndent n.text ++ "\n").toList
  n.level.label ++ " " ++ String.ofList shown

/-- A plain text in one line is logged as it is. -/
theorem logText_of_isPlain {n : Notice} (hline : '\n' ∉ n.text.toList)
    (hplain : ∀ c ∈ n.text.toList, Text.isPlain c = true) :
    n.logText = n.level.label ++ " " ++ (n.text ++ "\n") := by
  have h : ∀ c ∈ (n.text ++ "\n").toList, Text.isPlain c = true := by
    intro c hc
    rcases List.mem_append.1 (String.toList_append .. ▸ hc) with hc | hc
    · exact hplain c hc
    · rw [List.mem_singleton.1 hc]
      decide
  simp only [logText, Text.indentTail_eq_self hline, Text.plain_eq_self h, String.ofList_toList]

end RouteDoc.Notice
