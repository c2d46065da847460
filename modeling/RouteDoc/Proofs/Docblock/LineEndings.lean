import Mathlib.Data.List.Forall2
import RouteDoc.Proofs.Docblock.Openings

/-!
# `RouteDoc.Proofs.Docblock.LineEndings`: line endings do not matter

A line may end in a line feed alone or in a carriage return before it. A
text is read in the same way with either, wherever its lines end: between
the word of a marker and its parenthesis a carriage return is one more
blank, the search for a closing parenthesis goes past it inside and outside
of quotes, and unfolding trims it away. So each step commutes with putting
carriage returns in, and unfolding forgets them.

* `opening?_withReturns`, `enclosed?_withReturns`: the two steps of the
  search.
* `sightingsFrom_withReturns`: the search sees the same markers, and the
  same of them closed.
* `unfold_withReturns`: the arguments say the same.
* `extract_withReturns`: a whole text.
-/

set_option autoImplicit false

namespace RouteDoc.Docblock

open RouteDoc.Text

variable {s : List Char} {c : Char}

/-- The text with a carriage return in front of every line feed. -/
def withReturns (s : List Char) : List Char :=
  s.flatMap fun c => if c = '\n' then ['\r', '\n'] else [c]

/-- A line break gets a carriage return before it. -/
theorem withReturns_newline (s : List Char) :
    withReturns ('\n' :: s) = '\r' :: '\n' :: withReturns s := rfl

/-- Any other character stays as it is. -/
theorem withReturns_cons (h : c ≠ '\n') (s : List Char) :
    withReturns (c :: s) = c :: withReturns s := by
  rw [withReturns, List.flatMap_cons, if_neg h]
  rfl

/-! ### Lines -/

/-- A line break that comes first ends an empty line. -/
theorem splitOn_newline_cons (s : List Char) :
    ('\n' :: s).splitOn '\n' = [] :: s.splitOn '\n' := by
  simp [List.splitOn, List.splitOnP_cons_eq_if_modifyHead]

/-- Any other character that comes first belongs to the first line. -/
theorem splitOn_cons_of_ne (h : c ≠ '\n') (s : List Char) :
    (c :: s).splitOn '\n' = (s.splitOn '\n').modifyHead (c :: ·) := by
  simp [List.splitOn, List.splitOnP_cons_eq_if_modifyHead, h]

/-- There are as many lines as before, and every line ends as it did or in a
carriage return. -/
theorem forall₂_splitOn_withReturns (s : List Char) :
    List.Forall₂ (fun line line' => line' = line ∨ line' = line ++ ['\r'])
      (s.splitOn '\n') ((withReturns s).splitOn '\n') := by
  induction s with
  | nil => exact .cons (Or.inl rfl) .nil
  | cons c s ih =>
      by_cases hc : c = '\n'
      · subst hc
        rw [withReturns_newline, splitOn_newline_cons, splitOn_cons_of_ne (by decide),
          splitOn_newline_cons]
        exact .cons (Or.inr rfl) ih
      · rw [withReturns_cons hc, splitOn_cons_of_ne hc, splitOn_cons_of_ne hc]
        -- The character goes to the front of the first line, which ends as it did.
        generalize s.splitOn '\n' = lines, (withReturns s).splitOn '\n' = lines' at ih ⊢
        cases ih with
        | nil => exact .nil
        | cons hline hlines =>
            exact .cons (hline.imp (congrArg (c :: ·)) (congrArg (c :: ·))) hlines

/-- A carriage return at the end of a line is trimmed away with the other
blanks there. -/
theorem withoutMargin_append_return (line : List Char) :
    withoutMargin (line ++ ['\r']) = withoutMargin line := by
  rw [withoutMargin, trim_append_right (by decide), withoutMargin]

/-- Unfolding takes lines one by one and trims them, so it makes no difference
how they end. -/
theorem unfold_withReturns (s : List Char) : unfold (withReturns s) = unfold s := by
  have hlines := forall₂_splitOn_withReturns s
  unfold unfold
  generalize s.splitOn '\n' = lines, (withReturns s).splitOn '\n' = lines' at hlines ⊢
  have hmargins : lines'.map withoutMargin = lines.map withoutMargin := by
    induction hlines with
    | nil => rfl
    | cons hline _ ih =>
        rw [List.map_cons, List.map_cons, ih]
        rcases hline with rfl | rfl
        · rfl
        · rw [withoutMargin_append_return]
  rw [hmargins]

/-! ### Markers -/

/-- A pattern without line breaks is found where it was, and what stands
behind it is as before but for the carriage returns. -/
theorem after?_withReturns {pattern : List Char} (h : '\r' ∉ pattern ∧ '\n' ∉ pattern)
    (s : List Char) : after? pattern (withReturns s) = (after? pattern s).map withReturns := by
  induction pattern generalizing s with
  | nil => rfl
  | cons p pattern ih =>
      simp only [List.mem_cons, not_or] at h
      obtain ⟨⟨hreturn, hreturns⟩, hnewline, hnewlines⟩ := h
      cases s with
      | nil => rfl
      | cons c s =>
          by_cases hc : c = '\n'
          · subst hc
            rw [withReturns_newline, after?, after?, if_neg (Ne.symm hreturn),
              if_neg (Ne.symm hnewline)]
            rfl
          · rw [withReturns_cons hc, after?, after?]
            split
            · exact ih ⟨hreturns, hnewlines⟩ s
            · rfl

/-- A marker starts where one did. -/
theorem startsWith_marker_withReturns (s : List Char) :
    startsWith marker (withReturns s) = startsWith marker s := by
  rw [startsWith, after?_withReturns (by decide), Option.isSome_map, startsWith]

/-- The blanks at the start of a text stay the same up to their carriage
returns, because these are blanks as well. -/
theorem dropWhile_isBlank_withReturns (s : List Char) :
    (withReturns s).dropWhile isBlank = withReturns (s.dropWhile isBlank) := by
  induction s with
  | nil => rfl
  | cons c s ih =>
      by_cases hc : c = '\n'
      · subst hc
        have hreturn : isBlank '\r' = true := by decide
        have hnewline : isBlank '\n' = true := by decide
        rw [withReturns_newline, List.dropWhile_cons_of_pos hreturn,
          List.dropWhile_cons_of_pos hnewline, List.dropWhile_cons_of_pos hnewline, ih]
      · rw [withReturns_cons hc, List.dropWhile_cons, List.dropWhile_cons, ih]
        split
        · rfl
        · rw [withReturns_cons hc]

/-- A marker opens where it did. Line breaks may stand only between its word
and its parenthesis. -/
theorem opening?_withReturns (s : List Char) :
    opening? (withReturns s) = (opening? s).map withReturns := by
  unfold opening?
  rw [after?_withReturns (by decide)]
  cases after? marker s with
  | none => rfl
  | some rest =>
      rw [Option.map_some]
      simp only [dropWhile_isBlank_withReturns]
      cases rest.dropWhile isBlank with
      | nil => rfl
      | cons c inside =>
          by_cases hc : c = '\n'
          · subst hc
            rfl
          · rw [withReturns_cons hc]
            simp only
            split <;> rfl

/-- A marker is closed where it was, or is not closed as before. The search
goes past carriage returns as it does past line breaks. -/
theorem enclosed?_withReturns (depth : Nat) (quoted : Bool) (s : List Char) :
    enclosed? depth quoted (withReturns s)
      = (enclosed? depth quoted s).map (Prod.map withReturns withReturns) := by
  induction s generalizing depth quoted with
  | nil => rfl
  | cons c s ih =>
      by_cases hc : c = '\n'
      · subst hc
        rw [withReturns_newline, enclosed?_cons_of_plain (by decide),
          enclosed?_cons_of_plain (by decide), enclosed?_cons_of_plain (by decide), ih]
        cases enclosed? depth quoted s <;> rfl
      · have hkeep : ∀ o : Option (List Char × List Char),
            keep c (o.map (Prod.map withReturns withReturns))
              = (keep c o).map (Prod.map withReturns withReturns) := by
          intro o
          cases o with
          | none => rfl
          | some found =>
              show some (c :: withReturns found.1, _) = some (withReturns (c :: found.1), _)
              rw [withReturns_cons hc]
        have hmarker : startsWith marker (c :: withReturns s) = startsWith marker (c :: s) := by
          rw [← withReturns_cons hc, startsWith_marker_withReturns]
        rw [withReturns_cons hc]
        by_cases hclosing : c = ')' ∧ depth = 0 ∧ quoted = false
        · -- Both searches end here, and find nothing before `c`.
          obtain ⟨rfl, rfl, rfl⟩ := hclosing
          rfl
        · obtain ⟨depth', quoted', hstep⟩ := enclosed?_step hclosing
          rw [hstep, hstep, hmarker, ih, hkeep]
          split <;> rfl

/-! ### The search -/

/-- The same markers are seen, and the same of them closed, though not at the
same bytes. -/
theorem sightingsFrom_withReturns (s : List Char) (offset offset' : Nat) :
    closedArguments (sightingsFrom offset' (withReturns s))
      = (closedArguments (sightingsFrom offset s)).map withReturns ∧
    (unterminatedOffsets (sightingsFrom offset' (withReturns s))).length
      = (unterminatedOffsets (sightingsFrom offset s)).length := by
  -- By induction on the length of the text, since the search leaves out whole markers.
  induction hlength : s.length using Nat.strongRecOn generalizing s offset offset' with
  | ind length ih =>
      have hopening' := opening?_withReturns s
      cases hopening : opening? s with
      | none =>
          rw [hopening, Option.map_none] at hopening'
          cases s with
          | nil =>
              rw [withReturns, List.flatMap_nil, sightingsFrom, sightingsFrom]
              exact ⟨rfl, rfl⟩
          | cons c s =>
              have hlt : s.length < length := by simp [← hlength]
              rw [sightingsFrom_cons_of_none hopening]
              by_cases hc : c = '\n'
              · -- Neither of the two characters opens a marker.
                subst hc
                rw [withReturns_newline] at hopening' ⊢
                rw [sightingsFrom_cons_of_none hopening', sightingsFrom_cons_of_none rfl]
                exact ih s.length hlt s _ _ rfl
              · rw [withReturns_cons hc] at hopening' ⊢
                rw [sightingsFrom_cons_of_none hopening']
                exact ih s.length hlt s _ _ rfl
      | some inside =>
          rw [hopening, Option.map_some] at hopening'
          have hlt : inside.length < length := hlength ▸ length_opening? hopening
          rw [sightingsFrom_of_opening hopening, sightingsFrom_of_opening hopening',
            enclosed?_withReturns]
          cases hfound : enclosed? 0 false inside with
          | none =>
              obtain ⟨hclosed, hunterminated⟩ := ih inside.length hlt inside _ _ rfl
              exact ⟨hclosed, congrArg (· + 1) hunterminated⟩
          | some found =>
              have hlt' := (length_enclosed? hfound).trans hlt
              obtain ⟨hclosed, hunterminated⟩ := ih found.2.length hlt' found.2 _ _ rfl
              exact ⟨congrArg (withReturns found.1 :: ·) hclosed, hunterminated⟩

/-! ### Whole texts -/

/-- A text whose lines end in a carriage return and a line feed yields the
same routes as with line feeds alone, and as many warnings. -/
theorem extract_withReturns (text : String) :
    (extract (onChars withReturns text)).value = (extract text).value ∧
    (extract (onChars withReturns text)).warnings.length = (extract text).warnings.length := by
  obtain ⟨s, rfl⟩ : ∃ s, text = String.ofList s := ⟨text.toList, String.ofList_toList.symm⟩
  obtain ⟨hclosed, hunterminated⟩ := sightingsFrom_withReturns s 0 0
  have hsay : (closedArguments (sightings (withReturns s))).map Arguments.ofText
      = (closedArguments (sightings s)).map Arguments.ofText := by
    rw [sightings, hclosed, List.map_map]
    refine List.map_congr_left fun arguments _ => ?_
    rw [Function.comp_apply, Arguments.ofText, unfold_withReturns, Arguments.ofText]
  obtain ⟨hvalue, hwarnings⟩ := routesOf_congr hsay
  rw [onChars, String.toList_ofList]
  constructor
  · rw [extract_eq_of_sightings, extract_eq_of_sightings]
    exact hvalue
  · rw [warnings_extract, warnings_extract, List.length_append, List.length_append,
      List.length_map, List.length_map, hwarnings]
    exact congrArg (· + _) hunterminated

end RouteDoc.Docblock
