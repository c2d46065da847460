import RouteDoc.Docblock.Sighting
import RouteDoc.Proofs.Text.Search

/-!
# `RouteDoc.Proofs.Docblock.Markers`: closed markers are found

The search for a closing parenthesis goes past a text that is `Passed`:
it finds what it finds behind that text, whatever that is. What stands
in double quotes is passed, and so is a text without parentheses,
quotes and the first letter of a marker.

* `enclosed?_step`: what the search does at one character.
* `Passed.append`, `passed_quoted`, `passed_of_plain`: which texts are
  passed.
* `sightings_annotations`: the search finds the arguments of the markers,
  in order, and nothing else.
-/

set_option autoImplicit false

namespace RouteDoc.Docblock

open RouteDoc.Text

variable {s t : List Char}

/-! ### Passed texts -/

/-- The search for a closing parenthesis goes past the text. -/
def Passed (text : List Char) : Prop :=
  ∀ depth rest, enclosed? depth false (text ++ rest)
    = (enclosed? depth false rest).map (Prod.map (text ++ ·) id)

/-- What is found behind `c` is found with `c` in front, and nothing else is. -/
theorem keep_eq_some_cons_iff {c : Char} {o : Option (List Char × List Char)} {rest : List Char} :
    keep c o = some (c :: s, rest) ↔ o = some (s, rest) := by
  rw [keep_eq_some_iff]
  constructor
  · rintro ⟨found, hfound, heq⟩
    rw [hfound, (List.cons.inj heq).2]
  · intro hfound
    exact ⟨s, hfound, rfl⟩

/-- An empty text is gone past. -/
theorem passed_nil : Passed [] := by
  intro depth rest
  rw [List.nil_append]
  cases enclosed? depth false rest <;> rfl

/-- If the search goes past two texts, it goes past both of them together. -/
theorem Passed.append (hs : Passed s) (ht : Passed t) : Passed (s ++ t) := by
  intro depth rest
  rw [List.append_assoc, hs, ht, Option.map_map]
  congr 1
  funext found
  simp [Prod.map]

/-- If the search goes past some texts and their separator, it goes past the
joined text. -/
theorem Passed.intercalate {texts : List (List Char)} {separator : List Char}
    (hseparator : Passed separator) (h : ∀ s ∈ texts, Passed s) :
    Passed (separator.intercalate texts) :=
  intercalate_induction passed_nil Passed.append hseparator h

/-- The search goes past a character unless it is a quote or a parenthesis,
or may start a marker. -/
theorem enclosed?_cons_of_plain {c : Char} (h : c ∉ ['"', '(', ')', '@']) (depth : Nat)
    (quoted : Bool) (s : List Char) :
    enclosed? depth quoted (c :: s) = keep c (enclosed? depth quoted s) := by
  simp only [List.mem_cons, List.not_mem_nil, or_false, not_or] at h
  obtain ⟨hquote, hopen, hclose, hat⟩ := h
  have hmarker : startsWith marker (c :: s) = false := by
    simp [startsWith, marker, after?, Ne.symm hat]
  -- The character is none of those that the search looks at.
  rw [enclosed?.eq_def]
  simp only [hquote, hopen, hclose, hmarker, if_false, ite_self, Bool.false_eq_true]

/-- At the parenthesis that it looks for, the search ends. At any other
character it goes on with some depth and some quoting that do not depend on
what follows, unless a marker starts there. -/
theorem enclosed?_step {c : Char} {depth : Nat} {quoted : Bool}
    (h : ¬(c = ')' ∧ depth = 0 ∧ quoted = false)) :
    ∃ depth' quoted', ∀ s, enclosed? depth quoted (c :: s)
      = if quoted = false ∧ startsWith marker (c :: s) = true then none
        else keep c (enclosed? depth' quoted' s) := by
  have hstart : c ≠ '@' → ∀ s, startsWith marker (c :: s) = false := by
    intro hat s
    simp [startsWith, marker, after?, Ne.symm hat]
  simp only [enclosed?.eq_def _ _ (c :: _)]
  by_cases hquote : c = '"'
  · subst hquote
    exact ⟨depth, !quoted, fun s => by simp [hstart (by decide) s]⟩
  cases quoted with
  | true => exact ⟨depth, true, fun s => by simp [hquote]⟩
  | false =>
      by_cases hopen : c = '('
      · subst hopen
        exact ⟨depth + 1, false, fun s => by simp [hstart (by decide) s]⟩
      by_cases hclose : c = ')'
      · subst hclose
        obtain ⟨outer, rfl⟩ : ∃ outer, depth = outer + 1 :=
          Nat.exists_eq_succ_of_ne_zero fun hdepth => h ⟨rfl, hdepth, rfl⟩
        exact ⟨outer, false, fun s => by simp [hstart (by decide) s]⟩
      exact ⟨depth, false, fun s => by simp [hquote, hopen, hclose]⟩

/-- The search for a closing parenthesis ends behind the text. -/
def Enclosable (text : List Char) : Prop :=
  ∀ rest, enclosed? 0 false (text ++ ')' :: rest) = some (text, rest)

/-- Arguments that the search goes past end at the parenthesis behind them. -/
theorem Passed.enclosable (h : Passed s) : Enclosable s := by
  intro rest
  rw [h, enclosed?.eq_def]
  simp

/-- A marker opens at the front of a text exactly if its word, blanks and
a parenthesis stand there. -/
theorem opening?_eq_some_iff {inside : List Char} :
    opening? s = some inside
      ↔ ∃ blanks, (∀ c ∈ blanks, isBlank c = true) ∧ s = marker ++ (blanks ++ '(' :: inside) := by
  unfold opening?
  constructor
  · intro h
    split at h
    · cases h
    next rest hrest =>
      rw [after?_eq_some_iff] at hrest
      split at h
      · cases h
      next c behind hbehind =>
        rw [Option.ite_none_right_eq_some, Option.some.injEq] at h
        obtain ⟨rfl, rfl⟩ := h
        refine ⟨rest.takeWhile isBlank, fun c hc => List.mem_takeWhile_imp hc, ?_⟩
        rw [← hbehind, List.takeWhile_append_dropWhile, hrest]
  · rintro ⟨blanks, hblanks, rfl⟩
    have hparenthesis : isBlank '(' = false := by decide
    have hbehind : (blanks ++ '(' :: inside).dropWhile isBlank = '(' :: inside := by
      rw [List.dropWhile_append_of_pos hblanks, List.dropWhile_cons, hparenthesis]
      rfl
    simp [after?_eq_some_iff.2 rfl, hbehind]

/-- Where a marker opens, the search tells whether it is closed, and goes on
behind it. -/
theorem sightingsFrom_of_opening {inside : List Char} (h : opening? s = some inside)
    (offset : Nat) :
    sightingsFrom offset s = match enclosed? 0 false inside with
      | none => .unterminated offset
          :: sightingsFrom (offset + (utf8Size s - utf8Size inside)) inside
      | some (arguments, rest) => .closed offset arguments
          :: sightingsFrom (offset + (utf8Size s - utf8Size inside)
            + (utf8Size inside - utf8Size rest)) rest := by
  cases s with
  | nil => cases h
  | cons c tail =>
      rw [sightingsFrom]
      split
      · next hnone =>
        rw [h] at hnone
        cases hnone
      · next inside' hinside =>
        rw [h] at hinside
        obtain rfl := Option.some.inj hinside
        split <;> rename_i hfound <;> simp only [hfound]

/-- A marker of a text and the text since the one before it. -/
structure Annotation where
  /-- What stands before the marker. -/
  gap : List Char
  /-- What stands between its word and its opening parenthesis. -/
  blanks : List Char
  /-- What stands between its parentheses. -/
  arguments : List Char

namespace Annotation

/-- The marker alone. -/
def body (a : Annotation) : List Char := marker ++ (a.blanks ++ '(' :: (a.arguments ++ [')']))

/-- The marker and what stands before it. -/
def text (a : Annotation) : List Char := a.gap ++ a.body

/-- What the search needs to find the marker and to go on behind it. -/
structure IsFound (a : Annotation) : Prop where
  gap : occursIn marker a.gap = false
  blanks : ∀ c ∈ a.blanks, isBlank c = true
  arguments : Enclosable a.arguments

variable {a : Annotation}

/-- An annotation opens with its marker, and its arguments stand behind that. -/
theorem opening?_body (h : a.IsFound) (rest : List Char) :
    opening? (a.body ++ rest) = some (a.arguments ++ ')' :: rest) :=
  opening?_eq_some_iff.2 ⟨a.blanks, h.blanks, by simp [body]⟩

/-- The word, the arguments and the closing parenthesis together are as
long as the marker. -/
theorem offset_behind_body (a : Annotation) (offset : Nat) (rest : List Char) :
    offset + (utf8Size (a.body ++ rest) - utf8Size (a.arguments ++ ')' :: rest))
        + (utf8Size (a.arguments ++ ')' :: rest) - utf8Size rest)
      = offset + utf8Size a.body := by
  have htext : a.body ++ rest
      = (marker ++ a.blanks ++ ['(']) ++ (a.arguments ++ ')' :: rest) := by
    simp [body]
  have hbody : a.body = (marker ++ a.blanks ++ ['(']) ++ (a.arguments ++ [')']) := by
    simp [body]
  have harguments : a.arguments ++ ')' :: rest = (a.arguments ++ [')']) ++ rest := by simp
  rw [htext, harguments, hbody]
  simp only [utf8Size_append]
  omega

/-- An annotation is seen as closed with its own arguments, and the search
goes on behind it. -/
theorem sightingsFrom_body (h : a.IsFound) (offset : Nat) (rest : List Char) :
    sightingsFrom offset (a.body ++ rest)
      = .closed offset a.arguments :: sightingsFrom (offset + utf8Size a.body) rest := by
  rw [sightingsFrom_of_opening (opening?_body h rest), h.arguments rest]
  simp only [a.offset_behind_body offset rest]

end Annotation

/-- Where no marker opens, the search goes on at the next character. -/
theorem sightingsFrom_cons_of_none {c : Char} (h : opening? (c :: s) = none) (offset : Nat) :
    sightingsFrom offset (c :: s) = sightingsFrom (offset + c.utf8Size) s := by
  rw [sightingsFrom]
  split
  · rfl
  · next hinside =>
    rw [h] at hinside
    cases hinside

/-- A marker does not open before its first letter: what starts in front of
the `@` would have to be its word. -/
theorem opening?_eq_none_of_at {c : Char} (h : startsWith marker (c :: s) = false) :
    opening? (c :: (s ++ '@' :: t)) = none := by
  have hafter : after? marker (c :: (s ++ '@' :: t)) = none := by
    cases hfound : after? marker (c :: (s ++ '@' :: t)) with
    | none => rfl
    | some rest =>
        rw [after?_eq_some_iff, ← List.cons_append] at hfound
        rcases List.append_eq_append_iff.1 hfound with ⟨u, hmarker, hu⟩ | ⟨u, htext, -⟩
        · cases u with
          | nil =>
              have hword : after? marker (c :: s) = some [] :=
                after?_eq_some_iff.2 (by simpa using hmarker.symm)
              rw [startsWith, hword] at h
              cases h
          | cons c' u =>
              -- The marker would go on with a second `@`.
              obtain ⟨rfl, -⟩ := List.cons.inj hu
              obtain ⟨-, htail⟩ := List.cons.inj hmarker
              have hmem : '@' ∈ ['R', 'o', 'u', 't', 'e'] := by
                rw [htail]
                simp
              exact absurd hmem (by decide)
        · rw [startsWith, after?_eq_some_iff.2 htext] at h
          cases h
  simp [opening?, hafter]

/-- A text in which the word of a marker does not occur is gone past. None can
start in it and end behind it, because only the first letter of the word is an
`@`. -/
theorem sightingsFrom_append_of_not_occursIn (h : occursIn marker s = false) (offset : Nat) :
    sightingsFrom offset (s ++ '@' :: t) = sightingsFrom (offset + utf8Size s) ('@' :: t) := by
  induction s generalizing offset with
  | nil => rfl
  | cons c s ih =>
      simp only [occursIn, Bool.or_eq_false_iff] at h
      obtain ⟨hfirst, hs⟩ := h
      have hsize : utf8Size (c :: s) = c.utf8Size + utf8Size s := by
        rw [← List.singleton_append, utf8Size_append]
        simp [utf8Size]
      rw [List.cons_append, sightingsFrom_cons_of_none (opening?_eq_none_of_at hfirst), ih hs,
        hsize, Nat.add_assoc]

/-- Behind the last marker there is nothing to see. -/
theorem sightingsFrom_of_not_occursIn (h : occursIn marker s = false) (offset : Nat) :
    sightingsFrom offset s = [] := by
  induction s generalizing offset with
  | nil => rw [sightingsFrom]
  | cons c s ih =>
      simp only [occursIn, Bool.or_eq_false_iff] at h
      obtain ⟨hfirst, hs⟩ := h
      have hnone : opening? (c :: s) = none := by
        rw [startsWith, Option.isSome_eq_false_iff, Option.isNone_iff_eq_none] at hfirst
        rw [opening?, hfirst]
      rw [sightingsFrom_cons_of_none hnone, ih hs]

/-- Of markers that can be found, and texts without a marker around them,
the search finds all the arguments, and nothing else. -/
theorem sightings_annotations {annotations : List Annotation} {last : List Char}
    (h : ∀ a ∈ annotations, a.IsFound) (hlast : occursIn marker last = false) :
    closedArguments (sightings (annotations.flatMap Annotation.text ++ last))
      = annotations.map Annotation.arguments ∧
    unterminatedOffsets (sightings (annotations.flatMap Annotation.text ++ last)) = [] := by
  -- The offsets move on from marker to marker; the claim is for all of them.
  unfold sightings
  generalize 0 = offset
  induction annotations generalizing offset with
  | nil =>
      rw [List.flatMap_nil, List.nil_append, sightingsFrom_of_not_occursIn hlast]
      exact ⟨rfl, rfl⟩
  | cons a annotations ih =>
      have ha : a.IsFound := h a (by simp)
      have hstep : sightingsFrom offset ((a :: annotations).flatMap Annotation.text ++ last)
          = .closed (offset + utf8Size a.gap) a.arguments
            :: sightingsFrom (offset + utf8Size a.gap + utf8Size a.body)
              (annotations.flatMap Annotation.text ++ last) := by
        rw [List.flatMap_cons, List.append_assoc, Annotation.text, List.append_assoc,
          ← Annotation.sightingsFrom_body ha]
        exact sightingsFrom_append_of_not_occursIn ha.gap offset
      obtain ⟨hclosed, hunterminated⟩ := ih (fun b hb => h b (List.mem_cons_of_mem _ hb))
        (offset + utf8Size a.gap + utf8Size a.body)
      rw [hstep]
      exact ⟨congrArg (a.arguments :: ·) hclosed, hunterminated⟩

end RouteDoc.Docblock
