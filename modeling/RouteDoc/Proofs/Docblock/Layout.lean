import RouteDoc.Proofs.Docblock.Arguments
import RouteDoc.Proofs.Docblock.Independence

/-!
# `RouteDoc.Proofs.Docblock.Layout`: docblock layout does not matter

The arguments of a marker may be cut at any of their spaces, inside quotes and
blocks as well, and the pieces put on lines of their own, behind margins of
blanks and stars and with lines between them that are only margin. Unfolding
takes off what was put in. But the search for the closing parenthesis comes
before that and goes through all of it, so it has to find the same parenthesis.

It does, since a margin has only characters that the search goes past. These
are put in and exchanged for each other, and nothing that the search looks at
comes closer together (`Relaid`).

* `unfold_lines`: unfolding a layout gives the joined pieces.
* `Relaid.enclosed?_eq`: the search ends at the same parenthesis.
* `unfold_and_extract_of_lines`: a whole text.
-/

set_option autoImplicit false

namespace RouteDoc.Docblock

open RouteDoc.Text

variable {s t : List Char}

/-! ### Lines -/

/-- Blanks that do not end the line. -/
def IsSpacing (s : List Char) : Prop := ∀ c ∈ s, isBlank c = true ∧ c ≠ '\n'

instance (s : List Char) : Decidable (IsSpacing s) := decidableForallMem s

/-- Spacing is blanks. -/
theorem IsSpacing.blank (h : IsSpacing s) : ∀ c ∈ s, isBlank c = true :=
  fun c hc => (h c hc).1

/-- A line of a docblock. -/
structure Line where
  /-- What stands before the stars. -/
  indent : List Char
  /-- The number of stars. -/
  stars : Nat
  /-- What stands behind the stars. -/
  gap : List Char
  /-- The piece on the line; there is none on a line that is only margin. -/
  piece : Option (List Char)
  /-- What stands at the end of the line. -/
  trailing : List Char

namespace Line

variable {l : Line}

/-- The line as it is written. -/
def text (l : Line) : List Char :=
  l.indent ++ (List.replicate l.stars '*' ++ (l.gap ++ l.piece.getD []) ++ l.trailing)

/-- What stands around the stars and the piece is blank. -/
structure WellFormed (l : Line) : Prop where
  indent : IsSpacing l.indent
  gap : IsSpacing l.gap
  piece : ∀ s ∈ l.piece, IsPiece s
  trailing : IsSpacing l.trailing

instance decidableWellFormed (l : Line) : Decidable l.WellFormed :=
  decidable_of_iff (IsSpacing l.indent ∧ IsSpacing l.gap ∧ (∀ s ∈ l.piece, IsPiece s)
      ∧ IsSpacing l.trailing)
    ⟨fun ⟨hindent, hgap, hpiece, htrailing⟩ => ⟨hindent, hgap, hpiece, htrailing⟩,
      fun h => ⟨h.indent, h.gap, h.piece, h.trailing⟩⟩

end Line

/-- Any number of stars that come first are taken away together with those
that follow them. -/
theorem dropWhile_stars (n : Nat) (s : List Char) :
    (List.replicate n '*' ++ s).dropWhile (· = '*') = s.dropWhile (· = '*') :=
  List.dropWhile_append_of_pos fun c hc => by simp [List.eq_of_mem_replicate hc]

/-- Nothing is left of a margin by itself: the blanks behind its stars go
first, and then the stars. -/
theorem withoutMargin_margin (n : Nat) (h : IsSpacing t) :
    withoutMargin (List.replicate n '*' ++ t) = [] := by
  have hnotBlank : ∀ c ∈ List.replicate n '*', isBlank c = false := by
    intro c hc
    rw [List.eq_of_mem_replicate hc]
    decide
  have hstars : Unpadded (List.replicate n '*') :=
    ⟨fun c hc => hnotBlank c (List.mem_of_mem_head? hc),
      fun c hc => hnotBlank c (List.mem_of_mem_getLast? hc)⟩
  have hdrop : (List.replicate n '*').dropWhile (· = '*') = [] := by simp
  rw [withoutMargin, trim_append_right h.blank, hstars.trim_eq, hdrop]
  rfl

/-- Behind a margin the piece is left. It starts with no star and no blank, so
nothing of it is taken for a part of the margin. -/
theorem withoutMargin_piece (n : Nat) (h : IsSpacing t) (hs : IsPiece s) :
    withoutMargin (List.replicate n '*' ++ (t ++ s)) = s := by
  cases n with
  | zero =>
      have hself := withoutMargin_eq_self hs.unpadded hs.noStar
      rw [List.replicate_zero, List.nil_append, withoutMargin, trim_append_left h.blank]
      exact hself
  | succ n =>
      -- The stars keep the blanks behind them from being trimmed first.
      have hpadding : Unpadded (List.replicate (n + 1) '*' ++ (t ++ s)) := by
        constructor
        · intro c hc
          obtain rfl : '*' = c := by simpa [List.replicate_succ] using hc
          decide
        · intro c hc
          rw [← List.append_assoc, List.getLast?_append_of_ne_nil _ hs.ne_nil] at hc
          exact hs.unpadded.2 c hc
      have hdrop : (t ++ s).dropWhile (· = '*') = t ++ s := by
        refine dropWhile_star_eq_self ?_
        cases t with
        | nil => exact hs.noStar
        | cons c t =>
            intro hstar
            obtain rfl : c = '*' := by simpa using hstar
            exact absurd (h.blank '*' List.mem_cons_self) (by decide)
      rw [withoutMargin, hpadding.trim_eq, dropWhile_stars, hdrop, trim_append_left h.blank,
        hs.unpadded.trim_eq]

namespace Line

variable {l : Line}

/-- What is left of a line is its piece, or nothing if the line has none. -/
theorem withoutMargin_text (h : l.WellFormed) : withoutMargin l.text = l.piece.getD [] := by
  have htrim : trim l.text = trim (List.replicate l.stars '*' ++ (l.gap ++ l.piece.getD [])) := by
    rw [text, trim_append_left h.indent.blank, trim_append_right h.trailing.blank]
  rw [withoutMargin, htrim, ← withoutMargin]
  cases hpiece : l.piece with
  | none =>
      rw [Option.getD_none, List.append_nil]
      exact withoutMargin_margin l.stars h.gap
  | some s => exact withoutMargin_piece l.stars h.gap (h.piece s hpiece)

/-- No part of a line has a line break. -/
theorem newline_not_mem_text (h : l.WellFormed) : '\n' ∉ l.text := by
  have hspacing : ∀ {s}, IsSpacing s → '\n' ∉ s := fun hs hmem => (hs '\n' hmem).2 rfl
  have hcontent : '\n' ∉ l.piece.getD [] := by
    cases hpiece : l.piece with
    | none => exact List.not_mem_nil
    | some s => exact (h.piece s hpiece).oneLine
  simp [text, hspacing h.indent, hspacing h.gap, hspacing h.trailing, hcontent]

end Line

variable {lines : List Line} {pieces : List (List Char)}

/-- The lines that are left are the pieces. Lines without a piece leave
nothing, and a piece is never empty. -/
theorem filter_withoutMargin (h : ∀ l ∈ lines, l.WellFormed) :
    ((lines.map Line.text).map withoutMargin).filter (!·.isEmpty)
      = lines.filterMap Line.piece := by
  induction lines with
  | nil => rfl
  | cons l lines ih =>
      obtain ⟨hl, hlines⟩ := List.forall_mem_cons.1 h
      rw [List.map_cons, List.map_cons, l.withoutMargin_text hl]
      cases hpiece : l.piece with
      | none =>
          rw [List.filterMap_cons_none hpiece, ← ih hlines]
          rfl
      | some s =>
          have hne : s ≠ [] := (hl.piece s hpiece).ne_nil
          rw [List.filterMap_cons_some hpiece, ← ih hlines]
          simp [hne]

/-- Unfolding gives the pieces, joined by single spaces, whatever the margins
of the lines are. -/
theorem unfold_lines (h : ∀ l ∈ lines, l.WellFormed) :
    unfold (['\n'].intercalate (lines.map Line.text))
      = [' '].intercalate (lines.filterMap Line.piece) := by
  cases lines with
  | nil => rfl
  | cons l lines =>
      have hsplit : (['\n'].intercalate ((l :: lines).map Line.text)).splitOn '\n'
          = (l :: lines).map Line.text := by
        refine List.splitOn_intercalate '\n' ?_ (by simp)
        intro line hline
        obtain ⟨l', hl', rfl⟩ := List.mem_map.1 hline
        exact l'.newline_not_mem_text (h l' hl')
      rw [unfold, hsplit, filter_withoutMargin h]

/-! ### Margins and the search -/

/-- A character that a margin may have, or the space between two pieces. -/
def IsFiller (c : Char) : Prop := isBlank c = true ∨ c = '*'

/-- A filler is none of the characters that the search for markers and
parentheses minds. -/
theorem IsFiller.not_mem {c : Char} (h : IsFiller c) : c ∉ ['"', '(', ')', '@'] ∧ c ∉ marker := by
  have hnone : ∀ d ∈ ['"', '(', ')', '@'] ++ marker, ¬(isBlank d = true ∨ d = '*') := by decide
  rw [← not_or, ← List.mem_append]
  exact fun hmem => hnone c hmem h

/-- The second text is the first one with fillers put in, and with some of
its fillers exchanged for others. -/
inductive Relaid : List Char → List Char → Prop where
  | nil : Relaid [] []
  | same (c : Char) {s t : List Char} (h : Relaid s t) : Relaid (c :: s) (c :: t)
  | fill {c : Char} (hc : IsFiller c) {s t : List Char} (h : Relaid s t) : Relaid s (c :: t)
  | change {c d : Char} (hc : IsFiller c) (hd : IsFiller d) {s t : List Char} (h : Relaid s t) :
      Relaid (c :: s) (d :: t)

namespace Relaid

variable {s' t' : List Char}

/-- Two texts may be relaid one after the other. -/
theorem append (hs : Relaid s s') (ht : Relaid t t') : Relaid (s ++ t) (s' ++ t') := by
  induction hs with
  | nil => exact ht
  | same c _ ih => exact .same c ih
  | fill hc _ ih => exact .fill hc ih
  | change hc hd _ ih => exact .change hc hd ih

/-- A text is a relaid text of itself. -/
theorem refl (s : List Char) : Relaid s s := by
  induction s with
  | nil => exact .nil
  | cons c s ih => exact .same c ih

/-- Fillers may be put in where nothing was. -/
theorem of_fillers (h : ∀ c ∈ s, IsFiller c) : Relaid [] s := by
  induction s with
  | nil => exact .nil
  | cons c s ih =>
      obtain ⟨hc, hs⟩ := List.forall_mem_cons.1 h
      exact .fill hc (ih hs)

/-- A word without fillers that stands first in the relaid text stood first
before: none of its characters has been put in or changed. -/
theorem standsFirst {word : List Char} (h : Relaid s t) (hword : ∀ c ∈ word, ¬IsFiller c)
    (hfirst : word <+: t) : word <+: s := by
  induction h generalizing word with
  | nil => exact hfirst
  | same c _ ih =>
      rcases List.prefix_cons_iff.1 hfirst with rfl | ⟨word', rfl, hword'⟩
      · exact List.nil_prefix
      · obtain ⟨-, hrest⟩ := List.forall_mem_cons.1 hword
        exact List.cons_prefix_cons.2 ⟨rfl, ih hrest hword'⟩
  | fill hc _ _ =>
      rcases List.prefix_cons_iff.1 hfirst with rfl | ⟨word', rfl, -⟩
      · exact List.nil_prefix
      · exact absurd hc (hword _ List.mem_cons_self)
  | change _ hd _ _ =>
      rcases List.prefix_cons_iff.1 hfirst with rfl | ⟨word', rfl, -⟩
      · exact List.nil_prefix
      · exact absurd hd (hword _ List.mem_cons_self)

/-- A marker that starts before the closing parenthesis started there before,
since the word of a marker has no fillers. -/
theorem startsWith_marker {rest : List Char} (h : Relaid s t)
    (hstarts : startsWith marker (t ++ ')' :: rest) = true) :
    startsWith marker (s ++ ')' :: rest) = true := by
  have hafter : marker <+: t := marker_prefix_of_startsWith hstarts
  have hbefore : marker <+: s := h.standsFirst (fun c hc hfiller => hfiller.not_mem.2 hc) hafter
  exact startsWith_iff.2 (hbefore.trans (List.prefix_append s _))

/-- The search goes on to the same closing parenthesis. It goes past fillers
whatever the depth and the quoting, and minds the other characters as before. -/
theorem enclosed?_eq {depth : Nat} {quoted : Bool} {rest : List Char} (h : Relaid s t)
    (hfound : enclosed? depth quoted (s ++ ')' :: rest) = some (s, rest)) :
    enclosed? depth quoted (t ++ ')' :: rest) = some (t, rest) := by
  -- Fillers are gone past whatever the depth and the quoting, so both stay the same.
  induction h generalizing depth quoted with
  | nil => exact hfound
  | @same c s t h ih =>
      rw [List.cons_append] at hfound ⊢
      by_cases hclosing : c = ')' ∧ depth = 0 ∧ quoted = false
      · -- The search would have ended before `c`.
        obtain ⟨rfl, rfl, rfl⟩ := hclosing
        rw [enclosed?.eq_def] at hfound
        simp at hfound
      · obtain ⟨depth', quoted', hstep⟩ := enclosed?_step hclosing
        rw [hstep] at hfound ⊢
        split at hfound
        · cases hfound
        · next hquiet =>
          have hstill : ¬(quoted = false ∧ startsWith marker (c :: (t ++ ')' :: rest)) = true) := by
            intro hstarts
            exact hquiet ⟨hstarts.1, (h.same c).startsWith_marker hstarts.2⟩
          rw [if_neg hstill, keep_eq_some_cons_iff]
          exact ih (keep_eq_some_cons_iff.1 hfound)
  | fill hc _ ih =>
      rw [List.cons_append, enclosed?_cons_of_plain hc.not_mem.1, keep_eq_some_cons_iff]
      exact ih hfound
  | change hc hd _ ih =>
      rw [List.cons_append, enclosed?_cons_of_plain hc.not_mem.1, keep_eq_some_cons_iff] at hfound
      rw [List.cons_append, enclosed?_cons_of_plain hd.not_mem.1, keep_eq_some_cons_iff]
      exact ih hfound

end Relaid

/-- A marker is found with its arguments relaid, because nothing else about it
has changed. -/
theorem Annotation.IsFound.relaid {a : Annotation} (ha : a.IsFound) (h : Relaid a.arguments t) :
    ({ a with arguments := t } : Annotation).IsFound :=
  ⟨ha.gap, ha.blanks, fun rest => h.enclosed?_eq (ha.arguments rest)⟩

/-- A line is its piece with fillers put in before and behind it. -/
theorem Line.relaid_text {l : Line} (h : l.WellFormed) : Relaid (l.piece.getD []) l.text := by
  have hspacing : ∀ {s}, IsSpacing s → Relaid [] s := fun hs =>
    .of_fillers fun c hc => Or.inl (hs.blank c hc)
  have hstars : Relaid [] (List.replicate l.stars '*') :=
    .of_fillers fun c hc => Or.inr (List.eq_of_mem_replicate hc)
  have hmargin := hstars.append ((hspacing h.gap).append (.refl (l.piece.getD [])))
  simpa [text] using (hspacing h.indent).append (hmargin.append (hspacing h.trailing))

/-- The layout of the pieces is the joined pieces with fillers put in, and
with line feeds for the spaces between them. -/
theorem relaid_lines (h : ∀ l ∈ lines, l.WellFormed) :
    Relaid ([' '].intercalate (lines.filterMap Line.piece))
      (['\n'].intercalate (lines.map Line.text)) := by
  have hnewline : IsFiller '\n' := Or.inl (by decide)
  have hspace : IsFiller ' ' := Or.inl (by decide)
  -- By induction on the lines. One that is only margin adds nothing to the pieces.
  induction lines with
  | nil => exact .nil
  | cons l lines ih =>
      obtain ⟨hl, hlines⟩ := List.forall_mem_cons.1 h
      have hline := l.relaid_text hl
      have hrest := ih hlines
      cases lines with
      | nil => cases hpiece : l.piece <;> simpa [hpiece] using hline
      | cons l' lines =>
          rw [List.map_cons, List.map_cons, List.intercalate_cons_cons, ← List.map_cons,
            List.append_assoc]
          cases hpiece : l.piece with
          | none =>
              rw [hpiece] at hline
              rw [List.filterMap_cons_none hpiece]
              exact hline.append (.fill hnewline hrest)
          | some s =>
              rw [hpiece] at hline
              rw [List.filterMap_cons_some hpiece]
              -- There is a space behind the piece only if another one follows.
              generalize (l' :: lines).filterMap Line.piece = pieces at hrest ⊢
              cases pieces with
              | nil =>
                  rw [List.intercalate_singleton, ← List.append_nil s]
                  exact hline.append (.fill hnewline hrest)
              | cons s' pieces =>
                  rw [List.intercalate_cons_cons, List.append_assoc]
                  exact hline.append (.change hspace hnewline hrest)

/-! ### Whole texts -/

/-- The joined pieces are one line without padding, and are not changed by
unfolding. -/
theorem unfold_intercalate (h : ∀ s ∈ pieces, IsPiece s) :
    unfold ([' '].intercalate pieces) = [' '].intercalate pieces := by
  cases pieces with
  | nil => rfl
  | cons s pieces =>
      obtain ⟨hs, hpieces⟩ := List.forall_mem_cons.1 h
      refine unfold_eq_self (isPiece_intercalate (by decide) hs fun t ht => ?_)
      exact ⟨(hpieces t ht).ne_nil, (hpieces t ht).oneLine, (hpieces t ht).unpadded.2⟩

/-- Unfolding forgets the layout of the pieces. So wherever the joined pieces
are the arguments of a marker, any layout of them yields the same routes. -/
theorem unfold_and_extract_of_lines (hlines : ∀ l ∈ lines, l.WellFormed)
    (hpieces : lines.filterMap Line.piece = pieces) :
    unfold (['\n'].intercalate (lines.map Line.text)) = [' '].intercalate pieces ∧
    ∀ (before after : List Annotation) (a : Annotation) (last : List Char),
      (∀ b ∈ before ++ a :: after, b.WellFormed) → ¬marker <:+: last →
      a.arguments = [' '].intercalate pieces →
      (extract (sourceText (before ++
          { a with arguments := ['\n'].intercalate (lines.map Line.text) } :: after) last)).value
        = (extract (sourceText (before ++ a :: after) last)).value := by
  have hunfold := unfold_lines hlines
  have hrelaid := relaid_lines hlines
  rw [hpieces] at hunfold hrelaid
  refine ⟨hunfold, fun before after a last hwellFormed hlast harguments => ?_⟩
  generalize ['\n'].intercalate (lines.map Line.text) = layout at hunfold hrelaid ⊢
  rw [← harguments] at hunfold hrelaid
  -- The markers are found with both argument lists.
  have hfound : ∀ b ∈ before ++ a :: after, b.IsFound := fun b hb => (hwellFormed b hb).isFound
  have hfound' : ∀ b ∈ before ++ { a with arguments := layout } :: after, b.IsFound := by
    rw [List.forall_mem_append, List.forall_mem_cons] at hfound ⊢
    obtain ⟨hbefore, ha, hafter⟩ := hfound
    exact ⟨hbefore, ha.relaid hrelaid, hafter⟩
  -- Both say the same, since the joined pieces unfold to themselves.
  have hsay : Arguments.ofText layout = Arguments.ofText a.arguments := by
    have hpiece : ∀ s ∈ pieces, IsPiece s := by
      intro s hs
      rw [← hpieces] at hs
      obtain ⟨l, hl, hls⟩ := List.mem_filterMap.1 hs
      exact (hlines l hl).piece s hls
    rw [Arguments.ofText, hunfold, Arguments.ofText, harguments, unfold_intercalate hpiece]
  have hno : occursIn marker last = false := occursIn_eq_false_iff.2 hlast
  rw [extract_annotations hfound' hno, extract_annotations hfound hno]
  refine (routesOf_congr ?_).1
  simp only [List.map_append, List.map_cons, hsay]

/-- A marker with the base URL. -/
def itemBase : Annotation where
  gap := "/**\n * ".toList
  blanks := []
  arguments := "\"/api\"".toList

/-- A marker on one line. -/
def itemShow : Annotation where
  gap := "\n */\n/** ".toList
  blanks := []
  arguments := ("\"/items/\x7bid\x7d\", name=\"item show\", "
    ++ "requirements=\x7b \"id\"=\"\\d+\" \x7d").toList

/-- Its arguments in a docblock, cut inside the quotes and inside the block. -/
def itemLines : List Line :=
  [{ indent := [], stars := 0, gap := [], piece := none, trailing := [] },
    { indent := [' '], stars := 1, gap := "   ".toList,
      piece := some "\"/items/\x7bid\x7d\",".toList, trailing := [] },
    { indent := ['\t'], stars := 2, gap := [], piece := some "name=\"item".toList,
      trailing := " \r".toList },
    { indent := [], stars := 0, gap := [], piece := some "show\", requirements=\x7b".toList,
      trailing := [] },
    { indent := [' '], stars := 3, gap := [' '], piece := none, trailing := [] },
    { indent := "  ".toList, stars := 0, gap := [], piece := some "\"id\"=\"\\d+\"".toList,
      trailing := [] },
    { indent := [' '], stars := 1, gap := [' '], piece := some "\x7d".toList, trailing := [] },
    { indent := [' '], stars := 1, gap := [' '], piece := none, trailing := [] }]

/-- The arguments of one annotation are spread over lines with all kinds of
margins, also inside a quoted text and inside braces, and the routes are the
same as from one line. -/
theorem extract_itemLines :
    String.ofList (['\n'].intercalate (itemLines.map Line.text))
      = "\n *   \"/items/\x7bid\x7d\",\n\t**name=\"item \r\nshow\", requirements=\x7b\n *** \n"
        ++ "  \"id\"=\"\\d+\"\n * \x7d\n * " ∧
    (extract (sourceText [itemBase,
        { itemShow with arguments := ['\n'].intercalate (itemLines.map Line.text) }]
        "\n */".toList)).value
      = (extract (sourceText [itemBase, itemShow] "\n */".toList)).value ∧
    (extract (sourceText [itemBase, itemShow] "\n */".toList)).value.map Route.url
      = ["/api/items/\x7bid\x7d"] := by
  have hwellFormed : ∀ b ∈ [itemBase, itemShow], b.WellFormed := by decide +kernel
  have hlines := @unfold_and_extract_of_lines itemLines _ (by decide +kernel) rfl
  refine ⟨by decide +kernel, hlines.2 [itemBase] [] itemShow _ hwellFormed (by decide)
    (by decide +kernel), ?_⟩
  rw [extract_annotations (fun b hb => (hwellFormed b hb).isFound) (by decide)]
  decide +kernel

end RouteDoc.Docblock
