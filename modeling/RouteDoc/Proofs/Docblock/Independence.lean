import Mathlib.Data.List.Infix
import RouteDoc.Proofs.Docblock.Markers
import RouteDoc.Proofs.Docblock.Profile

/-!
# `RouteDoc.Proofs.Docblock.Independence`: markers do not affect each other

Only what stands outside double quotes closes a marker. If the quotes and
the parentheses of its arguments are matched there, and no other marker
starts there, the search finds the arguments and goes on behind them,
whatever quotes and parentheses the text around the marker has.

Of the markers that were found, the first gives the base URL. Nothing else
is carried from one marker to the next. So a marker yields what it yields
when it follows the first one directly.

* `WellNested.enclosable`: matched arguments are found.
* `routesBelow_eq_flatMap`: what each marker yields.
* `routesOf_congr`: only what the arguments say matters for it.
* `extract_eq_flatMap_of_wellFormed`: a whole text.
-/

set_option autoImplicit false

namespace RouteDoc.Docblock

open RouteDoc.Text

variable {s : List Char} {quoted : Bool} {depth : Nat}

/-! ### Matched arguments -/

/-- The text without what stands in double quotes. The quotes stay, so that
nothing runs together. The first argument tells whether a quote is open. -/
def unquotedFrom : Bool → List Char → List Char
  | _, [] => []
  | quoted, c :: s =>
    if c = '"' then c :: unquotedFrom (!quoted) s
    else if quoted then unquotedFrom quoted s
    else c :: unquotedFrom quoted s

/-- A quote counts as outside quotes, and turns outside into inside. -/
theorem unquotedFrom_quote (quoted : Bool) (s : List Char) :
    unquotedFrom quoted ('"' :: s) = '"' :: unquotedFrom (!quoted) s := by
  rw [unquotedFrom, if_pos rfl]

/-- Inside quotes, a character is left out unless it is the closing one. -/
theorem unquotedFrom_true_cons {c : Char} (hc : c ≠ '"') (s : List Char) :
    unquotedFrom true (c :: s) = unquotedFrom true s := by
  rw [unquotedFrom, if_neg hc, if_pos rfl]

/-- Outside quotes, a character is kept. -/
theorem unquotedFrom_false_cons {c : Char} (hc : c ≠ '"') (s : List Char) :
    unquotedFrom false (c :: s) = c :: unquotedFrom false s := by
  rw [unquotedFrom, if_neg hc, if_neg Bool.false_ne_true]

/-- The text without what stands in double quotes. -/
def unquoted (s : List Char) : List Char := unquotedFrom false s

/-- Behind `depth` open parentheses, the text closes every parenthesis that
is open and no other, and it has no marker. -/
structure Matched (depth : Nat) (s : List Char) : Prop where
  opened : ∀ p, p <+: s → p.count ')' ≤ depth + p.count '('
  closed : depth + s.count '(' = s.count ')'
  noMarker : ¬marker <:+: s

/-- Every quote of the text has a partner, and outside quotes so has every
parenthesis and there is no marker. -/
structure WellNested (s : List Char) : Prop where
  quotes : s.count '"' % 2 = 0
  matched : Matched 0 (unquoted s)

instance decidableMatched (depth : Nat) (s : List Char) : Decidable (Matched depth s) :=
  decidable_of_iff
    ((∀ p ∈ s.inits, p.count ')' ≤ depth + p.count '(') ∧
      depth + s.count '(' = s.count ')' ∧ ¬marker <:+: s)
    ⟨fun ⟨ho, hc, hm⟩ => ⟨fun p hp => ho p ((List.mem_inits p s).2 hp), hc, hm⟩,
      fun h => ⟨fun p hp => h.opened p ((List.mem_inits p s).1 hp), h.closed, h.noMarker⟩⟩

instance decidableWellNested (s : List Char) : Decidable (WellNested s) :=
  decidable_of_iff (s.count '"' % 2 = 0 ∧ Matched 0 (unquoted s))
    ⟨fun ⟨hq, hm⟩ => ⟨hq, hm⟩, fun h => ⟨h.quotes, h.matched⟩⟩

/-- What is behind a character that is no parenthesis is matched as before,
because the character changes none of the numbers. -/
theorem Matched.of_ne {c : Char} (h : Matched depth (c :: s)) (hopen : c ≠ '(')
    (hclose : c ≠ ')') : Matched depth s where
  opened := by
    intro p hp
    have hcount := h.opened (c :: p) (List.cons_prefix_cons.2 ⟨rfl, hp⟩)
    rwa [List.count_cons_of_ne hclose, List.count_cons_of_ne hopen] at hcount
  closed := by
    have hcount := h.closed
    rwa [List.count_cons_of_ne hclose, List.count_cons_of_ne hopen] at hcount
  noMarker := fun hmarker => h.noMarker (hmarker.trans (List.suffix_cons c s).isInfix)

/-- Behind an opening parenthesis there is one more to close. -/
theorem Matched.of_open (h : Matched depth ('(' :: s)) : Matched (depth + 1) s where
  opened := by
    intro p hp
    have hcount := h.opened ('(' :: p) (List.cons_prefix_cons.2 ⟨rfl, hp⟩)
    rw [List.count_cons_of_ne (by decide), List.count_cons_self] at hcount
    omega
  closed := by
    have hcount := h.closed
    rw [List.count_cons_of_ne (by decide) (a := ')'), List.count_cons_self] at hcount
    omega
  noMarker := fun hmarker => h.noMarker (hmarker.trans (List.suffix_cons '(' s).isInfix)

/-- A parenthesis that closes one has one to close. Behind it there is one
less. -/
theorem Matched.of_close (h : Matched depth (')' :: s)) :
    ∃ outer, depth = outer + 1 ∧ Matched outer s := by
  have hopen : 1 ≤ depth := by simpa using h.opened [')'] (by simp)
  refine ⟨depth - 1, by omega, ⟨fun p hp => ?_, ?_, fun hmarker => ?_⟩⟩
  · have hcount := h.opened (')' :: p) (List.cons_prefix_cons.2 ⟨rfl, hp⟩)
    rw [List.count_cons_self, List.count_cons_of_ne (by decide)] at hcount
    omega
  · have hcount := h.closed
    rw [List.count_cons_self, List.count_cons_of_ne (by decide)] at hcount
    omega
  · exact h.noMarker (hmarker.trans (List.suffix_cons ')' s).isInfix)

/-- A marker that starts before the closing parenthesis ends before it, since
the word of a marker has no parenthesis. -/
theorem marker_prefix_of_startsWith {rest : List Char}
    (h : startsWith marker (s ++ ')' :: rest) = true) : marker <+: s := by
  obtain ⟨t, ht⟩ := startsWith_iff.1 h
  -- Either the text ends behind the marker, or the marker has the parenthesis.
  rcases List.append_eq_append_iff.1 ht with ⟨u, rfl, -⟩ | ⟨u, hmarker, hu⟩
  · exact List.prefix_append _ _
  · cases u with
    | nil => exact ⟨[], by simpa using hmarker⟩
    | cons c u =>
        obtain ⟨rfl, -⟩ := List.cons.inj hu
        have hmem : ')' ∈ marker := by
          rw [hmarker]
          simp
        exact absurd hmem (by decide)

/-- Where there is no marker outside quotes, none starts, whatever stands
behind the closing parenthesis. -/
theorem startsWith_marker_eq_false (h : ¬marker <:+: unquotedFrom false s) (rest : List Char) :
    startsWith marker (s ++ ')' :: rest) = false := by
  rw [← Bool.not_eq_true]
  intro hstarts
  -- The word of a marker has no quote, so it is still there outside quotes.
  obtain ⟨t, rfl⟩ := marker_prefix_of_startsWith hstarts
  exact h ⟨[], unquotedFrom false t, rfl⟩

/-- The search for the closing parenthesis ends behind a text that is matched
outside quotes: not before, because up to there more are open than closed, and
not later, because all are closed then and no quote is open. -/
theorem Matched.enclosed? (rest : List Char) (hquotes : s.count '"' % 2 = quoted.toNat)
    (h : Matched depth (unquotedFrom quoted s)) :
    enclosed? depth quoted (s ++ ')' :: rest) = some (s, rest) := by
  induction s generalizing depth quoted with
  | nil =>
      have hquoted : quoted = false := by
        cases quoted with
        | false => rfl
        | true => simp at hquotes
      have hdepth : depth = 0 := by simpa [unquotedFrom] using h.closed
      subst hquoted hdepth
      rw [List.nil_append, enclosed?.eq_def]
      simp
  | cons c s ih =>
      rw [List.cons_append, enclosed?.eq_def]
      by_cases hquote : c = '"'
      · -- A quote switches quoting.
        subst hquote
        rw [unquotedFrom_quote] at h
        have hrest : s.count '"' % 2 = (!quoted).toNat := by
          rw [List.count_cons_self] at hquotes
          cases quoted <;> simp only [Bool.toNat_true, Bool.toNat_false, Bool.not_true,
            Bool.not_false] at hquotes ⊢ <;> omega
        simp only [if_true]
        rw [ih hrest (h.of_ne (by decide) (by decide))]
        rfl
      rw [List.count_cons_of_ne hquote] at hquotes
      cases quoted with
      | true =>
          -- Between quotes nothing else counts.
          rw [unquotedFrom_true_cons hquote] at h
          simp only [hquote, if_false, if_true]
          rw [ih hquotes h]
          rfl
      | false =>
          have hnoMarker := h.noMarker
          rw [unquotedFrom_false_cons hquote] at h
          simp only [hquote, if_false, Bool.false_eq_true]
          by_cases hopen : c = '('
          · subst hopen
            simp only [if_true]
            rw [ih hquotes h.of_open]
            rfl
          by_cases hclose : c = ')'
          · subst hclose
            -- There is one to close, so that the search does not end here.
            obtain ⟨outer, rfl, houter⟩ := h.of_close
            simp only [hopen, if_false, if_true]
            rw [ih hquotes houter]
            rfl
          have hmarker := startsWith_marker_eq_false hnoMarker rest
          rw [List.cons_append] at hmarker
          simp only [hopen, hclose, hmarker, if_false, Bool.false_eq_true]
          rw [ih hquotes (h.of_ne hopen hclose)]
          rfl

/-- Well-nested arguments end at their own closing parenthesis, whatever
stands behind it. -/
theorem WellNested.enclosable (h : WellNested s) : Enclosable s := by
  intro rest
  exact h.matched.enclosed? rest h.quotes

/-- A marker that can be found, told by its text alone. -/
structure Annotation.WellFormed (a : Annotation) : Prop where
  gap : ¬marker <:+: a.gap
  blanks : ∀ c ∈ a.blanks, isBlank c = true
  arguments : WellNested a.arguments

instance decidableWellFormed (a : Annotation) : Decidable a.WellFormed :=
  decidable_of_iff
    (¬marker <:+: a.gap ∧ (∀ c ∈ a.blanks, isBlank c = true) ∧ WellNested a.arguments)
    ⟨fun ⟨hg, hb, ha⟩ => ⟨hg, hb, ha⟩, fun h => ⟨h.gap, h.blanks, h.arguments⟩⟩

/-- A text that is not found in another one is no part of it. -/
theorem occursIn_eq_false_iff {pattern : List Char} :
    occursIn pattern s = false ↔ ¬pattern <:+: s := by
  rw [← occursIn_iff, Bool.not_eq_true]

/-- A well-formed annotation is found where it is written: no marker comes in
the gap before it, and its arguments end where they end. -/
theorem Annotation.WellFormed.isFound {a : Annotation} (h : a.WellFormed) : a.IsFound where
  gap := occursIn_eq_false_iff.2 h.gap
  blanks := h.blanks
  arguments := h.arguments.enclosable

/-! ### One marker after another -/

variable {base : String} {first : Annotation} {later : List Annotation} {last : List Char}

/-- What is yielded for one marker does not depend on those behind it. -/
theorem routesBelow_cons (base : String) (arguments : List Char) (rest : List (List Char)) :
    routesBelow base (arguments :: rest)
      = ⟨(routesBelow base [arguments]).value ++ (routesBelow base rest).value,
        (routesBelow base [arguments]).notices ++ (routesBelow base rest).notices⟩ := by
  rw [routesBelow, routesBelow]
  cases route? base (Arguments.ofText arguments) with
  | ok route =>
      cases route with
      | none => rfl
      | some route =>
          -- The notices of the route are none, and those of the rest follow.
          show (⟨_ :: _, _⟩ : Noted (List Route)) = _
          simp [routesBelow]
  | error fault => rfl

/-- Every marker behind the base URL yields what it yields alone. By
induction, since the first one does and nothing is handed on to the rest. -/
theorem routesBelow_eq_flatMap (base : String) (found : List (List Char)) :
    routesBelow base found
      = ⟨found.flatMap fun arguments => (routesBelow base [arguments]).value,
        found.flatMap fun arguments => (routesBelow base [arguments]).notices⟩ := by
  induction found with
  | nil => rfl
  | cons arguments found ih => rw [routesBelow_cons, ih, List.flatMap_cons, List.flatMap_cons]

/-- Argument lists that say the same give the same routes and as many
warnings, however they are written. -/
theorem routesBelow_congr {found found' : List (List Char)}
    (h : found.map Arguments.ofText = found'.map Arguments.ofText) :
    (routesBelow base found).value = (routesBelow base found').value ∧
    (routesBelow base found).warnings.length = (routesBelow base found').warnings.length := by
  induction found generalizing found' with
  | nil =>
      obtain rfl := List.map_eq_nil_iff.1 h.symm
      exact ⟨rfl, rfl⟩
  | cons arguments found ih =>
      obtain ⟨arguments', found', rfl, hfirst, hrest⟩ := List.map_eq_cons_iff.1 h.symm
      obtain ⟨hvalue, hwarnings⟩ := ih hrest.symm
      rw [routesBelow, routesBelow, hfirst]
      cases route? base (Arguments.ofText arguments) with
      | ok route =>
          cases route with
          | none => exact ⟨hvalue, hwarnings⟩
          | some route =>
              have hquiet : ∀ below : Noted (List Route),
                  (do let routes ← below; return route :: routes).warnings = below.warnings := by
                intro below
                rw [Noted.warnings, Noted.notices_bind, Noted.notices_pure, List.append_nil,
                  Noted.warnings]
              refine ⟨congrArg (route :: ·) hvalue, ?_⟩
              show (do let routes ← routesBelow base found; return route :: routes).warnings.length
                = (do let routes ← routesBelow base found'; return route :: routes).warnings.length
              rw [hquiet, hquiet]
              exact hwarnings
      | error fault =>
          -- The warnings quote the arguments as they are written, so only their number agrees.
          exact ⟨hvalue, congrArg (· + 1) hwarnings⟩

/-- The routes depend on what the arguments of the markers say, and on nothing
else of how they are written. Notices quote the arguments, so that only their
number can be said to stay the same. -/
theorem routesOf_congr {found found' : List (List Char)}
    (h : found.map Arguments.ofText = found'.map Arguments.ofText) :
    (routesOf found).value = (routesOf found').value ∧
    (routesOf found).warnings.length = (routesOf found').warnings.length := by
  cases found with
  | nil =>
      obtain rfl := List.map_eq_nil_iff.1 h.symm
      exact ⟨rfl, rfl⟩
  | cons first found =>
      obtain ⟨first', found', rfl, hfirst, hrest⟩ := List.map_eq_cons_iff.1 h.symm
      rw [routesOf, routesOf, hfirst]
      exact routesBelow_congr hrest.symm

/-- What the markers that are seen contribute to the routes of a text, and
what is reported of them. A text without the word of a marker has none. -/
theorem extract_eq_of_sightings (text : List Char) :
    extract (String.ofList text) = (do
      Noted.noteAll ((unterminatedOffsets (sightings text)).map .unterminated)
      routesOf (closedArguments (sightings text))) := by
  cases hword : occursIn marker text with
  | true => rw [extract, String.toList_ofList, if_pos hword]
  | false =>
      rw [extract_of_not_occursIn (by rwa [String.toList_ofList]), sightings,
        sightingsFrom_of_not_occursIn hword]
      rfl

/-- A source text with some markers and `last` behind them. -/
def sourceText (annotations : List Annotation) (last : List Char) : String :=
  String.ofList (annotations.flatMap Annotation.text ++ last)

/-- A source text is read marker by marker. None is found besides those that
were written, and none of them is unterminated. -/
theorem extract_annotations {annotations : List Annotation} (h : ∀ a ∈ annotations, a.IsFound)
    (hlast : occursIn marker last = false) :
    extract (sourceText annotations last) = routesOf (annotations.map Annotation.arguments) := by
  obtain ⟨hclosed, hunterminated⟩ := sightings_annotations h hlast
  rw [sourceText, extract_eq_of_sightings, hclosed, hunterminated]
  rfl

/-- A source text with two markers and nothing around them. -/
def pairText (first a : Annotation) : String := String.ofList (first.body ++ a.body)

/-- A text with a base and one more annotation yields what the second one
yields behind the base URL. -/
theorem extract_pairText {a : Annotation} (hfirst : first.IsFound) (ha : a.IsFound) :
    extract (pairText first a)
      = routesBelow (Arguments.ofText first.arguments).url [a.arguments] := by
  have hbare : ∀ b : Annotation, b.IsFound → ({ b with gap := [] } : Annotation).IsFound := by
    intro b hb
    exact ⟨rfl, hb.blanks, hb.arguments⟩
  have hpair := @extract_annotations [] [{ first with gap := [] }, { a with gap := [] }]
    (by simpa using ⟨hbare first hfirst, hbare a ha⟩) rfl
  simpa [sourceText, pairText, Annotation.text, Annotation.body, routesOf] using hpair

/-- A text yields, one after the other, what its later annotations yield in a
text of their own with the base. Only the base URL is shared. -/
theorem extract_sourceText (hfirst : first.WellFormed) (hlater : ∀ a ∈ later, a.WellFormed)
    (hlast : ¬marker <:+: last) :
    extract (sourceText (first :: later) last)
      = ⟨later.flatMap fun a => (extract (pairText first a)).value,
        later.flatMap fun a => (extract (pairText first a)).notices⟩ := by
  have hfound : ∀ a ∈ first :: later, a.IsFound := by
    intro a ha
    rcases List.mem_cons.1 ha with rfl | ha
    · exact hfirst.isFound
    · exact (hlater a ha).isFound
  have hpair : ∀ a ∈ later, extract (pairText first a)
      = routesBelow (Arguments.ofText first.arguments).url [a.arguments] := by
    intro a ha
    exact extract_pairText hfirst.isFound (hlater a ha).isFound
  rw [extract_annotations hfound (occursIn_eq_false_iff.2 hlast), List.map_cons, routesOf,
    routesBelow_eq_flatMap, List.flatMap_map, List.flatMap_map, Noted.mk.injEq]
  constructor
  · refine List.flatMap_congr fun a ha => ?_
    rw [hpair a ha]
  · refine List.flatMap_congr fun a ha => ?_
    rw [hpair a ha]

/-! ### Malformed blocks -/

/-- One of the two blocks is there and cannot be read. -/
def Arguments.Malformed (a : Arguments) : Prop :=
  (∃ value, a.attributes.get? "defaults" = some value ∧ ∀ pairs, defaultPairs value ≠ .ok pairs) ∨
  ∃ value, a.attributes.get? "requirements" = some value ∧ ∀ keys, requirementKeys value ≠ .ok keys

/-- From a malformed block no profile can be read. The defaults are read
first, so the fault may be theirs also if both blocks are malformed. -/
theorem profile?_of_malformed {a : Arguments} (h : a.Malformed) :
    ∃ fault, profile? a = .error fault := by
  rw [profile?_eq]
  rcases h with ⟨value, hvalue, hnot⟩ | ⟨value, hvalue, hnot⟩
  · rw [hvalue, Option.elim_some]
    cases hread : defaultPairs value with
    | error fault => exact ⟨fault, rfl⟩
    | ok pairs => exact absurd hread (hnot pairs)
  · rw [hvalue, Option.elim_some]
    -- The default values are read first, and may be wrong as well.
    cases (a.attributes.get? "defaults").elim (pure []) defaultPairs with
    | error fault => exact ⟨fault, rfl⟩
    | ok defaults =>
        cases hread : requirementKeys value with
        | error fault => exact ⟨fault, rfl⟩
        | ok keys => exact absurd hread (hnot keys)

/-- A marker with a malformed block is reported, with its arguments, and gives
no route. Its name and its URL must be such that its blocks are read. -/
theorem routesBelow_of_malformed {arguments : List Char}
    (hname : (Arguments.ofText arguments).name ≠ "")
    (hurl : (Arguments.ofText arguments).url ≠ base)
    (h : (Arguments.ofText arguments).Malformed) :
    ∃ fault, routesBelow base [arguments]
      = ⟨[], [.skippedMarker fault (String.ofList (trim arguments))]⟩ := by
  obtain ⟨fault, hfault⟩ := profile?_of_malformed h
  have hroute : route? base (Arguments.ofText arguments) = .error fault := by
    rw [route?, if_neg (not_or.2 ⟨hname, hurl⟩), hfault]
    rfl
  refine ⟨fault, ?_⟩
  rw [routesBelow, hroute]
  rfl

/-! ### Whole texts -/

/-- What a source text yields is what its markers yield, each behind the
first one, and the first one alone yields nothing. A marker with a
malformed block yields a warning, and all others what they yield without
it. -/
theorem extract_eq_flatMap_of_wellFormed (hfirst : first.WellFormed)
    (hlater : ∀ a ∈ later, a.WellFormed) (hlast : ¬marker <:+: last) :
    (extract (sourceText (first :: later) last)).value
      = later.flatMap (fun a => (extract (pairText first a)).value) ∧
    (extract (sourceText (first :: later) last)).warnings
      = later.flatMap (fun a => (extract (pairText first a)).warnings) ∧
    extract (sourceText [first] last) = ⟨[], []⟩ ∧
    ∀ before a after, later = before ++ a :: after →
      (Arguments.ofText a.arguments).name ≠ "" →
      (Arguments.ofText a.arguments).url ≠ (Arguments.ofText first.arguments).url →
      (Arguments.ofText a.arguments).Malformed →
      ∃ (fault : Fault) (warning : String) (ws ws' : List String),
        warning = "Skipping @Route annotation (" ++ fault.message ++ "): "
          ++ String.ofList (trim a.arguments) ∧
        (extract (pairText first a)).value = [] ∧
        (extract (pairText first a)).warnings = [warning] ∧
        (extract (sourceText (first :: later) last)).value
          = (extract (sourceText (first :: (before ++ after)) last)).value ∧
        (extract (sourceText (first :: later) last)).warnings = ws ++ warning :: ws' ∧
        (extract (sourceText (first :: (before ++ after)) last)).warnings = ws ++ ws' := by
  have hwarnings : ∀ as : List Annotation, (∀ a ∈ as, a.WellFormed) →
      (extract (sourceText (first :: as) last)).warnings
        = as.flatMap fun a => (extract (pairText first a)).warnings := by
    intro as has
    rw [extract_sourceText hfirst has hlast, Noted.warnings, List.filter_flatMap,
      List.map_flatMap]
    rfl
  refine ⟨?_, hwarnings later hlater, extract_sourceText hfirst (by simp) hlast, ?_⟩
  · rw [extract_sourceText hfirst hlater hlast]
  · intro before a after hsplit hname hurl hmalformed
    have ha : a.WellFormed := hlater a (by simp [hsplit])
    have hothers : ∀ b ∈ before ++ after, b.WellFormed := by
      intro b hb
      refine hlater b ?_
      rw [hsplit]
      exact (List.sublist_cons_self a after).append_left before |>.subset hb
    obtain ⟨fault, hfault⟩ := routesBelow_of_malformed hname hurl hmalformed
    rw [← extract_pairText hfirst.isFound ha.isFound] at hfault
    have hwarning : (extract (pairText first a)).warnings
        = [(Notice.skippedMarker fault (String.ofList (trim a.arguments))).text] := by
      rw [hfault]
      rfl
    refine ⟨fault, _, before.flatMap fun b => (extract (pairText first b)).warnings,
      after.flatMap fun b => (extract (pairText first b)).warnings, rfl, ?_, hwarning, ?_, ?_, ?_⟩
    · rw [hfault]
    · rw [extract_sourceText hfirst hlater hlast, extract_sourceText hfirst hothers hlast, hsplit]
      simp only [List.flatMap_append, List.flatMap_cons, hfault, List.nil_append]
    · rw [hwarnings later hlater, hsplit, List.flatMap_append, List.flatMap_cons, hwarning]
      rfl
    · rw [hwarnings _ hothers, List.flatMap_append]

/-- A marker with the base URL, in a text with a quote and a parenthesis
too many, and with a parenthesis and a marker in its quotes. -/
def strayBase : Annotation where
  gap := "6\" (".toList
  blanks := " \n".toList
  arguments := "\"/api\", note=(\")@Route(\")".toList

/-- A marker whose default values are no block. -/
def strayBroken : Annotation where
  gap := ") @Rout".toList
  blanks := []
  arguments := "\"/a\", name=\"a\", defaults=none".toList

/-- A marker that can be read. -/
def strayRoute : Annotation where
  gap := "\"".toList
  blanks := "\t".toList
  arguments := "\"/b\", name=\"b(\"".toList

/-- The block of the broken annotation is malformed: its default values do not
stand in braces. -/
theorem malformed_strayBroken : (Arguments.ofText strayBroken.arguments).Malformed := by
  refine Or.inl ⟨"none", by decide +kernel, fun pairs => ?_⟩
  have hread : defaultPairs "none" = .error (.defaultsNotABlock "none") := by decide +kernel
  rw [hread]
  exact nofun

/-- Well-formed annotations may have markers, parentheses and quotes in the
text around them and in their own quotes. The broken one is reported and
leaves the others alone. -/
theorem extract_strayMarkers :
    sourceText [strayBase, strayBroken, strayRoute] [')']
      = "6\" (@Route \n(\"/api\", note=(\")@Route(\"))) @Rout"
        ++ "@Route(\"/a\", name=\"a\", defaults=none)\"@Route\t(\"/b\", name=\"b(\"))" ∧
    (extract (pairText strayBase strayBroken)).value = [] ∧
    (extract (pairText strayBase strayBroken)).warnings.length = 1 ∧
    (extract (sourceText [strayBase, strayBroken, strayRoute] [')'])).value
      = (extract (sourceText [strayBase, strayRoute] [')'])).value := by
  obtain ⟨-, -, -, hbroken⟩ := @extract_eq_flatMap_of_wellFormed strayBase
    [strayBroken, strayRoute] [')'] (by decide +kernel) (by decide +kernel) (by decide)
  obtain ⟨fault, warning, ws, ws', -, hvalue, hwarnings, hothers, -, -⟩ :=
    hbroken [] strayBroken [strayRoute] rfl (by decide +kernel) (by decide +kernel)
      malformed_strayBroken
  refine ⟨by decide +kernel, hvalue, ?_, hothers⟩
  rw [hwarnings]
  rfl

end RouteDoc.Docblock
