import Mathlib.Data.List.Pairwise
import RouteDoc.Proofs.Docblock.Independence

/-!
# `RouteDoc.Proofs.Docblock.Openings`: every marker of a text is accounted for

After a marker that is not closed, the search resumes inside text that it
has gone through before, where quotes now count the other way round. Still
nothing is lost and nothing is seen twice: wherever a marker opens, the
search either sees it, or has it within the arguments of a closed one.

A marker that is seen is closed exactly if some text behind its parenthesis
is well nested and is followed by a closing parenthesis, and that text is
its arguments. So the search says of a marker what can be said of it by
itself (`Opening.Yields`), wherever the search has started.

* `enclosed?_eq_some_iff`: what the search for a closing parenthesis finds.
* `account_of_sightingsFrom`: the rest of a text, from any place on.
* `sightings_account`: a whole text.
-/

set_option autoImplicit false

namespace RouteDoc.Docblock

open RouteDoc.Text

variable {s text inside arguments rest : List Char} {quoted : Bool} {depth : Nat}

/-! ### Enclosed arguments -/

/-- The empty text is matched. -/
theorem matched_nil : Matched 0 [] where
  opened p hp := by simp [List.prefix_nil.1 hp]
  closed := rfl
  noMarker := by decide

/-- A marker in a text starts at its first character or later. -/
theorem not_marker_infix_cons {c : Char} (hs : ¬marker <:+: s) (hc : ¬marker <+: c :: s) :
    ¬marker <:+: c :: s :=
  fun h => (List.infix_cons_iff.1 h).elim hc hs

/-- A marker starts with an `@`. -/
theorem not_marker_prefix_cons {c : Char} (h : c ≠ '@') : ¬marker <+: c :: s :=
  fun hprefix => h (List.cons_prefix_cons.1 hprefix).1.symm

/-- A character that is no parenthesis changes none of the numbers. It only
must not start a marker. -/
theorem Matched.cons_of_ne {c : Char} (h : Matched depth s) (hopen : c ≠ '(') (hclose : c ≠ ')')
    (hmarker : ¬marker <+: c :: s) : Matched depth (c :: s) where
  opened p hp := by
    rcases List.prefix_cons_iff.1 hp with rfl | ⟨t, rfl, ht⟩
    · simp
    · rw [List.count_cons_of_ne hclose, List.count_cons_of_ne hopen]
      exact h.opened t ht
  closed := by
    rw [List.count_cons_of_ne hclose, List.count_cons_of_ne hopen]
    exact h.closed
  noMarker := not_marker_infix_cons h.noMarker hmarker

/-- An opening parenthesis in front takes the place of one that had to be open
before. -/
theorem Matched.cons_open (h : Matched (depth + 1) s) : Matched depth ('(' :: s) where
  opened p hp := by
    rcases List.prefix_cons_iff.1 hp with rfl | ⟨t, rfl, ht⟩
    · simp
    · have hcount := h.opened t ht
      rw [List.count_cons_of_ne (by decide), List.count_cons_self]
      omega
  closed := by
    have hcount := h.closed
    rw [List.count_cons_of_ne (by decide) (a := ')'), List.count_cons_self]
    omega
  noMarker := not_marker_infix_cons h.noMarker (not_marker_prefix_cons (by decide))

/-- A closing parenthesis in front closes one that has to be open before. -/
theorem Matched.cons_close (h : Matched depth s) : Matched (depth + 1) (')' :: s) where
  opened p hp := by
    rcases List.prefix_cons_iff.1 hp with rfl | ⟨t, rfl, ht⟩
    · simp
    · have hcount := h.opened t ht
      rw [List.count_cons_self, List.count_cons_of_ne (by decide)]
      omega
  closed := by
    have hcount := h.closed
    rw [List.count_cons_self, List.count_cons_of_ne (by decide)]
    omega
  noMarker := not_marker_infix_cons h.noMarker (not_marker_prefix_cons (by decide))

/-- A word without quotes that stands first outside quotes stands first: up to
its end no quote opens, so nothing has been left out. -/
theorem prefix_of_prefix_unquotedFrom {word : List Char} (hword : '"' ∉ word)
    (h : word <+: unquotedFrom false s) : word <+: s := by
  induction word generalizing s with
  | nil => exact List.nil_prefix
  | cons c word ih =>
      simp only [List.mem_cons, not_or] at hword
      obtain ⟨hc, hword⟩ := hword
      cases s with
      | nil => simp [unquotedFrom] at h
      | cons d s =>
          by_cases hd : d = '"'
          · rw [hd, unquotedFrom_quote, List.cons_prefix_cons] at h
            exact absurd h.1.symm hc
          · rw [unquotedFrom_false_cons hd, List.cons_prefix_cons] at h
            exact List.cons_prefix_cons.2 ⟨h.1, ih hword h.2⟩

/-- Where no marker starts in the text, none starts outside quotes. -/
theorem not_marker_prefix_unquotedFrom {c : Char} {tail : List Char} (hquote : c ≠ '"')
    (h : ¬startsWith marker (c :: (s ++ tail)) = true) :
    ¬marker <+: c :: unquotedFrom false s := by
  intro hprefix
  rw [← unquotedFrom_false_cons hquote] at hprefix
  have hstart : marker <+: c :: s := prefix_of_prefix_unquotedFrom (by decide) hprefix
  exact h (startsWith_iff.2 (hstart.trans (List.prefix_append (c :: s) tail)))

/-- What the search finds is matched outside quotes. By induction along the
search, whose depth and quoting are the numbers that are asked for. -/
theorem matched_of_enclosed? (h : enclosed? depth quoted text = some (arguments, rest)) :
    arguments.count '"' % 2 = quoted.toNat ∧ Matched depth (unquotedFrom quoted arguments) := by
  induction text generalizing depth quoted arguments with
  | nil => simp [enclosed?] at h
  | cons c text ih =>
      rw [enclosed?.eq_def] at h
      simp only at h
      by_cases hquote : c = '"'
      · -- A quote switches quoting, and both counts agree that it does.
        rw [if_pos hquote, keep_eq_some_iff] at h
        obtain ⟨found, hfound, rfl⟩ := h
        obtain ⟨hcount, hmatched⟩ := ih hfound
        subst hquote
        rw [List.count_cons_self, unquotedFrom_quote]
        refine ⟨?_, hmatched.cons_of_ne (by decide) (by decide)
          (not_marker_prefix_cons (by decide))⟩
        cases quoted <;> simp only [Bool.not_true, Bool.not_false, Bool.toNat_true,
          Bool.toNat_false] at hcount ⊢ <;> omega
      rw [if_neg hquote] at h
      cases quoted with
      | true =>
          rw [if_pos rfl, keep_eq_some_iff] at h
          obtain ⟨found, hfound, rfl⟩ := h
          rw [List.count_cons_of_ne hquote, unquotedFrom_true_cons hquote]
          exact ih hfound
      | false =>
          rw [if_neg Bool.false_ne_true] at h
          by_cases hopen : c = '('
          · rw [if_pos hopen, keep_eq_some_iff] at h
            obtain ⟨found, hfound, rfl⟩ := h
            obtain ⟨hcount, hmatched⟩ := ih hfound
            rw [List.count_cons_of_ne hquote, unquotedFrom_false_cons hquote, hopen]
            exact ⟨hcount, hmatched.cons_open⟩
          rw [if_neg hopen] at h
          by_cases hclose : c = ')'
          · rw [if_pos hclose] at h
            cases depth with
            | zero =>
                -- This is the parenthesis that is looked for.
                obtain ⟨rfl, -⟩ := Prod.mk.inj (Option.some.inj h)
                exact ⟨rfl, matched_nil⟩
            | succ depth =>
                rw [keep_eq_some_iff] at h
                obtain ⟨found, hfound, rfl⟩ := h
                obtain ⟨hcount, hmatched⟩ := ih hfound
                rw [List.count_cons_of_ne hquote, unquotedFrom_false_cons hquote, hclose]
                exact ⟨hcount, hmatched.cons_close⟩
          rw [if_neg hclose] at h
          by_cases hmarker : startsWith marker (c :: text) = true
          · rw [if_pos hmarker] at h
            cases h
          rw [if_neg hmarker, keep_eq_some_iff] at h
          obtain ⟨found, hfound, rfl⟩ := h
          obtain ⟨hcount, hmatched⟩ := ih hfound
          rw [eq_of_enclosed? hfound] at hmarker
          rw [List.count_cons_of_ne hquote, unquotedFrom_false_cons hquote]
          exact ⟨hcount, hmatched.cons_of_ne hopen hclose
            (not_marker_prefix_unquotedFrom hquote hmarker)⟩

/-- The search finds a text exactly if it is well nested and a closing
parenthesis follows it. There is at most one such text. -/
theorem enclosed?_eq_some_iff :
    enclosed? 0 false inside = some (arguments, rest)
      ↔ WellNested arguments ∧ inside = arguments ++ ')' :: rest := by
  constructor
  · intro h
    obtain ⟨hquotes, hmatched⟩ := matched_of_enclosed? h
    exact ⟨⟨hquotes, hmatched⟩, eq_of_enclosed? h⟩
  · rintro ⟨hnested, rfl⟩
    exact hnested.enclosable rest

/-! ### Openings -/

/-- A place in a text where a marker opens. -/
structure Opening where
  /-- What stands before the marker. -/
  before : List Char
  /-- What stands between its word and its parenthesis. -/
  blanks : List Char
  /-- What stands behind its parenthesis. -/
  inside : List Char

namespace Opening

variable {o p : Opening}

/-- The marker from its word to its parenthesis. -/
def head (o : Opening) : List Char := marker ++ (o.blanks ++ ['('])

/-- The text has a marker here. -/
structure IsIn (o : Opening) (text : List Char) : Prop where
  text : text = o.before ++ (o.head ++ o.inside)
  blanks : ∀ c ∈ o.blanks, isBlank c = true

/-- The byte at which the marker starts. -/
def offset (o : Opening) : Nat := utf8Size o.before

/-- The byte at which its arguments start. -/
def argumentsOffset (o : Opening) : Nat := utf8Size (o.before ++ o.head)

/-- The marker has these arguments: they follow its parenthesis, are well
nested, and are followed by a closing parenthesis. -/
def Encloses (o : Opening) (arguments : List Char) : Prop :=
  WellNested arguments ∧ arguments ++ [')'] <+: o.inside

/-- What there is to say of a marker by itself. -/
inductive Yields (o : Opening) : Sighting → Prop where
  | closed {arguments : List Char} (h : o.Encloses arguments) :
      o.Yields (.closed o.offset arguments)
  | unterminated (h : ∀ arguments, ¬o.Encloses arguments) :
      o.Yields (.unterminated o.offset)

/-- To enclose arguments is what the search behind the parenthesis looks for,
so the two say the same of an opening. -/
theorem encloses_iff :
    o.Encloses arguments ↔ ∃ rest, enclosed? 0 false o.inside = some (arguments, rest) := by
  constructor
  · rintro ⟨hnested, rest, hrest⟩
    exact ⟨rest, enclosed?_eq_some_iff.2 ⟨hnested, by simp [← hrest]⟩⟩
  · rintro ⟨rest, hfound⟩
    obtain ⟨hnested, hinside⟩ := enclosed?_eq_some_iff.1 hfound
    exact ⟨hnested, rest, by simp [hinside]⟩

/-- A marker has one list of arguments at most, because the search finds one. -/
theorem Encloses.unique {other : List Char} (h : o.Encloses arguments) (hother : o.Encloses other) :
    arguments = other := by
  obtain ⟨rest, hrest⟩ := encloses_iff.1 h
  obtain ⟨rest', hrest'⟩ := encloses_iff.1 hother
  rw [hrest, Option.some.injEq] at hrest'
  exact congrArg Prod.fst hrest'

/-- A marker is to be seen as closed with the arguments that it encloses. -/
theorem yields_closed_iff : o.Yields (.closed o.offset arguments) ↔ o.Encloses arguments :=
  ⟨fun | .closed h => h, .closed⟩

/-- A marker is to be seen as unterminated if it encloses no arguments. -/
theorem yields_unterminated_iff :
    o.Yields (.unterminated o.offset) ↔ ∀ arguments, ¬o.Encloses arguments :=
  ⟨fun | .unterminated h => h, .unterminated⟩

/-- There is one thing to say of a marker: it encloses arguments or it does
not, and they are unique. -/
theorem Yields.unique {found other : Sighting} (h : o.Yields found) (hother : o.Yields other) :
    found = other := by
  cases h with
  | closed h =>
      cases hother with
      | closed hother => rw [h.unique hother]
      | unterminated hnone => exact absurd h (hnone _)
  | unterminated hnone =>
      cases hother with
      | closed hother => exact absurd hother (hnone _)
      | unterminated _ => rfl

/-- The head of an opening is its word, the blanks behind that, and a
parenthesis. -/
theorem head_eq (o : Opening) (s : List Char) :
    o.head ++ s = marker ++ (o.blanks ++ '(' :: s) := by
  simp [head]

/-- Where an opening is in a text, the search sees a marker open, with the
same text inside. -/
theorem IsIn.opening? (h : o.IsIn text) : opening? (o.head ++ o.inside) = some o.inside :=
  opening?_eq_some_iff.2 ⟨o.blanks, h.blanks, o.head_eq o.inside⟩

/-- A marker is told by its place: what stands there decides how many blanks
and which text follow. -/
theorem IsIn.eq_of_before (h : o.IsIn text) (hp : p.IsIn text) (hbefore : o.before = p.before) :
    o = p := by
  have htext := h.text
  rw [hp.text, hbefore, List.append_cancel_left_eq] at htext
  have hinside : o.inside = p.inside := by
    have hopening := hp.opening?
    rw [htext, h.opening?, Option.some.injEq] at hopening
    exact hopening
  rw [hinside, List.append_cancel_right_eq, head, head, List.append_cancel_left_eq,
    List.append_cancel_right_eq] at htext
  cases o
  cases p
  simp_all

/-- Between its first letter and its arguments a marker has no place where
another one could start. -/
theorem IsIn.head_prefix (h : o.IsIn text) {u v w : List Char} (hu : u ≠ [])
    (heq : u ++ '@' :: w = o.head ++ v) : o.head <+: u := by
  have hletters : '@' ∉ o.head.tail := by
    have hblank : '@' ∉ o.blanks := fun hmem =>
      absurd (h.blanks '@' hmem) (by decide)
    simp [head, marker, hblank]
  rcases List.append_eq_append_iff.1 heq with ⟨t, hhead, ht⟩ | ⟨t, hprefix, -⟩
  · -- The part of the head behind `u` would start with the letter.
    cases t with
    | nil => exact ⟨[], by simp [hhead]⟩
    | cons c t =>
        obtain ⟨rfl, -⟩ := List.cons.inj ht
        obtain ⟨d, u, rfl⟩ := List.exists_cons_of_ne_nil hu
        rw [hhead] at hletters
        simp at hletters
  · exact ⟨t, hprefix.symm⟩

end Opening

/-! ### Sizes of prefixes -/

/-- A text that is not empty has bytes. -/
theorem utf8Size_pos (h : s ≠ []) : 0 < utf8Size s := by
  obtain ⟨c, s, rfl⟩ := List.exists_cons_of_ne_nil h
  have hc := c.utf8Size_pos
  rw [← List.singleton_append, utf8Size_append]
  simp only [utf8Size, List.foldl_cons, List.foldl_nil]
  omega

/-- A text has at least as many bytes as what it starts with. -/
theorem utf8Size_le_of_prefix {t : List Char} (h : s <+: t) : utf8Size s ≤ utf8Size t := by
  obtain ⟨u, rfl⟩ := h
  rw [utf8Size_append]
  omega

/-- A place in a text is told by its byte, since every character has at least
one. -/
theorem eq_of_prefix_of_utf8Size_eq {t : List Char} (h : s <+: t)
    (hsize : utf8Size s = utf8Size t) : s = t := by
  obtain ⟨u, rfl⟩ := h
  rw [utf8Size_append] at hsize
  have hu : u = [] := by
    by_contra hne
    have := utf8Size_pos hne
    omega
  rw [hu, List.append_nil]

/-- So a marker in a text is told by its byte as well. -/
theorem Opening.IsIn.eq_of_offset {o p : Opening} (h : o.IsIn text) (hp : p.IsIn text)
    (hoffset : o.offset = p.offset) : o = p := by
  have ho : o.before <+: text := ⟨_, h.text.symm⟩
  have hpbefore : p.before <+: text := ⟨_, hp.text.symm⟩
  refine h.eq_of_before hp ?_
  rcases List.prefix_or_prefix_of_prefix ho hpbefore with hprefix | hprefix
  · exact eq_of_prefix_of_utf8Size_eq hprefix hoffset
  · exact (eq_of_prefix_of_utf8Size_eq hprefix hoffset.symm).symm

/-! ### Accounts -/

/-- A marker with what is said of it. -/
abbrev Account := Opening × Sighting

namespace Account

variable {a b : Account} {o : Opening}

/-- The byte behind a closed marker, or behind the parenthesis of one that
is not closed. -/
def finish (a : Account) : Nat :=
  match a.2 with
  | .closed _ arguments => a.1.argumentsOffset + utf8Size (arguments ++ [')'])
  | .unterminated _ => a.1.argumentsOffset

/-- A marker starts within the arguments of a closed one. -/
def Covers (a : Account) (o : Opening) : Prop :=
  ∃ offset arguments, a.2 = .closed offset arguments ∧
    a.1.argumentsOffset ≤ o.offset ∧ o.offset < a.1.argumentsOffset + utf8Size arguments

/-- Neither of two markers starts within the arguments of the other. -/
def Apart (a b : Account) : Prop := ¬a.Covers b.1 ∧ ¬b.Covers a.1

instance : Std.Symm Apart := ⟨fun _ _ h => ⟨h.2, h.1⟩⟩

/-- The arguments of a marker stand behind its start. -/
theorem offset_lt_argumentsOffset (o : Opening) : o.offset < o.argumentsOffset := by
  have hhead : 0 < utf8Size o.head := utf8Size_pos (by simp [Opening.head, marker])
  rw [Opening.offset, Opening.argumentsOffset, utf8Size_append]
  omega

/-- The search goes on behind the opening parenthesis, or further behind. -/
theorem argumentsOffset_le_finish (a : Account) : a.1.argumentsOffset ≤ a.finish := by
  unfold finish
  split <;> omega

/-- A marker that is within the arguments of another one starts before the
search goes on. -/
theorem Covers.lt_finish (h : a.Covers o) : o.offset < a.finish := by
  obtain ⟨offset, arguments, hclosed, -, hlt⟩ := h
  have hle : utf8Size arguments ≤ utf8Size (arguments ++ [')']) :=
    utf8Size_le_of_prefix (List.prefix_append _ _)
  rw [finish, hclosed]
  show o.offset < a.1.argumentsOffset + utf8Size (arguments ++ [')'])
  omega

/-- A marker that is seen later does not start within the arguments of an
earlier one. -/
theorem not_covers_of_finish_le (h : a.finish ≤ o.offset) : ¬a.Covers o :=
  fun hcovers => Nat.not_lt.2 h hcovers.lt_finish

/-- A marker that is seen earlier, or is the same, does not start within the
arguments of a later one. -/
theorem not_covers_of_offset_le (h : o.offset ≤ a.1.offset) : ¬a.Covers o := by
  rintro ⟨offset, arguments, -, hle, -⟩
  have := offset_lt_argumentsOffset a.1
  omega

end Account

/-- What the markers are that open in a text behind its first part
`before`, and what is said of them. -/
structure AccountsFor (text before : List Char) (account : List Account) : Prop where
  /-- There are such markers. -/
  isIn : ∀ a ∈ account, a.1.IsIn text ∧ before <+: a.1.before
  /-- Of each of them this is to be said. -/
  yields : ∀ a ∈ account, a.1.Yields a.2
  /-- They follow each other. -/
  ordered : account.Pairwise fun a b => a.finish ≤ b.1.offset
  /-- There are no others, except within the arguments of these. -/
  complete : ∀ o : Opening, o.IsIn text → before <+: o.before →
    (∃ found, (o, found) ∈ account) ∨ ∃ a ∈ account, a.Covers o

namespace AccountsFor

variable {before behind : List Char} {account : List Account} {o : Opening}

/-- A marker that opens behind `before`, but not there, opens behind the
next character. -/
theorem of_no_opening {c : Char} (hnone : opening? (c :: s) = none)
    (h : AccountsFor (before ++ c :: s) (before ++ [c]) account) :
    AccountsFor (before ++ c :: s) before account where
  isIn a ha := ⟨(h.isIn a ha).1, (List.prefix_append _ _).trans (h.isIn a ha).2⟩
  yields := h.yields
  ordered := h.ordered
  complete p hp hbefore := by
    refine h.complete p hp ?_
    obtain ⟨u, hu⟩ := hbefore
    have htext := hp.text
    rw [← hu, List.append_assoc, List.append_cancel_left_eq] at htext
    cases u with
    | nil =>
        rw [htext, List.nil_append, hp.opening?] at hnone
        cases hnone
    | cons d u =>
        obtain ⟨rfl, -⟩ := List.cons.inj htext
        exact ⟨u, by simp [← hu]⟩

/-- The account of what is behind a marker, with that marker in front. The
marker and its arguments, if it is closed, end where `behind` ends, and
what starts in between is covered. -/
theorem cons {found : Sighting} (ho : o.IsIn text) (hyields : o.Yields found)
    (hfinish : Account.finish (o, found) = utf8Size behind)
    (hbehind : o.before <+: behind)
    (hbetween : ∀ p : Opening, p.IsIn text → o.before <+: p.before → p ≠ o →
      behind <+: p.before ∨ Account.Covers (o, found) p)
    (h : AccountsFor text behind account) :
    AccountsFor text o.before ((o, found) :: account) where
  isIn a ha := by
    rcases List.mem_cons.1 ha with rfl | ha
    · exact ⟨ho, List.prefix_refl _⟩
    · exact ⟨(h.isIn a ha).1, hbehind.trans (h.isIn a ha).2⟩
  yields a ha := by
    rcases List.mem_cons.1 ha with rfl | ha
    · exact hyields
    · exact h.yields a ha
  ordered := by
    refine List.pairwise_cons.2 ⟨fun b hb => ?_, h.ordered⟩
    rw [hfinish]
    exact utf8Size_le_of_prefix (h.isIn b hb).2
  complete p hp hbefore := by
    by_cases hsame : p = o
    · exact Or.inl ⟨found, by simp [hsame]⟩
    rcases hbetween p hp hbefore hsame with hprefix | hcovers
    · rcases h.complete p hp hprefix with ⟨found', hmem⟩ | ⟨a, ha, hcovers⟩
      · exact Or.inl ⟨found', List.mem_cons_of_mem _ hmem⟩
      · exact Or.inr ⟨a, List.mem_cons_of_mem _ ha, hcovers⟩
    · exact Or.inr ⟨_, List.mem_cons_self, hcovers⟩

end AccountsFor

/-- A marker that opens behind `before`, and is not the one there, opens
within the text behind the parenthesis of that one. -/
theorem Opening.IsIn.exists_before_eq {o p : Opening} (ho : o.IsIn text) (hp : p.IsIn text)
    (hbefore : o.before <+: p.before) (hne : p ≠ o) :
    ∃ u w, p.before = o.before ++ (o.head ++ u) ∧ o.inside = u ++ '@' :: w := by
  obtain ⟨u, hu⟩ := hbefore
  have hletter : ∃ w, p.head ++ p.inside = '@' :: w := ⟨_, rfl⟩
  obtain ⟨w, hw⟩ := hletter
  have htext := hp.text
  rw [ho.text, ← hu, List.append_assoc, List.append_cancel_left_eq, hw] at htext
  have hu' : u ≠ [] := by
    rintro rfl
    exact hne (hp.eq_of_before ho (by simp [← hu]))
  obtain ⟨v, rfl⟩ := ho.head_prefix hu' htext.symm
  rw [List.append_assoc, List.append_cancel_left_eq] at htext
  exact ⟨v, w, hu.symm, htext⟩

/-- It opens within the arguments of that one, or behind the parenthesis
that closes them. -/
theorem Opening.IsIn.prefix_or_covers {o p : Opening} (ho : o.IsIn text) (hp : p.IsIn text)
    (hbefore : o.before <+: p.before) (hne : p ≠ o)
    (hinside : o.inside = arguments ++ ')' :: rest) :
    o.before ++ (o.head ++ (arguments ++ [')'])) <+: p.before ∨
      Account.Covers (o, .closed o.offset arguments) p := by
  obtain ⟨u, w, hu, hsplit⟩ := ho.exists_before_eq hp hbefore hne
  rw [hinside] at hsplit
  rcases List.append_eq_append_iff.1 hsplit with ⟨t, rfl, ht⟩ | ⟨t, rfl, ht⟩
  · cases t with
    | nil => exact absurd (List.cons.inj ht).1 (by decide)
    | cons c t =>
        obtain ⟨rfl, -⟩ := List.cons.inj ht
        exact Or.inl ⟨t, by simp [hu]⟩
  · have hne : t ≠ [] := by
      rintro rfl
      exact absurd (List.cons.inj ht).1 (by decide)
    have hsize := utf8Size_pos hne
    refine Or.inr ⟨o.offset, u ++ t, rfl, ?_, ?_⟩
    · show utf8Size (o.before ++ o.head) ≤ utf8Size p.before
      rw [hu]
      exact utf8Size_le_of_prefix ⟨u, by simp⟩
    · show utf8Size p.before < utf8Size (o.before ++ o.head) + utf8Size (u ++ t)
      simp only [hu, utf8Size_append]
      omega

namespace AccountsFor

variable {before : List Char} {account : List Account} {o : Opening}

/-- Where nothing is left of a text, no marker opens. -/
theorem nil (before : List Char) : AccountsFor before before [] := by
  refine ⟨nofun, nofun, List.Pairwise.nil, fun o ho hbefore => ?_⟩
  have hsize := congrArg List.length ho.text
  have hle := hbefore.length_le
  simp [Opening.head, marker] at hsize
  omega

/-- Behind a marker that is not closed, the search goes on behind its
parenthesis. -/
theorem cons_unterminated (ho : o.IsIn text) (hfound : enclosed? 0 false o.inside = none)
    (h : AccountsFor text (o.before ++ o.head) account) :
    AccountsFor text o.before ((o, .unterminated o.offset) :: account) := by
  have hyields : o.Yields (.unterminated o.offset) := by
    refine .unterminated fun arguments hencloses => ?_
    obtain ⟨rest, hsome⟩ := Opening.encloses_iff.1 hencloses
    rw [hfound] at hsome
    cases hsome
  refine h.cons ho hyields rfl (List.prefix_append _ _) fun p hp hbefore hne => Or.inl ?_
  obtain ⟨u, w, hu, -⟩ := ho.exists_before_eq hp hbefore hne
  exact ⟨u, by rw [hu, List.append_assoc]⟩

/-- Behind a marker that is closed, the search goes on behind the
parenthesis that closes it. -/
theorem cons_closed (ho : o.IsIn text)
    (hfound : enclosed? 0 false o.inside = some (arguments, rest))
    (h : AccountsFor text (o.before ++ (o.head ++ (arguments ++ [')']))) account) :
    AccountsFor text o.before ((o, .closed o.offset arguments) :: account) := by
  have hyields : o.Yields (.closed o.offset arguments) :=
    .closed (Opening.encloses_iff.2 ⟨rest, hfound⟩)
  have hfinish : Account.finish (o, .closed o.offset arguments)
      = utf8Size (o.before ++ (o.head ++ (arguments ++ [')']))) := by
    simp only [Account.finish, Opening.argumentsOffset, utf8Size_append]
    omega
  exact h.cons ho hyields hfinish (List.prefix_append _ _) fun p hp hbefore hne =>
    ho.prefix_or_covers hp hbefore hne (enclosed?_eq_some_iff.1 hfound).2

end AccountsFor

/-! ### The search -/

/-- A marker that is not closed is seen as that, and the search goes on behind
its parenthesis. -/
theorem sightingsFrom_of_unterminated {o : Opening} (ho : o.IsIn text)
    (h : enclosed? 0 false o.inside = none) (offset : Nat) :
    sightingsFrom offset (o.head ++ o.inside)
      = .unterminated offset :: sightingsFrom (offset + utf8Size o.head) o.inside := by
  have hsize : utf8Size (o.head ++ o.inside) - utf8Size o.inside = utf8Size o.head := by
    rw [utf8Size_append]
    omega
  rw [sightingsFrom_of_opening ho.opening?, h]
  simp only [hsize]

/-- A marker that is closed is seen with its arguments, and the search goes on
behind them. -/
theorem sightingsFrom_of_closed {o : Opening} (ho : o.IsIn text)
    (h : enclosed? 0 false o.inside = some (arguments, rest)) (offset : Nat) :
    sightingsFrom offset (o.head ++ o.inside)
      = .closed offset arguments
        :: sightingsFrom (offset + utf8Size (o.head ++ (arguments ++ [')']))) rest := by
  obtain ⟨hnested, hinside⟩ := enclosed?_eq_some_iff.1 h
  let a : Annotation := { gap := [], blanks := o.blanks, arguments }
  have ha : a.IsFound := ⟨rfl, ho.blanks, hnested.enclosable⟩
  have hbody : a.body = o.head ++ (arguments ++ [')']) := by
    simp [a, Annotation.body, Opening.head]
  have hstep := Annotation.sightingsFrom_body ha offset rest
  rw [hbody] at hstep
  rw [hinside, ← hstep]
  simp

/-- Wherever the search starts, it accounts for the markers from there
on. -/
theorem account_of_sightingsFrom (before s : List Char) :
    ∃ account, account.map Prod.snd = sightingsFrom (utf8Size before) s ∧
      AccountsFor (before ++ s) before account := by
  -- By induction on the length of what is left, since the search leaves out whole markers.
  induction hlength : s.length using Nat.strongRecOn generalizing before s with
  | ind length ih =>
      cases s with
      | nil =>
          refine ⟨[], by rw [sightingsFrom]; rfl, ?_⟩
          rw [List.append_nil]
          exact .nil before
      | cons c s =>
          cases hopening : opening? (c :: s) with
          | none =>
              obtain ⟨account, hmap, haccount⟩ :=
                ih s.length (by simp [← hlength]) (before ++ [c]) s rfl
              have hsize : utf8Size (before ++ [c]) = utf8Size before + c.utf8Size := by
                rw [utf8Size_append]
                simp [utf8Size]
              rw [List.append_assoc, List.singleton_append] at haccount
              refine ⟨account, ?_, haccount.of_no_opening hopening⟩
              rw [sightingsFrom_cons_of_none hopening, hmap, hsize]
          | some inside =>
              obtain ⟨blanks, hblanks, hs⟩ := opening?_eq_some_iff.1 hopening
              let o : Opening := { before, blanks, inside }
              have hhead : c :: s = o.head ++ o.inside := hs.trans (o.head_eq inside).symm
              have ho : o.IsIn (before ++ c :: s) := ⟨by rw [hhead], hblanks⟩
              have hlt : inside.length < length := hlength ▸ length_opening? hopening
              cases hfound : enclosed? 0 false o.inside with
              | none =>
                  obtain ⟨account, hmap, haccount⟩ :=
                    ih inside.length hlt (before ++ o.head) inside rfl
                  rw [List.append_assoc, ← hhead] at haccount
                  refine ⟨_, ?_, haccount.cons_unterminated ho hfound⟩
                  rw [List.map_cons, hmap, hhead, sightingsFrom_of_unterminated ho hfound,
                    utf8Size_append]
                  rfl
              | some pair =>
                  obtain ⟨arguments, rest⟩ := pair
                  obtain ⟨account, hmap, haccount⟩ :=
                    ih rest.length ((length_enclosed? hfound).trans hlt)
                      (before ++ (o.head ++ (arguments ++ [')']))) rest rfl
                  have htext : before ++ (o.head ++ (arguments ++ [')'])) ++ rest
                      = before ++ c :: s := by
                    simp [hhead, (enclosed?_eq_some_iff.1 hfound).2]
                  rw [htext] at haccount
                  refine ⟨_, ?_, haccount.cons_closed ho hfound⟩
                  rw [List.map_cons, hmap, hhead, sightingsFrom_of_closed ho hfound,
                    utf8Size_append]
                  rfl

/-! ### Whole texts -/

/-- The byte at which a marker that was seen starts. -/
def Sighting.offset : Sighting → Nat
  | closed offset _ => offset
  | unterminated offset => offset

/-- What is said of a marker has its byte. -/
theorem Opening.Yields.offset_eq {o : Opening} {found : Sighting} (h : o.Yields found) :
    found.offset = o.offset := by
  cases h <;> rfl

namespace AccountsFor

variable {before : List Char} {account : List Account} {a : Account} {o : Opening}

/-- The bytes that are told are those of the markers of the account, in the
same order. -/
theorem offsets_eq (h : AccountsFor text before account) :
    (account.map Prod.snd).map Sighting.offset = account.map fun a => a.1.offset := by
  rw [List.map_map]
  exact List.map_congr_left fun a ha => (h.yields a ha).offset_eq

/-- No marker is seen twice, because each starts behind the end of the one
before. -/
theorem nodup_offsets (h : AccountsFor text before account) :
    ((account.map Prod.snd).map Sighting.offset).Nodup := by
  rw [h.offsets_eq, List.nodup_iff_pairwise_ne, List.pairwise_map]
  refine h.ordered.imp fun {a b} hle heq => ?_
  have hstart := Account.offset_lt_argumentsOffset a.1
  have hfinish := a.argumentsOffset_le_finish
  omega

/-- A marker that is seen is not within the arguments of another one, neither
of an earlier one nor of a later one. -/
theorem not_covers (h : AccountsFor text before account) {b : Account} (ha : a ∈ account)
    (hb : b ∈ account) : ¬a.Covers b.1 := by
  have hapart : account.Pairwise Account.Apart := by
    refine h.ordered.imp fun {a b} hle => ⟨Account.not_covers_of_finish_le hle,
      Account.not_covers_of_offset_le ?_⟩
    have hstart := Account.offset_lt_argumentsOffset a.1
    have hfinish := a.argumentsOffset_le_finish
    omega
  have hself : ∀ a ∈ account, Account.Apart a a := fun a _ =>
    ⟨Account.not_covers_of_offset_le (Nat.le_refl _),
      Account.not_covers_of_offset_le (Nat.le_refl _)⟩
  exact (hapart.forall_of_forall hself ha hb).1

/-- What is said at the byte of a marker is what there is to say of it, since
no other marker has that byte. -/
theorem yields_of_offset (h : AccountsFor text before account) (ho : o.IsIn text)
    {found : Sighting} (hmem : found ∈ account.map Prod.snd) (hoffset : found.offset = o.offset) :
    (o, found) ∈ account := by
  obtain ⟨a, ha, rfl⟩ := List.mem_map.1 hmem
  have hsame : a.1 = o := by
    refine (h.isIn a ha).1.eq_of_offset ho ?_
    rw [← (h.yields a ha).offset_eq, hoffset]
  rwa [← hsame]

/-- A marker is seen unless it is within the arguments of another one that is
seen. One direction is that nothing is lost, the other that nothing within
arguments is seen. -/
theorem offset_mem_iff (h : AccountsFor text [] account) (ho : o.IsIn text) :
    o.offset ∈ (account.map Prod.snd).map Sighting.offset ↔ ∀ a ∈ account, ¬a.Covers o := by
  constructor
  · intro hmem a ha
    obtain ⟨found, hfound, hoffset⟩ := List.mem_map.1 hmem
    exact h.not_covers ha (h.yields_of_offset ho hfound hoffset)
  · intro hfree
    rcases h.complete o ho List.nil_prefix with ⟨found, hmem⟩ | ⟨a, ha, hcovers⟩
    · rw [← (h.yields _ hmem).offset_eq]
      exact List.mem_map_of_mem (List.mem_map_of_mem hmem)
    · exact absurd hcovers (hfree a ha)

/-- Of a marker that is seen, just what there is to say is said. -/
theorem yields_iff (h : AccountsFor text [] account) (ho : o.IsIn text)
    (hfree : ∀ a ∈ account, ¬a.Covers o) (found : Sighting) :
    found ∈ account.map Prod.snd ∧ found.offset = o.offset ↔ o.Yields found := by
  constructor
  · rintro ⟨hmem, hoffset⟩
    exact h.yields _ (h.yields_of_offset ho hmem hoffset)
  · intro hyields
    rcases h.complete o ho List.nil_prefix with ⟨found', hmem⟩ | ⟨a, ha, hcovers⟩
    · rw [hyields.unique (h.yields _ hmem)]
      exact ⟨List.mem_map_of_mem hmem, (h.yields _ hmem).offset_eq⟩
    · exact absurd hcovers (hfree a ha)

end AccountsFor

/-- The warnings of a text: those of the markers that are not closed, in
order of their bytes, and then those of the arguments. -/
theorem warnings_extract (text : List Char) :
    (extract (String.ofList text)).warnings
      = (unterminatedOffsets (sightings text)).map
          (fun offset => "Unterminated @Route annotation at byte " ++ toString offset)
        ++ (routesOf (closedArguments (sightings text))).warnings := by
  rw [extract_eq_of_sightings, Noted.warnings, Noted.notices_bind, List.filter_append,
    List.map_append]
  congr 1
  have hall : ∀ n ∈ (unterminatedOffsets (sightings text)).map Notice.unterminated,
      n.isWarning = true := by
    intro n hn
    obtain ⟨offset, -, rfl⟩ := List.mem_map.1 hn
    rfl
  rw [Noted.noteAll, List.filter_eq_self.2 hall, List.map_map]
  rfl

/-- The search accounts for every marker of a text, exactly once. What it
sees can be put beside the markers that it sees. Of each of them it says
what there is to say: that it is closed, with the arguments that are well
nested and followed by a closing parenthesis, or, if there are none, that
it is not. They follow each other without overlapping. A marker of the text
is seen exactly if it does not start within the arguments of a closed one.
The markers that are not closed are reported with their bytes, and the
arguments of the others are what routes are read from. -/
theorem sightings_account (text : List Char) :
    ∃ account : List Account,
      account.map Prod.snd = sightings text ∧
      (∀ a ∈ account, a.1.IsIn text ∧ a.1.Yields a.2) ∧
      account.Pairwise (fun a b => a.finish ≤ b.1.offset) ∧
      ((sightings text).map Sighting.offset).Nodup ∧
      (∀ o : Opening, o.IsIn text →
        (o.offset ∈ (sightings text).map Sighting.offset ↔ ∀ a ∈ account, ¬a.Covers o) ∧
        ((∀ a ∈ account, ¬a.Covers o) →
          (∀ arguments, .closed o.offset arguments ∈ sightings text ↔ o.Encloses arguments) ∧
          (.unterminated o.offset ∈ sightings text ↔ ∀ arguments, ¬o.Encloses arguments))) ∧
      (extract (String.ofList text)).value
        = (routesOf (closedArguments (sightings text))).value ∧
      (extract (String.ofList text)).warnings
        = (unterminatedOffsets (sightings text)).map
            (fun offset => "Unterminated @Route annotation at byte " ++ toString offset)
          ++ (routesOf (closedArguments (sightings text))).warnings := by
  obtain ⟨account, hmap, h⟩ := account_of_sightingsFrom [] text
  have hsightings : account.map Prod.snd = sightings text := hmap
  have hvalue := congrArg Noted.value (extract_eq_of_sightings text)
  have hwarnings := warnings_extract text
  rw [List.nil_append] at h
  rw [← hsightings] at hvalue hwarnings ⊢
  refine ⟨account, rfl, fun a ha => ⟨(h.isIn a ha).1, h.yields a ha⟩, h.ordered,
    h.nodup_offsets, fun o ho => ⟨h.offset_mem_iff ho, fun hfree => ⟨fun arguments => ?_, ?_⟩⟩,
    hvalue, hwarnings⟩
  · have hsaid := h.yields_iff ho hfree (.closed o.offset arguments)
    rwa [Opening.yields_closed_iff, Sighting.offset, and_iff_left rfl] at hsaid
  · have hsaid := h.yields_iff ho hfree (.unterminated o.offset)
    rwa [Opening.yields_unterminated_iff, Sighting.offset, and_iff_left rfl] at hsaid

end RouteDoc.Docblock
