import Mathlib.Data.List.Infix
import RouteDoc.Docblock.Url
import RouteDoc.Proofs.Text.Search

/-!
# `RouteDoc.Proofs.Docblock.Url`: what a composed URL is like

A URL is composed in one of three ways, and runs of slashes are collapsed
afterwards. Collapsing makes two of the three the same: where a slash meets
a slash, it does not matter whether one of them was left out before. So a
composed URL is the collapsed form of the relative URL, if that repeats the
base, and of the two parts side by side otherwise (`composeUrl_eq`).

The parts of a URL between its slashes are its segments. Collapsing keeps
them, and so does putting two texts side by side as long as a slash stands
where they meet.

* `not_infix_collapseSlashes`: no two slashes are left side by side.
* `segments_collapseSlashes`, `segments_append`: what happens to the
  segments.
* `stem_prefix_composeUrl`: a composed URL starts with its base.
* `segments_and_stability_of_composeUrl`: all of it together.
-/

set_option autoImplicit false

namespace RouteDoc.Docblock

open RouteDoc.Text

variable {s t base relative : List Char} {c : Char}

/-! ### Collapsed texts -/

/-- Collapsing slashes keeps the first character. If it is a slash before
another one, that one is left to stand first. -/
theorem head?_collapseSlashes (s : List Char) : (collapseSlashes s).head? = s.head? := by
  induction s with
  | nil => rfl
  | cons c s ih =>
      rw [collapseSlashes]
      split
      · next h => rw [ih, h.2, h.1, List.head?_cons]
      · rfl

/-- Collapsing slashes only takes characters away. -/
theorem collapseSlashes_sublist (s : List Char) : (collapseSlashes s).Sublist s := by
  induction s with
  | nil => exact List.Sublist.slnil
  | cons c s ih =>
      rw [collapseSlashes]
      split
      · exact ih.cons c
      · exact ih.cons_cons c

/-- No two slashes are left side by side: in front of what has been collapsed,
a slash is kept only if none stands first there. -/
theorem not_infix_collapseSlashes (s : List Char) : ¬['/', '/'] <:+: collapseSlashes s := by
  induction s with
  | nil => simp [collapseSlashes]
  | cons c s ih =>
      rw [collapseSlashes]
      split
      · exact ih
      · next h =>
        rw [List.infix_cons_iff, not_or]
        refine ⟨fun hfront => h ?_, ih⟩
        -- What follows `c` starts as it did before it was collapsed.
        obtain ⟨rfl, hnext⟩ := List.cons_prefix_cons.1 hfront
        rw [← head?_collapseSlashes]
        exact ⟨rfl, List.singleton_prefix_iff_head?_eq_some.1 hnext⟩

/-- The test for slashes side by side finds none where there are none. -/
theorem hasDoubleSlash_eq_false (h : ¬['/', '/'] <:+: s) : hasDoubleSlash s = false := by
  induction s with
  | nil => rfl
  | cons c s ih =>
      rw [List.infix_cons_iff, not_or] at h
      have hs : hasDoubleSlash s = false := ih h.2
      rw [hasDoubleSlash.eq_2, hs]
      intro rest hc hrest
      exact h.1 ⟨rest, by rw [hc, hrest]; rfl⟩

/-- Collapsing once more changes nothing. -/
theorem collapseSlashes_collapseSlashes (s : List Char) :
    collapseSlashes (collapseSlashes s) = collapseSlashes s :=
  collapseSlashes_eq_self (hasDoubleSlash_eq_false (not_infix_collapseSlashes s))

/-- What stands last may be collapsed before or not. Only its first character
matters to what stands before it, and that is kept. -/
theorem collapseSlashes_append_collapseSlashes (s t : List Char) :
    collapseSlashes (s ++ collapseSlashes t) = collapseSlashes (s ++ t) := by
  induction s with
  | nil => exact collapseSlashes_collapseSlashes t
  | cons c s ih =>
      have hhead : (s ++ collapseSlashes t).head? = (s ++ t).head? := by
        rw [List.head?_append, List.head?_append, head?_collapseSlashes]
      rw [List.cons_append, List.cons_append, collapseSlashes, collapseSlashes, hhead, ih]

/-- A text that neither has two slashes side by side nor ends in a slash
stays as it is, whatever follows. -/
theorem collapseSlashes_append (hs : ¬['/', '/'] <:+: s) (hlast : s.getLast? ≠ some '/')
    (t : List Char) : collapseSlashes (s ++ t) = s ++ collapseSlashes t := by
  induction s with
  | nil => rfl
  | cons c s ih =>
      rw [List.infix_cons_iff, not_or] at hs
      have hnot : ¬(c = '/' ∧ (s ++ t).head? = some '/') := by
        rintro ⟨rfl, hnext⟩
        cases s with
        | nil => exact hlast rfl
        | cons d s => exact hs.1 (by simpa [List.cons_prefix_cons] using hnext.symm)
      have hrest : s.getLast? ≠ some '/' := by
        intro hmem
        rw [List.getLast?_cons, hmem] at hlast
        exact hlast rfl
      rw [List.cons_append, collapseSlashes, if_neg hnot, ih hs.2 hrest, List.cons_append]

/-! ### Segments -/

/-- The parts of a URL between its slashes, less those that are empty. -/
def segments (url : List Char) : List (List Char) := (url.splitOn '/').filter (!·.isEmpty)

/-- The empty path has no segments. -/
theorem segments_nil : segments [] = [] := by
  rw [segments, List.splitOn_nil]
  rfl

/-- A slash ends one segment and starts another, so both sides of it have
their segments by themselves. -/
theorem segments_append_slash (s t : List Char) :
    segments (s ++ '/' :: t) = segments s ++ segments t := by
  rw [segments, List.splitOn, List.splitOnP_append_cons _ _ (by simp), List.filter_append]
  rfl

/-- A slash that comes first ends an empty segment, which does not count. -/
theorem segments_slash_cons (t : List Char) : segments ('/' :: t) = segments t := by
  have h := segments_append_slash [] t
  rwa [segments_nil] at h

/-- The segments of two texts side by side, if a slash stands where they
meet. -/
theorem segments_append
    (h : s = [] ∨ s.getLast? = some '/' ∨ t = [] ∨ t.head? = some '/') :
    segments (s ++ t) = segments s ++ segments t := by
  rcases h with rfl | hlast | rfl | hhead
  · rw [segments_nil, List.nil_append, List.nil_append]
  · obtain ⟨s, rfl⟩ := List.getLast?_eq_some_iff.1 hlast
    rw [List.append_assoc, List.singleton_append, segments_append_slash, segments_append_slash,
      segments_nil, List.append_nil]
  · rw [segments_nil, List.append_nil, List.append_nil]
  · obtain ⟨t, rfl⟩ := List.head?_eq_some_iff.1 hhead
    rw [segments_append_slash, segments_slash_cons]

/-- Collapsing keeps the segments, since all that it takes away are empty
ones. -/
theorem segments_collapseSlashes (s : List Char) : segments (collapseSlashes s) = segments s := by
  -- The segment that a character belongs to may have begun before it.
  suffices h : ∀ front, segments (front ++ collapseSlashes s) = segments (front ++ s) by
    exact h []
  induction s with
  | nil => intro front; rfl
  | cons c s ih =>
      intro front
      rw [collapseSlashes]
      split
      · next h =>
        obtain ⟨rest, rfl⟩ := List.head?_eq_some_iff.1 h.2
        rw [ih, h.1, segments_append_slash, segments_append_slash, segments_slash_cons]
      · have hrest := ih (front ++ [c])
        rwa [List.append_assoc, List.append_assoc] at hrest

/-! ### Composed URLs -/

/-- A base URL without the slashes at its end. -/
def stem (base : List Char) : List Char := dropEndWhile (· = '/') base

/-- A relative URL is taken as a whole one. -/
def Repeats (base relative : List Char) : Prop := stem base ≠ [] ∧ stem base ++ ['/'] <+: relative

instance (base relative : List Char) : Decidable (Repeats base relative) :=
  inferInstanceAs (Decidable (_ ∧ _))

/-- A composed URL is the collapsed form of the relative URL alone, if that
repeats the base, and else of both. -/
theorem composeUrl_eq (base relative : List Char) :
    composeUrl base relative
      = collapseSlashes (if Repeats base relative then relative else base ++ relative) := by
  have hrepeats : (!(stem base).isEmpty && startsWith (stem base ++ ['/']) relative) = true
      ↔ Repeats base relative := by
    rw [Bool.and_eq_true, startsWith_iff, Repeats, Bool.not_eq_true', List.isEmpty_eq_false_iff]
  show collapseSlashes (if !(stem base).isEmpty && startsWith (stem base ++ ['/']) relative
      then relative
    else if base.getLast? = some '/' && relative.head? = some '/' then base ++ relative.tail
    else base ++ relative) = _
  by_cases h : Repeats base relative
  · rw [if_pos (hrepeats.2 h), if_pos h]
  · rw [if_neg (fun hstarts => h (hrepeats.1 hstarts)), if_neg h]
    split
    · next hmeet =>
      -- A slash meets a slash, and one of them is left out before collapsing.
      rw [Bool.and_eq_true, decide_eq_true_eq, decide_eq_true_eq] at hmeet
      obtain ⟨front, rfl⟩ := List.getLast?_eq_some_iff.1 hmeet.1
      obtain ⟨rest, rfl⟩ := List.head?_eq_some_iff.1 hmeet.2
      rw [List.tail_cons, List.append_assoc, List.append_assoc, List.singleton_append,
        List.singleton_append, ← collapseSlashes_append_collapseSlashes front ('/' :: '/' :: rest),
        collapseSlashes_cons_cons, collapseSlashes_append_collapseSlashes]
    · rfl

/-- Composing brings no characters into a URL that neither part has. -/
theorem mem_of_mem_composeUrl (h : c ∈ composeUrl base relative) : c ∈ base ∨ c ∈ relative := by
  rw [composeUrl_eq] at h
  have hmem := (collapseSlashes_sublist _).subset h
  split at hmem
  · exact Or.inr hmem
  · exact List.mem_append.1 hmem

/-- Where a slash stands between the two parts, a composed URL has the
segments of the relative URL, behind those of the base unless the relative
URL repeats it. -/
theorem segments_composeUrl
    (h : base = [] ∨ base.getLast? = some '/' ∨ relative = [] ∨ relative.head? = some '/') :
    segments (composeUrl base relative)
      = if Repeats base relative then segments relative
        else segments base ++ segments relative := by
  rw [composeUrl_eq, segments_collapseSlashes]
  split
  · rfl
  · exact segments_append h

/-- All that a base URL has behind its stem are slashes. -/
theorem exists_eq_stem_append (base : List Char) :
    ∃ n, base = stem base ++ List.replicate n '/' := by
  have hsplit := List.takeWhile_append_dropWhile (p := fun c : Char => decide (c = '/'))
    (l := base.reverse)
  have hslashes : base.reverse.takeWhile (fun c => decide (c = '/'))
      = List.replicate (base.reverse.takeWhile fun c => decide (c = '/')).length '/' :=
    List.eq_replicate_of_mem fun c hc =>
      of_decide_eq_true (List.mem_takeWhile_imp (p := fun c : Char => decide (c = '/')) hc)
  refine ⟨(base.reverse.takeWhile fun c => decide (c = '/')).length, ?_⟩
  rw [← List.reverse_replicate, ← hslashes, stem, dropEndWhile, ← List.reverse_append, hsplit,
    List.reverse_reverse]

/-- The stem of a base URL does not end in a slash, because all of them have
been taken away there. -/
theorem getLast?_stem (base : List Char) : (stem base).getLast? ≠ some '/' := by
  rw [stem, dropEndWhile, List.getLast?_reverse]
  intro h
  have hnot := List.head?_dropWhile_not (fun c => decide (c = '/')) base.reverse
  rw [h] at hnot
  exact absurd hnot (by decide)

/-- A base URL without two slashes side by side is its stem, or ends in the
one slash behind it. -/
theorem eq_stem_or (h : ¬['/', '/'] <:+: base) : base = stem base ∨ base = stem base ++ ['/'] := by
  obtain ⟨n, hn⟩ := exists_eq_stem_append base
  match n with
  | 0 => exact Or.inl (by simpa using hn)
  | 1 => exact Or.inr hn
  | n + 2 =>
      refine absurd ⟨stem base, List.replicate n '/', ?_⟩ h
      rw [List.append_assoc]
      exact hn.symm

/-- Behind a base URL without two slashes side by side, a URL that starts
with a slash is composed to one that starts with the base and a slash. -/
theorem stem_prefix_composeUrl (hbase : ¬['/', '/'] <:+: base)
    (hrelative : relative.head? = some '/') : stem base ++ ['/'] <+: composeUrl base relative := by
  have hstem : ¬['/', '/'] <:+: stem base := by
    obtain ⟨n, hn⟩ := exists_eq_stem_append base
    rw [hn] at hbase
    exact fun h => hbase (h.trans (List.prefix_append _ _).isInfix)
  -- Whichever way the URL is composed, the stem and a slash stand first.
  obtain ⟨rest, hrest⟩ : ∃ rest, (if Repeats base relative then relative else base ++ relative)
      = stem base ++ '/' :: rest := by
    split
    · next h =>
      obtain ⟨rest, hrest⟩ := h.2
      exact ⟨rest, by rw [← hrest, List.append_assoc, List.singleton_append]⟩
    · obtain ⟨rest, rfl⟩ := List.head?_eq_some_iff.1 hrelative
      rcases eq_stem_or hbase with hbase | hbase
      · exact ⟨rest, congrArg (· ++ '/' :: rest) hbase⟩
      · refine ⟨'/' :: rest, (congrArg (· ++ '/' :: rest) hbase).trans ?_⟩
        rw [List.append_assoc, List.singleton_append]
  have hhead : (collapseSlashes ('/' :: rest)).head? = some '/' := head?_collapseSlashes _
  obtain ⟨rest', hrest'⟩ := List.head?_eq_some_iff.1 hhead
  rw [composeUrl_eq, hrest, collapseSlashes_append hstem (getLast?_stem base), hrest']
  exact ⟨rest', by rw [List.append_assoc, List.singleton_append]⟩

/-- Composing once more changes nothing: what has been composed starts with
the base, so it is taken as it is, and it is collapsed already. -/
theorem composeUrl_composeUrl (hbase : ¬['/', '/'] <:+: base)
    (hrelative : relative.head? = some '/') :
    composeUrl base (composeUrl base relative) = composeUrl base relative := by
  have hprefix := stem_prefix_composeUrl hbase hrelative
  have hcollapsed : collapseSlashes (composeUrl base relative) = composeUrl base relative :=
    collapseSlashes_collapseSlashes _
  generalize composeUrl base relative = url at hprefix hcollapsed ⊢
  rw [composeUrl_eq]
  split
  · exact hcollapsed
  · next hnot =>
    -- The base is nothing but a slash at most, and the URL starts with one.
    have hstem : stem base = [] := by
      by_contra hne
      exact hnot ⟨hne, hprefix⟩
    rw [hstem] at hprefix
    obtain ⟨rest, rfl⟩ := hprefix
    rcases eq_stem_or hbase with hempty | hslash
    · rw [hempty, hstem]
      exact hcollapsed
    · rw [hslash, hstem]
      show collapseSlashes ('/' :: '/' :: rest) = '/' :: rest
      rw [collapseSlashes_cons_cons]
      exact hcollapsed

/-- What a composed URL is like: it has no two slashes side by side. If a
slash stands between its two parts, it has their segments, or those of the
relative URL alone if that repeats the base. If the base is collapsed and
the relative URL starts with a slash, it starts with the base, and composing
it once more changes nothing. -/
theorem segments_and_stability_of_composeUrl (base relative : List Char) :
    ¬['/', '/'] <:+: composeUrl base relative ∧
    (base = [] ∨ base.getLast? = some '/' ∨ relative = [] ∨ relative.head? = some '/' →
      segments (composeUrl base relative)
        = if stem base ≠ [] ∧ stem base ++ ['/'] <+: relative then segments relative
          else segments base ++ segments relative) ∧
    (¬['/', '/'] <:+: base → relative.head? = some '/' →
      composeUrl base (composeUrl base relative) = composeUrl base relative ∧
      stem base ++ ['/'] <+: composeUrl base relative) := by
  refine ⟨?_, segments_composeUrl, fun hbase hrelative => ?_⟩
  · rw [composeUrl_eq]
    exact not_infix_collapseSlashes _
  · exact ⟨composeUrl_composeUrl hbase hrelative, stem_prefix_composeUrl hbase hrelative⟩

/-- A relative URL that starts like the base, but with two slashes, does not
repeat it. So the segments of the base come twice, and stay so. -/
theorem segments_and_stability_of_doubledSlash :
    let base := "/api/".toList
    let relative := "//api//v1".toList
    composeUrl base relative = "/api/api/v1".toList ∧
    segments (composeUrl base relative) = segments base ++ segments relative ∧
    composeUrl base (composeUrl base relative) = composeUrl base relative ∧
    stem base ++ ['/'] <+: composeUrl base relative := by
  intro base relative
  obtain ⟨-, hsegments, hstable⟩ := segments_and_stability_of_composeUrl base relative
  have hbase : ¬['/', '/'] <:+: base := by decide
  have hrelative : relative.head? = some '/' := by decide
  refine ⟨by decide, ?_, hstable hbase hrelative⟩
  rw [hsegments (Or.inr (Or.inr (Or.inr hrelative))), if_neg (by decide)]

end RouteDoc.Docblock
