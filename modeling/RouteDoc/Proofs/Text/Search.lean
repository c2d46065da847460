import Mathlib.Data.List.Basic
import Mathlib.Data.List.TakeWhile
import RouteDoc.Text.Blank
import RouteDoc.Text.Search

/-!
# `RouteDoc.Proofs.Text.Search`: where a text occurs in a text

* `startsWith_iff`, `occursIn_iff`: the two tests in terms of prefixes
  and parts.
* `splitOnce_append`: a text is cut at a separator that does not come
  before.
* `intercalate_induction`, `last_intercalate`: what joined texts have in
  common, and how they end.
* `not_mem_of_mem_splitOn`: the pieces of a text do not have the
  character at which it was cut.
* `trim_append_left`, `trim_append_right`, `unpadded_trim`: trimming takes
  the blanks at the ends away, and leaves none.
-/

set_option autoImplicit false

namespace RouteDoc.Text

variable {s t : List Char} {c : Char}

/-! ### Characters of a text -/

/-- What is said of every character of a text is decided on the text, not
by going through all characters. -/
instance decidableForallMem {p : Char → Prop} [DecidablePred p] (s : List Char) :
    Decidable (∀ c ∈ s, p c) :=
  List.decidableBAll p s

instance decidableForallMem? {p : Char → Prop} [DecidablePred p] (c? : Option Char) :
    Decidable (∀ c ∈ c?, p c) :=
  Option.decidableForallMem c?

/-! ### Prefixes and parts -/

/-- A text starts with a pattern if and only if the pattern is a prefix of it.
What the search leaves over is the rest of the text. -/
theorem startsWith_iff {pattern : List Char} : startsWith pattern s = true ↔ pattern <+: s := by
  rw [startsWith, Option.isSome_iff_exists]
  exact exists_congr fun rest => after?_eq_some_iff.trans eq_comm

/-- A pattern occurs in a text if and only if it is a part of it, because the
search looks at every place of the text in turn. -/
theorem occursIn_iff {pattern : List Char} : occursIn pattern s = true ↔ pattern <:+: s := by
  induction s with
  | nil => rw [occursIn, startsWith_iff, List.prefix_nil, List.infix_nil]
  | cons c s ih => rw [occursIn, Bool.or_eq_true, startsWith_iff, ih, List.infix_cons_iff]

/-! ### Cutting in two -/

/-- A text is cut at the first place where the separator stands: nothing
before that place has it, whatever stands behind. -/
theorem splitOnce_append {sep : Char} (h : sep ∉ s) (t : List Char) :
    splitOnce sep (s ++ sep :: t) = some (s, t) := by
  induction s with
  | nil => simp [splitOnce]
  | cons c s ih =>
      simp only [List.mem_cons, not_or] at h
      obtain ⟨hc, hs⟩ := h
      rw [List.cons_append, splitOnce, if_neg (Ne.symm hc), ih hs]
      rfl

/-- Without the separator there is nothing to cut. If there were two halves,
the text would be both of them with the separator in between. -/
theorem splitOnce_eq_none {sep : Char} (h : sep ∉ s) : splitOnce sep s = none := by
  cases hcut : splitOnce sep s with
  | none => rfl
  | some halves =>
      obtain ⟨-, hs⟩ := splitOnce_eq_some hcut
      rw [hs] at h
      simp at h

/-- A text is not cut if and only if it does not have the separator. A
separator that is there is there for a first time. -/
theorem splitOnce_eq_none_iff {sep : Char} : splitOnce sep s = none ↔ sep ∉ s := by
  constructor
  · intro h hmem
    obtain ⟨before, after, rfl, hbefore⟩ := List.eq_append_cons_of_mem hmem
    rw [splitOnce_append hbefore] at h
    cases h
  · exact splitOnce_eq_none

/-! ### Joined texts -/

/-- What the separator and the texts have, and texts keep when they are
put together, the joined text has. -/
theorem intercalate_induction {P : List Char → Prop} {separator : List Char}
    {texts : List (List Char)} (nil : P [])
    (append : ∀ {s t : List Char}, P s → P t → P (s ++ t)) (hseparator : P separator)
    (h : ∀ s ∈ texts, P s) : P (separator.intercalate texts) := by
  match texts with
  | [] => exact nil
  | [s] => simpa using h s
  | s :: t :: texts =>
      rw [List.intercalate_cons_cons]
      exact append (append (h s (by simp)) hseparator)
        (intercalate_induction nil append hseparator fun u hu => h u (List.mem_cons_of_mem _ hu))

/-- What holds of all characters of some texts and of their separator holds of
all characters of the joined text. It has no others. -/
theorem forall_mem_intercalate {p : Char → Prop} {separator : List Char}
    {texts : List (List Char)} (hseparator : ∀ c ∈ separator, p c)
    (h : ∀ s ∈ texts, ∀ c ∈ s, p c) : ∀ c ∈ separator.intercalate texts, p c :=
  intercalate_induction (P := fun s => ∀ c ∈ s, p c) (by simp)
    (fun hs ht c hc => (List.mem_append.1 hc).elim (hs c) (ht c)) hseparator h

/-- Every one of several texts is a part of the joined text. Only the
separators and the other texts are put around it. -/
theorem infix_intercalate {separator s : List Char} {texts : List (List Char)} (h : s ∈ texts) :
    s <:+: separator.intercalate texts := by
  match texts, h with
  | [t], h =>
      have hst : s = t := List.mem_singleton.1 h
      rw [List.intercalate_singleton]
      exact hst ▸ List.infix_refl s
  | t :: u :: texts, h =>
      rw [List.intercalate_cons_cons]
      rcases List.mem_cons.1 h with rfl | h
      · exact (List.append_assoc s _ _ ▸ List.prefix_append s _).isInfix
      · exact (infix_intercalate h).trans (List.suffix_append _ _).isInfix

/-- The joined text starts with the first of the texts, since a separator only
stands before the later ones. -/
theorem prefix_intercalate (separator s : List Char) (texts : List (List Char)) :
    s <+: separator.intercalate (s :: texts) := by
  cases texts with
  | nil => simp
  | cons t texts =>
      rw [List.intercalate_cons_cons, List.append_assoc]
      exact List.prefix_append _ _

/-- The joined text ends in the way that each of the texts ends. None of them
may be empty, or a separator could be what comes last. -/
theorem last_intercalate {p : Char → Prop} {separator : List Char} {texts : List (List Char)}
    (h : ∀ s ∈ texts, s ≠ [] ∧ ∀ c ∈ s.getLast?, p c) :
    ∀ c ∈ (separator.intercalate texts).getLast?, p c := by
  match texts with
  | [] => simp
  | [s] => simpa using (h s (by simp)).2
  | s :: t :: texts =>
      have hrest : ∀ c ∈ (separator.intercalate (t :: texts)).getLast?, p c :=
        last_intercalate fun u hu => h u (List.mem_cons_of_mem _ hu)
      have hne : separator.intercalate (t :: texts) ≠ [] := by
        intro hnil
        have hfront := prefix_intercalate separator t texts
        rw [hnil, List.prefix_nil] at hfront
        exact (h t (by simp)).1 hfront
      rw [List.intercalate_cons_cons, List.getLast?_append_of_ne_nil _ hne]
      exact hrest

/-- The pieces of a text that is cut at a character do not have it. The cut is
made at every place where it stands. -/
theorem not_mem_of_mem_splitOn {piece : List Char} (h : piece ∈ s.splitOn c) : c ∉ piece := by
  rw [List.splitOn] at h
  induction s generalizing piece with
  | nil =>
      rw [List.splitOnP_nil, List.mem_singleton] at h
      simp [h]
  | cons d s ih =>
      rw [List.splitOnP_cons_eq_if_modifyHead] at h
      split at h
      · rcases List.mem_cons.1 h with rfl | h
        · exact List.not_mem_nil
        · exact ih h
      · next hd =>
        obtain ⟨first, rest, hcut⟩ := List.exists_cons_of_ne_nil (List.splitOnP_ne_nil (· == c) s)
        rw [hcut, List.modifyHead_cons] at h
        rw [hcut] at ih
        rcases List.mem_cons.1 h with rfl | h
        · have hdc : c ≠ d := fun heq => hd (by simp [heq])
          rw [List.mem_cons, not_or]
          exact ⟨hdc, ih List.mem_cons_self⟩
        · exact ih (List.mem_cons_of_mem _ h)

/-! ### Blanks at the ends -/

/-- Trimming only takes characters away, at the end and then at the start, so
the characters that are left were there before. -/
theorem mem_of_mem_trim {d : Char} (h : d ∈ trim s) : d ∈ s := by
  have hstart : d ∈ trimStart s := by
    rw [trim, trimEnd, dropEndWhile, List.mem_reverse] at h
    exact List.mem_reverse.1 ((List.dropWhile_suffix _).subset h)
  exact (List.dropWhile_suffix _).subset hstart

/-- Trimming leaves nothing of a text if and only if the text has only blanks.
A first character that is no blank would stay. -/
theorem trim_eq_nil_iff : trim s = [] ↔ ∀ c ∈ s, isBlank c = true := by
  rw [trim, trimEnd, dropEndWhile, List.reverse_eq_nil_iff, List.dropWhile_eq_nil_iff]
  simp only [List.mem_reverse, trimStart]
  constructor
  · intro h
    -- Something that is not blank would stand first in what is left.
    have hstart : s.dropWhile isBlank = [] := by
      by_contra hne
      have hfirst := List.head_dropWhile_not isBlank hne
      rw [h _ (List.head_mem hne)] at hfirst
      cases hfirst
    exact List.dropWhile_eq_nil_iff.1 hstart
  · intro h c hc
    exact h c ((List.dropWhile_suffix _).subset hc)

/-- Blanks in front of a text are trimmed away, and so make no difference to
what is trimmed behind them. -/
theorem trim_append_left {blanks : List Char} (h : ∀ c ∈ blanks, isBlank c = true)
    (s : List Char) : trim (blanks ++ s) = trim s := by
  rw [trim, trimStart, List.dropWhile_append_of_pos h]
  rfl

/-- Blanks behind a text are trimmed away. This holds also if the text has
only blanks itself, and all of them go at once. -/
theorem trim_append_right {blanks : List Char} (h : ∀ c ∈ blanks, isBlank c = true)
    (s : List Char) : trim (s ++ blanks) = trim s := by
  have hend : ∀ t, trimEnd (t ++ blanks) = trimEnd t := by
    intro t
    rw [trimEnd, dropEndWhile, List.reverse_append,
      List.dropWhile_append_of_pos fun c hc => h c (List.mem_reverse.1 hc)]
    rfl
  rw [trim, trim, trimStart, trimStart, List.dropWhile_append]
  split
  · next hempty =>
    -- The text has nothing but blanks, and the rest is trimmed at the start.
    rw [List.isEmpty_iff.1 hempty, List.dropWhile_eq_nil_iff.2 h]
  · exact hend _

/-- The text neither starts nor ends with a blank. -/
def Unpadded (s : List Char) : Prop :=
  (∀ c ∈ s.head?, isBlank c = false) ∧ ∀ c ∈ s.getLast?, isBlank c = false

instance (s : List Char) : Decidable (Unpadded s) := inferInstanceAs (Decidable (_ ∧ _))

/-- What trimming leaves neither starts nor ends with a blank. The end is
trimmed last, but that cannot bring a blank to the start. -/
theorem unpadded_trim (s : List Char) : Unpadded (trim s) := by
  have drop : ∀ t : List Char, ∀ c ∈ (t.dropWhile isBlank).head?, isBlank c = false := by
    intro t c hc
    have := List.head?_dropWhile_not isBlank t
    rwa [Option.mem_def.1 hc] at this
  rw [trim, trimEnd, dropEndWhile]
  constructor
  · intro c hc
    -- What is left at the end was trimmed at the start before.
    have hfront : ((trimStart s).reverse.dropWhile isBlank).reverse <+: trimStart s := by
      rw [← List.reverse_suffix, List.reverse_reverse]
      exact List.dropWhile_suffix isBlank
    obtain ⟨rest, hrest⟩ := hfront
    refine drop s c ?_
    show c ∈ (trimStart s).head?
    rw [← hrest, List.head?_append]
    exact Option.mem_def.2 (by rw [Option.mem_def.1 hc]; rfl)
  · intro c hc
    rw [List.getLast?_reverse] at hc
    exact drop _ c hc

/-- A text without padding is left as it is by trimming. -/
theorem Unpadded.trim_eq (h : Unpadded s) : trim s = s := trim_eq_self h.1 h.2

/-- A text between two characters that are not blank has no padding, whatever
it starts and ends with itself. -/
theorem unpadded_between {first last : Char} (hfirst : isBlank first = false)
    (hlast : isBlank last = false) (s : List Char) : Unpadded (first :: (s ++ [last])) := by
  rw [Unpadded, ← List.cons_append, List.getLast?_concat]
  exact ⟨by simpa using hfirst, by simpa using hlast⟩

/-! ### Quotes and braces -/

/-- A text in double quotes. -/
def quoted (s : List Char) : List Char := '"' :: (s ++ ['"'])

/-- A text in braces. -/
def braced (s : List Char) : List Char := '{' :: (s ++ ['}'])

/-- A text in braces has no padding, since a brace is no blank. -/
theorem unpadded_braced (s : List Char) : Unpadded (braced s) :=
  unpadded_between (by decide) (by decide) s

/-- The characters of a text in double quotes are its own and the quote. -/
theorem mem_quoted {c : Char} (h : c ∈ quoted s) : c = '"' ∨ c ∈ s := by
  simpa [quoted, or_comm, or_assoc] using h

end RouteDoc.Text
