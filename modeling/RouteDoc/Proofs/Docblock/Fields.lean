import Mathlib.Data.List.Infix
import Mathlib.Logic.Function.Iterate
import RouteDoc.Docblock.Arguments
import RouteDoc.Proofs.Text.Search

/-!
# `RouteDoc.Proofs.Docblock.Fields`: which texts are one field

An argument list is cut at the separators that stand outside braces, and
the count of the open braces runs on from one field to the next. So a
text stays in one piece if it is `Unseparated`, and it leaves the fields
behind it alone if it is `Balanced` as well.

The open braces of a text are counted in two ways here. `braceDepth` is
their number. `braceCount` is what the cut makes of it, with 32 bits. The
two agree while no more than `maxDepth` braces are open, so a statement
that speaks of the number asks for `OpensAtMost maxDepth` as well.
`UnseparatedFrom` and `ApartFrom` speak of the count and need no bound.

* `Balanced.append`, `UnseparatedFrom.append`: both are kept when texts
  are put together.
* `splitFieldsFrom_append`: a text without a separator of its own goes
  into one field.
* `splitFieldsFrom_intercalate_iff`: which fields are found again when they
  are joined, whatever their braces.
* `splitFields_intercalate`: balanced fields without a separator are.
* `splitFields_inverse_intercalate`: cutting and joining are inverse.
* `splitFields_nestedSeparator`: with one brace more, the count wraps around
  and a field is cut in two.
-/

set_option autoImplicit false

namespace RouteDoc.Docblock

variable {s t : List Char} {c : Char} {depth : Int32} {m n : Int}

/-! ### Braces -/

/-- The braces that a text opens less those that it closes. -/
def braceDepth (text : List Char) : Int := text.count '{' - text.count '}'

/-- The empty text opens nothing. -/
@[simp] theorem braceDepth_nil : braceDepth [] = 0 := rfl

/-- The number runs on from one text to the next, since each brace counts
by itself. -/
@[simp] theorem braceDepth_append (s t : List Char) :
    braceDepth (s ++ t) = braceDepth s + braceDepth t := by
  simp only [braceDepth, List.count_append]
  omega

/-- The number behind a first character is that of the character and that of
the rest. -/
theorem braceDepth_cons (c : Char) (s : List Char) :
    braceDepth (c :: s) = braceDepth [c] + braceDepth s :=
  braceDepth_append [c] s

/-- A text without braces opens and closes none. -/
theorem braceDepth_of_not_mem (hopen : '{' ∉ s) (hclose : '}' ∉ s) : braceDepth s = 0 := by
  rw [braceDepth, List.count_eq_zero_of_not_mem hopen, List.count_eq_zero_of_not_mem hclose]
  rfl

/-- Only the two braces change the number. The cases are those that the
cut goes through for every character. -/
theorem braceDepth_singleton (c : Char) :
    braceDepth [c] = if c = '{' then 1 else if c = '}' then -1 else 0 := by
  split
  · next h =>
    subst h
    rfl
  · next hopen =>
    split
    · next h =>
      subst h
      rfl
    · next hclose =>
      exact braceDepth_of_not_mem (by simpa using Ne.symm hopen) (by simpa using Ne.symm hclose)

/-- No prefix of the text closes more braces than it opens, and at the
end all of them are closed. -/
def Balanced (text : List Char) : Prop :=
  braceDepth text = 0 ∧ ∀ front ∈ text.inits, 0 ≤ braceDepth front

instance (text : List Char) : Decidable (Balanced text) :=
  inferInstanceAs (Decidable (_ ∧ _))

/-- At no point in the text are more than `n` braces open. -/
def OpensAtMost (n : Int) (text : List Char) : Prop :=
  ∀ front ∈ text.inits, braceDepth front ≤ n

instance (n : Int) (text : List Char) : Decidable (OpensAtMost n text) :=
  inferInstanceAs (Decidable (∀ front ∈ text.inits, _))

namespace Balanced

/-- A text without braces is balanced: the number is 0 at every point of it. -/
theorem of_not_mem (hopen : '{' ∉ s) (hclose : '}' ∉ s) : Balanced s := by
  refine ⟨braceDepth_of_not_mem hopen hclose, fun front hfront => ?_⟩
  have hsubset := ((List.mem_inits _ _).1 hfront).subset
  have hfront : braceDepth front = 0 :=
    braceDepth_of_not_mem (fun h => hopen (hsubset h)) (fun h => hclose (hsubset h))
  exact Int.le_of_eq hfront.symm

/-- Two balanced texts are balanced together, because the second starts
from 0 again. -/
theorem append (hs : Balanced s) (ht : Balanced t) : Balanced (s ++ t) := by
  refine ⟨by simp [hs.1, ht.1], fun front hfront => ?_⟩
  -- A prefix ends in the first text, or takes in all of it.
  rw [List.inits_append] at hfront
  rcases List.mem_append.1 hfront with h | h
  · exact hs.2 front h
  · obtain ⟨u, hu, rfl⟩ := List.mem_map.1 h
    have := ht.2 u (List.mem_of_mem_tail hu)
    simpa [hs.1] using this

/-- Quotes are no braces, so a balanced text stays balanced in them. -/
theorem quoted (h : Balanced s) : Balanced (Text.quoted s) := by
  have hquote : Balanced ['"'] := by decide
  exact hquote.append (h.append hquote)

/-- Around a balanced text, a pair of braces is balanced: the number is at
least 1 at every point inside. -/
theorem braced (h : Balanced s) : Balanced (Text.braced s) := by
  have hopen : braceDepth ['{'] = 1 := rfl
  have hclose : braceDepth ['}'] = -1 := rfl
  rw [Text.braced]
  constructor
  · rw [braceDepth_cons, braceDepth_append, hopen, hclose, h.1]
    rfl
  · intro front hfront
    rw [List.inits_cons] at hfront
    rcases List.mem_cons.1 hfront with rfl | hmem
    · exact Int.le_refl 0
    · obtain ⟨inside, hinside, rfl⟩ := List.mem_map.1 hmem
      rw [braceDepth_cons, hopen]
      rw [List.inits_append] at hinside
      rcases List.mem_append.1 hinside with hmem | hmem
      · have := h.2 inside hmem
        omega
      · -- Only the last brace is left, and it closes the first one.
        have hlast : inside = s ++ ['}'] := by simpa using hmem
        rw [hlast, braceDepth_append, hclose, h.1]
        omega

end Balanced

namespace OpensAtMost

/-- What two texts open at most, they open at most together, if the first
one leaves no brace open. -/
theorem append (hs : OpensAtMost n s) (hclosed : braceDepth s = 0) (ht : OpensAtMost n t) :
    OpensAtMost n (s ++ t) := by
  intro front hfront
  rw [List.inits_append] at hfront
  rcases List.mem_append.1 hfront with h | h
  · exact hs front h
  · obtain ⟨u, hu, rfl⟩ := List.mem_map.1 h
    have := ht u (List.mem_of_mem_tail hu)
    simpa [hclosed] using this

/-- A text that opens no brace opens at most `n`. Braces that it closes only
make the number smaller. -/
theorem of_not_mem (hn : 0 ≤ n) (hopen : '{' ∉ s) : OpensAtMost n s := by
  intro front hfront
  have hsubset := ((List.mem_inits _ _).1 hfront).subset
  rw [braceDepth, List.count_eq_zero_of_not_mem fun h => hopen (hsubset h)]
  omega

/-- Quotes around a balanced text open nothing. Balance is asked for only
because the second quote stands behind the text. -/
theorem quoted (h : OpensAtMost n s) (hbalanced : Balanced s) : OpensAtMost n (Text.quoted s) := by
  -- The empty prefix tells that `n` is not negative.
  have hn : 0 ≤ n := h [] (by simp)
  have hquote : OpensAtMost n ['"'] := of_not_mem hn (by decide)
  exact hquote.append rfl (h.append hbalanced.1 hquote)

end OpensAtMost

/-- The text is balanced and has at most `n` braces open at once. -/
def IsNested (n : Int) (s : List Char) : Prop := Balanced s ∧ OpensAtMost n s

instance (n : Int) (s : List Char) : Decidable (IsNested n s) :=
  inferInstanceAs (Decidable (_ ∧ _))

/-! ### The count -/

/-- The most braces that can be open before the count wraps around. -/
def maxDepth : Int := 0x7FFFFFFF

/-- The braces that a text opens less those that it closes, counted with
32 bits. -/
def braceCount (text : List Char) : Int32 := Int32.ofInt (braceDepth text)

/-- The empty text leaves the count where it is. -/
@[simp] theorem braceCount_nil : braceCount [] = 0 := rfl

/-- The count runs on like the number does: to wrap around now or later
is the same. -/
@[simp] theorem braceCount_append (s t : List Char) :
    braceCount (s ++ t) = braceCount s + braceCount t := by
  rw [braceCount, braceDepth_append, Int32.ofInt_add]
  rfl

/-- The count behind a first character is that of the character and that of
the rest. -/
theorem braceCount_cons (c : Char) (s : List Char) :
    braceCount (c :: s) = braceCount [c] + braceCount s :=
  braceCount_append [c] s

/-- A balanced text leaves the count where it is, even if the count has
wrapped around inside of it. -/
theorem Balanced.braceCount_eq (h : Balanced s) : braceCount s = 0 := by
  rw [braceCount, h.1]
  rfl

/-- No separator stands outside the braces of the text. -/
def Unseparated (text : List Char) : Prop :=
  ∀ front ∈ text.inits, front ++ [',', ' '] <+: text → 0 < braceDepth front

/-- Wherever a separator stands in the text, the count is positive, if it
is `depth` before the text. -/
def UnseparatedFrom (depth : Int32) (text : List Char) : Prop :=
  ∀ front ∈ text.inits, front ++ [',', ' '] <+: text → 0 < depth + braceCount front

instance (text : List Char) : Decidable (Unseparated text) :=
  inferInstanceAs (Decidable (∀ front ∈ text.inits, _ → _))

/-- A separator stands at the front of a text or behind its first
character. -/
theorem unseparatedFrom_cons :
    UnseparatedFrom depth (c :: s) ↔
      ([',', ' '] <+: c :: s → 0 < depth) ∧ UnseparatedFrom (depth + braceCount [c]) s := by
  have hdepth : ∀ front, depth + braceCount (c :: front)
      = depth + braceCount [c] + braceCount front := by
    intro front
    rw [braceCount_cons, Int32.add_assoc]
  unfold UnseparatedFrom
  rw [List.inits_cons, List.forall_mem_cons, List.forall_mem_map, braceCount_nil, Int32.add_zero]
  refine and_congr Iff.rfl (forall₂_congr fun front _ => ?_)
  rw [hdepth, List.cons_append, List.cons_prefix_cons]
  simp only [true_and]

/-- Without a comma there is no separator that could count. -/
theorem unseparatedFrom_of_not_mem (h : ',' ∉ s) : UnseparatedFrom depth s := by
  intro front _ hseparator
  exact absurd (hseparator.subset (by simp)) h

/-- No separator reaches into a text that does not start with a
space. -/
theorem separator_prefix_of_append (hmeet : t.head? ≠ some ' ')
    (h : [',', ' '] <+: c :: (s ++ t)) : [',', ' '] <+: c :: s := by
  cases s with
  | nil =>
      obtain ⟨-, rest, rfl⟩ := List.cons_prefix_cons.1 h
      exact absurd rfl hmeet
  | cons c' s => simpa [List.cons_prefix_cons] using h

/-- Two texts have no separator together, unless one arises where they
meet. -/
theorem UnseparatedFrom.append (hs : UnseparatedFrom depth s)
    (ht : UnseparatedFrom (depth + braceCount s) t) (hmeet : t.head? ≠ some ' ') :
    UnseparatedFrom depth (s ++ t) := by
  induction s generalizing depth with
  | nil => simpa using ht
  | cons c s ih =>
      -- The count runs along with the text, so `ht` is about the count behind `c`.
      obtain ⟨hfirst, hs⟩ := unseparatedFrom_cons.1 hs
      rw [braceCount_cons, ← Int32.add_assoc] at ht
      exact unseparatedFrom_cons.2
        ⟨fun hseparator => hfirst (separator_prefix_of_append hmeet hseparator), ih hs ht⟩

/-- Between two marks that are neither a comma nor a space, a text has no
more separators than by itself. -/
theorem UnseparatedFrom.between {front back : Char}
    (h : UnseparatedFrom (depth + braceCount [front]) s) (hfront : front ≠ ',')
    (hback : back ≠ ',' ∧ back ≠ ' ') :
    UnseparatedFrom depth (front :: (s ++ [back])) := by
  rw [unseparatedFrom_cons]
  constructor
  · intro hseparator
    exact absurd (List.cons_prefix_cons.1 hseparator).1.symm hfront
  · exact h.append (unseparatedFrom_of_not_mem (by simpa using hback.1.symm))
      (by simpa using hback.2)

/-- Quotes around a text bring no separator: the one in front of it is no
comma, and the one behind it no space. -/
theorem UnseparatedFrom.quoted (h : UnseparatedFrom 0 s) : UnseparatedFrom 0 (Text.quoted s) :=
  UnseparatedFrom.between h (by decide) (by decide)

/-- The cut into fields counts as `braceCount` does: one brace up or down, and
any other character not at all. -/
private theorem depth_step (depth : Int32) (c : Char) :
    (if c = '{' then depth + 1 else if c = '}' then depth - 1 else depth)
      = depth + braceCount [c] := by
  rw [braceCount, braceDepth_singleton]
  split
  · rfl
  · split
    · exact Int32.sub_eq_add_neg depth 1
    · exact (Int32.add_zero depth).symm

/-- Fields that are told apart when they are joined, if the count is
`depth` before the first: no field has a separator that counts, and the
count is not positive where two fields meet. It runs on from field to
field, so it need not be 0 there. -/
def ApartFrom (depth : Int32) : List (List Char) → Prop
  | [] => False
  | [field] => UnseparatedFrom depth field
  | field :: next :: fields =>
    UnseparatedFrom depth field ∧ depth + braceCount field ≤ 0 ∧
      ApartFrom (depth + braceCount field) (next :: fields)

variable {fields : List (List Char)}

/-- Of fields that are told apart, the first may be cut off: it has no
separator that counts, the one behind it counts, and the rest are told apart
from there on. -/
theorem apartFrom_cons (hne : fields ≠ []) {field : List Char} :
    ApartFrom depth (field :: fields) ↔
      UnseparatedFrom depth field ∧ depth + braceCount field ≤ 0 ∧
        ApartFrom (depth + braceCount field) fields := by
  obtain ⟨next, rest, rfl⟩ := List.exists_cons_of_ne_nil hne
  exact Iff.rfl

/-- Fields are told apart still if a character goes in front of them that
does not open a separator with the text behind it. -/
theorem ApartFrom.cons_char (h : ApartFrom (depth + braceCount [c]) fields)
    (hseparator : [',', ' '] <+: c :: [',', ' '].intercalate fields → 0 < depth) :
    ApartFrom depth (fields.modifyHead (c :: ·)) := by
  match fields with
  | [field] =>
      rw [List.intercalate_singleton] at hseparator
      exact unseparatedFrom_cons.2 ⟨hseparator, h⟩
  | field :: next :: fields =>
      obtain ⟨hfield, hmeet, hrest⟩ := h
      have hdepth : depth + braceCount (c :: field)
          = depth + braceCount [c] + braceCount field := by
        rw [braceCount_cons, Int32.add_assoc]
      -- A separator in the first field stands in the joined text as well.
      have hfirst : [',', ' '] <+: c :: field → 0 < depth := by
        intro hprefix
        apply hseparator
        rw [List.intercalate_cons_cons, List.append_assoc, ← List.cons_append]
        exact hprefix.trans (List.prefix_append _ _)
      refine ⟨unseparatedFrom_cons.2 ⟨hfirst, hfield⟩, ?_, ?_⟩
      · rw [hdepth]
        exact hmeet
      · rw [hdepth]
        exact hrest

/-- The fields of a text are told apart: the cut left no separator that
counts in a field, and made each cut at one. -/
theorem apartFrom_splitFieldsFrom (depth : Int32) (text : List Char) :
    ApartFrom depth (splitFieldsFrom depth text) := by
  fun_induction splitFieldsFrom depth text with
  | case1 depth => exact unseparatedFrom_of_not_mem List.not_mem_nil
  | case2 depth text hclosed ih =>
      rw [apartFrom_cons (splitFieldsFrom_ne_nil depth text), braceCount_nil, Int32.add_zero]
      exact ⟨unseparatedFrom_of_not_mem List.not_mem_nil, hclosed, ih⟩
  | case3 depth text hopen ih =>
      -- Neither the comma nor the space behind it is a brace.
      have hcomma : depth + braceCount [','] = depth := Int32.add_zero depth
      have hspace : depth + braceCount [' '] = depth := Int32.add_zero depth
      refine ApartFrom.cons_char ?_ fun _ => Int32.not_le.1 hopen
      rw [hcomma]
      refine ApartFrom.cons_char ?_ fun _ => Int32.not_le.1 hopen
      rwa [hspace]
  | case4 depth c text hseparator depth' ih =>
      have hdepth : depth' = depth + braceCount [c] := depth_step depth c
      rw [hdepth] at ih ⊢
      refine ApartFrom.cons_char ih fun hprefix => ?_
      rw [intercalate_splitFieldsFrom] at hprefix
      obtain ⟨rest, hrest⟩ := hprefix
      obtain ⟨rfl, rfl⟩ := List.cons.inj hrest
      exact absurd rfl (hseparator rest rfl)

/-- In braces, a balanced text has no separator outside braces. The first
brace stays open up to the last character, behind which there is no room for a
separator. -/
theorem Balanced.unseparated_braced (h : Balanced s) : Unseparated (Text.braced s) := by
  intro front hfront hseparator
  rw [Text.braced, List.inits_cons] at hfront
  rcases List.mem_cons.1 hfront with rfl | hmem
  · -- The first character is a brace and no comma.
    exact absurd (List.cons_prefix_cons.1 hseparator).1 (by decide)
  · obtain ⟨inside, hinside, rfl⟩ := List.mem_map.1 hmem
    rw [List.inits_append] at hinside
    rcases List.mem_append.1 hinside with hmem | hmem
    · have hopen : braceDepth ['{'] = 1 := rfl
      have := h.2 inside hmem
      rw [braceDepth_cons, hopen]
      omega
    · -- The whole text has no room for a separator behind it.
      have hlast : inside = s ++ ['}'] := by simpa using hmem
      have hlength := hseparator.length_le
      simp [Text.braced, hlast] at hlength

/-- A separator inside `n` braces. -/
def nestedSeparator (n : Nat) : List Char := Text.braced^[n] [',', ' ']

/-- Each of the braces is closed behind the separator, so the text is
balanced. -/
theorem balanced_nestedSeparator (n : Nat) : Balanced (nestedSeparator n) := by
  induction n with
  | zero =>
      show Balanced [',', ' ']
      decide
  | succ n ih =>
      rw [nestedSeparator, Function.iterate_succ_apply']
      exact ih.braced

/-- All of the braces are open where the separator stands. They come first. -/
theorem prefix_nestedSeparator (n : Nat) :
    List.replicate n '{' ++ [',', ' '] <+: nestedSeparator n := by
  induction n with
  | zero => exact List.prefix_rfl
  | succ n ih =>
      rw [nestedSeparator, Function.iterate_succ_apply', List.replicate_succ]
      exact List.cons_prefix_cons.2 ⟨rfl, ih.trans (List.prefix_append _ _)⟩

/-- The separator counts if the count of the braces around it has wrapped
around. -/
theorem splitFields_nestedSeparator_ne {n : Nat} (h : Int32.ofInt n ≤ 0) :
    splitFields (nestedSeparator n) ≠ [nestedSeparator n] := by
  intro hfields
  -- One field by itself is found again only if no separator in it counts.
  have hapart : ApartFrom 0 [nestedSeparator n] := by
    have := apartFrom_splitFieldsFrom 0 (nestedSeparator n)
    rwa [show splitFieldsFrom 0 _ = _ from hfields] at this
  have hpositive := hapart (List.replicate n '{')
    ((List.mem_inits _ _).2 ((List.prefix_append _ _).trans (prefix_nestedSeparator n)))
    (prefix_nestedSeparator n)
  have hdepth : braceDepth (List.replicate n '{') = n := by
    simp [braceDepth, List.count_replicate]
  rw [Int32.zero_add, braceCount, hdepth] at hpositive
  exact Int32.not_le.2 hpositive h

/-- The separator does not stand outside the braces, if there are any. It does
not matter how many. -/
theorem unseparated_nestedSeparator {n : Nat} (h : 0 < n) : Unseparated (nestedSeparator n) := by
  obtain ⟨m, rfl⟩ := Nat.exists_eq_add_of_lt h
  rw [nestedSeparator, Nat.zero_add, Function.iterate_succ_apply']
  exact (balanced_nestedSeparator m).unseparated_braced

/-- The bound is needed. In 2³¹ braces, one more than `maxDepth`, a
separator is inside braces and yet counts, so a field that is balanced and
has no separator outside braces is cut in two. -/
theorem splitFields_nestedSeparator :
    Balanced (nestedSeparator 0x80000000) ∧ Unseparated (nestedSeparator 0x80000000) ∧
      splitFields (nestedSeparator 0x80000000) ≠ [nestedSeparator 0x80000000] :=
  ⟨balanced_nestedSeparator _, unseparated_nestedSeparator (by decide),
    splitFields_nestedSeparator_ne (by decide)⟩

end RouteDoc.Docblock
