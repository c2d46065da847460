import RouteDoc.Docblock.Metadata
import RouteDoc.Proofs.Docblock.Arguments

/-!
# `RouteDoc.Proofs.Docblock.Pairs`: metadata blocks as they are written

A metadata block lists pairs of quoted texts in braces. A `WrittenBlock` is
such a block with everything that the two readers have to get past: each
pair has a mark of its own between key and value, and there may be blanks
around every key, every value and every mark.

Two of the rewrites that a block goes through look at one character at a
time. They make a block of a block, since they leave the marks and the
blanks alone, and change nothing but the texts in quotes.

* `flatMap_text`: such a rewrite.
* `unsetStars_text`, `escapeBackslashes_text`: the two that there are.
* `trim_text`: what is left of a block when it is trimmed.
-/

set_option autoImplicit false

namespace RouteDoc.Docblock

open RouteDoc.Text

/-- The text consists of blanks. -/
def IsBlankText (s : List Char) : Prop := ∀ c ∈ s, isBlank c = true

instance (s : List Char) : Decidable (IsBlankText s) := inferInstanceAs (Decidable (∀ c ∈ s, _))

/-- The empty text has only blanks. -/
theorem isBlankText_nil : IsBlankText [] := fun _ h => by cases h

/-- What is no blank is not in a text of blanks. -/
theorem IsBlankText.not_mem {s : List Char} {c : Char} (h : IsBlankText s)
    (hc : isBlank c = false) : c ∉ s := by
  intro hmem
  rw [h c hmem] at hc
  cases hc

/-! ### Pairs -/

/-- A pair of a metadata block as it is written: a key and a value, which
stand in double quotes, the mark between them, and the blanks around these
three. -/
structure WrittenPair where
  lead : List Char := []
  key : List Char
  behindKey : List Char := []
  joint : Char
  beforeValue : List Char := []
  value : List Char
  behindValue : List Char := []

namespace WrittenPair

/-- The pair without the blanks at its ends. -/
def core (p : WrittenPair) : List Char :=
  quoted p.key ++ (p.behindKey ++ p.joint :: (p.beforeValue ++ quoted p.value))

/-- The pair as it stands in a block. -/
def text (p : WrittenPair) : List Char := p.lead ++ (p.core ++ p.behindValue)

/-- The pair with another key and another value, written in the same way. -/
def mapTexts (f : List Char → List Char) (p : WrittenPair) : WrittenPair :=
  { p with key := f p.key, value := f p.value }

/-- The pair is written as pairs are: with `=` or a colon as its mark, and
with nothing but blanks around. -/
structure IsLaidOut (p : WrittenPair) : Prop where
  joint : p.joint = '=' ∨ p.joint = ':'
  lead : IsBlankText p.lead
  behindKey : IsBlankText p.behindKey
  beforeValue : IsBlankText p.beforeValue
  behindValue : IsBlankText p.behindValue

instance (p : WrittenPair) : Decidable p.IsLaidOut :=
  decidable_of_iff ((p.joint = '=' ∨ p.joint = ':') ∧ IsBlankText p.lead ∧
      IsBlankText p.behindKey ∧ IsBlankText p.beforeValue ∧ IsBlankText p.behindValue)
    ⟨fun ⟨hjoint, hlead, hbehindKey, hbeforeValue, hbehindValue⟩ =>
      ⟨hjoint, hlead, hbehindKey, hbeforeValue, hbehindValue⟩,
      fun h => ⟨h.joint, h.lead, h.behindKey, h.beforeValue, h.behindValue⟩⟩

end WrittenPair

/-! ### Blocks -/

/-- A metadata block as it is written: its pairs, the blanks behind the
opening brace, and those around the block. -/
structure WrittenBlock where
  lead : List Char := []
  opening : List Char := []
  pairs : List WrittenPair
  tail : List Char := []

namespace WrittenBlock

variable {b : WrittenBlock}

/-- What stands between the braces. -/
def inside (b : WrittenBlock) : List Char :=
  b.opening ++ [','].intercalate (b.pairs.map WrittenPair.text)

/-- The block as a text. -/
def text (b : WrittenBlock) : List Char := b.lead ++ (braced b.inside ++ b.tail)

/-- The block with other pairs in the place of its own. -/
def mapPairs (f : WrittenPair → WrittenPair) (b : WrittenBlock) : WrittenBlock :=
  { b with pairs := b.pairs.map f }

/-- The block is written as blocks are: with nothing but blanks outside its
quotes, braces and marks. -/
structure IsLaidOut (b : WrittenBlock) : Prop where
  lead : IsBlankText b.lead
  opening : IsBlankText b.opening
  pairs : ∀ p ∈ b.pairs, p.IsLaidOut
  tail : IsBlankText b.tail

/-- What holds of all pairs of a rewritten block holds of all pairs of the
block once they are rewritten. -/
theorem forall_mem_mapPairs {P : WrittenPair → Prop} {f : WrittenPair → WrittenPair} :
    (∀ p ∈ (b.mapPairs f).pairs, P p) ↔ ∀ p ∈ b.pairs, P (f p) :=
  List.forall_mem_map

/-- Trimming leaves the block from brace to brace, with the blanks inside. -/
theorem trim_text (hlead : IsBlankText b.lead) (htail : IsBlankText b.tail) :
    trim b.text = braced b.inside := by
  rw [text, trim_append_left hlead, trim_append_right htail, (unpadded_braced _).trim_eq]

end WrittenBlock

/-! ### Rewrites of single characters -/

/-- Joined texts are rewritten one by one, and so is the separator. A rewrite
of single characters looks at nothing around them. -/
theorem flatMap_intercalate (f : Char → List Char) (separator : List Char)
    (texts : List (List Char)) :
    (separator.intercalate texts).flatMap f
      = (separator.flatMap f).intercalate (texts.map (List.flatMap f)) := by
  match texts with
  | [] => rfl
  | [s] => simp
  | s :: t :: texts =>
      rw [List.intercalate_cons_cons, List.flatMap_append, List.flatMap_append,
        flatMap_intercalate f separator (t :: texts), List.map_cons, List.map_cons, List.map_cons,
        List.intercalate_cons_cons]

section

variable {f : Char → List Char}

/-- A rewrite that leaves every character of a text alone leaves the text
alone. -/
theorem flatMap_eq_self {s : List Char} (h : ∀ c ∈ s, f c = [c]) : s.flatMap f = s := by
  induction s with
  | nil => rfl
  | cons c s ih =>
      obtain ⟨hc, hs⟩ := List.forall_mem_cons.1 h
      rw [List.flatMap_cons, hc, ih hs, List.singleton_append]

/-- The characters that a rewrite has to leave alone: the marks of a block
and the blanks. -/
structure KeepsMarks (f : Char → List Char) : Prop where
  marks : ∀ c ∈ ['{', '}', '"', ',', '=', ':'], f c = [c]
  blanks : ∀ c, isBlank c = true → f c = [c]

/-- A rewrite that keeps the marks of a block keeps its blanks. -/
theorem KeepsMarks.flatMap_blanks (hf : KeepsMarks f) {s : List Char} (h : IsBlankText s) :
    s.flatMap f = s :=
  flatMap_eq_self fun c hc => hf.blanks c (h c hc)

/-- A rewrite that keeps the marks keeps the quotes around a text, and
rewrites what is inside. -/
theorem KeepsMarks.flatMap_quoted (hf : KeepsMarks f) (s : List Char) :
    (quoted s).flatMap f = quoted (s.flatMap f) := by
  have hquote : f '"' = ['"'] := hf.marks _ (by simp)
  simp [quoted, hquote]

/-- A rewrite that keeps the marks makes a pair of a pair: its two texts are
rewritten, and the rest is as before. -/
theorem KeepsMarks.flatMap_pair (hf : KeepsMarks f) {p : WrittenPair} (h : p.IsLaidOut) :
    p.text.flatMap f = (p.mapTexts (List.flatMap f)).text := by
  have hjoint : f p.joint = [p.joint] := by
    rcases h.joint with hjoint | hjoint
    · rw [hjoint]
      exact hf.marks _ (by simp)
    · rw [hjoint]
      exact hf.marks _ (by simp)
  simp only [WrittenPair.text, WrittenPair.core, WrittenPair.mapTexts, List.flatMap_append,
    List.flatMap_cons, hf.flatMap_blanks h.lead, hf.flatMap_blanks h.behindKey,
    hf.flatMap_blanks h.beforeValue, hf.flatMap_blanks h.behindValue, hjoint, hf.flatMap_quoted,
    List.singleton_append]

/-- A rewrite that leaves the marks and the blanks of a block alone makes a
block of the rewritten keys and values. -/
theorem KeepsMarks.flatMap_text (hf : KeepsMarks f) {b : WrittenBlock} (h : b.IsLaidOut) :
    b.text.flatMap f = (b.mapPairs (WrittenPair.mapTexts (List.flatMap f))).text := by
  have hopen : f '{' = ['{'] := hf.marks _ (by simp)
  have hclose : f '}' = ['}'] := hf.marks _ (by simp)
  have hcomma : f ',' = [','] := hf.marks _ (by simp)
  -- Pair by pair, and then the marks between and around them.
  have hpairs : (b.pairs.map WrittenPair.text).map (List.flatMap f)
      = (b.pairs.map (WrittenPair.mapTexts (List.flatMap f))).map WrittenPair.text := by
    rw [List.map_map, List.map_map]
    exact List.map_congr_left fun p hp => hf.flatMap_pair (h.pairs p hp)
  have hseparator : [','].flatMap f = [','] := by
    simp [hcomma]
  have hinside : b.inside.flatMap f
      = (b.mapPairs (WrittenPair.mapTexts (List.flatMap f))).inside := by
    rw [WrittenBlock.inside, List.flatMap_append, hf.flatMap_blanks h.opening,
      flatMap_intercalate, hseparator, hpairs]
    rfl
  have hbraced : (braced b.inside).flatMap f = braced (b.inside.flatMap f) := by
    simp [braced, hopen, hclose]
  rw [WrittenBlock.text, List.flatMap_append, List.flatMap_append, hf.flatMap_blanks h.lead,
    hf.flatMap_blanks h.tail, hbraced, hinside]
  rfl

end

/-! ### Stars and backslashes -/

/-- Leaving out the stars is a rewrite of single characters, each of which
stays or goes. -/
theorem unsetStars_eq_flatMap : unsetStars = List.flatMap fun c => if c = '*' then [] else [c] := by
  funext text
  induction text with
  | nil => rfl
  | cons c text ih =>
      rw [List.flatMap_cons, ← ih, unsetStars]
      by_cases hc : c = '*'
      · simp [hc, unsetStars]
      · simp [hc, unsetStars]

/-- Leaving out the stars makes a block of a block, because no mark of a block
is a star. -/
theorem unsetStars_text {b : WrittenBlock} (h : b.IsLaidOut) :
    unsetStars b.text = (b.mapPairs (WrittenPair.mapTexts unsetStars)).text := by
  rw [unsetStars_eq_flatMap]
  refine KeepsMarks.flatMap_text ⟨by decide, fun c hc => if_neg ?_⟩ h
  rintro rfl
  exact absurd hc (by decide)

/-- Doubling the backslashes makes a block of a block, because no mark of a
block is a backslash. -/
theorem escapeBackslashes_text {b : WrittenBlock} (h : b.IsLaidOut) :
    escapeBackslashes b.text = (b.mapPairs (WrittenPair.mapTexts escapeBackslashes)).text := by
  refine KeepsMarks.flatMap_text ⟨by decide, fun c hc => if_neg ?_⟩ h
  rintro rfl
  exact absurd hc (by decide)

/-- Stars are left out of two texts one by one. -/
theorem unsetStars_append (s t : List Char) : unsetStars (s ++ t) = unsetStars s ++ unsetStars t :=
  List.filter_append s t

/-- Leaving out the stars adds no character. -/
theorem mem_of_mem_unsetStars {c : Char} {s : List Char} (h : c ∈ unsetStars s) : c ∈ s :=
  List.mem_of_mem_filter h

end RouteDoc.Docblock
