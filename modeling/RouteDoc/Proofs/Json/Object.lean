import RouteDoc.Proofs.Json.Members
import RouteDoc.Proofs.Text.Search

/-!
# `RouteDoc.Proofs.Json.Object`: reading an object of strings

Every reader is shown to take its own text off the front of a longer one,
so that the next reader starts where it should. `ReadsAs` is this for the
inside of a string; from there it goes on to members, to lists of members
and to the whole object. Blanks may stand between the parts (`IsGap`), and
every reader skips those before what it reads. Blanks behind an item are
left for the next reader, so what is taken of an item is its text but for a
gap (`Takes`).

* `items_intercalate`: joined items are read one by one, up to the closing
  character.
* `parse_object`: an object whose values are strings is read to its end,
  and repeated keys are merged.
-/

set_option autoImplicit false

namespace RouteDoc.Json

open RouteDoc.Text

namespace Reader

variable {α : Type} {item : Reader α} {close : Char} {gap lead tail : List Char}

/-! ### Gaps -/

/-- The text consists of characters that may stand between the parts of a
JSON text. -/
def IsGap (gap : List Char) : Prop := ∀ c ∈ gap, isSpace c = true

/-- The reader does not care for a gap before what it reads. -/
def SkipsGaps (item : Reader α) : Prop := ∀ gap, IsGap gap → ∀ text, item (gap ++ text) = item text

/-- The reader takes the text off the front of a longer one, but for a gap
at the end of the text. -/
def Takes (item : Reader α) (text : List Char) (a : α) : Prop :=
  ∀ rest, ∃ gap, IsGap gap ∧ item (text ++ rest) = some (a, gap ++ rest)

/-- Behind a gap, the text starts with a character other than `close`. -/
def Opens (close : Char) (text : List Char) : Prop :=
  ∃ gap c rest, IsGap gap ∧ text = gap ++ c :: rest ∧ isSpace c = false ∧ c ≠ close

/-- No text at all is a gap. -/
theorem isGap_nil : IsGap [] := fun _ h => by cases h

/-- A single space is a gap. -/
theorem isGap_space : IsGap [' '] := by
  intro c hc
  rw [List.mem_singleton.1 hc]
  rfl

/-- A reader takes a text if it reads the text whatever follows, and leaves
all of that. -/
theorem Takes.of_eq {text : List Char} {a : α} (h : ∀ rest, item (text ++ rest) = some (a, rest)) :
    Takes item text a :=
  fun rest => ⟨[], isGap_nil, h rest⟩

/-- A text opens if its first character is no white space and does not close
the brackets around it. -/
theorem Opens.of_cons {text : List Char}
    (h : ∃ c rest, text = c :: rest ∧ isSpace c = false ∧ c ≠ close) : Opens close text := by
  obtain ⟨c, rest, htext, hc⟩ := h
  exact ⟨[], c, rest, isGap_nil, htext, hc⟩

/-- White space in front of a text is skipped. -/
theorem skipSpace_append (h : IsGap gap) (text : List Char) :
    skipSpace (gap ++ text) = skipSpace text :=
  List.dropWhile_append_of_pos h

/-- Nothing is skipped where another character comes first. -/
theorem skipSpace_cons_of_not_isSpace {c : Char} (h : isSpace c = false) (text : List Char) :
    skipSpace (c :: text) = c :: text := by
  simp [skipSpace, h]

/-- The reader of a member skips the white space before the key. -/
theorem skipsGaps_member (value : Reader α) : SkipsGaps (member value) := by
  intro gap hgap text
  rw [member, member, skipSpace_append hgap]

/-- The reader of a value skips the white space before it. Without any depth
left it fails, white space or not. -/
theorem skipsGaps_form (depth : Nat) : SkipsGaps (form depth) := by
  intro gap hgap text
  cases depth with
  | zero => rfl
  | succ depth => rw [form, form, skipSpace_append hgap]

/-- White space before the first item makes no difference to the items. -/
theorem itemsUpTo_append (hitem : SkipsGaps item) (hgap : IsGap gap) (n : Nat)
    (text : List Char) : itemsUpTo item close n (gap ++ text) = itemsUpTo item close n text := by
  cases n with
  | zero => rfl
  | succ n => rw [itemsUpTo, itemsUpTo, hitem gap hgap]

/-! ### Joined items -/

/-- Items that are joined by a comma and a gap are read one by one, if
each of them is taken off the front of a longer text. -/
theorem itemsUpTo_intercalate (hitem : SkipsGaps item) (hgap : IsGap gap) (htail : IsGap tail)
    (hclose : isSpace close = false) (hcomma : close ≠ ',') {parts : List (List Char × α)}
    (hne : parts ≠ []) (h : ∀ part ∈ parts, Takes item part.1 part.2)
    {n : Nat} (hn : parts.length ≤ n) (rest : List Char) :
    itemsUpTo item close n
        ((',' :: gap).intercalate (parts.map Prod.fst) ++ (tail ++ close :: rest))
      = some (parts.map Prod.snd, rest) := by
  induction parts generalizing n with
  | nil => exact absurd rfl hne
  | cons part parts ih =>
      obtain ⟨n, rfl⟩ : ∃ m, n = m + 1 := ⟨n - 1, by simp only [List.length_cons] at hn; omega⟩
      have hfirst := h part (by simp)
      cases parts with
      | nil =>
          obtain ⟨behind, hbehind, hread⟩ := hfirst (tail ++ close :: rest)
          rw [List.map_singleton, List.intercalate_singleton, itemsUpTo, hread]
          simp only [skipSpace_append hbehind, skipSpace_append htail,
            skipSpace_cons_of_not_isSpace hclose, if_true, List.map_singleton]
      | cons next parts =>
          have hrest := ih (by simp) (fun part hpart => h part (List.mem_cons_of_mem _ hpart))
            (n := n) (by simp only [List.length_cons] at hn ⊢; omega)
          obtain ⟨behind, hbehind, hread⟩ := hfirst ((',' :: gap)
            ++ ((',' :: gap).intercalate ((next :: parts).map Prod.fst) ++ (tail ++ close :: rest)))
          rw [List.map_cons, List.map_cons, List.intercalate_cons_cons, List.append_assoc,
            List.append_assoc, itemsUpTo, ← List.map_cons (f := Prod.fst), hread]
          simp only [skipSpace_append hbehind, List.cons_append,
            skipSpace_cons_of_not_isSpace (show isSpace ',' = false by decide), Ne.symm hcomma,
            if_false, if_true]
          -- The gap behind the comma is skipped by the next item.
          rw [itemsUpTo_append hitem hgap, hrest]
          rfl

/-- There are no more texts than characters in the joined text, but for one:
all others have a comma before them. So the length of what is read bounds the
number of items. -/
theorem length_le_length_intercalate (gap : List Char) (texts : List (List Char)) :
    texts.length ≤ ((',' :: gap).intercalate texts).length + 1 := by
  match texts with
  | [] => simp
  | [s] => simp
  | s :: t :: texts =>
      have := length_le_length_intercalate gap (t :: texts)
      rw [List.intercalate_cons_cons]
      simp only [List.length_append, List.length_cons] at this ⊢
      omega

/-- Joined items are read up to the closing character; there may be
none. -/
theorem items_intercalate (hitem : SkipsGaps item) (hlead : IsGap lead) (hgap : IsGap gap)
    (htail : IsGap tail) (hclose : isSpace close = false) (hcomma : close ≠ ',')
    {parts : List (List Char × α)} (hopens : ∀ part ∈ parts, Opens close part.1)
    (h : ∀ part ∈ parts, Takes item part.1 part.2) (rest : List Char) :
    items item close
        (lead ++ ((',' :: gap).intercalate (parts.map Prod.fst) ++ (tail ++ close :: rest)))
      = some (parts.map Prod.snd, rest) := by
  cases parts with
  | nil =>
      rw [List.map_nil, List.intercalate_nil, List.nil_append, items, skipSpace_append hlead,
        skipSpace_append htail]
      simp [skipSpace_cons_of_not_isSpace hclose]
  | cons part parts =>
      obtain ⟨front, c, text, hfront, hc, hspace, hne⟩ :
          Opens close ((',' :: gap).intercalate ((part :: parts).map Prod.fst)) := by
        obtain ⟨front, c, text, hfront, hpart, hc⟩ := hopens part (by simp)
        obtain ⟨more, hmore⟩ := prefix_intercalate (',' :: gap) part.1 (parts.map Prod.fst)
        refine ⟨front, c, text ++ more, hfront, ?_, hc⟩
        rw [List.map_cons, ← hmore, hpart]
        simp
      have hlength : (part :: parts).length ≤ (lead
          ++ ((',' :: gap).intercalate ((part :: parts).map Prod.fst)
            ++ (tail ++ close :: rest))).length := by
        have := length_le_length_intercalate gap ((part :: parts).map Prod.fst)
        simp only [List.length_append, List.length_map, List.length_cons] at this ⊢
        omega
      have hitems := itemsUpTo_intercalate hitem hgap htail hclose hcomma (by simp) h hlength rest
      rw [← itemsUpTo_append hitem hlead, hc, List.append_assoc] at hitems
      rw [items, skipSpace_append hlead, hc, List.append_assoc, skipSpace_append hfront,
        List.cons_append, skipSpace_cons_of_not_isSpace hspace]
      simp only [hne, if_false]
      exact hitems

/-! ### Strings as keys and values -/

/-- A character that need not be escaped is read as it is. -/
theorem pieces_cons {c : Char} (hescape : c ≠ '\\') (hquote : c ≠ '"') (hcontrol : ' ' ≤ c)
    (text : List Char) :
    pieces (c :: text) = (pieces text).map fun (ps, rest) => (.char c :: ps, rest) := by
  have hnot : ¬c < ' ' := Char.not_lt.2 hcontrol
  rw [pieces.eq_4 c text (fun _ _ _ _ _ h => absurd h hescape) (fun _ _ h => absurd h hescape),
    if_neg hquote, if_neg hnot]
  cases pieces text <;> rfl

/-- A character behind a backslash is read as the one that it stands
for. -/
theorem pieces_escape {c d : Char} (h : simpleEscape? c = some d) (text : List Char) :
    pieces ('\\' :: c :: text)
      = (pieces text).map fun (ps, rest) => (.char d :: ps, rest) := by
  have hunit : c ≠ 'u' := by
    rintro rfl
    cases h
  rw [pieces, h]
  · cases pieces text <;> rfl
  · exact fun _ _ _ _ _ hu => absurd hu hunit

/-- The text is the inside of a string with the value `s`. -/
def ReadsAs (text : List Char) (s : String) : Prop :=
  ∀ rest, string (text ++ '"' :: rest) = some (some s, rest)

variable {key value : List Char} {k v : String}

/-- A text in quotes is read as a string if what stands inside reads as one. -/
theorem form_quoted (h : ReadsAs value v) (depth : Nat) (rest : List Char) :
    form (depth + 1) (quoted value ++ rest) = some (.string (some v), rest) := by
  have htext : quoted value ++ rest = '"' :: (value ++ '"' :: rest) := by simp [quoted]
  rw [htext, form, skipSpace_cons_of_not_isSpace (show isSpace '"' = false by decide)]
  simp [h rest]

/-- A member is its key, a colon and its value, with gaps around the colon
or none. -/
theorem member_quoted {item : Reader α} {behind : List Char} (hkey : ReadsAs key k)
    (hitem : SkipsGaps item) (hbehind : IsGap behind) (hgap : IsGap gap) {a : α} {rest : List Char}
    (hvalue : item (value ++ rest) = some (a, rest)) :
    member item (quoted key ++ (behind ++ ':' :: (gap ++ value)) ++ rest)
      = some ((some k, a), rest) := by
  have hstring : string (key ++ '"' :: (behind ++ ':' :: (gap ++ (value ++ rest))))
      = some (some k, behind ++ ':' :: (gap ++ (value ++ rest))) := hkey _
  have htext : quoted key ++ (behind ++ ':' :: (gap ++ value)) ++ rest
      = '"' :: (key ++ '"' :: (behind ++ ':' :: (gap ++ (value ++ rest)))) := by simp [quoted]
  rw [htext, member, skipSpace_cons_of_not_isSpace (show isSpace '"' = false by decide)]
  simp only [hstring]
  simp [skipSpace_append hbehind,
    skipSpace_cons_of_not_isSpace (show isSpace ':' = false by decide), hitem gap hgap, hvalue]

end Reader

/-! ### The object -/

open Reader

variable {ι : Type}

/-- The members of an object of strings have the values of its keys and
values. -/
theorem membersWithin_strings (depth : Nat) (k v : ι → String) (xs : List ι) :
    Form.membersWithin depth (xs.map fun x => (some (k x), .string (some (v x))))
      = some (xs.map fun x => (k x, .string (v x))) := by
  induction xs with
  | nil => rfl
  | cons x xs ih =>
      simp [Form.membersWithin, Form.valueWithin, ih]

/-- An object whose values are strings is read to its end. A key that
comes again keeps its place and takes the later value. -/
theorem parse_object {lead : List Char} {xs : List ι} {text : ι → List Char} {k v : ι → String}
    (hlead : IsGap lead) (hopens : ∀ x ∈ xs, Opens '}' (text x))
    (h : ∀ x ∈ xs, ∀ depth,
      Takes (member (form (depth + 1))) (text x) (some (k x), .string (some (v x)))) :
    parse (braced (lead ++ [','].intercalate (xs.map text)))
      = some (.object (merge (xs.map fun x => (k x, .string (v x))))) := by
  let inside := lead ++ [','].intercalate (xs.map text)
  let members := xs.map fun x => (some (k x), Form.string (some (v x)))
  show parse (braced inside) = _
  let parts := xs.map fun x => (text x, (some (k x), Form.string (some (v x))))
  -- The two braces leave enough depth for the values.
  have hparts : ∀ part ∈ parts, Takes (member (form (inside.length + 1 + 1))) part.1 part.2 := by
    intro part hpart
    obtain ⟨x, hx, rfl⟩ := List.mem_map.1 hpart
    exact h x hx _
  have hstart : ∀ part ∈ parts, Opens '}' part.1 := by
    intro part hpart
    obtain ⟨x, hx, rfl⟩ := List.mem_map.1 hpart
    exact hopens x hx
  have hitems : items (member (form (inside.length + 1 + 1))) '}' (inside ++ ['}'])
      = some (members, []) := by
    have hread := items_intercalate (skipsGaps_member _) hlead isGap_nil isGap_nil
      (show isSpace '}' = false by decide) (by decide) hstart hparts []
    rw [List.map_map, List.map_map, ← List.append_assoc] at hread
    exact hread
  have hform : form ((braced inside).length + 1) (braced inside) = some (.object members, []) := by
    have hlength : (braced inside).length = inside.length + 1 + 1 := by simp [braced]
    rw [hlength, braced, form, skipSpace_cons_of_not_isSpace (by decide)]
    simp [hitems]
  have hvalue : Form.value? (.object members)
      = some (.object (merge (xs.map fun x => (k x, .string (v x))))) := by
    rw [Form.value?, show maxDepth = 126 + 1 from rfl, Form.valueWithin, membersWithin_strings]
    rfl
  rw [parse, parseForm, hform]
  exact hvalue

end RouteDoc.Json
