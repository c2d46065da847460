import RouteDoc.Json.Printer
import RouteDoc.Proofs.Json.Object

/-!
# `RouteDoc.Proofs.Json.Printed`: reading what was printed

A value that was printed with one item a line is read back, whatever
stands behind it: `Writes` says this of a text and a form, and `Prints` of
a value, on every level of indentation. There is a rule for each kind of
value but numbers. The rules for arrays and objects go from the items to
the whole, so a value that is built from strings and truth values prints
a form that is built in the same way.

* `readsAs_escaped`: every string is read back, whatever has to be escaped.
* `prints_string`, `prints_bool`, `prints_array`, `prints_object`: the
  rules.
* `parseForm_pretty`: a whole text.
-/

set_option autoImplicit false

namespace RouteDoc.Json

open RouteDoc.Text

namespace Reader

/-! ### Strings -/

/-- The characters that are written as a backslash and another character,
with that character. -/
def escapes : List (Char × Char) :=
  [('"', '"'), ('\\', '\\'), ('\x08', 'b'), ('\x0c', 'f'), ('\n', 'n'), ('\r', 'r'), ('\t', 't')]

/-- What a character is read as, once it has been written: a control
character that has no escape of its own is written as a number. -/
def pieceOf (c : Char) : Piece :=
  if c < ' ' ∧ c ∉ escapes.map Prod.fst then .unit c.toNat else .char c

/-- An escape of two characters is written for the character that it is read
as. -/
theorem escapeChar_of_mem_escapes : ∀ pair ∈ escapes,
    simpleEscape? pair.2 = some pair.1 ∧ escapeChar pair.1 = ['\\', pair.2] := by
  decide

/-- A control character without such an escape is written with four
hexadecimal digits. -/
theorem escapeChar_of_control {c : Char} (hcontrol : c < ' ') (h : c ∉ escapes.map Prod.fst) :
    escapeChar c
      = ['\\', 'u', '0', '0', hexChar (c.toNat / 16), hexChar (c.toNat % 16)] := by
  simp only [escapes, List.map_cons, List.map_nil, List.mem_cons, not_or] at h
  simp [escapeChar, h, hcontrol]

/-- The digits of a control character are read as its number. -/
theorem hexUnit?_hexChar : ∀ n < 32,
    hexUnit? '0' '0' (hexChar (n / 16)) (hexChar (n % 16)) = some n := by
  decide

/-- Every character is read as it was written, by itself or as one of the two
kinds of escapes, and the rest is read as if it stood alone. -/
theorem pieces_escapeChar (c : Char) (text : List Char) :
    pieces (escapeChar c ++ text)
      = (pieces text).map fun (ps, rest) => (pieceOf c :: ps, rest) := by
  by_cases hescape : c ∈ escapes.map Prod.fst
  · -- An escape of its own.
    obtain ⟨⟨_, d⟩, hpair, rfl⟩ := List.mem_map.1 hescape
    obtain ⟨hsimple, hwritten⟩ := escapeChar_of_mem_escapes _ hpair
    rw [hwritten, pieceOf, if_neg fun h => h.2 hescape]
    exact pieces_escape hsimple text
  · by_cases hcontrol : c < ' '
    · -- Four hexadecimal digits, of which the first two are zero.
      have hunit := hexUnit?_hexChar c.toNat hcontrol
      rw [escapeChar_of_control hcontrol hescape, pieceOf, if_pos ⟨hcontrol, hescape⟩]
      simp only [List.cons_append, List.nil_append, pieces, hunit]
      cases pieces text <;> rfl
    · -- No escape at all.
      have hquote : c ≠ '"' := by
        rintro rfl
        exact hescape (by decide)
      have hbackslash : c ≠ '\\' := by
        rintro rfl
        exact hescape (by decide)
      rw [escapeChar_of_ne hquote hbackslash hcontrol, pieceOf, if_neg fun h => hcontrol h.1]
      exact pieces_cons hbackslash hquote (Char.not_lt.1 hcontrol) text

/-- A number below the surrogates is the character with this number,
whatever stands behind it. -/
theorem assemble_unit {n : Nat} (h : n < 0xD800) (ps : List Piece) :
    assemble (.unit n :: ps) = (assemble ps).map (Char.ofNat n :: ·) := by
  -- Only a unit from the surrogates waits for a second one.
  have hlow : ¬(0xD800 ≤ n ∧ n < 0xDC00) := by omega
  have hhigh : ¬(0xDC00 ≤ n ∧ n < 0xE000) := by omega
  have hneither : ¬(0xD800 ≤ n ∧ n < 0xE000) := by omega
  cases ps with
  | nil => simp [assemble, hneither]
  | cons p ps =>
      cases p with
      | char c => simp only [assemble, hneither, if_false]
      | unit low => simp only [assemble, hlow, hhigh, if_false]

/-- Characters and the numbers of control characters are put together without
a loss. None of them is half of a pair of surrogates. -/
theorem assemble_pieceOf (s : List Char) : assemble (s.map pieceOf) = some s := by
  induction s with
  | nil => rfl
  | cons c s ih =>
      rw [List.map_cons, pieceOf]
      split
      · next h =>
        have hlt : c.toNat < 32 := h.1
        rw [assemble_unit (by omega), ih, Option.map_some, Char.ofNat_toNat]
      · rw [assemble, ih, Option.map_some]

/-- A text that was written as the inside of a string is read up to the
closing quote: inside, every quote is escaped. -/
theorem pieces_escaped (s rest : List Char) :
    pieces (s.flatMap escapeChar ++ '"' :: rest) = some (s.map pieceOf, rest) := by
  induction s with
  | nil => simp [pieces]
  | cons c s ih =>
      rw [List.flatMap_cons, List.append_assoc, pieces_escapeChar, ih]
      rfl

/-- The inside of a string that was written is read as the string. -/
theorem readsAs_escaped (s : String) : ReadsAs (s.toList.flatMap escapeChar) s := by
  intro rest
  rw [string, pieces_escaped, Option.map_some]
  simp only [assemble_pieceOf, Option.map_some, String.ofList_toList]

end Reader

open Reader

/-! ### Forms -/

/-- The text is read as the form, wherever it stands. It starts with a
character that neither can be skipped nor ends an array. -/
structure Writes (text : List Char) (form : Form) : Prop where
  start : ∃ c tail, text = c :: tail ∧ isSpace c = false ∧ c ≠ ']'
  read : ∀ {depth}, text.length < depth → ∀ rest,
    Reader.form depth (text ++ rest) = some (form, rest)

/-- A form takes up one level of depth, so the reader has one left to
open. -/
theorem Writes.of_succ {text : List Char} {form : Form}
    (hstart : ∃ c tail, text = c :: tail ∧ isSpace c = false ∧ c ≠ ']')
    (h : ∀ depth, text.length ≤ depth → ∀ rest,
      Reader.form (depth + 1) (text ++ rest) = some (form, rest)) : Writes text form := by
  refine ⟨hstart, fun {depth} hdepth rest => ?_⟩
  obtain ⟨depth, rfl⟩ : ∃ m, depth = m + 1 := ⟨depth - 1, by omega⟩
  exact h depth (by omega) rest

/-- The value is printed as the form, on every level of indentation. -/
def Prints (value : Json) (form : Form) : Prop := ∀ indent, Writes (prettyAt indent value) form

/-- A string prints a form that is a string, and never needs more than one
level of depth. -/
theorem prints_string (s : String) : Prints (.string s) (.string (some s)) := fun _ =>
  .of_succ ⟨'"', _, rfl, by decide, by decide⟩ fun depth _ rest =>
    form_quoted (readsAs_escaped s) depth rest

/-- A truth value prints the word for it. -/
theorem prints_bool (b : Bool) : Prints (.bool b) (.bool b) := by
  intro indent
  cases b with
  | false => exact .of_succ ⟨'f', _, rfl, by decide, by decide⟩ fun _ _ _ => rfl
  | true => exact .of_succ ⟨'t', _, rfl, by decide, by decide⟩ fun _ _ _ => rfl

/-! ### Brackets -/

/-- A line break and the indentation behind it are a gap. -/
theorem isGap_newline (indent : Nat) : IsGap (newline indent) := by
  intro c hc
  rcases List.mem_cons.1 hc with rfl | hc
  · rfl
  · rw [List.eq_of_mem_replicate hc]
    rfl

/-- Every block takes up less space than all of them with their
brackets. -/
theorem length_lt_length_bracket {block : List Char} {blocks : List (List Char)}
    (h : block ∈ blocks) (indent : Nat) (opening closing : Char) :
    block.length < (bracket indent opening closing blocks).length := by
  have hle : block.length ≤ ((',' :: newline (indent + 1)).intercalate blocks).length :=
    (infix_intercalate h).length_le
  have hne : blocks.isEmpty = false := by
    cases blocks with
    | nil => cases h
    | cons _ _ => rfl
  rw [bracket, hne]
  simp only [Bool.false_eq_true, if_false, List.length_append, List.length_cons]
  omega

/-- What stands between brackets is read block by block, if each block is
read off the front of a longer text. -/
theorem items_bracket {α : Type} {item : Reader α} {closing : Char} (hitem : SkipsGaps item)
    (hspace : isSpace closing = false) (hcomma : closing ≠ ',') {parts : List (List Char × α)}
    (hstart : ∀ part ∈ parts, ∃ c text, part.1 = c :: text ∧ isSpace c = false ∧ c ≠ closing)
    (h : ∀ part ∈ parts, ∀ rest, item (part.1 ++ rest) = some (part.2, rest))
    (indent : Nat) (opening : Char) (rest : List Char) :
    ∃ inside, bracket indent opening closing (parts.map Prod.fst) ++ rest = opening :: inside ∧
      items item closing inside = some (parts.map Prod.snd, rest) := by
  have hopens : ∀ part ∈ parts, Opens closing part.1 :=
    fun part hpart => .of_cons (hstart part hpart)
  have htakes : ∀ part ∈ parts, Takes item part.1 part.2 := fun part hpart => .of_eq (h part hpart)
  cases parts with
  | nil =>
      -- Without blocks there is no line between the brackets.
      exact ⟨closing :: rest, rfl,
        items_intercalate hitem isGap_nil isGap_nil isGap_nil hspace hcomma
        hopens htakes rest⟩
  | cons part parts =>
      refine ⟨_, ?_,
        items_intercalate hitem (isGap_newline (indent + 1)) (isGap_newline (indent + 1))
        (isGap_newline indent) hspace hcomma hopens htakes rest⟩
      simp [bracket]

/-- Texts that write forms make an array of these forms in brackets. The depth
that suffices for the length of the array suffices for its items. -/
theorem writes_array (indent : Nat) {parts : List (List Char × Form)}
    (h : ∀ part ∈ parts, Writes part.1 part.2) :
    Writes (bracket indent '[' ']' (parts.map Prod.fst)) (.array (parts.map Prod.snd)) := by
  -- Every item is shorter than the array, so the depth that is left is enough for it.
  have hlength : ∀ part ∈ parts,
      part.1.length < (bracket indent '[' ']' (parts.map Prod.fst)).length := fun part hpart =>
    length_lt_length_bracket (List.mem_map_of_mem hpart) indent '[' ']'
  refine .of_succ ?_ fun depth hdepth rest => ?_
  · cases parts <;> exact ⟨'[', _, rfl, by decide, by decide⟩
  · obtain ⟨inside, hinside, hitems⟩ := items_bracket (skipsGaps_form depth) (by decide) (by decide)
      (fun part hpart => (h part hpart).start)
      (fun part hpart => (h part hpart).read (by have := hlength part hpart; omega))
      indent '[' rest
    rw [hinside, Reader.form, skipSpace_cons_of_not_isSpace (by decide)]
    simp [hitems]

/-- The lines of a member: its key, and behind a space its value. -/
def memberText (member : String × List Char × Form) : List Char :=
  quote member.1 ++ ':' :: ' ' :: member.2.1

/-- Texts that write forms make an object of these forms in braces, each with
the text of its key before it. -/
theorem writes_object (indent : Nat) {members : List (String × List Char × Form)}
    (h : ∀ member ∈ members, Writes member.2.1 member.2.2) :
    Writes (bracket indent '{' '}' (members.map memberText))
      (.object (members.map fun member => (some member.1, member.2.2))) := by
  let parts := members.map fun member => (memberText member, (some member.1, member.2.2))
  have htexts : members.map memberText = parts.map Prod.fst := by
    simp [parts]
  have hforms : members.map (fun member => (some member.1, member.2.2)) = parts.map Prod.snd := by
    simp [parts]
  have hlength : ∀ member ∈ members, member.2.1.length + 1
      < (bracket indent '{' '}' (members.map memberText)).length := by
    intro member hmember
    have htext : (memberText member).length
        < (bracket indent '{' '}' (members.map memberText)).length :=
      length_lt_length_bracket (List.mem_map_of_mem hmember) indent '{' '}'
    simp only [memberText, List.length_append, List.length_cons] at htext ⊢
    omega
  refine .of_succ ?_ fun depth hdepth rest => ?_
  · cases members <;> exact ⟨'{', _, rfl, by decide, by decide⟩
  · have hread : ∀ part ∈ parts, ∀ rest,
        member (Reader.form depth) (part.1 ++ rest) = some (part.2, rest) := by
      intro part hpart rest
      obtain ⟨m, hm, rfl⟩ := List.mem_map.1 hpart
      have hvalue := (h m hm).read (show m.2.1.length < depth by have := hlength m hm; omega) rest
      exact member_quoted (readsAs_escaped m.1) (skipsGaps_form depth) isGap_nil isGap_space hvalue
    have hstart : ∀ part ∈ parts, ∃ c text, part.1 = c :: text ∧ isSpace c = false ∧ c ≠ '}' := by
      intro part hpart
      obtain ⟨m, -, rfl⟩ := List.mem_map.1 hpart
      exact ⟨'"', _, rfl, by decide, by decide⟩
    rw [htexts, hforms]
    obtain ⟨inside, hinside, hitems⟩ := items_bracket (skipsGaps_member (Reader.form depth))
      (by decide) (by decide) hstart hread indent '{' rest
    rw [hinside, Reader.form, skipSpace_cons_of_not_isSpace (by decide)]
    simp [hitems]

/-! ### Values -/

/-- The items of an array are printed one by one. -/
theorem prettyItems_eq_map (indent : Nat) (items : List Json) :
    prettyItems indent items = items.map (prettyAt indent) := by
  induction items with
  | nil => simp [prettyItems]
  | cons item items ih => simp [prettyItems, ih]

/-- The members of an object are printed one by one, with the key, a colon and
a space before the value. -/
theorem prettyMembers_eq_map (indent : Nat) (members : List (String × Json)) :
    prettyMembers indent members
      = members.map fun (key, value) => quote key ++ ':' :: ' ' :: prettyAt indent value := by
  induction members with
  | nil => simp [prettyMembers]
  | cons member members ih => simp [prettyMembers, ih]

/-- An array prints what its items print, whatever the indentation. -/
theorem prints_array {items : List (Json × Form)} (h : ∀ item ∈ items, Prints item.1 item.2) :
    Prints (.array (items.map Prod.fst)) (.array (items.map Prod.snd)) := by
  intro indent
  have hparts : ∀ part ∈ items.map fun item => (prettyAt (indent + 1) item.1, item.2),
      Writes part.1 part.2 := by
    intro part hpart
    obtain ⟨item, hitem, rfl⟩ := List.mem_map.1 hpart
    exact h item hitem (indent + 1)
  have hwrites := writes_array indent hparts
  rw [prettyAt, prettyItems_eq_map]
  simpa [Function.comp_def] using hwrites

/-- An object prints what its members print, under their keys and in their
order. -/
theorem prints_object {members : List (String × Json × Form)}
    (h : ∀ member ∈ members, Prints member.2.1 member.2.2) :
    Prints (.object (members.map fun member => (member.1, member.2.1)))
      (.object (members.map fun member => (some member.1, member.2.2))) := by
  intro indent
  have hparts : ∀ part ∈ members.map fun member =>
      (member.1, prettyAt (indent + 1) member.2.1, member.2.2), Writes part.2.1 part.2.2 := by
    intro part hpart
    obtain ⟨member, hmember, rfl⟩ := List.mem_map.1 hpart
    exact h member hmember (indent + 1)
  have hwrites := writes_object indent hparts
  rw [prettyAt, prettyMembers_eq_map]
  simpa [Function.comp_def, memberText] using hwrites

/-- A text that holds nothing but a printed value is read as the form that the
value prints, since as many levels are allowed as the text has characters. -/
theorem parseForm_pretty {value : Json} {form : Form} (h : Prints value form) :
    parseForm value.pretty.toList = some form := by
  have hread := (h 0).read (Nat.lt_succ_self _) []
  rw [List.append_nil] at hread
  rw [pretty, String.toList_ofList, parseForm, hread]
  rfl

end RouteDoc.Json
