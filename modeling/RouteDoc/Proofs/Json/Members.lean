import RouteDoc.Json.Parser
import RouteDoc.Proofs.Keyed

/-!
# `RouteDoc.Proofs.Json.Members`: the members of a parsed object

A JSON text may write a key twice, but an object that was read from a
text has distinct keys, because repeated keys are merged.

* `nodup_keys_merge`: merging leaves every key once.
* `nodup_keys_of_parse`: the keys of a parsed object are distinct.
* `parse_eq_object_iff`: a text is an object exactly when it writes
  members, and the object has these members, merged.
-/

set_option autoImplicit false

namespace RouteDoc.Json

variable {α : Type}

/-- Merged members have distinct keys, because each of them is put under its
key. -/
theorem nodup_keys_merge (members : List (String × α)) :
    ((merge members).map Prod.fst).Nodup :=
  Keyed.nodup_keys_foldl_put members List.Pairwise.nil

/-- The keys of an object that a form stands for are distinct, whatever the
form writes: only objects have keys, and theirs are merged. -/
theorem nodup_keys_of_valueWithin {depth : Nat} {form : Form} {members : List (String × Json)}
    (h : form.valueWithin depth = some (.object members)) : (members.map Prod.fst).Nodup := by
  cases form with
  | null => simp [Form.valueWithin] at h
  | bool b => simp [Form.valueWithin] at h
  | number lexeme => simp [Form.valueWithin] at h
  | string text => simp [Form.valueWithin] at h
  | array items => cases depth <;> simp [Form.valueWithin] at h
  | object forms =>
      cases depth with
      | zero => simp [Form.valueWithin] at h
      | succ depth =>
          simp only [Form.valueWithin, Option.map_eq_some_iff, Function.comp_apply,
            Json.object.injEq] at h
          obtain ⟨written, -, rfl⟩ := h
          exact nodup_keys_merge written

/-- The keys of a parsed object are distinct. -/
theorem nodup_keys_of_parse {text : List Char} {members : List (String × Json)}
    (h : parse text = some (.object members)) : (members.map Prod.fst).Nodup := by
  obtain ⟨form, -, hvalue⟩ := Option.bind_eq_some_iff.1 h
  exact nodup_keys_of_valueWithin hvalue

/-! ### As a text writes them -/

/-- The members that a text writes, if it is an object: with the keys
that it repeats. -/
def writtenMembers (text : List Char) : Option (List (String × Json)) :=
  match parseForm text with
  | some (.object members) => Form.membersWithin (maxDepth - 1) members
  | _ => none

/-- A text is parsed as an object if and only if it writes one, and the object
has the members that are written, merged. -/
theorem parse_eq_object_iff {text : List Char} {members : List (String × Json)} :
    parse text = some (.object members)
      ↔ ∃ written, writtenMembers text = some written ∧ merge written = members := by
  unfold parse writtenMembers
  cases parseForm text with
  | none => simp
  | some form =>
      cases form with
      | object forms =>
          rw [Option.bind_some, Form.value?, show maxDepth = 126 + 1 from rfl, Form.valueWithin]
          simp
      | number lexeme => simp [Form.value?, Form.valueWithin]
      | array items => simp [Form.value?, Form.valueWithin, maxDepth]
      | _ => simp [Form.value?, Form.valueWithin]

/-- A key that is repeated counts where it first stands. -/
theorem keys_merge (members : List (String × α)) :
    (merge members).map Prod.fst = (members.map Prod.fst).eraseDups :=
  Keyed.keys_foldl_put_nil members

/-- A key that is repeated has the value with which it stands last. -/
theorem find?_merge (key : String) (members : List (String × α)) :
    Keyed.find? Prod.fst key (merge members) = Keyed.find? Prod.fst key members.reverse := by
  rw [merge, Keyed.find?_foldl_put]
  exact Option.or_none

end RouteDoc.Json
