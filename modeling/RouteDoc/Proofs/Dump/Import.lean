import Mathlib.Data.List.Forall2
import RouteDoc.Dump.Import
import RouteDoc.Proofs.RouteSet.Index

/-!
# `RouteDoc.Proofs.Dump.Import`: what a dump does to a list of routes

An entry of a dump that can be read updates the first route of its
name, or appends one; an entry that cannot be read does nothing. A
whole dump is therefore a fold of `Route.upsert` over the entries that
can be read (`usable`), and the set of routes is only the list with its
indexes:

* `routes_importEntries`: the list after a dump is `absorb` of the list
  before.
* `indexed_importEntries`: the indexes stay right.
* `slashesUnescaped_plainSlashes`, `forall₂_usable`: the URL of an entry is
  its path with plain slashes.
* `read_value_eq_some_iff`: which entries can be read, and what of.
-/

set_option autoImplicit false

namespace RouteDoc

/-! ### What an update leaves alone -/

/-- Updating a verb keeps the URL and the name of the route. -/
theorem Route.identity_update (r : Route) (v : Verb) (f : Profile → Profile) :
    (r.update v f).identity = r.identity := rfl

namespace Dump

open Route

/-- An entry changes the profiles of a route and nothing else. The indexes of
the set depend on URLs and names only, which is why an import keeps them. -/
theorem keepsIdentity_apply (e : Entry) : KeepsIdentity e.apply := by
  have hkeep : ∀ (vs : List Verb) (r : Route),
      (vs.foldl (fun r v => r.update v e.applyToProfile) r).identity = r.identity := by
    intro vs
    induction vs with
    | nil => intro r; rfl
    | cons v vs ih => intro r; exact (ih _).trans (r.identity_update v _)
  exact ⟨fun r => congrArg Prod.fst (hkeep e.verbs r), fun r => congrArg Prod.snd (hkeep e.verbs r)⟩

/-! ### Escaped slashes -/

/-- Joining pieces when the first of them gains a character in front: so does
the text. -/
theorem intercalate_cons_head (separator : List Char) (c : Char) (piece : List Char)
    (pieces : List (List Char)) :
    separator.intercalate ((c :: piece) :: pieces)
      = c :: separator.intercalate (piece :: pieces) := by
  cases pieces <;> rfl

/-- A path is cut at its escaped slashes, and the pieces are joined with
plain ones. The induction follows the replacement: an escaped slash starts
a new piece, and any other character goes in front of the first one. -/
theorem pieces_of_plainSlashes (path : List Char) :
    ∃ first rest, path = ['\\', '/'].intercalate (first :: rest) ∧
      (∀ piece ∈ first :: rest, ¬['\\', '/'] <:+: piece) ∧
      plainSlashes path = ['/'].intercalate (first :: rest) := by
  induction path using plainSlashes.induct with
  | case1 => exact ⟨[], [], rfl, by simp, rfl⟩
  | case2 path ih =>
      obtain ⟨first, rest, hpath, hfree, hplain⟩ := ih
      refine ⟨[], first :: rest, by rw [List.intercalate_cons_cons, ← hpath]; rfl, ?_, ?_⟩
      · exact List.forall_mem_cons.2 ⟨by simp, hfree⟩
      · rw [plainSlashes, hplain, List.intercalate_cons_cons]
        rfl
  | case3 c path hescape ih =>
      obtain ⟨first, rest, hpath, hfree, hplain⟩ := ih
      obtain ⟨hfirst, hrest⟩ := List.forall_mem_cons.1 hfree
      refine ⟨c :: first, rest, by rw [intercalate_cons_head, ← hpath],
        List.forall_mem_cons.2 ⟨fun hinfix => ?_, hrest⟩, ?_⟩
      · -- A separator in the longer piece would start with `c`.
        obtain hprefix | hinside := List.infix_cons_iff.1 hinfix
        · obtain ⟨hc, tail, htail⟩ := List.cons_prefix_cons.1 hprefix
          subst htail
          exact hescape _ hc.symm (hpath.trans (intercalate_cons_head _ _ _ _))
        · exact hfirst hinside
      · rw [plainSlashes.eq_3 c path hescape, hplain, intercalate_cons_head]

/-- `plain` is `text` with a plain slash for every escaped one: between
the slashes both have the same pieces, and no piece has an escaped slash. -/
def SlashesUnescaped (text plain : List Char) : Prop :=
  ∃ pieces : List (List Char), text = ['\\', '/'].intercalate pieces ∧
    (∀ piece ∈ pieces, ¬['\\', '/'] <:+: piece) ∧ plain = ['/'].intercalate pieces

/-- `plainSlashes` replaces the escaped slashes of every text, in the sense of
`SlashesUnescaped`. -/
theorem slashesUnescaped_plainSlashes (text : List Char) :
    SlashesUnescaped text (plainSlashes text) := by
  obtain ⟨first, rest, htext, hfree, hplain⟩ := pieces_of_plainSlashes text
  exact ⟨first :: rest, htext, hfree, hplain⟩

/-! ### The entries that can be read -/

/-- The path that a description gives: the text of its member `path`. -/
def pathOf? : Json → Option String
  | .object fields => (Json.member? "path" fields).bind Json.string?
  | _ => none

/-- The entries of a dump that can be read, in order. -/
def usable (entries : List (String × Json)) : List Entry :=
  entries.filterMap fun (name, description) => (Entry.read name description).value

/-- An entry can be read exactly when it is an object with a path. Its
name is its key, its URL is the path with plain slashes. -/
theorem map_read_value (name : String) (description : Json) :
    (Entry.read name description).value.map (fun e => (e.url, e.name))
      = (pathOf? description).map fun path => (Text.onChars plainSlashes path, name) := by
  cases description with
  | object fields =>
      simp only [Entry.read, pathOf?]
      cases (Json.member? "path" fields).bind Json.string? <;> rfl
  | _ => rfl

/-- An entry has the name under which it stands in the dump. -/
theorem name_of_read {name : String} {description : Json} {e : Entry}
    (h : (Entry.read name description).value = some e) : e.name = name := by
  have hmap := map_read_value name description
  rw [h, Option.map_some] at hmap
  obtain ⟨path, -, hpath⟩ := Option.map_eq_some_iff.1 hmap.symm
  exact (congrArg Prod.snd hpath).symm

/-- The URLs and names of the entries that can be read, each from its own
description. -/
theorem identities_usable (entries : List (String × Json)) :
    (usable entries).map (fun e => (e.url, e.name))
      = entries.filterMap fun (name, description) =>
          (pathOf? description).map fun path => (Text.onChars plainSlashes path, name) := by
  rw [usable, List.map_filterMap]
  congr 1
  funext entry
  exact map_read_value entry.1 entry.2

/-- The entries that can be read stand in the order of the descriptions
that have a path. Each has its key for a name, and its path with plain
slashes for a URL. -/
theorem forall₂_usable (entries : List (String × Json)) :
    List.Forall₂ (fun e (path, name) =>
        SlashesUnescaped path.toList e.url.toList ∧ e.name = name) (usable entries)
      (entries.filterMap fun (name, description) =>
        (pathOf? description).map fun path => (path, name)) := by
  have hidentities : (usable entries).map (fun e => (e.url, e.name))
      = (entries.filterMap fun (name, description) =>
          (pathOf? description).map fun path => (path, name)).map
        fun (path, name) => (Text.onChars plainSlashes path, name) := by
    rw [identities_usable, List.map_filterMap]
    simp only [Option.map_map, Function.comp_def]
  rw [← List.forall₂_eq_eq_eq, List.forall₂_map_left_iff, List.forall₂_map_right_iff]
    at hidentities
  refine hidentities.imp fun e (path, name) heq => ?_
  rw [Prod.mk.injEq] at heq
  refine ⟨?_, heq.2⟩
  rw [heq.1, Text.onChars, String.toList_ofList]
  exact slashesUnescaped_plainSlashes path.toList

/-- The names of the entries that can be read are among the keys, in
the same order. -/
theorem names_usable_sublist (entries : List (String × Json)) :
    ((usable entries).map Entry.name).Sublist (entries.map Prod.fst) := by
  induction entries with
  | nil => exact List.Sublist.refl _
  | cons entry entries ih =>
      obtain ⟨name, description⟩ := entry
      cases hread : (Entry.read name description).value with
      | none =>
          simp only [usable, List.filterMap_cons, hread, List.map_cons]
          exact ih.cons _
      | some e =>
          simp only [usable, List.filterMap_cons, hread, List.map_cons, name_of_read hread]
          exact ih.cons_cons _

/-! ### A whole dump -/

/-- A list of routes after entries of a dump, one by one. -/
def absorb (es : List Entry) (rs : List Route) : List Route :=
  es.foldl (fun rs e => upsert e.url e.name e.apply rs) rs

/-- One entry of a dump is an update by its name, or nothing. -/
theorem value_importEntry (s : RouteSet) (name : String) (description : Json) :
    (importEntry s name description).value
      = match (Entry.read name description).value with
        | none => s
        | some e => s.updateByName e.url e.name e.apply := by
  simp only [importEntry, Noted.value_bind]
  cases hread : (Entry.read name description).value with
  | none => rfl
  | some e =>
      obtain rfl := name_of_read hread
      rfl

/-- Importing an entry keeps the index of names right. -/
theorem named_importEntry {s : RouteSet} (h : s.Named) (name : String) (description : Json) :
    (importEntry s name description).value.Named := by
  rw [value_importEntry]
  split
  · exact h
  · exact h.updateByName _ _ (keepsIdentity_apply _).name

/-- Importing an entry keeps both indexes right. -/
theorem indexed_importEntry {s : RouteSet} (h : s.Indexed) (name : String) (description : Json) :
    (importEntry s name description).value.Indexed := by
  rw [value_importEntry]
  split
  · exact h
  · exact RouteSet.indexed_updateByName h (keepsIdentity_apply _)

/-- Importing all the entries of a dump keeps both indexes right. -/
theorem indexed_importEntries {s : RouteSet} (h : s.Indexed) (entries : List (String × Json)) :
    (importEntries s entries).value.Indexed := by
  induction entries generalizing s with
  | nil => exact h
  | cons entry entries ih => exact ih (indexed_importEntry h entry.1 entry.2)

/-- The routes after a dump: every entry that can be read has changed
or appended the route of its name. -/
theorem routes_importEntries {s : RouteSet} (h : s.Named) (entries : List (String × Json)) :
    (importEntries s entries).value.routes = absorb (usable entries) s.routes := by
  induction entries generalizing s with
  | nil => rfl
  | cons entry entries ih =>
      obtain ⟨name, description⟩ := entry
      -- The first entry keeps the index right, so the rest starts from a good set.
      rw [importEntries_cons, ih (named_importEntry h name description), value_importEntry]
      cases hread : (Entry.read name description).value with
      | none => simp [usable, hread]
      | some e =>
          simp [usable, hread, absorb, h.routes_updateByName]

/-- Absorbing entries never drops or reorders a route: the routes there were
stay in front, with their URLs and names. -/
theorem prefix_absorb (es : List Entry) (rs : List Route) :
    rs.map identity <+: (absorb es rs).map identity := by
  induction es generalizing rs with
  | nil => exact List.prefix_refl _
  | cons e es ih =>
      refine List.IsPrefix.trans ?_ (ih _)
      rw [identities_upsert (keepsIdentity_apply e)]
      split
      · exact List.prefix_refl _
      · exact List.prefix_append _ _

end Dump

end RouteDoc
