import Mathlib.Data.List.Infix
import Mathlib.Data.List.TakeWhile
import RouteDoc.Dump.Entry
import RouteDoc.Placeholder
import RouteDoc.Proofs.Text.Search

/-!
# `RouteDoc.Proofs.Placeholder`: three ways to look for a placeholder

`Placeholder.names` goes through a URL once and remembers the name that
it is in the middle of. `Placeholder.hasAny` asks of every place whether a
placeholder stands there, and `Dump.inTemplate` whether a given name
occurs in braces. The first finds a name at exactly those places where a
text starts with it in braces, so the three agree on every name that a
placeholder can have.

* `namesFrom_none_eq`: the pass finds what stands at each place.
* `hasAny_iff`: there is a placeholder exactly when the pass finds one.
* `mem_names_iff`: a name is found exactly when it can be one and occurs
  in braces.
* `names_eq_map_sites`, `lists_sites`: the names that are found, with the
  places where they stand.
-/

set_option autoImplicit false

namespace RouteDoc.Placeholder

open RouteDoc.Text

variable {s : List Char}

/-- What a placeholder can be called: the name is not empty and holds no
brace and no slash. -/
def IsName (name : List Char) : Prop := name ≠ [] ∧ ∀ c ∈ name, isNameChar c = true

instance (name : List Char) : Decidable (IsName name) := inferInstanceAs (Decidable (_ ∧ _))

/-- The name that is complete at the next closing brace, if the characters
up to there belong to a name of which `read` has been read, last one
first. -/
def completed? (read s : List Char) : Option (List Char) :=
  if (s.dropWhile isNameChar).head? = some '}' ∧ read.reverse ++ s.takeWhile isNameChar ≠ [] then
    some (read.reverse ++ s.takeWhile isNameChar)
  else none

/-- The name of the placeholder that stands at the front of a text. -/
def nameAt? : List Char → Option (List Char)
  | '{' :: s => completed? [] s
  | _ => none

/-- A placeholder stands at the front of a text exactly when the text goes
on with its name and a closing brace. -/
theorem nameAt?_eq_some_iff {name : List Char} :
    nameAt? s = some name ↔ IsName name ∧ '{' :: (name ++ ['}']) <+: s := by
  constructor
  · intro h
    unfold nameAt? at h
    split at h
    · next s =>
      rw [completed?, Option.ite_none_right_eq_some, List.reverse_nil, List.nil_append] at h
      obtain ⟨⟨hhead, hne⟩, hname⟩ := h
      obtain rfl := Option.some.inj hname
      refine ⟨⟨hne, fun c hc => List.mem_takeWhile_imp hc⟩, ?_⟩
      obtain ⟨rest, hrest⟩ := List.head?_eq_some_iff.1 hhead
      refine ⟨rest, ?_⟩
      rw [List.cons_append, List.append_assoc, List.singleton_append, ← hrest,
        List.takeWhile_append_dropWhile]
    · cases h
  · rintro ⟨⟨hne, hname⟩, rest, rfl⟩
    have hclose : isNameChar '}' = false := by decide
    have htake : (name ++ '}' :: rest).takeWhile isNameChar = name := by
      rw [List.takeWhile_append_of_pos hname]
      simp [hclose]
    have hdrop : (name ++ '}' :: rest).dropWhile isNameChar = '}' :: rest := by
      rw [List.dropWhile_append_of_pos hname]
      simp [hclose]
    show completed? [] (name ++ ['}'] ++ rest) = some name
    rw [List.append_assoc, List.singleton_append]
    simp [completed?, htake, hdrop, hne]

/-- A character that can be part of a name is read on, and is the last one so
far. -/
theorem completed?_cons_nameChar {c : Char} (h : isNameChar c = true) (read s : List Char) :
    completed? read (c :: s) = completed? (c :: read) s := by
  simp [completed?, h]

/-- At any other character the name is over. It was one if that character
closes the brace and something was read before. -/
theorem completed?_cons_of_not_nameChar {c : Char} (h : isNameChar c = false)
    (read s : List Char) :
    completed? read (c :: s) = if c = '}' ∧ read ≠ [] then some read.reverse else none := by
  simp [completed?, h]

/-- A placeholder starts with a brace, so there is none where another
character stands. -/
theorem nameAt?_cons_of_ne {c : Char} (h : c ≠ '{') (s : List Char) : nameAt? (c :: s) = none := by
  unfold nameAt?
  split
  · next heq => exact absurd (List.cons.inj heq).1 h
  · rfl

/-- The names at the places of a text are the one at its first place, if there
is one there, and those at the places behind. -/
theorem filterMap_tails_cons (c : Char) (s : List Char) :
    (c :: s).tails.filterMap nameAt?
      = (nameAt? (c :: s)).toList ++ s.tails.filterMap nameAt? := by
  rw [List.tails_cons, List.filterMap_cons]
  cases nameAt? (c :: s) <;> rfl

/-- The pass completes the name that it is in the middle of, or gives it
up, and finds what stands at each place from there on. -/
theorem namesFrom_eq (reading : Option (List Char)) (s : List Char) :
    namesFrom reading s
      = (reading.bind (completed? · s)).toList ++ s.tails.filterMap nameAt? := by
  -- By induction on the text, for every name that may be open before it.
  induction s generalizing reading with
  | nil =>
      cases reading with
      | none => rfl
      | some read => simp [namesFrom, completed?, nameAt?]
  | cons c s ih =>
      have hended : ∀ d, isNameChar d = false → d ≠ '}' →
          reading.bind (completed? · (d :: s)) = none := by
        intro d hd hclose
        cases reading with
        | none => rfl
        | some read => simp [completed?_cons_of_not_nameChar hd, hclose]
      rw [filterMap_tails_cons, namesFrom.eq_def]
      simp only
      by_cases hopen : c = '{'
      · -- A name that was begun is given up for the one that opens here.
        subst hopen
        rw [if_pos rfl, ih, hended _ (by decide) (by decide)]
        rfl
      · rw [if_neg hopen, nameAt?_cons_of_ne hopen]
        by_cases hslash : c = '/'
        · subst hslash
          rw [if_pos rfl, ih, hended _ (by decide) (by decide)]
          rfl
        · rw [if_neg hslash]
          cases reading with
          | none => exact ih none
          | some read =>
              by_cases hclose : c = '}'
              · subst hclose
                rw [Option.bind_some, completed?_cons_of_not_nameChar (by decide)]
                cases read with
                | nil => simp [ih]
                | cons d read => simp [ih]
              · have hc : isNameChar c = true := by simp [isNameChar, hopen, hclose, hslash]
                simp only [hclose, if_false]
                rw [ih, Option.bind_some, Option.bind_some, completed?_cons_nameChar hc]
                rfl

/-- The names that one pass over the text finds are those at each of its
places. Where a name breaks off, the pass loses nothing: no placeholder could
have started inside it. -/
theorem namesFrom_none_eq (s : List Char) : namesFrom none s = s.tails.filterMap nameAt? :=
  namesFrom_eq none s

/-- A name is found exactly when it can be one and occurs in braces. Whether
it occurs is what the import of a dump asks, so the two readers of a URL agree
on it. -/
theorem mem_names_iff {url name : String} :
    name ∈ names url ↔ IsName name.toList ∧ Dump.inTemplate url name = true := by
  have htext : (text name).toList = '{' :: (name.toList ++ ['}']) := by
    simp [text]
  rw [Dump.inTemplate, occursIn_iff, htext, names, namesFrom_none_eq]
  constructor
  · intro h
    obtain ⟨chars, hchars, rfl⟩ := List.mem_map.1 h
    obtain ⟨tail, htail, hname⟩ := List.mem_filterMap.1 hchars
    obtain ⟨hisName, hprefix⟩ := nameAt?_eq_some_iff.1 hname
    rw [String.toList_ofList]
    exact ⟨hisName, hprefix.isInfix.trans ((List.mem_tails _ _).1 htail).isInfix⟩
  · rintro ⟨hisName, hinfix⟩
    obtain ⟨tail, hprefix, hsuffix⟩ := List.infix_iff_prefix_suffix.1 hinfix
    refine List.mem_map.2 ⟨name.toList, ?_, String.ofList_toList⟩
    exact List.mem_filterMap.2
      ⟨tail, (List.mem_tails _ _).2 hsuffix, nameAt?_eq_some_iff.2 ⟨hisName, hprefix⟩⟩

/-! ### Whether there is one -/

/-- The test for a placeholder at the first place says the same as the search
for the name there, which looks at each character only once. -/
theorem standsFirst_eq (s : List Char) : standsFirst s = (nameAt? s).isSome := by
  unfold standsFirst
  split
  · next s =>
    show _ = (completed? [] s).isSome
    rw [Bool.eq_iff_iff, completed?, Option.isSome_ite]
    simp [and_comm]
  · next hopen =>
    -- Without an opening brace there is no name either.
    unfold nameAt?
    split
    · next s => exact absurd rfl (hopen s)
    · rfl

/-- The test for a placeholder anywhere is positive if and only if there is a
place with a name. -/
theorem standsIn_iff : standsIn s = true ↔ s.tails.filterMap nameAt? ≠ [] := by
  induction s with
  | nil => simp [standsIn, nameAt?]
  | cons c s ih =>
      rw [standsIn, Bool.or_eq_true, ih, filterMap_tails_cons, standsFirst_eq]
      cases nameAt? (c :: s) <;> simp

/-- There is a placeholder exactly when the pass finds one. The test and the
pass are written separately, and both look at every place. -/
theorem hasAny_iff {url : String} : hasAny url = true ↔ names url ≠ [] := by
  rw [hasAny, standsIn_iff, names, namesFrom_none_eq, ne_eq, ne_eq, List.map_eq_nil_iff]

/-! ### Where they stand -/

/-- A placeholder of the given name stands in the URL, behind as many
characters as `position` says. -/
def StandsAt (url : String) (position : Nat) (name : String) : Prop :=
  IsName name.toList ∧ ∃ before after,
    url.toList = before ++ (text name).toList ++ after ∧ before.length = position

/-- The list has every placeholder of the URL with its position, once and in
order. -/
structure Lists (sites : List (Nat × String)) (url : String) : Prop where
  ordered : sites.Pairwise fun a b => a.1 < b.1
  mem_iff : ∀ position name, (position, name) ∈ sites ↔ StandsAt url position name

/-- The placeholders of a URL with their positions. -/
def sites (url : String) : List (Nat × String) :=
  url.toList.tails.zipIdx.filterMap fun (tail, position) =>
    (nameAt? tail).map fun name => (position, String.ofList name)

/-- The pass finds the names of all placeholders, each as often as it stands
in the URL. -/
theorem names_eq_map_sites (url : String) : names url = (sites url).map Prod.snd := by
  have hfirst : url.toList.tails = url.toList.tails.zipIdx.map Prod.fst :=
    (List.zipIdx_map_fst 0 _).symm
  rw [names, namesFrom_none_eq, hfirst, List.filterMap_map, List.map_filterMap, sites,
    List.map_filterMap]
  refine List.filterMap_congr fun site _ => ?_
  rw [Option.map_map]
  rfl

/-- A placeholder of a given name stands at a position if and only if its name
is found in what is left of the URL from there on. -/
theorem standsAt_iff {url name : String} {position : Nat} :
    StandsAt url position name ↔
      ∃ tail, url.toList.tails[position]? = some tail ∧ nameAt? tail = some name.toList := by
  have htext : (text name).toList = '{' :: (name.toList ++ ['}']) := by
    simp [text]
  rw [StandsAt, htext]
  constructor
  · rintro ⟨hname, before, after, hurl, rfl⟩
    -- The tail at a position is what is left when the characters before it are dropped.
    refine ⟨'{' :: (name.toList ++ ['}']) ++ after, ?_, ?_⟩
    · have hlength : before.length < url.toList.tails.length := by
        rw [List.length_tails, hurl]
        simp only [List.length_append]
        omega
      rw [List.getElem?_eq_getElem hlength, List.getElem_tails, hurl, List.append_assoc,
        List.drop_left]
    · exact nameAt?_eq_some_iff.2 ⟨hname, List.prefix_append _ _⟩
  · rintro ⟨tail, htail, hname⟩
    obtain ⟨hlength, htail⟩ := List.getElem?_eq_some_iff.1 htail
    rw [List.getElem_tails] at htail
    rw [List.length_tails] at hlength
    obtain ⟨hisName, after, hafter⟩ := nameAt?_eq_some_iff.1 hname
    refine ⟨hisName, url.toList.take position, after, ?_, ?_⟩
    · rw [List.append_assoc, hafter, ← htail, List.take_append_drop]
    · rw [List.length_take]
      omega

/-- The sites that are read off the tails of a URL list its placeholders: in
order, because the tails are numbered from the front, and all of them with
their names, because a tail has at most one at its start. -/
theorem lists_sites (url : String) : Lists (sites url) url where
  ordered := by
    -- The tails are numbered upwards, and each has at most one placeholder.
    have hpositions : url.toList.tails.zipIdx.Pairwise fun a b => a.2 < b.2 := by
      rw [← List.pairwise_map (f := Prod.snd) (R := (· < ·)), List.zipIdx_map_snd]
      exact List.pairwise_lt_range' 1
    refine hpositions.filterMap _ fun a b hab site hsite site' hsite' => ?_
    obtain ⟨_, -, rfl⟩ := Option.map_eq_some_iff.1 hsite
    obtain ⟨_, -, rfl⟩ := Option.map_eq_some_iff.1 hsite'
    exact hab
  mem_iff position name := by
    rw [standsAt_iff, sites, List.mem_filterMap]
    constructor
    · rintro ⟨⟨tail, i⟩, htail, hsite⟩
      obtain ⟨chars, hchars, hsite⟩ := Option.map_eq_some_iff.1 hsite
      obtain ⟨rfl, rfl⟩ := Prod.mk.inj hsite
      refine ⟨tail, List.mem_zipIdx_iff_getElem?.1 htail, ?_⟩
      rw [hchars, String.toList_ofList]
    · rintro ⟨tail, htail, hname⟩
      refine ⟨(tail, position), List.mem_zipIdx_iff_getElem?.2 htail, ?_⟩
      simp only [hname, Option.map_some, String.ofList_toList]

/-- Of two braces that open in a row only the second can start a
placeholder, and a slash ends what was begun. -/
example : sites "/{{id}/{a/b}{id}}" = [(2, "id"), (12, "id")] := by
  decide

end RouteDoc.Placeholder
