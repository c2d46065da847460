import RouteDoc.Keyed

/-!
# `RouteDoc.OrderedMap`: maps that keep the order of insertion

An ordered map is a list of pairs with distinct first components. The
first insertion of a key fixes its place, the last one its value.

* `keys_insert`: what an insertion does to the keys.
* `get?_insert_self`, `get?_insert_of_ne`: what it does to the values.
* `ext_entries`: a map is its list of pairs.
-/

set_option autoImplicit false

namespace RouteDoc

/-- A map from `κ` to `α` whose pairs stand in the order in which
their keys were first inserted. -/
structure OrderedMap (κ α : Type) where
  /-- The pairs, in order. -/
  entries : List (κ × α)
  /-- No key comes twice. -/
  distinct : (entries.map Prod.fst).Nodup
  deriving DecidableEq, Repr

namespace OrderedMap

variable {κ α : Type}

/-- A map is determined by its list of pairs. -/
theorem ext_entries {m n : OrderedMap κ α} (h : m.entries = n.entries) : m = n := by
  cases m; cases n; simp_all

/-- The map without pairs. -/
def empty : OrderedMap κ α := ⟨[], List.Pairwise.nil⟩

instance : Inhabited (OrderedMap κ α) := ⟨empty⟩
instance : EmptyCollection (OrderedMap κ α) := ⟨empty⟩

/-- The keys, in order. -/
def keys (m : OrderedMap κ α) : List κ := m.entries.map Prod.fst

/-- The values, in order of their keys. -/
def values (m : OrderedMap κ α) : List α := m.entries.map Prod.snd

/-- Whether there are no pairs. -/
def isEmpty (m : OrderedMap κ α) : Bool := m.entries.isEmpty

/-- The first pair. -/
def head? (m : OrderedMap κ α) : Option (κ × α) := m.entries.head?

/-- The keys of a map are distinct. -/
theorem nodup_keys (m : OrderedMap κ α) : m.keys.Nodup := m.distinct

variable [DecidableEq κ]

/-- The value under `k`. -/
def get? (m : OrderedMap κ α) (k : κ) : Option α :=
  (Keyed.find? Prod.fst k m.entries).map Prod.snd

/-- Whether there is a value under `k`. -/
def contains (m : OrderedMap κ α) (k : κ) : Bool := (m.get? k).isSome

/-- The map with `a` under `k`: in the place of an earlier value, or at
the end. -/
def insert (m : OrderedMap κ α) (k : κ) (a : α) : OrderedMap κ α :=
  ⟨Keyed.put Prod.fst (k, a) m.entries, Keyed.nodup_keys_put m.distinct⟩

/-- The map with `f` applied to the value under `k`; a key that is not
there gets `f fresh` at the end. -/
def update (m : OrderedMap κ α) (k : κ) (fresh : α) (f : α → α) : OrderedMap κ α :=
  m.insert k (f ((m.get? k).getD fresh))

/-- The map that results from inserting the pairs one by one: a
repeated key keeps its first place and takes its last value. -/
def ofList (pairs : List (κ × α)) : OrderedMap κ α :=
  pairs.foldl (fun m (k, a) => m.insert k a) empty

variable {m : OrderedMap κ α} {k l : κ} {a : α}

/-- The pairs after an insertion. -/
@[simp] theorem entries_insert : (m.insert k a).entries = Keyed.put Prod.fst (k, a) m.entries :=
  rfl

/-- The keys after an insertion: a key that is there keeps its place, a
new one comes last. -/
theorem keys_insert :
    (m.insert k a).keys = if k ∈ m.keys then m.keys else m.keys ++ [k] :=
  Keyed.keys_put

/-- An inserted value is found under its key. -/
@[simp] theorem get?_insert_self : (m.insert k a).get? k = some a := by
  have h : Keyed.find? Prod.fst k (Keyed.put Prod.fst (k, a) m.entries) = some (k, a) :=
    Keyed.find?_put_of_eq rfl
  exact congrArg (Option.map Prod.snd) h

/-- An insertion leaves the other keys alone. -/
theorem get?_insert_of_ne (h : l ≠ k) : (m.insert k a).get? l = m.get? l := by
  have : Keyed.find? Prod.fst l (Keyed.put Prod.fst (k, a) m.entries)
      = Keyed.find? Prod.fst l m.entries := Keyed.find?_put_of_ne h
  simp [get?, this]

/-- A key finds nothing exactly when it is not among the keys. -/
theorem get?_eq_none_iff : m.get? k = none ↔ k ∉ m.keys := by
  simp only [get?, Option.map_eq_none_iff]
  exact Keyed.find?_eq_none_iff

end OrderedMap

end RouteDoc
