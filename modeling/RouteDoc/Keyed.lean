/-!
# `RouteDoc.Keyed`: lists whose members are told apart by a key

A keyed list holds at most one member per key, in the order in which
the keys first came. Putting a member replaces the one with the same
key where it stands, or goes to the end.

* `keys_put`: putting a member leaves the keys as they are, or appends
  the new one.
* `nodup_keys_put`: distinct keys stay distinct.
* `find?_put_self`, `find?_put_of_ne`: a put member is found under its
  key, and every other key finds what it found before.
* `put_of_find?`: putting back the member found under its key changes
  nothing.
-/

set_option autoImplicit false

namespace RouteDoc.Keyed

variable {κ α : Type} [DecidableEq κ]

/-- The member with the key `k`. -/
def find? (key : α → κ) (k : κ) (xs : List α) : Option α :=
  xs.find? fun x => key x = k

/-- `a` in the place of the member with its key, or at the end if there
is none. -/
def put (key : α → κ) (a : α) : List α → List α
  | [] => [a]
  | x :: xs => if key x = key a then a :: xs else x :: put key a xs

variable {key : α → κ} {a : α} {k : κ} {xs : List α}

/-- The keys after `put`: a key that is there keeps its place, a new
one comes last. -/
theorem keys_put :
    (put key a xs).map key
      = if key a ∈ xs.map key then xs.map key else xs.map key ++ [key a] := by
  induction xs with
  | nil => simp [put]
  | cons x xs ih =>
    by_cases h : key x = key a
    · simp [put, h]
    · simp only [put, h, if_false, List.map_cons, ih, List.mem_cons, Ne.symm h, false_or]
      split <;> simp

/-- A key is there after `put` exactly when it was there or is the new
member's. -/
theorem mem_keys_put : k ∈ (put key a xs).map key ↔ k ∈ xs.map key ∨ k = key a := by
  rw [keys_put]
  split
  · constructor
    · exact Or.inl
    · rintro (h | rfl) <;> assumption
  · simp

/-- Distinct keys stay distinct. -/
theorem nodup_keys_put (h : (xs.map key).Nodup) : ((put key a xs).map key).Nodup := by
  rw [keys_put]
  split
  · exact h
  · next hnew =>
    refine List.nodup_append.2 ⟨h, by simp, ?_⟩
    intro x hx y hy hxy
    simp only [List.mem_singleton] at hy
    exact hnew (hy ▸ hxy ▸ hx)

/-- A member that was put is found under its key. -/
@[simp] theorem find?_put_self : find? key (key a) (put key a xs) = some a := by
  induction xs with
  | nil => simp [put, find?]
  | cons x xs ih =>
    by_cases h : key x = key a
    · simp [put, h, find?]
    · simpa [put, h, find?] using ih

/-- A member that was put is found under its key, however the key is
written. -/
theorem find?_put_of_eq (h : key a = k) : find? key k (put key a xs) = some a :=
  h ▸ find?_put_self

/-- Putting a member leaves the search for any other key alone. -/
theorem find?_put_of_ne (h : k ≠ key a) : find? key k (put key a xs) = find? key k xs := by
  induction xs with
  | nil => simp [put, find?, Ne.symm h]
  | cons x xs ih =>
    by_cases hx : key x = key a
    · simp [put, hx, find?, Ne.symm h]
    · simp only [put, hx, if_false, find?, List.find?_cons] at ih ⊢
      split
      · rfl
      · exact ih

/-- A key finds nothing exactly when no member has it. -/
theorem find?_eq_none_iff : find? key k xs = none ↔ k ∉ xs.map key := by
  simp [find?]

/-- The member found under a key has that key. -/
theorem key_of_find? (h : find? key k xs = some a) : key a = k := by
  simpa using List.find?_some h

/-- Putting back what a key finds changes nothing. -/
theorem put_of_find? (h : find? key (key a) xs = some a) : put key a xs = xs := by
  induction xs with
  | nil => simp [find?] at h
  | cons x xs ih =>
    by_cases hx : key x = key a
    · simp only [find?, List.find?_cons, hx, decide_true, Option.some.injEq] at h
      simp [put, h]
    · simp only [find?, List.find?_cons, hx, decide_false] at h
      simp [put, hx, ih h]

end RouteDoc.Keyed
