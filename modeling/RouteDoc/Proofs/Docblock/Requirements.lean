import RouteDoc.Proofs.Docblock.Pairs
import RouteDoc.Proofs.Json.Object

/-!
# `RouteDoc.Proofs.Docblock.Requirements`: a block of requirements is read

A block of requirements goes through three rewrites before it is read as
JSON: stars are dropped, `=` behind a quote becomes a colon, and backslashes
are doubled. None of them knows where a text in quotes starts and ends.

Still each of them makes a block of a block. The first and the last one look
at single characters. The second one looks back to the last quote, so it is
followed from pair to pair, with the blanks that have been seen since that
quote. It takes the mark of the pair for what it is, as long as the key does
not start with `=`. At the start of a value it may turn an `=` into a colon,
but it never lets a value come to an end. The backslashes are doubled last,
so a value that ends in a backslash does not hide its closing quote.

So the values do not matter, and the keys come out as they were written.

* `assignmentsFrom_text`: the second rewrite.
* `takes_member`: a pair is read as a member, up to the blanks behind it.
* `requirementKeys_text`: the keys of a block.
* `requirementKeys_of_written`: the same, and that the values do not matter.
-/

set_option autoImplicit false

namespace RouteDoc.Docblock

open RouteDoc.Text
open RouteDoc.Json.Reader (IsGap ReadsAs SkipsGaps Takes Opens)

variable {s : List Char} {p : WrittenPair} {b : WrittenBlock}

/-! ### Texts in quotes -/

/-- The text may stand in a JSON string as it is, but for its backslashes. -/
def IsPlain (s : List Char) : Prop := ∀ c ∈ s, c ≠ '"' ∧ ' ' ≤ c

instance (s : List Char) : Decidable (IsPlain s) :=
  inferInstanceAs (Decidable (∀ c ∈ s, c ≠ '"' ∧ ' ' ≤ c))

/-- A plain text has no double quote. -/
theorem IsPlain.quote_not_mem (h : IsPlain s) : '"' ∉ s := fun hmem => (h _ hmem).1 rfl

/-- With its backslashes doubled, a text is the inside of a string that
has the text as its value. -/
theorem readsAs_escapeBackslashes (h : IsPlain s) :
    ReadsAs (escapeBackslashes s) (String.ofList s) := by
  intro rest
  have hpieces : Json.Reader.pieces (escapeBackslashes s ++ '"' :: rest)
      = some (s.map .char, rest) := by
    induction s with
    | nil => rfl
    | cons c s ih =>
        obtain ⟨⟨hquote, hcontrol⟩, hs⟩ := List.forall_mem_cons.1 h
        have hrest := ih hs
        rw [escapeBackslashes] at hrest ⊢
        rw [List.flatMap_cons, List.append_assoc]
        -- A backslash is doubled and read as one; any other character is read as itself.
        by_cases hc : c = '\\'
        · subst hc
          rw [if_pos rfl, List.cons_append, List.singleton_append, Json.Reader.pieces_escape rfl,
            hrest]
          rfl
        · rw [if_neg hc, List.singleton_append,
            Json.Reader.pieces_cons hc hquote hcontrol, hrest]
          rfl
  rw [Json.Reader.string, hpieces]
  simp [Json.Reader.assemble_chars]

/-! ### Marks become colons -/

/-- Without a double quote there is nothing to rewrite, since only a quote
opens a run of blanks that could end in an `=`. -/
theorem assignmentsFrom_none_append (h : '"' ∉ s) (rest : List Char) :
    assignmentsFrom none (s ++ rest) = s ++ assignmentsFrom none rest := by
  -- Only a double quote would open a run of blanks.
  induction s with
  | nil => rfl
  | cons c s ih =>
      rw [List.mem_cons, not_or] at h
      rw [List.cons_append, assignmentsFrom, if_neg (Ne.symm h.1), ih h.2]
      rfl

/-- So a text without double quotes stays as it is. -/
theorem assignmentsFrom_none_eq_self (h : '"' ∉ s) : assignmentsFrom none s = s := by
  have hread := assignmentsFrom_none_append h []
  rwa [List.append_nil, assignmentsFrom, Option.getD_none, List.reverse_nil,
    List.append_nil] at hread

/-- Blanks behind a double quote are kept in mind, to be put back unless an
`=` follows. -/
theorem assignmentsFrom_blanks_append (h : IsBlankText s) (read rest : List Char) :
    assignmentsFrom (some read) (s ++ rest) = assignmentsFrom (some (s.reverse ++ read)) rest := by
  -- By induction on the blanks, whatever has been read of the run before them.
  induction s generalizing read with
  | nil => rfl
  | cons c s ih =>
      obtain ⟨hc, hs⟩ := List.forall_mem_cons.1 h
      have hequals : c ≠ '=' := by
        rintro rfl
        exact absurd hc (by decide)
      rw [List.cons_append, assignmentsFrom, if_neg hequals, if_pos hc, ih hs]
      simp

/-- They are put back in front of a character that is neither blank nor
`=`. -/
theorem assignmentsFrom_blanks_cons (h : IsBlankText s) {c : Char} (hblank : isBlank c = false)
    (hequals : c ≠ '=') (hquote : c ≠ '"') (rest : List Char) :
    assignmentsFrom (some []) (s ++ c :: rest) = s ++ c :: assignmentsFrom none rest := by
  rw [assignmentsFrom_blanks_append h, assignmentsFrom, if_neg hequals, hblank, if_neg hquote]
  simp

/-- A double quote ends a run of blanks and starts a new one, so what
comes before it is rewritten by itself. -/
theorem assignmentsFrom_append_quote (blanks : Option (List Char)) (s rest : List Char) :
    assignmentsFrom blanks (s ++ '"' :: rest)
      = assignmentsFrom blanks s ++ '"' :: assignmentsFrom (some []) rest := by
  -- By induction on `s`, whatever run of blanks is open before it.
  induction s generalizing blanks with
  | nil =>
      cases blanks with
      | none => rfl
      | some blanks =>
          have hblank : isBlank '"' = false := by decide
          simp [assignmentsFrom, hblank]
  | cons c s ih =>
      cases blanks with
      | none => simp [assignmentsFrom, ih]
      | some blanks =>
          rw [List.cons_append, assignmentsFrom, assignmentsFrom]
          split
          · simp [ih]
          · split
            · exact ih _
            · simp [ih]

/-- A text in quotes stays as it is if it does not start with `=`, with or
without blanks before it. -/
theorem assignmentsFrom_eq_self (hquote : '"' ∉ s) (hstart : (trimStart s).head? ≠ some '=') :
    assignmentsFrom (some []) s = s := by
  have hs : s.takeWhile isBlank ++ trimStart s = s := List.takeWhile_append_dropWhile
  have hblanks : IsBlankText (s.takeWhile isBlank) := fun c hc => List.mem_takeWhile_imp hc
  cases hrest : trimStart s with
  | nil =>
      -- The run of blanks is still open at the end, and is put back there.
      rw [hrest] at hs
      rw [← hs, assignmentsFrom_blanks_append hblanks]
      simp [assignmentsFrom]
  | cons c rest =>
      -- The first character behind the blanks ends the run, and is no `=`.
      have hblank : isBlank c = false := by
        have hhead := List.head?_dropWhile_not isBlank s
        rw [← trimStart, hrest] at hhead
        simpa using hhead
      have hmem : ∀ d ∈ c :: rest, d ∈ s := by
        intro d hd
        rw [← hs, hrest]
        exact List.mem_append_right _ hd
      have hequals : c ≠ '=' := by
        rintro rfl
        exact hstart (by rw [hrest]; rfl)
      have hc : c ≠ '"' := by
        rintro rfl
        exact hquote (hmem _ (by simp))
      have hbehind : '"' ∉ rest := fun h => hquote (hmem _ (List.mem_cons_of_mem _ h))
      calc assignmentsFrom (some []) s
          = assignmentsFrom (some []) (s.takeWhile isBlank ++ c :: rest) := by rw [← hrest, hs]
        _ = s.takeWhile isBlank ++ c :: rest := by
            rw [assignmentsFrom_blanks_cons hblanks hblank hequals hc,
              assignmentsFrom_none_eq_self hbehind]
        _ = s := by rw [← hrest, hs]

/-- The rewrite makes no characters but colons. All others are those of the
text and of the blanks before it. -/
theorem mem_assignmentsFrom {blanks : Option (List Char)} {s : List Char} {c : Char}
    (h : c ∈ assignmentsFrom blanks s) : c ∈ blanks.getD [] ∨ c ∈ s ∨ c = ':' := by
  have hfresh : ∀ d : Char,
      (if d = '"' then some [] else none : Option (List Char)).getD [] = [] := by
    intro d
    split <;> rfl
  -- By induction on the text: a run of blanks is put back, or a colon stands for it.
  induction s generalizing blanks with
  | nil => exact Or.inl (by simpa [assignmentsFrom] using h)
  | cons d s ih =>
      cases blanks with
      | none =>
          rw [assignmentsFrom, List.mem_cons] at h
          rcases h with rfl | h
          · simp
          · have := ih h
            rw [hfresh] at this
            simpa using this.imp_right (Or.imp_left Or.inr)
      | some blanks =>
          rw [assignmentsFrom] at h
          split at h
          · rcases List.mem_cons.1 h with rfl | h
            · simp
            · have := ih h
              simp only [Option.getD_none, List.not_mem_nil, false_or] at this
              exact Or.inr (this.imp_left (List.mem_cons_of_mem d))
          · split at h
            · have := ih h
              simp only [Option.getD_some, List.mem_cons] at this ⊢
              rcases this with (h | h) | h | h <;> simp [h]
            · simp only [List.mem_append, List.mem_reverse, List.mem_cons] at h
              rcases h with h | rfl | h
              · exact Or.inl h
              · simp
              · have := ih h
                rw [hfresh] at this
                simp only [List.not_mem_nil, false_or, List.mem_cons] at this ⊢
                exact Or.inr (this.imp_left Or.inr)

/-- The rewrite brings no quote and no control character into a text. -/
theorem IsPlain.assignmentsFrom (h : IsPlain s) : IsPlain (assignmentsFrom (some []) s) := by
  intro c hc
  rcases mem_assignmentsFrom hc with hc | hc | rfl
  · cases hc
  · exact h c hc
  · decide

/-- Leaving out the stars brings none into it either. -/
theorem IsPlain.unsetStars (h : IsPlain s) : IsPlain (unsetStars s) :=
  fun c hc => h c (mem_of_mem_unsetStars hc)

/-! ### Pairs of a block of requirements -/

/-- What must be true of a pair for the reader to take it for a member: the
key and the value can stand in a JSON string, the key has no star and does
not start with `=`, and there are only such blanks around as JSON has. Those
before `=` may be any. -/
structure WrittenPair.IsRequirement (p : WrittenPair) : Prop where
  key : IsPlain p.key
  star : '*' ∉ p.key
  start : (trimStart p.key).head? ≠ some '='
  value : IsPlain p.value
  joint : p.joint = '=' ∧ IsBlankText p.behindKey ∨ p.joint = ':' ∧ IsGap p.behindKey
  lead : IsGap p.lead
  beforeValue : IsGap p.beforeValue
  behindValue : IsGap p.behindValue

instance (gap : List Char) : Decidable (IsGap gap) := inferInstanceAs (Decidable (∀ c ∈ gap, _))

instance (p : WrittenPair) : Decidable p.IsRequirement :=
  decidable_of_iff (IsPlain p.key ∧ '*' ∉ p.key ∧ (trimStart p.key).head? ≠ some '=' ∧
      IsPlain p.value ∧
      (p.joint = '=' ∧ IsBlankText p.behindKey ∨ p.joint = ':' ∧ IsGap p.behindKey) ∧
      IsGap p.lead ∧ IsGap p.beforeValue ∧ IsGap p.behindValue)
    ⟨fun ⟨hkey, hstar, hstart, hvalue, hjoint, hlead, hbeforeValue, hbehindValue⟩ =>
      ⟨hkey, hstar, hstart, hvalue, hjoint, hlead, hbeforeValue, hbehindValue⟩,
      fun h => ⟨h.key, h.star, h.start, h.value, h.joint, h.lead, h.beforeValue, h.behindValue⟩⟩

/-- What is white space for JSON is a text of blanks. -/
theorem isBlankText_of_isGap (h : IsGap s) : IsBlankText s := by
  intro c hc
  have hspace := h c hc
  simp only [Json.isSpace, Bool.or_eq_true, decide_eq_true_eq] at hspace
  rcases hspace with ((rfl | rfl) | rfl) | rfl
  all_goals decide

/-- A pair of requirements is laid out as any pair is, only that most of its
blanks must be white space for JSON as well. -/
theorem WrittenPair.IsRequirement.laidOut (h : p.IsRequirement) : p.IsLaidOut where
  joint := h.joint.imp And.left And.left
  lead := isBlankText_of_isGap h.lead
  behindKey := h.joint.elim And.right fun hcolon => isBlankText_of_isGap hcolon.2
  beforeValue := isBlankText_of_isGap h.beforeValue
  behindValue := isBlankText_of_isGap h.behindValue

/-- The pair once its mark is a colon. The blanks before `=` go with it. -/
def WrittenPair.assigned (p : WrittenPair) : WrittenPair :=
  { p with
    behindKey := if p.joint = '=' then [] else p.behindKey
    joint := ':'
    value := assignmentsFrom (some []) p.value }

/-- Behind its key, a pair gets its colon. An `=` takes the blanks before it
along, and a colon that was there keeps them. -/
theorem WrittenPair.IsRequirement.assignmentsFrom_joint (h : p.IsRequirement) (rest : List Char) :
    assignmentsFrom (some []) (p.behindKey ++ p.joint :: rest)
      = p.assigned.behindKey ++ ':' :: assignmentsFrom none rest := by
  rcases h.joint with ⟨hjoint, hblanks⟩ | ⟨hjoint, hgap⟩
  · -- The blanks are not put back.
    rw [assignmentsFrom_blanks_append hblanks, WrittenPair.assigned, hjoint]
    simp [assignmentsFrom]
  · rw [hjoint, assignmentsFrom_blanks_cons (isBlankText_of_isGap hgap) (by decide) (by decide)
      (by decide), WrittenPair.assigned, if_neg (by rw [hjoint]; decide)]

/-- A pair is rewritten by itself if a comma or the closing brace follows:
these close the run of blanks behind its last quote. -/
theorem WrittenPair.IsRequirement.assignmentsFrom_text (h : p.IsRequirement) {c : Char}
    (hc : c = ',' ∨ c = '\x7d') (rest : List Char) :
    assignmentsFrom none (p.text ++ c :: rest)
      = p.assigned.text ++ c :: assignmentsFrom none rest := by
  have hgap : ∀ {gap : List Char}, IsGap gap → '"' ∉ gap := fun hgap =>
    (isBlankText_of_isGap hgap).not_mem (by decide)
  have hmark : isBlank c = false ∧ c ≠ '=' ∧ c ≠ '"' := by
    rcases hc with rfl | rfl
    all_goals decide
  let behind := p.behindValue ++ c :: rest
  have htext : p.text ++ c :: rest
      = p.lead ++ ([] ++ '"' :: (p.key ++ '"' :: (p.behindKey ++ p.joint ::
        (p.beforeValue ++ ([] ++ '"' :: (p.value ++ '"' :: behind)))))) := by
    simp [WrittenPair.text, WrittenPair.core, quoted, behind]
  -- From quote to quote, with what may stand between them.
  have hbehind : assignmentsFrom (some []) behind
      = p.behindValue ++ c :: assignmentsFrom none rest :=
    assignmentsFrom_blanks_cons (isBlankText_of_isGap h.behindValue) hmark.1 hmark.2.1
      hmark.2.2 rest
  have hvalue : assignmentsFrom none
      (p.beforeValue ++ ([] ++ '"' :: (p.value ++ '"' :: behind)))
        = p.beforeValue ++ '"' :: (assignmentsFrom (some []) p.value ++ '"' ::
          (p.behindValue ++ c :: assignmentsFrom none rest)) := by
    rw [assignmentsFrom_none_append (hgap h.beforeValue), assignmentsFrom_append_quote,
      assignmentsFrom_append_quote, hbehind]
    rfl
  rw [htext, assignmentsFrom_none_append (hgap h.lead), assignmentsFrom_append_quote,
    assignmentsFrom_append_quote, assignmentsFrom_eq_self h.key.quote_not_mem h.start,
    h.assignmentsFrom_joint, hvalue]
  simp [WrittenPair.text, WrittenPair.core, WrittenPair.assigned, quoted,
    assignmentsFrom]

/-- The pairs of a block are rewritten one by one, up to the closing brace. -/
theorem assignmentsFrom_pairs {pairs : List WrittenPair} (h : ∀ p ∈ pairs, p.IsRequirement)
    (rest : List Char) :
    assignmentsFrom none ([','].intercalate (pairs.map WrittenPair.text) ++ '\x7d' :: rest)
      = [','].intercalate (pairs.map fun p => p.assigned.text)
        ++ '\x7d' :: assignmentsFrom none rest := by
  -- By induction on the pairs: behind a comma, as at the start, no run of blanks is open.
  induction pairs with
  | nil => rfl
  | cons p pairs ih =>
      obtain ⟨hp, hpairs⟩ := List.forall_mem_cons.1 h
      cases pairs with
      | nil =>
          rw [List.map_singleton, List.map_singleton, List.intercalate_singleton,
            List.intercalate_singleton]
          exact hp.assignmentsFrom_text (.inr rfl) rest
      | cons q pairs =>
          have hrest := ih hpairs
          simp only [List.map_cons, List.intercalate_cons_cons, List.append_assoc,
            List.cons_append, List.nil_append] at hrest ⊢
          rw [hp.assignmentsFrom_text (.inl rfl), hrest]

/-! ### The block -/

/-- What must be true of a block for the reader to find its keys. -/
structure WrittenBlock.IsRequirements (b : WrittenBlock) : Prop where
  lead : IsBlankText b.lead
  opening : IsGap b.opening
  pairs : ∀ p ∈ b.pairs, p.IsRequirement
  tail : IsBlankText b.tail

/-- A block of requirements is laid out as any block is. -/
theorem WrittenBlock.IsRequirements.laidOut (h : b.IsRequirements) : b.IsLaidOut :=
  ⟨h.lead, isBlankText_of_isGap h.opening, fun p hp => (h.pairs p hp).laidOut, h.tail⟩

/-- In a block, the mark of every pair becomes a colon. Outside the pairs
there is no quote, and so nothing to rewrite. -/
theorem assignmentsFrom_text (h : b.IsRequirements) :
    assignmentsFrom none b.text = (b.mapPairs WrittenPair.assigned).text := by
  have hblank : ∀ {s : List Char}, IsBlankText s → '"' ∉ s := fun hs => hs.not_mem (by decide)
  have htext : b.text = (b.lead ++ '\x7b' :: b.opening)
      ++ ([','].intercalate (b.pairs.map WrittenPair.text) ++ '\x7d' :: b.tail) := by
    simp [WrittenBlock.text, WrittenBlock.inside, braced]
  have hfront : '"' ∉ b.lead ++ '\x7b' :: b.opening := by
    rw [List.mem_append, List.mem_cons, not_or, not_or]
    exact ⟨hblank h.lead, by decide, hblank (isBlankText_of_isGap h.opening)⟩
  rw [htext, assignmentsFrom_none_append hfront, assignmentsFrom_pairs h.pairs,
    assignmentsFrom_none_eq_self (hblank h.tail)]
  simp [WrittenBlock.text, WrittenBlock.inside, WrittenBlock.mapPairs, braced, Function.comp_def]

/-- Leaving out the stars changes the value of a pair at most, for its key has
none. -/
theorem WrittenPair.IsRequirement.mapTexts_unsetStars (h : p.IsRequirement) :
    p.mapTexts unsetStars = { p with value := unsetStars p.value } := by
  rw [WrittenPair.mapTexts, unsetStars_eq_self h.star]

/-- Taking the stars out leaves a block of requirements, and its keys as
they are. -/
theorem WrittenBlock.IsRequirements.mapPairs_unsetStars (h : b.IsRequirements) :
    (b.mapPairs (WrittenPair.mapTexts unsetStars)).IsRequirements := by
  refine ⟨h.lead, h.opening, WrittenBlock.forall_mem_mapPairs.2 fun p hp => ?_, h.tail⟩
  have hpair := h.pairs p hp
  rw [hpair.mapTexts_unsetStars]
  exact { hpair with value := hpair.value.unsetStars }

/-- A block is laid out as a block also once its marks are colons. -/
theorem WrittenBlock.IsRequirements.laidOut_assigned (h : b.IsRequirements) :
    (b.mapPairs WrittenPair.assigned).IsLaidOut := by
  refine ⟨h.lead, isBlankText_of_isGap h.opening, ?_, h.tail⟩
  refine WrittenBlock.forall_mem_mapPairs.2 fun p hp => ?_
  have hpair := (h.pairs p hp).laidOut
  refine { hpair with joint := .inr rfl, behindKey := ?_ }
  show IsBlankText (if p.joint = '=' then [] else p.behindKey)
  split
  · exact isBlankText_nil
  · exact hpair.behindKey

/-- A pair that has been rewritten is read as a member with its key and its
value, because the backslashes have been doubled and are taken for themselves. -/
theorem WrittenPair.IsRequirement.takes_member (h : p.IsRequirement) (depth : Nat) :
    Takes (Json.Reader.member (Json.Reader.form (depth + 1)))
      (p.assigned.mapTexts escapeBackslashes).text
      (some (String.ofList p.key), .string (some (String.ofList p.assigned.value))) := by
  intro rest
  have hbehindKey : IsGap p.assigned.behindKey := by
    show IsGap (if p.joint = '=' then [] else p.behindKey)
    rcases h.joint with ⟨hjoint, -⟩ | ⟨hjoint, hgap⟩
    · rw [if_pos hjoint]
      exact Json.Reader.isGap_nil
    · rwa [if_neg (by rw [hjoint]; decide)]
  have hkey := readsAs_escapeBackslashes h.key
  have hvalue := Json.Reader.form_quoted (readsAs_escapeBackslashes h.value.assignmentsFrom) depth
    (p.behindValue ++ rest)
  have hmember := Json.Reader.member_quoted hkey (Json.Reader.skipsGaps_form (depth + 1)) hbehindKey
    h.beforeValue hvalue
  -- The blanks before the key are skipped; those behind the value are left.
  refine ⟨p.behindValue, h.behindValue, ?_⟩
  rw [WrittenPair.text, List.append_assoc,
    Json.Reader.skipsGaps_member _ (p.assigned.mapTexts escapeBackslashes).lead h.lead,
    List.append_assoc]
  exact hmember

/-- The keys of a block of requirements are read, each once. The object has as
many members as the block has pairs, and a repeated key is merged. -/
theorem requirementKeys_text (h : b.IsRequirements) :
    requirementKeys (String.ofList b.text)
      = .ok (b.pairs.map fun p => String.ofList p.key).eraseDups := by
  let starless := b.mapPairs (WrittenPair.mapTexts unsetStars)
  have hstarless : starless.IsRequirements := h.mapPairs_unsetStars
  let read := (starless.mapPairs WrittenPair.assigned).mapPairs
    (WrittenPair.mapTexts escapeBackslashes)
  have hjson : requirementsJson b.text = braced read.inside := by
    rw [requirementsJson, unsetStars_text h.laidOut, assignmentsFrom_text hstarless,
      escapeBackslashes_text hstarless.laidOut_assigned]
    exact WrittenBlock.trim_text h.lead h.tail
  have hinside : read.inside = b.opening ++ [','].intercalate (starless.pairs.map fun p =>
      (p.assigned.mapTexts escapeBackslashes).text) := by
    simp [read, WrittenBlock.inside, WrittenBlock.mapPairs, starless, Function.comp_def]
  have hopens : ∀ p ∈ starless.pairs, Opens '\x7d' (p.assigned.mapTexts escapeBackslashes).text :=
    fun p hp => ⟨p.lead, '"', _, (hstarless.pairs p hp).lead, rfl, by decide, by decide⟩
  have hparse := Json.parse_object h.opening hopens fun p hp => (hstarless.pairs p hp).takes_member
  -- No key has a star, so the keys are still those that were written.
  have hkey : ∀ p ∈ b.pairs, (p.mapTexts unsetStars).key = p.key :=
    fun p hp => unsetStars_eq_self (h.pairs p hp).star
  have hkeys : (starless.pairs.map fun p => String.ofList p.key)
      = b.pairs.map fun p => String.ofList p.key := by
    show ((b.pairs.map (WrittenPair.mapTexts unsetStars)).map fun p => String.ofList p.key) = _
    rw [List.map_map]
    exact List.map_congr_left fun p hp => congrArg String.ofList (hkey p hp)
  rw [requirementKeys, String.toList_ofList, hjson, hinside, hparse]
  simp only [Json.keys_merge, List.map_map, Function.comp_def, hkeys]

/-- A block of requirements is read without fault, and its keys come out in
the order in which they first stand there. Another block with the same keys
has the same result, whatever its values are and however it is laid out. -/
theorem requirementKeys_of_written (h : b.IsRequirements) :
    requirementKeys (String.ofList b.text)
        = .ok (b.pairs.map fun p => String.ofList p.key).eraseDups ∧
      ∀ other : WrittenBlock, other.IsRequirements →
        other.pairs.map WrittenPair.key = b.pairs.map WrittenPair.key →
        requirementKeys (String.ofList other.text) = requirementKeys (String.ofList b.text) := by
  refine ⟨requirementKeys_text h, fun other hother hkeys => ?_⟩
  have hnames : (other.pairs.map fun p => String.ofList p.key)
      = b.pairs.map fun p => String.ofList p.key := by
    have hmap := congrArg (List.map String.ofList) hkeys
    rwa [List.map_map, List.map_map] at hmap
  rw [requirementKeys_text hother, requirementKeys_text h, hnames]

/-- A block with odd regular expressions. The first one starts with `=` and
ends in a backslash, the second one has blanks before its `=`, a star and a
brace; then a key comes again, and a key that is blank. -/
def oddRequirements : WrittenBlock where
  opening := ['\n', ' ']
  pairs :=
    [{ key := "id".toList, behindKey := ['\u00a0'], joint := '=', beforeValue := ['\t'],
        value := "=\\d+\\".toList },
      { lead := [' '], key := "to=\\".toList, behindKey := [' '], joint := ':',
        value := " =.*\x7d".toList, behindValue := ['\n'] },
      { key := "id".toList, joint := '=', value := "(".toList },
      { key := " ".toList, joint := '=', value := [] }]

/-- The same keys in another layout, and without any regular expressions. -/
def emptyRequirements : WrittenBlock where
  lead := [' ']
  pairs := oddRequirements.pairs.map fun p => { key := p.key, joint := ':', value := [] }

/-- The odd block satisfies what is asked of blocks, with both marks, with a
blank that is none for JSON, and with a key that comes twice; and its keys do
not depend on its values. -/
theorem requirementKeys_of_written_oddRequirements :
    oddRequirements.IsRequirements ∧ emptyRequirements.IsRequirements ∧
      oddRequirements.text = ("\x7b\n \"id\"\u00a0=\t\"=\\d+\\\", "
        ++ "\"to=\\\" :\" =.*\x7d\"\n,\"id\"=\"(\",\" \"=\"\"\x7d").toList ∧
      requirementKeys (String.ofList oddRequirements.text) = .ok ["id", "to=\\", " "] ∧
      requirementKeys (String.ofList emptyRequirements.text)
        = requirementKeys (String.ofList oddRequirements.text) := by
  have hodd : oddRequirements.IsRequirements := ⟨by decide, by decide, by decide, by decide⟩
  have hempty : emptyRequirements.IsRequirements := ⟨by decide, by decide, by decide, by decide⟩
  obtain ⟨hkeys, hother⟩ := requirementKeys_of_written hodd
  refine ⟨hodd, hempty, by decide, ?_, hother emptyRequirements hempty (by decide)⟩
  rw [hkeys]
  decide

end RouteDoc.Docblock
