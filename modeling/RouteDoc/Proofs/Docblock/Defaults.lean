import RouteDoc.Proofs.Docblock.Pairs

/-!
# `RouteDoc.Proofs.Docblock.Defaults`: a block of default values is read

The reader of default values takes the stars out, cuts what stands between
the braces at every comma and each pair at its first `=`, or at its first
colon if there is no `=`. Quotes mean nothing to it until the pairs have
been cut; then they are taken away, and the blanks at the ends with them.

So a block is read pair by pair, and a pair comes back as it was written up
to two things. Stars are lost, inside quotes as well as outside. And a pair
that is written with a colon is not cut there if there is an `=` further
on: what stands before that `=`, colon and blanks included, is then taken
for the key.

* `fields_text`: the pairs are found by cutting at commas.
* `pairOf?_core`: how a pair is cut.
* `defaultPairs_text`: a whole block, by a function on its pairs.
* `defaultPairs_of_written`: what can be said of each pair by itself.
* `defaultPairs_starAndEquals`: a block that does not come back as it was
  written.
-/

set_option autoImplicit false

namespace RouteDoc.Docblock

open RouteDoc.Text

variable {s : List Char} {p : WrittenPair} {b : WrittenBlock}

/-! ### Texts without quotes -/

/-- A text of blanks has no quotes. -/
theorem IsBlankText.isBare (h : IsBlankText s) : IsBare s :=
  ⟨h.not_mem (by decide), h.not_mem (by decide)⟩

/-- Taking stars away adds no character, and so no quote. -/
theorem IsBare.unsetStars (h : IsBare s) : IsBare (unsetStars s) :=
  ⟨fun hmem => h.1 (mem_of_mem_unsetStars hmem), fun hmem => h.2 (mem_of_mem_unsetStars hmem)⟩

/-! ### What a pair is read as -/

/-- What is left of a text without its stars and, then, the blanks at its
ends. -/
def starless (s : List Char) : String := String.ofList (trim (unsetStars s))

/-- A text without stars or padding keeps all of its characters when both are
taken away. -/
theorem starless_eq_self (hstar : '*' ∉ s) (hpadding : Unpadded s) :
    starless s = String.ofList s := by
  rw [starless, unsetStars_eq_self hstar, hpadding.trim_eq]

/-- What must be true of a pair for the reader to find it: no quote and no
comma in the key and in the value, and in the key no `=` and not the mark
that stands behind it. -/
structure WrittenPair.IsDefault (p : WrittenPair) : Prop where
  laidOut : p.IsLaidOut
  key : IsBare p.key
  value : IsBare p.value
  comma : ',' ∉ p.key ∧ ',' ∉ p.value
  equals : '=' ∉ p.key
  joint : p.joint ∉ p.key

instance (p : WrittenPair) : Decidable p.IsDefault :=
  decidable_of_iff (p.IsLaidOut ∧ IsBare p.key ∧ IsBare p.value ∧ (',' ∉ p.key ∧ ',' ∉ p.value) ∧
      '=' ∉ p.key ∧ p.joint ∉ p.key)
    ⟨fun ⟨hlaidOut, hkey, hvalue, hcomma, hequals, hjoint⟩ =>
      ⟨hlaidOut, hkey, hvalue, hcomma, hequals, hjoint⟩,
      fun h => ⟨h.laidOut, h.key, h.value, h.comma, h.equals, h.joint⟩⟩

/-- What a pair is read as. A pair that has a colon is cut behind it, at the
first `=` of its value, if there is one. -/
def WrittenPair.readBack (p : WrittenPair) : String × String :=
  match if p.joint = ':' then splitOnce '=' p.value else none with
  | none => (starless p.key, starless p.value)
  | some (before, after) =>
    (starless (p.key ++ (p.behindKey ++ ':' :: (p.beforeValue ++ before))), starless after)

/-! ### Cutting a pair -/

/-- What is not in a text is not in it when it is quoted, unless it is the
quote itself. -/
theorem not_mem_quoted {c : Char} (h : c ∉ s) (hc : c ≠ '"') : c ∉ quoted s :=
  fun hmem => (mem_quoted hmem).elim hc h

/-- The two halves of a pair that is cut at its own mark are its key and its
value. The blanks around the mark go with the padding. -/
theorem unquote_halves (hp : p.IsLaidOut) (hkey : IsBare p.key) (hvalue : IsBare p.value) :
    unquote (quoted p.key ++ p.behindKey) = trim p.key ∧
      unquote (p.beforeValue ++ quoted p.value) = trim p.value := by
  constructor
  · rw [unquote_quoted_append hkey hp.behindKey.isBare, trim_append_right hp.behindKey]
  · rw [unquote_append_quoted hvalue hp.beforeValue.isBare, trim_append_left hp.beforeValue]

/-- A pair is cut at its own mark if that is `=`, or if there is no `=` at
all. -/
theorem pairOf?_core_of_joint (hp : p.IsDefault) (h : p.joint = ':' → '=' ∉ p.value) :
    pairOf? p.core = some (String.ofList (trim p.key), String.ofList (trim p.value)) := by
  obtain ⟨hfirst, hsecond⟩ := unquote_halves hp.laidOut hp.key hp.value
  have hfront : ∀ c, c ∉ p.key → c ≠ '"' → isBlank c = false → c ∉ quoted p.key ++ p.behindKey := by
    intro c hc hquote hblank
    rw [List.mem_append, not_or]
    exact ⟨not_mem_quoted hc hquote, hp.laidOut.behindKey.not_mem hblank⟩
  have hcore : p.core = (quoted p.key ++ p.behindKey)
      ++ p.joint :: (p.beforeValue ++ quoted p.value) := by
    simp [WrittenPair.core]
  rcases hp.laidOut.joint with hjoint | hjoint
  · have hequals := hfront '=' hp.equals (by decide) (by decide)
    rw [pairOf?, hcore, hjoint, splitOnce_append hequals]
    simp only [Option.some_or, Option.map_some, hfirst, hsecond]
  · -- There is no `=` on either side of the colon.
    have hequals : '=' ∉ p.core := by
      rw [hcore, hjoint]
      intro hmem
      rcases List.mem_append.1 hmem with hmem | hmem
      · exact hfront '=' hp.equals (by decide) (by decide) hmem
      rcases List.mem_cons.1 hmem with hmem | hmem
      · exact absurd hmem (by decide)
      rcases List.mem_append.1 hmem with hmem | hmem
      · exact hp.laidOut.beforeValue.not_mem (by decide) hmem
      · exact not_mem_quoted (h hjoint) (by decide) hmem
    have hcolon := hfront ':' (hjoint ▸ hp.joint) (by decide) (by decide)
    rw [pairOf?, splitOnce_eq_none hequals, hcore, hjoint, splitOnce_append hcolon]
    simp only [Option.none_or, Option.map_some, hfirst, hsecond]

/-- A pair that has a colon is cut at an `=` behind it. So a part of its value
goes to the key, together with the colon and the blanks around it. -/
theorem pairOf?_core_of_equals (hp : p.IsDefault) (hjoint : p.joint = ':')
    {before after : List Char} (hvalue : p.value = before ++ '=' :: after)
    (hbefore : '=' ∉ before) :
    pairOf? p.core
      = some (String.ofList (trim (p.key ++ (p.behindKey ++ ':' :: (p.beforeValue ++ before)))),
          String.ofList (trim after)) := by
  obtain ⟨hbareBefore, hbareAfter⟩ : IsBare before ∧ IsBare after := by
    have hbare := hp.value
    rw [hvalue] at hbare
    exact ⟨⟨fun h => hbare.1 (by simp [h]), fun h => hbare.2 (by simp [h])⟩,
      ⟨fun h => hbare.1 (by simp [h]), fun h => hbare.2 (by simp [h])⟩⟩
  have hbareColon : IsBare [':'] := by decide
  let front := p.behindKey ++ ':' :: p.beforeValue
  have hbareFront : IsBare front :=
    hp.laidOut.behindKey.isBare.append (hbareColon.append hp.laidOut.beforeValue.isBare)
  have hcore : p.core = (quoted p.key ++ (front ++ '"' :: before)) ++ '=' :: (after ++ ['"']) := by
    simp [WrittenPair.core, front, hjoint, hvalue, quoted]
  have hequals : '=' ∉ quoted p.key ++ (front ++ '"' :: before) := by
    simp only [front, List.mem_append, List.mem_cons, not_or]
    exact ⟨not_mem_quoted hp.equals (by decide),
      ⟨hp.laidOut.behindKey.not_mem (by decide), by decide,
        hp.laidOut.beforeValue.not_mem (by decide)⟩, by decide, hbefore⟩
  have hfirst : unquote (quoted p.key ++ (front ++ '"' :: before))
      = trim (p.key ++ (p.behindKey ++ ':' :: (p.beforeValue ++ before))) := by
    rw [← List.append_assoc, unquote_quote, List.append_assoc,
      unquote_quoted_append hp.key (hbareFront.append hbareBefore)]
    simp [front]
  have hsecond : unquote (after ++ ['"']) = trim after := by
    rw [unquote_quote, List.append_nil, hbareAfter.unquote_eq]
  rw [pairOf?, hcore, splitOnce_append hequals]
  simp only [Option.some_or, Option.map_some, hfirst, hsecond]

/-- A text of blanks has no stars to be taken away. -/
theorem IsBlankText.unsetStars_eq (h : IsBlankText s) : unsetStars s = s :=
  unsetStars_eq_self (h.not_mem (by decide))

/-- A pair that can be read still can when its stars have been taken out,
since that takes away no mark and adds no character. -/
theorem WrittenPair.IsDefault.mapTexts_unsetStars (h : p.IsDefault) :
    (p.mapTexts unsetStars).IsDefault where
  laidOut := ⟨h.laidOut.joint, h.laidOut.lead, h.laidOut.behindKey, h.laidOut.beforeValue,
    h.laidOut.behindValue⟩
  key := h.key.unsetStars
  value := h.value.unsetStars
  comma := ⟨fun hmem => h.comma.1 (mem_of_mem_unsetStars hmem),
    fun hmem => h.comma.2 (mem_of_mem_unsetStars hmem)⟩
  equals hmem := h.equals (mem_of_mem_unsetStars hmem)
  joint hmem := h.joint (mem_of_mem_unsetStars hmem)

/-- How a pair is cut once its stars have been taken out. Where it has a
colon, the reader looks for an `=` in the value first. -/
theorem pairOf?_core (h : p.IsDefault) :
    pairOf? (p.mapTexts unsetStars).core = some p.readBack := by
  have hstarless := h.mapTexts_unsetStars
  unfold WrittenPair.readBack
  by_cases hjoint : p.joint = ':'
  · -- The reader looks for `=` first, and there may be one in the value.
    rw [if_pos hjoint]
    cases hcut : splitOnce '=' p.value with
    | none =>
        have hequals : '=' ∉ p.value := splitOnce_eq_none_iff.1 hcut
        exact pairOf?_core_of_joint hstarless fun _ hmem => hequals (mem_of_mem_unsetStars hmem)
    | some halves =>
        obtain ⟨before, after⟩ := halves
        obtain ⟨hbefore, hvalue⟩ := splitOnce_eq_some hcut
        have hstars : unsetStars p.value = unsetStars before ++ '=' :: unsetStars after := by
          rw [hvalue, unsetStars_append]
          rfl
        have hfront : unsetStars (p.key ++ (p.behindKey ++ ':' :: (p.beforeValue ++ before)))
            = unsetStars p.key ++ (p.behindKey ++ ':' :: (p.beforeValue ++ unsetStars before)) := by
          rw [unsetStars_append, unsetStars_append,
            h.laidOut.behindKey.unsetStars_eq]
          show _ ++ (_ ++ ':' :: unsetStars (p.beforeValue ++ before)) = _
          rw [unsetStars_append, h.laidOut.beforeValue.unsetStars_eq]
        have hread := pairOf?_core_of_equals hstarless hjoint hstars
          fun hmem => hbefore (mem_of_mem_unsetStars hmem)
        rw [hread]
        simp only [starless, hfront]
        rfl
  · rw [if_neg hjoint]
    exact pairOf?_core_of_joint hstarless fun hcolon => absurd hcolon hjoint

/-! ### The block -/

/-- What must be true of a block for the reader to find its pairs. -/
structure WrittenBlock.IsDefaults (b : WrittenBlock) : Prop where
  lead : IsBlankText b.lead
  opening : IsBlankText b.opening
  pairs : ∀ p ∈ b.pairs, p.IsDefault
  tail : IsBlankText b.tail

/-- A block of default values is laid out as any block is. -/
theorem WrittenBlock.IsDefaults.laidOut (h : b.IsDefaults) : b.IsLaidOut :=
  ⟨h.lead, h.opening, fun p hp => (h.pairs p hp).laidOut, h.tail⟩

/-- Between its two outer quotes a pair has no padding. -/
theorem unpadded_core (p : WrittenPair) : Unpadded p.core := by
  have hcore : p.core = '"' :: ((p.key ++ '"' :: (p.behindKey
      ++ p.joint :: (p.beforeValue ++ '"' :: p.value))) ++ ['"']) := by
    simp [WrittenPair.core, quoted]
  rw [hcore]
  exact unpadded_between (by decide) (by decide) _

/-- Trimming a pair takes away the blanks before and behind it, and leaves
those around its mark. -/
theorem trim_pair (h : p.IsLaidOut) : trim p.text = p.core := by
  rw [WrittenPair.text, trim_append_left h.lead, trim_append_right h.behindValue,
    (unpadded_core p).trim_eq]

/-- No comma stands in a pair: none in its texts, and no mark or blank is one. -/
theorem WrittenPair.IsDefault.comma_not_mem (h : p.IsDefault) : ',' ∉ p.text := by
  have hjoint : ',' ≠ p.joint := by
    rcases h.laidOut.joint with hjoint | hjoint
    · rw [hjoint]
      decide
    · rw [hjoint]
      decide
  have hkey : ',' ∉ quoted p.key := not_mem_quoted h.comma.1 (by decide)
  have hvalue : ',' ∉ quoted p.value := not_mem_quoted h.comma.2 (by decide)
  simp only [WrittenPair.text, WrittenPair.core, List.mem_append, List.mem_cons, not_or]
  exact ⟨h.laidOut.lead.not_mem (by decide),
    ⟨hkey, h.laidOut.behindKey.not_mem (by decide), hjoint,
      h.laidOut.beforeValue.not_mem (by decide), hvalue⟩,
    h.laidOut.behindValue.not_mem (by decide)⟩

/-- Blanks in front of joined texts may as well stand in the first of them. -/
theorem append_intercalate_cons (front s : List Char) (texts : List (List Char)) :
    front ++ [','].intercalate (s :: texts) = [','].intercalate ((front ++ s) :: texts) := by
  cases texts with
  | nil => simp
  | cons t texts => simp [List.intercalate_cons_cons]

/-- The pairs are found by cutting at commas, since there are no others. None
of them is empty, so that none is left out. -/
theorem fields_text (h : b.IsDefaults) :
    ((b.inside.splitOn ',').map trim).filter (!·.isEmpty) = b.pairs.map WrittenPair.core := by
  have htrim : ∀ p ∈ b.pairs, trim p.text = p.core := fun p hp => trim_pair (h.pairs p hp).laidOut
  have hne : ∀ s ∈ b.pairs.map WrittenPair.core, (!s.isEmpty) = true := by
    intro s hs
    obtain ⟨p, -, rfl⟩ := List.mem_map.1 hs
    rfl
  have hcommas : ∀ p ∈ b.pairs, ',' ∉ p.text := fun p hp => (h.pairs p hp).comma_not_mem
  rw [WrittenBlock.inside]
  cases hpairs : b.pairs with
  | nil =>
      -- Nothing but blanks stands between the braces.
      have hopening : trim b.opening = [] := trim_eq_nil_iff.2 h.opening
      rw [List.map_nil, List.intercalate_nil, List.append_nil,
        List.splitOn_eq_singleton (h.opening.not_mem (by decide)), List.map_singleton, hopening]
      rfl
  | cons p pairs =>
      -- The blanks behind the brace go with the first pair, and are trimmed with it.
      rw [hpairs] at htrim hne hcommas
      obtain ⟨hfirst, hrest⟩ := List.forall_mem_cons.1 htrim
      obtain ⟨hcomma, hcommas⟩ := List.forall_mem_cons.1 hcommas
      have hcut : ([','].intercalate
          ((b.opening ++ p.text) :: pairs.map WrittenPair.text)).splitOn ','
          = (b.opening ++ p.text) :: pairs.map WrittenPair.text := by
        refine List.splitOn_intercalate ',' (List.forall_mem_cons.2 ⟨?_, ?_⟩) (by simp)
        · rw [List.mem_append, not_or]
          exact ⟨h.opening.not_mem (by decide), hcomma⟩
        · intro s hs
          obtain ⟨q, hq, rfl⟩ := List.mem_map.1 hs
          exact hcommas q hq
      have htexts : (pairs.map WrittenPair.text).map trim = pairs.map WrittenPair.core := by
        rw [List.map_map]
        exact List.map_congr_left hrest
      rw [List.map_cons, append_intercalate_cons, hcut, List.map_cons, trim_append_left h.opening,
        hfirst, htexts, ← List.map_cons, List.filter_eq_self.2 hne]

/-- Pairs that can be read are read one by one, and none of them fails. -/
theorem mapM_pairOf? {pairs : List WrittenPair} (h : ∀ p ∈ pairs, p.IsDefault) :
    (pairs.map fun p => (p.mapTexts unsetStars).core).mapM pairOf?
      = some (pairs.map WrittenPair.readBack) := by
  induction pairs with
  | nil => rfl
  | cons p pairs ih =>
      obtain ⟨hp, hpairs⟩ := List.forall_mem_cons.1 h
      rw [List.map_cons, List.mapM_cons, pairOf?_core hp, ih hpairs]
      rfl

/-- A block of default values is read pair by pair, as if it had been written
without stars. -/
theorem defaultPairs_text (h : b.IsDefaults) :
    defaultPairs (String.ofList b.text) = .ok (b.pairs.map WrittenPair.readBack) := by
  -- From here on, the block is read as one that has no stars.
  let starless := b.mapPairs (WrittenPair.mapTexts unsetStars)
  have hpairs : ∀ p ∈ starless.pairs, p.IsDefault :=
    WrittenBlock.forall_mem_mapPairs.2 fun p hp => (h.pairs p hp).mapTexts_unsetStars
  have hstarless : starless.IsDefaults := ⟨h.lead, h.opening, hpairs, h.tail⟩
  have hinside : insideBraces? (braced starless.inside) = some starless.inside := by
    simp [insideBraces?, braced]
  have hfields : starless.pairs.map WrittenPair.core
      = b.pairs.map fun p => (p.mapTexts unsetStars).core := List.map_map
  rw [defaultPairs, String.toList_ofList, unsetStars_text h.laidOut,
    WrittenBlock.trim_text hstarless.lead hstarless.tail, hinside]
  simp only [fields_text hstarless, hfields, mapM_pairOf? h.pairs]

/-! ### Pair by pair -/

/-- What a pair comes back as. -/
structure WrittenPair.ComesBackAs (p : WrittenPair) (pair : String × String) : Prop where
  /-- The key and the value come back without their stars, if the pair is cut
  at its own mark. -/
  cut : (p.joint = ':' → '=' ∉ p.value) → pair = (starless p.key, starless p.value)
  /-- So they come back as they were written, if there are no stars. -/
  verbatim : (p.joint = ':' → '=' ∉ p.value) → '*' ∉ p.key → '*' ∉ p.value →
    Unpadded p.key → Unpadded p.value → pair = (String.ofList p.key, String.ofList p.value)
  /-- A pair with a colon is cut at the first `=` of its value instead. -/
  cutLater : ∀ {before after}, p.joint = ':' → p.value = before ++ '=' :: after → '=' ∉ before →
    pair = (starless (p.key ++ (p.behindKey ++ ':' :: (p.beforeValue ++ before))), starless after)

/-- What is read of a pair is what the pair comes back as: its own key and
value without stars, unless an `=` in its value stands behind a colon. -/
theorem comesBackAs_readBack (p : WrittenPair) : p.ComesBackAs p.readBack := by
  have hcut : (p.joint = ':' → '=' ∉ p.value) →
      p.readBack = (starless p.key, starless p.value) := by
    intro h
    unfold WrittenPair.readBack
    by_cases hjoint : p.joint = ':'
    · rw [if_pos hjoint, splitOnce_eq_none (h hjoint)]
    · rw [if_neg hjoint]
  refine ⟨hcut, ?_, ?_⟩
  · intro h hkey hvalue hkeyPadding hvaluePadding
    rw [hcut h, starless_eq_self hkey hkeyPadding, starless_eq_self hvalue hvaluePadding]
  · intro before after hjoint hvalue hbefore
    rw [WrittenPair.readBack, if_pos hjoint, hvalue, splitOnce_append hbefore]

/-- A block of default values is read without fault, and every pair comes
back, in order. What it comes back as depends on the pair alone. -/
theorem defaultPairs_of_written (h : b.IsDefaults) :
    ∃ pairs, defaultPairs (String.ofList b.text) = .ok pairs ∧
      List.Forall₂ WrittenPair.ComesBackAs b.pairs pairs := by
  refine ⟨b.pairs.map WrittenPair.readBack, defaultPairs_text h, ?_⟩
  rw [List.forall₂_map_right_iff]
  exact List.forall₂_same.2 fun p _ => comesBackAs_readBack p

/-- A block with both marks, and with blanks in every place. The second
value has an `=` and braces, the third one a colon, and the last one is
empty. -/
def mixedDefaults : WrittenBlock where
  opening := [' ']
  pairs :=
    [{ key := "page".toList, joint := '=', value := "1".toList },
      { lead := ['\n', ' '], key := "sort by".toList, behindKey := [' '],
        joint := '=', beforeValue := ['\t'], value := "\x7ba=b\x7d".toList,
        behindValue := [' '] },
      { lead := [' '], key := "at".toList, behindKey := [' '], joint := ':',
        value := "a:b".toList },
      { key := "q".toList, joint := ':', value := [] }]
  tail := ['\n']

/-- The mixed block satisfies what is asked of blocks, with line breaks, with
both marks, and with braces and marks inside values. -/
theorem defaultPairs_of_written_mixedDefaults :
    mixedDefaults.IsDefaults ∧
      mixedDefaults.text
        = ("\x7b \"page\"=\"1\",\n \"sort by\" =\t\"\x7ba=b\x7d\" , "
          ++ "\"at\" :\"a:b\",\"q\":\"\"\x7d\n").toList ∧
      ∃ pairs, defaultPairs (String.ofList mixedDefaults.text) = .ok pairs ∧
        List.Forall₂ WrittenPair.ComesBackAs mixedDefaults.pairs pairs :=
  have h : mixedDefaults.IsDefaults := ⟨by decide, by decide, by decide, by decide⟩
  ⟨h, by decide, defaultPairs_of_written h⟩

/-- A block whose first value has a star, and whose second one has an `=`
behind a colon. -/
def starAndEquals : WrittenBlock where
  pairs :=
    [{ key := "pattern".toList, joint := '=', value := "a*b".toList },
      { lead := [' '], key := "query".toList, joint := ':', value := "x=y".toList }]

/-- Not every block comes back as it was written: the star is lost, and the
second pair is cut in its value. -/
theorem defaultPairs_starAndEquals :
    starAndEquals.IsDefaults ∧
      (∀ p ∈ starAndEquals.pairs, Unpadded p.key ∧ Unpadded p.value ∧ ':' ∉ p.key) ∧
      starAndEquals.text = "\x7b\"pattern\"=\"a*b\", \"query\":\"x=y\"\x7d".toList ∧
      defaultPairs (String.ofList starAndEquals.text)
        = .ok [("pattern", "ab"), ("query:x", "y")] ∧
      defaultPairs (String.ofList starAndEquals.text)
        ≠ .ok (starAndEquals.pairs.map fun p => (String.ofList p.key, String.ofList p.value)) := by
  have hread : defaultPairs (String.ofList starAndEquals.text)
      = .ok [("pattern", "ab"), ("query:x", "y")] := by decide
  refine ⟨⟨by decide, by decide, by decide, by decide⟩, by decide, by decide, hread, ?_⟩
  rw [hread]
  decide

end RouteDoc.Docblock
