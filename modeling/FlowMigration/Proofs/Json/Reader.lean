import FlowMigration.Proofs.Json.Reader.Marked

/-!
# Laws of reading documents

A reader that knows no key that marks a number reads the standard dialect, and one that
does reads the marked dialect: it accepts the texts of the grammar and gives the value
that the grammar assigns to them.  The induction is on the number of containers that may
be opened; values without containers are the same at every number.
-/

namespace FlowMigration.Json

namespace Reader

open Grammar (Blanks Dialect DocumentText ItemsText MarkedText NumberText PairText ValueText
  elementsText_iff folded_iff membersText_iff)

/-! ## Values without containers -/

/-- No other value starts as a number does. -/
theorem number_starts {c : Char} (hc : c = '-' ∨ (Digit.ofChar? c).isSome) :
    isBlank c = false ∧ c ∉ ['n', 't', 'f', '"', '[', ']', '{', '}'] := by
  rcases hc with rfl | hdigit
  · decide
  · obtain ⟨d, hd⟩ := Option.isSome_iff_exists.mp hdigit
    have hchar := Digit.char_of_ofChar? hd
    subst hchar
    clear hd hdigit
    revert d
    decide

/-- The text of a number starts with a sign or with a digit. -/
theorem exists_of_numberText {cs : List Char} {number : Number}
    (htext : NumberText cs number) :
    ∃ c tail, cs = c :: tail ∧ (c = '-' ∨ (Digit.ofChar? c).isSome) := by
  obtain ⟨text, -, rfl⟩ := htext
  rw [Numeral.text_eq_cons]
  cases number.negative with
  | true => exact ⟨'-', _, rfl, .inl rfl⟩
  | false =>
      exact ⟨_, _, rfl, .inr (Option.isSome_of_eq_some (Digit.ofChar?_char _))⟩

/-- A value starts with a character that ends neither a container nor a gap. -/
theorem starts_of_valueText {dialect : Dialect} {levels : ℕ} {cs : List Char}
    {value : Value} (htext : ValueText dialect levels cs value) : Starts cs := by
  cases htext with
  | null => exact ⟨'n', _, rfl, by decide⟩
  | isTrue => exact ⟨'t', _, rfl, by decide⟩
  | isFalse => exact ⟨'f', _, rfl, by decide⟩
  | number _ hnumber =>
      obtain ⟨c, tail, rfl, hc⟩ := exists_of_numberText hnumber
      obtain ⟨hblank, hother⟩ := number_starts hc
      exact ⟨c, tail, rfl, hblank, by rintro rfl; simp at hother,
        by rintro rfl; simp at hother⟩
  | string _ hstring =>
      obtain ⟨tail, rfl⟩ := hstring.eq_cons
      exact ⟨'"', tail, rfl, by decide⟩
  | emptyArray | array => exact ⟨'[', _, rfl, by decide⟩
  | emptyObject | object | markedNumber => exact ⟨'{', _, rfl, by decide⟩

theorem bare_number {cs : List Char} {number : Number} (htext : NumberText cs number)
    {rest : List Char} (hrest : EndsNumber rest) :
    bare (cs ++ rest) = .ok (.number number, rest) := by
  have hsigned := signed_append htext hrest
  obtain ⟨c, tail, rfl, hc⟩ := exists_of_numberText htext
  obtain ⟨-, hother⟩ := number_starts hc
  rw [List.cons_append] at hsigned ⊢
  unfold bare
  split
  case h_1 heq => cases heq
  case h_2 heq | h_3 heq | h_4 heq =>
    cases heq
    simp at hother
  case h_5 heq =>
    cases heq
    simp [hc, hsigned, bind, Except.bind]

/-- What is read bare is the text of a value without containers. -/
theorem exists_of_bare {cs rest : List Char} {found : Value}
    (hok : bare cs = .ok (found, rest)) (dialect : Dialect) :
    ∃ text, ValueText dialect 0 text found ∧ cs = text ++ rest := by
  unfold bare at hok
  split at hok
  case h_1 => cases hok
  case h_2 =>
    obtain ⟨⟨⟨⟩, left⟩, hword, hresult⟩ := exists_of_bind_eq_ok hok
    cases hresult
    exact ⟨_, .null 0, by rw [word_eq_ok_iff.mp hword]; rfl⟩
  case h_3 =>
    obtain ⟨⟨⟨⟩, left⟩, hword, hresult⟩ := exists_of_bind_eq_ok hok
    cases hresult
    exact ⟨_, .isTrue 0, by rw [word_eq_ok_iff.mp hword]; rfl⟩
  case h_4 =>
    obtain ⟨⟨⟨⟩, left⟩, hword, hresult⟩ := exists_of_bind_eq_ok hok
    cases hresult
    exact ⟨_, .isFalse 0, by rw [word_eq_ok_iff.mp hword]; rfl⟩
  case h_5 =>
    split at hok
    · obtain ⟨⟨number, left⟩, hnumber, hresult⟩ := exists_of_bind_eq_ok hok
      cases hresult
      obtain ⟨text, htext, hcs⟩ := exists_of_signed hnumber
      exact ⟨text, .number 0 htext, hcs⟩
    · cases hok

section Values

variable {mark : Option String} {hex : Scan Char} {steps : ℕ} {nested : Option (Scan Value)}

/-- What starts with no quote and no bracket is read bare. -/
theorem valueOver_eq_bare {c : Char} (hblank : isBlank c = false)
    (hc : c ∉ ['"', '[', '{']) (cs : List Char) :
    valueOver mark hex steps nested (c :: cs) = bare (c :: cs) := by
  unfold valueOver
  rw [skipBlanks_of_not_blank hblank]
  split
  case h_1 heq | h_2 heq | h_3 heq =>
    cases heq
    simp at hc
  case h_4 => rfl

/-- A value without containers is read whatever may be opened. -/
theorem valueOver_append {dialect : Dialect} {cs : List Char} {found : Value}
    (htext : ValueText dialect 0 cs found) (hsteps : cs.length ≤ steps) {rest : List Char}
    (hrest : EndsNumber rest) :
    valueOver mark hexEscape steps nested (cs ++ rest) = .ok (found, rest) := by
  cases htext with
  | null => rfl
  | isTrue => rfl
  | isFalse => rfl
  | number _ hnumber =>
      have hbare := bare_number hnumber hrest
      obtain ⟨c, tail, rfl, hc⟩ := exists_of_numberText hnumber
      obtain ⟨hblank, hother⟩ := number_starts hc
      rw [List.cons_append] at hbare ⊢
      rw [valueOver_eq_bare hblank fun hmem => hother (by simp at hmem ⊢; tauto), hbare]
  | string _ hstring =>
      obtain ⟨tail, rfl⟩ := hstring.eq_cons
      have htail : tail.length ≤ steps := Nat.le_of_succ_le hsteps
      simp [valueOver, skipBlanks_of_not_blank (c := '"') rfl,
        string_append hstring htail rest, bind, Except.bind]

theorem valueOver_cases {cs rest : List Char} {found : Value}
    (hok : valueOver mark hexEscape steps nested cs = .ok (found, rest))
    (dialect : Dialect) :
    (∃ text, ValueText dialect 0 text found ∧ skipBlanks cs = text ++ rest) ∨
    (∃ element unread elements, nested = some element ∧
      skipBlanks cs = '[' :: unread ∧
      items .array element steps unread = .ok (elements, rest) ∧
      found = .array elements) ∨
    (∃ content unread, nested = some content ∧ skipBlanks cs = '{' :: unread ∧
      object mark hexEscape steps content unread = .ok (found, rest)) := by
  unfold valueOver at hok
  split at hok
  case h_1 unread hskip =>
    obtain ⟨⟨text, left⟩, hstring, hresult⟩ := exists_of_bind_eq_ok hok
    cases hresult
    obtain ⟨body, hbody, rfl⟩ := exists_of_string hstring
    exact .inl ⟨_, .string 0 hbody, hskip⟩
  case h_2 unread hskip =>
    split at hok
    · cases hok
    · next element =>
        obtain ⟨⟨elements, left⟩, hitems, hresult⟩ := exists_of_bind_eq_ok hok
        cases hresult
        exact .inr (.inl ⟨element, unread, elements, rfl, hskip, hitems, rfl⟩)
  case h_3 unread hskip =>
    split at hok
    · cases hok
    · next content => exact .inr (.inr ⟨content, unread, rfl, hskip, hok⟩)
  case h_4 => exact .inl (exists_of_bare hok dialect)

theorem valueOver_skipBlanks (cs : List Char) :
    valueOver mark hex steps nested (skipBlanks cs) = valueOver mark hex steps nested cs := by
  rw [valueOver, valueOver, skipBlanks_skipBlanks]

end Values

/-! ## Objects -/

section Dialects

variable {dialect : Dialect} {levels limit : ℕ}

/-- A dialect that has a reader looks at the first key only. -/
theorem allows_iff (hdialect : dialect ≠ .unmarked) {keys : List String} :
    dialect.Allows keys ↔ ∀ key ∈ keys.head?, some key ≠ dialect.mark? := by
  cases dialect with
  | standard => simp [Dialect.Allows, Dialect.mark?]
  | unmarked => exact absurd rfl hdialect
  | marked => cases keys <;> simp [Dialect.Allows, Dialect.mark?]

theorem Reads.pair {content : Scan Value}
    (hreads : Reads (ValueText dialect levels) limit content) :
    Reads (PairText dialect levels) limit
      (Reader.member (string hexEscape limit) fun _ => content) :=
  Reads.member fun _ => hreads

theorem object_of_items {mark : Option String} {content : Scan Value}
    {cs rest : List Char} {pairs : List (String × Value)}
    (hmark : afterMark? mark hexEscape limit cs = none)
    (hitems : items .object (member (string hexEscape limit) fun _ => content) limit cs =
      .ok (pairs, rest)) :
    object mark hexEscape limit content cs = .ok (.object (Entries.ofPairs pairs), rest) := by
  simp [object, hmark, hitems, bind, Except.bind]

theorem object_of_membersText (hdialect : dialect ≠ .unmarked) {content : Scan Value}
    (hreads : Reads (ValueText dialect levels) limit content) {cs : List Char}
    {pairs : List (String × Value)} (htext : ItemsText (PairText dialect levels) cs pairs)
    (hallows : dialect.Allows (Entries.keys pairs)) (hlimit : cs.length ≤ limit)
    (rest : List Char) :
    object dialect.mark? hexEscape limit content (cs ++ '}' :: rest) =
      .ok (.object (Entries.ofPairs pairs), rest) := by
  have hbrace : Container.object.closing ∈ [']', '}'] :=
    List.mem_cons_of_mem _ List.mem_cons_self
  have hitems := hreads.pair.items_append hbrace htext hlimit rest
  have hmark := (afterMark?_eq_none_iff hitems).mpr ((allows_iff hdialect).mp hallows)
  exact object_of_items hmark hitems

theorem object_of_blanks {mark : Option String} {blanks : List Char}
    (hblanks : Blanks blanks) (content : Scan Value) (rest : List Char) :
    object mark hexEscape limit content (blanks ++ '}' :: rest) = .ok (.object [], rest) := by
  have hbrace : Container.object.closing ∈ [']', '}'] :=
    List.mem_cons_of_mem _ List.mem_cons_self
  exact object_of_items (afterMark?_of_blanks hblanks rest)
    (items_of_blanks hbrace hblanks _ limit rest)

theorem object_of_markedText {cs : List Char} {number : Number}
    (htext : MarkedText cs number) (hlimit : cs.length ≤ limit) (content : Scan Value)
    (rest : List Char) :
    object (some numberKey) hexEscape limit content (cs ++ '}' :: rest) =
      .ok (.number number, rest) := by
  obtain ⟨before, key, gap, between, quoted, after, text, hbefore, hkey, hgap, hbetween,
    hquoted, hnumber, hafter, rfl⟩ := htext
  simp only [List.length_append, List.length_cons] at hlimit
  have hmark := @afterMark?_append (some numberKey) limit _ _ _ hbefore hkey (by omega)
    (gap ++ ':' :: (between ++ (quoted ++ (after ++ '}' :: rest))))
  have hfound := markedNumber_append hgap hbetween hquoted hnumber hafter
    (show quoted.length ≤ limit by omega) rest
  rw [if_pos rfl] at hmark
  simp [object, hmark, hfound, bind, Except.bind]

/-- What is read as an object is one of the grammar, or a marked number. -/
theorem exists_of_object (hdialect : dialect ≠ .unmarked) {content : Scan Value}
    (hreads : Reads (ValueText dialect levels) limit content) {cs rest : List Char}
    {found : Value}
    (hok : object dialect.mark? hexEscape limit content cs = .ok (found, rest)) :
    ∃ text, ValueText dialect (levels + 1) ('{' :: text ++ ['}']) found ∧
      cs = text ++ '}' :: rest := by
  unfold object at hok
  split at hok
  · next unread hmark =>
      obtain ⟨⟨number, left⟩, hnumber, hresult⟩ := exists_of_bind_eq_ok hok
      cases hresult
      obtain ⟨before, key, name, hname, hbefore, hkey, rfl⟩ := exists_of_afterMark? hmark
      obtain ⟨gap, between, quoted, after, text, hgap, hbetween, hquoted, hnumberText, hafter,
        rfl⟩ := exists_of_markedNumber hnumber
      obtain ⟨rfl, rfl⟩ : dialect = .marked ∧ name = numberKey := by
        cases dialect <;> simp_all [Dialect.mark?]
      have hmarked : MarkedText
          (before ++ key ++ gap ++ ':' :: between ++ quoted ++ after) number :=
        ⟨before, key, gap, between, quoted, after, text, hbefore, hkey, hgap, hbetween,
          hquoted, hnumberText, hafter, rfl⟩
      exact ⟨_, .markedNumber levels rfl hmarked, by simp⟩
  · next hmark =>
      obtain ⟨⟨pairs, left⟩, hitems, hresult⟩ := exists_of_bind_eq_ok hok
      cases hresult
      obtain ⟨text, rfl, ⟨hblanks, rfl⟩ | htext⟩ := hreads.pair.exists_of_items hitems
      · exact ⟨text, .emptyObject levels hblanks, rfl⟩
      · refine ⟨text, .object (membersText_iff.mpr htext) ?_ (folded_iff.mpr rfl), rfl⟩
        exact (allows_iff hdialect).mpr ((afterMark?_eq_none_iff hitems).mp hmark)

/-! ## Values in containers -/

theorem reads_value_zero (dialect : Dialect) (mark : Option String) (limit : ℕ) :
    Reads (ValueText dialect 0) limit (value mark hexEscape limit 0) where
  starts := starts_of_valueText
  skip := valueOver_skipBlanks
  append := fun htext hlimit hrest => valueOver_append htext hlimit hrest
  exists_text := by
    intro cs found rest hok
    rcases valueOver_cases hok dialect with htext | ⟨_, _, _, hnested, _⟩ | ⟨_, _, hnested, _⟩
    · exact htext
    · cases hnested
    · cases hnested

theorem valueOver_array {mark : Option String} {element : Scan Value}
    {cs rest : List Char} {elements : List Value}
    (hitems : items .array element limit (cs ++ ']' :: rest) = .ok (elements, rest)) :
    valueOver mark hexEscape limit (some element) ('[' :: cs ++ [']'] ++ rest) =
      .ok (.array elements, rest) := by
  simp [valueOver, skipBlanks_of_not_blank (c := '[') rfl, hitems, bind, Except.bind]

theorem valueOver_object {mark : Option String} {content : Scan Value}
    {cs rest : List Char} {found : Value}
    (hobject : object mark hexEscape limit content (cs ++ '}' :: rest) = .ok (found, rest)) :
    valueOver mark hexEscape limit (some content) ('{' :: cs ++ ['}'] ++ rest) =
      .ok (found, rest) := by
  simp [valueOver, skipBlanks_of_not_blank (c := '{') rfl, hobject]

theorem length_contents_le {opening closing : Char} {cs : List Char}
    (hlimit : (opening :: cs ++ [closing]).length ≤ limit) : cs.length ≤ limit := by
  rw [List.length_append, List.length_cons] at hlimit
  omega

/-- A scanner of values becomes one of values that are nested once more. -/
theorem Reads.nested (hdialect : dialect ≠ .unmarked) {element : Scan Value}
    (hreads : Reads (ValueText dialect levels) limit element) :
    Reads (ValueText dialect (levels + 1)) limit
      (valueOver dialect.mark? hexEscape limit (some element)) where
  starts := starts_of_valueText
  skip := valueOver_skipBlanks
  append := by
    intro text found rest htext hlimit hrest
    have hbracket : Container.array.closing ∈ [']', '}'] := List.mem_cons_self
    have hflat : ∀ {text found}, ValueText dialect 0 text found → text.length ≤ limit →
        EndsNumber rest → valueOver dialect.mark? hexEscape limit (some element)
          (text ++ rest) = .ok (found, rest) := fun htext hlimit => valueOver_append htext hlimit
    cases htext with
    | null => exact hflat (.null 0) hlimit hrest
    | isTrue => exact hflat (.isTrue 0) hlimit hrest
    | isFalse => exact hflat (.isFalse 0) hlimit hrest
    | number _ hnumber => exact hflat (.number 0 hnumber) hlimit hrest
    | string _ hstring => exact hflat (.string 0 hstring) hlimit hrest
    | emptyArray _ hblanks =>
        exact valueOver_array (items_of_blanks hbracket hblanks element limit rest)
    | array helements =>
        have hcontents := length_contents_le hlimit
        exact valueOver_array
          (hreads.items_append hbracket (elementsText_iff.mp helements) hcontents rest)
    | emptyObject _ hblanks => exact valueOver_object (object_of_blanks hblanks element rest)
    | object hmembers hallows hfolded =>
        have hcontents := length_contents_le hlimit
        rw [folded_iff.mp hfolded]
        exact valueOver_object (object_of_membersText hdialect hreads
          (membersText_iff.mp hmembers) hallows hcontents rest)
    | markedNumber _ hmarkedDialect hmarked =>
        have hcontents := length_contents_le hlimit
        rw [hmarkedDialect]
        exact valueOver_object (object_of_markedText hmarked hcontents element rest)
  exists_text := by
    intro cs found rest hok
    rcases valueOver_cases hok dialect with ⟨text, htext, hskip⟩ |
      ⟨_, unread, elements, hnested, hskip, hitems, rfl⟩ |
      ⟨_, unread, hnested, hskip, hobject⟩
    · exact ⟨text, htext.of_zero dialect _, hskip⟩
    · cases hnested
      obtain ⟨text, rfl, ⟨hblanks, rfl⟩ | htext⟩ := hreads.exists_of_items hitems
      · exact ⟨_, .emptyArray levels hblanks, by rw [hskip]; simp [Container.array]⟩
      · exact ⟨_, .array (elementsText_iff.mpr htext),
          by rw [hskip]; simp [Container.array]⟩
    · cases hnested
      obtain ⟨text, htext, rfl⟩ := exists_of_object hdialect hreads hobject
      exact ⟨_, htext, by rw [hskip]; simp⟩

theorem value_zero (mark : Option String) (hex : Scan Char) (steps : ℕ) :
    value mark hex steps 0 = valueOver mark hex steps none := by
  funext cs
  rfl

theorem value_succ (mark : Option String) (hex : Scan Char) (steps levels : ℕ) :
    value mark hex steps (levels + 1) =
      valueOver mark hex steps (some (value mark hex steps levels)) := by
  funext cs
  rfl

/-- Values are read by the grammar, at every number of containers. -/
theorem reads_value (hdialect : dialect ≠ .unmarked) (limit levels : ℕ) :
    Reads (ValueText dialect levels) limit (value dialect.mark? hexEscape limit levels) := by
  induction levels with
  | zero => exact reads_value_zero dialect dialect.mark? limit
  | succ levels ih =>
      rw [value_succ]
      exact ih.nested hdialect

/-- Without a mark, what is read is the standard dialect. -/
theorem reads_standard (limit levels : ℕ) :
    Reads (ValueText .standard levels) limit (value none hexEscape limit levels) :=
  @reads_value .standard (by decide) limit levels

/-! ## Documents -/

theorem toEnd_value_eq_ok_iff (hdialect : dialect ≠ .unmarked) {cs : List Char}
    {found : Value} :
    toEnd (value dialect.mark? hexEscape cs.length levels) cs = .ok found ↔
      DocumentText dialect levels cs found := by
  have hreads := reads_value hdialect cs.length levels
  rw [toEnd_eq_ok_iff]
  constructor
  · rintro ⟨after, hafter, hok⟩
    obtain ⟨before, body, hbefore, hbody, hcs⟩ := hreads.exists_blanks_text hok
    exact ⟨before, body, after, hbefore, hbody, hafter, hcs⟩
  · rintro ⟨before, body, after, hbefore, hbody, hafter, hcs⟩
    have hlength : body.length ≤ cs.length := by
      rw [hcs, List.length_append, List.length_append]
      omega
    have hends : EndsNumber after := by
      rw [← List.append_nil after]
      exact endsNumber_of_blanks hafter endsNumber_nil
    have hok := hreads.append_of_blanks hbefore hbody hlength hends
    rw [← List.append_assoc, ← hcs] at hok
    exact ⟨after, hafter, hok⟩

end Dialects

end Reader

open Grammar (Dialect DocumentText UnmarkedText)

variable {text : String} {value : Value}

/-- A text denotes one document at most, in every dialect that has a reader. -/
theorem eq_of_documentText {dialect : Dialect} (hdialect : dialect ≠ .unmarked)
    {levels : ℕ} {cs : List Char} {document other : Value}
    (hdocument : DocumentText dialect levels cs document)
    (hother : DocumentText dialect levels cs other) : other = document := by
  rw [← Reader.toEnd_value_eq_ok_iff hdialect] at hdocument hother
  exact Except.ok.inj (hother.symm.trans hdocument)

/-- A text is read exactly if it is in the marked dialect, as the value it denotes. -/
theorem read_eq_ok_iff_text :
    read text = .ok value ↔ DocumentText .marked maxDepth text.toList value := by
  have hdocument : Reader.document text.toList = .ok value ↔
      DocumentText .marked maxDepth text.toList value :=
    @Reader.toEnd_value_eq_ok_iff .marked maxDepth (by decide) text.toList value
  rw [← hdocument, read]
  cases Reader.document text.toList with
  | error fault => simp [Except.mapError]
  | ok found => simp [Except.mapError]

/-- Without the key that marks a number, a text is read as what it denotes in the standard
dialect. -/
theorem read_eq_ok_iff_standard (hunmarked : UnmarkedText maxDepth text.toList) :
    read text = .ok value ↔ DocumentText .standard maxDepth text.toList value := by
  rw [read_eq_ok_iff_text]
  constructor
  · intro hmarked
    obtain ⟨other, hother⟩ := hmarked.exists_standard
    have hsame := eq_of_documentText (by decide) hmarked
      ((hunmarked other hother).of_unmarked .marked)
    exact hsame ▸ hother
  · exact fun hstandard => (hunmarked value hstandard).of_unmarked .marked

/-- What is read is nested within the limit, and no object in it repeats a key. -/
theorem depth_le_and_distinctKeys_of_read (hread : read text = .ok value) :
    value.depth ≤ maxDepth ∧ value.DistinctKeys := by
  obtain ⟨_, body, _, _, hbody, _⟩ := read_eq_ok_iff_text.mp hread
  exact ⟨hbody.depth_le, hbody.distinctKeys⟩

end FlowMigration.Json
