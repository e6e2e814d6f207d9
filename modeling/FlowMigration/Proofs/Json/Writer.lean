import FlowMigration.Json.Reader
import FlowMigration.Json.Writer
import FlowMigration.Proofs.Json.Grammar

/-!
# What the writer writes

Every layout writes texts of the grammar, which denote the value that is written.
The layouts differ in blanks only, so one induction on the nesting of the value serves
them all.  A value without the key that marks a number is written without it.
-/

namespace FlowMigration.Json

namespace Number

/-- The characters that numbers are written with. -/
def alphabet : List Char :=
  ['0', '1', '2', '3', '4', '5', '6', '7', '8', '9', '-', '+', '.', 'e']

theorem mem_alphabet_of_mem_text {number : Number} : ∀ c ∈ number.text, c ∈ alphabet := by
  have hnumeral : ∀ numeral : Numeral, ∀ c ∈ numeral.text, c ∈ alphabet := by
    have hdigit : ∀ d : Digit, d.char ∈ alphabet := by decide
    intro numeral
    rw [Numeral.text, List.forall_mem_map]
    exact fun d _ => hdigit d
  have hsign : ∀ c ∈ signText number.negative, c ∈ alphabet := by
    cases number.negative
    all_goals simp [signText, alphabet]
  have hfraction : ∀ c ∈ fractionText number.fraction, c ∈ alphabet := by
    cases number.fraction with
    | none => simp [fractionText]
    | some digits =>
        rw [fractionText, List.forall_mem_cons]
        exact ⟨by decide, hnumeral digits⟩
  have hexponent : ∀ c ∈ exponentText number.exponent, c ∈ alphabet := by
    cases number.exponent with
    | none => simp [exponentText]
    | some exponent =>
        rw [exponentText, List.forall_mem_cons, List.forall_mem_cons]
        refine ⟨by decide, ?_, hnumeral exponent.digits⟩
        split
        all_goals decide
  simp only [text, List.forall_mem_append]
  exact ⟨⟨⟨hsign, hnumeral number.whole⟩, hfraction⟩, hexponent⟩

end Number

namespace Writer

open Grammar (Blanks CharText CharsText ContentsText Dialect NumberText PairText StringText
  ValueText blanks_nil elementsText_iff folded_self itemsText_flatMap membersText_iff)

/-! ## Blanks between the parts -/

/-- The blanks before an item are those of its levels, one unit for each. -/
theorem lineBreak_indented (width level : ℕ) :
    (Layout.indented width).lineBreak level = '\n' :: List.replicate (level * width) ' ' := by
  rw [Layout.lineBreak, Layout.unit, List.flatten_replicate_replicate]

theorem blanks_lineBreak (layout : Layout) (level : ℕ) :
    Blanks (layout.lineBreak level) := by
  cases layout with
  | compact => exact blanks_nil
  | indented width =>
      rw [lineBreak_indented]
      intro c hmem
      rcases List.mem_cons.mp hmem with rfl | hmem
      · decide
      · rw [List.eq_of_mem_replicate hmem]
        decide

theorem exists_blanks_colon (layout : Layout) :
    ∃ blanks, Blanks blanks ∧ layout.colon = ':' :: blanks := by
  cases layout with
  | compact => exact ⟨[], blanks_nil, rfl⟩
  | indented width =>
      refine ⟨[' '], ?_, rfl⟩
      intro c hmem
      rw [List.mem_singleton.mp hmem]
      decide

/-! ## Numbers and strings -/

theorem numberText_text (number : Number) : NumberText number.text number := by
  refine ⟨Number.exponentText number.exponent, ?_, rfl⟩
  cases number.exponent with
  | none => exact .absent
  | some exponent =>
      obtain ⟨negative, digits⟩ := exponent
      cases negative with
      | true => exact .negative 'e' digits List.mem_cons_self
      | false => exact .positive 'e' digits List.mem_cons_self

/-- A control character has an escape of four digits. -/
theorem charText_digits {c : Char} (hc : c.toNat < 0x20) :
    CharText ('\\' :: 'u' :: Hex.digits 4 c.toNat) c := by
  apply CharText.unit
  constructor
  · exact Hex.length_digits 4 c.toNat
  · rw [Hex.value?_digits, Nat.mod_eq_of_lt]
    exact Nat.lt_trans hc (by decide)

theorem charText_escaped (c : Char) : CharText (escaped c) c := by
  have hshort : ∀ letter, (letter, c) ∈ Grammar.shortEscapes →
      CharText ['\\', letter] c :=
    fun letter hmem => .short letter c hmem
  unfold escaped
  split_ifs with hquote hbackslash hback hfeed hline hreturn htab hcontrol
  · exact hshort '"' (by rw [hquote]; decide)
  · exact hshort '\\' (by rw [hbackslash]; decide)
  · exact hshort 'b' (by rw [hback]; decide)
  · exact hshort 'f' (by rw [hfeed]; decide)
  · exact hshort 'n' (by rw [hline]; decide)
  · exact hshort 'r' (by rw [hreturn]; decide)
  · exact hshort 't' (by rw [htab]; decide)
  · exact charText_digits hcontrol
  · exact .plain c hquote hbackslash (Nat.not_lt.mp hcontrol)

theorem charsText_escaped (chars : List Char) :
    CharsText (chars.flatMap escaped) chars := by
  induction chars with
  | nil => exact .nil
  | cons c rest ih => exact .cons (charText_escaped c) ih

theorem stringText_quoted (text : String) : StringText (quoted text) text :=
  ⟨text.toList.flatMap escaped, charsText_escaped text.toList, rfl⟩

/-! ## Containers -/

theorem moreElements_eq_flatMap (layout : Layout) (level : ℕ) (elements : List Value) :
    moreElements layout level elements =
      elements.flatMap fun element =>
        ',' :: layout.lineBreak level ++ value layout level element := by
  induction elements with
  | nil => rfl
  | cons element rest ih => rw [moreElements, ih, List.flatMap_cons]

/-- The text of a member. -/
def pair (layout : Layout) (level : ℕ) (member : String × Value) : List Char :=
  quoted member.1 ++ layout.colon ++ value layout level member.2

theorem moreMembers_eq_flatMap (layout : Layout) (level : ℕ) (members : Members Value) :
    moreMembers layout level members =
      members.flatMap fun member =>
        ',' :: layout.lineBreak level ++ pair layout level member := by
  induction members with
  | nil => rfl
  | cons member rest ih =>
      rw [moreMembers, ih, List.flatMap_cons, pair]
      simp

/-- The items of a container, each on a line of its own, with commas between them. -/
def itemLines {α : Type} (layout : Layout) (level : ℕ) (write : α → List Char) (first : α)
    (rest : List α) : List Char :=
  (layout.lineBreak level ++ write first) ++
    rest.flatMap fun item => [','] ++ (layout.lineBreak level ++ write item)

/-- A container between its brackets. -/
def container {α : Type} (opening closing : Char) (layout : Layout) (level : ℕ)
    (write : α → List Char) : List α → List Char
  | [] => [opening, closing]
  | first :: rest =>
      opening :: (itemLines layout (level + 1) write first rest ++ layout.lineBreak level) ++
        [closing]

theorem value_array (layout : Layout) (level : ℕ) (elements : List Value) :
    value layout level (.array elements) =
      container '[' ']' layout level (value layout (level + 1)) elements := by
  cases elements with
  | nil => rfl
  | cons first rest =>
      rw [value, moreElements_eq_flatMap, container, itemLines]
      simp

theorem value_object (layout : Layout) (level : ℕ) (members : Members Value) :
    value layout level (.object members) =
      container '{' '}' layout level (pair layout (level + 1)) members := by
  cases members with
  | nil => rfl
  | cons first rest =>
      rw [value, moreMembers_eq_flatMap, container, itemLines]
      simp [pair]

section Containers

variable {dialect : Dialect} (layout : Layout) {level levels : ℕ}

theorem pairText_pair {member : String × Value}
    (hcontent : ValueText dialect levels (value layout level member.2) member.2) :
    PairText dialect levels (pair layout level member) member := by
  obtain ⟨between, hbetween, hcolon⟩ := exists_blanks_colon layout
  refine ⟨quoted member.1, [], between, value layout level member.2,
    stringText_quoted member.1, blanks_nil, hbetween, hcontent, ?_⟩
  rw [pair, hcolon]
  simp

theorem valueText_array {elements : List Value}
    (helements : ∀ element ∈ elements,
      ValueText dialect levels (value layout (level + 1) element) element) :
    ValueText dialect (levels + 1) (value layout level (.array elements))
      (.array elements) := by
  cases elements with
  | nil => exact .emptyArray levels blanks_nil
  | cons first rest =>
      have hbefore := blanks_lineBreak layout (level + 1)
      have hafter := blanks_lineBreak layout level
      have hitems := itemsText_flatMap hbefore hafter (value layout (level + 1)) first
        rest helements
      rw [← moreElements_eq_flatMap] at hitems
      have htext := ValueText.array (elementsText_iff.mpr hitems)
      rw [value]
      simpa using htext

/-- The members of an object are all written, in order. -/
theorem exists_membersText {members : Members Value}
    (hmembers : ∀ member ∈ members,
      ValueText dialect levels (value layout (level + 1) member.2) member.2) :
    ∃ body, ContentsText dialect levels body members ∧
      value layout level (.object members) = '{' :: body ++ ['}'] := by
  cases members with
  | nil => exact ⟨[], .inl ⟨blanks_nil, rfl⟩, rfl⟩
  | cons first rest =>
      have hbefore := blanks_lineBreak layout (level + 1)
      have hafter := blanks_lineBreak layout level
      have hitems := itemsText_flatMap hbefore hafter (pair layout (level + 1)) first rest
        fun member hmem => pairText_pair layout (hmembers member hmem)
      rw [← moreMembers_eq_flatMap] at hitems
      refine ⟨_, .inr (membersText_iff.mpr hitems), ?_⟩
      rw [value]
      simp [pair]

theorem valueText_object {members : Members Value} (hnodup : (Entries.keys members).Nodup)
    (hallows : dialect.Allows (Entries.keys members))
    (hmembers : ∀ member ∈ members,
      ValueText dialect levels (value layout (level + 1) member.2) member.2) :
    ValueText dialect (levels + 1) (value layout level (.object members))
      (.object members) := by
  obtain ⟨body, ⟨hblanks, rfl⟩ | htext, hvalue⟩ := exists_membersText layout hmembers
  · rw [hvalue]
    exact .emptyObject levels hblanks
  · rw [hvalue]
    exact .object htext hallows (folded_self hnodup)

end Containers

/-! ## Values -/

theorem valueText_of_depth_zero (dialect : Dialect) (layout : Layout) {found : Value}
    (hdepth : found.depth = 0) (level : ℕ) :
    ValueText dialect 0 (value layout level found) found := by
  cases found with
  | null => exact .null 0
  | bool truth =>
      cases truth with
      | true => exact .isTrue 0
      | false => exact .isFalse 0
  | number number => exact .number 0 (numberText_text number)
  | string text => exact .string 0 (stringText_quoted text)
  | array elements => cases hdepth
  | object members => cases hdepth

/-- Whatever the layout, what is written for a value is a text of that value. -/
theorem valueText_value (layout : Layout) {levels : ℕ} {found : Value}
    (hdepth : found.depth ≤ levels) (hdistinct : found.DistinctKeys)
    (hunmarked : found.Unmarked) (level : ℕ) :
    ValueText .unmarked levels (value layout level found) found := by
  induction levels generalizing found level with
  | zero => exact valueText_of_depth_zero .unmarked layout (Nat.le_zero.mp hdepth) level
  | succ levels ih =>
      cases found with
      | null | bool | number | string =>
          exact (valueText_of_depth_zero .unmarked layout rfl level).of_zero .unmarked _
      | array elements =>
          rw [Value.depth_array_le_iff] at hdepth
          rw [Value.distinctKeys_array_iff] at hdistinct
          rw [Value.Unmarked, Value.eachObject_array_iff] at hunmarked
          apply valueText_array
          intro element hmem
          exact ih (hdepth element hmem) (hdistinct element hmem) (hunmarked element hmem) _
      | object members =>
          rw [Value.depth_object_le_iff] at hdepth
          rw [Value.distinctKeys_object_iff] at hdistinct
          rw [Value.Unmarked, Value.eachObject_object_iff] at hunmarked
          have hallows : Dialect.unmarked.Allows (Entries.keys members) := hunmarked.1
          apply valueText_object layout hdistinct.1 hallows
          intro member hmem
          exact ih (hdepth member hmem) (hdistinct.2 member hmem) (hunmarked.2 member hmem) _

end Writer

open Grammar (DocumentText)

/-- An indented text is one of the document, with the final newline after it. -/
theorem documentText_render {document : Value} (hdepth : document.depth ≤ maxDepth)
    (hdistinct : document.DistinctKeys) (hunmarked : document.Unmarked) (indent : ℕ) :
    DocumentText .unmarked maxDepth (document.render indent).toList document := by
  refine ⟨[], Writer.value (.indented indent) 0 document, ['\n'], Grammar.blanks_nil,
    Writer.valueText_value (.indented indent) hdepth hdistinct hunmarked 0, ?_, ?_⟩
  · intro c hmem
    rw [List.mem_singleton.mp hmem]
    decide
  · rw [Value.render, String.toList_ofList]
    rfl

end FlowMigration.Json
