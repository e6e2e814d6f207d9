import FlowMigration.Proofs.Flow.Uuid
import FlowMigration.Proofs.Json.Member
import FlowMigration.Proofs.Json.Writer
import FlowMigration.Flow.Log

/-!
# Texts on one line

A log has one line for each event, which holds as long as no text in an event breaks the
line.  The writers of compact documents, of identifiers and of visible texts never do.
-/

namespace FlowMigration

/-- A text without a line break. -/
def OneLine (cs : List Char) : Prop :=
  '\n' ∉ cs

instance (cs : List Char) : Decidable (OneLine cs) :=
  inferInstanceAs (Decidable ('\n' ∉ cs))

/-- The lines of a text. -/
def linesOf : List Char → List (List Char)
  | [] => []
  | c :: cs =>
      if c = '\n' then [] :: linesOf cs
      else
        match linesOf cs with
        | [] => [[c]]
        | first :: rest => (c :: first) :: rest

theorem linesOf_append {line : List Char} (hline : OneLine line) (rest : List Char) :
    linesOf (line ++ '\n' :: rest) = line :: linesOf rest := by
  induction line with
  | nil => simp [linesOf]
  | cons c cs ih =>
      rw [OneLine, List.mem_cons, not_or] at hline
      simp [linesOf, Ne.symm hline.1, ih hline.2]

/-- Lines that are written one after the other are the lines of what is written. -/
theorem linesOf_flatMap {lines : List (List Char)} (hlines : ∀ line ∈ lines, OneLine line)
    (rest : List Char) :
    linesOf (lines.flatMap (fun line => line ++ ['\n']) ++ rest) = lines ++ linesOf rest := by
  induction lines with
  | nil => rfl
  | cons line lines ih =>
      rw [List.forall_mem_cons] at hlines
      rw [List.flatMap_cons, List.append_assoc, List.append_assoc, List.singleton_append,
        linesOf_append hlines.1, ih hlines.2, List.cons_append]

namespace OneLine

/-! ## Texts put together -/

@[simp]
theorem nil : OneLine [] := by simp [OneLine]

@[simp]
theorem append_iff {left right : List Char} :
    OneLine (left ++ right) ↔ OneLine left ∧ OneLine right := by
  simp [OneLine]

theorem text_append {left right : String} (hleft : OneLine left.toList)
    (hright : OneLine right.toList) : OneLine (left ++ right).toList := by
  rw [String.toList_append, append_iff]
  exact ⟨hleft, hright⟩

@[simp]
theorem cons_iff {c : Char} {cs : List Char} :
    OneLine (c :: cs) ↔ c ≠ '\n' ∧ OneLine cs := by
  simp [OneLine, eq_comm]

theorem flatMap_iff {α : Type} {items : List α} {write : α → List Char} :
    OneLine (items.flatMap write) ↔ ∀ item ∈ items, OneLine (write item) := by
  simp [OneLine]

theorem intercalate {separator : List Char} {parts : List (List Char)}
    (hseparator : OneLine separator) (hparts : ∀ part ∈ parts, OneLine part) :
    OneLine (separator.intercalate parts) := by
  induction parts with
  | nil => simp [List.intercalate]
  | cons first rest ih =>
      rw [List.forall_mem_cons] at hparts
      cases rest with
      | nil => simpa [List.intercalate] using hparts.1
      | cons second rest =>
          rw [List.intercalate_cons_cons, append_iff, append_iff]
          exact ⟨⟨hparts.1, hseparator⟩, ih hparts.2⟩

/-! ## Digits -/

theorem nat (n : ℕ) : OneLine (toString n).toList := by
  intro hmem
  have hdigit := Nat.isDigit_of_mem_toDigits (by decide) (by decide)
    (Nat.toList_repr ▸ hmem : '\n' ∈ Nat.toDigits 10 n)
  cases hdigit

theorem of_lowerDigits {cs : List Char} (hlower : ∀ c ∈ cs, c ∈ Hex.lowerDigits) :
    OneLine cs := by
  have hbreak : '\n' ∉ Hex.lowerDigits := by decide
  exact fun hmem => hbreak (hlower _ hmem)

theorem hexDigits (width n : ℕ) : OneLine (Hex.digits width n) :=
  of_lowerDigits Hex.mem_lowerDigits_of_mem_digits

theorem uuid (uuid : Uuid) : OneLine (toString uuid).toList := by
  obtain ⟨groups, -, hlower, -, htext⟩ := Uuid.textOf_text uuid
  change OneLine (String.ofList uuid.text).toList
  rw [String.toList_ofList, htext]
  apply intercalate
  · decide
  · intro group hgroup
    apply of_lowerDigits
    intro c hc
    exact hlower c (List.mem_flatten_of_mem hgroup hc)

theorem number (number : Json.Number) : OneLine number.text := by
  have hbreak : '\n' ∉ Json.Number.alphabet := by decide
  exact fun hmem => hbreak (Json.Number.mem_alphabet_of_mem_text _ hmem)

/-! ## Documents -/

theorem escaped (c : Char) : OneLine (Json.Writer.escaped c) := by
  unfold Json.Writer.escaped
  split_ifs with _ _ _ _ hline
  case neg => simpa using hline
  all_goals simp [hexDigits]

theorem quoted (text : String) : OneLine (Json.Writer.quoted text) := by
  simp [Json.Writer.quoted, flatMap_iff, escaped]

theorem value_of_depth_zero {found : Json.Value} (hdepth : found.depth = 0) (level : ℕ) :
    OneLine (Json.Writer.value .compact level found) := by
  cases found with
  | null => simp [Json.Writer.value]
  | bool truth => cases truth <;> simp [Json.Writer.value]
  | number found => exact number found
  | string text => exact quoted text
  | array elements => cases hdepth
  | object members => cases hdepth

theorem container {α : Type} {opening closing : Char} {write : α → List Char}
    {items : List α} (hbrackets : opening ≠ '\n' ∧ closing ≠ '\n')
    (hitems : ∀ item ∈ items, OneLine (write item)) (level : ℕ) :
    OneLine (Json.Writer.container opening closing .compact level write items) := by
  cases items with
  | nil => simp [Json.Writer.container, hbrackets]
  | cons first rest =>
      rw [List.forall_mem_cons] at hitems
      simpa [Json.Writer.container, Json.Writer.itemLines, Json.Layout.lineBreak, flatMap_iff,
        hbrackets, hitems.1] using hitems.2

/-- A compact text has no line break, however deep the value. -/
theorem value (found : Json.Value) (level : ℕ) :
    OneLine (Json.Writer.value .compact level found) := by
  induction found using Json.Value.nested_induction generalizing level with
  | flat found hdepth => exact value_of_depth_zero hdepth level
  | array elements ih =>
      rw [Json.Writer.value_array]
      apply container (by decide)
      exact fun element hmem => ih element hmem (level + 1)
  | object members ih =>
      rw [Json.Writer.value_object]
      apply container (by decide)
      intro member hmem
      simp [Json.Writer.pair, Json.Layout.colon, quoted, ih member hmem (level + 1)]

/-! ## Visible texts -/

section Visible

variable (hasGlyph : Char → Bool)

/-- A line break is escaped whichever characters have a glyph. -/
theorem shown (c : Char) : OneLine (Visible.shown hasGlyph c) := by
  unfold Visible.shown
  split_ifs
  all_goals simp [Hex.minimal, hexDigits, *]

theorem visible (texts : List String) : OneLine (Visible.list hasGlyph texts).toList := by
  have hquoted : ∀ part ∈ texts.map (Visible.quoted hasGlyph), OneLine part := by
    intro part hmem
    obtain ⟨text, -, rfl⟩ := List.mem_map.mp hmem
    simp [Visible.quoted, flatMap_iff, shown]
  have hlist := intercalate (show OneLine [',', ' '] by simp) hquoted
  simp [Visible.list, hlist]

end Visible

end OneLine

end FlowMigration
