import FlowMigration.Proofs.Json.Brackets
import FlowMigration.Proofs.Text.Lines

/-!
# The layout of a document

An indented text has each element and each member on a line of its own, and a line is
indented by the containers that are open around it.  The width of the indentation bears on
nothing else: the lines are the same at every width once their leading blanks are gone, and
a text without its blanks is the compact one.
-/

namespace FlowMigration.Json

open Progress (Condenses Unmoved inside outside)

/-! ## Scalars -/

theorem ordinary_number (number : Number) : ∀ c ∈ number.text, Ordinary c := by
  have halphabet : ∀ c ∈ Number.alphabet, Ordinary c := by simp [Number.alphabet, Ordinary]
  exact fun c hc => halphabet c (Number.mem_alphabet_of_mem_text c hc)

theorem condenses_escaped (c : Char) (opened : ℕ) :
    Condenses (inside opened) (Writer.escaped c) (Writer.escaped c) := by
  unfold Writer.escaped
  split_ifs with hquote hbackslash
  any_goals exact condenses_backslash _ opened
  · have hdigit : ∀ c ∈ Hex.lowerDigits, c ≠ '"' ∧ c ≠ '\\' := by simp [Hex.lowerDigits]
    have hdigits : Condenses (inside opened) (Hex.digits 4 c.toNat) (Hex.digits 4 c.toNat) := by
      apply condenses_inside
      exact fun d hd => hdigit d (Hex.mem_lowerDigits_of_mem_digits d hd)
    exact (condenses_backslash 'u' opened).append hdigits
  · apply condenses_inside
    simp [hquote, hbackslash]

/-- A string stays as it is, whatever brackets, quotes and blanks it holds. -/
theorem condenses_quoted (text : String) (opened : ℕ) :
    Condenses (outside opened) (Writer.quoted text) (Writer.quoted text) := by
  have hbody : Condenses (inside opened) (text.toList.flatMap Writer.escaped)
      (text.toList.flatMap Writer.escaped) :=
    .flatMap fun c _ => condenses_escaped c opened
  exact condenses_quotes hbody

/-- What is no container is written alike in every layout. -/
theorem value_of_depth_zero_eq {found : Value} (hdepth : found.depth = 0) (layout : Layout)
    (level : ℕ) : Writer.value layout level found = Writer.value .compact level found := by
  cases found with
  | array elements => cases hdepth
  | object members => cases hdepth
  | bool truth => cases truth <;> rfl
  | _ => rfl

theorem condenses_value_of_depth_zero {found : Value} (hdepth : found.depth = 0)
    (layout : Layout) (level opened : ℕ) :
    Condenses (outside opened) (Writer.value layout level found)
      (Writer.value .compact level found) := by
  rw [value_of_depth_zero_eq hdepth layout]
  cases found with
  | null =>
      apply condenses_ordinary
      simp [Writer.value, Ordinary]
  | bool truth =>
      apply condenses_ordinary
      cases truth
      all_goals simp [Writer.value, Ordinary]
  | number number => exact condenses_ordinary (ordinary_number number) opened
  | string text => exact condenses_quoted text opened
  | array elements => cases hdepth
  | object members => cases hdepth

namespace Writer

/-! ## Without blanks -/

theorem condenses_lineBreak (layout : Layout) (level opened : ℕ) :
    Condenses (outside opened) (layout.lineBreak level) (Layout.compact.lineBreak level) := by
  cases layout with
  | compact => exact .nil
  | indented width =>
      rw [lineBreak_indented]
      apply Condenses.of_blank
      intro c hc
      rcases List.mem_cons.mp hc with rfl | hc
      · decide
      · rw [List.eq_of_mem_replicate hc]
        decide

theorem condenses_colon (layout : Layout) (opened : ℕ) :
    Condenses (outside opened) layout.colon Layout.compact.colon := by
  have hcolon : Condenses (outside opened) [':'] [':'] :=
    condenses_ordinary (by simp [Ordinary]) opened
  cases layout with
  | compact => exact hcolon
  | indented width => exact hcolon.append (.of_blank (by simp))

theorem condenses_itemLines {α : Type} (layout : Layout) {level opened : ℕ}
    {write brief : α → List Char} {first : α} {rest : List α}
    (hitems : ∀ item ∈ first :: rest, Condenses (outside opened) (write item) (brief item)) :
    Condenses (outside opened) (itemLines layout level write first rest)
      (itemLines .compact level brief first rest) := by
  rw [List.forall_mem_cons] at hitems
  have hbreak := condenses_lineBreak layout level opened
  have hcomma : Condenses (outside opened) [','] [','] :=
    condenses_ordinary (by simp [Ordinary]) opened
  apply (hbreak.append hitems.1).append
  apply Condenses.flatMap
  intro item hmem
  exact hcomma.append (hbreak.append (hitems.2 item hmem))

theorem condenses_container {α : Type} {opening closing : Char}
    (hbrackets : (opening, closing) ∈ brackets) (layout : Layout) {level opened : ℕ}
    {write brief : α → List Char} {items : List α}
    (hitems : ∀ item ∈ items, Condenses (outside (opened + 1)) (write item) (brief item)) :
    Condenses (outside opened) (container opening closing layout level write items)
      (container opening closing .compact level brief items) := by
  cases items with
  | nil => exact condenses_brackets hbrackets .nil
  | cons first rest =>
      apply condenses_brackets hbrackets
      exact (condenses_itemLines layout hitems).append (condenses_lineBreak layout level _)

/-- A text of any layout is the compact text with blanks outside of its strings. -/
theorem condenses_value (layout : Layout) (found : Value) (level opened : ℕ) :
    Condenses (outside opened) (value layout level found) (value .compact level found) := by
  induction found using Value.nested_induction generalizing level opened with
  | flat found hdepth => exact condenses_value_of_depth_zero hdepth layout level opened
  | array elements ih =>
      rw [value_array, value_array]
      apply condenses_container array_mem_brackets layout
      exact fun element hmem => ih element hmem (level + 1) (opened + 1)
  | object members ih =>
      rw [value_object, value_object]
      apply condenses_container object_mem_brackets layout
      intro member hmem
      apply Condenses.append
      · exact (condenses_quoted member.1 (opened + 1)).append (condenses_colon layout _)
      · exact ih member hmem (level + 1) (opened + 1)

end Writer

/-! ## Lines -/

/-- A line of a layout: what is on it after the blanks, and how many levels it is
indented by. -/
structure Line where
  level : ℕ
  content : List Char

def Line.text (width : ℕ) (line : Line) : List Char :=
  List.replicate (width * line.level) ' ' ++ line.content

/-- A text that starts with something else than a blank. -/
def StartsDark (cs : List Char) : Prop :=
  ∃ c rest, cs = c :: rest ∧ c ∉ [' ', '\n']

theorem StartsDark.append {cs : List Char} (hcs : StartsDark cs) (ds : List Char) :
    StartsDark (cs ++ ds) := by
  obtain ⟨c, rest, rfl, hc⟩ := hcs
  exact ⟨c, rest ++ ds, rfl, hc⟩

/-- The lines that follow when so many containers are open.  Each is indented by the
containers that it does not close. -/
inductive Laid : ℕ → List Line → Prop
  | nil (opened : ℕ) : Laid opened []
  | cons {opened next : ℕ} {line : Line} {rest : List Line} (hdark : StartsDark line.content)
      (hline : OneLine line.content) (hkept : (outside opened).kept line.content = line.level)
      (hafter : (outside opened).after line.content = outside next) (hrest : Laid next rest) :
      Laid opened (line :: rest)

/-- The end of a text that is cut into lines: the rest of the line that it starts on, and
the lines after it. -/
structure Page where
  first : List Char
  more : List Line

namespace Page

def text (width : ℕ) (page : Page) : List Char :=
  page.first ++ page.more.flatMap fun line => '\n' :: line.text width

theorem startsDark_first {page : Page} {width : ℕ} (hdark : StartsDark (page.text width)) :
    StartsDark page.first := by
  obtain ⟨c, rest, htext, hc⟩ := hdark
  obtain ⟨first, more⟩ := page
  cases first with
  | nil =>
      cases more with
      | nil => cases htext
      | cons line lines =>
          have hbreak : '\n' = c := (List.cons.inj htext).1
          simp [← hbreak] at hc
  | cons d others =>
      have hsame : d = c := (List.cons.inj htext).1
      exact ⟨d, others, rfl, hsame ▸ hc⟩

/-- The page follows a text with `opened` containers open, none of which is closed on the
line that it starts on. -/
structure Fits (opened : ℕ) (page : Page) : Prop where
  oneLine : OneLine page.first
  kept_eq : (outside opened).kept page.first = opened
  laid : ∃ next, (outside opened).after page.first = outside next ∧ Laid next page.more

namespace Fits

variable {level : ℕ} {page : Page}

theorem of_laid {lines : List Line} (hlaid : Laid level lines) : Fits level ⟨[], lines⟩ :=
  ⟨.nil, rfl, level, rfl, hlaid⟩

/-- The page starts a line of its own. -/
theorem laid_cons (hfits : page.Fits level) (hdark : StartsDark page.first) :
    Laid level (⟨level, page.first⟩ :: page.more) := by
  obtain ⟨next, hnext, hlaid⟩ := hfits.laid
  exact .cons hdark hfits.oneLine hfits.kept_eq hnext hlaid

theorem append {cs : List Char} (hcs : Unmoved (outside level) cs) (hline : OneLine cs)
    (hfits : page.Fits level) : Fits level ⟨cs ++ page.first, page.more⟩ := by
  obtain ⟨next, hnext, hlaid⟩ := hfits.laid
  refine ⟨OneLine.append_iff.mpr ⟨hline, hfits.oneLine⟩, ?_, next, ?_, hlaid⟩
  · rw [Progress.kept_append, hcs.after_eq, hcs.kept_eq, hfits.kept_eq]
    exact min_self level
  · rw [Progress.after_append, hcs.after_eq, hnext]

section Brackets

variable {opening closing : Char} (hbrackets : (opening, closing) ∈ brackets)

include hbrackets

/-- A closing bracket starts a line, with one level less than before it. -/
theorem closing_cons (hfits : page.Fits level) :
    Laid (level + 1) (⟨level, closing :: page.first⟩ :: page.more) := by
  obtain ⟨next, hnext, hlaid⟩ := hfits.laid
  have hcloses := (brackets_not_blank hbrackets).2
  refine .cons ⟨closing, _, rfl, hcloses⟩ ?_ ?_ ?_ hlaid
  · exact OneLine.cons_iff.mpr ⟨fun heq => hcloses (by simp [heq]), hfits.oneLine⟩
  · rw [Progress.kept, next_closing hbrackets, hfits.kept_eq]
    exact min_eq_right (Nat.le_succ level)
  · rw [Progress.after_cons, next_closing hbrackets, hnext]

/-- What follows an opening bracket on its line has one level more around it. -/
theorem opening_cons (hfits : page.Fits (level + 1)) :
    Fits level ⟨opening :: page.first, page.more⟩ := by
  obtain ⟨next, hnext, hlaid⟩ := hfits.laid
  have hopens := (brackets_not_blank hbrackets).1
  refine ⟨?_, ?_, next, ?_, hlaid⟩
  · exact OneLine.cons_iff.mpr ⟨fun heq => hopens (by simp [heq]), hfits.oneLine⟩
  · rw [Progress.kept, next_opening hbrackets, hfits.kept_eq]
    exact min_eq_left (Nat.le_succ level)
  · rw [Progress.after_cons, next_opening hbrackets, hnext]

end Brackets

end Fits

end Page

/-- Whatever follows it, a text with `level` containers open is cut into lines in the same
way at every width. -/
def Prints (level : ℕ) (write : ℕ → List Char) : Prop :=
  ∀ after : Page, after.Fits level →
    ∃ page : Page, page.Fits level ∧
      ∀ width, write width ++ after.text width = page.text width

namespace Prints

variable {level : ℕ}

theorem nil : Prints level fun _ => [] :=
  fun after hafter => ⟨after, hafter, fun _ => rfl⟩

theorem append {write print : ℕ → List Char} (hwrite : Prints level write)
    (hprint : Prints level print) : Prints level fun width => write width ++ print width := by
  intro after hafter
  obtain ⟨later, hlater, hlaterText⟩ := hprint after hafter
  obtain ⟨page, hpage, hpageText⟩ := hwrite later hlater
  refine ⟨page, hpage, fun width => ?_⟩
  rw [List.append_assoc, hlaterText, hpageText]

theorem flatMap {α : Type} {items : List α} {write : α → ℕ → List Char}
    (hitems : ∀ item ∈ items, Prints level (write item)) :
    Prints level fun width => items.flatMap fun item => write item width := by
  induction items with
  | nil => exact nil
  | cons item items ih =>
      rw [List.forall_mem_cons] at hitems
      exact hitems.1.append (ih hitems.2)

/-- What moves nothing and breaks no line stands on the line that it starts on. -/
theorem of_unmoved {cs : List Char} (hcs : Unmoved (outside level) cs) (hline : OneLine cs) :
    Prints level fun _ => cs := by
  intro after hafter
  refine ⟨⟨cs ++ after.first, after.more⟩, hafter.append hcs hline, fun width => ?_⟩
  rw [Page.text, Page.text, List.append_assoc]

/-- A line break before a text starts a line with as many levels as containers are open. -/
theorem lineBreak_append {write : ℕ → List Char} (hwrite : Prints level write)
    (hdark : ∀ width, StartsDark (write width)) :
    Prints level fun width => (Layout.indented width).lineBreak level ++ write width := by
  intro after hafter
  obtain ⟨page, hpage, hpageText⟩ := hwrite after hafter
  have hfirst : StartsDark page.first := by
    apply Page.startsDark_first
    rw [← hpageText 0]
    exact (hdark 0).append _
  refine ⟨⟨[], ⟨level, page.first⟩ :: page.more⟩, .of_laid (hpage.laid_cons hfirst),
    fun width => ?_⟩
  rw [List.append_assoc, hpageText]
  simp [Page.text, Line.text, Writer.lineBreak_indented, Nat.mul_comm]

/-- The closing bracket of a container stands on a line of its own. -/
theorem wrap {opening closing : Char} (hbrackets : (opening, closing) ∈ brackets)
    {write : ℕ → List Char} (hwrite : Prints (level + 1) write) :
    Prints level fun width =>
      opening :: (write width ++ (Layout.indented width).lineBreak level) ++ [closing] := by
  intro after hafter
  let rest : Page := ⟨[], ⟨level, closing :: after.first⟩ :: after.more⟩
  obtain ⟨page, hpage, hpageText⟩ := hwrite rest (.of_laid (hafter.closing_cons hbrackets))
  refine ⟨⟨opening :: page.first, page.more⟩, hpage.opening_cons hbrackets, fun width => ?_⟩
  calc
    _ = opening :: (write width ++ rest.text width) := by
      simp [rest, Page.text, Line.text, Writer.lineBreak_indented, Nat.mul_comm]
    _ = opening :: page.text width := by rw [hpageText]
    _ = (Page.mk (opening :: page.first) page.more).text width := rfl

end Prints

/-! ## The lines of a value -/

namespace Writer

theorem startsDark_container {α : Type} {opening closing : Char}
    (hbrackets : (opening, closing) ∈ brackets) (layout : Layout) (level : ℕ)
    (write : α → List Char) (items : List α) :
    StartsDark (container opening closing layout level write items) := by
  cases items with
  | nil => exact ⟨opening, _, rfl, (brackets_not_blank hbrackets).1⟩
  | cons first rest => exact ⟨opening, _, rfl, (brackets_not_blank hbrackets).1⟩

theorem startsDark_value (layout : Layout) (level : ℕ) (found : Value) :
    StartsDark (value layout level found) := by
  cases found with
  | null => exact ⟨'n', _, rfl, by decide⟩
  | bool truth =>
      cases truth with
      | true => exact ⟨'t', _, rfl, by decide⟩
      | false => exact ⟨'f', _, rfl, by decide⟩
  | number number =>
      have hdigit : ∀ d : Digit, d.char ∉ [' ', '\n'] := by decide
      have htext : StartsDark (Number.signText number.negative ++ number.whole.text) := by
        cases number.negative with
        | true => exact ⟨'-', _, rfl, by decide⟩
        | false => exact ⟨number.whole.first.char, _, rfl, hdigit number.whole.first⟩
      exact (htext.append _).append _
  | string text => exact ⟨'"', _, rfl, by decide⟩
  | array elements =>
      rw [value_array]
      exact startsDark_container array_mem_brackets layout level _ elements
  | object members =>
      rw [value_object]
      exact startsDark_container object_mem_brackets layout level _ members

theorem startsDark_pair (layout : Layout) (level : ℕ) (member : String × Value) :
    StartsDark (pair layout level member) :=
  ⟨'"', _, rfl, by decide⟩

theorem prints_itemLines {α : Type} {level : ℕ} {write : ℕ → α → List Char} {first : α}
    {rest : List α} (hdark : ∀ item width, StartsDark (write width item))
    (hitems : ∀ item ∈ first :: rest, Prints level fun width => write width item) :
    Prints level fun width => itemLines (.indented width) level (write width) first rest := by
  have hcomma : Prints level fun _ => [','] :=
    .of_unmoved (condenses_ordinary (by simp [Ordinary]) level).toUnmoved (by decide)
  have hline : ∀ item ∈ first :: rest,
      Prints level fun width => (Layout.indented width).lineBreak level ++ write width item :=
    fun item hmem => (hitems item hmem).lineBreak_append (hdark item)
  rw [List.forall_mem_cons] at hline
  apply hline.1.append
  apply Prints.flatMap
  exact fun item hmem => hcomma.append (hline.2 item hmem)

theorem prints_container {α : Type} {opening closing : Char}
    (hbrackets : (opening, closing) ∈ brackets) {level : ℕ} {write : ℕ → α → List Char}
    {items : List α} (hdark : ∀ item width, StartsDark (write width item))
    (hitems : ∀ item ∈ items, Prints (level + 1) fun width => write width item) :
    Prints level fun width =>
      container opening closing (.indented width) level (write width) items := by
  cases items with
  | nil =>
      apply Prints.of_unmoved
      · exact (condenses_brackets hbrackets .nil).toUnmoved
      · rcases eq_of_mem_brackets hbrackets with ⟨rfl, rfl⟩ | ⟨rfl, rfl⟩
        · decide
        · decide
  | cons first rest => exact Prints.wrap hbrackets (prints_itemLines hdark hitems)

/-- A value is cut into lines in the same way at every width. -/
theorem prints_value (found : Value) (level : ℕ) :
    Prints level fun width => value (.indented width) level found := by
  -- A part of a container is followed by commas, breaks and brackets that it knows nothing of,
  -- which is why printing is said for every page that may follow.
  induction found using Value.nested_induction generalizing level with
  | flat found hdepth =>
      simp only [value_of_depth_zero_eq hdepth (.indented _)]
      apply Prints.of_unmoved
      · exact (condenses_value_of_depth_zero hdepth .compact level level).toUnmoved
      · exact OneLine.value found level
  | array elements ih =>
      simp only [value_array]
      apply prints_container array_mem_brackets
      · exact fun element width => startsDark_value _ _ element
      · exact fun element hmem => ih element hmem (level + 1)
  | object members ih =>
      simp only [value_object]
      apply prints_container object_mem_brackets
      · exact fun member width => startsDark_pair _ _ member
      · intro member hmem
        have hkey : Prints (level + 1) fun _ => quoted member.1 ++ [':', ' '] := by
          apply Prints.of_unmoved
          · exact (condenses_quoted member.1 (level + 1)).toUnmoved.append
              (condenses_colon (.indented 0) (level + 1)).toUnmoved
          · exact OneLine.append_iff.mpr ⟨OneLine.quoted member.1, by decide⟩
        exact hkey.append (ih member hmem (level + 1))

end Writer

/-- The blanks that a line starts with. -/
def indentOf (cs : List Char) : ℕ :=
  (cs.takeWhile (· == ' ')).length

def withoutIndent (cs : List Char) : List Char :=
  cs.dropWhile (· == ' ')

namespace Line

variable {line : Line}

theorem oneLine_text (hline : OneLine line.content) (width : ℕ) : OneLine (line.text width) := by
  have hblanks : OneLine (List.replicate (width * line.level) ' ') := by
    simp [OneLine, List.mem_replicate]
  exact OneLine.append_iff.mpr ⟨hblanks, hline⟩

theorem indentOf_text (hdark : StartsDark line.content) (width : ℕ) :
    indentOf (line.text width) = width * line.level := by
  obtain ⟨c, rest, hcontent, hc⟩ := hdark
  simp only [List.mem_cons, List.not_mem_nil, or_false, not_or] at hc
  simp [indentOf, text, hcontent, hc.1, List.takeWhile_append_of_pos]

theorem withoutIndent_text (hdark : StartsDark line.content) (width : ℕ) :
    withoutIndent (line.text width) = line.content := by
  obtain ⟨c, rest, hcontent, hc⟩ := hdark
  simp only [List.mem_cons, List.not_mem_nil, or_false, not_or] at hc
  simp [withoutIndent, text, hcontent, hc.1, List.dropWhile_append_of_pos]

theorem unmoved_indent (line : Line) (width opened : ℕ) :
    Unmoved (outside opened) (List.replicate (width * line.level) ' ') :=
  (Condenses.of_blank (by simp +contextual [List.mem_replicate])).toUnmoved

theorem kept_text {opened : ℕ} (hkept : (outside opened).kept line.content = line.level)
    (width : ℕ) : (outside opened).kept (line.text width) = line.level := by
  have hindent := line.unmoved_indent width opened
  have hle : line.level ≤ opened := hkept ▸ Progress.kept_le _ _
  rw [text, Progress.kept_append, hindent.after_eq, hindent.kept_eq, hkept]
  exact min_eq_right hle

theorem after_text {opened next : ℕ} (hafter : (outside opened).after line.content = outside next)
    (width : ℕ) : (outside opened).after (line.text width ++ ['\n']) = outside next := by
  rw [text, List.append_assoc, Progress.after_append, (line.unmoved_indent width opened).after_eq,
    Progress.after_append, hafter]
  rfl

end Line

namespace Laid

theorem startsDark {opened : ℕ} {lines : List Line} (hlaid : Laid opened lines) :
    ∀ line ∈ lines, StartsDark line.content := by
  induction hlaid with
  | nil opened => simp
  | cons hdark _ _ _ _ ih =>
      rw [List.forall_mem_cons]
      exact ⟨hdark, ih⟩

theorem oneLine {opened : ℕ} {lines : List Line} (hlaid : Laid opened lines) :
    ∀ line ∈ lines, OneLine line.content := by
  induction hlaid with
  | nil opened => simp
  | cons _ hline _ _ _ ih =>
      rw [List.forall_mem_cons]
      exact ⟨hline, ih⟩

/-- The blanks of a line are those of the containers that are open before it and that it
does not close. -/
theorem indentOf_eq {opened width : ℕ} {lines : List Line} (hlaid : Laid opened lines)
    {before after : List (List Char)} {cs : List Char}
    (hlines : lines.map (Line.text width) = before ++ cs :: after) :
    indentOf cs =
      width * ((outside opened).after (before.flatMap fun line => line ++ ['\n'])).kept cs := by
  -- The lines before this one are taken off one at a time; each says how many containers are
  -- open where the next one starts.
  induction hlaid generalizing before with
  | nil opened => simp at hlines
  | cons hdark _ hkept hafter _ ih =>
      cases before with
      | nil =>
          rw [List.map_cons, List.nil_append, List.cons.injEq] at hlines
          rw [← hlines.1, Line.indentOf_text hdark, List.flatMap_nil, Progress.after_nil,
            Line.kept_text hkept]
      | cons first before =>
          rw [List.map_cons, List.cons_append, List.cons.injEq] at hlines
          rw [ih hlines.2, ← hlines.1, List.flatMap_cons, Progress.after_append,
            Line.after_text hafter]

end Laid

theorem flatMap_break {α : Type} (items : List α) (write : α → List Char) :
    (items.flatMap fun item => '\n' :: write item) ++ ['\n'] =
      '\n' :: items.flatMap fun item => write item ++ ['\n'] := by
  induction items with
  | nil => rfl
  | cons item items ih =>
      rw [List.flatMap_cons, List.append_assoc, ih, List.flatMap_cons]
      simp

/-- A rendered document is written line by line, with the same lines at every width but for
their indentation. -/
theorem exists_lines (document : Value) :
    ∃ lines : List Line, lines ≠ [] ∧ Laid 0 lines ∧ ∀ width,
      (document.render width).toList =
        (lines.map (Line.text width)).flatMap fun line => line ++ ['\n'] := by
  obtain ⟨page, hpage, hpageText⟩ :=
    Writer.prints_value document 0 ⟨[], []⟩ (.of_laid (.nil 0))
  have htext : ∀ width, Writer.value (.indented width) 0 document = page.text width := by
    intro width
    rw [← hpageText width]
    exact (List.append_nil _).symm
  have hdark : StartsDark page.first := by
    apply Page.startsDark_first
    rw [← htext 0]
    exact Writer.startsDark_value _ _ document
  refine ⟨⟨0, page.first⟩ :: page.more, List.cons_ne_nil _ _, hpage.laid_cons hdark,
    fun width => ?_⟩
  calc
    (document.render width).toList = page.text width ++ ['\n'] := by
      rw [Value.render, String.toList_ofList, htext]
    _ = page.first ++ '\n' :: page.more.flatMap fun line => line.text width ++ ['\n'] := by
      rw [Page.text, List.append_assoc, flatMap_break]
    _ = _ := by simp [Line.text, List.flatMap_map]

/-- At the width `width`, the lines of a rendered document are those of a layout. -/
theorem linesOf_render {document : Value} {lines : List Line} (hlaid : Laid 0 lines)
    {width : ℕ} (htext : (document.render width).toList =
      (lines.map (Line.text width)).flatMap fun line => line ++ ['\n']) :
    linesOf (document.render width).toList = lines.map (Line.text width) := by
  have hlines : ∀ line ∈ lines.map (Line.text width), OneLine line := by
    rw [List.forall_mem_map]
    exact fun line hmem => Line.oneLine_text (hlaid.oneLine line hmem) width
  have hcut := linesOf_flatMap hlines []
  rwa [List.append_nil, ← htext, linesOf, List.append_nil] at hcut

/-- A text of lines, none of them empty, ends with one line break. -/
theorem ends_in_one_break {lines : List (List Char)} (hne : lines ≠ [])
    (hlines : ∀ line ∈ lines, OneLine line ∧ line ≠ []) :
    ∃ body c, (lines.flatMap fun line => line ++ ['\n']) = body ++ [c, '\n'] ∧ c ≠ '\n' := by
  obtain ⟨front, last, rfl⟩ := (List.eq_nil_or_concat lines).resolve_left hne
  obtain ⟨hline, hlast⟩ := hlines last (by simp)
  obtain ⟨start, c, rfl⟩ := (List.eq_nil_or_concat last).resolve_left hlast
  refine ⟨(front.flatMap fun line => line ++ ['\n']) ++ start, c, by simp, ?_⟩
  rintro rfl
  simp [OneLine] at hline

/-- The width of the indentation bears on the blanks before the lines only.  A rendered
document ends with one line break.  Its lines are as many at every width, and are those at
the width 0 once their leading blanks are gone; a line has as many of these as the width
times the containers that are open at its start and that it does not close.  Without the
blanks and line breaks outside of strings, the text is the compact one. -/
theorem render_indentation (document : Value) (width : ℕ) :
    (∃ body c, (document.render width).toList = body ++ [c, '\n'] ∧ c ≠ '\n') ∧
      (linesOf (document.render width).toList).length =
        (linesOf (document.render 0).toList).length ∧
      (linesOf (document.render width).toList).map withoutIndent =
        linesOf (document.render 0).toList ∧
      (∀ before line after,
        linesOf (document.render width).toList = before ++ line :: after →
          indentOf line = width *
            ((outside 0).after (before.flatMap fun line => line ++ ['\n'])).kept line) ∧
      (outside 0).dropBlanks (document.render width).toList = document.compact.toList := by
  obtain ⟨lines, hne, hlaid, htext⟩ := exists_lines document
  have hlines : ∀ width, linesOf (document.render width).toList = lines.map (Line.text width) :=
    fun width => linesOf_render hlaid (htext width)
  refine ⟨?_, ?_, ?_, ?_, ?_⟩
  · rw [htext]
    apply ends_in_one_break (by simpa using hne)
    rw [List.forall_mem_map]
    intro line hmem
    refine ⟨Line.oneLine_text (hlaid.oneLine line hmem) width, ?_⟩
    obtain ⟨c, rest, hcontent, -⟩ := hlaid.startsDark line hmem
    simp [Line.text, hcontent]
  · rw [hlines, hlines, List.length_map, List.length_map]
  · rw [hlines, hlines, List.map_map]
    apply List.map_congr_left
    intro line hmem
    rw [Function.comp_apply, Line.withoutIndent_text (hlaid.startsDark line hmem), Line.text]
    simp
  · intro before line after hcut
    rw [hlines] at hcut
    exact hlaid.indentOf_eq hcut
  · have hbreak : Condenses (outside 0) ['\n'] [] := .of_blank (by simp)
    have hcompact := (Writer.condenses_value (.indented width) document 0 0).append hbreak
    rw [Value.render, Value.compact, String.toList_ofList, String.toList_ofList,
      hcompact.drop_eq, List.append_nil]

/-- A document with brackets, a quote and blanks in its texts, and with an empty container. -/
def bracketsQuoted : Value :=
  .object [("a [", .array [.string "\x7d \"", .array []])]

theorem render_indentation_bracketsQuoted :
    ∃ before line after,
      linesOf (bracketsQuoted.render 3).toList = before ++ line :: after ∧
        line = "      \"\x7d \\\"\",".toList ∧ indentOf line = 3 * 2 ∧
        ((outside 0).after (before.flatMap fun line => line ++ ['\n'])).kept line = 2 := by
  have hlines : linesOf (bracketsQuoted.render 3).toList =
      [['{'], "   \"a [\": [".toList] ++ "      \"\x7d \\\"\",".toList ::
        ["      []".toList, "   ]".toList, ['}']] := by
    decide +kernel
  obtain ⟨-, -, -, hindent, -⟩ := render_indentation bracketsQuoted 3
  have hkept : ((outside 0).after ([['{'], "   \"a [\": [".toList].flatMap
      fun line => line ++ ['\n'])).kept "      \"\x7d \\\"\",".toList = 2 := by
    decide +kernel
  exact ⟨_, _, _, hlines, rfl, (hindent _ _ _ hlines).trans (by rw [hkept]), hkept⟩

end FlowMigration.Json
