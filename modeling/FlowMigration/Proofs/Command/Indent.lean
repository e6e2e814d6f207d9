import FlowMigration.Command.Indent
import FlowMigration.Proofs.Command.Request
import FlowMigration.Proofs.Json.Reader.Number

/-!
# Which texts are widths

A width is written in decimal digits, of which any number may be leading zeros, with at
most one plus sign before them.  The setting of the environment may have white space
around it as well.  What is written in any other way is no width.
-/

namespace FlowMigration

namespace WhiteSpace

/-- A text of white space. -/
def Space (cs : List Char) : Prop :=
  ∀ c ∈ cs, isWhiteSpace c = true

/-- A text without white space at its ends. -/
structure Trimmed (cs : List Char) : Prop where
  head : ∀ c ∈ cs.head?, isWhiteSpace c = false
  last : ∀ c ∈ cs.getLast?, isWhiteSpace c = false

theorem Space.reverse {cs : List Char} (hspace : Space cs) : Space cs.reverse :=
  fun c hmem => hspace c (List.mem_reverse.mp hmem)

theorem Trimmed.of_forall {cs : List Char} (hcs : ∀ c ∈ cs, isWhiteSpace c = false) :
    Trimmed cs where
  head c hc := hcs c (List.mem_of_mem_head? hc)
  last c hc := hcs c (List.mem_of_mem_getLast? hc)

theorem dropWhile_of_head {cs : List Char} (hhead : ∀ c ∈ cs.head?, isWhiteSpace c = false) :
    cs.dropWhile isWhiteSpace = cs := by
  cases cs with
  | nil => rfl
  | cons c cs => simp [hhead c rfl]

theorem trim_of_space {cs : List Char} (hspace : Space cs) : trim cs = [] := by
  rw [trim, List.dropWhile_eq_nil_iff.mpr hspace]
  rfl

/-- White space around a trimmed text is what trimming removes. -/
theorem trim_append {before cs after : List Char} (hbefore : Space before)
    (htrimmed : Trimmed cs) (hafter : Space after) : trim (before ++ cs ++ after) = cs := by
  cases hcs : cs with
  | nil =>
      apply trim_of_space
      intro c hc
      rw [List.append_nil, List.mem_append] at hc
      exact hc.elim (hbefore c) (hafter c)
  | cons first rest =>
      have hfront : (before ++ (cs ++ after)).dropWhile isWhiteSpace = cs ++ after := by
        rw [List.dropWhile_append_of_pos hbefore]
        apply dropWhile_of_head
        intro c hc
        rw [hcs, List.cons_append, List.head?_cons] at hc
        exact htrimmed.head c (hcs ▸ hc)
      have hback : (after.reverse ++ cs.reverse).dropWhile isWhiteSpace = cs.reverse := by
        rw [List.dropWhile_append_of_pos hafter.reverse]
        apply dropWhile_of_head
        intro c hc
        rw [List.head?_reverse] at hc
        exact htrimmed.last c hc
      rw [← hcs, trim, List.append_assoc, hfront, List.reverse_append, hback,
        List.reverse_reverse]

theorem trimmed_trim (cs : List Char) : Trimmed (trim cs) := by
  have hhead : ∀ cs : List Char, ∀ c ∈ (cs.dropWhile isWhiteSpace).head?,
      isWhiteSpace c = false := by
    intro cs c hc
    have hnot := List.head?_dropWhile_not isWhiteSpace cs
    rw [Option.mem_def.mp hc] at hnot
    simpa using hnot
  constructor
  · -- What is dropped at the back leaves the front as it was.
    intro c hc
    have hprefix : trim cs <+: cs.dropWhile isWhiteSpace := by
      rw [trim, ← List.reverse_suffix, List.reverse_reverse]
      exact List.dropWhile_suffix _
    obtain ⟨rest, hrest⟩ := hprefix
    apply hhead cs c
    rw [← hrest, List.head?_append, Option.mem_def.mp hc]
    rfl
  · intro c hc
    rw [trim, List.getLast?_reverse] at hc
    exact hhead _ c hc

/-- Only white space is trimmed off. -/
theorem exists_trim (cs : List Char) :
    ∃ before after, Space before ∧ Space after ∧ cs = before ++ trim cs ++ after := by
  have hspace : ∀ cs : List Char, Space (cs.takeWhile isWhiteSpace) :=
    fun cs c hmem => List.mem_takeWhile_imp hmem
  let rest := cs.dropWhile isWhiteSpace
  refine ⟨cs.takeWhile isWhiteSpace, (rest.reverse.takeWhile isWhiteSpace).reverse, hspace cs,
    (hspace rest.reverse).reverse, ?_⟩
  calc
    cs = cs.takeWhile isWhiteSpace ++ rest := List.takeWhile_append_dropWhile.symm
    _ = cs.takeWhile isWhiteSpace ++ rest.reverse.reverse := by rw [List.reverse_reverse]
    _ = cs.takeWhile isWhiteSpace ++ (rest.reverse.takeWhile isWhiteSpace ++
          rest.reverse.dropWhile isWhiteSpace).reverse := by
        rw [List.takeWhile_append_dropWhile]
    _ = cs.takeWhile isWhiteSpace ++ trim cs ++
          (rest.reverse.takeWhile isWhiteSpace).reverse := by
        rw [List.reverse_append, ← List.append_assoc]
        rfl

end WhiteSpace

namespace Indent

open WhiteSpace (Space Trimmed exists_trim isWhiteSpace trim_append)

/-- The decimal texts of a width. -/
def WidthText (cs : List Char) (width : ℕ) : Prop :=
  ∃ (sign : List Char) (digits : Numeral), sign ∈ [[], ['+']] ∧
    cs = sign ++ digits.text ∧ digits.value = width ∧ width ≤ largest

/-- The bytes of a setting that denotes a width. -/
def SettingText (bytes : ByteArray) (width : ℕ) : Prop :=
  ∃ before cs after, Space before ∧ WidthText cs width ∧ Space after ∧
    bytes = (String.ofList (before ++ cs ++ after)).toUTF8

theorem plus_ne_char (d : Digit) : d.char ≠ '+' := by
  revert d
  decide

theorem dropPlus_sign {sign : List Char} (hsign : sign ∈ [[], ['+']]) (digits : Numeral) :
    dropPlus (sign ++ digits.text) = digits.text := by
  rcases List.mem_pair.mp hsign with rfl | rfl
  · rw [List.nil_append, Numeral.text_eq_cons, dropPlus]
    rintro cs hcs
    exact absurd (List.cons.inj hcs).1 (plus_ne_char _)
  · rfl

theorem exists_sign (cs : List Char) : ∃ sign ∈ [[], ['+']], cs = sign ++ dropPlus cs := by
  unfold dropPlus
  split
  · exact ⟨['+'], by simp, rfl⟩
  · exact ⟨[], by simp, rfl⟩

theorem ofText?_eq_some_iff {cs : List Char} {width : ℕ} :
    ofText? cs = some width ↔ WidthText cs width := by
  rw [ofText?]
  constructor
  · intro hsome
    split at hsome
    · next digits hdigits =>
        split at hsome
        · next hlargest =>
            cases hsome
            obtain ⟨sign, hsign, hcs⟩ := exists_sign cs
            rw [Numeral.ofText?_eq_some_iff.mp hdigits] at hcs
            exact ⟨sign, digits, hsign, hcs, rfl, hlargest⟩
        · cases hsome
    · cases hsome
  · rintro ⟨sign, digits, hsign, rfl, rfl, hlargest⟩
    simp only [dropPlus_sign hsign, Numeral.ofText?_eq_some_iff.mpr rfl, if_pos hlargest]

theorem trimmed_of_widthText {cs : List Char} {width : ℕ} (htext : WidthText cs width) :
    Trimmed cs := by
  obtain ⟨sign, digits, hsign, rfl, -⟩ := htext
  have hdigit : ∀ d : Digit, isWhiteSpace d.char = false := by decide
  apply Trimmed.of_forall
  intro c hmem
  rcases List.mem_append.mp hmem with hmem | hmem
  · rcases List.mem_pair.mp hsign with rfl | rfl
    · cases hmem
    · rw [List.mem_singleton.mp hmem]
      decide
  · obtain ⟨d, -, rfl⟩ := List.mem_map.mp hmem
    exact hdigit d

theorem ofBytes?_eq_some_iff {bytes : ByteArray} {width : ℕ} :
    ofBytes? bytes = some width ↔ SettingText bytes width := by
  rw [ofBytes?]
  constructor
  · intro hsome
    split at hsome
    · next text htext =>
        obtain ⟨before, after, hbefore, hafter, hcs⟩ := exists_trim text.toList
        refine ⟨before, _, after, hbefore, ofText?_eq_some_iff.mp hsome, hafter, ?_⟩
        rw [← hcs, String.ofList_toList]
        exact fromUTF8?_eq_some_iff.mp htext
    · cases hsome
  · rintro ⟨before, cs, after, hbefore, htext, hafter, hbytes⟩
    have htrimmed := trimmed_of_widthText htext
    simp only [fromUTF8?_eq_some_iff.mpr hbytes, String.toList_ofList,
      trim_append hbefore htrimmed hafter]
    exact ofText?_eq_some_iff.mpr htext

/-! ## Where the width comes from -/

/-- The width that is asked for: by an option, or else by the setting of the environment,
or else the standard one. -/
inductive Asked (option : Option ℕ) (setting : Option ByteArray) : ℕ → Prop
  | option {width : ℕ} (hoption : option = some width) : Asked option setting width
  | setting {bytes : ByteArray} {width : ℕ} (hoption : option = none)
      (hsetting : setting = some bytes) (htext : SettingText bytes width) :
      Asked option setting width
  | standard (hoption : option = none)
      (hsetting : ∀ bytes width, setting = some bytes → ¬SettingText bytes width) :
      Asked option setting 2

/-- One width is asked for, and it is the one that a request has. -/
theorem asked_iff {option : Option ℕ} {setting : Option ByteArray} {width : ℕ} :
    Asked option setting width ↔ width = option.getD (override standard setting) := by
  constructor
  · intro hasked
    cases hasked with
    | option hoption => rw [hoption, Option.getD_some]
    | setting hoption hsetting htext =>
        rw [hoption, hsetting, Option.getD_none, override, Option.bind_some,
          ofBytes?_eq_some_iff.mpr htext, Option.getD_some]
    | standard hoption hsetting =>
        have hnone : setting.bind ofBytes? = none := by
          rw [Option.bind_eq_none_iff]
          intro bytes hbytes
          rw [Option.eq_none_iff_forall_ne_some]
          intro width hwidth
          exact hsetting bytes width hbytes (ofBytes?_eq_some_iff.mp hwidth)
        rw [hoption, Option.getD_none, override, hnone, Option.getD_none]
        rfl
  · rintro rfl
    cases hoption : option with
    | some width => exact .option rfl
    | none =>
        rw [Option.getD_none, override]
        cases hsetting : setting.bind ofBytes? with
        | some width =>
            obtain ⟨bytes, hbytes, hwidth⟩ := Option.bind_eq_some_iff.mp hsetting
            exact .setting rfl hbytes (ofBytes?_eq_some_iff.mp hwidth)
        | none =>
            refine .standard rfl fun bytes width hbytes htext => ?_
            rw [hbytes, Option.bind_some, ofBytes?_eq_some_iff.mpr htext] at hsetting
            cases hsetting

end Indent

end FlowMigration
