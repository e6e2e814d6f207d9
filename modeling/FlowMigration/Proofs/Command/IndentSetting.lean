import FlowMigration.Proofs.Command.Indent

/-!
# What a setting of the environment does

The setting of the environment gives a width, or it is of no use and the width stays what it
was.  Every sequence of bytes is of one kind: no text, a text that is no decimal number but
for the white space around it, a number that 64 bits do not hold, or a width.
-/

namespace FlowMigration

/-! ## Texts that are no width -/

theorem Numeral.exists_of_digits {cs : List Char} (hne : cs ≠ [])
    (hdigits : ∀ c ∈ cs, ∃ d : Digit, c = d.char) : ∃ digits : Numeral, cs = digits.text := by
  have hlist : cs ∈ Set.range (List.map Digit.char) := by
    rw [Set.range_list_map]
    intro c hc
    obtain ⟨d, rfl⟩ := hdigits c hc
    exact Set.mem_range_self d
  obtain ⟨digits, rfl⟩ := hlist
  cases digits with
  | nil => exact absurd rfl hne
  | cons first rest => exact ⟨⟨first, rest⟩, rfl⟩

namespace Indent

open WhiteSpace (Space Trimmed exists_trim trim trim_append trimmed_trim)

/-- What keeps a text from being a width: that it has no digits, or a character that is no
digit and no plus sign at the front, or digits of a number that is too large. -/
inductive Useless : List Char → Prop
  | bare {sign : List Char} (hsign : sign ∈ [[], ['+']]) : Useless sign
  | foreign {front back : List Char} {c : Char} (hc : ∀ d : Digit, c ≠ d.char)
      (hplace : front = [] → c ≠ '+') : Useless (front ++ c :: back)
  | tooLarge {sign : List Char} {digits : Numeral} (hsign : sign ∈ [[], ['+']])
      (hlarge : 2 ^ 64 ≤ digits.value) : Useless (sign ++ digits.text)

theorem le_largest_iff {n : ℕ} : n ≤ largest ↔ n < 2 ^ 64 := by
  rw [largest]
  omega

theorem not_widthText_of_foreign {front back : List Char} {c : Char}
    (hc : ∀ d : Digit, c ≠ d.char) (hplace : front = [] → c ≠ '+') {width : ℕ} :
    ¬WidthText (front ++ c :: back) width := by
  rintro ⟨sign, digits, hsign, htext, -⟩
  have hdigits : c ∉ digits.text := by
    intro hmem
    obtain ⟨d, -, hd⟩ := List.mem_map.mp hmem
    exact hc d hd.symm
  rcases List.mem_pair.mp hsign with rfl | rfl
  · apply hdigits
    rw [List.nil_append] at htext
    rw [← htext]
    simp
  · cases front with
    | nil => exact hplace rfl (List.cons.inj htext).1
    | cons first front =>
        apply hdigits
        have hrest : front ++ c :: back = digits.text := (List.cons.inj htext).2
        rw [← hrest]
        simp

theorem ofText?_of_useless {cs : List Char} (huseless : Useless cs) : ofText? cs = none := by
  cases huseless with
  | bare hsign =>
      rcases List.mem_pair.mp hsign with rfl | rfl
      · rfl
      · rfl
  | foreign hc hplace =>
      rw [Option.eq_none_iff_forall_ne_some]
      intro width hwidth
      exact not_widthText_of_foreign hc hplace (ofText?_eq_some_iff.mp hwidth)
  | tooLarge hsign hlarge =>
      have hnot := mt le_largest_iff.mp (Nat.not_lt.mpr hlarge)
      simp only [ofText?, dropPlus_sign hsign, Numeral.ofText?_eq_some_iff.mpr rfl, if_neg hnot]

theorem dropPlus_ne_plus_cons {cs back : List Char} (hcs : cs = dropPlus cs) :
    cs ≠ '+' :: back := by
  rintro rfl
  simp [dropPlus] at hcs

/-- A text that is no width has one of the flaws. -/
theorem useless_of_ofText? {cs : List Char} (hnone : ofText? cs = none) : Useless cs := by
  obtain ⟨sign, hsign, hcs⟩ := exists_sign cs
  by_cases hempty : dropPlus cs = []
  · rw [hcs, hempty, List.append_nil]
    exact .bare hsign
  by_cases hdigits : ∀ c ∈ dropPlus cs, ∃ d : Digit, c = d.char
  · obtain ⟨digits, htext⟩ := Numeral.exists_of_digits hempty hdigits
    rw [hcs, htext]
    apply Useless.tooLarge hsign
    rw [ofText?, htext, Numeral.ofText?_eq_some_iff.mpr rfl] at hnone
    simpa [le_largest_iff] using hnone
  · simp only [not_forall, not_exists] at hdigits
    obtain ⟨c, hmem, hc⟩ := hdigits
    obtain ⟨front, back, hsplit⟩ := List.append_of_mem hmem
    have hwhole : cs = (sign ++ front) ++ c :: back := by
      rw [List.append_assoc, ← hsplit, ← hcs]
    rw [hwhole]
    apply Useless.foreign hc
    rintro hfront rfl
    rw [List.append_eq_nil_iff] at hfront
    rw [hfront.1, List.nil_append] at hcs
    rw [hfront.1, hfront.2] at hwhole
    exact dropPlus_ne_plus_cons hcs hwhole

/-! ## Settings -/

/-- The bytes of a text. -/
def utf8 (cs : List Char) : ByteArray :=
  (String.ofList cs).toUTF8

theorem ofBytes?_utf8 (cs : List Char) : ofBytes? (utf8 cs) = ofText? (trim cs) := by
  simp only [ofBytes?, utf8, fromUTF8?_eq_some_iff.mpr rfl, String.toList_ofList]

theorem ofBytes?_of_not_text {bytes : ByteArray}
    (hbytes : ∀ text : String, bytes ≠ text.toUTF8) : ofBytes? bytes = none := by
  rw [ofBytes?]
  split
  · next text htext => exact absurd (fromUTF8?_eq_some_iff.mp htext) (hbytes text)
  · rfl

/-- What a setting, if there is one, tells about the width: a number, or nothing. -/
inductive Tells : Option ByteArray → Option ℕ → Prop
  | unset : Tells none none
  | notText {bytes : ByteArray} (hbytes : ∀ text : String, bytes ≠ text.toUTF8) :
      Tells (some bytes) none
  | useless {before cs after : List Char} (hbefore : Space before) (hafter : Space after)
      (htrimmed : Trimmed cs) (huseless : Useless cs) :
      Tells (some (utf8 (before ++ cs ++ after))) none
  | width {before sign after : List Char} {digits : Numeral} (hbefore : Space before)
      (hafter : Space after) (hsign : sign ∈ [[], ['+']]) (hfits : digits.value < 2 ^ 64) :
      Tells (some (utf8 (before ++ (sign ++ digits.text) ++ after))) (some digits.value)

theorem bind_of_tells {setting : Option ByteArray} {outcome : Option ℕ}
    (htells : Tells setting outcome) : setting.bind ofBytes? = outcome := by
  cases htells with
  | unset => rfl
  | notText hbytes => exact ofBytes?_of_not_text hbytes
  | useless hbefore hafter htrimmed huseless =>
      rw [Option.bind_some, ofBytes?_utf8, trim_append hbefore htrimmed hafter]
      exact ofText?_of_useless huseless
  | @width before sign after digits hbefore hafter hsign hfits =>
      have htext : WidthText (sign ++ digits.text) digits.value :=
        ⟨sign, digits, hsign, rfl, rfl, le_largest_iff.mpr hfits⟩
      exact ofBytes?_eq_some_iff.mpr ⟨before, _, after, hbefore, htext, hafter, rfl⟩

theorem exists_tells (setting : Option ByteArray) : ∃ outcome, Tells setting outcome := by
  cases setting with
  | none => exact ⟨none, .unset⟩
  | some bytes =>
      by_cases hbytes : ∀ text : String, bytes ≠ text.toUTF8
      · exact ⟨none, .notText hbytes⟩
      · simp only [not_forall, not_not] at hbytes
        obtain ⟨text, rfl⟩ := hbytes
        obtain ⟨before, after, hbefore, hafter, htext⟩ := exists_trim text.toList
        have hbytes : text.toUTF8 = utf8 (before ++ trim text.toList ++ after) := by
          rw [← htext, utf8, String.ofList_toList]
        rw [hbytes]
        cases hwidth : ofText? (trim text.toList) with
        | none =>
            exact ⟨none, .useless hbefore hafter (trimmed_trim _) (useless_of_ofText? hwidth)⟩
        | some width =>
            obtain ⟨sign, digits, hsign, hcs, rfl, hlargest⟩ := ofText?_eq_some_iff.mp hwidth
            rw [hcs]
            exact ⟨_, .width hbefore hafter hsign (le_largest_iff.mp hlargest)⟩

theorem eq_of_getD_eq {left right : Option ℕ}
    (hsame : ∀ start, left.getD start = right.getD start) : left = right := by
  cases left with
  | none =>
      cases right with
      | none => rfl
      | some width => exact absurd (hsame (width + 1)) (Nat.succ_ne_self width)
  | some width =>
      cases right with
      | none => exact absurd (hsame (width + 1)).symm (Nat.succ_ne_self width)
      | some other => exact congrArg some (hsame 0)

/-- A setting replaces every width by the number that it tells, and leaves every width as it
is when it tells none.  It tells a number exactly if it is text that has at most a plus sign,
and then decimal digits of a number below `2 ^ 64`, with white space around them; what it
tells is decided by its bytes alone. -/
theorem override_eq_iff_tells {setting : Option ByteArray} {outcome : Option ℕ} :
    (∀ start, override start setting = outcome.getD start) ↔ Tells setting outcome := by
  constructor
  · intro hall
    obtain ⟨told, htells⟩ := exists_tells setting
    have hgiven : ∀ start, told.getD start = outcome.getD start := by
      intro start
      rw [← hall start, override, bind_of_tells htells]
    rwa [← eq_of_getD_eq hgiven]
  · intro htells start
    rw [override, bind_of_tells htells]

end Indent

end FlowMigration
