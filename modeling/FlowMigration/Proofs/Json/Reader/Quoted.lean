import FlowMigration.Proofs.Json.Reader.Basic

/-!
# Laws of reading strings

A string is closed by its own quote, so it is read whole whatever follows it.
-/

namespace FlowMigration

/-! ## Hexadecimal digits -/

theorem Hex.digitValue?_lt {c : Char} {d : Nat} (hd : digitValue? c = some d) :
    d < 16 := by
  unfold digitValue? at hd
  split at hd
  · cases hd
    omega
  · split at hd
    · cases hd
      omega
    · split at hd
      · cases hd
        omega
      · cases hd

theorem Hex.valueAfter?_lt {leading : Nat} {cs : List Char} {n : Nat}
    (hn : valueAfter? leading cs = some n) : n < (leading + 1) * 16 ^ cs.length := by
  induction cs generalizing leading with
  | nil =>
      cases hn
      simp
  | cons c cs ih =>
      obtain ⟨d, hd, hrest⟩ := Option.bind_eq_some_iff.mp hn
      have hlt := digitValue?_lt hd
      calc
        n < (16 * leading + d + 1) * 16 ^ cs.length := ih hrest
        _ ≤ (16 * (leading + 1)) * 16 ^ cs.length :=
          Nat.mul_le_mul_right _ (by omega)
        _ = (leading + 1) * 16 ^ (c :: cs).length := by
          rw [List.length_cons, pow_succ]
          ring

namespace Json

theorem Grammar.UnitText.lt {digits : List Char} {unit : Nat}
    (hunit : UnitText digits unit) : unit < 0x10000 := by
  have hlt := Hex.valueAfter?_lt hunit.2
  rw [hunit.1] at hlt
  omega

namespace Reader

open Grammar (CharText CharsText StringText UnitText shortEscapes)

/-! ## Characters and their numbers -/

theorem isLeading_iff {unit : Nat} :
    isLeading unit = true ↔ 0xD800 ≤ unit ∧ unit < 0xDC00 := by
  simp [isLeading]

theorem isTrailing_iff {unit : Nat} :
    isTrailing unit = true ↔ 0xDC00 ≤ unit ∧ unit < 0xE000 := by
  simp [isTrailing]

/-- No character is a surrogate. -/
theorem not_surrogate (c : Char) : ¬isLeading c.toNat ∧ ¬isTrailing c.toNat := by
  have hvalid : c.toNat.isValidChar := c.valid
  rw [isLeading_iff, isTrailing_iff]
  omega

theorem pairedChar_eq {c : Char} {high low : Nat}
    (hc : c.toNat = 0x10000 + 0x400 * high + low) :
    pairedChar (0xD800 + high) (0xDC00 + low) = c := by
  rw [pairedChar, Nat.add_sub_cancel_left, Nat.add_sub_cancel_left, Nat.mul_comm high,
    ← hc, Char.ofNat_toNat]

/-! ## Escapes -/

theorem codeUnit_append {digits : List Char} {unit : Nat} (hunit : UnitText digits unit)
    (rest : List Char) : codeUnit (digits ++ rest) = .ok (unit, rest) := by
  obtain ⟨hlength, hvalue⟩ := hunit
  match digits, hlength with
  | [a, b, c, d], _ => simp [codeUnit, hvalue]

theorem exists_of_codeUnit {cs rest : List Char} {unit : Nat}
    (hok : codeUnit cs = .ok (unit, rest)) :
    ∃ digits, UnitText digits unit ∧ cs = digits ++ rest := by
  unfold codeUnit at hok
  split at hok
  · next a b c d cs =>
      split at hok
      · next hvalue =>
          cases hok
          exact ⟨[a, b, c, d], ⟨rfl, hvalue⟩, rfl⟩
      · cases hok
  · cases hok

theorem hexEscapeMark_eq_ok_iff {mark : Char} {cs rest : List Char} :
    hexEscapeMark mark cs = .ok ((), rest) ↔ cs = mark :: rest := by
  cases cs with
  | nil => simp [hexEscapeMark]
  | cons c cs =>
      by_cases hc : c = mark
      · simp [hexEscapeMark, hc]
      · simp [hexEscapeMark, hc]

theorem hexEscape_unit {digits : List Char} {c : Char} (hunit : UnitText digits c.toNat)
    (rest : List Char) : hexEscape (digits ++ rest) = .ok (c, rest) := by
  obtain ⟨hleading, htrailing⟩ := not_surrogate c
  simp [hexEscape, codeUnit_append hunit, bind, Except.bind, hleading, htrailing]

theorem hexEscape_pair {leading trailing : List Char} {high low : Nat} {c : Char}
    (hleading : UnitText leading (0xD800 + high))
    (htrailing : UnitText trailing (0xDC00 + low)) (hhigh : high < 0x400)
    (hlow : low < 0x400) (hc : c.toNat = 0x10000 + 0x400 * high + low)
    (rest : List Char) :
    hexEscape (leading ++ '\\' :: 'u' :: (trailing ++ rest)) = .ok (c, rest) := by
  have hleads : isLeading (0xD800 + high) = true := isLeading_iff.mpr (by omega)
  have hnot : ¬isTrailing (0xD800 + high) := by
    rw [isTrailing_iff]
    omega
  have htrails : isTrailing (0xDC00 + low) = true := isTrailing_iff.mpr (by omega)
  simp [hexEscape, codeUnit_append hleading, codeUnit_append htrailing, hexEscapeMark,
    bind, Except.bind, hnot, hleads, htrails, pairedChar_eq hc]

theorem charText_unit {digits : List Char} {unit : Nat} (hdigits : UnitText digits unit)
    (hleading : ¬isLeading unit) (htrailing : ¬isTrailing unit) :
    CharText ('\\' :: 'u' :: digits) (Char.ofNat unit) := by
  have hlt := hdigits.lt
  rw [isLeading_iff] at hleading
  rw [isTrailing_iff] at htrailing
  apply CharText.unit
  rwa [Char.toNat_ofNat, if_pos (by omega)]

theorem charText_pair {leading trailing : List Char} {unit second : Nat}
    (hfirst : UnitText leading unit) (hsecond : UnitText trailing second)
    (hleads : isLeading unit = true) (htrails : isTrailing second = true) :
    CharText ('\\' :: 'u' :: leading ++ '\\' :: 'u' :: trailing)
      (pairedChar unit second) := by
  rw [isLeading_iff] at hleads
  rw [isTrailing_iff] at htrails
  apply CharText.pair _ _ (unit - 0xD800) (second - 0xDC00)
  · rwa [Nat.add_sub_cancel' hleads.1]
  · rwa [Nat.add_sub_cancel' htrails.1]
  · omega
  · omega
  · rw [pairedChar, Char.toNat_ofNat, if_pos (by omega)]
    omega

/-- A hexadecimal escape denotes the character that it is read as. -/
theorem exists_of_hexEscape {cs rest : List Char} {c : Char}
    (hok : hexEscape cs = .ok (c, rest)) :
    ∃ text, CharText ('\\' :: 'u' :: text) c ∧ cs = text ++ rest := by
  obtain ⟨⟨unit, afterUnit⟩, hunit, hnext⟩ := exists_of_bind_eq_ok hok
  obtain ⟨digits, hdigits, rfl⟩ := exists_of_codeUnit hunit
  simp only at hnext
  split at hnext
  · cases hnext
  · next htrailing =>
      split at hnext
      · next hleads =>
          obtain ⟨⟨⟨⟩, afterMark⟩, hmark, hletterOk⟩ := exists_of_bind_eq_ok hnext
          obtain ⟨⟨⟨⟩, afterLetter⟩, hletter, hpairOk⟩ :=
            exists_of_bind_eq_ok hletterOk
          obtain ⟨⟨second, afterPair⟩, hsecond, hresult⟩ :=
            exists_of_bind_eq_ok hpairOk
          obtain ⟨others, hothers, rfl⟩ := exists_of_codeUnit hsecond
          cases hexEscapeMark_eq_ok_iff.mp hmark
          cases hexEscapeMark_eq_ok_iff.mp hletter
          simp only at hresult
          split at hresult
          · next htrails =>
              simp only [Except.ok.injEq, Prod.mk.injEq] at hresult
              obtain ⟨rfl, rfl⟩ := hresult
              exact ⟨digits ++ '\\' :: 'u' :: others,
                charText_pair hdigits hothers hleads htrails, by simp⟩
          · cases hresult
      · next hleading =>
          simp only [Except.ok.injEq, Prod.mk.injEq] at hnext
          obtain ⟨rfl, rfl⟩ := hnext
          exact ⟨digits, charText_unit hdigits hleading htrailing, rfl⟩

theorem shortEscape?_eq_some_iff {letter c : Char} :
    shortEscape? letter = some c ↔ (letter, c) ∈ shortEscapes := by
  constructor
  · intro hsome
    unfold shortEscape? at hsome
    split at hsome
    all_goals cases hsome
    all_goals simp [shortEscapes]
  · intro hmem
    simp only [shortEscapes, List.mem_cons, List.not_mem_nil, or_false, Prod.mk.injEq]
      at hmem
    rcases hmem with ⟨rfl, rfl⟩ | ⟨rfl, rfl⟩ | ⟨rfl, rfl⟩ | ⟨rfl, rfl⟩ | ⟨rfl, rfl⟩ |
      ⟨rfl, rfl⟩ | ⟨rfl, rfl⟩ | ⟨rfl, rfl⟩
    all_goals rfl

/-- What follows a backslash is read whole. -/
theorem escape_append {text : List Char} {c : Char} (htext : CharText ('\\' :: text) c)
    (rest : List Char) : escape hexEscape (text ++ rest) = .ok (c, rest) := by
  cases htext with
  | plain c _ hne _ => exact absurd rfl hne
  | short letter c hmem =>
      rw [List.cons_append, escape, shortEscape?_eq_some_iff.mpr hmem]
      rfl
  | unit digits c hunit => exact hexEscape_unit hunit rest
  | pair leading trailing high low c hleading htrailing hhigh hlow hc =>
      have hpair := hexEscape_pair hleading htrailing hhigh hlow hc rest
      rw [← hpair, ← List.cons_append, ← List.cons_append, ← List.append_assoc]
      rfl

theorem exists_of_escape {cs rest : List Char} {c : Char}
    (hok : escape hexEscape cs = .ok (c, rest)) :
    ∃ text, CharText ('\\' :: text) c ∧ cs = text ++ rest := by
  cases cs with
  | nil => cases hok
  | cons letter cs =>
      rw [escape] at hok
      split at hok
      · next hshort =>
          cases hok
          exact ⟨[letter], .short letter c (shortEscape?_eq_some_iff.mp hshort), rfl⟩
      · split at hok
        · next hu =>
            obtain ⟨text, htext, rfl⟩ := exists_of_hexEscape hok
            exact ⟨'u' :: text, htext, hu ▸ rfl⟩
        · cases hok

/-! ## Strings -/

theorem length_pos_of_charText {text : List Char} {c : Char} (htext : CharText text c) :
    0 < text.length := by
  cases htext
  all_goals simp

theorem length_le_of_charsText {text chars : List Char} (htext : CharsText text chars) :
    chars.length ≤ text.length := by
  induction htext with
  | nil => rfl
  | cons hchar _ ih =>
      have hpos := length_pos_of_charText hchar
      rw [List.length_append, List.length_cons]
      omega

/-- One character of a string is read in one step. -/
theorem characters_charText {text : List Char} {c : Char} (htext : CharText text c)
    (steps : Nat) (done rest : List Char) :
    characters hexEscape (steps + 1) done (text ++ rest) =
      characters hexEscape steps (c :: done) rest := by
  have hescaped : ∀ escaped, CharText ('\\' :: escaped) c →
      characters hexEscape (steps + 1) done ('\\' :: (escaped ++ rest)) =
        characters hexEscape steps (c :: done) rest := by
    intro escaped hchar
    rw [characters, if_neg (by decide), if_pos rfl, escape_append hchar]
    rfl
  cases htext with
  | plain c hquote hbackslash hprintable =>
      rw [List.singleton_append, characters, if_neg hquote, if_neg hbackslash,
        if_neg (by omega)]
  | short letter c hmem => exact hescaped _ (.short letter c hmem)
  | unit digits c hunit => exact hescaped _ (.unit digits c hunit)
  | pair leading trailing high low c hleading htrailing hhigh hlow hc =>
      exact hescaped _
        (.pair leading trailing high low c hleading htrailing hhigh hlow hc)

theorem characters_append {text chars : List Char} (htext : CharsText text chars)
    {steps : Nat} (hsteps : chars.length < steps) (done rest : List Char) :
    characters hexEscape steps done (text ++ '"' :: rest) =
      .ok (done.reverse ++ chars, rest) := by
  induction htext generalizing steps done with
  | nil =>
      obtain ⟨steps, rfl⟩ := Nat.exists_eq_add_of_lt hsteps
      simp [characters]
  | cons hchar _ ih =>
      cases steps with
      | zero => cases hsteps
      | succ steps =>
          rw [List.append_assoc, characters_charText hchar,
            ih (Nat.lt_of_succ_lt_succ hsteps)]
          simp

theorem exists_of_characters {steps : Nat} {done cs result rest : List Char}
    (hok : characters hexEscape steps done cs = .ok (result, rest)) :
    ∃ text chars, CharsText text chars ∧ result = done.reverse ++ chars ∧
      cs = text ++ '"' :: rest := by
  induction steps generalizing done cs with
  | zero => cases hok
  | succ steps ih =>
      cases cs with
      | nil => cases hok
      | cons c cs =>
          rw [characters] at hok
          split at hok
          · next hquote =>
              cases hok
              exact ⟨[], [], .nil, by simp, by rw [hquote]; rfl⟩
          · next hquote =>
              split at hok
              · next hbackslash =>
                  obtain ⟨⟨char, unread⟩, hescape, hnext⟩ := exists_of_bind_eq_ok hok
                  obtain ⟨escaped, hchar, rfl⟩ := exists_of_escape hescape
                  obtain ⟨text, chars, htext, rfl, rfl⟩ := ih hnext
                  exact ⟨'\\' :: escaped ++ text, char :: chars, .cons hchar htext,
                    by simp, by simp [hbackslash]⟩
              · next hbackslash =>
                  split at hok
                  · cases hok
                  · next hprintable =>
                      obtain ⟨text, chars, htext, rfl, rfl⟩ := ih hok
                      have hchar : CharText [c] c :=
                        .plain c hquote hbackslash (Nat.not_lt.mp hprintable)
                      exact ⟨[c] ++ text, c :: chars, .cons hchar htext, by simp,
                        by simp⟩

/-- A string is read whole, whatever follows its closing quote. -/
theorem string_append {cs : List Char} {text : String}
    (htext : StringText ('"' :: cs) text) {steps : Nat} (hsteps : cs.length ≤ steps)
    (rest : List Char) :
    string hexEscape steps (cs ++ rest) = .ok (text, rest) := by
  obtain ⟨body, hbody, hquoted⟩ := htext
  have hcs : cs = body ++ ['"'] := (List.cons.inj hquoted).2
  have hlength := length_le_of_charsText hbody
  rw [hcs, List.length_append, List.length_singleton] at hsteps
  have hchars := characters_append hbody (Nat.lt_of_le_of_lt hlength hsteps) [] rest
  simp [hcs, string, hchars, bind, Except.bind]

theorem exists_of_string {steps : Nat} {cs rest : List Char} {text : String}
    (hok : string hexEscape steps cs = .ok (text, rest)) :
    ∃ body, StringText ('"' :: body) text ∧ cs = body ++ rest := by
  obtain ⟨⟨chars, unread⟩, hchars, hok⟩ := exists_of_bind_eq_ok hok
  cases hok
  obtain ⟨body, found, hbody, rfl, rfl⟩ := exists_of_characters hchars
  refine ⟨body ++ ['"'], ⟨body, ?_, rfl⟩, by simp⟩
  rw [String.toList_ofList]
  exact hbody

end Reader

end Json

end FlowMigration
