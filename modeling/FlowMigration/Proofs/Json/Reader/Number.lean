import FlowMigration.Proofs.Json.Reader.Basic

/-!
# Laws of reading numbers

A number is read whole when what follows cannot continue it.  The conditions on the
text that follows are on its first character only.
-/

namespace FlowMigration

/-! ## Digits -/

theorem Digit.char_of_ofChar? {c : Char} {d : Digit} (hd : ofChar? c = some d) :
    d.char = c := by
  simp only [ofChar?, Option.dite_none_right_eq_some, Option.some.injEq] at hd
  obtain ⟨hrange, rfl⟩ := hd
  rw [char, show 48 + (c.toNat - 48) = c.toNat by omega]
  exact Char.ofNat_toNat c

namespace Numeral

/-- A text that cannot continue a run of digits. -/
def NoDigit (cs : List Char) : Prop :=
  ∀ c ∈ cs.head?, Digit.ofChar? c = none

theorem splitDigits_append (digits : List Digit) {rest : List Char}
    (hrest : NoDigit rest) :
    splitDigits (digits.map Digit.char ++ rest) = (digits, rest) := by
  induction digits with
  | nil =>
      cases rest with
      | nil => rfl
      | cons c cs => simp [splitDigits, hrest c rfl]
  | cons d digits ih => simp [splitDigits, Digit.ofChar?_char, ih]

theorem eq_of_splitDigits {cs rest : List Char} {digits : List Digit}
    (hsplit : splitDigits cs = (digits, rest)) :
    cs = digits.map Digit.char ++ rest := by
  induction cs generalizing digits with
  | nil =>
      cases hsplit
      rfl
  | cons c cs ih =>
      rw [splitDigits] at hsplit
      cases hc : Digit.ofChar? c with
      | none =>
          simp only [hc] at hsplit
          cases hsplit
          rfl
      | some d =>
          simp only [hc, Prod.mk.injEq] at hsplit
          obtain ⟨rfl, hrest⟩ := hsplit
          have htail := ih (Prod.ext rfl hrest)
          rw [List.map_cons, List.cons_append, Digit.char_of_ofChar? hc, ← htail]

theorem scan?_append (numeral : Numeral) {rest : List Char} (hrest : NoDigit rest) :
    scan? (numeral.text ++ rest) = some (numeral, rest) := by
  rw [scan?, text, splitDigits_append numeral.digits hrest]
  rfl

theorem eq_of_scan? {cs rest : List Char} {numeral : Numeral}
    (hscan : scan? cs = some (numeral, rest)) : cs = numeral.text ++ rest := by
  rw [scan?] at hscan
  split at hscan
  · cases hscan
  · next first others unread hsplit =>
      cases hscan
      exact eq_of_splitDigits hsplit

theorem ofText?_eq_some_iff {cs : List Char} {numeral : Numeral} :
    ofText? cs = some numeral ↔ cs = numeral.text := by
  rw [ofText?]
  constructor
  · intro hsome
    split at hsome
    · next found hscan =>
        cases hsome
        rw [eq_of_scan? hscan, List.append_nil]
    · cases hsome
  · rintro rfl
    have hscan := scan?_append numeral (show NoDigit [] by simp [NoDigit])
    rw [List.append_nil] at hscan
    rw [hscan]

/-- A numeral starts with a digit. -/
theorem text_eq_cons (numeral : Numeral) :
    numeral.text = numeral.first.char :: numeral.rest.map Digit.char := rfl

end Numeral

namespace Json.Reader

open Numeral (NoDigit)
open Grammar (ExponentText NumberText)

theorem noDigit_cons {c : Char} (hc : Digit.ofChar? c = none) (cs : List Char) :
    NoDigit (c :: cs) := by
  intro d hd
  cases hd
  exact hc

theorem digits_append (numeral : Numeral) {rest : List Char} (hrest : NoDigit rest) :
    digits (numeral.text ++ rest) = .ok (numeral, rest) := by
  simp only [digits, Numeral.scan?_append numeral hrest]

theorem eq_of_digits {cs rest : List Char} {numeral : Numeral}
    (hok : digits cs = .ok (numeral, rest)) : cs = numeral.text ++ rest := by
  unfold digits at hok
  split at hok
  · next hscan =>
      cases hok
      exact Numeral.eq_of_scan? hscan
  · cases hok
  · cases hok

/-! ## The parts of a number -/

theorem whole_append {numeral : Numeral} (hcanonical : numeral.Canonical)
    {rest : List Char} (hrest : NoDigit rest) :
    whole (numeral.text ++ rest) = .ok (⟨numeral, hcanonical⟩, rest) := by
  simp [whole, digits_append numeral hrest, bind, Except.bind, hcanonical]

theorem eq_of_whole {cs rest : List Char}
    {numeral : { numeral : Numeral // numeral.Canonical }}
    (hok : whole cs = .ok (numeral, rest)) : cs = numeral.val.text ++ rest := by
  obtain ⟨⟨found, unread⟩, hdigits, hfound⟩ := exists_of_bind_eq_ok hok
  simp only at hfound
  split at hfound
  · cases hfound
    exact eq_of_digits hdigits
  · cases hfound

theorem fraction_append (fraction : Option Numeral) {rest : List Char}
    (hdigit : NoDigit rest) (hpoint : rest.head? ≠ some '.') :
    Reader.fraction (Number.fractionText fraction ++ rest) = .ok (fraction, rest) := by
  cases fraction with
  | none =>
      rw [Number.fractionText, List.nil_append, Reader.fraction]
      rintro cs rfl
      exact hpoint rfl
  | some numeral =>
      simp [Number.fractionText, Reader.fraction, digits_append numeral hdigit, bind,
        Except.bind]

theorem eq_of_fraction {cs rest : List Char} {fraction : Option Numeral}
    (hok : Reader.fraction cs = .ok (fraction, rest)) :
    cs = Number.fractionText fraction ++ rest := by
  unfold Reader.fraction at hok
  split at hok
  · obtain ⟨⟨numeral, unread⟩, hdigits, hfound⟩ := exists_of_bind_eq_ok hok
    cases hfound
    rw [eq_of_digits hdigits]
    rfl
  · cases hok
    rfl

/-- A text that cannot continue a number. -/
def EndsNumber (cs : List Char) : Prop :=
  ∀ c ∈ cs.head?, Digit.ofChar? c = none ∧ c ≠ '.' ∧ c ≠ 'e' ∧ c ≠ 'E'

theorem endsNumber_nil : EndsNumber [] := by simp [EndsNumber]

theorem EndsNumber.noDigit {cs : List Char} (hends : EndsNumber cs) : NoDigit cs :=
  fun c hc => (hends c hc).1

theorem EndsNumber.ne_point {cs : List Char} (hends : EndsNumber cs) :
    cs.head? ≠ some '.' :=
  fun hc => (hends '.' hc).2.1 rfl

theorem exponentSign_of_digit {c : Char} {d : Digit} (hd : Digit.ofChar? c = some d)
    (cs : List Char) : exponentSign (c :: cs) = (false, c :: cs) := by
  unfold exponentSign
  split
  · next heq =>
      cases heq
      cases hd
  · next heq =>
      cases heq
      cases hd
  · rfl

/-- An exponent that has a marker is read up to the end of its digits. -/
theorem exponent_cons {marker : Char} (hmarker : marker ∈ ['e', 'E']) (cs : List Char) :
    Reader.exponent (marker :: cs) =
      (digits (exponentSign cs).2).map fun (numeral, rest) =>
        (some ⟨(exponentSign cs).1, numeral⟩, rest) := by
  have hor : marker = 'e' ∨ marker = 'E' := by simpa using hmarker
  rw [Reader.exponent, if_pos hor]
  rfl

theorem exponent_append {text : List Char} {exponent : Option Exponent}
    (htext : ExponentText text exponent) {rest : List Char} (hrest : EndsNumber rest) :
    Reader.exponent (text ++ rest) = .ok (exponent, rest) := by
  cases htext with
  | absent =>
      cases rest with
      | nil => rfl
      | cons c cs =>
          have hc := hrest c rfl
          rw [List.nil_append, Reader.exponent, if_neg (by simp [hc])]
  | unsigned marker numeral hmarker =>
      have hsign : exponentSign (numeral.text ++ rest) =
          (false, numeral.text ++ rest) := by
        rw [Numeral.text_eq_cons, List.cons_append]
        exact exponentSign_of_digit (Digit.ofChar?_char _) _
      rw [List.cons_append, exponent_cons hmarker, hsign,
        digits_append numeral hrest.noDigit]
      rfl
  | positive marker numeral hmarker =>
      rw [List.cons_append, exponent_cons hmarker, List.cons_append, exponentSign,
        digits_append numeral hrest.noDigit]
      rfl
  | negative marker numeral hmarker =>
      rw [List.cons_append, exponent_cons hmarker, List.cons_append, exponentSign,
        digits_append numeral hrest.noDigit]
      rfl

theorem eq_of_exponent {cs rest : List Char} {exponent : Option Exponent}
    (hok : Reader.exponent cs = .ok (exponent, rest)) :
    ∃ text, ExponentText text exponent ∧ cs = text ++ rest := by
  cases cs with
  | nil =>
      cases hok
      exact ⟨[], .absent, rfl⟩
  | cons c cs =>
      by_cases hmarker : c ∈ ['e', 'E']
      · rw [exponent_cons hmarker] at hok
        cases hdigits : digits (exponentSign cs).2 with
        | error fault =>
            rw [hdigits] at hok
            cases hok
        | ok result =>
            obtain ⟨numeral, unread⟩ := result
            rw [hdigits] at hok
            cases hok
            have hcs := eq_of_digits hdigits
            unfold exponentSign at hcs ⊢
            split at hcs
            · exact ⟨c :: '-' :: numeral.text, .negative c numeral hmarker,
                by simp [← hcs]⟩
            · exact ⟨c :: '+' :: numeral.text, .positive c numeral hmarker,
                by simp [← hcs]⟩
            · exact ⟨c :: numeral.text, .unsigned c numeral hmarker, by simp [← hcs]⟩
      · rw [Reader.exponent, if_neg (by simpa using hmarker)] at hok
        cases hok
        exact ⟨[], .absent, rfl⟩

/-! ## Numbers -/

theorem ends_exponent {text : List Char} {exponent : Option Exponent}
    (htext : ExponentText text exponent) {rest : List Char} (hrest : EndsNumber rest) :
    NoDigit (text ++ rest) ∧ (text ++ rest).head? ≠ some '.' := by
  have hmarked : ∀ marker ∈ ['e', 'E'], ∀ cs,
      NoDigit (marker :: cs) ∧ (marker :: cs).head? ≠ some '.' := by
    intro marker hmarker cs
    rcases List.mem_pair.mp hmarker with rfl | rfl
    · exact ⟨noDigit_cons rfl cs, by simp⟩
    · exact ⟨noDigit_cons rfl cs, by simp⟩
  cases htext with
  | absent => exact ⟨hrest.noDigit, hrest.ne_point⟩
  | unsigned marker _ hmarker => exact hmarked marker hmarker _
  | positive marker _ hmarker => exact hmarked marker hmarker _
  | negative marker _ hmarker => exact hmarked marker hmarker _

theorem noDigit_fraction (fraction : Option Numeral) {rest : List Char}
    (hrest : NoDigit rest) : NoDigit (Number.fractionText fraction ++ rest) := by
  cases fraction with
  | none => exact hrest
  | some numeral => exact noDigit_cons rfl _

/-- The text of a number after its sign is read whole where it cannot go on. -/
theorem magnitude_append (number : Number) {text : List Char}
    (htext : ExponentText text number.exponent) {rest : List Char}
    (hrest : EndsNumber rest) :
    magnitude number.negative
        (number.whole.text ++ (Number.fractionText number.fraction ++ (text ++ rest))) =
      .ok (number, rest) := by
  obtain ⟨hdigit, hpoint⟩ := ends_exponent htext hrest
  have hwhole := whole_append number.whole_canonical
    (noDigit_fraction number.fraction hdigit)
  have hfraction := fraction_append number.fraction hdigit hpoint
  have hexponent := exponent_append htext hrest
  simp [magnitude, hwhole, hfraction, hexponent, bind, Except.bind]

/-- What is read as a number is the text of one, but for the sign. -/
theorem eq_of_magnitude {negative : Bool} {cs rest : List Char} {number : Number}
    (hok : magnitude negative cs = .ok (number, rest)) :
    ∃ text, NumberText (Number.signText negative ++ text) number ∧ cs = text ++ rest := by
  obtain ⟨⟨⟨whole, hcanonical⟩, afterWhole⟩, hwhole, hok⟩ := exists_of_bind_eq_ok hok
  obtain ⟨⟨fraction, afterFraction⟩, hfraction, hok⟩ := exists_of_bind_eq_ok hok
  obtain ⟨⟨exponent, afterExponent⟩, hexponent, hok⟩ := exists_of_bind_eq_ok hok
  cases hok
  obtain ⟨text, htext, hafter⟩ := eq_of_exponent hexponent
  refine ⟨whole.text ++ Number.fractionText fraction ++ text,
    ⟨text, htext, by simp⟩, ?_⟩
  calc
    cs = whole.text ++ afterWhole := eq_of_whole hwhole
    _ = whole.text ++ (Number.fractionText fraction ++ afterFraction) := by
      rw [eq_of_fraction hfraction]
    _ = whole.text ++ Number.fractionText fraction ++ text ++ rest := by
      rw [hafter]
      simp

/-! ## Whole numbers -/

theorem signed_append {cs : List Char} {number : Number} (htext : NumberText cs number)
    {rest : List Char} (hrest : EndsNumber rest) : signed (cs ++ rest) = .ok (number, rest) := by
  obtain ⟨text, hexponent, rfl⟩ := htext
  have hmagnitude := magnitude_append number hexponent hrest
  cases hnegative : number.negative with
  | true =>
      rw [hnegative] at hmagnitude
      simpa [Number.signText, signed] using hmagnitude
  | false =>
      rw [hnegative] at hmagnitude
      have hdigit : number.whole.first.char ≠ '-' := by
        intro heq
        have hsome := Digit.ofChar?_char number.whole.first
        rw [heq] at hsome
        cases hsome
      rw [Numeral.text_eq_cons, List.cons_append] at hmagnitude
      rw [Number.signText, Numeral.text_eq_cons]
      simp only [List.cons_append, List.append_assoc]
      rw [signed]
      · exact hmagnitude
      · exact fun tail hcons => hdigit (List.cons.inj hcons).1

/-- What is read as a number is the text of one. -/
theorem exists_of_signed {cs rest : List Char} {number : Number}
    (hok : signed cs = .ok (number, rest)) :
    ∃ text, NumberText text number ∧ cs = text ++ rest := by
  unfold signed at hok
  split at hok
  · obtain ⟨text, htext, rfl⟩ := eq_of_magnitude hok
    exact ⟨_, htext, rfl⟩
  · exact eq_of_magnitude hok

theorem wholeNumber_eq_ok_iff {cs : List Char} {number : Number} :
    wholeNumber cs = .ok number ↔ NumberText cs number := by
  constructor
  · intro hok
    unfold wholeNumber at hok
    split at hok
    · next hsigned =>
        cases hok
        obtain ⟨text, htext, rfl⟩ := exists_of_signed hsigned
        rwa [List.append_nil]
    · cases hok
    · cases hok
  · intro htext
    have hsigned := signed_append htext endsNumber_nil
    rw [List.append_nil] at hsigned
    rw [wholeNumber, hsigned]

end Json.Reader

end FlowMigration
