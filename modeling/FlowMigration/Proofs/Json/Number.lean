import FlowMigration.Proofs.Json.Reader.Number

/-!
# Integers by their text

Whether a number is an integer is a matter of its text: an optional minus sign and
digits.  A number with a fraction or an exponent has no such text, however integral
its value.
-/

namespace FlowMigration.Json.Number

open Grammar (ExponentText NumberText)
open Numeral (NoDigit)
open Reader (noDigit_cons noDigit_fraction)

/-- The text of a number is an optional minus sign and digits, which denote `n`. -/
def IntegerText (number : Number) (n : ℤ) : Prop :=
  ∃ (negative : Bool) (digits : Numeral),
    number.text = signText negative ++ digits.text ∧
      n = if negative then -(digits.value : ℤ) else digits.value

/-- What follows the digits before the point of a number. -/
def tailText (number : Number) : List Char :=
  fractionText number.fraction ++ exponentText number.exponent

theorem text_eq (number : Number) :
    number.text =
      signText number.negative ++ (number.whole.text ++ number.tailText) := by
  simp only [text, tailText, List.append_assoc]

theorem noDigit_tailText (number : Number) : NoDigit number.tailText := by
  apply noDigit_fraction
  cases number.exponent with
  | none => simp [exponentText, NoDigit]
  | some exponent => exact noDigit_cons rfl _

theorem tailText_eq_nil_iff {number : Number} :
    number.tailText = [] ↔ number.fraction = none ∧ number.exponent = none := by
  rw [tailText, List.append_eq_nil_iff]
  cases number.fraction <;> cases number.exponent <;>
    simp [fractionText, exponentText]

theorem minus_ne_char (d : Digit) : '-' ≠ d.char := by
  revert d
  decide

/-- A sign and the digits after it are recovered from a text. -/
theorem sign_and_digits_injective {left right : Bool} {whole digits : Numeral}
    {cs ds : List Char} (hcs : NoDigit cs) (hds : NoDigit ds)
    (hsame : signText left ++ (whole.text ++ cs) =
      signText right ++ (digits.text ++ ds)) :
    left = right ∧ whole = digits ∧ cs = ds := by
  have hsign : left = right := by
    rw [Numeral.text_eq_cons, Numeral.text_eq_cons] at hsame
    cases left <;> cases right <;>
      simp_all [signText, minus_ne_char, Ne.symm (minus_ne_char _)]
  subst hsign
  have hread := congrArg Numeral.scan? (List.append_cancel_left hsame)
  rw [Numeral.scan?_append whole hcs, Numeral.scan?_append digits hds] at hread
  cases hread
  exact ⟨rfl, rfl, rfl⟩

theorem integer?_eq_some_iff {number : Number} {n : ℤ} :
    number.integer? = some n ↔ number.IntegerText n := by
  constructor
  · intro hinteger
    rw [integer?] at hinteger
    split at hinteger
    · next hfraction hexponent =>
        have htail := tailText_eq_nil_iff.mpr ⟨hfraction, hexponent⟩
        refine ⟨number.negative, number.whole, ?_, (Option.some.inj hinteger).symm⟩
        rw [text_eq, htail, List.append_nil]
    · cases hinteger
  · rintro ⟨negative, digits, htext, rfl⟩
    have hdigits : number.text = signText negative ++ (digits.text ++ []) := by
      rw [htext, List.append_nil]
    rw [text_eq] at hdigits
    obtain ⟨rfl, rfl, htail⟩ := sign_and_digits_injective number.noDigit_tailText
      (by simp [NoDigit]) hdigits
    obtain ⟨hfraction, hexponent⟩ := tailText_eq_nil_iff.mp htail
    rw [integer?, hfraction, hexponent]

/-- The marks of a fraction and of an exponent. -/
def marks : List Char :=
  ['.', 'e', 'E']

theorem not_mark_of_numeral (numeral : Numeral) : ∀ c ∈ numeral.text, c ∉ marks := by
  have hdigit : ∀ d : Digit, d.char ∉ marks := by decide
  intro c hmem
  obtain ⟨d, -, rfl⟩ := List.mem_map.mp hmem
  exact hdigit d

/-- A number is no integer exactly if a mark shows that it has a fraction or an
exponent. -/
theorem integer?_eq_none_iff {number : Number} :
    number.integer? = none ↔ ∃ mark ∈ marks, mark ∈ number.text := by
  constructor
  · intro hnone
    cases hfraction : number.fraction with
    | some digits => exact ⟨'.', by decide, by simp [text, hfraction, fractionText]⟩
    | none =>
        cases hexponent : number.exponent with
        | some exponent => exact ⟨'e', by decide, by simp [text, hexponent, exponentText]⟩
        | none => simp [integer?, hfraction, hexponent] at hnone
  · rintro ⟨mark, hmark, hmem⟩
    by_contra hsome
    obtain ⟨n, hinteger⟩ := Option.ne_none_iff_exists'.mp hsome
    obtain ⟨negative, digits, htext, -⟩ := integer?_eq_some_iff.mp hinteger
    rw [htext, List.mem_append] at hmem
    rcases hmem with hsign | hdigits
    · have hminus : ∀ c ∈ signText negative, c ∉ marks := by
        cases negative <;> simp [signText, marks]
      exact hminus mark hsign hmark
    · exact not_mark_of_numeral digits mark hdigits hmark

/-! ## Texts as they are kept -/

/-- What follows the marker of an exponent, with its sign written out. -/
def signedExponent : List Char → List Char
  | '-' :: cs => '-' :: cs
  | '+' :: cs => '+' :: cs
  | cs => '+' :: cs

/-- The text of a number as it is kept: the marker of an exponent is `e`, a missing sign
of it is `+`, and all else is as it was. -/
def keptText : List Char → List Char
  | [] => []
  | c :: cs => if c = 'e' ∨ c = 'E' then 'e' :: signedExponent cs else c :: keptText cs

theorem keptText_append {left : List Char} (hleft : ∀ c ∈ left, c ≠ 'e' ∧ c ≠ 'E')
    (right : List Char) : keptText (left ++ right) = left ++ keptText right := by
  induction left with
  | nil => rfl
  | cons c cs ih =>
      rw [List.forall_mem_cons] at hleft
      rw [List.cons_append, keptText, if_neg (by simp [hleft.1]), ih hleft.2,
        List.cons_append]

theorem numeral_no_marker (numeral : Numeral) :
    ∀ c ∈ numeral.text, c ≠ 'e' ∧ c ≠ 'E' := by
  intro c hmem
  have hmarks : c ≠ '.' ∧ c ≠ 'e' ∧ c ≠ 'E' := by
    simpa [marks] using not_mark_of_numeral numeral c hmem
  exact hmarks.2

theorem signedExponent_numeral (numeral : Numeral) :
    signedExponent numeral.text = '+' :: numeral.text := by
  have hfirst : ∀ d : Digit, ∀ cs, signedExponent (d.char :: cs) = '+' :: d.char :: cs := by
    intro d cs
    fin_cases d <;> rfl
  exact hfirst numeral.first _

theorem keptText_exponent {text : List Char} {exponent : Option Exponent}
    (htext : ExponentText text exponent) : keptText text = exponentText exponent := by
  have hmarked : ∀ marker ∈ ['e', 'E'], ∀ cs,
      keptText (marker :: cs) = 'e' :: signedExponent cs := by
    intro marker hmarker cs
    rw [keptText, if_pos (by simpa using hmarker)]
  cases htext with
  | absent => rfl
  | unsigned marker digits hmarker =>
      rw [hmarked marker hmarker, signedExponent_numeral]
      rfl
  | positive marker digits hmarker =>
      rw [hmarked marker hmarker]
      rfl
  | negative marker digits hmarker =>
      rw [hmarked marker hmarker]
      rfl

/-- A number keeps its text, but for the marker and the sign of its exponent. -/
theorem text_of_numberText {cs : List Char} {number : Number}
    (htext : NumberText cs number) : number.text = keptText cs := by
  obtain ⟨exponent, hexponent, rfl⟩ := htext
  have hsign : ∀ c ∈ signText number.negative, c ≠ 'e' ∧ c ≠ 'E' := by
    cases number.negative <;> simp [signText]
  have hfraction : ∀ c ∈ fractionText number.fraction, c ≠ 'e' ∧ c ≠ 'E' := by
    cases number.fraction with
    | none => simp [fractionText]
    | some digits =>
        rw [fractionText, List.forall_mem_cons]
        exact ⟨by decide, numeral_no_marker digits⟩
  simp only [text, List.append_assoc]
  rw [keptText_append hsign, keptText_append (numeral_no_marker _), keptText_append hfraction,
    keptText_exponent hexponent]

end FlowMigration.Json.Number
