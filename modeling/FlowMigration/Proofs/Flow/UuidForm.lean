import FlowMigration.Proofs.Flow.Uuid

/-!
# The form of an identifier's text

The text of an identifier has 36 characters, hyphens in four places and lower-case digits in
all others.  Every text of this form is written for an identifier: the hyphens cut it into
groups of digits, and the digits denote the value.
-/

namespace FlowMigration

/-- Lower-case digits denote a number. -/
theorem Hex.exists_value {cs : List Char} (hlower : ∀ c ∈ cs, c ∈ lowerDigits) :
    ∃ n, value? cs = some n ∧ n < 16 ^ cs.length := by
  have hafter : ∀ leading, ∃ n, valueAfter? leading cs = some n := by
    induction cs with
    | nil => exact fun leading => ⟨leading, rfl⟩
    | cons c cs ih =>
        intro leading
        rw [List.forall_mem_cons] at hlower
        obtain ⟨d, hd, rfl⟩ := mem_lowerDigits_iff.mp hlower.1
        rw [valueAfter?, digitValue?_digit hd, Option.bind_some]
        exact ih hlower.2 _
  obtain ⟨n, hn⟩ := hafter 0
  have hlt := valueAfter?_lt hn
  exact ⟨n, hn, by simpa using hlt⟩

namespace Uuid

/-! ## Places of the hyphens -/

/-- The places of the hyphens in the text of an identifier. -/
def hyphenPlaces : List ℕ :=
  [8, 13, 18, 23]

/-- The form of the text of an identifier: 36 characters with hyphens in their places and
lower-case digits in all others. -/
structure Form (cs : List Char) : Prop where
  length_eq : cs.length = 36
  hyphen_iff : ∀ place, cs[place]? = some '-' ↔ place ∈ hyphenPlaces
  lower : ∀ c ∈ cs, c ≠ '-' → c ∈ Hex.lowerDigits

/-- The text without its hyphens. -/
def digitsOf (cs : List Char) : List Char :=
  cs.filter (· ≠ '-')

theorem hyphen_not_lower : '-' ∉ Hex.lowerDigits := by
  decide

theorem digitsOf_of_lower {cs : List Char} (hlower : ∀ c ∈ cs, c ∈ Hex.lowerDigits) :
    digitsOf cs = cs := by
  rw [digitsOf, List.filter_eq_self]
  intro c hc
  have hne : c ≠ '-' := fun heq => hyphen_not_lower (heq ▸ hlower c hc)
  simpa using hne

/-- What is hyphenated is recovered by leaving out the hyphens. -/
theorem digitsOf_intercalate {groups : List (List Char)}
    (hlower : ∀ c ∈ groups.flatten, c ∈ Hex.lowerDigits) :
    digitsOf (['-'].intercalate groups) = groups.flatten := by
  induction groups with
  | nil => rfl
  | cons first groups ih =>
      rw [List.flatten_cons, List.forall_mem_append] at hlower
      have hfirst := digitsOf_of_lower hlower.1
      have hrest := ih hlower.2
      rw [digitsOf] at hfirst hrest
      cases groups with
      | nil => simpa [digitsOf, List.intercalate] using hfirst
      | cons second groups =>
          rw [digitsOf, List.intercalate_cons_cons, List.filter_append, List.filter_append,
            hfirst, hrest, List.flatten_cons]
          simp

/-- Where the first hyphens of a text stand is known when its first group is. -/
theorem getElem?_eq_hyphen_iff {group : List Char} (hlower : ∀ c ∈ group, c ∈ Hex.lowerDigits)
    (rest : List Char) (place : ℕ) :
    (group ++ '-' :: rest)[place]? = some '-' ↔
      place = group.length ∨
        group.length < place ∧ rest[place - group.length - 1]? = some '-' := by
  rcases lt_trichotomy place group.length with hlt | heq | hgt
  · have hne : group[place] ≠ '-' :=
      fun heq => hyphen_not_lower (heq ▸ hlower _ (List.getElem_mem hlt))
    rw [List.getElem?_append_left hlt, List.getElem?_eq_getElem hlt, Option.some.injEq]
    simp [hne, hlt.ne, hlt.not_gt]
  · rw [heq, List.getElem?_append_right le_rfl, Nat.sub_self]
    simp
  · have hsucc : place - group.length = place - group.length - 1 + 1 := by omega
    rw [List.getElem?_append_right hgt.le, hsucc, List.getElem?_cons_succ]
    simp [hgt, hgt.ne']

theorem getElem?_ne_hyphen {group : List Char} (hlower : ∀ c ∈ group, c ∈ Hex.lowerDigits)
    (place : ℕ) : group[place]? ≠ some '-' :=
  fun heq => hyphen_not_lower (hlower _ (List.mem_of_getElem? heq))

theorem mem_intercalate {groups : List (List Char)} {c : Char}
    (hmem : c ∈ ['-'].intercalate groups) : c = '-' ∨ c ∈ groups.flatten := by
  induction groups with
  | nil => cases hmem
  | cons first groups ih =>
      cases groups with
      | nil => exact Or.inr (by simpa [List.intercalate] using hmem)
      | cons second groups =>
          rw [List.intercalate_cons_cons, List.mem_append, List.mem_append,
            List.mem_singleton] at hmem
          rw [List.flatten_cons, List.mem_append]
          tauto

/-- The groups of a text decide where its hyphens stand. -/
theorem TextOf.hyphen_iff {n : ℕ} {cs : List Char} (htext : TextOf n cs) (place : ℕ) :
    cs[place]? = some '-' ↔ place ∈ hyphenPlaces := by
  obtain ⟨groups, hlengths, hlower, -, rfl⟩ := htext
  simp only [List.map_eq_cons_iff, List.map_eq_nil_iff] at hlengths
  obtain ⟨first, _, rfl, hfirst, second, _, rfl, hsecond, third, _, rfl, hthird, fourth, _,
    rfl, hfourth, fifth, _, rfl, -, rfl⟩ := hlengths
  simp only [List.flatten_cons, List.flatten_nil, List.append_nil,
    List.forall_mem_append] at hlower
  obtain ⟨hone, htwo, hthree, hfour, hfive⟩ := hlower
  have hsplit : ['-'].intercalate [first, second, third, fourth, fifth] =
      first ++ '-' :: (second ++ '-' :: (third ++ '-' :: (fourth ++ '-' :: fifth))) := by
    simp [List.intercalate]
  rw [hsplit, getElem?_eq_hyphen_iff hone, getElem?_eq_hyphen_iff htwo,
    getElem?_eq_hyphen_iff hthree, getElem?_eq_hyphen_iff hfour, hfirst, hsecond, hthird,
    hfourth]
  simp only [getElem?_ne_hyphen hfive, hyphenPlaces, List.mem_cons, List.not_mem_nil,
    and_false, or_false]
  -- What is left is a comparison of `place` with the ends of the first four groups.
  omega

theorem TextOf.form {n : ℕ} {cs : List Char} (htext : TextOf n cs) : Form cs where
  length_eq := by
    obtain ⟨groups, hlengths, -, -, rfl⟩ := htext
    have hlength : groups.flatten.length = 32 := by
      rw [List.length_flatten, hlengths]
      rfl
    rw [← hyphenate_flatten hlengths]
    simp [hyphenate, hlength]
  hyphen_iff := htext.hyphen_iff
  lower := by
    obtain ⟨groups, -, hlower, -, rfl⟩ := htext
    intro c hc hne
    exact hlower c ((mem_intercalate hc).resolve_left hne)

theorem TextOf.value?_digitsOf {n : ℕ} {cs : List Char} (htext : TextOf n cs) :
    Hex.value? (digitsOf cs) = some n := by
  obtain ⟨groups, -, hlower, hvalue, rfl⟩ := htext
  rw [digitsOf_intercalate hlower, hvalue]

/-! ## Groups between the hyphens -/

/-- The characters of a text from `start` on, as many as `count`. -/
def window (cs : List Char) (start count : ℕ) : List Char :=
  (cs.drop start).take count

theorem drop_eq_window {cs : List Char} {start count : ℕ}
    (hhyphen : cs[start + count]? = some '-') :
    cs.drop start = window cs start count ++ '-' :: cs.drop (start + count + 1) := by
  obtain ⟨hlt, hget⟩ := List.getElem?_eq_some_iff.mp hhyphen
  calc
    cs.drop start = window cs start count ++ (cs.drop start).drop count :=
      (List.take_append_drop count _).symm
    _ = window cs start count ++ '-' :: cs.drop (start + count + 1) := by
      rw [List.drop_drop, List.drop_eq_getElem_cons hlt, hget]

theorem exists_place_of_mem_window {cs : List Char} {start count : ℕ} {c : Char}
    (hmem : c ∈ window cs start count) :
    ∃ place, start ≤ place ∧ place < start + count ∧ cs[place]? = some c := by
  obtain ⟨place, hplace⟩ := List.mem_iff_getElem?.mp hmem
  rw [window, List.getElem?_take] at hplace
  split at hplace
  · next hlt =>
      rw [List.getElem?_drop] at hplace
      exact ⟨start + place, by omega, by omega, hplace⟩
  · cases hplace

/-- A group between two hyphens has digits only. -/
theorem Form.lower_window {cs : List Char} (hform : Form cs) {start count : ℕ}
    (hplaces : ∀ place ∈ hyphenPlaces, place < start ∨ start + count ≤ place) :
    ∀ c ∈ window cs start count, c ∈ Hex.lowerDigits := by
  intro c hc
  obtain ⟨place, hstart, hend, hplace⟩ := exists_place_of_mem_window hc
  apply hform.lower c (List.mem_of_getElem? hplace)
  rintro rfl
  rcases hplaces place ((hform.hyphen_iff place).mp hplace) with hlt | hle
  · omega
  · omega

theorem Form.exists_groups {cs : List Char} (hform : Form cs) :
    ∃ groups : List (List Char), groups.map List.length = [8, 4, 4, 4, 12] ∧
      (∀ c ∈ groups.flatten, c ∈ Hex.lowerDigits) ∧ cs = ['-'].intercalate groups := by
  have hhyphen : ∀ place ∈ hyphenPlaces, cs[place]? = some '-' :=
    fun place => (hform.hyphen_iff place).mpr
  simp only [hyphenPlaces, List.forall_mem_cons, List.not_mem_nil] at hhyphen
  obtain ⟨hfirst, hsecond, hthird, hfourth, -⟩ := hhyphen
  refine ⟨[window cs 0 8, window cs 9 4, window cs 14 4, window cs 19 4, window cs 24 12],
    ?_, ?_, ?_⟩
  · simp [window, hform.length_eq]
  · simp only [List.flatten_cons, List.flatten_nil, List.append_nil, List.forall_mem_append]
    refine ⟨?_, ?_, ?_, ?_, ?_⟩
    all_goals
      apply hform.lower_window
      decide
  · have hlast : cs.drop 24 = window cs 24 12 := by
      rw [window, List.take_of_length_le]
      simp [hform.length_eq]
    -- Each hyphen cuts one group off what is left of the text.
    have hone : cs.drop 0 = window cs 0 8 ++ '-' :: cs.drop 9 := drop_eq_window hfirst
    have htwo : cs.drop 9 = window cs 9 4 ++ '-' :: cs.drop 14 := drop_eq_window hsecond
    have hthree : cs.drop 14 = window cs 14 4 ++ '-' :: cs.drop 19 := drop_eq_window hthird
    have hfour : cs.drop 19 = window cs 19 4 ++ '-' :: cs.drop 24 := drop_eq_window hfourth
    calc
      cs = window cs 0 8 ++ '-' :: (window cs 9 4 ++ '-' :: (window cs 14 4 ++
          '-' :: (window cs 19 4 ++ '-' :: window cs 24 12))) := by
        rw [← hlast, ← hfour, ← hthree, ← htwo, ← hone, List.drop_zero]
      _ = ['-'].intercalate [window cs 0 8, window cs 9 4, window cs 14 4, window cs 19 4,
          window cs 24 12] := by
        simp [List.intercalate]

/-! ## The identifier of a text -/

/-- A text of the right form is the text of the identifier with the value of its digits. -/
theorem Form.exists_uuid {cs : List Char} (hform : Form cs) :
    ∃ uuid : Uuid, Hex.value? (digitsOf cs) = some uuid.value ∧ uuid.text = cs := by
  obtain ⟨groups, hlengths, hlower, rfl⟩ := hform.exists_groups
  obtain ⟨n, hvalue, hlt⟩ := Hex.exists_value hlower
  rw [List.length_flatten, hlengths] at hlt
  have htext : TextOf n (['-'].intercalate groups) := ⟨groups, hlengths, hlower, hvalue, rfl⟩
  refine ⟨⟨n, hlt⟩, ?_, ?_⟩
  · rw [digitsOf_intercalate hlower, hvalue]
  · exact (eq_text_of_textOf htext hlt).symm

theorem value_injective : Function.Injective value := by
  intro left right hsame
  cases left
  cases right
  cases hsame
  rfl

theorem toString_injective : Function.Injective (toString : Uuid → String) := by
  intro left right hsame
  have htext : left.text = right.text := by
    have hlist := congrArg String.toList hsame
    change (String.ofList left.text).toList = (String.ofList right.text).toList at hlist
    rwa [String.toList_ofList, String.toList_ofList] at hlist
  have hvalue := (textOf_text left).value?_digitsOf
  rw [htext, (textOf_text right).value?_digitsOf, Option.some.injEq] at hvalue
  exact value_injective hvalue.symm

end Uuid

end FlowMigration
