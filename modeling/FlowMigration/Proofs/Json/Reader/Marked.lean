import FlowMigration.Json.Reader
import FlowMigration.Proofs.Json.Reader.Container

/-!
# Laws of reading marked numbers

The first key of an object is looked at before the object is read: if it is the key that
marks a number, the rest is that number in a string and the closing brace.
-/

namespace FlowMigration.Json.Reader

open Grammar (Blanks NumberText StringText)

/-! ## The first key -/

section Marks

variable {mark : Option String} {steps : ℕ}

theorem afterMark?_none (hex : Scan Char) (cs : List Char) :
    afterMark? none hex steps cs = none := by
  unfold afterMark?
  split
  · split
    · next key unread _ => exact if_neg (Option.some_ne_none key)
    · rfl
  · rfl

theorem afterMark?_append {before key : List Char} {name : String} (hbefore : Blanks before)
    (hkey : StringText key name) (hsteps : key.length ≤ steps) (rest : List Char) :
    afterMark? mark hexEscape steps (before ++ (key ++ rest)) =
      if some name = mark then some rest else none := by
  obtain ⟨tail, rfl⟩ := hkey.eq_cons
  have hstring := string_append hkey (Nat.le_of_succ_le hsteps) rest
  simp [afterMark?, skipBlanks_append hbefore, skipBlanks_of_not_blank (c := '"') rfl,
    hstring]

theorem exists_of_afterMark? {cs rest : List Char}
    (hafter : afterMark? mark hexEscape steps cs = some rest) :
    ∃ before key name, mark = some name ∧ Blanks before ∧ StringText key name ∧
      cs = before ++ key ++ rest := by
  obtain ⟨before, hbefore, hcs⟩ := exists_blanks cs
  unfold afterMark? at hafter
  split at hafter
  case h_1 unread hskip =>
    split at hafter
    · next name left hstring =>
        split_ifs at hafter with hname
        cases hafter
        obtain ⟨body, hbody, rfl⟩ := exists_of_string hstring
        refine ⟨before, _, name, hname.symm, hbefore, hbody, ?_⟩
        rw [hcs, hskip]
        simp
    · cases hafter
  case h_2 => cases hafter

theorem afterMark?_of_blanks {blanks : List Char} (hblanks : Blanks blanks)
    (rest : List Char) : afterMark? mark hexEscape steps (blanks ++ '}' :: rest) = none := by
  simp [afterMark?, skipBlanks_append hblanks, skipBlanks_of_not_blank (c := '}') rfl]

/-- Of the keys of an object that is read, the first one is looked at for a mark. -/
theorem afterMark?_eq_none_iff {α : Type} {content : String → Scan α} {limit : ℕ}
    {cs rest : List Char} {pairs : List (String × α)}
    (hok : items .object (member (string hexEscape steps) content) limit cs =
      .ok (pairs, rest)) :
    afterMark? mark hexEscape steps cs = none ↔
      ∀ key ∈ (Entries.keys pairs).head?, some key ≠ mark := by
  unfold items at hok
  split at hok
  · cases hok
  · next c tail hskip =>
      split_ifs at hok with hclosing
      · cases hok
        simp [afterMark?, hskip, hclosing, Container.object, Entries.keys]
      · obtain ⟨first, others, unread, rfl, hfirst⟩ := exists_first_of_itemsAndClosing hok
        unfold member at hfirst
        rw [← hskip, skipBlanks_skipBlanks, hskip] at hfirst
        simp only at hfirst
        split_ifs at hfirst with hquote
        obtain ⟨⟨name, afterKey⟩, hname, hcolonOk⟩ := exists_of_bind_eq_ok hfirst
        obtain ⟨_, -, hcontentOk⟩ := exists_of_bind_eq_ok hcolonOk
        obtain ⟨_, -, hresult⟩ := exists_of_bind_eq_ok hcontentOk
        cases hresult
        simp [afterMark?, hskip, hquote, hname]

end Marks

/-! ## The number -/

theorem closingBrace_eq_ok_iff {cs rest : List Char} :
    closingBrace cs = .ok ((), rest) ↔ ∃ after, Blanks after ∧ cs = after ++ '}' :: rest := by
  constructor
  · intro hok
    obtain ⟨after, hafter, hcs⟩ := exists_blanks cs
    unfold closingBrace at hok
    split at hok
    · cases hok
    · next c unread hskip =>
        split_ifs at hok with hc
        cases hok
        rw [hskip, hc] at hcs
        exact ⟨after, hafter, hcs⟩
  · rintro ⟨after, hafter, rfl⟩
    simp [closingBrace, skipBlanks_append hafter, skipBlanks_of_not_blank (c := '}') rfl]

theorem exists_of_quotedNumber {steps : ℕ} {cs rest : List Char} {number : Number}
    (hok : quotedNumber hexEscape steps cs = .ok (number, rest)) :
    ∃ between quoted text, Blanks between ∧ StringText quoted text ∧
      NumberText text.toList number ∧ cs = between ++ quoted ++ rest := by
  obtain ⟨between, hbetween, hcs⟩ := exists_blanks cs
  unfold quotedNumber at hok
  split at hok
  case h_1 unread hskip =>
    obtain ⟨⟨text, left⟩, hstring, hnumberOk⟩ := exists_of_bind_eq_ok hok
    obtain ⟨found, hnumber, hresult⟩ := exists_of_bind_eq_ok hnumberOk
    cases hresult
    obtain ⟨body, hbody, rfl⟩ := exists_of_string hstring
    refine ⟨between, _, text, hbetween, hbody, wholeNumber_eq_ok_iff.mp hnumber, ?_⟩
    rw [hcs, hskip]
    simp
  case h_2 => cases hok
  case h_3 => cases hok
  case h_4 =>
    obtain ⟨_, _, hresult⟩ := exists_of_bind_eq_ok hok
    cases hresult

theorem quotedNumber_append {steps : ℕ} {between quoted : List Char} {text : String}
    {number : Number} (hbetween : Blanks between) (hquoted : StringText quoted text)
    (hnumber : NumberText text.toList number) (hsteps : quoted.length ≤ steps)
    (rest : List Char) :
    quotedNumber hexEscape steps (between ++ (quoted ++ rest)) = .ok (number, rest) := by
  obtain ⟨tail, rfl⟩ := hquoted.eq_cons
  have hstring := string_append hquoted (Nat.le_of_succ_le hsteps) rest
  simp [quotedNumber, skipBlanks_append hbetween, skipBlanks_of_not_blank (c := '"') rfl,
    hstring, wholeNumber_eq_ok_iff.mpr hnumber, bind, Except.bind]

theorem markedNumber_append {steps : ℕ} {gap between quoted after : List Char}
    {text : String} {number : Number} (hgap : Blanks gap) (hbetween : Blanks between)
    (hquoted : StringText quoted text) (hnumber : NumberText text.toList number)
    (hafter : Blanks after) (hsteps : quoted.length ≤ steps) (rest : List Char) :
    markedNumber hexEscape steps
        (gap ++ ':' :: (between ++ (quoted ++ (after ++ '}' :: rest)))) =
      .ok (number, rest) := by
  have hcolon := colon_eq_ok_iff.mpr
    ⟨gap, hgap, Eq.refl (gap ++ ':' :: (between ++ (quoted ++ (after ++ '}' :: rest))))⟩
  have hfound := quotedNumber_append hbetween hquoted hnumber hsteps (after ++ '}' :: rest)
  have hclosing := closingBrace_eq_ok_iff.mpr ⟨after, hafter, Eq.refl (after ++ '}' :: rest)⟩
  simp [markedNumber, hcolon, hfound, hclosing, bind, Except.bind]

theorem exists_of_markedNumber {steps : ℕ} {cs rest : List Char} {number : Number}
    (hok : markedNumber hexEscape steps cs = .ok (number, rest)) :
    ∃ gap between quoted after text, Blanks gap ∧ Blanks between ∧ StringText quoted text ∧
      NumberText text.toList number ∧ Blanks after ∧
      cs = gap ++ ':' :: (between ++ quoted ++ after ++ '}' :: rest) := by
  obtain ⟨⟨⟨⟩, afterColon⟩, hcolon, hquotedOk⟩ := exists_of_bind_eq_ok hok
  obtain ⟨⟨found, unread⟩, hquoted, hclosingOk⟩ := exists_of_bind_eq_ok hquotedOk
  obtain ⟨⟨⟨⟩, left⟩, hclosing, hresult⟩ := exists_of_bind_eq_ok hclosingOk
  cases hresult
  obtain ⟨gap, hgap, rfl⟩ := colon_eq_ok_iff.mp hcolon
  obtain ⟨between, quoted, text, hbetween, hstring, hnumber, rfl⟩ :=
    exists_of_quotedNumber hquoted
  obtain ⟨after, hafter, rfl⟩ := closingBrace_eq_ok_iff.mp hclosing
  exact ⟨gap, between, quoted, after, text, hgap, hbetween, hstring, hnumber, hafter,
    by simp⟩

end FlowMigration.Json.Reader
