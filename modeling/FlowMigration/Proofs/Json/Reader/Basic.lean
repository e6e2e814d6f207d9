import FlowMigration.Json.Reader
import FlowMigration.Proofs.Json.Grammar

/-!
# Laws of scanners

Blanks, fixed words and whole texts.  For every scanner of the reader there are two
laws: what it reads is a text of the grammar, and a text of the grammar is read
whatever may follow it.
-/

namespace FlowMigration.Json

/-- A run that succeeds has a first part that succeeds. -/
theorem exists_of_bind_eq_ok {ε α β : Type} {first : Except ε α}
    {next : α → Except ε β} {result : β} (hok : (first >>= next) = .ok result) :
    ∃ value, first = .ok value ∧ next value = .ok result := by
  cases first with
  | error error => cases hok
  | ok value => exact ⟨value, rfl, hok⟩

namespace Reader

open Grammar (Blanks)

theorem isBlank_iff {c : Char} : isBlank c = true ↔ c ∈ [' ', '\n', '\t', '\r'] := by
  simp [isBlank, or_assoc]

theorem skipBlanks_append {blanks : List Char} (hblanks : Blanks blanks)
    (cs : List Char) : skipBlanks (blanks ++ cs) = skipBlanks cs := by
  induction blanks with
  | nil => rfl
  | cons c rest ih =>
      have hc : isBlank c = true := isBlank_iff.mpr (hblanks c List.mem_cons_self)
      have hrest := ih fun other hmem => hblanks other (List.mem_cons_of_mem _ hmem)
      rw [← hrest]
      simp [skipBlanks, hc]

theorem skipBlanks_of_not_blank {c : Char} (hc : isBlank c = false) (cs : List Char) :
    skipBlanks (c :: cs) = c :: cs := by
  simp [skipBlanks, hc]

theorem skipBlanks_of_blanks {blanks : List Char} (hblanks : Blanks blanks) :
    skipBlanks blanks = [] := by
  have hskip := skipBlanks_append hblanks []
  rwa [List.append_nil] at hskip

/-- What is skipped are blanks. -/
theorem exists_blanks (cs : List Char) :
    ∃ blanks, Blanks blanks ∧ cs = blanks ++ skipBlanks cs := by
  refine ⟨cs.takeWhile isBlank, fun c hmem => ?_, (List.takeWhile_append_dropWhile).symm⟩
  exact isBlank_iff.mp (List.mem_takeWhile_imp hmem)

/-! ## Words and whole texts -/

theorem word_eq_ok_iff {letters cs rest : List Char} :
    word letters cs = .ok ((), rest) ↔ cs = letters ++ rest := by
  induction letters generalizing cs with
  | nil => simp [word]
  | cons letter letters ih =>
      cases cs with
      | nil => simp [word]
      | cons c cs =>
          by_cases hc : c = letter
          · simp [word, hc, ih]
          · simp [word, hc]

theorem toEnd_eq_ok_iff {α : Type} {scan : Scan α} {cs : List Char} {result : α} :
    toEnd scan cs = .ok result ↔
      ∃ blanks, Blanks blanks ∧ scan cs = .ok (result, blanks) := by
  constructor
  · intro hok
    obtain ⟨⟨found, rest⟩, hscan, hrest⟩ := exists_of_bind_eq_ok hok
    obtain ⟨blanks, hblanks, hsplit⟩ := exists_blanks rest
    simp only at hrest
    split at hrest
    · next hnil =>
        cases hrest
        rw [hnil, List.append_nil] at hsplit
        exact ⟨blanks, hblanks, hsplit ▸ hscan⟩
    · cases hrest
  · rintro ⟨blanks, hblanks, hscan⟩
    simp [toEnd, hscan, bind, Except.bind, skipBlanks_of_blanks hblanks]

end Reader

end FlowMigration.Json
