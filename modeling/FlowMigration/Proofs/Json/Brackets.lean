import Mathlib

/-!
# Brackets of a text

A text is read one character at a time.  Brackets count and blanks may be removed outside of
strings only, so what is known of a text that has been read so far is whether it stands in a
string and how many containers are open.
-/

namespace FlowMigration.Json

/-! ## Reading a text for its brackets -/

/-- Where a text stands: outside of strings, inside one, or after a backslash inside one. -/
inductive Quoting where
  | outside
  | inside
  | escaped
deriving DecidableEq, Repr

def Quoting.next : Quoting → Char → Quoting
  | .outside, c => if c = '"' then .inside else .outside
  | .inside, c => if c = '"' then .outside else if c = '\\' then .escaped else .inside
  | .escaped, _ => .inside

/-- What is known of a text that has been read so far. -/
structure Progress where
  quoting : Quoting
  opened : ℕ
deriving DecidableEq, Repr

namespace Progress

/-- Outside of strings, with so many containers open. -/
def outside (opened : ℕ) : Progress :=
  ⟨.outside, opened⟩

def inside (opened : ℕ) : Progress :=
  ⟨.inside, opened⟩

def next (progress : Progress) (c : Char) : Progress where
  quoting := progress.quoting.next c
  opened :=
    if progress.quoting ≠ .outside then progress.opened
    else if c ∈ ['[', '{'] then progress.opened + 1
    else if c ∈ [']', '}'] then progress.opened - 1
    else progress.opened

def after (progress : Progress) (cs : List Char) : Progress :=
  cs.foldl next progress

/-- The containers that are open before a text and that the text does not close: as many as
are open where the fewest are. -/
def kept (progress : Progress) : List Char → ℕ
  | [] => progress.opened
  | c :: cs => min progress.opened (kept (progress.next c) cs)

@[simp]
theorem after_nil (progress : Progress) : progress.after [] = progress := rfl

@[simp]
theorem after_cons (progress : Progress) (c : Char) (cs : List Char) :
    progress.after (c :: cs) = (progress.next c).after cs := rfl

theorem after_append (progress : Progress) (cs ds : List Char) :
    progress.after (cs ++ ds) = (progress.after cs).after ds :=
  List.foldl_append

theorem kept_le (progress : Progress) (cs : List Char) : progress.kept cs ≤ progress.opened := by
  cases cs with
  | nil => exact le_rfl
  | cons c cs => exact min_le_left _ _

theorem kept_append (progress : Progress) (cs ds : List Char) :
    progress.kept (cs ++ ds) = min (progress.kept cs) ((progress.after cs).kept ds) := by
  induction cs generalizing progress with
  | nil => exact (min_eq_right (kept_le progress ds)).symm
  | cons c cs ih => rw [List.cons_append, kept, ih, kept, after_cons, min_assoc]

/-- From `progress` on, a text changes nothing and closes no container. -/
structure Unmoved (progress : Progress) (cs : List Char) : Prop where
  after_eq : progress.after cs = progress
  kept_eq : progress.kept cs = progress.opened

namespace Unmoved

variable {progress : Progress}

theorem nil : Unmoved progress [] :=
  ⟨rfl, rfl⟩

theorem append {cs ds : List Char} (hcs : Unmoved progress cs) (hds : Unmoved progress ds) :
    Unmoved progress (cs ++ ds) where
  after_eq := by rw [after_append, hcs.after_eq, hds.after_eq]
  kept_eq := by rw [kept_append, hcs.after_eq, hcs.kept_eq, hds.kept_eq, min_self]

theorem of_next {cs : List Char} (hcs : ∀ c ∈ cs, progress.next c = progress) :
    Unmoved progress cs := by
  induction cs with
  | nil => exact nil
  | cons c cs ih =>
      rw [List.forall_mem_cons] at hcs
      have hrest := ih hcs.2
      constructor
      · rw [after_cons, hcs.1, hrest.after_eq]
      · rw [kept, hcs.1, hrest.kept_eq, min_self]

end Unmoved

/-- The character is a blank or a line break that stands outside of strings. -/
def Skips (progress : Progress) (c : Char) : Prop :=
  progress.quoting = .outside ∧ c ∈ [' ', '\n']

instance (progress : Progress) (c : Char) : Decidable (progress.Skips c) :=
  inferInstanceAs (Decidable (_ ∧ _))

/-- A text without the blanks and line breaks that stand outside of strings. -/
def dropBlanks (progress : Progress) : List Char → List Char
  | [] => []
  | c :: cs =>
      if progress.Skips c then dropBlanks (progress.next c) cs
      else c :: dropBlanks (progress.next c) cs

theorem dropBlanks_append (progress : Progress) (cs ds : List Char) :
    progress.dropBlanks (cs ++ ds) =
      progress.dropBlanks cs ++ (progress.after cs).dropBlanks ds := by
  induction cs generalizing progress with
  | nil => rfl
  | cons c cs ih =>
      rw [List.cons_append, dropBlanks, dropBlanks, ih, after_cons]
      split
      · rfl
      · rfl

/-- From `progress` on, a text moves nothing, and without its blanks it is `short`. -/
structure Condenses (progress : Progress) (cs short : List Char) : Prop
    extends Unmoved progress cs where
  drop_eq : progress.dropBlanks cs = short

namespace Condenses

variable {progress : Progress}

theorem nil : Condenses progress [] [] :=
  ⟨.nil, rfl⟩

theorem append {cs ds short brief : List Char} (hcs : Condenses progress cs short)
    (hds : Condenses progress ds brief) : Condenses progress (cs ++ ds) (short ++ brief) where
  toUnmoved := hcs.toUnmoved.append hds.toUnmoved
  drop_eq := by rw [dropBlanks_append, hcs.after_eq, hcs.drop_eq, hds.drop_eq]

theorem flatMap {α : Type} {items : List α} {write brief : α → List Char}
    (hitems : ∀ item ∈ items, Condenses progress (write item) (brief item)) :
    Condenses progress (items.flatMap write) (items.flatMap brief) := by
  induction items with
  | nil => exact nil
  | cons item items ih =>
      rw [List.forall_mem_cons] at hitems
      exact hitems.1.append (ih hitems.2)

/-- A text without characters that move something or are dropped stays as it is. -/
theorem of_next {cs : List Char} (hcs : ∀ c ∈ cs, progress.next c = progress)
    (hblank : ∀ c ∈ cs, ¬progress.Skips c) :
    Condenses progress cs cs where
  toUnmoved := .of_next hcs
  drop_eq := by
    induction cs with
    | nil => rfl
    | cons c cs ih =>
        rw [List.forall_mem_cons] at hcs hblank
        rw [dropBlanks, if_neg hblank.1, hcs.1, ih hcs.2 hblank.2]

/-- Blanks go away. -/
theorem of_blank {opened : ℕ} {cs : List Char} (hcs : ∀ c ∈ cs, c ∈ [' ', '\n']) :
    Condenses (outside opened) cs [] := by
  have hnext : ∀ c ∈ cs, (outside opened).next c = outside opened := by
    intro c hc
    rcases List.mem_pair.mp (hcs c hc) with rfl | rfl
    · rfl
    · rfl
  refine ⟨.of_next hnext, ?_⟩
  induction cs with
  | nil => rfl
  | cons c cs ih =>
      rw [List.forall_mem_cons] at hcs hnext
      rw [dropBlanks, if_pos ⟨rfl, hcs.1⟩, hnext.1, ih hcs.2 hnext.2]

/-- A text between two characters that stay.  Between them no fewer containers are open than
around them. -/
theorem wrap {inner : Progress} {first last : Char} {body short : List Char}
    (hfirst : progress.next first = inner) (hlast : inner.next last = progress)
    (hopened : progress.opened ≤ inner.opened) (hfirstStays : ¬progress.Skips first)
    (hlastStays : ¬inner.Skips last) (hbody : Condenses inner body short) :
    Condenses progress (first :: body ++ [last]) (first :: short ++ [last]) where
  after_eq := by
    rw [List.cons_append, after_cons, hfirst, after_append, hbody.after_eq, after_cons, hlast,
      after_nil]
  kept_eq := by
    rw [List.cons_append, kept, hfirst, kept_append, hbody.kept_eq, hbody.after_eq, kept, hlast,
      kept]
    omega
  drop_eq := by
    rw [List.cons_append, dropBlanks, if_neg hfirstStays, hfirst, dropBlanks_append,
      hbody.drop_eq, hbody.after_eq, dropBlanks, if_neg hlastStays, dropBlanks,
      List.cons_append]

end Condenses

end Progress

open Progress (Condenses Unmoved inside outside)

/-! ## Characters without a bearing -/

/-- A character that is no bracket, no quote and no blank. -/
def Ordinary (c : Char) : Prop :=
  c ∉ ['"', '[', ']', '{', '}', ' ', '\n']

instance (c : Char) : Decidable (Ordinary c) :=
  inferInstanceAs (Decidable (c ∉ _))

theorem condenses_ordinary {cs : List Char} (hcs : ∀ c ∈ cs, Ordinary c) (opened : ℕ) :
    Condenses (outside opened) cs cs := by
  simp only [Ordinary, List.mem_cons, List.not_mem_nil, not_or] at hcs
  apply Condenses.of_next
  · intro c hc
    simp [Progress.next, Quoting.next, outside, hcs c hc]
  · intro c hc
    simp [Progress.Skips, hcs c hc]

/-- Inside a string, only quotes and backslashes mean anything. -/
theorem condenses_inside {cs : List Char} (hcs : ∀ c ∈ cs, c ≠ '"' ∧ c ≠ '\\') (opened : ℕ) :
    Condenses (inside opened) cs cs := by
  apply Condenses.of_next
  · intro c hc
    simp [Progress.next, Quoting.next, inside, hcs c hc]
  · intro c _
    simp [Progress.Skips, inside]

theorem condenses_backslash (letter : Char) (opened : ℕ) :
    Condenses (inside opened) ['\\', letter] ['\\', letter] := by
  refine ⟨⟨?_, ?_⟩, ?_⟩
  · simp [Progress.next, Quoting.next, inside]
  · simp [Progress.kept, Progress.next, Quoting.next, inside]
  · simp [Progress.dropBlanks, Progress.Skips, Progress.next, Quoting.next, inside]

/-- Quotes around a text that holds no bare quote. -/
theorem condenses_quotes {body short : List Char} {opened : ℕ}
    (hbody : Condenses (inside opened) body short) :
    Condenses (outside opened) ('"' :: body ++ ['"']) ('"' :: short ++ ['"']) := by
  apply Condenses.wrap rfl rfl le_rfl
  · simp [Progress.Skips]
  · simp [Progress.Skips]
  · exact hbody

/-! ## Containers -/

/-- The brackets of each kind of container. -/
def brackets : List (Char × Char) :=
  [('[', ']'), ('{', '}')]

theorem array_mem_brackets : ('[', ']') ∈ brackets := by
  decide

theorem object_mem_brackets : ('{', '}') ∈ brackets := by
  decide

section Brackets

variable {opening closing : Char} (hbrackets : (opening, closing) ∈ brackets)

include hbrackets

theorem eq_of_mem_brackets :
    opening = '[' ∧ closing = ']' ∨ opening = '{' ∧ closing = '}' := by
  simpa [brackets] using hbrackets

theorem next_opening (opened : ℕ) : (outside opened).next opening = outside (opened + 1) := by
  rcases eq_of_mem_brackets hbrackets with ⟨rfl, -⟩ | ⟨rfl, -⟩
  · rfl
  · rfl

theorem next_closing (opened : ℕ) : (outside (opened + 1)).next closing = outside opened := by
  rcases eq_of_mem_brackets hbrackets with ⟨-, rfl⟩ | ⟨-, rfl⟩
  · rfl
  · rfl

theorem brackets_not_blank : opening ∉ [' ', '\n'] ∧ closing ∉ [' ', '\n'] := by
  rcases eq_of_mem_brackets hbrackets with ⟨rfl, rfl⟩ | ⟨rfl, rfl⟩
  · decide
  · decide

/-- A container closes what it opens. -/
theorem condenses_brackets {body short : List Char} {opened : ℕ}
    (hbody : Condenses (outside (opened + 1)) body short) :
    Condenses (outside opened) (opening :: body ++ [closing])
      (opening :: short ++ [closing]) := by
  obtain ⟨hopens, hcloses⟩ := brackets_not_blank hbrackets
  apply Condenses.wrap (next_opening hbrackets opened) (next_closing hbrackets opened)
  · exact Nat.le_succ opened
  · exact fun hskips => hopens hskips.2
  · exact fun hskips => hcloses hskips.2
  · exact hbody

end Brackets

end FlowMigration.Json
