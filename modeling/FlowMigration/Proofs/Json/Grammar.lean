import FlowMigration.Json.Grammar
import FlowMigration.Proofs.Entries
import FlowMigration.Proofs.Json.Member
import Mathlib

/-!
# Laws of the grammar

The contents of an array and of an object are items with commas between them, and
are treated as such once.  A text of a value bounds the nesting of the value, and
what an object denotes never repeats a key.

A text that does without the key that marks a number denotes the same in every dialect,
and whatever text a dialect has is one of the standard dialect.
-/

namespace FlowMigration.Json.Grammar

/-! ## Blanks -/

theorem blanks_nil : Blanks [] := by simp [Blanks]

theorem StringText.eq_cons {cs : List Char} {text : String} (htext : StringText cs text) :
    ∃ tail, cs = '"' :: tail := by
  obtain ⟨body, -, rfl⟩ := htext
  exact ⟨body ++ ['"'], rfl⟩

/-! ## Items -/

/-- One item or more, with commas between them and blanks around each. -/
inductive ItemsText {α : Type} (Item : List Char → α → Prop) :
    List Char → List α → Prop
  | last {before cs after : List Char} {item : α} :
      Blanks before → Item cs item → Blanks after →
        ItemsText Item (before ++ cs ++ after) [item]
  | more {before cs after rest : List Char} {item : α} {items : List α} :
      Blanks before → Item cs item → Blanks after → ItemsText Item rest items →
        ItemsText Item (before ++ cs ++ after ++ ',' :: rest) (item :: items)

/-- A key, a colon and a value, with blanks around the colon. -/
def MemberText {α : Type} (Content : String → List Char → α → Prop) (cs : List Char)
    (member : String × α) : Prop :=
  ∃ key gap between body, StringText key member.1 ∧ Blanks gap ∧ Blanks between ∧
    Content member.1 body member.2 ∧ cs = key ++ gap ++ ':' :: between ++ body

/-- The members of an object are items of the grammar. -/
abbrev PairText (dialect : Dialect) (levels : ℕ) : List Char → String × Value → Prop :=
  MemberText fun _ => ValueText dialect levels

theorem elementsText_iff {dialect : Dialect} {levels : ℕ} {cs : List Char}
    {elements : List Value} :
    ElementsText dialect levels cs elements ↔
      ItemsText (ValueText dialect levels) cs elements := by
  constructor
  · intro htext
    induction elements generalizing cs with
    | nil => cases htext
    | cons element rest ih =>
        cases htext with
        | last hbefore hvalue hafter => exact .last hbefore hvalue hafter
        | more hbefore hvalue hafter hrest => exact .more hbefore hvalue hafter (ih hrest)
  · intro htext
    induction htext with
    | last hbefore hvalue hafter => exact .last hbefore hvalue hafter
    | more hbefore hvalue hafter _ ih => exact .more hbefore hvalue hafter ih

theorem membersText_iff {dialect : Dialect} {levels : ℕ} {cs : List Char}
    {pairs : List (String × Value)} :
    MembersText dialect levels cs pairs ↔ ItemsText (PairText dialect levels) cs pairs := by
  constructor
  · intro htext
    induction pairs generalizing cs with
    | nil => cases htext
    | cons pair rest ih =>
        cases htext with
        | @last _ before key gap between body after name content hbefore hkey hgap
            hbetween hvalue hafter =>
            have hpair : PairText dialect levels (key ++ gap ++ ':' :: between ++ body)
                (name, content) :=
              ⟨key, gap, between, body, hkey, hgap, hbetween, hvalue, rfl⟩
            simpa using ItemsText.last hbefore hpair hafter
        | @more _ before key gap between body after others name content _ hbefore hkey
            hgap hbetween hvalue hafter hrest =>
            have hpair : PairText dialect levels (key ++ gap ++ ':' :: between ++ body)
                (name, content) :=
              ⟨key, gap, between, body, hkey, hgap, hbetween, hvalue, rfl⟩
            simpa using ItemsText.more hbefore hpair hafter (ih hrest)
  · intro htext
    induction htext with
    | last hbefore hpair hafter =>
        obtain ⟨key, gap, between, body, hkey, hgap, hbetween, hvalue, rfl⟩ := hpair
        simpa using MembersText.last hbefore hkey hgap hbetween hvalue hafter
    | more hbefore hpair hafter _ ih =>
        obtain ⟨key, gap, between, body, hkey, hgap, hbetween, hvalue, rfl⟩ := hpair
        simpa using MembersText.more hbefore hkey hgap hbetween hvalue hafter ih

section Items

variable {α : Type} {Item : List Char → α → Prop}

/-- Each of the items has a text of its own. -/
theorem ItemsText.exists_text {cs : List Char} {items : List α}
    (htext : ItemsText Item cs items) : ∀ item ∈ items, ∃ text, Item text item := by
  induction htext with
  | last _ hitem _ =>
      intro item hmem
      rw [List.mem_singleton.mp hmem]
      exact ⟨_, hitem⟩
  | more _ hitem _ _ ih =>
      intro item hmem
      rcases List.mem_cons.mp hmem with rfl | hmem
      · exact ⟨_, hitem⟩
      · exact ih item hmem

/-- Items that each have the text of another item are the text of the others. -/
theorem ItemsText.transfer {β : Type} {Q : List Char → β → Prop} {R : α → β → Prop}
    {cs : List Char} {items : List α} (htext : ItemsText Item cs items)
    (hitem : ∀ text item, Item text item → ∃ other, R item other ∧ Q text other) :
    ∃ others, List.Forall₂ R items others ∧ ItemsText Q cs others := by
  induction htext with
  | last hbefore hfirst hafter =>
      obtain ⟨other, hrelated, hother⟩ := hitem _ _ hfirst
      exact ⟨[other], .cons hrelated .nil, .last hbefore hother hafter⟩
  | more hbefore hfirst hafter _ ih =>
      obtain ⟨other, hrelated, hother⟩ := hitem _ _ hfirst
      obtain ⟨others, hall, hothers⟩ := ih
      exact ⟨other :: others, .cons hrelated hall, .more hbefore hother hafter hothers⟩

theorem ItemsText.length_le {cs : List Char} {items : List α}
    (htext : ItemsText Item cs items)
    (hpos : ∀ text item, Item text item → 0 < text.length) :
    items.length ≤ cs.length := by
  induction htext with
  | last _ hitem _ =>
      have hitemPos := hpos _ _ hitem
      simp only [List.length_append, List.length_singleton]
      omega
  | more _ hitem _ _ ih =>
      have hitemPos := hpos _ _ hitem
      simp only [List.length_append, List.length_cons]
      omega

/-- Items that are written one after the other, each with the same blanks before
it. -/
theorem itemsText_flatMap {before after : List Char} (hbefore : Blanks before)
    (hafter : Blanks after) (write : α → List Char) (first : α) (rest : List α)
    (hwrite : ∀ item ∈ first :: rest, Item (write item) item) :
    ItemsText Item
      (before ++ write first ++
        rest.flatMap (fun item => ',' :: before ++ write item) ++ after)
      (first :: rest) := by
  induction rest generalizing first with
  | nil =>
      have hfirst := hwrite first List.mem_cons_self
      simpa using ItemsText.last hbefore hfirst hafter
  | cons second rest ih =>
      have hfirst := hwrite first List.mem_cons_self
      have hothers := ih second fun item hmem => hwrite item (List.mem_cons_of_mem _ hmem)
      simpa using ItemsText.more hbefore hfirst blanks_nil hothers

end Items

/-! ## What an object denotes -/

/-- What stands between the braces of an object whose members are the pairs. -/
def ContentsText (dialect : Dialect) (levels : ℕ) (cs : List Char)
    (pairs : List (String × Value)) : Prop :=
  Blanks cs ∧ pairs = [] ∨ MembersText dialect levels cs pairs

/-- A whole text that is an object with these pairs, each as often as it is there. -/
def ObjectText (levels : ℕ) (cs : List Char) (pairs : List (String × Value)) : Prop :=
  ∃ before body after, Blanks before ∧ ContentsText .standard levels body pairs ∧
    Blanks after ∧ cs = before ++ '{' :: body ++ '}' :: after

theorem folded_iff {pairs : List (String × Value)} {members : Members Value} :
    Folded pairs members ↔ members = Entries.ofPairs pairs := by
  constructor
  · intro hfolded
    symm
    apply Entries.eq_of_keys_eq (Entries.nodup_keys_ofPairs pairs)
    · rw [Entries.keys_ofPairs, hfolded.keys_eq]
    · intro key
      rw [Entries.get?_ofPairs, hfolded.get?_eq]
  · rintro rfl
    exact ⟨Entries.keys_ofPairs pairs, Entries.get?_ofPairs pairs⟩

theorem folded_self {members : Members Value} (hnodup : (Entries.keys members).Nodup) :
    Folded members members :=
  folded_iff.mpr (Entries.ofPairs_eq_self hnodup).symm

theorem Folded.mem {pairs : List (String × Value)} {members : Members Value}
    (hfolded : Folded pairs members) {member : String × Value}
    (hmem : member ∈ members) : member ∈ pairs := by
  have hnodup : (Entries.keys members).Nodup := by
    rw [hfolded.keys_eq]
    exact Entries.nodup_eraseDups _
  have hget := Entries.get?_of_mem hnodup hmem
  rw [hfolded.get?_eq] at hget
  exact List.mem_reverse.mp (Entries.mem_of_get? hget)

/-! ## Values -/

section Values

variable {dialect : Dialect} {levels : ℕ} {cs : List Char} {value : Value}

/-- A value without containers is written the same at every depth and in every dialect. -/
theorem ValueText.of_zero (htext : ValueText dialect 0 cs value) (other : Dialect)
    (levels : ℕ) : ValueText other levels cs value := by
  cases htext with
  | null => exact .null levels
  | isTrue => exact .isTrue levels
  | isFalse => exact .isFalse levels
  | number _ hnumber => exact .number levels hnumber
  | string _ hstring => exact .string levels hstring

/-- The members that an object denotes have texts of their own. -/
theorem exists_text_of_folded {pairs : List (String × Value)} {members : Members Value}
    (hmembers : MembersText dialect levels cs pairs) (hfolded : Folded pairs members) :
    ∀ member ∈ members, ∃ text, ValueText dialect levels text member.2 := by
  intro member hmem
  obtain ⟨_, _, _, _, body, _, _, _, hvalue, _⟩ :=
    (membersText_iff.mp hmembers).exists_text member (hfolded.mem hmem)
  exact ⟨body, hvalue⟩

/-- What a text denotes is nested as deep as the text may be. -/
theorem ValueText.depth_le (htext : ValueText dialect levels cs value) :
    value.depth ≤ levels := by
  induction levels generalizing cs value with
  | zero =>
      cases htext
      all_goals simp [Value.depth]
  | succ levels ih =>
      cases htext with
      | null | isTrue | isFalse | number | string | markedNumber => simp [Value.depth]
      | emptyArray | emptyObject =>
          simp [Value.depth, Value.depthElements, Value.depthMembers]
      | array helements =>
          have htexts := (elementsText_iff.mp helements).exists_text
          rw [Value.depth_array_le_iff]
          intro element hmem
          obtain ⟨text, htext⟩ := htexts element hmem
          exact ih htext
      | object hmembers _ hfolded =>
          rw [Value.depth_object_le_iff]
          intro member hmem
          obtain ⟨text, htext⟩ := exists_text_of_folded hmembers hfolded member hmem
          exact ih htext

/-- Repeated keys are folded into one, so no object that a text denotes repeats a key. -/
theorem ValueText.distinctKeys (htext : ValueText dialect levels cs value) :
    value.DistinctKeys := by
  induction levels generalizing cs value with
  | zero =>
      cases htext
      all_goals simp [Value.DistinctKeys, Value.EachObject]
  | succ levels ih =>
      cases htext with
      | null | isTrue | isFalse | number | string | markedNumber =>
          simp [Value.DistinctKeys, Value.EachObject]
      | emptyArray => simp [Value.distinctKeys_array_iff]
      | emptyObject => simp [Value.distinctKeys_object_iff, Entries.keys]
      | array helements =>
          have htexts := (elementsText_iff.mp helements).exists_text
          rw [Value.distinctKeys_array_iff]
          intro element hmem
          obtain ⟨text, htext⟩ := htexts element hmem
          exact ih htext
      | object hmembers _ hfolded =>
          rw [Value.distinctKeys_object_iff, hfolded.keys_eq]
          refine ⟨Entries.nodup_eraseDups _, fun member hmem => ?_⟩
          obtain ⟨text, htext⟩ := exists_text_of_folded hmembers hfolded member hmem
          exact ih htext

/-! ## Dialects -/

theorem Dialect.allows_of_unmarked {keys : List String} (hkeys : numberKey ∉ keys) :
    dialect.Allows keys := by
  cases dialect with
  | standard => trivial
  | unmarked => exact hkeys
  | marked => exact fun hhead => hkeys (List.mem_of_mem_head? hhead)

/-- A text without the key that marks a number denotes the same in every dialect. -/
theorem ValueText.of_unmarked (htext : ValueText .unmarked levels cs value)
    (dialect : Dialect) : ValueText dialect levels cs value := by
  induction levels generalizing cs value with
  | zero => exact htext.of_zero dialect 0
  | succ levels ih =>
      cases htext with
      | null => exact .null _
      | isTrue => exact .isTrue _
      | isFalse => exact .isFalse _
      | number _ hnumber => exact .number _ hnumber
      | string _ hstring => exact .string _ hstring
      | emptyArray _ hblanks => exact .emptyArray levels hblanks
      | emptyObject _ hblanks => exact .emptyObject levels hblanks
      | array helements =>
          obtain ⟨others, hsame, hothers⟩ := (elementsText_iff.mp helements).transfer
            (R := Eq) fun text element helement => ⟨element, rfl, ih helement⟩
          rw [List.forall₂_eq_eq_eq] at hsame
          subst hsame
          exact .array (elementsText_iff.mpr hothers)
      | object hmembers hkeys hfolded =>
          obtain ⟨others, hsame, hothers⟩ := (membersText_iff.mp hmembers).transfer
            (R := Eq) (Q := PairText dialect levels) fun text pair hpair => by
              obtain ⟨key, gap, between, body, hkey, hgap, hbetween, hvalue, rfl⟩ := hpair
              exact ⟨pair, rfl, key, gap, between, body, hkey, hgap, hbetween, ih hvalue, rfl⟩
          rw [List.forall₂_eq_eq_eq] at hsame
          subst hsame
          exact .object (membersText_iff.mpr hothers) (Dialect.allows_of_unmarked hkeys) hfolded
      | markedNumber _ hdialect => cases hdialect

/-- A marked number is an object of the standard dialect, with one member. -/
theorem MarkedText.membersText {number : Number} (htext : MarkedText cs number)
    (levels : ℕ) : ∃ pairs, MembersText .standard levels cs pairs := by
  obtain ⟨before, key, gap, between, quoted, after, text, hbefore, hkey, hgap, hbetween,
    hquoted, -, hafter, rfl⟩ := htext
  exact ⟨_, .last hbefore hkey hgap hbetween (.string levels hquoted) hafter⟩

/-- Whatever the dialect, a text of a value is one of the standard dialect. -/
theorem ValueText.exists_standard (htext : ValueText dialect levels cs value) :
    ∃ other, ValueText .standard levels cs other := by
  induction levels generalizing cs value with
  | zero => exact ⟨value, htext.of_zero .standard 0⟩
  | succ levels ih =>
      cases htext with
      | null => exact ⟨_, .null _⟩
      | isTrue => exact ⟨_, .isTrue _⟩
      | isFalse => exact ⟨_, .isFalse _⟩
      | number _ hnumber => exact ⟨_, .number _ hnumber⟩
      | string _ hstring => exact ⟨_, .string _ hstring⟩
      | emptyArray _ hblanks => exact ⟨_, .emptyArray levels hblanks⟩
      | emptyObject _ hblanks => exact ⟨_, .emptyObject levels hblanks⟩
      | array helements =>
          obtain ⟨others, -, hothers⟩ := (elementsText_iff.mp helements).transfer
            (R := fun _ _ => True) fun text element helement => by
              obtain ⟨other, hother⟩ := ih helement
              exact ⟨other, trivial, hother⟩
          exact ⟨_, .array (elementsText_iff.mpr hothers)⟩
      | object hmembers =>
          obtain ⟨others, -, hothers⟩ := (membersText_iff.mp hmembers).transfer
            (R := fun _ _ => True) (Q := PairText .standard levels)
            fun text pair hpair => by
              obtain ⟨key, gap, between, body, hkey, hgap, hbetween, hvalue, rfl⟩ := hpair
              obtain ⟨other, hother⟩ := ih hvalue
              exact ⟨(pair.1, other), trivial, key, gap, between, body, hkey, hgap, hbetween,
                hother, rfl⟩
          exact ⟨_, .object (membersText_iff.mpr hothers) trivial (folded_iff.mpr rfl)⟩
      | markedNumber _ _ hmarked =>
          obtain ⟨pairs, hmembers⟩ := hmarked.membersText levels
          exact ⟨_, .object hmembers trivial (folded_iff.mpr rfl)⟩

end Values

/-- No object in the text has the key that marks a number: if the text denotes a
document at all, it does so by the rules for objects without that key. -/
def UnmarkedText (levels : ℕ) (cs : List Char) : Prop :=
  ∀ document, DocumentText .standard levels cs document →
    DocumentText .unmarked levels cs document

theorem DocumentText.of_unmarked {levels : ℕ} {cs : List Char} {document : Value}
    (htext : DocumentText .unmarked levels cs document) (dialect : Dialect) :
    DocumentText dialect levels cs document := by
  obtain ⟨before, body, after, hbefore, hbody, hafter, hcs⟩ := htext
  exact ⟨before, body, after, hbefore, hbody.of_unmarked dialect, hafter, hcs⟩

theorem DocumentText.exists_standard {dialect : Dialect} {levels : ℕ} {cs : List Char}
    {document : Value} (htext : DocumentText dialect levels cs document) :
    ∃ other, DocumentText .standard levels cs other := by
  obtain ⟨before, body, after, hbefore, hbody, hafter, hcs⟩ := htext
  obtain ⟨other, hother⟩ := hbody.exists_standard
  exact ⟨other, before, body, after, hbefore, hother, hafter, hcs⟩

end FlowMigration.Json.Grammar
