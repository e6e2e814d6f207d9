import FlowMigration.Proofs.Json.Reader.Number
import FlowMigration.Proofs.Json.Reader.Quoted

/-!
# Laws of reading containers

The loop over the items of a container is right for every kind of item whose own
scanner is right.  What that means is stated once, in `Reads`, for values and for the
members of objects alike.
-/

namespace FlowMigration.Json.Reader

open Grammar (Blanks ItemsText MemberText StringText)

variable {α : Type}

theorem skipBlanks_skipBlanks (cs : List Char) :
    skipBlanks (skipBlanks cs) = skipBlanks cs := by
  obtain ⟨blanks, hblanks, hcs⟩ := exists_blanks cs
  conv_rhs => rw [hcs, skipBlanks_append hblanks]

/-! ## Texts at either end of an item -/

/-- A text that starts with no blank and no closing bracket. -/
def Starts (cs : List Char) : Prop :=
  ∃ c rest, cs = c :: rest ∧ isBlank c = false ∧ c ≠ ']' ∧ c ≠ '}'

theorem Starts.length_pos {cs : List Char} (hstarts : Starts cs) : 0 < cs.length := by
  obtain ⟨c, rest, rfl, -⟩ := hstarts
  simp

theorem Starts.skipBlanks_append {cs : List Char} (hstarts : Starts cs)
    (rest : List Char) : skipBlanks (cs ++ rest) = cs ++ rest := by
  obtain ⟨c, others, rfl, hblank, -⟩ := hstarts
  exact skipBlanks_of_not_blank hblank (others ++ rest)

theorem endsNumber_of_blanks {blanks : List Char} (hblanks : Blanks blanks)
    {rest : List Char} (hrest : EndsNumber rest) : EndsNumber (blanks ++ rest) := by
  cases blanks with
  | nil => exact hrest
  | cons c others =>
      intro d hd
      cases hd
      have hblank := hblanks c List.mem_cons_self
      simp only [List.mem_cons, List.not_mem_nil, or_false] at hblank
      rcases hblank with rfl | rfl | rfl | rfl
      all_goals decide

theorem endsNumber_cons {c : Char} (hc : c ∈ [',', ']', '}']) (rest : List Char) :
    EndsNumber (c :: rest) := by
  intro d hd
  cases hd
  simp only [List.mem_cons, List.not_mem_nil, or_false] at hc
  rcases hc with rfl | rfl | rfl
  all_goals decide

theorem closing_not_blank {kind : Container} (hclosing : kind.closing ∈ [']', '}']) :
    isBlank kind.closing = false := by
  rcases List.mem_pair.mp hclosing with heq | heq
  all_goals rw [heq]; rfl

theorem comma_ne_closing {kind : Container} (hclosing : kind.closing ∈ [']', '}']) :
    ',' ≠ kind.closing := by
  rcases List.mem_pair.mp hclosing with heq | heq
  all_goals rw [heq]; decide

/-! ## Items -/

/-- The scanner reads the texts of items that are at most `limit` characters long, and
nothing else. -/
structure Reads (Item : List Char → α → Prop) (limit : ℕ) (item : Scan α) : Prop where
  starts : ∀ {text found}, Item text found → Starts text
  skip : ∀ cs, item (skipBlanks cs) = item cs
  append : ∀ {text found rest}, Item text found → text.length ≤ limit →
    EndsNumber rest → item (text ++ rest) = .ok (found, rest)
  exists_text : ∀ {cs found rest}, item cs = .ok (found, rest) →
    ∃ text, Item text found ∧ skipBlanks cs = text ++ rest

namespace Reads

variable {Item : List Char → α → Prop} {limit : ℕ} {item : Scan α}

theorem append_of_blanks (hreads : Reads Item limit item) {before text rest : List Char}
    {found : α} (hbefore : Blanks before) (htext : Item text found)
    (hlimit : text.length ≤ limit) (hrest : EndsNumber rest) :
    item (before ++ (text ++ rest)) = .ok (found, rest) := by
  rw [← hreads.skip, skipBlanks_append hbefore, hreads.skip]
  exact hreads.append htext hlimit hrest

theorem exists_blanks_text (hreads : Reads Item limit item) {cs rest : List Char}
    {found : α} (hok : item cs = .ok (found, rest)) :
    ∃ before text, Blanks before ∧ Item text found ∧ cs = before ++ text ++ rest := by
  obtain ⟨text, htext, hskip⟩ := hreads.exists_text hok
  obtain ⟨before, hbefore, hcs⟩ := exists_blanks cs
  exact ⟨before, text, hbefore, htext, by rw [hcs, hskip, List.append_assoc]⟩

theorem itemsAndClosing_skipBlanks (hreads : Reads Item limit item) (kind : Container)
    (steps : ℕ) (cs : List Char) :
    itemsAndClosing kind item steps (skipBlanks cs) =
      itemsAndClosing kind item steps cs := by
  cases steps with
  | zero => rfl
  | succ steps => rw [itemsAndClosing, itemsAndClosing, hreads.skip]

/-- The first item stands before any closing bracket. -/
theorem head?_skipBlanks_ne (hreads : Reads Item limit item) {kind : Container}
    (hclosing : kind.closing ∈ [']', '}']) {cs : List Char} {found : List α}
    (htext : ItemsText Item cs found) (rest : List Char) :
    ∃ c others, skipBlanks (cs ++ rest) = c :: others ∧ c ≠ kind.closing := by
  have hfirst : ∀ {before text after item}, Blanks before → Item text item →
      ∃ c others, skipBlanks (before ++ text ++ after) = c :: others ∧
        c ≠ kind.closing := by
    intro before text after item hbefore hitem
    have hstarts := hreads.starts hitem
    rw [List.append_assoc, skipBlanks_append hbefore, hstarts.skipBlanks_append]
    obtain ⟨c, others, rfl, -, hbracket, hbrace⟩ := hstarts
    refine ⟨c, others ++ after, rfl, ?_⟩
    rcases List.mem_pair.mp hclosing with heq | heq
    · rwa [heq]
    · rwa [heq]
  cases htext with
  | last hbefore hitem _ =>
      rw [List.append_assoc]
      exact hfirst hbefore hitem
  | more hbefore hitem _ _ =>
      rw [List.append_assoc, List.append_assoc]
      exact hfirst hbefore hitem

theorem itemsAndClosing_append (hreads : Reads Item limit item) {kind : Container}
    (hclosing : kind.closing ∈ [']', '}']) {cs : List Char} {found : List α}
    (htext : ItemsText Item cs found) (hlimit : cs.length ≤ limit) {steps : ℕ}
    (hsteps : found.length ≤ steps) (rest : List Char) :
    itemsAndClosing kind item steps (cs ++ kind.closing :: rest) = .ok (found, rest) := by
  induction htext generalizing steps with
  | @last before text after first hbefore hitem hafter =>
      cases steps with
      | zero => cases hsteps
      | succ steps =>
          have hends : EndsNumber (after ++ kind.closing :: rest) :=
            endsNumber_of_blanks hafter
              (endsNumber_cons (List.mem_cons_of_mem _ hclosing) rest)
          have hfirst := hreads.append_of_blanks hbefore hitem
            (by simp only [List.length_append] at hlimit; omega) hends
          have hskip : skipBlanks (after ++ kind.closing :: rest) =
              kind.closing :: rest := by
            rw [skipBlanks_append hafter,
              skipBlanks_of_not_blank (closing_not_blank hclosing)]
          simp [itemsAndClosing, hfirst, bind, Except.bind, hskip]
  | @more before text after tail first others hbefore hitem hafter htail ih =>
      simp only [List.length_append, List.length_cons] at hlimit hsteps
      cases steps with
      | zero => cases hsteps
      | succ steps =>
          have hends : EndsNumber (after ++ ',' :: (tail ++ kind.closing :: rest)) :=
            endsNumber_of_blanks hafter (endsNumber_cons List.mem_cons_self _)
          have hfirst := hreads.append_of_blanks hbefore hitem (by omega) hends
          have hskip : skipBlanks (after ++ ',' :: (tail ++ kind.closing :: rest)) =
              ',' :: (tail ++ kind.closing :: rest) := by
            rw [skipBlanks_append hafter, skipBlanks_of_not_blank rfl]
          have hcomma := comma_ne_closing hclosing
          obtain ⟨c, unread, hnext, hne⟩ :=
            hreads.head?_skipBlanks_ne hclosing htail (kind.closing :: rest)
          have hothers := ih (by omega) (Nat.le_of_succ_le_succ hsteps)
          -- The loop drops the blanks after a comma, and the text of the items has them.
          rw [← hreads.itemsAndClosing_skipBlanks, hnext] at hothers
          simp [itemsAndClosing, hfirst, bind, Except.bind, hskip, hcomma, hnext, hne,
            hothers]

theorem exists_of_itemsAndClosing (hreads : Reads Item limit item) {kind : Container}
    {steps : ℕ} {cs rest : List Char} {found : List α}
    (hok : itemsAndClosing kind item steps cs = .ok (found, rest)) :
    ∃ text, ItemsText Item text found ∧ cs = text ++ kind.closing :: rest := by
  induction steps generalizing cs found with
  | zero => cases hok
  | succ steps ih =>
      obtain ⟨⟨first, unread⟩, hfirst, hnext⟩ := exists_of_bind_eq_ok hok
      obtain ⟨before, text, hbefore, hitem, rfl⟩ := hreads.exists_blanks_text hfirst
      obtain ⟨after, hafter, hunread⟩ := exists_blanks unread
      simp only at hnext
      split at hnext
      · cases hnext
      · next c tail hskip =>
          rw [hskip] at hunread
          split at hnext
          · next hc =>
              cases hnext
              refine ⟨before ++ text ++ after, .last hbefore hitem hafter, ?_⟩
              rw [hunread, hc]
              simp
          · split at hnext
            · next hc =>
                split at hnext
                · cases hnext
                · rw [hreads.itemsAndClosing_skipBlanks] at hnext
                  obtain ⟨⟨others, left⟩, hothers, hresult⟩ := exists_of_bind_eq_ok hnext
                  cases hresult
                  obtain ⟨remaining, hitems, rfl⟩ := ih hothers
                  refine ⟨before ++ text ++ after ++ ',' :: remaining,
                    .more hbefore hitem hafter hitems, ?_⟩
                  rw [hunread, hc]
                  simp
            · cases hnext

/-- The items of a container are read whole, whatever follows its closing bracket. -/
theorem items_append (hreads : Reads Item limit item) {kind : Container}
    (hclosing : kind.closing ∈ [']', '}']) {cs : List Char} {found : List α}
    (htext : ItemsText Item cs found) (hlimit : cs.length ≤ limit)
    (rest : List Char) :
    items kind item limit (cs ++ kind.closing :: rest) = .ok (found, rest) := by
  have hsteps : found.length ≤ limit :=
    (htext.length_le fun text item hitem => (hreads.starts hitem).length_pos).trans hlimit
  have hitems := hreads.itemsAndClosing_append hclosing htext hlimit hsteps rest
  obtain ⟨c, unread, hnext, hne⟩ :=
    hreads.head?_skipBlanks_ne hclosing htext (kind.closing :: rest)
  rw [← hreads.itemsAndClosing_skipBlanks, hnext] at hitems
  simp [items, hnext, hne, hitems]

/-- A container that is read is empty, or it holds items. -/
theorem exists_of_items (hreads : Reads Item limit item) {kind : Container} {steps : ℕ}
    {cs rest : List Char} {found : List α}
    (hok : items kind item steps cs = .ok (found, rest)) :
    ∃ text, cs = text ++ kind.closing :: rest ∧
      (Blanks text ∧ found = [] ∨ ItemsText Item text found) := by
  obtain ⟨blanks, hblanks, hcs⟩ := exists_blanks cs
  unfold items at hok
  split at hok
  · cases hok
  · next c unread hskip =>
      split at hok
      · next hc =>
          cases hok
          rw [hskip, hc] at hcs
          exact ⟨blanks, hcs, .inl ⟨hblanks, rfl⟩⟩
      · rw [← hskip, hreads.itemsAndClosing_skipBlanks] at hok
        obtain ⟨text, htext, rfl⟩ := hreads.exists_of_itemsAndClosing hok
        exact ⟨text, rfl, .inr htext⟩

end Reads

/-- The first item is read at the start. -/
theorem exists_first_of_itemsAndClosing {kind : Container} {item : Scan α} {steps : ℕ}
    {cs rest : List Char} {found : List α}
    (hok : itemsAndClosing kind item steps cs = .ok (found, rest)) :
    ∃ first others unread, found = first :: others ∧ item cs = .ok (first, unread) := by
  cases steps with
  | zero => cases hok
  | succ steps =>
      obtain ⟨⟨first, unread⟩, hfirst, hnext⟩ := exists_of_bind_eq_ok hok
      refine ⟨first, found.tail, unread, ?_, hfirst⟩
      simp only at hnext
      split at hnext
      · cases hnext
      · split_ifs at hnext
        · cases hnext
          rfl
        · obtain ⟨⟨others, left⟩, -, hresult⟩ := exists_of_bind_eq_ok hnext
          cases hresult
          rfl

theorem items_of_blanks {kind : Container} (hclosing : kind.closing ∈ [']', '}'])
    {blanks : List Char} (hblanks : Blanks blanks) (item : Scan α) (steps : ℕ)
    (rest : List Char) :
    items kind item steps (blanks ++ kind.closing :: rest) = .ok ([], rest) := by
  have hskip := skipBlanks_of_not_blank (closing_not_blank hclosing) rest
  simp [items, skipBlanks_append hblanks, hskip]

/-! ## Members -/

theorem colon_eq_ok_iff {cs rest : List Char} :
    colon cs = .ok ((), rest) ↔ ∃ gap, Blanks gap ∧ cs = gap ++ ':' :: rest := by
  constructor
  · intro hok
    obtain ⟨gap, hgap, hcs⟩ := exists_blanks cs
    unfold colon at hok
    split at hok
    · cases hok
    · next c unread hskip =>
        split at hok
        · next hc =>
            cases hok
            rw [hskip, hc] at hcs
            exact ⟨gap, hgap, hcs⟩
        · cases hok
  · rintro ⟨gap, hgap, rfl⟩
    simp [colon, skipBlanks_append hgap, skipBlanks_of_not_blank (c := ':') rfl]

/-- The members of an object are read as its values are. -/
theorem Reads.member {Content : String → List Char → α → Prop} {limit : ℕ}
    {content : String → Scan α}
    (hcontent : ∀ name, Reads (Content name) limit (content name)) :
    Reads (MemberText Content) limit (member (string hexEscape limit) content) where
  starts := by
    rintro text found ⟨key, gap, between, body, ⟨chars, -, rfl⟩, -, -, -, rfl⟩
    exact ⟨'"', _, rfl, rfl, by decide, by decide⟩
  skip := by
    intro cs
    rw [Reader.member, Reader.member, skipBlanks_skipBlanks]
  append := by
    rintro text ⟨name, found⟩ rest
      ⟨key, gap, between, body, hkey, hgap, hbetween, hbody, rfl⟩ hlimit hrest
    obtain ⟨tail, rfl⟩ := hkey.eq_cons
    simp only [List.length_append, List.length_cons] at hlimit
    have hname := string_append hkey (show tail.length ≤ limit by omega)
      (gap ++ ':' :: (between ++ (body ++ rest)))
    have hcolon : colon (gap ++ ':' :: (between ++ (body ++ rest))) =
        .ok ((), between ++ (body ++ rest)) :=
      colon_eq_ok_iff.mpr ⟨gap, hgap, rfl⟩
    have hfound := (hcontent name).append_of_blanks hbetween hbody (by omega) hrest
    simp [Reader.member, skipBlanks_of_not_blank (c := '"') rfl, hname, hcolon, hfound,
      bind, Except.bind]
  exists_text := by
    rintro cs ⟨name, found⟩ rest hok
    unfold Reader.member at hok
    split at hok
    · cases hok
    · next c unread hskip =>
        split at hok
        · next hquote =>
            obtain ⟨⟨key, afterKey⟩, hkey, hcolonOk⟩ := exists_of_bind_eq_ok hok
            obtain ⟨⟨⟨⟩, afterColon⟩, hcolon, hcontentOk⟩ := exists_of_bind_eq_ok hcolonOk
            obtain ⟨⟨value, unread⟩, hvalue, hresult⟩ := exists_of_bind_eq_ok hcontentOk
            cases hresult
            obtain ⟨tail, hname, rfl⟩ := exists_of_string hkey
            obtain ⟨gap, hgap, rfl⟩ := colon_eq_ok_iff.mp hcolon
            obtain ⟨between, body, hbetween, hbody, rfl⟩ :=
              (hcontent name).exists_blanks_text hvalue
            refine ⟨'"' :: tail ++ gap ++ ':' :: between ++ body,
              ⟨'"' :: tail, gap, between, body, hname, hgap, hbetween, hbody, rfl⟩, ?_⟩
            rw [hskip, hquote]
            simp
        · cases hok

end FlowMigration.Json.Reader
