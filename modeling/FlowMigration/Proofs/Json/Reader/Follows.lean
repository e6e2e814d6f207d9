import FlowMigration.Proofs.Json.Reader

/-!
# Readers side by side

Not every reader of the project is the reader of documents: what is only skipped may be
nested deeper, and its escapes may be lone surrogates.  Such a reader follows the stricter
one: what the strict one reads it reads too, and it stops at the same place.  The
containers are treated once, for every relation between the values of the two.
-/

namespace FlowMigration.Json.Reader

open Grammar (CharText CharsText)

variable {α β : Type} {limit : ℕ}

/-- What the first scanner reads off a text of at most `limit` characters, the second one
reads off it too, up to the same place, and as something related. -/
def Follows (limit : ℕ) (Related : α → β → Prop) (first : Scan α) (second : Scan β) : Prop :=
  ∀ ⦃cs rest : List Char⦄ ⦃found : α⦄, cs.length ≤ limit → first cs = .ok (found, rest) →
    rest.length ≤ cs.length ∧ ∃ other, Related found other ∧ second cs = .ok (other, rest)

theorem length_skipBlanks_le (cs : List Char) : (skipBlanks cs).length ≤ cs.length := by
  obtain ⟨blanks, -, hcs⟩ := exists_blanks cs
  conv_rhs => rw [hcs, List.length_append]
  exact Nat.le_add_left _ _

theorem length_of_skipBlanks {cs tail : List Char} {c : Char}
    (hskip : skipBlanks cs = c :: tail) : tail.length + 1 ≤ cs.length := by
  have hle := length_skipBlanks_le cs
  rwa [hskip, List.length_cons] at hle

namespace Follows

variable {Related : α → β → Prop} {first : Scan α} {second : Scan β}

theorem mono (hfollows : Follows limit Related first second) {smaller : ℕ}
    (hle : smaller ≤ limit) : Follows smaller Related first second := by
  intro cs rest found hlimit hok
  exact hfollows (hlimit.trans hle) hok

theorem imp (hfollows : Follows limit Related first second) {Other : α → β → Prop}
    (himp : ∀ found other, Related found other → Other found other) :
    Follows limit Other first second := by
  intro cs rest found hlimit hok
  obtain ⟨hshort, other, hrelated, hother⟩ := hfollows hlimit hok
  exact ⟨hshort, other, himp found other hrelated, hother⟩

/-! ## Containers -/

theorem itemsAndClosing (hfollows : Follows limit Related first second) (kind : Container)
    (steps : ℕ) :
    Follows limit (List.Forall₂ Related) (Reader.itemsAndClosing kind first steps)
      (Reader.itemsAndClosing kind second steps) := by
  induction steps with
  | zero =>
      intro cs rest found hlimit hok
      cases hok
  | succ steps ih =>
      intro cs rest found hlimit hok
      obtain ⟨⟨item, unread⟩, hitem, hnext⟩ := exists_of_bind_eq_ok hok
      obtain ⟨hshort, other, hrelated, hother⟩ := hfollows hlimit hitem
      simp only at hnext
      split at hnext
      · cases hnext
      · next c tail hskip =>
          have htail := length_of_skipBlanks hskip
          split at hnext
          · next hc =>
              cases hnext
              refine ⟨by omega, [other], .cons hrelated .nil, ?_⟩
              simp [Reader.itemsAndClosing, hother, bind, Except.bind, hskip, hc]
          · next hc =>
              split at hnext
              · next hcomma =>
                  split at hnext
                  · cases hnext
                  · next hclosing =>
                      have hskipped := length_skipBlanks_le tail
                      obtain ⟨⟨items, left⟩, hitems, hresult⟩ := exists_of_bind_eq_ok hnext
                      simp only [Except.ok.injEq, Prod.mk.injEq] at hresult
                      obtain ⟨rfl, rfl⟩ := hresult
                      obtain ⟨hleft, others, hall, hothers⟩ := ih (by omega) hitems
                      refine ⟨by omega, other :: others, .cons hrelated hall, ?_⟩
                      subst hcomma
                      simp [Reader.itemsAndClosing, hother, bind, Except.bind, hskip, hc,
                        hclosing, hothers]
              · cases hnext

theorem items (hfollows : Follows limit Related first second) (kind : Container)
    (steps : ℕ) :
    Follows limit (List.Forall₂ Related) (Reader.items kind first steps)
      (Reader.items kind second steps) := by
  intro cs rest found hlimit hok
  unfold Reader.items at hok ⊢
  split at hok
  · cases hok
  · next c tail hskip =>
      have htail := length_of_skipBlanks hskip
      split at hok
      · next hc =>
          cases hok
          exact ⟨by omega, [], .nil, by rw [if_pos hc]⟩
      · next hc =>
          have hlength : (c :: tail).length ≤ cs.length := htail
          obtain ⟨hrest, others, hall, hothers⟩ :=
            hfollows.itemsAndClosing kind steps (hlength.trans hlimit) hok
          exact ⟨hrest.trans hlength, others, hall, by rw [if_neg hc, hothers]⟩

/-- Members follow one another if their keys do, and if their values do under any two keys
that are related. -/
theorem member {SameKey : String → String → Prop} {key other : Scan String}
    (hkey : Follows limit SameKey key other) {Content : String → α → β → Prop}
    {value : String → Scan α} {content : String → Scan β}
    (hvalue : ∀ name same, SameKey name same →
      Follows limit (Content name) (value name) (content same)) :
    Follows limit (fun pair same => SameKey pair.1 same.1 ∧ Content pair.1 pair.2 same.2)
      (Reader.member key value) (Reader.member other content) := by
  intro cs rest found hlimit hok
  unfold Reader.member at hok ⊢
  split at hok
  · cases hok
  · next c tail hskip =>
      have htail := length_of_skipBlanks hskip
      split at hok
      · next hc =>
          obtain ⟨⟨name, afterKey⟩, hname, hcolonOk⟩ := exists_of_bind_eq_ok hok
          obtain ⟨⟨⟨⟩, afterColon⟩, hcolon, hvalueOk⟩ := exists_of_bind_eq_ok hcolonOk
          obtain ⟨⟨read, unread⟩, hread, hresult⟩ := exists_of_bind_eq_ok hvalueOk
          cases hresult
          obtain ⟨hafterKey, same, hsame, hother⟩ := hkey (by omega) hname
          have hafterColon : afterColon.length ≤ afterKey.length := by
            obtain ⟨gap, -, rfl⟩ := colon_eq_ok_iff.mp hcolon
            simp only [List.length_append, List.length_cons]
            omega
          obtain ⟨hunread, kept, hkept, hcontent⟩ :=
            hvalue name same hsame (by omega) hread
          refine ⟨by omega, (same, kept), ⟨hsame, hkept⟩, ?_⟩
          rw [if_pos hc]
          simp [hother, hcolon, hcontent, bind, Except.bind]
      · cases hok

end Follows

/-! ## Strings -/

theorem length_of_hexEscape {cs rest : List Char} {c : Char}
    (hok : hexEscape cs = .ok (c, rest)) : rest.length ≤ cs.length := by
  obtain ⟨text, -, rfl⟩ := exists_of_hexEscape hok
  simp

theorem length_of_anyHexEscape {cs rest : List Char} {c : Char}
    (hok : anyHexEscape cs = .ok (c, rest)) : rest.length ≤ cs.length := by
  obtain ⟨⟨unit, unread⟩, hunit, hresult⟩ := exists_of_bind_eq_ok hok
  cases hresult
  obtain ⟨digits, -, rfl⟩ := exists_of_codeUnit hunit
  simp

section Shrinking

variable {hex : Scan Char}

theorem length_of_escape
    (hhex : ∀ {cs rest c}, hex cs = .ok (c, rest) → rest.length ≤ cs.length)
    {cs rest : List Char} {c : Char} (hok : escape hex cs = .ok (c, rest)) :
    rest.length ≤ cs.length := by
  cases cs with
  | nil => cases hok
  | cons letter cs =>
      rw [escape] at hok
      rw [List.length_cons]
      split at hok
      · cases hok
        exact Nat.le_succ _
      · split at hok
        · exact (hhex hok).trans (Nat.le_succ _)
        · cases hok

theorem length_of_characters
    (hhex : ∀ {cs rest c}, hex cs = .ok (c, rest) → rest.length ≤ cs.length) {steps : ℕ}
    {done cs result rest : List Char}
    (hok : characters hex steps done cs = .ok (result, rest)) :
    rest.length ≤ cs.length := by
  induction steps generalizing done cs with
  | zero => cases hok
  | succ steps ih =>
      cases cs with
      | nil => cases hok
      | cons c cs =>
          rw [characters] at hok
          rw [List.length_cons]
          split at hok
          · cases hok
            exact Nat.le_succ _
          · split at hok
            · obtain ⟨⟨char, unread⟩, hescape, hnext⟩ := exists_of_bind_eq_ok hok
              have hunread := length_of_escape hhex hescape
              have hrest := ih hnext
              omega
            · split at hok
              · cases hok
              · exact (ih hok).trans (Nat.le_succ _)

/-- A reader of strings follows itself. -/
theorem follows_string_self
    (hhex : ∀ {cs rest c}, hex cs = .ok (c, rest) → rest.length ≤ cs.length)
    (limit steps : ℕ) : Follows limit Eq (string hex steps) (string hex steps) := by
  intro cs rest found _ hok
  obtain ⟨⟨chars, unread⟩, hchars, hresult⟩ := exists_of_bind_eq_ok hok
  cases hresult
  exact ⟨length_of_characters hhex hchars, _, rfl, hok⟩

end Shrinking

theorem follows_member {steps : ℕ} {Content : String → α → β → Prop}
    {value : String → Scan α} {content : String → Scan β}
    (hvalue : ∀ name, Follows limit (Content name) (value name) (content name)) :
    Follows limit (fun pair same => pair.1 = same.1 ∧ Content pair.1 pair.2 same.2)
      (member (string hexEscape steps) value) (member (string hexEscape steps) content) := by
  refine (follows_string_self length_of_hexEscape limit steps).member ?_
  rintro name _ rfl
  exact hvalue name

theorem anyHexEscape_append {digits : List Char} {unit : ℕ}
    (hunit : Grammar.UnitText digits unit) (rest : List Char) :
    anyHexEscape (digits ++ rest) = .ok (Char.ofNat unit, rest) := by
  simp [anyHexEscape, codeUnit_append hunit, bind, Except.bind]

theorem characters_any_unit {digits : List Char} {unit : ℕ}
    (hunit : Grammar.UnitText digits unit) (steps : ℕ) (done rest : List Char) :
    characters anyHexEscape (steps + 1) done ('\\' :: 'u' :: (digits ++ rest)) =
      characters anyHexEscape steps (Char.ofNat unit :: done) rest := by
  have hescape : escape anyHexEscape ('u' :: (digits ++ rest)) =
      .ok (Char.ofNat unit, rest) := anyHexEscape_append hunit rest
  rw [characters, if_neg (by decide), if_pos rfl, hescape]
  rfl

/-- The text of one character is passed over, in two steps if it is a pair of
surrogates. -/
theorem exists_characters_any {text : List Char} {c : Char} (htext : CharText text c)
    {steps : ℕ} (hsteps : text.length ≤ steps) (done rest : List Char) :
    ∃ left after, steps ≤ left + text.length ∧
      characters anyHexEscape steps done (text ++ rest) =
        characters anyHexEscape left after rest := by
  obtain ⟨steps, rfl⟩ : ∃ fewer, steps = fewer + 1 :=
    Nat.exists_eq_add_one.mpr ((length_pos_of_charText htext).trans_le hsteps)
  cases htext with
  | plain c hquote hbackslash hprintable =>
      refine ⟨steps, c :: done, le_rfl, ?_⟩
      rw [List.singleton_append, characters, if_neg hquote, if_neg hbackslash,
        if_neg (by omega)]
  | short letter c hmem =>
      have hescape : escape anyHexEscape (letter :: rest) = .ok (c, rest) := by
        rw [escape, shortEscape?_eq_some_iff.mpr hmem]
      refine ⟨steps, c :: done, by simp, ?_⟩
      rw [List.cons_append, List.singleton_append, characters, if_neg (by decide),
        if_pos rfl, hescape]
      rfl
  | unit digits c hunit =>
      exact ⟨steps, Char.ofNat c.toNat :: done, by simp,
        characters_any_unit hunit steps done rest⟩
  | pair leading trailing high low c hleading htrailing =>
      have hlengths := hleading.1
      simp only [List.length_append, List.length_cons] at hsteps
      obtain ⟨fewer, rfl⟩ : ∃ fewer, steps = fewer + 1 := Nat.exists_eq_add_one.mpr (by omega)
      refine ⟨fewer, Char.ofNat (0xDC00 + low) :: Char.ofNat (0xD800 + high) :: done,
        ?_, ?_⟩
      · simp only [List.length_append, List.length_cons]
        omega
      · have hfirst := characters_any_unit hleading (fewer + 1) done
          ('\\' :: 'u' :: (trailing ++ rest))
        rw [characters_any_unit htrailing] at hfirst
        simpa using hfirst

theorem exists_characters_any_of_charsText {text chars : List Char}
    (htext : CharsText text chars) {steps : ℕ} (hsteps : text.length < steps)
    (done rest : List Char) :
    ∃ result, characters anyHexEscape steps done (text ++ '"' :: rest) =
      .ok (result, rest) := by
  induction htext generalizing steps done with
  | nil =>
      obtain ⟨steps, rfl⟩ := Nat.exists_eq_add_of_lt hsteps
      exact ⟨done.reverse, by simp [characters]⟩
  | @cons text c others chars hchar _ ih =>
      rw [List.length_append] at hsteps
      obtain ⟨left, after, hleft, hcharacters⟩ := exists_characters_any hchar
        (show text.length ≤ steps by omega) done (others ++ '"' :: rest)
      obtain ⟨result, hresult⟩ := ih (show others.length < left by omega) after
      exact ⟨result, by rw [List.append_assoc, hcharacters, hresult]⟩

/-- A string whose surrogates come in pairs is one whose surrogates need not. -/
theorem follows_string_any {steps : ℕ} (hlimit : limit ≤ steps) :
    Follows limit (fun _ _ => True) (string hexEscape steps) (string anyHexEscape steps) := by
  intro cs rest found hlength hok
  obtain ⟨body, ⟨text, htext, hbody⟩, rfl⟩ := exists_of_string hok
  obtain rfl : body = text ++ ['"'] := (List.cons.inj hbody).2
  simp only [List.length_append, List.length_singleton] at hlength ⊢
  obtain ⟨result, hresult⟩ :=
    exists_characters_any_of_charsText htext (show text.length < steps by omega) [] rest
  exact ⟨by omega, String.ofList result, trivial, by simp [string, hresult, bind, Except.bind]⟩

/-! ## Values -/

theorem length_of_bare {cs rest : List Char} {found : Value}
    (hok : bare cs = .ok (found, rest)) : rest.length ≤ cs.length := by
  obtain ⟨text, -, rfl⟩ := exists_of_bare hok .standard
  rw [List.length_append]
  exact Nat.le_add_left _ _

/-- What two exact readers find is the same. -/
def Agree (exact : Prop) {α : Type} (found other : α) : Prop :=
  exact → found = other

theorem agree_of_forall₂ {exact : Prop} {found others : List α}
    (hall : List.Forall₂ (Agree exact) found others) : Agree exact found others := by
  intro hexact
  rw [← List.forall₂_eq_eq_eq]
  exact hall.imp fun _ _ hagree => hagree hexact

theorem Agree.map {exact : Prop} {found other : α} (hagree : Agree exact found other)
    (f : α → β) : Agree exact (f found) (f other) :=
  fun hexact => congrArg f (hagree hexact)

section Values

variable {exact : Prop} {hex other : Scan Char} {steps : ℕ}
  {nested same : Option (Scan Value)}

theorem follows_pair
    (hstring : Follows limit (Agree exact) (string hex steps) (string other steps))
    {content wider : Scan Value} (hcontent : Follows limit (Agree exact) content wider) :
    Follows limit (Agree exact) (member (string hex steps) fun _ => content)
      (member (string other steps) fun _ => wider) := by
  refine (hstring.member fun _ _ _ => hcontent).imp ?_
  rintro ⟨name, value⟩ ⟨same, found⟩ ⟨hname, hvalue⟩ hexact
  rw [show name = same from hname hexact, show value = found from hvalue hexact]

/-- Without a mark, the contents of an object are its members. -/
theorem exists_of_object_none {content : Scan Value} {cs rest : List Char} {found : Value}
    (hok : object none hex steps content cs = .ok (found, rest)) :
    ∃ pairs, items .object (member (string hex steps) fun _ => content) steps cs =
      .ok (pairs, rest) ∧ found = .object (Entries.ofPairs pairs) := by
  rw [object, afterMark?_none] at hok
  obtain ⟨⟨pairs, left⟩, hpairs, hresult⟩ := exists_of_bind_eq_ok hok
  cases hresult
  exact ⟨pairs, hpairs, rfl⟩

theorem follows_object
    (hstring : Follows limit (Agree exact) (string hex steps) (string other steps))
    {content wider : Scan Value} (hcontent : Follows limit (Agree exact) content wider) :
    Follows limit (Agree exact) (object none hex steps content)
      (object none other steps wider) := by
  intro cs rest found hlimit hok
  obtain ⟨pairs, hpairs, rfl⟩ := exists_of_object_none hok
  obtain ⟨hrest, skipped, hall, hskipped⟩ :=
    (follows_pair hstring hcontent).items .object steps hlimit hpairs
  refine ⟨hrest, .object (Entries.ofPairs skipped), ?_, ?_⟩
  · exact (agree_of_forall₂ hall).map fun pairs => Value.object (Entries.ofPairs pairs)
  · simp [object, afterMark?_none, hskipped, bind, Except.bind]

/-- A value is followed if its strings are and if the values inside it are, which start
after a bracket. -/
theorem follows_valueOver
    (hstring : Follows limit (Agree exact) (string hex steps) (string other steps))
    (hnested : ∀ element, nested = some element → ∃ wider, same = some wider ∧
      Follows (limit - 1) (Agree exact) element wider) :
    Follows limit (Agree exact) (valueOver none hex steps nested)
      (valueOver none other steps same) := by
  intro cs rest found hlimit hok
  unfold valueOver at hok ⊢
  split at hok
  case h_1 unread hskip =>
    have hunread := length_of_skipBlanks hskip
    obtain ⟨⟨text, left⟩, htext, hresult⟩ := exists_of_bind_eq_ok hok
    cases hresult
    obtain ⟨hrest, skipped, hagree, hskipped⟩ := hstring (by omega) htext
    refine ⟨by omega, .string skipped, hagree.map _, ?_⟩
    simp [hskipped, bind, Except.bind]
  case h_2 unread hskip =>
    have hunread := length_of_skipBlanks hskip
    split at hok
    · cases hok
    · next element =>
      obtain ⟨wider, hwider, hfollows⟩ := hnested element rfl
      obtain ⟨⟨elements, left⟩, helements, hresult⟩ := exists_of_bind_eq_ok hok
      cases hresult
      obtain ⟨hrest, skipped, hall, hskipped⟩ :=
        hfollows.items .array steps (by omega) helements
      refine ⟨by omega, .array skipped, (agree_of_forall₂ hall).map _, ?_⟩
      simp [hwider, hskipped, bind, Except.bind]
  case h_3 unread hskip =>
    have hunread := length_of_skipBlanks hskip
    split at hok
    · cases hok
    · next content =>
      obtain ⟨wider, hwider, hfollows⟩ := hnested content rfl
      have hobject := follows_object (hstring.mono (Nat.sub_le limit 1)) hfollows
      obtain ⟨hrest, skipped, hagree, hskipped⟩ := hobject (by omega) hok
      exact ⟨by omega, skipped, hagree, by simp [hwider, hskipped]⟩
  case h_4 =>
    have hunread := length_skipBlanks_le cs
    exact ⟨(length_of_bare hok).trans hunread, found, fun _ => rfl, hok⟩

/-- A reader follows another one that opens as many containers, or as many as the text has
characters. -/
theorem follows_value
    (hstring : ∀ limit ≤ steps,
      Follows limit (Agree exact) (string hex steps) (string other steps))
    {limit levels wider : ℕ} (hlimit : limit ≤ steps)
    (hlevels : levels ≤ wider ∨ limit ≤ wider) :
    Follows limit (Agree exact) (value none hex steps levels)
      (value none other steps wider) := by
  induction wider generalizing limit levels with
  | zero =>
      rw [value_zero]
      cases levels with
      | zero =>
          rw [value_zero]
          exact follows_valueOver (hstring limit hlimit) fun _ hnested => nomatch hnested
      | succ levels =>
          have hempty : limit = 0 := Nat.le_zero.mp (hlevels.resolve_left (by omega))
          rw [value_succ]
          intro cs rest found hlength hok
          rw [hempty, Nat.le_zero, List.length_eq_zero_iff] at hlength
          subst hlength
          cases hok
  | succ wider ih =>
      have hshorter := hstring limit hlimit
      rw [value_succ]
      cases levels with
      | zero =>
          rw [value_zero]
          exact follows_valueOver hshorter fun _ hnested => nomatch hnested
      | succ levels =>
          rw [value_succ]
          refine follows_valueOver hshorter fun element hnested => ?_
          cases hnested
          exact ⟨_, rfl, ih (by omega) (by omega)⟩

end Values

/-- A reader follows itself when it may open more containers. -/
theorem follows_value_of_le {hex : Scan Char}
    (hhex : ∀ {cs rest c}, hex cs = .ok (c, rest) → rest.length ≤ cs.length)
    {steps levels wider : ℕ} (hlimit : limit ≤ steps) (hlevels : levels ≤ wider) :
    Follows limit Eq (value none hex steps levels) (value none hex steps wider) := by
  have hstring : ∀ limit ≤ steps,
      Follows limit (Agree True) (string hex steps) (string hex steps) :=
    fun limit _ => (follows_string_self hhex limit steps).imp fun _ _ heq _ => heq
  exact (follows_value hstring hlimit (.inl hlevels)).imp fun _ _ hagree => hagree trivial

/-- Whatever is read as part of a document, however deep, can be skipped. -/
theorem follows_skipping {steps : ℕ} (hlimit : limit ≤ steps) (levels : ℕ) :
    Follows limit (fun _ _ => True) (value none hexEscape steps levels)
      (value none anyHexEscape steps steps) := by
  have hstring : ∀ limit ≤ steps,
      Follows limit (Agree False) (string hexEscape steps) (string anyHexEscape steps) :=
    fun limit hlimit => (follows_string_any hlimit).imp fun _ _ _ hfalse => hfalse.elim
  exact (follows_value hstring hlimit (.inr hlimit)).imp fun _ _ _ => trivial

end FlowMigration.Json.Reader
