import FlowMigration.Flow.ReportReader
import FlowMigration.Proofs.Json.Reader.Follows
import FlowMigration.Proofs.Json.Writer

/-!
# Reading reports back

A report is what its fields say.  Their order and everything between them is of no account,
so a report is read back from the text it is written as, and from any other object or array
that presents it.
-/

namespace FlowMigration

namespace Entries

variable {κ α : Type} [DecidableEq κ]

/-- The entries with a key, each as often as it is there. -/
def under (entries : Entries κ α) (key : κ) : Entries κ α :=
  entries.filter fun entry => entry.1 = key

theorem get?_eq_under (entries : Entries κ α) (key : κ) :
    get? entries key = (under entries key).head?.map Prod.snd := by
  induction entries with
  | nil => rfl
  | cons entry rest ih =>
      obtain ⟨k, value⟩ := entry
      by_cases hkey : k = key
      · simp [get?, under, hkey]
      · simpa [get?, under, hkey] using ih

theorem length_under (entries : Entries κ α) (key : κ) :
    (under entries key).length = (keys entries).count key := by
  rw [under, keys, List.count_eq_countP, List.countP_map, List.countP_eq_length_filter]
  rfl

theorem nodup_keys_iff {entries : Entries κ α} :
    (keys entries).Nodup ↔ ∀ key, (under entries key).length ≤ 1 := by
  simp only [List.nodup_iff_count_le_one, length_under]

/-- With distinct keys, an entry is the only one under its key. -/
theorem under_of_mem {entries : Entries κ α} (hnodup : (keys entries).Nodup)
    {entry : κ × α} (hmem : entry ∈ entries) : under entries entry.1 = [entry] := by
  have hone := nodup_keys_iff.mp hnodup entry.1
  have hunder : entry ∈ under entries entry.1 := by simp [under, hmem]
  obtain ⟨first, hfirst⟩ := List.length_eq_one_iff.mp
    (le_antisymm hone (List.length_pos_of_mem hunder))
  rw [hfirst, List.mem_singleton] at hunder
  rw [hfirst, hunder]

end Entries

namespace Report

open Json (Members Scan Value maxDepth)
open Json.Grammar (Blanks ContentsText DocumentText MembersText ObjectText)
open Json.Reader

/-! ## Fields -/

/-- The members of an object that a report asks for. -/
def fields (pairs : Members Value) : Members Value :=
  pairs.filter fun pair => pair.1 ∈ fieldNames

theorem under_fields (pairs : Members Value) (name : String) :
    Entries.under (fields pairs) name =
      if name ∈ fieldNames then Entries.under pairs name else [] := by
  rw [fields, Entries.under, List.filter_filter]
  split
  · next hname =>
      apply List.filter_congr
      intro pair _
      by_cases hpair : pair.1 = name
      · simp [hpair, hname]
      · simp [hpair]
  · next hname =>
      rw [List.filter_eq_nil_iff]
      intro pair _ hpair
      simp only [Bool.and_eq_true, decide_eq_true_eq] at hpair
      exact hname (hpair.1 ▸ hpair.2)

theorem get?_fields {name : String} (hname : name ∈ fieldNames) (pairs : Members Value) :
    Entries.get? (fields pairs) name = (Entries.under pairs name).head?.map Prod.snd := by
  rw [Entries.get?_eq_under, under_fields, if_pos hname]

/-- The counts of a report with their names, in the order in which they are written. -/
def counts (report : Report) : List (String × ℕ) :=
  [("nodes_total", report.tally.nodesTotal),
    ("nodes_converted", report.tally.nodesConverted),
    ("renamed_keys", report.tally.renamedKeys),
    ("configs_from_form_data", report.tally.configsFromFormData),
    ("configs_defaulted", report.tally.configsDefaulted),
    ("dropped_keys", report.tally.droppedKeys)]

/-- No count of the report is beyond the largest one. -/
def Bounded (report : Report) : Prop :=
  ∀ entry ∈ report.counts, entry.2 ≤ maxCount

theorem members_eq (report : Report) :
    report.members = ("wrapped", .bool report.wrapped) ::
      (report.flowId.map fun id => ("flow_id", Value.string id)).toList ++
        report.counts.map fun entry => (entry.1, .number (.ofNat entry.2)) :=
  rfl

theorem ofFields?_eq_some_iff {found : Members Value} {report : Report} :
    ofFields? found = some report ↔
      (Entries.keys found).Nodup ∧
        flag? (Entries.get? found "wrapped") = some report.wrapped ∧
        flowId? (Entries.get? found "flow_id") = some report.flowId ∧
        ∀ entry ∈ report.counts, count? (Entries.get? found entry.1) = some entry.2 := by
  simp only [counts, List.forall_mem_cons]
  constructor
  · intro hsome
    unfold ofFields? at hsome
    split at hsome
    · next hnodup =>
        simp only [Option.bind_eq_bind, Option.bind_eq_some_iff] at hsome
        obtain ⟨_, hwrapped, _, hflowId, _, htotal, _, hconverted, _, hrenamed, _, hform, _,
          hdefaulted, _, hdropped, hreport⟩ := hsome
        cases hreport
        exact ⟨hnodup, hwrapped, hflowId, htotal, hconverted, hrenamed, hform, hdefaulted,
          hdropped, by simp⟩
    · cases hsome
  · rintro ⟨hnodup, hwrapped, hflowId, htotal, hconverted, hrenamed, hform, hdefaulted,
      hdropped, -⟩
    simp [ofFields?, hnodup, hwrapped, hflowId, htotal, hconverted, hrenamed, hform,
      hdefaulted, hdropped]

theorem count?_eq_some_iff {value : Option Value} {n : ℕ} :
    count? value = some n ↔
      n ≤ maxCount ∧ ∃ number, value = some (.number number) ∧ number.natural? = some n := by
  unfold count?
  split
  · next number =>
      simp [Option.filter_eq_some_iff, and_comm]
  · next hnot =>
      constructor
      · rintro ⟨⟩
      · rintro ⟨-, number, rfl, -⟩
        exact absurd rfl (hnot number)

theorem fieldNames_eq (report : Report) :
    fieldNames = "wrapped" :: "flow_id" :: Entries.keys report.counts :=
  rfl

theorem keys_members (report : Report) :
    Entries.keys report.members = "wrapped" ::
      ((report.flowId.map fun _ => "flow_id").toList ++ Entries.keys report.counts) := by
  rw [members_eq]
  cases report.flowId <;> simp [Entries.keys, Function.comp_def]

theorem nodup_keys_members (report : Report) : (Entries.keys report.members).Nodup := by
  rw [keys_members]
  cases report.flowId <;> simp [counts]

theorem name_mem_fieldNames {report : Report} {member : String × Value}
    (hmem : member ∈ report.members) : member.1 ∈ fieldNames := by
  have hkey : member.1 ∈ Entries.keys report.members := List.mem_map_of_mem hmem
  rw [keys_members] at hkey
  rw [fieldNames_eq report]
  cases hid : report.flowId with
  | none =>
      rw [hid] at hkey
      simp only [Option.map_none, Option.toList_none, List.nil_append, List.mem_cons] at hkey ⊢
      exact hkey.imp_right .inr
  | some id =>
      rw [hid] at hkey
      exact hkey

theorem mem_keys_members (report : Report) {name : String} (hname : name ∈ fieldNames) :
    name ∈ Entries.keys report.members ∨ name = "flow_id" ∧ report.flowId = none := by
  rw [keys_members]
  rw [fieldNames_eq report] at hname
  cases report.flowId with
  | none =>
      simp only [List.mem_cons] at hname ⊢
      rcases hname with hwrapped | hid | hcount
      · exact .inl (.inl hwrapped)
      · exact .inr ⟨hid, trivial⟩
      · exact .inl (.inr (by simpa using hcount))
  | some id => exact .inl hname

/-- The object has each member of the report once, as the report has it.  An identifier that
the report has not may be missing or null. -/
structure Presents (report : Report) (pairs : List (String × Value)) : Prop where
  once : ∀ member ∈ report.members, Entries.under pairs member.1 = [member]
  noFlowId : report.flowId = none →
    Entries.under pairs "flow_id" = [] ∨
      Entries.under pairs "flow_id" = [("flow_id", .null)]

theorem Presents.length_under_le {report : Report} {pairs : Members Value}
    (hpresents : report.Presents pairs) {name : String} (hname : name ∈ fieldNames) :
    (Entries.under pairs name).length ≤ 1 := by
  rcases mem_keys_members report hname with hkey | ⟨rfl, hnone⟩
  · obtain ⟨value, hmem⟩ := Entries.mem_keys_iff.mp hkey
    rw [hpresents.once _ hmem, List.length_singleton]
  · rcases hpresents.noFlowId hnone with heq | heq
    all_goals simp [heq]

theorem Presents.get?_eq {report : Report} {pairs : Members Value}
    (hpresents : report.Presents pairs) {name : String} {value : Value}
    (hmem : (name, value) ∈ report.members) :
    Entries.get? (fields pairs) name = some value := by
  rw [get?_fields (name_mem_fieldNames hmem), hpresents.once _ hmem]
  rfl

/-- A report is what the fields that present it say. -/
theorem Presents.ofFields?_eq {report : Report} {pairs : Members Value}
    (hpresents : report.Presents pairs) (hbounded : report.Bounded) :
    ofFields? (fields pairs) = some report := by
  rw [ofFields?_eq_some_iff, Entries.nodup_keys_iff]
  refine ⟨fun name => ?_, ?_, ?_, fun entry hentry => ?_⟩
  · rw [under_fields]
    split
    · next hname => exact hpresents.length_under_le hname
    · exact Nat.zero_le _
  · have hmem : ("wrapped", Value.bool report.wrapped) ∈ report.members := by
      simp [members_eq]
    rw [hpresents.get?_eq hmem]
    rfl
  · cases hid : report.flowId with
    | none =>
        rw [get?_fields (by decide)]
        rcases hpresents.noFlowId hid with heq | heq
        all_goals rw [heq]; rfl
    | some id =>
        have hmem : ("flow_id", Value.string id) ∈ report.members := by
          simp [members_eq, hid]
        rw [hpresents.get?_eq hmem]
        rfl
  · have hmem : (entry.1, Value.number (.ofNat entry.2)) ∈ report.members := by
      rw [members_eq]
      exact List.mem_append_right _ (List.mem_map_of_mem hentry)
    rw [hpresents.get?_eq hmem, count?_eq_some_iff]
    exact ⟨hbounded entry hentry, _, rfl, Json.Number.natural?_ofNat entry.2⟩

/-! ## Members -/

/-- Reads the value of a member as `memberValue` does, and may open `levels` containers in
that of a field. -/
def memberValueWithin (levels steps : ℕ) (name : String) : Scan (Option Value) := fun cs =>
  if name ∈ fieldNames then do
    let (value, cs) ← value none hexEscape steps levels cs
    .ok (some value, cs)
  else do
    let (_, cs) ← value none anyHexEscape steps steps cs
    .ok (none, cs)

/-- What is kept of a member: its value if it is a field, and nothing else. -/
def Kept (name : String) (value : Value) (kept : Option Value) : Prop :=
  kept = if name ∈ fieldNames then some value else none

section Readers

variable {limit steps levels wider : ℕ}

theorem follows_memberValueWithin (hlimit : limit ≤ steps) (hlevels : levels ≤ wider)
    (name : String) :
    Follows limit (Kept name) (value none hexEscape steps levels)
      (memberValueWithin wider steps name) := by
  intro cs rest found hlength hok
  by_cases hname : name ∈ fieldNames
  · obtain ⟨hrest, same, rfl, hsame⟩ :=
      follows_value_of_le length_of_hexEscape hlimit hlevels hlength hok
    refine ⟨hrest, some found, by rw [Kept, if_pos hname], ?_⟩
    rw [memberValueWithin, if_pos hname, hsame]
    rfl
  · obtain ⟨hrest, skipped, -, hskipped⟩ := follows_skipping hlimit levels hlength hok
    refine ⟨hrest, none, by rw [Kept, if_neg hname], ?_⟩
    rw [memberValueWithin, if_neg hname, hskipped]
    rfl

theorem memberValueWithin_follows (hlimit : limit ≤ steps) (hlevels : levels ≤ wider)
    (name : String) :
    Follows limit Eq (memberValueWithin levels steps name)
      (memberValueWithin wider steps name) := by
  intro cs rest found hlength hok
  by_cases hname : name ∈ fieldNames
  · rw [memberValueWithin, if_pos hname] at hok
    obtain ⟨⟨value, left⟩, hvalue, hresult⟩ := Json.exists_of_bind_eq_ok hok
    cases hresult
    obtain ⟨hrest, same, rfl, hsame⟩ :=
      follows_value_of_le length_of_hexEscape hlimit hlevels hlength hvalue
    refine ⟨hrest, some value, rfl, ?_⟩
    rw [memberValueWithin, if_pos hname, hsame]
    rfl
  · have hsame : memberValueWithin wider steps name cs =
        memberValueWithin levels steps name cs := by
      rw [memberValueWithin, memberValueWithin, if_neg hname, if_neg hname]
    rw [hsame]
    rw [memberValueWithin, if_neg hname] at hok
    obtain ⟨⟨value, left⟩, hvalue, hresult⟩ := Json.exists_of_bind_eq_ok hok
    cases hresult
    obtain ⟨hrest, -⟩ :=
      follows_value_of_le length_of_anyHexEscape hlimit le_rfl hlength hvalue
    refine ⟨hrest, none, rfl, ?_⟩
    rw [memberValueWithin, if_neg hname, hvalue]
    rfl

/-- Reads the members of a report whose opening brace has been read. -/
def membersWithin (levels steps : ℕ) : Scan (List (String × Option Value)) :=
  items .object (member (string hexEscape steps) (memberValueWithin levels steps)) steps

theorem keptFields_of_forall₂ {pairs : Members Value}
    {members : List (String × Option Value)}
    (hall : List.Forall₂ (fun pair kept => pair.1 = kept.1 ∧ Kept pair.1 pair.2 kept.2)
      pairs members) :
    keptFields members = fields pairs := by
  induction hall with
  | nil => rfl
  | @cons pair kept pairs members hpair _ ih =>
      obtain ⟨name, value⟩ := pair
      obtain ⟨same, found⟩ := kept
      obtain ⟨rfl, hkept⟩ := hpair
      rw [Kept] at hkept
      subst hkept
      rw [keptFields, fields] at ih ⊢
      by_cases hname : name ∈ fieldNames
      · simp [hname, ih]
      · simp [hname, ih]

theorem contents_length_le {body after : List Char}
    (hlimit : (body ++ '}' :: after).length ≤ steps) : body.length ≤ steps := by
  rw [List.length_append] at hlimit
  omega

/-- The members of an object are read for the fields in it, whatever else is there. -/
theorem exists_membersWithin {body after : List Char} {pairs : Members Value}
    (hbody : ContentsText .standard levels body pairs)
    (hlimit : (body ++ '}' :: after).length ≤ steps) (hlevels : levels ≤ wider) :
    ∃ members, membersWithin wider steps (body ++ '}' :: after) = .ok (members, after) ∧
      keptFields members = fields pairs := by
  have hbrace : Json.Reader.Container.object.closing ∈ [']', '}'] :=
    List.mem_cons_of_mem _ List.mem_cons_self
  have hpairs : items .object (member (string hexEscape steps) fun _ =>
      value none hexEscape steps levels) steps (body ++ '}' :: after) = .ok (pairs, after) := by
    rcases hbody with ⟨hblanks, rfl⟩ | htext
    · exact items_of_blanks hbrace hblanks _ steps after
    · exact (reads_standard steps levels).pair.items_append hbrace
        (Json.Grammar.membersText_iff.mp htext) (contents_length_le hlimit) after
  have hfollows : Follows steps _ (member (string hexEscape steps) _)
      (member (string hexEscape steps) (memberValueWithin wider steps)) :=
    follows_member (follows_memberValueWithin le_rfl hlevels)
  obtain ⟨-, members, hall, hmembers⟩ := hfollows.items .object steps hlimit hpairs
  exact ⟨members, hmembers, keptFields_of_forall₂ hall⟩

theorem membersWithin_follows (hlevels : levels ≤ wider) :
    Follows steps Eq (membersWithin levels steps) (membersWithin wider steps) := by
  have hfollows : Follows steps _ (member (string hexEscape steps) _)
      (member (string hexEscape steps) (memberValueWithin wider steps)) :=
    follows_member (memberValueWithin_follows le_rfl hlevels)
  refine (hfollows.items .object steps).imp fun found other hall => ?_
  rw [← List.forall₂_eq_eq_eq]
  exact hall.imp fun pair same hpair => Prod.ext hpair.1 hpair.2

end Readers

/-! ## Reports -/

theorem read?_eq_some_iff_of_brace {text : String} {cs : List Char} {report : Report}
    (hskip : skipBlanks text.toList = '{' :: cs) :
    read? text = some report ↔ ∃ members blanks, Blanks blanks ∧
      membersWithin maxDepth text.toList.length cs = .ok (members, blanks) ∧
      ofFields? (keptFields members) = some report := by
  simp only [read?, hskip]
  split
  · next members hmembers =>
      rw [toEnd_eq_ok_iff] at hmembers
      obtain ⟨blanks, hblanks, hmembers⟩ := hmembers
      constructor
      · intro hreport
        exact ⟨members, blanks, hblanks, hmembers, hreport⟩
      · rintro ⟨others, rest, -, hothers, hreport⟩
        cases hmembers.symm.trans hothers
        exact hreport
  · next fault hfault =>
      constructor
      · rintro ⟨⟩
      · rintro ⟨members, blanks, hblanks, hmembers, -⟩
        cases hfault.symm.trans (toEnd_eq_ok_iff.mpr ⟨blanks, hblanks, hmembers⟩)

section Objects

variable {text : String} {levels : ℕ} {pairs : Members Value} {report : Report}

theorem exists_contents (htext : ObjectText levels text.toList pairs) :
    ∃ body after, ContentsText .standard levels body pairs ∧ Blanks after ∧
      skipBlanks text.toList = '{' :: (body ++ '}' :: after) ∧
      (body ++ '}' :: after).length ≤ text.toList.length := by
  obtain ⟨before, body, after, hbefore, hbody, hafter, htext⟩ := htext
  refine ⟨body, after, hbody, hafter, ?_, ?_⟩
  · rw [htext, List.append_assoc, skipBlanks_append hbefore]
    exact skipBlanks_of_not_blank rfl _
  · rw [htext]
    simp only [List.length_append, List.length_cons]
    omega

/-- An object is read for the fields in it. -/
theorem read?_of_objectText (htext : ObjectText levels text.toList pairs)
    (hlevels : levels ≤ maxDepth) (hfields : ofFields? (fields pairs) = some report) :
    read? text = some report := by
  obtain ⟨body, after, hbody, hafter, hskip, hlength⟩ := exists_contents htext
  obtain ⟨members, hmembers, hkept⟩ := exists_membersWithin hbody hlength hlevels
  rw [read?_eq_some_iff_of_brace hskip]
  exact ⟨members, after, hafter, hmembers, hkept ▸ hfields⟩

/-- However deep an object is, what is read of it is what its fields say. -/
theorem ofFields?_of_read? (htext : ObjectText levels text.toList pairs)
    (hread : read? text = some report) : ofFields? (fields pairs) = some report := by
  obtain ⟨body, after, hbody, hafter, hskip, hlength⟩ := exists_contents htext
  obtain ⟨members, blanks, -, hmembers, hreport⟩ := (read?_eq_some_iff_of_brace hskip).mp hread
  -- Both readings are those of a reader that may open as many containers as either.
  obtain ⟨-, same, rfl, hsame⟩ :=
    membersWithin_follows (le_max_right levels maxDepth) hlength hmembers
  obtain ⟨others, hothers, hkept⟩ :=
    exists_membersWithin hbody hlength (le_max_left levels maxDepth)
  rw [hothers] at hsame
  cases hsame
  rw [← hkept, hreport]

end Objects

theorem bounded_of_ofFields? {found : Members Value} {report : Report}
    (hfound : ofFields? found = some report) : report.Bounded := by
  obtain ⟨-, -, -, hcounts⟩ := ofFields?_eq_some_iff.mp hfound
  intro entry hentry
  exact (count?_eq_some_iff.mp (hcounts entry hentry)).1

theorem bounded_of_read? {text : String} {report : Report}
    (hread : read? text = some report) : report.Bounded := by
  unfold read? at hread
  simp only at hread
  split at hread
  · split at hread
    · exact bounded_of_ofFields? hread
    · cases hread
  · split at hread
    · unfold ofValues? at hread
      split at hread
      · exact bounded_of_ofFields? hread
      · cases hread
    · cases hread
  · cases hread

/-! ## What a report is written as -/

theorem presents_members (report : Report) : report.Presents report.members where
  once := fun _ hmem => Entries.under_of_mem (nodup_keys_members report) hmem
  noFlowId := by
    intro hnone
    left
    simp [Entries.under, members_eq, hnone, counts]

theorem depth_member (report : Report) {member : String × Value}
    (hmem : member ∈ report.members) : member.2.depth = 0 := by
  rw [members_eq, List.cons_append, List.mem_cons, List.mem_append] at hmem
  rcases hmem with rfl | hid | hcount
  · rfl
  · obtain ⟨id, -, rfl⟩ := Option.map_eq_some_iff.mp (Option.mem_toList.mp hid)
    rfl
  · obtain ⟨entry, -, rfl⟩ := List.mem_map.mp hcount
    rfl

/-- A report is written as an object of its members. -/
theorem objectText_text (report : Report) :
    ObjectText maxDepth report.text.toList report.members := by
  obtain ⟨body, hbody, hvalue⟩ := Json.Writer.exists_membersText .compact
    fun member hmem => (Json.Writer.valueText_of_depth_zero .standard .compact
      (report.depth_member hmem) 1).of_zero .standard maxDepth
  refine ⟨[], body, [], Json.Grammar.blanks_nil, hbody, Json.Grammar.blanks_nil, ?_⟩
  rw [text, Value.compact, String.toList_ofList, hvalue]
  simp

/-- The values of a report in the order of its fields, with null for an identifier that it
has not. -/
def values (report : Report) : List Value :=
  fieldNames.map fun name => (Entries.get? report.members name).getD .null

/-- Each value with the name of its field. -/
def namedValues (report : Report) : Members Value :=
  fieldNames.map fun name => (name, (Entries.get? report.members name).getD .null)

theorem zip_values (report : Report) : fieldNames.zip report.values = report.namedValues :=
  rfl

theorem nodup_keys_namedValues (report : Report) :
    (Entries.keys report.namedValues).Nodup := by
  have hkeys : Entries.keys report.namedValues = fieldNames := by
    simp [namedValues, Entries.keys, Function.comp_def]
  rw [hkeys]
  decide

theorem presents_namedValues (report : Report) : report.Presents report.namedValues where
  once := by
    intro member hmem
    apply Entries.under_of_mem report.nodup_keys_namedValues
    refine List.mem_map.mpr ⟨member.1, name_mem_fieldNames hmem, ?_⟩
    rw [Entries.get?_of_mem report.nodup_keys_members hmem]
    rfl
  noFlowId := by
    intro hnone
    right
    have hget : Entries.get? report.members "flow_id" = none := by
      rw [Entries.get?_eq_none_iff, keys_members, hnone]
      simp [counts]
    have hmem : ("flow_id", Value.null) ∈ report.namedValues :=
      List.mem_map.mpr ⟨"flow_id", by decide, by rw [hget]; rfl⟩
    exact Entries.under_of_mem report.nodup_keys_namedValues hmem

theorem fields_namedValues (report : Report) :
    fields report.namedValues = report.namedValues := by
  rw [fields, List.filter_eq_self]
  intro pair hmem
  obtain ⟨name, hname, rfl⟩ := List.mem_map.mp hmem
  exact decide_eq_true hname

theorem ofValues?_values {report : Report} (hbounded : report.Bounded) :
    ofValues? report.values = some report := by
  rw [ofValues?, if_pos (by simp [values]), zip_values, ← fields_namedValues]
  exact report.presents_namedValues.ofFields?_eq hbounded

/-- An array is read for its values. -/
theorem read?_of_arrayText {text : String} {levels : ℕ} {elements : List Value}
    (htext : DocumentText .standard levels text.toList (.array elements))
    (hlevels : levels ≤ maxDepth) : read? text = ofValues? elements := by
  obtain ⟨before, body, after, hbefore, hbody, hafter, htext⟩ := htext
  have hbracket : Json.Reader.Container.array.closing ∈ [']', '}'] := List.mem_cons_self
  have hlength : (before ++ body ++ after).length = text.toList.length := by rw [htext]
  obtain ⟨inside, rfl, hinside⟩ : ∃ inside, body = '[' :: inside ++ [']'] ∧
      items .array (value none hexEscape text.toList.length maxDepth) text.toList.length
        (inside ++ ']' :: after) = .ok (elements, after) := by
    cases hbody with
    | emptyArray levels hblanks =>
        exact ⟨_, rfl, items_of_blanks hbracket hblanks _ _ after⟩
    | @array levels inside _ helements =>
        refine ⟨inside, rfl, ?_⟩
        simp only [List.length_append, List.length_cons] at hlength
        have hread := (reads_standard text.toList.length levels).items_append hbracket
          (Json.Grammar.elementsText_iff.mp helements) (by omega) after
        have hfollows := (follows_value_of_le length_of_hexEscape (le_refl text.toList.length)
          ((Nat.le_succ levels).trans hlevels)).items .array text.toList.length
        obtain ⟨-, same, hall, hsame⟩ := hfollows
          (by simp only [List.length_append, List.length_cons]; omega) hread
        rw [List.forall₂_eq_eq_eq] at hall
        exact hall ▸ hsame
  have hskip : skipBlanks text.toList = '[' :: (inside ++ ']' :: after) := by
    rw [htext, List.append_assoc, skipBlanks_append hbefore]
    simpa using skipBlanks_of_not_blank rfl (inside ++ ']' :: after)
  have hend := toEnd_eq_ok_iff.mpr ⟨after, hafter, hinside⟩
  simp only [read?, hskip, hend]

/-! ## Main result -/

/-- A name of a field is repeated, or one that a report has to have is missing. -/
def Faulty (pairs : Members Value) : Prop :=
  (∃ name ∈ fieldNames, 2 ≤ (Entries.keys pairs).count name) ∨
    ∃ name ∈ fieldNames, name ≠ "flow_id" ∧ name ∉ Entries.keys pairs

theorem not_faulty_of_ofFields? {pairs : Members Value} {report : Report}
    (hfields : ofFields? (fields pairs) = some report) : ¬Faulty pairs := by
  obtain ⟨hnodup, hwrapped, -, hcounts⟩ := ofFields?_eq_some_iff.mp hfields
  rintro (⟨name, hname, htwice⟩ | ⟨name, hname, hne, hmissing⟩)
  · have hone := Entries.nodup_keys_iff.mp hnodup name
    rw [under_fields, if_pos hname, Entries.length_under] at hone
    omega
  · have hnone : Entries.get? (fields pairs) name = none := by
      have hempty : Entries.under pairs name = [] := by
        rw [← List.length_eq_zero_iff, Entries.length_under, List.count_eq_zero]
        exact hmissing
      rw [get?_fields hname, hempty]
      rfl
    rw [fieldNames_eq report, List.mem_cons, List.mem_cons] at hname
    rcases hname with rfl | rfl | hcount
    · rw [hnone] at hwrapped
      cases hwrapped
    · exact hne rfl
    · obtain ⟨n, hentry⟩ := Entries.mem_keys_iff.mp hcount
      have hfound := hcounts _ hentry
      rw [hnone] at hfound
      cases hfound

/-- A report whose counts have 64 bits is read back from the text that it is written as,
which has an identifier exactly if the report has one.  It is read from every other text
that presents it as well, be it an object with the fields in any order and with other
members between them, or an array of the values.  An object with a field repeated or
missing is never read.  What is read can be written and is then read again, as the same
report. -/
theorem read?_of_every_presentation :
    (∀ report : Report, report.Bounded →
        read? report.text = some report ∧
        ObjectText maxDepth report.text.toList report.members ∧
        ("flow_id" ∈ Entries.keys report.members ↔ report.flowId.isSome) ∧
        (∀ text pairs, ObjectText maxDepth text.toList pairs → report.Presents pairs →
          read? text = some report) ∧
        ∀ text, DocumentText .standard maxDepth text.toList (.array report.values) →
          read? text = some report) ∧
      (∀ levels text pairs, ObjectText levels text.toList pairs → Faulty pairs →
        read? text = none) ∧
      ∀ text report, read? text = some report →
        report.Bounded ∧ read? report.text = some report := by
  have hpresented : ∀ report : Report, report.Bounded → ∀ text pairs,
      ObjectText maxDepth text.toList pairs → report.Presents pairs →
        read? text = some report := by
    intro report hbounded text pairs htext hpresents
    exact read?_of_objectText htext le_rfl (hpresents.ofFields?_eq hbounded)
  have hwritten : ∀ report : Report, report.Bounded → read? report.text = some report :=
    fun report hbounded => hpresented report hbounded _ _ report.objectText_text
      report.presents_members
  refine ⟨fun report hbounded => ⟨hwritten report hbounded, report.objectText_text, ?_,
    hpresented report hbounded, ?_⟩, ?_, ?_⟩
  · rw [keys_members]
    cases report.flowId <;> simp [counts]
  · intro text htext
    rw [read?_of_arrayText htext le_rfl, ofValues?_values hbounded]
  · intro levels text pairs htext hfaulty
    cases hread : read? text with
    | none => rfl
    | some report =>
        exact absurd hfaulty (not_faulty_of_ofFields? (ofFields?_of_read? htext hread))
  · intro text report hread
    have hbounded := bounded_of_read? hread
    exact ⟨hbounded, hwritten report hbounded⟩

end Report

end FlowMigration
