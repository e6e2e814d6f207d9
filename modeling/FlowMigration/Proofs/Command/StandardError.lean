import FlowMigration.Command.Program
import FlowMigration.Proofs.Command.Request
import FlowMigration.Proofs.Text.Lines

/-!
# What is told on the standard error

The events that are shown stand there, each on a line of its own, and after them the line
that tells how the run ended.  No event can be taken for such a line, as long as the paths
of the request have no line breaks.
-/

namespace FlowMigration

open Json (Members Value)

/-! ## Events -/

/-- The words that start the lines that tell how a run ended. -/
def outcomeMarks : List String :=
  ["Error: ", "Converted "]

/-- A line that tells how a run ended. -/
def TellsOutcome (line : List Char) : Prop :=
  ∃ mark ∈ outcomeMarks, mark.toList <+: line

instance (line : List Char) : Decidable (TellsOutcome line) :=
  inferInstanceAs (Decidable (∃ mark ∈ outcomeMarks, mark.toList <+: line))

/-- The lines of a text that tell how a run ended. -/
def toldLines (text : String) : List String :=
  ((linesOf text.toList).filter fun line => TellsOutcome line).map String.ofList

namespace Event

/-- The texts in an event that come from outside have no line break. -/
def Plain : Event → Prop
  | .readingFlow source => OneLine source.toList
  | .migrationDone report => ∀ id ∈ report.flowId, OneLine id.toList
  | _ => True

section Line

variable (hasGlyph : Char → Bool)

theorem oneLine_fields {event : Event} (hplain : event.Plain) :
    ∀ field ∈ event.fields,
      OneLine field.1.toList ∧ OneLine (field.2.shown hasGlyph).toList := by
  cases event with
  | readingFlow source =>
      simp only [fields, List.forall_mem_singleton]
      exact ⟨by decide, hplain⟩
  | flowIdReplaced old new =>
      have hold : OneLine old.compact.toList := by
        rw [Value.compact, String.toList_ofList]
        exact .value old 0
      simp only [fields, List.forall_mem_cons]
      exact ⟨⟨by decide, hold⟩, ⟨by decide, .uuid new⟩, by simp⟩
  | formDiscarded keys =>
      simp only [fields, List.forall_mem_singleton]
      exact ⟨by decide, .visible hasGlyph keys⟩
  | nodeConverted index =>
      simp only [fields, List.forall_mem_singleton]
      exact ⟨by decide, .nat index⟩
  | migrationDone report =>
      have hbool : ∀ truth : Bool, OneLine (toString truth).toList := by decide
      have hid : OneLine (report.flowId.getD "unchanged").toList := by
        cases hflowId : report.flowId with
        | none => decide
        | some id => exact hplain id hflowId
      simp only [fields, List.forall_mem_cons]
      exact ⟨⟨by decide, hbool _⟩, ⟨by decide, hid⟩,
        ⟨by decide, .nat _⟩, ⟨by decide, .nat _⟩,
        ⟨by decide, .nat _⟩, ⟨by decide, .nat _⟩, by simp⟩
  | reportMade report =>
      have hreport : OneLine report.text.toList := by
        rw [Report.text, Value.compact, String.toList_ofList]
        exact .value _ 0
      simp only [fields, List.forall_mem_singleton]
      exact ⟨by decide, hreport⟩

/-- An event is logged on one line. -/
theorem oneLine_line {event : Event} (hplain : event.Plain) :
    OneLine (event.line hasGlyph).toList := by
  have hlevel : OneLine event.level.name.toList := by
    cases event.level <;> decide
  have hmessage : OneLine event.message.toList := by
    cases event <;> (simp only [message]; decide)
  have hfields := oneLine_fields hasGlyph hplain
  rw [line, String.toList_intercalate]
  refine .intercalate (by decide) ?_
  rw [List.map_cons, List.map_cons, List.forall_mem_cons, List.forall_mem_cons]
  refine ⟨hlevel, hmessage, ?_⟩
  simp only [List.mem_map]
  rintro _ ⟨_, ⟨field, hmem, rfl⟩, rfl⟩
  simp [(hfields field hmem).1, (hfields field hmem).2]

/-- The line of an event starts with its level. -/
theorem not_tellsOutcome_line (event : Event) :
    ¬TellsOutcome (event.line hasGlyph).toList := by
  obtain ⟨rest, hrest⟩ :
      ∃ rest, (event.line hasGlyph).toList = event.level.name.toList ++ rest := by
    rw [line, String.intercalate_cons_cons]
    simp only [String.toList_append, List.append_assoc]
    exact ⟨_, rfl⟩
  rintro ⟨mark, hmark, tail, htail⟩
  rw [hrest] at htail
  rcases List.mem_pair.mp hmark with rfl | rfl
  all_goals cases hlevel : event.level
  all_goals
    rw [hlevel] at htail
    exact absurd (List.cons.inj htail).1 (by decide)

end Line

end Event

section ErrorText

variable (hasGlyph : Char → Bool)

/-- The text on the standard error: events that are shown and then what is told of the
outcome. -/
def errorText (events : List Event) (text : String) : String :=
  String.join (events.map fun event => event.line hasGlyph ++ "\n") ++ text

/-- The lines of events that are shown tell nothing of the outcome. -/
theorem toldLines_errorText {events : List Event} (hplain : ∀ event ∈ events, event.Plain)
    (text : String) : toldLines (errorText hasGlyph events text) = toldLines text := by
  have hchars : (errorText hasGlyph events text).toList =
      (events.map fun event => (event.line hasGlyph).toList).flatMap
        (fun line => line ++ ['\n']) ++ text.toList := by
    simp [errorText, String.toList_join, List.flatMap_map]
  have hlines :
      ∀ line ∈ events.map fun event => (event.line hasGlyph).toList, OneLine line := by
    intro line hmem
    obtain ⟨event, hevent, rfl⟩ := List.mem_map.mp hmem
    exact Event.oneLine_line hasGlyph (hplain event hevent)
  have hnone : (events.map fun event => (event.line hasGlyph).toList).filter
      (fun line => TellsOutcome line) = [] := by
    rw [List.filter_eq_nil_iff]
    intro line hmem
    obtain ⟨event, -, rfl⟩ := List.mem_map.mp hmem
    simpa using event.not_tellsOutcome_line hasGlyph
  rw [toldLines, hchars, linesOf_flatMap hlines, List.filter_append, hnone]
  rfl

end ErrorText

theorem toldLines_line {line : String} (hline : OneLine line.toList)
    (htells : TellsOutcome line.toList) : toldLines (line ++ "\n") = [line] := by
  have hlines : linesOf (line ++ "\n").toList = [line.toList] := by
    rw [String.toList_append]
    exact linesOf_append hline []
  rw [toldLines, hlines]
  simp [htells]

namespace Logged

variable {ε α β : Type} {P : Event → Prop}

/-- Every event of a run satisfies a predicate. -/
def All (P : Event → Prop) (run : Logged ε α) : Prop :=
  ∀ event ∈ run.events, P event

theorem all_pure (value : α) : All P (pure value : Logged ε α) := by
  simp [All, pure_eq]

theorem all_fail (error : ε) : All P (fail error : Logged ε α) := by
  simp [All, fail]

theorem all_map {run : Logged ε α} (hrun : run.All P) (f : α → β) : All P (f <$> run) :=
  hrun

theorem all_mapError {δ : Type} {run : Logged ε α} (hrun : run.All P) (restate : ε → δ) :
    All P (run.mapError restate) :=
  hrun

theorem all_bind {run : Logged ε α} (hrun : run.All P) {next : α → Logged ε β}
    (hnext : ∀ value, run.result = .ok value → (next value).All P) :
    All P (run >>= next) := by
  obtain ⟨events, result⟩ := run
  cases result with
  | error error => exact hrun
  | ok value =>
      rw [ok_bind]
      intro event hmem
      rcases List.mem_append.mp hmem with hmem | hmem
      · exact hrun event hmem
      · exact hnext value rfl event hmem

end Logged

/-! ## What a conversion logs -/

namespace Flow

theorem all_plain_migrateId (flow : Members Value) :
    (migrateId flow).All Event.Plain := by
  unfold migrateId
  split
  · exact Logged.all_pure _
  · split
    · exact Logged.all_fail _
    · exact Logged.all_pure _
    · refine Logged.all_bind ?_ fun _ _ => Logged.all_pure _
      simp [Logged.All, Logged.log, Event.Plain]

theorem all_plain_migrateNode (wrapped : Bool) (index : ℕ) (node : Value) :
    (migrateNode wrapped index node).All Event.Plain := by
  unfold migrateNode
  split
  · split
    · exact Logged.all_pure _
    · refine Logged.all_bind ?_ fun _ _ => Logged.all_bind ?_ fun _ _ => Logged.all_pure _
      all_goals simp [Logged.All, Logged.log, Event.Plain]
    · exact Logged.all_fail _
  · exact Logged.all_pure _

theorem all_plain_migrateNodes (wrapped : Bool) (index : ℕ) (nodes : List Value) :
    (migrateNodes wrapped index nodes).All Event.Plain := by
  induction nodes generalizing index with
  | nil => exact Logged.all_pure _
  | cons node rest ih =>
      exact Logged.all_bind (all_plain_migrateNode wrapped index node)
        fun _ _ => Logged.all_map (ih (index + 1)) _

theorem all_plain_migrateNodeList (wrapped : Bool) (flow : Members Value) :
    (migrateNodeList wrapped flow).All Event.Plain := by
  unfold migrateNodeList
  split
  · exact Logged.all_pure _
  · exact Logged.all_bind (all_plain_migrateNodes wrapped 0 _) fun _ _ => Logged.all_pure _
  · exact Logged.all_fail _

theorem all_plain_migrateLogged (wrapped : Bool) (flow : Value) :
    (migrateLogged wrapped flow).All Event.Plain := by
  unfold migrateLogged
  split
  · exact Logged.all_bind (all_plain_migrateId _) fun _ _ =>
      Logged.all_bind (all_plain_migrateNodeList wrapped _) fun _ _ => Logged.all_pure _
  · exact Logged.all_fail _

/-- The identifier in a report is the text of one of 128 bits. -/
theorem oneLine_flowId {wrapped : Bool} {flow new : Value} {report : Report}
    (hok : (migrateLogged wrapped flow).result = .ok (new, report)) :
    ∀ id ∈ report.flowId, OneLine id.toList := by
  cases flow with
  | object members =>
      rw [migrateLogged, Logged.result_bind] at hok
      obtain ⟨⟨updated, uuid⟩, -, hnodes⟩ := Json.exists_of_bind_eq_ok hok
      rw [Logged.result_bind] at hnodes
      obtain ⟨⟨converted, tally⟩, -, hreport⟩ := Json.exists_of_bind_eq_ok hnodes
      cases hreport
      intro id hid
      obtain ⟨found, -, rfl⟩ := Option.map_eq_some_iff.mp hid
      exact .uuid found
  | _ => cases hok

end Flow

theorem Document.all_plain_migrateLogged (document : Value) :
    (Document.migrateLogged document).All Event.Plain := by
  have hend : ∀ migration : Migration, (∀ id ∈ migration.report.flowId, OneLine id.toList) →
      Logged.All Event.Plain (Logged.log [.migrationDone migration.report] >>= fun _ =>
        (pure migration : Logged MigrationError Migration)) := by
    intro migration hid
    refine Logged.all_bind ?_ fun _ _ => Logged.all_pure _
    simpa [Logged.All, Logged.log, Event.Plain] using hid
  unfold Document.migrateLogged
  split
  · refine Logged.all_bind (Flow.all_plain_migrateLogged true _) fun migration hok => ?_
    exact hend ⟨_, migration.2⟩ (Flow.oneLine_flowId hok)
  · refine Logged.all_bind (Flow.all_plain_migrateLogged false _) fun migration hok => ?_
    exact hend ⟨_, migration.2⟩ (Flow.oneLine_flowId hok)

theorem Conversion.all_plain_run (text : String) (indent : ℕ) :
    (Conversion.run text indent).All Event.Plain := by
  unfold Conversion.run
  split
  · exact Logged.all_fail _
  · refine Logged.all_bind (Logged.all_mapError (Document.all_plain_migrateLogged _) _)
      fun _ _ => Logged.all_bind ?_ fun _ _ => Logged.all_pure _
    simp [Logged.All, Logged.log, Event.Plain]

theorem Request.all_plain_respond {request : Request}
    (hsource : OneLine request.source.description.toList)
    (loaded : Except FileError ByteArray) :
    (request.respond loaded).All Event.Plain := by
  unfold Request.respond
  refine Logged.all_bind ?_ fun _ _ => ?_
  · simpa [Logged.All, Logged.log, Event.Plain] using hsource
  · split
    · exact Logged.all_fail _
    · exact Conversion.all_plain_run _ _

theorem Request.events_carryOut (request : Request) (files : FileStore) (input : ByteArray) :
    (request.carryOut files input).events =
      (request.respond (request.load files input)).events := by
  rw [carryOut]
  split
  · rfl
  · rfl
  · split
    · rfl
    · rfl

/-! ## The message of an error -/

namespace FileStore

variable {store : FileStore} {path : String} {reason : FileError}

theorem oneLine_enter {directory : Location} {name : String}
    (herror : store.enter directory name = .error reason) : OneLine reason.message.toList := by
  simp only [enter] at herror
  split_ifs at herror
  · cases herror
    decide
  · cases herror
    decide

theorem oneLine_walk {names : List String} (herror : store.walk names = .error reason) :
    OneLine reason.message.toList := by
  rw [walk] at herror
  generalize ([] : Location) = start at herror
  induction names generalizing start with
  | nil => cases herror
  | cons name rest ih =>
      rw [List.foldlM_cons] at herror
      cases hentered : store.enter start name with
      | error found =>
          rw [hentered] at herror
          cases herror
          exact oneLine_enter hentered
      | ok directory =>
          rw [hentered] at herror
          exact ih directory herror

theorem oneLine_sourceLocation (herror : store.sourceLocation path = .error reason) :
    OneLine reason.message.toList := by
  rw [sourceLocation] at herror
  split at herror
  · cases herror
    decide
  · cases hwalk : store.walk (pathNames path).dropLast with
    | error found =>
        simp only [hwalk, bind, Except.bind] at herror
        cases herror
        exact oneLine_walk hwalk
    | ok directory =>
        simp only [hwalk, bind, Except.bind] at herror
        split_ifs at herror
        all_goals cases herror; decide

theorem oneLine_destinationLocation (herror : store.destinationLocation path = .error reason) :
    OneLine reason.message.toList := by
  rw [destinationLocation] at herror
  split at herror
  · cases herror
    decide
  · dsimp only at herror
    generalize (List.dropWhile _ _).reverse = inner at herror
    cases hwalk : store.walk inner.dropLast with
    | error found =>
        simp only [hwalk, bind, Except.bind] at herror
        cases herror
        exact oneLine_walk hwalk
    | ok directory =>
        simp only [hwalk, bind, Except.bind] at herror
        split_ifs at herror
        all_goals cases herror; decide

theorem oneLine_read (herror : store.read path = .error reason) :
    OneLine reason.message.toList := by
  rw [read] at herror
  cases hlocation : store.sourceLocation path with
  | error found =>
      rw [hlocation] at herror
      cases herror
      exact oneLine_sourceLocation hlocation
  | ok location =>
      simp only [hlocation, bind, Except.bind] at herror
      split at herror
      · cases herror
      · cases herror
        decide

end FileStore

theorem Json.Kind.oneLine_name (kind : Json.Kind) : OneLine kind.name.toList := by
  cases kind with
  | bool value => cases value <;> decide
  | _ => decide

theorem Json.ReadError.oneLine_message (error : Json.ReadError) :
    OneLine error.message.toList := by
  have hcause : OneLine error.cause.message.toList := by
    cases error.cause with
    | numberNotQuoted found =>
        exact .text_append (.text_append (by decide) found.oneLine_name) (by decide)
    | _ => decide
  rw [Json.ReadError.message]
  exact .text_append (.text_append (.text_append (.text_append hcause (by decide)) (.nat _))
    (by decide)) (.nat _)

theorem Place.oneLine_path (place : Place) : OneLine place.path.toList := by
  obtain ⟨wrapped, part⟩ := place
  cases part with
  | flow => cases wrapped <;> decide
  | nodes => cases wrapped <;> decide
  | nodeData index =>
      cases wrapped
      all_goals
        rw [path]
        exact .text_append (.text_append (by decide) (.nat index)) (by decide)

theorem MigrationError.oneLine_message (error : MigrationError) :
    OneLine error.message.toList := by
  cases error with
  | invalidShape place =>
      have hshape : OneLine place.part.shape.toList := by
        cases place.part <;> simp only [Part.shape] <;> decide
      change OneLine ("Invalid shape at '" ++ place.path ++ "': expected " ++
        place.part.shape).toList
      exact .text_append (.text_append (.text_append (by decide) place.oneLine_path)
        (by decide)) hshape
  | flowIdOutOfRange id =>
      have hid : OneLine (toString id).toList := by
        change OneLine (String.ofList id.text).toList
        rw [String.toList_ofList]
        exact .number id
      change OneLine ("Flow id " ++ toString id ++ " does not fit in a 128-bit UUID").toList
      exact .text_append (.text_append (by decide) hid) (by decide)

theorem Source.Unread.oneLine_message {files : FileStore} {input : ByteArray}
    {source : Source} {reason : FileError} (hunread : source.Unread files input reason) :
    OneLine reason.message.toList := by
  cases hunread with
  | noFile hread => exact FileStore.oneLine_read hread
  | noTextInFile | noTextInInput => decide

/-- The message of what a request fails with is on one line, if its paths are. -/
theorem Request.Fault.oneLine_message {request : Request} {files : FileStore}
    {input : ByteArray} {error : CommandError} (hfault : request.Fault files input error)
    (hsource : OneLine request.source.description.toList)
    (hdestination : ∀ path ∈ request.destination, OneLine path.toList) :
    OneLine error.message.toList := by
  cases hfault with
  | unread hunread =>
      have hreason := hunread.oneLine_message
      cases hfound : request.source with
      | file path =>
          rw [hfound] at hsource
          change OneLine ("Failed to read file " ++ path ++ ": " ++ FileError.message _).toList
          exact .text_append (.text_append (.text_append (by decide) hsource) (by decide))
            hreason
      | standardInput =>
          change OneLine ("Invalid argument: Failed to read stdin: " ++
            FileError.message _).toList
          exact .text_append (by decide) hreason
  | malformed =>
      change OneLine ("Failed to parse flow JSON: " ++ Json.ReadError.message _).toList
      exact .text_append (by decide) (Json.ReadError.oneLine_message _)
  | notMigrated =>
      change OneLine ("Migration error: " ++ MigrationError.message _).toList
      exact .text_append (by decide) (MigrationError.oneLine_message _)
  | unwritable _ _ hpath hopen =>
      change OneLine ("Failed to write file " ++ _ ++ ": " ++ FileError.message _).toList
      exact .text_append (.text_append (.text_append (by decide) (hdestination _ hpath))
        (by decide)) (FileStore.oneLine_destinationLocation hopen)

end FlowMigration
