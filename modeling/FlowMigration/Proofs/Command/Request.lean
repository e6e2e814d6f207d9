import FlowMigration.Command.Request
import FlowMigration.Proofs.Command.Conversion
import FlowMigration.Proofs.Command.FileStore

/-!
# What a request does to the files

A request reads, converts and writes, in this order, and fails at the first of these
that cannot be done.  A request that fails leaves every file as it was; one that succeeds
changes the file that its destination denotes and no other.
-/

namespace FlowMigration

open Json (exists_of_bind_eq_ok)

theorem fromUTF8?_eq_some_iff {bytes : ByteArray} {text : String} :
    String.fromUTF8? bytes = some text ↔ bytes = text.toUTF8 := by
  rw [String.fromUTF8?]
  constructor
  · intro hsome
    split at hsome
    · cases hsome
      rfl
    · cases hsome
  · rintro rfl
    simp only [String.toUTF8_eq_toByteArray, dif_pos text.isValidUTF8]
    rfl

theorem decodeText_eq_ok_iff {bytes : ByteArray} {text : String} :
    decodeText bytes = .ok text ↔ bytes = text.toUTF8 := by
  rw [← fromUTF8?_eq_some_iff, decodeText]
  cases String.fromUTF8? bytes <;> simp

/-- Bytes that are no text are rejected for that. -/
theorem decodeText_eq_error_iff {bytes : ByteArray} {reason : FileError} :
    decodeText bytes = .error reason ↔
      reason = .notText ∧ ∀ text : String, bytes ≠ text.toUTF8 := by
  cases hdecode : decodeText bytes with
  | ok text =>
      have hbytes := decodeText_eq_ok_iff.mp hdecode
      simp only [reduceCtorEq, false_iff, not_and]
      exact fun _ hnone => hnone text hbytes
  | error found =>
      have hfound : found = .notText := by
        rw [decodeText] at hdecode
        split at hdecode
        · cases hdecode
        · exact (Except.error.inj hdecode).symm
      have hnone : ∀ text : String, bytes ≠ text.toUTF8 := by
        intro text hbytes
        rw [decodeText_eq_ok_iff.mpr hbytes] at hdecode
        cases hdecode
      rw [hfound, Except.error.injEq, eq_comm]
      exact ⟨fun hreason => ⟨hreason, hnone⟩, fun hreason => hreason.1⟩

/-- The bytes that a source holds. -/
inductive Source.Holds (files : FileStore) (input : ByteArray) : Source → ByteArray → Prop
  | file {path : String} {location : Location} {bytes : ByteArray}
      (hdenotes : files.Denotes path location)
      (hcontents : files.contents? location = some bytes) :
      Holds files input (.file path) bytes
  | standardInput : Holds files input .standardInput input

/-- Why a source is not read as a text: its file is not read, or its bytes are no text. -/
inductive Source.Unread (files : FileStore) (input : ByteArray) : Source → FileError → Prop
  | noFile {path : String} {reason : FileError}
      (hread : files.read path = .error reason) :
      Unread files input (.file path) reason
  | noTextInFile {path : String} {bytes : ByteArray}
      (hread : files.read path = .ok bytes)
      (hbytes : ∀ text : String, bytes ≠ text.toUTF8) :
      Unread files input (.file path) .notText
  | noTextInInput (hbytes : ∀ text : String, input ≠ text.toUTF8) :
      Unread files input .standardInput .notText

namespace Request

variable {request : Request} {files : FileStore} {input : ByteArray}

/-! ## Reading the source -/

theorem load_eq_ok_iff {bytes : ByteArray} :
    request.load files input = .ok bytes ↔ request.source.Holds files input bytes := by
  rw [load]
  cases request.source with
  | file path =>
      rw [FileStore.read_eq_ok_iff]
      constructor
      · rintro ⟨location, hdenotes, hcontents⟩
        exact .file hdenotes hcontents
      · rintro ⟨hdenotes, hcontents⟩
        exact ⟨_, hdenotes, hcontents⟩
  | standardInput =>
      constructor
      · intro hok
        cases hok
        exact .standardInput
      · rintro ⟨⟩
        rfl

/-- The text of a source, if it can be read as one. -/
theorem text_eq_ok_iff {text : String} :
    (request.load files input).bind decodeText = .ok text ↔
      request.source.Holds files input text.toUTF8 := by
  rw [← load_eq_ok_iff]
  constructor
  · intro hok
    obtain ⟨bytes, hload, hdecode⟩ := exists_of_bind_eq_ok hok
    rw [hload, decodeText_eq_ok_iff.mp hdecode]
  · intro hload
    rw [hload]
    exact decodeText_eq_ok_iff.mpr rfl

theorem text_eq_error_iff {reason : FileError} :
    (request.load files input).bind decodeText = .error reason ↔
      request.source.Unread files input reason := by
  rw [load]
  cases request.source with
  | file path =>
      dsimp only
      constructor
      · intro hunread
        cases hread : files.read path with
        | error found =>
            rw [hread] at hunread
            cases hunread
            exact .noFile hread
        | ok bytes =>
            rw [hread] at hunread
            obtain ⟨rfl, hbytes⟩ := decodeText_eq_error_iff.mp hunread
            exact .noTextInFile hread hbytes
      · intro hunread
        cases hunread with
        | noFile hread => rw [hread]; rfl
        | noTextInFile hread hbytes =>
            rw [hread]
            exact decodeText_eq_error_iff.mpr ⟨rfl, hbytes⟩
  | standardInput =>
      constructor
      · intro hunread
        obtain ⟨rfl, hbytes⟩ := decodeText_eq_error_iff.mp hunread
        exact .noTextInInput hbytes
      · rintro ⟨⟩
        exact decodeText_eq_error_iff.mpr ⟨rfl, ‹_›⟩

/-- A source is not read exactly if it does not hold a text. -/
theorem exists_unread_iff :
    (∃ reason, request.source.Unread files input reason) ↔
      ∀ text : String, ¬request.source.Holds files input text.toUTF8 := by
  constructor
  · rintro ⟨reason, hunread⟩ text hsource
    have hreason := text_eq_error_iff.mpr hunread
    rw [text_eq_ok_iff.mpr hsource] at hreason
    cases hreason
  · intro hnone
    cases htext : (request.load files input).bind decodeText with
    | error reason => exact ⟨reason, text_eq_error_iff.mp htext⟩
    | ok text => exact absurd (text_eq_ok_iff.mp htext) (hnone text)

/-! ## The answer to what was read -/

theorem result_respond (request : Request) (loaded : Except FileError ByteArray) :
    (request.respond loaded).result =
      match loaded.bind decodeText with
      | .error reason => .error (request.source.readFailure reason)
      | .ok text => (Conversion.run text request.indent).result := by
  rw [respond, Logged.result_bind, Logged.result_log]
  cases loaded.bind decodeText <;> rfl

theorem result_respond_of_unread {reason : FileError}
    (hunread : request.source.Unread files input reason) :
    (request.respond (request.load files input)).result =
      .error (request.source.readFailure reason) := by
  rw [result_respond, text_eq_error_iff.mpr hunread]

theorem result_respond_of_text {text : String}
    (hsource : request.source.Holds files input text.toUTF8) :
    (request.respond (request.load files input)).result =
      (Conversion.run text request.indent).result := by
  rw [result_respond, text_eq_ok_iff.mpr hsource]

theorem exists_converted_of_respond {converted : String}
    (hok : (request.respond (request.load files input)).result = .ok converted) :
    ∃ text : String, request.source.Holds files input text.toUTF8 ∧
      (Conversion.run text request.indent).result = .ok converted := by
  cases htext : (request.load files input).bind decodeText with
  | error reason =>
      rw [result_respond_of_unread (text_eq_error_iff.mp htext)] at hok
      cases hok
  | ok text =>
      have hsource := text_eq_ok_iff.mp htext
      rw [result_respond_of_text hsource] at hok
      exact ⟨text, hsource, hok⟩

/-! ## The files after a request -/

/-- What keeps a request from being carried out: the first of its steps that cannot be
done. -/
inductive Fault (request : Request) (files : FileStore) (input : ByteArray) :
    CommandError → Prop
  | unread {reason : FileError} (hunread : request.source.Unread files input reason) :
      Fault request files input (request.source.readFailure reason)
  | malformed {text : String} {reason : Json.ReadError}
      (hsource : request.source.Holds files input text.toUTF8)
      (hread : Json.read text = .error reason) :
      Fault request files input (.malformed reason)
  | notMigrated {text : String} {document : Json.Value} {reason : MigrationError}
      (hsource : request.source.Holds files input text.toUTF8)
      (hread : Json.read text = .ok document)
      (hmigrate : Document.migrate document = .error reason) :
      Fault request files input (.notMigrated reason)
  | unwritable {text path converted : String} {reason : FileError}
      (hsource : request.source.Holds files input text.toUTF8)
      (hrun : (Conversion.run text request.indent).result = .ok converted)
      (hdestination : request.destination = some path)
      (hopen : files.destinationLocation path = .error reason) :
      Fault request files input (.unwritableFile path reason)

/-- What a request that is carried out does to the files: nothing without a destination,
and else the file that the destination denotes gets the converted text of the source,
which is what the source held before, and is read back from there. -/
inductive Delivered (request : Request) (files : FileStore) (input : ByteArray)
    (after : FileStore) : Prop
  | printed (hdestination : request.destination = none) (hsame : after = files)
  | written {text path converted : String} {location : Location}
      (hsource : request.source.Holds files input text.toUTF8)
      (hrun : (Conversion.run text request.indent).result = .ok converted)
      (hdestination : request.destination = some path)
      (hdenotes : files.Denotes path location)
      (hwritten : files.Written location converted.toUTF8 after)
      (hreread : after.read path = .ok converted.toUTF8)

/-- Why there is no converted text. -/
theorem fault_of_respond {error : CommandError}
    (herror : (request.respond (request.load files input)).result = .error error) :
    Fault request files input error := by
  cases htext : (request.load files input).bind decodeText with
  | error reason =>
      have hunread := text_eq_error_iff.mp htext
      rw [result_respond_of_unread hunread] at herror
      cases herror
      exact .unread hunread
  | ok text =>
      have hsource := text_eq_ok_iff.mp htext
      rw [result_respond_of_text hsource] at herror
      obtain ⟨reason, hread, rfl⟩ | ⟨document, reason, hread, hmigrate, rfl⟩ :=
        Conversion.result_run_eq_error_iff.mp herror
      · exact .malformed hsource hread
      · exact .notMigrated hsource hread hmigrate

/-- Without a converted text, nothing is written. -/
theorem carryOut_of_error {error : CommandError}
    (herror : (request.respond (request.load files input)).result = .error error) :
    (request.carryOut files input).result = .error error ∧
      (request.carryOut files input).files = files := by
  rw [carryOut, herror]
  exact ⟨rfl, rfl⟩

/-- A text that was converted is printed or written, or cannot be written. -/
theorem carryOut_of_ok {converted : String}
    (hok : (request.respond (request.load files input)).result = .ok converted) :
    (request.destination = none ∧ (request.carryOut files input).result = .ok () ∧
        (request.carryOut files input).files = files) ∨
      (∃ path reason, request.destination = some path ∧
        files.destinationLocation path = .error reason ∧
        (request.carryOut files input).result = .error (.unwritableFile path reason) ∧
        (request.carryOut files input).files = files) ∨
      ∃ path location, request.destination = some path ∧ files.Denotes path location ∧
        (request.carryOut files input).result = .ok () ∧
        files.Written location converted.toUTF8 (request.carryOut files input).files := by
  rw [carryOut, hok]
  cases request.destination with
  | none => exact .inl ⟨rfl, rfl, rfl⟩
  | some path =>
      cases hwrite : files.write path converted.toUTF8 with
      | error reason =>
          have hopen := FileStore.write_eq_error_iff.mp hwrite
          refine .inr (.inl ⟨path, reason, rfl, hopen, ?_, ?_⟩) <;> simp only [hwrite]
      | ok after =>
          obtain ⟨location, hdenotes, hwritten⟩ := FileStore.exists_written_of_write hwrite
          refine .inr (.inr ⟨path, location, rfl, hdenotes, by simp only [hwrite], ?_⟩)
          simpa only [hwrite] using hwritten

/-- A request that fails has met a fault, and has not changed the files. -/
theorem fault_of_carryOut {error : CommandError}
    (herror : (request.carryOut files input).result = .error error) :
    Fault request files input error ∧ (request.carryOut files input).files = files := by
  cases hresponse : (request.respond (request.load files input)).result with
  | error found =>
      obtain ⟨hfound, hsame⟩ := carryOut_of_error hresponse
      cases herror.symm.trans hfound
      exact ⟨fault_of_respond hresponse, hsame⟩
  | ok converted =>
      obtain ⟨text, hsource, hrun⟩ := exists_converted_of_respond hresponse
      obtain ⟨-, hok, -⟩ | ⟨path, reason, hdestination, hopen, hfound, hsame⟩ |
        ⟨path, location, -, -, hok, -⟩ := carryOut_of_ok hresponse
      · rw [hok] at herror
        cases herror
      · cases herror.symm.trans hfound
        exact ⟨.unwritable hsource hrun hdestination hopen, hsame⟩
      · rw [hok] at herror
        cases herror

/-- A request that meets a fault fails with it. -/
theorem Fault.result_carryOut {error : CommandError}
    (hfault : Fault request files input error) :
    (request.carryOut files input).result = .error error := by
  cases hfault with
  | unread hunread => exact (carryOut_of_error (result_respond_of_unread hunread)).1
  | malformed hsource hread =>
      apply (carryOut_of_error _).1
      rw [result_respond_of_text hsource]
      exact Conversion.result_run_eq_error_iff.mpr (.inl ⟨_, hread, rfl⟩)
  | notMigrated hsource hread hmigrate =>
      apply (carryOut_of_error _).1
      rw [result_respond_of_text hsource]
      exact Conversion.result_run_eq_error_iff.mpr (.inr ⟨_, _, hread, hmigrate, rfl⟩)
  | unwritable hsource hrun hdestination hopen =>
      have hresponse := (result_respond_of_text hsource).trans hrun
      obtain ⟨hnone, -⟩ | ⟨other, found, hother, hfound, hresult, -⟩ |
        ⟨other, location, hother, hdenotes, -⟩ := carryOut_of_ok hresponse
      · rw [hdestination] at hnone
        cases hnone
      · cases hdestination.symm.trans hother
        cases hopen.symm.trans hfound
        exact hresult
      · cases hdestination.symm.trans hother
        rw [FileStore.destinationLocation_eq_ok_iff.mpr hdenotes] at hopen
        cases hopen

theorem result_carryOut_eq_error_iff {error : CommandError} :
    (request.carryOut files input).result = .error error ↔
      Fault request files input error :=
  ⟨fun herror => (fault_of_carryOut herror).1, Fault.result_carryOut⟩

/-- A fault of reading is met only where the source is not read. -/
theorem Fault.unread_of_readFailure {reason : FileError}
    (hfault : Fault request files input (request.source.readFailure reason)) :
    request.source.Unread files input reason := by
  generalize herror : request.source.readFailure reason = error at hfault
  cases hfault with
  | unread hunread =>
      cases hsource : request.source <;> rw [hsource] at herror hunread <;> cases herror
      all_goals exact hunread
  | _ => cases hsource : request.source <;> rw [hsource] at herror <;> cases herror

/-- A request that is carried out has delivered the converted text. -/
theorem delivered_of_carryOut (hok : (request.carryOut files input).result = .ok ()) :
    Delivered request files input (request.carryOut files input).files := by
  cases hresponse : (request.respond (request.load files input)).result with
  | error error =>
      rw [(carryOut_of_error hresponse).1] at hok
      cases hok
  | ok converted =>
      obtain ⟨text, hsource, hrun⟩ := exists_converted_of_respond hresponse
      obtain ⟨hdestination, -, hsame⟩ | ⟨path, reason, -, -, herror, -⟩ |
        ⟨path, location, hdestination, hdenotes, -, hwritten⟩ := carryOut_of_ok hresponse
      · exact .printed hdestination hsame
      · rw [herror] at hok
        cases hok
      · exact .written hsource hrun hdestination hdenotes hwritten (hwritten.read hdenotes)

/-- A request does all of its work or none.  It fails exactly with the fault of the first
step that cannot be done, which is that of reading the source if the source does not hold
a text, and a request that fails leaves the files as they were.  One that is carried out
changes the file of its destination only. -/
theorem carryOut_all_or_nothing (request : Request) (files : FileStore)
    (input : ByteArray) :
    (∀ error, (request.carryOut files input).result = .error error ↔
        Fault request files input error) ∧
      ((∃ reason, (request.carryOut files input).result =
          .error (request.source.readFailure reason)) ↔
        ∀ text : String, ¬request.source.Holds files input text.toUTF8) ∧
      (∀ error, (request.carryOut files input).result = .error error →
        (request.carryOut files input).files = files) ∧
      ((request.carryOut files input).result = .ok () →
        Delivered request files input (request.carryOut files input).files) := by
  refine ⟨fun error => result_carryOut_eq_error_iff, ?_, ?_, delivered_of_carryOut⟩
  · rw [← exists_unread_iff]
    constructor
    · rintro ⟨reason, herror⟩
      exact ⟨reason, (result_carryOut_eq_error_iff.mp herror).unread_of_readFailure⟩
    · rintro ⟨reason, hunread⟩
      exact ⟨reason, (Fault.unread hunread).result_carryOut⟩
  · exact fun error herror => (fault_of_carryOut herror).2

/-! ## The file that a request writes -/

/-- A request is carried out and writes the file at a location. -/
def Writes (request : Request) (files : FileStore) (input : ByteArray)
    (location : Location) : Prop :=
  (request.carryOut files input).result = .ok () ∧
    ∃ path, request.destination = some path ∧ files.Denotes path location

theorem directories_carryOut (request : Request) (files : FileStore) (input : ByteArray) :
    (request.carryOut files input).files.directories = files.directories := by
  cases hresult : (request.carryOut files input).result with
  | error error => rw [(fault_of_carryOut hresult).2]
  | ok _ =>
      cases delivered_of_carryOut hresult with
      | printed hdestination hsame => rw [hsame]
      | written hsource hrun hdestination hdenotes hwritten hreread =>
          exact hwritten.directories_same

/-- The file that is written holds what the text of the source is converted to. -/
theorem exists_run_of_writes {location : Location}
    (hwrites : request.Writes files input location) :
    ∃ text converted : String, request.source.Holds files input text.toUTF8 ∧
      (Conversion.run text request.indent).result = .ok converted ∧
      (request.carryOut files input).files.contents? location = some converted.toUTF8 := by
  obtain ⟨hok, path, hpath, hlocation⟩ := hwrites
  cases delivered_of_carryOut hok with
  | printed hdestination hsame =>
      rw [hpath] at hdestination
      cases hdestination
  | written hsource hrun hdestination hdenotes hwritten hreread =>
      cases hpath.symm.trans hdestination
      cases hdenotes.unique hlocation
      exact ⟨_, _, hsource, hrun, hwritten.contents_written⟩

/-- A file that is not written stays as it is, or stays away. -/
theorem contents?_carryOut_of_not_writes {location : Location}
    (hwrites : ¬request.Writes files input location) :
    (request.carryOut files input).files.contents? location = files.contents? location := by
  cases hresult : (request.carryOut files input).result with
  | error error => rw [(fault_of_carryOut hresult).2]
  | ok _ =>
      cases delivered_of_carryOut hresult with
      | printed hdestination hsame => rw [hsame]
      | written hsource hrun hdestination hdenotes hwritten hreread =>
          refine hwritten.others_same location ?_
          rintro rfl
          exact hwrites ⟨hresult, _, hdestination, hdenotes⟩

end Request

end FlowMigration
