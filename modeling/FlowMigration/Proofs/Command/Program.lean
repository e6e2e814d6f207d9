import FlowMigration.Proofs.Command.Arguments
import FlowMigration.Proofs.Command.StandardError

/-!
# How the program ends

What a run leaves behind depends on what its command line gives, and not on how it is
written or how much is logged.  A run either does all that it was asked to do, and says so
at most once, or it changes nothing and tells of the first step that could not be done.
-/

namespace FlowMigration

namespace Request

variable {request : Request} {files : FileStore} {input : ByteArray}

theorem printed_carryOut_of_destination {path : String}
    (hdestination : request.destination = some path) :
    (request.carryOut files input).printed = "" := by
  rw [carryOut, hdestination]
  split
  · rfl
  · next heq => cases heq
  · split <;> rfl

theorem printed_carryOut_of_error {error : CommandError}
    (herror : (request.carryOut files input).result = .error error) :
    (request.carryOut files input).printed = "" := by
  cases hdestination : request.destination with
  | some path => exact printed_carryOut_of_destination hdestination
  | none =>
      rw [carryOut, hdestination] at herror ⊢
      split
      · rfl
      · next hok _ =>
          rw [hok] at herror
          cases herror
      · next heq => cases heq

/-- Without a destination, a text that was converted is printed. -/
theorem carryOut_of_none {text converted : String}
    (hsource : request.source.Holds files input text.toUTF8)
    (hrun : (Conversion.run text request.indent).result = .ok converted)
    (hdestination : request.destination = none) :
    (request.carryOut files input).result = .ok () ∧
      (request.carryOut files input).printed = converted ∧
      (request.carryOut files input).files = files := by
  have hresponse := (result_respond_of_text hsource).trans hrun
  simp only [carryOut, hresponse, hdestination, and_self]

/-- With a destination that denotes a file, it is written there. -/
theorem carryOut_of_some {text converted path : String} {location : Location}
    (hsource : request.source.Holds files input text.toUTF8)
    (hrun : (Conversion.run text request.indent).result = .ok converted)
    (hdestination : request.destination = some path)
    (hdenotes : files.Denotes path location) :
    (request.carryOut files input).result = .ok () ∧
      files.Written location converted.toUTF8 (request.carryOut files input).files := by
  have hresponse := (result_respond_of_text hsource).trans hrun
  obtain ⟨hnone, -⟩ | ⟨other, reason, hother, hopen, -⟩ |
    ⟨other, found, hother, hfound, hok, hwritten⟩ := carryOut_of_ok hresponse
  · rw [hdestination] at hnone
    cases hnone
  · cases hdestination.symm.trans hother
    rw [FileStore.destinationLocation_eq_ok_iff.mpr hdenotes] at hopen
    cases hopen
  · cases hdestination.symm.trans hother
    cases hdenotes.unique hfound
    exact ⟨hok, hwritten⟩

/-- What is carried out has a text that is converted, and a file to go to if it is to go
to one. -/
theorem exists_of_carryOut_eq_ok (hok : (request.carryOut files input).result = .ok ()) :
    ∃ text converted : String, request.source.Holds files input text.toUTF8 ∧
      (Conversion.run text request.indent).result = .ok converted ∧
      ∀ path ∈ request.destination, ∃ location, files.Denotes path location := by
  cases hresponse : (request.respond (request.load files input)).result with
  | error error =>
      rw [(carryOut_of_error hresponse).1] at hok
      cases hok
  | ok converted =>
      obtain ⟨text, hsource, hrun⟩ := exists_converted_of_respond hresponse
      refine ⟨text, converted, hsource, hrun, fun path hpath => ?_⟩
      cases delivered_of_carryOut hok with
      | printed hdestination =>
          rw [hdestination] at hpath
          cases hpath
      | written _ _ hdestination hdenotes =>
          cases hdestination.symm.trans hpath
          exact ⟨_, hdenotes⟩

end Request

namespace Program

/-! ## The notice -/

theorem toldLines_notice_error {request : Request} {error : CommandError}
    (hmessage : OneLine error.message.toList) :
    toldLines (notice request (.error error)) = ["Error: " ++ error.message] := by
  have hline : OneLine ("Error: " ++ error.message).toList :=
    .text_append (by decide) hmessage
  refine toldLines_line hline ⟨"Error: ", by simp [outcomeMarks], ?_⟩
  rw [String.toList_append]
  exact List.prefix_append _ _

theorem toldLines_notice_none {request : Request} (hdestination : request.destination = none) :
    toldLines (notice request (.ok ())) = [] := by
  simp only [notice, hdestination]
  rfl

theorem toldLines_notice_some {request : Request} {path : String}
    (hdestination : request.destination = some path)
    (hsource : OneLine request.source.description.toList) (hpath : OneLine path.toList) :
    toldLines (notice request (.ok ())) =
      ["Converted " ++ request.source.description ++ " -> " ++ path] := by
  have hline : OneLine ("Converted " ++ request.source.description ++ " -> " ++ path).toList :=
    .text_append (.text_append (.text_append (by decide) hsource) (by decide)) hpath
  simp only [notice, hdestination]
  refine toldLines_line hline ⟨"Converted ", by simp [outcomeMarks], ?_⟩
  simp only [String.toList_append, List.append_assoc]
  exact List.prefix_append _ _

/-! ## The end of a run -/

/-- What a run comes to, apart from what it logs on the way. -/
structure Ending where
  status : ℕ
  output : String
  files : FileStore
  told : List String

def Run.ending (hasGlyph : Char → Bool) (run : Run) : Ending where
  status := run.status
  output := run.output
  files := run.files
  told := toldLines (errorText hasGlyph run.events run.errors)

/-- The end of a request that was carried out or failed. -/
def endingOf (request : Request) (outcome : Outcome) : Ending where
  status := status outcome.result
  output := outcome.printed
  files := outcome.files
  told := toldLines (notice request outcome.result)

section Endings

variable {request : Request} {files : FileStore} {input : ByteArray}
  {text converted path : String} {location : Location}

theorem endingOf_carryOut_of_none (hholds : request.source.Holds files input text.toUTF8)
    (hrun : (Conversion.run text request.indent).result = .ok converted)
    (hnone : request.destination = none) :
    endingOf request (request.carryOut files input) = ⟨0, converted, files, []⟩ := by
  obtain ⟨hok, hprinted, hfiles⟩ := Request.carryOut_of_none hholds hrun hnone
  rw [endingOf, hok, hprinted, hfiles, toldLines_notice_none hnone, status]

theorem exists_endingOf_carryOut_of_some
    (hholds : request.source.Holds files input text.toUTF8)
    (hrun : (Conversion.run text request.indent).result = .ok converted)
    (hpath : request.destination = some path) (hdenotes : files.Denotes path location)
    (hsource : OneLine request.source.description.toList) (honeLine : OneLine path.toList) :
    ∃ after, files.Written location converted.toUTF8 after ∧
      endingOf request (request.carryOut files input) =
        ⟨0, "", after, ["Converted " ++ request.source.description ++ " -> " ++ path]⟩ := by
  obtain ⟨hok, hwritten⟩ := Request.carryOut_of_some hholds hrun hpath hdenotes
  refine ⟨_, hwritten, ?_⟩
  rw [endingOf, hok, Request.printed_carryOut_of_destination hpath,
    toldLines_notice_some hpath hsource honeLine, status]

theorem endingOf_carryOut_of_error {error : CommandError}
    (herror : (request.carryOut files input).result = .error error)
    (hsource : OneLine request.source.description.toList)
    (hdestination : ∀ path ∈ request.destination, OneLine path.toList) :
    request.Fault files input error ∧
      endingOf request (request.carryOut files input) =
        ⟨1, "", files, ["Error: " ++ error.message]⟩ := by
  obtain ⟨hfault, hfiles⟩ := Request.fault_of_carryOut herror
  refine ⟨hfault, ?_⟩
  rw [endingOf, herror, hfiles, Request.printed_carryOut_of_error herror,
    toldLines_notice_error (hfault.oneLine_message hsource hdestination), status]

end Endings

section Runs

variable {arrangement : Arrangement} {source : String} {destination : Option String}
  {indent : Option ℕ} {verbose : Bool} {setting : Option ByteArray} {files : FileStore}
  {input : ByteArray} (hasGlyph : Char → Bool)

theorem description_request (source : String) :
    (request source destination indent setting).source.description =
      if source = "-" then "<stdin>" else source := by
  rw [request, Source.ofArgument]
  split <;> rfl

theorem oneLine_description (hsource : OneLine source.toList) :
    OneLine (request source destination indent setting).source.description.toList := by
  rw [description_request]
  split
  · decide
  · exact hsource

/-- A run carries out the request that its arguments and the setting make. -/
theorem run_of_gives (hgives : arrangement.Gives source destination indent verbose) :
    run arrangement.words setting files input =
      let request := request source destination indent setting
      let outcome := request.carryOut files input
      ⟨status outcome.result, outcome.printed, notice request outcome.result,
        outcome.events.filter (shown verbose), outcome.files⟩ := by
  have hcommand := Arrangement.ofArguments_eq_convert_iff.mpr ⟨arrangement, rfl, hgives⟩
  rw [run, hcommand]

/-- Whatever is shown of the events, only the notice tells of the outcome. -/
theorem toldLines_of_subset (hsource : OneLine source.toList) {events : List Event}
    (hevents : events ⊆
      ((request source destination indent setting).carryOut files input).events)
    (text : String) : toldLines (errorText hasGlyph events text) = toldLines text := by
  refine toldLines_errorText hasGlyph (fun event hmem => ?_) text
  have hevent := hevents hmem
  rw [Request.events_carryOut] at hevent
  exact Request.all_plain_respond (oneLine_description hsource) _ event hevent

theorem ending_run (hgives : arrangement.Gives source destination indent verbose)
    (hsource : OneLine source.toList) :
    (run arrangement.words setting files input).ending hasGlyph =
      endingOf (request source destination indent setting)
        ((request source destination indent setting).carryOut files input) := by
  rw [run_of_gives hgives, Run.ending, endingOf, Ending.mk.injEq]
  exact ⟨rfl, rfl, rfl, toldLines_of_subset hasGlyph hsource (List.filter_subset_self _) _⟩

end Runs

/-- The text that is read for an argument: the standard input for a dash alone, and else
that of the file. -/
def Reads (files : FileStore) (input : ByteArray) (source text : String) : Prop :=
  if source = "-" then input = text.toUTF8
  else ∃ location, files.Denotes source location ∧
    files.contents? location = some text.toUTF8

theorem holds_ofArgument_iff {files : FileStore} {input : ByteArray} {source text : String} :
    (Source.ofArgument source).Holds files input text.toUTF8 ↔
      Reads files input source text := by
  rw [Reads, Source.ofArgument]
  split
  · constructor
    · generalize hbytes : text.toUTF8 = bytes
      rintro ⟨⟩
      rfl
    · rintro rfl
      exact .standardInput
  · constructor
    · rintro ⟨hdenotes, hcontents⟩
      exact ⟨_, hdenotes, hcontents⟩
    · rintro ⟨location, hdenotes, hcontents⟩
      exact .file hdenotes hcontents

/-- A conversion can be carried out: a text is read and converted, and the destination, if
there is one, denotes a file. -/
def Feasible (files : FileStore) (input : ByteArray) (source : String)
    (destination : Option String) (width : ℕ) : Prop :=
  ∃ text converted : String, Reads files input source text ∧
    (Conversion.run text width).result = .ok converted ∧
    ∀ path ∈ destination, ∃ location, files.Denotes path location

/-- What a command line that asks for a conversion comes to.  One width is asked for.  A
conversion that can be carried out is: the text is printed, and nothing is told of it, or
the file of the destination is written, alone, and one line tells so.  Any other changes
nothing, prints nothing, and one line tells of the first step that could not be done.  None
of this depends on which events are shown, on which characters in them have a glyph or on
how the arguments are arranged. -/
theorem run_of_arrangement {arrangement : Arrangement} {source : String}
    {destination : Option String} {indent : Option ℕ} {verbose : Bool}
    (hgives : arrangement.Gives source destination indent verbose)
    (hsource : OneLine source.toList)
    (hdestination : ∀ path ∈ destination, OneLine path.toList)
    (setting : Option ByteArray) (files : FileStore) (input : ByteArray)
    (hasGlyph : Char → Bool) :
    ∃ width, (∀ other, Indent.Asked indent setting other ↔ other = width) ∧
      let request : Request := ⟨Source.ofArgument source, destination, width⟩
      let result := run arrangement.words setting files input
      (∀ text converted : String, Reads files input source text →
        (Conversion.run text width).result = .ok converted →
          (destination = none → result.ending hasGlyph = ⟨0, converted, files, []⟩) ∧
          ∀ path location, destination = some path → files.Denotes path location →
            ∃ after, files.Written location converted.toUTF8 after ∧
              result.ending hasGlyph = ⟨0, "", after, ["Converted " ++
                (if source = "-" then "<stdin>" else source) ++ " -> " ++ path]⟩) ∧
      (¬Feasible files input source destination width →
        ∃ error, request.Fault files input error ∧
          result.ending hasGlyph = ⟨1, "", files, ["Error: " ++ error.message]⟩) ∧
      (∀ events ⊆ (request.carryOut files input).events,
        toldLines (errorText hasGlyph events result.errors) = (result.ending hasGlyph).told) ∧
      ∀ (other : Arrangement) (often : Bool), other.Gives source destination indent often →
        (run other.words setting files input).ending hasGlyph = result.ending hasGlyph := by
  let request := request source destination indent setting
  refine ⟨request.indent, fun other => Indent.asked_iff, ?_⟩
  dsimp only
  rw [ending_run hasGlyph hgives hsource]
  have hdescription : OneLine request.source.description.toList := oneLine_description hsource
  have hholds : ∀ text : String, request.source.Holds files input text.toUTF8 ↔
    Reads files input source text := fun text => holds_ofArgument_iff
  refine ⟨fun text converted hreads hrun => ⟨?printed, ?written⟩, ?failed, ?shown,
    ?same⟩
  case printed =>
    exact fun hnone => endingOf_carryOut_of_none ((hholds text).mpr hreads) hrun hnone
  case written =>
    intro path location hpath hdenotes
    have hshown : (if source = "-" then "<stdin>" else source) = request.source.description :=
      (description_request source).symm
    rw [hshown]
    exact exists_endingOf_carryOut_of_some ((hholds text).mpr hreads) hrun hpath hdenotes
      hdescription (hdestination path hpath)
  case failed =>
    intro hnot
    cases hresult : (request.carryOut files input).result with
    | ok _ =>
        obtain ⟨text, converted, hsource, hrun, hdenotes⟩ :=
          Request.exists_of_carryOut_eq_ok hresult
        exact absurd ⟨text, converted, (hholds text).mp hsource, hrun, hdenotes⟩ hnot
    | error error =>
        exact ⟨error, endingOf_carryOut_of_error hresult hdescription hdestination⟩
  case shown =>
    intro events hevents
    rw [run_of_gives hgives]
    exact toldLines_of_subset hasGlyph hsource hevents _
  case same =>
    intro other often hother
    rw [ending_run hasGlyph hother hsource]

/-- Options stand around a source, and a destination after the mark. -/
theorem run_of_arrangement_between_files :
    let arrangement : Arrangement :=
      ⟨[.width "3" true, .path "old", .verbose true], some ["new"]⟩
    let files : FileStore := ⟨[], [(["old"], "\x7b\"id\":1\x7d".toUTF8)]⟩
    let converted := "\x7b\n   \"id\": \"00000000-0000-0000-0000-000000000001\"\n\x7d\n"
    arrangement.words = ["--indent=3", "old", "-v", "--", "new"] ∧
      ∃ after, files.Written ["new"] converted.toUTF8 after ∧
        (run arrangement.words (some "1".toUTF8) files .empty).ending Char.isAlphanum =
          ⟨0, "", after, ["Converted old -> new"]⟩ := by
  intro arrangement files converted
  have hgives : arrangement.Gives "old" (some "new") (some 3) true := by
    refine ⟨?plain, rfl, by decide, ?width, rfl⟩
    case plain =>
      simp [arrangement, Item.Plain]
    case width =>
      exact .cons (Indent.ofText?_eq_some_iff.mp (by decide +kernel)) .nil
  obtain ⟨width, hwidth, hdone, -⟩ := run_of_arrangement hgives (by decide)
    (by simp) (some "1".toUTF8) files .empty Char.isAlphanum
  obtain rfl := (hwidth 3).mp (.option rfl)
  have hreads : Reads files .empty "old" "\x7b\"id\":1\x7d" := by
    rw [Reads, if_neg (by decide)]
    exact FileStore.read_eq_ok_iff.mp (by decide +kernel)
  have hdenotes : files.Denotes "new" ["new"] :=
    FileStore.destinationLocation_eq_ok_iff.mp (by decide)
  refine ⟨rfl, (hdone _ converted hreads (by decide +kernel)).2 "new" ["new"] rfl hdenotes⟩

end Program

end FlowMigration
