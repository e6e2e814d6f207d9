import FlowMigration.Proofs.Command.Request

/-!
# Sessions

In a session, requests are carried out one after the other, each on the files that the
ones before it left, so that what one request wrote may be what the next one reads.  A file
holds, at every moment, either what it held at the start or the text that the last request
to write it has written.  If no document that the session starts from has the key that marks
a number, then no document has it at any moment, and what was written can be converted again.

A moment of a session is the end of a shorter session, which is why a statement about the
end of every session is one about every moment.
-/

namespace FlowMigration

/-- A request with what the standard input holds when it is carried out. -/
structure Step where
  request : Request
  input : ByteArray

namespace Session

variable {start : FileStore} {before session : List Step} {step : Step}
variable {location : Location} {request : Request}

/-- The files after a session that starts with some files. -/
def filesAfter (start : FileStore) (session : List Step) : FileStore :=
  session.foldl (fun files step => (step.request.carryOut files step.input).files) start

theorem filesAfter_concat (start : FileStore) (before : List Step) (step : Step) :
    filesAfter start (before ++ [step]) =
      (step.request.carryOut (filesAfter start before) step.input).files := by
  rw [filesAfter, List.foldl_concat]
  rfl

/-- The last request of a session that writes the file at a location. -/
inductive LastWrite (start : FileStore) : List Step → Location → Request → Prop
  | last {before : List Step} {step : Step} {location : Location}
      (hwrites : step.request.Writes (filesAfter start before) step.input location) :
      LastWrite start (before ++ [step]) location step.request
  | earlier {before : List Step} {step : Step} {location : Location} {request : Request}
      (hlast : LastWrite start before location request)
      (hwrites : ¬step.request.Writes (filesAfter start before) step.input location) :
      LastWrite start (before ++ [step]) location request

/-- No document in a file has the key that marks a number. -/
def UnmarkedFiles (files : FileStore) : Prop :=
  ∀ (location : Location) (text : String),
    files.contents? location = some text.toUTF8 → Json.ReadsUnmarked text

/-- No document that a session starts from, in a file or on a standard input, has the key
that marks a number. -/
structure Unmarked (start : FileStore) (session : List Step) : Prop where
  files : UnmarkedFiles start
  inputs : ∀ step ∈ session, ∀ text : String, step.input = text.toUTF8 →
    Json.ReadsUnmarked text

/-- What a location holds after a session: what it held at the start, a file or none, if
no request has written it, and else what a text was converted to. -/
inductive Holds (start : FileStore) (session : List Step) (location : Location) :
    Option ByteArray → Prop
  | kept (hnever : ∀ request, ¬LastWrite start session location request) :
      Holds start session location (start.contents? location)
  | converted {request : Request} {text converted : String}
      (hlast : LastWrite start session location request)
      (hrun : (Conversion.run text request.indent).result = .ok converted)
      (hunmarked : Unmarked start session → Json.ReadsUnmarked text) :
      Holds start session location (some converted.toUTF8)

theorem directories_filesAfter (start : FileStore) (session : List Step) :
    (filesAfter start session).directories = start.directories := by
  induction session using List.reverseRecOn with
  | nil => rfl
  | append_singleton before step ih =>
      rw [filesAfter_concat, Request.directories_carryOut, ih]

/-! ## One request more -/

theorem not_lastWrite_nil : ¬LastWrite start [] location request := by
  generalize hsession : ([] : List Step) = session
  rintro (hwrites | ⟨hlast, hwrites⟩)
  all_goals simp at hsession

/-- A request that does not write a file leaves it to the requests before it. -/
theorem lastWrite_concat_iff
    (hwrites : ¬step.request.Writes (filesAfter start before) step.input location) :
    LastWrite start (before ++ [step]) location request ↔
      LastWrite start before location request := by
  constructor
  · generalize hsession : before ++ [step] = session
    rintro (hwritten | ⟨hlast, -⟩)
    · obtain ⟨rfl, hstep⟩ := List.append_inj' hsession rfl
      cases hstep
      exact absurd hwritten hwrites
    · obtain ⟨rfl, -⟩ := List.append_inj' hsession rfl
      exact hlast
  · exact fun hlast => .earlier hlast hwrites

/-! ## Documents without the key that marks a number -/

/-- A source does without the key if the files and the input do. -/
theorem readsUnmarked_of_holds {source : Source} {files : FileStore} {input : ByteArray}
    {text : String} (hholds : source.Holds files input text.toUTF8)
    (hfiles : UnmarkedFiles files)
    (hinput : ∀ other : String, input = other.toUTF8 → Json.ReadsUnmarked other) :
    Json.ReadsUnmarked text := by
  generalize hbytes : text.toUTF8 = bytes at hholds
  cases hholds with
  | file hdenotes hcontents => exact hfiles _ text (hbytes ▸ hcontents)
  | standardInput => exact hinput text hbytes.symm

/-- A request brings the key into no file. -/
theorem unmarkedFiles_carryOut {files : FileStore} {input : ByteArray}
    (hfiles : UnmarkedFiles files)
    (hinput : ∀ text : String, input = text.toUTF8 → Json.ReadsUnmarked text) :
    UnmarkedFiles (request.carryOut files input).files := by
  intro location text hcontents
  by_cases hwrites : request.Writes files input location
  · obtain ⟨source, converted, hholds, hrun, hwritten⟩ :=
      Request.exists_run_of_writes hwrites
    rw [hwritten, Option.some.injEq] at hcontents
    rw [← String.toByteArray_inj.mp hcontents]
    exact Conversion.readsUnmarked_of_run (readsUnmarked_of_holds hholds hfiles hinput) hrun
  · rw [Request.contents?_carryOut_of_not_writes hwrites] at hcontents
    exact hfiles location text hcontents

theorem Unmarked.of_concat (hunmarked : Unmarked start (before ++ [step])) :
    Unmarked start before where
  files := hunmarked.files
  inputs := fun other hmem => hunmarked.inputs other (List.mem_append_left _ hmem)

theorem Unmarked.last (hunmarked : Unmarked start (before ++ [step])) (text : String)
    (hinput : step.input = text.toUTF8) : Json.ReadsUnmarked text :=
  hunmarked.inputs step List.mem_concat_self text hinput

theorem unmarkedFiles_filesAfter (hunmarked : Unmarked start session) :
    UnmarkedFiles (filesAfter start session) := by
  induction session using List.reverseRecOn with
  | nil => exact hunmarked.files
  | append_singleton before step ih =>
      rw [filesAfter_concat]
      exact unmarkedFiles_carryOut (ih hunmarked.of_concat) hunmarked.last

/-! ## What a location holds -/

theorem holds_concat
    (hholds : Holds start before location ((filesAfter start before).contents? location)) :
    Holds start (before ++ [step]) location
      ((filesAfter start (before ++ [step])).contents? location) := by
  rw [filesAfter_concat]
  by_cases hwrites : step.request.Writes (filesAfter start before) step.input location
  · obtain ⟨text, converted, hsource, hrun, hcontents⟩ :=
      Request.exists_run_of_writes hwrites
    rw [hcontents]
    refine .converted (.last hwrites) hrun fun hunmarked => ?_
    exact readsUnmarked_of_holds hsource (unmarkedFiles_filesAfter hunmarked.of_concat)
      hunmarked.last
  · rw [Request.contents?_carryOut_of_not_writes hwrites]
    generalize (filesAfter start before).contents? location = contents at hholds ⊢
    cases hholds with
    | kept hnever =>
        exact .kept fun request hlast => hnever request ((lastWrite_concat_iff hwrites).mp hlast)
    | converted hlast hrun hunmarked =>
        exact .converted (.earlier hlast hwrites) hrun fun hwhole => hunmarked hwhole.of_concat

/-! ## Whole sessions -/

theorem holds_filesAfter (start : FileStore) (session : List Step) (location : Location) :
    Holds start session location ((filesAfter start session).contents? location) := by
  induction session using List.reverseRecOn with
  | nil => exact .kept fun _ => not_lastWrite_nil
  | append_singleton before step ih => exact holds_concat ih

/-- Whatever requests a session makes, it keeps the directories and loses no file.  A file
that no request has written is as it was at the start.  One that was written holds lines of
text, and these are a document in the new layout, which is converted again at any width and
stays as it is at the width of the request that wrote it last, if the session starts from
documents without the key that marks a number. -/
theorem filesAfter_kept_or_converted (start : FileStore) (session : List Step) :
    (filesAfter start session).directories = start.directories ∧
      ∀ location : Location,
        ((start.contents? location).isSome →
          ((filesAfter start session).contents? location).isSome) ∧
        ∀ bytes, (filesAfter start session).contents? location = some bytes →
          (start.contents? location = some bytes ∧
            ∀ request, ¬LastWrite start session location request) ∨
          ∃ request text, LastWrite start session location request ∧
            bytes = text.toUTF8 ∧ (∃ body, text = body ++ "\n") ∧
            (Unmarked start session → Conversion.IsConverted request.indent text) := by
  refine ⟨directories_filesAfter start session, fun location => ?_⟩
  have hholds := holds_filesAfter start session location
  generalize (filesAfter start session).contents? location = contents at hholds ⊢
  cases hholds with
  | kept hnever => exact ⟨id, fun bytes hbytes => .inl ⟨hbytes, hnever⟩⟩
  | converted hlast hrun hunmarked =>
      refine ⟨fun _ => rfl, fun bytes hbytes => .inr ⟨_, _, hlast, ?_,
        Conversion.ends_in_newline_of_run hrun, fun hstart => ?_⟩⟩
      · exact (Option.some.inj hbytes).symm
      · exact Conversion.isConverted_of_run (hunmarked hstart) hrun

/-- A store whose one file is named `old`. -/
def oldFile (text : String) : FileStore :=
  ⟨[], [(["old"], text.toUTF8)]⟩

/-- A file is converted in place under another path, and is the source of the next
request. -/
def rewriting : List Step :=
  [⟨⟨.file "old", some "./old", 0⟩, .empty⟩, ⟨⟨.file "old", some "new", 1⟩, .empty⟩]

theorem unmarked_rewriting {text : String} (htext : Json.ReadsUnmarked text) :
    Unmarked (oldFile text) rewriting where
  files := by
    intro location other hcontents
    rw [FileStore.contents?, oldFile, Entries.get?] at hcontents
    split at hcontents
    · rwa [← String.toByteArray_inj.mp (Option.some.inj hcontents)]
    · cases hcontents
  inputs := by
    intro step hmem other hinput
    have hempty : step.input = "".toUTF8 := by
      rcases List.mem_pair.mp hmem with rfl | rfl
      all_goals rfl
    rw [String.toByteArray_inj.mp (hinput.symm.trans hempty)]
    decide +kernel

/-- A flow with an integer for an identifier. -/
def numberedText : String :=
  "\x7b\"id\":1\x7d"

def renumberedText : String :=
  "\x7b\n\"id\": \"00000000-0000-0000-0000-000000000001\"\n\x7d\n"

theorem filesAfter_kept_or_converted_numberedText :
    Unmarked (oldFile numberedText) rewriting ∧
      (filesAfter (oldFile numberedText) rewriting).contents? ["old"] =
        some renumberedText.toUTF8 ∧
      ∃ request text, LastWrite (oldFile numberedText) rewriting ["old"] request ∧
        renumberedText.toUTF8 = text.toUTF8 ∧ Conversion.IsConverted request.indent text := by
  have hunmarked : Unmarked (oldFile numberedText) rewriting :=
    unmarked_rewriting (by decide +kernel)
  have hcontents : (filesAfter (oldFile numberedText) rewriting).contents? ["old"] =
      some renumberedText.toUTF8 := by
    decide +kernel
  have hchanged : (oldFile numberedText).contents? ["old"] ≠ some renumberedText.toUTF8 := by
    decide +kernel
  obtain ⟨-, hfiles⟩ := filesAfter_kept_or_converted (oldFile numberedText) rewriting
  obtain ⟨hkept, -⟩ | ⟨request, text, hlast, hbytes, -, hconverted⟩ :=
    (hfiles ["old"]).2 _ hcontents
  · exact absurd hkept hchanged
  · exact ⟨hunmarked, hcontents, request, text, hlast, hbytes, hconverted hunmarked⟩

/-- With the key that marks a number, a file can be written that is not read again. -/
theorem not_converted_markedDocument :
    ∃ location bytes,
      (filesAfter (oldFile (Document.markedDocument.render 0)) rewriting).contents? location =
        some bytes ∧
      (oldFile (Document.markedDocument.render 0)).contents? location ≠ some bytes ∧
      ¬∃ indent text, bytes = text.toUTF8 ∧ Conversion.IsConverted indent text := by
  let written := (Document.migrated Document.markedDocument).render 0
  have hcontents : (filesAfter (oldFile (Document.markedDocument.render 0))
      rewriting).contents? ["old"] = some written.toUTF8 := by
    decide +kernel
  have hchanged : (oldFile (Document.markedDocument.render 0)).contents? ["old"] ≠
      some written.toUTF8 := by
    decide +kernel
  refine ⟨_, _, hcontents, hchanged, ?_⟩
  rintro ⟨indent, text, hbytes, hconverted⟩
  obtain ⟨document, hread, -⟩ := hconverted.in_new_layout
  rw [← String.toByteArray_inj.mp hbytes,
    Document.read_render_migrated_markedDocument] at hread
  cases hread

end Session

end FlowMigration
