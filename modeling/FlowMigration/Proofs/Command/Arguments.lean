import FlowMigration.Command.Arguments
import FlowMigration.Proofs.Command.Indent

/-!
# Which command lines ask for a conversion

Options may stand between the paths or around them, each in the ways in which it can be
written.  A command line asks for a conversion exactly if it is such an arrangement of a
source, of a destination if there is one, and of each option once at most.
-/

namespace FlowMigration

/-- A part of a command line: a path, a width, which may stand in the same word as its
option, or the option to be verbose, which has a short form. -/
inductive Item where
  | path (text : String)
  | width (text : String) (joined : Bool)
  | verbose (short : Bool)

namespace Item

def words : Item → List String
  | .path text => [text]
  | .width text true => ["--indent=" ++ text]
  | .width text false => ["--indent", text]
  | .verbose true => ["-v"]
  | .verbose false => ["--verbose"]

/-- A path among options is a dash alone, or it starts with another character. -/
def Plain : Item → Prop
  | .path text => text = "-" ∨ text.toList.head? ≠ some '-'
  | _ => True

def path? : Item → Option String
  | .path text => some text
  | _ => none

def width? : Item → Option String
  | .width text _ => some text
  | _ => none

def isVerbose : Item → Bool
  | .verbose _ => true
  | _ => false

/-- What is given once the part has been taken, if it may be. -/
def addTo? (given : Arguments) : Item → Option Arguments
  | .path text => given.addPath? text
  | .width text _ => given.addIndent? text
  | .verbose _ => given.addVerbose?

end Item

namespace Arguments

/-! ## One word -/

/-- Takes a word that is neither the end of the options nor half an option. -/
def takeWord (given : Arguments) (word : String) : Except Command Arguments :=
  match word.toList with
  | '-' :: '-' :: option =>
      let (name, value) := splitValue option
      given.takeLong name value
  | '-' :: letter :: letters => given.takeLetters (letter :: letters)
  | _ =>
      match given.addPath? word with
      | some given => .ok given
      | none => .error .misused

theorem take_cons {word : String} (hend : word ≠ "--") (hhalf : word ≠ "--indent")
    (given : Arguments) (rest : List String) :
    given.take (word :: rest) =
      match given.takeWord word with
      | .ok given => given.take rest
      | .error command => command :=
  take.eq_5 given word rest hend hhalf

/-- An option is its name, and after an equals sign its value. -/
theorem eq_of_splitValue (option : List Char) :
    option = (splitValue option).1.toList ++
      match (splitValue option).2 with
      | none => []
      | some value => '=' :: value.toList := by
  have hsplit := List.takeWhile_append_dropWhile (p := (· != '=')) (l := option)
  rw [splitValue]
  cases hrest : option.dropWhile (· != '=') with
  | nil =>
      rw [hrest] at hsplit
      simpa using hsplit.symm
  | cons c value =>
      have hc : c = '=' := by
        have hhead := List.head?_dropWhile_not (· != '=') option
        rw [hrest] at hhead
        simpa using hhead
      rw [hrest, hc] at hsplit
      simpa using hsplit.symm

theorem splitValue_indent (value : String) :
    splitValue ("indent=" ++ value).toList = ("indent", some value) := by
  simp [splitValue]

theorem verbose_of_addVerbose? {given next : Arguments}
    (hsome : given.addVerbose? = some next) : next = { given with verbose := true } := by
  rw [addVerbose?] at hsome
  split at hsome
  · cases hsome
  · exact (Option.some.inj hsome).symm

/-- Nothing but the option to be verbose can be taken from a group of letters. -/
theorem takeLetters_cons_eq_ok {given next : Arguments} {letter : Char}
    {letters : List Char} (hok : given.takeLetters (letter :: letters) = .ok next) :
    letter = 'v' ∧ ∃ after, given.addVerbose? = some after ∧
      after.takeLetters letters = .ok next := by
  rw [takeLetters.eq_def] at hok
  split at hok
  · next heq => cases heq
  · next rest heq =>
      cases heq
      split at hok
      · next after hafter => exact ⟨rfl, after, hafter, hok⟩
      · cases hok
  · cases hok
  · cases hok
  · cases hok

/-- A group of letters after which anything can follow is one letter. -/
theorem takeLetters_eq_ok {given next : Arguments} {letter : Char} {letters : List Char}
    (hok : given.takeLetters (letter :: letters) = .ok next) :
    letter :: letters = ['v'] ∧ given.addVerbose? = some next := by
  obtain ⟨rfl, after, hafter, hrest⟩ := takeLetters_cons_eq_ok hok
  cases letters with
  | nil =>
      cases hrest
      exact ⟨rfl, hafter⟩
  | cons other letters =>
      obtain ⟨-, again, hagain, -⟩ := takeLetters_cons_eq_ok hrest
      rw [verbose_of_addVerbose? hafter, addVerbose?, if_pos rfl] at hagain
      cases hagain

theorem takeLong_eq_ok {given next : Arguments} {name : String} {value : Option String}
    (hok : given.takeLong name value = .ok next) :
    (∃ text, name = "indent" ∧ value = some text ∧ given.addIndent? text = some next) ∨
      name = "verbose" ∧ value = none ∧ given.addVerbose? = some next := by
  unfold takeLong at hok
  split at hok
  · next hname =>
      split at hok
      · next found hfound =>
          cases hok
          obtain ⟨text, htext, hgiven⟩ := Option.bind_eq_some_iff.mp hfound
          exact .inl ⟨text, hname, htext, hgiven⟩
      · cases hok
  · split at hok
    · cases hok
    · next hvalue =>
        rw [Option.not_isSome_iff_eq_none] at hvalue
        split at hok
        · next hname =>
            split at hok
            · next found hfound =>
                cases hok
                exact .inr ⟨hname, hvalue, hfound⟩
            · cases hok
        · split at hok
          · cases hok
          · split at hok
            · cases hok
            · cases hok

/-- The words that can be followed by others are those of the parts that may be added. -/
theorem exists_item_of_takeWord {given next : Arguments} {word : String}
    (hok : given.takeWord word = .ok next) :
    ∃ item : Item, item.Plain ∧ item.words = [word] ∧ item.addTo? given = some next := by
  unfold takeWord at hok
  split at hok
  · next option hword =>
      have hsplit := eq_of_splitValue option
      simp only at hok
      obtain ⟨text, hname, hvalue, hgiven⟩ | ⟨hname, hvalue, hgiven⟩ := takeLong_eq_ok hok
      · refine ⟨.width text true, trivial, ?_, hgiven⟩
        rw [hname, hvalue] at hsplit
        rw [Item.words, List.singleton_inj, ← String.toList_inj, hword, hsplit]
        simp
      · refine ⟨.verbose false, trivial, ?_, hgiven⟩
        rw [hname, hvalue] at hsplit
        rw [Item.words, List.singleton_inj, ← String.toList_inj, hword, hsplit]
        rfl
  · next letter letters _ hword =>
      obtain ⟨hletters, hgiven⟩ := takeLetters_eq_ok hok
      refine ⟨.verbose true, trivial, ?_, hgiven⟩
      rw [Item.words, List.singleton_inj, ← String.toList_inj, hword, hletters]
      rfl
  · next hlong hshort =>
      split at hok
      · next found hfound =>
          cases hok
          refine ⟨.path word, ?_, rfl, hfound⟩
          cases hword : word.toList with
          | nil =>
              right
              simp [hword]
          | cons c cs =>
              by_cases hc : c = '-'
              · subst hc
                cases cs with
                | nil =>
                    left
                    rw [← String.toList_inj, hword]
                    rfl
                | cons letter letters => exact (hshort letter letters hword).elim
              · right
                simpa [hword] using hc
      · cases hok

/-- A word that may be added is added, and any other is misuse. -/
def addedOrMisused : Option Arguments → Except Command Arguments
  | some given => .ok given
  | none => .error .misused

theorem takeWord_path {text : String} (hplain : (Item.path text).Plain)
    (given : Arguments) : given.takeWord text = addedOrMisused (given.addPath? text) := by
  have hpath : ∀ word, (match given.addPath? word with
      | some given => Except.ok given
      | none => .error Command.misused) = addedOrMisused (given.addPath? word) := by
    intro word
    cases given.addPath? word <;> rfl
  rcases hplain with rfl | hhead
  · exact hpath "-"
  · unfold takeWord
    split
    · next option hword => exact absurd (by rw [hword]; rfl) hhead
    · next letter letters _ hword => exact absurd (by rw [hword]; rfl) hhead
    · exact hpath text

theorem takeWord_joined (text : String) (given : Arguments) :
    given.takeWord ("--indent=" ++ text) = addedOrMisused (given.addIndent? text) := by
  have hword : ("--indent=" ++ text).toList = '-' :: '-' :: ("indent=" ++ text).toList := by
    simp
  rw [takeWord, hword]
  simp only [splitValue_indent, takeLong, if_true, Option.bind_some]
  cases given.addIndent? text <;> rfl

theorem takeWord_short (given : Arguments) :
    given.takeWord "-v" = addedOrMisused given.addVerbose? := by
  change given.takeLetters ['v'] = _
  rw [takeLetters]
  cases given.addVerbose? <;> rfl

theorem takeWord_long (given : Arguments) :
    given.takeWord "--verbose" = addedOrMisused given.addVerbose? := by
  change given.takeLong "verbose" none = _
  rw [takeLong, if_neg (by decide)]
  cases given.addVerbose? <;> rfl

theorem take_cons_of_takeWord {given : Arguments} {word : String} {added : Option Arguments}
    (hend : word ≠ "--") (hhalf : word ≠ "--indent")
    (hword : given.takeWord word = addedOrMisused added) (rest : List String) :
    given.take (word :: rest) = added.elim .misused fun next => next.take rest := by
  rw [take_cons hend hhalf, hword]
  cases added <;> rfl

theorem ne_of_plain {text word : String} (hplain : (Item.path text).Plain)
    (hword : ∃ c cs, word.toList = '-' :: c :: cs) : text ≠ word := by
  rintro rfl
  obtain ⟨c, cs, hchars⟩ := hword
  rcases hplain with rfl | hhead
  · cases hchars
  · exact hhead (by rw [hchars]; rfl)

/-- A part is added to what is given, or the command line is misused. -/
theorem take_item {item : Item} (hplain : item.Plain) (given : Arguments)
    (rest : List String) :
    given.take (item.words ++ rest) =
      (item.addTo? given).elim .misused fun next => next.take rest := by
  cases item with
  | path text =>
      have hend : text ≠ "--" := ne_of_plain hplain ⟨'-', [], rfl⟩
      have hhalf : text ≠ "--indent" := ne_of_plain hplain ⟨'-', "indent".toList, rfl⟩
      exact take_cons_of_takeWord hend hhalf (takeWord_path hplain given) rest
  | width text joined =>
      cases joined with
      | true =>
          have hne : ∀ word : String, word.toList.length ≤ 8 → "--indent=" ++ text ≠ word := by
            rintro word hlength rfl
            simp at hlength
            omega
          have hend := hne "--" (by decide)
          have hhalf := hne "--indent" (by decide)
          exact take_cons_of_takeWord hend hhalf (takeWord_joined text given) rest
      | false =>
          rw [Item.words, List.cons_append, List.singleton_append, take.eq_4, Item.addTo?]
          cases given.addIndent? text <;> rfl
  | verbose short =>
      cases short with
      | true =>
          exact take_cons_of_takeWord (by decide) (by decide) (takeWord_short given) rest
      | false =>
          exact take_cons_of_takeWord (by decide) (by decide) (takeWord_long given) rest

/-! ## All words -/

/-- What is given once parts have been added in turn, if all of them may be. -/
def addAll? (given : Arguments) (items : List Item) : Option Arguments :=
  items.foldlM (fun given item => item.addTo? given) given

theorem addAll?_cons (given : Arguments) (item : Item) (rest : List Item) :
    given.addAll? (item :: rest) = (item.addTo? given).bind fun next => next.addAll? rest :=
  List.foldlM_cons

theorem addAll?_append (given : Arguments) (items others : List Item) :
    given.addAll? (items ++ others) =
      (given.addAll? items).bind fun next => next.addAll? others :=
  List.foldlM_append

theorem take_items {items : List Item} (hplain : ∀ item ∈ items, item.Plain)
    (given : Arguments) (rest : List String) :
    given.take (items.flatMap Item.words ++ rest) =
      (given.addAll? items).elim .misused fun next => next.take rest := by
  induction items generalizing given with
  | nil => rfl
  | cons item items ih =>
      rw [List.forall_mem_cons] at hplain
      rw [List.flatMap_cons, List.append_assoc, take_item hplain.1, addAll?_cons]
      cases item.addTo? given with
      | none => rfl
      | some next => exact ih hplain.2 next

theorem takePaths_eq (given : Arguments) (paths : List String) :
    given.takePaths paths = (given.addAll? (paths.map .path)).elim .misused finish := by
  induction paths generalizing given with
  | nil => rfl
  | cons path rest ih =>
      rw [takePaths, List.map_cons, addAll?_cons, Item.addTo?]
      cases given.addPath? path with
      | none => rfl
      | some next => exact ih next

end Arguments

/-! ## Arrangements -/

/-- Parts of a command line in some order, and the paths after the mark `--` if it is
there. -/
structure Arrangement where
  items : List Item
  after : Option (List String)

namespace Arrangement

def words (arrangement : Arrangement) : List String :=
  arrangement.items.flatMap Item.words ++
    match arrangement.after with
    | none => []
    | some paths => "--" :: paths

/-- The parts and then the paths after the mark. -/
def parts (arrangement : Arrangement) : List Item :=
  arrangement.items ++ (arrangement.after.getD []).map .path

theorem ofArguments_words {arrangement : Arrangement}
    (hplain : ∀ item ∈ arrangement.items, item.Plain) :
    Command.ofArguments arrangement.words =
      (Arguments.addAll? {} arrangement.parts).elim .misused Arguments.finish := by
  rw [Command.ofArguments, words, Arguments.take_items hplain, parts,
    Arguments.addAll?_append]
  cases Arguments.addAll? {} arrangement.items with
  | none => rfl
  | some given =>
      cases arrangement.after with
      | none => rfl
      | some paths => exact Arguments.takePaths_eq given paths

end Arrangement

namespace Item

def paths (items : List Item) : List String :=
  items.filterMap path?

def widths (items : List Item) : List String :=
  items.filterMap width?

def verbosity (items : List Item) : ℕ :=
  items.countP isVerbose

theorem paths_concat (items : List Item) (item : Item) :
    paths (items ++ [item]) = paths items ++ item.path?.toList := by
  cases item <;> simp [paths, path?]

theorem widths_concat (items : List Item) (item : Item) :
    widths (items ++ [item]) = widths items ++ item.width?.toList := by
  cases item <;> simp [widths, width?]

theorem verbosity_concat (items : List Item) (item : Item) :
    verbosity (items ++ [item]) = verbosity items + item.isVerbose.toNat := by
  cases item <;> simp [verbosity, isVerbose]

end Item

/-- What parts give when they are taken together: the paths in turn, and each option once
at most. -/
structure Arguments.Collect (items : List Item) (given : Arguments) : Prop where
  paths : Item.paths items = given.source.toList ++ given.destination.toList
  ordered : given.source = none → given.destination = none
  destination_ne : given.destination ≠ some ""
  width : List.Forall₂ (fun text width => Indent.WidthText text.toList width)
    (Item.widths items) given.indent.toList
  verbose : Item.verbosity items = given.verbose.toNat

namespace Arguments

theorem addPath?_eq_some_iff {given next : Arguments} {text : String} :
    given.addPath? text = some next ↔
      given.source = none ∧ next = { given with source := some text } ∨
      given.source.isSome ∧ given.destination = none ∧ text ≠ "" ∧
        next = { given with destination := some text } := by
  obtain ⟨source, destination, indent, verbose⟩ := given
  cases source <;> cases destination <;> by_cases htext : text = ""
  all_goals simp [addPath?, htext, eq_comm]

theorem addIndent?_eq_some_iff {given next : Arguments} {text : String} :
    given.addIndent? text = some next ↔
      ∃ width, given.indent = none ∧ Indent.WidthText text.toList width ∧
        next = { given with indent := some width } := by
  simp only [← Indent.ofText?_eq_some_iff]
  obtain ⟨source, destination, indent, verbose⟩ := given
  cases indent <;> cases hwidth : Indent.ofText? text.toList
  all_goals simp [addIndent?, hwidth, eq_comm]

theorem addVerbose?_eq_some_iff {given next : Arguments} :
    given.addVerbose? = some next ↔
      given.verbose = false ∧ next = { given with verbose := true } := by
  obtain ⟨source, destination, indent, verbose⟩ := given
  cases verbose
  all_goals simp [addVerbose?, eq_comm]

variable {items : List Item} {next : Arguments}

theorem collect_concat_path_iff {text : String} :
    Collect (items ++ [.path text]) next ↔
      ∃ given, Collect items given ∧ given.addPath? text = some next := by
  simp only [addPath?_eq_some_iff]
  have hwidths : Item.widths (items ++ [.path text]) = Item.widths items := by
    simp [Item.widths_concat, Item.width?]
  have hcount : Item.verbosity (items ++ [.path text]) = Item.verbosity items :=
    Item.verbosity_concat items _
  constructor
  · rintro ⟨hpaths, hordered, hne, hwidth, hverbose⟩
    obtain ⟨source, destination, indent, verbose⟩ := next
    rw [Item.paths_concat] at hpaths
    rw [hwidths] at hwidth
    rw [hcount] at hverbose
    cases source with
    | none =>
        cases hordered rfl
        simp [Item.path?] at hpaths
    | some first =>
        cases destination with
        | none =>
            have hsplit : Item.paths items ++ [text] = [] ++ [first] := hpaths
            obtain ⟨hbefore, hlast⟩ := List.append_inj' hsplit rfl
            cases hlast
            exact ⟨⟨none, none, indent, verbose⟩,
              ⟨hbefore, fun _ => rfl, by simp, hwidth, hverbose⟩, .inl ⟨rfl, rfl⟩⟩
        | some path =>
            have hsplit : Item.paths items ++ [text] = [first] ++ [path] := hpaths
            obtain ⟨hbefore, hlast⟩ := List.append_inj' hsplit rfl
            cases hlast
            have htext : text ≠ "" := fun heq => hne (congrArg some heq)
            exact ⟨⟨some first, none, indent, verbose⟩,
              ⟨hbefore, fun _ => rfl, by simp, hwidth, hverbose⟩,
              .inr ⟨rfl, rfl, htext, rfl⟩⟩
  · rintro ⟨given, ⟨hpaths, hordered, hne, hwidth, hverbose⟩, hgiven⟩
    rcases hgiven with ⟨hsource, rfl⟩ | ⟨hsource, hdestination, htext, rfl⟩
    · refine ⟨?_, by simp, hne, hwidths ▸ hwidth, hcount ▸ hverbose⟩
      simp [Item.paths_concat, hpaths, hsource, hordered hsource, Item.path?]
    · refine ⟨?_, ?_, ?_, hwidths ▸ hwidth, hcount ▸ hverbose⟩
      · simp [Item.paths_concat, hpaths, hdestination, Item.path?]
      · intro hnone
        rw [show given.source = none from hnone] at hsource
        cases hsource
      · simpa using htext

theorem collect_concat_width_iff {text : String} {joined : Bool} :
    Collect (items ++ [.width text joined]) next ↔
      ∃ given, Collect items given ∧ given.addIndent? text = some next := by
  simp only [addIndent?_eq_some_iff]
  have hpath : Item.paths (items ++ [.width text joined]) = Item.paths items := by
    simp [Item.paths_concat, Item.path?]
  have hcount : Item.verbosity (items ++ [.width text joined]) = Item.verbosity items :=
    Item.verbosity_concat items _
  have hwidths : Item.widths (items ++ [.width text joined]) = Item.widths items ++ [text] :=
    Item.widths_concat items _
  constructor
  · rintro ⟨hpaths, hordered, hne, hwidth, hverbose⟩
    obtain ⟨source, destination, indent, verbose⟩ := next
    rw [hpath] at hpaths
    rw [hcount] at hverbose
    rw [hwidths] at hwidth
    have hlength := hwidth.length_eq
    cases indent with
    | none => simp at hlength
    | some width =>
        have hnil : Item.widths items = [] := by
          simpa using hlength
        rw [hnil] at hwidth
        cases hwidth with
        | cons htext _ =>
            exact ⟨⟨source, destination, none, verbose⟩,
              ⟨hpaths, hordered, hne, hnil ▸ .nil, hverbose⟩, width, rfl, htext, rfl⟩
  · rintro ⟨given, ⟨hpaths, hordered, hne, hwidth, hverbose⟩, width, hnone, htext, rfl⟩
    refine ⟨hpath ▸ hpaths, hordered, hne, ?_, hcount ▸ hverbose⟩
    rw [hnone, Option.toList_none] at hwidth
    rw [hwidths, List.forall₂_nil_right_iff.mp hwidth]
    exact .cons htext .nil

theorem collect_concat_verbose_iff {short : Bool} :
    Collect (items ++ [.verbose short]) next ↔
      ∃ given, Collect items given ∧ given.addVerbose? = some next := by
  simp only [addVerbose?_eq_some_iff]
  have hpath : Item.paths (items ++ [.verbose short]) = Item.paths items := by
    simp [Item.paths_concat, Item.path?]
  have hwidths : Item.widths (items ++ [.verbose short]) = Item.widths items := by
    simp [Item.widths_concat, Item.width?]
  have hcount : Item.verbosity (items ++ [.verbose short]) = Item.verbosity items + 1 :=
    Item.verbosity_concat items _
  constructor
  · rintro ⟨hpaths, hordered, hne, hwidth, hverbose⟩
    obtain ⟨source, destination, indent, verbose⟩ := next
    rw [hpath] at hpaths
    rw [hwidths] at hwidth
    rw [hcount] at hverbose
    cases verbose with
    | false => simp at hverbose
    | true =>
        exact ⟨⟨source, destination, indent, false⟩,
          ⟨hpaths, hordered, hne, hwidth, Nat.succ.inj hverbose⟩, rfl, rfl⟩
  · rintro ⟨given, ⟨hpaths, hordered, hne, hwidth, hverbose⟩, hfalse, rfl⟩
    refine ⟨hpath ▸ hpaths, hordered, hne, hwidths ▸ hwidth, ?_⟩
    rw [hcount, hverbose, hfalse]
    rfl

theorem collect_concat_iff {item : Item} :
    Collect (items ++ [item]) next ↔
      ∃ given, Collect items given ∧ item.addTo? given = some next := by
  cases item with
  | path text => exact collect_concat_path_iff
  | width text joined => exact collect_concat_width_iff
  | verbose short => exact collect_concat_verbose_iff

theorem collect_nil_iff {given : Arguments} : Collect [] given ↔ given = {} := by
  constructor
  · rintro ⟨hpaths, -, -, hwidth, hverbose⟩
    obtain ⟨source, destination, indent, verbose⟩ := given
    cases source <;> cases destination <;> cases indent <;> cases verbose
    all_goals simp_all [Item.paths, Item.widths, Item.verbosity]
  · rintro rfl
    exact ⟨rfl, fun _ => rfl, by simp, .nil, rfl⟩

/-- Parts can be taken in turn exactly if they can be taken together. -/
theorem addAll?_eq_some_iff {given : Arguments} :
    addAll? {} items = some given ↔ Collect items given := by
  induction items using List.reverseRecOn generalizing given with
  | nil =>
      rw [collect_nil_iff, eq_comm]
      exact Option.some_inj
  | append_singleton items item ih =>
      have hlast : ∀ given : Arguments, given.addAll? [item] = item.addTo? given := by
        intro given
        rw [addAll?_cons]
        cases item.addTo? given <;> rfl
      simp only [addAll?_append, Option.bind_eq_some_iff, collect_concat_iff, ih, hlast]

theorem finish_eq_convert_iff {given : Arguments} {source : String}
    {destination : Option String} {indent : Option ℕ} {verbose : Bool} :
    given.finish = .convert source destination indent verbose ↔
      given = ⟨some source, destination, indent, verbose⟩ := by
  obtain ⟨found, path, width, told⟩ := given
  cases found <;> simp [finish]

/-- What settles the matter before the last word is no conversion. -/
def Stops (command : Command) : Prop :=
  ∀ source destination indent verbose, command ≠ .convert source destination indent verbose

theorem stops_of_takeLetters {given : Arguments} {letters : List Char} {command : Command}
    (herror : given.takeLetters letters = .error command) : Stops command := by
  induction letters generalizing given with
  | nil => cases herror
  | cons letter letters ih =>
      rw [takeLetters.eq_def] at herror
      split at herror
      · cases herror
      · next rest heq =>
          cases heq
          split at herror
          · next after hafter => exact ih herror
          · cases herror
            simp [Stops]
      all_goals cases herror; simp [Stops]

theorem stops_of_takeLong {given : Arguments} {name : String} {value : Option String}
    {command : Command} (herror : given.takeLong name value = .error command) :
    Stops command := by
  have hstops : Stops .misused ∧ Stops .showVersion ∧ Stops .showHelp := by
    simp [Stops]
  obtain ⟨hmisused, hversion, hhelp⟩ := hstops
  unfold takeLong at herror
  repeat' split at herror
  all_goals cases herror
  all_goals assumption

theorem stops_of_takeWord {given : Arguments} {word : String} {command : Command}
    (herror : given.takeWord word = .error command) : Stops command := by
  unfold takeWord at herror
  split at herror
  · exact stops_of_takeLong herror
  · exact stops_of_takeLetters herror
  · split at herror
    · cases herror
    · cases herror
      simp [Stops]

theorem exists_parts_cons {given next : Arguments} {item : Item} {words : List String}
    {result : Arguments} (hplain : item.Plain) (hitem : item.addTo? given = some next)
    (hrest : ∃ arrangement : Arrangement, arrangement.words = words ∧
      (∀ item ∈ arrangement.items, item.Plain) ∧
      next.addAll? arrangement.parts = some result) :
    ∃ arrangement : Arrangement, arrangement.words = item.words ++ words ∧
      (∀ item ∈ arrangement.items, item.Plain) ∧
      given.addAll? arrangement.parts = some result := by
  obtain ⟨⟨items, after⟩, rfl, hplains, hparts⟩ := hrest
  refine ⟨⟨item :: items, after⟩, ?_, ?_, ?_⟩
  · rw [Arrangement.words, Arrangement.words, List.flatMap_cons, List.append_assoc]
  · exact List.forall_mem_cons.mpr ⟨hplain, hplains⟩
  · rw [Arrangement.parts, List.cons_append, addAll?_cons, hitem]
    exact hparts

/-- Words that end in a conversion are those of parts, and of paths after the mark. -/
theorem exists_arrangement_of_take {given : Arguments} {words : List String}
    {source : String} {destination : Option String} {indent : Option ℕ} {verbose : Bool}
    (htake : given.take words = .convert source destination indent verbose) :
    ∃ arrangement : Arrangement, arrangement.words = words ∧
      (∀ item ∈ arrangement.items, item.Plain) ∧
      given.addAll? arrangement.parts = some ⟨some source, destination, indent, verbose⟩ := by
  induction given, words using take.induct with
  | case1 given =>
      refine ⟨⟨[], none⟩, rfl, by simp, ?_⟩
      rw [take] at htake
      exact congrArg some (finish_eq_convert_iff.mp htake)
  | case2 given paths =>
      refine ⟨⟨[], some paths⟩, rfl, by simp, ?_⟩
      rw [take, takePaths_eq] at htake
      cases hpaths : given.addAll? (paths.map .path) with
      | none =>
          rw [hpaths] at htake
          cases htake
      | some next =>
          rw [hpaths] at htake
          exact hpaths.trans (congrArg some (finish_eq_convert_iff.mp htake))
  | case3 given => cases htake
  | case4 given text rest next hnext ih =>
      rw [take, hnext] at htake
      have hplain : (Item.width text false).Plain := trivial
      exact exists_parts_cons hplain hnext (ih htake)
  | case5 given text rest hnone =>
      rw [take, hnone] at htake
      cases htake
  | case6 given word rest hend hhalf taken next hnext ih =>
      rw [take_cons hend hhalf, show given.takeWord word = .ok next from hnext] at htake
      obtain ⟨item, hplain, hword, hitem⟩ := exists_item_of_takeWord hnext
      have hrest := exists_parts_cons hplain hitem (ih htake)
      rwa [hword] at hrest
  | case7 given word rest hend hhalf taken command hcommand =>
      rw [take_cons hend hhalf, show given.takeWord word = .error command from hcommand]
        at htake
      exact absurd htake (stops_of_takeWord hcommand _ _ _ _)

end Arguments

namespace Arrangement

/-- What an arrangement gives: its paths are a source and a destination, if there is one,
and a width and the option to be verbose stand in it if they are given. -/
structure Gives (arrangement : Arrangement) (source : String) (destination : Option String)
    (indent : Option ℕ) (verbose : Bool) : Prop where
  plain : ∀ item ∈ arrangement.items, item.Plain
  paths : Item.paths arrangement.items ++ arrangement.after.getD [] =
    source :: destination.toList
  destination_ne : destination ≠ some ""
  width : List.Forall₂ (fun text width => Indent.WidthText text.toList width)
    (Item.widths arrangement.items) indent.toList
  verbose : Item.verbosity arrangement.items = verbose.toNat

theorem paths_parts (arrangement : Arrangement) :
    Item.paths arrangement.parts =
      Item.paths arrangement.items ++ arrangement.after.getD [] := by
  simp [parts, Item.paths, List.filterMap_map, Function.comp_def, Item.path?]

theorem widths_parts (arrangement : Arrangement) :
    Item.widths arrangement.parts = Item.widths arrangement.items := by
  simp [parts, Item.widths, List.filterMap_map, Function.comp_def, Item.width?]

theorem verbosity_parts (arrangement : Arrangement) :
    Item.verbosity arrangement.parts = Item.verbosity arrangement.items := by
  simp [parts, Item.verbosity, List.countP_map, Function.comp_def, Item.isVerbose]

variable {arrangement : Arrangement} {source : String} {destination : Option String}
  {indent : Option ℕ} {verbose : Bool}

theorem gives_iff :
    arrangement.Gives source destination indent verbose ↔
      (∀ item ∈ arrangement.items, item.Plain) ∧
        Arguments.Collect arrangement.parts ⟨some source, destination, indent, verbose⟩ := by
  constructor
  · rintro ⟨hplain, hpaths, hne, hwidth, hverbose⟩
    refine ⟨hplain, (paths_parts arrangement).trans hpaths, ?_, hne,
      (widths_parts arrangement).symm ▸ hwidth, (verbosity_parts arrangement).trans hverbose⟩
    rintro ⟨⟩
  · rintro ⟨hplain, hpaths, -, hne, hwidth, hverbose⟩
    exact ⟨hplain, (paths_parts arrangement).symm.trans hpaths, hne,
      widths_parts arrangement ▸ hwidth, (verbosity_parts arrangement).symm.trans hverbose⟩

/-- A command line asks for a conversion exactly if it is an arrangement that gives it. -/
theorem ofArguments_eq_convert_iff {arguments : List String} :
    Command.ofArguments arguments = .convert source destination indent verbose ↔
      ∃ arrangement : Arrangement, arrangement.words = arguments ∧
        arrangement.Gives source destination indent verbose := by
  simp only [gives_iff, ← Arguments.addAll?_eq_some_iff]
  constructor
  · exact Arguments.exists_arrangement_of_take
  · rintro ⟨arrangement, rfl, hplain, hparts⟩
    rw [ofArguments_words hplain, hparts]
    rfl

end Arrangement

end FlowMigration
