import WireModules.Glue.Binder
import WireModules.Proofs.ModuleReading
import WireModules.Proofs.ParsedModule

/-!
# How a reading ends

A text that is read as a module or as a glue file gives what it says, or one diagnostic, or it ends the
reading at an integer literal with too many digits. The last happens exactly if the grammar accepts the
text and such a literal comes before everything else that is wrong with it.
-/

set_option autoImplicit false

namespace WireModules

/-- The first of two steps that goes wrong is what goes wrong. -/
theorem errorOf?_bind {ε α β : Type} {first : Except ε α} {next : α → Except ε β} {later : Option ε}
    (rest : ∀ value, first = .ok value → errorOf? (next value) = later) :
    errorOf? (first >>= next) = (errorOf? first).or later := by
  cases first with
  | error reason => rfl
  | ok value => exact rest value rfl

theorem errorOf?_map {ε α β : Type} {first : Except ε α} {result : α → β} :
    errorOf? (first >>= fun value => pure (result value)) = errorOf? first := by
  cases first <;> rfl

namespace WrittenModule

/-! ## What is checked of a module -/

/-- A literal has to be read, and a name must not be among those taken before it. -/
inductive Check where
  | readable (literal : String)
  | fresh (taken : List String) (name : String) (defect : ModuleDefect)

def Check.error? : Check → Option ModuleError
  | .readable literal => errorOf? (readLiteral literal)
  | .fresh taken name defect => if taken.contains name then some (.defective defect) else none

def labelChecks (taken : List String) : List WrittenLabel → List Check
  | [] => []
  | label :: rest =>
    label.literal.toList.map .readable ++
      .fresh taken label.name (.duplicateLabel label.name label.position) ::
        labelChecks (label.name :: taken) rest

def fieldChecks (type : String) (taken : List String) : List WrittenField → List Check
  | [] => []
  | field :: rest =>
    .fresh taken field.name (.duplicateField field.name type field.position) ::
      fieldChecks type (field.name :: taken) rest

def bodyChecks (type : String) : WrittenBody → List Check
  | .enum labels => labelChecks [] labels
  | .fields _ fields => fieldChecks type [] fields
  | .alias _ => []

/-- The checks of items in order, each item's own before that of its name. -/
def itemChecks (module : String) (taken : List String) : List WrittenItem → List Check
  | [] => []
  | .imported _ _ :: rest => itemChecks module taken rest
  | .constant heading name literal :: rest =>
    .readable literal :: .fresh taken name (.duplicateDecl name module heading.position) ::
      itemChecks module (name :: taken) rest
  | .type heading name body :: rest =>
    bodyChecks name body ++ .fresh taken name (.duplicateDecl name module heading.position) ::
      itemChecks module (name :: taken) rest

/-- All that is checked of a module, in order of the text. -/
def checks (written : WrittenModule) : List Check :=
  itemChecks written.name [] written.items

/-- What goes wrong at the first of some checks that fails. -/
def firstFailing? (checks : List Check) : Option ModuleError :=
  checks.findSome? Check.error?

theorem firstFailing?_cons (check : Check) (rest : List Check) :
    firstFailing? (check :: rest) = check.error?.or (firstFailing? rest) := by
  rw [firstFailing?, List.findSome?_cons]
  cases check.error? <;> rfl

theorem firstFailing?_append (first second : List Check) :
    firstFailing? (first ++ second) = (firstFailing? first).or (firstFailing? second) :=
  List.findSome?_append

theorem errorOf?_buildLabels (labels : List WrittenLabel) (taken : List String) (next : Int) :
    errorOf? (buildLabels taken next labels) = firstFailing? (labelChecks taken labels) := by
  induction labels generalizing taken next with
  | nil => rfl
  | cons label rest ih =>
    have read : errorOf? (label.literal.elim (.ok next) readLiteral) =
        firstFailing? (label.literal.toList.map .readable) := by
      cases label.literal with
      | none => rfl
      | some literal => exact (Option.or_none).symm.trans (firstFailing?_cons (.readable literal) []).symm
    rw [buildLabels, labelChecks, firstFailing?_append, ← read]
    refine errorOf?_bind fun value _ => ?_
    rw [firstFailing?_cons, Check.error?]
    split
    · rfl
    · exact errorOf?_map.trans (ih _ _)

theorem firstFailing?_fieldChecks (type : String) (fields : List WrittenField) (taken : List String) :
    firstFailing? (fieldChecks type taken fields) =
      (firstRepeated? taken fields).map fun field =>
        .defective (.duplicateField field.name type field.position) := by
  induction fields generalizing taken with
  | nil => rfl
  | cons field rest ih =>
    rw [fieldChecks, firstFailing?_cons, Check.error?, firstRepeated?]
    split
    · rfl
    · exact ih _

theorem errorOf?_buildType (module type : String) (heading : Heading) (body : WrittenBody) :
    errorOf? (buildType module heading type body) = firstFailing? (bodyChecks type body) := by
  cases body with
  | enum labels => exact errorOf?_map.trans (errorOf?_buildLabels labels [] 0)
  | fields form fields =>
    rw [bodyChecks, firstFailing?_fieldChecks, buildType]
    cases firstRepeated? [] fields <;> rfl
  | «alias» target => rfl

/-- A module is built unless a check fails, and what goes wrong then is the first check that fails. -/
theorem errorOf?_buildDecls (module : String) (items : List WrittenItem) (taken : List String) :
    errorOf? (buildDecls module taken items) = firstFailing? (itemChecks module taken items) := by
  induction items generalizing taken with
  | nil => rfl
  | cons item rest ih =>
    -- A name is checked after the item that claims it, and the rest after the name.
    have named : ∀ (name : String) (position : Position) (decl : Decl),
        errorOf? (do
          if taken.contains name then
            throw (.defective (.duplicateDecl name module position))
          let decls ← buildDecls module (name :: taken) rest
          return decl :: decls) =
        firstFailing? (.fresh taken name (.duplicateDecl name module position) ::
          itemChecks module (name :: taken) rest) := by
      intro name position decl
      rw [firstFailing?_cons, Check.error?]
      split
      · rfl
      · exact errorOf?_map.trans (ih _)
    rw [buildDecls]
    cases item with
    | imported position name => exact errorOf?_map.trans (ih taken)
    | constant heading name literal =>
      have read : errorOf? (buildDecl module (.constant heading name literal)) =
          Check.error? (.readable literal) := errorOf?_map
      rw [itemChecks, firstFailing?_cons, ← read]
      refine errorOf?_bind fun decl built => ?_
      obtain ⟨value, _, ended⟩ := exists_of_bind_eq_ok built
      cases ended
      exact named name heading.position _
    | type heading name body =>
      have checked : errorOf? (buildDecl module (.type heading name body)) =
          firstFailing? (bodyChecks name body) :=
        errorOf?_map.trans (errorOf?_buildType module name heading body)
      rw [itemChecks, firstFailing?_append, ← checked]
      refine errorOf?_bind fun decl built => ?_
      obtain ⟨typeDecl, builtType, ended⟩ := exists_of_bind_eq_ok built
      cases ended
      have mirrors := mirrors_of_buildType builtType
      rw [← mirrors.ownName, ← mirrors.ownPosition]
      exact named typeDecl.name typeDecl.position _

/-- The first thing that is wrong with a module, in order of the text. -/
def firstError? (written : WrittenModule) : Option ModuleError :=
  firstFailing? written.checks

theorem errorOf?_build (written : WrittenModule) :
    errorOf? written.build = written.firstError? :=
  errorOf?_map.trans (errorOf?_buildDecls written.name written.items [])

/-- No check finds fault with the grammar. -/
theorem firstError?_ne_rejected (written : WrittenModule) (rejection : Rejection) :
    written.firstError? ≠ some (.rejected rejection) := by
  intro first
  obtain ⟨check, _, failed⟩ := List.exists_of_findSome?_eq_some first
  cases check with
  | readable literal =>
    rw [Check.error?, readLiteral] at failed
    cases read : Text.Decimal.read literal <;> rw [read] at failed <;> cases failed
  | fresh taken name defect =>
    rw [Check.error?] at failed
    split at failed <;> cases failed

end WrittenModule

/-! ## Modules -/

/-- An error that is reported by a phase of the tool. -/
structure Diagnostic.ReportedBy (phase : String) (diagnostic : Diagnostic) : Prop where
  phase : diagnostic.phase = some phase
  isError : diagnostic.isError = true

/-- How the reading of a module ends, by what the grammar and the checks say of the text. -/
inductive Module.ReadAs (text : List Char) : Except Text.Decimal.TooLong ModuleReading → Prop where
  | module {written : WrittenModule} {module : Module} : WrittenModule.read text = .ok written →
      written.firstError? = none → written.build = .ok module → ReadAs text (.ok (.ok module))
  | rejected {rejection : Rejection} {diagnostic : Diagnostic} :
      WrittenModule.read text = .error rejection → diagnostic.ReportedBy "parser" →
      ReadAs text (.ok (.error diagnostic))
  | defective {written : WrittenModule} {defect : ModuleDefect} {diagnostic : Diagnostic} :
      WrittenModule.read text = .ok written → written.firstError? = some (.defective defect) →
      diagnostic.ReportedBy "parser" → ReadAs text (.ok (.error diagnostic))
  | tooLong {written : WrittenModule} {refusal : Text.Decimal.TooLong} :
      WrittenModule.read text = .ok written → written.firstError? = some (.tooLong refusal) →
      ReadAs text (.error refusal)

theorem Module.readAs_parse (text : List Char) (file : Option String) :
    ReadAs text (parse text file) := by
  rw [parse, ofText]
  cases read : WrittenModule.read text with
  | error rejection => exact .rejected read ⟨rfl, rfl⟩
  | ok written =>
    have first : errorOf? written.build = written.firstError? := written.errorOf?_build
    dsimp only
    cases built : written.build with
    | ok module =>
      rw [built] at first
      exact .module read first.symm built
    | error error =>
      rw [built] at first
      cases error with
      | rejected rejection => exact absurd first.symm (written.firstError?_ne_rejected rejection)
      | defective defect => exact .defective read first.symm ⟨rfl, rfl⟩
      | tooLong refusal => exact .tooLong read first.symm

/-- The grammar accepts a text, and the first thing that is wrong with it is a literal that is too long. -/
def Module.EndsAt (text : List Char) (refusal : Text.Decimal.TooLong) : Prop :=
  ∃ written, WrittenModule.read text = .ok written ∧ written.firstError? = some (.tooLong refusal)

theorem Module.parse_eq_error_iff {text : List Char} {file : Option String}
    {refusal : Text.Decimal.TooLong} : parse text file = .error refusal ↔ EndsAt text refusal := by
  have ends := readAs_parse text file
  constructor
  · intro failed
    rw [failed] at ends
    cases ends with
    | tooLong read first => exact ⟨_, read, first⟩
  · rintro ⟨written, read, first⟩
    generalize parse text file = result at ends
    cases ends with
    | module readToo none =>
      cases read.symm.trans readToo
      cases first.symm.trans none
    | rejected readToo => cases read.symm.trans readToo
    | defective readToo other =>
      cases read.symm.trans readToo
      cases first.symm.trans other
    | tooLong readToo other =>
      cases read.symm.trans readToo
      cases first.symm.trans other
      rfl

/-- A module, or one error of the parser. -/
inductive Module.Answers : Except Text.Decimal.TooLong ModuleReading → Prop where
  | module (module : Module) : Answers (.ok (.ok module))
  | diagnostic {diagnostic : Diagnostic} : diagnostic.ReportedBy "parser" →
      Answers (.ok (.error diagnostic))

theorem Module.answers_parse_iff {text : List Char} {file : Option String} :
    Answers (parse text file) ↔ ∀ refusal, ¬EndsAt text refusal := by
  constructor
  · intro answers refusal ended
    rw [parse_eq_error_iff.mpr ended] at answers
    cases answers
  · intro never
    have ends := readAs_parse text file
    generalize parse text file = result at ends
    cases ends with
    | module => exact .module _
    | rejected _ reported => exact .diagnostic reported
    | defective _ _ reported => exact .diagnostic reported
    | tooLong read first => exact absurd ⟨_, read, first⟩ (never _)

/-! ## Glue files -/

namespace WrittenDirective

/-- The integer literals of a directive. -/
def literals : WrittenDirective → List String
  | .exported _ _ _ => []
  | .analyzer _ _ _ ports _ => ports

/-- The first literal of some directives that is too long. -/
def firstTooLong? (written : List WrittenDirective) : Option Text.Decimal.TooLong :=
  (written.flatMap literals).findSome? fun literal => errorOf? (Text.Decimal.read literal)

theorem errorOf?_readPorts (literals : List String) :
    errorOf? (readPorts literals) =
      literals.findSome? fun literal => errorOf? (Text.Decimal.read literal) := by
  induction literals with
  | nil => rfl
  | cons literal rest ih =>
    have rests : errorOf? (readPorts (literal :: rest)) =
        (errorOf? (Text.Decimal.read literal)).or (errorOf? (readPorts rest)) :=
      errorOf?_bind fun _ _ => errorOf?_map
    rw [rests, ih, List.findSome?_cons]
    cases errorOf? (Text.Decimal.read literal) <;> rfl

theorem errorOf?_build (file : Option String) (written : WrittenDirective) :
    errorOf? (written.build file) =
      written.literals.findSome? fun literal => errorOf? (Text.Decimal.read literal) := by
  cases written with
  | exported source host extent => rfl
  | analyzer name transport unit ports extent => exact errorOf?_map.trans (errorOf?_readPorts ports)

/-- Directives can be used unless a literal is too long. -/
theorem errorOf?_buildAll (file : Option String) (written : List WrittenDirective) :
    errorOf? (buildAll file written) = firstTooLong? written := by
  induction written with
  | nil => rfl
  | cons directive rest ih =>
    rw [firstTooLong?, List.flatMap_cons, List.findSome?_append, ← errorOf?_build file]
    exact errorOf?_bind fun _ _ => errorOf?_map.trans ih

end WrittenDirective

namespace GlueBinder

/-- A path that is not loaded yet and that can be opened. -/
structure Opens (binder : GlueBinder) (path : Path) : Prop where
  absent : binder.hasFile path.normalize = false
  openable : path.normalize.hasNull = false

/-- How a request to load a glue file ends, by what stands in the file. -/
inductive LoadsAs (files : FileSystem) (path : Path) (binder : GlueBinder) :
    Reply GlueBinder Bool → Prop where
  | known : binder.hasFile path.normalize = true → LoadsAs files path binder ⟨binder, [], .ok true⟩
  | null : binder.hasFile path.normalize = false → path.normalize.hasNull = true →
      LoadsAs files path binder ⟨binder, [], .error (.place .nullCharacter)⟩
  | unreadable {error : SourceError} {diagnostic : Diagnostic} {log : List LogRecord} :
      Opens binder path → files.readSource path.normalize = .error error →
      diagnostic.ReportedBy "glue" →
      LoadsAs files path binder
        ⟨{ binder with diagnostics := binder.diagnostics ++ [diagnostic] }, log, .ok false⟩
  | rejected {text : List Char} {rejection : Rejection} {diagnostic : Diagnostic}
      {log : List LogRecord} : Opens binder path → files.readSource path.normalize = .ok text →
      WrittenDirective.read text = .error rejection → diagnostic.ReportedBy "glue" →
      LoadsAs files path binder
        ⟨{ binder with diagnostics := binder.diagnostics ++ [diagnostic] }, log, .ok false⟩
  | loaded {text : List Char} {written : List WrittenDirective} {directives : List Directive}
      {log : List LogRecord} : Opens binder path → files.readSource path.normalize = .ok text →
      WrittenDirective.read text = .ok written → WrittenDirective.firstTooLong? written = none →
      WrittenDirective.buildAll (some (toString path.normalize)) written = .ok directives →
      LoadsAs files path binder
        ⟨{ binder with files := binder.files ++ [⟨path.normalize, ⟨directives⟩⟩] }, log, .ok true⟩
  | tooLong {text : List Char} {written : List WrittenDirective} {refusal : Text.Decimal.TooLong} :
      Opens binder path → files.readSource path.normalize = .ok text →
      WrittenDirective.read text = .ok written →
      WrittenDirective.firstTooLong? written = some refusal →
      LoadsAs files path binder ⟨binder, [], .error (.tooLong refusal)⟩

theorem loadsAs_load (files : FileSystem) (path : Path) (binder : GlueBinder) :
    LoadsAs files path binder (load files path binder) := by
  rw [load]
  split
  · next known => exact .known known
  next absent =>
  split
  · next null => exact .null (by simpa using absent) null
  next openable =>
  have opens : Opens binder path := ⟨by simpa using absent, by simpa using openable⟩
  cases source : files.readSource path.normalize with
  | error error => exact .unreadable opens source ⟨rfl, rfl⟩
  | ok text =>
    dsimp only
    rw [accept, GlueFile.ofText]
    cases read : WrittenDirective.read text with
    | error rejection => exact .rejected opens source read ⟨rfl, rfl⟩
    | ok written =>
      have first := WrittenDirective.errorOf?_buildAll (some (toString path.normalize)) written
      dsimp only
      cases built : WrittenDirective.buildAll (some (toString path.normalize)) written with
      | ok directives =>
        rw [built] at first
        exact .loaded opens source read first.symm built
      | error refusal =>
        rw [built] at first
        exact .tooLong opens source read first.symm

/-- A file is opened, the grammar accepts what stands in it, and a literal in it is too long. -/
def EndsAt (files : FileSystem) (path : Path) (binder : GlueBinder)
    (refusal : Text.Decimal.TooLong) : Prop :=
  Opens binder path ∧ ∃ text written, files.readSource path.normalize = .ok text ∧
    WrittenDirective.read text = .ok written ∧ WrittenDirective.firstTooLong? written = some refusal

theorem load_tooLong_iff {files : FileSystem} {path : Path} {binder : GlueBinder}
    {refusal : Text.Decimal.TooLong} : (load files path binder).answer = .error (.tooLong refusal) ↔
      EndsAt files path binder refusal := by
  have ends := loadsAs_load files path binder
  generalize load files path binder = reply at ends
  constructor
  · intro failed
    cases ends with
    | tooLong opens source read first =>
      cases failed
      exact ⟨opens, _, _, source, read, first⟩
    | _ => cases failed
  · rintro ⟨⟨absent, openable⟩, text, written, source, read, first⟩
    cases ends with
    | known known => cases known.symm.trans absent
    | null _ null => cases null.symm.trans openable
    | unreadable _ unread => cases source.symm.trans unread
    | rejected _ sourceToo rejected =>
      cases source.symm.trans sourceToo
      cases read.symm.trans rejected
    | loaded _ sourceToo readToo none =>
      cases source.symm.trans sourceToo
      cases read.symm.trans readToo
      cases first.symm.trans none
    | tooLong _ sourceToo readToo firstToo =>
      cases source.symm.trans sourceToo
      cases read.symm.trans readToo
      cases first.symm.trans firstToo
      rfl

/-- A file is taken and nothing is reported, or it is refused and one error is reported. -/
inductive Answers (binder : GlueBinder) : Reply GlueBinder Bool → Prop where
  | taken {after : GlueBinder} {log : List LogRecord} : after.diagnostics = binder.diagnostics →
      Answers binder ⟨after, log, .ok true⟩
  | refused {diagnostic : Diagnostic} {log : List LogRecord} : diagnostic.ReportedBy "glue" →
      Answers binder
        ⟨{ binder with diagnostics := binder.diagnostics ++ [diagnostic] }, log, .ok false⟩

theorem Answers.answer_ne_error {binder : GlueBinder} {reply : Reply GlueBinder Bool} {fault : Fault}
    (answers : binder.Answers reply) : reply.answer ≠ .error fault := by
  cases answers <;> nofun

theorem answers_load_iff {files : FileSystem} {path : Path} {binder : GlueBinder} :
    binder.Answers (load files path binder) ↔
      (binder.hasFile path.normalize = true ∨ path.normalize.hasNull = false) ∧
        ∀ refusal, ¬EndsAt files path binder refusal := by
  have ends := loadsAs_load files path binder
  constructor
  · intro answers
    refine ⟨?_, fun refusal ended => ?_⟩
    · generalize load files path binder = reply at ends answers
      cases ends with
      | known known => exact .inl known
      | null => exact absurd rfl answers.answer_ne_error
      | unreadable opens | rejected opens | loaded opens | tooLong opens =>
        exact .inr opens.openable
    · exact answers.answer_ne_error (load_tooLong_iff.mpr ended)
  · rintro ⟨openable, never⟩
    generalize load files path binder = reply at ends
    cases ends with
    | known => exact .taken rfl
    | null absent null => simp [absent, null] at openable
    | unreadable _ _ reported => exact .refused reported
    | rejected _ _ _ reported => exact .refused reported
    | loaded => exact .taken rfl
    | tooLong opens source read first => exact absurd ⟨opens, _, _, source, read, first⟩ (never _)

end GlueBinder

/-- How the reading of a module and the loading of a glue file end, for every text and every file: with
an answer, except at a literal that is too long, which the text tells, and for a path that cannot be
opened. -/
theorem readings_end (text : List Char) (file : Option String) (files : FileSystem) (path : Path)
    (binder : GlueBinder) :
    Module.ReadAs text (Module.parse text file) ∧
      (Module.Answers (Module.parse text file) ↔ ∀ refusal, ¬Module.EndsAt text refusal) ∧
      (∀ refusal, Module.parse text file = .error refusal ↔ Module.EndsAt text refusal) ∧
      GlueBinder.LoadsAs files path binder (GlueBinder.load files path binder) ∧
      (binder.Answers (GlueBinder.load files path binder) ↔
        (binder.hasFile path.normalize = true ∨ path.normalize.hasNull = false) ∧
          ∀ refusal, ¬GlueBinder.EndsAt files path binder refusal) ∧
      ∀ refusal, (GlueBinder.load files path binder).answer = .error (.tooLong refusal) ↔
        GlueBinder.EndsAt files path binder refusal :=
  ⟨Module.readAs_parse text file, Module.answers_parse_iff, fun _ => Module.parse_eq_error_iff,
    GlueBinder.loadsAs_load files path binder, GlueBinder.answers_load_iff,
    fun _ => GlueBinder.load_tooLong_iff⟩

/-! ## A literal that is too long -/

open Word ModuleTree

/-- A module of one constant. -/
def constantText (literal : String) : List Char :=
  "module a;\nconst X = ".toList ++ literal.toList ++ ";\n".toList

def constantWords (literal : String) : List Word :=
  [ofTerminal .module, Word.name "a", ofTerminal .semicolon, ofTerminal .const, Word.name "X",
    ofTerminal .equal, Word.integer literal, ofTerminal .semicolon]

theorem spaced_constantText (literal : String) :
    Spaced false (constantWords literal) (constantText literal) := by
  have blank (char : Char) (isBlank : Layout.isBlank char = true) : Gap [char] := .blank isBlank .nil
  unfold constantWords constantText
  simp only [String.reduceToList]
  refine .word .nil (by decide) (.word (blank ' ' rfl) (by decide) (.word .nil (by decide) ?_))
  refine .word (blank '\n' rfl) (by decide) (.word (blank ' ' rfl) (by decide) ?_)
  refine .word (blank ' ' rfl) (by decide) ?_
  refine .word (blank ' ' rfl) (fun _ _ => List.cons_ne_nil _ _) ?_
  exact .word .nil (fun _ isWord => nomatch isWord) (.done (blank '\n' rfl))

theorem leads_constantWords {literal : String} (isInteger : Scan.isInteger literal.toList = true) :
    ModuleReading.Leads (fun last => ∃ position heading,
      last.finish? = some ⟨position, "a", [.constant heading "X" literal]⟩) .start
        (constantWords literal) := by
  refine ModuleReading.leads_opening (by rfl) fun position => ?_
  exact ModuleReading.leads_constant .unsaid (by rfl) isInteger fun heading _ =>
    ⟨position, heading, rfl⟩

/-- A literal that is too long ends the reading of its module, whatever its digits. -/
theorem parse_constantText {literal : String} (isInteger : Scan.isInteger literal.toList = true)
    (long : Text.Decimal.digitLimit < Text.Decimal.digitCount literal.toList)
    (file : Option String) :
    Module.parse (constantText literal) file =
      .error ⟨Text.Decimal.digitCount literal.toList⟩ := by
  obtain ⟨last, ⟨position, heading, finished⟩, ran⟩ :=
    Machine.runFrom_of_leads (leads_constantWords isInteger) (spaced_constantText literal)
  have unread : WrittenModule.readLiteral literal =
      .error (.tooLong ⟨Text.Decimal.digitCount literal.toList⟩) := by
    rw [WrittenModule.readLiteral, Text.Decimal.read, if_neg (by omega)]
    rfl
  refine Module.parse_eq_error_iff.mpr ⟨_, ran _ finished, ?_⟩
  rw [WrittenModule.firstError?, WrittenModule.checks, WrittenModule.itemChecks,
    WrittenModule.firstFailing?_cons, WrittenModule.Check.error?, unread]
  rfl

/-- A literal of ones. -/
def ones (count : Nat) : String := String.ofList (List.replicate count '1')

theorem isInteger_ones (count : Nat) : Scan.isInteger (ones (count + 1)).toList = true := by
  rw [ones, String.toList_ofList, List.replicate_succ]
  change Scan.isNatural ('1' :: List.replicate count '1') = true
  rw [← List.replicate_succ, Scan.isNatural, List.all_replicate]
  rfl

theorem digitCount_ones (count : Nat) :
    Text.Decimal.digitCount (ones (count + 1)).toList = count + 1 := by
  rw [ones, String.toList_ofList, List.replicate_succ]
  change ('1' :: List.replicate count '1').length = count + 1
  rw [List.length_cons, List.length_replicate]

/-- There is a text that is read neither as a module nor with a diagnostic. -/
theorem parse_neither :
    ¬∀ (text : List Char) (file : Option String), Module.Answers (Module.parse text file) := by
  intro answers
  have long : Text.Decimal.digitLimit < Text.Decimal.digitCount (ones 4301).toList := by
    rw [digitCount_ones]
    decide
  have answer := answers (constantText (ones 4301)) none
  rw [parse_constantText (isInteger_ones 4300) long none] at answer
  cases answer

end WireModules
