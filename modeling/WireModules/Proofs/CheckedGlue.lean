import Mathlib.Data.List.Forall2
import WireModules.CommandLine.Run
import WireModules.Proofs.HostNames
import WireModules.Proofs.ImportSearch

/-!
# Glue files that a run has checked

Glue files are read when they are loaded and checked when a compilation ends. A run that succeeds has
compiled whatever is no glue file among its inputs, and has checked all glue files then. Where all inputs
are glue files there is nothing to compile, and such a run succeeds without a check.
-/

set_option autoImplicit false

namespace WireModules

/-- What a glue file says, if it can be read. -/
def FileSystem.glueFile? (files : FileSystem) (path : Path) : Option GlueFile :=
  match files.readSource path with
  | .error _ => none
  | .ok text => (GlueFile.ofText text (some (toString path))).toOption

def Path.isGlue (path : Path) : Bool :=
  path.inputKind? = some .glue

/-- The glue files among some paths in order, each once. -/
def gluePaths (paths : List Path) : List Path :=
  ((paths.filter Path.isGlue).map Path.normalize).eraseDups

theorem gluePaths_concat_of_isGlue {paths : List Path} {path : Path} (isGlue : path.isGlue = true) :
    gluePaths (paths ++ [path]) =
      if path.normalize ∈ gluePaths paths then gluePaths paths
      else gluePaths paths ++ [path.normalize] := by
  rw [gluePaths, List.filter_append, List.filter_cons_of_pos isGlue, List.filter_nil,
    List.map_append, List.eraseDups_append, gluePaths]
  simp only [List.mem_eraseDups]
  split
  · next present => simp [List.removeAll, present]
  · next absent => simp [List.removeAll, absent, List.eraseDups_cons]

theorem gluePaths_concat_of_not_isGlue {paths : List Path} {path : Path}
    (notGlue : path.isGlue = false) : gluePaths (paths ++ [path]) = gluePaths paths := by
  rw [gluePaths, List.filter_append, List.filter_cons_of_neg (by simp [notGlue]), List.filter_nil,
    List.append_nil]
  rfl

namespace GlueBinder

variable {files : FileSystem} {path : Path} {binder : GlueBinder}

/-- A glue file that is accepted was loaded before or is read, and is kept after those before it. -/
theorem load_granted (granted : (load files path binder).answer = .ok true) :
    binder.hasFile path.normalize = true ∧ (load files path binder).state = binder ∨
      binder.hasFile path.normalize = false ∧ ∃ glue,
        files.glueFile? path.normalize = some glue ∧ (load files path binder).state =
          { binder with files := binder.files ++ [⟨path.normalize, glue⟩] } := by
  rw [load] at granted ⊢
  split at granted
  · next present => exact .inl ⟨present, by rw [if_pos present]⟩
  · next absent =>
    rw [if_neg absent]
    refine .inr ⟨by simpa using absent, ?_⟩
    split at granted
    · cases granted
    · next openable =>
      rw [if_neg openable]
      rw [FileSystem.glueFile?]
      cases read : files.readSource path.normalize with
      | error error =>
        rw [read] at granted
        cases granted
      | ok text =>
        rw [read] at granted
        dsimp only at granted ⊢
        rw [accept] at granted ⊢
        split at granted
        · cases granted
        · cases granted
        · next glue denotes =>
          rw [denotes]
          exact ⟨glue, rfl, rfl⟩

/-- A binder has loaded the glue files among some paths, and has bound nothing yet. -/
structure Holds (files : FileSystem) (paths : List Path) (binder : GlueBinder) : Prop where
  paths : binder.files.map LoadedGlue.path = gluePaths paths
  read : ∀ file ∈ binder.files, files.glueFile? file.path = some file.glue
  unbound : binder.bindings = []

theorem Holds.load {paths : List Path} (holds : binder.Holds files paths) (isGlue : path.isGlue = true)
    (granted : (load files path binder).answer = .ok true) :
    (GlueBinder.load files path binder).state.Holds files (paths ++ [path]) := by
  have known : binder.hasFile path.normalize = true ↔ path.normalize ∈ gluePaths paths := by
    rw [← holds.paths, hasFile, List.any_eq_true, List.mem_map]
    simp
  rcases load_granted granted with ⟨present, state⟩ | ⟨absent, glue, read, state⟩
  · rw [state]
    refine ⟨?_, holds.read, holds.unbound⟩
    rw [gluePaths_concat_of_isGlue isGlue, if_pos (known.mp present), holds.paths]
  · rw [state]
    refine ⟨?_, ?_, holds.unbound⟩
    · have fresh : path.normalize ∉ gluePaths paths := by
        rw [← known, absent]
        simp
      rw [gluePaths_concat_of_isGlue isGlue, if_neg fresh, ← holds.paths, List.map_append]
      rfl
    · exact List.forall_mem_append.mpr ⟨holds.read, List.forall_mem_singleton.mpr read⟩

end GlueBinder

/-- An analyzer is bound as its directive says, to a unit type that is recorded. -/
structure BoundAnalyzer.Binds (registry : Registry) (directive : AnalyzerDirective)
    (binding : BoundAnalyzer) : Prop where
  name : binding.name = directive.name
  transport : binding.transport = directive.transport
  unit : binding.unit = directive.unit
  ports : binding.ports = directive.ports
  recorded : ∃ info, registry.lookup directive.unit (some .unit) = .ok info ∧
    binding.modulePath = info.modulePath

namespace Glue

variable {registry : Registry}

theorem binds_of_bind {directive : AnalyzerDirective} {binding : BoundAnalyzer}
    (bound : bind registry directive = .ok binding) : binding.Binds registry directive := by
  rw [bind] at bound
  split at bound
  · cases bound
  · next info found =>
    split at bound
    · cases bound
    · next isUnit =>
      split at bound
      · cases bound
      · cases bound
        have ofKind : info.type.isOfKind .unit = true := by simpa using isUnit
        refine ⟨rfl, rfl, Session.id_of_find? found, rfl, info, ?_, rfl⟩
        rw [Registry.lookup, found]
        simp [ofKind]

/-- Where no analyzer has a defect, the bindings are those of the analyzers in order. -/
theorem binds_of_analyzerDefects {analyzers : List AnalyzerDirective}
    (sound : analyzerDefects registry analyzers = []) :
    List.Forall₂ (BoundAnalyzer.Binds registry) analyzers (bindings registry analyzers) := by
  induction analyzers with
  | nil => exact .nil
  | cons directive rest ih =>
    rw [analyzerDefects, List.filterMap_cons] at sound
    rw [bindings, List.filterMap_cons]
    cases bound : bind registry directive with
    | error defect => simp [bound] at sound
    | ok binding =>
      rw [bound] at sound
      exact .cons (binds_of_bind bound) (ih sound)

end Glue

namespace CommandLine

open Session

variable {files : FileSystem} {before after : Session GlueBinder}

/-- A session that has loaded some paths and nothing else: the glue files are read, all others wait to be
compiled. -/
structure Prepared (files : FileSystem) (paths : List Path) (session : Session GlueBinder) : Prop where
  glue : session.glue.Holds files paths
  queue : session.queue.isEmpty = paths.all Path.isGlue
  types : session.types = []
  pending : session.needsGlue = true

theorem prepared_start (options : Options) : Prepared files [] (start .standard options {}) where
  glue := ⟨rfl, by simp [start, GlueBinder.coordinator], rfl⟩
  queue := rfl
  types := rfl
  pending := rfl

/-- A queue to which an input was added is not empty. -/
theorem isEmpty_of_add {queue added : Queue} {path : Path} (ran : queue.add files path = .ok added) :
    added.isEmpty = false := by
  rw [Queue.isEmpty, List.isEmpty_eq_false_iff]
  obtain ⟨_, _, ⟨present, rfl⟩ | ⟨_, longer⟩⟩ := Queue.add_ok ran
  · exact List.ne_nil_of_mem present
  · simp [longer]

theorem Prepared.load {paths : List Path} {input path : Path} (prepared : Prepared files paths before)
    (ran : (Session.load .standard files input none).run before = .ok path after) :
    Prepared files (paths ++ [path]) after := by
  have same := (keeps_registry_load files input none).of_run_eq_ok ran
  obtain ⟨registry, needsGlue⟩ := Prod.ext_iff.mp same
  have types : after.types = [] := (congrArg Registry.types registry).trans prepared.types
  have pending : after.needsGlue = true := needsGlue.trans prepared.pending
  rcases (load_ok ran).2 with ⟨kind, granted, state, queue⟩ | ⟨kind, notGlue, queued, glue⟩
  · have isGlue : path.isGlue = true := by simp [Path.isGlue, kind]
    refine ⟨?_, ?_, types, pending⟩
    · rw [state]
      exact prepared.glue.load isGlue granted
    · rw [queue, prepared.queue, List.all_append]
      simp [isGlue]
  · have other : path.isGlue = false := by simp [Path.isGlue, kind, notGlue]
    refine ⟨?_, ?_, types, pending⟩
    · rw [glue]
      obtain ⟨holds, read, unbound⟩ := prepared.glue
      exact ⟨holds.trans (gluePaths_concat_of_not_isGlue other).symm, read, unbound⟩
    · rw [isEmpty_of_add queued, List.all_append]
      simp [other]

/-- After all inputs are loaded, the session has loaded the paths that they stand for. -/
theorem Prepared.loadAll {done inputs : List Path} (prepared : Prepared files done before)
    (ran : (inputs.forM fun input => discard (Session.load .standard files input none)).run before =
      .ok ⟨⟩ after) :
    ∃ paths, List.Forall₂ (fun input path =>
        files.resolveInput input none before.options.searchOrder = .ok path) inputs paths ∧
      Prepared files (done ++ paths) after := by
  induction inputs generalizing done before with
  | nil =>
    cases ran
    exact ⟨[], .nil, by simpa using prepared⟩
  | cons input rest ih =>
    obtain ⟨between, ranFirst, ranRest⟩ := Action.exists_of_run_forM_cons_eq_ok ran
    obtain ⟨path, loaded, ranLoad, ended⟩ := Action.exists_of_run_bind_eq_ok ranFirst
    cases ended
    obtain ⟨resolved, _⟩ := load_ok ranLoad
    have options : between.options = before.options := by
      have tracks : Tracks [] before
          ((Session.load .standard files input none).finalState before) :=
        tracks_load files input none before
      rw [Action.finalState, ranLoad] at tracks
      exact tracks.options
    obtain ⟨paths, others, preparedAll⟩ := ih (prepared.load ranLoad) ranRest
    refine ⟨path :: paths, .cons resolved ?_, ?_⟩
    · rw [options] at others
      exact others
    · rw [List.append_assoc] at preparedAll
      exact preparedAll

/-- What a compilation makes of a session that is prepared for it: if something waits to be compiled,
all glue files are checked, and otherwise nothing changes. -/
theorem Prepared.compile {paths : List Path} {program : Option Program}
    (prepared : Prepared files paths before)
    (ran : (Session.compile .standard files).run before = .ok program after) :
    after.glue.files = before.glue.files ∧
      (paths.all Path.isGlue = true → after = before) ∧
      (paths.all Path.isGlue = false →
        (∀ directive ∈ after.glue.exports, after.registry.contains directive.source = true) ∧
          List.Forall₂ (BoundAnalyzer.Binds after.registry) after.glue.analyzers
            after.glue.bindings) := by
  obtain ⟨queue, unchanged⟩ := isEmpty_queue_of_compile ran
  rw [prepared.queue] at queue
  cases program with
  | none =>
    rw [unchanged rfl]
    exact ⟨rfl, fun _ => rfl, fun waiting => by simp [queue] at waiting⟩
  | some program =>
    -- No step of a compilation before the check loads a glue file.
    obtain ⟨binder, sameFiles, granted, state⟩ :=
      glue_compiled_of_keeps GlueBinder.files (fun _ _ _ => rfl) rfl prepared.pending ran
    obtain ⟨⟨_, bound⟩, compiled⟩ := GlueBinder.compile_ok granted
    obtain ⟨_, known, _⟩ := GlueBinder.compile_granted granted
    have ended : after.glue = { binder with
        bindings := Glue.bindings after.registry binder.analyzers, compiled := true } :=
      state.trans compiled
    refine ⟨by rw [ended]; exact sameFiles, ?_, fun _ => ?_⟩
    · intro allGlue
      simp [queue] at allGlue
    · rw [ended]
      exact ⟨known, Glue.binds_of_analyzerDefects bound⟩

/-- A session has checked some glue files: the types that they export are recorded, and their analyzers
are bound in order. -/
structure HasChecked (session : Session GlueBinder) (glues : List GlueFile) : Prop where
  exported : ∀ glue ∈ glues, ∀ directive ∈ glue.exports,
    session.registry.contains directive.source = true
  bound : List.Forall₂ (BoundAnalyzer.Binds session.registry) (glues.flatMap GlueFile.analyzers)
    session.glue.bindings

theorem HasChecked.contains {session : Session GlueBinder} {glues : List GlueFile} {glue : GlueFile}
    {source : String} (checked : HasChecked session glues) (member : glue ∈ glues)
    (exported : source ∈ glue.exports.map ExportDirective.source) :
    session.registry.contains source = true := by
  obtain ⟨directive, listed, rfl⟩ := List.mem_map.mp exported
  exact checked.exported glue member directive listed

theorem HasChecked.names {session : Session GlueBinder} {glues : List GlueFile}
    (checked : HasChecked session glues) : session.glue.bindings.map BoundAnalyzer.name =
      (glues.flatMap GlueFile.analyzers).map AnalyzerDirective.name := by
  rw [← List.forall₂_eq_eq_eq, List.forall₂_map_left_iff, List.forall₂_map_right_iff]
  exact checked.bound.flip.imp fun _ _ binds => binds.name

/-- What is written at a place is a manifest of what a session has recorded and bound. -/
def Lists (session : Session GlueBinder) (files written : FileSystem) (place : Place) : Prop :=
  ∃ (path : Path) (manifest : Manifest), place = .path path ∧
    files.write path manifest.content = .ok written ∧ manifest.types = session.types ∧
    manifest.analyzers = session.glue.bindings

theorem manifestOf_ok {program : Option Program} {manifest : Manifest}
    (ran : (manifestOf program).run before = .ok manifest after) :
    (manifest.types = before.types ∧ manifest.analyzers = before.glue.bindings) ∧
      after.registry = before.registry ∧ after.glue = before.glue := by
  obtain ⟨_, _, got, ran⟩ := Action.exists_of_run_bind_eq_ok ran
  cases got
  obtain ⟨_, reported, ranExports, ran⟩ := Action.exists_of_run_bind_eq_ok ran
  obtain ⟨_, _, got, ranExports⟩ := Action.exists_of_run_bind_eq_ok ranExports
  cases got
  obtain ⟨_, _, logged, ranExports⟩ := Action.exists_of_run_bind_eq_ok ranExports
  rw [run_emitLog] at logged
  cases logged
  cases ranExports
  obtain ⟨_, _, got, ran⟩ := Action.exists_of_run_bind_eq_ok ran
  cases got
  cases ran
  exact ⟨⟨rfl, rfl⟩, rfl, rfl⟩

theorem writeManifest_ok {manifest : Manifest} {place : Place} {written : FileSystem}
    (ran : (writeManifest manifest files place).run before = .ok written after) :
    after = before ∧ ∃ path, place = .path path ∧
      files.write path manifest.content = .ok written := by
  cases place with
  | nowhere => cases ran
  | path path =>
    unfold writeManifest at ran
    dsimp only at ran
    split at ran
    · cases ran
    · cases writes : files.write path manifest.content with
      | error error =>
        rw [writes] at ran
        cases ran
      | ok others =>
        rw [writes] at ran
        cases ran
        exact ⟨rfl, path, rfl, writes⟩

/-- What a run leaves that succeeds, having worked on its inputs. -/
theorem work_of_success {words : List String} {arguments : Arguments} {bundled : Path}
    {entry : Option String} {outcome : Outcome} (read : Arguments.ofWords words = .ok arguments)
    (works : arguments.printLibraryPath = false) (ran : run words bundled entry files = .ok outcome)
    (success : outcome.status = 0) :
    ∃ session, (work arguments files).run
      (start .standard (optionsOf arguments bundled entry) {}) = .ok outcome.files session := by
  rw [run, read] at ran
  simp only [works, Bool.false_eq_true, if_false] at ran
  split at ran
  · cases ran
    cases success
  · rw [process] at ran
    split at ran
    · next written session worked =>
      cases ran
      exact ⟨session, worked⟩
    · cases ran
      cases success
    · cases ran

/-- What work that is done has loaded, compiled and written. -/
theorem work_ok {arguments : Arguments} {written : FileSystem}
    (ran : (work arguments files).run before = .ok written after) :
    ∃ loaded program compiled,
      (arguments.inputs.forM fun input =>
        discard (Session.load .standard files input none)).run before = .ok ⟨⟩ loaded ∧
      (Session.compile .standard files).run loaded = .ok program compiled ∧
      after.registry = compiled.registry ∧ after.glue = compiled.glue ∧
      ∀ place, arguments.output = some place → Lists after files written place := by
  obtain ⟨_, loaded, ranLoads, ran⟩ := Action.exists_of_run_bind_eq_ok ran
  obtain ⟨program, compiled, ranCompile, ran⟩ := Action.exists_of_run_bind_eq_ok ran
  refine ⟨loaded, program, compiled, ranLoads, ranCompile, ?_⟩
  split at ran
  · next none =>
    cases ran
    exact ⟨rfl, rfl, fun place asked => by rw [none] at asked; cases asked⟩
  · next place asked =>
    obtain ⟨manifest, made, ranManifest, ran⟩ := Action.exists_of_run_bind_eq_ok ran
    obtain ⟨⟨types, analyzers⟩, registry, glue⟩ := manifestOf_ok ranManifest
    obtain ⟨same, path, isPath, writes⟩ := writeManifest_ok ran
    rw [same]
    refine ⟨registry, glue, fun other askedToo => ?_⟩
    cases asked.symm.trans askedToo
    refine ⟨path, manifest, isPath, writes, types.trans ?_, analyzers.trans ?_⟩
    · exact (congrArg Registry.types registry).symm
    · rw [glue]

/-- If a run succeeds that has compiled anything, every export of a glue file among its inputs is of a
recorded type, and its analyzers are bound one by one in the order in which the files were loaded. If
all inputs are glue files, nothing is checked, recorded or bound. A manifest lists what is bound. -/
theorem glue_checked_of_success {words : List String} {arguments : Arguments} {bundled : Path}
    {entry : Option String} {outcome : Outcome} (read : Arguments.ofWords words = .ok arguments)
    (works : arguments.printLibraryPath = false) (ran : run words bundled entry files = .ok outcome)
    (success : outcome.status = 0) :
    let options := optionsOf arguments bundled entry
    ∃ session paths glues,
      (work arguments files).run (start .standard options {}) = .ok outcome.files session ∧
      List.Forall₂ (fun input path =>
        files.resolveInput input none options.searchOrder = .ok path) arguments.inputs paths ∧
      List.Forall₂ (fun path glue => files.glueFile? path = some glue) (gluePaths paths) glues ∧
      (paths.all Path.isGlue = false → HasChecked session glues) ∧
      (paths.all Path.isGlue = true → session.types = [] ∧ session.glue.bindings = []) ∧
      ∀ place, arguments.output = some place → Lists session files outcome.files place := by
  intro options
  obtain ⟨session, worked⟩ := work_of_success read works ran success
  obtain ⟨loaded, program, compiled, ranLoads, ranCompile, registry, glue, output⟩ := work_ok worked
  obtain ⟨paths, resolved, prepared⟩ := (prepared_start options).loadAll ranLoads
  rw [List.nil_append] at prepared
  obtain ⟨sameFiles, idle, checked⟩ := prepared.compile ranCompile
  refine ⟨session, paths, loaded.glue.files.map LoadedGlue.glue, worked, resolved, ?_, ?_, ?_,
    output⟩
  · rw [← prepared.glue.paths, List.forall₂_map_left_iff, List.forall₂_map_right_iff,
      List.forall₂_same]
    exact prepared.glue.read
  · intro waiting
    obtain ⟨known, bound⟩ := checked waiting
    rw [GlueBinder.exports, sameFiles] at known
    rw [GlueBinder.analyzers, sameFiles] at bound
    refine ⟨?_, by rw [registry, glue, List.flatMap_map]; exact bound⟩
    intro file member directive exported
    obtain ⟨own, listed, rfl⟩ := List.mem_map.mp member
    rw [registry]
    exact known directive (List.mem_flatMap.mpr ⟨own, listed, exported⟩)
  · intro allGlue
    rw [types, registry, glue, idle allGlue]
    exact ⟨prepared.types, prepared.glue.unbound⟩

/-- A directory with a runtime module that is empty, a module, and a glue file for it. -/
def gluedDirectory : FileSystem :=
  let module := "module a;\npublic type U = unit \x7b \x7d;\n"
  let glue := "export a::U;\nanalyzer X over TCP: parse with a::U, port 80;\n"
  .ofEntries [("weft_rt.weft", .file "module weft_rt;\n".toUTF8.toList),
    ("a.weft", .file module.toUTF8.toList), ("p.glue", .file glue.toUTF8.toList)]

theorem glueFile?_gluedDirectory : ∃ glue ∈ gluedDirectory.glueFile? (.ofString "p.glue"),
    glue.exports.map ExportDirective.source = ["a::U"] ∧
      glue.analyzers.map AnalyzerDirective.name = ["X"] := by
  decide +kernel

theorem glues_gluedDirectory {paths : List Path} {glues : List GlueFile}
    (one : paths = [.ofString "p.glue"])
    (read : List.Forall₂ (fun path glue => gluedDirectory.glueFile? path = some glue) paths glues) :
    ∃ glue, glues = [glue] ∧ glue.exports.map ExportDirective.source = ["a::U"] ∧
      glue.analyzers.map AnalyzerDirective.name = ["X"] := by
  obtain ⟨glue, given, exports, analyzers⟩ := glueFile?_gluedDirectory
  rw [one] at read
  cases read with
  | cons first rest =>
    cases rest
    cases first.symm.trans given
    exact ⟨glue, rfl, exports, analyzers⟩

/-- The inputs of the directory are found without a search. -/
theorem resolved_gluedDirectory {libraries : List Place} {inputs paths : List Path}
    (members : ∀ input ∈ inputs, input ∈ [Path.ofString "p.glue", .ofString "a.weft"])
    (resolved : List.Forall₂ (fun input path =>
      gluedDirectory.resolveInput input none libraries = .ok path) inputs paths) : paths = inputs := by
  have standing : ∀ input ∈ [Path.ofString "p.glue", .ofString "a.weft"],
      (gluedDirectory.contains input).toOption = some true ∧ input.normalize = input := by
    decide +kernel
  induction resolved with
  | nil => rfl
  | cons found _ ih =>
    obtain ⟨first, rest⟩ := List.forall_mem_cons.mp members
    obtain ⟨present, normal⟩ := standing _ first
    rw [FileSystem.resolveInput_of_contains (eq_ok_of_toOption present), normal] at found
    cases found
    rw [ih rest]

/-- With the module, the analyzer of the glue file is bound, and the manifest lists it. -/
theorem glue_checked_gluedDirectory : ∃ arguments outcome session,
    Arguments.ofWords ["p.glue", "a.weft", "-o", "m.json"] = .ok arguments ∧
    arguments.printLibraryPath = false ∧
    run ["p.glue", "a.weft", "-o", "m.json"] ⟨.relative, []⟩ none gluedDirectory = .ok outcome ∧
    outcome.status = 0 ∧ session.registry.contains "a::U" = true ∧
    session.glue.bindings.map BoundAnalyzer.name = ["X"] ∧
    Lists session gluedDirectory outcome.files (.path (.ofString "m.json")) := by
  have denote : ∃ arguments ∈ (Arguments.ofWords ["p.glue", "a.weft", "-o", "m.json"]).toOption,
      arguments.printLibraryPath = false ∧
        arguments.inputs = [.ofString "p.glue", .ofString "a.weft"] ∧
        arguments.output = some (.path (.ofString "m.json")) := by
    decide +kernel
  have succeeds : ∃ outcome ∈ (run ["p.glue", "a.weft", "-o", "m.json"] ⟨.relative, []⟩ none
      gluedDirectory).toOption, outcome.status = 0 := by
    decide +kernel
  obtain ⟨arguments, reads, works, inputs, output⟩ := denote
  obtain ⟨outcome, ran, success⟩ := succeeds
  obtain ⟨session, paths, glues, _, resolved, read, checked, _, listed⟩ :=
    glue_checked_of_success (eq_ok_of_toOption reads) works (eq_ok_of_toOption ran) success
  rw [inputs] at resolved
  rw [resolved_gluedDirectory (fun _ => id) resolved] at read checked
  obtain ⟨glue, rfl, exports, analyzers⟩ := glues_gluedDirectory rfl read
  have sound := checked rfl
  refine ⟨arguments, outcome, session, eq_ok_of_toOption reads, works, eq_ok_of_toOption ran,
    success, ?_, ?_, listed _ output⟩
  · exact sound.contains (List.mem_singleton_self glue) (by rw [exports]; exact .head _)
  · rw [sound.names, List.flatMap_singleton, analyzers]

/-- Without the module nothing is compiled, and the run succeeds all the same. -/
theorem glue_not_checked :
    ¬ ∀ (files : FileSystem) (words : List String) (arguments : Arguments) (bundled : Path)
        (entry : Option String) (outcome : Outcome), Arguments.ofWords words = .ok arguments →
      arguments.printLibraryPath = false → run words bundled entry files = .ok outcome →
      outcome.status = 0 →
      let options := optionsOf arguments bundled entry
      ∃ session paths glues,
        (work arguments files).run (start .standard options {}) = .ok outcome.files session ∧
        List.Forall₂ (fun input path =>
          files.resolveInput input none options.searchOrder = .ok path) arguments.inputs paths ∧
        List.Forall₂ (fun path glue => files.glueFile? path = some glue) (gluePaths paths) glues ∧
        HasChecked session glues := by
  intro always
  have denote : ∃ arguments ∈ (Arguments.ofWords ["p.glue"]).toOption,
      arguments.printLibraryPath = false ∧ arguments.inputs = [.ofString "p.glue"] ∧
        ((work arguments gluedDirectory).finalState (start .standard
          (optionsOf arguments ⟨.relative, []⟩ none) {})).registry.contains "a::U" = false := by
    decide +kernel
  have succeeds : ∃ outcome ∈ (run ["p.glue"] ⟨.relative, []⟩ none gluedDirectory).toOption,
      outcome.status = 0 := by
    decide +kernel
  obtain ⟨arguments, reads, works, inputs, unknown⟩ := denote
  obtain ⟨outcome, ran, success⟩ := succeeds
  obtain ⟨session, paths, glues, worked, resolved, read, checked⟩ :=
    always gluedDirectory _ arguments _ _ outcome (eq_ok_of_toOption reads) works
      (eq_ok_of_toOption ran) success
  rw [inputs] at resolved
  rw [resolved_gluedDirectory (by simp) resolved] at read
  obtain ⟨glue, rfl, exports, _⟩ := glues_gluedDirectory rfl read
  have known := checked.contains (List.mem_singleton_self glue) (by rw [exports]; exact .head _)
  rw [Action.finalState, worked] at unknown
  exact Bool.false_ne_true (unknown.symm.trans known)

end CommandLine

end WireModules
