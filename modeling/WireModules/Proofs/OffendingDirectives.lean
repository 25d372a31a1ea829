import WireModules.Proofs.CheckedGlue

/-!
# Directives that offend

Whether a directive of the loaded glue files is at fault is said here without regard to the order in
which they are checked: an export is at fault if its type is not recorded or if its host name was first
claimed for another type, an analyzer if it names no recorded unit or a port that is out of range. The
binder's answer is that no directive is at fault, and otherwise there is one diagnostic for each that is.
-/

set_option autoImplicit false

namespace WireModules

/-- The export that is the first to claim a host name for a recorded type. -/
def Registry.claimant? (registry : Registry) (exports : List ExportDirective) (host : String) :
    Option ExportDirective :=
  exports.find? fun directive => registry.contains directive.source && directive.host = host

/-- An export among others is at fault. -/
def ExportDirective.offends (registry : Registry) (exports : List ExportDirective)
    (directive : ExportDirective) : Bool :=
  !registry.contains directive.source ||
    (registry.claimant? exports directive.host).any fun first => first.source ≠ directive.source

/-- An analyzer can parse with what it names: a recorded unit type. -/
def AnalyzerDirective.ParsesUnit (registry : Registry) (directive : AnalyzerDirective) : Prop :=
  ∃ info, registry.find? directive.unit = some info ∧ info.type.isOfKind .unit = true

/-- An analyzer is at fault. -/
def AnalyzerDirective.offends (registry : Registry) (directive : AnalyzerDirective) : Bool :=
  !(registry.find? directive.unit).any (fun info => info.type.isOfKind .unit) ||
    directive.ports.any fun port => !(1 ≤ port && port ≤ 65535)

theorem AnalyzerDirective.offends_eq_false_iff {registry : Registry} {directive : AnalyzerDirective} :
    directive.offends registry = false ↔
      directive.ParsesUnit registry ∧ ∀ port ∈ directive.ports, 1 ≤ port ∧ port ≤ 65535 := by
  simp [offends, ParsesUnit, Option.any_eq_true]

namespace Glue

variable {registry : Registry} {holders : Holders} {directive : ExportDirective}
  {done rest exports : List ExportDirective}

/-! ## Exports -/

/-- The holders of host names after some exports hold them for the types that claimed them first. -/
def HoldsFirst (registry : Registry) (done : List ExportDirective) (holders : Holders) : Prop :=
  ∀ host, (holder? holders host).map ExportDirective.source =
    (registry.claimant? done host).map ExportDirective.source

theorem claimant?_append (host : String) :
    registry.claimant? (done ++ rest) host =
      (registry.claimant? done host).or (registry.claimant? rest host) :=
  List.find?_append

theorem claimant?_cons_of_contains (known : registry.contains directive.source = true)
    (host : String) : registry.claimant? (directive :: rest) host =
      if directive.host = host then some directive else registry.claimant? rest host := by
  rw [Registry.claimant?, List.find?_cons, known]
  by_cases same : directive.host = host <;> simp [same, Registry.claimant?]

theorem claimant?_cons_of_not_contains (unknown : registry.contains directive.source = false)
    (host : String) :
    registry.claimant? (directive :: rest) host = registry.claimant? rest host := by
  rw [Registry.claimant?, List.find?_cons, unknown]
  simp [Registry.claimant?]

/-- An export has a defect, whatever comes after it, exactly if it is at fault. -/
theorem isSome_exportDefect? (first : HoldsFirst registry done holders) :
    (exportDefect? registry holders directive).isSome =
      directive.offends registry (done ++ directive :: rest) := by
  have sameHolder := first directive.host
  rw [exportDefect?, ExportDirective.offends]
  cases known : registry.contains directive.source with
  | false => simp
  | true =>
    rw [claimant?_append, claimant?_cons_of_contains known, if_pos rfl]
    cases claimed : registry.claimant? done directive.host with
    | none =>
      rw [claimed] at sameHolder
      simp [Option.map_eq_none_iff.mp sameHolder]
    | some claimant =>
      rw [claimed] at sameHolder
      obtain ⟨held, isHeld, sameSource⟩ := Option.map_eq_some_iff.mp sameHolder
      rw [isHeld]
      by_cases same : held.source = directive.source <;> simp [same, ← sameSource]

theorem HoldsFirst.snoc_defect {defect : GlueDefect} (first : HoldsFirst registry done holders)
    (found : exportDefect? registry holders directive = some defect) :
    HoldsFirst registry (done ++ [directive]) holders := by
  intro host
  rw [claimant?_append, first host]
  cases known : registry.contains directive.source with
  | false =>
    rw [claimant?_cons_of_not_contains known]
    simp [Registry.claimant?]
  | true =>
    rw [claimant?_cons_of_contains known]
    split
    · next same =>
      -- The name is taken, so that the directive does not come first.
      have taken : (registry.claimant? done host).isSome = true := by
        have sameHolder := first host
        rw [exportDefect?, if_neg (by simp [known]), same] at found
        cases claimed : registry.claimant? done host with
        | some claimant => rfl
        | none =>
          rw [claimed] at sameHolder
          rw [Option.map_eq_none_iff.mp sameHolder] at found
          cases found
      obtain ⟨claimant, claimed⟩ := Option.isSome_iff_exists.mp taken
      rw [claimed, Option.some_or]
    · simp [Registry.claimant?]

theorem HoldsFirst.snoc_sound (first : HoldsFirst registry done holders)
    (sound : exportDefect? registry holders directive = none) :
    HoldsFirst registry (done ++ [directive]) (directive :: holders) := by
  rw [exportDefect?] at sound
  split at sound
  · cases sound
  next isKnown =>
  have known : registry.contains directive.source = true := by simpa using isKnown
  intro host
  rw [claimant?_append, claimant?_cons_of_contains known, holder?, List.find?_cons]
  by_cases same : directive.host = host
  · subst same
    have sameHolder := first directive.host
    cases claimed : registry.claimant? done directive.host with
    | none => simp
    | some claimant =>
      rw [claimed] at sameHolder
      obtain ⟨held, isHeld, sameSource⟩ := Option.map_eq_some_iff.mp sameHolder
      rw [isHeld] at sound
      have kept : held.source = directive.source := by simpa using sound
      simp [← sameSource, kept]
  · rw [if_neg same]
    simpa [same, Registry.claimant?, holder?] using first host

/-- The exports with a defect are those at fault, in order. -/
theorem map_snd_exportDefects (first : HoldsFirst registry done holders) :
    (exportDefects registry holders rest).map Prod.snd =
      (rest.filter (ExportDirective.offends registry (done ++ rest))).map ExportDirective.span := by
  induction rest generalizing done holders with
  | nil => rfl
  | cons directive rest ih =>
    have own : (exportDefect? registry holders directive).isSome =
        directive.offends registry (done ++ directive :: rest) := isSome_exportDefect? first
    have whole : done ++ directive :: rest = (done ++ [directive]) ++ rest := by simp
    rw [exportDefects, List.filter_cons, ← own]
    cases found : exportDefect? registry holders directive with
    | some defect =>
      dsimp only
      rw [List.map_cons, ih (first.snoc_defect found), whole]
      rfl
    | none =>
      dsimp only
      rw [ih (first.snoc_sound found), whole]
      rfl

/-! ## Analyzers -/

/-- An analyzer can be bound exactly if it is not at fault. -/
theorem isOk_bind (directive : AnalyzerDirective) :
    (bind registry directive).isOk = !directive.offends registry := by
  rw [bind, AnalyzerDirective.offends]
  cases found : registry.find? directive.unit with
  | none => rfl
  | some info =>
    cases ofKind : info.type.isOfKind .unit with
    | false => simp [ofKind, Except.isOk, Except.toBool]
    | true =>
      have ports : (directive.ports.any fun port => !(1 ≤ port && port ≤ 65535)) =
          (directive.ports.find? fun port => !isPort port).isSome :=
        List.isSome_find?.symm
      rw [ports]
      cases wrong : directive.ports.find? fun port => !isPort port <;>
        simp [ofKind, Except.isOk, Except.toBool]

/-- The analyzers with a defect are those at fault, in order. -/
theorem map_snd_analyzerDefects (analyzers : List AnalyzerDirective) :
    (analyzerDefects registry analyzers).map Prod.snd =
      (analyzers.filter (AnalyzerDirective.offends registry)).map AnalyzerDirective.span := by
  induction analyzers with
  | nil => rfl
  | cons directive rest ih =>
    have own : (bind registry directive).isOk = !directive.offends registry := isOk_bind directive
    rw [analyzerDefects] at ih ⊢
    rw [List.filterMap_cons, List.filter_cons]
    cases bound : bind registry directive with
    | error defect =>
      have atFault : directive.offends registry = true := by
        simpa [bound, Except.isOk, Except.toBool] using own
      rw [if_pos atFault, List.map_cons, List.map_cons, ← ih]
    | ok binding =>
      have sound : directive.offends registry = false := by
        simpa [bound, Except.isOk, Except.toBool] using own
      rw [if_neg (by simp [sound]), ← ih]

/-- No analyzer has a defect exactly if none is at fault. -/
theorem analyzerDefects_eq_nil {analyzers : List AnalyzerDirective} :
    analyzerDefects registry analyzers = [] ↔
      ∀ directive ∈ analyzers, directive.offends registry = false := by
  rw [← List.map_eq_nil_iff (f := Prod.snd), map_snd_analyzerDefects, List.map_eq_nil_iff,
    List.filter_eq_nil_iff]
  simp

end Glue

namespace GlueBinder

variable {registry : Registry} {binder : GlueBinder}

/-- The exports of the loaded glue files that are at fault. -/
def offendingExports (binder : GlueBinder) (registry : Registry) : List ExportDirective :=
  binder.exports.filter (ExportDirective.offends registry binder.exports)

/-- The analyzers of the loaded glue files that are at fault. -/
def offendingAnalyzers (binder : GlueBinder) (registry : Registry) : List AnalyzerDirective :=
  binder.analyzers.filter (AnalyzerDirective.offends registry)

/-- There is a diagnostic for each directive at fault, at its place. -/
theorem spans_defectDiagnostics :
    (binder.defectDiagnostics registry).map Diagnostic.span =
      (binder.offendingExports registry).map ExportDirective.span ++
        (binder.offendingAnalyzers registry).map AnalyzerDirective.span := by
  have first : Glue.HoldsFirst registry [] [] := fun _ => rfl
  have exports : (Glue.exportDefects registry [] binder.exports).map Prod.snd =
      (binder.exports.filter (ExportDirective.offends registry ([] ++ binder.exports))).map
        ExportDirective.span := Glue.map_snd_exportDefects first
  rw [List.nil_append] at exports
  rw [offendingExports, offendingAnalyzers, ← Glue.map_snd_analyzerDefects, ← exports,
    defectDiagnostics, List.map_map, List.map_append]
  rfl

/-- No directive has a defect. -/
structure Sound (binder : GlueBinder) (registry : Registry) : Prop where
  known : ∀ directive ∈ binder.exports, registry.contains directive.source = true
  agree : Glue.Agree binder.exports
  parses : ∀ directive ∈ binder.analyzers, directive.ParsesUnit registry
  ports : ∀ directive ∈ binder.analyzers, ∀ port ∈ directive.ports, 1 ≤ port ∧ port ≤ 65535

theorem defectDiagnostics_eq_nil : binder.defectDiagnostics registry = [] ↔ binder.Sound registry := by
  have agree : Glue.Agree [] := by simp [Glue.Agree]
  rw [defectDiagnostics, List.map_eq_nil_iff, List.append_eq_nil_iff,
    Glue.exportDefects_eq_nil agree, List.append_nil, Glue.analyzerDefects_eq_nil]
  constructor
  · intro sound
    obtain ⟨⟨known, agreed⟩, analyzers⟩ := sound
    exact ⟨known, agreed,
      fun directive member => (directive.offends_eq_false_iff.mp (analyzers directive member)).1,
      fun directive member => (directive.offends_eq_false_iff.mp (analyzers directive member)).2⟩
  · intro sound
    exact ⟨⟨sound.known, sound.agree⟩, fun directive member =>
      directive.offends_eq_false_iff.mpr ⟨sound.parses directive member, sound.ports directive member⟩⟩

theorem compile_of_no_defect (attached : binder.attached = true)
    (sound : binder.defectDiagnostics registry = []) :
    (compile registry binder).answer = .ok true ∧ (compile registry binder).state =
      { binder with bindings := Glue.bindings registry binder.analyzers, compiled := true } := by
  simp [compile, attached, sound]

theorem compile_of_defect (attached : binder.attached = true)
    (defective : binder.defectDiagnostics registry ≠ []) :
    (compile registry binder).answer = .ok false ∧ (compile registry binder).state =
      { binder with diagnostics := binder.diagnostics ++ binder.defectDiagnostics registry } := by
  cases found : binder.defectDiagnostics registry with
  | nil => exact absurd found defective
  | cons first rest => simp [compile, attached, found]

/-- An attached binder compiles the glue code exactly if no directive has a defect. It then binds the
analyzers in the order of their directives; otherwise it leaves what it has bound as it is. It keeps the
diagnostics that it has and adds one for each directive at fault, exports first. -/
theorem compile_verdict (attached : binder.attached = true) :
    ∃ granted appended,
      (compile registry binder).answer = .ok granted ∧
      (granted = true ↔ binder.Sound registry) ∧
      (compile registry binder).state.diagnostics = binder.diagnostics ++ appended ∧
      appended.map Diagnostic.span =
        (binder.offendingExports registry).map ExportDirective.span ++
          (binder.offendingAnalyzers registry).map AnalyzerDirective.span ∧
      appended.length =
        (binder.offendingExports registry).length + (binder.offendingAnalyzers registry).length ∧
      (granted = true → (compile registry binder).state.compiled = true ∧
        List.Forall₂ (BoundAnalyzer.Binds registry) binder.analyzers
          (compile registry binder).state.bindings) ∧
      (granted = false → (compile registry binder).state.compiled = binder.compiled ∧
        (compile registry binder).state.bindings = binder.bindings) := by
  have spans : (binder.defectDiagnostics registry).map Diagnostic.span = _ := spans_defectDiagnostics
  have count : (binder.defectDiagnostics registry).length =
      (binder.offendingExports registry).length + (binder.offendingAnalyzers registry).length := by
    simpa using congrArg List.length spans
  by_cases found : binder.defectDiagnostics registry = []
  · have sound : binder.Sound registry := defectDiagnostics_eq_nil.mp found
    obtain ⟨answer, state⟩ := compile_of_no_defect attached found
    refine ⟨true, binder.defectDiagnostics registry, answer, iff_of_true rfl sound, ?_, spans, count,
      fun _ => ?_, fun denied => ?_⟩
    · rw [state, found, List.append_nil]
    · rw [defectDiagnostics, List.map_eq_nil_iff, List.append_eq_nil_iff] at found
      rw [state]
      exact ⟨rfl, Glue.binds_of_analyzerDefects found.2⟩
    · cases denied
  · have unsound : ¬ binder.Sound registry := fun sound => found (defectDiagnostics_eq_nil.mpr sound)
    obtain ⟨answer, state⟩ := compile_of_defect attached found
    refine ⟨false, binder.defectDiagnostics registry, answer,
      iff_of_false Bool.false_ne_true unsound, ?_, spans, count, fun granted => ?_, fun _ => ?_⟩
    · rw [state]
    · cases granted
    · rw [state]
      exact ⟨rfl, rfl⟩

/-- A binder with a diagnostic from before and five directives: of the exports the second asks for a
name that is taken and the third for an unknown type, and one of the analyzers has a port that is none. -/
def faultyBinder : GlueBinder where
  attached := true
  files := [⟨.ofString "p.glue", ⟨[
    .exported ⟨"a::U", "H", { line := some 1 }⟩, .exported ⟨"a::V", "H", { line := some 2 }⟩,
    .exported ⟨"a::W", "W", { line := some 3 }⟩,
    .analyzer ⟨"X", "TCP", "a::U", [80], { line := some 4 }⟩,
    .analyzer ⟨"Y", "TCP", "a::U", [80, 0], { line := some 5 }⟩]⟩⟩]
  diagnostics := [{ message := "earlier" }]

/-- A registry of two unit types. -/
def unitRegistry : Registry where
  strict := false
  types := [⟨"a::U", { kind := .unit, name := "U" }, .external, true, "a", none, {}, .type⟩,
    ⟨"a::V", { kind := .unit, name := "V" }, .external, true, "a", none, {}, .type⟩]

/-- Three of the directives are at fault, and nothing is bound. -/
theorem compile_verdict_faultyBinder : faultyBinder.attached = true ∧
    ∃ appended, (compile unitRegistry faultyBinder).answer = .ok false ∧
      (compile unitRegistry faultyBinder).state.diagnostics = { message := "earlier" } :: appended ∧
      appended.map (fun diagnostic => diagnostic.span.line) = [some 2, some 3, some 5] ∧
      (compile unitRegistry faultyBinder).state.bindings = [] := by
  refine ⟨rfl, ?_⟩
  obtain ⟨granted, appended, answer, verdict, diagnostics, spans, _, _, kept⟩ :=
    @compile_verdict unitRegistry faultyBinder rfl
  cases granted with
  | true =>
    -- The third export asks for a type that is not recorded.
    have known := (verdict.mp rfl).known ⟨"a::W", "W", { line := some 3 }⟩ (by decide)
    exact absurd known (by decide)
  | false =>
    refine ⟨appended, answer, diagnostics, ?_, (kept rfl).2⟩
    have lines := congrArg (List.map Span.line) spans
    rw [List.map_map] at lines
    exact lines.trans (by decide)

end GlueBinder

end WireModules
