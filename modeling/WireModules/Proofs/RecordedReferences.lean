import WireModules.Proofs.Delivery
import WireModules.Proofs.PlainReferences
import WireModules.Proofs.RecordedTypes

/-!
# References and the types that are recorded

Resolution binds a reference to the last declaration of a name in the program; recording keeps the
last record of a name, in two passes over the program. Where users see all or none of the
declarations of each name, the two agree: what a recorded reference is bound to has a record, made of
the declaration to which it was bound and of the kind that it was told.
-/

set_option autoImplicit false

namespace WireModules

namespace Resolve

variable {units : List ProgramUnit}

/-- The definition of a declaration once the program is resolved. -/
def resolvedDefinition (units : List ProgramUnit) (declared : Declared) : TypeDef :=
  (boundDefinition units declared).replaceRefs (annotate (aliasGraph units))

/-- A name is looked up in the last unit that declares it. -/
theorem exists_split_of_lookup {id : String} {declared : Declared}
    (found : (declTable units).lookup id = some declared) :
    ∃ earlier later, units = earlier ++ declared.unit :: later ∧
      ∀ unit ∈ later, id ∉ unit.typeIds := by
  -- The entries of later units come first, so the induction is from the end.
  induction units using List.reverseRecOn with
  | nil => cases found
  | append_singleton units unit ih =>
    have entries : declTable (units ++ [unit]) =
        (unit.module.declaredTypes.map fun decl =>
          (qualify unit.moduleId decl.name, Declared.mk decl unit)).reverse ++ declTable units := by
      simp [declTable]
    rw [entries, List.lookup_append] at found
    cases own : (unit.module.declaredTypes.map fun decl =>
        (qualify unit.moduleId decl.name, Declared.mk decl unit)).reverse.lookup id with
    | some other =>
      rw [own, Option.some_or] at found
      cases found
      obtain ⟨before, after, split, _⟩ := List.lookup_eq_some_iff.mp own
      have member : (id, declared) ∈ (unit.module.declaredTypes.map fun decl =>
          (qualify unit.moduleId decl.name, Declared.mk decl unit)).reverse := by
        rw [split]
        simp
      obtain ⟨decl, _, same⟩ := List.mem_map.mp (List.mem_reverse.mp member)
      cases same
      exact ⟨units, [], rfl, by simp⟩
    | none =>
      rw [own, Option.none_or] at found
      obtain ⟨earlier, later, rfl, absent⟩ := ih found
      refine ⟨earlier, later ++ [unit], by simp, ?_⟩
      intro other member declares
      rcases List.mem_append.mp member with inside | last
      · exact absent other inside declares
      · obtain rfl := List.mem_singleton.mp last
        obtain ⟨decl, listed, named⟩ := List.mem_map.mp declares
        have differs := List.lookup_eq_none_iff.mp own (id, ⟨decl, other⟩)
          (List.mem_reverse.mpr (List.mem_map.mpr ⟨decl, listed, by rw [named]⟩))
        simp at differs

/-- Where a name of a declared type has a kind, the declaration that counts is of this kind. -/
theorem isOfKind_resolvedDefinition (parsed : ∀ unit ∈ units, unit.IsParsed) {module name : String}
    {kind : TypeKind} (final : (aliasGraph units).finalKind (qualify module name) = some kind) :
    ∃ declared, (declTable units).lookup (qualify module name) = some declared ∧
      (resolvedDefinition units declared).isOfKind kind = true := by
  have notBuiltin := not_isBuiltin_qualify module name
  cases AliasGraph.finalKind_eq_some_iff.mp final with
  | scalar builtin => exact absurd (.inl builtin) notBuiltin
  | vector _ builtin => exact absurd (.inr builtin) notBuiltin
  | declared _ declaredKind _ =>
    obtain ⟨declared, found, sameKind⟩ := Option.map_eq_some_iff.mp declaredKind
    refine ⟨declared, found, ?_⟩
    have ownKind : (resolvedDefinition units declared).kind = kind := sameKind
    simp [TypeDef.isOfKind, ownKind]
  | @through _ next _ link denotes =>
    obtain ⟨declared, found, isAlias⟩ := Option.map_eq_some_iff.mp link.2.1
    refine ⟨declared, found, ?_⟩
    have listed := lookup_targets parsed found isAlias
    have bound : (boundDefinition units declared).target.bind TypeRef.resolved = some next := by
      have goesOn := link.2.2
      rw [AliasGraph.target?, listed] at goesOn
      exact goesOn
    obtain ⟨target, hasTarget, resolved⟩ := Option.bind_eq_some_iff.mp bound
    -- An alias is of the kind of its target, which the target was told.
    have ownKind : (resolvedDefinition units declared).kind = .alias := isAlias
    have ownTarget : (resolvedDefinition units declared).target =
        some (annotate (aliasGraph units) target) := by
      simp [resolvedDefinition, TypeDef.replaceRefs, hasTarget]
    have kindOfTarget : (annotate (aliasGraph units) target).kind = some kind := by
      rw [kind_annotate, resolved]
      exact AliasGraph.finalKind_eq_some_iff.mpr denotes
    rw [TypeDef.isOfKind, ownKind, ownTarget]
    simp only [kindOfTarget, decide_true, Bool.and_true, Bool.or_true]

/-- Every node of a resolved definition that is bound has the kind that its target denotes. -/
theorem exists_kind_of_mem_nodes (known : AllKnown units) {declared : Declared}
    (member : declared ∈ declarations units) {ref node : TypeRef}
    (isRef : ref ∈ (resolvedDefinition units declared).refs) (inside : node ∈ ref.nodes)
    {target : String} (bound : node.resolved = some target) :
    ∃ kind, node.kind = some kind ∧ (aliasGraph units).finalKind target = some kind := by
  rw [resolvedDefinition, TypeDef.refs_replaceRefs] at isRef
  obtain ⟨source, listed, rfl⟩ := List.mem_map.mp isRef
  rw [nodes_annotate] at inside
  obtain ⟨sourceNode, sourceInside, rfl⟩ := List.mem_map.mp inside
  rw [resolved_annotate] at bound
  have final := (known declared member source listed sourceNode sourceInside).2
  rw [bound, Option.bind_some] at final
  obtain ⟨kind, final⟩ := Option.isSome_iff_exists.mp final
  refine ⟨kind, ?_, final⟩
  rw [kind_annotate, bound]
  exact final

end Resolve

theorem ProgramUnit.exists_decl_of_described {unit : ProgramUnit} {phase : Bool}
    {decls : List TypeDecl} {infos : List TypeRecord} {info : TypeRecord}
    (described : Described unit phase decls infos) (member : info ∈ infos) :
    ∃ decl ∈ decls, info.Describes unit decl phase := by
  induction described with
  | nil => cases member
  | cons first _ ih =>
    rcases List.mem_cons.mp member with rfl | later
    · exact ⟨_, .head _, first⟩
    · obtain ⟨decl, inside, describes⟩ := ih later
      exact ⟨decl, .tail _ inside, describes⟩

/-- Every record of some units is of a type that users see in one of them. -/
theorem CompileEvent.Records.exists_source {units : List ProgramUnit} {infos : List TypeRecord}
    {event : ProgramUnit → CompileEvent} {phase : Bool}
    (about : ∀ unit, (event unit).records = unit.shownRecords phase)
    (recorded : Records (units.map event) infos) {info : TypeRecord} (member : info ∈ infos) :
    ∃ unit ∈ units, ∃ decl ∈ unit.module.declaredTypes, info.Describes unit decl phase := by
  induction units generalizing infos with
  | nil =>
    cases recorded
    cases member
  | cons unit rest ih =>
    cases recorded with
    | cons own others =>
      rcases List.mem_append.mp member with first | later
      · rw [about, ProgramUnit.shownRecords] at own
        by_cases visible : unit.isUserVisible = true
        · have shown : unit.shownRecords phase = .ok _ := own
          obtain ⟨decl, inside, describes⟩ := ProgramUnit.exists_decl_of_described
            (ProgramUnit.described_of_shownRecords visible shown) first
          exact ⟨unit, .head _, decl, inside, describes⟩
        · rw [if_neg visible] at own
          cases own
          cases first
      · obtain ⟨source, listed, found⟩ := ih others later
        exact ⟨source, .tail _ listed, found⟩

namespace Registry

variable {types infos : List TypeRecord} {info own : TypeRecord}

theorem mem_of_mem_putAmong (member : info ∈ putAmong own types) : info = own ∨ info ∈ types := by
  induction types with
  | nil => exact .inl (List.mem_singleton.mp member)
  | cons first rest ih =>
    rw [putAmong] at member
    split at member
    · exact (List.mem_cons.mp member).imp_right (.tail _)
    · rcases List.mem_cons.mp member with rfl | later
      · exact .inr (.head _)
      · exact (ih later).imp_right (.tail _)

theorem mem_of_mem_recordIn (member : info ∈ recordIn types own) : info = own ∨ info ∈ types := by
  rw [recordIn] at member
  split at member
  · exact mem_of_mem_putAmong member
  · split at member
    · exact .inr member
    · exact mem_of_mem_putAmong member

/-- What a registry holds after some records is one of them, or was held before. -/
theorem mem_of_mem_foldl_recordIn (member : info ∈ infos.foldl recordIn types) :
    info ∈ infos ∨ info ∈ types := by
  induction infos generalizing types with
  | nil => exact .inr member
  | cons first rest ih =>
    rcases ih member with later | held
    · exact .inl (.tail _ later)
    · rcases mem_of_mem_recordIn held with rfl | before
      · exact .inl (.head _)
      · exact .inr before

end Registry

/-- No type is declared both in a unit that users see and in one that they do not see. -/
def ProgramUnit.Unmixed (units : List ProgramUnit) : Prop :=
  ∀ unit ∈ units, unit.isUserVisible = false → ∀ id ∈ unit.typeIds, id ∉ visibleIds units

instance (units : List ProgramUnit) : Decidable (ProgramUnit.Unmixed units) :=
  inferInstanceAs (Decidable (∀ unit ∈ units, unit.isUserVisible = false →
    ∀ id ∈ unit.typeIds, id ∉ ProgramUnit.visibleIds units))

/-- The program that a compilation gives is what was read, with every reference bound. -/
theorem Compilation.program_of_ofQueue {files : FileSystem} {options : Options} {queue : Queue}
    {program : Program} (compiled : (ofQueue files options queue).outcome = .ok program) :
    program = (Loading.ofQueue files options queue).program ∧
      (∀ unit ∈ (Loading.ofQueue files options queue).units, unit.IsParsed) ∧
      Resolve.AllKnown (Loading.ofQueue files options queue).units := by
  have parsed := (Loading.ended_ofQueue files options queue).isParsed
  rcases hooks_ofQueue files options queue with ⟨⟨fault, failed⟩, _⟩ | ⟨complete, given, _⟩
  · cases failed.symm.trans compiled
  · cases given.symm.trans compiled
    exact ⟨rfl, parsed, (Resolve.diagnostics_eq_nil_iff_allKnown parsed).mp complete.silent⟩

namespace Resolve

variable {units : List ProgramUnit} {program : Program} {before after : Registry}

/-- What is recorded under a name is made of the declaration that counts. -/
theorem recorded_of_lookup (resolved : program.units = (Resolution.ofUnits units).units)
    (unmixed : ProgramUnit.Unmixed program.units) (recorded : program.RecordedIn before after)
    {id : String} (visible : id ∈ ProgramUnit.visibleIds program.units) {declared : Declared}
    (found : (declTable units).lookup id = some declared) :
    ∃ info, after.find? id = some info ∧ info.type = resolvedDefinition units declared ∧
      info.modulePath = declared.unit.path := by
  obtain ⟨listed, rfl⟩ := lookup_declTable found
  obtain ⟨unitListed, inside⟩ := mem_declarations_iff.mp listed
  obtain ⟨earlier, later, split, absent⟩ := exists_split_of_lookup found
  let resolve : ProgramUnit → ProgramUnit := fun unit =>
    resolveUnit (scopeOf units unit) (aliasGraph units) unit
  have unitsOf : program.units =
      earlier.map resolve ++ resolve declared.unit :: later.map resolve := by
    rw [resolved]
    change units.map resolve = _
    rw [← List.map_cons, ← List.map_append, ← split]
  have declares : declared.id ∈ (resolve declared.unit).typeIds := by
    rw [ProgramUnit.typeIds_resolveUnit]
    exact List.mem_map.mpr ⟨declared.decl, inside, rfl⟩
  -- Were the unit hidden, the name would be mixed.
  have userVisible : (resolve declared.unit).isUserVisible = true := by
    by_contra hidden
    refine unmixed _ ?_ (by simpa using hidden) _ declares visible
    rw [unitsOf]
    simp
  have last : declared.id ∉ ProgramUnit.visibleIds (later.map resolve) := by
    intro again
    obtain ⟨other, otherListed, repeated⟩ := List.mem_flatMap.mp again
    obtain ⟨source, sourceListed, rfl⟩ := List.mem_map.mp (List.mem_filter.mp otherListed).1
    rw [ProgramUnit.typeIds_resolveUnit] at repeated
    exact absent source sourceListed repeated
  have resolvedListed : resolvedType (scopeOf units declared.unit) (aliasGraph units) declared.decl ∈
      (resolve declared.unit).module.declaredTypes := by
    rw [declaredTypes_resolveUnit]
    exact List.mem_map_of_mem inside
  obtain ⟨info, held, describes⟩ :=
    recorded.latest _ _ _ unitsOf userVisible _ resolvedListed last
  have sameType : Except.ok (resolvedDefinition units declared) =
      (Except.ok info.type : Except ExtractError TypeDef) := describes.definition
  exact ⟨info, held, (Except.ok.inj sameType).symm, describes.modulePath⟩

end Resolve

namespace Session

variable {γ : Type} {environment : Environment γ} {before after : Session γ}

/-- A session has a record for what a node is bound to: the record is of the kind that the node was
told and comes from the file of the declaration that counts among some units. -/
def Agrees (session : Session γ) (units : List ProgramUnit) (node : TypeRef) (target : String) :
    Prop :=
  ∃ kind found declared, node.kind = some kind ∧ session.lookup target none = .ok found ∧
    found.type.isOfKind kind = true ∧
    (Resolve.declTable units).lookup target = some declared ∧
    found.modulePath = declared.unit.path

/-- Only the second pass over a program records references that are bound. -/
theorem exists_declared_of_bound {units read : List ProgramUnit} {program : Program}
    {written resolved : List TypeRecord} (parsed : ∀ unit ∈ units, unit.IsParsed)
    (sameUnits : program.units = (Resolution.ofUnits read).units)
    (writtenRecorded : CompileEvent.Records (units.map .parsed) written)
    (resolvedRecorded : CompileEvent.Records (program.units.map .resolved) resolved)
    {info : TypeRecord} (member : info ∈ written ++ resolved) {ref node : TypeRef}
    (isRef : ref ∈ info.type.refs) (inside : node ∈ ref.nodes) {target : String}
    (bound : node.resolved = some target) :
    ∃ declared ∈ Resolve.declarations read, info.type = Resolve.resolvedDefinition read declared := by
  rcases List.mem_append.mp member with early | late
  · obtain ⟨unit, listed, decl, declares, describes⟩ :=
      writtenRecorded.exists_source (fun _ => rfl) early
    have sameType : Except.ok decl.definition = (Except.ok info.type : Except ExtractError TypeDef) :=
      describes.definition
    have plain := (parsed unit listed).parsed.isPlain declares
    rw [Except.ok.inj sameType] at plain
    have unbound := ((plain ref isRef).unbound node inside).1
    cases unbound.symm.trans bound
  · obtain ⟨unit, listed, decl, declares, describes⟩ :=
      resolvedRecorded.exists_source (fun _ => rfl) late
    rw [sameUnits] at listed
    obtain ⟨source, sourceListed, rfl⟩ := List.mem_map.mp listed
    rw [Resolve.declaredTypes_resolveUnit] at declares
    obtain ⟨own, ownListed, rfl⟩ := List.mem_map.mp declares
    refine ⟨⟨own, source⟩, Resolve.mem_declarations_iff.mpr ⟨sourceListed, ownListed⟩, ?_⟩
    have sameType : Except.ok (Resolve.resolvedDefinition read ⟨own, source⟩) =
        (Except.ok info.type : Except ExtractError TypeDef) := describes.definition
    exact (Except.ok.inj sameType).symm

/-- Whatever was loaded and compiled before, after a compilation that gives a program every bound
reference that it has recorded agrees with the record of its target, provided that no type is declared
both where users see it and where they do not. -/
theorem references_agree (standard : environment.frontEnd = .standard)
    (calm : environment.host.IsCalm) {files : FileSystem} {program : Program}
    (reached : Reached environment before)
    (ran : (compile environment files).run before = .ok (some program) after)
    (unmixed : ProgramUnit.Unmixed program.units) :
    ∃ infos, after.toldTypes = before.toldTypes ++ infos ∧
      (∀ info ∈ after.types, info ∈ infos ∨ info ∈ before.types) ∧
      ∀ info ∈ infos, ∀ ref ∈ info.type.refs, ∀ node ∈ ref.nodes, ∀ target,
        node.resolved = some target → target ∈ ProgramUnit.visibleIds program.units →
          after.Agrees (Loading.ofQueue files before.options before.queue).units node target := by
  obtain ⟨infos, tracks, holds⟩ := tracks_compile calm files before
  obtain ⟨running, _, compiled, recordedEvents⟩ := holds program after ran
  rw [Action.finalState, ran] at tracks
  rw [compilation, standard] at compiled recordedEvents
  obtain ⟨sameProgram, parsed, known⟩ := Compilation.program_of_ofQueue compiled
  obtain ⟨units, written, resolved, unitsParsed, _, rfl, writtenRecorded, resolvedRecorded⟩ :=
    Compilation.records_of_ofQueue compiled recordedEvents
  have settled := (settled_of_reached standard calm reached).resolve_left (by simp [running])
  have recorded := (recordedIn_of_compile standard calm ran settled).1
  have sameUnits : program.units =
      (Resolution.ofUnits (Loading.ofQueue files before.options before.queue).units).units := by
    rw [sameProgram]
    rfl
  refine ⟨written ++ resolved, tracks.told, ?_, ?_⟩
  · intro info member
    rw [types, tracks.types] at member
    exact Registry.mem_of_mem_foldl_recordIn member
  · intro info member ref isRef node inside target bound visible
    obtain ⟨source, sourceListed, sameType⟩ := exists_declared_of_bound unitsParsed sameUnits
      writtenRecorded resolvedRecorded member isRef inside bound
    rw [sameType] at isRef
    obtain ⟨kind, told, final⟩ :=
      Resolve.exists_kind_of_mem_nodes known sourceListed isRef inside bound
    obtain ⟨unit, _, declares⟩ := List.mem_flatMap.mp visible
    obtain ⟨decl, _, rfl⟩ := List.mem_map.mp declares
    obtain ⟨declared, found, ofKind⟩ := Resolve.isOfKind_resolvedDefinition parsed final
    obtain ⟨record, held, ownType, path⟩ :=
      Resolve.recorded_of_lookup sameUnits unmixed recorded visible found
    refine ⟨kind, record, declared, told, ?_, ?_, found, path⟩
    · rw [lookup, Registry.lookup, held]
      rfl
    · rw [ownType]
      exact ofKind

/-- Two files of one module that declare a type of one name, and a module that refers to it. -/
def redeclaringFiles : FileSystem :=
  .ofEntries
    [("a.weft", .file "module m;\npublic type T = bool;\n".toUTF8.toList),
      ("b.weft", .file "module m;\ntype S = real;\npublic type T = S;\n".toUTF8.toList),
      ("c.weft", .file "module c;\nimport m;\ntype U = vector<m::T>;\n".toUTF8.toList)]

def addRedeclaring (session : Session GlueBinder) (file : String) : Session GlueBinder :=
  (load .standard redeclaringFiles (.ofString file) none).finalState session

/-- A session in which the three are loaded. -/
def redeclaring : Session GlueBinder :=
  ["a.weft", "b.weft", "c.weft"].foldl addRedeclaring
    (start .standard .plain {})

theorem reached_redeclaring : Reached .standard redeclaring := by
  have adds : ∀ (added : List String) {session : Session GlueBinder}, Reached .standard session →
      Reached .standard (added.foldl addRedeclaring session) := by
    intro added
    induction added with
    | nil => exact id
    | cons file rest ih => exact fun reached => ih (.load _ _ _ reached)
  exact adds _ (.start _ _)

/-- The argument of a type is bound to the later declaration, and has the record of that one. -/
theorem redeclared_reference_agrees :
    ∃ program after, (compile .standard redeclaringFiles).run redeclaring = .ok (some program) after ∧
      ProgramUnit.Unmixed program.units ∧
      ∃ info ∈ after.toldTypes, ∃ ref ∈ info.type.refs, ∃ node ∈ ref.args,
        node.resolved = some "m::T" ∧
        after.Agrees (Loading.ofQueue redeclaringFiles redeclaring.options redeclaring.queue).units
          node "m::T" := by
  have compiled : ∃ program ∈ ((compile .standard redeclaringFiles).outcome? redeclaring).join,
      ProgramUnit.Unmixed program.units ∧ "m::T" ∈ ProgramUnit.visibleIds program.units := by
    decide +kernel
  have refers : redeclaring.toldTypes = [] ∧
      ∃ info ∈ ((compile .standard redeclaringFiles).finalState redeclaring).toldTypes,
        ∃ ref ∈ info.type.refs, ∃ node ∈ ref.args, node ∈ ref.nodes ∧
          node.resolved = some "m::T" := by
    decide +kernel
  obtain ⟨program, given, unmixed, visible⟩ := compiled
  have ran := Action.run_eq_ok_of_outcome? (Option.join_eq_some_iff.mp given)
  obtain ⟨fresh, info, told, ref, isRef, node, isArg, inside, bound⟩ := refers
  obtain ⟨infos, sameTold, _, agrees⟩ :=
    references_agree rfl isCalm_silent reached_redeclaring ran unmixed
  rw [fresh, List.nil_append] at sameTold
  exact ⟨program, _, ran, unmixed, info, told, ref, isRef, node, isArg, bound,
    agrees info (sameTold ▸ told) ref isRef node inside "m::T" bound visible⟩

end Session

end WireModules
