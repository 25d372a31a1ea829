import WireModules.Proofs.Agreement
import WireModules.Proofs.CycleReports
import WireModules.Proofs.ModuleNames
import WireModules.Proofs.QualifiedNames
import WireModules.Proofs.Spelling

/-!
# Fully qualified programs

Once a program is resolved, its definitions can be written out with every reference spelled by the
name that it is bound to. A plain name is looked up where it stands, a qualified one only if its
module is visible there; still the program that is written out means the same, because what a plain
name is bound to stands in the module itself or in the prelude, which are always visible.
-/

set_option autoImplicit false

namespace WireModules

namespace TypeDecl

/-- A resolved declaration written out anew, with every reference spelled as it is shown. -/
def fullyQualified (decl : TypeDecl) : TypeDecl :=
  match decl.resolved with
  | none => decl
  | some definition =>
    { decl with
      definition := definition.replaceRefs fun ref => ref.spelledOut.erased
      fields := decl.fields.zipWith (fun field typed =>
        { field with ref := typed.ref.spelledOut.erased }) definition.fields
      resolved := none }

/-- What is written out reads as the resolved definition is shown. -/
theorem render_fullyQualified {decl : TypeDecl} {definition : TypeDef}
    (resolved : decl.resolved = some definition) :
    decl.fullyQualified.definition.refs.map TypeRef.render =
      definition.refs.map TypeRef.render := by
  simp only [fullyQualified, resolved, TypeDef.refs_replaceRefs, List.map_map]
  apply List.map_congr_left
  intro ref _
  exact ref.render_erased_spelledOut

/-- What the references of a resolved declaration mean. -/
def meaning (decl : TypeDecl) : Option TypeDef :=
  decl.resolved.map (TypeDef.replaceRefs TypeRef.meaning)

end TypeDecl

/-- The declared types of a module by what their references mean. -/
def ProgramUnit.meanings (unit : ProgramUnit) : List (Option TypeDef) :=
  unit.module.declaredTypes.map TypeDecl.meaning

/-- A program with every reference spelled by what it is bound to. -/
def fullyQualified (units : List ProgramUnit) : List ProgramUnit :=
  (Resolution.ofUnits units).units.map (ProgramUnit.mapTypes TypeDecl.fullyQualified)

theorem lookup_map_snd {α β : Type} (change : α → β) (entries : List (String × α)) (key : String) :
    (entries.map fun entry => (entry.1, change entry.2)).lookup key =
      (entries.lookup key).map change := by
  induction entries with
  | nil => rfl
  | cons entry rest ih =>
    obtain ⟨own, value⟩ := entry
    simp only [List.map_cons, List.lookup_cons]
    cases key == own <;> simp [ih]

namespace Resolve

/-! ## Binding a spelled out reference -/

/-- A scope in which what a name is bound to is a qualified name that is bound to itself. -/
def Scope.Canonical (scope : Scope) : Prop :=
  ∀ name id, bindName scope name = .ok id →
    (∃ module own, id = qualify module own) ∧ bindName scope id = .ok id

variable {scope : Scope}

theorem bindNode_of_isBuiltin {name : String} {args others : List TypeRef}
    (builtin : AliasGraph.IsBuiltin name) (bound : (bindNode scope name args).2 = [])
    (sameLength : others.length = args.length) :
    bindNode scope name others = ({ name, args := others, resolved := some name }, []) := by
  rw [bindNode] at bound ⊢
  split at bound
  · next arity generic =>
    split at bound
    · next fits => simp [sameLength, fits]
    · cases bound
  · next plain =>
    have scalar : isBuiltinScalar name = true := by
      rcases builtin with scalar | generic
      · exact scalar
      · simp [plain] at generic
    cases args with
    | nil =>
      obtain rfl : others = [] := by simpa using sameLength
      simp [scalar]
    | cons first rest => simp at bound

theorem bindNode_of_bindName {name id : String} (notBuiltin : ¬AliasGraph.IsBuiltin name)
    (found : bindName scope name = .ok id) :
    bindNode scope name [] = ({ name, resolved := some id }, []) := by
  obtain ⟨notScalar, notGeneric⟩ := not_or.mp notBuiltin
  have plain : genericArity? name = none := by simpa using notGeneric
  rw [bindNode, plain]
  simp [notScalar, found]

theorem exists_of_bindNode {name : String} {args : List TypeRef}
    (notBuiltin : ¬AliasGraph.IsBuiltin name) (bound : (bindNode scope name args).2 = []) :
    args = [] ∧ ∃ id, bindName scope name = .ok id := by
  obtain ⟨notScalar, notGeneric⟩ := not_or.mp notBuiltin
  have plain : genericArity? name = none := by simpa using notGeneric
  rw [bindNode, plain] at bound
  cases args with
  | nil =>
    cases found : bindName scope name with
    | error reason => simp [notScalar, found] at bound
    | ok id => exact ⟨rfl, id, rfl⟩
  | cons first rest => simp at bound

/-- A node that is bound to a type is bound to it too when it is spelled by its name. -/
theorem bindNode_spelledOut (canonical : scope.Canonical) {name : String}
    {args others : List TypeRef} (sameLength : others.length = args.length)
    (bound : (bindNode scope name args).2 = []) :
    ∃ id, (bindNode scope name args).1 = { name, args, resolved := some id } ∧
      TypeRef.shownName { name, resolved := some id } = id ∧
      bindNode scope id others = ({ name := id, args := others, resolved := some id }, []) := by
  by_cases builtin : AliasGraph.IsBuiltin name
  · refine ⟨name, ?_, by simp [TypeRef.shownName], bindNode_of_isBuiltin builtin bound sameLength⟩
    rw [bindNode_of_isBuiltin builtin bound rfl]
  · obtain ⟨rfl, id, found⟩ := exists_of_bindNode builtin bound
    obtain rfl : others = [] := by simpa using sameLength
    obtain ⟨⟨module, own, rfl⟩, again⟩ := canonical name id found
    refine ⟨qualify module own, ?_, ?_, ?_⟩
    · rw [bindNode_of_bindName builtin found]
    · have filled : qualify module own ≠ "" := by
        intro empty
        have chars := congrArg String.toList empty
        rw [toList_qualify] at chars
        simp at chars
      simp [TypeRef.shownName, filled]
    · exact bindNode_of_bindName (not_isBuiltin_qualify module own) again

theorem bindRef_spelledOut (canonical : scope.Canonical) {ref : TypeRef}
    (bound : (bindRef scope ref).2 = []) :
    bindRef scope (bindRef scope ref).1.spelledOut.erased =
      ((bindRef scope ref).1.spelledOut, []) := by
  induction ref using TypeRef.argsInduction with
  | node name args resolved kind ih =>
    rw [bindRef_mk] at bound ⊢
    obtain ⟨argsBound, ownBound⟩ := List.append_eq_nil_iff.mp bound
    have inner : ∀ arg ∈ args, bindRef scope (bindRef scope arg).1.spelledOut.erased =
        ((bindRef scope arg).1.spelledOut, []) :=
      fun arg member => ih arg member (List.flatMap_eq_nil_iff.mp argsBound arg member)
    let boundArgs := args.map fun arg => (bindRef scope arg).1
    -- Written out and bound again, the arguments are as they were, and silent.
    have again : ((boundArgs.map TypeRef.spelledOut).map TypeRef.erased).map
        (fun arg => (bindRef scope arg).1) = boundArgs.map TypeRef.spelledOut := by
      simp only [boundArgs, List.map_map]
      apply List.map_congr_left
      intro arg member
      simp [inner arg member]
    have silent : ((boundArgs.map TypeRef.spelledOut).map TypeRef.erased).flatMap
        (fun arg => (bindRef scope arg).2) = [] := by
      simp only [boundArgs, List.map_map, List.flatMap_map, List.flatMap_eq_nil_iff]
      intro arg member
      simp [inner arg member]
    have sameLength : (boundArgs.map TypeRef.spelledOut).length = boundArgs.length :=
      List.length_map _
    obtain ⟨id, boundNode, shown, spelled⟩ := bindNode_spelledOut canonical sameLength ownBound
    change bindRef scope (bindNode scope name boundArgs).1.spelledOut.erased =
      ((bindNode scope name boundArgs).1.spelledOut, [])
    rw [boundNode, TypeRef.spelledOut_mk, shown, TypeRef.erased_mk, bindRef_mk, again, silent,
      spelled]
    rfl

/-! ## Scopes of a program -/

variable {units : List ProgramUnit}

/-- The declaration that a qualified name stands for goes by the last part of that name. -/
theorem isName_of_lookup (parsed : ∀ unit ∈ units, unit.IsParsed) {module own : String}
    (named : Scan.isName module.toList = true) {declared : Declared}
    (found : (declTable units).lookup (qualify module own) = some declared) :
    Scan.isName own.toList = true := by
  obtain ⟨member, same⟩ := lookup_declTable found
  obtain ⟨unitMember, inside⟩ := mem_declarations_iff.mp member
  have unitParsed := parsed _ unitMember
  obtain ⟨_, rfl⟩ := (qualify_inj unitParsed.isName named).mp same
  exact unitParsed.parsed.isName_type inside

theorem canonical_scopeOf (parsed : ∀ unit ∈ units, unit.IsParsed) {unit : ProgramUnit}
    (member : unit ∈ units) : (scopeOf units unit).Canonical := by
  intro name id bound
  obtain ⟨ids, declared, listed, candidate, found, permitted⟩ := exists_of_bindName bound
  rw [candidates] at listed
  split at listed
  -- A plain name has been found in the module itself or in the prelude.
  · next own _ =>
    cases listed
    obtain ⟨module, rfl, visible, named⟩ : ∃ module, id = qualify module own ∧
        module ∈ (scopeOf units unit).visible ∧ Scan.isName module.toList = true := by
      simp only [List.mem_cons, List.not_mem_nil, or_false] at candidate
      rcases candidate with rfl | rfl
      · exact ⟨unit.moduleId, rfl, by simp [scopeOf], (parsed unit member).isName⟩
      · exact ⟨Support.preludeId, rfl, by simp [scopeOf, implicitModules], by decide⟩
    have cut := splitAtScope_qualify module (isName_of_lookup parsed named found)
    refine ⟨⟨module, own, rfl⟩, ?_⟩
    rw [bindName, candidates, cut]
    simp [visible, firstDeclared?, found, permitted]
  -- A qualified name is its only candidate.
  · split at listed
    · cases listed
      obtain rfl := List.mem_singleton.mp candidate
      exact ⟨⟨_, _, (lookup_declTable found).2.symm⟩, bound⟩
    · cases listed

/-! ## The program written out -/

theorem fullyQualified_eq :
    fullyQualified units = units.map fun unit => unit.mapTypes fun decl =>
      (resolvedType (scopeOf units unit) (aliasGraph units) decl).fullyQualified := by
  simp only [fullyQualified, Resolution.ofUnits, List.map_map]
  apply List.map_congr_left
  intro unit _
  rw [Function.comp_apply, resolveUnit_eq_mapTypes, ProgramUnit.mapTypes_mapTypes]

theorem map_fullyQualified {α : Type} (read : ProgramUnit → α) :
    (fullyQualified units).map read = units.map fun unit =>
      read (unit.mapTypes fun decl =>
        (resolvedType (scopeOf units unit) (aliasGraph units) decl).fullyQualified) := by
  rw [fullyQualified_eq, List.map_map]
  rfl

/-- The declaration as it stands in the program that is written out. -/
def rewritten (units : List ProgramUnit) (declared : Declared) : Declared where
  decl := (resolvedType (scopeOf units declared.unit) (aliasGraph units)
    declared.decl).fullyQualified
  unit := declared.unit.mapTypes fun decl =>
    (resolvedType (scopeOf units declared.unit) (aliasGraph units) decl).fullyQualified

theorem declarations_fullyQualified :
    declarations (fullyQualified units) = (declarations units).map (rewritten units) := by
  rw [fullyQualified_eq, declarations, declarations, List.flatMap_map, List.map_flatMap]
  simp only [ProgramUnit.declaredTypes_mapTypes, List.map_map]
  rfl

theorem lookup_fullyQualified (id : String) :
    (declTable (fullyQualified units)).lookup id =
      ((declTable units).lookup id).map (rewritten units) := by
  rw [← lookup_map_snd, declTable_eq, declTable_eq, declarations_fullyQualified, ← List.map_reverse,
    List.map_map, List.map_map]
  rfl

theorem outline?_fullyQualified (id : String) :
    outline? (declTable units) id = outline? (declTable (fullyQualified units)) id := by
  rw [outline?, outline?, lookup_fullyQualified, Option.map_map]
  rfl

theorem scope_fullyQualified (declared : Declared) :
    (scopeOf units declared.unit).Alike
      (scopeOf (fullyQualified units) (rewritten units declared).unit) where
  moduleId := rfl
  visible := by
    have loaded : ((fullyQualified units).any fun unit => unit.moduleId = Support.runtimeId) =
        units.any fun unit => unit.moduleId = Support.runtimeId := by
      rw [fullyQualified_eq, List.any_map]
      rfl
    simp only [scopeOf, implicitModules, rewritten, ProgramUnit.imports_mapTypes,
      ProgramUnit.moduleId_mapTypes, loaded]
  outlines := outline?_fullyQualified

theorem definition_rewritten (declared : Declared) :
    (rewritten units declared).decl.definition =
      declared.decl.definition.replaceRefs fun ref =>
        (bindRef (scopeOf units declared.unit) ref).1.spelledOut.erased := by
  simp only [rewritten, resolvedType, TypeDecl.fullyQualified, bindDefinition,
    TypeDef.replaceRefs_replaceRefs, ← annotate_spelledOut, erased_annotate]

theorem fields_rewritten {declared : Declared}
    (written : declared.decl.AsWritten declared.unit.moduleId) :
    (rewritten units declared).decl.fields =
      declared.decl.fields.map fun field =>
        { field with
          ref := (bindRef (scopeOf units declared.unit) field.ref).1.spelledOut.erased } := by
  simp only [rewritten, resolvedType, TypeDecl.fullyQualified, bindDefinition, TypeDef.replaceRefs,
    written.placed, List.map_map, List.zipWith_map_right, List.zipWith_self, Function.comp_apply,
    ← annotate_spelledOut, erased_annotate]

theorem allWritten_fullyQualified (written : AllWritten units) :
    AllWritten (fullyQualified units) := by
  intro declared member
  rw [declarations_fullyQualified] at member
  obtain ⟨source, listed, rfl⟩ := List.mem_map.mp member
  have sourceWritten := written source listed
  refine ⟨sourceWritten.named, ?_, ?_⟩
  · rw [definition_rewritten, fields_rewritten sourceWritten]
    simp [TypeDef.replaceRefs, sourceWritten.placed, Function.comp_def]
  · intro isAlias
    rw [definition_rewritten] at isAlias ⊢
    simpa [TypeDef.replaceRefs] using sourceWritten.aliased isAlias

theorem aliasTargets_spelledOut (definitions : List TypeDef) :
    aliasTargets (definitions.map (TypeDef.replaceRefs TypeRef.spelledOut)) =
      aliasTargets definitions := by
  rw [aliasTargets, aliasTargets, List.filterMap_map]
  apply List.filterMap_congr
  intro definition _
  cases target : definition.target <;> simp [TypeDef.replaceRefs, target]

/-- Programs whose references are all bound. -/
structure Bound (units : List ProgramUnit) : Prop where
  parsed : ∀ unit ∈ units, unit.IsParsed
  bound : AllBound units

namespace Bound

variable (given : Bound units)

include given

theorem bindRef {declared : Declared} (member : declared ∈ declarations units) {ref : TypeRef}
    (isRef : ref ∈ declared.decl.definition.refs) :
    Resolve.bindRef (scopeOf (fullyQualified units) (rewritten units declared).unit)
        (Resolve.bindRef (scopeOf units declared.unit) ref).1.spelledOut.erased =
      ((Resolve.bindRef (scopeOf units declared.unit) ref).1.spelledOut, []) := by
  have canonical := canonical_scopeOf given.parsed (mem_declarations_iff.mp member).1
  rw [← (scope_fullyQualified declared).bindRef]
  exact bindRef_spelledOut canonical (given.bound declared member ref isRef)

theorem boundDefinition {declared : Declared} (member : declared ∈ declarations units) :
    Resolve.boundDefinition (fullyQualified units) (rewritten units declared) =
      (Resolve.boundDefinition units declared).replaceRefs TypeRef.spelledOut := by
  rw [Resolve.boundDefinition, Resolve.boundDefinition, definition_rewritten, bindDefinition,
    bindDefinition, TypeDef.replaceRefs_replaceRefs, TypeDef.replaceRefs_replaceRefs]
  apply TypeDef.replaceRefs_congr
  intro ref isRef
  rw [given.bindRef member isRef]

theorem boundDefinitions :
    (fullyQualified units).flatMap (Resolve.boundDefinitions (fullyQualified units)) =
      (units.flatMap (Resolve.boundDefinitions units)).map
        (TypeDef.replaceRefs TypeRef.spelledOut) := by
  rw [flatMap_boundDefinitions, flatMap_boundDefinitions, declarations_fullyQualified,
    List.map_map, List.map_map]
  apply List.map_congr_left
  intro declared member
  exact given.boundDefinition member

theorem allBound : AllBound (fullyQualified units) := by
  intro declared member ref isRef
  rw [declarations_fullyQualified] at member
  obtain ⟨source, listed, rfl⟩ := List.mem_map.mp member
  rw [definition_rewritten, TypeDef.refs_replaceRefs] at isRef
  obtain ⟨written, isWritten, rfl⟩ := List.mem_map.mp isRef
  rw [given.bindRef listed isWritten]

theorem graph : (aliasGraph units).Alike (aliasGraph (fullyQualified units)) where
  declared id := by
    have kinds : ∀ table : DeclTable,
        (table.lookup id).map (fun declared => declared.decl.definition.kind) =
          (outline? table id).map Outline.kind := by
      intro table
      rw [outline?, Option.map_map]
      rfl
    change ((declTable units).lookup id).map _ = ((declTable (fullyQualified units)).lookup id).map _
    rw [kinds, kinds, outline?_fullyQualified]
  target id := by
    have targets : (aliasGraph units).targets = (aliasGraph (fullyQualified units)).targets := by
      rw [aliasGraph, aliasGraph, given.boundDefinitions, aliasTargets_spelledOut]
    simp only [AliasGraph.target?, targets]

theorem metIds : metIds (fullyQualified units) = metIds units := by
  rw [Resolve.metIds, Resolve.metIds, given.boundDefinitions, List.flatMap_map]
  apply List.flatMap_congr
  intro definition _
  rw [TypeDef.refs_replaceRefs, List.flatMap_map]
  simp only [TypeRef.boundIds_spelledOut]

theorem diagnostics (acyclic : cycleDiagnostics units = []) :
    (Resolution.ofUnits (fullyQualified units)).diagnostics = [] := by
  have written := allWritten_fullyQualified (allWritten_of_isParsed given.parsed)
  have cycles : (cycleDiagnostics (fullyQualified units)).length =
      (cycleDiagnostics units).length := by
    rw [length_cycleDiagnostics, length_cycleDiagnostics, given.metIds]
    exact (given.graph.length_cycles apart_aliasGraph apart_aliasGraph fun _ => Iff.rfl).symm
  rw [acyclic, List.length_nil, List.length_eq_zero_iff] at cycles
  rw [Resolution.ofUnits, cycles, (nameDiagnostics_eq_nil_iff written).mpr given.allBound]
  rfl

theorem meaning {declared : Declared} (member : declared ∈ declarations units) :
    (resolvedType (scopeOf (fullyQualified units) (rewritten units declared).unit)
        (aliasGraph (fullyQualified units)) (rewritten units declared).decl).meaning =
      (resolvedType (scopeOf units declared.unit) (aliasGraph units) declared.decl).meaning := by
  change some (TypeDef.replaceRefs _ (TypeDef.replaceRefs _ (Resolve.boundDefinition _ _))) =
    some (TypeDef.replaceRefs _ (TypeDef.replaceRefs _ (Resolve.boundDefinition _ _)))
  have annotations := funext given.graph.annotate
  rw [given.boundDefinition member, ← annotations]
  simp only [TypeDef.replaceRefs_replaceRefs, annotate_spelledOut, TypeRef.meaning_spelledOut]

end Bound

theorem meanings_ofUnits (units : List ProgramUnit) :
    (Resolution.ofUnits units).units.map ProgramUnit.meanings =
      units.map fun unit => unit.module.declaredTypes.map fun decl =>
        (resolvedType (scopeOf units unit) (aliasGraph units) decl).meaning := by
  rw [Resolution.ofUnits, List.map_map]
  apply List.map_congr_left
  intro unit _
  rw [Function.comp_apply, ProgramUnit.meanings, declaredTypes_resolveUnit, List.map_map]
  rfl

end Resolve

/-- A program that resolves without reports does so with every reference fully qualified, too, and
then means the same. -/
theorem fullyQualified_keeps_meaning {units : List ProgramUnit}
    (parsed : ∀ unit ∈ units, unit.IsParsed)
    (resolved : (Resolution.ofUnits units).diagnostics = []) :
    (Resolution.ofUnits (fullyQualified units)).diagnostics = [] ∧
      (Resolution.ofUnits (fullyQualified units)).units.map ProgramUnit.meanings =
        (Resolution.ofUnits units).units.map ProgramUnit.meanings := by
  obtain ⟨silent, acyclic⟩ := List.append_eq_nil_iff.mp resolved
  have written := Resolve.allWritten_of_isParsed parsed
  have given : Resolve.Bound units :=
    ⟨parsed, (Resolve.nameDiagnostics_eq_nil_iff written).mp silent⟩
  refine ⟨given.diagnostics acyclic, ?_⟩
  rw [Resolve.meanings_ofUnits, Resolve.meanings_ofUnits, Resolve.map_fullyQualified]
  apply List.map_congr_left
  intro unit unitMember
  rw [ProgramUnit.declaredTypes_mapTypes, List.map_map]
  apply List.map_congr_left
  intro decl inside
  have member : ⟨decl, unit⟩ ∈ Resolve.declarations units :=
    Resolve.mem_declarations_iff.mpr ⟨unitMember, inside⟩
  rw [Function.comp_apply, ← given.meaning member]
  rfl

/-- A module that refers to a type of its own, to one of the prelude and to one of another
module. -/
def mixedUnit : ProgramUnit where
  moduleId := "app"
  path := some ⟨.relative, ["app.weft"]⟩
  extension := ".weft"
  module :=
    { name := "app"
      position := ⟨1, 1⟩
      decls :=
        [.imported "lib" ⟨2, 1⟩,
          .type {
            name := "Flow"
            position := ⟨3, 1⟩
            linkage := .internal
            definition :=
              { kind := .struct
                name := "app::Flow"
                fields := [⟨"from", { name := "Port" }⟩, ⟨"tag", { name := "lib::Tag" }⟩] }
            fields :=
              [⟨"from", { name := "Port" }, ⟨3, 22⟩⟩, ⟨"tag", { name := "lib::Tag" }, ⟨3, 34⟩⟩] },
          .type {
            name := "Flows"
            position := ⟨4, 1⟩
            linkage := .internal
            definition :=
              { kind := .alias
                name := "app::Flows"
                target := some { name := "vector", args := [{ name := "Flow" }] } } }] }

def taggingUnit : ProgramUnit where
  moduleId := "lib"
  path := some ⟨.relative, ["lib.weft"]⟩
  extension := ".weft"
  module :=
    { name := "lib"
      position := ⟨1, 1⟩
      decls :=
        [.type {
            name := "Tag"
            position := ⟨2, 1⟩
            linkage := .external
            definition :=
              { kind := .alias, name := "lib::Tag", target := some { name := "Byte" } } }] }

def mixedUnits : List ProgramUnit :=
  [.prelude, taggingUnit, mixedUnit]

theorem isParsed_mixedUnits : ∀ unit ∈ mixedUnits, unit.IsParsed := by
  have tagging : (Module.ofText "module lib;\npublic type Tag = Byte;\n".toList).toOption =
      some taggingUnit.module := by
    decide +kernel
  have mixedText : (Module.ofText
      ("module app;\nimport lib;\ntype Flow = struct \x7b from: Port; tag: lib::Tag; \x7d;\n" ++
        "type Flows = vector<Flow>;\n").toList).toOption = some mixedUnit.module := by
    decide +kernel
  simp only [mixedUnits, List.forall_mem_cons, List.not_mem_nil, false_implies, implies_true,
    and_true]
  exact ⟨ProgramUnit.isParsed_prelude, ⟨rfl, Module.isParsed_of_toOption tagging⟩,
    ⟨rfl, Module.isParsed_of_toOption mixedText⟩⟩

/-- Plain names are written out by the module that they are found in, also within arguments. -/
theorem fullyQualified_keeps_meaning_mixed :
    ((∀ unit ∈ mixedUnits, unit.IsParsed) ∧ (Resolution.ofUnits mixedUnits).diagnostics = []) ∧
      ((fullyQualified mixedUnits).map fun unit => unit.module.declaredTypes.flatMap fun decl =>
          decl.definition.refs.map TypeRef.render) =
        [["uint8", "uint16"], ["weft::Byte"], ["weft::Port", "lib::Tag", "vector<app::Flow>"]] ∧
      (Resolution.ofUnits (fullyQualified mixedUnits)).diagnostics = [] ∧
      (Resolution.ofUnits (fullyQualified mixedUnits)).units.map ProgramUnit.meanings =
        (Resolution.ofUnits mixedUnits).units.map ProgramUnit.meanings := by
  have resolved : (Resolution.ofUnits mixedUnits).diagnostics = [] := by decide +kernel
  have shown : ((fullyQualified mixedUnits).map fun unit =>
      unit.module.declaredTypes.flatMap fun decl => decl.definition.refs.map TypeRef.render) =
        [["uint8", "uint16"], ["weft::Byte"], ["weft::Port", "lib::Tag", "vector<app::Flow>"]] := by
    decide +kernel
  exact ⟨⟨isParsed_mixedUnits, resolved⟩, shown,
    fullyQualified_keeps_meaning isParsed_mixedUnits resolved⟩

end WireModules
