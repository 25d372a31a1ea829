import WireModules.Program.Basic
import WireModules.Support
import WireModules.Types.Name

/-!
# Resolution of a program

Once all modules of a program are read, every reference is bound to a declaration or to a builtin
type and is told the kind of type it finally denotes; aliases are followed. The rules for names:

* a plain name is looked up in the module that uses it, then in the prelude;
* a qualified name may name a module that is the using module, one it imports, the prelude or,
  when it is loaded, the runtime support module;
* a private type is seen only in its own module.

Where several units declare one qualified name, the last declaration counts. Definitions as
written stay as they are; what resolution finds is added beside them.
-/

set_option autoImplicit false

namespace WireModules

inductive ResolveError where
  | wrongArity (name : String) (expected actual : Nat)
  | takesNoArguments (name : String)
  | notImported (module inside : String)
  | privateType (id owner : String)
  | unknownType (name : String)
  | aliasCycle (id : String)
deriving DecidableEq, Repr

def ResolveError.message : ResolveError → String
  | .wrongArity name expected actual =>
    "type '" ++ name ++ "' expects " ++ toString expected ++ " type argument(s), got " ++
      toString actual
  | .takesNoArguments name => "type '" ++ name ++ "' does not take type arguments"
  | .notImported module inside =>
    "module '" ++ module ++ "' is not imported into '" ++ inside ++ "'"
  | .privateType id owner => "type '" ++ id ++ "' is private to module '" ++ owner ++ "'"
  | .unknownType name => "unknown type '" ++ name ++ "'"
  | .aliasCycle id => "alias cycle through '" ++ id ++ "'"

def ResolveError.diagnostic (error : ResolveError) (unit : ProgramUnit) (position : Position) :
    Diagnostic :=
  { message := error.message, phase := some "resolve", span := .ofPosition position unit.file }

structure Declared where
  decl : TypeDecl
  unit : ProgramUnit

/-- Declarations under their qualified names, the last declaration first. -/
abbrev DeclTable := List (String × Declared)

namespace Resolve

def declTable (units : List ProgramUnit) : DeclTable :=
  (units.flatMap fun unit =>
    unit.module.declaredTypes.map fun decl =>
      (qualify unit.moduleId decl.name, Declared.mk decl unit)).reverse

structure Scope where
  table : DeclTable
  moduleId : String
  visible : List String

/-- The modules that every module may name without an import. -/
def implicitModules (units : List ProgramUnit) : List String :=
  Support.preludeId ::
    (if units.any fun unit => unit.moduleId = Support.runtimeId then [Support.runtimeId] else [])

def scopeOf (units : List ProgramUnit) (unit : ProgramUnit) : Scope where
  table := declTable units
  moduleId := unit.moduleId
  visible := unit.moduleId :: unit.module.imports.map Import.name ++ implicitModules units

/-- The first of some qualified names that is declared, with its declaration. -/
def firstDeclared? (table : DeclTable) (candidates : List String) : Option (String × Declared) :=
  candidates.findSome? fun id => (table.lookup id).map fun declared => (id, declared)

/-- The qualified names that a name may stand for, in order of preference. -/
def candidates (scope : Scope) (name : String) : Except ResolveError (List String) :=
  match splitAtScope name with
  | (none, own) => .ok [qualify scope.moduleId own, qualify Support.preludeId own]
  | (some module, _) =>
    if scope.visible.contains module then .ok [name]
    else .error (.notImported module scope.moduleId)

def bindName (scope : Scope) (name : String) : Except ResolveError String :=
  match candidates scope name with
  | .error error => .error error
  | .ok ids =>
    match firstDeclared? scope.table ids with
    | none => .error (.unknownType name)
    | some (id, declared) =>
      if declared.decl.linkage = .internal ∧ declared.unit.moduleId ≠ scope.moduleId then
        .error (.privateType id declared.unit.moduleId)
      else .ok id

def bindNode (scope : Scope) (name : String) (args : List TypeRef) :
    TypeRef × List ResolveError :=
  match genericArity? name with
  | some arity =>
    if args.length = arity then ({ name, args, resolved := some name }, [])
    else ({ name, args }, [.wrongArity name arity args.length])
  | none =>
    if !args.isEmpty then ({ name, args }, [.takesNoArguments name])
    else if isBuiltinScalar name then ({ name, resolved := some name }, [])
    else
      match bindName scope name with
      | .ok id => ({ name, resolved := some id }, [])
      | .error error => ({ name }, [error])

mutual

/-- Bind a reference and its arguments; errors of the arguments come first. -/
def bindRef (scope : Scope) : TypeRef → TypeRef × List ResolveError
  | ⟨name, args, _, _⟩ =>
    let (args, inner) := bindRefs scope args
    let (ref, own) := bindNode scope name args
    (ref, inner ++ own)

def bindRefs (scope : Scope) : List TypeRef → List TypeRef × List ResolveError
  | [] => ([], [])
  | ref :: rest =>
    let (bound, errors) := bindRef scope ref
    let (others, more) := bindRefs scope rest
    (bound :: others, errors ++ more)

end

def bindDefinition (scope : Scope) (definition : TypeDef) : TypeDef :=
  definition.replaceRefs fun ref => (bindRef scope ref).1

/-- The errors of a declaration, each with its place: the field for a field's reference, the
declaration for an alias. -/
def bindErrors (scope : Scope) (decl : TypeDecl) : List (ResolveError × Position) :=
  (decl.fields.flatMap fun field =>
    (bindRef scope field.ref).2.map fun error => (error, field.position)) ++
  (decl.definition.target.toList.flatMap fun target =>
    (bindRef scope target).2.map fun error => (error, decl.position))

def boundDefinitions (units : List ProgramUnit) (unit : ProgramUnit) : List TypeDef :=
  unit.module.declaredTypes.map fun decl => bindDefinition (scopeOf units unit) decl.definition

/-- What the kinds of types depend on: the declarations, and what the aliases are bound to. The
alias bound last under a name comes first. -/
structure AliasGraph where
  table : DeclTable
  targets : List (String × Option String)

def aliasTargets (definitions : List TypeDef) : List (String × Option String) :=
  definitions.filterMap fun definition =>
    if definition.kind = .alias then
      some (definition.name, definition.target.bind TypeRef.resolved)
    else none

def aliasGraph (units : List ProgramUnit) : AliasGraph where
  table := declTable units
  targets := (aliasTargets (units.flatMap (boundDefinitions units))).reverse

namespace AliasGraph

def declaredKind? (graph : AliasGraph) (id : String) : Option TypeKind :=
  (graph.table.lookup id).map fun declared => declared.decl.definition.kind

def target? (graph : AliasGraph) (id : String) : Option String :=
  (graph.targets.lookup id).join

def names (graph : AliasGraph) : List String :=
  graph.table.map Prod.fst

def without (ids : List String) (id : String) : List String :=
  ids.filter (· ≠ id)

theorem length_without_lt {id : String} {ids : List String} (found : id ∈ ids) :
    (without ids id).length < ids.length := by
  rw [without, ← List.countP_eq_length_filter]
  have bound := List.countP_le_length (p := fun other => decide (other ≠ id)) (l := ids)
  rcases Nat.lt_or_eq_of_le bound with shorter | same
  · exact shorter
  · have all := List.countP_eq_length.mp same id found
    simp at all

/-- The kind of type that a bound name finally denotes, following aliases that have not been
followed yet. A chain that ends at an unbound alias or comes back to itself denotes nothing. -/
def follow (graph : AliasGraph) (unvisited : List String) (id : String) : Option TypeKind :=
  if isBuiltinScalar id then some .scalar
  else if (genericArity? id).isSome then some .vector
  else
    match graph.declaredKind? id with
    | some .alias =>
      if _fresh : id ∈ unvisited then
        match graph.target? id with
        | some next => graph.follow (without unvisited id) next
        | none => none
      else none
    | kind => kind
termination_by unvisited.length
decreasing_by exact length_without_lt _fresh

def finalKind (graph : AliasGraph) (id : String) : Option TypeKind :=
  graph.follow graph.names id

/-- Follow aliases from a name over those not visited yet: which names are left unvisited, and the
alias at which the way closes, if it comes back to itself. -/
def walk (graph : AliasGraph) (unvisited way : List String) (id : String) :
    List String × Option String :=
  if graph.declaredKind? id ≠ some .alias then (unvisited, none)
  else if _fresh : id ∈ unvisited then
    match graph.target? id with
    | some next => graph.walk (without unvisited id) (id :: way) next
    | none => (without unvisited id, none)
  else (unvisited, if id ∈ way then some id else none)
termination_by unvisited.length
decreasing_by exact length_without_lt _fresh

/-- The cycles met on the ways from some names in order, each named by the alias at which it was
first closed. -/
def cycles (graph : AliasGraph) (unvisited : List String) : List String → List String
  | [] => []
  | id :: rest =>
    let (unvisited, closed) := graph.walk unvisited [] id
    closed.toList ++ graph.cycles unvisited rest

/-- The diagnostic for a cycle, at the declaration of the alias that closes it. -/
def cycleDiagnostic? (graph : AliasGraph) (id : String) : Option Diagnostic :=
  (graph.table.lookup id).map fun declared =>
    (ResolveError.aliasCycle id).diagnostic declared.unit declared.decl.position

end AliasGraph

mutual

def annotate (graph : AliasGraph) : TypeRef → TypeRef
  | ⟨name, args, resolved, _⟩ =>
    { name, args := annotateAll graph args, resolved, kind := resolved.bind graph.finalKind }

def annotateAll (graph : AliasGraph) : List TypeRef → List TypeRef
  | [] => []
  | ref :: rest => annotate graph ref :: annotateAll graph rest

end

mutual

/-- The names that a reference and its arguments are bound to, arguments first. -/
def boundIds : TypeRef → List String
  | ⟨_, args, resolved, _⟩ => boundIdsOf args ++ resolved.toList

def boundIdsOf : List TypeRef → List String
  | [] => []
  | ref :: rest => boundIds ref ++ boundIdsOf rest

end

def nameDiagnostics (units : List ProgramUnit) : List Diagnostic :=
  units.flatMap fun unit =>
    unit.module.declaredTypes.flatMap fun decl =>
      (bindErrors (scopeOf units unit) decl).map fun (error, position) =>
        error.diagnostic unit position

def cycleDiagnostics (units : List ProgramUnit) : List Diagnostic :=
  let graph := aliasGraph units
  let definitions := units.flatMap (boundDefinitions units)
  let ids := definitions.flatMap fun definition => definition.refs.flatMap boundIds
  (graph.cycles graph.names ids).filterMap graph.cycleDiagnostic?

def resolveDecl (scope : Scope) (graph : AliasGraph) : Decl → Decl
  | .type decl =>
    .type { decl with
      resolved := some ((bindDefinition scope decl.definition).replaceRefs (annotate graph)) }
  | decl => decl

def resolveUnit (scope : Scope) (graph : AliasGraph) (unit : ProgramUnit) : ProgramUnit :=
  { unit with
    module :=
      { unit.module with decls := unit.module.decls.map (resolveDecl scope graph) } }

end Resolve

structure Resolution where
  units : List ProgramUnit
  diagnostics : List Diagnostic

def Resolution.ofUnits (units : List ProgramUnit) : Resolution where
  units :=
    let graph := Resolve.aliasGraph units
    units.map fun unit => Resolve.resolveUnit (Resolve.scopeOf units unit) graph unit
  diagnostics := Resolve.nameDiagnostics units ++ Resolve.cycleDiagnostics units

end WireModules
