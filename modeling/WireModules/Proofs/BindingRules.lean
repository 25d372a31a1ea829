import WireModules.Proofs.AliasWays
import WireModules.Proofs.CycleReports
import WireModules.Proofs.ModuleNames
import WireModules.Proofs.QualifiedNames

/-!
# The rules for names

What a name means is said by rules over the declarations of the program that count: which of them a
unit sees, which one a name means there, and which errors keep a name from being bound. Resolution
binds every node of every reference by these rules, and it reports each node that stays unbound once,
in the order in which the nodes are bound.
-/

set_option autoImplicit false

namespace WireModules

/-- What of a unit its names depend on: the module it goes by, and the modules it imports. -/
structure Viewpoint where
  moduleId : String
  imports : List String
deriving DecidableEq

def ProgramUnit.viewpoint (unit : ProgramUnit) : Viewpoint where
  moduleId := unit.moduleId
  imports := unit.module.imports.map Import.name

namespace Resolve

variable {units : List ProgramUnit} {view : Viewpoint} {name : String}

/-! ## The rules -/

/-- The modules whose types may be named: the own one, those imported, the prelude, and the runtime
support module where it is loaded. -/
def Sees (units : List ProgramUnit) (view : Viewpoint) (module : String) : Prop :=
  module = view.moduleId ∨ module ∈ view.imports ∨ module = Support.preludeId ∨
    module = Support.runtimeId ∧ ∃ unit ∈ units, unit.moduleId = Support.runtimeId

/-- The declaration of a type of a module that counts. -/
def Declares (units : List ProgramUnit) (module own : String) (declared : Declared) : Prop :=
  Counts units declared ∧ declared.unit.moduleId = module ∧ declared.decl.name = own

/-- The declaration that a name means: a plain name that of the own module or else that of the prelude,
a qualified name that of its module, if it is seen. -/
inductive Means (units : List ProgramUnit) (view : Viewpoint) (name : String) : Declared → Prop where
  | own {own : String} {declared : Declared} : splitAtScope name = (none, own) →
      Declares units view.moduleId own declared → Means units view name declared
  | prelude {own : String} {declared : Declared} : splitAtScope name = (none, own) →
      (∀ other, ¬Declares units view.moduleId own other) →
      Declares units Support.preludeId own declared → Means units view name declared
  | qualified {module own : String} {declared : Declared} : splitAtScope name = (some module, own) →
      Sees units view module → Declares units module own declared → Means units view name declared

/-- A private declaration is kept from all units but those of its module. -/
def KeptFrom (view : Viewpoint) (declared : Declared) : Prop :=
  declared.decl.linkage = .internal ∧ declared.unit.moduleId ≠ view.moduleId

/-- What a name with a number of arguments is bound to. -/
inductive Binds (units : List ProgramUnit) (view : Viewpoint) (name : String) :
    Nat → String → Prop where
  | generic {arity : Nat} : genericArity? name = some arity → Binds units view name arity name
  | scalar : isBuiltinScalar name = true → Binds units view name 0 name
  | declared {declared : Declared} : ¬AliasGraph.IsBuiltin name → Means units view name declared →
      ¬KeptFrom view declared → Binds units view name 0 declared.id

/-- The error for a name that means no declaration that it may be bound to. -/
inductive Misses (units : List ProgramUnit) (view : Viewpoint) (name : String) :
    ResolveError → Prop where
  | notImported {module own : String} : splitAtScope name = (some module, own) →
      ¬Sees units view module → Misses units view name (.notImported module view.moduleId)
  | privateType {declared : Declared} : Means units view name declared → KeptFrom view declared →
      Misses units view name (.privateType declared.id declared.unit.moduleId)
  | unknownType : (∀ module own, splitAtScope name = (some module, own) → Sees units view module) →
      (∀ declared, ¬Means units view name declared) → Misses units view name (.unknownType name)

/-- The error for a name with a number of arguments that stays unbound. -/
inductive Hinders (units : List ProgramUnit) (view : Viewpoint) (name : String) :
    Nat → ResolveError → Prop where
  | wrongArity {arity given : Nat} : genericArity? name = some arity → given ≠ arity →
      Hinders units view name given (.wrongArity name arity given)
  | takesNoArguments {given : Nat} : genericArity? name = none → given ≠ 0 →
      Hinders units view name given (.takesNoArguments name)
  | misses {error : ResolveError} : ¬AliasGraph.IsBuiltin name → Misses units view name error →
      Hinders units view name 0 error

/-! ## Names of declared types -/

variable {unit : ProgramUnit}

theorem sees_iff {module : String} :
    Sees units unit.viewpoint module ↔ module ∈ (scopeOf units unit).visible := by
  by_cases loaded : (units.any fun unit => unit.moduleId = Support.runtimeId) = true
  · have present : ∃ unit ∈ units, unit.moduleId = Support.runtimeId := by simpa using loaded
    simp [Sees, scopeOf, implicitModules, loaded, present, ProgramUnit.viewpoint]
  · have absent : ¬∃ unit ∈ units, unit.moduleId = Support.runtimeId := by simpa using loaded
    simp [Sees, scopeOf, implicitModules, loaded, absent, ProgramUnit.viewpoint]

/-- Units that were read, and one of them. -/
structure Read (units : List ProgramUnit) (unit : ProgramUnit) : Prop where
  parsed : ∀ unit ∈ units, unit.IsParsed
  member : unit ∈ units

theorem Read.isName_of_sees (read : Read units unit) {module : String}
    (sees : Sees units unit.viewpoint module) : Scan.isName module.toList = true := by
  have parsed := read.parsed unit read.member
  rcases sees with rfl | imported | rfl | ⟨rfl, _⟩
  · exact parsed.isName
  · obtain ⟨source, listed, rfl⟩ := List.mem_map.mp imported
    exact parsed.parsed.isName_import listed
  · decide
  · decide

theorem lookup_qualify_iff (parsed : ∀ unit ∈ units, unit.IsParsed) {module own : String}
    (named : Scan.isName module.toList = true) {declared : Declared} :
    (declTable units).lookup (qualify module own) = some declared ↔
      Declares units module own declared := by
  rw [lookup_declTable_iff, Declares, and_congr_right_iff]
  intro counts
  have parsedUnit := parsed _ (mem_declarations_iff.mp counts.mem).1
  exact qualify_inj parsedUnit.isName named

theorem Declares.id_eq {module own : String} {declared : Declared}
    (declares : Declares units module own declared) : declared.id = qualify module own := by
  obtain ⟨_, rfl, rfl⟩ := declares
  rfl

theorem Declares.unique {module own : String} {first second : Declared}
    (declares : Declares units module own first) (other : Declares units module own second) :
    first = second :=
  declares.1.unique other.1 (declares.id_eq.trans other.id_eq.symm)

theorem means_iff_of_plain {own : String} (plain : splitAtScope name = (none, own))
    {declared : Declared} :
    Means units view name declared ↔ Declares units view.moduleId own declared ∨
      (∀ other, ¬Declares units view.moduleId own other) ∧
        Declares units Support.preludeId own declared := by
  constructor
  · intro means
    cases means with
    | own plain' declares =>
      cases plain.symm.trans plain'
      exact .inl declares
    | prelude plain' undeclared declares =>
      cases plain.symm.trans plain'
      exact .inr ⟨undeclared, declares⟩
    | qualified qualified _ _ => cases plain.symm.trans qualified
  · rintro (declares | ⟨undeclared, declares⟩)
    · exact .own plain declares
    · exact .prelude plain undeclared declares

theorem means_iff_of_qualified {module own : String}
    (qualified : splitAtScope name = (some module, own)) {declared : Declared} :
    Means units view name declared ↔ Sees units view module ∧ Declares units module own declared := by
  constructor
  · intro means
    cases means with
    | own plain _ => cases plain.symm.trans qualified
    | prelude plain _ _ => cases plain.symm.trans qualified
    | qualified qualified' sees declares =>
      cases qualified.symm.trans qualified'
      exact ⟨sees, declares⟩
  · rintro ⟨sees, declares⟩
    exact .qualified qualified sees declares

/-- A name means one declaration at most. -/
theorem Means.unique {first second : Declared} (means : Means units view name first)
    (other : Means units view name second) : first = second := by
  cases split : splitAtScope name with
  | mk module? own =>
    cases module? with
    | none =>
      rcases (means_iff_of_plain split).mp means with declares | ⟨undeclared, declares⟩
      · rcases (means_iff_of_plain split).mp other with declares' | ⟨undeclared, _⟩
        · exact declares.unique declares'
        · exact absurd declares (undeclared _)
      · rcases (means_iff_of_plain split).mp other with declares' | ⟨_, declares'⟩
        · exact absurd declares' (undeclared _)
        · exact declares.unique declares'
    | some module =>
      obtain ⟨_, declares⟩ := (means_iff_of_qualified split).mp means
      obtain ⟨_, declares'⟩ := (means_iff_of_qualified split).mp other
      exact declares.unique declares'

/-! ## Binding names -/

theorem firstDeclared?_cons_iff {table : DeclTable} {first id : String} {rest : List String}
    {declared : Declared} :
    firstDeclared? table (first :: rest) = some (id, declared) ↔
      table.lookup first = some declared ∧ first = id ∨
        table.lookup first = none ∧ firstDeclared? table rest = some (id, declared) := by
  rw [firstDeclared?, List.findSome?_cons]
  cases table.lookup first with
  | none => simp [firstDeclared?]
  | some other => simp [and_comm]

theorem firstDeclared?_iff_of_plain (read : Read units unit) {own : String}
    (plain : splitAtScope name = (none, own)) {id : String} {declared : Declared} :
    firstDeclared? (declTable units) [qualify unit.moduleId own, qualify Support.preludeId own] =
        some (id, declared) ↔
      Means units unit.viewpoint name declared ∧ declared.id = id := by
  have inOwn : ∀ other, (declTable units).lookup (qualify unit.moduleId own) = some other ↔
      Declares units unit.moduleId own other :=
    fun other => lookup_qualify_iff read.parsed (read.parsed unit read.member).isName
  have inPrelude : (declTable units).lookup (qualify Support.preludeId own) = some declared ↔
      Declares units Support.preludeId own declared :=
    lookup_qualify_iff read.parsed (by decide)
  have notInOwn : (declTable units).lookup (qualify unit.moduleId own) = none ↔
      ∀ other, ¬Declares units unit.moduleId own other := by
    rw [Option.eq_none_iff_forall_ne_some]
    exact forall_congr' fun other => not_congr (inOwn other)
  rw [means_iff_of_plain plain, firstDeclared?_cons_iff, firstDeclared?_cons_iff]
  constructor
  · rintro (⟨found, rfl⟩ | ⟨absent, ⟨found, rfl⟩ | ⟨_, impossible⟩⟩)
    · have declares := (inOwn declared).mp found
      exact ⟨.inl declares, declares.id_eq⟩
    · have declares := inPrelude.mp found
      exact ⟨.inr ⟨notInOwn.mp absent, declares⟩, declares.id_eq⟩
    · cases impossible
  · rintro ⟨declares | ⟨absent, declares⟩, rfl⟩
    · exact .inl ⟨(inOwn declared).mpr declares, declares.id_eq.symm⟩
    · exact .inr ⟨notInOwn.mpr absent, .inl ⟨inPrelude.mpr declares, declares.id_eq.symm⟩⟩

theorem firstDeclared?_iff_of_qualified (read : Read units unit) {module own : String}
    (qualified : splitAtScope name = (some module, own))
    (sees : Sees units unit.viewpoint module) {id : String} {declared : Declared} :
    firstDeclared? (declTable units) [name] = some (id, declared) ↔
      Means units unit.viewpoint name declared ∧ declared.id = id := by
  rw [means_iff_of_qualified qualified, firstDeclared?_cons_iff, ← qualify_of_splitAtScope qualified,
    lookup_qualify_iff read.parsed (read.isName_of_sees sees)]
  constructor
  · rintro (⟨declares, rfl⟩ | ⟨_, impossible⟩)
    · exact ⟨⟨sees, declares⟩, declares.id_eq⟩
    · cases impossible
  · rintro ⟨⟨_, declares⟩, rfl⟩
    exact .inl ⟨declares, declares.id_eq.symm⟩

/-- The first candidate for a name that is declared is the declaration that the name means. -/
theorem firstDeclared?_iff (read : Read units unit) {ids : List String}
    (listed : candidates (scopeOf units unit) name = .ok ids) {id : String} {declared : Declared} :
    firstDeclared? (declTable units) ids = some (id, declared) ↔
      Means units unit.viewpoint name declared ∧ declared.id = id := by
  rw [candidates] at listed
  split at listed
  · next own plain =>
    cases listed
    exact firstDeclared?_iff_of_plain read plain
  · next module own qualified =>
    split at listed
    · next visible =>
      cases listed
      exact firstDeclared?_iff_of_qualified read qualified
        (sees_iff.mpr (List.contains_iff_mem.mp visible))
    · cases listed

theorem candidates_error {error : ResolveError}
    (refused : candidates (scopeOf units unit) name = .error error) :
    Misses units unit.viewpoint name error := by
  rw [candidates] at refused
  split at refused
  · cases refused
  · next module own qualified =>
    split at refused
    · cases refused
    · next hidden =>
      cases refused
      refine .notImported qualified fun sees => hidden ?_
      exact List.contains_iff_mem.mpr (sees_iff.mp sees)

theorem sees_of_candidates {ids : List String}
    (listed : candidates (scopeOf units unit) name = .ok ids) {module own : String}
    (qualified : splitAtScope name = (some module, own)) : Sees units unit.viewpoint module := by
  rw [candidates, qualified] at listed
  dsimp only at listed
  split at listed
  · next visible => exact sees_iff.mpr (List.contains_iff_mem.mp visible)
  · cases listed

/-- A name is bound to the declaration that it means, unless that is kept from the unit; else it gets
its error. -/
theorem bindName_outcome (read : Read units unit) (name : String) :
    (∃ declared, Means units unit.viewpoint name declared ∧ ¬KeptFrom unit.viewpoint declared ∧
        bindName (scopeOf units unit) name = .ok declared.id) ∨
      ∃ error, Misses units unit.viewpoint name error ∧
        bindName (scopeOf units unit) name = .error error := by
  rw [bindName]
  cases listed : candidates (scopeOf units unit) name with
  | error error => exact .inr ⟨error, candidates_error listed, rfl⟩
  | ok ids =>
    dsimp only
    cases found : firstDeclared? (scopeOf units unit).table ids with
    | none =>
      refine .inr ⟨_, .unknownType (fun _ _ => sees_of_candidates listed) ?_, rfl⟩
      intro declared means
      have first := (firstDeclared?_iff read listed).mpr ⟨means, rfl⟩
      cases found.symm.trans first
    | some entry =>
      obtain ⟨id, declared⟩ := entry
      obtain ⟨means, rfl⟩ := (firstDeclared?_iff read listed).mp found
      by_cases kept : KeptFrom unit.viewpoint declared
      · exact .inr ⟨_, .privateType means kept, if_pos kept⟩
      · exact .inl ⟨declared, means, kept, if_neg kept⟩

/-! ## Binding nodes -/

/-- A name that gets an error is not bound. -/
theorem Misses.kept_of_means {error : ResolveError} (misses : Misses units view name error)
    {declared : Declared} (means : Means units view name declared) : KeptFrom view declared := by
  cases misses with
  | notImported qualified hidden =>
    exact absurd ((means_iff_of_qualified qualified).mp means).1 hidden
  | privateType means' kept => exact means'.unique means ▸ kept
  | unknownType _ meansNone => exact absurd means (meansNone declared)

theorem not_generic_of_scalar (scalar : isBuiltinScalar name = true) : genericArity? name = none := by
  rw [genericArity?]
  split
  · next same =>
    rw [same] at scalar
    revert scalar
    decide
  · rfl

theorem Binds.unique {given : Nat} {first second : String} (binds : Binds units view name given first)
    (other : Binds units view name given second) : first = second := by
  cases binds with
  | generic generic =>
    cases other with
    | generic => rfl
    | scalar => rfl
    | declared notBuiltin _ _ => exact absurd (.inr (by simp [generic])) notBuiltin
  | scalar scalar =>
    cases other with
    | generic => rfl
    | scalar => rfl
    | declared notBuiltin _ _ => exact absurd (.inl scalar) notBuiltin
  | declared notBuiltin means _ =>
    cases other with
    | generic generic => exact absurd (.inr (by simp [generic])) notBuiltin
    | scalar scalar => exact absurd (.inl scalar) notBuiltin
    | declared _ means' _ => rw [means.unique means']

theorem Hinders.not_binds {given : Nat} {error : ResolveError}
    (hinders : Hinders units view name given error) (target : String) :
    ¬Binds units view name given target := by
  intro binds
  cases hinders with
  | wrongArity generic differs =>
    cases binds with
    | generic generic' => exact differs (Option.some.inj (generic'.symm.trans generic))
    | scalar scalar => cases (not_generic_of_scalar scalar).symm.trans generic
    | declared notBuiltin _ _ => exact notBuiltin (.inr (by simp [generic]))
  | takesNoArguments plain given =>
    cases binds with
    | generic generic => cases plain.symm.trans generic
    | scalar => exact given rfl
    | declared => exact given rfl
  | misses notBuiltin misses =>
    cases binds with
    | generic generic => exact notBuiltin (.inr (by simp [generic]))
    | scalar scalar => exact notBuiltin (.inl scalar)
    | declared _ means permitted => exact permitted (misses.kept_of_means means)

/-- A node is bound, or it stays unbound and gets one error. -/
theorem bindNode_outcome (read : Read units unit) (name : String) (args : List TypeRef) :
    (∃ target, Binds units unit.viewpoint name args.length target ∧
        bindNode (scopeOf units unit) name args = ({ name, args, resolved := some target }, [])) ∨
      ∃ error, Hinders units unit.viewpoint name args.length error ∧
        bindNode (scopeOf units unit) name args = ({ name, args }, [error]) := by
  rw [bindNode]
  cases generic : genericArity? name with
  | some arity =>
    by_cases fits : args.length = arity
    · exact .inl ⟨name, fits ▸ .generic generic, if_pos fits⟩
    · exact .inr ⟨_, .wrongArity generic fits, if_neg fits⟩
  | none =>
    cases args with
    | cons first rest => exact .inr ⟨_, .takesNoArguments generic (by simp), rfl⟩
    | nil =>
      by_cases scalar : isBuiltinScalar name = true
      · exact .inl ⟨name, .scalar scalar, by simp [scalar]⟩
      · have notBuiltin : ¬AliasGraph.IsBuiltin name := not_or.mpr ⟨scalar, by simp [generic]⟩
        rcases bindName_outcome read name with ⟨declared, means, permitted, bound⟩ |
          ⟨error, misses, failed⟩
        · exact .inl ⟨declared.id, .declared notBuiltin means permitted, by simp [scalar, bound]⟩
        · exact .inr ⟨error, .misses notBuiltin misses, by simp [scalar, failed]⟩

/-- Every node of a reference is bound by the rules. -/
theorem resolved_iff_binds (read : Read units unit) {ref node : TypeRef}
    (inside : node ∈ (bindRef (scopeOf units unit) ref).1.nodes) (target : String) :
    node.resolved = some target ↔ Binds units unit.viewpoint node.name node.args.length target := by
  induction ref using TypeRef.argsInduction with
  | node name args resolved kind ih =>
    rw [nodes_bindRef_mk] at inside
    rcases List.mem_cons.mp inside with rfl | below
    · rw [bindRef_mk]
      rcases bindNode_outcome read name (args.map fun arg => (bindRef (scopeOf units unit) arg).1) with
        ⟨own, binds, bound⟩ | ⟨error, hinders, unbound⟩
      · rw [bound, Option.some.injEq]
        constructor
        · rintro rfl
          exact binds
        · exact binds.unique
      · rw [unbound]
        exact ⟨nofun, fun binds => absurd binds (hinders.not_binds target)⟩
    · obtain ⟨arg, member, inside⟩ := List.mem_flatMap.mp below
      exact ih arg member inside

end Resolve

end WireModules
