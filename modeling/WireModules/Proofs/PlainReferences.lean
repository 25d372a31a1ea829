import WireModules.Proofs.MachineRun
import WireModules.Proofs.ParsedModule
import WireModules.Proofs.Spelling

/-!
# References as they stand in a text

A text says of a reference how it is spelled and nothing more: no node of a reference in a module
that is read is bound to a type or told a kind.
-/

set_option autoImplicit false

namespace WireModules

namespace TypeRef

/-- A reference to which resolution has added nothing. -/
def IsPlain (ref : TypeRef) : Prop :=
  ref.erased = ref

theorem isPlain_of_args {name : String} {args : List TypeRef}
    (plain : ∀ arg ∈ args, arg.IsPlain) : IsPlain { name, args } := by
  rw [IsPlain, erased_mk, List.map_congr_left plain, List.map_id']

theorem IsPlain.args {ref : TypeRef} (plain : ref.IsPlain) : ∀ arg ∈ ref.args, arg.IsPlain := by
  obtain ⟨name, args, resolved, kind⟩ := ref
  rw [IsPlain, erased_mk, TypeRef.mk.injEq] at plain
  exact List.map_inj_left.mp (plain.2.1.trans (List.map_id' args).symm)

theorem IsPlain.unbound {ref : TypeRef} (plain : ref.IsPlain) :
    ∀ node ∈ ref.nodes, node.resolved = none ∧ node.kind = none := by
  induction ref using argsInduction with
  | node name args resolved kind ih =>
    refine forall_mem_nodes_mk.mpr ⟨?_, fun arg inside => ih arg inside (plain.args arg inside)⟩
    rw [IsPlain, erased_mk, TypeRef.mk.injEq] at plain
    exact ⟨plain.2.2.1.symm, plain.2.2.2.symm⟩

end TypeRef

def TypeDef.IsPlain (definition : TypeDef) : Prop :=
  ∀ ref ∈ definition.refs, ref.IsPlain

/-! ## What is kept while a text is read -/

/-- What is kept of a part that goes on and of a part that is complete. -/
def Advance.Holds {State Result : Type} (kept : State → Prop) (result : Result → Prop) :
    Advance State Result → Prop
  | .more state => kept state
  | .done finished => result finished

/-- A part keeps what it should within a larger one if the larger one does. -/
theorem Advance.Holds.within {State Part Result Whole : Type} {kept : State → Prop}
    {result : Result → Prop} {keptPart : Part → Prop} {whole : Whole → Prop}
    {resume : State → Part} {complete : Result → Advance Part Whole}
    {advance : Advance State Result} (holds : advance.Holds kept result)
    (resumes : ∀ state, kept state → keptPart (resume state))
    (completes : ∀ finished, result finished → (complete finished).Holds keptPart whole) :
    (advance.within resume complete).Holds keptPart whole := by
  cases advance with
  | more state => exact resumes state holds
  | done finished => exact completes finished holds

def OpenRef.IsPlain (opened : OpenRef) : Prop :=
  ∀ arg ∈ opened.args, arg.IsPlain

namespace RefState

def IsPlain : RefState → Prop
  | .wanted outer | .scoped outer _ | .named outer _ => ∀ opened ∈ outer, opened.IsPlain
  | .closed outer ref => (∀ opened ∈ outer, opened.IsPlain) ∧ ref.IsPlain

variable {outer : List OpenRef} {state next : RefState} {ref : TypeRef}

theorem isPlain_of_nextArg (plain : ∀ opened ∈ outer, opened.IsPlain) (argPlain : ref.IsPlain)
    (goesOn : nextArg outer ref = some next) : next.IsPlain := by
  cases outer with
  | nil => cases goesOn
  | cons inner rest =>
    cases goesOn
    obtain ⟨innerPlain, restPlain⟩ := List.forall_mem_cons.mp plain
    exact List.forall_mem_cons.mpr ⟨List.forall_mem_cons.mpr ⟨argPlain, innerPlain⟩, restPlain⟩

theorem isPlain_of_lastArg (plain : ∀ opened ∈ outer, opened.IsPlain) (argPlain : ref.IsPlain)
    (ends : lastArg outer ref = some next) : next.IsPlain := by
  cases outer with
  | nil => cases ends
  | cons inner rest =>
    cases ends
    obtain ⟨innerPlain, restPlain⟩ := List.forall_mem_cons.mp plain
    refine ⟨restPlain, TypeRef.isPlain_of_args fun arg member => ?_⟩
    exact List.forall_mem_cons.mpr ⟨argPlain, innerPlain⟩ arg (List.mem_reverse.mp member)

theorem isPlain_of_step {terminal : Terminal} {next : Token → RefState} (plain : state.IsPlain)
    (stepped : state.step terminal = some next) (token : Token) : (next token).IsPlain := by
  unfold step at stepped
  split at stepped
  case h_1 | h_2 | h_3 =>
    cases stepped
    exact plain
  case h_4 =>
    cases stepped
    exact List.forall_mem_cons.mpr ⟨by simp [OpenRef.IsPlain], plain⟩
  case h_5 =>
    obtain ⟨state, goesOn, rfl⟩ := Option.map_eq_some_iff.mp stepped
    exact isPlain_of_nextArg plain (TypeRef.isPlain_of_args (by simp)) goesOn
  case h_6 =>
    obtain ⟨state, ends, rfl⟩ := Option.map_eq_some_iff.mp stepped
    exact isPlain_of_lastArg plain (TypeRef.isPlain_of_args (by simp)) ends
  case h_7 =>
    obtain ⟨state, goesOn, rfl⟩ := Option.map_eq_some_iff.mp stepped
    exact isPlain_of_nextArg plain.1 plain.2 goesOn
  case h_8 =>
    obtain ⟨state, ends, rfl⟩ := Option.map_eq_some_iff.mp stepped
    exact isPlain_of_lastArg plain.1 plain.2 ends
  case h_9 => cases stepped

theorem isPlain_of_finished (plain : state.IsPlain) (finished : state.finished? = some ref) :
    ref.IsPlain := by
  unfold finished? at finished
  split at finished <;> cases finished
  · rfl
  · exact plain.2

end RefState

namespace FieldsState

def IsPlain : FieldsState → Prop
  | .opening => True
  | .next done | .fieldNamed done _ => ∀ field ∈ done, field.ref.IsPlain
  | .typed done _ ref => (∀ field ∈ done, field.ref.IsPlain) ∧ ref.IsPlain

theorem isPlain_of_step {state : FieldsState} {terminal : Terminal}
    {advance : Token → Advance FieldsState (List WrittenField)} (plain : state.IsPlain)
    (stepped : state.step terminal = some advance) (token : Token) :
    (advance token).Holds IsPlain fun fields => ∀ field ∈ fields, field.ref.IsPlain := by
  unfold step at stepped
  split at stepped
  case h_1 =>
    cases stepped
    simp [Advance.Holds, IsPlain]
  case h_2 =>
    cases stepped
    exact plain
  case h_3 =>
    cases stepped
    exact fun field member => plain field (List.mem_reverse.mp member)
  case h_4 =>
    cases stepped
    exact ⟨plain, by simp [RefState.IsPlain]⟩
  case h_5 =>
    obtain ⟨finished, ended, rfl⟩ := Option.map_eq_some_iff.mp stepped
    exact List.forall_mem_cons.mpr ⟨RefState.isPlain_of_finished plain.2 ended, plain.1⟩
  case h_6 =>
    obtain ⟨next, goesOn, rfl⟩ := Option.map_eq_some_iff.mp stepped
    exact ⟨plain.1, RefState.isPlain_of_step plain.2 goesOn token⟩
  case h_7 => cases stepped

end FieldsState

def WrittenBody.IsPlain : WrittenBody → Prop
  | .enum _ => True
  | .fields _ written => ∀ field ∈ written, field.ref.IsPlain
  | .alias target => target.IsPlain

namespace BodyState

def IsPlain : BodyState → Prop
  | .opening | .enum _ => True
  | .fields _ inner => inner.IsPlain
  | .alias target => target.IsPlain
  | .closing body => body.IsPlain

theorem isPlain_of_step {state : BodyState} {terminal : Terminal}
    {advance : Token → Advance BodyState WrittenBody} (plain : state.IsPlain)
    (stepped : state.step terminal = some advance) (token : Token) :
    (advance token).Holds IsPlain WrittenBody.IsPlain := by
  unfold step at stepped
  split at stepped
  case h_1 | h_2 | h_3 =>
    cases stepped
    trivial
  case h_4 =>
    cases stepped
    simp [Advance.Holds, IsPlain, RefState.IsPlain]
  case h_5 =>
    obtain ⟨inner, _, rfl⟩ := Option.map_eq_some_iff.mp stepped
    dsimp only
    cases inner token with
    | more labels => trivial
    | done finished => trivial
  case h_6 =>
    obtain ⟨inner, goesOn, rfl⟩ := Option.map_eq_some_iff.mp stepped
    exact (FieldsState.isPlain_of_step plain goesOn token).within (fun _ kept => kept)
      fun _ kept => kept
  case h_7 =>
    obtain ⟨finished, ended, rfl⟩ := Option.map_eq_some_iff.mp stepped
    have finishedPlain : finished.IsPlain := RefState.isPlain_of_finished plain ended
    exact finishedPlain
  case h_8 =>
    obtain ⟨next, goesOn, rfl⟩ := Option.map_eq_some_iff.mp stepped
    exact RefState.isPlain_of_step plain goesOn token
  case h_9 =>
    cases stepped
    exact plain
  case h_10 => cases stepped

end BodyState

def WrittenItem.IsPlain : WrittenItem → Prop
  | .type _ _ body => body.IsPlain
  | _ => True

namespace ItemState

def IsPlain : ItemState → Prop
  | .typeBody _ _ body => body.IsPlain
  | _ => True

theorem isPlain_of_first {terminal : Terminal} {begin : Token → ItemState}
    (begun : first terminal = some begin) (token : Token) : (begin token).IsPlain := by
  unfold first at begun
  split at begun <;> cases begun <;> trivial

theorem isPlain_of_step {state : ItemState} {terminal : Terminal}
    {advance : Token → Advance ItemState WrittenItem} (plain : state.IsPlain)
    (stepped : state.step terminal = some advance) (token : Token) :
    (advance token).Holds IsPlain WrittenItem.IsPlain := by
  unfold step at stepped
  split at stepped
  case h_11 =>
    obtain ⟨inner, goesOn, rfl⟩ := Option.map_eq_some_iff.mp stepped
    exact (BodyState.isPlain_of_step plain goesOn token).within (fun _ kept => kept)
      fun _ kept => kept
  -- Only the body of a type holds references.
  all_goals cases stepped
  all_goals trivial

end ItemState

namespace ModuleState

def IsPlain : ModuleState → Prop
  | .items _ _ done => ∀ item ∈ done, item.IsPlain
  | .item _ _ done current => (∀ item ∈ done, item.IsPlain) ∧ current.IsPlain
  | _ => True

theorem isPlain_of_step {state : ModuleState} {terminal : Terminal} {next : Token → ModuleState}
    (plain : state.IsPlain) (stepped : state.step terminal = some next) (token : Token) :
    (next token).IsPlain := by
  unfold step at stepped
  split at stepped
  case h_1 | h_2 =>
    cases stepped
    trivial
  case h_3 =>
    cases stepped
    simp [IsPlain]
  case h_4 =>
    obtain ⟨begin, begun, rfl⟩ := Option.map_eq_some_iff.mp stepped
    exact ⟨plain, ItemState.isPlain_of_first begun token⟩
  case h_5 =>
    obtain ⟨advance, advanced, rfl⟩ := Option.map_eq_some_iff.mp stepped
    have kept := ItemState.isPlain_of_step plain.2 advanced token
    dsimp only
    cases reached : advance token with
    | more state =>
      rw [reached] at kept
      exact ⟨plain.1, kept⟩
    | done finished =>
      rw [reached] at kept
      exact List.forall_mem_cons.mpr ⟨kept, plain.1⟩
  case h_6 => cases stepped

end ModuleState

/-! ## Modules -/

namespace WrittenModule

theorem isPlain_of_read {text : List Char} {written : WrittenModule}
    (denotes : read text = .ok written) : ∀ item ∈ written.items, item.IsPlain := by
  have keeps : ∀ {state : ModuleState} {token : Token} {next : Token → ModuleState},
      state.IsPlain → token.Fits → machine.step state token.terminal = some next →
        (next token).IsPlain :=
    fun plain _ stepped => ModuleState.isPlain_of_step plain stepped _
  have start : machine.start.IsPlain := trivial
  obtain ⟨last, plain, finished⟩ := Machine.exists_finish_of_runFrom keeps start denotes
  cases last with
  | items position name done =>
    cases finished
    exact fun item member => plain item (List.mem_reverse.mp member)
  | _ => cases finished

theorem isPlain_of_buildDecl {module : String} {item : WrittenItem} {decl : TypeDecl}
    (plain : item.IsPlain) (built : buildDecl module item = .ok (.type decl)) :
    decl.definition.IsPlain := by
  cases mirrors_of_buildDecl built with
  | @type heading name body _ mirrors =>
    rw [TypeDef.IsPlain, TypeDef.refs, mirrors.definedFields, mirrors.ownFields, mirrors.target]
    cases body with
    | enum written => simp [WrittenBody.writtenFields, WrittenBody.target?]
    | fields form written =>
      have fieldsPlain : ∀ field ∈ written, field.ref.IsPlain := plain
      simpa [WrittenBody.writtenFields, WrittenBody.target?, WrittenField.placed] using fieldsPlain
    | «alias» target =>
      have targetPlain : target.IsPlain := plain
      simpa [WrittenBody.writtenFields, WrittenBody.target?] using targetPlain

end WrittenModule

/-- The definitions of a module that is read carry nothing that resolution adds. -/
theorem Module.IsParsed.isPlain {module : Module} (parsed : module.IsParsed) {decl : TypeDecl}
    (member : decl ∈ module.declaredTypes) : decl.definition.IsPlain := by
  obtain ⟨text, denotes⟩ := parsed
  rw [ofText] at denotes
  split at denotes
  · cases denotes
  · next written read =>
    obtain ⟨decls, built, same⟩ := exists_of_bind_eq_ok denotes
    cases same
    obtain ⟨found, inside, isType⟩ := List.mem_filterMap.mp member
    split at isType
    · cases isType
      obtain ⟨item, listed, builtDecl⟩ := WrittenModule.exists_item_of_buildDecls built _ inside
      exact WrittenModule.isPlain_of_buildDecl (WrittenModule.isPlain_of_read read item listed) builtDecl
    · cases isType

end WireModules
