import WireModules.Proofs.MachineRun
import WireModules.Proofs.ParsedModule

/-!
# Names in modules

What stands in a text as the name of a module, of an import or of a declaration is a name of the
language, whose characters are letters, digits and underscores.
-/

set_option autoImplicit false

namespace WireModules

/-- What an item imports or declares has a name. -/
def WrittenItem.Named : WrittenItem → Prop
  | .imported _ name | .constant _ name _ | .type _ name _ => Scan.isName name.toList = true

def ItemState.Named : ItemState → Prop
  | .imported _ name | .constantNamed _ name | .constantEqual _ name | .constantValued _ name _
  | .typeNamed _ name | .typeBody _ name _ => Scan.isName name.toList = true
  | _ => True

def ModuleState.Named : ModuleState → Prop
  | .named _ name => Scan.isName name.toList = true
  | .items _ name done => Scan.isName name.toList = true ∧ ∀ item ∈ done, item.Named
  | .item _ name done current =>
    Scan.isName name.toList = true ∧ (∀ item ∈ done, item.Named) ∧ current.Named
  | _ => True

namespace ItemState

/-- What the parts of an item have read so far has a name, if the next token fits. -/
def AdvanceNamed : Advance ItemState WrittenItem → Prop
  | .more next => next.Named
  | .done finished => finished.Named

theorem named_of_first {token : Token} {begin : Token → ItemState}
    (begun : first token.terminal = some begin) : (begin token).Named := by
  generalize token.terminal = terminal at begun
  unfold first at begun
  split at begun <;> cases begun <;> trivial

theorem named_of_step {state : ItemState} {token : Token}
    {advance : Token → Advance ItemState WrittenItem} (named : state.Named) (fits : token.Fits)
    (stepped : state.step token.terminal = some advance) : AdvanceNamed (advance token) := by
  rw [Token.Fits] at fits
  generalize token.terminal = terminal at fits stepped
  unfold step at stepped
  split at stepped
  case h_1 | h_5 | h_9 =>
    cases stepped
    exact fits
  case h_2 | h_6 | h_7 | h_8 | h_10 =>
    cases stepped
    exact named
  case h_3 | h_4 =>
    cases stepped
    trivial
  case h_11 =>
    obtain ⟨inner, _, rfl⟩ := Option.map_eq_some_iff.mp stepped
    change AdvanceNamed (Advance.within _ _ (inner token))
    cases inner token <;> exact named
  case h_12 => cases stepped

end ItemState

theorem ModuleState.named_of_step {state : ModuleState} {token : Token}
    {next : Token → ModuleState} (named : state.Named) (fits : token.Fits)
    (stepped : state.step token.terminal = some next) : (next token).Named := by
  rw [Token.Fits] at fits
  cases state with
  | start =>
    generalize token.terminal = terminal at stepped
    cases terminal <;> cases stepped
    trivial
  | heading position =>
    generalize token.terminal = terminal at fits stepped
    cases terminal <;> cases stepped
    exact fits
  | named position name =>
    generalize token.terminal = terminal at stepped
    cases terminal <;> cases stepped
    exact ⟨named, by simp⟩
  | items position name done =>
    obtain ⟨begin, begun, rfl⟩ := Option.map_eq_some_iff.mp stepped
    exact ⟨named.1, named.2, ItemState.named_of_first begun⟩
  | item position name done current =>
    obtain ⟨advance, advanced, rfl⟩ := Option.map_eq_some_iff.mp stepped
    have kept := ItemState.named_of_step named.2.2 fits advanced
    dsimp only
    cases reached : advance token with
    | more state =>
      rw [reached] at kept
      exact ⟨named.1, named.2.1, kept⟩
    | done finished =>
      rw [reached] at kept
      exact ⟨named.1, List.forall_mem_cons.mpr ⟨kept, named.2.1⟩⟩

theorem WrittenModule.named_of_read {text : List Char} {written : WrittenModule}
    (denotes : read text = .ok written) :
    Scan.isName written.name.toList = true ∧ ∀ item ∈ written.items, item.Named := by
  obtain ⟨last, named, finished⟩ :=
    Machine.exists_finish_of_runFrom ModuleState.named_of_step trivial denotes
  cases last with
  | items position name done =>
    cases finished
    refine ⟨named.1, ?_⟩
    intro item member
    exact named.2 item (List.mem_reverse.mp member)
  | _ => cases finished

namespace WrittenModule

theorem isName_of_buildDecl {module : String} {item : WrittenItem} {decl : Decl}
    (named : item.Named) (built : buildDecl module item = .ok decl) :
    Scan.isName decl.name.toList = true := by
  cases mirrors_of_buildDecl built with
  | imported position name => exact named
  | constant heading name read => exact named
  | type mirrors =>
    rw [Decl.name, mirrors.ownName]
    exact named

end WrittenModule

namespace Module

variable {module : Module}

theorem IsParsed.isName (parsed : module.IsParsed) :
    Scan.isName module.name.toList = true ∧
      ∀ decl ∈ module.decls, Scan.isName decl.name.toList = true := by
  obtain ⟨text, denotes⟩ := parsed
  rw [ofText] at denotes
  split at denotes
  · cases denotes
  · next written read =>
    obtain ⟨decls, built, same⟩ := exists_of_bind_eq_ok denotes
    cases same
    obtain ⟨named, itemsNamed⟩ := WrittenModule.named_of_read read
    refine ⟨named, ?_⟩
    intro decl member
    obtain ⟨item, listed, builtDecl⟩ := WrittenModule.exists_item_of_buildDecls built decl member
    exact WrittenModule.isName_of_buildDecl (itemsNamed item listed) builtDecl

theorem IsParsed.isName_import (parsed : module.IsParsed) {imported : Import}
    (member : imported ∈ module.imports) : Scan.isName imported.name.toList = true := by
  obtain ⟨decl, inside, isImport⟩ := List.mem_filterMap.mp member
  split at isImport
  · cases isImport
    exact parsed.isName.2 _ inside
  · cases isImport

theorem IsParsed.isName_type (parsed : module.IsParsed) {decl : TypeDecl}
    (member : decl ∈ module.declaredTypes) : Scan.isName decl.name.toList = true := by
  obtain ⟨found, inside, isType⟩ := List.mem_filterMap.mp member
  split at isType
  · cases isType
    exact parsed.isName.2 _ inside
  · cases isType

end Module

theorem ProgramUnit.IsParsed.isName {unit : ProgramUnit} (parsed : unit.IsParsed) :
    Scan.isName unit.moduleId.toList = true := by
  rw [parsed.ownName]
  exact parsed.parsed.isName.1

end WireModules
