import WireModules.Proofs.ModuleRoundTrip
import WireModules.Proofs.PlainReferences

/-!
# References read as they are shown

A reference that is not resolved is shown as it can be spelled in a module. Where a field of a struct
is spelled in this way, the reference of the field is the one that was shown.
-/

set_option autoImplicit false

namespace WireModules

open Word ModuleTree

/-! ## Words of a reference that is shown -/

namespace TypeRef

/-- A reference has words, whose text is how it is shown. -/
def IsSpelled (ref : TypeRef) : Prop :=
  ∃ first tail, RefWords ref.erased first tail ∧
    Spaced false (Word.name first :: tail) ref.render.toList

theorem exists_argWords {args : List TypeRef} (some : args ≠ [])
    (spelled : ∀ arg ∈ args, arg.IsSpelled) :
    ∃ words, ArgWords (args.map erased) words ∧
      Spaced false words (", ".intercalate (args.map render)).toList := by
  induction args with
  | nil => exact absurd rfl some
  | cons arg rest ih =>
    obtain ⟨own, others⟩ := List.forall_mem_cons.mp spelled
    obtain ⟨first, tail, refWords, spaced⟩ := own
    cases rest with
    | nil =>
      refine ⟨_, .last refWords, ?_⟩
      simpa using spaced
    | cons next later =>
      obtain ⟨words, argWords, spacedRest⟩ := ih (by simp) others
      refine ⟨_, .more refWords argWords, ?_⟩
      have blank : Gap [' '] := .blank rfl .nil
      have following : Spaced true (ofTerminal .comma :: words) _ :=
        .sign (by decide) (spacedRest.append_left blank)
      have comma : (ofTerminal .comma).text = [','] := rfl
      simpa [comma] using spaced.append_weaken following

theorem isSpelled (ref : TypeRef) (unresolved : ∀ node ∈ ref.nodes, node.resolved = none)
    (named : ∀ node ∈ ref.nodes, IsScopedName node.name) : ref.IsSpelled := by
  induction ref using argsInduction with
  | node name args resolved kind ih =>
    obtain ⟨isOpen, unresolvedArgs⟩ := forall_mem_nodes_mk.mp unresolved
    obtain ⟨⟨parts, nonempty, identifiers, joined⟩, namedArgs⟩ := forall_mem_nodes_mk.mp named
    obtain ⟨first, others, rfl⟩ := List.exists_cons_of_ne_nil nonempty
    obtain ⟨isFirst, areOthers⟩ := List.forall_mem_cons.mp identifiers
    change resolved = none at isOpen
    change name = _ at joined
    subst isOpen
    rw [intercalate_eq_foldl] at joined
    subst joined
    have spelled : ∀ arg ∈ args, arg.IsSpelled := fun arg member =>
      ih arg member (unresolvedArgs arg member) (namedArgs arg member)
    rw [IsSpelled, erased_mk]
    cases args with
    | nil => exact ⟨first, _, .plain isFirst areOthers, spaced_name first others⟩
    | cons arg rest =>
      obtain ⟨words, argWords, spaced⟩ := exists_argWords (by simp) spelled
      refine ⟨first, _, .generic isFirst areOthers argWords, ?_⟩
      have closing : Spaced true [ofTerminal .moreThan] _ := .sign (by decide) (.done .nil)
      have opened : Spaced true (ofTerminal .lessThan :: (words ++ [ofTerminal .moreThan])) _ :=
        .sign (by decide) (spaced.append_weaken closing)
      have less : (ofTerminal .lessThan).text = ['<'] := rfl
      have more : (ofTerminal .moreThan).text = ['>'] := rfl
      simpa [render, renderAll_eq_map, shownName, less, more] using
        (spaced_name first others).append_weaken opened

/-- A reference that is not resolved, and not told a kind either, is as it is spelled. -/
theorem isPlain_of_unbound (ref : TypeRef) (unresolved : ∀ node ∈ ref.nodes, node.resolved = none)
    (unkinded : ∀ node ∈ ref.nodes, node.kind = none) : ref.IsPlain := by
  induction ref using argsInduction with
  | node name args resolved kind ih =>
    obtain ⟨isOpen, unresolvedArgs⟩ := forall_mem_nodes_mk.mp unresolved
    obtain ⟨hasNoKind, unkindedArgs⟩ := forall_mem_nodes_mk.mp unkinded
    cases isOpen
    cases hasNoKind
    exact isPlain_of_args fun arg member =>
      ih arg member (unresolvedArgs arg member) (unkindedArgs arg member)

end TypeRef

/-! ## A field of a struct -/

/-- A module with a struct, all but the reference of one of its fields. -/
structure AroundField where
  module : String
  earlier : List Item
  linkage : Linkage
  type : String
  before : List TypedField
  field : String
  after : List TypedField
  later : List Item

namespace AroundField

/-- The fields of the struct where the reference is filled in. -/
def fields (around : AroundField) (ref : TypeRef) : List TypedField :=
  around.before ++ ⟨around.field, ref⟩ :: around.after

def tree (around : AroundField) (ref : TypeRef) : ModuleTree :=
  ⟨around.module, around.earlier ++
    .type around.linkage around.type (.fields .struct (around.fields ref)) :: around.later⟩

/-- The words before the reference and those after it. -/
inductive Words : AroundField → List Word → List Word → Prop where
  | mk {module type field : String} {earlier later : List Item} {linkage : Linkage}
      {before after : List TypedField}
      {earlierWords linkageWords beforeWords afterWords laterWords : List Word} :
      IsIdentifier module → ItemsWords earlier earlierWords → LinkageWords linkage linkageWords →
      IsIdentifier type → FieldsWords before beforeWords → IsIdentifier field →
      FieldsWords after afterWords → ItemsWords later laterWords →
      Words ⟨module, earlier, linkage, type, before, field, after, later⟩
        ((ofTerminal .module :: Word.name module :: ofTerminal .semicolon :: earlierWords ++
          linkageWords ++ ofTerminal .type :: Word.name type :: ofTerminal .equal ::
            ofTerminal .struct :: ofTerminal .leftBrace :: beforeWords ++ [Word.name field]) ++
              [ofTerminal .colon])
        (ofTerminal .semicolon :: (afterWords ++
          [ofTerminal .rightBrace, ofTerminal .semicolon] ++ laterWords))

variable {around : AroundField} {front back tail : List Word} {ref : TypeRef} {first : String}

theorem Words.fill (words : around.Words front back) (refWords : RefWords ref first tail) :
    (around.tree ref).Words (front ++ Word.name first :: tail ++ back) := by
  cases words with
  | mk isModule earlier linkage isType before isField after later =>
    have members := before.append (.cons isField refWords after)
    have item := ItemWords.type linkage isType (@BodyWords.fields .struct _ _ members)
    simpa [tree, fields, formWord] using
      ModuleTree.Words.module isModule (earlier.append (.cons item later))

/-- The part of the text before the reference ends in a sign, and the part after it begins with one. -/
theorem Words.isText (words : around.Words front back) (refWords : RefWords ref first tail)
    {opening shown closing : List Char} (opens : Spaced false front opening)
    (spaced : Spaced false (Word.name first :: tail) shown) (closes : Spaced false back closing) :
    (around.tree ref).IsText (opening ++ shown ++ closing) := by
  refine ⟨_, words.fill refWords, ?_⟩
  cases words with
  | mk =>
    refine Spaced.append_weaken (Spaced.append opens ?_) (closes.of_sign rfl)
    rw [Spaced.sticks, List.foldl_append]
    exact spaced

/-- The declared type whose field it is. -/
structure Declares (around : AroundField) (ref : TypeRef) (module : Module) (decl : TypeDecl) :
    Prop where
  member : .type decl ∈ module.decls
  name : decl.name = around.type
  kind : decl.definition.kind = .struct
  fields : decl.definition.fields = around.fields ref

theorem exists_declares {module : Module} (same : module.unplaced = (around.tree ref).module) :
    ∃ decl, around.Declares ref module decl := by
  have member : .type around.linkage around.type (.fields .struct (around.fields ref)) ∈
      (around.tree ref).items := by
    simp [tree]
  obtain ⟨decl, inside, named, defined⟩ := exists_type_of_unplaced same member
  exact ⟨decl, inside, named, congrArg (·.kind) defined, congrArg (·.fields) defined⟩

/-- Whatever module stands around a field, and however it is written, a field that is spelled as an
unresolved reference is shown has this reference. Kinds are not shown: a text tells none. -/
theorem parse_render (around : AroundField) (ref : TypeRef)
    (unresolved : ∀ node ∈ ref.nodes, node.resolved = none)
    (named : ∀ node ∈ ref.nodes, IsScopedName node.name)
    (distinct : (around.tree ref.erased).Distinct) (words : around.Words front back)
    {opening closing : List Char} (opens : Spaced false front opening)
    (closes : Spaced false back closing) (file : Option String) :
    ∃ module decl,
      Module.parse (opening ++ ref.render.toList ++ closing) file = .ok (.ok module) ∧
        around.Declares ref.erased module decl ∧
          ((∀ node ∈ ref.nodes, node.kind = none) → ref.erased = ref) := by
  obtain ⟨first, tail, refWords, spaced⟩ := ref.isSpelled unresolved named
  obtain ⟨written, wasRead, said⟩ := (words.isText refWords opens spaced closes).read
  obtain ⟨module, built, same⟩ := said.build distinct
  obtain ⟨decl, declares⟩ := exists_declares same
  have denotes : Module.ofText (opening ++ ref.render.toList ++ closing) = .ok module := by
    rw [Module.ofText, wasRead]
    exact built
  refine ⟨module, decl, ?_, declares, ref.isPlain_of_unbound unresolved⟩
  rw [Module.parse, denotes]

/-! ## A field whose names are keywords -/

def keywordField : AroundField :=
  ⟨"import", [], .external, "type", [], "unit", [⟨"module", { name := "bool" }⟩], []⟩

def keywordRef : TypeRef :=
  { name := "enum::const"
    args := [{ name := "struct" }, { name := "vector", args := [{ name := "public" }] }] }

def keywordOpening : List Char :=
  "module import; #!\npublic type type=struct\x7bunit :".toList

def keywordClosing : List Char :=
  ";module:bool;\x7d;\n".toList

theorem keywordField_words : ∃ front back, keywordField.Words front back ∧
    Spaced false front keywordOpening ∧ Spaced false back keywordClosing := by
  have scalar : RefWords { name := "bool" } "bool" [] := @RefWords.plain "bool" [] (by rfl) (by simp)
  refine ⟨_, _, .mk (by rfl) .nil .external (by rfl) .nil (by rfl) (.cons (by rfl) scalar .nil) .nil,
    ?_, ?_⟩
  · unfold keywordOpening
    simp only [String.reduceToList]
    have comment : Gap [' ', '#', '!', '\n'] := .blank rfl (@Gap.comment ['!'] [] (by decide) .nil)
    refine .word .nil (by decide) (.word (.blank rfl .nil) (by decide) (.word .nil (by decide) ?_))
    refine .word comment (by decide) (.word (.blank rfl .nil) (by decide) ?_)
    refine .word (.blank rfl .nil) (by decide) ?_
    iterate 4 refine .word .nil (by decide) ?_
    exact .word (.blank rfl .nil) (by decide) (.done .nil)
  · unfold keywordClosing
    simp only [String.reduceToList]
    iterate 7 refine .word .nil (by decide) ?_
    exact .done (.blank rfl .nil)

theorem keywordRef_named : ∀ node ∈ keywordRef.nodes, IsScopedName node.name := by
  have joined : IsScopedName "enum::const" := by
    refine ⟨["enum", "const"], by simp, ?_, by decide⟩
    rintro part (_ | ⟨_, _ | ⟨_, ⟨⟩⟩⟩) <;> rfl
  have single : ∀ name, IsIdentifier name → IsScopedName name := by
    intro name isName
    refine ⟨[name], by simp, by simpa using isName, by simp⟩
  intro node member
  simp only [keywordRef, TypeRef.nodes_mk, List.flatMap_cons, List.flatMap_nil, List.mem_cons,
    List.append_nil, List.cons_append, List.nil_append, List.not_mem_nil, or_false] at member
  rcases member with rfl | rfl | rfl | rfl
  · exact joined
  · exact single _ (by rfl)
  · exact single _ (by rfl)
  · exact single _ (by rfl)

theorem parse_render_keywords :
    (∀ node ∈ keywordRef.nodes, node.resolved = none) ∧
      (keywordField.tree keywordRef.erased).Distinct ∧
        ∃ module decl,
          Module.parse (keywordOpening ++ keywordRef.render.toList ++ keywordClosing) none =
              .ok (.ok module) ∧
            keywordField.Declares keywordRef.erased module decl ∧
              ((∀ node ∈ keywordRef.nodes, node.kind = none) → keywordRef.erased = keywordRef) := by
  have unresolved : ∀ node ∈ keywordRef.nodes, node.resolved = none := by decide
  have distinct : (keywordField.tree keywordRef.erased).Distinct := by
    refine ⟨by decide, ?_⟩
    intro item member
    cases List.mem_singleton.mp member
    change List.Nodup ["unit", "module"]
    decide
  obtain ⟨front, back, words, opens, closes⟩ := keywordField_words
  exact ⟨unresolved, distinct,
    parse_render keywordField keywordRef unresolved keywordRef_named distinct words opens closes none⟩

end AroundField

end WireModules
